import Bcmd.LockOrder

/-!
# One Write call at a time

gRPC wants at most one Write call outstanding on a stream. A writer that is registered once stands in
one entry for its whole life, whatever the table does with that entry, and whoever writes to it holds
the entry's `write_mutex` meanwhile. So no two Write calls on it overlap.
-/

namespace Bcmd

namespace Threaded

/-- The entry has not been made yet. -/
def Unused (x : Threaded) : Entry → Prop
  | .client entry => x.table.nextEntry ≤ entry
  | .channelList entry => x.listTable.nextEntry ≤ entry

variable {x : Threaded} {id : ClientId} {w : StreamId} {e : EntryId} {entry : Entry}

/-- Where one entry of a client changes. -/
theorem writer_client {x' : Threaded} {v : Option StreamId} (hlist : x'.listTable.writer = x.listTable.writer)
    (htable : x'.table.writer = Function.update x.table.writer e v) :
    x'.writer = Function.update x.writer (.client e) (v.map Writer.channel) := by
  funext entry
  rw [Function.update_apply]
  cases entry with
  | client e' =>
    show (x'.table.writer e').map Writer.channel = _
    rw [htable, Function.update_apply]
    by_cases he : e' = e
    · subst he
      rw [if_pos rfl, if_pos rfl]
    · rw [if_neg he, if_neg fun h => he (Entry.client.inj h)]
      rfl
  | channelList e' =>
    rw [if_neg nofun]
    exact congrArg (fun f => (f e').map Writer.channelList) hlist

/-- And one entry of the channel list. -/
theorem writer_channelList {x' : Threaded} {v : Option StreamId} (htable : x'.table.writer = x.table.writer)
    (hlist : x'.listTable.writer = Function.update x.listTable.writer e v) :
    x'.writer = Function.update x.writer (.channelList e) (v.map Writer.channelList) := by
  funext entry
  rw [Function.update_apply]
  cases entry with
  | client e' =>
    rw [if_neg nofun]
    exact congrArg (fun f => (f e').map Writer.channel) htable
  | channelList e' =>
    show (x'.listTable.writer e').map Writer.channelList = _
    rw [hlist, Function.update_apply]
    by_cases he : e' = e
    · subst he
      rw [if_pos rfl, if_pos rfl]
    · rw [if_neg he, if_neg fun h => he (Entry.channelList.inj h)]
      rfl

theorem writer_insert :
    writer { x with table := x.table.insert id w } =
      Function.update x.writer (.client x.table.nextEntry) (some (.channel w)) :=
  writer_client (v := some w) rfl rfl

theorem writer_listInsert :
    writer { x with listTable := { x.listTable.insert id w with registering := none } } =
      Function.update x.writer (.channelList x.listTable.nextEntry) (some (.channelList w)) :=
  writer_channelList (v := some w) rfl rfl

theorem writer_disarm : (handle (.disarm entry) x).2.writer = Function.update x.writer entry none := by
  cases entry with
  | client e => exact writer_client (v := none) rfl rfl
  | channelList e => exact writer_channelList (v := none) rfl rfl

/-- A write leaves the entries as they are. -/
theorem writer_beginWrite (event : ChannelEvent) :
    (handle (.beginWrite e event) x).2.writer = x.writer ∧
      ∀ entry, (handle (.beginWrite e event) x).2.Unused entry ↔ x.Unused entry := by
  have htable : (x.table.write e event).writer = x.table.writer ∧
      (x.table.write e event).nextEntry = x.table.nextEntry := by
    rw [WriterTable.write_eq]
    exact ⟨rfl, rfl⟩
  constructor
  · funext entry
    cases entry with
    | client e' => exact congrArg (fun f => (f e').map Writer.channel) htable.1
    | channelList e' => rfl
  · rintro (e' | e')
    · show (x.table.write e event).nextEntry ≤ e' ↔ _
      rw [htable.2]
      rfl
    · rfl

theorem writer_beginListWrite (event : ChannelListEvent) :
    (handle (.beginListWrite e event) x).2.writer = x.writer ∧
      ∀ entry, (handle (.beginListWrite e event) x).2.Unused entry ↔ x.Unused entry := by
  have htable : (x.listTable.write e event).writer = x.listTable.writer ∧
      (x.listTable.write e event).nextEntry = x.listTable.nextEntry := by
    rw [ListTable.write_eq]
    exact ⟨rfl, rfl⟩
  constructor
  · funext entry
    cases entry with
    | client e' => rfl
    | channelList e' => exact congrArg (fun f => (f e').map Writer.channelList) htable.1
  · rintro (e' | e')
    · rfl
    · show (x.listTable.write e event).nextEntry ≤ e' ↔ _
      rw [htable.2]
      rfl

end Threaded

/-- The writer for which an act makes an entry. -/
def Act.registers : Act → Option Writer
  | .insert _ w => some (.channel w)
  | .listInsert _ w => some (.channelList w)
  | _ => none

def registered : LockCall Lock Act → Option Writer
  | .act a => a.registers
  | .acquire .. | .release _ => none

section
variable {ι α : Type}

/-- The writers that were registered in a run, in order. -/
def registrations (tr : List (LockEvent Threaded ι Lock Act Act.Res α)) :
    List Writer :=
  tr.filterMap fun e => registered e.call.2

theorem registrations_snoc
    (tr : List (LockEvent Threaded ι Lock Act Act.Res α))
    (e : LockEvent Threaded ι Lock Act Act.Res α) :
    registrations (tr ++ [e]) = registrations tr ++ (registered e.call.2).toList := by
  unfold registrations
  rw [List.filterMap_append]
  rfl

/-- Every writer stands in one entry. Whoever has begun a Write call on it holds the entry's mutex, and
no call on it is under way but that one. -/
structure Serial (registered : List Writer) (g : LockState Threaded ι Lock)
    (phase : ι → Option (Entry × Writer)) :
    Prop where
  unused : ∀ entry, g.state.Unused entry → g.state.writer entry = none
  known : ∀ entry w, g.state.writer entry = some w → w ∈ registered
  once : ∀ entry entry' w, g.state.writer entry = some w → g.state.writer entry' = some w → entry = entry'
  busy : ∀ i entry w, phase i = some (entry, w) → g.held i (.writeMutex entry) = some .exclusive ∧
    g.state.writer entry = some w ∧ g.state.writing w = 1
  idle : ∀ w, g.state.writing w ≠ 0 → ∃ i entry, phase i = some (entry, w)

namespace Serial
variable {registered : List Writer} {g : LockState Threaded ι Lock} {phase : ι → Option (Entry × Writer)}
  {x : Threaded} {i : ι} {entry : Entry} {w : Writer}

theorem writing_le (h : Serial registered g phase) (w : Writer) : g.state.writing w ≤ 1 := by
  by_cases hw : g.state.writing w = 0
  · omega
  · obtain ⟨i, entry, hi⟩ := h.idle w hw
    have hone := (h.busy i entry w hi).2.2
    omega

/-- Nothing happens to the entries and to the Write calls. -/
theorem same (h : Serial registered g phase) (hwriter : x.writer = g.state.writer)
    (hunused : ∀ entry, x.Unused entry → g.state.Unused entry) (hwriting : x.writing = g.state.writing) :
    Serial registered { g with state := x } phase := by
  refine ⟨fun entry he => ?_, fun entry w => ?_, fun entry entry' w => ?_, fun i entry w hi => ?_,
    fun w => ?_⟩
  · show x.writer entry = none
    rw [hwriter]
    exact h.unused entry (hunused entry he)
  · show x.writer entry = some w → _
    rw [hwriter]
    exact h.known entry w
  · show x.writer entry = some w → x.writer entry' = some w → _
    rw [hwriter]
    exact h.once entry entry' w
  · show _ ∧ x.writer entry = some w ∧ x.writing w = 1
    rw [hwriter, hwriting]
    exact h.busy i entry w hi
  · show x.writing w ≠ 0 → _
    rw [hwriting]
    exact h.idle w

theorem env {g' : LockState Threaded ι Lock} (h : Serial registered g phase) (he : Threaded.Env g g') :
    Serial registered g' phase := by
  obtain ⟨x, held⟩ := g'
  obtain rfl : held = g.held := he.held
  refine h.same (funext ?_) ?_ he.writing
  · rintro (e | e)
    · exact congrArg (fun t : WriterTable => (t.writer e).map Writer.channel) he.table
    · exact congrArg (fun t : ListTable => (t.writer e).map Writer.channelList) he.listTable
  · rintro (e | e) hunused
    · exact (congrArg WriterTable.nextEntry he.table).symm.trans_le hunused
    · exact (congrArg ListTable.nextEntry he.listTable).symm.trans_le hunused

/-- What an idle thread holds does not matter. -/
theorem held {g' : LockState Threaded ι Lock} (h : Serial registered g phase) (hstate : g'.state = g.state)
    (hidle : phase i = none) (hothers : ∀ j, j ≠ i → g'.held j = g.held j) : Serial registered g' phase := by
  refine ⟨?_, ?_, ?_, fun j entry w hj => ?_, ?_⟩
  · rw [hstate]
    exact h.unused
  · rw [hstate]
    exact h.known
  · rw [hstate]
    exact h.once
  · have hne : j ≠ i := by
      rintro rfl
      rw [hidle] at hj
      cases hj
    rw [hstate, hothers j hne]
    exact h.busy j entry w hj
  · rw [hstate]
    exact h.idle

/-- A new entry for a writer that had none. -/
theorem register (h : Serial registered g phase) (hentry : g.state.Unused entry) (hw : w ∉ registered)
    (hwriter : x.writer = Function.update g.state.writer entry (some w))
    (hunused : ∀ entry', x.Unused entry' → g.state.Unused entry' ∧ entry' ≠ entry)
    (hwriting : x.writing = g.state.writing) :
    Serial (registered ++ [w]) { g with state := x } phase := by
  have hold : ∀ entry' w', x.writer entry' = some w' →
      entry' = entry ∧ w' = w ∨ g.state.writer entry' = some w' := by
    intro entry' w' he
    rw [hwriter, Function.update_apply] at he
    split at he
    · exact .inl ⟨‹_›, (Option.some.inj he).symm⟩
    · exact .inr he
  refine ⟨fun entry' he => ?_, fun entry' w' he => ?_, fun e₁ e₂ w' h₁ h₂ => ?_, fun i entry' w' hi => ?_,
    fun w' => ?_⟩
  · obtain ⟨hun, hne⟩ := hunused entry' he
    show x.writer entry' = none
    rw [hwriter, Function.update_of_ne hne]
    exact h.unused entry' hun
  · rcases hold entry' w' he with ⟨-, rfl⟩ | hk
    · exact List.mem_append_right _ (List.mem_singleton_self w')
    · exact List.mem_append_left _ (h.known entry' w' hk)
  · rcases hold e₁ w' h₁ with ⟨rfl, rfl⟩ | hk₁ <;> rcases hold e₂ w' h₂ with ⟨rfl, hw'⟩ | hk₂
    · rfl
    · exact absurd (h.known e₂ w' hk₂) hw
    · exact absurd (hw' ▸ h.known e₁ w' hk₁) hw
    · exact h.once e₁ e₂ w' hk₁ hk₂
  · obtain ⟨hmutex, hwr, hone⟩ := h.busy i entry' w' hi
    have hne : entry' ≠ entry := by
      rintro rfl
      rw [h.unused entry' hentry] at hwr
      cases hwr
    refine ⟨hmutex, ?_, ?_⟩
    · show x.writer entry' = some w'
      rw [hwriter, Function.update_of_ne hne]
      exact hwr
    · show x.writing w' = 1
      rw [hwriting]
      exact hone
  · show x.writing w' ≠ 0 → _
    rw [hwriting]
    exact h.idle w'

/-- Whoever disarms an entry holds its mutex, so no Write call on its writer is under way. -/
theorem disarm (h : Serial registered g phase) (hex : g.Exclusive) (hidle : phase i = none)
    (hmutex : g.held i (.writeMutex entry) = some .exclusive)
    (hwriter : x.writer = Function.update g.state.writer entry none)
    (hunused : ∀ entry', x.Unused entry' → g.state.Unused entry') (hwriting : x.writing = g.state.writing) :
    Serial registered { g with state := x } phase := by
  have hold : ∀ entry' w', x.writer entry' = some w' → g.state.writer entry' = some w' := by
    intro entry' w' he
    rw [hwriter, Function.update_apply] at he
    split at he
    · cases he
    · exact he
  refine ⟨fun entry' he => ?_, fun entry' w' he => h.known entry' w' (hold _ _ he),
    fun e₁ e₂ w' h₁ h₂ => h.once e₁ e₂ w' (hold _ _ h₁) (hold _ _ h₂), fun j entry' w' hj => ?_, fun w' => ?_⟩
  · show x.writer entry' = none
    rw [hwriter, Function.update_apply]
    split
    · rfl
    · exact h.unused entry' (hunused entry' he)
  · obtain ⟨hmutex', hwr, hone⟩ := h.busy j entry' w' hj
    have hne : entry' ≠ entry := by
      rintro rfl
      obtain rfl := hex i j _ hmutex (by rw [hmutex']; nofun)
      rw [hidle] at hj
      cases hj
    refine ⟨hmutex', ?_, ?_⟩
    · show x.writer entry' = some w'
      rw [hwriter, Function.update_of_ne hne]
      exact hwr
    · show x.writing w' = 1
      rw [hwriting]
      exact hone
  · show x.writing w' ≠ 0 → _
    rw [hwriting]
    exact h.idle w'

variable [DecidableEq ι]

/-- A Write call begins under the entry's mutex. Another one on the same writer would be under it too. -/
theorem begin (h : Serial registered g phase) (hex : g.Exclusive) (hidle : phase i = none)
    (hmutex : g.held i (.writeMutex entry) = some .exclusive) (hw : g.state.writer entry = some w)
    (hwriter : x.writer = g.state.writer) (hunused : ∀ entry', x.Unused entry' → g.state.Unused entry')
    (hwriting : x.writing = Function.update g.state.writing w (g.state.writing w + 1)) :
    Serial registered { g with state := x } (Function.update phase i (some (entry, w))) := by
  have hnone : ∀ j entry', phase j ≠ some (entry', w) := by
    intro j entry' hj
    obtain ⟨hmutex', hw', -⟩ := h.busy j entry' w hj
    obtain rfl := h.once entry entry' w hw hw'
    obtain rfl := hex i j _ hmutex (by rw [hmutex']; nofun)
    rw [hidle] at hj
    cases hj
  have hzero : g.state.writing w = 0 := by
    by_contra hne
    obtain ⟨j, entry', hj⟩ := h.idle w hne
    exact hnone j entry' hj
  refine ⟨fun entry' he => ?_, fun entry' w' => ?_, fun e₁ e₂ w' => ?_, fun j entry' w' hj => ?_,
    fun w' hw' => ?_⟩
  · show x.writer entry' = none
    rw [hwriter]
    exact h.unused entry' (hunused entry' he)
  · show x.writer entry' = some w' → _
    rw [hwriter]
    exact h.known entry' w'
  · show x.writer e₁ = some w' → x.writer e₂ = some w' → _
    rw [hwriter]
    exact h.once e₁ e₂ w'
  · show _ ∧ x.writer entry' = some w' ∧ x.writing w' = 1
    rw [hwriter, hwriting]
    by_cases hji : j = i
    · subst hji
      rw [Function.update_self] at hj
      cases hj
      rw [Function.update_self, hzero]
      exact ⟨hmutex, hw, rfl⟩
    · rw [Function.update_of_ne hji] at hj
      have hne : w' ≠ w := by
        rintro rfl
        exact hnone j entry' hj
      rw [Function.update_of_ne hne]
      exact h.busy j entry' w' hj
  · by_cases hww : w' = w
    · subst hww
      exact ⟨i, entry, Function.update_self ..⟩
    · have hw'' : x.writing w' ≠ 0 := hw'
      rw [hwriting, Function.update_of_ne hww] at hw''
      obtain ⟨j, entry', hj⟩ := h.idle w' hw''
      have hji : j ≠ i := by
        rintro rfl
        rw [hidle] at hj
        cases hj
      exact ⟨j, entry', (Function.update_of_ne hji ..).trans hj⟩

/-- Where the entry has no writer any more, no call begins. -/
theorem write (h : Serial registered g phase) (hex : g.Exclusive) (hidle : phase i = none)
    (hmutex : g.held i (.writeMutex entry) = some .exclusive)
    (hwriter : x.writer = g.state.writer) (hunused : ∀ entry', x.Unused entry' → g.state.Unused entry')
    (hwriting : x.writing = Threaded.begun g.state.writing (g.state.writer entry)) :
    Serial registered { g with state := x } (Function.update phase i
      ((g.state.writer entry).map (entry, ·))) := by
  rcases hw : g.state.writer entry with _ | w
  · rw [hw] at hwriting
    rw [Option.map_none, ← hidle, Function.update_eq_self]
    exact h.same hwriter hunused hwriting
  · rw [hw] at hwriting
    exact h.begin hex hidle hmutex hw hwriter hunused hwriting

/-- The Write call that ends was the only one on its writer. -/
theorem finish (h : Serial registered g phase) (hex : g.Exclusive) (hbusy : phase i = some (entry, w)) :
    Serial registered
      { g with state := { g.state with writing := Function.update g.state.writing w (g.state.writing w - 1) } }
      (Function.update phase i none) := by
  obtain ⟨hmutex, hw, hone⟩ := h.busy i entry w hbusy
  refine ⟨h.unused, h.known, h.once, fun j entry' w' hj => ?_, fun w' hw' => ?_⟩
  · have hji : j ≠ i := by
      rintro rfl
      rw [Function.update_self] at hj
      cases hj
    rw [Function.update_of_ne hji] at hj
    obtain ⟨hmutex', hwr', hone'⟩ := h.busy j entry' w' hj
    have hne : w' ≠ w := by
      rintro rfl
      obtain rfl := h.once entry entry' w' hw hwr'
      exact hji (hex i j _ hmutex (by rw [hmutex']; nofun)).symm
    exact ⟨hmutex', hwr', (Function.update_of_ne hne ..).trans hone'⟩
  · have hne : w' ≠ w := by
      rintro rfl
      have hzero : Function.update g.state.writing w' (g.state.writing w' - 1) w' = 0 := by
        rw [Function.update_self, hone]
      exact hw' hzero
    have hw'' : g.state.writing w' ≠ 0 := fun h0 => hw' ((Function.update_of_ne hne ..).trans h0)
    obtain ⟨j, entry', hj⟩ := h.idle w' hw''
    have hji : j ≠ i := by
      rintro rfl
      rw [hbusy] at hj
      cases hj
      exact hne rfl
    exact ⟨j, entry', (Function.update_of_ne hji ..).trans hj⟩

/-- What one act of a disciplined thread does to the Write calls. -/
theorem act (h : Serial registered g phase) (hex : g.Exclusive) {a : Act}
    (hallowed : a.Allowed (g.held i) (phase i)) (hnew : ∀ w, a.registers = some w → w ∉ registered) :
    Serial (registered ++ a.registers.toList) { g with state := (acts.handle a g.state).2 }
      (Function.update phase i (a.after (phase i) (acts.handle a g.state).1)) := by
  rcases hphase : phase i with _ | ⟨entry, w⟩
  · rw [hphase] at hallowed
    -- most acts touch no entry and no Write call
    have hquiet : a.registers = none → a.after none (acts.handle a g.state).1 = none →
        (acts.handle a g.state).2.writer = g.state.writer →
        (∀ entry, (acts.handle a g.state).2.Unused entry → g.state.Unused entry) →
        (acts.handle a g.state).2.writing = g.state.writing →
        Serial (registered ++ a.registers.toList) { g with state := (acts.handle a g.state).2 }
          (Function.update phase i (a.after none (acts.handle a g.state).1)) := by
      intro hnone hafter hwriter hunused hwriting
      rw [hnone, hafter, Option.toList_none, List.append_nil, ← hphase, Function.update_eq_self]
      exact h.same hwriter hunused hwriting
    cases a with
    | insert id w =>
      have hafter : Function.update phase i none = phase := by rw [← hphase, Function.update_eq_self]
      show Serial (registered ++ [.channel w]) _ (Function.update phase i none)
      rw [hafter]
      have hunused : g.state.Unused (.client g.state.table.nextEntry) := le_refl _
      refine h.register hunused (hnew _ rfl) Threaded.writer_insert ?_ rfl
      rintro (e | e) he
      · have he' : g.state.table.nextEntry + 1 ≤ e := he
        refine ⟨Nat.le_of_succ_le he', ?_⟩
        rintro ⟨⟩
        exact Nat.not_succ_le_self _ he'
      · exact ⟨he, nofun⟩
    | listInsert id w =>
      have hafter : Function.update phase i none = phase := by rw [← hphase, Function.update_eq_self]
      show Serial (registered ++ [.channelList w]) _ (Function.update phase i none)
      rw [hafter]
      have hunused : g.state.Unused (.channelList g.state.listTable.nextEntry) := le_refl _
      refine h.register hunused (hnew _ rfl) Threaded.writer_listInsert ?_ rfl
      rintro (e | e) he
      · exact ⟨he, nofun⟩
      · have he' : g.state.listTable.nextEntry + 1 ≤ e := he
        refine ⟨Nat.le_of_succ_le he', ?_⟩
        rintro ⟨⟩
        exact Nat.not_succ_le_self _ he'
    | disarm entry =>
      have hafter : Function.update phase i none = phase := by rw [← hphase, Function.update_eq_self]
      show Serial (registered ++ []) _ (Function.update phase i none)
      rw [hafter, List.append_nil]
      refine h.disarm hex hphase hallowed Threaded.writer_disarm ?_ ?_
      · rcases entry with e | e <;> rintro (e' | e') he <;> exact he
      · rcases entry with e | e <;> rfl
    | beginWrite e event =>
      obtain ⟨hwriter, hunused⟩ := Threaded.writer_beginWrite (x := g.state) (e := e) event
      show Serial (registered ++ []) _ _
      rw [List.append_nil]
      exact h.write hex hphase hallowed hwriter (fun entry => (hunused entry).1) rfl
    | beginListWrite e event =>
      obtain ⟨hwriter, hunused⟩ := Threaded.writer_beginListWrite (x := g.state) (e := e) event
      show Serial (registered ++ []) _ _
      rw [List.append_nil]
      exact h.write hex hphase hallowed hwriter (fun entry => (hunused entry).1) rfl
    | endWrite w => exact hallowed.elim
    | port o => exact hquiet rfl rfl rfl (fun _ he => he) rfl
    | findByUsername name => exact hquiet rfl rfl rfl (fun _ he => he) rfl
    | saveSession session => exact hquiet rfl rfl rfl (fun _ he => he) rfl
    | find id => exact hquiet rfl rfl rfl (fun _ he => he) rfl
    | collect order recipients => exact hquiet rfl rfl rfl (fun _ he => he) rfl
    | collectAll order => exact hquiet rfl rfl rfl (fun _ he => he) rfl
    | erase id => exact hquiet rfl rfl rfl (fun _ he => he) rfl
    | listCollect order => exact hquiet rfl rfl rfl (fun _ he => he) rfl
    | listErase id => exact hquiet rfl rfl rfl (fun _ he => he) rfl
    | isArmed entry => exact hquiet rfl rfl rfl (fun _ he => he) rfl
  · -- the Write call under way is ended
    rw [hphase] at hallowed
    cases a with
    | endWrite w' =>
      obtain rfl : w' = w := hallowed
      show Serial (registered ++ []) _ (Function.update phase i none)
      rw [List.append_nil]
      exact h.finish hex hphase
    | _ => exact hallowed.elim

/-- And what one step does. -/
theorem step (h : Serial registered g phase) (hex : g.Exclusive) {c : LockCall Lock Act}
    {g' : LockState Threaded ι Lock} {phase' : ι → Option (Entry × Writer)}
    (hstep : lockRules.Step acts g phase i c g' phase')
    (hnew : ∀ w, Bcmd.registered c = some w → w ∉ registered) :
    Serial (registered ++ (Bcmd.registered c).toList) g' phase' := by
  cases hstep with
  | @acquire l mode hidle hfree =>
    show Serial (registered ++ []) _ _
    rw [List.append_nil]
    exact h.held rfl hidle fun j hj => LockState.acquire_held_ne hj
  | @release l hidle =>
    show Serial (registered ++ []) _ _
    rw [List.append_nil]
    exact h.held rfl hidle fun j hj => LockState.release_held_ne hj
  | @act a hallowed henabled => exact h.act hex hallowed hnew

end Serial

variable [DecidableEq ι] {order : ι → IterOrder ClientId} {s : Server}
  {programs : ι → Prog AdapterCall AdapterCall.Res α}
  {tr : List (LockEvent Threaded ι Lock Act Act.Res α)}
  {m : LockConfig Threaded ι Lock Act Act.Res α}

/-- Where no writer was registered twice, no two Write calls on the same writer are ever in progress. -/
theorem writes_never_overlap (h : Run acts.locked Threaded.Env (threaded order programs (.new s)) tr m)
    (honce : (registrations tr).Nodup) (w : Writer) : m.state.state.writing w ≤ 1 := by
  have hstart : Serial [] (LockState.new (Threaded.new s)) fun _ : ι => none := by
    have hnone : ∀ entry, (Threaded.new s).writer entry = none := by
      rintro (e | e) <;> rfl
    refine ⟨fun entry _ => hnone entry, fun entry w hw => ?_, fun entry _ w hw => ?_, nofun,
      fun w hw => absurd rfl hw⟩
    · exact nomatch (hnone entry).symm.trans hw
    · exact nomatch (hnone entry).symm.trans hw
  obtain ⟨phase, -, hm⟩ : ∃ phase, lockRules.Disciplined m phase ∧ Serial
      (registrations tr) m.state phase := by
    revert honce
    refine h.trace_inv (I := fun tr m => (registrations tr).Nodup → ∃ phase, lockRules.Disciplined m phase ∧
      Serial (registrations tr) m.state phase) (fun _ => ⟨fun _ => none, disciplined_threaded, hstart⟩) ?_ ?_
    · intro tr m g' _ ih he honce
      obtain ⟨phase, hd, hm⟩ := ih honce
      exact ⟨phase, hd.env he.held, hm.env he⟩
    · intro tr m i c _ hn hen ih honce
      rw [registrations_snoc] at honce ⊢
      obtain ⟨phase, hd, hm⟩ := ih (List.Nodup.of_append_left honce)
      obtain ⟨-, phase', hstep, hd'⟩ := hd.advance hn hen
      refine ⟨phase', hd', hm.step hd.exclusive hstep fun w hw hin => ?_⟩
      rw [hw] at honce
      exact (List.disjoint_of_nodup_append honce) hin (List.mem_singleton_self w)
  exact hm.writing_le w

end

/-! While a message is written to client `2`, the news that client `3` has left waits for the entry. -/

def publishAndBroadcast : Bool → Prog AdapterCall AdapterCall.Res Unit
  | false => Locking.onAdapters do
    publisher.registerSubscriber ⟨2⟩ 0
    publisher.broadcastMemberLeft ⟨1⟩ {⟨2⟩} ⟨3⟩ ⟨ascii "bob", by decide⟩
  | true => Locking.onAdapters (publisher.publish ⟨2⟩ ⟨⟨4⟩, ⟨3⟩, ⟨1⟩, ⟨ascii "hi", MessageContent.valid_hi⟩, 0⟩)

/-- The registration, and then both threads up to the entry's mutex and the message's thread on to its
Write call. -/
def writingToAnn : List (LockEvent Threaded Bool Lock Act Act.Res Unit) ×
    LockConfig Threaded Bool Lock Act Act.Res Unit :=
  schedule acts.locked
    (threaded (fun _ : Bool => BucketOrder.byId.clients) publishAndBroadcast (.new oneConnected.server))
    [false, false, false, false, false, false, true, true, true, true, true, true, true, true, true, false]

theorem writes_never_overlap_toAnn : writingToAnn.2.state.state.writing (.channel 0) ≤ 1 :=
  writes_never_overlap (run_schedule (E := Threaded.Env) ..) (by decide +kernel) _

example : writingToAnn.2.state.state.writing (.channel 0) = 1 := by decide +kernel

end Bcmd
