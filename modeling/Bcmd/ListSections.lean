import Bcmd.Sections

/-!
# `channel_list_publisher.cpp` in its critical sections

The channel-list publisher taken apart as `Sections.lean` takes the message publisher apart. A
registration holds `mutex_` from the insertion of its entry until it has written the snapshot, and the
channels are listed meanwhile; whatever else needs the table waits.
-/

namespace Bcmd

structure ListTable where
  writers : Finmap fun _ : ClientId => EntryId
  /-- `entry->writer`, none when it is null. -/
  writer : EntryId → Option StreamId
  nextEntry : EntryId
  /-- The entry whose registration holds `mutex_`. -/
  registering : Option EntryId
  written : StreamId → List ChannelListEvent

namespace ListTable

def empty : ListTable := ⟨∅, fun _ => none, 0, none, fun _ => []⟩

/-- A new entry for the writer, `mutex_` being held from here on. -/
def insert (t : ListTable) (id : ClientId) (writer : StreamId) : ListTable :=
  { t with
    writers := t.writers.insert id t.nextEntry
    writer := Function.update t.writer t.nextEntry (some writer)
    nextEntry := t.nextEntry + 1
    registering := some t.nextEntry }

def collect (t : ListTable) (order : IterOrder ClientId) : List EntryId :=
  (order.enum t.writers.keys).filterMap t.writers.lookup

def write (t : ListTable) (entry : EntryId) (event : ChannelListEvent) : ListTable :=
  match t.writer entry with
  | none => t
  | some w => { t with written := Function.update t.written w (t.written w ++ [event]) }

def disarm (t : ListTable) (entry : EntryId) : ListTable :=
  { t with writer := Function.update t.writer entry none }

end ListTable

/-- The server with its channel-list publisher taken apart. The `channelList` of `server` is not used. -/
structure ListSectioned where
  server : Server
  table : ListTable

/-- One critical section of the publisher, or a call of another port. -/
inductive ListSection
  | port (o : Call)
  | insert (id : ClientId) (writer : StreamId)
  /-- The end of a registration: the snapshot is written and `mutex_` released. -/
  | writeSnapshot (entry : EntryId) (event : ChannelListEvent)
  | collect (order : IterOrder ClientId)
  | write (entry : EntryId) (event : ChannelListEvent)
  | erase (id : ClientId)
  | disarm (entry : EntryId)

@[reducible] def ListSection.Res : ListSection → Type
  | port o => o.Res
  | insert _ _ => EntryId
  | writeSnapshot _ _ | write _ _ | disarm _ => Unit
  | collect _ => List EntryId
  | erase _ => Option EntryId

namespace ListSectioned

def handle : (c : ListSection) → ListSectioned → c.Res × ListSectioned
  | .port o, x => ((Server.handle o x.server).1, { x with server := (Server.handle o x.server).2 })
  | .insert id writer, x => (x.table.nextEntry, { x with table := x.table.insert id writer })
  | .writeSnapshot entry event, x =>
    ((), { x with table := { x.table.write entry event with registering := none } })
  | .collect order, x => (x.table.collect order, x)
  | .write entry event, x => ((), { x with table := x.table.write entry event })
  | .erase id, x =>
    (x.table.writers.lookup id, { x with table := { x.table with writers := x.table.writers.erase id } })
  | .disarm entry, x => ((), { x with table := x.table.disarm entry })

/-- What takes `mutex_`, shared or not, waits for a registration to be over. -/
def enabled : ListSection → ListSectioned → Prop
  | .port o, x => Server.enabled o x.server
  | .insert _ _, x | .collect _, x | .erase _, x => x.table.registering = none
  | .writeSnapshot _ _, _ | .write _ _, _ | .disarm _, _ => True

instance : ∀ c x, Decidable (enabled c x)
  | .port o, x => inferInstanceAs (Decidable (Server.enabled o x.server))
  | .insert _ _, x | .collect _, x | .erase _, x => inferInstanceAs (Decidable (x.table.registering = none))
  | .writeSnapshot _ _, _ | .write _ _, _ | .disarm _, _ => inferInstanceAs (Decidable True)

structure Env (x x' : ListSectioned) : Prop where
  table : x'.table = x.table
  server : Server.Env x.server x'.server

end ListSectioned

def listSections : Machine ListSectioned ListSection ListSection.Res :=
  ⟨ListSectioned.handle, ListSectioned.enabled⟩

instance : ∀ c x, Decidable (listSections.enabled c x) :=
  inferInstanceAs (∀ c x, Decidable (ListSectioned.enabled c x))

/-- A piece of server code, channel-list calls taken apart. -/
abbrev ListTask (α : Type) := Prog ListSection ListSection.Res α

/-! ### The calls of the publisher -/

namespace ListSections

abbrev step (c : ListSection) : ListTask c.Res := .perform c

def registerSubscriberWithSnapshot (order : IterOrder ChannelId) (subscriberId : ClientId)
    (writer : StreamId) :
    ListTask Unit := do
  let entry ← step (.insert subscriberId writer)
  let all ← step (.port (.channels (.listAll order)))
  step (.writeSnapshot entry (.snapshot (all.map populateChannelSummary)))

def unregisterSubscriber (subscriberId : ClientId) : ListTask Unit := do
  match ← step (.erase subscriberId) with
  | none => return ()
  | some entry => step (.disarm entry)

def writeEach (event : ChannelListEvent) : List EntryId → ListTask Unit
  | [] => return ()
  | entry :: targets => do
    step (.write entry event)
    writeEach event targets

/-- The two calls that publish an event. -/
def publishToAll (order : IterOrder ClientId) (event : ChannelListEvent) : ListTask Unit := do
  let targets ← step (.collect order)
  writeEach event targets

def publishChannelCreated (order : IterOrder ClientId) (channel : Channel) : ListTask Unit :=
  publishToAll order (.created (populateChannelSummary channel))

def publishMemberCountChanged (order : IterOrder ClientId) (channelId : ChannelId) (memberCount : Int32) :
    ListTask Unit :=
  publishToAll order (.memberCountChanged channelId memberCount)

/-- A call as its sections. -/
def implement (order : IterOrder ClientId) : (o : Call) → ListTask o.Res
  | .channelList (.registerSubscriberWithSnapshot channelOrder c w) =>
    registerSubscriberWithSnapshot channelOrder c w
  | .channelList (.unregisterSubscriber c) => unregisterSubscriber c
  | .channelList (.publishChannelCreated channel) => publishChannelCreated order channel
  | .channelList (.publishMemberCountChanged k count) => publishMemberCountChanged order k count
  | .channels o => step (.port (.channels o))
  | .clients o => step (.port (.clients o))
  | .messages o => step (.port (.messages o))
  | .publisher o => step (.port (.publisher o))
  | .newMessage sender k content => step (.port (.newMessage sender k content))
  | .awaitCancelled w => step (.port (.awaitCancelled w))

/-- A program with each of its calls as its sections. -/
def expand {α : Type} (order : IterOrder ClientId) : Task α → ListTask α
  | .ret a => .ret a
  | .call o k => implement order o >>= fun r => expand order (k r)

variable {α β : Type} (order : IterOrder ClientId)

@[simp] theorem expand_ret (a : α) : expand order (.ret a) = .ret a := rfl

@[simp] theorem expand_call (o : Call) (k : o.Res → Task α) :
    expand order (.call o k) = implement order o >>= fun r => expand order (k r) := rfl

@[simp] theorem expand_bind (p : Task α) (f : α → Task β) :
    expand order (p >>= f) = expand order p >>= fun a => expand order (f a) := by
  induction p with
  | ret a => rfl
  | call o k ih => simp only [Prog.call_bind, expand_call, ih, Prog.bind_assoc]

/-- Only the calls of the channel list are taken apart. -/
theorem implement_port {o : Call} (ho : ∀ c, o ≠ .channelList c) : implement order o = step (.port o) := by
  cases o with
  | channelList c => exact absurd rfl (ho c)
  | _ => rfl

end ListSections

/-! ### Sections in one go are the atomic call -/

/-- The table stands for the atomic publisher's: no registration is going on, the entries are armed, and no
two clients share one. -/
structure ListTable.Refines (t : ListTable) (p : GrpcChannelListPublisher) : Prop where
  lookup : ∀ c, p.writers.lookup c = (t.writers.lookup c).bind t.writer
  written : t.written = p.written
  armed : ∀ c entry, t.writers.lookup c = some entry → t.writer entry ≠ none
  used : ∀ c entry, t.writers.lookup c = some entry → entry < t.nextEntry
  unique : ∀ c d entry, t.writers.lookup c = some entry → t.writers.lookup d = some entry → c = d
  free : t.registering = none

structure ListSectioned.Refines (x : ListSectioned) (s : Server) : Prop where
  rest : { x.server with channelList := s.channelList } = s
  table : x.table.Refines s.channelList

namespace ListTable
variable {t : ListTable} {p : GrpcChannelListPublisher} {c d : ClientId} {entry : EntryId} {w : StreamId}

theorem lookup_insert_cases (h : (t.writers.insert c t.nextEntry).lookup d = some entry) :
    d = c ∧ entry = t.nextEntry ∨ d ≠ c ∧ t.writers.lookup d = some entry := by
  by_cases hd : d = c
  · subst hd
    exact .inl ⟨rfl, (Option.some.inj ((Finmap.lookup_insert _).symm.trans h)).symm⟩
  · exact .inr ⟨hd, (Finmap.lookup_insert_of_ne _ hd).symm.trans h⟩

theorem lookup_erase_cases (h : (t.writers.erase c).lookup d = some entry) :
    d ≠ c ∧ t.writers.lookup d = some entry := by
  by_cases hd : d = c
  · subst hd
    rw [Finmap.lookup_erase] at h
    cases h
  · exact ⟨hd, (Finmap.lookup_erase_ne hd).symm.trans h⟩

theorem writer_insert_of_used (h : entry < t.nextEntry) (c : ClientId) (w : StreamId) :
    (t.insert c w).writer entry = t.writer entry :=
  Function.update_of_ne h.ne _ _

/-- The table after the entry is in and the snapshot is written. -/
theorem Refines.register (h : t.Refines p) (c : ClientId) (w : StreamId) (event : ChannelListEvent) :
    ListTable.Refines { (t.insert c w).write t.nextEntry event with registering := none }
      ((p.registerSubscriber c w).write w event) := by
  have hnew : (t.insert c w).writer t.nextEntry = some w := Function.update_self ..
  simp only [write, hnew]
  refine ⟨fun d => ?_, ?_, fun d e hd => ?_, fun d e hd => ?_, fun d d' e hd hd' => ?_, rfl⟩
  · show (p.writers.insert c w).lookup d = ((t.insert c w).writers.lookup d).bind (t.insert c w).writer
    by_cases hdc : d = c
    · subst hdc
      simp [insert]
    · rw [Finmap.lookup_insert_of_ne _ hdc, h.lookup, show
        (t.insert c w).writers.lookup d = t.writers.lookup d from
        Finmap.lookup_insert_of_ne _ hdc]
      rcases he : t.writers.lookup d with _ | e
      · rfl
      · exact (writer_insert_of_used (h.used d e he) c w).symm
  · show Function.update t.written w (t.written w ++ [event]) = Function.update p.written w
      (p.written w ++ [event])
    rw [h.written]
  · rcases lookup_insert_cases hd with ⟨-, rfl⟩ | ⟨-, he⟩
    · exact fun hnone => by rw [hnew] at hnone; cases hnone
    · exact fun hnone => h.armed d e he ((writer_insert_of_used (h.used d e he) c w).symm.trans hnone)
  · rcases lookup_insert_cases hd with ⟨-, rfl⟩ | ⟨-, he⟩
    · exact Nat.lt_succ_self _
    · exact Nat.lt_succ_of_lt (h.used d e he)
  · rcases lookup_insert_cases hd with ⟨rfl, rfl⟩ |
      ⟨-, he⟩ <;> rcases lookup_insert_cases hd' with ⟨rfl, hn⟩ | ⟨-, he'⟩
    · rfl
    · exact absurd (h.used d' _ he') (lt_irrefl _)
    · exact absurd (h.used d _ he) (by rw [hn]; exact lt_irrefl _)
    · exact h.unique d d' e he he'

theorem Refines.unregister_none (h : t.Refines p) (hc : t.writers.lookup c = none) :
    ListTable.Refines { t with writers := t.writers.erase c } (p.unregisterSubscriber c) := by
  refine ⟨fun d => ?_, h.written, fun d e hd => h.armed d e (lookup_erase_cases hd).2,
    fun d e hd => h.used d e (lookup_erase_cases hd).2,
    fun d d' e hd hd' => h.unique d d' e (lookup_erase_cases hd).2 (lookup_erase_cases hd').2, h.free⟩
  by_cases hdc : d = c
  · subst hdc
    simp
  · simp only [Subscribers.writers_unregister, Finmap.lookup_erase_ne hdc]
    exact h.lookup d

theorem Refines.unregister_some (h : t.Refines p) (hc : t.writers.lookup c = some entry) :
    ListTable.Refines (disarm { t with writers := t.writers.erase c } entry) (p.unregisterSubscriber c) := by
  have hother : ∀ d e, (t.writers.erase c).lookup d = some e →
      Function.update t.writer entry none e = t.writer e := by
    intro d e hd
    obtain ⟨hdc, he⟩ := lookup_erase_cases hd
    exact Function.update_of_ne (fun heq => hdc (h.unique d c e he (by rw [heq]; exact hc))) _ _
  refine ⟨fun d => ?_, h.written, fun d e hd => ?_, fun d e hd => h.used d e (lookup_erase_cases hd).2,
    fun d d' e hd hd' => h.unique d d' e (lookup_erase_cases hd).2 (lookup_erase_cases hd').2, h.free⟩
  · by_cases hdc : d = c
    · subst hdc
      simp [disarm]
    · have hd : (t.writers.erase c).lookup d = t.writers.lookup d := Finmap.lookup_erase_ne hdc
      simp only [disarm, Subscribers.writers_unregister, Finmap.lookup_erase_ne hdc]
      rw [h.lookup]
      rcases he : t.writers.lookup d with _ | e
      · rfl
      · exact (hother d e (hd.trans he)).symm
  · have harmed := h.armed d e (lookup_erase_cases hd).2
    rwa [← hother d e hd] at harmed

/-- The table after `n w` writes of the event to each stream `w`. -/
def repeated (t : ListTable) (event : ChannelListEvent) (n : StreamId → Nat) : ListTable :=
  { t with written := fun w => t.written w ++ List.replicate (n w) event }

theorem write_eq (t : ListTable) (entry : EntryId) (event : ChannelListEvent) :
    t.write entry event = t.repeated event fun w => if t.writer entry = some w then 1 else 0 := by
  unfold write repeated
  rcases hw : t.writer entry with _ | w
  · simp
  · dsimp only
    congr 1
    funext w'
    rw [Function.update_apply]
    by_cases hww : w' = w
    · subst hww
      simp
    · have hne : ¬ some w = some w' := fun h => hww (Option.some.inj h).symm
      simp [hww, hne]

theorem repeated_repeated (t : ListTable) (event : ChannelListEvent) (n n' : StreamId → Nat) :
    (t.repeated event n).repeated event n' = t.repeated event fun w => n w + n' w := by
  simp [repeated, List.append_assoc, List.replicate_append_replicate]

theorem Refines.collected (h : t.Refines p) (order : IterOrder ClientId) (event : ChannelListEvent) :
    ListTable.Refines (t.repeated event fun w => (t.collect order).countP fun entry =>
      t.writer entry = some w)
      (p.writeWhere (fun _ => true) event) := by
  have hkeys : p.writers.keys = t.writers.keys := by
    ext c
    rw [Finmap.mem_keys, Finmap.mem_keys, ← Finmap.lookup_isSome, ← Finmap.lookup_isSome, h.lookup]
    rcases hc : t.writers.lookup c with _ | entry
    · rfl
    · obtain ⟨w, hw⟩ := Option.ne_none_iff_exists'.1 (h.armed c entry hc)
      rw [Option.bind_some, hw]
      rfl
  have hcount : ∀ w, ((t.collect order).countP fun entry => t.writer entry = some w) =
      (p.writers.keys.filter fun id => (fun _ : ClientId => true) id ∧
        p.writers.lookup id = some w).card := by
    intro w
    rw [collect, List.countP_filterMap, IterOrder.countP_enum, hkeys]
    congr 1
    refine Finset.filter_congr fun c _ => ?_
    rw [h.lookup]
    rcases t.writers.lookup c with _ | entry <;> simp
  refine ⟨h.lookup, ?_, h.armed, h.used, h.unique, h.free⟩
  funext w
  show t.written w ++ List.replicate _ event = p.written w ++ List.replicate _ event
  rw [h.written]
  congr 2
  exact hcount w

end ListTable

namespace ListSections

theorem exec_writeEach (event : ChannelListEvent) (targets : List EntryId) (x : ListSectioned) :
    listSections.exec (writeEach event targets) x = ((), { x with
      table := x.table.repeated event fun w =>
        targets.countP fun entry => x.table.writer entry = some w }) := by
  induction targets generalizing x with
  | nil => simp [writeEach, ListTable.repeated]
  | cons entry targets ih =>
    simp only [writeEach, Prog.perform_bind, Machine.exec_call]
    rw [ih]
    simp only [countP_writer_cons, ← ListTable.repeated_repeated, ← ListTable.write_eq]
    have hwriter : ∀ entry', (x.table.write entry event).writer entry' = x.table.writer entry' := fun _ => by
      rw [ListTable.write_eq]
      rfl
    simp [listSections, ListSectioned.handle, hwriter]

variable {x : ListSectioned} {s : Server}

theorem withChannelList (h : x.Refines s) (p : GrpcChannelListPublisher) :
    { x.server with channelList := p } = { s with channelList := p } := by
  conv_rhs => rw [← h.rest]

/-- The other ports do not look at the channel list. -/
theorem handle_withChannelList (o : Call) (ho : ∀ c, o ≠ .channelList c) (s : Server)
    (p : GrpcChannelListPublisher) :
    Server.handle o { s with channelList := p } =
      ((Server.handle o s).1, { (Server.handle o s).2 with channelList := p }) := by
  rcases o with (_ | _ | _ | _ | _) | (_ | _ | _ | _ | _ | _ | _ | _) | (_ | _ | _) |
    (_ | _ | _ | _ | _) | o | _ | _
  case channelList => exact absurd rfl (ho o)
  all_goals rfl

theorem refines_port (h : x.Refines s) (o : Call) (ho : ∀ c, o ≠ .channelList c) :
    (Server.handle o x.server).1 = (Server.handle o s).1 ∧
      ListSectioned.Refines { x with server := (Server.handle o x.server).2 } (Server.handle o s).2 := by
  have heq := handle_withChannelList o ho x.server s.channelList
  rw [h.rest] at heq
  rw [heq]
  exact ⟨rfl, rfl, h.table⟩

theorem exec_implement (order : IterOrder ClientId) (h : x.Refines s) (o : Call) :
    ∃ x', listSections.exec (implement order o) x = ((Server.handle o s).1, x') ∧
      x'.Refines (Server.handle o s).2 := by
  rcases o with o | o | o | o | (⟨channelOrder, c, w⟩ | c | ch | ⟨k, count⟩) | _ | _
  case channelList.registerSubscriberWithSnapshot =>
    have hchannels : x.server.channels = s.channels := by rw [← h.rest]
    refine ⟨_, rfl, withChannelList h _, ?_⟩
    show ListTable.Refines { (x.table.insert c w).write x.table.nextEntry
      (.snapshot ((x.server.channels.listAll channelOrder).map populateChannelSummary)) with
        registering := none } _
    rw [hchannels]
    exact h.table.register c w _
  case channelList.unregisterSubscriber =>
    simp only [implement, unregisterSubscriber, Prog.perform_bind, Machine.exec_call]
    rcases hc : x.table.writers.lookup c with _ | entry
    · rw [show (listSections.handle (.erase c) x).1 = none from hc]
      exact ⟨_, rfl, withChannelList h _, h.table.unregister_none hc⟩
    · rw [show (listSections.handle (.erase c) x).1 = some entry from hc]
      exact ⟨_, rfl, withChannelList h _, h.table.unregister_some hc⟩
  case channelList.publishChannelCreated =>
    refine ⟨_, exec_writeEach _ _ _, withChannelList h _, h.table.collected order _⟩
  case channelList.publishMemberCountChanged =>
    refine ⟨_, exec_writeEach _ _ _, withChannelList h _, h.table.collected order _⟩
  all_goals exact ⟨_, Prod.ext (refines_port h _ (by nofun)).1 rfl, (refines_port h _ (by nofun)).2⟩

/-- A program run alone does in sections what it does in atomic calls. -/
theorem exec_expand {α : Type} (order : IterOrder ClientId) (h : x.Refines s) (p : Task α) :
    ∃ x', listSections.exec (expand order p) x = ((ports.exec p s).1, x') ∧
      x'.Refines (ports.exec p s).2 := by
  induction p generalizing x s with
  | ret a => exact ⟨x, rfl, h⟩
  | call o k ih =>
    obtain ⟨x₁, hexec, h₁⟩ := exec_implement order h o
    simp only [expand, Machine.exec_bind, hexec, Machine.exec_call]
    exact ih _ h₁

end ListSections

end Bcmd
