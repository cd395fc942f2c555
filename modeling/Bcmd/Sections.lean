import Bcmd.Host

/-!
# `client_publisher.cpp` in its critical sections

A publisher call is not one step: it looks the entry up under `mutex_` and writes or disarms it later,
under the entry's own `write_mutex`. Here each section is a step, and `implement` is each call as its
sections. Run without interruption the sections do what the atomic call does (`exec_implement`).
-/

namespace Bcmd

/-- A `WriterEntry`, shared by the table and whoever looked it up. -/
abbrev EntryId := Nat

structure WriterTable where
  writers : Finmap fun _ : ClientId => EntryId
  /-- `entry->writer`, none when it is null. -/
  writer : EntryId → Option StreamId
  nextEntry : EntryId
  written : StreamId → List ChannelEvent

namespace WriterTable

def empty : WriterTable := ⟨∅, fun _ => none, 0, fun _ => []⟩

/-- A new entry for the writer; the entry it replaces keeps its own. -/
def insert (t : WriterTable) (id : ClientId) (writer : StreamId) : WriterTable :=
  { t with
    writers := t.writers.insert id t.nextEntry
    writer := Function.update t.writer t.nextEntry (some writer)
    nextEntry := t.nextEntry + 1 }

def collect (t : WriterTable) (order : IterOrder ClientId) (recipients : Finset ClientId) : List EntryId :=
  ((order.enum t.writers.keys).filter (GrpcClientPublisher.isTarget recipients)).filterMap t.writers.lookup

def write (t : WriterTable) (entry : EntryId) (event : ChannelEvent) : WriterTable :=
  match t.writer entry with
  | none => t
  | some w => { t with written := Function.update t.written w (t.written w ++ [event]) }

def disarm (t : WriterTable) (entry : EntryId) : WriterTable :=
  { t with writer := Function.update t.writer entry none }

end WriterTable

/-- The server with its publisher taken apart. The `publisher` of `server` is not used. -/
structure Sectioned where
  server : Server
  table : WriterTable

/-- One critical section of the publisher, or a call of another port. -/
inductive Section
  | port (o : Call)
  | insert (id : ClientId) (writer : StreamId)
  | find (id : ClientId)
  | collect (order : IterOrder ClientId) (recipients : Finset ClientId)
  /-- The event of a message is built in the section, with the sender's name of that moment. -/
  | write (entry : EntryId) (event : InMemoryClientRegistry → ChannelEvent)
  | erase (id : ClientId)
  | disarm (entry : EntryId)

@[reducible] def Section.Res : Section → Type
  | port o => o.Res
  | insert _ _ | write _ _ | disarm _ => Unit
  | find _ | erase _ => Option EntryId
  | collect _ _ => List EntryId

namespace Sectioned

def handle : (c : Section) → Sectioned → c.Res × Sectioned
  | .port o, x => ((Server.handle o x.server).1, { x with server := (Server.handle o x.server).2 })
  | .insert id writer, x => ((), { x with table := x.table.insert id writer })
  | .find id, x => (x.table.writers.lookup id, x)
  | .collect order recipients, x => (x.table.collect order recipients, x)
  | .write entry event, x => ((), { x with table := x.table.write entry (event x.server.clients) })
  | .erase id, x =>
    (x.table.writers.lookup id, { x with table := { x.table with writers := x.table.writers.erase id } })
  | .disarm entry, x => ((), { x with table := x.table.disarm entry })

def enabled : Section → Sectioned → Prop
  | .port o, x => Server.enabled o x.server
  | _, _ => True

instance : ∀ c x, Decidable (enabled c x)
  | .port o, x => inferInstanceAs (Decidable (Server.enabled o x.server))
  | .insert _ _, _ | .find _, _ | .collect _ _, _ | .write _ _, _ | .erase _, _ | .disarm _, _ =>
    inferInstanceAs (Decidable True)

/-- Streams are cancelled, and all but the publisher may change. -/
structure Env (x x' : Sectioned) : Prop where
  table : x'.table = x.table
  cancelled : x.server.cancelled ⊆ x'.server.cancelled

end Sectioned

def sections : Machine Sectioned Section Section.Res := ⟨Sectioned.handle, Sectioned.enabled⟩

instance : ∀ c x, Decidable (sections.enabled c x) :=
  inferInstanceAs (∀ c x, Decidable (Sectioned.enabled c x))

/-- A piece of server code, publisher calls taken apart. -/
abbrev FineTask (α : Type) := Prog Section Section.Res α

/-! ### The calls of the publisher -/

namespace Sections

abbrev step (c : Section) : FineTask c.Res := .perform c

def registerSubscriber (id : ClientId) (writer : StreamId) : FineTask Unit := step (.insert id writer)

def unregisterSubscriber (id : ClientId) : FineTask Unit := do
  match ← step (.erase id) with
  | none => return ()
  | some entry => step (.disarm entry)

def publish (recipientId : ClientId) (message : Message) : FineTask Unit := do
  match ← step (.find recipientId) with
  | none => return ()
  | some entry => step (.write entry fun registry => .message (messageToEvent registry message))

def writeEach (event : ChannelEvent) : List EntryId → FineTask Unit
  | [] => return ()
  | entry :: targets => do
    step (.write entry fun _ => event)
    writeEach event targets

def broadcast (order : IterOrder ClientId) (recipients : Finset ClientId) (event : ChannelEvent) :
    FineTask Unit := do
  let targets ← step (.collect order recipients)
  writeEach event targets

def broadcastMemberJoined (order : IterOrder ClientId) (channelId : ChannelId) (recipients : Finset ClientId)
    (clientId : ClientId) (username : Username) : FineTask Unit :=
  broadcast order recipients (.memberJoined channelId clientId username.value)

def broadcastMemberLeft (order : IterOrder ClientId) (channelId : ChannelId) (recipients : Finset ClientId)
    (clientId : ClientId) (username : Username) : FineTask Unit :=
  broadcast order recipients (.memberLeft channelId clientId username.value)

end Sections

open Sections in
/-- A call as its sections. -/
def implement (order : IterOrder ClientId) : (o : Call) → FineTask o.Res
  | .publisher (.registerSubscriber c w) => registerSubscriber c w
  | .publisher (.unregisterSubscriber c) => unregisterSubscriber c
  | .publisher (.publish c m) => publish c m
  | .publisher (.broadcastMemberJoined k recipients c username) =>
    broadcastMemberJoined order k recipients c username
  | .publisher (.broadcastMemberLeft k recipients c username) =>
    broadcastMemberLeft order k recipients c username
  | .channels o => step (.port (.channels o))
  | .clients o => step (.port (.clients o))
  | .messages o => step (.port (.messages o))
  | .channelList o => step (.port (.channelList o))
  | .newMessage sender k content => step (.port (.newMessage sender k content))
  | .awaitCancelled w => step (.port (.awaitCancelled w))

/-- A program with each of its calls as its sections. -/
def expand {α : Type} (order : IterOrder ClientId) : Task α → FineTask α
  | .ret a => .ret a
  | .call o k => implement order o >>= fun r => expand order (k r)

/-! ### Sections in one go are the atomic call -/

/-- The taken apart publisher stands for the atomic one: its entries are armed, and no two clients share
one. -/
structure Refines (x : Sectioned) (s : Server) : Prop where
  rest : { x.server with publisher := s.publisher } = s
  lookup : ∀ c, s.publisher.writers.lookup c = (x.table.writers.lookup c).bind x.table.writer
  written : x.table.written = s.publisher.written
  armed : ∀ c entry, x.table.writers.lookup c = some entry → x.table.writer entry ≠ none
  used : ∀ c entry, x.table.writers.lookup c = some entry → entry < x.table.nextEntry
  unique : ∀ c d entry, x.table.writers.lookup c = some entry → x.table.writers.lookup d = some entry → c = d

section
variable {x : Sectioned} {s : Server} {c : ClientId} {entry : EntryId} {w : StreamId}

theorem Refines.lookup_of_some (h : Refines x s) (he : x.table.writers.lookup c = some entry) :
    s.publisher.writers.lookup c = x.table.writer entry := by
  rw [h.lookup, he]; rfl

theorem Refines.lookup_of_none (h : Refines x s) (he : x.table.writers.lookup c = none) :
    s.publisher.writers.lookup c = none := by
  rw [h.lookup, he]; rfl

theorem Refines.withPublisher (h : Refines x s) (p : GrpcClientPublisher) :
    { x.server with publisher := p } = { s with publisher := p } := by
  conv_rhs => rw [← h.rest]

/-- The other ports do not look at the publisher. -/
theorem Server.handle_withPublisher (o : Call) (ho : ∀ c, o ≠ .publisher c) (s : Server)
    (p : GrpcClientPublisher) :
    Server.handle o { s with publisher := p } =
      ((Server.handle o s).1, { (Server.handle o s).2 with publisher := p }) := by
  rcases o with (_ | _ | _ | _ | _) | (_ | _ | _ | _ | _ | _ | _ | _) | (_ | _ | _) | o | _ | _ | _
  case publisher => exact absurd rfl (ho o)
  all_goals rfl

theorem Refines.port (h : Refines x s) (o : Call) (ho : ∀ c, o ≠ .publisher c) :
    (Server.handle o x.server).1 = (Server.handle o s).1 ∧
      Refines { x with server := (Server.handle o x.server).2 } (Server.handle o s).2 := by
  have heq := Server.handle_withPublisher o ho x.server s.publisher
  rw [h.rest] at heq
  rw [heq]
  exact ⟨rfl, rfl, h.lookup, h.written, h.armed, h.used, h.unique⟩

theorem Refines.register (h : Refines x s) (c : ClientId) (w : StreamId) :
    Refines { x with table := x.table.insert c w }
      { s with publisher := s.publisher.registerSubscriber c w } := by
  have hlookup : ∀ d e, (x.table.writers.insert c x.table.nextEntry).lookup d = some e →
      d = c ∧ e = x.table.nextEntry ∨ d ≠ c ∧ x.table.writers.lookup d = some e := by
    intro d e hd
    by_cases hdc : d = c
    · subst hdc
      rw [Finmap.lookup_insert] at hd
      exact .inl ⟨rfl, (Option.some.inj hd).symm⟩
    · rw [Finmap.lookup_insert_of_ne _ hdc] at hd
      exact .inr ⟨hdc, hd⟩
  refine ⟨h.withPublisher _, fun d => ?_, h.written, fun d e hd => ?_, fun d e hd => ?_,
    fun d d' e hd hd' => ?_⟩
  · by_cases hdc : d = c
    · subst hdc
      simp [WriterTable.insert]
    · have hold : ∀ e, x.table.writers.lookup d = some e →
          Function.update x.table.writer x.table.nextEntry (some w) e = x.table.writer e := fun e he =>
        Function.update_of_ne (h.used d e he).ne _ _
      simp only [WriterTable.insert, Subscribers.writers_register, Finmap.lookup_insert_of_ne _ hdc]
      rw [h.lookup]
      rcases he : x.table.writers.lookup d with _ | e
      · rfl
      · exact (hold e he).symm
  · rcases hlookup d e hd with ⟨-, rfl⟩ | ⟨-, he⟩
    · simp [WriterTable.insert]
    · simp only [WriterTable.insert, Function.update_of_ne (h.used d e he).ne]
      exact h.armed d e he
  · rcases hlookup d e hd with ⟨-, rfl⟩ | ⟨-, he⟩
    · exact Nat.lt_succ_self _
    · exact Nat.lt_succ_of_lt (h.used d e he)
  · rcases hlookup d e hd with ⟨rfl, rfl⟩ | ⟨hne, he⟩ <;> rcases hlookup d' _ hd' with ⟨rfl, hn⟩ | ⟨hne', he'⟩
    · rfl
    · exact absurd (h.used d' _ he') (lt_irrefl _)
    · exact absurd (h.used d _ he) (by rw [hn]; exact lt_irrefl _)
    · exact h.unique d d' e he he'

theorem Refines.unregister (h : Refines x s) (c : ClientId) :
    ∃ x', sections.exec (Sections.unregisterSubscriber c) x = ((), x') ∧
      Refines x' { s with publisher := s.publisher.unregisterSubscriber c } := by
  have hlookup : ∀ d e, (x.table.writers.erase c).lookup d = some e →
      d ≠ c ∧ x.table.writers.lookup d = some e := by
    intro d e hd
    by_cases hdc : d = c
    · subst hdc
      rw [Finmap.lookup_erase] at hd
      cases hd
    · rw [Finmap.lookup_erase_ne hdc] at hd
      exact ⟨hdc, hd⟩
  unfold Sections.unregisterSubscriber
  rcases hc : x.table.writers.lookup c with _ | entry
  · refine ⟨{ x with table := { x.table with writers := x.table.writers.erase c } },
      by simp [sections, Sectioned.handle, hc], h.withPublisher _, fun d => ?_, h.written,
      fun d e hd => h.armed d e (hlookup d e hd).2, fun d e hd => h.used d e (hlookup d e hd).2,
      fun d d' e hd hd' => h.unique d d' e (hlookup d e hd).2 (hlookup d' e hd').2⟩
    by_cases hdc : d = c
    · subst hdc
      simp
    · simp only [Subscribers.writers_unregister, Finmap.lookup_erase_ne hdc]
      exact h.lookup d
  · have hother : ∀ d e, (x.table.writers.erase c).lookup d = some e →
        Function.update x.table.writer entry none e = x.table.writer e := by
      intro d e hd
      obtain ⟨hdc, he⟩ := hlookup d e hd
      exact Function.update_of_ne (fun heq => hdc (h.unique d c e he (by rw [heq]; exact hc))) _ _
    refine ⟨{ x with table := { x.table with writers := x.table.writers.erase c }.disarm entry },
      by simp [sections, Sectioned.handle, hc], h.withPublisher _, fun d => ?_, h.written, fun d e hd => ?_,
      fun d e hd => h.used d e (hlookup d e hd).2,
      fun d d' e hd hd' => h.unique d d' e (hlookup d e hd).2 (hlookup d' e hd').2⟩
    · by_cases hdc : d = c
      · subst hdc
        simp [WriterTable.disarm]
      · have hd : (x.table.writers.erase c).lookup d = x.table.writers.lookup d := Finmap.lookup_erase_ne hdc
        simp only [WriterTable.disarm, Subscribers.writers_unregister, Finmap.lookup_erase_ne hdc]
        rw [h.lookup]
        rcases he : x.table.writers.lookup d with _ | e
        · rfl
        · exact (hother d e (hd.trans he)).symm
    · have harmed := h.armed d e (hlookup d e hd).2
      rwa [← hother d e hd] at harmed

theorem Refines.setWritten (h : Refines x s) (written : StreamId → List ChannelEvent) :
    Refines { x with table := { x.table with written := written } }
      { s with publisher := { s.publisher with written := written } } :=
  ⟨h.withPublisher _, h.lookup, rfl, h.armed, h.used, h.unique⟩

theorem Refines.publish (h : Refines x s) (c : ClientId) (m : Message) :
    ∃ x', sections.exec (Sections.publish c m) x = ((), x') ∧
      Refines x' { s with publisher := GrpcClientPublisher.publish s.publisher s.clients c m } := by
  have hclients : x.server.clients = s.clients := by rw [← h.rest]
  unfold Sections.publish GrpcClientPublisher.publish Subscribers.writeTo
  rcases hc : x.table.writers.lookup c with _ | entry
  · refine ⟨x, by simp [sections, Sectioned.handle, hc], ?_⟩
    rw [h.lookup_of_none hc]
    exact h
  · obtain ⟨w, hw⟩ := Option.ne_none_iff_exists'.1 (h.armed c entry hc)
    refine ⟨_, by simp [sections, Sectioned.handle, hc]; rfl, ?_⟩
    rw [h.lookup_of_some hc, hw, WriterTable.write, hw, hclients, h.written]
    exact h.setWritten _

/-- The table after `n w` writes of the event to each stream `w`. -/
def WriterTable.repeated (t : WriterTable) (event : ChannelEvent) (n : StreamId → Nat) : WriterTable :=
  { t with written := fun w => t.written w ++ List.replicate (n w) event }

theorem WriterTable.write_eq (t : WriterTable) (entry : EntryId) (event : ChannelEvent) :
    t.write entry event = t.repeated event fun w => if t.writer entry = some w then 1 else 0 := by
  unfold write repeated
  rcases hw : t.writer entry with _ | w
  · simp
  · dsimp only
    congr 1
    funext w'
    rw [Function.update_apply]
    by_cases hww : w' = w
    · subst hww
      simp
    · have hne : ¬ some w = some w' := fun h => hww (Option.some.inj h).symm
      simp [hww, hne]

theorem WriterTable.repeated_repeated (t : WriterTable) (event : ChannelEvent) (n n' : StreamId → Nat) :
    (t.repeated event n).repeated event n' = t.repeated event fun w => n w + n' w := by
  simp [repeated, List.append_assoc, List.replicate_append_replicate]

/-- How often a stream is the writer of one of the entries. -/
theorem countP_writer_cons (writer : EntryId → Option StreamId) (entry : EntryId) (targets : List EntryId)
    (w : StreamId) :
    (entry :: targets).countP (fun entry => writer entry = some w) =
      (if writer entry = some w then 1 else 0) + targets.countP fun entry => writer entry = some w := by
  rw [List.countP_cons, Nat.add_comm]
  simp

theorem exec_writeEach (event : ChannelEvent) (targets : List EntryId) (x : Sectioned) :
    sections.exec (Sections.writeEach event targets) x = ((), { x with
      table := x.table.repeated event fun w =>
        targets.countP fun entry => x.table.writer entry = some w }) := by
  induction targets generalizing x with
  | nil => simp [Sections.writeEach, WriterTable.repeated]
  | cons entry targets ih =>
    simp only [Sections.writeEach, Prog.perform_bind, Machine.exec_call]
    rw [ih]
    simp only [countP_writer_cons, ← WriterTable.repeated_repeated, ← WriterTable.write_eq]
    have hwriter : ∀ entry', (x.table.write entry event).writer entry' = x.table.writer entry' := fun _ => by
      rw [WriterTable.write_eq]; rfl
    simp [sections, Sectioned.handle, hwriter]

theorem Refines.broadcast (h : Refines x s) (order : IterOrder ClientId) (recipients : Finset ClientId)
    (event : ChannelEvent) :
    ∃ x', sections.exec (Sections.broadcast order recipients event) x = ((), x') ∧
      Refines x' { s with publisher := s.publisher.writeWhere (GrpcClientPublisher.isTarget recipients) event } := by
  have hkeys : s.publisher.writers.keys = x.table.writers.keys := by
    ext c
    rw [Finmap.mem_keys, Finmap.mem_keys, ← Finmap.lookup_isSome, ← Finmap.lookup_isSome]
    rcases hc : x.table.writers.lookup c with _ | entry
    · rw [h.lookup_of_none hc]
    · obtain ⟨w, hw⟩ := Option.ne_none_iff_exists'.1 (h.armed c entry hc)
      rw [h.lookup_of_some hc, hw]
      rfl
  have hcount : ∀ w, ((x.table.collect order recipients).countP fun entry => x.table.writer entry = some w) =
      (s.publisher.writers.keys.filter fun id =>
        GrpcClientPublisher.isTarget recipients id ∧ s.publisher.writers.lookup id = some w).card := by
    intro w
    rw [WriterTable.collect, List.countP_filterMap, List.countP_filter, IterOrder.countP_enum, hkeys]
    congr 1
    refine Finset.filter_congr fun c _ => ?_
    rw [h.lookup]
    rcases x.table.writers.lookup c with _ | entry <;> simp [and_comm]
  refine ⟨_, by simp only [Sections.broadcast, Prog.perform_bind, Machine.exec_call, exec_writeEach]; rfl, ?_⟩
  have hwritten := h.setWritten (s.publisher.writeWhere
    (GrpcClientPublisher.isTarget recipients) event).written
  simp only [Subscribers.writeWhere, ← hcount, ← h.written] at hwritten ⊢
  exact hwritten

/-- A call's sections, run without interruption, answer as the call does and do what it does. -/
theorem exec_implement (order : IterOrder ClientId) (h : Refines x s) (o : Call) :
    ∃ x', sections.exec (implement order o) x = ((Server.handle o s).1, x') ∧
      Refines x' (Server.handle o s).2 := by
  rcases o with o | o | o | (⟨c, w⟩ | c | ⟨c, m⟩ | ⟨k, rs, c, u⟩ | ⟨k, rs, c, u⟩) | o | _ | _
  case publisher.registerSubscriber => exact ⟨_, rfl, h.register c w⟩
  case publisher.unregisterSubscriber => exact h.unregister c
  case publisher.publish => exact h.publish c m
  case publisher.broadcastMemberJoined => exact h.broadcast order rs _
  case publisher.broadcastMemberLeft => exact h.broadcast order rs _
  all_goals exact ⟨_, Prod.ext (h.port _ (by nofun)).1 rfl, (h.port _ (by nofun)).2⟩

/-- So a program run alone does in sections what it does in atomic calls. -/
theorem exec_expand {α : Type} (order : IterOrder ClientId) (h : Refines x s) (p : Task α) :
    ∃ x', sections.exec (expand order p) x = ((ports.exec p s).1, x') ∧ Refines x' (ports.exec p s).2 := by
  induction p generalizing x s with
  | ret a => exact ⟨x, rfl, h⟩
  | call o k ih =>
    obtain ⟨x₁, hexec, h₁⟩ := exec_implement order h o
    simp only [expand, Machine.exec_bind, hexec, Machine.exec_call]
    exact ih _ h₁

end

end Bcmd
