import Bcmd.Locking
import Mathlib.Data.Fintype.EquivFin
import Mathlib.Order.Fin.Basic

/-!
# The order of the locks

Two calls nest locks: a registration for the channel list lists the channels and writes the snapshot under
`mutex_`, and `publish` looks a username up under the entry's `write_mutex`. Both go upwards in the order
tables, entries, repositories. So whatever the threads run, none of them wait for each other in a circle.
-/

namespace Bcmd

namespace Lock

/-- The tables of the publishers, then the entries, then the repositories. -/
def rank : Lock → Fin 3
  | clientTable | channelListTable => 0
  | writeMutex _ => 1
  | channels | clients | messages => 2

end Lock

namespace Act

/-- The locks an act needs, by the entry and the writer of the Write call that the thread has begun. -/
def Allowed (held : Held Lock) : Option (Entry × Writer) → Act → Prop
  | some (_, w), endWrite w' => w' = w
  | some _, _ => False
  | none, port (.channels c) => held .channels = some c.mode
  | none, port (.clients c) => held .clients = some c.mode
  | none, port (.messages c) => held .messages = some c.mode
  | none, port (.newMessage ..) | none, port (.awaitCancelled _) => held = fun _ => none
  | none, port (.publisher _) | none, port (.channelList _) => False
  | none, findByUsername _ => held .clients = some .shared
  | none, saveSession _ => held .clients = some .exclusive
  | none, insert .. | none, erase _ => held .clientTable = some .exclusive
  | none, find _ | none, collect .. | none, collectAll _ => held .clientTable = some .shared
  | none, listInsert .. | none, listErase _ => held .channelListTable = some .exclusive
  | none, listCollect _ => held .channelListTable = some .shared
  | none, isArmed entry | none, disarm entry => held (.writeMutex entry) = some .exclusive
  | none, beginWrite entry _ => held (.writeMutex (.client entry)) = some .exclusive
  | none, beginListWrite entry _ => held (.writeMutex (.channelList entry)) = some .exclusive
  | none, endWrite _ => False

/-- A Write call is under way from its begin to its end. -/
def after (phase : Option (Entry × Writer)) : (a : Act) → a.Res → Option (Entry × Writer)
  | beginWrite entry _, w => w.map (.client entry, ·)
  | beginListWrite entry _, w => w.map (.channelList entry, ·)
  | endWrite _, _ => none
  | port _, _ | findByUsername _, _ | saveSession _, _ | insert .., _ | find _, _ | collect .., _ |
    collectAll _, _
  | erase _, _ | listInsert .., _ | listCollect _, _ | listErase _, _ | isArmed _, _ | disarm _, _ => phase

end Act

/-- The rules of the server's locks. -/
def lockRules : Discipline Lock Act Act.Res (Option (Entry × Writer)) (Fin 3) :=
  ⟨Lock.rank, none, Act.Allowed, Act.after⟩

namespace Locking

/-- The program keeps the rules and ends with the locks it starts with. -/
abbrev Keeps {α : Type} (p : LockTask α) (held : Held Lock) : Prop := lockRules.Keeps held p held none

/-- All locks that are held rank lower. -/
def Below (held : Held Lock) (rank : Fin 3) : Prop := ∀ l, held l ≠ none → l.rank < rank

section
variable {α : Type} {held : Held Lock} {entry : EntryId}

theorem below_free (rank : Fin 3) : Below (fun _ => none) rank := fun _ h => absurd rfl h

theorem Below.update {rank : Fin 3} (h : Below held rank) {l : Lock} {mode : LockMode} (hl : l.rank < rank) :
    Below (Function.update held l (some mode)) rank :=
  Discipline.below_update (D := lockRules) h hl

/-- A section with one act in it. -/
theorem keeps_section {l : Lock} {mode : LockMode} {a : Act} (hbelow : Below held l.rank)
    (ha : a.Allowed (Function.update held l (some mode)) none) (hafter : ∀ r, a.after none r = none) :
    Keeps (withLock l mode (act a)) held :=
  .withLock hbelow (.act ha hafter)

theorem keeps_finish (held : Held Lock) {entry : Entry} (w : Option Writer) :
    lockRules.Keeps held (finish w) held (w.map (entry, ·)) := by
  cases w with
  | none => exact ⟨rfl, rfl⟩
  | some w => exact ⟨rfl, fun _ => ⟨rfl, rfl⟩⟩

theorem keeps_writeEntry (hbelow : Below held 1) {makeEvent : LockTask ChannelEvent}
    (hevent : ∀ held, Below held 2 → Keeps makeEvent held) : Keeps (writeEntry entry makeEvent) held := by
  have hmutex : Function.update held (.writeMutex (.client entry)) (some LockMode.exclusive)
      (.writeMutex (.client entry)) = some .exclusive := Function.update_self ..
  refine .withLock hbelow ⟨hmutex, fun armed => ?_⟩
  have hbelow' : Below (Function.update held (.writeMutex (.client entry)) (some .exclusive)) 2 :=
    Below.update (fun l hl => (hbelow l hl).trans (by decide)) (by decide : (1 : Fin 3) < 2)
  cases armed with
  | false => exact ⟨rfl, rfl⟩
  | true => exact (hevent _ hbelow').bind fun event => ⟨hmutex, keeps_finish _⟩

theorem keeps_writeListEntry (hbelow : Below held 1) (event : ChannelListEvent) :
    Keeps (writeListEntry entry event) held := by
  have hmutex : Function.update held (.writeMutex (.channelList entry)) (some .exclusive)
      (.writeMutex (.channelList entry)) = some LockMode.exclusive := Function.update_self ..
  refine .withLock hbelow ⟨hmutex, fun armed => ?_⟩
  cases armed with
  | false => exact ⟨rfl, rfl⟩
  | true => exact ⟨hmutex, keeps_finish _⟩

theorem keeps_messageToEvent (m : Message) (hbelow : Below held 2) : Keeps (messageToEvent m) held := by
  have hlookup : Keeps (withLock .clients .shared
      (act (.port (.clients (.lookupUsername m.senderId))))) held :=
    keeps_section hbelow (Function.update_self ..) fun _ => rfl
  exact hlookup.bind fun _ => ⟨rfl, rfl⟩

theorem keeps_writeEach (event : ChannelEvent) (targets : List EntryId) :
    Keeps (writeEach event targets) fun _ => none := by
  induction targets with
  | nil => exact ⟨rfl, rfl⟩
  | cons entry targets ih =>
    have hfirst : Keeps (writeEntry entry (.ret event)) fun _ => none :=
      keeps_writeEntry (below_free 1) fun _ _ => ⟨rfl, rfl⟩
    exact hfirst.bind fun _ => ih

theorem keeps_writeListEach (event : ChannelListEvent) (targets : List EntryId) :
    Keeps (writeListEach event targets) fun _ => none := by
  induction targets with
  | nil => exact ⟨rfl, rfl⟩
  | cons entry targets ih => exact (keeps_writeListEntry (below_free 1) event).bind fun _ => ih

/-- A publisher's call that only looks at its table, or changes it. -/
theorem keeps_table {l : Lock} {mode : LockMode} {a : Act}
    (ha : a.Allowed (Function.update (fun _ => none) l (some mode)) none)
    (hafter : ∀ r, a.after none r = none) :
    Keeps (withLock l mode (act a)) fun _ => none :=
  keeps_section (below_free _) ha hafter

theorem keeps_disarm (entry : Entry) :
    Keeps (withLock (.writeMutex entry) .exclusive (act (.disarm entry))) fun _ => none :=
  keeps_table (Function.update_self ..) fun _ => rfl

theorem keeps_registerSubscriberWithSnapshot (order : IterOrder ChannelId) (c : ClientId) (w : StreamId) :
    Keeps (registerSubscriberWithSnapshot order c w) fun _ => none := by
  have hbelow : ∀ rank : Fin 3, 0 < rank →
      Below (Function.update (fun _ => none) .channelListTable (some LockMode.exclusive)) rank :=
    fun rank h => (below_free rank).update h
  have hlist : Keeps (withLock .channels .shared (act (.port (.channels (.listAll order)))))
      (Function.update (fun _ => none) .channelListTable (some .exclusive)) :=
    keeps_section (hbelow 2 (by decide)) (Function.update_self ..) fun _ => rfl
  refine .withLock (below_free 0) ⟨Function.update_self .., fun entry => ?_⟩
  exact hlist.bind fun all => keeps_writeListEntry (hbelow 1 (by decide)) _

theorem keeps_unregisterSubscriber (c : ClientId) : Keeps (unregisterSubscriber c) fun _ => none := by
  have herase : Keeps (withLock .clientTable .exclusive (act (.erase c))) fun _ => none :=
    keeps_table (Function.update_self ..) fun _ => rfl
  refine herase.bind fun found => ?_
  cases found with
  | none => exact ⟨rfl, rfl⟩
  | some entry => exact keeps_disarm (.client entry)

theorem keeps_unregisterListSubscriber (c : ClientId) : Keeps (unregisterListSubscriber c) fun _ => none := by
  have herase : Keeps (withLock .channelListTable .exclusive (act (.listErase c))) fun _ => none :=
    keeps_table (Function.update_self ..) fun _ => rfl
  refine herase.bind fun found => ?_
  cases found with
  | none => exact ⟨rfl, rfl⟩
  | some entry => exact keeps_disarm (.channelList entry)

theorem keeps_publish (c : ClientId) (m : Message) : Keeps (publish c m) fun _ => none := by
  have hfind : Keeps (withLock .clientTable .shared (act (.find c))) fun _ => none :=
    keeps_table (Function.update_self ..) fun _ => rfl
  refine hfind.bind fun found => ?_
  cases found with
  | none => exact ⟨rfl, rfl⟩
  | some entry => exact keeps_writeEntry (below_free 1) fun _ => keeps_messageToEvent m

theorem keeps_broadcast (order : IterOrder ClientId) (recipients : Finset ClientId) (event : ChannelEvent) :
    Keeps (broadcast order recipients event) fun _ => none := by
  have hcollect : Keeps (withLock .clientTable .shared (act (.collect order recipients))) fun _ => none :=
    keeps_table (Function.update_self ..) fun _ => rfl
  exact hcollect.bind (keeps_writeEach event)

theorem keeps_broadcastEvent (order : IterOrder ClientId) (k : ChannelId) (event : ChannelEvent) :
    Keeps (broadcastEvent order k event) fun _ => none := by
  have hcollect : Keeps (withLock .clientTable .shared (act (.collectAll order))) fun _ => none :=
    keeps_table (Function.update_self ..) fun _ => rfl
  exact hcollect.bind (keeps_writeEach event)

theorem keeps_publishToAll (order : IterOrder ClientId) (event : ChannelListEvent) :
    Keeps (publishToAll order event) fun _ => none := by
  have hcollect : Keeps (withLock .channelListTable .shared (act (.listCollect order))) fun _ => none :=
    keeps_table (Function.update_self ..) fun _ => rfl
  exact hcollect.bind (keeps_writeListEach event)

theorem keeps_implementPort (order : IterOrder ClientId) (o : Call) :
    Keeps (implementPort order o) fun _ => none := by
  rcases o with o | o | o | (⟨c, w⟩ | c | ⟨c, m⟩ | ⟨k, rs, c, u⟩ | ⟨k, rs, c, u⟩) |
    (⟨channelOrder, c, w⟩ | c | ch | ⟨k, count⟩) | _ | _
  case publisher.unregisterSubscriber => exact keeps_unregisterSubscriber c
  case publisher.publish => exact keeps_publish c m
  case publisher.broadcastMemberJoined | publisher.broadcastMemberLeft => exact keeps_broadcast order rs _
  case channelList.registerSubscriberWithSnapshot =>
    exact keeps_registerSubscriberWithSnapshot channelOrder c w
  case channelList.unregisterSubscriber => exact keeps_unregisterListSubscriber c
  case channelList.publishChannelCreated | channelList.publishMemberCountChanged =>
    exact keeps_publishToAll order _
  case newMessage | awaitCancelled => exact ⟨rfl, fun _ => ⟨rfl, rfl⟩⟩
  -- one section under one lock
  all_goals exact keeps_table (Function.update_self ..) fun _ => rfl

theorem keeps_implement (order : IterOrder ClientId) (o : AdapterCall) :
    Keeps (implement order o) fun _ => none := by
  cases o with
  | port o => exact keeps_implementPort order o
  | broadcastEvent k event => exact keeps_broadcastEvent order k event
  | findByUsername name => exact keeps_table (Function.update_self ..) fun _ => rfl
  | saveSession session => exact keeps_table (Function.update_self ..) fun _ => rfl

theorem keeps_expand (order : IterOrder ClientId) (p : Prog AdapterCall AdapterCall.Res α) :
    Keeps (expand order p) fun _ => none := by
  induction p with
  | ret a => exact ⟨rfl, rfl⟩
  | call o k ih => exact (keeps_implement order o).bind ih

end

end Locking

/-- Threads that run any calls of the adapters, with their locks. -/
def threaded {ι α : Type} (order : ι → IterOrder ClientId) (programs : ι → Prog AdapterCall AdapterCall.Res α)
    (x : Threaded) :
    LockConfig Threaded ι Lock Act Act.Res α :=
  ⟨LockState.new x, fun i => Prog.as i (Locking.expand (order i) (programs i))⟩

section
variable {ι α : Type} [DecidableEq ι] {order : ι → IterOrder ClientId}
  {programs : ι → Prog AdapterCall AdapterCall.Res α} {x : Threaded}
  {tr : List (LockEvent Threaded ι Lock Act Act.Res α)}
  {m : LockConfig Threaded ι Lock Act Act.Res α}

omit [DecidableEq ι] in
theorem disciplined_threaded : lockRules.Disciplined (threaded order programs x) fun _ => none :=
  Discipline.Disciplined.new fun i => Locking.keeps_expand (order i) (programs i)

/-- Whatever calls the threads make, in whatever order they go, no set of them is deadlocked. -/
theorem never_deadlocked (h : Run acts.locked Threaded.Env (threaded order programs x) tr m) (S : Set ι) :
    ¬ Discipline.Deadlocked m S := by
  obtain ⟨phase, hm⟩ := Discipline.Disciplined.run (fun _ _ he => he.held) disciplined_threaded h
  exact hm.not_deadlocked S

end

/-! The sweep is about to read the registry while a message is on its way to client `2`, whose entry is
locked. -/

def sweepWhilePublishing : Bool → Prog AdapterCall AdapterCall.Res Unit
  | false => Locking.onAdapters do
    let _ ← ExpireInactiveClients.run .byId 0
    return ()
  | true => Locking.onAdapters do
    publisher.registerSubscriber ⟨2⟩ 0
    publisher.publish ⟨2⟩ ⟨⟨4⟩, ⟨3⟩, ⟨1⟩, ⟨ascii "hi", MessageContent.valid_hi⟩, 0⟩

theorem never_deadlocked_sweepWhilePublishing :
    ¬ Discipline.Deadlocked (schedule acts.locked
      (threaded (fun _ : Bool => BucketOrder.byId.clients) sweepWhilePublishing (.new oneConnected.server))
      [true, true, true, true, true, true, true, true, false]).2 Set.univ :=
  never_deadlocked (run_schedule (E := Threaded.Env) ..) Set.univ

end Bcmd
