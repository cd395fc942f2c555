import Bcmd.Lib.Locks
import Bcmd.ListSections

/-!
# The locks of the server

Every call of the adapters with its locks: `mutex_` of each publisher, the `write_mutex` of each entry and
`mutex_` of each repository. A Write call has a begin and an end. The locks are ranked: the tables of the
publishers below the entries, and these below the repositories.
-/

namespace Bcmd

/-- A `WriterEntry` of one of the publishers. -/
inductive Entry
  | client (entry : EntryId)
  | channelList (entry : EntryId)
deriving DecidableEq

/-- The writer of a stream of events or of list events. -/
inductive Writer
  | channel (stream : StreamId)
  | channelList (stream : StreamId)
deriving DecidableEq

inductive Lock
  | clientTable
  | channelListTable
  | writeMutex (entry : Entry)
  | channels
  | clients
  | messages
deriving DecidableEq

namespace WriterTable

/-- The targets of `broadcastEvent`. -/
def collectAll (t : WriterTable) (order : IterOrder ClientId) : List EntryId :=
  (order.enum t.writers.keys).filterMap t.writers.lookup

end WriterTable

/-- The server with both publishers taken apart. The `publisher` and `channelList` of `server` are not
used, nor is the `registering` of the list's table, whose lock is there now. -/
structure Threaded where
  server : Server
  table : WriterTable
  listTable : ListTable
  /-- How many Write calls to a writer have begun and not ended. -/
  writing : Writer → Nat

/-- What a thread does between its locks. -/
inductive Act
  /-- The body of a repository's call, or a call that takes no lock. -/
  | port (o : Call)
  | findByUsername (name : Username)
  | saveSession (session : ClientSession)
  | insert (id : ClientId) (writer : StreamId)
  | find (id : ClientId)
  | collect (order : IterOrder ClientId) (recipients : Finset ClientId)
  | collectAll (order : IterOrder ClientId)
  | erase (id : ClientId)
  | listInsert (id : ClientId) (writer : StreamId)
  | listCollect (order : IterOrder ClientId)
  | listErase (id : ClientId)
  /-- `entry->writer != nullptr` -/
  | isArmed (entry : Entry)
  | disarm (entry : Entry)
  /-- `entry->writer->Write(event)` begins; the answer is the writer it is called on. -/
  | beginWrite (entry : EntryId) (event : ChannelEvent)
  | beginListWrite (entry : EntryId) (event : ChannelListEvent)
  | endWrite (writer : Writer)

@[reducible] def Act.Res : Act → Type
  | port o => o.Res
  | findByUsername _ => Result ClientSession
  | saveSession _ => VoidResult
  | insert _ _ | disarm _ | endWrite _ => Unit
  | find _ | erase _ | listErase _ => Option EntryId
  | collect _ _ | collectAll _ | listCollect _ => List EntryId
  | listInsert _ _ => EntryId
  | isArmed _ => Bool
  | beginWrite _ _ | beginListWrite _ _ => Option Writer

namespace Threaded

/-- `entry->writer` -/
def writer (x : Threaded) : Entry → Option Writer
  | .client entry => (x.table.writer entry).map .channel
  | .channelList entry => (x.listTable.writer entry).map .channelList

/-- A Write call to the writer begins, if there is one. -/
def begun (writing : Writer → Nat) : Option Writer → Writer → Nat
  | none => writing
  | some w => Function.update writing w (writing w + 1)

def handle : (a : Act) → Threaded → a.Res × Threaded
  | .port o, x => ((Server.handle o x.server).1, { x with server := (Server.handle o x.server).2 })
  | .findByUsername name, x => (x.server.clients.findByUsername name, x)
  | .saveSession session, x =>
    ((x.server.clients.save session).1,
      { x with server := { x.server with clients := (x.server.clients.save session).2 } })
  | .insert id w, x => ((), { x with table := x.table.insert id w })
  | .find id, x => (x.table.writers.lookup id, x)
  | .collect order recipients, x => (x.table.collect order recipients, x)
  | .collectAll order, x => (x.table.collectAll order, x)
  | .erase id, x =>
    (x.table.writers.lookup id, { x with table := { x.table with writers := x.table.writers.erase id } })
  | .listInsert id w, x =>
    (x.listTable.nextEntry, { x with listTable := { x.listTable.insert id w with registering := none } })
  | .listCollect order, x => (x.listTable.collect order, x)
  | .listErase id, x =>
    (x.listTable.writers.lookup id,
      { x with listTable := { x.listTable with writers := x.listTable.writers.erase id } })
  | .isArmed entry, x => ((x.writer entry).isSome, x)
  | .disarm (.client entry), x => ((), { x with table := x.table.disarm entry })
  | .disarm (.channelList entry), x => ((), { x with listTable := x.listTable.disarm entry })
  | .beginWrite entry event, x =>
    (x.writer (.client entry),
      { x with table := x.table.write entry event, writing := begun x.writing (x.writer (.client entry)) })
  | .beginListWrite entry event, x =>
    (x.writer (.channelList entry),
      { x with
        listTable := x.listTable.write entry event
        writing := begun x.writing (x.writer (.channelList entry)) })
  | .endWrite w, x => ((), { x with writing := Function.update x.writing w (x.writing w - 1) })

def enabled : Act → Threaded → Prop
  | .port o, x => Server.enabled o x.server
  | _, _ => True

instance : ∀ a x, Decidable (enabled a x)
  | .port o, x => inferInstanceAs (Decidable (Server.enabled o x.server))
  | .findByUsername _, _ | .saveSession _, _ | .insert _ _, _ | .find _, _ | .collect _ _, _ |
    .collectAll _, _
  | .erase _, _ | .listInsert _ _, _ | .listCollect _, _ | .listErase _, _ | .isArmed _, _ | .disarm _, _
  | .beginWrite _ _, _ | .beginListWrite _ _, _ | .endWrite _, _ => inferInstanceAs (Decidable True)

/-- Nobody has subscribed yet. -/
def new (s : Server) : Threaded := ⟨s, .empty, .empty, fun _ => 0⟩

/-- The locks and the publishers are only the threads'. -/
structure Env {ι : Type} (g g' : LockState Threaded ι Lock) : Prop where
  held : g'.held = g.held
  table : g'.state.table = g.state.table
  listTable : g'.state.listTable = g.state.listTable
  writing : g'.state.writing = g.state.writing
  server : Server.Env g.state.server g'.state.server

end Threaded

def acts : Machine Threaded Act Act.Res := ⟨Threaded.handle, Threaded.enabled⟩

instance : ∀ a x, Decidable (acts.enabled a x) := inferInstanceAs (∀ a x, Decidable (Threaded.enabled a x))

/-- A piece of server code with its locks. -/
abbrev LockTask (α : Type) := LockProg Lock Act Act.Res α

/-! ### The adapters -/

namespace Locking

abbrev act (a : Act) : LockTask a.Res := .call (.act a) .ret

def registerSubscriber (id : ClientId) (writer : StreamId) : LockTask Unit :=
  withLock .clientTable .exclusive (act (.insert id writer))

def unregisterSubscriber (id : ClientId) : LockTask Unit := do
  match ← withLock .clientTable .exclusive (act (.erase id)) with
  | none => return ()
  | some entry => withLock (.writeMutex (.client entry)) .exclusive (act (.disarm (.client entry)))

/-- The rest of a Write call that has begun on this writer. -/
def finish : Option Writer → LockTask Unit
  | none => return ()
  | some w => act (.endWrite w)

/-- One entry gets an event, which is made under the entry's mutex. -/
def writeEntry (entry : EntryId) (makeEvent : LockTask ChannelEvent) : LockTask Unit :=
  withLock (.writeMutex (.client entry)) .exclusive do
    let armed ← act (.isArmed (.client entry))
    if armed then
      let event ← makeEvent
      let w ← act (.beginWrite entry event)
      finish w
    else return ()

/-- The sender's name is looked up in the registry. -/
def messageToEvent (message : Message) : LockTask ChannelEvent := do
  let username ← withLock .clients .shared (act (.port (.clients (.lookupUsername message.senderId))))
  return .message
    { messageId := message.id
      channelId := message.channelId
      senderId := message.senderId
      senderName :=
        match username with
        | .ok username => username.value
        | .error _ => []
      content := message.content.value
      sentAtMs := toEpochMs message.sentAt }

def publish (recipientId : ClientId) (message : Message) : LockTask Unit := do
  match ← withLock .clientTable .shared (act (.find recipientId)) with
  | none => return ()
  | some entry => writeEntry entry (messageToEvent message)

def writeEach (event : ChannelEvent) : List EntryId → LockTask Unit
  | [] => return ()
  | entry :: targets => do
    writeEntry entry (return event)
    writeEach event targets

def broadcast (order : IterOrder ClientId) (recipients : Finset ClientId) (event : ChannelEvent) :
    LockTask Unit := do
  let targets ← withLock .clientTable .shared (act (.collect order recipients))
  writeEach event targets

def broadcastMemberJoined (order : IterOrder ClientId) (channelId : ChannelId) (recipients : Finset ClientId)
    (clientId : ClientId) (username : Username) : LockTask Unit :=
  broadcast order recipients (.memberJoined channelId clientId username.value)

def broadcastMemberLeft (order : IterOrder ClientId) (channelId : ChannelId) (recipients : Finset ClientId)
    (clientId : ClientId) (username : Username) : LockTask Unit :=
  broadcast order recipients (.memberLeft channelId clientId username.value)

def broadcastEvent (order : IterOrder ClientId) (_channelId : ChannelId) (event : ChannelEvent) :
    LockTask Unit := do
  let targets ← withLock .clientTable .shared (act (.collectAll order))
  writeEach event targets

def writeListEntry (entry : EntryId) (event : ChannelListEvent) : LockTask Unit :=
  withLock (.writeMutex (.channelList entry)) .exclusive do
    let armed ← act (.isArmed (.channelList entry))
    if armed then
      let w ← act (.beginListWrite entry event)
      finish w
    else return ()

/-- The table stays locked while the channels are listed and the snapshot is written. -/
def registerSubscriberWithSnapshot (order : IterOrder ChannelId) (subscriberId : ClientId)
    (writer : StreamId) :
    LockTask Unit :=
  withLock .channelListTable .exclusive do
    let entry ← act (.listInsert subscriberId writer)
    let all ← withLock .channels .shared (act (.port (.channels (.listAll order))))
    writeListEntry entry (.snapshot (all.map populateChannelSummary))

def unregisterListSubscriber (subscriberId : ClientId) : LockTask Unit := do
  match ← withLock .channelListTable .exclusive (act (.listErase subscriberId)) with
  | none => return ()
  | some entry => withLock (.writeMutex (.channelList entry)) .exclusive (act (.disarm (.channelList entry)))

def writeListEach (event : ChannelListEvent) : List EntryId → LockTask Unit
  | [] => return ()
  | entry :: targets => do
    writeListEntry entry event
    writeListEach event targets

/-- The two calls that publish an event. -/
def publishToAll (order : IterOrder ClientId) (event : ChannelListEvent) : LockTask Unit := do
  let targets ← withLock .channelListTable .shared (act (.listCollect order))
  writeListEach event targets

def publishChannelCreated (order : IterOrder ClientId) (channel : Channel) : LockTask Unit :=
  publishToAll order (.created (populateChannelSummary channel))

def publishMemberCountChanged (order : IterOrder ClientId) (channelId : ChannelId) (memberCount : Int32) :
    LockTask Unit :=
  publishToAll order (.memberCountChanged channelId memberCount)

end Locking

/-- `std::shared_lock` for what only reads, `std::unique_lock` for the rest. -/
def IChannelRepository.mode : IChannelRepository → LockMode
  | findById _ | findByName _ | listAll _ => .shared
  | save _ | create _ => .exclusive

def IClientRegistry.mode : IClientRegistry → LockMode
  | findById _ | lookupUsername _ | collectExpired _ _ => .shared
  | registerClient _ | remove _ | touchHeartbeat _ | joinChannelAtomic _ _ | leaveChannelAtomic _ _ =>
    .exclusive

def IMessageRepository.mode : IMessageRepository → LockMode
  | recent _ _ | listBefore _ _ _ => .shared
  | save _ => .exclusive

/-- The calls of the adapters, those too that no use case makes. -/
inductive AdapterCall
  | port (o : Call)
  | broadcastEvent (channelId : ChannelId) (event : ChannelEvent)
  | findByUsername (name : Username)
  | saveSession (session : ClientSession)

@[reducible] def AdapterCall.Res : AdapterCall → Type
  | port o => o.Res
  | broadcastEvent _ _ => Unit
  | findByUsername _ => Result ClientSession
  | saveSession _ => VoidResult

namespace Locking

/-- A port call with its locks. -/
def implementPort (order : IterOrder ClientId) : (o : Call) → LockTask o.Res
  | .publisher (.registerSubscriber c w) => registerSubscriber c w
  | .publisher (.unregisterSubscriber c) => unregisterSubscriber c
  | .publisher (.publish c m) => publish c m
  | .publisher (.broadcastMemberJoined k recipients c username) =>
    broadcastMemberJoined order k recipients c username
  | .publisher (.broadcastMemberLeft k recipients c username) =>
    broadcastMemberLeft order k recipients c username
  | .channelList (.registerSubscriberWithSnapshot channelOrder c w) =>
    registerSubscriberWithSnapshot channelOrder c w
  | .channelList (.unregisterSubscriber c) => unregisterListSubscriber c
  | .channelList (.publishChannelCreated channel) => publishChannelCreated order channel
  | .channelList (.publishMemberCountChanged k count) => publishMemberCountChanged order k count
  | .channels o => withLock .channels o.mode (act (.port (.channels o)))
  | .clients o => withLock .clients o.mode (act (.port (.clients o)))
  | .messages o => withLock .messages o.mode (act (.port (.messages o)))
  | .newMessage sender k content => act (.port (.newMessage sender k content))
  | .awaitCancelled w => act (.port (.awaitCancelled w))

def implement (order : IterOrder ClientId) : (o : AdapterCall) → LockTask o.Res
  | .port o => implementPort order o
  | .broadcastEvent k event => broadcastEvent order k event
  | .findByUsername name => withLock .clients .shared (act (.findByUsername name))
  | .saveSession session => withLock .clients .exclusive (act (.saveSession session))

/-- A program with the locks of all its calls. It holds none between two calls. -/
def expand {α : Type} (order : IterOrder ClientId) : Prog AdapterCall AdapterCall.Res α → LockTask α
  | .ret a => .ret a
  | .call o k => implement order o >>= fun r => expand order (k r)

/-- A use case as a program over the calls of the adapters. -/
def onAdapters {α : Type} : Task α → Prog AdapterCall AdapterCall.Res α
  | .ret a => .ret a
  | .call o k => .call (.port o) fun r => onAdapters (k r)

end Locking

/-! ### A thread that runs alone -/

/-- The taken apart publishers stand for the atomic ones. -/
structure Threaded.Refines (x : Threaded) (s : Server) : Prop where
  rest : { x.server with publisher := s.publisher, channelList := s.channelList } = s
  table : Bcmd.Refines ⟨s, x.table⟩ s
  listTable : x.listTable.Refines s.channelList

namespace Locking

section
variable {x : Threaded} {s : Server}

theorem begun_ended (writing : Writer → Nat) (w : Writer) :
    Function.update (Threaded.begun writing (some w)) w (Threaded.begun writing (some w) w - 1) =
      writing := by
  show Function.update (Function.update writing w (writing w + 1)) w
    (Function.update writing w (writing w + 1) w - 1) = writing
  rw [Function.update_idem, Function.update_self, Nat.add_sub_cancel, Function.update_eq_self]

theorem exec_writeEntry (entry : EntryId) {makeEvent : LockTask ChannelEvent} {event : ChannelEvent}
    (hevent : acts.exec (Prog.acts makeEvent) x = (event, x)) :
    acts.exec (Prog.acts (writeEntry entry makeEvent)) x =
      ((), { x with table := x.table.write entry event }) := by
  have hmake : ∀ f : ChannelEvent → LockTask Unit,
      acts.exec (Prog.acts (makeEvent >>= f)) x = acts.exec (Prog.acts (f event)) x := by
    intro f
    rw [Prog.acts_bind, Machine.exec_bind, hevent]
  unfold writeEntry
  rw [Prog.acts_withLock]
  rcases hw : x.table.writer entry with _ | w
  · have harmed : (acts.handle (.isArmed (.client entry)) x).1 = false := by
      show ((x.table.writer entry).map Writer.channel).isSome = false
      rw [hw]
      rfl
    show acts.exec (Prog.acts (if (acts.handle (.isArmed (.client entry)) x).1 then _ else _)) x = _
    rw [harmed, WriterTable.write, hw]
    rfl
  · have harmed : (acts.handle (.isArmed (.client entry)) x).1 = true := by
      show ((x.table.writer entry).map Writer.channel).isSome = true
      rw [hw]
      rfl
    have hwriter : x.writer (.client entry) = some (.channel w) := by
      show (x.table.writer entry).map Writer.channel = _
      rw [hw]
      rfl
    show acts.exec (Prog.acts (if (acts.handle (.isArmed (.client entry)) x).1 then _ else _)) x = _
    rw [harmed, if_pos rfl, hmake]
    show acts.exec (Prog.acts (finish (x.writer (.client entry)))) { x with
      table := x.table.write entry event, writing := Threaded.begun x.writing (x.writer (.client entry)) } = _
    rw [hwriter]
    show ((), { x with table := x.table.write entry event, writing := Function.update _ (Writer.channel w) _ }) = _
    rw [begun_ended]

theorem exec_messageToEvent (m : Message) (x : Threaded) :
    acts.exec (Prog.acts (messageToEvent m)) x = (.message (Bcmd.messageToEvent x.server.clients m), x) := by
  have hlookup : (acts.exec (Prog.acts (act (.port (.clients (.lookupUsername m.senderId))))) x).1 =
      x.server.clients.lookupUsername m.senderId := rfl
  unfold messageToEvent Bcmd.messageToEvent
  rw [Prog.acts_bind, Prog.acts_withLock, Machine.exec_bind, hlookup]
  rcases x.server.clients.lookupUsername m.senderId with e | username <;> rfl

theorem exec_writeListEntry (entry : EntryId) (event : ChannelListEvent) (x : Threaded) :
    acts.exec (Prog.acts (writeListEntry entry event)) x =
      ((), { x with listTable := x.listTable.write entry event }) := by
  unfold writeListEntry
  rw [Prog.acts_withLock]
  rcases hw : x.listTable.writer entry with _ | w
  · have harmed : (acts.handle (.isArmed (.channelList entry)) x).1 = false := by
      show ((x.listTable.writer entry).map Writer.channelList).isSome = false
      rw [hw]
      rfl
    show acts.exec (Prog.acts (if (acts.handle (.isArmed (.channelList entry)) x).1 then _ else _)) x = _
    rw [harmed, ListTable.write, hw]
    rfl
  · have hwriter : x.writer (.channelList entry) = some (.channelList w) := by
      show (x.listTable.writer entry).map Writer.channelList = _
      rw [hw]
      rfl
    have harmed : (acts.handle (.isArmed (.channelList entry)) x).1 = true := by
      show (x.writer (.channelList entry)).isSome = true
      rw [hwriter]
      rfl
    show acts.exec (Prog.acts (if (acts.handle (.isArmed (.channelList entry)) x).1 then _ else _)) x = _
    rw [harmed, if_pos rfl]
    show acts.exec (Prog.acts (finish (x.writer (.channelList entry)))) { x with
      listTable := x.listTable.write entry event
      writing := Threaded.begun x.writing (x.writer (.channelList entry)) } = _
    rw [hwriter]
    show ((), { x with
      listTable := x.listTable.write entry event, writing := Function.update _ (Writer.channelList w) _ }) = _
    rw [begun_ended]

theorem exec_writeEach (event : ChannelEvent) (targets : List EntryId) (x : Threaded) :
    acts.exec (Prog.acts (writeEach event targets)) x = ((), { x with
      table := (sections.exec (Sections.writeEach event targets) ⟨s, x.table⟩).2.table }) := by
  induction targets generalizing x with
  | nil => rfl
  | cons entry targets ih =>
    have hevent : acts.exec (Prog.acts (Prog.ret event : LockTask ChannelEvent)) x = (event, x) := rfl
    unfold writeEach Sections.writeEach
    rw [Prog.acts_bind, Machine.exec_bind]
    rw [show (pure event : LockTask ChannelEvent) = .ret event from rfl, exec_writeEntry entry hevent, ih]
    rfl

theorem exec_writeListEach (event : ChannelListEvent) (targets : List EntryId) (x : Threaded) :
    acts.exec (Prog.acts (writeListEach event targets)) x = ((), { x with
      listTable := (listSections.exec (ListSections.writeEach event targets)
        ⟨s, x.listTable⟩).2.table }) := by
  induction targets generalizing x with
  | nil => rfl
  | cons entry targets ih =>
    unfold writeListEach ListSections.writeEach
    rw [Prog.acts_bind, Machine.exec_bind, exec_writeListEntry, ih]
    rfl

/-- Alone, a call of the message publisher does in locked sections what it does in sections. -/
theorem exec_publisher (order : IterOrder ClientId) (hclients : s.clients = x.server.clients)
    (c : IMessagePublisher) :
    acts.exec (Prog.acts (implementPort order (.publisher c))) x = ((), { x with
      table := (sections.exec (Bcmd.implement order (.publisher c)) ⟨s, x.table⟩).2.table }) := by
  -- the two `match`es look at the same entry of the table
  cases c with
  | registerSubscriber c w => rfl
  | unregisterSubscriber c =>
    show acts.exec (Prog.acts (withLock _ _ (act (.erase c)) >>= _)) x = _
    have hsections : Bcmd.implement order (.publisher (.unregisterSubscriber c)) =
        Sections.unregisterSubscriber c := rfl
    have hfound : (acts.exec (Prog.acts (act (.erase c))) x).1 = x.table.writers.lookup c := rfl
    rw [Prog.acts_bind, Prog.acts_withLock, Machine.exec_bind, hfound, hsections,
      Sections.unregisterSubscriber, Prog.perform_bind, Machine.exec_call]
    rcases hc : x.table.writers.lookup c with _ | entry
    · rw [show (sections.handle (.erase c) ⟨s, x.table⟩).1 = none from hc]
      rfl
    · rw [show (sections.handle (.erase c) ⟨s, x.table⟩).1 = some entry from hc]
      rfl
  | publish c m =>
    show acts.exec (Prog.acts (withLock _ _ (act (.find c)) >>= _)) x = _
    have hsections : Bcmd.implement order (.publisher (.publish c m)) = Sections.publish c m := rfl
    have hfound : (acts.exec (Prog.acts (act (.find c))) x).1 = x.table.writers.lookup c := rfl
    rw [Prog.acts_bind, Prog.acts_withLock, Machine.exec_bind, hfound, hsections, Sections.publish,
      Prog.perform_bind, Machine.exec_call]
    rcases hc : x.table.writers.lookup c with _ | entry
    · rw [show (sections.handle (.find c) ⟨s, x.table⟩).1 = none from hc]
      rfl
    · rw [show (sections.handle (.find c) ⟨s, x.table⟩).1 = some entry from hc]
      show acts.exec (Prog.acts (writeEntry entry (messageToEvent m))) x = _
      rw [exec_writeEntry entry (exec_messageToEvent m x), ← hclients]
      rfl
  | broadcastMemberJoined k recipients c username => exact exec_writeEach _ _ _
  | broadcastMemberLeft k recipients c username => exact exec_writeEach _ _ _

/-- And so does a call of the channel-list publisher. -/
theorem exec_channelList (order : IterOrder ClientId) (hchannels : s.channels = x.server.channels)
    (c : IChannelListPublisher) :
    acts.exec (Prog.acts (implementPort order (.channelList c))) x = ((), { x with
      listTable := (listSections.exec (ListSections.implement order (.channelList c))
        ⟨s, x.listTable⟩).2.table }) := by
  cases c with
  | registerSubscriberWithSnapshot channelOrder c w =>
    show acts.exec (Prog.acts (registerSubscriberWithSnapshot channelOrder c w)) x = _
    rw [registerSubscriberWithSnapshot, Prog.acts_withLock]
    show acts.exec (Prog.acts (writeListEntry x.listTable.nextEntry (.snapshot
      ((x.server.channels.listAll channelOrder).map populateChannelSummary)))) { x with
        listTable := { x.listTable.insert c w with registering := none } } = _
    rw [exec_writeListEntry, ← hchannels]
    show _ = ((), { x with listTable := { (x.listTable.insert c w).write x.listTable.nextEntry
      (.snapshot ((s.channels.listAll channelOrder).map populateChannelSummary)) with registering := none } })
    rw [ListTable.write_eq, ListTable.write_eq]
    rfl
  | unregisterSubscriber c =>
    show acts.exec (Prog.acts (withLock _ _ (act (.listErase c)) >>= _)) x = _
    have hsections : ListSections.implement order (.channelList (.unregisterSubscriber c)) =
        ListSections.unregisterSubscriber c := rfl
    have hfound : (acts.exec (Prog.acts (act (.listErase c))) x).1 = x.listTable.writers.lookup c := rfl
    rw [Prog.acts_bind, Prog.acts_withLock, Machine.exec_bind, hfound, hsections,
      ListSections.unregisterSubscriber, Prog.perform_bind, Machine.exec_call]
    rcases hc : x.listTable.writers.lookup c with _ | entry
    · rw [show (listSections.handle (.erase c) ⟨s, x.listTable⟩).1 = none from hc]
      rfl
    · rw [show (listSections.handle (.erase c) ⟨s, x.listTable⟩).1 = some entry from hc]
      rfl
  | publishChannelCreated channel => exact exec_writeListEach _ _ _
  | publishMemberCountChanged k count => exact exec_writeListEach _ _ _

theorem refines_port (h : x.Refines s) {o : Call} (hp : ∀ c, o ≠ .publisher c)
    (hl : ∀ c, o ≠ .channelList c) :
    (Server.handle o x.server).1 = (Server.handle o s).1 ∧
      Threaded.Refines { x with server := (Server.handle o x.server).2 } (Server.handle o s).2 := by
  have heq := ListSections.handle_withChannelList o hl
    { x.server with publisher := s.publisher } s.channelList
  have heq' := Server.handle_withPublisher o hp x.server s.publisher
  rw [show ({ x.server with publisher := s.publisher, channelList := s.channelList } : Server) =
    s from h.rest, heq'] at heq
  rw [heq]
  exact ⟨rfl, rfl, ⟨rfl, h.table.lookup, h.table.written, h.table.armed, h.table.used, h.table.unique⟩, h.listTable⟩

theorem exec_implementPort (order : IterOrder ClientId) (h : x.Refines s) (o : Call) :
    ∃ x', acts.exec (Prog.acts (implementPort order o)) x = ((Server.handle o s).1, x') ∧
      x'.Refines (Server.handle o s).2 := by
  have hrest : ∀ {o : Call}, (∀ c, o ≠ .publisher c) → (∀ c, o ≠ .channelList c) →
      acts.exec (Prog.acts (implementPort order o)) x =
        ((Server.handle o x.server).1, { x with server := (Server.handle o x.server).2 }) →
      ∃ x', acts.exec (Prog.acts (implementPort order o)) x = ((Server.handle o s).1, x') ∧
        x'.Refines (Server.handle o s).2 := by
    intro o hp hl hexec
    exact ⟨_, hexec.trans (Prod.ext (refines_port h hp hl).1 rfl), (refines_port h hp hl).2⟩
  cases o with
  | publisher c =>
    have hclients : s.clients = x.server.clients := by rw [← h.rest]
    obtain ⟨x', hexec, hx'⟩ := Bcmd.exec_implement order h.table (.publisher c)
    have hrest' : ({ x.server with publisher := s.handlePublisher c, channelList := s.channelList } : Server) =
        { s with publisher := s.handlePublisher c } :=
      congrArg (fun t : Server => { t with publisher := s.handlePublisher c }) h.rest
    refine ⟨_, exec_publisher order hclients c, hrest', ?_, h.listTable⟩
    rw [hexec]
    exact ⟨rfl, hx'.lookup, hx'.written, hx'.armed, hx'.used, hx'.unique⟩
  | channelList c =>
    have hchannels : s.channels = x.server.channels := by rw [← h.rest]
    have hlist : ListSectioned.Refines ⟨s, x.listTable⟩ s := ⟨rfl, h.listTable⟩
    obtain ⟨x', hexec, hx'⟩ := ListSections.exec_implement order hlist (.channelList c)
    have hrest' : ({ x.server with publisher := s.publisher, channelList := s.handleChannelList c } : Server) =
        { s with channelList := s.handleChannelList c } :=
      congrArg (fun t : Server => { t with channelList := s.handleChannelList c }) h.rest
    refine ⟨_, exec_channelList order hchannels c, hrest',
      ⟨rfl, h.table.lookup, h.table.written, h.table.armed, h.table.used, h.table.unique⟩, ?_⟩
    rw [hexec]
    exact hx'.table
  | channels o => exact hrest nofun nofun rfl
  | clients o => exact hrest nofun nofun rfl
  | messages o => exact hrest nofun nofun rfl
  | newMessage sender k content => exact hrest nofun nofun rfl
  | awaitCancelled w => exact hrest nofun nofun rfl

/-- A thread that runs a use case alone, with all its locks, does what the atomic calls do. -/
theorem exec_onAdapters {ι α : Type} [DecidableEq ι] (order : IterOrder ClientId) (i : ι) (p : Task α)
    {g : LockState Threaded ι Lock} (h : g.state.Refines s) :
    (acts.locked.exec (Prog.as i (expand order (onAdapters p))) g).1 = (ports.exec p s).1 ∧
      (acts.locked.exec (Prog.as i (expand order (onAdapters p))) g).2.state.Refines (ports.exec p s).2 := by
  have hacts : ∀ {x s}, Threaded.Refines x s →
      ∃ x', acts.exec (Prog.acts (expand order (onAdapters p))) x = ((ports.exec p s).1, x') ∧
        x'.Refines (ports.exec p s).2 := by
    induction p with
    | ret a => exact fun {x} _ h => ⟨x, rfl, h⟩
    | call o k ih =>
      intro x s h
      obtain ⟨x₁, hexec, h₁⟩ := exec_implementPort order h o
      have hfirst : acts.exec (Prog.acts (expand order (onAdapters (.call o k)))) x =
          acts.exec (Prog.acts (implementPort order o >>= fun r => expand order (onAdapters (k r)))) x := rfl
      rw [hfirst, Prog.acts_bind, Machine.exec_bind, hexec, Machine.exec_call]
      exact ih _ h₁
  obtain ⟨x', hexec, hx'⟩ := hacts h
  obtain ⟨hret, hstate⟩ := Machine.exec_as acts i (expand order (onAdapters p)) g
  rw [hret, hstate, hexec]
  exact ⟨rfl, hx'⟩

end

end Locking

end Bcmd
