import Bcmd.Persistence

/-!
# `adapter/grpc/`: the two publishers

Both keep a table from client ids to the writers of their open streams. Here every publisher call is
one atomic step, so an entry is armed as long as it is in the table; `Sections.lean` takes the calls
of the message publisher apart into their critical sections. A stream is named by a number, and
`written` is everything that was ever written to it.
-/

namespace Bcmd

abbrev StreamId := Nat

structure Subscribers (Event : Type) where
  writers : Finmap fun _ : ClientId => StreamId
  written : StreamId → List Event

namespace Subscribers
variable {Event : Type}

def empty : Subscribers Event := ⟨∅, fun _ => []⟩

/-- `insert_or_assign`: a new stream of a client takes the place of an older one. -/
def registerSubscriber (p : Subscribers Event) (id : ClientId) (writer : StreamId) : Subscribers Event :=
  { p with writers := p.writers.insert id writer }

def unregisterSubscriber (p : Subscribers Event) (id : ClientId) : Subscribers Event :=
  { p with writers := p.writers.erase id }

def write (p : Subscribers Event) (writer : StreamId) (event : Event) : Subscribers Event :=
  { p with written := Function.update p.written writer (p.written writer ++ [event]) }

/-- Write to the client's stream, if it has one. -/
def writeTo (p : Subscribers Event) (id : ClientId) (event : Event) : Subscribers Event :=
  match p.writers.lookup id with
  | none => p
  | some writer => p.write writer event

/-- Write once for every entry whose client is wanted. -/
def writeWhere (p : Subscribers Event) (wanted : ClientId → Bool) (event : Event) : Subscribers Event :=
  { p with written := fun w => p.written w ++
      List.replicate (p.writers.keys.filter fun id => wanted id ∧ p.writers.lookup id = some w).card event }

variable (p : Subscribers Event) (id : ClientId) (w : StreamId) (event : Event)

@[simp] theorem writers_register : (p.registerSubscriber id w).writers = p.writers.insert id w := rfl
@[simp] theorem written_register : (p.registerSubscriber id w).written = p.written := rfl
@[simp] theorem writers_unregister : (p.unregisterSubscriber id).writers = p.writers.erase id := rfl
@[simp] theorem written_unregister : (p.unregisterSubscriber id).written = p.written := rfl
@[simp] theorem writers_write : (p.write w event).writers = p.writers := rfl

@[simp] theorem writers_writeTo : (p.writeTo id event).writers = p.writers := by
  unfold writeTo; split <;> rfl

@[simp] theorem writers_writeWhere (wanted : ClientId → Bool) :
    (p.writeWhere wanted event).writers = p.writers := rfl

theorem written_write (w' : StreamId) :
    (p.write w event).written w' = if w' = w then p.written w ++ [event] else p.written w' :=
  Function.update_apply ..

theorem written_writeTo (w' : StreamId) : (p.writeTo id event).written w' =
    if p.writers.lookup id = some w' then p.written w' ++ [event] else p.written w' := by
  unfold writeTo
  cases h : p.writers.lookup id with
  | none => simp
  | some w =>
    rw [written_write]
    by_cases hw : w' = w
    · subst hw; simp
    · rw [if_neg hw, if_neg fun h => hw (Option.some.inj h).symm]

theorem mem_written_writeWhere (wanted : ClientId → Bool) (w' : StreamId) (e : Event) :
    e ∈ (p.writeWhere wanted event).written w' ↔
      e ∈ p.written w' ∨ e = event ∧ ∃ id, wanted id ∧ p.writers.lookup id = some w' := by
  have hex : (p.writers.keys.filter fun id => wanted id ∧ p.writers.lookup id = some w').card ≠ 0 ↔
      ∃ id, wanted id ∧ p.writers.lookup id = some w' := by
    rw [Finset.card_ne_zero]
    constructor
    · rintro ⟨id, h⟩
      exact ⟨id, (Finset.mem_filter.1 h).2⟩
    · rintro ⟨id, h⟩
      exact ⟨id, Finset.mem_filter.2 ⟨Finmap.mem_keys.2 (Finmap.mem_of_lookup_eq_some h.2), h⟩⟩
  simp only [writeWhere, List.mem_append, List.mem_replicate, hex]
  tauto

end Subscribers

/-! ### `client_publisher.cpp` -/

structure MessageEvent where
  messageId : MessageId
  channelId : ChannelId
  senderId : ClientId
  senderName : Bytes
  content : Bytes
  sentAtMs : Int
deriving DecidableEq

inductive ChannelEvent
  | message (m : MessageEvent)
  | memberJoined (channelId : ChannelId) (clientId : ClientId) (username : Bytes)
  | memberLeft (channelId : ChannelId) (clientId : ClientId) (username : Bytes)
deriving DecidableEq

abbrev GrpcClientPublisher := Subscribers ChannelEvent

/-- Clock readings are in nanoseconds; `duration_cast` rounds toward zero. -/
def toEpochMs (timePoint : Int) : Int := timePoint.tdiv 1000000

/-- The name stays empty for a sender that was never registered. -/
def messageToEvent (registry : InMemoryClientRegistry) (message : Message) : MessageEvent where
  messageId := message.id
  channelId := message.channelId
  senderId := message.senderId
  senderName :=
    match registry.lookupUsername message.senderId with
    | .ok username => username.value
    | .error _ => []
  content := message.content.value
  sentAtMs := toEpochMs message.sentAt

namespace GrpcClientPublisher

def publish (p : GrpcClientPublisher) (registry : InMemoryClientRegistry) (recipientId : ClientId)
    (message : Message) : GrpcClientPublisher :=
  p.writeTo recipientId (.message (messageToEvent registry message))

/-- The keys of the table are parsed back into ids, which drops the nil one. -/
def isTarget (recipients : Finset ClientId) (id : ClientId) : Bool := id.value ≠ 0 ∧ id ∈ recipients

def broadcastMemberJoined (p : GrpcClientPublisher) (channelId : ChannelId) (recipients : Finset ClientId)
    (clientId : ClientId) (username : Username) : GrpcClientPublisher :=
  p.writeWhere (isTarget recipients) (.memberJoined channelId clientId username.value)

def broadcastMemberLeft (p : GrpcClientPublisher) (channelId : ChannelId) (recipients : Finset ClientId)
    (clientId : ClientId) (username : Username) : GrpcClientPublisher :=
  p.writeWhere (isTarget recipients) (.memberLeft channelId clientId username.value)

end GrpcClientPublisher

/-! ### `channel_list_publisher.cpp` -/

structure ChannelSummary where
  id : ChannelId
  name : Bytes
  memberCount : Int32
deriving DecidableEq

inductive ChannelListEvent
  | snapshot (channels : List ChannelSummary)
  | created (channel : ChannelSummary)
  | memberCountChanged (channelId : ChannelId) (memberCount : Int32)
deriving DecidableEq

/-- `static_cast<std::int32_t>` of a `std::size_t`. -/
def toInt32 (n : Nat) : Int32 := Int32.ofNat n

def populateChannelSummary (channel : Channel) : ChannelSummary :=
  ⟨channel.id, channel.name.value, toInt32 channel.memberCount⟩

abbrev GrpcChannelListPublisher := Subscribers ChannelListEvent

namespace GrpcChannelListPublisher

def registerSubscriberWithSnapshot (p : GrpcChannelListPublisher) (channels : InMemoryChannelRepository)
    (order : IterOrder ChannelId) (subscriberId : ClientId) (writer : StreamId) : GrpcChannelListPublisher :=
  (p.registerSubscriber subscriberId writer).write writer
    (.snapshot ((channels.listAll order).map populateChannelSummary))

def publishChannelCreated (p : GrpcChannelListPublisher) (channel : Channel) : GrpcChannelListPublisher :=
  p.writeWhere (fun _ => true) (.created (populateChannelSummary channel))

def publishMemberCountChanged (p : GrpcChannelListPublisher) (channelId : ChannelId) (memberCount : Int32) :
    GrpcChannelListPublisher :=
  p.writeWhere (fun _ => true) (.memberCountChanged channelId memberCount)

end GrpcChannelListPublisher

end Bcmd
