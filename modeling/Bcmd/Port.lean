import Bcmd.Lib.Rely
import Bcmd.Publisher

/-!
# `application/port/`: the server's state and its atomic steps

A use case reaches the rest of the server through its ports. One port call is one atomic step: the
adapter behind it holds its lock for all of it. Besides the port calls, a `Call` is the construction
of a `Message`, which draws an id and reads the clock, and a stream handler's wait for its
cancellation. Every `generate()` takes the next number of one supply, so generated ids are fresh.
-/

namespace Bcmd

structure Server where
  channels : InMemoryChannelRepository
  clients : InMemoryClientRegistry
  messages : InMemoryMessageRepository
  publisher : GrpcClientPublisher
  channelList : GrpcChannelListPublisher
  /-- The streams whose client has gone away. -/
  cancelled : Finset StreamId
  systemNow : Int
  steadyNow : Int
  nextUuid : Nat

/-- How the hash tables are walked. -/
structure BucketOrder where
  channels : IterOrder ChannelId
  clients : IterOrder ClientId

inductive IChannelRepository
  | findById (channelId : ChannelId)
  | findByName (name : ChannelName)
  | listAll (order : IterOrder ChannelId)
  | save (channel : Channel)
  | create (name : ChannelName)

inductive IClientRegistry
  | findById (clientId : ClientId)
  | lookupUsername (clientId : ClientId)
  | registerClient (username : Username)
  | remove (clientId : ClientId)
  | touchHeartbeat (clientId : ClientId)
  | joinChannelAtomic (clientId : ClientId) (channelId : ChannelId)
  | leaveChannelAtomic (clientId : ClientId) (channelId : ChannelId)
  | collectExpired (order : IterOrder ClientId) (deadline : Int)

inductive IMessageRepository
  | save (message : Message)
  | recent (channelId : ChannelId) (count : UInt32)
  | listBefore (channelId : ChannelId) (beforeMessageId : MessageId) (count : UInt32)

/-- The port, and `registerSubscriber` of the adapter, which the stream handlers call directly. -/
inductive IMessagePublisher
  | registerSubscriber (id : ClientId) (writer : StreamId)
  | unregisterSubscriber (clientId : ClientId)
  | publish (recipientId : ClientId) (message : Message)
  | broadcastMemberJoined (channelId : ChannelId) (recipients : Finset ClientId) (clientId : ClientId)
      (username : Username)
  | broadcastMemberLeft (channelId : ChannelId) (recipients : Finset ClientId) (clientId : ClientId)
      (username : Username)

inductive IChannelListPublisher
  | registerSubscriberWithSnapshot (order : IterOrder ChannelId) (subscriberId : ClientId) (writer : StreamId)
  | unregisterSubscriber (subscriberId : ClientId)
  | publishChannelCreated (channel : Channel)
  | publishMemberCountChanged (channelId : ChannelId) (memberCount : Int32)

inductive Call
  | channels (c : IChannelRepository)
  | clients (c : IClientRegistry)
  | messages (c : IMessageRepository)
  | publisher (c : IMessagePublisher)
  | channelList (c : IChannelListPublisher)
  | newMessage (senderId : ClientId) (channelId : ChannelId) (content : MessageContent)
  /-- `while (!context->IsCancelled()) sleep`: it returns once the stream is cancelled. -/
  | awaitCancelled (stream : StreamId)

@[reducible] def IChannelRepository.Res : IChannelRepository → Type
  | findById _ | findByName _ | create _ => Result Channel
  | listAll _ => List Channel
  | save _ => VoidResult

@[reducible] def IClientRegistry.Res : IClientRegistry → Type
  | findById _ | registerClient _ => Result ClientSession
  | lookupUsername _ => Result Username
  | remove _ | touchHeartbeat _ | joinChannelAtomic _ _ | leaveChannelAtomic _ _ => VoidResult
  | collectExpired _ _ => List ClientSession

@[reducible] def IMessageRepository.Res : IMessageRepository → Type
  | save _ => VoidResult
  | recent _ _ | listBefore _ _ _ => List Message

@[reducible] def Call.Res : Call → Type
  | channels c => c.Res
  | clients c => c.Res
  | messages c => c.Res
  | publisher _ | channelList _ | awaitCancelled _ => Unit
  | newMessage _ _ _ => Message

namespace Server

def handleChannels (s : Server) : (c : IChannelRepository) → c.Res × Server
  | .findById k => (s.channels.findById k, s)
  | .findByName name => (s.channels.findByName name, s)
  | .listAll order => (s.channels.listAll order, s)
  | .save channel => ((s.channels.save channel).1, { s with channels := (s.channels.save channel).2 })
  | .create name =>
    let r := s.channels.create ⟨s.nextUuid⟩ name
    (r.1, { s with channels := r.2, nextUuid := s.nextUuid + 1 })

def handleClients (s : Server) : (c : IClientRegistry) → c.Res × Server
  | .findById c => (s.clients.findById c, s)
  | .lookupUsername c => (s.clients.lookupUsername c, s)
  | .registerClient username =>
    let r := s.clients.registerClient ⟨s.nextUuid⟩ s.steadyNow username
    (r.1, { s with clients := r.2, nextUuid := s.nextUuid + 1 })
  | .remove c => ((s.clients.remove c).1, { s with clients := (s.clients.remove c).2 })
  | .touchHeartbeat c =>
    ((s.clients.touchHeartbeat s.steadyNow c).1,
      { s with clients := (s.clients.touchHeartbeat s.steadyNow c).2 })
  | .joinChannelAtomic c k =>
    ((s.clients.joinChannelAtomic c k).1, { s with clients := (s.clients.joinChannelAtomic c k).2 })
  | .leaveChannelAtomic c k =>
    ((s.clients.leaveChannelAtomic c k).1, { s with clients := (s.clients.leaveChannelAtomic c k).2 })
  | .collectExpired order deadline => (s.clients.collectExpired order deadline, s)

def handleMessages (s : Server) : (c : IMessageRepository) → c.Res × Server
  | .save m => ((s.messages.save m).1, { s with messages := (s.messages.save m).2 })
  | .recent k count => (s.messages.recent k count, s)
  | .listBefore k before count => (s.messages.listBefore k before count, s)

def handlePublisher (s : Server) : IMessagePublisher → GrpcClientPublisher
  | .registerSubscriber c w => s.publisher.registerSubscriber c w
  | .unregisterSubscriber c => s.publisher.unregisterSubscriber c
  | .publish c m => GrpcClientPublisher.publish s.publisher s.clients c m
  | .broadcastMemberJoined k recipients c username =>
    GrpcClientPublisher.broadcastMemberJoined s.publisher k recipients c username
  | .broadcastMemberLeft k recipients c username =>
    GrpcClientPublisher.broadcastMemberLeft s.publisher k recipients c username

def handleChannelList (s : Server) : IChannelListPublisher → GrpcChannelListPublisher
  | .registerSubscriberWithSnapshot order c w =>
    GrpcChannelListPublisher.registerSubscriberWithSnapshot s.channelList s.channels order c w
  | .unregisterSubscriber c => s.channelList.unregisterSubscriber c
  | .publishChannelCreated channel => GrpcChannelListPublisher.publishChannelCreated s.channelList channel
  | .publishMemberCountChanged k count =>
    GrpcChannelListPublisher.publishMemberCountChanged s.channelList k count

def handle : (c : Call) → Server → c.Res × Server
  | .channels c, s => s.handleChannels c
  | .clients c, s => s.handleClients c
  | .messages c, s => s.handleMessages c
  | .publisher c, s => ((), { s with publisher := s.handlePublisher c })
  | .channelList c, s => ((), { s with channelList := s.handleChannelList c })
  | .newMessage sender k content, s =>
    (⟨⟨s.nextUuid⟩, sender, k, content, s.systemNow⟩, { s with nextUuid := s.nextUuid + 1 })
  | .awaitCancelled _, s => ((), s)

def enabled : Call → Server → Prop
  | .awaitCancelled w, s => w ∈ s.cancelled
  | _, _ => True

instance : ∀ c s, Decidable (enabled c s)
  | .awaitCancelled w, s => inferInstanceAs (Decidable (w ∈ s.cancelled))
  | .channels _, _ | .clients _, _ | .messages _, _ | .publisher _, _ | .channelList _, _
  | .newMessage _ _ _, _ => inferInstanceAs (Decidable True)

/-- What goes on besides the calls: streams are cancelled, ids are drawn elsewhere, time passes. The
steady clock never goes back; the system clock may be set to anything. -/
structure Env (s s' : Server) : Prop where
  channels : s'.channels = s.channels
  clients : s'.clients = s.clients
  messages : s'.messages = s.messages
  publisher : s'.publisher = s.publisher
  channelList : s'.channelList = s.channelList
  cancelled : s.cancelled ⊆ s'.cancelled
  steadyNow : s.steadyNow ≤ s'.steadyNow
  nextUuid : s.nextUuid ≤ s'.nextUuid

theorem Env.refl (s : Server) : Env s s :=
  ⟨rfl, rfl, rfl, rfl, rfl, Finset.Subset.refl _, le_refl _, le_refl _⟩

/-! What a call leaves alone. -/
variable (s : Server)

@[simp] theorem handle_channels_clients (c : IChannelRepository) :
    (handle (.channels c) s).2.clients = s.clients := by cases c <;> rfl

@[simp] theorem handle_channels_messages (c : IChannelRepository) :
    (handle (.channels c) s).2.messages = s.messages := by cases c <;> rfl

@[simp] theorem handle_channels_publisher (c : IChannelRepository) :
    (handle (.channels c) s).2.publisher = s.publisher := by cases c <;> rfl

@[simp] theorem handle_channels_channelList (c : IChannelRepository) :
    (handle (.channels c) s).2.channelList = s.channelList := by cases c <;> rfl

@[simp] theorem handle_clients_channels (c : IClientRegistry) :
    (handle (.clients c) s).2.channels = s.channels := by cases c <;> rfl

@[simp] theorem handle_clients_messages (c : IClientRegistry) :
    (handle (.clients c) s).2.messages = s.messages := by cases c <;> rfl

@[simp] theorem handle_clients_publisher (c : IClientRegistry) :
    (handle (.clients c) s).2.publisher = s.publisher := by cases c <;> rfl

@[simp] theorem handle_clients_channelList (c : IClientRegistry) :
    (handle (.clients c) s).2.channelList = s.channelList := by cases c <;> rfl

@[simp] theorem handle_messages_channels (c : IMessageRepository) :
    (handle (.messages c) s).2.channels = s.channels := by cases c <;> rfl

@[simp] theorem handle_messages_clients (c : IMessageRepository) :
    (handle (.messages c) s).2.clients = s.clients := by cases c <;> rfl

@[simp] theorem handle_messages_publisher (c : IMessageRepository) :
    (handle (.messages c) s).2.publisher = s.publisher := by cases c <;> rfl

@[simp] theorem handle_messages_channelList (c : IMessageRepository) :
    (handle (.messages c) s).2.channelList = s.channelList := by cases c <;> rfl

/-- Only the publisher's own calls change what it has. -/
theorem publisher_handle {o : Call} (hp : ∀ o', o ≠ .publisher o') :
    (handle o s).2.publisher = s.publisher := by
  rcases o with o | o | o | o | _ | _ | _
  case publisher => exact absurd rfl (hp o)
  case channels => exact handle_channels_publisher s o
  case clients => exact handle_clients_publisher s o
  case messages => exact handle_messages_publisher s o
  all_goals rfl

@[simp] theorem handle_cancelled (c : Call) : (handle c s).2.cancelled = s.cancelled := by
  rcases c with (_ | _ | _ | _ | _) | (_ | _ | _ | _ | _ | _ | _ | _) | (_ | _ | _) | _ | _ | _ | _ <;> rfl

@[simp] theorem handle_systemNow (c : Call) : (handle c s).2.systemNow = s.systemNow := by
  rcases c with (_ | _ | _ | _ | _) | (_ | _ | _ | _ | _ | _ | _ | _) | (_ | _ | _) | _ | _ | _ | _ <;> rfl

@[simp] theorem handle_steadyNow (c : Call) : (handle c s).2.steadyNow = s.steadyNow := by
  rcases c with (_ | _ | _ | _ | _) | (_ | _ | _ | _ | _ | _ | _ | _) | (_ | _ | _) | _ | _ | _ | _ <;> rfl

end Server

/-- The ports as a machine: what their adapters do to the server. -/
def ports : Machine Server Call Call.Res := ⟨Server.handle, Server.enabled⟩

instance : ∀ c s, Decidable (ports.enabled c s) := inferInstanceAs (∀ c s, Decidable (Server.enabled c s))

/-- A piece of server code. -/
abbrev Task (α : Type) := Prog Call Call.Res α

/-! ### The calls, as the use cases make them -/

abbrev channels.findById (k : ChannelId) : Task (Result Channel) := .perform (Call.channels (.findById k))
abbrev channels.findByName (name : ChannelName) : Task (Result Channel) :=
  .perform (Call.channels (.findByName name))
abbrev channels.listAll (order : IterOrder ChannelId) : Task (List Channel) :=
  .perform (Call.channels (.listAll order))
abbrev channels.save (channel : Channel) : Task VoidResult := .perform (Call.channels (.save channel))
abbrev channels.create (name : ChannelName) : Task (Result Channel) := .perform (Call.channels (.create name))

abbrev clients.findById (c : ClientId) : Task (Result ClientSession) := .perform (Call.clients (.findById c))
abbrev clients.lookupUsername (c : ClientId) : Task (Result Username) :=
  .perform (Call.clients (.lookupUsername c))
abbrev clients.registerClient (username : Username) : Task (Result ClientSession) :=
  .perform (Call.clients (.registerClient username))
abbrev clients.remove (c : ClientId) : Task VoidResult := .perform (Call.clients (.remove c))
abbrev clients.touchHeartbeat (c : ClientId) : Task VoidResult := .perform (Call.clients (.touchHeartbeat c))
abbrev clients.joinChannelAtomic (c : ClientId) (k : ChannelId) : Task VoidResult :=
  .perform (Call.clients (.joinChannelAtomic c k))
abbrev clients.leaveChannelAtomic (c : ClientId) (k : ChannelId) : Task VoidResult :=
  .perform (Call.clients (.leaveChannelAtomic c k))
abbrev clients.collectExpired (order : IterOrder ClientId) (deadline : Int) : Task (List ClientSession) :=
  .perform (Call.clients (.collectExpired order deadline))

abbrev messages.save (m : Message) : Task VoidResult := .perform (Call.messages (.save m))
abbrev messages.recent (k : ChannelId) (count : UInt32) : Task (List Message) :=
  .perform (Call.messages (.recent k count))
abbrev messages.listBefore (k : ChannelId) (before : MessageId) (count : UInt32) : Task (List Message) :=
  .perform (Call.messages (.listBefore k before count))

abbrev publisher.registerSubscriber (c : ClientId) (w : StreamId) : Task Unit :=
  .perform (Call.publisher (.registerSubscriber c w))
abbrev publisher.unregisterSubscriber (c : ClientId) : Task Unit :=
  .perform (Call.publisher (.unregisterSubscriber c))
abbrev publisher.publish (c : ClientId) (m : Message) : Task Unit := .perform (Call.publisher (.publish c m))
abbrev publisher.broadcastMemberJoined (k : ChannelId) (recipients : Finset ClientId) (c : ClientId)
    (username : Username) : Task Unit := .perform
      (Call.publisher (.broadcastMemberJoined k recipients c username))
abbrev publisher.broadcastMemberLeft (k : ChannelId) (recipients : Finset ClientId) (c : ClientId)
    (username : Username) : Task Unit := .perform
      (Call.publisher (.broadcastMemberLeft k recipients c username))

abbrev channelList.registerSubscriberWithSnapshot (order : IterOrder ChannelId) (c : ClientId)
    (w : StreamId) :
    Task Unit := .perform (Call.channelList (.registerSubscriberWithSnapshot order c w))
abbrev channelList.unregisterSubscriber (c : ClientId) : Task Unit :=
  .perform (Call.channelList (.unregisterSubscriber c))
abbrev channelList.publishChannelCreated (channel : Channel) : Task Unit :=
  .perform (Call.channelList (.publishChannelCreated channel))
abbrev channelList.publishMemberCountChanged (k : ChannelId) (count : Int32) : Task Unit :=
  .perform (Call.channelList (.publishMemberCountChanged k count))

abbrev newMessage (sender : ClientId) (k : ChannelId) (content : MessageContent) : Task Message :=
  .perform (Call.newMessage sender k content)
abbrev awaitCancelled (w : StreamId) : Task Unit := .perform (Call.awaitCancelled w)

end Bcmd
