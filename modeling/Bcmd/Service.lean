import Bcmd.UseCase

/-!
# `broadcast_service_impl.cpp`: the RPC handlers

A request's fields are the byte strings the client sent. A stream handler is cut where it starts to
wait for its cancellation: `begin…` up to there, `end…` from there on.
-/

namespace Bcmd

/-! ### `error_to_status.cpp` -/

inductive StatusCode
  | notFound
  | alreadyExists
  | invalidArgument
  | internal
deriving DecidableEq

/-- A status other than OK. -/
structure Status where
  code : StatusCode
  message : String
deriving DecidableEq

abbrev Reply (α : Type) := Except Status α

def statusCode : Error → StatusCode
  | .channelNotFound | .clientNotFound | .notAMember => .notFound
  | .alreadyMember | .channelAlreadyExists | .clientAlreadyExists => .alreadyExists
  | .invalidUsername | .invalidChannelName | .invalidArgument | .messageEmpty | .messageInvalidPrefix
  | .messageTooLong => .invalidArgument
  | .storageError | .networkError | .notImplemented => .internal

def errorToStatus (error : Error) : Status := ⟨statusCode error, errorMessage error⟩

/-- OK with the value, or the status of the error. -/
def toReply {α : Type} : Result α → Reply α
  | .ok a => .ok a
  | .error e => .error (errorToStatus e)

namespace BroadcastService
variable (uuid : UuidLib) (order : BucketOrder)

def parseClient (clientId : Bytes) : Option ClientId := StrongId.parse uuid (trim clientId)
def parseChannel (channelId : Bytes) : Option ChannelId := StrongId.parse uuid (trim channelId)

def Connect (username : Bytes) : Task (Reply ClientId) := do
  match Username.create (trim username) with
  | none => return .error (errorToStatus .invalidUsername)
  | some username =>
  match ← clients.registerClient username with
  | .error e => return .error (errorToStatus e)
  | .ok session => return .ok session.id

/-- Errors of a leave are only logged. -/
def leaveEach (clientId : ClientId) : List ChannelId → Task Unit
  | [] => return ()
  | channelId :: channelIds => do
    let _ ← LeaveChannel.execute clientId channelId
    leaveEach clientId channelIds

/-- `Disconnect` once its field is parsed. -/
def disconnectClient (clientId : ClientId) : Task (Reply Unit) := do
  match ← clients.findById clientId with
  | .error e => return .error (errorToStatus e)
  | .ok session =>
  leaveEach clientId (order.channels.enum session.joinedChannels)
  match ← clients.remove clientId with
  | .error e => return .error (errorToStatus e)
  | .ok () =>
  publisher.unregisterSubscriber clientId
  return .ok ()

def Disconnect (clientId : Bytes) : Task (Reply Unit) :=
  match parseClient uuid clientId with
  | none => return .error (errorToStatus .clientNotFound)
  | some clientId => disconnectClient order clientId

def ListChannels : Task (List ChannelSummary) := do
  let all ← ListChannels.execute order
  return all.map populateChannelSummary

/-- The reply repeats the name as it was sent, trimmed. -/
def CreateChannel (clientId channelName : Bytes) : Task (Reply (ChannelId × Bytes)) := do
  match parseClient uuid clientId with
  | none => return .error (errorToStatus .clientNotFound)
  | some clientId =>
  match ← CreateChannel.execute clientId (trim channelName) with
  | .error e => return .error (errorToStatus e)
  | .ok channelId => return .ok (channelId, trim channelName)

/-- A field that is no channel id is taken for a channel name. -/
def JoinChannel (clientId channelId : Bytes) : Task (Reply Unit) := do
  match parseClient uuid clientId with
  | none => return .error (errorToStatus .clientNotFound)
  | some clientId =>
  match parseChannel uuid channelId with
  | some channelId => return toReply (← JoinChannel.execute order clientId channelId)
  | none =>
  match ← JoinChannel.executeByName order clientId (trim channelId) with
  | .error e => return .error (errorToStatus e)
  | .ok _ => return .ok ()

def LeaveChannel (clientId channelId : Bytes) : Task (Reply Unit) := do
  match parseClient uuid clientId, parseChannel uuid channelId with
  | none, _ => return .error (errorToStatus .clientNotFound)
  | some _, none => return .error (errorToStatus .channelNotFound)
  | some clientId, some channelId => return toReply (← LeaveChannel.execute clientId channelId)

def SendMessage (clientId channelId content : Bytes) : Task (Reply MessageId) := do
  match parseClient uuid clientId, parseChannel uuid channelId with
  | none, _ => return .error (errorToStatus .clientNotFound)
  | some _, none => return .error (errorToStatus .channelNotFound)
  | some clientId, some channelId =>
    return toReply (← SendMessage.execute order clientId channelId (trim content) .includeSender)

/-- `none` when there is a cursor and it is no message id. -/
def parseCursor (beforeMessageId : Bytes) : Option (Option MessageId) :=
  if trim beforeMessageId = [] then some none
  else (StrongId.parse uuid (trim beforeMessageId)).map some

def fillMessage (message : Message) : Task MessageEvent := do
  let senderName := match ← clients.lookupUsername message.senderId with
    | .ok username => username.value
    | .error _ => []
  return ⟨message.id, message.channelId, message.senderId, senderName, message.content.value,
    toEpochMs message.sentAt⟩

def fillMessages : List Message → Task (List MessageEvent)
  | [] => return []
  | message :: messages => do
    let event ← fillMessage message
    let events ← fillMessages messages
    return event :: events

def ListMessages (clientId channelId beforeMessageId : Bytes) (limit : UInt32) :
    Task (Reply (List MessageEvent × Bool)) := do
  match parseClient uuid clientId, parseChannel uuid channelId, parseCursor uuid beforeMessageId with
  | none, _, _ => return .error (errorToStatus .clientNotFound)
  | some _, none, _ => return .error (errorToStatus .channelNotFound)
  | some _, some _, none => return .error (errorToStatus .invalidArgument)
  | some clientId, some channelId, some cursor =>
  match ← ListMessages.execute clientId channelId cursor limit with
  | .error e => return .error (errorToStatus e)
  | .ok page =>
  let events ← fillMessages page.messages
  return .ok (events, page.hasMore)

def Heartbeat (clientId : Bytes) : Task (Reply Unit) := do
  match parseClient uuid clientId with
  | none => return .error (errorToStatus .clientNotFound)
  | some clientId => return toReply (← clients.touchHeartbeat clientId)

/-! ### Streams -/

/-- Register, then authorise; a stream that is refused is unregistered again. -/
def beginChannelStream (clientId : ClientId) (channelId : ChannelId) (writer : StreamId) :
    Task (Reply Unit) := do
  publisher.registerSubscriber clientId writer
  match ← SubscribeToChannel.execute clientId channelId with
  | .error e => do
    publisher.unregisterSubscriber clientId
    return .error (errorToStatus e)
  | .ok () => return .ok ()

def endChannelStream (clientId : ClientId) : Task Unit := publisher.unregisterSubscriber clientId

def subscribeToChannel (clientId : ClientId) (channelId : ChannelId) (writer : StreamId) :
    Task (Reply Unit) := do
  match ← beginChannelStream clientId channelId writer with
  | .error e => return .error e
  | .ok () =>
  awaitCancelled writer
  endChannelStream clientId
  return .ok ()

def SubscribeToChannel (clientId channelId : Bytes) (writer : StreamId) : Task (Reply Unit) := do
  match parseClient uuid clientId, parseChannel uuid channelId with
  | none, _ => return .error (errorToStatus .clientNotFound)
  | some _, none => return .error (errorToStatus .channelNotFound)
  | some clientId, some channelId => subscribeToChannel clientId channelId writer

def beginListStream (clientId : ClientId) (writer : StreamId) : Task (Reply Unit) :=
  return toReply (← SubscribeToChannelList.execute order clientId writer)

def endListStream (clientId : ClientId) : Task Unit := channelList.unregisterSubscriber clientId

def subscribeToChannelList (clientId : ClientId) (writer : StreamId) : Task (Reply Unit) := do
  match ← beginListStream order clientId writer with
  | .error e => return .error e
  | .ok () =>
  awaitCancelled writer
  endListStream clientId
  return .ok ()

def SubscribeToChannelList (clientId : Bytes) (writer : StreamId) : Task (Reply Unit) := do
  match parseClient uuid clientId with
  | none => return .error (errorToStatus .clientNotFound)
  | some clientId => subscribeToChannelList order clientId writer

end BroadcastService

/-! ### What they call -/

/-- The calls of the requests that move no client, create no channel and have nothing to do with streams. -/
def Quiet : Call → Prop
  | .channels (.findById _) | .channels (.listAll _) | .clients (.findById _) | .clients (.lookupUsername _)
  | .clients (.registerClient _) | .clients (.touchHeartbeat _) | .messages _ => True
  | _ => False

section
variable (uuid : UuidLib) (order : BucketOrder)
open BroadcastService

theorem calls_fillMessages {P : Call → Prop} (h : ∀ c, P (.clients (.lookupUsername c))) (ms : List Message) :
    (fillMessages ms).Calls P := by
  induction ms with
  | nil => trivial
  | cons m ms ih => exact .bind ⟨h _, fun _ => trivial⟩ fun _ => .bind ih fun _ => trivial

theorem quiet_connect (username : Bytes) : (Connect username).Calls Quiet := by
  unfold Connect
  rcases Username.create (trim username) with _ | name
  · trivial
  refine ⟨trivial, fun r => ?_⟩
  rcases r with e | cs <;> trivial

theorem calls_rpc_sendMessage {P : Call → Prop} (hc : ∀ c, P (.clients (.findById c)))
    (hk : ∀ k, P (.channels (.findById k))) (hn : ∀ c k content, P (.newMessage c k content))
    (hs : ∀ m, P (.messages (.save m))) (hp : ∀ c m, P (.publisher (.publish c m)))
    (clientId channelId content : Bytes) :
    (BroadcastService.SendMessage uuid order clientId channelId content).Calls P := by
  unfold BroadcastService.SendMessage
  rcases parseClient uuid clientId with _ | c
  · trivial
  rcases parseChannel uuid channelId with _ | k
  · trivial
  exact .bind (calls_sendMessage hc hk hn hs hp ..) fun _ => trivial

/-- The use case and the handler, whatever becomes of the client and the name. -/
theorem calls_rpc_createChannel {P : Call → Prop} (hc : ∀ c, P (.clients (.findById c)))
    (hn : ∀ name, P (.channels (.create name))) (hp : ∀ ch, P (.channelList (.publishChannelCreated ch)))
    (clientId channelName : Bytes) :
    (BroadcastService.CreateChannel uuid clientId channelName).Calls P := by
  unfold BroadcastService.CreateChannel
  rcases parseClient uuid clientId with _ | c
  · trivial
  refine .bind ?_ fun r => ?_
  · simp only [CreateChannel.execute, Prog.perform_bind]
    refine ⟨hc _, fun r => ?_⟩
    rcases r with e | cs
    · trivial
    rcases ChannelName.create (trim (trim channelName)) with _ | name
    · trivial
    refine ⟨hn _, fun r => ?_⟩
    rcases r with e | ch
    · trivial
    · exact ⟨hp _, fun _ => trivial⟩
  · rcases r with e | k <;> trivial

theorem calls_beginListStream {P : Call → Prop} (hc : ∀ c, P (.clients (.findById c)))
    (hr : ∀ o c w, P (.channelList (.registerSubscriberWithSnapshot o c w))) (c : ClientId) (w : StreamId) :
    (beginListStream order c w).Calls P := by
  refine .bind ⟨hc _, fun r => ?_⟩ fun _ => trivial
  rcases r with e | cs
  · trivial
  · exact ⟨hr .., fun _ => trivial⟩

/-- A history is one of the channel that the request names. -/
theorem calls_rpc_listMessages {P : Call → Prop} {channelId : Bytes} (hk : ∀ k, P (.channels (.findById k)))
    (hr : ∀ k n, parseChannel uuid channelId = some k → P (.messages (.recent k n)))
    (hl : ∀ k x n, parseChannel uuid channelId = some k → P (.messages (.listBefore k x n)))
    (hu : ∀ c, P (.clients (.lookupUsername c))) (clientId before : Bytes) (limit : UInt32) :
    (BroadcastService.ListMessages uuid clientId channelId before limit).Calls P := by
  unfold BroadcastService.ListMessages
  rcases parseClient uuid clientId with _ | c
  · trivial
  rcases hchannel : parseChannel uuid channelId with _ | k
  · trivial
  rcases parseCursor uuid before with _ | cursor
  · trivial
  refine .bind (calls_listMessages (hk k) (fun n => hr k n hchannel) (fun x n => hl k x n hchannel) ..)
    fun r => ?_
  rcases r with e | page
  · trivial
  · exact .bind (calls_fillMessages hu page.messages) fun _ => trivial

theorem quiet_listMessages (clientId channelId before : Bytes) (limit : UInt32) :
    (BroadcastService.ListMessages uuid clientId channelId before limit).Calls Quiet :=
  calls_rpc_listMessages uuid (fun _ => trivial) (fun _ _ _ => trivial) (fun _ _ _ _ => trivial)
    (fun _ => trivial)
    clientId before limit

theorem quiet_heartbeat (clientId : Bytes) : (Heartbeat uuid clientId).Calls Quiet := by
  unfold Heartbeat
  rcases parseClient uuid clientId with _ | c
  · trivial
  · exact ⟨trivial, fun _ => trivial⟩

end

end Bcmd
