import Bcmd.Service

/-!
# `client-cli/`: `grpc_server_gateway.cpp`

The gateway as a program over the RPCs of its stub. The ids in the server's responses are the texts that the
uuid library writes for them (`write`).
-/

namespace Bcmd.Cli

/-! ### `status_to_error.cpp` -/

/-- The status of an RPC that did not succeed: the server's, or the transport's. -/
inductive RpcStatus
  | answered (status : Status)
  | unavailable
deriving DecidableEq

def statusToError : RpcStatus → Error
  | .unavailable => .networkError
  | .answered status =>
    match status.code with
    | .notFound =>
      if status.message.startsWith "client not found" then .clientNotFound
      else if status.message.startsWith "not a member" then .notAMember
      else .channelNotFound
    | .alreadyExists =>
      if status.message.startsWith "channel already exists" then .channelAlreadyExists
      else if status.message.startsWith "client already exists" then .clientAlreadyExists
      else .alreadyMember
    | .invalidArgument =>
      if status.message.startsWith "invalid username" then .invalidUsername
      else if status.message.startsWith "message too long" then .messageTooLong
      else if status.message.startsWith "message is empty" then .messageEmpty
      else if status.message.startsWith "message must not start with '/'" then .messageInvalidPrefix
      else .invalidChannelName
    | .internal => .networkError

/-! ### The stub -/

inductive Rpc
  | listChannels
  | joinChannel (clientId channelId : Bytes)
  | leaveChannel (clientId channelId : Bytes)
  | sendMessage (clientId channelId content : Bytes)
deriving DecidableEq

abbrev Rpc.Response : Rpc → Type
  | listChannels => List ChannelSummary
  | joinChannel .. | leaveChannel .. => Unit
  | sendMessage .. => MessageId

abbrev Rpc.Res (rpc : Rpc) : Type := Except RpcStatus rpc.Response

/-- What the server does with the request. -/
def Rpc.serve (uuid : UuidLib) (order : BucketOrder) : (rpc : Rpc) → Task (Reply rpc.Response)
  | listChannels => do return .ok (← BroadcastService.ListChannels order)
  | joinChannel clientId channelId => BroadcastService.JoinChannel uuid order clientId channelId
  | leaveChannel clientId channelId => BroadcastService.LeaveChannel uuid clientId channelId
  | sendMessage clientId channelId content =>
    BroadcastService.SendMessage uuid order clientId channelId content

/-- Programs over the stub. -/
abbrev Gateway (α : Type) := Prog Rpc Rpc.Res α

namespace Stub

def ListChannels : Gateway (Except RpcStatus (List ChannelSummary)) := Prog.perform Rpc.listChannels

def JoinChannel (clientId channelId : Bytes) : Gateway (Except RpcStatus Unit) :=
  Prog.perform (Rpc.joinChannel clientId channelId)

def LeaveChannel (clientId channelId : Bytes) : Gateway (Except RpcStatus Unit) :=
  Prog.perform (Rpc.leaveChannel clientId channelId)

def SendMessage (clientId channelId content : Bytes) : Gateway (Except RpcStatus MessageId) :=
  Prog.perform (Rpc.sendMessage clientId channelId content)

end Stub

/-! ### The gateway -/

structure ChannelInfo where
  id : Bytes
  name : Bytes
  memberCount : Int32
deriving DecidableEq

/-- The value, or the error of the status. -/
def fromReply {α : Type} : Except RpcStatus α → Result α
  | .ok a => .ok a
  | .error status => .error (statusToError status)

namespace GrpcServerGateway
variable (write : Nat → Bytes)

def toChannelInfo (channel : ChannelSummary) : ChannelInfo :=
  ⟨write channel.id.value, channel.name, channel.memberCount⟩

def listChannels : Gateway (Result (List ChannelInfo)) := do
  match ← Stub.ListChannels with
  | .error status => return .error (statusToError status)
  | .ok channels => return .ok (channels.map (toChannelInfo write))

def joinChannel (clientId channelId : Bytes) : Gateway VoidResult := do
  return fromReply (← Stub.JoinChannel (trim clientId) (trim channelId))

def joinChannelByName (clientId channelName : Bytes) : Gateway (Result Bytes) := do
  let trimmedName := trim channelName
  match ← listChannels write with
  | .error e => return .error e
  | .ok channels =>
  match channels.find? (·.name = trimmedName) with
  | none => return .error .channelNotFound
  | some channel =>
  match ← joinChannel clientId channel.id with
  | .error e => return .error e
  | .ok () => return .ok channel.id

def leaveChannel (clientId channelId : Bytes) : Gateway VoidResult := do
  return fromReply (← Stub.LeaveChannel (trim clientId) (trim channelId))

def sendMessage (clientId channelId content : Bytes) : Gateway (Result Bytes) := do
  match ← Stub.SendMessage (trim clientId) (trim channelId) (trim content) with
  | .error status => return .error (statusToError status)
  | .ok messageId => return .ok (write messageId.value)

end GrpcServerGateway

end Bcmd.Cli
