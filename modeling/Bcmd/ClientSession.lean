import Bcmd.MessageView
import Bcmd.ServerGateway

/-!
# `client-cli/`: `ClientSession` of `main.cpp`

The commands of the terminal client as programs over the gateway's RPCs and the calls on the presenter. An RPC
is processed by the server and answered, or the transport fails and the server never sees it (`Fate`); others
may act between any two of them.
-/

namespace Bcmd.Cli

inductive SessionCall
  | rpc (request : Rpc)
  | showError (errorText : Bytes)
  | showInfo (infoText : Bytes)
  /-- A message of the client's own; its time is left out. -/
  | showMessage (channelId senderName content : Bytes)
  | showChannelList (names : List Bytes)
  /-- A thread that runs `runSubscription`. -/
  | startSubscription (channelId : Bytes)
deriving DecidableEq

abbrev SessionCall.Res : SessionCall → Type
  | rpc request => request.Res
  | _ => Unit

abbrev SessionTask (α : Type) := Prog SessionCall SessionCall.Res α

/-- A program of the gateway, as a part of a command. -/
def remote {α : Type} : Gateway α → SessionTask α
  | .ret a => .ret a
  | .call request k => .call (.rpc request) fun reply => remote (k reply)

structure ClientSession where
  clientId : Bytes
  /-- Empty for none. -/
  activeChannelId : Bytes
deriving DecidableEq

namespace ClientSession

def showError (errorText : Bytes) : SessionTask Unit := Prog.perform (SessionCall.showError errorText)

def showInfo (infoText : Bytes) : SessionTask Unit := Prog.perform (SessionCall.showInfo infoText)

/-- `bcmd::error_message` on the status line. -/
def showFailure (error : Error) : SessionTask Unit := showError (ascii (errorMessage error))

section
variable (write : Nat → Bytes) (session : ClientSession)

def listChannels : SessionTask Unit := do
  match ← remote (GrpcServerGateway.listChannels write) with
  | .error e => showFailure e
  | .ok channels => Prog.perform (SessionCall.showChannelList (channels.map ChannelInfo.name))

def resolveChannelIdByName (channelName : Bytes) : SessionTask (Result Bytes) := do
  let trimmed := trim channelName
  match ← remote (GrpcServerGateway.listChannels write) with
  | .error e => return .error e
  | .ok channels =>
  match channels.find? (·.name = trimmed) with
  | none => return .error .channelNotFound
  | some channel => return .ok channel.id

/-- The end of `joinChannel`, once the id is known. -/
def activate (trimmed resolvedChannelId : Bytes) : SessionTask ClientSession := do
  let previous := session.activeChannelId
  let session := { session with activeChannelId := resolvedChannelId }
  if previous = resolvedChannelId then
    listChannels write
    return session
  else
    Prog.perform (SessionCall.showMessage resolvedChannelId (ascii "[system]")
      (ascii "connected to channel " ++ trimmed))
    Prog.perform (SessionCall.startSubscription resolvedChannelId)
    listChannels write
    return session

def joinChannel (channelName : Bytes) : SessionTask ClientSession := do
  let trimmed := trim channelName
  if trimmed = [] then
    showError (ascii "usage: /join <channel>")
    return session
  else
  match ← remote (GrpcServerGateway.joinChannelByName write session.clientId trimmed) with
  | .ok channelId =>
    showInfo (ascii "joined channel: " ++ trimmed)
    session.activate write trimmed channelId
  | .error e =>
  if e = .alreadyMember then
    match ← resolveChannelIdByName write trimmed with
    | .error e => do
      showFailure e
      return session
    | .ok channelId =>
      showInfo (ascii "already in channel: " ++ trimmed)
      session.activate write trimmed channelId
  else
    showFailure e
    return session

def leaveChannel : SessionTask ClientSession := do
  let channelId := session.activeChannelId
  let session := { session with activeChannelId := [] }
  if channelId = [] then
    showError (ascii "no active channel")
    return session
  else
  match ← remote (GrpcServerGateway.leaveChannel session.clientId channelId) with
  | .error e => do
    showFailure e
    return session
  | .ok () => return session

end

end ClientSession

/-! ### The network -/

/-- What becomes of an RPC. Before the server processes it, others may change the server. -/
inductive Fate
  | lost
  | processed (order : BucketOrder) (meanwhile : Server → Server)

/-- The server, and what becomes of the RPCs to come; when nothing is said any more they are lost. -/
structure Link where
  server : Server
  fates : List Fate

/-- The status of a reply as the client gets it. -/
def received {α : Type} : Reply α → Except RpcStatus α
  | .ok a => .ok a
  | .error status => .error (.answered status)

def Link.rpc (uuid : UuidLib) (request : Rpc) (link : Link) : request.Res × Link :=
  match link.fates with
  | [] => (.error .unavailable, link)
  | .lost :: fates => (.error .unavailable, { link with fates := fates })
  | .processed order meanwhile :: fates =>
    let result := ports.exec (request.serve uuid order) (meanwhile link.server)
    (received result.1, ⟨result.2, fates⟩)

/-- Commands over the network; the calls on the presenter do not touch it. -/
def network (uuid : UuidLib) : Machine Link SessionCall SessionCall.Res where
  handle
    | .rpc request, link => link.rpc uuid request
    | .showError _, link | .showInfo _, link | .showMessage .., link | .showChannelList _, link
    | .startSubscription _, link => ((), link)

inductive SessionCommand
  | joinChannel (channelName : Bytes)
  | leaveChannel

def SessionCommand.task (write : Nat → Bytes) (session : ClientSession) :
    SessionCommand → SessionTask ClientSession
  | joinChannel channelName => session.joinChannel write channelName
  | leaveChannel => session.leaveChannel

/-- A command with the fates of its RPCs, and the session and the server after it. -/
def SessionCommand.run (uuid : UuidLib) (write : Nat → Bytes) (command : SessionCommand) (fates : List Fate)
    (session : ClientSession) (s : Server) : ClientSession × Server :=
  let result := (network uuid).exec (command.task write session) ⟨s, fates⟩
  (result.1, result.2.server)

end Bcmd.Cli
