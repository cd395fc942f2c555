import Bcmd.Port

/-!
# `application/usecase/`

The use cases, as the programs over the ports that their `execute` functions are. Log lines are left
out. `order` says how the hash sets a use case walks are walked.
-/

namespace Bcmd

/-- Take the named errors for success, as the callers that ignore them do. -/
def tolerate (errors : List Error) : VoidResult → VoidResult
  | .error e => if e ∈ errors then .ok () else .error e
  | .ok () => .ok ()

@[simp] theorem tolerate_ok (errors : List Error) (u : Unit) : tolerate errors (.ok u) = .ok () := rfl

/-! ### `internal/remove_member_broadcast.cpp` -/

def removeMemberAndBroadcast (session : ClientSession) (channelId : ChannelId) : Task VoidResult := do
  match ← channels.findById channelId with
  | .error e => return .error e
  | .ok channel =>
  match channel.removeMember session.id with
  | .error e => return .error e
  | .ok channel =>
  match ← channels.save channel with
  | .error e => return .error e
  | .ok () =>
  publisher.broadcastMemberLeft channelId channel.members session.id session.username
  return .ok ()

/-! ### `join_channel.cpp` -/

namespace JoinChannel

def publishCountIfStored (channelId : ChannelId) : Task Unit := do
  match ← channels.findById channelId with
  | .ok channel => channelList.publishMemberCountChanged channelId (toInt32 channel.memberCount)
  | .error _ => return ()

/-- The second loop of `leaveOtherChannels`. -/
def leaveEach (session : ClientSession) : List ChannelId → Task VoidResult
  | [] => return .ok ()
  | otherChannelId :: others => do
    match tolerate [.notAMember, .channelNotFound] (← removeMemberAndBroadcast session otherChannelId) with
    | .error e => return .error e
    | .ok () =>
    match tolerate [.clientNotFound] (← clients.leaveChannelAtomic session.id otherChannelId) with
    | .error e => return .error e
    | .ok () =>
    publishCountIfStored otherChannelId
    leaveEach session others

def leaveOtherChannels (order : BucketOrder) (session : ClientSession) (targetChannelId : ChannelId) :
    Task VoidResult :=
  leaveEach session ((order.channels.enum session.joinedChannels).filter (· ≠ targetChannelId))

/-- `addMember` on the copy, then `save`. -/
def addAndSave (channel : Channel) (clientId : ClientId) : Task (Result Channel) := do
  match channel.addMember clientId with
  | .error e => return .error e
  | .ok channel =>
  match ← channels.save channel with
  | .error e => return .error e
  | .ok () => return .ok channel

/-- What the two ways to join have in common: all that follows once the channel is found. -/
def joinFound (order : BucketOrder) (clientId : ClientId) (session : ClientSession) (channelId : ChannelId)
    (channel : Channel) : Task VoidResult := do
  match ← leaveOtherChannels order session channelId with
  | .error e => return .error e
  | .ok () =>
  let wasAlreadyMember := channel.hasMember clientId
  match ← (if wasAlreadyMember then pure (.ok channel) else addAndSave channel clientId) with
  | .error e => return .error e
  | .ok channel =>
  match ← clients.joinChannelAtomic clientId channelId with
  | .error e => return .error e
  | .ok () =>
  if wasAlreadyMember then return .ok ()
  else
    publisher.broadcastMemberJoined channel.id channel.members clientId session.username
    channelList.publishMemberCountChanged channel.id (toInt32 channel.memberCount)
    return .ok ()

def execute (order : BucketOrder) (clientId : ClientId) (channelId : ChannelId) : Task VoidResult := do
  match ← clients.findById clientId with
  | .error e => return .error e
  | .ok session =>
  match ← channels.findById channelId with
  | .error e => return .error e
  | .ok channel => joinFound order clientId session channelId channel

def executeByName (order : BucketOrder) (clientId : ClientId) (channelName : Bytes) :
    Task (Result ChannelId) := do
  match ← clients.findById clientId with
  | .error e => return .error e
  | .ok session =>
  match ChannelName.create (trim channelName) with
  | none => return .error .invalidChannelName
  | some validatedName =>
  match ← channels.findByName validatedName with
  | .error e => return .error e
  | .ok channel =>
  match ← joinFound order clientId session channel.id channel with
  | .error e => return .error e
  | .ok () => return .ok channel.id

end JoinChannel

/-! ### `leave_channel.cpp` -/

def LeaveChannel.execute (clientId : ClientId) (channelId : ChannelId) : Task VoidResult := do
  match ← clients.findById clientId with
  | .error e => return .error e
  | .ok session =>
  match ← removeMemberAndBroadcast session channelId with
  | .error e => return .error e
  | .ok () =>
  match tolerate [.clientNotFound] (← clients.leaveChannelAtomic clientId channelId) with
  | .error e => return .error e
  | .ok () =>
  match ← channels.findById channelId with
  | .error e => return .error e
  | .ok channel =>
  channelList.publishMemberCountChanged channelId (toInt32 channel.memberCount)
  return .ok ()

/-! ### `create_channel.cpp` -/

def CreateChannel.execute (clientId : ClientId) (channelName : Bytes) : Task (Result ChannelId) := do
  match ← clients.findById clientId with
  | .error e => return .error e
  | .ok _ =>
  match ChannelName.create (trim channelName) with
  | none => return .error .invalidChannelName
  | some validatedName =>
  match ← channels.create validatedName with
  | .error e => return .error e
  | .ok created =>
  channelList.publishChannelCreated created
  return .ok created.id

/-! ### `send_message.cpp` -/

namespace SendMessage

def publishEach (message : Message) : List ClientId → Task Unit
  | [] => return ()
  | recipient :: recipients => do
    publisher.publish recipient message
    publishEach message recipients

def execute (order : BucketOrder) (senderId : ClientId) (channelId : ChannelId) (content : Bytes)
    (echoPolicy : EchoPolicy) : Task (Result MessageId) := do
  match ← clients.findById senderId with
  | .error e => return .error e
  | .ok _ =>
  match ← channels.findById channelId with
  | .error e => return .error e
  | .ok channel =>
  if ¬ channel.hasMember senderId then return .error .notAMember
  else
  match MessageContent.create content with
  | .error e => return .error e
  | .ok validatedContent =>
  let message ← newMessage senderId channelId validatedContent
  match ← messages.save message with
  | .error e => return .error e
  | .ok () =>
  publishEach message (recipientsFor order.clients channel message echoPolicy)
  return .ok message.id

end SendMessage

/-! ### `list_messages.cpp` -/

namespace ListMessages

def kServerMaxLimit : UInt32 := 200

structure Page where
  messages : List Message
  hasMore : Bool
deriving DecidableEq

def hasMore (channelId : ChannelId) : List Message → Task Bool
  | [] => return false
  | front :: _ => do
    let older ← messages.listBefore channelId front.id 1
    return ¬ older.isEmpty

def execute (clientId : ClientId) (channelId : ChannelId) (beforeMessageId : Option MessageId)
    (limit : UInt32) : Task (Result Page) := do
  match ← channels.findById channelId with
  | .error e => return .error e
  | .ok channel =>
  if ¬ channel.hasMember clientId then return .error .notAMember
  else
  let capped := min limit kServerMaxLimit
  let page ←
    match beforeMessageId with
    | some before => messages.listBefore channelId before capped
    | none => messages.recent channelId capped
  let more ← hasMore channelId page
  return .ok ⟨page, more⟩

end ListMessages

/-! ### `list_channels.cpp`, `subscribe_to_channel.cpp`, `subscribe_to_channel_list.cpp` -/

def ListChannels.execute (order : BucketOrder) : Task (List Channel) := channels.listAll order.channels

def SubscribeToChannel.execute (clientId : ClientId) (channelId : ChannelId) : Task VoidResult := do
  match ← channels.findById channelId with
  | .error e => return .error e
  | .ok channel => if ¬ channel.hasMember clientId then return .error .notAMember else return .ok ()

def SubscribeToChannelList.execute (order : BucketOrder) (subscriberId : ClientId) (writer : StreamId) :
    Task VoidResult := do
  match ← clients.findById subscriberId with
  | .error e => return .error e
  | .ok _ =>
  channelList.registerSubscriberWithSnapshot order.channels subscriberId writer
  return .ok ()

/-! ### `expire_inactive_clients.cpp` -/

namespace ExpireInactiveClients

/-- Every error of a removal is only logged. -/
def removeFromEach (session : ClientSession) : List ChannelId → Task Unit
  | [] => return ()
  | channelId :: channelIds => do
    let _ ← removeMemberAndBroadcast session channelId
    removeFromEach session channelIds

def expireEach (order : BucketOrder) (count : Nat) : List ClientSession → Task Nat
  | [] => return count
  | session :: expired => do
    removeFromEach session (order.channels.enum session.joinedChannels)
    let _ ← clients.remove session.id
    publisher.unregisterSubscriber session.id
    expireEach order (count + 1) expired

def run (order : BucketOrder) (deadline : Int) : Task Nat := do
  let expired ← clients.collectExpired order.clients deadline
  expireEach order 0 expired

end ExpireInactiveClients

/-! ### What they call -/

section
variable {P : Call → Prop}

theorem calls_removeMemberAndBroadcast (hf : ∀ k, P (.channels (.findById k)))
    (hs : ∀ ch, P (.channels (.save ch)))
    (hp : ∀ k rs c u, P (.publisher (.broadcastMemberLeft k rs c u))) (cs : ClientSession) (k : ChannelId) :
    (removeMemberAndBroadcast cs k).Calls P := by
  simp only [removeMemberAndBroadcast, Prog.perform_bind]
  refine ⟨hf _, fun r => ?_⟩
  rcases r with e | ch
  · trivial
  rcases hr : ch.removeMember cs.id with e | ch'
  · simp only [hr]; trivial
  simp only [hr]
  refine ⟨hs _, fun r => ?_⟩
  rcases r with e | _
  · trivial
  · exact ⟨hp .., fun _ => trivial⟩

theorem calls_removeFromEach (hf : ∀ k, P (.channels (.findById k))) (hs : ∀ ch, P (.channels (.save ch)))
    (hp : ∀ k rs c u, P (.publisher (.broadcastMemberLeft k rs c u))) (cs : ClientSession)
    (ks : List ChannelId) :
    (ExpireInactiveClients.removeFromEach cs ks).Calls P := by
  induction ks with
  | nil => trivial
  | cons k ks ih => exact .bind (calls_removeMemberAndBroadcast hf hs hp cs k) fun _ => ih

theorem calls_sendMessage (hc : ∀ c, P (.clients (.findById c))) (hk : ∀ k, P (.channels (.findById k)))
    (hn : ∀ c k content, P (.newMessage c k content)) (hs : ∀ m, P (.messages (.save m)))
    (hp : ∀ c m, P (.publisher (.publish c m))) (order : BucketOrder) (c : ClientId) (k : ChannelId)
    (content : Bytes)
    (echoPolicy : EchoPolicy) : (SendMessage.execute order c k content echoPolicy).Calls P := by
  have hpublish : ∀ m cs, (SendMessage.publishEach m cs).Calls P := by
    intro m cs
    induction cs with
    | nil => trivial
    | cons c cs ih => exact ⟨hp c m, fun _ => ih⟩
  simp only [SendMessage.execute, Prog.perform_bind]
  refine ⟨hc _, fun r => ?_⟩
  rcases r with e | cs
  · trivial
  refine ⟨hk _, fun r => ?_⟩
  rcases r with e | ch
  · trivial
  dsimp only
  split
  · trivial
  rcases MessageContent.create content with e | validated
  · trivial
  refine ⟨hn .., fun m => ⟨hs _, fun r => ?_⟩⟩
  rcases r with e | _
  · trivial
  · exact .bind (hpublish m _) fun _ => trivial

/-- A history reads the one channel. -/
theorem calls_listMessages {k : ChannelId} (hk : P (.channels (.findById k)))
    (hr : ∀ n, P (.messages (.recent k n)))
    (hl : ∀ x n, P (.messages (.listBefore k x n))) (c : ClientId) (before : Option MessageId)
    (limit : UInt32) :
    (ListMessages.execute c k before limit).Calls P := by
  simp only [ListMessages.execute, Prog.perform_bind]
  refine ⟨hk, fun r => ?_⟩
  rcases r with e | ch
  · trivial
  dsimp only
  split
  · trivial
  have hmore : ∀ page, (ListMessages.hasMore k page).Calls P := by
    intro page
    rcases page with _ | ⟨m, page⟩
    · trivial
    · exact ⟨hl .., fun _ => trivial⟩
  rcases before with _ | x
  · exact ⟨hr .., fun page => .bind (hmore page) fun _ => trivial⟩
  · exact ⟨hl .., fun page => .bind (hmore page) fun _ => trivial⟩

end

end Bcmd
