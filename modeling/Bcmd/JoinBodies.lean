import Bcmd.JoinByName
import Bcmd.Published

/-!
# The join is written out twice

`execute` and `executeByName` share no code past `leaveOtherChannels`: each has its own copy of the body that
`joinFound` stands for. Here are the two as they are written, and what they have in common: by id or by
name, it is the same operation.
-/

namespace Bcmd
open Server

namespace JoinChannel

def executeWritten (order : BucketOrder) (clientId : ClientId) (channelId : ChannelId) :
    Task VoidResult := do
  match ← clients.findById clientId with
  | .error e => return .error e
  | .ok session =>
  match ← channels.findById channelId with
  | .error e => return .error e
  | .ok channel =>
  match ← leaveOtherChannels order session channelId with
  | .error e => return .error e
  | .ok () =>
  let wasAlreadyMember := channel.hasMember clientId
  match ← (if wasAlreadyMember then pure (.ok channel) else addAndSave channel clientId) with
  | .error e => return .error e
  | .ok channel =>
  match ← clients.joinChannelAtomic clientId channelId with
  | .error e => return .error e
  | .ok () =>
  if wasAlreadyMember then return .ok ()
  else
    publisher.broadcastMemberJoined channel.id channel.members clientId session.username
    channelList.publishMemberCountChanged channel.id (toInt32 channel.memberCount)
    return .ok ()

def executeByNameWritten (order : BucketOrder) (clientId : ClientId) (channelName : Bytes) :
    Task (Result ChannelId) := do
  match ← clients.findById clientId with
  | .error e => return .error e
  | .ok session =>
  match ChannelName.create (trim channelName) with
  | none => return .error .invalidChannelName
  | some validatedName =>
  match ← channels.findByName validatedName with
  | .error e => return .error e
  | .ok existing =>
  match ← leaveOtherChannels order session existing.id with
  | .error e => return .error e
  | .ok () =>
  let wasAlreadyMember := existing.hasMember clientId
  match ← (if wasAlreadyMember then pure (.ok existing) else addAndSave existing clientId) with
  | .error e => return .error e
  | .ok channel =>
  match ← clients.joinChannelAtomic clientId channel.id with
  | .error e => return .error e
  | .ok () =>
  if wasAlreadyMember then return .ok channel.id
  else
    publisher.broadcastMemberJoined channel.id channel.members clientId session.username
    channelList.publishMemberCountChanged channel.id (toInt32 channel.memberCount)
    return .ok channel.id

section
variable (order : BucketOrder) (clientId : ClientId)

theorem executeWritten_eq (channelId : ChannelId) :
    executeWritten order clientId channelId = execute order clientId channelId := rfl

/-- Adding the member and saving the channel leaves its id as it is, so the second body can read it off
the channel that it has found. -/
theorem executeByNameWritten_eq (channelName : Bytes) :
    executeByNameWritten order clientId channelName = executeByName order clientId channelName := by
  unfold executeByNameWritten executeByName
  simp only [Prog.perform_bind]
  congr 1
  funext r
  rcases r with e | session
  · rfl
  rcases ChannelName.create (trim channelName) with _ | validatedName
  · rfl
  dsimp only
  congr 1
  funext r
  rcases r with e | existing
  · rfl
  simp only [joinFound, Prog.bind_assoc]
  congr 1
  funext r
  rcases r with e | _
  · rfl
  dsimp only
  rcases existing.hasMember clientId with _ | _
  · simp only [Bool.false_eq_true, if_false, addAndSave]
    rcases hadd : existing.addMember clientId with e | channel
    · rfl
    obtain ⟨-, rfl⟩ := Channel.addMember_ok.1 hadd
    simp only [Prog.perform_bind, Prog.call_bind]
    congr 1
    funext r
    rcases r with e | _
    · rfl
    simp only [Prog.pure_eq, Prog.ret_bind, Prog.call_bind]
    congr 1
    funext r
    rcases r with e | _ <;> rfl
  · simp only [if_true, Prog.pure_eq, Prog.ret_bind, Prog.perform_bind, Prog.call_bind]
    congr 1
    funext r
    rcases r with e | _ <;> rfl

end

/-- By name, the lookup answers with the channel that the id has. -/
theorem exec_byName (order : BucketOrder) (c : ClientId) {k : ChannelId} {ch : Channel} {name : Bytes}
    {s : Server} (hs : s.Indexed) (hch : s.channel k = some ch) (hname : trim name = ch.name.value) :
    ports.exec (executeByName order c name) s =
        ((ports.exec (execute order c k) s).1.map fun _ => k, (ports.exec (execute order c k) s).2) ∧
      published (executeByName order c name) s = published (execute order c k) s := by
  have hfind : s.channels.findByName ch.name = .ok ch :=
    findByName_of_some (hs.idOf (nameOf_of_channel hch)) hch
  have hhandle : handle (.channels (.findByName ch.name)) s = (.ok ch, s) := by
    rw [← hfind]
    rfl
  constructor
  · simp only [execute, executeByName, Prog.perform_bind, Prog.pure_eq, exec_findSession, exec_findChannel, hch,
      hname, ChannelName.create_value]
    rcases s.session c with _ | cs
    · rfl
    dsimp only
    rw [Machine.exec_call, show ports.handle (.channels (.findByName ch.name)) s = _ from hhandle]
    simp only [Machine.exec_bind, id_of_channel hch]
    rcases (ports.exec (joinFound order c cs k ch) s).1 with e | _ <;> rfl
  · simp only [execute, executeByName, Prog.perform_bind, Prog.pure_eq, published_findSession,
      published_findChannel, hch, hname, ChannelName.create_value]
    rcases s.session c with _ | cs
    · rfl
    dsimp only
    rw [published_other (o := .channels (.findByName ch.name)) _ _ rfl, hhandle]
    simp only [published_bind, id_of_channel hch]
    rcases (ports.exec (joinFound order c cs k ch) s).1 with e | _ <;> simp

end JoinChannel

/-- In every state that operations lead to, for every client and every text that names a stored channel, the
two bodies come to the same state by the same events, and to the same error or to success, with the id of
the channel from the second. -/
theorem join_by_name {uuid : UuidLib} {historyCap : UInt32} {systemNow steadyNow : Int} {host : Host}
    (h : Host.Reached uuid (.initial historyCap systemNow steadyNow) host) (order : BucketOrder) (c : ClientId)
    {k : ChannelId} {ch : Channel} {name : Bytes} (hch : host.server.channel k = some ch)
    (hname : trim name = ch.name.value) :
    (ports.exec (JoinChannel.executeByNameWritten order c name) host.server).2 =
        (ports.exec (JoinChannel.executeWritten order c k) host.server).2 ∧
      published (JoinChannel.executeByNameWritten order c name) host.server =
        published (JoinChannel.executeWritten order c k) host.server ∧
      (ports.exec (JoinChannel.executeByNameWritten order c name) host.server).1 =
        (ports.exec (JoinChannel.executeWritten order c k) host.server).1.map fun _ => k := by
  obtain ⟨hexec, hevents⟩ := JoinChannel.exec_byName order c (indexed_reached h) hch hname
  rw [JoinChannel.executeByNameWritten_eq, JoinChannel.executeWritten_eq, hexec]
  exact ⟨rfl, hevents, rfl⟩

theorem join_by_name_general :
    (ports.exec (JoinChannel.executeByNameWritten .byId ⟨2⟩ (ascii " general\t")) oneConnected.server).1 =
      (ports.exec (JoinChannel.executeWritten .byId ⟨2⟩ ⟨1⟩) oneConnected.server).1.map fun _ => ⟨1⟩ := by
  have hname : (oneConnected.server.nameOf ⟨1⟩).map ChannelName.value = some (ascii "general") := by
    decide +kernel
  obtain ⟨name, hk, hvalue⟩ := Option.map_eq_some_iff.1 hname
  obtain ⟨ch, hch, rfl⟩ := channel_of_nameOf hk
  exact (join_by_name oneConnected_reached .byId ⟨2⟩ hch (by rw [hvalue]; decide)).2.2

end Bcmd
