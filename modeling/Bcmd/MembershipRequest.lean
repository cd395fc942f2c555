import Bcmd.Members

/-!
# Join and Leave requests

The requests by which a client changes its memberships, and the scripts of them a client runs.
-/

namespace Bcmd
open Server

inductive MembershipRequest
  | join (channelId : ChannelId)
  | joinByName (channelName : Bytes)
  | leave (channelId : ChannelId)

inductive Outcome
  | joined (channelId : ChannelId)
  | left (channelId : ChannelId)
  | refused
deriving DecidableEq

namespace MembershipRequest

def run (order : BucketOrder) (c : ClientId) : MembershipRequest → Task Outcome
  | join k => do
    match ← JoinChannel.execute order c k with
    | .ok () => return .joined k
    | .error _ => return .refused
  | joinByName name => do
    match ← JoinChannel.executeByName order c name with
    | .ok k => return .joined k
    | .error _ => return .refused
  | leave k => do
    match ← LeaveChannel.execute c k with
    | .ok () => return .left k
    | .error _ => return .refused

/-- A client's requests, one after the other. -/
def runAll (order : BucketOrder) (c : ClientId) : List MembershipRequest → Task (List Outcome)
  | [] => return []
  | r :: rs => do
    let o ← r.run order c
    let os ← runAll order c rs
    return o :: os

end MembershipRequest

/-- A call that neither opens nor ends a session. -/
def Plain : Call → Prop
  | .clients (.registerClient _) | .clients (.remove _) => False
  | _ => True

theorem session_eq_none_iff {o : Call} (ho : Plain o) (s : Server) (c : ClientId) :
    (handle o s).2.session c = none ↔ s.session c = none := by
  by_cases ht : touches c o
  · rcases o with _ | (_ | _ | _ | _ | d | ⟨d, k⟩ | ⟨d, k⟩ | _) | _ | _ | _ | _ | _
    case clients.touchHeartbeat => cases ht; rw
      [session_touchHeartbeat, if_pos rfl]; exact Option.map_eq_none_iff
    case clients.joinChannelAtomic =>
      cases ht; rw [session_joinChannelAtomic, if_pos rfl]; exact Option.map_eq_none_iff
    case clients.leaveChannelAtomic =>
      cases ht; rw [session_leaveChannelAtomic, if_pos rfl]; exact Option.map_eq_none_iff
    all_goals first | exact ho.elim | exact ht.elim
  · rw [session_handle o ht]

/-! ### What requests call -/

/-- The calls of Join and Leave requests. -/
def Requesting : Call → Prop
  | .channels (.findById _) | .channels (.findByName _) | .channels (.save _) | .clients (.findById _)
  | .clients (.joinChannelAtomic _ _) | .clients (.leaveChannelAtomic _ _)
  | .publisher (.broadcastMemberJoined _ _ _ _) | .publisher (.broadcastMemberLeft _ _ _ _)
  | .channelList (.publishMemberCountChanged _ _) => True
  | _ => False

/-- The calls of one that has read its session. -/
def Working : Call → Prop
  | .clients (.findById _) => False
  | o => Requesting o

theorem Working.requesting {o : Call} (h : Working o) : Requesting o := by
  rcases o with (_ | _ | _ | _ | _) | (_ | _ | _ | _ | _ | _ | _ | _) | _ | _ | _ | _ | _
  all_goals first | exact h | exact h.elim

theorem Requesting.plain {o : Call} (h : Requesting o) : Plain o := by
  rcases o with _ | (_ | _ | _ | _ | _ | _ | _ | _) | _ | _ | _ | _ | _
  all_goals trivial

section
variable (order : BucketOrder) (c : ClientId)

theorem working_removeMemberAndBroadcast (cs : ClientSession) (k : ChannelId) :
    (removeMemberAndBroadcast cs k).Calls Working :=
  calls_removeMemberAndBroadcast (fun _ => trivial) (fun _ => trivial) (fun _ _ _ _ => trivial) cs k

namespace JoinChannel

theorem working_publishCountIfStored (k : ChannelId) : (publishCountIfStored k).Calls Working := by
  refine ⟨trivial, fun r => ?_⟩
  rcases r with e | ch
  · trivial
  · exact ⟨trivial, fun _ => trivial⟩

theorem working_leaveEach (cs : ClientSession) (ks : List ChannelId) : (leaveEach cs ks).Calls Working := by
  induction ks with
  | nil => trivial
  | cons k ks ih =>
    simp only [leaveEach, Prog.perform_bind]
    refine .bind (working_removeMemberAndBroadcast cs k) fun r => ?_
    rcases tolerate [.notAMember, .channelNotFound] r with e | _
    · trivial
    refine ⟨trivial, fun r => ?_⟩
    dsimp only
    rcases tolerate [.clientNotFound] r with e | _
    · trivial
    · exact .bind (working_publishCountIfStored k) fun _ => ih

theorem working_addAndSave (ch : Channel) : (addAndSave ch c).Calls Working := by
  unfold addAndSave
  rcases ch.addMember c with e | ch'
  · trivial
  refine ⟨trivial, fun r => ?_⟩
  rcases r with e | _ <;> trivial

theorem working_joinFound (cs : ClientSession) (k : ChannelId) (ch : Channel) :
    (joinFound order c cs k ch).Calls Working := by
  refine .bind (working_leaveEach cs _) fun r => ?_
  rcases r with e | _
  · trivial
  refine .bind ?_ fun r => ?_
  · split
    · trivial
    · exact working_addAndSave c ch
  · rcases r with e | ch'
    · trivial
    refine ⟨trivial, fun r => ?_⟩
    rcases r with e | _
    · trivial
    · simp only [Prog.bind]
      split
      · trivial
      · exact ⟨trivial, fun _ => ⟨trivial, fun _ => trivial⟩⟩

theorem requesting_execute (k : ChannelId) : (execute order c k).Calls Requesting := by
  refine ⟨trivial, fun r => ?_⟩
  rcases r with e | cs
  · trivial
  refine ⟨trivial, fun r => ?_⟩
  rcases r with e | ch
  · trivial
  · exact (working_joinFound order c cs k ch).mono fun _ => Working.requesting

theorem requesting_executeByName (name : Bytes) : (executeByName order c name).Calls Requesting := by
  simp only [executeByName, Prog.perform_bind]
  refine ⟨trivial, fun r => ?_⟩
  rcases r with e | cs
  · trivial
  rcases ChannelName.create (trim name) with _ | validatedName
  · trivial
  refine ⟨trivial, fun r => ?_⟩
  rcases r with e | ch
  · trivial
  refine .bind ((working_joinFound order c cs ch.id ch).mono fun _ => Working.requesting) fun r => ?_
  rcases r with e | _ <;> trivial

end JoinChannel

theorem requesting_leaveChannel (k : ChannelId) : (LeaveChannel.execute c k).Calls Requesting := by
  simp only [LeaveChannel.execute, Prog.perform_bind]
  refine ⟨trivial, fun r => ?_⟩
  rcases r with e | cs
  · trivial
  refine .bind ((working_removeMemberAndBroadcast cs k).mono fun _ => Working.requesting) fun r => ?_
  rcases r with e | _
  · trivial
  refine ⟨trivial, fun r => ?_⟩
  dsimp only
  rcases tolerate [.clientNotFound] r with e | _
  · trivial
  refine ⟨trivial, fun r => ?_⟩
  rcases r with e | ch
  · trivial
  · exact ⟨trivial, fun _ => trivial⟩

theorem requesting_joinRequest (uuid : UuidLib) (clientId channelId : Bytes) :
    (BroadcastService.JoinChannel uuid order clientId channelId).Calls Requesting := by
  unfold BroadcastService.JoinChannel
  rcases BroadcastService.parseClient uuid clientId with _ | c
  · trivial
  rcases BroadcastService.parseChannel uuid channelId with _ | k
  · refine .bind (JoinChannel.requesting_executeByName order c _) fun r => ?_
    rcases r with e | _ <;> trivial
  · exact .bind (JoinChannel.requesting_execute order c k) fun _ => trivial

theorem requesting_leaveRequest (uuid : UuidLib) (clientId channelId : Bytes) :
    (BroadcastService.LeaveChannel uuid clientId channelId).Calls Requesting := by
  unfold BroadcastService.LeaveChannel
  rcases BroadcastService.parseClient uuid clientId with _ | c
  · trivial
  rcases BroadcastService.parseChannel uuid channelId with _ | k
  · trivial
  · exact .bind (requesting_leaveChannel c k) fun _ => trivial

theorem requesting_leaveEach (ks : List ChannelId) : (BroadcastService.leaveEach c ks).Calls Requesting := by
  induction ks with
  | nil => trivial
  | cons k ks ih => exact .bind (requesting_leaveChannel c k) fun _ => ih

theorem requesting_removeFromEach (cs : ClientSession) (ks : List ChannelId) :
    (ExpireInactiveClients.removeFromEach cs ks).Calls Requesting :=
  calls_removeFromEach (fun _ => trivial) (fun _ => trivial) (fun _ _ _ _ => trivial) cs ks

/-- What the removal of a client calls besides its leaves. -/
theorem calls_disconnectClient {P : Call → Prop} (hreq : ∀ o, Requesting o → P o)
    (hr : ∀ c, P (.clients (.remove c))) (hu : ∀ c, P (.publisher (.unregisterSubscriber c))) :
    (BroadcastService.disconnectClient order c).Calls P := by
  simp only [BroadcastService.disconnectClient, Prog.perform_bind]
  refine ⟨hreq _ trivial, fun r => ?_⟩
  rcases r with e | cs
  · trivial
  refine .bind ((requesting_leaveEach c _).mono hreq) fun _ => ⟨hr c, fun r => ?_⟩
  rcases r with e | _
  · trivial
  · exact ⟨hu c, fun _ => trivial⟩

theorem calls_expire {P : Call → Prop} (hreq : ∀ o, Requesting o → P o)
    (hc : ∀ order deadline, P (.clients (.collectExpired order deadline)))
    (hr : ∀ c, P (.clients (.remove c)))
    (hu : ∀ c, P (.publisher (.unregisterSubscriber c))) (deadline : Int) :
    (ExpireInactiveClients.run order deadline).Calls P := by
  have heach : ∀ expired count, (ExpireInactiveClients.expireEach order count expired).Calls P := by
    intro expired
    induction expired with
    | nil => exact fun _ => trivial
    | cons cs expired ih =>
      intro count
      refine .bind ((requesting_removeFromEach cs _).mono hreq) fun _ => ?_
      exact ⟨hr cs.id, fun _ => ⟨hu cs.id, fun _ => ih (count + 1)⟩⟩
  exact ⟨hc .., fun expired => heach expired 0⟩

theorem MembershipRequest.requesting_run (r : MembershipRequest) : (r.run order c).Calls Requesting := by
  cases r with
  | join k =>
    refine .bind (JoinChannel.requesting_execute order c k) fun r => ?_
    rcases r with e | _ <;> trivial
  | joinByName name =>
    refine .bind (JoinChannel.requesting_executeByName order c name) fun r => ?_
    rcases r with e | _ <;> trivial
  | leave k =>
    refine .bind (requesting_leaveChannel c k) fun r => ?_
    rcases r with e | _ <;> trivial

theorem MembershipRequest.plain_run (r : MembershipRequest) : (r.run order c).Calls Plain :=
  (r.requesting_run order c).mono fun _ => Requesting.plain

end

end Bcmd
