import Bcmd.Agreement
import Bcmd.MembershipRequest

/-!
# Which operation makes which call

Some calls are made by one operation alone: only a Connect registers a client, only a SendMessage saves
a message. What every other call keeps, every other operation keeps.
-/

namespace Bcmd
open Server BroadcastService

/-- The calls that the operation may make. -/
def Operation.May (op : Operation) : Call → Prop
  | .clients (.registerClient _) => ∃ username, op = .connect username
  | .channels (.create _) => ∃ clientId channelName, op = .createChannel clientId channelName
  | .newMessage _ _ _ | .messages (.save _) | .publisher (.publish _ _) =>
    ∃ clientId channelId content, op = .sendMessage clientId channelId content
  | .clients (.touchHeartbeat _) => ∃ clientId, op = .heartbeat clientId
  | .publisher (.registerSubscriber _ _) => ∃ clientId channelId, op = .subscribeToChannel clientId channelId
  | .channelList (.registerSubscriberWithSnapshot _ _ _) => ∃ clientId, op = .subscribeToChannelList clientId
  | .awaitCancelled _ => False
  | _ => True

theorem Requesting.may {o : Call} (h : Requesting o) (op : Operation) : op.May o := by
  rcases o with (_ | _ | _ | _ | _) | (_ | _ | _ | _ | _ | _ | _ | _) | _ | (_ | _ | _ | _ | _) |
    (_ | _ | _ | _) | _ | _
  all_goals first | exact h.elim | trivial

/-- What the calls of an operation and the environment keep, the operation keeps. -/
theorem Host.step_may {uuid : UuidLib} {order : BucketOrder} {host : Host} {op : Operation}
    {I : Server → Prop}
    (hcall : ∀ o s, op.May o → I s → I (handle o s).2) (henv : ∀ s s', Env s s' → I s → I s')
    (h : I host.server) :
    I (host.step uuid order op).server := by
  have hexec : ∀ {α : Type} (task : Task α) {s : Server}, task.Calls op.May → I s → I (ports.exec task s).2 :=
    fun _ _ htask hs => Machine.exec_preserves ports hcall htask hs
  have hcancel : ∀ w, I (host.cancel w).server := fun w =>
    henv host.server _ ⟨rfl, rfl, rfl, rfl, rfl, Finset.subset_insert .., le_refl _, le_refl _⟩ h
  cases op with
  | connect username =>
    refine hexec (Connect username) ?_ h
    unfold Connect
    rcases Username.create (trim username) with _ | name
    · trivial
    refine ⟨⟨username, rfl⟩, fun r => ?_⟩
    rcases r with e | cs <;> trivial
  | disconnect clientId =>
    refine hexec (Disconnect uuid order clientId) ?_ h
    unfold Disconnect
    rcases parseClient uuid clientId with _ | c
    · trivial
    · exact calls_disconnectClient order c (fun _ ho => ho.may _) (fun _ => trivial) fun _ => trivial
  | listChannels => exact hexec (ListChannels order) ⟨trivial, fun _ => trivial⟩ h
  | createChannel clientId channelName =>
    exact hexec _ (calls_rpc_createChannel uuid (fun _ => trivial)
      (fun _ => ⟨clientId, channelName, rfl⟩) (fun _ => trivial)
      clientId channelName) h
  | joinChannel clientId channelId =>
    exact hexec _ ((requesting_joinRequest order uuid clientId channelId).mono fun _ ho => ho.may _) h
  | leaveChannel clientId channelId =>
    exact hexec _ ((requesting_leaveRequest uuid clientId channelId).mono fun _ ho => ho.may _) h
  | sendMessage clientId channelId content =>
    exact hexec _ (calls_rpc_sendMessage uuid order (fun _ => trivial) (fun _ => trivial)
      (fun _ _ _ => ⟨_, _, _, rfl⟩)
      (fun _ => ⟨_, _, _, rfl⟩) (fun _ _ => ⟨_, _, _, rfl⟩) clientId channelId content) h
  | listMessages clientId channelId before limit =>
    exact hexec _ (calls_rpc_listMessages uuid (fun _ => trivial) (fun _ _ _ => trivial)
      (fun _ _ _ _ => trivial)
      (fun _ => trivial) clientId before limit) h
  | heartbeat clientId =>
    refine hexec (Heartbeat uuid clientId) ?_ h
    unfold Heartbeat
    rcases parseClient uuid clientId with _ | c
    · trivial
    · exact ⟨⟨clientId, rfl⟩, fun _ => trivial⟩
  | subscribeToChannel clientId channelId =>
    unfold Host.step
    dsimp only
    split
    · rename_i c k _ _
      have hbegun : I (ports.exec (beginChannelStream c k host.nextStream) host.server).2 := by
        refine hexec _ ?_ h
        simp only [beginChannelStream, Prog.perform_bind]
        refine ⟨⟨clientId, channelId, rfl⟩, fun _ => .bind ?_ fun r => ?_⟩
        · refine ⟨trivial, fun r => ?_⟩
          rcases r with e | ch
          · trivial
          · simp only [Prog.bind]
            split <;> trivial
        · rcases r with e | _
          · exact ⟨trivial, fun _ => trivial⟩
          · trivial
      unfold Host.beginChannel
      dsimp only
      split <;> exact hbegun
    · exact h
  | endChannelStream stream =>
    unfold Host.step
    dsimp only
    split
    · exact h
    · exact hexec (endChannelStream _) ⟨trivial, fun _ => trivial⟩ (hcancel stream)
  | subscribeToChannelList clientId =>
    unfold Host.step
    dsimp only
    split
    · have hbegun := hexec _ (calls_beginListStream order (fun _ => trivial)
        (fun _ _ _ => ⟨clientId, rfl⟩) ‹_› host.nextStream) h
      unfold Host.beginList
      dsimp only
      split <;> exact hbegun
    · exact h
  | endListStream stream =>
    unfold Host.step
    dsimp only
    split
    · exact h
    · exact hexec (endListStream _) ⟨trivial, fun _ => trivial⟩ (hcancel stream)
  | expire deadline =>
    exact hexec _ (calls_expire order (fun _ ho => ho.may _) (fun _ _ => trivial) (fun _ => trivial)
      (fun _ => trivial)
      deadline) h

/-- What every call and the environment keep, an operation keeps. -/
theorem Host.step_inv {uuid : UuidLib} {order : BucketOrder} {host : Host} {I : Server → Prop}
    (hcall : ∀ o s, I s → I (handle o s).2) (henv : ∀ s s', Env s s' → I s → I s') (h : I host.server)
    (op : Operation) :
    I (host.step uuid order op).server :=
  Host.step_may (fun o s _ => hcall o s) henv h

/-- And so does every sequence of operations. -/
theorem Host.Reached.server_inv {uuid : UuidLib} {host host' : Host} {I : Server → Prop}
    (h : Host.Reached uuid host host') (hcall : ∀ o s, I s → I (handle o s).2)
    (henv : ∀ s s', Env s s' → I s → I s') (h0 : I host.server) : I host'.server := by
  induction h with
  | refl => exact h0
  | env _ he ih => exact henv _ _ he ih
  | step order op _ ih => exact Host.step_inv hcall henv ih op

end Bcmd
