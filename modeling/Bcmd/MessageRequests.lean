import Bcmd.History
import Bcmd.MembershipRequest
import Bcmd.Operations
import Bcmd.Routing

/-!
# Sends and reads of the history, run alone

An accepted send draws a new id, saves the message and writes it to the streams of the members; nothing else
adds to a history. So the retained messages have ids that were drawn before.
-/

namespace Bcmd
open Server BroadcastService

/-! ### Sends -/

section
variable {k : ChannelId} {s s' : Server} {m : Message} {w : StreamId} {event : ChannelEvent}

/-- From `s` to `s'` the channel got the message, and so did the streams of its members. -/
structure Accepts (k : ChannelId) (m : Message) (s s' : Server) : Prop where
  id : m.id = ⟨s.nextUuid⟩
  channelId : m.channelId = k
  nextUuid : s'.nextUuid = s.nextUuid + 1
  channels : s'.channels = s.channels
  messages : s'.messages = (s.messages.save m).2
  writers : s'.publisher.writers = s.publisher.writers
  grows : ∀ w, s.publisher.written w <+: s'.publisher.written w
  written : ∀ w event, event ∈ s'.publisher.written w ↔ event ∈ s.publisher.written w ∨
    event = .message (messageToEvent s.clients m) ∧ ∃ d ∈ s.members k, s.publisher.writers.lookup d = some w

theorem Accepts.ne {i : MessageId} (h : Accepts k m s s') (hi : i.value < s.nextUuid) : i ≠ m.id := by
  rintro rfl
  rw [h.id] at hi
  exact lt_irrefl _ hi

theorem Accepts.lt {i : MessageId} (h : Accepts k m s s') (hi : i.value < s.nextUuid) :
    i.value < s'.nextUuid := by
  rw [h.nextUuid]
  exact hi.trans (Nat.lt_succ_self _)

theorem exec_publishEach (m : Message) (recipients : List ClientId) (s : Server) :
    ports.exec (SendMessage.publishEach m recipients) s = ((), { s with
      publisher := recipients.foldl (fun p d => GrpcClientPublisher.publish p s.clients d m)
        s.publisher }) := by
  induction recipients generalizing s with
  | nil => rfl
  | cons d ds ih =>
    simp only [SendMessage.publishEach, Prog.perform_bind, Machine.exec_call, ih]
    rfl

theorem writers_publishAll (registry : InMemoryClientRegistry) (recipients : List ClientId)
    (p : GrpcClientPublisher) :
    (recipients.foldl (fun p d => GrpcClientPublisher.publish p registry d m) p).writers = p.writers := by
  induction recipients generalizing p with
  | nil => rfl
  | cons d ds ih => exact (ih _).trans (Subscribers.writers_writeTo ..)

/-- A stream gets the event once for every recipient whose stream it is. -/
theorem written_publishAll (registry : InMemoryClientRegistry) (recipients : List ClientId)
    (p : GrpcClientPublisher) (w : StreamId) :
    (recipients.foldl (fun p d => GrpcClientPublisher.publish p registry d m) p).written w =
      p.written w ++ List.replicate (recipients.countP fun d => p.writers.lookup d = some w)
        (.message (messageToEvent registry m)) := by
  induction recipients generalizing p with
  | nil => simp
  | cons d ds ih =>
    have hwriters : (GrpcClientPublisher.publish p registry d m).writers = p.writers :=
      Subscribers.writers_writeTo ..
    rw [List.foldl_cons, ih, hwriters]
    unfold GrpcClientPublisher.publish
    rw [Subscribers.written_writeTo]
    by_cases hd : p.writers.lookup d = some w
    · simp [hd, List.replicate_succ]
    · simp [hd]

theorem grows_publishAll (registry : InMemoryClientRegistry) (recipients : List ClientId)
    (p : GrpcClientPublisher) (w : StreamId) :
    p.written w <+: (recipients.foldl (fun p d => GrpcClientPublisher.publish p registry d m)
      p).written w := by
  rw [written_publishAll]
  exact List.prefix_append ..

theorem mem_written_publishAll (registry : InMemoryClientRegistry) (recipients : List ClientId)
    (p : GrpcClientPublisher) :
    event ∈ (recipients.foldl (fun p d => GrpcClientPublisher.publish p registry d m) p).written w ↔
      event ∈ p.written w ∨ event = .message (messageToEvent registry m) ∧
        ∃ d ∈ recipients, p.writers.lookup d = some w := by
  rw [written_publishAll, List.mem_append, List.mem_replicate, ← Nat.pos_iff_ne_zero, List.countP_pos_iff]
  simp only [decide_eq_true_iff]
  tauto

/-! ### One send -/

namespace Server

/-- The message that a send makes of the validated content. -/
def drafted (s : Server) (c : ClientId) (k : ChannelId) (content : MessageContent) : Message :=
  ⟨⟨s.nextUuid⟩, c, k, content, s.systemNow⟩

/-- What is left to do once the message is there. -/
def afterSend (s : Server) (order : BucketOrder) (ch : Channel) (m : Message) (echoPolicy : EchoPolicy) :
    Server :=
  { s with
    messages := (s.messages.save m).2
    publisher := (recipientsFor order.clients ch m echoPolicy).foldl
      (fun p d => GrpcClientPublisher.publish p s.clients d m) s.publisher
    nextUuid := s.nextUuid + 1 }

end Server

/-- A send is refused and changes nothing, or there are a session, a channel, a membership and a content. -/
theorem exec_send (order : BucketOrder) (c : ClientId) (k : ChannelId) (content : Bytes)
    (echoPolicy : EchoPolicy) (s : Server) :
    (∃ e, ports.exec (SendMessage.execute order c k content echoPolicy) s = (.error e, s) ∧
        ¬ (s.session c ≠ none ∧ s.channel k ≠ none ∧ c ∈ s.members k ∧
          ∃ validated, MessageContent.create content = .ok validated)) ∨
      ∃ ch validated, s.session c ≠ none ∧ s.channel k = some ch ∧ c ∈ s.members k ∧
        MessageContent.create content = .ok validated ∧
        ports.exec (SendMessage.execute order c k content echoPolicy) s =
          (.ok (s.drafted c k validated).id, s.afterSend order ch (s.drafted c k validated) echoPolicy) := by
  simp only [SendMessage.execute, Prog.perform_bind, Prog.pure_eq, exec_findSession, exec_findChannel]
  rcases hcs : s.session c with _ | cs
  · exact .inl ⟨_, rfl, fun h => h.1 rfl⟩
  rcases hch : s.channel k with _ | ch
  · exact .inl ⟨_, rfl, fun h => h.2.1 rfl⟩
  dsimp only
  rw [members_of_channel hch]
  by_cases hm : c ∈ ch.members
  · rw [if_neg (by simpa using hm)]
    rcases hcontent : MessageContent.create content with e | validated
    · exact .inl ⟨_, rfl, fun h => by simp at h⟩
    · refine .inr ⟨ch, validated, by simp, rfl, hm, rfl, ?_⟩
      dsimp only
      rw [Machine.exec_call, Machine.exec_call]
      show ports.exec (SendMessage.publishEach (s.drafted c k validated) _ >>= fun _ =>
        Prog.ret (Except.ok (s.drafted c k validated).id)) _ = (_, _)
      rw [Machine.exec_bind, exec_publishEach]
      rfl
  · rw [if_pos (by simpa using hm)]
    exact .inl ⟨_, rfl, fun h => hm h.2.2.1⟩

/-- A send is refused and changes nothing, or the message of a member is accepted. -/
theorem sendMessage_cases (order : BucketOrder) (c : ClientId) (k : ChannelId) (content : Bytes)
    (s : Server) :
    (∃ e, ports.exec (SendMessage.execute order c k content .includeSender) s = (.error e, s)) ∨
      ∃ validated s', MessageContent.create content = .ok validated ∧ s.session c ≠ none ∧ c ∈ s.members k ∧
        ports.exec (SendMessage.execute order c k content .includeSender) s = (.ok ⟨s.nextUuid⟩, s') ∧
        Accepts k ⟨⟨s.nextUuid⟩, c, k, validated, s.systemNow⟩ s s' := by
  rcases exec_send order c k content .includeSender s with ⟨e, hexec, -⟩ |
    ⟨ch, validated, hcs, hch, hm, hcontent, hexec⟩
  · exact .inl ⟨e, hexec⟩
  refine .inr ⟨validated, _, hcontent, hcs, hm, hexec, rfl, rfl, rfl, rfl, rfl, writers_publishAll ..,
    fun _ => grows_publishAll .., fun w event => (mem_written_publishAll ..).trans ?_⟩
  simp only [mem_recipientsFor_include]
  rw [members_of_channel hch]
  rfl

theorem exec_sendMessage (order : BucketOrder) (c : ClientId) (k : ChannelId) (content : Bytes) (s : Server) :
    (∃ e, ports.exec (SendMessage.execute order c k content .includeSender) s = (.error e, s)) ∨
      ∃ m s', ports.exec (SendMessage.execute order c k content .includeSender) s = (.ok m.id, s') ∧
        Accepts k m s s' := by
  rcases sendMessage_cases order c k content s with hrefused | ⟨validated, s', -, -, -, hexec, hsent⟩
  · exact .inl hrefused
  · exact .inr ⟨_, s', hexec, hsent⟩

end

/-! ### Reads -/

section
variable {c : ClientId} {k : ChannelId} {s : Server}

theorem exec_fillMessages (ms : List Message) (s : Server) :
    ports.exec (fillMessages ms) s = (ms.map (messageToEvent s.clients), s) := by
  induction ms with
  | nil => rfl
  | cons m ms ih =>
    simp only [fillMessages, fillMessage, Prog.perform_bind, Prog.call_bind, Prog.pure_eq,
      Prog.ret_bind, Machine.exec_call, Machine.exec_bind]
    rw [show (ports.handle (.clients (.lookupUsername m.senderId)) s).2 = s from rfl, ih]
    rfl

/-- The page of `ListMessages` and whether there is more before it. -/
def InMemoryMessageRepository.page (repo : InMemoryMessageRepository) (k : ChannelId)
    (cursor : Option MessageId) (limit : UInt32) : ListMessages.Page :=
  let capped := min limit ListMessages.kServerMaxLimit
  let page := match cursor with
    | some before => repo.listBefore k before capped
    | none => repo.recent k capped
  ⟨page, match page with
    | [] => false
    | front :: _ => ¬ (repo.listBefore k front.id 1).isEmpty⟩

/-- A member gets the page. -/
theorem exec_listMessages (cursor : Option MessageId) (limit : UInt32) (h : c ∈ s.members k) :
    ports.exec (ListMessages.execute c k cursor limit) s = (.ok (s.messages.page k cursor limit), s) := by
  simp only [ListMessages.execute, Prog.perform_bind, Prog.pure_eq, exec_findChannel]
  rcases hch : s.channel k with _ | ch
  · rw [members_of_none hch] at h
    exact absurd h (Finset.notMem_empty c)
  rw [members_of_channel hch] at h
  dsimp only
  rw [if_neg (by simp [Channel.hasMember_iff.2 h])]
  have hmore : ∀ page, ports.exec (ListMessages.hasMore k page) s =
      (match page with
        | [] => false
        | front :: _ => ¬ (s.messages.listBefore k front.id 1).isEmpty, s) := by
    intro page
    rcases page with _ | ⟨front, older⟩ <;> rfl
  rcases cursor with _ | before
  · have hread : ports.handle (.messages (.recent k (min limit ListMessages.kServerMaxLimit))) s =
        (s.messages.recent k (min limit ListMessages.kServerMaxLimit), s) := rfl
    rw [Machine.exec_call, hread, Machine.exec_bind, hmore]
    rfl
  · have hread : ports.handle (.messages (.listBefore k before (min limit ListMessages.kServerMaxLimit))) s =
        (s.messages.listBefore k before (min limit ListMessages.kServerMaxLimit), s) := rfl
    rw [Machine.exec_call, hread, Machine.exec_bind, hmore]
    rfl

end

/-! ### Joins -/

theorem member_of_join (order : BucketOrder) {c : ClientId} {k : ChannelId} {s : Server}
    (h : (ports.exec (JoinChannel.execute order c k) s).1 = .ok ()) :
    c ∈ (ports.exec (JoinChannel.execute order c k) s).2.members k := by
  simp only [JoinChannel.execute, Prog.perform_bind, Prog.pure_eq, exec_findSession, exec_findChannel] at h ⊢
  rcases hcs : s.session c with _ | cs
  · rw [hcs] at h
    cases h
  rcases hch : s.channel k with _ | ch
  · rw [hcs, hch] at h
    cases h
  obtain ⟨s₁, s', hexec, hleaves, hadds⟩ := JoinChannel.exec_joinFound order hcs hch
  have hk : s₁.channel k ≠ none := by
    rw [hleaves.putOut k, if_neg (Finset.notMem_erase k _), hch]
    simp
  simp only [hexec]
  rw [hadds.members hk, if_pos rfl]
  exact Finset.mem_insert_self c _

/-! ### Ids -/

/-- The retained messages have ids that were drawn before. -/
def Server.Dated (s : Server) : Prop := ∀ k, ∀ m ∈ s.messages.buffer k, m.id.value < s.nextUuid

section
variable {uuid : UuidLib} {host host' : Host} {s s' : Server}

theorem Server.Dated.same (h : s.Dated) (hm : s'.messages = s.messages)
    (hn : s.nextUuid ≤ s'.nextUuid) : s'.Dated := by
  intro k m hmem
  rw [hm] at hmem
  exact (h k m hmem).trans_le hn

theorem Server.Dated.accepts {k : ChannelId} {m : Message} (h : s.Dated) (hsent : Accepts k m s s') :
    s'.Dated := by
  intro k' m' hm'
  rw [hsent.messages, InMemoryMessageRepository.buffer_save] at hm'
  rw [hsent.nextUuid]
  split at hm'
  · rw [popFrontWhileOver_eq] at hm'
    rcases List.mem_append.1 (List.mem_of_mem_drop hm') with hm' | hm'
    · exact (h k' m' hm').trans (Nat.lt_succ_self _)
    · rw [List.mem_singleton.1 hm', hsent.id]
      exact Nat.lt_succ_self _
  · exact (h k' m' hm').trans (Nat.lt_succ_self _)

def SavesNone (o : Call) : Prop := ∀ m, o ≠ .messages (.save m)

/-- Only a send changes the histories. -/
theorem messages_step (order : BucketOrder) (host : Host) {op : Operation}
    (hop : ∀ clientId channelId content, op ≠ .sendMessage clientId channelId content) :
    (host.step uuid order op).server.messages = host.server.messages := by
  refine Host.step_may (I := fun s => s.messages = host.server.messages) (fun o s ho hs => ?_)
    (fun _ _ he hs => he.messages.trans hs) rfl
  have hsaves : SavesNone o := by
    rintro m rfl
    obtain ⟨clientId, channelId, content, hsend⟩ := ho
    exact hop clientId channelId content hsend
  exact (messages_handle o hsaves s).trans hs

theorem nextUuid_step (order : BucketOrder) (host : Host) (op : Operation) :
    host.server.nextUuid ≤ (host.step uuid order op).server.nextUuid :=
  Host.step_inv (I := fun s => host.server.nextUuid ≤ s.nextUuid)
    (fun o s hs => hs.trans (nextUuid_handle o s))
    (fun _ _ he hs => hs.trans he.nextUuid) (le_refl _) op

theorem Server.Dated.step (order : BucketOrder) (op : Operation) (h : host.server.Dated) :
    (host.step uuid order op).server.Dated := by
  by_cases hop : ∃ clientId channelId content, op = .sendMessage clientId channelId content
  · obtain ⟨clientId, channelId, content, rfl⟩ := hop
    show (ports.exec (BroadcastService.SendMessage uuid order clientId channelId content) host.server).2.Dated
    unfold BroadcastService.SendMessage
    rcases parseClient uuid clientId with _ | c
    · exact h
    rcases parseChannel uuid channelId with _ | k
    · exact h
    simp only [Machine.exec_bind]
    rcases exec_sendMessage order c k (trim content) host.server with ⟨e, hexec⟩ | ⟨m, s', hexec, hsent⟩
    · rw [hexec]
      exact h
    · rw [hexec]
      exact h.accepts hsent
  · refine h.same (messages_step order host fun clientId channelId content hop' => hop
      ⟨clientId, channelId, content, hop'⟩) ?_
    exact nextUuid_step order host op

theorem dated_reached {historyCap : UInt32} {systemNow steadyNow : Int}
    (h : Host.Reached uuid (.initial historyCap systemNow steadyNow) host) : host.server.Dated := by
  induction h with
  | refl =>
    intro k m hm
    rw [Host.initial_messages, InMemoryMessageRepository.buffer_new] at hm
    cases hm
  | env _ he ih => exact ih.same he.messages he.nextUuid
  | step order op _ ih => exact ih.step order op

end

end Bcmd
