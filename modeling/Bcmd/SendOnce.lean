import Bcmd.MemberEvents
import Bcmd.StoredMessages

/-!
# A message is stored once and delivered once

What a send does from end to end, under either echo policy: the history it leaves behind, the one event on
the stream of each member it is meant for, and nothing on any other stream.
-/

namespace Bcmd
open Server

theorem MessageContent.create_ok {content : Bytes} {validated : MessageContent}
    (h : MessageContent.create content = .ok validated) : validated.value = MessageContent.trim content := by
  unfold MessageContent.create at h
  split at h
  · cases h
  split at h
  · cases h
  split at h
  · cases h
  · cases h
    rfl

/-! ### The history stays within its cap -/

/-- No buffer is longer than the cap. -/
def Server.Capped (s : Server) : Prop :=
  ∀ k, (s.messages.buffer k).length ≤ s.messages.cap.toNat

section
variable {uuid : UuidLib} {historyCap : UInt32} {systemNow steadyNow : Int} {host : Host} {s : Server}

theorem Server.Capped.handle (h : s.Capped) (o : Call) : (handle o s).2.Capped := by
  by_cases ho : ∃ m, o = .messages (.save m)
  · obtain ⟨m, rfl⟩ := ho
    intro k
    show ((s.messages.save m).2.buffer k).length ≤ s.messages.cap.toNat
    rw [InMemoryMessageRepository.buffer_save]
    split
    · rw [popFrontWhileOver_eq, List.length_drop]
      omega
    · exact h k
  · intro k
    rw [messages_handle o (fun m hm => ho ⟨m, hm⟩)]
    exact h k

theorem capped_reached (h : Host.Reached uuid (.initial historyCap systemNow steadyNow) host) :
    host.server.Capped := by
  refine h.server_inv (fun o _ hs => hs.handle o) (fun _ s' he hs => ?_) fun k => ?_
  · unfold Server.Capped
    rw [he.messages]
    exact hs
  · rw [Host.initial_messages, InMemoryMessageRepository.buffer_new]
    simp

end

/-! ### One event for each recipient -/

/-- The stream is that of a member, and not of a sender that gets no echo. -/
def Receives (s : Server) (c : ClientId) (k : ChannelId) (echoPolicy : EchoPolicy) (w : StreamId) : Prop :=
  ∃ d ∈ s.members k, ¬ (echoPolicy = .excludeSender ∧ d = c) ∧ s.publisher.writers.lookup d = some w

instance (s : Server) (c : ClientId) (k : ChannelId) (echoPolicy : EchoPolicy) (w : StreamId) :
    Decidable (Receives s c k echoPolicy w) := inferInstanceAs (Decidable (∃ d ∈ s.members k, _))

section
variable {s : Server} {c : ClientId} {k : ChannelId} {ch : Channel} {m : Message} {w : StreamId}

theorem mem_recipientsFor {order : IterOrder ClientId} {echoPolicy : EchoPolicy} {d : ClientId} :
    d ∈ recipientsFor order ch m echoPolicy ↔
      d ∈ ch.members ∧ ¬ (echoPolicy = .excludeSender ∧ d = m.senderId) := by
  simp only [recipientsFor, List.mem_filter, IterOrder.mem_enum, decide_eq_true_iff]

/-- The router names nobody twice. -/
theorem nodup_recipientsFor (order : IterOrder ClientId) (ch : Channel) (m : Message)
    (echoPolicy : EchoPolicy) : (recipientsFor order ch m echoPolicy).Nodup :=
  (order.nodup_enum ch.members).filter _

/-- Where no stream has two owners, a stream is written to once at most. -/
theorem count_recipients (order : IterOrder ClientId) (echoPolicy : EchoPolicy) (hch : s.channel k = some ch)
    (hsender : m.senderId = c)
    (hown : ∀ d d', s.publisher.writers.lookup d = some w → s.publisher.writers.lookup d' = some w → d' = d) :
    ((recipientsFor order ch m echoPolicy).countP fun d => s.publisher.writers.lookup d = some w) =
      if Receives s c k echoPolicy w then 1 else 0 := by
  have hmem : ∀ d, d ∈ recipientsFor order ch m echoPolicy ↔
      d ∈ s.members k ∧ ¬ (echoPolicy = .excludeSender ∧ d = c) := by
    intro d
    rw [mem_recipientsFor, hsender, members_of_channel hch]
  split
  · obtain ⟨d, hin, hnot, hw⟩ := ‹Receives s c k echoPolicy w›
    have hcount : (recipientsFor order ch m echoPolicy).countP
        (fun d' => s.publisher.writers.lookup d' = some w) =
          (recipientsFor order ch m echoPolicy).count d := by
      refine List.countP_congr fun d' _ => ?_
      simp only [decide_eq_true_iff, beq_iff_eq]
      constructor
      · exact fun hd' => hown d d' hw hd'
      · rintro rfl
        exact hw
    rw [hcount]
    exact List.count_eq_one_of_mem (nodup_recipientsFor ..) ((hmem d).2 ⟨hin, hnot⟩)
  · rw [List.countP_eq_zero]
    intro d hd
    simp only [decide_eq_true_iff]
    obtain ⟨hin, hnot⟩ := (hmem d).1 hd
    exact fun hw => ‹¬ Receives s c k echoPolicy w› ⟨d, hin, hnot, hw⟩

end

/-- In every state that operations lead to, a send succeeds exactly if the sender has a session, the channel
exists and has it as a member, and the content is valid. The message is then the newest of the history, the
oldest is gone if there was no room, every intended member with a stream gets one event, no other stream gets
any, and but for the supply of ids nothing else changes. -/
theorem sent_once {uuid : UuidLib} {historyCap : UInt32} {systemNow steadyNow : Int} {host : Host}
    (h : Host.Reached uuid (.initial historyCap systemNow steadyNow) host) (order : BucketOrder) (c : ClientId)
    (k : ChannelId) (content : Bytes) (echoPolicy : EchoPolicy) :
    ((∃ id, (ports.exec (SendMessage.execute order c k content echoPolicy) host.server).1 = .ok id) ↔
      host.server.session c ≠ none ∧ host.server.channel k ≠ none ∧ c ∈ host.server.members k ∧
        ∃ validated, MessageContent.create content = .ok validated) ∧
    ∀ id s', ports.exec (SendMessage.execute order c k content echoPolicy) host.server = (.ok id, s') →
      ∃ m : Message, m.id = id ∧ m.senderId = c ∧ m.channelId = k ∧
        m.content.value = MessageContent.trim content ∧
        (∀ m' ∈ host.server.messages.buffer k, m'.id ≠ id) ∧
        s'.messages.buffer k = (if (host.server.messages.buffer k).length < host.server.messages.cap.toNat
          then host.server.messages.buffer k else (host.server.messages.buffer k).tail) ++ [m] ∧
        (∀ k' ≠ k, s'.messages.buffer k' = host.server.messages.buffer k') ∧
        s'.messages.cap = host.server.messages.cap ∧
        (∀ w, s'.publisher.written w = host.server.publisher.written w ++
          if Receives host.server c k echoPolicy w
          then [.message (messageToEvent host.server.clients m)] else []) ∧
        s'.publisher.writers = host.server.publisher.writers ∧ s'.channelList = host.server.channelList ∧
        s'.channels = host.server.channels ∧ s'.clients = host.server.clients ∧
        s'.cancelled = host.server.cancelled ∧ s'.systemNow = host.server.systemNow ∧
        s'.steadyNow = host.server.steadyNow := by
  rcases exec_send order c k content echoPolicy host.server with ⟨e, hexec, hnot⟩ |
    ⟨ch, validated, hcs, hch, hm, hcontent, hexec⟩
  · rw [hexec]
    refine ⟨⟨fun hok => ?_, fun hall => absurd hall hnot⟩, fun id s' hok => ?_⟩
    · obtain ⟨id, hok⟩ := hok
      cases hok
    · cases hok
  rw [hexec]
  refine ⟨⟨fun _ => ⟨hcs, by rw [hch]; nofun, hm, validated, hcontent⟩, fun _ => ⟨_, rfl⟩⟩, ?_⟩
  intro id s' hok
  cases hok
  have hown := ownStreams_reached h
  refine ⟨host.server.drafted c k validated, rfl, rfl, rfl, MessageContent.create_ok hcontent,
    fun m' hm' hid => ?_, ?_, fun k' hk' => ?_, rfl, fun w => ?_, writers_publishAll .., rfl, rfl, rfl, rfl, rfl,
    rfl⟩
  · have hlt := dated_reached h k m' hm'
    rw [hid] at hlt
    exact Nat.lt_irrefl _ hlt
  · have hcap := capped_reached h k
    show (host.server.messages.save (host.server.drafted c k validated)).2.buffer k = _
    rw [InMemoryMessageRepository.buffer_save, if_pos (show k = (host.server.drafted c k validated).channelId from
      rfl), popFrontWhileOver_eq, List.length_append, List.length_singleton]
    have hroom : (host.server.messages.cap.toNat : Nat) ≠ 0 := fun hzero =>
      host.server.messages.cap_ne (UInt32.toNat_inj.1 hzero)
    split
    · rw [show (host.server.messages.buffer k).length + 1 - host.server.messages.cap.toNat = 0 by omega,
        List.drop_zero]
    · rw [show (host.server.messages.buffer k).length + 1 - host.server.messages.cap.toNat = 1 by omega,
        List.drop_append_of_le_length (by omega), List.drop_one]
  · show (host.server.messages.save (host.server.drafted c k validated)).2.buffer k' = _
    exact (InMemoryMessageRepository.buffer_save ..).trans (if_neg hk')
  · refine (written_publishAll ..).trans ?_
    rw [count_recipients (c := c) order.clients echoPolicy hch rfl fun d d' hd hd' => (hown d w hd).2 d' hd']
    by_cases hw : Receives host.server c k echoPolicy w
    · rw [if_pos hw, if_pos hw]
      rfl
    · rw [if_neg hw, if_neg hw]
      rfl

theorem sent_once_oneJoined :
    ∃ id, (ports.exec (SendMessage.execute .byId ⟨2⟩ ⟨1⟩ (ascii " hi ") .includeSender) oneJoined.server).1 =
      .ok id := by
  refine (sent_once oneJoined_reached .byId ⟨2⟩ ⟨1⟩ (ascii " hi ") .includeSender).1.2 ⟨by decide +kernel,
    by decide +kernel, by decide +kernel, ⟨ascii "hi", by decide⟩, by rfl⟩

end Bcmd
