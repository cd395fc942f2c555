import Bcmd.MessageRequests
import Bcmd.Registry

/-!
# What a history holds

A retained message is one that a SendMessage put there: validated, of a stored channel, by a client that
had connected. The publisher and `ListMessages` each have their own way to make its event, and both look
the sender up by the name it connected with, which is kept after the session is gone. So they make the
same event.
-/

namespace Bcmd
open Server BroadcastService

/-! ### Validated text -/

theorem MessageContent.isspace_head {value : Bytes} (h : MessageContent.trim value = value) {b : UInt8}
    (hb : value.head? = some b) : isspace b = false := by
  rw [← h] at hb
  exact Bool.eq_false_of_not_eq_true (Strip.not_head hb)

theorem MessageContent.isspace_last {value : Bytes} (h : MessageContent.trim value = value) {b : UInt8}
    (hb : value.getLast? = some b) : isspace b = false := by
  rw [← h] at hb
  exact Bool.eq_false_of_not_eq_true (Strip.not_last hb)

/-! ### What happened before -/

/-- The run that starts in `start` had come to an operation that was as `P` says, and led from there to
`host`. -/
def Host.Earlier (uuid : UuidLib) (start : Host) (P : Host → BucketOrder → Operation → Prop)
    (host : Host) : Prop :=
  ∃ before order op, Reached uuid start before ∧ P before order op ∧ Reached uuid
    (before.step uuid order op) host

/-- The operation is the Connect by which `c` got its id and the name. -/
def Connects (c : ClientId) (name : Username) (host : Host) (_ : BucketOrder) (op : Operation) : Prop :=
  ∃ username, op = .connect username ∧ Username.create (trim username) = some name ∧
    (ports.exec (Connect username) host.server).1 = .ok c

/-- The operation is the SendMessage by which the message was saved and published, by a client with a
session. -/
def Publishes (uuid : UuidLib) (m : Message) (host : Host) (order : BucketOrder) (op : Operation) : Prop :=
  (∃ clientId channelId content, op = .sendMessage clientId channelId content ∧
      parseClient uuid clientId = some m.senderId ∧ parseChannel uuid channelId = some m.channelId) ∧
    host.server.session m.senderId ≠ none ∧
    Accepts m.channelId m host.server (host.step uuid order op).server

section
variable {uuid : UuidLib} {historyCap : UInt32} {systemNow steadyNow : Int} {start host host' : Host}
  {P : Host → BucketOrder → Operation → Prop} {k : ChannelId} {m : Message} {c : ClientId}

theorem Host.Earlier.later (h : Host.Earlier uuid start P host) (h' : Reached uuid host host') :
    Host.Earlier uuid start P host' := by
  obtain ⟨before, order, op, hbefore, hp, hafter⟩ := h
  refine ⟨before, order, op, hbefore, hp, ?_⟩
  induction h' with
  | refl => exact hafter
  | env _ he ih => exact ih.env he
  | step order op _ ih => exact ih.step order op

/-- Every name that was given was given by a Connect. -/
theorem connects_of_nameGiven (h : Host.Reached uuid (.initial historyCap systemNow steadyNow) host)
    {name : Username} (hc : host.server.nameGiven c = some name) :
    Host.Earlier uuid (.initial historyCap systemNow steadyNow) (Connects c name) host := by
  induction h with
  | refl =>
    rw [nameGiven, Host.initial_clients] at hc
    cases (Finmap.lookup_empty c).symm.trans hc
  | @env host s' h he ih =>
    have hbefore : host.server.nameGiven c = some name := by
      rw [← hc, nameGiven, nameGiven, he.clients]
    exact (ih hbefore).later (.env .refl he)
  | @step host order op h ih =>
    by_cases hbefore : host.server.nameGiven c = some name
    · exact (ih hbefore).later (.step order op .refl)
    by_cases hop : ∃ username, op = .connect username
    · obtain ⟨username, rfl⟩ := hop
      refine ⟨host, order, .connect username, h, ⟨username, rfl, ?_⟩, .refl⟩
      have hc' : (ports.exec (Connect username) host.server).2.nameGiven c = some name := hc
      unfold Connect at hc' ⊢
      rcases hvalid : Username.create (trim username) with _ | valid
      · rw [hvalid] at hc'
        exact absurd hc' hbefore
      simp only [hvalid, Prog.perform_bind, Prog.pure_eq, Machine.exec_call] at hc' ⊢
      rcases register_name host.server valid with ⟨d, -, herr, hs⟩ | ⟨-, hok, -, -, hnamed⟩
      · simp only [show (ports.handle (.clients (.registerClient valid)) host.server).1 = _ from herr] at hc'
        rw [show (ports.handle (.clients (.registerClient valid)) host.server).2 = _ from hs] at hc'
        exact absurd hc' hbefore
      · simp only [show (ports.handle (.clients (.registerClient valid)) host.server).1 = _ from hok] at hc' ⊢
        have hgiven : (handle (.clients (.registerClient valid)) host.server).2.nameGiven c = some name := hc'
        rw [hnamed] at hgiven
        split at hgiven
        · subst ‹c = _›
          exact ⟨congrArg some (Option.some.inj hgiven), rfl⟩
        · exact absurd hgiven hbefore
    · rw [nameGiven_step (fun username h => hop ⟨username, h⟩)] at hc
      exact absurd hc hbefore

/-- A send changes no history, or adds the message that it accepts to the history of its channel. -/
theorem publishes_of_step (uuid : UuidLib) (host : Host) (order : BucketOrder)
    (clientId channelId content : Bytes) :
    (host.step uuid order (.sendMessage clientId channelId content)).server.messages = host.server.messages ∨
      ∃ m, Publishes uuid m host order (.sendMessage clientId channelId content) ∧
        host.server.channel m.channelId ≠ none := by
  rcases hc : parseClient uuid clientId with _ | c
  · left
    show (ports.exec (BroadcastService.SendMessage uuid order clientId channelId content)
      host.server).2.messages = _
    unfold BroadcastService.SendMessage
    simp only [hc]
    rfl
  rcases hk : parseChannel uuid channelId with _ | k
  · left
    show (ports.exec (BroadcastService.SendMessage uuid order clientId channelId content)
      host.server).2.messages = _
    unfold BroadcastService.SendMessage
    simp only [hc, hk]
    rfl
  have hstep : (host.step uuid order (.sendMessage clientId channelId content)).server =
      (ports.exec (SendMessage.execute order c k (trim content) .includeSender) host.server).2 := by
    show (ports.exec (BroadcastService.SendMessage uuid order clientId channelId content) host.server).2 = _
    unfold BroadcastService.SendMessage
    simp only [hc, hk, Machine.exec_bind]
    rfl
  rcases sendMessage_cases order c k (trim content) host.server with ⟨e, hexec⟩ |
    ⟨validated, s', -, hs, hm, hexec, hsent⟩
  · left
    rw [hstep, hexec]
  · right
    refine ⟨⟨⟨host.server.nextUuid⟩, c, k, validated, host.server.systemNow⟩,
      ⟨⟨clientId, channelId, content, rfl, hc, hk⟩, hs, ?_⟩, fun hnone => ?_⟩
    · rw [hstep, hexec]
      exact hsent
    · rw [members_of_none hnone] at hm
      exact absurd hm (Finset.notMem_empty c)

theorem channel_reached (h : Host.Reached uuid host host') (hk : host.server.channel k ≠ none) :
    host'.server.channel k ≠ none :=
  h.server_inv (I := fun s => s.channel k ≠ none) (fun o _ hs => channel_ne_none o hs)
    (fun _ _ he hs => by rwa [channel, he.channels]) hk

/-- What is retained was sent before. -/
theorem publishes_of_buffer (h : Host.Reached uuid (.initial historyCap systemNow steadyNow) host)
    (hm : m ∈ host.server.messages.buffer k) : m.channelId = k ∧ host.server.channel k ≠ none ∧
      Host.Earlier uuid (.initial historyCap systemNow steadyNow) (Publishes uuid m) host := by
  induction h with
  | refl =>
    rw [Host.initial_messages, InMemoryMessageRepository.buffer_new] at hm
    cases hm
  | @env host s' h he ih =>
    have hstep : Host.Reached uuid host { host with server := s' } := .env .refl he
    dsimp only at hm
    rw [he.messages] at hm
    obtain ⟨hown, hk, hsent⟩ := ih hm
    exact ⟨hown, channel_reached hstep hk, hsent.later hstep⟩
  | @step host order op h ih =>
    have hstep : Host.Reached uuid host (host.step uuid order op) := .step order op .refl
    have hold : m ∈ host.server.messages.buffer k →
      m.channelId = k ∧ (host.step uuid order op).server.channel k ≠ none ∧
        Host.Earlier uuid (.initial historyCap systemNow steadyNow) (Publishes uuid m)
          (host.step uuid order op) := by
      intro hm
      obtain ⟨hown, hk, hsent⟩ := ih hm
      exact ⟨hown, channel_reached hstep hk, hsent.later hstep⟩
    by_cases hop : ∃ clientId channelId content, op = .sendMessage clientId channelId content
    · obtain ⟨clientId, channelId, content, rfl⟩ := hop
      rcases publishes_of_step uuid host order clientId channelId content with hsame | ⟨m', hsent, hk⟩
      · rw [hsame] at hm
        exact hold hm
      rw [hsent.2.2.messages, InMemoryMessageRepository.buffer_save] at hm
      split at hm
      · subst ‹k = m'.channelId›
        rw [popFrontWhileOver_eq] at hm
        rcases List.mem_append.1 (List.mem_of_mem_drop hm) with hm | hm
        · exact hold hm
        · obtain rfl := List.mem_singleton.1 hm
          exact ⟨rfl, channel_reached hstep hk, host, order, _, h, hsent, .refl⟩
      · exact hold hm
    · rw [messages_step order host fun clientId channelId content h => hop
        ⟨clientId, channelId, content, h⟩] at hm
      exact hold hm

/-- The event depends on the registry only by the name that the sender was given. -/
theorem messageToEvent_congr {s s' : Server} (h : s'.nameGiven m.senderId = s.nameGiven m.senderId) :
    messageToEvent s'.clients m = messageToEvent s.clients m := by
  have hlookup : s'.clients.lookupUsername m.senderId = s.clients.lookupUsername m.senderId := by
    unfold InMemoryClientRegistry.lookupUsername
    rw [show s'.clients.historicalUsernames.lookup m.senderId =
      s.clients.historicalUsernames.lookup m.senderId from h]
  unfold messageToEvent
  rw [hlookup]

/-- `ListMessages` makes the event field by field as the publisher does. -/
theorem exec_fillMessage (m : Message) (s : Server) :
    ports.exec (fillMessage m) s = (messageToEvent s.clients m, s) := by
  simp only [fillMessage, Prog.perform_bind, Prog.pure_eq, Machine.exec_call]
  rfl

/-- In every state of a run, of every retained message: its text is 1 to 4096 bytes without white space
at either end and without a slash in front; its channel is stored; its sender is found, by the name that
it connected with; it was sent, and `ListMessages` makes the event of it that the publisher made then.
-/
theorem message_kept (h : Host.Reached uuid (.initial historyCap systemNow steadyNow) host)
    (hm : m ∈ host.server.messages.buffer k) :
    (1 ≤ m.content.value.length ∧ m.content.value.length ≤ 4096 ∧
      (∀ b, m.content.value.head? = some b → isspace b = false ∧ b ≠ 47) ∧
      ∀ b, m.content.value.getLast? = some b → isspace b = false) ∧
    (m.channelId = k ∧ host.server.channel m.channelId ≠ none) ∧
    (∃ name, host.server.clients.lookupUsername m.senderId = .ok name ∧
      Host.Earlier uuid (.initial historyCap systemNow steadyNow) (Connects m.senderId name) host) ∧
    Host.Earlier uuid (.initial historyCap systemNow steadyNow) (Publishes uuid m) host ∧
    ∀ before order op, Host.Reached uuid (.initial historyCap systemNow steadyNow) before →
      Publishes uuid m before order op → Host.Reached uuid (before.step uuid order op) host →
      (ports.exec (fillMessage m) host.server).1 = messageToEvent before.server.clients m := by
  obtain ⟨hown, hk, hsent⟩ := publishes_of_buffer h hm
  obtain ⟨hne, hmax, hslash, htrim⟩ := m.content.valid
  -- the sender had a session when it sent, and so a name, for ever
  have hname : ∀ before order op, Host.Reached uuid (.initial historyCap systemNow steadyNow) before →
      Publishes uuid m before order op → Host.Reached uuid (before.step uuid order op) host →
      ∃ name, before.server.nameGiven m.senderId = some name ∧
        host.server.nameGiven m.senderId = some name := by
    intro before order op hbefore hpublishes hafter
    obtain ⟨cs, hcs⟩ := Option.ne_none_iff_exists'.1 hpublishes.2.1
    have hgiven := (registered_reached hbefore).named hcs
    have hstep := hbefore.step order op
    have hkept : (before.step uuid order op).server.nameGiven m.senderId = some cs.username :=
      nameGiven_reached (.step order op .refl) (registered_reached hbefore) hgiven
    exact ⟨_, hgiven, nameGiven_reached hafter (registered_reached hstep) hkept⟩
  refine ⟨⟨List.length_pos_iff.2 hne, hmax, fun b hb => ⟨MessageContent.isspace_head htrim hb, ?_⟩,
    fun b hb => MessageContent.isspace_last htrim hb⟩, ⟨hown, by rwa [hown]⟩, ?_, hsent,
    fun before order op hbefore hpublishes hafter => ?_⟩
  · rintro rfl
    exact hslash hb
  · obtain ⟨before, order, op, hbefore, hpublishes, hafter⟩ := hsent
    obtain ⟨name, -, hgiven⟩ := hname before order op hbefore hpublishes hafter
    exact ⟨name, lookupUsername_of_nameGiven hgiven, connects_of_nameGiven h hgiven⟩
  · obtain ⟨name, hthen, hnow⟩ := hname before order op hbefore hpublishes hafter
    rw [exec_fillMessage]
    exact messageToEvent_congr (hnow.trans hthen.symm)

end

/-! Client `2` sends a message to the channel `1`, and goes. -/

def spoken : Host :=
  oneJoined.run .canonical .byId
    [.sendMessage (ascii "00000000-0000-0000-0000-000000000002")
      (ascii "00000000-0000-0000-0000-000000000001")
      (ascii " hello "), .disconnect (ascii "00000000-0000-0000-0000-000000000002")]

theorem message_kept_spoken : spoken.server.session ⟨2⟩ = none ∧ ∃ m, spoken.server.messages.buffer
    ⟨1⟩ = [m] ∧
    ∃ name, spoken.server.clients.lookupUsername m.senderId = .ok name := by
  have hlen : (spoken.server.messages.buffer ⟨1⟩).length = 1 := by decide +kernel
  obtain ⟨m, hm⟩ := List.length_eq_one_iff.1 hlen
  have hin : m ∈ spoken.server.messages.buffer ⟨1⟩ := by
    rw [hm]
    exact List.mem_singleton_self m
  obtain ⟨-, -, ⟨name, hname, -⟩, -⟩ := message_kept (Host.reached_run .byId _ oneJoined_reached) hin
  exact ⟨by decide +kernel, m, hm, name, hname⟩

end Bcmd
