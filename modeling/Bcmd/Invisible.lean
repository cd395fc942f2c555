import Bcmd.Lib.TwoRuns
import Bcmd.Requests

/-!
# The messages of a channel are invisible outside it

Two plays of one schedule, whose requests differ only in what is sent to the channel `k`. A client that
is no member of `k` gets the same responses and the same events in both. What may differ is the buffer
of `k` and what is written to the streams of others; whoever reads or writes there has been found to be
a member, or a recipient who is one.
-/

namespace Bcmd
open Server

/-- What a step does not decide: who has gone away, what time it is, and which id is drawn next. -/
structure Moment where
  cancelled : Finset StreamId
  systemNow : Int
  steadyNow : Int
  nextUuid : Nat

def Moment.set (t : Moment) (s : Server) : Server :=
  { s with cancelled := t.cancelled, systemNow := t.systemNow, steadyNow := t.steadyNow, nextUuid := t.nextUuid }

/-- Every run is a play of some schedule. -/
theorem play_of_run {ι α : Type} [DecidableEq ι] {start m : Config Server ι Call Call.Res α}
    {tr : List (Event Server ι Call Call.Res α)} (h : Run ports Env start tr m) :
    ∃ ts : List (Tick Moment ι), play ports Moment.set start ts = m := by
  induction h with
  | refl => exact ⟨[], rfl⟩
  | @env tr m s' h he ih =>
    obtain ⟨ts, rfl⟩ := ih
    let t : Tick Moment ι := ⟨⟨s'.cancelled, s'.systemNow, s'.steadyNow, s'.nextUuid⟩, none⟩
    refine ⟨ts ++ [t], ?_⟩
    rw [play_snoc, tick_of_idle fun i o (hi : none = some i) => nomatch hi]
    congr 1
    cases s'
    simp only [Moment.set, t, ← he.channels, ← he.clients, ← he.messages, ← he.publisher, ← he.channelList]
  | @step tr m i o h hn he ih =>
    obtain ⟨ts, rfl⟩ := ih
    generalize hm : play ports Moment.set start ts = m at hn he ⊢
    obtain ⟨k, hk⟩ := Prog.eq_call_of_next hn
    let t : Tick Moment ι :=
      ⟨⟨m.state.cancelled, m.state.systemNow, m.state.steadyNow, m.state.nextUuid⟩, some i⟩
    refine ⟨ts ++ [t], ?_⟩
    rw [play_snoc, hm, tick_of_call rfl hk he, Config.advance_of_call hk]
    rfl

/-! ### Servers that look alike from outside -/

/-- The servers differ at most in the buffer of `k` and in what was written to other streams than these. -/
structure Alike (k : ChannelId) (streams : Set StreamId) (s s' : Server) : Prop where
  channels : s'.channels = s.channels
  clients : s'.clients = s.clients
  channelList : s'.channelList = s.channelList
  writers : s'.publisher.writers = s.publisher.writers
  written : ∀ w ∈ streams, s'.publisher.written w = s.publisher.written w
  cap : s'.messages.cap = s.messages.cap
  buffers : ∀ k', k' ≠ k → s'.messages.buffers.lookup k' = s.messages.buffers.lookup k'

/-- And at the same moment. -/
structure AlikeNow (k : ChannelId) (streams : Set StreamId) (s s' : Server) :
    Prop extends Alike k streams s s' where
  cancelled : s'.cancelled = s.cancelled
  systemNow : s'.systemNow = s.systemNow
  steadyNow : s'.steadyNow = s.steadyNow
  nextUuid : s'.nextUuid = s.nextUuid

/-- The client is no member, and the streams are at most registered for it. -/
structure Outside (k : ChannelId) (c : ClientId) (streams : Set StreamId) (s : Server) : Prop where
  notMember : c ∉ s.members k
  own : ∀ d w, s.publisher.writers.lookup d = some w → w ∈ streams → d = c

/-- The calls that do not read the messages of the channel. -/
def ReadsOther (k : ChannelId) : Call → Prop
  | .messages (.recent k' _) | .messages (.listBefore k' _ _) => k' ≠ k
  | _ => True

/-- The calls that change nothing but the messages of the channel and the streams of others than `c`. -/
def Unnoticed (k : ChannelId) (c : ClientId) : Call → Prop
  | .channels (.findById _) | .clients (.findById _) | .clients (.lookupUsername _) | .messages (.recent _ _)
  | .messages (.listBefore _ _ _) | .newMessage _ _ _ => True
  | .messages (.save m) => m.channelId = k
  | .publisher (.publish d _) => d ≠ c
  | _ => False

section
variable {k : ChannelId} {c : ClientId} {streams : Set StreamId} {s s' : Server} {o : Call}

theorem Alike.symm (h : Alike k streams s s') : Alike k streams s' s :=
  ⟨h.channels.symm, h.clients.symm, h.channelList.symm, h.writers.symm, fun w hw =>
    (h.written w hw).symm, h.cap.symm, fun k' hk => (h.buffers k' hk).symm⟩

theorem Alike.refl (k : ChannelId) (streams : Set StreamId) (s : Server) : Alike k streams s s :=
  ⟨rfl, rfl, rfl, rfl, fun _ _ => rfl, rfl, fun _ _ => rfl⟩

theorem Alike.trans {s'' : Server} (h : Alike k streams s s') (h' : Alike k streams s' s'') :
    Alike k streams s s'' :=
  ⟨h'.channels.trans h.channels, h'.clients.trans h.clients, h'.channelList.trans h.channelList,
    h'.writers.trans h.writers, fun w hw => (h'.written w hw).trans (h.written w hw), h'.cap.trans h.cap,
    fun k' hk => (h'.buffers k' hk).trans (h.buffers k' hk)⟩

theorem Alike.outside (h : Alike k streams s s') (hs : Outside k c streams s) : Outside k c streams s' := by
  have hmembers : s'.members k = s.members k := members_congr (congrArg (·.channelsById.find k) h.channels)
  refine ⟨by rw [hmembers]; exact hs.notMember, fun d w hd => ?_⟩
  rw [h.writers] at hd
  exact hs.own d w hd

/-- The ports but these two do not look at the messages and the publisher. -/
theorem handle_withMessages (o : Call) (hm : ∀ c, o ≠ .messages c) (hp : ∀ c, o ≠ .publisher c) (s : Server)
    (messages : InMemoryMessageRepository) (publisher : GrpcClientPublisher) :
    handle o { s with messages := messages, publisher := publisher } =
      ((handle o s).1, { (handle o s).2 with messages := messages, publisher := publisher }) := by
  rcases o with (_ | _ | _ | _ | _) | (_ | _ | _ | _ | _ | _ | _ | _) | o | o | _ | _ | _
  case messages => exact absurd rfl (hm o)
  case publisher => exact absurd rfl (hp o)
  all_goals rfl

theorem AlikeNow.eq (h : AlikeNow k streams s s') :
    s' = { s with messages := s'.messages, publisher := s'.publisher } := by
  cases s'
  cases s
  simp only [Server.mk.injEq, true_and]
  exact ⟨h.channels, h.clients, h.channelList, h.cancelled, h.systemNow, h.steadyNow, h.nextUuid⟩

/-- A call that does not look at what may differ answers alike and does alike. -/
theorem AlikeNow.rest (h : AlikeNow k streams s s') (hm : ∀ c, o ≠ .messages c) (hp : ∀ c, o ≠ .publisher c) :
    (handle o s).1 = (handle o s').1 ∧ Alike k streams (handle o s).2 (handle o s').2 := by
  have hs := handle_withMessages o hm hp s s.messages s.publisher
  have hs' := handle_withMessages o hm hp s s'.messages s'.publisher
  have hmessages : (handle o s).2.messages = s.messages := congrArg (·.2.messages) hs
  have hpublisher : (handle o s).2.publisher = s.publisher := congrArg (·.2.publisher) hs
  rw [← h.eq] at hs'
  rw [hs']
  refine ⟨rfl, rfl, rfl, rfl, ?_, ?_, ?_, ?_⟩
  · rw [hpublisher]
    exact h.writers
  · rw [hpublisher]
    exact h.written
  · rw [hmessages]
    exact h.cap
  · rw [hmessages]
    exact h.buffers

/-- The publisher writes by its table and the registry, which are the same. -/
theorem Alike.publisher (h : Alike k streams s s') (c : IMessagePublisher) :
    Alike k streams (handle (.publisher c) s).2 (handle (.publisher c) s').2 := by
  have hboth : (s'.handlePublisher c).writers = (s.handlePublisher c).writers ∧
      ∀ w ∈ streams, (s'.handlePublisher c).written w = (s.handlePublisher c).written w := by
    have hwhere : ∀ (wanted : ClientId → Bool) (event : ChannelEvent), ∀ w ∈ streams,
        (s'.publisher.writeWhere wanted event).written w =
          (s.publisher.writeWhere wanted event).written w := by
      intro wanted event w hw
      unfold Subscribers.writeWhere
      simp only [h.writers, h.written w hw]
    cases c with
    | registerSubscriber c w => exact ⟨by simp [handlePublisher, h.writers], h.written⟩
    | unregisterSubscriber c => exact ⟨by simp [handlePublisher, h.writers], h.written⟩
    | publish d m =>
      unfold handlePublisher GrpcClientPublisher.publish
      rw [Subscribers.writers_writeTo, Subscribers.writers_writeTo]
      refine ⟨h.writers, fun w hw => ?_⟩
      rw [Subscribers.written_writeTo, Subscribers.written_writeTo, h.writers, h.written w hw, h.clients]
    | broadcastMemberJoined k recipients c username => exact ⟨h.writers, hwhere _ _⟩
    | broadcastMemberLeft k recipients c username => exact ⟨h.writers, hwhere _ _⟩
  exact ⟨h.channels, h.clients, h.channelList, hboth.1, hboth.2, h.cap, h.buffers⟩

/-- A message goes to the end of its channel's buffer, as long as that of `k` does not matter. -/
theorem Alike.save (h : Alike k streams s s') (m : Message) :
    Alike k streams (handle (.messages (.save m)) s).2 (handle (.messages (.save m)) s').2 := by
  refine ⟨h.channels, h.clients, h.channelList, h.writers, h.written, h.cap, fun k' hk => ?_⟩
  show (s'.messages.buffers.insert m.channelId _).lookup k' =
    (s.messages.buffers.insert m.channelId _).lookup k'
  by_cases hkm : k' = m.channelId
  · subst hkm
    rw [Finmap.lookup_insert, Finmap.lookup_insert, InMemoryMessageRepository.buffer,
      InMemoryMessageRepository.buffer, h.buffers _ hk, h.cap]
  · rw [Finmap.lookup_insert_of_ne _ hkm, Finmap.lookup_insert_of_ne _ hkm]
    exact h.buffers k' hk

/-- At the same moment, a call that does not read the channel's messages answers alike and does alike. -/
theorem AlikeNow.handle (h : AlikeNow k streams s s') (ho : ReadsOther k o) :
    (handle o s).1 = (handle o s').1 ∧ Alike k streams (handle o s).2 (handle o s').2 := by
  rcases o with o | o | (m | ⟨k', n⟩ | ⟨k', before, n⟩) | c | o | _ | _
  case messages.save => exact ⟨rfl, h.save m⟩
  case messages.recent =>
    refine ⟨?_, h.toAlike⟩
    show s.messages.recent k' n = s'.messages.recent k' n
    unfold InMemoryMessageRepository.recent
    rw [h.buffers k' ho]
  case messages.listBefore =>
    refine ⟨?_, h.toAlike⟩
    show s.messages.listBefore k' before n = s'.messages.listBefore k' before n
    unfold InMemoryMessageRepository.listBefore
    rw [h.buffers k' ho]
  case publisher => exact ⟨rfl, h.toAlike.publisher c⟩
  all_goals exact h.rest nofun nofun

/-- What goes on inside the channel. -/
theorem Outside.unnoticed (h : Outside k c streams s) (ho : Unnoticed k c o) :
    Alike k streams s (Server.handle o s).2 := by
  rcases o with (k' | _ | _ | _ | _) | (d | d | _ | _ | _ | _ | _ | _) | (m | _ | _) |
    (_ | _ | ⟨d, m⟩ | _ | _) | _ | _ | _
  case messages.save =>
    refine ⟨rfl, rfl, rfl, rfl, fun _ _ => rfl, rfl, fun k' hk => ?_⟩
    exact Finmap.lookup_insert_of_ne _ fun heq => hk (heq.trans ho)
  case publisher.publish =>
    refine ⟨rfl, rfl, rfl, Subscribers.writers_writeTo .., fun w hw => ?_, rfl, fun _ _ => rfl⟩
    refine (Subscribers.written_writeTo ..).trans (if_neg fun hd => ho (h.own d w hd hw))
  case newMessage => exact ⟨rfl, rfl, rfl, rfl, fun _ _ => rfl, rfl, fun _ _ => rfl⟩
  all_goals first | exact ho.elim | exact .refl ..

/-- So whoever only watches from outside sees the same. -/
theorem unwinding (k : ChannelId) (c : ClientId) (streams : Set StreamId) :
    Unwinding ports Moment.set (Alike k streams) (AlikeNow k streams) (Outside k c streams) (ReadsOther k)
      (Unnoticed k c) where
  symm h := h.symm
  moment _ _ h := ⟨h.notMember, h.own⟩
  same t _ _ h := ⟨⟨h.channels, h.clients, h.channelList, h.writers, h.written, h.cap, h.buffers⟩, rfl,
    rfl, rfl, rfl⟩
  alike h := h.toAlike
  ok h hs := h.outside hs
  enabled o s s' _ h := by
    rcases o with _ | _ | _ | _ | _ | _ | w
    case awaitCancelled =>
      show w ∈ s.cancelled ↔ w ∈ s'.cancelled
      rw [h.cancelled]
    all_goals exact Iff.rfl
  answer _ _ _ ho h := (h.handle ho).1
  step _ _ _ ho h := (h.handle ho).2
  unseen _ _ _ ho hs h := (hs.unnoticed ho).symm.trans h

end

/-! ### The requests -/

namespace Request

def clientId : Request → Option Bytes
  | connect _ | listChannels | expire _ => none
  | disconnect clientId | createChannel clientId _ | joinChannel clientId _ | leaveChannel clientId _
  | sendMessage clientId _ _ | listMessages clientId _ _ _ | heartbeat clientId |
    subscribeToChannel clientId _ _
  | subscribeToChannelList clientId _ => some clientId

def stream : Request → Option StreamId
  | subscribeToChannel _ _ w | subscribeToChannelList _ w => some w
  | _ => none

/-- It may be the client's: it carries the client's id, one that is none, or none at all. -/
def MayBeOf (uuid : UuidLib) (c : ClientId) (r : Request) : Prop :=
  ∀ clientId d, r.clientId = some clientId → BroadcastService.parseClient uuid clientId = some d → d = c

/-- The same request, but for the content of a message to the channel. -/
inductive SameBut (uuid : UuidLib) (k : ChannelId) : Request → Request → Prop
  | same (r : Request) : SameBut uuid k r r
  | content (clientId channelId content content' : Bytes)
      (hk : BroadcastService.parseChannel uuid channelId = some k) :
      SameBut uuid k (.sendMessage clientId channelId content) (.sendMessage clientId channelId content')

end Request

section
variable {uuid : UuidLib} {order : BucketOrder} {k : ChannelId} {c d : ClientId}
  {streams : Set StreamId} {s : Server}
  {r r' : Request}

theorem Outside.not_hasMember {ch : Channel} (h : Outside k c streams s)
    (hk : s.channels.findById k = .ok ch) :
    ¬ ch.hasMember c := by
  rw [Channel.hasMember_iff, ← members_of_channel (InMemoryChannelRepository.findById_ok.1 hk)]
  exact h.notMember

/-- A request that does not ask for the channel's history. -/
theorem twins_of_other (hr : ∀ clientId channelId before limit,
    r = .listMessages clientId channelId before limit →
    BroadcastService.parseChannel uuid channelId ≠ some k) :
    Twins ports (Outside k c streams) (ReadsOther k) (r.run uuid order) (r.run uuid order) := by
  refine .of_calls ((may_request uuid order r).mono fun o ho => ?_)
  rcases o with o | o | (m | ⟨k', n⟩ | ⟨k', before, n⟩) | o | o | _ | _
  case messages.recent =>
    obtain ⟨clientId, channelId, before, limit, hreq, hk'⟩ := ho
    rintro rfl
    exact hr clientId channelId before limit hreq hk'
  case messages.listBefore =>
    obtain ⟨clientId, channelId, before, limit, hreq, hk'⟩ := ho
    rintro rfl
    exact hr clientId channelId before limit hreq hk'
  all_goals trivial

/-- The history is refused to the client before it is read. -/
theorem twins_listMessages (cursor : Option MessageId) (limit : UInt32) :
    Twins ports (Outside k c streams) (ReadsOther k) (ListMessages.execute c k cursor limit)
      (ListMessages.execute c k cursor limit) := by
  refine .call trivial fun s hs => ?_
  show Twins ports _ _ (Prog.bind (.ret (s.channels.findById k)) _)
    (Prog.bind (.ret (s.channels.findById k)) _)
  rcases hfound : s.channels.findById k with e | ch
  · exact .ret _
  · simp only [Prog.bind]
    rw [if_pos (hs.not_hasMember hfound)]
    exact .ret _

/-- Its message is refused before the content matters. -/
theorem twins_sendMessage (content content' : Bytes) (echoPolicy : EchoPolicy) :
    Twins ports (Outside k c streams) (ReadsOther k) (SendMessage.execute order c k content echoPolicy)
      (SendMessage.execute order c k content' echoPolicy) := by
  refine .call trivial fun s _ => ?_
  show Twins ports _ _ (Prog.bind (.ret (s.clients.findById c)) _) (Prog.bind (.ret (s.clients.findById c)) _)
  rcases s.clients.findById c with e | cs
  · exact .ret _
  refine .call trivial fun s hs => ?_
  show Twins ports _ _ (Prog.bind (.ret (s.channels.findById k)) _)
    (Prog.bind (.ret (s.channels.findById k)) _)
  rcases hfound : s.channels.findById k with e | ch
  · exact .ret _
  · simp only [Prog.bind]
    rw [if_pos (hs.not_hasMember hfound), if_pos (hs.not_hasMember hfound)]
    exact .ret _

/-- Who is a member sends to members. -/
theorem unnoticed_sendMessage (d : ClientId) (content : Bytes) :
    UnseenProg ports (Outside k c streams) (Unnoticed k c)
      (SendMessage.execute order d k content .includeSender) := by
  have hpublish : ∀ m recipients, c ∉ recipients →
      UnseenProg ports (Outside k c streams) (Unnoticed k c) (SendMessage.publishEach m recipients) := by
    intro m recipients hc
    induction recipients with
    | nil => trivial
    | cons recipient recipients ih =>
      rw [List.mem_cons, not_or] at hc
      exact ⟨Ne.symm hc.1, fun _ _ => ih hc.2⟩
  refine ⟨trivial, fun s _ => ?_⟩
  show UnseenProg ports _ _ (Prog.bind (.ret (s.clients.findById d)) _)
  rcases s.clients.findById d with e | cs
  · trivial
  refine ⟨trivial, fun s hs => ?_⟩
  show UnseenProg ports _ _ (Prog.bind (.ret (s.channels.findById k)) _)
  rcases hfound : s.channels.findById k with e | ch
  · trivial
  simp only [Prog.bind]
  split
  · trivial
  rcases MessageContent.create content with e | validated
  · trivial
  refine ⟨trivial, fun s' _ => ⟨rfl, fun _ _ => ?_⟩⟩
  show UnseenProg ports _ _ (SendMessage.publishEach _
    (recipientsFor order.clients ch _ .includeSender) >>= _)
  refine .bind (hpublish _ _ fun hrecipient => ?_) fun _ => trivial
  have hmember := mem_recipientsFor_include.1 hrecipient
  exact hs.not_hasMember hfound (Channel.hasMember_iff.2 hmember)

theorem not_mayBeOf {clientId : Bytes} (hr : r.clientId = some clientId)
    (hd : BroadcastService.parseClient uuid clientId = some d) (hne : d ≠ c) : ¬ r.MayBeOf uuid c :=
  fun h => hne (h clientId d hr hd)

/-- The channel's history, asked for by the client or by another. -/
theorem paired_listMessages {clientId channelId : Bytes} (before : Bytes) (limit : UInt32)
    (hk : BroadcastService.parseChannel uuid channelId = some k) :
    Paired ports (Outside k c streams) (ReadsOther k) (Unnoticed k c)
      ((Request.listMessages clientId channelId before limit).MayBeOf uuid c)
      (BroadcastService.ListMessages uuid clientId channelId before limit)
      (BroadcastService.ListMessages uuid clientId channelId before limit) := by
  have hunseen : UnseenProg ports (Outside k c streams) (Unnoticed k c)
      (BroadcastService.ListMessages uuid clientId channelId before limit) :=
    .of_calls (calls_rpc_listMessages uuid (fun _ => trivial) (fun _ _ _ => trivial)
      (fun _ _ _ _ => trivial) (fun _ => trivial) clientId before limit)
  by_cases hd : ∃ d, BroadcastService.parseClient uuid clientId = some d ∧ d ≠ c
  · obtain ⟨d, hd, hne⟩ := hd
    exact .inr ⟨not_mayBeOf rfl hd hne, hunseen, hunseen⟩
  · left
    unfold BroadcastService.ListMessages
    rcases hc : BroadcastService.parseClient uuid clientId with _ | d
    · exact .ret _
    obtain rfl : d = c := by_contra fun hne => hd ⟨d, hc, hne⟩
    rw [hk]
    rcases BroadcastService.parseCursor uuid before with _ | cursor
    · exact .ret _
    refine (twins_listMessages cursor limit).bind fun r => ?_
    rcases r with e | page
    · exact .ret _
    · exact .of_calls (.bind (calls_fillMessages (fun _ => trivial) page.messages) fun _ => trivial)

/-- A message to the channel, sent by the client or by another. -/
theorem paired_sendMessage {clientId channelId : Bytes} (content content' : Bytes)
    (hk : BroadcastService.parseChannel uuid channelId = some k) :
    Paired ports (Outside k c streams) (ReadsOther k) (Unnoticed k c)
      ((Request.sendMessage clientId channelId content).MayBeOf uuid c)
      (BroadcastService.SendMessage uuid order clientId channelId content)
      (BroadcastService.SendMessage uuid order clientId channelId content') := by
  unfold BroadcastService.SendMessage
  rcases hd : BroadcastService.parseClient uuid clientId with _ | d
  · exact .inl (.ret _)
  rw [hk]
  by_cases hdc : d = c
  · subst hdc
    exact .inl ((twins_sendMessage (trim content) (trim content') .includeSender).bind fun r => .ret _)
  · exact .inr ⟨not_mayBeOf rfl hd hdc, (unnoticed_sendMessage d (trim content)).bind fun _ => trivial,
      (unnoticed_sendMessage d (trim content')).bind fun _ => trivial⟩

theorem Paired.respond {α β : Type} {seen : Prop} {p p' : Task α} {f : α → β}
    (h : Paired ports (Outside k c streams) (ReadsOther k) (Unnoticed k c) seen p p') :
    Paired ports (Outside k c streams) (ReadsOther k) (Unnoticed k c) seen (p >>= fun a => pure (f a))
      (p' >>= fun a => pure (f a)) :=
  h.imp (fun htwins => htwins.bind fun a => .ret (f a)) fun ⟨hseen, hp, hp'⟩ =>
    ⟨hseen, hp.bind fun _ => trivial, hp'.bind fun _ => trivial⟩

/-- The two requests of a thread: the client sees them alike, or sees neither. -/
theorem paired_requests (h : r.SameBut uuid k r') :
    Paired ports (Outside k c streams) (ReadsOther k) (Unnoticed k c) (r.MayBeOf uuid c) (r.run uuid order)
      (r'.run uuid order) := by
  cases h with
  | same =>
    by_cases hr : ∃ clientId channelId before limit, r = .listMessages clientId channelId before limit ∧
        BroadcastService.parseChannel uuid channelId = some k
    · obtain ⟨clientId, channelId, before, limit, rfl, hk⟩ := hr
      exact Paired.respond (paired_listMessages before limit hk)
    · exact .inl (twins_of_other fun clientId channelId before limit heq hk =>
        hr ⟨clientId, channelId, before, limit, heq, hk⟩)
  | content clientId channelId content content' hk =>
    exact Paired.respond (paired_sendMessage content content' hk)

end

/-! ### Two plays -/

section
variable {ι : Type} [DecidableEq ι] {uuid : UuidLib} {order : ι → BucketOrder}
  {requests requests' : ι → Request}
  {k : ChannelId} {c : ClientId} {s : Server}

/-- The streams that the client's requests open. -/
def streamsOf (uuid : UuidLib) (c : ClientId) (requests : ι → Request) : Set StreamId :=
  {w | ∃ i, (requests i).stream = some w ∧ (requests i).MayBeOf uuid c}

/-- A stream comes into the table by its registration. -/
theorem lookup_of_handle {o : Call} {d : ClientId} {w : StreamId}
    (ho : o ≠ .publisher (.registerSubscriber d w))
    (h : (handle o s).2.publisher.writers.lookup d = some w) : s.publisher.writers.lookup d = some w := by
  rcases o with _ | _ | _ | (⟨d', w'⟩ | d' | _ | _ | _) | _ | _ | _
  case publisher.registerSubscriber =>
    have h' : (s.publisher.writers.insert d' w').lookup d = some w := h
    by_cases hd : d = d'
    · subst hd
      rw [Finmap.lookup_insert] at h'
      cases h'
      exact absurd rfl ho
    · rwa [Finmap.lookup_insert_of_ne _ hd] at h'
  case publisher.unregisterSubscriber =>
    have h' : (s.publisher.writers.erase d').lookup d = some w := h
    by_cases hd : d = d'
    · subst hd
      rw [Finmap.lookup_erase] at h'
      cases h'
    · rwa [Finmap.lookup_erase_ne hd] at h'
  case publisher.publish => exact (congrArg (·.lookup d) (Subscribers.writers_writeTo ..)).symm.trans h
  case channels => rwa [handle_channels_publisher] at h
  case clients => rwa [handle_clients_publisher] at h
  case messages => rwa [handle_messages_publisher] at h
  all_goals exact h

/-- A stream that the client has opened is registered for it only. -/
theorem own_play (hstreams : ∀ i j w, (requests i).stream = some w → (requests j).stream = some w → i = j)
    (hnew : ∀ i w, (requests i).stream = some w → ∀ d, s.publisher.writers.lookup d ≠ some w)
    (ts : List (Tick Moment ι)) (d : ClientId) (w : StreamId)
    (hd : (play ports Moment.set (serving uuid order requests s) ts).state.publisher.writers.lookup
      d = some w)
    (hw : w ∈ streamsOf uuid c requests) : d = c := by
  let P : Call → Prop := fun o => ∀ d w, o = .publisher (.registerSubscriber d w) →
    w ∈ streamsOf uuid c requests → d = c
  have hcalls : ∀ i, ((serving uuid order requests s).threads i).Calls P := by
    refine fun i => (may_request uuid (order i) (requests i)).mono fun o ho => ?_
    rintro d w rfl ⟨j, hj, hmay⟩
    obtain ⟨clientId, channelId, hreq, hd⟩ := ho
    obtain rfl := hstreams i j w (by rw [hreq]; rfl) hj
    exact hmay clientId d (by rw [hreq]; rfl) hd
  let I : Server → Prop := fun s =>
    ∀ d w, s.publisher.writers.lookup d = some w → w ∈ streamsOf uuid c requests → d = c
  have hstart : I s := fun d w hd ⟨i, hi, _⟩ => absurd hd (hnew i w hi d)
  have hset : ∀ (t : Moment) s, I s → I (t.set s) := fun _ _ h => h
  refine play_inv (I := I) hstart hset hcalls ?_ ts d w hd hw
  intro o s ho h d w hd hw
  by_cases hreg : o = .publisher (.registerSubscriber d w)
  · exact ho d w hreg hw
  · exact h d w (lookup_of_handle hreg hd) hw

/-- The same requests, but for the contents of messages to `k`, played by the same schedule, with the
same ids and clock readings. A client that is never a member of `k` gets the same responses and the same
events. -/
theorem messages_invisible (hsame : ∀ i, (requests i).SameBut uuid k (requests' i))
    (hstreams : ∀ i j w, (requests i).stream = some w → (requests j).stream = some w → i = j)
    (hnew : ∀ i w, (requests i).stream = some w → ∀ d, s.publisher.writers.lookup d ≠ some w)
    (ts : List (Tick Moment ι))
    (hout : ∀ ts₁, ts₁ <+: ts →
      c ∉ (play ports Moment.set (serving uuid order requests s) ts₁).state.members k) :
    (∀ i, (requests i).MayBeOf uuid c →
      ((play ports Moment.set (serving uuid order requests s) ts).threads i).result =
        ((play ports Moment.set (serving uuid order requests' s) ts).threads i).result) ∧
      ∀ w ∈ streamsOf uuid c requests,
        (play ports Moment.set (serving uuid order requests s) ts).state.publisher.written w =
          (play ports Moment.set (serving uuid order requests' s) ts).state.publisher.written w ∧
        (play ports Moment.set (serving uuid order requests s) ts).state.channelList.written w =
          (play ports Moment.set (serving uuid order requests' s) ts).state.channelList.written w := by
  have hpaired : ∀ i, Paired ports (Outside k c (streamsOf uuid c requests)) (ReadsOther k) (Unnoticed k c)
      ((requests i).MayBeOf uuid c) ((serving uuid order requests s).threads i)
      ((serving uuid order requests' s).threads i) := fun i => paired_requests (hsame i)
  obtain ⟨hstate, hthreads⟩ := (unwinding k c (streamsOf uuid c requests)).play (.refl k _ s) hpaired ts
    fun ts₁ hpre => ⟨hout ts₁ hpre, own_play hstreams hnew ts₁⟩
  refine ⟨fun i hi => ?_, fun w hw => ⟨(hstate.written w hw).symm, ?_⟩⟩
  · rcases hthreads i with htwins | ⟨hseen, -⟩
    · exact htwins.result_eq
    · exact absurd hi hseen
  · exact congrArg (·.written w) hstate.channelList.symm

end

/-! Client `2` is in the channel `1` and sends there, client `3` is connected only and asks for its
history. -/

def sendAndAsk (content : Bytes) : Bool → Request
  | false =>
    .listMessages (ascii "00000000-0000-0000-0000-000000000003")
      (ascii "00000000-0000-0000-0000-000000000001") [] 50
  | true =>
    .sendMessage (ascii "00000000-0000-0000-0000-000000000002")
      (ascii "00000000-0000-0000-0000-000000000001") content

/-- The message is stored and written to its sender before the history is asked for. -/
def sendFirst : List (Tick Moment Bool) :=
  [true, true, true, true, true, false, false].map fun i => ⟨⟨∅, 0, 0, 4⟩, some i⟩

/-- A message that is stored, and one that is refused. -/
theorem messages_invisible_sendFirst :
    ((play ports Moment.set (serving .canonical (fun _ => .byId) (sendAndAsk (ascii "hi")) visitor.server)
      sendFirst).threads
        false).result =
      ((play ports Moment.set (serving .canonical (fun _ => .byId) (sendAndAsk (ascii "/hi")) visitor.server)
        sendFirst).threads false).result := by
  have hsame : ∀ i, (sendAndAsk (ascii "hi") i).SameBut .canonical ⟨1⟩ (sendAndAsk (ascii "/hi") i) := by
    intro i
    cases i with
    | false => exact .same _
    | true => exact .content _ _ _ _ (by decide +kernel)
  have hnone : ∀ i w, (sendAndAsk (ascii "hi") i).stream ≠ some w := by
    intro i w
    cases i <;> nofun
  have hmay : (sendAndAsk (ascii "hi") false).MayBeOf .canonical ⟨3⟩ := by
    rintro clientId d ⟨⟩ hd
    have hthree : BroadcastService.parseClient .canonical
        (ascii "00000000-0000-0000-0000-000000000003") = some ⟨3⟩ := by
      decide +kernel
    exact Option.some.inj (hd.symm.trans hthree)
  have hout : ∀ ts₁ ∈ sendFirst.inits, (⟨3⟩ : ClientId) ∉ (play ports Moment.set
      (serving .canonical (fun _ => .byId) (sendAndAsk (ascii "hi")) visitor.server) ts₁).state.members ⟨1⟩ := by
    decide +kernel
  exact (messages_invisible hsame (fun i _ w hi => absurd hi (hnone i w))
    (fun i w hi => absurd hi (hnone i w)) sendFirst
    fun ts₁ hpre => hout ts₁ ((List.mem_inits ..).2 hpre)).1 false hmay

end Bcmd
