import Bcmd.Lib.Monitor
import Bcmd.MemberEvents
import Bcmd.MessageOrder
import Bcmd.MessageRequests
import Bcmd.Published
import Bcmd.Registry
import Bcmd.Requests

/-!
# Delivery under any interleaving

All requests and sweeps at once, with streams opening and closing meanwhile. A message reaches a stream only
after its sender has saved it, once at most, and only if the stream is that of a client that was a member when
the sender read the channel; and it does reach every such stream that is there when its turn comes.
-/

namespace Bcmd
open Server

/-! ### How far a send is -/

structure Sending where
  sender : Option ClientId
  found : Option (ChannelId × Channel)
  draft : Option Message
  saved : Bool
  told : List ClientId

def Sending.none : Sending := ⟨Option.none, Option.none, Option.none, false, []⟩

/-- The request drafts one message, to the channel and with the content that it was asked to, saves it, and
then publishes it to members of the channel as it was read, to nobody twice. -/
def Sending.Allows (uuid : UuidLib) (r : Request) (q : Sending) : Call → Prop
  | .clients (.findById _) | .channels (.findById _) => q.draft = Option.none
  | .newMessage c k content => q.draft = Option.none ∧ q.sender = some c ∧
    (∃ ch, q.found = some (k, ch) ∧ c ∈ ch.members) ∧
    ∃ clientId channelId text, r = .sendMessage clientId channelId text ∧
      BroadcastService.parseClient uuid clientId = some c ∧
      BroadcastService.parseChannel uuid channelId = some k ∧ MessageContent.create (trim text) = .ok content
  | .messages (.save m) => q.draft = some m ∧ q.saved = false
  | .publisher (.publish d m) => q.draft = some m ∧ q.saved = true ∧ d ∉ q.told ∧
    ∃ k ch, q.found = some (k, ch) ∧ d ∈ ch.members
  | _ => True

def Sending.next (q : Sending) : (o : Call) → o.Res → Sending
  | .clients (.findById c), .ok _ => { q with sender := some c }
  | .channels (.findById k), .ok ch => { q with found := some (k, ch) }
  | .newMessage _ _ _, m => { q with draft := some m }
  | .messages (.save _), _ => { q with saved := true }
  | .publisher (.publish d _), _ => { q with told := q.told ++ [d] }
  | _, _ => q

def watchSend (uuid : UuidLib) (r : Request) : Monitor Call Call.Res Sending :=
  ⟨Sending.Allows uuid r, Sending.next⟩

/-- What an accepted send has done. -/
def Sending.Done (r : Request) (response : Response) (q : Sending) : Prop :=
  ∀ clientId channelId text id, r = .sendMessage clientId channelId text → response = .sent (.ok id) →
    ∃ m k ch, q.draft = some m ∧ m.id = id ∧ q.saved = true ∧ q.found = some (k, ch) ∧
      ∀ d ∈ ch.members, d ∈ q.told

section
variable {uuid : UuidLib} {r : Request}

/-- A request that is no send makes none of the calls of a send. -/
theorem obeys_other (order : BucketOrder)
    (hr : ∀ clientId channelId text, r ≠ .sendMessage clientId channelId text) :
    (watchSend uuid r).Obeys (Sending.Done r) (r.run uuid order) .none := by
  refine .of_calls (I := fun q => q.draft = Option.none) (fun q o hq ho => ?_)
    (fun a q _ clientId channelId text id hsend _ => absurd hsend (hr clientId channelId text))
    (may_request uuid order r) rfl
  have hno : (∃ clientId channelId text, r = .sendMessage clientId channelId text) → False := by
    rintro ⟨clientId, channelId, text, rfl⟩
    exact hr _ _ _ rfl
  rcases o with (k | _ | _ | _ | _) | (c | _ | _ | _ | _ | _ | _ | _) | (_ | _ | _) | (_ | _ | _ | _ | _) | _ |
    _ | _
  case channels.findById => exact ⟨hq, fun r => by cases r <;> exact hq⟩
  case clients.findById => exact ⟨hq, fun r => by cases r <;> exact hq⟩
  case messages.save => exact (hno ho).elim
  case publisher.publish => exact (hno ho).elim
  case newMessage => exact (hno ho).elim
  all_goals exact ⟨trivial, fun _ => hq⟩

/-- The recipients are told one after the other. -/
theorem obeys_publishEach {m : Message} {k : ChannelId} {ch : Channel} {q : Sending}
    {recipients : List ClientId}
    (hdraft : q.draft = some m) (hsaved : q.saved = true) (hfound : q.found = some (k, ch))
    (hmem : ∀ d ∈ recipients, d ∈ ch.members) (hnodup : recipients.Nodup)
    (hnew : ∀ d ∈ recipients, d ∉ q.told) :
    (watchSend uuid r).Obeys (fun _ q' => q' = { q with told := q.told ++ recipients })
      (SendMessage.publishEach m recipients) q := by
  induction recipients generalizing q with
  | nil =>
    show q = _
    rw [List.append_nil]
  | cons d recipients ih =>
    obtain ⟨hd, hrest⟩ := List.nodup_cons.1 hnodup
    refine ⟨⟨hdraft, hsaved, hnew d (by simp), k, ch, hfound, hmem d (by simp)⟩, fun _ => ?_⟩
    refine (ih (q := { q with told := q.told ++ [d] }) hdraft hsaved hfound (fun d' h => hmem d' (by simp [h]))
      hrest fun d' hd' => ?_).mono fun _ q' hq' => ?_
    · have hne : d' ≠ d := by
        rintro rfl
        exact hd hd'
      simp [hnew d' (by simp [hd']), hne]
    · rw [hq']
      simp

/-- The use case, for the ids that the request names. -/
theorem obeys_execute (order : BucketOrder) {clientId channelId text : Bytes} {c : ClientId} {k : ChannelId}
    (hr : r = .sendMessage clientId channelId text) (hc : BroadcastService.parseClient uuid clientId = some c)
    (hk : BroadcastService.parseChannel uuid channelId = some k) :
    (watchSend uuid r).Obeys (fun a q => Sending.Done r (.sent (toReply a)) q)
      (SendMessage.execute order c k (trim text) .includeSender) .none := by
  have hrefused : ∀ (e : Error) (q : Sending), Sending.Done r (.sent (toReply (.error e))) q := by
    intro e q _ _ _ id _ h
    cases h
  simp only [SendMessage.execute, Prog.perform_bind]
  refine ⟨rfl, fun session => ?_⟩
  rcases session with e | session
  · exact hrefused _ _
  refine ⟨rfl, fun found => ?_⟩
  rcases found with e | ch
  · exact hrefused _ _
  dsimp only
  by_cases hmem : c ∈ ch.members
  swap
  · rw [if_pos (by simpa [Channel.hasMember] using hmem)]
    exact hrefused _ _
  rw [if_neg (by simpa [Channel.hasMember] using hmem)]
  rcases hcontent : MessageContent.create (trim text) with e | content
  · exact hrefused _ _
  refine ⟨⟨rfl, rfl, ⟨ch, rfl, hmem⟩, clientId, channelId, text, hr, hc, hk, hcontent⟩, fun m => ?_⟩
  refine ⟨⟨rfl, rfl⟩, fun saved => ?_⟩
  rcases saved with e | _
  · exact hrefused _ _
  have hrecipients : ∀ d, d ∈ recipientsFor order.clients ch m .includeSender ↔ d ∈ ch.members := by
    intro d
    simp [recipientsFor, IterOrder.mem_enum]
  have hnodup : (recipientsFor order.clients ch m .includeSender).Nodup :=
    (order.clients.nodup_enum ch.members).filter _
  have hpublish : (watchSend uuid r).Obeys _ _ ⟨some c, some (k, ch), some m, true, []⟩ := obeys_publishEach
    rfl rfl rfl (fun d hd => (hrecipients d).1 hd) hnodup (by simp)
  refine hpublish.bind fun _ q hq => ?_
  intro _ _ _ id _ hid
  cases hid
  subst hq
  exact ⟨m, k, ch, rfl, rfl, rfl, rfl, fun d hd => by simpa using (hrecipients d).2 hd⟩

theorem obeys_send (order : BucketOrder) (clientId channelId text : Bytes) :
    (watchSend uuid (.sendMessage clientId channelId text)).Obeys
      (Sending.Done (.sendMessage clientId channelId text))
      ((Request.sendMessage clientId channelId text).run uuid order) .none := by
  have hrefused : ∀ (e : Status) (q : Sending),
      Sending.Done (.sendMessage clientId channelId text) (.sent (.error e)) q := by
    intro e q _ _ _ id _ h
    cases h
  simp only [Request.run, BroadcastService.SendMessage]
  rcases hc : BroadcastService.parseClient uuid clientId with _ | c
  · exact hrefused _ _
  rcases hk : BroadcastService.parseChannel uuid channelId with _ | k
  · exact hrefused _ _
  refine Monitor.Obeys.bind
    (Q := fun reply q => Sending.Done (.sendMessage clientId channelId text) (.sent reply) q)
    (.bind (obeys_execute order rfl hc hk) fun a q h => h) fun a q h => h

theorem obeys_request (order : BucketOrder) (r : Request) :
    (watchSend uuid r).Obeys (Sending.Done r) (r.run uuid order) .none := by
  by_cases hr : ∃ clientId channelId text, r = .sendMessage clientId channelId text
  · obtain ⟨clientId, channelId, text, rfl⟩ := hr
    exact obeys_send order clientId channelId text
  · exact obeys_other order fun clientId channelId text h => hr ⟨clientId, channelId, text, h⟩

end

/-! ### One thread of a run -/

namespace Sending
variable {q : Sending} {o : Call} {s : Server} {d : ClientId} {m : Message} {f : ChannelId × Channel}

theorem next_cases (q : Sending) (o : Call) (s : Server) : q.next o (handle o s).1 = q ∨
    (∃ c, o = .clients (.findById c) ∧ s.session c ≠ Option.none ∧
      q.next o (handle o s).1 = { q with sender := some c }) ∨
    (∃ k ch, o = .channels (.findById k) ∧ s.channel k = some ch ∧
      q.next o (handle o s).1 = { q with found := some (k, ch) }) ∨
    (∃ c k content, o = .newMessage c k content ∧
      q.next o (handle o s).1 = { q with draft := some (s.drafted c k content) }) ∨
    (∃ m, o = .messages (.save m) ∧ q.next o (handle o s).1 = { q with saved := true }) ∨
    ∃ d m, o = .publisher (.publish d m) ∧ q.next o (handle o s).1 = { q with told := q.told ++ [d] } := by
  rcases o with (k | _ | _ | _ | _) | (c | _ | _ | _ | _ | _ | _ | _) | (m | _ | _) | (_ | _ | ⟨d, m⟩ | _ | _) |
    (_ | _ | _ | _) | ⟨c, k, content⟩ | _
  case channels.findById =>
    rcases hr : s.channels.findById k with e | ch
    · left
      simp only [handle, handleChannels, hr]
      rfl
    · refine .inr (.inr (.inl ⟨k, ch, rfl, InMemoryChannelRepository.findById_ok.1 hr, ?_⟩))
      simp only [handle, handleChannels, hr]
      rfl
  case clients.findById =>
    rcases hr : s.clients.findById c with e | cs
    · left
      simp only [handle, handleClients, hr]
      rfl
    · refine .inr (.inl ⟨c, rfl, ?_, ?_⟩)
      · rw [InMemoryClientRegistry.findById_ok] at hr
        simp [session, hr]
      · simp only [handle, handleClients, hr]
        rfl
  case newMessage => exact .inr (.inr (.inr (.inl ⟨c, k, content, rfl, rfl⟩)))
  case messages.save => exact .inr (.inr (.inr (.inr (.inl ⟨m, rfl, rfl⟩))))
  case publisher.publish => exact .inr (.inr (.inr (.inr (.inr ⟨d, m, rfl, rfl⟩))))
  all_goals exact .inl rfl

/-- Once there is a draft, the draft and what was found stay as they are. -/
theorem keeps {uuid : UuidLib} {request : Request} (hallows : q.Allows uuid request o) (h : q.draft = some m) :
    (q.next o (handle o s).1).draft = some m ∧ (q.next o (handle o s).1).found = q.found := by
  have hdraft : ¬ q.draft = Option.none := by simp [h]
  rcases next_cases q o s with hn | ⟨c, rfl, -⟩ | ⟨k, ch, rfl, -⟩ | ⟨c, k, content, rfl, -⟩ | ⟨m, rfl, hn⟩ |
    ⟨d, m, rfl, hn⟩
  · simp [hn, h]
  · exact absurd hallows hdraft
  · exact absurd hallows hdraft
  · exact absurd hallows.1 hdraft
  · simp [hn, h]
  · simp [hn, h]

theorem told_keeps (h : d ∈ q.told) : d ∈ (q.next o (handle o s).1).told := by
  rcases next_cases q o s with hn | ⟨c, -, -, hn⟩ | ⟨k, ch, -, -, hn⟩ | ⟨c, k, content, -, hn⟩ | ⟨m, -, hn⟩ |
    ⟨d, m, -, hn⟩ <;> simp [hn, h]

end Sending

section
variable {ι : Type} [DecidableEq ι] {uuid : UuidLib} {order : ι → BucketOrder} {requests : ι → Request}
  {s : Server} {tr tr₁ tr₂ : List (Event Server ι Call Call.Res Response)}
  {e : Event Server ι Call Call.Res Response} {c : Config Server ι Call Call.Res Response} {i j : ι}
  {m m' : Message} {d : ClientId} {w : StreamId} {k : ChannelId} {ch : Channel}

/-- How far the request is after the trace. -/
def sendingAt (uuid : UuidLib) (requests : ι → Request) (i : ι)
    (tr : List (Event Server ι Call Call.Res Response)) : Sending :=
  (watchSend uuid (requests i)).after ports i .none tr

theorem sending_allows (h : Run ports Env (serving uuid order requests s) (tr₁ ++ e :: tr₂) c)
    (he : e.thread = i) : (sendingAt uuid requests i tr₁).Allows uuid (requests i) e.call :=
  Monitor.allowed h (obeys_request (order i) (requests i)) he

/-- Request `i` was to send `m`, read the channel in the event `look`, with the sender among its members, and
drafted `m` with the next free id. -/
structure Drafts (uuid : UuidLib) (requests : ι → Request)
    (tr : List (Event Server ι Call Call.Res Response)) (i : ι) (m : Message)
    (look : Event Server ι Call Call.Res Response) : Prop where
  request : ∃ clientId channelId text, requests i = .sendMessage clientId channelId text ∧
    BroadcastService.parseClient uuid clientId = some m.senderId ∧
    BroadcastService.parseChannel uuid channelId = some m.channelId ∧
    MessageContent.create (trim text) = .ok m.content
  looked : look ∈ tr ∧ look.thread = i ∧ look.call = .channels (.findById m.channelId)
  sender : m.senderId ∈ look.pre.state.members m.channelId
  session : ∃ e ∈ tr, e.pre.state.session m.senderId ≠ none
  drafted : ∃ e ∈ tr, e.thread = i ∧ ∃ c k content, e.call = .newMessage c k content ∧
    m = e.pre.state.drafted c k content

theorem found_of (h : (sendingAt uuid requests i tr).found = some (k, ch)) :
    ∃ look ∈ tr, look.thread = i ∧ look.call = .channels (.findById k) ∧
      look.pre.state.channel k = some ch := by
  obtain ⟨tr₁, e, tr₂, rfl, he, hno, hyes⟩ :=
    Monitor.after_becomes (P := fun q : Sending => q.found = some (k, ch)) (by simp [Sending.none]) h
  rcases Sending.next_cases (sendingAt uuid requests i tr₁) e.call e.pre.state with hn | ⟨c, -, -, hn⟩ |
    ⟨k', ch', hcall, hch, hn⟩ | ⟨c, k, content, -, hn⟩ | ⟨m', -, hn⟩ | ⟨d, m', -, hn⟩
  case inr.inr.inl =>
    obtain ⟨rfl, rfl⟩ := Prod.mk.inj (Option.some.inj ((congrArg Sending.found hn).symm.trans hyes))
    exact ⟨e, by simp, he, hcall, hch⟩
  all_goals exact absurd ((congrArg Sending.found hn).symm.trans hyes) hno

theorem sender_of (h : (sendingAt uuid requests i tr).sender = some d) :
    ∃ e ∈ tr, e.pre.state.session d ≠ none := by
  obtain ⟨tr₁, e, tr₂, rfl, he, hno, hyes⟩ :=
    Monitor.after_becomes (P := fun q : Sending => q.sender = some d) (by simp [Sending.none]) h
  rcases Sending.next_cases (sendingAt uuid requests i tr₁) e.call e.pre.state with hn | ⟨c, -, hc, hn⟩ |
    ⟨k, ch, -, -, hn⟩ | ⟨c, k, content, -, hn⟩ | ⟨m', -, hn⟩ | ⟨d, m', -, hn⟩
  case inr.inl =>
    obtain rfl := Option.some.inj ((congrArg Sending.sender hn).symm.trans hyes)
    exact ⟨e, by simp, hc⟩
  all_goals exact absurd ((congrArg Sending.sender hn).symm.trans hyes) hno

theorem draft_stays (h : Run ports Env (serving uuid order requests s) (tr₁ ++ tr₂) c)
    (hm : (sendingAt uuid requests i tr₁).draft = some m) :
    (sendingAt uuid requests i (tr₁ ++ tr₂)).draft = some m ∧
      (sendingAt uuid requests i (tr₁ ++ tr₂)).found = (sendingAt uuid requests i tr₁).found := by
  refine Monitor.after_stays (P := fun q : Sending => q.draft = some m ∧
    q.found = (sendingAt uuid requests i tr₁).found) (fun q o s hallows hq => ?_) h
    (obeys_request (order i) (requests i)) ⟨hm, rfl⟩
  obtain ⟨hdraft, hfound⟩ := Sending.keeps (s := s) hallows hq.1
  exact ⟨hdraft, hfound.trans hq.2⟩

theorem told_stays (h : Run ports Env (serving uuid order requests s) (tr₁ ++ tr₂) c)
    (hd : d ∈ (sendingAt uuid requests i tr₁).told) : d ∈ (sendingAt uuid requests i (tr₁ ++ tr₂)).told :=
  Monitor.after_stays (P := fun q : Sending => d ∈ q.told) (fun _ _ _ _ hq => Sending.told_keeps hq) h
    (obeys_request (order i) (requests i)) hd

/-- All about a draft, wherever the request is by now. -/
theorem drafts_of (h : Run ports Env (serving uuid order requests s) tr c)
    (hm : (sendingAt uuid requests i tr).draft = some m) : ∃ look, Drafts uuid requests tr i m look ∧
      ∃ ch, (sendingAt uuid requests i tr).found = some (m.channelId, ch) ∧
        look.pre.state.channel m.channelId = some ch := by
  obtain ⟨tr₁, e, tr₂, rfl, he, hno, hyes⟩ :=
    Monitor.after_becomes (P := fun q : Sending => q.draft = some m) (by simp [Sending.none]) hm
  have hallows := sending_allows h he
  rcases Sending.next_cases (sendingAt uuid requests i tr₁) e.call e.pre.state with hn | ⟨c, -, -, hn⟩ |
    ⟨k, ch, -, -, hn⟩ | ⟨c, k, content, hcall, hn⟩ | ⟨m', -, hn⟩ | ⟨d, m', -, hn⟩
  case inr.inr.inr.inl =>
    obtain rfl := Option.some.inj ((congrArg Sending.draft hn).symm.trans hyes)
    -- the call was allowed, so the session and the channel had been found
    rw [hcall] at hallows
    obtain ⟨-, hsender, ⟨ch, hfound, hmem⟩, hrequest⟩ := hallows
    obtain ⟨look, hlook, hthread, hlookCall, hch⟩ := found_of hfound
    obtain ⟨known, hknown, hsession⟩ := sender_of hsender
    have hafter : sendingAt uuid requests i (tr₁ ++ [e]) =
        { sendingAt uuid requests i tr₁ with draft := some (e.pre.state.drafted c k content) } :=
      (Monitor.after_self he).trans hn
    rw [← List.singleton_append, ← List.append_assoc] at h ⊢
    have hstays := draft_stays h (i := i) (congrArg Sending.draft hafter)
    refine ⟨look, ⟨hrequest, ⟨by simp [hlook], hthread, hlookCall⟩, ?_, ⟨known, by simp [hknown], hsession⟩,
      e, by simp, he, c, k, content, hcall, rfl⟩, ch, ?_, hch⟩
    · show c ∈ look.pre.state.members k
      rw [members_of_channel hch]
      exact hmem
    · rw [hstays.2, hafter]
      exact hfound
  all_goals exact absurd ((congrArg Sending.draft hn).symm.trans hyes) hno

theorem saves_of (h : Run ports Env (serving uuid order requests s) tr c)
    (hm : (sendingAt uuid requests i tr).draft = some m)
    (hsaved : (sendingAt uuid requests i tr).saved = true) :
    ∃ e ∈ tr, e.thread = i ∧ e.call = .messages (.save m) := by
  obtain ⟨tr₁, e, tr₂, rfl, he, hno, hyes⟩ :=
    Monitor.after_becomes (P := fun q : Sending => q.saved = true) (by simp [Sending.none]) hsaved
  have hallows := sending_allows h he
  rcases Sending.next_cases (sendingAt uuid requests i tr₁) e.call e.pre.state with hn | ⟨c, -, -, hn⟩ |
    ⟨k, ch, -, -, hn⟩ | ⟨c, k, content, hcall, hn⟩ | ⟨m', hcall, hn⟩ | ⟨d, m', -, hn⟩
  case inr.inr.inr.inr.inl =>
    rw [hcall] at hallows
    obtain rfl := Option.some.inj ((draft_stays h hallows.1).1.symm.trans hm)
    exact ⟨e, by simp, he, hcall⟩
  all_goals exact absurd ((congrArg Sending.saved hn).symm.trans hyes) hno

theorem publishes_of (h : Run ports Env (serving uuid order requests s) tr c)
    (hm : (sendingAt uuid requests i tr).draft = some m) (hd : d ∈ (sendingAt uuid requests i tr).told) :
    ∃ e ∈ tr, e.thread = i ∧ e.call = .publisher (.publish d m) := by
  obtain ⟨tr₁, e, tr₂, rfl, he, hno, hyes⟩ :=
    Monitor.after_becomes (P := fun q : Sending => d ∈ q.told) (by simp [Sending.none]) hd
  have hallows := sending_allows h he
  change d ∈ ((sendingAt uuid requests i tr₁).next e.call (handle e.call e.pre.state).1).told at hyes
  rcases Sending.next_cases (sendingAt uuid requests i tr₁) e.call e.pre.state with hn | ⟨c, -, -, hn⟩ |
    ⟨k, ch, -, -, hn⟩ | ⟨c, k, content, hcall, hn⟩ | ⟨m', hcall, hn⟩ | ⟨d', m', hcall, hn⟩
  case inr.inr.inr.inr.inr =>
    rw [hcall] at hallows
    obtain rfl := Option.some.inj ((draft_stays h hallows.1).1.symm.trans hm)
    rw [hn] at hyes
    rcases List.mem_append.1 hyes with htold | htold
    · exact absurd htold hno
    · obtain rfl := List.mem_singleton.1 htold
      exact ⟨e, by simp, he, hcall⟩
  all_goals
    rw [hn] at hyes
    exact absurd hyes hno

/-! ### No two drafts have one id -/

theorem nextUuid_run {start : Config Server ι Call Call.Res Response} (h : Run ports Env start tr c) :
    start.state.nextUuid ≤ c.state.nextUuid :=
  h.state_inv (I := fun s' => start.state.nextUuid ≤ s'.nextUuid) (le_refl _)
    (fun _ _ hle he => hle.trans he.nextUuid) fun _ _ hle _ => hle.trans (nextUuid_handle ..)

/-- After an id has been drawn, the next one is greater. -/
theorem drawn_before {start : Config Server ι Call Call.Res Response}
    {e' : Event Server ι Call Call.Res Response} (h : Run ports Env start (tr₁ ++ e :: tr₂) c)
    (he : e.pre.state.nextUuid < (handle e.call e.pre.state).2.nextUuid) (he' : e' ∈ tr₂) :
    e.pre.state.nextUuid < e'.pre.state.nextUuid := by
  obtain ⟨tr₃, tr₄, rfl⟩ := List.append_of_mem he'
  obtain ⟨-, hn, -, hrest⟩ := h.at_event
  have hle := nextUuid_run hrest.at_event.1
  rw [Config.advance_state hn] at hle
  exact he.trans_le hle

theorem earlier_or_later {α : Type} {a b : α} {l : List α} (ha : a ∈ l) (hb : b ∈ l) (hne : a ≠ b) :
    (∃ l₁ l₂, l = l₁ ++ a :: l₂ ∧ b ∈ l₂) ∨ ∃ l₁ l₂, l = l₁ ++ b :: l₂ ∧ a ∈ l₂ := by
  obtain ⟨l₁, l₂, rfl⟩ := List.append_of_mem ha
  rcases List.mem_append.1 hb with hbefore | hafter
  · obtain ⟨l₃, l₄, rfl⟩ := List.append_of_mem hbefore
    exact .inr ⟨l₃, l₄ ++ a :: l₂, by simp, by simp⟩
  · exact .inl ⟨l₁, l₂, rfl, (List.mem_cons.1 hafter).resolve_left (Ne.symm hne)⟩

/-- No id is drawn twice. -/
theorem draws_once {e' : Event Server ι Call Call.Res Response}
    (h : Run ports Env (serving uuid order requests s) tr c) (he : e ∈ tr) (he' : e' ∈ tr)
    (hdraws : e.pre.state.nextUuid < (handle e.call e.pre.state).2.nextUuid)
    (hdraws' : e'.pre.state.nextUuid < (handle e'.call e'.pre.state).2.nextUuid)
    (hsame : e.pre.state.nextUuid = e'.pre.state.nextUuid) : e = e' := by
  by_contra hne
  rcases earlier_or_later he he' hne with ⟨tr₁, tr₂, rfl, hlater⟩ | ⟨tr₁, tr₂, rfl, hlater⟩
  · have hlt := drawn_before h hdraws hlater
    omega
  · have hlt := drawn_before h hdraws' hlater
    omega

/-- Two threads that have each drafted a message have drafted two. -/
theorem drafts_differ (h : Run ports Env (serving uuid order requests s) tr c)
    (hm : (sendingAt uuid requests i tr).draft = some m) (hm' : (sendingAt uuid requests j tr).draft = some m')
    (hid : m.id = m'.id) : i = j ∧ m = m' := by
  have hij : i = j := by
    obtain ⟨-, ⟨-, -, -, -, e, he, rfl, c₁, k₁, x₁, hcall, rfl⟩, -⟩ := drafts_of h hm
    obtain ⟨-, ⟨-, -, -, -, e', he', rfl, c₂, k₂, x₂, hcall', rfl⟩, -⟩ := drafts_of h hm'
    obtain rfl := draws_once h he he' (by rw [hcall]; exact Nat.lt_succ_self _)
      (by rw [hcall']; exact Nat.lt_succ_self _) (congrArg StrongId.value hid)
    rfl
  subst hij
  exact ⟨rfl, Option.some.inj (hm.symm.trans hm')⟩

end

/-! ### What is on a stream -/

def ChannelEvent.message? : ChannelEvent → Option MessageEvent
  | message m => some m
  | _ => none

/-- The messages that were written to the stream, in order. -/
def Server.messagesOn (s : Server) (w : StreamId) : List MessageEvent :=
  (s.publisher.written w).filterMap ChannelEvent.message?

/-- The message that the call writes to the stream. -/
def Server.arrival (s : Server) (w : StreamId) : Call → Option Message
  | .publisher (.publish d m) => if s.publisher.writers.lookup d = some w then some m else none
  | _ => none

section
variable {s : Server} {o : Call} {d : ClientId} {m : Message} {w : StreamId}

theorem arrival_eq_some : s.arrival w o = some m ↔
    ∃ d, o = .publisher (.publish d m) ∧ s.publisher.writers.lookup d = some w := by
  rcases o with (_ | _ | _ | _ | _) | (_ | _ | _ | _ | _ | _ | _ | _) | (_ | _ | _) |
    (_ | _ | ⟨d, m'⟩ | _ | _) | (_ | _ | _ | _) | _ | _
  case publisher.publish =>
    simp only [arrival, Call.publisher.injEq, IMessagePublisher.publish.injEq]
    constructor
    · intro h
      split at h
      · cases h
        exact ⟨d, ⟨rfl, rfl⟩, ‹_›⟩
      · cases h
    · rintro ⟨_, ⟨rfl, rfl⟩, hw⟩
      rw [if_pos hw]
  all_goals simp [arrival]

/-- Only a message that is published adds to the messages on a stream. -/
theorem messagesOn_handle (o : Call) (s : Server) (w : StreamId) : (handle o s).2.messagesOn w =
    s.messagesOn w ++ ((s.arrival w o).map (messageToEvent s.clients)).toList := by
  have hbroadcast : ∀ (wanted : ClientId → Bool) (event : ChannelEvent), event.message? = none →
      ((s.publisher.writeWhere wanted event).written w).filterMap ChannelEvent.message? = s.messagesOn w := by
    intro wanted event hno
    simp [Subscribers.writeWhere, messagesOn, List.filterMap_append, hno]
  by_cases hp : ∃ o', o = .publisher o'
  swap
  · have hsame := publisher_handle s (o := o) fun o' ho => hp ⟨o', ho⟩
    have hnone : s.arrival w o = none := by
      rcases harrival : s.arrival w o with _ | m
      · rfl
      · obtain ⟨d, rfl, -⟩ := arrival_eq_some.1 harrival
        exact absurd ⟨_, rfl⟩ hp
    rw [messagesOn, hsame, hnone]
    simp [messagesOn]
  obtain ⟨o, rfl⟩ := hp
  rcases o with ⟨d, v⟩ | d | ⟨d, m⟩ | ⟨k, recipients, d, name⟩ | ⟨k, recipients, d, name⟩
  case publish =>
    show ((s.publisher.writeTo d (.message (messageToEvent s.clients m))).written w).filterMap _ = _
    rw [Subscribers.written_writeTo]
    by_cases hw : s.publisher.writers.lookup d = some w
    · simp [arrival, hw, messagesOn, ChannelEvent.message?]
    · simp [arrival, hw, messagesOn]
  case broadcastMemberJoined => exact (hbroadcast _ _ rfl).trans (List.append_nil _).symm
  case broadcastMemberLeft => exact (hbroadcast _ _ rfl).trans (List.append_nil _).symm
  all_goals exact (List.append_nil _).symm

theorem lookup_handle (h : (handle o s).2.publisher.writers.lookup d = some w) :
    s.publisher.writers.lookup d = some w ∨ o = .publisher (.registerSubscriber d w) := by
  by_cases hp : ∃ o', o = .publisher o'
  swap
  · rw [publisher_handle s (o := o) fun o' ho => hp ⟨o', ho⟩] at h
    exact .inl h
  obtain ⟨o, rfl⟩ := hp
  rcases o with ⟨d', v⟩ | d' | ⟨d', m⟩ | ⟨k, recipients, d', name⟩ | ⟨k, recipients, d', name⟩
  case registerSubscriber =>
    change (s.publisher.writers.insert d' v).lookup d = some w at h
    by_cases hd : d = d'
    · subst hd
      rw [Finmap.lookup_insert] at h
      cases h
      exact .inr rfl
    · rw [Finmap.lookup_insert_of_ne _ hd] at h
      exact .inl h
  case unregisterSubscriber =>
    change (s.publisher.writers.erase d').lookup d = some w at h
    by_cases hd : d = d'
    · subst hd
      rw [Finmap.lookup_erase] at h
      cases h
    · rw [Finmap.lookup_erase_ne hd] at h
      exact .inl h
  case publish =>
    change (s.publisher.writeTo d' _).writers.lookup d = some w at h
    rw [Subscribers.writers_writeTo] at h
    exact .inl h
  all_goals exact .inl h

end

/-! ### Whose streams -/

section
variable {ι : Type} {uuid : UuidLib} {requests : ι → Request} {host : Host}

/-- The stream is the client's from the start, or a request of the client opens it. -/
def StreamOf (uuid : UuidLib) (requests : ι → Request) (s : Server) (d : ClientId) (w : StreamId) : Prop :=
  s.publisher.writers.lookup d = some w ∨ ∃ i clientId channelId,
    requests i = .subscribeToChannel clientId channelId w ∧ BroadcastService.parseClient uuid clientId = some d

/-- Each request for a stream comes with a new one. -/
def NewStreams (requests : ι → Request) (s : Server) : Prop :=
  ∀ i clientId channelId w, requests i = .subscribeToChannel clientId channelId w →
    (∀ d, s.publisher.writers.lookup d ≠ some w) ∧
      ∀ j clientId' channelId', requests j = .subscribeToChannel clientId' channelId' w → j = i

theorem streamOf_unique (hown : host.OwnStreams) (hnew : NewStreams requests host.server) {d d' : ClientId}
    {w : StreamId} (h : StreamOf uuid requests host.server d w)
    (h' : StreamOf uuid requests host.server d' w) : d = d' := by
  rcases h with h | ⟨i, clientId, channelId, hi, hd⟩ <;>
    rcases h' with h' | ⟨j, clientId', channelId', hj, hd'⟩
  · exact (hown d' w h').2 d h
  · exact absurd h ((hnew j _ _ w hj).1 d)
  · exact absurd h' ((hnew i _ _ w hi).1 d')
  · obtain rfl := (hnew i _ _ w hi).2 j _ _ hj
    rw [hi] at hj
    cases hj
    exact Option.some.inj (hd.symm.trans hd')

end

section
variable {ι : Type} [DecidableEq ι] {uuid : UuidLib} {order : ι → BucketOrder} {requests : ι → Request}
  {s : Server} {tr tr₁ tr₂ : List (Event Server ι Call Call.Res Response)}
  {e : Event Server ι Call Call.Res Response} {c : Config Server ι Call Call.Res Response} {i : ι}
  {m : Message} {d : ClientId} {w : StreamId}

theorem streamOf_run (h : Run ports Env (serving uuid order requests s) tr c)
    (hw : c.state.publisher.writers.lookup d = some w) : StreamOf uuid requests s d w := by
  have hinv : ∀ d w, c.state.publisher.writers.lookup d = some w → StreamOf uuid requests s d w := by
    refine h.state_inv
      (I := fun s' => ∀ d w, s'.publisher.writers.lookup d = some w → StreamOf uuid requests s d w)
      (fun d w hw => .inl hw) (fun s' s'' hold he d w hw => hold d w ?_) fun e he hold _ d w hw => ?_
    · rw [← he.publisher]
      exact hw
    · rcases lookup_handle hw with hw | hcall
      · exact hold d w hw
      · have hmay := (h.calls (may_request uuid (order e.thread) (requests e.thread))).2 e he rfl
        rw [hcall] at hmay
        obtain ⟨clientId, channelId, hrequest, hd⟩ := hmay
        exact .inr ⟨e.thread, clientId, channelId, hrequest, hd⟩
  exact hinv d w hw

/-- The messages that the calls of the run write to the stream, in order. -/
def arrivals (w : StreamId) (tr : List (Event Server ι Call Call.Res Response)) : List Message :=
  tr.filterMap fun e => e.pre.state.arrival w e.call

omit [DecidableEq ι] in
theorem mem_arrivals : m ∈ arrivals w tr ↔ ∃ e ∈ tr, ∃ d, e.call = .publisher (.publish d m) ∧
    e.pre.state.publisher.writers.lookup d = some w := by
  simp only [arrivals, List.mem_filterMap, arrival_eq_some]

omit [DecidableEq ι] in
theorem arrivals_snoc : arrivals w (tr ++ [e]) = arrivals w tr ++ (e.pre.state.arrival w e.call).toList := by
  unfold arrivals
  rw [List.filterMap_append]
  rcases he : e.pre.state.arrival w e.call with _ | m <;> simp [he]

/-- What a thread is about to publish, and what is known of it. -/
theorem publish_of (h : Run ports Env (serving uuid order requests s) (tr₁ ++ e :: tr₂) c)
    (he : e.call = .publisher (.publish d m)) :
    (sendingAt uuid requests e.thread tr₁).draft = some m ∧
      (sendingAt uuid requests e.thread tr₁).saved = true ∧ d ∉ (sendingAt uuid requests e.thread tr₁).told ∧
      ∃ k ch, (sendingAt uuid requests e.thread tr₁).found = some (k, ch) ∧ d ∈ ch.members := by
  have hallows := sending_allows h rfl
  rw [he] at hallows
  exact hallows

theorem told_after (h : Run ports Env (serving uuid order requests s) (tr₁ ++ e :: tr₂) c)
    (he : e.call = .publisher (.publish d m)) :
    d ∈ (sendingAt uuid requests e.thread (tr₁ ++ e :: tr₂)).told := by
  rw [← List.singleton_append, ← List.append_assoc] at h ⊢
  refine told_stays h ?_
  have hself : sendingAt uuid requests e.thread (tr₁ ++ [e]) =
      (sendingAt uuid requests e.thread tr₁).next e.call (handle e.call e.pre.state).1 := Monitor.after_self rfl
  rw [hself]
  rcases e with ⟨pre, thread, call⟩
  cases he
  simp [Sending.next]

theorem messageToEvent_of_named {s s' : Server} {name : Username} (h : s.nameGiven m.senderId = some name)
    (h' : s'.nameGiven m.senderId = some name) : messageToEvent s.clients m = messageToEvent s'.clients m := by
  unfold messageToEvent
  rw [lookupUsername_of_nameGiven h, lookupUsername_of_nameGiven h']

/-- Who has drafted a message has a name, and keeps it. -/
theorem named_of_draft (hs : s.Registered) (h : Run ports Env (serving uuid order requests s) tr c)
    (hm : (sendingAt uuid requests i tr).draft = some m) :
    ∃ name, c.state.nameGiven m.senderId = some name := by
  obtain ⟨-, ⟨-, -, -, ⟨e, he, hsession⟩, -⟩, -⟩ := drafts_of h hm
  obtain ⟨tr₁, tr₂, rfl⟩ := List.append_of_mem he
  obtain ⟨h1, hn, hen, h2⟩ := h.at_event
  obtain ⟨session, hsession⟩ := Option.ne_none_iff_exists'.1 hsession
  have hregistered := registered_run h1 hs
  exact ⟨_, nameGiven_run ((Run.refl.step hn hen).trans h2) hregistered (hregistered.named hsession)⟩

/-- The messages that are on a stream are those that were written to it, as they would be shown now. -/
theorem messagesOn_run (hs : s.Registered) (h : Run ports Env (serving uuid order requests s) tr c)
    (w : StreamId) :
    c.state.messagesOn w = s.messagesOn w ++ (arrivals w tr).map (messageToEvent c.state.clients) := by
  have hinv : c.state.Registered ∧ (∀ m ∈ arrivals w tr, ∃ name, c.state.nameGiven m.senderId = some name) ∧
      c.state.messagesOn w = s.messagesOn w ++ (arrivals w tr).map (messageToEvent c.state.clients) := by
    refine h.trace_inv (I := fun tr m => m.state.Registered ∧
      (∀ a ∈ arrivals w tr, ∃ name, m.state.nameGiven a.senderId = some name) ∧
      m.state.messagesOn w = s.messagesOn w ++ (arrivals w tr).map (messageToEvent m.state.clients))
      ⟨hs, by simp [arrivals], by simp [arrivals, serving]⟩ ?_ ?_
    · rintro tr m s' - ⟨hregistered, hnamed, hon⟩ he
      refine ⟨hregistered.env he, fun a ha => ?_, ?_⟩
      · obtain ⟨name, hname⟩ := hnamed a ha
        exact ⟨name, nameGiven_env he hname⟩
      · rw [messagesOn, he.publisher, he.clients]
        exact hon
    · rintro tr m i o hrun hn hen ⟨hregistered, hnamed, hon⟩
      have hrun' := hrun.step hn hen
      have hnext := hregistered.handle o
      -- old names are kept, and the sender of a new message has one
      have hkeep : ∀ a : Message, (∃ name, m.state.nameGiven a.senderId = some name) →
          ∃ name, m.state.nameGiven a.senderId = some name ∧
            (handle o m.state).2.nameGiven a.senderId = some name := by
        rintro a ⟨name, hname⟩
        exact ⟨name, hname, nameGiven_handle hregistered hname o⟩
      have hnew : ∀ a ∈ m.state.arrival w o, ∃ name, m.state.nameGiven a.senderId = some name := by
        intro a ha
        obtain ⟨d, rfl, -⟩ := arrival_eq_some.1 ha
        exact named_of_draft hs hrun (publish_of hrun' rfl).1
      rw [Config.advance_state hn]
      refine ⟨hnext, fun a ha => ?_, ?_⟩
      · rw [arrivals_snoc, List.mem_append, Option.mem_toList] at ha
        obtain ⟨name, -, hname⟩ := hkeep a (ha.elim (hnamed a) (hnew a))
        exact ⟨name, hname⟩
      · have hsame : ∀ a, (∃ name, m.state.nameGiven a.senderId = some name) →
            messageToEvent m.state.clients a = messageToEvent (handle o m.state).2.clients a := by
          intro a ha
          obtain ⟨name, hname, hname'⟩ := hkeep a ha
          exact messageToEvent_of_named hname hname'
        show (handle o m.state).2.messagesOn w = _
        rw [messagesOn_handle, hon, arrivals_snoc, List.map_append, List.append_assoc]
        congr 2
        · exact List.map_congr_left fun a ha => hsame a (hnamed a ha)
        · rcases ha : m.state.arrival w o with _ | a
          · rfl
          · exact congrArg (fun event => [event]) (hsame a (hnew a ha))
  exact hinv.2.2

/-- Nobody is told of a message that it has been told of. -/
theorem not_published_twice {e' : Event Server ι Call Call.Res Response} {m' : Message}
    (h : Run ports Env (serving uuid order requests s) (tr₁ ++ e :: tr₂) c) (he' : e' ∈ tr₁)
    (hcall : e.call = .publisher (.publish d m)) (hcall' : e'.call = .publisher (.publish d m')) :
    m.id ≠ m'.id := by
  intro hid
  obtain ⟨hdraft, -, htold, -⟩ := publish_of h hcall
  have hbefore := h.at_event.1
  obtain ⟨tr₃, tr₄, rfl⟩ := List.append_of_mem he'
  obtain ⟨hthread, -⟩ :=
    drafts_differ hbefore (draft_stays hbefore (publish_of hbefore hcall').1).1 hdraft hid.symm
  have htold' := told_after hbefore hcall'
  rw [hthread] at htold'
  exact htold htold'

/-- No message is written to a stream twice. -/
theorem arrivals_nodup {host : Host} (hown : host.OwnStreams) (hnew : NewStreams requests host.server)
    (h : Run ports Env (serving uuid order requests host.server) tr c) (w : StreamId) :
    ((arrivals w tr).map Message.id).Nodup := by
  refine h.trace_inv (I := fun tr _ => ((arrivals w tr).map Message.id).Nodup) (by simp [arrivals])
    (fun _ _ _ _ hm _ => hm) fun tr m i o hrun hn hen hold => ?_
  have hrun' := hrun.step hn hen
  rw [arrivals_snoc, List.map_append]
  rcases ha : m.state.arrival w o with _ | a
  · simpa using hold
  obtain ⟨d, rfl, hd⟩ := arrival_eq_some.1 ha
  have hfresh : a.id ∉ (arrivals w tr).map Message.id := by
    intro hin
    obtain ⟨a', ha', hid⟩ := List.mem_map.1 hin
    obtain ⟨e, he, d', hcall, hd'⟩ := mem_arrivals.1 ha'
    -- the stream has one client only
    have hsame : d' = d := by
      obtain ⟨tr₁, tr₂, rfl⟩ := List.append_of_mem he
      exact streamOf_unique hown hnew (streamOf_run hrun.at_event.1 hd') (streamOf_run hrun hd)
    subst hsame
    exact not_published_twice hrun' he rfl hcall hid.symm
  show ((arrivals w tr).map Message.id ++ [a.id]).Nodup
  refine List.nodup_append.2 ⟨hold, by simp, fun id hid id' hid' => ?_⟩
  rw [List.mem_singleton.1 hid']
  rintro rfl
  exact hfresh hid

/-- Nor to two streams of one client. -/
theorem arrivals_disjoint {host : Host} {w' : StreamId} {m' : Message} (hown : host.OwnStreams)
    (hnew : NewStreams requests host.server) (h : Run ports Env (serving uuid order requests host.server) tr c)
    (hw : StreamOf uuid requests host.server d w) (hw' : StreamOf uuid requests host.server d w')
    (hm : m ∈ arrivals w tr) (hm' : m' ∈ arrivals w' tr) (hid : m.id = m'.id) : w = w' := by
  have howner : ∀ {e d₁ v}, e ∈ tr → e.pre.state.publisher.writers.lookup d₁ = some v →
      StreamOf uuid requests host.server d v → d₁ = d := by
    intro e d₁ v he hlookup hv
    obtain ⟨tr₁, tr₂, rfl⟩ := List.append_of_mem he
    exact streamOf_unique hown hnew (streamOf_run h.at_event.1 hlookup) hv
  obtain ⟨e, he, d₁, hcall, hlookup⟩ := mem_arrivals.1 hm
  obtain ⟨e', he', d₂, hcall', hlookup'⟩ := mem_arrivals.1 hm'
  obtain rfl := howner he hlookup hw
  obtain rfl := howner he' hlookup' hw'
  obtain ⟨tr₁, tr₂, rfl⟩ := List.append_of_mem he
  rcases List.mem_append.1 he' with hbefore | hafter
  · exact absurd hid (not_published_twice h hbefore hcall hcall')
  rcases List.mem_cons.1 hafter with rfl | hafter
  · exact Option.some.inj (hlookup.symm.trans hlookup')
  · obtain ⟨tr₃, tr₄, rfl⟩ := List.append_of_mem hafter
    rw [← List.cons_append, ← List.append_assoc] at h
    exact absurd hid.symm (not_published_twice h (by simp) hcall' hcall)

/-- Request `i` has sent `m` to the members that it read in the event `look`, and has saved it. -/
structure SentBy (uuid : UuidLib) (requests : ι → Request) (tr : List (Event Server ι Call Call.Res Response))
    (i : ι) (m : Message) (look : Event Server ι Call Call.Res Response) : Prop extends
    Drafts uuid requests tr i m look where
  saved : ∃ e ∈ tr, e.thread = i ∧ e.call = .messages (.save m)

omit [DecidableEq ι] in
/-- In a list without two elements of one key, one of them is all there is of its key. -/
theorem filter_of_nodup {α β : Type} [DecidableEq β] {key : α → β} {l : List α} {a : α}
    (hnodup : (l.map key).Nodup) (ha : a ∈ l) : l.filter (fun b => key b = key a) = [a] := by
  induction l with
  | nil => cases ha
  | cons b l ih =>
    obtain ⟨hhead, htail⟩ := List.nodup_cons.1 hnodup
    rcases List.mem_cons.1 ha with rfl | ha
    · have hrest : l.filter (fun b => key b = key a) = [] := by
        rw [List.filter_eq_nil_iff]
        intro b hb
        simp only [decide_eq_true_iff]
        intro hkey
        exact hhead (List.mem_map.2 ⟨b, hb, hkey⟩)
      simp [hrest]
    · have hne : key b ≠ key a := by
        intro hkey
        exact hhead (List.mem_map.2 ⟨a, ha, hkey.symm⟩)
      simp [hne, ih htail ha]

/-- Where a message on a stream comes from. -/
theorem sentBy_of_arrival (h : Run ports Env (serving uuid order requests s) tr c) (hm : m ∈ arrivals w tr) :
    ∃ i look, SentBy uuid requests tr i m look ∧
      ∃ d ∈ look.pre.state.members m.channelId, StreamOf uuid requests s d w := by
  obtain ⟨e, he, d, hcall, hd⟩ := mem_arrivals.1 hm
  obtain ⟨tr₁, tr₂, rfl⟩ := List.append_of_mem he
  obtain ⟨hdraft, hsaved, -, k, ch, hfound, hmem⟩ := publish_of h hcall
  have hbefore := h.at_event.1
  obtain ⟨look, hdrafts, ch', hfound', hch⟩ := drafts_of hbefore hdraft
  obtain ⟨rfl, rfl⟩ := Prod.mk.inj (Option.some.inj (hfound.symm.trans hfound'))
  obtain ⟨save, hsave, hthread, hsaveCall⟩ := saves_of hbefore hdraft hsaved
  have hin : ∀ {e'}, e' ∈ tr₁ → e' ∈ tr₁ ++ e :: tr₂ := fun he' => List.mem_append_left _ he'
  obtain ⟨session, hsession⟩ := hdrafts.session
  obtain ⟨drafted, hdrafted⟩ := hdrafts.drafted
  refine ⟨e.thread, look, ⟨⟨hdrafts.request, ⟨hin hdrafts.looked.1, hdrafts.looked.2⟩, hdrafts.sender,
    ⟨session, hin hsession.1, hsession.2⟩, ⟨drafted, hin hdrafted.1, hdrafted.2⟩⟩,
    save, hin hsave, hthread, hsaveCall⟩, d, ?_, streamOf_run hbefore hd⟩
  rw [members_of_channel hch]
  exact hmem

section
variable {historyCap : UInt32} {systemNow steadyNow : Int} {host : Host}

/-- However requests, sweeps and the ends of streams interleave: a stream gets each message once at most, and
only a message that a request was to send, saved before it wrote it, and meant for a client of the stream that
was a member, like the sender, when the request read the channel. -/
theorem delivered_once (hhost : Host.Reached uuid (.initial historyCap systemNow steadyNow) host)
    (hnew : NewStreams requests host.server) (h : Run ports Env (serving uuid order requests host.server) tr c)
    (w : StreamId) : ∃ new : List Message,
      c.state.messagesOn w = host.server.messagesOn w ++ new.map (messageToEvent c.state.clients) ∧
      (new.map Message.id).Nodup ∧ ∀ m ∈ new, ∃ i look, SentBy uuid requests tr i m look ∧
        ∃ d ∈ look.pre.state.members m.channelId, StreamOf uuid requests host.server d w :=
  ⟨arrivals w tr, messagesOn_run (registered_reached hhost) h w,
    arrivals_nodup (ownStreams_reached hhost) hnew h w, fun _ hm => sentBy_of_arrival h hm⟩

/-- A send that has been accepted has reached every client that was a member when it read the channel and whose
stream was there when its turn came: the stream has got the message, and once. -/
theorem delivered_to_members (hhost : Host.Reached uuid (.initial historyCap systemNow steadyNow) host)
    (hnew : NewStreams requests host.server) (h : Run ports Env (serving uuid order requests host.server) tr c)
    {clientId channelId text : Bytes} {id : MessageId} (hi : requests i = .sendMessage clientId channelId text)
    (hret : c.threads i = .ret (.sent (.ok id))) : ∃ m look, m.id = id ∧ SentBy uuid requests tr i m look ∧
      ∀ d ∈ look.pre.state.members m.channelId, ∀ w,
        (∀ e ∈ tr, e.call = .publisher (.publish d m) → e.pre.state.publisher.writers.lookup d = some w) →
        ∃ new, c.state.messagesOn w = host.server.messagesOn w ++ new ∧
          new.filter (fun event => event.messageId = id) = [messageToEvent c.state.clients m] := by
  obtain ⟨m, k, ch, hdraft, rfl, hsaved, hfound, htold⟩ :=
    Monitor.result_run h (obeys_request (order i) (requests i)) hret clientId channelId text id hi rfl
  obtain ⟨look, hdrafts, ch', hfound', hch⟩ := drafts_of h hdraft
  obtain ⟨rfl, rfl⟩ := Prod.mk.inj (Option.some.inj (hfound.symm.trans hfound'))
  refine ⟨m, look, rfl, ⟨hdrafts, saves_of h hdraft hsaved⟩, fun d hd w hw => ?_⟩
  rw [members_of_channel hch] at hd
  obtain ⟨e, he, -, hcall⟩ := publishes_of h hdraft (htold d hd)
  have hin : m ∈ arrivals w tr := mem_arrivals.2 ⟨e, he, d, hcall, hw e he hcall⟩
  refine ⟨_, messagesOn_run (registered_reached hhost) h w, ?_⟩
  rw [List.filter_map]
  show ((arrivals w tr).filter fun m' => m'.id = m.id).map _ = _
  rw [filter_of_nodup (arrivals_nodup (ownStreams_reached hhost) hnew h w) hin]
  rfl

end

end

/-! ### A stream that is opened between the save and the publish -/

/-- The one client sends, and at the same time opens another stream. -/
def sendAndReopen : Bool → Request
  | true => .sendMessage (ascii "00000000-0000-0000-0000-000000000002")
      (ascii "00000000-0000-0000-0000-000000000001") (ascii "hi")
  | false => .subscribeToChannel (ascii "00000000-0000-0000-0000-000000000002")
      (ascii "00000000-0000-0000-0000-000000000001") listening.nextStream

theorem newStreams_sendAndReopen : NewStreams sendAndReopen listening.server := by
  intro i clientId channelId w hi
  cases i with
  | true => cases hi
  | false =>
    cases hi
    refine ⟨(freshStreams_reached listening_reached _ (le_refl _)).2, fun j _ _ hj => ?_⟩
    cases j with
    | true => cases hj
    | false => rfl

/-- The new stream is there just in time. -/
def reopened := schedule ports (serving .canonical (fun _ => .byId) sendAndReopen listening.server)
  [true, true, true, true, false, true]

theorem reopened_run : Run ports Env (serving .canonical (fun _ => .byId) sendAndReopen listening.server)
    reopened.1 reopened.2 := run_schedule ..

theorem reopened_sent : reopened.2.threads true = .ret (.sent (.ok ⟨3⟩)) := by rfl

theorem delivered_once_reopened : ∃ new : List Message,
    reopened.2.state.messagesOn listening.nextStream = listening.server.messagesOn listening.nextStream ++
      new.map (messageToEvent reopened.2.state.clients) ∧ (new.map Message.id).Nodup := by
  obtain ⟨new, hon, hnodup, -⟩ :=
    delivered_once listening_reached newStreams_sendAndReopen reopened_run listening.nextStream
  exact ⟨new, hon, hnodup⟩

theorem delivered_to_members_reopened : ∃ m : Message, m.id = ⟨3⟩ ∧ ∃ new,
    reopened.2.state.messagesOn listening.nextStream = listening.server.messagesOn listening.nextStream ++ new ∧
      new.filter (fun event => event.messageId = ⟨3⟩) = [messageToEvent reopened.2.state.clients m] := by
  obtain ⟨m, look, hid, hsent, hall⟩ :=
    delivered_to_members listening_reached newStreams_sendAndReopen reopened_run (i := true) rfl reopened_sent
  have hchannel : m.channelId = ⟨1⟩ := by
    obtain ⟨clientId, channelId, text, hrequest, -, hk, -⟩ := hsent.request
    cases hrequest
    exact Option.some.inj (hk.symm.trans (by decide))
  have hmembers : ∀ e ∈ reopened.1, ⟨2⟩ ∈ e.pre.state.members ⟨1⟩ := by decide +kernel
  have hstream : ∀ e ∈ reopened.1, e.call.isEvent = true →
      e.pre.state.publisher.writers.lookup ⟨2⟩ = some listening.nextStream := by decide +kernel
  refine ⟨m, hid, hall ⟨2⟩ ?_ _ fun e he hcall => hstream e he (by rw [hcall]; rfl)⟩
  rw [hchannel]
  exact hmembers look hsent.looked.1

end Bcmd
