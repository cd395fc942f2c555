import Bcmd.History
import Bcmd.LostUpdate

/-!
# Subscribing to a channel and listing its history

A client joins a channel, opens its stream there and lists the history, so that the list and the stream
together show every message. A message slips through if its sender has read the channel before the
client was in it, and saves the message after the client has read the history.
-/

namespace Bcmd
open Server

/-- What a client asks for to follow a channel. -/
structure Visit where
  order : BucketOrder
  client : ClientId
  channelId : ChannelId
  stream : StreamId
  limit : UInt32

/-- `ListMessages` from the newest message on. -/
def listHistory (c : ClientId) (k : ChannelId) (limit : UInt32) : Task (Option (List MessageEvent)) := do
  match ← ListMessages.execute c k none limit with
  | .error _ => return none
  | .ok page =>
  let events ← BroadcastService.fillMessages page.messages
  return some events

/-- Join, subscribe and list, one after the other: what was listed, if nothing failed. -/
def Visit.run (v : Visit) : Task (Option (List MessageEvent)) := do
  match ← JoinChannel.execute v.order v.client v.channelId with
  | .error _ => return none
  | .ok () =>
  match ← BroadcastService.beginChannelStream v.client v.channelId v.stream with
  | .error _ => return none
  | .ok () => listHistory v.client v.channelId v.limit

/-- The visit, and any number of sends. -/
def visiting {ι : Type} (v : Visit) (sends : ι → SendRequest) (s : Server) :
    Config Server (Option ι) Call Call.Res (Option (List MessageEvent)) where
  state := s
  threads
    | none => v.run
    | some i => do
      let _ ← (sends i).run
      return none

/-- The event shows the message, under whatever name its sender had. -/
def Shows (event : MessageEvent) (m : Message) : Prop := ∃ registry, event = messageToEvent registry m

/-- The stream got the message. -/
def Received (s : Server) (w : StreamId) (m : Message) : Prop :=
  ∃ event, Shows event m ∧ .message event ∈ s.publisher.written w

/-- Every retained message of the channel was listed or got to the stream. -/
def NoGap (v : Visit) (events : List MessageEvent) (s : Server) : Prop :=
  ∀ m ∈ s.messages.buffer v.channelId, (∃ event ∈ events, Shows event m) ∨ Received s v.stream m

/-- What the program still saves to the channel it publishes to `c`, provided that it finds `c` there. -/
def Includes (c : ClientId) (k : ChannelId) {α : Type} : Task α → Prop
  | .ret _ => True
  | .call o f => (∀ s, ∀ m ∈ savedBy k o, (c, m) ∈ toPublish (f (handle o s).1)) ∧
      ∀ s, c ∈ s.members k → Includes c k (f (handle o s).1)

/-- The limit of a read covers all that is retained. -/
def CoversHistory (k : ChannelId) (s : Server) : Call → Prop
  | .messages (.recent k' n) => k' = k → (s.messages.buffer k).length ≤ n.toNat
  | _ => True

instance (k : ChannelId) (s : Server) : ∀ o, Decidable (CoversHistory k s o)
  | .messages (.recent k' n) => inferInstanceAs (Decidable (k' = k → (s.messages.buffer k).length ≤ n.toNat))
  | .messages (.save _) | .messages (.listBefore _ _ _) | .channels _ | .clients _ | .publisher _ |
    .channelList _
  | .newMessage _ _ _ | .awaitCancelled _ => inferInstanceAs (Decidable True)

section
variable {ι : Type} (v : Visit) (tr : List (Event Server (Option ι) Call Call.Res
  (Option (List MessageEvent))))

/-- When the client reads the history, its limit covers all that is retained. -/
def Covers : Prop :=
  ∀ e ∈ tr, e.thread = none → CoversHistory v.channelId e.pre.state e.call

instance : Decidable (Covers v tr) := inferInstanceAs (Decidable (∀ e ∈ tr, _ → _))

/-- When the client reads the history, no send that has read the channel without the client has still to
save. -/
def NoStaleSend : Prop :=
  ∀ e ∈ tr, e.thread = none → ∀ n, e.call = .messages (.recent v.channelId n) →
    ∀ i, Includes v.client v.channelId (e.pre.threads (some i))

end

/-! ### Sends -/

section
variable {α β : Type} {c : ClientId} {k : ChannelId}

theorem toPublish_call {o : Call} {f : o.Res → Task α} {q : ClientId × Message}
    (h : q ∈ toPublish (.call o f))
    (s : Server) : o = .publisher (.publish q.1 q.2) ∨ q ∈ toPublish (f (handle o s).1) := by
  rcases o with _ | _ | _ | (_ | _ | ⟨d, m⟩ | _ | _) | _ | _ | _
  case publisher.publish =>
    rcases List.mem_cons.1 h with rfl | h
    · exact .inl rfl
    · exact .inr h
  all_goals exact absurd h List.not_mem_nil

theorem toPublish_subset_bind (p : Task α) (g : α → Task β) : toPublish p ⊆ toPublish (p >>= g) := by
  induction p with
  | ret a => exact List.nil_subset _
  | call o f ih =>
    rcases o with _ | _ | _ | (_ | _ | ⟨d, m⟩ | _ | _) | _ | _ | _
    case publisher.publish => exact List.cons_subset_cons (d, m) (ih ())
    all_goals exact List.nil_subset _

theorem Includes.bind {p : Task α} {g : α → Task β} (h : Includes c k p) (hg : ∀ a, Includes c k (g a)) :
    Includes c k (p >>= g) := by
  induction p with
  | ret a => exact hg a
  | call o f ih =>
    refine ⟨fun s m hm => ?_, fun s hs => ih _ (h.2 s hs)⟩
    exact toPublish_subset_bind _ g (h.1 s m hm)

/-- A call that saves nothing. -/
theorem Includes.call {o : Call} {f : o.Res → Task α} (ho : savedBy k o = none)
    (h : ∀ s, c ∈ s.members k → Includes c k (f (handle o s).1)) : Includes c k (.call o f) :=
  ⟨fun s m hm => by rw [ho] at hm; exact absurd hm nofun, h⟩

theorem includes_publishEach (m : Message) (cs : List ClientId) :
    Includes c k (SendMessage.publishEach m cs) := by
  induction cs with
  | nil => trivial
  | cons d cs ih => exact .call rfl fun _ _ => ih

theorem includes_save {m : Message} {cs : List ClientId} (hm : m.channelId = k → c ∈ cs) (a : α) :
    Includes c k (.call (.messages (.save m)) fun _ => SendMessage.publishEach m cs >>= fun _ => .ret a) := by
  refine ⟨fun s m' hm' => ?_, fun _ _ => (includes_publishEach m cs).bind fun _ => trivial⟩
  obtain ⟨ho, hk⟩ := mem_savedBy.1 hm'
  cases ho
  show (c, m) ∈ toPublish (SendMessage.publishEach m cs >>= fun _ => Prog.ret a)
  rw [toPublish_publishEach]
  exact List.mem_map_of_mem (hm hk)

/-- A send that has not read the channel yet will find the client there. -/
theorem includes_run (r : SendRequest) (hsender : r.sender ≠ c) : Includes c k r.run := by
  simp only [SendRequest.run, SendMessage.execute, Prog.perform_bind, Prog.pure_eq]
  refine .call rfl fun s _ => ?_
  rcases ((handle (.clients (.findById r.sender)) s).1 : Result ClientSession) with e | cs
  · trivial
  refine .call rfl fun s hmem => ?_
  rcases hr : ((handle (.channels (.findById r.channelId)) s).1 : Result Channel) with e | ch
  · trivial
  dsimp only
  split
  · trivial
  rcases MessageContent.create r.content with e | content
  · trivial
  refine .call rfl fun s' _ => ?_
  obtain ⟨m, hm, hmk, hms⟩ : ∃ m : Message, (handle (.newMessage r.sender r.channelId content) s').1 = m ∧
      m.channelId = r.channelId ∧ m.senderId = r.sender := ⟨_, rfl, rfl, rfl⟩
  -- the copy of the channel has the client, and so do the recipients
  have hin : m.channelId = k → c ∈ recipientsFor r.order.clients ch m r.echoPolicy := by
    rw [hmk]
    rintro rfl
    have hch : s.channel r.channelId = some ch := InMemoryChannelRepository.findById_ok.1 hr
    rw [members_of_channel hch] at hmem
    unfold recipientsFor
    simp only [List.mem_filter, IterOrder.mem_enum, decide_eq_true_eq]
    exact ⟨hmem, fun h => hsender (hms.symm.trans h.2.symm)⟩
  have hsave := includes_save hin (Except.ok m.id : Result MessageId)
  rw [hm]
  exact ⟨fun s'' => hsave.1 s'', fun s'' => hsave.2 s''⟩

end

/-! ### The visit -/

section
variable {c : ClientId} {k : ChannelId} {w : StreamId} {limit : UInt32} {s : Server}

/-- What follows once the page is read. -/
def answer (k : ChannelId) (page : List Message) : Task (Option (List MessageEvent)) := do
  let _ ← ListMessages.hasMore k page
  let events ← BroadcastService.fillMessages page
  return some events

/-- The calls of the answer, which change nothing. -/
def Looks : Call → Prop
  | .messages (.listBefore _ _ _) | .clients (.lookupUsername _) => True
  | _ => False

theorem Looks.handle {o : Call} (h : Looks o) (s : Server) : (handle o s).2 = s := by
  rcases o with _ | (_ | _ | _ | _ | _ | _ | _ | _) | (_ | _ | _) | _ | _ | _ | _
  case clients.lookupUsername => rfl
  case messages.listBefore => rfl
  all_goals exact h.elim

theorem looks_answer (page : List Message) : (answer k page).Calls Looks := by
  refine .bind ?_ fun _ => .bind (calls_fillMessages (fun _ => trivial) page) fun _ => trivial
  rcases page with _ | ⟨m, page⟩
  · trivial
  · exact ⟨trivial, fun _ => trivial⟩

/-- The answer shows the whole page. -/
theorem safe_answer (page : List Message) (s : Server) :
    Safe ports (fun _ _ => True) (fun _ _ => True) (fun _ _ => True)
      (fun r _ => ∀ events, r = some events → ∀ m ∈ page, ∃ event ∈ events, Shows event m)
        (answer k page) s := by
  have hfill : ∀ page s, Safe ports (fun _ _ => True) (fun _ _ => True) (fun _ _ => True)
      (fun events _ => ∀ m ∈ page, ∃ event ∈ events, Shows event m)
        (BroadcastService.fillMessages page) s := by
    intro page
    induction page with
    | nil => exact fun s s' _ => nofun
    | cons m page ih =>
      simp only [BroadcastService.fillMessages, BroadcastService.fillMessage, Prog.perform_bind,
        Prog.call_bind, Prog.pure_eq, Prog.ret_bind]
      intro s s₁ _
      refine ⟨trivial, fun _ _ => Safe.bind (fun _ => trivial) ((ih s₁).mono fun events s₂ hevents => ?_)⟩
      intro s₃ _ m' hm'
      rcases List.mem_cons.1 hm' with rfl | hm'
      · exact ⟨_, List.mem_cons_self .., s₁.clients, rfl⟩
      · obtain ⟨event, hevent, hshows⟩ := hevents m' hm'
        exact ⟨event, List.mem_cons_of_mem _ hevent, hshows⟩
  have hreturn : ∀ s, Safe ports (fun _ _ => True) (fun _ _ => True) (fun _ _ => True)
      (fun r _ => ∀ events, r = some events → ∀ m ∈ page, ∃ event ∈ events, Shows event m)
      (BroadcastService.fillMessages page >>= fun events => Prog.ret (some events)) s := by
    refine fun s => Safe.bind (fun _ => trivial) ((hfill page s).mono fun events s₁ hevents => ?_)
    intro s₂ _ events' heq
    cases heq
    exact hevents
  rcases page with _ | ⟨m, page⟩
  · exact hreturn s
  · exact fun s₁ _ => ⟨trivial, fun _ _ => hreturn _⟩

/-- The program returns a list only as the answer with a page that it has read. -/
inductive ReadsFirst (k : ChannelId) : Task (Option (List MessageEvent)) → Prop
  | none : ReadsFirst k (.ret none)
  | read (n : UInt32) : ReadsFirst k (.call (.messages (.recent k n)) (answer k))
  | call {o : Call} {f : o.Res → Task (Option (List MessageEvent))} (h : ∀ r, ReadsFirst k (f r)) :
      ReadsFirst k (.call o f)

theorem ReadsFirst.bind {α : Type} {f : α → Task (Option (List MessageEvent))} (h : ∀ a, ReadsFirst k (f a))
    (p : Task α) : ReadsFirst k (p >>= f) := by
  induction p with
  | ret a => exact h a
  | call o g ih => exact .call ih

theorem listHistory_eq : listHistory c k limit = .call (.channels (.findById k)) fun r =>
    match r with
    | .error _ => .ret none
    | .ok ch =>
      if ch.hasMember c then .call (.messages (.recent k (min limit ListMessages.kServerMaxLimit))) (answer k)
      else .ret none := by
  simp only [listHistory, ListMessages.execute, Prog.perform_bind, Prog.call_bind, Prog.pure_eq]
  congr 1
  funext r
  rcases r with e | ch
  · rfl
  · dsimp only
    by_cases hm : ch.hasMember c
    · simp only [hm, not_true, if_false, if_true, Prog.call_bind]
      congr 1
      funext page
      unfold answer
      simp only [Prog.bind_assoc, Prog.ret_bind, Prog.pure_eq]
    · simp [hm]

theorem readsFirst_visit (v : Visit) : ReadsFirst v.channelId v.run := by
  refine .bind (fun r => ?_) _
  rcases r with e | _
  · exact .none
  refine .bind (fun r => ?_) _
  rcases r with e | _
  · exact .none
  dsimp only
  rw [listHistory_eq]
  refine .call fun r => ?_
  rcases r with e | ch
  · exact .none
  dsimp only
  split
  · exact .read _
  · exact .none

/-- Others leave the client's memberships and the table of streams alone. -/
structure Undisturbed (c : ClientId) (s s' : Server) : Prop extends Keeps c ∅ s s' where
  writers : s'.publisher.writers = s.publisher.writers

namespace Undisturbed
variable {s₁ s' : Server}

theorem refl (s : Server) : Undisturbed c s s := ⟨Keeps.refl s, rfl⟩

theorem trans (h : Undisturbed c s s₁) (h' : Undisturbed c s₁ s') : Undisturbed c s s' :=
  ⟨h.toKeeps.trans h'.toKeeps, h'.writers.trans h.writers⟩

theorem env (h : Env s s') : Undisturbed c s s' := ⟨Keeps.env h, by rw [h.publisher]⟩

theorem mem (h : Undisturbed c s s') (hm : c ∈ s.members k) : c ∈ s'.members k :=
  (h.members k (Set.notMem_empty k)).2 hm

theorem send {o : Call} (ho : SendCall o) (s : Server) : Undisturbed c s (handle o s).2 := by
  refine ⟨keeps_handle ?_ s c fun ch h => absurd h (ho.ne_saveChannel ch), ?_⟩
  · rcases o with _ | (_ | _ | _ | _ | _ | _ | _ | _) | _ | _ | _ | _ | _
    all_goals trivial
  · rcases ho.publisher with ⟨d, m, rfl⟩ | h
    · exact Subscribers.writers_writeTo ..
    · rw [h]

end Undisturbed

theorem SendCall.written {o : Call} (ho : SendCall o) {event : ChannelEvent}
    (h : event ∈ s.publisher.written w) :
    event ∈ (handle o s).2.publisher.written w := by
  rcases ho.publisher with ⟨d, m, rfl⟩ | hsame
  · rw [show (handle (.publisher (.publish d m)) s).2.publisher.written w =
      _ from Subscribers.written_writeTo ..]
    split
    · exact List.mem_append_left _ h
    · exact h
  · rw [hsame]
    exact h

theorem received_publish {a : Message} (hentry : s.publisher.writers.lookup c = some w) :
    Received (handle (.publisher (.publish c a)) s).2 w a := by
  refine ⟨messageToEvent s.clients a, ⟨s.clients, rfl⟩, ?_⟩
  rw [show (handle (.publisher (.publish c a)) s).2.publisher.written w =
    _ from Subscribers.written_writeTo .., if_pos hentry]
  simp

/-- The client reads the history as a member, with its stream in the table. -/
def ReadsOpen (c : ClientId) (k : ChannelId) (w : StreamId) (s : Server) (o : Call) : Prop :=
  ∀ n, o = .messages (.recent k n) → c ∈ s.members k ∧ s.publisher.writers.lookup c = some w

abbrev Visits (c : ClientId) (k : ChannelId) (w : StreamId) {α : Type} (Q : α → Server → Prop) (p : Task α)
    (s : Server) : Prop :=
  Safe ports (Undisturbed c) (fun _ _ => True) (ReadsOpen c k w) Q p s

theorem visits_join (order : BucketOrder) :
    Visits c k w (fun r s' => r = .ok () → c ∈ s'.members k) (JoinChannel.execute order c k) s := by
  have hjoin : Visits c k w _ (JoinChannel.execute order c k) s :=
    ((does_join order k).and_calls (JoinChannel.requesting_execute order c k)).weaken
      (fun _ _ h => h.toKeeps) (fun _ _ h => h) fun s o ho n h => by subst h; exact ho.2.elim
  refine hjoin.mono ?_
  rintro r s' (⟨-, hmem⟩ | ⟨⟨e, rfl⟩, -⟩) hr
  · exact hmem
  · cases hr

theorem visits_begin (hmem : c ∈ s.members k) :
    Visits c k w (fun r s' => r = .ok () → c ∈ s'.members k ∧ s'.publisher.writers.lookup c = some w)
      (BroadcastService.beginChannelStream c k w) s := by
  simp only [BroadcastService.beginChannelStream, Bcmd.SubscribeToChannel.execute, Prog.perform_bind,
    Prog.call_bind, Prog.pure_eq]
  refine fun s₁ h₁ => ⟨nofun, fun _ _ => ?_⟩
  have hmem₁ : c ∈ (handle (.publisher (.registerSubscriber c w)) s₁).2.members k := h₁.mem hmem
  have hentry : (handle (.publisher (.registerSubscriber c w)) s₁).2.publisher.writers.lookup c = some w :=
    Finmap.lookup_insert _
  refine safe_findChannel (fun _ _ => nofun) (fun s₂ h₂ hnone => ?_) fun s₂ ch h₂ hch => ?_
  · have hmem₂ := h₂.mem hmem₁
    rw [members_of_none hnone] at hmem₂
    exact absurd hmem₂ (Finset.notMem_empty c)
  · have hmem₂ := h₂.mem hmem₁
    rw [members_of_channel hch] at hmem₂
    simp only [Channel.hasMember_iff.2 hmem₂, not_true, if_false]
    refine fun s₃ h₃ _ => ⟨h₃.mem (h₂.mem hmem₁), ?_⟩
    rw [h₃.writers, h₂.writers]
    exact hentry

theorem visits_list (hmem : c ∈ s.members k) (hentry : s.publisher.writers.lookup c = some w) :
    Visits c k w (fun _ _ => True) (listHistory c k limit) s := by
  rw [listHistory_eq]
  refine safe_findChannel (fun _ _ => nofun) (fun s₁ h₁ _ => fun _ _ => trivial) fun s₁ ch h₁ hch => ?_
  have hmem₁ := h₁.mem hmem
  rw [members_of_channel hch] at hmem₁
  dsimp only
  rw [if_pos (Channel.hasMember_iff.2 hmem₁)]
  refine fun s₂ h₂ => ⟨fun n _ => ⟨h₂.mem (h₁.mem hmem), ?_⟩, fun _ _ => ?_⟩
  · rw [h₂.writers, h₁.writers]
    exact hentry
  · exact .of_calls (fun s o ho n h => by subst h; exact ho.elim) (fun _ _ => trivial) (looks_answer _)

theorem visits_run (v : Visit) (s : Server) :
    Visits v.client v.channelId v.stream (fun _ _ => True) v.run s := by
  refine Safe.bind Undisturbed.refl ((visits_join v.order).mono fun r s₁ h₁ => ?_)
  rcases r with e | _
  · exact fun _ _ => trivial
  refine Safe.bind Undisturbed.refl ((visits_begin (h₁ rfl)).mono fun r s₂ h₂ => ?_)
  rcases r with e | _
  · exact fun _ _ => trivial
  · obtain ⟨hmem, hentry⟩ := h₂ rfl
    exact visits_list hmem hentry

end

/-! ### Runs -/

section
variable {ι : Type} {v : Visit} {sends : ι → SendRequest} {s : Server} {c : ClientId} {k : ChannelId}
  {w : StreamId}
  {tr : List (Event Server (Option ι) Call Call.Res (Option (List MessageEvent)))}
  {m final : Config Server (Option ι) Call Call.Res (Option (List MessageEvent))}

/-- After the read: what has been saved since got to the stream, or its send still has to publish it to
the client. -/
structure Following (c : ClientId) (k : ChannelId) (w : StreamId)
    (tr : List (Event Server (Option ι) Call Call.Res (Option (List MessageEvent))))
    (m : Config Server (Option ι) Call Call.Res (Option (List MessageEvent))) : Prop where
  member : c ∈ m.state.members k
  entry : m.state.publisher.writers.lookup c = some w
  includes : ∀ i, Includes c k (m.threads (some i))
  arrives : ∀ a ∈ saved k tr, Received m.state w a ∨ ∃ i, (c, a) ∈ toPublish (m.threads (some i))

variable [DecidableEq ι]

theorem Following.looks {o : Call} (h : Following c k w tr m) (hn : (m.threads none).next = some o)
    (ho : Looks o) :
    Following c k w (tr ++ [⟨m, none, o⟩]) (m.advance ports none) := by
  have hstate : (m.advance ports none).state = m.state := (Config.advance_state hn).trans (ho.handle _)
  have hthread : ∀ i, (m.advance ports none).threads (some i) = m.threads (some i) := fun i =>
    Config.advance_threads_ne nofun
  have hsaved : savedBy k o = none := by
    rcases o with _ | _ | (_ | _ | _) | _ | _ | _ | _
    case messages.save => exact ho.elim
    all_goals rfl
  refine ⟨by rw [hstate]; exact h.member, by rw [hstate]; exact h.entry, fun i => ?_, fun a ha => ?_⟩
  · rw [hthread]
    exact h.includes i
  · rw [saved_snoc, hsaved, Option.toList_none, List.append_nil] at ha
    simp only [hstate, hthread]
    exact h.arrives a ha

theorem Following.send {i : ι} {o : Call} (h : Following c k w tr m) (hn : (m.threads (some i)).next = some o)
    (ho : SendCall o) : Following c k w (tr ++ [⟨m, some i, o⟩]) (m.advance ports (some i)) := by
  obtain ⟨f, hf⟩ := Prog.eq_call_of_next hn
  have hstate : (m.advance ports (some i)).state = (handle o m.state).2 := Config.advance_state hn
  have hquiet : Undisturbed c m.state (handle o m.state).2 := .send ho m.state
  have hself : (m.advance ports (some i)).threads (some i) = f (handle o m.state).1 :=
    Config.advance_threads_self hf
  have hother : ∀ j, j ≠ i → (m.advance ports (some i)).threads (some j) = m.threads (some j) := fun j hj =>
    Config.advance_threads_ne fun h => hj (Option.some.inj h)
  have hincludes := h.includes i
  rw [hf] at hincludes
  refine ⟨?_, ?_, fun j => ?_, fun a ha => ?_⟩
  · rw [hstate]
    exact hquiet.mem h.member
  · rw [hstate, hquiet.writers]
    exact h.entry
  · by_cases hj : j = i
    · rw [hj, hself]
      exact hincludes.2 m.state h.member
    · rw [hother j hj]
      exact h.includes j
  · rw [saved_snoc] at ha
    rcases List.mem_append.1 ha with ha | ha
    · rcases h.arrives a ha with ⟨event, hshows, hwritten⟩ | ⟨j, hj⟩
      · left
        refine ⟨event, hshows, ?_⟩
        rw [hstate]
        exact ho.written hwritten
      · by_cases hji : j = i
        · rw [hji, hf] at hj
          rcases toPublish_call hj m.state with rfl | hj
          · left
            rw [hstate]
            exact received_publish h.entry
          · exact .inr ⟨i, by rw [hself]; exact hj⟩
        · exact .inr ⟨j, by rw [hother j hji]; exact hj⟩
    · refine .inr ⟨i, ?_⟩
      rw [hself]
      exact hincludes.1 m.state a (Option.mem_toList.1 ha)

/-- When the client makes its read, it is a member with its stream in the table. -/
theorem open_at_read (h : Run ports Env (visiting v sends s) tr m)
    {e : Event Server (Option ι) Call Call.Res _}
    (he : e ∈ tr) (hi : e.thread = none) : ReadsOpen v.client v.channelId v.stream e.pre.state e.call := by
  refine Run.safe_act Undisturbed.refl Undisturbed.trans (fun _ _ => Undisturbed.env) h (visits_run v s)
    (fun _ _ _ => trivial) (fun e he hi _ => ?_) e he hi
  obtain ⟨i, hi⟩ := Option.ne_none_iff_exists'.1 hi
  have hcall : SendCall e.call := (h.calls (i := some i)
    (.bind (sends i).calls_run fun _ => trivial)).2 e he hi
  exact .send hcall _

theorem following_of_run (h : Run ports Env m tr final)
    (hstart : Following v.client v.channelId v.stream [] m)
    {page : List Message} (hnone : m.threads none = answer v.channelId page)
    (hsends : ∀ i, (m.threads (some i)).Calls SendCall) :
    Following v.client v.channelId v.stream tr final := by
  refine h.trace_inv (I := Following v.client v.channelId v.stream) hstart
    (fun tr₁ m₁ s' _ hm he => ?_) fun tr₁ m₁ i o h₁ hn _ hm => ?_
  · have hquiet : Undisturbed v.client m₁.state s' := .env he
    refine ⟨hquiet.mem hm.member, by rw [hquiet.writers]; exact hm.entry, hm.includes, fun a ha => ?_⟩
    rcases hm.arrives a ha with ⟨event, hshows, hwritten⟩ | hpending
    · exact .inl ⟨event, hshows, by rw [he.publisher]; exact hwritten⟩
    · exact .inr hpending
  · rcases i with _ | i
    · have hlooks := (h₁.calls (i := none) (by rw [hnone]; exact looks_answer page)).1
      obtain ⟨f, hf⟩ := Prog.eq_call_of_next hn
      rw [hf] at hlooks
      exact hm.looks hn hlooks.1
    · have hcalls := (h₁.calls (i := some i) (hsends i)).1
      obtain ⟨f, hf⟩ := Prog.eq_call_of_next hn
      rw [hf] at hcalls
      exact hm.send hn hcalls.1

/-- If no stale send has still to save when the client reads the history, the list and the stream leave
no gap. -/
theorem no_gap {events : List MessageEvent} (h : Run ports Env (visiting v sends s) tr final)
    (hcovers : Covers v tr) (hstale : NoStaleSend v tr) (hlisted : final.threads none = .ret (some events))
    (hsent : ∀ i, final.threads (some i) = .ret none) : NoGap v events final.state := by
  have hfirst : ¬ ReadsFirst v.channelId (final.threads none) := by
    rw [hlisted]
    nofun
  obtain ⟨tr₁, ⟨m, i, o⟩, tr₂, rfl, hi, hbefore, hafter⟩ := h.leaves (readsFirst_visit v) hfirst
  dsimp only at hi hbefore hafter
  subst hi
  have hmem : (⟨m, none, o⟩ : Event _ _ _ _ _) ∈ tr₁ ++ ⟨m, none, o⟩ :: tr₂ := by simp
  obtain ⟨h₁, hn, -, h₂⟩ := h.at_event
  obtain ⟨f, hf⟩ := Prog.eq_call_of_next hn
  have hself : (m.advance ports none).threads none = f (handle o m.state).1 := Config.advance_threads_self hf
  rw [hf] at hbefore
  rw [hself] at hafter
  cases hbefore with
  | call hrest => exact absurd (hrest _) hafter
  | read n =>
    -- the step by which the client gets its page
    have hstate : (m.advance ports none).state = m.state := Config.advance_state hn
    have hpage : m.state.messages.recent v.channelId n = m.state.messages.buffer v.channelId := by
      have hlen : (m.state.messages.buffer v.channelId).length ≤ n.toNat := hcovers _ hmem rfl rfl
      rw [InMemoryMessageRepository.recent_eq, Nat.sub_eq_zero_of_le hlen, List.drop_zero]
    have hanswer : (m.advance ports none).threads none = answer v.channelId
        (m.state.messages.buffer v.channelId) := by
      rw [hself, ← hpage]
      rfl
    have hthread : ∀ i, (m.advance ports none).threads (some i) = m.threads (some i) := fun i =>
      Config.advance_threads_ne nofun
    obtain ⟨hmember, hentry⟩ := open_at_read h hmem rfl n rfl
    have hfollowing : Following v.client v.channelId v.stream tr₂ final := by
      refine following_of_run h₂ ⟨?_, ?_, fun i => ?_, nofun⟩ hanswer fun i => ?_
      · rw [hstate]; exact hmember
      · rw [hstate]; exact hentry
      · rw [hthread]; exact hstale _ hmem rfl n rfl i
      · rw [hthread]
        exact (h₁.calls (i := some i) (.bind (sends i).calls_run fun _ => trivial)).1
    have hlist : ∀ a ∈ m.state.messages.buffer v.channelId, ∃ event ∈ events, Shows event a := by
      have hsafe := safe_answer (k := v.channelId) (m.state.messages.buffer v.channelId)
        (m.advance ports none).state
      rw [← hanswer] at hsafe
      exact Run.safe_ret (fun _ => trivial) (fun _ _ => trivial) (fun _ _ _ => trivial) h₂ hsafe
        (fun _ _ _ => trivial) (fun _ _ _ _ => trivial) hlisted events rfl
    intro a ha
    have hlog := (buffer_suffix_log h₂).subset ha
    rw [log, hstate] at hlog
    rcases List.mem_append.1 hlog with hold | hnew
    · exact .inl (hlist a hold)
    · rcases hfollowing.arrives a hnew with hreceived | ⟨i, hpending⟩
      · exact .inr hreceived
      · rw [hsent i] at hpending
        exact absurd hpending List.not_mem_nil

/-- A send whose calls all came after the client was in the channel is not stale. -/
theorem noStaleSend_of_member (h : Run ports Env (visiting v sends s) tr final)
    (hsenders : ∀ i, (sends i).sender ≠ v.client)
    (hmem : ∀ e ∈ tr, e.thread ≠ none → v.client ∈ e.pre.state.members v.channelId) : NoStaleSend v tr := by
  intro e he _ n _ i
  obtain ⟨tr₁, tr₂, rfl⟩ := List.append_of_mem he
  refine h.at_event.1.inv (I := fun m => Includes v.client v.channelId (m.threads (some i)))
    ((includes_run (sends i) (hsenders i)).bind fun _ => trivial) (fun _ _ hm _ => hm)
      fun e' he' hI hn _ => ?_
  by_cases hi : e'.thread = some i
  · obtain ⟨f, hf⟩ := Prog.eq_call_of_next hn
    rw [hi] at hf ⊢
    rw [hf] at hI
    rw [Config.advance_threads_self hf]
    exact hI.2 _ (hmem e' (List.mem_append_left _ he') (by rw [hi]; nofun))
  · rw [Config.advance_threads_ne (Ne.symm hi)]
    exact hI

end

/-! Client `2` is in the channel and sends to it; client `3` visits the channel. -/

def visit : Visit := ⟨.byId, ⟨3⟩, ⟨1⟩, 0, 50⟩

def oneSend (_ : Unit) : SendRequest := ⟨.byId, ⟨2⟩, ⟨1⟩, ascii "hi", .includeSender⟩

theorem sender_ne_visitor (i : Unit) : (oneSend i).sender ≠ visit.client := by
  show (⟨2⟩ : ClientId) ≠ ⟨3⟩
  decide

/-- The visit and the send under a schedule. -/
def visitDuring (is : List (Option Unit)) := schedule ports (visiting visit oneSend visitor.server) is

theorem visitDuring_run (is : List (Option Unit)) :
    Run ports Env (visiting visit oneSend visitor.server) (visitDuring is).1 (visitDuring is).2 :=
  run_schedule ..

/-- The send reads the channel after the Join, and saves after the client has listed the history. -/
def readAfterJoin : List (Option Unit) :=
  List.replicate 6 none ++ List.replicate 2 (some ()) ++ List.replicate 4 none ++ List.replicate 4 (some ())

/-- The send reads the channel before the Join. -/
def readBeforeJoin : List (Option Unit) :=
  List.replicate 2 (some ()) ++ List.replicate 10 none ++ List.replicate 3 (some ())

theorem visitDuring_returned {is : List (Option Unit)}
    (h : ((visitDuring is).2.threads (some ())).result = some none)
    (i : Unit) : (visitDuring is).2.threads (some i) = .ret none :=
  Prog.result_eq_some.1 h

theorem no_gap_readAfterJoin : NoGap visit [] (visitDuring readAfterJoin).2.state :=
  no_gap (visitDuring_run readAfterJoin) (by decide +kernel)
    (noStaleSend_of_member (visitDuring_run readAfterJoin) sender_ne_visitor (by decide +kernel))
    (Prog.result_eq_some.1 (by decide +kernel)) (visitDuring_returned (by decide +kernel))

theorem message_missed : ¬ ∀ (uuid : UuidLib) (host : Host),
    Host.Reached uuid (.initial 200 0 0) host →
    ∀ (ι : Type) [DecidableEq ι] (v : Visit) (sends : ι → SendRequest)
      (tr : List (Event Server (Option ι) Call Call.Res (Option (List MessageEvent))))
      (final : Config Server (Option ι) Call Call.Res (Option (List MessageEvent)))
      (events : List MessageEvent),
      host.server.session v.client ≠ none → (∀ i, (sends i).sender ≠ v.client) →
      Run ports Env (visiting v sends host.server) tr final → Covers v tr →
      final.threads none = .ret (some events) → (∀ i, final.threads (some i) = .ret none) →
      NoGap v events final.state := by
  intro hall
  have hgap := hall _ _ visitor_reached Unit visit oneSend _ _ [] (by decide +kernel) sender_ne_visitor
    (visitDuring_run readBeforeJoin) (by decide +kernel) (Prog.result_eq_some.1 (by decide +kernel))
    (visitDuring_returned (by decide +kernel))
  have hlen : ((visitDuring readBeforeJoin).2.state.messages.buffer ⟨1⟩).length = 1 := by decide +kernel
  obtain ⟨m, hm⟩ := List.exists_mem_of_length_pos
    (by omega : 0 < ((visitDuring readBeforeJoin).2.state.messages.buffer ⟨1⟩).length)
  have hstream : (visitDuring readBeforeJoin).2.state.publisher.written 0 = [] := by decide +kernel
  rcases hgap m hm with ⟨event, hevent, -⟩ | ⟨event, -, hevent⟩
  · exact absurd hevent List.not_mem_nil
  · rw [show visit.stream = 0 from rfl, hstream] at hevent
    exact absurd hevent List.not_mem_nil

end Bcmd
