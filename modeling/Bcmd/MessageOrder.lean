import Bcmd.History
import Bcmd.Lib.Window

/-!
# The order of the messages of a channel

A message gets its time when it is built, its place in the history when it is saved, and its place in a
stream when it is published there. The three orders are one if no send is overtaken by another between
these steps.
-/

namespace Bcmd
open Server

/-- The environment with a system clock that does not go back either. -/
structure Onward (s s' : Server) : Prop extends Env s s' where
  systemNow : s.systemNow ≤ s'.systemNow

/-! ### What a send does in which order -/

section
variable {α : Type}

/-- The program saves a message right after it has built it, and publishes that one right after. -/
def Sends : Task α → Prop
  | .ret _ => True
  | .call o f =>
    (∀ s k, ∀ m ∈ toSave k (f (handle o s).1), m.sentAt = s.systemNow) ∧
    (∀ s, ∀ q ∈ toPublish (f (handle o s).1), o = .messages (.save q.2) ∨ q ∈ toPublish (.call o f)) ∧
    (∀ p ∈ publishedBy o, ∀ r, ∀ q ∈ toPublish (f r), q.2 = p.2) ∧ ∀ r, Sends (f r)

theorem sends_publishEach (m : Message) (cs : List ClientId) (a : α) :
    Sends (SendMessage.publishEach m cs >>= fun _ => .ret a) := by
  induction cs with
  | nil => trivial
  | cons c cs ih =>
    have hnone : ∀ k, toSave k (SendMessage.publishEach m cs >>= fun _ => Prog.ret a) = none := by
      intro k
      rcases cs with _ | ⟨d, cs⟩ <;> rfl
    refine ⟨fun s k m' hm' => ?_, fun s q hq => .inr (List.mem_cons_of_mem _ hq), fun p hp r q hq => ?_,
      fun _ => ih⟩
    · exact absurd ((hnone k).symm.trans hm') nofun
    · cases hp
      have hq' : q ∈ toPublish (SendMessage.publishEach m cs >>= fun _ => Prog.ret a) := hq
      rw [toPublish_publishEach] at hq'
      obtain ⟨d, -, rfl⟩ := List.mem_map.1 hq'
      rfl

/-- The program is not about to save or publish. -/
def Idle (p : Task α) : Prop := (∀ k, toSave k p = none) ∧ toPublish p = []

theorem Sends.of_idle {o : Call} {f : o.Res → Task α} (ho : publishedBy o = none) (h : ∀ r, Idle (f r))
    (hf : ∀ r, Sends (f r)) : Sends (.call o f) := by
  refine ⟨fun s k m hm => ?_, fun s q hq => ?_, fun p hp => ?_, hf⟩
  · exact absurd (((h _).1 k).symm.trans hm) nofun
  · rw [(h _).2] at hq
    exact absurd hq List.not_mem_nil
  · exact absurd (ho.symm.trans hp) nofun

theorem sends_save (m : Message) (cs : List ClientId) (a : Result MessageId) :
    Sends (messages.save m >>= fun r => match r with
      | .error e => .ret (.error e)
      | .ok () => SendMessage.publishEach m cs >>= fun _ => .ret a) := by
  refine ⟨fun s k m' hm' => ?_, fun s q hq => .inl ?_, nofun, fun r => ?_⟩
  · rcases cs with _ | ⟨c, cs⟩ <;> exact absurd hm' nofun
  · have hq' : q ∈ toPublish (SendMessage.publishEach m cs >>= fun _ => Prog.ret a) := hq
    rw [toPublish_publishEach] at hq'
    obtain ⟨d, -, rfl⟩ := List.mem_map.1 hq'
    rfl
  · rcases r with e | _
    · trivial
    · exact sends_publishEach m cs a

theorem sends_run (r : SendRequest) : Sends r.run := by
  simp only [SendRequest.run, SendMessage.execute]
  refine .of_idle rfl (fun cs => ?_) fun cs => ?_
  · rcases cs with e | cs <;> exact ⟨fun _ => rfl, rfl⟩
  rcases cs with e | cs
  · trivial
  refine .of_idle rfl (fun ch => ?_) fun ch => ?_
  · rcases ch with e | ch
    · exact ⟨fun _ => rfl, rfl⟩
    · dsimp only [Prog.bind]
      split
      · exact ⟨fun _ => rfl, rfl⟩
      · rcases MessageContent.create r.content with e | content <;> exact ⟨fun _ => rfl, rfl⟩
  rcases ch with e | ch
  · trivial
  dsimp only [Prog.bind]
  split
  · trivial
  rcases MessageContent.create r.content with e | content
  · trivial
  refine ⟨fun s k m hm => ?_, fun s q hq => absurd hq List.not_mem_nil, by simp [publishedBy],
    fun m => sends_save m _ _⟩
  have hsaved : m ∈ savedBy k (.messages (.save
    (handle (.newMessage r.sender r.channelId content) s).1)) := hm
  obtain ⟨hcall, -⟩ := mem_savedBy.1 hsaved
  cases hcall
  rfl

end

/-! ### Runs -/

section
variable {ι : Type}

def sending (sends : ι → SendRequest) (s : Server) : Config Server ι Call Call.Res (Result MessageId) :=
  ⟨s, fun i => (sends i).run⟩

/-- No send overtakes another: when one saves, none with an earlier time has still to save, and when one
publishes to a stream, none that has saved earlier has still to publish there. -/
structure InTurn (k : ChannelId) (s : Server)
    (tr : List (Event Server ι Call Call.Res (Result MessageId))) : Prop where
  saves : ∀ e ∈ tr, ∀ m ∈ savedBy k e.call, ∀ i, i ≠ e.thread → ∀ m' ∈ toSave k (e.pre.threads i),
    m.sentAt ≤ m'.sentAt
  publishes : ∀ e ∈ tr, ∀ p ∈ publishedBy e.call, p.2.channelId = k → ∀ i, i ≠ e.thread →
    ∀ q ∈ toPublish (e.pre.threads i), q.2.channelId = k →
    ∀ w ∈ e.pre.state.publisher.writers.lookup p.1, e.pre.state.publisher.writers.lookup q.1 = some w →
      ¬ [q.2, p.2].Sublist (log k s tr)

/-- The ids of the channel's messages among the events. -/
def messageIds (k : ChannelId) (events : List ChannelEvent) : List MessageId :=
  events.filterMap fun
    | .message m => if m.channelId = k then some m.messageId else none
    | _ => none

/-- A history that was in the order of time stays so, and every stream receives the messages in the order in
which they are saved. -/
structure OneOrder (k : ChannelId) (s : Server) (tr : List (Event Server ι Call Call.Res (Result MessageId)))
    (final : Server) : Prop where
  history : (s.messages.buffer k).Pairwise (fun a b => a.sentAt ≤ b.sentAt) →
    (∀ m ∈ s.messages.buffer k, m.sentAt ≤ s.systemNow) →
    (final.messages.buffer k).Pairwise fun a b => a.sentAt ≤ b.sentAt
  streams : ∀ w, ∃ received, final.publisher.written w = s.publisher.written w ++ received ∧
    (messageIds k received).Pairwise fun a b => a = b ∨ [a, b].Sublist ((log k s tr).map Message.id)

/-! ### The history -/

/-- The history is in order, and what is about to be saved is later than all of it. -/
structure Timely (k : ChannelId) (m : Config Server ι Call Call.Res (Result MessageId)) : Prop where
  sorted : (m.state.messages.buffer k).Pairwise fun a b => a.sentAt ≤ b.sentAt
  past : ∀ a ∈ m.state.messages.buffer k, a.sentAt ≤ m.state.systemNow
  pending : ∀ i, ∀ b ∈ toSave k (m.threads i), b.sentAt ≤ m.state.systemNow ∧
    ∀ a ∈ m.state.messages.buffer k, a.sentAt ≤ b.sentAt

variable {k : ChannelId} {s s' : Server} {m : Config Server ι Call Call.Res (Result MessageId)}

theorem Timely.env (h : Timely k m) (he : Onward m.state s') : Timely k ⟨s', m.threads⟩ := by
  refine ⟨?_, fun a ha => ?_, fun i b hb => ⟨?_, fun a ha => ?_⟩⟩
  · rw [he.messages]; exact h.sorted
  · rw [he.messages] at ha
    exact (h.past a ha).trans he.systemNow
  · exact (h.pending i b hb).1.trans he.systemNow
  · rw [he.messages] at ha
    exact (h.pending i b hb).2 a ha

theorem Timely.step [DecidableEq ι] {i : ι} {o : Call} (h : Timely k m) (hn : (m.threads i).next = some o)
    (hsends : Sends (m.threads i))
    (hturn : ∀ a ∈ savedBy k o, ∀ j, j ≠ i → ∀ b ∈ toSave k (m.threads j), a.sentAt ≤ b.sentAt) :
    Timely k (m.advance ports i) := by
  obtain ⟨f, hf⟩ := Prog.eq_call_of_next hn
  have hstate : (m.advance ports i).state = (handle o m.state).2 := Config.advance_state hn
  have hmem : ∀ a ∈ (handle o m.state).2.messages.buffer k, a ∈ m.state.messages.buffer k ∨
      a ∈ savedBy k o := by
    intro a ha
    rcases List.mem_append.1 ((buffer_handle o m.state k).subset ha) with ha | ha
    · exact .inl ha
    · exact .inr (Option.mem_toList.1 ha)
  have hsaving : ∀ a ∈ savedBy k o, a ∈ toSave k (m.threads i) := by
    intro a ha
    rw [toSave, hn]
    exact ha
  have hpast : ∀ a ∈ (handle o m.state).2.messages.buffer k, a.sentAt ≤ m.state.systemNow := by
    intro a ha
    rcases hmem a ha with ha | ha
    · exact h.past a ha
    · exact (h.pending i a (hsaving a ha)).1
  refine ⟨?_, fun a ha => ?_, fun j b hb => ?_⟩
  · rw [hstate]
    refine List.Pairwise.sublist (buffer_handle o m.state k).sublist ?_
    refine List.pairwise_append.2 ⟨h.sorted, ?_, fun a ha b hb => ?_⟩
    · rcases savedBy k o with _ | b <;> simp
    · exact (h.pending i b (hsaving b (Option.mem_toList.1 hb))).2 a ha
  · rw [hstate] at ha ⊢
    rw [handle_systemNow]
    exact hpast a ha
  · rw [hstate, handle_systemNow]
    by_cases hj : j = i
    · subst hj
      -- what is about to be saved has just been built
      rw [Config.advance_threads_self hf] at hb
      rw [hf] at hsends
      have hnow : b.sentAt = m.state.systemNow := hsends.1 m.state k b hb
      exact ⟨hnow.le, fun a ha => by rw [hnow]; exact hpast a ha⟩
    · rw [Config.advance_threads_ne hj] at hb
      refine ⟨(h.pending j b hb).1, fun a ha => ?_⟩
      rcases hmem a ha with ha | ha
      · exact (h.pending j b hb).2 a ha
      · exact hturn a ha j hj b hb

variable [DecidableEq ι] {sends : ι → SendRequest}
  {tr : List (Event Server ι Call Call.Res (Result MessageId))}

theorem sends_of_run (h : Run ports Onward (sending sends s) tr m) (i : ι) : Sends (m.threads i) :=
  h.thread_inv (sends_run (sends i)) fun _ _ _ hs => hs.2.2.2 _

theorem history_of_run (h : Run ports Onward (sending sends s) tr m) (hturn : InTurn k s tr)
    (hsorted : (s.messages.buffer k).Pairwise fun a b => a.sentAt ≤ b.sentAt)
    (hpast : ∀ a ∈ s.messages.buffer k, a.sentAt ≤ s.systemNow) : Timely k m := by
  refine h.inv ⟨hsorted, hpast, nofun⟩ (fun m s' hm he => hm.env he) fun e he hm hn _ => ?_
  obtain ⟨tr₁, tr₂, rfl⟩ := List.append_of_mem he
  exact hm.step hn (sends_of_run h.at_event.1 e.thread) (hturn.saves e he)

/-! ### The streams -/

theorem messageIds_snoc (events : List ChannelEvent) (reg : InMemoryClientRegistry) (a : Message) :
    messageIds k (events ++ [.message (messageToEvent reg a)]) =
      messageIds k events ++ if a.channelId = k then [a.id] else [] := by
  unfold messageIds
  rw [List.filterMap_append]
  congr 1
  by_cases hk : a.channelId = k <;> simp [messageToEvent, hk]

/-- `a` is `b` or stands before it in the list. -/
def Before (ids : List MessageId) (a b : MessageId) : Prop := a = b ∨ [a, b].Sublist ids

/-- What the stream `w` got so far is in the order of the ids, and comes before all it has still to get. -/
structure StreamInOrder (k : ChannelId) (ids : List MessageId) (s : Server)
    (tr : List (Event Server ι Call Call.Res (Result MessageId)))
    (m : Config Server ι Call Call.Res (Result MessageId)) (w : StreamId)
    (received : List ChannelEvent) : Prop where
  written : m.state.publisher.written w = s.publisher.written w ++ received
  ordered : (messageIds k received).Pairwise (Before ids)
  logged : ∀ a ∈ messageIds k received, a ∈ (log k s tr).map Message.id
  pending : ∀ i, ∀ q ∈ toPublish (m.threads i), q.2.channelId = k → s.publisher.writers.lookup q.1 = some w →
    ∀ a ∈ messageIds k received, Before ids a q.2.id

structure InOrder (k : ChannelId) (ids : List MessageId) (s : Server)
    (tr : List (Event Server ι Call Call.Res (Result MessageId)))
    (m : Config Server ι Call Call.Res (Result MessageId)) : Prop where
  table : m.state.publisher.writers = s.publisher.writers
  saved : ∀ i, ∀ q ∈ toPublish (m.threads i), q.2.channelId = k → q.2 ∈ log k s tr
  streams : ∀ w, ∃ received, StreamInOrder k ids s tr m w received

omit [DecidableEq ι] in
/-- The stream gets nothing of the channel. -/
theorem StreamInOrder.skip {tr₁ tr₂ : List (Event Server ι Call Call.Res (Result MessageId))}
    {m m' : Config Server ι Call Call.Res (Result MessageId)} {w : StreamId} {ids : List MessageId}
    {received events : List ChannelEvent} (h : StreamInOrder k ids s tr₁ m w received)
    (hids : messageIds k (received ++ events) = messageIds k received) (hlog : log k s tr₂ = log k s tr₁)
    (hwritten : m'.state.publisher.written w = m.state.publisher.written w ++ events)
    (hpending : ∀ j, ∀ q ∈ toPublish (m'.threads j), q ∈ toPublish (m.threads j)) :
    StreamInOrder k ids s tr₂ m' w (received ++ events) := by
  constructor
  · rw [hwritten, h.written, List.append_assoc]
  · rw [hids]
    exact h.ordered
  · rw [hids, hlog]
    exact h.logged
  · rw [hids]
    intro j q hq
    exact h.pending j q (hpending j q hq)

theorem InOrder.publish {tr₁ : List (Event Server ι Call Call.Res (Result MessageId))} {i : ι} {c : ClientId}
    {a : Message} (h : InOrder k ((log k s tr).map Message.id) s tr₁ m)
    (hpre : ∃ later, log k s tr = log k s tr₁ ++ later)
    (hn : (m.threads i).next = some (.publisher (.publish c a))) (hsends : Sends (m.threads i))
    (hturn : a.channelId = k → ∀ j, j ≠ i → ∀ q ∈ toPublish (m.threads j), q.2.channelId = k →
      ∀ w ∈ m.state.publisher.writers.lookup c, m.state.publisher.writers.lookup q.1 = some w →
        ¬ [q.2, a].Sublist (log k s tr)) :
    InOrder k ((log k s tr).map Message.id) s (tr₁ ++ [⟨m, i, .publisher (.publish c a)⟩])
      (m.advance ports i) := by
  obtain ⟨f, hf⟩ := Prog.eq_call_of_next hn
  have hstate : (m.advance ports i).state = (handle (.publisher (.publish c a)) m.state).2 :=
    Config.advance_state hn
  have hlog : log k s (tr₁ ++ [⟨m, i, .publisher (.publish c a)⟩]) = log k s tr₁ := by
    rw [log_snoc]
    exact List.append_nil _
  have hmine : (c, a) ∈ toPublish (m.threads i) := by rw [hf]; exact List.mem_cons_self ..
  have hpending : ∀ j, ∀ q ∈ toPublish ((m.advance ports i).threads j), q ∈ toPublish (m.threads j) ∧
      (j = i → q.2 = a) := by
    intro j q hq
    by_cases hj : j = i
    · subst hj
      rw [Config.advance_threads_self hf] at hq
      rw [hf] at hsends ⊢
      exact ⟨List.mem_cons_of_mem _ hq, fun _ => hsends.2.2.1 (c, a) rfl () q hq⟩
    · rw [Config.advance_threads_ne hj] at hq
      exact ⟨hq, fun h => absurd h hj⟩
  have hwritten : ∀ w, (m.advance ports i).state.publisher.written w =
      if s.publisher.writers.lookup c = some w then
        m.state.publisher.written w ++ [.message (messageToEvent m.state.clients a)]
      else m.state.publisher.written w := by
    intro w
    rw [hstate, ← h.table]
    exact Subscribers.written_writeTo ..
  refine ⟨?_, fun j q hq hk => ?_, fun w => ?_⟩
  · rw [hstate, ← h.table]
    exact Subscribers.writers_writeTo ..
  · rw [hlog]
    exact h.saved j q (hpending j q hq).1 hk
  · obtain ⟨received, hr⟩ := h.streams w
    by_cases hw : s.publisher.writers.lookup c = some w
    · have hids := messageIds_snoc (k := k) received m.state.clients a
      by_cases hk : a.channelId = k
      · rw [if_pos hk] at hids
        refine ⟨received ++ [.message (messageToEvent m.state.clients a)], ?_, ?_, fun x hx => ?_,
          fun j q hq hqk hqw x hx => ?_⟩
        · rw [hwritten, if_pos hw, hr.written, List.append_assoc]
        · rw [hids]
          refine List.pairwise_append.2 ⟨hr.ordered, List.pairwise_singleton .., fun x hx y hy => ?_⟩
          rw [List.mem_singleton.1 hy]
          exact hr.pending i (c, a) hmine hk hw x hx
        · rw [hlog]
          rw [hids] at hx
          rcases List.mem_append.1 hx with hx | hx
          · exact hr.logged x hx
          · rw [List.mem_singleton.1 hx]
            exact List.mem_map_of_mem (h.saved i (c, a) hmine hk)
        · rw [hids] at hx
          rcases List.mem_append.1 hx with hx | hx
          · exact hr.pending j q (hpending j q hq).1 hqk hqw x hx
          · -- `a` comes before what others have still to publish to the stream: they do not lag behind
            rw [List.mem_singleton.1 hx]
            by_cases hj : j = i
            · rw [(hpending j q hq).2 hj]
              exact .inl rfl
            · obtain ⟨later, hlater⟩ := hpre
              have hin : ∀ b ∈ log k s tr₁, b ∈ log k s tr := fun b hb => by
                rw [hlater]
                exact List.mem_append_left _ hb
              rcases Window.pair_sublist_or (hin a (h.saved i (c, a) hmine hk))
                (hin q.2 (h.saved j q (hpending j q hq).1 hqk)) with heq | hlt | hgt
              · exact .inl (congrArg Message.id heq)
              · exact .inr (hlt.map Message.id)
              · exact absurd hgt (hturn hk j hj q (hpending j q hq).1 hqk w (by rw [h.table]; exact hw)
                  (by rw [h.table]; exact hqw))
      · rw [if_neg hk, List.append_nil] at hids
        refine ⟨_, hr.skip hids hlog ?_ fun j q hq => (hpending j q hq).1⟩
        rw [hwritten, if_pos hw]
    · refine ⟨received ++ [], hr.skip (by rw [List.append_nil]) hlog ?_ fun j q hq => (hpending j q hq).1⟩
      rw [hwritten, if_neg hw, List.append_nil]

theorem InOrder.quiet {tr₁ : List (Event Server ι Call Call.Res (Result MessageId))} {i : ι} {o : Call}
    {ids : List MessageId} (h : InOrder k ids s tr₁ m)
    (hpre : ∃ later, ids = (log k s (tr₁ ++ [⟨m, i, o⟩])).map Message.id ++ later)
    (hn : (m.threads i).next = some o) (hsends : Sends (m.threads i))
    (hsame : (handle o m.state).2.publisher = m.state.publisher) :
    InOrder k ids s (tr₁ ++ [⟨m, i, o⟩]) (m.advance ports i) := by
  obtain ⟨f, hf⟩ := Prog.eq_call_of_next hn
  have hstate : (m.advance ports i).state = (handle o m.state).2 := Config.advance_state hn
  -- what thread `i` has to publish now was to be published before, or has been saved by this call
  have hpending : ∀ j, ∀ q ∈ toPublish ((m.advance ports i).threads j), q.2.channelId = k →
      q ∈ toPublish (m.threads j) ∨ o = .messages (.save q.2) := by
    intro j q hq hk
    by_cases hj : j = i
    · subst hj
      rw [Config.advance_threads_self hf] at hq
      rw [hf] at hsends ⊢
      exact (hsends.2.1 m.state q hq).symm
    · rw [Config.advance_threads_ne hj] at hq
      exact .inl hq
  have hsaved : ∀ q : Message, o = .messages (.save q) → q.channelId = k →
      log k s (tr₁ ++ [⟨m, i, o⟩]) = log k s tr₁ ++ [q] := by
    intro q ho hk
    rw [log_snoc, show savedBy k o = some q from mem_savedBy.2 ⟨ho, hk⟩]
    rfl
  have hlog : ∀ a ∈ log k s tr₁, a ∈ log k s (tr₁ ++ [⟨m, i, o⟩]) := fun a ha => by
    rw [log_snoc]
    exact List.mem_append_left _ ha
  refine ⟨?_, fun j q hq hk => ?_, fun w => ?_⟩
  · rw [hstate, hsame]
    exact h.table
  · rcases hpending j q hq hk with hq | hq
    · exact hlog _ (h.saved j q hq hk)
    · rw [hsaved q.2 hq hk]
      simp
  · obtain ⟨received, hr⟩ := h.streams w
    refine ⟨received, ?_, hr.ordered, fun a ha => ?_, fun j q hq hk hw a ha => ?_⟩
    · rw [hstate, hsame]
      exact hr.written
    · obtain ⟨b, hb, rfl⟩ := List.mem_map.1 (hr.logged a ha)
      exact List.mem_map_of_mem (hlog b hb)
    · rcases hpending j q hq hk with hq | hq
      · exact hr.pending j q hq hk hw a ha
      · -- the message is saved now, after all that the stream has got
        obtain ⟨later, rfl⟩ := hpre
        rw [hsaved q.2 hq hk, List.map_append]
        refine .inr (List.Sublist.trans ?_ (List.sublist_append_left _ later))
        exact (List.singleton_sublist.2 (hr.logged a ha)).append (List.Sublist.refl [q.2.id])

theorem streams_of_run {final : Config Server ι Call Call.Res (Result MessageId)}
    (h : Run ports Onward (sending sends s) tr final) (hturn : InTurn k s tr) :
    InOrder k ((log k s tr).map Message.id) s tr final := by
  refine h.trace_inv (I := fun tr₁ m => tr₁ <+: tr → InOrder k ((log k s tr).map Message.id) s tr₁ m)
    (fun _ => ?_)
    (fun tr₁ m s' _ hm he hpre => ?_) (fun tr₁ m i o h₁ hn _ hm hpre => ?_) List.prefix_rfl
  · have hidle : ∀ i, toPublish ((sending sends s).threads i) = [] := fun _ => rfl
    refine ⟨rfl, fun i q hq => ?_, fun w => ⟨[], (List.append_nil _).symm, .nil, nofun, nofun⟩⟩
    rw [hidle i] at hq
    cases hq
  · obtain ⟨htable, hsaved, hstreams⟩ := hm hpre
    refine ⟨by rw [he.publisher]; exact htable, hsaved, fun w => ?_⟩
    obtain ⟨received, hr⟩ := hstreams w
    exact ⟨received, by rw [he.publisher]; exact hr.written, hr.ordered, hr.logged, hr.pending⟩
  · have hin := hm ((List.prefix_append tr₁ _).trans hpre)
    have hsends := sends_of_run h₁ i
    obtain ⟨tr₂, htr⟩ := hpre
    have he : (⟨m, i, o⟩ : Event Server ι Call Call.Res (Result MessageId)) ∈ tr := by rw [← htr]; simp
    rcases ((h.calls (i := i) (sends i).calls_run).2 _ he rfl).publisher with ⟨c, a, rfl⟩ | hsame
    · refine hin.publish ⟨saved k (⟨m, i, .publisher (.publish c a)⟩ :: tr₂), ?_⟩ hn hsends
        fun hk j hj q hq hqk w hw hqw => ?_
      · rw [← log_append, ← htr]
        simp
      · exact hturn.publishes _ he (c, a) rfl hk j hj q hq hqk w hw hqw
    · refine hin.quiet ⟨(saved k tr₂).map Message.id, ?_⟩ hn hsends (hsame m.state)
      rw [← List.map_append, ← log_append, htr]

/-- Sends that do not overtake each other keep one order. -/
theorem one_order {final : Config Server ι Call Call.Res (Result MessageId)}
    (h : Run ports Onward (sending sends s) tr final) (hturn : InTurn k s tr) :
    OneOrder k s tr final.state where
  history hsorted hpast := (history_of_run h hturn hsorted hpast).sorted
  streams w := by
    obtain ⟨received, hr⟩ := (streams_of_run h hturn).streams w
    exact ⟨received, hr.written, hr.ordered⟩

end

/-! The one client sends two messages and listens. -/

def twoSends (second : Bool) : SendRequest :=
  ⟨.byId, ⟨2⟩, ⟨1⟩, ascii (if second then "two" else "one"), .includeSender⟩

def sendingTwo (is : List Bool) := schedule ports (sending twoSends listening.server) is

/-- A nanosecond passes. -/
def tick (m : Config Server Bool Call Call.Res (Result MessageId)) :
    Config Server Bool Call Call.Res (Result MessageId) :=
  ⟨{ m.state with systemNow := m.state.systemNow + 1 }, m.threads⟩

def sendingOn (is is' : List Bool) := schedule ports (tick (sendingTwo is).2) is'

theorem sendingOn_run (is is' : List Bool) :
    Run ports Onward (sending twoSends listening.server) ((sendingTwo is).1 ++ (sendingOn is is').1)
      (sendingOn is is').2 := by
  have htick : Onward (sendingTwo is).2.state (tick (sendingTwo is).2).state :=
    ⟨⟨rfl, rfl, rfl, rfl, rfl, Finset.Subset.refl _, le_refl _, le_refl _⟩, by simp [tick]⟩
  exact ((run_schedule ports Onward _ is).env htick).trans (run_schedule ports Onward _ is')

/-- The second send saves after the first one, and publishes after it. -/
theorem one_order_sendingOn :
    OneOrder ⟨1⟩ listening.server
      ((sendingTwo [false, false, false, false, true, true]).1 ++
        (sendingOn [false, false, false, false, true, true] [true, true, false, true]).1)
      (sendingOn [false, false, false, false, true, true] [true, true, false, true]).2.state :=
  one_order (sendingOn_run ..) ⟨by decide +kernel, by decide +kernel⟩

theorem out_of_order : ¬ ∀ (uuid : UuidLib) (host : Host),
    Host.Reached uuid (.initial 200 0 0) host →
    ∀ (ι : Type) [DecidableEq ι] (k : ChannelId) (sends : ι → SendRequest)
      (tr : List (Event Server ι Call Call.Res (Result MessageId)))
      (final : Config Server ι Call Call.Res (Result MessageId)),
      Run ports Onward (sending sends host.server) tr final → OneOrder k host.server tr final.state := by
  intro hall
  have horder := hall _ _ listening_reached _ ⟨1⟩ _ _ _
    (sendingOn_run [false, false, false] [true, true, true, true, false, false, true])
  exact absurd (horder.history (by decide +kernel) (by decide +kernel)) (by decide +kernel)

end Bcmd
