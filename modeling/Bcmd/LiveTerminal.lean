import Bcmd.ActiveChannel
import Bcmd.Delivery
import Bcmd.Subscription

/-!
# A terminal on a live server

The server's pool of requests, and one terminal client with its screen and any number of subscription threads,
each at its own place in its own stream, all interleaved. What the terminal holds are the messages of its
streams, each once and in the order of its stream, and a message that was typed at another terminal is shown
as it was typed.
-/

namespace Bcmd.Cli
open Server FtxuiPresenter

/-- Where a subscription thread is: at `Read`, in `showMessage` before and after the presenter's lock, or
through. -/
inductive Place
  | reading
  | showing (message : InboxMessage)
  | enqueuing (message : InboxMessage)
  | finished

/-- A thread in `runSubscription`, and how many events it has read. -/
structure SubscriptionThread where
  channelId : Bytes
  stream : StreamId
  read : Nat
  place : Place

structure Live (ι τ : Type) where
  server : Config Server ι Call Call.Res Response
  presenter : FtxuiPresenter
  threads : τ → SubscriptionThread

section
variable {ι τ : Type} [DecidableEq ι] [DecidableEq τ]

/-- Before the threads have read anything; one that is started later has not read until then. -/
def Live.start (uuid : UuidLib) (order : ι → BucketOrder) (requests : ι → Request) (s : Server)
    (channelId : τ → Bytes) (stream : τ → StreamId) : Live ι τ :=
  ⟨serving uuid order requests s, initial.setActions .all, fun j => ⟨trim (channelId j), stream j, 0, .reading⟩⟩

def Live.setThread (x : Live ι τ) (j : τ) (thread : SubscriptionThread) : Live ι τ :=
  { x with threads := Function.update x.threads j thread }

/-- `y` is reached from `x`: the server's calls are `tr`, and `shown` are the messages that were put into the
queue, each with the thread that did it, if it was one of the threads. -/
inductive Live.Reached (write : Nat → Bytes) (x : Live ι τ) :
    List (Event Server ι Call Call.Res Response) → List (Option τ × InboxMessage) → Live ι τ → Prop
  | refl : Reached write x [] [] x
  | call {tr shown y i o} (h : Reached write x tr shown y) (hn : (y.server.threads i).next = some o)
      (he : ports.enabled o y.server.state) :
      Reached write x (tr ++ [⟨y.server, i, o⟩]) shown { y with server := y.server.advance ports i }
  | env {tr shown y s'} (h : Reached write x tr shown y) (he : Env y.server.state s') :
      Reached write x tr shown { y with server := ⟨s', y.server.threads⟩ }
  /-- `Read` returns the next event. -/
  | read {tr shown y} (h : Reached write x tr shown y) (j : τ) (hplace : (y.threads j).place = .reading)
      {event : ChannelEvent} (now : Int)
      (hevent : (y.server.state.publisher.written (y.threads j).stream)[(y.threads j).read]? = some event) :
      Reached write x tr shown (y.setThread j { y.threads j with
        read := (y.threads j).read + 1
        place := match GrpcServerGateway.emitted write (y.threads j).channelId now event with
          | none => .reading
          | some message => .showing message })
  | followScroll {tr shown y} (h : Reached write x tr shown y) (j : τ) {message : InboxMessage}
      (hplace : (y.threads j).place = .showing message) :
      Reached write x tr shown
        { y.setThread j { y.threads j with place := .enqueuing message } with
          presenter := y.presenter.followScroll }
  | enqueue {tr shown y} (h : Reached write x tr shown y) (j : τ) {message : InboxMessage}
      (hplace : (y.threads j).place = .enqueuing message) :
      Reached write x tr (shown ++ [(some j, message)])
        { y.setThread j { y.threads j with place := .reading } with presenter := y.presenter.enqueue message }
  /-- `Read` returns false, as the stream has ended or the transport has failed, and `Finish` the status. -/
  | finish {tr shown y} (h : Reached write x tr shown y) (j : τ) (hplace : (y.threads j).place = .reading)
      (status : Except RpcStatus Unit) :
      Reached write x tr shown
        { y.setThread j { y.threads j with place := .finished } with
          presenter := match status with
            | .ok () => y.presenter
            | .error status => y.presenter.showError (ascii (errorMessage (statusToError status))) }
  | screen {tr shown y p'} (h : Reached write x tr shown y) (hscreen : y.presenter.Screen p') :
      Reached write x tr shown { y with presenter := p' }
  /-- The session's own notices have no id. -/
  | notice {tr shown y} (h : Reached write x tr shown y) (channelId senderName content : Bytes) (now : Int) :
      Reached write x tr (shown ++ [(none, ⟨[], channelId, senderName, content, now, false⟩)])
        { y with presenter := y.presenter.enqueue ⟨[], channelId, senderName, content, now, false⟩ }

/-! ### What is shown of each stream -/

omit [DecidableEq ι] in
@[simp] theorem Live.setThread_self (x : Live ι τ) (j : τ) (thread : SubscriptionThread) :
    (x.setThread j thread).threads j = thread := Function.update_self ..

omit [DecidableEq ι] in
theorem Live.setThread_other (x : Live ι τ) {j j' : τ} (thread : SubscriptionThread) (h : j' ≠ j) :
    (x.setThread j thread).threads j' = x.threads j' := Function.update_of_ne h ..

/-- The messages with an id, of those that the thread has put into the queue. -/
def fromThread (j : τ) (shown : List (Option τ × InboxMessage)) : List InboxMessage :=
  shown.filterMap fun entry => if entry.1 = some j ∧ entry.2.messageId ≠ [] then some entry.2 else none

/-- The message with an id that the thread has read and not put into the queue yet. -/
def SubscriptionThread.pending (thread : SubscriptionThread) : List InboxMessage :=
  match thread.place with
  | .showing message | .enqueuing message => if message.messageId ≠ [] then [message] else []
  | _ => []

/-- The messages among the events that the thread has read. -/
def SubscriptionThread.taken (write : Nat → Bytes) (thread : SubscriptionThread) (s : Server) :
    List InboxMessage :=
  (((s.publisher.written thread.stream).take thread.read).filterMap ChannelEvent.message?).map
    (messageText write)

/-- The terminal holds what was put into the queue, and a thread has put in what it has read, in order. -/
structure Live.Ordered (write : Nat → Bytes) (shown : List (Option τ × InboxMessage)) (x : Live ι τ) :
    Prop where
  held : x.presenter.held = shown.map Prod.snd
  read_le : ∀ j, (x.threads j).read ≤ (x.server.state.publisher.written (x.threads j).stream).length
  taken : ∀ j, fromThread j shown ++ (x.threads j).pending = (x.threads j).taken write x.server.state
  notices : ∀ message, (none, message) ∈ shown → message.messageId = []

variable {write : Nat → Bytes} {shown : List (Option τ × InboxMessage)} {x y : Live ι τ} {j j' : τ}
  {tr : List (Event Server ι Call Call.Res Response)} {message : InboxMessage}

omit [DecidableEq ι] in
theorem fromThread_snoc (entry : Option τ × InboxMessage) : fromThread j (shown ++ [entry]) =
    fromThread j shown ++ if entry.1 = some j ∧ entry.2.messageId ≠ [] then [entry.2] else [] := by
  unfold fromThread
  rw [List.filterMap_append]
  split <;> simp_all

/-- A call only adds to what is on a stream. -/
theorem written_grows (o : Call) (s : Server) (w : StreamId) :
    s.publisher.written w <+: (handle o s).2.publisher.written w := by
  by_cases hp : ∃ o', o = .publisher o'
  swap
  · rw [publisher_handle s (o := o) fun o' ho => hp ⟨o', ho⟩]
  obtain ⟨o, rfl⟩ := hp
  rcases o with ⟨d, v⟩ | d | ⟨d, m⟩ | ⟨k, recipients, d, name⟩ | ⟨k, recipients, d, name⟩
  case publish =>
    show _ <+: (s.publisher.writeTo d (.message (messageToEvent s.clients m))).written w
    rw [Subscribers.written_writeTo]
    split
    · exact List.prefix_append _ _
    · exact List.prefix_refl _
  case broadcastMemberJoined => exact List.prefix_append _ _
  case broadcastMemberLeft => exact List.prefix_append _ _
  all_goals exact List.prefix_refl _

omit [DecidableEq ι] in
theorem Live.Ordered.start (uuid : UuidLib) (order : ι → BucketOrder) (requests : ι → Request)
    (s : Server) (channelId : τ → Bytes) (stream : τ → StreamId) :
    (Live.start uuid order requests s channelId stream).Ordered write [] := by
  refine ⟨rfl, fun j => Nat.zero_le _, fun j => ?_, by simp⟩
  simp [Live.start, fromThread, SubscriptionThread.pending, SubscriptionThread.taken]

omit [DecidableEq ι] in
/-- More on the streams: what was read of them is the same. -/
theorem Live.Ordered.grow (h : x.Ordered write shown) (hpresenter : y.presenter = x.presenter)
    (hthreads : y.threads = x.threads)
    (hgrow : ∀ w, x.server.state.publisher.written w <+: y.server.state.publisher.written w) :
    y.Ordered write shown := by
  refine ⟨by rw [hpresenter, h.held], fun j => ?_, fun j => ?_, h.notices⟩
  · rw [hthreads]
    exact (h.read_le j).trans (hgrow _).length_le
  · rw [hthreads, h.taken j]
    obtain ⟨more, hmore⟩ := hgrow (x.threads j).stream
    unfold SubscriptionThread.taken
    rw [← hmore, List.take_append_of_le_length (h.read_le j)]

omit [DecidableEq ι] in
/-- One thread goes on, with what it takes in and what it has put into the queue; the others stay. -/
theorem Live.Ordered.move (h : x.Ordered write shown) {thread : SubscriptionThread}
    {entries : List (Option τ × InboxMessage)} (hserver : y.server = x.server)
    (hthread : y.threads = (x.setThread j thread).threads)
    (hheld : y.presenter.held = x.presenter.held ++ entries.map Prod.snd)
    (hentries : ∀ entry ∈ entries, entry.1 = some j)
    (hread : thread.read ≤ (x.server.state.publisher.written thread.stream).length)
    (htaken : fromThread j (shown ++ entries) ++ thread.pending = thread.taken write x.server.state) :
    y.Ordered write (shown ++ entries) := by
  refine ⟨by rw [hheld, h.held, List.map_append], fun j' => ?_, fun j' => ?_, fun message hm => ?_⟩
  · rw [hserver, hthread]
    by_cases hj : j' = j
    · rw [hj, setThread_self]
      exact hread
    · rw [setThread_other _ _ hj]
      exact h.read_le j'
  · rw [hserver, hthread]
    by_cases hj : j' = j
    · rw [hj, setThread_self]
      exact htaken
    · have hnone : fromThread j' (shown ++ entries) = fromThread j' shown := by
        unfold fromThread
        rw [List.filterMap_append]
        have hnil : (entries.filterMap fun entry =>
            if entry.1 = some j' ∧ entry.2.messageId ≠ [] then some entry.2 else none) = [] := by
          rw [List.filterMap_eq_nil_iff]
          intro entry hentry
          rw [if_neg]
          rintro ⟨hof, -⟩
          rw [hentries entry hentry] at hof
          exact hj (Option.some.inj hof).symm
        rw [hnil, List.append_nil]
      rw [setThread_other _ _ hj, hnone]
      exact h.taken j'
  · rcases List.mem_append.1 hm with hm | hm
    · exact h.notices message hm
    · cases hentries _ hm

theorem Live.ordered_of_reached (hwrite : ∀ n, write n ≠ []) (hx : x.Ordered write [])
    (h : Live.Reached write x tr shown y) : y.Ordered write shown := by
  induction h with
  | refl => exact hx
  | @call tr shown y i o h hn he ih =>
    refine ih.grow rfl rfl fun w => ?_
    show _ <+: (y.server.advance ports i).state.publisher.written w
    rw [Config.advance_state hn]
    exact written_grows o _ w
  | env h he ih =>
    refine ih.grow rfl rfl fun w => ?_
    rw [he.publisher]
  | @read tr shown y h j hplace event now hevent ih =>
    obtain ⟨hlt, -⟩ := List.getElem?_eq_some_iff.1 hevent
    have hold := ih.taken j
    have htake : (y.server.state.publisher.written (y.threads j).stream).take ((y.threads j).read + 1) =
        (y.server.state.publisher.written (y.threads j).stream).take (y.threads j).read ++ [event] := by
      rw [List.take_add_one, hevent]
      rfl
    rw [← List.append_nil shown]
    refine ih.move rfl rfl (List.append_nil _).symm (by simp) hlt ?_
    have hbefore : (y.threads j).pending = [] := by simp [SubscriptionThread.pending, hplace]
    rw [hbefore, List.append_nil] at hold
    unfold SubscriptionThread.taken at hold ⊢
    rw [List.append_nil, htake, List.filterMap_append, List.map_append, ← hold]
    congr 1
    -- only a message has an id
    by_cases hmessage : ∃ m, event = .message m
    · obtain ⟨m, rfl⟩ := hmessage
      have hid : (messageText write m).messageId ≠ [] := hwrite _
      simp [SubscriptionThread.pending, emitted_message, hid, ChannelEvent.message?]
    · have hnone : event.message? = none := by
        cases event with
        | message m => exact absurd ⟨m, rfl⟩ hmessage
        | memberJoined | memberLeft => rfl
      rcases hemitted : GrpcServerGateway.emitted write (y.threads j).channelId now event with _ | text
      · simp [SubscriptionThread.pending, hnone]
      · have hid := emitted_other write (fun m hm => hmessage ⟨m, hm⟩) hemitted
        simp [SubscriptionThread.pending, hid, hnone]
  | @followScroll tr shown y h j message hplace ih =>
    have hold := ih.taken j
    rw [← List.append_nil shown]
    refine ih.move rfl rfl (by simp) (by simp) (ih.read_le j) ?_
    rw [List.append_nil]
    simpa [SubscriptionThread.pending, SubscriptionThread.taken, hplace] using hold
  | @enqueue tr shown y h j message hplace ih =>
    have hold := ih.taken j
    refine ih.move (j := j) rfl rfl (by simp) (by simp) (ih.read_le j) ?_
    rw [fromThread_snoc]
    simpa [SubscriptionThread.pending, SubscriptionThread.taken, hplace] using hold
  | @finish tr shown y h j hplace status ih =>
    have hold := ih.taken j
    rw [← List.append_nil shown]
    refine ih.move rfl rfl ?_ (by simp) (ih.read_le j) ?_
    · rw [List.map_nil, List.append_nil]
      rcases status with status | _ <;> rfl
    · rw [List.append_nil]
      simpa [SubscriptionThread.pending, SubscriptionThread.taken, hplace] using hold
  | screen h hscreen ih => exact ⟨hscreen.held.trans ih.held, ih.read_le, ih.taken, ih.notices⟩
  | notice h channelId senderName content now ih =>
    refine ⟨?_, ih.read_le, fun j => ?_, fun message hm => ?_⟩
    · rw [held_enqueue, ih.held, List.map_append]
      rfl
    · rw [fromThread_snoc]
      simpa using ih.taken j
    · rcases List.mem_append.1 hm with hm | hm
      · exact ih.notices message hm
      · cases List.mem_singleton.1 hm
        rfl

/-- The server's part is a run of the pool, and the threads keep their streams. -/
theorem Live.run_of_reached (h : Live.Reached write x tr shown y) :
    Run ports Env x.server tr y.server ∧ ∀ j, (y.threads j).stream = (x.threads j).stream := by
  have hset : ∀ {y : Live ι τ} {j : τ} {thread : SubscriptionThread} (j' : τ),
      thread.stream = (y.threads j).stream →
      ((y.setThread j thread).threads j').stream = (y.threads j').stream := by
    intro y j thread j' hthread
    by_cases hj : j' = j
    · rw [hj, setThread_self, hthread]
    · rw [setThread_other _ _ hj]
  induction h with
  | refl => exact ⟨.refl, fun _ => rfl⟩
  | call h hn he ih => exact ⟨ih.1.step hn he, ih.2⟩
  | env h he ih => exact ⟨ih.1.env he, ih.2⟩
  | read h j hplace now hevent ih => exact ⟨ih.1, fun j' => (hset j' (by rfl)).trans (ih.2 j')⟩
  | followScroll h j hplace ih => exact ⟨ih.1, fun j' => (hset j' (by rfl)).trans (ih.2 j')⟩
  | enqueue h j hplace ih => exact ⟨ih.1, fun j' => (hset j' (by rfl)).trans (ih.2 j')⟩
  | finish h j hplace status ih => exact ⟨ih.1, fun j' => (hset j' (by rfl)).trans (ih.2 j')⟩
  | screen h hscreen ih => exact ih
  | notice h channelId senderName content now ih => exact ih

section
variable {uuid : UuidLib} {order : ι → BucketOrder} {requests : ι → Request} {host : Host}
  {channelId : τ → Bytes} {stream : τ → StreamId} {d : ClientId} {historyCap : UInt32}
  {systemNow steadyNow : Int}

/-- What a thread has put into the queue are the first messages on its stream. -/
theorem fromThread_prefix (hwrite : ∀ n, write n ≠ [])
    (h : Live.Reached write (.start uuid order requests host.server channelId stream) tr shown y) (j : τ) :
    fromThread j shown <+: (y.server.state.messagesOn (stream j)).map (messageText write) := by
  have htaken := (Live.ordered_of_reached hwrite (.start ..) h).taken j
  have hstream : (y.threads j).stream = stream j := (Live.run_of_reached h).2 j
  have hbehind : (y.threads j).taken write y.server.state <+:
      (y.server.state.messagesOn (stream j)).map (messageText write) := by
    unfold SubscriptionThread.taken
    rw [hstream]
    exact ((List.take_prefix _ _).filterMap _).map _
  rw [← htaken] at hbehind
  exact (List.prefix_append _ _).trans hbehind

omit [DecidableEq τ] in
/-- The ids of the texts on a stream that was new are distinct. -/
theorem nodup_texts (hhost : Host.Reached uuid (.initial historyCap systemNow steadyNow) host)
    (hnew : NewStreams requests host.server) (hinj : Function.Injective write)
    (hrun : Run ports Env (serving uuid order requests host.server) tr y.server) {w : StreamId}
    (hw : host.server.publisher.written w = []) : y.server.state.messagesOn w =
      (arrivals w tr).map (messageToEvent y.server.state.clients) ∧
      (((y.server.state.messagesOn w).map (messageText write)).map InboxMessage.messageId).Nodup := by
  have hon : y.server.state.messagesOn w = (arrivals w tr).map (messageToEvent y.server.state.clients) := by
    rw [messagesOn_run (registered_reached hhost) hrun w]
    simp [messagesOn, hw]
  refine ⟨hon, ?_⟩
  have hids : ((y.server.state.messagesOn w).map (messageText write)).map InboxMessage.messageId =
      ((arrivals w tr).map Message.id).map fun id => write id.value := by
    rw [hon]
    simp [messageText, messageToEvent]
  rw [hids]
  exact (arrivals_nodup (ownStreams_reached hhost) hnew hrun w).map (hinj.comp StrongId.value_injective)

/-- However the server's requests, the terminal's threads and its screen interleave: the terminal holds each
message once, whichever of its streams it comes by, and of each stream the first messages, in order. Whatever
has an id is a message that a request sent, and saved, to a channel that the client was in when the request read
it. -/
theorem terminal_shows_once (hhost : Host.Reached uuid (.initial historyCap systemNow steadyNow) host)
    (hnew : NewStreams requests host.server) (hwrite : ∀ n, write n ≠ []) (hinj : Function.Injective write)
    (hdistinct : Function.Injective stream)
    (hstreams : ∀ j, host.server.publisher.written (stream j) = [] ∧
      StreamOf uuid requests host.server d (stream j))
    (h : Live.Reached write (.start uuid order requests host.server channelId stream) tr shown y) :
    ((y.presenter.held.map InboxMessage.messageId).filter (· ≠ [])).Nodup ∧
      (∀ j, fromThread j shown <+: (y.server.state.messagesOn (stream j)).map (messageText write)) ∧
      ∀ text ∈ y.presenter.held, text.messageId ≠ [] → ∃ i m look, SentBy uuid requests tr i m look ∧
        d ∈ look.pre.state.members m.channelId ∧
        text = messageText write (messageToEvent y.server.state.clients m) := by
  have hordered := Live.ordered_of_reached hwrite (.start ..) h
  obtain ⟨hrun, -⟩ := Live.run_of_reached h
  have hbehind := fromThread_prefix hwrite h
  have htexts := fun j => nodup_texts hhost hnew hinj hrun (hstreams j).1
  have hown := ownStreams_reached hhost
  -- an entry with an id comes from a thread, and is a message on the thread's stream
  have horigin : ∀ entry ∈ shown, entry.2.messageId ≠ [] → ∃ j, entry.1 = some j ∧ ∃ m ∈ arrivals (stream j) tr,
      entry.2 = messageText write (messageToEvent y.server.state.clients m) := by
    rintro ⟨origin, text⟩ hentry hid
    rcases origin with _ | j
    · exact absurd (hordered.notices text hentry) hid
    · have hmem : text ∈ fromThread j shown := by
        refine List.mem_filterMap.2 ⟨_, hentry, ?_⟩
        simp [hid]
      have hon := (hbehind j).subset hmem
      rw [(htexts j).1, List.map_map] at hon
      obtain ⟨m, hm, heq⟩ := List.mem_map.1 hon
      exact ⟨j, rfl, m, hm, heq.symm⟩
  refine ⟨?_, hbehind, fun text htext hid => ?_⟩
  · have hpairwise : shown.Pairwise fun a b => a.2.messageId ≠ [] → a.2.messageId ≠ b.2.messageId := by
      rw [List.pairwise_iff_forall_sublist]
      intro a b hab hid hsame
      obtain ⟨j, ha, m, hm, hma⟩ := horigin a (hab.subset (by simp)) hid
      obtain ⟨j', hb, m', hm', hmb⟩ := horigin b (hab.subset (by simp)) (hsame ▸ hid)
      have hids : m.id = m'.id := by
        rw [hma, hmb] at hsame
        exact StrongId.value_injective (hinj hsame)
      have hj : stream j = stream j' :=
        arrivals_disjoint hown hnew hrun (hstreams j).2 (hstreams j').2 hm hm' hids
      obtain rfl := hdistinct hj
      -- both from one thread: its texts have distinct ids
      have hpair : [a.2, b.2].Sublist (fromThread j shown) := by
        have hfiltered := hab.filterMap fun entry : Option τ × InboxMessage =>
          if entry.1 = some j ∧ entry.2.messageId ≠ [] then some entry.2 else none
        unfold fromThread
        simpa [ha, hb, hid, hsame ▸ hid] using hfiltered
      have hnodup := (htexts j).2.sublist (((hpair.trans (hbehind j).sublist)).map InboxMessage.messageId)
      simp [hsame] at hnodup
    rw [hordered.held, List.map_map, List.Nodup, List.pairwise_filter, List.pairwise_map]
    refine hpairwise.imp fun {a b} hab => ?_
    simpa using fun hida _ => hab hida
  · rw [hordered.held] at htext
    obtain ⟨entry, hentry, rfl⟩ := List.mem_map.1 htext
    obtain ⟨j, -, m, hm, heq⟩ := horigin entry hentry hid
    obtain ⟨i, look, hsent, d', hd', hstream⟩ := sentBy_of_arrival hrun hm
    obtain rfl := streamOf_unique hown hnew hstream (hstreams j).2
    exact ⟨i, m, look, hsent, hd', heq⟩

omit [DecidableEq ι] [DecidableEq τ] in
theorem filter_of_nodup_ids {texts : List InboxMessage} {text : InboxMessage}
    (hnodup : ((texts.map InboxMessage.messageId).filter (· ≠ [])).Nodup) (htext : text ∈ texts)
    (hid : text.messageId ≠ []) : texts.filter (fun other => other.messageId = text.messageId) = [text] := by
  rw [List.filter_map] at hnodup
  have hsingle := filter_of_nodup hnodup (List.mem_filter.2 ⟨htext, by simpa using hid⟩)
  rw [List.filter_filter] at hsingle
  rw [← hsingle]
  refine List.filter_congr fun other _ => ?_
  by_cases hsame : other.messageId = text.messageId
  · simp [hsame, hid]
  · simp [hsame]

omit [DecidableEq ι] [DecidableEq τ] in
/-- What is sent for a typed line is the line, as far as the server is concerned. -/
theorem content_of_submit {p : FtxuiPresenter} {line clientId channelId text : Bytes} {session : ClientSession}
    {content : MessageContent} (hactions : p.actions = .all)
    (hsubmit : ActionCall.sendMessage line ∈ p.handleSubmit.2)
    (hrpc : (session.sendMessage write line).next = some (.rpc (.sendMessage clientId channelId text)))
    (hcontent : MessageContent.create (trim text) = .ok content) : content.value = line := by
  have hactive : session.activeChannelId ≠ [] := by
    intro hnil
    simp [ClientSession.sendMessage, hnil, ClientSession.showError, Prog.perform] at hrpc
  rw [ClientSession.sendMessage_eq write line hactive, Prog.next_call] at hrpc
  cases hrpc
  obtain ⟨-, -, -, hserver⟩ := (submit_routes p hactions).2.1 line hsubmit
  obtain ⟨text, hnext, hvalue⟩ := hserver write session.clientId session.activeChannelId
  obtain rfl : trim line = text := by
    have hsame : (GrpcServerGateway.sendMessage write session.clientId session.activeChannelId line).next =
        some (.sendMessage (trim session.clientId) (trim session.activeChannelId) (trim line)) := rfl
    rw [hsame] at hnext
    cases hnext
    rfl
  rw [hcontent] at hvalue
  split at hvalue
  · cases hvalue
  · cases hvalue
    rfl

/-- From one terminal to another: a line that was typed at a terminal with the callbacks of `main` and an active
channel, and whose request the server has accepted, is held once, as it was typed and with the sender's name, by
every terminal whose client was in the channel when the request read it, whose stream was there when its turn
came, and whose thread has caught up with the stream. -/
theorem typed_line_shown (hhost : Host.Reached uuid (.initial historyCap systemNow steadyNow) host)
    (hnew : NewStreams requests host.server) (hwrite : ∀ n, write n ≠ []) (hinj : Function.Injective write)
    (hdistinct : Function.Injective stream)
    (hstreams : ∀ j, host.server.publisher.written (stream j) = [] ∧
      StreamOf uuid requests host.server d (stream j))
    (h : Live.Reached write (.start uuid order requests host.server channelId stream) tr shown y)
    {p : FtxuiPresenter} {line senderId activeId text : Bytes} {session : ClientSession} {i : ι}
    {id : MessageId}
    (hactions : p.actions = .all) (hsubmit : ActionCall.sendMessage line ∈ p.handleSubmit.2)
    (hrpc : (session.sendMessage write line).next = some (.rpc (.sendMessage senderId activeId text)))
    (hi : requests i = .sendMessage senderId activeId text)
    (hret : y.server.threads i = .ret (.sent (.ok id))) :
    ∃ m look, m.id = id ∧ SentBy uuid requests tr i m look ∧ m.content.value = line ∧
      (d ∈ look.pre.state.members m.channelId → ∀ j,
        (∀ e ∈ tr, e.call = .publisher (.publish d m) →
          e.pre.state.publisher.writers.lookup d = some (stream j)) →
        (y.threads j).read = (y.server.state.publisher.written (stream j)).length →
        (y.threads j).place = .reading →
        y.presenter.held.filter (fun other => other.messageId = write id.value) =
          [messageText write (messageToEvent y.server.state.clients m)]) := by
  obtain ⟨hrun, hsame⟩ := Live.run_of_reached h
  obtain ⟨m, look, hid, hsent, hall⟩ := delivered_to_members hhost hnew hrun hi hret
  have hcontent : m.content.value = line := by
    obtain ⟨_, _, _, hrequest, -, -, hcreate⟩ := hsent.request
    rw [hi] at hrequest
    cases hrequest
    exact content_of_submit hactions hsubmit hrpc hcreate
  refine ⟨m, look, hid, hsent, hcontent, fun hd j hlookup hread hplace => ?_⟩
  obtain ⟨new, hon, hfilter⟩ := hall d hd (stream j) hlookup
  have hordered := Live.ordered_of_reached hwrite (.start ..) h
  have hstream : (y.threads j).stream = stream j := hsame j
  -- the thread has put in all that is on its stream
  have hqueued : fromThread j shown = (y.server.state.messagesOn (stream j)).map (messageText write) := by
    have htaken := hordered.taken j
    unfold SubscriptionThread.taken at htaken
    rw [hstream, hread, List.take_length] at htaken
    simpa [SubscriptionThread.pending, hplace, messagesOn] using htaken
  have hevent : messageToEvent y.server.state.clients m ∈ y.server.state.messagesOn (stream j) := by
    rw [hon]
    refine List.mem_append_right _ (List.mem_of_mem_filter (p := fun event => event.messageId = id) ?_)
    rw [hfilter]
    exact List.mem_singleton_self _
  have hheld : messageText write (messageToEvent y.server.state.clients m) ∈ y.presenter.held := by
    have hmem : messageText write (messageToEvent y.server.state.clients m) ∈ fromThread j shown := by
      rw [hqueued]
      exact List.mem_map_of_mem hevent
    obtain ⟨entry, hentry, hsome⟩ := List.mem_filterMap.1 hmem
    rw [hordered.held]
    refine List.mem_map.2 ⟨entry, hentry, ?_⟩
    split at hsome
    · exact Option.some.inj hsome
    · cases hsome
  have honce := (terminal_shows_once hhost hnew hwrite hinj hdistinct hstreams h).1
  have hsingle := filter_of_nodup_ids honce hheld (hwrite _)
  rw [← hid]
  exact hsingle

end

end

/-! ### One terminal that hears its own message -/

/-- Ids as the library writes them, as long as they are small. -/
def writeId (n : Nat) : Bytes := if n < 10 then writeSmall n else List.replicate (n + 36) 48

theorem writeId_ne_nil (n : Nat) : writeId n ≠ [] := by
  unfold writeId writeSmall
  split <;> simp

theorem writeId_injective : Function.Injective writeId := by
  have hsmall : ∀ a < 10, ∀ b < 10, writeSmall a = writeSmall b → a = b := by decide
  have hlength : ∀ n < 10, (writeSmall n).length = 36 := by decide
  intro a b hab
  unfold writeId at hab
  split at hab <;> split at hab
  · exact hsmall a ‹_› b ‹_› hab
  · have hlen := congrArg List.length hab
    rw [hlength a ‹_›, List.length_replicate] at hlen
    omega
  · have hlen := congrArg List.length hab
    rw [hlength b ‹_›, List.length_replicate] at hlen
    omega
  · have hlen := congrArg List.length hab
    simp only [List.length_replicate] at hlen
    omega

/-- As long as nothing is read, the terminal stays as it is. -/
theorem Live.reached_of_run {ι τ : Type} [DecidableEq ι] [DecidableEq τ] {write : Nat → Bytes} {x : Live ι τ}
    {tr : List (Event Server ι Call Call.Res Response)} {c : Config Server ι Call Call.Res Response}
    (h : Run ports Env x.server tr c) : Live.Reached write x tr [] { x with server := c } := by
  induction h with
  | refl => exact .refl
  | env _ he ih => exact ih.env he
  | step _ hn he ih => exact ih.call hn he

/-- The terminal of the client that sends and reopens, with a thread for the new stream. -/
def listener : Live Bool Unit :=
  .start .canonical (fun _ => .byId) sendAndReopen listening.server (fun _ => writeId 1)
    fun _ => listening.nextStream

/-- The event that comes. -/
def heard : MessageEvent := ⟨⟨3⟩, ⟨1⟩, ⟨2⟩, ascii "ann", ascii "hi", 0⟩

theorem written_reopened :
    reopened.2.state.publisher.written listening.nextStream = [.message heard] := by decide +kernel

/-- The thread reads the event and puts it into the queue. -/
theorem listener_reached : ∃ y, Live.Reached writeId listener reopened.1
    [(some (), messageText writeId heard)] y ∧ y.server = reopened.2 ∧ (y.threads ()).read = 1 ∧
      (y.threads ()).place = .reading := by
  have hserved : Live.Reached writeId listener reopened.1 [] { listener with server := reopened.2 } :=
    Live.reached_of_run reopened_run
  have hevent : (reopened.2.state.publisher.written listening.nextStream)[0]? = some (.message heard) := by
    rw [written_reopened]
    rfl
  have hread := hserved.read () rfl 0 hevent
  have hfollowed := hread.followScroll () rfl
  have hqueued := hfollowed.enqueue () rfl
  exact ⟨_, hqueued, rfl, rfl, rfl⟩

theorem listener_streams (_ : Unit) :
    listening.server.publisher.written listening.nextStream = [] ∧
      StreamOf .canonical sendAndReopen listening.server ⟨2⟩ listening.nextStream := by
  refine ⟨(freshStreams_reached listening_reached _ (le_refl _)).1, .inr ⟨false, _, _, rfl, by decide⟩⟩

theorem terminal_shows_once_listener : ∃ y : Live Bool Unit, ∃ shown,
    Live.Reached writeId listener reopened.1 shown y ∧ shown = [(some (), messageText writeId heard)] ∧
      ((y.presenter.held.map InboxMessage.messageId).filter (· ≠ [])).Nodup := by
  obtain ⟨y, h, -⟩ := listener_reached
  exact ⟨y, _, h, rfl, (terminal_shows_once listening_reached newStreams_sendAndReopen writeId_ne_nil
    writeId_injective (fun _ _ _ => rfl) listener_streams h).1⟩

theorem typed_line_shown_listener : ∃ y : Live Bool Unit, ∃ m : Message,
    Live.Reached writeId listener reopened.1 [(some (), messageText writeId heard)] y ∧
      m.content.value = ascii "hi" ∧ y.presenter.held.filter (fun other => other.messageId = writeId 3) =
        [messageText writeId (messageToEvent y.server.state.clients m)] := by
  obtain ⟨y, h, hserver, hread, hplace⟩ := listener_reached
  have hret : y.server.threads true = .ret (.sent (.ok ⟨3⟩)) := by
    rw [hserver]
    exact reopened_sent
  have hsubmit : ActionCall.sendMessage (ascii "hi") ∈
      ({ initial.setActions .all with inputText := ascii " hi " }).handleSubmit.2 := by decide
  have hrpc : (ClientSession.sendMessage writeId ⟨writeId 2, writeId 1⟩ (ascii "hi")).next =
      some (.rpc (.sendMessage (writeId 2) (writeId 1) (ascii "hi"))) := rfl
  obtain ⟨m, look, hid, hsent, hcontent, hshown⟩ :=
    typed_line_shown listening_reached newStreams_sendAndReopen writeId_ne_nil writeId_injective
      (fun _ _ _ => rfl) listener_streams h rfl hsubmit hrpc rfl hret
  have hchannel : m.channelId = ⟨1⟩ := by
    obtain ⟨_, _, _, hrequest, -, hk, -⟩ := hsent.request
    cases hrequest
    exact Option.some.inj (hk.symm.trans (by decide))
  have hmembers : ∀ e ∈ reopened.1, ⟨2⟩ ∈ e.pre.state.members ⟨1⟩ := by decide +kernel
  have hstream : ∀ e ∈ reopened.1, e.call.isEvent = true →
      e.pre.state.publisher.writers.lookup ⟨2⟩ = some listening.nextStream := by decide +kernel
  refine ⟨y, m, h, hcontent, hshown ?_ () (fun e he hcall => hstream e he (by rw [hcall]; rfl)) ?_ hplace⟩
  · rw [hchannel]
    exact hmembers look hsent.looked.1
  · rw [hread, hserver, written_reopened]
    rfl

end Bcmd.Cli
