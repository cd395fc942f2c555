import Bcmd.MessageRequests
import Bcmd.MessageSource

/-!
# The first visit to a channel

The hook has joined the channel, and its requests for the stream and for the history are both under way.
The server processes them in any order, with sends in between, each request as one step. What is
accepted after the history was read and before the stream is registered is in neither answer.
-/

namespace Bcmd.Web
open BroadcastService

/-! ### The cached ids -/

section
variable {queryClient : QueryClient} {c : ClientId} {k : Option ChannelId} {data : HistoryQueryData}
  {i : MessageId}

/-- The ids of the cached messages. -/
def HistoryQueryData.HasId (data : HistoryQueryData) (i : MessageId) : Prop :=
  ∃ m, data.Has m ∧ m.messageId = i

theorem hasId_injectAll (messages : List Message) (h : queryClient.history.lookup ⟨some c, k⟩ = some data) :
    ∃ data', (injectAll c k messages queryClient).history.lookup ⟨some c, k⟩ = some data' ∧
      ∀ i, data'.HasId i ↔ data.HasId i ∨ i ∈ messages.map Message.messageId := by
  obtain ⟨data', hdata', hkeep, hget⟩ := lookup_injectAll messages h
  refine ⟨data', hdata', fun i => ⟨?_, ?_⟩⟩
  · rintro ⟨m, hm, hi⟩
    rcases has_injectAll messages hdata' hm with ⟨old, hold, hm⟩ | ⟨-, hm⟩
    · cases h.symm.trans hold
      exact .inl ⟨m, hm, hi⟩
    · exact .inr (List.mem_map.2 ⟨m, hm, hi⟩)
  · rintro (⟨m, hm, hi⟩ | hi)
    · exact ⟨m, hkeep m hm, hi⟩
    · obtain ⟨m, hm, rfl⟩ := List.mem_map.1 hi
      exact hget m hm

end

/-! ### The hook -/

/-- A first visit in which the hook has taken the messages of `ids`, and has got `page`, or no answer
yet. -/
structure Visiting (key : HistoryKey) (page : Option ListMessagesPage) (ids : List MessageId)
    (view : View) (hook : Hook) : Prop where
  mounted : view.hook = some hook
  args : hook.args = key
  opened : hook.stream = .open
  taken : hook.taken.map Message.messageId = ids
  waiting : hook.isSuccess = false → hook.initialFetched = false ∧ hook.pendingLive = hook.taken
  fetched : hook.isSuccess = true → hook.initialFetched = true ∧ page ≠ none
  unanswered : page = none → key ∈ view.queryClient.fetching ∧ view.queryClient.history.lookup key = none
  answered : ∀ p ∈ page, key ∉ view.queryClient.fetching ∧
    ∃ data, view.queryClient.history.lookup key = some data ∧
    ∀ i, data.HasId i ↔ i ∈ p.messages.map Message.messageId ∨ hook.isSuccess = true ∧ i ∈ ids

section
variable {key : HistoryKey} {page : Option ListMessagesPage} {ids : List MessageId} {view : View}
  {hook : Hook} {c : ClientId}

theorem Visiting.history (h : Visiting key none ids view hook) (p : ListMessagesPage) :
    Visiting key (some p) ids (view.step (.history key p)) hook := by
  obtain ⟨hfetching, hnone⟩ := h.unanswered rfl
  have hs : hook.isSuccess = false := by
    by_contra hs
    exact (h.fetched (by simpa using hs)).2 rfl
  have hstep : view.step (.history key p) = { view with queryClient :=
      { history := view.queryClient.history.insert key ⟨p, [], [none]⟩,
        fetching := view.queryClient.fetching.erase key } } := by
    unfold View.step QueryClient.respond
    dsimp only
    rw [if_pos hfetching]
  rw [hstep]
  refine ⟨h.mounted, h.args, h.opened, h.taken, h.waiting, fun hs' => ?_, nofun, fun p' hp' => ?_⟩
  · rw [hs] at hs'
    cases hs'
  · cases hp'
    refine ⟨Finset.notMem_erase key _, ⟨p, [], [none]⟩, Finmap.lookup_insert _, fun i => ?_⟩
    rw [hs]
    simp [HistoryQueryData.HasId, HistoryQueryData.Has, HistoryQueryData.pages]

/-- A second answer finds nobody waiting. -/
theorem Visiting.history_again {p : ListMessagesPage} (h : Visiting key (some p) ids view hook)
    (p' : ListMessagesPage) :
    view.step (.history key p') = view := by
  unfold View.step QueryClient.respond
  dsimp only
  rw [if_neg (h.answered p rfl).1]

theorem Visiting.message (h : Visiting key page ids view hook) (hc : key.clientId = some c)
    (event : MessageEvent) :
    ∃ hook', Visiting key page (ids ++ [event.messageId]) (view.step (.message event)) hook' := by
  have hc' : hook.args.clientId = some c := by
    rw [h.args, hc]
  have hargs : hook.args = ⟨some c, hook.args.channelId⟩ := by
    rw [← hc']
  have htaken : (hook.taken ++ [toMessage hook.args.channelId event]).map Message.messageId = ids ++
      [event.messageId] := by
    rw [List.map_append, h.taken]
    rfl
  rw [step_message h.mounted h.opened]
  rcases hs : hook.isSuccess with _ | _
  · obtain ⟨hf, hpending⟩ := h.waiting hs
    rw [take_waits hf]
    refine ⟨_, rfl, h.args, h.opened, htaken, fun _ => ⟨hf, congrArg (· ++ _) hpending⟩, fun hs' => ?_,
      h.unanswered, fun p hp => ?_⟩
    · cases hs.symm.trans hs'
    · obtain ⟨hfetching, data, hdata, hids⟩ := h.answered p hp
      refine ⟨hfetching, data, hdata, fun i => (hids i).trans ?_⟩
      dsimp only
      rw [hs]
      simp
  · obtain ⟨hf, hpage⟩ := h.fetched hs
    obtain ⟨p, rfl⟩ := Option.ne_none_iff_exists'.1 hpage
    obtain ⟨hfetching, data, hdata, hids⟩ := h.answered p rfl
    rw [take_injects hf hc']
    rw [← h.args, hargs] at hdata
    obtain ⟨data', hdata', hids'⟩ := hasId_injectAll [toMessage hook.args.channelId event] hdata
    refine ⟨_, rfl, h.args, h.opened, htaken, fun hs' => ?_, fun _ => ⟨hf, nofun⟩, nofun, fun p' hp' => ?_⟩
    · cases hs.symm.trans hs'
    · cases hp'
      refine ⟨hfetching, data', ?_, fun i => (hids' i).trans ?_⟩
      · rw [← hdata', ← hargs, h.args]
        rfl
      · rw [hids]
        dsimp only
        rw [hs]
        simp [toMessage, or_assoc]

theorem Visiting.render (h : Visiting key page ids view hook) (hc : key.clientId = some c) :
    ∃ hook', Visiting key page ids (view.step (.render key)) hook' ∧
      (page ≠ none → hook'.isSuccess = true) := by
  have hkey := h.args
  subst hkey
  show ∃ hook', Visiting _ page ids (view.render hook.args) hook' ∧ _
  have hlookup : ∀ key, (view.fetched hook.args).history.lookup key = view.queryClient.history.lookup key :=
    fun key => lookup_fetch ..
  rcases page with _ | p
  · obtain ⟨hfetching, hnone⟩ := h.unanswered rfl
    have hs : hook.isSuccess = false := by
      by_contra hs
      exact (h.fetched (by simpa using hs)).2 rfl
    rw [render_idle h.mounted (by rw [hs, hnone]; rfl)]
    refine ⟨hook, ⟨rfl, rfl, h.opened, h.taken, h.waiting, h.fetched, fun _ => ⟨?_, ?_⟩, nofun⟩, nofun⟩
    · unfold View.fetched QueryClient.fetch
      split
      · exact Finset.mem_insert_of_mem hfetching
      · exact hfetching
    · exact (hlookup _).trans hnone
  · obtain ⟨hfetching, data, hdata, hids⟩ := h.answered p rfl
    have hfetching' : hook.args ∉ (view.fetched hook.args).fetching := by
      unfold View.fetched QueryClient.fetch
      rw [if_neg fun hen => by rw [hdata] at hen; cases hen.2]
      exact hfetching
    rcases hs : hook.isSuccess with _ | _
    · -- the drain effect runs
      obtain ⟨hf, hpending⟩ := h.waiting hs
      have hrender : view.render hook.args =
          ⟨injectAll c hook.args.channelId hook.pendingLive (view.fetched hook.args),
            some { hook with isSuccess := true, initialFetched := true, pendingLive := [] }⟩ := by
        rw [render_seen h.mounted (by rw [hs, hdata]; nofun), hdata]
        exact drain_injects rfl hf hc
      have hargs : hook.args = ⟨some c, hook.args.channelId⟩ := by
        rw [← hc]
      have hdata₁ : (view.fetched hook.args).history.lookup ⟨some c, hook.args.channelId⟩ = some data := by
        rw [← hargs, hlookup]
        exact hdata
      obtain ⟨data', hdata', hids'⟩ := hasId_injectAll hook.pendingLive hdata₁
      rw [hrender]
      refine ⟨_, ⟨rfl, rfl, h.opened, h.taken, nofun, fun _ => ⟨rfl, nofun⟩, nofun, fun p' hp' => ?_⟩,
        fun _ => rfl⟩
      cases hp'
      refine ⟨by rwa [fetching_injectAll], data', ?_, fun i => (hids' i).trans ?_⟩
      · rw [← hdata', ← hargs]
      · rw [hids, hs, hpending, h.taken]
        simp
    · rw [render_idle h.mounted (by rw [hs, hdata]; rfl)]
      exact ⟨hook, ⟨rfl, rfl, h.opened, h.taken, h.waiting, h.fetched, nofun, fun p' hp' => by
        cases hp'
        exact ⟨hfetching', data, (hlookup _).trans hdata, hids⟩⟩, fun _ => hs⟩

end

/-- A mount or switch to a channel without history, the completed join and the commit after it. -/
theorem visiting_start (view : View) (hswitch : view.Switches key)
    (hnone : view.queryClient.history.lookup key = none)
    (hc : key.clientId ≠ none) (hk : key.channelId ≠ none) :
    ∃ hook, Visiting key none [] (view.run [.render key, .joined, .render key]) hook := by
  have hs : (view.rendered key).isSuccess = false := by
    unfold View.rendered
    rw [hnone]
    rfl
  have hrender : view.render key = ⟨view.fetched key, some (streamEffect (view.rendered key))⟩ := by
    rw [render_switch hswitch, drain_idle (.inl hs)]
    rfl
  obtain ⟨hook, hjoined, hargs, hopen, hisJoined, htaken, hpending, hf, hs'⟩ : ∃ hook : Hook,
      (view.render key).step .joined = ⟨view.fetched key, some hook⟩ ∧ hook.args = key ∧ hook.stream = .open ∧
      hook.isJoined = true ∧ hook.taken = [] ∧ hook.pendingLive = [] ∧ hook.initialFetched = false ∧
      hook.isSuccess = false := by
    have hjoining : (streamEffect (view.rendered key)).stream = .joining := by
      unfold streamEffect
      dsimp only
      rw [if_neg]
      exact fun h => h.elim hc hk
    refine ⟨{ streamEffect (view.rendered key) with
      isJoined := true, connectionState := .connected, stream := .open }, ?_,
      streamEffect_args _, rfl, rfl, streamEffect_taken _, streamEffect_pendingLive _,
        streamEffect_initialFetched _, ?_⟩
    · rw [hrender]
      unfold View.step
      simp only [Option.map_some, hjoining, if_true]
    · exact (streamEffect_isSuccess _).trans hs
  have hlookup : (view.fetched key).history.lookup key = none := (lookup_fetch ..).trans hnone
  have hrun : view.run [.render key, .joined, .render key] =
      (View.mk (view.fetched key) (some hook)).render hook.args := by
    rw [hargs, ← hjoined]
    rfl
  have hidle : (View.mk (view.fetched key) (some hook)).render hook.args = ⟨_, some hook⟩ :=
    render_idle rfl (by rw [hs', hargs, hlookup]; rfl)
  rw [hrun, hidle]
  refine ⟨hook, rfl, hargs, hopen, by rw [htaken]; rfl, fun _ => ⟨hf,
    by rw [hpending, htaken]⟩, fun h => ?_, fun _ => ⟨?_, ?_⟩, nofun⟩
  · rw [hs'] at h
    cases h
  · have henabled : (key.clientId.isSome && key.channelId.isSome && hook.isJoined) = true := by
      rw [Option.isSome_iff_ne_none.2 hc, Option.isSome_iff_ne_none.2 hk, hisJoined]
      rfl
    rw [hargs]
    unfold View.fetched QueryClient.fetch
    rw [if_pos]
    · exact Finset.mem_insert_self key _
    · refine ⟨?_, hlookup⟩
      exact henabled
  · rw [hargs]
    exact (lookup_fetch ..).trans hlookup

/-! ### The server and the hook -/

/-- A client and its channel, with the fields that name them in its requests. -/
structure Visitor (uuid : UuidLib) where
  client : ClientId
  channel : ChannelId
  clientId : Bytes
  channelId : Bytes
  client_eq : parseClient uuid clientId = some client
  channel_eq : parseChannel uuid channelId = some channel
  /-- `VITE_CHANNEL_HISTORY_PAGE_SIZE`. -/
  pageSize : UInt32

/-- `page` is the answer to `ListMessages`, and `stream` what `SubscribeToChannel` has opened, once the
server has processed the requests. Of the stream's events the hook has read the first `read`; `accepted`
are the messages that were accepted for the channel since the Join. -/
structure FirstVisit where
  host : Host
  view : View
  page : Option ListMessagesPage
  stream : Option StreamId
  read : Nat
  accepted : List MessageId

inductive VisitEvent
  | listMessages
  | subscribeToChannel
  | sendMessage (order : BucketOrder) (clientId content : Bytes)
  /-- The answer to `ListMessages` arrives. -/
  | history
  /-- The next event of the stream arrives. -/
  | streamEvent
  | render

/-- `listMessages` of `operations.ts`. -/
def toHistoryMessage (m : MessageEvent) : Message :=
  ⟨m.messageId, some m.channelId, m.senderId, m.senderName, m.content, m.sentAtMs⟩

section
variable {uuid : UuidLib} (v : Visitor uuid)

def Visitor.key : HistoryKey := ⟨some v.client, some v.channel⟩

def Visitor.listMessages : Task (Reply (List MessageEvent × Bool)) :=
  ListMessages uuid v.clientId v.channelId [] v.pageSize

def Visitor.sendMessage (order : BucketOrder) (clientId content : Bytes) : Task (Reply MessageId) :=
  SendMessage uuid order clientId v.channelId content

/-- What the server has written to the stream. -/
def FirstVisit.written (visit : FirstVisit) : List ChannelEvent :=
  match visit.stream with
  | none => []
  | some w => visit.host.server.publisher.written w

def FirstVisit.step (visit : FirstVisit) : VisitEvent → FirstVisit
  | .listMessages =>
    if visit.page.isSome then visit
    else { visit with
      host := visit.host.call v.listMessages
      page := match (ports.exec v.listMessages visit.host.server).1 with
        | .ok (messages, hasMore) => some ⟨messages.map toHistoryMessage, hasMore⟩
        | .error _ => none }
  | .subscribeToChannel =>
    if visit.stream.isSome then visit
    else
      let host := visit.host.beginChannel v.client v.channel
      { visit with
        host := host
        stream := if visit.host.nextStream ∈ host.channelStreams then some visit.host.nextStream else none }
  | .sendMessage order clientId content => { visit with
      host := visit.host.call (v.sendMessage order clientId content)
      accepted := match (ports.exec (v.sendMessage order clientId content) visit.host.server).1 with
        | .ok messageId => visit.accepted ++ [messageId]
        | .error _ => visit.accepted }
  | .history =>
    match visit.page with
    | none => visit
    | some page => { visit with view := visit.view.step (.history v.key page) }
  | .streamEvent =>
    match visit.written[visit.read]? with
    | none => visit
    | some (.message event) => { visit with view := visit.view.step (.message event), read := visit.read + 1 }
    | some _ => { visit with read := visit.read + 1 }
  | .render => { visit with view := visit.view.step (.render v.key) }

def FirstVisit.run (visit : FirstVisit) (events : List VisitEvent) : FirstVisit :=
  events.foldl (FirstVisit.step v) visit

/-- Right after the Join: the commit that follows it has sent both requests. -/
def Visitor.start (order : BucketOrder) (host : Host) (view : View) : FirstVisit :=
  ⟨host.step uuid order (.joinChannel v.clientId v.channelId), view.run
    [.render v.key, .joined, .render v.key], none, none, 0, []⟩

/-- All that was written to the stream has been read, and the hook has seen its history. -/
structure FirstVisit.Settled (visit : FirstVisit) : Prop where
  read : visit.written.length ≤ visit.read
  seen : ∃ hook ∈ visit.view.hook, hook.isSuccess = true

/-- The step accepts the message after the history was read and before the stream was registered. -/
def FallsBetween (visit : FirstVisit) (event : VisitEvent) (i : MessageId) : Prop :=
  match event with
  | .sendMessage order clientId content =>
    visit.page ≠ none ∧ visit.stream = none ∧
      (ports.exec (v.sendMessage order clientId content) visit.host.server).1 = .ok i
  | _ => False

/-- What one page holds at most. -/
def Visitor.pageLimit (host : Host) : Nat :=
  min (min v.pageSize ListMessages.kServerMaxLimit).toNat host.server.messages.cap.toNat

end

/-! ### The server's side -/

/-- The ids of the messages among the events. -/
def messageIds (events : List ChannelEvent) : List MessageId :=
  events.filterMap fun event => match event with
    | .message m => some m.messageId
    | _ => none

/-- Up to `n` accepted messages are accounted for: they are retained, and once the history is read, they
are in its page, on the stream, or among the `Missed` ones. -/
structure Served {uuid : UuidLib} (v : Visitor uuid) (n : Nat) (Missed : MessageId → Prop)
    (visit : FirstVisit) : Prop where
  member : v.client ∈ visit.host.server.members v.channel
  fresh : visit.host.FreshStreams
  dated : visit.host.server.Dated
  cap : n ≤ visit.host.server.messages.cap.toNat
  entry : ∀ w ∈ visit.stream, ∀ d, visit.host.server.publisher.writers.lookup d = some w ↔ d = v.client
  retained : visit.accepted.length ≤ n →
    ∃ old new, visit.host.server.messages.buffer v.channel = old ++ new ∧
      new.map Bcmd.Message.id = visit.accepted
  pageDated : ∀ page ∈ visit.page, ∀ m ∈ page.messages, m.messageId.value < visit.host.server.nextUuid
  shown : visit.accepted.length ≤ n → ∀ page ∈ visit.page, ∀ i ∈ visit.accepted,
    i ∈ page.messages.map Message.messageId ∨ i ∈ messageIds visit.written ∨ Missed i
  missed : ∀ i, Missed i → i ∈ visit.accepted ∧ i.value < visit.host.server.nextUuid ∧
    (∃ page ∈ visit.page, i ∉ page.messages.map Message.messageId) ∧ i ∉ messageIds visit.written

section
variable {uuid : UuidLib} {v : Visitor uuid} {n : Nat} {Missed : MessageId → Prop} {visit : FirstVisit}
  {s s' : Server} {m : Bcmd.Message}

theorem exec_rpc_listMessages (h : v.client ∈ s.members v.channel) : ∃ more, ports.exec v.listMessages s =
    (.ok ((s.messages.recent v.channel (min v.pageSize ListMessages.kServerMaxLimit)).map
      (messageToEvent s.clients), more), s) := by
  have hexec := exec_listMessages none v.pageSize h
  have hcursor : parseCursor uuid [] = some none := rfl
  refine ⟨(s.messages.page v.channel none v.pageSize).hasMore, ?_⟩
  unfold Visitor.listMessages BroadcastService.ListMessages
  simp only [v.client_eq, v.channel_eq, hcursor, Machine.exec_bind, hexec, exec_fillMessages]
  rfl

theorem exec_rpc_sendMessage (v : Visitor uuid) (order : BucketOrder) (clientId content : Bytes)
    (s : Server) :
    (∃ status, ports.exec (v.sendMessage order clientId content) s = (.error status, s)) ∨
      ∃ m s', ports.exec (v.sendMessage order clientId content) s = (.ok m.id, s') ∧
        Accepts v.channel m s s' := by
  unfold Visitor.sendMessage BroadcastService.SendMessage
  rw [v.channel_eq]
  rcases parseClient uuid clientId with _ | c
  · exact .inl ⟨_, rfl⟩
  simp only [Machine.exec_bind]
  rcases exec_sendMessage order c v.channel (trim content) s with ⟨e, hexec⟩ | ⟨m, s', hexec, hsent⟩
  · rw [hexec]
    exact .inl ⟨_, rfl⟩
  · rw [hexec]
    exact .inr ⟨m, s', rfl, hsent⟩

theorem messageIds_append (events events' : List ChannelEvent) :
    messageIds (events ++ events') = messageIds events ++ messageIds events' :=
  List.filterMap_append ..

theorem mem_messageIds {events : List ChannelEvent} {i : MessageId} :
    i ∈ messageIds events ↔ ∃ m, .message m ∈ events ∧ m.messageId = i := by
  unfold messageIds
  rw [List.mem_filterMap]
  constructor
  · rintro ⟨event, hevent, hi⟩
    rcases event with m | _ | _
    · exact ⟨m, hevent, Option.some.inj hi⟩
    · cases hi
    · cases hi
  · rintro ⟨m, hm, hi⟩
    exact ⟨_, hm, congrArg some hi⟩

/-- Reading the history changes nothing on the server. -/
theorem Served.host_listMessages (h : Served v n Missed visit) :
    visit.host.call v.listMessages = visit.host := by
  obtain ⟨more, hexec⟩ := exec_rpc_listMessages h.member
  unfold Host.call
  rw [hexec]

/-- The answer to `ListMessages` has every message that was accepted before. -/
theorem Served.listMessages (h : Served v n Missed visit)
    (hn : n ≤ (min v.pageSize ListMessages.kServerMaxLimit).toNat) :
    Served v n Missed (visit.step v .listMessages) := by
  unfold FirstVisit.step
  dsimp only
  split
  · exact h
  have hpage : visit.page = none := Option.not_isSome_iff_eq_none.1 ‹_›
  obtain ⟨more, hexec⟩ := exec_rpc_listMessages h.member
  rw [h.host_listMessages, hexec]
  dsimp only
  refine ⟨h.member, h.fresh, h.dated, h.cap, h.entry, h.retained, fun page hp m hm => ?_,
    fun hlen page hp i hi => .inl ?_, fun i hi => ?_⟩
  · cases hp
    simp only [List.map_map, List.mem_map] at hm
    obtain ⟨m', hm', rfl⟩ := hm
    rw [InMemoryMessageRepository.recent_eq] at hm'
    exact h.dated v.channel m' (List.mem_of_mem_drop hm')
  · cases hp
    obtain ⟨old, new, hbuffer, hnew⟩ := h.retained hlen
    rw [InMemoryMessageRepository.recent_eq, hbuffer]
    have hlength : new.length ≤ n := by
      rw [← List.length_map Bcmd.Message.id, hnew]
      exact hlen
    rw [← hnew] at hi
    obtain ⟨m, hm, rfl⟩ := List.mem_map.1 hi
    simp only [List.map_map, List.mem_map]
    refine ⟨m, ?_, rfl⟩
    rw [List.drop_append_of_le_length (by rw [List.length_append]; omega)]
    exact List.mem_append_right _ hm
  · obtain ⟨-, -, ⟨page, hp, -⟩, -⟩ := h.missed i hi
    rw [hpage] at hp
    cases hp

/-- The stream that the subscription opens has no events yet. -/
theorem Served.written_subscribe (h : Served v n Missed visit) (hstream : visit.stream = none) :
    ({ visit with host := visit.host.beginChannel v.client v.channel, stream := some visit.host.nextStream } :
      FirstVisit).written = visit.written := by
  unfold FirstVisit.written
  rw [hstream]
  dsimp only
  rw [written_beginChannel, (h.fresh visit.host.nextStream (le_refl _)).1]

theorem Served.step_subscribe (h : Served v n Missed visit) (hstream : visit.stream = none) :
    visit.step v .subscribeToChannel =
      { visit with host := visit.host.beginChannel v.client v.channel, stream := some visit.host.nextStream } := by
  have hopened : visit.host.nextStream ∈ (visit.host.beginChannel v.client v.channel).channelStreams := by
    rw [channelStreams_beginChannel, if_pos h.member]
    exact Finmap.mem_insert.2 (.inl rfl)
  unfold FirstVisit.step
  dsimp only
  rw [hstream, if_neg nofun, if_pos hopened]

theorem step_subscribed (hstream : visit.stream ≠ none) : visit.step v .subscribeToChannel = visit := by
  unfold FirstVisit.step
  dsimp only
  rw [if_pos (Option.isSome_iff_ne_none.2 hstream)]

theorem Served.subscribe (h : Served v n Missed visit) :
    Served v n Missed (visit.step v .subscribeToChannel) := by
  by_cases hstream : visit.stream = none
  swap
  · rwa [step_subscribed hstream]
  rw [h.step_subscribe hstream]
  have hserver := server_beginChannel visit.host v.client v.channel
  rw [if_pos h.member] at hserver
  obtain ⟨-, hnone⟩ := h.fresh visit.host.nextStream (le_refl _)
  have hfresh : (visit.host.beginChannel v.client v.channel).FreshStreams := by
    have hstep : (visit.host.step uuid .byId (.subscribeToChannel v.clientId v.channelId)).FreshStreams :=
      h.fresh.step _
    unfold Host.step at hstep
    simpa only [v.client_eq, v.channel_eq] using hstep
  refine ⟨?_, hfresh, ?_, ?_, fun w hw d => ?_, ?_, ?_, ?_, ?_⟩
  · rw [hserver]
    exact h.member
  · rw [hserver]
    exact h.dated
  · rw [hserver]
    exact h.cap
  · cases hw
    refine ⟨fun hd => ?_, fun hd => ?_⟩
    · rcases lookup_beginChannel hd with ⟨hd, -⟩ | ⟨-, hd⟩
      · exact hd
      · exact absurd hd (hnone d)
    · rw [hserver, hd]
      exact Finmap.lookup_insert _
  · rw [hserver]
    exact h.retained
  · rw [hserver]
    exact h.pageDated
  · rw [h.written_subscribe hstream]
    exact h.shown
  · rw [h.written_subscribe hstream, hserver]
    exact h.missed

/-- What is on the stream stays there, and nothing else changes for the hook. -/
theorem written_sendMessage (order : BucketOrder) (clientId content : Bytes) (visit : FirstVisit) :
    visit.written <+: (visit.step v (.sendMessage order clientId content)).written := by
  unfold FirstVisit.step FirstVisit.written Host.call
  dsimp only
  rcases visit.stream with _ | w
  · exact List.prefix_refl _
  · rcases exec_rpc_sendMessage v order clientId content visit.host.server with
      ⟨status, hexec⟩ | ⟨m, s', hexec, hsent⟩
    · rw [hexec]
    · rw [hexec]
      exact hsent.grows w

/-- The bounded buffer may lose old messages for an accepted one, but none of those that are accounted for. -/
theorem Served.retained_of_accepts (h : Served v n Missed visit)
    (hsent : Accepts v.channel m visit.host.server s') (hlen : (visit.accepted ++ [m.id]).length ≤ n) :
    ∃ old new, s'.messages.buffer v.channel = old ++ new ∧
      new.map Bcmd.Message.id = visit.accepted ++ [m.id] := by
  have hlen' : visit.accepted.length ≤ n := by
    rw [List.length_append] at hlen
    omega
  obtain ⟨old, new, hbuffer, hids⟩ := h.retained hlen'
  have hlength : new.length + 1 ≤ n := by
    rw [← List.length_map Bcmd.Message.id, hids]
    simpa using hlen
  have hcap := h.cap
  refine ⟨old.drop ((old ++ new ++ [m]).length - visit.host.server.messages.cap.toNat), new ++ [m], ?_, ?_⟩
  · rw [hsent.messages, InMemoryMessageRepository.buffer_save, if_pos hsent.channelId.symm,
      popFrontWhileOver_eq, hbuffer, List.append_assoc, List.drop_append_of_le_length]
    simp only [List.length_append, List.length_singleton]
    omega
  · rw [List.map_append, hids]
    rfl

theorem Served.sendMessage (h : Served v n Missed visit) (order : BucketOrder) (clientId content : Bytes) :
    Served v n (fun i => Missed i ∨ FallsBetween v visit (.sendMessage order clientId content) i)
      (visit.step v (.sendMessage order clientId content)) := by
  have hfresh : (visit.host.call (v.sendMessage order clientId content)).FreshStreams :=
    @Host.FreshStreams.step uuid order _ h.fresh (.sendMessage clientId v.channelId content)
  have hgrows := written_sendMessage (v := v) order clientId content visit
  unfold FallsBetween
  unfold FirstVisit.step at hgrows ⊢
  unfold Host.call at hfresh hgrows ⊢
  dsimp only at hfresh hgrows ⊢
  rcases exec_rpc_sendMessage v order clientId content visit.host.server with ⟨status, hexec⟩ |
    ⟨m, s', hexec, hsent⟩
  · -- a refused send leaves everything as it was
    rw [hexec] at hfresh ⊢
    dsimp only
    refine ⟨h.member, hfresh, h.dated, h.cap, h.entry, h.retained, h.pageDated, fun hlen page hp i hi => ?_, ?_⟩
    · rcases h.shown hlen page hp i hi with hi | hi | hi
      · exact .inl hi
      · exact .inr (.inl hi)
      · exact .inr (.inr (.inl hi))
    · rintro i (hi | ⟨-, -, hi⟩)
      · exact h.missed i hi
      · cases hi
  · rw [hexec] at hfresh hgrows ⊢
    dsimp only at hfresh hgrows ⊢
    refine ⟨?_, hfresh, h.dated.accepts hsent, ?_, fun w hw d => ?_, fun hlen => ?_,
      fun page hp m' hm' => hsent.lt (h.pageDated page hp m' hm'),
      fun hlen page hp i hi => ?_, ?_⟩
    · have hchannel : s'.channel v.channel = visit.host.server.channel v.channel := by
        unfold Server.channel
        rw [hsent.channels]
      show v.client ∈ s'.members v.channel
      rw [Server.members_congr hchannel]
      exact h.member
    · rw [hsent.messages]
      exact h.cap
    · rw [hsent.writers]
      exact h.entry w hw d
    · exact h.retained_of_accepts hsent hlen
    · have hlen' : visit.accepted.length ≤ n := by
        rw [List.length_append] at hlen
        omega
      rcases List.mem_append.1 hi with hi | hi
      · rcases h.shown hlen' page hp i hi with hi | hi | hi
        · exact .inl hi
        · obtain ⟨event, hevent, hi⟩ := mem_messageIds.1 hi
          exact .inr (.inl (mem_messageIds.2 ⟨event, hgrows.subset hevent, hi⟩))
        · exact .inr (.inr (.inl hi))
      · rw [List.mem_singleton.1 hi]
        rcases hstream : visit.stream with _ | w
        · have hpage : visit.page ≠ none := Option.ne_none_iff_exists'.2 ⟨page, hp⟩
          exact .inr (.inr (.inr ⟨hpage, rfl, rfl⟩))
        · -- the client is a member with this stream, and gets the message
          refine .inr (.inl (mem_messageIds.2 ⟨messageToEvent visit.host.server.clients m, ?_, rfl⟩))
          have hentry := (h.entry w hstream v.client).2 rfl
          exact (hsent.written w _).2 (.inr ⟨rfl, v.client, h.member, hentry⟩)
    · rintro i (hi | ⟨hpage, hstream, hi⟩)
      · obtain ⟨hmem, hvalue, hpage, hout⟩ := h.missed i hi
        refine ⟨List.mem_append_left _ hmem, hsent.lt hvalue, hpage, fun hin => ?_⟩
        obtain ⟨event, hevent, hid⟩ := mem_messageIds.1 hin
        unfold FirstVisit.written at hevent hout
        rcases hstream : visit.stream with _ | w
        · rw [hstream] at hevent
          cases hevent
        · rw [hstream] at hevent hout
          rcases (hsent.written w _).1 hevent with hevent | ⟨hevent, -⟩
          · exact hout (mem_messageIds.2 ⟨event, hevent, hid⟩)
          · cases hevent
            exact hsent.ne hvalue hid.symm
      · cases hi
        obtain ⟨page, hp⟩ := Option.ne_none_iff_exists'.1 hpage
        refine ⟨List.mem_append_right _ (List.mem_singleton_self _), ?_, ⟨page, hp, fun hin => ?_⟩,
          fun hin => ?_⟩
        · rw [hsent.id, hsent.nextUuid]
          exact Nat.lt_succ_self _
        · obtain ⟨m', hm', hid⟩ := List.mem_map.1 hin
          exact hsent.ne (h.pageDated page hp m' hm') hid
        · unfold FirstVisit.written at hin
          rw [hstream] at hin
          cases hin

theorem Served.step (h : Served v n Missed visit)
    (hn : n ≤ (min v.pageSize ListMessages.kServerMaxLimit).toNat) (event : VisitEvent) :
    Served v n (fun i => Missed i ∨ FallsBetween v visit event i) (visit.step v event) := by
  have hclient : ∀ view read, Served v n Missed { visit with view := view, read := read } := fun _ _ =>
    ⟨h.member, h.fresh, h.dated, h.cap, h.entry, h.retained, h.pageDated, h.shown, h.missed⟩
  cases event with
  | listMessages => simpa only [FallsBetween, or_false] using h.listMessages hn
  | subscribeToChannel => simpa only [FallsBetween, or_false] using h.subscribe
  | sendMessage order clientId content => exact h.sendMessage order clientId content
  | history =>
    simp only [FallsBetween, or_false]
    unfold FirstVisit.step
    dsimp only
    split
    · exact h
    · exact hclient _ _
  | streamEvent =>
    simp only [FallsBetween, or_false]
    unfold FirstVisit.step
    dsimp only
    split
    · exact h
    · exact hclient _ _
    · exact hclient _ _
  | render =>
    simp only [FallsBetween, or_false]
    exact hclient _ _

/-! ### The hook's side -/

/-- The hook has taken what it has read of the stream, and its page is the server's. -/
structure Followed {uuid : UuidLib} (v : Visitor uuid) (visit : FirstVisit) : Prop where
  read : visit.read ≤ visit.written.length
  hook : ∃ page hook, (∀ p ∈ page, p ∈ visit.page) ∧
    Visiting v.key page (messageIds (visit.written.take visit.read)) visit.view hook

theorem Followed.server {visit' : FirstVisit} (h : Followed v visit)
    (hwritten : visit.written <+: visit'.written)
    (hpage : ∀ p ∈ visit.page, p ∈ visit'.page) (hview : visit'.view = visit.view)
    (hread : visit'.read = visit.read) :
    Followed v visit' := by
  obtain ⟨page, hook, hp, hvisiting⟩ := h.hook
  refine ⟨?_, page, hook, fun p hmem => hpage p (hp p hmem), ?_⟩
  · rw [hread]
    exact h.read.trans hwritten.length_le
  · obtain ⟨rest, hrest⟩ := hwritten
    rw [hread, hview, ← hrest, List.take_append_of_le_length h.read]
    exact hvisiting

theorem Followed.step (h : Followed v visit) (hserved : Served v n Missed visit) (event : VisitEvent) :
    Followed v (visit.step v event) := by
  cases event with
  | listMessages =>
    unfold FirstVisit.step
    dsimp only
    split
    · exact h
    · have hpage : visit.page = none := Option.not_isSome_iff_eq_none.1 ‹_›
      rw [hserved.host_listMessages]
      refine h.server (List.prefix_refl _) (fun p hp => ?_) rfl rfl
      rw [hpage] at hp
      cases hp
  | subscribeToChannel =>
    by_cases hstream : visit.stream = none
    · rw [hserved.step_subscribe hstream]
      refine h.server ?_ (fun p hp => hp) rfl rfl
      rw [hserved.written_subscribe hstream]
    · rwa [step_subscribed hstream]
  | sendMessage order clientId content =>
    exact h.server (written_sendMessage order clientId content visit) (fun p hp => hp) rfl rfl
  | history =>
    unfold FirstVisit.step
    dsimp only
    split
    · exact h
    · rename_i p hp
      obtain ⟨page, hook, hpage, hvisiting⟩ := h.hook
      rcases page with _ | p'
      · exact ⟨h.read, some p, hook, fun p' hp' => by cases hp'; exact hp, hvisiting.history p⟩
      · refine ⟨h.read, some p', hook, hpage, ?_⟩
        show Visiting v.key (some p') _ (visit.view.step (.history v.key p)) hook
        rw [hvisiting.history_again p]
        exact hvisiting
  | streamEvent =>
    unfold FirstVisit.step
    dsimp only
    obtain ⟨page, hook, hpage, hvisiting⟩ := h.hook
    have htake : ∀ event, visit.written[visit.read]? = some event →
        visit.read + 1 ≤ visit.written.length ∧
        messageIds (visit.written.take (visit.read + 1)) =
          messageIds (visit.written.take visit.read) ++ messageIds [event] := by
      intro event hevent
      obtain ⟨hlt, rfl⟩ := List.getElem?_eq_some_iff.1 hevent
      refine ⟨hlt, ?_⟩
      rw [← messageIds_append, List.take_append_getElem hlt]
    split
    · exact h
    · rename_i event hevent
      obtain ⟨hread, hids⟩ := htake _ hevent
      obtain ⟨hook', hvisiting'⟩ := hvisiting.message (c := v.client) rfl event
      refine ⟨hread, page, hook', hpage, ?_⟩
      show Visiting v.key page (messageIds (visit.written.take (visit.read + 1))) _ hook'
      rw [hids]
      exact hvisiting'
    · rename_i event hmessage hevent
      obtain ⟨hread, hids⟩ := htake _ hevent
      refine ⟨hread, page, hook, hpage, ?_⟩
      have hnone : messageIds [event] = [] := by
        rcases event with m | _ | _
        · exact absurd rfl (hmessage m)
        · rfl
        · rfl
      show Visiting v.key page (messageIds (visit.written.take (visit.read + 1))) _ hook
      rw [hids, hnone, List.append_nil]
      exact hvisiting
  | render =>
    obtain ⟨page, hook, hpage, hvisiting⟩ := h.hook
    obtain ⟨hook', hvisiting', -⟩ := hvisiting.render (c := v.client) rfl
    exact ⟨h.read, page, hook', hpage, hvisiting'⟩

end

/-! ### Runs -/

section
variable {uuid : UuidLib} {v : Visitor uuid} {n : Nat} {start : FirstVisit} {events : List VisitEvent}
  {event : VisitEvent}
  {i : MessageId}

theorem FirstVisit.run_snoc (start : FirstVisit) (events : List VisitEvent) (event : VisitEvent) :
    start.run v (events ++ [event]) = (start.run v events).step v event := by
  unfold FirstVisit.run
  rw [List.foldl_append]
  rfl

/-- Some step of the run accepts the message between the two requests. -/
def MissedIn (v : Visitor uuid) (start : FirstVisit) (events : List VisitEvent) (i : MessageId) : Prop :=
  ∃ pre event post, events = pre ++ event :: post ∧ FallsBetween v (start.run v pre) event i

theorem missedIn_snoc : MissedIn v start (events ++ [event]) i ↔
    MissedIn v start events i ∨ FallsBetween v (start.run v events) event i := by
  constructor
  · rintro ⟨pre, event', post, hev, hfalls⟩
    rcases List.eq_nil_or_concat post with rfl | ⟨post', last, rfl⟩
    · obtain ⟨rfl, hlast⟩ := List.append_inj' hev rfl
      cases hlast
      exact .inr hfalls
    · refine .inl ⟨pre, event', post', ?_, hfalls⟩
      have hsplit : events ++ [event] = (pre ++ event' :: post') ++ [last] := by
        rw [hev]
        simp
      exact (List.append_inj' hsplit rfl).1
  · rintro (⟨pre, event', post, rfl, hfalls⟩ | hfalls)
    · exact ⟨pre, event', post ++ [event], by simp, hfalls⟩
    · exact ⟨events, event, [], rfl, hfalls⟩

theorem served_run (h : Served v n (fun _ => False) start)
    (hn : n ≤ (min v.pageSize ListMessages.kServerMaxLimit).toNat)
    (events : List VisitEvent) : Served v n (MissedIn v start events) (start.run v events) := by
  induction events using List.reverseRecOn with
  | nil =>
    have hnone : MissedIn v start [] = fun _ => False := by
      funext i
      refine propext ⟨?_, False.elim⟩
      rintro ⟨pre, event, post, hev, -⟩
      simp at hev
    rw [hnone]
    exact h
  | append_singleton events event ih =>
    have hsnoc : MissedIn v start (events ++ [event]) = fun i => MissedIn v start events i ∨
        FallsBetween v (start.run v events) event i := by
      funext i
      exact propext missedIn_snoc
    rw [FirstVisit.run_snoc, hsnoc]
    exact ih.step hn event

theorem followed_run (h : Followed v start) (hserved : Served v n (fun _ => False) start)
    (hn : n ≤ (min v.pageSize ListMessages.kServerMaxLimit).toNat) (events : List VisitEvent) :
    Followed v (start.run v events) := by
  induction events using List.reverseRecOn with
  | nil => exact h
  | append_singleton events event ih =>
    rw [FirstVisit.run_snoc]
    exact ih.step (served_run hserved hn events) event

theorem served_start {historyCap : UInt32} {systemNow steadyNow : Int} {host : Host}
    {order : BucketOrder} (view : View)
    (hreached : Host.Reached uuid (.initial historyCap systemNow steadyNow) host)
    (hjoin : (ports.exec (JoinChannel uuid order v.clientId v.channelId) host.server).1 = .ok ()) :
    Served v (v.pageLimit host) (fun _ => False) (v.start order host view) := by
  have hreached' := hreached.step order (.joinChannel v.clientId v.channelId)
  have hmember : v.client ∈ (host.step uuid order (.joinChannel v.clientId v.channelId)).server.members
      v.channel := by
    show v.client ∈ (ports.exec (JoinChannel uuid order v.clientId v.channelId) host.server).2.members
      v.channel
    unfold BroadcastService.JoinChannel at hjoin ⊢
    simp only [v.client_eq, v.channel_eq, Machine.exec_bind] at hjoin ⊢
    refine member_of_join order ?_
    rcases hr : (ports.exec (JoinChannel.execute order v.client v.channel) host.server).1 with e | _
    · rw [hr] at hjoin
      cases hjoin
    · rfl
  have hcap : v.pageLimit host ≤ (host.step uuid order
      (.joinChannel v.clientId v.channelId)).server.messages.cap.toNat := by
    rw [messages_step order host fun _ _ _ h => by cases h]
    exact min_le_right ..
  exact ⟨hmember, freshStreams_reached hreached', dated_reached hreached', hcap, nofun, fun _ =>
    ⟨_, [], (List.append_nil _).symm, rfl⟩, nofun, fun _ => nofun, fun _ => False.elim⟩

end

/-- The client 3 is in the channel 1 already. -/
def oneThere : Host := twoConnected.run .canonical .byId
  [.joinChannel (ascii "00000000-0000-0000-0000-000000000003") (ascii "general")]

theorem oneThere_reached : Host.Reached .canonical (.initial 200 0 0) oneThere :=
  Host.reached_run .byId _ twoConnected_reached

/-- The client 2 visits the channel 1. -/
def visitor : Visitor .canonical where
  client := ⟨2⟩
  channel := ⟨1⟩
  clientId := ascii "00000000-0000-0000-0000-000000000002"
  channelId := ascii "00000000-0000-0000-0000-000000000001"
  client_eq := by decide +kernel
  channel_eq := by decide +kernel
  pageSize := 50

/-- The client 3 says something. -/
def hello : VisitEvent := .sendMessage .byId (ascii "00000000-0000-0000-0000-000000000003") (ascii "hi")

/-- The history is read, the message comes, and then the stream is registered. -/
def listedFirst : List VisitEvent := [.listMessages, hello, .subscribeToChannel, .history, .render]

theorem first_message_missed : ¬ ∀ (uuid : UuidLib) (v : Visitor uuid) (historyCap : UInt32)
    (systemNow steadyNow : Int)
    (host : Host), Host.Reached uuid (.initial historyCap systemNow steadyNow) host → ∀ order : BucketOrder,
    (ports.exec (JoinChannel uuid order v.clientId v.channelId) host.server).1 = .ok () → ∀ view : View,
    view.Switches v.key → view.queryClient.history.lookup v.key = none → ∀ events : List VisitEvent,
    ((v.start order host view).run v events).accepted.length < v.pageLimit host →
    ((v.start order host view).run v events).Settled →
    ∀ hook ∈ ((v.start order host view).run v events).view.hook,
      ∀ i ∈ ((v.start order host view).run v events).accepted,
      ∃ m ∈ ((v.start order host view).run v events).view.messages hook, m.messageId = i := by
  intro h
  have hjoin : (ports.exec (JoinChannel .canonical .byId visitor.clientId visitor.channelId)
      oneThere.server).1 = .ok () := by
    decide +kernel
  have haccepted : ((visitor.start .byId oneThere .initial).run visitor listedFirst).accepted = [⟨4⟩] := by
    decide +kernel
  have hhook : ((visitor.start .byId oneThere .initial).run visitor listedFirst).view.hook =
      some ⟨visitor.key, true, .connected, [], true, true, .open, []⟩ := rfl
  have hcached :
      ((visitor.start .byId oneThere .initial).run visitor listedFirst).view.queryClient.history.lookup
        visitor.key = some ⟨⟨[], false⟩, [], [none]⟩ := by
    decide +kernel
  have hfew : 1 < visitor.pageLimit oneThere := by
    decide +kernel
  have hwritten : ((visitor.start .byId oneThere .initial).run visitor listedFirst).written = [] := by
    decide +kernel
  obtain ⟨m, hm, -⟩ := h .canonical visitor 200 0 0 oneThere oneThere_reached .byId hjoin .initial nofun
    (Finmap.lookup_empty _)
    listedFirst (by rwa [haccepted]) ⟨by rw [hwritten]; exact Nat.zero_le _, _, hhook, rfl⟩ _ hhook ⟨4⟩
      (by rw [haccepted]; simp)
  obtain ⟨m', ⟨page, hpage, hm'⟩, -⟩ := (mem_messages hcached).1 ⟨m, hm, rfl⟩
  cases List.mem_singleton.1 hpage
  cases hm'

/-- Once all has arrived, the hook shows every message that was accepted after the Join, exactly when
none was accepted between the read of the history and the registration of the stream in this order. -/
theorem first_visit_iff {uuid : UuidLib} (v : Visitor uuid) {historyCap : UInt32}
    {systemNow steadyNow : Int} {host : Host}
    (hreached : Host.Reached uuid (.initial historyCap systemNow steadyNow) host) (order : BucketOrder)
    (hjoin : (ports.exec (JoinChannel uuid order v.clientId v.channelId) host.server).1 = .ok ())
    {view : View}
    (hswitch : view.Switches v.key) (hfirst : view.queryClient.history.lookup v.key = none)
    (events : List VisitEvent)
    (hfew : ((v.start order host view).run v events).accepted.length ≤ v.pageLimit host)
    (hsettled : ((v.start order host view).run v events).Settled) :
    (∀ hook ∈ ((v.start order host view).run v events).view.hook,
      ∀ i ∈ ((v.start order host view).run v events).accepted,
        ∃ m ∈ ((v.start order host view).run v events).view.messages hook, m.messageId = i) ↔
      ∀ pre event post, events = pre ++ event :: post →
      ∀ i, ¬ FallsBetween v ((v.start order host view).run v pre) event i := by
  have hserved := served_start (v := v) view hreached hjoin
  have hn : v.pageLimit host ≤ (min v.pageSize ListMessages.kServerMaxLimit).toNat := min_le_left ..
  have hstart : Followed v (v.start order host view) := by
    obtain ⟨hook, hvisiting⟩ := visiting_start view hswitch hfirst nofun nofun
    exact ⟨Nat.zero_le _, none, hook, nofun, hvisiting⟩
  have hfollowed := followed_run hstart hserved hn events
  have hserved := served_run hserved hn events
  obtain ⟨page, hook, hpage, hvisiting⟩ := hfollowed.hook
  obtain ⟨hook', hmounted, hs⟩ := hsettled.seen
  cases hvisiting.mounted.symm.trans hmounted
  obtain ⟨p, rfl⟩ := Option.ne_none_iff_exists'.1 (hvisiting.fetched hs).2
  have hp := hpage p rfl
  obtain ⟨-, data, hdata, hids⟩ := hvisiting.answered p rfl
  -- what the hook shows is the page with what came on the stream
  have hshown : ∀ i, (∃ m ∈ ((v.start order host view).run v events).view.messages hook, m.messageId = i) ↔
      i ∈ p.messages.map Message.messageId ∨ i ∈ messageIds
        ((v.start order host view).run v events).written := by
    intro i
    rw [List.take_of_length_le hsettled.read] at hids
    refine (mem_messages (hvisiting.args ▸ hdata)).trans ((hids i).trans ?_)
    rw [hs]
    simp
  constructor
  · intro h pre event post hev i hfalls
    obtain ⟨haccepted, -, ⟨p', hp', hout⟩, hout'⟩ := hserved.missed i ⟨pre, event, post, hev, hfalls⟩
    cases Option.mem_unique hp hp'
    rcases (hshown i).1 (h hook hvisiting.mounted i haccepted) with hi | hi
    · exact hout hi
    · exact hout' hi
  · intro h hook' hhook' i hi
    cases hvisiting.mounted.symm.trans hhook'
    refine (hshown i).2 ?_
    rcases hserved.shown hfew p hp i hi with hi | hi | ⟨pre, event, post, hev, hfalls⟩
    · exact .inl hi
    · exact .inr hi
    · exact absurd hfalls (h pre event post hev i)

/-- A message before the history is read and one after it, both with the stream registered. -/
def subscribedFirst : List VisitEvent :=
  [.subscribeToChannel, hello, .listMessages, hello, .history, .streamEvent, .render, .streamEvent]

theorem first_visit_iff_subscribedFirst :
    ((visitor.start .byId oneThere .initial).run visitor subscribedFirst).accepted.length = 2 ∧
      ∀ hook ∈ ((visitor.start .byId oneThere .initial).run visitor subscribedFirst).view.hook,
        ∀ i ∈ ((visitor.start .byId oneThere .initial).run visitor subscribedFirst).accepted,
        ∃ m ∈ ((visitor.start .byId oneThere .initial).run visitor subscribedFirst).view.messages hook,
          m.messageId = i := by
  have hlength : ((visitor.start .byId oneThere .initial).run visitor subscribedFirst).accepted.length = 2 := by
    decide +kernel
  have hsettled : ((visitor.start .byId oneThere .initial).run visitor subscribedFirst).Settled := by
    have hseen : ((visitor.start .byId oneThere .initial).run visitor subscribedFirst).view.hook.map
        Hook.isSuccess = some true := by
      decide +kernel
    refine ⟨?_, Option.map_eq_some_iff.1 hseen⟩
    decide +kernel
  have hjoin : (ports.exec (JoinChannel .canonical .byId visitor.clientId visitor.channelId)
      oneThere.server).1 = .ok () := by
    decide +kernel
  have hfew : 2 ≤ visitor.pageLimit oneThere := by
    decide +kernel
  have hswitch : View.initial.Switches visitor.key := nofun
  have hall : ∀ k : Fin subscribedFirst.length,
      ((visitor.start .byId oneThere .initial).run visitor (subscribedFirst.take k)).page = none ∨
      ((visitor.start .byId oneThere .initial).run visitor (subscribedFirst.take k)).stream ≠ none := by
    decide +kernel
  refine ⟨hlength, (first_visit_iff visitor oneThere_reached .byId hjoin hswitch
    (Finmap.lookup_empty _) subscribedFirst
    (hlength ▸ hfew) hsettled).2 fun pre event post hev i hfalls => ?_⟩
  have hk : pre.length < subscribedFirst.length := by
    rw [hev]
    simp
  have htake : subscribedFirst.take pre.length = pre := by
    rw [hev, List.take_left' rfl]
  have hbefore := hall ⟨pre.length, hk⟩
  dsimp only at hbefore
  rw [htake] at hbefore
  cases event with
  | sendMessage order clientId content =>
    obtain ⟨hpage, hstream, -⟩ := hfalls
    exact hbefore.elim hpage fun hne => hne hstream
  | _ => exact hfalls

end Bcmd.Web
