import Bcmd.FirstVisit
import Bcmd.Lib.StableSort
import Bcmd.LiveMessages
import Bcmd.MessageLog

/-!
# The order in which the channel page shows its messages

The server orders a channel's messages by position, the hook the ones it has loaded by their timestamps in
milliseconds, stably. Where timestamps tie, the order is the one in which the messages are first found in the
cache, and there an older page stands behind the newer ones. A page that comes is stored together with the pages
there were when it was asked for, so that a live message that was injected meanwhile is gone.
-/

namespace Bcmd.Web

/-- What the server has of a channel in the course of time, oldest first. -/
structure ServerHistory (channelId : Option ChannelId) where
  messages : List Message
  nodup : (messages.map Message.messageId).Nodup
  ordered : messages.Pairwise (·.timestamp ≤ ·.timestamp)
  channelId_eq : ∀ m ∈ messages, m.channelId = channelId

/-- The answer to `listMessages` by a server that holds these messages of the channel. -/
def listMessages (held : List Message) (beforeMessageId : Option MessageId) (limit : UInt32) :
    ListMessagesPage :=
  let capped := min limit ListMessages.kServerMaxLimit
  let page := match beforeMessageId with
    | some before => Window.before Message.messageId before capped.toNat held
    | none => held.rtake capped.toNat
  ⟨page, match page with
    | [] => false
    | front :: _ => ¬ (Window.before Message.messageId front.messageId 1 held).isEmpty⟩

/-- What the server tells of a channel. -/
def served (s : Server) (k : ChannelId) : List Message :=
  (s.messages.buffer k).map fun m => toHistoryMessage (messageToEvent s.clients m)

/-! ### The infinite query -/

def getNextPageParam (lastPage : ListMessagesPage) : Option MessageId :=
  if lastPage.hasMore then lastPage.messages.head?.map Message.messageId else none

def HistoryQueryData.lastPage (data : HistoryQueryData) : ListMessagesPage :=
  data.rest.getLast?.getD data.first

/-- The parameter of the page that comes next, if one does. -/
def nextPageParam : Option HistoryQueryData → Option (Option MessageId)
  | none => some none
  | some data => (getNextPageParam data.lastPage).map some

def appendPage (param : Option MessageId) (page : ListMessagesPage) :
    Option HistoryQueryData → HistoryQueryData
  | none => ⟨page, [], [param]⟩
  | some data => { data with rest := data.rest ++ [page], pageParams := data.pageParams ++ [param] }

/-- A page on its way: the pages there were when it was asked for, and its parameter if there is such a page. -/
structure PageRequest where
  data : Option HistoryQueryData
  param : Option (Option MessageId)

def PageRequest.messages (request : PageRequest) (limit : UInt32) (held : List Message) : List Message :=
  match request.param with
  | none => []
  | some param => (listMessages held param limit).messages

/-- What the answer makes of the data, whatever they have become since the request. -/
def PageRequest.result (request : PageRequest) (limit : UInt32) (held : List Message) :
    Option HistoryQueryData :=
  match request.param with
  | none => request.data
  | some param => some (appendPage param (listMessages held param limit) request.data)

/-- The query of one key. -/
structure Feed where
  data : Option HistoryQueryData
  fetching : Option PageRequest

def Feed.initial : Feed := ⟨none, none⟩

/-- The first page is asked for once only; after it, a request takes the place of one that is on its way
(`cancelRefetch`). -/
def Feed.fetch (feed : Feed) : Feed :=
  match feed.data, feed.fetching with
  | none, some _ => feed
  | data, _ => { feed with fetching := some ⟨data, nextPageParam data⟩ }

inductive FeedEvent
  /-- The hook is joined, and its query asks for the first page if it has none. -/
  | enabled
  /-- `fetchOlder` of a render that saw the query so. -/
  | fetchOlder (hasNextPage isFetchingNextPage : Bool)
  /-- The server held these messages when it answered. -/
  | answer (held : List Message)
  /-- The request has failed, its retries too. -/
  | failed
  | live (message : Message)

/-- What is held is a stretch of the history: later messages are not there yet, earlier ones not any more. -/
def FeedEvent.Of {channelId : Option ChannelId} (history : ServerHistory channelId) : FeedEvent → Prop
  | answer held => held <:+: history.messages
  | live message => message ∈ history.messages
  | enabled | fetchOlder _ _ | failed => True

instance {channelId : Option ChannelId} (history : ServerHistory channelId) :
    (event : FeedEvent) → Decidable (event.Of history)
  | .answer held => inferInstanceAs (Decidable (held <:+: history.messages))
  | .live message => inferInstanceAs (Decidable (message ∈ history.messages))
  | .enabled | .fetchOlder _ _ | .failed => .isTrue trivial

namespace Feed
variable (limit : UInt32)

def step (feed : Feed) : FeedEvent → Feed
  | .enabled => if feed.data = none then feed.fetch else feed
  | .fetchOlder hasNextPage isFetchingNextPage =>
    if hasNextPage ∧ ¬ isFetchingNextPage then feed.fetch else feed
  | .answer held =>
    match feed.fetching with
    | none => feed
    | some request => ⟨request.result limit held, none⟩
  | .failed => { feed with fetching := none }
  | .live message => { feed with data := some (injectInto message feed.data) }

def run (events : List FeedEvent) (feed : Feed) : Feed := events.foldl (step limit) feed

/-- The messages that come with the event: those of a page, or the one that is injected. -/
def comes (feed : Feed) : FeedEvent → List Message
  | .answer held => feed.fetching.elim [] (·.messages limit held)
  | .live message => [message]
  | .enabled | .fetchOlder _ _ | .failed => []

/-- All the messages that have come in a run, on pages or live. -/
def loaded (feed : Feed) : List FeedEvent → List Message
  | [] => []
  | event :: events => feed.comes limit event ++ loaded (feed.step limit event) events

end Feed

/-- The messages in the cache, in the order in which the hook goes through them. -/
def cached : Option HistoryQueryData → List Message
  | none => []
  | some data => data.pages.flatMap ListMessagesPage.messages

/-! ### The condition -/

section
variable {channelId : Option ChannelId} (history : ServerHistory channelId) (limit : UInt32)

/-- The server has `a` before `b`, and both have the same timestamp. -/
abbrev ServerHistory.Tied : Message → Message → Prop :=
  StableSort.Tied Message.timestamp history.messages

/-- A page comes when all that is in the cache was there already at the request or is on the page, and brings
nothing new that is tied with a later message that was there. A live message that is new is tied with no later
message of the first page and with no earlier one that is in the older pages only. -/
def Feed.Keeps (feed : Feed) : FeedEvent → Prop
  | .answer held => ∀ request ∈ feed.fetching,
    (∀ m ∈ cached feed.data, m ∈ cached request.data ∨ m ∈ request.messages limit held) ∧
      ∀ a ∈ request.messages limit held, a ∉ cached request.data →
        ∀ b ∈ cached request.data, ¬ history.Tied a b
  | .live m => m ∉ cached feed.data → ∀ old ∈ feed.data,
    (∀ b ∈ old.first.messages, ¬ history.Tied m b) ∧
      ∀ page ∈ old.rest, ∀ b ∈ page.messages, b ∉ old.first.messages → ¬ history.Tied b m
  | .enabled | .fetchOlder _ _ | .failed => True

/-- Every event of a run does. -/
def Feed.AlwaysKeeps : Feed → List FeedEvent → Prop
  | _, [] => True
  | feed, event :: events => feed.Keeps history limit event ∧ AlwaysKeeps (feed.step limit event) events

instance (a b : Message) : Decidable (history.Tied a b) :=
  inferInstanceAs (Decidable ([a, b].Sublist history.messages ∧ a.timestamp = b.timestamp))

instance Feed.decidableKeeps (feed : Feed) : (event : FeedEvent) → Decidable (feed.Keeps history limit event)
  | .answer held => inferInstanceAs (Decidable (∀ request ∈ feed.fetching,
      (∀ m ∈ cached feed.data, m ∈ cached request.data ∨ m ∈ request.messages limit held) ∧
        ∀ a ∈ request.messages limit held, a ∉ cached request.data →
          ∀ b ∈ cached request.data, ¬ history.Tied a b))
  | .live m => inferInstanceAs (Decidable (m ∉ cached feed.data → ∀ old ∈ feed.data,
      (∀ b ∈ old.first.messages, ¬ history.Tied m b) ∧
        ∀ page ∈ old.rest, ∀ b ∈ page.messages, b ∉ old.first.messages → ¬ history.Tied b m))
  | .enabled | .fetchOlder _ _ | .failed => .isTrue trivial

instance Feed.decidableAlwaysKeeps : (feed : Feed) → (events : List FeedEvent) →
    Decidable (feed.AlwaysKeeps history limit events)
  | _, [] => .isTrue trivial
  | feed, event :: events =>
    @instDecidableAnd _ _ (feed.decidableKeeps history limit event)
      (Feed.decidableAlwaysKeeps (feed.step limit event) events)

end

/-! ### The server's answers -/

/-- A member gets this page. -/
theorem listMessages_served {c : ClientId} {k : ChannelId} {s : Server} (cursor : Option MessageId)
    (limit : UInt32) (h : c ∈ s.members k) : ∃ page,
    ports.exec (ListMessages.execute c k cursor limit) s = (.ok page, s) ∧
      listMessages (served s k) cursor limit =
        ⟨page.messages.map fun m => toHistoryMessage (messageToEvent s.clients m), page.hasMore⟩ := by
  have hid : (fun m => (toHistoryMessage (messageToEvent s.clients m)).messageId) = Bcmd.Message.id := rfl
  have hbefore : ∀ x (n : UInt32), Window.before Message.messageId x n.toNat (served s k) =
      (s.messages.listBefore k x n).map fun m => toHistoryMessage (messageToEvent s.clients m) := by
    intro x n
    rw [served, Window.before_map, hid, InMemoryMessageRepository.listBefore_eq]
  have hrecent : ∀ n : UInt32, (served s k).rtake n.toNat =
      (s.messages.recent k n).map fun m => toHistoryMessage (messageToEvent s.clients m) := by
    intro n
    rw [served, InMemoryMessageRepository.recent_eq, List.rtake, List.length_map, List.map_drop]
  have hmore : ∀ x, (Window.before Message.messageId x 1 (served s k)).isEmpty =
      (s.messages.listBefore k x 1).isEmpty := by
    intro x
    rw [show (1 : Nat) = (1 : UInt32).toNat from rfl, hbefore, List.isEmpty_map]
  refine ⟨_, exec_listMessages cursor limit h, ?_⟩
  simp only [listMessages, InMemoryMessageRepository.page]
  rcases cursor with _ | x
  · simp only [hrecent, hmore, ListMessagesPage.mk.injEq, true_and]
    rcases s.messages.recent k (min limit ListMessages.kServerMaxLimit) with _ | ⟨front, older⟩ <;> rfl
  · simp only [hbefore, hmore, ListMessagesPage.mk.injEq, true_and]
    rcases s.messages.listBefore k x (min limit ListMessages.kServerMaxLimit) with _ | ⟨front, older⟩ <;> rfl

theorem listMessages_sublist (held : List Message) (cursor : Option MessageId) (limit : UInt32) :
    (listMessages held cursor limit).messages.Sublist held := by
  rcases cursor with _ | x
  · exact List.drop_sublist ..
  · show (Window.before Message.messageId x _ held).Sublist held
    unfold Window.before
    split
    · exact List.nil_sublist held
    · exact (List.drop_sublist ..).trans (List.take_sublist ..)

/-! ### The list of the hook -/

section
variable {channelId : Option ChannelId} (history : ServerHistory channelId)

theorem ServerHistory.nodup_messages : history.messages.Nodup := List.Nodup.of_map _ history.nodup

theorem ServerHistory.eq_of_messageId {m m' : Message} (hm : m ∈ history.messages)
    (hm' : m' ∈ history.messages) (h : m.messageId = m'.messageId) : m = m' :=
  List.inj_on_of_nodup_map history.nodup hm hm' h

/-- The map by id keeps each message where it first came. -/
theorem dedupe_eq {l : List Message} (h : l ⊆ history.messages) : dedupe channelId l = l.eraseDups := by
  induction l using List.reverseRecOn with
  | nil => simp [dedupe]
  | append_singleton l m ih =>
    have hl : l ⊆ history.messages := fun m' hm' => h (List.mem_append_left _ hm')
    have hm : m ∈ history.messages := h (by simp)
    have hany : (l.eraseDups.any fun m' => m'.messageId = m.messageId) = true ↔ m ∈ l := by
      simp only [List.any_eq_true, List.mem_eraseDups, decide_eq_true_eq]
      constructor
      · rintro ⟨m', hm', hid⟩
        rwa [← history.eq_of_messageId (hl hm') hm hid]
      · exact fun hm => ⟨m, hm, rfl⟩
    have hstep : dedupe channelId (l ++ [m]) = if (dedupe channelId l).any (·.messageId = m.messageId)
        then dedupe channelId l else dedupe channelId l ++ [{ m with channelId := channelId }] := by
      simp [dedupe]
    rw [hstep, ih hl, StableSort.eraseDups_snoc, ← history.channelId_eq m hm]
    simp only [hany]

theorem messages_eq {view : View} {hook : Hook} {history : ServerHistory hook.args.channelId}
    {data : Option HistoryQueryData} (hdata : view.queryClient.history.lookup hook.args = data)
    (hl : cached data ⊆ history.messages) :
    view.messages hook = (cached data).eraseDups.mergeSort (·.timestamp ≤ ·.timestamp) := by
  unfold View.messages
  rw [hdata]
  rcases data with _ | data
  · simp [cached]
  · rw [← dedupe_eq history hl]
    rfl

end

/-! ### Steps -/

section
variable {channelId : Option ChannelId} {history : ServerHistory channelId} {limit : UInt32} {feed : Feed}
  {event : FeedEvent} {come : List Message}

theorem cached_appendPage (param : Option MessageId) (page : ListMessagesPage)
    (data : Option HistoryQueryData) :
    cached (some (appendPage param page data)) = cached data ++ page.messages := by
  rcases data with _ | data
  · simp [cached, appendPage, HistoryQueryData.pages]
  · simp [cached, appendPage, HistoryQueryData.pages]

theorem cached_result (request : PageRequest) (limit : UInt32) (held : List Message) :
    cached (request.result limit held) = cached request.data ++ request.messages limit held := by
  rcases request with ⟨data, _ | param⟩
  · exact (List.append_nil _).symm
  · exact cached_appendPage ..

theorem has_iff_cached {old : HistoryQueryData} {m : Message} (hl : cached (some old) ⊆ history.messages)
    (hm : m ∈ history.messages) : old.has m.messageId = true ↔ m ∈ cached (some old) := by
  have hmem : ∀ m', old.Has m' ↔ m' ∈ cached (some old) := by
    intro m'
    simp only [HistoryQueryData.Has, cached, List.mem_flatMap]
  rw [has_iff]
  constructor
  · rintro ⟨m', hm', hid⟩
    rw [hmem] at hm'
    rwa [← history.eq_of_messageId (hl hm') hm hid]
  · exact fun h => ⟨m, (hmem m).2 h, rfl⟩

/-- A new live message comes after the first page, before the older ones. -/
theorem cached_injectInto {old : HistoryQueryData} {m : Message} (h : ¬ old.has m.messageId = true) :
    cached (some (injectInto m (some old))) =
      old.first.messages ++ m :: old.rest.flatMap ListMessagesPage.messages := by
  simp [injectInto, h, cached, HistoryQueryData.pages]

theorem PageRequest.messages_sublist (request : PageRequest) (limit : UInt32) (held : List Message) :
    (request.messages limit held).Sublist held := by
  rcases request with ⟨data, _ | param⟩
  · exact List.nil_sublist held
  · exact listMessages_sublist held param limit

theorem comes_subset (hevent : event.Of history) : feed.comes limit event ⊆ history.messages := by
  cases event with
  | answer held =>
    rcases hrequest : feed.fetching with _ | request
    · rw [Feed.comes, hrequest]
      exact List.nil_subset _
    · rw [Feed.comes, hrequest]
      exact List.Subset.trans (request.messages_sublist limit held).subset hevent.subset
  | live m => exact List.cons_subset.2 ⟨hevent, List.nil_subset _⟩
  | enabled | fetchOlder | failed => exact List.nil_subset _

/-- Nothing is in the cache, or in the pages that a request has taken along, but what has come. -/
structure Feed.Sound (feed : Feed) (come : List Message) : Prop where
  cache : cached feed.data ⊆ come
  asked : ∀ request ∈ feed.fetching, cached request.data ⊆ come

/-- All that has come is in the cache, each message first where it may stand. -/
structure Feed.Holds (history : ServerHistory channelId) (feed : Feed) (come : List Message) : Prop where
  kept : come ⊆ cached feed.data
  arrived : StableSort.Arrived Message.timestamp history.messages (cached feed.data)

/-- So it was in the pages that a request has taken along. -/
def Feed.Asked (history : ServerHistory channelId) (feed : Feed) : Prop :=
  ∀ request ∈ feed.fetching, StableSort.Arrived Message.timestamp history.messages (cached request.data)

/-! #### A request -/

theorem Feed.fetch_data (feed : Feed) : feed.fetch.data = feed.data := by
  obtain ⟨_ | data, _ | request⟩ := feed <;> rfl

theorem Feed.fetch_request {request : PageRequest} (h : request ∈ feed.fetch.fetching) :
    request ∈ feed.fetching ∨ request.data = feed.data := by
  obtain ⟨_ | data, _ | old⟩ := feed
  · cases h
    exact .inr rfl
  · exact .inl h
  · cases h
    exact .inr rfl
  · cases h
    exact .inr rfl

/-- A page comes, or a live message, or the cache stays as it is. -/
theorem Feed.step_cases (feed : Feed) (limit : UInt32) (event : FeedEvent) :
    (∃ held request, event = .answer held ∧ feed.fetching = some request) ∨ (∃ m, event = .live m) ∨
      (feed.step limit event).data = feed.data ∧ feed.comes limit event = [] ∧
        (∀ request ∈ (feed.step limit event).fetching, request ∈ feed.fetching ∨ request.data = feed.data) ∧
        ∀ channelId (history : ServerHistory channelId), feed.Keeps history limit event := by
  cases event with
  | enabled =>
    refine .inr (.inr ?_)
    rw [Feed.step]
    split
    · exact ⟨feed.fetch_data, rfl, fun _ => Feed.fetch_request, fun _ _ => trivial⟩
    · exact ⟨rfl, rfl, fun _ => .inl, fun _ _ => trivial⟩
  | fetchOlder hasNextPage isFetchingNextPage =>
    refine .inr (.inr ?_)
    rw [Feed.step]
    split
    · exact ⟨feed.fetch_data, rfl, fun _ => Feed.fetch_request, fun _ _ => trivial⟩
    · exact ⟨rfl, rfl, fun _ => .inl, fun _ _ => trivial⟩
  | answer held =>
    rcases hrequest : feed.fetching with _ | request
    · refine .inr (.inr ?_)
      simp [Feed.step, Feed.comes, Feed.Keeps, hrequest]
    · exact .inl ⟨held, request, rfl, rfl⟩
  | failed =>
    refine .inr (.inr ⟨rfl, rfl, fun _ hnone => ?_, fun _ _ => trivial⟩)
    cases hnone
  | live m => exact .inr (.inl ⟨m, rfl⟩)

/-- The answer to a request, and what comes with it. -/
theorem Feed.step_answer (limit : UInt32) {request : PageRequest} (hrequest : feed.fetching = some request)
    (held : List Message) :
    feed.step limit (.answer held) = ⟨request.result limit held, none⟩ ∧
      feed.comes limit (.answer held) = request.messages limit held := by
  simp [Feed.step, Feed.comes, hrequest]

/-! #### The answer to it -/

/-- A page comes. -/
theorem holds_answer {held : List Message} {request : PageRequest} (hheld : held <:+: history.messages)
    (hsound : feed.Sound come) (h : feed.Holds history come) (hasked : feed.Asked history)
    (hrequest : feed.fetching = some request) :
    (Feed.mk (request.result limit held) none).Holds history (come ++ request.messages limit held) ↔
      (∀ m ∈ cached feed.data, m ∈ cached request.data ∨ m ∈ request.messages limit held) ∧
        ∀ a ∈ request.messages limit held, a ∉ cached request.data →
          ∀ b ∈ cached request.data, ¬ history.Tied a b := by
  have hpage := (request.messages_sublist limit held).trans hheld.sublist
  have hties : StableSort.Arrived Message.timestamp history.messages
      (cached request.data ++ request.messages limit held) ↔ _ :=
    StableSort.arrived_append_iff history.nodup_messages hpage
  constructor
  · rintro ⟨hkept, harrived⟩
    rw [cached_result] at hkept harrived
    refine ⟨fun m hm => ?_, (hties.1 harrived).2⟩
    exact List.mem_append.1 (hkept (List.mem_append_left _ (hsound.cache hm)))
  · rintro ⟨hkept, htied⟩
    refine ⟨?_, ?_⟩
    · rw [cached_result]
      refine List.append_subset.2 ⟨fun m hm => ?_, List.subset_append_right ..⟩
      exact List.mem_append.2 (hkept m (h.kept hm))
    · rw [cached_result]
      exact hties.2 ⟨hasked request hrequest, htied⟩

/-! #### A live message -/

theorem mem_injectInto {data : Option HistoryQueryData} {m m' : Message}
    (hm' : m' ∈ cached (some (injectInto m data))) : m' ∈ cached data ∨ m' = m := by
  rcases data with _ | old
  · simpa [cached, injectInto, HistoryQueryData.pages] using hm'
  · by_cases hhas : old.has m.messageId = true
    · rw [injectInto, if_pos hhas] at hm'
      exact .inl hm'
    · rw [cached_injectInto hhas] at hm'
      simp only [cached, HistoryQueryData.pages, List.flatMap_cons, List.mem_append, List.mem_cons] at hm' ⊢
      tauto

/-- A live message is injected. -/
theorem holds_live {m : Message} (hm : m ∈ history.messages) (hcome : come ⊆ history.messages)
    (hsound : feed.Sound come) (h : feed.Holds history come) :
    (feed.step limit (.live m)).Holds history (come ++ [m]) ↔ feed.Keeps history limit (.live m) := by
  obtain ⟨data, fetching⟩ := feed
  have hl : cached data ⊆ history.messages := List.Subset.trans hsound.cache hcome
  rcases data with _ | old
  · -- there is no other message that it could be tied with
    have hone : StableSort.Arrived Message.timestamp history.messages [m] := by
      intro a b hab ha hb
      have hne := StableSort.pair_ne history.nodup_messages hab.1
      rw [List.mem_singleton] at ha hb
      exact absurd (ha.trans hb.symm) hne
    have hempty : come = [] := List.subset_nil.1 h.kept
    refine iff_of_true ⟨?_, hone⟩ fun _ old hold => ?_
    · rw [hempty]
      exact List.Subset.refl [m]
    · cases hold
  have hiff := has_iff_cached hl hm
  by_cases hhas : old.has m.messageId = true
  · have hin := hiff.1 hhas
    have hsame : Feed.step limit ⟨some old, fetching⟩ (.live m) = ⟨some old, fetching⟩ := by
      rw [Feed.step, injectInto, if_pos hhas]
    rw [hsame]
    refine iff_of_true ⟨?_, h.arrived⟩ fun hnot => absurd hin hnot
    exact List.append_subset.2 ⟨h.kept, List.cons_subset.2 ⟨hin, List.nil_subset _⟩⟩
  have hnot : m ∉ cached (some old) := fun hm => hhas (hiff.2 hm)
  have hcut : m ∉ old.first.messages ++ old.rest.flatMap ListMessagesPage.messages := hnot
  have hinsert : StableSort.Arrived Message.timestamp history.messages
      (old.first.messages ++ m :: old.rest.flatMap ListMessagesPage.messages) ↔ _ :=
    StableSort.arrived_insert_iff history.nodup_messages hcut
  constructor
  · rintro ⟨-, harrived⟩ - _ ⟨⟩
    simp only [Feed.step, cached_injectInto hhas] at harrived
    obtain ⟨-, hfirst, hrest⟩ := hinsert.1 harrived
    exact ⟨hfirst, fun page hpage b hb => hrest b (List.mem_flatMap.2 ⟨page, hpage, hb⟩)⟩
  · intro hkeeps
    obtain ⟨hfirst, hrest⟩ := hkeeps hnot old rfl
    refine ⟨?_, ?_⟩
    · simp only [Feed.step, cached_injectInto hhas]
      refine List.append_subset.2 ⟨fun m' hm' => ?_, List.cons_subset.2 ⟨by simp, List.nil_subset _⟩⟩
      have hold := h.kept hm'
      simp only [cached, HistoryQueryData.pages, List.flatMap_cons, List.mem_append, List.mem_cons] at hold ⊢
      tauto
    · simp only [Feed.step, cached_injectInto hhas]
      refine hinsert.2 ⟨h.arrived, hfirst, fun b hb => ?_⟩
      obtain ⟨page, hpage, hb⟩ := List.mem_flatMap.1 hb
      exact hrest page hpage b hb

/-! #### Any event -/

theorem sound_step (limit : UInt32) (h : feed.Sound come) (event : FeedEvent) :
    (feed.step limit event).Sound (come ++ feed.comes limit event) := by
  obtain ⟨held, request, rfl, hrequest⟩ | ⟨m, rfl⟩ | ⟨hdata, hnone, hfetching, -⟩ :=
    feed.step_cases limit event
  · obtain ⟨hstep, hcomes⟩ := Feed.step_answer limit hrequest held
    rw [hstep, hcomes]
    refine ⟨?_, fun _ hnone => ?_⟩
    · rw [cached_result]
      exact List.append_subset.2 ⟨List.subset_append_of_subset_left _ (h.asked request hrequest),
        List.subset_append_right ..⟩
    · cases hnone
  · refine ⟨fun m' hm' => ?_, fun request hrequest => ?_⟩
    · rcases mem_injectInto hm' with hold | rfl
      · exact List.mem_append_left _ (h.cache hold)
      · exact List.mem_append_right _ (List.mem_singleton_self _)
    · exact List.subset_append_of_subset_left _ (h.asked request hrequest)
  · rw [hnone, List.append_nil]
    refine ⟨hdata ▸ h.cache, fun request hrequest => ?_⟩
    rcases hfetching request hrequest with hold | hnow
    · exact h.asked request hold
    · rw [hnow]
      exact h.cache

theorem asked_step (limit : UInt32) (h : feed.Holds history come) (hasked : feed.Asked history)
    (event : FeedEvent) : (feed.step limit event).Asked history := by
  obtain ⟨held, request, rfl, hrequest⟩ | ⟨m, rfl⟩ | ⟨-, -, hfetching, -⟩ := feed.step_cases limit event
  · rw [(Feed.step_answer limit hrequest held).1]
    intro _ hnone
    cases hnone
  · exact hasked
  · intro request hrequest
    rcases hfetching request hrequest with hold | hnow
    · exact hasked request hold
    · rw [hnow]
      exact h.arrived

/-- An event leaves the cache as it should be exactly when it keeps what there is and the ties. -/
theorem holds_step (limit : UInt32) (hevent : event.Of history) (hcome : come ⊆ history.messages)
    (hsound : feed.Sound come) (h : feed.Holds history come) (hasked : feed.Asked history) :
    (feed.step limit event).Holds history (come ++ feed.comes limit event) ↔
      feed.Keeps history limit event := by
  obtain ⟨held, request, rfl, hrequest⟩ | ⟨m, rfl⟩ | ⟨hdata, hnone, -, hkeeps⟩ := feed.step_cases limit event
  · obtain ⟨hstep, hcomes⟩ := Feed.step_answer limit hrequest held
    rw [hstep, hcomes, Feed.Keeps, hrequest]
    simp only [Option.mem_some_iff, forall_eq']
    exact holds_answer hevent hsound h hasked hrequest
  · exact holds_live hevent hcome hsound h
  · rw [hnone, List.append_nil]
    refine iff_of_true ⟨?_, ?_⟩ (hkeeps _ history)
    · rw [hdata]
      exact h.kept
    · rw [hdata]
      exact h.arrived

/-! ### Runs -/

theorem sound_run (h : feed.Sound come) (events : List FeedEvent) :
    (feed.run limit events).Sound (come ++ feed.loaded limit events) := by
  induction events generalizing feed come with
  | nil => simpa [Feed.run, Feed.loaded] using h
  | cons event events ih =>
    have hrest := ih (sound_step limit h event)
    rwa [List.append_assoc] at hrest

theorem loaded_subset {events : List FeedEvent} (hevents : ∀ event ∈ events, event.Of history) :
    feed.loaded limit events ⊆ history.messages := by
  induction events generalizing feed with
  | nil => exact List.nil_subset _
  | cons event events ih =>
    refine List.append_subset.2 ⟨comes_subset (hevents event (List.mem_cons_self ..)), ?_⟩
    exact ih fun e he => hevents e (List.mem_cons_of_mem _ he)

/-- The cache is as it should be after every beginning of a run exactly when every event keeps it so. -/
theorem holds_run {events : List FeedEvent} (hevents : ∀ event ∈ events, event.Of history)
    (hcome : come ⊆ history.messages) (hsound : feed.Sound come) (h : feed.Holds history come)
    (hasked : feed.Asked history) :
    (∀ past, past <+: events → (feed.run limit past).Holds history (come ++ feed.loaded limit past)) ↔
      feed.AlwaysKeeps history limit events := by
  induction events generalizing feed come with
  | nil =>
    refine iff_of_true (fun past hpast => ?_) trivial
    rw [List.prefix_nil.1 hpast]
    simpa [Feed.run, Feed.loaded] using h
  | cons event events ih =>
    have hevent := hevents event (List.mem_cons_self ..)
    have hrest : ∀ e ∈ events, e.Of history := fun e he => hevents e (List.mem_cons_of_mem _ he)
    have hcome' : come ++ feed.comes limit event ⊆ history.messages :=
      List.append_subset.2 ⟨hcome, comes_subset hevent⟩
    have hstep := holds_step limit hevent hcome hsound h hasked
    have hsound' := sound_step limit hsound event
    have hasked' := asked_step limit h hasked event
    constructor
    · intro hall
      have hone := hall [event] (List.prefix_append [event] events)
      simp only [Feed.run, Feed.loaded, List.foldl_cons, List.foldl_nil, List.append_nil] at hone
      refine ⟨hstep.1 hone, (ih hrest hcome' hsound' hone hasked').1 fun past hpast => ?_⟩
      rw [List.append_assoc]
      exact hall (event :: past) ((List.prefix_cons_inj event).2 hpast)
    · rintro ⟨hkeeps, halways⟩ past hpast
      rcases past with _ | ⟨e, past⟩
      · simpa [Feed.run, Feed.loaded] using h
      · obtain ⟨rfl, hlater⟩ := List.cons_prefix_cons.1 hpast
        have hfinal := (ih hrest hcome' hsound' (hstep.2 hkeeps) hasked').2 halways past hlater
        rwa [List.append_assoc] at hfinal

end

/-! ### The hook's steps -/

/-- The query of the key as the machine of the hook has it, which asks for first pages only. -/
def QueryClient.feed (queryClient : QueryClient) (key : HistoryKey) : Feed :=
  ⟨queryClient.history.lookup key, if key ∈ queryClient.fetching then some ⟨none, some none⟩ else none⟩

section
variable (queryClient : QueryClient) (key : HistoryKey) (limit : UInt32)

theorem feed_injectAll (c : ClientId) (k : Option ChannelId) (messages : List Message) :
    ∃ events, (injectAll c k messages queryClient).feed key = (queryClient.feed key).run limit events := by
  by_cases hkey : key = ⟨some c, k⟩
  · refine ⟨messages.map .live, ?_⟩
    induction messages generalizing queryClient with
    | nil => rfl
    | cons message messages ih =>
      refine (ih (injectLiveMessage queryClient c k message)).trans ?_
      have hone : (injectLiveMessage queryClient c k message).feed key =
          (queryClient.feed key).step limit (.live message) := by
        simp only [QueryClient.feed, lookup_inject, if_pos hkey, Feed.step]
        rfl
      rw [hone]
      rfl
  · refine ⟨[], ?_⟩
    simp only [QueryClient.feed, lookup_injectAll_ne hkey, fetching_injectAll]
    rfl

theorem feed_fetch (enabled : Bool) (key' : HistoryKey) :
    ∃ events, (queryClient.fetch enabled key').feed key = (queryClient.feed key).run limit events := by
  unfold QueryClient.fetch
  split
  · rename_i h
    by_cases hkey : key = key'
    · subst hkey
      refine ⟨[.enabled], ?_⟩
      by_cases hfetching : key ∈ queryClient.fetching
      · simp [QueryClient.feed, Feed.run, Feed.step, Feed.fetch, h.2, hfetching]
      · simp [QueryClient.feed, Feed.run, Feed.step, Feed.fetch, nextPageParam, h.2, hfetching]
    · exact ⟨[], by simp [QueryClient.feed, Feed.run, hkey]⟩
  · exact ⟨[], rfl⟩

/-- Whatever the hook does to its caches, their queries do as well. -/
theorem feed_step (view : View) (event : HookEvent)
    (hpage : ∀ page, event = .history key page → ∃ held, page = listMessages held none limit) :
    ∃ events, (view.step event).queryClient.feed key = (view.queryClient.feed key).run limit events := by
  cases event with
  | render args =>
    obtain ⟨events, hfetched⟩ := feed_fetch view.queryClient key limit
      (args.clientId.isSome && args.channelId.isSome && (view.rendered args).isJoined) args
    change (view.fetched args).feed key = _ at hfetched
    rcases render_queryClient view args with hrender | hrender
    · exact ⟨events, (congrArg (·.feed key) hrender).trans hfetched⟩
    rcases drain_cases (view.fetched args) (view.rendered args) with hdrain | ⟨-, -, c, -, hdrain⟩
    · rw [hdrain] at hrender
      exact ⟨events, (congrArg (·.feed key) hrender).trans hfetched⟩
    · rw [hdrain] at hrender
      obtain ⟨lives, hlives⟩ := feed_injectAll (view.fetched args) key limit
        c (view.rendered args).args.channelId (view.rendered args).pendingLive
      refine ⟨events ++ lives, (congrArg (·.feed key) hrender).trans (hlives.trans ?_)⟩
      rw [hfetched]
      exact (List.foldl_append ..).symm
  | message event =>
    by_cases hopen : ∃ hook, view.hook = some hook ∧ hook.stream = .open ∧ hook.initialFetched = true
    swap
    · refine ⟨[], ?_⟩
      rcases hhook : view.hook with _ | hook
      · simp [View.step, hhook, Feed.run]
      by_cases hstream : hook.stream = .open
      · rw [step_message hhook hstream, take_waits (by simpa using fun hf => hopen ⟨hook, hhook, hstream, hf⟩)]
        rfl
      · simp [View.step, hhook, hstream, Feed.run]
    obtain ⟨hook, hhook, hstream, hf⟩ := hopen
    rw [step_message hhook hstream]
    rcases hc : hook.args.clientId with _ | c
    · exact ⟨[], by rw [take_deaf hf hc]; rfl⟩
    · rw [take_injects hf hc]
      exact feed_injectAll view.queryClient key limit c hook.args.channelId
        [toMessage hook.args.channelId event]
  | history key' page =>
    by_cases hfetching : key' ∈ view.queryClient.fetching
    swap
    · exact ⟨[], by simp [View.step, QueryClient.respond, hfetching, Feed.run]⟩
    by_cases hkey : key = key'
    · subst hkey
      obtain ⟨held, rfl⟩ := hpage page rfl
      refine ⟨[.answer held], ?_⟩
      simp [View.step, QueryClient.respond, hfetching, QueryClient.feed, Feed.run, Feed.step,
        PageRequest.result, appendPage]
    · refine ⟨[], ?_⟩
      simp [View.step, QueryClient.respond, hfetching, QueryClient.feed, Feed.run, hkey]
  | unmount | joined | disconnected => exact ⟨[], rfl⟩

end

/-! ### What is shown -/

/-- A mounted hook, with these data in the cache. -/
def viewOf (args : UseChannelMessagesArgs) : Option HistoryQueryData → View
  | none => ⟨⟨∅, ∅⟩, some (.mounted args)⟩
  | some data =>
    ⟨⟨(∅ : Finmap fun _ : HistoryKey => HistoryQueryData).insert args data, ∅⟩, some (.mounted args)⟩

theorem lookup_viewOf (args : UseChannelMessagesArgs) (data : Option HistoryQueryData) :
    (viewOf args data).queryClient.history.lookup args = data := by
  rcases data with _ | data
  · exact Finmap.lookup_empty args
  · exact Finmap.lookup_insert _

/-- The hook shows all that has come in the order of the history exactly when the cache is as it should be. -/
theorem shows_iff {args : UseChannelMessagesArgs} {history : ServerHistory args.channelId} {feed : Feed}
    {come : List Message} (hcome : come ⊆ history.messages) (hsound : feed.Sound come) :
    (∀ (view : View) (hook : Hook), hook.args = args → view.queryClient.history.lookup args = feed.data →
      view.messages hook = history.messages.filter (· ∈ come)) ↔ feed.Holds history come := by
  have hl : cached feed.data ⊆ history.messages := List.Subset.trans hsound.cache hcome
  have hsorted := StableSort.sorted_iff history.nodup_messages history.ordered hl
  constructor
  · intro hshows
    have hone := hshows (viewOf args feed.data) (.mounted args) rfl (lookup_viewOf args feed.data)
    rw [@messages_eq _ (.mounted args) _ _ (lookup_viewOf args feed.data) hl] at hone
    have hkept : come ⊆ cached feed.data := by
      intro m hm
      have hmem : m ∈ history.messages.filter (· ∈ come) := by simp [hcome hm, hm]
      rw [← hone, List.mem_mergeSort, List.mem_eraseDups] at hmem
      exact hmem
    refine ⟨hkept, hsorted.1 (hone.trans (List.filter_congr fun m _ => ?_))⟩
    exact decide_eq_decide.2 ⟨fun hm => hkept hm, fun hm => hsound.cache hm⟩
  · rintro ⟨hkept, harrived⟩ view hook rfl hdata
    rw [messages_eq hdata hl, hsorted.2 harrived]
    exact List.filter_congr fun m _ => decide_eq_decide.2 ⟨fun hm => hsound.cache hm, fun hm => hkept hm⟩

/-- For every history of the server, every page size and every run of requests, answers and live messages: after
every beginning of the run, the list that the hook returns has each message that has come once and in the order
of the history, exactly when every event keeps what there is and the ties. -/
theorem shown_in_order_iff (args : UseChannelMessagesArgs) (history : ServerHistory args.channelId)
    (limit : UInt32) (events : List FeedEvent) (hevents : ∀ event ∈ events, event.Of history) :
    (∀ past, past <+: events → ∀ (view : View) (hook : Hook), hook.args = args →
        view.queryClient.history.lookup args = (Feed.initial.run limit past).data →
        view.messages hook = history.messages.filter (· ∈ Feed.initial.loaded limit past)) ↔
      Feed.initial.AlwaysKeeps history limit events := by
  have hsound : Feed.initial.Sound [] := ⟨List.nil_subset _, fun _ hnone => by cases hnone⟩
  have hholds : Feed.initial.Holds history [] :=
    ⟨List.nil_subset _, fun _ _ _ ha => absurd ha List.not_mem_nil⟩
  have hasked : Feed.initial.Asked history := fun _ hnone => by cases hnone
  rw [← holds_run hevents (List.nil_subset _) hsound hholds hasked]
  refine forall_congr' fun past => forall_congr' fun hpast => ?_
  have hpastEvents : ∀ event ∈ past, event.Of history := fun e he => hevents e (hpast.subset he)
  exact shows_iff (loaded_subset hpastEvents) (sound_run hsound past)

def reader : UseChannelMessagesArgs := ⟨some ⟨7⟩, some ⟨1⟩⟩

def sentAt (messageId : Nat) (timestamp : Int) : Message := ⟨⟨messageId⟩, some ⟨1⟩, ⟨9⟩, [], [], timestamp⟩

def oneEachSecond : ServerHistory reader.channelId :=
  ⟨[sentAt 5 1000, sentAt 6 2000, sentAt 7 3000], by decide, by decide, by decide⟩

def twoInOneMillisecond : ServerHistory reader.channelId :=
  ⟨[sentAt 5 1000, sentAt 6 1000], by decide, by decide, by decide⟩

/-- Pages of one message; the newest message comes live, and comes again while the older page is on its way. -/
def scrolledUp : List FeedEvent :=
  [.enabled, .answer [sentAt 5 1000, sentAt 6 2000], .live (sentAt 7 3000), .fetchOlder true false,
    .live (sentAt 7 3000), .answer oneEachSecond.messages]

theorem shown_in_order_iff_scrolledUp :
    Feed.initial.loaded 1 scrolledUp = [sentAt 6 2000, sentAt 7 3000, sentAt 7 3000, sentAt 5 1000] ∧
      (viewOf reader (Feed.initial.run 1 scrolledUp).data).messages (.mounted reader) =
        oneEachSecond.messages.filter (· ∈ Feed.initial.loaded 1 scrolledUp) := by
  have hevents : ∀ event ∈ scrolledUp, event.Of oneEachSecond := by decide
  have hkeeps : Feed.initial.AlwaysKeeps oneEachSecond 1 scrolledUp := by decide
  have hshown := (shown_in_order_iff reader oneEachSecond 1 scrolledUp hevents).2 hkeeps
  exact ⟨by decide, hshown scrolledUp (List.prefix_refl _) _ _ rfl (lookup_viewOf ..)⟩

/-- The older page of two messages is asked for and comes. -/
def pagedBack : List FeedEvent :=
  [.enabled, .answer twoInOneMillisecond.messages, .fetchOlder true false, .answer twoInOneMillisecond.messages]

/-- The newest message comes while the older page is on its way. -/
def overwritten : List FeedEvent :=
  [.enabled, .answer [sentAt 5 1000, sentAt 6 2000], .fetchOlder true false, .live (sentAt 7 3000),
    .answer oneEachSecond.messages]

/-- The message of the older page is shown last, and a message that has come is not shown. -/
theorem shown_out_of_order :
    ((∀ event ∈ pagedBack, event.Of twoInOneMillisecond) ∧
      (viewOf reader (Feed.initial.run 1 pagedBack).data).messages (.mounted reader) =
        [sentAt 6 1000, sentAt 5 1000] ∧
      twoInOneMillisecond.messages.filter (· ∈ Feed.initial.loaded 1 pagedBack) =
        [sentAt 5 1000, sentAt 6 1000]) ∧
    (∀ event ∈ overwritten, event.Of oneEachSecond) ∧
      sentAt 7 3000 ∈ Feed.initial.loaded 1 overwritten ∧
      sentAt 7 3000 ∉ (viewOf reader (Feed.initial.run 1 overwritten).data).messages (.mounted reader) := by
  have hpages : (Feed.initial.run 1 pagedBack).data =
      some ⟨⟨[sentAt 6 1000], true⟩, [⟨[sentAt 5 1000], false⟩], [none, some ⟨6⟩]⟩ := by decide
  have hlost : (Feed.initial.run 1 overwritten).data =
      some ⟨⟨[sentAt 6 2000], true⟩, [⟨[sentAt 5 1000], false⟩], [none, some ⟨6⟩]⟩ := by decide
  refine ⟨⟨by decide, ?_, by decide⟩, by decide, by decide, ?_⟩
  · rw [hpages]
    unfold viewOf View.messages
    simp only [Finmap.lookup_insert, Hook.mounted]
    exact List.mergeSort_of_pairwise (by decide)
  · rw [hlost]
    unfold viewOf View.messages
    simp only [Finmap.lookup_insert, Hook.mounted, List.mem_mergeSort]
    decide

end Bcmd.Web
