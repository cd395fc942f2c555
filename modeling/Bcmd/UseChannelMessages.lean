import Bcmd.ChannelsStore

/-!
# `client-web/`: `hooks/use-channel-messages.ts`

The hook as a state machine. A render with its commit is one step: the effects whose dependencies have
changed run in source order. An older run of the stream effect does nothing once its signal is aborted, so
only the last one is kept. The query's data stays in the cache when the hook leaves its key.
-/

namespace Bcmd.Web

/-- `none` for `null` and for the empty text. -/
structure UseChannelMessagesArgs where
  clientId : Option ClientId
  channelId : Option ChannelId
deriving DecidableEq

structure Message where
  messageId : MessageId
  channelId : Option ChannelId
  senderId : ClientId
  senderName : Bytes
  content : Bytes
  timestamp : Int
deriving DecidableEq

structure ListMessagesPage where
  messages : List Message
  hasMore : Bool
deriving DecidableEq

/-- The pages of an infinite query, the newest one first. -/
structure HistoryQueryData where
  first : ListMessagesPage
  rest : List ListMessagesPage
  pageParams : List (Option MessageId)
deriving DecidableEq

def HistoryQueryData.pages (data : HistoryQueryData) : List ListMessagesPage := data.first :: data.rest

/-- `channelMessagesKeys.history` of the hook's arguments. -/
abbrev HistoryKey := UseChannelMessagesArgs

structure QueryClient where
  history : Finmap fun _ : HistoryKey => HistoryQueryData
  /-- The keys whose first page was asked for and has not come yet. -/
  fetching : Finset HistoryKey

inductive ConnectionState
  | idle
  | joining
  | connected
  | disconnected
deriving DecidableEq

/-- How far the last run of the stream effect is. -/
inductive StreamPhase
  | idle
  | joining
  | open
  | ended
deriving DecidableEq

/-- A mounted hook. `isSuccess` is the query's, as the last render saw it; `taken` is every message that was
taken from the stream since the stream effect last ran. -/
structure Hook where
  args : UseChannelMessagesArgs
  isJoined : Bool
  connectionState : ConnectionState
  pendingLive : List Message
  initialFetched : Bool
  isSuccess : Bool
  stream : StreamPhase
  taken : List Message

def Hook.mounted (args : UseChannelMessagesArgs) : Hook := ⟨args, false, .idle, [], false, false, .idle, []⟩

structure View where
  queryClient : QueryClient
  hook : Option Hook

def View.initial : View := ⟨⟨∅, ∅⟩, none⟩

/-! ### The cache -/

def HistoryQueryData.has (data : HistoryQueryData) (messageId : MessageId) : Bool :=
  data.pages.any fun page => page.messages.any (·.messageId = messageId)

def injectInto (message : Message) : Option HistoryQueryData → HistoryQueryData
  | none => ⟨⟨[message], false⟩, [], [none]⟩
  | some old =>
    if old.has message.messageId then old
    else { old with first := { old.first with messages := old.first.messages ++ [message] } }

def injectLiveMessage (queryClient : QueryClient) (clientId : ClientId) (channelId : Option ChannelId)
    (message : Message) :
    QueryClient :=
  let key : HistoryKey := ⟨some clientId, channelId⟩
  { queryClient with history := queryClient.history.insert key (injectInto message (queryClient.history.lookup key)) }

/-- An enabled query asks for its first page when it has no data, and only once. -/
def QueryClient.fetch (queryClient : QueryClient) (enabled : Bool) (key : HistoryKey) : QueryClient :=
  if enabled ∧ queryClient.history.lookup key = none then
    { queryClient with fetching := insert key queryClient.fetching }
  else queryClient

/-- The answer to the first page's request. -/
def QueryClient.respond (queryClient : QueryClient) (key : HistoryKey) (page : ListMessagesPage) :
    QueryClient :=
  if key ∈ queryClient.fetching then
    { history := queryClient.history.insert key ⟨page, [], [none]⟩,
      fetching := queryClient.fetching.erase key }
  else queryClient

/-! ### Effects -/

def drainEffect (queryClient : QueryClient) (hook : Hook) : View :=
  if ¬ hook.isSuccess ∨ hook.initialFetched then ⟨queryClient, some hook⟩
  else
    match hook.args.clientId with
    | none => ⟨queryClient, some hook⟩
    | some clientId =>
      ⟨hook.pendingLive.foldl (fun queryClient message =>
        injectLiveMessage queryClient clientId hook.args.channelId message)
        queryClient, some { hook with initialFetched := true, pendingLive := [] }⟩

def streamEffect (hook : Hook) : Hook :=
  let hook := { hook with pendingLive := [], initialFetched := false, isJoined := false, stream := .idle, taken := [] }
  if hook.args.clientId = none ∨ hook.args.channelId = none then hook
  else { hook with connectionState := .joining, stream := .joining }

section
variable (hook : Hook)

@[simp] theorem streamEffect_args : (streamEffect hook).args = hook.args := by
  unfold streamEffect
  dsimp only
  split <;> rfl

@[simp] theorem streamEffect_isSuccess : (streamEffect hook).isSuccess = hook.isSuccess := by
  unfold streamEffect
  dsimp only
  split <;> rfl

@[simp] theorem streamEffect_pendingLive : (streamEffect hook).pendingLive = [] := by
  unfold streamEffect
  dsimp only
  split <;> rfl

@[simp] theorem streamEffect_initialFetched : (streamEffect hook).initialFetched = false := by
  unfold streamEffect
  dsimp only
  split <;> rfl

@[simp] theorem streamEffect_taken : (streamEffect hook).taken = [] := by
  unfold streamEffect
  dsimp only
  split <;> rfl

theorem streamEffect_stream :
    (streamEffect hook).stream = .idle ∨
      (streamEffect hook).stream = .joining ∧ hook.args.clientId ≠ none ∧ hook.args.channelId ≠ none := by
  unfold streamEffect
  dsimp only
  split
  · exact .inl rfl
  · rename_i hids
    exact .inr ⟨rfl, fun hnone => hids (.inl hnone), fun hnone => hids (.inr hnone)⟩

end

/-! ### Steps -/

inductive HookEvent
  /-- A mount, a channel switch or a mere re-render, with the effects of its commit. -/
  | render (args : UseChannelMessagesArgs)
  | unmount
  | joined
  /-- The stream loop takes a `message` event. -/
  | message (event : MessageEvent)
  /-- The join fails, or the stream fails or ends. -/
  | disconnected
  | history (key : HistoryKey) (page : ListMessagesPage)

/-- What the render before this one leaves the hook with, if there was one. -/
def View.rendered (view : View) (args : UseChannelMessagesArgs) : Hook :=
  { view.hook.getD (.mounted args) with
    args := args
    isSuccess := (view.queryClient.history.lookup args).isSome }

/-- The stream effect runs in the commit of this render. -/
def View.Switches (view : View) (args : UseChannelMessagesArgs) : Prop := ∀ hook ∈ view.hook, hook.args ≠ args

instance (view : View) (args : UseChannelMessagesArgs) : Decidable (view.Switches args) :=
  inferInstanceAs (Decidable (∀ hook ∈ view.hook, hook.args ≠ args))

def View.render (view : View) (args : UseChannelMessagesArgs) : View :=
  let hook := view.rendered args
  let queryClient := view.queryClient.fetch (args.clientId.isSome && args.channelId.isSome && hook.isJoined) args
  let drained :=
    if view.Switches args ∨ ∀ last ∈ view.hook, last.isSuccess ≠ hook.isSuccess then drainEffect queryClient hook
    else ⟨queryClient, some hook⟩
  if view.Switches args then { drained with hook := drained.hook.map streamEffect } else drained

/-- The event as the stream loop hands it on. -/
def toMessage (channelId : Option ChannelId) (event : MessageEvent) : Message :=
  ⟨event.messageId, channelId, event.senderId, event.senderName, event.content, event.sentAtMs⟩

def View.take (view : View) (hook : Hook) (event : MessageEvent) : View :=
  let message := toMessage hook.args.channelId event
  let hook := { hook with taken := hook.taken ++ [message] }
  if hook.initialFetched then
    match hook.args.clientId with
    | none => { view with hook := some hook }
    | some clientId => ⟨injectLiveMessage view.queryClient clientId hook.args.channelId message, some hook⟩
  else { view with hook := some { hook with pendingLive := hook.pendingLive ++ [message] } }

def View.step (view : View) : HookEvent → View
  | .render args => view.render args
  | .unmount => { view with hook := none }
  | .joined =>
    { view with hook := view.hook.map fun hook =>
        if hook.stream = .joining then
          { hook with isJoined := true, connectionState := .connected, stream := .open }
        else hook }
  | .message event =>
    match view.hook with
    | some hook => if hook.stream = .open then view.take hook event else view
    | none => view
  | .disconnected =>
    { view with hook := view.hook.map fun hook =>
        if hook.stream = .joining ∨ hook.stream = .open then
          { hook with connectionState := .disconnected, stream := .ended }
        else hook }
  | .history key page => { view with queryClient := view.queryClient.respond key page }

def View.run (events : List HookEvent) (view : View) : View := events.foldl View.step view

/-! ### What the hook returns -/

/-- Every message once, under its first place. -/
def dedupe (channelId : Option ChannelId) (messages : List Message) : List Message :=
  messages.foldl (fun byId m => if byId.any (·.messageId = m.messageId) then byId else byId ++
    [{ m with channelId := channelId }]) []

/-- The `messages` of the hook. -/
def View.messages (view : View) (hook : Hook) : List Message :=
  match view.queryClient.history.lookup hook.args with
  | none => []
  | some data =>
    (dedupe hook.args.channelId (data.pages.flatMap ListMessagesPage.messages)).mergeSort
      (·.timestamp ≤ ·.timestamp)

def HistoryQueryData.Has (data : HistoryQueryData) (m : Message) : Prop :=
  ∃ page ∈ data.pages, m ∈ page.messages

section
variable {data : HistoryQueryData} {i : MessageId} {m message : Message}

theorem has_iff : data.has i = true ↔ ∃ m, data.Has m ∧ m.messageId = i := by
  simp only [HistoryQueryData.has, HistoryQueryData.Has, List.any_eq_true, decide_eq_true_eq]
  constructor
  · rintro ⟨page, hpage, m, hm, hi⟩
    exact ⟨m, ⟨page, hpage, hm⟩, hi⟩
  · rintro ⟨m, ⟨page, hpage, hm⟩, hi⟩
    exact ⟨page, hpage, m, hm, hi⟩

/-- An injection adds the message, or leaves the data as they are. -/
theorem has_injectInto {old : Option HistoryQueryData} (h : (injectInto message old).Has m) :
    (∃ data ∈ old, data.Has m) ∨ m = message := by
  rcases old with _ | data
  · obtain ⟨page, hpage, hm⟩ := h
    cases List.mem_singleton.1 hpage
    exact .inr (List.mem_singleton.1 hm)
  · simp only [injectInto] at h
    split at h
    · exact .inl ⟨data, rfl, h⟩
    · obtain ⟨page, hpage, hm⟩ := h
      rcases List.mem_cons.1 hpage with rfl | hpage
      · rcases List.mem_append.1 hm with hm | hm
        · exact .inl ⟨data, rfl, _, List.mem_cons_self .., hm⟩
        · exact .inr (List.mem_singleton.1 hm)
      · exact .inl ⟨data, rfl, page, List.mem_cons_of_mem _ hpage, hm⟩

theorem HistoryQueryData.Has.inject {old : HistoryQueryData} (h : old.Has m) :
    (injectInto message (some old)).Has m := by
  simp only [injectInto]
  split
  · exact h
  · obtain ⟨page, hpage, hm⟩ := h
    rcases List.mem_cons.1 hpage with rfl | hpage
    · exact ⟨_, List.mem_cons_self .., List.mem_append_left _ hm⟩
    · exact ⟨page, List.mem_cons_of_mem _ hpage, hm⟩

/-- Afterwards there is a message of this id. -/
theorem has_injected (old : Option HistoryQueryData) :
    ∃ m, (injectInto message old).Has m ∧ m.messageId = message.messageId := by
  rcases old with _ | old
  · exact ⟨message, ⟨_, List.mem_cons_self .., List.mem_cons_self ..⟩, rfl⟩
  · by_cases hhas : old.has message.messageId = true
    · obtain ⟨m, hm, hi⟩ := has_iff.1 hhas
      exact ⟨m, hm.inject, hi⟩
    · refine ⟨message, ?_, rfl⟩
      simp only [injectInto, if_neg hhas]
      exact ⟨_, List.mem_cons_self .., List.mem_append_right _ (List.mem_singleton_self _)⟩

end

end Bcmd.Web
