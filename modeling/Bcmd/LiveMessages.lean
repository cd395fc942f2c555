import Bcmd.UseChannelMessages

/-!
# Live messages in the web client

What the stream loop takes waits in `pendingLive` for the first page, and then goes into the cache. The
effect that drains it runs before the one that resets it for a new visit, and does not run again when
the history of the channel is in the cache already: the messages of such a visit wait for ever, and
those still waiting at a switch to it go into the cache of the wrong channel.
-/

namespace Bcmd.Web

/-! ### The cache under injections -/

section
variable {queryClient : QueryClient} {c : ClientId} {k : Option ChannelId} {key : HistoryKey}
  {m message : Message}

theorem lookup_inject (queryClient : QueryClient) (c : ClientId) (k : Option ChannelId)
    (message : Message) (key : HistoryKey) :
    (injectLiveMessage queryClient c k message).history.lookup key =
      if key = ⟨some c, k⟩ then some (injectInto message (queryClient.history.lookup key)) else
        queryClient.history.lookup key := by
  unfold injectLiveMessage
  split
  · subst ‹key = _›
    exact Finmap.lookup_insert _
  · exact Finmap.lookup_insert_of_ne _ ‹key ≠ _›

/-- The messages, injected one after the other. -/
def injectAll (c : ClientId) (k : Option ChannelId) (messages : List Message)
    (queryClient : QueryClient) : QueryClient :=
  messages.foldl (fun queryClient message => injectLiveMessage queryClient c k message) queryClient

theorem fetching_injectAll (messages : List Message) (queryClient : QueryClient) :
    (injectAll c k messages queryClient).fetching = queryClient.fetching := by
  induction messages generalizing queryClient with
  | nil => rfl
  | cons message messages ih => exact ih _

theorem lookup_injectAll_ne (hkey : key ≠ ⟨some c, k⟩) (messages : List Message) (queryClient : QueryClient) :
    (injectAll c k messages queryClient).history.lookup key = queryClient.history.lookup key := by
  induction messages generalizing queryClient with
  | nil => rfl
  | cons message messages ih => exact (ih _).trans ((lookup_inject ..).trans (if_neg hkey))

/-- The data keep what they have and get the messages, or others of the same ids. -/
theorem lookup_injectAll (messages : List Message) {queryClient : QueryClient} {data : HistoryQueryData}
    (h : queryClient.history.lookup ⟨some c, k⟩ = some data) : ∃ data',
      (injectAll c k messages queryClient).history.lookup ⟨some c, k⟩ = some data' ∧
        (∀ m, data.Has m → data'.Has m) ∧
      ∀ m ∈ messages, ∃ m', data'.Has m' ∧ m'.messageId = m.messageId := by
  induction messages generalizing queryClient data with
  | nil => exact ⟨data, h, fun _ hm => hm, nofun⟩
  | cons message messages ih =>
    have hone : (injectLiveMessage queryClient c k message).history.lookup ⟨some c, k⟩ =
        some (injectInto message (some data)) := by
      rw [lookup_inject, if_pos rfl, h]
    obtain ⟨data', h', hkeep, hget⟩ := ih hone
    refine ⟨data', h', fun m hm => hkeep m hm.inject, fun m hm => ?_⟩
    rcases List.mem_cons.1 hm with rfl | hm
    · obtain ⟨m', hm', hi⟩ := has_injected (some data)
      exact ⟨m', hkeep m' hm', hi⟩
    · exact hget m hm

end

/-! ### Runs -/

section
variable (view : View)

@[simp] theorem run_nil : view.run [] = view := rfl

theorem run_append (events events' : List HookEvent) :
    view.run (events ++ events') = (view.run events).run events' :=
  List.foldl_append ..

theorem run_snoc (events : List HookEvent) (event : HookEvent) :
    view.run (events ++ [event]) = (view.run events).step event :=
  run_append view events [event]

/-- What every step of the run keeps holds at its end. -/
theorem View.run_inv {I : View → Prop} (events : List HookEvent) (h0 : I view)
    (hstep : ∀ pre event post, events = pre ++ event :: post → I (view.run pre) →
      I ((view.run pre).step event)) :
    I (view.run events) := by
  induction events using List.reverseRecOn with
  | nil => exact h0
  | append_singleton events event ih =>
    rw [run_snoc]
    refine hstep events event [] rfl (ih fun pre event' post hev hI => hstep pre event'
      (post ++ [event]) ?_ hI)
    rw [hev]
    simp

end

/-! ### What a render does -/

/-- The query's own effect, before those of the hook. -/
def View.fetched (view : View) (args : UseChannelMessagesArgs) : QueryClient :=
  view.queryClient.fetch (args.clientId.isSome && args.channelId.isSome && (view.rendered args).isJoined) args

section
variable {view : View} {hook : Hook} {args : UseChannelMessagesArgs}

theorem View.switches_or (view : View) (args : UseChannelMessagesArgs) :
    view.Switches args ∨ ∃ hook, view.hook = some hook ∧ hook.args = args := by
  by_cases hsw : view.Switches args
  · exact .inl hsw
  · unfold View.Switches at hsw
    push Not at hsw
    exact .inr hsw

theorem not_switches (hhook : view.hook = some hook) : ¬ view.Switches hook.args :=
  fun hsw => hsw hook hhook rfl

theorem rendered_same (hhook : view.hook = some hook) :
    view.rendered hook.args = { hook with isSuccess := (view.queryClient.history.lookup
      hook.args).isSome } := by
  unfold View.rendered
  rw [hhook]
  rfl

theorem render_switch (hsw : view.Switches args) : view.render args =
    { drainEffect (view.fetched args) (view.rendered args) with
      hook := (drainEffect (view.fetched args) (view.rendered args)).hook.map streamEffect } := by
  unfold View.render View.fetched
  simp only [hsw, true_or, if_true]

/-- A render that brings nothing new to the effects. -/
theorem render_idle (hhook : view.hook = some hook)
    (hs : hook.isSuccess = (view.queryClient.history.lookup hook.args).isSome) :
    view.render hook.args = ⟨view.fetched hook.args, some hook⟩ := by
  unfold View.render View.fetched
  simp only [rendered_same hhook, not_switches hhook, hhook, ← hs]
  simp

/-- The query's success is new to the hook. -/
theorem render_seen (hhook : view.hook = some hook)
    (hs : hook.isSuccess ≠ (view.queryClient.history.lookup hook.args).isSome) :
    view.render hook.args = drainEffect (view.fetched hook.args)
      { hook with isSuccess := (view.queryClient.history.lookup hook.args).isSome } := by
  unfold View.render View.fetched
  simp only [rendered_same hhook, not_switches hhook, hhook]
  simp [hs]

end

/-! ### What the drain effect does -/

section
variable {queryClient : QueryClient} {hook : Hook}

theorem drain_idle (h : hook.isSuccess = false ∨ hook.initialFetched = true) :
    drainEffect queryClient hook = ⟨queryClient, some hook⟩ := by
  unfold drainEffect
  rw [if_pos]
  rcases h with h | h
  · exact .inl (by rw [h]; nofun)
  · exact .inr h

theorem drain_injects {c : ClientId} (hs : hook.isSuccess = true) (hf : hook.initialFetched = false)
    (hc : hook.args.clientId = some c) : drainEffect queryClient hook =
      ⟨injectAll c hook.args.channelId hook.pendingLive queryClient,
        some { hook with initialFetched := true, pendingLive := [] }⟩ := by
  unfold drainEffect
  rw [if_neg (by simp [hs, hf])]
  split
  · rename_i hnone
    rw [hc] at hnone
    cases hnone
  · rename_i c' hc'
    cases hc.symm.trans hc'
    rfl

end

/-! ### What the stream loop does with a message -/

section
variable {view : View} {hook : Hook} {event : MessageEvent}

theorem step_message (hhook : view.hook = some hook) (hopen : hook.stream = .open) :
    view.step (.message event) = view.take hook event := by
  unfold View.step
  rw [hhook]
  exact if_pos hopen

theorem step_message_closed (h : ∀ hook ∈ view.hook, hook.stream ≠ .open) :
    view.step (.message event) = view := by
  unfold View.step
  rcases hhook : view.hook with _ | hook
  · rfl
  · exact if_neg (h hook hhook)

theorem take_waits (hf : hook.initialFetched = false) : view.take hook event =
    { view with hook := some { hook with
        taken := hook.taken ++ [toMessage hook.args.channelId event]
        pendingLive := hook.pendingLive ++ [toMessage hook.args.channelId event] } } := by
  unfold View.take
  dsimp only
  rw [if_neg (by rw [hf]; nofun)]

/-- Without a client there is no history for the message. -/
theorem take_deaf (hf : hook.initialFetched = true) (hc : hook.args.clientId = none) : view.take hook event =
    { view with hook := some { hook with taken := hook.taken ++
      [toMessage hook.args.channelId event] } } := by
  unfold View.take
  dsimp only
  rw [if_pos hf]
  split
  · rfl
  · rename_i c hc'
    cases hc.symm.trans hc'

theorem take_injects {c : ClientId} (hf : hook.initialFetched = true) (hc : hook.args.clientId = some c) :
    view.take hook event =
      ⟨injectLiveMessage view.queryClient c hook.args.channelId (toMessage hook.args.channelId event),
        some { hook with taken := hook.taken ++ [toMessage hook.args.channelId event] }⟩ := by
  unfold View.take
  dsimp only
  rw [if_pos hf]
  split
  · rename_i hnone
    rw [hc] at hnone
    cases hnone
  · rename_i c' hc'
    cases hc.symm.trans hc'
    rfl

end

/-! ### What the connection does -/

/-- Only the connection has changed. -/
structure Hook.Same (hook hook' : Hook) : Prop where
  args : hook'.args = hook.args
  pendingLive : hook'.pendingLive = hook.pendingLive
  taken : hook'.taken = hook.taken
  initialFetched : hook'.initialFetched = hook.initialFetched
  isSuccess : hook'.isSuccess = hook.isSuccess
  stream : hook'.stream ≠ .idle → hook.stream ≠ .idle

theorem step_reconnects (view : View) {event : HookEvent} (he : event = .joined ∨ event = .disconnected) :
    (view.step event).queryClient = view.queryClient ∧
      ∀ hook' ∈ (view.step event).hook, ∃ hook ∈ view.hook, hook.Same hook' := by
  rcases he with rfl | rfl
  · refine ⟨rfl, fun hook' hhook' => ?_⟩
    obtain ⟨hook, hhook, rfl⟩ := Option.map_eq_some_iff.1 hhook'
    refine ⟨hook, hhook, ?_⟩
    split
    · rename_i hjoining
      exact ⟨rfl, rfl, rfl, rfl, rfl, fun _ => by rw [hjoining]; nofun⟩
    · exact ⟨rfl, rfl, rfl, rfl, rfl, id⟩
  · refine ⟨rfl, fun hook' hhook' => ?_⟩
    obtain ⟨hook, hhook, rfl⟩ := Option.map_eq_some_iff.1 hhook'
    refine ⟨hook, hhook, ?_⟩
    split
    · rename_i hstream
      refine ⟨rfl, rfl, rfl, rfl, rfl, fun _ hidle => ?_⟩
      rw [hidle] at hstream
      rcases hstream with hstream | hstream <;> cases hstream
    · exact ⟨rfl, rfl, rfl, rfl, rfl, id⟩

/-! ### The list that the hook returns -/

section
variable {view : View} {hook : Hook} {data : HistoryQueryData} {i : MessageId}

theorem mem_dedupe (k : Option ChannelId) (messages : List Message) :
    (∃ m ∈ dedupe k messages, m.messageId = i) ↔ ∃ m ∈ messages, m.messageId = i := by
  have hfold : ∀ byId : List Message,
      (∃ m ∈ messages.foldl (fun byId m =>
          if byId.any (·.messageId = m.messageId) then byId else byId ++ [{ m with channelId := k }]) byId,
        m.messageId = i) ↔
      (∃ m ∈ byId, m.messageId = i) ∨ ∃ m ∈ messages, m.messageId = i := by
    induction messages with
    | nil => exact fun byId => by simp
    | cons message messages ih =>
      intro byId
      rw [List.foldl_cons, ih]
      by_cases hany : byId.any (·.messageId = message.messageId) = true
      · rw [if_pos hany]
        simp only [List.any_eq_true, decide_eq_true_eq] at hany
        constructor
        · rintro (h | ⟨m, hm, hi⟩)
          · exact .inl h
          · exact .inr ⟨m, List.mem_cons_of_mem _ hm, hi⟩
        · rintro (h | ⟨m, hm, hi⟩)
          · exact .inl h
          · rcases List.mem_cons.1 hm with rfl | hm
            · obtain ⟨m', hm', hi'⟩ := hany
              exact .inl ⟨m', hm', hi'.trans hi⟩
            · exact .inr ⟨m, hm, hi⟩
      · rw [if_neg hany]
        constructor
        · rintro (⟨m, hm, hi⟩ | ⟨m, hm, hi⟩)
          · rcases List.mem_append.1 hm with hm | hm
            · exact .inl ⟨m, hm, hi⟩
            · rw [List.mem_singleton.1 hm] at hi
              exact .inr ⟨message, List.mem_cons_self .., hi⟩
          · exact .inr ⟨m, List.mem_cons_of_mem _ hm, hi⟩
        · rintro (⟨m, hm, hi⟩ | ⟨m, hm, hi⟩)
          · exact .inl ⟨m, List.mem_append_left _ hm, hi⟩
          · rcases List.mem_cons.1 hm with rfl | hm
            · exact .inl ⟨_, List.mem_append_right _ (List.mem_singleton_self _), hi⟩
            · exact .inr ⟨m, hm, hi⟩
  exact (hfold []).trans (by simp)

/-- The list has a message of every id of the cached data, and of no other. -/
theorem mem_messages (h : view.queryClient.history.lookup hook.args = some data) :
    (∃ m ∈ view.messages hook, m.messageId = i) ↔ ∃ m, data.Has m ∧ m.messageId = i := by
  unfold View.messages
  rw [h]
  simp only [List.mem_mergeSort, mem_dedupe, List.mem_flatMap]
  constructor
  · rintro ⟨m, ⟨page, hpage, hm⟩, hi⟩
    exact ⟨m, ⟨page, hpage, hm⟩, hi⟩
  · rintro ⟨m, ⟨page, hpage, hm⟩, hi⟩
    exact ⟨m, ⟨page, hpage, hm⟩, hi⟩

end

/-! ### No message is lost -/

/-- The history of a key is asked for once, and for a client only. -/
structure QueryClient.Sound (queryClient : QueryClient) : Prop where
  apart : ∀ key ∈ queryClient.fetching, queryClient.history.lookup key = none
  client : ∀ key, key ∈ queryClient.fetching ∨ queryClient.history.lookup key ≠ none → key.clientId ≠ none

/-- What was taken from the stream waits for the first page, and is in the cache once the query is seen
to be in success. -/
structure Hook.Keeps (hook : Hook) (queryClient : QueryClient) : Prop where
  waiting : hook.isSuccess = false → hook.initialFetched = false ∧ hook.pendingLive = hook.taken
  stored : hook.isSuccess = true → ∃ data, queryClient.history.lookup hook.args = some data ∧
    ∀ m ∈ hook.taken, ∃ m', data.Has m' ∧ m'.messageId = m.messageId

structure View.Keeps (view : View) : Prop where
  sound : view.queryClient.Sound
  hook : ∀ hook ∈ view.hook, hook.Keeps view.queryClient ∧ (hook.stream ≠ .idle → hook.args.clientId ≠ none)

/-- The message comes before the success is seen or after the drain effect has run, unless it is in the
cache already. It comes between them in a visit that began with the history in the cache: the stream
effect ran after the drain effect there. -/
def Drained (view : View) : HookEvent → Prop
  | .message event =>
    ∀ hook ∈ view.hook, hook.stream = .open → hook.isSuccess = true → hook.initialFetched = false →
      ∃ data ∈ view.queryClient.history.lookup hook.args, data.has event.messageId = true
  | _ => True

section
variable {queryClient : QueryClient} {hook : Hook} {key : HistoryKey} {message : Message}

theorem QueryClient.Sound.fetch (h : queryClient.Sound) {enabled : Bool}
    (henabled : enabled = true → key.clientId ≠ none) :
    (queryClient.fetch enabled key).Sound := by
  unfold QueryClient.fetch
  split
  · obtain ⟨hen, hnone⟩ := ‹enabled = true ∧ _›
    refine ⟨fun key' hkey' => ?_, fun key' hkey' => ?_⟩
    · rcases Finset.mem_insert.1 hkey' with rfl | hkey'
      · exact hnone
      · exact h.apart key' hkey'
    · rcases hkey' with hkey' | hkey'
      · rcases Finset.mem_insert.1 hkey' with rfl | hkey'
        · exact henabled hen
        · exact h.client key' (.inl hkey')
      · exact h.client key' (.inr hkey')
  · exact h

theorem lookup_fetch (queryClient : QueryClient) (enabled : Bool) (key key' : HistoryKey) :
    (queryClient.fetch enabled key).history.lookup key' = queryClient.history.lookup key' := by
  unfold QueryClient.fetch
  split <;> rfl

theorem QueryClient.Sound.respond (h : queryClient.Sound) (key : HistoryKey) (page : ListMessagesPage) :
    (queryClient.respond key page).Sound := by
  unfold QueryClient.respond
  split
  · have hclient := h.client key (.inl ‹_›)
    refine ⟨fun key' hkey' => ?_, fun key' hkey' => ?_⟩
    · obtain ⟨hne, hkey'⟩ := Finset.mem_erase.1 hkey'
      exact (Finmap.lookup_insert_of_ne _ hne).trans (h.apart key' hkey')
    · by_cases hne : key' = key
      · rw [hne]
        exact hclient
      · rcases hkey' with hkey' | hkey'
        · exact h.client key' (.inl (Finset.mem_of_mem_erase hkey'))
        · exact h.client key' (.inr fun hnone => hkey' ((Finmap.lookup_insert_of_ne _ hne).trans hnone))
  · exact h

theorem QueryClient.Sound.injectAll (h : queryClient.Sound) {c : ClientId} {k : Option ChannelId}
    (hcached : queryClient.history.lookup ⟨some c, k⟩ ≠ none) (messages : List Message) :
    (injectAll c k messages queryClient).Sound := by
  refine ⟨fun key hkey => ?_, fun key hkey => ?_⟩
  · rw [fetching_injectAll] at hkey
    by_cases hne : key = ⟨some c, k⟩
    · rw [hne] at hkey
      exact absurd (h.apart _ hkey) hcached
    · rw [lookup_injectAll_ne hne]
      exact h.apart key hkey
  · by_cases hne : key = ⟨some c, k⟩
    · rw [hne]
      nofun
    · rw [fetching_injectAll, lookup_injectAll_ne hne] at hkey
      exact h.client key hkey

/-- An answer is for a key without data, so the hook that has seen its data keeps them. -/
theorem Hook.Keeps.respond (h : hook.Keeps queryClient) (hsound : queryClient.Sound) (key : HistoryKey)
    (page : ListMessagesPage) : hook.Keeps (queryClient.respond key page) := by
  refine ⟨h.waiting, fun hs => ?_⟩
  obtain ⟨data, hdata, htaken⟩ := h.stored hs
  refine ⟨data, ?_, htaken⟩
  unfold QueryClient.respond
  split
  · have hne : hook.args ≠ key := by
      rintro rfl
      rw [hsound.apart _ ‹_›] at hdata
      cases hdata
    exact (Finmap.lookup_insert_of_ne _ hne).trans hdata
  · exact hdata

theorem Hook.Keeps.fetch (h : hook.Keeps queryClient) (enabled : Bool) (key : HistoryKey) :
    hook.Keeps (queryClient.fetch enabled key) := by
  refine ⟨h.waiting, fun hs => ?_⟩
  rw [lookup_fetch]
  exact h.stored hs

theorem QueryClient.Sound.fetched {view : View} (h : view.queryClient.Sound) (args : UseChannelMessagesArgs) :
    (view.fetched args).Sound := by
  refine h.fetch fun hen hnone => ?_
  rw [hnone] at hen
  cases hen

/-- The drain effect keeps what is cached. -/
theorem QueryClient.Sound.drain (h : queryClient.Sound) (hook : Hook) {data : HistoryQueryData}
    (hs : hook.isSuccess = (queryClient.history.lookup hook.args).isSome)
    (hdata : queryClient.history.lookup hook.args = some data) :
    ∃ queryClient' data' hook', drainEffect queryClient hook = ⟨queryClient', some hook'⟩ ∧
      queryClient'.Sound ∧
      queryClient'.history.lookup hook.args = some data' ∧
      (hook.initialFetched = false → ∀ m ∈ hook.pendingLive, ∃ m', data'.Has m' ∧
        m'.messageId = m.messageId) ∧
      hook'.args = hook.args ∧ hook'.isSuccess = true ∧ hook'.stream = hook.stream ∧
        hook'.taken = hook.taken := by
  have hs' : hook.isSuccess = true := by
    rw [hs, hdata]
    rfl
  rcases hf : hook.initialFetched with _ | _
  · obtain ⟨c, hc⟩ := Option.ne_none_iff_exists'.1 (h.client hook.args (.inr (by rw [hdata]; nofun)))
    have hargs : hook.args = ⟨some c, hook.args.channelId⟩ := by
      rw [← hc]
    rw [hargs] at hdata
    obtain ⟨data', hdata', -, hget⟩ := lookup_injectAll hook.pendingLive hdata
    refine ⟨_, data', _, drain_injects hs' hf hc, h.injectAll (by rw [hdata]; nofun) _, ?_, fun _ =>
      hget, rfl, hs', rfl, rfl⟩
    rw [← hdata', ← hargs]
  · exact ⟨queryClient, data, hook, drain_idle (.inr hf), h, hdata, nofun, rfl, hs', rfl, rfl⟩

theorem View.Keeps.render {view : View} (h : view.Keeps) (args : UseChannelMessagesArgs) :
    (view.render args).Keeps := by
  have hlookup : ∀ key, (view.fetched args).history.lookup key = view.queryClient.history.lookup key :=
    fun key => lookup_fetch ..
  rcases view.switches_or args with hsw | ⟨hook, hhook, rfl⟩
  · -- the stream effect has the last word: nothing is taken yet
    have hstart : ∀ queryClient : QueryClient, queryClient.Sound → ∀ hook : Hook,
        (hook.isSuccess = true → ∃ data, queryClient.history.lookup hook.args = some data) →
        View.Keeps ⟨queryClient, some (streamEffect hook)⟩ := by
      intro queryClient hsound hook hcached
      refine ⟨hsound, fun hook' hhook' => ?_⟩
      cases hhook'
      refine ⟨⟨fun _ => ⟨streamEffect_initialFetched _, ?_⟩, fun hs => ?_⟩, fun hstream => ?_⟩
      · rw [streamEffect_pendingLive, streamEffect_taken]
      · obtain ⟨data, hdata⟩ := hcached (by rwa [streamEffect_isSuccess] at hs)
        rw [streamEffect_args, streamEffect_taken]
        exact ⟨data, hdata, nofun⟩
      · rcases streamEffect_stream hook with hidle | ⟨-, hclient, -⟩
        · exact absurd hidle hstream
        · rw [streamEffect_args]
          exact hclient
    rw [render_switch hsw]
    have hs : (view.rendered args).isSuccess = ((view.fetched args).history.lookup args).isSome := by
      rw [hlookup]
      rfl
    rcases hdata : (view.fetched args).history.lookup args with _ | data
    · rw [drain_idle (.inl (by rw [hs, hdata]; rfl))]
      refine hstart _ (h.sound.fetched args) _ fun hs' => ?_
      rw [hs, hdata] at hs'
      cases hs'
    · obtain ⟨queryClient, data', hook, hdrain, hsound, hdata', -, hargs, -⟩ :=
        (h.sound.fetched args).drain _ hs hdata
      rw [hdrain]
      exact hstart _ hsound _ fun _ => ⟨data', hargs ▸ hdata'⟩
  · obtain ⟨hkeeps, hclient⟩ := h.hook hook hhook
    by_cases hs : hook.isSuccess = (view.queryClient.history.lookup hook.args).isSome
    · rw [render_idle hhook hs]
      refine ⟨h.sound.fetched _, fun hook' hhook' => ?_⟩
      cases hhook'
      exact ⟨hkeeps.fetch _ _, hclient⟩
    · -- once seen, the data do not go, so what is new is the success
      obtain ⟨hs', data, hdata⟩ : hook.isSuccess = false ∧
          ∃ data, view.queryClient.history.lookup hook.args = some data := by
        rcases hold : hook.isSuccess with _ | _
        · rw [hold] at hs
          exact ⟨rfl, Option.ne_none_iff_exists'.1 (by simpa using Ne.symm hs)⟩
        · obtain ⟨data, hdata, -⟩ := hkeeps.stored hold
          rw [hold, hdata] at hs
          exact absurd rfl hs
      obtain ⟨hf, hpending⟩ := hkeeps.waiting hs'
      obtain ⟨queryClient, data', hook', hdrain, hsound, hdata', hget, hargs, hsuccess, hstream, htaken⟩ :=
        (h.sound.fetched hook.args).drain { hook with
          isSuccess := (view.queryClient.history.lookup hook.args).isSome }
          (congrArg Option.isSome (hlookup hook.args).symm) ((hlookup hook.args).trans hdata)
      rw [render_seen hhook hs]
      refine hdrain ▸ ⟨hsound, fun hook'' hhook'' => ?_⟩
      cases hhook''
      rw [hargs, hstream]
      refine ⟨⟨fun hs'' => ?_, fun _ => ⟨data', hargs ▸ hdata', ?_⟩⟩, hclient⟩
      · cases hsuccess.symm.trans hs''
      · rw [htaken]
        exact hpending ▸ hget hf

theorem View.Keeps.take {view : View} {hook : Hook} {event : MessageEvent} (h : view.Keeps)
    (hhook : view.hook = some hook)
    (hopen : hook.stream = .open) (hdrained : Drained view (.message event)) :
    (view.take hook event).Keeps := by
  obtain ⟨hkeeps, hclient⟩ := h.hook hook hhook
  obtain ⟨c, hc⟩ := Option.ne_none_iff_exists'.1 (hclient (by rw [hopen]; nofun))
  have hargs : hook.args = ⟨some c, hook.args.channelId⟩ := by
    rw [← hc]
  rcases hf : hook.initialFetched with _ | _
  · -- the message waits with the others
    rw [take_waits hf]
    refine ⟨h.sound, fun hook' hhook' => ?_⟩
    cases hhook'
    refine ⟨⟨fun hs => ⟨hf, congrArg (· ++ _) (hkeeps.waiting hs).2⟩, fun hs => ?_⟩, fun _ => ?_⟩
    · obtain ⟨data, hdata, htaken⟩ := hkeeps.stored hs
      refine ⟨data, hdata, fun m hm => ?_⟩
      rcases List.mem_append.1 hm with hm | hm
      · exact htaken m hm
      · obtain ⟨data', hdata', hhas⟩ := hdrained hook hhook hopen hs hf
        cases hdata.symm.trans hdata'
        rw [List.mem_singleton.1 hm]
        exact has_iff.1 hhas
    · rw [hc]
      nofun
  · have hs : hook.isSuccess = true := by
      by_contra hs
      rw [(hkeeps.waiting (by simpa using hs)).1] at hf
      cases hf
    obtain ⟨data, hdata, htaken⟩ := hkeeps.stored hs
    rw [take_injects hf hc]
    rw [hargs] at hdata
    obtain ⟨data', hdata', hkeep, hget⟩ := lookup_injectAll [toMessage hook.args.channelId event] hdata
    refine ⟨h.sound.injectAll (by rw [hdata]; nofun) [_], fun hook' hhook' => ?_⟩
    cases hhook'
    refine ⟨⟨fun hs' => ?_, fun _ => ⟨data', ?_, fun m hm => ?_⟩⟩, fun _ => ?_⟩
    · cases hs.symm.trans hs'
    · rw [← hdata', ← hargs]
      rfl
    · rcases List.mem_append.1 hm with hm | hm
      · obtain ⟨m', hm', hi⟩ := htaken m hm
        exact ⟨m', hkeep m' hm', hi⟩
      · exact hget m hm
    · rw [hc]
      nofun

theorem View.Keeps.reconnect {view : View} {event : HookEvent} (h : view.Keeps)
    (he : event = .joined ∨ event = .disconnected) :
    (view.step event).Keeps := by
  obtain ⟨hq, hsame⟩ := step_reconnects view he
  refine ⟨hq ▸ h.sound, fun hook' hhook' => ?_⟩
  obtain ⟨hook, hhook, hargs, hpending, htaken, hfetched, hs, hstream⟩ := hsame hook' hhook'
  obtain ⟨hkeeps, hclient⟩ := h.hook hook hhook
  refine ⟨⟨fun hs' => ?_, fun hs' => ?_⟩, fun hne => ?_⟩
  · rw [hs] at hs'
    rw [hfetched, hpending, htaken]
    exact hkeeps.waiting hs'
  · rw [hs] at hs'
    rw [hq, hargs, htaken]
    exact hkeeps.stored hs'
  · rw [hargs]
    exact hclient (hstream hne)

theorem View.Keeps.step {view : View} {event : HookEvent} (h : view.Keeps) (hdrained : Drained view event) :
    (view.step event).Keeps := by
  cases event with
  | render args => exact h.render args
  | unmount => exact ⟨h.sound, fun _ hhook => absurd hhook (Option.not_mem_none _)⟩
  | joined => exact h.reconnect (.inl rfl)
  | message event =>
    by_cases hopen : ∃ hook, view.hook = some hook ∧ hook.stream = .open
    · obtain ⟨hook, hhook, hopen⟩ := hopen
      rw [step_message hhook hopen]
      exact h.take hhook hopen hdrained
    · rw [step_message_closed fun hook hhook hs => hopen ⟨hook, hhook, hs⟩]
      exact h
  | disconnected => exact h.reconnect (.inr rfl)
  | history key page =>
    refine ⟨h.sound.respond key page, fun hook hhook => ?_⟩
    obtain ⟨hkeeps, hclient⟩ := h.hook hook hhook
    exact ⟨hkeeps.respond h.sound key page, hclient⟩

theorem keeps_initial : View.initial.Keeps :=
  ⟨⟨nofun, fun key hkey => by
    rcases hkey with hkey | hkey
    · cases hkey
    · exact absurd (Finmap.lookup_empty key) hkey⟩, fun _ hhook => absurd hhook (Option.not_mem_none _)⟩

/-- The hook returns every message it has taken from the stream of the visit, if it sees its history in
success. -/
def View.Complete (view : View) : Prop :=
  ∀ hook ∈ view.hook, hook.isSuccess = true →
    ∀ m ∈ hook.taken, ∃ m' ∈ view.messages hook, m'.messageId = m.messageId

theorem View.Keeps.complete {view : View} (h : view.Keeps) : view.Complete := by
  intro hook hhook hs m hm
  obtain ⟨data, hdata, htaken⟩ := (h.hook hook hhook).1.stored hs
  exact (mem_messages hdata).2 (htaken m hm)

theorem drained_of_complete {view : View} {event : HookEvent} (h : (view.step event).Complete) :
    Drained view event := by
  cases event with
  | message event =>
    intro hook hhook hopen hs hf
    rw [step_message hhook hopen, take_waits hf] at h
    have hmem := h _ rfl hs _ (List.mem_append_right _ (List.mem_singleton_self _))
    rcases hdata : view.queryClient.history.lookup hook.args with _ | data
    · obtain ⟨m, hm, -⟩ := hmem
      unfold View.messages at hm
      rw [show Finmap.lookup _ _ = none from hdata] at hm
      cases hm
    · exact ⟨data, rfl, has_iff.2 ((mem_messages hdata).1 hmem)⟩
  | _ => trivial

end

/-- The history of the client 2 in the channel 1. -/
def general : HistoryKey := ⟨some ⟨2⟩, some ⟨1⟩⟩

/-- The history of the client 2 in the channel 3. -/
def other : HistoryKey := ⟨some ⟨2⟩, some ⟨3⟩⟩

/-- A visit whose history arrives, a look at the other channel, and back. -/
def revisit : List HookEvent :=
  [.render general, .joined, .render general, .history general ⟨[], false⟩, .render general,
    .render other, .render general, .joined]

theorem live_message_lost : ¬ ∀ events pre post, events = pre ++ post → (View.initial.run pre).Complete := by
  intro h
  let event : MessageEvent := ⟨⟨7⟩, ⟨1⟩, ⟨4⟩, ascii "bob", ascii "hi", 0⟩
  have hdrained : Drained (View.initial.run revisit) (.message event) := by
    refine drained_of_complete ?_
    rw [← run_snoc]
    exact h (revisit ++ [.message event]) _ [] (List.append_nil _).symm
  obtain ⟨data, hdata, hhas⟩ := hdrained ⟨general, true, .connected, [], false, true, .open, []⟩ rfl
    rfl rfl rfl
  have hempty : (View.initial.run revisit).queryClient.history.lookup general =
    some ⟨⟨[], false⟩, [], [none]⟩ := rfl
  cases hempty.symm.trans hdata
  cases hhas

/-- None is lost in any state of a run exactly when no message comes to a revisited channel before the
drain effect that would take it. -/
theorem none_lost_iff (events : List HookEvent) :
    (∀ pre post, events = pre ++ post → (View.initial.run pre).Complete) ↔
      ∀ pre event post, events = pre ++ event :: post → Drained (View.initial.run pre) event := by
  constructor
  · intro h pre event post hev
    refine drained_of_complete ?_
    rw [← run_snoc]
    exact h (pre ++ [event]) post (by simpa using hev)
  · intro h pre post hev
    refine View.Keeps.complete (View.run_inv View.initial pre keeps_initial
      fun pre' event post' hpre hkeeps => ?_)
    exact hkeeps.step (h pre' event (post' ++ post) (by rw [hev, hpre]; simp))

end Bcmd.Web
