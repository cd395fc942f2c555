import Bcmd.LiveMessages

/-!
# Where the messages of a channel come from

A commit that switches to a cached channel runs the drain effect first, with the arguments of the new
channel and the messages that still wait for the old one.
-/

namespace Bcmd.Web

/-- What the event brings from a response or from a stream for the channel. -/
def View.brings (view : View) (k : Option ChannelId) : HookEvent → List Message
  | .history key page => if key ∈ view.queryClient.fetching ∧ key.channelId = k then page.messages else []
  | .message event =>
    match view.hook with
    | some hook => if hook.stream = .open ∧ hook.args.channelId = k then [toMessage k event] else []
    | none => []
  | _ => []

def CameFrom (events : List HookEvent) (k : Option ChannelId) (m : Message) : Prop :=
  ∃ pre event post, events = pre ++ event :: post ∧ m ∈ (View.initial.run pre).brings k event

/-- Every entry of a cached history came from its channel. -/
def View.CachedFrom (P : Option ChannelId → Message → Prop) (view : View) : Prop :=
  ∀ key data, view.queryClient.history.lookup key = some data → ∀ m, data.Has m → P key.channelId m

def View.PendingFrom (P : Option ChannelId → Message → Prop) (view : View) : Prop :=
  ∀ hook ∈ view.hook, ∀ m ∈ hook.pendingLive, P hook.args.channelId m

/-- A switch to a cached channel leaves no message of another one waiting, but for those that the cache
has. -/
def DrainsOwn (view : View) : HookEvent → Prop
  | .render args => ∀ hook ∈ view.hook, hook.args.channelId ≠ args.channelId → hook.initialFetched = false →
      args.clientId ≠ none → ∀ data ∈ view.queryClient.history.lookup args, ∀ m ∈ hook.pendingLive,
      data.has m.messageId = true
  | _ => True

instance (view : View) (event : HookEvent) : Decidable (DrainsOwn view event) :=
  match event with
  | .render args =>
    inferInstanceAs (Decidable (∀ hook ∈ view.hook, hook.args.channelId ≠ args.channelId →
      hook.initialFetched = false →
      args.clientId ≠ none → ∀ data ∈ view.queryClient.history.lookup args, ∀ m ∈ hook.pendingLive,
      data.has m.messageId = true))
  | .unmount | .joined | .message _ | .disconnected | .history _ _ => .isTrue trivial

/-! ### Steps -/

section
variable {queryClient : QueryClient} {view : View} {hook : Hook} {event : HookEvent}
  {args : UseChannelMessagesArgs}
  {c : ClientId} {k : Option ChannelId} {key : HistoryKey} {data : HistoryQueryData} {m : Message}
  {P : Option ChannelId → Message → Prop}

/-- An entry of the cache was there before or is one of the messages. -/
theorem has_injectAll (messages : List Message)
    (hdata : (injectAll c k messages queryClient).history.lookup key = some data) (hm : data.Has m) :
    (∃ old ∈ queryClient.history.lookup key, old.Has m) ∨ key = ⟨some c, k⟩ ∧ m ∈ messages := by
  induction messages generalizing queryClient with
  | nil => exact .inl ⟨data, hdata, hm⟩
  | cons message messages ih =>
    rcases ih hdata with ⟨old, hold, hm⟩ | ⟨hkey, hm⟩
    · rw [lookup_inject] at hold
      split at hold
      · cases hold
        rcases has_injectInto hm with hm | rfl
        · exact .inl hm
        · exact .inr ⟨‹_›, List.mem_cons_self ..⟩
      · exact .inl ⟨old, hold, hm⟩
    · exact .inr ⟨hkey, List.mem_cons_of_mem _ hm⟩

theorem injectAll_had {messages : List Message} (hdata : queryClient.history.lookup ⟨some c, k⟩ = some data)
    (hhas : ∀ m ∈ messages, data.has m.messageId = true) :
    (injectAll c k messages queryClient).history.lookup ⟨some c, k⟩ = some data := by
  induction messages generalizing queryClient with
  | nil => exact hdata
  | cons message messages ih =>
    refine ih ?_ fun m hm => hhas m (List.mem_cons_of_mem _ hm)
    rw [lookup_inject, if_pos rfl, hdata]
    exact congrArg some (if_pos (hhas message (List.mem_cons_self ..)))

/-- The drain effect either does nothing or puts everything that waits into the cache. -/
theorem drain_cases (queryClient : QueryClient) (hook : Hook) :
    drainEffect queryClient hook = ⟨queryClient, some hook⟩ ∨
      hook.isSuccess = true ∧ hook.initialFetched = false ∧ ∃ c, hook.args.clientId = some c ∧
        drainEffect queryClient hook = ⟨injectAll c hook.args.channelId hook.pendingLive queryClient,
          some { hook with initialFetched := true, pendingLive := [] }⟩ := by
  by_cases h : hook.isSuccess = false ∨ hook.initialFetched = true
  · exact .inl (drain_idle h)
  · push Not at h
    have hs : hook.isSuccess = true := by simpa using h.1
    have hf : hook.initialFetched = false := by simpa using h.2
    rcases hc : hook.args.clientId with _ | c
    · refine .inl ?_
      unfold drainEffect
      rw [if_neg (by simp [hs, hf]), hc]
    · exact .inr ⟨hs, hf, c, rfl, drain_injects hs hf hc⟩

theorem render_pending (hook' : Hook) (hhook' : hook' ∈ (view.render args).hook) :
    hook'.pendingLive = [] ∨ ∃ hook ∈ view.hook, hook'.args = hook.args ∧
      hook'.pendingLive = hook.pendingLive := by
  rcases view.switches_or args with hsw | ⟨hook, hhook, rfl⟩
  · rw [render_switch hsw] at hhook'
    obtain ⟨drained, -, rfl⟩ := Option.map_eq_some_iff.1 hhook'
    exact .inl (streamEffect_pendingLive drained)
  · by_cases hs : hook.isSuccess = (view.queryClient.history.lookup hook.args).isSome
    · rw [render_idle hhook hs] at hhook'
      cases hhook'
      exact .inr ⟨_, hhook, rfl, rfl⟩
    · rw [render_seen hhook hs] at hhook'
      rcases drain_cases (view.fetched hook.args)
          { hook with isSuccess := (view.queryClient.history.lookup hook.args).isSome } with hdrain |
            ⟨-, -, c, -, hdrain⟩
      · rw [hdrain] at hhook'
        cases hhook'
        exact .inr ⟨hook, hhook, rfl, rfl⟩
      · rw [hdrain] at hhook'
        cases hhook'
        exact .inl rfl

theorem render_queryClient (view : View) (args : UseChannelMessagesArgs) :
    (view.render args).queryClient = view.fetched args ∨
      (view.render args).queryClient = (drainEffect (view.fetched args)
        (view.rendered args)).queryClient := by
  rcases view.switches_or args with hsw | ⟨hook, hhook, rfl⟩
  · refine .inr ?_
    rw [render_switch hsw]
  · by_cases hs : hook.isSuccess = (view.queryClient.history.lookup hook.args).isSome
    · exact .inl (congrArg View.queryClient (render_idle hhook hs))
    · refine .inr (congrArg View.queryClient (render_seen hhook hs) |>.trans ?_)
      rw [rendered_same hhook]

theorem cachedFrom_render (hcached : view.CachedFrom P) (hpending : view.PendingFrom P)
    (hown : DrainsOwn view (.render args)) : (view.render args).CachedFrom P := by
  have hfetched : ∀ key data, (view.fetched args).history.lookup key = some data → ∀ m, data.Has m →
      P key.channelId m := by
    intro key data hdata
    exact hcached key data (by rwa [View.fetched, lookup_fetch] at hdata)
  unfold View.CachedFrom
  rcases render_queryClient view args with hq | hq
  · rwa [hq]
  rw [hq]
  rcases drain_cases (view.fetched args) (view.rendered args) with hdrain | ⟨hs, hf, c, hc, hdrain⟩
  · rwa [hdrain]
  rw [hdrain]
  obtain ⟨data, hdata⟩ := Option.isSome_iff_exists.1
    (show (view.queryClient.history.lookup args).isSome = true from hs)
  rcases hhook : view.hook with _ | hook
  · -- a mount: nothing waits
    have hnil : (view.rendered args).pendingLive = [] := by
      unfold View.rendered
      rw [hhook]
      rfl
    rw [hnil]
    exact hfetched
  · have hrendered : (view.rendered args).pendingLive = hook.pendingLive ∧
        (view.rendered args).initialFetched = hook.initialFetched := by
      unfold View.rendered
      rw [hhook]
      exact ⟨rfl, rfl⟩
    have hargs : args = ⟨some c, args.channelId⟩ := by
      rw [← show args.clientId = some c from hc]
    rw [hrendered.1]
    intro key data' hdata' m hm
    by_cases hkey : key = ⟨some c, args.channelId⟩
    · rw [hkey] at hdata' ⊢
      by_cases hk : hook.args.channelId = args.channelId
      · rcases has_injectAll _ hdata' hm with ⟨old, hold, hm⟩ | ⟨-, hm⟩
        · exact hfetched _ old hold m hm
        · exact hk ▸ hpending hook hhook m hm
      · -- what waits for another channel is in these data already
        have hhas := hown hook hhook hk (hrendered.2 ▸ hf)
          (by rw [show args.clientId = some c from hc]; nofun) data hdata
        have hdata₁ : (view.fetched args).history.lookup ⟨some c, args.channelId⟩ = some data := by
          rw [← hargs, View.fetched, lookup_fetch]
          exact hdata
        cases (injectAll_had hdata₁ hhas).symm.trans hdata'
        exact hfetched _ data hdata₁ m hm
    · exact hfetched key data' ((lookup_injectAll_ne hkey ..).symm.trans hdata') m hm

theorem brings_message (hhook : view.hook = some hook) (hopen : hook.stream = .open) (event : MessageEvent) :
    toMessage hook.args.channelId event ∈ view.brings hook.args.channelId (.message event) := by
  unfold View.brings
  rw [hhook]
  simp [hopen]

theorem View.PendingFrom.reconnect (h : view.PendingFrom P) (he : event = .joined ∨ event = .disconnected) :
    (view.step event).PendingFrom P := by
  intro hook' hhook' m hm
  obtain ⟨hook, hhook, hsame⟩ := (step_reconnects view he).2 hook' hhook'
  rw [hsame.args]
  exact h hook hhook m (hsame.pendingLive ▸ hm)

theorem pendingFrom_step (h : view.PendingFrom P) (hbrings : ∀ k m, m ∈ view.brings k event → P k m) :
    (view.step event).PendingFrom P := by
  cases event with
  | render args =>
    intro hook' hhook' m hm
    rcases render_pending hook' hhook' with hnil | ⟨hook, hhook, hargs, hpending⟩
    · rw [hnil] at hm
      cases hm
    · rw [hargs]
      exact h hook hhook m (hpending ▸ hm)
  | unmount => exact fun _ hhook => absurd hhook (Option.not_mem_none _)
  | message event =>
    by_cases hopen : ∃ hook, view.hook = some hook ∧ hook.stream = .open
    · obtain ⟨hook, hhook, hopen⟩ := hopen
      rw [step_message hhook hopen]
      intro hook' hhook' m hm
      rcases hf : hook.initialFetched with _ | _
      · rw [take_waits hf] at hhook'
        cases hhook'
        rcases List.mem_append.1 hm with hm | hm
        · exact h hook hhook m hm
        · rw [List.mem_singleton.1 hm]
          exact hbrings _ _ (brings_message hhook hopen event)
      · rcases hc : hook.args.clientId with _ | c
        · rw [take_deaf hf hc] at hhook'
          cases hhook'
          exact h hook hhook m hm
        · rw [take_injects hf hc] at hhook'
          cases hhook'
          exact h hook hhook m hm
    · rw [step_message_closed fun hook hhook hs => hopen ⟨hook, hhook, hs⟩]
      exact h
  | history key page => exact h
  | joined => exact h.reconnect (.inl rfl)
  | disconnected => exact h.reconnect (.inr rfl)

theorem cachedFrom_step (hcached : view.CachedFrom P) (hpending : view.PendingFrom P)
    (hown : DrainsOwn view event)
    (hbrings : ∀ k m, m ∈ view.brings k event → P k m) : (view.step event).CachedFrom P := by
  cases event with
  | render args => exact cachedFrom_render hcached hpending hown
  | message event =>
    by_cases hopen : ∃ hook, view.hook = some hook ∧ hook.stream = .open
    · obtain ⟨hook, hhook, hopen⟩ := hopen
      rw [step_message hhook hopen]
      rcases hf : hook.initialFetched with _ | _
      · rw [take_waits hf]
        exact hcached
      · rcases hc : hook.args.clientId with _ | c
        · rw [take_deaf hf hc]
          exact hcached
        · rw [take_injects hf hc]
          intro key data hdata m hm
          rcases has_injectAll [toMessage hook.args.channelId event] hdata hm with ⟨old, hold, hm⟩ |
            ⟨hkey, hm⟩
          · exact hcached key old hold m hm
          · rw [hkey, List.mem_singleton.1 hm]
            exact hbrings _ _ (brings_message hhook hopen event)
    · rw [step_message_closed fun hook hhook hs => hopen ⟨hook, hhook, hs⟩]
      exact hcached
  | history key page =>
    intro key' data hdata m hm
    unfold View.step QueryClient.respond at hdata
    dsimp only at hdata
    split at hdata
    · by_cases hkey : key' = key
      · rw [hkey, Finmap.lookup_insert] at hdata
        cases hdata
        obtain ⟨page', hpage', hm⟩ := hm
        cases List.mem_singleton.1 hpage'
        refine hkey ▸ hbrings key.channelId m ?_
        rwa [show view.brings key.channelId (.history key page) = page.messages from if_pos ⟨‹_›, rfl⟩]
      · rw [Finmap.lookup_insert_of_ne _ hkey] at hdata
        exact hcached key' data hdata m hm
    · exact hcached key' data hdata m hm
  | _ => exact hcached

end

/-! ### Runs -/

/-- Every ListMessages response carries messages of the channel it was asked for. -/
def PagesOwn (events : List HookEvent) : Prop :=
  ∀ key page, .history key page ∈ events → ∀ m ∈ page.messages, m.channelId = key.channelId

section
variable {events pre post : List HookEvent} {k : Option ChannelId} {m : Message}

theorem CameFrom.append (h : CameFrom pre k m) (post : List HookEvent) : CameFrom (pre ++ post) k m := by
  obtain ⟨pre', event, post', rfl, hm⟩ := h
  exact ⟨pre', event, post' ++ post, by simp, hm⟩

theorem CameFrom.channelId (hpages : PagesOwn events) (h : CameFrom events k m) : m.channelId = k := by
  obtain ⟨pre, event, post, hev, hm⟩ := h
  cases event with
  | history key page =>
    unfold View.brings at hm
    dsimp only at hm
    split at hm
    · obtain ⟨-, rfl⟩ := ‹_ ∧ key.channelId = k›
      exact hpages key page (by rw [hev]; simp) m hm
    · cases hm
  | message event =>
    unfold View.brings at hm
    dsimp only at hm
    split at hm
    · split at hm
      · rw [List.mem_singleton.1 hm]
        rfl
      · cases hm
    · cases hm
  | _ => cases hm

theorem pendingFrom_run (events : List HookEvent) :
    (View.initial.run events).PendingFrom (CameFrom events) := by
  have hstart : View.initial.PendingFrom (CameFrom events) :=
    fun _ hhook => absurd hhook (Option.not_mem_none _)
  refine View.run_inv View.initial events hstart fun pre event post hev h => ?_
  exact pendingFrom_step h fun k m hm => ⟨pre, event, post, hev, hm⟩

/-- A wrong drain puts a message of the old channel into the cache of the new one. -/
theorem drainsOwn_of_cachedFrom {event : HookEvent} (hpages : PagesOwn (events ++ [event]))
    (h : (View.initial.run (events ++ [event])).CachedFrom (CameFrom (events ++ [event]))) :
    DrainsOwn (View.initial.run events) event := by
  cases event with
  | render args =>
    intro hook hhook hk hf hc data hdata m hm
    by_contra hhas
    obtain ⟨c, hc⟩ := Option.ne_none_iff_exists'.1 hc
    have hargs : args = ⟨some c, args.channelId⟩ := by
      rw [← hc]
    have hsw : (View.initial.run events).Switches args := by
      intro hook' hhook' hargs'
      cases hhook.symm.trans hhook'
      exact hk (congrArg _ hargs')
    have hrendered : (View.initial.run events).rendered args =
        { hook with args := args, isSuccess := true } := by
      unfold View.rendered
      rw [show Finmap.lookup _ _ = some data from hdata, show _ = some hook from hhook]
      rfl
    have hfetched : ((View.initial.run events).fetched args).history.lookup
        ⟨some c, args.channelId⟩ = some data := by
      rw [← hargs, View.fetched, lookup_fetch]
      exact hdata
    obtain ⟨data', hdata', -, hget⟩ := lookup_injectAll hook.pendingLive hfetched
    obtain ⟨m', hm', hi⟩ := hget m hm
    have hcached : ((View.initial.run (events ++ [.render args])).queryClient.history.lookup args =
        some data') := by
      rw [run_snoc]
      show ((View.initial.run events).render args).queryClient.history.lookup args = some data'
      have hdrain := @drain_injects ((View.initial.run events).fetched args)
        { hook with args := args, isSuccess := true } c rfl hf hc
      rw [render_switch hsw, hrendered, hdrain, ← hdata', ← hargs]
    have hnew : m'.channelId = args.channelId := (h args data' hcached m' hm').channelId hpages
    -- the entry is the waiting message or another that waits with it
    rcases has_injectAll _ hdata' hm' with ⟨old, hold, hm'⟩ | ⟨-, hm'⟩
    · cases hfetched.symm.trans hold
      exact hhas (has_iff.2 ⟨m', hm', hi⟩)
    · have hold : m'.channelId = hook.args.channelId :=
        ((pendingFrom_run events hook hhook m' hm').append [.render args]).channelId hpages
      exact hk (hold.symm.trans hnew)
  | _ => trivial

end

/-- The other channel, then a message in the first one before its history comes, and back to the other. -/
def backTooSoon (event : MessageEvent) : List HookEvent :=
  [.render other, .joined, .render other, .history other ⟨[], false⟩, .render other, .render general,
    .joined, .message event, .render other]

theorem message_in_other_channel : ¬ ∀ events, PagesOwn events →
    ∀ pre post, events = pre ++ post → (View.initial.run pre).CachedFrom (CameFrom pre) := by
  intro h
  let event : MessageEvent := ⟨⟨7⟩, ⟨1⟩, ⟨4⟩, ascii "bob", ascii "hi", 0⟩
  let m : Message := toMessage general.channelId event
  have hpages : PagesOwn (backTooSoon event) := by
    intro key page hmem m hm
    simp [backTooSoon] at hmem
    obtain ⟨rfl, rfl⟩ := hmem
    cases hm
  have hcached : (View.initial.run (backTooSoon event)).queryClient.history.lookup other =
    some ⟨⟨[m], false⟩, [], [none]⟩ := rfl
  have hfrom := h (backTooSoon event) hpages _ [] (List.append_nil _).symm other _ hcached m
    ⟨_, List.mem_cons_self .., List.mem_cons_self ..⟩
  cases hfrom.channelId hpages

/-- Each history holds messages of its own channel in every state of a run, exactly when no commit of
the run drains the messages of one channel into another. -/
theorem own_channel_iff {events : List HookEvent} (hpages : PagesOwn events) :
    (∀ pre post, events = pre ++ post → (View.initial.run pre).CachedFrom (CameFrom pre)) ↔
      ∀ pre event post, events = pre ++ event :: post → DrainsOwn (View.initial.run pre) event := by
  constructor
  · intro h pre event post hev
    refine drainsOwn_of_cachedFrom (fun key page hmem => hpages key page ?_)
      (h (pre ++ [event]) post (by simpa using hev))
    rw [hev]
    rcases List.mem_append.1 hmem with hmem | hmem
    · exact List.mem_append_left _ hmem
    · rw [List.mem_singleton.1 hmem]
      exact List.mem_append_right _ (List.mem_cons_self ..)
  · intro h pre post hev
    have hinit : View.initial.CachedFrom (CameFrom pre) := by
      intro key data hdata
      cases (Finmap.lookup_empty key).symm.trans hdata
    refine View.run_inv View.initial pre (I := fun view => view.CachedFrom (CameFrom pre)) hinit ?_
    intro pre' event post' hpre hcached
    refine cachedFrom_step hcached ?_ (h pre' event (post' ++ post) (by rw [hev, hpre]; simp)) fun k m hm =>
      ⟨pre', event, post', hpre, hm⟩
    intro hook hhook m hm
    rw [hpre]
    exact (pendingFrom_run pre' hook hhook m hm).append _

/-- Coming back once the history of the first channel is there. -/
def backInTime (event : MessageEvent) : List HookEvent :=
  [.render other, .joined, .render other, .history other ⟨[], false⟩, .render other, .render general,
    .joined, .message event, .history general ⟨[], false⟩, .render general, .render other]

theorem own_channel_iff_backInTime :
    let events := backInTime ⟨⟨7⟩, ⟨1⟩, ⟨4⟩, ascii "bob", ascii "hi", 0⟩
    (View.initial.run events).CachedFrom (CameFrom events) := by
  intro events
  have hpages : PagesOwn events := by
    intro key page hmem m hm
    simp [events, backInTime] at hmem
    rcases hmem with ⟨-, rfl⟩ | ⟨-, rfl⟩ <;> cases hm
  refine (own_channel_iff hpages).2 (fun pre event post hev => ?_) events [] (List.append_nil _).symm
  have hall : ∀ i : Fin events.length, DrainsOwn (View.initial.run (events.take i)) (events.get i) := by
    decide +kernel
  have hi : pre.length < events.length := by
    rw [hev]
    simp
  have hdrains := hall ⟨pre.length, hi⟩
  simpa [hev] using hdrains

end Bcmd.Web
