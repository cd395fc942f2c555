import Bcmd.Sidebar

/-!
# A sidebar on a live server

One browser tab beside the server's list streams and the requests that they hear of, all interleaved. What the
sidebar shows comes from the one stream that is open for its client: runs of the effect that were cleaned up
change nothing any more. So it shows no channel that is not stored, and none is missing once it has caught up.
-/

namespace Bcmd.Web
open Server

/-- The server's streams and requests, and the tab. -/
structure LiveTab (ι : Type) where
  server : ListConfig ι
  tab : Tab

section
variable {ι : Type} [DecidableEq ι]

/-- `x` is reached from a tab that has just been opened; `tr` are the server's sections. A stream of the pool
is the tab's from the commit on that opens it, and its events come in order. -/
inductive LiveTab.Reached (write : Nat → Bytes) (p : ListPublishing ι) (s : Server) :
    ListEvents ι → LiveTab ι → Prop
  | start : Reached write p s [] ⟨p.start s, .initial⟩
  | call {tr x i o} (h : Reached write p s tr x) (hn : (x.server.threads i).next = some o)
      (he : ListSectioned.enabled o x.server.state) :
      Reached write p s (tr ++ [⟨x.server, i, o⟩]) { x with server := x.server.advance listSections i }
  | env {tr x s'} (h : Reached write p s tr x) (he : ListSectioned.Env x.server.state s') :
      Reached write p s tr { x with server := ⟨s', x.server.threads⟩ }
  /-- Another part of the tab acts on the auth store. -/
  | auth {tr x} (h : Reached write p s tr x) (action : AuthState.Action) :
      Reached write p s tr { x with tab := { x.tab with auth := AuthState.apply action x.tab.auth } }
  | commit {tr x} (h : Reached write p s tr x) (w : StreamId) (hnew : x.tab.runs w = none)
      (hid : ∀ c, x.tab.auth.clientId = some c → p.clientIds w = write c.value) :
      Reached write p s tr { x with tab := x.tab.commit w }
  | unmount {tr x} (h : Reached write p s tr x) : Reached write p s tr { x with tab := x.tab.unmount }
  | next {tr x} (h : Reached write p s tr x) (w : StreamId) {run : EffectRun} {event : ChannelListEvent}
      (hrun : x.tab.runs w = some run) (hreading : run.reading = true)
      (hevent : (x.server.state.table.written w)[run.taken]? = some event) :
      Reached write p s tr { x with tab := x.tab.next w run event }
  | ended {tr x} (h : Reached write p s tr x) (w : StreamId) {run : EffectRun} (hrun : x.tab.runs w = some run)
      (hreading : run.reading = true) : Reached write p s tr { x with tab := x.tab.ended w run }
  | throws {tr x} (h : Reached write p s tr x) (w : StreamId) {run : EffectRun} (hrun : x.tab.runs w = some run)
      (hreading : run.reading = true) (err : Thrown) :
      Reached write p s tr { x with tab := x.tab.throws w run err }

variable {write : Nat → Bytes} {p : ListPublishing ι} {s : Server} {tr : ListEvents ι} {x : LiveTab ι}
  {w : StreamId} {k : ChannelId}

theorem LiveTab.run_of_reached (h : LiveTab.Reached write p s tr x) : ListRun p s tr x.server := by
  induction h with
  | start => exact .refl
  | call h hn he ih => exact ih.step hn he
  | env h he ih => exact ih.env he
  | auth | commit | unmount | next | ended | throws => assumption

/-! ### What the store is made of -/

/-- The store is made of the events that the current run has taken; the other runs are aborted. -/
structure Tab.Shows (written : StreamId → List ChannelListEvent) (tab : Tab) : Prop where
  idle : tab.current = none → tab.channels = initialState
  stale : ∀ {w run}, tab.runs w = some run → tab.current ≠ some w → run.aborted = true
  taken : ∀ {w}, tab.current = some w → ∃ run, tab.runs w = some run ∧ run.aborted = false ∧
    run.taken ≤ (written w).length ∧ tab.channels = fold ((written w).take run.taken)

variable {written written' : StreamId → List ChannelListEvent} {tab : Tab} {run : EffectRun}
  {event : ChannelListEvent}

namespace Tab.Shows

theorem initial : Tab.initial.Shows written where
  idle _ := rfl
  stale h _ := by cases h
  taken h := by cases h

/-- More is written to the streams. -/
theorem grow (h : tab.Shows written) (hgrow : ∀ w, written w <+: written' w) : tab.Shows written' where
  idle := h.idle
  stale := h.stale
  taken {w} hw := by
    obtain ⟨run, hrun, hlive, hle, hchannels⟩ := h.taken hw
    obtain ⟨more, hmore⟩ := hgrow w
    have hlength : (written' w).length = (written w).length + more.length := by
      rw [← hmore, List.length_append]
    refine ⟨run, hrun, hlive, by omega, ?_⟩
    rw [hchannels, ← hmore, List.take_append_of_le_length hle]

theorem auth (h : tab.Shows written) (auth : AuthState) (error : Option BroadcastError)
    (mounted : Option (Option ClientId)) :
    Tab.Shows written { tab with auth := auth, error := error, mounted := mounted } :=
  ⟨h.idle, h.stale, h.taken⟩

theorem cleanup (h : tab.Shows written) : tab.cleanup.Shows written ∧ tab.cleanup.current = none := by
  unfold Tab.cleanup
  rcases hcurrent : tab.current with _ | w
  · exact ⟨h, hcurrent⟩
  refine ⟨⟨fun _ => rfl, fun {v run} hrun _ => ?_, nofun⟩, rfl⟩
  by_cases hv : v = w
  · subst hv
    simp only [Function.update_self, Option.map_eq_some_iff] at hrun
    obtain ⟨old, -, rfl⟩ := hrun
    rfl
  · simp only [Function.update_of_ne hv] at hrun
    refine h.stale hrun fun hcur => hv ?_
    rw [hcurrent] at hcur
    exact (Option.some.inj hcur).symm

theorem effect (h : tab.Shows written) (hidle : tab.current = none) (w : StreamId) :
    (tab.effect w).Shows written := by
  unfold Tab.effect
  rcases tab.auth.clientId with _ | c
  · exact h
  refine ⟨nofun, fun {v run} hrun hne => ?_, fun {v} hv => ?_⟩
  · have hvw : v ≠ w := fun heq => hne (congrArg some heq.symm)
    simp only [Function.update_of_ne hvw] at hrun
    refine h.stale hrun ?_
    rw [hidle]
    exact (Option.some_ne_none v).symm
  · cases hv
    exact ⟨_, Function.update_self .., rfl, Nat.zero_le _, h.idle hidle⟩

theorem commit (h : tab.Shows written) (w : StreamId) : (tab.commit w).Shows written := by
  unfold Tab.commit
  split
  · exact h
  · obtain ⟨hclean, hidle⟩ := h.cleanup
    exact (hclean.effect hidle w).auth ..

theorem unmount (h : tab.Shows written) : tab.unmount.Shows written := h.cleanup.1.auth ..

/-- Nothing but the loop's own place changes. -/
theorem ended (h : tab.Shows written) (hrun : tab.runs w = some run) : (tab.ended w run).Shows written where
  idle := h.idle
  stale {v run'} hv hne := by
    by_cases hvw : v = w
    · subst hvw
      simp only [Tab.ended, Function.update_self, Option.some.injEq] at hv
      have haborted : run.aborted = true := h.stale hrun hne
      rw [← hv]
      exact haborted
    · exact h.stale ((Function.update_of_ne hvw ..).symm.trans hv) hne
  taken {v} hv := by
    obtain ⟨run', hrun', hlive, hle, hchannels⟩ := h.taken hv
    by_cases hvw : v = w
    · subst hvw
      cases hrun.symm.trans hrun'
      exact ⟨_, Function.update_self .., hlive, hle, hchannels⟩
    · exact ⟨run', (Function.update_of_ne hvw ..).trans hrun', hlive, hle, hchannels⟩

theorem throws (h : tab.Shows written) (hrun : tab.runs w = some run) (err : Thrown) :
    (tab.throws w run err).Shows written := by
  unfold Tab.throws
  split
  · exact h.ended hrun
  · exact (h.ended hrun).auth ..

/-- The current run's event goes into the store, any other's is dropped. -/
theorem next (h : tab.Shows written) (hrun : tab.runs w = some run)
    (hevent : (written w)[run.taken]? = some event) : (tab.next w run event).Shows written := by
  unfold Tab.next
  split
  · exact h.ended hrun
  rename_i hlive
  have hcurrent : tab.current = some w := by
    by_contra hne
    exact hlive (h.stale hrun hne)
  obtain ⟨run', hrun', hlive', hle, hchannels⟩ := h.taken hcurrent
  cases hrun.symm.trans hrun'
  refine ⟨fun hnone => ?_, fun {v run''} hv hne => ?_, fun {v} hv => ?_⟩
  · cases hcurrent.symm.trans hnone
  · have hvw : v ≠ w := fun heq => hne (heq ▸ hcurrent)
    simp only [Function.update_of_ne hvw] at hv
    exact h.stale hv hne
  · cases hcurrent.symm.trans hv
    obtain ⟨hlt, hget⟩ := List.getElem?_eq_some_iff.1 hevent
    refine ⟨_, Function.update_self .., hlive', hlt, ?_⟩
    show processChannelListEvent event tab.channels = _
    rw [List.take_add_one, hevent, Option.toList_some, fold_snoc, hchannels]

end Tab.Shows

theorem written_prefix_handle (o : ListSection) (t : ListSectioned) (w : StreamId) :
    t.table.written w <+: (listSections.handle o t).2.table.written w := by
  rcases hb : o.brings with _ | ⟨entry, event⟩
  · rw [written_handle hb]
  · rw [written_handle_brings hb]
    split
    · exact List.prefix_append ..
    · exact List.prefix_rfl

theorem LiveTab.shows_of_reached (h : LiveTab.Reached write p s tr x) :
    x.tab.Shows x.server.state.table.written := by
  induction h with
  | start => exact .initial
  | @call _ y i o _ hn he ih =>
    refine ih.grow fun w => ?_
    show _ <+: (y.server.advance listSections i).state.table.written w
    rw [Config.advance_state hn]
    exact written_prefix_handle o y.server.state w
  | env _ he ih =>
    refine ih.grow fun w => ?_
    show _ <+: _
    rw [he.table]
  | auth _ action ih => exact ih.auth ..
  | commit _ w hnew hid ih => exact ih.commit w
  | unmount _ ih => exact ih.unmount
  | next _ w hrun _ hevent ih => exact ih.next hrun hevent
  | ended _ w hrun _ ih => exact ih.ended hrun
  | throws _ w hrun _ err ih => exact ih.throws hrun err

/-! ### What the sidebar shows -/

theorem broughtChannels_take {events : List ChannelListEvent} {n : Nat} {d : ChannelId × Bytes}
    (h : d ∈ broughtChannels (events.take n)) : d ∈ broughtChannels events := by
  obtain ⟨event, hevent, hd⟩ := List.mem_flatMap.1 h
  exact List.mem_flatMap.2 ⟨event, List.mem_of_mem_take hevent, hd⟩

theorem stores_unique {name name' : Bytes} (h : s.Stores (k, name)) (h' : s.Stores (k, name')) :
    name = name' := by
  obtain ⟨n, hn, rfl⟩ := h
  obtain ⟨n', hn', rfl⟩ := h'
  rw [Option.some.inj (hn.symm.trans hn')]

/-- However the server's streams and requests and the tab interleave, with any switches of the client, mounts
and unmounts, and with streams that fail or go on after their abort: without a current run the sidebar is empty;
every channel that it shows is stored, with the name that it shows; and when all requests have returned and the
current run has taken all events of its stream, which is still in the server's table, exactly the stored
channels are shown. -/
theorem sidebar_shows {historyCap : UInt32} {systemNow steadyNow : Int} {host : Host}
    (hreach : Host.Reached p.uuid (.initial historyCap systemNow steadyNow) host)
    (h : LiveTab.Reached write p host.server tr x) :
    (x.tab.current = none → x.tab.channels = initialState) ∧
    (∀ k ch, x.tab.channels.channels.lookup k = some ch →
      ch.id = k ∧ ∃ stored, x.server.state.server.channel k = some stored ∧ stored.name.value = ch.name) ∧
    (AllReturned x.server → ∀ w run c entry, x.tab.current = some w → x.tab.runs w = some run →
      x.server.state.table.writers.lookup c = some entry → x.server.state.table.writer entry = some w →
      run.taken = (x.server.state.table.written w).length → ∀ k name,
        ((∃ ch, x.tab.channels.channels.lookup k = some ch ∧ ch.name = name) ↔
          ∃ stored, x.server.state.server.channel k = some stored ∧ stored.name.value = name)) := by
  have hs := indexed_reached hreach
  have hrun := LiveTab.run_of_reached h
  have hshows := LiveTab.shows_of_reached h
  obtain ⟨-, hstored, -⟩ := stored_run hs hrun
  -- what the store has, the stream of the current run has brought
  have hlookup : ∀ k ch, x.tab.channels.channels.lookup k = some ch →
      ch.id = k ∧ x.server.state.server.Stores (k, ch.name) := by
    intro k ch hch
    rcases hcurrent : x.tab.current with _ | w
    · rw [hshows.idle hcurrent] at hch
      cases (Finmap.lookup_empty k).symm.trans hch
    · obtain ⟨run, -, -, -, hchannels⟩ := hshows.taken hcurrent
      rw [hchannels] at hch
      obtain ⟨hid, hbrought⟩ := brought_of_lookup hch
      obtain ⟨event, hevent, hd⟩ := List.mem_flatMap.1 (broughtChannels_take hbrought)
      exact ⟨hid, hstored w event hevent _ hd⟩
  refine ⟨hshows.idle, fun k ch hch => ?_, fun hret w run c entry hcurrent hw hlisted hwriter htaken => ?_⟩
  · obtain ⟨hid, hstores⟩ := hlookup k ch hch
    exact ⟨hid, stores_iff.1 hstores⟩
  intro k name
  constructor
  · rintro ⟨ch, hch, rfl⟩
    exact stores_iff.1 (hlookup k ch hch).2
  · intro hname
    obtain ⟨hopened, hall⟩ := (no_channel_missed hreach hrun).2 hret c entry w hlisted hwriter
    have hbrought : (k, name) ∈ broughtChannels (x.server.state.table.written w) := (hall k name).2 hname
    obtain ⟨run', hrun', -, -, hchannels⟩ := hshows.taken hcurrent
    cases hw.symm.trans hrun'
    rw [htaken, List.take_length] at hchannels
    obtain ⟨ch, hch⟩ := Option.ne_none_iff_exists'.1 (lookup_of_brought hopened hbrought)
    rw [← hchannels] at hch
    exact ⟨ch, hch, stores_unique (hlookup k ch hch).2 (stores_iff.2 hname)⟩

end

/-! ### The tab of the client whose list stream the snapshot is written to -/

theorem LiveTab.reached_of_run {ι : Type} [DecidableEq ι] {write : Nat → Bytes} {p : ListPublishing ι}
    {s : Server} {tab : Tab} {tr : ListEvents ι} {m : ListConfig ι}
    (h : LiveTab.Reached write p s [] ⟨p.start s, tab⟩) (hrun : ListRun p s tr m) :
    LiveTab.Reached write p s tr ⟨m, tab⟩ := by
  induction hrun with
  | refl => exact h
  | env _ he ih => exact ih.env he
  | step _ hn he ih => exact ih.call hn he

/-- The client signs in, the sidebar is mounted, and takes all three events. -/
theorem sidebar_shows_aroundSnapshot : ∃ x : LiveTab Bool,
    LiveTab.Reached writeSmall (oneStream creating) twoConnected.server (watchedCreates aroundSnapshot).1 x ∧
      ∃ ch, x.tab.channels.channels.lookup ⟨5⟩ = some ch ∧ ch.name = ascii "milk" := by
  have hrun : ListRun (oneStream creating) twoConnected.server (watchedCreates aroundSnapshot).1
      (watchedCreates aroundSnapshot).2 :=
    run_schedule ..
  have hret : AllReturned (watchedCreates aroundSnapshot).2 :=
    oneStream_returned hrun (by decide +kernel) (by decide +kernel)
  obtain ⟨first, second, third, hwritten⟩ : ∃ first second third,
      (watchedCreates aroundSnapshot).2.state.table.written 0 = [first, second, third] :=
    List.length_eq_three.1 (by decide +kernel)
  have hid : ∀ c, some (⟨2⟩ : ClientId) = some c → (oneStream creating).clientIds 0 = writeSmall c.value := by
    intro c hc
    cases hc
    decide
  have hentry : (watchedCreates aroundSnapshot).2.state.table.writers.lookup ⟨2⟩ = some 0 ∧
      (watchedCreates aroundSnapshot).2.state.table.writer 0 = some 0 := by decide +kernel
  have hmilk : ∃ stored, (watchedCreates aroundSnapshot).2.state.server.channel ⟨5⟩ = some stored ∧
      stored.name.value = ascii "milk" := by decide +kernel
  have hopened : LiveTab.Reached writeSmall (oneStream creating) twoConnected.server []
      ⟨(oneStream creating).start twoConnected.server, .initial⟩ := .start
  have hmounted := (hopened.auth (.setConnected ⟨2⟩ (ascii "ann"))).commit 0 rfl hid
  have hget : ∀ i : Nat, ((watchedCreates aroundSnapshot).2.state.table.written 0)[i]? =
      [first, second, third][i]? := fun i => by rw [hwritten]
  have hfirst := (LiveTab.reached_of_run hmounted hrun).next 0 rfl rfl (hget 0)
  have hsecond := hfirst.next 0 rfl rfl (hget 1)
  have hthird := hsecond.next 0 rfl rfl (hget 2)
  refine ⟨_, hthird, ?_⟩
  refine ((sidebar_shows twoConnected_reached hthird).2.2 hret 0 _ ⟨2⟩ 0 rfl rfl hentry.1 hentry.2 ?_ ⟨5⟩
    (ascii "milk")).2 hmilk
  rw [hwritten]
  rfl

end Bcmd.Web
