import Bcmd.JoinByName
import Bcmd.LiveMessages

/-!
# Channel switches and the joins they issue

Every run of the stream effect sends a JoinChannel and lets it go: the signal that a later switch aborts
is handed to the stream and checked before each state change, but not handed to the join. The server may
handle the joins in any order, and each takes the client out of its other channels, so it ends up where
the last one that is handled leads.
-/

namespace Bcmd.Web
open Server

/-- A view and the server, with the joins that are on their way, and those that were handled, with their
replies. -/
structure Switching where
  view : View
  host : Host
  waiting : List ChannelId
  handled : List (ChannelId × Reply Unit)

inductive SwitchingEvent
  | hook (event : HookEvent)
  /-- The server takes the `i`-th of the waiting joins. -/
  | join (order : BucketOrder) (i : Nat)

/-- The channel that the stream effect of this commit joins, if it runs and has both ids. -/
def View.issued (view : View) : HookEvent → Option ChannelId
  | .render args => if view.Switches args ∧ args.clientId ≠ none then args.channelId else none
  | _ => none

theorem issued_render (view : View) (args : UseChannelMessagesArgs) :
    view.issued (.render args) = if view.Switches args ∧ args.clientId ≠ none then args.channelId else none :=
  rfl

namespace Switching

/-- The hook is to be mounted. -/
def start (queryClient : QueryClient) (host : Host) : Switching := ⟨⟨queryClient, none⟩, host, [], []⟩

/-- A join is sent with the client's id and the channel's, as texts. -/
def step (uuid : UuidLib) (clientId : Bytes) (text : ChannelId → Bytes) (s : Switching) :
    SwitchingEvent → Switching
  | .hook event => { s with view := s.view.step event, waiting := s.waiting ++ (s.view.issued event).toList }
  | .join order i =>
    match s.waiting[i]? with
    | none => s
    | some k => { s with
        host := s.host.step uuid order (.joinChannel clientId (text k))
        waiting := s.waiting.eraseIdx i
        handled := s.handled ++
          [(k, (ports.exec (BroadcastService.JoinChannel uuid order clientId (text k)) s.host.server).1)] }

def run (uuid : UuidLib) (clientId : Bytes) (text : ChannelId → Bytes) (s : Switching)
    (events : List SwitchingEvent) :
    Switching := events.foldl (step uuid clientId text) s

end Switching

/-- The hook stays mounted, with the one client, and is shown channels by ids that the server reads as
such. -/
def Mounted (uuid : UuidLib) (c : ClientId) (text : ChannelId → Bytes) : SwitchingEvent → Prop
  | .hook (.render args) => args.clientId = some c ∧
      ∀ k, args.channelId = some k → BroadcastService.parseChannel uuid (text k) = some k
  | .hook .unmount => False
  | _ => True

section
variable {view : View} {hook : Hook} {args : UseChannelMessagesArgs}

theorem drain_hook (queryClient : QueryClient) (hook : Hook) :
    ∃ hook', (drainEffect queryClient hook).hook = some hook' ∧ hook'.args = hook.args := by
  unfold drainEffect
  split
  · exact ⟨hook, rfl, rfl⟩
  · split <;> exact ⟨_, rfl, rfl⟩

/-- A render shows its own arguments. -/
theorem render_args (view : View) (args : UseChannelMessagesArgs) :
    ∃ hook, (view.render args).hook = some hook ∧ hook.args = args := by
  unfold View.render
  dsimp only
  have hrendered : (view.rendered args).args = args := rfl
  obtain ⟨drained, hdrained, hargs⟩ := drain_hook
    (view.queryClient.fetch (args.clientId.isSome && args.channelId.isSome &&
      (view.rendered args).isJoined) args)
    (view.rendered args)
  split <;> split
  · exact ⟨streamEffect drained, by rw [hdrained]; rfl, by rw [streamEffect_args, hargs, hrendered]⟩
  · exact ⟨streamEffect (view.rendered args), rfl, by rw [streamEffect_args, hrendered]⟩
  · exact ⟨drained, hdrained, by rw [hargs, hrendered]⟩
  · exact ⟨view.rendered args, rfl, hrendered⟩

theorem take_hook (view : View) (hook : Hook) (event : MessageEvent) :
    ∃ hook', (view.take hook event).hook = some hook' ∧ hook'.args = hook.args := by
  unfold View.take
  dsimp only
  split
  · split <;> exact ⟨_, rfl, rfl⟩
  · exact ⟨_, rfl, rfl⟩

/-- Only a render changes the arguments. -/
theorem args_of_step {event : HookEvent} (hevent : ∀ args, event ≠ .render args)
    (h : (view.step event).hook = some hook) :
    ∃ hook', view.hook = some hook' ∧ hook'.args = hook.args := by
  cases event with
  | render args => exact absurd rfl (hevent args)
  | unmount => cases h
  | joined =>
    obtain ⟨hook', hhook', rfl⟩ := Option.map_eq_some_iff.1 h
    refine ⟨hook', hhook', ?_⟩
    split <;> rfl
  | message event =>
    rcases hv : view.hook with _ | hook'
    · simp only [View.step, hv] at h
      cases h
    · refine ⟨hook', rfl, ?_⟩
      simp only [View.step, hv] at h
      split at h
      · obtain ⟨hook₁, h₁, hargs⟩ := take_hook view hook' event
        rw [h₁] at h
        cases h
        exact hargs.symm
      · rw [hv] at h
        cases h
        rfl
  | disconnected =>
    obtain ⟨hook', hhook', rfl⟩ := Option.map_eq_some_iff.1 h
    refine ⟨hook', hhook', ?_⟩
    split <;> rfl
  | history key page => exact ⟨hook, h, rfl⟩

end

/-! ### Runs -/

section
variable {uuid : UuidLib} {historyCap : UInt32} {systemNow steadyNow : Int} {clientId : Bytes} {c : ClientId}
  {text : ChannelId → Bytes} {s : Switching} {event : SwitchingEvent} {events : List SwitchingEvent}

/-- What a run keeps: the joins name channels, the hook's channel is among those that were issued, and
the client is where the last join took it, if that was well. -/
structure Switching.Led (uuid : UuidLib) (historyCap : UInt32) (systemNow steadyNow : Int) (c : ClientId)
    (text : ChannelId → Bytes) (s : Switching) : Prop where
  reached : Host.Reached uuid (.initial historyCap systemNow steadyNow) s.host
  named : ∀ k ∈ s.waiting, BroadcastService.parseChannel uuid (text k) = some k
  issued : ∀ hook k, s.view.hook = some hook → hook.args.channelId = some k →
    k ∈ s.waiting ∨ k ∈ s.handled.map Prod.fst
  last : ∀ k, s.handled.getLast? = some (k, .ok ()) → ∀ k', c ∈ s.host.server.members k' ↔ k' = k

/-- A join that succeeds leaves the client in the one channel. -/
theorem only_of_join {host : Host} (hhost : Host.Reached uuid (.initial historyCap systemNow steadyNow) host)
    (order : BucketOrder) (hclient : BroadcastService.parseClient uuid clientId = some c)
    {k : ChannelId} {field : Bytes} (hk : BroadcastService.parseChannel uuid field = some k)
    (hok : (ports.exec (BroadcastService.JoinChannel uuid order clientId field) host.server).1 = .ok ())
    (k' : ChannelId) :
    c ∈ (host.step uuid order (.joinChannel clientId field)).server.members k' ↔ k' = k := by
  have hagree := agree_reached hhost
  have hrequest : BroadcastService.JoinChannel uuid order clientId field =
      JoinChannel.execute order c k >>= fun r => pure (toReply r) := by
    unfold BroadcastService.JoinChannel
    simp only [hclient, hk]
  show c ∈ (ports.exec (BroadcastService.JoinChannel uuid order clientId field) host.server).2.members k' ↔ _
  rw [hrequest, Machine.exec_bind] at hok ⊢
  rcases hch : host.server.channel k with _ | ch
  · obtain ⟨e, hexec⟩ := execute_notFound order c hch
    rw [hexec] at hok
    cases hok
  rcases hcs : host.server.session c with _ | cs
  · simp only [JoinChannel.execute, Prog.perform_bind, Prog.pure_eq, exec_findSession, hcs] at hok
    cases hok
  obtain ⟨s', hexec, hentered⟩ := entered_execute (c := c) (k := k) order (by rw [hcs]; simp)
    (by rw [hch]; simp)
  rw [hexec]
  refine (hentered k').trans ?_
  rw [hagree.mem_iff]
  simp

theorem Switching.Led.step (h : s.Led uuid historyCap systemNow steadyNow c text)
    (hclient : BroadcastService.parseClient uuid clientId = some c) (hevent : Mounted uuid c text event) :
    (s.step uuid clientId text event).Led uuid historyCap systemNow steadyNow c text := by
  cases event with
  | hook event =>
    by_cases hrender : ∃ args, event = .render args
    · obtain ⟨args, rfl⟩ := hrender
      obtain ⟨hc, htext⟩ := hevent
      obtain ⟨shown, hshown, hargs⟩ := render_args s.view args
      refine ⟨h.reached, fun k hk => ?_, fun hook k hhook hk => ?_, h.last⟩
      · rcases List.mem_append.1 hk with hk | hk
        · exact h.named k hk
        · rw [Option.mem_toList, issued_render] at hk
          split at hk
          · exact htext k hk
          · cases hk
      · have hhook' : (s.view.render args).hook = some hook := hhook
        rw [hshown] at hhook'
        cases hhook'
        rw [hargs] at hk
        rcases s.view.switches_or args with hsw | ⟨hook', hhook', rfl⟩
        · -- the effect runs
          left
          have hissued : s.view.issued (.render args) = some k := by
            rw [issued_render, if_pos ⟨hsw, by rw [hc]; nofun⟩, hk]
          refine List.mem_append_right _ ?_
          rw [hissued]
          exact List.mem_singleton_self k
        · exact (h.issued hook' k hhook' hk).imp_left (List.mem_append_left _)
    · have hnone : s.view.issued event = none := by
        cases event with
        | render args => exact absurd ⟨args, rfl⟩ hrender
        | _ => rfl
      have hwaiting : (s.step uuid clientId text (.hook event)).waiting = s.waiting := by
        show s.waiting ++ (s.view.issued event).toList = s.waiting
        rw [hnone, Option.toList_none, List.append_nil]
      refine ⟨h.reached, fun k hk => h.named k (by rwa [hwaiting] at hk), fun hook k hhook hk => ?_, h.last⟩
      obtain ⟨hook', hhook', hargs⟩ := args_of_step (fun args h => hrender ⟨args, h⟩) hhook
      rw [hwaiting]
      exact h.issued hook' k hhook' (by rw [hargs, hk])
  | join order i =>
    unfold Switching.step
    dsimp only
    split
    · exact h
    rename_i k hi
    have hin : k ∈ s.waiting := List.mem_of_getElem? hi
    have hreached : Host.Reached uuid (.initial historyCap systemNow steadyNow)
        (s.host.step uuid order (.joinChannel clientId (text k))) := h.reached.step order _
    refine ⟨hreached, fun k' hk' => h.named k' (List.mem_of_mem_eraseIdx hk'),
      fun hook k' hhook hk' => ?_, fun k' hlast => ?_⟩
    · rw [List.map_append, List.mem_append]
      rcases h.issued hook k' hhook hk' with hw | hd
      · by_cases hkk : k' = k
        · subst hkk
          exact .inr (.inr (List.mem_singleton_self k'))
        · left
          have hi' := List.getElem?_eq_some_iff.1 hi
          exact List.mem_eraseIdx_iff_getElem?.2 (by
            obtain ⟨j, hj⟩ := List.mem_iff_getElem?.1 hw
            refine ⟨j, fun hji => hkk ?_, hj⟩
            rw [hji, hi] at hj
            exact (Option.some.inj hj).symm)
      · exact .inr (.inl hd)
    · rw [List.getLast?_concat] at hlast
      obtain ⟨rfl, hok⟩ := Prod.mk.inj (Option.some.inj hlast)
      exact only_of_join h.reached order hclient (h.named _ hin) hok

theorem Switching.Led.run (h : s.Led uuid historyCap systemNow steadyNow c text)
    (hclient : BroadcastService.parseClient uuid clientId = some c)
    (hevents : ∀ e ∈ events, Mounted uuid c text e) :
    (s.run uuid clientId text events).Led uuid historyCap systemNow steadyNow c text := by
  induction events generalizing s with
  | nil => exact h
  | cons event events ih =>
    exact ih (h.step hclient (hevents event (List.mem_cons_self ..))) fun e he => hevents e
      (List.mem_cons_of_mem event he)

/-- Once every join of a mounted hook has been handled, all of them well, the client is in the hook's
channel and in no other exactly if the join that was handled last was one for this channel. -/
theorem ends_in_view_iff {queryClient : QueryClient} {host : Host} {final : Switching} {hook : Hook}
    {k : ChannelId} (hhost : Host.Reached uuid (.initial historyCap systemNow steadyNow) host)
    (hclient : BroadcastService.parseClient uuid clientId = some c)
    (hevents : ∀ e ∈ events, Mounted uuid c text e)
    (hfinal : (Switching.start queryClient host).run uuid clientId text events = final)
    (hwaiting : final.waiting = []) (hok : ∀ join ∈ final.handled, join.2 = .ok ())
    (hhook : final.view.hook = some hook) (hk : hook.args.channelId = some k) :
    (∀ k', c ∈ final.host.server.members k' ↔ k' = k) ↔ final.handled.getLast?.map Prod.fst = some k := by
  have hstart : (Switching.start queryClient host).Led uuid historyCap systemNow steadyNow c text :=
    ⟨hhost, nofun, fun _ _ => nofun, fun _ => nofun⟩
  have hled := hstart.run hclient hevents
  rw [hfinal] at hled
  -- the join for the hook's channel has been handled, so there is a last one
  have hin : k ∈ final.handled.map Prod.fst := by
    rcases hled.issued hook k hhook hk with hw | hd
    · rw [hwaiting] at hw
      cases hw
    · exact hd
  rcases hlast : final.handled.getLast? with _ | ⟨k₁, r⟩
  · rw [List.getLast?_eq_none_iff.1 hlast] at hin
    cases hin
  have hr : r = .ok () := hok _ (List.mem_of_getLast? hlast)
  subst hr
  have honly := hled.last k₁ hlast
  rw [Option.map_some, Option.some_inj]
  constructor
  · intro h
    exact (h k₁).1 ((honly k₁).2 rfl)
  · rintro rfl
    exact honly

end

/-! Client `2` looks at the channel `1` and at once at the channel `3`, and the two joins are handled in
one order or the other. -/

def idText (k : ChannelId) : Bytes :=
  if k = ⟨1⟩ then ascii "00000000-0000-0000-0000-000000000001" else
    ascii "00000000-0000-0000-0000-000000000003"

/-- The joins are taken at these places of those that wait. -/
def twoSwitches (places : List Nat) : List SwitchingEvent :=
  [.hook (.render ⟨some ⟨2⟩, some ⟨1⟩⟩), .hook (.render ⟨some ⟨2⟩, some ⟨3⟩⟩)] ++ places.map (.join .byId)

def switched (places : List Nat) : Switching :=
  (Switching.start ⟨∅, ∅⟩ twoChannels).run .canonical (ascii "00000000-0000-0000-0000-000000000002") idText
    (twoSwitches places)

theorem mounted_twoSwitches (places : List Nat) :
    ∀ e ∈ twoSwitches places, Mounted .canonical ⟨2⟩ idText e := by
  intro e he
  rcases List.mem_append.1 he with he | he
  · rcases List.mem_cons.1 he with rfl | he
    · refine ⟨rfl, ?_⟩
      rintro k ⟨⟩
      decide +kernel
    · obtain rfl := List.mem_singleton.1 he
      refine ⟨rfl, ?_⟩
      rintro k ⟨⟩
      decide +kernel
  · obtain ⟨i, -, rfl⟩ := List.mem_map.1 he
    trivial

theorem ends_in_view_iff_inOrder : ⟨2⟩ ∈ (switched [0, 0]).host.server.members ⟨3⟩ := by
  have hargs : (switched [0, 0]).view.hook.map Hook.args = some ⟨some ⟨2⟩, some ⟨3⟩⟩ := by decide +kernel
  obtain ⟨hook, hhook, hargs⟩ := Option.map_eq_some_iff.1 hargs
  have hlast : (switched [0, 0]).handled.getLast?.map Prod.fst = some ⟨3⟩ := by decide +kernel
  exact ((ends_in_view_iff twoChannels_reached (by decide +kernel) (mounted_twoSwitches [0, 0]) rfl
    (by decide +kernel)
    (by decide +kernel) hhook (by rw [hargs])).2 hlast ⟨3⟩).2 rfl

/-- The joins pass each other on their way: the view is on the channel `3`, and the client in the
channel `1`. -/
theorem view_elsewhere : ¬ ∀ (host : Host) (clientId : Bytes) (c : ClientId) (text : ChannelId → Bytes)
    (events : List SwitchingEvent) (hook : Hook) (k : ChannelId),
    Host.Reached .canonical (.initial 200 0 0) host →
    BroadcastService.parseClient .canonical clientId = some c →
    (∀ e ∈ events, Mounted .canonical c text e) →
    ((Switching.start ⟨∅, ∅⟩ host).run .canonical clientId text events).waiting = [] →
    (∀ join ∈ ((Switching.start ⟨∅, ∅⟩ host).run .canonical clientId text events).handled, join.2 = .ok ()) →
    ((Switching.start ⟨∅, ∅⟩ host).run .canonical clientId text events).view.hook = some hook →
    hook.args.channelId = some k →
    ∀ k', c ∈ ((Switching.start ⟨∅, ∅⟩ host).run .canonical clientId text events).host.server.members
      k' ↔ k' = k := by
  intro hall
  have hargs : (switched [1, 0]).view.hook.map Hook.args = some ⟨some ⟨2⟩, some ⟨3⟩⟩ := by decide +kernel
  obtain ⟨hook, hhook, hargs⟩ := Option.map_eq_some_iff.1 hargs
  have honly := hall twoChannels (ascii "00000000-0000-0000-0000-000000000002") ⟨2⟩ idText
    (twoSwitches [1, 0]) hook ⟨3⟩
    twoChannels_reached (by decide +kernel) (mounted_twoSwitches [1, 0]) (by decide +kernel)
      (by decide +kernel) hhook
    (by rw [hargs]) ⟨3⟩
  have hout : ⟨2⟩ ∉ (switched [1, 0]).host.server.members ⟨3⟩ := by decide +kernel
  exact hout (honly.2 rfl)

end Bcmd.Web
