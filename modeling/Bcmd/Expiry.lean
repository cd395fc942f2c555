import Bcmd.MembershipRequest

/-!
# Heartbeats during a sweep

`ExpireInactiveClients::run` collects the expired sessions first and removes them one by one later.
A session whose heartbeat falls between the two is removed although it is no longer expired.
-/

namespace Bcmd
open Server

section
variable {ι : Type} (order : BucketOrder) (deadline : Int) (uuid : UuidLib) (clientIds : ι → Bytes)

/-- The sweep, and one heartbeat request for each `i`. -/
def sweeping (s : Server) : Config Server (Option ι) Call Call.Res (Reply Unit) where
  state := s
  threads
    | none => do
      let _ ← ExpireInactiveClients.run order deadline
      return .ok ()
    | some i => BroadcastService.Heartbeat uuid (clientIds i)

end

/-! ### The two properties -/

section
variable {ι : Type} (deadline : Int) (tr : List (Event Server (Option ι) Call Call.Res (Reply Unit)))

/-- Every session is expired when it is removed, and a client keeps its session once a heartbeat of it is
answered OK at the deadline or after. -/
structure SparesLive (final : Server) : Prop where
  expired : ∀ e ∈ tr, ∀ c cs, e.call = .clients (.remove c) → e.pre.state.session c = some cs →
    cs.lastHeartbeatAt < deadline
  keeps : ∀ e ∈ tr, ∀ c, e.call = .clients (.touchHeartbeat c) → deadline ≤ e.pre.state.steadyNow →
    (handle (.clients (.touchHeartbeat c)) e.pre.state).1 = .ok () → final.session c ≠ none

/-- No client that the sweep removes has a heartbeat at the deadline or after between the collection and
its removal. -/
def WindowQuiet : Prop :=
  ∀ tr₁ e tr₂ r tr₃, tr = tr₁ ++ e :: (tr₂ ++ r :: tr₃) →
    (∃ order deadline, e.call = .clients (.collectExpired order deadline)) →
    ∀ c, r.call = .clients (.remove c) → r.pre.state.session c ≠ none →
      ∀ h ∈ tr₂, h.call = .clients (.touchHeartbeat c) → h.pre.state.steadyNow < deadline

end

/-! ### The calls of the threads -/

/-- What the sweep calls once it has collected: of the registry, only the removal of a collected client. -/
def Removes (collected : List ClientId) : Call → Prop
  | .clients (.remove c) => c ∈ collected
  | .clients _ => False
  | _ => True

theorem removes_expireEach (order : BucketOrder) {collected : List ClientId} {expired : List ClientSession}
    (count : Nat) (h : ∀ cs ∈ expired, cs.id ∈ collected) :
    (ExpireInactiveClients.expireEach order count expired).Calls (Removes collected) := by
  induction expired generalizing count with
  | nil => trivial
  | cons cs expired ih =>
    simp only [ExpireInactiveClients.expireEach, Prog.perform_bind]
    refine .bind (calls_removeFromEach (fun _ => trivial) (fun _ => trivial) (fun _ _ _ _ => trivial) cs _)
      fun _ => ⟨h cs (List.mem_cons_self ..), fun _ => ?_⟩
    exact ⟨trivial, fun _ => ih (count + 1) fun cs' hcs' => h cs' (List.mem_cons_of_mem cs hcs')⟩

theorem heartbeat_calls (uuid : UuidLib) (clientId : Bytes) :
    (BroadcastService.Heartbeat uuid clientId).Calls fun o => ∃ c, o = .clients (.touchHeartbeat c) := by
  unfold BroadcastService.Heartbeat
  rcases BroadcastService.parseClient uuid clientId with _ | c
  · trivial
  · exact ⟨⟨c, rfl⟩, fun _ => trivial⟩

/-! ### What one step does to a session -/

/-- If the client has a session, it is expired. -/
def Stale (deadline : Int) (c : ClientId) (s : Server) : Prop :=
  ∀ cs, s.session c = some cs → cs.lastHeartbeatAt < deadline

/-- If the client has a session, it is not expired, and its next heartbeat will not make it so. -/
structure Alive (deadline : Int) (c : ClientId) (s : Server) : Prop where
  now : deadline ≤ s.steadyNow
  session : ∀ cs, s.session c = some cs → deadline ≤ cs.lastHeartbeatAt

section
variable {deadline : Int} {c : ClientId} {s s' : Server} {o : Call}

theorem lastHeartbeatAt_touched {cs : ClientSession}
    (hcs : (handle (.clients (.touchHeartbeat c)) s).2.session c = some cs) :
    cs.lastHeartbeatAt = s.steadyNow := by
  rw [session_touchHeartbeat, if_pos rfl] at hcs
  obtain ⟨cs₀, -, rfl⟩ := Option.map_eq_some_iff.1 hcs
  rfl

theorem Stale.step (h : Stale deadline c s) (ho : touches c o → o = .clients (.touchHeartbeat c) ∨
    o = .clients (.remove c)) (hnow : o = .clients (.touchHeartbeat c) → s.steadyNow < deadline) :
    Stale deadline c (handle o s).2 := by
  intro cs hcs
  by_cases ht : touches c o
  · rcases ho ht with rfl | rfl
    · rw [lastHeartbeatAt_touched hcs]
      exact hnow rfl
    · rw [session_remove, if_pos rfl] at hcs
      cases hcs
  · rw [session_handle o ht] at hcs
    exact h cs hcs

theorem Alive.step (h : Alive deadline c s) (ho : touches c o → o = .clients (.touchHeartbeat c) ∨
    o = .clients (.remove c)) : Alive deadline c (handle o s).2 := by
  refine ⟨by rw [handle_steadyNow]; exact h.now, fun cs hcs => ?_⟩
  by_cases ht : touches c o
  · rcases ho ht with rfl | rfl
    · rw [lastHeartbeatAt_touched hcs]
      exact h.now
    · rw [session_remove, if_pos rfl] at hcs
      cases hcs
  · rw [session_handle o ht] at hcs
    exact h.session cs hcs

theorem Alive.env (h : Alive deadline c s) (he : Env s s') : Alive deadline c s' := by
  refine ⟨h.now.trans he.steadyNow, fun cs hcs => h.session cs ?_⟩
  rwa [Server.session, he.clients] at hcs

theorem alive_touched (hnow : deadline ≤ s.steadyNow) :
    Alive deadline c (handle (.clients (.touchHeartbeat c)) s).2 :=
  ⟨hnow, fun _ hcs => by rw [lastHeartbeatAt_touched hcs]; exact hnow⟩

end

/-! ### Runs -/

section
variable {ι : Type} [DecidableEq ι] {order : BucketOrder} {deadline : Int} {uuid : UuidLib}
  {clientIds : ι → Bytes}
  {s : Server} {tr tr₁ tr₂ : List (Event Server (Option ι) Call Call.Res (Reply Unit))}
  {e : Event Server (Option ι) Call Call.Res (Reply Unit)}
  {m final : Config Server (Option ι) Call Call.Res (Reply Unit)} {c : ClientId}

/-- The sessions are changed by the removals of the sweep and by the heartbeats. -/
theorem sweeping_calls (h : Run ports Env (sweeping order deadline uuid clientIds s) tr final) (he : e ∈ tr) :
    e.thread = none ∧ (∀ c, touches c e.call → e.call = .clients (.remove c)) ∨
      ∃ c, e.call = .clients (.touchHeartbeat c) := by
  rcases hi : e.thread with _ | i
  · refine .inl ⟨rfl, (h.calls (i := none) (P := fun o => ∀ c, touches c o → o = .clients (.remove c))
      ?_).2 e he hi⟩
    refine ⟨nofun, fun expired => .bind ?_ fun _ => trivial⟩
    refine (removes_expireEach order 0 fun cs hcs => List.mem_map_of_mem hcs).mono fun o ho c ht => ?_
    rcases o with _ | (_ | _ | _ | d | d | _ | _ | _) | _ | _ | _ | _ | _
    case clients.remove => rw [show d = c from ht]
    all_goals first | exact ht.elim | exact ho.elim
  · exact .inr ((h.calls (i := some i) (heartbeat_calls uuid (clientIds i))).2 e he hi)

theorem touches_sweeping (h : Run ports Env (sweeping order deadline uuid clientIds s) tr final) (he : e ∈ tr)
    (ht : touches c e.call) : e.call = .clients (.touchHeartbeat c) ∨ e.call = .clients (.remove c) := by
  rcases sweeping_calls h he with ⟨-, hrem⟩ | ⟨d, hd⟩
  · exact .inr (hrem c ht)
  · rw [hd] at ht
    obtain rfl : d = c := ht
    exact .inl hd

/-- A removal has the collection before it, and the client it removes was collected. -/
theorem collected_of_remove
    (h : Run ports Env (sweeping order deadline uuid clientIds s) (tr ++ e :: tr₂) final)
    (he : e.call = .clients (.remove c)) :
    ∃ tr₁ e₀ tr₂, tr = tr₁ ++ e₀ :: tr₂ ∧ e₀.call = .clients (.collectExpired order.clients deadline) ∧
      ∃ cs, e₀.pre.state.session c = some cs ∧ cs.lastHeartbeatAt < deadline := by
  obtain ⟨hpre, hnext, -, -⟩ := h.at_event
  have hsweep : e.thread = none := by
    rcases sweeping_calls h (List.mem_append_right tr (List.mem_cons_self ..)) with ⟨hn, -⟩ | ⟨d, hd⟩
    · exact hn
    · rw [he] at hd; cases hd
  rw [hsweep, he] at hnext
  have hmoved : e.pre.threads none ≠ (sweeping order deadline uuid clientIds s).threads none := by
    intro heq
    rw [heq] at hnext
    cases hnext
  obtain ⟨tr₁, e₀, tr₂, rfl, hi₀, hfirst⟩ := hpre.first_event hmoved
  obtain ⟨hpre₀, hnext₀, -, hpost₀⟩ := hpre.at_event
  have hstart : e₀.pre.threads none = (sweeping order deadline uuid clientIds s).threads none :=
    hpre₀.threads_eq hfirst
  rw [hi₀, hstart] at hnext₀
  have hcall₀ : e₀.call = .clients (.collectExpired order.clients deadline) := (Option.some.inj hnext₀).symm
  refine ⟨tr₁, e₀, tr₂, rfl, hcall₀, ?_⟩
  -- from the collection on, the sweep removes only what it has collected
  have hcalls : ((e₀.pre.advance ports e₀.thread).threads none).Calls
      (Removes ((e₀.pre.state.clients.collectExpired order.clients deadline).map ClientSession.id)) := by
    rw [hi₀, Config.advance_threads_self hstart]
    exact .bind (removes_expireEach order 0 fun cs hcs => List.mem_map_of_mem hcs) fun _ => trivial
  obtain ⟨k, hk⟩ := Prog.eq_call_of_next hnext
  have hmem := (hpost₀.calls hcalls).1
  rw [hk] at hmem
  obtain ⟨cs, hcs, rfl⟩ := List.mem_map.1 hmem.1
  obtain ⟨hfind, hexp⟩ := InMemoryClientRegistry.mem_collectExpired.1 hcs
  exact ⟨cs, hfind, hexp⟩

/-- With quiet windows, a session is as expired at its removal as it was when it was collected. -/
theorem expired_of_quiet (h : Run ports Env (sweeping order deadline uuid clientIds s) tr final)
    (hquiet : WindowQuiet deadline tr) : ∀ e ∈ tr, ∀ c cs, e.call = .clients (.remove c) →
      e.pre.state.session c = some cs → cs.lastHeartbeatAt < deadline := by
  intro e he c cs hcall hcs
  obtain ⟨tr', tr₃, rfl⟩ := List.append_of_mem he
  obtain ⟨tr₁, e₀, tr₂, rfl, hcall₀, cs₀, hcs₀, hexp₀⟩ := collected_of_remove h hcall
  obtain ⟨-, hnext₀, -, hpost⟩ := h.at_event.1.at_event
  have hquiet' : ∀ h ∈ tr₂, h.call = .clients (.touchHeartbeat c) → h.pre.state.steadyNow < deadline :=
    hquiet tr₁ e₀ tr₂ e tr₃ (by simp) ⟨_, _, hcall₀⟩ c hcall (by rw [hcs]; exact Option.some_ne_none _)
  have hstale : Stale deadline c e.pre.state := by
    refine hpost.state_inv (I := Stale deadline c) ?_ (fun s s' hs he => ?_) fun e' he' hs _ => ?_
    · rw [Config.advance_state hnext₀, hcall₀]
      intro cs' hcs'
      obtain rfl : cs₀ = cs' := Option.some.inj (hcs₀.symm.trans hcs')
      exact hexp₀
    · rw [Stale, Server.session, he.clients]
      exact hs
    · exact hs.step (touches_sweeping h (by simp [he'])) (hquiet' e' he')
  exact hstale cs hcs

/-- After a heartbeat at the deadline or later, the client's session is not expired again. -/
theorem alive_after (h : Run ports Env (sweeping order deadline uuid clientIds s) (tr₁ ++ e :: tr₂) m)
    (hcall : e.call = .clients (.touchHeartbeat c)) (hnow : deadline ≤ e.pre.state.steadyNow) :
    Alive deadline c m.state := by
  obtain ⟨-, hnext, -, hpost⟩ := h.at_event
  refine hpost.state_inv ?_ (fun _ _ hs he => hs.env he) fun e' he' hs _ => ?_
  · rw [Config.advance_state hnext, hcall]
    exact alive_touched hnow
  · exact hs.step (touches_sweeping h (by simp [he']))

/-- If only expired sessions are removed, such a client keeps its session. -/
theorem kept_after (h : Run ports Env (sweeping order deadline uuid clientIds s) (tr₁ ++ e :: tr₂) final)
    (hexpired : ∀ e' ∈ tr₂, ∀ cs, e'.call = .clients (.remove c) → e'.pre.state.session c = some cs →
      cs.lastHeartbeatAt < deadline)
    (hcall : e.call = .clients (.touchHeartbeat c)) (hnow : deadline ≤ e.pre.state.steadyNow)
    (hok : (handle (.clients (.touchHeartbeat c)) e.pre.state).1 = .ok ()) :
    final.state.session c ≠ none := by
  obtain ⟨-, hnext, -, hpost⟩ := h.at_event
  have hsome : e.pre.state.session c ≠ none := by
    intro hnone
    rw [fst_touchHeartbeat, if_pos hnone] at hok
    cases hok
  have hplain : Plain (.clients (.touchHeartbeat c)) := trivial
  refine (hpost.state_inv (I := fun s => Alive deadline c s ∧ s.session c ≠ none) ?_ (fun s s' hs he => ?_)
    fun e' he' hs _ => ?_).2
  · rw [Config.advance_state hnext, hcall]
    exact ⟨alive_touched hnow, fun hnone => hsome ((session_eq_none_iff hplain ..).1 hnone)⟩
  · refine ⟨hs.1.env he, ?_⟩
    rw [Server.session, he.clients]
    exact hs.2
  · have htouches := touches_sweeping (c := c) h (by simp [he'] : e' ∈ tr₁ ++ e :: tr₂)
    refine ⟨hs.1.step htouches, ?_⟩
    show (handle e'.call e'.pre.state).2.session c ≠ none
    by_cases ht : touches c e'.call
    · rcases htouches ht with hc' | hc'
      · rw [hc', Ne, session_eq_none_iff hplain]
        exact hs.2
      · -- a removal now would find a session that is not expired
        obtain ⟨cs, hcs⟩ := Option.ne_none_iff_exists'.1 hs.2
        have hexp := hexpired e' he' cs hc' hcs
        have halive := hs.1.session cs hcs
        omega
    · rw [session_handle _ ht]
      exact hs.2

/-- The sweep removes only sessions that are still expired, and no client loses its session after a
heartbeat at the deadline or later, exactly if the windows of the sweep are quiet. -/
theorem spares_live_iff (h : Run ports Env (sweeping order deadline uuid clientIds s) tr final) :
    SparesLive deadline tr final.state ↔ WindowQuiet deadline tr := by
  constructor
  · rintro ⟨hexpired, -⟩ tr₁ e tr₂ r tr₃ rfl - c hr hsome h' hmem htouch
    by_contra hlate
    obtain ⟨a, b, rfl⟩ := List.append_of_mem hmem
    have htr : tr₁ ++ e :: (a ++ h' :: b ++ r :: tr₃) = (tr₁ ++ e :: a) ++ h' :: b ++ r :: tr₃ := by simp
    rw [htr] at h
    obtain ⟨cs, hcs⟩ := Option.ne_none_iff_exists'.1 hsome
    have halive := (alive_after h.at_event.1 htouch (Int.not_lt.1 hlate)).session cs hcs
    have hexp := hexpired r (by simp) c cs hr hcs
    omega
  · intro hquiet
    have hexpired := expired_of_quiet h hquiet
    refine ⟨hexpired, fun e he c hcall hnow hok => ?_⟩
    obtain ⟨tr₁, tr₂, rfl⟩ := List.append_of_mem he
    exact kept_after h (fun e' he' cs => hexpired e' (by simp [he']) c cs) hcall hnow hok

end

/-! A sweep at time 10, and a heartbeat of the one client, last heard of at time 0, after the collection. -/

def tenLater : Host := { oneConnected with server := { oneConnected.server with steadyNow := 10 } }

theorem tenLater_reached : Host.Reached .canonical (.initial 200 0 0) tenLater :=
  oneConnected_reached.env ⟨rfl, rfl, rfl, rfl, rfl, Finset.Subset.refl _, by decide +kernel, le_refl _⟩

def heartbeatMeanwhile (deadline : Int) :=
  schedule ports (sweeping .byId deadline .canonical
    (fun _ : Unit => ascii "00000000-0000-0000-0000-000000000002") tenLater.server)
    [none, some (), none, none]

theorem heartbeatMeanwhile_run (deadline : Int) :
    Run ports Env (sweeping .byId deadline .canonical
      (fun _ : Unit => ascii "00000000-0000-0000-0000-000000000002") tenLater.server)
      (heartbeatMeanwhile deadline).1 (heartbeatMeanwhile deadline).2 :=
  run_schedule ..

theorem spares_live_iff_heartbeatMeanwhile :
    SparesLive 11 (heartbeatMeanwhile 11).1 (heartbeatMeanwhile 11).2.state := by
  refine (spares_live_iff (heartbeatMeanwhile_run 11)).2 fun tr₁ e tr₂ r tr₃ htr _ c _ _ h hh _ => ?_
  have hall : ∀ h ∈ (heartbeatMeanwhile 11).1, h.pre.state.steadyNow < 11 := by decide +kernel
  exact hall h (by rw [htr]; simp [hh])

theorem live_client_expired : ¬ ∀ (uuid : UuidLib) (host : Host),
    Host.Reached uuid (.initial 200 0 0) host →
    ∀ (ι : Type) [DecidableEq ι] (order : BucketOrder) (deadline : Int) (clientIds : ι → Bytes)
      (tr : List (Event Server (Option ι) Call Call.Res (Reply Unit)))
      (final : Config Server (Option ι) Call Call.Res (Reply Unit)),
      Run ports Env (sweeping order deadline uuid clientIds host.server) tr final →
      SparesLive deadline tr final.state := by
  intro hall
  have hspares := hall _ _ tenLater_reached _ _ _ _ _ _ (heartbeatMeanwhile_run 5)
  have hlen : 1 < (heartbeatMeanwhile 5).1.length := by decide +kernel
  have hlate : (heartbeatMeanwhile 5).1[1].pre.state.steadyNow = 10 := rfl
  exact hspares.keeps _ (List.getElem_mem hlen) ⟨2⟩ rfl (by rw [hlate]; decide) rfl (by decide +kernel)

end Bcmd
