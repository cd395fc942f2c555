import Bcmd.Expiry
import Bcmd.LiveOnly
import Bcmd.Registry

/-!
# The heartbeat sweeper

`adapter/grpc/heartbeat_sweeper.cpp`: a thread that sleeps in short naps until its next sweep is due, sweeps
and starts over, until it is told to stop. It runs beside any number of requests, whose calls interleave
with those of a sweep, and the clock goes on between any two steps.
-/

namespace Bcmd
open Server

/-- Durations in ticks of the steady clock. -/
structure HeartbeatSweeper where
  sweepInterval : Int
  heartbeatTimeout : Int
  /-- `std::chrono::milliseconds(200)` -/
  nap : Int
  sweepInterval_pos : 0 < sweepInterval
  heartbeatTimeout_pos : 0 < heartbeatTimeout

namespace HeartbeatSweeper

/-- A second of the steady clock, which counts nanoseconds. -/
def second : Int := 1000000000

/-- The options of `main.cpp`: without a timeout there is no sweeper, and with a timeout but no interval the
server does not start. -/
def ofOptions (heartbeatTimeoutSecs heartbeatSweepIntervalSecs : UInt32) : Option (Option HeartbeatSweeper) :=
  if htimeout : heartbeatTimeoutSecs.toNat = 0 then some none
  else if hinterval : heartbeatSweepIntervalSecs.toNat = 0 then none
  else some (some {
    sweepInterval := heartbeatSweepIntervalSecs.toNat * second
    heartbeatTimeout := heartbeatTimeoutSecs.toNat * second
    nap := 200000000
    sweepInterval_pos := by unfold second; omega
    heartbeatTimeout_pos := by unfold second; omega })

/-- There is a sweeper when both options are set, and its intervals are theirs, in seconds. -/
theorem ofOptions_eq_some {heartbeatTimeoutSecs heartbeatSweepIntervalSecs : UInt32}
    {sweeper : HeartbeatSweeper} :
    ofOptions heartbeatTimeoutSecs heartbeatSweepIntervalSecs = some (some sweeper) ↔
      heartbeatTimeoutSecs.toNat ≠ 0 ∧ heartbeatSweepIntervalSecs.toNat ≠ 0 ∧
        sweeper.sweepInterval = heartbeatSweepIntervalSecs.toNat * second ∧
        sweeper.heartbeatTimeout = heartbeatTimeoutSecs.toNat * second ∧ sweeper.nap = 200000000 := by
  unfold ofOptions
  split
  · simp [*]
  split
  · simp [*]
  · rcases sweeper with ⟨sweepInterval, heartbeatTimeout, nap, -, -⟩
    simp only [Option.some.injEq, mk.injEq]
    constructor
    · rintro ⟨rfl, rfl, rfl⟩
      exact ⟨‹_›, ‹_›, rfl, rfl, rfl⟩
    · rintro ⟨-, -, rfl, rfl, rfl⟩
      exact ⟨rfl, rfl, rfl⟩

/-- Where the thread is in `loop`. -/
inductive Pc
  /-- `while (!stop.stop_requested())` -/
  | outer
  /-- `sleep_until_t` is computed next. -/
  | arming
  /-- `while (steady_clock::now() < sleep_until_t && ...` -/
  | inner (sleepUntil : Int)
  /-- `... && !stop.stop_requested())` -/
  | innerStop (sleepUntil : Int)
  | asleep (wake sleepUntil : Int)
  /-- `if (stop.stop_requested()) break;` -/
  | woken
  /-- `deadline` is computed next. -/
  | due
  /-- `expire_->run(deadline)`, with what it has yet to do. -/
  | running (deadline : Int) (task : Task Nat)
  | stopped

/-- The server with its sweeper and the requests it is handling. -/
structure State (ι α : Type) where
  server : Server
  pc : Pc
  stop : Bool
  requests : ι → Task α

/-- What a step shows of the sweeps. -/
inductive Label
  | silent
  | began (deadline : Int)
  | ended (deadline : Int)
deriving DecidableEq

section
variable {ι α : Type} [DecidableEq ι] (sweeper : HeartbeatSweeper)

inductive Step : State ι α → Label → State ι α → Prop
  | env {x s'} (he : Env x.server s') : Step x .silent { x with server := s' }
  | request {x i o k} (hk : x.requests i = .call o k) (he : Server.enabled o x.server) :
      Step x .silent { x with
        server := (handle o x.server).2
        requests := Function.update x.requests i (k (handle o x.server).1) }
  | requestStop {x} : Step x .silent { x with stop := true }
  | outer {x} (hpc : x.pc = .outer) :
      Step x .silent { x with pc := if x.stop then .stopped else .arming }
  | arm {x} (hpc : x.pc = .arming) :
      Step x .silent { x with pc := .inner (x.server.steadyNow + sweeper.sweepInterval) }
  | inner {x sleepUntil} (hpc : x.pc = .inner sleepUntil) :
      Step x .silent { x with pc := if x.server.steadyNow < sleepUntil then .innerStop sleepUntil else .woken }
  | innerStop {x sleepUntil} (hpc : x.pc = .innerStop sleepUntil) :
      Step x .silent { x with
        pc := if x.stop then .woken else .asleep (x.server.steadyNow + sweeper.nap) sleepUntil }
  | wake {x wake sleepUntil} (hpc : x.pc = .asleep wake sleepUntil) (hnow : wake ≤ x.server.steadyNow) :
      Step x .silent { x with pc := .inner sleepUntil }
  | woken {x} (hpc : x.pc = .woken) : Step x .silent { x with pc := if x.stop then .stopped else .due }
  | begin {x} (order : BucketOrder) (hpc : x.pc = .due) :
      Step x (.began (x.server.steadyNow - sweeper.heartbeatTimeout)) { x with
        pc := .running (x.server.steadyNow - sweeper.heartbeatTimeout)
          (ExpireInactiveClients.run order (x.server.steadyNow - sweeper.heartbeatTimeout)) }
  | sweep {x deadline o k} (hpc : x.pc = .running deadline (.call o k)) (he : Server.enabled o x.server) :
      Step x .silent { x with
        server := (handle o x.server).2
        pc := .running deadline (k (handle o x.server).1) }
  | finish {x deadline count} (hpc : x.pc = .running deadline (.ret count)) :
      Step x (.ended deadline) { x with pc := .outer }

/-- Steps one after the other, each with the state it was made in. -/
inductive Steps (x : State ι α) : List (State ι α × Label) → State ι α → Prop
  | refl : Steps x [] x
  | step {tr y l z} (h : Steps x tr y) (hstep : sweeper.Step y l z) : Steps x (tr ++ [(y, l)]) z

/-- The deadlines of the sweeps that have begun. -/
def sweeps (tr : List (State ι α × Label)) : List Int :=
  tr.filterMap fun e =>
    match e.2 with
    | .began deadline => some deadline
    | _ => none

end

/-! ### Pace -/

section
variable {ι α : Type} [DecidableEq ι] {sweeper : HeartbeatSweeper} {x y z : State ι α} {l : Label}
  {tr : List (State ι α × Label)} {d : Int}

omit [DecidableEq ι] in
@[simp] theorem sweeps_snoc_silent : sweeps (tr ++ [(y, .silent)]) = sweeps tr := by
  simp [sweeps, List.filterMap_append]

omit [DecidableEq ι] in
@[simp] theorem sweeps_snoc_ended : sweeps (tr ++ [(y, .ended d)]) = sweeps tr := by
  simp [sweeps, List.filterMap_append]

omit [DecidableEq ι] in
@[simp] theorem sweeps_snoc_began : sweeps (tr ++ [(y, .began d)]) = sweeps tr ++ [d] := by
  simp [sweeps, List.filterMap_append]

omit [DecidableEq ι] in
theorem sweeps_append (tr tr' : List (State ι α × Label)) : sweeps (tr ++ tr') = sweeps tr ++ sweeps tr' :=
  List.filterMap_append ..

/-- What a run keeps that every step keeps. -/
theorem Steps.inv {I : List (State ι α × Label) → State ι α → Prop} (h : sweeper.Steps x tr y)
    (h0 : I [] x)
    (hstep : ∀ tr y l z, sweeper.Steps x tr y → I tr y → sweeper.Step y l z → I (tr ++ [(y, l)]) z) :
    I tr y := by
  induction h with
  | refl => exact h0
  | step h hs ih => exact hstep _ _ _ _ h ih hs

theorem Steps.trans {tr' : List (State ι α × Label)} (h : sweeper.Steps x tr y) (h' : sweeper.Steps y tr' z) :
    sweeper.Steps x (tr ++ tr') z := by
  induction h' with
  | refl => rwa [List.append_nil]
  | step _ hs ih =>
    rw [← List.append_assoc]
    exact ih.step hs

/-- How long ago a sweep with deadline `d` began, from where the thread is now. -/
def Paced (sweeper : HeartbeatSweeper) (d : Int) (x : State ι α) : Prop :=
  match x.pc with
  | .outer | .arming | .running _ _ => d + sweeper.heartbeatTimeout ≤ x.server.steadyNow
  | .inner sleepUntil | .innerStop sleepUntil | .asleep _ sleepUntil =>
    d + sweeper.heartbeatTimeout + sweeper.sweepInterval ≤ sleepUntil
  | .woken => x.stop = true ∨ d + sweeper.heartbeatTimeout + sweeper.sweepInterval ≤ x.server.steadyNow
  | .due => d + sweeper.heartbeatTimeout + sweeper.sweepInterval ≤ x.server.steadyNow
  | .stopped => True

theorem Paced.step (h : Paced sweeper d x) (hs : sweeper.Step x l y) : Paced sweeper d y := by
  have hpos := sweeper.sweepInterval_pos
  cases hs with
  | env he =>
    have hnow := he.steadyNow
    unfold Paced at h ⊢
    cases hpc : x.pc <;> simp only [hpc] at h ⊢ <;> first | exact h | omega | skip
    rcases h with h | h
    · exact .inl h
    · exact .inr (by omega)
  | request hk he =>
    unfold Paced at h ⊢
    simpa only [handle_steadyNow] using h
  | requestStop =>
    unfold Paced at h ⊢
    cases hpc : x.pc <;> simp only [hpc] at h ⊢ <;> first | exact h | exact .inl trivial
  | outer hpc =>
    simp only [Paced, hpc] at h
    unfold Paced
    cases x.stop
    · exact h
    · trivial
  | arm hpc =>
    simp only [Paced, hpc] at h ⊢
    omega
  | @inner sleepUntil hpc =>
    simp only [Paced, hpc] at h
    by_cases hnow : x.server.steadyNow < sleepUntil
    · simp only [Paced, hnow, if_true]
      exact h
    · simp only [Paced, hnow, if_false]
      right
      omega
  | @innerStop sleepUntil hpc =>
    simp only [Paced, hpc] at h
    unfold Paced
    cases hstop : x.stop
    · exact h
    · exact .inl rfl
  | wake hpc hnow =>
    simp only [Paced, hpc] at h ⊢
    exact h
  | woken hpc =>
    simp only [Paced, hpc] at h
    unfold Paced
    cases hstop : x.stop
    · rcases h with h | h
      · rw [hstop] at h
        cases h
      · exact h
    · trivial
  | begin order hpc =>
    simp only [Paced, hpc] at h ⊢
    omega
  | sweep hpc he =>
    simp only [Paced, hpc, handle_steadyNow] at h ⊢
    exact h
  | finish hpc =>
    simp only [Paced, hpc] at h ⊢
    exact h

/-- A sweep begins an interval after the last one at the earliest, and its deadline is the timeout ago. -/
theorem Paced.begin {d' : Int} (h : Paced sweeper d x) (hs : sweeper.Step x (.began d') y) :
    d + sweeper.sweepInterval ≤ d' := by
  cases hs with
  | begin order hpc =>
    simp only [Paced, hpc] at h
    omega

theorem paced_began (hs : sweeper.Step x (.began d) y) : Paced sweeper d y := by
  cases hs with
  | begin order hpc =>
    unfold Paced
    simp

theorem paced_run (h : sweeper.Steps x tr y) :
    (sweeps tr).Pairwise (fun d d' => d + sweeper.sweepInterval ≤ d') ∧
      ∀ d ∈ sweeps tr, Paced sweeper d y := by
  refine h.inv (I := fun tr y => (sweeps tr).Pairwise (fun d d' => d + sweeper.sweepInterval ≤ d') ∧
    ∀ d ∈ sweeps tr, Paced sweeper d y) ⟨.nil, by simp [sweeps]⟩ ?_
  intro tr y l z _ ⟨hpair, hpaced⟩ hs
  have hold : ∀ d ∈ sweeps tr, Paced sweeper d z := fun d hd => (hpaced d hd).step hs
  cases l with
  | silent =>
    rw [sweeps_snoc_silent]
    exact ⟨hpair, hold⟩
  | ended d =>
    rw [sweeps_snoc_ended]
    exact ⟨hpair, hold⟩
  | began d' =>
    rw [sweeps_snoc_began]
    refine ⟨List.pairwise_append.2 ⟨hpair, List.pairwise_singleton .., ?_⟩, ?_⟩
    · intro d hd e he
      rw [List.mem_singleton.1 he]
      exact (hpaced d hd).begin hs
    · intro d hd
      rcases List.mem_append.1 hd with hd | hd
      · exact hold d hd
      · rw [List.mem_singleton.1 hd]
        exact paced_began hs

/-- As many seconds apart as the option says. -/
theorem seconds_apart {heartbeatTimeoutSecs heartbeatSweepIntervalSecs : UInt32}
    (hoptions : ofOptions heartbeatTimeoutSecs heartbeatSweepIntervalSecs = some (some sweeper))
    (h : sweeper.Steps x tr y) :
    (sweeps tr).Pairwise fun d d' => d + heartbeatSweepIntervalSecs.toNat * second ≤ d' := by
  obtain ⟨-, -, hinterval, -⟩ := ofOptions_eq_some.1 hoptions
  rw [← hinterval]
  exact (paced_run h).1

/-! ### The stop -/

/-- How many sweeps the thread will begin although it is told to stop: the one it does not look for the stop
before. -/
def Pc.committed : Pc → Nat
  | .due => 1
  | _ => 0

theorem committed_step (hstop : x.stop = true) (hs : sweeper.Step x l y) :
    y.stop = true ∧ (sweeps [(x, l)]).length + y.pc.committed ≤ x.pc.committed := by
  cases hs with
  | env he => exact ⟨hstop, by simp [sweeps]⟩
  | request hk he => exact ⟨hstop, by simp [sweeps]⟩
  | requestStop => exact ⟨rfl, by simp [sweeps]⟩
  | outer hpc => exact ⟨hstop, by simp [sweeps, hstop, Pc.committed]⟩
  | arm hpc => exact ⟨hstop, by simp [sweeps, Pc.committed]⟩
  | inner hpc =>
    refine ⟨hstop, ?_⟩
    show 0 + (if _ then _ else _ : Pc).committed ≤ _
    split <;> simp [Pc.committed]
  | innerStop hpc => exact ⟨hstop, by simp [sweeps, hstop, Pc.committed]⟩
  | wake hpc hnow => exact ⟨hstop, by simp [sweeps, Pc.committed]⟩
  | woken hpc => exact ⟨hstop, by simp [sweeps, hstop, Pc.committed]⟩
  | begin order hpc => exact ⟨hstop, by simp [sweeps, hpc, Pc.committed]⟩
  | sweep hpc he => exact ⟨hstop, by simp [sweeps, Pc.committed]⟩
  | finish hpc => exact ⟨hstop, by simp [sweeps, Pc.committed]⟩

theorem committed_run (h : sweeper.Steps x tr y) (hstop : x.stop = true) :
    y.stop = true ∧ (sweeps tr).length + y.pc.committed ≤ x.pc.committed := by
  refine h.inv (I := fun tr y => y.stop = true ∧ (sweeps tr).length + y.pc.committed ≤ x.pc.committed)
    ⟨hstop, by simp [sweeps]⟩ ?_
  intro tr y l z _ ⟨hy, hcount⟩ hs
  obtain ⟨hz, hstep⟩ := committed_step hy hs
  refine ⟨hz, ?_⟩
  rw [sweeps_append, List.length_append]
  omega

/-- The sweeps of a run begin an interval apart at least; once the stop is requested, at most one more
begins, and only if the thread had looked for the stop before. -/
theorem sweeps_paced (h : sweeper.Steps x tr y) :
    (sweeps tr).Pairwise (fun d d' => d + sweeper.sweepInterval ≤ d') ∧
      (x.stop = true → (sweeps tr).length ≤ 1 ∧ (sweeps tr ≠ [] → x.pc = .due)) := by
  refine ⟨(paced_run h).1, fun hstop => ?_⟩
  have hcount := (committed_run h hstop).2
  have hone : x.pc.committed ≤ 1 := by cases x.pc <;> simp [Pc.committed]
  refine ⟨by omega, fun hne => ?_⟩
  have hpos := List.length_pos_iff.2 hne
  cases hpc : x.pc <;> simp only [hpc, Pc.committed] at hcount <;> first | rfl | omega

/-! ### What a sweep leaves -/

omit [DecidableEq ι] in
/-- A session was heard of when a call was made, or when it was heard of before the call. -/
theorem heard_step {s : Server} {o : Call} {c : ClientId} {cs : ClientSession} (hs : s.Registered)
    (hcs : (handle o s).2.session c = some cs) :
    cs.lastHeartbeatAt = s.steadyNow ∨
      ∃ old, s.session c = some old ∧ old.lastHeartbeatAt = cs.lastHeartbeatAt := by
  let made : Event Server Unit Call Call.Res Unit := ⟨⟨s, fun _ => .ret ()⟩, (), o⟩
  have hbeat := beat_step (e := made) hs hcs
  rcases hbeat with hbeat | ⟨-, hold⟩
  · left
    have hnow : ∀ {p : Prop} [Decidable p], (if p then some s.steadyNow else none) = some cs.lastHeartbeatAt →
        cs.lastHeartbeatAt = s.steadyNow := by
      intro p _ h
      split at h
      · exact (Option.some.inj h).symm
      · cases h
    unfold beatOf at hbeat
    split at hbeat
    · exact hnow hbeat
    · exact hnow hbeat
    · cases hbeat
  · exact .inr hold

/-- The program removes the session of each of these clients, whatever the answers. -/
def Clears {β : Type} : Finset ClientId → Task β → Prop
  | cs, .ret _ => cs = ∅
  | cs, .call (.clients (.remove c)) k => ∀ r, Clears (cs.erase c) (k r)
  | cs, .call _ k => ∀ r, Clears cs (k r)

/-- No client has a session that was last heard of before `d`, these excepted. -/
def FreshBut (d : Int) (cs : Finset ClientId) (s : Server) : Prop :=
  ∀ c session, s.session c = some session → session.lastHeartbeatAt < d → c ∈ cs

/-- A call that is no removal. -/
def NoRemoval (o : Call) : Prop := ∀ c, o ≠ .clients (.remove c)

section
variable {β γ : Type} {cs cs' : Finset ClientId} {o : Call} {s s' : Server} {c : ClientId}

theorem clears_call {k : o.Res → Task β} (ho : NoRemoval o) :
    Clears cs (.call o k) ↔ ∀ r, Clears cs (k r) := by
  rcases o with o | (_ | _ | _ | d | _ | _ | _ | _) | o | o | o | _ | _
  case clients.remove => exact absurd rfl (ho d)
  all_goals rfl

theorem clears_bind {p : Task β} {f : β → Task γ} (hp : p.Calls NoRemoval) (hf : ∀ a, Clears cs (f a)) :
    Clears cs (p >>= f) := by
  induction p with
  | ret a => exact hf a
  | call o k ih =>
    rw [Prog.call_bind, clears_call hp.1]
    exact fun r => ih r (hp.2 r)

theorem Clears.mono {p : Task β} (h : Clears cs p) (hsub : cs' ⊆ cs) : Clears cs' p := by
  induction p generalizing cs cs' with
  | ret a =>
    obtain rfl : cs = ∅ := h
    exact Finset.subset_empty.1 hsub
  | call o k ih =>
    by_cases ho : NoRemoval o
    · rw [clears_call ho] at h ⊢
      exact fun r => ih r (h r) hsub
    · unfold NoRemoval at ho
      rw [not_forall] at ho
      obtain ⟨c, hc⟩ := ho
      rw [not_not] at hc
      subst hc
      exact fun r => ih r (h r) (Finset.erase_subset_erase c hsub)

theorem clears_expireEach (order : BucketOrder) (count : Nat) (expired : List ClientSession) :
    Clears (expired.map ClientSession.id).toFinset (ExpireInactiveClients.expireEach order count expired) := by
  induction expired generalizing count with
  | nil => rfl
  | cons session expired ih =>
    refine clears_bind (calls_removeFromEach (by simp [NoRemoval]) (by simp [NoRemoval]) (by simp [NoRemoval])
      session _) fun _ => fun _ => ?_
    refine (clears_call (by simp [NoRemoval])).2 fun _ => (ih (count + 1)).mono ?_
    intro c hc
    have hmem := Finset.mem_of_mem_erase hc
    have hne := Finset.ne_of_mem_erase hc
    simp only [List.map_cons, List.toFinset_cons, Finset.mem_insert] at hmem
    exact hmem.resolve_left hne

theorem FreshBut.handle (h : FreshBut d cs s) (hs : s.Registered) (hnow : d ≤ s.steadyNow) (o : Call) :
    FreshBut d cs (handle o s).2 := by
  intro c session hsession hlt
  rcases heard_step hs hsession with heq | ⟨old, hold, heq⟩
  · omega
  · exact h c old hold (by omega)

theorem FreshBut.remove (h : FreshBut d cs s) (c : ClientId) :
    FreshBut d (cs.erase c) (Server.handle (.clients (.remove c)) s).2 := by
  intro c' session hsession hlt
  rw [session_remove] at hsession
  split at hsession
  · cases hsession
  · exact Finset.mem_erase.2 ⟨‹_›, h c' session hsession hlt⟩

theorem FreshBut.env (h : FreshBut d cs s) (he : Env s s') : FreshBut d cs s' := by
  intro c session hsession hlt
  refine h c session ?_ hlt
  rwa [Server.session, he.clients] at hsession

theorem freshBut_collected (s : Server) (order : IterOrder ClientId) (d : Int) :
    FreshBut d ((s.clients.collectExpired order d).map ClientSession.id).toFinset s := by
  intro c session hsession hlt
  rw [List.mem_toFinset, List.mem_map]
  refine ⟨session, InMemoryClientRegistry.mem_collectExpired.2 ⟨?_, hlt⟩, id_of_session hsession⟩
  rw [id_of_session hsession]
  exact hsession

end

/-- What is left of the sweep removes whoever is not fresh. -/
structure Swept (x : State ι α) : Prop where
  registered : x.server.Registered
  running : ∀ d task, x.pc = .running d task → d ≤ x.server.steadyNow ∧
    ((∃ order, task = ExpireInactiveClients.run order d) ∨ ∃ cs, Clears cs task ∧ FreshBut d cs x.server)

omit [DecidableEq ι] in
theorem Swept.idle (h : Swept x) (hserver : y.server = x.server)
    (hpc : ∀ d task, y.pc ≠ .running d task) : Swept y where
  registered := by rw [hserver]; exact h.registered
  running d task hrun := absurd hrun (hpc d task)

theorem Swept.step (h : Swept x) (hs : sweeper.Step x l y) : Swept y := by
  cases hs with
  | env he =>
    refine ⟨h.registered.env he, fun d task hpc => ?_⟩
    obtain ⟨hnow, hleft⟩ := h.running d task hpc
    refine ⟨hnow.trans he.steadyNow, hleft.imp_right ?_⟩
    rintro ⟨cs, hclears, hfresh⟩
    exact ⟨cs, hclears, hfresh.env he⟩
  | @request i o k hk he =>
    refine ⟨h.registered.handle o, fun d task hpc => ?_⟩
    obtain ⟨hnow, hleft⟩ := h.running d task hpc
    refine ⟨hnow.trans (handle_steadyNow x.server o).ge, hleft.imp_right ?_⟩
    rintro ⟨cs, hclears, hfresh⟩
    exact ⟨cs, hclears, hfresh.handle h.registered hnow o⟩
  | requestStop => exact ⟨h.registered, h.running⟩
  | begin order hpc =>
    refine ⟨h.registered, fun d task hrun => ?_⟩
    cases hrun
    have hpos := sweeper.heartbeatTimeout_pos
    refine ⟨?_, .inl ⟨order, rfl⟩⟩
    show x.server.steadyNow - sweeper.heartbeatTimeout ≤ x.server.steadyNow
    omega
  | @sweep deadline o k hpc he =>
    obtain ⟨hnow, hleft⟩ := h.running deadline _ hpc
    refine ⟨h.registered.handle o, fun d task hrun => ?_⟩
    cases hrun
    refine ⟨hnow.trans (handle_steadyNow x.server o).ge, .inr ?_⟩
    rcases hleft with ⟨order, htask⟩ | ⟨cs, hclears, hfresh⟩
    · cases htask
      exact ⟨_, clears_expireEach order 0 _, freshBut_collected x.server order.clients deadline⟩
    · by_cases ho : NoRemoval o
      · exact ⟨cs, (clears_call ho).1 hclears _, hfresh.handle h.registered hnow o⟩
      · unfold NoRemoval at ho
        rw [not_forall] at ho
        obtain ⟨c, hc⟩ := ho
        rw [not_not] at hc
        subst hc
        exact ⟨cs.erase c, hclears _, hfresh.remove c⟩
  | outer hpc => exact h.idle rfl (by intro d task; dsimp only; split <;> simp)
  | arm hpc => exact h.idle rfl (by simp)
  | inner hpc => exact h.idle rfl (by intro d task; dsimp only; split <;> simp)
  | innerStop hpc => exact h.idle rfl (by intro d task; dsimp only; split <;> simp)
  | wake hpc hnow => exact h.idle rfl (by simp)
  | woken hpc => exact h.idle rfl (by intro d task; dsimp only; split <;> simp)
  | finish hpc => exact h.idle rfl (by simp)

theorem Steps.server_step (hs : sweeper.Step x l y) :
    (∃ o, y.server = (handle o x.server).2) ∨ Env x.server y.server := by
  cases hs with
  | env he => exact .inr he
  | @request i o k hk he => exact .inl ⟨o, rfl⟩
  | @sweep deadline o k hpc he => exact .inl ⟨o, rfl⟩
  | _ => exact .inr (.refl _)

theorem FreshBut.step {cs : Finset ClientId} (h : FreshBut d cs x.server) (hx : x.server.Registered)
    (hnow : d ≤ x.server.steadyNow) (hs : sweeper.Step x l y) :
    d ≤ y.server.steadyNow ∧ FreshBut d cs y.server := by
  rcases Steps.server_step hs with ⟨o, ho⟩ | he
  · rw [ho, handle_steadyNow]
    exact ⟨hnow, h.handle hx hnow o⟩
  · exact ⟨hnow.trans he.steadyNow, h.env he⟩

theorem ended_run (h : sweeper.Steps x tr y) (hx : Swept x) :
    Swept y ∧ ∀ e ∈ tr, ∀ d, e.2 = .ended d → d ≤ y.server.steadyNow ∧ FreshBut d ∅ y.server := by
  refine h.inv (I := fun tr y => Swept y ∧ ∀ e ∈ tr, ∀ d, e.2 = .ended d →
    d ≤ y.server.steadyNow ∧ FreshBut d ∅ y.server) ⟨hx, by simp⟩ ?_
  intro tr y l z _ ⟨hy, hended⟩ hs
  refine ⟨hy.step hs, fun e he d hd => ?_⟩
  rcases List.mem_append.1 he with he | he
  · obtain ⟨hnow, hfresh⟩ := hended e he d hd
    exact hfresh.step hy.registered hnow hs
  · rw [List.mem_singleton.1 he] at hd
    obtain rfl : l = .ended d := hd
    cases hs with
    | @finish deadline count hpc =>
      obtain ⟨hnow, hleft⟩ := hy.running _ _ hpc
      refine ⟨hnow, ?_⟩
      rcases hleft with ⟨order, htask⟩ | ⟨cs, hclears, hfresh⟩
      · cases htask
      · obtain rfl : cs = ∅ := hclears
        exact hfresh

/-- The server as the sweeper's thread starts. -/
def start (server : Server) (requests : ι → Task α) : State ι α := ⟨server, .outer, false, requests⟩

omit [DecidableEq ι] in
theorem swept_start {server : Server} (hs : server.Registered) (requests : ι → Task α) :
    Swept (start server requests) :=
  ⟨hs, by simp [start]⟩

/-- Once a sweep has ended, every session there is has been heard of at the sweep's deadline or later,
whatever the requests did in the meantime. -/
theorem heard_since_sweep {uuid : UuidLib} {historyCap : UInt32} {systemNow steadyNow : Int} {host : Host}
    (hhost : Host.Reached uuid (.initial historyCap systemNow steadyNow) host) {requests : ι → Task α}
    (h : sweeper.Steps (start host.server requests) tr y) {before : State ι α}
    (hended : (before, .ended d) ∈ tr) {c : ClientId} {session : ClientSession}
    (hsession : y.server.session c = some session) : d ≤ session.lastHeartbeatAt := by
  obtain ⟨-, hfresh⟩ := (ended_run h (swept_start (registered_reached hhost) requests)).2 _ hended d rfl
  by_contra hlt
  exact Finset.notMem_empty c (hfresh c session hsession (by omega))

/-! ### Whom a sweep spares -/

/-- The client has a session, and what is left of the sweep will not remove it. -/
structure Spared (c : ClientId) (x : State ι α) : Prop where
  registered : x.server.Registered
  live : x.server.session c ≠ none
  requests : ∀ i, (x.requests i).Calls fun o => o ≠ .clients (.remove c)
  running : ∀ d task, x.pc = .running d task → d ≤ x.server.steadyNow ∧
    ((∃ order, task = ExpireInactiveClients.run order d) ∧
      (∀ session, x.server.session c = some session → d ≤ session.lastHeartbeatAt) ∨
    task.Calls fun o => o ≠ .clients (.remove c))

section
variable {c : ClientId} {s : Server} {o : Call}

theorem live_handle (ho : o ≠ .clients (.remove c)) (hc : s.session c ≠ none) :
    (handle o s).2.session c ≠ none := by
  by_cases hr : ∃ d, o = .clients (.remove d)
  · obtain ⟨d, rfl⟩ := hr
    have hne : c ≠ d := by
      rintro rfl
      exact ho rfl
    rw [session_remove, if_neg hne]
    exact hc
  · exact session_ne_none (fun d hd => hr ⟨d, hd⟩) hc

end

theorem spared_collected {c : ClientId} {s : Server} {d : Int} {order : BucketOrder}
    (hheard : ∀ session, s.session c = some session → d ≤ session.lastHeartbeatAt) :
    (ExpireInactiveClients.expireEach order 0 (s.clients.collectExpired order.clients d)).Calls
      fun o => o ≠ .clients (.remove c) := by
  have hremoves : (ExpireInactiveClients.expireEach order 0 (s.clients.collectExpired order.clients d)).Calls
      (Removes ((s.clients.collectExpired order.clients d).map (·.id))) :=
    removes_expireEach order 0 fun cs hcs => List.mem_map_of_mem hcs
  refine hremoves.mono fun o ho => ?_
  rintro rfl
  obtain ⟨cs, hcs, hid⟩ := List.mem_map.1 ho
  obtain ⟨hfind, hlt⟩ := InMemoryClientRegistry.mem_collectExpired.1 hcs
  have hfresh := hheard cs (by rw [← hid]; exact hfind)
  omega

namespace Spared
variable {c : ClientId}

omit [DecidableEq ι] in
theorem idle (h : Spared c x) (hserver : y.server = x.server) (hrequests : y.requests = x.requests)
    (hpc : ∀ d task, y.pc ≠ .running d task) : Spared c y where
  registered := by rw [hserver]; exact h.registered
  live := by rw [hserver]; exact h.live
  requests := by rw [hrequests]; exact h.requests
  running d task hrun := absurd hrun (hpc d task)

omit [DecidableEq ι] in
/-- A call of a request, or of a sweep that is on its way. -/
theorem call (h : Spared c x) {o : Call} (ho : o ≠ .clients (.remove c))
    (hserver : y.server = (handle o x.server).2)
    (hrequests : ∀ i, (y.requests i).Calls fun o => o ≠ .clients (.remove c))
    (hrunning : ∀ d task, y.pc = .running d task → x.pc = .running d task ∨
      d ≤ x.server.steadyNow ∧ task.Calls fun o => o ≠ .clients (.remove c)) : Spared c y := by
  refine ⟨by rw [hserver]; exact h.registered.handle o, by rw [hserver]; exact live_handle ho h.live, hrequests,
    fun d task hpc => ?_⟩
  rw [hserver, handle_steadyNow]
  rcases hrunning d task hpc with hsame | ⟨hnow, hcalls⟩
  · obtain ⟨hnow, hleft⟩ := h.running d task hsame
    refine ⟨hnow, hleft.imp_left (And.imp_right fun hheard session hsession => ?_)⟩
    rcases heard_step h.registered hsession with heq | ⟨old, hold, heq⟩
    · omega
    · rw [← heq]
      exact hheard old hold
  · exact ⟨hnow, .inr hcalls⟩

theorem step (h : Spared c x) (hs : sweeper.Step x l y)
    (hheard : ∀ d, l = .began d → ∀ session, x.server.session c = some session →
      d ≤ session.lastHeartbeatAt) :
    Spared c y := by
  cases hs with
  | @env s' he =>
    have hsession : s'.session c = x.server.session c := by
      unfold Server.session
      rw [he.clients]
    refine ⟨h.registered.env he, hsession.trans_ne h.live, h.requests, fun d task hpc => ?_⟩
    obtain ⟨hnow, hleft⟩ := h.running d task hpc
    refine ⟨hnow.trans he.steadyNow, hleft.imp_left (And.imp_right fun hheard session hs' => ?_)⟩
    exact hheard session (hsession.symm.trans hs')
  | @request i o k hk he =>
    have hcalls := h.requests i
    rw [hk] at hcalls
    refine h.call hcalls.1 rfl (fun j => ?_) fun d task hpc => .inl hpc
    by_cases hj : j = i
    · subst hj
      show (Function.update x.requests j _ j).Calls _
      rw [Function.update_self]
      exact hcalls.2 _
    · show (Function.update x.requests i _ j).Calls _
      rw [Function.update_of_ne hj]
      exact h.requests j
  | requestStop => exact ⟨h.registered, h.live, h.requests, h.running⟩
  | begin order hpc =>
    refine ⟨h.registered, h.live, h.requests, fun d task hrun => ?_⟩
    cases hrun
    have hpos := sweeper.heartbeatTimeout_pos
    refine ⟨?_, .inl ⟨⟨order, rfl⟩, hheard _ rfl⟩⟩
    show x.server.steadyNow - sweeper.heartbeatTimeout ≤ x.server.steadyNow
    omega
  | @sweep deadline o k hpc he =>
    obtain ⟨hnow, hleft⟩ := h.running deadline _ hpc
    rcases hleft with ⟨⟨order, htask⟩, hheard⟩ | hcalls
    · cases htask
      refine h.call (by simp) rfl h.requests fun d task hrun => ?_
      cases hrun
      exact .inr ⟨hnow, spared_collected hheard⟩
    · refine h.call hcalls.1 rfl h.requests fun d task hrun => ?_
      cases hrun
      exact .inr ⟨hnow, hcalls.2 _⟩
  | outer hpc => exact h.idle rfl rfl (by intro d task; dsimp only; split <;> simp)
  | arm hpc => exact h.idle rfl rfl (by simp)
  | inner hpc => exact h.idle rfl rfl (by intro d task; dsimp only; split <;> simp)
  | innerStop hpc => exact h.idle rfl rfl (by intro d task; dsimp only; split <;> simp)
  | wake hpc hnow => exact h.idle rfl rfl (by simp)
  | woken hpc => exact h.idle rfl rfl (by intro d task; dsimp only; split <;> simp)
  | finish hpc => exact h.idle rfl rfl (by simp)

end Spared

/-- A client that has been heard of within the timeout whenever a sweep begins keeps its session, however
the sweeps interleave with requests, as long as none of these removes it. -/
theorem sweeper_spares {uuid : UuidLib} {historyCap : UInt32} {systemNow steadyNow : Int} {host : Host}
    (hhost : Host.Reached uuid (.initial historyCap systemNow steadyNow) host) {requests : ι → Task α}
    {c : ClientId} (hlive : host.server.session c ≠ none)
    (hrequests : ∀ i, (requests i).Calls fun o => o ≠ .clients (.remove c))
    (h : sweeper.Steps (start host.server requests) tr y)
    (hheard : ∀ before d, (before, .began d) ∈ tr → ∀ session, before.server.session c = some session →
      before.server.steadyNow - sweeper.heartbeatTimeout ≤ session.lastHeartbeatAt) :
    y.server.session c ≠ none := by
  have hspared : Spared c y := by
    induction h with
    | refl => exact ⟨registered_reached hhost, hlive, hrequests, by simp [start]⟩
    | @step tr x l z h hs ih =>
      refine (ih fun before d hb => hheard before d (List.mem_append_left _ hb)).step hs ?_
      rintro d rfl session hsession
      have hrecent := hheard x d (List.mem_append_right _ (List.mem_singleton_self _)) session hsession
      cases hs
      exact hrecent
  exact hspared.live

end

/-! ### A sweep that spares a client -/

/-- Everything takes one tick. -/
def eachTick : HeartbeatSweeper := ⟨1, 1, 1, Int.zero_lt_one, Int.zero_lt_one⟩

section
variable {ι α : Type} [DecidableEq ι] {s s' : Server} (requests : ι → Task α) (stop : Bool)

/-- A tick later the thread is about to sweep. -/
theorem tick (henv : Env s s') (hnow : s'.steadyNow = s.steadyNow + 1) : ∃ tr,
    eachTick.Steps ⟨s, .outer, false, requests⟩ tr ⟨s', .due, false, requests⟩ ∧ sweeps tr = [] ∧
      ∀ x d, (x, .began d) ∉ tr := by
  have hstart : eachTick.Steps (⟨s, .outer, false, requests⟩ : State ι α) [] _ := .refl
  have harmed := (hstart.step (.outer rfl)).step (.arm rfl)
  have hinner := harmed.step (@Step.inner _ _ _ _ _ (s.steadyNow + 1) rfl)
  simp only [show s.steadyNow < s.steadyNow + 1 by omega, if_true] at hinner
  have hasleep := (hinner.step (@Step.innerStop _ _ _ _ _ (s.steadyNow + 1) rfl)).step (.env henv)
  have hwake := hasleep.step (.wake rfl hnow.ge)
  have hwoken := hwake.step (@Step.inner _ _ _ _ _ (s.steadyNow + 1) rfl)
  simp only [show ¬ s'.steadyNow < s.steadyNow + 1 by omega, if_false] at hwoken
  refine ⟨_, hwoken.step (.woken rfl), rfl, fun x d hx => ?_⟩
  simp at hx

/-- A sweep that finds nobody expired. -/
theorem sweepsNobody (hcollected : s.clients.collectExpired BucketOrder.byId.clients (s.steadyNow - 1) = []) :
    ∃ tr before, eachTick.Steps ⟨s, .due, stop, requests⟩ tr ⟨s, .outer, stop, requests⟩ ∧
      sweeps tr = [s.steadyNow - 1] ∧ (before, .ended (s.steadyNow - 1)) ∈ tr ∧
      ∀ x d, (x, .began d) ∈ tr → x.server = s := by
  have hstart : eachTick.Steps (⟨s, .due, stop, requests⟩ : State ι α) [] _ := .refl
  have hswept := (hstart.step (.begin .byId rfl)).step (.sweep rfl trivial)
  have hended := hswept.step (@Step.finish _ _ _ _ _ (s.steadyNow - 1) 0 (congrArg
    (fun expired => Pc.running (s.steadyNow - 1) (ExpireInactiveClients.expireEach .byId 0 expired)) hcollected))
  refine ⟨_, _, hended, rfl, List.mem_append_right _ (List.mem_singleton_self _), fun x d hx => ?_⟩
  simp only [List.append_assoc, List.nil_append, List.mem_append, List.mem_singleton, Prod.mk.injEq,
    Label.began.injEq, reduceCtorEq, and_false, or_false] at hx
  rw [hx.1]

end

/-- A tick after `ann` connected. -/
def tickLater : Server := { oneConnected.server with steadyNow := 1 }

theorem tickLater_env : Env oneConnected.server tickLater :=
  ⟨rfl, rfl, rfl, rfl, rfl, Finset.Subset.refl _, Int.zero_le_ofNat 1, le_refl _⟩

/-- The thread sleeps for a tick and sweeps. -/
theorem firstSweep {ι α : Type} [DecidableEq ι] (requests : ι → Task α) : ∃ tr before,
    eachTick.Steps (start oneConnected.server requests) tr ⟨tickLater, .outer, false, requests⟩ ∧
    sweeps tr = [0] ∧ (before, .ended 0) ∈ tr ∧ ∀ x d, (x, .began d) ∈ tr → x.server = tickLater := by
  obtain ⟨tr, htick, hnone, hquiet⟩ := tick requests tickLater_env rfl
  have hcollected : tickLater.clients.collectExpired BucketOrder.byId.clients 0 = [] := by decide +kernel
  obtain ⟨tr', before, hsweep, hone, hended, hbegan⟩ :=
    sweepsNobody requests false hcollected
  refine ⟨tr ++ tr', before, htick.trans hsweep, ?_, List.mem_append_right _ hended, fun x d hx => ?_⟩
  · rw [sweeps_append, hnone, hone]
    rfl
  · exact hbegan x d ((List.mem_append.1 hx).resolve_left (hquiet x d))

def annBeats (_ : Unit) : Task (Reply Unit) :=
  BroadcastService.Heartbeat .canonical (ascii "00000000-0000-0000-0000-000000000002")

/-- `ann` is heard of after the first sweep. -/
def annHeard : Server := (handle (.clients (.touchHeartbeat ⟨2⟩)) tickLater).2

def twoTicksLater : Server := { annHeard with steadyNow := 2 }

theorem twoTicksLater_env : Env annHeard twoTicksLater :=
  ⟨rfl, rfl, rfl, rfl, rfl, Finset.Subset.refl _, by decide, le_refl _⟩

/-- The thread is told to stop when it is about to sweep a second time. -/
theorem sweeps_paced_stopped : ∃ tr x tr' y,
    eachTick.Steps (start oneConnected.server annBeats) tr x ∧ sweeps tr = [0] ∧ x.stop = true ∧
    eachTick.Steps x tr' y ∧ sweeps tr' = [1] ∧ y.pc = .stopped ∧
    (sweeps (tr ++ tr')).Pairwise (fun d d' => d + 1 ≤ d') ∧ (sweeps tr').length ≤ 1 ∧ x.pc = .due := by
  obtain ⟨tr, -, hfirst, hone, -⟩ := firstSweep annBeats
  have hheard := hfirst.step (@Step.request _ _ _ _ _ () (.clients (.touchHeartbeat ⟨2⟩)) _ rfl trivial)
  obtain ⟨tr', htick, hnone, -⟩ := tick (Function.update annBeats () _) twoTicksLater_env rfl
  have hstop := (hheard.trans htick).step .requestStop
  have hcollected : twoTicksLater.clients.collectExpired BucketOrder.byId.clients 1 = [] := by decide +kernel
  obtain ⟨tr'', -, hsecond, htwo, -⟩ :=
    sweepsNobody (Function.update annBeats () _) true hcollected
  have hstopped := hsecond.step (.outer rfl)
  obtain ⟨hcount, hdue⟩ := (sweeps_paced hstopped).2 rfl
  refine ⟨_, _, _, _, hstop, ?_, rfl, hstopped, ?_, rfl, (sweeps_paced (hstop.trans hstopped)).1, hcount,
    hdue ?_⟩
  · rw [sweeps_snoc_silent, sweeps_append, sweeps_snoc_silent, hone, hnone]
    rfl
  · rw [sweeps_snoc_silent, htwo]
    rfl
  · rw [sweeps_snoc_silent, htwo]
    simp

theorem heard_since_sweep_first : ∃ tr y,
    eachTick.Steps (start oneConnected.server fun _ : Unit => Prog.ret ()) tr y ∧
    ∃ session, y.server.session ⟨2⟩ = some session ∧ 0 ≤ session.lastHeartbeatAt := by
  obtain ⟨tr, before, h, -, hended, -⟩ := firstSweep fun _ : Unit => (Prog.ret () : Task Unit)
  have hlive : tickLater.session ⟨2⟩ ≠ none := by decide +kernel
  obtain ⟨session, hsession⟩ := Option.ne_none_iff_exists'.1 hlive
  exact ⟨tr, _, h, session, hsession, heard_since_sweep oneConnected_reached h hended hsession⟩

theorem sweeper_spares_first : ∃ tr y,
    eachTick.Steps (start oneConnected.server fun _ : Unit => Prog.ret ()) tr y ∧
    sweeps tr = [0] ∧ y.server.session ⟨2⟩ ≠ none := by
  obtain ⟨tr, -, h, hsweeps, -, hbegan⟩ := firstSweep fun _ : Unit => (Prog.ret () : Task Unit)
  have hquiet : ∀ _ : Unit, (Prog.ret () : Task Unit).Calls fun o => o ≠ .clients (.remove ⟨2⟩) := by
    intro _
    trivial
  refine ⟨tr, _, h, hsweeps, sweeper_spares oneConnected_reached (by decide +kernel) hquiet h ?_⟩
  intro before d hb session hsession
  rw [hbegan before d hb] at hsession ⊢
  have hall : (tickLater.session ⟨2⟩).all fun session => decide (0 ≤ session.lastHeartbeatAt) := by
    decide +kernel
  rw [hsession] at hall
  exact of_decide_eq_true hall

end HeartbeatSweeper

end Bcmd
