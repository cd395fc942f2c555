import Bcmd.Lib.Pool
import Mathlib.Data.Fintype.Defs
import Mathlib.Order.WellFounded

/-!
# Locks

Threads that guard a shared state with locks. A program takes and releases locks and acts on the state in
between; what takes a lock waits for the threads that hold it, unless all share it. A `Discipline` ranks the
locks and says which act needs which of them. A program that `Keeps` it takes its locks upwards in rank, so
in a run of such programs no set of threads is deadlocked (`Disciplined.not_deadlocked`), and
`Disciplined.advance` says all that one step of the run can do.
-/

inductive LockMode
  | shared
  | exclusive
deriving DecidableEq

inductive LockCall (Lock Act : Type)
  | acquire (lock : Lock) (mode : LockMode)
  | release (lock : Lock)
  | act (a : Act)

@[reducible] def LockCall.Res {Lock Act : Type} (Res : Act → Type) : LockCall Lock Act → Type
  | acquire _ _ | release _ => Unit
  | act a => Res a

/-- The locks that one thread holds, and how. -/
abbrev Held (Lock : Type) := Lock → Option LockMode

/-- A program over acts, with its locks. -/
abbrev LockProg (Lock Act : Type) (Res : Act → Type) (α : Type) :=
  Prog (LockCall Lock Act) (LockCall.Res Res) α

structure LockState (σ ι Lock : Type) where
  state : σ
  held : ι → Held Lock

abbrev LockConfig (σ ι Lock Act : Type) (Res : Act → Type) (α : Type) :=
  Config (LockState σ ι Lock) ι (ι × LockCall Lock Act) (fun c => c.2.Res Res) α

abbrev LockEvent (σ ι Lock Act : Type) (Res : Act → Type) (α : Type) :=
  Event (LockState σ ι Lock) ι (ι × LockCall Lock Act) (fun c => c.2.Res Res) α

/-- Every lock is free. -/
def LockState.new {σ ι Lock : Type} (s : σ) : LockState σ ι Lock := ⟨s, fun _ _ => none⟩

section
variable {σ ι Lock Act : Type} {Res : Act → Type} {α β : Type} [DecidableEq ι] [DecidableEq Lock]

namespace LockState

def acquire (g : LockState σ ι Lock) (i : ι) (l : Lock) (mode : LockMode) : LockState σ ι Lock :=
  { g with held := Function.update g.held i (Function.update (g.held i) l (some mode)) }

def release (g : LockState σ ι Lock) (i : ι) (l : Lock) : LockState σ ι Lock :=
  { g with held := Function.update g.held i (Function.update (g.held i) l none) }

/-- The lock may be taken in this mode. -/
def Free (g : LockState σ ι Lock) (l : Lock) : LockMode → Prop
  | .shared => ∀ j, g.held j l ≠ some .exclusive
  | .exclusive => ∀ j, g.held j l = none

instance [Fintype ι] (g : LockState σ ι Lock) (l : Lock) : ∀ mode, Decidable (g.Free l mode)
  | .shared => inferInstanceAs (Decidable (∀ j, g.held j l ≠ some .exclusive))
  | .exclusive => inferInstanceAs (Decidable (∀ j, g.held j l = none))

/-- Who holds a lock exclusively holds it alone. -/
def Exclusive (g : LockState σ ι Lock) : Prop :=
  ∀ i j l, g.held i l = some .exclusive → g.held j l ≠ none → i = j

variable {g : LockState σ ι Lock} {i j : ι} {l l' : Lock} {mode : LockMode}

@[simp] theorem acquire_state : (g.acquire i l mode).state = g.state := rfl

@[simp] theorem release_state : (g.release i l).state = g.state := rfl

@[simp] theorem acquire_held_self : (g.acquire i l mode).held i = Function.update (g.held i) l (some mode) :=
  Function.update_self ..

@[simp] theorem release_held_self : (g.release i l).held i = Function.update (g.held i) l none :=
  Function.update_self ..

theorem acquire_held_ne (h : j ≠ i) : (g.acquire i l mode).held j = g.held j := Function.update_of_ne h ..

theorem release_held_ne (h : j ≠ i) : (g.release i l).held j = g.held j := Function.update_of_ne h ..

theorem acquire_held_cases (h : (g.acquire i l mode).held j l' ≠ none) :
    j = i ∧ l' = l ∨ g.held j l' ≠ none ∧ (g.acquire i l mode).held j l' = g.held j l' := by
  by_cases hj : j = i
  · subst hj
    rw [acquire_held_self] at h ⊢
    by_cases hl : l' = l
    · exact .inl ⟨rfl, hl⟩
    · rw [Function.update_of_ne hl] at h ⊢
      exact .inr ⟨h, rfl⟩
  · rw [acquire_held_ne hj] at h ⊢
    exact .inr ⟨h, rfl⟩

theorem release_held_cases (h : (g.release i l).held j l' ≠ none) :
    (g.release i l).held j l' = g.held j l' := by
  by_cases hj : j = i
  · subst hj
    rw [release_held_self] at h ⊢
    by_cases hl : l' = l
    · subst hl
      simp at h
    · exact Function.update_of_ne hl ..
  · rw [release_held_ne hj]

theorem Exclusive.acquire (h : g.Exclusive) (hfree : g.Free l mode) : (g.acquire i l mode).Exclusive := by
  intro j j' l' hj hj'
  have hne : (g.acquire i l mode).held j l' ≠ none := by rw [hj]; nofun
  rcases acquire_held_cases hne with ⟨rfl, rfl⟩ | ⟨hold, heq⟩ <;>
    rcases acquire_held_cases hj' with ⟨rfl, hl⟩ | ⟨hold', -⟩
  · rfl
  · -- it was free for the one who takes it
    rw [acquire_held_self, Function.update_self] at hj
    obtain rfl := Option.some.inj hj
    exact absurd (hfree j') hold'
  · subst hl
    rw [heq] at hj
    cases mode with
    | shared => exact absurd hj (hfree j)
    | exclusive => exact absurd (hfree j) hold
  · exact h j j' l' (heq ▸ hj) hold'

theorem Exclusive.release (h : g.Exclusive) : (g.release i l).Exclusive := by
  intro j j' l' hj hj'
  have hold := release_held_cases (g := g) (i := i) (l := l)
    (by rw [hj]; nofun : (g.release i l).held j l' ≠ none)
  exact h j j' l' (hold ▸ hj) (release_held_cases hj' ▸ hj')

end LockState

/-- The machine with its locks: a thread holds what it has taken and not released. -/
def Machine.locked (M : Machine σ Act Res) :
    Machine (LockState σ ι Lock) (ι × LockCall Lock Act) (fun c => c.2.Res Res) where
  handle
    | (i, .acquire l mode), g => ((), g.acquire i l mode)
    | (i, .release l), g => ((), g.release i l)
    | (_, .act a), g => ((M.handle a g.state).1, { g with state := (M.handle a g.state).2 })
  enabled
    | (_, .acquire l mode), g => g.Free l mode
    | (_, .release _), _ => True
    | (_, .act a), g => M.enabled a g.state

instance [Fintype ι] (M : Machine σ Act Res) [∀ a s, Decidable (M.enabled a s)] :
    ∀ c g, Decidable ((M.locked : Machine (LockState σ ι Lock) _ _).enabled c g)
  | (_, .acquire l mode), g => inferInstanceAs (Decidable (g.Free l mode))
  | (_, .release _), _ => inferInstanceAs (Decidable True)
  | (_, .act a), g => inferInstanceAs (Decidable (M.enabled a g.state))

/-- The program as thread `i` runs it. -/
def Prog.as (i : ι) : LockProg Lock Act Res α → Prog (ι × LockCall Lock Act) (fun c => c.2.Res Res) α
  | .ret a => .ret a
  | .call c k => .call (i, c) fun r => (k r).as i

/-- Take a lock, go on, and release it again, as a lock guard does in its scope. -/
def withLock (l : Lock) (mode : LockMode) (p : LockProg Lock Act Res α) : LockProg Lock Act Res α :=
  .call (.acquire l mode) fun _ => p >>= fun a => .call (.release l) fun _ => .ret a

/-- The program without its locks. -/
def Prog.acts : LockProg Lock Act Res α → Prog Act Res α
  | .ret a => .ret a
  | .call (.acquire _ _) k => (k ()).acts
  | .call (.release _) k => (k ()).acts
  | .call (.act a) k => .call a fun r => (k r).acts

omit [DecidableEq Lock] in
theorem Prog.acts_bind (p : LockProg Lock Act Res α) (f : α → LockProg Lock Act Res β) :
    Prog.acts (p >>= f) = Prog.acts p >>= fun a => Prog.acts (f a) := by
  induction p with
  | ret a => rfl
  | call c k ih =>
    cases c with
    | acquire l mode => exact ih ()
    | release l => exact ih ()
    | act a => exact congrArg (Prog.call a) (funext ih)

omit [DecidableEq Lock] in
@[simp] theorem Prog.acts_withLock (l : Lock) (mode : LockMode) (p : LockProg Lock Act Res α) :
    Prog.acts (withLock l mode p) = Prog.acts p :=
  (Prog.acts_bind p fun a => .call (.release l) fun _ => .ret a).trans (Prog.bind_ret _)

/-- A thread that runs alone does what its acts do. -/
theorem Machine.exec_as (M : Machine σ Act Res) (i : ι) (p : LockProg Lock Act Res α)
    (g : LockState σ ι Lock) :
    (M.locked.exec (Prog.as i p) g).1 = (M.exec (Prog.acts p) g.state).1 ∧
      (M.locked.exec (Prog.as i p) g).2.state = (M.exec (Prog.acts p) g.state).2 := by
  induction p generalizing g with
  | ret a => exact ⟨rfl, rfl⟩
  | call c k ih =>
    cases c with
    | acquire l mode => exact ih () (g.acquire i l mode)
    | release l => exact ih () (g.release i l)
    | act a => exact ih _ _

/-! ### Disciplines -/

/-- An act may leave its thread in the middle of something. Until it is `idle` again, only acts may
follow. -/
structure Discipline (Lock Act : Type) (Res : Act → Type) (Phase Rank : Type) where
  rank : Lock → Rank
  idle : Phase
  allowed : Held Lock → Phase → Act → Prop
  after : Phase → (a : Act) → Res a → Phase

namespace Discipline
variable {Phase Rank : Type}

/-- A program that starts with the locks `held` in the given phase and ends idle, with the locks `done`. -/
def Keeps [LT Rank] (D : Discipline Lock Act Res Phase Rank) (done : Held Lock) :
    LockProg Lock Act Res α → Held Lock → Phase → Prop
  | .ret _, held, phase => held = done ∧ phase = D.idle
  | .call (.acquire l mode) k, held, phase => phase = D.idle ∧ (∀ l', held l' ≠ none → D.rank l' < D.rank l) ∧
      D.Keeps done (k ()) (Function.update held l (some mode)) phase
  | .call (.release l) k, held, phase => phase = D.idle ∧ held l ≠ none ∧
      D.Keeps done (k ()) (Function.update held l none) phase
  | .call (.act a) k, held, phase => D.allowed held phase a ∧ ∀ r, D.Keeps done (k r) held (D.after phase a r)

section Rules
variable [Preorder Rank] {D : Discipline Lock Act Res Phase Rank} {held mid done : Held Lock}
  {phase : Phase} {l : Lock}
  {mode : LockMode}

theorem Keeps.bind {p : LockProg Lock Act Res α} {f : α → LockProg Lock Act Res β}
    (hp : D.Keeps mid p held phase)
    (hf : ∀ a, D.Keeps done (f a) mid D.idle) : D.Keeps done (p >>= f) held phase := by
  induction p generalizing held phase with
  | ret a =>
    obtain ⟨rfl, rfl⟩ := hp
    exact hf a
  | call c k ih =>
    cases c with
    | acquire l mode => exact ⟨hp.1, hp.2.1, ih () hp.2.2⟩
    | release l => exact ⟨hp.1, hp.2.1, ih () hp.2.2⟩
    | act a => exact ⟨hp.1, fun r => ih r (hp.2 r)⟩

theorem Keeps.act {a : Act} (ha : D.allowed held D.idle a) (hafter : ∀ r, D.after D.idle a r = D.idle) :
    D.Keeps held (.call (.act a) .ret) held D.idle :=
  ⟨ha, fun r => ⟨rfl, hafter r⟩⟩

/-- A critical section under a lock that ranks above all that are held. -/
theorem Keeps.withLock {p : LockProg Lock Act Res α} (hrank : ∀ l', held l' ≠ none → D.rank l' < D.rank l)
    (hp : D.Keeps (Function.update held l (some mode)) p (Function.update held l (some mode)) D.idle) :
    D.Keeps held (withLock l mode p) held D.idle := by
  have hfree : held l = none := by
    by_contra hne
    exact lt_irrefl _ (hrank l hne)
  refine ⟨rfl, hrank, hp.bind fun a => ⟨rfl, ?_, ?_, rfl⟩⟩
  · rw [Function.update_self]
    nofun
  · rw [Function.update_idem, ← hfree, Function.update_eq_self]

/-- One more lock is held, which ranks below too. -/
theorem below_update {rank : Rank} (h : ∀ l', held l' ≠ none → D.rank l' < rank) (hl : D.rank l < rank) :
    ∀ l', Function.update held l (some mode) l' ≠ none → D.rank l' < rank := by
  intro l' hne
  by_cases hl' : l' = l
  · rw [hl']
    exact hl
  · rw [Function.update_of_ne hl'] at hne
    exact h l' hne

end Rules

/-- What a step of a disciplined thread does. -/
inductive Step (M : Machine σ Act Res) (D : Discipline Lock Act Res Phase Rank) (g : LockState σ ι Lock)
    (phase : ι → Phase) (i : ι) : LockCall Lock Act → LockState σ ι Lock → (ι → Phase) → Prop
  | acquire {l mode} (hidle : phase i = D.idle) (hfree : g.Free l mode) :
      Step M D g phase i (.acquire l mode) (g.acquire i l mode) phase
  | release {l} (hidle : phase i = D.idle) : Step M D g phase i (.release l) (g.release i l) phase
  | act {a} (hallowed : D.allowed (g.held i) (phase i) a) (henabled : M.enabled a g.state) :
      Step M D g phase i (.act a) { g with state := (M.handle a g.state).2 }
        (Function.update phase i (D.after (phase i) a (M.handle a g.state).1))

/-- The locks are held as they may be, and every thread goes on as the discipline wants it, from its
phase. -/
structure Disciplined [LT Rank] (D : Discipline Lock Act Res Phase Rank)
    (m : LockConfig σ ι Lock Act Res α) (phase : ι → Phase) : Prop where
  exclusive : m.state.Exclusive
  keeps : ∀ i, ∃ p, m.threads i = Prog.as i p ∧ D.Keeps (fun _ => none) p (m.state.held i) (phase i)

/-- Each thread of the set wants a lock that a thread of the set holds, be it that both would share it. -/
def Deadlocked (m : LockConfig σ ι Lock Act Res α) (S : Set ι) : Prop :=
  S.Nonempty ∧ ∀ i ∈ S, ∃ l mode, (m.threads i).next = some (i, .acquire l mode) ∧
    ∃ j ∈ S, m.state.held j l ≠ none

namespace Disciplined
variable [Preorder Rank] {D : Discipline Lock Act Res Phase Rank} {M : Machine σ Act Res}
  {m : LockConfig σ ι Lock Act Res α} {phase : ι → Phase} {i : ι}

omit [DecidableEq ι] in
theorem new {s : σ} {programs : ι → LockProg Lock Act Res α}
    (h : ∀ i, D.Keeps (fun _ => none) (programs i) (fun _ => none) D.idle) :
    D.Disciplined ⟨LockState.new s, fun i => Prog.as i (programs i)⟩ fun _ => D.idle :=
  ⟨fun _ _ _ => nofun, fun i => ⟨programs i, rfl, h i⟩⟩

omit [DecidableEq ι] in
/-- What happens besides the steps of the threads leaves their locks alone. -/
theorem env (h : D.Disciplined m phase) {g : LockState σ ι Lock} (hg : g.held = m.state.held) :
    D.Disciplined ⟨g, m.threads⟩ phase := by
  refine ⟨?_, fun i => ?_⟩
  · unfold LockState.Exclusive
    rw [hg]
    exact h.exclusive
  · rw [hg]
    exact h.keeps i

omit [DecidableEq ι] in
/-- A thread that waits for a lock holds only locks of lower rank. -/
theorem rank_lt (h : D.Disciplined m phase) {l l' : Lock} {mode : LockMode}
    (hnext : (m.threads i).next = some (i, .acquire l mode)) (hheld : m.state.held i l' ≠ none) :
    D.rank l' < D.rank l := by
  obtain ⟨p, hp, hkeeps⟩ := h.keeps i
  rw [hp] at hnext
  cases p with
  | ret a => cases hnext
  | call c k =>
    cases hnext
    exact hkeeps.2.1 l' hheld

omit [DecidableEq ι] in
/-- Of the locks that its threads wait for, take one of the highest rank: its holder waits for a higher
one. -/
theorem not_deadlocked [WellFoundedGT Rank] (h : D.Disciplined m phase) (S : Set ι) : ¬ Deadlocked m S := by
  rintro ⟨⟨i₀, hi₀⟩, hwait⟩
  let awaited : Set Rank := {r | ∃ i ∈ S, ∃ l mode, (m.threads i).next = some (i, .acquire l mode) ∧
    D.rank l = r}
  have hne : awaited.Nonempty := by
    obtain ⟨l, mode, hnext, -⟩ := hwait i₀ hi₀
    exact ⟨D.rank l, i₀, hi₀, l, mode, hnext, rfl⟩
  obtain ⟨r, ⟨i, hi, l, mode, hnext, rfl⟩, hmax⟩ := wellFounded_gt.has_min awaited hne
  obtain ⟨l₁, mode₁, hnext₁, j, hj, hheld⟩ := hwait i hi
  rw [hnext] at hnext₁
  cases hnext₁
  obtain ⟨l', mode', hnext', -⟩ := hwait j hj
  exact hmax (D.rank l') ⟨j, hj, l', mode', hnext', rfl⟩ (h.rank_lt hnext' hheld)

/-- A step of the run is one that the discipline allows, and the pool stays disciplined. -/
theorem advance (h : D.Disciplined m phase) {c : ι × LockCall Lock Act} (hn : (m.threads i).next = some c)
    (he : M.locked.enabled c m.state) :
    c.1 = i ∧ ∃ phase', D.Step M m.state phase i c.2 (m.advance M.locked i).state phase' ∧
      D.Disciplined (m.advance M.locked i) phase' := by
  obtain ⟨p, hp, hkeeps⟩ := h.keeps i
  rw [hp] at hn
  cases p with
  | ret a => cases hn
  | call c k =>
    cases hn
    refine ⟨rfl, ?_⟩
    have hothers : ∀ j, j ≠ i → ∃ p, (m.advance M.locked i).threads j = Prog.as j p ∧
        D.Keeps (fun _ => none) p (m.state.held j) (phase j) := by
      intro j hj
      rw [Config.advance_threads_ne hj]
      exact h.keeps j
    rw [Config.advance_of_call hp] at hothers ⊢
    cases c with
    | acquire l mode =>
      refine ⟨phase, .acquire hkeeps.1 he, h.exclusive.acquire he, fun j => ?_⟩
      by_cases hj : j = i
      · subst hj
        refine ⟨k (), Function.update_self .., ?_⟩
        show D.Keeps _ (k ()) ((m.state.acquire j l mode).held j) (phase j)
        rw [LockState.acquire_held_self]
        exact hkeeps.2.2
      · show ∃ p, _ ∧ D.Keeps _ p ((m.state.acquire i l mode).held j) (phase j)
        rw [LockState.acquire_held_ne hj]
        exact hothers j hj
    | release l =>
      refine ⟨phase, .release hkeeps.1, h.exclusive.release, fun j => ?_⟩
      by_cases hj : j = i
      · subst hj
        refine ⟨k (), Function.update_self .., ?_⟩
        show D.Keeps _ (k ()) ((m.state.release j l).held j) (phase j)
        rw [LockState.release_held_self]
        exact hkeeps.2.2
      · show ∃ p, _ ∧ D.Keeps _ p ((m.state.release i l).held j) (phase j)
        rw [LockState.release_held_ne hj]
        exact hothers j hj
    | act a =>
      refine ⟨_, .act hkeeps.1 he, h.exclusive, fun j => ?_⟩
      by_cases hj : j = i
      · subst hj
        refine ⟨k (M.handle a m.state.state).1, Function.update_self .., ?_⟩
        rw [Function.update_self]
        exact hkeeps.2 _
      · rw [Function.update_of_ne hj]
        exact hothers j hj

/-- A run of disciplined programs, where nothing else touches the locks. -/
theorem run {E : LockState σ ι Lock → LockState σ ι Lock → Prop} (hE : ∀ g g', E g g' → g'.held = g.held)
    {tr : List (LockEvent σ ι Lock Act Res α)}
    {m' : LockConfig σ ι Lock Act Res α}
    (h : D.Disciplined m phase) (hrun : Run M.locked E m tr m') : ∃ phase', D.Disciplined m' phase' := by
  refine hrun.inv (I := fun m => ∃ phase, D.Disciplined m phase) ⟨phase, h⟩ ?_ ?_
  · rintro m s' ⟨phase, hm⟩ he
    exact ⟨phase, hm.env (hE _ _ he)⟩
  · rintro e - ⟨phase, hm⟩ hn he
    obtain ⟨-, phase', -, hm'⟩ := hm.advance hn he
    exact ⟨phase', hm'⟩

end Disciplined

end Discipline

end
