import Bcmd.Lib.Locks

/-!
# Critical sections are atomic

Stores, each behind a reader-writer lock of its own. A method takes the lock of its store, runs its body
line by line and releases the lock, and a method that shares the lock only reads. `Monitors.serializable`:
whatever threads do with the methods, every interleaving of the lines is an interleaving of whole methods,
each of which happens at once when its thread takes the lock.
-/

/-- The methods of a family of stores, with how they lock and the lines of their bodies. -/
structure Monitors {L : Type} (σ Op Act : L → Type) (Res : ∀ l, Act l → Type)
    (OpRes : ∀ l, Op l → Type) where
  line : ∀ l, Machine (σ l) (Act l) (Res l)
  mode : ∀ {l}, Op l → LockMode
  body : ∀ {l} (o : Op l), Prog (Act l) (Res l) (OpRes l o)
  /-- Who shares the lock only reads. -/
  reads : ∀ {l} (o : Op l), mode o = .shared → (body o).Calls fun a => ∀ s, ((line l).handle a s).2 = s

theorem Prog.eq_ret_of_as {ι Lock Act α : Type} {Res : Act → Type} {i : ι} {p : LockProg Lock Act Res α}
    {a : α} (h : Prog.as i p = .ret a) : p = .ret a := by
  cases p with
  | ret b => exact congrArg Prog.ret (Prog.ret.inj h)
  | call c k => cases h

namespace Monitors
variable {L : Type} {σ Op Act : L → Type} {Res : ∀ l, Act l → Type} {OpRes : ∀ l, Op l → Type}
  {ι α β : Type} [DecidableEq ι] [DecidableEq L] (D : Monitors σ Op Act Res OpRes)
open Prog

/-- One line of a method, at its own store. -/
def lines : Machine (∀ l, σ l) (Σ l, Act l) (fun a => Res a.1 a.2) where
  handle a s :=
    (((D.line a.1).handle a.2 (s a.1)).1, Function.update s a.1 ((D.line a.1).handle a.2 (s a.1)).2)

instance : ∀ a s, Decidable (D.lines.enabled a s) := fun _ _ => inferInstanceAs (Decidable True)

/-- One method, all at once. -/
def methods : Machine (∀ l, σ l) (Σ l, Op l) (fun o => OpRes o.1 o.2) where
  handle o s :=
    (((D.line o.1).exec (D.body o.2) (s o.1)).1,
      Function.update s o.1 ((D.line o.1).exec (D.body o.2) (s o.1)).2)

/-- The lines of a body, as lines of the family. -/
def within (l : L) : Prog (Act l) (Res l) α →
    LockProg L (Σ l, Act l) (fun a => Res a.1 a.2) α
  | .ret a => .ret a
  | .call a k => .call (.act ⟨l, a⟩) fun r => within l (k r)

/-- A program that calls methods, line by line. -/
def expand : Prog (Σ l, Op l) (fun o => OpRes o.1 o.2) α →
    LockProg L (Σ l, Act l) (fun a => Res a.1 a.2) α
  | .ret a => .ret a
  | .call o k => withLock o.1 (D.mode o.2) (within o.1 (D.body o.2)) >>= fun r => expand (k r)

/-- The rest of a method, from some line of its body on, and what its caller does then. -/
def rest {l : L} (q : Prog (Act l) (Res l) β) (k : β → Prog (Σ l, Op l) (fun o => OpRes o.1 o.2) α) :
    LockProg L (Σ l, Act l) (fun a => Res a.1 a.2) α :=
  within l q >>= fun r => .call (.release l) fun _ => D.expand (k r)

omit [DecidableEq L] in
/-- A program that only reads leaves the store as it is. -/
theorem exec_of_reads {l : L} {q : Prog (Act l) (Res l) β} {s : σ l}
    (h : q.Calls fun a => ∀ s, ((D.line l).handle a s).2 = s) : ((D.line l).exec q s).2 = s :=
  Machine.exec_preserves (I := (· = s)) _ (fun _ s' ha hs' => (ha s').trans hs') h rfl

omit [DecidableEq L] in
theorem expand_call (o : Σ l, Op l) (k : OpRes o.1 o.2 → Prog (Σ l, Op l) (fun o => OpRes o.1 o.2) α) :
    D.expand (.call o k) = .call (.acquire o.1 (D.mode o.2)) fun _ => D.rest (D.body o.2) k := by
  unfold rest
  show (withLock o.1 (D.mode o.2) (within o.1 (D.body o.2)) >>= fun r => D.expand (k r)) = _
  unfold withLock
  rw [call_bind]
  simp only [bind_assoc, call_bind, ret_bind]

omit [DecidableEq L] in
theorem expand_eq_ret {p : Prog (Σ l, Op l) (fun o => OpRes o.1 o.2) α} {a : α} (h : D.expand p = .ret a) :
    p = .ret a := by
  cases p with
  | ret b => exact congrArg Prog.ret (Prog.ret.inj h)
  | call o k =>
    rw [expand_call] at h
    cases h

abbrev Fine (_ : Monitors σ Op Act Res OpRes) (ι α : Type) :=
  LockConfig (∀ l, σ l) ι L (Σ l, Act l) (fun a => Res a.1 a.2) α

abbrev Coarse (_ : Monitors σ Op Act Res OpRes) (ι α : Type) :=
  Config (∀ l, σ l) ι (Σ l, Op l) (fun o => OpRes o.1 o.2) α

/-- The threads in the order in which they take locks, and which. -/
def acquired (tr : List (LockEvent (∀ l, σ l) ι L (Σ l, Act l) (fun a => Res a.1 a.2) α)) : List (ι × L) :=
  tr.filterMap fun e =>
    match e.call.2 with
    | .acquire l _ => some (e.thread, l)
    | _ => none

/-- The threads in the order in which they call methods, and of which store. -/
def called (tr : List (Event (∀ l, σ l) ι (Σ l, Op l) (fun o => OpRes o.1 o.2) α)) : List (ι × L) :=
  tr.map fun e => (e.thread, e.call.1)

/-- Where a thread is, when whole methods have come to `c`: before its next method, or inside one that has
happened in `c` already. -/
inductive At (g : LockState (∀ l, σ l) ι L) (c : D.Coarse ι α) (i : ι) :
    LockProg L (Σ l, Act l) (fun a => Res a.1 a.2) α → Prop
  | outside (hheld : g.held i = fun _ => none) : At g c i (D.expand (c.threads i))
  | inside {l : L} {o : Op l} {q : Prog (Act l) (Res l) (OpRes l o)}
      {k : OpRes l o → Prog (Σ l, Op l) (fun o => OpRes o.1 o.2) α}
      (hheld : g.held i = Function.update (fun _ => none) l (some (D.mode o)))
      (hthread : c.threads i = k ((D.line l).exec q (g.state l)).1)
      (hwrites : D.mode o = .exclusive → c.state l = ((D.line l).exec q (g.state l)).2)
      (hreads : D.mode o = .shared → q.Calls fun a => ∀ s, ((D.line l).handle a s).2 = s) :
      At g c i (D.rest q k)

/-- The lines have come to `m` and whole methods to `c`. -/
structure Sim (m : D.Fine ι α) (c : D.Coarse ι α) : Prop where
  exclusive : m.state.Exclusive
  threads : ∀ i, ∃ p, m.threads i = Prog.as i p ∧ D.At m.state c i p
  /-- Nobody is changing the store. -/
  state : ∀ l, (∀ i, m.state.held i l ≠ some .exclusive) → c.state l = m.state.state l

section
variable {D} {m : D.Fine ι α} {c : D.Coarse ι α} {i j : ι} {l : L}

omit [DecidableEq ι] in
theorem Sim.new (s : ∀ l, σ l) (programs : ι → Prog (Σ l, Op l) (fun o => OpRes o.1 o.2) α) :
    D.Sim ⟨LockState.new s, fun i => Prog.as i (D.expand (programs i))⟩ ⟨s, programs⟩ where
  exclusive := by
    intro i j l h
    cases h
  threads i := ⟨_, rfl, .outside rfl⟩
  state _ _ := rfl

omit [DecidableEq ι] in
/-- A thread that holds nothing of the store that changes, or shares it while it is only read, is where it
was. -/
theorem At.frame {g g' : LockState (∀ l, σ l) ι L} {c c' : D.Coarse ι α}
    {p : LockProg L (Σ l, Act l) (fun a => Res a.1 a.2) α} (h : D.At g c j p)
    (hheld : g'.held j = g.held j) (hthread : c'.threads j = c.threads j)
    (hfine : ∀ l', g.held j l' ≠ none → g'.state l' = g.state l')
    (hcoarse : ∀ l', g.held j l' = some .exclusive → c'.state l' = c.state l') : D.At g' c' j p := by
  cases h with
  | outside hnone =>
    rw [← hthread]
    exact .outside (hheld.trans hnone)
  | @inside l o q k hin hk hwrites hreads =>
    have hself : g.held j l = some (D.mode o) := by rw [hin, Function.update_self]
    have hstate : g'.state l = g.state l := hfine l (by simp [hself])
    refine .inside (hheld.trans hin) ?_ ?_ hreads
    · rw [hthread, hstate]
      exact hk
    · intro hmode
      rw [hstate, hcoarse l (by rw [hself, hmode])]
      exact hwrites hmode

/-- The thread takes the lock of its next method, and the method has happened. -/
theorem Sim.acquire (h : D.Sim m c) {o : Σ l, Op l}
    {k : OpRes o.1 o.2 → Prog (Σ l, Op l) (fun o => OpRes o.1 o.2) α} (hc : c.threads i = .call o k)
    (hm : m.threads i = Prog.as i (D.expand (c.threads i))) (hheld : m.state.held i = fun _ => none)
    (hfree : m.state.Free o.1 (D.mode o.2)) :
    D.Sim (m.advance D.lines.locked i) (c.advance D.methods i) := by
  rw [hc, expand_call] at hm
  have hunused : ∀ j, m.state.held j o.1 ≠ some .exclusive := by
    intro j hj
    cases hmode : D.mode o.2 with
    | shared =>
      rw [hmode] at hfree
      exact hfree j hj
    | exclusive =>
      rw [hmode] at hfree
      rw [hfree j] at hj
      cases hj
  have hstate : c.state o.1 = m.state.state o.1 := h.state o.1 hunused
  rw [Config.advance_of_call hm, Config.advance_of_call hc]
  refine ⟨h.exclusive.acquire hfree, fun j => ?_, fun l hl => ?_⟩
  · by_cases hj : j = i
    · subst hj
      refine ⟨_, Function.update_self .., .inside (o := o.2) ?_ ?_ ?_ (D.reads o.2)⟩
      · show (m.state.acquire j o.1 _).held j = _
        rw [LockState.acquire_held_self, hheld]
      · show Function.update c.threads j _ j = _
        rw [Function.update_self]
        show k ((D.line o.1).exec (D.body o.2) (c.state o.1)).1 = _
        rw [hstate]
        rfl
      · intro _
        show Function.update c.state o.1 ((D.line o.1).exec (D.body o.2) (c.state o.1)).2 o.1 = _
        rw [Function.update_self, hstate]
        rfl
    · obtain ⟨p, hp, hat⟩ := h.threads j
      refine ⟨p, (Function.update_of_ne hj ..).trans hp, hat.frame ?_ ?_ ?_ ?_⟩
      · exact LockState.acquire_held_ne hj
      · exact Function.update_of_ne hj ..
      · intro l' _
        rfl
      · intro l' hl'
        have hne : l' ≠ o.1 := by
          rintro rfl
          exact hunused j hl'
        exact Function.update_of_ne hne ..
  · show Function.update c.state o.1 ((D.line o.1).exec (D.body o.2) (c.state o.1)).2 l = m.state.state l
    by_cases hlo : l = o.1
    · subst hlo
      have hmode : D.mode o.2 = .shared := by
        have hi := hl i
        simp only [Machine.locked, LockState.acquire_held_self, Function.update_self] at hi
        cases hmode : D.mode o.2 with
        | shared => rfl
        | exclusive => exact absurd (by rw [hmode]) hi
      rw [Function.update_self, D.exec_of_reads (D.reads o.2 hmode), hstate]
    · rw [Function.update_of_ne hlo]
      refine h.state l fun j hj => hl j ?_
      show (m.state.acquire i o.1 _).held j l = _
      by_cases hji : j = i
      · subst hji
        rw [LockState.acquire_held_self, Function.update_of_ne hlo]
        exact hj
      · rw [LockState.acquire_held_ne hji]
        exact hj

/-- The thread has done all lines of its method and releases the lock. -/
theorem Sim.release (h : D.Sim m c) {o : Op l} {r : OpRes l o}
    {k : OpRes l o → Prog (Σ l, Op l) (fun o => OpRes o.1 o.2) α}
    (hm : m.threads i = .call (i, .release l) fun _ => Prog.as i (D.expand (k r)))
    (hheld : m.state.held i = Function.update (fun _ => none) l (some (D.mode o)))
    (hthread : c.threads i = k r) (hwrites : D.mode o = .exclusive → c.state l = m.state.state l) :
    D.Sim (m.advance D.lines.locked i) c := by
  rw [Config.advance_of_call hm]
  refine ⟨h.exclusive.release, fun j => ?_, fun l' hl' => ?_⟩
  · by_cases hj : j = i
    · subst hj
      rw [← hthread]
      refine ⟨_, Function.update_self .., .outside ?_⟩
      show (m.state.release j l).held j = _
      rw [LockState.release_held_self, hheld, Function.update_idem]
      exact Function.update_eq_self ..
    · obtain ⟨p, hp, hat⟩ := h.threads j
      exact ⟨p, (Function.update_of_ne hj ..).trans hp, hat.frame (LockState.release_held_ne hj) rfl
        (fun _ _ => rfl) (fun _ _ => rfl)⟩
  · have hothers : ∀ j, j ≠ i → m.state.held j l' ≠ some .exclusive := by
      intro j hj hjl
      refine hl' j ?_
      show (m.state.release i l).held j l' = _
      rw [LockState.release_held_ne hj]
      exact hjl
    show c.state l' = m.state.state l'
    by_cases hll : l' = l
    · subst hll
      cases hmode : D.mode o with
      | exclusive => exact hwrites hmode
      | shared =>
        refine h.state l' fun j hj => ?_
        by_cases hji : j = i
        · subst hji
          rw [hheld, Function.update_self, hmode] at hj
          cases hj
        · exact hothers j hji hj
    · refine h.state l' fun j hj => ?_
      by_cases hji : j = i
      · subst hji
        rw [hheld, Function.update_of_ne hll] at hj
        cases hj
      · exact hothers j hji hj

/-- The thread does the next line of its method. -/
theorem Sim.line (h : D.Sim m c) {o : Op l} {a : Act l} {q : Res l a → Prog (Act l) (Res l) (OpRes l o)}
    {k : OpRes l o → Prog (Σ l, Op l) (fun o => OpRes o.1 o.2) α}
    (hm : m.threads i = .call (i, .act ⟨l, a⟩) fun r => Prog.as i (D.rest (q r) k))
    (hheld : m.state.held i = Function.update (fun _ => none) l (some (D.mode o)))
    (hthread : c.threads i = k ((D.line l).exec (.call a q) (m.state.state l)).1)
    (hwrites : D.mode o = .exclusive → c.state l = ((D.line l).exec (.call a q) (m.state.state l)).2)
    (hreads : D.mode o = .shared → (Prog.call a q).Calls fun a => ∀ s, ((D.line l).handle a s).2 = s) :
    D.Sim (m.advance D.lines.locked i) c := by
  have hself : m.state.held i l = some (D.mode o) := by rw [hheld, Function.update_self]
  have hshared : D.mode o = .shared →
      Function.update m.state.state l ((D.line l).handle a (m.state.state l)).2 = m.state.state := by
    intro hmode
    rw [(hreads hmode).1, Function.update_eq_self]
  rw [Config.advance_of_call hm]
  refine ⟨h.exclusive, fun j => ?_, fun l' hl' => ?_⟩
  · by_cases hj : j = i
    · subst hj
      refine ⟨_, Function.update_self .., .inside (o := o) hheld ?_ ?_ fun hmode => (hreads hmode).2 _⟩
      · show c.threads j = k ((D.line l).exec _ (Function.update m.state.state l _ l)).1
        rw [Function.update_self]
        exact hthread
      · intro hmode
        show c.state l = ((D.line l).exec _ (Function.update m.state.state l _ l)).2
        rw [Function.update_self]
        exact hwrites hmode
    · obtain ⟨p, hp, hat⟩ := h.threads j
      refine ⟨p, (Function.update_of_ne hj ..).trans hp, hat.frame rfl rfl ?_ fun _ _ => rfl⟩
      intro l' hl'
      show Function.update m.state.state l _ l' = m.state.state l'
      by_cases hll : l' = l
      · subst hll
        cases hmode : D.mode o with
        | exclusive => exact absurd (h.exclusive i j l' (by rw [hself, hmode]) hl').symm hj
        | shared => exact congrFun (hshared hmode) l'
      · exact Function.update_of_ne hll ..
  · show c.state l' = Function.update m.state.state l _ l'
    by_cases hll : l' = l
    · subst hll
      have hmode : D.mode o = .shared := by
        cases hmode : D.mode o with
        | shared => rfl
        | exclusive => exact absurd (hself.trans (by rw [hmode])) (hl' i)
      rw [h.state l' hl']
      exact (congrFun (hshared hmode) l').symm
    · rw [Function.update_of_ne hll]
      exact h.state l' hl'

/-- A thread takes its method's lock, and the method has happened, or it goes on with what has happened. -/
theorem Sim.step (h : D.Sim m c) {a : ι × LockCall L (Σ l, Act l)} (hn : (m.threads i).next = some a)
    (he : D.lines.locked.enabled a m.state) :
    (∃ o, a = (i, .acquire o.1 (D.mode o.2)) ∧ (c.threads i).next = some o ∧
        D.Sim (m.advance D.lines.locked i) (c.advance D.methods i)) ∨
      (∀ l mode, a.2 ≠ .acquire l mode) ∧ D.Sim (m.advance D.lines.locked i) c := by
  obtain ⟨p, hp, hat⟩ := h.threads i
  cases hat with
  | outside hheld =>
    cases hc : c.threads i with
    | ret b =>
      rw [hp, hc] at hn
      cases hn
    | call o k =>
      have ha := hn
      rw [hp, hc, expand_call] at ha
      cases ha
      exact .inl ⟨o, rfl, rfl, h.acquire hc hp hheld he⟩
  | @inside l o q k hheld hthread hwrites hreads =>
    rw [hp] at hn
    cases q with
    | ret r =>
      cases hn
      exact .inr ⟨by simp, h.release hp hheld hthread hwrites⟩
    | call b q =>
      cases hn
      exact .inr ⟨by simp, h.line hp hheld hthread hwrites hreads⟩

omit [DecidableEq ι] in
/-- A thread that is through has the result that it has of whole methods. -/
theorem Sim.result (h : D.Sim m c) {r : α} (hr : m.threads i = .ret r) : c.threads i = .ret r := by
  obtain ⟨p, hp, hat⟩ := h.threads i
  rw [hr] at hp
  cases hat with
  | outside hheld => exact D.expand_eq_ret (Prog.eq_ret_of_as hp.symm)
  | @inside l o q k hheld hthread hwrites hreads =>
    have hret := Prog.eq_ret_of_as hp.symm
    cases q <;> cases hret

omit [DecidableEq ι] in
/-- When all are through, the stores are what whole methods make of them. -/
theorem Sim.final (h : D.Sim m c) (hm : ∀ i, ∃ r, m.threads i = .ret r) : c.state = m.state.state := by
  funext l
  refine h.state l fun i hi => ?_
  obtain ⟨r, hr⟩ := hm i
  obtain ⟨p, hp, hat⟩ := h.threads i
  rw [hr] at hp
  cases hat with
  | outside hheld =>
    rw [hheld] at hi
    cases hi
  | @inside l o q k hheld hthread hwrites hreads =>
    have hret := Prog.eq_ret_of_as hp.symm
    cases q <;> cases hret

/-- Unless all are through, some thread can go on. -/
theorem Sim.progress (h : D.Sim m c) :
    (∀ i, ∃ r, m.threads i = .ret r) ∨
      ∃ i a, (m.threads i).next = some a ∧ D.lines.locked.enabled a m.state := by
  by_cases hin : ∃ i l, m.state.held i l ≠ none
  · -- a thread inside a method does not wait for anybody
    obtain ⟨i, l, hil⟩ := hin
    obtain ⟨p, hp, hat⟩ := h.threads i
    cases hat with
    | outside hheld =>
      rw [hheld] at hil
      exact absurd rfl hil
    | @inside l o q k hheld hthread hwrites hreads =>
      cases q with
      | ret r => exact .inr ⟨i, (i, .release l), by rw [hp]; rfl, trivial⟩
      | call b q => exact .inr ⟨i, (i, .act ⟨l, b⟩), by rw [hp]; rfl, trivial⟩
  · have hfree : ∀ i l, m.state.held i l = none := by
      intro i l
      by_contra hil
      exact hin ⟨i, l, hil⟩
    by_cases hall : ∀ i, ∃ r, m.threads i = .ret r
    · exact .inl hall
    · rw [not_forall] at hall
      obtain ⟨i, hi⟩ := hall
      obtain ⟨p, hp, hat⟩ := h.threads i
      cases hat with
      | outside hheld =>
        cases hc : c.threads i with
        | ret r =>
          rw [hc] at hp
          exact absurd ⟨r, hp⟩ hi
        | call o k =>
          rw [hc, expand_call] at hp
          refine .inr ⟨i, (i, .acquire o.1 (D.mode o.2)), by rw [hp]; rfl, ?_⟩
          show m.state.Free o.1 (D.mode o.2)
          cases D.mode o.2 with
          | shared =>
            intro j hj
            rw [hfree j] at hj
            cases hj
          | exclusive => exact fun j => hfree j o.1
      | @inside l o q k hheld hthread hwrites hreads =>
        have hself : m.state.held i l = some (D.mode o) := by rw [hheld, Function.update_self]
        rw [hfree i l] at hself
        cases hself

/-- Every run of lines is a run of whole methods, called in the order in which the threads take the locks. -/
theorem serializable {s : ∀ l, σ l} {programs : ι → Prog (Σ l, Op l) (fun o => OpRes o.1 o.2) α}
    {tr : List (LockEvent (∀ l, σ l) ι L (Σ l, Act l) (fun a => Res a.1 a.2) α)}
    (h : Run D.lines.locked (fun _ _ => False)
      ⟨LockState.new s, fun i => Prog.as i (D.expand (programs i))⟩ tr m) :
    ∃ tr' c, Run D.methods (fun _ _ => False) ⟨s, programs⟩ tr' c ∧ called tr' = acquired tr ∧
      D.Sim m c := by
  induction h with
  | refl => exact ⟨[], _, .refl, rfl, .new s programs⟩
  | env _ he => exact he.elim
  | @step _ _ _ a _ hn he ih =>
    obtain ⟨tr', c, hrun, htr, hsim⟩ := ih
    obtain ⟨o, rfl, hc, hsim'⟩ | ⟨hother, hsim'⟩ := hsim.step hn he
    · refine ⟨_, _, hrun.step hc trivial, ?_, hsim'⟩
      unfold called acquired at htr ⊢
      rw [List.map_append, List.filterMap_append, htr]
      rfl
    · refine ⟨tr', c, hrun, ?_, hsim'⟩
      unfold acquired at htr ⊢
      rw [List.filterMap_append, htr]
      obtain ⟨j, _ | _ | _⟩ := a
      case acquire l mode => exact absurd rfl (hother l mode)
      all_goals exact (List.append_nil _).symm

end

end Monitors
