import Bcmd.Lib.Pool
import Mathlib.Data.List.Induction

/-!
# Two runs side by side

A schedule is a list of ticks, each with the thread that is to move and the moment at which it does, so
the same schedule can be played from two configurations. An `Unwinding` says which states look alike,
which calls answer alike in them and which calls are not seen at all. Threads that make only such calls,
in step (`Twins`) or unseen (`Unseen`), lead from alike configurations to alike ones (`Unwinding.play`).
-/

/-- At the moment `moment` the thread is to move, or none is. -/
structure Tick (τ ι : Type) where
  moment : τ
  thread : Option ι

section
variable {σ τ ι Call : Type} {Res : Call → Type} {α β : Type} [DecidableEq ι]
variable (M : Machine σ Call Res) [∀ o s, Decidable (M.enabled o s)] (set : τ → σ → σ)

/-- The moment comes, and the thread moves if it has not returned and may call. -/
def Config.tick (c : Config σ ι Call Res α) (t : Tick τ ι) : Config σ ι Call Res α :=
  let c' : Config σ ι Call Res α := ⟨set t.moment c.state, c.threads⟩
  match t.thread with
  | none => c'
  | some i =>
    match (c.threads i).next with
    | none => c'
    | some o => if M.enabled o c'.state then c'.advance M i else c'

def play (c : Config σ ι Call Res α) (ts : List (Tick τ ι)) : Config σ ι Call Res α :=
  ts.foldl (Config.tick M set) c

variable {M set} {c c' m : Config σ ι Call Res α} {ts : List (Tick τ ι)} {t : Tick τ ι} {i : ι} {o : Call}

@[simp] theorem play_nil : play M set c [] = c := rfl

theorem play_snoc : play M set c (ts ++ [t]) = (play M set c ts).tick M set t := by
  simp [play]

theorem tick_of_call {k : Res o → Prog Call Res α} (ht : t.thread = some i) (h : c.threads i = .call o k)
    (he : M.enabled o (set t.moment c.state)) :
    c.tick M set t = ⟨(M.handle o (set t.moment c.state)).2,
      Function.update c.threads i (k (M.handle o (set t.moment c.state)).1)⟩ := by
  unfold Config.tick
  simp only [ht, h, Prog.next_call]
  rw [if_pos he]
  exact Config.advance_of_call h

/-- A tick without a step: the thread has returned, or must wait, or there is none. -/
theorem tick_of_idle (h : ∀ i o, t.thread = some i → (c.threads i).next = some o →
    ¬ M.enabled o (set t.moment c.state)) :
    c.tick M set t = ⟨set t.moment c.state, c.threads⟩ := by
  unfold Config.tick
  rcases ht : t.thread with _ | i
  · rfl
  dsimp only
  rcases ho : (c.threads i).next with _ | o
  · rfl
  · exact if_neg (h i o ht ho)

/-- What the moments and the calls of the threads keep, a play keeps. -/
theorem play_inv {I : σ → Prop} {P : Call → Prop} (h0 : I c.state) (hset : ∀ t s, I s → I (set t s))
    (hcalls : ∀ i, (c.threads i).Calls P) (hstep : ∀ o s, P o → I s → I (M.handle o s).2)
    (ts : List (Tick τ ι)) :
    I (play M set c ts).state := by
  have hboth : I (play M set c ts).state ∧ ∀ i, ((play M set c ts).threads i).Calls P := by
    induction ts using List.reverseRecOn with
    | nil => exact ⟨h0, hcalls⟩
    | append_singleton ts t ih =>
      obtain ⟨hI, hP⟩ := ih
      rw [play_snoc]
      by_cases hmove : ∃ i o, t.thread = some i ∧ ((play M set c ts).threads i).next = some o ∧
          M.enabled o (set t.moment (play M set c ts).state)
      · obtain ⟨i, o, ht, hnext, he⟩ := hmove
        obtain ⟨k, hk⟩ := Prog.eq_call_of_next hnext
        have hcall := hP i
        rw [hk] at hcall
        rw [tick_of_call ht hk he]
        refine ⟨hstep o _ hcall.1 (hset _ _ hI), fun j => ?_⟩
        by_cases hj : j = i
        · subst hj
          simpa using hcall.2 _
        · simpa [Function.update_of_ne hj] using hP j
      · rw [tick_of_idle fun i o ht hnext he => hmove ⟨i, o, ht, hnext, he⟩]
        exact ⟨hset _ _ hI, hP⟩
  exact hboth.1

end

/-! ### States that look alike -/

section
variable {σ τ ι Call : Type} {Res : Call → Type} {α β : Type}
variable (M : Machine σ Call Res) (set : τ → σ → σ)

/-- `Alike` states become `Same` at the same moment, where `Shown` calls answer alike and keep them alike.
An `Unseen` call leaves a state alike to what it was before. All this as long as `Ok` holds. -/
structure Unwinding (Alike Same : σ → σ → Prop) (Ok : σ → Prop) (Shown Unseen : Call → Prop) : Prop where
  symm : ∀ {s s'}, Alike s s' → Alike s' s
  moment : ∀ t {s}, Ok s → Ok (set t s)
  same : ∀ t {s s'}, Alike s s' → Same (set t s) (set t s')
  alike : ∀ {s s'}, Same s s' → Alike s s'
  ok : ∀ {s s'}, Alike s s' → Ok s → Ok s'
  enabled : ∀ o {s s'}, Shown o → Same s s' → (M.enabled o s ↔ M.enabled o s')
  answer : ∀ o {s s'}, Shown o → Same s s' → (M.handle o s).1 = (M.handle o s').1
  step : ∀ o {s s'}, Shown o → Same s s' → Alike (M.handle o s).2 (M.handle o s').2
  unseen : ∀ o {s s'}, Unseen o → Ok s → Alike s s' → Alike (M.handle o s).2 s'

variable (Ok : σ → Prop) (Shown Unseen : Call → Prop)

/-- Two programs that make the same shown calls and return the same, whatever the answers. -/
inductive Twins : Prog Call Res α → Prog Call Res α → Prop
  | ret (a : α) : Twins (.ret a) (.ret a)
  | call {o : Call} {k k' : Res o → Prog Call Res α} (ho : Shown o)
      (h : ∀ s, Ok s → Twins (k (M.handle o s).1) (k' (M.handle o s).1)) : Twins (.call o k) (.call o k')

/-- A program that makes only unseen calls, whatever the answers. -/
def UnseenProg : Prog Call Res α → Prop
  | .ret _ => True
  | .call o k => Unseen o ∧ ∀ s, Ok s → UnseenProg (k (M.handle o s).1)

variable {M set Ok Shown Unseen}

theorem Twins.of_calls {p : Prog Call Res α} (h : p.Calls Shown) : Twins M Ok Shown p p := by
  induction p with
  | ret a => exact .ret a
  | call o k ih => exact .call h.1 fun s _ => ih _ (h.2 _)

theorem Twins.bind {p p' : Prog Call Res α} {f f' : α → Prog Call Res β} (h : Twins M Ok Shown p p')
    (hf : ∀ a, Twins M Ok Shown (f a) (f' a)) : Twins M Ok Shown (p >>= f) (p' >>= f') := by
  induction h with
  | ret a => exact hf a
  | call ho _ ih => exact .call ho ih

theorem Twins.result_eq {p p' : Prog Call Res α} (h : Twins M Ok Shown p p') : p.result = p'.result := by
  cases h <;> rfl

theorem UnseenProg.of_calls {p : Prog Call Res α} (h : p.Calls Unseen) : UnseenProg M Ok Unseen p := by
  induction p with
  | ret a => trivial
  | call o k ih => exact ⟨h.1, fun s _ => ih _ (h.2 _)⟩

theorem UnseenProg.bind {p : Prog Call Res α} {f : α → Prog Call Res β} (h : UnseenProg M Ok Unseen p)
    (hf : ∀ a, UnseenProg M Ok Unseen (f a)) : UnseenProg M Ok Unseen (p >>= f) := by
  induction p with
  | ret a => exact hf a
  | call o k ih => exact ⟨h.1, fun s hs => ih _ (h.2 s hs)⟩

variable [DecidableEq ι] [∀ o s, Decidable (M.enabled o s)] {Alike Same : σ → σ → Prop}
  {c c' : Config σ ι Call Res α}

/-- The two programs of a thread: twins, or neither is seen. -/
def Paired (M : Machine σ Call Res) (Ok : σ → Prop) (Shown Unseen : Call → Prop) (seen : Prop)
    (p p' : Prog Call Res α) :
    Prop :=
  Twins M Ok Shown p p' ∨ ¬ seen ∧ UnseenProg M Ok Unseen p ∧ UnseenProg M Ok Unseen p'

/-- An unseen thread moves in one configuration: the states stay alike and the thread unseen. -/
theorem Unwinding.tick_unseen (h : Unwinding M set Alike Same Ok Shown Unseen) {t : Tick τ ι} {i : ι}
    (ht : t.thread = some i) (hi : UnseenProg M Ok Unseen (c.threads i))
    (hok : Ok (set t.moment c.state)) {s' : σ} (hs : Alike (set t.moment c.state) s') :
    Alike (c.tick M set t).state s' ∧ UnseenProg M Ok Unseen ((c.tick M set t).threads i) ∧
      ∀ j, j ≠ i → (c.tick M set t).threads j = c.threads j := by
  have hidle : c.tick M set t = ⟨set t.moment c.state, c.threads⟩ →
      Alike (c.tick M set t).state s' ∧ UnseenProg M Ok Unseen ((c.tick M set t).threads i) ∧
        ∀ j, j ≠ i → (c.tick M set t).threads j = c.threads j := by
    intro heq
    rw [heq]
    exact ⟨hs, hi, fun _ _ => rfl⟩
  rcases hp : c.threads i with a | ⟨o, k⟩
  · refine hidle (tick_of_idle fun j o hj hnext => ?_)
    rw [ht] at hj
    cases hj
    rw [hp] at hnext
    cases hnext
  · by_cases he : M.enabled o (set t.moment c.state)
    · rw [tick_of_call ht hp he]
      rw [hp] at hi
      refine ⟨h.unseen o hi.1 hok hs, ?_, fun j hj => Function.update_of_ne hj ..⟩
      show UnseenProg M Ok Unseen (Function.update c.threads i _ i)
      rw [Function.update_self]
      exact hi.2 _ hok
    · refine hidle (tick_of_idle fun j o' hj hnext => ?_)
      rw [ht] at hj
      cases hj
      rw [hp] at hnext
      cases hnext
      exact he

/-- One tick in both configurations. -/
theorem Unwinding.tick (h : Unwinding M set Alike Same Ok Shown Unseen) {seen : ι → Prop}
    (hstate : Alike c.state c'.state)
    (hthreads : ∀ i, Paired M Ok Shown Unseen (seen i) (c.threads i) (c'.threads i)) (hok : Ok c.state)
    (t : Tick τ ι) :
    Alike (c.tick M set t).state (c'.tick M set t).state ∧
      ∀ i, Paired M Ok Shown Unseen (seen i) ((c.tick M set t).threads i) ((c'.tick M set t).threads i) := by
  have hsame := h.same t.moment hstate
  have hok₁ := h.moment t.moment hok
  have hidle : (∀ i o, t.thread = some i → (c.threads i).next = some o →
    ¬ M.enabled o (set t.moment c.state)) →
      (∀ i o, t.thread = some i → (c'.threads i).next = some o → ¬ M.enabled o (set t.moment c'.state)) →
      Alike (c.tick M set t).state (c'.tick M set t).state ∧
        ∀ i, Paired M Ok Shown Unseen (seen i) ((c.tick M set t).threads i)
          ((c'.tick M set t).threads i) := by
    intro hc hc'
    rw [tick_of_idle hc, tick_of_idle hc']
    exact ⟨h.alike hsame, hthreads⟩
  rcases ht : t.thread with _ | i
  · exact hidle (fun i o hi => nomatch ht.symm.trans hi) fun i o hi => nomatch ht.symm.trans hi
  rcases hthreads i with htwins | ⟨hunseen, hi, hi'⟩
  · generalize hp : c.threads i = p at htwins
    generalize hp' : c'.threads i = p' at htwins
    cases htwins with
    | ret a =>
      refine hidle (fun j o hj hnext => ?_) fun j o hj hnext => ?_
      · obtain rfl : i = j := Option.some.inj (ht.symm.trans hj)
        exact nomatch (congrArg Prog.next hp).symm.trans hnext
      · obtain rfl : i = j := Option.some.inj (ht.symm.trans hj)
        exact nomatch (congrArg Prog.next hp').symm.trans hnext
    | @call o k k' ho hk =>
      by_cases he : M.enabled o (set t.moment c.state)
      · have he' := (h.enabled o ho hsame).1 he
        rw [tick_of_call ht hp he, tick_of_call ht hp' he']
        refine ⟨h.step o ho hsame, fun j => ?_⟩
        by_cases hj : j = i
        · subst hj
          left
          show Twins M Ok Shown (Function.update c.threads j _ j) (Function.update c'.threads j _ j)
          rw [Function.update_self, Function.update_self, ← h.answer o ho hsame]
          exact hk _ hok₁
        · show Paired M Ok Shown Unseen (seen j) (Function.update c.threads i _ j)
            (Function.update c'.threads i _ j)
          rw [Function.update_of_ne hj, Function.update_of_ne hj]
          exact hthreads j
      · refine hidle (fun j o' hj hnext => ?_) fun j o' hj hnext => ?_
        · obtain rfl : i = j := Option.some.inj (ht.symm.trans hj)
          obtain rfl : o = o' := Option.some.inj ((congrArg Prog.next hp).symm.trans hnext)
          exact he
        · obtain rfl : i = j := Option.some.inj (ht.symm.trans hj)
          obtain rfl : o = o' := Option.some.inj ((congrArg Prog.next hp').symm.trans hnext)
          exact fun he' => he ((h.enabled o ho hsame).2 he')
  · -- first the one configuration moves, then the other
    obtain ⟨hs₁, hi₁, hothers⟩ := h.tick_unseen ht hi hok₁ (h.alike hsame)
    obtain ⟨hs₂, hi₂, hothers'⟩ := h.tick_unseen ht hi' (h.ok (h.alike hsame) hok₁) (h.symm hs₁)
    refine ⟨h.symm hs₂, fun j => ?_⟩
    by_cases hj : j = i
    · subst hj
      exact .inr ⟨hunseen, hi₁, hi₂⟩
    · rw [hothers j hj, hothers' j hj]
      exact hthreads j

/-- The same schedule from configurations that are alike leads to ones that are alike. -/
theorem Unwinding.play (h : Unwinding M set Alike Same Ok Shown Unseen) {seen : ι → Prop}
    (hstate : Alike c.state c'.state)
    (hthreads : ∀ i, Paired M Ok Shown Unseen (seen i) (c.threads i) (c'.threads i)) (ts : List (Tick τ ι))
    (hok : ∀ ts₁, ts₁ <+: ts → Ok (play M set c ts₁).state) :
    Alike (play M set c ts).state (play M set c' ts).state ∧
      ∀ i, Paired M Ok Shown Unseen (seen i) ((play M set c ts).threads i)
        ((play M set c' ts).threads i) := by
  induction ts using List.reverseRecOn with
  | nil => exact ⟨hstate, hthreads⟩
  | append_singleton ts t ih =>
    obtain ⟨hs, hts⟩ := ih fun ts₁ hpre => hok ts₁ (hpre.trans (List.prefix_append ts [t]))
    rw [play_snoc, play_snoc]
    exact h.tick hs hts (hok ts (List.prefix_append ts [t])) t

end
