import Mathlib.Logic.Relation
import Mathlib.Tactic.Common

/-!
# Refinement of labelled systems

A system moves from state to state, and a move is silent or shows a label. If the states of two systems are
related such that every move of the first can be followed by the second, then all that the first shows on a
run, the second can show as well.
-/

structure Labelled (σ L : Type) where
  silent : σ → σ → Prop
  step : σ → L → σ → Prop

namespace Labelled
variable {σ τ L : Type}

/-- A run, with the labels that it shows. -/
inductive Run (m : Labelled σ L) (start : σ) : List L → σ → Prop
  | refl : Run m start [] start
  | silent {labels s s'} (h : Run m start labels s) (hs : m.silent s s') : Run m start labels s'
  | step {labels s l s'} (h : Run m start labels s) (hs : m.step s l s') : Run m start (labels ++ [l]) s'

variable {m : Labelled σ L} {n : Labelled τ L} {start s s' : σ} {labels : List L}

theorem Run.silents (h : m.Run start labels s) (hs : Relation.ReflTransGen m.silent s s') :
    m.Run start labels s' := by
  induction hs with
  | refl => exact h
  | tail _ hs ih => exact ih.silent hs

/-- The move that shows the last label. -/
theorem Run.last {l : L} (h : m.Run start (labels ++ [l]) s) :
    ∃ s₁ s₂, m.Run start labels s₁ ∧ m.step s₁ l s₂ := by
  generalize hlabels : labels ++ [l] = all at h
  induction h with
  | refl => simp at hlabels
  | silent _ _ ih => exact ih hlabels
  | step h hs _ =>
    obtain ⟨rfl, hl⟩ := List.append_inj' hlabels rfl
    cases hl
    exact ⟨_, _, h, hs⟩

/-- What every move keeps holds at the end of a run. -/
theorem Run.inv {I : σ → Prop} (h : m.Run start labels s) (hsilent : ∀ {s s'}, m.silent s s' → I s → I s')
    (hstep : ∀ {s l s'}, m.step s l s' → I s → I s') (h0 : I start) : I s := by
  induction h with
  | refl => exact h0
  | silent _ hs ih => exact hsilent hs ih
  | step _ hs ih => exact hstep hs ih

/-- Every move of `m` is followed by `n`: a silent one by silent ones, a step by a step with the label. -/
structure Follows (R : σ → τ → Prop) (m : Labelled σ L) (n : Labelled τ L) : Prop where
  silent : ∀ {s s' t}, R s t → m.silent s s' → ∃ t', Relation.ReflTransGen n.silent t t' ∧ R s' t'
  step : ∀ {s l s' t}, R s t → m.step s l s' → ∃ t', n.step t l t' ∧ R s' t'

theorem Follows.run {R : σ → τ → Prop} (hf : Follows R m n) {t : τ} (hR : R start t)
    (h : m.Run start labels s) : ∃ t', n.Run t labels t' ∧ R s t' := by
  induction h with
  | refl => exact ⟨t, .refl, hR⟩
  | silent _ hs ih =>
    obtain ⟨t₁, hrun, hR₁⟩ := ih
    obtain ⟨t', hsilent, hR'⟩ := hf.silent hR₁ hs
    exact ⟨t', hrun.silents hsilent, hR'⟩
  | step _ hs ih =>
    obtain ⟨t₁, hrun, hR₁⟩ := ih
    obtain ⟨t', hstep, hR'⟩ := hf.step hR₁ hs
    exact ⟨t', hrun.step hstep, hR'⟩

end Labelled
