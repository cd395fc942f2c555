import Mathlib.Data.Finset.Insert
import Mathlib.Data.Finset.Erase
import Mathlib.Data.List.GetD

/-!
# Sets rebuilt from announced changes

A `Change` says that an element has entered or left a set, and `replay` applies a list of them in order.
What becomes of an element is what was said of it last, so a list that announces every difference of two
sets `Once` leads from the one to the other, and nothing in it is said in vain.
-/

inductive Change (α : Type) where
  | enter (a : α)
  | leave (a : α)
deriving DecidableEq

namespace Change
variable {α : Type} [DecidableEq α] {M M₁ M' : Finset α} {a : α} {c : Change α} {cs cs' : List (Change α)}

def apply (M : Finset α) : Change α → Finset α
  | enter a => insert a M
  | leave a => M.erase a

def replay (M : Finset α) (cs : List (Change α)) : Finset α := cs.foldl apply M

/-- What the change says of `a`: that it is in from now on, or out. -/
def tells (a : α) : Change α → Option Bool
  | enter b => if b = a then some true else none
  | leave b => if b = a then some false else none

/-- All that is said of `a`, in order. -/
def about (a : α) (cs : List (Change α)) : List Bool := cs.filterMap (tells a)

@[simp] theorem about_nil : about a [] = [] := rfl

@[simp] theorem about_append : about a (cs ++ cs') = about a cs ++ about a cs' := List.filterMap_append

theorem replay_append : replay M (cs ++ cs') = replay (replay M cs) cs' := List.foldl_append

theorem mem_apply : a ∈ apply M c ↔ (tells a c).getD (decide (a ∈ M)) = true := by
  cases c with
  | enter b =>
    by_cases hb : b = a
    · simp [apply, tells, hb]
    · simp [apply, tells, hb, Ne.symm hb]
  | leave b =>
    by_cases hb : b = a
    · simp [apply, tells, hb]
    · simp [apply, tells, hb, Ne.symm hb]

/-- What was said last of an element holds; with nothing said, it is as it was. -/
theorem mem_replay : a ∈ replay M cs ↔ (about a cs).getLast?.getD (decide (a ∈ M)) = true := by
  induction cs using List.reverseRecOn with
  | nil => simp [replay]
  | append_singleton cs c ih =>
    rw [replay_append, show replay (replay M cs) [c] = apply (replay M cs) c from rfl, mem_apply,
      about_append]
    have hlast : about a [c] = (tells a c).toList := by
      unfold about
      cases h : tells a c <;> simp [h]
    rcases hc : tells a c with _ | b
    · rw [hlast, hc]
      simp [ih]
    · rw [hlast, hc]
      simp

/-- None of the changes leaves the set as it is at its turn. -/
def Effective (M : Finset α) (cs : List (Change α)) : Prop :=
  ∀ cs₁ c cs₂, cs = cs₁ ++ c :: cs₂ → apply (replay M cs₁) c ≠ replay M cs₁

theorem Effective.nil : Effective M ([] : List (Change α)) := by
  intro cs₁ c cs₂ h
  simp at h

theorem Effective.append (h : Effective M cs) (h' : Effective (replay M cs) cs') :
    Effective M (cs ++ cs') := by
  intro cs₁ c cs₂ hsplit
  rcases List.append_eq_append_iff.1 hsplit with ⟨cs₃, rfl, hcs'⟩ | ⟨cs₃, hcs, hcs'⟩
  · rw [replay_append]
    exact h' cs₃ c cs₂ hcs'
  · rcases cs₃ with _ | ⟨c', cs₃⟩
    · simp only [List.append_nil] at hcs
      subst hcs
      exact h' [] c cs₂ hcs'.symm
    · obtain ⟨rfl, rfl⟩ := List.cons_eq_cons.1 hcs'
      exact h cs₁ c cs₃ hcs

/-- Every element whose membership differs from `M` to `M'` is announced once, and no other is. -/
def Once (M M' : Finset α) (cs : List (Change α)) : Prop :=
  ∀ a, about a cs = if a ∈ M ↔ a ∈ M' then [] else [decide (a ∈ M')]

namespace Once

theorem nil (M : Finset α) : Once M M [] := fun a => by simp

theorem enter (h : a ∉ M) : Once M (insert a M) [.enter a] := by
  intro b
  by_cases hb : b = a
  · subst hb
    simp [about, tells, h]
  · simp [about, tells, hb, Ne.symm hb]

theorem leave (h : a ∈ M) : Once M (M.erase a) [.leave a] := by
  intro b
  by_cases hb : b = a
  · subst hb
    simp [about, tells, h]
  · simp [about, tells, hb, Ne.symm hb]

/-- When no element changes in both halves. -/
theorem append (h : Once M M₁ cs) (h' : Once M₁ M' cs')
    (hone : ∀ a, (a ∈ M ↔ a ∈ M₁) ∨ (a ∈ M₁ ↔ a ∈ M')) : Once M M' (cs ++ cs') := by
  intro a
  rw [about_append, h a, h' a]
  rcases hone a with ha | ha <;> by_cases hm : a ∈ M₁ <;> simp_all

theorem replay_eq (h : Once M M' cs) : replay M cs = M' := by
  ext a
  rw [mem_replay, h a]
  split
  · simp [‹a ∈ M ↔ a ∈ M'›]
  · simp

theorem effective (h : Once M M' cs) : Effective M cs := by
  rintro cs₁ c cs₂ rfl hsame
  -- the element the change is about is not mentioned before, and is said to be where it is not
  obtain ⟨a, b, htells⟩ : ∃ a b, tells a c = some b := by
    cases c with
    | enter a => exact ⟨a, true, if_pos rfl⟩
    | leave a => exact ⟨a, false, if_pos rfl⟩
  have ha := h a
  have hcons : about a (c :: cs₂) = b :: about a cs₂ := by
    unfold about
    rw [List.filterMap_cons_some htells]
  rw [about_append, hcons] at ha
  split at ha
  · simp at ha
  · rename_i hdiff
    have hlen := congrArg List.length ha
    simp only [List.length_append, List.length_cons, List.length_nil] at hlen
    have hnone : about a cs₁ = [] := List.length_eq_zero_iff.1 (by omega)
    rw [hnone, List.nil_append] at ha
    have hb : b = decide (a ∈ M') := (List.cons_eq_cons.1 ha).1
    have hin := mem_apply (M := replay M cs₁) (a := a) (c := c)
    rw [hsame, htells, Option.getD_some, hb, decide_eq_true_iff, mem_replay, hnone] at hin
    exact hdiff (by simpa using hin)

end Once

end Change
