import Mathlib.Data.List.DropRight
import Mathlib.Data.List.Induction

/-!
# Stripping both ends of a list

What is left when all elements of a kind have been dropped from the front, then from the back: it neither
starts nor ends with one of them, a list that neither starts nor ends with one is left as it is, and whatever
of that kind is put around a list makes no difference.
-/

namespace Strip
variable {α : Type} {p : α → Bool} {l w w' : List α} {a : α}

theorem not_head (h : ((l.dropWhile p).rdropWhile p).head? = some a) : ¬ p a := by
  -- the front is what the first of the two loops stopped at
  obtain ⟨t, ht⟩ := List.rdropWhile_prefix p (l.dropWhile p)
  have hhead : (l.dropWhile p).head? = some a := by
    rw [← ht, List.head?_append, h, Option.some_or]
  have hnot := List.head?_dropWhile_not p l
  rw [hhead] at hnot
  simpa using hnot

theorem not_last (h : ((l.dropWhile p).rdropWhile p).getLast? = some a) : ¬ p a := by
  have hne : (l.dropWhile p).rdropWhile p ≠ [] := by
    intro hnil
    rw [hnil] at h
    cases h
  rw [List.getLast?_eq_some_getLast hne, Option.some.injEq] at h
  rw [← h]
  exact List.rdropWhile_last_not p _ hne

theorem eq_self (hhead : ∀ a, l.head? = some a → ¬ p a) (hlast : ∀ a, l.getLast? = some a → ¬ p a) :
    (l.dropWhile p).rdropWhile p = l := by
  have hfront : l.dropWhile p = l := by
    rcases l with _ | ⟨a, l⟩
    · rfl
    · exact List.dropWhile_cons_of_neg (hhead a rfl)
  rw [hfront, List.rdropWhile_eq_self_iff]
  intro hne
  exact hlast _ (List.getLast?_eq_some_getLast hne)

/-- Stripping is idempotent. -/
theorem strip_strip :
    (((l.dropWhile p).rdropWhile p).dropWhile p).rdropWhile p = (l.dropWhile p).rdropWhile p :=
  eq_self (fun _ h => not_head h) fun _ h => not_last h

theorem forall_of_eq_nil (h : (l.dropWhile p).rdropWhile p = []) : ∀ a ∈ l, p a := by
  rw [List.rdropWhile_eq_nil_iff] at h
  rw [← List.dropWhile_eq_nil_iff]
  rcases hfront : l.dropWhile p with _ | ⟨a, l'⟩
  · rfl
  · -- what the first loop stopped at would have to be dropped by the second
    have hnot := List.head?_dropWhile_not p l
    rw [hfront, List.head?_cons] at hnot
    have ha := h a (by rw [hfront]; simp)
    simp [ha] at hnot

theorem rdropWhile_append (hw : ∀ a ∈ w, p a) : (l ++ w).rdropWhile p = l.rdropWhile p := by
  induction w using List.reverseRecOn with
  | nil => rw [List.append_nil]
  | append_singleton w a ih =>
    rw [← List.append_assoc, List.rdropWhile_concat_pos p _ a (hw a (by simp))]
    exact ih fun b hb => hw b (by simp [hb])

theorem dropWhile_append (hw : ∀ a ∈ w, p a) : (w ++ l).dropWhile p = l.dropWhile p := by
  rw [List.dropWhile_append, List.dropWhile_eq_nil_iff.2 hw]
  rfl

/-- What is stripped may as well be added. -/
theorem pad (hw : ∀ a ∈ w, p a) (hw' : ∀ a ∈ w', p a) :
    ((w ++ l ++ w').dropWhile p).rdropWhile p = (l.dropWhile p).rdropWhile p := by
  rw [List.append_assoc, dropWhile_append hw, List.dropWhile_append]
  split
  · -- nothing of the list is left in front of what was added
    have hnil : l.dropWhile p = [] := by simpa using ‹(l.dropWhile p).isEmpty = true›
    rw [hnil, List.dropWhile_eq_nil_iff.2 hw']
  · exact rdropWhile_append hw'

end Strip
