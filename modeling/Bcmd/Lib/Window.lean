import Mathlib.Data.List.DropRight
import Mathlib.Data.List.Nodup
import Mathlib.Tactic.Common

/-!
# Windows of a log

A bounded buffer that drops its oldest entries holds a suffix of all that was ever put into it. Here is
what a reader can conclude from such a suffix who only asks for the entries before a given one.
-/

namespace Window
variable {α κ : Type} [DecidableEq κ]

/-- The last `n` entries before the first one with the key `x`; none if there is no such entry. -/
def before (key : α → κ) (x : κ) (n : Nat) (buf : List α) : List α :=
  match buf.findIdx? fun a => key a = x with
  | none => []
  | some d => (buf.take d).drop (d - n)

theorem suffix_append_cases {buf older rest : List α} (h : buf <:+ older ++ rest) :
    buf <:+ rest ∨ ∃ pre, pre <:+ older ∧ buf = pre ++ rest := by
  rcases List.suffix_or_suffix_of_suffix h (List.suffix_append older rest) with hb | ⟨pre, rfl⟩
  · exact .inl hb
  · refine .inr ⟨pre, ?_, rfl⟩
    obtain ⟨t, ht⟩ := h
    rw [← List.append_assoc] at ht
    exact ⟨t, List.append_cancel_right ht⟩

/-- A buffer of at most `n` entries that drops its oldest ones holds the last `n` entries, after one more
entry as before. -/
theorem drop_rtake_append (log : List α) (a : α) (n : Nat) :
    (log.rtake n ++ [a]).drop ((log.rtake n ++ [a]).length - n) = (log ++ [a]).rtake n := by
  have hle : log.length - n ≤ log.length := by omega
  unfold List.rtake
  rw [← List.drop_append_of_le_length hle, List.drop_drop]
  congr 1
  simp only [List.length_drop, List.length_append, List.length_singleton]
  omega

theorem rtake_rtake (log : List α) (m n : Nat) : (log.rtake m).rtake n = log.rtake (min n m) := by
  unfold List.rtake
  rw [List.drop_drop, List.length_drop]
  congr 1
  omega

theorem rtake_suffix (log : List α) (n : Nat) : log.rtake n <:+ log := List.drop_suffix ..

/-- Of two entries of a log, one comes before the other. -/
theorem pair_sublist_or {a b : α} {log : List α} (ha : a ∈ log) (hb : b ∈ log) :
    a = b ∨ [a, b].Sublist log ∨ [b, a].Sublist log := by
  obtain ⟨log₁, log₂, rfl⟩ := List.append_of_mem ha
  rcases List.mem_append.1 hb with hb | hb
  · have hpair := (List.singleton_sublist.2 hb).append ((List.nil_sublist log₂).cons_cons a)
    exact .inr (.inr hpair)
  · rcases List.mem_cons.1 hb with rfl | hb
    · exact .inl rfl
    · have hpair := (List.nil_sublist log₁).append ((List.singleton_sublist.2 hb).cons_cons a)
      exact .inr (.inl hpair)

variable {key : α → κ} {a : α} {n : Nat} {buf log older pre rest : List α}

theorem before_split (h : ∀ b ∈ pre, key b ≠ key a) :
    before key (key a) n (pre ++ a :: rest) = pre.drop (pre.length - n) := by
  have hidx : (pre ++ a :: rest).findIdx? (fun b => key b = key a) = some pre.length := by
    rw [List.findIdx?_eq_some_iff_getElem]
    refine ⟨by simp, by simp, fun j hj => ?_⟩
    rw [List.getElem_append_left hj]
    simpa using h _ (List.getElem_mem hj)
  unfold before
  rw [hidx]
  simp

theorem before_notMem {x : κ} (h : ∀ b ∈ buf, key b ≠ x) : before key x n buf = [] := by
  have hidx : buf.findIdx? (fun b => key b = x) = none := by
    rw [List.findIdx?_eq_none_iff]
    simpa using h
  unfold before
  rw [hidx]

theorem before_map {β : Type} (f : β → α) (x : κ) (n : Nat) (buf : List β) :
    before key x n (buf.map f) = (before (fun b => key (f b)) x n buf).map f := by
  unfold before
  rw [List.findIdx?_map]
  simp only [Function.comp_def]
  generalize buf.findIdx? (fun b => decide (key (f b) = x)) = idx
  rcases idx with _ | d
  · rfl
  · simp only [List.map_drop, List.map_take]

theorem length_before_le (x : κ) : (before key x n buf).length ≤ n := by
  unfold before
  split
  · exact Nat.zero_le n
  · simp only [List.length_drop, List.length_take]
    omega

/-- A log without repeated keys, `a` an entry of it, and a window of the log: the entries asked for
before `a` are the ones right before it, and if none is found, the window holds nothing before `a`. -/
theorem before_window (hnd : ((older ++ a :: rest).map key).Nodup) (hbuf : buf <:+ older ++ a :: rest) :
    (∃ older', older = older' ++ before key (key a) n buf) ∧
      (before key (key a) n buf = [] → n ≠ 0 → ∀ b ∈ older, b ∉ buf) := by
  have hdisj : ∀ b ∈ older, b ∉ a :: rest := by
    intro b hb hb'
    rw [List.map_append] at hnd
    exact List.disjoint_of_nodup_append hnd (List.mem_map_of_mem hb) (List.mem_map_of_mem hb')
  have hkey : ∀ b ∈ older, key b ≠ key a := by
    intro b hb hk
    rw [List.map_append] at hnd
    exact List.disjoint_of_nodup_append hnd (List.mem_map_of_mem hb) (by rw [hk]; simp)
  rcases suffix_append_cases hbuf with hb | ⟨pre, hpre, rfl⟩
  · have hempty : before key (key a) n buf = [] := by
      rcases List.suffix_cons_iff.1 hb with rfl | hb'
      · have hfront : ∀ b ∈ ([] : List α), key b ≠ key a := nofun
        simpa using before_split hfront
      · refine before_notMem fun b hbmem hk => ?_
        rw [List.map_append, List.map_cons] at hnd
        have ha := (List.nodup_cons.1 (List.nodup_append.1 hnd).2.1).1
        exact ha (by rw [← hk]; exact List.mem_map_of_mem (hb'.subset hbmem))
    rw [hempty]
    exact ⟨⟨older, (List.append_nil _).symm⟩, fun _ _ b hbo hbb => hdisj b hbo (hb.subset hbb)⟩
  · rw [before_split fun b hb => hkey b (hpre.subset hb)]
    constructor
    · obtain ⟨t, rfl⟩ := hpre
      exact ⟨t ++ pre.take (pre.length - n), by rw [List.append_assoc, List.take_append_drop]⟩
    · intro hnil hn b hb
      have hlen := congrArg List.length hnil
      simp only [List.length_drop, List.length_nil] at hlen
      have hpre0 : pre = [] := List.length_eq_zero_iff.1 (by omega)
      subst hpre0
      exact hdisj b hb

end Window
