import Mathlib.Data.List.Induction
import Mathlib.Data.List.Sort
import Bcmd.Lib.Window

/-!
# Sorting by a key what came in another order

A log is sorted by a key in which its entries may tie. Entries of it have come in some order, some of them
repeatedly. Each entry is taken where it came first, and the result is sorted by the key, stably. That gives
the order of the log exactly when entries that tie have come in it (`Arrived`).
-/

namespace StableSort
variable {α κ : Type} [DecidableEq α]

/-- In the log, `a` comes before `b`, and the key does not tell them apart. -/
def Tied (key : α → κ) (log : List α) (a b : α) : Prop := [a, b].Sublist log ∧ key a = key b

/-- Of tied entries that have come, the earlier one came first. -/
def Arrived (key : α → κ) (log l : List α) : Prop :=
  ∀ a b, Tied key log a b → a ∈ l → b ∈ l → l.idxOf a < l.idxOf b

section
variable {key : α → κ} {log l l' : List α} {a b m x : α}

theorem eraseDups_snoc (l : List α) (x : α) :
    (l ++ [x]).eraseDups = if x ∈ l then l.eraseDups else l.eraseDups ++ [x] := by
  rw [List.eraseDups_append]
  split
  · simp [List.removeAll, ‹x ∈ l›]
  · simp [List.removeAll, ‹x ∉ l›, List.eraseDups_cons]

theorem nodup_eraseDups (l : List α) : l.eraseDups.Nodup := by
  induction l using List.reverseRecOn with
  | nil => simp
  | append_singleton l x ih =>
    rw [eraseDups_snoc]
    split
    · exact ih
    · refine List.nodup_append.2 ⟨ih, by simp, fun a ha b hb => ?_⟩
      rw [List.mem_eraseDups] at ha
      rw [List.mem_singleton] at hb
      rintro rfl
      exact ‹x ∉ l› (hb ▸ ha)

theorem eraseDups_of_nodup (h : l.Nodup) : l.eraseDups = l := by
  induction l using List.reverseRecOn with
  | nil => simp
  | append_singleton l x ih =>
    obtain ⟨hl, -, hx⟩ := List.nodup_append.1 h
    have hnot : x ∉ l := fun hmem => hx x hmem x (List.mem_singleton_self x) rfl
    rw [eraseDups_snoc, if_neg hnot, ih hl]

omit [DecidableEq α] in
theorem pair_sublist_snoc (l : List α) : [a, b].Sublist (l ++ [x]) ↔ [a, b].Sublist l ∨ a ∈ l ∧ b = x := by
  constructor
  · intro h
    obtain ⟨l₁, l₂, hsplit, h₁, h₂⟩ := List.sublist_append_iff.1 h
    rcases l₂ with _ | ⟨y, l₂⟩
    · rw [List.append_nil] at hsplit
      exact .inl (hsplit ▸ h₁)
    · obtain ⟨rfl, rfl⟩ : y = x ∧ l₂ = [] := by
        have hlen := h₂.length_le
        simp only [List.length_cons, List.length_nil] at hlen
        have hnil : l₂ = [] := List.length_eq_zero_iff.1 (by omega)
        subst hnil
        exact ⟨List.mem_singleton.1 (List.singleton_sublist.1 h₂), rfl⟩
      rcases l₁ with _ | ⟨z, l₁⟩
      · simp at hsplit
      · simp only [List.cons_append, List.cons.injEq] at hsplit
        obtain ⟨rfl, hrest⟩ := hsplit
        have hnil : l₁ = [] := by
          have hlen := congrArg List.length hrest
          simp only [List.length_cons, List.length_nil, List.length_append] at hlen
          exact List.length_eq_zero_iff.1 (by omega)
        subst hnil
        simp only [List.nil_append, List.cons.injEq, and_true] at hrest
        exact .inr ⟨List.singleton_sublist.1 h₁, hrest⟩
  · rintro (h | ⟨ha, rfl⟩)
    · exact h.trans (List.sublist_append_left l [x])
    · exact (List.singleton_sublist.2 ha).append (List.Sublist.refl [b])

/-- The first places decide. -/
theorem pair_sublist_eraseDups (hne : a ≠ b) :
    [a, b].Sublist l.eraseDups ↔ a ∈ l ∧ b ∈ l ∧ l.idxOf a < l.idxOf b := by
  induction l using List.reverseRecOn with
  | nil => simp
  | append_singleton l x ih =>
    have hidx : ∀ c ∈ l, (l ++ [x]).idxOf c = l.idxOf c := fun c hc => List.idxOf_append_of_mem hc
    rw [eraseDups_snoc]
    by_cases hx : x ∈ l
    · have hin : ∀ c, c ∈ l ++ [x] ↔ c ∈ l := by
        intro c
        simp only [List.mem_append, List.mem_singleton, or_iff_left_iff_imp]
        rintro rfl
        exact hx
      rw [if_pos hx, ih, hin, hin]
      refine and_congr_right fun ha => and_congr_right fun hb => ?_
      rw [hidx a ha, hidx b hb]
    · have hlast : (l ++ [x]).idxOf x = l.length := by
        rw [List.idxOf_append_of_notMem hx]
        simp
      rw [if_neg hx, pair_sublist_snoc, ih, List.mem_eraseDups]
      constructor
      · rintro (⟨ha, hb, hlt⟩ | ⟨ha, rfl⟩)
        · exact ⟨List.mem_append_left _ ha, List.mem_append_left _ hb, by rwa [hidx a ha, hidx b hb]⟩
        · refine ⟨List.mem_append_left _ ha, by simp, ?_⟩
          rw [hidx a ha, hlast]
          exact List.idxOf_lt_length_of_mem ha
      · rintro ⟨ha, hb, hlt⟩
        rcases List.mem_append.1 ha with ha | ha
        · rcases List.mem_append.1 hb with hb | hb
          · exact .inl ⟨ha, hb, by rwa [hidx a ha, hidx b hb] at hlt⟩
          · exact .inr ⟨ha, List.mem_singleton.1 hb⟩
        · -- the last entry comes before nothing
          obtain rfl := List.mem_singleton.1 ha
          rcases List.mem_append.1 hb with hb | hb
          · rw [hlast, hidx b hb] at hlt
            have := List.idxOf_lt_length_of_mem hb
            omega
          · exact absurd (List.mem_singleton.1 hb).symm hne

omit [DecidableEq α] in
theorem pair_ne (hnd : log.Nodup) (h : [a, b].Sublist log) : a ≠ b := by
  have hpair := hnd.sublist h
  simp only [List.nodup_cons, List.mem_singleton] at hpair
  exact hpair.1

theorem idxOf_lt_of_pair (hnd : log.Nodup) (h : [a, b].Sublist log) : log.idxOf a < log.idxOf b := by
  have hfirst := (pair_sublist_eraseDups (l := log) (pair_ne hnd h)).1
  rw [eraseDups_of_nodup hnd] at hfirst
  exact (hfirst h).2.2

theorem pair_asymm (hnd : log.Nodup) (h : [a, b].Sublist log) : ¬ [b, a].Sublist log := by
  intro h'
  have hlt := idxOf_lt_of_pair hnd h
  have hlt' := idxOf_lt_of_pair hnd h'
  omega

/-- The sort puts the entries back into the order of the log exactly when they have come in it where the
key does not tell. -/
theorem sorted_iff [LinearOrder κ] {key : α → κ} (hnd : log.Nodup)
    (hsorted : log.Pairwise (key · ≤ key ·)) (hl : l ⊆ log) :
    l.eraseDups.mergeSort (key · ≤ key ·) = log.filter (· ∈ l) ↔ Arrived key log l := by
  have htrans : ∀ a b c : α, decide (key a ≤ key b) = true → decide (key b ≤ key c) = true →
      decide (key a ≤ key c) = true := by
    simp only [decide_eq_true_eq]
    exact fun a b c => le_trans
  have htotal : ∀ a b : α, (decide (key a ≤ key b) || decide (key b ≤ key a)) = true := by
    intro a b
    simpa using le_total (key a) (key b)
  have hstable : ∀ a b : α, a ≠ b → a ∈ l → b ∈ l → key a = key b → l.idxOf a < l.idxOf b →
      [a, b].Sublist (l.eraseDups.mergeSort (key · ≤ key ·)) := by
    intro a b hne ha hb hkey hlt
    exact List.pair_sublist_mergeSort htrans htotal (by simp [hkey])
      ((pair_sublist_eraseDups hne).2 ⟨ha, hb, hlt⟩)
  have hsortedNodup : (l.eraseDups.mergeSort (key · ≤ key ·)).Nodup :=
    (List.mergeSort_perm _ _).nodup_iff.2 (nodup_eraseDups l)
  constructor
  · intro heq a b ⟨hab, hkey⟩ ha hb
    by_contra hnot
    have hne := pair_ne hnd hab
    have hidx : l.idxOf a ≠ l.idxOf b := fun h => hne ((List.idxOf_inj ha).1 h)
    have hback := hstable b a hne.symm hb ha hkey.symm (by omega)
    rw [heq] at hback
    exact pair_asymm hnd hab (hback.trans List.filter_sublist)
  · intro harrived
    have hperm : (l.eraseDups.mergeSort (key · ≤ key ·)).Perm (log.filter (· ∈ l)) := by
      refine (List.perm_ext_iff_of_nodup hsortedNodup (hnd.filter _)).2 fun a => ?_
      simp only [List.mem_mergeSort, List.mem_eraseDups, List.mem_filter, decide_eq_true_eq]
      exact ⟨fun ha => ⟨hl ha, ha⟩, And.right⟩
    have hasymm : ∀ a b, a ∈ l.eraseDups.mergeSort (key · ≤ key ·) → b ∈ log.filter (· ∈ l) →
        [a, b].Sublist log → [b, a].Sublist log → a = b :=
      fun a b _ _ hab hba => absurd hba (pair_asymm hnd hab)
    refine List.Perm.eq_of_pairwise hasymm ?_ ?_ hperm
    · rw [List.pairwise_iff_forall_sublist]
      intro a b hab
      have hne := pair_ne hsortedNodup hab
      have ha : a ∈ l := by simpa using hab.subset (List.mem_cons_self ..)
      have hb : b ∈ l := by simpa using hab.subset (List.mem_cons_of_mem _ (List.mem_singleton_self b))
      have hle : key a ≤ key b := by
        simpa using List.pairwise_iff_forall_sublist.1 (List.pairwise_mergeSort htrans htotal _) hab
      rcases Window.pair_sublist_or (hl ha) (hl hb) with rfl | hlog | hlog
      · exact absurd rfl hne
      · exact hlog
      · have hle' := List.pairwise_iff_forall_sublist.1 hsorted hlog
        have hkey : key b = key a := le_antisymm hle' hle
        have hback := hstable b a hne.symm hb ha hkey (harrived b a ⟨hlog, hkey⟩ hb ha)
        exact absurd hback (pair_asymm hsortedNodup hab)
    · rw [List.pairwise_iff_forall_sublist]
      exact fun hab => hab.trans List.filter_sublist

/-- A stretch of the log that comes at the end is in the wrong place where an entry of it that has not come
before is tied to a later one that has. -/
theorem arrived_append_iff (hnd : log.Nodup) (hl' : l'.Sublist log) :
    Arrived key log (l ++ l') ↔
      Arrived key log l ∧ ∀ a ∈ l', a ∉ l → ∀ b ∈ l, ¬ Tied key log a b := by
  have hold : ∀ c ∈ l, (l ++ l').idxOf c = l.idxOf c := fun c hc => List.idxOf_append_of_mem hc
  have hnew : ∀ c, c ∉ l → (l ++ l').idxOf c = l.length + l'.idxOf c :=
    fun c hc => List.idxOf_append_of_notMem hc
  constructor
  · intro h
    refine ⟨fun a b hab ha hb => ?_, fun a ha hal b hb hab => ?_⟩
    · have hlt := h a b hab (List.mem_append_left _ ha) (List.mem_append_left _ hb)
      rwa [hold a ha, hold b hb] at hlt
    · have hlt := h a b hab (List.mem_append_right _ ha) (List.mem_append_left _ hb)
      rw [hnew a hal, hold b hb] at hlt
      have := List.idxOf_lt_length_of_mem hb
      omega
  · rintro ⟨h, hnone⟩ a b hab ha hb
    by_cases hal : a ∈ l
    · rw [hold a hal]
      by_cases hbl : b ∈ l
      · rw [hold b hbl]
        exact h a b hab hal hbl
      · rw [hnew b hbl]
        have := List.idxOf_lt_length_of_mem hal
        omega
    · have ha' : a ∈ l' := (List.mem_append.1 ha).resolve_left hal
      by_cases hbl : b ∈ l
      · exact absurd hab (hnone a ha' hal b hbl)
      · have hb' : b ∈ l' := (List.mem_append.1 hb).resolve_left hbl
        have hpair : [a, b].Sublist l' := by
          rcases Window.pair_sublist_or ha' hb' with heq | hpair | hpair
          · exact absurd heq (pair_ne hnd hab.1)
          · exact hpair
          · exact absurd (hpair.trans hl') (pair_asymm hnd hab.1)
        have hlt := idxOf_lt_of_pair (hnd.sublist hl') hpair
        rw [hnew a hal, hnew b hbl]
        omega

theorem idxOf_append_lt_iff (l' : List α) : (l ++ l').idxOf b < l.length ↔ b ∈ l := by
  by_cases hbl : b ∈ l
  · rw [List.idxOf_append_of_mem hbl]
    exact iff_of_true (List.idxOf_lt_length_of_mem hbl) hbl
  · rw [List.idxOf_append_of_notMem hbl]
    exact iff_of_false (by omega) hbl

/-- An entry that is put in between moves those after it by one. -/
theorem idxOf_insert (hm : m ∉ l ++ l') (hb : b ∈ l ++ l') :
    (l ++ m :: l').idxOf b = (l ++ l').idxOf b + if (l ++ l').idxOf b < l.length then 0 else 1 := by
  by_cases hbl : b ∈ l
  · rw [if_pos ((idxOf_append_lt_iff l').2 hbl), List.idxOf_append_of_mem hbl, List.idxOf_append_of_mem hbl]
    rfl
  · have hne : m ≠ b := by
      rintro rfl
      exact hm hb
    rw [if_neg (mt (idxOf_append_lt_iff l').1 hbl), List.idxOf_append_of_notMem hbl,
      List.idxOf_append_of_notMem hbl, List.idxOf_cons_ne _ hne]
    omega

/-- A new entry in between is in the wrong place where it is tied to a later one before it, or to an earlier
one that is only after it. -/
theorem arrived_insert_iff (hnd : log.Nodup) (hm : m ∉ l ++ l') :
    Arrived key log (l ++ m :: l') ↔ Arrived key log (l ++ l') ∧ (∀ b ∈ l, ¬ Tied key log m b) ∧
      ∀ b ∈ l', b ∉ l → ¬ Tied key log b m := by
  have hidx : (l ++ m :: l').idxOf m = l.length := by
    rw [List.idxOf_append_of_notMem fun h => hm (List.mem_append_left _ h), List.idxOf_cons_self]
    omega
  have hin : ∀ {c}, c ∈ l ++ l' → c ∈ l ++ m :: l' := by
    intro c hc
    simp only [List.mem_append, List.mem_cons] at hc ⊢
    exact hc.imp_right .inr
  have hother : ∀ {c}, c ∈ l ++ m :: l' → c ≠ m → c ∈ l ++ l' := by
    intro c hc hne
    simp only [List.mem_append, List.mem_cons] at hc ⊢
    exact hc.imp_right fun hc => hc.resolve_left hne
  have hself : m ∈ l ++ m :: l' := List.mem_append_right _ (List.mem_cons_self ..)
  constructor
  · intro h
    refine ⟨fun a b hab ha hb => ?_, fun b hb hmb => ?_, fun b hb hbl hbm => ?_⟩
    · have hlt := h a b hab (hin ha) (hin hb)
      rw [idxOf_insert hm ha, idxOf_insert hm hb] at hlt
      split_ifs at hlt <;> omega
    · have hb' := List.mem_append_left l' hb
      have hlt := h m b hmb hself (hin hb')
      rw [hidx, idxOf_insert hm hb', if_pos ((idxOf_append_lt_iff l').2 hb)] at hlt
      have hbefore := (idxOf_append_lt_iff l').2 hb
      omega
    · have hb' := List.mem_append_right l hb
      have hlt := h b m hbm (hin hb') hself
      have hafter := mt (idxOf_append_lt_iff l').1 hbl
      rw [hidx, idxOf_insert hm hb', if_neg hafter] at hlt
      omega
  · rintro ⟨h, hbefore, hafter⟩ a b hab ha hb
    have hne := pair_ne hnd hab.1
    by_cases ham : a = m
    · subst ham
      have hb' := hother hb hne.symm
      have hbl : b ∉ l := fun hbl => hbefore b hbl hab
      have hlast := mt (idxOf_append_lt_iff l').1 hbl
      rw [hidx, idxOf_insert hm hb', if_neg hlast]
      omega
    · have ha' := hother ha ham
      by_cases hbm : b = m
      · subst hbm
        have hal : a ∈ l := by
          by_contra hal
          exact hafter a ((List.mem_append.1 ha').resolve_left hal) hal hab
        have hfirst := (idxOf_append_lt_iff l').2 hal
        rw [hidx, idxOf_insert hm ha', if_pos hfirst]
        exact hfirst
      · have hb' := hother hb hbm
        have hlt := h a b hab ha' hb'
        rw [idxOf_insert hm ha', idxOf_insert hm hb']
        split_ifs <;> omega

end

end StableSort
