import Mathlib.Data.Finmap
import Mathlib.Data.List.Sort

/-!
# Finite maps whose values carry their own key, and orders of iteration

`Keyed key` is a finite map that stores each value `v` under `key v` and nowhere else. It has no
order; a walk over it, or over a finite set, takes an `IterOrder`, which is any lawful choice of one.
-/

/-- An order in which finite sets are walked: a list of the elements, each of them once. -/
structure IterOrder (α : Type) where
  enum : Finset α → List α
  coe_enum : ∀ s, (enum s : Multiset α) = s.val

namespace IterOrder
variable {α : Type} (ω : IterOrder α) {s : Finset α} {a : α}

@[simp] theorem mem_enum : a ∈ ω.enum s ↔ a ∈ s := by
  rw [← Finset.mem_val, ← ω.coe_enum, Multiset.mem_coe]

theorem nodup_enum (s : Finset α) : (ω.enum s).Nodup := by
  rw [← Multiset.coe_nodup, ω.coe_enum]; exact s.nodup

@[simp] theorem enum_empty : ω.enum ∅ = [] := by
  rw [← Multiset.coe_eq_zero, ω.coe_enum, Finset.empty_val]

@[simp] theorem enum_singleton (a : α) : ω.enum {a} = [a] := by
  rw [← Multiset.coe_eq_singleton, ω.coe_enum, Finset.singleton_val]

theorem countP_enum (s : Finset α) (p : α → Bool) : (ω.enum s).countP p = (s.filter fun a => p a).card := by
  rw [Finset.card_def, Finset.filter_val, ← ω.coe_enum, Multiset.filter_coe, Multiset.coe_card,
    List.countP_eq_length_filter]
  simp

/-- Walking by increasing rank. -/
def byRank (f : α → Nat) (hf : Function.Injective f) : IterOrder α where
  enum s := Quot.liftOn s.val (List.insertionSort fun a b => f a ≤ f b) fun l l' h =>
    have : IsTrans α fun a b => f a ≤ f b := ⟨fun _ _ _ => Nat.le_trans⟩
    have : Std.Total fun a b => f a ≤ f b := ⟨fun _ _ => Nat.le_total _ _⟩
    have : Std.Antisymm fun a b => f a ≤ f b := ⟨fun _ _ h h' => hf (Nat.le_antisymm h h')⟩
    (((List.perm_insertionSort _ l).trans h).trans (List.perm_insertionSort _ l').symm).eq_of_pairwise'
      (List.pairwise_insertionSort _ l) (List.pairwise_insertionSort _ l')
  coe_enum s := Quot.inductionOn s.val fun l => Quot.sound (List.perm_insertionSort _ l)

end IterOrder

/-- A finite map that keeps each value under its own key. -/
structure Keyed {κ ν : Type} [DecidableEq κ] (key : ν → κ) where
  map : Finmap fun _ : κ => ν
  key_eq : ∀ {k v}, map.lookup k = some v → key v = k

namespace Keyed
variable {κ ν : Type} [DecidableEq κ] {key : ν → κ} {t t' : Keyed key} {k : κ} {v : ν}

instance : EmptyCollection (Keyed key) := ⟨⟨∅, fun h => by simp at h⟩⟩

def find (t : Keyed key) (k : κ) : Option ν := t.map.lookup k

/-- Store `v` under its key, in place of what is there. -/
def put (t : Keyed key) (v : ν) : Keyed key where
  map := t.map.insert (key v) v
  key_eq {k w} h := by
    by_cases hk : k = key v
    · subst hk
      rw [Finmap.lookup_insert] at h; cases h; rfl
    · rw [Finmap.lookup_insert_of_ne _ hk] at h; exact t.key_eq h

/-- Store `v` under its key unless something is there. -/
def emplace (t : Keyed key) (v : ν) : Keyed key :=
  if t.find (key v) = none then t.put v else t

def erase (t : Keyed key) (k : κ) : Keyed key where
  map := t.map.erase k
  key_eq {k' w} h := by
    by_cases hk : k' = k
    · subst hk; rw [Finmap.lookup_erase] at h; cases h
    · rw [Finmap.lookup_erase_ne hk] at h; exact t.key_eq h

/-- The values, in the order in which their keys are walked. -/
def values (t : Keyed key) (ω : IterOrder κ) : List ν := (ω.enum t.map.keys).filterMap t.find

theorem key_of_find (h : t.find k = some v) : key v = k := t.key_eq h

theorem ext_find (h : ∀ k, t.find k = t'.find k) : t = t' := by
  cases t; cases t'
  congr 1
  exact Finmap.ext_lookup h

@[simp] theorem find_empty (k : κ) : (∅ : Keyed key).find k = none := Finmap.lookup_empty k

theorem find_put (t : Keyed key) (v : ν) (k : κ) :
    (t.put v).find k = if k = key v then some v else t.find k := by
  split
  · subst ‹k = _›; exact Finmap.lookup_insert _
  · exact Finmap.lookup_insert_of_ne _ ‹_›

@[simp] theorem find_put_self (t : Keyed key) (v : ν) : (t.put v).find (key v) = some v := by
  rw [find_put, if_pos rfl]

theorem find_put_ne (h : k ≠ key v) : (t.put v).find k = t.find k := by rw [find_put, if_neg h]

theorem find_emplace (t : Keyed key) (v : ν) (k : κ) :
    (t.emplace v).find k = if k = key v ∧ t.find k = none then some v else t.find k := by
  by_cases hk : k = key v
  · subst hk
    by_cases h : t.find (key v) = none
    · rw [if_pos ⟨rfl, h⟩, emplace, if_pos h, find_put_self]
    · rw [if_neg fun h' => h h'.2, emplace, if_neg h]
  · rw [if_neg fun h' => hk h'.1]
    unfold emplace
    split
    · exact find_put_ne hk
    · rfl

theorem find_erase (t : Keyed key) (k k' : κ) :
    (t.erase k).find k' = if k' = k then none else t.find k' := by
  split
  · subst ‹k' = k›; exact Finmap.lookup_erase _ _
  · exact Finmap.lookup_erase_ne ‹_›

@[simp] theorem find_erase_self (t : Keyed key) (k : κ) : (t.erase k).find k = none := by
  rw [find_erase, if_pos rfl]

theorem mem_values {ω : IterOrder κ} : v ∈ t.values ω ↔ t.find (key v) = some v := by
  simp only [values, List.mem_filterMap, IterOrder.mem_enum, Finmap.mem_keys]
  constructor
  · rintro ⟨k, -, hk⟩
    rwa [key_of_find hk]
  · exact fun h => ⟨key v, Finmap.mem_of_lookup_eq_some h, h⟩

theorem nodup_values (t : Keyed key) (ω : IterOrder κ) : (t.values ω).Nodup := by
  refine List.Nodup.filterMap (fun k k' v h h' => ?_) (ω.nodup_enum _)
  rw [Option.mem_def] at h h'
  rw [← key_of_find h, ← key_of_find h']

theorem nodup_map_values (t : Keyed key) (ω : IterOrder κ) : ((t.values ω).map key).Nodup := by
  refine List.Nodup.map_on (fun v hv w hw h => ?_) (t.nodup_values ω)
  have hv' := mem_values.1 hv
  rw [h, mem_values.1 hw] at hv'
  exact (Option.some.inj hv').symm

end Keyed
