import Mathlib.Algebra.Order.Group.Unbundled.Int
import Mathlib.Data.Int.Init
import Mathlib.Tactic.Common

/-!
# Signed 32-bit arithmetic

A C++ `int`. A result out of range is undefined behaviour, here `none`; a conversion from an unsigned size
wraps.
-/

namespace CheckedInt

def InRange (x : Int) : Prop := -2147483648 ≤ x ∧ x < 2147483648

instance (x : Int) : Decidable (InRange x) := inferInstanceAs (Decidable (_ ∧ _))

def checked (x : Int) : Option Int := if InRange x then some x else none

def add (a b : Int) : Option Int := checked (a + b)
def sub (a b : Int) : Option Int := checked (a - b)
def neg (a : Int) : Option Int := checked (-a)

/-- `static_cast<int>` of a `std::size_t`. -/
def ofSize (n : Nat) : Int := (n : Int).bmod 4294967296

/-- `std::clamp`, for bounds in order. -/
def clamp (x lo hi : Int) : Int := if x < lo then lo else if hi < x then hi else x

section
variable {a b x lo hi : Int} {n : Nat}

theorem checked_eq (h : InRange x) : checked x = some x := if_pos h

theorem add_eq (h : InRange (a + b)) : add a b = some (a + b) := checked_eq h

theorem sub_eq (h : InRange (a - b)) : sub a b = some (a - b) := checked_eq h

theorem neg_eq (h : InRange (-a)) : neg a = some (-a) := checked_eq h

theorem ofSize_eq (h : n < 2147483648) : ofSize n = n := by
  unfold ofSize
  rw [Int.bmod_eq_of_le] <;> omega

theorem clamp_eq (x : Int) (h : lo ≤ hi) : clamp x lo hi = max lo (min x hi) := by
  unfold clamp
  split_ifs <;> omega

end

end CheckedInt
