import Mathlib.Algebra.GroupWithZero.Nat
import Mathlib.Order.MinMax

/-!
# Counters of 64 bits

Arithmetic that stays at the largest value of a `u64`.
-/

namespace Irlume.Lib

/-- The largest value of a `u64`. -/
def u64Max : Nat := 2 ^ 64 - 1

/-- `u64::saturating_add`. -/
def saturatingAdd (a b : Nat) : Nat := min (a + b) u64Max

variable {a b : Nat}

theorem saturatingAdd_of_le (h : a + b ≤ u64Max) : saturatingAdd a b = a + b := Nat.min_eq_left h

theorem add_le_of_saturatingAdd_le {m : Nat} (h : saturatingAdd a b ≤ m) (hm : m < u64Max) : a + b ≤ m := by
  rw [saturatingAdd] at h
  omega

theorem saturatingAdd_min (a b : Nat) : saturatingAdd (min a u64Max) b = min (a + b) u64Max := by
  rw [saturatingAdd]
  omega

end Irlume.Lib
