import Mathlib.Algebra.Order.Group.Nat
import Mathlib.Tactic.Common

/-! Unsigned 32-bit counters as natural numbers: the saturating operations clamp
at the ends of the range and the plain addition of an optimised build wraps. -/

namespace Counters

def u32Max : Nat := 4294967295

def saturatingAdd (a b : Nat) : Nat := min (a + b) u32Max

def saturatingSub (a b : Nat) : Nat := a - b

def saturatingMul (a b : Nat) : Nat := min (a * b) u32Max

def wrapping (a : Nat) : Nat := a % (u32Max + 1)

theorem wrapping_of_le {a : Nat} (fits : a ≤ u32Max) : wrapping a = a := by
  unfold wrapping
  exact Nat.mod_eq_of_lt (by omega)

theorem saturatingMul_of_le {a b : Nat} (fits : a * b ≤ u32Max) : saturatingMul a b = a * b :=
  Nat.min_eq_left fits

/-- A counter that tracks a sum clamped at the top keeps doing so when both grow. -/
theorem saturatingAdd_clamped (a b : Nat) : saturatingAdd (min a u32Max) b = min
    (a + b) u32Max := by
  unfold saturatingAdd
  omega

/-- An exact counter loses exactly what is taken from it, as long as that is part of it. -/
theorem saturatingSub_part {a b : Nat} : saturatingSub (a + b) b = a := by
  unfold saturatingSub
  omega

/-- One more of something that fits in 32 bits, whatever its size. -/
theorem wrapping_succ_mul {n size : Nat} (fits : n * size + size ≤ u32Max) :
    wrapping (n + 1) * size = n * size + size := by
  rcases Nat.eq_zero_or_pos size with rfl | positive
  · simp
  · have whole : n + 1 ≤ (n + 1) * size := Nat.le_mul_of_pos_right _ positive
    rw [Nat.succ_mul] at whole
    rw [wrapping_of_le (whole.trans fits), Nat.succ_mul]

end Counters
