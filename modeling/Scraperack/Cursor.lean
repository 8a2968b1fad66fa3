import Mathlib.Tactic.Common
import Mathlib.Algebra.Order.Group.Nat

/-! A cursor that walks round a range of numbers and stops behind the first one that is free. -/

namespace Cursor

/-- Look at so many numbers from the cursor on. The result is the first free one and where the cursor stands then. -/
def scan (advance : Nat → Nat) (free : Nat → Bool) : Nat → Nat → Option Nat × Nat
  | 0, cursor => (none, cursor)
  | turns + 1, cursor =>
    if free cursor then (some cursor, advance cursor) else scan advance free turns (advance cursor)

/-- The cursor walks round the `count` numbers from `start` on. -/
def Cycles (start count : Nat) (advance : Nat → Nat) : Prop :=
  ∀ offset, offset < count → advance (start + offset) = start + (offset + 1) % count

def Within (start count cursor : Nat) : Prop := start ≤ cursor ∧ cursor < start + count

variable {start count : Nat} {advance : Nat → Nat} {free : Nat → Bool}

theorem Within.offset {cursor : Nat} (within : Within start count cursor) :
    ∃ offset, offset < count ∧ cursor = start + offset := by
  obtain ⟨low, high⟩ := within
  exact ⟨cursor - start, by omega, by omega⟩

theorem Within.advanced (cycles : Cycles start count advance) {cursor : Nat}
    (within : Within start count cursor) :
    Within start count (advance cursor) := by
  obtain ⟨offset, small, rfl⟩ := within.offset
  rw [cycles offset small]
  have next := Nat.mod_lt (offset + 1) (show 0 < count by omega)
  exact ⟨by omega, by omega⟩

theorem scan_cursor (free : Nat → Bool) (cycles : Cycles start count advance)
    (turns : Nat) {cursor : Nat}
    (within : Within start count cursor) : Within start count
      (scan advance free turns cursor).2 := by
  induction turns generalizing cursor with
  | zero => exact within
  | succ turns ih =>
    rw [scan]
    split_ifs
    · exact within.advanced cycles
    · exact ih (within.advanced cycles)

theorem scan_found (cycles : Cycles start count advance) (turns : Nat) {cursor number : Nat}
    (within : Within start count cursor)
    (found : (scan advance free turns cursor).1 = some number) :
    free number = true ∧ Within start count number := by
  induction turns generalizing cursor with
  | zero => cases found
  | succ turns ih =>
    rw [scan] at found
    split_ifs at found with here
    · obtain rfl := Option.some.inj found
      exact ⟨here, within⟩
    · exact ih (within.advanced cycles) found

/-- A search in vain has looked at as many numbers, in order, as it had turns. -/
theorem scan_vain (cycles : Cycles start count advance) (turns offset : Nat)
    (small : offset < count)
    (vain : (scan advance free turns (start + offset)).1 = none) :
    ∀ k, k < turns → free (start + (offset + k) % count) = false := by
  induction turns generalizing offset with
  | zero =>
    intro k few
    omega
  | succ turns ih =>
    intro k few
    rw [scan] at vain
    split_ifs at vain with here
    cases k with
    | zero =>
      rw [Nat.add_zero, Nat.mod_eq_of_lt small]
      exact Bool.eq_false_iff.mpr here
    | succ k =>
      rw [cycles offset small] at vain
      have later := ih ((offset + 1) % count) (Nat.mod_lt _ (by omega)) vain k (by omega)
      rwa [Nat.mod_add_mod, Nat.add_assoc, Nat.add_comm 1 k] at later

/-- A whole round in vain finds nothing free in the range. -/
theorem scan_round (cycles : Cycles start count advance) {cursor : Nat}
    (within : Within start count cursor)
    (vain : (scan advance free count cursor).1 = none) {number : Nat}
    (inside : Within start count number) :
    free number = false := by
  obtain ⟨offset, small, rfl⟩ := within.offset
  obtain ⟨target, near, rfl⟩ := inside.offset
  have seen := scan_vain cycles count offset small vain ((target + count - offset) % count)
    (Nat.mod_lt _ (by omega))
  have back : (offset + (target + count - offset) % count) % count = target := by
    rw [Nat.add_mod_mod, show offset + (target + count - offset) = target + count by
      omega, Nat.add_mod_right,
      Nat.mod_eq_of_lt near]
  rwa [back] at seen

end Cursor
