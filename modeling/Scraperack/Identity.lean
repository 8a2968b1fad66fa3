import Mathlib.Data.List.Basic
import Mathlib.Algebra.Order.Group.Nat
import Mathlib.Tactic.Common

/-! Identifiers and the pool names that the controller derives from them. The
textual form of an identifier has a fixed length, so a derived name determines
the environment it was made for. -/

namespace Scraperack

abbrev Uuid := BitVec 128

namespace Uuid

/-- The 32 lower-case hexadecimal digits, most significant first. -/
def digits (id : Uuid) : List Char :=
  (List.range 32).map (fun i => (id.toNat / 16 ^ (31 - i) % 16).digitChar)

def hyphenatedChars (id : Uuid) : List Char :=
  id.digits.take 8 ++ '-' :: ((id.digits.drop 8).take 4 ++ '-' :: ((id.digits.drop 12).take 4 ++
    '-' :: ((id.digits.drop 16).take 4 ++ '-' :: id.digits.drop 20)))

def hyphenated (id : Uuid) : String := String.ofList id.hyphenatedChars

theorem digits_length (id : Uuid) : id.digits.length = 32 := by simp [digits]

theorem hyphenatedChars_length (id : Uuid) : id.hyphenatedChars.length = 36 := by
  simp [hyphenatedChars, digits_length]

private theorem digitChar_injective : ∀ a < 16, ∀ b < 16, a.digitChar = b.digitChar →
    a = b := by decide

/-- Numbers with the same digits in some base are the same. -/
theorem eq_of_digits (base count m n : Nat) (hm : m < base ^ count) (hn : n < base ^ count)
    (same : ∀ i, i < count → m / base ^ i % base = n / base ^ i % base) : m = n := by
  induction count generalizing m n with
  | zero => simp only [pow_zero] at hm hn; omega
  | succ count ih =>
    have low := same 0 (by omega)
    simp only [pow_zero, Nat.div_one] at low
    rw [pow_succ] at hm hn
    have high : m / base = n / base := by
      apply ih
      · exact Nat.div_lt_of_lt_mul (by rwa [Nat.mul_comm])
      · exact Nat.div_lt_of_lt_mul (by rwa [Nat.mul_comm])
      · intro i hi
        have digit := same (i + 1) (by omega)
        rwa [pow_succ, Nat.mul_comm, ← Nat.div_div_eq_div_mul, ← Nat.div_div_eq_div_mul] at digit
    rw [← Nat.div_add_mod m base, ← Nat.div_add_mod n base, high, low]

theorem digits_injective {a b : Uuid} (same : a.digits = b.digits) : a = b := by
  apply BitVec.eq_of_toNat_eq
  apply eq_of_digits 16 32 _ _ (lt_of_lt_of_le a.isLt (by decide))
    (lt_of_lt_of_le b.isLt (by decide))
  intro i hi
  have chars := congrArg (fun l : List Char => l[31 - i]?) same
  have range : 31 - i < 32 := by omega
  simp only [digits, List.getElem?_map, List.getElem?_range range, Option.map_some,
    Option.some.injEq] at chars
  have digit := digitChar_injective _ (Nat.mod_lt _ (by decide)) _ (Nat.mod_lt _ (by decide)) chars
  have index : 31 - (31 - i) = i := by omega
  rwa [index] at digit

theorem hyphenatedChars_injective {a b : Uuid}
    (same : a.hyphenatedChars = b.hyphenatedChars) : a = b := by
  apply digits_injective
  obtain ⟨first, rest⟩ := List.append_inj same (by simp [digits_length])
  simp only [List.cons.injEq, true_and] at rest
  obtain ⟨second, rest⟩ := List.append_inj rest (by simp [digits_length])
  simp only [List.cons.injEq, true_and] at rest
  obtain ⟨third, rest⟩ := List.append_inj rest (by simp [digits_length])
  simp only [List.cons.injEq, true_and] at rest
  obtain ⟨fourth, rest⟩ := List.append_inj rest (by simp [digits_length])
  simp only [List.cons.injEq, true_and] at rest
  have split (l : List Char) : l = l.take 8 ++ ((l.drop 8).take 4 ++ ((l.drop 12).take 4 ++
      ((l.drop 16).take 4 ++ l.drop 20))) := by
    have last : l.drop 20 = (l.drop 16).drop 4 := by simp
    have middle : l.drop 16 = (l.drop 12).drop 4 := by simp
    have start : l.drop 12 = (l.drop 8).drop 4 := by simp
    rw [last, List.take_append_drop, middle, List.take_append_drop, start, List.take_append_drop,
      List.take_append_drop]
  rw [split a.digits, split b.digits, first, second, third, fourth, rest]

end Uuid

/-- The name `create_environment` gives to the pool of a new environment. -/
def environmentPoolName (id : Uuid) : String := "environment-" ++ id.hyphenated

/-- The name `restart_environment_pool` gives to the next pool of an environment. -/
def restartedPoolName (id fresh : Uuid) : String :=
  "environment-" ++ id.hyphenated ++ "-" ++ String.ofList (fresh.digits.take 8)

/-- The name was made from this environment's identifier. -/
def OwnName (id : Uuid) (name : String) : Prop :=
  ∃ tail, name = "environment-" ++ id.hyphenated ++ tail

theorem ownName_environmentPoolName (id : Uuid) : OwnName id (environmentPoolName id) :=
  ⟨"", by simp [environmentPoolName]⟩

theorem ownName_restartedPoolName (id fresh : Uuid) : OwnName id (restartedPoolName id fresh) :=
  ⟨"-" ++ String.ofList (fresh.digits.take 8), by simp [restartedPoolName, String.append_assoc]⟩

theorem ownName_unique {a b : Uuid} {name : String} (first : OwnName a name)
    (second : OwnName b name) : a = b := by
  obtain ⟨tail, rfl⟩ := first
  obtain ⟨other, same⟩ := second
  have chars := congrArg String.toList same
  simp only [String.toList_append, Uuid.hyphenated, String.toList_ofList, List.append_assoc,
    List.append_cancel_left_eq] at chars
  exact Uuid.hyphenatedChars_injective
    (List.append_inj_left chars (by simp [Uuid.hyphenatedChars_length]))

end Scraperack
