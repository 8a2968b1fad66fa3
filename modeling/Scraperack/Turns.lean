import Mathlib.Data.Int.CardIntervalMod
import Mathlib.Data.List.Nodup

/-! Taking turns: the items of a list one after the other, and again from the front. -/

namespace Turns
variable {α : Type}

/-- So many turns, the first of which falls to the item at `start`, counted around the list. -/
def turns (items : List α) (start count : Nat) : List α :=
  (List.range count).filterMap (fun i => items[(start + i) % items.length]?)

variable {items : List α} {item : α} (start count : Nat)

theorem turns_succ : turns items start (count + 1) =
    turns items start count ++ items[(start + count) % items.length]?.toList := by
  rw [turns, List.range_succ, List.filterMap_append]
  refine congrArg (turns items start count ++ ·) ?_
  rw [List.filterMap_cons, List.filterMap_nil]
  cases items[(start + count) % items.length]? <;> rfl

/-- The places at which one item has its turns are those of one residue class. -/
theorem count_turns [DecidableEq α] (nodup : items.Nodup) (member : item ∈ items) :
    ∃ place, (turns items start count).count item =
      count / items.length + if place < count % items.length then 1 else 0 := by
  obtain ⟨index, inside, rfl⟩ := List.getElem_of_mem member
  have some_there : 0 < items.length := Nat.zero_lt_of_lt inside
  let first := index + (items.length - start % items.length)
  have begins : start + first ≡ index [MOD items.length] := by
    have parts := Nat.div_add_mod start items.length
    have below := Nat.mod_lt start some_there
    have whole : start + first = index + items.length * (start / items.length + 1) := by
      rw [Nat.mul_succ]
      omega
    rw [whole, Nat.ModEq, Nat.add_mul_mod_self_left]
  have mine (i : Nat) : items[(start + i) % items.length]? = some items[index] ↔
      i ≡ first [MOD items.length] := by
    have next := Nat.mod_lt (start + i) some_there
    rw [List.getElem?_eq_getElem next, Option.some.injEq, nodup.getElem_inj_iff]
    constructor
    · intro same
      refine Nat.ModEq.add_left_cancel' start (Nat.ModEq.trans ?_ begins.symm)
      rw [Nat.ModEq, same, Nat.mod_eq_of_lt inside]
    · intro same
      have turned := (same.add_left start).trans begins
      rwa [Nat.ModEq, Nat.mod_eq_of_lt inside] at turned
  refine ⟨first % items.length, ?_⟩
  rw [← Nat.count_modEq_card count some_there first, Nat.count, List.count_eq_countP, turns,
    List.countP_filterMap]
  refine List.countP_congr fun i _ => ?_
  rw [decide_eq_true_eq, ← mine]
  cases items[(start + i) % items.length]? <;> simp

/-- No item has more than one turn more than another. -/
theorem count_turns_cases [DecidableEq α] (nodup : items.Nodup) (member : item ∈ items) :
    (turns items start count).count item = count / items.length ∨
      (turns items start count).count item = (count + items.length - 1) / items.length := by
  obtain ⟨place, counted⟩ := count_turns start count nodup member
  rw [counted]
  split_ifs with more
  · have some_there : 0 < items.length := List.length_pos_of_mem member
    have parts := Nat.div_add_mod count items.length
    have below := Nat.mod_lt count some_there
    have split : count + items.length - 1 =
        (count % items.length - 1) + items.length * (count / items.length + 1) := by
      rw [Nat.mul_succ]
      omega
    have small : (count % items.length - 1) / items.length = 0 := Nat.div_eq_of_lt (by omega)
    rw [split, Nat.add_mul_div_left _ _ some_there, small, Nat.zero_add]
    exact .inr rfl
  · exact .inl rfl

end Turns
