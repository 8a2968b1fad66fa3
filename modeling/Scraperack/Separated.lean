import Mathlib.Data.List.Basic

/-! Lists written one after the other with a separator. Where the separator may occur in an item too, the text
does not tell where an item ends; it tells the pieces between any two separators. -/

namespace Separated
variable {α : Type} [DecidableEq α] (c : α)

/-- Every item with the separator before it. -/
def led (items : List (List α)) : List α := items.flatMap (fun item => c :: item)

/-- Every item with the separator behind it. -/
def ended (items : List (List α)) : List α := items.flatMap (fun item => item ++ [c])

/-- The parts between the separators, within the items and between them. -/
def pieces (items : List (List α)) : List (List α) := items.flatMap (List.splitOn c)

theorem splitOn_led (text : List α) (items : List (List α)) :
    (text ++ led c items).splitOn c = text.splitOn c ++ pieces c items := by
  induction items generalizing text with
  | nil => simp [led, pieces]
  | cons item rest ih =>
    have cut : text ++ led c (item :: rest) = text ++ c :: (item ++ led c rest) := rfl
    rw [cut, List.splitOn_append_cons_self, ih]
    rfl

theorem splitOn_injective {text other : List α} (same : text.splitOn c = other.splitOn c) :
    text = other := by
  calc text = [c].intercalate (text.splitOn c) := (List.intercalate_splitOn c).symm
    _ = [c].intercalate (other.splitOn c) := by rw [same]
    _ = other := List.intercalate_splitOn c

/-- The first separator closes what is before it. -/
theorem cut_inj {text other rest rest' : List α} (absent : c ∉ text) (absent' : c ∉ other)
    (same : text ++ c :: rest = other ++ c :: rest') : text = other ∧ rest = rest' := by
  have split := congrArg (List.splitOn c) same
  rw [List.splitOn_append_cons_self_of_not_mem absent,
    List.splitOn_append_cons_self_of_not_mem absent'] at split
  obtain ⟨first, others⟩ := List.cons.inj split
  exact ⟨first, splitOn_injective c others⟩

/-- The text is as good as the pieces. -/
theorem led_eq_iff {items others : List (List α)} :
    led c items = led c others ↔ pieces c items = pieces c others := by
  have split (items : List (List α)) : (led c items).splitOn c = [] :: pieces c items := by
    simpa using splitOn_led c [] items
  constructor
  · intro same
    have both := congrArg (List.splitOn c) same
    rw [split, split] at both
    exact (List.cons.inj both).2
  · intro same
    apply splitOn_injective c
    rw [split, split, same]

omit [DecidableEq α] in
theorem cons_ended (items : List (List α)) : c :: ended c items = led c items ++ [c] := by
  induction items with
  | nil => rfl
  | cons item rest ih =>
    have first : c :: ended c (item :: rest) = c :: (item ++ (c :: ended c rest)) := by
      simp [ended]
    rw [first, ih]
    simp [led]

theorem ended_eq_iff {items others : List (List α)} :
    ended c items = ended c others ↔ pieces c items = pieces c others := by
  rw [← led_eq_iff]
  constructor
  · intro same
    have both := congrArg (List.cons c) same
    rw [cons_ended, cons_ended] at both
    exact List.append_cancel_right both
  · intro same
    have both : c :: ended c items = c :: ended c others := by
      rw [cons_ended, cons_ended, same]
    exact (List.cons.inj both).2

/-- Items without the separator are their own pieces. -/
theorem pieces_eq_self {items : List (List α)} (plain : ∀ item ∈ items, c ∉ item) :
    pieces c items = items := by
  induction items with
  | nil => rfl
  | cons item rest ih =>
    have later := ih (fun other member => plain other (List.mem_cons_of_mem item member))
    rw [pieces, List.flatMap_cons, ← pieces, later,
      List.splitOn_eq_singleton (plain item List.mem_cons_self)]
    rfl

end Separated
