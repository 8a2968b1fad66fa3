import Mathlib.Data.List.Basic

/-! A record of a series that is thinned out whenever it is full. However long the series, what is kept
runs from its first value to its last. -/

namespace Thinning
variable {α : Type}

/-- What is left of a list when every `step`-th value is taken, after so many are skipped. -/
def stepBy (step : Nat) : Nat → List α → List α
  | _, [] => []
  | 0, a :: rest => a :: stepBy step (step - 1) rest
  | skip + 1, _ :: rest => stepBy step skip rest

@[simp] theorem head_stepBy (step : Nat) (l : List α) : (stepBy step 0 l).head? = l.head? := by
  cases l <;> rfl

theorem stepBy_sublist (step skip : Nat) (l : List α) : (stepBy step skip l).Sublist l := by
  induction l generalizing skip with
  | nil => exact .slnil
  | cons a rest ih =>
    cases skip with
    | zero => exact (ih _).cons_cons a
    | succ skip => exact (ih skip).cons a

theorem length_stepBy (step skip : Nat) (l : List α) :
    (stepBy (step + 1) skip l).length = (l.length + step - skip) / (step + 1) := by
  induction l generalizing skip with
  | nil =>
    rw [stepBy, List.length_nil, Nat.div_eq_of_lt]
    omega
  | cons a rest ih =>
    cases skip with
    | zero =>
      rw [stepBy, List.length_cons, ih, List.length_cons]
      have whole : rest.length + 1 + step - 0 = rest.length + (step + 1) := by omega
      rw [whole, Nat.add_div_right _ (Nat.succ_pos step)]
      congr 2
      omega
    | succ skip =>
      rw [stepBy, ih, List.length_cons]
      congr 1
      omega

/-- A value is added, after the values there are have been thinned out if there are too many. -/
def push (limit step : Nat) (kept : List α) (value : α) : List α :=
  (if limit ≤ kept.length then stepBy step 0 kept else kept) ++ [value]

/-- What is kept of a series. -/
structure Kept (limit : Nat) (series kept : List α) : Prop where
  bounded : kept.length ≤ limit
  sublist : kept.Sublist series
  first : kept.head? = series.head?
  last : kept.getLast? = series.getLast?

theorem Kept.single {limit : Nat} (room : 0 < limit) (value : α) : Kept limit [value] [value] :=
  ⟨room, .refl _, rfl, rfl⟩

/-- Thinning a full list leaves room for one more value. -/
theorem Kept.push {limit step : Nat} {series kept : List α} (room : 2 ≤ limit) (thins : 2 ≤ step)
    (inhabited : series ≠ []) (before : Kept limit series kept) (value : α) :
    Kept limit (series ++ [value]) (push limit step kept value) := by
  have some_kept : kept ≠ [] := by
    rintro rfl
    exact inhabited (List.head?_eq_none_iff.mp before.first.symm)
  unfold Thinning.push
  split_ifs with full
  · obtain ⟨step, rfl⟩ : ∃ k, step = k + 1 := ⟨step - 1, by omega⟩
    have fewer : (stepBy (step + 1) 0 kept).length < limit := by
      have twice : 2 * step ≤ limit * step := Nat.mul_le_mul_right step room
      have bounded := before.bounded
      rw [length_stepBy, Nat.div_lt_iff_lt_mul (Nat.succ_pos step), Nat.mul_succ]
      omega
    refine ⟨?_, ?_, ?_, ?_⟩
    · rwa [List.length_append]
    · exact ((stepBy_sublist _ _ _).trans before.sublist).append (.refl _)
    · rw [List.head?_append, head_stepBy, List.head?_append, before.first]
    · rw [List.getLast?_concat, List.getLast?_concat]
  · refine ⟨?_, before.sublist.append (.refl _), ?_, ?_⟩
    · rw [List.length_append, List.length_singleton]
      omega
    · rw [List.head?_append, List.head?_append, before.first]
    · rw [List.getLast?_concat, List.getLast?_concat]

/-- Whatever follows the first value. -/
theorem kept_run {limit step : Nat} (room : 2 ≤ limit) (thins : 2 ≤ step) (first : α)
    (values : List α) : Kept limit (first :: values) (values.foldl (push limit step) [first]) := by
  have run (values series kept : List α) (inhabited : series ≠ [])
      (before : Kept limit series kept) :
      Kept limit (series ++ values) (values.foldl (push limit step) kept) := by
    induction values generalizing series kept with
    | nil =>
      rw [List.append_nil]
      exact before
    | cons value rest ih =>
      have next := ih (series ++ [value]) _ (by simp) (before.push room thins inhabited value)
      rwa [List.append_assoc] at next
  exact run values [first] [first] (by simp) (.single (by omega) first)

end Thinning
