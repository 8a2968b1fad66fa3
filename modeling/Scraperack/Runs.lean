import Mathlib.Data.Option.Basic

/-! Runs of a labelled transition system given by a partial step function. A run
may be restricted to steps that meet a condition on the state before the step. -/

namespace Runs
variable {S L : Type}

/-- Perform the labels in order, as long as each is permitted and enabled. -/
def exec (step : S → L → Option S) (may : S → L → Prop) [∀ s label, Decidable (may s label)] : S →
    List L → Option S
  | s, [] => some s
  | s, label :: rest => if may s label then (step s label).bind
      (fun t => exec step may t rest) else none

/-- States connected by steps that all meet the condition `may`. -/
inductive Reaches (step : S → L → Option S) (may : S → L → Prop) : S → S → Prop where
  | refl (s : S) : Reaches step may s s
  | tail {s t u : S} (label : L) (before : Reaches step may s t) (allowed : may t label)
      (stepped : step t label = some u) : Reaches step may s u

variable {step : S → L → Option S} {may : S → L → Prop}

theorem Reaches.trans {s t u : S} (first : Reaches step may s t) (second : Reaches step may t u) :
    Reaches step may s u := by
  induction second with
  | refl => exact first
  | tail label _ allowed stepped ih => exact .tail label ih allowed stepped

theorem Reaches.single {s t : S} {label : L} (allowed : may s label)
    (stepped : step s label = some t) :
    Reaches step may s t := .tail label (.refl s) allowed stepped

/-- What holds at the start and survives every permitted step holds after every run. -/
theorem Reaches.invariant {P : S → Prop} {s t : S} (run : Reaches step may s t) (start : P s)
    (kept : ∀ {u v : S} {label : L}, P u → may u label → step u label = some v → P v) : P t := by
  induction run with
  | refl => exact start
  | tail label _ allowed stepped ih => exact kept ih allowed stepped

/-- The invariant rule with the run so far at hand, to draw on invariants already known. -/
theorem Reaches.invariant_along {P : S → Prop} {s t : S} (run : Reaches step may s t) (start : P s)
    (kept : ∀ {u v : S} {label : L}, Reaches step may s u → P u → may u label →
      step u label = some v → P v) :
    P t := by
  induction run with
  | refl => exact start
  | tail label before allowed stepped ih => exact kept before ih allowed stepped

theorem Reaches.mono {other : S → L → Prop} {s t : S} (run : Reaches step may s t)
    (weaker : ∀ u label, may u label → other u label) : Reaches step other s t := by
  induction run with
  | refl => exact .refl _
  | tail label _ allowed stepped ih => exact .tail label ih (weaker _ _ allowed) stepped

/-- A performed list of labels is a run. -/
theorem reaches_of_exec [∀ s label, Decidable (may s label)] (labels : List L) {s t : S}
    (done : exec step may s labels = some t) : Reaches step may s t := by
  induction labels generalizing s with
  | nil =>
    obtain rfl := Option.some.inj done
    exact .refl s
  | cons label rest ih =>
    by_cases allowed : may s label
    · rw [exec, if_pos allowed] at done
      obtain ⟨u, stepped, later⟩ := Option.bind_eq_some_iff.mp done
      exact (Reaches.single allowed stepped).trans (ih later)
    · rw [exec, if_neg allowed] at done
      cases done

/-- A performed list of labels that ends in a state of some kind is a run to such a state. -/
theorem exists_reaches (step : S → L → Option S) (may : S → L → Prop)
    [∀ s label, Decidable (may s label)]
    (s : S) (labels : List L) (p : S → Bool)
    (done : (exec step may s labels).any p = true) : ∃ t, Reaches step may s t ∧ p t = true := by
  obtain ⟨t, performed, holds⟩ := (Option.any_eq_true _ _).mp done
  exact ⟨t, reaches_of_exec labels performed, holds⟩

/-- Runs come to an end whose steps all lower a measure. -/
theorem length_le_of_exec [∀ s label, Decidable (may s label)] (measure : S → Nat)
    (lowers : ∀ {s t : S} {label : L}, may s label → step s label = some t → measure t < measure s)
    (labels : List L) {s t : S} (done : exec step may s labels = some t) :
    labels.length + measure t ≤ measure s := by
  induction labels generalizing s with
  | nil =>
    obtain rfl := Option.some.inj done
    simp
  | cons label rest ih =>
    by_cases allowed : may s label
    · rw [exec, if_pos allowed] at done
      obtain ⟨u, stepped, later⟩ := Option.bind_eq_some_iff.mp done
      have shorter := ih later
      have lower := lowers allowed stepped
      rw [List.length_cons]
      omega
    · rw [exec, if_neg allowed] at done
      cases done

/-- Where a step is possible as long as the goal is not reached, and all steps lower a measure,
the goal is reached. -/
theorem exists_goal {goal : S → Prop} (measure : S → Nat)
    (lowers : ∀ {s t : S} {label : L}, may s label → step s label = some t → measure t < measure s)
    {P : S → Prop} (kept : ∀ {s t : S} {label : L}, P s → may s label → step s label = some t → P t)
    (moves : ∀ s, P s → ¬ goal s → ∃ label t, may s label ∧ step s label = some t)
    {s : S} (start : P s) : ∃ t, Reaches step may s t ∧ goal t := by
  induction size : measure s using Nat.strongRecOn generalizing s with
  | ind n ih =>
    by_cases reached : goal s
    · exact ⟨s, .refl s, reached⟩
    · obtain ⟨label, t, allowed, stepped⟩ := moves s start reached
      obtain ⟨u, later, reached⟩ :=
        ih (measure t) (size ▸ lowers allowed stepped) (kept start allowed stepped) rfl
      exact ⟨u, (Reaches.single allowed stepped).trans later, reached⟩

end Runs
