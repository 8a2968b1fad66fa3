import Mathlib

/-! Finite collections whose members carry their own key, the shape of every
hash map that files a record under one of the record's fields. Sums and counts
over such a collection change in a controlled way when one member changes. -/

/-- Values with pairwise different keys, where the key is a function of the value. -/
structure Keyed {V K : Type} (key : V → K) where
  values : List V
  nodup : (values.map key).Nodup

namespace Keyed

/-- A map from keys to plain values, as a collection of pairs. -/
abbrev Table (K V : Type) := Keyed (Prod.fst : K × V → K)

variable {V K : Type} {key : V → K}

def empty : Keyed key := ⟨[], List.nodup_nil⟩

instance : EmptyCollection (Keyed key) := ⟨empty⟩

theorem nodup_filter (t : Keyed key) (p : V → Bool) : ((t.values.filter p).map key).Nodup :=
  List.Nodup.sublist (List.Sublist.map key List.filter_sublist) t.nodup

def filter (t : Keyed key) (p : V → Bool) : Keyed key := ⟨t.values.filter p, t.nodup_filter p⟩

/-- Rewrite every value in place. The rewriting may not touch the keys. -/
def map (t : Keyed key) (f : V → V) (keeps : ∀ v, key (f v) = key v) : Keyed key :=
  ⟨t.values.map f, by
    have same : key ∘ f = key := funext keeps
    rw [List.map_map, same]
    exact t.nodup⟩

def total (t : Keyed key) (f : V → Nat) : Nat := (t.values.map f).sum

def count (t : Keyed key) (p : V → Bool) : Nat := (t.values.filter p).length

def any (t : Keyed key) (p : V → Bool) : Bool := t.values.any p

def all (t : Keyed key) (p : V → Bool) : Bool := t.values.all p

theorem count_eq_total (t : Keyed key) (p : V → Bool) :
    t.count p = t.total (fun v => if p v then 1 else 0) := by
  unfold count total
  induction t.values with
  | nil => rfl
  | cons head tail ih => cases holds : p head <;> simp [holds, ih, Nat.add_comm]

@[simp] theorem total_empty (f : V → Nat) : (∅ : Keyed key).total f = 0 := rfl

@[simp] theorem total_map (t : Keyed key) (f : V → V) (keeps : ∀ v, key (f v) = key v)
    (g : V → Nat) :
    (t.map f keeps).total g = t.total (fun v => g (f v)) := by
  simp [total, map, Function.comp_def]

variable [DecidableEq K]

def get (t : Keyed key) (k : K) : Option V := t.values.find? (fun v => key v = k)

def contains (t : Keyed key) (k : K) : Bool := (t.get k).isSome

def erase (t : Keyed key) (k : K) : Keyed key := t.filter (fun v => key v ≠ k)

theorem nodup_insert (t : Keyed key) (v : V) :
    ((v :: t.values.filter (fun w => key w ≠ key v)).map key).Nodup := by
  rw [List.map_cons, List.nodup_cons]
  refine ⟨?_, t.nodup_filter _⟩
  intro member
  obtain ⟨w, kept, same⟩ := List.mem_map.mp member
  simp only [List.mem_filter, decide_eq_true_eq] at kept
  exact kept.2 same

/-- The new value replaces the one filed under its key, if there is one. -/
def insert (t : Keyed key) (v : V) : Keyed key :=
  ⟨v :: t.values.filter (fun w => key w ≠ key v), t.nodup_insert v⟩

theorem keeps_ite (k : K) (f : V → V) (keeps : ∀ v, key (f v) = key v) (v : V) :
    key (if key v = k then f v else v) = key v := by
  split_ifs
  · exact keeps v
  · rfl

/-- Rewrite the value filed under one key, if there is one. -/
def adjust (t : Keyed key) (k : K) (f : V → V) (keeps : ∀ v, key (f v) = key v) :
    Keyed key :=
  t.map (fun v => if key v = k then f v else v) (keeps_ite k f keeps)

/-! Lookup. -/

theorem get_eq_some_iff (t : Keyed key) (k : K) (v : V) :
    t.get k = some v ↔ v ∈ t.values ∧ key v = k := by
  constructor
  · intro found
    exact ⟨List.mem_of_find?_eq_some found, by simpa using List.find?_some found⟩
  · rintro ⟨member, rfl⟩
    cases found : t.get (key v) with
    | none =>
      have absent := List.find?_eq_none.mp found v member
      simp at absent
    | some w =>
      have other := List.mem_of_find?_eq_some found
      have same : key w = key v := by simpa using List.find?_some found
      rw [List.inj_on_of_nodup_map t.nodup other member same]

theorem get_eq_none_iff (t : Keyed key) (k : K) : t.get k = none ↔ ∀ v ∈ t.values, key v ≠ k := by
  simp [get]

theorem key_of_get {t : Keyed key} {k : K} {v : V} (found : t.get k = some v) : key v = k :=
  ((t.get_eq_some_iff k v).mp found).2

theorem mem_of_get {t : Keyed key} {k : K} {v : V} (found : t.get k = some v) : v ∈ t.values :=
  ((t.get_eq_some_iff k v).mp found).1

theorem mem_values_iff (t : Keyed key) (v : V) : v ∈ t.values ↔ t.get (key v) = some v := by
  rw [get_eq_some_iff]
  simp

theorem get_congr {t : Keyed key} {k : K} {v : V} (found : t.get k = some v) : t.get
    (key v) = some v := by
  rw [key_of_get found]
  exact found

@[simp] theorem get_empty (k : K) : (∅ : Keyed key).get k = none := rfl

theorem contains_iff (t : Keyed key) (k : K) : t.contains k = true ↔ ∃ v, t.get k = some v := by
  rw [contains, Option.isSome_iff_exists]

theorem contains_eq_false_iff (t : Keyed key) (k : K) : t.contains k = false ↔ t.get k = none := by
  simp [contains]

@[simp] theorem get_filter (t : Keyed key) (p : V → Bool) (k : K) :
    (t.filter p).get k = (t.get k).filter p := by
  ext v
  simp only [get_eq_some_iff, filter, List.mem_filter, Option.filter_eq_some_iff]
  tauto

theorem get_erase (t : Keyed key) (k k' : K) :
    (t.erase k).get k' = if k' = k then none else t.get k' := by
  ext v
  split_ifs with same
  · subst same
    simp only [erase, get_filter, Option.filter_eq_some_iff, get_eq_some_iff,
      decide_eq_true_eq, iff_false,
      not_and, not_not]
    exact fun found => found.2
  · simp only [erase, get_filter, Option.filter_eq_some_iff, get_eq_some_iff, decide_eq_true_eq]
    constructor
    · exact fun found => found.1
    · intro found
      exact ⟨found, fun wrong => same (found.2.symm.trans wrong)⟩

@[simp] theorem get_erase_self (t : Keyed key) (k : K) : (t.erase k).get k = none := by
  simp [get_erase]

theorem get_erase_ne (t : Keyed key) {k k' : K}
    (differ : k' ≠ k) : (t.erase k).get k' = t.get k' := by
  simp [get_erase, differ]

theorem get_insert (t : Keyed key) (v : V) (k : K) :
    (t.insert v).get k = if k = key v then some v else t.get k := by
  by_cases same : k = key v
  · subst same
    simp [get, insert]
  · have skip : ¬ key v = k := fun wrong => same wrong.symm
    have rest : (t.erase (key v)).get k = t.get k := t.get_erase_ne same
    simp only [if_neg same, ← rest]
    simp [get, insert, erase, filter, skip]

@[simp] theorem get_insert_self (t : Keyed key) (v : V) : (t.insert v).get (key v) = some v := by
  simp [get_insert]

theorem get_insert_ne (t : Keyed key) {v : V} {k : K}
    (differ : k ≠ key v) : (t.insert v).get k = t.get k := by
  simp [get_insert, differ]

@[simp] theorem get_map (t : Keyed key) (f : V → V) (keeps : ∀ v, key (f v) = key v) (k : K) :
    (t.map f keeps).get k = (t.get k).map f := by
  have same : (fun v => decide (key v = k)) ∘ f = fun v => decide (key v = k) := by
    funext v
    simp [keeps v]
  simp only [get, map, List.find?_map, same]

theorem get_adjust (t : Keyed key) (k k' : K) (f : V → V) (keeps : ∀ v, key (f v) = key v) :
    (t.adjust k f keeps).get k' = if k' = k then (t.get k').map f else t.get k' := by
  rw [adjust, get_map]
  cases found : t.get k' with
  | none => simp
  | some v =>
    have own := key_of_get found
    by_cases same : k' = k <;> simp [own, same]

@[simp] theorem get_adjust_self (t : Keyed key) (k : K) (f : V → V)
    (keeps : ∀ v, key (f v) = key v) :
    (t.adjust k f keeps).get k = (t.get k).map f := by
  simp [get_adjust]

theorem get_adjust_ne (t : Keyed key) {k k' : K} (f : V → V) (keeps : ∀ v, key (f v) = key v)
    (differ : k' ≠ k) : (t.adjust k f keeps).get k' = t.get k' := by
  simp [get_adjust, differ]

theorem any_iff (t : Keyed key) (p : V → Bool) :
    t.any p = true ↔ ∃ k v, t.get k = some v ∧ p v = true := by
  simp only [any, List.any_eq_true]
  constructor
  · rintro ⟨v, member, holds⟩
    exact ⟨key v, v, (t.mem_values_iff v).mp member, holds⟩
  · rintro ⟨k, v, found, holds⟩
    exact ⟨v, mem_of_get found, holds⟩

theorem any_eq_false_iff (t : Keyed key) (p : V → Bool) :
    t.any p = false ↔ ∀ k v, t.get k = some v → p v = false := by
  rw [← Bool.not_eq_true, any_iff]
  simp

theorem all_iff (t : Keyed key) (p : V → Bool) :
    t.all p = true ↔ ∀ k v, t.get k = some v → p v = true := by
  simp only [all, List.all_eq_true]
  constructor
  · exact fun holds k v found => holds v (mem_of_get found)
  · exact fun holds v member => holds (key v) v ((t.mem_values_iff v).mp member)

/-! Sums over the values. -/

theorem total_congr {t : Keyed key} {f g : V → Nat} (same : ∀ k v, t.get k = some v → f v = g v) :
    t.total f = t.total g := by
  unfold total
  congr 1
  exact List.map_congr_left (fun v member => same (key v) v ((t.mem_values_iff v).mp member))

theorem total_zero {t : Keyed key} {f : V → Nat} (zero : ∀ k v, t.get k = some v → f v = 0) :
    t.total f = 0 := by
  rw [total_congr (g := fun _ => 0) zero]
  simp [total]

theorem total_le {t : Keyed key} {f g : V → Nat} (below : ∀ k v, t.get k = some v → f v ≤ g v) :
    t.total f ≤ t.total g := by
  exact List.sum_le_sum (fun v member => below (key v) v ((t.mem_values_iff v).mp member))

private theorem sum_split (values : List V) (nodup : (values.map key).Nodup) (v : V)
    (member : v ∈ values) (f : V → Nat) :
    (values.map f).sum = f v + ((values.filter (fun w => key w ≠ key v)).map f).sum := by
  induction values with
  | nil => cases member
  | cons head tail ih =>
    rw [List.map_cons, List.nodup_cons] at nodup
    rcases List.mem_cons.mp member with rfl | later
    · have kept : tail.filter (fun w => decide (key w ≠ key v)) = tail := by
        rw [List.filter_eq_self]
        intro w inside
        have differ : key w ≠ key v := fun same => nodup.1 (same ▸ List.mem_map_of_mem inside)
        simpa using differ
      simp only [List.map_cons, List.sum_cons, List.filter_cons, ne_eq,
        not_true_eq_false, decide_false,
        Bool.false_eq_true, ↓reduceIte]
      rw [kept]
    · have differ : key head ≠ key v := fun same => nodup.1 (same ▸ List.mem_map_of_mem later)
      have rest := ih nodup.2 later
      rw [List.filter_cons_of_pos (by simpa using differ), List.map_cons,
        List.map_cons, List.sum_cons,
        List.sum_cons, rest]
      omega

theorem total_erase {t : Keyed key} {k : K} {v : V} (found : t.get k = some v) (f : V → Nat) :
    t.total f = f v + (t.erase k).total f := by
  have own := key_of_get found
  subst own
  exact sum_split t.values t.nodup v (mem_of_get found) f

theorem erase_absent {t : Keyed key} {k : K} (absent : t.get k = none) : t.erase k = t := by
  have kept : t.values.filter (fun v => decide (key v ≠ k)) = t.values := by
    rw [List.filter_eq_self]
    intro v member
    simpa using (t.get_eq_none_iff k).mp absent v member
  cases t with
  | mk values nodup => simpa [erase, filter] using kept

/-- Taking back a new value restores the collection. -/
theorem erase_insert_absent {t : Keyed key} {v : V} (absent : t.get (key v) = none) :
    (t.insert v).erase (key v) = t := by
  have kept : t.values.filter (fun w => decide (key w ≠ key v)) = t.values := by
    rw [List.filter_eq_self]
    intro w member
    simpa using (t.get_eq_none_iff (key v)).mp absent w member
  cases t with
  | mk values nodup => simpa [erase, insert, filter] using kept

theorem total_insert (t : Keyed key) (v : V) (f : V → Nat) :
    (t.insert v).total f = f v + (t.erase (key v)).total f := by
  simp [total, insert, erase, filter]

theorem total_insert_absent {t : Keyed key} {v : V} (absent : t.get (key v) = none) (f : V → Nat) :
    (t.insert v).total f = f v + t.total f := by
  rw [total_insert, erase_absent absent]

/-- Two summands that agree away from one key differ in total exactly as they differ there. -/
theorem total_change {t : Keyed key} {k : K} {v : V} (found : t.get k = some v) {f g : V → Nat}
    (same : ∀ k' w, t.get k' = some w → k' ≠ k → f w = g w) :
    t.total f + g v = t.total g + f v := by
  have rest : (t.erase k).total f = (t.erase k).total g := by
    apply total_congr
    intro k' w kept
    rw [get_erase] at kept
    split_ifs at kept with wrong
    exact same k' w kept wrong
  rw [total_erase found f, total_erase found g, rest]
  omega

theorem total_adjust {t : Keyed key} {k : K} {v : V} (found : t.get k = some v) (f : V → V)
    (keeps : ∀ v, key (f v) = key v) (g : V → Nat) :
    (t.adjust k f keeps).total g + g v = t.total g + g (f v) := by
  have own := key_of_get found
  rw [adjust, total_map]
  have moved := total_change found (f := fun w => g (if key w = k then f w else w)) (g := g) (by
    intro k' w inside differ
    simp [key_of_get inside, differ])
  simpa [own] using moved

@[simp] theorem contains_map (t : Keyed key) (f : V → V) (keeps : ∀ v, key (f v) = key v) (k : K) :
    (t.map f keeps).contains k = t.contains k := by
  simp [contains]

@[simp] theorem contains_adjust (t : Keyed key) (k k' : K) (f : V → V)
    (keeps : ∀ v, key (f v) = key v) :
    (t.adjust k f keeps).contains k' = t.contains k' := contains_map ..

theorem contains_insert (t : Keyed key) (v : V) (k : K) :
    (t.insert v).contains k = (decide (k = key v) || t.contains k) := by
  rw [contains, get_insert]
  by_cases same : k = key v <;> simp [same, contains]

theorem contains_erase (t : Keyed key) (k k' : K) :
    (t.erase k).contains k' = (decide (k' ≠ k) && t.contains k') := by
  rw [contains, get_erase]
  by_cases same : k' = k <;> simp [same, contains]

/-- A sum is settled by what is filed under each key, in whatever order it is kept. -/
theorem total_eq_of_get (t u : Keyed key) {f : V → Nat}
    (same : ∀ k, (t.get k).map f = (u.get k).map f) : t.total f = u.total f := by
  obtain ⟨values, nodup⟩ := t
  induction values generalizing u with
  | nil =>
    rw [total_zero (t := u)]
    · rfl
    · intro k v found
      have none_here := same k
      rw [found] at none_here
      cases none_here
  | cons head rest ih =>
    have found : (⟨head :: rest, nodup⟩ : Keyed key).get (key head) = some head := by simp [get]
    have there := same (key head)
    rw [found, Option.map_some, eq_comm, Option.map_eq_some_iff] at there
    obtain ⟨other, present, agree⟩ := there
    have shorter : (⟨head :: rest, nodup⟩ : Keyed key).erase (key head) =
        ⟨rest, (List.nodup_cons.mp nodup).2⟩ := by
      have kept : rest.filter (fun v => decide (key v ≠ key head)) = rest := by
        rw [List.filter_eq_self]
        intro v member
        have differ : key v ≠ key head := fun equal =>
          (List.nodup_cons.mp nodup).1 (equal ▸ List.mem_map_of_mem member)
        simpa using differ
      simpa [erase, filter] using kept
    rw [total_erase found, total_erase present, shorter, agree]
    rw [ih (u.erase (key head)) (List.nodup_cons.mp nodup).2]
    intro k
    rw [← shorter, get_erase, get_erase]
    split_ifs
    · rfl
    · exact same k

/-- A sum is no larger when every value that counts was filed under its key with as much. -/
theorem total_le_of_get (t u : Keyed key) {f : V → Nat}
    (below : ∀ k v, t.get k = some v → f v = 0 ∨ ∃ w, u.get k = some w ∧ f v ≤ f w) :
    t.total f ≤ u.total f := by
  obtain ⟨values, nodup⟩ := t
  induction values generalizing u with
  | nil => exact Nat.zero_le _
  | cons head rest ih =>
    obtain ⟨alone, distinct⟩ := List.nodup_cons.mp nodup
    have first := below (key head) head (by simp [get])
    have others (w : Keyed key) (same : ∀ k, k ≠ key head → w.get k = u.get k) :
        (⟨rest, distinct⟩ : Keyed key).total f ≤ w.total f := by
      refine ih w distinct (fun k v found => ?_)
      have member := mem_of_get found
      have own := key_of_get found
      have differ : k ≠ key head := fun equal =>
        alone (List.mem_map.mpr ⟨v, member, own.trans equal⟩)
      have before : (⟨head :: rest, nodup⟩ : Keyed key).get k = some v :=
        (get_eq_some_iff _ _ _).mpr ⟨List.mem_cons_of_mem _ member, own⟩
      rw [same k differ]
      exact below k v before
    have split : (⟨head :: rest, nodup⟩ : Keyed key).total f =
        f head + (⟨rest, distinct⟩ : Keyed key).total f := by
      simp [total]
    rcases first with none_left | ⟨w, found, fewer⟩
    · have all := others u (fun _ _ => rfl)
      omega
    · have left := others (u.erase (key head)) (fun k differ => get_erase_ne _ differ)
      have parts := total_erase found f
      omega

theorem erase_adjust (t : Keyed key) (k k' : K) (f : V → V) (keeps : ∀ v, key (f v) = key v) :
    (t.adjust k f keeps).erase k' = (t.erase k').adjust k f keeps := by
  have same : (fun v => decide (key v ≠ k')) ∘ (fun v => if key v = k then f v else v) =
      fun v => decide (key v ≠ k') := by
    funext v
    simp [keeps_ite k f keeps v]
  simp only [erase, filter, adjust, map, List.filter_map, same]

/-- Rewriting a value that is then removed makes no difference. -/
theorem erase_adjust_self (t : Keyed key) (k : K) (f : V → V) (keeps : ∀ v, key (f v) = key v) :
    (t.adjust k f keeps).erase k = t.erase k := by
  rw [erase_adjust]
  have same : (t.erase k).values.map (fun v => if key v = k then f v else v) =
    (t.erase k).values := by
    rw [List.map_congr_left (g := id), List.map_id]
    intro v member
    have differ : key v ≠ k := by simpa [erase, filter] using (List.mem_filter.mp member).2
    simp [differ]
  simp only [adjust, map, same]

/-- A value is part of a sum over all of them. -/
theorem le_total {t : Keyed key} {k : K} {v : V} (found : t.get k = some v)
    (f : V → Nat) : f v ≤ t.total f := by
  rw [total_erase found]
  omega

/-- Two collections filed under the same keys may be joined from either side: summing over
the first what it finds in the second is summing over the second what it finds in the first. -/
theorem total_join {W : Type} {key' : W → K} (t : Keyed key) (u : Keyed key') (f : V → W → Nat) :
    t.total (fun v => ((u.get (key v)).map (fun w => f v w)).getD 0) =
      u.total (fun w => ((t.get (key' w)).map (fun v => f v w)).getD 0) := by
  obtain ⟨values, nodup⟩ := t
  induction values with
  | nil =>
    rw [total_zero (t := u)]
    · rfl
    · intro k w _
      rfl
  | cons head rest ih =>
    have others (k : K) : (⟨head :: rest, nodup⟩ : Keyed key).get k =
        if key head = k then some head else (⟨rest,
          (List.nodup_cons.mp nodup).2⟩ : Keyed key).get k := by
      by_cases same : key head = k <;> simp [get, same]
    have absent : (⟨rest, (List.nodup_cons.mp nodup).2⟩ : Keyed key).get (key head) = none := by
      rw [get_eq_none_iff]
      intro v member same
      exact (List.nodup_cons.mp nodup).1 (same ▸ List.mem_map_of_mem member)
    have split : (⟨head :: rest, nodup⟩ : Keyed key).total
      (fun v => ((u.get (key v)).map (fun w => f v w)).getD 0) =
        ((u.get (key head)).map (fun w => f head w)).getD 0 +
          (⟨rest, (List.nodup_cons.mp nodup).2⟩ : Keyed key).total
            (fun v => ((u.get (key v)).map (fun w => f v w)).getD 0) := rfl
    rw [split, ih]
    cases met : u.get (key head) with
    | none =>
      rw [Option.map_none, Option.getD_none, Nat.zero_add]
      apply total_congr
      intro k w found
      have differ : key head ≠ key' w := fun same => by
        rw [same, get_congr found] at met
        cases met
      rw [others, if_neg differ]
    | some w =>
      have own := key_of_get met
      have changed := total_change met
        (f := fun w => (((⟨head :: rest, nodup⟩ : Keyed key).get (key' w)).map (fun v =>
          f v w)).getD 0)
        (g := fun w => (((⟨rest, (List.nodup_cons.mp nodup).2⟩ : Keyed key).get (key' w)).map
          (fun v => f v w)).getD 0)
        (by
          intro k other found differ
          have away : key head ≠ key' other :=
            fun same => differ ((key_of_get found).symm.trans same.symm)
          rw [others, if_neg away])
      simp only [others, own, ↓reduceIte, absent, Option.map_none, Option.getD_none,
        Option.map_some,
        Option.getD_some, Nat.add_zero] at changed
      simp only [Option.map_some, Option.getD_some]
      have same : u.total (fun w =>
        (((⟨head :: rest, nodup⟩ : Keyed key).get (key' w)).map (fun v => f v w)).getD 0) =
          u.total (fun w => ((if key head = key' w then some head
            else (⟨rest, (List.nodup_cons.mp nodup).2⟩ : Keyed key).get (key' w)).map
              (fun v => f v w)).getD 0) := by
        simp only [others]
      rw [same, changed]
      omega

/-- What is in another order after a map was so before it. -/
theorem exists_of_perm_map {V W : Type} {f : V → W} {images : List W} {values : List V}
    (perm : images.Perm (values.map f)) :
    ∃ ordered : List V, ordered.Perm values ∧ images = ordered.map f := by
  have related : List.Forall₂ (fun w v => w = f v) (values.map f) values := by
    rw [List.forall₂_map_left_iff, List.forall₂_same]
    exact fun _ _ => rfl
  obtain ⟨ordered, pairs, perm'⟩ := List.perm_comp_forall₂ perm related
  refine ⟨ordered, perm', ?_⟩
  clear perm perm' related
  induction pairs with
  | nil => rfl
  | cons same _ ih => rw [List.map_cons, same, ih]

/-! A list of which one member goes, or changes. -/

theorem perm_eraseIdx {V : Type} {values : List V} {index : Nat} {v : V}
    (there : values[index]? = some v) : values.Perm (v :: values.eraseIdx index) := by
  obtain ⟨inside, rfl⟩ := List.getElem?_eq_some_iff.mp there
  exact (List.getElem_cons_eraseIdx_perm inside).symm

theorem perm_set {V : Type} {values : List V} {index : Nat} {v : V}
    (there : values[index]? = some v) (next : V) :
    (values.set index next).Perm (next :: values.eraseIdx index) :=
  List.set_perm_cons_eraseIdx (List.getElem?_eq_some_iff.mp there).1 next

end Keyed
