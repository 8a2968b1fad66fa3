import Scraperack.Rejections

/-! What pruning deletes: the rows whose retention period has passed, and of the other rows that are
over the shortest part, oldest first, that brings the total down to the limit. -/

namespace Scraperack

/-- The rows in `gone` are the shortest first part of the rows whose removal brings the total down
to the limit, or all of them when no part suffices. -/
structure Shortest (limit : Nat) (total : Int) (gone rest : List Row) : Prop where
  suffices_or_all : total - space gone ≤ limit ∨ rest = []
  needed : ∀ first more, gone = first ++ more → more ≠ [] → limit < total - space first

theorem Shortest.cons {limit : Nat} {total : Int} {gone rest : List Row} (row : Row)
    (exceeds : limit < total) (shortest : Shortest limit (total - row.sizeBytes) gone rest) :
    Shortest limit total (row :: gone) rest := by
  refine ⟨shortest.suffices_or_all.imp_left (fun fits => ?_), fun first more split left => ?_⟩
  · rw [space_cons]
    omega
  · cases first with
    | nil => simpa [space] using exceeds
    | cons head first =>
      obtain ⟨rfl, tail⟩ := List.cons_eq_cons.mp split
      have short := shortest.needed first more tail left
      rw [space_cons]
      omega

/-- The loop deletes the shortest first part of the candidates. Its running total is the bytes that are
left, cut off at zero. -/
theorem evict_shortest (limit : Nat) (candidates : List Row) (rows : Keyed Row.id) (used : Nat)
    (total : Int) (running : used = total.toNat) (exceeds : limit < total)
    (sizes : ∀ row ∈ candidates, 0 ≤ row.sizeBytes) :
    ∃ gone rest, candidates = gone ++ rest ∧ Shortest limit total gone rest ∧
      ∀ id, (evict limit rows used candidates).get id =
        if id ∈ gone.map Row.id then none else rows.get id := by
  induction candidates generalizing rows used total with
  | nil =>
    refine ⟨[], [], rfl, ⟨.inr rfl, fun first more split left => ?_⟩, by simp [evict]⟩
    exact absurd (List.append_eq_nil_iff.mp split.symm).2 left
  | cons row more ih =>
    have size := sizes row List.mem_cons_self
    have running : used - row.sizeBytes.toNat = (total - row.sizeBytes).toNat := by omega
    unfold evict
    dsimp only
    split_ifs with fits
    · refine ⟨[row], more, rfl, .cons row exceeds ⟨.inl ?_, fun first rest split left => ?_⟩,
        fun id => ?_⟩
      · simp only [space, List.map_nil, List.sum_nil]
        omega
      · exact absurd (List.append_eq_nil_iff.mp split.symm).2 left
      · rw [Keyed.get_erase]
        simp
    · obtain ⟨gone, rest, split, shortest, left⟩ := ih (rows.erase row.id)
        (used - row.sizeBytes.toNat) (total - row.sizeBytes) running (by omega)
        (fun other member => sizes other (List.mem_cons_of_mem _ member))
      refine ⟨row :: gone, rest, by rw [split, List.cons_append], shortest.cons row exceeds,
        fun id => ?_⟩
      rw [left, Keyed.get_erase, List.map_cons]
      by_cases here : id = row.id <;> by_cases later : id ∈ gone.map Row.id <;> simp [here, later]

namespace Database

/-- The rows whose retention period has not passed. -/
def unexpired (db : Database) (nowMs : Nat) : Keyed Row.id :=
  db.rows.filter (fun row => !db.expired nowMs row)

/-- The unexpired rows that are over and not protected, each once, the first to be finished first and
of these the first to be created first. -/
structure EvictionOrder (db : Database) (nowMs : Nat) (protectedId : Option Uuid)
    (found : List Row) : Prop where
  sorted : found.Pairwise EvictionLe
  distinct : (found.map Row.id).Nodup
  mem : ∀ row, row ∈ found ↔
    row ∈ (db.unexpired nowMs).values ∧ row.status.terminal = true ∧ some row.id ≠ protectedId

/-- The candidates of `prune`, in the order of its query. -/
def evictable (db : Database) (nowMs : Nat) (protectedId : Option Uuid) : List Row :=
  ((db.unexpired nowMs).values.filter (fun row =>
    row.status.terminal && decide (some row.id ≠ protectedId))).insertionSort EvictionLe

instance : IsTrans Row EvictionLe where
  trans a b c first second := by
    unfold EvictionLe at *
    omega

instance : Std.Total EvictionLe where
  total a b := by
    unfold EvictionLe
    omega

theorem evictable_order (db : Database) (nowMs : Nat) (protectedId : Option Uuid) :
    db.EvictionOrder nowMs protectedId (db.evictable nowMs protectedId) where
  sorted := List.pairwise_insertionSort _ _
  distinct := by
    refine ((List.perm_insertionSort EvictionLe _).map Row.id).nodup_iff.mpr ?_
    exact Keyed.nodup_filter _ _
  mem row := by
    rw [evictable, List.mem_insertionSort, List.mem_filter]
    simp

theorem prune_unfold (db : Database) (nowMs : Nat) (protectedId : Option Uuid) :
    prune db nowMs protectedId = (storageUsed (db.unexpired nowMs)).bind (fun used =>
      if used ≤ db.maxStorageBytes then some { db with rows := db.unexpired nowMs }
      else if (db.evictable nowMs protectedId).any (fun row => decide (row.sizeBytes < 0)) then none
      else some { db with
        rows := evict db.maxStorageBytes (db.unexpired nowMs) used
          (db.evictable nowMs protectedId) }) := rfl

/-- What pruning leaves: `gone` are the rows that it evicts, `rest` those that it could evict too. -/
structure Pruned (db : Database) (nowMs : Nat) (protectedId : Option Uuid) (next : Database)
    (gone rest : List Row) : Prop where
  order : db.EvictionOrder nowMs protectedId (gone ++ rest)
  shortest : Shortest db.maxStorageBytes (space (db.unexpired nowMs).values) gone rest
  settings : next = { db with rows := next.rows }
  rows : ∀ id, next.rows.get id = (db.rows.get id).filter (fun row =>
    !db.expired nowMs row && decide (row.id ∉ gone.map Row.id))

theorem get_unexpired_without (db : Database) (nowMs : Nat) (gone : List Row) (id : Uuid) :
    (if id ∈ gone.map Row.id then none else (db.unexpired nowMs).get id) =
      (db.rows.get id).filter (fun row =>
        !db.expired nowMs row && decide (row.id ∉ gone.map Row.id)) := by
  rw [unexpired, Keyed.get_filter]
  cases found : db.rows.get id with
  | none => simp
  | some row =>
    have own := Keyed.key_of_get found
    simp only [Option.filter_some, own]
    split_ifs <;> simp_all

theorem prune_spec {db next : Database} {nowMs : Nat} {protectedId : Option Uuid}
    (done : prune db nowMs protectedId = some next) :
    ∃ gone rest, db.Pruned nowMs protectedId next gone rest := by
  rw [prune_unfold] at done
  obtain ⟨used, held, done⟩ := Option.bind_eq_some_iff.mp done
  have total := storageUsed_eq_some held
  split_ifs at done with fits negative <;> obtain rfl := Option.some.inj done
  · refine ⟨[], db.evictable nowMs protectedId, db.evictable_order nowMs protectedId,
      ⟨.inl ?_, fun first more split left => ?_⟩, rfl, fun id => ?_⟩
    · simp only [space, List.map_nil, List.sum_nil] at total ⊢
      omega
    · exact absurd (List.append_eq_nil_iff.mp split.symm).2 left
    · rw [← get_unexpired_without]
      rfl
  · obtain ⟨gone, rest, split, shortest, left⟩ := evict_shortest db.maxStorageBytes
      (db.evictable nowMs protectedId) (db.unexpired nowMs) used _ (by omega)
      (show (db.maxStorageBytes : Int) < space (db.unexpired nowMs).values by omega)
      (by simpa using negative)
    refine ⟨gone, rest, split ▸ db.evictable_order nowMs protectedId, shortest, rfl, fun id => ?_⟩
    rw [← get_unexpired_without]
    exact left id

/-- The sizes cannot be counted: their sum is negative, or so is the size of a row to evict. -/
def Uncountable (db : Database) (nowMs : Nat) (protectedId : Option Uuid) : Prop :=
  space (db.unexpired nowMs).values < 0 ∨
    (db.maxStorageBytes : Int) < space (db.unexpired nowMs).values ∧
      ∃ row, row ∈ (db.unexpired nowMs).values ∧ row.status.terminal = true ∧
        some row.id ≠ protectedId ∧ row.sizeBytes < 0

theorem prune_eq_none_iff (db : Database) (nowMs : Nat) (protectedId : Option Uuid) :
    prune db nowMs protectedId = none ↔ db.Uncountable nowMs protectedId := by
  have held : storageUsed (db.unexpired nowMs) =
    if 0 ≤ space (db.unexpired nowMs).values then
      some (space (db.unexpired nowMs).values).toNat else none := rfl
  have negative : (db.evictable nowMs protectedId).any (fun row => decide (row.sizeBytes < 0)) =
      true ↔ ∃ row, row ∈ (db.unexpired nowMs).values ∧ row.status.terminal = true ∧
        some row.id ≠ protectedId ∧ row.sizeBytes < 0 := by
    simp only [List.any_eq_true, decide_eq_true_eq, (db.evictable_order nowMs protectedId).mem,
      and_assoc]
  rw [prune_unfold, held, Uncountable, ← negative]
  by_cases whole : 0 ≤ space (db.unexpired nowMs).values
  · rw [if_pos whole, Option.bind_some]
    by_cases fits : (space (db.unexpired nowMs).values).toNat ≤ db.maxStorageBytes
    · rw [if_pos fits]
      simp only [reduceCtorEq, false_iff]
      omega
    · rw [if_neg fits]
      by_cases found : (db.evictable nowMs protectedId).any
        (fun row => decide (row.sizeBytes < 0)) = true
      · simp only [found, if_true, and_true, true_iff]
        omega
      · simp only [found, Bool.false_eq_true, if_false, and_false, or_false, reduceCtorEq,
          false_iff]
        omega
  · rw [if_neg whole]
    simp only [Option.bind_none, true_iff]
    omega

/-- Pruning is exact. It fails only where the sizes cannot be counted; else it deletes the rows whose
retention period has passed and the shortest part of the eviction order, and nothing else. -/
theorem prune_exact (db : Database) (nowMs : Nat) (protectedId : Option Uuid) :
    (prune db nowMs protectedId = none ↔ db.Uncountable nowMs protectedId) ∧
      ∀ next, prune db nowMs protectedId = some next →
        (∃ gone rest, db.Pruned nowMs protectedId next gone rest) ∧
          ∀ id row, db.rows.get id = some row → row.status.terminal = false →
            next.rows.get id = some row := by
  refine ⟨db.prune_eq_none_iff nowMs protectedId, fun next done => ⟨prune_spec done, ?_⟩⟩
  intro id row present lasts
  obtain ⟨gone, rest, pruned⟩ := prune_spec done
  have kept : row.id ∉ gone.map Row.id := by
    intro evicted
    obtain ⟨other, member, same⟩ := List.mem_map.mp evicted
    obtain ⟨stays, ended, -⟩ := (pruned.order.mem other).mp (List.mem_append_left _ member)
    have stored := (Keyed.mem_values_iff _ _).mp (List.mem_filter.mp stays).1
    rw [same, Keyed.key_of_get present, present] at stored
    rw [Option.some.inj stored, ended] at lasts
    cases lasts
  rw [pruned.rows, present, Option.filter_some, expired, lasts, decide_eq_true kept]
  rfl

end Database

namespace Demo

def storedRow (id : Uuid) (status : ExecutionStatus) (finishedAtMs : Option Nat)
    (sizeBytes : Int) : Row :=
  ⟨id, "pool", none, status, .null, none, none, 0, none, finishedAtMs, none, none, ∅, none, sizeBytes⟩

/-- Ninety bytes: one row is expired at 2000, one is active, two may be evicted. -/
def crowdedDatabase : Database :=
  { cluster := none
    rows := (((∅ : Keyed Row.id).insert (storedRow 1 .succeeded (some 500) 30)).insert
      (storedRow 2 .running none 20)).insert (storedRow 3 .failed (some 1700) 20) |>.insert
      (storedRow 4 .timedOut (some 1600) 20)
    retentionMs := 1000
    maxStorageBytes := 40 }

end Demo

namespace Database

/-- The older of the two rows is evicted, the younger one stays. -/
theorem prune_exact_crowded :
    ∃ next, prune Demo.crowdedDatabase 2000 none = some next ∧
      (∃ gone rest, Demo.crowdedDatabase.Pruned 2000 none next gone rest) ∧
      next.rows.values.map Row.id = [3, 2] := by
  have succeeds : ((prune Demo.crowdedDatabase 2000 none).any (fun next =>
    decide (next.rows.values.map Row.id = [3, 2]))) = true := by decide +kernel
  obtain ⟨next, done, left⟩ := (Option.any_eq_true _ _).mp succeeds
  exact ⟨next, done, ((prune_exact Demo.crowdedDatabase 2000 none).2 next done).1,
    of_decide_eq_true left⟩

end Database
end Scraperack
