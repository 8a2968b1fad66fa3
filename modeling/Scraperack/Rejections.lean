import Scraperack.Sizes

/-! What the database loses when it rejects an execution. The rows are evicted before it turns out that the new
one does not fit. -/

namespace Keyed
variable {K V : Type} [DecidableEq K] {key : V → K}

theorem perm_of_get {t u : Keyed key} (same : ∀ k, t.get k = u.get k) : t.values.Perm u.values := by
  refine (List.perm_ext_iff_of_nodup (List.Nodup.of_map _ t.nodup)
    (List.Nodup.of_map _ u.nodup)).mpr fun v => ?_
  rw [mem_values_iff, mem_values_iff, same]

/-- A table is the value under one of its keys and the rest. -/
theorem perm_erase {t : Keyed key} {k : K} {v : V} (found : t.get k = some v) :
    t.values.Perm (v :: (t.erase k).values) := by
  obtain rfl := key_of_get found
  have back : ∀ k, t.get k = ((t.erase (key v)).insert v).get k := by
    intro k
    rw [get_insert, get_erase]
    split_ifs with same
    · rw [same, found]
    · rfl
  have absent : (t.erase (key v)).values.filter (fun w => key w ≠ key v) =
    (t.erase (key v)).values := by
    rw [erase, filter, List.filter_filter]
    simp
  have values : ((t.erase (key v)).insert v).values = v :: (t.erase (key v)).values :=
    congrArg (v :: ·) absent
  exact values ▸ perm_of_get back

end Keyed

namespace Scraperack
variable [Crates]

/-- The bytes that the rows are counted with. -/
def space (rows : List Row) : Int := (rows.map Row.sizeBytes).sum

omit [Crates] in
theorem space_cons (row : Row) (rows : List Row) : space
    (row :: rows) = row.sizeBytes + space rows := by
  simp [space]

omit [Crates] in
theorem space_append (rows more : List Row) : space (rows ++ more) = space rows + space more := by
  simp [space]

omit [Crates] in
theorem space_perm {rows more : List Row} (same : rows.Perm more) : space rows = space more :=
  (same.map Row.sizeBytes).sum_eq

omit [Crates] in
theorem space_nonneg {rows : List Row} (sizes : ∀ row ∈ rows, 0 ≤ row.sizeBytes) : 0 ≤ space rows :=
  List.sum_nonneg (by simpa using sizes)

omit [Crates] in
/-- Eviction takes a first part of the candidates out, and the others only when it need not. -/
theorem evict_cases (limit : Nat) (candidates : List Row) (rows : Keyed Row.id) (used : Nat)
    (present : ∀ row ∈ candidates, rows.get row.id = some row)
    (distinct : (candidates.map Row.id).Nodup)
    (sizes : ∀ row ∈ candidates, 0 ≤ row.sizeBytes) (bound : space rows.values ≤ used) :
    ∃ gone rest, candidates = gone ++ rest ∧
      (∀ id, (evict limit rows used candidates).get id = if id ∈
        gone.map Row.id then none else rows.get id) ∧
      space rows.values = space gone + space (evict limit rows used candidates).values ∧
      (rest = [] ∨ space (evict limit rows used candidates).values ≤ limit) := by
  induction candidates generalizing rows used with
  | nil => exact ⟨[], [], rfl, by simp [evict], by simp [evict, space], Or.inl rfl⟩
  | cons row more ih =>
    obtain ⟨alone, distinct⟩ := List.nodup_cons.mp distinct
    have taken := space_perm (Keyed.perm_erase (present row List.mem_cons_self))
    rw [space_cons] at taken
    have size := sizes row List.mem_cons_self
    have erased : ∀ id, (rows.erase row.id).get id = if id =
      row.id then none else rows.get id := fun id =>
      Keyed.get_erase rows row.id id
    unfold evict
    dsimp only
    split_ifs with fits
    · refine ⟨[row], more, rfl, fun id => by
        rw [erased]; simp, by rw [taken]; simp [space], Or.inr ?_⟩
      omega
    · have others : ∀ other ∈ more, (rows.erase row.id).get other.id = some other := by
        intro other member
        rw [erased, if_neg (fun same : other.id = row.id =>
          alone (same ▸ List.mem_map_of_mem member))]
        exact present other (List.mem_cons_of_mem _ member)
      obtain ⟨gone, rest, split, left, sum, stop⟩ :=
        ih (rows.erase row.id) (used - row.sizeBytes.toNat) others distinct
        (fun other member => sizes other (List.mem_cons_of_mem _ member)) (by omega)
      refine ⟨row :: gone, rest, by
        rw [split]; rfl, fun id => ?_, by rw [taken, space_cons, sum]; omega, stop⟩
      rw [left, erased, List.map_cons]
      by_cases here : id = row.id <;> by_cases later : id ∈ gone.map Row.id <;> simp [here, later]

namespace Database

/-- The row is in a terminal status, and its retention period has passed. -/
def expired (db : Database) (nowMs : Nat) (row : Row) : Bool :=
  row.status.terminal && row.finishedAtMs.any
    (fun finished => decide (finished ≤ nowMs - db.retentionMs))

/-- The row of a new execution, with its secrets. -/
def newRow (execution : Execution) (secrets : Bytes) : Row :=
  rowOf execution execution.createdAtMs (if secrets.isEmpty then none else some secrets)
    (executionSize execution + secrets.length)

/-- The bytes that no eviction frees: those of the executions that are not over, and of the new one. -/
def lasting (db : Database) (execution : Execution) (secrets : Bytes) : Int :=
  space (db.rows.values.filter (fun row => !row.status.terminal)) +
    if db.expired execution.createdAtMs
      (newRow execution secrets) then 0 else (newRow execution secrets).sizeBytes

/-- The rows that a rejection may cost: those that are over and whose retention period has not passed. -/
def History (db : Database) (nowMs : Nat) (row : Row) : Prop :=
  row ∈ db.rows.values ∧ row.status.terminal = true ∧ db.expired nowMs row = false

theorem insertExecution_eq {db : Database} {execution : Execution} (secrets : Bytes)
    (fresh : db.rows.get execution.id = none) : ∃ rows : Keyed Row.id,
      rows.values.Perm (newRow execution secrets :: db.rows.values) ∧
      (∀ id, rows.get id = if id = execution.id then some
        (newRow execution secrets) else db.rows.get id) ∧
      db.insertExecution execution secrets =
        (prune { db with rows := rows } execution.createdAtMs (some execution.id)).bind (fun db =>
          (storageUsed db.rows).map (fun used =>
            if db.maxStorageBytes < used then (db.deleteExecution execution.id,
              false) else (db, true))) := by
  have gets : ∀ rows : Keyed Row.id,
      (∀ id, rows.get id = if id = execution.id then some
        (newRow execution secrets) else db.rows.get id) →
        rows.values.Perm (newRow execution secrets :: db.rows.values) := by
    intro rows is
    have same : ∀ id, rows.get id = (db.rows.insert (newRow execution secrets)).get id :=
      fun id => by
      rw [is, Keyed.get_insert]
      rfl
    have others : db.rows.values.filter (fun row => row.id ≠ execution.id) = db.rows.values :=
      List.filter_eq_self.mpr fun row member => by
        simpa using (Keyed.get_eq_none_iff _ _).mp fresh row member
    have values : (db.rows.insert (newRow execution secrets)).values = newRow execution secrets ::
      db.rows.values :=
      congrArg (newRow execution secrets :: ·) others
    exact values ▸ Keyed.perm_of_get same
  unfold insertExecution
  split_ifs with none_given
  · refine ⟨_, gets _ ?_, ?_, rfl⟩
    all_goals
      intro id
      simp only [upsertExecution, fresh, Keyed.get_insert, newRow, none_given, if_true]
      rw [List.isEmpty_iff.mp none_given]
      rfl
  · refine ⟨_, gets _ ?_, ?_, rfl⟩
    all_goals
      intro id
      simp only [upsertExecution, fresh, Keyed.get_adjust, Keyed.get_insert, newRow, none_given]
      by_cases same : id = execution.id
      · subst same
        simp [rowOf]
      · simp [same, rowOf]

/-- The candidates for eviction, in their order, when the new row is in the table. -/
def candidates (db : Database) (rows : Keyed Row.id) (execution : Execution) : List Row :=
  ((rows.filter (fun row => !db.expired execution.createdAtMs row)).values.filter (fun row =>
    row.status.terminal && decide (some row.id ≠ some execution.id))).insertionSort EvictionLe

omit [Crates] in
theorem prune_eq (db : Database) (rows : Keyed Row.id) (execution : Execution) :
    prune { db with rows := rows } execution.createdAtMs (some execution.id) =
      (storageUsed (rows.filter (fun row => !db.expired execution.createdAtMs row))).bind
        (fun used =>
        if used ≤ db.maxStorageBytes then
          some { db with rows := rows.filter (fun row => !db.expired execution.createdAtMs row) }
        else if (db.candidates rows execution).any (fun row => decide (row.sizeBytes < 0)) then none
        else some { db with
          rows := evict db.maxStorageBytes (rows.filter (fun row =>
            !db.expired execution.createdAtMs row)) used
            (db.candidates rows execution) }) := rfl

section Regimes
variable {db : Database} {execution : Execution} {secrets : Bytes} {rows : Keyed Row.id}

theorem mem_candidates (fresh : db.rows.get execution.id = none)
    (all : rows.values.Perm (newRow execution secrets :: db.rows.values)) (row : Row) :
    row ∈ db.candidates rows execution ↔ db.History execution.createdAtMs row := by
  unfold candidates History
  rw [List.mem_insertionSort, List.mem_filter, Keyed.filter, List.mem_filter,
    all.mem_iff, List.mem_cons]
  have new : row = newRow execution secrets → row.id = execution.id := fun same => by rw [same]; rfl
  have old : row ∈ db.rows.values → row.id ≠ execution.id :=
    (Keyed.get_eq_none_iff _ _).mp fresh row
  simp only [Bool.and_eq_true, Bool.not_eq_true', decide_eq_true_eq, ne_eq, Option.some.injEq]
  tauto

theorem space_candidates (fresh : db.rows.get execution.id = none)
    (all : rows.values.Perm (newRow execution secrets :: db.rows.values)) :
    space (rows.filter (fun row => !db.expired execution.createdAtMs row)).values =
      space (db.candidates rows execution) + db.lasting execution secrets := by
  have parted := space_perm (List.filter_append_perm
    (fun row => row.status.terminal && decide (some row.id ≠ some execution.id))
    (rows.filter (fun row => !db.expired execution.createdAtMs row)).values)
  rw [← parted, space_append]
  congr 1
  · exact space_perm (List.perm_insertionSort _ _).symm
  · rw [Keyed.filter, List.filter_filter, space_perm (all.filter _), List.filter_cons]
    have others : db.rows.values.filter (fun row =>
        (!(row.status.terminal && decide (some row.id ≠ some execution.id))) &&
          !db.expired execution.createdAtMs row) =
            db.rows.values.filter (fun row => !row.status.terminal) := by
      refine List.filter_congr fun row member => ?_
      have differs := (Keyed.get_eq_none_iff _ _).mp fresh row member
      unfold expired
      cases row.status.terminal <;> simp [differs]
    rw [others, lasting]
    have same : some (newRow execution secrets).id = some execution.id := rfl
    by_cases ended : db.expired execution.createdAtMs (newRow execution secrets) = true
    · simp [ended]
    · rw [if_neg ended, if_pos (by simp [same, ended]), space_cons]
      omega

omit [Crates] in
theorem storageUsed_eq_some {rows : Keyed Row.id} {used : Nat}
    (held : storageUsed rows = some used) :
    space rows.values = used := by
  change (if 0 ≤ space rows.values then some (space rows.values).toNat else none) =
    some used at held
  split_ifs at held with whole
  rw [← Option.some.inj held]
  omega

omit [Crates] in
theorem storageUsed_of_lt (rows : Keyed Row.id) (bytes : Nat)
    (held : (bytes : Int) < space rows.values) :
    ∃ used, storageUsed rows = some used ∧ bytes < used := by
  refine ⟨(space rows.values).toNat, ?_, by omega⟩
  change (if 0 ≤ space rows.values then some (space rows.values).toNat else none) = _
  rw [if_pos (by omega)]

/-- The candidates are rows of the table that is left after the retention period. -/
theorem candidates_kept (fresh : db.rows.get execution.id = none)
    (all : rows.values.Perm (newRow execution secrets :: db.rows.values)) (row : Row)
    (candidate : row ∈ db.candidates rows execution) :
    (rows.filter (fun row => !db.expired execution.createdAtMs row)).get row.id = some row := by
  obtain ⟨old, -, lasts⟩ := (mem_candidates fresh all row).mp candidate
  refine (Keyed.mem_values_iff _ _).mp
    (List.mem_filter.mpr ⟨all.mem_iff.mpr (List.mem_cons_of_mem _ old), ?_⟩)
  simpa using lasts

omit [Crates] in
theorem candidates_distinct : ((db.candidates rows execution).map Row.id).Nodup := by
  refine ((List.perm_insertionSort EvictionLe _).map Row.id).nodup_iff.mpr ?_
  exact Keyed.nodup_filter _ _

/-- A rejection has evicted every row that was over, and kept those that were not. -/
theorem rejected {after : Database} (fresh : db.rows.get execution.id = none)
    (done : db.insertExecution execution secrets = some (after, false)) :
    (∀ row, db.History execution.createdAtMs row →
      0 ≤ row.sizeBytes ∧ after.rows.get row.id = none) ∧
      db.maxStorageBytes < db.lasting execution secrets ∧
      ∀ id row, db.rows.get id = some row → row.status.terminal = false →
        after.rows.get id = some row := by
  obtain ⟨rows, all, gets, eq⟩ := insertExecution_eq secrets fresh
  rw [eq, prune_eq] at done
  obtain ⟨pruned, done, outcome⟩ := Option.bind_eq_some_iff.mp done
  obtain ⟨used, held, done⟩ := Option.bind_eq_some_iff.mp done
  obtain ⟨left, leftover, outcome⟩ := Option.map_eq_some_iff.mp outcome
  split_ifs at done with fits negative
  · -- Nothing is evicted, and what is there fits.
    obtain rfl := Option.some.inj done
    obtain rfl := Option.some.inj (held.symm.trans leftover)
    rw [if_neg (by dsimp only; omega)] at outcome
    cases outcome
  · obtain rfl := Option.some.inj done
    have sizes : ∀ row ∈ db.candidates rows execution, 0 ≤ row.sizeBytes := by
      simpa using negative
    obtain ⟨gone, rest, split, found, sum, stop⟩ :=
      evict_cases db.maxStorageBytes (db.candidates rows execution)
      (rows.filter (fun row => !db.expired execution.createdAtMs row)) used
        (candidates_kept fresh all)
      candidates_distinct sizes (storageUsed_eq_some held).le
    dsimp only at leftover outcome
    have space_left := storageUsed_eq_some leftover
    split_ifs at outcome with exceeds
    · obtain rfl := (Prod.mk.inj outcome).1
      have every : rest = [] := stop.resolve_right (by omega)
      rw [every, List.append_nil] at split
      have total := space_candidates fresh all
      refine ⟨fun row history => ?_, by rw [split] at total; omega, fun id row present active => ?_⟩
      · have candidate := (mem_candidates fresh all row).mpr history
        refine ⟨sizes row candidate, ?_⟩
        rw [deleteExecution, Keyed.get_erase, found,
          if_pos (List.mem_map_of_mem (split ▸ candidate))]
        split_ifs <;> rfl
      · have old : id ≠ execution.id := fun same => by
          rw [same, fresh] at present
          cases present
        have kept : id ∉ gone.map Row.id := by
          intro evicted
          obtain ⟨other, member, same⟩ := List.mem_map.mp evicted
          obtain ⟨stored, terminal, -⟩ := (mem_candidates fresh all other).mp (split ▸ member)
          rw [Keyed.mem_values_iff, same, present] at stored
          rw [Option.some.inj stored, terminal] at active
          cases active
        rw [deleteExecution, Keyed.get_erase, if_neg old, found, if_neg kept, Keyed.get_filter,
          gets, if_neg old, present]
        simp [expired, active]
    · cases outcome

/-- The transaction does reject when what no eviction frees exceeds the limit. -/
theorem rejects (fresh : db.rows.get execution.id = none)
    (sizes : ∀ row, db.History execution.createdAtMs row → 0 ≤ row.sizeBytes)
    (exceeds : db.maxStorageBytes < db.lasting execution secrets) :
    ∃ after, db.insertExecution execution secrets = some (after, false) := by
  obtain ⟨rows, all, gets, eq⟩ := insertExecution_eq secrets fresh
  have sizes : ∀ row ∈ db.candidates rows execution, 0 ≤ row.sizeBytes := fun row candidate =>
    sizes row ((mem_candidates fresh all row).mp candidate)
  have total := space_candidates fresh all
  have candidates := space_nonneg sizes
  obtain ⟨used, held, more⟩ := storageUsed_of_lt
    (rows.filter (fun row => !db.expired execution.createdAtMs row)) db.maxStorageBytes (by omega)
  obtain ⟨gone, rest, split, -, sum, -⟩ :=
    evict_cases db.maxStorageBytes (db.candidates rows execution)
    (rows.filter (fun row => !db.expired execution.createdAtMs row)) used
      (candidates_kept fresh all)
    candidates_distinct sizes (storageUsed_eq_some held).le
  have remaining : 0 ≤ space rest := space_nonneg fun row member =>
    sizes row (by simp [split, member])
  have parted := congrArg space split
  rw [space_append] at parted
  obtain ⟨left, leftover, exceeded⟩ := storageUsed_of_lt (evict db.maxStorageBytes
    (rows.filter (fun row => !db.expired execution.createdAtMs row)) used
      (db.candidates rows execution))
    db.maxStorageBytes (by omega)
  have negative : (db.candidates rows execution).any
    (fun row => decide (row.sizeBytes < 0)) = false := by
    simpa using sizes
  refine ⟨deleteExecution { db with
    rows := evict db.maxStorageBytes (rows.filter (fun row =>
      !db.expired execution.createdAtMs row)) used
      (db.candidates rows execution) } execution.id, ?_⟩
  rw [eq, prune_eq, held, Option.bind_some, if_neg (by omega), negative, if_neg (by decide),
    Option.bind_some]
  dsimp only
  rw [leftover, Option.map_some, if_pos exceeded]

end Regimes

/-- The execution costs no history: there is none, or it fits beside the executions that are not over. (A row of
negative size, which no call writes, makes the transaction fail.) -/
def SparesHistory (db : Database) (execution : Execution) (secrets : Bytes) : Prop :=
  (∀ row, ¬ db.History execution.createdAtMs row) ∨
    db.lasting execution secrets ≤ db.maxStorageBytes ∨
    ∃ row, db.History execution.createdAtMs row ∧ row.sizeBytes < 0

/-- A rejection leaves every row in place, but for those whose retention period has passed, exactly when the
execution costs no history. -/
theorem rejection_spares_history (db : Database) (execution : Execution) (secrets : Bytes)
    (fresh : db.rows.contains execution.id = false) :
    (∀ after, db.insertExecution execution secrets = some (after, false) →
      ∀ id row, db.rows.get id = some row →
      after.rows.get id = some row ∨ db.expired execution.createdAtMs row = true) ↔
    db.SparesHistory execution secrets := by
  have absent := (Keyed.contains_eq_false_iff _ _).mp fresh
  constructor
  · intro spares
    by_contra costs
    unfold SparesHistory at costs
    push Not at costs
    obtain ⟨⟨row, history⟩, exceeds, sizes⟩ := costs
    obtain ⟨after, done⟩ := rejects absent sizes exceeds
    have lost := ((rejected absent done).1 row history).2
    obtain ⟨stored, -, lasts⟩ := history
    rcases spares after done row.id row ((Keyed.mem_values_iff _ _).mp stored) with kept | expired
    · rw [lost] at kept
      cases kept
    · rw [expired] at lasts
      cases lasts
  · intro spares after done id row present
    obtain ⟨evicted, exceeds, kept⟩ := rejected absent done
    have none_lost : ∀ row, ¬ db.History execution.createdAtMs row := by
      rcases spares with none_there | fits | ⟨row, history, negative⟩
      · exact none_there
      · omega
      · have size := (evicted row history).1
        omega
    by_cases active : row.status.terminal = true
    · right
      by_contra lasts
      exact none_lost row ⟨Keyed.mem_of_get present, active, Bool.eq_false_iff.mpr lasts⟩
    · exact Or.inl (kept id row present (Bool.eq_false_iff.mpr active))

end Database

namespace Demo

/-- The bytes of the JSON documents `null` and `{}`. -/
abbrev jsonCrates : Crates :=
  { crates with toVec := fun _ => [110, 117, 108, 108], mapToVec := fun _ => [123, 125] }

/-- An execution of the pool that has just been created. -/
def submission : Execution :=
  newExecution 9 ⟨none, some "e", .null, ∅, ∅, true⟩ pool environment 1000

/-- A database of 20 bytes, 10 of which a finished execution takes. -/
def smallDatabase : Database :=
  { empty.database with
    maxStorageBytes := 20
    rows := (∅ : Keyed Row.id).insert
      (rowOf { submission with id := 8, status := .succeeded, finishedAtMs := some 900 } 100 none
        10) }

/-- A database of 50 bytes. The finished execution takes ten: payload and result are `null`, and
there are no variables. -/
def tightDatabase : Database :=
  { empty.database with
    maxStorageBytes := 50
    rows := (∅ : Keyed Row.id).insert (rowOf
      { submission with
        id := 8, status := .succeeded, result := some .null, finishedAtMs := some 900 } 100 none 10) }

end Demo

namespace Database

omit [Crates] in
/-- An execution takes six bytes and its secrets `{"k":"v"}`, sealed, 37. It is accepted at the expense
of the finished one. -/
theorem rejection_spares_history_accepted :
    (@insertExecution Demo.jsonCrates Demo.tightDatabase Demo.submission (List.replicate 37 0)).any
        (fun outcome => outcome.2 && decide (storageUsed outcome.1.rows = some 43)) = true ∧
      ∀ after, @insertExecution Demo.jsonCrates Demo.tightDatabase Demo.submission
        (List.replicate 37 0) = some (after, false) →
        ∀ id row, Demo.tightDatabase.rows.get id = some row → after.rows.get id = some row ∨
          Demo.tightDatabase.expired Demo.submission.createdAtMs row = true :=
  ⟨by decide +kernel,
    (@rejection_spares_history Demo.jsonCrates Demo.tightDatabase Demo.submission
      (List.replicate 37 0) (by decide)).mpr (Or.inr (Or.inl (by decide +kernel)))⟩

omit [Crates] in
/-- Thirty bytes of secrets never fit; the finished execution is lost all the same. -/
theorem rejection_destroys_history : ¬ ∀ (db : Database) (execution : Execution) (secrets : Bytes),
    db.rows.contains execution.id = false →
    ∀ after, @insertExecution Demo.crates db execution secrets = some (after, false) →
      ∀ id row, db.rows.get id = some row → after.rows.get id = some row ∨
        db.expired execution.createdAtMs row = true := by
  intro claim
  have lost : (@insertExecution Demo.crates Demo.smallDatabase Demo.submission (List.replicate 30
    0)).any
      (fun outcome => !outcome.2 && !outcome.1.rows.contains 8) = true := by decide +kernel
  obtain ⟨⟨after, accepted⟩, done, gone⟩ := (Option.any_eq_true _ _).mp lost
  simp only [Bool.and_eq_true, Bool.not_eq_true'] at gone
  obtain ⟨rfl, gone⟩ := gone
  have absent := (Keyed.contains_eq_false_iff _ _).mp gone
  rcases claim Demo.smallDatabase Demo.submission (List.replicate 30 0) (by decide) after done
    8 _ rfl with kept | expired
  · rw [absent] at kept
    cases kept
  · exact absurd expired (by decide)

end Database
end Scraperack
