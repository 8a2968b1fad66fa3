import Scraperack.System

/-! The sizes that the database keeps of its rows. Each is the number of bytes that the row
holds, so that their sum is what the storage limit is about. -/

namespace Scraperack

/-- The operations of the database that read or write rows. -/
inductive StorageCall where
  | insertExecution (execution : Execution) (secrets : Bytes)
  | saveExecution (execution : Execution)
  | saveExecutions (executions : List Execution)
  | completeExecution (execution : Execution)
  | deleteExecution (id : Uuid)
  | prune (now : Nat) (protectedId : Option Uuid)
  | loadActiveExecutions

variable [Crates]

namespace StorageCall

/-- The database after the call. A transaction that fails is rolled back. -/
def run (db : Database) : StorageCall → Database
  | insertExecution execution secrets =>
      ((db.insertExecution execution secrets).map Prod.fst).getD db
  | saveExecution execution => db.saveExecution execution
  | saveExecutions executions => db.saveExecutions executions
  | completeExecution execution => (db.completeExecution execution).getD db
  | deleteExecution id => db.deleteExecution id
  | prune now protectedId => (Scraperack.prune db now protectedId).getD db
  | loadActiveExecutions => db.loadActiveExecutions.1

/-- Rows are inserted under identifiers that have none yet. -/
def Admissible (db : Database) : StorageCall → Prop
  | insertExecution execution _ => db.rows.contains execution.id = false
  | _ => True

instance (db : Database) (call : StorageCall) : Decidable (call.Admissible db) :=
  match call with
  | insertExecution execution _ => inferInstanceAs
      (Decidable (db.rows.contains execution.id = false))
  | saveExecution _ | saveExecutions _ | completeExecution _ | deleteExecution _ | prune
      .. | loadActiveExecutions =>
    isTrue trivial

end StorageCall

/-- The lengths of the row's payload, variables, result, metrics, error and secrets. -/
def heldBytes (row : Row) : Nat :=
  (Crates.toVec row.payload).length + (Crates.mapToVec row.variableMap).length +
    (row.result.map (fun value => (Crates.toVec value).length)).getD 0 +
    (row.metrics.map (fun metrics => (Crates.metricsToVec metrics).length)).getD 0 +
    (row.error.map String.utf8ByteSize).getD 0 + (row.secrets.map List.length).getD 0

/-- Every row has the size of what it holds. -/
def Measured (rows : Keyed Row.id) : Prop :=
  ∀ id row, rows.get id = some row → row.sizeBytes = heldBytes row

@[simp] theorem heldBytes_rowOf (execution : Execution) (createdAtMs : Nat) (secrets : Option Bytes)
    (sizeBytes : Int) :
    heldBytes (rowOf execution createdAtMs secrets sizeBytes) =
      executionSize execution + (secrets.map List.length).getD 0 := rfl

namespace Measured
variable {rows : Keyed Row.id}

theorem filter (measured : Measured rows) (p : Row → Bool) : Measured (rows.filter p) := by
  intro id row present
  rw [Keyed.get_filter] at present
  exact measured id row (Option.filter_eq_some_iff.mp present).1

theorem erase (measured : Measured rows) (id : Uuid) : Measured (rows.erase id) := measured.filter _

theorem insert (measured : Measured rows) {row : Row} (exact : row.sizeBytes = heldBytes row) :
    Measured (rows.insert row) := by
  intro id other present
  rw [Keyed.get_insert] at present
  split_ifs at present
  · exact Option.some.inj present ▸ exact
  · exact measured id other present

/-- An update changes the size of its row by as much as what the row holds. -/
theorem adjust (measured : Measured rows) (id : Uuid) {f : Row → Row}
    (keeps : ∀ row, (f row).id = row.id)
    (exact : ∀ row, rows.get id = some row → row.sizeBytes = heldBytes row →
      (f row).sizeBytes = heldBytes (f row)) :
    Measured (rows.adjust id f keeps) := by
  intro k row present
  rw [Keyed.get_adjust] at present
  split_ifs at present with same
  · subst same
    obtain ⟨old, was, rfl⟩ := Option.map_eq_some_iff.mp present
    exact exact old was (measured k old was)
  · exact measured k row present

theorem upsert (measured : Measured rows) (execution : Execution) : Measured
    (upsertExecution rows execution) := by
  unfold upsertExecution
  cases rows.get execution.id with
  | none => exact measured.insert rfl
  | some old =>
    refine measured.insert ?_
    rw [heldBytes_rowOf, Int.natCast_add]
    rfl

theorem upsertAll (measured : Measured rows) (executions : List Execution) :
    Measured (executions.foldl upsertExecution rows) := by
  induction executions generalizing rows with
  | nil => exact measured
  | cons execution rest ih => exact ih (measured.upsert execution)

theorem evict (measured : Measured rows) (limit used : Nat) (candidates : List Row) :
    Measured (evict limit rows used candidates) := by
  induction candidates generalizing rows used with
  | nil => exact measured
  | cons candidate rest ih =>
    unfold Scraperack.evict
    dsimp only
    split_ifs
    · exact measured.erase candidate.id
    · exact ih (measured.erase candidate.id) _

theorem prune {db next : Database} (measured : Measured db.rows) {now : Nat}
    {protectedId : Option Uuid}
    (done : prune db now protectedId = some next) : Measured next.rows := by
  unfold Scraperack.prune at done
  dsimp only at done
  obtain ⟨used, -, done⟩ := Option.bind_eq_some_iff.mp done
  split_ifs at done <;> obtain rfl := Option.some.inj done
  · exact measured.filter _
  · exact (measured.filter _).evict _ _ _

theorem storageUsed (measured : Measured rows) : storageUsed rows = some
    (rows.total heldBytes) := by
  have same : rows.values.map Row.sizeBytes = (rows.values.map heldBytes).map Nat.cast := by
    rw [List.map_map]
    exact List.map_congr_left (fun row member =>
      measured row.id row ((Keyed.mem_values_iff _ _).mp member))
  have sum : (rows.values.map Row.sizeBytes).sum = (rows.total heldBytes : Int) := by
    rw [same, Keyed.total, Nat.cast_list_sum]
  simp [Scraperack.storageUsed, sum]

end Measured

/-- The row that an upsert under a new identifier leaves. -/
theorem get_upsertExecution_new {rows : Keyed Row.id} {execution : Execution}
    (absent : rows.get execution.id = none) :
    (upsertExecution rows execution).get execution.id =
      some (rowOf execution execution.createdAtMs none (executionSize execution)) := by
  simp only [upsertExecution, absent]
  exact Keyed.get_insert_self _ _

theorem Measured.insertExecution {db next : Database} {execution : Execution} {secrets : Bytes}
    {accepted : Bool}
    (measured : Measured db.rows) (absent : db.rows.get execution.id = none)
    (done : db.insertExecution execution secrets = some (next, accepted)) : Measured next.rows := by
  simp only [Database.insertExecution, Option.bind_eq_some_iff, Option.map_eq_some_iff] at done
  obtain ⟨pruned, kept, used, -, outcome⟩ := done
  have written : Measured pruned.rows := by
    refine Measured.prune ?_ kept
    dsimp only
    split_ifs
    · exact measured.upsert execution
    · refine adjust (f := fun row => { row with secrets := some secrets, sizeBytes :=
        row.sizeBytes + secrets.length })
        (measured.upsert execution) execution.id (fun _ => rfl) (fun row present exact => ?_)
      -- The row is new, so the secrets that are added are its only ones.
      rw [get_upsertExecution_new absent] at present
      obtain rfl := Option.some.inj present
      simp [rowOf, heldBytes, executionSize]
  split_ifs at outcome <;> cases outcome
  · exact written.erase execution.id
  · exact written

theorem Measured.completeExecution {db next : Database} {execution : Execution}
    (measured : Measured db.rows)
    (done : db.completeExecution execution = some next) : Measured next.rows := by
  simp only [Database.completeExecution, Option.bind_eq_some_iff, Option.map_eq_some_iff] at done
  obtain ⟨pruned, kept, used, -, rfl⟩ := done
  have written : Measured pruned.rows := by
    refine Measured.prune (adjust (f := fun row => { row with
        sizeBytes := row.sizeBytes - secretsLength row, secrets := none })
      (measured.upsert execution) execution.id (fun _ => rfl) (fun row _ exact => ?_)) kept
    simp only [exact, heldBytes, secretsLength, Option.map_none, Option.getD_none, Nat.add_zero]
    omega
  split_ifs
  · exact written.upsert _
  · exact written

theorem Measured.requeueRows {db : Database}
    (measured : Measured db.rows) : Measured db.requeueRows.rows := by
  intro id row present
  rw [Database.requeueRows, Keyed.get_map] at present
  obtain ⟨old, was, rfl⟩ := Option.map_eq_some_iff.mp present
  have exact := measured id old was
  unfold Database.requeueRow
  split_ifs
  · exact exact
  · exact exact

theorem Measured.run {db : Database} (measured : Measured db.rows) (call : StorageCall)
    (admissible : call.Admissible db) : Measured (call.run db).rows := by
  cases call with
  | insertExecution execution secrets =>
    rw [StorageCall.run]
    cases done : db.insertExecution execution secrets with
    | none => exact measured
    | some outcome =>
        exact measured.insertExecution ((Keyed.contains_eq_false_iff _ _).mp admissible) done
  | saveExecution execution => exact measured.upsert execution
  | saveExecutions executions => exact measured.upsertAll executions
  | completeExecution execution =>
    rw [StorageCall.run]
    cases done : db.completeExecution execution with
    | none => exact measured
    | some next => exact measured.completeExecution done
  | deleteExecution id => exact measured.erase id
  | prune now protectedId =>
    rw [StorageCall.run]
    cases done : Scraperack.prune db now protectedId with
    | none => exact measured
    | some next => exact measured.prune done
  | loadActiveExecutions => exact measured.requeueRows

/-- However rows are written, completed, evicted and requeued, each has the size of what it
holds, and the storage in use is what all rows hold together. -/
theorem storage_ledger_exact {db t : Database} (start : db.rows = ∅)
    (run : Runs.Reaches (fun db (call : StorageCall) => some (call.run db)) (fun db call =>
      call.Admissible db) db t) :
    (∀ id row, t.rows.get id = some row → row.sizeBytes = heldBytes row ∧ 0 ≤ row.sizeBytes) ∧
      storageUsed t.rows = some (t.rows.total heldBytes) := by
  have measured : Measured t.rows := by
    refine run.invariant (P := fun db => Measured db.rows) ?_ ?_
    · intro id row present
      rw [start] at present
      cases present
    · intro db next call measured admissible called
      obtain rfl := Option.some.inj called
      exact measured.run call admissible
  refine ⟨fun id row present => ?_, measured.storageUsed⟩
  have exact := measured id row present
  exact ⟨exact, by omega⟩

omit [Crates] in
/-- An execution is stored with three bytes of secrets, saved again and completed with an error of four. -/
theorem storage_ledger_exact_completed :
    ∃ t : Database, (∃ row, t.rows.get 9 = some row ∧ row.sizeBytes = 4) ∧
      storageUsed t.rows = some 4 := by
  let execution : Execution :=
    newExecution 9 ⟨none, some "e", .null, ∅, ∅, true⟩ Demo.pool Demo.environment 0
  obtain ⟨t, run, completed⟩ := Runs.exists_reaches
    (fun db (call : StorageCall) => some (@StorageCall.run Demo.crates db call))
      (fun db call => call.Admissible db)
    Demo.empty.database
    [.insertExecution execution [1, 2, 3], .saveExecution execution,
      .completeExecution { execution with status := .failed, error := some "oops", finishedAtMs := some 5 }]
    (fun t => (t.rows.get 9).any (fun row : Row => decide (@heldBytes Demo.crates row = 4)) &&
      decide (t.rows.total (@heldBytes Demo.crates) = 4)) (by decide +kernel)
  obtain ⟨exact, used⟩ := @storage_ledger_exact Demo.crates _ _ rfl run
  simp only [Bool.and_eq_true, decide_eq_true_eq, Option.any_eq_true] at completed
  obtain ⟨⟨row, present, four⟩, total⟩ := completed
  refine ⟨t, ⟨row, present, ?_⟩, used.trans (congrArg some total)⟩
  rw [(exact 9 row present).1, four]
  rfl

end Scraperack
