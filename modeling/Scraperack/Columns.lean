import Scraperack.Rows

/-! The table `executions` as the statements of `storage.rs` see it: values in columns, parameters by position
and results by index. The storage model's rows are what is in it. -/

namespace Scraperack

/-- What `serde_json::from_slice` makes of the stored documents. -/
class Documents extends Crates where
  valueFromSlice : Bytes → Option Value
  metricsFromSlice : Bytes → Option ExecutionMetrics

/-- `ExecutionView`. -/
structure ExecutionView where
  id : Uuid
  pool : String
  node : Option Uuid
  status : ExecutionStatus
  error : Option String
  createdAtMs : Nat
  startedAtMs : Option Nat
  finishedAtMs : Option Nat
  environment : Option Uuid
  metrics : Option ExecutionMetrics

/-- `ExecutionView::from`. -/
def ExecutionView.ofExecution (execution : Execution) : ExecutionView :=
  { id := execution.id, pool := execution.pool, node := execution.node, status := execution.status
    error := execution.error, createdAtMs := execution.createdAtMs
    startedAtMs := execution.startedAtMs, finishedAtMs := execution.finishedAtMs
    environment := execution.environment, metrics := execution.metrics }

namespace Sql

inductive SqlValue where
  | null
  | integer (value : Int)
  | text (value : String)
  | blob (value : Bytes)
  deriving DecidableEq

inductive Column where
  | id | pool | node | status | payload | result | error | createdAtMs | startedAtMs | finishedAtMs
  | environment | metrics | variableMap | secrets | sizeBytes
  deriving DecidableEq

abbrev Record := Column → SqlValue

/-- The primary key is the identifier. -/
abbrev Table := Keyed (fun record : Record => record .id)

/-! Values on their way in. An unsigned number has to fit into a signed one. -/

def unsigned (value : Nat) : Option SqlValue :=
  if value < 2 ^ 63 then some (.integer value) else none

def optionalUnsigned : Option Nat → Option SqlValue
  | none => some .null
  | some value => unsigned value

def nullable {α : Type} (f : α → SqlValue) : Option α → SqlValue
  | none => .null
  | some value => f value

def uuidText (id : Uuid) : SqlValue := .text id.hyphenated

def statusName : ExecutionStatus → String
  | .queued => "queued"
  | .assigned => "assigned"
  | .running => "running"
  | .succeeded => "succeeded"
  | .failed => "failed"
  | .timedOut => "timed_out"

/-! Values on their way out: `row.get` with the index of a column of the result, by the type that is
asked for. -/

def getText (row : List SqlValue) (index : Nat) : Option String :=
  match row[index]? with
  | some (.text value) => some value
  | _ => none

def getOptionalText (row : List SqlValue) (index : Nat) : Option (Option String) :=
  match row[index]? with
  | some .null => some none
  | some (.text value) => some (some value)
  | _ => none

def getBlob (row : List SqlValue) (index : Nat) : Option Bytes :=
  match row[index]? with
  | some (.blob value) => some value
  | _ => none

def getOptionalBlob (row : List SqlValue) (index : Nat) : Option (Option Bytes) :=
  match row[index]? with
  | some .null => some none
  | some (.blob value) => some (some value)
  | _ => none

def getUnsigned (row : List SqlValue) (index : Nat) : Option Nat :=
  match row[index]? with
  | some (.integer value) => if 0 ≤ value then some value.toNat else none
  | _ => none

def getOptionalUnsigned (row : List SqlValue) (index : Nat) : Option (Option Nat) :=
  match row[index]? with
  | some .null => some none
  | some (.integer value) => if 0 ≤ value then some (some value.toNat) else none
  | _ => none

/-- `value.map(f).transpose()`. -/
def transposed {α β : Type} (f : α → Option β) : Option α → Option (Option β)
  | none => some none
  | some value => (f value).map some

def statusOf (value : String) : Option ExecutionStatus :=
  match value with
  | "queued" => some .queued
  | "assigned" => some .assigned
  | "running" => some .running
  | "succeeded" => some .succeeded
  | "failed" => some .failed
  | "timed_out" => some .timedOut
  | _ => none

section
variable [Documents]

/-! `upsert_execution`. -/

def insertColumns : List Column :=
  [.id, .pool, .node, .status, .payload, .result, .error, .createdAtMs, .startedAtMs, .finishedAtMs,
    .environment, .metrics, .variableMap, .sizeBytes]

/-- The parameters `?1` to `?14`. -/
def parameters (execution : Execution) : Option (List SqlValue) := do
  let createdAtMs ← unsigned execution.createdAtMs
  let startedAtMs ← optionalUnsigned execution.startedAtMs
  let finishedAtMs ← optionalUnsigned execution.finishedAtMs
  let size ← unsigned (executionSize execution)
  return [
    uuidText execution.id,
    .text execution.pool,
    nullable uuidText execution.node,
    .text (statusName execution.status),
    .blob (Crates.toVec execution.payload),
    nullable (fun value => .blob (Crates.toVec value)) execution.result,
    nullable .text execution.error,
    createdAtMs,
    startedAtMs,
    finishedAtMs,
    nullable uuidText execution.environment,
    nullable (fun metrics => .blob (Crates.metricsToVec metrics)) execution.metrics,
    .blob (Crates.mapToVec execution.variableMap),
    size]

end

/-- The record of an insertion; a column that is not listed is `NULL`. -/
def inserted (columns : List Column) (values : List SqlValue) : Record := fun column =>
  (((columns.zip values).find? (fun entry => entry.1 = column)).map Prod.snd).getD .null

def coalesce (first second : SqlValue) : SqlValue := if first = .null then second else first

def length : SqlValue → SqlValue
  | .null => .null
  | .integer value => .integer (toString value).length
  | .text value => .integer value.length
  | .blob value => .integer value.length

/-- The sum of two integers. No other values are added here. -/
def plus : SqlValue → SqlValue → SqlValue
  | .integer a, .integer b => .integer (a + b)
  | _, _ => .null

/-- `ON CONFLICT(id) DO UPDATE SET`. -/
def conflictUpdates (executions excluded : Record) : List (Column × SqlValue) :=
  [(.pool, excluded .pool), (.node, excluded .node), (.status, excluded .status),
    (.payload, excluded .payload), (.result, excluded .result), (.error, excluded .error),
    (.startedAtMs, excluded .startedAtMs), (.finishedAtMs, excluded .finishedAtMs),
    (.environment, excluded .environment), (.metrics, excluded .metrics),
    (.variableMap, excluded .variableMap),
    (.sizeBytes, plus (excluded .sizeBytes)
      (coalesce (length (executions .secrets)) (.integer 0)))]

def updated (record : Record) (updates : List (Column × SqlValue)) : Record := fun column =>
  ((updates.find? (fun entry => entry.1 = column)).map Prod.snd).getD (record column)

section
variable [Documents]

def upsertExecution (table : Table) (execution : Execution) : Option Table :=
  (parameters execution).map (fun values =>
    let excluded := inserted insertColumns values
    match table.get (excluded .id) with
    | none => table.insert excluded
    | some record => table.insert (updated record (conflictUpdates record excluded)))

def upsertExecutions (table : Table) (executions : List Execution) : Option Table :=
  executions.foldlM upsertExecution table

/-! The queries. -/

def executionColumns : List Column :=
  [.id, .pool, .node, .status, .payload, .result, .error, .createdAtMs, .startedAtMs, .finishedAtMs,
    .environment, .metrics, .variableMap]

def viewColumns : List Column :=
  [.id, .pool, .node, .status, .error, .createdAtMs, .startedAtMs, .finishedAtMs, .environment,
    .metrics]

def executionFromRow (row : List SqlValue) : Option Execution := do
  let id ← (getText row 0).bind Crates.parseUuid
  let pool ← getText row 1
  let node ← (getOptionalText row 2).bind (transposed Crates.parseUuid)
  let status ← (getText row 3).bind statusOf
  let payload ← (getBlob row 4).bind Documents.valueFromSlice
  let result ← (getOptionalBlob row 5).bind (transposed Documents.valueFromSlice)
  let error ← getOptionalText row 6
  let createdAtMs ← getUnsigned row 7
  let startedAtMs ← getOptionalUnsigned row 8
  let finishedAtMs ← getOptionalUnsigned row 9
  let environment ← (getOptionalText row 10).bind (transposed Crates.parseUuid)
  let metrics ← (getOptionalBlob row 11).bind (transposed Documents.metricsFromSlice)
  let variableMap ← (getBlob row 12).bind Crates.mapFromSlice
  return { id, pool, node, status, payload, variableMap, result, error, createdAtMs, startedAtMs,
           finishedAtMs, environment, metrics }

def executionViewFromRow (row : List SqlValue) : Option ExecutionView := do
  let id ← (getText row 0).bind Crates.parseUuid
  let pool ← getText row 1
  let node ← (getOptionalText row 2).bind (transposed Crates.parseUuid)
  let status ← (getText row 3).bind statusOf
  let error ← getOptionalText row 4
  let createdAtMs ← getUnsigned row 5
  let startedAtMs ← getOptionalUnsigned row 6
  let finishedAtMs ← getOptionalUnsigned row 7
  let environment ← (getOptionalText row 8).bind (transposed Crates.parseUuid)
  let metrics ← (getOptionalBlob row 9).bind (transposed Documents.metricsFromSlice)
  return { id, pool, node, status, error, createdAtMs, startedAtMs, finishedAtMs, environment,
           metrics }

/-- `Database::execution`; the outer option is the error. -/
def execution (table : Table) (id : Uuid) : Option (Option Execution) :=
  transposed (fun record => executionFromRow (executionColumns.map record))
    (table.get (uuidText id))

/-- `Database::list_executions` on the rows in an order of `ORDER BY created_at_ms DESC`; `LIMIT` takes
the first ones. -/
def listExecutions (ordered : List Record) (limit : Option Nat) : Option (List ExecutionView) :=
  match limit with
  | some limit => (unsigned limit).bind (fun _ =>
      (ordered.take limit).mapM (fun record => executionViewFromRow (viewColumns.map record)))
  | none => ordered.mapM (fun record => executionViewFromRow (viewColumns.map record))

end

def created (record : Record) : Int :=
  match record .createdAtMs with
  | .integer value => value
  | _ => 0

/-- The rows in an order that `ORDER BY created_at_ms DESC` may give; it leaves open in which order equal
times come. -/
structure Ordered (table : Table) (records : List Record) : Prop where
  all : records.Perm table.values
  descending : records.Pairwise (fun a b => created b ≤ created a)

theorem uuidText_injective : Function.Injective uuidText := by
  intro a b same
  have chars := congrArg String.toList (SqlValue.text.inj same)
  rw [Uuid.hyphenated, Uuid.hyphenated, String.toList_ofList, String.toList_ofList] at chars
  exact Uuid.hyphenatedChars_injective chars

theorem unsigned_of_lt {value : Nat} (fits : value < 2 ^ 63) :
    unsigned value = some (.integer value) := if_pos fits

theorem optionalUnsigned_of_lt {value : Option Nat} (fits : ∀ v ∈ value, v < 2 ^ 63) :
    optionalUnsigned value = some (nullable (fun (v : Nat) => .integer v) value) := by
  cases value with
  | none => rfl
  | some v => exact unsigned_of_lt (fits v rfl)

section
variable [Documents]

/-- `Database::execution_secrets`: `COALESCE(secrets, X'')`. -/
def executionSecrets (table : Table) (id : Uuid) : Option (Option Bytes) :=
  transposed (fun record => getBlob [coalesce (record .secrets) (.blob [])] 0)
    (table.get (uuidText id))

/-! The rows of the storage model as records of the table. -/

def recordOf (row : Row) : Record
  | .id => uuidText row.id
  | .pool => .text row.pool
  | .node => nullable uuidText row.node
  | .status => .text (statusName row.status)
  | .payload => .blob (Crates.toVec row.payload)
  | .result => nullable (fun value => .blob (Crates.toVec value)) row.result
  | .error => nullable .text row.error
  | .createdAtMs => .integer row.createdAtMs
  | .startedAtMs => nullable (fun (value : Nat) => .integer value) row.startedAtMs
  | .finishedAtMs => nullable (fun (value : Nat) => .integer value) row.finishedAtMs
  | .environment => nullable uuidText row.environment
  | .metrics => nullable (fun metrics => .blob (Crates.metricsToVec metrics)) row.metrics
  | .variableMap => .blob (Crates.mapToVec row.variableMap)
  | .secrets => nullable .blob row.secrets
  | .sizeBytes => .integer row.sizeBytes

def tableOf (rows : Keyed Row.id) : Table :=
  ⟨rows.values.map recordOf, by
    have keys : (rows.values.map recordOf).map (fun record => record .id) =
        (rows.values.map Row.id).map uuidText := by simp [recordOf]
    rw [keys]
    exact rows.nodup.map uuidText_injective⟩

theorem get_tableOf (rows : Keyed Row.id) (id : Uuid) :
    (tableOf rows).get (uuidText id) = (rows.get id).map recordOf := by
  have same : (fun record : Record => decide (record .id = uuidText id)) ∘ recordOf =
      fun row => decide (row.id = id) := by
    funext row
    exact decide_eq_decide.mpr uuidText_injective.eq_iff
  simp only [Keyed.get, tableOf, List.find?_map, same]

theorem insert_tableOf (rows : Keyed Row.id) (row : Row) :
    (tableOf rows).insert (recordOf row) = tableOf (rows.insert row) := by
  have same : (fun record : Record => decide (record .id ≠ uuidText row.id)) ∘ recordOf =
      fun other => decide (other.id ≠ row.id) := by
    funext other
    exact decide_eq_decide.mpr uuidText_injective.ne_iff
  have values : ((tableOf rows).insert (recordOf row)).values =
      (tableOf (rows.insert row)).values := by
    simp only [Keyed.insert, tableOf, List.map_cons, List.filter_map]
    exact congrArg (recordOf row :: ·) (congrArg (fun p =>
      (rows.values.filter p).map recordOf) same)
  cases h : (tableOf rows).insert (recordOf row)
  cases h' : tableOf (rows.insert row)
  rw [h, h'] at values
  congr

/-- The times and the size of the execution fit into signed numbers of 64 bits. -/
structure Fits (execution : Execution) : Prop where
  created : execution.createdAtMs < 2 ^ 63
  started : ∀ started ∈ execution.startedAtMs, started < 2 ^ 63
  finished : ∀ finished ∈ execution.finishedAtMs, finished < 2 ^ 63
  size : executionSize execution < 2 ^ 63

/-- Parameter by parameter, an insertion makes the row of the execution. -/
theorem inserted_parameters {execution : Execution} (fits : Fits execution) :
    (parameters execution).map (inserted insertColumns) = some
      (recordOf (rowOf execution execution.createdAtMs none (executionSize execution))) := by
  rw [parameters, unsigned_of_lt fits.created, optionalUnsigned_of_lt fits.started,
    optionalUnsigned_of_lt fits.finished, unsigned_of_lt fits.size]
  refine congrArg some (funext fun column => ?_)
  cases column <;> rfl

/-- Column by column, an update makes the row that keeps the time of creation and the secrets. -/
theorem updated_conflict (row : Row) (execution : Execution) (same : execution.id = row.id) :
    updated (recordOf row) (conflictUpdates (recordOf row)
      (recordOf (rowOf execution execution.createdAtMs none (executionSize execution)))) =
        recordOf (rowOf execution row.createdAtMs row.secrets
          (executionSize execution + secretsLength row)) := by
  funext column
  cases column with
  | id => exact congrArg uuidText same.symm
  | sizeBytes =>
    cases stored : row.secrets with
    | none => simp [updated, conflictUpdates, recordOf, rowOf, nullable, length, coalesce, plus,
        stored, secretsLength]
    | some secrets => simp [updated, conflictUpdates, recordOf, rowOf, nullable, length, coalesce,
        plus, stored, secretsLength]
  | _ => rfl

/-- The statement does to the table what the storage model does to the rows. -/
theorem upsertExecution_tableOf {execution : Execution} (fits : Fits execution)
    (rows : Keyed Row.id) :
    upsertExecution (tableOf rows) execution =
      some (tableOf (Scraperack.upsertExecution rows execution)) := by
  obtain ⟨values, made, record⟩ := Option.map_eq_some_iff.mp (inserted_parameters fits)
  have key : inserted insertColumns values .id = uuidText execution.id := by
    rw [record]
    rfl
  rw [upsertExecution, made, Option.map_some]
  dsimp only
  rw [key, get_tableOf, Scraperack.upsertExecution]
  cases found : rows.get execution.id with
  | none =>
    rw [Option.map_none]
    dsimp only
    rw [record, insert_tableOf]
  | some row =>
    have own := Keyed.key_of_get found
    rw [Option.map_some]
    dsimp only
    rw [record, updated_conflict row execution own.symm, insert_tableOf]

theorem upsertExecutions_tableOf {executions : List Execution}
    (fits : ∀ execution ∈ executions, Fits execution) (rows : Keyed Row.id) :
    upsertExecutions (tableOf rows) executions =
      some (tableOf (executions.foldl Scraperack.upsertExecution rows)) := by
  induction executions generalizing rows with
  | nil => rfl
  | cons execution rest ih =>
    rw [upsertExecutions, List.foldlM_cons, upsertExecution_tableOf
      (fits execution List.mem_cons_self), Option.bind_eq_bind, Option.bind_some]
    exact ih (fun other member => fits other (List.mem_cons_of_mem execution member)) _

/-- The documents of the execution come back from their bytes. -/
structure Legible (execution : Execution) : Prop where
  payload : Documents.valueFromSlice (Crates.toVec execution.payload) = some execution.payload
  result : ∀ result ∈ execution.result,
    Documents.valueFromSlice (Crates.toVec result) = some result
  metrics : ∀ metrics ∈ execution.metrics,
    Documents.metricsFromSlice (Crates.metricsToVec metrics) = some metrics
  variableMap : Crates.mapFromSlice (Crates.mapToVec execution.variableMap) =
    some execution.variableMap

section Reading
variable {row : List SqlValue} {index : Nat}

omit [Documents] in
theorem getOptionalText_eq {value : Option String}
    (stored : row[index]? = some (nullable .text value)) :
    getOptionalText row index = some value := by
  rw [getOptionalText, stored]
  cases value <;> rfl

omit [Documents] in
theorem getUnsigned_eq {value : Nat} (stored : row[index]? = some (.integer value)) :
    getUnsigned row index = some value := by
  rw [getUnsigned, stored]
  simp

omit [Documents] in
theorem getOptionalUnsigned_eq {value : Option Nat}
    (stored : row[index]? = some (nullable (fun (v : Nat) => .integer v) value)) :
    getOptionalUnsigned row index = some value := by
  rw [getOptionalUnsigned, stored]
  cases value with
  | none => rfl
  | some v => simp [nullable]

theorem getOptionalUuid_eq (parses : ∀ id : Uuid, Crates.parseUuid id.hyphenated = some id)
    {value : Option Uuid} (stored : row[index]? = some (nullable uuidText value)) :
    (getOptionalText row index).bind (transposed Crates.parseUuid) = some value := by
  rw [getOptionalText, stored]
  cases value with
  | none => rfl
  | some id => exact congrArg (Option.map some) (parses id)

omit [Documents] in
theorem getOptionalDocument_eq {α : Type} {toVec : α → Bytes} {fromSlice : Bytes → Option α}
    {value : Option α} (legible : ∀ v ∈ value, fromSlice (toVec v) = some v)
    (stored : row[index]? = some (nullable (fun v => .blob (toVec v)) value)) :
    (getOptionalBlob row index).bind (transposed fromSlice) = some value := by
  rw [getOptionalBlob, stored]
  cases value with
  | none => rfl
  | some v => exact congrArg (Option.map some) (legible v rfl)

end Reading

omit [Documents] in
theorem statusOf_statusName (status : ExecutionStatus) : statusOf
    (statusName status) = some status := by
  cases status <;> rfl

section Queries
variable (parses : ∀ id : Uuid, Crates.parseUuid id.hyphenated = some id)
include parses

/-- Index by index, the query for one execution reads back what the row holds. -/
theorem executionFromRow_recordOf {row : Row}
    (legible : Legible (Scraperack.executionFromRow row)) :
    executionFromRow (executionColumns.map (recordOf row)) =
      some (Scraperack.executionFromRow row) := by
  let values := executionColumns.map (recordOf row)
  have id : (getText values 0).bind Crates.parseUuid = some row.id := parses row.id
  have pool : getText values 1 = some row.pool := rfl
  have node : (getOptionalText values 2).bind (transposed Crates.parseUuid) = some row.node :=
    getOptionalUuid_eq parses rfl
  have status : (getText values 3).bind statusOf = some row.status :=
    statusOf_statusName row.status
  have payload : (getBlob values 4).bind Documents.valueFromSlice = some row.payload :=
    legible.payload
  have result : (getOptionalBlob values 5).bind (transposed Documents.valueFromSlice) =
      some row.result := getOptionalDocument_eq legible.result rfl
  have error : getOptionalText values 6 = some row.error := getOptionalText_eq rfl
  have createdAtMs : getUnsigned values 7 = some row.createdAtMs := getUnsigned_eq rfl
  have startedAtMs : getOptionalUnsigned values 8 = some row.startedAtMs :=
    getOptionalUnsigned_eq rfl
  have finishedAtMs : getOptionalUnsigned values 9 = some row.finishedAtMs :=
    getOptionalUnsigned_eq rfl
  have environment : (getOptionalText values 10).bind (transposed Crates.parseUuid) =
      some row.environment := getOptionalUuid_eq parses rfl
  have metrics : (getOptionalBlob values 11).bind (transposed Documents.metricsFromSlice) =
      some row.metrics := getOptionalDocument_eq legible.metrics rfl
  have variableMap : (getBlob values 12).bind Crates.mapFromSlice = some row.variableMap :=
    legible.variableMap
  change executionFromRow values = _
  simp only [executionFromRow, id, pool, node, status, payload, result, error, createdAtMs,
    startedAtMs, finishedAtMs, environment, metrics, variableMap, Option.bind_eq_bind,
    Option.bind_some]
  rfl

/-- The query for the list selects other columns, and reads the same. -/
theorem executionViewFromRow_recordOf {row : Row}
    (legible : Legible (Scraperack.executionFromRow row)) :
    executionViewFromRow (viewColumns.map (recordOf row)) =
      some (ExecutionView.ofExecution (Scraperack.executionFromRow row)) := by
  let values := viewColumns.map (recordOf row)
  have id : (getText values 0).bind Crates.parseUuid = some row.id := parses row.id
  have pool : getText values 1 = some row.pool := rfl
  have node : (getOptionalText values 2).bind (transposed Crates.parseUuid) = some row.node :=
    getOptionalUuid_eq parses rfl
  have status : (getText values 3).bind statusOf = some row.status :=
    statusOf_statusName row.status
  have error : getOptionalText values 4 = some row.error := getOptionalText_eq rfl
  have createdAtMs : getUnsigned values 5 = some row.createdAtMs := getUnsigned_eq rfl
  have startedAtMs : getOptionalUnsigned values 6 = some row.startedAtMs :=
    getOptionalUnsigned_eq rfl
  have finishedAtMs : getOptionalUnsigned values 7 = some row.finishedAtMs :=
    getOptionalUnsigned_eq rfl
  have environment : (getOptionalText values 8).bind (transposed Crates.parseUuid) =
      some row.environment := getOptionalUuid_eq parses rfl
  have metrics : (getOptionalBlob values 9).bind (transposed Documents.metricsFromSlice) =
      some row.metrics := getOptionalDocument_eq legible.metrics rfl
  change executionViewFromRow values = _
  simp only [executionViewFromRow, id, pool, node, status, error, createdAtMs, startedAtMs,
    finishedAtMs, environment, metrics, Option.bind_eq_bind, Option.bind_some]
  rfl

/-- Every row of the storage model can be read back. -/
theorem execution_tableOf {rows : Keyed Row.id} {id : Uuid}
    (legible : ∀ row, rows.get id = some row → Legible (Scraperack.executionFromRow row)) :
    execution (tableOf rows) id = some ((rows.get id).map Scraperack.executionFromRow) := by
  rw [execution, get_tableOf]
  cases found : rows.get id with
  | none => rfl
  | some row =>
    exact congrArg (Option.map some) (executionFromRow_recordOf parses (legible row found))

end Queries

/-- What is stored for the identifier after the upserts: the last of them, as of the time of the first, which
may be that of a row that was there before. -/
def lastUpserted (rows : Keyed Row.id) (executions : List Execution)
    (id : Uuid) : Option Execution :=
  let own := executions.filter (fun execution => execution.id = id)
  let before := (rows.get id).map Scraperack.executionFromRow
  match own.getLast? with
  | none => before
  | some last =>
    some { last with createdAtMs :=
      ((before.or own.head?).map Execution.createdAtMs).getD last.createdAtMs }

theorem upsertExecution_stores (rows : Keyed Row.id) (execution : Execution) (id : Uuid) :
    (Scraperack.upsertExecution rows execution).get id =
      if id = execution.id then
        some (rowOf execution (((rows.get id).map Row.createdAtMs).getD execution.createdAtMs)
          ((rows.get id).bind Row.secrets)
          (executionSize execution + ((rows.get id).map secretsLength).getD 0))
      else rows.get id := by
  by_cases same : id = execution.id
  · subst same
    rw [if_pos rfl, Scraperack.upsertExecution]
    cases rows.get execution.id with
    | none =>
      dsimp only [Option.map_none, Option.getD_none, Option.bind_none]
      rw [Int.add_zero]
      exact Keyed.get_insert_self _ _
    | some row => exact Keyed.get_insert_self _ _
  · rw [if_neg same, Scraperack.upsertExecution]
    cases rows.get execution.id with
    | none => exact Keyed.get_insert_ne _ same
    | some row => exact Keyed.get_insert_ne _ same

omit [Documents] in
theorem created_lastUpserted (rows : Keyed Row.id) (executions : List Execution) (id : Uuid) :
    (lastUpserted rows executions id).map Execution.createdAtMs =
      (((rows.get id).map Scraperack.executionFromRow).or
        (executions.filter (fun execution => execution.id = id)).head?).map
          Execution.createdAtMs := by
  unfold lastUpserted
  dsimp only
  cases own : executions.filter (fun execution => execution.id = id) with
  | nil => simp
  | cons first rest =>
    obtain ⟨last, ends⟩ : ∃ last, (first :: rest).getLast? = some last :=
      ⟨_, List.getLast?_eq_some_getLast (List.cons_ne_nil first rest)⟩
    rw [ends]
    cases (rows.get id).map Scraperack.executionFromRow <;> rfl

omit [Documents] in
theorem executionFromRow_rowOf (execution : Execution) {time time' : Nat} (same : time = time')
    (secrets : Option Bytes) (size : Int) :
    Scraperack.executionFromRow (rowOf execution time secrets size) =
      { execution with createdAtMs := time' } := by
  rw [same]
  rfl

/-- After the upserts every identifier has what was stored for it last, and its secrets. -/
theorem upserts_store (executions : List Execution) (rows : Keyed Row.id) (id : Uuid) :
    ((executions.foldl Scraperack.upsertExecution rows).get id).map Scraperack.executionFromRow =
        lastUpserted rows executions id ∧
      ((executions.foldl Scraperack.upsertExecution rows).get id).bind Row.secrets =
        (rows.get id).bind Row.secrets := by
  induction executions using List.reverseRecOn with
  | nil => exact ⟨rfl, rfl⟩
  | append_singleton executions last ih =>
    rw [List.foldl_append, List.foldl_cons, List.foldl_nil, upsertExecution_stores]
    by_cases same : id = last.id
    · subst same
      rw [if_pos rfl]
      have times : ((executions.foldl Scraperack.upsertExecution rows).get last.id).map
          Row.createdAtMs = (lastUpserted rows executions last.id).map Execution.createdAtMs := by
        rw [← ih.1, Option.map_map]
        rfl
      have own : (executions ++ [last]).filter (fun execution => execution.id = last.id) =
          executions.filter (fun execution => execution.id = last.id) ++ [last] := by simp
      refine ⟨?_, ih.2⟩
      rw [times, created_lastUpserted, lastUpserted, own, List.getLast?_concat]
      dsimp only
      refine congrArg some (executionFromRow_rowOf last ?_ _ _)
      cases (rows.get last.id).map Scraperack.executionFromRow with
      | some before => rfl
      | none =>
        cases executions.filter (fun execution => execution.id = last.id) <;> rfl
    · have others : (executions ++ [last]).filter (fun execution => execution.id = id) =
          executions.filter (fun execution => execution.id = id) := by
        simp [Ne.symm same]
      rw [if_neg same, lastUpserted, others]
      exact ih

theorem Legible.ofTime {execution : Execution} (legible : Legible execution) (time : Nat) :
    Legible { execution with createdAtMs := time } :=
  ⟨legible.payload, legible.result, legible.metrics, legible.variableMap⟩

/-- What was legible when it was upserted is legible when it is stored. -/
theorem legible_lastUpserted {rows : Keyed Row.id} {executions : List Execution}
    (stored : ∀ row ∈ rows.values, Legible (Scraperack.executionFromRow row))
    (legible : ∀ execution ∈ executions, Legible execution) {id : Uuid} {found : Execution}
    (last : lastUpserted rows executions id = some found) : Legible found := by
  unfold lastUpserted at last
  dsimp only at last
  cases own : (executions.filter (fun execution => execution.id = id)).getLast? with
  | none =>
    rw [own] at last
    obtain ⟨row, there, rfl⟩ := Option.map_eq_some_iff.mp last
    exact stored row (Keyed.mem_of_get there)
  | some execution =>
    rw [own] at last
    obtain rfl := Option.some.inj last
    exact (legible execution (List.mem_of_mem_filter (List.mem_of_getLast? own))).ofTime _

theorem executionSecrets_tableOf (rows : Keyed Row.id) (id : Uuid) :
    executionSecrets (tableOf rows) id =
      some ((rows.get id).map (fun row => row.secrets.getD [])) := by
  rw [executionSecrets, get_tableOf]
  cases rows.get id with
  | none => rfl
  | some row =>
    cases stored : row.secrets with
    | none => simp [transposed, recordOf, stored, nullable, coalesce, getBlob]
    | some secrets => simp [transposed, recordOf, stored, nullable, coalesce, getBlob]

/-- What the list shows of the executions that it finds. -/
structure Lists (table : Table) (ordered : List Record) (found : List Execution) : Prop where
  once : (found.map Execution.id).Nodup
  every : ∀ e, e ∈ found ↔ execution table e.id = some (some e)
  newest : found.Pairwise (fun a b => b.createdAtMs ≤ a.createdAtMs)
  whole : listExecutions ordered none = some (found.map ExecutionView.ofExecution)
  limited : ∀ limit < 2 ^ 63, listExecutions ordered (some limit) =
    some ((found.take limit).map ExecutionView.ofExecution)

theorem lists_tableOf (parses : ∀ id : Uuid, Crates.parseUuid id.hyphenated = some id)
    {rows : Keyed Row.id} (legible : ∀ row ∈ rows.values, Legible (Scraperack.executionFromRow row))
    {ordered : List Record} (order : Ordered (tableOf rows) ordered) :
    ∃ found, Lists (tableOf rows) ordered found := by
  obtain ⟨sorted, perm, rfl⟩ := Keyed.exists_of_perm_map order.all
  have views (part : List Row) (sub : ∀ row ∈ part, row ∈ rows.values) :
      (part.map recordOf).mapM (fun record => executionViewFromRow (viewColumns.map record)) =
        some ((part.map Scraperack.executionFromRow).map ExecutionView.ofExecution) := by
    induction part with
    | nil => rfl
    | cons row rest ih =>
      have first := executionViewFromRow_recordOf parses (legible row (sub row List.mem_cons_self))
      have later := ih (fun other member => sub other (List.mem_cons_of_mem row member))
      rw [List.map_cons, List.mapM_cons, first, later]
      rfl
  refine ⟨sorted.map Scraperack.executionFromRow, ?_, ?_, ?_, ?_, ?_⟩
  · rw [List.map_map]
    exact ((perm.map Row.id).nodup_iff).mpr rows.nodup
  · intro e
    rw [execution_tableOf parses (fun row found => legible row (Keyed.mem_of_get found)),
      Option.some.injEq, Option.map_eq_some_iff, List.mem_map]
    constructor
    · rintro ⟨row, member, rfl⟩
      exact ⟨row, (Keyed.mem_values_iff _ _).mp (perm.mem_iff.mp member), rfl⟩
    · rintro ⟨row, found, same⟩
      exact ⟨row, perm.mem_iff.mpr (Keyed.mem_of_get found), same⟩
  · have sorts := List.pairwise_map.mp order.descending
    exact List.pairwise_map.mpr (sorts.imp (fun later => Int.ofNat_le.mp later))
  · exact views sorted (fun row member => perm.mem_iff.mp member)
  · intro limit fits
    rw [listExecutions, unsigned_of_lt fits, Option.bind_some, ← List.map_take, ← List.map_take]
    exact views _ (fun row member => perm.mem_iff.mp (List.mem_of_mem_take member))

/-- The table after some upserts, told from the rows that were there before. -/
structure RoundTrips (rows : Keyed Row.id) (executions : List Execution)
    (table : Table) : Prop where
  reads : ∀ id, execution table id = some (lastUpserted rows executions id)
  others : ∀ id, (∀ e ∈ executions, e.id ≠ id) →
    table.get (uuidText id) = (tableOf rows).get (uuidText id)
  secrets : ∀ id, rows.contains id = true →
    executionSecrets table id = executionSecrets (tableOf rows) id
  lists : ∀ ordered, Ordered table ordered → ∃ found, Lists table ordered found

/-- The identifiers come back from their texts; the documents and the numbers are such as can be stored. -/
theorem executions_round_trip (parses : ∀ id : Uuid, Crates.parseUuid id.hyphenated = some id)
    (rows : Keyed Row.id) (executions : List Execution)
    (stored : ∀ row ∈ rows.values, Legible (Scraperack.executionFromRow row))
    (legible : ∀ execution ∈ executions, Legible execution)
    (fits : ∀ execution ∈ executions, Fits execution) :
    ∃ table, upsertExecutions (tableOf rows) executions = some table ∧
      RoundTrips rows executions table := by
  let after := executions.foldl Scraperack.upsertExecution rows
  have written (id : Uuid) := upserts_store executions rows id
  have readable (row : Row) (member : row ∈ after.values) :
      Legible (Scraperack.executionFromRow row) := by
    have there := (Keyed.mem_values_iff _ _).mp member
    have last := (written row.id).1
    rw [there] at last
    exact legible_lastUpserted stored legible last.symm
  refine ⟨tableOf after, upsertExecutions_tableOf fits rows, ?_, ?_, ?_, ?_⟩
  · intro id
    rw [execution_tableOf parses (fun row found => readable row (Keyed.mem_of_get found))]
    exact congrArg some (written id).1
  · intro id untouched
    have same : after.get id = rows.get id := by
      rcases upsertExecutions_get executions rows id with ⟨-, same⟩ | ⟨last, -, ends, -, -⟩
      · exact same
      · have own := List.mem_filter.mp (List.mem_of_getLast? ends)
        exact absurd (by simpa using own.2) (untouched last own.1)
    rw [get_tableOf, get_tableOf, same]
  · intro id known
    obtain ⟨old, found⟩ := (Keyed.contains_iff rows id).mp known
    have kept : ∃ row, after.get id = some row := by
      have last := (written id).1
      rw [lastUpserted, found] at last
      cases there : after.get id with
      | some row => exact ⟨row, rfl⟩
      | none =>
        rw [there] at last
        cases own : (executions.filter (fun execution => execution.id = id)).getLast? with
        | none => simp [own] at last
        | some execution => simp [own] at last
    obtain ⟨row, there⟩ := kept
    have same := (written id).2
    rw [there, found] at same
    have secrets : row.secrets = old.secrets := same
    rw [executionSecrets_tableOf, executionSecrets_tableOf, there, found, Option.map_some,
      Option.map_some, secrets]
  · exact fun ordered order => lists_tableOf parses readable order

end

/-- The crates on the documents `null` and `{}`. -/
noncomputable abbrev documents : Documents :=
  { Demo.crates with
    parseUuid := Function.partialInv Uuid.hyphenated
    toVec := fun value =>
      match value with
      | .null => [0x6E, 0x75, 0x6C, 0x6C]
      | _ => []
    mapToVec := fun _ => [0x7B, 0x7D]
    mapFromSlice := fun bytes => if bytes = [0x7B, 0x7D] then some ∅ else none
    valueFromSlice := fun bytes =>
      if bytes = [0x6E, 0x75, 0x6C, 0x6C] then some .null else none
    metricsFromSlice := fun _ => none }

def queuedExecution : Execution :=
  ⟨8, "p", none, .queued, .null, ∅, none, none, 5, none, none, none, none⟩

def runningExecution : Execution :=
  { queuedExecution with
    node := some Demo.node
    status := .running
    createdAtMs := 7
    startedAtMs := some 6 }

/-- A row with secrets, and two more upserts of its execution. -/
theorem executions_round_trip_running :
    ∃ table, @upsertExecutions documents
        (@tableOf documents ⟨[rowOf queuedExecution 5 (some [1, 2]) 8], by decide⟩)
        [queuedExecution, runningExecution] = some table ∧
      @RoundTrips documents ⟨[rowOf queuedExecution 5 (some [1, 2]) 8], by decide⟩
        [queuedExecution, runningExecution] table := by
  let _ := documents
  have injective : Function.Injective Uuid.hyphenated := fun a b same =>
    uuidText_injective (congrArg SqlValue.text same)
  have legible {execution : Execution} (payload : execution.payload = .null)
      (rest : execution.result = none ∧ execution.metrics = none ∧ execution.variableMap = ∅) :
      Legible execution := by
    obtain ⟨result, metrics, variableMap⟩ := rest
    refine ⟨?_, ?_, ?_, ?_⟩
    · rw [payload]
      rfl
    · rw [result]
      exact nofun
    · rw [metrics]
      exact nofun
    · rw [variableMap]
      rfl
  refine executions_round_trip (fun id => Function.partialInv_left injective id) _ _ ?_ ?_ ?_
  · intro row member
    obtain rfl := List.mem_singleton.mp member
    exact legible rfl ⟨rfl, rfl, rfl⟩
  · intro execution member
    simp only [List.mem_cons, List.not_mem_nil, or_false] at member
    rcases member with rfl | rfl
    · exact legible rfl ⟨rfl, rfl, rfl⟩
    · exact legible rfl ⟨rfl, rfl, rfl⟩
  · intro execution member
    simp only [List.mem_cons, List.not_mem_nil, or_false] at member
    rcases member with rfl | rfl
    · exact ⟨by decide, nofun, nofun, by decide⟩
    · exact ⟨by decide, fun _ same => Option.some.inj same ▸ by decide, nofun, by decide⟩

end Sql
end Scraperack
