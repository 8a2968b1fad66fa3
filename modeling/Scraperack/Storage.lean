import Scraperack.Schedule

/-! The controller's database: one row for each execution, the stored cluster and the
storage settings. Every function here is one transaction. -/

namespace Scraperack

/-- What the model takes from third-party crates: `Uuid::parse_str`, the bytes `serde_json::to_vec`
writes for the stored documents and reads back for a map, the hexadecimal SHA-256 digest, and
AES-256-GCM with a key, a nonce and associated data. -/
class Crates where
  parseUuid : String → Option Uuid
  toVec : Value → Bytes
  mapToVec : Keyed.Table String String → Bytes
  mapFromSlice : Bytes → Option (Keyed.Table String String)
  metricsToVec : ExecutionMetrics → Bytes
  sha256 : Bytes → String
  sealInPlace : Bytes → Bytes → Bytes → Bytes → Bytes
  openInPlace : Bytes → Bytes → Bytes → Bytes → Option Bytes

variable [Crates]

/-- The 16 bytes of an identifier, most significant first. -/
def Uuid.asBytes (id : Uuid) : Bytes :=
  (List.range 16).map (fun i => UInt8.ofNat (id.toNat / 256 ^ (15 - i)))

/-- `SecretCipher::encrypt`, with the nonce that the random generator produced. -/
def encryptSecrets (key nonce : Bytes) (execution : Uuid)
    (secrets : Keyed.Table String String) : Bytes :=
  if secrets.values.isEmpty then []
  else nonce ++ Crates.sealInPlace key nonce execution.asBytes (Crates.mapToVec secrets)

/-- `SecretCipher::decrypt`. -/
def decryptSecrets (key : Bytes) (execution : Uuid) (encrypted : Bytes) : Option
    (Keyed.Table String String) :=
  if encrypted.isEmpty then some ∅
  else if encrypted.length < 12 then none
  else (Crates.openInPlace key (encrypted.take 12) execution.asBytes (encrypted.drop 12)).bind
    Crates.mapFromSlice

/-- A row of the table `executions`. A column that holds a JSON document keeps the document. -/
structure Row where
  id : Uuid
  pool : String
  node : Option Uuid
  status : ExecutionStatus
  payload : Value
  result : Option Value
  error : Option String
  createdAtMs : Nat
  startedAtMs : Option Nat
  finishedAtMs : Option Nat
  environment : Option Uuid
  metrics : Option ExecutionMetrics
  variableMap : Keyed.Table String String
  secrets : Option Bytes
  sizeBytes : Int

structure Database where
  cluster : Option Cluster
  rows : Keyed Row.id
  retentionMs : Nat
  maxStorageBytes : Nat

def executionFromRow (row : Row) : Execution :=
  { id := row.id, pool := row.pool, node := row.node, status := row.status, payload := row.payload
    variableMap := row.variableMap, result := row.result, error := row.error
    createdAtMs := row.createdAtMs, startedAtMs := row.startedAtMs, finishedAtMs := row.finishedAtMs
    environment := row.environment, metrics := row.metrics }

def executionSize (execution : Execution) : Nat :=
  (Crates.toVec execution.payload).length + (Crates.mapToVec execution.variableMap).length +
    (execution.result.map (fun value => (Crates.toVec value).length)).getD 0 +
    (execution.metrics.map (fun metrics => (Crates.metricsToVec metrics).length)).getD 0 +
    (execution.error.map String.utf8ByteSize).getD 0

def secretsLength (row : Row) : Int := ((row.secrets.map List.length).getD 0 : Nat)

/-- The row an upsert writes for an execution, given what it keeps of the row it meets. -/
def rowOf (execution : Execution) (createdAtMs : Nat) (secrets : Option Bytes)
    (sizeBytes : Int) : Row :=
  { id := execution.id, pool := execution.pool, node := execution.node, status := execution.status
    payload := execution.payload, result := execution.result, error := execution.error
    createdAtMs := createdAtMs, startedAtMs := execution.startedAtMs, finishedAtMs :=
      execution.finishedAtMs
    environment := execution.environment, metrics := execution.metrics, variableMap :=
      execution.variableMap
    secrets := secrets, sizeBytes := sizeBytes }

def upsertExecution (rows : Keyed Row.id) (execution : Execution) : Keyed Row.id :=
  match rows.get execution.id with
  | none => rows.insert (rowOf execution execution.createdAtMs none (executionSize execution))
  | some old =>
    rows.insert (rowOf execution old.createdAtMs old.secrets (executionSize execution +
      secretsLength old))

/-- `storage_used`. Reading a negative sum as an unsigned number is an error. -/
def storageUsed (rows : Keyed Row.id) : Option Nat :=
  let sum := (rows.values.map Row.sizeBytes).sum
  if 0 ≤ sum then some sum.toNat else none

/-- The sort key of a nullable timestamp: an absent one sorts first. -/
def finishedRank (row : Row) : Nat := (row.finishedAtMs.map (· + 1)).getD 0

def EvictionLe (a b : Row) : Prop :=
  finishedRank a < finishedRank b ∨ finishedRank a = finishedRank b ∧ a.createdAtMs ≤ b.createdAtMs

instance : DecidableRel EvictionLe := fun _ _ => inferInstanceAs (Decidable (_ ∨ _))

/-- The loop of `prune` that deletes candidates until the rest fits. -/
def evict (limit : Nat) (rows : Keyed Row.id) (used : Nat) : List Row → Keyed Row.id
  | [] => rows
  | candidate :: rest =>
    let used := used - candidate.sizeBytes.toNat
    if used ≤ limit then rows.erase candidate.id else evict limit
      (rows.erase candidate.id) used rest

def prune (db : Database) (nowMs : Nat) (protectedId : Option Uuid) : Option Database :=
  let kept := db.rows.filter (fun row =>
    !(row.status.terminal && row.finishedAtMs.any (fun finished =>
      decide (finished ≤ nowMs - db.retentionMs))))
  (storageUsed kept).bind (fun used =>
    if used ≤ db.maxStorageBytes then some { db with rows := kept }
    else
      let found := (kept.values.filter (fun row =>
        row.status.terminal && decide (some row.id ≠ protectedId))).insertionSort EvictionLe
      if found.any (fun row => decide (row.sizeBytes < 0)) then none
      else some { db with rows := evict db.maxStorageBytes kept used found })

namespace Database

def saveCluster (db : Database) (cluster : Cluster) : Database :=
  { db with cluster := some { cluster with executions := ∅ } }

def saveExecution (db : Database) (execution : Execution) : Database :=
  { db with rows := upsertExecution db.rows execution }

def saveExecutions (db : Database) (executions : List Execution) : Database :=
  { db with rows := executions.foldl upsertExecution db.rows }

def deleteExecution (db : Database) (id : Uuid) : Database := { db with rows := db.rows.erase id }

/-- `insert_execution`, with the flag that tells whether the execution was accepted. -/
def insertExecution (db : Database) (execution : Execution) (secrets : Bytes) : Option
    (Database × Bool) :=
  let rows := upsertExecution db.rows execution
  let rows :=
    if secrets.isEmpty then rows
    else rows.adjust execution.id (fun row =>
      { row with secrets := some secrets, sizeBytes :=
        row.sizeBytes + secrets.length }) (fun _ => rfl)
  (prune { db with rows := rows } execution.createdAtMs (some execution.id)).bind (fun db =>
    (storageUsed db.rows).map (fun used =>
      if db.maxStorageBytes < used then (db.deleteExecution execution.id, false) else (db, true)))

def storageFull (execution : Execution) : Execution :=
  { execution with
    status := .failed
    result := none
    error := some "controller execution storage is full" }

def completeExecution (db : Database) (execution : Execution) : Option Database :=
  let rows := (upsertExecution db.rows execution).adjust execution.id (fun row =>
    { row with sizeBytes := row.sizeBytes - secretsLength row, secrets := none }) (fun _ => rfl)
  (prune { db with rows := rows } (execution.finishedAtMs.getD execution.createdAtMs)
    (some execution.id)).bind
    (fun db => (storageUsed db.rows).map (fun used =>
      if db.maxStorageBytes <
        used then { db with rows := upsertExecution db.rows (storageFull execution) }
      else db))

/-- `COALESCE(secrets, X'')` of the row, if there is one. -/
def executionSecrets (db : Database) (id : Uuid) : Option Bytes :=
  (db.rows.get id).map (fun row => row.secrets.getD [])

def requeueRow (row : Row) : Row :=
  if row.status.active then { row with status := .queued, node := none, startedAtMs :=
    none } else row

/-- The rows that `load_active_executions` leaves in the table. -/
def requeueRows (db : Database) : Database :=
  { db with
    rows := db.rows.map requeueRow (fun row => by
      unfold requeueRow
      split_ifs <;> rfl) }

/-- `load_active_executions`: the table after its update, and the executions it returns. -/
def loadActiveExecutions (db : Database) : Database × List Execution :=
  (db.requeueRows, ((db.requeueRows.rows.values.filter (fun row => row.status = .queued)).map
    executionFromRow))

end Database
end Scraperack
