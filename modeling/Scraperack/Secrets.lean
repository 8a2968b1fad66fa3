import Scraperack.Copies
import Scraperack.Reload

/-! The secrets of executions. They are stored encrypted beside the row of their execution, given out with its
work and gone with its completion, whichever of several processes on the database does what, as long as no
handler writes or reads back an execution that is already over. -/

namespace Scraperack

/-- The secrets that each execution was created with. -/
abbrev History := Keyed.Table Uuid (Keyed.Table String String)

/-- Every row has the property. -/
def RowsAre (p : Row → Prop) (rows : Keyed Row.id) : Prop :=
  ∀ id row, rows.get id = some row → p row

namespace RowsAre
variable {p : Row → Prop} {rows : Keyed Row.id}

theorem insert (within : RowsAre p rows) {row : Row} (new : p row) : RowsAre p
    (rows.insert row) := by
  intro id other found
  rw [Keyed.get_insert] at found
  split_ifs at found
  · exact Option.some.inj found ▸ new
  · exact within id other found

theorem erase (within : RowsAre p rows) (id : Uuid) : RowsAre p (rows.erase id) := by
  intro k row found
  rw [Keyed.get_erase] at found
  split_ifs at found
  exact within k row found

theorem filter (within : RowsAre p rows) (keep : Row → Bool) : RowsAre p (rows.filter keep) := by
  intro id row found
  rw [Keyed.get_filter] at found
  exact within id row (Option.filter_eq_some_iff.mp found).1

theorem requeueRows {db : Database} (within : RowsAre p db.rows)
    (holds : ∀ row, p row → p (Database.requeueRow row)) :
    RowsAre p db.requeueRows.rows := by
  intro id row found
  simp only [Database.requeueRows, Keyed.get_map] at found
  obtain ⟨old, was, rfl⟩ := Option.map_eq_some_iff.mp found
  exact holds old (within id old was)

theorem evict (within : RowsAre p rows) (limit used : Nat) (candidates : List Row) :
    RowsAre p (evict limit rows used candidates) := by
  induction candidates generalizing rows used with
  | nil => exact within
  | cons candidate rest ih =>
    unfold Scraperack.evict
    dsimp only
    split_ifs
    · exact within.erase candidate.id
    · exact ih (within.erase candidate.id) _

theorem prune {db next : Database} (within : RowsAre p db.rows) {now : Nat}
    {protectedId : Option Uuid}
    (done : prune db now protectedId = some next) : RowsAre p next.rows := by
  unfold Scraperack.prune at done
  dsimp only at done
  obtain ⟨used, -, done⟩ := Option.bind_eq_some_iff.mp done
  split_ifs at done <;> obtain rfl := Option.some.inj done
  · exact within.filter _
  · exact (within.filter _).evict _ _ _

end RowsAre

section
variable [Crates]

/-- What the row keeps of the secrets of its execution: nothing when it is over, and otherwise what was
sealed for it. -/
structure Row.Sealed (created : History) (key : Bytes) (row : Row) : Prop where
  known : created.contains row.id = true
  ended : row.status.terminal = true → row.secrets = none
  own : ∀ encrypted, row.secrets = some encrypted → ∃ nonce secrets, nonce.length = 12 ∧
    created.get row.id = some (row.id, secrets) ∧ secrets.values ≠ [] ∧
      encrypted = encryptSecrets key nonce row.id secrets
  kept : row.status.terminal = false → ∀ secrets, created.get row.id = some (row.id, secrets) →
    secrets.values ≠ [] →
    row.secrets.isSome = true

/-- The execution was created without secrets, or its row is there and not over. -/
def Untouched (created : History) (rows : Keyed Row.id) (id : Uuid) : Prop :=
  (created.get id).any (fun entry => entry.2.values.isEmpty) = true ∨
    (rows.get id).any (fun row => !row.status.terminal) = true

instance (created : History) (rows : Keyed Row.id) (id : Uuid) : Decidable
    (Untouched created rows id) :=
  inferInstanceAs (Decidable (_ ∨ _))

section
variable {created : History} {key : Bytes} {rows : Keyed Row.id} {execution : Execution}

/-- A copy that is written over a row which is not over keeps its secrets. -/
theorem RowsAre.upsert (within : RowsAre (Row.Sealed created key) rows)
    (known : created.contains execution.id = true)
    (active : execution.status.terminal = false) (untouched : Untouched created rows execution.id) :
    RowsAre (Row.Sealed created key) (upsertExecution rows execution) := by
  have without (given : (created.get execution.id).any (fun entry => entry.2.values.isEmpty) = true)
      {secrets : Keyed.Table String String}
        (made : created.get execution.id = some (execution.id, secrets)) :
      secrets.values = [] := by
    rw [made] at given
    simpa using given
  unfold upsertExecution
  cases there : rows.get execution.id with
  | none =>
    refine within.insert ⟨known, fun ended => ?_, fun _ stored =>
      (by cases stored), fun _ secrets made given => ?_⟩
    · exact absurd ended (by simp [rowOf, active])
    · rcases untouched with nothing | present
      · exact absurd (without nothing made) given
      · simp [there] at present
  | some old =>
    have before := within _ old there
    have own : old.id = execution.id := Keyed.key_of_get there
    refine within.insert ⟨known, fun ended => ?_, fun encrypted stored => ?_,
      fun _ secrets made given => ?_⟩
    · exact absurd ended (by simp [rowOf, active])
    · obtain ⟨nonce, secrets, length, made, given, same⟩ := before.own encrypted stored
      rw [own] at made same
      exact ⟨nonce, secrets, length, made, given, same⟩
    · rcases untouched with nothing | present
      · exact absurd (without nothing made) given
      · have waits : old.status.terminal = false := by simpa [there] using present
        exact before.kept waits secrets (own.symm ▸ made) given

theorem untouched_upsert {id : Uuid} (active : execution.status.terminal = false)
    (untouched : Untouched created rows id) : Untouched created
      (upsertExecution rows execution) id := by
  refine untouched.imp_right (fun present => ?_)
  unfold upsertExecution
  split <;> rw [Keyed.get_insert] <;> split_ifs <;> simp [rowOf, active, present]

theorem RowsAre.upsertAll {copies : List Execution} (within : RowsAre (Row.Sealed created key) rows)
    (proper : ∀ copy ∈ copies, created.contains copy.id = true ∧ copy.status.terminal = false)
    (untouched : ∀ copy ∈ copies, Untouched created rows copy.id) :
    RowsAre (Row.Sealed created key) (copies.foldl upsertExecution rows) := by
  induction copies generalizing rows with
  | nil => exact within
  | cons copy rest ih =>
    obtain ⟨known, active⟩ := proper copy List.mem_cons_self
    refine ih (within.upsert known active (untouched copy List.mem_cons_self))
      (fun other member => proper other (List.mem_cons_of_mem _ member)) (fun other member => ?_)
    exact untouched_upsert active (untouched other (List.mem_cons_of_mem _ member))

/-- What an upsert leaves of a row it does not find over: that of the execution, or what was there. -/
theorem get_upsertExecution_cases {id : Uuid} {row : Row}
    (found : (upsertExecution rows execution).get id = some row) :
    (id = execution.id ∧ row.id = execution.id ∧ row.status = execution.status ∧
      (row.secrets = none ∨ ∃ old, rows.get execution.id = some old ∧ row.secrets = old.secrets)) ∨
      id ≠ execution.id ∧ rows.get id = some row := by
  unfold upsertExecution at found
  cases there : rows.get execution.id with
  | none =>
    simp only [there, Keyed.get_insert] at found
    split_ifs at found with same
    · obtain rfl := Option.some.inj found
      exact .inl ⟨same, rfl, rfl, .inl rfl⟩
    · exact .inr ⟨same, found⟩
  | some old =>
    simp only [there, Keyed.get_insert] at found
    split_ifs at found with same
    · obtain rfl := Option.some.inj found
      exact .inl ⟨same, rfl, rfl, .inr ⟨old, rfl, rfl⟩⟩
    · exact .inr ⟨same, found⟩

omit [Crates] in
theorem contains_of_get {id : Uuid} {secrets : Keyed.Table String String}
    (made : created.get id = some (id, secrets)) :
    created.contains id = true := (Keyed.contains_iff _ _).mpr ⟨_, made⟩

theorem encryptSecrets_isEmpty {nonce : Bytes} {id : Uuid} {secrets : Keyed.Table String String}
    (length : nonce.length = 12) :
    (encryptSecrets key nonce id secrets).isEmpty = secrets.values.isEmpty := by
  unfold encryptSecrets
  cases secrets.values with
  | nil => rfl
  | cons first rest =>
    cases nonce with
    | nil => cases length
    | cons byte others => rfl

theorem RowsAre.insertExecution {db next : Database} {encrypted : Bytes} {accepted : Bool}
    (within : RowsAre (Row.Sealed created key) db.rows) (queued : execution.status = .queued)
    {nonce : Bytes} {secrets : Keyed.Table String String} (length : nonce.length = 12)
    (made : created.get execution.id = some (execution.id, secrets))
    (sealed : encrypted = encryptSecrets key nonce execution.id secrets)
    (done : db.insertExecution execution encrypted = some (next, accepted)) :
    RowsAre (Row.Sealed created key) next.rows := by
  simp only [Database.insertExecution, Option.bind_eq_some_iff, Option.map_eq_some_iff] at done
  obtain ⟨pruned, kept, used, -, outcome⟩ := done
  have empty : encrypted.isEmpty = secrets.values.isEmpty := sealed ▸ encryptSecrets_isEmpty length
  have written : RowsAre (Row.Sealed created key) pruned.rows := by
    refine RowsAre.prune ?_ kept
    dsimp only
    split_ifs with bare
    · -- Without secrets the row keeps none, and needs none.
      have none_made : secrets.values = [] := by simpa [empty] using bare
      exact within.upsert (contains_of_get made) (by rw [queued]; rfl)
        (.inl (by simp [made, none_made]))
    · intro id row found
      rw [Keyed.get_adjust] at found
      split_ifs at found with same
      · obtain ⟨old, was, rfl⟩ := Option.map_eq_some_iff.mp found
        obtain ⟨-, own, status, -⟩ | ⟨differ, -⟩ := get_upsertExecution_cases was
        · have given : secrets.values ≠ [] := fun nothing => bare (by rw [empty, nothing]; rfl)
          refine ⟨?_, fun ended => ?_, fun stored is => ?_, fun _ _ _ _ => rfl⟩
          · change created.contains old.id = true
            rw [own]
            exact contains_of_get made
          · rw [show _ = old.status from rfl, status, queued] at ended
            cases ended
          · obtain rfl := Option.some.inj is
            exact ⟨nonce, secrets, length, by rw [show _ = old.id from rfl, own]; exact made, given,
              by rw [show _ = old.id from rfl, own]; exact sealed⟩
        · exact absurd same differ
      · obtain ⟨equal, -⟩ | ⟨-, was⟩ := get_upsertExecution_cases found
        · exact absurd equal same
        · exact within id row was
  split_ifs at outcome <;> cases outcome
  · exact written.erase execution.id
  · exact written

theorem RowsAre.completeExecution {db next : Database}
    (within : RowsAre (Row.Sealed created key) db.rows)
    (known : created.contains execution.id = true) (ended : execution.status.terminal = true)
    (done : db.completeExecution execution = some next) : RowsAre
      (Row.Sealed created key) next.rows := by
  simp only [Database.completeExecution, Option.bind_eq_some_iff, Option.map_eq_some_iff] at done
  obtain ⟨pruned, kept, used, -, rfl⟩ := done
  have cleared (row : Row) (own : row.id = execution.id) (ended : row.status.terminal = true)
    (none : row.secrets = none) :
      Row.Sealed created key row := by
    refine ⟨own ▸ known, fun _ => none, fun encrypted stored => ?_, fun waits => ?_⟩
    · rw [none] at stored
      cases stored
    · rw [ended] at waits
      cases waits
  have written : RowsAre (fun row => Row.Sealed created key row ∧
    (row.id = execution.id → row.secrets = none)) pruned.rows := by
    refine RowsAre.prune (fun id row found => ?_) kept
    dsimp only at found
    rw [Keyed.get_adjust] at found
    split_ifs at found with same
    · obtain ⟨old, was, rfl⟩ := Option.map_eq_some_iff.mp found
      obtain ⟨-, own, status, -⟩ | ⟨differ, -⟩ := get_upsertExecution_cases was
      · exact ⟨cleared _ own (by rw [show _ = old.status from rfl, status]; exact ended) rfl,
          fun _ => rfl⟩
      · exact absurd same differ
    · obtain ⟨equal, -⟩ | ⟨-, was⟩ := get_upsertExecution_cases found
      · exact absurd equal same
      · have own : row.id = id := Keyed.key_of_get was
        exact ⟨within id row was, fun equal => absurd (own.symm.trans equal) same⟩
  split_ifs
  · intro id row found
    obtain ⟨-, own, status, none | ⟨old, was, same⟩⟩ | ⟨-, was⟩ := get_upsertExecution_cases found
    · exact cleared row own (by rw [status]; rfl) none
    · exact cleared row own (by rw [status]; rfl)
        (same.trans ((written _ old was).2 (Keyed.key_of_get was)))
    · exact (written id row was).1
  · exact fun id row found => (written id row found).1

end

theorem Row.Sealed.requeue {created : History} {key : Bytes} {row : Row}
    (sealed : row.Sealed created key) :
    (Database.requeueRow row).Sealed created key := by
  unfold Database.requeueRow
  split_ifs with active
  · have waits : row.status.terminal = false := by simpa using active
    exact ⟨sealed.known, fun ended => (by cases ended), sealed.own, fun _ => sealed.kept waits⟩
  · exact sealed

/-- Encryption opens what was sealed with the same key, nonce and associated data, and nothing else. -/
structure Aead : Prop where
  opens : ∀ key nonce aad plain, Crates.openInPlace key nonce aad
    (Crates.sealInPlace key nonce aad plain) = some plain
  only : ∀ key nonce aad plain key' nonce' aad' plain',
    Crates.openInPlace key' nonce' aad' (Crates.sealInPlace key nonce aad plain) = some plain' →
      key' = key ∧ nonce' = nonce ∧ aad' = aad

/-- Reading back what was written as a document gives the same map. -/
def RoundTrips : Prop := ∀ secrets, Crates.mapFromSlice (Crates.mapToVec secrets) = some secrets

/-- What `decrypt` comes to on the output of `encrypt`. -/
theorem decryptSecrets_encrypted {key nonce : Bytes} (length : nonce.length = 12) (id other : Uuid)
    {secrets : Keyed.Table String String} (given : secrets.values ≠ []) :
    decryptSecrets key other (encryptSecrets key nonce id secrets) =
      (Crates.openInPlace key nonce other.asBytes
        (Crates.sealInPlace key nonce id.asBytes (Crates.mapToVec secrets))).bind
          Crates.mapFromSlice := by
  have sealed : encryptSecrets key nonce id secrets =
      nonce ++ Crates.sealInPlace key nonce id.asBytes (Crates.mapToVec secrets) := by
    simp [encryptSecrets, given]
  have nonempty : (encryptSecrets key nonce id secrets).isEmpty = false := by
    rw [encryptSecrets_isEmpty length]
    simpa using given
  have long : ¬ (encryptSecrets key nonce id secrets).length < 12 := by simp [sealed, length]
  simp only [decryptSecrets, nonempty, Bool.false_eq_true, if_false, if_neg long]
  rw [sealed, ← length, List.take_left, List.drop_left]

theorem decryptSecrets_own (aead : Aead) (roundTrips : RoundTrips) {key nonce : Bytes}
    (length : nonce.length = 12)
    (id : Uuid) {secrets : Keyed.Table String String} (given : secrets.values ≠ []) :
    decryptSecrets key id (encryptSecrets key nonce id secrets) = some secrets := by
  rw [decryptSecrets_encrypted length id id given, aead.opens, Option.bind_some, roundTrips]

omit [Crates] in
theorem Uuid.asBytes_injective {a b : Uuid} (same : a.asBytes = b.asBytes) : a = b := by
  have digit (i : Nat) (small : i < 16) : a.toNat / 256 ^ i % 256 = b.toNat / 256 ^ i % 256 := by
    have bytes := congrArg (fun l : List UInt8 => (l[15 - i]?).map UInt8.toNat) same
    have range : 15 - i < 16 := by omega
    have index : 15 - (15 - i) = i := by omega
    simpa [Uuid.asBytes, List.getElem?_range range, index] using bytes
  exact BitVec.eq_of_toNat_eq (Uuid.eq_of_digits 256 16 _ _ (lt_of_lt_of_le a.isLt (by decide))
    (lt_of_lt_of_le b.isLt (by decide)) digit)

/-- Under another identifier nothing opens. -/
theorem decryptSecrets_other (aead : Aead) {key nonce : Bytes} (length : nonce.length = 12)
    {id other : Uuid}
    (differ : other ≠ id) {secrets : Keyed.Table String String} (given : secrets.values ≠ []) :
    decryptSecrets key other (encryptSecrets key nonce id secrets) = none := by
  rw [decryptSecrets_encrypted length id other given]
  cases opened : Crates.openInPlace key nonce other.asBytes
      (Crates.sealInPlace key nonce id.asBytes (Crates.mapToVec secrets)) with
  | none => rfl
  | some plain => exact absurd (Uuid.asBytes_injective
      (aead.only _ _ _ _ _ _ _ _ opened).2.2) differ


/-- The call agrees with the history: what it writes over a row is known and, unless it completes the execution,
not over; what it inserts is sealed. -/
def Op.Proper (created : History) (key : Bytes) : Op → Prop
  | .saveExecution execution => created.contains execution.id = true ∧
      execution.status.terminal = false
  | .saveExecutions executions =>
    ∀ execution ∈ executions, created.contains execution.id = true ∧
      execution.status.terminal = false
  | .insertExecution execution encrypted _ =>
      execution.status = .queued ∧ ∃ nonce secrets, nonce.length = 12 ∧
      created.get execution.id = some (execution.id, secrets) ∧
        encrypted = encryptSecrets key nonce execution.id secrets
  | .completeExecution execution => created.contains execution.id = true ∧
      execution.status.terminal = true
  | .deliver _ execution _ => created.contains execution.id = true
  | _ => True

/-- Work carries the secrets that its execution was created with. -/
def Reply.Proper (created : History) : Reply → Prop
  | .work _ execution _ secrets => created.get execution.id = some (execution.id, secrets)
  | _ => True

/-- The executions whose rows the call writes over or reads the secrets of. -/
def Op.relies : Op → List Uuid
  | .saveExecution execution => [execution.id]
  | .saveExecutions executions => executions.map Execution.id
  | .deliver _ execution _ => [execution.id]
  | _ => []

omit [Crates] in
theorem Reply.proper_of_quiet {reply : Reply} (quiet : reply.concerns = none)
    (created : History) : reply.Proper created := by
  cases reply <;> trivial

namespace System

/-- What a process holds agrees with the history. -/
structure Guarded (created : History) (s : System) : Prop where
  sound : Sound s
  known : ∀ id execution, s.cluster.executions.get id = some execution → created.contains id = true
  ops : ∀ ops reply, Frame.running ops reply ∈ s.inflight →
    (∀ op ∈ ops, op.Proper created s.key) ∧ reply.Proper created
  replies : ∀ reply ∈ s.replies, reply.Proper created

/-- What the database holds agrees with the history. -/
structure Stored (created : History) (key : Bytes) (database : Database) : Prop where
  rows : RowsAre (Row.Sealed created key) database.rows
  bare : (database.cluster.getD Cluster.empty).executions = ∅

/-- An execution that is created is in the history with its secrets, and they are sealed. -/
def Seals (created : History) (key : Bytes) (issued : List Uuid) : Commit → Prop
  | .createExecution id request encrypted _ => id ∈ issued → ∃ nonce, nonce.length = 12 ∧
      created.get id = some (id, request.secrets) ∧
        encrypted = encryptSecrets key nonce id request.secrets
  | _ => True

/-- The executions whose rows the step's call writes over or reads the secrets of. -/
def relies (s : System) : Label → List Uuid
  | .op index _ =>
    match s.inflight[index]? with
    | some (.running (op :: _) _) => op.relies
    | _ => []
  | _ => []

/-- The step's call writes over and reads back only rows that are there and not over. -/
def Attentive (created : History) (s : System) (label : Label) : Prop :=
  ∀ id ∈ s.relies label, Untouched created s.database.rows id

instance (created : History) (s : System) (label : Label) : Decidable (Attentive created s label) :=
  decidable_of_iff ((s.relies label).all (fun id =>
    decide (Untouched created s.database.rows id)) = true)
    (by simp [Attentive])

variable {created : History} {s t : System} {label : Label}

theorem runOp_key {next : System} {op : Op} {rest ops : List Op} {before after : Reply}
    (done : s.runOp rest before op = some (next, ops, after)) : next.key = s.key := by
  cases op with
  | insertExecution execution encrypted queue =>
    simp only [runOp, Option.map_eq_some_iff] at done
    obtain ⟨inserted, -, same⟩ := done
    split_ifs at same <;> cases same <;> rfl
  | completeExecution | deliver =>
    simp only [runOp, Option.map_eq_some_iff, Prod.mk.injEq] at done
    obtain ⟨_, _, rfl, -⟩ := done
    rfl
  | _ =>
    simp only [runOp, Option.some.injEq, Prod.mk.injEq] at done
    obtain ⟨rfl, -⟩ := done
    rfl

theorem key_step (stepped : s.step label = some t) : t.key = s.key := by
  cases step_cases stepped with
  | called index op rest before after next there plain done =>
    change next.key = s.key
    exact runOp_key done
  | _ => rfl

/-- The calls of a section that was entered are proper. -/
theorem ending_proper {commit : Commit} {result : Section} {key : Bytes} {issued : List Uuid}
    (ending : Ending s.cluster commit result)
    (orderly : Orderly result.cluster)
    (before : ∀ id execution, s.cluster.executions.get id = some execution →
      created.contains id = true)
    (known : ∀ id execution, result.cluster.executions.get id = some execution →
      created.contains id = true)
    (seals : Seals created key issued commit) (issues : ∀ id ∈ commit.issues, id ∈ issued) :
    (∀ op ∈ result.ops, op.Proper created key) ∧ result.reply.Proper created := by
  have copied {op : Op} (member : op ∈ result.ops) {copy : Execution} (writes : copy ∈ op.copies) :
      created.contains copy.id = true ∧ copy.status.terminal = false := by
    have present := ending.copies member writes
    exact ⟨known _ _ present, by simpa using orderly.active _ _ present⟩
  constructor
  · intro op member
    cases op with
    | saveExecution execution => exact copied member List.mem_cons_self
    | saveExecutions executions => exact fun execution writes => copied member writes
    | insertExecution execution encrypted queue =>
      cases ending with
      | saved _ ops => simp [ops] at member
      | deletedEnvironment => simp at member
      | created id request secrets now poolName pool environment =>
        simp only [List.mem_singleton, Op.insertExecution.injEq] at member
        obtain ⟨rfl, rfl, rfl⟩ := member
        obtain ⟨nonce, length, made, sealed⟩ := seals (issues id List.mem_cons_self)
        exact ⟨rfl, nonce, request.secrets, length, made, sealed⟩
      | _ => simp [scheduleAndSave, finishEnvironment, panicSection] at member
    | completeExecution execution =>
      cases ending with
      | saved _ ops => simp [ops] at member
      | deletedEnvironment => simp at member
      | completed node request now old present placed =>
        simp only [List.mem_cons, List.not_mem_nil, or_false, reduceCtorEq, false_or,
          Op.completeExecution.injEq] at member
        subst member
        refine ⟨before _ _ present, ?_⟩
        simp only [finished, finalStatus]
        split_ifs <;> rfl
      | _ => simp [scheduleAndSave, finishEnvironment, panicSection] at member
    | deliver node execution pool =>
      cases ending with
      | saved _ ops => simp [ops] at member
      | deletedEnvironment => simp at member
      | worked target now old given present there =>
        simp only [List.mem_cons, List.not_mem_nil, or_false, reduceCtorEq, false_or,
          Op.deliver.injEq] at member
        obtain ⟨-, rfl, -⟩ := member
        exact before _ _ present
      | _ => simp [scheduleAndSave, finishEnvironment, panicSection] at member
    | _ => trivial
  · cases ending with
    | saved _ _ reply => exact Reply.proper_of_quiet reply created
    | scheduled _ _ _ other | unchanged _ other => exact Reply.proper_of_quiet other created
    | _ => trivial

theorem admitExecution_proper {key : Bytes} {execution : Execution} {queue : Bool} {c : Cluster}
    (orderly : Orderly (admitExecution execution queue c).cluster)
    (known : ∀ id execution', (admitExecution execution queue c).cluster.executions.get id =
      some execution' →
      created.contains id = true) :
    (∀ op ∈ (admitExecution execution queue c).ops, op.Proper created key) ∧
      (admitExecution execution queue c).reply.Proper created := by
  constructor
  · intro op member
    rcases admitExecution_ops execution queue c with ⟨copy, shape⟩ | shape
    · have present (writes : copy ∈ op.copies) := admitExecution_copies member writes
      rw [shape] at member
      simp only [List.mem_cons, List.not_mem_nil, or_false] at member
      rcases member with rfl | rfl
      · have there := present List.mem_cons_self
        exact ⟨known _ _ there, by simpa using orderly.active _ _ there⟩
      · trivial
    · rw [shape] at member
      simp only [List.mem_cons, List.not_mem_nil, or_false] at member
      rcases member with rfl | rfl <;> trivial
  · unfold admitExecution
    dsimp only
    split
    · trivial
    · split_ifs <;> trivial

theorem Guarded.known_step (guarded : Guarded created s) (stepped : s.step label = some t)
    (same : restarts label = false) :
    ∀ id execution, t.cluster.executions.get id = some execution → created.contains id = true := by
  refine (step_moves guarded.sound stepped same).invariant
    (P := fun c => ∀ id execution, c.executions.get id = some execution →
      created.contains id = true) guarded.known ?_
  intro c move known allowed used _ id execution present
  rcases get_before_move allowed present with ⟨before, found⟩ | ⟨rfl, rfl⟩
  · exact known id before found
  · rcases used with grows | ⟨commit, others, _, never⟩ | ⟨index, inserted, _,
      ⟨_, _, _, _, there⟩, equal | other⟩
    · cases grows
    · cases never
    · cases equal
      obtain ⟨-, nonce, secrets, -, made, -⟩ :=
        (guarded.ops _ _ (List.mem_of_getElem? there)).1 _ List.mem_cons_self
      exact contains_of_get made
    · cases other

/-- What the delivering call decrypts are the secrets that the execution was created with. -/
theorem Stored.delivers (aead : Aead) (roundTrips : RoundTrips) {key : Bytes} {database : Database}
    (stored : Stored created key database) {id : Uuid} (known : created.contains id = true)
    (untouched : Untouched created database.rows id) {secrets : Keyed.Table String String}
    (opened : decryptSecrets key id ((database.executionSecrets id).getD []) = some secrets) :
    created.get id = some (id, secrets) := by
  obtain ⟨⟨own, made⟩, there⟩ := (Keyed.contains_iff _ _).mp known
  obtain rfl : own = id := Keyed.key_of_get there
  have emptied (none_made : made.values = []) : made = ∅ := by
    cases made
    cases none_made
    rfl
  have bare (nothing : (database.executionSecrets own).getD [] = [])
    (none_made : made.values = []) : made = secrets := by
    rw [nothing] at opened
    exact (emptied none_made).trans (Option.some.inj opened)
  suffices same : made = secrets by rw [there, same]
  cases found : database.rows.get own with
  | none =>
    refine bare (by simp [Database.executionSecrets, found]) ?_
    rcases untouched with nothing | present
    · simpa [there] using nothing
    · simp [found] at present
  | some row =>
    have sealed := stored.rows own row found
    have named : row.id = own := Keyed.key_of_get found
    cases held : row.secrets with
    | none =>
      refine bare (by simp [Database.executionSecrets, found, held]) ?_
      rcases untouched with nothing | present
      · simpa [there] using nothing
      · have waits : row.status.terminal = false := by simpa [found] using present
        by_contra given
        have kept := sealed.kept waits made (named.symm ▸ there) given
        rw [held] at kept
        cases kept
    | some encrypted =>
      obtain ⟨nonce, others, length, same, given, made_so⟩ := sealed.own encrypted held
      rw [named, there] at same
      obtain ⟨-, rfl⟩ := Prod.mk.inj (Option.some.inj same)
      have read : (database.executionSecrets own).getD [] = encryptSecrets key nonce own made := by
        simp [Database.executionSecrets, found, held, made_so, named]
      rw [read, decryptSecrets_own aead roundTrips length own given] at opened
      exact Option.some.inj opened

theorem Stored.same_rows {key : Bytes} {database next : Database}
    (stored : Stored created key database)
    (rows : next.rows = database.rows) (cluster : next.cluster =
      database.cluster) : Stored created key next :=
  ⟨rows ▸ stored.rows, cluster ▸ stored.bare⟩

theorem Stored.save {key : Bytes} {database : Database} (stored : Stored created key database)
    (c : Cluster) :
    Stored created key (database.saveCluster c) := ⟨stored.rows, rfl⟩

/-- One call of a handler that makes proper calls. -/
theorem Stored.call {next : System} {op : Op} {rest : List Op} {before after : Reply}
    (stored : Stored created s.key s.database) (plain : op.inserts = false)
    (proper : op.Proper created s.key) (attentive : ∀ id ∈ op.relies,
      Untouched created s.database.rows id)
    (done : s.runOp rest before op = some (next, rest, after)) : Stored created s.key
      next.database := by
  cases op with
  | insertExecution => cases plain
  | saveCluster =>
    obtain ⟨rfl, -⟩ := Prod.mk.inj (Option.some.inj done)
    exact stored.save s.cluster
  | unlock | removeArtifact artifact =>
    obtain ⟨rfl, -⟩ := Prod.mk.inj (Option.some.inj done)
    exact stored
  | saveExecution execution =>
    obtain ⟨rfl, -⟩ := Prod.mk.inj (Option.some.inj done)
    exact ⟨stored.rows.upsert proper.1 proper.2 (attentive _ List.mem_cons_self), stored.bare⟩
  | saveExecutions executions =>
    obtain ⟨rfl, -⟩ := Prod.mk.inj (Option.some.inj done)
    exact ⟨stored.rows.upsertAll proper (fun copy member =>
      attentive _ (List.mem_map_of_mem member)), stored.bare⟩
  | deleteExecution id =>
    obtain ⟨rfl, -⟩ := Prod.mk.inj (Option.some.inj done)
    exact ⟨stored.rows.erase id, stored.bare⟩
  | completeExecution execution =>
    simp only [runOp, Option.map_eq_some_iff, Prod.mk.injEq] at done
    obtain ⟨database, completed, rfl, -⟩ := done
    refine ⟨stored.rows.completeExecution proper.1 proper.2 completed, ?_⟩
    change (database.cluster.getD Cluster.empty).executions = ∅
    rw [completeExecution_cluster completed]
    exact stored.bare
  | deliver node execution pool =>
    simp only [runOp, Option.map_eq_some_iff, Prod.mk.injEq] at done
    obtain ⟨_, _, rfl, -⟩ := done
    exact stored

theorem Stored.step (stored : Stored created s.key s.database) (guarded : Guarded created s)
    (attentive : Attentive created s label)
    (stepped : s.step label = some t) : Stored created s.key t.database := by
  cases step_cases stepped with
  | called index op rest before after next there plain done =>
    simp only [Attentive, relies, there] at attentive
    change Stored created s.key next.database
    exact stored.call plain
      ((guarded.ops _ _ (List.mem_of_getElem? there)).1 op List.mem_cons_self) attentive done
  | admitted index execution encrypted queue rest before database there inserted
  | rejected index execution encrypted queue rest before database there inserted =>
    obtain ⟨queued, nonce, secrets, length, made, sealed⟩ :=
      (guarded.ops _ _ (List.mem_of_getElem? there)).1 _ List.mem_cons_self
    refine ⟨stored.rows.insertExecution queued length made sealed inserted, ?_⟩
    change (database.cluster.getD Cluster.empty).executions = ∅
    rw [insertExecution_cluster inserted]
    exact stored.bare
  | pruned now =>
    cases done : Scraperack.prune s.database now none with
    | none => simpa [done] using stored
    | some next =>
      have kept : Stored created s.key next :=
        ⟨stored.rows.prune done, prune_cluster done ▸ stored.bare⟩
      simpa [done] using kept
  | settings => exact stored.same_rows rfl rfl
  | restarted fresh now cluster database _ served =>
    simp only [serve, Option.map_eq_some_iff, Prod.mk.injEq] at served
    obtain ⟨pruned, done, rfl, rfl⟩ := served
    refine ⟨RowsAre.prune ?_ done, by rw [prune_cluster done]; rfl⟩
    exact stored.rows.requeueRows (fun _ sealed => sealed.requeue)
  | _ => exact stored

omit [Crates] in
theorem requeueRow_node {row : Row} (queued : (Database.requeueRow row).status = .queued) :
    (Database.requeueRow row).node = none := by
  unfold Database.requeueRow at queued ⊢
  split_ifs with active
  · rfl
  · rw [if_neg active] at queued
    exact absurd (by rw [queued]; rfl) active

/-- The executions that a new process loads are those of the rows. -/
theorem Stored.loaded {key : Bytes} {database next : Database} {cluster : Cluster}
    {fresh : String → Uuid} {now : Nat}
    (stored : Stored created key database)
    (served : serve database none fresh now = some (cluster, next))
    {id : Uuid} {execution : Execution} (present : cluster.executions.get id = some execution) :
    created.contains id = true ∧ execution.status = .queued ∧ execution.node = none := by
  simp only [serve, Option.map_eq_some_iff, Prod.mk.injEq, Option.getD_none] at served
  obtain ⟨pruned, -, rfl, -⟩ := served
  rcases get_foldl_insert _ present with loaded | before
  · have own : execution.id = id := Keyed.key_of_get present
    subst own
    simp only [Database.loadActiveExecutions, List.mem_map, List.mem_filter,
      decide_eq_true_eq] at loaded
    obtain ⟨row, ⟨member, queued⟩, rfl⟩ := loaded
    have requeued : RowsAre (Row.Sealed created key) database.requeueRows.rows :=
      stored.rows.requeueRows (fun _ sealed => sealed.requeue)
    refine ⟨(requeued row.id row ((Keyed.mem_values_iff _ _).mp member)).known, queued, ?_⟩
    have found := (Keyed.mem_values_iff _ _).mp member
    simp only [Database.requeueRows, Keyed.get_map, Option.map_eq_some_iff] at found
    obtain ⟨old, -, rfl⟩ := found
    exact requeueRow_node queued
  · rw [(migrateLegacy_sizes fresh _).executions stored.bare] at before
    cases before

theorem restart_cases {fresh : String → Uuid} {now : Nat}
    (stepped : s.step (.restart fresh now) = some t) :
    serve s.database none fresh now = some (t.cluster, t.database) ∧ t.inflight = [] ∧
      t.replies = [] := by
  simp only [step] at stepped
  split_ifs at stepped
  obtain ⟨served, done, rfl⟩ := Option.map_eq_some_iff.mp stepped
  exact ⟨done, rfl, rfl⟩

/-- A process that starts on the database agrees with the history. -/
theorem Stored.started {fresh : String → Uuid} {now : Nat}
    (stored : Stored created s.key s.database)
    (listed : ∀ id, created.contains id = true → id ∈ t.issued)
    (stepped : s.step (.restart fresh now) = some t) :
    Guarded created t := by
  obtain ⟨served, quiet, silent⟩ := restart_cases stepped
  have loaded {id : Uuid} {execution : Execution}
    (present : t.cluster.executions.get id = some execution) :=
    stored.loaded served present
  refine ⟨Started.sound ⟨quiet, fun _ _ present => (loaded present).2, fun id _ present =>
    listed id (loaded present).1⟩, fun _ _ present => (loaded present).1, ?_, ?_⟩
  · intro ops reply member
    rw [quiet] at member
    cases member
  · intro reply member
    rw [silent] at member
    cases member

/-- A handler that goes on makes proper calls. -/
theorem Guarded.ops_step (aead : Aead) (roundTrips : RoundTrips) (guarded : Guarded created s)
    (stored : Stored created s.key s.database) (orderly : Orderly t.cluster)
    (known : ∀ id execution, t.cluster.executions.get id = some execution →
      created.contains id = true)
    (seals : ∀ commit, s.entering label = some commit → Seals created s.key t.issued commit)
    (attentive : Attentive created s label) (stepped : s.step label = some t) {ops : List Op}
    {reply : Reply}
    (member : Frame.running ops reply ∈ t.inflight) :
    (∀ op ∈ ops, op.Proper created s.key) ∧ reply.Proper created := by
  have before {ops : List Op} {reply : Reply} (there : Frame.running ops reply ∈ s.inflight) :=
    guarded.ops ops reply there
  cases step_cases stepped with
  | refused _ others error fewer => exact before (fewer.subset member)
  | authenticated | started | importing =>
    rcases List.mem_append.mp member with old | new
    · exact before old
    · cases List.mem_singleton.mp new
  | performed _ commit others result free allowed entered ran =>
    rcases List.mem_append.mp member with old | new
    · exact before (entered.fewer.subset old)
    · cases List.mem_singleton.mp new
      exact ending_proper (Commit.ending ran) orderly guarded.known known
        (seals commit entered.entering)
        (fun _ made => List.mem_append_left _ made)
  | declined _ commit others error entered => exact before (entered.fewer.subset member)
  | prepared index event job next files there done =>
    rcases List.mem_or_eq_of_mem_set member with old | new
    · exact before old
    · cases new
  | answered | failed => exact before ((List.eraseIdx_sublist _ _).subset member)
  | ignored index artifact rest was there =>
    rcases List.mem_or_eq_of_mem_set member with old | new
    · exact before old
    · cases new
      obtain ⟨calls, answer⟩ := before (List.mem_of_getElem? there)
      exact ⟨fun op later => calls op (List.mem_cons_of_mem _ later), answer⟩
  | called index op rest was after next there plain done =>
    rcases List.mem_or_eq_of_mem_set member with old | new
    · exact before old
    · cases new
      obtain ⟨calls, answer⟩ := before (List.mem_of_getElem? there)
      refine ⟨fun op later => calls op (List.mem_cons_of_mem _ later), ?_⟩
      simp only [Attentive, relies, there] at attentive
      cases op with
      | insertExecution => cases plain
      | deliver node execution pool =>
        simp only [runOp, Option.map_eq_some_iff, Prod.mk.injEq] at done
        obtain ⟨secrets, opened, -, -, rfl⟩ := done
        exact stored.delivers aead roundTrips (calls _ List.mem_cons_self)
          (attentive _ List.mem_cons_self) opened
      | completeExecution execution =>
        simp only [runOp, Option.map_eq_some_iff, Prod.mk.injEq] at done
        obtain ⟨_, _, _, _, rfl⟩ := done
        exact answer
      | _ =>
        simp only [runOp, Option.some.injEq, Prod.mk.injEq] at done
        exact done.2.2 ▸ answer
  | admitted index execution encrypted queue rest was database there inserted =>
    rcases List.mem_or_eq_of_mem_set member with old | new
    · exact before old
    · cases new
      exact admitExecution_proper orderly known
  | rejected index execution encrypted queue rest was database there inserted =>
    rcases List.mem_or_eq_of_mem_set member with old | new
    · exact before old
    · cases new
      exact ⟨fun _ nothing => (by cases nothing), trivial⟩
  | restarted => cases member
  | _ => exact before member

/-- A step keeps what the process holds in agreement with the history. -/
theorem Guarded.step (aead : Aead) (roundTrips : RoundTrips) (guarded : Guarded created s)
    (stored : Stored created s.key s.database)
    (listed : ∀ id, created.contains id = true → id ∈ t.issued)
    (seals : ∀ commit, s.entering label = some commit → Seals created s.key t.issued commit)
    (attentive : Attentive created s label)
    (stepped : s.step label = some t) : Guarded created t := by
  by_cases same : restarts label = false
  · have sound := guarded.sound.step stepped same
    have known := guarded.known_step stepped same
    refine ⟨sound, known, fun ops reply member => ?_, fun reply member => ?_⟩
    · rw [key_step stepped]
      exact guarded.ops_step aead roundTrips stored sound.orderly known seals
        attentive stepped member
    · have refused {error : ApiError} (given : reply ∈ Reply.refused error ::
        s.replies) : reply.Proper created := by
        rcases List.mem_cons.mp given with rfl | before
        · trivial
        · exact guarded.replies reply before
      cases step_cases stepped with
      | refused | declined | failed => exact refused member
      | answered index succeeds answer there =>
        rcases List.mem_cons.mp member with rfl | before
        · exact (guarded.ops _ _ (List.mem_of_getElem? there)).2
        · exact guarded.replies reply before
      | called index op rest was after next there plain done =>
        exact guarded.replies reply ((runOp_frame plain done).2.2.1 ▸ member)
      | restarted => cases same
      | _ => exact guarded.replies reply member
  · cases label with
    | restart fresh now => exact stored.started listed stepped
    | _ => exact absurd rfl same

end System

/-! Several processes on one database. -/

section
variable {created more : History} {key : Bytes}

/-- The history grows. -/
def Extends (created more : History) : Prop :=
  ∀ id, created.contains id = true → more.get id = created.get id

omit [Crates] in
theorem Extends.contains (grows : Extends created more) {id : Uuid}
    (known : created.contains id = true) :
    more.contains id = true := by
  rw [Keyed.contains, grows id known]
  exact known

omit [Crates] in
theorem Extends.get (grows : Extends created more) {id : Uuid} {secrets : Keyed.Table String String}
    (made : created.get id = some (id, secrets)) : more.get id = some (id, secrets) :=
  (grows id (contains_of_get made)).trans made

theorem Row.Sealed.extend (grows : Extends created more) {row : Row}
    (sealed : row.Sealed created key) : row.Sealed more key := by
  refine ⟨grows.contains sealed.known, sealed.ended, fun encrypted held => ?_,
    fun waits secrets made => ?_⟩
  · obtain ⟨nonce, secrets, length, made, given, same⟩ := sealed.own encrypted held
    exact ⟨nonce, secrets, length, grows.get made, given, same⟩
  · exact sealed.kept waits secrets ((grows _ sealed.known).symm.trans made)

theorem Op.Proper.extend (grows : Extends created more) {op : Op}
    (proper : op.Proper created key) : op.Proper more key := by
  cases op with
  | saveExecution | completeExecution => exact ⟨grows.contains proper.1, proper.2⟩
  | saveExecutions => exact fun execution member =>
      ⟨grows.contains (proper execution member).1, (proper execution member).2⟩
  | insertExecution =>
    obtain ⟨queued, nonce, secrets, length, made, same⟩ := proper
    exact ⟨queued, nonce, secrets, length, grows.get made, same⟩
  | deliver => exact grows.contains proper
  | _ => trivial

omit [Crates] in
theorem Reply.Proper.extend (grows : Extends created more) {reply : Reply}
    (proper : reply.Proper created) :
    reply.Proper more := by
  cases reply with
  | work => exact grows.get proper
  | _ => trivial

theorem System.Guarded.extend (grows : Extends created more) {s : System}
    (guarded : System.Guarded created s) :
    System.Guarded more s :=
  ⟨guarded.sound, fun id execution present => grows.contains (guarded.known id execution present),
    fun ops reply member => ⟨fun op call => ((guarded.ops ops reply member).1 op call).extend grows,
      (guarded.ops ops reply member).2.extend grows⟩,
    fun reply member => (guarded.replies reply member).extend grows⟩

theorem System.Stored.extend (grows : Extends created more) {database : Database}
    (stored : System.Stored created key database) : System.Stored more key database :=
  ⟨fun id row found => (stored.rows id row found).extend grows, stored.bare⟩

end

/-- Controller processes on one database and key file, with what has been created so far. -/
structure Vault where
  processes : List System
  database : Database
  key : Bytes
  issued : List Uuid
  created : History

inductive VaultLabel where
  /-- A client's `create_execution`, with the nonce for its secrets. -/
  | create (process : Nat) (id : Uuid) (request : CreateExecution) (nonce : Bytes) (now : Nat)
  | handle (process : Nat) (label : Label)

namespace VaultLabel

def process : VaultLabel → Nat
  | create process .. | handle process _ => process

/-- What the process does. -/
def label (key : Bytes) : VaultLabel → Label
  | create _ id request nonce now => .client
      (.createExecution id request (encryptSecrets key nonce id request.secrets) now)
  | handle _ label => label

/-- A nonce has 12 bytes, and executions are created with one. -/
def fits : VaultLabel → Bool
  | create _ _ _ nonce _ => decide (nonce.length = 12)
  | handle _ (.client (.createExecution ..)) => false
  | handle .. => true

def record (created : History) (issued : List Uuid) : VaultLabel → History
  | create _ id request _ _ =>
    if issued.contains id then created.insert (id, request.secrets) else created
  | handle .. => created

end VaultLabel

namespace Vault

/-- The process with what it shares with the others. -/
def view (v : Vault) (s : System) : System :=
  { s with database := v.database, key := v.key, issued := v.issued }

def step (v : Vault) (label : VaultLabel) : Option Vault :=
  if label.fits then
    (v.processes[label.process]?).bind (fun s => ((v.view s).step (label.label v.key)).map (fun t =>
      { v with
        processes := v.processes.set label.process t
        database := t.database
        issued := t.issued
        created := label.record v.created t.issued }))
  else none

/-- The process writes over and reads back only rows that are there and not over. -/
def Attentive (v : Vault) (label : VaultLabel) : Prop :=
  ∀ s, v.processes[label.process]? = some s → (v.view s).Attentive v.created (label.label v.key)

instance (v : Vault) (label : VaultLabel) : Decidable (v.Attentive label) :=
  decidable_of_iff ((v.processes[label.process]?).all
    (fun s => decide ((v.view s).Attentive v.created (label.label v.key))) = true) (by
      cases there : v.processes[label.process]? <;> simp [Attentive, there])

/-- All processes and the database agree with the history. -/
structure Guarded (v : Vault) : Prop where
  processes : ∀ s ∈ v.processes, System.Guarded v.created (v.view s)
  stored : System.Stored v.created v.key v.database
  listed : ∀ id, v.created.contains id = true → id ∈ v.issued

/-- No execution has been created, and no process has done anything. -/
structure Started (v : Vault) : Prop where
  processes : ∀ s ∈ v.processes, s.inflight = [] ∧ s.replies = [] ∧ s.cluster.executions = ∅
  rows : v.database.rows = ∅
  bare : (v.database.cluster.getD Cluster.empty).executions = ∅
  created : v.created = ∅

theorem Started.guarded {v : Vault} (started : Started v) : Guarded v := by
  refine ⟨fun s member => ?_, ⟨fun id row found => ?_, started.bare⟩, fun id known => ?_⟩
  · obtain ⟨quiet, silent, idle⟩ := started.processes s member
    have nothing {id : Uuid} {execution : Execution}
      (present : s.cluster.executions.get id = some execution) : False := by
      rw [idle] at present
      cases present
    refine ⟨System.Started.sound ⟨quiet, fun _ _ present =>
      (nothing present).elim, fun _ _ present => (nothing present).elim⟩,
      fun _ _ present => (nothing present).elim, fun ops reply inside => ?_, fun reply inside => ?_⟩
    · rw [show (v.view s).inflight = [] from quiet] at inside
      cases inside
    · rw [show (v.view s).replies = [] from silent] at inside
      cases inside
  · rw [started.rows] at found
    cases found
  · rw [started.created] at known
    cases known

/-- A process that stands still sees identifiers issued elsewhere. -/
theorem guarded_elsewhere {created : History} {s : System} (guarded : System.Guarded created s)
    (database : Database)
    {issued : List Uuid} (more : ∀ id ∈ s.issued, id ∈ issued) :
    System.Guarded created { s with database := database, issued := issued } := by
  have sound := guarded.sound
  refine ⟨⟨sound.once, sound.orderly, fun id execution present =>
    more id (sound.issued id execution present),
    fun ops reply execution secrets queue member inserts => ?_⟩, guarded.known, guarded.ops,
      guarded.replies⟩
  obtain ⟨only, allowed, issued⟩ := sound.pending ops reply execution secrets queue member inserts
  exact ⟨only, allowed, more _ issued⟩

theorem create_fresh {s t : System} {id : Uuid} {request : CreateExecution}
    {encrypted : Bytes} {now : Nat}
    (stepped : s.step (.client (.createExecution id request encrypted now)) = some t) : id ∉
      s.issued := by
  simp only [System.step] at stepped
  split_ifs at stepped with blocked
  have allowed : s.allows (.createExecution id request encrypted now) = true := by
    by_contra refused
    exact blocked (by simp [Bool.eq_false_iff.mpr refused])
  simp only [System.allows, Bool.and_eq_true] at allowed
  simpa [Commit.issues] using allowed.1.1

omit [Crates] in
/-- Handlers in flight enter other sections than those that clients' requests begin with. -/
theorem commit_indirect {frame : Frame} {input : Input} {commit : Commit}
    (ready : frame.commit input = some commit) :
    commit.direct = false := by
  cases frame with
  | authenticated node request => cases request <;> cases ready <;> rfl
  | environment job =>
    obtain ⟨old, request, image, stage⟩ := job
    cases stage <;> cases old <;> cases ready <;> rfl
  | importing name =>
    obtain ⟨image, -, rfl⟩ := Option.map_eq_some_iff.mp ready
    rfl
  | running => cases ready

theorem seals_record {v : Vault} {s t : System} {label : VaultLabel} (fits : label.fits = true)
    {commit : Commit}
    (entering : s.entering (label.label v.key) = some commit) :
    System.Seals (label.record v.created t.issued) v.key t.issued commit := by
  cases commit with
  | createExecution id request encrypted now =>
    cases label with
    | create process fresh wanted nonce at_time =>
      obtain ⟨rfl, rfl, rfl, rfl⟩ := by simpa [System.entering, VaultLabel.label] using entering
      refine fun issues => ⟨nonce, of_decide_eq_true fits, ?_, rfl⟩
      rw [VaultLabel.record, if_pos (List.contains_iff_mem.mpr issues)]
      exact Keyed.get_insert_self _ _
    | handle process inner =>
      cases inner with
      | client commit =>
        obtain rfl := Option.some.inj entering
        cases fits
      | enter index input =>
        obtain ⟨frame, -, ready⟩ := Option.bind_eq_some_iff.mp entering
        cases commit_indirect ready
      | _ => cases entering
  | _ => trivial

omit [Crates] in
theorem untouched_extend {created more : History} (grows : Extends created more)
    {rows : Keyed Row.id} {id : Uuid}
    (untouched : Untouched created rows id) : Untouched more rows id := by
  refine untouched.imp_left (fun given => ?_)
  cases made : created.get id with
  | none => simp [made] at given
  | some entry =>
    have known : created.contains id = true := (Keyed.contains_iff _ _).mpr ⟨entry, made⟩
    rwa [grows id known]

omit [Crates] in
theorem attentive_extend {created more : History} (grows : Extends created more) {s : System}
    {label : Label}
    (attentive : s.Attentive created label) : s.Attentive more label :=
  fun id member => untouched_extend grows (attentive id member)

theorem Guarded.step (aead : Aead) (roundTrips : RoundTrips) {v w : Vault} {label : VaultLabel}
    (guarded : Guarded v)
    (attentive : v.Attentive label) (stepped : v.step label = some w) : Guarded w := by
  simp only [Vault.step] at stepped
  split_ifs at stepped with fits
  obtain ⟨s, there, stepped⟩ := Option.bind_eq_some_iff.mp stepped
  obtain ⟨t, done, rfl⟩ := Option.map_eq_some_iff.mp stepped
  have issued : ∀ id ∈ v.issued, id ∈ t.issued := fun _ known => System.issued_mono done known
  have key : t.key = v.key := System.key_step done
  -- A new execution is under a new identifier, so the history grows.
  have grows : Extends v.created (label.record v.created t.issued) := by
    intro id known
    cases label with
    | handle => rfl
    | create process fresh request nonce now =>
      simp only [VaultLabel.record]
      split_ifs with issues
      · refine Keyed.get_insert_ne _ ?_
        rintro rfl
        exact create_fresh done (guarded.listed _ known)
      · rfl
  have listed : ∀ id, (label.record v.created t.issued).contains id = true → id ∈ t.issued := by
    intro id known
    cases label with
    | handle => exact issued id (guarded.listed id known)
    | create process fresh request nonce now =>
      simp only [VaultLabel.record] at known
      split_ifs at known with issues
      · rw [Keyed.contains, Keyed.get_insert] at known
        split_ifs at known with same
        · exact same ▸ List.contains_iff_mem.mp issues
        · exact issued id (guarded.listed id known)
      · exact issued id (guarded.listed id known)
  have mine := (guarded.processes s (List.mem_of_getElem? there)).extend grows
  have stored := guarded.stored.extend grows
  have careful := attentive_extend grows (attentive s there)
  have seals (commit : Commit) (entering : (v.view s).entering (label.label v.key) = some commit) :=
    seals_record (v := v) (t := t) fits entering
  refine ⟨fun other member => ?_, System.Stored.step stored mine careful done, listed⟩
  rcases List.mem_or_eq_of_mem_set member with stays | rfl
  · exact guarded_elsewhere ((guarded.processes other stays).extend grows) t.database issued
  · have next := mine.step aead roundTrips stored listed seals careful done
    have same : view ⟨v.processes.set label.process other, other.database, v.key, other.issued,
        label.record v.created other.issued⟩ other = other := by
      rw [view, ← key]
    rw [same]
    exact next

/-- In every run of processes that write over and read back only rows that are there and not over, work carries
the secrets its execution was created with, what is stored opens for its own execution only, and nothing is stored
with an execution that is over. -/
theorem secrets_private (aead : Aead) (roundTrips : RoundTrips) {start v : Vault}
    (started : Started start)
    (run : Runs.Reaches step Attentive start v) :
    (∀ s ∈ v.processes, ∀ node execution pool secrets,
      Reply.work node execution pool secrets ∈ s.replies →
      v.created.get execution.id = some (execution.id, secrets)) ∧
    (∀ id row encrypted, v.database.rows.get id = some row → row.secrets = some encrypted →
      ∀ other ≠ id, decryptSecrets v.key other encrypted = none) ∧
    ∀ id row, v.database.rows.get id = some row → row.status.terminal = true →
      row.secrets = none := by
  have guarded : Guarded v := run.invariant started.guarded (fun guarded attentive stepped =>
    guarded.step aead roundTrips attentive stepped)
  refine ⟨fun s member node execution pool secrets sent => ?_,
    fun id row encrypted found held other differ => ?_,
    fun id row found => (guarded.stored.rows id row found).ended⟩
  · exact (guarded.processes s member).replies _ sent
  · obtain ⟨nonce, secrets, length, -, given, rfl⟩ :=
      (guarded.stored.rows id row found).own encrypted held
    have own : row.id = id := Keyed.key_of_get found
    exact decryptSecrets_other aead length (own ▸ differ) given

end Vault

end

/-! Stand-ins that encrypt nothing but keep what they are given apart: numbers are written in unary, lists with their
length, and a sealed text carries key, nonce and associated data in front. -/

namespace Demo

def writeNat (n : Nat) : Bytes := List.replicate n 1 ++ [0]

def readNat : Bytes → Nat × Bytes
  | [] => (0, [])
  | byte :: rest =>
    if byte = 1 then
      match readNat rest with
      | (n, after) => (n + 1, after)
    else (0, rest)

def writeByte (byte : UInt8) : Bytes := [byte]

def readByte : Bytes → UInt8 × Bytes
  | [] => (0, [])
  | byte :: rest => (byte, rest)

section
variable {α : Type}

def writeList (write : α → Bytes) (items : List α) : Bytes :=
  writeNat items.length ++ items.flatMap write

def readMany (read : Bytes → α × Bytes) : Nat → Bytes → List α × Bytes
  | 0, bytes => ([], bytes)
  | count + 1, bytes =>
    match read bytes with
    | (item, rest) =>
      match readMany read count rest with
      | (items, after) => (item :: items, after)

def readList (read : Bytes → α × Bytes) (bytes : Bytes) : List α × Bytes :=
  match readNat bytes with
  | (count, rest) => readMany read count rest

theorem readNat_writeNat (n : Nat) (rest : Bytes) : readNat (writeNat n ++ rest) = (n, rest) := by
  induction n with
  | zero => rfl
  | succ n ih =>
    have shape : writeNat (n + 1) ++ rest = 1 :: (writeNat n ++ rest) := rfl
    rw [shape, readNat, if_pos rfl, ih]

theorem readList_writeList {write : α → Bytes} {read : Bytes → α × Bytes}
    (reads : ∀ item rest, read (write item ++ rest) = (item, rest)) (items : List α)
    (rest : Bytes) :
    readList read (writeList write items ++ rest) = (items, rest) := by
  have many : readMany read items.length (items.flatMap write ++ rest) = (items, rest) := by
    induction items with
    | nil => rfl
    | cons item others ih => simp only [List.length_cons, List.flatMap_cons, List.append_assoc,
        readMany, reads, ih]
  rw [readList, writeList, List.append_assoc, readNat_writeNat]
  exact many

end

def writeChar (c : Char) : Bytes := writeNat c.toNat

def readChar (bytes : Bytes) : Char × Bytes :=
  match readNat bytes with
  | (n, rest) => (Char.ofNat n, rest)

theorem readChar_writeChar (c : Char) (rest : Bytes) : readChar
    (writeChar c ++ rest) = (c, rest) := by
  simp [readChar, writeChar, readNat_writeNat]

def writeString (text : String) : Bytes := writeList writeChar text.toList

def readString (bytes : Bytes) : String × Bytes :=
  match readList readChar bytes with
  | (chars, rest) => (String.ofList chars, rest)

def writeEntry (entry : String × String) : Bytes := writeString entry.1 ++ writeString entry.2

def readEntry (bytes : Bytes) : (String × String) × Bytes :=
  match readString bytes with
  | (name, rest) =>
    match readString rest with
    | (value, after) => ((name, value), after)

theorem readString_writeString (text : String) (rest : Bytes) : readString
    (writeString text ++ rest) = (text, rest) := by
  simp [readString, writeString, readList_writeList readChar_writeChar]

theorem readEntry_writeEntry (entry : String × String) (rest : Bytes) :
    readEntry (writeEntry entry ++ rest) = (entry, rest) := by
  simp [readEntry, writeEntry, readString_writeString]

def sealed (key nonce aad plain : Bytes) : Bytes :=
  writeList writeByte key ++ (writeList writeByte nonce ++ (writeList writeByte aad ++ plain))

/-- The parts of a sealed text. -/
def parts (bytes : Bytes) : Bytes × Bytes × Bytes × Bytes :=
  match readList readByte bytes with
  | (key, afterKey) =>
    match readList readByte afterKey with
    | (nonce, afterNonce) =>
      match readList readByte afterNonce with
      | (aad, plain) => (key, nonce, aad, plain)

theorem parts_sealed (key nonce aad plain : Bytes) : parts
    (sealed key nonce aad plain) = (key, nonce, aad, plain) := by
  have reads := readList_writeList (α := UInt8)
    (fun _ _ => rfl : ∀ item rest, readByte (writeByte item ++ rest) = (item, rest))
  simp [parts, sealed, reads]

def unsealed (key nonce aad bytes : Bytes) : Option Bytes :=
  let (key', nonce', aad', plain) := parts bytes
  if key = key' ∧ nonce = nonce' ∧ aad = aad' then some plain else none

theorem unsealed_sealed (key nonce aad plain key' nonce' aad' : Bytes) :
    unsealed key' nonce' aad' (sealed key nonce aad plain) =
      if key' = key ∧ nonce' = nonce ∧ aad' = aad then some plain else none := by
  simp only [unsealed, parts_sealed]

abbrev sealing : Crates :=
  { crates with
    mapToVec := fun table => writeList writeEntry table.values
    mapFromSlice := fun bytes =>
      let entries := (readList readEntry bytes).1
      if nodup : (entries.map Prod.fst).Nodup then some ⟨entries, nodup⟩ else none
    sealInPlace := sealed
    openInPlace := unsealed }

theorem sealing_aead : @Aead sealing := by
  refine @Aead.mk sealing (fun key nonce aad plain => ?_)
    (fun key nonce aad plain key' nonce' aad' plain' opened => ?_)
  · exact (unsealed_sealed ..).trans (if_pos ⟨rfl, rfl, rfl⟩)
  · have matched := (unsealed_sealed key nonce aad plain key' nonce' aad').symm.trans opened
    split_ifs at matched with same
    exact same

theorem sealing_roundTrips : @RoundTrips sealing := by
  intro secrets
  have read := readList_writeList readEntry_writeEntry secrets.values []
  rw [List.append_nil] at read
  have entries : (readList readEntry (writeList writeEntry secrets.values)).1 =
    secrets.values := by rw [read]
  change (if nodup : ((readList readEntry (writeList writeEntry secrets.values)).1.map
    Prod.fst).Nodup then
    some (Keyed.mk (readList readEntry (writeList writeEntry secrets.values)).1 nodup) else none) =
      some secrets
  simp only [entries]
  rw [dif_pos secrets.nodup]

/-- One process on an empty database. -/
def vault : Vault := ⟨[empty], empty.database, [7], [], ∅⟩

def secretRequest : CreateExecution := ⟨none, some "e", .null, ∅, Keyed.insert ∅ ("k", "v"), true⟩

def asking : List Label :=
  [.authenticate node "credential" none .nextWork, .enter 0 ⟨0, 0, some 8, none⟩]

/-- An execution with a secret is created and its work is given out. -/
def giving : List VaultLabel :=
  (installation ++ creating).map (.handle 0) ++
    [.create 0 8 secretRequest (List.replicate 12 5) 0] ++
    (finish 0 3 ++ asking ++ finish 0 3).map (.handle 0)

/-- The controller restarts and gives the execution to the node again, whose completion of the first delivery
arrives before the secrets are read. -/
def givingAgain : List VaultLabel :=
  (Label.restart (fun _ => 0) 0 :: nodeRequest 0
    (.register ⟨"node", 4000, 4000, none, none, false, []⟩) 3 ++ asking ++
    ([.op 0 true, .op 0 true, .authenticate node "credential" none
      (.completeExecution 8 ⟨none, none, none, none, false⟩),
      .enter 1 ⟨5000000, 0, none, none⟩] : List Label) ++ finish 1 4 ++ finish 0 1).map (.handle 0)

/-- The execution came with other secrets than it was created with. -/
def stripped (created : History) : Reply → Bool
  | .work _ execution _ secrets => !(created.get execution.id).any
      (fun entry => entry.2.values = secrets.values)
  | _ => false

/-- The execution came with these secrets. -/
def carries (secrets : Keyed.Table String String) : Reply → Bool
  | .work _ _ _ others => decide (others.values = secrets.values)
  | _ => false

end Demo

namespace Vault

/-- In a run that gives the work out, it carries the secret that the execution was created with. -/
theorem secrets_private_given :
    ∃ v, Runs.Reaches (@step Demo.sealing) (@Attentive Demo.sealing) Demo.vault v ∧
      ∃ s ∈ v.processes, ∃ node execution pool secrets,
        Reply.work node execution pool secrets ∈ s.replies ∧ secrets.values = [("k", "v")] ∧
          v.created.get execution.id = some (execution.id, secrets) := by
  obtain ⟨v, run, there⟩ := Runs.exists_reaches (@step Demo.sealing)
    (@Attentive Demo.sealing) Demo.vault Demo.giving
    (fun v => v.processes.any (fun s => s.replies.any (Demo.carries Demo.secretRequest.secrets)))
      (by decide +kernel)
  obtain ⟨s, member, given⟩ := List.any_eq_true.mp there
  obtain ⟨reply, sent, carries⟩ := List.any_eq_true.mp given
  have claim := @secrets_private Demo.sealing Demo.sealing_aead Demo.sealing_roundTrips Demo.vault v
    ⟨fun s member => (by obtain rfl := List.mem_singleton.mp member; exact ⟨rfl, rfl, rfl⟩),
      rfl, rfl, rfl⟩ run
  cases reply with
  | work node execution pool secrets =>
    exact ⟨v, run, s, member, node, execution, pool, secrets, sent, of_decide_eq_true carries,
      claim.1 s member node execution pool secrets sent⟩
  | _ => cases carries

/-- After a restart the completion of an earlier delivery takes the secrets away from the work. -/
theorem secrets_lost :
    ¬ ∀ [Crates], Aead → RoundTrips → ∀ start v : Vault, Started start →
      Runs.Reaches step (fun _ _ => True) start v →
      ∀ s ∈ v.processes, ∀ node execution pool secrets,
        Reply.work node execution pool secrets ∈ s.replies →
        v.created.get execution.id = some (execution.id, secrets) := by
  intro claim
  obtain ⟨v, run, there⟩ := Runs.exists_reaches (@step Demo.sealing) (fun _ _ => True) Demo.vault
    (Demo.giving ++ Demo.givingAgain)
    (fun v => v.processes.any (fun s => s.replies.any (Demo.stripped v.created)))
      (by decide +kernel)
  obtain ⟨s, member, given⟩ := List.any_eq_true.mp there
  obtain ⟨reply, sent, lacks⟩ := List.any_eq_true.mp given
  cases reply with
  | work node execution pool secrets =>
    have made := @claim Demo.sealing Demo.sealing_aead Demo.sealing_roundTrips Demo.vault v
      ⟨fun s member => (by obtain rfl := List.mem_singleton.mp member; exact ⟨rfl, rfl, rfl⟩),
        rfl, rfl, rfl⟩ run
      s member node execution pool secrets sent
    simp [Demo.stripped, made] at lacks
  | _ => cases lacks

end Vault
end Scraperack
