import Scraperack.Submissions

/-! Executions across a crash. The row of an execution is in the table before the execution is in
memory and stays there as long as it is; the process may stop between any two calls, and the
next one finds in the table every execution that the last one had. -/

namespace Scraperack

/-- The row has all of the execution. The time of its creation stays what it was. -/
def Row.Stores (row : Row) (execution : Execution) : Prop :=
  executionFromRow row = { execution with createdAtMs := row.createdAtMs }

theorem Row.Stores.status {row : Row} {execution : Execution} (stores : row.Stores execution) :
    row.status = execution.status := congrArg Execution.status stores

section
variable [Crates]

theorem upsertExecution_row (rows : Keyed Row.id) (execution : Execution) :
    ∃ row, row.Stores execution ∧ ∀ id, (upsertExecution rows execution).get id =
      if id = execution.id then some row else rows.get id := by
  unfold upsertExecution
  split <;> refine ⟨_, ?_, fun id => Keyed.get_insert _ _ id⟩ <;> rfl

/-- After several upserts a row has all of what was last written for it. -/
theorem upserts_last (copies : List Execution) (rows : Keyed Row.id) {id : Uuid} {last : Execution}
    (newest : (copies.filter (fun execution => execution.id = id)).getLast? = some last) :
    ∃ row, (copies.foldl upsertExecution rows).get id = some row ∧ row.Stores last := by
  induction copies using List.reverseRecOn with
  | nil => cases newest
  | append_singleton copies copy ih =>
    obtain ⟨row, stores, written⟩ := upsertExecution_row (copies.foldl upsertExecution rows) copy
    rw [List.foldl_append, List.foldl_cons, List.foldl_nil, written]
    rw [List.filter_append] at newest
    by_cases same : copy.id = id
    · subst same
      obtain rfl : copy = last := by simpa using newest
      exact ⟨row, if_pos rfl, stores⟩
    · rw [if_neg (Ne.symm same)]
      exact ih (by simpa [same] using newest)

end

namespace System

/-- What the next call of a handler in flight comes to. -/
inductive Went [Crates] (s : System) (index : Nat) : Bool → System → Prop where
  | answered (succeeds : Bool) (reply : Reply)
      (there : s.inflight[index]? = some (.running [] reply)) :
      Went s index succeeds (s.answer (s.inflight.eraseIdx index) reply)
  | called (op : Op) (rest : List Op) (before after : Reply) (next : System)
      (there : s.inflight[index]? = some (.running (op :: rest) before))
      (plain : op.inserts = false) (done : s.runOp rest before op = some (next, rest, after)) :
      Went s index true { next with inflight := s.inflight.set index (.running rest after) }
  | admitted (execution : Execution) (secrets : Bytes) (queue : Bool) (rest : List Op)
      (before : Reply) (database : Database)
      (there : s.inflight[index]? =
        some (.running (.insertExecution execution secrets queue :: rest) before))
      (stored : s.database.insertExecution execution secrets = some (database, true)) :
      Went s index true
        { s with
          cluster := (admitExecution execution queue s.cluster).cluster
          database := database
          inflight := s.inflight.set index
            (.running (admitExecution execution queue s.cluster).ops
              (admitExecution execution queue s.cluster).reply) }
  | rejected (execution : Execution) (secrets : Bytes) (queue : Bool) (rest : List Op)
      (before : Reply) (database : Database)
      (there : s.inflight[index]? =
        some (.running (.insertExecution execution secrets queue :: rest) before))
      (stored : s.database.insertExecution execution secrets = some (database, false))
      (error : ApiError) :
      Went s index true
        { s with
          database := database
          inflight := s.inflight.set index (.running [] (.refused error)) }
  | failed (succeeds : Bool) (op : Op) (rest : List Op) (reply : Reply)
      (there : s.inflight[index]? = some (.running (op :: rest) reply))
      (error : succeeds = false ∨ s.runOp rest reply op = none) :
      Went s index succeeds (s.answer (s.inflight.eraseIdx index) (.refused internalError))
  | ignored (artifact : String) (rest : List Op) (reply : Reply)
      (there : s.inflight[index]? = some (.running (.removeArtifact artifact :: rest) reply)) :
      Went s index false { s with inflight := s.inflight.set index (.running rest reply) }

theorem op_cases [Crates] {s t : System} {index : Nat} {succeeds : Bool}
    (stepped : s.step (.op index succeeds) = some t) : Went s index succeeds t := by
  simp only [step] at stepped
  split at stepped
  · rename_i reply there
    exact Option.some.inj stepped ▸ .answered succeeds reply there
  · rename_i op rest reply there
    cases succeeds with
    | false =>
      simp only [callOp, Bool.false_eq_true, ↓reduceIte] at stepped
      cases op with
      | unlock => cases stepped
      | removeArtifact artifact =>
        exact Option.some.inj stepped ▸ .ignored artifact rest reply there
      | _ => exact Option.some.inj stepped ▸ .failed false _ rest reply there (.inl rfl)
    | true =>
      simp only [callOp, ↓reduceIte] at stepped
      cases done : s.runOp rest reply op with
      | none =>
        simp only [done, Option.some.injEq] at stepped
        exact stepped ▸ .failed true op rest reply there (.inr done)
      | some outcome =>
        obtain ⟨next, ops, after⟩ := outcome
        simp only [done, Option.some.injEq] at stepped
        subst stepped
        cases plain : op.inserts with
        | false =>
          obtain rfl := (runOp_frame plain done).2.2.2
          exact .called op ops reply after next there plain done
        | true =>
          cases op with
          | insertExecution execution secrets queue =>
            simp only [runOp, Option.map_eq_some_iff] at done
            obtain ⟨⟨database, accepted⟩, stored, outcome⟩ := done
            cases accepted with
            | true =>
              simp only [↓reduceIte, Prod.mk.injEq] at outcome
              obtain ⟨rfl, rfl, rfl⟩ := outcome
              exact .admitted execution secrets queue rest reply database there stored
            | false =>
              simp only [Bool.false_eq_true, ↓reduceIte, Prod.mk.injEq] at outcome
              obtain ⟨rfl, rfl, rfl⟩ := outcome
              exact .rejected execution secrets queue rest reply database there stored _
          | _ => cases plain
  · cases stepped

/-- What is in memory has a row that is not over, and unless something is still to be written for
it, the row has all of it. -/
structure Backed (memory : Option Execution) (unwritten : List Execution) (row : Option Row) :
    Prop where
  present : ∀ execution, memory = some execution →
    ∃ found, row = some found ∧ found.status.terminal = false
  stored : ∀ execution, memory = some execution → unwritten = [] →
    ∃ found, row = some found ∧ found.Stores execution

namespace Backed
variable {memory : Option Execution} {unwritten here rest : List Execution} {row : Option Row}

theorem absent (unwritten : List Execution) (row : Option Row) : Backed none unwritten row :=
  ⟨fun _ held => (by cases held), fun _ held => (by cases held)⟩

/-- The row may go only when it is over, and then the execution is not in memory. -/
theorem kept (backed : Backed memory unwritten row) {next : Option Row}
    (kept : next = row ∨ next = none ∧ ∃ found, row = some found ∧ found.status.terminal = true) :
    Backed memory unwritten next := by
  rcases kept with rfl | ⟨-, found, there, ended⟩
  · exact backed
  · cases held : memory with
    | none => exact absent unwritten next
    | some execution =>
      obtain ⟨other, same, active⟩ := backed.present execution held
      obtain rfl := Option.some.inj (same.symm.trans there)
      rw [ended] at active
      cases active

/-- Copies have been saved. They came first of those to be written, and what is in memory is the
last of them, unless more are to come. -/
theorem saved (recorded : Recorded memory (here ++ rest) row) {last : Execution} {found : Row}
    (newest : here.getLast? = some last) (stores : found.Stores last) :
    Backed memory rest (some found) := by
  refine ⟨fun execution held => ⟨found, rfl, ?_⟩, fun execution held ends => ⟨found, rfl, ?_⟩⟩
  · rw [stores.status]
    exact recorded.waiting held (List.mem_append_left _ (List.mem_of_getLast? newest))
  · subst ends
    rw [List.append_nil] at recorded
    rcases recorded.stored execution held with same | ⟨none, -⟩
    · exact Option.some.inj (newest.symm.trans same) ▸ stores
    · rw [none] at newest
      cases newest

/-- A section leaves what it changes to be written. -/
theorem afterSection {c : Cluster} {result : Section} {id : Uuid}
    (backed : Backed (c.executions.get id) unwritten row) (written : Written c result id) :
    Backed (result.cluster.executions.get id) (unwritten ++ result.writesFor id) row := by
  cases written with
  | nothing none same =>
    rw [none, List.append_nil, same]
    exact backed
  | copies before after present holds last all =>
    refine ⟨fun _ _ => backed.present before present, fun execution _ ends => ?_⟩
    rw [(List.append_eq_nil_iff.mp ends).2] at last
    cases last
  | completion before after present gone ended only =>
    rw [gone]
    exact absent _ row

end Backed

/-- Memory and the table fit together, whatever handlers in flight have still to write. -/
structure Durable (s : System) : Prop where
  sound : Sound s
  seated : Seated s.cluster
  follow : RowsFollow s
  bare : ∀ stored, s.database.cluster = some stored → stored.executions = ∅
  backed : ∀ id, Backed (s.cluster.executions.get id) (s.unwritten id) (s.database.rows.get id)

section
variable [Crates] {s t : System} {label : Label}

theorem inOrder_called {index : Nat} {op : Op} {rest : List Op} {before : Reply}
    {outcome : System × List Op × Reply}
    (there : s.inflight[index]? = some (.running (op :: rest) before))
    (done : s.runOp rest before op = some outcome)
    (ordered : s.inOrder (.op index true) = true) : s.overtakes index op.writes = false := by
  simpa [inOrder, there, done] using ordered

theorem inOrder_failed {index : Nat} {succeeds : Bool} {op : Op} {rest : List Op} {reply : Reply}
    (there : s.inflight[index]? = some (.running (op :: rest) reply))
    (error : succeeds = false ∨ s.runOp rest reply op = none)
    (ordered : s.inOrder (.op index succeeds) = true) :
    (op :: rest).all (fun op => op.copies.isEmpty) = true := by
  simp only [inOrder, there] at ordered
  rcases error with rfl | failed
  · simpa using ordered
  · simpa [failed] using ordered

/-- A call in its turn that creates no row. -/
theorem Durable.called (durable : s.Durable) {index : Nat} {op : Op} {rest : List Op}
    {before after : Reply} {next : System}
    (there : s.inflight[index]? = some (.running (op :: rest) before))
    (plain : op.inserts = false) (done : s.runOp rest before op = some (next, rest, after))
    (turn : s.overtakes index op.writes = false) (id : Uuid) :
    let after : System := { next with inflight := s.inflight.set index (.running rest after) }
    Backed (after.cluster.executions.get id) (after.unwritten id)
      (after.database.rows.get id) := by
  intro t
  have backed := durable.backed id
  have memory : t.cluster = s.cluster := (runOp_frame plain done).1
  rw [memory]
  rcases unwritten_advanced there turn (t := t) rfl id with ⟨none, same⟩ | ⟨some, split⟩
  · rw [same]
    rcases runOp_kept plain done none with kept | ⟨rfl, -⟩
    · exact backed.kept kept
    · obtain ⟨-, held⟩ := durable.follow.reserved _ _ _ id (List.mem_of_getElem? there)
        List.mem_cons_self rfl
      rw [held.absent]
      exact .absent _ _
  · have recorded := durable.follow.recorded id
    rw [split] at recorded
    cases op with
    | completeExecution execution =>
      obtain ⟨write, member⟩ := List.exists_mem_of_ne_nil _ some
      obtain rfl := List.mem_singleton.mp (List.mem_filter.mp member).1
      rw [(recorded.completion member (durable.follow.completing _ _ _
        (List.mem_of_getElem? there) List.mem_cons_self)).1]
      exact .absent _ _
    | saveExecution copy =>
      simp only [runOp, Option.some.injEq, Prod.mk.injEq] at done
      obtain ⟨rfl, -⟩ := done
      obtain ⟨row, found, stores⟩ := upserts_last [copy] s.database.rows
        (List.getLast?_eq_some_getLast some)
      have stored : t.database.rows.get id = Option.some row := found
      rw [stored]
      exact .saved recorded (List.getLast?_eq_some_getLast some) stores
    | saveExecutions copies =>
      simp only [runOp, Option.some.injEq, Prod.mk.injEq] at done
      obtain ⟨rfl, -⟩ := done
      obtain ⟨row, found, stores⟩ := upserts_last copies s.database.rows
        (List.getLast?_eq_some_getLast some)
      have stored : t.database.rows.get id = Option.some row := found
      rw [stored]
      exact .saved recorded (List.getLast?_eq_some_getLast some) stores
    | _ => exact absurd rfl some

omit [Crates] in
/-- A handler that ends early with no copies left takes no write with it for what is in memory. -/
theorem Durable.failed (durable : s.Durable) {index : Nat} {ops : List Op} {before reply : Reply}
    (there : s.inflight[index]? = some (.running ops before))
    (bare : ops.all (fun op => op.copies.isEmpty) = true) (id : Uuid) :
    Backed (s.cluster.executions.get id)
      ((s.answer (s.inflight.eraseIdx index) reply).unwritten id) (s.database.rows.get id) := by
  have backed := durable.backed id
  cases held : s.cluster.executions.get id with
  | none => exact .absent _ _
  | some execution =>
    rw [held] at backed
    have nothing : (Frame.running ops before).writes.filter (fun execution => execution.id = id) =
        [] := by
      refine List.filter_eq_nil_iff.mpr (fun write member own => ?_)
      have due : write ∈ s.unwritten id := by
        rw [unwritten_split there]
        exact List.mem_append_right _ (List.mem_append_left _ (List.mem_filter.mpr ⟨member, own⟩))
      have waits := (durable.follow.recorded id).waiting held due
      rcases mem_writes member with ⟨op, inside, copies⟩ | completes
      · rw [List.isEmpty_iff.mp (List.all_eq_true.mp bare op inside)] at copies
        cases copies
      · rw [durable.follow.completing _ _ write (List.mem_of_getElem? there) completes] at waits
        cases waits
    rw [unwritten_split there, nothing, List.nil_append] at backed
    rw [unwritten_eraseIdx (t := s.answer (s.inflight.eraseIdx index) reply) rfl]
    exact backed

/-- The row of a new execution is in the table before the execution is in memory. -/
theorem Durable.inserted (durable : s.Durable) {index : Nat} {execution : Execution}
    {secrets : Bytes} {queue accepted : Bool} {rest ops : List Op} {before after : Reply}
    {database : Database}
    (there : s.inflight[index]? =
      some (.running (.insertExecution execution secrets queue :: rest) before))
    (stored : s.database.insertExecution execution secrets = some (database, accepted))
    (inflight : t.inflight = s.inflight.set index (.running ops after))
    (rows : t.database.rows = database.rows)
    (memory : ∀ id, id ≠ execution.id → t.cluster.executions.get id = s.cluster.executions.get id)
    (outcome : (accepted = true ∧ ∃ copy, ops = [.saveExecution copy, .unlock] ∧
        copy.id = execution.id) ∨
      (ops = [.deleteExecution execution.id, .unlock] ∨ ops = []) ∧
        t.cluster.executions.get execution.id = none) (id : Uuid) :
    Backed (t.cluster.executions.get id) (t.unwritten id) (t.database.rows.get id) := by
  have present := List.mem_of_getElem? there
  obtain ⟨shape, held⟩ := durable.follow.reserved _ _ _ execution.id present List.mem_cons_self rfl
  obtain ⟨others, -, own⟩ := insertExecution_get stored
  obtain ⟨-, queued, -⟩ := (durable.sound.inserting ⟨secrets, queue, rest, before, there⟩).1
  have bare : (Frame.running (.insertExecution execution secrets queue :: rest) before).writes =
      [] := by
    rcases shape with ⟨shape, -⟩ | shape <;> rw [shape] <;> rfl
  have was := unwritten_split there
  have now := unwritten_set there inflight
  simp only [bare, List.filter_nil, List.nil_append] at was
  by_cases other : id = execution.id
  · subst other
    rcases outcome with ⟨rfl, copy, rfl, same⟩ | ⟨-, gone⟩
    · obtain ⟨row, found, records⟩ := own rfl (by rw [queued]; rfl)
      refine ⟨fun _ _ => ⟨row, by rw [rows, found], by rw [records.status, queued]; rfl⟩,
        fun _ _ nothing => ?_⟩
      rw [now, List.append_eq_nil_iff, List.append_eq_nil_iff] at nothing
      simp [Frame.writes, Op.writes, Op.copies, same] at nothing
    · rw [gone]
      exact .absent _ _
  · have writes : (Frame.running ops after).writes.filter (fun execution => execution.id = id) =
        [] := by
      rcases outcome with ⟨-, copy, rfl, same⟩ | ⟨rfl | rfl, -⟩
      · simp [Frame.writes, Op.writes, Op.copies, same, Ne.symm other]
      · rfl
      · rfl
    rw [memory id other, now, writes, List.nil_append, ← was, rows]
    exact (durable.backed id).kept (others id other)

omit [Crates] in
theorem contains_foldl_insert (values : List Execution) (table : Keyed Execution.id)
    {execution : Execution} (member : execution ∈ values) :
    (values.foldl Keyed.insert table).contains execution.id = true := by
  have stays (values : List Execution) (table : Keyed Execution.id) {id : Uuid}
      (there : table.contains id = true) : (values.foldl Keyed.insert table).contains id = true := by
    induction values generalizing table with
    | nil => exact there
    | cons value rest ih => exact ih _ (by simp [Keyed.contains_insert, there])
  induction values generalizing table with
  | nil => cases member
  | cons value rest ih =>
    rcases List.mem_cons.mp member with rfl | later
    · exact stays rest _ (by simp [Keyed.contains_insert])
    · exact ih _ later

omit [Crates] in
theorem requeueRow_active {row : Row} (active : row.status.terminal = false) :
    (Database.requeueRow row).status = .queued ∧
      executionFromRow (Database.requeueRow row) = (executionFromRow row).requeued row.pool := by
  rw [Database.requeueRow, if_pos (by simp [active])]
  exact ⟨rfl, rfl⟩

omit [Crates] in
theorem active_of_requeueRow {row : Row} (queued : (Database.requeueRow row).status = .queued) :
    row.status.terminal = false := by
  unfold Database.requeueRow at queued
  split_ifs at queued with active
  · simpa using active
  · rw [queued]
    rfl

/-- The executions of a process that starts are those of the rows that are not over. -/
theorem loaded_iff {fresh : String → Uuid} {now : Nat}
    (stepped : s.step (.restart fresh now) = some t)
    (bare : ∀ stored, s.database.cluster = some stored → stored.executions = ∅) (id : Uuid)
    (execution : Execution) :
    t.cluster.executions.get id = some execution ↔ ∃ row, s.database.rows.get id = some row ∧
      row.status.terminal = false ∧
      execution = (executionFromRow row).requeued row.pool := by
  obtain ⟨served, -, -⟩ := restart_cases stepped
  simp only [serve, Option.map_eq_some_iff, Prod.mk.injEq, Option.getD_none] at served
  obtain ⟨pruned, -, loaded, -⟩ := served
  have none_before : (migrateLegacy fresh (s.database.cluster.getD Cluster.empty)).executions =
      ∅ := by
    refine (migrateLegacy_sizes fresh _).executions ?_
    cases found : s.database.cluster with
    | none => rfl
    | some cluster => exact bare cluster found
  rw [← loaded]
  dsimp only
  rw [none_before]
  have listed (found : Execution) : found ∈ s.database.loadActiveExecutions.2 ↔ ∃ row,
      s.database.rows.get found.id = some row ∧ row.status.terminal = false ∧
        found = (executionFromRow row).requeued row.pool := by
    simp only [Database.loadActiveExecutions, List.mem_map, List.mem_filter, decide_eq_true_eq]
    constructor
    · rintro ⟨after, ⟨member, queued⟩, rfl⟩
      have there := (Keyed.mem_values_iff _ _).mp member
      simp only [Database.requeueRows, Keyed.get_map] at there
      obtain ⟨row, earlier, rfl⟩ := Option.map_eq_some_iff.mp there
      have active := active_of_requeueRow queued
      exact ⟨row, earlier, active, (requeueRow_active active).2⟩
    · rintro ⟨row, there, active, rfl⟩
      obtain ⟨queued, same⟩ := requeueRow_active active
      refine ⟨Database.requeueRow row, ⟨?_, queued⟩, same⟩
      rw [Keyed.mem_values_iff]
      have own : (Database.requeueRow row).id = row.id := congrArg Execution.id same
      have present : s.database.rows.get row.id = some row := there
      simp [Database.requeueRows, own, present]
  constructor
  · intro present
    have own := Keyed.key_of_get present
    subst own
    rcases get_foldl_insert _ present with member | before
    · exact (listed execution).mp member
    · cases before
  · rintro ⟨row, there, active, rfl⟩
    have own : row.id = id := Keyed.key_of_get there
    subst own
    have member := (listed ((executionFromRow row).requeued row.pool)).mpr ⟨row, there, active, rfl⟩
    obtain ⟨found, present⟩ := (Keyed.contains_iff _ _).mp (contains_foldl_insert _ ∅ member)
    rcases get_foldl_insert _ present with inside | before
    · obtain ⟨other, earlier, -, same⟩ := (listed found).mp inside
      rw [Keyed.key_of_get present] at earlier
      obtain rfl := Option.some.inj (earlier.symm.trans there)
      exact same ▸ present
    · cases before

theorem Durable.restart (durable : s.Durable) {fresh : String → Uuid} {now : Nat}
    (stepped : s.step (.restart fresh now) = some t) : t.Durable := by
  have stored : (s.database.cluster.getD Cluster.empty).executions = ∅ := by
    cases found : s.database.cluster with
    | none => rfl
    | some cluster => exact durable.bare cluster found
  have loaded := loaded_of_restart stepped stored (fun id row found => by
    by_contra unknown
    rw [(durable.follow.issued id unknown).2] at found
    cases found)
  refine ⟨loaded.started.sound, loaded.seated, loaded.follow, bare_step stepped durable.bare,
    fun id => ?_⟩
  have quiet (id : Uuid) : t.unwritten id = [] := by
    rw [unwritten, loaded.started.quiet]
    rfl
  have left (row : Row) (there : s.database.rows.get id = some row)
      (active : row.status.terminal = false) :
      t.database.rows.get id = some (Database.requeueRow row) := by
    obtain ⟨served, -, -⟩ := restart_cases stepped
    simp only [serve, Option.map_eq_some_iff, Prod.mk.injEq] at served
    obtain ⟨pruned, kept, -, same⟩ := served
    have requeued : s.database.requeueRows.rows.get id = some (Database.requeueRow row) := by
      simp [Database.requeueRows, there]
    rw [← same]
    rcases prune_get kept id with stays | ⟨-, other, found, ended⟩
    · exact stays.trans requeued
    · obtain rfl := Option.some.inj (requeued.symm.trans found)
      rw [(requeueRow_active active).1] at ended
      cases ended
  refine ⟨fun execution held => ?_, fun execution held _ => ?_⟩ <;>
    obtain ⟨row, there, active, rfl⟩ := (loaded_iff stepped durable.bare id execution).mp held
  · exact ⟨_, left row there active, by rw [(requeueRow_active active).1]; rfl⟩
  · refine ⟨_, left row there active, ?_⟩
    rw [Row.Stores, (requeueRow_active active).2]
    unfold Database.requeueRow
    split_ifs <;> rfl

theorem Durable.step (durable : s.Durable) (ordered : s.Ordered label)
    (stepped : s.step label = some t) : t.Durable := by
  obtain ⟨inOrder, spares⟩ := ordered
  cases same : restarts label with
  | true =>
    cases label with
    | restart fresh now => exact durable.restart stepped
    | _ => cases same
  | false =>
    refine ⟨durable.sound.step stepped same, seated_step durable.sound spares durable.seated stepped
      same, durable.follow.step durable.sound durable.seated inOrder stepped same,
      bare_step stepped durable.bare, fun id => ?_⟩
    by_cases calls : ∃ index succeeds, label = .op index succeeds
    · obtain ⟨index, succeeds, rfl⟩ := calls
      cases op_cases stepped with
      | answered _ reply there =>
        have calm : Calm s (s.answer (s.inflight.eraseIdx index) reply) := .eraseIdx there rfl reply
        rw [calm.cluster, unwritten, calm.writes]
        exact (durable.backed id).kept (calm.rows id)
      | called op rest before after next there plain done =>
        exact durable.called there plain done (inOrder_called there done inOrder) id
      | admitted execution secrets queue rest before database there stored =>
        obtain ⟨memory, written⟩ := admitExecution_written execution queue s.cluster
        refine durable.inserted there stored rfl rfl memory ?_ id
        rcases written with ⟨copy, only, own, -⟩ | ⟨only, gone⟩
        · exact .inl ⟨rfl, copy, only, own⟩
        · exact .inr ⟨.inl only, gone⟩
      | rejected execution secrets queue rest before database there stored error =>
        obtain ⟨⟨absent, -⟩, -⟩ := durable.sound.inserting ⟨secrets, queue, rest, before, there⟩
        exact durable.inserted (t := { s with
          database := database
          inflight := s.inflight.set index (.running [] (.refused error)) })
          there stored rfl rfl (fun _ _ => rfl) (.inr ⟨.inr rfl, absent⟩) id
      | failed _ op rest reply there error =>
        exact durable.failed there (inOrder_failed there error inOrder) id
      | ignored artifact rest reply there =>
        have same : (s.inflight.set index (.running rest reply)).flatMap Frame.writes =
            s.inflight.flatMap Frame.writes := by
          rw [writes_set there, writes_split there]
          rfl
        rw [unwritten, same]
        exact durable.backed id
    · rcases step_outcome stepped same (fun index succeeds equal =>
        calls ⟨index, succeeds, equal⟩) with calm | ⟨commit, result, performed⟩
      · rw [calm.cluster, unwritten, calm.writes]
        exact (durable.backed id).kept (calm.rows id)
      · rw [performed.cluster, unwritten, performed.writes, List.filter_append, performed.rows]
        exact (durable.backed id).afterSection ((Commit.ending performed.ran).written
          (fits_of_allows performed.allowed) (.inl durable.seated))

omit [Crates] in
theorem Blank.durable (blank : Blank s) (bare : ∀ id, s.database.rows.get id = none) :
    s.Durable := by
  refine ⟨blank.started.sound, blank.seated, (blank.loaded bare).follow, fun stored found => ?_,
    fun id => ?_⟩
  · rw [blank.unsaved] at found
    cases found
  · rw [blank.empty]
    exact .absent _ _

/-- The process may stop at any point of a run in which calls come in order and no deleted environment
takes its pool from an active execution: the next one has every execution that was in memory, queued
and as it was submitted. If nothing was in flight it has all that was known of each, requeued. -/
theorem crash_keeps_executions {s t u : System} {fresh : String → Uuid} {now : Nat}
    (blank : Blank s) (bare : ∀ id, s.database.rows.get id = none) (silent : s.replies = [])
    (run : Runs.Reaches step Ordered s t) (stepped : t.step (.restart fresh now) = some u) :
    (∀ id execution, t.cluster.executions.get id = some execution →
      ∃ kept, u.cluster.executions.get id = some kept ∧ kept.status = .queued ∧ kept.node = none ∧
        kept.submission = execution.submission) ∧
      (t.inflight = [] → ∀ id execution, t.cluster.executions.get id = some execution →
        u.cluster.executions.get id = some (execution.requeued execution.pool)) := by
  have durable : t.Durable := run.invariant (blank.durable bare)
    (fun durable ordered stepped => durable.step ordered stepped)
  have everywhere : Runs.Reaches step (fun _ _ => True) s t := run.mono (fun _ _ _ => trivial)
  have inside {s : System} {id : Uuid} {found : Execution}
      (present : s.cluster.executions.get id = some found) : found ∈ s.copies :=
    List.mem_append_left _ (List.mem_append_left _ (Keyed.mem_of_get present))
  refine ⟨fun id execution held => ?_, fun quiet id execution held => ?_⟩
  · obtain ⟨row, there, active⟩ := (durable.backed id).present execution held
    have loaded := (loaded_iff stepped durable.bare id _).mpr ⟨row, there, active, rfl⟩
    refine ⟨_, loaded, rfl, rfl, ?_⟩
    exact blank.copies_agree bare silent everywhere (.single trivial stepped) (inside held)
      (inside loaded) ((Keyed.key_of_get loaded).trans (Keyed.key_of_get held).symm)
  · have nothing : t.unwritten id = [] := by
      rw [unwritten, quiet]
      rfl
    obtain ⟨row, there, stores⟩ := (durable.backed id).stored execution held nothing
    have active : row.status.terminal = false := by
      rw [stores.status]
      simpa using durable.sound.orderly.active id execution held
    have created : row.createdAtMs = execution.createdAtMs := by
      have shown : executionFromRow row ∈ t.copies := List.mem_append_left _
        (List.mem_append_right _ (List.mem_map_of_mem (Keyed.mem_of_get there)))
      have same := blank.copies_agree bare silent everywhere (.refl t) (inside held) shown
        ((Keyed.key_of_get there).trans (Keyed.key_of_get held).symm)
      exact congrArg Submission.createdAtMs same
    have whole : executionFromRow row = execution := by
      rw [stores, created]
    have loaded := (loaded_iff stepped durable.bare id _).mpr ⟨row, there, active, rfl⟩
    rw [whole] at loaded
    rw [loaded, ← congrArg Execution.pool whole]
    rfl

omit [Crates] in
/-- The process stops while the handler that assigned an execution has its copy still to save. -/
theorem crash_keeps_executions_assigned :
    ∃ (t u : System) (execution kept : Execution),
      t.cluster.executions.get 8 = some execution ∧ execution.status = .assigned ∧
      t.inflight ≠ [] ∧ u.cluster.executions.get 8 = some kept ∧ kept.status = .queued := by
  have performed : Option.any (fun t : System =>
        !t.inflight.isEmpty && (t.cluster.executions.get 8).any (fun execution : Execution =>
          decide (execution.status = .assigned)) && (@step Demo.crates t Demo.again).isSome)
      (Runs.exec (@step Demo.crates) (fun s label => @Ordered Demo.crates s label) Demo.empty
        (Demo.installation ++ Demo.creating ++
          [.client (.createExecution 8 ⟨none, some "e", .null, ∅, ∅, true⟩ [] 0), .op 0 true])) =
      true := by
    decide +kernel
  obtain ⟨t, reached, after⟩ := (Option.any_eq_true _ _).mp performed
  simp only [Bool.and_eq_true, Bool.not_eq_true', Option.any_eq_true, decide_eq_true_eq,
    List.isEmpty_eq_false_iff] at after
  obtain ⟨⟨busy, execution, held, assigned⟩, restarts⟩ := after
  obtain ⟨u, stepped⟩ := Option.isSome_iff_exists.mp restarts
  obtain ⟨kept, present, queued, -⟩ :=
    (@crash_keeps_executions Demo.crates _ _ _ _ _ ⟨fresh_empty, rfl⟩ (fun _ => rfl) rfl
      (Runs.reaches_of_exec _ reached) stepped).1 8 execution held
  exact ⟨t, u, execution, kept, held, assigned, busy, present, queued⟩

end
end System
end Scraperack
