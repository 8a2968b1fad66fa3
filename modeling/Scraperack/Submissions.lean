import Scraperack.Records

/-! What a client submits with an execution: its payload, its variables, when it came and the
environment it is for. The controller copies executions between memory, rows, calls still to be
made and replies. None of these ways changes what was submitted, and none of them invents it. -/

namespace Scraperack

/-- The part of an execution that its creation fixes. -/
structure Submission where
  payload : Value
  variableMap : Keyed.Table String String
  createdAtMs : Nat
  environment : Option Uuid

def Execution.submission (execution : Execution) : Submission :=
  ⟨execution.payload, execution.variableMap, execution.createdAtMs, execution.environment⟩

/-- The executions that a call carries with it. -/
def Op.carried : Op → List Execution
  | .insertExecution execution _ _ | .completeExecution execution | .deliver _ execution _ =>
    [execution]
  | op => op.copies

def Reply.carried : Reply → List Execution
  | .accepted execution | .work _ execution _ _ => [execution]
  | _ => []

def Frame.carried : Frame → List Execution
  | .running ops reply => ops.flatMap Op.carried ++ reply.carried
  | _ => []

/-- Everything that the controller has of executions, wherever it has it. -/
def System.copies (s : System) : List Execution :=
  s.cluster.executions.values ++ s.database.rows.values.map executionFromRow ++
    (s.inflight.flatMap Frame.carried ++ s.replies.flatMap Reply.carried)

/-- If the execution is the one with this identifier, then it carries what was given for it. -/
def Execution.Fits (id : Uuid) (given : Option Submission) (execution : Execution) : Prop :=
  execution.id = id → given = some execution.submission

section
variable {id : Uuid} {given : Option Submission}

theorem Execution.Fits.congr {execution other : Execution} (fits : execution.Fits id given)
    (own : other.id = execution.id) (same : other.submission = execution.submission) :
    other.Fits id given := by
  intro named
  rw [same]
  exact fits (own.symm.trans named)

/-- Every execution in memory is what was given for it. -/
def Cluster.Fits (id : Uuid) (given : Option Submission) (c : Cluster) : Prop :=
  ∀ k execution, c.executions.get k = some execution → execution.Fits id given

theorem Cluster.Fits.of_eq {c d : Cluster} (fits : c.Fits id given)
    (same : d.executions = c.executions) : d.Fits id given := by
  intro k execution present
  exact fits k execution (same ▸ present)

/-- The executions of a cluster may be rewritten beside what was submitted. -/
theorem Cluster.Fits.of_map {c d : Cluster} (fits : c.Fits id given)
    (stems : ∀ k execution, d.executions.get k = some execution → ∃ before,
      c.executions.get k = some before ∧ execution.id = before.id ∧
        execution.submission = before.submission) : d.Fits id given := by
  intro k execution present
  obtain ⟨before, earlier, own, same⟩ := stems k execution present
  exact (fits k before earlier).congr own same

theorem Cluster.Fits.erase {c d : Cluster} (fits : c.Fits id given) {gone : Uuid}
    (same : d.executions = c.executions.erase gone) : d.Fits id given := by
  intro k execution present
  rw [same, Keyed.get_erase] at present
  split_ifs at present
  exact fits k execution present

theorem Cluster.Fits.place {c : Cluster} (fits : c.Fits id given) (execution : Execution)
    (pool : Pool) (node : Uuid) : (c.place execution pool node).Fits id given := by
  refine fits.of_map (fun k found present => ?_)
  rw [place_get] at present
  split_ifs at present
  · obtain ⟨before, earlier, rfl⟩ := Option.map_eq_some_iff.mp present
    exact ⟨before, earlier, rfl, rfl⟩
  · exact ⟨found, present, rfl, rfl⟩

theorem Cluster.Fits.scheduleQueued {c : Cluster} (fits : c.Fits id given) :
    c.scheduleQueued.1.Fits id given :=
  Cluster.scheduleQueued_invariant (P := Cluster.Fits id given) fits
    (fun before _ _ => before.place _ _ _)

theorem Cluster.Fits.moved {c : Cluster} (fits : c.Fits id given) (name pool : String) :
    (Scraperack.moved name pool c).Fits id given := by
  refine fits.of_map (fun k found present => ?_)
  rw [moved_get] at present
  split_ifs at present
  · obtain ⟨before, earlier, rfl⟩ := Option.map_eq_some_iff.mp present
    exact ⟨before, earlier, rfl, rfl⟩
  · exact ⟨found, present, rfl, rfl⟩

theorem Cluster.Fits.start {c : Cluster} (fits : c.Fits id given) (started : Uuid) (now : Nat) :
    (c.start started now).Fits id given := by
  refine fits.of_map (fun k found present => ?_)
  simp only [Cluster.start, Keyed.get_adjust] at present
  split_ifs at present
  · obtain ⟨before, earlier, rfl⟩ := Option.map_eq_some_iff.mp present
    exact ⟨before, earlier, rfl, rfl⟩
  · exact ⟨found, present, rfl, rfl⟩

theorem Cluster.Fits.cleaned {c : Cluster} (fits : c.Fits id given) (execution : Execution)
    (keepIdle : Bool) : (Scraperack.cleaned c execution keepIdle).Fits id given := by
  have finished : (c.finish execution.id keepIdle).Fits id given := by
    refine @Cluster.Fits.erase _ _ _ _ fits execution.id ?_
    simp [Cluster.finish, Cluster.forget]
  unfold Scraperack.cleaned
  split_ifs
  · exact finished.of_eq (Cluster.removePool_executions ..)
  · exact finished

/-! What a section leaves behind. -/

/-- Everything that a handler in flight carries is what was given for it. -/
def Frame.Fits (id : Uuid) (given : Option Submission) (frame : Frame) : Prop :=
  ∀ execution ∈ frame.carried, execution.Fits id given

theorem Frame.fits_running {ops : List Op} {reply : Reply} :
    (Frame.running ops reply).Fits id given ↔
      (∀ op ∈ ops, ∀ execution ∈ op.carried, execution.Fits id given) ∧
        ∀ execution ∈ reply.carried, execution.Fits id given := by
  constructor
  · intro fits
    refine ⟨fun op member execution carried => ?_, fun execution carried => ?_⟩
    · exact fits execution (List.mem_append_left _ (List.mem_flatMap.mpr ⟨op, member, carried⟩))
    · exact fits execution (List.mem_append_right _ carried)
  · rintro ⟨calls, answers⟩ execution carried
    rcases List.mem_append.mp carried with called | answered
    · obtain ⟨op, member, carried⟩ := List.mem_flatMap.mp called
      exact calls op member execution carried
    · exact answers execution answered

/-- The calls that only save copies carry what is in memory. -/
theorem fits_of_copies {c : Cluster} (fits : c.Fits id given) {op : Op}
    (copies : ∀ copy ∈ op.copies, c.executions.get copy.id = some copy)
    (plain : op.carried = op.copies) : ∀ execution ∈ op.carried, execution.Fits id given := by
  intro execution carried
  rw [plain] at carried
  exact fits _ execution (copies execution carried)

section
variable [Crates] {c : Cluster} {commit : Commit} {result : Section}

/-- Only `create_execution` answers with an execution straight away. -/
theorem reply_of_run (ran : commit.run c = .ok result) {execution : Execution}
    (carried : execution ∈ result.reply.carried) :
    ∃ key request sealed now, commit = .createExecution key request sealed now := by
  have settled {fresh : Uuid} {environment : Environment}
      (carried : execution ∈
        (settle (restartEnvironmentPool fresh environment c)).reply.carried) : False := by
    unfold settle at carried
    split_ifs at carried <;> cases carried
  cases commit with
  | createExecution key request sealed now => exact ⟨key, request, sealed, now, rfl⟩
  | importImage | createEnvironment | createJoinToken | localJoin =>
    obtain rfl := Except.ok.inj ran
    cases carried
  | updateImage =>
    obtain ⟨_, -, rfl⟩ := updateImage_eq_ok ran
    cases carried
  | deleteImage =>
    obtain ⟨-, -, rfl⟩ := deleteImage_eq_ok ran
    cases carried
  | createPool =>
    obtain ⟨-, -, -, rfl⟩ := createPool_eq_ok ran
    cases carried
  | deletePool =>
    obtain ⟨-, rfl⟩ := deletePool_eq_ok ran
    cases carried
  | updateEnvironment fresh key request old image artifact =>
    obtain rfl := Except.ok.inj ran
    rw [updateEnvironment_eq] at carried
    split_ifs at carried
    · exact (settled carried).elim
    · cases carried
  | restartEnvironment =>
    obtain ⟨_, -, rfl⟩ := restartEnvironment_eq_ok ran
    exact (settled carried).elim
  | deleteEnvironment =>
    obtain ⟨_, -, -, rfl⟩ := deleteEnvironment_eq_ok ran
    cases carried
  | joinCluster =>
    obtain ⟨_, -, rfl⟩ := joinCluster_eq_ok ran
    cases carried
  | updateNode =>
    obtain ⟨_, -, rfl⟩ := updateNode_eq_ok ran
    cases carried
  | deleteNode =>
    obtain ⟨-, rfl⟩ := deleteNode_eq_ok ran
    cases carried
  | registerNode key request now =>
    obtain rfl := Except.ok.inj ran
    have silent (node : Option Node) :
        ((node.map Reply.node).getD .panicked).carried = [] := by cases node <;> rfl
    simp only [registerNode, scheduleAndSave, silent] at carried
    cases carried
  | imageReady =>
    obtain rfl := imageReady_eq_ok ran
    cases carried
  | environmentReady =>
    obtain rfl := environmentReady_eq_ok ran
    cases carried
  | addWarmInstance key pool =>
    obtain rfl := Except.ok.inj ran
    simp only [addWarmInstance, scheduleIfChanged] at carried
    split at carried <;> cases carried
  | removeIdleInstance key pool =>
    obtain rfl := Except.ok.inj ran
    simp only [removeIdleInstance, scheduleIfChanged] at carried
    split at carried <;> cases carried
  | nextWork =>
    rcases nextWork_eq_ok ran with rfl | ⟨_, -, -, ⟨-, rfl⟩ | ⟨_, -, rfl⟩⟩ <;> cases carried
  | completeExecution =>
    obtain ⟨_, -, -, rfl⟩ := completeExecution_eq_ok ran
    cases carried

/-- The cluster that a section leaves holds the executions of the one it found, with what was
submitted for them. -/
theorem Ending.fits {id : Uuid} {given : Option Submission} (ending : Ending c commit result)
    (fits : c.Fits id given) : result.cluster.Fits id given := by
  cases ending with
  | saved same => exact fits.of_eq same
  | scheduled d same => exact (fits.of_eq same).scheduleQueued
  | unchanged | createPanicked | created => exact fits
  | restartPanicked name pool => exact fits.moved name pool
  | restarted name environment pool d same =>
    exact Cluster.Fits.scheduleQueued (c := { d with
      environments := d.environments.insert environment }) ((fits.moved name pool).of_eq same)
  | updated environment d same =>
    exact Cluster.Fits.scheduleQueued (c := { d with
      environments := d.environments.insert environment }) (fits.of_eq same)
  | deletedEnvironment key environment present =>
    have forgotten (d : Cluster) (artifact : Option String) :
        (forgetArtifact d artifact).executions = d.executions := by cases artifact <;> rfl
    exact fits.of_eq (by simp [forgotten, withoutEnvironment])
  | workPanicked node now execution | worked node now execution => exact fits.start _ now
  | completed node request now execution => exact (fits.cleaned execution _).scheduleQueued

/-- What a section leaves in flight is what was given for it, as far as it is not the execution
that the section creates. -/
theorem Ending.fits_ops {id : Uuid} {given : Option Submission} (ending : Ending c commit result)
    (fits : c.Fits id given) (older : ∀ key request sealed now,
      commit ≠ .createExecution key request sealed now) :
    ∀ op ∈ result.ops, ∀ execution ∈ op.carried, execution.Fits id given := by
  intro op member
  have saves (plain : op.carried = op.copies) :
      ∀ execution ∈ op.carried, execution.Fits id given :=
    fits_of_copies (ending.fits fits) (fun copy writes => ending.copies member writes) plain
  cases op with
  | insertExecution execution sealed queue =>
    cases ending with
    | saved _ ops => simp [ops] at member
    | scheduled | unchanged | restartPanicked | restarted | updated | createPanicked | workPanicked |
      worked | completed => simp [scheduleAndSave, finishEnvironment, panicSection] at member
    | deletedEnvironment => simp at member
    | created key request sealed now => exact absurd rfl (older key request sealed now)
  | completeExecution execution =>
    cases ending with
    | saved _ ops => simp [ops] at member
    | scheduled | unchanged | restartPanicked | restarted | updated | createPanicked | workPanicked |
      worked | created => simp [scheduleAndSave, finishEnvironment, panicSection] at member
    | deletedEnvironment => simp at member
    | completed node request now before present =>
      simp only [List.mem_cons, reduceCtorEq, Op.completeExecution.injEq, List.not_mem_nil,
        or_false, false_or] at member
      subst member
      intro execution carried
      obtain rfl := List.mem_singleton.mp carried
      exact (fits _ before present).congr rfl rfl
  | deliver node execution pool =>
    cases ending with
    | saved _ ops => simp [ops] at member
    | scheduled | unchanged | restartPanicked | restarted | updated | createPanicked | workPanicked |
      completed | created => simp [scheduleAndSave, finishEnvironment, panicSection] at member
    | deletedEnvironment => simp at member
    | worked node now before pool present =>
      simp only [List.mem_cons, reduceCtorEq, Op.deliver.injEq, List.not_mem_nil,
        or_false, false_or] at member
      obtain ⟨-, rfl, -⟩ := member
      intro execution carried
      obtain rfl := List.mem_singleton.mp carried
      exact (fits _ before present).congr rfl rfl
  | _ => exact saves rfl

/-- So is what a section leaves in flight that creates an execution, if that one is. -/
theorem section_fits {id : Uuid} {given : Option Submission} (ran : commit.run c = .ok result)
    (fits : c.Fits id given)
    (new : ∀ request sealed now, commit = .createExecution id request sealed now →
      (Frame.running result.ops result.reply).Fits id given) :
    (Frame.running result.ops result.reply).Fits id given := by
  by_cases creates : ∃ key request sealed now, commit = .createExecution key request sealed now
  · obtain ⟨key, request, sealed, now, rfl⟩ := creates
    by_cases own : key = id
    · exact new request sealed now (own ▸ rfl)
    · rcases createExecution_eq_ok ran with rfl | ⟨name, pool, environment, -, -, rfl⟩
      · exact fun _ carried => by cases carried
      · refine Frame.fits_running.mpr ⟨fun op member execution carried named => ?_,
          fun execution carried named => ?_⟩
        · obtain rfl := List.mem_singleton.mp member
          obtain rfl := List.mem_singleton.mp carried
          exact absurd named own
        · obtain rfl := List.mem_singleton.mp carried
          exact absurd named own
  · have older (key : Uuid) (request : CreateExecution) (sealed : Bytes) (now : Nat) :
        commit ≠ .createExecution key request sealed now :=
      fun same => creates ⟨key, request, sealed, now, same⟩
    refine Frame.fits_running.mpr ⟨(Commit.ending ran).fits_ops fits older,
      fun execution carried => ?_⟩
    exact absurd (reply_of_run ran carried) creates

end

/-! Rows. -/

/-- The row keeps what was given for its execution. -/
def Row.Fits (id : Uuid) (given : Option Submission) (row : Row) : Prop :=
  (executionFromRow row).Fits id given

theorem RowsAre.adjust {p : Row → Prop} {rows : Keyed Row.id} (within : RowsAre p rows) (k : Uuid)
    {f : Row → Row} (keeps : ∀ row, (f row).id = row.id) (holds : ∀ row, p row → p (f row)) :
    RowsAre p (rows.adjust k f keeps) := by
  intro id row found
  rw [Keyed.get_adjust] at found
  split_ifs at found
  · obtain ⟨before, earlier, rfl⟩ := Option.map_eq_some_iff.mp found
    exact holds before (within id before earlier)
  · exact within id row found

section
variable [Crates] {id : Uuid} {given : Option Submission} {db next : Database}
  {execution : Execution}

/-- An upsert keeps the time at which the row was created; it is the one of the execution. -/
theorem RowsAre.fits_upsert {rows : Keyed Row.id} (within : RowsAre (Row.Fits id given) rows)
    (fits : execution.Fits id given) :
    RowsAre (Row.Fits id given) (upsertExecution rows execution) := by
  unfold upsertExecution
  split
  · exact within.insert (fits.congr rfl rfl)
  · rename_i old there
    refine within.insert (fun named => ?_)
    have own : old.id = execution.id := Keyed.key_of_get there
    have new := fits named
    have created : old.createdAtMs = execution.createdAtMs :=
      congrArg Submission.createdAtMs
        (Option.some.inj ((within _ old there (own.trans named)).symm.trans new))
    rw [new, created]
    rfl

theorem RowsAre.fits_upsertAll {copies : List Execution} {rows : Keyed Row.id}
    (within : RowsAre (Row.Fits id given) rows)
    (fits : ∀ copy ∈ copies, copy.Fits id given) :
    RowsAre (Row.Fits id given) (copies.foldl upsertExecution rows) := by
  induction copies generalizing rows with
  | nil => exact within
  | cons copy rest ih =>
    exact ih (within.fits_upsert (fits copy List.mem_cons_self))
      (fun other member => fits other (List.mem_cons_of_mem _ member))

theorem RowsAre.fits_insertExecution {sealed : Bytes} {accepted : Bool}
    (within : RowsAre (Row.Fits id given) db.rows) (fits : execution.Fits id given)
    (done : db.insertExecution execution sealed = some (next, accepted)) :
    RowsAre (Row.Fits id given) next.rows := by
  simp only [Database.insertExecution, Option.bind_eq_some_iff, Option.map_eq_some_iff] at done
  obtain ⟨pruned, kept, used, -, outcome⟩ := done
  have written := within.fits_upsert fits
  have left : RowsAre (Row.Fits id given) pruned.rows := by
    refine RowsAre.prune ?_ kept
    dsimp only
    split_ifs
    · exact written
    · exact written.adjust _ _ (fun _ fits => fits)
  split_ifs at outcome <;> cases outcome
  · exact left.erase execution.id
  · exact left

theorem RowsAre.fits_completeExecution (within : RowsAre (Row.Fits id given) db.rows)
    (fits : execution.Fits id given) (done : db.completeExecution execution = some next) :
    RowsAre (Row.Fits id given) next.rows := by
  simp only [Database.completeExecution, Option.bind_eq_some_iff, Option.map_eq_some_iff] at done
  obtain ⟨pruned, kept, used, -, rfl⟩ := done
  have left : RowsAre (Row.Fits id given) pruned.rows := by
    refine RowsAre.prune ?_ kept
    dsimp only
    exact (within.fits_upsert fits).adjust _ _ (fun _ fits => fits)
  split_ifs
  · exact left.fits_upsert (fits.congr rfl rfl)
  · exact left

omit [Crates] in
theorem Row.Fits.requeue {row : Row} (fits : row.Fits id given) :
    (Database.requeueRow row).Fits id given := by
  unfold Database.requeueRow
  split_ifs <;> exact fits

end

/-! The controller. -/

namespace System

/-- Everything that the controller has of the execution is what was given for it, and the stored
cluster has no executions. -/
structure Shows (id : Uuid) (given : Option Submission) (s : System) : Prop where
  memory : s.cluster.Fits id given
  rows : RowsAre (Row.Fits id given) s.database.rows
  frames : ∀ frame ∈ s.inflight, frame.Fits id given
  replies : ∀ reply ∈ s.replies, ∀ execution ∈ reply.carried, execution.Fits id given
  bare : ∀ stored, s.database.cluster = some stored → stored.executions = ∅

theorem Shows.copies {id : Uuid} {given : Option Submission} {s : System}
    (shows : s.Shows id given) {execution : Execution} (member : execution ∈ s.copies) :
    execution.Fits id given := by
  simp only [System.copies, List.mem_append, List.mem_map, List.mem_flatMap] at member
  rcases member with (held | ⟨row, held, rfl⟩) | ⟨frame, held, carried⟩ | ⟨reply, held, carried⟩
  · exact shows.memory _ execution ((Keyed.mem_values_iff _ _).mp held)
  · exact shows.rows _ row ((Keyed.mem_values_iff _ _).mp held)
  · exact shows.frames frame held execution carried
  · exact shows.replies reply held execution carried

variable [Crates] {id : Uuid} {given : Option Submission} {s t : System} {label : Label}

/-- A call keeps to what was given for the execution. -/
theorem Shows.call {next : System} {op : Op} {rest : List Op} {before after : Reply}
    (shows : s.Shows id given) (plain : op.inserts = false)
    (member : Frame.running (op :: rest) before ∈ s.inflight)
    (done : s.runOp rest before op = some (next, rest, after)) :
    RowsAre (Row.Fits id given) next.database.rows ∧
      (Frame.running rest after).Fits id given := by
  obtain ⟨calls, answers⟩ := Frame.fits_running.mp (shows.frames _ member)
  have here := calls op List.mem_cons_self
  have left : ∀ op ∈ rest, ∀ execution ∈ op.carried, execution.Fits id given :=
    fun op member => calls op (List.mem_cons_of_mem _ member)
  cases op with
  | insertExecution => cases plain
  | saveCluster | unlock | removeArtifact =>
    simp only [runOp, Option.some.injEq, Prod.mk.injEq] at done
    obtain ⟨rfl, -, rfl⟩ := done
    exact ⟨shows.rows, Frame.fits_running.mpr ⟨left, answers⟩⟩
  | saveExecution execution =>
    simp only [runOp, Option.some.injEq, Prod.mk.injEq] at done
    obtain ⟨rfl, -, rfl⟩ := done
    exact ⟨shows.rows.fits_upsert (here execution List.mem_cons_self),
      Frame.fits_running.mpr ⟨left, answers⟩⟩
  | saveExecutions executions =>
    simp only [runOp, Option.some.injEq, Prod.mk.injEq] at done
    obtain ⟨rfl, -, rfl⟩ := done
    exact ⟨shows.rows.fits_upsertAll here, Frame.fits_running.mpr ⟨left, answers⟩⟩
  | deleteExecution gone =>
    simp only [runOp, Option.some.injEq, Prod.mk.injEq] at done
    obtain ⟨rfl, -, rfl⟩ := done
    exact ⟨shows.rows.erase gone, Frame.fits_running.mpr ⟨left, answers⟩⟩
  | completeExecution execution =>
    simp only [runOp, Option.map_eq_some_iff, Prod.mk.injEq] at done
    obtain ⟨database, stored, rfl, -, rfl⟩ := done
    exact ⟨shows.rows.fits_completeExecution (here execution List.mem_cons_self) stored,
      Frame.fits_running.mpr ⟨left, answers⟩⟩
  | deliver node execution pool =>
    simp only [runOp, Option.map_eq_some_iff, Prod.mk.injEq] at done
    obtain ⟨secrets, -, rfl, -, rfl⟩ := done
    exact ⟨shows.rows, Frame.fits_running.mpr ⟨left, here⟩⟩

omit [Crates] in
/-- The end of `create_execution` as well. -/
theorem fits_admitted {c : Cluster} {execution : Execution} (queue : Bool) (fits : c.Fits id given)
    (own : execution.Fits id given) :
    (admitExecution execution queue c).cluster.Fits id given ∧
      (Frame.running (admitExecution execution queue c).ops
        (admitExecution execution queue c).reply).Fits id given := by
  have stored : Cluster.Fits id given { c with executions := c.executions.insert execution } := by
    intro k found present
    rw [Keyed.get_insert] at present
    split_ifs at present
    · exact Option.some.inj present ▸ own
    · exact fits k found present
  unfold admitExecution
  dsimp only
  split
  · rename_i next scheduled
    obtain ⟨placed, pool, node, same, choice, rfl⟩ := Cluster.schedule_cases scheduled
    have left := stored.place placed pool node.id
    have copied : ((({ c with executions := c.executions.insert execution } : Cluster).place placed
        pool node.id).executions.get execution.id).getD execution |>.Fits id given := by
      cases found : (({ c with executions := c.executions.insert execution } : Cluster).place placed
        pool node.id).executions.get execution.id with
      | none => exact own
      | some copy => exact left _ copy found
    refine ⟨left, Frame.fits_running.mpr ⟨fun op member found carried => ?_,
      fun found carried => ?_⟩⟩
    · simp only [List.mem_cons, List.not_mem_nil, or_false] at member
      rcases member with rfl | rfl
      · obtain rfl := List.mem_singleton.mp carried
        exact copied
      · cases carried
    · obtain rfl := List.mem_singleton.mp carried
      exact copied
  · split_ifs
    · refine ⟨stored, Frame.fits_running.mpr ⟨fun op member found carried => ?_,
        fun found carried => ?_⟩⟩
      · simp only [List.mem_cons, List.not_mem_nil, or_false] at member
        rcases member with rfl | rfl
        · obtain rfl := List.mem_singleton.mp carried
          exact own
        · cases carried
      · obtain rfl := List.mem_singleton.mp carried
        exact own
    · refine ⟨stored.erase rfl, Frame.fits_running.mpr ⟨fun op member found carried => ?_,
        fun found carried => by cases carried⟩⟩
      simp only [List.mem_cons, List.not_mem_nil, or_false] at member
      rcases member with rfl | rfl <;> cases carried

omit [Crates] in
theorem Shows.answer (shows : s.Shows id given) {others : List Frame}
    (fewer : others.Sublist s.inflight) {reply : Reply}
    (fits : ∀ execution ∈ reply.carried, execution.Fits id given) :
    (s.answer others reply).Shows id given := by
  refine ⟨shows.memory, shows.rows, fun frame member => shows.frames frame (fewer.subset member),
    fun other member => ?_, shows.bare⟩
  rcases List.mem_cons.mp member with rfl | before
  · exact fits
  · exact shows.replies other before

/-- If the step creates the execution, then with what was given for it. -/
def Brings (s t : System) (label : Label) (id : Uuid) (given : Option Submission) : Prop :=
  ∀ request sealed now result, label = .client (.createExecution id request sealed now) →
    createExecution id request sealed now s.cluster = .ok result → id ∈ t.issued →
    (Frame.running result.ops result.reply).Fits id given

theorem bare_step (stepped : s.step label = some t)
    (bare : ∀ stored, s.database.cluster = some stored → stored.executions = ∅) :
    ∀ stored, t.database.cluster = some stored → stored.executions = ∅ := by
  intro stored found
  cases same : restarts label with
  | false =>
    rcases step_saved stepped same with kept | ⟨_, _, _, -, -, saved⟩
    · exact bare stored (kept ▸ found)
    · obtain rfl := Option.some.inj (saved.symm.trans found)
      rfl
  | true =>
    cases label with
    | restart fresh now =>
      obtain ⟨served, -, -⟩ := restart_cases stepped
      simp only [serve, Option.map_eq_some_iff, Prod.mk.injEq] at served
      obtain ⟨pruned, kept, -, same⟩ := served
      rw [← same, prune_cluster kept] at found
      obtain rfl := Option.some.inj found
      rfl
    | _ => cases same

/-- A process that starts finds in the rows what was given for their executions. -/
theorem Shows.restart {fresh : String → Uuid} {now : Nat} (shows : s.Shows id given)
    (stepped : s.step (.restart fresh now) = some t) : t.Shows id given := by
  obtain ⟨served, quiet, silent⟩ := restart_cases stepped
  simp only [serve, Option.map_eq_some_iff, Prod.mk.injEq, Option.getD_none] at served
  obtain ⟨pruned, kept, loaded, same⟩ := served
  have requeued : RowsAre (Row.Fits id given) s.database.requeueRows.rows :=
    shows.rows.requeueRows (fun _ fits => fits.requeue)
  refine ⟨fun k execution present => ?_, ?_, fun frame member => ?_, fun reply member => ?_,
    bare_step stepped shows.bare⟩
  · rw [← loaded] at present
    rcases get_foldl_insert _ present with member | before
    · simp only [Database.loadActiveExecutions, List.mem_map, List.mem_filter] at member
      obtain ⟨row, ⟨member, -⟩, rfl⟩ := member
      exact requeued row.id row ((Keyed.mem_values_iff _ _).mp member)
    · rw [(migrateLegacy_sizes fresh _).executions] at before
      · cases before
      · cases stored : s.database.cluster with
        | none => rfl
        | some cluster => exact shows.bare cluster stored
  · rw [← same]
    refine RowsAre.prune ?_ kept
    exact requeued
  · rw [quiet] at member
    cases member
  · rw [silent] at member
    cases member

theorem Shows.step (shows : s.Shows id given) (stepped : s.step label = some t)
    (new : Brings s t label id given) : t.Shows id given := by
  have bare := bare_step stepped shows.bare
  have joined {frame : Frame} (silent : frame.carried = []) (frame' : Frame)
      (member : frame' ∈ s.inflight ++ [frame]) : frame'.Fits id given := by
    rcases List.mem_append.mp member with before | same
    · exact shows.frames frame' before
    · obtain rfl := List.mem_singleton.mp same
      intro execution carried
      rw [silent] at carried
      cases carried
  have exchanged {index : Nat} {next : Frame} (fits : next.Fits id given) (frame : Frame)
      (member : frame ∈ s.inflight.set index next) : frame.Fits id given := by
    rcases List.mem_or_eq_of_mem_set member with before | rfl
    · exact shows.frames frame before
    · exact fits
  have answered {error : ApiError} : ∀ execution ∈ (Reply.refused error).carried,
      execution.Fits id given := fun _ carried => by cases carried
  cases step_cases stepped with
  | refused _ others error fewer => exact shows.answer fewer answered
  | authenticated | started | importing =>
    exact ⟨shows.memory, shows.rows, joined rfl, shows.replies, bare⟩
  | performed _ commit others result free allowed entered ran =>
    refine ⟨(Commit.ending ran).fits shows.memory, shows.rows, fun frame member => ?_,
      shows.replies, bare⟩
    rcases List.mem_append.mp member with before | same
    · exact shows.frames frame (entered.fewer.subset before)
    · obtain rfl := List.mem_singleton.mp same
      refine section_fits ran shows.memory (fun request sealed now creates => ?_)
      subst creates
      exact new request sealed now result (entered.label_of_direct rfl) ran List.mem_cons_self
  | declined _ commit others error entered =>
    refine ⟨shows.memory, shows.rows,
      fun frame member => shows.frames frame (entered.fewer.subset member),
      fun reply member => ?_, bare⟩
    rcases List.mem_cons.mp member with rfl | before
    · exact answered
    · exact shows.replies reply before
  | prepared index event job next files there done =>
    exact ⟨shows.memory, shows.rows, exchanged (fun _ carried => by cases carried),
      shows.replies, bare⟩
  | answered index succeeds reply there =>
    refine shows.answer (List.eraseIdx_sublist _ _) ?_
    exact (Frame.fits_running.mp (shows.frames _ (List.mem_of_getElem? there))).2
  | called index op rest before after next there plain done =>
    obtain ⟨rows, fits⟩ := shows.call plain (List.mem_of_getElem? there) done
    obtain ⟨same, -, replies, -⟩ := runOp_frame plain done
    exact ⟨shows.memory.of_eq (congrArg Cluster.executions same), rows, exchanged fits,
      fun reply member => shows.replies reply (replies ▸ member), bare⟩
  | admitted index execution secrets queue rest before database there stored =>
    have own := (Frame.fits_running.mp (shows.frames _ (List.mem_of_getElem? there))).1 _
      List.mem_cons_self execution List.mem_cons_self
    obtain ⟨memory, fits⟩ := fits_admitted queue shows.memory own
    exact ⟨memory, shows.rows.fits_insertExecution own stored, exchanged fits, shows.replies, bare⟩
  | rejected index execution secrets queue rest before database there stored =>
    have own := (Frame.fits_running.mp (shows.frames _ (List.mem_of_getElem? there))).1 _
      List.mem_cons_self execution List.mem_cons_self
    exact ⟨shows.memory, shows.rows.fits_insertExecution own stored,
      exchanged (fun _ carried => by cases carried), shows.replies, bare⟩
  | failed index succeeds op rest reply there error =>
    exact shows.answer (List.eraseIdx_sublist _ _) answered
  | ignored index artifact rest reply there =>
    obtain ⟨calls, answers⟩ := Frame.fits_running.mp (shows.frames _ (List.mem_of_getElem? there))
    exact ⟨shows.memory, shows.rows, exchanged (Frame.fits_running.mpr
      ⟨fun op member => calls op (List.mem_cons_of_mem _ member), answers⟩), shows.replies, bare⟩
  | uploaded => exact ⟨shows.memory, shows.rows, shows.frames, shows.replies, bare⟩
  | pruned now =>
    refine ⟨shows.memory, ?_, shows.frames, shows.replies, bare⟩
    cases done : Scraperack.prune s.database now none with
    | none => exact shows.rows
    | some next => exact RowsAre.prune shows.rows done
  | settings => exact ⟨shows.memory, shows.rows, shows.frames, shows.replies, bare⟩
  | restarted fresh now cluster database fits served => exact shows.restart stepped

/-! Runs of the controller through any number of restarts. -/

/-- The environment that the client asks for: the one it names, or that of the pool it names. -/
def Resolves (request : CreateExecution) (c : Cluster) (environment : Uuid) : Prop :=
  match request.environment with
  | some key => ∃ named, namedEnvironment key c = some named ∧ named.id = environment
  | none => ∃ name pool, request.pool = some name ∧ c.pools.get name = some pool ∧
      pool.environment = some environment

theorem createExecution_resolves {request : CreateExecution} {sealed : Bytes} {now : Nat}
    {c : Cluster} {result : Section} (ran : createExecution id request sealed now c = .ok result) :
    result = panicSection c ∨ ∃ poolName environment, Resolves request c environment ∧
      result = ⟨c, [.insertExecution (newExecution id request poolName environment now) sealed
        request.queue], .accepted (newExecution id request poolName environment now)⟩ := by
  simp only [createExecution, bind_eq_ok_iff, require_eq_ok_iff, found_eq_ok_iff,
    exists_const] at ran
  obtain ⟨known, poolName, named, pool, there, environment, resolved, rest⟩ := ran
  have resolves : Resolves request c environment := by
    unfold Resolves
    cases key : request.environment with
    | none =>
      simp only [key, Option.bind_none, Option.map_none, Option.none_or] at named resolved
      exact ⟨poolName, pool, named, there, resolved⟩
    | some key' =>
      simp only [key, reduceCtorEq, false_or, Option.bind_some, Option.isSome_iff_exists] at known
      obtain ⟨other, found⟩ := known
      simp only [key, Option.bind_some, found, Option.map_some, Option.some_or,
        Option.some.injEq] at resolved
      exact ⟨other, found, resolved⟩
  cases image : c.images.get pool.image with
  | none =>
    simp only [image, pure, Except.pure, Except.ok.injEq] at rest
    exact .inl rest.symm
  | some _ =>
    simp only [image, bind_eq_ok_iff, require_eq_ok_iff, found_eq_ok_iff, exists_const,
      pure, Except.pure, Except.ok.injEq] at rest
    obtain ⟨_, _, _, rfl⟩ := rest
    exact .inr ⟨poolName, environment, resolves, rfl⟩

/-- In the run from `s` to `t` a client created the execution, with what is in the submission, in the
environment that it asked for. -/
def Created (s t : System) (id : Uuid) (submission : Submission) : Prop :=
  ∃ u v request sealed now environment,
    Runs.Reaches System.step (fun _ _ => True) s u ∧
      u.step (.client (.createExecution id request sealed now)) = some v ∧
      Runs.Reaches System.step (fun _ _ => True) v t ∧ Resolves request u.cluster environment ∧
      submission = ⟨request.payload, request.variableMap, now, some environment⟩

theorem Created.later {s t u : System} {id : Uuid} {submission : Submission}
    (created : Created s t id submission) (later : Runs.Reaches step (fun _ _ => True) t u) :
    Created s u id submission := by
  obtain ⟨v, w, request, sealed, now, environment, before, stepped, after, resolves, same⟩ := created
  exact ⟨v, w, request, sealed, now, environment, before, stepped, after.trans later, resolves, same⟩

/-- What was given for the execution in the run from `s`, if it was created in it. -/
structure Traced (s t : System) (id : Uuid) (given : Option Submission) : Prop where
  shows : t.Shows id given
  issued : given.isSome = true → id ∈ t.issued
  created : ∀ submission, given = some submission → Created s t id submission

omit [Crates] in
/-- Of an execution that is not there yet anything may be given. -/
theorem Shows.widen (shows : s.Shows id none) : s.Shows id given := by
  have never {execution : Execution} (fits : execution.Fits id none) :
      execution.Fits id given := fun own => by cases fits own
  exact ⟨fun k execution present => never (shows.memory k execution present),
    fun k row found => never (shows.rows k row found),
    fun frame member execution carried => never (shows.frames frame member execution carried),
    fun reply member execution carried => never (shows.replies reply member execution carried),
    shows.bare⟩

theorem Traced.same {s t u : System} (traced : Traced s t id given)
    (stepped : t.step label = some u) (brings : Brings t u label id given) :
    Traced s u id given :=
  ⟨traced.shows.step stepped brings, fun some => issued_mono stepped (traced.issued some),
    fun submission same => (traced.created submission same).later (.single trivial stepped)⟩

/-- A step gives nothing else for an execution than what was given for it before. -/
theorem Traced.step {s t u : System} (run : Runs.Reaches System.step (fun _ _ => True) s t)
    (traced : Traced s t id given) (stepped : t.step label = some u) :
    ∃ next, Traced s u id next ∧ (given.isSome = true → next = given) := by
  by_cases creates : ∃ request sealed now, label = .client (.createExecution id request sealed now)
  · obtain ⟨request, sealed, now, rfl⟩ := creates
    obtain rfl : given = none := by
      by_contra some
      exact Vault.create_fresh stepped (traced.issued (Option.isSome_iff_ne_none.mpr some))
    have silent (nothing : ∀ result, createExecution id request sealed now t.cluster = .ok result →
        id ∈ u.issued → (Frame.running result.ops result.reply).carried = []) :
        Traced s u id none := by
      refine traced.same stepped (fun request' sealed' now' result own ran known => ?_)
      cases own
      intro execution carried
      rw [nothing result ran known] at carried
      cases carried
    by_cases known : id ∈ u.issued
    · cases ran : createExecution id request sealed now t.cluster with
      | error error =>
        exact ⟨none, silent (fun result done => by rw [ran] at done; cases done), fun _ => rfl⟩
      | ok result =>
        rcases createExecution_resolves ran with rfl | ⟨name, environment, resolves, rfl⟩
        · refine ⟨none, silent (fun result done _ => ?_), fun _ => rfl⟩
          obtain rfl := Except.ok.inj (ran.symm.trans done)
          rfl
        · refine ⟨some ⟨request.payload, request.variableMap, now, some environment⟩,
            ⟨traced.shows.widen.step stepped ?_, fun _ => known, ?_⟩, fun none => by cases none⟩
          · intro request' sealed' now' result own done _
            cases own
            obtain rfl := Except.ok.inj (ran.symm.trans done)
            refine Frame.fits_running.mpr ⟨fun op member execution carried _ => ?_,
              fun execution carried _ => ?_⟩
            · obtain rfl := List.mem_singleton.mp member
              obtain rfl := List.mem_singleton.mp carried
              rfl
            · obtain rfl := List.mem_singleton.mp carried
              rfl
          · intro submission same
            exact ⟨t, u, request, sealed, now, environment, run, stepped, .refl u, resolves,
              (Option.some.inj same).symm⟩
    · exact ⟨none, silent (fun _ _ found => absurd found known), fun _ => rfl⟩
  · refine ⟨given, traced.same stepped (fun request sealed now result own => ?_), fun _ => rfl⟩
    exact absurd ⟨request, sealed, now, own⟩ creates

theorem Traced.run {s t u : System} (run : Runs.Reaches System.step (fun _ _ => True) s t)
    (later : Runs.Reaches System.step (fun _ _ => True) t u) (traced : Traced s t id given) :
    ∃ next, Traced s u id next ∧ (given.isSome = true → next = given) := by
  refine later.invariant_along (P := fun u => ∃ next, Traced s u id next ∧
    (given.isSome = true → next = given)) ⟨given, traced, fun _ => rfl⟩ ?_
  rintro v w label before ⟨next, traced, kept⟩ - stepped
  obtain ⟨last, traced, stays⟩ := traced.step (run.trans before) stepped
  refine ⟨last, traced, fun some => ?_⟩
  have same := kept some
  exact (stays (same ▸ some)).trans same

omit [Crates] in
/-- Nothing is given for any execution where the first process starts on an empty table. -/
theorem Blank.shows {s : System} (blank : Blank s) (bare : ∀ id, s.database.rows.get id = none)
    (silent : s.replies = []) (id : Uuid) : s.Shows id none := by
  refine ⟨fun k execution present => ?_, fun k row found => ?_, fun frame member => ?_,
    fun reply member => ?_, fun stored found => ?_⟩
  · rw [blank.empty] at present
    cases present
  · rw [bare] at found
    cases found
  · rw [blank.quiet] at member
    cases member
  · rw [silent] at member
    cases member
  · rw [blank.unsaved] at found
    cases found

/-- What was given for an execution up to a state that is reached. -/
theorem Blank.traced {s t : System} (blank : Blank s)
    (bare : ∀ id, s.database.rows.get id = none) (silent : s.replies = [])
    (run : Runs.Reaches step (fun _ _ => True) s t) (id : Uuid) :
    ∃ given, Traced s t id given := by
  have start : Traced s s id none :=
    ⟨blank.shows bare silent _, fun some => (by cases some), fun _ some => (by cases some)⟩
  obtain ⟨given, traced, -⟩ := start.run (.refl s) run
  exact ⟨given, traced⟩

/-- Two copies of one execution show the same submission, whatever happens between them. -/
theorem Blank.copies_agree {s t u : System} (blank : Blank s)
    (bare : ∀ id, s.database.rows.get id = none) (silent : s.replies = [])
    (run : Runs.Reaches step (fun _ _ => True) s t)
    (later : Runs.Reaches step (fun _ _ => True) t u)
    {execution copy : Execution} (held : execution ∈ t.copies) (member : copy ∈ u.copies)
    (own : copy.id = execution.id) : copy.submission = execution.submission := by
  obtain ⟨given, traced⟩ := blank.traced bare silent run execution.id
  obtain rfl := traced.shows.copies held rfl
  obtain ⟨last, kept, same⟩ := traced.run run later
  obtain rfl := same rfl
  exact (Option.some.inj (kept.shows.copies member own)).symm

/-- Whatever the controller has of an execution, in memory, in its row, with a handler in flight or
in a reply, was submitted by the client that created it, and stays so over all restarts. -/
theorem submissions_kept {s t u : System} (blank : Blank s)
    (bare : ∀ id, s.database.rows.get id = none) (silent : s.replies = [])
    (run : Runs.Reaches step (fun _ _ => True) s t)
    (later : Runs.Reaches step (fun _ _ => True) t u)
    {execution : Execution} (held : execution ∈ t.copies) :
    Created s t execution.id execution.submission ∧
      ∀ copy ∈ u.copies, copy.id = execution.id → copy.submission = execution.submission := by
  obtain ⟨given, traced⟩ := blank.traced bare silent run execution.id
  obtain rfl := traced.shows.copies held rfl
  exact ⟨traced.created _ rfl,
    fun copy member own => blank.copies_agree bare silent run later held member own⟩

/-- Rows are of executions that were created, and a process that starts on them is sound. -/
theorem Blank.sound_run {s t : System} (blank : Blank s)
    (bare : ∀ id, s.database.rows.get id = none) (silent : s.replies = [])
    (run : Runs.Reaches step (fun _ _ => True) s t) : Sound t := by
  refine run.invariant_along (P := Sound) blank.started.sound ?_
  rintro u v label before sound - stepped
  cases same : restarts label with
  | false => exact sound.step stepped same
  | true =>
    cases label with
    | restart fresh now =>
      obtain ⟨given, shown⟩ := blank.traced bare silent before 0
      have stored : (u.database.cluster.getD Cluster.empty).executions = ∅ := by
        cases found : u.database.cluster with
        | none => rfl
        | some cluster => exact shown.shows.bare cluster found
      refine (loaded_of_restart stepped stored (fun id row found => ?_)).started.sound
      obtain ⟨given, traced⟩ := blank.traced bare silent before id
      have own : row.id = id := Keyed.key_of_get found
      obtain rfl := traced.shows.rows id row found own
      exact traced.issued rfl
    | _ => cases same

omit [Crates] in
/-- The node has the execution; a restart queues it again, as it was submitted. -/
theorem submissions_kept_requeued :
    ∃ (t u : System) (execution copy : Execution), execution ∈ t.copies ∧ copy ∈ u.copies ∧
      execution.status = .assigned ∧ copy.status = .queued ∧
      copy.submission = execution.submission := by
  have performed : Option.any (fun t : System =>
        (t.cluster.executions.get 8).any (fun execution : Execution =>
          decide (execution.status = .assigned)) &&
        (@step Demo.crates t Demo.again).any (fun u =>
          (u.cluster.executions.get 8).any (fun copy : Execution =>
            decide (copy.status = .queued))))
      (Runs.exec (@step Demo.crates) (fun _ _ => True) Demo.empty Demo.assigning) = true := by
    decide +kernel
  obtain ⟨t, reached, after⟩ := (Option.any_eq_true _ _).mp performed
  simp only [Bool.and_eq_true, Option.any_eq_true, decide_eq_true_eq] at after
  obtain ⟨⟨execution, held, assigned⟩, u, stepped, copy, loaded, queued⟩ := after
  have inside {s : System} {found : Execution} (present : s.cluster.executions.get 8 = some found) :
      found ∈ s.copies :=
    List.mem_append_left _ (List.mem_append_left _ (Keyed.mem_of_get present))
  have own : copy.id = execution.id :=
    (Keyed.key_of_get loaded).trans (Keyed.key_of_get held).symm
  exact ⟨t, u, execution, copy, inside held, inside loaded, assigned, queued,
    (@submissions_kept Demo.crates _ _ _ ⟨fresh_empty, rfl⟩ (fun _ => rfl) rfl
      (Runs.reaches_of_exec _ reached) (.single trivial stepped) _ (inside held)).2 copy
      (inside loaded) own⟩

end System
end
end Scraperack
