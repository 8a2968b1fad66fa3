import Scraperack.Durability

/-! Executions across a crash and what they belong to. The stored cluster and the rows of executions
are written by different calls, and the process may stop between any two of them; the next one can
schedule an execution only if the pool and the environment of its row are in the stored cluster. -/

namespace Scraperack

namespace Cluster

/-- The pools and environments are in the other cluster as well, up to those that are taken away. -/
structure Retains (c d : Cluster) (vacated : Option String) (closed : Option Uuid) : Prop where
  pools : ∀ name, c.pools.contains name = true → vacated ≠ some name →
    d.pools.contains name = true
  environments : ∀ id, c.environments.contains id = true → closed ≠ some id →
    d.environments.contains id = true

/-- All pools and environments are in the other cluster. -/
abbrev Inside (c d : Cluster) : Prop := c.Retains d none none

instance (c d : Cluster) : Decidable (c.Inside d) :=
  decidable_of_iff (c.pools.values.all (fun pool => d.pools.contains pool.name) = true ∧
      c.environments.values.all (fun environment => d.environments.contains environment.id) =
        true) (by
    simp only [List.all_eq_true, Keyed.mem_values_iff]
    constructor
    · rintro ⟨pools, environments⟩
      refine ⟨fun name known _ => ?_, fun id known _ => ?_⟩
      · obtain ⟨pool, there⟩ := (Keyed.contains_iff _ _).mp known
        exact Keyed.key_of_get there ▸ pools pool (Keyed.get_congr there)
      · obtain ⟨environment, there⟩ := (Keyed.contains_iff _ _).mp known
        exact Keyed.key_of_get there ▸ environments environment (Keyed.get_congr there)
    · intro inside
      constructor
      · intro pool there
        exact inside.pools _ ((Keyed.contains_iff _ _).mpr ⟨pool, there⟩) (by simp)
      · intro environment there
        exact inside.environments _ ((Keyed.contains_iff _ _).mpr ⟨environment, there⟩) (by simp))

/-- The pool and the environment of the execution are there, unless it is over. -/
def Lodges (c : Cluster) (execution : Execution) : Prop :=
  execution.status.active = true → c.pools.contains execution.pool = true ∧
    ∃ environment, execution.environment = some environment ∧
      c.environments.contains environment = true

namespace Retains
variable {c d e : Cluster} {vacated : Option String} {closed : Option Uuid}

theorem of_same (pools : d.pools = c.pools) (environments : d.environments = c.environments) :
    c.Retains d vacated closed :=
  ⟨fun _ known _ => pools ▸ known, fun _ known _ => environments ▸ known⟩

theorem trans (first : c.Retains d vacated closed) (second : d.Inside e) :
    c.Retains e vacated closed :=
  ⟨fun name known stays => second.pools name (first.pools name known stays) (by simp),
    fun id known stays => second.environments id (first.environments id known stays) (by simp)⟩

theorem insertPool (pool : Pool) (first : c.Retains d vacated closed) :
    c.Retains { d with pools := d.pools.insert pool } vacated closed :=
  ⟨fun name known stays => by simp [Keyed.contains_insert, first.pools name known stays],
    first.environments⟩

theorem insertEnvironment (environment : Environment) (first : c.Retains d vacated closed) :
    c.Retains { d with environments := d.environments.insert environment } vacated closed :=
  ⟨first.pools,
    fun id known stays => by simp [Keyed.contains_insert, first.environments id known stays]⟩

theorem removePool (first : c.Inside d) (name : String) :
    c.Retains (d.removePool name) (some name) none := by
  refine ⟨fun other known stays => ?_, fun id known _ => ?_⟩
  · have differ : other ≠ name := fun same => stays (same ▸ rfl)
    simp [Cluster.removePool_pools, Keyed.contains_erase, differ, first.pools other known (by simp)]
  · rw [Cluster.removePool_environments]
    exact first.environments id known (by simp)

theorem scheduleQueued (first : c.Retains d vacated closed) :
    c.Retains d.scheduleQueued.1 vacated closed :=
  first.trans (.of_same d.scheduleQueued_pools d.scheduleQueued_environments)

theorem scheduleIfChanged {changed : Option Cluster}
    (same : ∀ next, changed = some next →
      next.pools = c.pools ∧ next.environments = c.environments) :
    c.Retains (scheduleIfChanged c changed).cluster vacated closed := by
  cases changed with
  | none => exact .of_same rfl rfl
  | some next => exact .scheduleQueued (.of_same (same next rfl).1 (same next rfl).2)

end Retains

theorem Lodges.retained {c d : Cluster} {vacated : Option String} {closed : Option Uuid}
    {execution : Execution} (lodges : c.Lodges execution) (retains : c.Retains d vacated closed)
    (stays : execution.status.active = true → vacated ≠ some execution.pool ∧
      ∀ id, closed = some id → execution.environment ≠ some id) :
    d.Lodges execution := by
  intro active
  obtain ⟨pool, environment, belongs, known⟩ := lodges active
  refine ⟨retains.pools _ pool (stays active).1, environment, belongs,
    retains.environments environment known (fun same => (stays active).2 _ same belongs)⟩

theorem Lodges.of_ended {c : Cluster} {execution : Execution}
    (ended : execution.status.active = false) : c.Lodges execution := by
  intro active
  rw [ended] at active
  cases active

theorem Lodges.inside {c d : Cluster} {execution : Execution} (lodges : c.Lodges execution)
    (inside : c.Inside d) : d.Lodges execution :=
  lodges.retained inside (fun _ => ⟨by simp, by simp⟩)

end Cluster

/-- The pool that the section takes away, unless it is refused. -/
def Commit.vacates (c : Cluster) : Commit → Option String
  | deletePool name =>
    if c.executions.any (fun execution => execution.activeIn name) then none else some name
  | updateEnvironment _ _ request old image _ =>
    if needsRebuild old image.id request && !runningIn old.pool c then some old.pool else none
  | restartEnvironment _ id =>
    ((c.environments.get id).map Environment.pool).filter (fun pool => !runningIn pool c)
  | deleteEnvironment id =>
    if c.executions.any (fun execution =>
      decide (execution.environment = some id) && execution.status.active) then none
    else (c.environments.get id).map Environment.pool
  | completeExecution node id _ _ =>
    (((c.executions.get id).filter (fun execution => decide (execution.node = some node))).map
      Execution.pool).filter (fun pool => stalePool pool (c.forget id))
  | _ => none

/-- The environment that the section takes away, unless it is refused. -/
def Commit.closes (c : Cluster) : Commit → Option Uuid
  | deleteEnvironment id =>
    if c.executions.any (fun execution =>
      decide (execution.environment = some id) && execution.status.active) then none
    else some id
  | _ => none

section
variable {c : Cluster}

theorem retains_restart (fresh : Uuid) (environment : Environment) :
    c.Retains (settle (restartEnvironmentPool fresh environment c)).cluster
      (if runningIn environment.pool c then none else some environment.pool) none := by
  have looped (vacated : Option String) : c.Retains
      (moved (restartedPoolName environment.id fresh) environment.pool c) vacated none :=
    .of_same (moved_pools ..) (moved_environments ..)
  have unmoved := runningIn_moved (restartedPoolName environment.id fresh) environment.pool c
  rcases restartEnvironmentPool_cases fresh environment c with
    ⟨old, known, running, same⟩ | ⟨unknown, running, same⟩ | ⟨idle, same⟩
  · rw [unmoved] at running
    rw [same, if_pos running]
    refine .scheduleQueued (.insertEnvironment _ (.insertPool _ ?_))
    exact ⟨fun name there _ => by simp [Cluster.quietPool, there], fun id there _ => by
      simpa [Cluster.quietPool] using there⟩
  · rw [same]
    exact looped _
  · rw [unmoved] at idle
    rw [same, idle]
    exact .scheduleQueued (.insertEnvironment _ (.insertPool _ ((looped none).removePool _)))

/-- A section takes no pool and no environment away but those it is said to. -/
theorem Commit.retains [Crates] {commit : Commit} {result : Section}
    (ran : commit.run c = .ok result) :
    c.Retains result.cluster (commit.vacates c) (commit.closes c) := by
  cases commit with
  | importImage image =>
    obtain rfl := Except.ok.inj ran
    exact .of_same rfl rfl
  | updateImage id update =>
    obtain ⟨image, -, rfl⟩ := updateImage_eq_ok ran
    exact .of_same rfl rfl
  | deleteImage id =>
    obtain ⟨-, -, rfl⟩ := deleteImage_eq_ok ran
    exact .of_same rfl rfl
  | createPool pool =>
    obtain ⟨-, -, -, rfl⟩ := createPool_eq_ok ran
    exact .insertPool pool (.of_same rfl rfl)
  | deletePool name =>
    obtain ⟨unused, rfl⟩ := deletePool_eq_ok ran
    rw [vacates, unused]
    exact .removePool (.of_same rfl rfl) name
  | createEnvironment id request image artifact =>
    obtain rfl := Except.ok.inj ran
    exact .insertEnvironment _ (.insertPool _ (.of_same rfl rfl))
  | updateEnvironment fresh id request old image artifact =>
    obtain rfl := Except.ok.inj ran
    rw [updateEnvironment_eq, vacates]
    cases rebuild : needsRebuild old image.id request with
    | true =>
      have restarted := retains_restart (c := c) fresh
        (requestedEnvironment id request image.id artifact old.pool)
      cases running : runningIn old.pool c <;>
        simpa [requestedEnvironment, running, closes] using restarted
    | false =>
      exact .scheduleQueued (.insertEnvironment _ (.insertPool _ (.of_same rfl rfl)))
  | restartEnvironment fresh id =>
    obtain ⟨environment, present, rfl⟩ := restartEnvironment_eq_ok ran
    have restarted := retains_restart (c := c) fresh environment
    cases running : runningIn environment.pool c <;>
      simpa [vacates, present, running, closes, Option.filter_some] using restarted
  | deleteEnvironment id =>
    obtain ⟨environment, present, unused, rfl⟩ := deleteEnvironment_eq_ok ran
    have own := Keyed.key_of_get present
    rw [vacates, closes, unused, present]
    have removed : c.Retains (withoutEnvironment c environment) (some environment.pool)
        (some id) := by
      refine ⟨fun name known stays => ?_, fun other known stays => ?_⟩
      · have differ : name ≠ environment.pool := fun same => stays (same ▸ rfl)
        simp [withoutEnvironment, Keyed.contains_erase, differ, known]
      · have differ : other ≠ environment.id := fun same => stays (by rw [same, own])
        simp [withoutEnvironment, Keyed.contains_erase, differ, known]
    refine removed.trans ?_
    unfold forgetArtifact
    split <;> exact .of_same rfl rfl
  | createJoinToken id tokenHash now =>
    obtain rfl := Except.ok.inj ran
    exact .of_same rfl rfl
  | joinCluster node tokenHash credentialHash now =>
    obtain ⟨token, -, rfl⟩ := joinCluster_eq_ok ran
    exact .of_same rfl rfl
  | localJoin node credentialHash =>
    obtain rfl := Except.ok.inj ran
    exact .of_same rfl rfl
  | updateNode id concurrency =>
    obtain ⟨node, -, rfl⟩ := updateNode_eq_ok ran
    exact .of_same rfl rfl
  | deleteNode id =>
    obtain ⟨-, rfl⟩ := deleteNode_eq_ok ran
    exact .scheduleQueued (.of_same rfl rfl)
  | registerNode id request now =>
    obtain rfl := Except.ok.inj ran
    refine .scheduleQueued (.of_same ?_ ?_) <;> cases request.resetIdle <;> rfl
  | imageReady id image =>
    obtain rfl := imageReady_eq_ok ran
    exact .scheduleQueued (.of_same rfl rfl)
  | environmentReady id artifact =>
    obtain rfl := environmentReady_eq_ok ran
    exact .scheduleQueued (.of_same rfl rfl)
  | addWarmInstance id pool =>
    obtain rfl := Except.ok.inj ran
    refine .scheduleIfChanged fun next added => ?_
    obtain ⟨_, _, _, _, _, _, rfl⟩ := Cluster.addWarmInstance_eq_some added
    exact ⟨rfl, rfl⟩
  | removeIdleInstance id pool =>
    obtain rfl := Except.ok.inj ran
    refine .scheduleIfChanged fun next removed => ?_
    obtain ⟨_, _, _, _, _, rfl⟩ := Cluster.removeIdleInstance_eq_some removed
    exact ⟨rfl, rfl⟩
  | createExecution id request secrets now =>
    rcases createExecution_eq_ok ran with rfl | ⟨_, _, _, _, _, rfl⟩ <;> exact .of_same rfl rfl
  | nextWork id choice now =>
    rcases nextWork_eq_ok ran with rfl | ⟨execution, rfl, -, ⟨-, rfl⟩ | ⟨pool, -, rfl⟩⟩ <;>
      exact .of_same rfl rfl
  | completeExecution node id request now =>
    obtain ⟨execution, present, placed, rfl⟩ := completeExecution_eq_ok ran
    have own := Keyed.key_of_get present
    have ended (vacated : Option String) :
        c.Retains (c.finish execution.id request.keepIdle) vacated none := by
      refine .of_same ?_ ?_ <;> simp [Cluster.finish, Cluster.forget]
    have stale : stalePool execution.pool (c.finish execution.id request.keepIdle) =
        stalePool execution.pool (c.forget id) := by
      simp [stalePool, Cluster.finish, Cluster.forget, own]
    refine .scheduleQueued ?_
    rw [cleaned, stale]
    simp only [vacates, closes, present, Option.filter_some, placed, decide_true, ↓reduceIte,
      Option.map_some]
    cases stalePool execution.pool (c.forget id) with
    | true => exact (ended none).removePool _
    | false => exact ended none

/-- A section that takes over no save of the cluster leaves its pools and environments alone. -/
theorem Ending.saves [Crates] {commit : Commit} {result : Section}
    (ending : Ending c commit result) :
    (∃ rest, result.ops = .saveCluster :: rest ∧ Op.saveCluster ∉ rest ∧ Op.unlock ∈ rest) ∨
      Op.saveCluster ∉ result.ops ∧ result.cluster.pools = c.pools ∧
        result.cluster.environments = c.environments := by
  cases ending with
  | saved _ ops => exact .inl ⟨_, ops, by simp, by simp⟩
  | scheduled | restarted | updated | completed =>
    exact .inl ⟨_, rfl, by simp, by simp⟩
  | deletedEnvironment => exact .inl ⟨_, rfl, by simp, by simp⟩
  | unchanged | createPanicked | created => exact .inr ⟨by simp [panicSection], rfl, rfl⟩
  | restartPanicked name pool =>
    exact .inr ⟨by simp [panicSection], moved_pools .., moved_environments ..⟩
  | workPanicked | worked => exact .inr ⟨by simp [panicSection], rfl, rfl⟩

end

/-! Rows that tell something of an execution beside the time of its creation. -/

namespace RowsAre
section
variable [Crates] {q : Execution → Prop} {rows : Keyed Row.id} {execution : Execution}
  {db next : Database}

theorem holds_upsert (within : RowsAre (fun row => q (executionFromRow row)) rows)
    (new : ∀ time, q { execution with createdAtMs := time }) :
    RowsAre (fun row => q (executionFromRow row)) (upsertExecution rows execution) := by
  obtain ⟨row, stores, written⟩ := upsertExecution_row rows execution
  intro id found there
  rw [written] at there
  split_ifs at there
  · obtain rfl := Option.some.inj there
    rw [Row.Stores] at stores
    exact stores ▸ new _
  · exact within id found there

theorem holds_upsertAll {copies : List Execution}
    (within : RowsAre (fun row => q (executionFromRow row)) rows)
    (new : ∀ copy ∈ copies, ∀ time, q { copy with createdAtMs := time }) :
    RowsAre (fun row => q (executionFromRow row)) (copies.foldl upsertExecution rows) := by
  induction copies generalizing rows with
  | nil => exact within
  | cons copy rest ih =>
    exact ih (within.holds_upsert (new copy List.mem_cons_self))
      (fun other member => new other (List.mem_cons_of_mem _ member))

theorem holds_insertExecution {sealed : Bytes} {accepted : Bool}
    (within : RowsAre (fun row => q (executionFromRow row)) db.rows)
    (new : ∀ time, q { execution with createdAtMs := time })
    (done : db.insertExecution execution sealed = some (next, accepted)) :
    RowsAre (fun row => q (executionFromRow row)) next.rows := by
  simp only [Database.insertExecution, Option.bind_eq_some_iff, Option.map_eq_some_iff] at done
  obtain ⟨pruned, kept, used, -, outcome⟩ := done
  have left : RowsAre (fun row => q (executionFromRow row)) pruned.rows := by
    refine RowsAre.prune ?_ kept
    dsimp only
    split_ifs
    · exact within.holds_upsert new
    · exact (within.holds_upsert new).adjust _ _ (fun _ holds => holds)
  split_ifs at outcome <;> cases outcome
  · exact left.erase execution.id
  · exact left

theorem holds_completeExecution
    (within : RowsAre (fun row => q (executionFromRow row)) db.rows)
    (new : ∀ time, q { execution with createdAtMs := time })
    (full : ∀ time, q { Database.storageFull execution with createdAtMs := time })
    (done : db.completeExecution execution = some next) :
    RowsAre (fun row => q (executionFromRow row)) next.rows := by
  simp only [Database.completeExecution, Option.bind_eq_some_iff, Option.map_eq_some_iff] at done
  obtain ⟨pruned, kept, used, -, rfl⟩ := done
  have left : RowsAre (fun row => q (executionFromRow row)) pruned.rows := by
    refine RowsAre.prune ?_ kept
    dsimp only
    exact (within.holds_upsert new).adjust _ _ (fun _ holds => holds)
  split_ifs
  · exact left.holds_upsert full
  · exact left

end
end RowsAre

/-! The stored cluster and the calls that are still to be made. -/

namespace System

/-- The cluster that the next process starts from. -/
def stored (s : System) : Cluster := s.database.cluster.getD Cluster.empty

/-- A handler has still to save the cluster. -/
def Saving (s : System) : Prop :=
  ∃ ops reply, Frame.running ops reply ∈ s.inflight ∧ Op.saveCluster ∈ ops

/-- The executions of the rows, and those that handlers have still to write, as far as they are not
over: the next process may load them. -/
def recorded (s : System) : List Execution :=
  (s.database.rows.values.map executionFromRow ++ s.inflight.flatMap Frame.writes).filter
    (fun execution => execution.status.active)

/-- The section that the step enters leaves the executions of the rows, and of those to come, their
pools and environments. -/
def SparesRecorded (s : System) (label : Label) : Prop :=
  ∀ commit, s.entering label = some commit → ∀ execution ∈ s.recorded,
    commit.vacates s.cluster ≠ some execution.pool ∧
      ∀ id, commit.closes s.cluster = some id → execution.environment ≠ some id

instance (s : System) (label : Label) : Decidable (s.SparesRecorded label) :=
  decidable_of_iff ((s.entering label).all (fun commit => s.recorded.all (fun execution =>
      decide (commit.vacates s.cluster ≠ some execution.pool) &&
        (commit.closes s.cluster).all (fun id => decide (execution.environment ≠ some id)))) =
      true) (by
    simp only [SparesRecorded, Option.all_eq_true, List.all_eq_true, Bool.and_eq_true,
      decide_eq_true_eq])

/-- The step is the failure of a call that saves the cluster. -/
def failsSave (s : System) : Label → Bool
  | .op index false =>
    match s.inflight[index]? with
    | some (.running (.saveCluster :: _) _) => true
    | _ => false
  | _ => false

/-- A save of the cluster that fails would have added no pool and no environment. -/
def SparesPlaces (s : System) (label : Label) : Prop :=
  s.failsSave label = true → s.cluster.Inside s.stored

instance (s : System) (label : Label) : Decidable (s.SparesPlaces label) :=
  inferInstanceAs (Decidable (_ → _))

/-- The condition on a run: no section and no failure parts an execution from its pool or its
environment, and every `create_execution` finds the environment of the pool that it names. -/
def Lodging (s : System) (label : Label) : Prop :=
  s.SparesPool label ∧ s.SparesRecorded label ∧ s.SparesPlaces label ∧ s.Sponsored label

instance (s : System) (label : Label) : Decidable (s.Lodging label) :=
  inferInstanceAs (Decidable (_ ∧ _ ∧ _ ∧ _))

/-- The execution has its pool and its environment in memory and in the stored cluster. -/
def Keeps (s : System) (execution : Execution) : Prop :=
  s.cluster.Lodges execution ∧ s.stored.Lodges execution

section
variable [Crates] {s t : System} {label : Label}

/-- The frames with calls that a step does not go on with stay in flight. -/
theorem calls_stay (stepped : s.step label = some t) (same : restarts label = false)
    {index : Nat} {ops : List Op} {reply : Reply}
    (there : s.inflight[index]? = some (.running ops reply))
    (idle : ∀ succeeds, label ≠ .op index succeeds) : Frame.running ops reply ∈ t.inflight := by
  have member := List.mem_of_getElem? there
  have erased {gone : Nat} (other : index ≠ gone) :
      Frame.running ops reply ∈ s.inflight.eraseIdx gone :=
    List.mem_eraseIdx_iff_getElem?.mpr ⟨index, other, there⟩
  have exchanged {gone : Nat} (other : index ≠ gone) (next : Frame) :
      Frame.running ops reply ∈ s.inflight.set gone next :=
    List.mem_of_getElem? (by rw [List.getElem?_set_ne (Ne.symm other)]; exact there)
  have shifts := step_shifts stepped
  cases label with
  | client | authenticate | checkEnvironment | checkImport =>
    rcases shifts with same | ⟨frame, same⟩ <;> rw [same]
    · exact member
    · exact List.mem_append_left _ member
  | enter gone input =>
    obtain ⟨⟨frame, enters, apart⟩, moved⟩ := shifts
    have other : index ≠ gone := by
      rintro rfl
      exact apart ops reply (Option.some.inj (enters.symm.trans there))
    rcases moved with same | ⟨_, same⟩ <;> rw [same]
    · exact erased other
    · exact List.mem_append_left _ (erased other)
  | prepare gone event =>
    obtain ⟨⟨job, prepares⟩, moved⟩ := shifts
    have other : index ≠ gone := by
      rintro rfl
      cases Option.some.inj (prepares.symm.trans there)
    rcases moved with same | ⟨_, same⟩ <;> rw [same]
    · exact erased other
    · exact exchanged other _
  | op gone succeeds =>
    have other : index ≠ gone := fun same => idle succeeds (same ▸ rfl)
    rcases shifts.2 with same | ⟨_, _, same⟩ <;> rw [same]
    · exact erased other
    · exact exchanged other _
  | restart => cases same
  | _ =>
    rw [show t.inflight = s.inflight from shifts]
    exact member

/-- What a step of one process makes of the pools and the environments. -/
theorem cluster_step (stepped : s.step label = some t) (same : restarts label = false) :
    s.cluster.Retains t.cluster ((s.entering label).bind (Commit.vacates s.cluster))
      ((s.entering label).bind (Commit.closes s.cluster)) := by
  cases step_cases stepped with
  | performed _ commit others result free allowed entered ran =>
    rw [entered.entering]
    exact Commit.retains ran
  | admitted =>
    exact .of_same (admitExecution_pools ..) (admitExecution_environments ..)
  | called index op rest before after next there plain done =>
    have same := (runOp_frame plain done).1
    exact .of_same (congrArg Cluster.pools same) (congrArg Cluster.environments same)
  | restarted => cases same
  | _ => exact .of_same rfl rfl

/-- What a step of one process makes of the stored cluster. -/
theorem stored_step (stepped : s.step label = some t) (same : restarts label = false) :
    t.stored = s.stored ∨ ∃ index rest reply, label = .op index true ∧
      s.inflight[index]? = some (.running (.saveCluster :: rest) reply) ∧
      t.stored = { s.cluster with executions := ∅ } := by
  rcases step_saved stepped same with kept | ⟨index, rest, reply, own, there, saved⟩
  · exact .inl (by rw [stored, kept, stored])
  · exact .inr ⟨index, rest, reply, own, there, by rw [stored, saved]; rfl⟩

omit [Crates] in
/-- An execution that the step's section leaves alone, if it is not over. -/
def Spares (s : System) (label : Label) (execution : Execution) : Prop :=
  execution.status.active = true → ∀ commit, s.entering label = some commit →
    commit.vacates s.cluster ≠ some execution.pool ∧
      ∀ id, commit.closes s.cluster = some id → execution.environment ≠ some id

theorem lodges_step {execution : Execution} (stepped : s.step label = some t)
    (same : restarts label = false) (spares : s.Spares label execution)
    (lodges : s.cluster.Lodges execution) : t.cluster.Lodges execution := by
  refine lodges.retained (cluster_step stepped same) (fun active => ?_)
  cases entered : s.entering label with
  | none => exact ⟨by simp, by simp⟩
  | some commit => exact spares active commit entered

omit [Crates] in
theorem Keeps.created {execution : Execution} (keeps : s.Keeps execution) (time : Nat) :
    s.Keeps { execution with createdAtMs := time } := keeps

/-- An execution keeps its pool and its environment; those in memory are enough if the cluster is
saved. -/
theorem keeps_step {execution : Execution} (stepped : s.step label = some t)
    (same : restarts label = false) (spares : s.Spares label execution)
    (lodges : s.cluster.Lodges execution)
    (kept : s.stored.Lodges execution ∨ t.stored = { s.cluster with executions := ∅ }) :
    t.Keeps execution := by
  refine ⟨lodges_step stepped same spares lodges, ?_⟩
  rcases stored_step stepped same with unsaved | ⟨index, rest, reply, rfl, there, saved⟩
  · rcases kept with kept | saved
    · rw [unsaved]
      exact kept
    · rw [saved]
      exact lodges
  · rw [saved]
    exact lodges

end

/-- The executions that the next process may load have their pools and environments. -/
structure Recoverable (s : System) : Prop where
  seated : Seated s.cluster
  housed : Housed s.cluster
  tenancy : Tenancy s
  bare : ∀ stored, s.database.cluster = some stored → stored.executions = ∅
  rows : RowsAre (fun row => s.Keeps (executionFromRow row)) s.database.rows
  writes : ∀ ops reply op execution, Frame.running ops reply ∈ s.inflight → op ∈ ops →
    execution ∈ op.writes → s.cluster.Lodges execution ∧
      (Op.saveCluster ∈ ops ∨ s.stored.Lodges execution)
  saving : ∀ ops reply, Frame.running ops reply ∈ s.inflight → Op.saveCluster ∈ ops →
    ∃ rest, ops = .saveCluster :: rest ∧ Op.saveCluster ∉ rest ∧ Op.unlock ∈ rest
  current : s.cluster.Inside s.stored ∨ s.Saving

section
variable [Crates] {s t : System} {label : Label}

omit [Crates] in
/-- Whatever is in memory has its pool and its environment there. -/
theorem Recoverable.memory (orderly : Orderly s.cluster) (seated : Seated s.cluster)
    (housed : Housed s.cluster) (tenancy : Tenancy s) {id : Uuid} {execution : Execution}
    (present : s.cluster.executions.get id = some execution) : s.cluster.Lodges execution := by
  intro _
  exact ⟨pool_of_active orderly seated housed present, tenancy.cluster id execution present⟩

omit [Crates] in
/-- Only the first call of a handler saves the cluster. -/
theorem Recoverable.first (recoverable : s.Recoverable) {op : Op} {rest : List Op} {reply : Reply}
    (member : Frame.running (op :: rest) reply ∈ s.inflight) : Op.saveCluster ∉ rest := by
  intro later
  obtain ⟨_, same, never, -⟩ := recoverable.saving _ reply member (List.mem_cons_of_mem _ later)
  cases same
  exact never later

omit [Crates] in
/-- A handler that has the cluster to save holds the lock. -/
theorem Recoverable.holds (recoverable : s.Recoverable) {ops : List Op} {reply : Reply}
    (member : Frame.running ops reply ∈ s.inflight) (saves : Op.saveCluster ∈ ops) :
    (Frame.running ops reply).holdsLock = true := by
  obtain ⟨rest, rfl, -, unlocks⟩ := recoverable.saving ops reply member saves
  exact List.any_eq_true.mpr ⟨.unlock, List.mem_cons_of_mem _ unlocks, rfl⟩

omit [Crates] in
/-- While the lock is free the stored cluster has all pools and environments. -/
theorem Recoverable.inside_of_free (recoverable : s.Recoverable) (free : s.locked = false) :
    s.cluster.Inside s.stored := by
  rcases recoverable.current with inside | ⟨ops, reply, member, saves⟩
  · exact inside
  · exact absurd (recoverable.holds member saves) (List.any_eq_false.mp free _ member)

omit [Crates] in
/-- So it has while a handler is about to insert a row. -/
theorem Recoverable.inside_of_insert (recoverable : s.Recoverable) (sound : Sound s) {index : Nat}
    {execution : Execution} (inserts : Inserts s index execution) :
    s.cluster.Inside s.stored := by
  rcases recoverable.current with inside | ⟨ops, reply, member, saves⟩
  · exact inside
  · obtain ⟨secrets, queue, rest, before, there⟩ := inserts
    obtain ⟨place, found⟩ := List.getElem?_of_mem member
    obtain rfl := unique_of_countP sound.once found there (recoverable.holds member saves) rfl
    obtain ⟨rfl, -⟩ := Frame.running.inj (Option.some.inj (found.symm.trans there))
    obtain ⟨_, same, -⟩ := recoverable.saving _ _ member saves
    cases same

omit [Crates] in
/-- The row of an active execution is among those that a section spares. -/
theorem SparesRecorded.row (spares : s.SparesRecorded label) {id : Uuid} {row : Row}
    (there : s.database.rows.get id = some row) : s.Spares label (executionFromRow row) := by
  intro active commit entered
  refine spares commit entered _ (List.mem_filter.mpr ⟨List.mem_append_left _ ?_, active⟩)
  exact List.mem_map_of_mem (Keyed.mem_of_get there)

omit [Crates] in
/-- So is the execution that a call has still to write. -/
theorem SparesRecorded.write (spares : s.SparesRecorded label) {ops : List Op} {reply : Reply}
    {op : Op} {execution : Execution} (member : Frame.running ops reply ∈ s.inflight)
    (inside : op ∈ ops) (writes : execution ∈ op.writes) : s.Spares label execution := by
  intro active commit entered
  refine spares commit entered _ (List.mem_filter.mpr ⟨List.mem_append_right _ ?_, active⟩)
  exact List.mem_flatMap.mpr ⟨_, member, List.mem_flatMap.mpr ⟨op, inside, writes⟩⟩

/-- Only the first call of a handler saves the cluster, after a step as well. -/
theorem Recoverable.saving_step (recoverable : s.Recoverable) (stepped : s.step label = some t) :
    ∀ ops reply, Frame.running ops reply ∈ t.inflight → Op.saveCluster ∈ ops →
      ∃ rest, ops = .saveCluster :: rest ∧ Op.saveCluster ∉ rest ∧ Op.unlock ∈ rest := by
  intro ops reply member saves
  cases frame_cases stepped member with
  | stayed _ before => exact recoverable.saving ops reply before saves
  | performed commit others result free allowed entered ran =>
    exact (Commit.ending ran).saves.resolve_right (fun never => never.1 saves)
  | called op _ before _ next earlier done => exact absurd saves (recoverable.first earlier)
  | admitted execution sealed queue rest before earlier =>
    rcases admitExecution_ops execution queue s.cluster with ⟨copy, shape⟩ | shape <;>
      simp [shape] at saves
  | rejected => cases saves
  | ignored artifact _ _ earlier => exact absurd saves (recoverable.first earlier)

/-- The stored cluster has what is in memory, or a handler is about to save it. -/
theorem Recoverable.current_step (recoverable : s.Recoverable) (places : s.SparesPlaces label)
    (stepped : s.step label = some t) (same : restarts label = false) :
    t.cluster.Inside t.stored ∨ t.Saving := by
  have settles (back : t.cluster.Inside s.cluster) : t.cluster.Inside t.stored ∨ t.Saving := by
    rcases stored_step stepped same with unsaved | ⟨index, rest, reply, -, -, saved⟩
    · rcases recoverable.current with inside | ⟨ops, reply, member, saves⟩
      · exact .inl (unsaved ▸ back.trans inside)
      · obtain ⟨index, there⟩ := List.getElem?_of_mem member
        obtain ⟨rest, rfl, -⟩ := recoverable.saving ops reply member saves
        by_cases own : ∃ succeeds, label = .op index succeeds
        · obtain ⟨succeeds, rfl⟩ := own
          cases succeeds with
          | false => exact .inl (unsaved ▸ back.trans (places (by simp [failsSave, there])))
          | true =>
            simp only [step, there, callOp, ↓reduceIte, runOp, Option.some.injEq] at stepped
            subst stepped
            exact .inl (.of_same rfl rfl)
        · exact .inr ⟨_, reply, calls_stay stepped same there (fun succeeds equal =>
            own ⟨succeeds, equal⟩), saves⟩
    · rw [saved]
      exact .inl (back.trans (.of_same rfl rfl))
  cases step_cases stepped with
  | performed _ commit others result free allowed entered ran =>
    rcases (Commit.ending ran).saves with ⟨rest, saves, -⟩ | ⟨-, pools, environments⟩
    · refine .inr ⟨result.ops, result.reply, List.mem_append_right _ List.mem_cons_self, ?_⟩
      rw [saves]
      exact List.mem_cons_self
    · exact .inl (Cluster.Retains.trans (.of_same pools.symm environments.symm)
        (recoverable.inside_of_free free))
  | admitted =>
    exact settles (.of_same (admitExecution_pools ..).symm (admitExecution_environments ..).symm)
  | called index op rest before after next there plain done =>
    have same := (runOp_frame plain done).1
    exact settles (.of_same (congrArg Cluster.pools same).symm
      (congrArg Cluster.environments same).symm)
  | restarted => cases same
  | _ => exact settles (.of_same rfl rfl)

/-- What a call is about to write has its pool and its environment in the stored cluster, too. -/
theorem Recoverable.keeps_written (recoverable : s.Recoverable) (spares : s.SparesRecorded label)
    (stepped : s.step label = some t) (same : restarts label = false) {op : Op} {rest : List Op}
    {reply : Reply} (member : Frame.running (op :: rest) reply ∈ s.inflight)
    {execution : Execution} (writes : execution ∈ op.writes) : t.Keeps execution := by
  obtain ⟨lodges, kept⟩ := recoverable.writes _ _ op execution member List.mem_cons_self writes
  refine keeps_step stepped same (spares.write member List.mem_cons_self writes) lodges
    (.inl (kept.resolve_left (fun saves => ?_)))
  rcases List.mem_cons.mp saves with rfl | later
  · cases writes
  · exact recoverable.first member later

/-- So has the execution whose row a handler is about to insert. -/
theorem Recoverable.keeps_inserted (recoverable : s.Recoverable) (sound : Sound s) {index : Nat}
    {succeeds : Bool} (stepped : s.step (.op index succeeds) = some t) {execution : Execution}
    (inserts : Inserts s index execution) : t.Keeps execution := by
  obtain ⟨⟨-, -, -, known⟩, -⟩ := sound.inserting inserts
  have inside := recoverable.inside_of_insert sound inserts
  obtain ⟨secrets, queue, rest, reply, there⟩ := inserts
  have lodges : s.cluster.Lodges execution := fun _ =>
    ⟨known, recoverable.tenancy.pending _ _ execution secrets queue (List.mem_of_getElem? there)
      List.mem_cons_self⟩
  exact keeps_step stepped rfl (fun _ commit entered => by cases entered) lodges
    (.inl (lodges.inside inside))

/-- The rows after a step are of executions that have their pools and environments. -/
theorem Recoverable.rows_step (recoverable : s.Recoverable) (sound : Sound s)
    (spares : s.SparesRecorded label) (stepped : s.step label = some t) (same : restarts label = false) :
    RowsAre (fun row => t.Keeps (executionFromRow row)) t.database.rows := by
  have before : RowsAre (fun row => t.Keeps (executionFromRow row)) s.database.rows :=
    fun id row there => keeps_step stepped same (spares.row there) (recoverable.rows id row there).1
      (.inl (recoverable.rows id row there).2)
  cases step_cases stepped with
  | called index op rest reply after next there plain done =>
    have written {execution : Execution} (writes : execution ∈ op.writes) :=
      recoverable.keeps_written spares stepped same (List.mem_of_getElem? there) writes
    cases op with
    | insertExecution => cases plain
    | saveExecution copy =>
      simp only [runOp, Option.some.injEq, Prod.mk.injEq] at done
      obtain ⟨rfl, -⟩ := done
      exact before.holds_upsert (written List.mem_cons_self).created
    | saveExecutions copies =>
      simp only [runOp, Option.some.injEq, Prod.mk.injEq] at done
      obtain ⟨rfl, -⟩ := done
      exact before.holds_upsertAll (fun copy member => (written member).created)
    | completeExecution execution =>
      simp only [runOp, Option.map_eq_some_iff, Prod.mk.injEq] at done
      obtain ⟨database, stored, rfl, -⟩ := done
      exact before.holds_completeExecution (written List.mem_cons_self).created
        (fun _ => ⟨.of_ended rfl, .of_ended rfl⟩) stored
    | deleteExecution id =>
      simp only [runOp, Option.some.injEq, Prod.mk.injEq] at done
      obtain ⟨rfl, -⟩ := done
      exact before.erase id
    | deliver =>
      simp only [runOp, Option.map_eq_some_iff, Prod.mk.injEq] at done
      obtain ⟨_, -, rfl, -⟩ := done
      exact before
    | saveCluster | unlock | removeArtifact =>
      simp only [runOp, Option.some.injEq, Prod.mk.injEq] at done
      obtain ⟨rfl, -⟩ := done
      exact before
  | admitted index execution secrets queue rest reply database there stored
  | rejected index execution secrets queue rest reply database there stored =>
    exact before.holds_insertExecution (recoverable.keeps_inserted sound stepped
      ⟨secrets, queue, rest, reply, there⟩).created stored
  | pruned now =>
    cases done : Scraperack.prune s.database now none with
    | none => simpa [done] using before
    | some next => simpa [done] using RowsAre.prune before done
  | restarted => cases same
  | _ => exact before

/-- What handlers have to write after a step has its pool and its environment in memory, and in the
stored cluster unless that is about to be saved. -/
theorem Recoverable.writes_step (recoverable : s.Recoverable) (sound : Sound s)
    (spares : s.SparesRecorded label)
    (held : ∀ id execution, t.cluster.executions.get id = some execution →
      t.cluster.Lodges execution)
    (stepped : s.step label = some t) (same : restarts label = false) :
    ∀ ops reply op execution, Frame.running ops reply ∈ t.inflight → op ∈ ops →
      execution ∈ op.writes → t.cluster.Lodges execution ∧
        (Op.saveCluster ∈ ops ∨ t.stored.Lodges execution) := by
  intro ops reply op execution member inside writes
  -- A handler that has made a call does not save the cluster any more; if that call saved it, the
  -- stored cluster is the one in memory.
  have advanced {done : Op} {before : Reply} {index : Nat}
      (earlier : s.inflight[index]? = some (.running (done :: ops) before))
      (saved : done = .saveCluster → t.stored = { s.cluster with executions := ∅ }) :
      t.Keeps execution := by
    have there := List.mem_of_getElem? earlier
    obtain ⟨lodges, kept⟩ :=
      recoverable.writes _ _ op execution there (List.mem_cons_of_mem _ inside) writes
    refine keeps_step stepped same (spares.write there (List.mem_cons_of_mem _ inside) writes)
      lodges ?_
    rcases kept with saves | kept
    · rcases List.mem_cons.mp saves with rfl | later
      · exact .inr (saved rfl)
      · exact absurd later (recoverable.first there)
    · exact .inl kept
  have stayed (before : Frame.running ops reply ∈ s.inflight) : t.cluster.Lodges execution ∧
      (Op.saveCluster ∈ ops ∨ t.stored.Lodges execution) := by
    obtain ⟨lodges, kept⟩ := recoverable.writes ops reply op execution before inside writes
    have spared := spares.write before inside writes
    exact ⟨lodges_step stepped same spared lodges, kept.imp_right (fun kept =>
      (keeps_step stepped same spared lodges (.inl kept)).2)⟩
  cases step_cases stepped with
  | refused _ others error fewer => exact stayed (fewer.subset member)
  | authenticated | started | importing => exact stayed (by simpa using member)
  | performed _ commit others result free allowed entered ran =>
    rcases List.mem_append.mp member with before | new
    · exact stayed (entered.fewer.subset before)
    · obtain ⟨rfl, rfl⟩ := Frame.running.inj (List.mem_singleton.mp new)
      rcases mem_writes (List.mem_flatMap.mpr ⟨op, inside, writes⟩) with
        ⟨saves, among, copies⟩ | completes
      · have lodges := held _ execution ((Commit.ending ran).copies among copies)
        refine ⟨lodges, ?_⟩
        rcases (Commit.ending ran).saves with ⟨rest, saves, -⟩ | ⟨-, pools, environments⟩
        · exact .inl (by rw [saves]; exact List.mem_cons_self)
        · exact .inr (lodges.inside (Cluster.Retains.trans (.of_same pools.symm environments.symm)
            (recoverable.inside_of_free free)))
      · have ended : execution.status.active = false := by
          rw [ExecutionStatus.active_eq_not_terminal, completing_of_run ran completes]
          rfl
        exact ⟨.of_ended ended, .inr (.of_ended ended)⟩
  | declined _ commit others error entered => exact stayed (entered.fewer.subset member)
  | prepared index event job next files there done =>
    rcases List.mem_or_eq_of_mem_set member with before | new
    · exact stayed before
    · cases new
  | answered | failed => exact stayed ((List.eraseIdx_sublist _ _).subset member)
  | ignored index artifact rest reply there =>
    rcases List.mem_or_eq_of_mem_set member with before | new
    · exact stayed before
    · obtain ⟨rfl, rfl⟩ := Frame.running.inj new
      have keeps := advanced there (fun saves => by cases saves)
      exact ⟨keeps.1, .inr keeps.2⟩
  | called index done rest before after next there plain ran =>
    rcases List.mem_or_eq_of_mem_set member with earlier | new
    · exact stayed earlier
    · obtain ⟨rfl, rfl⟩ := Frame.running.inj new
      have keeps := advanced there (fun saves => by
        subst saves
        simp only [runOp, Option.some.injEq, Prod.mk.injEq] at ran
        obtain ⟨rfl, -⟩ := ran
        rfl)
      exact ⟨keeps.1, .inr keeps.2⟩
  | admitted index admitted secrets queue rest before database there stored =>
    rcases List.mem_or_eq_of_mem_set member with earlier | new
    · exact stayed earlier
    · obtain ⟨rfl, rfl⟩ := Frame.running.inj new
      have copies : execution ∈ op.copies := by
        rcases admitExecution_ops admitted queue s.cluster with ⟨copy, shape⟩ | shape <;>
          rw [shape] at inside <;>
          simp only [List.mem_cons, List.not_mem_nil, or_false] at inside <;>
          rcases inside with rfl | rfl <;> exact writes
      have lodges := held _ execution (admitExecution_copies inside copies)
      have current := recoverable.inside_of_insert sound ⟨secrets, queue, rest, before, there⟩
      have unsaved : System.stored { s with database := database } = s.stored := by
        rw [System.stored, insertExecution_cluster stored, System.stored]
      refine ⟨lodges, .inr ?_⟩
      change (System.stored { s with database := database }).Lodges execution
      rw [unsaved]
      exact lodges.inside (Cluster.Retains.trans (.of_same (admitExecution_pools ..).symm
        (admitExecution_environments ..).symm) current)
  | rejected =>
    rcases List.mem_or_eq_of_mem_set member with earlier | new
    · exact stayed earlier
    · obtain ⟨rfl, rfl⟩ := Frame.running.inj new
      cases inside
  | restarted => cases same
  | _ => exact stayed member

/-- A step of one process that meets the condition. -/
theorem Recoverable.step (recoverable : s.Recoverable) (sound : Sound s) (lodging : s.Lodging label)
    (stepped : s.step label = some t) (same : restarts label = false) : t.Recoverable := by
  obtain ⟨spares, recorded, places, sponsored⟩ := lodging
  have seated := seated_step sound spares recoverable.seated stepped same
  have housed := housed_step sound spares recoverable.seated recoverable.housed stepped same
  have tenancy := recoverable.tenancy.step sound sponsored stepped same
  have orderly := sound.orderly_step stepped same
  exact ⟨seated, housed, tenancy, bare_step stepped recoverable.bare,
    recoverable.rows_step sound recorded stepped same,
    recoverable.writes_step sound recorded (fun _ _ present =>
      Recoverable.memory orderly seated housed tenancy present) stepped same,
    recoverable.saving_step stepped, recoverable.current_step places stepped same⟩

/-! Restarts. -/

omit [Crates] in
theorem migrateLegacy_inside (fresh : String → Uuid) (c : Cluster) :
    c.Inside (migrateLegacy fresh c) := by
  have folded (pools : List Pool) (d : Cluster) :
      d.Inside (pools.foldl (migratePool fresh) d) := by
    induction pools generalizing d with
    | nil => exact .of_same rfl rfl
    | cons pool rest ih =>
      refine Cluster.Retains.trans ⟨fun name known _ => ?_, fun id known _ => ?_⟩ (ih _)
      · simpa [migratePool] using known
      · simp [migratePool, Keyed.contains_insert, known]
  exact folded _ c

/-- The next process begins with the stored cluster's pools and environments, and stores them. -/
theorem inside_of_restart {fresh : String → Uuid} {now : Nat}
    (stepped : s.step (.restart fresh now) = some t) :
    s.stored.Inside t.cluster ∧ t.cluster.Inside t.stored := by
  obtain ⟨served, -, -⟩ := restart_cases stepped
  simp only [serve, Option.map_eq_some_iff, Prod.mk.injEq, Option.getD_none] at served
  obtain ⟨pruned, kept, cluster, database⟩ := served
  constructor
  · exact cluster ▸ (migrateLegacy_inside fresh s.stored).trans (.of_same rfl rfl)
  · rw [System.stored, ← database, prune_cluster kept]
    exact cluster ▸ .of_same rfl rfl

/-- It has the executions of the rows that are not over, with their pools and environments. -/
theorem Recoverable.reloaded (recoverable : s.Recoverable) {fresh : String → Uuid} {now : Nat}
    (stepped : s.step (.restart fresh now) = some t) {id : Uuid} {execution : Execution}
    (present : t.cluster.executions.get id = some execution) :
    execution.status = .queued ∧ t.cluster.pools.contains execution.pool = true ∧
      ∃ environment, execution.environment = some environment ∧
        t.cluster.environments.contains environment = true := by
  obtain ⟨row, there, active, rfl⟩ := (loaded_iff stepped recoverable.bare id execution).mp present
  have lodges := (recoverable.rows id row there).2.inside (inside_of_restart stepped).1
  refine ⟨rfl, lodges ?_⟩
  rw [ExecutionStatus.active_eq_not_terminal]
  simpa [executionFromRow] using active

theorem Recoverable.restart (recoverable : s.Recoverable) {fresh : String → Uuid} {now : Nat}
    (known : ∀ id row, s.database.rows.get id = some row → id ∈ s.issued)
    (stepped : s.step (.restart fresh now) = some t) : t.Recoverable := by
  have stored : s.stored.executions = ∅ := by
    rw [System.stored]
    cases found : s.database.cluster with
    | none => rfl
    | some cluster => exact recoverable.bare cluster found
  have loaded := loaded_of_restart stepped stored known
  obtain ⟨opened, saved⟩ := inside_of_restart stepped
  have rows : RowsAre (fun row => t.cluster.Lodges (executionFromRow row)) t.database.rows := by
    have before : RowsAre (fun row => t.cluster.Lodges (executionFromRow row)) s.database.rows :=
      fun id row there => (recoverable.rows id row there).2.inside opened
    have requeued := before.requeueRows (fun row lodges => by
      unfold Database.requeueRow
      split_ifs with active
      · exact fun _ => lodges active
      · exact lodges)
    obtain ⟨served, -, -⟩ := restart_cases stepped
    simp only [serve, Option.map_eq_some_iff, Prod.mk.injEq] at served
    obtain ⟨pruned, kept, -, database⟩ := served
    rw [← database]
    refine RowsAre.prune ?_ kept
    exact requeued
  have none {frame : Frame} (member : frame ∈ t.inflight) : False := by
    rw [loaded.started.quiet] at member
    cases member
  exact ⟨loaded.seated, fun _ _ present _ => (recoverable.reloaded stepped present).2.1,
    ⟨fun _ _ present => (recoverable.reloaded stepped present).2.2,
      fun _ _ _ _ _ member => (none member).elim⟩, bare_step stepped recoverable.bare,
    fun id row there => ⟨rows id row there, (rows id row there).inside saved⟩,
    fun _ _ _ _ member => (none member).elim, fun _ _ member => (none member).elim, .inl saved⟩

omit [Crates] in
theorem Blank.recoverable (blank : Blank s) (bare : ∀ id, s.database.rows.get id = none) :
    s.Recoverable := by
  have none {frame : Frame} (member : frame ∈ s.inflight) : False := by
    rw [blank.quiet] at member
    cases member
  refine ⟨blank.seated, fun id execution present => ?_, blank.tenancy, fun stored found => ?_,
    fun id row there => ?_, fun _ _ _ _ member => (none member).elim,
    fun _ _ member => (none member).elim, .inl ?_⟩
  · rw [blank.empty] at present
    cases present
  · rw [blank.unsaved] at found
    cases found
  · rw [bare] at there
    cases there
  · rw [System.stored, blank.unsaved, blank.empty]
    exact .of_same rfl rfl

/-- Every state of a run that meets the condition, through any number of restarts. -/
theorem Blank.recoverable_run (blank : Blank s) (bare : ∀ id, s.database.rows.get id = none)
    (silent : s.replies = []) (run : Runs.Reaches step Lodging s t) : t.Recoverable := by
  refine run.invariant_along (P := Recoverable) (blank.recoverable bare) ?_
  rintro u v label before recoverable lodging stepped
  have everywhere : Runs.Reaches step (fun _ _ => True) s u := before.mono (fun _ _ _ => trivial)
  cases same : restarts label with
  | false => exact recoverable.step (blank.sound_run bare silent everywhere) lodging stepped same
  | true =>
    cases label with
    | restart fresh now =>
      refine recoverable.restart (fun id row found => ?_) stepped
      obtain ⟨given, traced⟩ := blank.traced bare silent everywhere id
      have own : row.id = id := Keyed.key_of_get found
      obtain rfl := traced.shows.rows id row found own
      exact traced.issued rfl
    | _ => cases same

/-- The process may stop at any point of a run in which no section and no failing save parts an
execution from its pool or its environment: every execution of the next process is queued, and its
pool and its environment are there. -/
theorem crash_keeps_places {s t u : System} {fresh : String → Uuid} {now : Nat}
    (blank : Blank s) (bare : ∀ id, s.database.rows.get id = none) (silent : s.replies = [])
    (run : Runs.Reaches step Lodging s t) (stepped : t.step (.restart fresh now) = some u)
    (id : Uuid) (execution : Execution) (present : u.cluster.executions.get id = some execution) :
    execution.status = .queued ∧ u.cluster.pools.contains execution.pool = true ∧
      ∃ environment, execution.environment = some environment ∧
        u.cluster.environments.contains environment = true :=
  (blank.recoverable_run bare silent run).reloaded stepped present

end
end System

namespace Demo

/-- The node takes the execution. -/
def underway : List Label :=
  assigning ++ [.authenticate node "credential" none .nextWork, .enter 0 ⟨0, 0, some 8, none⟩] ++
    finish 0 3

/-- The environment is restarted, up to the first write of the handler. -/
def interrupting : List Label := [.client (.restartEnvironment 6 environment), .op 0 true]

end Demo

namespace System

/-- An execution runs when its environment is restarted, and the process stops between the two
writes of the handler. -/
theorem crash_keeps_places_running :
    ∃ (t u : System) (execution : Execution), t.inflight ≠ [] ∧
      u.cluster.executions.get 8 = some execution ∧ execution.status = .queued ∧
      u.cluster.pools.contains execution.pool = true := by
  have performed : Option.any (fun t : System => !t.inflight.isEmpty &&
        (@step Demo.crates t Demo.again).any (fun u : System =>
          (u.cluster.executions.get 8).isSome))
      (Runs.exec (@step Demo.crates) (fun s label => Lodging s label) Demo.empty
        (Demo.underway ++ Demo.interrupting)) = true := by
    decide +kernel
  obtain ⟨t, reached, after⟩ := (Option.any_eq_true _ _).mp performed
  simp only [Bool.and_eq_true, Bool.not_eq_true', Option.any_eq_true,
    List.isEmpty_eq_false_iff] at after
  obtain ⟨busy, u, stepped, loaded⟩ := after
  obtain ⟨execution, present⟩ := Option.isSome_iff_exists.mp loaded
  obtain ⟨queued, known, -⟩ := @crash_keeps_places Demo.crates _ _ _ _ _ ⟨fresh_empty, rfl⟩
    (fun _ => rfl) rfl (Runs.reaches_of_exec _ reached) stepped 8 execution present
  exact ⟨t, u, execution, busy, present, queued, known⟩

/-- An execution is assigned when its environment is restarted, and the process stops between the
two writes of the handler: the next one has it in a pool that is gone. -/
theorem pool_lost_in_crash :
    ∃ (t u : System) (execution : Execution),
      Runs.Reaches (@step Demo.crates) (fun _ _ => True) Demo.empty t ∧
      @step Demo.crates t Demo.again = some u ∧
      u.cluster.executions.get 8 = some execution ∧ execution.status = .queued ∧
      u.cluster.pools.contains execution.pool = false := by
  have performed : Option.any (fun t : System =>
        (@step Demo.crates t Demo.again).any (fun u : System =>
          (u.cluster.executions.get 8).any (fun execution : Execution =>
            decide (execution.status = .queued) && !u.cluster.pools.contains execution.pool)))
      (Runs.exec (@step Demo.crates) (fun _ _ => True) Demo.empty
        (Demo.assigning ++ Demo.interrupting)) = true := by
    decide +kernel
  obtain ⟨t, reached, after⟩ := (Option.any_eq_true _ _).mp performed
  simp only [Option.any_eq_true, Bool.and_eq_true, Bool.not_eq_true', decide_eq_true_eq] at after
  obtain ⟨u, stepped, execution, present, queued, gone⟩ := after
  exact ⟨t, u, execution, Runs.reaches_of_exec _ reached, stepped, present, queued, gone⟩

end System
end Scraperack
