import Scraperack.Control

/-! Pool names tell environments apart: from an empty cluster on, every pool, environment
and execution of an environment carries a name made from the environment's identifier. So the
guard of `delete_environment`, which looks at identifiers, also protects the pool it takes away. -/

namespace Scraperack

/-- Every reference to an environment goes with a pool name made from its identifier. -/
structure Named (c : Cluster) : Prop where
  environments : ∀ id environment, c.environments.get id = some environment →
    OwnName environment.id environment.pool
  pools : ∀ name pool, c.pools.get name = some pool →
    ∀ id, pool.environment = some id → OwnName id pool.name
  executions : ∀ id execution, c.executions.get id = some execution →
    ∃ environment, execution.environment = some environment ∧ OwnName environment execution.pool

/-- The move brings in such names only. -/
def Move.Naming : Move → Prop
  | openPool pool | resetPool pool => ∀ id, pool.environment = some id → OwnName id pool.name
  | putEnvironment environment => OwnName environment.id environment.pool
  | receive execution => ∃ environment, execution.environment = some environment ∧
      OwnName environment execution.pool
  | requeue _ source name => ∃ environment, OwnName environment source ∧ OwnName environment name
  | _ => True

theorem Named.environments_move {c : Cluster} {move : Move} (named : Named c)
    (allowed : move.Allowed c)
    (naming : move.Naming) (id : Uuid) (environment : Environment)
    (present : (c.move move).environments.get id = some environment) :
    OwnName environment.id environment.pool := by
  rw [Cluster.environments_move allowed] at present
  have before (same : c.environments.get id = some environment) :=
    named.environments id environment same
  cases move with
  | putEnvironment put =>
    simp only [Move.onEnvironment] at present
    split_ifs at present
    · exact Option.some.inj present ▸ naming
    · exact before present
  | dropEnvironment gone =>
    simp only [Move.onEnvironment] at present
    split_ifs at present
    exact before present
  | _ => exact before present

theorem Named.pools_move {c : Cluster} {move : Move} (named : Named c) (allowed : move.Allowed c)
    (naming : move.Naming) (name : String) (pool : Pool)
    (present : (c.move move).pools.get name = some pool)
    (id : Uuid) (managed : pool.environment = some id) : OwnName id pool.name := by
  rw [Cluster.pools_move allowed] at present
  have before (same : c.pools.get name = some pool) := named.pools name pool same id managed
  cases move with
  | openPool opened | resetPool opened =>
    simp only [Move.onPool] at present
    split_ifs at present
    · obtain rfl := Option.some.inj present
      exact naming id managed
    · exact before present
  | quietPool quiet =>
    simp only [Move.onPool] at present
    split_ifs at present
    · obtain ⟨old, was, rfl⟩ := Option.map_eq_some_iff.mp present
      exact named.pools name old was id managed
    · exact before present
  | dropPool gone | seizePool gone =>
    simp only [Move.onPool] at present
    split_ifs at present
    exact before present
  | _ => exact before present

theorem Named.executions_move {c : Cluster} {move : Move} (named : Named c)
    (allowed : move.Allowed c)
    (naming : move.Naming) (id : Uuid) (execution : Execution)
    (present : (c.move move).executions.get id = some execution) :
    ∃ environment, execution.environment = some environment ∧
      OwnName environment execution.pool := by
  rw [Cluster.get_move allowed] at present
  have before (other : Execution) (same : c.executions.get id = some other) :=
    named.executions id other same
  cases move with
  | receive admitted =>
    simp only [Move.onExecution] at present
    split_ifs at present
    · exact Option.some.inj present ▸ naming
    · exact before execution present
  | withdraw gone | finish gone _ =>
    simp only [Move.onExecution] at present
    split_ifs at present
    exact before execution present
  | requeue moved source pool =>
    simp only [Move.onExecution] at present
    split_ifs at present with same
    · obtain ⟨old, was, rfl⟩ := Option.map_eq_some_iff.mp present
      obtain ⟨found, there, inside, -⟩ := allowed
      rw [← same, was] at there
      obtain rfl := Option.some.inj there
      obtain ⟨environment, belongs, own⟩ := before old was
      obtain ⟨other, first, second⟩ := naming
      have equal : environment = other := ownName_unique own (inside ▸ first)
      exact ⟨environment, belongs, equal ▸ second⟩
    · exact before execution present
  | start started now =>
    simp only [Move.onExecution] at present
    split_ifs at present
    · obtain ⟨old, was, rfl⟩ := Option.map_eq_some_iff.mp present
      exact before old was
    · exact before execution present
  | place placed pool node =>
    simp only [Move.onExecution] at present
    split_ifs at present
    · obtain ⟨old, was, rfl⟩ := Option.map_eq_some_iff.mp present
      exact before old was
    · exact before execution present
  | _ => exact before execution present

theorem Named.move {c : Cluster} {move : Move} (named : Named c) (allowed : move.Allowed c)
    (naming : move.Naming) : Named (c.move move) :=
  ⟨named.environments_move allowed naming, named.pools_move allowed naming,
    named.executions_move allowed naming⟩

/-- Where names tell environments apart, an environment without active executions has a pool
without any. -/
theorem Named.unused {c : Cluster} (named : Named c) {id : Uuid} {environment : Environment}
    (present : c.environments.get id = some environment)
    (quiet : c.executions.any (fun execution =>
      decide (execution.environment = some id) &&
        execution.status.active) = false) : Unused c environment.pool := by
  refine (Keyed.any_eq_false_iff _ _).mpr (fun k execution found => ?_)
  by_contra busy
  simp only [Bool.not_eq_false, Execution.activeIn, Bool.and_eq_true, decide_eq_true_eq] at busy
  obtain ⟨inside, active⟩ := busy
  obtain ⟨owner, belongs, own⟩ := named.executions k execution found
  have same : owner = environment.id :=
    ownName_unique own (inside ▸ named.environments id environment present)
  have key := Keyed.key_of_get present
  have idle := (Keyed.any_eq_false_iff _ _).mp quiet k execution found
  rw [active] at idle
  simp [belongs, same, key] at idle

namespace System

/-- The names of a running process, those that its handlers still hold included. -/
structure NamedApart (s : System) : Prop where
  cluster : Named s.cluster
  jobs : ∀ job, Frame.environment job ∈ s.inflight → ∀ old, job.old = some old →
    OwnName old.id old.pool
  pending : ∀ ops reply execution secrets queue, Frame.running ops reply ∈ s.inflight →
    Op.insertExecution execution secrets queue ∈ ops →
    ∃ environment, execution.environment = some environment ∧ OwnName environment execution.pool

/-- An update enters its section with the copy that its job has read. -/
theorem Entered.job {s : System} {label : Label} {fresh id : Uuid} {request : EnvironmentRequest}
    {old : Environment} {image : Image} {artifact : Artifact} {others : List Frame}
    (entered : Entered s label (.updateEnvironment fresh id request old image artifact) others) :
    id = old.id ∧ Frame.environment ⟨some old, request, image, .ready artifact⟩ ∈ s.inflight := by
  cases entered with
  | client _ direct => cases direct
  | handler index input frame _ there ready =>
    cases frame with
    | environment job =>
      obtain ⟨before, wanted, chosen, stage⟩ := job
      simp only [Frame.commit, Job.commit] at ready
      cases stage <;> cases before <;> simp at ready
      obtain ⟨-, rfl, rfl, rfl, rfl, rfl⟩ := ready
      exact ⟨rfl, List.mem_of_getElem? there⟩
    | authenticated node request => cases request <;>
        simp [Frame.commit, NodeRequest.commit] at ready
    | importing name => simp [Frame.commit] at ready
    | running ops reply => cases ready

/-- What a step moves carries names made from identifiers. -/
theorem NamedApart.naming {s : System} {label : Label} {move : Move} (apart : NamedApart s)
    (used : move.grows = true ∨ s.uses label move) : move.Naming := by
  rcases used with grows | ⟨commit, others, entered, uses⟩ | ⟨index, execution, -,
    inserts, rfl | rfl⟩
  · cases move <;> trivial
  · -- The copy that an update has read carries its own name.
    have copied {environment : Environment} (rewrites : commit.Rewrites environment) :
        OwnName environment.id environment.pool := by
      obtain ⟨fresh, id, request, old, image, artifact, rfl, -, rfl⟩ := rewrites
      obtain ⟨rfl, member⟩ := entered.job
      exact apart.jobs _ member old rfl
    cases move with
    | openPool pool => exact uses
    | resetPool pool =>
      obtain ⟨environment, rewrites, rfl⟩ := uses
      exact fun id same => Option.some.inj same ▸ copied rewrites
    | putEnvironment environment => exact uses.elim id copied
    | receive execution => cases uses
    | requeue id source name =>
      obtain ⟨fresh, environment, restarts, rfl, rfl⟩ := uses
      refine ⟨environment.id, ?_, ownName_restartedPoolName environment.id fresh⟩
      rcases restarts with ⟨-, present⟩ | ⟨id, request, old, image, artifact, rfl, -, rfl⟩
      · exact apart.cluster.environments _ _ present
      · obtain ⟨rfl, member⟩ := entered.job
        exact apart.jobs _ member old rfl
    | _ => trivial
  · obtain ⟨secrets, queue, rest, reply, there⟩ := inserts
    exact apart.pending _ _ execution secrets queue (List.mem_of_getElem? there) List.mem_cons_self
  · trivial

/-- The environment that the step means to delete. -/
def deletion : Label → Option Uuid
  | .client (.deleteEnvironment id) => some id
  | _ => none

/-- The step takes no pool away from an active execution: a `delete_environment` that is not
refused finds nothing active in its environment's pool. -/
def SparesPool (s : System) (label : Label) : Prop :=
  ∀ id, deletion label = some id → ∀ environment, s.cluster.environments.get id = some environment →
    s.cluster.executions.any (fun execution =>
      decide (execution.environment = some id) && execution.status.active) = false →
    Unused s.cluster environment.pool

instance (s : System) (label : Label) : Decidable (s.SparesPool label) :=
  match same : deletion label with
  | none => isTrue (fun _ found => by rw [same] at found; cases found)
  | some id => decidable_of_iff (∀ environment, s.cluster.environments.get id = some environment →
      s.cluster.executions.any (fun execution =>
        decide (execution.environment = some id) && execution.status.active) = false →
      s.cluster.executions.any (fun execution => execution.activeIn environment.pool) = false) (by
        simp only [SparesPool, same, Option.some.injEq, forall_eq', Unused])

/-- A section that a client's request runs first thing is entered by that request. -/
theorem Entered.label_of_direct {s : System} {label : Label} {commit : Commit} {others : List Frame}
    (entered : Entered s label commit others)
    (direct : commit.direct = true) : label = .client commit := by
  cases entered with
  | client => rfl
  | handler index input frame _ there ready =>
    cases frame with
    | environment job =>
      obtain ⟨before, wanted, chosen, stage⟩ := job
      simp only [Frame.commit, Job.commit] at ready
      cases stage <;> cases before <;> simp at ready <;> obtain rfl := ready <;> cases direct
    | authenticated node request => cases request <;>
        obtain rfl := Option.some.inj ready <;> cases direct
    | importing name =>
      simp only [Frame.commit, Option.map_eq_some_iff] at ready
      obtain ⟨image, -, rfl⟩ := ready
      cases direct
    | running ops reply => cases ready

theorem gentle_of_spares {s : System} {label : Label} (spares : s.SparesPool label)
    (move : Move) {c : Cluster}
    (used : move.grows = true ∨ s.uses label move)
    (leads : move.leads = true → c = s.cluster) : move.Gentle c := by
  cases move with
  | seizePool name =>
    obtain rfl := leads rfl
    rcases used with grows | ⟨commit, others, entered, id, environment, rfl, present, rfl, quiet⟩ |
      ⟨index, execution, -, inserts, same | same⟩
    · cases grows
    · obtain rfl := entered.label_of_direct rfl
      exact spares id rfl environment present quiet
    · cases same
    · cases same
  | _ => trivial

/-- Where names tell environments apart, no step takes a pool away from an active execution. -/
theorem NamedApart.spares {s : System} (apart : NamedApart s)
    (label : Label) : s.SparesPool label :=
  fun _ _ _ present quiet => apart.cluster.unused present quiet

theorem startJob_old {s : System} {id : Option Uuid} {request : EnvironmentRequest} {job : Job}
    (checked : s.startJob id request = .ok job) {old : Environment} (copy : job.old = some old) :
    id = some old.id ∧ s.cluster.environments.get old.id = some old := by
  cases id with
  | none =>
    simp only [startJob, bind_eq_ok_iff, pure, Except.pure, Except.ok.injEq] at checked
    obtain ⟨image, -, stage, -, rfl⟩ := checked
    cases copy
  | some id =>
    simp only [startJob, bind_eq_ok_iff, pure, Except.pure, Except.ok.injEq, checkUpdateEnvironment,
      found_eq_ok_iff,
      require_eq_ok_iff, exists_const] at checked
    obtain ⟨⟨before, image⟩, ⟨_, -, found, present, -, chosen, -, same⟩, rest⟩ := checked
    obtain ⟨rfl, rfl⟩ := Prod.mk.inj same
    have kept : job.old = some found := by
      split_ifs at rest <;> simp only [bind_eq_ok_iff, Except.ok.injEq] at rest <;>
        obtain ⟨stage, -, rfl⟩ := rest <;> rfl
    obtain rfl := Option.some.inj (kept.symm.trans copy)
    have own := Keyed.key_of_get present
    subst own
    exact ⟨rfl, present⟩

/-- The first process on an empty cluster, whatever files and settings it finds. -/
structure Fresh (s : System) : Prop where
  empty : s.cluster = Cluster.empty
  quiet : s.inflight = []

/-- The first process on an empty cluster, on a database that stores none yet. -/
structure Blank (s : System) : Prop extends Fresh s where
  unsaved : s.database.cluster = none

theorem Fresh.started {s : System} (fresh : Fresh s) : Started s := by
  refine ⟨fresh.quiet, ?_, ?_⟩ <;> intro id execution present <;>
    rw [fresh.empty] at present <;> cases present

theorem Fresh.apart {s : System} (fresh : Fresh s) : NamedApart s := by
  refine ⟨⟨?_, ?_, ?_⟩, ?_, ?_⟩
  · intro id environment present
    rw [fresh.empty] at present
    cases present
  · intro name pool present
    rw [fresh.empty] at present
    cases present
  · intro id execution present
    rw [fresh.empty] at present
    cases present
  · intro job member
    rw [fresh.quiet] at member
    cases member
  · intro ops reply execution secrets queue member
    rw [fresh.quiet] at member
    cases member

theorem Fresh.seated {s : System} (fresh : Fresh s) : Seated s.cluster := by
  intro id execution present
  rw [fresh.empty] at present
  cases present

theorem fresh_empty : Demo.empty.Fresh := ⟨rfl, rfl⟩

variable [Crates]

theorem seated_step {s t : System} {label : Label} (sound : Sound s) (spares : s.SparesPool label)
    (seated : Seated s.cluster) (stepped : s.step label = some t) (same : restarts label = false) :
    Seated t.cluster :=
  (step_moves sound stepped same).invariant seated
    (fun before allowed used leads => before.move allowed (gentle_of_spares spares _ used leads))

theorem prepareJob_old {files files' : Keyed.Table String Bytes} {job next : Job}
    {event : PrepareEvent}
    (done : prepareJob files job event = some (files', .ok next)) : next.old = job.old := by
  unfold prepareJob at done
  repeat' split at done
  all_goals cases done
  all_goals rfl

theorem NamedApart.step {s t : System} {label : Label} (sound : Sound s) (apart : NamedApart s)
    (stepped : s.step label = some t) (same : restarts label = false) : NamedApart t := by
  refine ⟨?_, ?_, ?_⟩
  · exact (step_moves sound stepped same).invariant apart.cluster
      (fun named allowed used _ => named.move allowed (apart.naming used))
  · intro job member old copy
    cases frame_cases stepped member with
    | stayed _ before => exact apart.jobs job before old copy
    | started id request _ checked =>
        exact apart.cluster.environments _ _ (startJob_old checked copy).2
    | prepared event before _ files earlier done =>
      exact apart.jobs before earlier old (by rw [← prepareJob_old done, copy])
  · intro ops reply execution secrets queue member inserts
    cases frame_cases stepped member with
    | stayed _ before => exact apart.pending ops reply execution secrets queue before inserts
    | performed commit others result free allowed entered ran =>
      obtain ⟨-, -, -, -, -, pool, known, resolved⟩ := insert_of_run ran inserts
      rcases resolved with ⟨named, present, belongs, inside⟩ | ⟨environment, belongs, managed⟩
      · exact ⟨named.id, belongs, inside ▸ apart.cluster.environments _ _ present⟩
      · have own := Keyed.key_of_get known
        exact ⟨environment, belongs, own ▸ apart.cluster.pools _ _ known environment managed⟩
    | called op _ before _ next earlier done =>
      exact apart.pending _ _ execution secrets queue earlier (List.mem_cons_of_mem _ inserts)
    | admitted admitted sealed wait rest before earlier =>
      rcases admitExecution_ops admitted
        wait s.cluster with ⟨copy, shape⟩ | shape <;> simp [shape] at inserts
    | rejected => cases inserts
    | ignored artifact _ _ earlier =>
      exact apart.pending _ _ execution secrets queue earlier (List.mem_cons_of_mem _ inserts)

theorem NamedApart.run {may : System → Label → Prop} {s t : System} (sound : Sound s)
    (apart : NamedApart s)
    (run : Run may s t) : NamedApart t :=
  run.invariant_along apart (fun before apart allowed stepped =>
    apart.step (sound.run before) stepped allowed.1)

/-- From an empty cluster on no step takes a pool away from an active execution. -/
theorem Fresh.spares_run {may : System → Label → Prop} {s t : System} (fresh : Fresh s)
    (run : Run may s t) :
    Run (fun s label => may s label ∧ s.SparesPool label) s t := by
  refine run.invariant_along (P := Run (fun s label => may s label ∧ s.SparesPool label) s)
    (.refl s) ?_
  rintro u v label before spared ⟨same, allowed⟩ stepped
  exact .tail label spared ⟨same, allowed,
    (fresh.apart.run fresh.started.sound before).spares label⟩ stepped

end System
end Scraperack
