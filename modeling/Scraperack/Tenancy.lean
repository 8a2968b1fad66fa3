import Scraperack.Housing

/-! Executions and what they belong to: the pool and the environment of every execution in
memory are there. -/

namespace Scraperack

/-- The environment of every execution is there. -/
def Attributed (c : Cluster) : Prop :=
  ∀ id execution, c.executions.get id = some execution →
    ∃ environment, execution.environment = some environment ∧
      c.environments.contains environment = true

/-- Moves that bring in no execution keep the environments that executions have. -/
theorem Attributed.move {c : Cluster} {move : Move} (attributed : Attributed c)
    (orderly : Orderly c)
    (allowed : move.Allowed c)
    (receives : ∀ execution, move = .receive execution →
      ∃ environment, execution.environment = some environment ∧
        c.environments.contains environment = true) :
    Attributed (c.move move) := by
  have kept (environment : Uuid) (known : c.environments.contains environment = true)
      (stays : move ≠ .dropEnvironment environment) : (c.move move).environments.contains
        environment = true := by
    rw [Keyed.contains] at known ⊢
    rw [Cluster.environments_move allowed]
    cases move with
    | putEnvironment put =>
      simp only [Move.onEnvironment]
      split_ifs
      · rfl
      · exact known
    | dropEnvironment gone =>
      have differ : environment ≠ gone := fun same => stays (same ▸ rfl)
      simpa [Move.onEnvironment, differ] using known
    | _ => exact known
  have before (id : Uuid) (execution : Execution) (present : c.executions.get id = some execution) :
      ∃ environment, execution.environment = some environment ∧
        (c.move move).environments.contains environment = true := by
    obtain ⟨environment, belongs, known⟩ := attributed id execution present
    refine ⟨environment, belongs, kept environment known ?_⟩
    rintro rfl
    have idle := (Keyed.any_eq_false_iff _ _).mp allowed id execution present
    rw [belongs, orderly.active id execution present] at idle
    simp at idle
  intro id execution present
  rw [Cluster.get_move allowed] at present
  cases move with
  | receive admitted =>
    simp only [Move.onExecution] at present
    split_ifs at present
    · obtain rfl := Option.some.inj present
      exact receives _ rfl
    · exact before id execution present
  | withdraw gone | finish gone _ =>
    simp only [Move.onExecution] at present
    split_ifs at present
    exact before id execution present
  | requeue moved _ _ | start moved _ | place moved _ _ =>
    simp only [Move.onExecution] at present
    split_ifs at present
    · obtain ⟨old, was, rfl⟩ := Option.map_eq_some_iff.mp present
      exact before id old was
    · exact before id execution present
  | _ => exact before id execution present

namespace System

/-- The environment of the pool that a `create_execution` names, if it names no environment. -/
def sponsor (s : System) : Label → Option Uuid
  | .client (.createExecution _ request _ _) =>
    if request.environment.isSome then none else (request.pool.bind s.cluster.pools.get).bind
      Pool.environment
  | _ => none

/-- A `create_execution` in a pool that it names itself finds the pool's environment. -/
def Sponsored (s : System) (label : Label) : Prop :=
  ∀ id, s.sponsor label = some id → s.cluster.environments.contains id = true

instance (s : System) (label : Label) : Decidable (s.Sponsored label) :=
  decidable_of_iff ((s.sponsor label).all s.cluster.environments.contains = true) (by
    cases same : s.sponsor label <;> simp [Sponsored, same])

/-- The executions in memory and those about to be inserted have their environments. -/
structure Tenancy (s : System) : Prop where
  cluster : Attributed s.cluster
  pending : ∀ ops reply execution secrets queue, Frame.running ops reply ∈ s.inflight →
    Op.insertExecution execution secrets queue ∈ ops →
    ∃ environment, execution.environment = some environment ∧
      s.cluster.environments.contains environment = true

theorem Fresh.tenancy {s : System} (fresh : Fresh s) : Tenancy s := by
  refine ⟨?_, ?_⟩
  · intro id execution present
    rw [fresh.empty] at present
    cases present
  · intro ops reply execution secrets queue member
    rw [fresh.quiet] at member
    cases member

theorem pool_of_active {c : Cluster} (orderly : Orderly c) (seated : Seated c)
    (housed : Housed c) {id : Uuid}
    {execution : Execution} (present : c.executions.get id = some execution) :
    c.pools.contains execution.pool = true := by
  rcases ExecutionStatus.active_cases (orderly.active id execution present) with queued | on
  · exact housed id execution present queued
  · exact (Keyed.contains_iff _ _).mpr (seated id execution present on).1

/-- The moves that carry out an insertion leave the environments alone. -/
theorem environments_of_op {s : System} {index : Nat} {c : Cluster} {move : Move}
    (used : move.grows = true ∨ s.uses (.op index true) move) : (c.move move).environments =
      c.environments := by
  rcases used with grows | ⟨commit, others, entered, _⟩ | ⟨_, execution, _, _, rfl | rfl⟩
  · cases move <;> first | rfl | cases grows
  · cases entered
  · rfl
  · rfl

variable [Crates]

/-- Where `create_execution` takes the environment of its execution from. -/
theorem createExecution_attributed {id : Uuid} {request : CreateExecution} {sealed : Bytes}
    {now : Nat} {c : Cluster}
    {result : Section} (ran : createExecution id request sealed now c = .ok result)
    {execution : Execution}
    {secrets : Bytes} {queue : Bool}
    (inserts : Op.insertExecution execution secrets queue ∈ result.ops) :
    ∃ environment, execution.environment = some environment ∧
      ((∃ named, c.environments.get environment = some named) ∨
      request.environment.isSome = false ∧
        (request.pool.bind c.pools.get).bind Pool.environment = some environment) := by
  simp only [createExecution, bind_eq_ok_iff, require_eq_ok_iff, found_eq_ok_iff,
    exists_const] at ran
  obtain ⟨resolves, poolName, named, pool, known, environment, attributed, rest⟩ := ran
  have belongs : execution.environment = some environment := by
    cases image : c.images.get pool.image with
    | none =>
      simp only [image, pure, Except.pure, Except.ok.injEq] at rest
      subst rest
      simp [panicSection] at inserts
    | some _ =>
      simp only [image, bind_eq_ok_iff, require_eq_ok_iff, found_eq_ok_iff, exists_const,
        pure, Except.pure,
        Except.ok.injEq] at rest
      obtain ⟨_, _, _, rfl⟩ := rest
      simp only [List.mem_singleton, Op.insertExecution.injEq] at inserts
      exact inserts.1 ▸ rfl
  refine ⟨environment, belongs, ?_⟩
  cases chosen : request.environment.bind (fun key => namedEnvironment key c) with
  | some other =>
    rw [chosen] at attributed
    obtain rfl := Option.some.inj attributed
    obtain ⟨key, _, found⟩ := Option.bind_eq_some_iff.mp chosen
    exact .inl ⟨other, namedEnvironment_present found⟩
  | none =>
    rw [chosen] at attributed named resolves
    have unnamed : request.environment = none := resolves.resolve_right (by simp)
    refine .inr ⟨by rw [unnamed]; rfl, Option.bind_eq_some_iff.mpr ⟨pool, ?_, attributed⟩⟩
    exact Option.bind_eq_some_iff.mpr ⟨poolName, named, known⟩

/-- The execution that a section is about to insert has its environment. -/
theorem Sponsored.inserting {s : System} {label : Label} {commit : Commit} {others : List Frame}
    {result : Section}
    (sponsored : s.Sponsored label) (entered : Entered s label commit others)
    (ran : commit.run s.cluster = .ok result)
    {execution : Execution} {secrets : Bytes} {queue : Bool}
    (inserts : Op.insertExecution execution secrets queue ∈ result.ops) :
    ∃ environment, execution.environment = some environment ∧
      s.cluster.environments.contains environment = true := by
  cases Commit.ending ran with
  | saved _ ops => simp [ops] at inserts
  | scheduled | unchanged | restartPanicked | restarted | updated | createPanicked | workPanicked | worked |
    completed => simp [scheduleAndSave, finishEnvironment, panicSection] at inserts
  | deletedEnvironment => simp at inserts
  | created id request sealed now =>
    obtain rfl := entered.label_of_direct rfl
    obtain ⟨environment, belongs, ⟨named, present⟩ | ⟨unnamed, managed⟩⟩ :=
      createExecution_attributed ran inserts
    · exact ⟨environment, belongs, (Keyed.contains_iff _ _).mpr ⟨named, present⟩⟩
    · refine ⟨environment, belongs, sponsored environment ?_⟩
      simp only [sponsor, unnamed, Bool.false_eq_true, if_false]
      exact managed

/-- The section that is about to insert a row leaves the environments alone. -/
theorem environments_of_insert {s t : System} {label : Label} {commit : Commit}
    {others : List Frame} {result : Section}
    (entered : Entered s label commit others) (ran : commit.run s.cluster = .ok result)
    {execution : Execution}
    {secrets : Bytes} {queue : Bool}
    (inserts : Op.insertExecution execution secrets queue ∈ result.ops)
    (stepped : s.step label = some t) (same : restarts label = false) :
    t.cluster.environments = s.cluster.environments := by
  cases step_cases stepped with
  | performed _ commit' others' result' free allowed again done =>
    obtain rfl := entered.unique again
    obtain rfl := Except.ok.inj (ran.symm.trans done)
    exact congrArg Cluster.environments (insert_of_run ran inserts).1
  | admitted => cases entered
  | called => cases entered
  | restarted => cases same
  | _ => rfl

/-- While the insertion of a row is pending the environments stay. -/
theorem environments_of_pending {s t : System} {label : Label} (stepped : s.step label = some t)
    {ops : List Op}
    {reply : Reply} {execution : Execution} {secrets : Bytes} {queue : Bool}
    (same : restarts label = false)
    (member : Frame.running ops reply ∈ s.inflight)
    (inserts : Op.insertExecution execution secrets queue ∈ ops) :
    t.cluster.environments = s.cluster.environments := by
  cases step_cases stepped with
  | performed _ commit others result free => exact (Sound.no_insert free member inserts).elim
  | admitted => exact admitExecution_environments ..
  | called index op rest before after next there plain done =>
    exact congrArg Cluster.environments (runOp_frame plain done).1
  | restarted => cases same
  | _ => rfl

theorem Tenancy.attributed_step {s t : System} {label : Label} (sound : Sound s)
    (tenancy : Tenancy s)
    (stepped : s.step label = some t) (same : restarts label = false) : Attributed t.cluster := by
  have kept : Orderly t.cluster ∧ Attributed t.cluster ∧
      ∀ index, label = .op index true → t.cluster.environments = s.cluster.environments := by
    refine (step_moves sound stepped same).invariant (P := fun c => Orderly c ∧ Attributed c ∧
      ∀ index, label = .op index true → c.environments = s.cluster.environments)
      ⟨sound.orderly, tenancy.cluster, fun _ _ => rfl⟩ ?_
    rintro c move ⟨orderly, attributed, unchanged⟩ allowed used leads
    refine ⟨orderly.move allowed, attributed.move orderly allowed ?_, ?_⟩
    · rintro execution rfl
      rcases used with grows | ⟨commit, others, _, never⟩ | ⟨index, inserted, own,
        inserts, equal | other⟩
      · cases grows
      · cases never
      · cases equal
        obtain ⟨secrets, queue, rest, reply, there⟩ := inserts
        rw [unchanged index own]
        exact tenancy.pending _ _ execution secrets queue
          (List.mem_of_getElem? there) List.mem_cons_self
      · cases other
    · rintro index rfl
      exact (environments_of_op used).trans (unchanged index rfl)
  exact kept.2.1

theorem Tenancy.step {s t : System} {label : Label} (sound : Sound s) (tenancy : Tenancy s)
    (sponsored : s.Sponsored label) (stepped : s.step label = some t)
    (same : restarts label = false) : Tenancy t := by
  refine ⟨tenancy.attributed_step sound stepped same, ?_⟩
  intro ops reply execution secrets queue member inserts
  -- An insertion that is still pending holds the lock, and it is its handler's last call.
  have alone {op : Op} {rest : List Op} {before : Reply}
    (earlier : Frame.running (op :: rest) before ∈ s.inflight)
      (later : Op.insertExecution execution secrets queue ∈ rest) : False := by
    have only := (sound.pending _ _ execution secrets queue earlier
      (List.mem_cons_of_mem _ later)).1
    simp only [List.cons.injEq] at only
    rw [only.2] at later
    cases later
  cases frame_cases stepped member with
  | stayed _ before =>
    obtain ⟨environment, belongs, known⟩ := tenancy.pending _ _ _ _ _ before inserts
    exact ⟨environment, belongs, by
      rw [environments_of_pending stepped same before inserts]; exact known⟩
  | performed commit others result free allowed entered ran =>
    obtain ⟨environment, belongs, known⟩ := sponsored.inserting entered ran inserts
    exact ⟨environment, belongs, by
      rw [environments_of_insert entered ran inserts stepped same]; exact known⟩
  | called op _ before _ next earlier done => exact (alone earlier inserts).elim
  | admitted admitted sealed wait rest before earlier =>
    rcases admitExecution_ops admitted wait s.cluster with ⟨copy, shape⟩ | shape <;>
      simp [shape] at inserts
  | rejected => cases inserts
  | ignored artifact _ _ earlier => exact (alone earlier inserts).elim

theorem Tenancy.run {s t : System} (sound : Sound s) (tenancy : Tenancy s)
    (run : Run Sponsored s t) : Tenancy t :=
  run.invariant_along tenancy
    (fun before tenancy allowed stepped =>
      tenancy.step (sound.run before) allowed.2 stepped allowed.1)

/-- From an empty cluster on every execution has its pool. -/
theorem Fresh.pooled {s t : System} (fresh : Fresh s) (run : Run (fun _ _ => True) s t) :
    Seated t.cluster ∧ Housed t.cluster := by
  refine run.invariant_along (P := fun s =>
    Seated s.cluster ∧ Housed s.cluster) ⟨fresh.seated, ?_⟩ ?_
  · intro id execution present
    rw [fresh.empty] at present
    cases present
  · rintro u v label before ⟨seated, housed⟩ ⟨same, -⟩ stepped
    have sound := fresh.started.sound.run before
    have spares := (fresh.apart.run fresh.started.sound before).spares label
    exact ⟨seated_step sound spares seated stepped same,
      housed_step sound spares seated housed stepped same⟩

/-- From an empty cluster on every execution has its pool, so that neither `next_work` nor a restart
panics. It has its environment as well, if every `create_execution` finds that of the pool it names. -/
theorem executions_housed {s : System} (fresh : Fresh s) :
    (∀ t, Run (fun _ _ => True) s t →
      (∀ id execution, t.cluster.executions.get id = some execution →
        t.cluster.pools.contains execution.pool = true) ∧
      (∀ node choice now result, nextWork node choice now t.cluster = .ok result →
        result.reply ≠ .panicked) ∧
      ∀ id environment, (restartEnvironmentPool id environment t.cluster).panicked = false) ∧
    ∀ t, Run Sponsored s t → ∀ id execution, t.cluster.executions.get id = some execution →
      ∃ environment, execution.environment = some environment ∧
        t.cluster.environments.contains environment = true := by
  constructor
  · intro t run
    obtain ⟨seated, housed⟩ := fresh.pooled run
    have orderly := (fresh.started.sound.run run).orderly
    have pooled (id : Uuid) (execution : Execution)
      (present : t.cluster.executions.get id = some execution) :=
      pool_of_active orderly seated housed present
    refine ⟨pooled, ?_, fun id environment => (seated.restart_opens id environment).1⟩
    intro node choice now result ran
    rcases nextWork_eq_ok ran with rfl | ⟨execution, -, present, ⟨unknown, -⟩ | ⟨pool, -, rfl⟩⟩
    · exact fun same => by cases same
    · have known := pooled _ execution present
      rw [Keyed.contains, unknown] at known
      cases known
    · exact fun same => by cases same
  · exact fun t run => (fresh.tenancy.run fresh.started.sound run).cluster

end System

namespace Demo

/-- An update that has read its environment before a restart of the pool writes the old pool
back. The new pool stays behind when the environment is deleted. -/
def orphaning : List Label :=
  installation ++ creating ++ [.checkEnvironment (some environment) environmentRequest] ++
    request 1 (.restartEnvironment 6 environment) 3 ++
      .enter 0 (input 0x50000000000000000000000000000000) :: finish 0 3 ++
    request 0 (.deleteEnvironment environment) 2

def orphan : String := restartedPoolName environment 6

end Demo

namespace System

/-- An execution in the pool of an environment, by the name of the pool, has pool and environment. -/
theorem executions_housed_assigned :
    ∃ t : System, ∃ execution, t.cluster.executions.get 8 = some execution ∧
      t.cluster.pools.contains execution.pool = true ∧
      ∃ environment, execution.environment = some environment ∧
        t.cluster.environments.contains environment = true := by
  obtain ⟨t, run, present⟩ := Runs.exists_reaches (@step Demo.crates)
    (fun s label => restarts label = false ∧ s.Sponsored label) Demo.empty
    (Demo.installation ++ Demo.creating ++
      Demo.request 0 (.createExecution 8 ⟨some Demo.pool, none, .null, ∅, ∅, true⟩ [] 0) 3)
    (fun t => t.cluster.executions.contains 8) (by decide +kernel)
  obtain ⟨execution, present⟩ := (Keyed.contains_iff _ _).mp present
  have housed := @executions_housed Demo.crates _ fresh_empty
  exact ⟨t, execution, present,
    (housed.1 t (run.mono (fun _ _ allowed => ⟨allowed.1, trivial⟩))).1 8 execution present,
    housed.2 t run 8 execution present⟩

/-- An execution in a pool that was left behind belongs to an environment that is gone. -/
theorem execution_orphaned :
    ¬ ∀ [Crates] (s t : System), s.Fresh → Run (fun _ _ => True) s t →
      ∀ id execution, t.cluster.executions.get id = some execution →
        ∃ environment, execution.environment = some environment ∧
          t.cluster.environments.contains environment = true := by
  intro claim
  obtain ⟨t, run, orphaned⟩ := Runs.exists_reaches (@step Demo.crates)
    (fun s label => restarts label = false ∧ True)
    Demo.empty (Demo.orphaning ++ Demo.request 0
      (.createExecution 8 ⟨some Demo.orphan, none, .null, ∅, ∅, true⟩ [] 0) 3)
    (fun t => t.cluster.executions.contains 8 && decide (t.cluster.environments.values = []))
      (by decide +kernel)
  simp only [Bool.and_eq_true, decide_eq_true_eq] at orphaned
  obtain ⟨execution, present⟩ := (Keyed.contains_iff _ _).mp orphaned.1
  obtain ⟨environment, -, known⟩ := @claim Demo.crates _ _ fresh_empty run 8 execution present
  simp [Keyed.contains, Keyed.get, orphaned.2] at known

end System
end Scraperack
