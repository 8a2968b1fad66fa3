import Scraperack.Names

/-! Queued executions have a pool: sections that move executions to a new pool open it before
they end. -/

namespace Scraperack

/-- Every queued execution names a pool that exists. -/
def Housed (c : Cluster) : Prop :=
  ∀ id execution, c.executions.get id = some execution → execution.status = .queued →
    (c.pools.get execution.pool).isSome = true

/-- Every queued execution names a pool that exists or is about to be opened. -/
def HousedBut (awaited : String → Prop) (c : Cluster) : Prop :=
  ∀ id execution, c.executions.get id = some execution → execution.status = .queued →
    (c.pools.get execution.pool).isSome = true ∨ awaited execution.pool

/-- A move takes no pool away but one it drops. -/
theorem Move.isSome_onPool {move : Move} {name : String} {before : Option Pool}
    (known : before.isSome = true)
    (kept : move ≠ .dropPool name ∧ move ≠ .seizePool name) : (move.onPool name before).isSome =
      true := by
  cases move with
  | openPool pool | resetPool pool =>
    simp only [Move.onPool]
    split_ifs
    · rfl
    · exact known
  | quietPool quiet =>
    simp only [Move.onPool]
    split_ifs
    · rwa [Option.isSome_map]
    · exact known
  | dropPool gone =>
    have differ : name ≠ gone := fun same => kept.1 (same ▸ rfl)
    simpa [Move.onPool, differ] using known
  | seizePool gone =>
    have differ : name ≠ gone := fun same => kept.2 (same ▸ rfl)
    simpa [Move.onPool, differ] using known
  | _ => exact known

theorem HousedBut.move {awaited : String → Prop} {c : Cluster} {move : Move}
    (housed : HousedBut awaited c)
    (allowed : move.Allowed c) (gentle : move.Gentle c)
    (moves : ∀ id source name, move = .requeue id source name → awaited name) : HousedBut awaited
      (c.move move) := by
  have stays (id : Uuid) (execution : Execution) (present : c.executions.get id = some execution)
      (queued : execution.status = .queued) :
      ((c.move move).pools.get execution.pool).isSome = true ∨ awaited execution.pool := by
    refine (housed id execution present queued).imp_left (fun known => ?_)
    rw [Cluster.pools_move allowed]
    have active : execution.status.active = true := by rw [queued]; rfl
    refine Move.isSome_onPool known ⟨?_, ?_⟩
    · rintro rfl
      exact Unused.not_active allowed present active rfl
    · rintro rfl
      exact Unused.not_active gentle present active rfl
  intro id execution present queued
  have after := present
  rw [Cluster.get_move allowed] at after
  cases move with
  | receive admitted =>
    simp only [Move.onExecution] at after
    split_ifs at after
    · obtain rfl := Option.some.inj after
      exact .inl allowed.2.2.2
    · exact stays id execution after queued
  | withdraw gone | finish gone _ =>
    simp only [Move.onExecution] at after
    split_ifs at after
    exact stays id execution after queued
  | requeue moved source pool =>
    simp only [Move.onExecution] at after
    split_ifs at after
    · obtain ⟨old, -, rfl⟩ := Option.map_eq_some_iff.mp after
      exact .inr (moves _ _ _ rfl)
    · exact stays id execution after queued
  | start started now =>
    simp only [Move.onExecution] at after
    split_ifs at after
    · obtain ⟨old, -, rfl⟩ := Option.map_eq_some_iff.mp after
      cases queued
    · exact stays id execution after queued
  | place placed pool node =>
    simp only [Move.onExecution] at after
    split_ifs at after
    · obtain ⟨old, -, rfl⟩ := Option.map_eq_some_iff.mp after
      cases queued
    · exact stays id execution after queued
  | _ => exact stays id execution after queued

/-! Restarts of an environment's pool. -/

/-- Where running executions sit in known pools, a restart does not panic. -/
theorem Seated.quiet {c : Cluster} (seated : Seated c) {pool : String}
    (unknown : c.pools.get pool = none)
    (name : String) : runningIn pool (moved name pool c) = false := by
  refine (Keyed.any_eq_false_iff _ _).mpr (fun id execution present => ?_)
  by_contra running
  simp only [Bool.not_eq_false, Bool.and_eq_true, decide_eq_true_eq] at running
  rw [moved_get] at present
  split_ifs at present
  · obtain ⟨old, -, rfl⟩ := Option.map_eq_some_iff.mp present
    cases running.2
  · obtain ⟨⟨found, known⟩, -⟩ := seated id execution present (by rw [running.2]; rfl)
    rw [running.1, unknown] at known
    cases known

/-- A restart in a seated cluster leaves the environment's next pool behind. -/
theorem Seated.restart_opens {c : Cluster} (seated : Seated c) (fresh : Uuid)
    (environment : Environment) :
    (restartEnvironmentPool fresh environment c).panicked = false ∧
      ((restartEnvironmentPool fresh environment c).cluster.pools.get
        (restartedPoolName environment.id fresh)).isSome = true := by
  have opened (pools : Keyed Pool.name) : ((pools.insert (environmentPool { environment with
      pool := restartedPoolName environment.id fresh })).get
        (restartedPoolName environment.id fresh)).isSome = true := by
    simp [environmentPool]
  rcases restartEnvironmentPool_cases fresh environment c with
    ⟨old, known, running, same⟩ | ⟨unknown, running, same⟩ | ⟨quiet, same⟩
  · rw [same]
    exact ⟨rfl, opened _⟩
  · rw [seated.quiet unknown] at running
    cases running
  · rw [same]
    exact ⟨rfl, opened _⟩

@[simp] theorem Cluster.scheduleQueued_pools (c : Cluster) : c.scheduleQueued.1.pools = c.pools :=
  Cluster.scheduleQueued_invariant (P := fun d => d.pools = c.pools) rfl (fun same _ _ => same)

@[simp] theorem Cluster.scheduleQueued_environments (c : Cluster) :
    c.scheduleQueued.1.environments = c.environments :=
  Cluster.scheduleQueued_invariant (P := fun d => d.environments = c.environments) rfl
    (fun same _ _ => same)

theorem Seated.settle_restart {c : Cluster} (seated : Seated c) (fresh : Uuid)
    (environment : Environment) :
    settle (restartEnvironmentPool fresh environment c) =
      finishEnvironment (restartEnvironmentPool fresh environment c).environment
        (restartEnvironmentPool fresh environment c).reassigned
          (restartEnvironmentPool fresh environment c).cluster := by
  rw [settle, (seated.restart_opens fresh environment).1]
  rfl

theorem Commit.restart_opens [Crates] {c : Cluster} {commit : Commit} {result : Section}
    (ran : commit.run c = .ok result)
    (seated : Seated c) {fresh : Uuid} {environment : Environment}
    (restarts : commit.Restarts c fresh environment) :
    (result.cluster.pools.get (restartedPoolName environment.id fresh)).isSome = true := by
  have opened : ((settle (restartEnvironmentPool fresh environment c)).cluster.pools.get
      (restartedPoolName environment.id fresh)).isSome = true := by
    rw [seated.settle_restart, finishEnvironment, Cluster.scheduleQueued_pools]
    exact (seated.restart_opens fresh environment).2
  rcases restarts with ⟨rfl, present⟩ | ⟨id, request, old, image, artifact, rfl, rebuild, rfl⟩
  · obtain ⟨found, known, rfl⟩ := restartEnvironment_eq_ok ran
    obtain rfl := Option.some.inj (present.symm.trans known)
    exact opened
  · obtain rfl := Except.ok.inj ran
    rw [updateEnvironment_eq, if_pos rebuild]
    exact opened

/-- Sections leave every queued execution with a pool. -/
theorem Commit.housed [Crates] {c : Cluster} {commit : Commit} {result : Section}
    (ran : commit.run c = .ok result)
    (orderly : Orderly c) (fits : commit.choiceFits c = true)
    (fresh : ∀ name, commit.newPoolName = some name → c.pools.get name = none) (seated : Seated c)
    (gentle : ∀ name, commit.uses c (.seizePool name) → Unused c name)
    (housed : Housed c) : Housed result.cluster := by
  have kept := (Commit.moves ran orderly fits fresh).invariant
    (P := HousedBut (fun name => ∃ fresh environment, commit.Restarts c fresh environment ∧
      name = restartedPoolName environment.id fresh))
    (fun id execution present queued => .inl (housed id execution present queued)) (by
      intro e move before allowed used leads
      refine before.move allowed ?_ ?_
      · cases move with
        | seizePool name =>
          obtain rfl := leads rfl
          exact gentle name (used.resolve_left (fun grows => by cases grows))
        | _ => trivial
      · rintro id source name rfl
        obtain ⟨freshId, environment, restarts, -, rfl⟩ :=
          used.resolve_left (fun grows => by cases grows)
        exact ⟨freshId, environment, restarts, rfl⟩)
  intro id execution present queued
  rcases kept id execution present queued with known | ⟨freshId, environment, restarts, same⟩
  · exact known
  · rw [same]
    exact Commit.restart_opens ran seated restarts

@[simp] theorem admitExecution_pools (execution : Execution) (queue : Bool) (c : Cluster) :
    (admitExecution execution queue c).cluster.pools = c.pools := by
  unfold admitExecution
  dsimp only
  split
  · rename_i next scheduled
    obtain ⟨_, _, _, _, _, rfl⟩ := Cluster.schedule_cases scheduled
    rfl
  · split_ifs <;> rfl

@[simp] theorem admitExecution_environments (execution : Execution) (queue : Bool) (c : Cluster) :
    (admitExecution execution queue c).cluster.environments = c.environments := by
  unfold admitExecution
  dsimp only
  split
  · rename_i next scheduled
    obtain ⟨_, _, _, _, _, rfl⟩ := Cluster.schedule_cases scheduled
    rfl
  · split_ifs <;> rfl

/-- So does the end of `create_execution`. -/
theorem admitExecution_housed {c : Cluster} {execution : Execution} (queue : Bool)
    (allowed : (Move.receive execution).Allowed c) (housed : Housed c) : Housed
      (admitExecution execution queue c).cluster := by
  have kept := (admitExecution_moves queue allowed).invariant (P := HousedBut (fun _ => False))
    (fun id other present queued => .inl (housed id other present queued)) (by
      intro e move before permitted used _
      refine before.move permitted ?_ ?_
      · cases move with
        | seizePool name => rcases used with grows | same | same <;> cases ‹_›
        | _ => trivial
      · rintro id source name rfl
        rcases used with grows | same | same <;> cases ‹_›)
  exact fun id other present queued => (kept id other present queued).resolve_right not_false

namespace System
variable [Crates]

theorem housed_step {s t : System} {label : Label} (sound : Sound s) (spares : s.SparesPool label)
    (seated : Seated s.cluster) (housed : Housed s.cluster) (stepped : s.step label = some t)
    (same : restarts label = false) : Housed t.cluster := by
  cases step_cases stepped with
  | performed _ commit others result free allowed entered ran =>
    exact Commit.housed ran sound.orderly (fits_of_allows allowed) (fresh_of_allows allowed) seated
      (fun name uses => gentle_of_spares spares (.seizePool name)
        (.inr (.inl ⟨commit, others, entered, uses⟩)) (fun _ => rfl)) housed
  | admitted index execution secrets queue rest before database there stored =>
    exact admitExecution_housed queue
      (sound.inserting ⟨secrets, queue, rest, before, there⟩).1 housed
  | called index op rest before after next there plain done =>
    change Housed next.cluster
    rw [(runOp_frame plain done).1]
    exact housed
  | restarted => cases same
  | _ => exact housed

end System
end Scraperack
