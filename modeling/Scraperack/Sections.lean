import Scraperack.Moves

/-! What each locked section does when it is not refused: first read off its handler,
then, for all of them together, as moves. -/

namespace Scraperack
open Counters

theorem updateImage_eq_ok {id : Uuid} {update : UpdateImage} {c : Cluster} {result : Section}
    (ran : updateImage id update c = .ok result) :
    ∃ image, image.id = id ∧
      result = ⟨{ c with images := c.images.insert image }, [.saveCluster, .unlock],
        .image image⟩ := by
  simp only [updateImage, bind_eq_ok_iff, require_eq_ok_iff, found_eq_ok_iff, exists_const,
    pure, Except.pure,
    Except.ok.injEq] at ran
  obtain ⟨_, _, image, present, rfl⟩ := ran
  have own := Keyed.key_of_get present
  refine ⟨_, ?_, rfl⟩
  exact own

theorem deleteImage_eq_ok {id : Uuid} {c : Cluster} {result : Section}
    (ran : deleteImage id c = .ok result) :
    c.pools.any (fun pool => pool.image = id) = false ∧
      c.environments.any (fun environment => environment.image = id) = false ∧
      result =
        ⟨{ c with
            images := c.images.erase id
            nodes := c.nodes.map (fun node => { node with images := node.images.erase id })
              (fun _ => rfl) },
          [.saveCluster, .unlock], .noContent⟩ := by
  simp only [deleteImage, bind_eq_ok_iff, require_eq_ok_iff, found_eq_ok_iff, exists_const,
    pure, Except.pure,
    Except.ok.injEq, Bool.or_eq_false_iff] at ran
  obtain ⟨⟨pools, environments⟩, _, _, rfl⟩ := ran
  exact ⟨pools, environments, rfl⟩

theorem createPool_eq_ok {pool : Pool} {c : Cluster} {result : Section}
    (ran : createPool pool c = .ok result) :
    pool.managedBy = none ∧ pool.environment = none ∧ c.pools.contains pool.name = false ∧
      result = ⟨{ c with pools := c.pools.insert pool }, [.saveCluster, .unlock], .pool pool⟩ := by
  simp only [createPool, bind_eq_ok_iff, require_eq_ok_iff, found_eq_ok_iff, exists_const,
    pure, Except.pure,
    Except.ok.injEq] at ran
  obtain ⟨_, _, _, ⟨unmanaged, free, _⟩, _, _, absent, _, _, _, _, _, rfl⟩ := ran
  exact ⟨unmanaged, free, absent, rfl⟩

theorem deletePool_eq_ok {name : String} {c : Cluster} {result : Section}
    (ran : deletePool name c = .ok result) :
    c.executions.any (fun execution => execution.activeIn name) = false ∧
      result = ⟨c.removePool name, [.saveCluster, .unlock], .noContent⟩ := by
  simp only [deletePool, bind_eq_ok_iff, require_eq_ok_iff, exists_const, pure, Except.pure,
    Except.ok.injEq] at ran
  obtain ⟨unused, _, rfl⟩ := ran
  exact ⟨unused, rfl⟩

/-- What `update_environment` and `restart_environment` make of a restarted pool. -/
def settle (restarted : Restarted) : Section :=
  if restarted.panicked then panicSection restarted.cluster
  else finishEnvironment restarted.environment restarted.reassigned restarted.cluster

theorem restartEnvironment_eq_ok {fresh id : Uuid} {c : Cluster} {result : Section}
    (ran : restartEnvironment fresh id c = .ok result) :
    ∃ environment, c.environments.get id = some environment ∧
      result = settle (restartEnvironmentPool fresh environment c) := by
  simp only [restartEnvironment, bind_eq_ok_iff, found_eq_ok_iff, pure, Except.pure,
    Except.ok.injEq] at ran
  obtain ⟨environment, present, rfl⟩ := ran
  exact ⟨environment, present, rfl⟩

theorem updateEnvironment_eq (fresh id : Uuid) (request : EnvironmentRequest) (old : Environment)
    (image : Image)
    (artifact : Artifact) (c : Cluster) :
    updateEnvironment fresh id request old image artifact c =
      if needsRebuild old image.id request then
        settle (restartEnvironmentPool fresh
          (requestedEnvironment id request image.id artifact old.pool) c)
      else
        finishEnvironment (requestedEnvironment id request image.id artifact old.pool) []
          { c with pools := c.pools.insert (environmentPool
            (requestedEnvironment id request image.id artifact old.pool)) } :=
  rfl

theorem deleteEnvironment_eq_ok {id : Uuid} {c : Cluster} {result : Section}
    (ran : deleteEnvironment id c = .ok result) :
    ∃ environment, c.environments.get id = some environment ∧
      c.executions.any (fun execution => decide (execution.environment = some id) &&
        execution.status.active) = false ∧
      result =
        ⟨forgetArtifact (withoutEnvironment c environment)
            (orphanedArtifact (withoutEnvironment c environment) environment),
          .saveCluster :: (orphanedArtifact (withoutEnvironment c environment)
            environment).toList.map
            Op.removeArtifact ++ [.unlock], .noContent⟩ := by
  simp only [deleteEnvironment, bind_eq_ok_iff, require_eq_ok_iff, found_eq_ok_iff, exists_const,
    pure, Except.pure,
    Except.ok.injEq] at ran
  obtain ⟨unused, environment, present, rfl⟩ := ran
  exact ⟨environment, present, unused, rfl⟩

theorem joinCluster_eq_ok {node : Uuid} {tokenHash credentialHash : String}
    {now : Nat} {c : Cluster}
    {result : Section} (ran : joinCluster node tokenHash credentialHash now c = .ok result) :
    ∃ token, c.joinTokens.values.find? (acceptable now tokenHash) = some token ∧
      result =
        ⟨{ c with
            joinTokens := c.joinTokens.adjust token.id
              (fun token => { token with usedAtMs := some now }) (fun _ => rfl)
            nodeCredentials := c.nodeCredentials.insert (node, credentialHash) },
          [.saveCluster, .unlock], .credentials node⟩ := by
  simp only [joinCluster, bind_eq_ok_iff, found_eq_ok_iff, pure, Except.pure,
    Except.ok.injEq] at ran
  obtain ⟨token, accepted, rfl⟩ := ran
  exact ⟨token, accepted, rfl⟩

theorem updateNode_eq_ok {id : Uuid} {concurrency : Nat} {c : Cluster} {result : Section}
    (ran : updateNode id concurrency c = .ok result) :
    ∃ node, c.nodes.get id = some node ∧
      result =
        ⟨{ c with nodes := c.nodes.insert { node with vmStartConcurrency := some concurrency } },
          [.saveCluster, .unlock], .node { node with vmStartConcurrency := some concurrency }⟩ := by
  simp only [updateNode, bind_eq_ok_iff, require_eq_ok_iff, found_eq_ok_iff, exists_const,
    pure, Except.pure,
    Except.ok.injEq] at ran
  obtain ⟨_, node, present, rfl⟩ := ran
  exact ⟨node, present, rfl⟩

theorem deleteNode_eq_ok {id : Uuid} {c : Cluster} {result : Section}
    (ran : deleteNode id c = .ok result) :
    c.executions.any (fun execution => execution.occupiesOn id) = false ∧
      result = scheduleAndSave
        { c with nodes := c.nodes.erase id, nodeCredentials :=
          c.nodeCredentials.erase id } .noContent := by
  simp only [deleteNode, bind_eq_ok_iff, require_eq_ok_iff, exists_const, pure, Except.pure,
    Except.ok.injEq] at ran
  obtain ⟨unused, _, rfl⟩ := ran
  exact ⟨unused, rfl⟩

theorem imageReady_eq_ok {id image : Uuid} {c : Cluster} {result : Section}
    (ran : imageReady id image c = .ok result) :
    result = scheduleAndSave
      (({ c with nodes := c.nodes.adjust id (fun node =>
        { node with images := insert image node.images }) (fun _ => rfl) } :
        Cluster).refreshNode id) .noContent := by
  simp only [imageReady, bind_eq_ok_iff, require_eq_ok_iff, exists_const, pure, Except.pure,
    Except.ok.injEq] at ran
  exact ran.2.2.symm

theorem environmentReady_eq_ok {id : Uuid} {artifact : String} {c : Cluster} {result : Section}
    (ran : environmentReady id artifact c = .ok result) :
    result = scheduleAndSave
      { c with
        nodes := c.nodes.adjust id (fun node =>
          { node with environments := insert artifact node.environments }) (fun _ => rfl) }
      .noContent := by
  simp only [environmentReady, bind_eq_ok_iff, require_eq_ok_iff, exists_const, pure, Except.pure,
    Except.ok.injEq] at ran
  exact ran.2.2.symm

theorem namedEnvironment_present [Crates] {key : String} {c : Cluster} {environment : Environment}
    (resolves : namedEnvironment key c = some environment) : c.environments.get environment.id =
      some environment := by
  simp only [namedEnvironment, Option.or_eq_some_iff] at resolves
  rcases resolves with byId | ⟨_, byName⟩
  · obtain ⟨id, _, present⟩ := Option.bind_eq_some_iff.mp byId
    exact Keyed.get_congr present
  · exact (Keyed.mem_values_iff _ _).mp (List.mem_of_find?_eq_some byName)

/-- The section of `create_execution` leaves the cluster alone: it either panics or goes on
to insert the row of a new queued execution. -/
theorem createExecution_eq_ok [Crates] {id : Uuid} {request : CreateExecution}
    {secrets : Bytes} {now : Nat}
    {c : Cluster} {result : Section} (ran : createExecution id request secrets now c = .ok result) :
    result = panicSection c ∨ ∃ poolName pool environment,
      c.pools.get poolName = some pool ∧
      ((∃ named, c.environments.get environment = some named ∧ poolName = named.pool) ∨
        pool.environment = some environment) ∧
      result = ⟨c, [.insertExecution (newExecution id request poolName environment now) secrets
        request.queue],
        .accepted (newExecution id request poolName environment now)⟩ := by
  simp only [createExecution, bind_eq_ok_iff, require_eq_ok_iff, found_eq_ok_iff,
    exists_const] at ran
  obtain ⟨_, poolName, named, pool, known, environment, resolved, rest⟩ := ran
  cases image : c.images.get pool.image with
  | none =>
    simp only [image, pure, Except.pure, Except.ok.injEq] at rest
    exact .inl rest.symm
  | some _ =>
    simp only [image, bind_eq_ok_iff, require_eq_ok_iff, found_eq_ok_iff, exists_const,
      pure, Except.pure,
      Except.ok.injEq] at rest
    obtain ⟨_, _, _, rfl⟩ := rest
    refine .inr ⟨poolName, pool, environment, known, ?_, rfl⟩
    cases chosen : request.environment.bind (fun key => namedEnvironment key c) with
    | none =>
      rw [chosen] at resolved
      exact .inr resolved
    | some other =>
      rw [chosen] at resolved named
      simp only [Option.map_some, Option.some_or, Option.some.injEq] at resolved named
      obtain ⟨key, _, resolves⟩ := Option.bind_eq_some_iff.mp chosen
      exact .inl ⟨other, resolved ▸ namedEnvironment_present resolves, named.symm⟩

/-- What `next_work` found when it hands out an execution. -/
theorem nextWork_eq_ok {id : Uuid} {choice : Option Uuid} {now : Nat} {c : Cluster}
    {result : Section}
    (ran : nextWork id choice now c = .ok result) :
    result = ⟨c, [.unlock], .noWork⟩ ∨ ∃ execution, choice = some execution.id ∧
      c.executions.get execution.id = some execution ∧
      ((c.pools.get execution.pool = none ∧ result = panicSection (c.start execution.id now)) ∨
        ∃ pool, c.pools.get execution.pool = some pool ∧
          result =
            ⟨c.start execution.id now,
              [.unlock, .saveExecution
                { execution with status := .running, startedAtMs := some now },
                .deliver id { execution with status := .running, startedAtMs := some now } pool],
              .refused internalError⟩) := by
  simp only [nextWork, bind_eq_ok_iff, require_eq_ok_iff, exists_const] at ran
  obtain ⟨_, rest⟩ := ran
  cases found : choice.bind (fun choice => c.executions.get choice) with
  | none =>
    simp only [found, pure, Except.pure, Except.ok.injEq] at rest
    exact .inl rest.symm
  | some execution =>
    obtain ⟨chosen, rfl, present⟩ := Option.bind_eq_some_iff.mp found
    have own := Keyed.key_of_get present
    subst own
    refine .inr ⟨execution, rfl, present, ?_⟩
    cases known : c.pools.get execution.pool with
    | none =>
      simp only [found, known, pure, Except.pure, Except.ok.injEq] at rest
      exact .inl ⟨rfl, rest.symm⟩
    | some pool =>
      simp only [found, known, pure, Except.pure, Except.ok.injEq] at rest
      exact .inr ⟨pool, rfl, rest.symm⟩

/-- The cluster of `complete_execution` before it schedules: the execution is gone, and so is
its pool if nothing needs it any more. -/
def cleaned (c : Cluster) (execution : Execution) (keepIdle : Bool) : Cluster :=
  if stalePool execution.pool (c.finish execution.id keepIdle) then
    (c.finish execution.id keepIdle).removePool execution.pool
  else c.finish execution.id keepIdle

theorem terminal_finalStatus (request : CompleteExecution) : (finalStatus request).terminal =
    true := by
  unfold finalStatus
  split_ifs <;> rfl

theorem stalePool_forget {c : Cluster} {id : Uuid} (done : c.Done id) (pool : String) :
    stalePool pool (c.forget id) = stalePool pool c := by
  unfold stalePool
  rw [Cluster.any_forget]
  · rfl
  · apply done.skips
    intro execution holds
    simp only [Execution.activeIn, ExecutionStatus.active_eq_not_terminal, Bool.and_eq_true,
      Bool.not_eq_true'] at holds
    exact holds.2

theorem completeExecution_eq_ok {node id : Uuid} {request : CompleteExecution}
    {now : Nat} {c : Cluster}
    {result : Section} (ran : completeExecution node id request now c = .ok result) :
    ∃ execution, c.executions.get id = some execution ∧ execution.node = some node ∧
      result =
        ⟨(cleaned c execution request.keepIdle).scheduleQueued.1,
          [.saveCluster, .unlock, .saveExecutions
            (cleaned c execution request.keepIdle).scheduleQueued.2,
            .completeExecution (finished request now execution)],
          .completed node id⟩ := by
  simp only [completeExecution, bind_eq_ok_iff, require_eq_ok_iff, found_eq_ok_iff, exists_const,
    pure, Except.pure,
    Except.ok.injEq] at ran
  obtain ⟨execution, present, placed, rfl⟩ := ran
  have own := Keyed.key_of_get present
  subst own
  refine ⟨execution, present, placed, ?_⟩
  rw [Cluster.release_adjust c execution.id request.keepIdle (finished request now)
    (finished_id request now)
    (fun _ => rfl) (fun _ => rfl)]
  generalize reached : ({ c.release execution.id request.keepIdle with
    executions := c.executions.adjust execution.id (finished request now)
      (finished_id request now) } : Cluster) =
      released
  have done : released.Done execution.id := by
    refine ⟨finished request now execution, ?_, terminal_finalStatus request⟩
    rw [← reached]
    simp [present]
  have gone : released.forget execution.id = c.finish execution.id request.keepIdle := by
    rw [← reached]
    simp [Cluster.forget, Cluster.finish, Keyed.erase_adjust_self]
  have clean : (if stalePool execution.pool released then released.removePool
    execution.pool else released).forget
      execution.id = cleaned c execution request.keepIdle := by
    rw [cleaned, ← gone, stalePool_forget done]
    split_ifs
    · rw [Cluster.removePool_frame, Cluster.removePool_frame (released.forget execution.id)]
      cases known : released.pools.get execution.pool <;>
        simp [Cluster.forget, Cluster.removePool, known]
    · rfl
  have ended : (if stalePool execution.pool released then released.removePool
    execution.pool else released).Done
      execution.id := by
    split_ifs
    · simpa [Cluster.Done] using done
    · exact done
  rw [← clean, Cluster.scheduleQueued_forget ended]
  rfl

/-! The loop that moves the executions of a pool to the environment's next one. -/

theorem requeue_eq (pool : String) (c : Cluster) (id : Uuid) :
    ∃ nodes, requeue pool c id =
      { c with
        nodes := nodes
        executions := c.executions.adjust id (Execution.requeued pool)
          (Execution.requeued_id pool) } := by
  unfold requeue
  dsimp only
  split_ifs
  · refine ⟨(c.release id false).nodes, ?_⟩
    rw [Cluster.release_frame]
  · exact ⟨c.nodes, rfl⟩

@[simp] theorem requeue_pools (pool : String) (c : Cluster)
    (id : Uuid) : (requeue pool c id).pools = c.pools := by
  obtain ⟨nodes, same⟩ := requeue_eq pool c id
  rw [same]

@[simp] theorem requeue_environments (pool : String) (c : Cluster) (id : Uuid) :
    (requeue pool c id).environments = c.environments := by
  obtain ⟨nodes, same⟩ := requeue_eq pool c id
  rw [same]

@[simp] theorem requeue_decisions (pool : String) (c : Cluster) (id : Uuid) :
    (requeue pool c id).decisions = c.decisions := by
  obtain ⟨nodes, same⟩ := requeue_eq pool c id
  rw [same]

theorem requeue_get (pool : String) (c : Cluster) (id k : Uuid) :
    (requeue pool c id).executions.get k =
      if k = id then (c.executions.get k).map
        (Execution.requeued pool) else c.executions.get k := by
  obtain ⟨nodes, same⟩ := requeue_eq pool c id
  rw [same, Keyed.get_adjust]

/-- What holds at the start and survives each move of a listed execution holds after the loop. -/
theorem requeueAll_invariant {P : Cluster → Prop} {Q : Execution → Prop}
    {pool : String} {c : Cluster}
    {ids : List Uuid} (once : ids.Nodup)
    (waiting : ∀ id ∈ ids, ∃ execution, c.executions.get id = some execution ∧
      Q execution) (start : P c)
    (kept : ∀ {c : Cluster} {id : Uuid} {execution : Execution}, P c →
      c.executions.get id = some execution →
      Q execution → P (requeue pool c id)) :
    P (ids.foldl (requeue pool) c) := by
  induction ids generalizing c with
  | nil => exact start
  | cons id rest ih =>
    obtain ⟨absent, once⟩ := List.nodup_cons.mp once
    obtain ⟨execution, present, status⟩ := waiting id List.mem_cons_self
    apply ih once
    · intro other member
      have differ : other ≠ id := fun same => absent (same ▸ member)
      rw [requeue_get, if_neg differ]
      exact waiting other (List.mem_cons_of_mem _ member)
    · exact kept start present status

theorem requeueAll_get (pool : String) (c : Cluster) {ids : List Uuid}
    (once : ids.Nodup) (k : Uuid) :
    (ids.foldl (requeue pool) c).executions.get k =
      if k ∈ ids then (c.executions.get k).map
        (Execution.requeued pool) else c.executions.get k := by
  induction ids generalizing c with
  | nil => simp
  | cons id rest ih =>
    obtain ⟨absent, once⟩ := List.nodup_cons.mp once
    rw [List.foldl_cons, ih _ once, requeue_get]
    by_cases same : k = id
    · subst same
      simp [absent]
    · simp [same]

@[simp] theorem requeueAll_pools (pool : String) (c : Cluster) (ids : List Uuid) :
    (ids.foldl (requeue pool) c).pools = c.pools := by
  induction ids generalizing c with
  | nil => rfl
  | cons id rest ih => rw [List.foldl_cons, ih, requeue_pools]

@[simp] theorem requeueAll_environments (pool : String) (c : Cluster) (ids : List Uuid) :
    (ids.foldl (requeue pool) c).environments = c.environments := by
  induction ids generalizing c with
  | nil => rfl
  | cons id rest ih => rw [List.foldl_cons, ih, requeue_environments]

@[simp] theorem requeueAll_decisions (pool : String) (c : Cluster) (ids : List Uuid) :
    (ids.foldl (requeue pool) c).decisions = c.decisions := by
  induction ids generalizing c with
  | nil => rfl
  | cons id rest ih => rw [List.foldl_cons, ih, requeue_decisions]

theorem mem_reassignedIds (pool : String) (c : Cluster) (id : Uuid) :
    id ∈ reassignedIds pool c ↔ ∃ execution, c.executions.get id = some execution ∧
      execution.pool = pool ∧
      (execution.status = .queued ∨ execution.status = .assigned) := by
  simp only [reassignedIds, List.mem_map, List.mem_filter, Keyed.mem_values_iff, Bool.and_eq_true,
    Bool.or_eq_true,
    decide_eq_true_eq]
  constructor
  · rintro ⟨execution, ⟨present, inside, status⟩, rfl⟩
    exact ⟨execution, present, inside, status⟩
  · rintro ⟨execution, present, inside, status⟩
    exact ⟨execution, ⟨Keyed.get_congr present, inside, status⟩, Keyed.key_of_get present⟩

theorem nodup_reassignedIds (pool : String) (c : Cluster) : (reassignedIds pool c).Nodup :=
  c.executions.nodup_filter _

/-- The cluster after the loop of `restart_environment_pool`. -/
def moved (name : String) (pool : String) (c : Cluster) : Cluster :=
  (reassignedIds pool c).foldl (requeue name) c

theorem moved_get (name pool : String) (c : Cluster) (k : Uuid) :
    (moved name pool c).executions.get k =
      if k ∈ reassignedIds pool c then (c.executions.get k).map
        (Execution.requeued name) else c.executions.get k :=
  requeueAll_get name c (nodup_reassignedIds pool c) k

@[simp] theorem moved_pools (name pool : String)
    (c : Cluster) : (moved name pool c).pools = c.pools :=
  requeueAll_pools ..

@[simp] theorem moved_environments (name pool : String) (c : Cluster) :
    (moved name pool c).environments = c.environments := requeueAll_environments ..

@[simp] theorem moved_decisions (name pool : String)
    (c : Cluster) : (moved name pool c).decisions = c.decisions :=
  requeueAll_decisions ..

/-- An execution of the pool is running. -/
def runningIn (pool : String) (c : Cluster) : Bool :=
  c.executions.any (fun execution => execution.pool = pool && decide (execution.status = .running))

/-- Nothing that runs in the pool is moved. -/
theorem runningIn_moved (name pool : String) (c : Cluster) :
    runningIn pool (moved name pool c) = runningIn pool c := by
  rw [Bool.eq_iff_iff, runningIn, runningIn, Keyed.any_iff, Keyed.any_iff]
  constructor
  · rintro ⟨k, execution, present, runs⟩
    rw [moved_get] at present
    split_ifs at present
    · obtain ⟨before, -, rfl⟩ := Option.map_eq_some_iff.mp present
      simp [Execution.requeued] at runs
    · exact ⟨k, execution, present, runs⟩
  · rintro ⟨k, execution, present, runs⟩
    refine ⟨k, execution, ?_, runs⟩
    rw [moved_get, if_neg, present]
    intro listed
    obtain ⟨other, found, -, waits⟩ := (mem_reassignedIds pool c k).mp listed
    obtain rfl := Option.some.inj (present.symm.trans found)
    rcases waits with status | status <;> simp [status] at runs

/-- The three ways `restart_environment_pool` can go: it keeps the old pool for what still runs
there, or it has none to keep, or it drops the old pool. -/
theorem restartEnvironmentPool_cases (fresh : Uuid) (environment : Environment) (c : Cluster) :
    let name := restartedPoolName environment.id fresh
    let next : Environment := { environment with pool := name }
    let reached := moved name environment.pool c
    let ids := reassignedIds environment.pool c
    (∃ old, c.pools.get environment.pool = some old ∧ runningIn environment.pool reached = true ∧
      restartEnvironmentPool fresh environment c =
        ⟨{ reached.quietPool environment.pool with
            pools := (reached.quietPool environment.pool).pools.insert (environmentPool next) },
              next, ids, false⟩) ∨
    (c.pools.get environment.pool = none ∧ runningIn environment.pool reached = true ∧
      restartEnvironmentPool fresh environment c = ⟨reached, next, ids, true⟩) ∨
    (runningIn environment.pool reached = false ∧
      restartEnvironmentPool fresh environment c =
        ⟨{ reached.removePool environment.pool with
            pools := (reached.removePool environment.pool).pools.insert (environmentPool next) },
              next, ids, false⟩) := by
  intro name next reached ids
  have unfolded : restartEnvironmentPool fresh environment c =
      if runningIn environment.pool reached then
        if reached.pools.contains environment.pool then
          ⟨{ reached.quietPool environment.pool with
              pools := (reached.quietPool environment.pool).pools.insert (environmentPool next) },
                next, ids, false⟩
        else ⟨reached, next, ids, true⟩
      else
        ⟨{ reached.removePool environment.pool with
            pools := (reached.removePool environment.pool).pools.insert (environmentPool next) },
              next, ids, false⟩ :=
    rfl
  rw [unfolded]
  have pools : reached.pools = c.pools := moved_pools ..
  cases running : runningIn environment.pool reached with
  | false => exact .inr (.inr ⟨rfl, rfl⟩)
  | true =>
    cases known : c.pools.get environment.pool with
    | none => exact .inr (.inl ⟨rfl, rfl, by simp [Keyed.contains, pools, known]⟩)
    | some old => exact .inl ⟨old, rfl, rfl, by simp [Keyed.contains, pools, known]⟩

/-- The execution that the reply hands out, or whose completion it acknowledges. -/
def Reply.concerns : Reply → Option Uuid
  | work _ execution _ _ => some execution.id
  | completed _ execution => some execution
  | _ => none

/-- How a section that was not refused ends: the executions it leaves in memory and the calls
it still has to make. -/
inductive Ending [Crates] (c : Cluster) : Commit → Section → Prop where
  | saved {commit : Commit} {result : Section} (same : result.cluster.executions = c.executions)
      (ops : result.ops = [.saveCluster, .unlock]) (reply : result.reply.concerns = none) :
      Ending c commit result
  | scheduled {commit : Commit} (d : Cluster) (same : d.executions = c.executions) (reply : Reply)
      (other : reply.concerns = none) : Ending c commit (scheduleAndSave d reply)
  | unchanged {commit : Commit} (reply : Reply) (other : reply.concerns = none) :
      Ending c commit ⟨c, [.unlock], reply⟩
  | restartPanicked {commit : Commit} (name pool : String) (unknown : c.pools.get pool = none)
      (running : runningIn pool (moved name pool c) = true) : Ending c commit
        (panicSection (moved name pool c))
  | restarted {commit : Commit} (name : String) (environment : Environment)
      (pool : String) (d : Cluster)
      (same : d.executions = (moved name pool c).executions) :
      Ending c commit (finishEnvironment environment (reassignedIds pool c) d)
  | updated {commit : Commit} (environment : Environment) (d : Cluster)
      (same : d.executions = c.executions) :
      Ending c commit (finishEnvironment environment [] d)
  | deletedEnvironment (id : Uuid) (environment : Environment)
      (present : c.environments.get id = some environment) :
      Ending c (.deleteEnvironment id)
        ⟨forgetArtifact (withoutEnvironment c environment)
            (orphanedArtifact (withoutEnvironment c environment) environment),
          .saveCluster :: (orphanedArtifact (withoutEnvironment c environment)
            environment).toList.map
            Op.removeArtifact ++ [.unlock], .noContent⟩
  | createPanicked {commit : Commit} : Ending c commit (panicSection c)
  | created (id : Uuid) (request : CreateExecution) (secrets : Bytes) (now : Nat)
      (poolName : String) (pool : Pool)
      (environment : Uuid) (known : c.pools.get poolName = some pool)
      (resolved : (∃ named, c.environments.get environment = some named ∧ poolName = named.pool) ∨
        pool.environment = some environment) :
      Ending c (.createExecution id request secrets now)
        ⟨c, [.insertExecution (newExecution id request poolName environment now) secrets
          request.queue],
          .accepted (newExecution id request poolName environment now)⟩
  | workPanicked (node : Uuid) (now : Nat) (execution : Execution)
      (present : c.executions.get execution.id = some execution)
      (unknown : c.pools.get execution.pool = none) :
      Ending c (.nextWork node (some execution.id) now) (panicSection (c.start execution.id now))
  | worked (node : Uuid) (now : Nat) (execution : Execution) (pool : Pool)
      (present : c.executions.get execution.id = some execution)
      (known : c.pools.get execution.pool = some pool) :
      Ending c (.nextWork node (some execution.id) now)
        ⟨c.start execution.id now,
          [.unlock, .saveExecution { execution with status := .running, startedAtMs := some now },
            .deliver node { execution with status := .running, startedAtMs := some now } pool],
          .refused internalError⟩
  | completed (node : Uuid) (request : CompleteExecution) (now : Nat) (execution : Execution)
      (present : c.executions.get execution.id = some execution)
      (placed : execution.node = some node) :
      Ending c (.completeExecution node execution.id request now)
        ⟨(cleaned c execution request.keepIdle).scheduleQueued.1,
          [.saveCluster, .unlock, .saveExecutions
            (cleaned c execution request.keepIdle).scheduleQueued.2,
            .completeExecution (finished request now execution)],
          .completed node execution.id⟩

theorem ending_settle [Crates] {c : Cluster} {commit : Commit} (fresh : Uuid)
    (environment : Environment) :
    Ending c commit (settle (restartEnvironmentPool fresh environment c)) := by
  rcases restartEnvironmentPool_cases fresh environment c with
    ⟨old, known, running, same⟩ | ⟨unknown, running, same⟩ | ⟨quiet, same⟩
  · rw [same]
    exact .restarted (restartedPoolName environment.id fresh) _ environment.pool _ rfl
  · rw [same]
    exact .restartPanicked _ _ unknown running
  · rw [same]
    refine .restarted (restartedPoolName environment.id fresh) _ environment.pool _ ?_
    exact Cluster.removePool_executions ..

theorem ending_scheduleIfChanged [Crates] {c : Cluster} {commit : Commit} {changed : Option Cluster}
    (same : ∀ next, changed = some next → next.executions = c.executions) :
    Ending c commit (scheduleIfChanged c changed) := by
  cases changed with
  | none => exact .unchanged _ rfl
  | some next => exact .scheduled next (same next rfl) _ rfl

theorem Commit.ending [Crates]
    {c : Cluster} {commit : Commit} {result : Section} (ran : commit.run c = .ok result) :
    Ending c commit result := by
  cases commit with
  | importImage image =>
    obtain rfl := Except.ok.inj ran
    exact .saved rfl rfl rfl
  | updateImage id update =>
    obtain ⟨image, -, rfl⟩ := updateImage_eq_ok ran
    exact .saved rfl rfl rfl
  | deleteImage id =>
    obtain ⟨-, -, rfl⟩ := deleteImage_eq_ok ran
    exact .saved rfl rfl rfl
  | createPool pool =>
    obtain ⟨-, -, -, rfl⟩ := createPool_eq_ok ran
    exact .saved rfl rfl rfl
  | deletePool name =>
    obtain ⟨-, rfl⟩ := deletePool_eq_ok ran
    exact .saved (Cluster.removePool_executions ..) rfl rfl
  | createEnvironment id request image artifact =>
    obtain rfl := Except.ok.inj ran
    exact .saved rfl rfl rfl
  | updateEnvironment fresh id request old image artifact =>
    obtain rfl := Except.ok.inj ran
    rw [updateEnvironment_eq]
    split_ifs
    · exact ending_settle fresh _
    · exact .updated _ _ rfl
  | restartEnvironment fresh id =>
    obtain ⟨environment, -, rfl⟩ := restartEnvironment_eq_ok ran
    exact ending_settle fresh environment
  | deleteEnvironment id =>
    obtain ⟨environment, present, -, rfl⟩ := deleteEnvironment_eq_ok ran
    exact .deletedEnvironment id environment present
  | createJoinToken id tokenHash now =>
    obtain rfl := Except.ok.inj ran
    exact .saved rfl rfl rfl
  | joinCluster node tokenHash credentialHash now =>
    obtain ⟨token, -, rfl⟩ := joinCluster_eq_ok ran
    exact .saved rfl rfl rfl
  | localJoin node credentialHash =>
    obtain rfl := Except.ok.inj ran
    exact .saved rfl rfl rfl
  | updateNode id concurrency =>
    obtain ⟨node, -, rfl⟩ := updateNode_eq_ok ran
    exact .saved rfl rfl rfl
  | deleteNode id =>
    obtain ⟨-, rfl⟩ := deleteNode_eq_ok ran
    refine .scheduled _ ?_ _ rfl
    rfl
  | registerNode id request now =>
    obtain rfl := Except.ok.inj ran
    refine .scheduled _ ?_ _ ?_
    · cases request.resetIdle <;> rfl
    · cases Keyed.get _ id <;> rfl
  | imageReady id image =>
    obtain rfl := imageReady_eq_ok ran
    refine .scheduled _ ?_ _ rfl
    rfl
  | environmentReady id artifact =>
    obtain rfl := environmentReady_eq_ok ran
    refine .scheduled _ ?_ _ rfl
    rfl
  | addWarmInstance id pool =>
    obtain rfl := Except.ok.inj ran
    refine ending_scheduleIfChanged fun next added => ?_
    obtain ⟨_, _, _, _, _, _, rfl⟩ := Cluster.addWarmInstance_eq_some added
    rfl
  | removeIdleInstance id pool =>
    obtain rfl := Except.ok.inj ran
    refine ending_scheduleIfChanged fun next removed => ?_
    obtain ⟨_, _, _, _, _, rfl⟩ := Cluster.removeIdleInstance_eq_some removed
    rfl
  | createExecution id request secrets now =>
    rcases createExecution_eq_ok ran with rfl | ⟨poolName, pool, environment, known, resolved, rfl⟩
    · exact .createPanicked
    · exact .created id request secrets now poolName pool environment known resolved
  | nextWork id choice now =>
    rcases nextWork_eq_ok ran with rfl | ⟨execution, rfl, present,
      ⟨unknown, rfl⟩ | ⟨pool, known, rfl⟩⟩
    · exact .unchanged _ rfl
    · exact .workPanicked id now execution present unknown
    · exact .worked id now execution pool present known
  | completeExecution node id request now =>
    obtain ⟨execution, present, placed, rfl⟩ := completeExecution_eq_ok ran
    have own := Keyed.key_of_get present
    subst own
    exact .completed node request now execution present placed

end Scraperack
