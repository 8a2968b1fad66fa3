import Scraperack.Agreement

/-! Pools after a section: those that were there, perhaps no longer kept warm, and the one that it writes. -/

namespace Scraperack

/-- All pools are of some kind. -/
def PoolsAll (good : Pool → Prop) (c : Cluster) : Prop :=
  ∀ name pool, c.pools.get name = some pool → good pool

/-- The pool that the section writes. -/
def Commit.writesPool (c : Cluster) : Commit → Option Pool
  | createPool pool => some pool
  | createEnvironment id request image artifact =>
    some (environmentPool (requestedEnvironment id request image.id artifact
      (environmentPoolName id)))
  | updateEnvironment fresh id request old image artifact =>
    some (environmentPool (requestedEnvironment id request image.id artifact
      (if needsRebuild old image.id request then restartedPoolName id fresh else old.pool)))
  | restartEnvironment fresh id =>
    (c.environments.get id).map (fun environment =>
      environmentPool { environment with pool := restartedPoolName environment.id fresh })
  | _ => none

section
variable {good : Pool → Prop} {c : Cluster}

namespace PoolsAll

theorem of_same {d : Cluster} (within : PoolsAll good c)
    (pools : d.pools = c.pools) : PoolsAll good d :=
  fun name pool known => within name pool (pools ▸ known)

theorem insertPool (within : PoolsAll good c) {pool : Pool} (new : good pool) :
    PoolsAll good { c with pools := c.pools.insert pool } := by
  intro name other known
  rw [Keyed.get_insert] at known
  split_ifs at known
  · exact Option.some.inj known ▸ new
  · exact within name other known

theorem removePool (within : PoolsAll good c) (name : String) : PoolsAll good
    (c.removePool name) := by
  intro other pool known
  rw [Cluster.removePool_pools, Keyed.get_erase] at known
  split_ifs at known
  exact within other pool known

theorem insertEnvironment (within : PoolsAll good c) (environment : Environment) :
    PoolsAll good { c with environments := c.environments.insert environment } := within

theorem adjustPool (within : PoolsAll good c) (name : String) {f : Pool → Pool}
    (keeps : ∀ pool, (f pool).name = pool.name)
    (same : ∀ pool, good pool → good (f pool)) :
    PoolsAll good { c with pools := c.pools.adjust name f keeps } := by
  intro other pool known
  rw [Keyed.get_adjust] at known
  split_ifs at known
  · obtain ⟨old, was, rfl⟩ := Option.map_eq_some_iff.mp known
    exact same old (within other old was)
  · exact within other pool known

theorem scheduleQueued (within : PoolsAll good c) : PoolsAll good c.scheduleQueued.1 :=
  within.of_same c.scheduleQueued_pools

theorem scheduleIfChanged {changed : Option Cluster} (within : PoolsAll good c)
    (same : ∀ next, changed = some next → next.pools = c.pools) : PoolsAll good
      (scheduleIfChanged c changed).cluster := by
  cases changed with
  | none => exact within
  | some next => exact (within.of_same (same next rfl)).scheduleQueued

theorem restart (within : PoolsAll good c)
    (quiet : ∀ pool, good pool → good { pool with warmInstances := 0 })
    (fresh : Uuid) (environment : Environment)
    (new : good (environmentPool
      { environment with pool := restartedPoolName environment.id fresh })) :
    PoolsAll good (settle (restartEnvironmentPool fresh environment c)).cluster := by
  let next : Environment := { environment with pool := restartedPoolName environment.id fresh }
  have renewed : good (environmentPool next) := new
  have looped : PoolsAll good (moved (restartedPoolName environment.id fresh) environment.pool c) :=
    within.of_same (moved_pools ..)
  rcases restartEnvironmentPool_cases fresh environment c with
    ⟨old, known, running, same⟩ | ⟨unknown, running, same⟩ | ⟨idle, same⟩
  · rw [same]
    have quieted := looped.adjustPool environment.pool (f :=
      fun pool => { pool with warmInstances := 0 })
      (fun _ => rfl) quiet
    exact ((quieted.insertPool renewed).insertEnvironment next).scheduleQueued
  · rw [same]
    exact looped
  · rw [same]
    exact (((looped.removePool environment.pool).insertPool renewed).insertEnvironment
      next).scheduleQueued

end PoolsAll

/-- Sections write no pool but the one they are said to. -/
theorem Commit.poolsAll [Crates]
    {commit : Commit} {result : Section} (ran : commit.run c = .ok result)
    (within : PoolsAll good c)
    (quiet : ∀ pool, good pool → good { pool with warmInstances := 0 })
    (new : ∀ pool, commit.writesPool c = some pool → good pool) :
    PoolsAll good result.cluster := by
  cases commit with
  | importImage image =>
    obtain rfl := Except.ok.inj ran
    exact within
  | updateImage id update =>
    obtain ⟨image, -, rfl⟩ := updateImage_eq_ok ran
    exact within
  | deleteImage id =>
    obtain ⟨-, -, rfl⟩ := deleteImage_eq_ok ran
    exact within
  | createPool pool =>
    obtain ⟨-, -, -, rfl⟩ := createPool_eq_ok ran
    exact within.insertPool (new pool rfl)
  | deletePool name =>
    obtain ⟨-, rfl⟩ := deletePool_eq_ok ran
    exact within.removePool name
  | createEnvironment id request image artifact =>
    obtain rfl := Except.ok.inj ran
    exact (within.insertPool (new _ rfl)).of_same rfl
  | updateEnvironment fresh id request old image artifact =>
    obtain rfl := Except.ok.inj ran
    have written := new _ rfl
    rw [updateEnvironment_eq]
    split_ifs with rebuild
    · rw [if_pos rebuild] at written
      exact within.restart quiet fresh _ written
    · rw [if_neg rebuild] at written
      exact ((within.insertPool written).insertEnvironment _).scheduleQueued
  | restartEnvironment fresh id =>
    obtain ⟨environment, present, rfl⟩ := restartEnvironment_eq_ok ran
    exact within.restart quiet fresh environment (new _ (by rw [Commit.writesPool, present]; rfl))
  | deleteEnvironment id =>
    obtain ⟨environment, -, -, rfl⟩ := deleteEnvironment_eq_ok ran
    have removed : PoolsAll good (withoutEnvironment c environment) :=
      PoolsAll.removePool (c :=
        { c with environments := c.environments.erase environment.id }) (within.of_same rfl) _
    unfold forgetArtifact
    split
    · exact removed.of_same rfl
    · exact removed
  | createJoinToken id tokenHash now =>
    obtain rfl := Except.ok.inj ran
    exact within
  | joinCluster node tokenHash credentialHash now =>
    obtain ⟨token, -, rfl⟩ := joinCluster_eq_ok ran
    exact within
  | localJoin node credentialHash =>
    obtain rfl := Except.ok.inj ran
    exact within
  | updateNode id concurrency =>
    obtain ⟨node, -, rfl⟩ := updateNode_eq_ok ran
    exact within
  | deleteNode id =>
    obtain ⟨-, rfl⟩ := deleteNode_eq_ok ran
    exact PoolsAll.scheduleQueued (within.of_same rfl)
  | registerNode id request now =>
    obtain rfl := Except.ok.inj ran
    refine PoolsAll.scheduleQueued (within.of_same ?_)
    cases request.resetIdle <;> rfl
  | imageReady id image =>
    obtain rfl := imageReady_eq_ok ran
    exact PoolsAll.scheduleQueued (within.of_same rfl)
  | environmentReady id artifact =>
    obtain rfl := environmentReady_eq_ok ran
    exact PoolsAll.scheduleQueued (within.of_same rfl)
  | addWarmInstance id pool =>
    obtain rfl := Except.ok.inj ran
    refine within.scheduleIfChanged fun next added => ?_
    obtain ⟨_, _, _, _, _, _, rfl⟩ := Cluster.addWarmInstance_eq_some added
    rfl
  | removeIdleInstance id pool =>
    obtain rfl := Except.ok.inj ran
    refine within.scheduleIfChanged fun next removed => ?_
    obtain ⟨_, _, _, _, _, rfl⟩ := Cluster.removeIdleInstance_eq_some removed
    rfl
  | createExecution id request secrets now =>
    rcases createExecution_eq_ok ran with rfl | ⟨_, _, _, _, _, rfl⟩ <;> exact within
  | nextWork id choice now =>
    rcases nextWork_eq_ok ran with rfl | ⟨execution, rfl,
      -, ⟨-, rfl⟩ | ⟨pool, -, rfl⟩⟩ <;> exact within.of_same rfl
  | completeExecution node id request now =>
    obtain ⟨execution, -, -, rfl⟩ := completeExecution_eq_ok ran
    have finished : PoolsAll good (c.finish execution.id request.keepIdle) := within.of_same (by
      simp only [Cluster.finish, Cluster.forget, Cluster.release_pools])
    refine PoolsAll.scheduleQueued ?_
    unfold cleaned
    split_ifs
    · exact finished.removePool _
    · exact finished

end

end Scraperack
