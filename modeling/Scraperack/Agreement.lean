import Scraperack.Images

/-! Environments and their pools. Every environment has the pool made for it, and a pool made
for an environment lasts only as long as it is some environment's or an execution needs it. -/

namespace Scraperack

/-- Some execution of the pool is queued, assigned or running. -/
def Cluster.busy (c : Cluster) (pool : String) : Bool :=
  c.executions.any (fun execution => execution.activeIn pool)

structure Agreed (among : Uuid → Prop) (c : Cluster) : Prop where
  listed : ∀ id environment, c.environments.get id = some environment → among id
  own : ∀ id environment, c.environments.get id = some environment →
    c.pools.get environment.pool = some (environmentPool environment)
  managed : ∀ name pool, c.pools.get name = some pool → pool.managedBy.isSome = true →
    (∃ id environment, c.environments.get id = some environment ∧ environment.pool = name) ∨
      c.busy name = true

/-- The section neither takes away an environment's pool nor leaves behind one that nobody is in:
`delete_pool` finds no environment with the pool, unless it refuses, and `update_environment` finds
its environment, if it is still there, with the pool it has read or one that is in use. -/
def Commit.keepsPools (c : Cluster) : Commit → Bool
  | deletePool name => c.busy name ||
      !c.environments.any (fun environment => environment.pool = name)
  | updateEnvironment _ id _ old _ _ =>
    (c.environments.get id).all (fun environment =>
      environment.pool = old.pool || c.busy environment.pool)
  | _ => true

theorem Cluster.busy_iff (c : Cluster) (pool : String) :
    c.busy pool = true ↔ ∃ id execution, c.executions.get id = some execution ∧
      execution.pool = pool ∧
      execution.status.active = true := by
  simp [busy, Keyed.any_iff, Execution.activeIn]

namespace Agreed
variable {among : Uuid → Prop} {c d : Cluster}

/-- No two environments have one pool. -/
theorem unique (agreed : Agreed among c) {id other : Uuid} {environment another : Environment}
    (present : c.environments.get id = some environment)
    (found : c.environments.get other = some another)
    (same : environment.pool = another.pool) : id = other := by
  have own := agreed.own id environment present
  rw [same, agreed.own other another found] at own
  have ids : another.id = environment.id := by
    have equal := congrArg Pool.environment (Option.some.inj own)
    simpa [environmentPool] using equal
  rw [← Keyed.key_of_get present, ← Keyed.key_of_get found, ids]

theorem congr (agreed : Agreed among c) (pools : d.pools = c.pools)
    (environments : d.environments = c.environments)
    (busy : ∀ name, c.busy name = true → d.busy name = true) : Agreed among d := by
  refine ⟨?_, ?_, ?_⟩
  · rw [environments]
    exact agreed.listed
  · rw [pools, environments]
    exact agreed.own
  · rw [pools, environments]
    exact fun name pool known made => (agreed.managed name pool known made).imp id (busy name)

theorem mono {more : Uuid → Prop} (agreed : Agreed among c)
    (weaker : ∀ id, among id → more id) : Agreed more c :=
  ⟨fun id environment present => weaker id (agreed.listed id environment present), agreed.own,
    agreed.managed⟩

theorem of_same (agreed : Agreed among c) (pools : d.pools = c.pools)
    (environments : d.environments = c.environments)
    (executions : d.executions = c.executions) : Agreed among d :=
  agreed.congr pools environments (fun name busy => by rw [Cluster.busy, executions]; exact busy)

/-- An environment is written together with its pool. What it leaves behind is in use. -/
theorem put (agreed : Agreed among c) (environment : Environment) (listed : among environment.id)
    (environments : d.environments = c.environments.insert environment)
    (own : d.pools.get environment.pool = some (environmentPool environment))
    (others : ∀ id other, c.environments.get id = some other → id ≠ environment.id →
      d.pools.get other.pool = c.pools.get other.pool)
    (pools : ∀ name pool, d.pools.get name = some pool → pool.managedBy.isSome = true →
      name ≠ environment.pool →
      (∃ was, c.pools.get name = some was ∧ was.managedBy.isSome = true) ∧
        (c.busy name = true → d.busy name = true) ∧
        ∀ old, c.environments.get environment.id = some old → old.pool = name →
          d.busy name = true) : Agreed among d := by
  have written : d.environments.get environment.id = some environment := by
    rw [environments]
    exact Keyed.get_insert_self ..
  have kept {id : Uuid} (differ : id ≠ environment.id) : d.environments.get id =
    c.environments.get id := by
    rw [environments]
    exact Keyed.get_insert_ne _ differ
  refine ⟨fun id other present => ?_, fun id other present => ?_, fun name pool known made => ?_⟩
  · by_cases same : id = environment.id
    · exact same ▸ listed
    · exact agreed.listed id other ((kept same).symm.trans present)
  · by_cases same : id = environment.id
    · subst same
      obtain rfl := Option.some.inj (written.symm.trans present)
      exact own
    · rw [kept same] at present
      exact (others id other present same).trans (agreed.own id other present)
  · by_cases named : name = environment.pool
    · exact .inl ⟨environment.id, environment, written, named.symm⟩
    · obtain ⟨⟨was, before, madeBefore⟩, busy, left⟩ := pools name pool known made named
      rcases agreed.managed name was before madeBefore with ⟨id, other, present, own⟩ | used
      · by_cases same : id = environment.id
        · subst same
          exact .inr (left other present own)
        · exact .inl ⟨id, other, (kept same).trans present, own⟩
      · exact .inr (busy used)

theorem removePool (agreed : Agreed among c) {name : String}
    (unused : ∀ id environment, c.environments.get id = some environment →
      environment.pool ≠ name) :
    Agreed among (c.removePool name) := by
  refine ⟨fun id environment present => ?_, fun id environment present => ?_,
    fun other pool known made => ?_⟩
  · rw [Cluster.removePool_environments] at present
    exact agreed.listed id environment present
  · rw [Cluster.removePool_environments] at present
    rw [Cluster.removePool_pools, Keyed.get_erase_ne _ (unused id environment present)]
    exact agreed.own id environment present
  · rw [Cluster.removePool_pools, Keyed.get_erase] at known
    split_ifs at known
    rw [Cluster.busy, Cluster.removePool_environments, Cluster.removePool_executions]
    exact agreed.managed other pool known made

theorem insertPool (agreed : Agreed among c) {pool : Pool} (absent : c.pools.get pool.name = none)
    (free : pool.managedBy = none) : Agreed among { c with pools := c.pools.insert pool } := by
  refine ⟨agreed.listed, fun id environment present => ?_, fun name other known made => ?_⟩
  · have own := agreed.own id environment present
    have differ : environment.pool ≠ pool.name := by
      intro same
      rw [same, absent] at own
      cases own
    rw [Keyed.get_insert_ne _ differ]
    exact own
  · rw [Keyed.get_insert] at known
    split_ifs at known
    · obtain rfl := Option.some.inj known
      rw [free] at made
      cases made
    · exact agreed.managed name other known made

theorem withoutEnvironment (agreed : Agreed among c) {environment : Environment} {id : Uuid}
    (present : c.environments.get id = some environment) : Agreed among
      (withoutEnvironment c environment) := by
  have key := Keyed.key_of_get present
  have apart (other : Uuid) (another : Environment)
      (stays : ({ c with environments :=
        c.environments.erase environment.id } : Cluster).environments.get other =
        some another) : c.environments.get other = some another ∧
          another.pool ≠ environment.pool := by
    rw [Keyed.get_erase] at stays
    split_ifs at stays with same
    exact ⟨stays, fun equal => same ((agreed.unique stays present equal).trans key.symm)⟩
  unfold Scraperack.withoutEnvironment
  -- The pool goes with its environment, so both leave in one step.
  refine ⟨fun other another stays => ?_, fun other another stays => ?_,
    fun name pool known made => ?_⟩
  · rw [Cluster.removePool_environments] at stays
    exact agreed.listed other another (apart other another stays).1
  · rw [Cluster.removePool_environments] at stays
    obtain ⟨found, differ⟩ := apart other another stays
    rw [Cluster.removePool_pools, Keyed.get_erase_ne _ differ]
    exact agreed.own other another found
  · rw [Cluster.removePool_pools, Keyed.get_erase] at known
    split_ifs at known with differ
    rw [Cluster.busy, Cluster.removePool_executions, Cluster.removePool_environments]
    refine (agreed.managed name pool known made).imp_left
      (fun ⟨other, another, found, own⟩ => ⟨other, another, ?_, own⟩)
    refine (Keyed.get_erase_ne _ ?_).trans found
    rintro rfl
    rw [key, present] at found
    obtain rfl := Option.some.inj found
    exact differ own.symm

/-- The scheduler moves executions between states in which they need their pools. -/
theorem scheduleQueued (agreed : Agreed among c) : Agreed among c.scheduleQueued.1 := by
  refine agreed.congr c.scheduleQueued_pools c.scheduleQueued_environments (fun name busy => ?_)
  refine Cluster.scheduleQueued_invariant (P := fun c => c.busy name = true) busy ?_
  intro c execution pool node busy _ _
  obtain ⟨id, used, present, own, active⟩ := (Cluster.busy_iff _ _).mp busy
  refine (Cluster.busy_iff _ _).mpr ?_
  by_cases same : id = execution.id
  · exact ⟨id, { used with node := some node.id, status := .assigned }, by
      rw [Cluster.place_get, if_pos same, present]; rfl,
      own, rfl⟩
  · exact ⟨id, used, by rw [Cluster.place_get, if_neg same, present], own, active⟩

theorem admitExecution (agreed : Agreed among c) {execution : Execution}
    (absent : c.executions.get execution.id = none)
    (queue : Bool) : Agreed among (admitExecution execution queue c).cluster := by
  refine agreed.congr (admitExecution_pools ..) (admitExecution_environments ..)
    (fun name busy => ?_)
  obtain ⟨id, used, present, own, active⟩ := (Cluster.busy_iff _ _).mp busy
  have differ : id ≠ execution.id := by
    rintro rfl
    rw [absent] at present
    cases present
  refine (Cluster.busy_iff _ _).mpr ⟨id, used, ?_, own, active⟩
  have stored : (c.executions.insert execution).get id = some used :=
    (Keyed.get_insert_ne _ differ).trans present
  unfold Scraperack.admitExecution
  dsimp only
  split
  · rename_i next scheduled
    obtain ⟨placed, pool, node, same, choice, rfl⟩ := Cluster.schedule_cases scheduled
    rw [Cluster.place_get, if_neg (fun equal => differ (equal.trans same))]
    exact stored
  · split_ifs
    · exact stored
    · exact (Keyed.get_erase_ne _ differ).trans stored

/-- After the loop of `restart_environment_pool` the other pools are as busy as before. -/
theorem busy_moved {name pool other : String} (differ : other ≠ pool) (busy : c.busy other = true) :
    (moved name pool c).busy other = true := by
  obtain ⟨id, used, present, own, active⟩ := (Cluster.busy_iff _ _).mp busy
  refine (Cluster.busy_iff _ _).mpr ⟨id, used, ?_, own, active⟩
  rw [moved_get, if_neg (fun member => ?_)]
  · exact present
  · obtain ⟨again, found, inside, -⟩ := (mem_reassignedIds pool c id).mp member
    obtain rfl := Option.some.inj (present.symm.trans found)
    exact differ (own.symm.trans inside)

theorem busy_of_running {pool : String}
    (running : runningIn pool c = true) : c.busy pool = true := by
  obtain ⟨id, execution, present, holds⟩ := (Keyed.any_iff _ _).mp running
  simp only [Bool.and_eq_true, decide_eq_true_eq] at holds
  exact (Cluster.busy_iff _ _).mpr ⟨id, execution, present, holds.1, by rw [holds.2]; rfl⟩

/-- A restart gives the environment a new pool and keeps the old one for what still runs there. -/
theorem restart (agreed : Agreed among c) (fresh : Uuid) (environment : Environment)
    (listed : among environment.id)
    (absent : c.pools.get (restartedPoolName environment.id fresh) = none)
    (apart : ∀ id other, c.environments.get id = some other → other.pool = environment.pool →
      id = environment.id)
    (left : ∀ old, c.environments.get environment.id = some old →
      old.pool = environment.pool ∨ c.busy old.pool = true) :
    Agreed among (settle (restartEnvironmentPool fresh environment c)).cluster := by
  let name := restartedPoolName environment.id fresh
  let next : Environment := { environment with pool := name }
  have fromPool {other : String} {pool : Pool}
    (known : c.pools.get other = some pool) : other ≠ name := by
    rintro rfl
    rw [absent] at known
    cases known
  have elsewhere {id : Uuid} {other : Environment} (present : c.environments.get id = some other)
      (differ : id ≠ environment.id) : other.pool ≠ name ∧ other.pool ≠ environment.pool :=
    ⟨fromPool (agreed.own id other present), fun same => differ (apart id other present same)⟩
  rcases restartEnvironmentPool_cases fresh environment c with
    ⟨old, known, running, same⟩ | ⟨unknown, running, same⟩ | ⟨quiet, same⟩
  · rw [same]
    refine Agreed.scheduleQueued (agreed.put next listed ?_ ?_ ?_ ?_)
    · exact congrArg (fun t => Keyed.insert t next) (moved_environments ..)
    · exact Keyed.get_insert_self _ (environmentPool next)
    · intro id other present differ
      obtain ⟨new, former⟩ := elsewhere present differ
      refine (Keyed.get_insert_ne _ new).trans ?_
      simp only [Cluster.quietPool, moved_pools]
      exact Keyed.get_adjust_ne _ _ _ former
    · intro other pool found made differ
      replace found := (Keyed.get_insert_ne (v := environmentPool next) _ differ).symm.trans found
      simp only [Cluster.quietPool, moved_pools, Keyed.get_adjust] at found
      have busy := busy_of_running running
      split_ifs at found with former
      · obtain ⟨was, before, rfl⟩ := Option.map_eq_some_iff.mp found
        subst former
        exact ⟨⟨was, before, made⟩, fun _ => busy, fun _ _ _ => busy⟩
      · refine ⟨⟨pool, found, made⟩, busy_moved former, fun was present own => ?_⟩
        rcases left was present with equal | used
        · exact absurd (own.symm.trans equal) former
        · exact busy_moved former (own ▸ used)
  · rw [same]
    refine ⟨?_, ?_, fun other pool found made => ?_⟩
    · change ∀ id other, (moved _ _ c).environments.get id = some other → _
      rw [moved_environments]
      exact agreed.listed
    · change ∀ id other, (moved _ _ c).environments.get id = some other →
        (moved _ _ c).pools.get other.pool = _
      rw [moved_environments, moved_pools]
      exact agreed.own
    · change (moved _ _ c).pools.get other = some pool at found
      rw [moved_pools] at found
      change (∃ id another, (moved _ _ c).environments.get id = some another ∧ _) ∨ _
      rw [moved_environments]
      refine (agreed.managed other pool found made).imp_right (busy_moved ?_)
      rintro rfl
      rw [unknown] at found
      cases found
  · rw [same]
    refine Agreed.scheduleQueued (agreed.put next listed ?_ ?_ ?_ ?_)
    · refine congrArg (fun t => Keyed.insert t next) ?_
      rw [Cluster.removePool_environments, moved_environments]
    · exact Keyed.get_insert_self _ (environmentPool next)
    · intro id other present differ
      obtain ⟨new, former⟩ := elsewhere present differ
      refine (Keyed.get_insert_ne _ new).trans ?_
      rw [Cluster.removePool_pools, moved_pools]
      exact Keyed.get_erase_ne _ former
    · intro other pool found made differ
      replace found := (Keyed.get_insert_ne (v := environmentPool next) _ differ).symm.trans found
      rw [Cluster.removePool_pools, moved_pools, Keyed.get_erase] at found
      split_ifs at found with former
      have busy (used : c.busy other = true) :
          ((moved name environment.pool c).removePool environment.pool).busy other = true := by
        rw [Cluster.busy, Cluster.removePool_executions]
        exact busy_moved former used
      refine ⟨⟨pool, found, made⟩, busy, fun was present own => ?_⟩
      rcases left was present with equal | used
      · exact absurd (own.symm.trans equal) former
      · exact busy (own ▸ used)

/-- An update without a restart writes the environment and its pool as one. -/
theorem rewrite (agreed : Agreed among c) (environment : Environment)
    (listed : among environment.id)
    (apart : ∀ id other, c.environments.get id = some other → other.pool = environment.pool →
      id = environment.id)
    (left : ∀ old, c.environments.get environment.id = some old → old.pool = environment.pool ∨
      c.busy old.pool = true) :
    Agreed among (finishEnvironment environment []
      { c with pools := c.pools.insert (environmentPool environment) }).cluster := by
  refine Agreed.scheduleQueued (agreed.put environment listed rfl ?_ ?_ ?_)
  · exact Keyed.get_insert_self _ (environmentPool environment)
  · exact fun id other present differ =>
      Keyed.get_insert_ne _ (fun same => differ (apart id other present same))
  · intro name pool found made differ
    replace found := (Keyed.get_insert_ne (v :=
      environmentPool environment) _ differ).symm.trans found
    refine ⟨⟨pool, found, made⟩, fun busy => busy, fun old present own => ?_⟩
    rcases left old present with equal | used
    · exact absurd (own.symm.trans equal) differ
    · exact own ▸ used

theorem create (agreed : Agreed among c) (environment : Environment) (listed : among environment.id)
    (absent : c.pools.get environment.pool = none)
    (new : c.environments.get environment.id = none) :
    Agreed among { c with
      pools := c.pools.insert (environmentPool environment)
      environments := c.environments.insert environment } := by
  refine agreed.put environment listed rfl
    (Keyed.get_insert_self _ (environmentPool environment)) ?_ ?_
  · intro id other present _
    refine Keyed.get_insert_ne _ (fun same => ?_)
    have own := agreed.own id other present
    rw [show other.pool = environment.pool from same, absent] at own
    cases own
  · intro name pool found made differ
    replace found := (Keyed.get_insert_ne (v :=
      environmentPool environment) _ differ).symm.trans found
    refine ⟨⟨pool, found, made⟩, fun busy => busy, fun old present => ?_⟩
    rw [new] at present
    cases present

/-- A completion takes the pool away when nobody needs it any more. -/
theorem cleaned (agreed : Agreed among c) (execution : Execution) (keepIdle : Bool)
    (present : c.executions.get execution.id =
      some execution) : Agreed among (cleaned c execution keepIdle) := by
  have pools : (c.finish execution.id keepIdle).pools = c.pools := by
    rw [Cluster.finish, Cluster.release_frame]
    rfl
  have environments : (c.finish execution.id keepIdle).environments = c.environments := by
    rw [Cluster.finish, Cluster.release_frame]
    rfl
  have executions : (c.finish execution.id keepIdle).executions = c.executions.erase
    execution.id := by
    simp only [Cluster.finish, Cluster.forget, Cluster.release_executions]
  have busy {name : String} (differ : name ≠ execution.pool) (used : c.busy name = true) :
      (c.finish execution.id keepIdle).busy name = true := by
    obtain ⟨id, other, found, own, active⟩ := (Cluster.busy_iff _ _).mp used
    refine (Cluster.busy_iff _ _).mpr ⟨id, other, ?_, own, active⟩
    rw [executions, Keyed.get_erase_ne _ ?_]
    · exact found
    · rintro rfl
      obtain rfl := Option.some.inj (present.symm.trans found)
      exact differ own.symm
  unfold Scraperack.cleaned
  cases stale : stalePool execution.pool (c.finish execution.id keepIdle) with
  | false =>
    simp only [Bool.false_eq_true, if_false]
    -- Somebody still needs the pool, so it stays as it was.
    refine ⟨by
      rw [environments]; exact agreed.listed, by
      rw [pools, environments]; exact agreed.own, fun name pool known made => ?_⟩
    by_cases same : name = execution.pool
    · subst same
      simp only [stalePool, Bool.and_eq_false_iff, Bool.not_eq_false'] at stale
      rcases stale with needed | used
      · obtain ⟨id, environment, found, own⟩ := (Keyed.any_iff _ _).mp needed
        exact .inl ⟨id, environment, found, of_decide_eq_true own⟩
      · exact .inr used
    · rw [pools] at known
      rw [environments]
      exact (agreed.managed name pool known made).imp_right (busy same)
  | true =>
    simp only [if_true]
    simp only [stalePool, Bool.and_eq_true, Bool.not_eq_true'] at stale
    have unused (id : Uuid) (environment : Environment) (found : c.environments.get id =
      some environment) :
        environment.pool ≠ execution.pool := by
      rw [environments] at stale
      simpa using (Keyed.any_eq_false_iff _ _).mp stale.1 id environment found
    refine ⟨fun id environment found => ?_,
      fun id environment found => ?_, fun name pool known made => ?_⟩
    · rw [Cluster.removePool_environments, environments] at found
      exact agreed.listed id environment found
    · rw [Cluster.removePool_environments, environments] at found
      rw [Cluster.removePool_pools, pools, Keyed.get_erase_ne _ (unused id environment found)]
      exact agreed.own id environment found
    · rw [Cluster.removePool_pools, pools, Keyed.get_erase] at known
      split_ifs at known with same
      rw [Cluster.removePool_environments, environments]
      refine (agreed.managed name pool known made).imp_right (fun used => ?_)
      rw [Cluster.busy, Cluster.removePool_executions]
      exact busy same used

end Agreed

theorem Agreed.scheduleIfChanged {among : Uuid → Prop} {c : Cluster} (agreed : Agreed among c)
    {changed : Option Cluster}
    (same : ∀ next, changed = some next →
      next.pools = c.pools ∧ next.environments = c.environments ∧ next.executions = c.executions) :
    Agreed among (scheduleIfChanged c changed).cluster := by
  cases changed with
  | none => exact agreed
  | some next =>
    obtain ⟨pools, environments, executions⟩ := same next rfl
    exact (agreed.of_same pools environments executions).scheduleQueued

/-- The environment that the section writes, if it writes one from a request. -/
def Commit.writes : Commit → Option Uuid
  | createEnvironment id .. | updateEnvironment _ id .. => some id
  | _ => none

/-- Every section that keeps the pools keeps environments and pools in agreement. -/
theorem Commit.agreed [Crates] {among : Uuid → Prop} {c : Cluster}
    {commit : Commit} {result : Section}
    (ran : commit.run c = .ok result) (agreed : Agreed among c) (keeps : commit.keepsPools c = true)
    (fresh : ∀ name, commit.newPoolName = some name → c.pools.get name = none)
    (listed : ∀ id, commit.writes = some id → among id)
    (new : ∀ id, id ∈ commit.issues → c.environments.get id = none)
    (apart : ∀ fresh id request old image artifact,
      commit = .updateEnvironment fresh id request old image artifact →
      ∀ other environment, c.environments.get other = some environment →
        environment.pool = old.pool → other = id) :
    Agreed among result.cluster := by
  cases commit with
  | importImage image =>
    obtain rfl := Except.ok.inj ran
    exact agreed.of_same rfl rfl rfl
  | updateImage id update =>
    obtain ⟨image, -, rfl⟩ := updateImage_eq_ok ran
    exact agreed.of_same rfl rfl rfl
  | deleteImage id =>
    obtain ⟨-, -, rfl⟩ := deleteImage_eq_ok ran
    exact agreed.of_same rfl rfl rfl
  | createPool pool =>
    obtain ⟨free, -, absent, rfl⟩ := createPool_eq_ok ran
    exact agreed.insertPool ((Keyed.contains_eq_false_iff _ _).mp absent) free
  | deletePool name =>
    obtain ⟨unused, rfl⟩ := deletePool_eq_ok ran
    simp only [keepsPools, Cluster.busy, unused, Bool.false_or, Bool.not_eq_true'] at keeps
    refine agreed.removePool (fun id environment present => ?_)
    simpa using (Keyed.any_eq_false_iff _ _).mp keeps id environment present
  | createEnvironment id request image artifact =>
    obtain rfl := Except.ok.inj ran
    exact agreed.create (requestedEnvironment id request image.id artifact (environmentPoolName id))
      (listed id rfl)
      (fresh _ rfl) (new id List.mem_cons_self)
  | updateEnvironment freshId id request old image artifact =>
    obtain rfl := Except.ok.inj ran
    have left (was : Environment) (present : c.environments.get id = some was) :
        was.pool = old.pool ∨ c.busy was.pool = true := by
      simpa [keepsPools, present] using keeps
    have alone := apart freshId id request old image artifact rfl
    rw [updateEnvironment_eq]
    split_ifs
    · exact agreed.restart freshId (requestedEnvironment id request image.id artifact old.pool)
        (listed id rfl)
        (fresh _ rfl) alone left
    · exact agreed.rewrite (requestedEnvironment id request image.id artifact old.pool)
        (listed id rfl) alone left
  | restartEnvironment freshId id =>
    obtain ⟨environment, present, rfl⟩ := restartEnvironment_eq_ok ran
    have key := Keyed.key_of_get present
    refine agreed.restart freshId environment (key ▸ agreed.listed id environment present)
      (key ▸ fresh _ rfl) ?_ ?_
    · exact fun other another found same => (agreed.unique found present same).trans key.symm
    · intro old found
      rw [key, present] at found
      exact .inl (Option.some.inj found ▸ rfl)
  | deleteEnvironment id =>
    obtain ⟨environment, present, -, rfl⟩ := deleteEnvironment_eq_ok ran
    have removed := agreed.withoutEnvironment present
    unfold forgetArtifact
    split
    · exact removed.of_same rfl rfl rfl
    · exact removed
  | createJoinToken id tokenHash now =>
    obtain rfl := Except.ok.inj ran
    exact agreed.of_same rfl rfl rfl
  | joinCluster node tokenHash credentialHash now =>
    obtain ⟨token, -, rfl⟩ := joinCluster_eq_ok ran
    exact agreed.of_same rfl rfl rfl
  | localJoin node credentialHash =>
    obtain rfl := Except.ok.inj ran
    exact agreed.of_same rfl rfl rfl
  | updateNode id concurrency =>
    obtain ⟨node, -, rfl⟩ := updateNode_eq_ok ran
    exact agreed.of_same rfl rfl rfl
  | deleteNode id =>
    obtain ⟨-, rfl⟩ := deleteNode_eq_ok ran
    exact (agreed.of_same (d := { c with
      nodes := c.nodes.erase id, nodeCredentials :=
        c.nodeCredentials.erase id }) rfl rfl rfl).scheduleQueued
  | registerNode id request now =>
    obtain rfl := Except.ok.inj ran
    refine Agreed.scheduleQueued (agreed.of_same ?_ ?_ ?_) <;> cases request.resetIdle <;> rfl
  | imageReady id image =>
    obtain rfl := imageReady_eq_ok ran
    exact Agreed.scheduleQueued (agreed.of_same rfl rfl rfl)
  | environmentReady id artifact =>
    obtain rfl := environmentReady_eq_ok ran
    exact Agreed.scheduleQueued (agreed.of_same rfl rfl rfl)
  | addWarmInstance id pool =>
    obtain rfl := Except.ok.inj ran
    refine agreed.scheduleIfChanged fun next added => ?_
    obtain ⟨_, _, _, _, _, _, rfl⟩ := Cluster.addWarmInstance_eq_some added
    exact ⟨rfl, rfl, rfl⟩
  | removeIdleInstance id pool =>
    obtain rfl := Except.ok.inj ran
    refine agreed.scheduleIfChanged fun next removed => ?_
    obtain ⟨_, _, _, _, _, rfl⟩ := Cluster.removeIdleInstance_eq_some removed
    exact ⟨rfl, rfl, rfl⟩
  | createExecution id request secrets now =>
    rcases createExecution_eq_ok ran with rfl | ⟨_, _, _, _, _, rfl⟩ <;> exact agreed
  | nextWork id choice now =>
    have starts (execution : Execution) (present : c.executions.get execution.id = some execution) :
        Agreed among (c.start execution.id now) := by
      refine agreed.congr rfl rfl (fun name busy => ?_)
      obtain ⟨other, used, found, own, active⟩ := (Cluster.busy_iff _ _).mp busy
      refine (Cluster.busy_iff _ _).mpr ?_
      by_cases same : other = execution.id
      · subst same
        exact ⟨_, { used with status := .running, startedAtMs := some now },
          by rw [Cluster.start, Keyed.get_adjust_self, found]; rfl, own, rfl⟩
      · exact ⟨other, used, by
          rw [Cluster.start, Keyed.get_adjust, if_neg same, found], own, active⟩
    rcases nextWork_eq_ok ran with rfl | ⟨execution, rfl, present, ⟨-, rfl⟩ | ⟨pool, -, rfl⟩⟩
    · exact agreed
    · exact starts execution present
    · exact starts execution present
  | completeExecution node id request now =>
    obtain ⟨execution, present, -, rfl⟩ := completeExecution_eq_ok ran
    exact (agreed.cleaned execution request.keepIdle (Keyed.get_congr present)).scheduleQueued

namespace System

/-- The section that the step enters keeps the pools. -/
def KeepsPools (s : System) (label : Label) : Prop :=
  (s.entering label).all (Commit.keepsPools s.cluster) = true

instance (s : System) (label : Label) : Decidable (s.KeepsPools label) :=
  inferInstanceAs (Decidable (_ = true))

/-- Environments and pools agree, the copies that handlers hold included, and all identifiers are
issued ones. -/
structure Agreeing (s : System) : Prop where
  cluster : Agreed (fun id => id ∈ s.issued) s.cluster
  apart : NamedApart s
  jobs : ∀ job, Frame.environment job ∈ s.inflight → ∀ old, job.old = some old → old.id ∈ s.issued

theorem Fresh.agreeing {s : System} (fresh : Fresh s) : Agreeing s := by
  refine ⟨⟨?_, ?_, ?_⟩, fresh.apart, ?_⟩
  · intro id environment present
    rw [fresh.empty] at present
    cases present
  · intro id environment present
    rw [fresh.empty] at present
    cases present
  · intro name pool known
    rw [fresh.empty] at known
    cases known
  · intro job member
    rw [fresh.quiet] at member
    cases member

variable [Crates]

theorem Agreeing.agreed_step {s t : System} {label : Label} (sound : Sound s)
    (agreeing : Agreeing s)
    (keeps : s.KeepsPools label) (stepped : s.step label = some t) (same : restarts label = false) :
    Agreed (fun id => id ∈ t.issued) t.cluster := by
  have later : Agreed (fun id => id ∈ t.issued) s.cluster := agreeing.cluster.mono
    (fun _ => issued_mono stepped)
  cases step_cases stepped with
  | performed _ commit others result free allowed entered ran =>
    have keeps : commit.keepsPools s.cluster =
      true := by simpa [KeepsPools, entered.entering] using keeps
    have new (id : Uuid) (issues : id ∈ commit.issues) : s.cluster.environments.get id = none := by
      simp only [allows, Bool.and_eq_true, List.all_eq_true, decide_eq_true_eq] at allowed
      by_contra present
      obtain ⟨old, present⟩ := Option.ne_none_iff_exists'.mp present
      exact allowed.1.1 id issues (agreeing.cluster.listed id old present)
    refine Commit.agreed ran later keeps (fresh_of_allows allowed) ?_ new ?_
    · intro id writes
      cases commit with
      | createEnvironment => exact List.mem_append_left _ (Option.some.inj writes ▸
          List.mem_cons_self)
      | updateEnvironment fresh own request old image artifact =>
        obtain ⟨rfl, member⟩ := entered.job
        obtain rfl := Option.some.inj writes
        exact List.mem_append_right _ (agreeing.jobs _ member old rfl)
      | _ => cases writes
    · rintro fresh id request old image artifact rfl other environment present equal
      obtain ⟨rfl, member⟩ := entered.job
      have own := agreeing.apart.cluster.environments other environment present
      have copied := agreeing.apart.jobs _ member old rfl
      rw [equal] at own
      rw [← Keyed.key_of_get present]
      exact ownName_unique own copied
  | admitted index execution secrets queue rest before database there stored =>
    exact later.admitExecution (sound.inserting ⟨secrets, queue, rest, before, there⟩).1.1 queue
  | called index op rest before after next there plain done =>
    refine later.of_same ?_ ?_ ?_ <;> exact congrArg _ (runOp_frame plain done).1
  | restarted => cases same
  | _ => exact later

/-- The copies that jobs hold are of environments that were there. -/
theorem Agreeing.jobs_step {s t : System} {label : Label} (agreeing : Agreeing s)
    (stepped : s.step label = some t)
    {job : Job} (member : Frame.environment job ∈ t.inflight) {old : Environment}
    (copy : job.old = some old) :
    old.id ∈ t.issued := by
  refine issued_mono stepped ?_
  cases frame_cases stepped member with
  | stayed _ before => exact agreeing.jobs job before old copy
  | started id request _ checked =>
    exact agreeing.cluster.listed _ _ (startJob_old checked copy).2
  | prepared event before _ files inside done =>
    exact agreeing.jobs before inside old ((prepareJob_old done).symm.trans copy)

theorem Agreeing.run {s t : System} (sound : Sound s) (agreeing : Agreeing s)
    (run : Run KeepsPools s t) :
    Agreeing t := by
  refine run.invariant_along agreeing (fun before agreeing allowed stepped => ?_)
  have reached := sound.run before
  exact ⟨agreeing.agreed_step reached allowed.2 stepped allowed.1,
    agreeing.apart.step reached stepped allowed.1,
    fun job member old copy => agreeing.jobs_step stepped member copy⟩

/-- In every run whose sections all keep the pools: every environment has the pool made for it, and
every managed pool is that of exactly one environment or has an execution that needs it. -/
theorem environments_agree {s t : System} (started : Started s) (agreeing : Agreeing s)
    (run : Run KeepsPools s t) :
    (∀ id environment, t.cluster.environments.get id = some environment →
      t.cluster.pools.get environment.pool = some (environmentPool environment)) ∧
    ∀ name pool, t.cluster.pools.get name = some pool → pool.managedBy.isSome = true →
      (∃! id, ∃ environment, t.cluster.environments.get id = some environment ∧
        environment.pool = name) ∨
        ∃ id execution, t.cluster.executions.get id = some execution ∧ execution.pool = name ∧
          execution.status.active = true := by
  have agreed := (agreeing.run started.sound run).cluster
  refine ⟨agreed.own, fun name pool known made => ?_⟩
  rcases agreed.managed name pool known made with ⟨id, environment, present, own⟩ | busy
  · refine .inl ⟨id, ⟨environment, present, own⟩, ?_⟩
    rintro other ⟨another, found, same⟩
    exact agreed.unique found present (same.trans own.symm)
  · exact .inr ((Cluster.busy_iff _ _).mp busy)

end System

namespace Demo

/-- The environment is restarted while its execution runs, and then updated. -/
def moving : List Label :=
  assigning ++ [.authenticate node "credential" none .nextWork,
    .enter 0 ⟨0, 0, some 8, none⟩] ++ finish 0 3 ++
    request 0 (.restartEnvironment 0x50000000000000000000000000000000 environment) 3 ++
    [.checkEnvironment (some environment) environmentRequest,
      .enter 0 (input 0x60000000000000000000000000000000)] ++ finish 0 3

end Demo

namespace System

/-- While an execution still runs in its former pool, an environment has a new pool. -/
theorem environments_agree_moved :
    ∃ t : System, t.cluster.pools.contains Demo.pool = true ∧
      ∃ environment, t.cluster.environments.get Demo.environment = some environment ∧
        environment.pool ≠ Demo.pool ∧
        t.cluster.pools.get environment.pool = some (environmentPool environment) := by
  obtain ⟨t, run, shape⟩ := Runs.exists_reaches (@step Demo.crates)
    (fun s label => restarts label = false ∧ s.KeepsPools label)
    Demo.empty Demo.moving
    (fun t => t.cluster.pools.contains Demo.pool &&
      (t.cluster.environments.get Demo.environment).any
        (fun environment => decide (environment.pool ≠ Demo.pool)))
    (by decide +kernel)
  simp only [Bool.and_eq_true, Option.any_eq_true, decide_eq_true_eq] at shape
  obtain ⟨former, environment, present, moved⟩ := shape
  exact ⟨t, former, environment, present, moved,
    (@environments_agree Demo.crates _ _ fresh_empty.started fresh_empty.agreeing run).1 _ _
      present⟩

/-- `delete_pool` takes away the pool of an environment. -/
theorem environment_stripped :
    ¬ ∀ [Crates] (s t : System), s.Fresh → Run (fun _ _ => True) s t → t.inflight = [] →
      ∀ id environment, t.cluster.environments.get id = some environment →
        t.cluster.pools.get environment.pool = some (environmentPool environment) := by
  intro claim
  obtain ⟨t, run, shape⟩ := Runs.exists_reaches (@step Demo.crates)
    (fun _ label => restarts label = false ∧ True)
    Demo.empty (Demo.installation ++ Demo.creating ++ Demo.request 0 (.deletePool Demo.pool) 2)
    (fun t => t.inflight.isEmpty && (t.cluster.environments.get Demo.environment).any
      (fun environment =>
      !t.cluster.pools.contains environment.pool)) (by decide +kernel)
  simp only [Bool.and_eq_true, Option.any_eq_true, List.isEmpty_iff, Bool.not_eq_true',
    Keyed.contains_eq_false_iff] at shape
  obtain ⟨quiet, environment, present, gone⟩ := shape
  have own := @claim Demo.crates _ _ fresh_empty run quiet _ environment present
  rw [gone] at own
  cases own

end System
end Scraperack
