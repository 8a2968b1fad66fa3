import Scraperack.System

/-! `migrate_legacy` on a stored cluster. A pool of an earlier release becomes the pool of an environment, which does
not have all the fields of a pool. -/

namespace Scraperack
namespace System

variable (fresh : String → Uuid)

/-- The pool as an environment owns it. -/
def managed (id : Uuid) (pool : Pool) : Pool :=
  { pool with managedBy := some "python-executor", environment := some id }

/-- An environment has no ports, and no artifact or modules without packages. -/
structure Expressible (pool : Pool) : Prop where
  ports : pool.ports = []
  environmentArtifact : pool.environmentArtifact = none
  preload : pool.preload = []

theorem environmentPool_migrated {id : Uuid} {pool : Pool} (expressible : Expressible pool) :
    environmentPool (migratedEnvironment id pool) = managed id pool := by
  obtain ⟨ports, artifact, preload⟩ := expressible
  simp [environmentPool, migratedEnvironment, managed, ports, artifact, preload]

/-! The pools one after the other. -/

section
variable (pools : List Pool) (c : Cluster)

theorem get_pools_foldl (name : String) :
    (pools.foldl (migratePool fresh) c).pools.get name =
      if name ∈ pools.map Pool.name then (c.pools.get name).map (managed (fresh name))
      else c.pools.get name := by
  induction pools generalizing c with
  | nil => rfl
  | cons old rest ih =>
    have first : (migratePool fresh c old).pools.get name =
        if name = old.name then (c.pools.get name).map (managed (fresh old.name))
        else c.pools.get name :=
      c.pools.get_adjust _ _ (managed (fresh old.name)) (fun _ => rfl)
    rw [List.foldl_cons, ih, first]
    simp only [List.map_cons, List.mem_cons]
    by_cases here : name = old.name
    · subst here
      simp only [if_true, true_or, Option.map_map]
      -- a pool that is marked twice bears the later mark
      split_ifs <;> rfl
    · simp only [here, if_false, false_or]

theorem get_executions_foldl (id : Uuid) :
    (pools.foldl (migratePool fresh) c).executions.get id = (c.executions.get id).map
      (fun execution => { execution with
        environment := if execution.pool ∈ pools.map Pool.name then some (fresh execution.pool)
          else execution.environment }) := by
  induction pools generalizing c with
  | nil =>
    rw [List.foldl_nil]
    cases c.executions.get id <;> rfl
  | cons old rest ih =>
    have first : (migratePool fresh c old).executions.get id = (c.executions.get id).map
        (fun execution => { execution with
          environment := if execution.pool = old.name then some (fresh old.name)
            else execution.environment }) := by
      rw [migratePool, Keyed.get_map]
    rw [List.foldl_cons, ih, first, Option.map_map]
    refine congrArg (fun change => Option.map change _) (funext fun execution => ?_)
    by_cases here : execution.pool = old.name
    · simp [here]
    · simp [here]

theorem get_environments_foldl (distinct : (pools.map (fun pool => fresh pool.name)).Nodup)
    (id : Uuid) (environment : Environment) :
    (pools.foldl (migratePool fresh) c).environments.get id = some environment ↔
      (∃ pool ∈ pools, fresh pool.name = id ∧ migratedEnvironment id pool = environment) ∨
        (∀ pool ∈ pools, fresh pool.name ≠ id) ∧ c.environments.get id = some environment := by
  induction pools generalizing c with
  | nil => simp
  | cons old rest ih =>
    have first : (migratePool fresh c old).environments.get id =
        if id = fresh old.name then some (migratedEnvironment (fresh old.name) old)
        else c.environments.get id := Keyed.get_insert ..
    obtain ⟨new, distinct⟩ := List.nodup_cons.mp distinct
    rw [List.foldl_cons, ih _ distinct, first]
    by_cases here : id = fresh old.name
    · have others : ∀ pool ∈ rest, fresh pool.name ≠ id := fun pool member same =>
        new (List.mem_map.mpr ⟨pool, member, same.trans here⟩)
      subst here
      simp only [if_true, Option.some.injEq, List.exists_mem_cons_iff, true_and,
        List.forall_mem_cons, ne_eq, not_true_eq_false, false_and, or_false]
      constructor
      · rintro (⟨pool, member, same, -⟩ | ⟨-, made⟩)
        · exact absurd same (others pool member)
        · exact .inl made
      · rintro (made | ⟨pool, member, same, -⟩)
        · exact .inr ⟨others, made⟩
        · exact absurd same (others pool member)
    · simp only [here, if_false, List.exists_mem_cons_iff, Ne.symm here, false_and, false_or,
        List.forall_mem_cons, ne_eq, not_false_eq_true, true_and]

theorem rest_foldl : pools.foldl (migratePool fresh) c =
    { c with
      pools := (pools.foldl (migratePool fresh) c).pools
      executions := (pools.foldl (migratePool fresh) c).executions
      environments := (pools.foldl (migratePool fresh) c).environments } := by
  induction pools generalizing c with
  | nil => rfl
  | cons old rest ih =>
    rw [List.foldl_cons]
    conv_lhs => rw [ih]
    rfl

end

/-! The stored cluster. -/

def legacyNames (c : Cluster) : List String := (legacyPools c).map Pool.name

theorem mem_legacyPools (c : Cluster) (pool : Pool) :
    pool ∈ legacyPools c ↔ c.pools.get pool.name = some pool ∧ pool.managedBy = none ∧
      ((c.images.get pool.image).bind Image.executor).isSome = true := by
  rw [legacyPools, List.mem_filter, Bool.and_eq_true, Option.isNone_iff_eq_none,
    Keyed.mem_values_iff]

theorem legacyNames_of_get {c : Cluster} {name : String} {pool : Pool}
    (stored : c.pools.get name = some pool) : name ∈ legacyNames c ↔ pool ∈ legacyPools c := by
  constructor
  · intro listed
    obtain ⟨other, legacy, rfl⟩ := List.mem_map.mp listed
    have found := ((mem_legacyPools c other).mp legacy).1
    rw [found] at stored
    exact Option.some.inj stored ▸ legacy
  · exact fun legacy => List.mem_map.mpr ⟨pool, legacy, Keyed.key_of_get stored⟩

/-- The identifiers that are generated for the legacy pools differ from one another and from those in use. -/
structure FreshFor (c : Cluster) : Prop where
  distinct : ((legacyPools c).map (fun pool => fresh pool.name)).Nodup
  unused : ∀ pool ∈ legacyPools c, c.environments.get (fresh pool.name) = none

/-- The environment is new, and it is the one of the pool. -/
def NewFor (c next : Cluster) (pool : Pool) (environment : Environment) : Prop :=
  next.environments.get environment.id = some environment ∧
    c.environments.get environment.id = none ∧ environment.pool = pool.name

/-- The pool has been taken over by the environment, which builds the same pool when it builds one anew. -/
structure TakenOver (c next : Cluster) (pool : Pool) (environment : Environment) : Prop where
  stored : next.pools.get pool.name = some (managed environment.id pool)
  rebuilt : environmentPool environment = managed environment.id pool
  executions : ∀ id execution, c.executions.get id = some execution → execution.pool = pool.name →
    next.executions.get id = some { execution with environment := some environment.id }

/-- What the conversion of a stored cluster has to do, and what it has to leave alone. -/
structure Migrates (c next : Cluster) : Prop where
  legacy : ∀ pool ∈ legacyPools c,
    ∃ environment, (∀ other, NewFor c next pool other ↔ other = environment) ∧
      TakenOver c next pool environment
  pools : ∀ name, name ∉ legacyNames c → next.pools.get name = c.pools.get name
  environments : ∀ id environment, c.environments.get id = some environment →
    next.environments.get id = some environment
  created : ∀ id environment, next.environments.get id = some environment →
    c.environments.get id = some environment ∨ environment.pool ∈ legacyNames c
  executions : ∀ id, (∀ execution, c.executions.get id = some execution →
    execution.pool ∉ legacyNames c) → next.executions.get id = c.executions.get id
  rest : next = { c with
    pools := next.pools, executions := next.executions, environments := next.environments }
  again : ∀ fresh, migrateLegacy fresh next = next

section
variable {fresh} {c : Cluster}

theorem get_pools (name : String) :
    (migrateLegacy fresh c).pools.get name = if name ∈ legacyNames c then
      (c.pools.get name).map (managed (fresh name)) else c.pools.get name :=
  get_pools_foldl fresh (legacyPools c) c name

theorem get_executions (id : Uuid) :
    (migrateLegacy fresh c).executions.get id = (c.executions.get id).map
      (fun execution => { execution with
        environment := if execution.pool ∈ legacyNames c then some (fresh execution.pool)
          else execution.environment }) :=
  get_executions_foldl fresh (legacyPools c) c id

theorem images_kept : (migrateLegacy fresh c).images = c.images := by
  rw [migrateLegacy, rest_foldl]

/-- The pools that have been converted have an owner. -/
theorem legacyPools_migrated : legacyPools (migrateLegacy fresh c) = [] := by
  rw [List.eq_nil_iff_forall_not_mem]
  intro pool legacy
  obtain ⟨stored, unmanaged, python⟩ := (mem_legacyPools _ pool).mp legacy
  rw [images_kept] at python
  rw [get_pools] at stored
  split_ifs at stored with listed
  · obtain ⟨old, -, marked⟩ := Option.map_eq_some_iff.mp stored
    rw [← marked] at unmanaged
    cases unmanaged
  · exact listed ((legacyNames_of_get stored).mpr
      ((mem_legacyPools c pool).mpr ⟨stored, unmanaged, python⟩))

theorem newFor_iff (fits : FreshFor fresh c) {pool : Pool} (legacy : pool ∈ legacyPools c)
    (environment : Environment) :
    NewFor c (migrateLegacy fresh c) pool environment ↔
      environment = migratedEnvironment (fresh pool.name) pool := by
  rw [NewFor, migrateLegacy, get_environments_foldl fresh _ c fits.distinct]
  constructor
  · rintro ⟨⟨other, member, own, made⟩ | ⟨-, stored⟩, new, same⟩
    · have names : other.name = pool.name := by
        rw [← same, ← made]
        rfl
      have one := ((mem_legacyPools c other).mp member).1
      rw [names, ((mem_legacyPools c pool).mp legacy).1] at one
      rw [Option.some.inj one, own]
      exact made.symm
    · rw [stored] at new
      cases new
  · rintro rfl
    exact ⟨.inl ⟨pool, legacy, rfl, rfl⟩, fits.unused pool legacy, rfl⟩

/-- The conversion loses nothing exactly where the pools have nothing that an environment cannot express. -/
theorem migration_faithful (fits : FreshFor fresh c) :
    Migrates c (migrateLegacy fresh c) ↔ ∀ pool ∈ legacyPools c, Expressible pool := by
  constructor
  · intro migrates pool legacy
    obtain ⟨environment, only, taken⟩ := migrates.legacy pool legacy
    have made : migratedEnvironment (fresh pool.name) pool = environment :=
      (only _).mp ((newFor_iff fits legacy _).mpr rfl)
    have rebuilt := taken.rebuilt
    rw [← made] at rebuilt
    exact ⟨(congrArg Pool.ports rebuilt).symm, (congrArg Pool.environmentArtifact rebuilt).symm,
      (congrArg Pool.preload rebuilt).symm⟩
  · intro expressible
    refine ⟨fun pool legacy => ?_, fun name other => ?_, fun id environment stored => ?_,
      fun id environment found => ?_, fun id others => ?_, rest_foldl .., fun again => ?_⟩
    · have listed : pool.name ∈ legacyNames c := List.mem_map_of_mem legacy
      refine ⟨migratedEnvironment (fresh pool.name) pool, newFor_iff fits legacy, ?_, ?_, ?_⟩
      · rw [get_pools, if_pos listed, ((mem_legacyPools c pool).mp legacy).1]
        rfl
      · exact environmentPool_migrated (expressible pool legacy)
      · intro id execution stored own
        rw [get_executions, stored, Option.map_some, own, if_pos listed]
        rfl
    · rw [get_pools, if_neg other]
    · refine (get_environments_foldl fresh _ c fits.distinct _ _).mpr
        (.inr ⟨fun pool legacy same => ?_, stored⟩)
      rw [← same, fits.unused pool legacy] at stored
      cases stored
    · rcases (get_environments_foldl fresh _ c fits.distinct _ _).mp found with
        ⟨pool, legacy, -, rfl⟩ | ⟨-, stored⟩
      · exact .inr (List.mem_map_of_mem legacy)
      · exact .inl stored
    · rw [get_executions]
      cases stored : c.executions.get id with
      | none => rfl
      | some execution =>
        rw [Option.map_some, if_neg (others execution stored)]
    · rw [migrateLegacy, legacyPools_migrated]
      rfl

end

def legacyPool : Pool := { Demo.otherPool with name := "jobs", image := Demo.runtimeImage.id }

/-- A cluster with an image with Python, and this pool of an earlier release. -/
def legacyCluster (pool : Pool) : Cluster :=
  { Cluster.empty with
    images := (∅ : Keyed Image.id).insert Demo.runtimeImage
    pools := (∅ : Keyed Pool.name).insert pool }

theorem migration_faithful_pool :
    legacyPools (legacyCluster legacyPool) = [legacyPool] ∧
      (Migrates (legacyCluster legacyPool) (migrateLegacy (fun _ => 9) (legacyCluster legacyPool)) ↔
        ∀ pool ∈ legacyPools (legacyCluster legacyPool), Expressible pool) :=
  ⟨by decide, migration_faithful ⟨by decide, fun _ _ => rfl⟩⟩

/-- A pool that publishes a port. -/
def publishingPool : Pool := { legacyPool with network := true, ports := [⟨"web", 80, none, .tcp⟩] }

/-- The environment forgets the port. -/
theorem ports_forgotten :
    ¬ ∀ (fresh : String → Uuid) (c : Cluster), FreshFor fresh c →
      Migrates c (migrateLegacy fresh c) := by
  intro claim
  have migrates := claim (fun _ => 9) (legacyCluster publishingPool) ⟨by decide, fun _ _ => rfl⟩
  obtain ⟨environment, -, taken⟩ := migrates.legacy publishingPool (by decide)
  exact List.cons_ne_nil _ _ (congrArg Pool.ports taken.rebuilt).symm

end System
end Scraperack
