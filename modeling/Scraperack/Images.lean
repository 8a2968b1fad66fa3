import Scraperack.Housing
import Scraperack.Registry

/-! Images and what is made from them. The image of every pool and of every environment is
there, as long as no environment is written after the image it was built from is gone. -/

namespace Scraperack

/-- The images of all pools and environments are among these. -/
structure ImagesIn (images : Uuid → Bool) (c : Cluster) : Prop where
  pools : ∀ name pool, c.pools.get name = some pool → images pool.image = true
  environments : ∀ id environment, c.environments.get id = some environment →
    images environment.image = true

/-- Images in use exist. -/
def Imaged (c : Cluster) : Prop := ImagesIn c.images.contains c

/-- The image that the section makes a pool or an environment from. -/
def Commit.builds : Commit → Option Uuid
  | createPool pool => some pool.image
  | createEnvironment _ _ image _ | updateEnvironment _ _ _ _ image _ => some image.id
  | _ => none

namespace ImagesIn
variable {images : Uuid → Bool} {c : Cluster}

theorem of_same {d : Cluster} (within : ImagesIn images c) (pools : d.pools = c.pools)
    (environments : d.environments = c.environments) : ImagesIn images d :=
  ⟨fun name pool known => within.pools name pool (pools ▸ known),
    fun id environment present => within.environments id environment (environments ▸ present)⟩

theorem insertPool (within : ImagesIn images c) (pool : Pool) (among : images pool.image = true) :
    ImagesIn images { c with pools := c.pools.insert pool } := by
  refine ⟨fun name other known => ?_, within.environments⟩
  rw [Keyed.get_insert] at known
  split_ifs at known
  · exact Option.some.inj known ▸ among
  · exact within.pools name other known

theorem insertEnvironment (within : ImagesIn images c) (environment : Environment)
    (among : images environment.image = true) :
    ImagesIn images { c with environments := c.environments.insert environment } := by
  refine ⟨within.pools, fun id other present => ?_⟩
  rw [Keyed.get_insert] at present
  split_ifs at present
  · exact Option.some.inj present ▸ among
  · exact within.environments id other present

theorem eraseEnvironment (within : ImagesIn images c) (id : Uuid) :
    ImagesIn images { c with environments := c.environments.erase id } := by
  refine ⟨within.pools, fun k other present => within.environments k other ?_⟩
  rw [Keyed.get_erase] at present
  split_ifs at present
  exact present

theorem adjustPool (within : ImagesIn images c) (name : String) {f : Pool → Pool}
    (keeps : ∀ pool, (f pool).name = pool.name)
    (same : ∀ pool, (f pool).image = pool.image) : ImagesIn images
      { c with pools := c.pools.adjust name f keeps } := by
  refine ⟨fun k pool known => ?_, within.environments⟩
  rw [Keyed.get_adjust] at known
  split_ifs at known
  · obtain ⟨old, was, rfl⟩ := Option.map_eq_some_iff.mp known
    rw [same]
    exact within.pools k old was
  · exact within.pools k pool known

theorem removePool (within : ImagesIn images c) (name : String) : ImagesIn images
    (c.removePool name) := by
  refine ⟨fun k pool known => within.pools k pool ?_, fun id environment present => ?_⟩
  · rw [Cluster.removePool_pools, Keyed.get_erase] at known
    split_ifs at known
    exact known
  · rw [Cluster.removePool_environments] at present
    exact within.environments id environment present

theorem scheduleQueued (within : ImagesIn images c) : ImagesIn images c.scheduleQueued.1 :=
  within.of_same c.scheduleQueued_pools c.scheduleQueued_environments

theorem scheduleIfChanged {changed : Option Cluster} (within : ImagesIn images c)
    (same : ∀ next, changed = some next →
      next.pools = c.pools ∧ next.environments = c.environments) :
    ImagesIn images (scheduleIfChanged c changed).cluster := by
  cases changed with
  | none => exact within
  | some next =>
    obtain ⟨pools, environments⟩ := same next rfl
    exact (within.of_same pools environments).scheduleQueued

theorem restart (within : ImagesIn images c) (fresh : Uuid) (environment : Environment)
    (among : images environment.image = true) :
    ImagesIn images (settle (restartEnvironmentPool fresh environment c)).cluster := by
  have looped : ImagesIn images
    (moved (restartedPoolName environment.id fresh) environment.pool c) :=
    within.of_same (moved_pools ..) (moved_environments ..)
  let next : Environment := { environment with pool := restartedPoolName environment.id fresh }
  rcases restartEnvironmentPool_cases fresh environment c with
    ⟨old, known, running, same⟩ | ⟨unknown, running, same⟩ | ⟨quiet, same⟩
  · rw [same]
    have quieted := looped.adjustPool environment.pool (f :=
      fun pool => { pool with warmInstances := 0 })
      (fun _ => rfl) (fun _ => rfl)
    exact ((quieted.insertPool (environmentPool next) among).insertEnvironment next
      among).scheduleQueued
  · rw [same]
    exact looped
  · rw [same]
    exact (((looped.removePool environment.pool).insertPool (environmentPool next)
      among).insertEnvironment next among).scheduleQueued

theorem withoutEnvironment (within : ImagesIn images c) (environment : Environment)
    (artifact : Option String) :
    ImagesIn images (forgetArtifact (withoutEnvironment c environment) artifact) := by
  have removed := (within.eraseEnvironment environment.id).removePool environment.pool
  unfold forgetArtifact
  split
  · exact removed.of_same rfl rfl
  · exact removed

theorem finish (within : ImagesIn images c) (id : Uuid) (keepIdle : Bool) : ImagesIn images
    (c.finish id keepIdle) := by
  unfold Cluster.finish
  rw [Cluster.release_frame]
  exact within.of_same rfl rfl

end ImagesIn

theorem createPool_image {pool : Pool} {c : Cluster} {result : Section}
    (ran : createPool pool c = .ok result) :
    c.images.contains pool.image = true := by
  simp only [createPool, bind_eq_ok_iff, found_eq_ok_iff] at ran
  obtain ⟨image, known, -⟩ := ran
  exact (Keyed.contains_iff _ _).mpr ⟨image, known⟩

/-- Sections use no image but those already in use and the one they build on. -/
theorem Commit.imagesIn [Crates] {images : Uuid → Bool} {c : Cluster} {commit : Commit}
    {result : Section}
    (ran : commit.run c = .ok result) (within : ImagesIn images c)
    (among : ∀ image, commit.builds = some image →
      images image = true) : ImagesIn images result.cluster := by
  cases commit with
  | importImage image =>
    obtain rfl := Except.ok.inj ran
    exact within.of_same rfl rfl
  | updateImage id update =>
    obtain ⟨image, -, rfl⟩ := updateImage_eq_ok ran
    exact within.of_same rfl rfl
  | deleteImage id =>
    obtain ⟨-, -, rfl⟩ := deleteImage_eq_ok ran
    exact within.of_same rfl rfl
  | createPool pool =>
    obtain ⟨-, -, -, rfl⟩ := createPool_eq_ok ran
    exact within.insertPool pool (among pool.image rfl)
  | deletePool name =>
    obtain ⟨-, rfl⟩ := deletePool_eq_ok ran
    exact within.removePool name
  | createEnvironment id request image artifact =>
    obtain rfl := Except.ok.inj ran
    let environment := requestedEnvironment id request image.id artifact (environmentPoolName id)
    have built := within.insertPool (environmentPool environment) (among image.id rfl)
    exact built.insertEnvironment environment (among image.id rfl)
  | updateEnvironment freshId id request old image artifact =>
    obtain rfl := Except.ok.inj ran
    rw [updateEnvironment_eq]
    split_ifs
    · exact within.restart freshId _ (among image.id rfl)
    · let environment := requestedEnvironment id request image.id artifact old.pool
      have written := within.insertPool (environmentPool environment) (among image.id rfl)
      exact (written.insertEnvironment environment (among image.id rfl)).scheduleQueued
  | restartEnvironment freshId id =>
    obtain ⟨environment, present, rfl⟩ := restartEnvironment_eq_ok ran
    exact within.restart freshId environment (within.environments id environment present)
  | deleteEnvironment id =>
    obtain ⟨environment, -, -, rfl⟩ := deleteEnvironment_eq_ok ran
    exact within.withoutEnvironment environment _
  | createJoinToken id tokenHash now =>
    obtain rfl := Except.ok.inj ran
    exact within.of_same rfl rfl
  | joinCluster node tokenHash credentialHash now =>
    obtain ⟨token, -, rfl⟩ := joinCluster_eq_ok ran
    exact within.of_same rfl rfl
  | localJoin node credentialHash =>
    obtain rfl := Except.ok.inj ran
    exact within.of_same rfl rfl
  | updateNode id concurrency =>
    obtain ⟨node, -, rfl⟩ := updateNode_eq_ok ran
    exact within.of_same rfl rfl
  | deleteNode id =>
    obtain ⟨-, rfl⟩ := deleteNode_eq_ok ran
    exact (within.of_same (d := { c with
      nodes := c.nodes.erase id, nodeCredentials :=
        c.nodeCredentials.erase id }) rfl rfl).scheduleQueued
  | registerNode id request now =>
    obtain rfl := Except.ok.inj ran
    refine ImagesIn.scheduleQueued (within.of_same ?_ ?_)
    · cases request.resetIdle <;> rfl
    · cases request.resetIdle <;> rfl
  | imageReady id image =>
    obtain rfl := imageReady_eq_ok ran
    exact ImagesIn.scheduleQueued (within.of_same rfl rfl)
  | environmentReady id artifact =>
    obtain rfl := environmentReady_eq_ok ran
    exact ImagesIn.scheduleQueued (within.of_same rfl rfl)
  | addWarmInstance id pool =>
    obtain rfl := Except.ok.inj ran
    refine within.scheduleIfChanged fun next added => ?_
    obtain ⟨_, _, _, _, _, _, rfl⟩ := Cluster.addWarmInstance_eq_some added
    exact ⟨rfl, rfl⟩
  | removeIdleInstance id pool =>
    obtain rfl := Except.ok.inj ran
    refine within.scheduleIfChanged fun next removed => ?_
    obtain ⟨_, _, _, _, _, rfl⟩ := Cluster.removeIdleInstance_eq_some removed
    exact ⟨rfl, rfl⟩
  | createExecution id request secrets now =>
    rcases createExecution_eq_ok ran with rfl | ⟨_, _, _, _, _, rfl⟩ <;> exact within
  | nextWork id choice now =>
    rcases nextWork_eq_ok ran with rfl | ⟨execution, rfl, -, ⟨-, rfl⟩ | ⟨pool, -, rfl⟩⟩ <;>
      exact within.of_same rfl rfl
  | completeExecution node id request now =>
    obtain ⟨execution, -, -, rfl⟩ := completeExecution_eq_ok ran
    refine ImagesIn.scheduleQueued ?_
    unfold cleaned
    split_ifs
    · exact (within.finish execution.id request.keepIdle).removePool _
    · exact within.finish execution.id request.keepIdle

/-! A migration of legacy pools gives each pool's image to its environment. -/

theorem ImagesIn.migratePool {images : Uuid → Bool} {c : Cluster} (within : ImagesIn images c)
    (fresh : String → Uuid)
    {old : Pool} (among : images old.image = true) : ImagesIn images
      (System.migratePool fresh c old) := by
  have managed := within.adjustPool old.name (f := fun pool => { pool with
    managedBy := some "python-executor", environment :=
      some (fresh old.name) }) (fun _ => rfl) (fun _ => rfl)
  have migrated := managed.insertEnvironment (System.migratedEnvironment (fresh old.name) old) among
  exact migrated.of_same rfl rfl

theorem Imaged.migrateLegacy {c : Cluster} (imaged : Imaged c) (fresh : String → Uuid) :
    Imaged (System.migrateLegacy fresh c) := by
  have folded (pools : List Pool) (d : Cluster)
    (among : ∀ pool ∈ pools, c.images.contains pool.image = true)
      (within : ImagesIn c.images.contains d) (same : d.images = c.images) :
      ImagesIn c.images.contains (pools.foldl (System.migratePool fresh) d) ∧
        (pools.foldl (System.migratePool fresh) d).images = c.images := by
    induction pools generalizing d with
    | nil => exact ⟨within, same⟩
    | cons pool rest ih =>
      exact ih _ (fun other member => among other (List.mem_cons_of_mem _ member))
        (within.migratePool fresh (among pool List.mem_cons_self)) same
  have legacy : ∀ pool ∈ System.legacyPools c, c.images.contains pool.image = true := by
    intro pool member
    have known := (Keyed.mem_values_iff _ _).mp (List.mem_filter.mp member).1
    exact imaged.pools pool.name pool known
  obtain ⟨within, same⟩ := folded (System.legacyPools c) c legacy imaged rfl
  unfold Imaged
  rw [System.migrateLegacy, same]
  exact within

namespace System

/-- The image of the environment that the step writes. -/
def building (s : System) : Label → Option Uuid
  | .enter index input =>
    match (s.inflight[index]?).bind (Frame.commit input) with
    | some (.createEnvironment _ _ image _) => some image.id
    | some (.updateEnvironment _ _ _ _ image _) => some image.id
    | _ => none
  | _ => none

/-- An environment that is written finds the image it was built from. -/
def KeepsImage (s : System) (label : Label) : Prop :=
  ∀ id, s.building label = some id → s.cluster.images.contains id = true

instance (s : System) (label : Label) : Decidable (s.KeepsImage label) :=
  decidable_of_iff ((s.building label).all s.cluster.images.contains = true) (by
    cases same : s.building label <;> simp [KeepsImage, same])

theorem imaged_empty : Imaged Cluster.empty := by
  constructor
  · intro name pool known
    cases known
  · intro id environment present
    cases present

theorem imaged_serve {database next : Database} {cluster : Cluster}
    {fresh : String → Uuid} {now : Nat}
    (served : serve database none fresh now = some (cluster, next))
    (stored : ∀ c, database.cluster = some c → Imaged c) :
    Imaged cluster ∧ ∀ c, next.cluster = some c → Imaged c := by
  simp only [serve, Option.map_eq_some_iff, Prod.mk.injEq] at served
  obtain ⟨pruned, kept, rfl, rfl⟩ := served
  have loaded : Imaged (database.cluster.getD Cluster.empty) := by
    cases saved : database.cluster with
    | none => exact imaged_empty
    | some c => exact stored c saved
  have migrated := loaded.migrateLegacy fresh
  refine ⟨migrated.of_same rfl rfl, fun c saved => ?_⟩
  rw [prune_cluster kept] at saved
  obtain rfl := Option.some.inj saved
  exact migrated.of_same rfl rfl

theorem admitExecution_imaged {c : Cluster} (imaged : Imaged c) (execution : Execution)
    (queue : Bool) :
    Imaged (admitExecution execution queue c).cluster := by
  have images : (admitExecution execution queue c).cluster.images = c.images :=
    congrArg Registry.images (Cluster.registry_admitExecution execution queue)
  unfold Imaged
  rw [images]
  exact imaged.of_same (admitExecution_pools ..) (admitExecution_environments ..)

variable [Crates]

theorem KeepsImage.builds {s : System} {label : Label} {commit : Commit} {others : List Frame}
    {result : Section}
    (keeps : s.KeepsImage label) (entered : Entered s label commit others)
    (ran : commit.run s.cluster = .ok result)
    {image : Uuid} (builds : commit.builds = some image) : s.cluster.images.contains image =
      true := by
  have written (same : s.building label = commit.builds) : s.cluster.images.contains image = true :=
    keeps image (same.trans builds)
  cases commit with
  | createPool pool => exact Option.some.inj builds ▸ createPool_image ran
  | createEnvironment | updateEnvironment =>
    apply written
    cases entered with
    | client _ direct => cases direct
    | handler index input frame _ there ready =>
        simp only [building, there, Option.bind_some, ready, Commit.builds]
  | _ => cases builds

theorem imaged_step {s t : System} {label : Label} (imaged : Imaged s.cluster) (keeps : s.KeepsImage label)
    (stepped : s.step label = some t) (same : restarts label = false) : Imaged t.cluster := by
  cases step_cases stepped with
  | performed _ commit others result free allowed entered ran =>
    -- Whatever is in use or built on before the section is there after it.
    have grows (more : ∀ id, s.cluster.images.contains id = true → result.cluster.images.contains id = true) :
        Imaged result.cluster :=
      Commit.imagesIn ran ⟨fun name pool known => more _ (imaged.pools name pool known),
        fun id environment present => more _ (imaged.environments id environment present)⟩
        (fun image builds => more image (keeps.builds entered ran builds))
    have inserts (image : Image) (filed : result.cluster.images = s.cluster.images.insert image) : Imaged result.cluster :=
      grows (fun id known => by rw [filed, Keyed.contains_insert, known, Bool.or_true])
    cases Commit.registered ran with
    | same filed | issued _ _ _ filed | joined _ _ _ _ _ _ filed | joinedLocally _ _ filed | deleted _ filed
    | registered _ _ _ filed =>
      have images : result.cluster.images = s.cluster.images := congrArg Registry.images filed
      exact grows (fun id known => images ▸ known)
    | imported image filed => exact inserts image (congrArg Registry.images filed)
    | updated _ _ image filed => exact inserts image (congrArg Registry.images filed)
    | discarded id pools environments filed =>
      have images : result.cluster.images = s.cluster.images.erase id := congrArg Registry.images filed
      have others : ImagesIn (fun image => decide (image ≠ id) && s.cluster.images.contains image) s.cluster := by
        refine ⟨fun name pool known => ?_, fun k environment present => ?_⟩
        · have unused := (Keyed.any_eq_false_iff _ _).mp pools name pool known
          simpa [imaged.pools name pool known] using unused
        · have unused := (Keyed.any_eq_false_iff _ _).mp environments k environment present
          simpa [imaged.environments k environment present] using unused
      unfold Imaged
      rw [images, funext (Keyed.contains_erase s.cluster.images id)]
      exact Commit.imagesIn ran others (fun image builds => by cases builds)
  | admitted index execution secrets queue rest before database there stored =>
    exact admitExecution_imaged imaged execution queue
  | called index op rest before after next there plain done =>
    change Imaged next.cluster
    rw [(runOp_frame plain done).1]
    exact imaged
  | restarted => cases same
  | _ => exact imaged

theorem createExecution_runs {c : Cluster} (imaged : Imaged c) {id : Uuid}
    {request : CreateExecution} {secrets : Bytes}
    {now : Nat} {result : Section} (ran : createExecution id request secrets now c = .ok result) :
    result.reply ≠ .panicked := by
  simp only [createExecution, bind_eq_ok_iff, require_eq_ok_iff, found_eq_ok_iff,
    exists_const] at ran
  obtain ⟨_, poolName, _, pool, known, environment, _, rest⟩ := ran
  obtain ⟨image, there⟩ := (Keyed.contains_iff _ _).mp (imaged.pools poolName pool known)
  simp only [there, bind_eq_ok_iff, require_eq_ok_iff, found_eq_ok_iff, exists_const,
    pure, Except.pure,
    Except.ok.injEq] at rest
  obtain ⟨_, _, _, rfl⟩ := rest
  exact fun same => by cases same

/-- From an empty cluster on, through any restarts, the image of every pool and every environment
is there and `create_execution` does not panic, as long as every environment that is written finds
the image it was built from. -/
theorem images_in_use {s t : System} (blank : Blank s)
    (run : Runs.Reaches System.step KeepsImage s t) :
    (∀ name pool, t.cluster.pools.get name = some pool →
      t.cluster.images.contains pool.image = true) ∧
      (∀ id environment, t.cluster.environments.get id = some environment →
        t.cluster.images.contains environment.image = true) ∧
      ∀ id request secrets now result, createExecution id request secrets now t.cluster =
        .ok result →
        result.reply ≠ .panicked := by
  have kept : Imaged t.cluster ∧ ∀ c, t.database.cluster = some c → Imaged c := by
    refine run.invariant (P := fun s => Imaged s.cluster ∧ ∀ c, s.database.cluster = some c →
      Imaged c) ⟨?_, ?_⟩ ?_
    · rw [blank.empty]
      exact imaged_empty
    · intro c saved
      rw [blank.unsaved] at saved
      cases saved
    · rintro u v label ⟨imaged, stored⟩ keeps stepped
      cases same : restarts label with
      | true =>
        cases label with
        | restart fresh now =>
          cases step_cases stepped with
          | refused _ others error fewer => exact ⟨imaged, stored⟩
          | performed _ commit others result free allowed entered => cases entered
          | declined _ commit others error entered => cases entered
          | restarted _ _ cluster database fits served => exact imaged_serve served stored
        | _ => cases same
      | false =>
        refine ⟨imaged_step imaged keeps stepped same, fun c saved => ?_⟩
        rcases step_saved stepped same with unchanged | ⟨_, _, _, _, _, now⟩
        · exact stored c (unchanged ▸ saved)
        · obtain rfl := Option.some.inj (now.symm.trans saved)
          exact imaged.of_same rfl rfl
  exact ⟨kept.1.pools, kept.1.environments, fun _ _ _ _ _ ran => createExecution_runs kept.1 ran⟩

end System

namespace System

/-- An environment is created, the process restarts, and its image is still there. -/
theorem images_in_use_restarted :
    ∃ t : System, t.cluster.environments.contains Demo.environment = true ∧
      ∀ id environment, t.cluster.environments.get id = some environment →
        t.cluster.images.contains environment.image = true := by
  obtain ⟨t, run, present⟩ := Runs.exists_reaches (@step Demo.crates) KeepsImage Demo.empty
    (Demo.installation ++ Demo.creating ++ [.restart (fun _ => 7) 0])
    (fun t => t.cluster.environments.contains Demo.environment) (by decide +kernel)
  exact ⟨t, present, (@images_in_use Demo.crates _ _ ⟨fresh_empty, rfl⟩ run).2.1⟩

/-- An environment is written after its image was deleted. -/
theorem image_missing :
    ¬ ∀ [Crates] (s t : System), s.Blank → Runs.Reaches System.step (fun _ _ => True) s t →
      ∀ id environment, t.cluster.environments.get id = some environment →
        t.cluster.images.contains environment.image = true := by
  intro claim
  obtain ⟨t, run, missing⟩ := Runs.exists_reaches (@step Demo.crates) (fun _ _ => True) Demo.empty
    (Demo.installation ++ [.checkEnvironment none Demo.environmentRequest] ++
      Demo.request 1 (.deleteImage Demo.runtimeImage.id) 2 ++
        [.enter 0 (Demo.input Demo.environment)])
    (fun t => t.cluster.environments.any (fun environment =>
      !t.cluster.images.contains environment.image))
    (by decide +kernel)
  obtain ⟨id, environment, present, absent⟩ := (Keyed.any_iff _ _).mp missing
  have there := @claim Demo.crates _ _ ⟨fresh_empty, rfl⟩ run id environment present
  rw [there] at absent
  cases absent

end System
end Scraperack
