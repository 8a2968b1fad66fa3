import Scraperack.Pools
import Scraperack.Uniqueness

/-! The kinds of images. Environments are built on runtime images and the pools of clients on the others; both are
checked when they are created, and the kind of an image can be changed later. -/

namespace Scraperack

/-- What `create_environment` and `update_environment` require of an image. -/
def Image.hostsPython (image : Image) : Bool :=
  decide (image.kind = .runtime) && pythonExecutor image.executor

/-- The image is there, of kind Runtime and with a Python executor. -/
def Cluster.runtime (c : Cluster) (image : Uuid) : Bool :=
  (c.images.get image).any Image.hostsPython

/-- The image is there and of kind MicroVm. -/
def Cluster.plain (c : Cluster) (image : Uuid) : Bool :=
  (c.images.get image).any (fun image => decide (image.kind = .microVm))

/-- The images of environments are runtime images, those of pools that nobody manages are not. -/
structure KindsKept (c : Cluster) : Prop where
  environments : ∀ id environment, c.environments.get id = some environment →
    c.runtime environment.image = true
  pools : ∀ name pool, c.pools.get name = some pool → pool.managedBy = none →
    c.plain pool.image = true

theorem KindsKept.of_same {c d : Cluster} (kept : KindsKept c) (images : d.images = c.images)
    (environments : d.environments = c.environments) (pools : d.pools = c.pools) : KindsKept d := by
  constructor
  · intro id environment present
    rw [Cluster.runtime, images]
    exact kept.environments id environment (environments ▸ present)
  · intro name pool known free
    rw [Cluster.plain, images]
    exact kept.pools name pool (pools ▸ known) free

/-- The name that an update gives an image is not accepted. -/
def UpdateImage.refused (update : UpdateImage) (id : Uuid) (c : Cluster) : Bool :=
  blank update.name || c.images.any (fun image =>
    decide (image.id ≠ id) && image.name = update.name)

/-- An environment is written while its image is still a runtime image, and an image in use is not turned
into the other kind. -/
def Commit.keepsKinds (c : Cluster) : Commit → Bool
  | .createEnvironment _ _ image _ | .updateEnvironment _ _ _ _ image _ => c.runtime image.id
  | .updateImage id update =>
    let executor := update.executor.filter (fun value => !blank value)
    update.refused id c || (!c.environments.any (fun environment =>
      decide (environment.image = id)) || pythonExecutor executor) &&
      (!c.pools.any (fun pool => pool.managedBy.isNone && decide (pool.image = id)) ||
        executor.isNone)
  | _ => true

theorem updateImage_accepted {id : Uuid} {update : UpdateImage} {c : Cluster} {result : Section}
    (ran : updateImage id update c = .ok result) : update.refused id c = false := by
  simp only [updateImage, bind_eq_ok_iff, require_eq_ok_iff, exists_const] at ran
  obtain ⟨named, free, -⟩ := ran
  rw [UpdateImage.refused, named, free]
  rfl

theorem createPool_plain {pool : Pool} {c : Cluster} {result : Section}
    (ran : createPool pool c = .ok result) :
    c.plain pool.image = true := by
  simp only [createPool, bind_eq_ok_iff, require_eq_ok_iff, found_eq_ok_iff, exists_const] at ran
  obtain ⟨image, known, kind, -⟩ := ran
  simp [Cluster.plain, known, kind]

section
variable [Crates] {c : Cluster} {commit : Commit} {result : Section}

/-- The environments and pools after a section, against the images before it. -/
theorem Commit.kinds_before (ran : commit.run c = .ok result) (kept : KindsKept c)
    (keeps : commit.keepsKinds c = true) :
    (∀ id environment, result.cluster.environments.get id = some environment →
      c.runtime environment.image = true) ∧
      ∀ name pool, result.cluster.pools.get name = some pool → pool.managedBy = none →
        c.plain pool.image = true := by
  refine ⟨fun id environment present => ?_, ?_⟩
  · have put {new : Environment} (inserted : result.cluster.environments =
      c.environments.insert new)
        (runtime : c.runtime new.image = true) : c.runtime environment.image = true := by
      rw [inserted, Keyed.get_insert] at present
      split_ifs at present
      · exact Option.some.inj present ▸ runtime
      · exact kept.environments id environment present
    cases Commit.rewritten ran with
    | same same => exact kept.environments id environment (same ▸ present)
    | created _ request image artifact pool inserted => exact put inserted keeps
    | updated _ _ request old image artifact pool inserted => exact put inserted keeps
    | restarted _ was old pool there inserted =>
        exact put inserted (kept.environments was old there)
    | deleted _ old there gone =>
      rw [gone, Keyed.get_erase] at present
      split_ifs at present
      exact kept.environments id environment present
  · refine Commit.poolsAll ran kept.pools (fun _ plain => plain) fun pool written free => ?_
    cases commit with
    | createPool pool =>
      obtain rfl := Option.some.inj written
      exact createPool_plain ran
    | createEnvironment | updateEnvironment =>
      obtain rfl := Option.some.inj written
      cases free
    | restartEnvironment fresh id =>
      obtain ⟨environment, -, rfl⟩ := Option.map_eq_some_iff.mp written
      cases free
    | _ => cases written

theorem Commit.kinds (ran : commit.run c = .ok result) (kept : KindsKept c) (keeps : commit.keepsKinds c = true)
    (new : ∀ image, commit = .importImage image → c.images.get image.id = none) : KindsKept result.cluster := by
  obtain ⟨environments, pools⟩ := Commit.kinds_before ran kept keeps
  have grows (lasts : ∀ id image, c.images.get id = some image →
    result.cluster.images.get id = some image) :
      KindsKept result.cluster := by
    refine ⟨fun id environment present => ?_, fun name pool known free => ?_⟩
    · obtain ⟨image, there, runtime⟩ := (Option.any_eq_true _ _).mp
        (environments id environment present)
      exact (Option.any_eq_true _ _).mpr ⟨image, lasts _ image there, runtime⟩
    · obtain ⟨image, there, plain⟩ := (Option.any_eq_true _ _).mp (pools name pool known free)
      exact (Option.any_eq_true _ _).mpr ⟨image, lasts _ image there, plain⟩
  cases Commit.registered ran with
  | same filed | issued _ _ _ filed | joined _ _ _ _ _ _ filed | joinedLocally _ _ filed | deleted _ filed
  | registered _ _ _ filed =>
    have images : result.cluster.images = c.images := congrArg Registry.images filed
    exact grows fun id image there => by rw [images]; exact there
  | imported image filed =>
    have images : result.cluster.images = c.images.insert image := congrArg Registry.images filed
    refine grows fun id other there => ?_
    rw [images, Keyed.get_insert]
    split_ifs with same
    · rw [same, new image rfl] at there
      cases there
    · exact there
  | discarded id unused unused' _ =>
    obtain ⟨-, -, rfl⟩ := deleteImage_eq_ok ran
    have lasts {k : Uuid} (differs : k ≠ id) : (c.images.erase id).get k = c.images.get k :=
      Keyed.get_erase_ne c.images differs
    refine ⟨fun k environment present => ?_, fun name pool known free => ?_⟩
    · have differs : environment.image ≠ id := by
        simpa using (Keyed.any_eq_false_iff _ _).mp unused' k environment present
      change ((c.images.erase id).get environment.image).any _ = true
      rw [lasts differs]
      exact environments k environment present
    · have differs : pool.image ≠ id := by
        simpa using (Keyed.any_eq_false_iff _ _).mp unused name pool known
      change ((c.images.erase id).get pool.image).any _ = true
      rw [lasts differs]
      exact pools name pool known free
  | updated id update _ _ =>
    obtain ⟨image, there, -, written⟩ := updateImage_cases ran
    have own : (updatedImage update image).id = id := (Keyed.key_of_get there : image.id = id)
    rw [written] at environments pools ⊢
    simp only [Commit.keepsKinds, updateImage_accepted ran, Bool.false_or, Bool.and_eq_true,
      Bool.or_eq_true, Bool.not_eq_true', Keyed.any_eq_false_iff,
      decide_eq_false_iff_not] at keeps
    have lasts {k : Uuid} (differs : k ≠ id) : (c.images.insert (updatedImage update image)).get k =
      c.images.get k :=
      Keyed.get_insert_ne c.images (by rwa [own])
    have here : (c.images.insert (updatedImage update image)).get id =
      some (updatedImage update image) := by
      have self := Keyed.get_insert_self c.images (updatedImage update image)
      rwa [own] at self
    refine ⟨fun k environment present => ?_, fun name pool known free => ?_⟩
    · change ((c.images.insert (updatedImage update image)).get environment.image).any _ = true
      by_cases same : environment.image = id
      · have python := keeps.1.resolve_left (fun unused => unused k environment present same)
        obtain ⟨executor, is, -⟩ := (Option.any_eq_true _ _).mp python
        rw [same, here, Option.any_some, Image.hostsPython, updatedImage]
        simp only [python, Bool.and_true]
        simp [is]
      · rw [lasts same]
        exact environments k environment present
    · change ((c.images.insert (updatedImage update image)).get pool.image).any _ = true
      by_cases same : pool.image = id
      · have bare := keeps.2.resolve_left (fun unused => by
          simpa [free, same] using unused name pool known)
        rw [same, here, Option.any_some, updatedImage]
        simp [Option.isNone_iff_eq_none.mp bare]
      · rw [lasts same]
        exact pools name pool known free

end

namespace System

/-- What the step writes keeps the kinds; a starting process finds no pool to convert. -/
def keepsKinds (s : System) : Label → Bool
  | .client commit => commit.keepsKinds s.cluster
  | .enter index input => ((s.inflight[index]?).bind (Frame.commit input)).all
      (Commit.keepsKinds s.cluster)
  | .restart _ _ => (legacyPools (s.database.cluster.getD Cluster.empty)).isEmpty
  | _ => true

theorem kindsKept_empty : KindsKept Cluster.empty := by
  constructor
  · intro id environment present
    cases present
  · intro name pool known
    cases known

variable [Crates]

/-- The kinds are kept in the cluster and its stored copy, whose images were all issued. -/
structure KindsHold (s : System) : Prop where
  memory : KindsKept s.cluster
  stored : ∀ c, s.database.cluster = some c → KindsKept c
  issued : ∀ id, s.cluster.images.contains id = true → id ∈ s.issued
  issuedStored : ∀ c, s.database.cluster = some c →
    ∀ id, c.images.contains id = true → id ∈ s.issued

omit [Crates] in
theorem keepsKinds_of_entered {s : System} {label : Label} {commit : Commit} {others : List Frame}
    (keeps : s.keepsKinds label = true) (entered : Entered s label commit others) :
    commit.keepsKinds s.cluster = true := by
  cases entered with
  | client _ direct => exact keeps
  | handler index input frame _ there ready =>
    simpa only [keepsKinds, there, Option.bind_some, ready, Option.all_some] using keeps

theorem issued_images {s t : System} {label : Label} (stepped : s.step label = some t) (same : restarts label = false)
    (issued : ∀ id, s.cluster.images.contains id = true → id ∈ s.issued) :
    ∀ id, t.cluster.images.contains id = true → id ∈ t.issued := by
  intro id known
  cases step_cases stepped with
  | performed _ commit others result free allowed entered ran =>
    change result.cluster.images.contains id = true at known
    refine List.mem_append.mpr ?_
    cases Commit.registered ran with
    | same filed | issued _ _ _ filed | joined _ _ _ _ _ _ filed | joinedLocally _ _ filed | deleted _ filed
    | registered _ _ _ filed =>
      have images : result.cluster.images = s.cluster.images := congrArg Registry.images filed
      exact .inr (issued id (images ▸ known))
    | imported image filed =>
      have images : result.cluster.images = s.cluster.images.insert image := congrArg Registry.images filed
      rw [images, Keyed.contains_insert, Bool.or_eq_true, decide_eq_true_eq] at known
      rcases known with rfl | known
      · exact .inl List.mem_cons_self
      · exact .inr (issued id known)
    | discarded gone _ _ filed =>
      have images : result.cluster.images = s.cluster.images.erase gone := congrArg Registry.images filed
      rw [images, Keyed.contains_erase, Bool.and_eq_true] at known
      exact .inr (issued id known.2)
    | updated old update _ _ =>
      obtain ⟨image, there, -, written⟩ := updateImage_cases ran
      rw [written, Keyed.contains_insert, Bool.or_eq_true, decide_eq_true_eq] at known
      rcases known with rfl | known
      · exact .inr (issued image.id ((Keyed.contains_iff _ _).mpr ⟨image, Keyed.get_congr there⟩))
      · exact .inr (issued id known)
  | admitted index execution secrets queue rest before database there stored =>
    have images : (admitExecution execution queue s.cluster).cluster.images = s.cluster.images :=
      congrArg Registry.images (Cluster.registry_admitExecution execution queue)
    exact issued id (images ▸ known)
  | called index op rest before after next there plain done =>
    obtain ⟨same, kept, -⟩ := runOp_frame plain done
    change next.cluster.images.contains id = true at known
    rw [same] at known
    exact kept ▸ issued id known
  | declined => exact List.mem_append_right _ (issued id known)
  | restarted => cases same
  | _ => exact issued id known

theorem KindsHold.step {s t : System} {label : Label} (hold : s.KindsHold)
    (keeps : s.keepsKinds label = true)
    (stepped : s.step label = some t) : t.KindsHold := by
  have kept (same : restarts label = false) (memory : KindsKept t.cluster) : t.KindsHold := by
    refine ⟨memory, fun c saved => ?_, issued_images stepped same hold.issued,
      fun c saved id known => ?_⟩
    · rcases step_saved stepped same with unchanged | ⟨_, _, _, _, _, now⟩
      · exact hold.stored c (unchanged ▸ saved)
      · obtain rfl := Option.some.inj (now.symm.trans saved)
        exact hold.memory.of_same rfl rfl rfl
    · rcases step_saved stepped same with unchanged | ⟨_, _, _, _, _, now⟩
      · exact issued_mono stepped (hold.issuedStored c (unchanged ▸ saved) id known)
      · obtain rfl := Option.some.inj (now.symm.trans saved)
        exact issued_mono stepped (hold.issued id known)
  cases step_cases stepped with
  | performed _ commit others result clear allowed entered ran =>
    refine kept (by cases entered <;> rfl) ?_
    refine Commit.kinds ran hold.memory
      (keepsKinds_of_entered keeps entered) fun image imports => ?_
    subst imports
    -- A generated identifier is not that of a known image.
    by_contra known
    have issued := hold.issued image.id (Option.isSome_iff_ne_none.mpr known)
    simp [allows, Commit.issues, issued] at allowed
  | admitted index execution secrets queue rest before database there stored =>
    refine kept rfl (hold.memory.of_same ?_ (admitExecution_environments execution queue s.cluster)
      (admitExecution_pools execution queue s.cluster))
    exact congrArg Registry.images (Cluster.registry_admitExecution execution queue)
  | called index op rest before after next there plain done =>
    refine kept rfl ?_
    change KindsKept next.cluster
    rw [(runOp_frame plain done).1]
    exact hold.memory
  | restarted fresh now cluster database fits served =>
    have none : legacyPools (s.database.cluster.getD Cluster.empty) = [] :=
      List.isEmpty_iff.mp keeps
    simp only [serve, Option.map_eq_some_iff, Prod.mk.injEq, migrateLegacy, Option.getD_none, none,
      List.foldl_nil] at served
    obtain ⟨pruned, done, rfl, rfl⟩ := served
    have loaded : KindsKept (s.database.cluster.getD Cluster.empty) ∧
        ∀ id, (s.database.cluster.getD Cluster.empty).images.contains id = true →
          id ∈ s.issued := by
      cases saved : s.database.cluster with
      | none => exact ⟨kindsKept_empty, fun id known => (by cases known)⟩
      | some c => exact ⟨hold.stored c saved, hold.issuedStored c saved⟩
    have again := prune_cluster done
    refine ⟨loaded.1.of_same rfl rfl rfl, fun c saved => ?_,
      fun id known => List.mem_append_right _ (loaded.2 id known), fun c saved id known => ?_⟩
    · rw [again] at saved
      obtain rfl := Option.some.inj saved
      exact loaded.1.of_same rfl rfl rfl
    · rw [again] at saved
      obtain rfl := Option.some.inj saved
      exact List.mem_append_right _ (loaded.2 id known)
  | declined _ commit others error entered => exact kept (by cases entered <;> rfl) hold.memory
  | rejected | pruned => exact kept rfl hold.memory
  | _ => exact ⟨hold.memory, hold.stored, hold.issued, hold.issuedStored⟩

/-- From an empty cluster on, through any restarts, as long as every step keeps the kinds: the image of every
environment is a runtime image with a Python executor, and that of every pool that nobody manages is not a
runtime image. -/
theorem images_keep_kind {s t : System} (blank : Blank s)
    (run : Runs.Reaches System.step (fun s label => s.keepsKinds label = true) s t) :
    (∀ id environment, t.cluster.environments.get id = some environment →
      ∃ image, t.cluster.images.get environment.image = some image ∧ image.kind = .runtime ∧
        pythonExecutor image.executor = true) ∧
    ∀ name pool, t.cluster.pools.get name = some pool → pool.managedBy = none →
      ∃ image, t.cluster.images.get pool.image = some image ∧ image.kind = .microVm := by
  have hold : t.KindsHold := by
    refine run.invariant (P := KindsHold) ⟨?_, fun c saved => ?_, fun id known => ?_,
      fun c saved => ?_⟩
      (fun hold keeps stepped => hold.step keeps stepped)
    · rw [blank.empty]
      exact kindsKept_empty
    · rw [blank.unsaved] at saved
      cases saved
    · rw [blank.empty] at known
      cases known
    · rw [blank.unsaved] at saved
      cases saved
  refine ⟨fun id environment present => ?_, fun name pool known free => ?_⟩
  · obtain ⟨image, there, hosts⟩ := (Option.any_eq_true _ _).mp
      (hold.memory.environments id environment present)
    simp only [Image.hostsPython, Bool.and_eq_true, decide_eq_true_eq] at hosts
    exact ⟨image, there, hosts⟩
  · obtain ⟨image, there, plain⟩ := (Option.any_eq_true _ _).mp
      (hold.memory.pools name pool known free)
    exact ⟨image, there, of_decide_eq_true plain⟩

omit [Crates] in
/-- An environment is created, its image is renamed, and the process restarts. -/
theorem images_keep_kind_renamed : ∃ t : System,
    t.cluster.environments.contains Demo.environment = true ∧
    ∀ id environment, t.cluster.environments.get id = some environment →
      ∃ image, t.cluster.images.get environment.image = some image ∧ image.kind = .runtime ∧
        pythonExecutor image.executor = true := by
  obtain ⟨t, run, present⟩ := Runs.exists_reaches (@step Demo.crates)
    (fun s label => s.keepsKinds label = true) Demo.empty
    (Demo.installation ++ Demo.creating ++
      Demo.request 0 (.updateImage Demo.runtimeImage.id ⟨"renamed", some "python 3.13"⟩) 2 ++
        [.restart (fun _ => 7) 0])
    (fun t => t.cluster.environments.contains Demo.environment) (by decide +kernel)
  exact ⟨t, present, (@images_keep_kind Demo.crates _ _ ⟨fresh_empty, rfl⟩ run).1⟩

omit [Crates] in
/-- An update that leaves the executor blank turns the image of an environment into one of kind MicroVm. -/
theorem image_turned :
    ¬ ∀ [Crates] (s t : System), s.Blank → Runs.Reaches System.step (fun _ _ => True) s t →
      ∀ id environment, t.cluster.environments.get id = some environment →
        ∃ image, t.cluster.images.get environment.image = some image ∧ image.kind = .runtime := by
  intro claim
  obtain ⟨t, run, turned⟩ := Runs.exists_reaches (@step Demo.crates) (fun _ _ => True) Demo.empty
    (Demo.installation ++ Demo.creating ++
      [.client (.updateImage Demo.runtimeImage.id ⟨"python", none⟩)])
    (fun t => t.cluster.environments.any (fun environment =>
      !(t.cluster.images.get environment.image).any
        (fun image : Image => decide (image.kind = .runtime))))
    (by decide +kernel)
  obtain ⟨id, environment, present, other⟩ := (Keyed.any_iff _ _).mp turned
  obtain ⟨image, there, kind⟩ :=
    @claim Demo.crates _ _ ⟨fresh_empty, rfl⟩ run id environment present
  simp [there, kind] at other

end System
end Scraperack
