import Scraperack.Artifacts

/-! Names of images and environments. They are looked up before an image or an artifact is built and are not
looked up again when the result is filed. -/

namespace Keyed
variable {K V : Type} [DecidableEq K] {key : V → K}

/-- No two entries of the table have the same name. -/
def Unique (t : Keyed key) (name : V → String) : Prop :=
  ∀ k k' v v', t.get k = some v → t.get k' = some v' → name v = name v' → k = k'

namespace Unique
variable {t : Keyed key} {name : V → String}

theorem empty : (∅ : Keyed key).Unique name := by
  intro k k' v v' present
  cases present

theorem filter (unique : t.Unique name) (p : V → Bool) : (t.filter p).Unique name := by
  intro k k' v v' present present' same
  rw [get_filter] at present present'
  exact unique k k' v v' (Option.filter_eq_some_iff.mp present).1
    (Option.filter_eq_some_iff.mp present').1 same

theorem insert (unique : t.Unique name) {v : V}
    (free : ∀ k w, t.get k = some w → name w = name v → k = key v) :
    (t.insert v).Unique name := by
  intro k k' w w' present present' same
  rw [get_insert] at present present'
  split_ifs at present present' with here there there
  · rw [here, there]
  · obtain rfl := Option.some.inj present
    rw [here, free k' w' present' same.symm]
  · obtain rfl := Option.some.inj present'
    rw [there, free k w present same]
  · exact unique k k' w w' present present' same

/-- A lookup by name has at most one match. -/
theorem filter_length (unique : t.Unique name) (wanted : String) :
    (t.values.filter (fun v => decide (name v = wanted))).length ≤ 1 := by
  rcases matching : t.values.filter (fun v => decide (name v = wanted)) with _ | ⟨v, _ | ⟨w, rest⟩⟩
  · exact Nat.zero_le 1
  · exact le_rfl
  · have found : ∀ u ∈ v :: w :: rest, u ∈ t.values ∧ name u = wanted := by
      intro u member
      obtain ⟨present, is⟩ := List.mem_filter.mp (matching ▸ member)
      exact ⟨present, of_decide_eq_true is⟩
    obtain ⟨vIn, vName⟩ := found v (by simp)
    obtain ⟨wIn, wName⟩ := found w (by simp)
    have same := unique _ _ v w ((mem_values_iff t v).mp vIn) ((mem_values_iff t w).mp wIn)
      (vName.trans wName.symm)
    have distinct := t.nodup_filter (fun v => decide (name v = wanted))
    rw [matching, List.map_cons, List.map_cons] at distinct
    simp [same] at distinct

end Unique
end Keyed

namespace Scraperack

structure NamesUnique (c : Cluster) : Prop where
  images : c.images.Unique Image.name
  environments : c.environments.Unique Environment.name

theorem NamesUnique.of_same {c d : Cluster} (unique : NamesUnique c) (images : d.images = c.images)
    (environments : d.environments = c.environments) : NamesUnique d :=
  ⟨images ▸ unique.images, environments ▸ unique.environments⟩

/-- The image as `update_image` leaves it. -/
def updatedImage (update : UpdateImage) (image : Image) : Image :=
  let executor := update.executor.filter (fun value => !blank value)
  { image with name := update.name, executor := executor, kind := if executor.isSome then .runtime else .microVm }

theorem updateImage_cases {id : Uuid} {update : UpdateImage} {c : Cluster} {result : Section}
    (ran : updateImage id update c = .ok result) : ∃ image, c.images.get id = some image ∧
      (∀ k other, c.images.get k = some other → other.name = update.name → k = id) ∧
        result.cluster = { c with images := c.images.insert (updatedImage update image) } := by
  simp only [updateImage, bind_eq_ok_iff, require_eq_ok_iff, found_eq_ok_iff, exists_const,
    pure, Except.pure,
    Except.ok.injEq] at ran
  obtain ⟨-, free, image, present, rfl⟩ := ran
  refine ⟨image, present, fun k other there same => ?_, rfl⟩
  have apart := (Keyed.any_eq_false_iff _ _).mp free k other there
  rw [← Keyed.key_of_get there]
  simpa [same] using apart

/-- Nothing else has the name of what the section files without looking again. -/
def Commit.takesFreeName (c : Cluster) : Commit → Bool
  | .importImage image => !c.images.any (fun other => decide (other.name = image.name))
  | .createEnvironment _ request _ _ =>
      !c.environments.any (fun other => decide (other.name = request.name))
  | .updateEnvironment _ id request _ _ _ =>
    !c.environments.any (fun other => decide (other.id ≠ id) && decide (other.name = request.name))
  | _ => true

theorem Commit.names [Crates] {c : Cluster} {commit : Commit} {result : Section} (ran : commit.run c = .ok result)
    (unique : NamesUnique c) (free : commit.takesFreeName c = true) : NamesUnique result.cluster := by
  constructor
  · have same (images : result.cluster.images = c.images) : result.cluster.images.Unique Image.name :=
      images ▸ unique.images
    cases Commit.registered ran with
    | same filed | issued _ _ _ filed | joined _ _ _ _ _ _ filed | joinedLocally _ _ filed | deleted _ filed
    | registered _ _ _ filed => exact same (congrArg Registry.images filed)
    | discarded id _ _ filed =>
      have images : result.cluster.images = c.images.erase id := congrArg Registry.images filed
      exact images ▸ unique.images.filter _
    | imported image filed =>
      have images : result.cluster.images = c.images.insert image := congrArg Registry.images filed
      rw [takesFreeName, Bool.not_eq_true', Keyed.any_eq_false_iff] at free
      refine images ▸ unique.images.insert fun k other there same => ?_
      have apart := free k other there
      simp [same] at apart
    | updated id update _ filed =>
      obtain ⟨image, present, apart, written⟩ := updateImage_cases ran
      rw [written]
      refine unique.images.insert fun k other there same => ?_
      exact (apart k other there same).trans (Keyed.key_of_get present).symm
  · cases Commit.rewritten ran with
    | same kept => exact kept ▸ unique.environments
    | created id request image artifact pool put =>
      rw [takesFreeName, Bool.not_eq_true', Keyed.any_eq_false_iff] at free
      refine put ▸ unique.environments.insert fun k other there same => ?_
      have apart := free k other there
      simp [same, requestedEnvironment] at apart
    | updated fresh id request old image artifact pool put =>
      rw [takesFreeName, Bool.not_eq_true', Keyed.any_eq_false_iff] at free
      refine put ▸ unique.environments.insert fun k other there same => ?_
      have apart := free k other there
      rw [← Keyed.key_of_get there]
      simpa [same, requestedEnvironment] using apart
    | restarted fresh id environment pool present put =>
      refine put ▸ unique.environments.insert fun k other there same => ?_
      have own := unique.environments k id other environment there present same
      exact own.trans (Keyed.key_of_get present).symm
    | deleted id environment present gone => exact gone ▸ unique.environments.filter _

/-- The conversion of pools whose names no environment has. -/
theorem NamesUnique.migrateLegacy {c : Cluster} (unique : NamesUnique c) (fresh : String → Uuid)
    (free : ∀ pool ∈ System.legacyPools c, ∀ id environment,
      c.environments.get id = some environment →
      environment.name ≠ pool.name) : NamesUnique (System.migrateLegacy fresh c) := by
  have folded (pools : List Pool) (d : Cluster) (distinct : (pools.map Pool.name).Nodup)
    (unique : NamesUnique d)
      (free : ∀ pool ∈ pools, ∀ id environment, d.environments.get id = some environment →
        environment.name ≠ pool.name) : NamesUnique (pools.foldl (System.migratePool fresh) d) := by
    induction pools generalizing d with
    | nil => exact unique
    | cons pool rest ih =>
      obtain ⟨alone, distinct⟩ := List.nodup_cons.mp distinct
      refine ih _ distinct ⟨unique.images, unique.environments.insert fun k other there same => ?_⟩
        fun other member id environment present => ?_
      · exact absurd same (free pool List.mem_cons_self k other there)
      · have present : (d.environments.insert
          (System.migratedEnvironment (fresh pool.name) pool)).get id =
            some environment := present
        rw [Keyed.get_insert] at present
        split_ifs at present
        · obtain rfl := Option.some.inj present
          intro same
          exact alone (List.mem_map.mpr ⟨other, member, same.symm⟩)
        · exact free other (List.mem_cons_of_mem _ member) id environment present
  exact folded (System.legacyPools c) c (Keyed.nodup_filter _ _) unique free

namespace System

/-- What the step files under a name looked up earlier has that name to itself; a pool that a starting process
converts does so among the stored environments. -/
def takesFreeNames (s : System) : Label → Bool
  | .enter index input => ((s.inflight[index]?).bind (Frame.commit input)).all
      (Commit.takesFreeName s.cluster)
  | .restart _ _ =>
    let stored := s.database.cluster.getD Cluster.empty
    (legacyPools stored).all (fun pool =>
      !stored.environments.any (fun other => decide (other.name = pool.name)))
  | _ => true

theorem namesUnique_empty : NamesUnique Cluster.empty := ⟨.empty, .empty⟩

variable [Crates]

omit [Crates] in
theorem takesFreeName_of_entered {s : System} {label : Label} {commit : Commit}
    {others : List Frame}
    (free : s.takesFreeNames label = true) (entered : Entered s label commit others) :
    commit.takesFreeName s.cluster = true := by
  cases entered with
  | client _ direct => cases commit <;> first | rfl | cases direct
  | handler index input frame _ there ready =>
    simpa only [takesFreeNames, there, Option.bind_some, ready, Option.all_some] using free

/-- The names are unique in the cluster and in its stored copy. -/
structure NamesHold (s : System) : Prop where
  memory : NamesUnique s.cluster
  stored : ∀ c, s.database.cluster = some c → NamesUnique c

theorem NamesHold.step {s t : System} {label : Label} (hold : s.NamesHold)
    (free : s.takesFreeNames label = true)
    (stepped : s.step label = some t) : t.NamesHold := by
  have kept (same : restarts label = false) (memory : NamesUnique t.cluster) : t.NamesHold := by
    refine ⟨memory, fun c saved => ?_⟩
    rcases step_saved stepped same with unchanged | ⟨_, _, _, _, _, now⟩
    · exact hold.stored c (unchanged ▸ saved)
    · obtain rfl := Option.some.inj (now.symm.trans saved)
      exact hold.memory.of_same rfl rfl
  cases step_cases stepped with
  | performed _ commit others result clear allowed entered ran =>
    refine kept ?_ (Commit.names ran hold.memory (takesFreeName_of_entered free entered))
    cases entered <;> rfl
  | admitted index execution secrets queue rest before database there stored =>
    refine kept rfl (hold.memory.of_same ?_ (admitExecution_environments execution queue s.cluster))
    exact congrArg Registry.images (Cluster.registry_admitExecution execution queue)
  | called index op rest before after next there plain done =>
    refine kept rfl ?_
    change NamesUnique next.cluster
    rw [(runOp_frame plain done).1]
    exact hold.memory
  | restarted fresh now cluster database fits served =>
    have stored : NamesUnique (s.database.cluster.getD Cluster.empty) := by
      cases saved : s.database.cluster with
      | none => exact namesUnique_empty
      | some c => exact hold.stored c saved
    have migrated := stored.migrateLegacy fresh (by
      simp only [takesFreeNames, List.all_eq_true, Bool.not_eq_true', Keyed.any_eq_false_iff,
        decide_eq_false_iff_not] at free
      exact free)
    simp only [serve, Option.map_eq_some_iff, Prod.mk.injEq] at served
    obtain ⟨pruned, done, rfl, rfl⟩ := served
    refine ⟨migrated.of_same rfl rfl, fun c saved => ?_⟩
    rw [show _ = _ from prune_cluster done] at saved
    obtain rfl := Option.some.inj saved
    exact migrated.of_same rfl rfl
  | rejected | pruned => exact kept rfl hold.memory
  | _ => exact ⟨hold.memory, hold.stored⟩

/-- From an empty cluster on, through any restarts: as long as every image and environment is filed under a name
that is still free, no two images and no two environments have the same name, and the lookup of an environment
by name has at most one match. -/
theorem names_unique {s t : System} (blank : Blank s)
    (run : Runs.Reaches System.step (fun s label => s.takesFreeNames label = true) s t) :
    (∀ id id' image image', t.cluster.images.get id = some image →
      t.cluster.images.get id' = some image' →
      image.name = image'.name → id = id') ∧
    (∀ id id' environment environment', t.cluster.environments.get id = some environment →
      t.cluster.environments.get id' = some environment' →
        environment.name = environment'.name → id = id') ∧
    ∀ name, (t.cluster.environments.values.filter (fun environment =>
      decide (environment.name = name))).length ≤ 1 := by
  have hold : t.NamesHold := by
    refine run.invariant (P := NamesHold) ⟨?_, fun c saved => ?_⟩
      (fun hold free stepped => hold.step free stepped)
    · rw [blank.empty]
      exact namesUnique_empty
    · rw [blank.unsaved] at saved
      cases saved
  exact ⟨hold.memory.images, hold.memory.environments, hold.memory.environments.filter_length⟩

omit [Crates] in
/-- Two environments of different names are created. -/
theorem names_unique_created : ∃ t : System, t.cluster.environments.values.length = 2 ∧
    ∀ name, (t.cluster.environments.values.filter (fun environment =>
      decide (environment.name = name))).length ≤ 1 := by
  obtain ⟨t, run, two⟩ := Runs.exists_reaches (@step Demo.crates)
    (fun s label => s.takesFreeNames label = true) Demo.empty
    (Demo.installation ++ Demo.creating ++
      [.checkEnvironment none { Demo.environmentRequest with name := "f" },
        .enter 0 (Demo.input 5)])
    (fun t => decide (t.cluster.environments.values.length = 2)) (by decide +kernel)
  exact ⟨t, of_decide_eq_true two, (@names_unique Demo.crates _ _ ⟨fresh_empty, rfl⟩ run).2.2⟩

omit [Crates] in
/-- Two requests for the same name are checked before either of them files its environment. -/
theorem name_taken_twice :
    ¬ ∀ [Crates] (s t : System), s.Blank → Runs.Reaches System.step (fun _ _ => True) s t →
      ∀ name, (t.cluster.environments.values.filter (fun environment =>
        decide (environment.name = name))).length ≤ 1 := by
  intro claim
  obtain ⟨t, run, twice⟩ := Runs.exists_reaches (@step Demo.crates) (fun _ _ => True) Demo.empty
    (Demo.installation ++ [.checkEnvironment none Demo.environmentRequest,
      .checkEnvironment none Demo.environmentRequest] ++
      (.enter 0 (Demo.input Demo.environment) :: Demo.finish 1 2) ++ [.enter 0 (Demo.input 5)])
    (fun t => decide (1 < (t.cluster.environments.values.filter (fun environment =>
      decide (environment.name = "e"))).length)) (by decide +kernel)
  have most := @claim Demo.crates _ _ ⟨fresh_empty, rfl⟩ run "e"
  exact absurd most (Nat.not_le.mpr (of_decide_eq_true twice))

end System
end Scraperack
