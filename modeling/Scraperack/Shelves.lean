import Scraperack.Profiles
import Scraperack.Reload

/-! The artifacts that nodes are on record as holding. A node keeps on its disk the artifacts of the environments
it is told about, so a record of any other artifact is out of date. -/

namespace Scraperack

/-- The artifacts that the node reported ready. -/
def Cluster.shelf (c : Cluster) (id : Uuid) : Finset String :=
  ((c.nodes.get id).map Node.environments).getD ∅

theorem Cluster.shelf_eq (c : Cluster) (id : Uuid) :
    c.shelf id = ((c.profiles id).map Node.environments).getD ∅ := by
  simp only [shelf, profiles, Option.map_map]
  rfl

theorem Cluster.shelf_of_profiles {c d : Cluster} (same : d.profiles = c.profiles)
    (id : Uuid) : d.shelf id = c.shelf id := by
  rw [shelf_eq, same, ← shelf_eq]

/-- The shelf after a change of a record that leaves it with no more than it had. -/
theorem Cluster.shelf_mapped_subset {c next : Cluster} {k : Uuid} {f : Node → Node}
    (profile : next.profiles k = (c.profiles k).map f) {held : Finset String}
    (within : ∀ node, c.profiles k = some node → (f node).environments ⊆ held) :
    next.shelf k ⊆ held := by
  rw [shelf_eq, profile]
  cases there : c.profiles k with
  | none => exact Finset.empty_subset _
  | some node => exact within node there

theorem forgetArtifact_gone (c : Cluster) (artifact : String) (node : Uuid) :
    artifact ∉ (forgetArtifact c (some artifact)).shelf node := by
  unfold forgetArtifact Cluster.shelf
  rw [Keyed.get_map]
  cases c.nodes.get node with
  | none => exact Finset.notMem_empty _
  | some record => exact Finset.notMem_erase _ _

/-- What a section does to the shelves. -/
inductive Shelved (c next : Cluster) : Commit → Prop where
  | fewer {commit : Commit} (within : ∀ node,
      next.shelf node ⊆ c.shelf node) : Shelved c next commit
  | readied (id : Uuid) (artifact : String)
      (known : c.environments.any (fun environment =>
        decide (environment.artifact = some artifact)) = true)
      (within : ∀ node, next.shelf node ⊆ insert artifact (c.shelf node)) : Shelved c next
        (.environmentReady id artifact)

open Cluster in
theorem Commit.shelved [Crates] {c : Cluster} {commit : Commit} {result : Section}
    (ran : commit.run c = .ok result) :
    Shelved c result.cluster commit := by
  have own {k : Uuid} {node : Node} (there : c.profiles k = some node) :
      node.environments = c.shelf k := by
    rw [shelf_eq, there]
    rfl
  have unchanged {k : Uuid} (profile : result.cluster.profiles k = c.profiles k) :
      result.cluster.shelf k = c.shelf k := by
    rw [shelf_eq, profile, ← shelf_eq]
  cases Commit.profiled ran with
  | same profiles => exact .fewer fun k => (unchanged (congrFun profiles k)).subset
  | imported image profiles =>
    exact .fewer fun k => shelf_mapped_subset (profiles k) fun node there => (own there).subset
  | discarded image profiles =>
    exact .fewer fun k => shelf_mapped_subset (profiles k) fun node there => (own there).subset
  | forgotten id artifact profiles =>
    exact .fewer fun k => shelf_mapped_subset (profiles k) fun node there =>
      (Finset.erase_subset _ _).trans (own there).subset
  | limited id concurrency profiles =>
    refine .fewer fun k => ?_
    have profile := profiles k
    split_ifs at profile
    · exact shelf_mapped_subset profile fun node there => (own there).subset
    · exact (unchanged profile).subset
  | deleted id profiles =>
    refine .fewer fun k => ?_
    have profile := profiles k
    split_ifs at profile
    · rw [shelf_eq, profile]
      exact Finset.empty_subset _
    · exact (unchanged profile).subset
  | registered id request now profiles =>
    refine .fewer fun k => ?_
    have profile := profiles k
    split_ifs at profile with here
    · subst here
      rw [shelf_eq, profile, shelf_eq, registration]
      cases c.profiles k with
      | none => exact Finset.empty_subset _
      | some node => exact subset_rfl
    · exact (unchanged profile).subset
  | imageReady id image known profiles =>
    refine .fewer fun k => ?_
    have profile := profiles k
    split_ifs at profile
    · exact shelf_mapped_subset profile fun node there => (own there).subset
    · exact (unchanged profile).subset
  | environmentReady id artifact known profiles =>
    refine .readied id artifact known fun k => ?_
    have profile := profiles k
    split_ifs at profile
    · exact shelf_mapped_subset profile fun node there =>
        Finset.insert_subset_insert artifact (own there).subset
    · exact (unchanged profile).subset.trans (Finset.subset_insert _ _)

/-- The artifacts on the shelves are those of environments. -/
def Stocked (c : Cluster) : Prop :=
  ∀ node artifact, artifact ∈ c.shelf node →
    ∃ id environment, c.environments.get id = some environment ∧
      environment.artifact = some artifact

/-- An update leaves the environment its artifact, or another environment has it as well, or no node does. -/
def Commit.keepsShelves (c : Cluster) : Commit → Bool
  | .updateEnvironment _ id _ _ _ artifact =>
    ((c.environments.get id).bind Environment.artifact).all (fun old =>
      decide (artifact.key = some old) ||
        c.environments.any (fun other => decide (other.id ≠ id) &&
          decide (other.artifact = some old)) ||
        c.nodes.all (fun node => decide (old ∉ node.environments)))
  | _ => true

section
variable [Crates] {c : Cluster} {commit : Commit} {result : Section}

/-- An artifact that an environment had before the section and that is still on a shelf. -/
theorem Commit.stocked_before (ran : commit.run c = .ok result)
    (keeps : commit.keepsShelves c = true)
    (new : ∀ id request image artifact, commit = .createEnvironment id request image artifact →
      c.environments.get id = none)
    {node id : Uuid} {artifact : String} {environment : Environment}
    (held : artifact ∈ result.cluster.shelf node)
    (before : artifact ∈ c.shelf node) (present : c.environments.get id = some environment)
    (has : environment.artifact = some artifact) :
    ∃ id environment, result.cluster.environments.get id = some environment ∧
      environment.artifact = some artifact := by
  cases Commit.rewritten ran with
  | same kept => exact ⟨id, environment, by rw [kept]; exact present, has⟩
  | created fresh request image built pool put =>
    have other : id ≠ fresh := by
      rintro rfl
      rw [new id request image built rfl] at present
      cases present
    exact ⟨id, environment, by rw [put]; exact (Keyed.get_insert_ne _ other).trans present, has⟩
  | updated fresh target request old image built pool put =>
    have stays {k : Uuid} {other : Environment} (there : c.environments.get k = some other)
      (differs : k ≠ target) :
        result.cluster.environments.get k = some other := by
      rw [put]
      exact (Keyed.get_insert_ne _ differs).trans there
    by_cases same : id = target
    · subst same
      simp only [keepsShelves, present, Option.bind_some, has, Option.all_some, Bool.or_eq_true,
        decide_eq_true_eq] at keeps
      rcases keeps with (again | shared) | unused
      · refine ⟨id, requestedEnvironment id request image.id built pool, ?_, again⟩
        rw [put]
        exact Keyed.get_insert_self c.environments
          (requestedEnvironment id request image.id built pool)
      · obtain ⟨k, other, there, also⟩ := (Keyed.any_iff _ _).mp shared
        simp only [Bool.and_eq_true, decide_eq_true_eq] at also
        exact ⟨k, other, stays there (Keyed.key_of_get there ▸ also.1), also.2⟩
      · unfold Cluster.shelf at before
        cases there : c.nodes.get node with
        | none => simp [there] at before
        | some record =>
          have absent := of_decide_eq_true ((Keyed.all_iff _ _).mp unused node record there)
          rw [there] at before
          exact absurd before absent
    · exact ⟨id, environment, stays present same, has⟩
  | restarted fresh target old pool there put =>
    by_cases same : id = target
    · subst same
      obtain rfl := Option.some.inj (present.symm.trans there)
      have own : environment.id = id := Keyed.key_of_get present
      refine ⟨id, { environment with pool := pool }, ?_, has⟩
      have self := Keyed.get_insert_self c.environments { environment with pool := pool }
      rw [put]
      exact own ▸ self
    · refine ⟨id, environment, ?_, has⟩
      have own : old.id = target := Keyed.key_of_get there
      have other : id ≠ ({ old with pool := pool } : Environment).id :=
        fun equal => same (equal.trans own)
      rw [put]
      exact (Keyed.get_insert_ne c.environments other).trans present
  | deleted target old there gone =>
    have own : old.id = target := Keyed.key_of_get there
    by_cases same : id = target
    · subst same
      obtain rfl := Option.some.inj (present.symm.trans there)
      obtain ⟨_, again, -, rfl⟩ := deleteEnvironment_eq_ok ran
      obtain rfl := Option.some.inj (present.symm.trans again)
      by_cases shared : (withoutEnvironment c environment).environments.any (fun other =>
          decide (other.artifact = some artifact)) = true
      · obtain ⟨k, other, left, also⟩ := (Keyed.any_iff _ _).mp shared
        refine ⟨k, other, ?_, of_decide_eq_true also⟩
        rw [gone]
        exact (congrArg (fun t => Keyed.get t k) (Cluster.removePool_environments ..)).symm.trans
          left
      · have orphan : orphanedArtifact (withoutEnvironment c environment) environment =
          some artifact := by
          rw [orphanedArtifact, has, Option.filter_some, if_pos (by simpa using shared)]
        rw [orphan] at held
        exact absurd held (forgetArtifact_gone _ artifact node)
    · refine ⟨id, environment, ?_, has⟩
      rw [gone]
      exact (Keyed.get_erase_ne _ (fun equal => same (equal.trans own))).trans present

theorem Commit.stocked (ran : commit.run c = .ok result) (stocked : Stocked c)
    (keeps : commit.keepsShelves c = true)
    (new : ∀ id request image artifact, commit = .createEnvironment id request image artifact →
      c.environments.get id = none) : Stocked result.cluster := by
  intro node artifact held
  cases Commit.shelved ran with
  | fewer within =>
    have before := within node held
    obtain ⟨id, environment, present, has⟩ := stocked node artifact before
    exact Commit.stocked_before ran keeps new held before present has
  | readied id reported known within =>
    have kept : result.cluster.environments = c.environments := by
      cases Commit.rewritten ran with
      | same kept => exact kept
    rw [kept]
    rcases Finset.mem_insert.mp (within node held) with rfl | before
    · obtain ⟨k, environment, present, has⟩ := (Keyed.any_iff _ _).mp known
      exact ⟨k, environment, present, of_decide_eq_true has⟩
    · exact stocked node artifact before

end

theorem Stocked.of_same {c next : Cluster} (stocked : Stocked c)
    (profiles : next.profiles = c.profiles)
    (environments : next.environments = c.environments) : Stocked next := by
  intro node artifact held
  rw [Cluster.shelf_of_profiles profiles] at held
  rw [environments]
  exact stocked node artifact held

/-- The conversion of the legacy pools adds environments and takes none away. -/
theorem System.migrateLegacy_grows (fresh : String → Uuid) (c : Cluster)
    (new : ∀ pool ∈ System.legacyPools c, c.environments.get (fresh pool.name) = none) :
    ∀ id environment, c.environments.get id = some environment →
      (System.migrateLegacy fresh c).environments.get id = some environment := by
  intro id environment present
  have folded (pools : List Pool) (d : Cluster) (others : ∀ pool ∈ pools, id ≠ fresh pool.name)
      (there : d.environments.get id = some environment) :
      (pools.foldl (System.migratePool fresh) d).environments.get id = some environment := by
    induction pools generalizing d with
    | nil => exact there
    | cons pool rest ih =>
      refine ih _ (fun other member => others other (List.mem_cons_of_mem _ member)) ?_
      exact (Keyed.get_insert_ne d.environments (others pool List.mem_cons_self)).trans there
  refine folded _ c (fun pool member same => ?_) present
  rw [same, new pool member] at present
  cases present

theorem System.migrateLegacy_listed (fresh : String → Uuid) (c : Cluster) {id : Uuid}
    (known : (System.migrateLegacy fresh c).environments.contains id = true) :
    id ∈ (System.legacyPools c).map (fun pool => fresh pool.name) ∨
      c.environments.contains id = true := by
  have folded (pools : List Pool) (d : Cluster)
      (known : (pools.foldl (System.migratePool fresh) d).environments.contains id = true) :
      id ∈ pools.map (fun pool => fresh pool.name) ∨ d.environments.contains id = true := by
    induction pools generalizing d with
    | nil => exact .inr known
    | cons pool rest ih =>
      rcases ih _ known with later | listed
      · exact .inl (List.mem_cons_of_mem _ later)
      · change (d.environments.insert (System.migratedEnvironment (fresh pool.name) pool)).contains
          id = true at listed
        rw [Keyed.contains_insert, Bool.or_eq_true, decide_eq_true_eq] at listed
        rcases listed with rfl | listed
        · exact .inl List.mem_cons_self
        · exact .inr listed
  exact folded _ c known

theorem System.migrateLegacy_profiles (fresh : String → Uuid) (c : Cluster) :
    (System.migrateLegacy fresh c).profiles = c.profiles := by
  funext id
  exact congrArg (fun nodes => (Keyed.get nodes id).map Node.profile)
    (System.migrateLegacy_sizes fresh c).nodes

namespace System

/-- What the step writes keeps the shelves. -/
def keepsShelves (s : System) : Label → Bool
  | .enter index input => ((s.inflight[index]?).bind (Frame.commit input)).all
      (Commit.keepsShelves s.cluster)
  | _ => true

theorem stocked_empty : Stocked Cluster.empty := by
  intro node artifact held
  cases held

variable [Crates]

omit [Crates] in
theorem keepsShelves_of_entered {s : System} {label : Label} {commit : Commit} {others : List Frame}
    (keeps : s.keepsShelves label = true) (entered : Entered s label commit others) :
    commit.keepsShelves s.cluster = true := by
  cases entered with
  | client _ direct => cases commit <;> first | rfl | cases direct
  | handler index input frame _ there ready =>
    simpa only [keepsShelves, there, Option.bind_some, ready, Option.all_some] using keeps

/-- The shelves hold artifacts of environments in the cluster and in its stored copy. The identifiers of all
environments, those that jobs have read included, are issued ones. -/
structure ShelvesHold (s : System) : Prop where
  memory : Stocked s.cluster
  stored : ∀ c, s.database.cluster = some c → Stocked c
  issued : ∀ id, s.cluster.environments.contains id = true → id ∈ s.issued
  issuedStored : ∀ c, s.database.cluster = some c →
    ∀ id, c.environments.contains id = true → id ∈ s.issued
  jobs : ∀ job, Frame.environment job ∈ s.inflight → ∀ old, job.old = some old → old.id ∈ s.issued

theorem ShelvesHold.jobs_step {s t : System} {label : Label} (hold : s.ShelvesHold)
    (stepped : s.step label = some t) :
    ∀ job, Frame.environment job ∈ t.inflight → ∀ old, job.old = some old → old.id ∈ t.issued := by
  intro job member old copy
  refine issued_mono stepped ?_
  cases frame_cases stepped member with
  | stayed _ before => exact hold.jobs job before old copy
  | started id request _ checked =>
    exact hold.issued old.id ((Keyed.contains_iff _ _).mpr ⟨old, (startJob_old checked copy).2⟩)
  | prepared event before _ files inside done =>
    exact hold.jobs before inside old ((prepareJob_old done).symm.trans copy)

theorem ShelvesHold.issued_step {s t : System} {label : Label} (hold : s.ShelvesHold)
    (stepped : s.step label = some t)
    (same : restarts label = false) : ∀ id, t.cluster.environments.contains id = true →
      id ∈ t.issued := by
  intro id known
  cases step_cases stepped with
  | performed _ commit others result free allowed entered ran =>
    change result.cluster.environments.contains id = true at known
    refine List.mem_append.mpr ?_
    cases Commit.rewritten ran with
    | same kept => exact .inr (hold.issued id (kept ▸ known))
    | created fresh request image built pool put =>
      rw [put, Keyed.contains_insert, Bool.or_eq_true, decide_eq_true_eq] at known
      rcases known with rfl | known
      · exact .inl List.mem_cons_self
      · exact .inr (hold.issued id known)
    | updated fresh target request old image built pool put =>
      obtain ⟨rfl, member⟩ := entered.job
      rw [put, Keyed.contains_insert, Bool.or_eq_true, decide_eq_true_eq] at known
      rcases known with rfl | known
      · exact .inr (hold.jobs _ member old rfl)
      · exact .inr (hold.issued id known)
    | restarted fresh target old pool there put =>
      rw [put, Keyed.contains_insert, Bool.or_eq_true, decide_eq_true_eq] at known
      rcases known with rfl | known
      · exact .inr (hold.issued old.id ((Keyed.contains_iff _ _).mpr ⟨old, Keyed.get_congr there⟩))
      · exact .inr (hold.issued id known)
    | deleted target old there gone =>
      rw [gone, Keyed.contains_erase, Bool.and_eq_true] at known
      exact .inr (hold.issued id known.2)
  | admitted index execution secrets queue rest before database there stored =>
    exact hold.issued id (admitExecution_environments execution queue s.cluster ▸ known)
  | called index op rest before after next there plain done =>
    obtain ⟨same, kept, -⟩ := runOp_frame plain done
    change next.cluster.environments.contains id = true at known
    rw [same] at known
    exact kept ▸ hold.issued id known
  | declined => exact List.mem_append_right _ (hold.issued id known)
  | restarted => cases same
  | _ => exact hold.issued id known

theorem ShelvesHold.step {s t : System} {label : Label} (hold : s.ShelvesHold)
    (keeps : s.keepsShelves label = true)
    (stepped : s.step label = some t) : t.ShelvesHold := by
  have kept (same : restarts label = false) (memory : Stocked t.cluster) : t.ShelvesHold := by
    refine ⟨memory, fun c saved => ?_, hold.issued_step stepped same, fun c saved id known => ?_,
      hold.jobs_step stepped⟩
    · rcases step_saved stepped same with unchanged | ⟨_, _, _, _, _, now⟩
      · exact hold.stored c (unchanged ▸ saved)
      · obtain rfl := Option.some.inj (now.symm.trans saved)
        exact hold.memory.of_same rfl rfl
    · rcases step_saved stepped same with unchanged | ⟨_, _, _, _, _, now⟩
      · exact issued_mono stepped (hold.issuedStored c (unchanged ▸ saved) id known)
      · obtain rfl := Option.some.inj (now.symm.trans saved)
        exact issued_mono stepped (hold.issued id known)
  cases step_cases stepped with
  | performed _ commit others result clear allowed entered ran =>
    refine kept (by cases entered <;> rfl) ?_
    refine Commit.stocked ran hold.memory
      (keepsShelves_of_entered keeps entered) fun id request image artifact creates => ?_
    subst creates
    -- A generated identifier is not that of a known environment.
    by_contra known
    have issued := hold.issued id (Option.isSome_iff_ne_none.mpr known)
    simp [allows, Commit.issues, issued] at allowed
  | admitted index execution secrets queue rest before database there stored =>
    exact kept rfl (hold.memory.of_same (Cluster.profiles_admitExecution execution queue)
      (admitExecution_environments execution queue s.cluster))
  | called index op rest before after next there plain done =>
    refine kept rfl ?_
    change Stocked next.cluster
    rw [(runOp_frame plain done).1]
    exact hold.memory
  | restarted fresh now cluster database fits served =>
    simp only [serve, Option.map_eq_some_iff, Prod.mk.injEq, Option.getD_none] at served
    obtain ⟨pruned, done, rfl, rfl⟩ := served
    have loaded : Stocked (s.database.cluster.getD Cluster.empty) ∧
        ∀ id, (s.database.cluster.getD Cluster.empty).environments.contains id = true →
          id ∈ s.issued := by
      cases saved : s.database.cluster with
      | none => exact ⟨stocked_empty, fun id known => (by cases known)⟩
      | some c => exact ⟨hold.stored c saved, hold.issuedStored c saved⟩
    simp only [freshFits, Bool.and_eq_true, List.all_eq_true, List.mem_map,
      decide_eq_true_eq] at fits
    have new (pool : Pool) (legacy : pool ∈ legacyPools (s.database.cluster.getD Cluster.empty)) :
        (s.database.cluster.getD Cluster.empty).environments.get (fresh pool.name) = none := by
      by_contra known
      exact fits.2 _ ⟨pool, legacy, rfl⟩ (loaded.2 _ (Option.isSome_iff_ne_none.mpr known))
    have migrated : Stocked (migrateLegacy fresh (s.database.cluster.getD Cluster.empty)) := by
      intro node artifact held
      rw [Cluster.shelf_of_profiles (migrateLegacy_profiles ..)] at held
      obtain ⟨id, environment, present, has⟩ := loaded.1 node artifact held
      exact ⟨id, environment, migrateLegacy_grows fresh _ new id environment present, has⟩
    have listed (id : Uuid)
        (known : (migrateLegacy fresh (s.database.cluster.getD Cluster.empty)).environments.contains
          id = true) :
        id ∈ (legacyPools (s.database.cluster.getD Cluster.empty)).map
          (fun pool => fresh pool.name) ++ s.issued := by
      exact List.mem_append.mpr ((migrateLegacy_listed fresh _ known).imp_right (loaded.2 id))
    have again := prune_cluster done
    refine ⟨migrated.of_same rfl rfl, fun c saved => ?_, listed, fun c saved id known => ?_,
      hold.jobs_step stepped⟩
    · rw [again] at saved
      obtain rfl := Option.some.inj saved
      exact migrated.of_same rfl rfl
    · rw [again] at saved
      obtain rfl := Option.some.inj saved
      exact listed id known
  | declined _ commit others error entered => exact kept (by cases entered <;> rfl) hold.memory
  | prepared | started => exact kept rfl hold.memory
  | rejected | pruned | authenticated | importing | answered | failed | ignored | uploaded | settings =>
    exact kept rfl hold.memory
  | refused _ others error fewer =>
    exact ⟨hold.memory, hold.stored, hold.issued, hold.issuedStored, hold.jobs_step stepped⟩

/-- From an empty cluster on, through any restarts: as long as every update of an environment keeps its artifact,
or leaves it to another environment or on no node, every artifact that a node is on record as having ready is that
of some environment. -/
theorem shelves_current {s t : System} (blank : Blank s)
    (run : Runs.Reaches System.step (fun s label => s.keepsShelves label = true) s t) :
    ∀ id node artifact, t.cluster.nodes.get id = some node → artifact ∈ node.environments →
      ∃ environment ∈ t.cluster.environments.values, environment.artifact = some artifact := by
  have hold : t.ShelvesHold := by
    refine run.invariant (P := ShelvesHold)
      ⟨?_, fun c saved => ?_, fun id known => ?_, fun c saved => ?_, fun job member => ?_⟩
      (fun hold keeps stepped => hold.step keeps stepped)
    · rw [blank.empty]
      exact stocked_empty
    · rw [blank.unsaved] at saved
      cases saved
    · rw [blank.empty] at known
      cases known
    · rw [blank.unsaved] at saved
      cases saved
    · rw [blank.quiet] at member
      cases member
  intro id node artifact present held
  have shelved : artifact ∈ t.cluster.shelf id := by
    rw [Cluster.shelf, present]
    exact held
  obtain ⟨key, environment, there, has⟩ := hold.memory id artifact shelved
  exact ⟨environment, Keyed.mem_of_get there, has⟩

end System

namespace Demo

def artifact : String := @System.environmentKey crates runtimeImage.sha256 ["requests"]

/-- The node has the artifact of the environment. -/
def shelving : List Label := packaging ++ nodeRequest 0 (.environmentReady artifact) 3

/-- The environment is given other packages. -/
def repackaging : List Label :=
  shelving ++ [.checkEnvironment (some environment)
    { environmentRequest with packages := ["numpy"] }, .prepare 0 .look] ++
    building 0 [2] ++ [.enter 0 (input 0x60000000000000000000000000000000)]

end Demo

namespace System

/-- A node has the artifact of an environment, which is updated to the packages it has. -/
theorem shelves_current_updated : ∃ t : System, ∃ node, t.cluster.nodes.get Demo.node = some node ∧
    Demo.artifact ∈ node.environments ∧
    ∃ environment ∈ t.cluster.environments.values, environment.artifact = some Demo.artifact := by
  obtain ⟨t, run, held⟩ := Runs.exists_reaches (@step Demo.crates)
    (fun s label => s.keepsShelves label = true) Demo.empty
    (Demo.shelving ++ [.checkEnvironment (some Demo.environment) (Demo.packaged "f"),
      .enter 0 (Demo.input 0x60000000000000000000000000000000)])
    (fun t => (t.cluster.nodes.get Demo.node).any (fun node : Node =>
      decide (Demo.artifact ∈ node.environments)))
    (by decide +kernel)
  obtain ⟨node, present, held⟩ := (Option.any_eq_true _ _).mp held
  exact ⟨t, node, present, of_decide_eq_true held,
    @shelves_current Demo.crates _ _ ⟨fresh_empty, rfl⟩ run _ node _ present
      (of_decide_eq_true held)⟩

/-- After an environment is given other packages, the node is still on record as having the former artifact. -/
theorem artifact_outdated :
    ¬ ∀ [Crates] (s t : System), s.Blank → Runs.Reaches System.step (fun _ _ => True) s t →
      ∀ id node artifact, t.cluster.nodes.get id = some node → artifact ∈ node.environments →
        ∃ environment ∈ t.cluster.environments.values, environment.artifact = some artifact := by
  intro claim
  obtain ⟨t, run, shape⟩ := Runs.exists_reaches (@step Demo.crates)
    (fun _ _ => True) Demo.empty Demo.repackaging
    (fun t => (t.cluster.nodes.get Demo.node).any (fun node : Node =>
      decide (Demo.artifact ∈ node.environments)) &&
      !t.cluster.environments.any (fun environment =>
        decide (environment.artifact = some Demo.artifact)))
    (by decide +kernel)
  simp only [Bool.and_eq_true, Option.any_eq_true, decide_eq_true_eq, Bool.not_eq_true',
    Keyed.any_eq_false_iff,
    decide_eq_false_iff_not] at shape
  obtain ⟨⟨node, present, held⟩, nobody⟩ := shape
  obtain ⟨environment, member, has⟩ :=
    @claim Demo.crates _ _ ⟨fresh_empty, rfl⟩ run Demo.node node Demo.artifact present held
  exact nobody _ environment ((Keyed.mem_values_iff _ _).mp member) has

end System
end Scraperack
