import Scraperack.Uniqueness

/-! What is on record about a node, but for the accounting of its capacity. The scheduler and the pools leave it
alone; it changes where the node itself reports, and where images, environments or nodes are managed. -/

namespace Scraperack

/-- The record of a node without the counters of its capacity. -/
def Node.profile (node : Node) : Node :=
  { node with usedCpuMillis := 0, usedMemoryMib := 0, idleInstances := ∅, clamped := false }

namespace Node

@[simp] theorem profile_occupy (node : Node)
    (pool : Pool) : (node.occupy pool).profile = node.profile := by
  unfold occupy
  split_ifs <;> rfl

@[simp] theorem profile_vacate (node : Node) (pool : Pool) (keepIdle : Bool) :
    (node.vacate pool keepIdle).profile = node.profile := by
  unfold vacate
  split_ifs <;> rfl

@[simp] theorem profile_addWarm (node : Node)
    (pool : Pool) : (node.addWarm pool).profile = node.profile := rfl
@[simp] theorem profile_removeIdle (node : Node)
    (pool : Pool) : (node.removeIdle pool).profile = node.profile := rfl
@[simp] theorem profile_forgetPool (node : Node)
    (pool : Pool) : (node.forgetPool pool).profile = node.profile := rfl

@[simp] theorem profile_resetIdle (node : Node) (pools : Keyed Pool.name) :
    (node.resetIdle pools).profile = node.profile := by
  have kept (entries : List (String × Nat)) (node : Node) :
      (entries.foldl (freeEntry pools) node).profile = node.profile := by
    induction entries generalizing node with
    | nil => rfl
    | cons entry rest ih =>
      rw [List.foldl_cons, ih, freeEntry]
      cases pools.get entry.1 <;> rfl
  exact kept _ _

end Node

namespace Cluster

def profiles (c : Cluster) (id : Uuid) : Option Node := (c.nodes.get id).map Node.profile

theorem profiles_map (c : Cluster) {f : Node → Node} (keeps : ∀ node, (f node).id = node.id)
    (same : ∀ node, (f node).profile = node.profile) :
    ({ c with nodes := c.nodes.map f keeps } : Cluster).profiles = c.profiles := by
  funext id
  simp only [profiles, Keyed.get_map, Option.map_map, Function.comp_def, same]

theorem profiles_adjust (c : Cluster) (id : Uuid) {f : Node → Node}
    (keeps : ∀ node, (f node).id = node.id)
    (same : ∀ node, (f node).profile = node.profile) :
    ({ c with nodes := c.nodes.adjust id f keeps } : Cluster).profiles = c.profiles := by
  refine c.profiles_map _ fun node => ?_
  split_ifs
  · exact same node
  · rfl

theorem profiles_release (c : Cluster) (id : Uuid)
    (keepIdle : Bool) : (c.release id keepIdle).profiles = c.profiles := by
  unfold release
  split
  · rfl
  · split
    · rfl
    · split
      · rfl
      · exact c.profiles_adjust _ _ (fun node => node.profile_vacate _ keepIdle)

theorem profiles_removePool (c : Cluster)
    (name : String) : (c.removePool name).profiles = c.profiles := by
  cases known : c.pools.get name with
  | none => rw [removePool_of_get_none known]
  | some pool =>
    rw [removePool_of_get known]
    exact c.profiles_map _ (fun node => node.profile_forgetPool pool)

theorem profiles_requeue (name : String) (c : Cluster)
    (id : Uuid) : (requeue name c id).profiles = c.profiles := by
  unfold requeue
  dsimp only
  split_ifs
  · exact c.profiles_release id false
  · rfl

theorem profiles_moved (name pool : String)
    (c : Cluster) : (moved name pool c).profiles = c.profiles := by
  have kept (ids : List Uuid) (d : Cluster) : (ids.foldl (requeue name) d).profiles =
    d.profiles := by
    induction ids generalizing d with
    | nil => rfl
    | cons id rest ih => rw [List.foldl_cons, ih, profiles_requeue]
  exact kept _ c

theorem profiles_place (c : Cluster) (execution : Execution) (pool : Pool) (node : Uuid) :
    (c.place execution pool node).profiles = c.profiles :=
  c.profiles_adjust node (fun node => node.occupy_id pool) (fun node => node.profile_occupy pool)

theorem profiles_scheduleQueued (c : Cluster) : c.scheduleQueued.1.profiles = c.profiles :=
  scheduleQueued_invariant (P := fun d => d.profiles = c.profiles) rfl
    (fun same _ _ => (profiles_place ..).trans same)

theorem profiles_scheduleIfChanged {c : Cluster} {changed : Option Cluster}
    (same : ∀ next, changed = some next → next.profiles = c.profiles) :
    (scheduleIfChanged c changed).cluster.profiles = c.profiles := by
  cases changed with
  | none => rfl
  | some next => exact (profiles_scheduleQueued next).trans (same next rfl)

theorem profiles_settle (fresh : Uuid) (environment : Environment) (c : Cluster) :
    (settle (restartEnvironmentPool fresh environment c)).cluster.profiles = c.profiles := by
  rcases restartEnvironmentPool_cases fresh environment c with
    ⟨old, known, running, same⟩ | ⟨unknown, running, same⟩ | ⟨quiet, same⟩
  · rw [same]
    exact (profiles_scheduleQueued _).trans (profiles_moved ..)
  · rw [same]
    exact profiles_moved ..
  · rw [same]
    exact (profiles_scheduleQueued _).trans ((profiles_removePool ..).trans (profiles_moved ..))

theorem profiles_cleaned (c : Cluster) (execution : Execution) (keepIdle : Bool) :
    (cleaned c execution keepIdle).profiles = c.profiles := by
  have finished : (c.finish execution.id keepIdle).profiles = c.profiles := profiles_release ..
  unfold cleaned
  split_ifs
  · rw [profiles_removePool, finished]
  · exact finished

theorem profiles_admitExecution {c : Cluster} (execution : Execution) (queue : Bool) :
    (admitExecution execution queue c).cluster.profiles = c.profiles := by
  unfold admitExecution
  dsimp only
  split
  · rename_i next scheduled
    obtain ⟨chosen, pool, node, -, -, rfl⟩ := schedule_cases scheduled
    exact profiles_place ..
  · split_ifs <;> rfl

/-! Changes of the records themselves. -/

section
variable (c : Cluster) (k : Uuid)

theorem profiles_mapped {f : Node → Node} (keeps : ∀ node, (f node).id = node.id)
    (commutes : ∀ node, (f node).profile = f node.profile) :
    ({ c with nodes := c.nodes.map f keeps } : Cluster).profiles k = (c.profiles k).map f := by
  simp only [profiles, Keyed.get_map, Option.map_map, Function.comp_def, commutes]

theorem profiles_adjusted (id : Uuid) {f : Node → Node} (keeps : ∀ node, (f node).id = node.id)
    (commutes : ∀ node, (f node).profile = f node.profile) :
    ({ c with nodes := c.nodes.adjust id f keeps } : Cluster).profiles k =
      if k = id then (c.profiles k).map f else c.profiles k := by
  simp only [profiles, Keyed.get_adjust]
  split_ifs
  · simp only [Option.map_map, Function.comp_def, commutes]
  · rfl

theorem profiles_insert (node : Node) :
    ({ c with nodes := c.nodes.insert node } : Cluster).profiles k =
      if k = node.id then some node.profile else c.profiles k := by
  simp only [profiles, Keyed.get_insert]
  split_ifs <;> rfl

end
end Cluster

/-- What `refresh_node` makes of the record of its node. -/
def Node.refreshed (images : Keyed Image.id) (node : Node) : Node :=
  { node with status := if images.all (fun image =>
    image.id ∈ node.images) then .ready else .syncing }

/-- What `register_node` makes of what is on record about the node. -/
def Cluster.registration (c : Cluster) (id : Uuid) (request : RegisterNode) (now : Nat) : Node :=
  (refreshRegistration request now ((c.profiles id).getD (newNode id request now))).refreshed
    c.images

/-- What a section does to the records of the nodes, and to the images that a node is to hold. -/
inductive Profiled (c next : Cluster) : Commit → Prop where
  | same {commit : Commit} (profiles : next.profiles = c.profiles)
      (images : next.images.contains = c.images.contains) : Profiled c next commit
  | imported (image : Image)
      (profiles : ∀ k, next.profiles k =
        (c.profiles k).map (fun node => { node with status := .syncing }))
      (images : next.images = c.images.insert image) : Profiled c next (.importImage image)
  | discarded (image : Uuid)
      (profiles : ∀ k, next.profiles k =
        (c.profiles k).map (fun node => { node with images := node.images.erase image }))
      (images : next.images = c.images.erase image) : Profiled c next (.deleteImage image)
  | forgotten (id : Uuid) (artifact : String)
      (profiles : ∀ k, next.profiles k =
        (c.profiles k).map (fun node =>
          { node with environments := node.environments.erase artifact }))
      (images : next.images = c.images) : Profiled c next (.deleteEnvironment id)
  | limited (id : Uuid) (concurrency : Nat)
      (profiles : ∀ k, next.profiles k = if k = id then (c.profiles k).map (fun node =>
        { node with vmStartConcurrency := some concurrency }) else c.profiles k)
      (images : next.images = c.images) : Profiled c next (.updateNode id concurrency)
  | deleted (id : Uuid) (profiles : ∀ k, next.profiles k = if k = id then none else c.profiles k)
      (images : next.images = c.images) : Profiled c next (.deleteNode id)
  | registered (id : Uuid) (request : RegisterNode) (now : Nat)
      (profiles : ∀ k, next.profiles k =
        if k = id then some (c.registration id request now) else c.profiles k)
      (images : next.images = c.images) : Profiled c next (.registerNode id request now)
  | imageReady (id image : Uuid) (known : c.images.contains image = true)
      (profiles : ∀ k, next.profiles k = if k = id then (c.profiles k).map (fun node =>
        ({ node with images := insert image node.images } : Node).refreshed c.images)
        else c.profiles k)
      (images : next.images = c.images) : Profiled c next (.imageReady id image)
  | environmentReady (id : Uuid) (artifact : String)
      (known : c.environments.any (fun environment =>
        decide (environment.artifact = some artifact)) = true)
      (profiles : ∀ k, next.profiles k = if k = id then (c.profiles k).map (fun node =>
        { node with environments := insert artifact node.environments }) else c.profiles k)
      (images : next.images = c.images) : Profiled c next (.environmentReady id artifact)

theorem updateImage_known {id : Uuid} {update : UpdateImage} {c : Cluster} {result : Section}
    (ran : updateImage id update c = .ok result) : c.images.contains id = true := by
  simp only [updateImage, bind_eq_ok_iff, require_eq_ok_iff, found_eq_ok_iff, exists_const] at ran
  obtain ⟨-, -, image, present, -⟩ := ran
  exact (Keyed.contains_iff _ _).mpr ⟨image, present⟩

theorem imageReady_known {id image : Uuid} {c : Cluster} {result : Section}
    (ran : imageReady id image c = .ok result) : c.images.contains image = true := by
  simp only [imageReady, bind_eq_ok_iff, require_eq_ok_iff, exists_const] at ran
  exact ran.1

theorem environmentReady_known {id : Uuid} {artifact : String} {c : Cluster} {result : Section}
    (ran : environmentReady id artifact c = .ok result) :
    c.environments.any (fun environment =>
      decide (environment.artifact = some artifact)) = true := by
  simp only [environmentReady, bind_eq_ok_iff, require_eq_ok_iff, exists_const] at ran
  exact ran.1

namespace Cluster

theorem profiles_refreshNode (c : Cluster) (id k : Uuid) : (c.refreshNode id).profiles k =
    if k = id then (c.profiles k).map (Node.refreshed c.images) else c.profiles k :=
  c.profiles_adjusted k id (f := Node.refreshed c.images) (fun _ => rfl) (fun _ => rfl)

theorem images_scheduleQueued (c : Cluster) : c.scheduleQueued.1.images = c.images :=
  congrArg Registry.images (registry_scheduleQueued c)

theorem profiles_registerNode (id : Uuid) (request : RegisterNode) (now : Nat) (c : Cluster)
    (k : Uuid) :
    (registerNode id request now c).cluster.profiles k =
      if k = id then some (c.registration id request now) else c.profiles k := by
  let node := refreshRegistration request now ((c.nodes.get id).getD (newNode id request now))
  let stored : Cluster := { c with nodes := c.nodes.insert node }
  let reset := if request.resetIdle then stored.resetIdleInstances id else stored
  have own : node.id = id := registration_id id request now c
  have kept : reset.profiles = stored.profiles ∧ reset.images = c.images := by
    simp only [reset]
    split_ifs
    · exact ⟨stored.profiles_adjust id _ (fun node => node.profile_resetIdle _), rfl⟩
    · exact ⟨rfl, rfl⟩
  have record : node.profile =
      refreshRegistration request now ((c.profiles id).getD (newNode id request now)) := by
    simp only [node, profiles]
    cases c.nodes.get id <;> rfl
  have refreshed := reset.profiles_refreshNode id k
  rw [kept.1, kept.2, profiles_insert, own] at refreshed
  refine (congrFun (profiles_scheduleQueued _) k).trans (refreshed.trans ?_)
  split_ifs
  · rw [record]
    rfl
  · rfl

theorem profiles_forgetArtifact (c : Cluster) (artifact : String) (k : Uuid) :
    (forgetArtifact c (some artifact)).profiles k = (c.profiles k).map (fun node =>
      { node with environments := node.environments.erase artifact }) :=
  c.profiles_mapped k _ (fun _ => rfl)

end Cluster

open Cluster in
theorem Commit.profiled [Crates] {c : Cluster} {commit : Commit} {result : Section}
    (ran : commit.run c = .ok result) : Profiled c result.cluster commit := by
  have same (profiles : result.cluster.profiles = c.profiles)
      (images : result.cluster.images = c.images) : Profiled c result.cluster commit :=
    .same profiles (congrArg _ images)
  cases commit with
  | importImage image =>
    obtain rfl := Except.ok.inj ran
    exact .imported image (fun k => c.profiles_mapped k _ (fun _ => rfl)) rfl
  | updateImage id update =>
    have known := updateImage_known ran
    obtain ⟨image, rfl, rfl⟩ := updateImage_eq_ok ran
    refine .same rfl ?_
    funext k
    change (c.images.insert image).contains k = c.images.contains k
    rw [Keyed.contains_insert]
    by_cases own : k = image.id <;> simp [own, known]
  | deleteImage id =>
    obtain ⟨-, -, rfl⟩ := deleteImage_eq_ok ran
    exact .discarded id (fun k => c.profiles_mapped k _ (fun _ => rfl)) rfl
  | createPool pool =>
    obtain ⟨-, -, -, rfl⟩ := createPool_eq_ok ran
    exact same rfl rfl
  | deletePool name =>
    obtain ⟨-, rfl⟩ := deletePool_eq_ok ran
    exact same (profiles_removePool ..) (congrArg Registry.images (registry_removePool ..))
  | createEnvironment id request image artifact =>
    obtain rfl := Except.ok.inj ran
    exact same rfl rfl
  | updateEnvironment freshId id request old image artifact =>
    obtain rfl := Except.ok.inj ran
    rw [updateEnvironment_eq] at same ⊢
    split_ifs at same ⊢
    · exact same (profiles_settle ..) (congrArg Registry.images (registry_settle ..))
    · exact same (profiles_scheduleQueued _) (images_scheduleQueued _)
  | restartEnvironment freshId id =>
    obtain ⟨environment, -, rfl⟩ := restartEnvironment_eq_ok ran
    exact same (profiles_settle ..) (congrArg Registry.images (registry_settle ..))
  | deleteEnvironment id =>
    obtain ⟨environment, -, -, rfl⟩ := deleteEnvironment_eq_ok ran
    have removed : (withoutEnvironment c environment).profiles = c.profiles :=
      profiles_removePool ..
    have kept : (withoutEnvironment c environment).images = c.images :=
      congrArg Registry.images (registry_removePool ..)
    cases orphaned : orphanedArtifact (withoutEnvironment c environment) environment with
    | none =>
      rw [orphaned] at same
      exact same removed kept
    | some artifact =>
      refine .forgotten id artifact (fun k => ?_) kept
      rw [profiles_forgetArtifact, removed]
  | createJoinToken id tokenHash now =>
    obtain rfl := Except.ok.inj ran
    exact same rfl rfl
  | joinCluster node tokenHash credentialHash now =>
    obtain ⟨token, -, rfl⟩ := joinCluster_eq_ok ran
    exact same rfl rfl
  | localJoin node credentialHash =>
    obtain rfl := Except.ok.inj ran
    exact same rfl rfl
  | updateNode id concurrency =>
    obtain ⟨node, present, rfl⟩ := updateNode_eq_ok ran
    have own : node.id = id := Keyed.key_of_get present
    refine .limited id concurrency (fun k => (c.profiles_insert k _).trans ?_) rfl
    by_cases here : k = id
    · rw [if_pos (here.trans own.symm), if_pos here, here, profiles, present]
      rfl
    · rw [if_neg (fun equal => here (equal.trans own)), if_neg here]
  | deleteNode id =>
    obtain ⟨-, rfl⟩ := deleteNode_eq_ok ran
    refine .deleted id (fun k => (congrFun (profiles_scheduleQueued _) k).trans ?_)
      (images_scheduleQueued _)
    simp only [profiles, Keyed.get_erase]
    split_ifs <;> rfl
  | registerNode id request now =>
    obtain rfl := Except.ok.inj ran
    refine .registered id request now (profiles_registerNode id request now c)
      ((images_scheduleQueued _).trans ?_)
    split_ifs <;> rfl
  | imageReady id image =>
    have known := imageReady_known ran
    obtain rfl := imageReady_eq_ok ran
    refine .imageReady id image known
      (fun k => (congrFun (profiles_scheduleQueued _) k).trans ?_) (images_scheduleQueued _)
    have stored := c.profiles_adjusted k id
      (f := fun node => { node with images := insert image node.images })
      (fun _ => rfl) (fun _ => rfl)
    rw [profiles_refreshNode, stored]
    split_ifs
    · rw [Option.map_map]
      rfl
    · rfl
  | environmentReady id artifact =>
    have known := environmentReady_known ran
    obtain rfl := environmentReady_eq_ok ran
    refine .environmentReady id artifact known
      (fun k => (congrFun (profiles_scheduleQueued _) k).trans ?_) (images_scheduleQueued _)
    exact c.profiles_adjusted k id _ (fun _ => rfl)
  | addWarmInstance id pool =>
    obtain rfl := Except.ok.inj ran
    refine same (profiles_scheduleIfChanged fun next added => ?_)
      (congrArg Registry.images (registry_scheduleIfChanged fun next added => ?_)) <;>
      obtain ⟨_, _, _, _, _, _, rfl⟩ := Cluster.addWarmInstance_eq_some added
    · exact c.profiles_adjust _ _ (fun node => node.profile_addWarm _)
    · exact c.registry_adjust _ _ _
  | removeIdleInstance id pool =>
    obtain rfl := Except.ok.inj ran
    refine same (profiles_scheduleIfChanged fun next removed => ?_)
      (congrArg Registry.images (registry_scheduleIfChanged fun next removed => ?_)) <;>
      obtain ⟨_, _, _, _, _, rfl⟩ := Cluster.removeIdleInstance_eq_some removed
    · exact c.profiles_adjust _ _ (fun node => node.profile_removeIdle _)
    · exact c.registry_adjust _ _ _
  | createExecution id request secrets now =>
    rcases createExecution_eq_ok ran with rfl | ⟨_, _, _, _, _, rfl⟩ <;> exact same rfl rfl
  | nextWork id choice now =>
    rcases nextWork_eq_ok ran with rfl | ⟨execution, rfl, -,
      ⟨-, rfl⟩ | ⟨pool, -, rfl⟩⟩ <;> exact same rfl rfl
  | completeExecution node id request now =>
    obtain ⟨execution, -, -, rfl⟩ := completeExecution_eq_ok ran
    exact same ((profiles_scheduleQueued _).trans (profiles_cleaned ..))
      (congrArg Registry.images ((registry_scheduleQueued _).trans (registry_cleaned ..)))

end Scraperack
