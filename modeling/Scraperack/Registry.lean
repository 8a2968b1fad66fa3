import Scraperack.Control

/-! What the controller has on file: images, join tokens, credentials and the nodes it knows.
Schedulers and pools do not touch it; a few sections do, each in one way. -/

namespace Scraperack

structure Registry where
  images : Keyed Image.id
  joinTokens : Keyed JoinToken.id
  nodeCredentials : Keyed.Table Uuid String
  nodes : Uuid → Bool

namespace Cluster

/-- What a cluster has on file. -/
def registry (c : Cluster) : Registry :=
  ⟨c.images, c.joinTokens, c.nodeCredentials, c.nodes.contains⟩

theorem registry_of_nodes (c : Cluster) {nodes : Keyed Node.id}
    (same : ∀ id, nodes.contains id = c.nodes.contains id) :
    ({ c with nodes := nodes } : Cluster).registry = c.registry := by
  simp only [registry, Registry.mk.injEq, true_and]
  exact funext same

theorem registry_map (c : Cluster) (f : Node → Node) (keeps : ∀ node, (f node).id = node.id) :
    ({ c with nodes := c.nodes.map f keeps } : Cluster).registry = c.registry :=
  c.registry_of_nodes (fun id => Keyed.contains_map c.nodes f keeps id)

theorem registry_adjust (c : Cluster) (id : Uuid) (f : Node → Node)
    (keeps : ∀ node, (f node).id = node.id) :
    ({ c with nodes := c.nodes.adjust id f keeps } : Cluster).registry = c.registry :=
  c.registry_map _ _

@[simp] theorem registry_release (c : Cluster) (id : Uuid)
    (keepIdle : Bool) : (c.release id keepIdle).registry = c.registry := by
  rw [release_frame]
  refine c.registry_of_nodes (fun node => ?_)
  rw [nodes_release, Keyed.contains_map]

@[simp] theorem registry_removePool (c : Cluster)
    (name : String) : (c.removePool name).registry = c.registry := by
  cases known : c.pools.get name with
  | none => rw [removePool_of_get_none known]
  | some pool =>
    rw [removePool_of_get known]
    exact c.registry_map _ _

@[simp] theorem registry_requeue (name : String) (c : Cluster)
    (id : Uuid) : (requeue name c id).registry = c.registry := by
  unfold requeue
  dsimp only
  split_ifs
  · exact c.registry_release id false
  · rfl

@[simp] theorem registry_moved (name pool : String)
    (c : Cluster) : (moved name pool c).registry = c.registry := by
  have kept (ids : List Uuid) (d : Cluster) : (ids.foldl (requeue name) d).registry =
    d.registry := by
    induction ids generalizing d with
    | nil => rfl
    | cons id rest ih => rw [List.foldl_cons, ih, registry_requeue]
  exact kept _ c

theorem registry_place (c : Cluster) (execution : Execution) (pool : Pool) (node : Uuid) :
    (c.place execution pool node).registry = c.registry :=
  c.registry_adjust node (fun node => node.occupy pool) (fun node => node.occupy_id pool)

@[simp] theorem registry_scheduleQueued (c : Cluster) : c.scheduleQueued.1.registry = c.registry :=
  scheduleQueued_invariant (P := fun d => d.registry = c.registry) rfl
    (fun same _ _ => (registry_place ..).trans same)

theorem registry_scheduleIfChanged {c : Cluster} {changed : Option Cluster}
    (same : ∀ next, changed = some next → next.registry =
      c.registry) : (scheduleIfChanged c changed).cluster.registry = c.registry := by
  cases changed with
  | none => rfl
  | some next => exact (registry_scheduleQueued next).trans (same next rfl)

theorem registry_restart (fresh : Uuid) (environment : Environment) (c : Cluster) :
    (restartEnvironmentPool fresh environment c).cluster.registry = c.registry := by
  rcases restartEnvironmentPool_cases fresh environment c with
    ⟨old, known, running, same⟩ | ⟨unknown, running, same⟩ | ⟨quiet, same⟩
  · rw [same]
    exact registry_moved ..
  · rw [same]
    exact registry_moved ..
  · rw [same]
    exact (registry_removePool ..).trans (registry_moved ..)

theorem registry_settle (fresh : Uuid) (environment : Environment) (c : Cluster) :
    (settle (restartEnvironmentPool fresh environment c)).cluster.registry = c.registry := by
  unfold settle
  split_ifs
  · exact registry_restart ..
  · exact (registry_scheduleQueued _).trans (registry_restart fresh environment c)

theorem registry_withoutEnvironment (c : Cluster) (environment : Environment)
    (artifact : Option String) :
    (forgetArtifact (withoutEnvironment c environment) artifact).registry = c.registry := by
  have removed : (withoutEnvironment c environment).registry = c.registry := registry_removePool ..
  rw [← removed]
  unfold forgetArtifact
  split
  · exact registry_map _ _ _
  · rfl

theorem registry_cleaned (c : Cluster) (execution : Execution) (keepIdle : Bool) :
    (cleaned c execution keepIdle).registry = c.registry := by
  have finished : (c.finish execution.id keepIdle).registry = c.registry := registry_release ..
  unfold cleaned
  split_ifs
  · rw [registry_removePool, finished]
  · exact finished

theorem registry_admitExecution {c : Cluster} (execution : Execution) (queue : Bool) :
    (admitExecution execution queue c).cluster.registry = c.registry := by
  unfold admitExecution
  dsimp only
  split
  · rename_i next scheduled
    obtain ⟨chosen, pool, node, -, -, rfl⟩ := schedule_cases scheduled
    exact registry_place ..
  · split_ifs <;> rfl

/-- The node that `register_node` stores. -/
theorem registration_id (id : Uuid) (request : RegisterNode) (now : Nat) (c : Cluster) :
    (refreshRegistration request now ((c.nodes.get id).getD (newNode id request now))).id = id := by
  cases present : c.nodes.get id with
  | none => rfl
  | some node =>
    have own := Keyed.key_of_get present
    exact own

theorem registry_registered (id : Uuid) (request : RegisterNode) (now : Nat) (c : Cluster) :
    (registerNode id request now c).cluster.registry =
      ({ c with nodes := c.nodes.insert (refreshRegistration request now
        ((c.nodes.get id).getD (newNode id request now))) } :
        Cluster).registry := by
  refine (registry_scheduleQueued _).trans ((registry_adjust _ id _ _).trans ?_)
  split_ifs
  · exact registry_adjust _ id _ _
  · rfl

end Cluster

/-- What a section does to the registry. -/
inductive Registered (c next : Cluster) : Commit → Prop where
  | same {commit : Commit} (filed : next.registry = c.registry) : Registered c next commit
  | imported (image : Image) (filed : next.registry =
      { c.registry with images := c.images.insert image }) :
      Registered c next (.importImage image)
  | updated (id : Uuid) (update : UpdateImage) (image : Image)
      (filed : next.registry = { c.registry with images := c.images.insert image }) :
      Registered c next (.updateImage id update)
  | discarded (id : Uuid) (pools : c.pools.any (fun pool => pool.image = id) = false)
      (environments : c.environments.any (fun environment => environment.image = id) = false)
      (filed : next.registry = { c.registry with images := c.images.erase id }) : Registered c next
        (.deleteImage id)
  | issued (id : Uuid) (tokenHash : String) (now : Nat)
      (filed : next.registry =
        { c.registry with joinTokens := (createJoinToken id tokenHash now c).cluster.joinTokens }) :
      Registered c next (.createJoinToken id tokenHash now)
  | joined (node : Uuid) (tokenHash credentialHash : String) (now : Nat) (token : JoinToken)
      (accepted : c.joinTokens.values.find? (acceptable now tokenHash) = some token)
      (filed : next.registry =
        { c.registry with
          joinTokens := c.joinTokens.adjust token.id
            (fun token => { token with usedAtMs := some now }) (fun _ => rfl)
          nodeCredentials := c.nodeCredentials.insert (node, credentialHash) }) :
      Registered c next (.joinCluster node tokenHash credentialHash now)
  | joinedLocally (node : Uuid) (credentialHash : String)
      (filed : next.registry =
        { c.registry with nodeCredentials := c.nodeCredentials.insert (node, credentialHash) }) :
      Registered c next (.localJoin node credentialHash)
  | deleted (id : Uuid)
      (filed : next.registry =
        { c.registry with
          nodeCredentials := c.nodeCredentials.erase id
          nodes := fun k => decide (k ≠ id) &&
            c.nodes.contains k }) : Registered c next (.deleteNode id)
  | registered (id : Uuid) (request : RegisterNode) (now : Nat)
      (filed : next.registry =
        { c.registry with nodes := fun k => decide (k = id) || c.nodes.contains k }) :
      Registered c next (.registerNode id request now)

open Cluster in
theorem Commit.registered
    [Crates] {c : Cluster} {commit : Commit} {result : Section} (ran : commit.run c = .ok result) :
    Registered c result.cluster commit := by
  cases commit with
  | importImage image =>
    obtain rfl := Except.ok.inj ran
    have kept := c.registry_map (fun node => { node with status := .syncing }) (fun _ => rfl)
    exact .imported image (congrArg
      (fun r : Registry => { r with images := c.images.insert image }) kept)
  | updateImage id update =>
    obtain ⟨image, -, rfl⟩ := updateImage_eq_ok ran
    exact .updated id update image rfl
  | deleteImage id =>
    obtain ⟨pools, environments, rfl⟩ := deleteImage_eq_ok ran
    have kept := c.registry_map
      (fun node => { node with images := node.images.erase id }) (fun _ => rfl)
    exact .discarded id pools
      environments (congrArg (fun r : Registry => { r with images := c.images.erase id }) kept)
  | createPool pool =>
    obtain ⟨-, -, -, rfl⟩ := createPool_eq_ok ran
    exact .same rfl
  | deletePool name =>
    obtain ⟨-, rfl⟩ := deletePool_eq_ok ran
    exact .same (registry_removePool ..)
  | createEnvironment id request image artifact =>
    obtain rfl := Except.ok.inj ran
    exact .same rfl
  | updateEnvironment freshId id request old image artifact =>
    obtain rfl := Except.ok.inj ran
    rw [updateEnvironment_eq]
    split_ifs
    · exact .same (registry_settle ..)
    · exact .same (registry_scheduleQueued _)
  | restartEnvironment freshId id =>
    obtain ⟨environment, -, rfl⟩ := restartEnvironment_eq_ok ran
    exact .same (registry_settle ..)
  | deleteEnvironment id =>
    obtain ⟨environment, -, -, rfl⟩ := deleteEnvironment_eq_ok ran
    exact .same (registry_withoutEnvironment ..)
  | createJoinToken id tokenHash now =>
    obtain rfl := Except.ok.inj ran
    exact .issued id tokenHash now rfl
  | joinCluster node tokenHash credentialHash now =>
    obtain ⟨token, accepted, rfl⟩ := joinCluster_eq_ok ran
    exact .joined node tokenHash credentialHash now token accepted rfl
  | localJoin node credentialHash =>
    obtain rfl := Except.ok.inj ran
    exact .joinedLocally node credentialHash rfl
  | updateNode id concurrency =>
    obtain ⟨node, present, rfl⟩ := updateNode_eq_ok ran
    have own := Keyed.key_of_get present
    refine .same (registry_of_nodes c (fun k => ?_))
    rw [Keyed.contains_insert]
    by_cases same : k = id <;> simp [own, same, Keyed.contains, present]
  | deleteNode id =>
    obtain ⟨-, rfl⟩ := deleteNode_eq_ok ran
    have kept := registry_scheduleQueued
      { c with nodes := c.nodes.erase id, nodeCredentials := c.nodeCredentials.erase id }
    refine .deleted id (kept.trans ?_)
    simp only [registry, Registry.mk.injEq, true_and]
    exact funext (fun k => Keyed.contains_erase ..)
  | registerNode id request now =>
    obtain rfl := Except.ok.inj ran
    have kept := registry_registered id request now c
    refine .registered id request now (kept.trans ?_)
    simp only [registry, Registry.mk.injEq, true_and]
    exact funext (fun k => by rw [Keyed.contains_insert, registration_id])
  | imageReady id image =>
    obtain rfl := imageReady_eq_ok ran
    exact .same ((registry_scheduleQueued _).trans ((registry_adjust _ id
      _ _).trans (c.registry_adjust id _ _)))
  | environmentReady id artifact =>
    obtain rfl := environmentReady_eq_ok ran
    exact .same ((registry_scheduleQueued _).trans (c.registry_adjust id _ _))
  | addWarmInstance id pool =>
    obtain rfl := Except.ok.inj ran
    refine .same (registry_scheduleIfChanged fun next added => ?_)
    obtain ⟨_, _, _, _, _, _, rfl⟩ := Cluster.addWarmInstance_eq_some added
    exact c.registry_adjust _ _ _
  | removeIdleInstance id pool =>
    obtain rfl := Except.ok.inj ran
    refine .same (registry_scheduleIfChanged fun next removed => ?_)
    obtain ⟨_, _, _, _, _, rfl⟩ := Cluster.removeIdleInstance_eq_some removed
    exact c.registry_adjust _ _ _
  | createExecution id request secrets now =>
    rcases createExecution_eq_ok ran with rfl | ⟨_, _, _, _, _, rfl⟩ <;> exact .same rfl
  | nextWork id choice now =>
    rcases nextWork_eq_ok ran with rfl | ⟨execution, rfl, -, ⟨-, rfl⟩ | ⟨pool, -,
      rfl⟩⟩ <;> exact .same rfl
  | completeExecution node id request now =>
    obtain ⟨execution, -, -, rfl⟩ := completeExecution_eq_ok ran
    exact .same ((registry_scheduleQueued _).trans (registry_cleaned ..))

namespace System

/-- A step leaves the registry alone or changes it as its section does. -/
theorem step_registered [Crates] {s t : System} {label : Label} (stepped : s.step label = some t)
    (same : restarts label = false) :
    t.cluster.registry = s.cluster.registry ∨
      ∃ commit others, Entered s label commit others ∧ Registered s.cluster t.cluster commit := by
  cases step_cases stepped with
  | performed _ commit others result free allowed entered
      ran => exact .inr ⟨commit, others, entered, Commit.registered ran⟩
  | admitted index execution secrets queue rest before database there stored =>
    exact .inl (Cluster.registry_admitExecution ..)
  | called index op rest before after next there plain done =>
    exact .inl (congrArg Cluster.registry (runOp_frame plain done).1)
  | restarted => cases same
  | _ => exact .inl rfl

/-! What the database holds of the cluster. -/

theorem prune_cluster {db next : Database} {now : Nat} {protectedId : Option Uuid}
    (done : Scraperack.prune db now protectedId = some next) : next.cluster = db.cluster := by
  unfold Scraperack.prune at done
  dsimp only at done
  obtain ⟨used, -, done⟩ := Option.bind_eq_some_iff.mp done
  split_ifs at done <;> obtain rfl := Option.some.inj done <;> rfl

theorem insertExecution_cluster [Crates] {db next : Database} {execution : Execution}
    {secrets : Bytes} {accepted : Bool}
    (done : db.insertExecution execution secrets = some (next, accepted)) : next.cluster =
      db.cluster := by
  simp only [Database.insertExecution, Option.bind_eq_some_iff, Option.map_eq_some_iff] at done
  obtain ⟨pruned, kept, used, -, outcome⟩ := done
  have same := prune_cluster kept
  split_ifs at outcome <;> cases outcome <;> exact same

theorem completeExecution_cluster [Crates] {db next : Database} {execution : Execution}
    (done : db.completeExecution execution = some next) : next.cluster = db.cluster := by
  simp only [Database.completeExecution, Option.bind_eq_some_iff, Option.map_eq_some_iff] at done
  obtain ⟨pruned, kept, used, -, rfl⟩ := done
  have same := prune_cluster kept
  split_ifs <;> exact same

/-- The calls other than `save_cluster` leave the stored cluster alone. -/
theorem runOp_saved [Crates] {s next : System} {rest ops : List Op} {before after : Reply} {op : Op}
    (plain : op.inserts = false) (done : s.runOp rest before op = some (next, ops, after)) :
    next.database.cluster = s.database.cluster ∨
      op = .saveCluster ∧ after = before ∧
        next.database.cluster = some { s.cluster with executions := ∅ } := by
  cases op with
  | insertExecution => cases plain
  | saveCluster =>
    obtain ⟨rfl, -, rfl⟩ := by simpa only [runOp, Option.some.injEq, Prod.mk.injEq] using done
    exact .inr ⟨rfl, rfl, rfl⟩
  | completeExecution execution =>
    simp only [runOp, Option.map_eq_some_iff, Prod.mk.injEq] at done
    obtain ⟨database, stored, rfl, -⟩ := done
    exact .inl (completeExecution_cluster stored)
  | deliver node execution pool =>
    simp only [runOp, Option.map_eq_some_iff, Prod.mk.injEq] at done
    obtain ⟨_, _, rfl, -⟩ := done
    exact .inl rfl
  | _ =>
    simp only [runOp, Option.some.injEq, Prod.mk.injEq] at done
    obtain ⟨rfl, -⟩ := done
    exact .inl rfl

/-- A step of a process leaves the stored cluster alone or saves the one in memory. -/
theorem step_saved [Crates] {s t : System} {label : Label} (stepped : s.step label = some t)
    (same : restarts label = false) :
    t.database.cluster = s.database.cluster ∨
      ∃ index rest reply, label = .op index true ∧
        s.inflight[index]? = some (.running (.saveCluster :: rest) reply) ∧
        t.database.cluster = some { s.cluster with executions := ∅ } := by
  cases step_cases stepped with
  | called index op rest before after next there plain done =>
    rcases runOp_saved plain done with kept | ⟨rfl, rfl, saved⟩
    · exact .inl kept
    · exact .inr ⟨index, rest, after, rfl, there, saved⟩
  | admitted _ _ _ _ _ _ _ _ stored | rejected _ _ _ _ _ _ _ _ stored =>
      exact .inl (insertExecution_cluster stored)
  | pruned now =>
    refine .inl ?_
    cases done : Scraperack.prune s.database now none with
    | none => rfl
    | some next => simpa [done] using prune_cluster done
  | restarted => cases same
  | _ => exact .inl rfl

end System
end Scraperack
