import Scraperack.Migration
import Scraperack.Shelves

/-! The images on record for the nodes, against those of the cluster. The status of a node sums up whether it holds
them all; images come and go with other operations than those that set it. -/

namespace Scraperack

/-- The record of a node goes with the images of the cluster. -/
structure Node.Supplied (images : Uuid → Bool) (node : Node) : Prop where
  known : ∀ image ∈ node.images, images image = true
  complete : node.status = .ready → ∀ image, images image = true → image ∈ node.images

theorem Node.Supplied.of_same {images : Uuid → Bool} {node next : Node}
    (supplied : node.Supplied images) (held : next.images = node.images)
    (status : next.status = node.status) : next.Supplied images :=
  ⟨fun image member => supplied.known image (held ▸ member), fun ready image known =>
    held ▸ supplied.complete (status ▸ ready) image known⟩

def Cluster.Supplied (c : Cluster) : Prop :=
  ∀ id node, c.nodes.get id = some node → node.Supplied c.images.contains

theorem Cluster.supplied_iff (c : Cluster) : c.Supplied ↔
    ∀ id node, c.profiles id = some node → node.Supplied c.images.contains := by
  constructor
  · intro supplied id node present
    obtain ⟨record, there, rfl⟩ := Option.map_eq_some_iff.mp present
    exact (supplied id record there).of_same rfl rfl
  · intro supplied id node present
    have profile : c.profiles id = some node.profile := by rw [profiles, present, Option.map_some]
    exact (supplied id node.profile profile).of_same rfl rfl

theorem Cluster.Supplied.of_same {c next : Cluster} (supplied : c.Supplied)
    (profiles : next.profiles = c.profiles) (images : next.images.contains = c.images.contains) :
    next.Supplied := by
  rw [Cluster.supplied_iff] at supplied ⊢
  rw [profiles, images]
  exact supplied

section
variable {images : Uuid → Bool} {node : Node}

/-- No node is ready for an image that is new, and none has it yet. -/
theorem Node.Supplied.imported (supplied : node.Supplied images) {more : Uuid → Bool}
    (wider : ∀ image, images image = true → more image = true) :
    ({ node with status := .syncing } : Node).Supplied more :=
  ⟨fun image held => wider image (supplied.known image held), fun ready => by cases ready⟩

/-- The image goes from the node as well, and a node that is ready still has all others. -/
theorem Node.Supplied.discarded (supplied : node.Supplied images) (image : Uuid) :
    ({ node with images := node.images.erase image } : Node).Supplied
      (fun k => decide (k ≠ image) && images k) := by
  constructor
  · intro held member
    obtain ⟨other, member⟩ := Finset.mem_erase.mp member
    rw [supplied.known held member, Bool.and_true]
    exact decide_eq_true other
  · intro ready held among
    rw [Bool.and_eq_true, decide_eq_true_eq] at among
    exact Finset.mem_erase.mpr ⟨among.1, supplied.complete ready held among.2⟩

end

/-- After `refresh_node` the status of the node is right, whatever it was before. -/
theorem Node.Supplied.refreshed {images : Keyed Image.id} {node : Node}
    (known : ∀ image ∈ node.images, images.contains image = true) :
    (node.refreshed images).Supplied images.contains := by
  refine ⟨known, fun ready image among => ?_⟩
  obtain ⟨filed, found⟩ := (Keyed.contains_iff _ _).mp among
  have all : images.all (fun image => decide (image.id ∈ node.images)) = true := by
    by_contra missing
    simp [Node.refreshed, missing] at ready
  have held := of_decide_eq_true ((Keyed.all_iff _ _).mp all image filed found)
  exact Keyed.key_of_get found ▸ held

/-- A node that registers for the first time has no images, and any other keeps those it has. -/
theorem Cluster.Supplied.registration {c : Cluster} (supplied : c.Supplied) (id : Uuid)
    (request : RegisterNode) (now : Nat) :
    (c.registration id request now).Supplied c.images.contains := by
  refine Node.Supplied.refreshed ?_
  cases present : c.profiles id with
  | none => exact fun image held => absurd held (Finset.notMem_empty image)
  | some node => exact ((Cluster.supplied_iff c).mp supplied id node present).known

theorem Commit.supplied [Crates] {c : Cluster} {commit : Commit} {result : Section}
    (ran : commit.run c = .ok result) (supplied : c.Supplied) : result.cluster.Supplied := by
  have before := (Cluster.supplied_iff c).mp supplied
  -- An operation on the record of one node, for the images that the cluster had before.
  have changed {id : Uuid} {f : Node → Node} (images : result.cluster.images = c.images)
      (profiles : ∀ k, result.cluster.profiles k =
        if k = id then (c.profiles k).map f else c.profiles k)
      (kept : ∀ node, node.Supplied c.images.contains → (f node).Supplied c.images.contains) :
      result.cluster.Supplied := by
    rw [Cluster.supplied_iff, images]
    intro k node present
    rw [profiles k] at present
    split_ifs at present
    · obtain ⟨record, there, rfl⟩ := Option.map_eq_some_iff.mp present
      exact kept record (before k record there)
    · exact before k node present
  cases Commit.profiled ran with
  | same profiles images => exact supplied.of_same profiles images
  | imported image profiles images =>
    rw [Cluster.supplied_iff, images]
    intro k node present
    rw [profiles k] at present
    obtain ⟨record, there, rfl⟩ := Option.map_eq_some_iff.mp present
    refine (before k record there).imported fun held known => ?_
    rw [Keyed.contains_insert, known, Bool.or_true]
  | discarded image profiles images =>
    rw [Cluster.supplied_iff, images]
    intro k node present
    rw [profiles k] at present
    obtain ⟨record, there, rfl⟩ := Option.map_eq_some_iff.mp present
    rw [funext fun held => Keyed.contains_erase c.images image held]
    exact (before k record there).discarded image
  | forgotten id artifact profiles images =>
    rw [Cluster.supplied_iff, images]
    intro k node present
    rw [profiles k] at present
    obtain ⟨record, there, rfl⟩ := Option.map_eq_some_iff.mp present
    exact (before k record there).of_same rfl rfl
  | limited id concurrency profiles images =>
    exact changed images profiles fun node kept => kept.of_same rfl rfl
  | deleted id profiles images =>
    rw [Cluster.supplied_iff, images]
    intro k node present
    rw [profiles k] at present
    split_ifs at present
    exact before k node present
  | registered id request now profiles images =>
    rw [Cluster.supplied_iff, images]
    intro k node present
    rw [profiles k] at present
    split_ifs at present
    · obtain rfl := Option.some.inj present
      exact supplied.registration id request now
    · exact before k node present
  | imageReady id image known profiles images =>
    refine changed images profiles fun node kept => .refreshed fun held member => ?_
    rcases Finset.mem_insert.mp member with rfl | member
    · exact known
    · exact kept.known held member
  | environmentReady id artifact known profiles images =>
    exact changed images profiles fun node kept => kept.of_same rfl rfl

namespace System

theorem supplied_empty : Cluster.empty.Supplied := by
  intro id node present
  cases present

theorem supplied_migrateLegacy {c : Cluster} (supplied : c.Supplied) (fresh : String → Uuid) :
    (migrateLegacy fresh c).Supplied :=
  supplied.of_same (migrateLegacy_profiles fresh c) (congrArg _ images_kept)

theorem supplied_serve {database next : Database} {cluster : Cluster} {fresh : String → Uuid}
    {now : Nat} (served : serve database none fresh now = some (cluster, next))
    (stored : ∀ c, database.cluster = some c → c.Supplied) :
    cluster.Supplied ∧ ∀ c, next.cluster = some c → c.Supplied := by
  simp only [serve, Option.map_eq_some_iff, Prod.mk.injEq, Option.getD_none] at served
  obtain ⟨pruned, kept, rfl, rfl⟩ := served
  have loaded : (database.cluster.getD Cluster.empty).Supplied := by
    cases saved : database.cluster with
    | none => exact supplied_empty
    | some c => exact stored c saved
  have migrated := supplied_migrateLegacy loaded fresh
  refine ⟨migrated.of_same rfl rfl, fun c saved => ?_⟩
  rw [prune_cluster kept] at saved
  obtain rfl := Option.some.inj saved
  exact migrated.of_same rfl rfl

variable [Crates]

theorem supplied_step {s t : System} {label : Label} (supplied : s.cluster.Supplied)
    (stepped : s.step label = some t) (same : restarts label = false) : t.cluster.Supplied := by
  cases step_cases stepped with
  | performed _ commit others result free allowed entered ran => exact Commit.supplied ran supplied
  | admitted index execution secrets queue rest before database there stored =>
    exact supplied.of_same (Cluster.profiles_admitExecution execution queue)
      (congrArg (fun r => r.images.contains) (Cluster.registry_admitExecution execution queue))
  | called index op rest before after next there plain done =>
    change next.cluster.Supplied
    rw [(runOp_frame plain done).1]
    exact supplied
  | restarted => cases same
  | _ => exact supplied

/-- From an empty cluster on, in any order of requests and through any restarts: the images of every node are among
those of the cluster, and a node whose status is ready has them all. -/
theorem ready_nodes_hold_images {s t : System} (blank : Blank s)
    (run : Runs.Reaches System.step (fun _ _ => True) s t) :
    ∀ id node, t.cluster.nodes.get id = some node →
      (∀ image ∈ node.images, t.cluster.images.contains image = true) ∧
        (node.status = .ready → ∀ image, t.cluster.images.contains image = true →
          image ∈ node.images) := by
  have kept : t.cluster.Supplied ∧ ∀ c, t.database.cluster = some c → c.Supplied := by
    refine run.invariant (P := fun s => s.cluster.Supplied ∧
      ∀ c, s.database.cluster = some c → c.Supplied) ⟨?_, fun c saved => ?_⟩ ?_
    · rw [blank.empty]
      exact supplied_empty
    · rw [blank.unsaved] at saved
      cases saved
    · rintro u v label ⟨supplied, stored⟩ - stepped
      cases same : restarts label with
      | true =>
        cases label with
        | restart fresh now =>
          cases step_cases stepped with
          | refused _ others error fewer => exact ⟨supplied, stored⟩
          | performed _ commit others result free allowed entered => cases entered
          | declined _ commit others error entered => cases entered
          | restarted _ _ cluster database fits served => exact supplied_serve served stored
        | _ => cases same
      | false =>
        refine ⟨supplied_step supplied stepped same, fun c saved => ?_⟩
        rcases step_saved stepped same with unchanged | ⟨_, _, _, _, _, now⟩
        · exact stored c (unchanged ▸ saved)
        · obtain rfl := Option.some.inj (now.symm.trans saved)
          exact supplied.of_same rfl rfl
  intro id node present
  obtain ⟨known, complete⟩ := kept.1 id node present
  exact ⟨known, complete⟩

end System

namespace System

/-- One of two images is deleted and the process restarts. The node is ready and has the other. -/
theorem ready_nodes_hold_images_deleted : ∃ t : System, ∃ node,
    t.cluster.nodes.get Demo.node = some node ∧ node.status = .ready ∧
      Demo.runtimeImage.id ∈ node.images := by
  obtain ⟨t, run, shape⟩ := Runs.exists_reaches (@step Demo.crates) (fun _ _ => True) Demo.empty
    (Demo.installation ++ Demo.request 0 (.deleteImage Demo.plainImage.id) 2 ++
      [.restart (fun _ => 7) 0])
    (fun t => t.cluster.images.contains Demo.runtimeImage.id &&
      (t.cluster.nodes.get Demo.node).any (fun node : Node => decide (node.status = .ready)))
    (by decide +kernel)
  simp only [Bool.and_eq_true, Option.any_eq_true, decide_eq_true_eq] at shape
  obtain ⟨known, node, present, ready⟩ := shape
  exact ⟨t, node, present, ready,
    (@ready_nodes_hold_images Demo.crates _ _ ⟨fresh_empty, rfl⟩ run _ node present).2 ready _
      known⟩

end System
end Scraperack
