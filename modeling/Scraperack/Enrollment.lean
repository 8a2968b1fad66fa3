import Scraperack.Names
import Scraperack.Registry

/-! Nodes and their credentials. Every node in the cluster holds a credential, as long as no
registration that was authenticated before a revocation takes effect after it. -/

namespace Scraperack
namespace System

/-- The node that the step registers. -/
def registration (s : System) : Label → Option Uuid
  | .enter index _ =>
    match s.inflight[index]? with
    | some (.authenticated node (.register _)) => some node
    | _ => none
  | _ => none

/-- A registration that enters its section finds the credential that it was authenticated with, or a later one. -/
def Credentialed (s : System) (label : Label) : Prop :=
  ∀ node, s.registration label = some node → s.cluster.nodeCredentials.contains node = true

instance (s : System) (label : Label) : Decidable (s.Credentialed label) :=
  decidable_of_iff ((s.registration label).all s.cluster.nodeCredentials.contains = true) (by
    cases same : s.registration label <;> simp [Credentialed, same])

/-- The node that the step gives a credential to, if its request is accepted. -/
def enrollment : Label → Option Uuid
  | .client (.joinCluster node ..) | .client (.localJoin node _) => some node
  | _ => none

/-- Every node holds a credential. -/
def Enrolled (c : Cluster) : Prop :=
  ∀ id, c.nodes.contains id = true → c.nodeCredentials.contains id = true

/-- The node is gone, and so is its credential. -/
def Revoked (id : Uuid) (c : Cluster) : Prop :=
  c.nodes.contains id = false ∧ c.nodeCredentials.contains id = false

theorem registration_of_entered {s : System} {label : Label} {id : Uuid}
    {request : RegisterNode} {now : Nat}
    {others : List Frame} (entered : Entered s label (.registerNode id request now) others) :
    s.registration label = some id := by
  cases entered with
  | client _ direct => cases direct
  | handler index input frame _ there ready =>
    cases frame with
    | authenticated node asked =>
      cases asked <;> simp only [Frame.commit, NodeRequest.commit, Option.some.injEq,
        reduceCtorEq] at ready
      cases ready
      simp only [registration, there]
    | environment job =>
      obtain ⟨before, wanted, chosen, stage⟩ := job
      simp only [Frame.commit, Job.commit] at ready
      cases stage <;> cases before <;> simp at ready
    | importing name => simp [Frame.commit] at ready
    | running ops reply => cases ready

theorem Fresh.enrolled {s : System} (fresh : Fresh s) : Enrolled s.cluster := by
  intro id present
  rw [fresh.empty] at present
  cases present

variable [Crates]

theorem Enrolled.step {s t : System} {label : Label} (enrolled : Enrolled s.cluster) (credentialed : s.Credentialed label)
    (stepped : s.step label = some t) (same : restarts label = false) : Enrolled t.cluster := by
  have unchanged (credentials : t.cluster.nodeCredentials = s.cluster.nodeCredentials)
      (nodes : t.cluster.nodes.contains = s.cluster.nodes.contains) : Enrolled t.cluster := by
    intro id present
    rw [credentials]
    exact enrolled id (nodes ▸ present)
  have enrolls (node : Uuid) (hash : String)
      (credentials : t.cluster.nodeCredentials = s.cluster.nodeCredentials.insert (node, hash))
      (nodes : t.cluster.nodes.contains = s.cluster.nodes.contains) : Enrolled t.cluster := by
    intro id present
    have known : s.cluster.nodes.contains id = true := nodes ▸ present
    rw [credentials, Keyed.contains_insert, enrolled id known, Bool.or_true]
  rcases step_registered stepped same with filed | ⟨commit, others, entered, registered⟩
  · exact unchanged (congrArg Registry.nodeCredentials filed) (congrArg Registry.nodes filed)
  cases registered with
  | same filed | imported _ filed | updated _ _ _ filed | discarded _ _ _ filed | issued _ _ _ filed =>
    exact unchanged (congrArg Registry.nodeCredentials filed) (congrArg Registry.nodes filed)
  | joined node _ _ _ _ _ filed | joinedLocally node _ filed =>
    exact enrolls node _ (congrArg Registry.nodeCredentials filed) (congrArg Registry.nodes filed)
  | deleted node filed =>
    intro id present
    change t.cluster.registry.nodes id = true at present
    change t.cluster.registry.nodeCredentials.contains id = true
    rw [filed] at present ⊢
    rw [Bool.and_eq_true] at present
    rw [Keyed.contains_erase, present.1]
    exact enrolled id present.2
  | registered node request now filed =>
    intro id present
    change t.cluster.registry.nodes id = true at present
    change t.cluster.registry.nodeCredentials.contains id = true
    rw [filed] at present ⊢
    rw [Bool.or_eq_true, decide_eq_true_eq] at present
    rcases present with rfl | before
    · exact credentialed id (registration_of_entered entered)
    · exact enrolled id before

theorem Revoked.step {s t : System} {label : Label} {id : Uuid} (revoked : Revoked id s.cluster)
    (credentialed : s.Credentialed label) (others : enrollment label ≠ some id) (stepped : s.step label = some t)
    (same : restarts label = false) : Revoked id t.cluster := by
  have unchanged (credentials : t.cluster.nodeCredentials = s.cluster.nodeCredentials)
      (nodes : t.cluster.nodes.contains = s.cluster.nodes.contains) : Revoked id t.cluster :=
    ⟨nodes ▸ revoked.1, credentials ▸ revoked.2⟩
  have enrolls (node : Uuid) (hash : String) (differ : id ≠ node)
      (credentials : t.cluster.nodeCredentials = s.cluster.nodeCredentials.insert (node, hash))
      (nodes : t.cluster.nodes.contains = s.cluster.nodes.contains) : Revoked id t.cluster := by
    refine ⟨nodes ▸ revoked.1, ?_⟩
    rw [credentials, Keyed.contains_insert, revoked.2, Bool.or_false]
    exact decide_eq_false differ
  rcases step_registered stepped same with filed | ⟨commit, _, entered, registered⟩
  · exact unchanged (congrArg Registry.nodeCredentials filed) (congrArg Registry.nodes filed)
  cases registered with
  | same filed | imported _ filed | updated _ _ _ filed | discarded _ _ _ filed | issued _ _ _ filed =>
    exact unchanged (congrArg Registry.nodeCredentials filed) (congrArg Registry.nodes filed)
  | joined node _ _ _ _ _ filed | joinedLocally node _ filed =>
    obtain rfl := entered.label_of_direct rfl
    exact enrolls node _ (fun same => others (congrArg some same.symm))
      (congrArg Registry.nodeCredentials filed) (congrArg Registry.nodes filed)
  | deleted node filed =>
    refine ⟨?_, ?_⟩
    · change t.cluster.registry.nodes id = false
      rw [filed]
      exact Bool.and_eq_false_imp.mpr (fun _ => revoked.1)
    · change t.cluster.registry.nodeCredentials.contains id = false
      rw [filed]
      exact (Keyed.contains_erase ..).trans (Bool.and_eq_false_imp.mpr (fun _ => revoked.2))
  | registered node request now filed =>
    have differ : id ≠ node := by
      rintro rfl
      have held := credentialed id (registration_of_entered entered)
      rw [revoked.2] at held
      cases held
    refine ⟨?_, ?_⟩
    · change t.cluster.registry.nodes id = false
      rw [filed]
      exact Bool.or_eq_false_iff.mpr ⟨decide_eq_false differ, revoked.1⟩
    · change t.cluster.registry.nodeCredentials.contains id = false
      rw [filed]
      exact revoked.2

theorem revoked_of_deleteNode {s t : System} {id : Uuid} {result : Section}
    (ran : deleteNode id s.cluster = .ok result)
    (stepped : s.step (.client (.deleteNode id)) = some t) : Revoked id t.cluster := by
  have reached : t.cluster = result.cluster := by
    simp only [step, perform, Commit.run, ran] at stepped
    split_ifs at stepped
    obtain rfl := Option.some.inj stepped
    rfl
  obtain ⟨-, rfl⟩ := deleteNode_eq_ok ran
  have filed := Cluster.registry_scheduleQueued
    { s.cluster with nodes := s.cluster.nodes.erase id, nodeCredentials :=
      s.cluster.nodeCredentials.erase id }
  rw [reached]
  refine ⟨(congrFun (congrArg Registry.nodes filed) id).trans ?_,
    (congrArg (fun r : Registry => r.nodeCredentials.contains id) filed).trans ?_⟩
  · simp [Cluster.registry, Keyed.contains]
  · simp [Cluster.registry, Keyed.contains]

/-- From an empty cluster on every node holds a credential, and a node that was deleted stays
away until it is enrolled again, as long as every registration still finds its credential. -/
theorem revocation_final {s : System} (fresh : Fresh s) :
    (∀ t, Run Credentialed s t → Enrolled t.cluster) ∧
      ∀ t u v id result, Run Credentialed s t → deleteNode id t.cluster = .ok result →
        t.step (.client (.deleteNode id)) = some u →
        Run (fun s label => s.Credentialed label ∧ enrollment label ≠ some id) u v →
        v.cluster.nodes.contains id = false := by
  constructor
  · intro t run
    exact run.invariant (P := fun s => Enrolled s.cluster) fresh.enrolled
      (fun enrolled allowed stepped => enrolled.step allowed.2 stepped allowed.1)
  · intro t u v id result before ran stepped after
    have gone : Revoked id v.cluster := after.invariant (P := fun s => Revoked id s.cluster)
      (revoked_of_deleteNode ran stepped)
      (fun revoked allowed stepped => revoked.step allowed.2.1 allowed.2.2 stepped allowed.1)
    exact gone.1

end System

namespace Demo

/-- A registration that is under way while its node is deleted. -/
def late : List Label :=
  request 0 (.localJoin node "credential") 2 ++
    [.authenticate node "credential" none
      (.register ⟨"node", 4000, 4000, none, none, false, []⟩)] ++
    request 1 (.deleteNode node) 3

end Demo

namespace System

/-- A node is deleted while a request of it is under way, and does not come back with it. -/
theorem revocation_final_deleted :
    (∀ t, @Run Demo.crates Credentialed Demo.empty t → Enrolled t.cluster) ∧
      ∃ v : System, v.cluster.nodes.contains Demo.node = false ∧ v.replies.length = 8 := by
  have final := @revocation_final Demo.crates _ fresh_empty
  refine ⟨final.1, ?_⟩
  have performed : Option.any (fun v : System => v.replies.length = 8)
      (((Runs.exec (@step Demo.crates) (fun s label =>
        restarts label = false ∧ s.Credentialed label) Demo.empty
          (Demo.installation ++ [.authenticate Demo.node "credential" none .nextWork])).filter
        (fun t => (deleteNode Demo.node t.cluster).isOk)).bind
          (fun t => (@step Demo.crates t (.client (.deleteNode Demo.node))).bind
            (fun u => Runs.exec (@step Demo.crates)
              (fun s label => restarts label = false ∧ s.Credentialed label ∧
                enrollment label ≠ some Demo.node) u
              (Demo.finish 1 3 ++ [.enter 0 (Demo.input 0)])))) = true := by decide +kernel
  obtain ⟨v, reached, replies⟩ := (Option.any_eq_true _ _).mp performed
  obtain ⟨t, before, later⟩ := Option.bind_eq_some_iff.mp reached
  obtain ⟨u, deleted, after⟩ := Option.bind_eq_some_iff.mp later
  obtain ⟨before, accepted⟩ := Option.filter_eq_some_iff.mp before
  obtain ⟨result, ran⟩ : ∃ result, deleteNode Demo.node t.cluster = .ok result := by
    cases ran : deleteNode Demo.node t.cluster with
    | ok result => exact ⟨result, rfl⟩
    | error error =>
      rw [ran] at accepted
      cases accepted
  exact ⟨v, final.2 t u v Demo.node result (Runs.reaches_of_exec _ before) ran deleted
    (Runs.reaches_of_exec _ after),
    of_decide_eq_true replies⟩

/-- A registration that was authenticated before the deletion of its node brings the node back
without a credential. -/
theorem revocation_undone :
    ¬ ∀ [Crates] (s t : System), s.Fresh → Run (fun _ _ => True) s t → Enrolled t.cluster := by
  intro claim
  obtain ⟨t, run, back⟩ := Runs.exists_reaches (@step Demo.crates)
    (fun s label => restarts label = false ∧ True)
    Demo.empty (Demo.late ++ [.enter 0 (Demo.input 0)])
    (fun t => t.cluster.nodes.contains Demo.node && !t.cluster.nodeCredentials.contains Demo.node)
      (by decide +kernel)
  simp only [Bool.and_eq_true, Bool.not_eq_true'] at back
  have held := @claim Demo.crates _ _ fresh_empty run Demo.node back.1
  rw [back.2] at held
  cases held

end System
end Scraperack
