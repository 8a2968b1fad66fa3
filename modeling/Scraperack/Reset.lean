import Scraperack.Ledger
import Scraperack.Registry

/-! Registrations of a node that has just started. They clear the idle instances of the node, and
leave its counters with what is assigned to it, unless an execution was running there. -/

namespace Scraperack
open Counters

namespace Cluster

/-- An execution of the node is running. -/
def runsOn (id : Uuid) (execution : Execution) : Bool :=
  execution.node = some id && decide (execution.status = .running)

/-- No execution of the node is running. -/
def Still (c : Cluster) (id : Uuid) : Prop := c.executions.any (runsOn id) = false

instance (c : Cluster) (id : Uuid) : Decidable (c.Still id) :=
  inferInstanceAs (Decidable (_ = false))

/-- What the executions take that are assigned to the node. -/
def assignedLoad (c : Cluster) (id : Uuid) (r : Resource) : Nat :=
  c.executions.total (fun execution =>
    if execution.node = some id ∧ execution.status =
      .assigned then c.poolSize execution.pool r else 0)

theorem Still.activeLoad {c : Cluster} {id : Uuid} (still : c.Still id) (r : Resource) :
    c.activeLoad id r = c.assignedLoad id r := by
  refine Keyed.total_congr (fun k execution present => ?_)
  have idle := (Keyed.any_eq_false_iff _ _).mp still k execution present
  cases status : execution.status <;>
    simp_all [weight, runsOn, Execution.occupiesOn, ExecutionStatus.onNode]

theorem still_congr {c d : Cluster} {id : Uuid}
    (same : ∀ k, (d.executions.get k).any (runsOn id) = (c.executions.get k).any (runsOn id)) :
    d.Still id ↔ c.Still id := by
  have pointwise (e : Cluster) : e.Still id ↔
    ∀ k, (e.executions.get k).any (runsOn id) = false := by
    rw [Still, Keyed.any_eq_false_iff]
    refine forall_congr' (fun k => ?_)
    cases e.executions.get k <;> simp
  rw [pointwise, pointwise]
  exact forall_congr' (fun k => by rw [same])

/-- Scheduling neither starts an execution nor stops one. -/
theorem still_place {c : Cluster} {execution : Execution} (pool : Pool) (node id : Uuid)
    (present : c.executions.get execution.id = some execution)
    (queued : execution.status = .queued) :
    (c.place execution pool node).Still id ↔ c.Still id := by
  refine still_congr (fun k => ?_)
  rw [place_get]
  split_ifs with same
  · subst same
    simp [present, runsOn, queued]
  · rfl

theorem still_scheduleQueued (c : Cluster) (id : Uuid) : c.scheduleQueued.1.Still id ↔ c.Still id :=
  scheduleQueued_invariant (P := fun d => d.Still id ↔ c.Still id) Iff.rfl
    (fun same queued choice => (still_place _ _ id choice.present queued).trans same)

/-- The node is there and has no idle instances. -/
def Cold (c : Cluster) (id : Uuid) : Prop :=
  ∃ node, c.nodes.get id = some node ∧ ∀ name, node.idle name = 0

theorem Cold.place {c : Cluster} {id : Uuid} (cold : c.Cold id) (execution : Execution)
    (pool : Pool) (node : Uuid) :
    (c.place execution pool node).Cold id := by
  obtain ⟨there, present, idle⟩ := cold
  simp only [Cold, Cluster.place, Keyed.get_adjust, present]
  split_ifs
  · refine ⟨_, rfl, fun name => ?_⟩
    rw [Node.idle_occupy, idle, ite_self]
  · exact ⟨there, rfl, idle⟩

theorem Cold.adjust {c : Cluster} {id : Uuid} (cold : c.Cold id) (k : Uuid) (f : Node → Node)
    (keeps : ∀ node, (f node).id = node.id)
    (same : ∀ node name, (f node).idle name = node.idle name) :
    ({ c with nodes := c.nodes.adjust k f keeps } : Cluster).Cold id := by
  obtain ⟨there, present, idle⟩ := cold
  simp only [Cold, Keyed.get_adjust, present]
  split_ifs
  · exact ⟨_, rfl, fun name => (same there name).trans (idle name)⟩
  · exact ⟨there, rfl, idle⟩

theorem Cold.idleLoad {c : Cluster} {node : Node} (idle : ∀ name, node.idle name = 0)
    (r : Resource) :
    c.idleLoad node r = 0 :=
  Keyed.total_zero (fun k pool _ => by rw [idle, Nat.zero_mul])

end Cluster

open Cluster in
theorem cold_registerNode {id : Uuid} {request : RegisterNode} (reset : request.resetIdle = true)
    (now : Nat) (c : Cluster) :
    (registerNode id request now c).cluster.Cold id := by
  refine scheduleQueued_invariant (P := fun d => d.Cold id) ?_
    (fun cold _ choice => cold.place _ _ _)
  rw [if_pos reset]
  refine Cold.adjust ?_ id _ _ (fun node name => rfl)
  simp only [Cold, Cluster.resetIdleInstances, Keyed.get_adjust_self]
  let node := refreshRegistration request now ((c.nodes.get id).getD (newNode id request now))
  have own : node.id = id := registration_id id request now c
  have stored : (c.nodes.insert node).get id = some node := by
    rw [Keyed.get_insert, if_pos own.symm]
  exact ⟨node.resetIdle c.pools, congrArg (Option.map (fun node => node.resetIdle c.pools)) stored,
    fun name => node.idle_resetIdle ..⟩

open Cluster in
theorem still_registerNode (id : Uuid) (request : RegisterNode) (now : Nat) (c : Cluster) :
    (registerNode id request now c).cluster.Still id ↔ c.Still id := by
  refine (still_scheduleQueued _ id).trans (still_congr (fun k => ?_))
  split_ifs <;> rfl

namespace System

/-- The step lets a node register that has just started. -/
def restartedNode (s : System) : Label → Option Uuid
  | .enter index _ =>
    match s.inflight[index]? with
    | some (.authenticated node (.register request)) =>
        if request.resetIdle then some node else none
    | _ => none
  | _ => none

/-- Such a step deletes no environment and rewrites none. -/
theorem restartedNode_plain {s : System} {label : Label} {id : Uuid}
    (restarted : s.restartedNode label = some id) :
    restarts label = false ∧ s.KeepsSizes label ∧ s.SparesPool label := by
  cases label with
  | enter index input =>
    refine ⟨rfl, fun environment rewritten => ?_, fun environment deleted => by cases deleted⟩
    simp only [restartedNode] at restarted
    split at restarted
    · rename_i node request there
      simp [rewrite, there, Frame.commit, NodeRequest.commit] at rewritten
    · cases restarted
  | _ => cases restarted

variable [Crates]

theorem restartedNode_step {s t : System} {label : Label} {id : Uuid}
    (restarted : s.restartedNode label = some id)
    (stepped : s.step label = some t) :
    ∃ request now, request.resetIdle = true ∧
      t.cluster = (registerNode id request now s.cluster).cluster := by
  cases label with
  | enter index input =>
    simp only [restartedNode] at restarted
    split at restarted
    · rename_i node request there
      split_ifs at restarted with reset
      obtain rfl := Option.some.inj restarted
      refine ⟨request, input.now, reset, ?_⟩
      simp only [step, there, Option.bind_some, Frame.commit, NodeRequest.commit] at stepped
      split_ifs at stepped
      obtain rfl := Option.some.inj stepped
      rfl
    · cases restarted
  | _ => cases restarted

/-- After a registration of a node that has just started, nothing runs there and its counters hold
what is assigned to it, exactly if nothing was running there before. -/
theorem restarted_node_clean {s t u : System} (started : Started s)
    (accounted : Accounted s.cluster)
    (run : Run (fun s label => Fits s.cluster ∧ s.KeepsSizes label ∧ s.SparesPool label) s t)
    {label : Label} {id : Uuid} (restarted : t.restartedNode label = some id)
    (small : Fits t.cluster)
    (stepped : t.step label = some u) (fits : Fits u.cluster) :
    ((∀ k execution, u.cluster.executions.get k = some execution → execution.node = some id →
        execution.status ≠ .running) ∧
      ∃ node, u.cluster.nodes.get id = some node ∧ ∀ r, node.used r = u.cluster.assignedLoad id r) ↔
    ∀ k execution, t.cluster.executions.get k = some execution → execution.node = some id →
      execution.status ≠ .running := by
  have still (c : Cluster) : (∀ k execution, c.executions.get k = some execution →
    execution.node = some id →
      execution.status ≠ .running) ↔ c.Still id := by
    rw [Cluster.Still, Keyed.any_eq_false_iff]
    simp [Cluster.runsOn]
  rw [still, still]
  obtain ⟨request, now, reset, reached⟩ := restartedNode_step restarted stepped
  have kept : u.cluster.Still id ↔ t.cluster.Still id := by
    rw [reached]
    exact still_registerNode id request now t.cluster
  rw [kept]
  refine ⟨And.left, fun quiet => ⟨quiet, ?_⟩⟩
  have own := restartedNode_plain restarted
  have exact := ((accounted.run started.sound
    (run.tail label ⟨own.1, small, own.2⟩ stepped)).covered.balanced fits).exact
  obtain ⟨node, present, idle⟩ : u.cluster.Cold id := by
    rw [reached]
    exact cold_registerNode reset now t.cluster
  refine ⟨node, present, fun r => ?_⟩
  have key := Keyed.key_of_get present
  rw [(exact id node present).1 r, Cluster.load, Cluster.Cold.idleLoad idle, Nat.zero_add, key,
    (kept.mpr quiet).activeLoad]

end System

namespace Demo

def freshStart : NodeRequest := .register ⟨"node", 4000, 4000, none, none, true, []⟩

/-- The execution is delivered, and the node starts anew. -/
def crashing : List Label :=
  assigning ++ [.authenticate node "credential" none .nextWork,
    .enter 0 ⟨0, 0, some 8, none⟩] ++ finish 0 3 ++
    [.authenticate node "credential" none freshStart]

end Demo

namespace System

/-- A node starts anew while an execution is assigned to it, and counts that execution alone. -/
theorem restarted_node_clean_assigned :
    ∃ u : System, ∃ node, u.cluster.nodes.get Demo.node = some node ∧ node.usedCpuMillis = 100 ∧
      node.used .cpu = u.cluster.assignedLoad Demo.node .cpu := by
  have performed : Option.any (fun u : System => decide (Fits u.cluster) &&
        (u.cluster.nodes.get Demo.node).any (fun node : Node => decide (node.usedCpuMillis = 100)))
      (((Runs.exec (@step Demo.crates)
          (fun s label => restarts label = false ∧ Fits s.cluster ∧ s.KeepsSizes label ∧
            s.SparesPool label) Demo.empty
          (Demo.assigning ++ [.authenticate Demo.node "credential" none Demo.freshStart])).filter
        (fun t => decide (Fits t.cluster) && decide (t.cluster.Still Demo.node) &&
          decide (t.restartedNode (.enter 0 (Demo.input 0)) = some Demo.node))).bind
            (fun t => @step Demo.crates t (.enter 0 (Demo.input 0)))) = true := by decide +kernel
  obtain ⟨u, reached, after⟩ := (Option.any_eq_true _ _).mp performed
  obtain ⟨t, before, stepped⟩ := Option.bind_eq_some_iff.mp reached
  obtain ⟨before, ready⟩ := Option.filter_eq_some_iff.mp before
  simp only [Bool.and_eq_true, decide_eq_true_eq, Option.any_eq_true] at ready after
  obtain ⟨⟨small, still⟩, restarted⟩ := ready
  obtain ⟨fits, there, found, used⟩ := after
  have quiet (k : Uuid) (execution : Execution)
    (present : t.cluster.executions.get k = some execution)
      (placed : execution.node = some Demo.node) : execution.status ≠ .running := by
    have idle := (Keyed.any_eq_false_iff _ _).mp still k execution present
    simpa [Cluster.runsOn, placed] using idle
  obtain ⟨-, node, present, counts⟩ :=
    (@restarted_node_clean Demo.crates _ _ _ fresh_empty.started fresh_empty.accounted
    (Runs.reaches_of_exec _ before) _ _ restarted small stepped fits).mpr quiet
  obtain rfl := Option.some.inj (found.symm.trans present)
  exact ⟨u, there, present, used, counts .cpu⟩

/-- A node starts anew while an execution was running there, which goes on running for good. -/
theorem restarted_node_stuck :
    ¬ ∀ [Crates] (s t u : System) (label : Label) (id : Uuid), s.Fresh →
      Run (fun s label => Fits s.cluster ∧ s.KeepsSizes label) s t →
        t.restartedNode label = some id →
      t.step label = some u → ∀ k execution, u.cluster.executions.get k = some execution →
        execution.node = some id → execution.status ≠ .running := by
  intro claim
  have performed : Option.any (fun u : System =>
    u.cluster.executions.any (Cluster.runsOn Demo.node))
      (((Runs.exec (@step Demo.crates) (fun s label => restarts label = false ∧ Fits s.cluster ∧
        s.KeepsSizes label)
          Demo.empty Demo.crashing).filter
        (fun t => decide (t.restartedNode (.enter 0 (Demo.input 0)) = some Demo.node))).bind
          (fun t => @step Demo.crates t (.enter 0 (Demo.input 0)))) = true := by decide +kernel
  obtain ⟨u, reached, runs⟩ := (Option.any_eq_true _ _).mp performed
  obtain ⟨t, before, stepped⟩ := Option.bind_eq_some_iff.mp reached
  obtain ⟨before, restarted⟩ := Option.filter_eq_some_iff.mp before
  obtain ⟨k, execution, present, busy⟩ := (Keyed.any_iff _ _).mp runs
  simp only [Cluster.runsOn, Bool.and_eq_true, decide_eq_true_eq] at busy
  exact @claim Demo.crates _ _ _ _ _ fresh_empty (Runs.reaches_of_exec _ before)
    (of_decide_eq_true restarted) stepped
    k execution present busy.1 busy.2

end System
end Scraperack
