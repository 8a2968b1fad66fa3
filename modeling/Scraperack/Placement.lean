import Scraperack.Schedule

/-! What the scheduler is for: an execution gets an instance of its pool on a node that can take one,
an idle instance before a new one. -/

namespace Scraperack
open Counters
namespace Cluster

/-- The node can take an instance of the pool: it has one that is idle, or the limit and its capacity
allow it to start one. -/
structure Takes (c : Cluster) (pool : Pool) (node : Node) : Prop where
  ready : node.status = .ready
  image : pool.image ∈ node.images
  artifact : ∀ artifact, pool.environmentArtifact = some artifact → artifact ∈ node.environments
  room : 0 < node.idle pool.name ∨
    (∀ limit, pool.maxInstances = some limit →
      c.activeCount pool.name + c.idleCount pool.name < limit) ∧
    pool.cpuMillis ≤ node.cpuMillis ∧ pool.memoryMib ≤ node.memoryMib

/-- The pool has fewer active executions than its limit, and a node can take one. -/
def Schedulable (c : Cluster) (poolName : String) : Prop :=
  ∃ pool, c.pools.get poolName = some pool ∧
    (∀ limit, pool.maxInstances = some limit → c.activeCount pool.name < limit) ∧
    ∃ id node, c.nodes.get id = some node ∧ c.Takes pool node

theorem takes_iff (c : Cluster) (pool : Pool) (node : Node) :
    eligible pool (c.canStart pool) node = true ↔ c.Takes pool node := by
  have start : c.canStart pool = true ↔ ∀ limit, pool.maxInstances = some limit →
      c.activeCount pool.name + c.idleCount pool.name < limit := by
    simp [canStart, Option.all_eq_true]
  have artifact : holdsArtifact pool node = true ↔
      ∀ artifact, pool.environmentArtifact = some artifact → artifact ∈ node.environments := by
    simp [holdsArtifact, Option.all_eq_true]
  simp only [eligible, Bool.and_eq_true, Bool.or_eq_true, decide_eq_true_eq, start, artifact]
  constructor
  · rintro ⟨⟨⟨ready, image⟩, artifact⟩, room⟩
    exact ⟨ready, image, artifact, by tauto⟩
  · rintro ⟨ready, image, artifact, room⟩
    exact ⟨⟨⟨ready, image⟩, artifact⟩, by tauto⟩

theorem accepts_iff (c : Cluster) (poolName : String) :
    c.Accepts poolName ↔ c.Schedulable poolName := by
  have full (pool : Pool) : c.full pool = false ↔
      ∀ limit, pool.maxInstances = some limit → c.activeCount pool.name < limit := by
    cases limit : pool.maxInstances <;> simp [Cluster.full, limit]
  simp only [Accepts, Schedulable, full, takes_iff]

/-- What the chosen node is afterwards: it has one idle instance less, or it accounts for one more. -/
structure Occupied (node after : Node) (pool : Pool) : Prop where
  frame : after = { node with
    idleInstances := after.idleInstances
    usedCpuMillis := after.usedCpuMillis
    usedMemoryMib := after.usedMemoryMib }
  others : ∀ name, name ≠ pool.name → after.idle name = node.idle name
  reused : 0 < node.idle pool.name → after.idle pool.name + 1 = node.idle pool.name ∧
    after.usedCpuMillis = node.usedCpuMillis ∧ after.usedMemoryMib = node.usedMemoryMib
  started : node.idle pool.name = 0 → after.idle pool.name = 0 ∧
    after.usedCpuMillis = saturatingAdd node.usedCpuMillis pool.cpuMillis ∧
    after.usedMemoryMib = saturatingAdd node.usedMemoryMib pool.memoryMib

theorem occupied (node : Node) (pool : Pool) : Occupied node (node.occupy pool) pool := by
  refine ⟨?_, fun name other => ?_, fun some_idle => ?_, fun none_idle => ?_⟩
  · unfold Node.occupy
    split_ifs <;> rfl
  · rw [Node.idle_occupy, if_neg other]
  · rw [Node.idle_occupy, if_pos rfl, Node.occupy, if_pos some_idle]
    exact ⟨by omega, rfl, rfl⟩
  · rw [Node.idle_occupy, if_pos rfl, Node.occupy, if_neg (by omega)]
    exact ⟨by omega, rfl, rfl⟩

/-- The execution goes to the node; nothing else changes but the node's counters and the cursor. -/
structure Assigned (c next : Cluster) (execution : Execution) (pool : Pool) (node : Node) :
    Prop where
  frame : next = { c with
    nodes := next.nodes
    executions := next.executions
    roundRobin := (c.roundRobin + 1) % 2 ^ 64
    decisions := next.decisions }
  execution : ∀ id, next.executions.get id = if id = execution.id then
    some { execution with node := some node.id, status := .assigned } else c.executions.get id
  others : ∀ id, id ≠ node.id → next.nodes.get id = c.nodes.get id
  chosen : ∃ after, next.nodes.get node.id = some after ∧ Occupied node after pool

theorem assigned_place {c : Cluster} {execution : Execution} {pool : Pool} {node : Node}
    (choice : Choice c execution pool node) :
    Assigned c (c.place execution pool node.id) execution pool node := by
  refine ⟨rfl, fun id => ?_, fun id other => ?_,
    node.occupy pool, ?_, occupied node pool⟩
  · rw [place_get]
    split_ifs with own
    · rw [own, choice.present]
      rfl
    · rfl
  · simp only [place, Keyed.get_adjust, if_neg other]
  · simp only [place, Keyed.get_adjust_self, choice.there, Option.map_some]

/-- `schedule` succeeds exactly when the execution can be scheduled. It chooses a node that can take an
instance, one with an idle instance when there is any, and changes that node's counters, the execution
and the cursor. -/
theorem schedule_meets_spec (c : Cluster) (id : Uuid) (execution : Execution)
    (present : c.executions.get id = some execution) (_queued : execution.status = .queued) :
    (c.schedule id = none ↔ ¬ c.Schedulable execution.pool) ∧
      ∀ next, c.schedule id = some next → ∃ pool node,
        c.pools.get execution.pool = some pool ∧ c.nodes.get node.id = some node ∧
        c.Takes pool node ∧
        (∀ other, c.nodes.get other.id = some other → c.Takes pool other →
          0 < other.idle pool.name → 0 < node.idle pool.name) ∧
        Assigned c next execution pool node := by
  constructor
  · rw [schedule_eq_none_iff, ← accepts_iff]
    constructor
    · intro refuses
      exact refuses execution present
    · intro refuses other found
      obtain rfl := Option.some.inj (present.symm.trans found)
      exact refuses
  · intro next scheduled
    obtain ⟨chosen, pool, node, own, choice, preferred, rfl⟩ := schedule_chosen scheduled
    have same : chosen = execution :=
      Option.some.inj (choice.present.symm.trans (own.symm ▸ present))
    subst same
    exact ⟨pool, node, choice.known, choice.there, (takes_iff c pool node).mp choice.eligible,
      fun other there takes idle => preferred other there ((takes_iff c pool other).mpr takes) idle,
      assigned_place choice⟩

end Cluster

namespace Demo

/-- A node with capacity for one instance that holds the image, and so many idle instances of the pool. -/
def worker (id : Uuid) (idle : Nat) : Node :=
  ⟨id, "node", 1000, 1000, none, none, idle * 100, idle * 100, {1}, ∅,
    (∅ : Keyed.Table String Nat).insert ("p", idle), [], .ready, 0, false⟩

def workerPool (maxInstances : Option Nat) (reuse : Bool) : Pool :=
  ⟨"p", 1, 3, maxInstances, 100, 100, 1, 60, 60, reuse, false, [], none, none, none, []⟩

def waiting (id : Uuid) : Execution :=
  ⟨id, "p", none, .queued, .null, ∅, none, none, 0, none, none, none, none⟩

/-- Two nodes, the second with an idle instance, and an execution that waits. -/
def pair : Cluster :=
  { Cluster.empty with
    pools := (∅ : Keyed Pool.name).insert (workerPool (some 2) false)
    nodes := ((∅ : Keyed Node.id).insert (worker 1 0)).insert (worker 2 1)
    executions := (∅ : Keyed Execution.id).insert (waiting 9) }

end Demo

namespace Cluster

/-- The idle instance on the second node is taken. -/
theorem schedule_meets_spec_pair :
    ∃ next, Demo.pair.schedule 9 = some next ∧ (next.executions.get 9).any
        (fun execution : Execution => execution.node = some 2) = true ∧
      ∃ pool node, Demo.pair.Takes pool node ∧
        Assigned Demo.pair next (Demo.waiting 9) pool node := by
  have taken : (Demo.pair.schedule 9).any (fun next => (next.executions.get 9).any
      (fun execution : Execution => execution.node = some 2)) = true := by decide +kernel
  obtain ⟨next, scheduled, taken⟩ := (Option.any_eq_true _ _).mp taken
  obtain ⟨pool, node, -, -, takes, -, assigned⟩ :=
    (schedule_meets_spec Demo.pair 9 (Demo.waiting 9) rfl rfl).2 next scheduled
  exact ⟨next, scheduled, taken, pool, node, takes, assigned⟩

end Cluster
end Scraperack
