import Scraperack.Ledger

/-! The restart of an environment's pool: what waited in the old pool waits in the new one, and what it
held on the nodes is given back. -/

namespace Scraperack
open Counters

namespace Cluster

/-- The executions of the pool that are assigned to the node. -/
def assignedOn (c : Cluster) (pool : String) (id : Uuid) : Nat :=
  c.executions.count (fun execution => execution.pool = pool && assignedTo id execution)

/-- What a restart of the pool is to give back on the node: what the assigned executions take, and the
idle instances too if the pool goes. -/
def handedBack (c : Cluster) (pool : Pool) (node : Node) (r : Resource) : Nat :=
  c.assignedOn pool.name node.id * pool.size r +
    if runningIn pool.name c then 0 else node.idle pool.name * pool.size r

/-- The counters of the node cover what a restart of the pool gives back. -/
def CoversRestart (c : Cluster) (pool : Pool) : Prop :=
  ∀ id node, c.nodes.get id = some node → ∀ r, c.handedBack pool node r ≤ node.used r

/-- The counters are 32-bit numbers, as their types in the source have it. -/
def Narrow (c : Cluster) : Prop :=
  ∀ id node, c.nodes.get id = some node → ∀ r, node.used r ≤ u32Max

end Cluster

/-- The restart conserves the work of the pool: what waited there waits in the new pool, the old pool
stays as long as something runs in it, and the nodes get back exactly what is given up. -/
structure HandedOver (c : Cluster) (environment : Environment) (pool : Pool)
    (result : Restarted) : Prop where
  completes : result.panicked = false
  reassigned : ∀ id, id ∈ result.reassigned ↔ ∃ execution, c.executions.get id = some execution ∧
    execution.pool = pool.name ∧ (execution.status = .queued ∨ execution.status = .assigned)
  once : result.reassigned.Nodup
  executions : ∀ id, result.cluster.executions.get id =
    if id ∈ result.reassigned then (c.executions.get id).map (fun execution =>
      { execution with
        pool := result.environment.pool, node := none, status := .queued, startedAtMs := none })
    else c.executions.get id
  stays : runningIn pool.name c = true →
    result.cluster.pools.get pool.name = some { pool with warmInstances := 0 } ∧
    ∀ id node, result.cluster.nodes.get id = some node → ∃ before, c.nodes.get id = some before ∧
      ∀ name, node.idle name = before.idle name
  goes : runningIn pool.name c = false →
    result.cluster.pools.get pool.name = none ∧
    ∀ id node, result.cluster.nodes.get id = some node → ∃ before, c.nodes.get id = some before ∧
      ∀ name, node.idle name = if name = pool.name then 0 else before.idle name
  renamed : result.environment = { environment with pool := result.environment.pool }
  opened : result.cluster.pools.get result.environment.pool =
    some (environmentPool result.environment)
  others : ∀ name, name ≠ pool.name → name ≠ result.environment.pool →
    result.cluster.pools.get name = c.pools.get name
  counters : ∀ id node, c.nodes.get id = some node → ∃ after,
    result.cluster.nodes.get id = some after ∧
    ∀ r, after.used r + c.handedBack pool node r = node.used r

/-! The loop. -/

section Loop
variable {c : Cluster} {pool : Pool}

/-- The execution is assigned to the node. -/
def holdsOn (c : Cluster) (node id : Uuid) : Bool :=
  (c.executions.get id).any (assignedTo node)

/-- One round gives an instance back on the node that the execution is assigned to. -/
theorem requeue_node (known : c.pools.get pool.name = some pool) (name : String) {id : Uuid}
    {execution : Execution} (present : c.executions.get id = some execution)
    (own : execution.pool = pool.name) (k : Uuid) {node : Node}
    (there : c.nodes.get k = some node) :
    ∃ after, (requeue name c id).nodes.get k = some after ∧
      (∀ name, after.idle name = node.idle name) ∧
      ∀ r, after.used r = node.used r - if holdsOn c k id then pool.size r else 0 := by
  have untouched (same : (requeue name c id).nodes.get k = c.nodes.get k)
      (elsewhere : holdsOn c k id = false) :
      ∃ after, (requeue name c id).nodes.get k = some after ∧
        (∀ name, after.idle name = node.idle name) ∧
        ∀ r, after.used r = node.used r - if holdsOn c k id then pool.size r else 0 :=
    ⟨node, same.trans there, fun _ => rfl, fun r => by simp [elsewhere]⟩
  cases assigned : decide (execution.status = .assigned) with
  | false =>
    refine untouched ?_ (by simp [holdsOn, present, assignedTo, assigned])
    simp only [requeue, present, Option.any_some, assigned, Bool.false_eq_true, if_false]
  | true =>
    have nodes : (requeue name c id).nodes = (c.release id false).nodes := by
      simp only [requeue, present, Option.any_some, assigned, if_true]
    cases placed : execution.node with
    | none =>
      refine untouched ?_ (by simp [holdsOn, present, assignedTo, placed])
      rw [nodes]
      simp [Cluster.release, present, placed]
    | some holder =>
      rw [Cluster.release_of_get false present placed (own ▸ known)] at nodes
      by_cases same : k = holder
      · subst same
        refine ⟨node.vacate pool false, ?_, fun name => by simp [Node.idle_vacate], fun r => ?_⟩
        · rw [nodes, Keyed.get_adjust_self, there]
          rfl
        · have here : holdsOn c k id = true := by
            simpa [holdsOn, present, assignedTo, placed] using assigned
          rw [here, if_pos rfl]
          exact node.used_free pool r
      · refine untouched ?_ (by
          simp [holdsOn, present, assignedTo, placed, Ne.symm same])
        rw [nodes, Keyed.get_adjust_ne _ _ _ same]

theorem holdsOn_requeue (name : String) {id other : Uuid} (differs : other ≠ id) (k : Uuid) :
    holdsOn (requeue name c id) k other = holdsOn c k other := by
  rw [holdsOn, requeue_get, if_neg differs, holdsOn]

/-- The loop gives back one instance for each listed execution that is assigned to the node. -/
theorem requeueAll_node {ids : List Uuid} (name : String)
    (known : c.pools.get pool.name = some pool) (once : ids.Nodup)
    (listed : ∀ id ∈ ids, ∃ execution, c.executions.get id = some execution ∧
      execution.pool = pool.name) (k : Uuid) {node : Node} (there : c.nodes.get k = some node) :
    ∃ after, (ids.foldl (requeue name) c).nodes.get k = some after ∧
      (∀ name, after.idle name = node.idle name) ∧
      ∀ r, after.used r = node.used r - ids.countP (holdsOn c k) * pool.size r := by
  induction ids generalizing c node with
  | nil => exact ⟨node, there, fun _ => rfl, fun r => by simp⟩
  | cons id rest ih =>
    obtain ⟨absent, once⟩ := List.nodup_cons.mp once
    obtain ⟨execution, present, own⟩ := listed id List.mem_cons_self
    obtain ⟨next, moved, idle, used⟩ := requeue_node known name present own k there
    have differs {other : Uuid} (member : other ∈ rest) : other ≠ id :=
      fun same => absent (same ▸ member)
    obtain ⟨after, final, still, less⟩ := ih (c := requeue name c id)
      (by rwa [requeue_pools]) once (fun other member => by
        rw [requeue_get, if_neg (differs member)]
        exact listed other (List.mem_cons_of_mem _ member)) moved
    refine ⟨after, final, fun name => (still name).trans (idle name), fun r => ?_⟩
    have counted : rest.countP (holdsOn (requeue name c id) k) =
        rest.countP (holdsOn c k) :=
      List.countP_congr (fun other member => by rw [holdsOn_requeue name (differs member)])
    rw [less, used, counted, List.countP_cons, Nat.add_mul]
    split_ifs <;> omega

theorem countP_reassignedIds (c : Cluster) (pool : String) (k : Uuid) :
    (reassignedIds pool c).countP (holdsOn c k) = c.assignedOn pool k := by
  have found (execution : Execution) (member : execution ∈ c.executions.values) :
      holdsOn c k execution.id = assignedTo k execution := by
    rw [holdsOn, (Keyed.mem_values_iff _ _).mp member, Option.any_some]
  rw [reassignedIds, List.countP_map, List.countP_eq_length_filter, List.filter_filter,
    Cluster.assignedOn, Keyed.count]
  congr 1
  refine List.filter_congr (fun execution member => ?_)
  rw [Function.comp_apply, found execution member]
  unfold assignedTo
  cases execution.status <;> simp [Bool.and_comm]

/-- What the loop leaves of a node. -/
theorem moved_node (name : String) (known : c.pools.get pool.name = some pool) {k : Uuid}
    {node : Node} (there : c.nodes.get k = some node) :
    ∃ after, (moved name pool.name c).nodes.get k = some after ∧
      (∀ name, after.idle name = node.idle name) ∧
      ∀ r, after.used r = node.used r - c.assignedOn pool.name k * pool.size r := by
  rw [← countP_reassignedIds]
  exact requeueAll_node name known (nodup_reassignedIds pool.name c) (fun id member =>
    (mem_reassignedIds pool.name c id).mp member |>.imp
      (fun _ listed => ⟨listed.1, listed.2.1⟩)) k there

/-- The loop adds no node. -/
theorem moved_node_before (name : String) (known : c.pools.get pool.name = some pool) {k : Uuid}
    {after : Node} (there : (moved name pool.name c).nodes.get k = some after) :
    ∃ node, c.nodes.get k = some node ∧ ∀ name, after.idle name = node.idle name := by
  cases before : c.nodes.get k with
  | some node =>
    obtain ⟨same, final, idle, -⟩ := moved_node name known before
    obtain rfl := Option.some.inj (final.symm.trans there)
    exact ⟨node, rfl, idle⟩
  | none =>
    have absent (ids : List Uuid) (c : Cluster) (none_there : c.nodes.get k = none) :
        (ids.foldl (requeue name) c).nodes.get k = none := by
      induction ids generalizing c with
      | nil => exact none_there
      | cons id rest ih =>
        refine ih _ ?_
        have released : (c.release id false).nodes.get k = none := by
          unfold Cluster.release
          split
          · exact none_there
          · split
            · exact none_there
            · split
              · exact none_there
              · rw [Keyed.get_adjust, none_there]
                split_ifs <;> rfl
        unfold requeue
        dsimp only
        split_ifs
        · exact released
        · exact none_there
    rw [moved, absent _ c before] at there
    cases there

end Loop

section Restart
variable {c : Cluster} {environment : Environment} {pool : Pool} {fresh : Uuid}

section Outcomes
variable {name : String} (known : c.pools.get pool.name = some pool) (differs : name ≠ pool.name)

theorem quieted_pool (known : c.pools.get pool.name = some pool) (name : String) :
    ((moved name pool.name c).quietPool pool.name).pools.get pool.name =
      some { pool with warmInstances := 0 } := by
  simp only [Cluster.quietPool, Keyed.get_adjust_self, moved_pools, known, Option.map_some]

theorem quieted_other (name : String) {other : String} (apart : other ≠ pool.name) :
    ((moved name pool.name c).quietPool pool.name).pools.get other = c.pools.get other := by
  simp only [Cluster.quietPool, Keyed.get_adjust, if_neg apart, moved_pools]

theorem removed_pool (name : String) :
    ((moved name pool.name c).removePool pool.name).pools.get pool.name = none := by
  rw [Cluster.removePool_pools, Keyed.get_erase_self]

theorem removed_other (name : String) {other : String} (apart : other ≠ pool.name) :
    ((moved name pool.name c).removePool pool.name).pools.get other = c.pools.get other := by
  rw [Cluster.removePool_pools, Keyed.get_erase_ne _ apart, moved_pools]

theorem removed_node (known : c.pools.get pool.name = some pool) (name : String) (id : Uuid) :
    ((moved name pool.name c).removePool pool.name).nodes.get id =
      ((moved name pool.name c).nodes.get id).map (fun node => node.forgetPool pool) := by
  rw [Cluster.removePool_of_get (by rw [moved_pools]; exact known)]
  simp only [Keyed.get_map]

include known differs

/-- Where something runs in the pool, it stays without idle instances to keep. -/
theorem HandedOver.of_quieted (runs : runningIn pool.name c = true)
    (covers : c.CoversRestart pool) :
    HandedOver c environment pool
      ⟨{ (moved name pool.name c).quietPool pool.name with
          pools := ((moved name pool.name c).quietPool pool.name).pools.insert
            (environmentPool { environment with pool := name }) },
        { environment with pool := name }, reassignedIds pool.name c, false⟩ := by
  refine ⟨rfl, fun id => mem_reassignedIds pool.name c id, nodup_reassignedIds _ c,
    fun id => moved_get name pool.name c id, fun _ => ⟨?_, ?_⟩, ?_, rfl,
    Keyed.get_insert_self _ (environmentPool _), fun other apart another => ?_, ?_⟩
  · rw [← quieted_pool known name]
    exact Keyed.get_insert_ne _ differs.symm
  · exact fun id node there => moved_node_before _ known there
  · intro rests
    rw [runs] at rests
    cases rests
  · rw [← quieted_other (c := c) name apart]
    exact Keyed.get_insert_ne _ another
  · intro id node there
    obtain ⟨after, final, -, used⟩ := moved_node name known there
    refine ⟨after, final, fun r => ?_⟩
    have covered := covers id node there r
    have here := Keyed.key_of_get there
    simp only [Cluster.handedBack, runs, if_true, here, Nat.add_zero] at covered ⊢
    rw [used]
    omega

/-- Where nothing runs in the pool, it goes with its idle instances. -/
theorem HandedOver.of_removed (rests : runningIn pool.name c = false) (narrow : c.Narrow)
    (covers : c.CoversRestart pool) :
    HandedOver c environment pool
      ⟨{ (moved name pool.name c).removePool pool.name with
          pools := ((moved name pool.name c).removePool pool.name).pools.insert
            (environmentPool { environment with pool := name }) },
        { environment with pool := name }, reassignedIds pool.name c, false⟩ := by
  have nodes := removed_node known name
  refine ⟨rfl, fun id => mem_reassignedIds pool.name c id, nodup_reassignedIds _ c, fun id => ?_,
    ?_, fun _ => ⟨?_, ?_⟩, rfl, Keyed.get_insert_self _ (environmentPool _),
    fun other apart another => ?_, ?_⟩
  · exact (congrArg (fun executions => executions.get id)
      (Cluster.removePool_executions _ _)).trans (moved_get name pool.name c id)
  · intro runs
    rw [runs] at rests
    cases rests
  · rw [← removed_pool (c := c) name]
    exact Keyed.get_insert_ne _ differs.symm
  · intro id node there
    obtain ⟨after, final, rfl⟩ := Option.map_eq_some_iff.mp ((nodes id).symm.trans there)
    obtain ⟨before, found, idle⟩ := moved_node_before _ known final
    refine ⟨before, found, fun name => ?_⟩
    rw [Node.idle_forgetPool, idle]
  · rw [← removed_other (c := c) name apart]
    exact Keyed.get_insert_ne _ another
  · intro id node there
    obtain ⟨after, final, idle, used⟩ := moved_node name known there
    refine ⟨after.forgetPool pool, ?_, fun r => ?_⟩
    · exact (nodes id).trans (congrArg _ final)
    · have covered := covers id node there r
      have word := narrow id node there r
      have here := Keyed.key_of_get there
      simp only [Cluster.handedBack, rests, Bool.false_eq_true, if_false, here] at covered ⊢
      have whole : saturatingMul (pool.size r) (node.idle pool.name) =
          node.idle pool.name * pool.size r := by
        rw [saturatingMul_of_le] <;> rw [Nat.mul_comm]
        omega
      rw [Node.forgetPool, Node.used_freeMany, Node.used_dropIdle, idle, whole, used,
        saturatingSub]
      omega

end Outcomes

/-- A restart conserves the work exactly when the counters cover what it gives back. -/
theorem handedOver_iff (narrow : c.Narrow) (known : c.pools.get environment.pool = some pool)
    (unused : c.pools.get (restartedPoolName environment.id fresh) = none) :
    HandedOver c environment pool (restartEnvironmentPool fresh environment c) ↔
      c.CoversRestart pool := by
  constructor
  · intro conserved id node there r
    obtain ⟨after, -, exact⟩ := conserved.counters id node there
    have sum := exact r
    omega
  · intro covers
    have own : pool.name = environment.pool := Keyed.key_of_get known
    have known : c.pools.get pool.name = some pool := own ▸ known
    have differs : restartedPoolName environment.id fresh ≠ pool.name := by
      intro same
      rw [same, known] at unused
      cases unused
    have running := runningIn_moved (restartedPoolName environment.id fresh) pool.name c
    rcases restartEnvironmentPool_cases fresh environment c with
      ⟨_, -, runs, result⟩ | ⟨absent, -⟩ | ⟨rests, result⟩
    · rw [← own] at runs result
      rw [result]
      exact HandedOver.of_quieted known differs (running ▸ runs) covers
    · rw [← own, known] at absent
      cases absent
    · rw [← own] at rests result
      rw [result]
      exact HandedOver.of_removed known differs (running ▸ rests) narrow covers

/-- What the assigned executions of the pool take is part of the load. -/
theorem assignedOn_le_activeLoad (known : c.pools.get pool.name = some pool) (id : Uuid)
    (r : Resource) : c.assignedOn pool.name id * pool.size r ≤ c.activeLoad id r := by
  have each : c.assignedOn pool.name id * pool.size r = c.executions.total (fun execution =>
      if execution.pool = pool.name && assignedTo id execution then pool.size r else 0) := by
    rw [Cluster.assignedOn, Keyed.count_eq_total, Keyed.total, Keyed.total,
      ← List.sum_map_mul_right]
    congr 2
    funext execution
    split_ifs <;> simp
  rw [each]
  refine Keyed.total_le (fun _ execution _ => ?_)
  split_ifs with held
  · simp only [assignedTo, Bool.and_eq_true, decide_eq_true_eq] at held
    simp [Cluster.weight, Execution.occupiesOn, held, Cluster.poolSize_of_get known,
      ExecutionStatus.onNode]
  · exact Nat.zero_le _

/-- Exact counters cover what a restart gives back. -/
theorem Exact.coversRestart (exact : Exact c) (known : c.pools.get pool.name = some pool) :
    c.CoversRestart pool := by
  intro id node there r
  have assigned := assignedOn_le_activeLoad known node.id r
  have idle := Cluster.idle_le_idleLoad node known r
  rw [(exact id node there).1 r, Cluster.handedBack, Cluster.load]
  split_ifs <;> omega

end Restart

namespace System

/-- A restart conserves the work of the pool exactly when the counters cover what it gives back. They
do in every state of a run in which the sums fit and no update changes the size of a pool in use. -/
theorem restarts_conserve_work [Crates] :
    (∀ (c : Cluster) (environment : Environment) (pool : Pool) (id : Uuid), c.Narrow →
      c.pools.get environment.pool = some pool →
      c.pools.get (restartedPoolName environment.id id) = none →
      (HandedOver c environment pool (restartEnvironmentPool id environment c) ↔
        c.CoversRestart pool)) ∧
    ∀ s t : System, Fresh s →
      Run (fun s label => Fits s.cluster ∧ s.KeepsSizes label) s t → Fits t.cluster →
      ∀ (environment : Environment) (pool : Pool) (id : Uuid),
        t.cluster.pools.get environment.pool = some pool →
        t.cluster.pools.get (restartedPoolName environment.id id) = none →
        HandedOver t.cluster environment pool
          (restartEnvironmentPool id environment t.cluster) := by
  refine ⟨fun c environment pool id narrow known unused => handedOver_iff narrow known unused, ?_⟩
  intro s t fresh run fits environment pool id known unused
  have exact := fresh.exact_run run fits
  have narrow : t.cluster.Narrow := by
    intro k node there r
    rw [(exact k node there).1 r]
    exact fits k node there r
  exact (handedOver_iff narrow known unused).mpr
    (exact.coversRestart (Keyed.get_congr known))

end System

namespace Demo

/-- A client's pool under the name of the environment's, with instances of half the size. -/
def smallerPool : Pool := { otherPool with cpuMillis := 50 }

/-- An update reads the environment, its pool is replaced and warmed, and the update goes on. -/
def shrinking : List Label :=
  installation ++ creating ++ [.checkEnvironment (some environment) environmentRequest] ++
    request 1 (.deletePool pool) 2 ++ request 1 (.createPool smallerPool) 2 ++
    nodeRequest 1 (.addWarmInstance pool) 3 ++ [.enter 0 (input 5)]

end Demo

namespace System

/-- An environment is created and warmed, and an execution is assigned; its pool is restarted. -/
theorem restarts_conserve_work_assigned :
    ∃ t, @Run Demo.crates (fun s label => Fits s.cluster ∧ s.KeepsSizes label) Demo.empty t ∧
      ∃ environment pool, t.cluster.environments.get Demo.environment = some environment ∧
        (restartEnvironmentPool 77 environment t.cluster).reassigned = [8] ∧
        HandedOver t.cluster environment pool
          (restartEnvironmentPool 77 environment t.cluster) := by
  obtain ⟨t, run, reached⟩ := Runs.exists_reaches (@step Demo.crates)
    (fun s label => restarts label = false ∧ Fits s.cluster ∧ s.KeepsSizes label) Demo.empty
    Demo.assigning
    (fun t => decide (Fits t.cluster) &&
      (t.cluster.environments.get Demo.environment).any (fun environment =>
        (t.cluster.pools.get environment.pool).isSome &&
        !t.cluster.pools.contains (restartedPoolName environment.id 77) &&
        decide ((restartEnvironmentPool 77 environment t.cluster).reassigned = [8])))
    (by decide +kernel)
  simp only [Bool.and_eq_true, decide_eq_true_eq, Option.any_eq_true, Bool.not_eq_true',
    Option.isSome_iff_exists] at reached
  obtain ⟨fits, environment, present, ⟨⟨pool, known⟩, unused⟩, moved⟩ := reached
  exact ⟨t, run, environment, pool, present, moved,
    (@restarts_conserve_work Demo.crates).2 _ _ fresh_empty run fits environment pool 77 known
      ((Keyed.contains_eq_false_iff _ _).mp unused)⟩

/-- A pool that was replaced in the meantime is overwritten with instances of twice the size; the
restart takes more from the counter than it holds. -/
theorem restart_overdraws : ¬ ∀ [Crates] (s t : System), s.Fresh →
    Run (fun s _ => Fits s.cluster) s t → Fits t.cluster →
    ∀ (environment : Environment) (pool : Pool) (id : Uuid),
      t.cluster.environments.get environment.id = some environment →
      t.cluster.pools.get environment.pool = some pool →
      t.cluster.pools.get (restartedPoolName environment.id id) = none →
      HandedOver t.cluster environment pool (restartEnvironmentPool id environment t.cluster) := by
  intro claim
  obtain ⟨t, run, drifted⟩ := Runs.exists_reaches (@step Demo.crates)
    (fun s label => restarts label = false ∧ Fits s.cluster)
    Demo.empty Demo.shrinking
    (fun t => decide (Fits t.cluster) &&
      (t.cluster.environments.get Demo.environment).any (fun environment =>
        (t.cluster.pools.get environment.pool).any (fun pool =>
          !t.cluster.pools.contains (restartedPoolName environment.id 77) &&
          (t.cluster.nodes.get Demo.node).any (fun node : Node =>
            decide (node.used .cpu < t.cluster.handedBack pool node .cpu)))))
    (by decide +kernel)
  simp only [Bool.and_eq_true, decide_eq_true_eq, Option.any_eq_true, Bool.not_eq_true']
    at drifted
  obtain ⟨fits, environment, present, pool, known, unused, node, there, short⟩ := drifted
  have own := Keyed.key_of_get present
  have conserved := @claim Demo.crates _ _ fresh_empty run fits environment pool 77
    (own ▸ present) known ((Keyed.contains_eq_false_iff _ _).mp unused)
  obtain ⟨after, -, exact⟩ := conserved.counters Demo.node node there
  have sum := exact .cpu
  omega

end System
end Scraperack
