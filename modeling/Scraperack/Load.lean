import Scraperack.Names

/-! What a node's instances take, move by move. The used counters of a node are the resources of
its idle instances and of the executions on it: exactly so while instances are shed, and
clamped at the top of the 32 bits while they are added. -/

namespace Scraperack
open Counters

namespace Cluster

/-- The size of an instance of the named pool; an unknown pool has none. -/
def poolSize (c : Cluster) (name : String) (r : Resource) : Nat :=
  ((c.pools.get name).map (fun pool => pool.size r)).getD 0

/-- What the idle instances of the node take. -/
def idleLoad (c : Cluster) (node : Node) (r : Resource) : Nat :=
  c.pools.total (fun pool => node.idle pool.name * pool.size r)

/-- What one execution takes on a node. -/
def weight (c : Cluster) (id : Uuid) (r : Resource) (execution : Execution) : Nat :=
  if execution.occupiesOn id then c.poolSize execution.pool r else 0

/-- What the executions on the node take. -/
def activeLoad (c : Cluster) (id : Uuid) (r : Resource) : Nat := c.executions.total (c.weight id r)

/-- What the node's used counters are meant to count. -/
def load (c : Cluster) (node : Node) (r : Resource) : Nat :=
  c.idleLoad node r + c.activeLoad node.id r

end Cluster

/-- Idle instances belong to known pools. -/
def Owned (c : Cluster) : Prop :=
  ∀ k node, c.nodes.get k = some node → ∀ name, 0 < node.idle name →
    (c.pools.get name).isSome = true

/-- The counters of the node hold exactly what they should, and that fits. -/
structure Tracked (c : Cluster) (node : Node) : Prop where
  exact : ∀ r, node.used r = c.load node r
  fits : ∀ r, c.load node r ≤ u32Max
  unclamped : node.clamped = false

/-- The counters of the node hold what they should, as far as 32 bits go. -/
structure Capped (c : Cluster) (node : Node) : Prop where
  capped : ∀ r, node.used r = min (c.load node r) u32Max
  unclamped : node.clamped = false

/-- Every node is tracked. -/
def Balanced (c : Cluster) : Prop := ∀ k node, c.nodes.get k = some node → Tracked c node

theorem Tracked.capped {c : Cluster} {node : Node} (tracked : Tracked c node) : Capped c node :=
  ⟨fun r => by rw [tracked.exact, Nat.min_eq_left (tracked.fits r)], tracked.unclamped⟩

theorem Capped.tracked {c : Cluster} {node : Node} (capped : Capped c node)
    (fits : ∀ r, c.load node r ≤ u32Max) : Tracked c node :=
  ⟨fun r => by rw [capped.capped, Nat.min_eq_left (fits r)], fits, capped.unclamped⟩

/-! How the load changes. -/

namespace Cluster
variable {c : Cluster}

theorem poolSize_of_get {name : String} {pool : Pool} (known : c.pools.get name = some pool)
    (r : Resource) :
    c.poolSize name r = pool.size r := by
  simp [poolSize, known]

theorem weight_congr {next : Cluster} (pools : next.pools = c.pools) (id : Uuid) (r : Resource) :
    next.weight id r = c.weight id r := by
  funext execution
  simp only [weight, poolSize, pools]

/-- The load is settled by the pools, the executions, the idle instances and the identifier. -/
theorem load_congr {next : Cluster} {node after : Node} (pools : next.pools = c.pools)
    (executions : next.executions = c.executions) (idle : ∀ name, after.idle name = node.idle name)
    (own : after.id = node.id) (r : Resource) : next.load after r = c.load node r := by
  simp only [load, idleLoad, activeLoad, weight_congr pools, pools, executions, idle, own]

/-- When the idle instances of one known pool change, the load follows. -/
theorem idleLoad_change (node after : Node) {pool : Pool}
    (known : c.pools.get pool.name = some pool)
    (others : ∀ name, name ≠ pool.name → after.idle name = node.idle name) (r : Resource) :
    c.idleLoad after r + node.idle pool.name * pool.size r = c.idleLoad node r +
      after.idle pool.name * pool.size r := by
  unfold idleLoad
  apply Keyed.total_change known
  intro k other found differ
  have own := Keyed.key_of_get found
  rw [others other.name (fun same => differ (own.symm.trans same))]

theorem idleLoad_congr {node after : Node} (idle : ∀ name, after.idle name = node.idle name)
    (r : Resource) :
    c.idleLoad after r = c.idleLoad node r := by
  simp only [idleLoad, idle]

/-- The idle instances of a known pool are part of the load. -/
theorem idle_le_idleLoad (node : Node) {pool : Pool} (known : c.pools.get pool.name = some pool)
    (r : Resource) :
    node.idle pool.name * pool.size r ≤ c.idleLoad node r :=
  Keyed.le_total known (fun pool => node.idle pool.name * pool.size r)

/-- The executions on a node weigh the same as long as their pools keep their size. -/
theorem activeLoad_congr (next : Cluster) (executions : next.executions = c.executions)
    (sizes : ∀ id execution, c.executions.get id = some execution → execution.status.onNode = true →
      ∀ r, next.poolSize execution.pool r =
        c.poolSize execution.pool r) (id : Uuid) (r : Resource) :
    next.activeLoad id r = c.activeLoad id r := by
  unfold activeLoad
  rw [executions]
  apply Keyed.total_congr
  intro k execution present
  by_cases on : execution.occupiesOn id = true
  · simp only [Execution.occupiesOn, Bool.and_eq_true] at on
    simp only [weight, Execution.occupiesOn, on, Bool.and_true, sizes k execution present on.2 r]
  · simp [weight, on]

theorem weight_of_not_onNode {id : Uuid} {execution : Execution}
    (off : execution.status.onNode = false)
    (r : Resource) : c.weight id r execution = 0 := by
  simp [weight, Execution.occupiesOn, off]

theorem activeLoad_adjust (next : Cluster) {k : Uuid} {execution : Execution}
    (f : Execution → Execution)
    (keeps : ∀ execution, (f execution).id = execution.id)
    (present : c.executions.get k = some execution)
    (pools : next.pools = c.pools) (executions : next.executions =
      c.executions.adjust k f keeps) (id : Uuid)
    (r : Resource) :
    next.activeLoad id r + c.weight id r execution = c.activeLoad id r +
      c.weight id r (f execution) := by
  unfold activeLoad
  rw [weight_congr pools, executions]
  exact Keyed.total_adjust present f keeps _

theorem activeLoad_erase (next : Cluster) {k : Uuid} {execution : Execution}
    (present : c.executions.get k = some execution) (pools : next.pools = c.pools)
    (executions : next.executions = c.executions.erase k) (id : Uuid) (r : Resource) :
    next.activeLoad id r + c.weight id r execution = c.activeLoad id r := by
  unfold activeLoad
  rw [weight_congr pools, executions, Keyed.total_erase present (c.weight id r)]
  exact Nat.add_comm ..

theorem idleLoad_congr_pools {next : Cluster} (pools : next.pools = c.pools) (node : Node)
    (r : Resource) :
    next.idleLoad node r = c.idleLoad node r := by
  simp only [idleLoad, pools]

end Cluster

/-! What becomes of one node. -/

/-- A node that gives back part of what it holds stays tracked. -/
theorem Tracked.give {c next : Cluster} {node after : Node} (tracked : Tracked c node)
    (amount : Resource → Nat)
    (used : ∀ r, after.used r = saturatingSub (node.used r) (amount r))
    (load : ∀ r, next.load after r + amount r = c.load node r)
    (unclamped : (∀ r, amount r ≤ node.used r) →
      after.clamped = node.clamped) : Tracked next after := by
  have part (r : Resource) : amount r ≤ node.used r := by
    rw [tracked.exact, ← load]
    omega
  refine ⟨fun r => ?_, fun r => ?_, ?_⟩
  · rw [used, tracked.exact, ← load, saturatingSub_part]
  · have bound := tracked.fits r
    rw [← load] at bound
    omega
  · rw [unclamped part]
    exact tracked.unclamped

/-- A node whose counters and whose load stay the same stays tracked. -/
theorem Tracked.same {c next : Cluster} {node after : Node} (tracked : Tracked c node)
    (used : ∀ r, after.used r = node.used r) (load : ∀ r, next.load after r = c.load node r)
    (unclamped : after.clamped = node.clamped) : Tracked next after :=
  ⟨fun r => by rw [used, load, tracked.exact], fun r => by rw [load]; exact tracked.fits r,
    by rw [unclamped]; exact tracked.unclamped⟩

/-- A node is tracked as before when pools and executions are as before. -/
theorem Tracked.frame {c next : Cluster} {node : Node} (tracked : Tracked c node)
    (pools : next.pools = c.pools)
    (executions : next.executions = c.executions) : Tracked next node :=
  tracked.same (fun _ => rfl) (fun r =>
    Cluster.load_congr pools executions (fun _ => rfl) rfl r) rfl

/-- A node that takes one instance more stays capped. -/
theorem Capped.take {c next : Cluster} {node after : Node} (capped : Capped c node)
    (amount : Resource → Nat)
    (used : ∀ r, after.used r = saturatingAdd (node.used r) (amount r))
    (load : ∀ r, next.load after r = c.load node r + amount r)
    (unclamped : after.clamped = node.clamped) : Capped next after := by
  refine ⟨fun r => ?_, by rw [unclamped]; exact capped.unclamped⟩
  rw [used, capped.capped, saturatingAdd_clamped, load]

theorem Capped.same {c next : Cluster} {node after : Node} (capped : Capped c node)
    (used : ∀ r, after.used r = node.used r) (load : ∀ r, next.load after r = c.load node r)
    (unclamped : after.clamped = node.clamped) : Capped next after :=
  ⟨fun r => by rw [used, load, capped.capped], by rw [unclamped]; exact capped.unclamped⟩

/-! Shedding keeps every node exact. -/

section
variable {c next : Cluster} {node : Node}

/-- An execution leaves the node it is on, if it is on this one. -/
theorem Tracked.leave {id : Uuid} {execution : Execution} (tracked : Tracked c node)
    (present : c.executions.get id = some execution) (on : execution.status.onNode = true)
    (pools : next.pools = c.pools)
    (lighter : ∀ r, next.activeLoad node.id r + c.weight node.id r execution =
      c.activeLoad node.id r)
    (keepIdle : Bool) : Tracked next (Move.releaseOn c id keepIdle node) := by
  have stays (weightless : ∀ r, c.weight node.id r execution = 0) : Tracked next node := by
    refine tracked.same (fun _ => rfl) (fun r => ?_) rfl
    have same := lighter r
    rw [weightless] at same
    rw [Cluster.load, Cluster.load, Cluster.idleLoad_congr_pools pools]
    omega
  simp only [Move.releaseOn, present]
  cases known : c.pools.get execution.pool with
  | none => exact stays (fun r => by simp [Cluster.weight, Cluster.poolSize, known])
  | some pool =>
    have named : c.pools.get pool.name = some pool := Keyed.get_congr known
    by_cases placed : execution.node = some node.id
    · have weighs (r : Resource) : c.weight node.id r execution = pool.size r := by
        simp [Cluster.weight, Execution.occupiesOn, placed, on, Cluster.poolSize_of_get known]
      simp only [placed, ↓reduceIte]
      cases keepIdle with
      | false =>
        refine tracked.give pool.size (fun r => node.used_free pool r) (fun r => ?_)
          (node.clamped_free pool)
        have same := lighter r
        rw [weighs] at same
        have idle : next.idleLoad (node.vacate pool false) r = c.idleLoad node r := by
          rw [Cluster.idleLoad_congr_pools pools]
          exact Cluster.idleLoad_congr (fun _ => rfl) r
        rw [Cluster.load, Cluster.load, idle, Node.vacate_id]
        omega
      | true =>
        refine tracked.same (fun r => node.used_setIdle ..) (fun r => ?_) rfl
        have same := lighter r
        rw [weighs] at same
        have moved := Cluster.idleLoad_change node (node.vacate pool true) named
          (fun name differ => by simp [Node.idle_vacate, differ]) r
        have part := Cluster.idle_le_idleLoad node named r
        have bound := tracked.fits r
        rw [Cluster.load] at bound
        rw [Node.idle_vacate, if_pos ⟨rfl, rfl⟩, wrapping_succ_mul (by omega)] at moved
        rw [Cluster.load, Cluster.load, Cluster.idleLoad_congr_pools pools, Node.vacate_id]
        omega
    · simp only [placed, ↓reduceIte]
      exact stays (fun r => by simp [Cluster.weight, Execution.occupiesOn, placed])

/-- The instances of a pool that goes were idle ones only. -/
theorem Tracked.forget {pool : Pool} (tracked : Tracked c node)
    (known : c.pools.get pool.name = some pool)
    (unused : Unused c pool.name) (pools : next.pools = c.pools.erase pool.name)
    (executions : next.executions = c.executions) : Tracked next (node.forgetPool pool) := by
  have part (r : Resource) : pool.size r * node.idle pool.name ≤ u32Max := by
    have idle := Cluster.idle_le_idleLoad node known r
    have bound := tracked.fits r
    rw [Cluster.load] at bound
    rw [Nat.mul_comm]
    omega
  refine tracked.give (fun r => saturatingMul (pool.size r) (node.idle pool.name)) (fun r => ?_)
    (fun r => ?_) ?_
  · exact (Node.used_freeMany ..).trans (by rw [Node.used_dropIdle])
  · have idle : next.idleLoad (node.forgetPool pool) r + node.idle pool.name * pool.size r =
      c.idleLoad node r := by
      rw [Cluster.idleLoad, Cluster.idleLoad, pools, Keyed.total_erase known, Nat.add_comm]
      congr 1
      apply Keyed.total_congr
      intro k other found
      rw [Keyed.get_erase] at found
      split_ifs at found with same
      rw [Node.idle_forgetPool, if_neg (fun equal =>
        same ((Keyed.key_of_get found).symm.trans equal))]
    have active : next.activeLoad (node.forgetPool pool).id r = c.activeLoad node.id r := by
      apply Cluster.activeLoad_congr next executions
      intro id execution present on r
      have differ := unused.not_active present (ExecutionStatus.active_of_onNode on)
      simp [Cluster.poolSize, pools, Keyed.get_erase, differ]
    rw [saturatingMul_of_le (part r), Cluster.load, Cluster.load, active, Nat.mul_comm]
    omega
  · intro enough
    exact (Node.clamped_freeMany _ pool _ (fun r => by
      rw [Node.used_dropIdle]; exact enough r)).trans
      (Node.clamped_dropIdle ..)

/-- What `reset_idle_instances` frees for one entry. -/
def freed (pools : Keyed Pool.name) (r : Resource) (entry : String × Nat) : Nat :=
  ((pools.get entry.1).map (fun pool => pool.size r * entry.2)).getD 0

/-- The loop of `reset_idle_instances` frees what its entries amount to. -/
theorem foldl_freeEntry (pools : Keyed Pool.name) (entries : List (String × Nat)) (node : Node)
    (part : ∀ r, (entries.map (freed pools r)).sum ≤ node.used r)
    (fits : ∀ r, (entries.map (freed pools r)).sum ≤ u32Max) :
    (∀ r, (entries.foldl (Node.freeEntry pools) node).used r = node.used r -
      (entries.map (freed pools r)).sum) ∧
      (entries.foldl (Node.freeEntry pools) node).clamped = node.clamped := by
  induction entries generalizing node with
  | nil => exact ⟨fun _ => rfl, rfl⟩
  | cons entry rest ih =>
    simp only [List.map_cons, List.sum_cons] at part fits
    have first : (∀ r, (node.freeEntry pools entry).used r = node.used r - freed pools r entry) ∧
        (node.freeEntry pools entry).clamped = node.clamped := by
      unfold Node.freeEntry freed
      cases known : pools.get entry.1 with
      | none => exact ⟨fun _ => rfl, rfl⟩
      | some pool =>
        have amount (r : Resource) : saturatingMul (pool.size r) entry.2 =
          pool.size r * entry.2 := by
          apply saturatingMul_of_le
          have bound := fits r
          simp only [freed, known, Option.map_some, Option.getD_some] at bound
          omega
        refine ⟨fun r => by
          rw [Node.used_freeMany, amount]; rfl, node.clamped_freeMany pool entry.2 (fun r => ?_)⟩
        have bound := part r
        simp only [freed, known, Option.map_some, Option.getD_some] at bound
        rw [amount]
        omega
    obtain ⟨used, clamped⟩ := ih (node.freeEntry pools entry)
      (fun r => by rw [first.1]; have bound := part r; omega) (fun r => by
        have bound := fits r; omega)
    refine ⟨fun r => ?_, by rw [List.foldl_cons, clamped, first.2]⟩
    rw [List.foldl_cons, used, first.1, List.map_cons, List.sum_cons]
    omega

/-- The entries of a node amount to what its idle instances take. -/
theorem sum_freed (c : Cluster) (node : Node) (r : Resource) :
    (node.idleInstances.values.map (freed c.pools r)).sum = c.idleLoad node r := by
  have joined := Keyed.total_join node.idleInstances c.pools
    (fun entry pool => pool.size r * entry.2)
  have found (pool : Pool) : ((node.idleInstances.get pool.name).map (fun entry =>
    pool.size r * entry.2)).getD 0 =
      node.idle pool.name * pool.size r := by
    unfold Node.idle
    cases node.idleInstances.get pool.name <;> simp [Nat.mul_comm]
  simp only [found] at joined
  exact joined

theorem Tracked.reset (tracked : Tracked c node) (pools : next.pools = c.pools)
    (executions : next.executions = c.executions) : Tracked next (node.resetIdle c.pools) := by
  have whole (r : Resource) : c.idleLoad node r ≤ node.used r := by
    rw [tracked.exact, Cluster.load]
    omega
  have fits (r : Resource) : c.idleLoad node r ≤ u32Max := by
    have bound := tracked.fits r
    rw [Cluster.load] at bound
    omega
  obtain ⟨used, clamped⟩ := foldl_freeEntry c.pools node.idleInstances.values
    { node with idleInstances := ∅ }
    (fun r => (sum_freed c node r).trans_le (whole r))
      (fun r => (sum_freed c node r).trans_le (fits r))
  refine tracked.give (c.idleLoad node) (fun r => ?_) (fun r => ?_) (fun _ => clamped)
  · exact (used r).trans (by rw [sum_freed]; rfl)
  · have idle : next.idleLoad (node.resetIdle c.pools) r = 0 :=
      Keyed.total_zero (fun k pool _ => by simp)
    have active : next.activeLoad node.id r = c.activeLoad node.id r :=
      Cluster.activeLoad_congr next executions (fun _ _ _ _ _ => by
        simp [Cluster.poolSize, pools]) node.id r
    rw [Cluster.load, Cluster.load, idle, Node.resetIdle_id, active]
    omega

/-- A pool is opened or overwritten: on this node nothing of it may change size. -/
theorem Tracked.insertPool (tracked : Tracked c node) (next : Cluster) (pool : Pool)
    (pools : next.pools = c.pools.insert pool)
    (executions : next.executions = c.executions)
    (idle : ∀ r, node.idle pool.name * pool.size r = node.idle pool.name * c.poolSize pool.name r)
    (active : ∀ id execution, c.executions.get id = some execution →
      execution.status.onNode = true →
      execution.pool = pool.name → ∀ r, pool.size r =
        c.poolSize pool.name r) : Tracked next node := by
  refine tracked.same (fun _ => rfl) (fun r => ?_) rfl
  have sameIdle : next.idleLoad node r = c.idleLoad node r := by
    rw [Cluster.idleLoad, Cluster.idleLoad, pools, Keyed.total_insert, idle, Cluster.poolSize]
    cases known : c.pools.get pool.name with
    | none => rw [Keyed.erase_absent known]; simp
    | some old =>
      have own := Keyed.key_of_get known
      rw [Keyed.total_erase known, own]
      rfl
  have sameActive : next.activeLoad node.id r = c.activeLoad node.id r := by
    apply Cluster.activeLoad_congr next executions
    intro id execution present on r
    simp only [Cluster.poolSize, pools, Keyed.get_insert]
    split_ifs with inside
    · have size := active id execution present on inside r
      rw [Cluster.poolSize] at size
      simp [inside, size]
    · rfl
  rw [Cluster.load, Cluster.load, sameIdle, sameActive]

end

/-! Idle instances belong to known pools, whatever moves. -/

theorem Node.idle_of_account {node other : Node} (same : node.account = other.account)
    (name : String) :
    node.idle name = other.idle name := by
  have instances : node.idleInstances = other.idleInstances := congrArg Account.idleInstances same
  simp only [Node.idle, instances]

/-- An idle instance on a node after a move was there before, or its pool is known. -/
theorem Move.idle_onNode {c : Cluster} {move : Move} (allowed : move.Allowed c) {node : Node}
    {name : String}
    (idle : 0 < (move.onNode c node).idle name) : 0 < node.idle name ∨
      (c.pools.get name).isSome = true := by
  have released (id : Uuid) (keepIdle : Bool)
    (left : 0 < (Move.releaseOn c id keepIdle node).idle name) :
      0 < node.idle name ∨ (c.pools.get name).isSome = true := by
    unfold Move.releaseOn at left
    split at left
    · exact .inl left
    · rename_i execution present
      split at left
      · exact .inl left
      · rename_i pool known
        split_ifs at left
        · rw [Node.idle_vacate] at left
          split_ifs at left with same
          · have named := Keyed.get_congr known
            exact .inr (by rw [same.2, named]; rfl)
          · exact .inl left
        · exact .inl left
  cases move with
  | dropPool gone | seizePool gone =>
    simp only [Move.onNode] at idle
    split at idle
    · exact .inl idle
    · rw [Node.idle_forgetPool] at idle
      split_ifs at idle
      · omega
      · exact .inl idle
  | requeue id source pool =>
    simp only [Move.onNode] at idle
    split_ifs at idle
    · exact released id false idle
    · exact .inl idle
  | finish id keepIdle => exact released id keepIdle idle
  | cool there pool =>
    simp only [Move.onNode] at idle
    split_ifs at idle
    · rw [Node.idle_removeIdle] at idle
      split_ifs at idle
      · exact .inl (by omega)
      · exact .inl idle
    · exact .inl idle
  | resetIdle there =>
    simp only [Move.onNode] at idle
    split_ifs at idle
    · rw [Node.idle_resetIdle] at idle
      omega
    · exact .inl idle
  | warm there pool =>
    simp only [Move.onNode] at idle
    split_ifs at idle
    · rw [Node.idle_addWarm] at idle
      split_ifs at idle with same
      · exact .inr (by rw [same, allowed.1]; rfl)
      · exact .inl idle
    · exact .inl idle
  | place execution pool there =>
    simp only [Move.onNode] at idle
    split_ifs at idle
    · rw [Node.idle_occupy] at idle
      split_ifs at idle
      · exact .inl (by omega)
      · exact .inl idle
    · exact .inl idle
  | _ => exact .inl idle

/-- A pool that goes leaves no idle instance behind. -/
theorem Move.idle_of_gone {c : Cluster} {move : Move} (node : Node) {name : String}
    (known : (c.pools.get name).isSome = true) (gone : move.onPool name (c.pools.get name) = none) :
    (move.onNode c node).idle name = 0 := by
  obtain ⟨pool, present⟩ := Option.isSome_iff_exists.mp known
  have own := Keyed.key_of_get present
  rw [present] at gone
  cases move with
  | openPool opened | resetPool opened =>
    simp only [Move.onPool] at gone
    split_ifs at gone
  | quietPool quiet =>
    simp only [Move.onPool, Option.map_some] at gone
    split_ifs at gone
  | dropPool lost | seizePool lost =>
    simp only [Move.onPool] at gone
    split_ifs at gone with same
    rw [← same]
    simp only [Move.onNode, present, Node.idle_forgetPool, own, ↓reduceIte]
  | _ => cases gone

theorem Owned.move {c : Cluster} {move : Move} (owned : Owned c) (allowed : move.Allowed c) : Owned
    (c.move move) := by
  intro k node present name idle
  by_cases keeps : move.keepsNodes = true
  · rw [Cluster.nodes_move keeps, Keyed.get_map] at present
    obtain ⟨before, was, rfl⟩ := Option.map_eq_some_iff.mp present
    have known : (c.pools.get name).isSome = true :=
      (Move.idle_onNode allowed idle).elim (owned k before was name) (fun known => known)
    rw [Cluster.pools_move allowed]
    by_contra lost
    have gone := Move.idle_of_gone before known (Option.not_isSome_iff_eq_none.mp lost)
    omega
  · cases move with
    | aside next =>
      rw [Cluster.move] at present ⊢
      obtain ⟨before, was, account⟩ := SameAccounts.node allowed present
      rw [allowed.pools]
      exact owned k before was name (by rw [Node.idle_of_account account]; exact idle)
    | addNode new =>
      simp only [Cluster.move, Keyed.get_insert] at present
      split_ifs at present
      · obtain rfl := Option.some.inj present
        have none_idle : new.idle name = 0 := by
          have instances : new.idleInstances = ∅ := congrArg Account.idleInstances allowed.2
          simp [Node.idle, instances]
        omega
      · exact owned k node present name idle
    | dropNode id =>
      simp only [Cluster.move, Keyed.get_erase] at present
      split_ifs at present
      exact owned k node present name idle
    | _ => exact absurd rfl keeps

/-! Every shedding move keeps every node exact. -/

/-- The instances of a pool: those in use and those that are idle. -/
def Cluster.instances (c : Cluster) (name : String) : Nat := c.activeCount name + c.idleCount name

/-- The move changes the size of no pool that has instances. -/
def Move.KeepsSizes (c : Cluster) : Move → Prop
  | resetPool pool => ∀ old, c.pools.get pool.name = some old →
      c.instances pool.name = 0 ∨ ∀ r, old.size r = pool.size r
  | _ => True

theorem Cluster.no_instances {c : Cluster} {name : String} (none_left : c.instances name = 0) :
    (∀ k node, c.nodes.get k = some node → node.idle name = 0) ∧
      ∀ id execution, c.executions.get id = some execution → execution.occupies name = false := by
  have active : c.activeCount name = 0 := by rw [instances] at none_left; omega
  have idle : c.idleCount name = 0 := by rw [instances] at none_left; omega
  constructor
  · intro k node present
    have part := Keyed.le_total present (fun node => node.idle name)
    rw [idleCount] at idle
    omega
  · intro id execution present
    rw [activeCount, Keyed.count_eq_total] at active
    have part := Keyed.le_total present (fun execution => if execution.occupies name then 1 else 0)
    by_contra occupies
    simp only [Bool.not_eq_false] at occupies
    simp only [occupies, ↓reduceIte] at part
    omega

/-- An overwritten pool is as good as the old one where the move keeps sizes. -/
theorem Tracked.resetPool {c : Cluster} {node : Node} (tracked : Tracked c node) (pool : Pool)
    (owned : Owned c)
    (seated : Seated c) (present : c.nodes.get node.id = some node)
    (keeps : (Move.resetPool pool).KeepsSizes c) : Tracked (c.move (.resetPool pool)) node := by
  cases known : c.pools.get pool.name with
  | none =>
    have unseen : node.idle pool.name = 0 := by
      by_contra idle
      have there := owned _ node present pool.name (by omega)
      simp [known] at there
    apply tracked.insertPool (c.move (.resetPool pool)) pool rfl rfl
    · intro r
      rw [unseen, Nat.zero_mul, Nat.zero_mul]
    · intro id execution here on inside
      obtain ⟨⟨other, found⟩, -⟩ := seated id execution here on
      rw [inside, known] at found
      cases found
  | some old =>
    rcases keeps old known with none_left | sizes
    · obtain ⟨idle, active⟩ := Cluster.no_instances none_left
      apply tracked.insertPool (c.move (.resetPool pool)) pool rfl rfl
      · intro r
        rw [idle _ node present, Nat.zero_mul, Nat.zero_mul]
      · intro id execution here on inside
        have none_here := active id execution here
        simp [Execution.occupies, inside, on] at none_here
    · have same (r : Resource) : pool.size r = c.poolSize pool.name r := by
        rw [Cluster.poolSize_of_get known, sizes]
      exact tracked.insertPool (c.move (.resetPool pool)) pool rfl rfl (fun r => by rw [same])
        (fun _ _ _ _ _ r => same r)

/-- What a shedding move does on one node that it keeps. -/
theorem Tracked.move {c : Cluster} {move : Move}
    {node : Node} (tracked : Tracked c node) (seated : Seated c)
    (owned : Owned c) (present : c.nodes.get node.id = some node) (allowed : move.Allowed c)
    (gentle : move.Gentle c) (keeps : move.KeepsSizes c) (sheds : move.grows = false)
    (stays : move.keepsNodes = true) : Tracked (c.move move) (move.onNode c node) := by
  have unchanged {next : Cluster} (pools : next.pools = c.pools)
      (active : ∀ r, next.activeLoad node.id r = c.activeLoad node.id r) : Tracked next node :=
    tracked.same (fun _ => rfl)
      (fun r => by rw [Cluster.load, Cluster.load, Cluster.idleLoad_congr_pools pools, active]) rfl
  have forgotten {name : String} (unused : Unused c name) :
      Tracked (c.removePool name) ((Move.dropPool name).onNode c node) := by
    cases known : c.pools.get name with
    | none =>
      simp only [Move.onNode, known]
      exact tracked.frame (by rw [Cluster.removePool_of_get_none known])
        (Cluster.removePool_executions ..)
    | some pool =>
      simp only [Move.onNode, known]
      obtain rfl := Keyed.key_of_get known
      exact tracked.forget known unused (Cluster.removePool_pools ..)
        (Cluster.removePool_executions ..)
  cases move with
  | aside | addNode | dropNode => cases stays
  | warm | place => cases sheds
  | putEnvironment | dropEnvironment => exact tracked.frame rfl rfl
  | openPool pool =>
    refine tracked.resetPool pool owned seated present (fun old known => ?_)
    rw [Move.Allowed, known] at allowed
    cases allowed
  | resetPool pool => exact tracked.resetPool pool owned seated present keeps
  | quietPool name =>
    refine tracked.same (fun _ => rfl) (fun r => ?_) rfl
    have sizes (other : String) (r : Resource) : (c.quietPool name).poolSize
      other r = c.poolSize other r := by
      simp only [Cluster.poolSize, Cluster.quietPool, Keyed.get_adjust]
      split_ifs
      · cases c.pools.get other <;> rfl
      · rfl
    have idle : (c.quietPool name).idleLoad node r = c.idleLoad node r := by
      simp only [Cluster.idleLoad, Cluster.quietPool, Keyed.adjust, Keyed.total_map]
      apply Keyed.total_congr
      intro k pool _
      split_ifs <;> rfl
    have active : (c.quietPool name).activeLoad node.id r = c.activeLoad node.id r :=
      Cluster.activeLoad_congr (c := c) (c.quietPool name) rfl
        (fun _ execution _ _ r => sizes execution.pool r) node.id r
    exact congrArg₂ (· + ·) idle active
  | dropPool name => exact forgotten allowed
  | seizePool name => exact forgotten gentle
  | receive execution =>
    refine unchanged rfl (fun r => ?_)
    have off : execution.status.onNode = false := by rw [allowed.2.1]; rfl
    have added := Keyed.total_insert_absent allowed.1 (c.weight node.id r)
    rw [Cluster.weight_of_not_onNode off, Nat.zero_add] at added
    exact added
  | withdraw id =>
    obtain ⟨execution, there, queued⟩ := allowed
    refine unchanged rfl (fun r => ?_)
    have off : execution.status.onNode = false := by rw [queued]; rfl
    have removed := Cluster.activeLoad_erase (c.move (.withdraw id)) there rfl rfl node.id r
    rw [Cluster.weight_of_not_onNode off, Nat.add_zero] at removed
    exact removed
  | requeue id source pool =>
    obtain ⟨execution, there, -, status⟩ := allowed
    have lighter (r : Resource) : (c.move (.requeue id source pool)).activeLoad node.id r +
        c.weight node.id r execution = c.activeLoad node.id r := by
      obtain ⟨nodes, same⟩ := requeue_eq pool c id
      have moved := Cluster.activeLoad_adjust (c.move
        (.requeue id source pool)) (Execution.requeued pool)
        (Execution.requeued_id pool) there (requeue_pools ..) (by rw [Cluster.move, same]) node.id r
      have off : (execution.requeued pool).status.onNode = false := rfl
      rw [Cluster.weight_of_not_onNode off, Nat.add_zero] at moved
      exact moved
    rcases status with queued | assigned
    · simp only [Move.onNode, there, Option.any_some, queued,
        reduceCtorEq, decide_false, Bool.false_eq_true, ↓reduceIte]
      refine unchanged (requeue_pools ..) (fun r => ?_)
      have off : execution.status.onNode = false := by rw [queued]; rfl
      have same := lighter r
      rw [Cluster.weight_of_not_onNode off, Nat.add_zero] at same
      exact same
    · simp only [Move.onNode, there, Option.any_some, assigned, decide_true, ↓reduceIte]
      exact tracked.leave there (by rw [assigned]; rfl) (requeue_pools ..) lighter false
  | start id now =>
    obtain ⟨execution, there, assigned⟩ := allowed
    refine unchanged rfl (fun r => ?_)
    have moved := Cluster.activeLoad_adjust (c.move (.start id now))
      (fun execution => { execution with status := .running, startedAtMs := some now })
        (fun _ => rfl) there rfl rfl
      node.id r
    have same : c.weight node.id r { execution with status := .running, startedAtMs := some now } =
        c.weight node.id r execution := by
      simp [Cluster.weight, Execution.occupiesOn, assigned, ExecutionStatus.onNode]
    omega
  | finish id keepIdle =>
    obtain ⟨execution, there, on⟩ := allowed
    have pools : (c.move (.finish id keepIdle)).pools = c.pools := Cluster.release_pools ..
    refine tracked.leave there on pools (fun r => ?_) keepIdle
    exact Cluster.activeLoad_erase _ there pools (by simp [Cluster.move, Cluster.finish,
      Cluster.forget]) node.id r
  | cool id pool =>
    obtain ⟨known, there, found, idle⟩ := allowed
    simp only [Move.onNode]
    split_ifs with own
    · rw [← own, present] at found
      obtain rfl := Option.some.inj found
      refine tracked.give pool.size (fun r => ?_) (fun r => ?_) (fun enough => ?_)
      · exact (Node.used_free _ pool r).trans (by rw [Node.used_setIdle])
      · have moved := Cluster.idleLoad_change node (node.removeIdle pool) known
          (fun name differ => by rw [Node.idle_removeIdle, if_neg differ]) r
        rw [Node.idle_removeIdle, if_pos rfl] at moved
        have split : node.idle pool.name * pool.size r = (node.idle pool.name -
          1) * pool.size r + pool.size r := by
          rw [← Nat.succ_mul, Nat.succ_eq_add_one, Nat.sub_add_cancel idle]
        have sameIdle : (c.move (.cool id pool)).idleLoad (node.removeIdle pool) r =
            c.idleLoad (node.removeIdle pool) r := rfl
        have sameActive : (c.move (.cool id pool)).activeLoad (node.removeIdle pool).id
          r = c.activeLoad node.id r := rfl
        rw [Cluster.load, Cluster.load, sameIdle, sameActive]
        omega
      · exact Node.clamped_free _ pool (fun r => by rw [Node.used_setIdle]; exact enough r)
    · exact tracked.frame rfl rfl
  | resetIdle id =>
    simp only [Move.onNode]
    split_ifs
    · exact tracked.reset rfl rfl
    · exact tracked.frame rfl rfl

theorem Balanced.move {c : Cluster} {move : Move} (balanced : Balanced c) (seated : Seated c)
    (owned : Owned c)
    (allowed : move.Allowed c) (gentle : move.Gentle c) (keeps : move.KeepsSizes c)
    (sheds : move.grows = false) :
    Balanced (c.move move) := by
  intro k node present
  by_cases stays : move.keepsNodes = true
  · rw [Cluster.nodes_move stays, Keyed.get_map] at present
    obtain ⟨before, was, rfl⟩ := Option.map_eq_some_iff.mp present
    exact (balanced k before was).move seated owned
      (Keyed.get_congr was) allowed gentle keeps sheds stays
  · cases move with
    | aside next =>
      rw [Cluster.move] at present ⊢
      obtain ⟨before, was, account⟩ := SameAccounts.node allowed present
      have own : node.id = before.id := (Keyed.key_of_get present).trans (Keyed.key_of_get was).symm
      refine (balanced k before was).same (fun r => ?_) (fun r => ?_)
        (congrArg Account.clamped account).symm
      · cases r
        · exact (congrArg Account.usedCpuMillis account).symm
        · exact (congrArg Account.usedMemoryMib account).symm
      · exact Cluster.load_congr allowed.pools allowed.executions
          (Node.idle_of_account account.symm) own r
    | addNode new =>
      simp only [Cluster.move, Keyed.get_insert] at present
      split_ifs at present
      · obtain rfl := Option.some.inj present
        obtain ⟨absent, account⟩ := allowed
        have instances : new.idleInstances = ∅ := congrArg Account.idleInstances account
        have empty (r : Resource) : (c.move (.addNode new)).load new r = 0 := by
          have idle : c.idleLoad new r = 0 :=
            Keyed.total_zero (fun _ _ _ => by simp [Node.idle, instances])
          have active : c.activeLoad new.id r = 0 := by
            refine Keyed.total_zero (fun id execution there => ?_)
            by_cases on : execution.occupiesOn new.id = true
            · simp only [Execution.occupiesOn, Bool.and_eq_true, decide_eq_true_eq] at on
              obtain ⟨-, node, known, placed, found⟩ := seated id execution there on.2
              rw [on.1] at placed
              obtain rfl := Option.some.inj placed
              rw [absent] at found
              cases found
            · simp [Cluster.weight, on]
          exact (congrArg₂ (· + ·) idle active).trans rfl
        refine ⟨fun r => ?_, fun r => by
          rw [empty]; exact Nat.zero_le _, congrArg Account.clamped account⟩
        rw [empty]
        cases r
        · exact congrArg Account.usedCpuMillis account
        · exact congrArg Account.usedMemoryMib account
      · exact (balanced k node present).frame rfl rfl
    | dropNode id =>
      simp only [Cluster.move, Keyed.get_erase] at present
      split_ifs at present
      exact (balanced k node present).frame rfl rfl
    | _ => exact absurd rfl stays

/-! Growing moves keep every node capped. -/

/-- Every node is capped. -/
def Covered (c : Cluster) : Prop := ∀ k node, c.nodes.get k = some node → Capped c node

theorem Balanced.covered {c : Cluster} (balanced : Balanced c) : Covered c :=
  fun k node present => (balanced k node present).capped

/-- A placed execution takes over an idle instance, or what a new one takes is added. -/
theorem Capped.place {c : Cluster} {execution : Execution} {pool : Pool} {there node : Node}
    (capped : Capped c node)
    (queued : execution.status = .queued) (choice : c.Choice execution pool there) :
    Capped (c.place execution pool there.id)
      ((Move.place execution pool there.id).onNode c node) := by
  have known : c.pools.get pool.name = some pool := Keyed.get_congr choice.known
  have off : execution.status.onNode = false := by rw [queued]; rfl
  have heavier (r : Resource) : (c.place execution pool there.id).activeLoad node.id r =
      c.activeLoad node.id r + (if node.id = there.id then pool.size r else 0) := by
    have moved := Cluster.activeLoad_adjust (c.place execution pool there.id)
      (fun execution => { execution with node := some there.id, status := .assigned })
        (fun _ => rfl) choice.present
      rfl rfl node.id r
    rw [Cluster.weight_of_not_onNode off, Nat.add_zero] at moved
    rw [moved]
    simp [Cluster.weight, Execution.occupiesOn, ExecutionStatus.onNode,
      Cluster.poolSize_of_get choice.known, eq_comm]
  simp only [Move.onNode]
  split_ifs with own
  · have moved (r : Resource) := Cluster.idleLoad_change node (node.occupy pool) known
      (fun name differ => by rw [Node.idle_occupy, if_neg differ]) r
    simp only [Node.idle_occupy, ↓reduceIte] at moved
    simp only [own, ↓reduceIte] at heavier
    have same (r : Resource) : (c.place execution pool there.id).load (node.occupy pool) r =
        c.idleLoad (node.occupy pool) r + (c.activeLoad node.id r + pool.size r) := by
      rw [Cluster.load, Node.occupy_id, own, heavier]
      rfl
    by_cases idle : 0 < node.idle pool.name
    · refine capped.same (fun r => ?_) (fun r => ?_) ?_
      · simp [Node.occupy, idle]
      · have split : node.idle pool.name * pool.size r = (node.idle pool.name - 1) * pool.size r +
          pool.size r := by
          rw [← Nat.succ_mul, Nat.succ_eq_add_one, Nat.sub_add_cancel idle]
        have change := moved r
        rw [same, Cluster.load]
        omega
      · simp [Node.occupy, idle]
    · refine capped.take pool.size (fun r => ?_) (fun r => ?_) ?_
      · simp [Node.occupy, idle]
      · have change := moved r
        rw [Nat.eq_zero_of_not_pos idle] at change
        rw [same, Cluster.load]
        omega
      · simp [Node.occupy, idle]
  · refine capped.same (fun _ => rfl) (fun r => ?_) rfl
    rw [Cluster.load, heavier, if_neg own]
    rfl

theorem Covered.place {c : Cluster} {execution : Execution} {pool : Pool} {there : Node}
    (covered : Covered c)
    (queued : execution.status = .queued) (choice : c.Choice execution pool there) :
    Covered (c.place execution pool there.id) := by
  intro k node present
  rw [show c.place execution pool there.id = c.move (.place execution pool there.id) from rfl,
    Cluster.nodes_move rfl, Keyed.get_map] at present
  obtain ⟨before, was, rfl⟩ := Option.map_eq_some_iff.mp present
  exact (covered k before was).place queued choice

/-- The executions of one pool on a node are part of what the executions there take. -/
theorem Cluster.count_le_activeLoad {c : Cluster} {pool : Pool}
    (known : c.pools.get pool.name = some pool)
    (id : Uuid) {r : Resource} (positive : 0 < pool.size r) :
    c.executions.count (fun execution => execution.pool = pool.name && execution.occupiesOn id) ≤
      c.activeLoad id r := by
  rw [Keyed.count_eq_total, Cluster.activeLoad]
  apply Keyed.total_le
  intro k execution _
  simp only [Bool.and_eq_true, decide_eq_true_eq]
  split_ifs with here
  · rw [Cluster.weight, if_pos here.2, here.1, Cluster.poolSize_of_get known]
    exact positive
  · exact Nat.zero_le _

/-- The wrapping counter of idle instances does not wrap while the ledger is exact. -/
theorem Tracked.warm_idle {c : Cluster} {node : Node} {pool : Pool} (tracked : Tracked c node)
    (present : c.nodes.get node.id = some node) (known : c.pools.get pool.name = some pool)
    (below : c.warmInstancesOn node.id pool < u32Max) (r : Resource) :
    wrapping (node.idle pool.name + 1) * pool.size r = node.idle pool.name * pool.size r +
      pool.size r := by
  rcases Nat.eq_zero_or_pos (pool.size r) with zero | positive
  · rw [zero, Nat.mul_zero, Nat.mul_zero]
  · have fits : node.idle pool.name < u32Max := by
      by_contra large
      have part := Cluster.idle_le_idleLoad node known r
      have whole := Nat.le_mul_of_pos_right (node.idle pool.name) positive
      have bound := tracked.fits r
      rw [Cluster.load] at bound
      have counted := Cluster.count_le_activeLoad known node.id positive
      have exactly : node.idle pool.name = u32Max := by omega
      have none_active : c.executions.count (fun execution =>
          execution.pool = pool.name && execution.occupiesOn node.id) = 0 := by omega
      simp only [Cluster.warmInstancesOn, present, Option.map_some, Option.getD_some, none_active,
        exactly] at below
      split_ifs at below
      · exact absurd below (by decide)
      · omega
    rw [wrapping_of_le (by omega), Nat.succ_mul]

theorem Covered.warm {c : Cluster} {id : Uuid} {pool : Pool} (balanced : Balanced c)
    (allowed : (Move.warm id pool).Allowed c) : Covered (c.move (.warm id pool)) := by
  obtain ⟨known, -, below, -⟩ := allowed
  intro k node present
  rw [Cluster.nodes_move rfl, Keyed.get_map] at present
  obtain ⟨before, was, rfl⟩ := Option.map_eq_some_iff.mp present
  have tracked := balanced k before was
  simp only [Move.onNode]
  split_ifs with own
  · refine tracked.capped.take pool.size (fun r => ?_) (fun r => ?_) rfl
    · simp [Node.addWarm]
    · have moved := Cluster.idleLoad_change before (before.addWarm pool) known
        (fun name differ => by rw [Node.idle_addWarm, if_neg differ]) r
      rw [Node.idle_addWarm, if_pos rfl, tracked.warm_idle (Keyed.get_congr was) known (own ▸
        below)] at moved
      have same : (c.move (.warm id pool)).load (before.addWarm pool) r =
          c.idleLoad (before.addWarm pool) r + c.activeLoad before.id r := rfl
      rw [same, Cluster.load]
      omega
  · exact tracked.capped.same (fun _ => rfl)
      (fun r => Cluster.load_congr rfl rfl (fun _ => rfl) rfl r) rfl

end Scraperack
