import Scraperack.Placement

/-! The warm instances of a pool. Nodes add and remove them one at a time, each for itself; the query and
the action agree, no addition is ever undone by a removal, and what the nodes come to rest at is
what the targets ask for. -/

namespace Keyed
variable {K V : Type} [DecidableEq K] {key : V → K}

omit [DecidableEq K] in
theorem total_add (t : Keyed key) (f g : V → Nat) :
    t.total (fun v => f v + g v) = t.total f + t.total g :=
  List.sum_map_add

omit [DecidableEq K] in
/-- Two sums may be taken in either order. -/
theorem total_comm {L W : Type} {key' : W → L} (t : Keyed key) (u : Keyed key')
    (f : V → W → Nat) :
    t.total (fun v => u.total (f v)) = u.total (fun w => t.total (fun v => f v w)) := by
  unfold total
  induction t.values with
  | nil => simp
  | cons head rest ih => simp [ih, List.sum_map_add]

/-- A sum with one summand that is not zero. -/
theorem total_single {t : Keyed key} {k : K} {v : V} (found : t.get k = some v) {f : V → Nat}
    (zero : ∀ k' w, t.get k' = some w → k' ≠ k → f w = 0) : t.total f = f v := by
  rw [total_erase found, total_zero (t := t.erase k), Nat.add_zero]
  intro k' w kept
  rw [get_erase] at kept
  split_ifs at kept with other
  exact zero k' w kept other

/-- When one sum is smaller than another, so is one of its summands. -/
theorem exists_lt_of_total_lt {t : Keyed key} {f g : V → Nat} (less : t.total f < t.total g) :
    ∃ k v, t.get k = some v ∧ f v < g v := by
  by_contra none_less
  push Not at none_less
  exact absurd (total_le none_less) (by omega)

/-- When summands that are not above others have a sum that is not below theirs, they are the same. -/
theorem eq_of_total_le {t : Keyed key} {f g : V → Nat}
    (below : ∀ k v, t.get k = some v → f v ≤ g v) (total : t.total g ≤ t.total f) {k : K} {v : V}
    (found : t.get k = some v) : f v = g v := by
  have rest : (t.erase k).total f ≤ (t.erase k).total g := by
    refine total_le (fun k' w kept => ?_)
    rw [get_erase] at kept
    split_ifs at kept
    exact below k' w kept
  have own := below k v found
  rw [total_erase found f, total_erase found g] at total
  omega

end Keyed

namespace Scraperack
open Counters

/-- What the entry at the index gets when a number is shared out evenly, the first entries one more. -/
def share (total count index : Nat) : Nat :=
  total / count + if index < total % count then 1 else 0

theorem sum_share_range (total count n : Nat) :
    ((List.range n).map (share total count)).sum =
      n * (total / count) + min n (total % count) := by
  induction n with
  | zero => simp
  | succ n ih =>
    rw [List.range_succ, List.map_append, List.sum_append, ih, Nat.succ_mul]
    simp only [share, List.map_cons, List.map_nil, List.sum_cons, List.sum_nil, Nat.add_zero]
    split_ifs <;> omega

theorem sum_share (total : Nat) {count : Nat} (some_entry : 0 < count) :
    ((List.range count).map (share total count)).sum = total := by
  rw [sum_share_range, Nat.min_eq_right (Nat.mod_lt _ some_entry).le]
  exact Nat.div_add_mod total count

theorem lookup_eq_find {K V : Type} [DecidableEq K] (entries : List (K × V)) (k : K) :
    entries.lookup k = (entries.find? (fun entry => entry.1 = k)).map Prod.snd := by
  induction entries with
  | nil => rfl
  | cons entry rest ih =>
    obtain ⟨own, value⟩ := entry
    rw [List.lookup_cons, List.find?_cons]
    by_cases same : k = own
    · simp [same]
    · simp [ih, beq_false_of_ne same, Ne.symm same]

namespace Cluster

/-- The filter of `warm_targets` over the nodes. -/
def warmable (pool : Pool) (node : Node) : Bool :=
  decide (pool.image ∈ node.images) && holdsArtifact pool node &&
    decide (pool.cpuMillis ≤ node.cpuMillis) && decide (pool.memoryMib ≤ node.memoryMib)

/-- The nodes that have a target, in order. -/
def warmNodes (c : Cluster) (pool : Pool) : List Uuid :=
  ((c.nodes.values.filter (warmable pool)).map Node.id).insertionSort
    (fun a b => a.toNat ≤ b.toNat)

/-- The warm instances that the pool asks for, on all nodes together. -/
def warmGoal (c : Cluster) (pool : Pool) : Nat :=
  if pool.reuse then min pool.warmInstances.toNat (pool.maxInstances.getD u32Max)
  else
    min pool.warmInstances.toNat ((pool.maxInstances.map (fun limit =>
      saturatingSub limit (wrapping (c.activeCount pool.name)))).getD u32Max)

/-- The node's target, 0 for a node without one. -/
def warmTarget (c : Cluster) (pool : Pool) (id : Uuid) : Nat :=
  ((c.warmTargets pool).lookup id).getD 0

/-- The sum of the targets. -/
def warmWanted (c : Cluster) (pool : Pool) : Nat := ((c.warmTargets pool).map Prod.snd).sum

theorem warmTargets_eq (c : Cluster) (pool : Pool) :
    c.warmTargets pool =
      if (c.warmNodes pool).length = 0 ∨ u32Max < (c.warmNodes pool).length then []
      else (c.warmNodes pool).zipIdx.map (fun entry =>
        (entry.1, share (c.warmGoal pool) (c.warmNodes pool).length entry.2)) := rfl

theorem mem_warmNodes (c : Cluster) (pool : Pool) (id : Uuid) :
    id ∈ c.warmNodes pool ↔ ∃ node, c.nodes.get id = some node ∧ warmable pool node = true := by
  rw [warmNodes, List.mem_insertionSort, List.mem_map]
  constructor
  · rintro ⟨node, member, rfl⟩
    obtain ⟨there, fits⟩ := List.mem_filter.mp member
    exact ⟨node, (Keyed.mem_values_iff _ _).mp there, fits⟩
  · rintro ⟨node, found, fits⟩
    exact ⟨node, List.mem_filter.mpr ⟨Keyed.mem_of_get found, fits⟩, Keyed.key_of_get found⟩

theorem nodup_warmNodes (c : Cluster) (pool : Pool) : (c.warmNodes pool).Nodup :=
  (List.perm_insertionSort _ _).nodup_iff.mpr (c.nodes.nodup_filter _)

theorem warmTargets_keys (c : Cluster) (pool : Pool) :
    (c.warmTargets pool).map Prod.fst = [] ∨
      (c.warmTargets pool).map Prod.fst = c.warmNodes pool := by
  rw [warmTargets_eq]
  split_ifs
  · exact .inl rfl
  · rw [List.map_map]
    exact .inr (List.zipIdx_map_fst 0 _)

theorem nodup_warmTargets (c : Cluster) (pool : Pool) :
    ((c.warmTargets pool).map Prod.fst).Nodup := by
  rcases c.warmTargets_keys pool with keys | keys <;> rw [keys]
  · exact List.nodup_nil
  · exact c.nodup_warmNodes pool

/-- A node with a target exists and can take an instance. -/
theorem warmable_of_mem {c : Cluster} {pool : Pool} {entry : Uuid × Nat}
    (aimed : entry ∈ c.warmTargets pool) :
    ∃ node, c.nodes.get entry.1 = some node ∧ warmable pool node = true := by
  have member := List.mem_map_of_mem (f := Prod.fst) aimed
  rcases c.warmTargets_keys pool with keys | keys <;> rw [keys] at member
  · cases member
  · exact (c.mem_warmNodes pool _).mp member

theorem warmable_of_lookup {c : Cluster} {pool : Pool} {id : Uuid} {target : Nat}
    (aimed : (c.warmTargets pool).lookup id = some target) :
    ∃ node, c.nodes.get id = some node ∧ warmable pool node = true := by
  obtain ⟨before, after, split, -⟩ := List.lookup_eq_some_iff.mp aimed
  have member : (id, target) ∈ c.warmTargets pool := by
    rw [split]
    simp
  exact warmable_of_mem member

/-- The targets share out the goal, unless there is no node to ask. -/
theorem warmWanted_le (c : Cluster) (pool : Pool) : c.warmWanted pool ≤ c.warmGoal pool := by
  rw [warmWanted, warmTargets_eq]
  split_ifs with none_there
  · exact Nat.zero_le _
  · rw [List.map_map]
    have shares : (c.warmNodes pool).zipIdx.map (Prod.snd ∘ fun entry =>
        (entry.1, share (c.warmGoal pool) (c.warmNodes pool).length entry.2)) =
        (List.range (c.warmNodes pool).length).map
          (share (c.warmGoal pool) (c.warmNodes pool).length) := by
      rw [List.range_eq_range', ← List.zipIdx_map_snd 0 (c.warmNodes pool), List.map_map]
      rfl
    rw [shares, sum_share _ (by omega)]

theorem warmGoal_le (c : Cluster) (pool : Pool) : c.warmGoal pool ≤ u32Max := by
  have bound := pool.warmInstances.toNat_lt
  unfold warmGoal u32Max
  split_ifs <;> omega

/-- Summing the targets over the nodes is summing the targets. -/
theorem total_warmTarget (c : Cluster) (pool : Pool) :
    c.nodes.total (fun node => c.warmTarget pool node.id) = c.warmWanted pool := by
  let table : Keyed.Table Uuid Nat := ⟨c.warmTargets pool, c.nodup_warmTargets pool⟩
  have looked (id : Uuid) : c.warmTarget pool id = ((table.get id).map Prod.snd).getD 0 := by
    rw [warmTarget, lookup_eq_find]
    rfl
  simp only [looked]
  rw [Keyed.total_join c.nodes table (fun _ entry => entry.2)]
  refine Keyed.total_congr (fun id entry found => ?_)
  obtain ⟨node, there, -⟩ := warmable_of_mem (Keyed.mem_of_get found)
  rw [there]
  rfl

/-- The pool's warm instances: the idle ones, and where they are used again the busy ones. -/
def warmCount (c : Cluster) (pool : Pool) : Nat :=
  c.idleCount pool.name + if pool.reuse then c.activeCount pool.name else 0

/-- The counts fit into 32 bits, also together where the source adds them. -/
structure Countable (c : Cluster) (pool : Pool) : Prop where
  active : c.activeCount pool.name ≤ u32Max
  warm : c.warmCount pool ≤ u32Max

/-- Every active execution of the pool is on a node. -/
def Lodged (c : Cluster) (pool : Pool) : Prop :=
  ∀ id execution, c.executions.get id = some execution → execution.occupies pool.name = true →
    ∃ nodeId node, execution.node = some nodeId ∧ c.nodes.get nodeId = some node

section Counts
variable {c : Cluster} {pool : Pool}

theorem idle_le_idleCount {id : Uuid} {node : Node} (there : c.nodes.get id = some node)
    (name : String) : node.idle name ≤ c.idleCount name :=
  Keyed.le_total there (fun node => node.idle name)

/-- The executions of the pool that are active on the node. -/
def busyOn (c : Cluster) (id : Uuid) (pool : Pool) : Nat :=
  c.executions.count (fun execution => execution.pool = pool.name && execution.occupiesOn id)

theorem busyOn_le (c : Cluster) (id : Uuid) (pool : Pool) :
    c.busyOn id pool ≤ c.activeCount pool.name := by
  unfold busyOn activeCount
  rw [Keyed.count_eq_total, Keyed.count_eq_total]
  refine Keyed.total_le (fun _ execution _ => ?_)
  cases on : execution.occupiesOn id with
  | false => simp
  | true =>
    have status := (Bool.and_eq_true_iff.mp on).2
    simp [Execution.occupies, status]

/-- Every active execution is counted on exactly one node. -/
theorem total_busyOn (lodged : c.Lodged pool) :
    c.nodes.total (fun node => c.busyOn node.id pool) = c.activeCount pool.name := by
  simp only [busyOn, activeCount, Keyed.count_eq_total]
  rw [Keyed.total_comm]
  refine Keyed.total_congr (fun id execution present => ?_)
  cases active : execution.occupies pool.name with
  | false =>
    refine (Keyed.total_zero (fun _ node _ => ?_)).trans (by simp)
    simp only [Execution.occupies, Bool.and_eq_false_iff] at active
    simp only [Execution.occupiesOn]
    rcases active with other | ended <;> simp_all
  | true =>
    obtain ⟨nodeId, node, placed, there⟩ := lodged id execution present active
    simp only [Execution.occupies, Bool.and_eq_true] at active
    have own := Keyed.key_of_get there
    rw [Keyed.total_single there (fun k other found differs => ?_)]
    · simp [Execution.occupiesOn, placed, own, active.1, active.2]
    · have apart : nodeId ≠ other.id := fun same => differs (by
        rw [← Keyed.key_of_get found, same])
      simp [Execution.occupiesOn, placed, apart]

theorem warmInstancesOn_eq (countable : c.Countable pool) {id : Uuid} {node : Node}
    (there : c.nodes.get id = some node) :
    c.warmInstancesOn id pool =
      node.idle pool.name + if pool.reuse then c.busyOn id pool else 0 := by
  have part := idle_le_idleCount there pool.name
  have busy := c.busyOn_le id pool
  have active := countable.active
  have warm := countable.warm
  unfold warmCount at warm
  simp only [warmInstancesOn, there, Option.map_some, Option.getD_some]
  change (if pool.reuse = true then wrapping (node.idle pool.name + wrapping (c.busyOn id pool))
    else _) = _
  split_ifs at warm ⊢
  · rw [wrapping_of_le (show c.busyOn id pool ≤ u32Max by omega), wrapping_of_le (by omega)]
  · rfl

/-- Summing what the nodes hold is counting the pool's warm instances. -/
theorem total_warmInstancesOn (countable : c.Countable pool) (lodged : c.Lodged pool) :
    c.nodes.total (fun node => c.warmInstancesOn node.id pool) = c.warmCount pool := by
  have each : c.nodes.total (fun node => c.warmInstancesOn node.id pool) = c.nodes.total
      (fun node => node.idle pool.name + if pool.reuse then c.busyOn node.id pool else 0) :=
    Keyed.total_congr (fun _ _ found =>
      warmInstancesOn_eq countable (Keyed.get_congr found))
  rw [each, Keyed.total_add, warmCount]
  congr 1
  cases pool.reuse
  · exact Keyed.total_zero (fun _ _ _ => rfl)
  · exact total_busyOn lodged

theorem warmView_warm (countable : c.Countable pool) :
    (c.warmView pool).warm = c.warmCount pool := by
  have active := countable.active
  have warm := countable.warm
  simp only [warmView, warmCount] at warm ⊢
  split_ifs at warm ⊢
  · rw [wrapping_of_le active, wrapping_of_le (show c.idleCount pool.name ≤ u32Max by omega),
      wrapping_of_le warm]
  · rw [wrapping_of_le (by omega), Nat.add_zero]

theorem warmView_wanted (c : Cluster) (pool : Pool) :
    (c.warmView pool).wanted = c.warmWanted pool :=
  wrapping_of_le ((c.warmWanted_le pool).trans (c.warmGoal_le pool))

/-- While warm instances are missing, the limit leaves room for one. -/
theorem limit_room (countable : c.Countable pool)
    (missing : c.warmCount pool < c.warmWanted pool) :
    pool.maxInstances.all (fun limit => decide (wrapping
      ((c.warmView pool).active + (c.warmView pool).idle) < limit)) = true := by
  have goal := c.warmWanted_le pool
  have active := countable.active
  cases limited : pool.maxInstances with
  | none => rfl
  | some limit =>
    have wraps : ∀ a, wrapping a ≤ a := fun a => Nat.mod_le a _
    have first := wraps ((c.warmView pool).active + (c.warmView pool).idle)
    have second := wraps (c.activeCount pool.name)
    have third := wraps (c.idleCount pool.name)
    simp only [warmCount] at missing
    simp only [warmGoal, limited, Option.map_some, Option.getD_some, saturatingSub,
      wrapping_of_le active] at goal
    simp only [Option.all_some, decide_eq_true_eq]
    simp only [warmView] at first ⊢
    split_ifs at missing goal <;> omega

end Counts

/-! The query and the action. -/

/-- A node is asked to warm an instance exactly when it would be allowed to: the capacity that only
the action checks again is part of what gives a node a target. -/
theorem add_iff_needed (c : Cluster) (nodeId : Uuid) (poolName : String) :
    (c.addWarmInstance nodeId poolName).isSome = c.warmInstanceNeeded nodeId poolName := by
  unfold addWarmInstance warmInstanceNeeded
  cases c.pools.get poolName with
  | none => rfl
  | some pool =>
    dsimp only
    cases aimed : (c.warmView pool).targets.lookup nodeId with
    | none => rfl
    | some target =>
      obtain ⟨node, there, fits⟩ := warmable_of_lookup aimed
      simp only [warmable, Bool.and_eq_true, decide_eq_true_eq] at fits
      have capacity : ¬ (node.cpuMillis < pool.cpuMillis ∨ node.memoryMib < pool.memoryMib) := by
        omega
      have flip (a b : Nat) : decide (a ≤ b) = !decide (b < a) := by
        rw [← decide_not]
        simp only [Nat.not_lt]
      have succeeds (refused : Bool) (next : Cluster) :
          (if refused = true then none else some next).isSome = !refused := by
        cases refused <;> rfl
      simp only [there, if_neg capacity, flip, succeeds, Bool.not_or, Bool.not_not]
      cases pool.maxInstances with
      | none => rfl
      | some limit => rw [Option.any_some, Option.all_some, Bool.not_not]

section Calls
variable {c : Cluster} {pool : Pool}

theorem warmTarget_pos (c : Cluster) (pool : Pool) {id : Uuid} (positive : 0 < c.warmTarget pool id) :
    ∃ target, (c.warmTargets pool).lookup id = some target ∧ c.warmTarget pool id = target := by
  unfold warmTarget at positive ⊢
  cases aimed : (c.warmTargets pool).lookup id with
  | none => simp [aimed] at positive
  | some target => exact ⟨target, rfl, rfl⟩

/-- An addition succeeds on a node below its target, while warm instances are missing. -/
theorem addWarmInstance_iff (known : c.pools.get pool.name = some pool)
    (countable : c.Countable pool) (id : Uuid) :
    (c.addWarmInstance id pool.name).isSome = true ↔
      c.warmInstancesOn id pool < c.warmTarget pool id ∧ c.warmCount pool < c.warmWanted pool := by
  rw [add_iff_needed, warmInstanceNeeded, known]
  dsimp only
  rw [show (c.warmView pool).targets = c.warmTargets pool from rfl, warmView_warm countable,
    warmView_wanted]
  constructor
  · intro needed
    cases aimed : (c.warmTargets pool).lookup id with
    | none => simp [aimed] at needed
    | some target =>
      simp only [aimed, Bool.and_eq_true, decide_eq_true_eq] at needed
      exact ⟨by simpa [warmTarget, aimed] using needed.1.1, needed.1.2⟩
  · rintro ⟨below, missing⟩
    obtain ⟨target, aimed, same⟩ := warmTarget_pos c pool (show 0 < c.warmTarget pool id by omega)
    rw [aimed]
    simp only [Bool.and_eq_true, decide_eq_true_eq]
    exact ⟨⟨same ▸ below, missing⟩, limit_room countable missing⟩

/-- A removal succeeds on a node above its target that has an idle instance, unless warm instances
are missing. -/
theorem removeIdleInstance_iff (known : c.pools.get pool.name = some pool)
    (countable : c.Countable pool) (id : Uuid) :
    (c.removeIdleInstance id pool.name).isSome = true ↔
      c.warmTarget pool id < c.warmInstancesOn id pool ∧ c.warmWanted pool ≤ c.warmCount pool ∧
        ∃ node, c.nodes.get id = some node ∧ 0 < node.idle pool.name := by
  rw [removeIdleInstance, known]
  dsimp only
  rw [show (c.warmView pool).targets = c.warmTargets pool from rfl, warmView_warm countable,
    warmView_wanted, show ((c.warmTargets pool).lookup id).getD 0 = c.warmTarget pool id from rfl]
  by_cases above : c.warmTarget pool id < c.warmInstancesOn id pool <;>
    by_cases enough : c.warmWanted pool ≤ c.warmCount pool
  · have guard : (decide (c.warmInstancesOn id pool ≤ c.warmTarget pool id) ||
        decide (c.warmCount pool < c.warmWanted pool)) = false := by
      simp [above, enough]
    rw [guard, if_neg Bool.false_ne_true]
    cases there : c.nodes.get id with
    | none => simp
    | some node =>
      by_cases idle : node.idle pool.name = 0
      · simp [idle]
      · simp [idle, above, enough, Nat.pos_of_ne_zero idle]
  all_goals
    have guard : (decide (c.warmInstancesOn id pool ≤ c.warmTarget pool id) ||
        decide (c.warmCount pool < c.warmWanted pool)) = true := by
      simp only [Bool.or_eq_true, decide_eq_true_eq]
      omega
    rw [guard, if_pos rfl]
    simp [above, enough]

end Calls

/-! One call after the other. -/

/-- How far two numbers are apart. -/
def distance (a b : Nat) : Nat := a - b + (b - a)

/-- How far the nodes are from their targets. -/
def imbalance (c : Cluster) (pool : Pool) : Nat :=
  c.nodes.total (fun node => distance (c.warmInstancesOn node.id pool) (c.warmTarget pool node.id))

/-- A change of one node that leaves its place among the nodes alone. -/
def withNode (c : Cluster) (id : Uuid) (f : Node → Node) (keeps : ∀ node, (f node).id = node.id) :
    Cluster :=
  { c with nodes := c.nodes.adjust id f keeps }

section WithNode
variable {c : Cluster} {pool : Pool} {id : Uuid} {node : Node} {f : Node → Node}
  {keeps : ∀ node, (f node).id = node.id}

theorem warmTargets_withNode (same : ∀ node, warmable pool (f node) = warmable pool node) :
    (c.withNode id f keeps).warmTargets pool = c.warmTargets pool := by
  have nodes : (c.withNode id f keeps).warmNodes pool = c.warmNodes pool := by
    unfold warmNodes
    congr 1
    change ((c.nodes.values.map (fun node => if node.id = id then f node else node)).filter
      (warmable pool)).map Node.id = _
    rw [List.filter_map, List.map_map]
    have filtered : warmable pool ∘ (fun node => if node.id = id then f node else node) =
        warmable pool := by
      funext node
      simp only [Function.comp_apply]
      split_ifs <;> simp [same]
    have named : Node.id ∘ (fun node => if node.id = id then f node else node) = Node.id := by
      funext node
      simp only [Function.comp_apply]
      split_ifs <;> simp [keeps]
    rw [filtered, named]
  rw [warmTargets_eq, warmTargets_eq, nodes]
  rfl

theorem warmTarget_withNode (same : ∀ node, warmable pool (f node) = warmable pool node)
    (other : Uuid) : (c.withNode id f keeps).warmTarget pool other = c.warmTarget pool other := by
  rw [warmTarget, warmTargets_withNode same, warmTarget]

theorem warmCount_withNode (pool : Pool) (keeps : ∀ node, (f node).id = node.id) (there : c.nodes.get id = some node) :
    (c.withNode id f keeps).warmCount pool + node.idle pool.name =
      c.warmCount pool + (f node).idle pool.name := by
  have idle := Keyed.total_adjust there f keeps (fun node => node.idle pool.name)
  have counted : (c.withNode id f keeps).idleCount pool.name + node.idle pool.name =
    c.idleCount pool.name + (f node).idle pool.name := idle
  have active : (c.withNode id f keeps).activeCount pool.name = c.activeCount pool.name := rfl
  unfold warmCount
  rw [active]
  omega

theorem warmInstancesOn_withNode_ne {other : Uuid} (differs : other ≠ id) :
    (c.withNode id f keeps).warmInstancesOn other pool = c.warmInstancesOn other pool := by
  unfold warmInstancesOn withNode
  rw [Keyed.get_adjust_ne _ _ _ differs]

theorem warmInstancesOn_withNode (countable : c.Countable pool)
    (still : (c.withNode id f keeps).Countable pool) (there : c.nodes.get id = some node) :
    (c.withNode id f keeps).warmInstancesOn id pool + node.idle pool.name =
      c.warmInstancesOn id pool + (f node).idle pool.name := by
  have after : (c.withNode id f keeps).nodes.get id = some (f node) := by
    rw [withNode, Keyed.get_adjust_self, there]
    rfl
  rw [warmInstancesOn_eq countable there, warmInstancesOn_eq still after,
    show (c.withNode id f keeps).busyOn id pool = c.busyOn id pool from rfl]
  omega

/-- The imbalance changes as the one node's distance from its target does. -/
theorem imbalance_withNode (keeps : ∀ node, (f node).id = node.id) (same : ∀ node, warmable pool (f node) = warmable pool node)
    (there : c.nodes.get id = some node) :
    (c.withNode id f keeps).imbalance pool +
        distance (c.warmInstancesOn id pool) (c.warmTarget pool id) =
      c.imbalance pool +
        distance ((c.withNode id f keeps).warmInstancesOn id pool) (c.warmTarget pool id) := by
  have own := Keyed.key_of_get there
  have moved := Keyed.total_change there
    (f := fun node => distance ((c.withNode id f keeps).warmInstancesOn node.id pool)
      (c.warmTarget pool node.id))
    (g := fun node => distance (c.warmInstancesOn node.id pool) (c.warmTarget pool node.id))
    (fun other node found differs => by
      rw [warmInstancesOn_withNode_ne (Keyed.key_of_get found ▸ differs)])
  have total : (c.withNode id f keeps).imbalance pool = c.nodes.total (fun node =>
      distance ((c.withNode id f keeps).warmInstancesOn node.id pool)
        (c.warmTarget pool node.id)) := by
    unfold imbalance
    simp only [warmTarget_withNode same]
    conv_lhs => rw [withNode, Keyed.adjust, Keyed.total_map]
    refine Keyed.total_congr (fun _ other _ => ?_)
    split_ifs
    · rw [keeps]
      rfl
    · rfl
  rw [total]
  rw [own] at moved
  exact moved

theorem lodged_withNode (lodged : c.Lodged pool) : (c.withNode id f keeps).Lodged pool := by
  intro k execution present active
  obtain ⟨nodeId, node, placed, there⟩ := lodged k execution present active
  refine ⟨nodeId, if nodeId = id then f node else node, placed, ?_⟩
  rw [withNode, Keyed.get_adjust]
  split_ifs <;> simp [there]

end WithNode

theorem same_addWarm (pool : Pool) (node : Node) :
    warmable pool (node.addWarm pool) = warmable pool node := rfl

theorem same_removeIdle (pool : Pool) (node : Node) :
    warmable pool (node.removeIdle pool) = warmable pool node := rfl

/-- What a successful call does: the node comes one instance nearer to its target. -/
structure Nearer (c next : Cluster) (pool : Pool) : Prop where
  pools : next.pools = c.pools
  countable : next.Countable pool
  lodged : next.Lodged pool
  imbalance : next.imbalance pool + 1 = c.imbalance pool

section Calls
variable {c next : Cluster} {pool : Pool} {id : Uuid}

theorem added_withNode (known : c.pools.get pool.name = some pool)
    (added : c.addWarmInstance id pool.name = some next) :
    ∃ node, c.nodes.get id = some node ∧
      next = c.withNode id (fun node => node.addWarm pool) (fun node => node.addWarm_id pool) := by
  unfold addWarmInstance at added
  rw [known] at added
  dsimp only at added
  cases aimed : (c.warmView pool).targets.lookup id with
  | none => simp [aimed] at added
  | some target =>
    rw [aimed] at added
    dsimp only at added
    split_ifs at added
    cases there : c.nodes.get id with
    | none => simp [there] at added
    | some node =>
      rw [there] at added
      dsimp only at added
      split_ifs at added
      exact ⟨node, rfl, (Option.some.inj added).symm⟩

theorem removed_withNode (known : c.pools.get pool.name = some pool)
    (removed : c.removeIdleInstance id pool.name = some next) :
    next = c.withNode id (fun node => node.removeIdle pool)
      (fun node => node.removeIdle_id pool) := by
  unfold removeIdleInstance at removed
  rw [known] at removed
  dsimp only at removed
  split_ifs at removed
  cases there : c.nodes.get id with
  | none => simp [there] at removed
  | some node =>
    rw [there] at removed
    dsimp only at removed
    split_ifs at removed
    exact (Option.some.inj removed).symm

theorem Nearer.added (known : c.pools.get pool.name = some pool) (countable : c.Countable pool)
    (lodged : c.Lodged pool) (added : c.addWarmInstance id pool.name = some next) :
    Nearer c next pool := by
  obtain ⟨below, missing⟩ := (addWarmInstance_iff known countable id).mp (by rw [added]; rfl)
  have wanted := (c.warmWanted_le pool).trans (c.warmGoal_le pool)
  obtain ⟨node, there, rfl⟩ := added_withNode known added
  have counted : node.idle pool.name ≤ c.warmCount pool :=
    (idle_le_idleCount there pool.name).trans (Nat.le_add_right _ _)
  have more : (node.addWarm pool).idle pool.name = node.idle pool.name + 1 := by
    rw [Node.idle_addWarm, if_pos rfl, wrapping_of_le (by omega)]
  have total := warmCount_withNode pool (fun node => node.addWarm_id pool) there
  have still : (c.withNode id (fun node => node.addWarm pool)
      (fun node => node.addWarm_id pool)).Countable pool := ⟨countable.active, by omega⟩
  have here := warmInstancesOn_withNode countable still there
  have moved := imbalance_withNode (fun node => node.addWarm_id pool)
    (same_addWarm pool) there
  refine ⟨rfl, still, lodged_withNode lodged, ?_⟩
  unfold distance at moved
  omega

theorem Nearer.removed (known : c.pools.get pool.name = some pool)
    (countable : c.Countable pool) (lodged : c.Lodged pool)
    (removed : c.removeIdleInstance id pool.name = some next) : Nearer c next pool := by
  obtain ⟨above, -, node, there, idle⟩ :=
    (removeIdleInstance_iff known countable id).mp (by rw [removed]; rfl)
  obtain rfl := removed_withNode known removed
  have less : (node.removeIdle pool).idle pool.name = node.idle pool.name - 1 := by
    rw [Node.idle_removeIdle, if_pos rfl]
  have total := warmCount_withNode pool (fun node => node.removeIdle_id pool) there
  have warm := countable.warm
  have still : (c.withNode id (fun node => node.removeIdle pool)
      (fun node => node.removeIdle_id pool)).Countable pool := ⟨countable.active, by omega⟩
  have here := warmInstancesOn_withNode countable still there
  have moved := imbalance_withNode (fun node => node.removeIdle_id pool)
    (same_removeIdle pool) there
  refine ⟨rfl, still, lodged_withNode lodged, ?_⟩
  unfold distance at moved
  omega

end Calls

/-- A node's call for the pool. -/
inductive WarmCall where
  | add (node : Uuid)
  | remove (node : Uuid)

def warmCall (c : Cluster) (poolName : String) : WarmCall → Option Cluster
  | .add node => c.addWarmInstance node poolName
  | .remove node => c.removeIdleInstance node poolName

/-- Calls in the given order, with the number of those that succeed. -/
def warmCalls (poolName : String) : Cluster → List WarmCall → Cluster × Nat
  | c, [] => (c, 0)
  | c, call :: rest =>
    match c.warmCall poolName call with
    | none => warmCalls poolName c rest
    | some next => ((warmCalls poolName next rest).1, (warmCalls poolName next rest).2 + 1)

theorem nearer_of_call {c next : Cluster} {pool : Pool} {call : WarmCall}
    (known : c.pools.get pool.name = some pool) (countable : c.Countable pool)
    (lodged : c.Lodged pool) (called : c.warmCall pool.name call = some next) :
    Nearer c next pool := by
  cases call with
  | add => exact .added known countable lodged called
  | remove => exact .removed known countable lodged called

/-- Every successful call of a run uses up one of the initial imbalance. -/
theorem warmCalls_spec {c : Cluster} {pool : Pool} (calls : List WarmCall)
    (known : c.pools.get pool.name = some pool) (countable : c.Countable pool)
    (lodged : c.Lodged pool) :
    (warmCalls pool.name c calls).1.pools = c.pools ∧
      (warmCalls pool.name c calls).1.Countable pool ∧
      (warmCalls pool.name c calls).1.Lodged pool ∧
      (warmCalls pool.name c calls).1.imbalance pool + (warmCalls pool.name c calls).2 =
        c.imbalance pool := by
  induction calls generalizing c with
  | nil => exact ⟨rfl, countable, lodged, rfl⟩
  | cons call rest ih =>
    unfold warmCalls
    cases called : c.warmCall pool.name call with
    | none => exact ih known countable lodged
    | some next =>
      have step := nearer_of_call known countable lodged called
      obtain ⟨pools, still, kept, total⟩ :=
        ih (step.pools ▸ known) step.countable step.lodged
      have nearer := step.imbalance
      exact ⟨pools.trans step.pools, still, kept, by dsimp only; omega⟩

section Rest
variable {c : Cluster} {pool : Pool}

/-- Where no call succeeds, no warm instance is missing: else some node would be below its target. -/
theorem wanted_le_of_rest (known : c.pools.get pool.name = some pool)
    (countable : c.Countable pool) (lodged : c.Lodged pool)
    (rest : ∀ call, c.warmCall pool.name call = none) : c.warmWanted pool ≤ c.warmCount pool := by
  by_contra missing
  have less : c.nodes.total (fun node => c.warmInstancesOn node.id pool) <
      c.nodes.total (fun node => c.warmTarget pool node.id) := by
    rw [total_warmInstancesOn countable lodged, total_warmTarget]
    omega
  obtain ⟨id, node, -, below⟩ := Keyed.exists_lt_of_total_lt less
  have succeeds := (addWarmInstance_iff known countable node.id).mpr ⟨below, by omega⟩
  rw [show c.addWarmInstance node.id pool.name = none from rest (.add node.id)] at succeeds
  cases succeeds

theorem le_target_of_rest (known : c.pools.get pool.name = some pool)
    (countable : c.Countable pool) (lodged : c.Lodged pool)
    (rest : ∀ call, c.warmCall pool.name call = none) {id : Uuid} {node : Node}
    (there : c.nodes.get id = some node) (idle : 0 < node.idle pool.name) :
    c.warmInstancesOn id pool ≤ c.warmTarget pool id := by
  by_contra above
  have succeeds := (removeIdleInstance_iff known countable id).mpr
    ⟨by omega, wanted_le_of_rest known countable lodged rest, node, there, idle⟩
  rw [show c.removeIdleInstance id pool.name = none from rest (.remove id)] at succeeds
  cases succeeds

/-- Where no busy execution counts as warm, every node comes to rest at its target. -/
theorem eq_target_of_rest (known : c.pools.get pool.name = some pool)
    (countable : c.Countable pool) (lodged : c.Lodged pool)
    (rest : ∀ call, c.warmCall pool.name call = none)
    (quiet : pool.reuse = false ∨ c.activeCount pool.name = 0) {id : Uuid} {node : Node}
    (there : c.nodes.get id = some node) :
    c.warmInstancesOn id pool = c.warmTarget pool id := by
  have idle_only {id : Uuid} {node : Node} (there : c.nodes.get id = some node) :
      c.warmInstancesOn id pool = node.idle pool.name := by
    have busy := c.busyOn_le id pool
    rw [warmInstancesOn_eq countable there]
    rcases quiet with fresh | none_active
    · simp [fresh]
    · split_ifs <;> omega
  have below (id : Uuid) (node : Node) (there : c.nodes.get id = some node) :
      c.warmInstancesOn node.id pool ≤ c.warmTarget pool node.id := by
    have own := Keyed.key_of_get there
    rcases Nat.eq_zero_or_pos (node.idle pool.name) with none_idle | idle
    · rw [own, idle_only there, none_idle]
      exact Nat.zero_le _
    · rw [own]
      exact le_target_of_rest known countable lodged rest there idle
  have enough := wanted_le_of_rest known countable lodged rest
  rw [← total_warmInstancesOn countable lodged, ← total_warmTarget] at enough
  have same := Keyed.eq_of_total_le below enough there
  rwa [Keyed.key_of_get there] at same

end Rest

/-- Nodes that add and remove warm instances of a pool in any order succeed no more often than they are away from
their targets. Where none of them succeeds, no warm instance is missing and no node with
an idle instance exceeds its target; where busy executions do not count, every node holds its target. -/
theorem warm_rebalancing_converges (c : Cluster) (pool : Pool)
    (known : c.pools.get pool.name = some pool) (countable : c.Countable pool)
    (lodged : c.Lodged pool) (calls : List WarmCall) :
    (warmCalls pool.name c calls).2 ≤ c.imbalance pool ∧
    ∀ t, t = (warmCalls pool.name c calls).1 →
      (∀ call, t.warmCall pool.name call = none) →
      t.warmWanted pool ≤ t.warmCount pool ∧
      (∀ id node, t.nodes.get id = some node → 0 < node.idle pool.name →
        t.warmInstancesOn id pool ≤ t.warmTarget pool id) ∧
      (pool.reuse = false ∨ t.activeCount pool.name = 0 → ∀ id node,
        t.nodes.get id = some node → t.warmInstancesOn id pool = t.warmTarget pool id) := by
  obtain ⟨pools, still, kept, total⟩ := warmCalls_spec calls known countable lodged
  refine ⟨by omega, ?_⟩
  rintro t rfl rest
  have known : (warmCalls pool.name c calls).1.pools.get pool.name = some pool := pools ▸ known
  exact ⟨wanted_le_of_rest known still kept rest,
    fun _ _ there idle => le_target_of_rest known still kept rest there idle,
    fun quiet _ _ there => eq_target_of_rest known still kept rest quiet there⟩

end Cluster

namespace Demo

/-- Three warm instances are wanted, two on the first node and one on the second, which has two. -/
def lopsided : Cluster :=
  { Cluster.empty with
    pools := (∅ : Keyed Pool.name).insert (workerPool none true)
    nodes := ((∅ : Keyed Node.id).insert (worker 1 0)).insert (worker 2 2) }

end Demo

namespace Cluster

/-- The first node adds one, is refused, and adds another once the second has removed one. -/
theorem warm_rebalancing_converges_pair :
    (warmCalls "p" Demo.lopsided [.add 1, .add 1, .remove 2, .add 1, .remove 1]).2 = 3 ∧
      Demo.lopsided.imbalance (Demo.workerPool none true) = 3 ∧
      (warmCalls "p" Demo.lopsided [.add 1, .add 1, .remove 2, .add 1, .remove 1]).2 ≤
        Demo.lopsided.imbalance (Demo.workerPool none true) :=
  ⟨by decide +kernel, by decide +kernel,
    (warm_rebalancing_converges Demo.lopsided (Demo.workerPool none true) rfl
      ⟨by decide +kernel, by decide +kernel⟩ (fun _ _ present => by cases present) _).1⟩

/-- `warm_instance_needed` answers what `add_warm_instance` would. -/
theorem warm_query_agrees (c : Cluster) (nodeId : Uuid) (poolName : String) :
    (c.addWarmInstance nodeId poolName).isSome = true ↔
      c.warmInstanceNeeded nodeId poolName = true := by
  rw [add_iff_needed]

end Cluster
end Scraperack
