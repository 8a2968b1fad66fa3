import Scraperack.Rebalancing

/-! The targets of the nodes for the warm instances of a pool, as a partition of what the pool asks for. -/

namespace Scraperack
open Counters

theorem share_antitone (total count : Nat) {i j : Nat} (later : i ≤ j) :
    share total count j ≤ share total count i := by
  unfold share
  split_ifs <;> omega

theorem share_close (total count i j : Nat) :
    share total count i ≤ share total count j + 1 := by
  unfold share
  split_ifs <;> omega

/-- The total is shared out among the keys, each of which has one entry, as evenly as whole numbers
allow. Where a key comes before another it gets no less. -/
structure SharedOut {K : Type} (before : K → K → Prop) (keys : K → Prop) (total : Nat)
    (entries : List (K × Nat)) : Prop where
  keys : ∀ k, (∃ value, (k, value) ∈ entries) ↔ keys k
  once : (entries.map Prod.fst).Nodup
  sum : (entries.map Prod.snd).sum = total
  close : ∀ a ∈ entries, ∀ b ∈ entries, a.2 ≤ b.2 + 1
  ordered : ∀ a ∈ entries, ∀ b ∈ entries, before a.1 b.1 → b.2 ≤ a.2

section
variable {K : Type} (keys : List K) (total : Nat)

/-- Each key with the share of its place in the list. -/
def shares : List (K × Nat) :=
  keys.zipIdx.map (fun entry => (entry.1, share total keys.length entry.2))

theorem mem_shares {entry : K × Nat} :
    entry ∈ shares keys total ↔
      ∃ i, keys[i]? = some entry.1 ∧ entry.2 = share total keys.length i := by
  simp only [shares, List.mem_map, List.mem_zipIdx_iff_getElem?]
  constructor
  · rintro ⟨⟨k, i⟩, found, rfl⟩
    exact ⟨i, found, rfl⟩
  · rintro ⟨i, found, value⟩
    exact ⟨(entry.1, i), found, by rw [← value]⟩

theorem shares_keys : (shares keys total).map Prod.fst = keys := by
  rw [shares, List.map_map]
  exact List.zipIdx_map_fst 0 keys

theorem shares_sum (inhabited : 0 < keys.length) :
    ((shares keys total).map Prod.snd).sum = total := by
  have places : (shares keys total).map Prod.snd =
      (List.range keys.length).map (share total keys.length) := by
    rw [shares, List.map_map, List.range_eq_range', ← List.zipIdx_map_snd 0 keys, List.map_map]
    rfl
  rw [places, sum_share total inhabited]

/-- Over a list in order, the shares of the places are what the order asks for. -/
theorem shares_sharedOut {before : K → K → Prop}
    (antisymm : ∀ a b, before a b → before b a → a = b) (sorted : keys.Pairwise before)
    (nodup : keys.Nodup) (inhabited : 0 < keys.length) :
    SharedOut before (· ∈ keys) total (shares keys total) := by
  refine ⟨fun k => ?_, ?_, shares_sum keys total inhabited, ?_, ?_⟩
  · calc (∃ value, (k, value) ∈ shares keys total)
        ↔ k ∈ (shares keys total).map Prod.fst := by simp
      _ ↔ k ∈ keys := by rw [shares_keys]
  · rwa [shares_keys]
  · intro a left b right
    obtain ⟨i, -, first⟩ := (mem_shares keys total).mp left
    obtain ⟨j, -, second⟩ := (mem_shares keys total).mp right
    rw [first, second]
    exact share_close ..
  · intro a left b right first
    obtain ⟨i, here, value⟩ := (mem_shares keys total).mp left
    obtain ⟨j, there, other⟩ := (mem_shares keys total).mp right
    rw [value, other]
    rcases Nat.lt_or_ge j i with earlier | later
    · -- The list has the keys the other way round, so that they are the same key.
      obtain ⟨inside, found⟩ := List.getElem?_eq_some_iff.mp here
      obtain ⟨inside', found'⟩ := List.getElem?_eq_some_iff.mp there
      have second : before b.1 a.1 := by
        rw [← found, ← found']
        exact List.pairwise_iff_getElem.mp sorted j i inside' inside earlier
      have same : a.1 = b.1 := antisymm _ _ first second
      have place : i = j := (List.getElem?_inj inside nodup).mp (by rw [here, there, same])
      omega
    · exact share_antitone _ _ later

end

/-- A node that can hold a warm instance of the pool. -/
structure Eligible (pool : Pool) (node : Node) : Prop where
  image : pool.image ∈ node.images
  artifact : ∀ artifact, pool.environmentArtifact = some artifact → artifact ∈ node.environments
  cpu : pool.cpuMillis ≤ node.cpuMillis
  memory : pool.memoryMib ≤ node.memoryMib

theorem warmable_iff (pool : Pool) (node : Node) :
    Cluster.warmable pool node = true ↔ Eligible pool node := by
  simp only [Cluster.warmable, Cluster.holdsArtifact, Bool.and_eq_true, decide_eq_true_eq,
    Option.all_eq_true]
  constructor
  · rintro ⟨⟨⟨image, artifact⟩, cpu⟩, memory⟩
    exact ⟨image, artifact, cpu, memory⟩
  · rintro ⟨image, artifact, cpu, memory⟩
    exact ⟨⟨⟨image, artifact⟩, cpu⟩, memory⟩

/-- The warm instances of the pool as far as its limit allows. Instances that are used again count as warm while they
are busy; others take what the busy ones leave. -/
def Pool.warmLimit (pool : Pool) (active : Nat) : Nat :=
  match pool.maxInstances with
  | none => pool.warmInstances.toNat
  | some limit => min pool.warmInstances.toNat (if pool.reuse then limit else limit - active)

/-- Where a target is due to some node, there are targets. -/
theorem SharedOut.not_nil {K : Type} {before : K → K → Prop} {keys : K → Prop} {total : Nat} {k : K}
    (due : keys k) : ¬ SharedOut before keys total [] := by
  intro shared
  obtain ⟨value, member⟩ := (shared.keys k).mpr due
  cases member

namespace Cluster

theorem warmGoal_eq (c : Cluster) (pool : Pool) :
    c.warmGoal pool = pool.warmLimit (wrapping (c.activeCount pool.name)) := by
  have bound := pool.warmInstances.toNat_lt
  unfold warmGoal Pool.warmLimit
  cases pool.maxInstances with
  | none =>
    simp only [Option.map_none, Option.getD_none, ite_self, u32Max]
    omega
  | some limit =>
    simp only [Option.map_some, Option.getD_some, saturatingSub]
    split_ifs <;> rfl

theorem length_warmNodes (c : Cluster) (pool : Pool) :
    (c.warmNodes pool).length = c.nodes.count (warmable pool) := by
  rw [warmNodes, List.length_insertionSort, List.length_map, Keyed.count]

theorem sorted_warmNodes (c : Cluster) (pool : Pool) :
    (c.warmNodes pool).Pairwise (fun a b => a.toNat ≤ b.toNat) :=
  List.pairwise_insertionSort _ _

/-- Some node can hold a warm instance of the pool. -/
def HasEligible (c : Cluster) (pool : Pool) : Prop :=
  ∃ id node, c.nodes.get id = some node ∧ Eligible pool node

theorem hasEligible_iff (c : Cluster) (pool : Pool) :
    c.HasEligible pool ↔ 0 < c.nodes.count (warmable pool) := by
  rw [← length_warmNodes, List.length_pos_iff_exists_mem]
  simp only [HasEligible, mem_warmNodes, warmable_iff]

/-- The nodes that can hold a warm instance of the pool share out evenly what the pool asks for while so many of its
executions are active, and of two of them the one with the smaller identifier gets no less. -/
def SharesTargets (c : Cluster) (pool : Pool) (active : Nat) : Prop :=
  SharedOut (fun a b => a.toNat ≤ b.toNat)
    (fun id => ∃ node, c.nodes.get id = some node ∧ Eligible pool node)
    (pool.warmLimit active) (c.warmTargets pool)

/-- The targets are a balanced partition. The source counts the nodes and the active executions with 32 bits: of more
nodes none has a target, and the executions are counted modulo 2^32. -/
theorem warm_targets_balanced (c : Cluster) (pool : Pool) :
    (c.HasEligible pool → c.nodes.count (warmable pool) ≤ u32Max →
      c.SharesTargets pool (wrapping (c.activeCount pool.name))) ∧
    (¬ c.HasEligible pool ∨ u32Max < c.nodes.count (warmable pool) → c.warmTargets pool = []) := by
  rw [SharesTargets, warmTargets_eq, hasEligible_iff, ← c.length_warmNodes pool]
  refine ⟨fun inhabited few => ?_, fun outside => if_pos (by omega)⟩
  rw [if_neg (by omega)]
  have shared := shares_sharedOut (c.warmNodes pool) (c.warmGoal pool)
    (fun a b below above => BitVec.eq_of_toNat_eq (le_antisymm below above))
    (c.sorted_warmNodes pool) (c.nodup_warmNodes pool) inhabited
  have eligible (id : Uuid) : id ∈ c.warmNodes pool ↔
      ∃ node, c.nodes.get id = some node ∧ Eligible pool node := by
    simp only [mem_warmNodes, warmable_iff]
  simp only [eligible] at shared
  exact c.warmGoal_eq pool ▸ shared

example : Demo.lopsided.warmTargets (Demo.workerPool none true) = [(1, 2), (2, 1)] := by
  decide +kernel

end Cluster

namespace Demo

theorem nodup_numbered {V : Type} {key : V → Uuid} {f : Uuid → V} (own : ∀ id, key (f id) = id)
    {size : Nat} (fits : size ≤ 2 ^ 128) :
    (((List.range size).map (fun n => f (BitVec.ofNat 128 n))).map key).Nodup := by
  rw [List.map_map]
  refine List.nodup_range.map_on fun i below j below' same => ?_
  simp only [Function.comp_apply, own] at same
  have numbers := congrArg BitVec.toNat same
  rw [BitVec.toNat_ofNat, BitVec.toNat_ofNat] at numbers
  have small := List.mem_range.mp below
  have small' := List.mem_range.mp below'
  rwa [Nat.mod_eq_of_lt (by omega), Nat.mod_eq_of_lt (by omega)] at numbers

/-- As many values, under the first identifiers. -/
def numbered {V : Type} {key : V → Uuid} (f : Uuid → V) (own : ∀ id, key (f id) = id)
    (size : Nat) (fits : size ≤ 2 ^ 128) : Keyed key :=
  ⟨(List.range size).map (fun n => f (BitVec.ofNat 128 n)), nodup_numbered own fits⟩

theorem count_numbered {V : Type} {key : V → Uuid} {f : Uuid → V} {own : ∀ id, key (f id) = id}
    {size : Nat} {fits : size ≤ 2 ^ 128} {p : V → Bool} (all : ∀ id, p (f id) = true) :
    (numbered f own size fits).count p = size := by
  have every : ∀ v ∈ (numbered f own size fits).values, p v = true := by
    intro v member
    obtain ⟨n, -, rfl⟩ := List.mem_map.mp member
    exact all _
  rw [Keyed.count, List.filter_eq_self.mpr every, numbered, List.length_map, List.length_range]

def busy (id : Uuid) : Execution := { waiting id with node := some 1, status := .running }

theorem uncounted : u32Max + 1 ≤ 2 ^ 128 := by
  unfold u32Max
  omega

def crowded (size : Nat) (fits : size ≤ 2 ^ 128) : Cluster :=
  { Cluster.empty with nodes := numbered (fun id => worker id 0) (fun _ => rfl) size fits }

theorem crowded_count (size : Nat) (fits : size ≤ 2 ^ 128) :
    (crowded size fits).nodes.count (Cluster.warmable (workerPool none false)) = size :=
  count_numbered (fun _ => rfl)

/-- One node, and as many busy executions in the pool. -/
def swamped (size : Nat) (fits : size ≤ 2 ^ 128) : Cluster :=
  { Cluster.empty with
    nodes := (∅ : Keyed Node.id).insert (worker 1 0)
    executions := numbered busy (fun _ => rfl) size fits }

theorem swamped_active (size : Nat) (fits : size ≤ 2 ^ 128) :
    (swamped size fits).activeCount "p" = size :=
  @count_numbered _ _ busy (fun _ => rfl) size fits _ (fun _ => rfl)

theorem swamped_target (size : Nat) (fits : size ≤ 2 ^ 128) :
    (swamped size fits).warmTargets (workerPool (some 1) false) =
      [(1, min 3 (1 - wrapping size))] := by
  have host : (swamped size fits).warmNodes (workerPool (some 1) false) = [1] := by
    rfl
  have goal := (swamped size fits).warmGoal_eq (workerPool (some 1) false)
  change _ = (workerPool (some 1) false).warmLimit
    (wrapping ((swamped size fits).activeCount "p")) at goal
  rw [swamped_active] at goal
  rw [Cluster.warmTargets_eq, host, goal, if_neg (by decide)]
  simp [share, Nat.mod_one, Pool.warmLimit, workerPool]

end Demo

namespace Cluster

/-- Of 2^32 nodes that can hold an instance of the pool none has a target. With 2^32 busy executions in a pool that is
limited to one instance, none of which is used again, a node is still to warm one. -/
theorem warm_targets_uncounted :
    ((Demo.crowded (u32Max + 1) Demo.uncounted).HasEligible (Demo.workerPool none false) ∧
      ¬ (Demo.crowded (u32Max + 1) Demo.uncounted).SharesTargets (Demo.workerPool none false)
        ((Demo.crowded (u32Max + 1) Demo.uncounted).activeCount "p")) ∧
    ((Demo.swamped (u32Max + 1) Demo.uncounted).HasEligible (Demo.workerPool (some 1) false) ∧
      ¬ (Demo.swamped (u32Max + 1) Demo.uncounted).SharesTargets (Demo.workerPool (some 1) false)
        ((Demo.swamped (u32Max + 1) Demo.uncounted).activeCount "p")) := by
  have crowd := Demo.crowded_count (u32Max + 1) Demo.uncounted
  have active := Demo.swamped_active (u32Max + 1) Demo.uncounted
  have able : (Demo.crowded (u32Max + 1) Demo.uncounted).HasEligible
      (Demo.workerPool none false) := by
    rw [hasEligible_iff]
    omega
  refine ⟨⟨able, ?_⟩, (hasEligible_iff _ _).mpr Nat.zero_lt_one, fun shared => ?_⟩
  · have uncounted : u32Max < (Demo.crowded (u32Max + 1) Demo.uncounted).nodes.count
        (warmable (Demo.workerPool none false)) := by omega
    obtain ⟨id, node, present, eligible⟩ := able
    unfold SharesTargets
    rw [warmTargets_eq, length_warmNodes, if_pos (.inr uncounted)]
    exact SharedOut.not_nil ⟨node, present, eligible⟩
  · -- The count of the busy executions wraps to 0, and leaves room for one instance.
    have sum := shared.sum
    rw [Demo.swamped_target, active] at sum
    simp [Pool.warmLimit, Demo.workerPool, wrapping] at sum

end Cluster
end Scraperack
