import Scraperack.Placement
import Scraperack.Turns

/-! The scheduler's cursor. As long as a pool has nothing idle and no limit, each call of `schedule` for it passes on
to the next of the nodes that can take an instance. -/

namespace Scraperack
open Turns
namespace Cluster

/-- The node is ready, and has what an instance of the pool needs. -/
def hosting (pool : Pool) (node : Node) : Bool :=
  node.status = .ready && decide (pool.image ∈ node.images) && holdsArtifact pool node &&
    (decide (pool.cpuMillis ≤ node.cpuMillis) && decide (pool.memoryMib ≤ node.memoryMib))

/-- The nodes that can take an instance, in order. -/
def hosts (c : Cluster) (pool : Pool) : List Uuid :=
  ((c.nodes.values.filter (hosting pool)).map Node.id).insertionSort
    (fun a b => a.toNat ≤ b.toNat)

/-- No node has an idle instance of the pool, and no limit holds it back. -/
structure Quiet (c : Cluster) (pool : Pool) : Prop where
  known : c.pools.get pool.name = some pool
  unlimited : pool.maxInstances = none
  idle : ∀ id node, c.nodes.get id = some node → node.idle pool.name = 0

theorem mem_hosts (c : Cluster) (pool : Pool) (id : Uuid) :
    id ∈ c.hosts pool ↔ ∃ node, c.nodes.get id = some node ∧ hosting pool node = true := by
  rw [hosts, List.mem_insertionSort, List.mem_map]
  constructor
  · rintro ⟨node, member, rfl⟩
    obtain ⟨there, fits⟩ := List.mem_filter.mp member
    exact ⟨node, (Keyed.mem_values_iff _ _).mp there, fits⟩
  · rintro ⟨node, found, fits⟩
    exact ⟨node, List.mem_filter.mpr ⟨Keyed.mem_of_get found, fits⟩, Keyed.key_of_get found⟩

theorem nodup_hosts (c : Cluster) (pool : Pool) : (c.hosts pool).Nodup :=
  (List.perm_insertionSort _ _).nodup_iff.mpr (c.nodes.nodup_filter _)

theorem hosts_sorted (c : Cluster) (pool : Pool) :
    (c.hosts pool).Pairwise (fun a b => a.toNat < b.toNat) := by
  have sorted : (c.hosts pool).Pairwise (fun a b => a.toNat ≤ b.toNat) :=
    List.pairwise_insertionSort _ _
  refine (sorted.and (c.nodup_hosts pool)).imp fun both => ?_
  exact lt_of_le_of_ne both.1 fun same => both.2 (BitVec.eq_of_toNat_eq same)

/-- The candidates are the hosts, all of them to be started. -/
theorem Quiet.candidates {c : Cluster} {pool : Pool} (quiet : Quiet c pool) :
    c.candidates pool (c.canStart pool) = (c.hosts pool).map (fun id => (true, id)) := by
  have start : c.canStart pool = true := by
    rw [canStart, quiet.unlimited]
    rfl
  have none_idle {node : Node} (member : node ∈ c.nodes.values) : node.idle pool.name = 0 :=
    quiet.idle node.id node ((Keyed.mem_values_iff _ _).mp member)
  have same : c.nodes.values.filter (eligible pool true) =
      c.nodes.values.filter (hosting pool) := by
    refine List.filter_congr fun node member => ?_
    simp [eligible, hosting, none_idle member]
  have entries : (c.nodes.values.filter (hosting pool)).map
      (fun node => (decide (node.idle pool.name = 0), node.id)) =
        ((c.nodes.values.filter (hosting pool)).map Node.id).map (fun id => (true, id)) := by
    rw [List.map_map]
    refine List.map_congr_left fun node member => ?_
    simp [none_idle (List.mem_filter.mp member).1]
  rw [start, Cluster.candidates, same, entries, hosts]
  exact (List.map_insertionSort _ _ _ _ fun a _ b _ => by simp [candidateLe]).symm

/-- The next node in turn gets the execution. -/
theorem Quiet.schedule {c : Cluster} {pool : Pool} (quiet : Quiet c pool) {id : Uuid}
    {execution : Execution} (present : c.executions.get id = some execution)
    (own : execution.pool = pool.name) :
    c.schedule id = (c.hosts pool)[c.roundRobin % (c.hosts pool).length]?.map
      (fun node => c.place execution pool node) := by
  have room : c.full pool = false := by
    rw [full, quiet.unlimited]
    rfl
  have listed := quiet.candidates
  unfold Cluster.schedule
  simp only [present, own, quiet.known, room, Bool.false_eq_true, if_false]
  cases some_hosts : c.hosts pool with
  | nil =>
    rw [some_hosts, List.map_nil] at listed
    simp [listed]
  | cons first rest =>
    rw [some_hosts, List.map_cons] at listed
    have all : ((true, first) :: rest.map (fun id => (true, id))).takeWhile
        (fun candidate => decide (candidate.1 = true)) =
          (first :: rest).map (fun id => (true, id)) := by
      rw [List.takeWhile_eq_self_iff.mpr]
      · rfl
      · intro candidate member
        rw [← List.map_cons] at member
        obtain ⟨host, -, rfl⟩ := List.mem_map.mp member
        rfl
    simp only [listed, all, List.length_map, List.getElem?_map, Option.map_map]
    rfl

/-- A call changes neither the hosts nor that the pool has nothing idle. -/
theorem hosts_place (c : Cluster) (execution : Execution) (pool : Pool) (node : Uuid) :
    (c.place execution pool node).hosts pool = c.hosts pool := by
  have kept (other : Node) :
      hosting pool (if other.id = node then other.occupy pool else other) = hosting pool other ∧
        (if other.id = node then other.occupy pool else other).id = other.id := by
    unfold Node.occupy
    split_ifs <;> exact ⟨rfl, rfl⟩
  have nodes : (c.place execution pool node).nodes.values =
      c.nodes.values.map (fun other => if other.id = node then other.occupy pool else other) := rfl
  rw [hosts, nodes, List.filter_map, List.map_map, hosts]
  have filtered : (hosting pool ∘ fun other : Node =>
      if other.id = node then other.occupy pool else other) = hosting pool :=
    funext fun other => (kept other).1
  have named : (Node.id ∘ fun other : Node =>
      if other.id = node then other.occupy pool else other) = Node.id :=
    funext fun other => (kept other).2
  rw [filtered, named]

theorem Quiet.place {c : Cluster} {pool : Pool} (quiet : Quiet c pool) (execution : Execution)
    (node : Uuid) : Quiet (c.place execution pool node) pool := by
  refine ⟨quiet.known, quiet.unlimited, fun id after found => ?_⟩
  simp only [Cluster.place, Keyed.get_adjust] at found
  split_ifs at found
  · obtain ⟨before, there, rfl⟩ := Option.map_eq_some_iff.mp found
    rw [Node.idle_occupy, if_pos rfl, quiet.idle id before there]
  · exact quiet.idle id after found

/-- Successful calls for executions of the pool, with the nodes that they choose. In between the cluster may change,
as long as the hosts stay the same, nothing becomes idle and the cursor stays. -/
inductive Calls (pool : Pool) (c : Cluster) : List Uuid → Cluster → Prop where
  | none : Calls pool c [] c
  | call {assigned : List Uuid} {before next : Cluster} {id node : Uuid}
      (calls : Calls pool c assigned before)
      (own : (before.executions.get id).map Execution.pool = some pool.name)
      (scheduled : before.schedule id = some next)
      (chosen : (next.executions.get id).bind Execution.node = some node) :
      Calls pool c (assigned ++ [node]) next
  | meanwhile {assigned : List Uuid} {before next : Cluster} (calls : Calls pool c assigned before)
      (quiet : Quiet next pool) (hosts : next.hosts pool = before.hosts pool)
      (cursor : next.roundRobin = before.roundRobin) : Calls pool c assigned next

/-- After so many calls from `c` on. -/
structure Turned (pool : Pool) (c : Cluster) (assigned : List Uuid) (now : Cluster) : Prop where
  quiet : Quiet now pool
  hosts : now.hosts pool = c.hosts pool
  cursor : c.roundRobin + assigned.length < 2 ^ 64 →
    now.roundRobin = c.roundRobin + assigned.length
  turns : assigned = turns (c.hosts pool) c.roundRobin assigned.length

theorem Turned.call {pool : Pool} {c before next : Cluster} {assigned : List Uuid} {id node : Uuid}
    (turned : Turned pool c assigned before) (unwrapped : c.roundRobin + assigned.length < 2 ^ 64)
    (own : (before.executions.get id).map Execution.pool = some pool.name)
    (scheduled : before.schedule id = some next)
    (chosen : (next.executions.get id).bind Execution.node = some node) :
    Turned pool c (assigned ++ [node]) next := by
  obtain ⟨execution, present, own⟩ := Option.map_eq_some_iff.mp own
  rw [turned.quiet.schedule present own, turned.hosts] at scheduled
  obtain ⟨host, turn, rfl⟩ := Option.map_eq_some_iff.mp scheduled
  have same : host = node := by
    rw [place_get, Keyed.key_of_get present, if_pos rfl, present] at chosen
    exact Option.some.inj chosen
  subst same
  rw [turned.cursor unwrapped] at turn
  refine ⟨turned.quiet.place execution host, (hosts_place ..).trans turned.hosts, ?_, ?_⟩
  · intro more
    rw [List.length_append, List.length_singleton] at more ⊢
    change (before.roundRobin + 1) % 2 ^ 64 = _
    rw [turned.cursor unwrapped]
    exact Nat.mod_eq_of_lt more
  · rw [List.length_append, List.length_singleton, turns_succ, ← turned.turns, turn]
    rfl

/-- The calls go around the hosts in the order of their identifiers, so no host gets more than one execution more
than another. -/
theorem round_robin_fair {pool : Pool} {c t : Cluster} {assigned : List Uuid}
    (quiet : Quiet c pool) (calls : Calls pool c assigned t)
    (unwrapped : c.roundRobin + assigned.length ≤ 2 ^ 64) :
    assigned = turns (c.hosts pool) c.roundRobin assigned.length ∧
      ∀ id ∈ c.hosts pool,
        assigned.count id = assigned.length / (c.hosts pool).length ∨
          assigned.count id =
            (assigned.length + (c.hosts pool).length - 1) / (c.hosts pool).length := by
  have turned : Turned pool c assigned t := by
    induction calls with
    | none => exact ⟨quiet, rfl, fun _ => rfl, rfl⟩
    | call calls own scheduled chosen ih =>
      rw [List.length_append, List.length_singleton] at unwrapped
      exact (ih (by omega)).call (by omega) own scheduled chosen
    | meanwhile calls quiet hosts cursor ih =>
      have before := ih unwrapped
      exact ⟨quiet, hosts.trans before.hosts, fun more => cursor.trans (before.cursor more),
        before.turns⟩
  refine ⟨turned.turns, fun id member => ?_⟩
  have counted := count_turns_cases c.roundRobin assigned.length (c.nodup_hosts pool) member
  rwa [← turned.turns] at counted

end Cluster

namespace Demo

/-- Two nodes without idle instances, and three executions that wait. -/
def quietPair : Cluster :=
  { Cluster.empty with
    pools := (∅ : Keyed Pool.name).insert (workerPool none true)
    nodes := ((∅ : Keyed Node.id).insert (worker 2 0)).insert (worker 1 0)
    executions :=
      (((∅ : Keyed Execution.id).insert (waiting 7)).insert (waiting 8)).insert (waiting 9) }

end Demo

namespace Cluster

/-- The first of the two nodes gets two executions. -/
theorem round_robin_fair_pair :
    ∃ t, Calls (Demo.workerPool none true) Demo.quietPair [1, 2, 1] t ∧
      [1, 2, 1] = turns (Demo.quietPair.hosts (Demo.workerPool none true)) 0 3 := by
  have quiet : Quiet Demo.quietPair (Demo.workerPool none true) := by
    refine ⟨rfl, rfl, fun id node found => ?_⟩
    have all : ∀ node ∈ Demo.quietPair.nodes.values, node.idle "p" = 0 := by decide
    exact all node (Keyed.mem_of_get found)
  have first := @Calls.call (Demo.workerPool none true) Demo.quietPair [] _ _ 7 1 .none rfl rfl rfl
  have second := @Calls.call _ _ _ _ _ 8 2 first rfl rfl rfl
  obtain ⟨t, calls⟩ : ∃ t, Calls (Demo.workerPool none true) Demo.quietPair [1, 2, 1] t :=
    ⟨_, @Calls.call _ _ _ _ _ 9 1 second rfl rfl rfl⟩
  exact ⟨t, calls, (round_robin_fair quiet calls (by decide)).1⟩

end Cluster
end Scraperack
