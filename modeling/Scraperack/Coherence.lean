import Scraperack.Steps

/-! What a move does to one execution and to one pool, and the invariants on which the
accounts rest: executions in memory are active, those on a node sit on a known node
in a known pool. -/

namespace Scraperack
open Counters

namespace Move

/-- What becomes of the execution with this identifier. -/
def onExecution (id : Uuid) (before : Option Execution) : Move → Option Execution
  | receive execution => if id = execution.id then some execution else before
  | withdraw gone | finish gone _ => if id = gone then none else before
  | requeue moved _ pool => if id = moved then before.map (Execution.requeued pool) else before
  | start started now =>
    if id = started then
      before.map (fun execution => { execution with status := .running, startedAtMs := some now })
    else before
  | place execution _ node =>
    if id = execution.id then
      before.map (fun execution => { execution with node := some node, status := .assigned })
    else before
  | _ => before

/-- What becomes of the pool with this name. -/
def onPool (name : String) (before : Option Pool) : Move → Option Pool
  | openPool pool | resetPool pool => if name = pool.name then some pool else before
  | quietPool quiet => if name = quiet then before.map
      (fun pool => { pool with warmInstances := 0 }) else before
  | dropPool gone | seizePool gone => if name = gone then none else before
  | _ => before

/-- What becomes of the environment with this identifier. -/
def onEnvironment (id : Uuid) (before : Option Environment) : Move → Option Environment
  | putEnvironment environment => if id = environment.id then some environment else before
  | dropEnvironment gone => if id = gone then none else before
  | _ => before

/-- What a node gives back when the execution leaves its instance. -/
def releaseOn (c : Cluster) (id : Uuid) (keepIdle : Bool) (node : Node) : Node :=
  match c.executions.get id with
  | none => node
  | some execution =>
    match c.pools.get execution.pool with
    | none => node
    | some pool => if execution.node = some node.id then node.vacate pool keepIdle else node

/-- What becomes of a node that stays. -/
def onNode (c : Cluster) (node : Node) : Move → Node
  | dropPool name | seizePool name =>
    match c.pools.get name with
    | none => node
    | some pool => node.forgetPool pool
  | requeue id _ _ =>
    if (c.executions.get id).any (fun execution =>
      execution.status = .assigned) then releaseOn c id false node else node
  | finish id keepIdle => releaseOn c id keepIdle node
  | cool id pool => if node.id = id then node.removeIdle pool else node
  | resetIdle id => if node.id = id then node.resetIdle c.pools else node
  | warm id pool => if node.id = id then node.addWarm pool else node
  | place _ pool id => if node.id = id then node.occupy pool else node
  | _ => node

/-- The move brings in no node, drops none and rewrites none beside its account. -/
def keepsNodes : Move → Bool
  | aside _ | addNode _ | dropNode _ => false
  | _ => true

theorem releaseOn_id (c : Cluster) (id : Uuid) (keepIdle : Bool) (node : Node) :
    (releaseOn c id keepIdle node).id = node.id := by
  unfold releaseOn
  split
  · rfl
  · split
    · rfl
    · split_ifs
      · exact node.vacate_id ..
      · rfl

theorem onNode_id (c : Cluster) (move : Move)
    (node : Node) : (move.onNode c node).id = node.id := by
  cases move <;> simp only [onNode]
  case dropPool name | seizePool name => cases c.pools.get name <;> rfl
  case requeue id source pool =>
    split_ifs
    · exact releaseOn_id ..
    · rfl
  case finish id keepIdle => exact releaseOn_id ..
  all_goals split_ifs <;> simp

end Move

namespace Cluster
variable {c : Cluster}

theorem get_move {move : Move} (allowed : move.Allowed c) (id : Uuid) :
    (c.move move).executions.get id = move.onExecution id (c.executions.get id) := by
  cases move with
  | aside next => rw [Cluster.move, allowed.executions]; rfl
  | receive execution => exact Keyed.get_insert ..
  | withdraw gone => exact Keyed.get_erase ..
  | requeue moved _ pool => exact requeue_get ..
  | start started now => simp only [Cluster.move, start, Keyed.get_adjust, Move.onExecution]
  | place execution pool node => exact place_get ..
  | finish gone keepIdle =>
    simp only [Cluster.move, finish, forget, release_executions]
    exact Keyed.get_erase ..
  | dropPool name | seizePool name => simp only [Cluster.move, removePool_executions]; rfl
  | _ => rfl

theorem pools_move {move : Move} (allowed : move.Allowed c) (name : String) :
    (c.move move).pools.get name = move.onPool name (c.pools.get name) := by
  cases move with
  | aside next => rw [Cluster.move, allowed.pools]; rfl
  | openPool pool | resetPool pool => exact Keyed.get_insert ..
  | quietPool quiet => simp only [Cluster.move, Cluster.quietPool, Keyed.get_adjust, Move.onPool]
  | dropPool gone | seizePool gone =>
    simp only [Cluster.move, removePool_pools]
    exact Keyed.get_erase ..
  | requeue moved _ pool => simp only [Cluster.move, requeue_pools]; rfl
  | finish gone keepIdle => simp only [Cluster.move, finish, forget, release_pools]; rfl
  | _ => rfl

theorem environments_move {move : Move} (allowed : move.Allowed c) (id : Uuid) :
    (c.move move).environments.get id = move.onEnvironment id (c.environments.get id) := by
  cases move with
  | aside next => rw [Cluster.move, allowed.environments]; rfl
  | putEnvironment environment => exact Keyed.get_insert ..
  | dropEnvironment gone => exact Keyed.get_erase ..
  | dropPool gone | seizePool gone => simp only [Cluster.move, removePool_environments]; rfl
  | requeue moved _ pool => simp only [Cluster.move, requeue_environments]; rfl
  | finish gone keepIdle => simp only [Cluster.move, finish, forget, release_environments]; rfl
  | _ => rfl

theorem nodes_release (c : Cluster) (id : Uuid) (keepIdle : Bool) :
    (c.release id keepIdle).nodes =
      c.nodes.map (Move.releaseOn c id keepIdle) (Move.releaseOn_id c id keepIdle) := by
  have unchanged (same : ∀ node, Move.releaseOn c id keepIdle node = node) :
      c.nodes.map (Move.releaseOn c id keepIdle) (Move.releaseOn_id c id keepIdle) = c.nodes := by
    have identity : Move.releaseOn c id keepIdle = fun node => node := funext same
    simp [Keyed.map, identity]
  cases present : c.executions.get id with
  | none =>
    rw [unchanged (fun node => by simp [Move.releaseOn, present])]
    simp [release, present]
  | some execution =>
    cases known : c.pools.get execution.pool with
    | none =>
      rw [unchanged (fun node => by simp [Move.releaseOn, present, known]),
        release_of_get_none keepIdle present known]
    | some pool =>
      cases placed : execution.node with
      | none =>
        rw [unchanged (fun node => by simp [Move.releaseOn, present, known, placed])]
        simp [release, present, placed]
      | some there =>
        rw [release_of_get keepIdle present placed known]
        have same : Move.releaseOn c id keepIdle =
            fun node => if node.id = there then node.vacate pool keepIdle else node := by
          funext node
          simp [Move.releaseOn, present, known, placed, eq_comm]
        simp only [Keyed.adjust, same]

/-- Every move that keeps the nodes rewrites each of them on its own. -/
theorem nodes_move {move : Move} (keeps : move.keepsNodes = true) :
    (c.move move).nodes = c.nodes.map (move.onNode c) (Move.onNode_id c move) := by
  have unchanged (same : ∀ node, move.onNode c node = node) :
      c.nodes.map (move.onNode c) (Move.onNode_id c move) = c.nodes := by
    have identity : move.onNode c = fun node => node := funext same
    simp [Keyed.map, identity]
  cases move with
  | aside | addNode | dropNode => cases keeps
  | dropPool name | seizePool name =>
    cases known : c.pools.get name with
    | none =>
      rw [unchanged (fun node => by simp [Move.onNode, known])]
      simp [Cluster.move, removePool, known]
    | some pool =>
      simp only [Cluster.move, removePool_of_get known]
      congr 1
      funext node
      simp [Move.onNode, known]
  | requeue id source pool =>
    by_cases assigned : (c.executions.get id).any
      (fun execution => execution.status = .assigned) = true
    · simp only [Cluster.move, requeue, assigned, ↓reduceIte, nodes_release]
      congr 1
      funext node
      simp only [Move.onNode, assigned, ↓reduceIte]
    · rw [unchanged (fun node => by simp [Move.onNode, assigned])]
      simp [Cluster.move, requeue, assigned]
  | finish id keepIdle => exact nodes_release ..
  | cool | resetIdle | warm | place => rfl
  | _ => exact (unchanged (fun _ => rfl)).symm

end Cluster

/-! Executions in memory are active. -/

/-- What the move does to one active execution keeps it in order. -/
theorem Orderly.move {c : Cluster} {move : Move} (orderly : Orderly c) (allowed : move.Allowed c) :
    Orderly (c.move move) := by
  have kept (id : Uuid) (execution : Execution)
    (present : (c.move move).executions.get id = some execution) :
      execution.status.active = true ∧ (execution.status = .queued → execution.node = none) := by
    rw [Cluster.get_move allowed] at present
    have before (other : Execution) (same : c.executions.get id = some other) :
        other.status.active = true ∧ (other.status = .queued → other.node = none) :=
      ⟨orderly.active id other same, orderly.unplaced id other same⟩
    cases move with
    | receive admitted =>
      simp only [Move.onExecution] at present
      split_ifs at present
      · cases present
        exact ⟨by rw [allowed.2.1]; rfl, fun _ => allowed.2.2.1⟩
      · exact before execution present
    | withdraw gone | finish gone _ =>
      simp only [Move.onExecution] at present
      split_ifs at present
      exact before execution present
    | requeue moved _ pool =>
      simp only [Move.onExecution] at present
      split_ifs at present
      · obtain ⟨old, -, rfl⟩ := Option.map_eq_some_iff.mp present
        exact ⟨rfl, fun _ => rfl⟩
      · exact before execution present
    | start started now =>
      simp only [Move.onExecution] at present
      split_ifs at present
      · obtain ⟨old, -, rfl⟩ := Option.map_eq_some_iff.mp present
        exact ⟨rfl, fun queued => by cases queued⟩
      · exact before execution present
    | place placed pool node =>
      simp only [Move.onExecution] at present
      split_ifs at present
      · obtain ⟨old, -, rfl⟩ := Option.map_eq_some_iff.mp present
        exact ⟨rfl, fun queued => by cases queued⟩
      · exact before execution present
    | _ => exact before execution present
  exact ⟨fun id execution present => (kept id execution present).1,
    fun id execution present => (kept id execution present).2⟩

theorem Orderly.moves {may : Cluster → Move → Prop} {c next : Cluster} (orderly : Orderly c)
    (made : Moves may c next) : Orderly next :=
  made.invariant orderly (fun before allowed moved => Option.some.inj moved ▸ before.move allowed.1)

/-- A pool in which nothing is queued, assigned or running. -/
def Unused (c : Cluster) (pool : String) : Prop :=
  c.executions.any (fun execution => execution.activeIn pool) = false

theorem Unused.not_active {c : Cluster} {pool : String} (unused : Unused c pool) {id : Uuid}
    {execution : Execution}
    (present : c.executions.get id = some execution) (active : execution.status.active = true) :
    execution.pool ≠ pool := by
  intro inside
  have quiet := (Keyed.any_eq_false_iff _ _).mp unused id execution present
  rw [Execution.activeIn, active] at quiet
  simp [inside] at quiet

/-- Every execution on a node sits on a known node, in a known pool. -/
def Seated (c : Cluster) : Prop :=
  ∀ id execution, c.executions.get id = some execution → execution.status.onNode = true →
    (∃ pool, c.pools.get execution.pool = some pool) ∧
      ∃ node there, execution.node = some node ∧ c.nodes.get node = some there

/-- The move takes no pool away from an active execution. -/
def Move.Gentle (c : Cluster) : Move → Prop
  | seizePool name => Unused c name
  | _ => True

/-- A node stays known unless it is dropped. -/
theorem nodes_move_isSome {c : Cluster} (move : Move) (allowed : move.Allowed c) {k : Uuid}
    (known : (c.nodes.get k).isSome = true) (kept : move ≠ .dropNode k) :
    ((c.move move).nodes.get k).isSome = true := by
  by_cases keeps : move.keepsNodes = true
  · rw [Cluster.nodes_move keeps, Keyed.get_map, Option.isSome_map]
    exact known
  · cases move with
    | aside next =>
      have same := congrArg Option.isSome (allowed.nodes k)
      rw [Option.isSome_map, Option.isSome_map, known] at same
      exact same
    | addNode node =>
      simp only [Cluster.move, Keyed.get_insert]
      split_ifs
      · rfl
      · exact known
    | dropNode id =>
      have differ : k ≠ id := fun same => kept (same ▸ rfl)
      simpa [Cluster.move, Keyed.get_erase, differ] using known
    | _ => exact absurd rfl keeps

theorem Seated.move {c : Cluster} {move : Move} (seated : Seated c) (allowed : move.Allowed c)
    (gentle : move.Gentle c) : Seated (c.move move) := by
  -- An execution that was on its node before keeps its pool and its node.
  have stays (id : Uuid) (execution : Execution) (present : c.executions.get id = some execution)
      (on : execution.status.onNode = true) :
      (∃ pool, (c.move move).pools.get execution.pool = some pool) ∧
        ∃ node there, execution.node = some node ∧ (c.move move).nodes.get node = some there := by
    obtain ⟨⟨pool, known⟩, node, there, placed, found⟩ := seated id execution present on
    have active := ExecutionStatus.active_of_onNode on
    refine ⟨Option.isSome_iff_exists.mp ?_, node, ?_⟩
    · rw [Cluster.pools_move allowed, known]
      cases move with
      | openPool opened | resetPool opened => simp only [Move.onPool]; split_ifs <;> rfl
      | quietPool quiet => simp only [Move.onPool]; split_ifs <;> rfl
      | dropPool gone =>
        have differ := Unused.not_active allowed present active
        simp [Move.onPool, differ]
      | seizePool gone =>
        have differ := Unused.not_active gentle present active
        simp [Move.onPool, differ]
      | _ => rfl
    · have kept : move ≠ .dropNode node := by
        rintro rfl
        have quiet := (Keyed.any_eq_false_iff _ _).mp allowed id execution present
        simp [Execution.occupiesOn, placed, on] at quiet
      obtain ⟨after, still⟩ := Option.isSome_iff_exists.mp
        (nodes_move_isSome _ allowed (by rw [found]; rfl) kept)
      exact ⟨after, placed, still⟩
  intro id execution present on
  have after := present
  rw [Cluster.get_move allowed] at after
  cases move with
  | receive admitted =>
    simp only [Move.onExecution] at after
    split_ifs at after
    · cases after
      rw [allowed.2.1] at on
      cases on
    · exact stays id execution after on
  | withdraw gone | finish gone _ =>
    simp only [Move.onExecution] at after
    split_ifs at after
    exact stays id execution after on
  | requeue moved _ pool =>
    simp only [Move.onExecution] at after
    split_ifs at after
    · obtain ⟨old, -, rfl⟩ := Option.map_eq_some_iff.mp after
      cases on
    · exact stays id execution after on
  | start started now =>
    simp only [Move.onExecution] at after
    split_ifs at after with same
    · obtain ⟨old, was, rfl⟩ := Option.map_eq_some_iff.mp after
      obtain ⟨assigned, found, status⟩ := allowed
      rw [← same, was] at found
      cases found
      exact stays id old was (by rw [status]; rfl)
    · exact stays id execution after on
  | place placed pool node =>
    simp only [Move.onExecution] at after
    split_ifs at after with same
    · obtain ⟨old, was, rfl⟩ := Option.map_eq_some_iff.mp after
      obtain ⟨queued, there, rfl, choice⟩ := allowed
      have found := choice.present
      rw [← same, was] at found
      cases found
      refine ⟨⟨pool, choice.known⟩, there.id, ?_⟩
      obtain ⟨now, still⟩ := Option.isSome_iff_exists.mp
        (nodes_move_isSome (.place placed pool there.id) ⟨queued, there, rfl, choice⟩
          (by rw [choice.there]; rfl) (by simp))
      exact ⟨now, rfl, still⟩
    · exact stays id execution after on
  | _ => exact stays id execution after on

end Scraperack
