import Scraperack.System

/-! The locked sections as sequences of elementary moves. A move shifts one thing in the
accounts of the cluster: an instance, an execution, a pool or a node. What a section
does to instances and executions is said here once; invariants of the accounts are then
checked move by move. -/

namespace Scraperack
open Counters

/-- What a node accounts for. -/
structure Account where
  usedCpuMillis : Nat
  usedMemoryMib : Nat
  idleInstances : Keyed.Table String Nat
  clamped : Bool

def Node.account (node : Node) : Account :=
  ⟨node.usedCpuMillis, node.usedMemoryMib, node.idleInstances, node.clamped⟩

/-- Two clusters that agree on everything the accounts consist of. They may differ in images,
credentials, readiness and what nodes report about themselves. -/
structure SameAccounts (c next : Cluster) : Prop where
  pools : next.pools = c.pools
  environments : next.environments = c.environments
  executions : next.executions = c.executions
  decisions : next.decisions = c.decisions
  nodes : ∀ id, (next.nodes.get id).map Node.account = (c.nodes.get id).map Node.account

theorem SameAccounts.node {c next : Cluster} (same : SameAccounts c next) {id : Uuid} {node : Node}
    (present : next.nodes.get id = some node) :
    ∃ before, c.nodes.get id = some before ∧ before.account = node.account := by
  have accounts := same.nodes id
  rw [present, Option.map_some, eq_comm, Option.map_eq_some_iff] at accounts
  exact accounts

inductive Move where
  | aside (next : Cluster)
  | addNode (node : Node)
  | dropNode (id : Uuid)
  | openPool (pool : Pool)
  /-- `update_environment` without a rebuild writes its pool over whatever has the name. -/
  | resetPool (pool : Pool)
  | quietPool (name : String)
  | dropPool (name : String)
  /-- `delete_environment` takes its pool away without a look at the pool's executions. -/
  | seizePool (name : String)
  | putEnvironment (environment : Environment)
  | dropEnvironment (id : Uuid)
  | receive (execution : Execution)
  | withdraw (id : Uuid)
  | requeue (id : Uuid) (source pool : String)
  | start (id : Uuid) (now : Nat)
  | finish (id : Uuid) (keepIdle : Bool)
  | cool (node : Uuid) (pool : Pool)
  | resetIdle (node : Uuid)
  | warm (node : Uuid) (pool : Pool)
  | place (execution : Execution) (pool : Pool) (node : Uuid)

namespace Move

/-- The moves that put a new instance on a node. -/
def grows : Move → Bool
  | warm .. | place .. => true
  | _ => false

/-- The moves that a section makes, if at all, before any other. -/
def leads : Move → Bool
  | resetPool _ | seizePool _ | warm .. => true
  | _ => false

end Move

namespace Cluster

theorem quiet_name (pool : Pool) : { pool with warmInstances := 0 }.name = pool.name := rfl

def quietPool (c : Cluster) (name : String) : Cluster :=
  { c with pools := c.pools.adjust name (fun pool =>
    { pool with warmInstances := 0 }) quiet_name }

/-- The execution is gone and its instance is idle again or gone as well. -/
def finish (c : Cluster) (id : Uuid) (keepIdle : Bool) : Cluster :=
  (c.release id keepIdle).forget id

def move (c : Cluster) : Move → Cluster
  | .aside next => next
  | .addNode node => { c with nodes := c.nodes.insert node }
  | .dropNode id => { c with nodes := c.nodes.erase id }
  | .openPool pool | .resetPool pool => { c with pools := c.pools.insert pool }
  | .quietPool name => c.quietPool name
  | .dropPool name | .seizePool name => c.removePool name
  | .putEnvironment environment => { c with environments := c.environments.insert environment }
  | .dropEnvironment id => { c with environments := c.environments.erase id }
  | .receive execution => { c with executions := c.executions.insert execution }
  | .withdraw id => { c with executions := c.executions.erase id }
  | .requeue id _ pool => Scraperack.requeue pool c id
  | .start id now => c.start id now
  | .finish id keepIdle => c.finish id keepIdle
  | .cool node pool =>
      { c with nodes := c.nodes.adjust node (fun node => node.removeIdle pool) (fun node => node.removeIdle_id pool) }
  | .resetIdle node => c.resetIdleInstances node
  | .warm node pool =>
      { c with nodes := c.nodes.adjust node (fun node => node.addWarm pool) (fun node => node.addWarm_id pool) }
  | .place execution pool node => c.place execution pool node

end Cluster

/-- What the code has established when it makes the move. -/
def Move.Allowed (c : Cluster) : Move → Prop
  | aside next => SameAccounts c next
  | addNode node => c.nodes.get node.id = none ∧ node.account = ⟨0, 0, ∅, false⟩
  | dropNode id => c.executions.any (fun execution => execution.occupiesOn id) = false
  | openPool pool => c.pools.get pool.name = none
  | dropPool name => c.executions.any (fun execution => execution.activeIn name) = false
  | dropEnvironment id =>
    c.executions.any (fun execution => decide (execution.environment = some id) &&
      execution.status.active) = false
  | receive execution =>
    c.executions.get execution.id = none ∧ execution.status = .queued ∧ execution.node = none ∧
      c.pools.contains execution.pool = true
  | withdraw id => ∃ execution, c.executions.get id = some execution ∧ execution.status = .queued
  | requeue id source _ =>
    ∃ execution, c.executions.get id = some execution ∧ execution.pool = source ∧
      (execution.status = .queued ∨ execution.status = .assigned)
  | start id _ => ∃ execution, c.executions.get id = some execution ∧ execution.status = .assigned
  | finish id _ => ∃ execution, c.executions.get id = some execution ∧
      execution.status.onNode = true
  | cool node pool =>
    c.pools.get pool.name = some pool ∧ ∃ there, c.nodes.get node = some there ∧
      0 < there.idle pool.name
  | warm node pool =>
    c.pools.get pool.name = some pool ∧ c.warmRoom pool = true ∧
      c.warmInstancesOn node pool < u32Max ∧
      ∃ there, c.nodes.get node = some there
  | place execution pool node =>
    execution.status = .queued ∧ ∃ there, there.id = node ∧ c.Choice execution pool there
  | resetPool _ | quietPool _ | seizePool _ | putEnvironment _ | resetIdle _ => True

/-- A sequence of moves, each allowed and of the kind that `may` admits. -/
abbrev Moves (may : Cluster → Move → Prop) : Cluster → Cluster → Prop :=
  Runs.Reaches (fun c move => some (c.move move)) (fun c move => move.Allowed c ∧ may c move)

namespace Moves
variable {may : Cluster → Move → Prop}

theorem one {c : Cluster} (move : Move) (allowed : move.Allowed c) (admitted : may c move) :
    Moves may c (c.move move) :=
  .single ⟨allowed, admitted⟩ rfl

theorem then_one {c d : Cluster} (before : Moves may c d) (move : Move) (allowed : move.Allowed d)
    (admitted : may d move) : Moves may c (d.move move) :=
  before.trans (one move allowed admitted)

end Moves

/-- The moves of a section that began in `c`, up to the point where it adds instances. -/
abbrev Sheds (may : Move → Prop) (c : Cluster) : Cluster → Cluster → Prop :=
  Moves (fun d move => move.grows = false ∧ may move ∧ (move.leads = true → d = c))

/-- The moves that add instances, in a section that began in `c`. -/
abbrev Grows (c : Cluster) : Cluster → Cluster → Prop :=
  Moves (fun d move => move.grows = true ∧ (move.leads = true → d = c))

/-- First the moves that shed or rearrange instances, then those that add some. -/
def ShedThenGrow (may : Move → Prop) (c next : Cluster) : Prop :=
  ∃ middle, Sheds may c c middle ∧ Grows c middle next

section
variable {may : Move → Prop} {c d : Cluster}

theorem Moves.shed (before : Sheds may c c d) (move : Move) (allowed : move.Allowed d)
    (admitted : may move)
    (sheds : move.grows = false) (follows : move.leads = false) : Sheds may c c (d.move move) :=
  before.then_one move allowed ⟨sheds, admitted, fun leads => by rw [follows] at leads; cases leads⟩

theorem Moves.lead (move : Move) (allowed : move.Allowed c) (admitted : may move)
    (sheds : move.grows = false) : Sheds may c c (c.move move) :=
  .one move allowed ⟨sheds, admitted, fun _ => rfl⟩

theorem grows_schedule (c d : Cluster) : Grows c d d.scheduleQueued.1 := by
  apply Cluster.scheduleQueued_invariant (P := Grows c d) (.refl d)
  intro e execution pool node before queued choice
  exact Moves.then_one before (.place execution pool node.id) ⟨queued, node, rfl, choice⟩
    ⟨rfl, fun leads => by cases leads⟩

theorem Moves.ends (before : Sheds may c c d) : ShedThenGrow may c d := ⟨d, before, .refl d⟩

theorem Moves.scheduled (before : Sheds may c c d) : ShedThenGrow may c d.scheduleQueued.1 :=
  ⟨d, before, grows_schedule c d⟩

theorem ShedThenGrow.mono {other : Move → Prop} (made : ShedThenGrow may c d)
    (weaker : ∀ move, may move → other move) :
    ShedThenGrow other c d := by
  obtain ⟨middle, shed, grown⟩ := made
  refine ⟨middle, shed.mono ?_, grown⟩
  rintro e move ⟨allowed, sheds, admitted, leads⟩
  exact ⟨allowed, sheds, weaker move admitted, leads⟩

/-- What every permitted move preserves, a whole section preserves. -/
theorem ShedThenGrow.invariant {P : Cluster → Prop} (made : ShedThenGrow may c d) (start : P c)
    (kept : ∀ {e : Cluster} {move : Move}, P e → move.Allowed e → move.grows = true ∨ may move →
      (move.leads = true → e = c) → P (e.move move)) : P d := by
  obtain ⟨middle, shed, grown⟩ := made
  refine grown.invariant (shed.invariant start ?_) ?_
  · rintro e f move holds ⟨allowed, -, admitted, leads⟩ moved
    exact Option.some.inj moved ▸ kept holds allowed (.inr admitted) leads
  · rintro e f move holds ⟨allowed, grows, leads⟩ moved
    exact Option.some.inj moved ▸ kept holds allowed (.inl grows) leads

end

/-! Changes beside the accounts. -/

namespace SameAccounts

theorem refl (c : Cluster) : SameAccounts c c := ⟨rfl, rfl, rfl, rfl, fun _ => rfl⟩

/-- Rewriting the nodes beside their accounts. -/
theorem of_map (c : Cluster) (f : Node → Node) (keeps : ∀ node, (f node).id = node.id)
    (same : ∀ node, (f node).account = node.account) : SameAccounts c
      { c with nodes := c.nodes.map f keeps } := by
  refine ⟨rfl, rfl, rfl, rfl, fun id => ?_⟩
  cases present : c.nodes.get id <;> simp [present, same]

theorem of_adjust (c : Cluster) (id : Uuid)
    (f : Node → Node) (keeps : ∀ node, (f node).id = node.id)
    (same : ∀ node, (f node).account = node.account) :
    SameAccounts c { c with nodes := c.nodes.adjust id f keeps } := by
  apply of_map
  intro node
  split_ifs
  · exact same node
  · rfl

theorem of_insert (c : Cluster) (node old : Node) (present : c.nodes.get node.id = some old)
    (same : node.account = old.account) : SameAccounts c
      { c with nodes := c.nodes.insert node } := by
  refine ⟨rfl, rfl, rfl, rfl, fun id => ?_⟩
  rw [Keyed.get_insert]
  split_ifs with own
  · rw [own, present, Option.map_some, Option.map_some, same]
  · rfl

theorem refreshNode (c : Cluster) (id : Uuid) : SameAccounts c (c.refreshNode id) :=
  of_adjust c id _ _ (fun _ => rfl)

theorem trans {c d e : Cluster} (first : SameAccounts c d)
    (second : SameAccounts d e) : SameAccounts c e :=
  ⟨second.pools.trans first.pools, second.environments.trans first.environments,
    second.executions.trans first.executions, second.decisions.trans first.decisions,
    fun id => (second.nodes id).trans (first.nodes id)⟩

end SameAccounts
end Scraperack
