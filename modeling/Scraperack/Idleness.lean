import Scraperack.Handover
import Scraperack.References

/-! The idle machines that the controller counts on a node, and the executions that still have to get
a machine there: what each section takes from the two and what it adds. -/

namespace Scraperack
open Counters

/-- The execution is assigned to the node or running there, in the pool. -/
def Execution.isOn (node : Uuid) (name : String) (execution : Execution) : Bool :=
  execution.occupiesOn node && execution.pool = name

namespace Cluster

/-- `nodes[node].idle_instances[name]`. -/
def idleOn (c : Cluster) (node : Uuid) (name : String) : Nat :=
  ((c.nodes.get node).map (fun there => there.idle name)).getD 0

/-- The executions of the pool on the node that are not among the served ones. -/
def unserved (c : Cluster) (node : Uuid) (name : String) (served : List Uuid) : Nat :=
  c.executions.count (fun execution =>
    execution.isOn node name && !served.contains execution.id)

theorem idleOn_of_accounts {c d : Cluster} (same : SameAccounts c d) (node : Uuid) (name : String) :
    d.idleOn node name = c.idleOn node name := by
  have accounts := same.nodes node
  unfold idleOn
  cases after : d.nodes.get node <;> cases before : c.nodes.get node <;>
    simp only [after, before, Option.map_none, Option.map_some, Option.some.injEq,
      reduceCtorEq] at accounts ⊢
  simpa using Node.idle_of_account accounts name

theorem idleOn_adjust (c : Cluster) (id : Uuid) (f : Node → Node)
    (keeps : ∀ node, (f node).id = node.id) (node : Uuid) (name : String) :
    ({ c with nodes := c.nodes.adjust id f keeps } : Cluster).idleOn node name =
      if node = id then ((c.nodes.get node).map (fun there => (f there).idle name)).getD 0
      else c.idleOn node name := by
  unfold idleOn
  rw [Keyed.get_adjust]
  split_ifs
  · rw [Option.map_map]
    rfl
  · rfl

theorem idleOn_place (c : Cluster) (execution : Execution) (pool : Pool) (id node : Uuid)
    (name : String) :
    (c.place execution pool id).idleOn node name =
      if node = id ∧ name = pool.name then c.idleOn node name - 1 else c.idleOn node name := by
  refine (idleOn_adjust c id (fun there => there.occupy pool) (fun there => there.occupy_id pool)
    node name).trans ?_
  unfold idleOn
  by_cases here : node = id
  · cases c.nodes.get node <;> simp [here, Node.idle_occupy]
  · simp [here]

theorem idleOn_removePool (c : Cluster) (gone : String) (node : Uuid) (name : String) :
    (c.removePool gone).idleOn node name ≤ c.idleOn node name ∧
      (gone ≠ name → (c.removePool gone).idleOn node name = c.idleOn node name) := by
  cases known : c.pools.get gone with
  | none =>
    rw [removePool_of_get_none known]
    exact ⟨Nat.le_refl _, fun _ => rfl⟩
  | some pool =>
    rw [removePool_of_get known]
    have own := Keyed.key_of_get known
    unfold idleOn
    simp only [Keyed.get_map]
    cases c.nodes.get node with
    | none => simp
    | some there =>
      simp only [Option.map_some, Option.getD_some, Node.idle_forgetPool, own]
      constructor
      · split_ifs <;> omega
      · intro apart
        rw [if_neg (fun same => apart same.symm)]

/-- A kept instance is counted where its execution was. -/
theorem idleOn_release (c : Cluster) {id : Uuid} {execution : Execution} (keepIdle : Bool)
    (present : c.executions.get id = some execution) (node : Uuid) (name : String) :
    (c.release id keepIdle).idleOn node name =
      if keepIdle = true ∧ execution.node = some node ∧ execution.pool = name ∧
        c.pools.contains name = true ∧ c.nodes.contains node = true then
        wrapping (c.idleOn node name + 1)
      else c.idleOn node name := by
  cases placed : execution.node with
  | none => simp [release, present, placed]
  | some there =>
    cases known : c.pools.get execution.pool with
    | none =>
      rw [release_of_get_none keepIdle present known, if_neg]
      rintro ⟨-, -, rfl, contains, -⟩
      simp [Keyed.contains, known] at contains
    | some pool =>
      have own := Keyed.key_of_get known
      rw [release_of_get keepIdle present placed known, idleOn_adjust]
      by_cases here : node = there
      · subst here
        unfold idleOn
        cases found : c.nodes.get node with
        | none => simp [Keyed.contains, found]
        | some before =>
          simp only [Option.map_some, Option.getD_some, Node.idle_vacate, own, if_true,
            Keyed.contains, found, Option.isSome_some, true_and, and_true]
          by_cases inside : execution.pool = name
          · subst inside
            simp [known]
          · simp [inside, Ne.symm inside]
      · rw [if_neg here, if_neg]
        rintro ⟨-, same, -⟩
        exact here (Option.some.inj same).symm

theorem idleOn_moved (name pool : String) (c : Cluster) (node : Uuid) (other : String) :
    (moved name pool c).idleOn node other = c.idleOn node other := by
  have looped (ids : List Uuid) (d : Cluster) :
      (ids.foldl (requeue name) d).idleOn node other = d.idleOn node other := by
    induction ids generalizing d with
    | nil => rfl
    | cons id rest ih =>
      rw [List.foldl_cons, ih]
      unfold requeue
      dsimp only
      split_ifs with assigned
      · obtain ⟨execution, present, -⟩ := (Option.any_eq_true _ _).mp assigned
        exact (idleOn_release d false present node other).trans (by simp)
      · rfl
  exact looped _ c

/-! Executions that still have to get a machine. -/

section
variable {c d : Cluster} {node : Uuid} {name : String} {served : List Uuid}

theorem unserved_le (waits : ∀ id execution, c.executions.get id = some execution →
    execution.isOn node name = true → id ∉ served → ∃ after, d.executions.get id = some after ∧
      after.isOn node name = true) :
    c.unserved node name served ≤ d.unserved node name served := by
  rw [unserved, unserved, Keyed.count_eq_total, Keyed.count_eq_total]
  refine Keyed.total_le_of_get _ _ (fun id execution present => ?_)
  have own := Keyed.key_of_get present
  by_cases on : (execution.isOn node name && !served.contains execution.id) = true
  · simp only [Bool.and_eq_true, Bool.not_eq_true', List.contains_eq_mem,
      decide_eq_false_iff_not] at on
    obtain ⟨after, there, still⟩ := waits id execution present on.1 (own ▸ on.2)
    refine .inr ⟨after, there, ?_⟩
    have other := Keyed.key_of_get there
    simp [on.1, still, other, own]
  · exact .inl (by rw [if_neg on])

theorem unserved_congr (node : Uuid) (name : String) (served : List Uuid)
    (same : d.executions = c.executions) :
    d.unserved node name served = c.unserved node name served := by
  rw [unserved, unserved, same]

/-- Fewer served executions, more that wait. -/
theorem unserved_anti {fewer : List Uuid} (within : ∀ id ∈ fewer, id ∈ served) :
    c.unserved node name served ≤ c.unserved node name fewer := by
  rw [unserved, unserved, Keyed.count_eq_total, Keyed.count_eq_total]
  refine Keyed.total_le (fun id execution present => ?_)
  split_ifs with on off
  · exact Nat.le_refl _
  · simp only [Bool.and_eq_true, Bool.not_eq_true', List.contains_eq_mem,
      decide_eq_false_iff_not] at on off
    exact absurd ⟨on.1, fun member => on.2 (within _ member)⟩ off
  · exact Nat.zero_le _
  · exact Nat.le_refl _

open scoped List in
theorem unserved_perm {others : List Uuid} (same : served ~ others) :
    c.unserved node name served = c.unserved node name others :=
  Nat.le_antisymm (unserved_anti (fun _ member => same.symm.subset member))
    (unserved_anti (fun _ member => same.subset member))

/-- One execution is served, which is no longer waited for. -/
theorem unserved_cons {id : Uuid} (new : id ∉ served) :
    c.unserved node name served = c.unserved node name (id :: served) +
      if (c.executions.get id).any (Execution.isOn node name) then 1 else 0 := by
  rw [unserved, unserved, Keyed.count_eq_total, Keyed.count_eq_total]
  cases present : c.executions.get id with
  | none =>
    refine Keyed.total_congr (fun k execution there => ?_)
    have differ : execution.id ≠ id := by
      rintro rfl
      rw [Keyed.get_congr there] at present
      cases present
    simp [differ]
  | some execution =>
    have changed := Keyed.total_change present
      (f := fun execution => if execution.isOn node name && !served.contains execution.id
        then 1 else 0)
      (g := fun execution => if execution.isOn node name && !(id :: served).contains execution.id
        then 1 else 0) (fun k other there differ => by
          have own := Keyed.key_of_get there
          have apart : other.id ≠ id := fun same => differ (own.symm.trans same)
          simp [apart])
    have own := Keyed.key_of_get present
    have here : (if execution.isOn node name && !(id :: served).contains execution.id
        then 1 else 0) = 0 := by simp [own]
    rw [here] at changed
    refine changed.trans (congrArg _ ?_)
    simp [own, new]

/-- An execution that is placed waits for a machine. -/
theorem unserved_place (node : Uuid) (name : String) {execution : Execution} (pool : Pool)
    (there : Uuid)
    (present : c.executions.get execution.id = some execution) (queued : execution.status = .queued)
    (waits : execution.id ∉ served) :
    (c.place execution pool there).unserved node name served = c.unserved node name served +
      if node = there ∧ name = execution.pool then 1 else 0 := by
  have changed := Keyed.total_adjust present (fun execution =>
    { execution with node := some there, status := .assigned }) (fun _ => rfl)
    (fun execution => if execution.isOn node name && !served.contains execution.id then 1 else 0)
  have before : execution.isOn node name = false := by
    simp [Execution.isOn, Execution.occupiesOn, queued, ExecutionStatus.onNode]
  simp only [before, Bool.false_and, Bool.false_eq_true, if_false, Nat.add_zero] at changed
  rw [unserved, unserved, Keyed.count_eq_total, Keyed.count_eq_total]
  refine changed.trans (congrArg _ ?_)
  simp [Execution.isOn, Execution.occupiesOn, ExecutionStatus.onNode, waits,
    eq_comm (a := there), eq_comm (a := execution.pool)]

end

/-- From one cluster to the other, so many idle machines are counted anew, so many are granted to the
node, and so many at most are lost, to the count or to the executions that wait. -/
structure Shift (node : Uuid) (name : String) (served : List Uuid) (c d : Cluster)
    (more granted lost : Nat) : Prop where
  below : d.idleOn node name + granted ≤ c.idleOn node name + more
  above : c.idleOn node name + more + c.unserved node name served ≤
    d.idleOn node name + granted + d.unserved node name served + lost

namespace Shift
variable {node : Uuid} {name : String} {served : List Uuid} {c d e : Cluster}
  {more granted lost : Nat}

theorem of_same (idle : d.idleOn node name = c.idleOn node name)
    (executions : d.executions = c.executions) : Shift node name served c d 0 0 lost := by
  have waits := unserved_congr node name served executions
  constructor <;> omega

theorem refl (c : Cluster) : Shift node name served c c 0 0 0 := of_same rfl rfl

theorem of_accounts (same : SameAccounts c d) : Shift node name served c d 0 0 lost :=
  of_same (idleOn_of_accounts same node name) same.executions

theorem then_same (shift : Shift node name served c d more granted lost)
    (idle : e.idleOn node name = d.idleOn node name) (executions : e.executions = d.executions) :
    Shift node name served c e more granted lost := by
  have waits := unserved_congr node name served executions
  have below := shift.below
  have above := shift.above
  constructor <;> omega

theorem place {execution : Execution} {pool : Pool} {there : Node}
    (shift : Shift node name served c d more granted lost) (queued : execution.status = .queued)
    (choice : d.Choice execution pool there)
    (waits : execution.id ∉ served) :
    Shift node name served c (d.place execution pool there.id) more granted lost := by
  have idle := idleOn_place d execution pool there.id node name
  have below := shift.below
  have above := shift.above
  have placed := unserved_place node name pool there.id choice.present queued waits
  rw [← Keyed.key_of_get choice.known] at placed
  by_cases here : node = there.id ∧ name = pool.name
  · rw [if_pos here] at idle placed
    constructor <;> omega
  · rw [if_neg here] at idle placed
    constructor <;> omega

theorem scheduleQueued (shift : Shift node name served c d more granted lost)
    (waits : ∀ id execution, d.executions.get id = some execution → execution.status = .queued →
      id ∉ served) :
    Shift node name served c d.scheduleQueued.1 more granted lost := by
  refine (scheduleQueued_invariant (P := fun e => Shift node name served c e more granted lost ∧
    ∀ id execution, e.executions.get id = some execution → execution.status = .queued →
      id ∉ served) ⟨shift, waits⟩ ?_).1
  rintro e execution pool there ⟨shift, waits⟩ queued choice
  refine ⟨shift.place queued choice (waits _ execution choice.present queued), ?_⟩
  intro id other found still
  rw [place_get] at found
  split_ifs at found with same
  · obtain ⟨before, -, rfl⟩ := Option.map_eq_some_iff.mp found
    cases still
  · exact waits id other found still

/-- Only nodes and executions matter. -/
theorem then_scheduled (shift : Shift node name served c d more granted lost)
    (nodes : e.nodes = d.nodes) (executions : e.executions = d.executions)
    (waits : ∀ id execution, d.executions.get id = some execution → execution.status = .queued →
      id ∉ served) :
    Shift node name served c e.scheduleQueued.1 more granted lost :=
  (shift.then_same (by rw [idleOn, idleOn, nodes]) executions).scheduleQueued
    (fun id execution present => waits id execution (executions ▸ present))

theorem lose (shift : Shift node name served c d more granted lost) {loses : Nat}
    (enough : lost ≤ loses) : Shift node name served c d more granted loses :=
  ⟨shift.below, shift.above.trans (Nat.add_le_add_left enough _)⟩

end Shift

theorem idleOn_addWarmInstance {c next : Cluster} {id : Uuid} {pool : String}
    (added : c.addWarmInstance id pool = some next) (node : Uuid) (name : String) :
    next.executions = c.executions ∧ next.idleOn node name =
      if id = node ∧ pool = name then wrapping (c.idleOn node name + 1)
      else c.idleOn node name := by
  unfold addWarmInstance at added
  cases known : c.pools.get pool with
  | none => simp [known] at added
  | some found =>
    have own := Keyed.key_of_get known
    simp only [known] at added
    split at added
    · cases added
    · split_ifs at added
      cases there : c.nodes.get id with
      | none => simp [there] at added
      | some before =>
        simp only [there] at added
        split_ifs at added
        obtain rfl := Option.some.inj added
        refine ⟨rfl, (idleOn_adjust ..).trans ?_⟩
        by_cases here : node = id
        · subst here
          by_cases same : pool = name
          · simp [idleOn, there, Node.idle_addWarm, own, same]
          · simp [idleOn, there, Node.idle_addWarm, own, same, Ne.symm same]
        · simp [here, Ne.symm here]

theorem idleOn_removeIdleInstance {c next : Cluster} {id : Uuid} {pool : String}
    (removed : c.removeIdleInstance id pool = some next) (node : Uuid) (name : String) :
    next.executions = c.executions ∧ next.idleOn node name + (if id = node ∧ pool = name then 1
      else 0) = c.idleOn node name := by
  unfold removeIdleInstance at removed
  cases known : c.pools.get pool with
  | none => simp [known] at removed
  | some found =>
    have own := Keyed.key_of_get known
    simp only [known] at removed
    split_ifs at removed
    cases there : c.nodes.get id with
    | none => simp [there] at removed
    | some before =>
      simp only [there] at removed
      split_ifs at removed with idle
      obtain rfl := Option.some.inj removed
      refine ⟨rfl, (congrArg (· + _) (idleOn_adjust ..)).trans ?_⟩
      by_cases here : node = id
      · subst here
        by_cases same : pool = name
        · subst same
          simp only [idleOn, there, Option.map_some, Option.getD_some, Node.idle_removeIdle, own,
            if_true, and_self]
          omega
        · simp [idleOn, there, Node.idle_removeIdle, own, same, Ne.symm same]
      · simp [here, Ne.symm here]

end Cluster

namespace Commit
variable (node : Uuid) (name : String) (c : Cluster)

/-- The section adds an idle machine to what is counted: a new one, or the one of an execution that is
over. -/
def adds : Commit → Bool
  | addWarmInstance id pool =>
    decide (id = node) && pool = name && (c.addWarmInstance id pool).isSome
  | completeExecution _ id request _ =>
    request.keepIdle && (c.executions.get id).any (Execution.isOn node name)
  | _ => false

/-- The section lets the node destroy an idle machine. -/
def grants : Commit → Bool
  | removeIdleInstance id pool =>
    decide (id = node) && pool = name && (c.removeIdleInstance id pool).isSome
  | _ => false

/-- The section gives up what is counted: with the pool or the node, at a registration after a start of
the node, or because it adds where it cannot. -/
def uncounts (commit : Commit) : Bool :=
  decide (commit.vacates c = some name) ||
    match commit with
    | deleteNode id => decide (id = node)
    | registerNode id request _ => decide (id = node) && request.resetIdle
    | commit => commit.adds node name c && (!c.pools.contains name || !c.nodes.contains node ||
        decide (u32Max ≤ c.idleOn node name))

/-- The section takes the executions that are assigned in the pool elsewhere. -/
def recalls : Commit → Bool
  | updateEnvironment _ _ request old image _ =>
    needsRebuild old image.id request && old.pool = name
  | restartEnvironment _ id =>
    (c.environments.get id).any (fun environment => environment.pool = name)
  | _ => false

/-- The idle machines and assigned executions that the section loses sight of. -/
def loses (commit : Commit) : Nat :=
  (if commit.uncounts node name c then c.idleOn node name + (commit.adds node name c).toNat
    else 0) +
    if commit.recalls name c then c.assignedOn name node else 0

end Commit

section
variable {c : Cluster} {node : Uuid} {name : String} {served : List Uuid}

open Cluster

theorem shift_removePool {d : Cluster} {more lost : Nat} (gone : String)
    (shift : Shift node name served c d more 0 lost) :
    Shift node name served c (d.removePool gone) more 0
      ((if gone = name then c.idleOn node name + more else 0) + lost) := by
  have waits := unserved_congr node name served
    (removePool_executions d gone)
  obtain ⟨fewer, others⟩ := idleOn_removePool d gone node name
  have below := shift.below
  have above := shift.above
  by_cases same : gone = name
  · rw [if_pos same]
    constructor <;> omega
  · rw [if_neg same]
    have idle := others same
    constructor <;> omega

/-- The loop of a restart takes the executions that are assigned in the pool, and no others. -/
theorem shift_moved (node : Uuid) (name : String) (served : List Uuid) (c : Cluster)
    (fresh pool : String) :
    Shift node name served c (moved fresh pool c) 0 0
      (if pool = name then c.assignedOn name node else 0) := by
  have idle := idleOn_moved fresh pool c node name
  refine ⟨by omega, ?_⟩
  rw [idle, Nat.add_zero, Nat.add_assoc]
  refine Nat.add_le_add_left ?_ _
  have stays {id : Uuid} {execution : Execution} (present : c.executions.get id = some execution)
      (apart : execution.pool ≠ pool ∨ execution.status = .running) :
      (moved fresh pool c).executions.get id = some execution := by
    rw [moved_get, if_neg, present]
    intro listed
    obtain ⟨other, found, inside, waits⟩ := (mem_reassignedIds pool c id).mp listed
    obtain rfl := Option.some.inj (present.symm.trans found)
    rcases apart with apart | runs
    · exact apart inside
    · rcases waits with status | status <;> rw [runs] at status <;> cases status
  by_cases same : pool = name
  · subst same
    rw [if_pos rfl]
    let running : Execution → Nat := fun execution =>
      if execution.isOn node pool && decide (execution.status = .running) &&
        !served.contains execution.id then 1 else 0
    have split : c.unserved node pool served ≤
        c.executions.total running + c.assignedOn pool node := by
      rw [unserved, Cluster.assignedOn, Keyed.count_eq_total, Keyed.count_eq_total,
        Keyed.total, Keyed.total, Keyed.total, ← List.sum_map_add]
      refine List.sum_le_sum (fun execution _ => ?_)
      cases status : execution.status <;>
        simp [running, Execution.isOn, Execution.occupiesOn, assignedTo, status,
          ExecutionStatus.onNode, and_comm]
      split_ifs with waits held
      · exact Nat.le_refl _
      · exact absurd waits.2 held
      all_goals exact Nat.zero_le _
    have kept : c.executions.total running ≤
        (moved fresh pool c).executions.total running := by
      refine Keyed.total_le_of_get _ _ (fun id execution present => ?_)
      by_cases runs : execution.status = .running
      · exact .inr ⟨execution, stays present (.inr runs), Nat.le_refl _⟩
      · exact .inl (by simp [running, runs])
    have counted : (moved fresh pool c).executions.total running ≤
        (moved fresh pool c).unserved node pool served := by
      rw [unserved, Keyed.count_eq_total]
      refine Keyed.total_le (fun id execution _ => ?_)
      by_cases runs : execution.status = .running <;> simp [running, runs]
    omega
  · rw [if_neg same, Nat.add_zero]
    refine unserved_le (fun id execution present on _ => ⟨execution, stays present (.inl ?_), on⟩)
    rw [Execution.isOn, Bool.and_eq_true, decide_eq_true_eq] at on
    exact fun inside => same (inside.symm.trans on.2)

/-- No served execution is queued, nor is one after the loop of a restart. -/
theorem moved_unqueued {fresh pool : String} (running : ∀ id ∈ served, ∀ execution,
      c.executions.get id = some execution → execution.status = .running) {id : Uuid}
    {execution : Execution}
    (present : (moved fresh pool c).executions.get id = some execution)
    (queued : execution.status = .queued) : id ∉ served := by
  intro member
  rw [moved_get] at present
  split_ifs at present with listed
  · obtain ⟨other, found, -, waits⟩ := (mem_reassignedIds pool c id).mp listed
    have runs := running id member other found
    rcases waits with status | status <;> rw [runs] at status <;> cases status
  · rw [running id member execution present] at queued
    cases queued

theorem shift_restart (running : ∀ id ∈ served, ∀ execution,
      c.executions.get id = some execution → execution.status = .running)
    (fresh : Uuid) (environment : Environment) :
    Shift node name served c (settle (restartEnvironmentPool fresh environment c)).cluster 0 0
      ((if !runningIn environment.pool c && environment.pool = name then c.idleOn node name else 0) +
        if environment.pool = name then c.assignedOn name node else 0) := by
  have looped := shift_moved node name served c (restartedPoolName environment.id fresh)
    environment.pool
  have unmoved := runningIn_moved (restartedPoolName environment.id fresh) environment.pool c
  have waits (id : Uuid) (execution : Execution) (present :
      (moved (restartedPoolName environment.id fresh) environment.pool c).executions.get id =
        some execution) : execution.status = .queued → id ∉ served :=
    moved_unqueued running present
  rcases restartEnvironmentPool_cases fresh environment c with
    ⟨old, known, runs, same⟩ | ⟨unknown, runs, same⟩ | ⟨rests, same⟩
  · rw [same, settle, if_neg (by simp)]
    exact (looped.lose (Nat.le_add_left _ _)).then_scheduled rfl rfl waits
  · rw [same]
    exact looped.lose (Nat.le_add_left _ _)
  · rw [unmoved] at rests
    rw [same, settle, if_neg (by simp), rests]
    have executions := removePool_executions
      (moved (restartedPoolName environment.id fresh) environment.pool c) environment.pool
    refine ((shift_removePool environment.pool looped).lose ?_).then_scheduled rfl rfl
      (fun id execution present => waits id execution (executions ▸ present))
    simp

/-- An execution that is served and ends leaves those that wait. -/
theorem unserved_finish (name : String) {id : Uuid} {execution : Execution} (keepIdle : Bool)
    (present : c.executions.get id = some execution)
    (placed : execution.node = some node → execution.status.onNode = true ∧ id ∈ served) :
    c.unserved node name served ≤ (c.finish id keepIdle).unserved node name served := by
  refine unserved_le (fun other waiting found on waits => ⟨waiting, ?_, on⟩)
  have differ : other ≠ id := by
    rintro rfl
    obtain rfl := Option.some.inj (present.symm.trans found)
    simp only [Execution.isOn, Execution.occupiesOn, Bool.and_eq_true, decide_eq_true_eq] at on
    exact waits (placed on.1.1).2
  rw [Cluster.finish, Cluster.forget, release_executions, Keyed.get_erase_ne _ differ, found]

/-- The end of an execution gives back its machine, where the pool and the node are known. -/
theorem shift_finish (name : String) {id : Uuid} {execution : Execution} (keepIdle : Bool)
    (present : c.executions.get id = some execution)
    (placed : execution.node = some node → execution.status.onNode = true ∧ id ∈ served) :
    Shift node name served c (c.finish id keepIdle)
      (keepIdle && execution.isOn node name).toNat 0
      (if (keepIdle && execution.isOn node name) && (!c.pools.contains name ||
          !c.nodes.contains node || decide (u32Max ≤ c.idleOn node name)) then
        c.idleOn node name + (keepIdle && execution.isOn node name).toNat else 0) := by
  have still := unserved_finish name keepIdle present placed
  have idle : (c.finish id keepIdle).idleOn node name = _ := idleOn_release c keepIdle present
    node name
  have bounded := Nat.mod_le (c.idleOn node name + 1) (u32Max + 1)
  rw [← wrapping] at bounded
  by_cases on : keepIdle = true ∧ execution.node = some node ∧ execution.pool = name
  · have counted : (keepIdle && execution.isOn node name) = true := by
      simp [Execution.isOn, Execution.occupiesOn, on, (placed on.2.1).1]
    rw [counted]
    simp only [Bool.true_and, Bool.toNat_true, Bool.or_eq_true, Bool.not_eq_true',
      decide_eq_true_eq]
    by_cases bad : (c.pools.contains name = false ∨ c.nodes.contains node = false) ∨
        u32Max ≤ c.idleOn node name
    · rw [if_pos bad]
      split_ifs at idle <;> constructor <;> omega
    · have known := bad
      simp only [not_or, Bool.not_eq_false, not_le] at known
      rw [if_pos ⟨on.1, on.2.1, on.2.2, known.1.1, known.1.2⟩, wrapping_of_le (by omega)] at idle
      rw [if_neg bad]
      constructor <;> omega
  · have uncounted : (keepIdle && execution.isOn node name) = false := by
      simp only [Execution.isOn, Execution.occupiesOn, Bool.and_eq_false_iff, decide_eq_false_iff_not]
      by_contra both
      simp only [not_or, Bool.not_eq_false, not_not] at both
      exact on ⟨both.1, both.2.1.1, both.2.2⟩
    rw [if_neg (fun all => on ⟨all.1, all.2.1, all.2.2.1⟩)] at idle
    rw [uncounted]
    constructor <;> simp only [Bool.toNat_false] <;> omega

theorem shift_registerNode (id : Uuid) (request : RegisterNode) (now : Nat)
    (waits : ∀ id execution, c.executions.get id = some execution → execution.status = .queued →
      id ∉ served) :
    Shift node name served c (registerNode id request now c).cluster 0 0
      (if id = node && request.resetIdle then c.idleOn node name else 0) := by
  let registered := refreshRegistration request now ((c.nodes.get id).getD (newNode id request now))
  let stored : Cluster := { c with nodes := c.nodes.insert registered }
  have kept : stored.idleOn node name = c.idleOn node name := by
    unfold idleOn
    rw [Keyed.get_insert, registration_id]
    split_ifs with here
    · subst here
      simp only [registered]
      cases there : c.nodes.get node <;> rfl
    · rfl
  have refreshed {d : Cluster} {lost : Nat} (shift : Shift node name served c d 0 0 lost)
      (executions : d.executions = c.executions) :
      Shift node name served c (d.refreshNode id).scheduleQueued.1 0 0 lost :=
    (shift.then_same (idleOn_of_accounts (.refreshNode d id) node name) rfl).scheduleQueued
      (fun other execution present => waits other execution (executions ▸ present))
  unfold registerNode
  dsimp only
  cases request.resetIdle with
  | false => exact refreshed ((Shift.of_same kept rfl).lose (Nat.zero_le _)) rfl
  | true =>
    refine refreshed (d := stored.resetIdleInstances id) ?_ rfl
    have still : (stored.resetIdleInstances id).unserved node name served =
        c.unserved node name served := unserved_congr node name served rfl
    have idle : (stored.resetIdleInstances id).idleOn node name =
        if node = id then 0 else c.idleOn node name := by
      refine (idleOn_adjust ..).trans ?_
      split_ifs
      · cases stored.nodes.get node <;> simp
      · exact kept
    by_cases here : id = node
    · subst here
      rw [if_pos rfl] at idle
      simp only [decide_true, Bool.and_true, if_true]
      constructor <;> omega
    · rw [if_neg (Ne.symm here)] at idle
      constructor <;> omega

theorem Commit.shift_addWarmInstance (id : Uuid) (pool : String)
    (waits : ∀ id execution, c.executions.get id = some execution → execution.status = .queued →
      id ∉ served) :
    Shift node name served c (Scraperack.addWarmInstance id pool c).cluster
      ((addWarmInstance id pool).adds node name c).toNat 0
      ((addWarmInstance id pool).loses node name c) := by
  unfold Scraperack.addWarmInstance scheduleIfChanged
  cases added : c.addWarmInstance id pool with
  | none => simpa [adds, grants, added] using (Shift.refl c).lose (Nat.zero_le _)
  | some next =>
    obtain ⟨executions, idle⟩ := idleOn_addWarmInstance added node name
    have still := unserved_congr node name served executions
    have grown : Shift node name served c next
        ((addWarmInstance id pool).adds node name c).toNat 0
        (if u32Max ≤ c.idleOn node name ∧ (addWarmInstance id pool).adds node name c = true then
          c.idleOn node name + 1 else 0) := by
      by_cases here : id = node ∧ pool = name
      · rw [if_pos here] at idle
        obtain ⟨rfl, rfl⟩ := here
        have one : (addWarmInstance id pool).adds id pool c = true := by simp [adds, added]
        have bounded := Nat.mod_le (c.idleOn id pool + 1) (u32Max + 1)
        rw [← wrapping] at bounded
        simp only [one, Bool.toNat_true, and_true]
        split_ifs with full
        · constructor <;> omega
        · rw [wrapping_of_le (by omega)] at idle
          constructor <;> omega
      · rw [if_neg here] at idle
        have none_added : (addWarmInstance id pool).adds node name c = false := by
          simpa [adds, added] using here
        simp only [none_added, Bool.toNat_false]
        constructor <;> omega
    refine Shift.then_scheduled (grown.lose ?_) rfl rfl (fun id execution present =>
      waits id execution (executions ▸ present))
    split_ifs with full
    · simp [loses, uncounts, full]
    · exact Nat.zero_le _

theorem Commit.shift_removeIdleInstance (id : Uuid) (pool : String)
    (waits : ∀ id execution, c.executions.get id = some execution → execution.status = .queued →
      id ∉ served) :
    Shift node name served c (Scraperack.removeIdleInstance id pool c).cluster 0
      ((removeIdleInstance id pool).grants node name c).toNat
      ((removeIdleInstance id pool).loses node name c) := by
  unfold Scraperack.removeIdleInstance scheduleIfChanged
  cases removed : c.removeIdleInstance id pool with
  | none => simpa [adds, grants, removed] using (Shift.refl c).lose (Nat.zero_le _)
  | some next =>
    obtain ⟨executions, idle⟩ := idleOn_removeIdleInstance removed node name
    have still := unserved_congr node name served executions
    have granted : ((removeIdleInstance id pool).grants node name c).toNat =
        if id = node ∧ pool = name then 1 else 0 := by
      simp only [grants, removed, Option.isSome_some, Bool.and_true]
      by_cases here : id = node ∧ pool = name
      · simp [here]
      · rw [if_neg here, ← Bool.decide_and, decide_eq_false here]
        rfl
    rw [← granted] at idle
    have left : Shift node name served c next 0 ((removeIdleInstance id pool).grants node name c).toNat
        ((removeIdleInstance id pool).loses node name c) := by
      constructor <;> omega
    exact left.then_scheduled rfl rfl (fun id execution present =>
      waits id execution (executions ▸ present))

/-- A completion takes its execution, which is served, and removes the pool where nothing else uses it. -/
theorem Commit.shift_completeExecution {other id : Uuid} {request : CompleteExecution} {now : Nat}
    {result : Section} (ran : Scraperack.completeExecution other id request now c = .ok result)
    (running : ∀ id ∈ served, ∀ execution,
      c.executions.get id = some execution → execution.status = .running)
    (waits : ∀ id execution, c.executions.get id = some execution → execution.status = .queued →
      id ∉ served)
    (ends : other = node → id ∈ served) :
    Shift node name served c result.cluster
      ((completeExecution other id request now).adds node name c).toNat 0
      ((completeExecution other id request now).loses node name c) := by
  obtain ⟨execution, present, placed, rfl⟩ := completeExecution_eq_ok ran
  have own := Keyed.key_of_get present
  subst own
  have here (same : execution.node = some node) :
      execution.status.onNode = true ∧ execution.id ∈ served := by
    obtain rfl := Option.some.inj (placed.symm.trans same)
    have member := ends rfl
    exact ⟨by rw [running _ member execution present]; rfl, member⟩
  have counted : (completeExecution other execution.id request now).adds node name c =
      (request.keepIdle && execution.isOn node name) := by
    simp [adds, present]
  have gone := shift_finish name request.keepIdle present here
  have stale : stalePool execution.pool (c.finish execution.id request.keepIdle) =
      stalePool execution.pool (c.forget execution.id) := by
    simp [stalePool, Cluster.finish, Cluster.forget]
  have left (d : Cluster) (same : d.executions = c.executions.erase execution.id) (id : Uuid)
      (found : Execution) (there : d.executions.get id = some found)
      (queued : found.status = .queued) : id ∉ served := by
    rw [same, Keyed.get_erase] at there
    split_ifs at there
    exact waits id found there queued
  have uncounted : (completeExecution other execution.id request now).uncounts node name c =
      (decide (stalePool execution.pool (c.forget execution.id) = true ∧ execution.pool = name) ||
        (request.keepIdle && execution.isOn node name) && (!c.pools.contains name ||
          !c.nodes.contains node || decide (u32Max ≤ c.idleOn node name))) := by
    rw [← counted]
    simp only [uncounts, vacates, present, Option.filter_some, placed, decide_true, if_true,
      Option.map_some]
    congr 2
    split_ifs <;> simp [*]
  have sheds : c.executions.erase execution.id =
      (c.finish execution.id request.keepIdle).executions := by
    simp [Cluster.finish, Cluster.forget]
  rw [counted, loses, uncounted, counted]
  simp only [cleaned, stale, recalls, Bool.false_eq_true, if_false, Nat.add_zero]
  by_cases clean : stalePool execution.pool (c.forget execution.id) = true
  · rw [if_pos clean]
    have removed := idleOn_removePool (c.finish execution.id request.keepIdle) execution.pool
      node name
    have still := unserved_finish name request.keepIdle present here
    rw [← unserved_congr node name served (removePool_executions (c.finish _ _) execution.pool)] at still
    refine Shift.scheduleQueued ?_ (left _ ((removePool_executions _ _).trans sheds.symm))
    rcases eq_or_ne execution.pool name with same | apart
    · have below := gone.below
      rw [decide_eq_true ⟨clean, same⟩, Bool.true_or, if_pos rfl]
      constructor <;> omega
    · rw [decide_eq_false (fun both => apart both.2), Bool.false_or]
      exact gone.then_same (removed.2 apart) (removePool_executions _ _)
  · rw [if_neg clean, decide_eq_false (fun both => clean both.1), Bool.false_or]
    exact Shift.scheduleQueued gone (left _ sheds.symm)

/-- What a section does to the idle machines that are counted and the executions that wait. -/
theorem Commit.shift [Crates] {commit : Commit} {result : Section}
    (ran : commit.run c = .ok result)
    (running : ∀ id ∈ served, ∀ execution,
      c.executions.get id = some execution → execution.status = .running)
    (ends : ∀ id request now, commit = .completeExecution node id request now → id ∈ served) :
    Shift node name served c result.cluster (commit.adds node name c).toNat
      (commit.grants node name c).toNat (commit.loses node name c) := by
  have waits (id : Uuid) (execution : Execution) (present : c.executions.get id = some execution)
      (queued : execution.status = .queued) : id ∉ served := by
    intro member
    rw [running id member execution present] at queued
    cases queued
  cases commit with
  | importImage image =>
    obtain rfl := Except.ok.inj ran
    have nodes := (SameAccounts.of_map c (fun node => { node with status := .syncing })
      (fun _ => rfl) (fun _ => rfl)).nodes
    exact .of_accounts ⟨rfl, rfl, rfl, rfl, nodes⟩
  | updateImage id update =>
    obtain ⟨image, -, rfl⟩ := updateImage_eq_ok ran
    exact .of_same rfl rfl
  | deleteImage id =>
    obtain ⟨-, -, rfl⟩ := deleteImage_eq_ok ran
    have nodes := (SameAccounts.of_map c (fun node =>
      { node with images := node.images.erase id }) (fun _ => rfl) (fun _ => rfl)).nodes
    exact .of_accounts ⟨rfl, rfl, rfl, rfl, nodes⟩
  | createPool pool =>
    obtain ⟨-, -, -, rfl⟩ := createPool_eq_ok ran
    exact .of_same rfl rfl
  | deletePool gone =>
    obtain ⟨unused, rfl⟩ := deletePool_eq_ok ran
    refine (shift_removePool gone (.refl c)).lose ?_
    simp only [loses, uncounts, vacates, unused, Bool.false_eq_true, if_false, Option.some.injEq,
      adds, recalls]
    split_ifs <;> simp_all
  | createEnvironment id request image artifact =>
    obtain rfl := Except.ok.inj ran
    exact .of_same rfl rfl
  | updateEnvironment fresh id request old image artifact =>
    obtain rfl := Except.ok.inj ran
    rw [updateEnvironment_eq]
    split_ifs with rebuild
    · refine (shift_restart running fresh _).lose ?_
      have own : (requestedEnvironment id request image.id artifact old.pool).pool = old.pool := rfl
      rw [own]
      rcases eq_or_ne old.pool name with rfl | same <;> cases runs : runningIn old.pool c <;>
        simp [loses, uncounts, vacates, adds, recalls, *]
    · exact (Shift.of_same (c := c) (d := c) rfl rfl).then_scheduled rfl rfl waits
  | restartEnvironment fresh id =>
    obtain ⟨environment, present, rfl⟩ := restartEnvironment_eq_ok ran
    refine (shift_restart running fresh _).lose ?_
    rcases eq_or_ne environment.pool name with rfl | same <;>
      cases runs : runningIn environment.pool c <;>
      simp [loses, uncounts, vacates, adds, recalls, Option.filter_some, *]
  | deleteEnvironment id =>
    obtain ⟨environment, present, unused, rfl⟩ := deleteEnvironment_eq_ok ran
    have erased : Shift node name served c
        { c with environments := c.environments.erase environment.id } 0 0 0 := .of_same rfl rfl
    have removed := shift_removePool environment.pool erased
    have forgotten : SameAccounts (withoutEnvironment c environment)
        (forgetArtifact (withoutEnvironment c environment)
          (orphanedArtifact (withoutEnvironment c environment) environment)) := by
      unfold forgetArtifact
      split
      · exact SameAccounts.of_map _ _ _ (fun _ => rfl)
      · exact .refl _
    refine (removed.lose ?_).then_same (idleOn_of_accounts forgotten node name)
      forgotten.executions
    simp only [loses, uncounts, vacates, unused, present, adds, recalls]
    rcases eq_or_ne environment.pool name with rfl | same <;> simp [*]
  | createJoinToken id tokenHash now =>
    obtain rfl := Except.ok.inj ran
    exact .of_same rfl rfl
  | joinCluster other tokenHash credentialHash now =>
    obtain ⟨token, -, rfl⟩ := joinCluster_eq_ok ran
    exact .of_same rfl rfl
  | localJoin other credentialHash =>
    obtain rfl := Except.ok.inj ran
    exact .of_same rfl rfl
  | updateNode id concurrency =>
    obtain ⟨other, present, rfl⟩ := updateNode_eq_ok ran
    have own := Keyed.key_of_get present
    exact .of_accounts (.of_insert c { other with vmStartConcurrency := some concurrency } other
      (by rw [own, present]) rfl)
  | deleteNode id =>
    obtain ⟨-, rfl⟩ := deleteNode_eq_ok ran
    have erased : Shift node name served c { c with
        nodes := c.nodes.erase id, nodeCredentials := c.nodeCredentials.erase id } 0 0
        (if id = node then c.idleOn node name else 0) := by
      have still := unserved_congr (c := c) (d := { c with
        nodes := c.nodes.erase id, nodeCredentials := c.nodeCredentials.erase id })
        node name served rfl
      have idle : idleOn { c with
          nodes := c.nodes.erase id, nodeCredentials := c.nodeCredentials.erase id } node name =
            if id = node then 0 else c.idleOn node name := by
        simp only [idleOn, Keyed.get_erase, eq_comm (a := node)]
        split_ifs <;> rfl
      split_ifs at idle ⊢ <;> constructor <;> omega
    refine Shift.then_scheduled (erased.lose ?_) rfl rfl waits
    by_cases same : id = node <;> simp [loses, uncounts, vacates, adds, recalls, same]
  | registerNode id request now =>
    obtain rfl := Except.ok.inj ran
    refine (shift_registerNode id request now waits).lose ?_
    simp only [loses, uncounts, vacates, adds, recalls]
    by_cases same : id = node <;> simp [same]
  | imageReady id image =>
    obtain rfl := imageReady_eq_ok ran
    have held := SameAccounts.of_adjust c id
      (fun node => { node with images := insert image node.images })
      (fun _ => rfl) (fun _ => rfl)
    exact (Shift.of_accounts (held.trans (.refreshNode _ id))).then_scheduled rfl rfl waits
  | environmentReady id artifact =>
    obtain rfl := environmentReady_eq_ok ran
    have held := SameAccounts.of_adjust c id
      (fun node => { node with environments := insert artifact node.environments })
      (fun _ => rfl) (fun _ => rfl)
    exact (Shift.of_accounts held).then_scheduled rfl rfl waits
  | addWarmInstance id pool =>
    obtain rfl := Except.ok.inj ran
    exact shift_addWarmInstance id pool waits
  | removeIdleInstance id pool =>
    obtain rfl := Except.ok.inj ran
    exact shift_removeIdleInstance id pool waits
  | createExecution id request secrets now =>
    rcases createExecution_eq_ok ran with rfl | ⟨_, _, _, _, _, rfl⟩ <;> exact .of_same rfl rfl
  | nextWork id choice now =>
    have marked (execution : Execution) : Shift node name served c (c.start execution.id now) 0 0
        (loses node name c (nextWork id choice now)) := by
      refine ⟨Nat.le_refl _, Nat.le_add_right_of_le (Nat.add_le_add_left ?_ _)⟩
      refine unserved_le (fun id other present on _ => ?_)
      simp only [Cluster.start, Keyed.get_adjust]
      split_ifs
      · refine ⟨_, congrArg _ present, ?_⟩
        simp only [Execution.isOn, Execution.occupiesOn, Bool.and_eq_true] at on ⊢
        exact ⟨⟨on.1.1, rfl⟩, on.2⟩
      · exact ⟨other, present, on⟩
    rcases nextWork_eq_ok ran with rfl | ⟨execution, rfl, present, ⟨-, rfl⟩ | ⟨pool, -, rfl⟩⟩
    · exact .of_same rfl rfl
    · exact marked execution
    · exact marked execution
  | completeExecution other id request now =>
    refine shift_completeExecution ran running waits (fun same => ?_)
    subst same
    exact ends id request now rfl

/-- A new execution that is not placed at once changes nothing. -/
theorem shift_admitExecution {execution : Execution} (queue : Bool)
    (absent : c.executions.get execution.id = none) (queued : execution.status = .queued)
    (waits : execution.id ∉ served) :
    Shift node name served c (admitExecution execution queue c).cluster 0 0 0 := by
  have added := Keyed.total_insert_absent absent (fun execution =>
    if execution.isOn node name && !served.contains execution.id then 1 else 0)
  have off : execution.isOn node name = false := by
    simp [Execution.isOn, Execution.occupiesOn, queued, ExecutionStatus.onNode]
  simp only [off, Bool.false_and, Bool.false_eq_true, if_false, Nat.zero_add] at added
  have still : ({ c with executions := c.executions.insert execution } : Cluster).unserved
      node name served = c.unserved node name served := by
    rw [unserved, unserved, Keyed.count_eq_total, Keyed.count_eq_total]
    exact added
  have stored : Shift node name served c { c with
      executions := c.executions.insert execution } 0 0 0 :=
    ⟨Nat.le_refl _, by rw [still]; exact Nat.le_refl _⟩
  unfold admitExecution
  dsimp only
  split
  · rename_i next scheduled
    obtain ⟨chosen, pool, there, own, choice, rfl⟩ := schedule_cases scheduled
    have found := choice.present
    rw [own] at found
    obtain rfl := Option.some.inj ((Keyed.get_insert_self c.executions execution).symm.trans found)
    exact stored.place queued choice waits
  · split_ifs
    · exact stored
    · rw [Keyed.erase_insert_absent absent]
      exact .refl c

end

/-! Executions that run stay where they are. -/

namespace Cluster
variable {c d : Cluster} {node id : Uuid} {name : String}

/-- The execution is running on the node, in the pool. -/
def RunsIn (c : Cluster) (node id : Uuid) (name : String) : Prop :=
  ∃ execution, c.executions.get id = some execution ∧ execution.status = .running ∧
    execution.node = some node ∧ execution.pool = name

theorem RunsIn.of_get (runs : c.RunsIn node id name)
    (same : d.executions.get id = c.executions.get id) : d.RunsIn node id name := by
  obtain ⟨execution, present, rest⟩ := runs
  exact ⟨execution, same.trans present, rest⟩

theorem RunsIn.any_isOn (runs : c.RunsIn node id name) (other : String) :
    (c.executions.get id).any (Execution.isOn node other) = decide (name = other) := by
  obtain ⟨execution, present, running, placed, rfl⟩ := runs
  simp [present, Execution.isOn, Execution.occupiesOn, running, placed, ExecutionStatus.onNode]

theorem RunsIn.place (runs : c.RunsIn node id name) {execution : Execution} (pool : Pool)
    (there : Uuid) (present : c.executions.get execution.id = some execution)
    (queued : execution.status = .queued) : (c.place execution pool there).RunsIn node id name := by
  refine runs.of_get ((place_get ..).trans (if_neg ?_))
  rintro rfl
  obtain ⟨other, found, running, -⟩ := runs
  obtain rfl := Option.some.inj (present.symm.trans found)
  rw [queued] at running
  cases running

theorem RunsIn.scheduleQueued (runs : c.RunsIn node id name) :
    c.scheduleQueued.1.RunsIn node id name :=
  scheduleQueued_invariant (P := fun d => d.RunsIn node id name) runs
    (fun runs queued choice => runs.place _ _ choice.present queued)

theorem RunsIn.moved (runs : c.RunsIn node id name) (next pool : String) :
    (moved next pool c).RunsIn node id name := by
  refine runs.of_get ((moved_get ..).trans (if_neg ?_))
  intro listed
  obtain ⟨execution, present, running, -⟩ := runs
  obtain ⟨other, found, -, waits⟩ := (mem_reassignedIds pool c id).mp listed
  obtain rfl := Option.some.inj (present.symm.trans found)
  rcases waits with status | status <;> rw [running] at status <;> cases status

theorem RunsIn.start (runs : c.RunsIn node id name) (other : Uuid) (now : Nat) :
    (c.start other now).RunsIn node id name := by
  obtain ⟨execution, present, running, placed, inside⟩ := runs
  simp only [RunsIn, Cluster.start, Keyed.get_adjust, present]
  split_ifs
  · exact ⟨_, rfl, rfl, placed, inside⟩
  · exact ⟨execution, rfl, running, placed, inside⟩

theorem RunsIn.admitExecution {execution : Execution} (runs : c.RunsIn node id name) (queue : Bool)
    (absent : c.executions.get execution.id = none) (queued : execution.status = .queued) :
    (admitExecution execution queue c).cluster.RunsIn node id name := by
  have apart : id ≠ execution.id := by
    rintro rfl
    obtain ⟨other, present, -⟩ := runs
    rw [absent] at present
    cases present
  have stored : ({ c with executions := c.executions.insert execution } : Cluster).RunsIn
      node id name := runs.of_get (Keyed.get_insert_ne _ apart)
  unfold Scraperack.admitExecution
  dsimp only
  split
  · rename_i next scheduled
    obtain ⟨chosen, pool, there, own, choice, rfl⟩ := schedule_cases scheduled
    have found := choice.present
    rw [own] at found
    obtain rfl := Option.some.inj ((Keyed.get_insert_self c.executions execution).symm.trans found)
    exact stored.place _ _ choice.present queued
  · split_ifs
    · exact stored
    · rw [Keyed.erase_insert_absent absent]
      exact runs

end Cluster

/-- Only its completion ends an execution that runs. -/
theorem Ending.runsIn [Crates] {c : Cluster} {commit : Commit} {result : Section}
    (ending : Ending c commit result) {node id : Uuid} {name : String}
    (runs : c.RunsIn node id name) :
    result.cluster.RunsIn node id name ∨
      ∃ request now, commit = .completeExecution node id request now := by
  have same {d : Cluster} (executions : d.executions = c.executions) : d.RunsIn node id name :=
    runs.of_get (by rw [executions])
  cases ending with
  | saved executions => exact .inl (same executions)
  | scheduled d executions => exact .inl (same executions).scheduleQueued
  | unchanged | createPanicked | created => exact .inl runs
  | restartPanicked next pool => exact .inl (runs.moved next pool)
  | restarted next environment pool d executions =>
    have moved : d.RunsIn node id name :=
      (runs.moved next pool).of_get (by rw [executions])
    exact .inl (Cluster.RunsIn.scheduleQueued (c := { d with
      environments := d.environments.insert environment }) moved)
  | updated environment d executions =>
    exact .inl (Cluster.RunsIn.scheduleQueued (c := { d with
      environments := d.environments.insert environment }) (same executions))
  | deletedEnvironment gone environment =>
    refine .inl (same ?_)
    have removed : (withoutEnvironment c environment).executions = c.executions :=
      Cluster.removePool_executions ..
    unfold forgetArtifact
    split <;> exact removed
  | workPanicked other now execution | worked other now execution =>
    exact .inl (runs.start execution.id now)
  | completed other request now execution present placed =>
    by_cases here : id = execution.id
    · subst here
      obtain ⟨running, found, -, at_node, -⟩ := runs
      obtain rfl := Option.some.inj (present.symm.trans found)
      obtain rfl := Option.some.inj (placed.symm.trans at_node)
      exact .inr ⟨request, now, rfl⟩
    · exact .inl (runs.of_get (cleaned_get_ne c request.keepIdle here)).scheduleQueued

end Scraperack
