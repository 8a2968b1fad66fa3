import Scraperack.Data

/-! Assigning executions to nodes and taking their instances back: the scheduler,
`release`, the warm instances of a pool and the bookkeeping of idle instances. -/

namespace Scraperack
open Counters

namespace Node

/-- What `schedule` does to the chosen node: use up an idle instance, else reserve a new one. -/
def occupy (node : Node) (pool : Pool) : Node :=
  if 0 < node.idle pool.name then node.setIdle pool.name (node.idle pool.name - 1)
  else (node.setIdle pool.name 0).reserve pool

/-- What `release` does to the node of the execution. -/
def vacate (node : Node) (pool : Pool) (keepIdle : Bool) : Node :=
  if keepIdle then node.setIdle pool.name (wrapping (node.idle pool.name + 1))
  else node.free pool.cpuMillis pool.memoryMib

def addWarm (node : Node) (pool : Pool) : Node :=
  (node.reserve pool).setIdle pool.name (wrapping (node.idle pool.name + 1))

def removeIdle (node : Node) (pool : Pool) : Node :=
  (node.setIdle pool.name (node.idle pool.name - 1)).free pool.cpuMillis pool.memoryMib

/-- The loop over the nodes that follows every removal of a pool. -/
def forgetPool (node : Node) (pool : Pool) : Node :=
  (node.dropIdle pool.name).freeMany pool (node.idle pool.name)

@[simp] theorem occupy_id (node : Node) (pool : Pool) : (node.occupy pool).id = node.id := by
  unfold occupy
  split_ifs <;> rfl

@[simp] theorem vacate_id (node : Node) (pool : Pool) (keepIdle : Bool) :
    (node.vacate pool keepIdle).id = node.id := by
  unfold vacate
  split_ifs <;> rfl

@[simp] theorem addWarm_id (node : Node) (pool : Pool) : (node.addWarm pool).id = node.id := rfl
@[simp] theorem removeIdle_id (node : Node)
    (pool : Pool) : (node.removeIdle pool).id = node.id := rfl
@[simp] theorem forgetPool_id (node : Node)
    (pool : Pool) : (node.forgetPool pool).id = node.id := rfl

/-- `reset_idle_instances` for one entry of the node's idle instances. -/
def freeEntry (pools : Keyed Pool.name) (node : Node) (entry : String × Nat) : Node :=
  match pools.get entry.1 with
  | some pool => node.freeMany pool entry.2
  | none => node

def resetIdle (node : Node) (pools : Keyed Pool.name) : Node :=
  node.idleInstances.values.foldl (freeEntry pools) { node with idleInstances := ∅ }

theorem freeEntry_id (pools : Keyed Pool.name) (node : Node) (entry : String × Nat) :
    (node.freeEntry pools entry).id = node.id := by
  unfold freeEntry
  cases pools.get entry.1 <;> rfl

private theorem foldl_freeEntry_id (pools : Keyed Pool.name) (entries : List (String × Nat))
    (node : Node) :
    (entries.foldl (freeEntry pools) node).id = node.id := by
  induction entries generalizing node with
  | nil => rfl
  | cons entry rest ih => rw [List.foldl_cons, ih, freeEntry_id]

@[simp] theorem resetIdle_id (node : Node)
    (pools : Keyed Pool.name) : (node.resetIdle pools).id = node.id :=
  foldl_freeEntry_id pools _ _

theorem idle_occupy (node : Node) (pool : Pool) (name : String) :
    (node.occupy pool).idle name = if name = pool.name then node.idle name -
      1 else node.idle name := by
  unfold occupy
  split_ifs with some_idle same same
  · rw [idle_setIdle, if_pos same, same]
  · rw [idle_setIdle, if_neg same]
  · rw [idle_reserve, idle_setIdle, if_pos same, same]
    omega
  · rw [idle_reserve, idle_setIdle, if_neg same]

theorem idle_vacate (node : Node) (pool : Pool) (keepIdle : Bool) (name : String) :
    (node.vacate pool keepIdle).idle name =
      if keepIdle = true ∧ name = pool.name then wrapping
        (node.idle name + 1) else node.idle name := by
  unfold vacate
  cases keepIdle with
  | false => simp
  | true =>
    simp only [↓reduceIte, idle_setIdle, true_and]
    split_ifs with same
    · rw [same]
    · rfl

theorem idle_addWarm (node : Node) (pool : Pool) (name : String) :
    (node.addWarm pool).idle name = if name =
      pool.name then wrapping (node.idle name + 1) else node.idle name := by
  unfold addWarm
  rw [idle_setIdle, idle_reserve]
  split_ifs with same
  · rw [same]
  · rfl

theorem idle_removeIdle (node : Node) (pool : Pool) (name : String) :
    (node.removeIdle pool).idle name = if name = pool.name then node.idle name -
      1 else node.idle name := by
  unfold removeIdle
  rw [idle_free, idle_setIdle]
  split_ifs with same
  · rw [same]
  · rfl

theorem idle_forgetPool (node : Node) (pool : Pool) (name : String) :
    (node.forgetPool pool).idle name = if name = pool.name then 0 else node.idle name := by
  unfold forgetPool
  rw [idle_freeMany, idle_dropIdle]

theorem idle_freeEntry (pools : Keyed Pool.name) (node : Node) (entry : String × Nat)
    (name : String) :
    (node.freeEntry pools entry).idle name = node.idle name := by
  unfold freeEntry
  cases pools.get entry.1 <;> rfl

@[simp] theorem idle_resetIdle (node : Node) (pools : Keyed Pool.name) (name : String) :
    (node.resetIdle pools).idle name = 0 := by
  have kept (entries : List (String × Nat)) (node : Node) :
      (entries.foldl (freeEntry pools) node).idle name = node.idle name := by
    induction entries generalizing node with
    | nil => rfl
    | cons entry rest ih => rw [List.foldl_cons, ih, idle_freeEntry]
  exact kept _ _

end Node

namespace Cluster

/-- `image_ready`: every node holds the image. -/
def imageReady (c : Cluster) (image : Uuid) : Bool := c.nodes.all (fun node => image ∈ node.images)

/-- `environment_ready`: every node holds the environment's artifact. -/
def environmentReady (c : Cluster) (environment : Environment) : Bool :=
  environment.artifact.all (fun artifact => c.nodes.all (fun node => artifact ∈ node.environments))

def refreshNode (c : Cluster) (id : Uuid) : Cluster :=
  { c with
    nodes := c.nodes.adjust id (fun node =>
      { node with status := if c.images.all (fun image =>
        image.id ∈ node.images) then .ready else .syncing }) (fun _ => rfl) }

/-- Executions of the pool that are assigned or running, wherever they are. -/
def activeCount (c : Cluster) (pool : String) : Nat :=
  c.executions.count (fun execution => execution.occupies pool)

/-- Idle instances of the pool on all nodes. -/
def idleCount (c : Cluster) (pool : String) : Nat := c.nodes.total (fun node => node.idle pool)

def holdsArtifact (pool : Pool) (node : Node) : Bool :=
  pool.environmentArtifact.all (fun artifact => artifact ∈ node.environments)

/-- The filter of `schedule` over the nodes. -/
def eligible (pool : Pool) (canStart : Bool) (node : Node) : Bool :=
  node.status = .ready && decide (pool.image ∈ node.images) && holdsArtifact pool node &&
    (decide (0 < node.idle pool.name) ||
      (canStart && decide (pool.cpuMillis ≤ node.cpuMillis) &&
        decide (pool.memoryMib ≤ node.memoryMib)))

def candidateLe (a b : Bool × Uuid) : Prop := a.1 < b.1 ∨ a.1 = b.1 ∧ a.2.toNat ≤ b.2.toNat

instance : DecidableRel candidateLe := fun _ _ => inferInstanceAs (Decidable (_ ∨ _))

/-- Eligible nodes in order, those with an idle instance first. -/
def candidates (c : Cluster) (pool : Pool) (canStart : Bool) : List (Bool × Uuid) :=
  ((c.nodes.values.filter (eligible pool canStart)).map
    (fun node => (decide (node.idle pool.name = 0), node.id))).insertionSort candidateLe

/-- The order of the queue: by creation time, then by identifier. -/
def Older (a b : Execution) : Prop :=
  a.createdAtMs < b.createdAtMs ∨ a.createdAtMs = b.createdAtMs ∧ a.id.toNat < b.id.toNat

instance : DecidableRel Older := fun _ _ => inferInstanceAs (Decidable (_ ∨ _))

/-- An older execution of the same pool is queued. -/
def overtakes (c : Cluster) (execution : Execution) : Bool :=
  c.executions.any (fun other => other.status = .queued && other.pool = execution.pool &&
    decide (Older other execution))

/-- The effect of `schedule` once the node is chosen. -/
def place (c : Cluster) (execution : Execution) (pool : Pool) (node : Uuid) : Cluster :=
  { c with
    roundRobin := (c.roundRobin + 1) % 2 ^ 64
    nodes := c.nodes.adjust node (fun node => node.occupy pool) (fun node => node.occupy_id pool)
    executions := c.executions.adjust execution.id (fun execution =>
      { execution with node := some node, status := .assigned }) (fun _ => rfl)
    decisions :=
      ⟨execution.id, (c.nodes.get node).any (fun node => decide (0 < node.idle pool.name)),
        c.overtakes execution⟩ :: c.decisions }

/-- The pool has as many executions as its limit allows. -/
def full (c : Cluster) (pool : Pool) : Bool :=
  pool.maxInstances.any (fun limit => decide (limit ≤ c.activeCount pool.name))

/-- The limit leaves room for an instance that is not idle yet. -/
def canStart (c : Cluster) (pool : Pool) : Bool :=
  pool.maxInstances.all (fun limit =>
    decide (c.activeCount pool.name + c.idleCount pool.name < limit))

/-- `schedule`: `none` is the result `false`, on which nothing has changed. -/
def schedule (c : Cluster) (executionId : Uuid) : Option Cluster :=
  match c.executions.get executionId with
  | none => none
  | some execution =>
    match c.pools.get execution.pool with
    | none => none
    | some pool =>
      if c.full pool then none
      else
        match c.candidates pool (c.canStart pool) with
        | [] => none
        | first :: rest =>
          let preferred := (first :: rest).takeWhile (fun candidate => candidate.1 = first.1)
          (preferred[c.roundRobin % preferred.length]?).map
            (fun chosen => c.place execution pool chosen.2)

def queueLe (a b : Nat × Uuid) : Prop := a.1 < b.1 ∨ a.1 = b.1 ∧ a.2.toNat ≤ b.2.toNat

instance : DecidableRel queueLe := fun _ _ => inferInstanceAs (Decidable (_ ∨ _))

/-- The queued executions in the order in which `schedule_queued` tries them. -/
def queue (c : Cluster) : List (Nat × Uuid) :=
  ((c.executions.values.filter (fun execution => execution.status = .queued)).map
    (fun execution => (execution.createdAtMs, execution.id))).insertionSort queueLe

/-- The loop of `schedule_queued`, with the copies it collects. -/
def scheduleAll (c : Cluster) : List (Nat × Uuid) → Cluster × List Execution
  | [] => (c, [])
  | entry :: rest =>
    match c.schedule entry.2 with
    | none => c.scheduleAll rest
    | some next => ((next.scheduleAll rest).1,
        (next.executions.get entry.2).toList ++ (next.scheduleAll rest).2)

def scheduleQueued (c : Cluster) : Cluster × List Execution := c.scheduleAll c.queue

/-! What the scheduler does, said once. -/

/-- The scheduler finds a place in the pool: there is room and a node that can take an instance. -/
def Accepts (c : Cluster) (poolName : String) : Prop :=
  ∃ pool, c.pools.get poolName = some pool ∧ c.full pool = false ∧
    ∃ id node, c.nodes.get id = some node ∧ eligible pool (c.canStart pool) node = true

/-- A chosen node: one that `schedule` may give the execution to. -/
structure Choice (c : Cluster) (execution : Execution) (pool : Pool) (node : Node) : Prop where
  present : c.executions.get execution.id = some execution
  known : c.pools.get execution.pool = some pool
  room : c.full pool = false
  there : c.nodes.get node.id = some node
  eligible : Cluster.eligible pool (c.canStart pool) node = true

theorem mem_candidates (c : Cluster) (pool : Pool) (start : Bool) (candidate : Bool × Uuid) :
    candidate ∈ c.candidates pool start ↔
      ∃ node, c.nodes.get node.id = some node ∧ Cluster.eligible pool start node = true ∧
        candidate = (decide (node.idle pool.name = 0), node.id) := by
  simp only [candidates, List.mem_insertionSort, List.mem_map, List.mem_filter,
    Keyed.mem_values_iff]
  constructor
  · rintro ⟨node, ⟨present, eligible⟩, rfl⟩
    exact ⟨node, present, eligible, rfl⟩
  · rintro ⟨node, present, eligible, rfl⟩
    exact ⟨node, ⟨present, eligible⟩, rfl⟩

/-- The round-robin index always meets one of the preferred candidates. -/
private theorem chosen_exists (first : Bool × Uuid) (rest : List (Bool × Uuid)) (counter : Nat) :
    ∃ chosen, ((first :: rest).takeWhile (fun candidate => decide (candidate.1 = first.1)))[
      counter % ((first :: rest).takeWhile (fun candidate =>
        decide (candidate.1 = first.1))).length]? = some chosen := by
  have nonempty : 0 < ((first :: rest).takeWhile (fun candidate =>
    decide (candidate.1 = first.1))).length := by
    simp
  exact ⟨_, List.getElem?_eq_getElem (Nat.mod_lt counter nonempty)⟩

instance : IsTrans (Bool × Uuid) candidateLe where
  trans a b c first second := by
    unfold candidateLe at *
    rcases first with less | ⟨same, less⟩
    · rcases second with more | ⟨equal, -⟩
      · exact .inl (lt_trans less more)
      · exact .inl (equal ▸ less)
    · rcases second with more | ⟨equal, more⟩
      · exact .inl (same ▸ more)
      · exact .inr ⟨same.trans equal, less.trans more⟩

instance : Std.Total candidateLe where
  total a b := by
    unfold candidateLe
    rcases lt_trichotomy a.1 b.1 with less | same | more
    · exact .inl (.inl less)
    · rcases Nat.le_total a.2.toNat b.2.toNat with less | more
      · exact .inl (.inr ⟨same, less⟩)
      · exact .inr (.inr ⟨same.symm, more⟩)
    · exact .inr (.inl more)

/-- The first candidate has an idle instance when any candidate has one. -/
theorem candidates_first {c : Cluster} {pool : Pool} {start : Bool} {first : Bool × Uuid}
    {rest : List (Bool × Uuid)} (listed : c.candidates pool start = first :: rest)
    {candidate : Bool × Uuid} (member : candidate ∈ c.candidates pool start)
    (idle : candidate.1 = false) : first.1 = false := by
  have sorted : (c.candidates pool start).Pairwise candidateLe := List.pairwise_insertionSort _ _
  rw [listed] at sorted member
  rcases List.mem_cons.mp member with rfl | later
  · exact idle
  · rcases List.rel_of_pairwise_cons sorted later with less | ⟨same, -⟩
    · rw [idle] at less
      exact absurd less (by cases first.1 <;> decide)
    · rw [same, idle]

/-- The chosen node has an idle instance when any node that may be chosen has one. -/
theorem schedule_chosen {c next : Cluster} {id : Uuid} (scheduled : c.schedule id = some next) :
    ∃ execution pool node, execution.id = id ∧ Choice c execution pool node ∧
      (∀ other, c.nodes.get other.id = some other →
        eligible pool (c.canStart pool) other = true → 0 < other.idle pool.name →
        0 < node.idle pool.name) ∧
      next = c.place execution pool node.id := by
  unfold schedule at scheduled
  cases present : c.executions.get id with
  | none => simp [present] at scheduled
  | some execution =>
    have own := Keyed.key_of_get present
    simp only [present] at scheduled
    cases known : c.pools.get execution.pool with
    | none => simp [known] at scheduled
    | some pool =>
      simp only [known] at scheduled
      split_ifs at scheduled with room
      cases listed : c.candidates pool (c.canStart pool) with
      | nil => simp [listed] at scheduled
      | cons first rest =>
        simp only [listed, Option.map_eq_some_iff] at scheduled
        obtain ⟨chosen, at_index, rfl⟩ := scheduled
        have preferred := List.mem_of_getElem? at_index
        have member : chosen ∈ c.candidates pool (c.canStart pool) := by
          rw [listed]
          exact (List.takeWhile_sublist _).subset preferred
        have alike : chosen.1 = first.1 := by
          simpa using List.all_eq_true.mp List.all_takeWhile chosen preferred
        obtain ⟨node, there, eligible, rfl⟩ := (c.mem_candidates pool _ chosen).mp member
        refine ⟨execution, pool, node, own, ⟨own.symm ▸ present, known, by simpa using room, there,
          eligible⟩, fun other found accepted idle => ?_, rfl⟩
        have offered := (c.mem_candidates pool (c.canStart pool) _).mpr
          ⟨other, found, accepted, rfl⟩
        have idle_first := candidates_first listed offered (by simpa using idle.ne')
        rw [idle_first] at alike
        exact Nat.pos_of_ne_zero (by simpa using alike)

theorem schedule_cases {c next : Cluster} {id : Uuid} (scheduled : c.schedule id = some next) :
    ∃ execution pool node, execution.id = id ∧ Choice c execution pool node ∧
      next = c.place execution pool node.id := by
  obtain ⟨execution, pool, node, own, choice, -, placed⟩ := schedule_chosen scheduled
  exact ⟨execution, pool, node, own, choice, placed⟩

/-- Whether `schedule` succeeds depends on the execution's pool alone. -/
theorem schedule_eq_none_iff (c : Cluster) (id : Uuid) :
    c.schedule id = none ↔ ∀ execution, c.executions.get id = some execution →
      ¬ c.Accepts execution.pool := by
  constructor
  · rintro refused execution present ⟨pool, known, room, nodeId, node, there, eligible⟩
    have own := Keyed.get_congr there
    have member := (c.mem_candidates pool (c.canStart pool) _).mpr ⟨node, own, eligible, rfl⟩
    unfold schedule at refused
    simp only [present, known, room] at refused
    cases listed : c.candidates pool (c.canStart pool) with
    | nil => simp [listed] at member
    | cons first rest =>
      obtain ⟨chosen, at_index⟩ := chosen_exists first rest c.roundRobin
      simp only [listed, Bool.false_eq_true, ↓reduceIte, at_index, Option.map_some,
        reduceCtorEq] at refused
  · intro refuses
    cases scheduled : c.schedule id with
    | none => rfl
    | some next =>
      obtain ⟨execution, pool, node, rfl, choice, rfl⟩ := schedule_cases scheduled
      exact absurd ⟨pool, choice.known, choice.room, node.id, node, choice.there, choice.eligible⟩
        (refuses execution choice.present)

/-- Every entry of the list is a queued execution, and no execution is listed twice. -/
structure Waiting (c : Cluster) (entries : List (Nat × Uuid)) : Prop where
  queued : ∀ entry ∈ entries, ∃ execution, c.executions.get entry.2 = some execution ∧
    execution.status = .queued ∧ execution.createdAtMs = entry.1
  once : (entries.map Prod.snd).Nodup

theorem mem_queue (c : Cluster) (entry : Nat × Uuid) :
    entry ∈ c.queue ↔ ∃ execution, c.executions.get entry.2 = some execution ∧
      execution.status = .queued ∧ execution.createdAtMs = entry.1 := by
  simp only [queue, List.mem_insertionSort, List.mem_map, List.mem_filter, Keyed.mem_values_iff,
    decide_eq_true_eq]
  constructor
  · rintro ⟨execution, ⟨present, queued⟩, rfl⟩
    exact ⟨execution, present, queued, rfl⟩
  · rintro ⟨execution, present, queued, created⟩
    have own := Keyed.key_of_get present
    exact ⟨execution, ⟨Keyed.get_congr present, queued⟩, by rw [created, own]⟩

theorem waiting_queue (c : Cluster) : c.Waiting c.queue := by
  refine ⟨fun entry member => (c.mem_queue entry).mp member, ?_⟩
  have order := (List.perm_insertionSort queueLe
    ((c.executions.values.filter (fun execution => execution.status = .queued)).map
      (fun execution => (execution.createdAtMs, execution.id)))).map Prod.snd
  refine order.nodup_iff.mpr ?_
  rw [List.map_map]
  exact c.executions.nodup_filter (fun execution => execution.status = .queued)

theorem Waiting.tail {c : Cluster} {entry : Nat × Uuid} {rest : List (Nat × Uuid)}
    (waiting : c.Waiting (entry :: rest)) : c.Waiting rest :=
  ⟨fun other member => waiting.queued other (List.mem_cons_of_mem _ member),
    (List.nodup_cons.mp waiting.once).2⟩

theorem place_get (c : Cluster) (execution : Execution) (pool : Pool) (node id : Uuid) :
    (c.place execution pool node).executions.get id =
      if id = execution.id then
        (c.executions.get id).map (fun execution =>
          { execution with node := some node, status := .assigned })
      else c.executions.get id := by
  simp only [place, Keyed.get_adjust]

/-- The executions still waiting go on waiting when one in front of them is placed. -/
theorem Waiting.place {c : Cluster} {entry : Nat × Uuid} {rest : List (Nat × Uuid)}
    (waiting : c.Waiting (entry :: rest)) {execution : Execution}
    (own : execution.id = entry.2) (pool : Pool)
    (node : Uuid) : (c.place execution pool node).Waiting rest := by
  obtain ⟨absent, _⟩ := List.nodup_cons.mp waiting.once
  refine ⟨fun other member => ?_, waiting.tail.once⟩
  have differ : other.2 ≠ execution.id := by
    intro same
    exact absent (own ▸ same ▸ List.mem_map_of_mem member)
  rw [place_get, if_neg differ]
  exact waiting.tail.queued other member

/-- What holds at the start and survives each placement of a queued execution holds after
`schedule_queued` has tried a list of waiting executions. -/
theorem scheduleAll_invariant {P : Cluster → Prop} {c : Cluster} {entries : List (Nat × Uuid)}
    (waiting : c.Waiting entries) (start : P c)
    (kept : ∀ {c : Cluster} {execution : Execution} {pool : Pool} {node : Node},
      P c → execution.status = .queued → Choice c execution pool node →
        P (c.place execution pool node.id)) :
    P (c.scheduleAll entries).1 := by
  induction entries generalizing c with
  | nil => exact start
  | cons entry rest ih =>
    unfold scheduleAll
    cases scheduled : c.schedule entry.2 with
    | none => exact ih waiting.tail start
    | some next =>
      obtain ⟨execution, pool, node, own, choice, rfl⟩ := schedule_cases scheduled
      obtain ⟨listed, present, queued, _⟩ := waiting.queued entry List.mem_cons_self
      have same : execution = listed := by
        have found := choice.present
        rw [own, present] at found
        exact (Option.some.inj found).symm
      exact ih (waiting.place own pool node.id) (kept start (same ▸ queued) choice)

theorem scheduleQueued_invariant {P : Cluster → Prop} {c : Cluster} (start : P c)
    (kept : ∀ {c : Cluster} {execution : Execution} {pool : Pool} {node : Node},
      P c → execution.status = .queued → Choice c execution pool node →
        P (c.place execution pool node.id)) :
    P c.scheduleQueued.1 :=
  scheduleAll_invariant c.waiting_queue start kept

/-! An execution that is no longer active means nothing to the scheduler. -/

/-- `executions.remove(&id)`. -/
def forget (c : Cluster) (id : Uuid) : Cluster := { c with executions := c.executions.erase id }

/-- The cluster holds the execution, and it is finished. -/
def Done (c : Cluster) (id : Uuid) : Prop :=
  ∃ execution, c.executions.get id = some execution ∧ execution.status.terminal = true

theorem count_forget {c : Cluster} {id : Uuid} (p : Execution → Bool)
    (skipped : ∀ execution, c.executions.get id = some execution → p execution = false) :
    (c.forget id).executions.count p = c.executions.count p := by
  rw [Keyed.count_eq_total, Keyed.count_eq_total]
  cases present : c.executions.get id with
  | none => rw [forget, Keyed.erase_absent present]
  | some execution => simp [Keyed.total_erase present, skipped execution present, forget]

theorem any_forget {c : Cluster} {id : Uuid} (p : Execution → Bool)
    (skipped : ∀ execution, c.executions.get id = some execution → p execution = false) :
    (c.forget id).executions.any p = c.executions.any p := by
  rw [Bool.eq_iff_iff, Keyed.any_iff, Keyed.any_iff]
  constructor
  · rintro ⟨k, execution, present, holds⟩
    simp only [forget, Keyed.get_erase] at present
    split_ifs at present
    exact ⟨k, execution, present, holds⟩
  · rintro ⟨k, execution, present, holds⟩
    have differ : k ≠ id := by
      rintro rfl
      simp [skipped execution present] at holds
    exact ⟨k, execution, by rw [forget, Keyed.get_erase_ne _ differ, present], holds⟩

theorem Done.skips {c : Cluster} {id : Uuid} (done : c.Done id) {p : Execution → Bool}
    (active : ∀ execution, p execution = true → execution.status.terminal = false) :
    ∀ execution, c.executions.get id = some execution → p execution = false := by
  obtain ⟨execution, present, ended⟩ := done
  intro other found
  cases (Option.some.inj (present.symm.trans found))
  by_contra holds
  simp only [Bool.not_eq_false] at holds
  simp [active execution holds] at ended

theorem activeCount_forget {c : Cluster} {id : Uuid} (done : c.Done id) (pool : String) :
    (c.forget id).activeCount pool = c.activeCount pool := by
  apply count_forget
  apply done.skips
  intro execution holds
  simp only [Execution.occupies, Bool.and_eq_true] at holds
  cases status : execution.status <;> simp [status, ExecutionStatus.onNode] at holds <;> rfl

theorem overtakes_forget {c : Cluster} {id : Uuid} (done : c.Done id) (execution : Execution) :
    (c.forget id).overtakes execution = c.overtakes execution := by
  apply any_forget
  apply done.skips
  intro other holds
  simp only [Bool.and_eq_true, decide_eq_true_eq] at holds
  rw [holds.1.1]
  rfl

theorem queue_forget {c : Cluster} {id : Uuid}
    (done : c.Done id) : (c.forget id).queue = c.queue := by
  have same : (c.executions.values.filter (fun execution => execution.id ≠ id)).filter
      (fun execution => execution.status = .queued) =
      c.executions.values.filter (fun execution => execution.status = .queued) := by
    rw [List.filter_filter]
    apply List.filter_congr
    intro execution member
    obtain ⟨finished, present, ended⟩ := done
    by_cases own : execution.id = id
    · have found := (c.executions.mem_values_iff execution).mp member
      rw [own, present] at found
      cases found
      have waiting : execution.status ≠ .queued := by
        intro queued
        rw [queued] at ended
        cases ended
      simp [waiting]
    · simp [own]
  simp only [queue, forget, Keyed.erase, Keyed.filter, same]

theorem place_forget {c : Cluster} {id : Uuid} (done : c.Done id) (execution : Execution)
    (pool : Pool) (node : Uuid) :
    (c.forget id).place execution pool node = (c.place execution pool node).forget id := by
  simp only [place, overtakes_forget done]
  simp only [forget, Keyed.erase_adjust]

theorem schedule_forget {c : Cluster} {id other : Uuid} (done : c.Done id) (differ : other ≠ id) :
    (c.forget id).schedule other = (c.schedule other).map (fun next => next.forget id) := by
  have lookup : (c.forget id).executions.get other = c.executions.get other :=
    Keyed.get_erase_ne _ differ
  have full (pool : Pool) : (c.forget id).full pool = c.full pool := by
    simp only [Cluster.full, activeCount_forget done]
  have start (pool : Pool) : (c.forget id).canStart pool = c.canStart pool := by
    have idle : (c.forget id).idleCount pool.name = c.idleCount pool.name := rfl
    simp only [Cluster.canStart, activeCount_forget done, idle]
  have pools : (c.forget id).pools = c.pools := rfl
  have listed (pool : Pool) (start : Bool) : (c.forget id).candidates pool start =
    c.candidates pool start := rfl
  unfold schedule
  cases present : c.executions.get other with
  | none => simp [lookup, present]
  | some execution =>
    cases known : c.pools.get execution.pool with
    | none => simp [lookup, present, pools, known]
    | some pool =>
      simp only [lookup, present, pools, known, full, start, listed, place_forget done]
      split_ifs
      · rfl
      · cases c.candidates pool (c.canStart pool) with
        | nil => rfl
        | cons first rest =>
          simp only [Option.map_map]
          rfl

theorem Done.place {c : Cluster} {id : Uuid} (done : c.Done id) {execution : Execution}
    (differ : id ≠ execution.id)
    (pool : Pool) (node : Uuid) : (c.place execution pool node).Done id := by
  obtain ⟨finished, present, ended⟩ := done
  exact ⟨finished, by rw [place_get, if_neg differ, present], ended⟩

theorem scheduleAll_forget {c : Cluster} {id : Uuid} {entries : List (Nat × Uuid)}
    (done : c.Done id)
    (waiting : c.Waiting entries) :
    (c.forget id).scheduleAll entries =
      ((c.scheduleAll entries).1.forget id, (c.scheduleAll entries).2) := by
  induction entries generalizing c with
  | nil => rfl
  | cons entry rest ih =>
    obtain ⟨listed, present, queued, _⟩ := waiting.queued entry List.mem_cons_self
    have differ : entry.2 ≠ id := by
      rintro rfl
      obtain ⟨finished, found, ended⟩ := done
      rw [present] at found
      cases found
      rw [queued] at ended
      cases ended
    unfold scheduleAll
    rw [schedule_forget done differ]
    cases scheduled : c.schedule entry.2 with
    | none => exact ih done waiting.tail
    | some next =>
      obtain ⟨execution, pool, node, own, choice, rfl⟩ := schedule_cases scheduled
      have later := ih (done.place (own ▸ differ.symm) pool node.id)
        (waiting.place own pool node.id)
      have copy : ((c.place execution pool node.id).forget id).executions.get entry.2 =
          (c.place execution pool node.id).executions.get entry.2 := Keyed.get_erase_ne _ differ
      simp only [Option.map_some, later, copy]

/-- The scheduler and the removal of a finished execution may change places. -/
theorem scheduleQueued_forget {c : Cluster} {id : Uuid} (done : c.Done id) :
    (c.forget id).scheduleQueued = (c.scheduleQueued.1.forget id, c.scheduleQueued.2) := by
  unfold scheduleQueued
  rw [queue_forget done, scheduleAll_forget done c.waiting_queue]

def release (c : Cluster) (executionId : Uuid) (keepIdle : Bool) : Cluster :=
  match c.executions.get executionId with
  | none => c
  | some execution =>
    match execution.node with
    | none => c
    | some node =>
      match c.pools.get execution.pool with
      | none => c
      | some pool =>
        { c with
          nodes := c.nodes.adjust node (fun node => node.vacate pool keepIdle)
            (fun node => node.vacate_id pool keepIdle) }

/-- Take the pool out of the cluster and free its idle instances on every node: the lines
that `delete_pool`, `restart_environment_pool`, `delete_environment` and
`complete_execution` have in common. -/
def removePool (c : Cluster) (name : String) : Cluster :=
  match c.pools.get name with
  | none => c
  | some pool =>
    { c with
      pools := c.pools.erase name
      nodes := c.nodes.map (fun node => node.forgetPool pool)
        (fun node => node.forgetPool_id pool) }

theorem release_of_get {c : Cluster} {id node : Uuid} {execution : Execution} {pool : Pool}
    (keepIdle : Bool)
    (present : c.executions.get id = some execution) (placed : execution.node = some node)
    (known : c.pools.get execution.pool = some pool) :
    c.release id keepIdle =
      { c with
        nodes := c.nodes.adjust node (fun node => node.vacate pool keepIdle)
          (fun node => node.vacate_id pool keepIdle) } := by
  simp only [release, present, placed, known]

/-- Without its pool an execution gives nothing back. -/
theorem release_of_get_none {c : Cluster} {id : Uuid} {execution : Execution} (keepIdle : Bool)
    (present : c.executions.get id = some execution) (unknown : c.pools.get execution.pool = none) :
    c.release id keepIdle = c := by
  simp only [release, present, unknown]
  cases execution.node <;> rfl

/-- `release` changes the nodes at most. -/
theorem release_frame (c : Cluster) (id : Uuid) (keepIdle : Bool) :
    c.release id keepIdle = { c with nodes := (c.release id keepIdle).nodes } := by
  cases present : c.executions.get id with
  | none => simp [release, present]
  | some execution =>
    cases placed : execution.node with
    | none => simp [release, present, placed]
    | some node =>
      cases known : c.pools.get execution.pool with
      | none => rw [release_of_get_none keepIdle present known]
      | some pool => rw [release_of_get keepIdle present placed known]

@[simp] theorem release_pools (c : Cluster) (id : Uuid) (keepIdle : Bool) :
    (c.release id keepIdle).pools = c.pools := by
  rw [release_frame]

@[simp] theorem release_environments (c : Cluster) (id : Uuid) (keepIdle : Bool) :
    (c.release id keepIdle).environments = c.environments := by
  rw [release_frame]

@[simp] theorem release_executions (c : Cluster) (id : Uuid) (keepIdle : Bool) :
    (c.release id keepIdle).executions = c.executions := by
  rw [release_frame]

@[simp] theorem release_decisions (c : Cluster) (id : Uuid) (keepIdle : Bool) :
    (c.release id keepIdle).decisions = c.decisions := by
  rw [release_frame]

/-- What `release` gives back depends on the pool and the node of the execution alone. -/
theorem release_adjust (c : Cluster) (id : Uuid) (keepIdle : Bool) (f : Execution → Execution)
    (keeps : ∀ execution, (f execution).id = execution.id)
    (pool : ∀ execution, (f execution).pool = execution.pool)
    (node : ∀ execution, (f execution).node = execution.node) :
    ({ c with executions := c.executions.adjust id f keeps } : Cluster).release id keepIdle =
      { c.release id keepIdle with executions := c.executions.adjust id f keeps } := by
  cases present : c.executions.get id with
  | none => simp [release, present]
  | some execution =>
    cases placed : execution.node with
    | none => simp [release, present, node, placed]
    | some there => cases known : c.pools.get execution.pool <;>
        simp [release, present, node, placed, pool, known]

theorem removePool_of_get {c : Cluster} {name : String} {pool : Pool}
    (known : c.pools.get name = some pool) :
    c.removePool name =
      { c with
        pools := c.pools.erase name
        nodes := c.nodes.map (fun node => node.forgetPool pool)
          (fun node => node.forgetPool_id pool) } := by
  simp only [removePool, known]

theorem removePool_of_get_none {c : Cluster} {name : String} (unknown : c.pools.get name = none) :
    c.removePool name = c := by
  simp only [removePool, unknown]

@[simp] theorem removePool_pools (c : Cluster)
    (name : String) : (c.removePool name).pools = c.pools.erase name := by
  cases known : c.pools.get name with
  | none => rw [removePool_of_get_none known, Keyed.erase_absent known]
  | some pool => rw [removePool_of_get known]

theorem removePool_frame (c : Cluster) (name : String) :
    c.removePool name = { c with pools := c.pools.erase name, nodes :=
      (c.removePool name).nodes } := by
  cases known : c.pools.get name with
  | none => rw [removePool_of_get_none known, Keyed.erase_absent known]
  | some pool => rw [removePool_of_get known]

@[simp] theorem removePool_environments (c : Cluster) (name : String) :
    (c.removePool name).environments = c.environments := by
  rw [removePool_frame]

@[simp] theorem removePool_executions (c : Cluster) (name : String) :
    (c.removePool name).executions = c.executions := by
  rw [removePool_frame]

@[simp] theorem removePool_decisions (c : Cluster) (name : String) :
    (c.removePool name).decisions = c.decisions := by
  rw [removePool_frame]

/-- `warm_targets`: how many warm instances each node should have. -/
def warmTargets (c : Cluster) (pool : Pool) : List (Uuid × Nat) :=
  let active := wrapping (c.activeCount pool.name)
  let target :=
    if pool.reuse then min pool.warmInstances.toNat (pool.maxInstances.getD u32Max)
    else
      min pool.warmInstances.toNat
        ((pool.maxInstances.map (fun limit => saturatingSub limit active)).getD u32Max)
  let nodes := ((c.nodes.values.filter (fun node =>
      decide (pool.image ∈ node.images) && holdsArtifact pool node &&
        decide (pool.cpuMillis ≤ node.cpuMillis) && decide (pool.memoryMib ≤ node.memoryMib))).map
    Node.id).insertionSort (fun a b => a.toNat ≤ b.toNat)
  let count := nodes.length
  if count = 0 ∨ u32Max < count then []
  else nodes.zipIdx.map (fun entry =>
    (entry.1, target / count + if entry.2 < target % count then 1 else 0))

def warmInstancesOn (c : Cluster) (nodeId : Uuid) (pool : Pool) : Nat :=
  let idle := ((c.nodes.get nodeId).map (fun node => node.idle pool.name)).getD 0
  if pool.reuse then
    wrapping (idle + wrapping (c.executions.count (fun execution =>
      execution.pool = pool.name && execution.occupiesOn nodeId)))
  else idle

/-- The numbers that the three warm-instance functions compute alike. -/
structure WarmView where
  targets : List (Uuid × Nat)
  active : Nat
  idle : Nat
  warm : Nat
  wanted : Nat

def warmView (c : Cluster) (pool : Pool) : WarmView :=
  let active := wrapping (c.activeCount pool.name)
  let idle := wrapping (c.idleCount pool.name)
  { targets := c.warmTargets pool
    active := active
    idle := idle
    warm := if pool.reuse then wrapping (idle + active) else idle
    wanted := wrapping ((c.warmTargets pool).map Prod.snd).sum }

/-- `add_warm_instance`: `none` is the result `false`, on which nothing has changed. -/
def addWarmInstance (c : Cluster) (nodeId : Uuid) (poolName : String) : Option Cluster :=
  match c.pools.get poolName with
  | none => none
  | some pool =>
    let view := c.warmView pool
    match view.targets.lookup nodeId with
    | none => none
    | some target =>
      if decide (target ≤ c.warmInstancesOn nodeId pool) || decide (view.wanted ≤ view.warm) ||
          pool.maxInstances.any (fun limit =>
            decide (limit ≤ wrapping (view.active + view.idle))) then none
      else
        match c.nodes.get nodeId with
        | none => none
        | some node =>
          if node.cpuMillis < pool.cpuMillis ∨ node.memoryMib < pool.memoryMib then none
          else some { c with nodes := c.nodes.adjust nodeId (fun node =>
            node.addWarm pool) (fun node => node.addWarm_id pool) }

/-- The share of one node never exceeds the whole. -/
private theorem share_le (target count index : Nat) :
    target / count + (if index < target % count then 1 else 0) ≤ target := by
  split_ifs with extra
  · have some_left : 0 < target % count := by omega
    have parts := Nat.div_add_mod target count
    rcases Nat.eq_zero_or_pos count with rfl | positive
    · simp only [Nat.mod_zero] at some_left
      simp only [Nat.div_zero]
      omega
    · have quotient : target / count ≤ count * (target / count) := Nat.le_mul_of_pos_left _ positive
      omega
  · exact Nat.div_le_self target count

/-- No node is asked for more warm instances than 32 bits hold. -/
theorem lookup_warmTargets_le {c : Cluster} {pool : Pool} {nodeId : Uuid} {target : Nat}
    (aimed : (c.warmTargets pool).lookup nodeId = some target) : target ≤ u32Max := by
  have bound := pool.warmInstances.toNat_lt
  have member : (nodeId, target) ∈ c.warmTargets pool := by
    obtain ⟨before, after, split, -⟩ := List.lookup_eq_some_iff.mp aimed
    rw [split]
    simp
  unfold warmTargets at member
  dsimp only at member
  split_ifs at member with none_left reuse
  all_goals
    try cases member
  all_goals
    obtain ⟨entry, -, same⟩ := List.mem_map.mp member
    obtain ⟨-, rfl⟩ := Prod.mk.inj same
    refine (share_le _ _ _).trans ?_
    unfold u32Max
    omega

/-- The limit check that comes before an instance is warmed; it counts in 32 bits. -/
def warmRoom (c : Cluster) (pool : Pool) : Bool :=
  pool.maxInstances.all (fun limit =>
    decide (wrapping (wrapping (c.activeCount pool.name) + wrapping (c.idleCount pool.name)) <
      limit))

theorem addWarmInstance_eq_some {c next : Cluster} {nodeId : Uuid} {poolName : String}
    (added : c.addWarmInstance nodeId poolName = some next) :
    ∃ pool node, c.pools.get pool.name = some pool ∧ c.nodes.get nodeId = some node ∧
      c.warmRoom pool = true ∧
      c.warmInstancesOn nodeId pool < u32Max ∧
      next = { c with nodes := c.nodes.adjust nodeId (fun node => node.addWarm pool) (fun node =>
        node.addWarm_id pool) } := by
  unfold addWarmInstance at added
  cases known : c.pools.get poolName with
  | none => simp [known] at added
  | some pool =>
    simp only [known] at added
    cases aimed : (c.warmView pool).targets.lookup nodeId with
    | none => simp [aimed] at added
    | some target =>
      simp only [aimed] at added
      split_ifs at added with refused
      cases there : c.nodes.get nodeId with
      | none => simp [there] at added
      | some node =>
        simp only [there] at added
        split_ifs at added with small
        simp only [Bool.or_eq_true, not_or, Bool.not_eq_true] at refused
        have below : c.warmInstancesOn nodeId pool < u32Max := by
          have asked := lookup_warmTargets_le aimed
          have fewer := refused.1.1
          simp only [decide_eq_false_iff_not, not_le] at fewer
          omega
        refine ⟨pool, node, Keyed.get_congr known, rfl, ?_, below, (Option.some.inj added).symm⟩
        cases limit : pool.maxInstances with
        | none => simp [warmRoom, limit]
        | some limit' =>
          have room := refused.2
          simp only [limit, Option.any_some, decide_eq_false_iff_not, not_le] at room
          simpa [warmRoom, limit, warmView] using room

def warmInstanceNeeded (c : Cluster) (nodeId : Uuid) (poolName : String) : Bool :=
  match c.pools.get poolName with
  | none => false
  | some pool =>
    let view := c.warmView pool
    match view.targets.lookup nodeId with
    | none => false
    | some target =>
      decide (c.warmInstancesOn nodeId pool < target) && decide (view.warm < view.wanted) &&
        pool.maxInstances.all (fun limit => decide (wrapping (view.active + view.idle) < limit))

/-- `remove_idle_instance`: `none` is the result `false`, on which nothing has changed. -/
def removeIdleInstance (c : Cluster) (nodeId : Uuid) (poolName : String) : Option Cluster :=
  match c.pools.get poolName with
  | none => none
  | some pool =>
    let view := c.warmView pool
    let target := (view.targets.lookup nodeId).getD 0
    if decide (c.warmInstancesOn nodeId pool ≤ target) || decide (view.warm < view.wanted) then none
    else
      match c.nodes.get nodeId with
      | none => none
      | some node =>
        if node.idle poolName = 0 then none
        else some { c with nodes := c.nodes.adjust nodeId (fun node =>
          node.removeIdle pool) (fun node => node.removeIdle_id pool) }

theorem removeIdleInstance_eq_some {c next : Cluster} {nodeId : Uuid} {poolName : String}
    (removed : c.removeIdleInstance nodeId poolName = some next) :
    ∃ pool node, c.pools.get pool.name = some pool ∧ c.nodes.get nodeId = some node ∧
      0 < node.idle pool.name ∧
      next = { c with nodes := c.nodes.adjust nodeId (fun node => node.removeIdle pool) (fun node =>
        node.removeIdle_id pool) } := by
  unfold removeIdleInstance at removed
  cases known : c.pools.get poolName with
  | none => simp [known] at removed
  | some pool =>
    have own := Keyed.key_of_get known
    simp only [known] at removed
    split_ifs at removed
    cases there : c.nodes.get nodeId with
    | none => simp [there] at removed
    | some node =>
      simp only [there] at removed
      split_ifs at removed with none_idle
      refine ⟨pool, node, Keyed.get_congr known, rfl, ?_, (Option.some.inj removed).symm⟩
      rw [own]
      omega

def resetIdleInstances (c : Cluster) (nodeId : Uuid) : Cluster :=
  { c with
    nodes := c.nodes.adjust nodeId (fun node => node.resetIdle c.pools)
      (fun node => node.resetIdle_id c.pools) }

end Cluster
end Scraperack
