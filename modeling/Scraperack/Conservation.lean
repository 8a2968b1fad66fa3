import Scraperack.Housing

/-! Work conservation: while the lock is free no queued execution could be scheduled, and
none is ever assigned ahead of an older one of its pool. -/

namespace Scraperack
open Counters

namespace Cluster

/-- The scheduler can do nothing for any queued execution. -/
def Settled (c : Cluster) : Prop :=
  ∀ id execution, c.executions.get id = some execution → execution.status = .queued →
    ¬ c.Accepts execution.pool

theorem Settled.schedule_eq_none {c : Cluster} (settled : c.Settled) {id : Uuid}
    {execution : Execution}
    (present : c.executions.get id = some execution)
    (queued : execution.status = .queued) : c.schedule id = none := by
  rw [schedule_eq_none_iff]
  intro other found
  obtain rfl := Option.some.inj (present.symm.trans found)
  exact settled id execution present queued

/-- A node is eligible for less when it holds less, has fewer idle instances and may start fewer. -/
theorem eligible_mono {pool : Pool} {start start' : Bool} {node before : Node}
    (eligible : eligible pool start node = true)
    (status : node.status = .ready → before.status = .ready)
    (images : node.images ⊆ before.images) (environments : node.environments ⊆ before.environments)
    (cpu : node.cpuMillis = before.cpuMillis) (memory : node.memoryMib = before.memoryMib)
    (idle : 0 < node.idle pool.name → 0 < before.idle pool.name)
    (starts : start = true → start' = true) :
    Cluster.eligible pool start' before = true := by
  simp only [Cluster.eligible, Bool.and_eq_true, Bool.or_eq_true, decide_eq_true_eq,
    holdsArtifact] at eligible ⊢
  obtain ⟨⟨⟨ready, holds⟩, artifact⟩, room⟩ := eligible
  refine ⟨⟨⟨status ready, images holds⟩, ?_⟩, ?_⟩
  · cases wanted : pool.environmentArtifact with
    | none => rfl
    | some key =>
      simp only [wanted, Option.all_some, decide_eq_true_eq] at artifact ⊢
      exact environments artifact
  · rw [← cpu, ← memory]
    exact room.imp idle (fun fits => ⟨⟨starts fits.1.1, fits.1.2⟩, fits.2⟩)

/-- A pool that is accepted after a change was accepted before, if its counts are as they were and
its nodes were eligible. -/
theorem Accepts.before {c next : Cluster} {name : String} (accepts : next.Accepts name)
    (pools : next.pools.get name = c.pools.get name)
    (active : next.activeCount name = c.activeCount name)
    (idle : next.idleCount name = c.idleCount name)
    (nodes : ∀ {k node pool start}, next.nodes.get k = some node → pool.name = name →
      eligible pool start node = true → ∃ before, c.nodes.get k = some before ∧
        eligible pool start before = true) :
    c.Accepts name := by
  obtain ⟨pool, known, room, k, node, there, able⟩ := accepts
  rw [pools] at known
  obtain rfl := Keyed.key_of_get known
  have full : c.full pool = false := by rw [← room]; simp only [full, active]
  have start : c.canStart pool = next.canStart pool := by simp only [canStart, active, idle]
  obtain ⟨before, was, could⟩ := nodes there rfl able
  exact ⟨pool, known, full, k, before, was, by rw [start]; exact could⟩

theorem activeCount_place {c : Cluster} {execution : Execution} {pool : Pool} {there : Node}
    (queued : execution.status = .queued) (choice : c.Choice execution pool there) (name : String) :
    (c.place execution pool there.id).activeCount name =
      c.activeCount name + if execution.pool = name then 1 else 0 := by
  have moved := Keyed.total_adjust choice.present
    (fun execution => { execution with node := some there.id, status := .assigned }) (fun _ => rfl)
    (fun execution => if execution.occupies name then 1 else 0)
  simp only [Execution.occupies, queued, ExecutionStatus.onNode, Bool.and_false, Bool.and_true,
    decide_eq_true_eq,
    Bool.false_eq_true, ↓reduceIte, Nat.add_zero] at moved
  simp only [activeCount, Keyed.count_eq_total, place, Execution.occupies]
  exact moved

theorem idleCount_place {c : Cluster} {execution : Execution} {pool : Pool} {there : Node}
    (choice : c.Choice execution pool there) (name : String) :
    (c.place execution pool there.id).idleCount name +
      (if name = pool.name ∧ 0 < there.idle name then 1 else 0) = c.idleCount name := by
  have moved := Keyed.total_adjust choice.there (fun node => node.occupy pool)
    (fun node => node.occupy_id pool)
    (fun node => node.idle name)
  simp only [Node.idle_occupy] at moved
  simp only [idleCount, place]
  by_cases same : name = pool.name
  · simp only [same, true_and, ↓reduceIte] at moved ⊢
    split_ifs <;> omega
  · simp only [same, false_and, ↓reduceIte] at moved ⊢
    omega

/-- Placing an execution makes the scheduler accept no pool that it refused before. -/
theorem Accepts.of_place {c : Cluster} {execution : Execution} {pool : Pool} {there : Node}
    {name : String}
    (queued : execution.status = .queued) (choice : c.Choice execution pool there)
    (accepts : (c.place execution pool there.id).Accepts name) : c.Accepts name := by
  obtain ⟨other, known, room, k, node, found, able⟩ := accepts
  have known : c.pools.get name = some other := known
  obtain rfl := Keyed.key_of_get known
  have active := activeCount_place queued choice other.name
  have idle := idleCount_place choice other.name
  have own : execution.pool = pool.name := (Keyed.key_of_get choice.known).symm
  rw [own] at active
  have full : c.full other = false := by
    simp only [full, Option.any_eq_false, decide_eq_false_iff_not, not_le] at room ⊢
    intro limit bounded
    have below := room limit bounded
    omega
  have start : (c.place execution pool there.id).canStart other = true →
    c.canStart other = true := by
    simp only [canStart, Option.all_eq_true, decide_eq_true_eq]
    intro below limit bounded
    have room := below limit bounded
    by_cases same : other.name = pool.name
    · simp only [same, true_and, ↓reduceIte] at active idle room ⊢
      split_ifs at idle <;> omega
    · simp only [same, eq_comm, false_and, ↓reduceIte] at active idle room ⊢
      omega
  simp only [place, Keyed.get_adjust] at found
  split_ifs at found with same
  · obtain ⟨before, was, rfl⟩ := Option.map_eq_some_iff.mp found
    refine ⟨other, known, full, k, before, was, ?_⟩
    have fields : (before.occupy pool).status = before.status ∧
      (before.occupy pool).images = before.images ∧
        (before.occupy pool).environments = before.environments ∧
        (before.occupy pool).cpuMillis = before.cpuMillis ∧
          (before.occupy pool).memoryMib = before.memoryMib := by
      unfold Node.occupy
      split_ifs <;> exact ⟨rfl, rfl, rfl, rfl, rfl⟩
    obtain ⟨status, images, environments, cpu, memory⟩ := fields
    refine eligible_mono able (fun ready =>
      status ▸ ready) images.subset environments.subset cpu memory ?_ start
    rw [Node.idle_occupy]
    split_ifs <;> omega
  · exact ⟨other, known, full, k, node, found,
      eligible_mono able id (Finset.Subset.refl _) (Finset.Subset.refl _) rfl rfl id start⟩

/-- Nothing assigned in going from `c` to `next` overtook an older execution of its pool. -/
def InOrder (c next : Cluster) : Prop :=
  ∃ made, next.decisions = made ++ c.decisions ∧ ∀ decision ∈ made, decision.overtook = false

theorem InOrder.refl (c : Cluster) : InOrder c c := ⟨[], rfl, fun _ member => by cases member⟩

theorem InOrder.of_eq {c next : Cluster} (same : next.decisions = c.decisions) : InOrder c next :=
  ⟨[], same, fun _ member => by cases member⟩

theorem InOrder.trans {c d e : Cluster} (first : InOrder c d)
    (second : InOrder d e) : InOrder c e := by
  obtain ⟨made, same, orderly⟩ := first
  obtain ⟨later, also, orderly'⟩ := second
  refine ⟨later ++ made, by rw [also, same, List.append_assoc], fun decision member => ?_⟩
  exact (List.mem_append.mp member).elim (orderly' decision) (orderly decision)

/-- An assignment is in order when the pools of the older queued executions are refused. -/
theorem InOrder.place {c : Cluster} {execution : Execution} {pool : Pool} {there : Node}
    (choice : c.Choice execution pool there)
    (refused : ∀ id other, c.executions.get id = some other → other.status = .queued →
      Older other execution →
      ¬ c.Accepts other.pool) : InOrder c (c.place execution pool there.id) := by
  refine ⟨[_], rfl, fun decision member => ?_⟩
  obtain rfl := List.mem_singleton.mp member
  refine (Keyed.any_eq_false_iff _ _).mpr (fun id other present => ?_)
  by_contra overtaken
  simp only [Bool.not_eq_false, Bool.and_eq_true, decide_eq_true_eq] at overtaken
  obtain ⟨⟨queued, inside⟩, older⟩ := overtaken
  apply refused id other present queued older
  rw [inside]
  exact ⟨pool, choice.known, choice.room, there.id, there, choice.there, choice.eligible⟩

theorem queueLe_of_older {a b : Execution} (older : Older a b) : ¬ queueLe (b.createdAtMs, b.id)
    (a.createdAtMs, a.id) := by
  unfold Older at older
  unfold queueLe
  simp only
  omega

instance : Std.Total queueLe where
  total a b := by
    unfold queueLe
    omega

instance : IsTrans (Nat × Uuid) queueLe where
  trans a b c first second := by
    unfold queueLe at *
    omega

theorem sorted_queue (c : Cluster) : c.queue.Pairwise queueLe :=
  List.pairwise_insertionSort queueLe _

/-- The loop of `schedule_queued` leaves no execution that it could still assign, and assigns in
order: whatever it has passed over stays refused. -/
theorem scheduleAll_settles {c : Cluster} {entries : List (Nat × Uuid)}
    (waiting : c.Waiting entries)
    (sorted : entries.Pairwise queueLe)
    (passed : ∀ id execution, c.executions.get id = some execution → execution.status = .queued →
      (execution.createdAtMs, id) ∈ entries ∨ ¬ c.Accepts execution.pool) :
    (c.scheduleAll entries).1.Settled ∧ InOrder c (c.scheduleAll entries).1 := by
  induction entries generalizing c with
  | nil =>
    refine ⟨fun id execution present queued => ?_, .refl c⟩
    exact (passed id execution present queued).resolve_left List.not_mem_nil
  | cons entry rest ih =>
    obtain ⟨first, sorted⟩ := List.pairwise_cons.mp sorted
    unfold scheduleAll
    cases scheduled : c.schedule entry.2 with
    | none =>
      refine ih waiting.tail sorted (fun id execution present queued => ?_)
      rcases passed id execution present queued with listed | refused
      · rcases List.mem_cons.mp listed with same | later
        · obtain rfl := congrArg Prod.snd same
          exact .inr ((schedule_eq_none_iff c _).mp scheduled execution present)
        · exact .inl later
      · exact .inr refused
    | some next =>
      obtain ⟨execution, pool, there, own, choice, rfl⟩ := schedule_cases scheduled
      obtain ⟨listed, present, queued, created⟩ := waiting.queued entry List.mem_cons_self
      have same : execution = listed := by
        have found := choice.present
        rw [own, present] at found
        exact (Option.some.inj found).symm
      subst same
      have placed : InOrder c (c.place execution pool there.id) := by
        refine InOrder.place choice (fun id other found waits older => ?_)
        refine (passed id other found waits).resolve_left (fun inside => ?_)
        have key := Keyed.key_of_get found
        have before : queueLe (execution.createdAtMs, execution.id)
          (other.createdAtMs, other.id) := by
          rw [own, created, key]
          rcases List.mem_cons.mp inside with same | later
          · rw [same]
            exact .inr ⟨rfl, Nat.le_refl _⟩
          · exact first _ later
        exact queueLe_of_older older before
      obtain ⟨settled, later⟩ := ih (waiting.place own pool there.id) sorted
        (fun id other found waits => by
        rw [place_get] at found
        split_ifs at found with equal
        · obtain ⟨_, -, rfl⟩ := Option.map_eq_some_iff.mp found
          cases waits
        · rcases passed id other found waits with inside | refused
          · rcases List.mem_cons.mp inside with same | later
            · exact absurd (own ▸ congrArg Prod.snd same) equal
            · exact .inl later
          · exact .inr (fun accepts => refused (accepts.of_place queued choice)))
      exact ⟨settled, placed.trans later⟩

/-- After `schedule_queued` nothing is left that could be scheduled. -/
theorem scheduleQueued_settles (c : Cluster) : c.scheduleQueued.1.Settled ∧
    InOrder c c.scheduleQueued.1 := by
  refine scheduleAll_settles c.waiting_queue c.sorted_queue
    (fun id execution present queued => .inl ?_)
  exact (c.mem_queue (execution.createdAtMs, id)).mpr ⟨execution, present, queued, rfl⟩

/-! Sections that do not schedule. -/

/-- Nothing is settled anew where the queued executions stay and their pools are accepted no more than before. -/
theorem Settled.frame {c next : Cluster} (settled : c.Settled)
    (executions : ∀ id execution, next.executions.get id = some execution →
      execution.status = .queued →
      c.executions.get id = some execution)
    (accepts : ∀ id execution, c.executions.get id = some execution → execution.status = .queued →
      next.Accepts execution.pool → c.Accepts execution.pool) : next.Settled :=
  fun id execution present queued accepted =>
    settled id execution (executions id execution present queued) queued
      (accepts id execution (executions id execution present queued) queued accepted)

/-- Nodes that become eligible for less, with the same idle instances, make no pool accepted. -/
theorem Accepts.of_map {c : Cluster} {f : Node → Node} {keeps : ∀ node, (f node).id = node.id}
    {name : String}
    (accepts : ({ c with nodes := c.nodes.map f keeps } : Cluster).Accepts name)
    (idle : ∀ node, (f node).idle name = node.idle name)
    (less : ∀ pool start node, pool.name = name → eligible pool start (f node) = true →
      eligible pool start node = true) :
    c.Accepts name := by
  refine accepts.before rfl rfl ?_ ?_
  · simp only [idleCount, Keyed.total_map, idle]
  · intro k node pool start found own able
    simp only [Keyed.get_map] at found
    obtain ⟨before, was, rfl⟩ := Option.map_eq_some_iff.mp found
    exact ⟨before, was, less pool start before own able⟩

/-- A pool that comes does not matter to the others. -/
theorem Accepts.of_insert {c : Cluster} {pool : Pool} {name : String}
    (accepts : ({ c with pools := c.pools.insert pool } : Cluster).Accepts name)
    (differ : name ≠ pool.name) :
    c.Accepts name :=
  accepts.before (Keyed.get_insert_ne _ differ) rfl rfl (fun found _ able => ⟨_, found, able⟩)

/-- Nor does a pool that goes. -/
theorem Accepts.of_removePool {c : Cluster} {gone name : String}
    (accepts : (c.removePool gone).Accepts name)
    (differ : name ≠ gone) : c.Accepts name := by
  cases known : c.pools.get gone with
  | none => rwa [removePool_of_get_none known] at accepts
  | some pool =>
    obtain rfl := Keyed.key_of_get known
    rw [removePool_of_get known] at accepts
    refine accepts.before (Keyed.get_erase_ne _ differ) rfl ?_ ?_
    · simp only [idleCount, Keyed.total_map, Node.idle_forgetPool, if_neg differ]
    · intro k node other start found own able
      simp only [Keyed.get_map] at found
      obtain ⟨before, was, rfl⟩ := Option.map_eq_some_iff.mp found
      refine ⟨before, was, ?_⟩
      have idle : (before.forgetPool pool).idle other.name = before.idle other.name := by
        rw [Node.idle_forgetPool, if_neg (own ▸ differ)]
      exact eligible_mono able id (Finset.Subset.refl _) (Finset.Subset.refl _) rfl rfl
        (fun some_idle => idle ▸ some_idle) id

end Cluster

/-! Every section leaves the cluster settled. -/

namespace Cluster

/-- What a section must leave behind. -/
abbrev Conserved (c next : Cluster) : Prop := next.Settled ∧ InOrder c next

theorem conserved_scheduled {c d : Cluster}
    (same : d.decisions = c.decisions) : Conserved c d.scheduleQueued.1 :=
  ⟨d.scheduleQueued_settles.1, (InOrder.of_eq same).trans d.scheduleQueued_settles.2⟩

theorem Settled.of_map {c : Cluster} (settled : c.Settled) (f : Node → Node)
    (keeps : ∀ node, (f node).id = node.id)
    (idle : ∀ node name, (f node).idle name = node.idle name)
    (less : ∀ pool start node, eligible pool start (f node) = true →
      eligible pool start node = true) :
    ({ c with nodes := c.nodes.map f keeps } : Cluster).Settled :=
  settled.frame (fun _ _ present _ => present) (fun _ _ _ _ accepts =>
    accepts.of_map (fun node => idle node _)
      (fun pool start node _ able => less pool start node able))

theorem Settled.openPool {c : Cluster} (settled : c.Settled) (housed : Housed c) (pool : Pool)
    (absent : c.pools.get pool.name =
      none) : ({ c with pools := c.pools.insert pool } : Cluster).Settled := by
  refine settled.frame (fun _ _ present _ =>
    present) (fun id execution present queued accepts => ?_)
  refine accepts.of_insert (fun same => ?_)
  have known := housed id execution present queued
  rw [same, absent] at known
  cases known

theorem Settled.removePool {c : Cluster} {name : String} (settled : c.Settled)
    (unused : Unused c name) :
    (c.removePool name).Settled := by
  refine settled.frame (fun id execution present _ => ?_)
    (fun id execution present queued accepts => ?_)
  · rwa [removePool_executions] at present
  · exact accepts.of_removePool (unused.not_active present (by rw [queued]; rfl))

theorem Settled.start {c : Cluster} {id : Uuid} {execution : Execution} {now : Nat}
    (settled : c.Settled)
    (present : c.executions.get id = some execution) (assigned : execution.status = .assigned) :
    (c.start id now).Settled := by
  have active (name : String) : (c.start id now).activeCount name = c.activeCount name := by
    have moved := Keyed.total_adjust present
      (fun execution => { execution with status := .running, startedAtMs := some now })
        (fun _ => rfl)
      (fun execution => if execution.occupies name then 1 else 0)
    have before : execution.status.onNode = true := by rw [assigned]; rfl
    have after : ExecutionStatus.running.onNode = true := rfl
    simp only [Execution.occupies, before, after] at moved
    simp only [activeCount, Keyed.count_eq_total, Cluster.start]
    exact Nat.add_right_cancel moved
  refine settled.frame (fun k other found queued => ?_) (fun k other found _ accepts => ?_)
  · simp only [Cluster.start, Keyed.get_adjust] at found
    split_ifs at found
    · obtain ⟨_, -, rfl⟩ := Option.map_eq_some_iff.mp found
      cases queued
    · exact found
  · exact accepts.before rfl (active _) rfl (fun found _ able => ⟨_, found, able⟩)

theorem Settled.forgetArtifact {c : Cluster} (settled : c.Settled) (artifact : Option String) :
    (Scraperack.forgetArtifact c artifact).Settled := by
  unfold Scraperack.forgetArtifact
  split
  · refine settled.of_map _ _ (fun _ _ => rfl) (fun pool start node able => ?_)
    exact eligible_mono able id (Finset.Subset.refl _) (Finset.erase_subset _ _) rfl rfl id id
  · exact settled

/-- Deleting an environment makes no pool accepted that still has queued executions. -/
theorem Settled.withoutEnvironment {c : Cluster} {environment : Environment} (settled : c.Settled)
    (unused : Unused c environment.pool) : (Scraperack.withoutEnvironment
      c environment).Settled := by
  have erased : ({ c with environments := c.environments.erase environment.id
    } : Cluster).Settled :=
    settled.frame (fun _ _ present _ => present) (fun _ _ _ _ accepts =>
      accepts.before rfl rfl rfl (fun found _ able => ⟨_, found, able⟩))
  exact erased.removePool unused

theorem decisions_withoutEnvironment (c : Cluster) (environment : Environment) :
    (Scraperack.withoutEnvironment c environment).decisions = c.decisions := removePool_decisions ..

theorem decisions_forgetArtifact (c : Cluster) (artifact : Option String) :
    (Scraperack.forgetArtifact c artifact).decisions = c.decisions := by
  cases artifact <;> rfl

theorem decisions_restart (fresh : Uuid) (environment : Environment) (c : Cluster) :
    (restartEnvironmentPool fresh environment c).cluster.decisions = c.decisions := by
  rcases restartEnvironmentPool_cases fresh environment c with
    ⟨old, known, running, same⟩ | ⟨unknown, running, same⟩ | ⟨quiet, same⟩
  · rw [same]
    exact moved_decisions ..
  · rw [same]
    exact moved_decisions ..
  · rw [same]
    exact (removePool_decisions ..).trans (moved_decisions ..)

theorem decisions_cleaned (c : Cluster) (execution : Execution) (keepIdle : Bool) :
    (cleaned c execution keepIdle).decisions = c.decisions := by
  have finished : (c.finish execution.id keepIdle).decisions = c.decisions := release_decisions ..
  unfold cleaned
  split_ifs
  · rw [removePool_decisions, finished]
  · exact finished

theorem conserved_settle {c : Cluster} (seated : Seated c) (fresh : Uuid)
    (environment : Environment) :
    Conserved c (settle (restartEnvironmentPool fresh environment c)).cluster := by
  rw [seated.settle_restart]
  exact conserved_scheduled (decisions_restart fresh environment c)

theorem conserved_scheduleIfChanged {c : Cluster} (settled : c.Settled) {changed : Option Cluster}
    (same : ∀ next, changed = some next → next.decisions = c.decisions) :
    Conserved c (scheduleIfChanged c changed).cluster := by
  cases changed with
  | none => exact ⟨settled, .refl c⟩
  | some next => exact conserved_scheduled (same next rfl)

end Cluster

open Cluster in
theorem Commit.conserved [Crates] {c : Cluster} {commit : Commit}
    {result : Section} (ran : commit.run c = .ok result)
    (fits : commit.choiceFits c = true) (fresh : ∀ name, commit.newPoolName = some name →
      c.pools.get name = none)
    (seated : Seated c) (gentle : ∀ name, commit.uses c (.seizePool name) →
      Unused c name) (housed : Housed c)
    (settled : c.Settled) : Conserved c result.cluster := by
  have aside {next : Cluster} (pools : next.pools = c.pools) (nodes : next.nodes = c.nodes)
      (executions : next.executions = c.executions) (decisions : next.decisions =
        c.decisions) : Conserved c next :=
    ⟨settled.frame (fun _ _ present _ => executions ▸ present) (fun _ _ _ _ accepts =>
      accepts.before (by rw [pools])
        (by simp only [activeCount, executions]) (by simp only [idleCount, nodes])
        (fun found _ able => ⟨_, nodes ▸ found, able⟩)), .of_eq decisions⟩
  cases commit with
  | importImage image =>
    obtain rfl := Except.ok.inj ran
    refine ⟨?_, .of_eq rfl⟩
    have syncing := settled.of_map (fun node => { node with status := .syncing })
      (fun _ => rfl) (fun _ _ => rfl)
      (fun pool start node able => by simp [eligible] at able)
    exact syncing.frame (fun _ _ present _ => present) (fun _ _ _ _ accepts =>
      accepts.before rfl rfl rfl (fun found _ able => ⟨_, found, able⟩))
  | updateImage id update =>
    obtain ⟨image, -, rfl⟩ := updateImage_eq_ok ran
    exact aside rfl rfl rfl rfl
  | deleteImage id =>
    obtain ⟨-, -, rfl⟩ := deleteImage_eq_ok ran
    refine ⟨?_, .of_eq rfl⟩
    have erased := settled.of_map (fun node => { node with images := node.images.erase id })
      (fun _ => rfl)
      (fun _ _ => rfl) (fun pool start node able =>
        eligible_mono able (fun ready => ready)
          (Finset.erase_subset _ _) (Finset.Subset.refl _) rfl rfl
          (fun idle => idle) (fun starts => starts))
    exact erased.frame (fun _ _ present _ => present) (fun _ _ _ _ accepts =>
      accepts.before rfl rfl rfl (fun found _ able => ⟨_, found, able⟩))
  | createPool pool =>
    obtain ⟨-, -, absent, rfl⟩ := createPool_eq_ok ran
    exact ⟨settled.openPool housed pool ((Keyed.contains_eq_false_iff _ _).mp absent), .of_eq rfl⟩
  | deletePool name =>
    obtain ⟨unused, rfl⟩ := deletePool_eq_ok ran
    exact ⟨settled.removePool unused, .of_eq (removePool_decisions ..)⟩
  | createEnvironment id request image artifact =>
    obtain rfl := Except.ok.inj ran
    have opened := settled.openPool housed (environmentPool
      (requestedEnvironment id request image.id artifact
      (environmentPoolName id))) (fresh _ rfl)
    exact ⟨opened.frame (fun _ _ present _ => present) (fun _ _ _ _ accepts =>
      accepts.before rfl rfl rfl (fun found _ able => ⟨_, found, able⟩)), .of_eq rfl⟩
  | updateEnvironment freshId id request old image artifact =>
    obtain rfl := Except.ok.inj ran
    rw [updateEnvironment_eq]
    split_ifs
    · exact conserved_settle seated freshId _
    · exact conserved_scheduled rfl
  | restartEnvironment freshId id =>
    obtain ⟨environment, -, rfl⟩ := restartEnvironment_eq_ok ran
    exact conserved_settle seated freshId environment
  | deleteEnvironment id =>
    obtain ⟨environment, present, quiet, rfl⟩ := deleteEnvironment_eq_ok ran
    have unused := gentle environment.pool ⟨id, environment, rfl, present, rfl, quiet⟩
    exact ⟨(settled.withoutEnvironment unused).forgetArtifact _,
      .of_eq ((decisions_forgetArtifact ..).trans (decisions_withoutEnvironment ..))⟩
  | createJoinToken id tokenHash now =>
    obtain rfl := Except.ok.inj ran
    exact aside rfl rfl rfl rfl
  | joinCluster node tokenHash credentialHash now =>
    obtain ⟨token, -, rfl⟩ := joinCluster_eq_ok ran
    exact aside rfl rfl rfl rfl
  | localJoin node credentialHash =>
    obtain rfl := Except.ok.inj ran
    exact aside rfl rfl rfl rfl
  | updateNode id concurrency =>
    obtain ⟨node, present, rfl⟩ := updateNode_eq_ok ran
    have own := Keyed.key_of_get present
    refine ⟨settled.frame (fun _ _ present _ =>
      present) (fun _ _ _ _ accepts => accepts.before rfl rfl ?_ ?_), .of_eq rfl⟩
    · refine Keyed.total_eq_of_get _ _ (fun k => ?_)
      simp only [Keyed.get_insert]
      split_ifs with same
      · rw [same, own, present]
        rfl
      · rfl
    · intro k other pool start found _ able
      simp only [Keyed.get_insert] at found
      split_ifs at found with same
      · obtain rfl := Option.some.inj found
        exact ⟨node, by rw [same, own, present], able⟩
      · exact ⟨other, found, able⟩
  | deleteNode id =>
    obtain ⟨-, rfl⟩ := deleteNode_eq_ok ran
    exact conserved_scheduled rfl
  | registerNode id request now =>
    obtain rfl := Except.ok.inj ran
    refine conserved_scheduled ?_
    cases request.resetIdle <;> rfl
  | imageReady id image =>
    obtain rfl := imageReady_eq_ok ran
    exact conserved_scheduled rfl
  | environmentReady id artifact =>
    obtain rfl := environmentReady_eq_ok ran
    exact conserved_scheduled rfl
  | addWarmInstance id pool =>
    obtain rfl := Except.ok.inj ran
    refine conserved_scheduleIfChanged settled fun next added => ?_
    obtain ⟨_, _, _, _, _, _, rfl⟩ := Cluster.addWarmInstance_eq_some added
    rfl
  | removeIdleInstance id pool =>
    obtain rfl := Except.ok.inj ran
    refine conserved_scheduleIfChanged settled fun next removed => ?_
    obtain ⟨_, _, _, _, _, rfl⟩ := Cluster.removeIdleInstance_eq_some removed
    rfl
  | createExecution id request secrets now =>
    rcases createExecution_eq_ok ran with rfl | ⟨_, _, _, _, _, rfl⟩ <;> exact ⟨settled, .refl c⟩
  | nextWork id choice now =>
    rcases nextWork_eq_ok ran with rfl | ⟨execution, rfl, present, outcome⟩
    · exact ⟨settled, .refl c⟩
    · have assigned : execution.status = .assigned := by
        simp only [Commit.choiceFits, present, Option.any_some, assignedTo,
          Bool.and_eq_true, decide_eq_true_eq] at fits
        exact fits.2
      have started : Conserved c
        (c.start execution.id now) := ⟨settled.start present assigned, .of_eq rfl⟩
      rcases outcome with ⟨-, rfl⟩ | ⟨pool, -, rfl⟩ <;> exact started
  | completeExecution node id request now =>
    obtain ⟨execution, -, -, rfl⟩ := completeExecution_eq_ok ran
    exact conserved_scheduled (decisions_cleaned ..)

open Cluster in
/-- The end of `create_execution` tries the new execution only; the others stay refused. -/
theorem admitExecution_conserved {c : Cluster} {execution : Execution} (queue : Bool)
    (allowed : (Move.receive execution).Allowed c) (settled : c.Settled) :
    Conserved c (admitExecution execution queue c).cluster := by
  obtain ⟨absent, queued, -, -⟩ := allowed
  generalize reached : ({ c with executions := c.executions.insert execution } : Cluster) = stored
  have active (name : String) : stored.activeCount name = c.activeCount name := by
    rw [← reached]
    have added := Keyed.total_insert_absent absent
      (fun execution => if execution.occupies name then 1 else 0)
    have off : execution.occupies name = false := by
      simp [Execution.occupies, queued, ExecutionStatus.onNode]
    simp only [off, Bool.false_eq_true, ↓reduceIte, Nat.zero_add] at added
    simp only [activeCount, Keyed.count_eq_total]
    exact added
  have before {name : String} (accepts : stored.Accepts name) : c.Accepts name :=
    accepts.before (by rw [← reached]) (active name) (by rw [← reached]; rfl)
      (fun found _ able => ⟨_, by rw [← reached] at found; exact found, able⟩)
  have others (id : Uuid) (other : Execution) (present : stored.executions.get id = some other)
      (waits : other.status = .queued) : other = execution ∨ ¬ stored.Accepts other.pool := by
    rw [← reached] at present
    simp only [Keyed.get_insert] at present
    split_ifs at present
    · exact .inl (Option.some.inj present).symm
    · exact .inr (fun accepts => settled id other present waits (before accepts))
  have inOrder : InOrder c stored := .of_eq (by rw [← reached])
  have new : stored.executions.get execution.id = some execution := by
    rw [← reached]; exact Keyed.get_insert_self ..
  unfold admitExecution
  dsimp only
  rw [reached]
  cases scheduled : stored.schedule execution.id with
  | some next =>
    obtain ⟨chosen, pool, there, own, choice, rfl⟩ := schedule_cases scheduled
    have found := choice.present
    rw [own, new] at found
    obtain rfl := Option.some.inj found
    refine ⟨?_, inOrder.trans (InOrder.place choice (fun id other present waits older => ?_))⟩
    · intro id other present waits accepts
      rw [place_get] at present
      split_ifs at present with same
      · obtain ⟨_, -, rfl⟩ := Option.map_eq_some_iff.mp present
        cases waits
      · rcases others id other present waits with rfl | refused
        · exact same (Keyed.key_of_get present).symm
        · exact refused (accepts.of_place queued choice)
    · refine (others id other present waits).resolve_left (fun same => ?_)
      rw [same] at older
      unfold Older at older
      omega
  | none =>
    dsimp only
    split_ifs
    · refine ⟨fun id other present waits => ?_, inOrder⟩
      rcases others id other present waits with rfl | refused
      · exact (schedule_eq_none_iff stored _).mp scheduled other new
      · exact refused
    · rw [Keyed.erase_insert_absent absent]
      exact ⟨settled, .refl c⟩

namespace System

/-- A process that begins to accept requests while no execution is stored. -/
structure Vacant (s : System) : Prop where
  quiet : s.inflight = []
  vacant : ∀ id, s.cluster.executions.get id = none

theorem Vacant.started {s : System} (vacant : Vacant s) : Started s := by
  refine ⟨vacant.quiet, ?_, ?_⟩ <;> intro id execution present <;>
    rw [vacant.vacant] at present <;> cases present

theorem Vacant.seated {s : System} (vacant : Vacant s) : Seated s.cluster := by
  intro id execution present
  rw [vacant.vacant] at present
  cases present

theorem Vacant.housed {s : System} (vacant : Vacant s) : Housed s.cluster := by
  intro id execution present
  rw [vacant.vacant] at present
  cases present

theorem Vacant.settled {s : System} (vacant : Vacant s) : s.cluster.Settled := by
  intro id execution present
  rw [vacant.vacant] at present
  cases present

variable [Crates]

theorem conserved_step {s t : System} {label : Label} (sound : Sound s)
    (spares : s.SparesPool label)
    (seated : Seated s.cluster) (housed : Housed s.cluster) (settled : s.cluster.Settled)
    (stepped : s.step label = some t) (same : restarts label =
      false) : s.cluster.Conserved t.cluster := by
  cases step_cases stepped with
  | performed _ commit others result free allowed entered ran =>
    exact Commit.conserved ran (fits_of_allows allowed) (fresh_of_allows allowed) seated
      (fun name uses => gentle_of_spares spares (.seizePool name)
        (.inr (.inl ⟨commit, others, entered, uses⟩)) (fun _ => rfl)) housed settled
  | admitted index execution secrets queue rest before database there stored =>
    exact admitExecution_conserved queue
      (sound.inserting ⟨secrets, queue, rest, before, there⟩).1 settled
  | called index op rest before after next there plain done =>
    change s.cluster.Conserved next.cluster
    rw [(runOp_frame plain done).1]
    exact ⟨settled, .refl _⟩
  | restarted => cases same
  | _ => exact ⟨settled, .refl _⟩

theorem Vacant.conserved_run {s t : System} (vacant : Vacant s)
    (run : Run (fun s label => s.SparesPool label) s t) :
    t.cluster.Settled ∧ s.cluster.InOrder t.cluster := by
  have kept : Seated t.cluster ∧ Housed t.cluster ∧ t.cluster.Settled ∧
    s.cluster.InOrder t.cluster := by
    refine run.invariant_along
      (P := fun u => Seated u.cluster ∧ Housed u.cluster ∧ u.cluster.Settled ∧
        s.cluster.InOrder u.cluster)
      ⟨vacant.seated, vacant.housed, vacant.settled, .refl _⟩ ?_
    rintro u v label before ⟨seated, housed, settled, orderly⟩ ⟨same, spares⟩ stepped
    have sound := vacant.started.sound.run before
    have conserved := conserved_step sound spares seated housed settled stepped same
    exact ⟨seated_step sound spares seated stepped same,
      housed_step sound spares seated housed stepped same,
      conserved.1, orderly.trans conserved.2⟩
  exact kept.2.2

/-- As long as no `delete_environment` takes a pool away from an active execution, no queued
execution could be scheduled, and none has been assigned ahead of an older one of its pool. -/
theorem work_conserved {s t : System} (vacant : Vacant s)
    (run : Run (fun s label => s.SparesPool label) s t) :
    (∀ id execution, t.cluster.executions.get id = some execution → execution.status = .queued →
      t.cluster.schedule id = none) ∧ s.cluster.InOrder t.cluster := by
  obtain ⟨settled, orderly⟩ := vacant.conserved_run run
  exact ⟨fun id execution present queued => settled.schedule_eq_none present queued, orderly⟩

/-- From an empty cluster on nothing has to be watched for: names tell environments apart. -/
theorem Fresh.conserved_run {s t : System} (fresh : s.Fresh) (run : Run (fun _ _ => True) s t) :
    t.cluster.Settled ∧ s.cluster.InOrder t.cluster := by
  have vacant : s.Vacant := ⟨fresh.quiet, fun id => by rw [fresh.empty]; rfl⟩
  exact vacant.conserved_run ((fresh.spares_run run).mono (fun _ _ allowed =>
    ⟨allowed.1, allowed.2.2⟩))

end System

namespace Demo

/-- An environment whose instances are too large for the node. Its pool is replaced by a client's
pool of the same name, which the next process takes for an environment of its own. -/
def sharing : List Label :=
  installation ++ [.checkEnvironment none { environmentRequest with cpuMillis := 5000 },
    .enter 0 (input environment)] ++
    finish 0 2 ++ request 0 (.deletePool pool) 2 ++
      request 0 (.createPool { otherPool with cpuMillis := 5000 }) 2 ++
    request 0 (.updateImage plainImage.id ⟨"base", some "python 3.12"⟩) 2 ++
      [.restart (fun _ => 7) 0]

def executionRequest : CreateExecution := ⟨none, some "e", .null, ∅, ∅, true⟩

/-- An execution waits in the shared pool while the other environment is deleted, and a pool
that the node could serve takes its name. -/
def stranding : List Label :=
  request 0 (.createExecution 8 executionRequest [] 0) 3 ++ request 0 (.deleteEnvironment 7) 2 ++
    request 0 (.updateImage plainImage.id ⟨"base", none⟩) 2 ++ request 0 (.createPool otherPool) 2

/-- The cluster keeps an execution queued that it could schedule. -/
def stranded (s : System) : Bool :=
  !s.locked && s.cluster.executions.any (fun execution =>
    decide (execution.status = .queued) && (s.cluster.schedule execution.id).isSome)

end Demo

namespace System

/-- An execution in an environment of its own is assigned, and nothing is left to do. -/
theorem work_conserved_assigned :
    ∃ t, @Run Demo.crates (fun s label => s.SparesPool label) Demo.empty t ∧
      (∀ id execution, t.cluster.executions.get id = some execution → execution.status = .queued →
        t.cluster.schedule id = none) ∧ Demo.empty.cluster.InOrder t.cluster ∧
      t.cluster.decisions = [⟨8, false, false⟩] := by
  obtain ⟨t, run, assigned⟩ := Runs.exists_reaches (@step Demo.crates)
    (fun s label => restarts label = false ∧ s.SparesPool label) Demo.empty
    (Demo.installation ++ Demo.creating ++
      Demo.request 0 (.createExecution 8 Demo.executionRequest [] 0) 3)
    (fun t => decide (t.cluster.decisions = [⟨8, false, false⟩])) (by decide +kernel)
  have conserved := @work_conserved Demo.crates _ _ ⟨rfl, fun _ => rfl⟩ run
  exact ⟨t, run, conserved.1, conserved.2, of_decide_eq_true assigned⟩

/-- A pool that is taken away from another environment strands its queued executions. -/
theorem work_stranded :
    ¬ ∀ [Crates] (first s t : System), first.Fresh →
      Runs.Reaches System.step (fun _ _ => True) first s →
      s.Vacant → Run (fun _ _ => True) s t → t.locked = false →
      ∀ id execution, t.cluster.executions.get id = some execution → execution.status = .queued →
        t.cluster.schedule id = none := by
  intro claim
  obtain ⟨s, reached, begun⟩ := Runs.exists_reaches (@step Demo.crates)
    (fun _ _ => True) Demo.empty Demo.sharing
    (fun s => decide (s.inflight.length = 0) && decide (s.cluster.executions.values.length = 0) &&
      (Runs.exec (@step Demo.crates) (fun _ label =>
        restarts label = false ∧ True) s Demo.stranding).any Demo.stranded)
    (by decide +kernel)
  simp only [Bool.and_eq_true, decide_eq_true_eq, List.length_eq_zero_iff] at begun
  obtain ⟨⟨quiet, none_left⟩, ends⟩ := begun
  obtain ⟨t, run, stranded⟩ := Runs.exists_reaches _ _ _ _ _ ends
  simp only [Demo.stranded, Bool.and_eq_true, Bool.not_eq_true', Keyed.any_iff,
    decide_eq_true_eq] at stranded
  obtain ⟨free, id, execution, present, queued, schedulable⟩ := stranded
  have vacant : s.Vacant := ⟨quiet, fun id => by simp [Keyed.get, none_left]⟩
  have own := Keyed.key_of_get present
  rw [own, @claim Demo.crates _ _ _ fresh_empty reached vacant run free id execution present
    queued] at schedulable
  cases schedulable

end System
end Scraperack
