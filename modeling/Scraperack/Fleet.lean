import Scraperack.Pools
import Scraperack.Vms

/-! A node next to the controller. The node knows its machines by pool name only, so they serve what they were
restored for as long as no pool name gets another snapshot while the node has a copy of it. -/

namespace Scraperack

/-- Every pool has its name and snapshot key among these. -/
def PoolsAre [Crates] (among : String → String → Prop) (c : Cluster) : Prop :=
  ∀ name pool, c.pools.get name = some pool → among name (snapshotKey pool)

section
variable [Crates] {among : String → String → Prop} {c : Cluster}

namespace PoolsAre

/-- A table files every pool under its name. -/
theorem iff_all : PoolsAre among c ↔ PoolsAll
    (fun pool => among pool.name (snapshotKey pool)) c := by
  refine forall_congr' fun name => forall_congr' fun pool => imp_congr_right fun known => ?_
  obtain rfl := Keyed.key_of_get known
  exact Iff.rfl

theorem of_same {d : Cluster} (within : PoolsAre among c)
    (pools : d.pools = c.pools) : PoolsAre among d :=
  fun name pool known => within name pool (pools ▸ known)

theorem migrateLegacy (within : PoolsAre among c) (fresh : String → Uuid) :
    PoolsAre among (System.migrateLegacy fresh c) := by
  have folded (pools : List Pool) (d : Cluster) (start : PoolsAre among d) :
      PoolsAre among (pools.foldl (System.migratePool fresh) d) := by
    induction pools generalizing d with
    | nil => exact start
    | cons pool rest ih =>
      have managed := (iff_all.mp start).adjustPool pool.name (f := fun other =>
        { other with managedBy := some "python-executor", environment := some (fresh pool.name) })
        (fun _ => rfl) (fun _ known => known)
      exact ih _ (iff_all.mpr (managed.of_same rfl))
  exact folded _ c within

end PoolsAre

/-- Sections write no pool but the one they are said to. -/
theorem Commit.poolsAre {commit : Commit} {result : Section} (ran : commit.run c = .ok result)
    (within : PoolsAre among c)
    (new : ∀ pool, commit.writesPool c = some pool → among pool.name (snapshotKey pool)) :
    PoolsAre among result.cluster :=
  PoolsAre.iff_all.mpr (Commit.poolsAll ran (PoolsAre.iff_all.mp within) (fun _ known => known) new)

end

namespace System

/-- The pools that the step puts into the cluster: the one that its section writes, or those
that a new process finds in the database. -/
def putting [Crates] (s : System) : Label → List Pool
  | .restart _ _ => (s.database.cluster.getD Cluster.empty).pools.values
  | label =>
    match s.entering label with
    | none => []
    | some commit =>
      match commit.run s.cluster with
      | .ok _ => (commit.writesPool s.cluster).toList
      | .error _ => []

variable [Crates]

theorem poolsAre_step {s t : System} {label : Label} {among : String → String → Prop}
    (stepped : s.step label = some t) (within : PoolsAre among s.cluster)
    (new : ∀ pool ∈ s.putting label, among pool.name (snapshotKey pool)) : PoolsAre among
      t.cluster := by
  cases step_cases stepped with
  | performed _ commit others result _ _ entered ran =>
    refine Commit.poolsAre ran within (fun pool written => new pool ?_)
    have entering := entered.entering
    cases entered with
    | client => simp only [putting, entering, ran, written, Option.mem_toList]
    | handler => simp only [putting, entering, ran, written, Option.mem_toList]
  | called index op rest before after next there plain done =>
    exact within.of_same (congrArg Cluster.pools (runOp_frame plain done).1)
  | admitted => exact within.of_same (admitExecution_pools ..)
  | restarted fresh now cluster database _ served =>
    simp only [serve, Option.map_eq_some_iff, Prod.mk.injEq, Option.getD_none] at served
    obtain ⟨pruned, -, rfl, -⟩ := served
    have stored : PoolsAre among (s.database.cluster.getD Cluster.empty) := by
      intro name pool known
      have named := Keyed.key_of_get known
      subst named
      exact new pool (Keyed.mem_of_get known)
    exact (stored.migrateLegacy fresh).of_same rfl
  | _ => exact within

end System

/-! The node beside the controller. -/

/-- The execution and the pool that the reply brings to the node. -/
def Reply.brings (node : Uuid) : Reply → Option (Uuid × Pool)
  | .work target execution given _ => if target = node then some (execution.id, given) else none
  | _ => none

def Op.brings (node : Uuid) : Op → Option (Uuid × Pool)
  | .deliver target execution given => if target = node then some (execution.id, given) else none
  | _ => none

/-- The executions that a handler is about to bring to the node, each with its pool. -/
def Frame.works (node : Uuid) : Frame → List (Uuid × Pool)
  | .running ops reply => ops.filterMap (Op.brings node) ++ (reply.brings node).toList
  | _ => []

def Reply.handing (node : Uuid) : Reply → Option Pool
  | .work target _ given _ => if target = node then some given else none
  | _ => none

def Op.handing (node : Uuid) : Op → Option Pool
  | .deliver target _ given => if target = node then some given else none
  | _ => none

/-- The pools that a handler is about to hand to the node with an execution. -/
def Frame.handing (node : Uuid) : Frame → List Pool
  | .running ops reply => ops.filterMap (Op.handing node) ++ (reply.handing node).toList
  | _ => []

theorem Reply.handing_eq (node : Uuid) (reply : Reply) :
    reply.handing node = (reply.brings node).map Prod.snd := by
  cases reply with
  | work target execution given => by_cases here : target = node <;> simp [handing, brings, here]
  | _ => rfl

theorem Op.handing_eq (node : Uuid) (op : Op) : op.handing node = (op.brings node).map Prod.snd := by
  cases op with
  | deliver target execution given => by_cases here : target = node <;> simp [handing, brings, here]
  | _ => rfl

theorem Frame.mem_handing {node : Uuid} {frame : Frame} {pool : Pool} :
    pool ∈ frame.handing node ↔ ∃ id, (id, pool) ∈ frame.works node := by
  cases frame with
  | running ops reply =>
    simp only [handing, works, List.mem_append, List.mem_filterMap, Option.mem_toList,
      Op.handing_eq, Reply.handing_eq, Option.map_eq_some_iff, Prod.exists]
    constructor
    · rintro (⟨op, there, id, _, brings, rfl⟩ | ⟨id, _, brings, rfl⟩)
      · exact ⟨id, .inl ⟨op, there, brings⟩⟩
      · exact ⟨id, .inr brings⟩
    · rintro ⟨id, ⟨op, there, brings⟩ | brings⟩
      · exact .inl ⟨op, there, id, pool, brings, rfl⟩
      · exact .inr ⟨id, pool, brings, rfl⟩
  | _ => simp [handing, works]

namespace System

def handing (s : System) (node : Uuid) : List Pool := s.inflight.flatMap (Frame.handing node)

/-- The pool that goes to the node with this step. -/
def delivering (s : System) (node : Uuid) : Label → Option Pool
  | .op index _ =>
    match s.inflight[index]? with
    | some (.running [] reply) => reply.handing node
    | _ => none
  | _ => none

theorem mem_handing {s : System} {node : Uuid} {pool : Pool} :
    pool ∈ s.handing node ↔ ∃ frame ∈ s.inflight, pool ∈ frame.handing node := List.mem_flatMap

theorem delivering_mem {s : System} {node : Uuid} {label : Label} {pool : Pool}
    (given : s.delivering node label = some pool) : pool ∈ s.handing node := by
  unfold delivering at given
  split at given
  · split at given
    · rename_i reply there
      exact mem_handing.mpr ⟨_, List.mem_of_getElem? there, by simp [Frame.handing, given]⟩
    · cases given
  · cases given

/-- Only `next_work` brings an execution, with the pool that the cluster has. -/
theorem ending_works [Crates] {c : Cluster} {commit : Commit} {result : Section}
    (ending : Ending c commit result) {node : Uuid} {work : Uuid × Pool}
    (brings : work ∈ (Frame.running result.ops result.reply).works node) :
    ∃ execution now, commit = .nextWork node (some work.1) now ∧
      c.executions.get work.1 = some execution ∧ c.pools.get execution.pool = some work.2 ∧
      result.cluster = c.start work.1 now := by
  have quiet {reply : Reply} (other : reply.concerns = none) : reply.brings node = none := by
    cases reply <;> first | rfl | cases other
  cases ending with
  | saved same ops reply => simp [Frame.works, ops, Op.brings, quiet reply] at brings
  | scheduled d same reply other =>
    simp [Frame.works, scheduleAndSave, Op.brings, quiet other] at brings
  | unchanged reply other => simp [Frame.works, Op.brings, quiet other] at brings
  | restartPanicked | createPanicked | workPanicked =>
    simp [Frame.works, panicSection, Reply.brings] at brings
  | restarted | updated =>
    simp [Frame.works, finishEnvironment, Op.brings, Reply.brings] at brings
  | deletedEnvironment id environment present =>
    simp only [Frame.works, Reply.brings, Option.toList_none, List.append_nil,
      List.mem_filterMap] at brings
    obtain ⟨op, there, given⟩ := brings
    simp only [List.cons_append, List.mem_cons, List.mem_append, List.mem_map, List.not_mem_nil,
      or_false] at there
    rcases there with rfl | ⟨artifact, -, rfl⟩ | rfl <;> cases given
  | created | completed => simp [Frame.works, Op.brings, Reply.brings] at brings
  | worked target now execution found present known =>
    simp only [Frame.works, Op.brings, Reply.brings, List.filterMap_cons, List.filterMap_nil,
      Option.toList_none, List.append_nil] at brings
    split_ifs at brings with here
    · subst here
      obtain rfl := List.mem_singleton.mp brings
      exact ⟨execution, now, rfl, present, known, rfl⟩
    · cases brings

variable [Crates]

/-- A call brings what it was about to. -/
theorem runOp_works {s next : System} {op : Op} {rest : List Op} {was now : Reply}
    (plain : op.inserts = false)
    (done : s.runOp rest was op = some (next, rest, now)) {node : Uuid} {work : Uuid × Pool}
    (brings : work ∈ (Frame.running rest now).works node) : work ∈
      (Frame.running (op :: rest) was).works node := by
  have kept (same : now = was) : work ∈ (Frame.running (op :: rest) was).works node := by
    subst same
    simp only [Frame.works, List.mem_append, List.filterMap_cons] at brings ⊢
    refine brings.imp_left (fun later => ?_)
    split
    · exact later
    · exact List.mem_cons_of_mem _ later
  cases op with
  | insertExecution => cases plain
  | deliver target execution given =>
    simp only [runOp, Option.map_eq_some_iff, Prod.mk.injEq] at done
    obtain ⟨secrets, -, -, -, rfl⟩ := done
    simp only [Frame.works, Reply.brings, Op.brings, List.mem_append,
      List.filterMap_cons] at brings ⊢
    left
    split_ifs at brings ⊢
    · exact brings.elim (List.mem_cons_of_mem _) (fun new => by
        simpa using .inl (List.mem_singleton.mp new))
    · exact brings.elim (fun later => later) (fun none => by cases none)
  | completeExecution execution =>
    simp only [runOp, Option.map_eq_some_iff, Prod.mk.injEq] at done
    obtain ⟨_, _, _, _, same⟩ := done
    exact kept same.symm
  | _ =>
    simp only [runOp, Option.some.injEq, Prod.mk.injEq] at done
    exact kept done.2.2.symm

omit [Crates] in
theorem admitExecution_works (execution : Execution) (queue : Bool) (c : Cluster) (node : Uuid) :
    (Frame.running (admitExecution execution queue c).ops
      (admitExecution execution queue c).reply).works node = [] := by
  unfold admitExecution
  dsimp only
  split
  · rfl
  · split_ifs <;> rfl

/-- What a handler brings to the node it was about to bring before the step, or it is the execution that the
step starts there. -/
theorem works_step {s t : System} {label : Label} (stepped : s.step label = some t) {node : Uuid}
    {frame : Frame} (there : frame ∈ t.inflight) {work : Uuid × Pool}
    (brings : work ∈ frame.works node) :
    (∃ before ∈ s.inflight, work ∈ before.works node) ∨
      ∃ execution now, s.cluster.executions.get work.1 = some execution ∧
        execution.node = some node ∧ s.cluster.pools.get execution.pool = some work.2 ∧
        t.cluster = s.cluster.start work.1 now := by
  cases step_cases stepped with
  | refused _ others error fewer => exact .inl ⟨frame, fewer.subset there, brings⟩
  | authenticated | started | importing =>
    rcases List.mem_append.mp there with old | new
    · exact .inl ⟨frame, old, brings⟩
    · obtain rfl := List.mem_singleton.mp new
      cases brings
  | performed _ commit others result free allowed entered ran =>
    rcases List.mem_append.mp there with old | new
    · exact .inl ⟨frame, entered.fewer.subset old, brings⟩
    · obtain rfl := List.mem_singleton.mp new
      obtain ⟨execution, now, rfl, present, known, same⟩ := ending_works (Commit.ending ran) brings
      have fits := fits_of_allows allowed
      simp only [Commit.choiceFits, present, Option.any_some, assignedTo, Bool.and_eq_true,
        decide_eq_true_eq] at fits
      exact .inr ⟨execution, now, present, fits.1, known, same⟩
  | declined _ commit others error entered =>
      exact .inl ⟨frame, entered.fewer.subset there, brings⟩
  | prepared index event job next files old done =>
    rcases List.mem_or_eq_of_mem_set there with stays | rfl
    · exact .inl ⟨frame, stays, brings⟩
    · cases brings
  | answered | failed => exact .inl ⟨frame, (List.eraseIdx_sublist _ _).subset there, brings⟩
  | ignored index artifact rest reply old =>
    rcases List.mem_or_eq_of_mem_set there with stays | rfl
    · exact .inl ⟨frame, stays, brings⟩
    · exact .inl ⟨_, List.mem_of_getElem? old, brings⟩
  | called index op rest was now next old plain done =>
    rcases List.mem_or_eq_of_mem_set there with stays | rfl
    · exact .inl ⟨frame, stays, brings⟩
    · exact .inl ⟨_, List.mem_of_getElem? old, runOp_works plain done brings⟩
  | admitted index execution secrets queue rest was database old stored =>
    rcases List.mem_or_eq_of_mem_set there with stays | rfl
    · exact .inl ⟨frame, stays, brings⟩
    · rw [admitExecution_works] at brings
      cases brings
  | rejected index execution secrets queue rest was database old stored =>
    rcases List.mem_or_eq_of_mem_set there with stays | rfl
    · exact .inl ⟨frame, stays, brings⟩
    · cases brings
  | restarted => cases there
  | _ => exact .inl ⟨frame, there, brings⟩

/-- The pools that go to the node are those of the cluster. -/
theorem handing_step {s t : System} {label : Label} (stepped : s.step label = some t)
    {node : Uuid} {pool : Pool}
    (member : pool ∈ t.handing node) :
    pool ∈ s.handing node ∨ (∃ name, s.cluster.pools.get name = some pool) ∧
      t.cluster.pools = s.cluster.pools := by
  obtain ⟨frame, there, inside⟩ := mem_handing.mp member
  obtain ⟨id, brings⟩ := Frame.mem_handing.mp inside
  rcases works_step stepped there brings with
    ⟨before, old, had⟩ | ⟨execution, now, -, -, known, same⟩
  · exact .inl (mem_handing.mpr ⟨before, old, Frame.mem_handing.mpr ⟨id, had⟩⟩)
  · exact .inr ⟨⟨_, known⟩, by rw [same, Cluster.start]⟩

end System

/-- The controller and one of its nodes. -/
structure Fleet where
  system : System
  process : NodeProcess

inductive FleetLabel where
  | controller (label : Label)
  | node (event : NodeEvent)

/-- `GET /v1/pools` reads the cluster, so it waits for the lock. -/
def NodeEvent.reads : NodeEvent → Bool
  | .list => true
  | _ => false

namespace Fleet

section
variable [Crates]

/-- A step of the controller, which may hand an execution to the node, or of the node. -/
def step (node : Uuid) (f : Fleet) : FleetLabel → Option Fleet
  | .controller label =>
    (f.system.step label).map (fun system =>
      ⟨system, { f.process with tasks := f.process.tasks ++
        ((f.system.delivering node label).map Task.received).toList }⟩)
  | .node event =>
    if event.reads && f.system.locked then none
    else (f.process.step f.system.cluster.pools.values event).map
      (fun process => ⟨f.system, process⟩)

/-- The copies of pools that the node has or is about to get. -/
def copies (node : Uuid) (f : Fleet) : List Pool := f.process.copies ++ f.system.handing node

/-- A pool is put into the cluster only while the node has no copy of a pool with the same name and another
snapshot key. -/
def KeepsKeys (node : Uuid) (f : Fleet) : FleetLabel → Prop
  | .controller label =>
    ∀ pool ∈ f.system.putting label, ∀ copy ∈ f.copies node, copy.name = pool.name →
      snapshotKey copy = snapshotKey pool
  | .node _ => True

instance (node : Uuid) (f : Fleet) : (label : FleetLabel) → Decidable (KeepsKeys node f label)
  | .controller label => inferInstanceAs
      (Decidable (∀ pool ∈ f.system.putting label, ∀ copy ∈ f.copies node,
      copy.name = pool.name → snapshotKey copy = snapshotKey pool))
  | .node _ => isTrue trivial

/-- Among the copies and the cluster's pools, a name has one snapshot key. -/
structure Apart (copies : List Pool) (c : Cluster) : Prop where
  current : PoolsAre (fun name key => ∀ copy ∈ copies, copy.name = name → snapshotKey copy = key) c
  alike : ∀ pool ∈ copies, ∀ other ∈ copies, pool.name = other.name →
    snapshotKey pool = snapshotKey other

/-- New copies that are taken from the cluster's pools change nothing. -/
theorem Apart.widen {before after : List Pool} {c d : Cluster} (apart : Apart before c)
    (current : PoolsAre (fun name key => ∀ copy ∈ before, copy.name = name →
      snapshotKey copy = key) d)
    (more : ∀ pool ∈ after, pool ∈ before ∨ (∃ name, c.pools.get name = some pool) ∧
      d.pools = c.pools) :
    Apart after d := by
  have own {name : String} {pool : Pool}
    (known : c.pools.get name = some pool) : c.pools.get pool.name = some pool := by
    rw [Keyed.key_of_get known]
    exact known
  refine ⟨fun name pool known copy member named => ?_, fun pool member other also named => ?_⟩
  · rcases more copy member with old | ⟨⟨_, there⟩, same⟩
    · exact current name pool known copy old named
    · rw [same, ← named, own there] at known
      exact congrArg snapshotKey (Option.some.inj known)
  · rcases more pool member with old | ⟨⟨_, there⟩, same⟩ <;>
      rcases more other also with old' | ⟨⟨_, there'⟩, -⟩
    · exact apart.alike pool old other old' named
    · exact apart.current _ other (own there') pool old named
    · exact (apart.current _ pool (own there) other old' named.symm).symm
    · have same : c.pools.get pool.name = some other := named ▸ own there'
      rw [own there] at same
      exact congrArg snapshotKey (Option.some.inj same)

/-- The invariant: names stand for snapshots, and every machine was restored from that of its pool. -/
structure Faithful (node : Uuid) (f : Fleet) : Prop where
  apart : Apart (f.copies node) f.system.cluster
  restored : ∀ vm ∈ f.process.machines, vm.restored = snapshotKey vm.pool
  named : ∀ task ∈ f.process.tasks, ∀ vm, task.vm = some vm → vm.pool.name = task.pool.name

/-- Nothing is in flight, and the node has just registered. -/
structure Started (f : Fleet) : Prop where
  quiet : f.system.inflight = []
  registered : f.process = NodeProcess.started f.process.vms.cpuMillis f.process.vms.memoryMib

theorem Started.faithful {f : Fleet} (started : Started f) (node : Uuid) : Faithful node f := by
  have bare : f.copies node = [] := by
    unfold copies
    rw [started.registered]
    simp [System.handing, started.quiet, NodeProcess.copies, NodeProcess.machines,
      NodeProcess.started, Beat.vms, Beat.pools]
  refine ⟨⟨?_, ?_⟩, ?_, ?_⟩
  · rw [bare]
    intro _ _ _ _ member
    cases member
  · rw [bare]
    intro _ member
    cases member
  · rw [started.registered]
    intro _ member
    cases member
  · rw [started.registered]
    intro _ member
    cases member

/-- An execution that arrives brings a pool that was on its way. -/
theorem Faithful.controller {node : Uuid} {f g : Fleet} {label : Label} (faithful : Faithful node f)
    (keeps : KeepsKeys node f (.controller label))
    (stepped : f.step node (.controller label) = some g) :
    Faithful node g := by
  obtain ⟨system, done, rfl⟩ := Option.map_eq_some_iff.mp stepped
  have arrived {task : Task} (member : task ∈
    ((f.system.delivering node label).map Task.received).toList) :
      task.vm = none ∧ task.pool ∈ f.system.handing node := by
    obtain ⟨pool, given, rfl⟩ := Option.map_eq_some_iff.mp (Option.mem_toList.mp member)
    exact ⟨rfl, System.delivering_mem given⟩
  have tasks {task : Task}
      (member : task ∈ f.process.tasks ++
        ((f.system.delivering node label).map Task.received).toList) :
      task ∈ f.process.tasks ∨ task.vm = none ∧ task.pool ∈ f.system.handing node :=
    (List.mem_append.mp member).imp_right arrived
  have machines {vm : Vm} (member : vm ∈ NodeProcess.machines { f.process with
      tasks := f.process.tasks ++ ((f.system.delivering node label).map Task.received).toList }) :
      vm ∈ f.process.machines := by
    rcases NodeProcess.mem_machines.mp member with idle | ⟨task, there, same⟩ | held
    · exact NodeProcess.mem_machines.mpr (.inl idle)
    · rcases tasks there with before | ⟨none, -⟩
      · exact NodeProcess.mem_machines.mpr (.inr (.inl ⟨task, before, same⟩))
      · rw [none] at same
        cases same
    · exact NodeProcess.mem_machines.mpr (.inr (.inr held))
  refine ⟨faithful.apart.widen ?_ ?_, fun vm member => faithful.restored vm (machines member), ?_⟩
  · exact System.poolsAre_step done faithful.apart.current keeps
  · intro pool member
    rcases List.mem_append.mp member with held | given
    · refine .inl (List.mem_append.mpr ?_)
      rcases NodeProcess.mem_copies.mp held with ⟨vm, there, same⟩ | ⟨task, there, rfl⟩ | beat
      · exact .inl (NodeProcess.mem_copies.mpr (.inl ⟨vm, machines there, same⟩))
      · exact (tasks there).imp (fun before => NodeProcess.copy_of_task before) (fun new => new.2)
      · exact .inl (NodeProcess.copy_of_beat beat)
    · exact (System.handing_step done given).imp_left (List.mem_append_right _)
  · intro task member vm same
    rcases tasks member with before | ⟨none, -⟩
    · exact faithful.named task before vm same
    · rw [none] at same
      cases same

/-- The node takes up pools of the cluster, and relabels machines with pools of the same name. -/
theorem Faithful.event {node : Uuid} {f g : Fleet} {event : NodeEvent} (faithful : Faithful node f)
    (stepped : f.step node (.node event) = some g) : Faithful node g := by
  simp only [step] at stepped
  split_ifs at stepped
  obtain ⟨process, done, rfl⟩ := Option.map_eq_some_iff.mp stepped
  have follows := NodeProcess.step_follows done
  refine ⟨faithful.apart.widen faithful.apart.current ?_, ?_, ?_⟩
  · intro pool member
    rcases List.mem_append.mp member with held | given
    · rcases follows.copies held with before | listed
      · exact .inl (List.mem_append_left _ before)
      · exact .inr ⟨⟨pool.name, (Keyed.mem_values_iff _ _).mp listed⟩, rfl⟩
    · exact .inl (List.mem_append_right _ given)
  · intro vm member
    obtain ⟨copy, same | ⟨old, there, kept, named⟩⟩ := follows.machines member
    · exact same
    · have before : old.pool ∈ f.copies node :=
        List.mem_append_left _ (NodeProcess.mem_copies.mpr (.inl ⟨old, there, rfl⟩))
      calc
        vm.restored = old.restored := kept.symm
        _ = snapshotKey old.pool := faithful.restored old there
        _ = snapshotKey vm.pool := faithful.apart.alike _ before _
          (List.mem_append_left _ copy) named
  · intro task member vm same
    rcases follows.named task member vm same with before | named
    · exact faithful.named task before vm same
    · exact named

/-- In every run in which no pool name gets another snapshot key while the node has a copy of it, each idle machine
was restored from the snapshot of its pool, and so is the one that an execution gets or runs on. -/
theorem machines_serve_own_pool {node : Uuid} {start f : Fleet} (started : Started start)
    (run : Runs.Reaches (step node) (KeepsKeys node) start f) :
    (∀ vm ∈ f.process.vms.idle, vm.restored = snapshotKey vm.pool) ∧
      (∀ pool, Task.received pool ∈ f.process.tasks →
        ∀ vm vms, f.process.vms.acquire pool = .ok (some vm, vms) →
        vm.restored = snapshotKey pool) ∧
      ∀ pool vm, Task.running pool vm ∈ f.process.tasks → vm.restored = snapshotKey pool := by
  have faithful : Faithful node f := by
    refine run.invariant (started.faithful node) (fun faithful keeps stepped => ?_)
    rename_i label
    cases label with
    | controller label => exact faithful.controller keeps stepped
    | node event => exact faithful.event stepped
  have idle {vm : Vm} (member : vm ∈ f.process.vms.idle) : vm ∈ f.process.machines :=
    NodeProcess.mem_machines.mpr (.inl member)
  have serves {vm : Vm} (task : Task) (there : vm ∈ f.process.machines)
    (member : task ∈ f.process.tasks)
      (named : vm.pool.name = task.pool.name) : vm.restored = snapshotKey task.pool :=
    (faithful.restored vm there).trans (faithful.apart.alike _
      (List.mem_append_left _ (NodeProcess.mem_copies.mpr (.inl ⟨vm, there, rfl⟩))) _
      (List.mem_append_left _ (NodeProcess.copy_of_task member)) named)
  refine ⟨fun vm member => faithful.restored vm (idle member),
    fun pool member vm vms acquired => ?_,
    fun pool vm member => ?_⟩
  · obtain ⟨there, named⟩ := (VmState.acquire_eq_ok acquired).1 vm rfl
    exact serves (.received pool) (idle there) member named
  · exact serves (.running pool vm)
      (NodeProcess.mem_machines.mpr (.inr (.inl ⟨_, member, rfl⟩))) member
      (faithful.named _ member vm rfl)

end
end Fleet

namespace Demo

/-- A controller without anything and a node that has just registered. -/
def fleet : Fleet := ⟨empty, NodeProcess.started 4000 4000⟩

/-- A pool that keeps one machine warm. -/
def warmPool (memoryMib : Nat) : Pool :=
  ⟨"p", plainImage.id, 1, none, 200, memoryMib, 1, 60, 60, true, false, [], none, none, none, []⟩

/-- The pool is created, and the node's heartbeat starts its machine. -/
def heartbeats : List FleetLabel :=
  (installation ++ request 0 (.createPool (warmPool 256)) 2).map .controller ++
    [.node .list, .node (.sync []), .node .relabel, .node .take, .node .retain, .node (.ask true),
      .node (.warm (some 9) 0)] ++
    (nodeRequest 0 (.addWarmInstance "p") 3).map .controller ++
      [.node (.offer true), .node (.ask false), .node .rest]

/-- A client deletes the pool and creates one with more memory under its name; the next heartbeat follows. -/
def replacing : List FleetLabel :=
  (request 0 (.deletePool "p") 2 ++ request 0 (.createPool (warmPool 512)) 2).map .controller ++
    [.node .list, .node (.sync []), .node .relabel]

end Demo

namespace Fleet

/-- The machine that the heartbeat has started waits for executions of its pool. -/
theorem machines_serve_own_pool_warmed :
    ∃ vm : Vm, vm.pool = Demo.warmPool 256 ∧ vm.restored = @snapshotKey Demo.crates vm.pool := by
  obtain ⟨f, run, there⟩ := Runs.exists_reaches (@step Demo.crates Demo.node)
    (@KeepsKeys Demo.crates Demo.node) Demo.fleet
    Demo.heartbeats (fun f => f.process.vms.idle.any (fun vm =>
      decide (vm.pool = Demo.warmPool 256))) (by decide +kernel)
  obtain ⟨vm, member, same⟩ := List.any_eq_true.mp there
  have serves := @machines_serve_own_pool Demo.crates Demo.node Demo.fleet f ⟨rfl, rfl⟩ run
  exact ⟨vm, of_decide_eq_true same, serves.1 vm member⟩

/-- A pool that is deleted and created anew with more memory takes over the machine of the old one. -/
theorem machine_relabelled :
    ¬ ∀ [Crates] (node : Uuid) (start f : Fleet), Started start →
      Runs.Reaches (step node) (fun _ _ => True) start f →
      ∀ vm ∈ f.process.vms.idle, vm.restored = snapshotKey vm.pool := by
  intro claim
  obtain ⟨f, run, there⟩ := Runs.exists_reaches (@step Demo.crates Demo.node)
    (fun _ _ => True) Demo.fleet
    (Demo.heartbeats ++ Demo.replacing)
    (fun f => f.process.vms.idle.any (fun vm =>
      decide (vm.restored ≠ @snapshotKey Demo.crates vm.pool)))
    (by decide +kernel)
  obtain ⟨vm, member, differs⟩ := List.any_eq_true.mp there
  exact of_decide_eq_true differs
    (@claim Demo.crates Demo.node Demo.fleet f ⟨rfl, rfl⟩ run vm member)

end Fleet
end Scraperack
