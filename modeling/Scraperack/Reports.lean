import Scraperack.Expiry
import Scraperack.Runs

/-! What a node reports of its virtual machines. The idle ones are in a list. Those that run have their
reports in a map, into which `run_execution` puts a machine some time after it has got it, and from
which it takes the machine some time before it gives it back. -/

namespace Scraperack.Reports

/-- What a report has from the process of a virtual machine and from its lease. -/
structure Host where
  pid : Option Nat
  guestIp : Option (BitVec 32)
  ports : List PublishedPort

structure Board where
  process : NodeProcess
  /-- The values of `running`. -/
  running : List MicroVm
  /-- Ghost: the virtual machines there ever were. -/
  issued : List Uuid

inductive Label where
  /-- The `Work` of an execution arrives. -/
  | receive (pool : Pool)
  | node (pools : List Pool) (event : NodeEvent)
  | insert (index : Nat) (execution : Uuid)
  | remove (index : Nat)

def idleReport (host : Uuid → Host) (vm : Vm) : MicroVm :=
  { id := vm.id
    pool := vm.pool.name
    status := .idle
    execution := none
    pid := (host vm.id).pid
    cpuMillis := vm.pool.cpuMillis
    memoryMib := vm.pool.memoryMib
    guestIp := (host vm.id).guestIp
    ports := (host vm.id).ports
    environment := vm.pool.environment }

/-- The report that `run_execution` inserts; the pool is that of the `Work`. -/
def runningReport (host : Uuid → Host) (pool : Pool) (vm : Vm) (execution : Uuid) : MicroVm :=
  { id := vm.id
    pool := pool.name
    status := .running
    execution := some execution
    pid := (host vm.id).pid
    cpuMillis := pool.cpuMillis
    memoryMib := pool.memoryMib
    guestIp := (host vm.id).guestIp
    ports := (host vm.id).ports
    environment := pool.environment }

/-- The virtual machine that the event starts. -/
def issues : NodeEvent → Option Uuid
  | .start _ vm _ | .warm vm _ => vm
  | _ => none

namespace Board

/-- `reports`. -/
def reports (host : Uuid → Host) (b : Board) : List MicroVm :=
  (b.process.vms.idle.map (idleReport host) ++ b.running).mergeSort
    (fun one other => decide (one.id.toNat ≤ other.id.toNat))

def without (b : Board) (id : Uuid) : List MicroVm :=
  b.running.filter (fun report => report.id ≠ id)

/-- An execution gives its virtual machine back, or destroys it, when it is not reported. -/
def clear (b : Board) : NodeEvent → Bool
  | .finish index .. =>
    match b.process.tasks[index]? with
    | some (.running _ vm) => b.running.all (fun report => report.id ≠ vm.id)
    | _ => true
  | _ => true

/-- The map is empty when the process starts anew. -/
def left (b : Board) : NodeEvent → List MicroVm
  | .renew => []
  | _ => b.running

def step [Crates] (host : Uuid → Host) (b : Board) : Label → Option Board
  | .receive pool =>
    some { b with process := { b.process with tasks := b.process.tasks ++ [.received pool] } }
  | .node pools event =>
    if b.clear event = true then
      (b.process.step pools event).map (fun process =>
        { process := process
          running := b.left event
          issued := (issues event).toList ++ b.issued })
    else none
  | .insert index execution =>
    match b.process.tasks[index]? with
    | some (.running pool vm) =>
      some { b with running := runningReport host pool vm execution :: b.without vm.id }
    | _ => none
  | .remove index =>
    match b.process.tasks[index]? with
    | some (.running _ vm) => some { b with running := b.without vm.id }
    | _ => none

end Board

/-- `Uuid::new_v4` gives no identifier twice. -/
def Fresh (b : Board) : Label → Prop
  | .node _ event => (issues event).all (fun id => b.issued.all (fun used => used ≠ id)) = true
  | _ => True

instance (b : Board) (label : Label) : Decidable (Fresh b label) :=
  match label with
  | .node .. => inferInstanceAs (Decidable (_ = true))
  | .receive _ | .insert .. | .remove _ => inferInstanceAs (Decidable True)

/-! The node neither loses count of a virtual machine nor has it twice. -/

/-- How often the virtual machine is among these. -/
def number (id : Uuid) (vms : List Vm) : Nat := (vms.map Vm.id).count id

section
variable {process next : NodeProcess} {pools : List Pool} {event : NodeEvent}

@[simp] theorem number_nil (id : Uuid) : number id [] = 0 := rfl

@[simp] theorem number_append (id : Uuid) (vms more : List Vm) :
    number id (vms ++ more) = number id vms + number id more := by
  simp [number]

theorem number_cons (id : Uuid) (vm : Vm) (vms : List Vm) :
    number id (vm :: vms) = number id [vm] + number id vms :=
  number_append id [vm] vms

theorem number_perm (id : Uuid) {vms more : List Vm} (perm : vms.Perm more) :
    number id vms = number id more :=
  (perm.map Vm.id).count_eq id

theorem number_machines (id : Uuid) (process : NodeProcess) :
    number id process.machines = number id process.vms.idle +
      number id (process.tasks.filterMap Task.vm) + number id process.beat.vms := by
  simp [NodeProcess.machines, Nat.add_assoc]

theorem number_tasks (id : Uuid) {tasks : List Task} {index : Nat} {old : Task}
    (there : tasks[index]? = some old) :
    number id (tasks.filterMap Task.vm) =
      number id old.vm.toList + number id ((tasks.eraseIdx index).filterMap Task.vm) := by
  obtain ⟨inside, rfl⟩ := List.getElem?_eq_some_iff.mp there
  rw [← number_perm id ((List.getElem_cons_eraseIdx_perm inside).filterMap Task.vm),
    List.filterMap_cons]
  cases tasks[index].vm with
  | none => simp
  | some vm => exact number_cons id vm _

theorem number_set (id : Uuid) {tasks : List Task} {index : Nat} {old : Task}
    (there : tasks[index]? = some old) (task : Task) :
    number id ((tasks.set index task).filterMap Task.vm) =
      number id task.vm.toList + number id ((tasks.eraseIdx index).filterMap Task.vm) := by
  have inside := (List.getElem?_eq_some_iff.mp there).1
  rw [number_tasks id (List.getElem?_set_self inside), List.eraseIdx_set_eq]

theorem heartbeat_number [Crates] (id : Uuid)
    (stepped : process.heartbeat pools event = some next) :
    number id next.machines ≤ (issues event).toList.count id + number id process.machines := by
  simp only [number_machines]
  cases event with
  | list | sync =>
    simp only [NodeProcess.heartbeat] at stepped
    split at stepped <;> cases stepped
    simp_all [Beat.vms]
  | relabel =>
    simp only [NodeProcess.heartbeat] at stepped
    split at stepped <;> cases stepped
    rename_i ready synced
    have fewer : number id (relabel ready process.vms.idle) ≤ number id process.vms.idle := by
      rw [number, number, Pass.relabel_ids]
      exact (List.filter_sublist.map Vm.id).count_le id
    simp only [synced, Beat.vms, issues]
    omega
  | take =>
    simp only [NodeProcess.heartbeat] at stepped
    split at stepped <;> cases stepped
    rename_i ready relabelled
    simp only [relabelled, Beat.vms, List.append_nil, number_nil]
    omega
  | trim release now =>
    simp only [NodeProcess.heartbeat] at stepped
    split at stepped
    · rename_i ready idle retained trimming
      obtain ⟨vm, last, rfl⟩ := Option.map_eq_some_iff.mp stepped
      have whole : idle.dropLast ++ [vm] = idle := List.dropLast_append_getLast? vm last
      have same : number id [vm.trimmed now] = number id [vm] := by
        unfold Vm.trimmed
        split_ifs <;> rfl
      simp only [trimming, Beat.vms]
      rw [← whole]
      have first := number_cons id vm retained
      cases release <;> simp [same, first] <;> omega
    · cases stepped
  | retain =>
    simp only [NodeProcess.heartbeat] at stepped
    split at stepped <;> cases stepped
    rename_i ready retained trimming
    simp only [trimming, Beat.vms, List.nil_append, number_append, number_nil]
    omega
  | ask needed =>
    simp only [NodeProcess.heartbeat] at stepped
    split at stepped <;> cases stepped
    rename_i pool rest warming
    simp only [warming, Beat.vms]
    split
    · rename_i vms reserved
      have same : vms.idle = process.vms.idle := by
        split_ifs at reserved
        unfold VmState.reserveWarm at reserved
        split_ifs at reserved
        cases reserved
        rfl
      simp [same]
    · simp
  | warm vm now =>
    simp only [NodeProcess.heartbeat] at stepped
    split at stepped <;> cases stepped
    rename_i pool rest starting
    simp only [starting, Beat.vms, issues]
    cases vm with
    | none => simp [VmState.release]
    | some vm =>
      simp only [Option.toList_some, number, startVm, List.map_cons, List.map_nil]
      omega
  | offer accepted =>
    simp only [NodeProcess.heartbeat] at stepped
    split at stepped <;> cases stepped
    rename_i pool vm rest offering
    simp only [offering, Beat.vms]
    cases accepted <;> simp [VmState.release] <;> omega
  | rest =>
    simp only [NodeProcess.heartbeat] at stepped
    split at stepped <;> cases stepped
    simp_all [Beat.vms]
  | _ => cases stepped

theorem execution_number [Crates] (id : Uuid)
    (stepped : process.execution event = some next) :
    number id next.machines ≤ (issues event).toList.count id + number id process.machines := by
  simp only [number_machines]
  cases event with
  | acquire index =>
    simp only [NodeProcess.execution] at stepped
    split at stepped
    · rename_i pool received
      have before := number_tasks id received
      simp only [Task.vm, Option.toList_none, number_nil, Nat.zero_add] at before
      obtain rfl := Option.some.inj stepped
      split
      · simp [before]
      · rename_i vms acquired
        have idle := number_perm id (VmState.acquire_idle acquired)
        simp only [number_set id received, Task.vm]
        simp only [number_append] at idle
        simp [before] at idle ⊢
        omega
      · rename_i vm vms acquired
        have idle := number_perm id (VmState.acquire_idle acquired)
        simp only [number_set id received, Task.vm]
        simp only [number_append] at idle
        simp [before] at idle ⊢
        omega
    · cases stepped
  | start index vm now =>
    simp only [NodeProcess.execution] at stepped
    split at stepped
    · rename_i pool starting
      have before := number_tasks id starting
      simp only [Task.vm, Option.toList_none, number_nil, Nat.zero_add] at before
      obtain rfl := Option.some.inj stepped
      cases vm with
      | none => simp [VmState.release, before]
      | some vm =>
        have new : number id [startVm vm pool now] = [vm].count id := rfl
        simp only [number_set id starting, Task.vm, issues, Option.toList_some, new]
        omega
    · cases stepped
  | finish index healthy now =>
    simp only [NodeProcess.execution] at stepped
    split at stepped
    · rename_i pool vm running
      have before := number_tasks id running
      simp only [Task.vm, Option.toList_some] at before
      obtain rfl := Option.some.inj stepped
      have same : number id [{ vm with lastUsed := now }] = number id [vm] := rfl
      simp only [VmState.release]
      split_ifs <;> simp [same] <;> omega
    · cases stepped
  | abandon index =>
    simp only [NodeProcess.execution] at stepped
    split at stepped
    · rename_i pool received
      have before := number_tasks id received
      simp only [Task.vm, Option.toList_none, number_nil, Nat.zero_add] at before
      obtain rfl := Option.some.inj stepped
      simp [before]
    · cases stepped
  | _ => cases stepped

theorem step_either [Crates] (stepped : process.step pools event = some next)
    (alive : event ≠ .renew) :
    process.heartbeat pools event = some next ∨ process.execution event = some next := by
  have either : (process.heartbeat pools event).or (process.execution event) = some next := by
    cases event <;> first | exact stepped | exact absurd rfl alive
  rcases Option.or_eq_some_iff.mp either with beat | ⟨-, work⟩
  · exact .inl beat
  · exact .inr work

theorem step_number [Crates] (id : Uuid) (stepped : process.step pools event = some next) :
    number id next.machines ≤ (issues event).toList.count id + number id process.machines := by
  by_cases renewed : event = .renew
  · subst renewed
    obtain rfl := Option.some.inj stepped
    exact Nat.zero_le _
  · rcases step_either stepped renewed with beat | work
    · exact heartbeat_number id beat
    · exact execution_number id work

/-! An execution that has a virtual machine keeps it until it finishes. -/

theorem mem_others {tasks : List Task} {index : Nat} {old task : Task}
    (there : tasks[index]? = some old) (member : task ∈ tasks) (other : old ≠ task) :
    task ∈ tasks.eraseIdx index ∧ ∀ new, task ∈ tasks.set index new := by
  obtain ⟨place, found⟩ := List.mem_iff_getElem?.mp member
  have apart : place ≠ index := by
    rintro rfl
    exact other (Option.some.inj (there.symm.trans found))
  refine ⟨List.mem_eraseIdx_iff_getElem?.mpr ⟨place, apart, found⟩, fun new => ?_⟩
  exact List.mem_iff_getElem?.mpr ⟨place, by rw [List.getElem?_set_ne apart.symm, found]⟩

theorem heartbeat_tasks [Crates] (stepped : process.heartbeat pools event = some next) :
    next.tasks = process.tasks := by
  cases event with
  | trim release now =>
    simp only [NodeProcess.heartbeat] at stepped
    split at stepped
    · obtain ⟨vm, -, rfl⟩ := Option.map_eq_some_iff.mp stepped
      rfl
    · cases stepped
  | ask needed =>
    simp only [NodeProcess.heartbeat] at stepped
    split at stepped <;> cases stepped
    split <;> rfl
  | warm vm now =>
    simp only [NodeProcess.heartbeat] at stepped
    split at stepped <;> cases stepped
    cases vm <;> rfl
  | offer accepted =>
    simp only [NodeProcess.heartbeat] at stepped
    split at stepped <;> cases stepped
    cases accepted <;> rfl
  | list | sync | relabel | take | retain | rest =>
    simp only [NodeProcess.heartbeat] at stepped
    split at stepped <;> cases stepped
    rfl
  | _ => cases stepped

theorem execution_tasks [Crates] {pool : Pool} {vm : Vm}
    (stepped : process.execution event = some next) (member : Task.running pool vm ∈ process.tasks)
    (unfinished : ∀ index healthy now other, event = .finish index healthy now →
      process.tasks[index]? = some other → other ≠ .running pool vm) :
    Task.running pool vm ∈ next.tasks := by
  cases event with
  | acquire index =>
    simp only [NodeProcess.execution] at stepped
    split at stepped
    · rename_i received
      obtain ⟨erased, set⟩ := mem_others received member (fun same => by cases same)
      obtain rfl := Option.some.inj stepped
      split
      · exact erased
      · exact set _
      · exact set _
    · cases stepped
  | start index started now =>
    simp only [NodeProcess.execution] at stepped
    split at stepped
    · rename_i starting
      obtain ⟨erased, set⟩ := mem_others starting member (fun same => by cases same)
      obtain rfl := Option.some.inj stepped
      cases started with
      | none => exact erased
      | some id => exact set _
    · cases stepped
  | finish index healthy now =>
    simp only [NodeProcess.execution] at stepped
    split at stepped
    · rename_i running
      obtain rfl := Option.some.inj stepped
      exact (mem_others running member (unfinished index healthy now _ rfl running)).1
    · cases stepped
  | abandon index =>
    simp only [NodeProcess.execution] at stepped
    split at stepped
    · rename_i received
      obtain rfl := Option.some.inj stepped
      exact (mem_others received member (fun same => by cases same)).1
    · cases stepped
  | _ => cases stepped

theorem step_tasks [Crates] {pool : Pool} {vm : Vm} (stepped : process.step pools event = some next)
    (alive : event ≠ .renew) (member : Task.running pool vm ∈ process.tasks)
    (unfinished : ∀ index healthy now other, event = .finish index healthy now →
      process.tasks[index]? = some other → other ≠ .running pool vm) :
    Task.running pool vm ∈ next.tasks := by
  rcases step_either stepped alive with beat | work
  · exact heartbeat_tasks beat ▸ member
  · exact execution_tasks work member unfinished

end

/-! Runs. -/

section
variable {host : Uuid → Host} {b c : Board} {label : Label}

structure Kept (host : Uuid → Host) (b : Board) : Prop where
  once : ∀ id, number id b.process.machines ≤ 1
  issued : ∀ id, 0 < number id b.process.machines → id ∈ b.issued
  keys : (b.running.map MicroVm.id).Nodup
  running : ∀ report ∈ b.running, ∃ pool vm execution,
    Task.running pool vm ∈ b.process.tasks ∧ report = runningReport host pool vm execution

theorem Kept.without (kept : Kept host b) (id : Uuid) :
    Kept host { b with running := b.without id } where
  once := kept.once
  issued := kept.issued
  keys := kept.keys.sublist (List.filter_sublist.map MicroVm.id)
  running report member := kept.running report (List.mem_of_mem_filter member)

theorem Kept.insert {index : Nat} {pool : Pool} {vm : Vm} (kept : Kept host b)
    (there : b.process.tasks[index]? = some (.running pool vm)) (execution : Uuid) :
    Kept host
      { b with running := runningReport host pool vm execution :: b.without vm.id } where
  once := kept.once
  issued := kept.issued
  keys := by
    refine List.nodup_cons.mpr ⟨fun member => ?_, (kept.without vm.id).keys⟩
    obtain ⟨report, within, same⟩ := List.mem_map.mp member
    exact of_decide_eq_true (List.mem_filter.mp within).2 same
  running report member := by
    rcases List.mem_cons.mp member with rfl | earlier
    · exact ⟨pool, vm, execution, List.mem_of_getElem? there, rfl⟩
    · exact (kept.without vm.id).running report earlier

theorem Kept.receive (kept : Kept host b) (pool : Pool) :
    Kept host
      { b with process := { b.process with tasks := b.process.tasks ++ [.received pool] } } := by
  have same (id : Uuid) : number id
      ({ b.process with tasks := b.process.tasks ++ [.received pool] } : NodeProcess).machines =
        number id b.process.machines := by
    have vmless : [Task.received pool].filterMap Task.vm = [] := rfl
    rw [number_machines, number_machines, List.filterMap_append, vmless, List.append_nil]
  refine ⟨fun id => (same id).trans_le (kept.once id), fun id present => ?_, kept.keys,
    fun report member => ?_⟩
  · exact kept.issued id ((same id).symm ▸ present)
  · obtain ⟨own, vm, execution, there, shown⟩ := kept.running report member
    exact ⟨own, vm, execution, List.mem_append_left _ there, shown⟩

theorem Kept.node [Crates] {pools : List Pool} {event : NodeEvent} {next : NodeProcess}
    (kept : Kept host b) (fresh : Fresh b (.node pools event)) (clear : b.clear event = true)
    (stepped : b.process.step pools event = some next) :
    Kept host
      { process := next
        running := b.left event
        issued := (issues event).toList ++ b.issued } := by
  have bound (id : Uuid) := step_number id stepped
  have single (id : Uuid) : (issues event).toList.count id ≤ 1 := by
    cases issues event with
    | none => exact Nat.zero_le _
    | some other => exact List.count_le_length
  have unseen (id : Uuid) (new : 0 < (issues event).toList.count id) :
      number id b.process.machines = 0 := by
    have issued : issues event = some id :=
      Option.mem_toList.mp (List.count_pos_iff.mp new)
    have unused := fresh
    rw [Fresh, issued, Option.all_some, List.all_eq_true] at unused
    refine Nat.eq_zero_of_not_pos (fun present => ?_)
    exact of_decide_eq_true (unused id (kept.issued id present)) rfl
  by_cases renewed : event = .renew
  · subst renewed
    obtain rfl := Option.some.inj stepped
    exact ⟨fun _ => Nat.zero_le _, fun _ present => absurd present (lt_irrefl _), List.nodup_nil,
      nofun⟩
  have same : b.left event = b.running := by
    cases event <;> first | rfl | exact absurd rfl renewed
  rw [same]
  refine ⟨fun id => ?_, fun id present => ?_, kept.keys, fun report member => ?_⟩
  · have before := kept.once id
    have new := unseen id
    have one := single id
    have after := bound id
    dsimp only
    omega
  · rw [List.mem_append]
    by_cases new : 0 < (issues event).toList.count id
    · exact .inl (List.count_pos_iff.mp new)
    · have after := bound id
      dsimp only at present
      exact .inr (kept.issued id (by omega))
  · obtain ⟨pool, vm, execution, there, rfl⟩ := kept.running report member
    refine ⟨pool, vm, execution, step_tasks stepped renewed there ?_, rfl⟩
    rintro index healthy now other rfl found rfl
    rw [Board.clear, found] at clear
    exact of_decide_eq_true (List.all_eq_true.mp clear _ member) rfl

theorem Kept.step [Crates] (kept : Kept host b) (fresh : Fresh b label)
    (stepped : b.step host label = some c) :
    Kept host c := by
  cases label with
  | receive pool =>
    cases stepped
    exact kept.receive pool
  | node pools event =>
    simp only [Board.step] at stepped
    split_ifs at stepped with clear
    obtain ⟨next, done, rfl⟩ := Option.map_eq_some_iff.mp stepped
    exact kept.node fresh clear done
  | insert index execution =>
    simp only [Board.step] at stepped
    split at stepped <;> cases stepped
    exact kept.insert ‹_› execution
  | remove index =>
    simp only [Board.step] at stepped
    split at stepped <;> cases stepped
    exact kept.without _

/-- A node that has just registered. -/
def started (cpuMillis memoryMib : Nat) : Board :=
  ⟨NodeProcess.started cpuMillis memoryMib, [], []⟩

theorem started_kept (cpuMillis memoryMib : Nat) : Kept host (started cpuMillis memoryMib) :=
  ⟨fun _ => Nat.zero_le _, fun _ present => absurd present (lt_irrefl _), List.nodup_nil, nofun⟩

theorem number_pos {id : Uuid} {vms : List Vm} {vm : Vm} (member : vm ∈ vms) (same : vm.id = id) :
    0 < number id vms := List.count_pos_iff.mpr (List.mem_map.mpr ⟨vm, member, same⟩)

theorem Kept.distinct (kept : Kept host b) :
    ((b.process.vms.idle.map (idleReport host) ++ b.running).map MicroVm.id).Nodup := by
  have idle : (b.process.vms.idle.map (idleReport host)).map MicroVm.id =
      b.process.vms.idle.map Vm.id := by
    rw [List.map_map]
    rfl
  rw [List.map_append, idle]
  refine List.nodup_append.mpr ⟨List.nodup_iff_count_le_one.mpr (fun id => ?_), kept.keys, ?_⟩
  · have once := kept.once id
    rw [number_machines, number] at once
    omega
  · rintro id first _ second rfl
    obtain ⟨vm, member, same⟩ := List.mem_map.mp first
    obtain ⟨report, listed, own⟩ := List.mem_map.mp second
    obtain ⟨pool, other, execution, there, rfl⟩ := kept.running report listed
    have once := kept.once id
    have here := number_pos member same
    have held : other ∈ b.process.tasks.filterMap Task.vm :=
      List.mem_filterMap.mpr ⟨_, there, rfl⟩
    have also := number_pos held own
    rw [number_machines] at once
    omega

/-- Machines are reported once. Every report of a node lists its virtual machines by strictly ascending
identifier, so that none is there twice, as idle and as running or otherwise; all idle machines are
there, and every other report is of an execution that has the machine, with the pool of its work. -/
theorem machines_reported_once [Crates] {cpuMillis memoryMib : Nat}
    (run : Runs.Reaches (Board.step host) Fresh (started cpuMillis memoryMib) b) :
    (b.reports host).Pairwise (fun one other => one.id.toNat < other.id.toNat) ∧
      (∀ vm ∈ b.process.vms.idle, idleReport host vm ∈ b.reports host) ∧
      ∀ report ∈ b.reports host, (∃ vm ∈ b.process.vms.idle, report = idleReport host vm) ∨
        ∃ pool vm execution, Task.running pool vm ∈ b.process.tasks ∧
          report = runningReport host pool vm execution := by
  have kept := run.invariant (started_kept cpuMillis memoryMib)
    (fun kept fresh stepped => Kept.step kept fresh stepped)
  have listed (report : MicroVm) : report ∈ b.reports host ↔
      report ∈ b.process.vms.idle.map (idleReport host) ∨ report ∈ b.running := by
    rw [Board.reports, List.mem_mergeSort, List.mem_append]
  refine ⟨?_, fun vm member => (listed _).mpr (.inl (List.mem_map_of_mem member)), ?_⟩
  · have sorted : (b.reports host).Pairwise
        (fun one other => decide (one.id.toNat ≤ other.id.toNat)) :=
      List.pairwise_mergeSort
        (fun _ _ _ first second => decide_eq_true
          ((of_decide_eq_true first).trans (of_decide_eq_true second)))
        (fun one other => by
          rw [Bool.or_eq_true, decide_eq_true_eq, decide_eq_true_eq]
          exact le_total ..) _
    have distinct : ((b.reports host).map MicroVm.id).Nodup :=
      ((List.mergeSort_perm _ _).map MicroVm.id).nodup_iff.mpr kept.distinct
    refine (sorted.and (List.pairwise_map.mp distinct)).imp ?_
    rintro one other ⟨least, apart⟩
    exact lt_of_le_of_ne (of_decide_eq_true least) (fun same => apart (BitVec.eq_of_toNat_eq same))
  · intro report member
    rcases (listed report).mp member with idle | running
    · obtain ⟨vm, there, rfl⟩ := List.mem_map.mp idle
      exact .inl ⟨vm, there, rfl⟩
    · exact .inr (kept.running report running)

end

def host (_ : Uuid) : Host := ⟨none, none, []⟩

/-- Two executions get a virtual machine each, and one of them finishes. -/
def sharing : List Label :=
  [.receive Demo.minutePool, .node [] (.acquire 0), .node [] (.start 0 (some 7) 0),
    .receive Demo.minutePool, .node [] (.acquire 1), .node [] (.start 1 (some 3) 0), .insert 0 1,
    .insert 1 2, .remove 0, .node [] (.finish 0 true 1000)]

def shared : Board :=
  (Runs.exec (@Board.step Demo.crates host) Fresh (started 4000 4000) sharing).getD
    (started 4000 4000)

theorem machines_reported_once_shared :
    shared.process.vms.idle.map Vm.id = [7] ∧ shared.running.map MicroVm.id = [3] ∧
      (shared.reports host).Pairwise (fun one other => one.id.toNat < other.id.toNat) := by
  have run : Runs.Reaches (@Board.step Demo.crates host) Fresh (started 4000 4000) shared :=
    Runs.reaches_of_exec sharing rfl
  exact ⟨rfl, rfl, (@machines_reported_once host shared Demo.crates 4000 4000 run).1⟩

end Scraperack.Reports
