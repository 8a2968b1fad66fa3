import Scraperack.System

/-! The virtual machines of one node: those it keeps idle, those that run an execution and those that
its heartbeat has in hand. A machine is restored from the snapshot of a pool, and from then on goes
by the name of that pool. -/

namespace Scraperack
open Counters

/-- `snapshot_key`. -/
def snapshotKey [Crates] (pool : Pool) : String :=
  let preload :=
    if pool.preload = [] then ""
    else
      let digest := Crates.sha256 (pool.preload.flatMap (fun module => System.utf8 module ++ [0]))
      "-" ++ String.ofList (digest.toList.take 16)
  Uuid.hyphenated pool.image ++ "-" ++ toString (max ((pool.cpuMillis + 999) / 1000) 1) ++ "-" ++
    toString pool.memoryMib ++ "-" ++ (if pool.network then "net1" else "none") ++ "-" ++
    pool.environmentArtifact.getD "base" ++ preload

/-- A `LiveVm` as the pools see it. -/
structure Vm where
  id : Uuid
  pool : Pool
  lastUsed : Nat
  /-- Ghost: the key of the snapshot that it was restored from. -/
  restored : String

/-- `VmState`, without the reports on the machines that run. -/
structure VmState where
  idle : List Vm
  activeCpuMillis : Nat
  activeMemoryMib : Nat
  cpuMillis : Nat
  memoryMib : Nat

/-- `Vec::swap_remove`, on what stays. -/
def swapRemove {α : Type} (items : List α) (index : Nat) : List α :=
  match items.getLast? with
  | none => []
  | some last => (items.set index last).dropLast

namespace VmState

def fits (state : VmState) (pool : Pool) : Bool :=
  decide (pool.cpuMillis ≤ state.cpuMillis) && decide (pool.memoryMib ≤ state.memoryMib)

def reserve (state : VmState) (pool : Pool) : VmState :=
  { state with
    activeCpuMillis := saturatingAdd state.activeCpuMillis pool.cpuMillis
    activeMemoryMib := saturatingAdd state.activeMemoryMib pool.memoryMib }

/-- The index of the machine with this pool name that was used last; of several, the last one. -/
def latest (name : String) (idle : List Vm) : Option Nat :=
  ((idle.zipIdx.filter (fun entry => entry.1.pool.name = name)).foldl (fun best entry =>
    if best.any (fun chosen => decide (entry.1.lastUsed < chosen.1.lastUsed)) then best else some
      entry) none).map Prod.snd

def acquire (state : VmState) (pool : Pool) : Except String (Option Vm × VmState) :=
  if state.fits pool then
    match latest pool.name state.idle with
    | none => .ok (none, state.reserve pool)
    | some index => .ok (state.idle[index]?,
        { state.reserve pool with idle := swapRemove state.idle index })
  else .error "instance resources exceed node capacity"

def release (state : VmState) (pool : Pool) (vm : Option Vm) : VmState :=
  { state with
    activeCpuMillis := saturatingSub state.activeCpuMillis pool.cpuMillis
    activeMemoryMib := saturatingSub state.activeMemoryMib pool.memoryMib
    idle := state.idle ++ vm.toList }

def reserveWarm (state : VmState) (pool : Pool) : Option VmState :=
  if state.fits pool then some (state.reserve pool) else none

end VmState

/-- An execution on the node: its `Work` has arrived, it waits for a new machine, or it runs. -/
inductive Task where
  | received (pool : Pool)
  | starting (pool : Pool)
  | running (pool : Pool) (vm : Vm)

/-- How far the node's loop has come with its heartbeat. Between heartbeats it asks for work. -/
inductive Beat where
  | polling
  /-- The pools of the controller are known, their snapshots are not yet prepared. -/
  | listed (pools : List Pool)
  | synced (ready : List Pool)
  | relabelled (ready : List Pool)
  /-- The idle machines are taken out; the controller is asked about one after the other. -/
  | trimming (ready : List Pool) (idle retained : List Vm)
  | warming (pools : List Pool)
  | starting (pool : Pool) (rest : List Pool)
  | offering (pool : Pool) (vm : Vm) (rest : List Pool)

structure NodeProcess where
  vms : VmState
  tasks : List Task
  beat : Beat

/-- The steps of the node. They carry what the controller answers to the node's questions, and
what the machines do. -/
inductive NodeEvent where
  | list
  | sync (failed : List String)
  | relabel
  | take
  | trim (release : Bool) (now : Nat)
  | retain
  | ask (needed : Bool)
  | warm (vm : Option Uuid) (now : Nat)
  | offer (accepted : Bool)
  | rest
  | acquire (index : Nat)
  | start (index : Nat) (vm : Option Uuid) (now : Nat)
  | finish (index : Nat) (healthy : Bool) (now : Nat)
  /-- The `Work` is lost on its way, or its working directory does not arrive. -/
  | abandon (index : Nat)
  /-- The process ends, wherever it is, and starts anew. -/
  | renew

/-- The first loop of `maintain_vms`: an idle machine gets the pool that now has its pool's name. -/
def relabel (pools : List Pool) (idle : List Vm) : List Vm :=
  idle.filterMap (fun vm =>
    (pools.reverse.find? (fun pool => pool.name = vm.pool.name)).map
      (fun pool => { vm with pool := pool }))

/-- The machine that `start_vm` restores for a pool. -/
def startVm [Crates] (id : Uuid) (pool : Pool) (now : Nat) : Vm := ⟨id, pool, now, snapshotKey pool⟩

/-- The second loop of `maintain_vms`: `last_used` of a machine that expired starts over. -/
def Vm.trimmed (now : Nat) (vm : Vm) : Vm :=
  if vm.lastUsed + vm.pool.idleTimeoutSecs * 1000 ≤ now then { vm with lastUsed := now } else vm

namespace NodeProcess

/-- A process that has just registered. -/
def started (cpuMillis memoryMib : Nat) : NodeProcess :=
  ⟨⟨[], 0, 0, cpuMillis, memoryMib⟩, [], .polling⟩

def heartbeat [Crates] (process : NodeProcess) (pools : List Pool) : NodeEvent → Option NodeProcess
  | .list =>
    match process.beat with
    | .polling => some { process with beat := .listed pools }
    | _ => none
  | .sync failed =>
    match process.beat with
    | .listed pools => some
        { process with beat := .synced (pools.filter (fun pool => pool.name ∉ failed)) }
    | _ => none
  | .relabel =>
    match process.beat with
    | .synced ready =>
      some
        { process with vms := { process.vms with idle := relabel ready process.vms.idle }, beat := .relabelled ready }
    | _ => none
  | .take =>
    match process.beat with
    | .relabelled ready =>
      some
        { process with vms := { process.vms with idle := [] }, beat := .trimming ready process.vms.idle [] }
    | _ => none
  | .trim release now =>
    match process.beat with
    | .trimming ready idle retained =>
      idle.getLast?.map (fun vm =>
        { process with
          beat := .trimming ready idle.dropLast
            (if release then retained else retained ++ [vm.trimmed now]) })
    | _ => none
  | .retain =>
    match process.beat with
    | .trimming ready [] retained =>
      some
        { process with vms := { process.vms with idle := process.vms.idle ++ retained }, beat := .warming ready }
    | _ => none
  | .ask needed =>
    match process.beat with
    | .warming (pool :: rest) =>
      some
        (match if needed then process.vms.reserveWarm pool else none with
        | some vms => { process with vms := vms, beat := .starting pool rest }
        | none => { process with beat := .warming rest })
    | _ => none
  | .warm vm now =>
    match process.beat with
    | .starting pool rest =>
      some
        (match vm with
        | some id => { process with beat := .offering pool (startVm id pool now) rest }
        | none => { process with vms := process.vms.release pool none, beat := .warming rest })
    | _ => none
  | .offer accepted =>
    match process.beat with
    | .offering pool vm rest =>
      some
        (if
          accepted then { process with vms := process.vms.release pool (some vm), beat := .warming (pool :: rest) }
        else { process with vms := process.vms.release pool none, beat := .warming rest })
    | _ => none
  | .rest =>
    match process.beat with
    | .warming [] => some { process with beat := .polling }
    | _ => none
  | _ => none

/-- `run_execution`, in steps. -/
def execution [Crates] (process : NodeProcess) : NodeEvent → Option NodeProcess
  | .acquire index =>
    match process.tasks[index]? with
    | some (.received pool) =>
      some
        (match process.vms.acquire pool with
        | .error _ => { process with tasks := process.tasks.eraseIdx index }
        | .ok (none, vms) =>
            { process with vms := vms, tasks := process.tasks.set index (.starting pool) }
        | .ok (some vm, vms) =>
            { process with vms := vms, tasks := process.tasks.set index (.running pool vm) })
    | _ => none
  | .start index vm now =>
    match process.tasks[index]? with
    | some (.starting pool) =>
      some
        (match vm with
        | some id =>
            { process with tasks := process.tasks.set index (.running pool (startVm id pool now)) }
        | none =>
            { process with vms := process.vms.release pool none, tasks := process.tasks.eraseIdx index })
    | _ => none
  | .finish index healthy now =>
    match process.tasks[index]? with
    | some (.running pool vm) =>
      let keepIdle :=
        healthy && pool.reuse && (decide (0 < pool.idleTimeoutSecs) ||
          decide (0 < pool.warmInstances))
      some
        { process with
          vms := process.vms.release pool
            (if keepIdle then some { vm with lastUsed := now } else none)
          tasks := process.tasks.eraseIdx index }
    | _ => none
  | .abandon index =>
    match process.tasks[index]? with
    | some (.received _) => some { process with tasks := process.tasks.eraseIdx index }
    | _ => none
  | _ => none

/-- A step of the node, whose controller has these pools. -/
def step [Crates] (process : NodeProcess) (pools : List Pool)
    (event : NodeEvent) : Option NodeProcess :=
  match event with
  | .renew => some (started process.vms.cpuMillis process.vms.memoryMib)
  | event => (process.heartbeat pools event).or (process.execution event)

end NodeProcess

def Task.vm : Task → Option Vm
  | .running _ vm => some vm
  | _ => none

def Task.pool : Task → Pool
  | .received pool | .starting pool | .running pool _ => pool

def Beat.vms : Beat → List Vm
  | .trimming _ idle retained => idle ++ retained
  | .offering _ vm _ => [vm]
  | _ => []

def Beat.pools : Beat → List Pool
  | .polling => []
  | .listed pools | .synced pools | .relabelled pools | .trimming pools _ _ | .warming pools =>
      pools
  | .starting pool rest | .offering pool _ rest => pool :: rest

namespace NodeProcess

/-- All machines of the node. -/
def machines (process : NodeProcess) : List Vm :=
  process.vms.idle ++ process.tasks.filterMap Task.vm ++ process.beat.vms

/-- All copies of pools on the node. -/
def copies (process : NodeProcess) : List Pool :=
  process.machines.map Vm.pool ++ process.tasks.map Task.pool ++ process.beat.pools

end NodeProcess

theorem mem_swapRemove {α : Type} {items : List α} {index : Nat} {item : α}
    (member : item ∈ swapRemove items index) :
    item ∈ items := by
  unfold swapRemove at member
  split at member
  · cases member
  · rename_i last final
    rcases List.mem_or_eq_of_mem_set (List.mem_of_mem_dropLast member) with before | rfl
    · exact before
    · exact List.mem_of_getLast? final

namespace VmState

theorem latest_eq_some {name : String} {idle : List Vm} {index : Nat}
    (chosen : latest name idle = some index) :
    ∃ vm, idle[index]? = some vm ∧ vm.pool.name = name := by
  have among (entries : List (Vm × Nat)) (best : Option (Vm × Nat)) {p : Vm × Nat → Prop}
      (first : ∀ entry, best = some entry → p entry) (all : ∀ entry ∈ entries, p entry) :
      ∀ entry, entries.foldl (fun best entry =>
        if best.any (fun chosen => decide (entry.1.lastUsed <
          chosen.1.lastUsed)) then best else some entry) best =
          some entry → p entry := by
    induction entries generalizing best with
    | nil => exact first
    | cons entry rest ih =>
      refine ih _ (fun later taken => ?_)
        (fun later member => all later (List.mem_cons_of_mem _ member))
      dsimp only at taken
      split_ifs at taken
      · exact first later taken
      · exact Option.some.inj taken ▸ all entry List.mem_cons_self
  obtain ⟨entry, taken, rfl⟩ := Option.map_eq_some_iff.mp chosen
  refine ⟨entry.1, ?_⟩
  refine among _ none (p := fun entry => idle[entry.2]? = some entry.1 ∧ entry.1.pool.name = name)
    (fun _ nothing => by cases nothing) (fun entry member => ?_) entry taken
  obtain ⟨there, named⟩ := List.mem_filter.mp member
  exact ⟨List.mem_zipIdx_iff_getElem?.mp there, of_decide_eq_true named⟩

/-- `acquire` returns an idle machine whose pool has the name, and leaves no others than there were. -/
theorem acquire_eq_ok {state next : VmState} {pool : Pool} {vm : Option Vm}
    (acquired : state.acquire pool = .ok (vm, next)) :
    (∀ found, vm = some found → found ∈ state.idle ∧ found.pool.name = pool.name) ∧
      ∀ other ∈ next.idle, other ∈ state.idle := by
  unfold acquire at acquired
  split_ifs at acquired
  cases chosen : latest pool.name state.idle with
  | none =>
    simp only [chosen, Except.ok.injEq, Prod.mk.injEq] at acquired
    obtain ⟨rfl, rfl⟩ := acquired
    exact ⟨fun _ nothing => (by cases nothing), fun _ member => member⟩
  | some index =>
    simp only [chosen, Except.ok.injEq, Prod.mk.injEq] at acquired
    obtain ⟨rfl, rfl⟩ := acquired
    obtain ⟨found, there, named⟩ := latest_eq_some chosen
    refine ⟨fun other same => ?_, fun _ member => mem_swapRemove member⟩
    obtain rfl := Option.some.inj (there.symm.trans same)
    exact ⟨List.mem_of_getElem? there, named⟩

end VmState

namespace NodeProcess
variable {process : NodeProcess} {pools : List Pool}

theorem mem_machines {vm : Vm} :
    vm ∈ process.machines ↔ vm ∈ process.vms.idle ∨ (∃ task ∈ process.tasks, task.vm = some vm) ∨
      vm ∈ process.beat.vms := by
  simp only [machines, List.mem_append, List.mem_filterMap, or_assoc]

theorem mem_copies {pool : Pool} :
    pool ∈ process.copies ↔ (∃ vm ∈ process.machines, vm.pool = pool) ∨
      (∃ task ∈ process.tasks, task.pool = pool) ∨
      pool ∈ process.beat.pools := by
  simp only [copies, List.mem_append, List.mem_map, or_assoc]

theorem copy_of_task {task : Task} (member : task ∈ process.tasks) : task.pool ∈ process.copies :=
  mem_copies.mpr (.inr (.inl ⟨task, member, rfl⟩))

theorem copy_of_beat {pool : Pool} (member : pool ∈ process.beat.pools) : pool ∈ process.copies :=
  mem_copies.mpr (.inr (.inr member))

section
variable [Crates]

/-- Where a machine and its pool come from: it was there, perhaps with another pool of the same
name, or it is new. -/
def Stems (process : NodeProcess) (vm : Vm) : Prop :=
  vm.pool ∈ process.copies ∧
    (vm.restored = snapshotKey vm.pool ∨
      ∃ old ∈ process.machines, old.restored = vm.restored ∧ old.pool.name = vm.pool.name)

/-- The state after a step is made of what was there and of the controller's pools. -/
structure Follows (process : NodeProcess) (pools : List Pool) (next : NodeProcess) : Prop where
  idle : ∀ vm ∈ next.vms.idle, process.Stems vm
  tasks : ∀ task ∈ next.tasks, task.pool ∈ process.copies ∧ ∀ vm, task.vm = some vm →
    process.Stems vm
  /-- An execution keeps its machine, or gets one with the name of its pool. -/
  named : ∀ task ∈ next.tasks, ∀ vm, task.vm = some vm →
    task ∈ process.tasks ∨ vm.pool.name = task.pool.name
  held : ∀ vm ∈ next.beat.vms, process.Stems vm
  known : ∀ pool ∈ next.beat.pools, pool ∈ process.copies ∨ pool ∈ pools

theorem stems_of_machine {vm : Vm} (member : vm ∈ process.machines) : process.Stems vm :=
  ⟨mem_copies.mpr (.inl ⟨vm, member, rfl⟩), .inr ⟨vm, member, rfl, rfl⟩⟩

theorem stems_of_idle {vm : Vm} (member : vm ∈ process.vms.idle) : process.Stems vm :=
  stems_of_machine (mem_machines.mpr (.inl member))

theorem stems_of_beat {vm : Vm} (member : vm ∈ process.beat.vms) : process.Stems vm :=
  stems_of_machine (mem_machines.mpr (.inr (.inr member)))

theorem follows_tasks {task : Task} (member : task ∈ process.tasks) :
    task.pool ∈ process.copies ∧ ∀ vm, task.vm = some vm → process.Stems vm :=
  ⟨copy_of_task member, fun _ same =>
    stems_of_machine (mem_machines.mpr (.inr (.inl ⟨task, member, same⟩)))⟩

/-- A step of the heartbeat leaves the tasks alone. -/
theorem follows_beat {vms : VmState} {beat : Beat} (idle : ∀ vm ∈ vms.idle, process.Stems vm)
    (held : ∀ vm ∈ beat.vms, process.Stems vm)
    (known : ∀ pool ∈ beat.pools, pool ∈ process.copies ∨ pool ∈ pools) :
    process.Follows pools { process with vms := vms, beat := beat } :=
  ⟨idle, fun _ member => follows_tasks member, fun _ member _ _ => .inl member, held, known⟩

/-- A step of an execution leaves the heartbeat alone. -/
theorem follows_task {vms : VmState} {tasks : List Task} (idle : ∀ vm ∈ vms.idle, process.Stems vm)
    (kept : ∀ task ∈ tasks, task ∈ process.tasks ∨
      task.pool ∈ process.copies ∧ ∀ vm, task.vm = some vm →
        process.Stems vm ∧ vm.pool.name = task.pool.name) :
    process.Follows pools { process with vms := vms, tasks := tasks } :=
  ⟨idle, fun task member => (kept task member).elim follows_tasks (fun new =>
    ⟨new.1, fun vm same => (new.2 vm same).1⟩),
    fun task member vm same => (kept task member).imp_right (fun new => (new.2 vm same).2),
    fun _ member => stems_of_beat member, fun _ member => .inl (copy_of_beat member)⟩

theorem heartbeat_follows {next : NodeProcess} {event : NodeEvent}
    (stepped : process.heartbeat pools event = some next) : process.Follows pools next := by
  have stays : ∀ vm ∈ process.vms.idle, process.Stems vm := fun _ => stems_of_idle
  have held : ∀ vm ∈ process.beat.vms, process.Stems vm := fun _ => stems_of_beat
  have known : ∀ pool ∈ process.beat.pools, pool ∈ process.copies := fun _ => copy_of_beat
  cases event with
  | list =>
    simp only [heartbeat] at stepped
    split at stepped <;> cases stepped
    exact follows_beat stays (fun _ member => by cases member) (fun _ member => .inr member)
  | sync failed =>
    simp only [heartbeat] at stepped
    split at stepped <;> cases stepped
    rename_i listed at_listed
    rw [at_listed] at known
    exact follows_beat stays (fun _ member => by cases member)
      (fun pool member => .inl (known pool (List.mem_filter.mp member).1))
  | relabel =>
    simp only [heartbeat] at stepped
    split at stepped <;> cases stepped
    rename_i ready at_synced
    rw [at_synced] at known
    refine follows_beat (fun vm member => ?_) (fun _ member => by cases member)
      (fun pool member => .inl (known pool member))
    obtain ⟨old, there, relabelled⟩ := List.mem_filterMap.mp member
    obtain ⟨pool, found, rfl⟩ := Option.map_eq_some_iff.mp relabelled
    have named : pool.name = old.pool.name := by simpa using List.find?_some found
    exact ⟨known pool (List.mem_reverse.mp (List.mem_of_find?_eq_some found)),
      .inr ⟨old, mem_machines.mpr (.inl there), rfl, named.symm⟩⟩
  | take =>
    simp only [heartbeat] at stepped
    split at stepped <;> cases stepped
    rename_i ready at_relabelled
    rw [at_relabelled] at known
    exact follows_beat (fun _ member => by cases member)
      (fun vm member => stays vm (by simpa [Beat.vms] using member))
        (fun pool member => .inl (known pool member))
  | trim release now =>
    simp only [heartbeat] at stepped
    split at stepped
    · rename_i ready idle retained at_trimming
      rw [at_trimming] at known held
      obtain ⟨vm, last, rfl⟩ := Option.map_eq_some_iff.mp stepped
      have asked : process.Stems vm := held vm (List.mem_append_left _ (List.mem_of_getLast? last))
      have trimmed : process.Stems (vm.trimmed now) := by
        unfold Vm.trimmed
        split_ifs <;> exact asked
      refine follows_beat stays (fun other member => ?_)
        (fun pool member => .inl (known pool member))
      rcases List.mem_append.mp member with before | kept
      · exact held other (List.mem_append_left _ (List.mem_of_mem_dropLast before))
      · split_ifs at kept
        · exact held other (List.mem_append_right _ kept)
        · rcases List.mem_append.mp kept with before | new
          · exact held other (List.mem_append_right _ before)
          · exact List.mem_singleton.mp new ▸ trimmed
    · cases stepped
  | retain =>
    simp only [heartbeat] at stepped
    split at stepped <;> cases stepped
    rename_i ready retained at_trimming
    rw [at_trimming] at known held
    refine follows_beat (fun vm member => ?_) (fun _ member => by cases member)
      (fun pool member => .inl (known pool member))
    rcases List.mem_append.mp member with before | back
    · exact stays vm before
    · exact held vm back
  | ask needed =>
    simp only [heartbeat] at stepped
    split at stepped
    · rename_i pool rest at_warming
      rw [at_warming] at known
      obtain rfl := Option.some.inj stepped
      split
      · rename_i vms reserved
        split_ifs at reserved
        unfold VmState.reserveWarm at reserved
        split_ifs at reserved
        obtain rfl := Option.some.inj reserved
        exact follows_beat stays (fun _ member => by cases member)
          (fun pool member => .inl (known pool member))
      · exact follows_beat stays (fun _ member => by cases member)
          (fun pool member => .inl (known pool (List.mem_cons_of_mem _ member)))
    · cases stepped
  | warm vm now =>
    simp only [heartbeat] at stepped
    split at stepped
    · rename_i pool rest at_starting
      rw [at_starting] at known
      obtain rfl := Option.some.inj stepped
      split
      · rename_i id
        refine follows_beat stays (fun vm member => ?_)
          (fun pool member => .inl (known pool member))
        obtain rfl := List.mem_singleton.mp member
        exact ⟨known pool List.mem_cons_self, .inl rfl⟩
      · refine follows_beat (fun vm member => stays vm (by simpa [VmState.release] using member))
          (fun _ member => by cases member) (fun pool member =>
            .inl (known pool (List.mem_cons_of_mem _ member)))
    · cases stepped
  | offer accepted =>
    simp only [heartbeat] at stepped
    split at stepped
    · rename_i pool vm rest at_offering
      rw [at_offering] at known held
      obtain rfl := Option.some.inj stepped
      split_ifs
      · refine follows_beat (fun other member => ?_) (fun _ member => by cases member)
          (fun pool member => .inl (known pool member))
        rcases List.mem_append.mp member with before | new
        · exact stays other before
        · exact held other (by simpa [Beat.vms] using new)
      · exact follows_beat (fun vm member => stays vm (by simpa [VmState.release] using member))
          (fun _ member => by cases member) (fun pool member =>
            .inl (known pool (List.mem_cons_of_mem _ member)))
    · cases stepped
  | rest =>
    simp only [heartbeat] at stepped
    split at stepped <;> cases stepped
    exact follows_beat stays (fun _ member => by cases member) (fun _ member => by cases member)
  | _ => cases stepped

theorem execution_follows {next : NodeProcess} {event : NodeEvent}
    (stepped : process.execution event = some next) :
    process.Follows pools next := by
  have stays : ∀ vm ∈ process.vms.idle, process.Stems vm := fun _ => stems_of_idle
  have fewer (index : Nat) : ∀ task ∈ process.tasks.eraseIdx index, task ∈ process.tasks ∨
      task.pool ∈ process.copies ∧ ∀ vm, task.vm = some vm →
        process.Stems vm ∧ vm.pool.name = task.pool.name :=
    fun _ member => .inl ((List.eraseIdx_sublist _ _).subset member)
  have moved (index : Nat) {now : Task} (from_here : now.pool ∈ process.copies)
      (runs : ∀ vm, now.vm = some vm → process.Stems vm ∧ vm.pool.name = now.pool.name) :
      ∀ task ∈ process.tasks.set index now, task ∈ process.tasks ∨
        task.pool ∈ process.copies ∧ ∀ vm, task.vm = some vm →
          process.Stems vm ∧ vm.pool.name = task.pool.name := by
    intro task member
    rcases List.mem_or_eq_of_mem_set member with before | rfl
    · exact .inl before
    · exact .inr ⟨from_here, runs⟩
  cases event with
  | acquire index =>
    simp only [execution] at stepped
    split at stepped
    · rename_i pool there
      have copy : pool ∈ process.copies := copy_of_task (List.mem_of_getElem? there)
      obtain rfl := Option.some.inj stepped
      split
      · exact follows_task stays (fewer index)
      · rename_i vms acquired
        exact follows_task (fun vm member =>
          stays vm ((VmState.acquire_eq_ok acquired).2 vm member))
          (moved index copy (fun _ nothing => by cases nothing))
      · rename_i vm vms acquired
        refine follows_task (fun vm member =>
          stays vm ((VmState.acquire_eq_ok acquired).2 vm member))
          (moved index copy (fun other same => ?_))
        obtain rfl := Option.some.inj same
        obtain ⟨idle, named⟩ := (VmState.acquire_eq_ok acquired).1 vm rfl
        exact ⟨stays vm idle, named⟩
    · cases stepped
  | start index vm now =>
    simp only [execution] at stepped
    split at stepped
    · rename_i pool there
      have copy : pool ∈ process.copies := copy_of_task (List.mem_of_getElem? there)
      obtain rfl := Option.some.inj stepped
      split
      · rename_i id
        refine follows_task stays (moved index copy (fun other same => ?_))
        obtain rfl := Option.some.inj same
        exact ⟨⟨copy, .inl rfl⟩, rfl⟩
      · exact follows_task (fun vm member =>
          stays vm (by simpa [VmState.release] using member)) (fewer index)
    · cases stepped
  | finish index healthy now =>
    simp only [execution] at stepped
    split at stepped
    · rename_i pool vm there
      have mine : process.Stems vm := (follows_tasks (List.mem_of_getElem? there)).2 vm rfl
      obtain rfl := Option.some.inj stepped
      refine follows_task (fun other member => ?_) (fewer index)
      rcases List.mem_append.mp member with before | new
      · exact stays other before
      · split_ifs at new
        · obtain rfl := List.mem_singleton.mp new
          exact mine
        · cases new
    · cases stepped
  | abandon index =>
    simp only [execution] at stepped
    split at stepped <;> cases stepped
    exact follows_task stays (fewer index)
  | _ => cases stepped

theorem step_follows {next : NodeProcess} {event : NodeEvent}
    (stepped : process.step pools event = some next) :
    process.Follows pools next := by
  have either (done : (process.heartbeat pools event).or (process.execution event) = some next) :
      process.Follows pools next := by
    rcases Option.or_eq_some_iff.mp done with beats | ⟨-, runs⟩
    · exact heartbeat_follows beats
    · exact execution_follows runs
  cases event with
  | renew =>
    obtain rfl := Option.some.inj stepped
    exact ⟨fun _ member => (by cases member), fun _ member => (by cases member), fun _ member =>
      (by cases member),
      fun _ member => (by cases member), fun _ member => (by cases member)⟩
  | _ => exact either stepped

theorem Follows.machines {next : NodeProcess} (follows : process.Follows pools next) {vm : Vm}
    (member : vm ∈ next.machines) : process.Stems vm := by
  rcases mem_machines.mp member with idle | ⟨task, there, same⟩ | held
  · exact follows.idle vm idle
  · exact (follows.tasks task there).2 vm same
  · exact follows.held vm held

theorem Follows.copies {next : NodeProcess} (follows : process.Follows pools next) {pool : Pool}
    (member : pool ∈ next.copies) : pool ∈ process.copies ∨ pool ∈ pools := by
  rcases mem_copies.mp member with ⟨vm, there, rfl⟩ | ⟨task, there, rfl⟩ | known
  · exact .inl (follows.machines there).1
  · exact .inl (follows.tasks task there).1
  · exact follows.known pool known

end

end NodeProcess
end Scraperack
