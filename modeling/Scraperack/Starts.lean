import Scraperack.Leases

/-! `start_vm` and `destroy_vm`, statement by statement as far as they bear on the network: a start that fails
has to give back what it reserved, wherever it fails. -/

namespace Scraperack

/-- What `start_vm` does next. The first three statements behind the allocation leave the function when they fail;
the statements of `boot` are those whose failure the function cleans up after. -/
inductive StartStage where
  | snapshot
  | setup (lease : NetworkLease)
  | directory (lease : Option NetworkLease)
  | log (lease : Option NetworkLease)
  | spawn (lease : Option NetworkLease)
  | boot (lease : Option NetworkLease)
  | cleanup (lease : Option NetworkLease)

def StartStage.lease : StartStage → Option NetworkLease
  | .snapshot => none
  | .setup lease => some lease
  | .directory lease => lease
  | .log lease => lease
  | .spawn lease => lease
  | .boot lease => lease
  | .cleanup lease => lease

structure Start where
  id : Uuid
  pool : Pool
  stage : StartStage

/-- A node's network, the calls of `start_vm` in progress, and the leases of the live machines. -/
structure Machines where
  network : NetworkState
  starts : List Start
  vms : List (Option NetworkLease)

/-- The start at this index performs its next statement, which succeeds or not; a machine is destroyed. -/
inductive MachineCall where
  | start (id : Uuid) (pool : Pool)
  | proceed (index : Nat) (succeeds : Bool) (available : Probe)
  | destroy (index : Nat)

def NetworkState.releaseAny (lease : Option NetworkLease) (state : NetworkState) : NetworkState :=
  match lease with
  | none => state
  | some lease => state.release lease

namespace Machines

def prepared : Machines := ⟨.prepared, [], []⟩

/-- The start at the index goes on to another statement. -/
def moveOn (s : Machines) (index : Nat) (start : Start) (stage : StartStage) : Machines :=
  { s with starts := s.starts.set index { start with stage := stage } }

/-- The start at the index returns an error. -/
def fail (s : Machines) (index : Nat) : Machines := { s with starts := s.starts.eraseIdx index }

def proceed (s : Machines) (index : Nat) (start : Start) (succeeds : Bool)
    (available : Probe) : Machines :=
  match start.stage with
  | .snapshot =>
    if succeeds then
      if start.pool.network then
        match s.network.allocate available start.id start.pool with
        | (.error _, next) => { s with network := next }.fail index
        | (.ok lease, next) => { s with network := next }.moveOn index start (.setup lease)
      else s.moveOn index start (.directory none)
    else s.fail index
  | .setup lease => s.moveOn index start
      (if succeeds then .directory (some lease) else .cleanup (some lease))
  | .directory lease => if succeeds then s.moveOn index start (.log lease) else s.fail index
  | .log lease => if succeeds then s.moveOn index start (.spawn lease) else s.fail index
  | .spawn lease => if succeeds then s.moveOn index start (.boot lease) else s.fail index
  | .boot lease =>
    if succeeds then { s.fail index with vms := s.vms ++ [lease] } else s.moveOn index start
      (.cleanup lease)
  | .cleanup lease => { s.fail index with network := s.network.releaseAny lease }

def step (s : Machines) : MachineCall → Option Machines
  | .start id pool => some { s with starts := s.starts ++ [⟨id, pool, .snapshot⟩] }
  | .proceed index succeeds available =>
    s.starts[index]?.map (fun start => s.proceed index start succeeds available)
  | .destroy index =>
    s.vms[index]?.map (fun lease =>
      { s with network := s.network.releaseAny lease, vms := s.vms.eraseIdx index })

/-- The leases that the starts in progress and the live machines hold. -/
def held (s : Machines) : List NetworkLease :=
  s.starts.filterMap (fun start => start.stage.lease) ++ s.vms.reduceOption

end Machines

namespace NetworkState

/-- A port for one port of the pool is to be had. -/
def obtainable (available : PortProtocol → Nat → Bool) (state : NetworkState)
    (spec : PortSpec) : Bool :=
  match spec.hostPort with
  | some port => decide ((spec.protocol, port) ∉ state.ports) && available spec.protocol port
  | none => (List.range' portStart (portEnd + 1 - portStart)).any
      (fun port => decide ((spec.protocol, port) ∉ state.ports) && available spec.protocol port)

/-- Each of the ports is to be had, when those before it are reserved. -/
def obtainsAll (available : Probe) : Nat → List PortSpec → NetworkState → Bool
  | _, [], _ => true
  | index, spec :: rest, state =>
    obtainable (available index) state spec &&
      match findPort (available index) state spec with
      | (.error _, _) => true
      | (.ok port, next) =>
        obtainsAll available (index + 1) rest
          { next with ports := insert (spec.protocol, port) next.ports }

/-- Some subnet is not taken. -/
def findsSubnet (state : NetworkState) : Bool :=
  (Cursor.scan advanceSubnet (fun subnet => decide (subnet ∉ state.subnets)) 16384
    state.nextSubnet).1.isSome

/-- No port of the pool is found unavailable when an earlier one has been reserved. -/
def obtainsRest (available : Probe) (state : NetworkState) : List PortSpec → Bool
  | [] => true
  | spec :: rest =>
    match findPort (available 0) state spec with
    | (.error _, _) => true
    | (.ok port, next) => obtainsAll available 1 rest
        { next with ports := insert (spec.protocol, port) next.ports }

theorem findPort_obtainable {available : PortProtocol → Nat → Bool} {state : NetworkState}
    {spec : PortSpec}
    (free : obtainable available state spec = true) (cursor : InPortRange state.nextPort) :
    ∃ port next, findPort available state spec = (.ok port, next) := by
  unfold obtainable at free
  unfold findPort
  cases fixed : spec.hostPort with
  | some port =>
    simp only [fixed, Bool.and_eq_true, decide_eq_true_eq] at free
    exact ⟨port, state, by simp [free]⟩
  | none =>
    simp only [fixed, List.any_eq_true] at free
    obtain ⟨port, inside, free⟩ := free
    simp only
    split
    · rename_i stopped
      have range : InPortRange port := by
        obtain ⟨i, small, rfl⟩ := List.mem_range'.mp inside
        exact ⟨by omega, by omega⟩
      have busy := Cursor.scan_round advancePort_cycles cursor (congrArg Prod.fst stopped) range
      rw [free] at busy
      cases busy
    · exact ⟨_, _, rfl⟩

theorem reservePorts_obtainsAll {available : Probe} {index : Nat}
    {specs : List PortSpec} {state : NetworkState}
    (free : obtainsAll available index specs state = true) (cursor : InPortRange state.nextPort) :
    ∃ ports next, reservePorts available index specs state = (.ok ports, next) := by
  induction specs generalizing index state with
  | nil => exact ⟨[], state, rfl⟩
  | cons spec rest ih =>
    rw [obtainsAll, Bool.and_eq_true] at free
    obtain ⟨port, next, found⟩ := findPort_obtainable free.1 cursor
    simp only [found] at free
    obtain ⟨ports, last, done⟩ := ih free.2 (findPort_frame found cursor).2
    exact ⟨_, last, by simp only [reservePorts, found, done]; rfl⟩

theorem findPort_nextSubnet (available : PortProtocol → Nat → Bool) (state : NetworkState)
    (spec : PortSpec)
    (cursor : Nat) : findPort available { state with nextSubnet := cursor } spec =
      ((findPort available state spec).1,
        { (findPort available state spec).2 with nextSubnet := cursor }) := by
  unfold findPort
  cases fixed : spec.hostPort with
  | some port =>
    simp only
    split_ifs <;> rfl
  | none =>
    rcases Cursor.scan advancePort
      (fun port => decide ((spec.protocol, port) ∉ state.ports) && available spec.protocol port)
      (portEnd + 1 - portStart) state.nextPort with ⟨_ | port, last⟩ <;> rfl

theorem reservePorts_nextSubnet (available : Probe) (index : Nat) (specs : List PortSpec)
    (state : NetworkState)
    (cursor : Nat) : reservePorts available index specs { state with nextSubnet := cursor } =
      ((reservePorts available index specs state).1,
        { (reservePorts available index specs state).2 with nextSubnet := cursor }) := by
  induction specs generalizing index state with
  | nil => rfl
  | cons spec rest ih =>
    simp only [reservePorts, findPort_nextSubnet]
    rcases findPort (available index) state spec with ⟨error | port, next⟩
    · rfl
    · have later := ih (index + 1) { next with ports := insert (spec.protocol, port) next.ports }
      simp only at later ⊢
      rw [later]
      generalize reservePorts available (index + 1) rest _ = done
      rcases done with ⟨error | ports, last⟩ <;> rfl

/-- An allocation that fails keeps no port, unless one was reserved before another was found unavailable. -/
theorem allocate_refused {available : Probe} {id : Uuid} {pool : Pool} {state next : NetworkState}
    {error : AllocateError} (done : state.allocate available id pool = (.error error, next))
    (cursor : InPortRange state.nextPort)
    (rest : state.findsSubnet = true → obtainsRest available state pool.ports = true) :
    next.ports = state.ports := by
  unfold allocate at done
  split at done
  · cases done
    rfl
  · rename_i subnet last found
    replace rest := rest (by rw [findsSubnet, found]; rfl)
    rw [reservePorts_nextSubnet] at done
    cases specs : pool.ports with
    | nil =>
      rw [specs] at done
      cases done
    | cons spec more =>
      simp only [specs, obtainsRest] at rest
      simp only [specs, reservePorts] at done
      rcases found : findPort (available 0) state spec with ⟨error | port, after⟩
      · simp only [found] at done
        cases done
        rw [(findPort_frame found cursor).1]
      · simp only [found] at rest done
        obtain ⟨ports, last, all⟩ := reservePorts_obtainsAll rest (findPort_frame found cursor).2
        simp only [Nat.zero_add, all] at done
        cases done

end NetworkState

/-- Beyond `Leased`: what is reserved is held. -/
structure Settling (held : List NetworkLease) (state : NetworkState) : Prop where
  leased : Leased held state
  subnets : ∀ subnet ∈ state.subnets, ∃ lease ∈ held, lease.subnet = subnet
  ports : ∀ key ∈ state.ports, ∃ lease ∈ held, key ∈ lease.keys

namespace Settling
variable {available : Probe} {id : Uuid} {pool : Pool} {held : List NetworkLease}
  {state next : NetworkState}

theorem perm {other : List NetworkLease} (settling : Settling held state) (same : held.Perm other) :
    Settling other state := by
  refine ⟨settling.leased.perm same, fun subnet taken => ?_, fun key taken => ?_⟩
  · obtain ⟨lease, member, is⟩ := settling.subnets subnet taken
    exact ⟨lease, same.mem_iff.mp member, is⟩
  · obtain ⟨lease, member, published⟩ := settling.ports key taken
    exact ⟨lease, same.mem_iff.mp member, published⟩

theorem allocated {lease : NetworkLease} (settling : Settling held state)
    (done : state.allocate available id pool = (.ok lease, next)) : Settling
      (lease :: held) next := by
  have step := NetworkState.allocate_allocates available id pool state settling.leased.nextSubnet
    settling.leased.nextPort
  rw [done] at step
  obtain ⟨subnet, ports, rfl, -, -, subnets, exactly, -⟩ := step.ok lease rfl
  refine ⟨settling.leased.allocated done, fun other taken => ?_, fun key taken => ?_⟩
  · rcases Finset.mem_insert.mp (subnets ▸ taken) with rfl | old
    · exact ⟨_, List.mem_cons_self, rfl⟩
    · obtain ⟨lease, member, is⟩ := settling.subnets other old
      exact ⟨lease, List.mem_cons_of_mem _ member, is⟩
  · rcases (exactly key).mp taken with published | old
    · exact ⟨_, List.mem_cons_self, published⟩
    · obtain ⟨lease, member, published⟩ := settling.ports key old
      exact ⟨lease, List.mem_cons_of_mem _ member, published⟩

theorem refused {error : AllocateError} (settling : Settling held state)
    (done : state.allocate available id pool = (.error error, next))
    (rest : state.findsSubnet = true → state.obtainsRest available pool.ports = true) :
    Settling held next := by
  have step := NetworkState.allocate_allocates available id pool state settling.leased.nextSubnet
    settling.leased.nextPort
  rw [done] at step
  have ports := NetworkState.allocate_refused done settling.leased.nextPort rest
  refine ⟨settling.leased.refused done, fun subnet taken => ?_, fun key taken => ?_⟩
  · exact settling.subnets subnet (step.failed error rfl ▸ taken)
  · exact settling.ports key (ports ▸ taken)

theorem released {lease : NetworkLease} (settling : Settling (lease :: held) state) :
    Settling held (state.release lease) := by
  refine ⟨settling.leased.released, fun subnet taken => ?_, fun key taken => ?_⟩
  · obtain ⟨other, taken⟩ := Finset.mem_erase.mp taken
    obtain ⟨owner, member, is⟩ := settling.subnets subnet taken
    rcases List.mem_cons.mp member with rfl | member
    · exact absurd is.symm other
    · exact ⟨owner, member, is⟩
  · obtain ⟨taken, other⟩ := (NetworkState.mem_release_ports lease state key).mp taken
    obtain ⟨owner, member, published⟩ := settling.ports key taken
    rcases List.mem_cons.mp member with rfl | member
    · exact absurd published other
    · exact ⟨owner, member, published⟩

theorem releasedAny {lease : Option NetworkLease}
    (settling : Settling (lease.toList ++ held) state) :
    Settling held (state.releaseAny lease) := by
  cases lease with
  | none => exact settling
  | some lease => exact settling.released

end Settling

namespace Machines

/-- The step fails no start in a place that the source does not clean up after: between two ports of its pool, or
at its directory, its log file or its process when it has a network. -/
def careful (s : Machines) : MachineCall → Bool
  | .proceed index succeeds available => s.starts[index]?.all (fun start =>
      match start.stage with
      | .snapshot => !succeeds || !start.pool.network || !s.network.findsSubnet ||
          s.network.obtainsRest available start.pool.ports
      | .directory (some _) => succeeds
      | .log (some _) => succeeds
      | .spawn (some _) => succeeds
      | _ => true)
  | _ => true

theorem held_start {s : Machines} {index : Nat} {start : Start}
    (found : s.starts[index]? = some start) :
    s.held.Perm (start.stage.lease.toList ++ (s.fail index).held) := by
  obtain ⟨bound, rfl⟩ := List.getElem?_eq_some_iff.mp found
  have split := (List.getElem_cons_eraseIdx_perm bound).symm.filterMap
    (fun start => start.stage.lease)
  rw [List.filterMap_cons] at split
  have whole := split.append_right s.vms.reduceOption
  cases at_stage : s.starts[index].stage.lease with
  | none =>
    rw [at_stage] at whole
    exact whole
  | some lease =>
    rw [at_stage] at whole
    exact whole

theorem held_moveOn {s : Machines} {index : Nat} {other : Start} (start : Start)
    (stage : StartStage)
    (found : s.starts[index]? = some other) :
    (s.moveOn index start stage).held.Perm (stage.lease.toList ++ (s.fail index).held) := by
  obtain ⟨bound, -⟩ := List.getElem?_eq_some_iff.mp found
  have there : (s.moveOn index start stage).starts[index]? = some { start with stage := stage } :=
    List.getElem?_set_self bound
  have split := held_start there
  rwa [show (s.moveOn index start stage).fail index = s.fail index by
    simp [moveOn, fail, List.eraseIdx_set_eq]] at split

/-- A start that goes on with the same lease changes nothing about what is held. -/
theorem settling_moveOn {s : Machines} {index : Nat} {start : Start} {stage : StartStage}
    (settling : Settling s.held s.network) (found : s.starts[index]? = some start)
    (same : stage.lease = start.stage.lease) :
    Settling (s.moveOn index start stage).held (s.moveOn index start stage).network := by
  have after := held_moveOn start stage found
  rw [same] at after
  exact settling.perm ((held_start found).trans after.symm)

theorem settling_fail {s : Machines} {index : Nat} {start : Start}
    (settling : Settling s.held s.network)
    (found : s.starts[index]? = some start) (none : start.stage.lease = none) :
    Settling (s.fail index).held (s.fail index).network := by
  have before := held_start found
  rw [none] at before
  exact settling.perm before

/-- A statement whose failure leaves the function, when it does not fail with a lease at hand. -/
theorem settling_leave {s : Machines} {index : Nat} {start : Start} {stage : StartStage}
    {succeeds : Bool} (lease : Option NetworkLease)
    (settling : Settling s.held s.network) (found : s.starts[index]? = some start)
    (holds : start.stage.lease = lease) (same : stage.lease = lease)
    (careful : ∀ holder, lease = some holder → succeeds = true) :
    Settling (if succeeds then s.moveOn index start stage else s.fail index).held
      (if succeeds then s.moveOn index start stage else s.fail index).network := by
  cases succeeds with
  | true => exact settling_moveOn settling found (same.trans holds.symm)
  | false =>
    refine settling_fail settling found
      (Option.eq_none_iff_forall_not_mem.mpr fun holder held => ?_)
    cases careful holder (holds.symm.trans held)

theorem settling_proceed {s : Machines} {index : Nat} {start : Start} {succeeds : Bool}
    {available : Probe}
    (settling : Settling s.held s.network) (found : s.starts[index]? = some start)
    (careful : s.careful (.proceed index succeeds available) = true) :
    Settling (s.proceed index start succeeds available).held
      (s.proceed index start succeeds available).network := by
  simp only [Machines.careful, found, Option.all_some] at careful
  have before := held_start found
  unfold proceed
  cases at_stage : start.stage with
  | snapshot =>
    rw [at_stage] at careful before
    simp only
    split_ifs with done networked
    · simp only [done, networked, Bool.not_true, Bool.false_or, Bool.or_eq_true,
        Bool.not_eq_true'] at careful
      have rest (finds : s.network.findsSubnet = true) :
          s.network.obtainsRest available start.pool.ports = true :=
        careful.resolve_left (by simp [finds])
      rcases result : s.network.allocate available start.id start.pool with ⟨error | lease, next⟩
      · exact (settling.perm before).refused result rest
      · have after := held_moveOn (s := { s with network := next }) start (.setup lease) found
        exact ((settling.perm before).allocated result).perm after.symm
    · exact settling_moveOn settling found (by rw [at_stage]; rfl)
    · exact settling_fail settling found (by rw [at_stage]; rfl)
  | setup lease => exact settling_moveOn settling found (by rw [at_stage]; cases succeeds <;> rfl)
  | directory lease =>
    rw [at_stage] at careful
    refine settling_leave lease settling found (by rw [at_stage]; rfl) rfl ?_
    rintro holder rfl
    exact careful
  | log lease =>
    rw [at_stage] at careful
    refine settling_leave lease settling found (by rw [at_stage]; rfl) rfl ?_
    rintro holder rfl
    exact careful
  | spawn lease =>
    rw [at_stage] at careful
    refine settling_leave lease settling found (by rw [at_stage]; rfl) rfl ?_
    rintro holder rfl
    exact careful
  | boot lease =>
    rw [at_stage] at before
    cases succeeds with
    | true =>
      have live : held { s.fail index with vms := s.vms ++ [lease] } = (s.fail index).held ++
        lease.toList := by
        cases lease <;> simp [held, fail, List.reduceOption]
      refine settling.perm (before.trans ?_)
      change List.Perm _ (held { s.fail index with vms := s.vms ++ [lease] })
      rw [live]
      exact List.perm_append_comm
    | false => exact settling_moveOn settling found (by rw [at_stage]; rfl)
  | cleanup lease =>
    rw [at_stage] at before
    exact (settling.perm before).releasedAny

theorem held_destroy {s : Machines} {index : Nat} {lease : Option NetworkLease}
    (found : s.vms[index]? = some lease) :
    s.held.Perm (lease.toList ++ { s with vms := s.vms.eraseIdx index }.held) := by
  obtain ⟨bound, rfl⟩ := List.getElem?_eq_some_iff.mp found
  have split := (List.getElem_cons_eraseIdx_perm bound).symm.filterMap id
  have whole := (split.append_left (s.starts.filterMap (fun start => start.stage.lease)))
  cases is : s.vms[index] with
  | none =>
    rw [is] at whole
    exact whole
  | some lease =>
    rw [is] at whole
    exact whole.trans List.perm_middle

theorem settling_step {s next : Machines} {call : MachineCall}
    (settling : Settling s.held s.network)
    (careful : s.careful call = true) (stepped : s.step call =
      some next) : Settling next.held next.network := by
  cases call with
  | start id pool =>
    obtain rfl := Option.some.inj stepped
    rw [show held { s with starts := s.starts ++ [⟨id, pool, .snapshot⟩] } = s.held by
      simp [held, StartStage.lease]]
    exact settling
  | proceed index succeeds available =>
    obtain ⟨start, found, rfl⟩ := Option.map_eq_some_iff.mp stepped
    exact settling_proceed settling found careful
  | destroy index =>
    obtain ⟨lease, found, rfl⟩ := Option.map_eq_some_iff.mp stepped
    exact (settling.perm (held_destroy found)).releasedAny

/-- In every run without such a failure, what is reserved when no start is in progress is what the live machines
lease. -/
theorem reservations_held {s : Machines}
    (run : Runs.Reaches step (fun s call => s.careful call = true) prepared s)
    (quiet : s.starts = []) :
    (∀ subnet, subnet ∈ s.network.subnets ↔ ∃ lease, some lease ∈ s.vms ∧ lease.subnet = subnet) ∧
    (∀ key, key ∈ s.network.ports ↔ ∃ lease, some lease ∈ s.vms ∧ key ∈ lease.keys) := by
  have settling : Settling s.held s.network :=
    run.invariant (P := fun s => Settling s.held s.network)
    ⟨.prepared, by simp [prepared, NetworkState.prepared], by simp [prepared,
      NetworkState.prepared]⟩
    (fun settling careful stepped => settling_step settling careful stepped)
  have live : ∀ lease, lease ∈ s.held ↔ some lease ∈ s.vms := fun lease => by
    simp [held, quiet, List.reduceOption]
  refine ⟨fun subnet => ⟨fun taken => ?_, ?_⟩, fun key => ⟨fun taken => ?_, ?_⟩⟩
  · obtain ⟨lease, member, is⟩ := settling.subnets subnet taken
    exact ⟨lease, (live lease).mp member, is⟩
  · rintro ⟨lease, alive, is⟩
    exact is ▸ settling.leased.subnets lease ((live lease).mpr alive)
  · obtain ⟨lease, member, published⟩ := settling.ports key taken
    exact ⟨lease, (live lease).mp member, published⟩
  · rintro ⟨lease, alive, published⟩
    exact settling.leased.ports lease ((live lease).mpr alive) key published

/-- Two machines are started; the second one's guest does not come up. -/
theorem reservations_held_after_failure : ∃ s : Machines,
    Runs.Reaches step (fun s call => s.careful call = true) prepared s ∧ s.vms.length = 1 ∧
      ∀ key, key ∈ s.network.ports ↔ ∃ lease, some lease ∈ s.vms ∧ key ∈ lease.keys := by
  obtain ⟨s, run, ended⟩ := Runs.exists_reaches step (fun s call => s.careful call = true) prepared
    ([.start 1 Demo.publicPool, .start 2 Demo.publicPool] ++
      List.replicate 6 (.proceed 0 true (fun _ _ port => port != 30000)) ++
      [.proceed 0 true (fun _ _ port => port != 8080),
        .start 3 { Demo.publicPool with ports := [] }] ++
      List.replicate 5 (.proceed 0 true (fun _ _ _ => true)) ++ List.replicate 2
        (.proceed 0 false (fun _ _ _ => true)))
    (fun s => s.starts.isEmpty && decide (s.vms.length = 1)) (by decide +kernel)
  simp only [Bool.and_eq_true, List.isEmpty_iff, decide_eq_true_eq] at ended
  exact ⟨s, run, ended.2, (reservations_held run ended.1).2⟩

/-- The second port of a pool is in use on the host: the first one stays reserved for no machine. -/
theorem reservation_leaked : ¬ ∀ s, Runs.Reaches step (fun _ _ => True) prepared s → s.starts = [] →
    (∀ subnet, subnet ∈ s.network.subnets ↔ ∃ lease, some lease ∈ s.vms ∧ lease.subnet = subnet) ∧
    (∀ key, key ∈ s.network.ports ↔ ∃ lease, some lease ∈ s.vms ∧ key ∈ lease.keys) := by
  intro claim
  obtain ⟨s, run, ended⟩ := Runs.exists_reaches step (fun _ _ => True) prepared
    [.start 1 { Demo.publicPool with ports :=
      [⟨"http", 80, some 8080, .tcp⟩, ⟨"admin", 81, some 8081, .tcp⟩] },
      .proceed 0 true (fun _ _ port => port != 8081)]
    (fun s => s.starts.isEmpty && s.vms.isEmpty && decide ((.tcp, 8080) ∈ s.network.ports))
      (by decide +kernel)
  simp only [Bool.and_eq_true, List.isEmpty_iff, decide_eq_true_eq] at ended
  obtain ⟨⟨quiet, dead⟩, reserved⟩ := ended
  obtain ⟨lease, alive, -⟩ := ((claim s run quiet).2 (.tcp, 8080)).mp reserved
  rw [dead] at alive
  cases alive

end Machines
end Scraperack
