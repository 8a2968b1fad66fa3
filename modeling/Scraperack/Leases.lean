import Scraperack.Data
import Scraperack.Runs
import Scraperack.Cursor

/-! The networks of the virtual machines of one node: each machine with a network leases a block of four
addresses and the host ports of its pool. -/

namespace Scraperack

def portStart : Nat := 30000
def portEnd : Nat := 49999

structure NetworkLease where
  subnet : Nat
  tap : String
  guestIp : Nat
  gateway : Nat
  ports : List PublishedPort
  deriving DecidableEq

def PublishedPort.key (port : PublishedPort) : PortProtocol × Nat := (port.protocol, port.hostPort)

structure NetworkState where
  nextSubnet : Nat
  nextPort : Nat
  subnets : Finset Nat
  ports : Finset (PortProtocol × Nat)

inductive AllocateError where
  | addressSpace
  | host (port : Nat) (protocol : PortProtocol)
  | portRange
  deriving DecidableEq

def PortProtocol.debug : PortProtocol → String
  | .tcp => "Tcp"
  | .udp => "Udp"

def AllocateError.message : AllocateError → String
  | .addressSpace => "network address space exhausted"
  | .host port protocol => "host " ++ toString port ++ "/" ++ protocol.debug ++ " is unavailable"
  | .portRange => "dynamic host port range exhausted"

/-- What `port_available` answers, for each port of the pool in turn. -/
abbrev Probe := Nat → PortProtocol → Nat → Bool

def advanceSubnet (subnet : Nat) : Nat := (subnet + 1) % 65536 % 16384

def advancePort (port : Nat) : Nat := if port = portEnd then portStart else port + 1

/-- The address 10.240.0.0. -/
def networkBase : Nat := 10 * 2 ^ 24 + 240 * 2 ^ 16

def leaseOf (id : Uuid) (subnet : Nat) (ports : List PublishedPort) : NetworkLease :=
  let base := networkBase + subnet * 4
  { subnet := subnet, tap := "srk" ++ String.ofList (id.digits.take 11), gateway :=
    base + 1, guestIp := base + 2
    ports := ports }

namespace NetworkState

/-- The state that `Network::prepare` begins with. -/
def prepared : NetworkState := ⟨0, portStart, ∅, ∅⟩

/-- The host port for one port of the pool. -/
def findPort (available : PortProtocol → Nat → Bool) (state : NetworkState) (spec : PortSpec) :
    Except AllocateError Nat × NetworkState :=
  match spec.hostPort with
  | some port =>
    if (spec.protocol, port) ∈ state.ports ∨ available spec.protocol port = false then
      (.error (.host port spec.protocol), state)
    else (.ok port, state)
  | none =>
    match Cursor.scan advancePort
        (fun port => decide ((spec.protocol, port) ∉ state.ports) && available spec.protocol port)
        (portEnd + 1 - portStart) state.nextPort with
    | (none, cursor) => (.error .portRange, { state with nextPort := cursor })
    | (some port, cursor) => (.ok port, { state with nextPort := cursor })

/-- The loop of `Network::allocate` over the ports of the pool, from the one with this index on. -/
def reservePorts (available : Probe) :
    Nat → List PortSpec → NetworkState → Except AllocateError (List PublishedPort) × NetworkState
  | _, [], state => (.ok [], state)
  | index, spec :: rest, state =>
    match findPort (available index) state spec with
    | (.error error, next) => (.error error, next)
    | (.ok port, next) =>
      match reservePorts available (index + 1) rest
        { next with ports := insert (spec.protocol, port) next.ports } with
      | (.error error, last) => (.error error, last)
      | (.ok ports, last) => (.ok (⟨spec.name, spec.guestPort, port, spec.protocol⟩ :: ports), last)

/-- `Network::allocate` up to the end of its critical section. -/
def allocate (available : Probe) (id : Uuid) (pool : Pool) (state : NetworkState) :
    Except AllocateError NetworkLease × NetworkState :=
  match Cursor.scan advanceSubnet (fun subnet =>
    decide (subnet ∉ state.subnets)) 16384 state.nextSubnet with
  | (none, cursor) => (.error .addressSpace, { state with nextSubnet := cursor })
  | (some subnet, cursor) =>
    match reservePorts available 0 pool.ports { state with nextSubnet := cursor } with
    | (.error error, next) => (.error error, next)
    | (.ok ports, next) => (.ok (leaseOf id subnet ports),
        { next with subnets := insert subnet next.subnets })

/-- The critical section of `Network::release`. -/
def release (lease : NetworkLease) (state : NetworkState) : NetworkState :=
  { state with
    subnets := state.subnets.erase lease.subnet
    ports := lease.ports.foldl (fun ports port => ports.erase port.key) state.ports }

end NetworkState

/-- The published port is one for the port of the pool: the fixed one, or one of the dynamic range. -/
def PortSpec.Fits (spec : PortSpec) (port : PublishedPort) : Prop :=
  port.name = spec.name ∧ port.guestPort = spec.guestPort ∧ port.protocol = spec.protocol ∧
    match spec.hostPort with
    | some fixed => port.hostPort = fixed
    | none => portStart ≤ port.hostPort ∧ port.hostPort ≤ portEnd

abbrev InPortRange (port : Nat) : Prop := Cursor.Within portStart (portEnd + 1 - portStart) port

theorem inPortRange_iff {port : Nat} : InPortRange port ↔ portStart ≤ port ∧ port ≤ portEnd := by
  unfold InPortRange Cursor.Within portStart portEnd
  omega

theorem advanceSubnet_cycles : Cursor.Cycles 0 16384 advanceSubnet := by
  intro offset small
  unfold advanceSubnet
  omega

theorem advancePort_cycles : Cursor.Cycles portStart (portEnd + 1 - portStart) advancePort := by
  intro offset small
  unfold advancePort portStart portEnd at *
  split_ifs <;> omega

namespace NetworkState

theorem findPort_frame {available : PortProtocol → Nat → Bool} {state next : NetworkState}
    {spec : PortSpec}
    {result : Except AllocateError Nat} (found : findPort available state spec = (result, next))
    (cursor : InPortRange state.nextPort) :
    next = { state with nextPort := next.nextPort } ∧ InPortRange next.nextPort := by
  unfold findPort at found
  cases fixed : spec.hostPort with
  | some port =>
    simp only [fixed] at found
    split_ifs at found <;> cases found <;> exact ⟨rfl, cursor⟩
  | none =>
    simp only [fixed] at found
    have inside := Cursor.scan_cursor
      (fun port => decide ((spec.protocol, port) ∉ state.ports) && available spec.protocol port)
      advancePort_cycles (portEnd + 1 - portStart) cursor
    split at found <;> rename_i at_end <;> cases found <;> rw [at_end] at inside <;>
      exact ⟨rfl, inside⟩

theorem findPort_ok {available : PortProtocol → Nat → Bool} {state next : NetworkState}
    {spec : PortSpec} {port : Nat}
    (found : findPort available state spec = (.ok port, next))
    (cursor : InPortRange state.nextPort) :
    (spec.protocol, port) ∉ state.ports ∧
      spec.Fits ⟨spec.name, spec.guestPort, port, spec.protocol⟩ := by
  unfold findPort at found
  unfold PortSpec.Fits
  cases fixed : spec.hostPort with
  | some wanted =>
    simp only [fixed] at found
    split_ifs at found with refused <;> cases found
    exact ⟨fun reserved => refused (Or.inl reserved), rfl, rfl, rfl, rfl⟩
  | none =>
    simp only [fixed] at found
    split at found <;> rename_i stopped <;> cases found
    have free := Cursor.scan_found advancePort_cycles _ cursor (congrArg Prod.fst stopped)
    simp only [Bool.and_eq_true, decide_eq_true_eq] at free
    exact ⟨free.1.1, rfl, rfl, rfl, inPortRange_iff.mp free.2⟩

theorem findPort_error {available : PortProtocol → Nat → Bool} {state next : NetworkState}
    {spec : PortSpec}
    {error : AllocateError} (found : findPort available state spec = (.error error, next))
    (cursor : InPortRange state.nextPort) :
    error ≠ .addressSpace ∧ (error = .portRange → spec.hostPort = none ∧
      ∀ port, InPortRange port → (spec.protocol, port) ∈ state.ports ∨
        available spec.protocol port = false) := by
  unfold findPort at found
  cases fixed : spec.hostPort with
  | some wanted =>
    simp only [fixed] at found
    split_ifs at found <;> cases found
    exact ⟨by simp, fun same => (by cases same)⟩
  | none =>
    simp only [fixed] at found
    split at found <;> rename_i stopped <;> cases found
    refine ⟨by simp, fun _ => ⟨rfl, fun port inside => ?_⟩⟩
    have busy := Cursor.scan_round advancePort_cycles cursor (congrArg Prod.fst stopped) inside
    by_cases reserved : (spec.protocol, port) ∈ state.ports
    · exact Or.inl reserved
    · right
      simpa [reserved] using busy

/-- What the loop over the ports does to the state, whatever its result. -/
structure Reserves (available : Probe) (index : Nat) (specs : List PortSpec) (state : NetworkState)
    (result : Except AllocateError (List PublishedPort)) (next : NetworkState) : Prop where
  subnets : next.subnets = state.subnets
  nextSubnet : next.nextSubnet = state.nextSubnet
  cursor : InPortRange next.nextPort
  grows : state.ports ⊆ next.ports
  ok : ∀ ports, result = .ok ports → (∀ key, key ∈ next.ports ↔
    key ∈ ports.map PublishedPort.key ∨ key ∈ state.ports) ∧
    (ports.map PublishedPort.key).Nodup ∧ (∀ port ∈ ports, port.key ∉ state.ports) ∧
      List.Forall₂ PortSpec.Fits specs ports
  space : result ≠ .error .addressSpace
  vain : result = .error .portRange → ∃ later spec, specs[later]? = some spec ∧
    spec.hostPort = none ∧
    ∀ port, InPortRange port → (spec.protocol, port) ∈ next.ports ∨
      available (index + later) spec.protocol port = false

theorem reservePorts_reserves (available : Probe) (index : Nat)
    (specs : List PortSpec) (state : NetworkState)
    (cursor : InPortRange state.nextPort) :
    Reserves available index specs state (reservePorts available index specs state).1
      (reservePorts available index specs state).2 := by
  induction specs generalizing index state with
  | nil =>
    refine ⟨rfl, rfl, cursor, fun _ held =>
      held, fun ports done => ?_, by simp [reservePorts], by simp [reservePorts]⟩
    obtain rfl := Except.ok.inj done
    exact ⟨by simp [reservePorts], by simp, by simp, .nil⟩
  | cons spec rest ih =>
    rcases found : findPort (available index) state spec with ⟨error | port, next⟩
    · obtain ⟨same, inside⟩ := findPort_frame found cursor
      obtain ⟨space, vain⟩ := findPort_error found cursor
      simp only [reservePorts, found]
      have ports : next.ports = state.ports := by rw [same]
      refine ⟨by rw [same], by rw [same], inside, by rw [ports], by simp, by simpa using space,
        fun is => ?_⟩
      obtain ⟨dynamic, busy⟩ := vain (Except.error.inj is)
      exact ⟨0, spec, rfl, dynamic, fun port inside => by rw [ports]; exact busy port inside⟩
    · obtain ⟨same, inside⟩ := findPort_frame found cursor
      obtain ⟨new, fits⟩ := findPort_ok found cursor
      have old : next.ports = state.ports := by rw [same]
      have later := ih (index + 1)
        { next with ports := insert (spec.protocol, port) next.ports } inside
      simp only [reservePorts, found]
      have grows : state.ports ⊆ (reservePorts available (index + 1) rest
          { next with ports := insert (spec.protocol, port) next.ports }).2.ports := fun key held =>
        later.grows (Finset.mem_insert_of_mem (by rwa [old]))
      rcases done : reservePorts available (index + 1) rest
        { next with ports := insert (spec.protocol, port) next.ports } with ⟨error | ports, last⟩
      · rw [done] at later grows
        refine ⟨by rw [later.subnets,
          same], by rw [later.nextSubnet, same], later.cursor, grows, by simp,
          by simpa using later.space, fun is => ?_⟩
        obtain ⟨offset, other, at_offset, dynamic, busy⟩ := later.vain is
        refine ⟨offset + 1, other, at_offset, dynamic, fun port inside => ?_⟩
        rw [show index + (offset + 1) = index + 1 + offset by omega]
        exact busy port inside
      · rw [done] at later grows
        refine ⟨by rw [later.subnets,
          same], by rw [later.nextSubnet, same], later.cursor, grows, fun all is => ?_,
          by simp, by simp⟩
        obtain rfl := Except.ok.inj is
        obtain ⟨exactly, apart, fresh, every⟩ := later.ok ports rfl
        refine ⟨fun key => ?_, ?_, ?_, .cons fits every⟩
        · rw [exactly, Finset.mem_insert, old, List.map_cons, List.mem_cons]
          exact ⟨fun h => by tauto, fun h => by tauto⟩
        · refine List.nodup_cons.mpr ⟨fun twice => ?_, apart⟩
          obtain ⟨port', member, key⟩ := List.mem_map.mp twice
          exact fresh port' member (by rw [key]; exact Finset.mem_insert_self _ _)
        · intro other member
          rcases List.mem_cons.mp member with rfl | member
          · exact new
          · exact fun held => fresh other member (Finset.mem_insert_of_mem (by rwa [old]))

/-- What an allocation does to the state, and what its result says. -/
structure Allocates (available : Probe) (id : Uuid) (pool : Pool) (state : NetworkState)
    (result : Except AllocateError NetworkLease) (next : NetworkState) : Prop where
  nextSubnet : Cursor.Within 0 16384 next.nextSubnet
  nextPort : InPortRange next.nextPort
  grows : state.ports ⊆ next.ports
  failed : ∀ error, result = .error error → next.subnets = state.subnets
  ok : ∀ lease, result = .ok lease → ∃ subnet ports, lease = leaseOf id subnet ports ∧
    subnet < 16384 ∧
    subnet ∉ state.subnets ∧ next.subnets = insert subnet state.subnets ∧
    (∀ key, key ∈ next.ports ↔ key ∈ ports.map PublishedPort.key ∨ key ∈ state.ports) ∧
    (ports.map PublishedPort.key).Nodup ∧ (∀ port ∈ ports, port.key ∉ state.ports) ∧
    List.Forall₂ PortSpec.Fits pool.ports ports
  space : result = .error .addressSpace → ∀ subnet, subnet < 16384 → subnet ∈ state.subnets
  vain : result = .error .portRange → ∃ index spec, pool.ports[index]? = some spec ∧
    spec.hostPort = none ∧
    ∀ port, InPortRange port → (spec.protocol, port) ∈ next.ports ∨
      available index spec.protocol port = false

theorem allocate_allocates (available : Probe) (id : Uuid) (pool : Pool) (state : NetworkState)
    (subnets : Cursor.Within 0 16384 state.nextSubnet) (ports : InPortRange state.nextPort) :
    Allocates available id pool state (allocate available id pool state).1
      (allocate available id pool state).2 := by
  have cursor := Cursor.scan_cursor (fun subnet =>
    decide (subnet ∉ state.subnets)) advanceSubnet_cycles
    16384 subnets
  unfold allocate
  rcases stopped : Cursor.scan advanceSubnet
    (fun subnet => decide (subnet ∉ state.subnets)) 16384 state.nextSubnet
    with ⟨_ | subnet, next⟩
  · rw [stopped] at cursor
    refine ⟨cursor, ports, fun _ held => held, fun _ _ => rfl, by
      simp, fun _ subnet small => ?_, by simp⟩
    have busy := Cursor.scan_round advanceSubnet_cycles subnets (congrArg Prod.fst stopped)
      (show Cursor.Within 0 16384 subnet from ⟨by omega, by omega⟩)
    simpa using busy
  · rw [stopped] at cursor
    obtain ⟨free, inside⟩ := Cursor.scan_found advanceSubnet_cycles _ subnets
      (congrArg Prod.fst stopped)
    have loop := reservePorts_reserves available 0 pool.ports
      { state with nextSubnet := next } ports
    rcases done : reservePorts available 0 pool.ports { state with nextSubnet :=
      next } with ⟨error | published, last⟩
    · rw [done] at loop
      simp only [done]
      refine ⟨by
        rw [loop.nextSubnet]; exact cursor, loop.cursor, loop.grows, fun _ _ =>
        loop.subnets, by simp,
        fun is => ?_, fun is => ?_⟩
      · exact absurd is (by simpa using loop.space)
      · obtain ⟨index, spec, found⟩ := loop.vain (by simpa using is)
        exact ⟨index, spec, by simpa using found⟩
    · rw [done] at loop
      simp only [done]
      refine ⟨by
        rw [loop.nextSubnet]; exact cursor, loop.cursor, loop.grows, by
        simp, fun lease is => ?_, by simp,
        by simp⟩
      obtain rfl := Except.ok.inj is
      refine ⟨subnet, published, rfl, ?_, by
        simpa using free, by rw [loop.subnets], loop.ok published rfl⟩
      obtain ⟨_, high⟩ := inside
      omega

theorem mem_release_ports (lease : NetworkLease) (state : NetworkState) (key : PortProtocol × Nat) :
    key ∈ (state.release lease).ports ↔
      key ∈ state.ports ∧ key ∉ lease.ports.map PublishedPort.key := by
  have erased : ∀ (published : List PublishedPort) (ports : Finset (PortProtocol × Nat)),
      key ∈ published.foldl (fun ports port => ports.erase port.key) ports ↔
        key ∈ ports ∧ key ∉ published.map PublishedPort.key := by
    intro published
    induction published with
    | nil => simp
    | cons port rest ih =>
      intro ports
      rw [List.foldl_cons, ih, Finset.mem_erase, List.map_cons, List.mem_cons]
      tauto
  exact erased lease.ports state.ports

end NetworkState

def NetworkLease.keys (lease : NetworkLease) : List (PortProtocol × Nat) :=
  lease.ports.map PublishedPort.key

/-- The leases do not overlap, and the state keeps what they hold reserved. -/
structure Leased (held : List NetworkLease) (state : NetworkState) : Prop where
  nextSubnet : Cursor.Within 0 16384 state.nextSubnet
  nextPort : InPortRange state.nextPort
  inside : ∀ lease ∈ held, lease.subnet < 16384
  subnets : ∀ lease ∈ held, lease.subnet ∈ state.subnets
  ports : ∀ lease ∈ held, ∀ key ∈ lease.keys, key ∈ state.ports
  subnetsApart : (held.map NetworkLease.subnet).Nodup
  portsApart : (held.flatMap NetworkLease.keys).Nodup

namespace Leased

theorem prepared : Leased [] .prepared :=
  ⟨⟨by decide, by decide⟩, ⟨by decide, by decide⟩, by simp, by simp, by simp, by simp, by simp⟩

theorem perm {held other : List NetworkLease} {state : NetworkState} (leased : Leased held state)
    (same : held.Perm other) : Leased other state :=
  ⟨leased.nextSubnet, leased.nextPort, fun lease member =>
    leased.inside lease (same.mem_iff.mpr member),
    fun lease member => leased.subnets lease (same.mem_iff.mpr member),
    fun lease member => leased.ports lease (same.mem_iff.mpr member),
    (same.map _).nodup_iff.mp leased.subnetsApart,
      (same.flatMap_right _).nodup_iff.mp leased.portsApart⟩

variable {available : Probe} {id : Uuid} {pool : Pool} {held : List NetworkLease}
  {state next : NetworkState}

theorem allocated {lease : NetworkLease} (leased : Leased held state)
    (done : state.allocate available id pool = (.ok lease, next)) : Leased
      (lease :: held) next := by
  have step := NetworkState.allocate_allocates available id pool state leased.nextSubnet
    leased.nextPort
  rw [done] at step
  obtain ⟨subnet, ports, rfl, small, fresh, subnets, exactly, apart, free, _⟩ := step.ok lease rfl
  refine ⟨step.nextSubnet, step.nextPort, ?_, ?_, ?_, ?_, ?_⟩
  · intro other member
    rcases List.mem_cons.mp member with rfl | member
    · exact small
    · exact leased.inside other member
  · intro other member
    rw [subnets]
    rcases List.mem_cons.mp member with rfl | member
    · exact Finset.mem_insert_self _ _
    · exact Finset.mem_insert_of_mem (leased.subnets other member)
  · intro other member key published
    rw [exactly]
    rcases List.mem_cons.mp member with rfl | member
    · exact Or.inl published
    · exact Or.inr (leased.ports other member key published)
  · refine List.nodup_cons.mpr ⟨fun twice => ?_, leased.subnetsApart⟩
    obtain ⟨other, member, same⟩ := List.mem_map.mp twice
    exact fresh ((show other.subnet = subnet from same) ▸ leased.subnets other member)
  · rw [List.flatMap_cons]
    refine List.nodup_append.mpr ⟨apart, leased.portsApart, fun key mine other theirs same => ?_⟩
    subst same
    obtain ⟨port, published, rfl⟩ := List.mem_map.mp mine
    obtain ⟨lease, member, key⟩ := List.mem_flatMap.mp theirs
    exact free port published (leased.ports lease member _ key)

theorem refused {error : AllocateError} (leased : Leased held state)
    (done : state.allocate available id pool = (.error error, next)) : Leased held next := by
  have step := NetworkState.allocate_allocates available id pool state leased.nextSubnet
    leased.nextPort
  rw [done] at step
  exact ⟨step.nextSubnet, step.nextPort, leased.inside,
    fun lease member => by rw [step.failed error rfl]; exact leased.subnets lease member,
    fun lease member key published => step.grows (leased.ports lease member key published),
    leased.subnetsApart, leased.portsApart⟩

theorem released {lease : NetworkLease} (leased : Leased (lease :: held) state) : Leased held
    (state.release lease) := by
  obtain ⟨alone, apart⟩ := List.nodup_cons.mp leased.subnetsApart
  obtain ⟨_, portsApart, never⟩ := List.nodup_append.mp (List.flatMap_cons ▸ leased.portsApart)
  refine ⟨leased.nextSubnet, leased.nextPort, fun other member =>
    leased.inside other (List.mem_cons_of_mem _ member),
    fun other member => ?_, fun other member key published => ?_, apart, portsApart⟩
  · refine Finset.mem_erase.mpr ⟨fun same => ?_,
      leased.subnets other (List.mem_cons_of_mem _ member)⟩
    exact alone (same ▸ List.mem_map_of_mem member)
  · refine (NetworkState.mem_release_ports lease state key).mpr
      ⟨leased.ports other (List.mem_cons_of_mem _ member) key published, fun mine => ?_⟩
    exact never key mine key (List.mem_flatMap.mpr ⟨other, member, published⟩) rfl

end Leased

/-- A lease, with the pool that it was allocated for. -/
structure Holding where
  pool : Pool
  lease : NetworkLease

/-- A node's network and the leases that are alive: allocated, and not yet released. -/
structure Leasing where
  network : NetworkState
  holdings : List Holding

/-- The critical sections, in the order in which the lock is taken. An allocation whose host commands fail is
one that is released. -/
inductive NetworkCall where
  | allocate (id : Uuid) (pool : Pool) (available : Probe)
  | release (index : Nat)

namespace Leasing

def prepared : Leasing := ⟨.prepared, []⟩

def step (s : Leasing) : NetworkCall → Option Leasing
  | .allocate id pool available =>
    match s.network.allocate available id pool with
    | (.error _, next) => some ⟨next, s.holdings⟩
    | (.ok lease, next) => some ⟨next, s.holdings ++ [⟨pool, lease⟩]⟩
  | .release index =>
    s.holdings[index]?.map (fun holding =>
      ⟨s.network.release holding.lease, s.holdings.eraseIdx index⟩)

end Leasing

/-- The addresses of the lease's /30 block. -/
def NetworkLease.InBlock (lease : NetworkLease) (address : Nat) : Prop :=
  networkBase + lease.subnet * 4 ≤ address ∧ address < networkBase + lease.subnet * 4 + 4

/-- Two leases that have nothing in common. -/
def NetworkLease.Apart (lease other : NetworkLease) : Prop :=
  lease.subnet ≠ other.subnet ∧ (∀ key ∈ lease.keys, key ∉ other.keys) ∧
    ∀ address, lease.InBlock address → ¬ other.InBlock address

/-- The lease is sound in itself: its addresses are in its block, its block is in 10.240.0.0/16, no host port is
published twice, and the ports are those of the pool, the dynamic ones in their range. -/
structure Holding.Proper (holding : Holding) : Prop where
  gateway : holding.lease.InBlock holding.lease.gateway
  guest : holding.lease.InBlock holding.lease.guestIp
  network : ∀ address, holding.lease.InBlock address →
    networkBase ≤ address ∧ address < networkBase + 65536
  once : holding.lease.keys.Nodup
  fits : List.Forall₂ PortSpec.Fits holding.pool.ports holding.lease.ports

theorem NetworkLease.apart_of_subnet {lease other : NetworkLease}
    (subnets : lease.subnet ≠ other.subnet)
    (ports : ∀ key ∈ lease.keys, key ∉ other.keys) : lease.Apart other := by
  refine ⟨subnets, ports, fun address mine theirs => ?_⟩
  unfold InBlock at mine theirs
  omega

theorem Holding.proper_of_allocated {available : Probe} {id : Uuid} {pool : Pool}
    {state next : NetworkState}
    {lease : NetworkLease} {held : List NetworkLease} (leased : Leased held state)
    (done : state.allocate available id pool =
      (.ok lease, next)) : (Holding.mk pool lease).Proper := by
  have step := NetworkState.allocate_allocates available id pool state leased.nextSubnet
    leased.nextPort
  rw [done] at step
  obtain ⟨subnet, ports, rfl, small, -, -, -, once, -, fits⟩ := step.ok lease rfl
  refine ⟨?_, ?_, ?_, once, fits⟩
  · exact ⟨Nat.le_succ _, Nat.add_lt_add_left (by decide) _⟩
  · exact ⟨Nat.le_add_right _ 2, Nat.add_lt_add_left (by decide) _⟩
  · intro address inside
    simp only [NetworkLease.InBlock, leaseOf] at inside
    omega

namespace Leasing

def leases (s : Leasing) : List NetworkLease := s.holdings.map Holding.lease

structure Sound (s : Leasing) : Prop where
  leased : Leased s.leases s.network
  exactly : ∀ subnet ∈ s.network.subnets, ∃ holding ∈ s.holdings, holding.lease.subnet = subnet
  proper : ∀ holding ∈ s.holdings, holding.Proper

theorem sound_prepared : Sound .prepared :=
  ⟨.prepared, by simp [prepared, NetworkState.prepared], by simp [prepared]⟩

theorem Sound.step {s next : Leasing} {call : NetworkCall} (sound : s.Sound)
    (stepped : s.step call = some next) :
    next.Sound := by
  cases call with
  | allocate id pool available =>
    rcases done : s.network.allocate available id pool with ⟨error | lease, after⟩
    · simp only [Leasing.step, done, Option.some.injEq] at stepped
      obtain rfl := stepped
      have same := (NetworkState.allocate_allocates available id pool s.network
        sound.leased.nextSubnet
        sound.leased.nextPort).failed error (by rw [done])
      rw [done] at same
      refine ⟨sound.leased.refused done, fun subnet taken => ?_, sound.proper⟩
      exact sound.exactly subnet (by rwa [← same])
    · simp only [Leasing.step, done, Option.some.injEq] at stepped
      obtain rfl := stepped
      refine ⟨?_, fun subnet taken => ?_, fun holding member => ?_⟩
      · refine (sound.leased.allocated done).perm ?_
        rw [show leases ⟨after, s.holdings ++ [⟨pool, lease⟩]⟩ = s.leases ++
          [lease] from List.map_append]
        exact (List.perm_append_singleton _ _).symm
      · have same := (NetworkState.allocate_allocates available id pool s.network
          sound.leased.nextSubnet
          sound.leased.nextPort).ok lease (by rw [done])
        rw [done] at same
        obtain ⟨own, ports, rfl, -, -, subnets, -⟩ := same
        rcases Finset.mem_insert.mp (subnets ▸ taken) with rfl | old
        · exact ⟨_, List.mem_append_right _ (List.mem_singleton_self _), rfl⟩
        · obtain ⟨holding, member, is⟩ := sound.exactly subnet old
          exact ⟨holding, List.mem_append_left _ member, is⟩
      · rcases List.mem_append.mp member with old | new
        · exact sound.proper holding old
        · obtain rfl := List.mem_singleton.mp new
          exact Holding.proper_of_allocated sound.leased done
  | release index =>
    obtain ⟨holding, found, rfl⟩ := Option.map_eq_some_iff.mp stepped
    obtain ⟨bound, rfl⟩ := List.getElem?_eq_some_iff.mp found
    have split := List.getElem_cons_eraseIdx_perm bound
    refine ⟨(sound.leased.perm (split.map Holding.lease).symm).released, fun subnet taken => ?_,
      fun other member => ?_⟩
    · obtain ⟨other', taken⟩ := Finset.mem_erase.mp taken
      obtain ⟨other, member, rfl⟩ := sound.exactly subnet taken
      rcases List.mem_cons.mp (split.mem_iff.mpr member) with rfl | kept
      · exact absurd rfl other'
      · exact ⟨other, kept, rfl⟩
    · exact sound.proper other (split.mem_iff.mp (List.mem_cons_of_mem _ member))

theorem Sound.apart {s : Leasing} (sound : s.Sound) :
    s.holdings.Pairwise (fun holding other => holding.lease.Apart other.lease) := by
  have subnets := List.pairwise_map.mp (List.pairwise_map.mp sound.leased.subnetsApart)
  have ports := (List.nodup_flatMap.mp sound.leased.portsApart).2
  refine (subnets.and (List.pairwise_map.mp ports)).imp fun {holding other} both => ?_
  exact NetworkLease.apart_of_subnet both.1 (fun key mine theirs => both.2 mine theirs)

/-- After any allocations and releases, the leases alive have nothing in common and are sound in themselves. An
allocation finds the address space exhausted only when each of the 16384 subnets is leased, and the dynamic
ports only when each of them is reserved or found unavailable. -/
theorem leases_never_overlap {s : Leasing} (run : Runs.Reaches step (fun _ _ => True) prepared s) :
    s.holdings.Pairwise (fun holding other => holding.lease.Apart other.lease) ∧
    (∀ holding ∈ s.holdings, holding.Proper) ∧
    (∀ available id pool, (s.network.allocate available id pool).1 = .error .addressSpace →
      ∀ subnet, subnet < 16384 → ∃ holding ∈ s.holdings, holding.lease.subnet = subnet) ∧
    (∀ available id pool next, s.network.allocate available id pool = (.error .portRange, next) →
      ∃ index spec, pool.ports[index]? = some spec ∧ spec.hostPort = none ∧
        ∀ port, portStart ≤ port → port ≤ portEnd →
        (spec.protocol, port) ∈ next.ports ∨ available index spec.protocol port = false) := by
  have sound := run.invariant sound_prepared (fun sound _ stepped => sound.step stepped)
  refine ⟨sound.apart, sound.proper, fun available id pool exhausted subnet small => ?_,
    fun available id pool next exhausted => ?_⟩
  · have step := NetworkState.allocate_allocates available id pool s.network sound.leased.nextSubnet
      sound.leased.nextPort
    exact sound.exactly subnet (step.space exhausted subnet small)
  · have step := NetworkState.allocate_allocates available id pool s.network sound.leased.nextSubnet
      sound.leased.nextPort
    rw [exhausted] at step
    obtain ⟨index, spec, found, dynamic, busy⟩ := step.vain rfl
    exact ⟨index, spec, found, dynamic, fun port low high =>
      busy port (inPortRange_iff.mpr ⟨low, high⟩)⟩

end Leasing

namespace Demo

/-- A pool that publishes a fixed port and a dynamic one. -/
def publicPool : Pool :=
  ⟨"web", 7, 1, none, 200, 100, 1, 60, 60, false, true,
    [⟨"http", 80, some 8080, .tcp⟩, ⟨"metrics", 9090, none, .tcp⟩], none, none, none, []⟩

end Demo

namespace Leasing

theorem leases_never_overlap_reused : ∃ s : Leasing,
    Runs.Reaches step (fun _ _ => True) prepared s ∧ s.holdings.length = 2 ∧
      s.holdings.Pairwise (fun holding other => holding.lease.Apart other.lease) := by
  obtain ⟨s, run, two⟩ := Runs.exists_reaches step (fun _ _ => True) prepared
    [.allocate 1 Demo.publicPool (fun _ _ _ => true),
      .allocate 2 { Demo.publicPool with ports := [] } (fun _ _ _ => true),
      .allocate 3 Demo.publicPool (fun _ _ _ => true),
        .release 0, .allocate 4 Demo.publicPool (fun _ _ _ => true)]
    (fun s => decide (s.holdings.length = 2)) (by decide +kernel)
  exact ⟨s, run, of_decide_eq_true two, (leases_never_overlap run).1⟩

end Leasing
end Scraperack
