import Scraperack.Counters
import Scraperack.Identity
import Scraperack.Keyed

/-! The records of the cluster: images, pools, environments, nodes, executions and
the state the controller keeps in memory. Unsigned integers are natural numbers; where an operation
could leave the range of the source's type, the operation says so. Only `warm_instances`
keeps its 32 bits as a type: they bound the warm instances a node may be asked for. -/

namespace Scraperack
open Counters

abbrev Bytes := List UInt8

/-- A JSON document. Numbers keep their text. -/
inductive Value where
  | null
  | bool (value : Bool)
  | number (text : String)
  | string (value : String)
  | array (items : List Value)
  | object (fields : List (String × Value))
  deriving Inhabited

/-- `Value::get` with a field name. -/
def Value.field (name : String) : Value → Option Value
  | .object fields => (fields.find? (fun entry => entry.1 = name)).map Prod.snd
  | _ => none

def Value.asStr : Value → Option String
  | .string value => some value
  | _ => none

inductive ImageKind where
  | microVm
  | runtime
  deriving DecidableEq

structure Image where
  id : Uuid
  name : String
  sha256 : String
  size : Nat
  compatible : Bool
  executor : Option String
  kind : ImageKind
  dockerSource : Option String
  deriving DecidableEq

inductive PortProtocol where
  | tcp
  | udp
  deriving DecidableEq

structure PortSpec where
  name : String
  guestPort : Nat
  hostPort : Option Nat
  protocol : PortProtocol
  deriving DecidableEq

structure PublishedPort where
  name : String
  guestPort : Nat
  hostPort : Nat
  protocol : PortProtocol
  deriving DecidableEq

structure Pool where
  name : String
  image : Uuid
  warmInstances : UInt32
  maxInstances : Option Nat
  cpuMillis : Nat
  memoryMib : Nat
  diskMib : Nat
  timeoutSecs : Nat
  idleTimeoutSecs : Nat
  reuse : Bool
  network : Bool
  ports : List PortSpec
  managedBy : Option String
  environment : Option Uuid
  environmentArtifact : Option String
  preload : List String
  deriving DecidableEq

structure Environment where
  id : Uuid
  name : String
  image : Uuid
  packages : List String
  preload : List String
  artifact : Option String
  sha256 : Option String
  size : Nat
  pool : String
  warmInstances : UInt32
  maxInstances : Option Nat
  cpuMillis : Nat
  memoryMib : Nat
  diskMib : Nat
  timeoutSecs : Nat
  idleTimeoutSecs : Nat
  reuse : Bool
  network : Bool
  deriving DecidableEq

inductive NodeStatus where
  | syncing
  | ready
  deriving DecidableEq

inductive VmStatus where
  | idle
  | running
  deriving DecidableEq

inductive IpAddr where
  | v4 (address : BitVec 32)
  | v6 (address : BitVec 128)
  deriving DecidableEq

structure MicroVm where
  id : Uuid
  pool : String
  status : VmStatus
  execution : Option Uuid
  pid : Option Nat
  cpuMillis : Nat
  memoryMib : Nat
  guestIp : Option (BitVec 32)
  ports : List PublishedPort
  environment : Option Uuid
  deriving DecidableEq

/-- The two kinds of capacity that a node accounts for. -/
inductive Resource where
  | cpu
  | memory
  deriving DecidableEq

structure Node where
  id : Uuid
  name : String
  cpuMillis : Nat
  memoryMib : Nat
  vmStartConcurrency : Option Nat
  address : Option IpAddr
  usedCpuMillis : Nat
  usedMemoryMib : Nat
  images : Finset Uuid
  environments : Finset String
  idleInstances : Keyed.Table String Nat
  vms : List MicroVm
  status : NodeStatus
  lastSeenMs : Nat
  /-- Ghost: a saturating subtraction on a used counter has clamped. No function reads it. -/
  clamped : Bool

structure JoinToken where
  id : Uuid
  tokenHash : String
  expiresAtMs : Nat
  usedAtMs : Option Nat
  deriving DecidableEq

inductive ExecutionStatus where
  | queued
  | assigned
  | running
  | succeeded
  | failed
  | timedOut
  deriving DecidableEq

/-- The percentages are IEEE single-precision bit patterns; nothing computes with them here. -/
structure ExecutionMetricPoint where
  elapsedMs : Nat
  cpuPercent : BitVec 32
  memoryPercent : BitVec 32
  deriving DecidableEq

structure ExecutionMetrics where
  averageCpuPercent : BitVec 32
  averageMemoryPercent : BitVec 32
  peakMemoryPercent : BitVec 32
  samples : List ExecutionMetricPoint
  deriving DecidableEq

structure Execution where
  id : Uuid
  pool : String
  node : Option Uuid
  status : ExecutionStatus
  payload : Value
  /-- The field `variables` of the source; that word is taken in Lean. -/
  variableMap : Keyed.Table String String
  result : Option Value
  error : Option String
  createdAtMs : Nat
  startedAtMs : Option Nat
  finishedAtMs : Option Nat
  environment : Option Uuid
  metrics : Option ExecutionMetrics

/-- Ghost record of one successful call of `schedule`: whether it took an idle instance,
and whether an older execution of the same pool was still queued at that moment. -/
structure Decision where
  execution : Uuid
  reused : Bool
  overtook : Bool
  deriving DecidableEq

structure Cluster where
  images : Keyed Image.id
  pools : Keyed Pool.name
  nodes : Keyed Node.id
  executions : Keyed Execution.id
  environments : Keyed Environment.id
  joinTokens : Keyed JoinToken.id
  nodeCredentials : Keyed.Table Uuid String
  roundRobin : Nat
  /-- Ghost: the calls of `schedule` that assigned an execution, newest first. No function reads it. -/
  decisions : List Decision

/-- `Cluster::default`. -/
def Cluster.empty : Cluster := ⟨∅, ∅, ∅, ∅, ∅, ∅, ∅, 0, []⟩

namespace ExecutionStatus

/-- `matches!(status, Assigned | Running)`. -/
def onNode : ExecutionStatus → Bool
  | assigned | running => true
  | _ => false

/-- `matches!(status, Queued | Assigned | Running)`. -/
def active : ExecutionStatus → Bool
  | queued | assigned | running => true
  | _ => false

/-- `matches!(status, Succeeded | Failed | TimedOut)`. -/
def terminal : ExecutionStatus → Bool
  | succeeded | failed | timedOut => true
  | _ => false

@[simp] theorem active_eq_not_terminal
    (status : ExecutionStatus) : status.active = !status.terminal := by
  cases status <;> rfl

theorem active_of_onNode {status : ExecutionStatus}
    (on : status.onNode = true) : status.active = true := by
  cases status <;> first | rfl | cases on

theorem active_cases {status : ExecutionStatus} (active : status.active = true) :
    status = queued ∨ status.onNode = true := by
  cases status <;> simp_all [ExecutionStatus.active, onNode]

end ExecutionStatus

def Pool.size (pool : Pool) : Resource → Nat
  | .cpu => pool.cpuMillis
  | .memory => pool.memoryMib

namespace Node

def used (node : Node) : Resource → Nat
  | .cpu => node.usedCpuMillis
  | .memory => node.usedMemoryMib

/-- `node.idle_instances.get(name).copied().unwrap_or(0)`. -/
def idle (node : Node) (name : String) : Nat := ((node.idleInstances.get name).map Prod.snd).getD 0

def setIdle (node : Node) (name : String) (count : Nat) : Node :=
  { node with idleInstances := node.idleInstances.insert (name, count) }

/-- `node.idle_instances.remove(name)`. -/
def dropIdle (node : Node) (name : String) : Node :=
  { node with idleInstances := node.idleInstances.erase name }

/-- Both used counters grow by one instance of the pool. -/
def reserve (node : Node) (pool : Pool) : Node :=
  { node with
    usedCpuMillis := saturatingAdd node.usedCpuMillis pool.cpuMillis
    usedMemoryMib := saturatingAdd node.usedMemoryMib pool.memoryMib }

/-- Both used counters shrink by the given amounts. -/
def free (node : Node) (cpuMillis memoryMib : Nat) : Node :=
  { node with
    usedCpuMillis := saturatingSub node.usedCpuMillis cpuMillis
    usedMemoryMib := saturatingSub node.usedMemoryMib memoryMib
    clamped := node.clamped || decide (node.usedCpuMillis < cpuMillis) ||
      decide (node.usedMemoryMib < memoryMib) }

/-- Both used counters shrink by `count` instances of the pool. -/
def freeMany (node : Node) (pool : Pool) (count : Nat) : Node :=
  node.free (saturatingMul pool.cpuMillis count) (saturatingMul pool.memoryMib count)

@[simp] theorem setIdle_id (node : Node) (name : String)
    (count : Nat) : (node.setIdle name count).id = node.id := rfl
@[simp] theorem dropIdle_id (node : Node) (name : String) : (node.dropIdle name).id = node.id := rfl
@[simp] theorem reserve_id (node : Node) (pool : Pool) : (node.reserve pool).id = node.id := rfl
@[simp] theorem free_id (node : Node)
    (cpu memory : Nat) : (node.free cpu memory).id = node.id := rfl
@[simp] theorem freeMany_id (node : Node) (pool : Pool)
    (count : Nat) : (node.freeMany pool count).id = node.id := rfl

theorem idle_setIdle (node : Node) (name other : String) (count : Nat) :
    (node.setIdle name count).idle other = if other = name then count else node.idle other := by
  simp only [idle, setIdle, Keyed.get_insert]
  split_ifs <;> rfl

@[simp] theorem idle_setIdle_self (node : Node) (name : String) (count : Nat) :
    (node.setIdle name count).idle name = count := by
  simp [idle_setIdle]

theorem idle_dropIdle (node : Node) (name other : String) :
    (node.dropIdle name).idle other = if other = name then 0 else node.idle other := by
  simp only [idle, dropIdle, Keyed.get_erase]
  split_ifs <;> rfl

@[simp] theorem idle_reserve (node : Node) (pool : Pool) (name : String) :
    (node.reserve pool).idle name = node.idle name := rfl
@[simp] theorem idle_free (node : Node) (cpu memory : Nat) (name : String) :
    (node.free cpu memory).idle name = node.idle name := rfl
@[simp] theorem idle_freeMany (node : Node) (pool : Pool) (count : Nat) (name : String) :
    (node.freeMany pool count).idle name = node.idle name := rfl

@[simp] theorem used_setIdle (node : Node) (name : String) (count : Nat) (r : Resource) :
    (node.setIdle name count).used r = node.used r := by cases r <;> rfl
@[simp] theorem used_dropIdle (node : Node) (name : String) (r : Resource) :
    (node.dropIdle name).used r = node.used r := by cases r <;> rfl
@[simp] theorem used_reserve (node : Node) (pool : Pool) (r : Resource) :
    (node.reserve pool).used r = saturatingAdd (node.used r) (pool.size r) := by cases r <;> rfl
@[simp] theorem used_freeMany (node : Node) (pool : Pool) (count : Nat) (r : Resource) :
    (node.freeMany pool count).used r =
      saturatingSub (node.used r) (saturatingMul (pool.size r) count) := by
  cases r <;> rfl

@[simp] theorem clamped_setIdle (node : Node) (name : String) (count : Nat) :
    (node.setIdle name count).clamped = node.clamped := rfl
@[simp] theorem clamped_dropIdle (node : Node) (name : String) :
    (node.dropIdle name).clamped = node.clamped := rfl
@[simp] theorem clamped_reserve (node : Node)
    (pool : Pool) : (node.reserve pool).clamped = node.clamped := rfl

/-- Freeing one instance of a pool. -/
theorem used_free (node : Node) (pool : Pool) (r : Resource) :
    (node.free pool.cpuMillis pool.memoryMib).used r =
      saturatingSub (node.used r) (pool.size r) := by
  cases r <;> rfl

theorem clamped_free (node : Node) (pool : Pool) (enough : ∀ r, pool.size r ≤ node.used r) :
    (node.free pool.cpuMillis pool.memoryMib).clamped = node.clamped := by
  have cpu := enough .cpu
  have memory := enough .memory
  simp only [Pool.size, used] at cpu memory
  simp [free, Nat.not_lt.mpr cpu, Nat.not_lt.mpr memory]

/-- No counter clamps when both hold at least what is taken. -/
theorem clamped_freeMany (node : Node) (pool : Pool) (count : Nat)
    (enough : ∀ r, saturatingMul (pool.size r) count ≤ node.used r) :
    (node.freeMany pool count).clamped = node.clamped := by
  have cpu := enough .cpu
  have memory := enough .memory
  simp only [Pool.size, used] at cpu memory
  simp [freeMany, free, Nat.not_lt.mpr cpu, Nat.not_lt.mpr memory]

end Node

namespace Execution

/-- The execution occupies an instance of the named pool. -/
def occupies (execution : Execution) (pool : String) : Bool :=
  execution.pool = pool && execution.status.onNode

/-- The execution occupies an instance on the node. -/
def occupiesOn (execution : Execution) (node : Uuid) : Bool :=
  execution.node = some node && execution.status.onNode

/-- The execution is queued in the named pool or occupies an instance of it. -/
def activeIn (execution : Execution) (pool : String) : Bool :=
  execution.pool = pool && execution.status.active

end Execution

end Scraperack
