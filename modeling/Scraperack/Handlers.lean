import Scraperack.Storage

/-! What the request handlers of the controller do while they hold the cluster lock.
Each function takes the cluster at the moment the lock is acquired and returns the
cluster they leave behind, the database calls that follow, in order, and the reply. -/

namespace Scraperack
inductive StatusCode where
  | badRequest
  | unauthorized
  | forbidden
  | notFound
  | conflict
  | internalServerError
  | serviceUnavailable
  | insufficientStorage
  deriving DecidableEq

structure ApiError where
  status : StatusCode
  message : String
  deriving DecidableEq

/-- `internal_error`; the text comes from the database or the cipher. -/
def internalError : ApiError := ⟨.internalServerError, "internal error"⟩

inductive Reply where
  | image (image : Image)
  | pool (pool : Pool)
  | environment (environment : Environment) (ready : Bool)
  | joinToken (id : Uuid) (expiresAtMs : Nat)
  | credentials (node : Uuid)
  | node (node : Node)
  | accepted (execution : Execution)
  | flag (value : Bool)
  | work (node : Uuid) (execution : Execution) (pool : Pool) (secrets : Keyed.Table String String)
  | noWork
  | completed (node execution : Uuid)
  | noContent
  | refused (error : ApiError)
  /-- The handler panicked and its connection was closed. -/
  | panicked

/-- The calls a handler still has to make. `unlock` is the point where it drops the lock. -/
inductive Op where
  | saveCluster
  | unlock
  | saveExecution (execution : Execution)
  | saveExecutions (executions : List Execution)
  | insertExecution (execution : Execution) (secrets : Bytes) (queue : Bool)
  | deleteExecution (id : Uuid)
  | completeExecution (execution : Execution)
  | deliver (node : Uuid) (execution : Execution) (pool : Pool)
  | removeArtifact (artifact : String)

/-- What the locked section of a handler leaves behind. -/
structure Section where
  cluster : Cluster
  ops : List Op
  reply : Reply

abbrev Locked := Except ApiError Section

def require (p : Prop) [Decidable p] (status : StatusCode)
    (message : String) : Except ApiError Unit :=
  if p then .ok () else .error ⟨status, message⟩

def found {α : Type} (value : Option α) (status : StatusCode)
    (message : String) : Except ApiError α :=
  match value with
  | some value => .ok value
  | none => .error ⟨status, message⟩

theorem bind_eq_ok_iff {ε α β : Type} (first : Except ε α) (next : α → Except ε β) (b : β) :
    first >>= next = .ok b ↔ ∃ a, first = .ok a ∧ next a = .ok b := by
  cases first <;> simp [bind, Except.bind]

theorem require_eq_ok_iff (p : Prop) [Decidable p] (status : StatusCode)
    (message : String) (u : Unit) :
    require p status message = .ok u ↔ p := by
  unfold require
  split_ifs with holds <;> simp [holds]

theorem found_eq_ok_iff {α : Type} (value : Option α) (status : StatusCode)
    (message : String) (a : α) :
    found value status message = .ok a ↔ value = some a := by
  cases value <;> simp [found]

/-! Images. -/

/-- The end of `import_image`, once the image file is in place. -/
def importImage (image : Image) (c : Cluster) : Section :=
  { cluster :=
      { c with
        nodes := c.nodes.map (fun node => { node with status := .syncing }) (fun _ => rfl)
        images := c.images.insert image }
    ops := [.saveCluster, .unlock]
    reply := .image image }

structure UpdateImage where
  name : String
  executor : Option String

/-- The characters that `trim` removes: those with the Unicode property White_Space. -/
def whiteSpace (c : Char) : Bool :=
  c.toNat ∈ [0x20, 0x85, 0xA0, 0x1680, 0x2028, 0x2029, 0x202F, 0x205F, 0x3000] ||
    decide (0x9 ≤ c.toNat ∧ c.toNat ≤ 0xD) || decide (0x2000 ≤ c.toNat ∧ c.toNat ≤ 0x200A)

/-- `text.trim().is_empty()`. -/
def blank (text : String) : Bool := text.toList.all whiteSpace

def updateImage (id : Uuid) (update : UpdateImage) (c : Cluster) : Locked := do
  require (blank update.name = false) .badRequest "image name is required"
  require (c.images.any (fun image => decide (image.id ≠ id) && image.name = update.name) = false)
    .conflict "image name already exists"
  let image ← found (c.images.get id) .notFound "image not found"
  let executor := update.executor.filter (fun value => !blank value)
  let image : Image :=
    { image with name := update.name, executor := executor, kind :=
      if executor.isSome then .runtime else .microVm }
  return { cluster := { c with images := c.images.insert image }, ops :=
    [.saveCluster, .unlock], reply := .image image }

def deleteImage (id : Uuid) (c : Cluster) : Locked := do
  require ((c.pools.any (fun pool => pool.image = id) ||
    c.environments.any (fun environment => environment.image = id)) =
      false) .conflict "image is in use"
  let _ ← found (c.images.get id) .notFound "image not found"
  return {
    cluster :=
      { c with
        images := c.images.erase id
        nodes := c.nodes.map (fun node => { node with images := node.images.erase id })
          (fun _ => rfl) }
    ops := [.saveCluster, .unlock]
    reply := .noContent }

/-! Pools. -/

/-- The three sets that the port loop of `create_pool` has filled so far. -/
structure PortsSeen where
  names : List String
  guestPorts : List (PortProtocol × Nat)
  hostPorts : List (PortProtocol × Nat)

def checkPorts (seen : PortsSeen) : List PortSpec → Except ApiError Unit
  | [] => .ok ()
  | port :: rest => do
    require (blank port.name = false ∧ port.name ∉
      seen.names) .badRequest "port names must be unique and non-empty"
    require (port.guestPort ≠ 0 ∧ (port.protocol, port.guestPort) ∉ seen.guestPorts)
      .badRequest "guest ports must be unique and non-zero"
    require (∀ hostPort ∈ port.hostPort, hostPort ≠ 0 ∧ (port.protocol, hostPort) ∉ seen.hostPorts)
      .badRequest "host ports must be unique and non-zero"
    checkPorts
      { names := port.name :: seen.names
        guestPorts := (port.protocol, port.guestPort) :: seen.guestPorts
        hostPorts := port.hostPort.toList.map (fun hostPort => (port.protocol, hostPort)) ++
          seen.hostPorts }
      rest

def createPool (pool : Pool) (c : Cluster) : Locked := do
  let image ← found (c.images.get pool.image) .badRequest "unknown image"
  require (image.kind = .microVm) .badRequest "runtime images belong to execution environments"
  require (pool.managedBy = none ∧ pool.environment = none ∧ pool.preload = [])
    .badRequest "managed fields are reserved"
  require (image.compatible = true) .badRequest "image is not Scraperack compatible"
  require (c.imageReady pool.image = true) .conflict "image is still distributing"
  require (c.pools.contains pool.name = false) .conflict "pool already exists"
  require (pool.maxInstances ≠ some 0) .badRequest "max instances must be positive"
  require (∀ limit ∈ pool.maxInstances, pool.warmInstances.toNat ≤ limit)
    .badRequest "warm instances cannot exceed max instances"
  require (pool.network = true ∨ pool.ports = []) .badRequest "ports require networking"
  checkPorts ⟨[], [], []⟩ pool.ports
  return { cluster := { c with pools := c.pools.insert pool }, ops :=
    [.saveCluster, .unlock], reply := .pool pool }

def deletePool (name : String) (c : Cluster) : Locked := do
  require (c.executions.any (fun execution => execution.activeIn name) =
    false) .conflict "pool has active executions"
  require (c.pools.contains name = true) .notFound "pool not found"
  return { cluster := c.removePool name, ops := [.saveCluster, .unlock], reply := .noContent }

/-! Environments. -/

/-- `CreateEnvironment`, after the normalisation that both handlers begin with. -/
structure EnvironmentRequest where
  name : String
  image : Uuid
  packages : List String
  preload : List String
  warmInstances : UInt32
  maxInstances : Option Nat
  cpuMillis : Nat
  memoryMib : Nat
  diskMib : Nat
  timeoutSecs : Nat
  idleTimeoutSecs : Nat
  reuse : Bool
  network : Bool
  deriving DecidableEq

/-- What `prepare_environment_artifact` returns. -/
structure Artifact where
  key : Option String
  sha256 : Option String
  size : Nat
  deriving DecidableEq

def environmentPool (environment : Environment) : Pool :=
  { name := environment.pool, image := environment.image, warmInstances := environment.warmInstances
    maxInstances := environment.maxInstances, cpuMillis := environment.cpuMillis
    memoryMib := environment.memoryMib, diskMib := environment.diskMib, timeoutSecs :=
      environment.timeoutSecs
    idleTimeoutSecs := environment.idleTimeoutSecs, reuse := environment.reuse, network :=
      environment.network
    ports := [], managedBy := some "python-executor", environment := some environment.id
    environmentArtifact := environment.artifact, preload := environment.preload }

/-- The environment that both handlers build from a request and its artifact. -/
def requestedEnvironment (id : Uuid) (request : EnvironmentRequest) (image : Uuid)
    (artifact : Artifact)
    (pool : String) : Environment :=
  { id := id, name := request.name, image := image, packages := request.packages, preload :=
    request.preload
    artifact := artifact.key, sha256 := artifact.sha256, size := artifact.size, pool := pool
    warmInstances := request.warmInstances, maxInstances := request.maxInstances
    cpuMillis := request.cpuMillis, memoryMib := request.memoryMib, diskMib := request.diskMib
    timeoutSecs := request.timeoutSecs, idleTimeoutSecs := request.idleTimeoutSecs
    reuse := request.reuse, network := request.network }

/-- The checks of both handlers on the request alone. -/
def checkRequest (request : EnvironmentRequest) : Except ApiError Unit := do
  require (request.name ≠ "") .badRequest "environment name is required"
  require (request.maxInstances ≠ some 0 ∧
    ∀ limit ∈ request.maxInstances, request.warmInstances.toNat ≤ limit)
    .badRequest "invalid instance limits"

/-- `executor.to_ascii_lowercase().starts_with("python ")` of an optional executor. -/
def pythonExecutor (executor : Option String) : Bool :=
  executor.any (fun executor => "python ".toList.isPrefixOf (executor.toList.map Char.toLower))

/-- The checks on the image that both handlers make under the read lock. -/
def checkRuntimeImage (request : EnvironmentRequest) (c : Cluster) : Except ApiError Image := do
  let image ← found (c.images.get request.image) .badRequest "unknown runtime image"
  require (image.kind = .runtime ∧ pythonExecutor image.executor = true)
    .badRequest "image does not provide the Python executor"
  require (c.imageReady image.id = true) .conflict "runtime image is still distributing"
  return image

/-- `create_environment` up to its read of the cluster. -/
def checkCreateEnvironment (request : EnvironmentRequest)
    (c : Cluster) : Except ApiError Image := do
  checkRequest request
  require (c.environments.any (fun environment => environment.name = request.name) = false)
    .conflict "environment name already exists"
  checkRuntimeImage request c

/-- `create_environment` from its write lock on, under a new identifier. -/
def createEnvironment (id : Uuid) (request : EnvironmentRequest) (image : Image)
    (artifact : Artifact)
    (c : Cluster) : Section :=
  let environment := requestedEnvironment id request image.id artifact (environmentPoolName id)
  let next : Cluster :=
    { c with
      pools := c.pools.insert (environmentPool environment)
      environments := c.environments.insert environment }
  { cluster := next, ops := [.saveCluster, .unlock]
    reply := .environment environment (next.environmentReady environment) }

/-- `update_environment` up to its read of the cluster. -/
def checkUpdateEnvironment (id : Uuid) (request : EnvironmentRequest) (c : Cluster) :
    Except ApiError (Environment × Image) := do
  checkRequest request
  let old ← found (c.environments.get id) .notFound "environment not found"
  require (c.environments.any (fun environment =>
    decide (environment.id ≠ id) && environment.name = request.name) = false)
    .conflict "environment name already exists"
  let image ← checkRuntimeImage request c
  return (old, image)

/-- An execution as the loop of `restart_environment_pool` leaves it. -/
def Execution.requeued (pool : String) (execution : Execution) : Execution :=
  { execution with pool := pool, node := none, status := .queued, startedAtMs := none }

theorem Execution.requeued_id (pool : String)
    (execution : Execution) : (execution.requeued pool).id = execution.id :=
  rfl

/-- Move one execution to the environment's next pool: the body of that loop. -/
def requeue (pool : String) (c : Cluster) (executionId : Uuid) : Cluster :=
  let released :=
    if (c.executions.get executionId).any (fun execution => execution.status = .assigned)
    then c.release executionId false else c
  { released with
    executions := released.executions.adjust executionId (Execution.requeued pool)
      (Execution.requeued_id pool) }

/-- The executions that `restart_environment_pool` moves. -/
def reassignedIds (pool : String) (c : Cluster) : List Uuid :=
  (c.executions.values.filter (fun execution =>
    execution.pool = pool && (decide (execution.status = .queued) ||
      decide (execution.status = .assigned)))).map Execution.id

structure Restarted where
  cluster : Cluster
  environment : Environment
  reassigned : List Uuid
  panicked : Bool

/-- `restart_environment_pool`, with the identifier that the new pool name is cut from. -/
def restartEnvironmentPool (fresh : Uuid) (environment : Environment) (c : Cluster) : Restarted :=
  let oldPool := environment.pool
  let next : Environment := { environment with pool := restartedPoolName environment.id fresh }
  let reassigned := reassignedIds oldPool c
  let moved := reassigned.foldl (requeue next.pool) c
  if moved.executions.any (fun execution =>
    execution.pool = oldPool && decide (execution.status = .running)) then
    if moved.pools.contains oldPool then
      { cluster :=
          { moved with
            pools := (moved.pools.adjust oldPool (fun pool =>
              { pool with warmInstances := 0 }) (fun _ => rfl)).insert
              (environmentPool next) }
        environment := next, reassigned := reassigned, panicked := false }
    else { cluster := moved, environment := next, reassigned := reassigned, panicked := true }
  else
    let removed := moved.removePool oldPool
    { cluster := { removed with pools := removed.pools.insert (environmentPool next) }
      environment := next, reassigned := reassigned, panicked := false }

/-- What `update_environment` and `restart_environment` do after the pools are settled. The
copies of the moved and the scheduled executions are written after the lock is dropped. -/
def finishEnvironment (environment : Environment) (reassigned : List Uuid)
    (c : Cluster) : Section :=
  let stored : Cluster := { c with environments := c.environments.insert environment }
  let scheduled := stored.scheduleQueued
  let copies := reassigned.filterMap (fun id => scheduled.1.executions.get id)
  { cluster := scheduled.1
    ops := [.saveCluster, .unlock, .saveExecutions (copies ++ scheduled.2)]
    reply := .environment environment (scheduled.1.environmentReady environment) }

/-- A panic under the lock: the lock is released, what was changed so far stays. -/
def panicSection (c : Cluster) : Section := { cluster := c, ops := [], reply := .panicked }

/-- The condition under which `update_environment` starts a new pool. -/
def needsRebuild (old : Environment) (image : Uuid) (request : EnvironmentRequest) : Bool :=
  decide (old.image ≠ image) || decide (old.packages ≠ request.packages) ||
    decide (old.preload ≠ request.preload) ||
    decide (old.cpuMillis ≠ request.cpuMillis) || decide (old.memoryMib ≠ request.memoryMib) ||
    decide (old.diskMib ≠ request.diskMib) || decide (old.network ≠ request.network)

/-- `update_environment` from its write lock on. `old` is the copy read before the build. -/
def updateEnvironment (fresh id : Uuid) (request : EnvironmentRequest) (old : Environment)
    (image : Image)
    (artifact : Artifact) (c : Cluster) : Section :=
  let environment := requestedEnvironment id request image.id artifact old.pool
  if needsRebuild old image.id request then
    let restarted := restartEnvironmentPool fresh environment c
    if restarted.panicked then panicSection restarted.cluster
    else finishEnvironment restarted.environment restarted.reassigned restarted.cluster
  else finishEnvironment environment []
    { c with pools := c.pools.insert (environmentPool environment) }

def restartEnvironment (fresh id : Uuid) (c : Cluster) : Locked := do
  let environment ← found (c.environments.get id) .notFound "environment not found"
  let restarted := restartEnvironmentPool fresh environment c
  return (if restarted.panicked then panicSection restarted.cluster
    else finishEnvironment restarted.environment restarted.reassigned restarted.cluster)

/-- The cluster after the removal of an environment and its pool. -/
def withoutEnvironment (c : Cluster) (environment : Environment) : Cluster :=
  ({ c with environments := c.environments.erase environment.id } : Cluster).removePool
    environment.pool

/-- The removed environment's artifact, when no other environment has the same. -/
def orphanedArtifact (c : Cluster) (environment : Environment) : Option String :=
  environment.artifact.filter (fun artifact =>
    !c.environments.any (fun other => decide (other.artifact = some artifact)))

def forgetArtifact (c : Cluster) : Option String → Cluster
  | some artifact =>
    { c with nodes := c.nodes.map (fun node =>
      { node with environments := node.environments.erase artifact }) (fun _ => rfl) }
  | none => c

def deleteEnvironment (id : Uuid) (c : Cluster) : Locked := do
  require (c.executions.any (fun execution =>
      decide (execution.environment = some id) && execution.status.active) = false)
    .conflict "environment has active executions"
  let environment ← found (c.environments.get id) .notFound "environment not found"
  let removed := withoutEnvironment c environment
  let orphan := orphanedArtifact removed environment
  return {
    cluster := forgetArtifact removed orphan
    ops := .saveCluster :: orphan.toList.map Op.removeArtifact ++ [.unlock]
    reply := .noContent }

/-! Nodes and their credentials. -/

def joinTokenTtlMs : Nat := 10 * 60 * 1000

/-- `create_join_token`; `tokenHash` is the hash of the generated token. -/
def createJoinToken (id : Uuid) (tokenHash : String) (now : Nat) (c : Cluster) : Section :=
  let join : JoinToken :=
    { id := id, tokenHash := tokenHash, expiresAtMs := now + joinTokenTtlMs, usedAtMs := none }
  { cluster :=
      { c with
        joinTokens := (c.joinTokens.filter (fun item =>
          decide (now ≤ item.expiresAtMs + 86400000))).insert join }
    ops := [.saveCluster, .unlock]
    reply := .joinToken id join.expiresAtMs }

/-- The test of `join_cluster` on a token. -/
def acceptable (now : Nat) (tokenHash : String) (token : JoinToken) : Bool :=
  token.usedAtMs.isNone && decide (now < token.expiresAtMs) && decide (token.tokenHash = tokenHash)

/-- `join_cluster`; `credentialHash` is the hash of the generated credential. -/
def joinCluster (node : Uuid) (tokenHash credentialHash : String) (now : Nat)
    (c : Cluster) : Locked := do
  let token ← found (c.joinTokens.values.find? (acceptable now tokenHash)) .unauthorized
    "invalid or expired join token"
  return {
    cluster :=
      { c with
        joinTokens := c.joinTokens.adjust token.id
          (fun token => { token with usedAtMs := some now }) (fun _ => rfl)
        nodeCredentials := c.nodeCredentials.insert (node, credentialHash) }
    ops := [.saveCluster, .unlock]
    reply := .credentials node }

/-- `local_join`, from a loopback address. -/
def localJoin (node : Uuid) (credentialHash : String) (c : Cluster) : Section :=
  { cluster := { c with nodeCredentials := c.nodeCredentials.insert (node, credentialHash) }
    ops := [.saveCluster, .unlock]
    reply := .credentials node }

def updateNode (id : Uuid) (vmStartConcurrency : Nat) (c : Cluster) : Locked := do
  require (vmStartConcurrency ≠ 0) .badRequest "VM start concurrency must be at least 1"
  let node ← found (c.nodes.get id) .notFound "node not found"
  let node : Node := { node with vmStartConcurrency := some vmStartConcurrency }
  return { cluster := { c with nodes := c.nodes.insert node }, ops :=
    [.saveCluster, .unlock], reply := .node node }

/-- The common end of the handlers that schedule, save the cluster and then save the
scheduled executions, all under the lock. -/
def scheduleAndSave (c : Cluster) (reply : Reply) : Section :=
  { cluster := c.scheduleQueued.1
    ops := [.saveCluster, .saveExecutions c.scheduleQueued.2, .unlock]
    reply := reply }

def deleteNode (id : Uuid) (c : Cluster) : Locked := do
  require (c.executions.any (fun execution => execution.occupiesOn id) =
    false) .conflict "node has active executions"
  require (c.nodes.contains id = true ∨ c.nodeCredentials.contains id = true)
    .notFound "node not found"
  return scheduleAndSave
    { c with nodes := c.nodes.erase id, nodeCredentials := c.nodeCredentials.erase id } .noContent

structure RegisterNode where
  name : String
  cpuMillis : Nat
  memoryMib : Nat
  vmStartConcurrency : Option Nat
  address : Option IpAddr
  resetIdle : Bool
  vms : List MicroVm

/-- The node that `register_node` inserts when it does not know the identifier. -/
def newNode (id : Uuid) (request : RegisterNode) (now : Nat) : Node :=
  { id := id, name := request.name, cpuMillis := request.cpuMillis, memoryMib := request.memoryMib
    vmStartConcurrency := none, address := request.address, usedCpuMillis := 0, usedMemoryMib := 0
    images := ∅, environments := ∅, idleInstances := ∅, vms := [], status := .syncing
    lastSeenMs := now, clamped := false }

/-- The fields that every registration overwrites. -/
def refreshRegistration (request : RegisterNode) (now : Nat) (node : Node) : Node :=
  { node with
    name := request.name
    cpuMillis := request.cpuMillis
    memoryMib := request.memoryMib
    vmStartConcurrency := node.vmStartConcurrency.or
      (request.vmStartConcurrency.map (fun value => max value 1))
    address := request.address
    lastSeenMs := now
    vms := request.vms }

def registerNode (id : Uuid) (request : RegisterNode) (now : Nat) (c : Cluster) : Section :=
  let node := refreshRegistration request now ((c.nodes.get id).getD (newNode id request now))
  let stored : Cluster := { c with nodes := c.nodes.insert node }
  let reset := if request.resetIdle then stored.resetIdleInstances id else stored
  let refreshed := reset.refreshNode id
  let reply := ((refreshed.scheduleQueued.1.nodes.get id).map Reply.node).getD .panicked
  scheduleAndSave refreshed reply

def imageReady (id image : Uuid) (c : Cluster) : Locked := do
  require (c.images.contains image = true) .notFound "image not found"
  require (c.nodes.contains id = true) .notFound "node not found"
  let stored : Cluster :=
    { c with nodes := c.nodes.adjust id (fun node =>
      { node with images := insert image node.images }) (fun _ => rfl) }
  return scheduleAndSave (stored.refreshNode id) .noContent

def environmentReady (id : Uuid) (artifact : String) (c : Cluster) : Locked := do
  require (c.environments.any (fun environment =>
    decide (environment.artifact = some artifact)) = true)
    .notFound "environment not found"
  require (c.nodes.contains id = true) .notFound "node not found"
  return scheduleAndSave
    { c with nodes := c.nodes.adjust id (fun node =>
      { node with environments := insert artifact node.environments }) (fun _ => rfl) }
    .noContent

/-- A handler whose change of the cluster may be refused without an error. -/
def scheduleIfChanged (c : Cluster) (changed : Option Cluster) : Section :=
  match changed with
  | some next => scheduleAndSave next (.flag true)
  | none => { cluster := c, ops := [.unlock], reply := .flag false }

def addWarmInstance (id : Uuid) (pool : String) (c : Cluster) : Section :=
  scheduleIfChanged c (c.addWarmInstance id pool)

def removeIdleInstance (id : Uuid) (pool : String) (c : Cluster) : Section :=
  scheduleIfChanged c (c.removeIdleInstance id pool)

/-! Executions. -/

structure CreateExecution where
  pool : Option String
  environment : Option String
  payload : Value
  variableMap : Keyed.Table String String
  secrets : Keyed.Table String String
  queue : Bool

/-- The environment that a request names, by identifier or by name. -/
def namedEnvironment [Crates] (key : String) (c : Cluster) : Option Environment :=
  ((Crates.parseUuid key).bind c.environments.get).or
    (c.environments.values.find? (fun environment => decide (environment.name = key)))

def needsPython (payload : Value) : Bool :=
  ((payload.field "encoding").bind Value.asStr).any (fun encoding =>
    decide (encoding ∈ ["cloudpickle", "python-function", "python-source"]))

/-- The execution that `create_execution` builds once it has resolved pool and environment. -/
def newExecution (id : Uuid) (request : CreateExecution) (pool : String) (environment : Uuid)
    (now : Nat) : Execution :=
  { id := id, pool := pool, node := none, status := .queued, payload := request.payload
    variableMap := request.variableMap, result := none, error := none, createdAtMs := now
    startedAtMs := none, finishedAtMs := none, environment := some environment, metrics := none }

/-- `create_execution` up to `insert_execution`; the lock stays held. `secrets` is what
`encrypt` returned. -/
def createExecution [Crates] (id : Uuid) (request : CreateExecution) (secrets : Bytes) (now : Nat)
    (c : Cluster) : Locked := do
  let environment := request.environment.bind (fun key => namedEnvironment key c)
  require (request.environment = none ∨ environment.isSome = true) .badRequest "unknown environment"
  let poolName ← found ((environment.map Environment.pool).or request.pool) .badRequest
    "environment is required"
  let pool ← found (c.pools.get poolName) .badRequest "unknown execution environment"
  let environmentId ← found ((environment.map Environment.id).or pool.environment)
    .badRequest "VM pools cannot execute functions directly"
  match c.images.get pool.image with
  | none => return panicSection c
  | some image =>
    let executor ← found image.executor .badRequest "pool image has no executor"
    require (needsPython request.payload = false ∨ pythonExecutor (some executor) = true)
      .badRequest "pool image does not have a Python executor"
    let execution := newExecution id request poolName environmentId now
    return {
      cluster := c
      ops := [.insertExecution execution secrets request.queue]
      reply := .accepted execution }

/-- `create_execution` after `insert_execution` accepted the row. -/
def admitExecution (execution : Execution) (queue : Bool) (c : Cluster) : Section :=
  let stored : Cluster := { c with executions := c.executions.insert execution }
  match stored.schedule execution.id with
  | some next =>
    let copy := (next.executions.get execution.id).getD execution
    { cluster := next, ops := [.saveExecution copy, .unlock], reply := .accepted copy }
  | none =>
    if queue then { cluster := stored, ops :=
      [.saveExecution execution, .unlock], reply := .accepted execution }
    else
      { cluster := { stored with executions := stored.executions.erase execution.id }
        ops := [.deleteExecution execution.id, .unlock]
        reply := .refused ⟨.serviceUnavailable, "cluster is full"⟩ }

/-- The digest is 64 lower-case hexadecimal digits: the check of `working_dir_path`. -/
def validDigest (digest : String) : Bool :=
  decide (digest.utf8ByteSize = 64) &&
    digest.toList.all (fun c => c.isDigit || decide ('a' ≤ c ∧ c ≤ 'f'))

/-- The checks of `create_execution` before it takes the lock. -/
def checkWorkingDir (uploaded : Finset String) (payload : Value) : Except ApiError Unit :=
  match payload.field "working_dir" with
  | none => .ok ()
  | some workingDir => do
    let digest ← found workingDir.asStr .badRequest "working directory hash must be a string"
    require (validDigest digest = true) .badRequest "invalid working directory hash"
    require (digest ∈ uploaded) .badRequest "working directory was not uploaded"

def assignedTo (node : Uuid) (execution : Execution) : Bool :=
  execution.node = some node && decide (execution.status = .assigned)

/-- The assignment to the fields of the execution that `next_work` found. -/
def Cluster.start (c : Cluster) (id : Uuid) (now : Nat) : Cluster :=
  { c with
    executions := c.executions.adjust id (fun execution =>
      { execution with status := .running, startedAtMs := some now }) (fun _ => rfl) }

/-- One turn of the loop of `next_work`. `choice` is the execution on which the iteration over
the hash map stops, `none` when no execution is assigned to the node. -/
def nextWork (id : Uuid) (choice : Option Uuid) (now : Nat) (c : Cluster) : Locked := do
  require (c.nodes.contains id = true) .notFound "node not found"
  match choice.bind (fun choice => c.executions.get choice) with
  | none => return { cluster := c, ops := [.unlock], reply := .noWork }
  | some execution =>
    let started := c.start execution.id now
    let execution : Execution := { execution with status := .running, startedAtMs := some now }
    match c.pools.get execution.pool with
    | none => return panicSection started
    | some pool =>
      return {
        cluster := started
        ops := [.unlock, .saveExecution execution, .deliver id execution pool]
        reply := .refused internalError }

structure CompleteExecution where
  result : Option Value
  error : Option String
  timedOut : Option Bool
  metrics : Option ExecutionMetrics
  keepIdle : Bool

def finalStatus (request : CompleteExecution) : ExecutionStatus :=
  if request.timedOut.getD
    false then .timedOut else if request.error.isSome then .failed else .succeeded

/-- The execution with the outcome that the node reported. -/
def finished (request : CompleteExecution) (now : Nat) (execution : Execution) : Execution :=
  { execution with
    status := finalStatus request
    result := request.result
    error := request.error
    metrics := request.metrics
    finishedAtMs := some now }

theorem finished_id (request : CompleteExecution) (now : Nat) (execution : Execution) :
    (finished request now execution).id = execution.id := rfl

/-- No environment and no active execution uses the pool any more. -/
def stalePool (pool : String) (c : Cluster) : Bool :=
  !c.environments.any (fun environment => environment.pool = pool) &&
    !c.executions.any (fun execution => execution.activeIn pool)

def completeExecution (node id : Uuid) (request : CompleteExecution) (now : Nat)
    (c : Cluster) : Locked := do
  let execution ← found (c.executions.get id) .notFound "execution not found"
  require (execution.node = some node) .forbidden "execution belongs to another node"
  let marked : Cluster :=
    { c with executions := c.executions.adjust id (finished request now) (finished_id request now) }
  let released := marked.release id request.keepIdle
  let cleaned := if stalePool execution.pool released then released.removePool
    execution.pool else released
  let scheduled := cleaned.scheduleQueued
  -- The copy that is stored is taken here; the scheduler leaves a finished execution alone.
  return {
    cluster := { scheduled.1 with executions := scheduled.1.executions.erase id }
    ops := [.saveCluster, .unlock, .saveExecutions scheduled.2,
      .completeExecution (finished request now execution)]
    reply := .completed node id }

end Scraperack
