import Scraperack.Handlers
import Scraperack.Runs

/-! The controller process as a transition system. A section that holds the cluster lock
is one step up to its first database call, and each call after it is a step of its own;
handlers in flight interleave freely, except that one of them at most holds the lock. -/

namespace Scraperack
variable [Crates]

/-- A locked section together with everything the handler brings into it. -/
inductive Commit where
  | importImage (image : Image)
  | updateImage (id : Uuid) (update : UpdateImage)
  | deleteImage (id : Uuid)
  | createPool (pool : Pool)
  | deletePool (name : String)
  | createEnvironment (id : Uuid) (request : EnvironmentRequest) (image : Image)
      (artifact : Artifact)
  | updateEnvironment (fresh id : Uuid) (request : EnvironmentRequest) (old : Environment)
      (image : Image)
      (artifact : Artifact)
  | restartEnvironment (fresh id : Uuid)
  | deleteEnvironment (id : Uuid)
  | createJoinToken (id : Uuid) (tokenHash : String) (now : Nat)
  | joinCluster (node : Uuid) (tokenHash credentialHash : String) (now : Nat)
  | localJoin (node : Uuid) (credentialHash : String)
  | updateNode (id : Uuid) (vmStartConcurrency : Nat)
  | deleteNode (id : Uuid)
  | registerNode (id : Uuid) (request : RegisterNode) (now : Nat)
  | imageReady (id image : Uuid)
  | environmentReady (id : Uuid) (artifact : String)
  | addWarmInstance (id : Uuid) (pool : String)
  | removeIdleInstance (id : Uuid) (pool : String)
  | createExecution (id : Uuid) (request : CreateExecution) (secrets : Bytes) (now : Nat)
  | nextWork (id : Uuid) (choice : Option Uuid) (now : Nat)
  | completeExecution (node id : Uuid) (request : CompleteExecution) (now : Nat)

namespace Commit

def run (c : Cluster) : Commit → Locked
  | importImage image => .ok (Scraperack.importImage image c)
  | updateImage id update => Scraperack.updateImage id update c
  | deleteImage id => Scraperack.deleteImage id c
  | createPool pool => Scraperack.createPool pool c
  | deletePool name => Scraperack.deletePool name c
  | createEnvironment id request image artifact =>
      .ok (Scraperack.createEnvironment id request image artifact c)
  | updateEnvironment fresh id request old image artifact =>
    .ok (Scraperack.updateEnvironment fresh id request old image artifact c)
  | restartEnvironment fresh id => Scraperack.restartEnvironment fresh id c
  | deleteEnvironment id => Scraperack.deleteEnvironment id c
  | createJoinToken id tokenHash now => .ok (Scraperack.createJoinToken id tokenHash now c)
  | joinCluster node tokenHash credentialHash now =>
      Scraperack.joinCluster node tokenHash credentialHash now c
  | localJoin node credentialHash => .ok (Scraperack.localJoin node credentialHash c)
  | updateNode id vmStartConcurrency => Scraperack.updateNode id vmStartConcurrency c
  | deleteNode id => Scraperack.deleteNode id c
  | registerNode id request now => .ok (Scraperack.registerNode id request now c)
  | imageReady id image => Scraperack.imageReady id image c
  | environmentReady id artifact => Scraperack.environmentReady id artifact c
  | addWarmInstance id pool => .ok (Scraperack.addWarmInstance id pool c)
  | removeIdleInstance id pool => .ok (Scraperack.removeIdleInstance id pool c)
  | createExecution id request secrets now => Scraperack.createExecution id request secrets now c
  | nextWork id choice now => Scraperack.nextWork id choice now c
  | completeExecution node id request now => Scraperack.completeExecution node id request now c

/-- The handler runs this section first thing, with nothing read before. -/
def direct : Commit → Bool
  | updateImage .. | deleteImage .. | createPool .. | deletePool .. | restartEnvironment
      .. | deleteEnvironment ..
  | createJoinToken .. | joinCluster .. | localJoin .. | updateNode .. | deleteNode
      .. | createExecution .. => true
  | _ => false

/-- The identifiers that `Uuid::new_v4` produced for this section. -/
def issues : Commit → List Uuid
  | importImage image => [image.id]
  | createEnvironment id .. | createJoinToken id .. | createExecution id .. => [id]
  | joinCluster node .. => [node]
  | _ => []

/-- The pool name that the section makes from a generated identifier. -/
def newPoolName : Commit → Option String
  | createEnvironment id .. => some (environmentPoolName id)
  | updateEnvironment fresh id .. | restartEnvironment fresh id => some (restartedPoolName id fresh)
  | _ => none

/-- The execution on which `next_work` stops is one assigned to the node, if there is one. -/
def choiceFits (c : Cluster) : Commit → Bool
  | nextWork id (some choice) _ => (c.executions.get choice).any (assignedTo id)
  | nextWork id none _ => !c.executions.any (assignedTo id)
  | _ => true

end Commit

/-- A request of a node, as it stands between its authentication and the cluster lock. -/
inductive NodeRequest where
  | register (request : RegisterNode)
  | imageReady (image : Uuid)
  | environmentReady (artifact : String)
  | addWarmInstance (pool : String)
  | removeIdleInstance (pool : String)
  | nextWork
  | completeExecution (id : Uuid) (request : CompleteExecution)

/-- How far `create_environment` or `update_environment` has come in preparing its artifact. -/
inductive Stage where
  | looking
  | building
  | measuring
  | hashing (size : Nat)
  | ready (artifact : Artifact)
  deriving DecidableEq

/-- A `create_environment` (without `old`) or `update_environment` (with the copy it read). -/
structure Job where
  old : Option Environment
  request : EnvironmentRequest
  image : Image
  stage : Stage

inductive Frame where
  | authenticated (node : Uuid) (request : NodeRequest)
  | environment (job : Job)
  | importing (name : String)
  | running (ops : List Op) (reply : Reply)

/-- What the surroundings supply when a section starts: the clock, a generated identifier, the
order of a hash map, and the image that a build produced. -/
structure Input where
  now : Nat
  fresh : Uuid
  choice : Option Uuid
  built : Option Image

def NodeRequest.commit (node : Uuid) (input : Input) : NodeRequest → Commit
  | register request => .registerNode node request input.now
  | imageReady image => .imageReady node image
  | environmentReady artifact => .environmentReady node artifact
  | addWarmInstance pool => .addWarmInstance node pool
  | removeIdleInstance pool => .removeIdleInstance node pool
  | nextWork => .nextWork node input.choice input.now
  | completeExecution id request => .completeExecution node id request input.now

def Job.commit (input : Input) (job : Job) : Option Commit :=
  match job.stage, job.old with
  | .ready artifact, none => some (.createEnvironment input.fresh job.request job.image artifact)
  | .ready artifact, some old => some
      (.updateEnvironment input.fresh old.id job.request old job.image artifact)
  | _, _ => none

/-- The section with which the handler takes the write lock, when it is ready for it. -/
def Frame.commit (input : Input) : Frame → Option Commit
  | authenticated node request => some (request.commit node input)
  | environment job => job.commit input
  | importing name => (input.built.filter (fun image => decide (image.name = name))).map
      Commit.importImage
  | running _ _ => none

def Op.needsLock : Op → Bool
  | unlock | insertExecution .. => true
  | _ => false

def Frame.holdsLock : Frame → Bool
  | running ops _ => ops.any Op.needsLock
  | _ => false

structure System where
  cluster : Cluster
  database : Database
  key : Bytes
  /-- The files of the directory `environments`. -/
  files : Keyed.Table String Bytes
  workingDirs : Finset String
  /-- Handlers in flight. Those past their section stand in the order of their sections. -/
  inflight : List Frame
  /-- Ghost: the identifiers generated so far. -/
  issued : List Uuid
  /-- Ghost: the replies sent so far, newest first. -/
  replies : List Reply
  /-- Ghost: the cluster, with its executions, that was saved last. -/
  lastSave : Cluster

inductive PrepareEvent where
  | look
  | built (content : Bytes)
  | measure
  | hash
  | fail

inductive Label where
  /-- A client's request enters its locked section. -/
  | client (commit : Commit)
  /-- A node's request passes `authenticated_node` with the hash of its credential, and the
  comparison with the node it claims to be in its path or body. -/
  | authenticate (node : Uuid) (hash : String) (claimed : Option Uuid) (request : NodeRequest)
  /-- The first reads of `create_environment` (no identifier) or `update_environment`. -/
  | checkEnvironment (id : Option Uuid) (request : EnvironmentRequest)
  | checkImport (name : String)
  /-- A handler in flight takes the write lock. -/
  | enter (index : Nat) (input : Input)
  /-- A handler in flight goes on with its artifact. -/
  | prepare (index : Nat) (event : PrepareEvent)
  /-- A handler in flight makes its next call, which succeeds or fails. -/
  | op (index : Nat) (succeeds : Bool)
  | uploadWorkingDir (digest : String) (body : Bytes)
  | prune (now : Nat)
  | updateSettings (retentionHours maxStorageBytes : Nat)
  /-- The process stops, wherever it is, and `serve` starts the next one. -/
  | restart (fresh : String → Uuid) (now : Nat)

namespace System

/-- Some handler holds the write lock. -/
def locked (s : System) : Bool := s.inflight.any Frame.holdsLock

/-- A generated identifier is new, and no pool has the name made from one. -/
def allows (s : System) (commit : Commit) : Bool :=
  commit.issues.all (fun id => decide (id ∉ s.issued)) &&
    commit.newPoolName.all (fun name => !s.cluster.pools.contains name) &&
      commit.choiceFits s.cluster

/-- Run a locked section; the handler joins the others in flight with the calls it has left. -/
def perform (s : System) (commit : Commit) (others : List Frame) : System :=
  match commit.run s.cluster with
  | .error error =>
    { s with inflight := others, issued := commit.issues ++ s.issued, replies :=
      .refused error :: s.replies }
  | .ok result =>
    { s with
      cluster := result.cluster
      inflight := others ++ [.running result.ops result.reply]
      issued := commit.issues ++ s.issued }

/-- The reply is sent and the handler is done. -/
def answer (s : System) (others : List Frame) (reply : Reply) : System :=
  { s with inflight := others, replies := reply :: s.replies }

def utf8 (text : String) : Bytes := text.toUTF8.toList

/-- `environment_key`. -/
def environmentKey (imageSha256 : String) (packages : List String) : String :=
  Crates.sha256 (utf8 "v2" ++ utf8 imageSha256 ++
    packages.flatMap (fun package => 0 :: utf8 package))

def Job.key (job : Job) : String := environmentKey job.image.sha256 job.request.packages

/-- The start of `prepare_environment_artifact`. -/
def firstStage (image : Image) (packages : List String) : Except ApiError Stage :=
  if packages = [] then .ok (.ready ⟨none, none, 0⟩)
  else if image.dockerSource.isSome then .ok .looking
  else .error ⟨.badRequest, "package environments require a Docker-imported runtime image"⟩

def startJob (s : System) (id : Option Uuid) (request : EnvironmentRequest) : Except ApiError Job :=
  match id with
  | none => do
    let image ← checkCreateEnvironment request s.cluster
    let stage ← firstStage image request.packages
    return { old := none, request := request, image := image, stage := stage }
  | some id => do
    let (old, image) ← checkUpdateEnvironment id request s.cluster
    let stage ←
      if old.image ≠ image.id ∨ old.packages ≠
        request.packages then firstStage image request.packages
      else .ok (.ready ⟨old.artifact, old.sha256, old.size⟩)
    return { old := some old, request := request, image := image, stage := stage }

/-- The next step of `prepare_environment_artifact`: the files it leaves, and the job or a refusal. -/
def prepareJob (files : Keyed.Table String Bytes) (job : Job) :
    PrepareEvent → Option (Keyed.Table String Bytes × Except ApiError Job)
  | .look =>
    if job.stage = .looking then
      some (files, .ok { job with stage := if files.contains (Job.key
        job) then .measuring else .building })
    else none
  | .built content =>
    if job.stage = .building then some (files.insert (Job.key job, content),
      .ok { job with stage := .measuring })
    else none
  | .measure =>
    if job.stage = .measuring then
      match files.get (Job.key job) with
      | some file => some (files, .ok { job with stage := .hashing file.2.length })
      | none => some (files, .error internalError)
    else none
  | .hash =>
    match job.stage with
    | .hashing size =>
      match files.get (Job.key job) with
      | some file => some (files,
          .ok { job with stage := .ready ⟨some (Job.key job), some (Crates.sha256 file.2), size⟩ })
      | none => some (files, .error internalError)
    | _ => none
  | .fail =>
    match job.stage with
    | .building => some (files, .error ⟨.badRequest, "build failed"⟩)
    | .measuring | .hashing _ => some (files, .error internalError)
    | _ => none

/-- What one call of a handler does: the new system and the handler's remaining calls and
reply, or no result when the call returned an error. -/
def runOp (s : System) (rest : List Op) (reply : Reply) : Op → Option (System × List Op × Reply)
  | .saveCluster => some ({ s with database := s.database.saveCluster s.cluster, lastSave :=
      s.cluster }, rest, reply)
  | .unlock => some (s, rest, reply)
  | .saveExecution execution =>
      some ({ s with database := s.database.saveExecution execution }, rest, reply)
  | .saveExecutions executions => some
      ({ s with database := s.database.saveExecutions executions }, rest, reply)
  | .deleteExecution id => some ({ s with database := s.database.deleteExecution id }, rest, reply)
  | .insertExecution execution secrets queue =>
    (s.database.insertExecution execution secrets).map (fun inserted =>
      if inserted.2 then
        let result := admitExecution execution queue s.cluster
        ({ s with database := inserted.1, cluster := result.cluster }, result.ops, result.reply)
      else
        ({ s with database := inserted.1 }, [],
          .refused ⟨.insufficientStorage, "controller execution storage is full"⟩))
  | .completeExecution execution =>
    (s.database.completeExecution execution).map
      (fun database => ({ s with database := database }, rest, reply))
  | .deliver node execution pool =>
    (decryptSecrets s.key execution.id ((s.database.executionSecrets execution.id).getD [])).map
      (fun secrets => (s, rest, .work node execution pool secrets))
  | .removeArtifact artifact => some ({ s with files := s.files.erase artifact }, rest, reply)

/-- The next call of the handler at `index`. A failed database call ends the handler. -/
def callOp (s : System) (index : Nat) (op : Op) (rest : List Op) (reply : Reply)
    (succeeds : Bool) : Option System :=
  if succeeds then
    match s.runOp rest reply op with
    | some (next, ops, reply) =>
        some { next with inflight := s.inflight.set index (.running ops reply) }
    | none => some (s.answer (s.inflight.eraseIdx index) (.refused internalError))
  else
    match op with
    | .unlock => none
    | .removeArtifact _ => some { s with inflight := s.inflight.set index (.running rest reply) }
    | _ => some (s.answer (s.inflight.eraseIdx index) (.refused internalError))

/-- The pools that `migrate_legacy` turns into environments. -/
def legacyPools (c : Cluster) : List Pool :=
  c.pools.values.filter (fun pool =>
    pool.managedBy.isNone && ((c.images.get pool.image).bind Image.executor).isSome)

def migratedEnvironment (id : Uuid) (old : Pool) : Environment :=
  { id := id, name := old.name, image := old.image, packages := [], preload := [], artifact := none
    sha256 := none, size := 0, pool := old.name, warmInstances := old.warmInstances
    maxInstances := old.maxInstances, cpuMillis := old.cpuMillis, memoryMib := old.memoryMib
    diskMib := old.diskMib, timeoutSecs := old.timeoutSecs, idleTimeoutSecs := old.idleTimeoutSecs
    reuse := old.reuse, network := old.network }

def migratePool (fresh : String → Uuid) (c : Cluster) (old : Pool) : Cluster :=
  { c with
    pools := c.pools.adjust old.name (fun pool =>
      { pool with managedBy := some "python-executor", environment := some (fresh old.name) })
        (fun _ => rfl)
    executions := c.executions.map (fun execution =>
      { execution with
        environment := if execution.pool = old.name then some
          (fresh old.name) else execution.environment }) (fun _ => rfl)
    environments := c.environments.insert (migratedEnvironment (fresh old.name) old) }

/-- `migrate_legacy`; `fresh` gives the identifier generated for each pool. -/
def migrateLegacy (fresh : String → Uuid) (c : Cluster) : Cluster :=
  (legacyPools c).foldl (migratePool fresh) c

/-- The cluster and the database when `serve` begins to accept requests. `stateJson` is the
cluster of a legacy state file, read when the database holds none. -/
def serve (database : Database) (stateJson : Option Cluster) (fresh : String → Uuid) (now : Nat) :
    Option (Cluster × Database) :=
  let stored := database.cluster.getD (stateJson.getD Cluster.empty)
  let migrated := migrateLegacy fresh stored
  let loaded := database.loadActiveExecutions
  let cluster : Cluster :=
    { migrated with executions := loaded.2.foldl Keyed.insert migrated.executions }
  (prune (loaded.1.saveCluster cluster) now none).map (fun database => (cluster, database))

/-- The identifiers generated for the legacy pools are new and different. -/
def freshFits (s : System) (fresh : String → Uuid) : Bool :=
  let ids := (legacyPools (s.database.cluster.getD Cluster.empty)).map (fun pool => fresh pool.name)
  decide ids.Nodup && ids.all (fun id => decide (id ∉ s.issued))

def step (s : System) : Label → Option System
  | .client commit =>
    if s.locked || !commit.direct || !s.allows commit then none
    else
      match commit with
      | .createExecution _ request _ _ =>
        match checkWorkingDir s.workingDirs request.payload with
        | .ok _ => some (s.perform commit s.inflight)
        | .error error => some (s.answer s.inflight (.refused error))
      | _ => some (s.perform commit s.inflight)
  | .authenticate node hash claimed request =>
    if s.locked then none
    else if s.cluster.nodeCredentials.get node ≠ some (node, hash) then
      some (s.answer s.inflight (.refused ⟨.unauthorized, "invalid node credential"⟩))
    else if claimed.any (fun claimed => decide (claimed ≠ node)) then
      some (s.answer s.inflight (.refused ⟨.forbidden, "node identity mismatch"⟩))
    else some { s with inflight := s.inflight ++ [.authenticated node request] }
  | .checkEnvironment id request =>
    if s.locked then none
    else
      match s.startJob id request with
      | .ok job => some { s with inflight := s.inflight ++ [.environment job] }
      | .error error => some (s.answer s.inflight (.refused error))
  | .checkImport name =>
    if s.locked then none
    else if s.cluster.images.any (fun image => image.name = name) then
      some (s.answer s.inflight (.refused ⟨.conflict, "image name already exists"⟩))
    else some { s with inflight := s.inflight ++ [.importing name] }
  | .enter index input =>
    match (s.inflight[index]?).bind (Frame.commit input) with
    | none => none
    | some commit =>
      if s.locked || !s.allows commit then none else some
        (s.perform commit (s.inflight.eraseIdx index))
  | .prepare index event =>
    match s.inflight[index]? with
    | some (.environment job) =>
      match prepareJob s.files job event with
      | none => none
      | some (files, .ok job) =>
          some { s with files := files, inflight := s.inflight.set index (.environment job) }
      | some (files, .error error) =>
        some { s.answer (s.inflight.eraseIdx index) (.refused error) with files := files }
    | _ => none
  | .op index succeeds =>
    match s.inflight[index]? with
    | some (.running [] reply) => some (s.answer (s.inflight.eraseIdx index) reply)
    | some (.running (op :: rest) reply) => s.callOp index op rest reply succeeds
    | _ => none
  | .uploadWorkingDir digest body =>
    if validDigest digest && (decide (digest ∈ s.workingDirs) ||
      decide (Crates.sha256 body = digest)) then
      some { s with workingDirs := insert digest s.workingDirs }
    else none
  | .prune now => some { s with database := (Scraperack.prune s.database now none).getD s.database }
  | .updateSettings retentionHours maxStorageBytes =>
    if 1 ≤ retentionHours ∧ retentionHours ≤ 24 ∧ maxStorageBytes ≠ 0 then
      some { s with database :=
        { s.database with retentionMs := retentionHours * 3600000, maxStorageBytes :=
          maxStorageBytes } }
    else none
  | .restart fresh now =>
    if s.freshFits fresh then
      (serve s.database none fresh now).map (fun served =>
        { s with
          cluster := served.1
          database := served.2
          inflight := []
          issued := (legacyPools (s.database.cluster.getD Cluster.empty)).map
            (fun pool => fresh pool.name) ++ s.issued
          replies := []
          lastSave := served.1 })
    else none

end System

/-! A small installation: the runs on fixed inputs below and in later modules take place there. -/

namespace Demo

/-- Stand-ins for the crates. Nothing in these runs depends on more than that different bytes have
different digests. -/
abbrev crates : Crates where
  parseUuid _ := none
  toVec _ := []
  mapToVec _ := []
  mapFromSlice _ := some ∅
  metricsToVec _ := []
  sha256 bytes := String.ofList (bytes.map (fun byte => Char.ofNat byte.toNat))
  sealInPlace _ _ _ plain := plain
  openInPlace _ _ _ sealed := some sealed

def empty : System :=
  ⟨Cluster.empty, ⟨none, ∅, 3600000, 1000000⟩, [], ∅, ∅, [], [], [], Cluster.empty⟩

def runtimeImage : Image :=
  ⟨1, "python", "a", 1, true, some "python 3.12", .runtime, some "python:3.12"⟩
def plainImage : Image := ⟨2, "base", "b", 1, true, none, .microVm, none⟩
def node : Uuid := 3
def environment : Uuid := 4

def input (fresh : Uuid) : Input := ⟨0, fresh, none, none⟩

/-- The handler at the index makes its remaining calls and answers. -/
def finish (index calls : Nat) : List Label := List.replicate (calls + 1) (.op index true)

/-- A client's request from its section to its answer, behind some handlers already in flight. -/
def request (others : Nat) (commit : Commit) (calls : Nat) : List Label :=
  .client commit :: finish others calls

/-- A node's request, likewise. -/
def nodeRequest (others : Nat) (request : NodeRequest) (calls : Nat) : List Label :=
  .authenticate node "credential" none request :: .enter others (input 0) :: finish others calls

def importing (image : Image) : List Label :=
  .checkImport image.name :: .enter 0 ⟨0, 0, none, some image⟩ :: finish 0 2

/-- Two images and a node that holds both. -/
def installation : List Label :=
  importing runtimeImage ++ importing plainImage ++ request 0 (.localJoin node "credential") 2 ++
    nodeRequest 0 (.register ⟨"node", 4000, 4000, none, none, false, []⟩) 3 ++
    nodeRequest 0 (.imageReady runtimeImage.id) 3 ++ nodeRequest 0 (.imageReady plainImage.id) 3

def environmentRequest : EnvironmentRequest :=
  ⟨"e", runtimeImage.id, [], [], 1, none, 100, 100, 1, 60, 60, false, false⟩

def creating : List Label :=
  .checkEnvironment none environmentRequest :: .enter 0 (input environment) :: finish 0 2

def pool : String := environmentPoolName environment

/-- A client's pool under the name of the environment's, with instances of twice the size. -/
def otherPool : Pool :=
  ⟨pool, plainImage.id, 1, none, 200, 100, 1, 60, 60, false, false, [], none, none, none, []⟩

/-- An execution is assigned to the node. -/
def assigning : List Label :=
  installation ++ creating ++ request 0
    (.createExecution 8 ⟨none, some "e", .null, ∅, ∅, true⟩ [] 0) 3

end Demo
end Scraperack
