import Scraperack.Dispatch
import Scraperack.Expiry
import Scraperack.Fleet
import Scraperack.Idleness
import Scraperack.Wakeups

/-! The controller and one node that keep the books on idle machines apart. The node asks for work, reports
what has come to its end, and asks about idle machines, one request after the other; its executions
run beside that. -/

namespace Scraperack
open Urls

/-- A request about the idle machines of a pool that changes what the controller counts. -/
inductive IdleCall where
  | add (pool : String)
  | remove (pool : String)
  deriving DecidableEq

def IdleCall.request : IdleCall → NodeRequest
  | add pool => .addWarmInstance pool
  | remove pool => .removeIdleInstance pool

/-- How far the loop of the node has come with a request about idle machines. -/
inductive Errand where
  | free
  | sent (call : IdleCall)
  /-- The handler stands at this place among those in flight. -/
  | served (call : IdleCall) (index : Nat)
  | answered (call : IdleCall) (reply : Reply)
  /-- The answer of `warm_instance_needed`. -/
  | told (needed : Bool)

/-- The number of machines that have the pool's name. -/
def namedVms (name : String) (vms : List Vm) : Nat := vms.countP (fun vm => vm.pool.name = name)

structure Liaison where
  system : System
  process : NodeProcess
  /-- The executions that the tasks of the node are about. -/
  executions : List Uuid
  /-- The completions that are posted and have not arrived. -/
  reports : List (Uuid × CompleteExecution)
  errand : Errand

inductive LiaisonLabel where
  /-- The controller goes on by itself, or with the requests of others. -/
  | controller (label : Label)
  /-- The loop sends its next request about idle machines. -/
  | send
  | arrive (hash : String)
  /-- `warm_instance_needed` reads the cluster. -/
  | look (hash : String)
  | report (index : Nat) (hash : String)
  /-- The node goes on; an execution that ends has this outcome. -/
  | node (event : NodeEvent) (outcome : CompleteExecution)

/-- A completion of the node on its way to its section. -/
def Frame.completion (node : Uuid) : Frame → Option (Uuid × CompleteExecution)
  | .authenticated asking (.completeExecution id request) =>
    if asking = node then some (id, request) else none
  | _ => none

/-- The controller has said yes. -/
def Frame.agrees : Frame → Bool
  | .running _ (.flag answer) => answer
  | _ => false

namespace System

/-- What reaches the node with this step. -/
def reaching (s : System) (node : Uuid) : Label → Option (Uuid × Pool)
  | .op index _ =>
    match s.inflight[index]? with
    | some (.running [] reply) => reply.brings node
    | _ => none
  | _ => none

/-- Where a handler in flight stands after a step, unless it has answered. -/
def follow (s next : System) (index : Nat) : Label → Option Nat
  | .enter acting _ =>
    if acting = index then
      if next.inflight.length < s.inflight.length then none else some (next.inflight.length - 1)
    else some (if index < acting then index else index - 1)
  | .prepare acting _ | .op acting _ =>
    if next.inflight.length < s.inflight.length then
      if acting = index then none else some (if index < acting then index else index - 1)
    else some index
  | _ => some index

end System

/-- A request that is not one of those the node makes about its executions and its idle machines. -/
def NodeRequest.aside : NodeRequest → Bool
  | .addWarmInstance _ | .removeIdleInstance _ | .completeExecution .. => false
  | _ => true

/-- A step of the controller that no request of the node is the cause of, but for those that it may
make at any time. -/
def Label.aside (node : Uuid) : Label → Bool
  | .authenticate asking _ _ request => decide (asking ≠ node) || request.aside
  | .restart .. => false
  | _ => true

namespace NodeEvent

/-- The execution whose step this is. -/
def task : NodeEvent → Option Nat
  | .acquire index | .start index _ _ | .finish index _ _ | .abandon index => some index
  | _ => none

/-- The loop has its answer and goes on. -/
def answers : NodeEvent → Bool
  | .trim .. | .offer _ | .ask _ => true
  | _ => false

end NodeEvent

/-- The loop has not begun with the machines. -/
def Beat.settled : Beat → Bool
  | .polling | .listed _ | .synced _ => true
  | _ => false

namespace Errand

/-- The loop goes on after a request with the answer to it. The process does not end. -/
def permits : Errand → NodeEvent → Bool
  | answered (.remove _) (.flag answer), .trim release _ => release = answer
  | answered (.add _) (.flag answer), .offer accepted => accepted = answer
  | told answer, .ask needed => needed = answer
  | _, .trim .. | _, .offer _ | _, .ask _ | _, .renew => false
  | _, _ => true

/-- The request after a step of the controller. -/
def after (errand : Errand) (s next : System) (label : Label) : Errand :=
  match errand with
  | served call index =>
    match s.follow next index label with
    | some place => served call place
    | none => answered call (next.replies.headD .panicked)
  | errand => errand

/-- The controller has said yes to the request, and the loop does not know yet. -/
def agreed (errand : Errand) (inflight : List Frame) (call : IdleCall) : Bool :=
  match errand with
  | served asked index => decide (asked = call) && (inflight[index]?).any Frame.agrees
  | answered asked (.flag answer) => decide (asked = call) && answer
  | _ => false

/-- No request is under way. -/
def rests : Errand → Bool
  | free => true
  | _ => false

/-- The request got an error. The loop ends there, and its process with it. -/
def failed : Errand → Bool
  | answered _ (.flag _) => false
  | answered _ _ => true
  | _ => false

end Errand

namespace Liaison

section
variable [Crates]

/-- The pool that the controller takes from the URL of a request about idle machines of this pool. -/
def heard (controller : Origin) (node : Uuid) (name : String) : Option String :=
  (idleRoute (target (idleUrl controller node name))).bind (fun route =>
    if Crates.parseUuid route.1 = some node then some route.2 else none)

/-- What the loop asks about next, as the controller will understand it. -/
def nextCall (controller : Origin) (node : Uuid) : Beat → Option IdleCall
  | .trimming _ idle _ => idle.getLast?.bind (fun vm =>
      (heard controller node vm.pool.name).map .remove)
  | .offering pool _ _ => (heard controller node pool.name).map .add
  | _ => none

/-- A step of the controller, which may bring an execution to the node. -/
def advance (node : Uuid) (l : Liaison) (label : Label) : Option Liaison :=
  (l.system.step label).map (fun system =>
    let work := (l.system.reaching node label).toList
    { l with
      system := system
      process := { l.process with
        tasks := l.process.tasks ++ work.map (fun work => .received work.2) }
      executions := l.executions ++ work.map Prod.fst
      errand := l.errand.after l.system system label })

/-- The node after an event. An execution that ends is reported. -/
def proceed (l : Liaison) (process : NodeProcess) (event : NodeEvent)
    (outcome : CompleteExecution) : Liaison :=
  let next : Liaison :=
    { l with process := process, errand := if event.answers then .free else l.errand }
  match event.task with
  | none => next
  | some index =>
    if process.tasks.length < l.process.tasks.length then
      { next with
        executions := l.executions.eraseIdx index
        reports := l.reports ++ (l.executions[index]?).toList.map (fun id =>
          (id, { outcome with keepIdle := !(l.process.added event).isEmpty })) }
    else next

def step (controller : Origin) (node : Uuid) (l : Liaison) : LiaisonLabel → Option Liaison
  | .controller label => if label.aside node then l.advance node label else none
  | .send =>
    match l.errand with
    | .free => (nextCall controller node l.process.beat).map (fun call =>
        { l with errand := .sent call })
    | _ => none
  | .arrive hash =>
    match l.errand with
    | .sent call =>
      (l.system.step (.authenticate node hash (some node) call.request)).map (fun system =>
        { l with
          system := system
          errand :=
            if l.system.inflight.length < system.inflight.length then
              .served call l.system.inflight.length
            else .answered call (system.replies.headD .panicked) })
    | _ => none
  | .look hash =>
    match l.errand, l.process.beat with
    | .free, .warming (pool :: _) =>
      if l.system.locked || l.system.cluster.nodeCredentials.get node ≠ some (node, hash) then none
      else (heard controller node pool.name).map (fun name =>
        { l with errand := .told (l.system.cluster.warmInstanceNeeded node name) })
    | _, _ => none
  | .report index hash =>
    match l.reports[index]? with
    | some (id, request) =>
      (l.system.step (.authenticate node hash none (.completeExecution id request))).map
        (fun system => { l with system := system, reports := l.reports.eraseIdx index })
    | none => none
  | .node event outcome =>
    if (event.reads && l.system.locked) || !l.errand.permits event then none
    else (l.process.step l.system.cluster.pools.values event).map (fun process =>
      l.proceed process event outcome)

end

/-- What the node has at hand of a pool: machines that are idle or about to be trimmed, and the one that
the controller has just accepted. -/
def atHand (l : Liaison) (name : String) : Nat :=
  namedVms name (l.process.vms.idle ++ l.process.beat.held) +
    (l.errand.agreed l.system.inflight (.add name)).toNat

/-- The completions of the node, up to the section of `complete_execution`. -/
def completions (l : Liaison) (node : Uuid) : List (Uuid × CompleteExecution) :=
  l.reports ++ l.system.inflight.filterMap (Frame.completion node)

/-- The idle machines that the controller gets to count with these completions. -/
def regained (c : Cluster) (node : Uuid) (name : String)
    (reports : List (Uuid × CompleteExecution)) : Nat :=
  reports.countP (fun report => report.2.keepIdle &&
    (c.executions.get report.1).any (Execution.isOn node name))

/-- What the controller counts as idle, and will count as soon as it knows, or has given up without the
node's knowledge. -/
def counted (l : Liaison) (node : Uuid) (name : String) : Nat :=
  l.system.cluster.idleOn node name +
    regained l.system.cluster node name (l.completions node) +
    (l.errand.agreed l.system.inflight (.remove name)).toNat

end Liaison

/-- The execution has its machine or waits for a new one to start. -/
def Task.served : Task → Bool
  | .received _ => false
  | _ => true

namespace Liaison

def jobs (l : Liaison) : List (Uuid × Task) := l.executions.zip l.process.tasks

def servedJobs (jobs : List (Uuid × Task)) : List Uuid :=
  (jobs.filter (fun job => job.2.served)).map Prod.fst

/-- The executions that have got past the idle machines of the node. -/
def served (l : Liaison) (node : Uuid) : List Uuid :=
  servedJobs l.jobs ++ (l.completions node).map Prod.fst

/-- The executions of the pool on the node that have not. -/
def waiting (l : Liaison) (node : Uuid) (name : String) : Nat :=
  l.system.cluster.unserved node name (l.served node)

/-- The idle machines that the controller has given to executions which wait. -/
def reserved (l : Liaison) (node : Uuid) (name : String) : Nat := l.atHand name - l.counted node name

/-- The executions which wait and for which the controller counts on a new machine. -/
def unprovided (l : Liaison) (node : Uuid) (name : String) : Nat :=
  l.counted node name + l.waiting node name - l.atHand name

end Liaison

/-- What a step of the controller loses sight of. -/
def System.losing [Crates] (s : System) (node : Uuid) (name : String) (label : Label) : Nat :=
  match s.entering label with
  | none => 0
  | some commit =>
    match commit.run s.cluster with
    | .ok _ => commit.loses node name s.cluster
    | .error _ => 0

/-- The pool of an execution that has not got to the idle machines. -/
def Task.arrived : Task → Option Pool
  | .received pool => some pool
  | _ => none

/-- The pools whose snapshots are prepared, before the first loop. -/
def Beat.ready : Beat → Option (List Pool)
  | .synced ready => some ready
  | _ => none

namespace Liaison

/-- The pool that the controller has answered about, and the pool of the machine that the loop has asked
about. -/
def matter (l : Liaison) : Option (String × String) :=
  match l.errand, l.process.beat with
  | .answered (.remove asked) _, .trimming _ idle _ =>
    idle.getLast?.map (fun vm => (asked, vm.pool.name))
  | .answered (.add asked) _, .offering pool _ _ => some (asked, pool.name)
  | _, _ => none

section
variable [Crates]

/-- An execution of the pool takes an idle machine only if one is reserved, and goes without only if one
of those that wait is not provided for. -/
def Provided (node : Uuid) (name : String) (l : Liaison) (event : NodeEvent) (index : Nat) : Prop :=
  ∀ pool ∈ (l.process.tasks[index]?).bind Task.arrived, pool.name = name →
    if (l.process.claimed event).isEmpty then 0 < l.unprovided node name
    else 0 < l.reserved node name

/-- The node's part of the conditions under which the books stay in step: the machines of the pool are
not given up for its name, and an answer is about the pool that was asked about. -/
def Orderly (node : Uuid) (name : String) (l : Liaison) : NodeEvent → Prop
  | .acquire index => l.Provided node name (.acquire index) index
  | .abandon index => l.Provided node name (.abandon index) index
  | .relabel => ∀ ready ∈ l.process.beat.ready, name ∈ ready.map Pool.name ∨
      namedVms name l.process.vms.idle ≤ l.reserved node name
  | .trim _ _ | .offer _ => ∀ names ∈ l.matter, names.1 = name ↔ names.2 = name
  | _ => True

/-- The conditions under which the books stay in step. -/
def Keeps (node : Uuid) (name : String) (l : Liaison) : LiaisonLabel → Prop
  | .controller label => l.system.losing node name label ≤ l.unprovided node name
  | .node event _ => l.Orderly node name event
  | _ => True

instance (node : Uuid) (name : String) (l : Liaison) (event : NodeEvent) (index : Nat) :
    Decidable (l.Provided node name event index) :=
  inferInstanceAs (Decidable (∀ pool ∈ (l.process.tasks[index]?).bind Task.arrived,
    pool.name = name → if (l.process.claimed event).isEmpty then 0 < l.unprovided node name
      else 0 < l.reserved node name))

instance (node : Uuid) (name : String) (l : Liaison) :
    (event : NodeEvent) → Decidable (l.Orderly node name event)
  | .acquire index => inferInstanceAs (Decidable (l.Provided node name (.acquire index) index))
  | .abandon index => inferInstanceAs (Decidable (l.Provided node name (.abandon index) index))
  | .relabel => inferInstanceAs (Decidable (∀ ready ∈ l.process.beat.ready,
      name ∈ ready.map Pool.name ∨
        namedVms name l.process.vms.idle ≤ l.reserved node name))
  | .trim _ _ | .offer _ =>
    inferInstanceAs (Decidable (∀ names ∈ l.matter, names.1 = name ↔ names.2 = name))
  | .list | .sync _ | .take | .retain | .ask _ | .warm _ _ | .rest | .start .. | .finish .. |
      .renew => isTrue trivial

instance (node : Uuid) (name : String) (l : Liaison) :
    (label : LiaisonLabel) → Decidable (Keeps node name l label)
  | .controller label =>
    inferInstanceAs (Decidable (l.system.losing node name label ≤ l.unprovided node name))
  | .node event _ => inferInstanceAs (Decidable (l.Orderly node name event))
  | .send | .arrive _ | .look _ | .report .. => isTrue trivial

end

/-- No execution of the pool is assigned to the node or running there, and the loop is not in a pass. -/
def Settled (node : Uuid) (name : String) (l : Liaison) : Prop :=
  l.system.cluster.executions.any (Execution.isOn node name) = false ∧ l.process.beat.settled = true

instance (node : Uuid) (name : String) (l : Liaison) : Decidable (Settled node name l) :=
  inferInstanceAs (Decidable (_ ∧ _))

end Liaison
end Scraperack
