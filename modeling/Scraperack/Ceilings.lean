import Scraperack.Ledger
import Scraperack.Tenancy
import Scraperack.Conservation

/-! The limit on the instances of a pool. The scheduler checks it before it starts an instance, a node's request
for a warm one is checked as well, and what else happens to instances adds none. -/

namespace Scraperack
open Counters

namespace Cluster
variable {c : Cluster}

/-- The executions in use are no more when none is new to its pool. -/
theorem activeCount_le {next : Cluster} {name : String}
    (old : ∀ id execution, next.executions.get id = some execution →
      execution.occupies name = true →
      ∃ before, c.executions.get id = some before ∧ before.occupies name = true) :
    next.activeCount name ≤ c.activeCount name := by
  simp only [activeCount, Keyed.count_eq_total]
  refine Keyed.total_le_of_get _ _ (fun id execution present => ?_)
  by_cases occupies : execution.occupies name = true
  · obtain ⟨before, was, also⟩ := old id execution present occupies
    exact .inr ⟨before, was, by simp [occupies, also]⟩
  · exact .inl (by simp [occupies])

theorem idleCount_le {next : Cluster} {name : String}
    (old : ∀ id node, next.nodes.get id = some node → node.idle name = 0 ∨
      ∃ before, c.nodes.get id = some before ∧ node.idle name ≤ before.idle name) :
    next.idleCount name ≤ c.idleCount name :=
  Keyed.total_le_of_get _ _ old

end Cluster

theorem wrapping_le (a : Nat) : wrapping a ≤ a := Nat.mod_le ..

/-- No node has more idle instances after a move that sheds, unless an execution leaves one. -/
theorem Move.idle_le {c : Cluster} {move : Move} (sheds : move.grows = false)
    (ends : ∀ id, move ≠ .finish id true) (node : Node) (name : String) :
    (move.onNode c node).idle name ≤ node.idle name := by
  have released (id : Uuid) : (releaseOn c id false node).idle name = node.idle name := by
    unfold releaseOn
    split
    · rfl
    · split
      · rfl
      · split_ifs
        · simp [Node.idle_vacate]
        · rfl
  cases move with
  | dropPool gone | seizePool gone =>
    simp only [onNode]
    split
    · exact le_rfl
    · rw [Node.idle_forgetPool]
      split_ifs <;> omega
  | requeue id source pool =>
    simp only [onNode]
    split_ifs
    · exact (released id).le
    · exact le_rfl
  | finish id keepIdle =>
    cases keepIdle with
    | false => exact (released id).le
    | true => exact absurd rfl (ends id)
  | cool there pool =>
    simp only [onNode]
    split_ifs
    · rw [Node.idle_removeIdle]
      split_ifs <;> omega
    · exact le_rfl
  | resetIdle there =>
    simp only [onNode]
    split_ifs
    · rw [Node.idle_resetIdle]
      exact Nat.zero_le _
    · exact le_rfl
  | warm | place => cases sheds
  | _ => exact le_rfl

/-- The executions in use after a move that sheds were in use before. -/
theorem Move.activeCount_le {c : Cluster} {move : Move} (allowed : move.Allowed c)
    (sheds : move.grows = false) (name : String) :
    (c.move move).activeCount name ≤ c.activeCount name := by
  refine Cluster.activeCount_le (fun id execution present occupies => ?_)
  rw [Cluster.get_move allowed] at present
  cases move with
  | receive received =>
    simp only [onExecution] at present
    split_ifs at present
    · obtain rfl := Option.some.inj present
      simp [Execution.occupies, allowed.2.1, ExecutionStatus.onNode] at occupies
    · exact ⟨execution, present, occupies⟩
  | withdraw gone | finish gone _ =>
    simp only [onExecution] at present
    split_ifs at present
    exact ⟨execution, present, occupies⟩
  | requeue moved source pool =>
    simp only [onExecution] at present
    split_ifs at present
    · obtain ⟨before, was, rfl⟩ := Option.map_eq_some_iff.mp present
      simp [Execution.occupies, Execution.requeued, ExecutionStatus.onNode] at occupies
    · exact ⟨execution, present, occupies⟩
  | start started now =>
    simp only [onExecution] at present
    split_ifs at present with same
    · obtain ⟨before, was, rfl⟩ := Option.map_eq_some_iff.mp present
      obtain ⟨found, there, assigned⟩ := allowed
      subst same
      obtain rfl := Option.some.inj (was.symm.trans there)
      refine ⟨before, was, ?_⟩
      simp only [Execution.occupies, assigned, ExecutionStatus.onNode] at occupies ⊢
      exact occupies
    · exact ⟨execution, present, occupies⟩
  | warm | place => cases sheds
  | _ => exact ⟨execution, present, occupies⟩

/-- An execution that leaves an idle instance leaves the one that it had in use. -/
theorem Cluster.instances_finish {c : Cluster} {id : Uuid} {execution : Execution}
    (present : c.executions.get id = some execution) (on : execution.status.onNode = true)
    (name : String) : (c.finish id true).instances name ≤ c.instances name := by
  have active : c.activeCount name =
      (if execution.occupies name then 1 else 0) + (c.finish id true).activeCount name := by
    simp only [activeCount, Keyed.count_eq_total, finish, forget, release_executions]
    exact Keyed.total_erase present _
  have idle : (c.finish id true).idleCount name ≤
      c.idleCount name + if execution.occupies name then 1 else 0 := by
    cases known : c.pools.get execution.pool with
    | none =>
      simp only [finish, release_of_get_none true present known]
      exact Nat.le_add_right ..
    | some pool =>
      cases placed : execution.node with
      | none =>
        have same : c.release id true = c := by simp only [release, present, placed]
        simp only [finish, same]
        exact Nat.le_add_right ..
      | some there =>
        simp only [finish, release_of_get true present placed known, forget, idleCount]
        cases found : c.nodes.get there with
        | none =>
          refine (Keyed.total_le_of_get _ c.nodes (fun k node after => ?_)).trans
            (Nat.le_add_right ..)
          rw [Keyed.get_adjust] at after
          split_ifs at after with same
          · rw [same, found] at after
            cases after
          · exact .inr ⟨node, after, le_rfl⟩
        | some node =>
          have moved := Keyed.total_adjust found (fun node => node.vacate pool true)
            (fun node => node.vacate_id pool true) (fun node => node.idle name)
          have own : pool.name = execution.pool := Keyed.key_of_get known
          have bound := wrapping_le (node.idle name + 1)
          simp only [Node.idle_vacate, true_and] at moved
          by_cases same : name = pool.name
          · have occupies : execution.occupies name = true := by
              simp [Execution.occupies, on, same, own]
            rw [if_pos same] at moved
            rw [if_pos occupies]
            omega
          · rw [if_neg same] at moved
            omega
  unfold instances
  omega

/-- Moves that shed add no instance to any pool. -/
theorem Move.instances_le {c : Cluster} {move : Move} (allowed : move.Allowed c)
    (sheds : move.grows = false) (name : String) :
    (c.move move).instances name ≤ c.instances name := by
  by_cases ends : ∃ id, move = .finish id true
  · obtain ⟨id, rfl⟩ := ends
    obtain ⟨execution, present, on⟩ := allowed
    exact Cluster.instances_finish present on name
  · have active := Move.activeCount_le allowed sheds name
    have idle : (c.move move).idleCount name ≤ c.idleCount name := by
      by_cases keeps : move.keepsNodes = true
      · rw [Cluster.idleCount, Cluster.nodes_move keeps, Keyed.total_map]
        exact Keyed.total_le (fun k node _ =>
          Move.idle_le sheds (fun id same => ends ⟨id, same⟩) node name)
      · refine Cluster.idleCount_le (fun k node present => ?_)
        cases move with
        | aside next =>
          obtain ⟨before, was, account⟩ := SameAccounts.node allowed present
          exact .inr ⟨before, was, (Node.idle_of_account account name).ge⟩
        | addNode new =>
          simp only [Cluster.move, Keyed.get_insert] at present
          split_ifs at present
          · obtain rfl := Option.some.inj present
            have instances : new.idleInstances = ∅ := congrArg Account.idleInstances allowed.2
            exact .inl (by simp [Node.idle, instances])
          · exact .inr ⟨node, present, le_rfl⟩
        | dropNode id =>
          simp only [Cluster.move, Keyed.get_erase] at present
          split_ifs at present
          exact .inr ⟨node, present, le_rfl⟩
        | _ => exact absurd rfl keeps
    unfold Cluster.instances
    omega

/-! The moves that add instances. -/

/-- The scheduler takes an idle instance, or starts one that the limit has room for. -/
theorem Cluster.instances_place {c : Cluster} {execution : Execution} {pool : Pool} {there : Node}
    (queued : execution.status = .queued) (choice : c.Choice execution pool there) (name : String) :
    (c.place execution pool there.id).instances name ≤ c.instances name ∨
      pool.name = name ∧ ∀ limit, pool.maxInstances = some limit →
        (c.place execution pool there.id).instances name ≤ limit := by
  have active := activeCount_place queued choice name
  have idle := idleCount_place choice name
  have own : execution.pool = pool.name := (Keyed.key_of_get choice.known).symm
  unfold instances
  by_cases same : pool.name = name
  · by_cases some_idle : 0 < there.idle name
    · left
      rw [if_pos (own.trans same)] at active
      rw [if_pos ⟨same.symm, some_idle⟩] at idle
      omega
    · refine .inr ⟨same, fun limit bounded => ?_⟩
      have start : c.canStart pool = true := by
        have able := choice.eligible
        simp only [eligible, same, some_idle, decide_false, Bool.false_or, Bool.and_eq_true] at able
        exact able.2.1.1
      simp only [canStart, bounded, Option.all_some, decide_eq_true_eq, same] at start
      rw [if_pos (own.trans same)] at active
      rw [if_neg (fun both => some_idle both.2)] at idle
      omega
  · left
    rw [if_neg (fun equal => same (own.symm.trans equal))] at active
    rw [if_neg (fun both => same both.1.symm)] at idle
    omega

/-- A warm instance is added within the limit, as far as 32 bits can tell. -/
theorem Cluster.instances_warm {c : Cluster} {id : Uuid} {pool : Pool} {there : Node}
    (present : c.nodes.get id = some there) (room : c.warmRoom pool = true) {name : String}
    (counted : c.instances name ≤ u32Max) :
    (c.move (.warm id pool)).instances name ≤ c.instances name ∨
      pool.name = name ∧ ∀ limit, pool.maxInstances = some limit →
        (c.move (.warm id pool)).instances name ≤ limit := by
  have moved := Keyed.total_adjust present (fun node => node.addWarm pool)
    (fun node => node.addWarm_id pool) (fun node => node.idle name)
  have bound := wrapping_le (there.idle name + 1)
  have active : (c.move (.warm id pool)).activeCount name = c.activeCount name := rfl
  have idle : (c.move (.warm id pool)).idleCount name + there.idle name =
      c.idleCount name + (there.addWarm pool).idle name := moved
  rw [Node.idle_addWarm] at idle
  unfold instances at counted ⊢
  by_cases same : pool.name = name
  · refine .inr ⟨same, fun limit bounded => ?_⟩
    simp only [warmRoom, bounded, Option.all_some, decide_eq_true_eq, same] at room
    rw [wrapping_of_le (a := c.activeCount name) (by omega),
      wrapping_of_le (a := c.idleCount name) (by omega), wrapping_of_le counted] at room
    rw [if_pos same.symm] at idle
    omega
  · left
    rw [if_neg (fun equal => same equal.symm)] at idle
    omega

/-- A section leaves no more instances in a pool than its limit allows, or than were there. -/
theorem ShedThenGrow.instances_le {may : Move → Prop} {c d : Cluster} (made : ShedThenGrow may c d)
    {name : String} (counted : c.instances name ≤ u32Max) {pool : Pool}
    (known : d.pools.get name = some pool) {limit : Nat} (limited : pool.maxInstances = some limit) :
    d.instances name ≤ max limit (c.instances name) := by
  obtain ⟨middle, shed, grown⟩ := made
  have fewer : middle.instances name ≤ c.instances name := by
    refine shed.invariant (P := fun e => e.instances name ≤ c.instances name) le_rfl ?_
    rintro e f move below ⟨allowed, sheds, -⟩ moved
    obtain rfl := Option.some.inj moved
    exact (Move.instances_le allowed sheds name).trans below
  have within : d.pools = middle.pools ∧ ∀ pool limit, middle.pools.get name = some pool →
      pool.maxInstances = some limit → d.instances name ≤ max limit (c.instances name) := by
    refine grown.invariant (P := fun e => e.pools = middle.pools ∧ ∀ pool limit,
      middle.pools.get name = some pool → pool.maxInstances = some limit →
        e.instances name ≤ max limit (c.instances name))
      ⟨rfl, fun _ _ _ _ => fewer.trans (le_max_right ..)⟩ ?_
    rintro e f move ⟨same, below⟩ ⟨allowed, grows, leads⟩ moved
    obtain rfl := Option.some.inj moved
    have added {other : Pool} (there : e.pools.get other.name = some other)
        (kept : (e.move move).pools = e.pools)
        (step : (e.move move).instances name ≤ e.instances name ∨ other.name = name ∧
          ∀ limit, other.maxInstances = some limit → (e.move move).instances name ≤ limit) :
        (e.move move).pools = middle.pools ∧ ∀ pool limit,
          middle.pools.get name = some pool → pool.maxInstances = some limit →
            (e.move move).instances name ≤ max limit (c.instances name) := by
      refine ⟨kept.trans same, fun pool limit known limited => ?_⟩
      rcases step with no_more | ⟨rfl, bounded⟩
      · exact no_more.trans (below pool limit known limited)
      · rw [same, known] at there
        obtain rfl := Option.some.inj there
        exact (bounded limit limited).trans (le_max_left ..)
    cases move with
    | place execution other node =>
      obtain ⟨queued, there, rfl, choice⟩ := allowed
      have own : execution.pool = other.name := (Keyed.key_of_get choice.known).symm
      exact added (own ▸ choice.known) rfl (Cluster.instances_place queued choice name)
    | warm id other =>
      obtain ⟨there, room, -, node, present⟩ := allowed
      obtain rfl := leads rfl
      exact added there rfl (Cluster.instances_warm present room counted)
    | _ => cases grows
  exact within.2 pool limit (within.1 ▸ known) limited

/-! Over runs of one process. -/

namespace System

/-- If the pool has a limit after the step, and was there before, it had a limit no higher. -/
def KeepsLimit [Crates] (name : String) (s : System) (label : Label) : Prop :=
  ∀ t ∈ s.step label, ∀ before ∈ s.cluster.pools.get name, ∀ after ∈ t.cluster.pools.get name,
    ∀ limit ∈ after.maxInstances, ∃ old ∈ before.maxInstances, old ≤ limit

instance [Crates] (name : String) (s : System) (label : Label) :
    Decidable (s.KeepsLimit name label) := by
  unfold KeepsLimit
  infer_instance

/-- No instance belongs to a pool that is not there. -/
theorem instances_of_unknown {c : Cluster} (seated : Seated c) (owned : Owned c) {name : String}
    (unknown : c.pools.get name = none) : c.instances name = 0 := by
  have active : c.activeCount name = 0 := by
    rw [Cluster.activeCount, Keyed.count_eq_total]
    refine Keyed.total_zero (fun id execution present => if_neg ?_)
    simp only [Execution.occupies, Bool.and_eq_true, decide_eq_true_eq, not_and]
    rintro rfl on
    obtain ⟨pool, known⟩ := (seated id execution present on).1
    rw [unknown] at known
    cases known
  have idle : c.idleCount name = 0 := by
    refine Keyed.total_zero (fun id node present => ?_)
    by_contra some_idle
    have known := owned id node present name (Nat.pos_of_ne_zero some_idle)
    rw [unknown] at known
    cases known
  rw [Cluster.instances, active, idle]

variable [Crates]

/-- A step leaves no more instances in a pool than its limit allows, or than were there. -/
theorem instances_step {s t : System} {label : Label} (sound : Sound s)
    (stepped : s.step label = some t) (same : restarts label = false) {name : String}
    (counted : s.cluster.instances name ≤ u32Max) {pool : Pool}
    (known : t.cluster.pools.get name = some pool) {limit : Nat}
    (limited : pool.maxInstances = some limit) :
    t.cluster.instances name ≤ max limit (s.cluster.instances name) :=
  (step_moves sound stepped same).instances_le counted known limited

theorem Fresh.owned_run {s t : System} (fresh : s.Fresh) (run : Run (fun _ _ => True) s t) :
    Owned t.cluster :=
  run.invariant_along (P := fun s => Owned s.cluster) fresh.owned
    (fun before owned allowed stepped =>
      owned_step (fresh.started.sound.run before) owned stepped allowed.1)

/-- In every process a step with less than 2^32 instances of a pool keeps its limit. From an empty cluster
on a pool that was opened with a limit, which is a number of 32 bits and not lowered later, is always
within it. -/
theorem instance_limits_kept {s : System} (started : s.Started) (name : String) :
    (∀ t u label, Run (fun _ _ => True) s t → restarts label = false → t.step label = some u →
      t.cluster.instances name ≤ u32Max →
      ∀ pool after limit, t.cluster.pools.get name = some pool →
        u.cluster.pools.get name = some after → pool.maxInstances = some limit →
        after.maxInstances = some limit →
        u.cluster.instances name ≤ max limit (t.cluster.instances name)) ∧
    (s.Fresh → ∀ t u, Run (fun _ _ => True) s t → t.cluster.pools.get name = none →
      Run (KeepsLimit name) t u → ∀ pool limit, u.cluster.pools.get name = some pool →
        pool.maxInstances = some limit → limit ≤ u32Max → u.cluster.instances name ≤ limit) := by
  constructor
  · intro t u label run same stepped counted pool after limit _ known _ limited
    exact instances_step (started.sound.run run) stepped same counted known limited
  · intro fresh t u before unknown run
    have all {v : System} (later : Run (KeepsLimit name) t v) : Run (fun _ _ => True) s v :=
      before.trans (later.mono (fun _ _ allowed => ⟨allowed.1, trivial⟩))
    have opened {v : System} (later : Run (KeepsLimit name) t v)
        (closed : v.cluster.pools.get name = none) : v.cluster.instances name = 0 :=
      instances_of_unknown (fresh.pooled (all later)).1 (fresh.owned_run (all later)) closed
    refine run.invariant_along (P := fun v => ∀ pool limit, v.cluster.pools.get name = some pool →
      pool.maxInstances = some limit → limit ≤ u32Max → v.cluster.instances name ≤ limit) ?_ ?_
    · intro pool limit known
      rw [unknown] at known
      cases known
    · rintro v w label later within ⟨same, keeps⟩ stepped pool limit known limited fits
      have below : v.cluster.instances name ≤ limit := by
        cases there : v.cluster.pools.get name with
        | none => rw [opened later there]; exact Nat.zero_le _
        | some old =>
          obtain ⟨lower, bound, le⟩ := keeps w stepped old there pool known limit limited
          exact (within old lower there bound (le.trans fits)).trans le
      exact (instances_step (started.sound.run (all later)) stepped same (below.trans fits)
        known limited).trans (max_le le_rfl below)

end System

namespace Demo

/-- As many warm instances as can be asked for, without a limit. -/
def hoardRequest : EnvironmentRequest := { environmentRequest with warmInstances := 4294967295 }

def hoardEnvironment : Environment :=
  requestedEnvironment environment hoardRequest runtimeImage.id ⟨none, none, 0⟩ pool

/-- One instance at most, used again for execution after execution. -/
def limitedRequest : EnvironmentRequest :=
  { environmentRequest with warmInstances := 1, maxInstances := some 1, reuse := true }

def limiting : Commit :=
  .updateEnvironment 9 environment limitedRequest hoardEnvironment runtimeImage ⟨none, none, 0⟩

/-- Two executions run in the environment; an update of its limits and a request for a warm instance wait for
the lock. -/
def hoarding : List Label :=
  installation ++ .checkEnvironment none hoardRequest :: .enter 0 (input environment) ::
    finish 0 2 ++
    request 0 (.createExecution 7 ⟨none, some "e", .null, ∅, ∅, true⟩ [] 0) 3 ++
    request 0 (.createExecution 8 ⟨none, some "e", .null, ∅, ∅, true⟩ [] 0) 3 ++
    [.checkEnvironment (some environment) limitedRequest,
      .authenticate node "credential" none (.addWarmInstance pool)]

def limitedEnvironment : Environment :=
  requestedEnvironment environment limitedRequest runtimeImage.id ⟨none, none, 0⟩ pool

/-- What the cluster has come to when the pool is this one and the node has so many idle instances. -/
structure Hoard (held : Pool) (idle : Nat) (c : Cluster) : Prop where
  credential : c.nodeCredentials.get node = some (node, "credential")
  known : c.pools.get pool = some held
  queue : c.queue = []
  active : c.activeCount pool = 2
  onNode : c.executions.count (fun execution =>
    execution.pool = pool && execution.occupiesOn node) = 2
  alone : ∃ node : Node, c.nodes.values = [node] ∧ node.id = Demo.node ∧
    runtimeImage.id ∈ node.images ∧ node.cpuMillis = 4000 ∧ node.memoryMib = 4000 ∧
      node.idle pool = idle

structure Hoarding (idle : Nat) (s : System) : Prop where
  hoard : Hoard (environmentPool hoardEnvironment) idle s.cluster
  free : s.cluster.pools.get (restartedPoolName environment 9) = none
  waiting : ∃ job, s.inflight = [.environment job, .authenticated node (.addWarmInstance pool)] ∧
    job.commit (input 9) = some limiting

def hoards (s : System) : Bool :=
  (match s.inflight with
    | [.environment job, .authenticated id (.addWarmInstance name)] =>
      decide (job.old = some hoardEnvironment ∧ job.request = limitedRequest ∧
        job.image = runtimeImage ∧ job.stage = .ready ⟨none, none, 0⟩ ∧ id = node ∧ name = pool)
    | _ => false) &&
  decide (s.cluster.nodeCredentials.get node = some (node, "credential") ∧
    s.cluster.pools.get pool = some (environmentPool hoardEnvironment) ∧
    s.cluster.pools.get (restartedPoolName environment 9) = none ∧
    s.cluster.queue = [] ∧ s.cluster.activeCount pool = 2 ∧
    s.cluster.executions.count (fun execution =>
      execution.pool = pool && execution.occupiesOn node) = 2) &&
  (match s.cluster.nodes.values with
    | [node] => decide (node.id = Demo.node ∧ runtimeImage.id ∈ node.images ∧
        node.cpuMillis = 4000 ∧ node.memoryMib = 4000 ∧ node.idle pool = 0)
    | _ => false)

theorem hoarding_begins : ((Runs.exec (@System.step crates)
    (fun _ label => System.restarts label = false ∧ True) empty hoarding).any hoards) = true := by
  decide +kernel




theorem hoarding_of_hoards {s : System} (there : hoards s = true) : Hoarding 0 s := by
  simp only [hoards, Bool.and_eq_true] at there
  obtain ⟨⟨waits, facts⟩, alone⟩ := there
  obtain ⟨credential, known, free, queue, active, onNode⟩ := of_decide_eq_true facts
  refine ⟨⟨credential, known, queue, active, onNode, ?_⟩, free, ?_⟩
  · split at alone
    · rename_i node values
      exact ⟨node, values, of_decide_eq_true alone⟩
    · cases alone
  · split at waits
    · rename_i job id name flight
      obtain ⟨old, request, image, stage, rfl, rfl⟩ := of_decide_eq_true waits
      refine ⟨job, flight, ?_⟩
      simp only [Job.commit, old, request, image, stage]
      rfl
    · cases waits

section
variable {held : Pool} {idle : Nat} {c : Cluster}

theorem Hoard.idleCount (hoard : Hoard held idle c) : c.idleCount pool = idle := by
  obtain ⟨node, values, -, -, -, -, rfl⟩ := hoard.alone
  simp [Cluster.idleCount, Keyed.total, values]

theorem Hoard.there (hoard : Hoard held idle c) : ∃ node, c.nodes.get Demo.node = some node ∧
    node.idle pool = idle ∧ node.cpuMillis = 4000 ∧ node.memoryMib = 4000 := by
  obtain ⟨node, values, own, -, cpu, memory, held⟩ := hoard.alone
  refine ⟨node, (Keyed.get_eq_some_iff _ _ _).mpr ⟨?_, own⟩, held, cpu, memory⟩
  rw [values]
  exact List.mem_singleton_self node

/-- The one node gets all the warm instances of such a pool. -/
theorem Hoard.warmTargets (hoard : Hoard held idle c) {pool : Pool} (image : pool.image = runtimeImage.id)
    (artifact : pool.environmentArtifact = none) (cpu : pool.cpuMillis = 100)
    (memory : pool.memoryMib = 100) {target : Nat}
    (aim : (if pool.reuse then min pool.warmInstances.toNat (pool.maxInstances.getD u32Max)
      else min pool.warmInstances.toNat ((pool.maxInstances.map (fun limit =>
        saturatingSub limit (wrapping (c.activeCount pool.name)))).getD u32Max)) = target) :
    c.warmTargets pool = [(Demo.node, target)] := by
  obtain ⟨node, values, own, holds, cpus, memories, -⟩ := hoard.alone
  have chosen : c.nodes.values.filter (fun node => decide (pool.image ∈ node.images) &&
      Cluster.holdsArtifact pool node && decide (pool.cpuMillis ≤ node.cpuMillis) &&
        decide (pool.memoryMib ≤ node.memoryMib)) = [node] := by
    rw [values, image, cpu, memory]
    simp [holds, cpus, memories, Cluster.holdsArtifact, artifact]
  simp only [Cluster.warmTargets, chosen, aim]
  simp [own, u32Max, Nat.mod_one]

theorem Hoard.warm (hoard : Hoard held idle c) (fits : idle < u32Max) :
    Hoard held (idle + 1) (c.move (.warm node held)) := by
  obtain ⟨node, values, own, holds, cpu, memory, counted⟩ := hoard.alone
  refine ⟨hoard.credential, hoard.known, hoard.queue, hoard.active, hoard.onNode,
    node.addWarm held, ?_, own, holds, cpu, memory, ?_⟩
  · simp [Cluster.move, Keyed.adjust, Keyed.map, values, own]
  · have same : pool = held.name := (Keyed.key_of_get hoard.known).symm
    rw [Node.idle_addWarm, if_pos same, counted, wrapping_of_le fits]

/-- The node gets another instance when the numbers that are compared allow it. -/
theorem Hoard.added (hoard : Hoard held idle c) {target active warm wanted present : Nat}
    (view : c.warmView held = ⟨[(node, target)], active, wrapping idle, warm, wanted⟩)
    (counted : c.warmInstancesOn node held = present) (below : present < target)
    (wants : warm < wanted)
    (room : held.maxInstances.all (fun limit =>
      decide (wrapping (active + wrapping idle) < limit)) = true)
    (cpu : held.cpuMillis = 100) (memory : held.memoryMib = 100) :
    c.addWarmInstance node pool = some (c.move (.warm node held)) := by
  obtain ⟨there, found, -, cpus, memories⟩ := hoard.there
  have looked : List.lookup node [(node, target)] = some target := by simp
  have limited : held.maxInstances.any (fun limit =>
      decide (limit ≤ wrapping (active + wrapping idle))) = false := by
    cases bound : held.maxInstances with
    | none => rfl
    | some limit =>
      rw [bound] at room
      simpa using room
  simp only [Cluster.addWarmInstance, hoard.known, view, looked, counted, limited, found,
    cpus, memories, cpu, memory, Bool.or_false]
  rw [if_neg (by simp [below, wants]), if_neg (by decide)]
  rfl

theorem Hoard.added_unlimited (hoard : Hoard (environmentPool hoardEnvironment) idle c)
    (fits : idle < u32Max) :
    c.addWarmInstance node pool =
      some (c.move (.warm node (environmentPool hoardEnvironment))) := by
  obtain ⟨there, present, held, -⟩ := hoard.there
  have targets : c.warmTargets (environmentPool hoardEnvironment) = [(node, u32Max)] :=
    hoard.warmTargets rfl rfl rfl rfl rfl
  have counted : c.idleCount (environmentPool hoardEnvironment).name = idle := hoard.idleCount
  have active : c.activeCount (environmentPool hoardEnvironment).name = 2 := hoard.active
  have reuse : (environmentPool hoardEnvironment).reuse = false := rfl
  have view : c.warmView (environmentPool hoardEnvironment) =
      ⟨[(node, u32Max)], 2, wrapping idle, idle, u32Max⟩ := by
    simp only [Cluster.warmView, targets, counted, active, reuse, wrapping_of_le fits.le]
    rfl
  have on : c.warmInstancesOn node (environmentPool hoardEnvironment) = idle := by
    simp only [Cluster.warmInstancesOn, present, Option.map_some, Option.getD_some, reuse]
    exact held
  exact hoard.added view on fits fits rfl rfl rfl

/-- At 2^32 instances the sums are zero, and a pool of one instance seems to have room. -/
theorem Hoard.added_limited (hoard : Hoard (environmentPool limitedEnvironment) 4294967294 c) :
    c.addWarmInstance node pool =
      some (c.move (.warm node (environmentPool limitedEnvironment))) := by
  obtain ⟨there, present, held, -⟩ := hoard.there
  have targets : c.warmTargets (environmentPool limitedEnvironment) = [(node, 1)] :=
    hoard.warmTargets rfl rfl rfl rfl rfl
  have counted : c.idleCount (environmentPool limitedEnvironment).name = 4294967294 :=
    hoard.idleCount
  have active : c.activeCount (environmentPool limitedEnvironment).name = 2 := hoard.active
  have onNode : c.executions.count (fun execution => decide (execution.pool =
      (environmentPool limitedEnvironment).name) && execution.occupiesOn node) = 2 := hoard.onNode
  have reuse : (environmentPool limitedEnvironment).reuse = true := rfl
  have view : c.warmView (environmentPool limitedEnvironment) =
      ⟨[(node, 1)], 2, wrapping 4294967294, 0, 1⟩ := by
    simp only [Cluster.warmView, targets, counted, active, reuse]
    rfl
  have on : c.warmInstancesOn node (environmentPool limitedEnvironment) = 0 := by
    have idle : there.idle (environmentPool limitedEnvironment).name = 4294967294 := held
    simp only [Cluster.warmInstancesOn, present, Option.map_some, Option.getD_some, reuse, idle,
      onNode]
    rfl
  exact hoard.added view on Nat.zero_lt_one Nat.zero_lt_one (by decide) rfl rfl

theorem addWarmInstance_section (hoard : Hoard held idle c)
    (added : c.addWarmInstance node pool = some (c.move (.warm node held))) :
    Scraperack.addWarmInstance node pool c = ⟨c.move (.warm node held),
      [.saveCluster, .saveExecutions [], .unlock], .flag true⟩ := by
  have settled : (c.move (.warm node held)).queue = [] := hoard.queue
  have nothing : (c.move (.warm node held)).scheduleQueued = (c.move (.warm node held), []) := by
    rw [Cluster.scheduleQueued, settled]
    rfl
  simp only [Scraperack.addWarmInstance, scheduleIfChanged, added, scheduleAndSave, nothing]

/-- The pool as the update leaves it. -/
def limit (c : Cluster) : Cluster :=
  { c with
    pools := c.pools.insert (environmentPool limitedEnvironment)
    environments := c.environments.insert limitedEnvironment }

theorem Hoard.limit (hoard : Hoard held idle c) :
    Hoard (environmentPool limitedEnvironment) idle (limit c) :=
  ⟨hoard.credential, Keyed.get_insert_self .., hoard.queue, hoard.active, hoard.onNode, hoard.alone⟩

theorem limiting_section (hoard : Hoard held idle c) : @Commit.run crates c limiting =
    .ok ⟨limit c, [.saveCluster, .unlock, .saveExecutions []], .environment limitedEnvironment
      ((limit c).environmentReady limitedEnvironment)⟩ := by
  have settled : (limit c).queue = [] := hoard.queue
  have nothing : (limit c).scheduleQueued = (limit c, []) := by
    rw [Cluster.scheduleQueued, settled]
    rfl
  have done : updateEnvironment 9 environment limitedRequest hoardEnvironment runtimeImage
      ⟨none, none, 0⟩ c = ⟨(limit c).scheduleQueued.1,
        [.saveCluster, .unlock, .saveExecutions (limit c).scheduleQueued.2],
        .environment limitedEnvironment
          ((limit c).scheduleQueued.1.environmentReady limitedEnvironment)⟩ := rfl
  rw [nothing] at done
  exact congrArg Except.ok done

end

/-- One more request of the node for a warm instance, behind the two that wait. -/
theorem Hoarding.next {idle : Nat} {s : System} (hoarding : Hoarding idle s)
    (fits : idle < u32Max) :
    ∃ t, @System.Run crates (fun _ _ => True) s t ∧ Hoarding (idle + 1) t := by
  obtain ⟨job, flight, ready⟩ := hoarding.waiting
  have free := hoarding.free
  have hoard := hoarding.hoard
  obtain ⟨c, database, key, files, dirs, inflight, issued, replies, lastSave⟩ := s
  obtain rfl : inflight = _ := flight
  have warmed := hoard.warm fits
  let next := c.move (.warm node (environmentPool hoardEnvironment))
  have section_done := addWarmInstance_section hoard (hoard.added_unlimited fits)
  have performed : Runs.exec (@System.step crates) (fun _ label =>
      System.restarts label = false ∧ True)
      ⟨c, database, key, files, dirs, [.environment job,
        .authenticated node (.addWarmInstance pool)], issued, replies, lastSave⟩
      (.authenticate node "credential" none (.addWarmInstance pool) :: .enter 2 (input 0) ::
        finish 2 3) = some ⟨next, (@Database.saveExecutions crates (database.saveCluster next) []), key, files, dirs,
          [.environment job, .authenticated node (.addWarmInstance pool)], issued,
          .flag true :: replies, next⟩ := by
    have first : @System.step crates ⟨c, database, key, files, dirs, [.environment job,
        .authenticated node (.addWarmInstance pool)], issued, replies, lastSave⟩
        (.authenticate node "credential" none (.addWarmInstance pool)) =
        some ⟨c, database, key, files, dirs, [.environment job,
          .authenticated node (.addWarmInstance pool), .authenticated node (.addWarmInstance pool)],
          issued, replies, lastSave⟩ := by
      simp [System.step, System.locked, Frame.holdsLock, hoard.credential]
    have second : @System.step crates ⟨c, database, key, files, dirs, [.environment job,
        .authenticated node (.addWarmInstance pool), .authenticated node (.addWarmInstance pool)],
        issued, replies, lastSave⟩ (.enter 2 (input 0)) =
        some ⟨next, database, key, files, dirs, [.environment job,
          .authenticated node (.addWarmInstance pool),
          .running [.saveCluster, .saveExecutions [], .unlock] (.flag true)],
          issued, replies, lastSave⟩ := by
      simp [System.step, System.locked, Frame.holdsLock, Frame.commit, NodeRequest.commit,
        System.allows, Commit.issues, Commit.newPoolName, Commit.choiceFits, System.perform,
        Commit.run, section_done, next]
    rw [Runs.exec, if_pos ⟨rfl, trivial⟩, first, Option.bind_some, Runs.exec,
      if_pos ⟨rfl, trivial⟩, second, Option.bind_some]
    rfl
  exact ⟨_, Runs.reaches_of_exec _ performed, warmed, free, job, rfl, ready⟩

theorem hoarded {idle : Nat} (fits : idle ≤ u32Max) :
    ∃ t, @System.Run crates (fun _ _ => True) empty t ∧ Hoarding idle t := by
  induction idle with
  | zero =>
    obtain ⟨t, run, begun⟩ := Runs.exists_reaches (@System.step crates)
      (fun _ label => System.restarts label = false ∧ True) empty hoarding hoards hoarding_begins
    exact ⟨t, run, hoarding_of_hoards begun⟩
  | succ idle ih =>
    obtain ⟨s, before, hoards⟩ := ih (by omega)
    obtain ⟨t, later, more⟩ := hoards.next (by omega)
    exact ⟨t, before.trans later, more⟩

/-- The update of the limit comes through when the instances are 2^32. -/
theorem Hoarding.limited {s : System} (hoarding : Hoarding 4294967294 s) :
    ∃ t, @System.Run crates (fun _ _ => True) s t ∧
      Hoard (environmentPool limitedEnvironment) 4294967294 t.cluster ∧
      t.inflight = [.authenticated node (.addWarmInstance pool)] := by
  obtain ⟨job, flight, ready⟩ := hoarding.waiting
  have free := hoarding.free
  have hoard := hoarding.hoard
  obtain ⟨c, database, key, files, dirs, inflight, issued, replies, lastSave⟩ := s
  obtain rfl : inflight = _ := flight
  have done := limiting_section hoard
  have unused : c.pools.contains (restartedPoolName environment 9) = false := by
    rw [Keyed.contains_eq_false_iff]
    exact free
  have allowed : System.allows ⟨c, database, key, files, dirs, [.environment job,
      .authenticated node (.addWarmInstance pool)], issued, replies, lastSave⟩ limiting = true := by
    simp only [System.allows, limiting, Commit.issues, Commit.newPoolName, Commit.choiceFits]
    simpa using unused
  have first : @System.step crates ⟨c, database, key, files, dirs, [.environment job,
      .authenticated node (.addWarmInstance pool)], issued, replies, lastSave⟩ (.enter 0 (input 9)) =
      some ⟨limit c, database, key, files, dirs, [.authenticated node (.addWarmInstance pool),
        .running [.saveCluster, .unlock, .saveExecutions []] (.environment limitedEnvironment
          ((limit c).environmentReady limitedEnvironment))], issued, replies, lastSave⟩ := by
    simp only [System.step, Frame.commit, ready, List.getElem?_cons_zero, Option.bind_some]
    rw [allowed]
    simp only [System.locked, Frame.holdsLock, List.any_cons, List.any_nil, System.perform, done]
    rfl
  have performed : Runs.exec (@System.step crates) (fun _ label =>
      System.restarts label = false ∧ True)
      ⟨c, database, key, files, dirs, [.environment job,
        .authenticated node (.addWarmInstance pool)], issued, replies, lastSave⟩
      (.enter 0 (input 9) :: finish 1 3) = some ⟨limit c,
        @Database.saveExecutions crates (database.saveCluster (limit c)) [], key, files, dirs,
        [.authenticated node (.addWarmInstance pool)], issued, .environment limitedEnvironment
          ((limit c).environmentReady limitedEnvironment) :: replies, limit c⟩ := by
    rw [Runs.exec, if_pos ⟨rfl, trivial⟩, first, Option.bind_some]
    rfl
  exact ⟨_, Runs.reaches_of_exec _ performed, hoard.limit, rfl⟩

theorem Hoard.instances {held : Pool} {idle : Nat} {c : Cluster} (hoard : Hoard held idle c) :
    c.instances pool = 2 + idle := by
  rw [Cluster.instances, hoard.active, hoard.idleCount]

end Demo

namespace System

/-- An environment with room for one instance has it warmed. -/
theorem instance_limits_kept_warmed : ∃ t u : System,
    @step Demo.crates t (.enter 0 (Demo.input 0)) = some u ∧ t.cluster.instances Demo.pool = 0 ∧
      u.cluster.instances Demo.pool = 1 ∧
      u.cluster.instances Demo.pool ≤ max 1 (t.cluster.instances Demo.pool) ∧
      u.cluster.instances Demo.pool ≤ 1 := by
  have performed : Option.any (fun t : System => Option.any (fun u : System =>
        decide (restarts (.enter 0 (Demo.input 0)) = false ∧
          @KeepsLimit Demo.crates Demo.pool t (.enter 0 (Demo.input 0))) &&
        decide (t.cluster.pools.get Demo.pool = some (environmentPool Demo.limitedEnvironment) ∧
          u.cluster.pools.get Demo.pool = some (environmentPool Demo.limitedEnvironment) ∧
          t.cluster.instances Demo.pool = 0 ∧ u.cluster.instances Demo.pool = 1))
        (@step Demo.crates t (.enter 0 (Demo.input 0))))
      (Runs.exec (@step Demo.crates) (fun s label =>
          restarts label = false ∧ @KeepsLimit Demo.crates Demo.pool s label) Demo.empty
        (Demo.installation ++ .checkEnvironment none Demo.limitedRequest ::
          .enter 0 (Demo.input Demo.environment) :: Demo.finish 0 2 ++
          [.authenticate Demo.node "credential" none (.addWarmInstance Demo.pool)])) = true := by
    decide +kernel
  obtain ⟨t, reached, after⟩ := (Option.any_eq_true _ _).mp performed
  obtain ⟨u, stepped, facts⟩ := (Option.any_eq_true _ _).mp after
  simp only [Bool.and_eq_true, decide_eq_true_eq] at facts
  obtain ⟨allowed, before, known, none_yet, one⟩ := facts
  have run := Runs.reaches_of_exec _ reached
  have kept := @instance_limits_kept Demo.crates _ fresh_empty.started Demo.pool
  refine ⟨t, u, stepped, none_yet, one, ?_, ?_⟩
  · exact kept.1 t u _ (run.mono (fun _ _ permitted => ⟨permitted.1, trivial⟩)) rfl stepped
      (by rw [none_yet]; exact Nat.zero_le _) _ _ 1 before known rfl rfl
  · exact kept.2 fresh_empty Demo.empty u (.refl _) rfl (run.tail _ allowed stepped) _ 1 known rfl (by decide)

/-- At 2^32 instances, two in use and the others idle, a pool with a limit of one gets one more. -/
theorem instance_limit_overrun :
    ¬ ∀ [Crates] (s t u : System) (label : Label) (name : String), s.Fresh →
      Run (fun _ _ => True) s t → restarts label = false → t.step label = some u →
      ∀ pool after limit, t.cluster.pools.get name = some pool →
        u.cluster.pools.get name = some after → pool.maxInstances = some limit →
        after.maxInstances = some limit →
        u.cluster.instances name ≤ max limit (t.cluster.instances name) := by
  intro claim
  obtain ⟨s, before, hoarding⟩ := @Demo.hoarded 4294967294 (by decide)
  obtain ⟨t, later, hoard, flight⟩ := hoarding.limited
  have grown := hoard.warm (by decide)
  have done := Demo.addWarmInstance_section hoard hoard.added_limited
  have allowed : t.allows (.addWarmInstance Demo.node Demo.pool) = true := rfl
  have stepped : @step Demo.crates t (.enter 0 (Demo.input 0)) =
      some { t with
        cluster := t.cluster.move (.warm Demo.node (environmentPool Demo.limitedEnvironment))
        inflight := [.running [.saveCluster, .saveExecutions [], .unlock] (.flag true)]
        issued := t.issued } := by
    simp only [step, flight, List.getElem?_cons_zero, Option.bind_some, Frame.commit,
      NodeRequest.commit, allowed, locked, List.any_cons, List.any_nil, Frame.holdsLock, perform,
      Commit.run, done]
    rfl
  have kept := @claim Demo.crates _ _ _ _ Demo.pool fresh_empty (before.trans later) rfl stepped
    _ _ 1 hoard.known grown.known rfl rfl
  rw [hoard.instances, grown.instances] at kept
  exact absurd kept (by decide)

end System
end Scraperack
