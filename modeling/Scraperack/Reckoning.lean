import Scraperack.Bookkeeping
import Scraperack.Reset
import Scraperack.WorkingDirs

/-! The reckoning between controller and node: what the controller counts as idle is what the node has at
hand, but for the machines that executions on their way are to take. -/

namespace Scraperack
open Urls
open scoped List

/-- The direct sections neither add idle machines nor grant any. -/
theorem Commit.direct_plain {commit : Commit} (direct : commit.direct = true) (node : Uuid)
    (name : String) (c : Cluster) :
    commit.adds node name c = false ∧ commit.grants node name c = false := by
  cases commit <;> first | exact ⟨rfl, rfl⟩ | cases direct

theorem Frame.eq_of_completion {node : Uuid} {frame : Frame} {id : Uuid}
    {request : CompleteExecution} (completes : frame.completion node = some (id, request)) :
    frame = .authenticated node (.completeExecution id request) := by
  cases frame with
  | authenticated asking asked =>
    cases asked <;> simp only [Frame.completion, reduceCtorEq] at completes
    split_ifs at completes with here
    obtain rfl := here
    cases completes
    rfl
  | _ => cases completes

theorem System.losing_of_ran [Crates] {s : System} {label : Label} {commit : Commit}
    {result : Section} (entering : s.entering label = some commit)
    (ran : commit.run s.cluster = .ok result) (node : Uuid) (name : String) :
    s.losing node name label = commit.loses node name s.cluster := by
  simp only [losing, entering, ran]

theorem Task.eq_received {task : Task} (unserved : task.served = false) :
    task = .received task.pool := by
  cases task <;> first | rfl | cases unserved

@[simp] theorem namedVms_nil (name : String) : namedVms name [] = 0 := rfl

@[simp] theorem namedVms_append (name : String) (vms others : List Vm) :
    namedVms name (vms ++ others) = namedVms name vms + namedVms name others := List.countP_append

theorem namedVms_perm (name : String) {vms others : List Vm} (same : vms ~ others) :
    namedVms name vms = namedVms name others := same.countP_eq _

/-- A machine counts if its pool is this one. -/
theorem namedVms_of_few {name : String} {vms : List Vm} {pool : Pool}
    (few : vms = [] ∨ ∃ vm, vms = [vm] ∧ vm.pool.name = pool.name) :
    namedVms name vms = (!vms.isEmpty && decide (pool.name = name)).toNat := by
  rcases few with rfl | ⟨vm, rfl, same⟩
  · rfl
  · rw [namedVms, List.countP_singleton, same]
    by_cases here : pool.name = name <;> simp [here]

/-- The heartbeat keeps the name of a machine, or gives the machine up. -/
theorem relabel_named (ready : List Pool) (name : String) (idle : List Vm) :
    namedVms name (relabel ready idle) + (if name ∈ ready.map Pool.name then 0 else namedVms name idle) =
      namedVms name idle := by
  induction idle with
  | nil => simp [relabel, namedVms]
  | cons vm rest ih =>
    have cons (vms : List Vm) (first : Vm) : namedVms name (first :: vms) =
        namedVms name vms + if first.pool.name = name then 1 else 0 := by
      simp [namedVms, List.countP_cons]
    rw [relabel, List.filterMap_cons, ← relabel]
    cases found : ready.reverse.find? (fun pool => pool.name = vm.pool.name) with
    | none =>
      have absent : vm.pool.name ∉ ready.map Pool.name := by
        intro member
        obtain ⟨pool, there, same⟩ := List.mem_map.mp member
        have never := List.find?_eq_none.mp found pool (List.mem_reverse.mpr there)
        simp [same] at never
      simp only [Option.map_none, cons]
      by_cases named : vm.pool.name = name
      · subst named
        rw [if_neg absent] at ih ⊢
        rw [if_pos rfl]
        omega
      · rw [if_neg named, Nat.add_zero]
        exact ih
    | some pool =>
      have same : pool.name = vm.pool.name := by simpa using List.find?_some found
      have present : vm.pool.name ∈ ready.map Pool.name :=
        List.mem_map.mpr ⟨pool, List.mem_reverse.mp (List.mem_of_find?_eq_some found), same⟩
      simp only [Option.map_some, cons, same]
      by_cases named : vm.pool.name = name
      · subst named
        rw [if_pos present] at ih ⊢
        rw [if_pos rfl]
        omega
      · rw [if_neg named, Nat.add_zero, Nat.add_zero]
        exact ih

namespace NodeEvent

/-- The loop goes on by itself, and the machines stay what they are. -/
def quiet : NodeEvent → Bool
  | .list | .sync _ | .take | .retain | .ask _ | .warm _ _ | .rest => true
  | _ => false

end NodeEvent

/-- The machines that the loop has in hand or has made ready for executions stay the same. -/
theorem NodeProcess.heartbeat_quiet [Crates] {process next : NodeProcess} {pools : List Pool}
    {event : NodeEvent} (quiet : event.quiet = true)
    (done : process.heartbeat pools event = some next) :
    next.vms.idle ++ next.beat.held ~ process.vms.idle ++ process.beat.held := by
  have balance (within : event.within = true) (fresh : process.heartbeat [] event = some next)
      (claimed : process.claimed event = []) (added : process.added event = []) :
      next.vms.idle ++ next.beat.held ~ process.vms.idle ++ process.beat.held := by
    simpa [claimed, added] using NodeProcess.heartbeat_balance within fresh
  cases event with
  | list | sync =>
    simp only [heartbeat] at done
    split at done <;> cases done
    rename_i here
    rw [here]
    exact .refl _
  | take | retain | ask | warm | rest => exact balance rfl done rfl rfl
  | _ => cases quiet

namespace Errand

/-- An answer that the loop takes is one that it has waited for. -/
theorem permits_trim {errand : Errand} {release : Bool} {now : Nat}
    (permitted : errand.permits (.trim release now) = true) :
    ∃ asked, errand = .answered (.remove asked) (.flag release) := by
  unfold permits at permitted
  split at permitted <;> simp_all

theorem permits_offer {errand : Errand} {accepted : Bool}
    (permitted : errand.permits (.offer accepted) = true) :
    ∃ asked, errand = .answered (.add asked) (.flag accepted) := by
  unfold permits at permitted
  split at permitted <;> simp_all

theorem permits_ask {errand : Errand} {needed : Bool}
    (permitted : errand.permits (.ask needed) = true) : errand = .told needed := by
  unfold permits at permitted
  split at permitted <;> simp_all

end Errand

theorem Vm.trimmed_pool (vm : Vm) (now : Nat) : (vm.trimmed now).pool = vm.pool := by
  unfold Vm.trimmed
  split <;> rfl

theorem Errand.agreed_pending {errand : Errand} (rests : errand.pending = false)
    (inflight : List Frame) (call : IdleCall) : errand.agreed inflight call = false := by
  cases errand <;> first | rfl | cases rests

/-- After an error the loop gets no answer. -/
theorem Errand.permits_failed {errand : Errand} {event : NodeEvent} (failed : errand.failed = true)
    (permitted : errand.permits event = true) : event.answers = false := by
  cases event with
  | trim release now =>
    obtain ⟨asked, rfl⟩ := permits_trim permitted
    cases failed
  | offer accepted =>
    obtain ⟨asked, rfl⟩ := permits_offer permitted
    cases failed
  | ask needed =>
    obtain rfl := permits_ask permitted
    cases failed
  | _ => rfl

namespace Liaison
variable {node : Uuid} {name : String} {l m : Liaison}

/-- The books of controller and node agree up to the executions that have to get a machine. -/
structure Fair (node : Uuid) (name : String) (l : Liaison) : Prop where
  below : l.counted node name ≤ l.atHand name
  above : l.atHand name ≤ l.counted node name + l.waiting node name

/-! A step of the controller. -/

/-- Executions that go on running count as before. -/
theorem regained_congr {c d : Cluster} {reports : List (Uuid × CompleteExecution)}
    (runs : ∀ report ∈ reports, ∃ name, c.RunsIn node report.1 name ∧ d.RunsIn node report.1 name) :
    regained d node name reports = regained c node name reports := by
  refine List.countP_congr (fun report member => ?_)
  obtain ⟨inside, before, after⟩ := runs report member
  rw [before.any_isOn, after.any_isOn]

theorem regained_cons (c : Cluster) (node : Uuid) (name : String)
    (report : Uuid × CompleteExecution) (reports : List (Uuid × CompleteExecution)) :
    regained c node name (report :: reports) = regained c node name reports +
      (report.2.keepIdle &&
        (c.executions.get report.1).any (Execution.isOn node name)).toNat := by
  rw [regained, List.countP_cons, ← regained]
  cases report.2.keepIdle && (c.executions.get report.1).any (Execution.isOn node name) <;> rfl

/-- How a step of the controller moves idle machines between what is counted, what is reported and what
is agreed on. -/
structure Booked [Crates] (node : Uuid) (name : String) (l : Liaison) (t : System) (errand : Errand)
    (label : Label) (more granted paid : Nat) : Prop where
  shift : Cluster.Shift node name (l.served node) l.system.cluster t.cluster more granted
    (l.system.losing node name label)
  reports : regained t.cluster node name (l.reports ++ t.inflight.filterMap (Frame.completion node)) +
    paid = regained l.system.cluster node name (l.completions node)
  added : more + (l.errand.agreed l.system.inflight (.add name)).toNat =
    paid + (errand.agreed t.inflight (.add name)).toNat
  removed : granted + (l.errand.agreed l.system.inflight (.remove name)).toNat =
    (errand.agreed t.inflight (.remove name)).toNat

theorem adds_of_call (c : Cluster) (node : Uuid) (name : String) (call : IdleCall) (input : Input) :
    (call.request.commit node input).adds node name c =
        (decide (call = .add name) && call.accepted c node) ∧
      (call.request.commit node input).grants node name c =
        (decide (call = .remove name) && call.accepted c node) := by
  cases call <;> simp [IdleCall.request, NodeRequest.commit, Commit.adds, Commit.grants,
    IdleCall.accepted]

section
variable [Crates]

/-- A section adds the machine of the completion that it is about, and no other, unless it is that of a
request about idle machines. -/
theorem adds_of_frame {c : Cluster} {frame : Frame} {input : Input} {commit : Commit}
    {result : Section} (ready : frame.commit input = some commit)
    (ran : commit.run c = .ok result) (other : frame.call node = none) (name : String) :
    (commit.adds node name c).toNat = regained c node name (frame.completion node).toList ∧
      commit.grants node name c = false := by
  cases frame with
  | authenticated asking request =>
    obtain rfl := Option.some.inj ready
    cases request with
    | addWarmInstance pool | removeIdleInstance pool =>
      have differ : asking ≠ node := by simpa [Frame.call] using other
      simp [NodeRequest.commit, Commit.adds, Commit.grants, differ, Frame.completion, regained]
    | completeExecution id request =>
      refine ⟨?_, rfl⟩
      by_cases here : asking = node
      · rw [Frame.completion, if_pos here, Option.toList_some, regained_cons]
        exact (Nat.zero_add _).symm
      · obtain ⟨execution, present, placed, -⟩ := completeExecution_eq_ok ran
        have off : execution.isOn node name = false := by
          simp [Execution.isOn, Execution.occupiesOn, placed, here]
        simp [NodeRequest.commit, Commit.adds, Frame.completion, here, present, off, regained]
    | _ => exact ⟨rfl, rfl⟩
  | environment job =>
    simp only [Frame.commit, Job.commit] at ready
    split at ready <;> cases ready <;> exact ⟨rfl, rfl⟩
  | importing image =>
    obtain ⟨built, -, rfl⟩ := Option.map_eq_some_iff.mp ready
    exact ⟨rfl, rfl⟩
  | running => cases ready

/-- What is served is running on the node. -/
theorem Kept.served_running (kept : Kept node l) {id : Uuid} (member : id ∈ l.served node) :
    ∃ name, l.system.cluster.RunsIn node id name := by
  rcases List.mem_append.mp member with working | reported
  · obtain ⟨job, there, rfl⟩ := List.mem_map.mp working
    exact ⟨_, kept.busy job (List.mem_filter.mp there).1⟩
  · obtain ⟨report, there, rfl⟩ := List.mem_map.mp reported
    exact kept.ended report there

theorem Kept.running (kept : Kept node l) (id : Uuid) (member : id ∈ l.served node)
    (execution : Execution) (present : l.system.cluster.executions.get id = some execution) :
    execution.status = .running := by
  obtain ⟨name, other, found, runs, -⟩ := kept.served_running member
  obtain rfl := Option.some.inj (present.symm.trans found)
  exact runs

/-- Completions other than the one whose handler enters its section bring as much as before. -/
theorem Kept.reports_step (kept : Kept node l) {label : Label} (free : label.aside node = true)
    {t : System} (done : l.system.step label = some t) (name : String) :
    regained t.cluster node name (l.reports ++ t.inflight.filterMap (Frame.completion node)) +
        regained l.system.cluster node name
          ((l.system.turning label).bind (Frame.completion node)).toList =
      regained l.system.cluster node name (l.completions node) := by
  let turned := (l.system.turning label).bind (Frame.completion node)
  let reported := l.reports ++ t.inflight.filterMap (Frame.completion node)
  have whole : turned.toList ++ reported ~ l.completions node := completions_step done free
  have apart : ((l.completions node).map Prod.fst).Nodup := (List.nodup_append.mp kept.apart).2.1
  rw [← (whole.map Prod.fst).nodup_iff, List.map_append, List.nodup_append] at apart
  have stays : regained t.cluster node name reported =
      regained l.system.cluster node name reported := by
    refine regained_congr (fun report member => ?_)
    obtain ⟨inside, runs⟩ := kept.ended report (whole.subset (List.mem_append_right _ member))
    refine ⟨inside, runs, runs_step kept.sound done free runs (fun request turns => ?_)⟩
    exact apart.2.2 report.1 (by simp [turned, turns]) report.1 (List.mem_map_of_mem member) rfl
  rw [stays, Nat.add_comm]
  exact (List.countP_append ..).symm.trans (whole.countP_eq _)

/-- A completion of the node is not refused. -/
theorem Kept.completes (kept : Kept node l) {index : Nat} {id : Uuid} {request : CompleteExecution}
    (there : l.system.inflight[index]? = some (.authenticated node (.completeExecution id request)))
    (now : Nat) :
    ∃ result, Scraperack.completeExecution node id request now l.system.cluster = .ok result := by
  have reported : (id, request) ∈ l.completions node :=
    List.mem_append_right _ (List.mem_filterMap.mpr
      ⟨_, List.mem_of_getElem? there, by simp [Frame.completion]⟩)
  obtain ⟨name, execution, present, -, placed, -⟩ := kept.ended _ reported
  simp only [Scraperack.completeExecution, bind_eq_ok_iff, require_eq_ok_iff, found_eq_ok_iff,
    exists_const, pure, Except.pure, Except.ok.injEq]
  exact ⟨_, execution, present, placed, rfl⟩

/-- A step that enters no section of a request in flight neither adds idle machines nor grants any. -/
theorem Kept.shift_plain (kept : Kept node l) {label : Label} (free : label.aside node = true)
    {t : System} (done : l.system.step label = some t) (turning : l.system.turning label = none)
    (name : String) : Cluster.Shift node name (l.served node) l.system.cluster t.cluster 0 0
      (l.system.losing node name label) := by
  have same : System.restarts label = false := by cases label <;> first | rfl | cases free
  cases System.step_cases done with
  | performed _ commit others result _ _ entered ran =>
    rw [System.losing_of_ran entered.entering ran]
    cases entered with
    | handler index input frame _ there => cases turning.symm.trans there
    | client _ direct =>
      obtain ⟨adds, grants⟩ := Commit.direct_plain direct node name l.system.cluster
      have shift : Cluster.Shift node name (l.served node) l.system.cluster result.cluster
          (commit.adds node name l.system.cluster).toNat
          (commit.grants node name l.system.cluster).toNat _ :=
        Commit.shift ran kept.running (fun id request now completes => by
          subst completes
          cases direct)
      rw [adds, grants] at shift
      exact shift
  | called index op rest before after next _ plain ran =>
    exact .of_same (by rw [(System.runOp_frame plain ran).1]) (by rw [(System.runOp_frame plain ran).1])
  | admitted index execution secrets queue rest before database present stored =>
    obtain ⟨⟨absent, queued, -⟩, -⟩ := kept.sound.inserting ⟨secrets, queue, rest, before, present⟩
    refine (shift_admitExecution queue absent queued (fun member => ?_)).lose (Nat.zero_le _)
    obtain ⟨_, _, found, -⟩ := kept.served_running member
    rw [absent] at found
    cases found
  | restarted => cases same
  | _ => exact .of_same rfl rfl

/-- A handler enters its section. -/
theorem Kept.booked_enter (kept : Kept node l) {index : Nat} {input : Input} {t : System}
    (done : l.system.step (.enter index input) = some t) {errand : Errand}
    (told : l.errand.Told node errand l.system t (.enter index input)) (name : String) :
    errand.failed = true ∨ ∃ more granted paid,
      Booked node name l t errand (.enter index input) more granted paid := by
  have reports := kept.reports_step rfl done name
  obtain ⟨frame, commit, there, ready, allowed, rfl⟩ := System.enter_step done
  have entering : l.system.entering (.enter index input) = some commit := by
    simp [System.entering, there, ready]
  have turning : l.system.turning (.enter index input) = some frame := there
  rw [turning, Option.bind_some] at reports
  cases ran : commit.run l.system.cluster with
  | error error =>
    have cluster : (l.system.perform commit (l.system.inflight.eraseIdx index)).cluster =
        l.system.cluster := by simp [System.perform, ran]
    have other : frame.completion node = none := by
      cases completes : frame.completion node with
      | none => rfl
      | some report =>
        obtain rfl := Frame.eq_of_completion completes
        obtain rfl := Option.some.inj ready
        obtain ⟨result, fine⟩ := kept.completes there input.now
        cases fine.symm.trans ran
    cases told with
    | failed failed => exact .inl failed
    | same agreed =>
      refine .inr ⟨0, 0, 0, ?_, ?_, by rw [agreed], by rw [agreed, Nat.zero_add]⟩
      · rw [cluster]
        exact .of_same rfl rfl
      · rw [other] at reports
        exact reports
    | decided _ _ call entered asks =>
      cases entered
      obtain rfl := Option.some.inj (there.symm.trans asks)
      obtain rfl := Option.some.inj ready
      obtain ⟨result, fine, -⟩ := IdleCall.run l.system.cluster node call input
      cases fine.symm.trans ran
  | ok result =>
    have cluster : (l.system.perform commit (l.system.inflight.eraseIdx index)).cluster =
        result.cluster := by simp [System.perform, ran]
    have ends (id : Uuid) (request : CompleteExecution) (now : Nat)
        (completes : commit = .completeExecution node id request now) : id ∈ l.served node := by
      subst completes
      obtain rfl := Frame.eq_of_completes ready
      refine List.mem_append_right _ (List.mem_map.mpr ⟨(id, request), ?_, rfl⟩)
      exact List.mem_append_right _ (List.mem_filterMap.mpr
        ⟨_, List.mem_of_getElem? there, by simp [Frame.completion]⟩)
    have shift : Cluster.Shift node name (l.served node) l.system.cluster result.cluster
        (commit.adds node name l.system.cluster).toNat
        (commit.grants node name l.system.cluster).toNat _ := Commit.shift ran kept.running ends
    rw [← System.losing_of_ran entering ran, ← cluster] at shift
    cases told with
    | failed failed => exact .inl failed
    | same agreed others =>
      obtain ⟨adds, grants⟩ := adds_of_frame ready ran (others frame turning) name
      rw [adds, grants] at shift
      exact .inr ⟨_, _, _, shift, reports, by rw [agreed], by rw [agreed]; exact Nat.zero_add _⟩
    | decided _ _ call entered asks decides =>
      cases entered
      obtain rfl := Option.some.inj (there.symm.trans asks)
      obtain rfl := Option.some.inj ready
      obtain ⟨adds, grants⟩ := adds_of_call l.system.cluster node name call input
      rw [adds, grants] at shift
      refine .inr ⟨_, _, _, shift, reports, ?_, ?_⟩
      · rw [(decides _).1, (decides _).2]
        cases call <;> simp [IdleCall.request, Frame.completion, regained]
      · rw [(decides _).1, (decides _).2]
        rfl

theorem Kept.booked (kept : Kept node l) {label : Label} (free : label.aside node = true)
    {t : System} (done : l.system.step label = some t) (name : String) :
    (l.errand.after l.system t label).failed = true ∨ ∃ more granted paid,
      Booked node name l t (l.errand.after l.system t label) label more granted paid := by
  have told := (System.errand_step done free kept.tracked).2
  by_cases enters : ∃ index input, label = .enter index input
  · obtain ⟨index, input, rfl⟩ := enters
    exact kept.booked_enter done told name
  · have turning : l.system.turning label = none := by
      cases label <;> first | rfl | exact absurd ⟨_, _, rfl⟩ enters
    have reports := kept.reports_step free done name
    rw [turning] at reports
    cases told with
    | failed failed => exact .inl failed
    | same agreed =>
      exact .inr ⟨0, 0, 0, kept.shift_plain free done turning name, reports, by rw [agreed],
        by rw [agreed, Nat.zero_add]⟩
    | decided index input call entered => exact absurd ⟨index, input, entered⟩ enters

/-- Nobody is served by a step of the controller. -/
theorem served_advance (paired : l.executions.length = l.process.tasks.length) {label : Label}
    (free : label.aside node = true) (stepped : l.advance node label = some m) :
    ∀ id ∈ m.served node, id ∈ l.served node := by
  obtain ⟨t, done, rfl⟩ := Option.map_eq_some_iff.mp stepped
  intro id member
  rcases List.mem_append.mp member with working | reported
  · obtain ⟨job, there, rfl⟩ := List.mem_map.mp working
    obtain ⟨there, served⟩ := List.mem_filter.mp there
    refine List.mem_append_left _ (List.mem_map_of_mem (List.mem_filter.mpr ⟨?_, served⟩))
    simp only [jobs] at there
    rw [List.zip_append paired] at there
    rcases List.mem_append.mp there with before | new
    · exact before
    · cases reaches : l.system.reaching node label with
      | none => simp [reaches] at new
      | some work =>
        obtain rfl : job = (work.1, .received work.2) := by simpa [reaches] using new
        cases served
  · refine List.mem_append_right _ ?_
    obtain ⟨report, there, rfl⟩ := List.mem_map.mp reported
    refine List.mem_map_of_mem ?_
    rcases List.mem_append.mp there with posted | flying
    · exact List.mem_append_left _ posted
    · exact List.mem_append_right _
        ((completion_step done free).subset (List.mem_append_right _ flying))

theorem Fair.advance (fair : Fair node name l) (kept : Kept node l) {label : Label}
    (keeps : Keeps node name l (.controller label)) (free : label.aside node = true)
    (stepped : l.advance node label = some m) : m.errand.failed = true ∨ Fair node name m := by
  have fewer := served_advance kept.paired free stepped
  obtain ⟨t, done, rfl⟩ := Option.map_eq_some_iff.mp stepped
  refine (kept.booked free done name).imp_right ?_
  rintro ⟨more, granted, paid, booked⟩
  have enough : l.system.losing node name label ≤ l.unprovided node name := keeps
  have waits : t.cluster.unserved node name (l.served node) ≤ _ := Cluster.unserved_anti fewer
  have shift := booked.shift
  have below := fair.below
  have above := fair.above
  have shift_below := shift.below
  have shift_above := shift.above
  have reports := booked.reports
  have added := booked.added
  have removed := booked.removed
  unfold unprovided waiting counted atHand at enough
  unfold counted atHand at below
  unfold waiting counted atHand at above
  constructor
  · unfold counted atHand
    simp only [completions]
    omega
  · unfold waiting counted atHand
    simp only [completions] at waits ⊢
    omega

/-! The requests of the node. -/

/-- Nobody is served twice. -/
theorem Kept.served_nodup (kept : Kept node l) : (l.served node).Nodup := by
  refine kept.apart.sublist (List.Sublist.append_right ?_ _)
  rw [← List.map_fst_zip kept.paired.le]
  exact List.filter_sublist.map Prod.fst

omit [Crates] in
/-- The request does not change what there is and what is counted. -/
theorem Fair.of_same (fair : Fair node name l) (cluster : m.system.cluster = l.system.cluster)
    (process : m.process = l.process) (executions : m.executions = l.executions)
    (completions : m.completions node ~ l.completions node)
    (agreed : ∀ call, m.errand.agreed m.system.inflight call =
      l.errand.agreed l.system.inflight call) : Fair node name m := by
  have regains : regained m.system.cluster node name (m.completions node) =
      regained l.system.cluster node name (l.completions node) := by
    rw [cluster]
    exact completions.countP_eq _
  have waits : m.waiting node name = l.waiting node name := by
    rw [waiting, waiting, cluster]
    refine Cluster.unserved_perm ?_
    rw [served, served, jobs, jobs, process, executions]
    exact (completions.map Prod.fst).append_left _
  have counts : m.counted node name = l.counted node name := by
    rw [counted, counted, regains, agreed, cluster]
  have hands : m.atHand name = l.atHand name := by
    rw [atHand, atHand, agreed, process]
  exact ⟨by rw [counts, hands]; exact fair.below, by rw [counts, hands, waits]; exact fair.above⟩

/-- A completion that is refused leaves its execution among those that wait. -/
theorem Fair.refused (fair : Fair node name l) (kept : Kept node l) {id : Uuid}
    {request : CompleteExecution} (cluster : m.system.cluster = l.system.cluster)
    (process : m.process = l.process) (executions : m.executions = l.executions)
    (completions : (id, request) :: m.completions node ~ l.completions node)
    (agreed : ∀ call, m.errand.agreed m.system.inflight call =
      l.errand.agreed l.system.inflight call) : Fair node name m := by
  have served : id :: m.served node ~ l.served node := by
    rw [Liaison.served, Liaison.served, jobs, jobs, process, executions]
    exact List.perm_middle.symm.trans ((completions.map Prod.fst).append_left _)
  have absent := (List.nodup_cons.mp (served.nodup_iff.mpr kept.served_nodup)).1
  have waits : m.waiting node name = l.waiting node name +
      if (l.system.cluster.executions.get id).any (Execution.isOn node name) then 1 else 0 := by
    rw [waiting, waiting, cluster, ← Cluster.unserved_perm served]
    exact Cluster.unserved_cons absent
  have regains : regained l.system.cluster node name (l.completions node) =
      regained l.system.cluster node name (m.completions node) + (request.keepIdle &&
        (l.system.cluster.executions.get id).any (Execution.isOn node name)).toNat :=
    (completions.countP_eq _).symm.trans (regained_cons _ node name (id, request) _)
  have counts : l.counted node name = m.counted node name + (request.keepIdle &&
      (l.system.cluster.executions.get id).any (Execution.isOn node name)).toNat := by
    rw [counted, counted, agreed, cluster, regains]
    omega
  have hands : m.atHand name = l.atHand name := by rw [atHand, atHand, agreed, process]
  have below := fair.below
  have above := fair.above
  cases on : (l.system.cluster.executions.get id).any (Execution.isOn node name) with
  | false =>
    simp only [on, Bool.and_false, Bool.toNat_false, Bool.false_eq_true, if_false] at counts waits
    exact ⟨by omega, by omega⟩
  | true =>
    have few := Bool.toNat_le request.keepIdle
    simp only [on, Bool.and_true, if_true] at counts waits
    exact ⟨by omega, by omega⟩

theorem Fair.report (fair : Fair node name l) (kept : Kept node l) {index : Nat} {hash : String}
    {controller : Origin} (stepped : l.step controller node (.report index hash) = some m) :
    Fair node name m := by
  simp only [step] at stepped
  split at stepped
  · rename_i id request there
    obtain ⟨t, done, rfl⟩ := Option.map_eq_some_iff.mp stepped
    have taken := (Keyed.perm_eraseIdx there).symm
    rcases (System.authenticate_step done).2 with ⟨error, rfl⟩ | rfl
    · exact fair.refused kept rfl rfl rfl (taken.append_right _) (fun _ => rfl)
    · refine fair.of_same (l := l) rfl rfl rfl ?_ (fun call => kept.tracked.agreed_join _ call)
      simp only [List.filterMap_append, List.filterMap_cons, Frame.completion, if_true,
        List.filterMap_nil, completions]
      refine (List.perm_append_comm.append_left _).trans ?_
      rw [← List.append_assoc]
      exact List.Perm.append_right _ (.trans List.perm_append_comm taken)
  · cases stepped

theorem Fair.arrive (fair : Fair node name l) {hash : String} {controller : Origin}
    (stepped : l.step controller node (.arrive hash) = some m) :
    m.errand.failed = true ∨ Fair node name m := by
  simp only [step] at stepped
  split at stepped
  · rename_i call sent
    obtain ⟨t, done, rfl⟩ := Option.map_eq_some_iff.mp stepped
    rcases (System.authenticate_step done).2 with ⟨error, rfl⟩ | rfl
    · exact .inl (by simp [System.answer, Errand.failed])
    · have completions : (l.system.inflight ++ [Frame.authenticated node call.request]).filterMap
          (Frame.completion node) = l.system.inflight.filterMap (Frame.completion node) := by
        cases call <;> simp [IdleCall.request, Frame.completion]
      refine .inr (fair.of_same (l := l) rfl rfl rfl (.of_eq (congrArg _ completions)) ?_)
      intro other
      simp [sent, Errand.agreed, Frame.agrees]
  · cases stepped

omit [Crates] in
/-- The loop begins a request, or reads an answer that changes nothing. -/
theorem Fair.turn (fair : Fair node name l) {errand : Errand}
    (before : ∀ call, l.errand.agreed l.system.inflight call = false)
    (after : ∀ call, errand.agreed l.system.inflight call = false) :
    Fair node name { l with errand := errand } :=
  fair.of_same rfl rfl rfl (.refl _) (fun call => (after call).trans (before call).symm)

/-! The executions of the node. -/

/-- The condition on an execution that has just arrived. -/
theorem Keeps.received {event : NodeEvent} {outcome : CompleteExecution} {process : NodeProcess}
    {index : Nat} {pool : Pool} (keeps : Keeps node name l (.node event outcome))
    (done : l.process.execution event = some process)
    (turned : l.process.Turned process event index (.received pool)) (same : pool.name = name) :
    if (l.process.claimed event).isEmpty then 0 < l.unprovided node name
    else 0 < l.reserved node name := by
  have here := turned.here
  have there := turned.there
  have provided (given : l.Provided node name event index) :
      if (l.process.claimed event).isEmpty then 0 < l.unprovided node name
      else 0 < l.reserved node name := given pool (by rw [there]; rfl) same
  cases event with
  | acquire place | abandon place =>
    obtain rfl := Option.some.inj here
    exact provided keeps
  | start place | finish place =>
    obtain rfl := Option.some.inj here
    simp only [NodeProcess.execution, there] at done
    cases done
  | _ => cases here

omit [Crates] in
theorem served_cons (id : Uuid) (task : Task) (jobs : List (Uuid × Task)) :
    servedJobs ((id, task) :: jobs) = if task.served then id :: servedJobs jobs
      else servedJobs jobs := by
  unfold servedJobs
  rw [List.filter_cons]
  split_ifs <;> rfl

omit [Crates] in
theorem served_congr {jobs others : List (Uuid × Task)} (same : jobs ~ others) :
    servedJobs jobs ~ servedJobs others := (same.filter _).map _

/-- Whom an event of an execution serves. -/
theorem Proceeded.serves (kept : Kept node l) {id : Uuid} {task : Task} {event : NodeEvent}
    (proceeded : Proceeded l id task event m) (system : m.system = l.system) :
    (m.served node ~ if task.served then l.served node else id :: l.served node) ∧
      (task.served = false → id ∉ l.served node) := by
  obtain ⟨rest, before, after⟩ : ∃ rest, l.jobs ~ (id, task) :: rest ∧
      m.served node ~ id :: (servedJobs rest ++ (l.completions node).map Prod.fst) := by
    cases proceeded with
    | goes later pool served added tasks executions reports jobs =>
      obtain ⟨rest, before, after⟩ := jobs
      have completions : m.completions node = l.completions node := by
        rw [completions, completions, reports, system]
      refine ⟨rest, before, ?_⟩
      rw [Liaison.served, completions]
      refine ((served_congr after).append_right _).trans ?_
      rw [served_cons, if_pos served]
      exact .refl _
    | ends report _ tasks executions reports jobs =>
      have completions : m.completions node ~ (id, report) :: l.completions node := by
        rw [completions, completions, reports, system, List.append_assoc]
        exact List.perm_middle
      exact ⟨m.jobs, jobs, ((completions.map Prod.fst).append_left _).trans List.perm_middle⟩
  have here : l.served node ~ (if task.served then id :: servedJobs rest else servedJobs rest) ++
      (l.completions node).map Prod.fst := by
    rw [← served_cons]
    exact (served_congr before).append_right _
  have nodup : (id :: (servedJobs rest ++ (l.completions node).map Prod.fst)).Nodup := by
    have ids : id :: (rest.map Prod.fst ++ (l.completions node).map Prod.fst) ~
        l.executions ++ (l.completions node).map Prod.fst := by
      rw [← List.map_fst_zip kept.paired.le]
      exact ((before.map Prod.fst).append_right _).symm
    refine (ids.nodup_iff.mpr kept.apart).sublist (List.Sublist.cons_cons _ ?_)
    exact List.Sublist.append_right (List.filter_sublist.map Prod.fst) _
  constructor
  · split_ifs with served
    · rw [if_pos served] at here
      exact after.trans here.symm
    · rw [if_neg served] at here
      exact after.trans (here.symm.cons id)
  · intro unserved member
    rw [if_neg (by simp [unserved])] at here
    exact (List.nodup_cons.mp nodup).1 (here.subset member)

omit [Crates] in
theorem Proceeded.mem_jobs {id : Uuid} {task : Task} {event : NodeEvent}
    (proceeded : Proceeded l id task event m) : (id, task) ∈ l.jobs := by
  cases proceeded with
  | goes later pool served added tasks executions reports jobs =>
    obtain ⟨rest, before, -⟩ := jobs
    exact before.symm.subset List.mem_cons_self
  | ends report keeps tasks executions reports jobs =>
    exact jobs.symm.subset List.mem_cons_self

/-- What the controller will get to count, and who waits, after an event of an execution. -/
theorem Proceeded.counts (kept : Kept node l) {id : Uuid} {task : Task} {event : NodeEvent}
    (proceeded : Proceeded l id task event m) (system : m.system = l.system)
    (errand : m.errand = l.errand) (there : (id, task) ∈ l.jobs) (name : String) :
    m.counted node name = l.counted node name +
        (!(l.process.added event).isEmpty && decide (task.pool.name = name)).toNat ∧
      l.waiting node name = m.waiting node name +
        (!task.served && decide (task.pool.name = name)).toNat := by
  have on := (kept.busy _ there).any_isOn name
  obtain ⟨more, absent⟩ := proceeded.serves kept system
  constructor
  · cases proceeded with
    | goes later pool served added tasks executions reports jobs =>
      rw [counted, counted, completions, completions, reports, system, errand, added]
      simp
    | ends report keeps tasks executions reports jobs =>
      have completions : m.completions node ~ (id, report) :: l.completions node := by
        rw [completions, completions, reports, system, List.append_assoc]
        exact List.perm_middle
      have regains : regained m.system.cluster node name (m.completions node) =
          regained l.system.cluster node name (l.completions node) +
            (!(l.process.added event).isEmpty && decide (task.pool.name = name)).toNat := by
        rw [system, ← keeps, ← on]
        exact (completions.countP_eq _).trans (regained_cons _ node name (id, report) _)
      rw [counted, counted, regains, system, errand]
      omega
  · rw [waiting, waiting, system, Cluster.unserved_perm more]
    cases served : task.served with
    | true => simp
    | false =>
      rw [if_neg Bool.false_ne_true, Cluster.unserved_cons (absent served), on]
      cases decide (task.pool.name = name) <;> simp

/-- The machines at hand change with what the execution takes and brings. -/
theorem Kept.hands (kept : Kept node l) {process : NodeProcess} {event : NodeEvent} {index : Nat}
    {task : Task} (turned : l.process.Turned process event index task)
    (done : l.process.execution event = some process) (shape : m.process = process)
    (system : m.system = l.system) (errand : m.errand = l.errand) (name : String) :
    m.atHand name +
        (!(l.process.claimed event).isEmpty && decide (task.pool.name = name)).toNat =
      l.atHand name +
        (!(l.process.added event).isEmpty && decide (task.pool.name = name)).toNat := by
  have member : task ∈ l.process.tasks := List.mem_of_getElem? turned.there
  have claims : namedVms name (l.process.claimed event) =
      (!(l.process.claimed event).isEmpty && decide (task.pool.name = name)).toNat :=
    namedVms_of_few (turned.claims.imp_right (fun ⟨vm, claimed, same, _⟩ => ⟨vm, claimed, same⟩))
  have adds : namedVms name (l.process.added event) =
      (!(l.process.added event).isEmpty && decide (task.pool.name = name)).toNat :=
    namedVms_of_few (turned.adds.imp_right (fun ⟨vm, old, added, held, pool⟩ =>
      ⟨vm, added, pool ▸ kept.named task member old held⟩))
  have balance := namedVms_perm name (NodeProcess.execution_balance done)
  simp only [namedVms_append] at balance
  rw [← claims, ← adds, atHand, atHand, shape, system, errand]
  simp only [namedVms_append]
  omega

omit [Crates] in
/-- Only an execution that has just arrived takes an idle machine, and it brings none. -/
theorem turned_served {process : NodeProcess} {event : NodeEvent} {index : Nat} {task : Task}
    (turned : l.process.Turned process event index task) :
    (task.served = true → l.process.claimed event = []) ∧
      (task.served = false → l.process.added event = []) := by
  constructor
  · intro served
    rcases turned.claims with nothing | ⟨vm, -, -, unserved⟩
    · exact nothing
    · cases served.symm.trans unserved
  · intro unserved
    rcases turned.adds with nothing | ⟨vm, old, -, held, -⟩
    · exact nothing
    · rw [Task.eq_received unserved] at held
      cases held

theorem Fair.execution (fair : Fair node name l) (kept : Kept node l) {process : NodeProcess}
    {event : NodeEvent} {outcome : CompleteExecution}
    (keeps : Keeps node name l (.node event outcome))
    (done : l.process.execution event = some process) :
    Fair node name (l.proceed process event outcome) := by
  obtain ⟨index, task, turned⟩ := NodeProcess.execution_turned done
  obtain ⟨id, proceeded, shape, system, errand⟩ :=
    proceed_execution kept.paired turned outcome
  have there := proceeded.mem_jobs
  generalize l.proceed process event outcome = m at proceeded shape system errand ⊢
  obtain ⟨counts, waits⟩ := proceeded.counts kept system errand there name
  have hands := kept.hands turned done shape system errand name
  obtain ⟨unclaimed, none_added⟩ := turned_served turned
  have below := fair.below
  have above := fair.above
  cases served : task.served with
  | true =>
    rw [unclaimed served] at hands
    rw [served] at waits
    simp only [List.isEmpty_nil, Bool.not_true, Bool.false_and, Bool.toNat_false] at hands waits
    exact ⟨by omega, by omega⟩
  | false =>
    rw [none_added served] at hands counts
    rw [served] at waits
    simp only [List.isEmpty_nil, Bool.not_true, Bool.not_false, Bool.true_and, Bool.false_and,
      Bool.toNat_false, Nat.add_zero] at hands counts waits
    by_cases same : task.pool.name = name
    · have ready := keeps.received done (Task.eq_received served ▸ turned) same
      unfold reserved unprovided at ready
      simp only [same, decide_true, Bool.and_true, Bool.toNat_true] at hands waits
      cases empty : (l.process.claimed event).isEmpty with
      | true =>
        simp only [empty, if_true, Bool.not_true, Bool.toNat_false] at ready hands
        exact ⟨by omega, by omega⟩
      | false =>
        simp only [empty, Bool.false_eq_true, if_false, Bool.not_false, Bool.toNat_true] at ready hands
        exact ⟨by omega, by omega⟩
    · simp only [same, decide_false, Bool.and_false, Bool.toNat_false] at hands waits
      exact ⟨by omega, by omega⟩

/-! The loop of the node. -/

omit [Crates] in
/-- An answer that reaches the loop and the machines that the loop has in hand change together, but for
machines that the controller does not count. -/
theorem Fair.of_hands (fair : Fair node name l) {process : NodeProcess} {errand : Errand}
    (tasks : process.tasks = l.process.tasks) (less : Nat) (spare : less ≤ l.reserved node name)
    (hands : atHand { l with process := process, errand := errand } name + less +
        (l.errand.agreed l.system.inflight (.remove name)).toNat =
      l.atHand name + (errand.agreed l.system.inflight (.remove name)).toNat) :
    Fair node name { l with process := process, errand := errand } := by
  have below := fair.below
  have above := fair.above
  have waits : waiting { l with process := process, errand := errand } node name =
      l.waiting node name := by simp only [waiting, served, jobs, tasks, completions]
  have counts : counted { l with process := process, errand := errand } node name +
      (l.errand.agreed l.system.inflight (.remove name)).toNat =
        l.counted node name + (errand.agreed l.system.inflight (.remove name)).toNat := by
    simp only [counted, completions]
    omega
  unfold reserved at spare
  exact ⟨by omega, by rw [waits]; omega⟩

omit [Crates] in
/-- The heartbeat gives up no more machines than are reserved. -/
theorem Fair.relabel (fair : Fair node name l) {ready : List Pool}
    (synced : l.process.beat = .synced ready) (keeps : l.Orderly node name .relabel) :
    Fair node name { l with process := { l.process with
      vms := { l.process.vms with idle := Scraperack.relabel ready l.process.vms.idle }
      beat := .relabelled ready } } := by
  have left := relabel_named ready name l.process.vms.idle
  refine fair.of_hands rfl (if name ∈ ready.map Pool.name then 0
    else namedVms name l.process.vms.idle) ?_ ?_
  · split_ifs with present
    · exact Nat.zero_le _
    · exact (keeps ready (by rw [synced]; rfl)).resolve_left present
  · simp only [atHand, Beat.held, synced, List.append_nil]
    omega

omit [Crates] in
/-- The loop destroys the machine that it has asked about if the controller has given it up, and keeps it
otherwise. -/
theorem Fair.trim (fair : Fair node name l) {ready : List Pool} {idle retained : List Vm} {vm : Vm}
    (trimming : l.process.beat = .trimming ready idle retained) (last : idle.getLast? = some vm)
    {asked : String} {release : Bool} (answered : l.errand = .answered (.remove asked) (.flag release))
    {now : Nat} (keeps : l.Orderly node name (.trim release now)) :
    Fair node name { l with
      process := { l.process with
        beat := .trimming ready idle.dropLast
          (if release then retained else retained ++ [vm.trimmed now]) }
      errand := .free } := by
  have same : asked = name ↔ vm.pool.name = name :=
    keeps (asked, vm.pool.name) (by simp [matter, answered, trimming, last])
  have split : namedVms name idle = namedVms name idle.dropLast +
      if vm.pool.name = name then 1 else 0 := by
    conv_lhs => rw [← List.dropLast_append_getLast? vm last]
    simp [namedVms, List.countP_singleton]
  have pool := vm.trimmed_pool now
  refine fair.of_hands rfl 0 (Nat.zero_le _) ?_
  simp only [atHand, Beat.held, trimming, namedVms_append, answered, Errand.agreed, split]
  cases release with
  | false =>
    simp [namedVms, List.countP_singleton, pool]
    omega
  | true =>
    by_cases here : asked = name
    · simp [here, same.mp here]
      omega
    · have differs : ¬ vm.pool.name = name := fun there => here (same.mpr there)
      simp [here, differs]

omit [Crates] in
/-- The new machine is idle if the controller counts it, and destroyed otherwise. -/
theorem Fair.offer (fair : Fair node name l) {pool : Pool} {vm : Vm} {rest : List Pool}
    (offering : l.process.beat = .offering pool vm rest) (own : vm.pool = pool) {asked : String}
    {accepted : Bool} (answered : l.errand = .answered (.add asked) (.flag accepted))
    (keeps : l.Orderly node name (.offer accepted)) :
    Fair node name { l with
      process := if accepted then
          { l.process with vms := l.process.vms.release pool (some vm), beat := .warming (pool :: rest) }
        else { l.process with vms := l.process.vms.release pool none, beat := .warming rest }
      errand := .free } := by
  have same : asked = name ↔ pool.name = name :=
    keeps (asked, pool.name) (by simp [matter, answered, offering])
  refine fair.of_hands (by split_ifs <;> rfl) 0 (Nat.zero_le _) ?_
  simp only [atHand, Beat.held, offering, List.append_nil, answered, Errand.agreed]
  cases accepted with
  | false => simp [VmState.release]
  | true =>
    by_cases here : asked = name
    · simp [here, same.mp here, VmState.release, namedVms, own]
    · have differs : ¬ pool.name = name := fun there => here (same.mpr there)
      simp [here, differs, VmState.release, namedVms, own]

theorem Fair.heartbeat (fair : Fair node name l) (kept : Kept node l) {process : NodeProcess}
    {event : NodeEvent} {pools : List Pool} (keeps : l.Orderly node name event)
    (permitted : l.errand.permits event = true)
    (done : l.process.heartbeat pools event = some process) (outcome : CompleteExecution) :
    Fair node name (l.proceed process event outcome) := by
  obtain ⟨tasks, beats⟩ := NodeProcess.heartbeat_tasks done
  rw [proceed_heartbeat beats]
  have quietly (quiet : event.quiet = true) (same : ∀ call,
      (if event.answers then Errand.free else l.errand).agreed l.system.inflight call =
        l.errand.agreed l.system.inflight call) : Fair node name { l with
      process := process, errand := if event.answers then .free else l.errand } := by
    refine fair.of_hands tasks 0 (Nat.zero_le _) ?_
    have hands := namedVms_perm name (NodeProcess.heartbeat_quiet quiet done)
    rw [atHand, atHand, hands, same, same, Nat.add_zero]
  cases event with
  | list | sync | take | retain | warm | rest => exact quietly rfl (fun _ => rfl)
  | ask needed =>
    refine quietly rfl (fun call => ?_)
    rw [Errand.permits_ask permitted]
    rfl
  | relabel =>
    simp only [NodeProcess.heartbeat] at done
    split at done <;> cases done
    rename_i ready synced
    exact fair.relabel synced keeps
  | trim release now =>
    obtain ⟨asked, answered⟩ := Errand.permits_trim permitted
    simp only [NodeProcess.heartbeat] at done
    split at done
    · rename_i ready idle retained trimming
      obtain ⟨vm, last, rfl⟩ := Option.map_eq_some_iff.mp done
      exact fair.trim trimming last answered keeps
    · cases done
  | offer accepted =>
    obtain ⟨asked, answered⟩ := Errand.permits_offer permitted
    simp only [NodeProcess.heartbeat] at done
    split at done <;> cases done
    rename_i pool vm rest offering
    exact fair.offer offering (kept.offered pool vm rest offering) answered keeps
  | _ => cases done

omit [Crates] in
theorem proceed_errand (process : NodeProcess) (event : NodeEvent) (outcome : CompleteExecution) :
    (l.proceed process event outcome).errand = if event.answers then .free else l.errand := by
  simp only [proceed]
  cases event.task with
  | none => rfl
  | some index =>
    dsimp only
    split <;> rfl

theorem failed_step (failed : l.errand.failed = true)
    (stepped : l.step controller node label = some m) : m.errand.failed = true := by
  obtain ⟨call, reply, answered⟩ : ∃ call reply, l.errand = .answered call reply := by
    cases errand : l.errand with
    | answered call reply => exact ⟨call, reply, rfl⟩
    | _ =>
      rw [errand] at failed
      cases failed
  cases label with
  | controller label =>
    simp only [step] at stepped
    split_ifs at stepped
    obtain ⟨t, -, rfl⟩ := Option.map_eq_some_iff.mp stepped
    rw [answered] at failed ⊢
    exact failed
  | send | arrive | look => simp [step, answered] at stepped
  | report index hash =>
    simp only [step] at stepped
    split at stepped
    · obtain ⟨t, -, rfl⟩ := Option.map_eq_some_iff.mp stepped
      exact failed
    · cases stepped
  | node event outcome =>
    obtain ⟨permitted, process, rfl, -⟩ := node_step stepped
    rw [proceed_errand, Errand.permits_failed failed permitted]
    exact failed

/-- Until a request fails, each step that keeps the books in step leaves them so. -/
theorem Fair.step (fair : Fair node name l) (kept : Kept node l) (keeps : Keeps node name l label)
    (stepped : l.step controller node label = some m) :
    m.errand.failed = true ∨ Fair node name m := by
  cases label with
  | controller label =>
    simp only [Liaison.step] at stepped
    split_ifs at stepped with free
    exact fair.advance kept keeps free stepped
  | send =>
    simp only [Liaison.step] at stepped
    split at stepped
    · rename_i idle
      obtain ⟨call, -, rfl⟩ := Option.map_eq_some_iff.mp stepped
      exact .inr (fair.turn (fun _ => by rw [idle]; rfl) (fun _ => rfl))
    · cases stepped
  | arrive => exact fair.arrive stepped
  | look hash =>
    simp only [Liaison.step] at stepped
    split at stepped
    · rename_i idle _
      split_ifs at stepped
      obtain ⟨asked, -, rfl⟩ := Option.map_eq_some_iff.mp stepped
      exact .inr (fair.turn (fun _ => by rw [idle]; rfl) (fun _ => rfl))
    · cases stepped
  | report => exact .inr (fair.report kept stepped)
  | node event outcome =>
    obtain ⟨permitted, process, rfl, beats | runs⟩ := node_step stepped
    · exact .inr (fair.heartbeat kept keeps permitted beats outcome)
    · exact .inr (fair.execution kept keeps runs)

/-- The node has just registered with a controller that has run from its start. No message for it is on
its way, and the controller counts none of its machines. -/
structure Begins (node : Uuid) (l : Liaison) : Prop where
  reached : ∃ start, System.Started start ∧ start.replies = [] ∧
    System.Run (fun _ _ => True) start l.system
  cold : l.system.cluster.Cold node
  quiet : ∀ frame ∈ l.system.inflight,
    frame.works node = [] ∧ frame.completion node = none ∧ frame.call node = none
  registered : l.process = NodeProcess.started l.process.vms.cpuMillis l.process.vms.memoryMib
  idle : l.executions = [] ∧ l.reports = [] ∧ l.errand = .free

theorem Begins.completions_nil (begins : Begins node l) : l.completions node = [] := by
  obtain ⟨-, reports, -⟩ := begins.idle
  rw [completions, reports, List.nil_append, List.filterMap_eq_nil_iff]
  exact fun frame there => (begins.quiet frame there).2.1

theorem Begins.kept (begins : Begins node l) : Kept node l := by
  obtain ⟨start, started, silent, run⟩ := begins.reached
  obtain ⟨executions, -, errand⟩ := begins.idle
  have tasks : l.process.tasks = [] := by
    rw [begins.registered]
    rfl
  have polling : l.process.beat = .polling := by
    rw [begins.registered]
    rfl
  have nothing : l.executions ++ (l.completions node).map Prod.fst = [] := by
    rw [executions, begins.completions_nil]
    rfl
  refine ⟨started.sound.run run, fun id => (started.once silent .dispatch id).run started.sound run,
    by rw [executions, tasks]; rfl, by rw [nothing]; exact List.nodup_nil, ?_, ?_, ?_, ?_, ?_, ?_,
    ?_, ?_⟩
  · intro id member
    rw [nothing] at member
    cases member
  · intro frame there work brings
    rw [(begins.quiet frame there).1] at brings
    cases brings
  · intro job member
    rw [jobs, executions] at member
    cases member
  · intro report member
    rw [begins.completions_nil] at member
    cases member
  · intro task member
    rw [tasks] at member
    cases member
  · intro pool vm rest offering
    cases polling.symm.trans offering
  · rw [errand]
    refine .unserved (List.countP_eq_zero.mpr (fun frame there => ?_)) (fun _ _ same => by cases same)
    simp [(begins.quiet frame there).2.2]
  · intro pending
    rw [errand] at pending
    cases pending

theorem Begins.fair (begins : Begins node l) : Fair node name l := by
  obtain ⟨there, present, idle⟩ := begins.cold
  obtain ⟨-, -, errand⟩ := begins.idle
  have hands : l.atHand name = 0 := by
    rw [atHand, begins.registered, errand]
    rfl
  have counts : l.counted node name = 0 := by
    rw [counted, begins.completions_nil, errand, Cluster.idleOn, present]
    simp [idle name, regained, Errand.agreed]
  exact ⟨by omega, by omega⟩

/-- The loop is not in a pass, so it does not wait for an answer. -/
theorem Kept.resting (kept : Kept node l) (settled : l.process.beat.settled = true) :
    l.errand.pending = false := by
  cases pending : l.errand.pending with
  | false => rfl
  | true =>
    have asks := kept.asking pending
    cases beat : l.process.beat with
    | trimming | offering =>
      rw [beat] at settled
      cases settled
    | _ =>
      rw [beat] at asks
      cases asks

/-- Where the node has no work of the pool and the loop rests, the books are equal. -/
theorem Fair.settled (fair : Fair node name l) (kept : Kept node l) (settled : Settled node name l) :
    l.system.cluster.idleOn node name = namedVms name l.process.vms.idle := by
  obtain ⟨off, rests⟩ := settled
  have nobody (id : Uuid) (execution : Execution)
      (present : l.system.cluster.executions.get id = some execution) :
      execution.isOn node name = false := (Keyed.any_eq_false_iff _ _).mp off id execution present
  have agreed (call : IdleCall) : l.errand.agreed l.system.inflight call = false :=
    Errand.agreed_pending (kept.resting rests) _ call
  have regains : regained l.system.cluster node name (l.completions node) = 0 := by
    refine List.countP_eq_zero.mpr (fun report _ counts => ?_)
    obtain ⟨-, on⟩ := Bool.and_eq_true_iff.mp counts
    obtain ⟨execution, present, on⟩ := (Option.any_eq_true _ _).mp on
    cases (nobody _ _ present).symm.trans on
  have waits : l.waiting node name = 0 := by
    rw [waiting, Cluster.unserved, Keyed.count_eq_total]
    refine Keyed.total_zero (fun id execution present => ?_)
    simp [nobody id execution present]
  have held : l.process.beat.held = [] := by
    cases beat : l.process.beat <;> rw [beat] at rests <;> first | rfl | cases rests
  have hands : l.atHand name = namedVms name l.process.vms.idle := by
    rw [atHand, held, agreed, List.append_nil]
    rfl
  have counts : l.counted node name = l.system.cluster.idleOn node name := by
    rw [counted, regains, agreed]
    rfl
  have below := fair.below
  have above := fair.above
  omega

/-- In every run of a controller and a node that has registered with it, whose steps keep the books in
step, the two agree on the idle machines of the pool wherever no execution of it is on the node and no
pass is under way. -/
theorem idle_machines_agree {start : Liaison} (begins : Begins node start)
    (run : Runs.Reaches (step controller node) (Keeps node name) start l)
    (settled : Settled node name l) :
    l.system.cluster.idleOn node name = namedVms name l.process.vms.idle := by
  obtain ⟨kept, failed | fair⟩ : Kept node l ∧ (l.errand.failed = true ∨ Fair node name l) := by
    refine run.invariant (P := fun l => Kept node l ∧ (l.errand.failed = true ∨ Fair node name l))
      ⟨begins.kept, .inr begins.fair⟩ ?_
    rintro u v label ⟨kept, failed | fair⟩ keeps stepped
    · exact ⟨kept.step stepped, .inl (failed_step failed stepped)⟩
    · exact ⟨kept.step stepped, fair.step kept keeps stepped⟩
  · have rests := kept.resting settled.2
    cases errand : l.errand <;> rw [errand] at failed rests <;> first | cases failed | cases rests
  · exact fair.settled kept settled

end

end Liaison

namespace Demo

/-- An environment whose machines are used again, after the installation. -/
def reusing : List Label :=
  installation ++ [.checkEnvironment none { environmentRequest with reuse := true },
    .enter 0 (input environment)] ++ finish 0 2

/-- The node has just registered. -/
def registered (s : System) : Liaison := ⟨s, NodeProcess.started 4000 4000, [], [], .free⟩

/-- An execution is created, assigned to the node and brought there. -/
def bringing (id : Uuid) (payload : Value) : List LiaisonLabel :=
  (request 0 (.createExecution id ⟨none, some "e", payload, ∅, ∅, true⟩ [] 0) 3 ++
    .authenticate node "credential" none .nextWork :: .enter 0 ⟨0, 0, some id, none⟩ ::
      finish 0 3).map LiaisonLabel.controller

/-- The last event of an execution, whose completion then reaches the controller. -/
def ending (event : NodeEvent) : List LiaisonLabel :=
  [.node event ⟨none, none, none, none, false⟩, .report 0 "credential"] ++
    (Label.enter 0 (input 0) :: finish 0 4).map LiaisonLabel.controller

/-- An execution starts a machine, which stays. -/
def firstRun : List LiaisonLabel :=
  bringing 8 .null ++ [.node (.acquire 0) ⟨none, none, none, none, false⟩,
    .node (.start 0 (some 7) 0) ⟨none, none, none, none, false⟩] ++ ending (.finish 0 true 0)

/-- The next one is to use it, and its working directory does not arrive. -/
def secondRun : List LiaisonLabel :=
  .controller (.uploadWorkingDir WorkingDirs.projectDigest WorkingDirs.projectArchive) ::
    bringing 9 (.object [("working_dir", .string WorkingDirs.projectDigest)]) ++ ending (.abandon 0)

end Demo

namespace Liaison
open WorkingDirs (projectCrates)

/-- The runs that begin with the registered node of the installation. -/
theorem exists_begun (may : Liaison → LiaisonLabel → Prop) [∀ l label, Decidable (may l label)]
    (labels : List LiaisonLabel) (p : Liaison → Bool)
    (done : ((Runs.exec (@System.step projectCrates) (fun _ label => System.restarts label = false ∧ True)
      Demo.empty Demo.reusing).filter (fun s => s.inflight.isEmpty &&
        (s.cluster.nodes.get Demo.node).any (fun there => there.idleInstances.values.isEmpty))).any
          (fun s => (Runs.exec (@step projectCrates loopback Demo.node) may
            (Demo.registered s) labels).any p) = true) :
    ∃ start l, @Begins projectCrates Demo.node start ∧
      Runs.Reaches (@step projectCrates loopback Demo.node) may start l ∧ p l = true := by
  obtain ⟨s, before, later⟩ := (Option.any_eq_true _ _).mp done
  obtain ⟨before, ready⟩ := Option.filter_eq_some_iff.mp before
  obtain ⟨l, performed, holds⟩ := (Option.any_eq_true _ _).mp later
  simp only [Bool.and_eq_true, List.isEmpty_iff, Option.any_eq_true] at ready
  obtain ⟨quiet, there, present, bare⟩ := ready
  refine ⟨Demo.registered s, l, @Begins.mk projectCrates _ _ ⟨Demo.empty, System.fresh_empty.started, rfl,
    Runs.reaches_of_exec _ before⟩ ⟨there, present, fun name => ?_⟩ (fun frame member => ?_) rfl
      ⟨rfl, rfl, rfl⟩, Runs.reaches_of_exec _ performed, holds⟩
  · have absent : there.idleInstances.get name = none := by
      refine Option.eq_none_iff_forall_ne_some.mpr (fun entry found => ?_)
      have member := Keyed.mem_of_get found
      rw [bare] at member
      cases member
    rw [Node.idle, absent]
    rfl
  · rw [show (Demo.registered s).system.inflight = s.inflight from rfl, quiet] at member
    cases member

/-- A machine that stays is counted on both sides. -/
theorem idle_machines_agree_warm :
    ∃ l : Liaison, l.system.cluster.idleOn Demo.node Demo.pool = 1 ∧
      namedVms Demo.pool l.process.vms.idle = 1 := by
  obtain ⟨start, l, begins, run, warm⟩ := exists_begun
    (@Keeps projectCrates Demo.node Demo.pool) Demo.firstRun
    (fun l => decide (Settled Demo.node Demo.pool l) &&
      decide (l.system.cluster.idleOn Demo.node Demo.pool = 1)) (by decide +kernel)
  simp only [Bool.and_eq_true, decide_eq_true_eq] at warm
  have agree := @idle_machines_agree Demo.node Demo.pool _ projectCrates _ _ begins run warm.1
  exact ⟨l, warm.2, agree ▸ warm.2⟩

/-- A machine that was to be used stays idle, and the controller has given it up. -/
theorem idle_machine_forgotten :
    ¬ ∀ [Crates] (controller : Origin) (node : Uuid) (name : String) (start l : Liaison),
      Begins node start → Runs.Reaches (step controller node) (fun _ _ => True) start l →
      Settled node name l → l.system.inflight = [] → l.reports = [] → l.errand = .free →
      l.system.cluster.idleOn node name = namedVms name l.process.vms.idle := by
  intro claim
  obtain ⟨start, l, begins, run, lost⟩ := exists_begun (fun _ _ => True)
    (Demo.firstRun ++ Demo.secondRun)
    (fun l => decide (Settled Demo.node Demo.pool l) && l.system.inflight.isEmpty &&
      l.reports.isEmpty && l.errand.rests &&
      decide (l.system.cluster.idleOn Demo.node Demo.pool ≠
        namedVms Demo.pool l.process.vms.idle)) (by decide +kernel)
  simp only [Bool.and_eq_true, List.isEmpty_iff, decide_eq_true_eq] at lost
  obtain ⟨⟨⟨⟨settled, quiet⟩, silent⟩, free⟩, differ⟩ := lost
  have idle : l.errand = .free := by
    cases errand : l.errand <;> rw [errand] at free <;> first | rfl | cases free
  exact differ (@claim projectCrates _ _ _ _ _ begins run settled quiet silent idle)

end Liaison
end Scraperack
