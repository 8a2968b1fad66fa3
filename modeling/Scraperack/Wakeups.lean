import Scraperack.Durability
import Scraperack.Registry

/-! Waiting for work and for results. `next_work` and `wait_execution` take a place among those
that are to be notified, look once and sleep until somebody notifies them or their time is over.
The handlers that assign or complete executions notify everybody at their end. -/

namespace Scraperack

/-- What a request waits for: work for a node, or the end of an execution. -/
inductive Awaited where
  | work (node : Uuid)
  | outcome (execution : Uuid)
  deriving DecidableEq

/-- It looks under the cluster lock; for results it reads the database alone. -/
def Awaited.locks : Awaited → Bool
  | .work _ => true
  | .outcome _ => false

/-- What a request that looks now would return with. -/
def System.ready (s : System) : Awaited → Bool
  | .work node => s.cluster.executions.any (assignedTo node)
  | .outcome id => (s.database.rows.get id).any (fun row => row.status.terminal)

/-- A request in `next_work` or `wait_execution`. Its place among the waiters is taken before it
looks; `notified` tells whether a notification has come since. -/
structure Waiter where
  awaited : Awaited
  asleep : Bool
  notified : Bool
  deriving DecidableEq

/-- The handler calls `app.work.notify_waiters()` before it answers with success. Those of
`create_execution` and `complete_execution`, which do as well, are known by their replies. -/
def Commit.notifies (c : Cluster) : Commit → Bool
  | .updateEnvironment .. | .restartEnvironment .. | .deleteNode _ | .registerNode ..
  | .imageReady .. | .environmentReady .. => true
  | .addWarmInstance id pool => (c.addWarmInstance id pool).isSome
  | .removeIdleInstance id pool => (c.removeIdleInstance id pool).isSome
  | _ => false

/-- A handler that ends with the reply calls `app.work.notify_waiters()`; `noted` tells whether its
section is one that notifies. -/
def Reply.notifies (noted : Bool) : Reply → Bool
  | .accepted _ | .completed _ _ => true
  | .refused _ | .panicked => false
  | _ => noted

/-- Such a handler wakes those who wait for this. -/
def Reply.wakes (noted : Bool) (reply : Reply) : Awaited → Bool
  | .work _ => reply.notifies noted
  | .outcome _ =>
    match reply with
    | .completed _ _ => true
    | _ => false

/-- The controller and the requests that wait in it. -/
structure Hall where
  system : System
  /-- For each handler in flight whether its section is one that notifies. -/
  noted : List Bool
  waiters : List Waiter

inductive HallLabel where
  | step (label : Label)
  /-- A request takes its place among the waiters. -/
  | listen (awaited : Awaited)
  /-- It looks, and returns or falls asleep. -/
  | look (index : Nat)
  /-- It has been notified and starts again. -/
  | again (index : Nat)
  /-- Its time is over, or it fails, or its connection is closed. -/
  | leave (index : Nat)

namespace Hall

/-- The flags of the handlers after a step of the controller. -/
def notedAfter (h : Hall) (label : Label) (next : System) : List Bool :=
  let flag := (h.system.entering label).any (Commit.notifies h.system.cluster)
  let joined := fun (kept : List Bool) =>
    kept ++ List.replicate (next.inflight.length - kept.length) flag
  match label with
  | .restart .. => []
  | .enter index _ => joined (h.noted.eraseIdx index)
  | .prepare index _ | .op index _ =>
    if next.inflight.length < h.system.inflight.length then h.noted.eraseIdx index else h.noted
  | _ => joined h.noted

/-- The waiters after a step: a handler that ends notifies, and a restart closes all connections. -/
def waitersAfter (h : Hall) : Label → List Waiter
  | .restart .. => []
  | .op index _ =>
    match h.system.inflight[index]? with
    | some (.running [] reply) =>
      h.waiters.map (fun waiter => { waiter with
        notified := waiter.notified || reply.wakes ((h.noted[index]?).getD false) waiter.awaited })
    | _ => h.waiters
  | _ => h.waiters

/-- What a request finds that it does not know: the node, or the row of the execution. -/
def unknown (s : System) : Awaited → Bool
  | .work node => !s.cluster.nodes.contains node
  | .outcome id => !s.database.rows.contains id

variable [Crates]

def step (h : Hall) : HallLabel → Option Hall
  | .step label => (h.system.step label).map (fun next =>
      ⟨next, h.notedAfter label next, h.waitersAfter label⟩)
  | .listen awaited => some { h with waiters := h.waiters ++ [⟨awaited, false, false⟩] }
  | .look index =>
    match h.waiters[index]? with
    | some ⟨awaited, false, notified⟩ =>
      -- What `next_work` takes here is a section of its own.
      if awaited.locks && h.system.locked then none
      else if unknown h.system awaited || h.system.ready awaited then
        some { h with waiters := h.waiters.eraseIdx index }
      else some { h with waiters := h.waiters.set index ⟨awaited, true, notified⟩ }
    | _ => none
  | .again index =>
    match h.waiters[index]? with
    | some ⟨awaited, true, true⟩ =>
      some { h with waiters := h.waiters.set index ⟨awaited, false, false⟩ }
    | _ => none
  | .leave index => some { h with waiters := h.waiters.eraseIdx index }

end Hall

/-! Who assigns executions. -/

/-- The handler of a frame will notify those who wait for this, if it comes to its end. -/
def Frame.wakes (noted : Bool) (awaited : Awaited) : Frame → Bool
  | .running ops reply =>
    (match awaited with
      | .work _ => ops.all (fun op => !op.inserts)
      | .outcome _ => ops.isEmpty) && reply.wakes noted awaited
  | _ => false

theorem assigned_moved {c : Cluster} {name pool : String} {node : Uuid}
    (assigned : (moved name pool c).executions.any (assignedTo node) = true) :
    c.executions.any (assignedTo node) = true := by
  obtain ⟨id, execution, present, there⟩ := (Keyed.any_iff _ _).mp assigned
  rw [moved_get] at present
  split_ifs at present
  · obtain ⟨before, -, rfl⟩ := Option.map_eq_some_iff.mp present
    simp [assignedTo, Execution.requeued] at there
  · exact (Keyed.any_iff _ _).mpr ⟨id, execution, present, there⟩

theorem assigned_start {c : Cluster} {id node : Uuid} {now : Nat}
    (assigned : (c.start id now).executions.any (assignedTo node) = true) :
    c.executions.any (assignedTo node) = true := by
  obtain ⟨k, execution, present, there⟩ := (Keyed.any_iff _ _).mp assigned
  simp only [Cluster.start, Keyed.get_adjust] at present
  split_ifs at present
  · obtain ⟨before, -, rfl⟩ := Option.map_eq_some_iff.mp present
    simp [assignedTo] at there
  · exact (Keyed.any_iff _ _).mpr ⟨k, execution, present, there⟩

section
variable [Crates] {c : Cluster} {commit : Commit} {result : Section}

/-- A section that may have assigned an execution is one whose handler notifies at its end. -/
theorem assigned_of_run (ran : commit.run c = .ok result) {node : Uuid}
    (assigned : result.cluster.executions.any (assignedTo node) = true) :
    c.executions.any (assignedTo node) = true ∨
      (Frame.running result.ops result.reply).wakes (commit.notifies c) (.work node) = true := by
  have untouched (same : result.cluster.executions = c.executions) :
      c.executions.any (assignedTo node) = true := by rwa [← same]
  have settled {fresh : Uuid} {environment : Environment}
      (same : result = settle (restartEnvironmentPool fresh environment c))
      (notifies : commit.notifies c = true) : c.executions.any (assignedTo node) = true ∨
        (Frame.running result.ops result.reply).wakes (commit.notifies c) (.work node) = true := by
    subst same
    rw [notifies]
    have pools := restartEnvironmentPool_cases fresh environment c
    unfold settle at assigned ⊢
    split_ifs at assigned ⊢ with panicked
    · rcases pools with ⟨_, -, -, same⟩ | ⟨-, -, same⟩ | ⟨-, same⟩
      · rw [same] at panicked
        cases panicked
      · rw [same] at assigned
        exact .inl (assigned_moved assigned)
      · rw [same] at panicked
        cases panicked
    · exact .inr rfl
  cases commit with
  | importImage | createEnvironment | createJoinToken | localJoin =>
    obtain rfl := Except.ok.inj ran
    exact .inl (untouched rfl)
  | updateImage =>
    obtain ⟨_, -, rfl⟩ := updateImage_eq_ok ran
    exact .inl (untouched rfl)
  | deleteImage =>
    obtain ⟨-, -, rfl⟩ := deleteImage_eq_ok ran
    exact .inl (untouched rfl)
  | createPool =>
    obtain ⟨-, -, -, rfl⟩ := createPool_eq_ok ran
    exact .inl (untouched rfl)
  | deletePool =>
    obtain ⟨-, rfl⟩ := deletePool_eq_ok ran
    exact .inl (untouched (Cluster.removePool_executions ..))
  | updateEnvironment fresh key request old image artifact =>
    have same := Except.ok.inj ran
    rw [updateEnvironment_eq] at same
    split_ifs at same
    · exact settled same.symm rfl
    · exact .inr (same ▸ rfl)
  | restartEnvironment =>
    obtain ⟨_, -, same⟩ := restartEnvironment_eq_ok ran
    exact settled same rfl
  | deleteEnvironment =>
    obtain ⟨environment, -, -, rfl⟩ := deleteEnvironment_eq_ok ran
    have forgotten (d : Cluster) (artifact : Option String) :
        (forgetArtifact d artifact).executions = d.executions := by cases artifact <;> rfl
    exact .inl (untouched (by simp [forgotten, withoutEnvironment]))
  | joinCluster =>
    obtain ⟨_, -, rfl⟩ := joinCluster_eq_ok ran
    exact .inl (untouched rfl)
  | updateNode =>
    obtain ⟨_, -, rfl⟩ := updateNode_eq_ok ran
    exact .inl (untouched rfl)
  | deleteNode =>
    obtain ⟨-, rfl⟩ := deleteNode_eq_ok ran
    exact .inr rfl
  | registerNode key request now =>
    obtain rfl := Except.ok.inj ran
    have stays : (registerNode key request now c).cluster.nodes.contains key = true := by
      have same := congrArg Registry.nodes (Cluster.registry_registered key request now c)
      refine (congrFun same key).trans ?_
      simp [Cluster.registry, Keyed.contains_insert, Cluster.registration_id]
    obtain ⟨node, there⟩ := (Keyed.contains_iff _ _).mp stays
    have answers : (registerNode key request now c).reply = .node node := by
      change (((registerNode key request now c).cluster.nodes.get key).map Reply.node).getD _ = _
      rw [there]
      rfl
    rw [answers]
    exact .inr rfl
  | imageReady =>
    obtain rfl := imageReady_eq_ok ran
    exact .inr rfl
  | environmentReady =>
    obtain rfl := environmentReady_eq_ok ran
    exact .inr rfl
  | addWarmInstance key pool =>
    obtain rfl := Except.ok.inj ran
    cases added : c.addWarmInstance key pool with
    | none => exact .inl (untouched (by simp [addWarmInstance, scheduleIfChanged, added]))
    | some next =>
      refine .inr ?_
      simp [addWarmInstance, scheduleIfChanged, scheduleAndSave, added, Frame.wakes, Op.inserts,
        Reply.wakes, Reply.notifies, Commit.notifies]
  | removeIdleInstance key pool =>
    obtain rfl := Except.ok.inj ran
    cases removed : c.removeIdleInstance key pool with
    | none => exact .inl (untouched (by simp [removeIdleInstance, scheduleIfChanged, removed]))
    | some next =>
      refine .inr ?_
      simp [removeIdleInstance, scheduleIfChanged, scheduleAndSave, removed, Frame.wakes,
        Op.inserts, Reply.wakes, Reply.notifies, Commit.notifies]
  | createExecution =>
    rcases createExecution_eq_ok ran with rfl | ⟨_, _, _, -, -, rfl⟩
    · exact .inl (untouched rfl)
    · exact .inl (untouched rfl)
  | nextWork =>
    rcases nextWork_eq_ok ran with rfl | ⟨_, -, -, ⟨-, rfl⟩ | ⟨_, -, rfl⟩⟩
    · exact .inl (untouched rfl)
    · exact .inl (assigned_start assigned)
    · exact .inl (assigned_start assigned)
  | completeExecution =>
    obtain ⟨_, -, -, rfl⟩ := completeExecution_eq_ok ran
    exact .inr rfl

end
namespace Hall

/-- Some handler in flight will notify those who wait for this. -/
def Covered (h : Hall) (awaited : Awaited) : Prop :=
  ∃ (index : Nat) (frame : Frame), h.system.inflight[index]? = some frame ∧
    frame.wakes ((h.noted[index]?).getD false) awaited = true

/-- The handler in flight at whose place the step takes place. -/
def at? : Label → Option Nat
  | .enter index _ | .prepare index _ | .op index _ => some index
  | _ => none

theorem getElem?_eraseIdx_of_ne {α : Type} (l : List α) {i j : Nat} (other : i ≠ j) :
    (l.eraseIdx j)[if i < j then i else i - 1]? = l[i]? := by
  by_cases before : i < j
  · rw [if_pos before, List.getElem?_eraseIdx_of_lt before]
  · rw [if_neg before, List.getElem?_eraseIdx_of_ge (by omega)]
    congr 1
    omega

theorem getElem?_append_of_some {α : Type} {l : List α} {i : Nat} {a : α} (there : l[i]? = some a)
    (more : List α) : (l ++ more)[i]? = some a := by
  rw [List.getElem?_append_left (List.getElem?_eq_some_iff.mp there).1, there]

variable [Crates] {h : Hall} {label : Label} {next : System}

/-- There is a flag for each handler in flight. -/
theorem aligned_after (aligned : h.noted.length = h.system.inflight.length)
    (stepped : h.system.step label = some next) :
    (h.notedAfter label next).length = next.inflight.length := by
  have shifts := System.step_shifts stepped
  have erased (index : Nat) : (h.noted.eraseIdx index).length =
      (h.system.inflight.eraseIdx index).length := by
    rw [List.length_eraseIdx, List.length_eraseIdx, aligned]
  cases label with
  | client | authenticate | checkEnvironment | checkImport =>
    rcases shifts with same | ⟨frame, same⟩ <;> simp [notedAfter, same, aligned]
  | enter index input =>
    rcases shifts.2 with same | ⟨frame, same⟩ <;> simp [notedAfter, same, erased]
  | prepare index event =>
    obtain ⟨⟨job, there⟩, same | ⟨job', same⟩⟩ := shifts
    · have inside := (List.getElem?_eq_some_iff.mp there).1
      have fewer : next.inflight.length < h.system.inflight.length := by
        rw [same, List.length_eraseIdx_of_lt inside]
        omega
      rw [notedAfter]
      simp only [if_pos fewer]
      rw [same, erased]
    · simp [notedAfter, same, aligned]
  | op index succeeds =>
    obtain ⟨⟨ops, reply, there⟩, same | ⟨ops', reply', same⟩⟩ := shifts
    · have inside := (List.getElem?_eq_some_iff.mp there).1
      have fewer : next.inflight.length < h.system.inflight.length := by
        rw [same, List.length_eraseIdx_of_lt inside]
        omega
      rw [notedAfter]
      simp only [if_pos fewer]
      rw [same, erased]
    · simp [notedAfter, same, aligned]
  | restart =>
    have quiet : next.inflight = [] := shifts
    simp [notedAfter, quiet]
  | uploadWorkingDir | prune | updateSettings =>
    have same : next.inflight = h.system.inflight := shifts
    simp [notedAfter, same, aligned]

/-- The other handlers stay where they are or move up, and their flags with them. -/
theorem shifted (aligned : h.noted.length = h.system.inflight.length)
    (stepped : h.system.step label = some next) (same : System.restarts label = false)
    {index : Nat} {frame : Frame} (there : h.system.inflight[index]? = some frame)
    (other : at? label ≠ some index) :
    ∃ place : Nat, next.inflight[place]? = some frame ∧
      (h.notedAfter label next)[place]? = h.noted[index]? := by
  have shifts := System.step_shifts stepped
  have inside := (List.getElem?_eq_some_iff.mp there).1
  have flagged (more : List Bool) : (h.noted ++ more)[index]? = h.noted[index]? :=
    List.getElem?_append_left (aligned ▸ inside)
  obtain ⟨noted, flag⟩ : ∃ noted, h.noted[index]? = some noted :=
    ⟨_, List.getElem?_eq_getElem (aligned ▸ inside)⟩
  -- Behind a handler that leaves everybody moves up by one place.
  have left {position : Nat} (apart : index ≠ position) (frames : List Frame) (flags : List Bool) :
      ∃ place : Nat, (h.system.inflight.eraseIdx position ++ frames)[place]? = some frame ∧
        (h.noted.eraseIdx position ++ flags)[place]? = h.noted[index]? := by
    refine ⟨if index < position then index else index - 1, ?_, ?_⟩
    · exact getElem?_append_of_some ((getElem?_eraseIdx_of_ne _ apart).trans there) _
    · rw [flag]
      exact getElem?_append_of_some ((getElem?_eraseIdx_of_ne _ apart).trans flag) _
  have dropped {position : Nat} (apart : index ≠ position) {found : Frame}
      (member : h.system.inflight[position]? = some found)
      (same : next.inflight = h.system.inflight.eraseIdx position) :
      ∃ place : Nat, next.inflight[place]? = some frame ∧
        (if next.inflight.length < h.system.inflight.length then h.noted.eraseIdx position
          else h.noted)[place]? = h.noted[index]? := by
    have fewer : next.inflight.length < h.system.inflight.length := by
      have present := (List.getElem?_eq_some_iff.mp member).1
      rw [same, List.length_eraseIdx_of_lt present]
      omega
    rw [if_pos fewer, same]
    simpa using left apart [] []
  cases label with
  | client | authenticate | checkEnvironment | checkImport =>
    refine ⟨index, ?_, flagged _⟩
    rcases shifts with same | ⟨frame, same⟩ <;> rw [same]
    · exact there
    · exact getElem?_append_of_some there _
  | enter position input =>
    have apart : index ≠ position := fun equal => other (equal ▸ rfl)
    rcases shifts.2 with same | ⟨frame, same⟩ <;> rw [same]
    · have kept := left apart []
      rw [List.append_nil] at kept
      exact kept _
    · exact left apart [frame] _
  | prepare position event =>
    have apart : index ≠ position := fun equal => other (equal ▸ rfl)
    obtain ⟨⟨job, found⟩, same | ⟨job', same⟩⟩ := shifts
    · exact dropped apart found same
    · refine ⟨index, ?_, by simp [notedAfter, same]⟩
      rw [same, List.getElem?_set_ne (Ne.symm apart), there]
  | op position succeeds =>
    have apart : index ≠ position := fun equal => other (equal ▸ rfl)
    obtain ⟨⟨ops, reply, found⟩, same | ⟨ops', reply', same⟩⟩ := shifts
    · exact dropped apart found same
    · refine ⟨index, ?_, by simp [notedAfter, same]⟩
      rw [same, List.getElem?_set_ne (Ne.symm apart), there]
  | restart => cases same
  | uploadWorkingDir | prune | updateSettings =>
    have same : next.inflight = h.system.inflight := shifts
    exact ⟨index, same ▸ there, flagged _⟩

/-- A handler that will notify is still there after a step of another one. -/
theorem Covered.shifted {awaited : Awaited} (covered : h.Covered awaited)
    (aligned : h.noted.length = h.system.inflight.length)
    (stepped : h.system.step label = some next) (same : System.restarts label = false) :
    Covered ⟨next, h.notedAfter label next, h.waitersAfter label⟩ awaited ∨
      ∃ (index : Nat) (frame : Frame), at? label = some index ∧
        h.system.inflight[index]? = some frame ∧
        frame.wakes ((h.noted[index]?).getD false) awaited = true := by
  obtain ⟨index, frame, there, wakes⟩ := covered
  by_cases own : at? label = some index
  · exact .inr ⟨index, frame, own, there, wakes⟩
  · obtain ⟨place, stays, flag⟩ := Hall.shifted aligned stepped same there own
    exact .inl ⟨place, frame, stays, by rw [flag]; exact wakes⟩

omit [Crates] in
theorem running_of_wakes {frame : Frame} {noted : Bool} {awaited : Awaited}
    (wakes : frame.wakes noted awaited = true) : ∃ ops reply, frame = .running ops reply := by
  cases frame with
  | running ops reply => exact ⟨ops, reply, rfl⟩
  | _ => cases wakes

/-- A step that is no call of a handler leaves those alone that will notify. -/
theorem Covered.kept {awaited : Awaited} (covered : h.Covered awaited)
    (aligned : h.noted.length = h.system.inflight.length)
    (stepped : h.system.step label = some next) (same : System.restarts label = false)
    (other : ∀ index succeeds, label ≠ .op index succeeds) :
    Covered ⟨next, h.notedAfter label next, h.waitersAfter label⟩ awaited := by
  rcases covered.shifted aligned stepped same with kept | ⟨index, frame, own, there, wakes⟩
  · exact kept
  · obtain ⟨ops, reply, rfl⟩ := running_of_wakes wakes
    have shifts := System.step_shifts stepped
    cases label with
    | enter position input =>
      obtain rfl := Option.some.inj own
      obtain ⟨⟨found, here, waits⟩, -⟩ := shifts
      exact absurd (Option.some.inj (here.symm.trans there)) (waits ops reply)
    | prepare position event =>
      obtain rfl := Option.some.inj own
      obtain ⟨⟨job, here⟩, -⟩ := shifts
      cases here.symm.trans there
    | op position succeeds => exact absurd rfl (other position succeeds)
    | _ => cases own

/-- A section that assigns an execution brings in a handler that will notify. -/
theorem covered_performed {node : Uuid} (aligned : h.noted.length = h.system.inflight.length)
    (stepped : h.system.step label = some next) (same : System.restarts label = false)
    (other : ∀ index succeeds, label ≠ .op index succeeds)
    (ready : next.ready (.work node) = true) :
    h.system.ready (.work node) = true ∨
      Covered ⟨next, h.notedAfter label next, h.waitersAfter label⟩ (.work node) := by
  cases System.step_cases stepped with
  | performed _ commit others result free allowed entered ran =>
    refine (assigned_of_run ran ready).imp_right (fun wakes => ?_)
    have section_ := entered.entering
    refine ⟨others.length, _, List.getElem?_concat_length .., ?_⟩
    have flag : (h.notedAfter label { h.system with
        cluster := result.cluster
        inflight := others ++ [.running result.ops result.reply]
        issued := commit.issues ++ h.system.issued })[others.length]? =
          some (commit.notifies h.system.cluster) := by
      cases entered with
      | client =>
        simp [notedAfter, section_, ← aligned]
      | handler index input frame _ there ready' =>
        have erased : (h.noted.eraseIdx index).length =
            (h.system.inflight.eraseIdx index).length := by
          rw [List.length_eraseIdx, List.length_eraseIdx, aligned]
        simp [notedAfter, section_, ← erased]
    rw [flag]
    exact wakes
  | called | admitted | rejected | failed | ignored | answered => exact absurd rfl (other _ _)
  | restarted => cases same
  | _ => exact .inl ready

end Hall

namespace System

/-- The copies that are still to be saved are of executions that are not over, a handler that
completes an execution does so last and says so, and one that hands out work has nothing to say
before. -/
structure Closing (s : System) : Prop where
  copies : ∀ ops reply op copy, Frame.running ops reply ∈ s.inflight → op ∈ ops →
    copy ∈ op.copies → copy.status.terminal = false
  last : ∀ ops reply execution, Frame.running ops reply ∈ s.inflight →
    Op.completeExecution execution ∈ ops → ∃ copies node,
      ops <:+ [.saveCluster, .unlock, .saveExecutions copies, .completeExecution execution] ∧
        reply = .completed node execution.id
  work : ∀ ops reply node execution pool, Frame.running ops reply ∈ s.inflight →
    Op.deliver node execution pool ∈ ops →
      ops <:+ [.unlock, .saveExecution execution, .deliver node execution pool] ∧
        reply = .refused internalError

variable [Crates] {s t : System} {label : Label}

theorem Closing.step (closing : s.Closing) (sound : Sound s) (stepped : s.step label = some t) :
    t.Closing := by
  have active {c : Cluster} (orderly : Orderly c) {copy : Execution}
      (held : c.executions.get copy.id = some copy) : copy.status.terminal = false := by
    simpa using orderly.active _ copy held
  refine ⟨fun ops reply op copy member inside copied => ?_,
    fun ops reply execution member inside => ?_, fun ops reply node execution pool member inside =>
      ?_⟩
  · cases frame_cases stepped member with
    | stayed _ before => exact closing.copies ops reply op copy before inside copied
    | performed commit others result free allowed entered ran =>
      have moves := Commit.moves ran sound.orderly (fits_of_allows allowed)
        (fresh_of_allows allowed)
      exact active (moves.invariant sound.orderly (fun before allowed _ _ => before.move allowed))
        ((Commit.ending ran).copies inside copied)
    | called called rest before after next earlier done =>
      exact closing.copies _ before op copy earlier (List.mem_cons_of_mem _ inside) copied
    | admitted execution secrets queue rest before earlier =>
      have allowed := (sound.pending _ _ execution secrets queue earlier List.mem_cons_self).2.1
      have moves := admitExecution_moves queue allowed
      exact active (moves.invariant sound.orderly (fun before allowed _ _ => before.move allowed))
        (admitExecution_copies inside copied)
    | rejected => cases inside
    | ignored artifact rest _ earlier =>
      exact closing.copies _ _ op copy earlier (List.mem_cons_of_mem _ inside) copied
  · have shorter {op : Op} {rest : List Op} {before : Reply}
        (earlier : Frame.running (op :: rest) before ∈ s.inflight)
        (inside : Op.completeExecution execution ∈ rest) : ∃ copies node,
          op ∈ [.saveCluster, .unlock, .saveExecutions copies, .completeExecution execution] ∧
          rest <:+ [.saveCluster, .unlock, .saveExecutions copies, .completeExecution execution] ∧
            before = .completed node execution.id := by
      obtain ⟨copies, node, suffix, same⟩ :=
        closing.last _ before execution earlier (List.mem_cons_of_mem _ inside)
      exact ⟨copies, node, suffix.subset List.mem_cons_self,
        (List.suffix_cons op rest).trans suffix, same⟩
    cases frame_cases stepped member with
    | stayed _ before => exact closing.last ops reply execution before inside
    | performed commit others result free allowed entered ran =>
      cases Commit.ending ran with
      | saved _ ops => simp [ops] at inside
      | scheduled | unchanged | restartPanicked | restarted | updated | createPanicked |
        workPanicked | worked | created =>
        simp [scheduleAndSave, finishEnvironment, panicSection] at inside
      | deletedEnvironment => simp at inside
      | completed node request now before present placed =>
        simp only [List.mem_cons, reduceCtorEq, Op.completeExecution.injEq, List.not_mem_nil,
          or_false, false_or] at inside
        exact ⟨_, node, by rw [inside], by rw [inside]; rfl⟩
    | called called rest before after next earlier done =>
      obtain ⟨copies, node, listed, suffix, same⟩ := shorter earlier inside
      refine ⟨copies, node, suffix, ?_⟩
      cases called with
      | deliver | insertExecution => simp at listed
      | completeExecution =>
        simp only [runOp, Option.map_eq_some_iff, Prod.mk.injEq] at done
        obtain ⟨_, -, -, -, rfl⟩ := done
        exact same
      | _ =>
        simp only [runOp, Option.some.injEq, Prod.mk.injEq] at done
        obtain ⟨-, -, rfl⟩ := done
        exact same
    | admitted created secrets queue rest before earlier =>
      rcases admitExecution_ops created queue s.cluster with ⟨copy, only⟩ | only <;>
        simp [only] at inside
    | rejected => cases inside
    | ignored artifact rest _ earlier =>
      obtain ⟨copies, node, -, suffix, same⟩ := shorter earlier inside
      exact ⟨copies, node, suffix, same⟩
  · cases frame_cases stepped member with
    | stayed _ before => exact closing.work ops reply node execution pool before inside
    | performed commit others result free allowed entered ran =>
      cases Commit.ending ran with
      | saved _ ops => simp [ops] at inside
      | scheduled | unchanged | restartPanicked | restarted | updated | createPanicked |
        workPanicked | completed | created =>
        simp [scheduleAndSave, finishEnvironment, panicSection] at inside
      | deletedEnvironment => simp at inside
      | worked taker now before known present =>
        simp only [List.mem_cons, reduceCtorEq, Op.deliver.injEq, List.not_mem_nil, or_false,
          false_or] at inside
        obtain ⟨rfl, rfl, rfl⟩ := inside
        exact ⟨List.suffix_refl _, rfl⟩
    | called called rest before after next earlier done =>
      obtain ⟨suffix, same⟩ := closing.work _ before node execution pool earlier
        (List.mem_cons_of_mem _ inside)
      have listed := suffix.subset List.mem_cons_self
      refine ⟨(List.suffix_cons _ _).trans suffix, ?_⟩
      cases called with
      | deliver => simp [List.suffix_cons_iff] at suffix; simp [suffix] at inside
      | insertExecution | completeExecution => simp at listed
      | _ =>
        simp only [runOp, Option.some.injEq, Prod.mk.injEq] at done
        obtain ⟨-, -, rfl⟩ := done
        exact same
    | admitted created secrets queue rest before earlier =>
      rcases admitExecution_ops created queue s.cluster with ⟨copy, only⟩ | only <;>
        simp [only] at inside
    | rejected => cases inside
    | ignored artifact rest _ earlier =>
      have listed := (closing.work _ _ node execution pool earlier
        (List.mem_cons_of_mem _ inside)).1.subset List.mem_cons_self
      simp at listed

end System

namespace Hall
variable [Crates] {h : Hall} {next : System} {index : Nat} {succeeds : Bool}

/-- The row of an execution is over no sooner than the handler is at its end that completes it. -/
theorem outcome_covered (closing : h.system.Closing) (sound : System.Sound h.system)
    (stepped : h.system.step (.op index succeeds) = some next) {id : Uuid}
    (ready : next.ready (.outcome id) = true) :
    h.system.ready (.outcome id) = true ∨ Covered ⟨next, h.notedAfter (.op index succeeds) next,
      h.waitersAfter (.op index succeeds)⟩ (.outcome id) := by
  have before {rows : Keyed Row.id} (kept : Kept h.system.database.rows rows id)
      (ready : (rows.get id).any (fun row => row.status.terminal) = true) :
      h.system.ready (.outcome id) = true := by
    rcases kept with same | ⟨gone, -⟩
    · rwa [System.ready, ← same]
    · rw [gone] at ready
      cases ready
  have waits {rows : Keyed Row.id} {row : Row} {execution : Execution}
      (found : rows.get id = some row) (records : row.Records execution)
      (active : execution.status.terminal = false)
      (ready : (rows.get id).any (fun row => row.status.terminal) = true) : False := by
    simp [found, records.status, active] at ready
  cases System.op_cases stepped with
  | called op rest earlier after made there plain done =>
    have present := List.mem_of_getElem? there
    have inside := (List.getElem?_eq_some_iff.mp there).1
    by_cases other : op.writes.filter (fun execution => execution.id = id) = []
    · rcases System.runOp_kept plain done other with kept | ⟨rfl, gone⟩
      · exact .inl (before kept ready)
      · rw [System.ready] at ready
        simp only [gone] at ready
        cases ready
    · cases op with
      | completeExecution execution =>
        obtain ⟨copies, node, suffix, same⟩ := closing.last _ _ execution present
          List.mem_cons_self
        have ends : rest = [] := by simpa [List.suffix_cons_iff] using suffix
        subst ends
        simp only [System.runOp, Option.map_eq_some_iff, Prod.mk.injEq] at done
        obtain ⟨_, -, rfl, -, rfl⟩ := done
        refine .inr ⟨index, .running [] earlier, List.getElem?_set_self inside, ?_⟩
        simp [Frame.wakes, same, Reply.wakes]
      | _ =>
        obtain ⟨row, found, records⟩ := System.runOp_records done
          (List.getLast?_eq_some_getLast other)
        have member := List.mem_filter.mp (List.getLast_mem other)
        exact (waits found records
          (closing.copies _ _ _ _ present List.mem_cons_self member.1) ready).elim
  | admitted execution secrets queue rest earlier database there stored =>
    obtain ⟨others, -, own⟩ := insertExecution_get stored
    by_cases same : id = execution.id
    · subst same
      obtain ⟨-, queued, -⟩ := (sound.inserting ⟨secrets, queue, rest, earlier, there⟩).1
      obtain ⟨row, found, records⟩ := own rfl (by rw [queued]; rfl)
      exact (waits found records (by rw [queued]; rfl) ready).elim
    · exact .inl (before (others id same) ready)
  | rejected execution secrets queue rest earlier database there stored error =>
    obtain ⟨others, gone, -⟩ := insertExecution_get stored
    by_cases same : id = execution.id
    · subst same
      rw [System.ready] at ready
      simp only [gone rfl] at ready
      cases ready
    · exact .inl (before (others id same) ready)
  | _ => exact .inl ready

end Hall

namespace Hall
variable [Crates] {h : Hall} {next : System} {index : Nat} {succeeds : Bool}

omit [Crates] in
/-- An execution that is assigned on its admission is answered for by its own handler. -/
theorem assigned_admitted {c : Cluster} {execution : Execution} {queue : Bool} {node : Uuid}
    (absent : c.executions.get execution.id = none)
    (assigned : (admitExecution execution queue c).cluster.executions.any (assignedTo node) =
      true) :
    c.executions.any (assignedTo node) = true ∨ ∀ noted,
      (Frame.running (admitExecution execution queue c).ops
        (admitExecution execution queue c).reply).wakes noted (.work node) = true := by
  unfold admitExecution at assigned ⊢
  dsimp only at assigned ⊢
  split at assigned
  · exact .inr (fun _ => rfl)
  · split_ifs at assigned ⊢
    · exact .inr (fun _ => rfl)
    · have same : (c.executions.insert execution).erase execution.id = c.executions :=
        Keyed.erase_insert_absent absent
      exact .inl (same ▸ assigned)

theorem work_covered (sound : System.Sound h.system)
    (stepped : h.system.step (.op index succeeds) = some next) {node : Uuid}
    (ready : next.ready (.work node) = true) :
    h.system.ready (.work node) = true ∨ Covered ⟨next, h.notedAfter (.op index succeeds) next,
      h.waitersAfter (.op index succeeds)⟩ (.work node) := by
  cases System.op_cases stepped with
  | called op rest earlier after made there plain done =>
    rw [System.ready] at ready ⊢
    have same : made.cluster = h.system.cluster := (System.runOp_frame plain done).1
    exact .inl (same ▸ ready)
  | admitted execution secrets queue rest earlier database there stored =>
    obtain ⟨absent, -⟩ := (sound.inserting ⟨secrets, queue, rest, earlier, there⟩).1
    refine (assigned_admitted absent ready).imp_right (fun wakes => ?_)
    exact ⟨index, _, List.getElem?_set_self (List.getElem?_eq_some_iff.mp there).1, wakes _⟩
  | _ => exact .inl ready

/-- No call fails of a handler that will notify at its end. -/
def reliable (h : Hall) : HallLabel → Bool
  | .step (.op index succeeds) =>
    match h.system.inflight[index]? with
    | some (.running (op :: rest) reply) =>
      !reply.notifies ((h.noted[index]?).getD false) ||
        succeeds && (h.system.runOp rest reply op).isSome
    | _ => true
  | _ => true

/-- Whoever sleeps without having been notified would find nothing if he looked, or somebody is
there who will notify him. -/
def Alert (h : Hall) (awaited : Awaited) : Prop :=
  ∀ waiter ∈ h.waiters, waiter.awaited = awaited → waiter.asleep = true →
    waiter.notified = false → h.system.ready awaited = true → h.Covered awaited

variable {awaited : Awaited} {h' : Hall} {label : HallLabel}

omit [Crates] in
/-- What becomes of the waiters in a step of the controller. -/
theorem waiter_before {label : Label} {waiter : Waiter} (member : waiter ∈ h.waitersAfter label) :
    ∃ before ∈ h.waiters, before.awaited = waiter.awaited ∧ before.asleep = waiter.asleep ∧
      (waiter.notified = false → before.notified = false) := by
  have stays (member : waiter ∈ h.waiters) : ∃ before ∈ h.waiters,
      before.awaited = waiter.awaited ∧ before.asleep = waiter.asleep ∧
        (waiter.notified = false → before.notified = false) :=
    ⟨waiter, member, rfl, rfl, fun same => same⟩
  cases label with
  | restart => cases member
  | op index succeeds =>
    simp only [waitersAfter] at member
    split at member
    · obtain ⟨before, there, rfl⟩ := List.mem_map.mp member
      refine ⟨before, there, rfl, rfl, fun silent => ?_⟩
      simp only [Bool.or_eq_false_iff] at silent
      exact silent.1
    · exact stays member
  | _ => exact stays member

/-- Nobody oversleeps if each step of the controller that makes something of what is waited for
brings in somebody who will notify, and each handler that leaves has notified. -/
theorem Alert.step (alert : h.Alert awaited) (stepped : h.step label = some h')
    (kept : ∀ inner next, label = .step inner → h.system.step inner = some next →
      System.restarts inner = false → next.ready awaited = true →
      (h.system.ready awaited = true → h.Covered awaited) →
      Covered ⟨next, h.notedAfter inner next, h.waitersAfter inner⟩ awaited ∨
        ∀ waiter ∈ h.waitersAfter inner, waiter.awaited = awaited → waiter.notified = true) :
    h'.Alert awaited := by
  cases label with
  | step inner =>
    obtain ⟨next, moved, rfl⟩ := Option.map_eq_some_iff.mp stepped
    intro waiter member own asleep silent ready
    obtain ⟨before, there, same, rested, unheard⟩ := waiter_before member
    cases restarts : System.restarts inner with
    | true =>
      cases inner with
      | restart => cases member
      | _ => cases restarts
    | false =>
      rcases kept inner next rfl moved restarts ready (fun ready =>
        alert before there (same.trans own) (rested.trans asleep) (unheard silent) ready) with
        covered | woken
      · exact covered
      · rw [woken waiter member own] at silent
        cases silent
  | listen listened =>
    obtain rfl := Option.some.inj stepped
    intro waiter member own asleep silent ready
    rcases List.mem_append.mp member with before | new
    · exact alert waiter before own asleep silent ready
    · obtain rfl := List.mem_singleton.mp new
      cases asleep
  | look index =>
    simp only [Hall.step] at stepped
    split at stepped
    · rename_i there
      split_ifs at stepped with busy finds <;> obtain rfl := Option.some.inj stepped
      · exact fun waiter member =>
          alert waiter ((List.eraseIdx_sublist _ _).subset member)
      · intro waiter member own asleep silent ready
        rcases List.mem_or_eq_of_mem_set member with before | rfl
        · exact alert waiter before own asleep silent ready
        · simp only [Bool.or_eq_true, not_or] at finds
          obtain rfl := own
          exact absurd ready finds.2
    · cases stepped
  | again index =>
    simp only [Hall.step] at stepped
    split at stepped
    · obtain rfl := Option.some.inj stepped
      intro waiter member own asleep silent ready
      rcases List.mem_or_eq_of_mem_set member with before | rfl
      · exact alert waiter before own asleep silent ready
      · cases asleep
    · cases stepped
  | leave index =>
    obtain rfl := Option.some.inj stepped
    exact fun waiter member => alert waiter ((List.eraseIdx_sublist _ _).subset member)

omit [Crates] in
/-- A handler that ends with such a reply notifies everybody. -/
theorem woken_of_answer {reply : Reply} (there : h.system.inflight[index]? = some (.running [] reply))
    (wakes : reply.wakes ((h.noted[index]?).getD false) awaited = true) :
    ∀ waiter ∈ h.waitersAfter (.op index succeeds), waiter.awaited = awaited →
      waiter.notified = true := by
  intro waiter member own
  simp only [waitersAfter, there] at member
  obtain ⟨before, -, rfl⟩ := List.mem_map.mp member
  have same : before.awaited = awaited := own
  simp [same, wakes]

theorem outcome_kept (closing : h.system.Closing) (sound : System.Sound h.system)
    (aligned : h.noted.length = h.system.inflight.length) {id : Uuid} {inner : Label}
    (stepped : h.system.step inner = some next) (same : System.restarts inner = false)
    (ready : next.ready (.outcome id) = true)
    (covered : h.system.ready (.outcome id) = true → h.Covered (.outcome id)) :
    Covered ⟨next, h.notedAfter inner next, h.waitersAfter inner⟩ (.outcome id) ∨
      ∀ waiter ∈ h.waitersAfter inner, waiter.awaited = .outcome id → waiter.notified = true := by
  by_cases calls : ∃ index succeeds, inner = .op index succeeds
  · obtain ⟨index, succeeds, rfl⟩ := calls
    rcases outcome_covered closing sound stepped ready with before | new
    · rcases (covered before).shifted aligned stepped same with kept | ⟨place, frame, own, there,
        wakes⟩
      · exact .inl kept
      · obtain rfl := Option.some.inj own
        obtain ⟨ops, reply, rfl⟩ := running_of_wakes wakes
        simp only [Frame.wakes, Bool.and_eq_true, List.isEmpty_iff] at wakes
        obtain ⟨rfl, wakes⟩ := wakes
        exact .inr (woken_of_answer there wakes)
    · exact .inl new
  · have other : ∀ index succeeds, inner ≠ .op index succeeds :=
      fun index succeeds equal => calls ⟨index, succeeds, equal⟩
    refine .inl ((covered ?_).kept aligned stepped same other)
    have rows : Kept h.system.database.rows next.database.rows id := by
      rcases System.step_outcome stepped same other with calm | ⟨commit, result, performed⟩
      · exact calm.rows id
      · exact .inl (by rw [performed.rows])
    rcases rows with kept | ⟨gone, -⟩
    · rwa [System.ready, ← kept]
    · rw [System.ready] at ready
      simp only [gone] at ready
      cases ready

/-- A handler that will notify goes on and notifies at its end, unless a call fails. -/
theorem work_called (closing : h.system.Closing) {node : Uuid}
    (reliable : h.reliable (.step (.op index succeeds)) = true)
    (stepped : h.system.step (.op index succeeds) = some next) {ops : List Op} {reply : Reply}
    (there : h.system.inflight[index]? = some (.running ops reply))
    (wakes : (Frame.running ops reply).wakes ((h.noted[index]?).getD false) (.work node) = true) :
    Covered ⟨next, h.notedAfter (.op index succeeds) next,
        h.waitersAfter (.op index succeeds)⟩ (.work node) ∨
      ∀ waiter ∈ h.waitersAfter (.op index succeeds), waiter.awaited = .work node →
        waiter.notified = true := by
  have inside := (List.getElem?_eq_some_iff.mp there).1
  simp only [Frame.wakes, Bool.and_eq_true] at wakes
  obtain ⟨plainly, notifies⟩ := wakes
  -- The handler stays in its place, with its flag.
  have goes {frame : Frame} (same : next.inflight = h.system.inflight.set index frame)
      (wakes : frame.wakes ((h.noted[index]?).getD false) (.work node) = true) :
      Covered ⟨next, h.notedAfter (.op index succeeds) next,
        h.waitersAfter (.op index succeeds)⟩ (.work node) := by
    refine ⟨index, frame, ?_, ?_⟩
    · exact same ▸ List.getElem?_set_self inside
    · simpa [notedAfter, same] using wakes
  cases System.op_cases stepped with
  | answered _ answer here =>
    obtain ⟨rfl, rfl⟩ := Frame.running.inj (Option.some.inj (there.symm.trans here))
    exact .inr (woken_of_answer there notifies)
  | called op rest before after made here plain done =>
    obtain ⟨rfl, rfl⟩ := Frame.running.inj (Option.some.inj (there.symm.trans here))
    refine .inl (goes rfl ?_)
    simp only [List.all_cons, Bool.and_eq_true] at plainly
    simp only [Frame.wakes, plainly.2, Bool.true_and]
    cases op with
    | insertExecution => cases plain
    | deliver taker execution pool =>
      rw [(closing.work _ _ taker execution pool (List.mem_of_getElem? there)
        List.mem_cons_self).2] at notifies
      cases notifies
    | completeExecution =>
      simp only [System.runOp, Option.map_eq_some_iff, Prod.mk.injEq] at done
      obtain ⟨_, -, -, -, rfl⟩ := done
      exact notifies
    | _ =>
      simp only [System.runOp, Option.some.injEq, Prod.mk.injEq] at done
      obtain ⟨-, -, rfl⟩ := done
      exact notifies
  | admitted execution secrets queue rest before database here
  | rejected execution secrets queue rest before database here =>
    obtain ⟨rfl, rfl⟩ := Frame.running.inj (Option.some.inj (there.symm.trans here))
    simp [Op.inserts] at plainly
  | failed _ op rest before here error =>
    obtain ⟨rfl, rfl⟩ := Frame.running.inj (Option.some.inj (there.symm.trans here))
    have counts : reply.notifies ((h.noted[index]?).getD false) = true := notifies
    simp only [Hall.reliable, there, counts, Bool.not_true, Bool.false_or, Bool.and_eq_true]
      at reliable
    rcases error with rfl | failed
    · cases reliable.1
    · rw [failed] at reliable
      cases reliable.2
  | ignored artifact rest before here =>
    obtain ⟨rfl, rfl⟩ := Frame.running.inj (Option.some.inj (there.symm.trans here))
    refine .inl (goes rfl ?_)
    simp only [List.all_cons, Bool.and_eq_true] at plainly
    simp only [Frame.wakes, plainly.2, Bool.true_and]
    exact notifies

theorem work_kept (closing : h.system.Closing) (sound : System.Sound h.system)
    (aligned : h.noted.length = h.system.inflight.length) {node : Uuid} {inner : Label}
    (reliable : h.reliable (.step inner) = true)
    (stepped : h.system.step inner = some next) (same : System.restarts inner = false)
    (ready : next.ready (.work node) = true)
    (covered : h.system.ready (.work node) = true → h.Covered (.work node)) :
    Covered ⟨next, h.notedAfter inner next, h.waitersAfter inner⟩ (.work node) ∨
      ∀ waiter ∈ h.waitersAfter inner, waiter.awaited = .work node → waiter.notified = true := by
  by_cases calls : ∃ index succeeds, inner = .op index succeeds
  · obtain ⟨index, succeeds, rfl⟩ := calls
    rcases work_covered sound stepped ready with before | new
    · rcases (covered before).shifted aligned stepped same with kept | ⟨place, frame, own, there,
        wakes⟩
      · exact .inl kept
      · obtain rfl := Option.some.inj own
        obtain ⟨ops, reply, rfl⟩ := running_of_wakes wakes
        exact work_called closing reliable stepped there wakes
    · exact .inl new
  · have other : ∀ index succeeds, inner ≠ .op index succeeds :=
      fun index succeeds equal => calls ⟨index, succeeds, equal⟩
    rcases covered_performed aligned stepped same other ready with before | new
    · exact .inl ((covered before).kept aligned stepped same other)
    · exact .inl new

/-- The process starts, and nobody waits yet. -/
structure Opened (h : Hall) : Prop where
  blank : System.Blank h.system
  bare : ∀ id, h.system.database.rows.get id = none
  silent : h.system.replies = []
  noted : h.noted = []
  empty : h.waiters = []

/-- What the steps of the controller keep of the hall. -/
structure Attended (h : Hall) : Prop where
  sound : System.Sound h.system
  closing : h.system.Closing
  aligned : h.noted.length = h.system.inflight.length

section
variable {may : Hall → HallLabel → Prop} {s t : Hall}

/-- The requests that wait do not disturb the controller. -/
theorem system_run (run : Runs.Reaches Hall.step may s t) :
    Runs.Reaches System.step (fun _ _ => True) s.system t.system := by
  induction run with
  | refl => exact .refl _
  | tail label before _ stepped ih =>
    cases label with
    | step inner =>
      obtain ⟨next, moved, rfl⟩ := Option.map_eq_some_iff.mp stepped
      exact .tail inner ih trivial moved
    | look index =>
      simp only [Hall.step] at stepped
      split at stepped
      · split_ifs at stepped <;> obtain rfl := Option.some.inj stepped <;> exact ih
      · cases stepped
    | again index =>
      simp only [Hall.step] at stepped
      split at stepped
      · obtain rfl := Option.some.inj stepped
        exact ih
      · cases stepped
    | listen | leave =>
      obtain rfl := Option.some.inj stepped
      exact ih

theorem Attended.step (attended : h.Attended) (sound : System.Sound h'.system)
    (stepped : h.step label = some h') : h'.Attended := by
  cases label with
  | step inner =>
    obtain ⟨next, moved, rfl⟩ := Option.map_eq_some_iff.mp stepped
    exact ⟨sound, attended.closing.step attended.sound moved,
      aligned_after attended.aligned moved⟩
  | look index =>
    simp only [Hall.step] at stepped
    split at stepped
    · split_ifs at stepped <;> obtain rfl := Option.some.inj stepped <;>
        exact ⟨sound, attended.closing, attended.aligned⟩
    · cases stepped
  | again index =>
    simp only [Hall.step] at stepped
    split at stepped
    · obtain rfl := Option.some.inj stepped
      exact ⟨sound, attended.closing, attended.aligned⟩
    · cases stepped
  | listen | leave =>
    obtain rfl := Option.some.inj stepped
    exact ⟨sound, attended.closing, attended.aligned⟩

theorem Opened.attended_run (opened : Opened s) (run : Runs.Reaches Hall.step may s t) :
    t.Attended := by
  refine run.invariant_along (P := Attended) ?_ ?_
  · have quiet {ops : List Op} {reply : Reply} :
        Frame.running ops reply ∉ s.system.inflight := by
      rw [opened.blank.quiet]
      exact List.not_mem_nil
    refine ⟨opened.blank.started.sound, ⟨fun _ _ _ _ member => absurd member quiet,
      fun _ _ _ member => absurd member quiet, fun _ _ _ _ _ member => absurd member quiet⟩, ?_⟩
    rw [opened.noted, opened.blank.quiet]
    rfl
  · intro u v label before attended allowed stepped
    exact attended.step (opened.blank.sound_run opened.bare opened.silent
      (system_run (.tail label before allowed stepped))) stepped

omit [Crates] in
theorem Opened.alert (opened : Opened s) : s.Alert awaited := by
  intro waiter member
  rw [opened.empty] at member
  cases member

theorem Opened.outcome_run (opened : Opened s) (run : Runs.Reaches Hall.step may s t) (id : Uuid) :
    t.Alert (.outcome id) := by
  refine run.invariant_along (P := fun h => h.Alert (.outcome id)) opened.alert ?_
  rintro u v label before alert - stepped
  have attended := opened.attended_run before
  exact alert.step stepped (fun inner next _ moved same ready covered =>
    outcome_kept attended.closing attended.sound attended.aligned moved same ready covered)

theorem Opened.work_run (opened : Opened s)
    (run : Runs.Reaches Hall.step (fun h label => h.reliable label = true) s t) (node : Uuid) :
    t.Alert (.work node) := by
  refine run.invariant_along (P := fun h => h.Alert (.work node)) opened.alert ?_
  rintro u v label before alert reliable stepped
  have attended := opened.attended_run before
  exact alert.step stepped (fun inner next same moved fresh ready covered =>
    work_kept attended.closing attended.sound attended.aligned (same ▸ reliable) moved fresh ready
      covered)

/-- Nobody sleeps through the end of an execution: where its row is over and a request that waits
for it has not been notified, a handler is at its end whose next step, which nothing can hold up,
notifies all who wait for results. -/
theorem results_announced (opened : Opened s)
    (run : Runs.Reaches Hall.step (fun _ _ => True) s t) {waiter : Waiter}
    (member : waiter ∈ t.waiters) (asleep : waiter.asleep = true)
    (silent : waiter.notified = false) {id : Uuid} (own : waiter.awaited = .outcome id)
    {row : Row} (found : t.system.database.rows.get id = some row)
    (ended : row.status.terminal = true) :
    ∃ (index : Nat) (node completed : Uuid) (next : Hall),
      t.system.inflight[index]? = some (.running [] (.completed node completed)) ∧
      t.step (.step (.op index true)) = some next ∧
      ∀ waiter ∈ next.waiters, ∀ id, waiter.awaited = .outcome id → waiter.notified = true := by
  have ready : t.system.ready (.outcome id) = true := by
    rw [System.ready]
    simp only [found]
    exact ended
  obtain ⟨index, frame, there, wakes⟩ := opened.outcome_run run id waiter member own asleep silent
    ready
  obtain ⟨ops, reply, rfl⟩ := running_of_wakes wakes
  simp only [Frame.wakes, Bool.and_eq_true, List.isEmpty_iff] at wakes
  obtain ⟨rfl, wakes⟩ := wakes
  have moved : t.system.step (.op index true) =
      some (t.system.answer (t.system.inflight.eraseIdx index) reply) := by
    simp only [System.step, there]
  cases reply with
  | completed node completed =>
    refine ⟨index, node, completed, _, there, Option.map_eq_some_iff.mpr ⟨_, moved, rfl⟩, ?_⟩
    intro waiter member id own
    have kept : waiter ∈ t.waitersAfter (.op index true) := member
    exact woken_of_answer there rfl waiter kept own
  | _ => cases wakes

/-- Nobody sleeps while there is work for his node, unless a call failed of a handler that would
have notified: somebody is still in flight who will notify all who wait for work, and is not going
to bring in another execution before. -/
theorem work_announced (opened : Opened s)
    (run : Runs.Reaches Hall.step (fun h label => h.reliable label = true) s t) {waiter : Waiter}
    (member : waiter ∈ t.waiters) (asleep : waiter.asleep = true)
    (silent : waiter.notified = false) {node : Uuid} (own : waiter.awaited = .work node)
    {id : Uuid} {execution : Execution}
    (present : t.system.cluster.executions.get id = some execution)
    (assigned : execution.status = .assigned ∧ execution.node = some node) :
    ∃ (index : Nat) (ops : List Op) (reply : Reply),
      t.system.inflight[index]? = some (.running ops reply) ∧
      (∀ op ∈ ops, op.inserts = false) ∧
      reply.notifies ((t.noted[index]?).getD false) = true := by
  have ready : t.system.ready (.work node) = true :=
    (Keyed.any_iff _ _).mpr ⟨id, execution, present, by simp [assignedTo, assigned]⟩
  obtain ⟨index, frame, there, wakes⟩ := opened.work_run run node waiter member own asleep silent
    ready
  obtain ⟨ops, reply, rfl⟩ := running_of_wakes wakes
  simp only [Frame.wakes, Bool.and_eq_true, List.all_eq_true, Bool.not_eq_true'] at wakes
  exact ⟨index, ops, reply, there, wakes.1, wakes.2⟩

end
end Hall

namespace Demo

def hall : Hall := ⟨empty, [], []⟩

/-- The node has looked for work in vain. An execution is created meanwhile and assigned to it. -/
def listening : List HallLabel :=
  (installation ++ creating).map .step ++ [.listen (.work node), .look 0] ++
    [.client (.createExecution 8 ⟨none, some "e", .null, ∅, ∅, true⟩ [] 0), .op 0 true].map .step

/-- A client has looked for the result in vain. The node completes the execution meanwhile. -/
def expecting : List HallLabel :=
  let asking (request : NodeRequest) (input : Input) : List Label :=
    [.authenticate node "credential" none request, .enter 0 input] ++ finish 0 3
  (assigning ++ asking .nextWork ⟨0, 0, some 8, none⟩).map .step ++
    [.listen (.outcome 8), .look 0] ++
    (asking (.completeExecution 8 ⟨none, none, none, none, false⟩)
      ⟨4000000, 0, none, none⟩).map .step

theorem hall_opened : hall.Opened :=
  ⟨⟨System.fresh_empty, rfl⟩, fun _ => rfl, rfl, rfl, rfl⟩

end Demo

namespace Hall

theorem results_announced_completed :
    ∃ (t next : Hall) (waiter : Waiter) (row : Row) (index : Nat), waiter ∈ t.waiters ∧
      waiter.asleep = true ∧ waiter.notified = false ∧ waiter.awaited = .outcome 8 ∧
      t.system.database.rows.get 8 = some row ∧ row.status.terminal = true ∧
      @step Demo.crates t (.step (.op index true)) = some next ∧
      ∀ waiter ∈ next.waiters, ∀ id, waiter.awaited = .outcome id → waiter.notified = true := by
  obtain ⟨t, run, told⟩ := Runs.exists_reaches (@step Demo.crates) (fun _ _ => True) Demo.hall
    Demo.expecting
    (fun t => decide (t.waiters = [⟨.outcome 8, true, false⟩]) &&
      (t.system.database.rows.get 8).any (fun row => row.status.terminal)) (by decide +kernel)
  simp only [Bool.and_eq_true, decide_eq_true_eq, Option.any_eq_true] at told
  obtain ⟨only, row, found, ended⟩ := told
  have member : ⟨.outcome 8, true, false⟩ ∈ t.waiters := by simp [only]
  obtain ⟨index, _, _, next, -, stepped, notified⟩ :=
    @results_announced Demo.crates _ _ Demo.hall_opened run _ member rfl rfl _ rfl _ found ended
  exact ⟨t, next, _, row, index, member, rfl, rfl, rfl, found, ended, stepped, notified⟩

theorem work_announced_created :
    ∃ (t : Hall) (waiter : Waiter) (execution : Execution) (index : Nat) (ops : List Op)
      (reply : Reply), waiter ∈ t.waiters ∧ waiter.asleep = true ∧ waiter.notified = false ∧
      waiter.awaited = .work Demo.node ∧ t.system.cluster.executions.get 8 = some execution ∧
      t.system.inflight[index]? = some (.running ops reply) ∧
      reply.notifies ((t.noted[index]?).getD false) = true := by
  obtain ⟨t, run, told⟩ := Runs.exists_reaches (@step Demo.crates)
    (fun h label => @reliable Demo.crates h label = true) Demo.hall Demo.listening
    (fun t => decide (t.waiters = [⟨.work Demo.node, true, false⟩]) &&
      (t.system.cluster.executions.get 8).any (fun execution : Execution =>
        decide (execution.status = .assigned ∧ execution.node = some Demo.node)))
    (by decide +kernel)
  simp only [Bool.and_eq_true, decide_eq_true_eq, Option.any_eq_true] at told
  obtain ⟨only, execution, present, assigned⟩ := told
  have member : ⟨.work Demo.node, true, false⟩ ∈ t.waiters := by simp [only]
  obtain ⟨index, ops, reply, there, -, notifies⟩ :=
    @work_announced Demo.crates _ _ Demo.hall_opened run _ member rfl rfl _ rfl _ _ present assigned
  exact ⟨t, _, execution, index, ops, reply, member, rfl, rfl, rfl, present, there, notifies⟩

end Hall
end Scraperack
