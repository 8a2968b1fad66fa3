import Scraperack.System

/-! One virtual machine that a node uses again and again. The node keeps a record of the functions
and working directories it believes to be in the guest, and leaves out of a request what is there. -/

namespace Scraperack

/-- `Map::remove` on an object; other documents are left alone. -/
def Value.remove (name : String) : Value → Value
  | .object fields => .object (fields.filter (fun entry => entry.1 ≠ name))
  | value => value

/-- The key under which node and executor look a function up, when it is a text. -/
def Value.functionKey (payload : Value) : Option String :=
  ((payload.field "cache_key").or (payload.field "hash")).bind Value.asStr

/-- What the node keeps in a `LiveVm` about the guest. -/
structure LiveVm where
  functions : Finset String
  workingDirs : Finset String

/-- What the executor has: the texts among the keys of `FUNCTIONS`, and its working directories. -/
structure Executor where
  functions : Finset String
  workingDirs : Finset String

/-- The parts of `Work` that decide what is sent. -/
structure Assignment where
  payload : Value
  variableMap : Keyed.Table String String
  secrets : Keyed.Table String String
  pool : Pool

/-- The working directory of a request: its digest, and whether the archive comes with it. -/
structure WorkingDir where
  hash : String
  archive : Bool

inductive Request where
  | plain (payload : Value)
  | invocation (payload : Value) (workingDir : Option WorkingDir)

namespace Assignment

def workingDir (work : Assignment) : Option String :=
  (work.payload.field "working_dir").bind Value.asStr

/-- The payload without its working directory. -/
def stripped (work : Assignment) : Value := work.payload.remove "working_dir"

def function (work : Assignment) : Option String := work.stripped.functionKey

/-- The node leaves the function out. -/
def omitsFunction (work : Assignment) (vm : LiveVm) : Bool :=
  work.function.any (fun key => decide (key ∈ vm.functions))

/-- What `run_execution` sends to the guest. -/
def request (work : Assignment) (vm : LiveVm) : Request :=
  let payload := if work.omitsFunction vm then work.stripped.remove "function" else work.stripped
  if work.variableMap.values.isEmpty && work.secrets.values.isEmpty &&
    work.workingDir.isNone then .plain payload
  else .invocation payload (work.workingDir.map (fun digest =>
    ⟨digest, decide (digest ∉ vm.workingDirs)⟩))

def keepIdle (work : Assignment) : Bool :=
  work.pool.reuse && (decide (0 < work.pool.idleTimeoutSecs) ||
    decide (0 < work.pool.warmInstances))

end Assignment

/-- When the executor process dies: never, in the first attempt of the guest to pass the request on,
or in both. In the first it may have unpacked the working directory before. -/
inductive Death where
  | never
  | once (unpacked : Bool)
  | twice (unpacked : Bool)
  deriving DecidableEq

/-- How an execution goes, as far as the documents do not say. Its function runs as root in the
executor's own process, and what it started may go on after it. -/
structure Outcome where
  /-- The archive that comes with the request has its digest and unpacks. -/
  unpacks : Bool
  /-- The function that comes with the request has its hash and loads. -/
  loads : Bool
  /-- What the payload asks for returns a value. -/
  returns : Bool
  /-- The keys that code of clients takes out of `FUNCTIONS` by the end of the execution. -/
  discards : Finset String
  /-- The working directories that it removes by then. -/
  removes : Finset String
  death : Death
  /-- The guest answers in time and with a completion. -/
  answers : Bool

namespace Request

def encoding (payload : Value) : Option String := (payload.field "encoding").bind Value.asStr

/-- The payload and the working directory that the executor's `handle` works on. -/
def opened : Request → Value × Option WorkingDir
  | invocation payload workingDir => (payload, workingDir)
  | plain payload =>
    if encoding payload = some "scraperack-invocation" then
      ((payload.field "payload").getD .null,
        (payload.field "working_dir").bind (fun spec =>
          ((spec.field "hash").bind Value.asStr).map (fun hash =>
          ⟨hash, (spec.field "archive").isSome⟩)))
    else (payload, none)

/-- `scraperack-init` answers these itself, and the executor the last one, before anything is loaded. -/
def internal : Request → Bool
  | plain payload =>
    decide (encoding payload ∈ [some "scraperack-snapshot", some "scraperack-network",
      some "scraperack-describe"])
  | invocation .. => false

/-- The key that the executor looks up, when it comes to a function. -/
def functionKey (request : Request) : Option String :=
  if request.internal = false ∧ encoding request.opened.1 = some "python-function" ∧
      (request.opened.1.field "hash").isSome then
    request.opened.1.functionKey
  else none

end Request

namespace Executor

/-- `prepare_working_dir`; no result when it raises an exception. -/
def prepareWorkingDir (outcome : Outcome) (executor : Executor) : Option WorkingDir →
    Option Executor
  | none => some executor
  | some spec =>
    if validDigest spec.hash = false then none
    else if spec.hash ∈ executor.workingDirs then some executor
    else if spec.archive && outcome.unpacks then
      some { executor with workingDirs := insert spec.hash executor.workingDirs }
    else none

/-- `execute`, with the flag that tells whether it raised an exception. -/
def execute (outcome : Outcome) (executor : Executor) (request : Request) : Executor × Bool :=
  match request.functionKey with
  | none => (executor, !outcome.returns)
  | some key =>
    if key ∈ executor.functions then (executor, !outcome.returns)
    else if (request.opened.1.field "function").isSome && outcome.loads then
      ({ executor with functions := insert key executor.functions }, !outcome.returns)
    else (executor, true)

/-- `handle`, with the flag that tells whether the completion carries an error. -/
def handle (outcome : Outcome) (executor : Executor) (request : Request) : Executor × Bool :=
  if request.internal then (executor, !outcome.returns)
  else
    match executor.prepareWorkingDir outcome request.opened.2 with
    | none => (executor, true)
    | some prepared => prepared.execute outcome request

/-- What code of clients leaves of it. -/
def left (outcome : Outcome) (executor : Executor) : Executor :=
  ⟨executor.functions \ outcome.discards, executor.workingDirs \ outcome.removes⟩

/-- The executor answers the request. -/
def attempt (outcome : Outcome) (executor : Executor) (request : Request) : Executor × Bool :=
  let (handled, error) := executor.handle outcome request
  (handled.left outcome, error)

/-- The executor that is started when the process has died. -/
def restarted (outcome : Outcome) (executor : Executor) (request : Request)
    (unpacked : Bool) : Executor :=
  { functions := ∅
    workingDirs :=
      (if unpacked then ((executor.prepareWorkingDir outcome request.opened.2).getD
        executor).workingDirs
      else executor.workingDirs) \ outcome.removes }

/-- The executors that the guest passes the request to. -/
def attempts (outcome : Outcome) (executor : Executor) (request : Request) : List Executor :=
  match outcome.death with
  | .never => [executor]
  | .once unpacked | .twice unpacked => [executor, executor.restarted outcome request unpacked]

/-- `executor_request`: a request is passed on a second time when the process died. -/
def serve (outcome : Outcome) (executor : Executor) (request : Request) : Executor × Bool :=
  match outcome.death with
  | .never => executor.attempt outcome request
  | .once unpacked => (executor.restarted outcome request unpacked).attempt outcome request
  | .twice unpacked => ({ executor.restarted outcome request unpacked with functions := ∅ }, true)

end Executor

/-- A virtual machine and the node's record of it. -/
structure Machine where
  vm : LiveVm
  executor : Executor

namespace Machine

/-- A machine that `start_vm` has just restored. -/
def started : Machine := ⟨⟨∅, ∅⟩, ⟨∅, ∅⟩⟩

/-- What the node records once the guest has answered. -/
def record (vm : LiveVm) (work : Assignment) (error : Bool) : LiveVm :=
  { workingDirs := vm.workingDirs ∪ work.workingDir.toFinset
    functions :=
      if work.workingDir.isNone || !error then vm.functions ∪
        work.function.toFinset else vm.functions }

/-- One execution on the machine; no result when the node destroys it. -/
def step (machine : Machine) (label : Assignment × Outcome) : Option Machine :=
  let (work, outcome) := label
  if outcome.answers && work.keepIdle then
    let (executor, error) := machine.executor.serve outcome (work.request machine.vm)
    some ⟨record machine.vm work error, executor⟩
  else none

/-- What the node leaves out of the request is there wherever the guest passes it on. -/
def Supplied (machine : Machine) (work : Assignment) (outcome : Outcome) : Prop :=
  ∀ executor ∈ machine.executor.attempts outcome (work.request machine.vm),
    (∀ key, work.function = some key → key ∈ machine.vm.functions → key ∈ executor.functions) ∧
    ∀ digest, work.workingDir = some digest → digest ∈ machine.vm.workingDirs →
      digest ∈ executor.workingDirs

/-- What the node records is in the guest. -/
structure Coherent (machine : Machine) : Prop where
  functions : machine.vm.functions ⊆ machine.executor.functions
  workingDirs : machine.vm.workingDirs ⊆ machine.executor.workingDirs

/-- The executor gets to the function of the request and loads it. -/
def Loads (executor : Executor) (request : Request) (outcome : Outcome) (key : String) : Prop :=
  request.functionKey = some key ∧ (executor.prepareWorkingDir outcome request.opened.2).isSome =
    true ∧
    (request.opened.1.field "function").isSome = true ∧ outcome.loads = true

instance (executor : Executor) (request : Request) (outcome : Outcome) (key : String) :
    Decidable (Loads executor request outcome key) := inferInstanceAs (Decidable (_ ∧ _ ∧ _ ∧ _))

/-- The working directory that the executor is asked to enter. -/
def entered (machine : Machine) (work : Assignment) : Finset String :=
  ((work.request machine.vm).opened.2.map WorkingDir.hash).toFinset

/-- Code of clients leaves `FUNCTIONS` and the working directories alone; the executor dies only while
no function is recorded; the working directory of the execution is there or unpacks; and a function
with a key is there, or is loaded, or the execution has a working directory and fails. -/
structure Careful (machine : Machine) (label : Assignment × Outcome) : Prop where
  spared : ∀ key ∈ machine.vm.functions ∪ label.1.function.toFinset, key ∉ label.2.discards
  untouched : ∀ digest ∈ machine.vm.workingDirs ∪ machine.entered label.1, digest ∉ label.2.removes
  lives : label.2.death ≠ .never → machine.vm.functions = ∅
  unpacked : ∀ digest, label.1.workingDir = some digest → digest ∈ machine.executor.workingDirs ∨
    validDigest digest = true ∧ label.2.unpacks = true ∧ label.2.death ≠ .twice false
  loaded : ∀ key, label.1.function = some key →
    (label.2.death = .never ∧ key ∈ machine.executor.functions) ∨
    (label.2.death ≠ .twice true ∧ label.2.death ≠ .twice false ∧
      Loads machine.executor (label.1.request machine.vm) label.2 key) ∨
    label.1.workingDir.isSome = true ∧
      (label.2.returns = false ∨ (label.1.request machine.vm).functionKey = some key ∨
        label.2.death = .twice true ∨ label.2.death = .twice false)

end Machine

namespace Executor
variable {outcome : Outcome} {executor prepared : Executor}

theorem prepareWorkingDir_eq_some {spec : Option WorkingDir}
    (done : executor.prepareWorkingDir outcome spec = some prepared) :
    prepared.functions = executor.functions ∧ executor.workingDirs ⊆ prepared.workingDirs ∧
      ∀ wanted, spec = some wanted → wanted.hash ∈ prepared.workingDirs := by
  cases spec with
  | none =>
    obtain rfl := Option.some.inj done
    exact ⟨rfl, Finset.Subset.refl _, fun _ wanted => by cases wanted⟩
  | some spec =>
    simp only [prepareWorkingDir] at done
    split_ifs at done with _ there sent
    · obtain rfl := Option.some.inj done
      exact ⟨rfl, Finset.Subset.refl _, fun _ wanted => Option.some.inj wanted ▸ there⟩
    · obtain rfl := Option.some.inj done
      exact ⟨rfl, Finset.subset_insert _ _, fun _ wanted =>
        Option.some.inj wanted ▸ Finset.mem_insert_self _ _⟩

/-- A function that is loaded stays, and running it needs it. -/
theorem execute_keeps (outcome : Outcome) (executor : Executor) (request : Request) :
    executor.functions ⊆ (executor.execute outcome request).1.functions ∧
      (executor.execute outcome request).1.workingDirs = executor.workingDirs ∧
      ∀ key, request.functionKey = some key →
        (executor.execute outcome request).2 = false ∨
          ((request.opened.1.field "function").isSome = true ∧ outcome.loads = true) →
        key ∈ (executor.execute outcome request).1.functions := by
  unfold execute
  cases named : request.functionKey with
  | none => exact ⟨Finset.Subset.refl _, rfl, fun _ same => by cases same⟩
  | some key =>
    dsimp only
    split_ifs with there loads
    · exact ⟨Finset.Subset.refl _, rfl, fun _ same _ => Option.some.inj same ▸ there⟩
    · exact ⟨Finset.subset_insert _ _, rfl, fun _ same _ =>
        Option.some.inj same ▸ Finset.mem_insert_self _ _⟩
    · refine ⟨Finset.Subset.refl _, rfl, fun _ _ fine => ?_⟩
      rcases fine with quiet | loaded
      · cases quiet
      · exact absurd (by simp [loaded]) loads

theorem handle_keeps (outcome : Outcome) (executor : Executor) (request : Request) :
    executor.functions ⊆ (executor.handle outcome request).1.functions ∧
      executor.workingDirs ⊆ (executor.handle outcome request).1.workingDirs := by
  unfold handle
  split_ifs
  · exact ⟨Finset.Subset.refl _, Finset.Subset.refl _⟩
  · split
    · exact ⟨Finset.Subset.refl _, Finset.Subset.refl _⟩
    · rename_i prepared done
      obtain ⟨functions, dirs, -⟩ := prepareWorkingDir_eq_some done
      obtain ⟨keeps, same, -⟩ := execute_keeps outcome prepared request
      exact ⟨functions ▸ keeps, dirs.trans same.ge⟩

theorem internal_of_functionKey {request : Request} {key : String}
    (named : request.functionKey = some key) :
    request.internal = false := by
  unfold Request.functionKey at named
  split_ifs at named with holds
  exact holds.1

/-- Who answers for a function has it. -/
theorem handle_loads {request : Request} {key : String} (named : request.functionKey = some key)
    (fine : (executor.handle outcome request).2 = false ∨
      Machine.Loads executor request outcome key) :
    key ∈ (executor.handle outcome request).1.functions := by
  have outside := internal_of_functionKey named
  simp only [handle, outside, Bool.false_eq_true, if_false] at fine ⊢
  cases done : executor.prepareWorkingDir outcome request.opened.2 with
  | none =>
    simp only [done, Machine.Loads, Option.isSome_none, Bool.false_eq_true, false_and, and_false,
      or_false] at fine
    cases fine
  | some prepared =>
    simp only [done] at fine
    exact (execute_keeps outcome prepared request).2.2 key named
      (fine.imp_right (fun loads => loads.2.2))

theorem handle_fails (failed : outcome.returns = false)
    (request : Request) : (executor.handle outcome request).2 = true := by
  have raises (prepared : Executor) : (prepared.execute outcome request).2 = true := by
    unfold execute
    cases request.functionKey with
    | none => simp [failed]
    | some key =>
      dsimp only
      split_ifs <;> simp [failed]
  unfold handle
  split_ifs
  · simp [failed]
  · cases executor.prepareWorkingDir outcome request.opened.2 with
    | none => rfl
    | some prepared => exact raises prepared

theorem handle_workingDir {request : Request} {spec : WorkingDir}
    (outside : request.internal = false)
    (sent : request.opened.2 = some spec)
    (ready : (executor.prepareWorkingDir outcome request.opened.2).isSome = true) :
    spec.hash ∈ (executor.handle outcome request).1.workingDirs := by
  obtain ⟨prepared, done⟩ := Option.isSome_iff_exists.mp ready
  simp only [handle, outside, Bool.false_eq_true, if_false, done]
  rw [(execute_keeps outcome prepared request).2.1]
  exact (prepareWorkingDir_eq_some done).2.2 spec sent

theorem restarted_mem {digest : String} (there : digest ∈ executor.workingDirs)
    (untouched : digest ∉ outcome.removes) (request : Request) (unpacked : Bool) :
    digest ∈ (executor.restarted outcome request unpacked).workingDirs := by
  refine Finset.mem_sdiff.mpr ⟨?_, untouched⟩
  split_ifs
  · cases done : executor.prepareWorkingDir outcome request.opened.2 with
    | none => exact there
    | some prepared => exact (prepareWorkingDir_eq_some done).2.1 there
  · exact there

/-- With the directory in place the preparation succeeds all the more. -/
theorem prepareWorkingDir_isSome {other : Executor} {spec : Option WorkingDir}
    (more : ∀ wanted, spec = some wanted → wanted.hash ∈ executor.workingDirs →
      wanted.hash ∈ other.workingDirs)
    (ready : (executor.prepareWorkingDir outcome spec).isSome = true) :
    (other.prepareWorkingDir outcome spec).isSome = true := by
  cases spec with
  | none => rfl
  | some spec =>
    simp only [prepareWorkingDir] at ready ⊢
    split_ifs at ready with invalid there sent
    · cases ready
    · simp [invalid, more spec rfl there]
    · have valid : validDigest spec.hash = true := by simpa using invalid
      simp only [valid, sent, Bool.true_eq_false, if_false, if_true]
      split_ifs <;> rfl
    · cases ready

/-- What nobody removes is in place after the request. -/
theorem serve_mem {digest : String} (there : digest ∈ executor.workingDirs)
    (untouched : digest ∉ outcome.removes) (request : Request) :
    digest ∈ (executor.serve outcome request).1.workingDirs := by
  have answered {other : Executor} (before : digest ∈ other.workingDirs) :
      digest ∈ (other.attempt outcome request).1.workingDirs :=
    Finset.mem_sdiff.mpr ⟨(handle_keeps outcome other request).2 before, untouched⟩
  unfold serve
  cases outcome.death with
  | never => exact answered there
  | once unpacked => exact answered (restarted_mem there untouched request unpacked)
  | twice unpacked => exact restarted_mem there untouched request unpacked

theorem serve_unpacks {request : Request} {spec : WorkingDir} (outside : request.internal = false)
    (sent : request.opened.2 = some spec) (valid : validDigest spec.hash = true)
    (archived : spec.hash ∈ executor.workingDirs ∨ spec.archive = true)
    (unpacks : outcome.unpacks = true) (untouched : spec.hash ∉ outcome.removes)
    (survives : outcome.death ≠ .twice false) : spec.hash ∈
      (executor.serve outcome request).1.workingDirs := by
  have ready : (executor.prepareWorkingDir outcome request.opened.2).isSome = true := by
    simp only [sent, prepareWorkingDir, valid, Bool.true_eq_false, if_false, unpacks, Bool.and_true]
    split_ifs with there archive
    · rfl
    · rfl
    · exact absurd (archived.resolve_left there) archive
  unfold serve
  cases death : outcome.death with
  | never => exact Finset.mem_sdiff.mpr ⟨handle_workingDir outside sent ready, untouched⟩
  | once unpacked =>
    refine Finset.mem_sdiff.mpr ⟨handle_workingDir outside sent ?_, untouched⟩
    refine prepareWorkingDir_isSome (fun wanted same there => ?_) ready
    obtain rfl := Option.some.inj (sent.symm.trans same)
    exact restarted_mem there untouched request unpacked
  | twice unpacked =>
    cases unpacked with
    | false => exact absurd death survives
    | true =>
      obtain ⟨prepared, done⟩ := Option.isSome_iff_exists.mp ready
      simp only [restarted, if_true, done, Option.getD_some]
      exact Finset.mem_sdiff.mpr ⟨(prepareWorkingDir_eq_some done).2.2 spec sent, untouched⟩

end Executor

namespace Machine

theorem Coherent.started : Coherent started := ⟨Finset.Subset.refl _, Finset.Subset.refl _⟩

/-- A request with a working directory comes in the node's own wrapping. -/
theorem request_workingDir {work : Assignment} {digest : String}
    (given : work.workingDir = some digest) (vm : LiveVm) :
    (work.request vm).internal = false ∧
      (work.request vm).opened.2 = some ⟨digest, decide (digest ∉ vm.workingDirs)⟩ := by
  simp [Assignment.request, given, Request.internal, Request.opened]

theorem Coherent.supplied {machine : Machine} {label : Assignment × Outcome}
    (coherent : Coherent machine)
    (careful : Careful machine label) : Supplied machine label.1 label.2 := by
  intro executor member
  have first : executor = machine.executor →
    (∀ key, label.1.function = some key → key ∈ machine.vm.functions →
      key ∈ executor.functions) ∧ ∀ digest, label.1.workingDir = some digest →
        digest ∈ machine.vm.workingDirs →
        digest ∈ executor.workingDirs := by
    rintro rfl
    exact ⟨fun key _ known => coherent.functions known, fun digest _ known =>
      coherent.workingDirs known⟩
  have second (dies : label.2.death ≠ .never) (unpacked : Bool)
      (same : executor = machine.executor.restarted label.2 (label.1.request machine.vm) unpacked) :
      (∀ key, label.1.function = some key → key ∈ machine.vm.functions → key ∈ executor.functions) ∧
        ∀ digest, label.1.workingDir = some digest → digest ∈ machine.vm.workingDirs →
          digest ∈ executor.workingDirs := by
    refine ⟨fun key _ known => ?_, fun digest _ known => ?_⟩
    · rw [careful.lives dies] at known
      cases known
    · exact same ▸ Executor.restarted_mem (coherent.workingDirs known)
        (careful.untouched digest (Finset.mem_union_left _ known)) _ unpacked
  unfold Executor.attempts at member
  cases death : label.2.death with
  | never =>
    simp only [death, List.mem_singleton] at member
    exact first member
  | once unpacked | twice unpacked =>
    simp only [death, List.mem_cons, List.not_mem_nil, or_false] at member
    exact member.elim first (second (by simp [death]) unpacked)

theorem record_functions (vm : LiveVm) (work : Assignment) (error : Bool) :
    (record vm work error).functions ⊆ vm.functions ∪ work.function.toFinset := by
  unfold record
  dsimp only
  split_ifs
  · exact Finset.Subset.refl _
  · exact Finset.subset_union_left

/-- A function that the node records was there before or is loaded now. -/
theorem Coherent.functions_step {machine : Machine} {work : Assignment} {outcome : Outcome}
    (coherent : Coherent machine)
    (careful : Careful machine (work, outcome)) :
    (record machine.vm work (machine.executor.serve outcome (work.request machine.vm)).2).functions
      ⊆
      (machine.executor.serve outcome (work.request machine.vm)).1.functions := by
  generalize sent : work.request machine.vm = request
  have loaded := careful.loaded
  simp only [sent] at loaded
  -- The executor that answers, when one does.
  have answered (executor : Executor)
    (same : machine.executor.serve outcome request = executor.attempt outcome request)
      (kept : machine.vm.functions ⊆ executor.functions)
        (alive : outcome.death = .never → executor = machine.executor)
      (survives : outcome.death ≠ .twice true ∧ outcome.death ≠ .twice false)
      (dirs : ∀ wanted, request.opened.2 = some wanted →
        wanted.hash ∈ machine.executor.workingDirs → wanted.hash ∈ executor.workingDirs) :
      (record machine.vm work (machine.executor.serve outcome request).2).functions ⊆
        (machine.executor.serve outcome request).1.functions := by
    rw [same]
    have keeps := (Executor.handle_keeps outcome executor request).1
    suffices there : (record machine.vm work (executor.handle outcome request).2).functions ⊆
        (executor.handle outcome request).1.functions from fun key member =>
      Finset.mem_sdiff.mpr ⟨there member, careful.spared key (record_functions _ _ _ member)⟩
    simp only [record]
    split_ifs with records
    · refine Finset.union_subset (kept.trans keeps) (fun key member => ?_)
      have named : work.function = some key := by simpa using member
      rcases loaded key named with ⟨lives, there⟩ | ⟨-, -, keyed, ready, given,
        loads⟩ | ⟨given, fine⟩
      · obtain rfl := alive lives
        exact keeps there
      · exact Executor.handle_loads keyed
          (.inr ⟨keyed, Executor.prepareWorkingDir_isSome dirs ready, given, loads⟩)
      · have quiet : (executor.handle outcome request).2 = false := by
          have wrapped : work.workingDir.isNone = false := Option.isNone_eq_false_iff.mpr given
          simpa [wrapped] using records
        rcases fine with failed | keyed | twice | twice
        · rw [Executor.handle_fails failed] at quiet
          cases quiet
        · exact Executor.handle_loads keyed (.inl quiet)
        · exact absurd twice survives.1
        · exact absurd twice survives.2
    · exact kept.trans keeps
  cases death : outcome.death with
  | never =>
    refine answered machine.executor (by simp only [Executor.serve, death])
      coherent.functions (fun _ => rfl)
      (by simp [death]) (fun _ _ there => there)
  | once unpacked =>
    have nothing : machine.vm.functions = ∅ := careful.lives (by simp [death])
    exact answered (machine.executor.restarted outcome request unpacked)
      (by simp only [Executor.serve, death])
      (nothing ▸ Finset.empty_subset _) (fun never => by rw [death] at never; cases never)
        (by simp [death])
      (fun wanted asked there => Executor.restarted_mem there
        (careful.untouched _ (Finset.mem_union_right _ (by simp [entered, sent, asked]))) _ _)
  | twice unpacked =>
    -- Nobody answers, and with nothing to record nothing is lost.
    have nothing : machine.vm.functions = ∅ := careful.lives (by simp [death])
    have failed : (machine.executor.serve outcome request).2 = true := by
      simp only [Executor.serve, death]
    simp only [record, nothing, failed, Bool.not_true, Bool.or_false, Finset.empty_union]
    split_ifs with bare
    · intro key member
      have named : work.function = some key := by simpa using member
      rcases loaded key named with ⟨lives, -⟩ | ⟨first, second, -⟩ | ⟨given, -⟩
      · rw [death] at lives
        cases lives
      · cases unpacked
        · exact absurd death second
        · exact absurd death first
      · have wrapped : work.workingDir.isNone = false := Option.isNone_eq_false_iff.mpr given
        rw [wrapped] at bare
        cases bare
    · exact Finset.empty_subset _

theorem Coherent.step {machine next : Machine} {label : Assignment × Outcome}
    (coherent : Coherent machine)
    (careful : Careful machine label) (stepped : machine.step label =
      some next) : Coherent next := by
  obtain ⟨work, outcome⟩ := label
  simp only [Machine.step] at stepped
  split_ifs at stepped
  obtain rfl := Option.some.inj stepped
  refine ⟨?_, ?_⟩
  · exact coherent.functions_step careful
  · simp only [record]
    refine Finset.union_subset (fun digest known => ?_) (fun digest member => ?_)
    · exact Executor.serve_mem (coherent.workingDirs known)
        (careful.untouched digest (Finset.mem_union_left _ known)) _
    have given : work.workingDir = some digest := by simpa using member
    obtain ⟨outside, sent⟩ := request_workingDir given machine.vm
    have untouched : digest ∉ outcome.removes :=
      careful.untouched digest (Finset.mem_union_right _ (by simp [entered, sent]))
    rcases careful.unpacked digest given with there | ⟨valid, unpacks, survives⟩
    · exact Executor.serve_mem there untouched _
    · refine Executor.serve_unpacks outside sent valid ?_ unpacks untouched survives
      by_cases known : digest ∈ machine.vm.workingDirs
      · exact .inl (coherent.workingDirs known)
      · exact .inr (by simp [known])

instance (machine : Machine) (label : Assignment × Outcome) : Decidable (Careful machine label) :=
  decidable_of_iff
    ((∀ key ∈ machine.vm.functions ∪ label.1.function.toFinset, key ∉ label.2.discards) ∧
      (∀ digest ∈ machine.vm.workingDirs ∪ machine.entered label.1, digest ∉ label.2.removes) ∧
      (label.2.death ≠ .never → machine.vm.functions = ∅) ∧
      (∀ digest, label.1.workingDir = some digest → digest ∈ machine.executor.workingDirs ∨
        validDigest digest = true ∧ label.2.unpacks = true ∧ label.2.death ≠ .twice false) ∧
      ∀ key, label.1.function = some key →
        (label.2.death = .never ∧ key ∈ machine.executor.functions) ∨
        (label.2.death ≠ .twice true ∧ label.2.death ≠ .twice false ∧
          Loads machine.executor (label.1.request machine.vm) label.2 key) ∨
        label.1.workingDir.isSome = true ∧
          (label.2.returns = false ∨ (label.1.request machine.vm).functionKey = some key ∨
            label.2.death = .twice true ∨ label.2.death = .twice false))
    ⟨fun ⟨spared, untouched, lives, unpacked, loaded⟩ =>
        ⟨spared, untouched, lives, unpacked, loaded⟩,
      fun careful => ⟨careful.spared, careful.untouched, careful.lives, careful.unpacked,
        careful.loaded⟩⟩

/-- In every run of careful executions on one machine, what the node leaves out of the next careful
one is in the guest, wherever the guest passes the request on. -/
theorem caches_coherent {machine : Machine} (run : Runs.Reaches step Careful started machine) :
    ∀ work outcome, Careful machine (work, outcome) → Supplied machine work outcome := by
  have coherent : Coherent machine :=
    run.invariant Coherent.started (fun coherent careful stepped => coherent.step careful stepped)
  exact fun work outcome careful => coherent.supplied careful

end Machine

namespace Demo

/-- A function that is called by its hash, on a machine that is kept. -/
def calling : Assignment :=
  { payload := .object [("encoding", .string "python-function"), ("hash", .string "f"),
    ("function", .string "data"),
      ("params", .string "none")]
    variableMap := ∅
    secrets := ∅
    pool := { otherPool with reuse := true } }

def succeeds : Outcome := ⟨true, true, true, ∅, ∅, .never, true⟩

/-- The function does not load, for want of a module for example. -/
def unloadable : Outcome := { succeeds with loads := false }

end Demo

namespace Machine

/-- The second call of a function comes without the function, and the guest has it. -/
theorem caches_coherent_again :
    ∃ machine : Machine, Demo.calling.omitsFunction machine.vm = true ∧
      Supplied machine Demo.calling Demo.succeeds := by
  obtain ⟨machine, run, omits⟩ := Runs.exists_reaches step Careful started
    [(Demo.calling, Demo.succeeds)]
    (fun machine => Demo.calling.omitsFunction machine.vm &&
      decide (Careful machine (Demo.calling, Demo.succeeds)))
    (by decide +kernel)
  simp only [Bool.and_eq_true, decide_eq_true_eq] at omits
  exact ⟨machine, omits.1, caches_coherent run _ _ omits.2⟩

/-- A function that did not load is recorded all the same, and left out of the next request. -/
theorem function_missing :
    ¬ ∀ machine : Machine, Runs.Reaches step (fun _ _ => True) started machine →
      ∀ work outcome, Supplied machine work outcome := by
  intro claim
  obtain ⟨machine, run, lacks⟩ := Runs.exists_reaches step (fun _ _ => True) started
    [(Demo.calling, Demo.unloadable)]
    (fun machine => decide ("f" ∈ machine.vm.functions) &&
      decide ("f" ∉ machine.executor.functions))
    (by decide +kernel)
  simp only [Bool.and_eq_true, decide_eq_true_eq] at lacks
  exact lacks.2 ((claim machine run Demo.calling Demo.succeeds machine.executor
    List.mem_cons_self).1 "f" rfl lacks.1)

end Machine
end Scraperack
