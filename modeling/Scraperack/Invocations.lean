import Scraperack.Caches

/-! What one execution leaves behind in the executor for the next one. The executor runs functions
of clients in its own process. Around each it saves some of what they may change there, gives them
their variables and secrets and catches what they write, and afterwards it puts back what it saved. -/

/-! Programs that are not known: all that can be said is what they ask of their surroundings, and
that they may go on as they like with the answers. -/

/-- A program that performs actions `A`, is answered with `B` and ends with `R`. -/
inductive Interaction (A B R : Type) where
  | done (result : R)
  | act (action : A) (next : B → Interaction A B R)

namespace Interaction
variable {S A B R : Type} {perform : S → A → S × B}

def run (perform : S → A → S × B) : S → Interaction A B R → S × R
  | s, done result => (s, result)
  | s, act action next => run perform (perform s action).1 (next (perform s action).2)

/-- The actions of a run, each with the state in which it is performed. -/
def trace (perform : S → A → S × B) : S → Interaction A B R → List (S × A)
  | _, done _ => []
  | s, act action next => (s, action) :: trace perform (perform s action).1 (next (perform s action).2)

variable {P : S → Prop} {allowed : S → A → Prop}

/-- What each allowed action keeps, a run of allowed actions keeps from its start to its end. -/
theorem run_kept (program : Interaction A B R)
    (kept : ∀ s action, P s → allowed s action → P (perform s action).1) {s : S} (start : P s)
    (all : ∀ entry ∈ program.trace perform s, allowed entry.1 entry.2) :
    P (program.run perform s).1 ∧ ∀ entry ∈ program.trace perform s, P entry.1 := by
  induction program generalizing s with
  | done result => exact ⟨start, fun _ member => by cases member⟩
  | act action next ih =>
    have first := kept s action start (all _ List.mem_cons_self)
    obtain ⟨ended, later⟩ := ih _ first (fun entry member => all entry (List.mem_cons_of_mem _ member))
    exact ⟨ended, List.forall_mem_cons.mpr ⟨start, later⟩⟩

end Interaction

namespace Scraperack.Invocations

abbrev Path := List String

/-- `WORKING_DIRS` of the executor. -/
def workingDirs : Path := ["tmp", "scraperack-working-dirs"]

inductive Stream where
  | stdout
  | stderr
  deriving DecidableEq

/-- What `sys.stdout` or `sys.stderr` is: the stream of the process, or another object that keeps what it is given, with
the error that its `flush` raises. -/
inductive Binding where
  | own
  | other (error : Option String)
  deriving DecidableEq

/-- What `scraperack_runtime._set_context` sets. -/
structure Context where
  variableMap : Keyed.Table String String
  secrets : Keyed.Table String String

/-- A module that is loaded: its `__file__`, which namespace packages do not have, and of a package its
`__path__`. -/
structure Module where
  file : Option Path
  search : List Path
  deriving DecidableEq

def Module.places (module : Module) : List Path := module.file.toList ++ module.search

/-- What the code of a client does to the process. -/
inductive Action where
  | getenv (name : String)
  /-- `os.environ`. -/
  | setenv (name : String) (value : Option String)
  /-- `os.putenv` and `os.unsetenv`, which pass `os.environ` by. -/
  | putenv (name : String) (value : Option String)
  /-- What a child process inherits. -/
  | inherits (name : String)
  | getcwd
  | chdir (path : Path)
  | getPath
  | setPath (path : List Path)
  /-- The import of a module of a package, which is named by its parts, the last one first. -/
  | load (package : List String) (name : String)
  /-- An entry of `sys.modules`, its `__file__` and its `__path__`. -/
  | setModule (name : List String) (module : Option Module)
  | print (stream : Stream) (text : String)
  | flush (stream : Stream)
  /-- To the descriptor itself, as a child process does. -/
  | write (stream : Stream) (data : Bytes)
  | close (stream : Stream)
  | bind (stream : Stream) (binding : Binding)
  /-- The files of a working directory are changed, or it is removed. -/
  | rewrite (digest : String) (files : Option (List Path))
  | getObject (name : String)
  | setObject (name : String) (value : Option String)
  | getSecret (name : String)
  | getVariable (name : String)
  deriving DecidableEq

inductive Answer where
  | done
  | text (value : Option String)
  | path (path : Path)
  | paths (paths : List Path)
  /-- With whether it was not loaded before, so that its code is run now. -/
  | module (module : Module) (fresh : Bool)
  | raised
  deriving DecidableEq

/-- The code of a client: it ends with a value, as `encode` gives it, or with an exception. -/
abbrev Program := Interaction Action Answer (Except String Value)

/-- A function, which is given its pickled parameters. -/
abbrev Callable := String → Program

/-- The executor process, as far as an execution can change it for the next. -/
structure Process where
  /-- `os.environ`. -/
  environ : String → Option String
  /-- The environment that child processes inherit. -/
  inherited : String → Option String
  currentDirectory : Path
  sysPath : List Path
  /-- `sys.modules`, by the parts of the name, the last one first. -/
  modules : List String → Option Module
  /-- `FUNCTIONS`. -/
  functions : String → Option Callable
  /-- Whatever else code keeps things in that the executor does not use: attributes of modules, the
  defaults of functions, the settings of a stream, files. -/
  objects : String → Option String
  context : Option Context
  /-- The descriptors 1 and 2 stand for the temporary files, not for those of the process. -/
  captured : Bool
  bound : Stream → Binding
  /-- What has been printed and is still in the buffers of the process's own streams. -/
  pending : Stream → Bytes
  /-- The process's own stream is closed. -/
  closed : Stream → Bool
  /-- The temporary files `STDOUT` and `STDERR`. -/
  files : Stream → Bytes
  /-- The working directories that are unpacked, each with the paths of its files. -/
  directories : String → Option (List Path)

/-- What the process runs on: the files outside the working directories, and how a stream, as it is set, splits what is
in its buffer into what is written at once and what is held back. -/
class Runtime where
  file : Path → Bool
  folder : Path → Bool
  buffer : (String → Option String) → Stream → Bytes → Bytes × Bytes

/-- The source of a module that is no package. -/
def sourceFile (name : String) : String := name ++ ".py"

namespace Process
variable [Runtime]

def holds (process : Process) : Path → Bool
  | "tmp" :: "scraperack-working-dirs" :: digest :: inner =>
    (process.directories digest).any (fun files => decide (inner ∈ files))
  | path => Runtime.file path

def isFolder (process : Process) : Path → Bool
  | "tmp" :: "scraperack-working-dirs" :: digest :: inner =>
    (process.directories digest).any (fun files => decide (inner = []) ||
      files.any (fun file => inner.isPrefixOf file && decide (inner ≠ file)))
  | path => Runtime.folder path

/-- The search for a module that is not built in. A folder without `__init__.py` counts when nothing else is found; all of
them together are a namespace package. -/
def find (process : Process) (name : String) (portions : List Path) : List Path → Option Module
  | [] => if portions = [] then none else some ⟨none, portions⟩
  | directory :: rest =>
    if process.holds (directory ++ [name, "__init__.py"]) then
      some ⟨some (directory ++ [name, "__init__.py"]), [directory ++ [name]]⟩
    else if process.holds (directory ++ [sourceFile name]) then
      some ⟨some (directory ++ [sourceFile name]), []⟩
    else if process.isFolder (directory ++ [name]) then
      process.find name (portions ++ [directory ++ [name]]) rest
    else process.find name portions rest

/-- Where the modules of a package are searched for. The path of a namespace package is made anew each
time. -/
def searched (process : Process) : List String → Process × Option (List Path)
  | [] => (process, some process.sysPath)
  | name :: parents =>
    match process.modules (name :: parents) with
    | none => (process, none)
    | some module =>
      if module.file = none ∧ module.search ≠ [] then
        let (after, directories) := process.searched parents
        match directories.bind (process.find name []) with
        | some ⟨none, portions⟩ =>
          ({ after with
            modules := Function.update after.modules (name :: parents) (some ⟨none, portions⟩) },
            some portions)
        | _ => (after, some module.search)
      else (process, some module.search)

def load (process : Process) (package : List String) (name : String) : Process × Answer :=
  match process.modules (name :: package) with
  | some module => (process, .module module false)
  | none =>
    let (after, directories) := process.searched package
    match directories.bind (process.find name []) with
    | some module =>
      ({ after with modules := Function.update after.modules (name :: package) (some module) },
        .module module true)
    | none => (after, .raised)

/-- The error that `flush` raises. -/
def broken (process : Process) (stream : Stream) : Option String :=
  match process.bound stream with
  | .own => if process.closed stream then some "I/O operation on closed file." else none
  | .other error => error

/-- A `flush` that does not raise. -/
def flush (process : Process) (stream : Stream) : Process :=
  { process with
    pending :=
      if process.bound stream = .own then Function.update process.pending stream []
      else process.pending
    files :=
      if process.bound stream = .own ∧ process.captured = true then
        Function.update process.files stream (process.files stream ++ process.pending stream)
      else process.files }

/-- A `print` to the process's own stream. -/
def printed (process : Process) (stream : Stream) (text : String) : Process :=
  let (written, held) :=
    Runtime.buffer process.objects stream (process.pending stream ++ System.utf8 text)
  { process with
    pending := Function.update process.pending stream held
    files :=
      if process.captured then
        Function.update process.files stream (process.files stream ++ written)
      else process.files }

def perform (process : Process) : Action → Process × Answer
  | .getenv name => (process, .text (process.environ name))
  | .setenv name value =>
      ({ process with
        environ := Function.update process.environ name value
        inherited := Function.update process.inherited name value }, .done)
  | .putenv name value =>
      ({ process with inherited := Function.update process.inherited name value }, .done)
  | .inherits name => (process, .text (process.inherited name))
  | .getcwd =>
    if process.isFolder process.currentDirectory then (process, .path process.currentDirectory)
    else (process, .raised)
  | .chdir path =>
    if process.isFolder path then ({ process with currentDirectory := path }, .done)
    else (process, .raised)
  | .getPath => (process, .paths process.sysPath)
  | .setPath path => ({ process with sysPath := path }, .done)
  | .load package name => process.load package name
  | .setModule name module =>
      ({ process with modules := Function.update process.modules name module }, .done)
  | .print stream text =>
    match process.bound stream with
    | .own =>
      if process.closed stream then (process, .raised)
      else (process.printed stream text, .done)
    | .other _ => (process, .done)
  | .flush stream =>
    if (process.broken stream).isSome then (process, .raised) else (process.flush stream, .done)
  | .write stream data =>
    if process.captured then
      ({ process with
        files := Function.update process.files stream (process.files stream ++ data) }, .done)
    else (process, .done)
  | .close stream =>
    -- the stream closes, and its descriptor stays open
    if process.bound stream = .own ∧ process.closed stream = false then
      ({ process.flush stream with closed := Function.update process.closed stream true }, .done)
    else (process, .done)
  | .bind stream binding =>
      ({ process with bound := Function.update process.bound stream binding }, .done)
  | .rewrite digest files =>
      ({ process with directories := Function.update process.directories digest files }, .done)
  | .getObject name => (process, .text (process.objects name))
  | .setObject name value =>
      ({ process with objects := Function.update process.objects name value }, .done)
  | .getSecret name =>
    match process.context.bind (fun context => context.secrets.get name) with
    | some entry => (process, .text entry.2)
    | none => (process, .raised)
  | .getVariable name =>
    match process.context with
    | some context => (process, .text ((context.variableMap.get name).map Prod.snd))
    | none => (process, .raised)

end Process

/-- The working directory of an invocation. An archive that comes with it has the digest and unpacks
to these files, or the error that is raised. -/
structure WorkingDir where
  hash : String
  archive : Option (Except String (List Path))

/-- The payload of an invocation. A function is unpickled if it is not in `FUNCTIONS`. -/
inductive Payload where
  | plain (program : Program)
  | function (key : String) (unpickle : Interaction Action Answer (Except String Callable))
      (params : String)

structure Invocation where
  variableMap : Keyed.Table String String
  secrets : Keyed.Table String String
  workingDir : Option WorkingDir
  payload : Payload

structure Response where
  value : Option Value
  stdout : String
  stderr : String
  error : Option String

namespace Process
variable [Runtime]

/-- `prepare_working_dir`. -/
def prepareWorkingDir (process : Process) : Option WorkingDir →
    Except String (Process × Option Path)
  | none => .ok (process, none)
  | some spec =>
    if validDigest spec.hash = false then .error "invalid working directory hash"
    else if (process.directories spec.hash).isSome then
      .ok (process, some (workingDirs ++ [spec.hash]))
    else
      match spec.archive with
      | none => .error "working directory archive is missing"
      | some (.error error) => .error error
      | some (.ok files) =>
        .ok ({ process with directories := Function.update process.directories spec.hash files },
          some (workingDirs ++ [spec.hash]))

/-- `unload_modules`. -/
def unloadModules (process : Process) : Option Path → Process
  | none => process
  | some directory =>
    { process with
      modules := fun name => (process.modules name).filter (fun module =>
        !module.file.any (fun file => directory.isPrefixOf file)) }

/-- The process in its working directory. -/
def opened (process : Process) : Option Path → Process
  | none => process
  | some directory =>
    { process with currentDirectory := directory, sysPath := directory :: process.sysPath }

def cache (process : Process) (key : String) (function : Callable) : Process :=
  { process with functions := Function.update process.functions key (some function) }

/-- `execute`, up to `encode`. -/
def execute (process : Process) : Payload → Process × Except String Value
  | .plain program => program.run perform process
  | .function key unpickle params =>
    match process.functions key with
    | some function => (function params).run perform process
    | none =>
      match unpickle.run perform process with
      | (loaded, .error error) => (loaded, .error error)
      | (loaded, .ok function) => (function params).run perform (loaded.cache key function)

/-- The actions of `execute`, each with the process at that point. -/
def executed (process : Process) : Payload → List (Process × Action)
  | .plain program => program.trace perform process
  | .function key unpickle params =>
    match process.functions key with
    | some function => (function params).trace perform process
    | none =>
      unpickle.trace perform process ++
        match unpickle.run perform process with
        | (_, .error _) => []
        | (loaded, .ok function) => (function params).trace perform (loaded.cache key function)

/-- `sys.stdout.flush()` and `sys.stderr.flush()`, with the error that one of them raises. -/
def flushStreams (process : Process) : Process × Option String :=
  match process.broken .stdout with
  | some error => (process, some error)
  | none =>
    match process.broken .stderr with
    | some error => (process.flush .stdout, some error)
    | none => ((process.flush .stdout).flush .stderr, none)

/-- `handle` before its `try`, with the context of the invocation. -/
def begun (process : Process) (invocation : Invocation) : Process :=
  { process with
    context := some ⟨invocation.variableMap, invocation.secrets⟩
    files := fun _ => [] }

/-- The inner `try` of `handle`: the working directory and what the code of the client ends with. -/
def attempt (process : Process) (invocation : Invocation) :
    Process × Option Path × Except String Value :=
  match process.prepareWorkingDir invocation.workingDir with
  | .error error => (process, none, .error error)
  | .ok (prepared, directory) =>
    let result := (prepared.opened directory).execute invocation.payload
    (result.1, directory, result.2)

/-- The actions of the client's code in `attempt`. -/
def attempted (process : Process) (invocation : Invocation) : List (Process × Action) :=
  match process.prepareWorkingDir invocation.workingDir with
  | .error _ => []
  | .ok (prepared, directory) => (prepared.opened directory).executed invocation.payload

/-- The `finally` of `handle`. -/
def restored (process before : Process) (directory : Option Path) : Process :=
  { process.unloadModules directory with
    environ := before.environ
    inherited := fun name =>
      match before.environ name with
      | some value => some value
      -- `os.environ.clear()` unsets what it knows of
      | none => if (process.environ name).isSome then none else process.inherited name
    currentDirectory := before.currentDirectory
    sysPath := before.sysPath
    context := before.context
    captured := before.captured }

/-- All ends of lines become the same in a text that is read. -/
def newlines : List Char → List Char
  | '\r' :: '\n' :: rest => '\n' :: newlines rest
  | '\r' :: rest => '\n' :: newlines rest
  | letter :: rest => letter :: newlines rest
  | [] => []

/-- `read` of one of the temporary files. -/
def readText (data : Bytes) : Except String String :=
  match String.fromUTF8? ⟨data.toArray⟩ with
  | some text => .ok (String.ofList (newlines text.toList))
  | none => .error "UnicodeDecodeError"

/-- What the loop of the executor answers when `handle` raises an exception. -/
def failed (error : String) : Response := ⟨none, "", "", some error⟩

/-- `handle` when the first two flushes have succeeded. -/
def invoked (process before : Process) (invocation : Invocation) : Process × Response :=
  let (after, directory, result) := process.attempt invocation
  let (flushed, error) := after.flushStreams
  (flushed.restored before directory,
    match error, readText (flushed.files .stdout), readText (flushed.files .stderr) with
    | some error, _, _ | none, .error error, _ | none, .ok _, .error error => failed error
    | none, .ok stdout, .ok stderr =>
      { value := result.toOption
        stdout := stdout
        stderr := stderr
        error := match result with
          | .ok _ => none
          | .error error => some error })

def handle (process : Process) (invocation : Invocation) : Process × Response :=
  match (process.begun invocation).flushStreams with
  | (flushed, some error) => (flushed, failed error)
  | (flushed, none) => { flushed with captured := true }.invoked process invocation

/-- The actions of the client's code in `handle`, each with the process at that point. -/
def actions (process : Process) (invocation : Invocation) : List (Process × Action) :=
  match (process.begun invocation).flushStreams with
  | (_, some _) => []
  | (flushed, none) => { flushed with captured := true }.attempted invocation

/-- One invocation after the other. -/
def serve (process : Process) : List Invocation → Process
  | [] => process
  | invocation :: rest => (process.handle invocation).1.serve rest

/-- Neither flush raises an error. -/
def Ready (process : Process) : Prop := process.flushStreams.2 = none

instance (process : Process) : Decidable process.Ready := by
  unfold Ready
  infer_instance

omit [Runtime] in
theorem ready_iff (process : Process) :
    process.Ready ↔ process.broken .stdout = none ∧ process.broken .stderr = none := by
  unfold Ready flushStreams
  cases process.broken .stdout <;> cases process.broken .stderr <;> simp

omit [Runtime] in
/-- A flush changes only what is held back and what is in the files. -/
theorem flushStreams_frame (process : Process) : ∃ pending files,
    process.flushStreams.1 = { process with pending := pending, files := files } := by
  unfold flushStreams
  cases process.broken .stdout with
  | some error => exact ⟨_, _, rfl⟩
  | none =>
    cases process.broken .stderr with
    | some error => exact ⟨_, _, rfl⟩
    | none => exact ⟨_, _, rfl⟩

/-- What one invocation may have changed for the next is the same as before. -/
structure Restored (before after : Process) : Prop where
  environ : after.environ = before.environ
  currentDirectory : after.currentDirectory = before.currentDirectory
  sysPath : after.sysPath = before.sysPath
  captured : after.captured = before.captured
  context : after.Ready → after.context = before.context
  ready : after.Ready → before.Ready

omit [Runtime] in
theorem Restored.trans {p q r : Process} (first : Restored p q) (second : Restored q r) :
    Restored p r where
  environ := second.environ.trans first.environ
  currentDirectory := second.currentDirectory.trans first.currentDirectory
  sysPath := second.sysPath.trans first.sysPath
  captured := second.captured.trans first.captured
  context ready := (second.context ready).trans (first.context (second.ready ready))
  ready ready := first.ready (second.ready ready)

omit [Runtime] in
/-- Whether the streams are ready does not depend on the context. -/
theorem begun_ready (process : Process) (invocation : Invocation) :
    (process.begun invocation).Ready ↔ process.Ready := by
  rw [ready_iff, ready_iff]
  rfl

/-- With a stream that cannot be flushed nothing of an invocation is run. -/
theorem handle_broken {process : Process} (broken : ¬ process.Ready) (invocation : Invocation) :
    ∃ pending files error, process.handle invocation =
        ({ process.begun invocation with pending := pending, files := files }, failed error) ∧
      process.actions invocation = [] := by
  obtain ⟨pending, files, same⟩ := (process.begun invocation).flushStreams_frame
  rw [← begun_ready process invocation, Ready] at broken
  obtain ⟨error, raised⟩ := Option.ne_none_iff_exists'.mp broken
  have flushed : (process.begun invocation).flushStreams =
      ({ process.begun invocation with pending := pending, files := files }, some error) :=
    Prod.ext same raised
  exact ⟨pending, files, error, by rw [handle, flushed], by rw [actions, flushed]⟩

theorem handle_restored (process : Process) (invocation : Invocation) :
    Restored process (process.handle invocation).1 := by
  by_cases ready : process.Ready
  · have flushed := (process.begun_ready invocation).mpr ready
    rw [Ready] at flushed
    rw [handle]
    split
    · simp_all
    · exact ⟨rfl, rfl, rfl, rfl, fun _ => rfl, fun _ => ready⟩
  · obtain ⟨pending, files, error, same, -⟩ := handle_broken ready invocation
    rw [same]
    have still (after : Process) (streams : after.broken = process.broken) : ¬ after.Ready := by
      rw [ready_iff, streams, ← ready_iff]
      exact ready
    exact ⟨rfl, rfl, rfl, rfl, fun after => absurd after (still _ rfl),
      fun after => absurd after (still _ rfl)⟩

/-- The process with what the executor does not restore in another one. What has been printed counts
only where the stream has been replaced. -/
def withLeft (process other : Process) : Process :=
  { process with
    inherited := other.inherited
    modules := other.modules
    functions := other.functions
    objects := other.objects
    directories := other.directories
    bound := other.bound
    closed := other.closed
    pending := fun stream =>
      if other.bound stream = .own then process.pending stream else other.pending stream }

omit [Runtime] in
/-- What an invocation begins with is restored or taken over. -/
theorem Restored.begun {process after : Process} (restored : Restored process after)
    (free : process.captured = false) (invocation : Invocation) :
    { ((after.begun invocation).flush .stdout).flush .stderr with captured := true } =
      { (((process.withLeft after).begun invocation).flush .stdout).flush .stderr with
        captured := true } := by
  have pending : (((after.begun invocation).flush .stdout).flush .stderr).pending =
      ((((process.withLeft after).begun invocation).flush .stdout).flush .stderr).pending := by
    funext stream
    cases out : after.bound .stdout <;> cases err : after.bound .stderr <;> cases stream <;>
      simp [flush, Process.begun, withLeft, out, err]
  have files : (((after.begun invocation).flush .stdout).flush .stderr).files =
      ((((process.withLeft after).begun invocation).flush .stdout).flush .stderr).files := by
    simp [flush, Process.begun, withLeft, restored.captured, free]
  simp only [flush, Process.begun, withLeft] at pending files ⊢
  rw [pending, files, restored.environ, restored.currentDirectory, restored.sysPath]

end Process

namespace Demo

abbrev runtime : Runtime :=
  ⟨fun _ => false, fun path => decide (path ∈ [[], ["tmp"]]), fun _ _ data => ([], data)⟩

def started : Process where
  environ _ := none
  inherited _ := none
  currentDirectory := ["tmp"]
  sysPath := [["opt", "scraperack", "runtime"]]
  modules _ := none
  functions _ := none
  objects _ := none
  context := none
  captured := false
  bound _ := .own
  pending _ := []
  closed _ := false
  files _ := []
  directories _ := none

/-- A function that sets a variable, in `os.environ` and past it, changes the directory and prints. -/
def setting : Invocation :=
  ⟨∅, ∅, none, .function "setting" (.done (.ok fun mode =>
    .act (.setenv "MODE" (some mode)) fun _ => .act (.putenv "PAST" (some mode)) fun _ =>
      .act (.chdir []) fun _ => .act (.print .stdout mode) fun _ => .done (.ok .null))) "on"⟩

/-- It prints whether the variable is set. -/
def asking : Invocation :=
  ⟨∅, ∅, none, .plain (.act (.getenv "MODE") fun mode =>
    .act (.print .stdout (if mode = .text none then "unset" else "set")) fun _ => .done (.ok .null))⟩

end Demo

namespace Process

end Process

/-! Modules of working directories. -/

/-- The path is not inside any working directory. -/
def Outside (path : Path) : Prop := ¬ workingDirs <+: path

instance (path : Path) : Decidable (Outside path) := by
  unfold Outside
  infer_instance

/-- Each folder of the name is a package. -/
def Packaged (name : String) (files : List Path) : Prop :=
  ∀ file ∈ files, ∀ inner ∈ file.inits, inner ++ [name] <+: file → inner ++ [name] ≠ file →
    inner ++ [name, "__init__.py"] ∈ files

instance (name : String) (files : List Path) : Decidable (Packaged name files) := by
  unfold Packaged
  infer_instance

namespace Invocation

def directory (invocation : Invocation) : Option Path :=
  invocation.workingDir.map (fun spec => workingDirs ++ [spec.hash])

/-- The path is inside no working directory but that of the invocation. -/
def MayLoad (invocation : Invocation) (path : Path) : Prop :=
  Outside path ∨ ∃ directory ∈ invocation.directory, directory <+: path

instance (invocation : Invocation) (path : Path) : Decidable (invocation.MayLoad path) := by
  unfold MayLoad
  infer_instance

/-- The module lies outside the working directories, or it is unloaded at the end. -/
def Places (invocation : Invocation) (module : Module) : Prop :=
  (∀ path ∈ module.places, Outside path) ∨ ∃ directory ∈ invocation.directory,
    (∃ file ∈ module.file, directory <+: file) ∧ ∀ path ∈ module.places, directory <+: path

instance (invocation : Invocation) (module : Module) : Decidable (invocation.Places module) := by
  unfold Places
  infer_instance

/-- An action does not put the working directories of others on the search path, imports neither the folder of
all of them nor one of its own that is no package, and makes no module that lies in one and would stay. -/
def Allows (invocation : Invocation) (process : Process) : Action → Prop
  | .setPath paths => ∀ path ∈ paths, invocation.MayLoad path
  | .load package name => ∀ part ∈ name :: package, part ≠ "scraperack-working-dirs" ∧
      ∀ spec ∈ invocation.workingDir, ∀ files ∈ process.directories spec.hash, Packaged part files
  | .setModule _ module => ∀ placed ∈ module, invocation.Places placed
  | _ => True

instance (invocation : Invocation) (process : Process) :
    (action : Action) → Decidable (invocation.Allows process action)
  | .setPath paths => inferInstanceAs (Decidable (∀ path ∈ paths, invocation.MayLoad path))
  | .load package name => inferInstanceAs (Decidable (∀ part ∈ name :: package,
      part ≠ "scraperack-working-dirs" ∧ ∀ spec ∈ invocation.workingDir,
        ∀ files ∈ process.directories spec.hash, Packaged part files))
  | .setModule _ module => inferInstanceAs (Decidable (∀ placed ∈ module, invocation.Places placed))
  | .getenv _ | .setenv .. | .putenv .. | .inherits _ | .getcwd | .chdir _ | .getPath | .print ..
  | .flush _ | .write .. | .close _ | .bind .. | .rewrite .. | .getObject _ | .setObject ..
  | .getSecret _ | .getVariable _ => isTrue trivial

theorem Places.may {invocation : Invocation} {module : Module} (placed : invocation.Places module) :
    ∀ path ∈ module.places, invocation.MayLoad path := by
  intro path member
  rcases placed with outside | ⟨directory, own, -, inside⟩
  · exact .inl (outside path member)
  · exact .inr ⟨directory, own, inside path member⟩

end Invocation

theorem Outside.append {path : Path} (outside : Outside path) {name : String}
    (other : name ≠ "scraperack-working-dirs") : Outside (path ++ [name]) := by
  intro inside
  rcases List.prefix_concat_iff.mp inside with same | before
  · have last := congrArg List.getLast? same
    simp only [workingDirs, List.getLast?_append, List.getLast?_singleton] at last
    exact other (Option.some.inj last).symm
  · exact outside before

theorem sourceFile_ne (name : String) : sourceFile name ≠ "scraperack-working-dirs" := by
  intro same
  have last := congrArg (fun text : String => text.toList.getLast?) same
  simp [sourceFile] at last

namespace Process
variable [Runtime] {process : Process} {invocation : Invocation}

/-- A folder of the own working directory that is imported is a package. -/
theorem holds_of_isFolder {name : String} {directory own : Path}
    (there : own ∈ invocation.directory) (inside : own <+: directory)
    (packaged : ∀ spec ∈ invocation.workingDir, ∀ files ∈ process.directories spec.hash,
      Packaged name files)
    (folder : process.isFolder (directory ++ [name]) = true) :
    process.holds (directory ++ [name, "__init__.py"]) = true := by
  obtain ⟨spec, given, rfl⟩ := Option.map_eq_some_iff.mp there
  obtain ⟨inner, rfl⟩ := inside
  have path (last : Path) : workingDirs ++ [spec.hash] ++ inner ++ last =
      "tmp" :: "scraperack-working-dirs" :: spec.hash :: (inner ++ last) := by
    simp [workingDirs]
  rw [path, isFolder, Option.any_eq_true] at folder
  obtain ⟨files, unpacked, folder⟩ := folder
  obtain ⟨file, member, both⟩ := List.any_eq_true.mp ((Bool.or_eq_true _ _).mp folder |>.resolve_left
    (by simp))
  rw [Bool.and_eq_true, List.isPrefixOf_iff_prefix, decide_eq_true_eq] at both
  rw [path, holds, Option.any_eq_true]
  refine ⟨files, unpacked, decide_eq_true ?_⟩
  have before : inner ∈ file.inits :=
    (List.mem_inits _ _).mpr ((List.prefix_append inner [name]).trans both.1)
  exact packaged spec given files unpacked file member inner before both.1 both.2

/-- What is found in such places lies in such places. -/
theorem find_places {name : String} {portions directories : List Path} {module : Module}
    (found : process.find name portions directories = some module)
    (may : ∀ directory ∈ directories, invocation.MayLoad directory)
    (spaces : ∀ portion ∈ portions, Outside portion) (other : name ≠ "scraperack-working-dirs")
    (packaged : ∀ spec ∈ invocation.workingDir, ∀ files ∈ process.directories spec.hash,
      Packaged name files) : invocation.Places module := by
  induction directories generalizing portions with
  | nil =>
    rw [find] at found
    split at found <;> cases found
    exact .inl spaces
  | cons directory rest ih =>
    have later {portions : List Path} (found : process.find name portions rest = some module)
        (spaces : ∀ portion ∈ portions, Outside portion) : invocation.Places module :=
      ih found (fun path member => may path (List.mem_cons_of_mem _ member)) spaces
    rw [find] at found
    split_ifs at found with package single folder
    · cases found
      rcases may directory List.mem_cons_self with outside | ⟨own, there, inside⟩
      · have path := outside.append other
        have file : Outside (directory ++ [name, "__init__.py"]) := by
          have named := path.append (by decide : "__init__.py" ≠ "scraperack-working-dirs")
          simpa using named
        refine .inl (fun path member => ?_)
        rcases List.mem_pair.mp member with rfl | rfl
        · exact file
        · exact path
      · refine .inr ⟨own, there, ⟨_, rfl, inside.trans (List.prefix_append _ _)⟩, ?_⟩
        intro path member
        rcases List.mem_pair.mp member with rfl | rfl <;>
          exact inside.trans (List.prefix_append _ _)
    · cases found
      rcases may directory List.mem_cons_self with outside | ⟨own, there, inside⟩
      · refine .inl (fun path member => ?_)
        obtain rfl := List.mem_singleton.mp member
        exact outside.append (sourceFile_ne name)
      · refine .inr ⟨own, there, ⟨_, rfl, inside.trans (List.prefix_append _ _)⟩, ?_⟩
        intro path member
        obtain rfl := List.mem_singleton.mp member
        exact inside.trans (List.prefix_append _ _)
    · rcases may directory List.mem_cons_self with outside | ⟨own, there, inside⟩
      · refine later found (fun portion member => ?_)
        rcases List.mem_append.mp member with before | last
        · exact spaces portion before
        · obtain rfl := List.mem_singleton.mp last
          exact outside.append other
      · exact absurd (holds_of_isFolder there inside packaged folder) package
    · exact later found spaces

/-- Between two invocations: nothing of a working directory is loaded or can be found. -/
structure Clean (process : Process) : Prop where
  modules : ∀ name module, process.modules name = some module →
    ∀ path ∈ module.places, Outside path
  sysPath : ∀ path ∈ process.sysPath, Outside path

/-- During an invocation. -/
structure Searches (invocation : Invocation) (process : Process) : Prop where
  modules : ∀ name module, process.modules name = some module → invocation.Places module
  sysPath : ∀ path ∈ process.sysPath, invocation.MayLoad path

omit [Runtime] in
theorem Searches.congr {other : Process} (searches : process.Searches invocation)
    (modules : other.modules = process.modules) (sysPath : other.sysPath = process.sysPath) :
    other.Searches invocation :=
  ⟨modules ▸ searches.modules, sysPath ▸ searches.sysPath⟩

omit [Runtime] in
theorem Searches.assigned (searches : process.Searches invocation) {key : List String}
    {module : Option Module} (placed : ∀ found ∈ module, invocation.Places found) :
    { process with
      modules := Function.update process.modules key module }.Searches invocation := by
  refine ⟨fun name other known => ?_, searches.sysPath⟩
  simp only [Function.update_apply] at known
  split_ifs at known
  · exact placed other known
  · exact searches.modules name other known

omit [Runtime] in
theorem Searches.loaded (searches : process.Searches invocation) {key : List String}
    {module : Module} (placed : invocation.Places module) :
    { process with
      modules := Function.update process.modules key (some module) }.Searches invocation :=
  searches.assigned (fun _ same => Option.some.inj same ▸ placed)

theorem Searches.searched (searches : process.Searches invocation) {package : List String}
    (allowed : ∀ part ∈ package, part ≠ "scraperack-working-dirs" ∧
      ∀ spec ∈ invocation.workingDir, ∀ files ∈ process.directories spec.hash, Packaged part files) :
    (process.searched package).1.Searches invocation ∧
      ∀ directories ∈ (process.searched package).2, ∀ path ∈ directories,
        invocation.MayLoad path := by
  induction package with
  | nil =>
    refine ⟨searches, fun directories known => ?_⟩
    cases known
    exact searches.sysPath
  | cons name parents ih =>
    rw [Process.searched]
    split
    · exact ⟨searches, fun _ known => by cases known⟩
    · rename_i module known
      have placed := searches.modules _ module known
      have old : ∀ directories ∈ some module.search, ∀ path ∈ directories,
          invocation.MayLoad path := by
        rintro directories ⟨⟩ path member
        exact placed.may path (List.mem_append_right _ member)
      split_ifs
      · obtain ⟨after, may⟩ := ih (fun part member => allowed part (List.mem_cons_of_mem _ member))
        dsimp only
        split
        · rename_i portions found
          obtain ⟨directories, listed, found⟩ := Option.bind_eq_some_iff.mp found
          obtain ⟨other, packaged⟩ := allowed name List.mem_cons_self
          have placed := find_places found (may directories listed) (fun _ none => by cases none)
            other packaged
          refine ⟨after.loaded placed, ?_⟩
          rintro directories ⟨⟩ path member
          exact placed.may path (List.mem_append_right _ member)
        · exact ⟨after, old⟩
      · exact ⟨searches, old⟩

theorem Searches.load (searches : process.Searches invocation) {package : List String}
    {name : String} (allowed : invocation.Allows process (.load package name)) :
    (process.load package name).1.Searches invocation ∧
      ∀ module fresh, (process.load package name).2 = .module module fresh →
        invocation.Places module := by
  obtain ⟨after, may⟩ := searches.searched (fun part member =>
    allowed part (List.mem_cons_of_mem _ member))
  rw [Process.load]
  split
  · rename_i module known
    refine ⟨searches, fun _ _ answer => ?_⟩
    cases answer
    exact searches.modules _ module known
  · dsimp only
    split
    · rename_i module found
      obtain ⟨directories, listed, found⟩ := Option.bind_eq_some_iff.mp found
      obtain ⟨other, packaged⟩ := allowed name List.mem_cons_self
      have placed := find_places found (may directories listed) (fun _ none => by cases none)
        other packaged
      refine ⟨after.loaded placed, fun _ _ answer => ?_⟩
      cases answer
      exact placed
    · exact ⟨after, fun _ _ answer => by cases answer⟩

/-- Only imports and assignments to the search path or to the modules change what can be found. -/
theorem perform_plain (process : Process) {action : Action}
    (loads : ∀ package name, action ≠ .load package name)
    (assigns : ∀ name module, action ≠ .setModule name module)
    (sets : ∀ paths, action ≠ .setPath paths) :
    (process.perform action).1.modules = process.modules ∧
      (process.perform action).1.sysPath = process.sysPath := by
  cases action with
  | load package name => exact absurd rfl (loads package name)
  | setModule name module => exact absurd rfl (assigns name module)
  | setPath paths => exact absurd rfl (sets paths)
  | print =>
    simp only [perform]
    split
    · split_ifs <;> exact ⟨rfl, rfl⟩
    · exact ⟨rfl, rfl⟩
  | getcwd | chdir | flush | write | close =>
    simp only [perform]
    split_ifs <;> exact ⟨rfl, rfl⟩
  | getSecret | getVariable =>
    simp only [perform]
    split <;> exact ⟨rfl, rfl⟩
  | _ => exact ⟨rfl, rfl⟩

theorem Searches.perform (searches : process.Searches invocation) {action : Action}
    (allowed : invocation.Allows process action) :
    (process.perform action).1.Searches invocation := by
  by_cases loads : ∃ package name, action = .load package name
  · obtain ⟨package, name, rfl⟩ := loads
    exact (searches.load allowed).1
  by_cases assigns : ∃ name module, action = .setModule name module
  · obtain ⟨name, module, rfl⟩ := assigns
    exact searches.assigned allowed
  by_cases sets : ∃ paths, action = .setPath paths
  · obtain ⟨paths, rfl⟩ := sets
    exact ⟨searches.modules, allowed⟩
  obtain ⟨modules, sysPath⟩ := process.perform_plain
    (fun package name own => loads ⟨package, name, own⟩)
    (fun name module own => assigns ⟨name, module, own⟩) (fun paths own => sets ⟨paths, own⟩)
  exact searches.congr modules sysPath

/-- The programs of a payload keep what its actions keep. -/
theorem Searches.execute (searches : process.Searches invocation) {payload : Payload}
    (allowed : ∀ entry ∈ process.executed payload, invocation.Allows entry.1 entry.2) :
    (process.execute payload).1.Searches invocation ∧
      ∀ entry ∈ process.executed payload, entry.1.Searches invocation := by
  have kept (process : Process) (action : Action) (before : process.Searches invocation)
      (allowed : invocation.Allows process action) :
      (process.perform action).1.Searches invocation := before.perform allowed
  cases payload with
  | plain program => exact program.run_kept kept searches allowed
  | function key unpickle params =>
    simp only [Process.execute, executed] at allowed ⊢
    split
    · rename_i function known
      rw [known] at allowed
      exact (function params).run_kept kept searches allowed
    · rename_i unknown
      rw [unknown] at allowed
      dsimp only at allowed
      obtain ⟨loaded, first⟩ := unpickle.run_kept kept searches
        (fun entry member => allowed entry (List.mem_append_left _ member))
      split
      · rename_i after error ended
        rw [ended] at loaded
        exact ⟨loaded, by simpa using first⟩
      · rename_i after function ended
        rw [ended] at loaded allowed
        have cached : (after.cache key function).Searches invocation := loaded.congr rfl rfl
        obtain ⟨final, second⟩ := (function params).run_kept kept cached
          (fun entry member => allowed entry (List.mem_append_right _ member))
        exact ⟨final, List.forall_mem_append.mpr ⟨first, second⟩⟩

omit [Runtime] in
theorem prepareWorkingDir_ok {prepared : Process} {directory : Option Path}
    (done : process.prepareWorkingDir invocation.workingDir = .ok (prepared, directory)) :
    directory = invocation.directory ∧ prepared.modules = process.modules ∧
      prepared.sysPath = process.sysPath := by
  unfold prepareWorkingDir at done
  rw [Invocation.directory]
  split at done
  · rename_i none
    cases done
    exact ⟨by rw [none]; rfl, rfl, rfl⟩
  · rename_i spec some
    rw [some]
    split_ifs at done
    · cases done
      exact ⟨rfl, rfl, rfl⟩
    · split at done <;> cases done
      exact ⟨rfl, rfl, rfl⟩

omit [Runtime] in
/-- A program begins with its own directory in front of the search path. -/
theorem Clean.opened (clean : process.Clean) {prepared : Process} {directory : Option Path}
    (done : process.prepareWorkingDir invocation.workingDir = .ok (prepared, directory)) :
    (prepared.opened directory).Searches invocation := by
  obtain ⟨own, modules, sysPath⟩ := prepareWorkingDir_ok done
  have known : ∀ name module, prepared.modules name = some module → invocation.Places module := by
    intro name module found
    rw [modules] at found
    exact .inl (clean.modules name module found)
  have listed : ∀ path ∈ prepared.sysPath, invocation.MayLoad path := by
    intro path member
    rw [sysPath] at member
    exact .inl (clean.sysPath path member)
  cases directory with
  | none => exact ⟨known, listed⟩
  | some directory =>
    refine ⟨known, fun path member => ?_⟩
    rcases List.mem_cons.mp member with rfl | other
    · exact .inr ⟨path, own.symm, List.prefix_refl _⟩
    · exact listed path other

omit [Runtime] in
/-- The modules of the invocation's own directory are unloaded. -/
theorem Searches.unloaded (searches : process.Searches invocation) :
    ∀ name module, (process.unloadModules invocation.directory).modules name = some module →
      ∀ path ∈ module.places, Outside path := by
  intro name module known
  cases own : invocation.directory with
  | none =>
    rw [own] at known
    rcases searches.modules name module known with outside | ⟨directory, there, -⟩
    · exact outside
    · rw [own] at there
      cases there
  | some directory =>
    rw [own] at known
    obtain ⟨known, stays⟩ := Option.filter_eq_some_iff.mp known
    rcases searches.modules name module known with outside | ⟨other, there, ⟨file, has, inside⟩, -⟩
    · exact outside
    · obtain rfl := Option.some.inj (own.symm.trans there)
      simp only [Option.mem_def] at has
      simp [has, List.isPrefixOf_iff_prefix.mpr inside] at stays

omit [Runtime] in
theorem flushStreams_modules (process : Process) :
    process.flushStreams.1.modules = process.modules := by
  obtain ⟨pending, files, same⟩ := process.flushStreams_frame
  rw [same]

omit [Runtime] in
theorem flushStreams_sysPath (process : Process) :
    process.flushStreams.1.sysPath = process.sysPath := by
  obtain ⟨pending, files, same⟩ := process.flushStreams_frame
  rw [same]

/-- What is searched during an invocation, and what stays loaded. -/
theorem Clean.invoked (clean : process.Clean) (before : Process)
    (allowed : ∀ entry ∈ process.attempted invocation, invocation.Allows entry.1 entry.2) :
    (∀ name module, (process.invoked before invocation).1.modules name = some module →
      ∀ path ∈ module.places, Outside path) ∧
        ∀ entry ∈ process.attempted invocation, entry.1.Searches invocation := by
  unfold attempted at allowed ⊢
  unfold Process.invoked attempt
  cases done : process.prepareWorkingDir invocation.workingDir with
  | error error =>
    refine ⟨fun name module known => clean.modules name module ?_, fun _ member => by cases member⟩
    exact (congrFun process.flushStreams_modules name).symm.trans known
  | ok result =>
    obtain ⟨prepared, directory⟩ := result
    rw [done] at allowed
    obtain ⟨searches, during⟩ := (clean.opened done).execute allowed
    obtain rfl := (prepareWorkingDir_ok done).1
    exact ⟨(searches.congr (flushStreams_modules _) (flushStreams_sysPath _)).unloaded, during⟩

theorem Clean.handle (clean : process.Clean)
    (allowed : ∀ entry ∈ process.actions invocation, invocation.Allows entry.1 entry.2) :
    (process.handle invocation).1.Clean ∧
      ∀ entry ∈ process.actions invocation, entry.1.Searches invocation := by
  have sysPath := (process.handle_restored invocation).sysPath
  have modules := (process.begun invocation).flushStreams_modules
  have path := (process.begun invocation).flushStreams_sysPath
  suffices both : (∀ name module, (process.handle invocation).1.modules name = some module →
      ∀ path ∈ module.places, Outside path) ∧
        ∀ entry ∈ process.actions invocation, entry.1.Searches invocation from
    ⟨⟨both.1, sysPath ▸ clean.sysPath⟩, both.2⟩
  unfold Process.actions at allowed ⊢
  unfold Process.handle
  generalize (process.begun invocation).flushStreams = flushed at modules path allowed ⊢
  rcases flushed with ⟨ready, _ | error⟩
  · have entered : Clean { ready with captured := true } :=
      ⟨fun name module known => clean.modules name module ((congrFun modules name).symm.trans known),
        fun other member => clean.sysPath other (path ▸ member)⟩
    exact entered.invoked process allowed
  · refine ⟨fun name module known => clean.modules name module ?_, fun _ member => by cases member⟩
    exact (congrFun modules name).symm.trans known

/-- Each invocation does what is allowed to it. -/
def Allowed (process : Process) : List Invocation → Prop
  | [] => True
  | invocation :: rest =>
    (∀ entry ∈ process.actions invocation, invocation.Allows entry.1 entry.2) ∧
      (process.handle invocation).1.Allowed rest

theorem Clean.serve (clean : process.Clean) {invocations : List Invocation}
    (allowed : process.Allowed invocations) : (process.serve invocations).Clean := by
  induction invocations generalizing process with
  | nil => exact clean
  | cons invocation rest ih => exact ih (clean.handle allowed.1).1 allowed.2

end Process

namespace Demo

/-- A working directory with some files, and a function that imports the module `tool` of a package. -/
def job (digit : Char) (files : List Path) : Invocation :=
  ⟨∅, ∅, some ⟨String.ofList (List.replicate 64 digit), some (.ok files)⟩,
    .plain (.act (.load [] "job") fun _ => .act (.load ["job"] "tool") fun _ => .done (.ok .null))⟩

def package : List Path := [["job", "__init__.py"], ["job", "tool.py"]]

/-- What the imports of the next job are answered. -/
def answers (first next : Invocation) : List Answer :=
  (@Process.actions runtime (@Process.serve runtime started [first]) next).map
    (fun entry => (@Process.perform runtime entry.1 entry.2).2)

/-- Without `__init__.py` the package stays, and the next job imports a module of the first. -/
example : (answers (job 'a' [["job", "tool.py"]]) (job 'b' [["main.py"]]))[1]? =
    some (.module ⟨some (workingDirs ++ [String.ofList (List.replicate 64 'a'), "job", "tool.py"]),
      []⟩ true) := by
  decide +kernel

end Demo

namespace Process

end Process
end Scraperack.Invocations
