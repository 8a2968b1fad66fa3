import Scraperack.Routes
import Scraperack.Snapshots

/-! The snapshot directories of a node. Virtual machines that start and the passes of `sync_snapshots`
call `ensure_snapshot` side by side, the passes remove directories that no pool wants, without the
lock, and the process may end at any point. -/

namespace Scraperack.SnapshotFiles

/-- The name of a directory right in `snapshots`. It is one component of a path, and the temporary
directories are told apart from it by the dot in front. -/
structure Key where
  name : String
  component : '/' ∉ name.toList
  lasting : name.toList.head?.any (· ≠ '.') = true
  deriving DecidableEq

instance : Inhabited Key := ⟨⟨"snapshot", by decide, by decide⟩⟩

/-- A pool with a key that is one component of a path. What `environment_artifact` adds to the key, no
handler checks for slashes. -/
structure Source [Crates] where
  pool : Pool
  component : '/' ∉ (snapshotKey pool).toList

/-- The identifier of the image in front does not start with a dot. -/
theorem snapshotKey_lasting [Crates] (pool : Pool) :
    (snapshotKey pool).toList.head?.any (· ≠ '.') = true := by
  have long := Uuid.hyphenatedChars_length pool.image
  rw [snapshotKey_toList]
  cases shown : pool.image.hyphenatedChars with
  | nil => simp [shown] at long
  | cons first rest =>
    have plain := (hyphenated_plain pool.image first (by simp [shown])).2.2
    simpa using plain

/-- Only the artifact brings slashes. -/
theorem slash_mem_snapshotKey [Crates] {pool : Pool}
    (digits : '/' ∉ (Crates.sha256 pool.preloadBytes).toList) :
    '/' ∈ (snapshotKey pool).toList ↔ '/' ∈ pool.artifactName.toList := by
  have image : '/' ∉ pool.image.hyphenatedChars := fun member => by
    simpa [Urls.slash] using (hyphenated_plain pool.image '/' member).1.1
  have number (n : Nat) : '/' ∉ n.repr.toList := by
    rw [Nat.toList_repr]
    intro member
    exact absurd (Nat.isDigit_of_mem_toDigits (by decide) (by decide) member) (by decide)
  have network : '/' ∉ if pool.network then "net1".toList else "none".toList := by
    split <;> decide
  have modules : '/' ∉ if pool.preload = [] then [] else '-' :: pool.preloadDigest := by
    split
    · exact List.not_mem_nil
    · simpa [Pool.preloadDigest] using fun member => digits (List.mem_of_mem_take member)
  have dash : '/' ≠ '-' := by decide
  simp only [snapshotKey_toList, Pool.keyEnd, List.mem_append, List.mem_cons, image, number, network,
    modules, dash, false_or, or_false]

def Source.key [Crates] (source : Source) : Key :=
  ⟨snapshotKey source.pool, source.component, snapshotKey_lasting source.pool⟩

inductive File where
  | state
  | memory
  | ready
  deriving DecidableEq

/-- The order in which `ready` looks for the files. -/
def File.next : File → Option File
  | state => some memory
  | memory => some ready
  | ready => none

/-- A directory, whatever its name: the key it was made for, and of each file that is there whether
it is whole. -/
structure Directory where
  key : Key
  file : File → Option Bool

/-- A file that Firecracker has opened. -/
structure Opened where
  inode : Nat
  whole : Bool

/-- A call of `ensure_snapshot`, and of the load that follows in `start_vm`. -/
inductive Call where
  /-- The next file that `ready` looks for. -/
  | looking (key : Key) (locked : Bool) (file : File)
  | waiting (key : Key)
  | missing (key : Key)
  | clearing (key : Key) (inode : Nat)
  | vacant (key : Key)
  /-- Firecracker boots and writes the snapshot. -/
  | making (key : Key) (inode : Nat)
  | made (key : Key) (inode : Nat)
  | marked (key : Key) (inode : Nat)
  | loading (key : Key)
  | opened (key : Key) (state : Opened)
  | loaded (key : Key) (state memory : Opened)

structure Node where
  directory : Nat → Directory
  /-- The number of directories there ever were. -/
  count : Nat
  /-- The directories that have the name of a snapshot. -/
  names : Key → Option Nat
  /-- A Firecracker process may write to the directory. It may outlive the node. -/
  writers : Nat → Bool
  call : Nat → Option Call
  /-- The call that holds the lock. -/
  holder : Option Nat
  /-- The directories that passes of `sync_snapshots` are removing. -/
  sweep : Nat → Option (Key × Nat)

inductive Label [Crates] where
  | enter (n : Nat) (source : Source)
  | look (n : Nat)
  | lock (n : Nat)
  | clear (n : Nat)
  | unlink (n : Nat) (file : File)
  | cleared (n : Nat)
  | create (n : Nat)
  | write (inode : Nat) (file : File) (whole : Bool)
  | answer (n : Nat)
  | mark (n : Nat)
  | rename (n : Nat)
  | load (n : Nat)
  /-- The call ends, with its result or an error at any point. -/
  | leave (n : Nat)
  | sweep (m : Nat) (key : Key)
  | sweepUnlink (m : Nat) (file : File)
  | swept (m : Nat)
  | abandon (m : Nat)
  /-- The process ends. -/
  | stop

namespace Node

/-- The data directory of a new node. -/
def started : Node :=
  ⟨fun _ => ⟨default, fun _ => none⟩, 0, fun _ => none, fun _ => false, fun _ => none, none, fun _ => none⟩

def lookup (s : Node) (key : Key) (file : File) : Option Opened :=
  (s.names key).bind (fun inode => ((s.directory inode).file file).map (⟨inode, ·⟩))

def become (s : Node) (n : Nat) (call : Call) : Node :=
  { s with call := Function.update s.call n (some call) }

def release (s : Node) (n : Nat) : Node :=
  { s with holder := if s.holder = some n then none else s.holder }

def put (s : Node) (inode : Nat) (file : File) (content : Option Bool) : Node :=
  let changed : Directory :=
    ⟨(s.directory inode).key, Function.update (s.directory inode).file file content⟩
  { s with directory := Function.update s.directory inode changed }

/-- A new directory, to which Firecracker may write. -/
def allocate (s : Node) (key : Key) : Node :=
  { s with
    directory := Function.update s.directory s.count ⟨key, fun _ => none⟩
    count := s.count + 1
    writers := Function.update s.writers s.count true }

def empty (s : Node) (inode : Nat) : Bool :=
  decide (∀ file ∈ [File.state, .memory, .ready], (s.directory inode).file file = none)

def step [Crates] (s : Node) : Label → Option Node
  | .enter n source =>
    match s.call n with
    | none => some (s.become n (.looking source.key false .state))
    | some _ => none
  | .look n =>
    match s.call n with
    | some (.looking key locked file) =>
      match s.lookup key file, file.next with
      | some _, some next => some (s.become n (.looking key locked next))
      | some _, none => some ((s.become n (.loading key)).release n)
      | none, _ => some (s.become n (if locked then .missing key else .waiting key))
    | _ => none
  | .lock n =>
    match s.call n, s.holder with
    | some (.waiting key), none =>
      some { s.become n (.looking key true .state) with holder := some n }
    | _, _ => none
  | .clear n =>
    match s.call n with
    | some (.missing key) =>
      match s.names key with
      | some inode => some (s.become n (.clearing key inode))
      | none => some (s.become n (.vacant key))
    | _ => none
  | .unlink n file =>
    match s.call n with
    | some (.clearing _ inode) => some (s.put inode file none)
    | _ => none
  | .cleared n =>
    match s.call n with
    | some (.clearing key _) =>
      match s.names key with
      | some found =>
        if s.empty found then
          some { s.become n (.vacant key) with names := Function.update s.names key none }
        else none
      | none => none
    | _ => none
  | .create n =>
    match s.call n with
    | some (.vacant key) =>
      some ((s.allocate key).become n (.making key s.count))
    | _ => none
  | .write inode file whole =>
    if s.writers inode = true ∧ file ≠ .ready then some (s.put inode file (some whole)) else none
  | .answer n =>
    match s.call n with
    | some (.making key inode) =>
      -- Firecracker answers when both files are written, and is killed
      if (s.directory inode).file .state = some true ∧
          (s.directory inode).file .memory = some true then
        some { s.become n (.made key inode) with
          writers := Function.update s.writers inode false }
      else none
    | _ => none
  | .mark n =>
    match s.call n with
    | some (.made key inode) => some ((s.put inode .ready (some true)).become n (.marked key inode))
    | _ => none
  | .rename n =>
    match s.call n with
    | some (.marked key inode) =>
      if (s.names key).all s.empty then
        some ({ s.become n (.loading key) with
          names := Function.update s.names key (some inode) }.release n)
      else none
    | _ => none
  | .load n =>
    match s.call n with
    | some (.loading key) => (s.lookup key .state).map (fun state => s.become n (.opened key state))
    | some (.opened key state) =>
      (s.lookup key .memory).map (fun memory => s.become n (.loaded key state memory))
    | _ => none
  | .leave n =>
    match s.call n with
    | some _ => some ({ s with call := Function.update s.call n none }.release n)
    | none => none
  | .sweep m key =>
    match s.names key, s.sweep m with
    | some inode, none => some { s with sweep := Function.update s.sweep m (some (key, inode)) }
    | _, _ => none
  | .sweepUnlink m file =>
    match s.sweep m with
    | some (_, inode) => some (s.put inode file none)
    | none => none
  | .swept m =>
    match s.sweep m with
    | some (key, _) =>
      match s.names key with
      | some found =>
        if s.empty found then
          some { s with
            names := Function.update s.names key none, sweep := Function.update s.sweep m none }
        else none
      | none => none
    | none => none
  | .abandon m => some { s with sweep := Function.update s.sweep m none }
  | .stop => some { s with call := fun _ => none, holder := none, sweep := fun _ => none }

def run [Crates] (s : Node) (labels : List Label) : Option Node := labels.foldlM step s

end Node

/-! What an operation changes. -/

section
variable {s t : Node}

@[simp] theorem put_key (inode other : Nat) (file : File) (content : Option Bool) :
    ((s.put inode file content).directory other).key = (s.directory other).key := by
  by_cases same : other = inode
  · subst same; simp [Node.put]
  · simp [Node.put, same]

theorem put_file (inode other : Nat) (file wanted : File) (content : Option Bool) :
    ((s.put inode file content).directory other).file wanted =
      if other = inode ∧ wanted = file then content else (s.directory other).file wanted := by
  by_cases same : other = inode
  · subst same
    by_cases equal : wanted = file
    · subst equal; simp [Node.put]
    · simp [Node.put, equal]
  · simp [Node.put, same]

theorem lookup_some {key : Key} {file : File} {found : Opened} :
    s.lookup key file = some found ↔ s.names key = some found.inode ∧
      (s.directory found.inode).file file = some found.whole := by
  rw [Node.lookup, Option.bind_eq_some_iff]
  constructor
  · rintro ⟨inode, named, there⟩
    obtain ⟨whole, held, rfl⟩ := Option.map_eq_some_iff.mp there
    exact ⟨named, held⟩
  · rintro ⟨named, held⟩
    exact ⟨found.inode, named, by rw [held]; rfl⟩

theorem lookup_none {key : Key} {file : File} :
    s.lookup key file = none ↔ ∀ inode, s.names key = some inode →
      (s.directory inode).file file = none := by
  cases named : s.names key <;> simp [Node.lookup, named]

/-- What an operation does, and when. -/
inductive Move [Crates] (s : Node) : Label → Node → Prop where
  | enter {n : Nat} {source : Source} (free : s.call n = none) :
      Move s (.enter n source) (s.become n (.looking source.key false .state))
  | sees {n : Nat} {key : Key} {locked : Bool} {file next : File} {found : Opened}
      (there : s.call n = some (.looking key locked file)) (sees : s.lookup key file = some found)
      (later : file.next = some next) : Move s (.look n) (s.become n (.looking key locked next))
  | seesAll {n : Nat} {key : Key} {locked : Bool} {file : File} {found : Opened}
      (there : s.call n = some (.looking key locked file)) (sees : s.lookup key file = some found)
      (last : file.next = none) : Move s (.look n) ((s.become n (.loading key)).release n)
  | misses {n : Nat} {key : Key} {locked : Bool} {file : File}
      (there : s.call n = some (.looking key locked file)) (misses : s.lookup key file = none) :
      Move s (.look n) (s.become n (if locked then .missing key else .waiting key))
  | lock {n : Nat} {key : Key} (there : s.call n = some (.waiting key)) (free : s.holder = none) :
      Move s (.lock n) { s.become n (.looking key true .state) with holder := some n }
  | clear {n : Nat} {key : Key} {inode : Nat} (there : s.call n = some (.missing key))
      (named : s.names key = some inode) : Move s (.clear n) (s.become n (.clearing key inode))
  | vacant {n : Nat} {key : Key} (there : s.call n = some (.missing key))
      (unnamed : s.names key = none) : Move s (.clear n) (s.become n (.vacant key))
  | unlink {n : Nat} {file : File} {key : Key} {inode : Nat}
      (there : s.call n = some (.clearing key inode)) :
      Move s (.unlink n file) (s.put inode file none)
  | cleared {n : Nat} {key : Key} {inode found : Nat} (there : s.call n = some (.clearing key inode))
      (named : s.names key = some found) (empty : s.empty found = true) :
      Move s (.cleared n)
        { s.become n (.vacant key) with names := Function.update s.names key none }
  | create {n : Nat} {key : Key} (there : s.call n = some (.vacant key)) :
      Move s (.create n) ((s.allocate key).become n (.making key s.count))
  | write {inode : Nat} {file : File} {whole : Bool} (writes : s.writers inode = true)
      (other : file ≠ .ready) : Move s (.write inode file whole) (s.put inode file (some whole))
  | answer {n : Nat} {key : Key} {inode : Nat} (there : s.call n = some (.making key inode))
      (state : (s.directory inode).file .state = some true)
      (memory : (s.directory inode).file .memory = some true) :
      Move s (.answer n)
        { s.become n (.made key inode) with writers := Function.update s.writers inode false }
  | mark {n : Nat} {key : Key} {inode : Nat} (there : s.call n = some (.made key inode)) :
      Move s (.mark n) ((s.put inode .ready (some true)).become n (.marked key inode))
  | rename {n : Nat} {key : Key} {inode : Nat} (there : s.call n = some (.marked key inode))
      (room : ∀ found, s.names key = some found → s.empty found = true) :
      Move s (.rename n) ({ s.become n (.loading key) with
        names := Function.update s.names key (some inode) }.release n)
  | loadState {n : Nat} {key : Key} {state : Opened} (there : s.call n = some (.loading key))
      (opens : s.lookup key .state = some state) : Move s (.load n) (s.become n (.opened key state))
  | loadMemory {n : Nat} {key : Key} {state memory : Opened}
      (there : s.call n = some (.opened key state)) (opens : s.lookup key .memory = some memory) :
      Move s (.load n) (s.become n (.loaded key state memory))
  | leave {n : Nat} {call : Call} (there : s.call n = some call) :
      Move s (.leave n) ({ s with call := Function.update s.call n none }.release n)
  | sweep {m : Nat} {key : Key} {inode : Nat} (named : s.names key = some inode) :
      Move s (.sweep m key) { s with sweep := Function.update s.sweep m (some (key, inode)) }
  | sweepUnlink {m : Nat} {file : File} {key : Key} {inode : Nat}
      (removes : s.sweep m = some (key, inode)) : Move s (.sweepUnlink m file) (s.put inode file none)
  | swept {m : Nat} {key : Key} {inode found : Nat} (removes : s.sweep m = some (key, inode))
      (named : s.names key = some found) (empty : s.empty found = true) :
      Move s (.swept m)
        { s with names := Function.update s.names key none, sweep := Function.update s.sweep m none }
  | abandon {m : Nat} : Move s (.abandon m) { s with sweep := Function.update s.sweep m none }
  | stop : Move s .stop { s with call := fun _ => none, holder := none, sweep := fun _ => none }

theorem step_cases [Crates] {label : Label} (stepped : s.step label = some t) : Move s label t := by
  cases label with
  | enter n source =>
    simp only [Node.step] at stepped
    split at stepped <;> cases stepped
    exact .enter ‹_›
  | look n =>
    simp only [Node.step] at stepped
    split at stepped
    · split at stepped <;> cases stepped
      · exact .sees ‹_› ‹_› ‹_›
      · exact .seesAll ‹_› ‹_› ‹_›
      · exact .misses ‹_› ‹_›
    · cases stepped
  | lock n =>
    simp only [Node.step] at stepped
    split at stepped <;> cases stepped
    exact .lock ‹_› ‹_›
  | clear n =>
    simp only [Node.step] at stepped
    split at stepped
    · split at stepped <;> cases stepped
      · exact .clear ‹_› ‹_›
      · exact .vacant ‹_› ‹_›
    · cases stepped
  | unlink n file =>
    simp only [Node.step] at stepped
    split at stepped <;> cases stepped
    exact .unlink ‹_›
  | cleared n =>
    simp only [Node.step] at stepped
    split at stepped
    · split at stepped
      · split at stepped <;> cases stepped
        exact .cleared ‹_› ‹_› ‹_›
      · cases stepped
    · cases stepped
  | create n =>
    simp only [Node.step] at stepped
    split at stepped <;> cases stepped
    exact .create ‹_›
  | write inode file whole =>
    simp only [Node.step] at stepped
    split at stepped <;> cases stepped
    rename_i both
    exact .write both.1 both.2
  | answer n =>
    simp only [Node.step] at stepped
    split at stepped
    · split at stepped <;> cases stepped
      rename_i both
      exact .answer ‹_› both.1 both.2
    · cases stepped
  | mark n =>
    simp only [Node.step] at stepped
    split at stepped <;> cases stepped
    exact .mark ‹_›
  | rename n =>
    simp only [Node.step] at stepped
    split at stepped
    · split at stepped <;> cases stepped
      rename_i room
      exact .rename ‹_› (fun found named => by simpa [named] using room)
    · cases stepped
  | load n =>
    simp only [Node.step] at stepped
    split at stepped
    · obtain ⟨state, opens, rfl⟩ := Option.map_eq_some_iff.mp stepped
      exact .loadState ‹_› opens
    · obtain ⟨memory, opens, rfl⟩ := Option.map_eq_some_iff.mp stepped
      exact .loadMemory ‹_› opens
    · cases stepped
  | leave n =>
    simp only [Node.step] at stepped
    split at stepped <;> cases stepped
    exact .leave ‹_›
  | sweep m key =>
    simp only [Node.step] at stepped
    split at stepped <;> cases stepped
    exact .sweep ‹_›
  | sweepUnlink m file =>
    simp only [Node.step] at stepped
    split at stepped <;> cases stepped
    exact .sweepUnlink ‹_›
  | swept m =>
    simp only [Node.step] at stepped
    split at stepped
    · split at stepped
      · split at stepped <;> cases stepped
        exact .swept ‹_› ‹_› ‹_›
      · cases stepped
    · cases stepped
  | abandon m => cases stepped; exact .abandon
  | stop => cases stepped; exact .stop

end

/-! Whole files. -/

/-- The call holds the lock. -/
def Call.locks : Call → Bool
  | .looking _ locked _ => locked
  | .missing _ | .clearing .. | .vacant _ | .making .. | .made .. | .marked .. => true
  | _ => false

/-- The directory that has not its name yet. -/
def Call.nameless : Call → Option (Key × Nat)
  | .making key inode | .made key inode | .marked key inode => some (key, inode)
  | _ => none

/-- The directory was made for the key. -/
def Node.For (s : Node) (key : Key) (inode : Nat) : Prop :=
  inode < s.count ∧ (s.directory inode).key = key

/-- The directory has no name, and nothing is removing it. -/
def Node.Apart (s : Node) (inode : Nat) : Prop :=
  (∀ key, s.names key ≠ some inode) ∧ ∀ m key, s.sweep m ≠ some (key, inode)

/-- An open file is whole, and of a directory for the key. -/
def Node.Open (s : Node) (key : Key) (file : Opened) : Prop :=
  file.whole = true ∧ s.For key file.inode

/-- What holds for a call. -/
def Node.Fits (s : Node) (n : Nat) : Call → Prop
  | .looking _ locked _ => locked = true → s.holder = some n
  | .waiting _ | .loading _ => True
  | .missing _ | .vacant _ => s.holder = some n
  | .clearing key inode => s.holder = some n ∧ s.For key inode
  | .making key inode => s.holder = some n ∧ s.For key inode ∧ s.Apart inode
  | .made key inode => s.holder = some n ∧ s.For key inode ∧ s.Apart inode ∧
      s.writers inode = false ∧ (s.directory inode).file .state = some true ∧
      (s.directory inode).file .memory = some true
  | .marked key inode => s.holder = some n ∧ s.For key inode ∧ s.Apart inode ∧
      s.writers inode = false ∧ ∀ file, (s.directory inode).file file = some true
  | .opened key state => s.Open key state
  | .loaded key state memory => s.Open key state ∧ s.Open key memory

structure Sound (s : Node) : Prop where
  named : ∀ key inode, s.names key = some inode → s.For key inode ∧ s.writers inode = false ∧
    ∀ file whole, (s.directory inode).file file = some whole → whole = true
  writers : ∀ inode, s.writers inode = true → inode < s.count
  sweeps : ∀ m key inode, s.sweep m = some (key, inode) → s.For key inode
  calls : ∀ n call, s.call n = some call → s.Fits n call

variable {s t : Node} {n inode : Nat} {key : Key} {file : File} {call : Call}

theorem Node.Fits.holder (fits : s.Fits n call) (locks : call.locks = true) : s.holder = some n := by
  cases call <;> simp_all [Node.Fits, Call.locks]

theorem Node.Fits.nameless (fits : s.Fits n call) (holds : call.nameless = some (key, inode)) :
    s.For key inode ∧ s.Apart inode := by
  cases call <;> simp_all [Node.Fits, Call.nameless]

/-- The fields that a call relies on may change, as long as its own directory stays as it is. -/
theorem Node.Fits.frame (fits : s.Fits n call) (holder : call.locks = true → t.holder = some n)
    (stays : ∀ key inode, s.For key inode → t.For key inode)
    (own : ∀ key inode, call.nameless = some (key, inode) → t.Apart inode ∧
      (s.writers inode = false → t.writers inode = false) ∧
      ∀ file, (s.directory inode).file file = some true → (t.directory inode).file file = some true) :
    t.Fits n call := by
  cases call with
  | looking key locked file => exact holder
  | waiting => trivial
  | loading => trivial
  | missing => exact holder rfl
  | vacant => exact holder rfl
  | clearing key inode => exact ⟨holder rfl, stays _ _ fits.2⟩
  | making key inode => exact ⟨holder rfl, stays _ _ fits.2.1, (own _ _ rfl).1⟩
  | made key inode =>
    obtain ⟨-, made, -, quiet, state, memory⟩ := fits
    obtain ⟨apart, writers, files⟩ := own _ _ rfl
    exact ⟨holder rfl, stays _ _ made, apart, writers quiet, files _ state, files _ memory⟩
  | marked key inode =>
    obtain ⟨-, made, -, quiet, all⟩ := fits
    obtain ⟨apart, writers, files⟩ := own _ _ rfl
    exact ⟨holder rfl, stays _ _ made, apart, writers quiet, fun file => files _ (all file)⟩
  | opened key state => exact ⟨fits.1, stays _ _ fits.2⟩
  | loaded key state memory =>
    exact ⟨⟨fits.1.1, stays _ _ fits.1.2⟩, fits.2.1, stays _ _ fits.2.2⟩

/-- Two calls do not hold the lock. -/
theorem Sound.alone {other : Nat} {call' : Call} (sound : Sound s) (there : s.call n = some call)
    (there' : s.call other = some call') (locks : call.locks = true) (locks' : call'.locks = true) :
    other = n := by
  have one := (sound.calls n call there).holder locks
  have two := (sound.calls other call' there').holder locks'
  exact Option.some.inj (two.symm.trans one)

/-! One operation. -/

theorem become_sound (sound : Sound s) (fits : s.Fits n call) : Sound (s.become n call) where
  named := sound.named
  writers := sound.writers
  sweeps := sound.sweeps
  calls other call' there := by
    by_cases same : other = n
    · subst same
      simp only [Node.become, Function.update_self, Option.some.injEq] at there
      subst there
      exact fits
    · simp only [Node.become, Function.update_of_ne same] at there
      exact sound.calls other call' there

theorem forget_sound (sound : Sound s) :
    Sound { s with call := Function.update s.call n none } where
  named := sound.named
  writers := sound.writers
  sweeps := sound.sweeps
  calls other call' there := by
    by_cases same : other = n
    · simp [same] at there
    · simp only [Function.update_of_ne same] at there
      exact sound.calls other call' there

theorem release_sound (sound : Sound s) (free : ∀ call, s.call n = some call → call.locks = false) :
    Sound (s.release n) where
  named := sound.named
  writers := sound.writers
  sweeps := sound.sweeps
  calls other call there := by
    refine (sound.calls other call there).frame (fun locks => ?_) (fun _ _ made => made)
      (fun _ _ own => ⟨((sound.calls other call there).nameless own).2, id, fun _ => id⟩)
    have held := (sound.calls other call there).holder locks
    have different : other ≠ n := by
      rintro rfl
      rw [free call there] at locks
      cases locks
    simp [Node.release, held, different]

theorem put_for {other : Nat} {content : Option Bool} :
    (s.put inode file content).For key other ↔ s.For key other := by
  rw [Node.For, Node.For, put_key]
  rfl

/-- A file of a directory that has a name, or had one, is removed. -/
theorem unlink_sound (sound : Sound s)
    (published : ∀ n call key, s.call n = some call → call.nameless ≠ some (key, inode)) :
    Sound (s.put inode file none) where
  named key other there := by
    obtain ⟨made, quiet, whole⟩ := sound.named key other there
    refine ⟨put_for.mpr made, quiet, fun wanted content held => ?_⟩
    rw [put_file] at held
    split at held
    · cases held
    · exact whole wanted content held
  writers := sound.writers
  sweeps m key other there := put_for.mpr (sound.sweeps m key other there)
  calls n call there := by
    refine (sound.calls n call there).frame (sound.calls n call there).holder
      (fun _ _ made => put_for.mpr made) (fun key other own => ?_)
    have different : other ≠ inode := by
      rintro rfl
      exact published n call key there own
    refine ⟨((sound.calls n call there).nameless own).2, id, fun wanted held => ?_⟩
    rw [put_file, if_neg (fun both => different both.1)]
    exact held

/-- Firecracker writes to a directory. -/
theorem write_sound {whole : Bool} (sound : Sound s) (writes : s.writers inode = true) :
    Sound (s.put inode file (some whole)) where
  named key other there := by
    obtain ⟨made, quiet, all⟩ := sound.named key other there
    have different : other ≠ inode := by
      rintro rfl
      simp [quiet] at writes
    refine ⟨put_for.mpr made, quiet, fun wanted content held => ?_⟩
    rw [put_file, if_neg (fun both => different both.1)] at held
    exact all wanted content held
  writers := sound.writers
  sweeps m key other there := put_for.mpr (sound.sweeps m key other there)
  calls n call there := by
    have fits := sound.calls n call there
    cases call with
    | making key other => exact ⟨fits.1, put_for.mpr fits.2.1, fits.2.2⟩
    | made key other =>
      have different : other ≠ inode := by
        rintro rfl
        simp [fits.2.2.2.1] at writes
      refine fits.frame (fun _ => fits.1) (fun _ _ made => put_for.mpr made) ?_
      rintro _ _ ⟨⟩
      refine ⟨fits.2.2.1, id, fun wanted held => ?_⟩
      rwa [put_file, if_neg (fun both => different both.1)]
    | marked key other =>
      have different : other ≠ inode := by
        rintro rfl
        simp [fits.2.2.2.1] at writes
      refine fits.frame (fun _ => fits.1) (fun _ _ made => put_for.mpr made) ?_
      rintro _ _ ⟨⟩
      refine ⟨fits.2.2.1, id, fun wanted held => ?_⟩
      rwa [put_file, if_neg (fun both => different both.1)]
    | _ => exact fits.frame fits.holder (fun _ _ made => put_for.mpr made) (by rintro _ _ ⟨⟩)

theorem unname_sound (sound : Sound s) :
    Sound { s with names := Function.update s.names key none } where
  named other inode there := by
    by_cases same : other = key
    · simp [same] at there
    · simp only [Function.update_of_ne same] at there
      exact sound.named other inode there
  writers := sound.writers
  sweeps := sound.sweeps
  calls n call there := by
    have fits := sound.calls n call there
    refine fits.frame fits.holder (fun _ _ made => made) (fun _ inode own => ⟨⟨?_, ?_⟩, id, fun _ => id⟩)
    · intro other named
      by_cases same : other = key
      · simp [same] at named
      · simp only [Function.update_of_ne same] at named
        exact (fits.nameless own).2.1 other named
    · exact (fits.nameless own).2.2

/-- A directory gets its name. -/
theorem name_sound (sound : Sound s) (made : s.For key inode) (quiet : s.writers inode = false)
    (whole : ∀ file, (s.directory inode).file file = some true)
    (published : ∀ n call key, s.call n = some call → call.nameless ≠ some (key, inode)) :
    Sound { s with names := Function.update s.names key (some inode) } where
  named other found there := by
    by_cases same : other = key
    · simp only [same, Function.update_self, Option.some.injEq] at there
      subst there same
      exact ⟨made, quiet, fun file content held => by simpa [whole file] using held.symm⟩
    · simp only [Function.update_of_ne same] at there
      exact sound.named other found there
  writers := sound.writers
  sweeps := sound.sweeps
  calls n call there := by
    have fits := sound.calls n call there
    refine fits.frame fits.holder (fun _ _ made => made) (fun owner found own => ⟨⟨?_, ?_⟩, id, fun _ => id⟩)
    · intro other named
      by_cases same : other = key
      · simp only [same, Function.update_self, Option.some.injEq] at named
        subst named
        exact published n call owner there own
      · simp only [Function.update_of_ne same] at named
        exact (fits.nameless own).2.1 other named
    · exact (fits.nameless own).2.2

/-- A file is finished in a directory that has no name. -/
theorem finish_sound (sound : Sound s) (unnamed : ∀ key, s.names key ≠ some inode) :
    Sound (s.put inode file (some true)) where
  named key other there := by
    obtain ⟨made, quiet, all⟩ := sound.named key other there
    have different : other ≠ inode := by
      rintro rfl
      exact unnamed key there
    refine ⟨put_for.mpr made, quiet, fun wanted content held => ?_⟩
    rw [put_file, if_neg (fun both => different both.1)] at held
    exact all wanted content held
  writers := sound.writers
  sweeps m key other there := put_for.mpr (sound.sweeps m key other there)
  calls n call there := by
    have fits := sound.calls n call there
    refine fits.frame fits.holder (fun _ _ made => put_for.mpr made)
      (fun _ other own => ⟨(fits.nameless own).2, id, fun wanted held => ?_⟩)
    rw [put_file]
    split
    · rfl
    · exact held

theorem allocate_for {other : Key} (made : s.For other inode) : (s.allocate key).For other inode := by
  refine ⟨Nat.lt_succ_of_lt made.1, ?_⟩
  simpa [Node.allocate, Function.update_of_ne made.1.ne] using made.2

theorem allocate_sound (sound : Sound s) : Sound (s.allocate key) where
  named other inode there := by
    obtain ⟨made, quiet, whole⟩ := sound.named other inode there
    refine ⟨allocate_for made, ?_, ?_⟩
    · simpa [Node.allocate, Function.update_of_ne made.1.ne] using quiet
    · simpa [Node.allocate, Function.update_of_ne made.1.ne] using whole
  writers inode writes := by
    by_cases same : inode = s.count
    · simp [same, Node.allocate]
    · simp only [Node.allocate, Function.update_of_ne same] at writes
      exact Nat.lt_succ_of_lt (sound.writers inode writes)
  sweeps m other inode there := allocate_for (sound.sweeps m other inode there)
  calls n call there := by
    have fits := sound.calls n call there
    refine fits.frame fits.holder (fun _ _ => allocate_for) (fun _ inode own => ?_)
    obtain ⟨made, apart⟩ := fits.nameless own
    refine ⟨apart, fun quiet => ?_, fun file held => ?_⟩
    · simpa [Node.allocate, Function.update_of_ne made.1.ne] using quiet
    · simpa [Node.allocate, Function.update_of_ne made.1.ne] using held

theorem quiet_sound (sound : Sound s) :
    Sound { s with writers := Function.update s.writers inode false } where
  named key other there := by
    obtain ⟨made, quiet, whole⟩ := sound.named key other there
    exact ⟨made, by simp [Function.update_apply, quiet], whole⟩
  writers other writes := by
    simp only [Function.update_apply] at writes
    split at writes
    · cases writes
    · exact sound.writers other writes
  sweeps := sound.sweeps
  calls n call there := by
    have fits := sound.calls n call there
    exact fits.frame fits.holder (fun _ _ made => made) (fun _ other own =>
      ⟨(fits.nameless own).2, fun quiet => by simp [Function.update_apply, quiet], fun _ => id⟩)

theorem sweep_sound {m : Nat} (sound : Sound s) (named : s.names key = some inode) :
    Sound { s with sweep := Function.update s.sweep m (some (key, inode)) } where
  named := sound.named
  writers := sound.writers
  sweeps other owner found there := by
    by_cases same : other = m
    · simp only [same, Function.update_self, Option.some.injEq] at there
      cases there
      exact (sound.named key inode named).1
    · simp only [Function.update_of_ne same] at there
      exact sound.sweeps other owner found there
  calls n call there := by
    have fits := sound.calls n call there
    refine fits.frame fits.holder (fun _ _ made => made)
      (fun _ found own => ⟨⟨(fits.nameless own).2.1, fun other owner removes => ?_⟩, id, fun _ => id⟩)
    by_cases same : other = m
    · simp only [same, Function.update_self, Option.some.injEq] at removes
      cases removes
      exact (fits.nameless own).2.1 key named
    · simp only [Function.update_of_ne same] at removes
      exact (fits.nameless own).2.2 other owner removes

theorem abandon_sound {m : Nat} (sound : Sound s) :
    Sound { s with sweep := Function.update s.sweep m none } where
  named := sound.named
  writers := sound.writers
  sweeps other owner found there := by
    by_cases same : other = m
    · simp [same] at there
    · simp only [Function.update_of_ne same] at there
      exact sound.sweeps other owner found there
  calls n call there := by
    have fits := sound.calls n call there
    refine fits.frame fits.holder (fun _ _ made => made)
      (fun _ found own => ⟨⟨(fits.nameless own).2.1, fun other owner removes => ?_⟩, id, fun _ => id⟩)
    by_cases same : other = m
    · simp [same] at removes
    · simp only [Function.update_of_ne same] at removes
      exact (fits.nameless own).2.2 other owner removes

theorem seize_sound (sound : Sound s) (free : s.holder = none) :
    Sound { s with holder := some n } where
  named := sound.named
  writers := sound.writers
  sweeps := sound.sweeps
  calls other call there := by
    have fits := sound.calls other call there
    refine fits.frame (fun locks => ?_) (fun _ _ made => made)
      (fun _ _ own => ⟨(fits.nameless own).2, id, fun _ => id⟩)
    have held := fits.holder locks
    rw [free] at held
    cases held

/-- Only the call that holds the lock has a directory without a name. -/
theorem Sound.lone (sound : Sound s) (there : s.call n = some call) (locks : call.locks = true)
    (named : call.nameless ≠ some (key, inode)) :
    ∀ other call', s.call other = some call' → call'.nameless ≠ some (key, inode) := by
  intro other call' there' own
  have locks' : call'.locks = true := by cases call' <;> simp_all [Call.nameless, Call.locks]
  obtain rfl := sound.alone there there' locks locks'
  rw [there] at there'
  cases there'
  exact named own

theorem step_sound [Crates] {label : Label} (sound : Sound s) (stepped : s.step label = some t) : Sound t := by
  cases step_cases stepped with
  | enter => exact become_sound sound (by simp [Node.Fits])
  | sees there =>
    have fits := sound.calls _ _ there
    exact become_sound sound fits
  | seesAll there =>
    refine release_sound (become_sound sound trivial) (fun call now => ?_)
    simp only [Node.become, Function.update_self, Option.some.injEq] at now
    rw [← now]
    rfl
  | @misses n key locked file there =>
    cases locked with
    | false => exact become_sound sound trivial
    | true => exact become_sound sound (sound.calls _ _ there rfl)
  | @lock n key there free => exact become_sound (seize_sound sound free) (fun _ => rfl)
  | @clear n key inode there named =>
    exact become_sound sound ⟨sound.calls _ _ there, (sound.named key inode named).1⟩
  | vacant there =>
    have fits := sound.calls _ _ there
    exact become_sound sound fits
  | unlink there =>
    exact unlink_sound sound (fun other call' key =>
      sound.lone there rfl (by simp [Call.nameless]) other call')
  | @cleared n key inode found there =>
    exact become_sound (unname_sound sound) (sound.calls _ _ there).1
  | @create n key there =>
    refine become_sound (allocate_sound sound) ⟨sound.calls _ _ there, ⟨Nat.lt_succ_self _, ?_⟩, ?_, ?_⟩
    · simp [Node.allocate]
    · exact fun other named => (sound.named other _ named).1.1.false
    · exact fun m other removes => (sound.sweeps m other _ removes).1.false
  | write writes => exact write_sound sound writes
  | @answer n key inode there state memory =>
    obtain ⟨held, made, apart⟩ := sound.calls _ _ there
    exact become_sound (quiet_sound sound) ⟨held, made, apart, by simp, state, memory⟩
  | @mark n key inode there =>
    obtain ⟨held, made, apart, quiet, state, memory⟩ := sound.calls _ _ there
    refine become_sound (finish_sound sound apart.1) ⟨held, put_for.mpr made, apart, quiet, ?_⟩
    intro file
    cases file <;> simp [put_file, state, memory]
  | @rename n key inode there room =>
    obtain ⟨held, made, apart, quiet, all⟩ := sound.calls _ _ there
    have served : Sound (s.become n (.loading key)) := become_sound sound trivial
    have now (call : Call) (after : (s.become n (.loading key)).call n = some call) :
        call = .loading key := by
      simpa [Node.become, eq_comm] using after
    refine release_sound (name_sound served made quiet all (fun other call owner after own => ?_))
      (fun call after => by rw [now call after]; rfl)
    by_cases same : other = n
    · subst same
      rw [now call after] at own
      cases own
    · simp only [Node.become, Function.update_of_ne same] at after
      have locks : call.locks = true := by cases call <;> simp_all [Call.nameless, Call.locks]
      exact same (sound.alone there after rfl locks)
  | @loadState n key state there opens =>
    obtain ⟨named, content⟩ := lookup_some.mp opens
    obtain ⟨made, -, whole⟩ := sound.named _ _ named
    exact become_sound sound ⟨whole _ _ content, made⟩
  | @loadMemory n key state memory there opens =>
    obtain ⟨named, content⟩ := lookup_some.mp opens
    obtain ⟨made, -, whole⟩ := sound.named _ _ named
    exact become_sound sound ⟨sound.calls _ _ there, whole _ _ content, made⟩
  | leave =>
    refine release_sound (forget_sound sound) (fun call now => ?_)
    simp at now
  | sweep named => exact sweep_sound sound named
  | @sweepUnlink m file key inode removes =>
    refine unlink_sound sound (fun n call owner there own => ?_)
    exact ((sound.calls n call there).nameless own).2.2 m key removes
  | swept => exact abandon_sound (unname_sound sound)
  | abandon => exact abandon_sound sound
  | stop =>
    exact ⟨sound.named, sound.writers, fun _ _ _ removes => (by cases removes),
      fun _ _ there => (by cases there)⟩

theorem run_sound [Crates] {labels : List Label} (sound : Sound s) (ran : s.run labels = some t) : Sound t := by
  induction labels generalizing s with
  | nil =>
    cases ran
    exact sound
  | cons label rest ih =>
    rw [Node.run, List.foldlM_cons, Option.bind_eq_bind, Option.bind_eq_some_iff] at ran
    obtain ⟨next, stepped, later⟩ := ran
    exact ih (step_sound sound stepped) later

theorem started_sound : Sound Node.started where
  named _ _ named := by cases named
  writers _ writes := by cases writes
  sweeps _ _ _ removes := by cases removes
  calls _ _ there := by cases there

/-! A snapshot that stays. -/

/-- The snapshot has its name and all its files. -/
def Node.Complete (s : Node) (key : Key) (inode : Nat) : Prop :=
  s.names key = some inode ∧ ∀ file, (s.directory inode).file file = some true

/-- The directory with the name of the snapshot lacks a file, if there is one. -/
def Node.Lacks (s : Node) (key : Key) : Prop :=
  ∀ inode, s.names key = some inode → ∃ file, (s.directory inode).file file = none

/-- What a call for the key relies on, while no pass removes the snapshot. -/
def Node.Serves (s : Node) (key : Key) : Call → Prop
  | .looking _ _ .state | .waiting _ => True
  | .looking _ _ .memory => ∀ inode, s.names key = some inode →
      (s.directory inode).file .memory ≠ none → (s.directory inode).file .ready ≠ none →
      (s.directory inode).file .state ≠ none
  | .looking _ _ .ready => ∀ inode, s.names key = some inode →
      (s.directory inode).file .ready ≠ none → ∀ file, (s.directory inode).file file ≠ none
  | .missing _ => s.Lacks key
  | .clearing _ inode => s.names key = some inode ∧ s.Lacks key
  | .vacant _ | .making .. | .made .. | .marked .. => s.names key = none
  | .loading _ => ∃ inode, s.Complete key inode
  | .opened _ state => s.Complete key state.inode
  | .loaded _ state memory => state.inode = memory.inode

def Call.wants : Call → Key
  | .looking key .. | .waiting key | .missing key | .clearing key _ | .vacant key | .making key _
  | .made key _ | .marked key _ | .loading key | .opened key _ | .loaded key .. => key

/-- No pass removes the snapshot, and the calls for it can rely on that. -/
structure Kept (key : Key) (s : Node) : Prop where
  sound : Sound s
  sweeps : ∀ m inode, s.sweep m ≠ some (key, inode)
  calls : ∀ n call, s.call n = some call → call.wants = key → s.Serves key call

/-- What a step does to the snapshot: nothing; it removes files of one that lacks some; or it gives a
complete one its name. -/
inductive Change (key : Key) (s t : Node) : Prop where
  | same (names : t.names key = s.names key) (files : ∀ inode, s.names key = some inode →
      (t.directory inode).file = (s.directory inode).file)
  | shrinks (lacks : s.Lacks key) (names : ∀ inode, t.names key = some inode →
      s.names key = some inode ∧ ∀ file, (s.directory inode).file file = none →
        (t.directory inode).file file = none)
  | new (unnamed : s.names key = none) (inode : Nat) (complete : t.Complete key inode)

theorem Change.complete (change : Change key s t) (complete : s.Complete key inode) :
    t.Complete key inode := by
  cases change with
  | same names files =>
    exact ⟨names.trans complete.1, fun file => by rw [files inode complete.1]; exact complete.2 file⟩
  | shrinks lacks =>
    obtain ⟨file, missing⟩ := lacks inode complete.1
    simp [complete.2 file] at missing
  | new unnamed => exact absurd complete.1 (by simp [unnamed])

theorem Node.Serves.same (serves : s.Serves key call) (names : t.names key = s.names key)
    (files : ∀ inode, s.names key = some inode →
      (t.directory inode).file = (s.directory inode).file) : t.Serves key call := by
  have complete (inode : Nat) (complete : s.Complete key inode) : t.Complete key inode :=
    (Change.same names files).complete complete
  have lacks (lacks : s.Lacks key) : t.Lacks key := fun inode named => by
    rw [names] at named
    rw [files inode named]
    exact lacks inode named
  cases call with
  | looking wanted locked file =>
    cases file with
    | state => trivial
    | memory =>
      intro inode named
      rw [names] at named
      rw [files inode named]
      exact serves inode named
    | ready =>
      intro inode named
      rw [names] at named
      rw [files inode named]
      exact serves inode named
  | waiting => trivial
  | missing => exact lacks serves
  | clearing => exact ⟨names.trans serves.1, lacks serves.2⟩
  | vacant | making | made | marked => exact names.trans serves
  | loading =>
    obtain ⟨inode, there⟩ := serves
    exact ⟨inode, complete inode there⟩
  | opened => exact complete _ serves
  | loaded => exact serves

/-- A call without the lock bears what the holder of the lock does. -/
theorem Node.Serves.change (serves : s.Serves key call) (change : Change key s t)
    (unlocked : call.locks = false) : t.Serves key call := by
  cases change with
  | same names files => exact serves.same names files
  | shrinks lacks shrinks =>
    have incomplete (inode : Nat) (complete : s.Complete key inode) : False := by
      obtain ⟨file, missing⟩ := lacks inode complete.1
      simp [complete.2 file] at missing
    have kept {inode : Nat} {file : File} (named : t.names key = some inode)
        (there : (t.directory inode).file file ≠ none) : (s.directory inode).file file ≠ none :=
      mt ((shrinks inode named).2 file) there
    have partly {inode : Nat} (named : t.names key = some inode)
        (all : ∀ file, (s.directory inode).file file ≠ none) : False := by
      obtain ⟨file, missing⟩ := lacks inode (shrinks inode named).1
      exact all file missing
    cases call with
    | looking wanted locked file =>
      cases file with
      | state => trivial
      | memory =>
        intro inode named memory ready
        refine (partly named (fun file => ?_)).elim
        cases file with
        | state => exact serves inode (shrinks inode named).1 (kept named memory) (kept named ready)
        | memory => exact kept named memory
        | ready => exact kept named ready
      | ready =>
        intro inode named ready
        exact (partly named (serves inode (shrinks inode named).1 (kept named ready))).elim
    | waiting => trivial
    | loading =>
      obtain ⟨inode, there⟩ := serves
      exact (incomplete inode there).elim
    | opened => exact (incomplete _ serves).elim
    | loaded => exact serves
    | _ => cases unlocked
  | new unnamed inode complete =>
    have whole (found : Nat) (named : t.names key = some found) (file : File) :
        (t.directory found).file file ≠ none := by
      obtain rfl := Option.some.inj (named.symm.trans complete.1)
      simp [complete.2 file]
    cases call with
    | looking wanted locked file =>
      cases file with
      | state => trivial
      | memory => exact fun found named _ _ => whole found named .state
      | ready => exact fun found named _ => whole found named
    | waiting => trivial
    | loading => exact ⟨inode, complete⟩
    | opened => exact absurd serves.1 (by simp [unnamed])
    | loaded => exact serves
    | _ => cases unlocked

theorem put_other {other : Nat} {content : Option Bool} (different : other ≠ inode) :
    (s.put inode file content).directory other = s.directory other := by
  simp [Node.put, different]

theorem become_call {other : Nat} {call' : Call} (there : (s.become n call).call other = some call') :
    s.call other = some call' ∨ other = n ∧ call' = call := by
  by_cases same : other = n
  · subst same
    simp only [Node.become, Function.update_self, Option.some.injEq] at there
    exact .inr ⟨rfl, there.symm⟩
  · simp only [Node.become, Function.update_of_ne same] at there
    exact .inl there

/-- A step that leaves the snapshot alone. -/
theorem Kept.same (kept : Kept key s) (sound : Sound t) (names : t.names key = s.names key)
    (files : ∀ inode, s.names key = some inode →
      (t.directory inode).file = (s.directory inode).file)
    (sweeps : ∀ m inode, t.sweep m = some (key, inode) → s.sweep m = some (key, inode))
    (calls : ∀ n call, t.call n = some call →
      s.call n = some call ∨ (call.wants = key → s.Serves key call)) :
    Kept key t ∧ Change key s t := by
  refine ⟨⟨sound, fun m inode removes => kept.sweeps m inode (sweeps m inode removes), ?_⟩,
    .same names files⟩
  intro n call there wants
  rcases calls n call there with before | serves
  · exact (kept.calls n call before wants).same names files
  · exact (serves wants).same names files

/-- A step that moves one call on, and leaves the snapshot alone. -/
theorem Kept.advance (kept : Kept key s) (sound : Sound t) (names : t.names key = s.names key)
    (files : ∀ inode, s.names key = some inode →
      (t.directory inode).file = (s.directory inode).file)
    (sweeps : t.sweep = s.sweep) (calls : t.call = (s.become n call).call)
    (serves : call.wants = key → s.Serves key call) : Kept key t ∧ Change key s t := by
  refine kept.same sound names files (fun m inode removes => sweeps ▸ removes)
    (fun other call' after => ?_)
  rw [calls] at after
  rcases become_call after with before | ⟨rfl, rfl⟩
  · exact .inl before
  · exact .inr serves

/-- A step of the call that holds the lock. -/
theorem Kept.moved {call : Call} (kept : Kept key s) (sound : Sound t) (sweeps : t.sweep = s.sweep)
    (there : s.call n = some call) (locks : call.locks = true)
    (others : ∀ other, other ≠ n → t.call other = s.call other)
    (own : ∀ call, t.call n = some call → call.wants = key → t.Serves key call)
    (change : Change key s t) : Kept key t ∧ Change key s t := by
  refine ⟨⟨sound, by rw [sweeps]; exact kept.sweeps, fun other call' after wants => ?_⟩, change⟩
  by_cases same : other = n
  · subst same
    exact own call' after wants
  · have before := others other same ▸ after
    refine (kept.calls other call' before wants).change change ?_
    by_contra holds
    exact same (kept.sound.alone there before locks (by simpa using holds))

theorem kept_step [Crates] {label : Label} (kept : Kept key s) (stepped : s.step label = some t)
    (spared : ∀ m, label ≠ .sweep m key) : Kept key t ∧ Change key s t := by
  have sound := step_sound kept.sound stepped
  -- a step that changes no directory
  have moves {t : Node} {n : Nat} {call : Call} (sound : Sound t) (names : t.names = s.names)
      (files : t.directory = s.directory) (sweeps : t.sweep = s.sweep)
      (calls : t.call = (s.become n call).call) (serves : call.wants = key → s.Serves key call) :
      Kept key t ∧ Change key s t :=
    kept.advance sound (by rw [names]) (fun _ _ => by rw [files]) sweeps calls serves
  -- a directory for another key, or none with a name, is changed
  have elsewhere {inode : Nat} {file : File} {content : Option Bool}
      (other : s.names key ≠ some inode) :
      ∀ found, s.names key = some found →
        ((s.put inode file content).directory found).file = (s.directory found).file := by
    intro found named
    rw [put_other]
    rintro rfl
    exact other named
  have foreign {other : Key} {inode : Nat} (made : s.For other inode) (differs : other ≠ key) :
      s.names key ≠ some inode := fun named =>
    differs (made.2.symm.trans (kept.sound.named key inode named).1.2)
  cases step_cases stepped with
  | enter => exact moves sound rfl rfl rfl rfl (fun _ => trivial)
  | @sees n wanted locked file next found there sees later =>
    refine moves sound rfl rfl rfl rfl (fun same => ?_)
    cases same
    obtain ⟨named, held⟩ := lookup_some.mp sees
    have serves := kept.calls _ _ there rfl
    cases file with
    | state =>
      cases later
      intro inode named' _ _
      obtain rfl := Option.some.inj (named.symm.trans named')
      simp [held]
    | memory =>
      cases later
      intro inode named' ready file
      obtain rfl := Option.some.inj (named.symm.trans named')
      cases file with
      | state => exact serves _ named (by simp [held]) ready
      | memory => simp [held]
      | ready => exact ready
    | ready => cases later
  | @seesAll n wanted locked file found there sees last =>
    refine moves sound rfl rfl rfl rfl (fun same => ?_)
    subst same
    obtain ⟨named, held⟩ := lookup_some.mp sees
    have serves := kept.calls _ _ there rfl
    cases file with
    | state | memory => cases last
    | ready =>
      refine ⟨found.inode, named, fun file => ?_⟩
      obtain ⟨content, present⟩ :=
        Option.ne_none_iff_exists'.mp (serves _ named (by simp [held]) file)
      rw [present, (kept.sound.named _ _ named).2.2 file content present]
  | @misses n wanted locked file there misses =>
    refine moves sound rfl rfl rfl rfl (fun same => ?_)
    cases locked with
    | false => trivial
    | true =>
      cases same
      exact fun inode named => ⟨file, lookup_none.mp misses inode named⟩
  | @lock n wanted there free =>
    exact moves sound rfl rfl rfl rfl (fun _ => trivial)
  | @clear n wanted inode there named =>
    refine moves sound rfl rfl rfl rfl (fun same => ?_)
    cases same
    exact ⟨named, kept.calls _ _ there rfl⟩
  | @vacant n wanted there unnamed =>
    refine moves sound rfl rfl rfl rfl (fun same => ?_)
    cases same
    exact unnamed
  | @unlink n file wanted inode there =>
    by_cases same : wanted = key
    · subst same
      have serves := kept.calls _ _ there rfl
      have fewer (found : Nat) (wanted : File) (missing : (s.directory found).file wanted = none) :
          ((s.put inode file none).directory found).file wanted = none := by
        rw [put_file]
        split
        · rfl
        · exact missing
      refine kept.moved sound rfl there rfl (fun _ _ => rfl) (fun call after _ => ?_)
        (.shrinks serves.2 (fun found named => ⟨named, fewer found⟩))
      cases there.symm.trans after
      refine ⟨serves.1, fun found named => ?_⟩
      obtain ⟨wanted, missing⟩ := serves.2 found named
      exact ⟨wanted, fewer found wanted missing⟩
    · exact kept.same sound rfl (elsewhere (foreign (kept.sound.calls _ _ there).2 same))
        (fun _ _ removes => removes) (fun _ _ after => .inl after)
  | @cleared n wanted inode found there named empty =>
    by_cases same : wanted = key
    · subst same
      refine kept.moved sound rfl there rfl (fun other differs => Function.update_of_ne differs _ _)
        (fun call after _ => ?_) (.shrinks (kept.calls _ _ there rfl).2 (fun other named => ?_))
      · have now : call = .vacant wanted := by simpa [Node.become, eq_comm] using after
        rw [now]
        exact Function.update_self _ _ _
      · simp at named
    · refine kept.same sound (Function.update_of_ne (Ne.symm same) _ _) (fun _ _ => rfl)
        (fun _ _ removes => removes) (fun other call' after => ?_)
      exact (become_call after).imp_right (fun both wants => (same (by rw [← wants, both.2]; rfl)).elim)
  | @create n wanted there =>
    refine kept.advance sound rfl (fun inode named => ?_) rfl rfl (fun same => ?_)
    · have old := (kept.sound.named key inode named).1.1.ne
      simp [Node.become, Node.allocate, old]
    · have unnamed := kept.calls _ _ there same
      exact unnamed
  | @write inode file whole writes other =>
    refine kept.same sound rfl (elsewhere (fun named => ?_)) (fun _ _ removes => removes)
      (fun _ _ after => .inl after)
    simp [(kept.sound.named key inode named).2.1] at writes
  | @answer n wanted inode there state memory =>
    refine moves sound rfl rfl rfl rfl (fun same => ?_)
    have unnamed := kept.calls _ _ there same
    exact unnamed
  | @mark n wanted inode there =>
    obtain ⟨-, -, apart, -⟩ := kept.sound.calls _ _ there
    refine kept.advance sound rfl (elsewhere (apart.1 key)) rfl rfl (fun same => ?_)
    have unnamed := kept.calls _ _ there same
    exact unnamed
  | @rename n wanted inode there room =>
    obtain ⟨-, -, -, -, all⟩ := kept.sound.calls _ _ there
    by_cases same : wanted = key
    · subst same
      refine kept.moved sound rfl there rfl (fun other differs => Function.update_of_ne differs _ _)
        (fun call after _ => ?_)
        (.new (kept.calls _ _ there rfl) inode ⟨Function.update_self _ _ _, all⟩)
      have now : call = .loading wanted := by simpa [Node.become, Node.release, eq_comm] using after
      rw [now]
      exact ⟨inode, Function.update_self _ _ _, all⟩
    · refine kept.same sound (Function.update_of_ne (Ne.symm same) _ _) (fun _ _ => rfl)
        (fun _ _ removes => removes) (fun other call' after => ?_)
      exact (become_call after).imp_right (fun both wants => (same (by rw [← wants, both.2]; rfl)).elim)
  | @loadState n wanted state there opens =>
    refine moves sound rfl rfl rfl rfl (fun same => ?_)
    cases same
    obtain ⟨inode, complete⟩ := kept.calls _ _ there rfl
    obtain rfl := Option.some.inj (complete.1.symm.trans (lookup_some.mp opens).1)
    exact complete
  | @loadMemory n wanted state memory there opens =>
    refine moves sound rfl rfl rfl rfl (fun same => ?_)
    cases same
    have complete := kept.calls _ _ there rfl
    exact Option.some.inj (complete.1.symm.trans (lookup_some.mp opens).1)
  | @leave n call there =>
    refine kept.same sound rfl (fun _ _ => rfl) (fun _ _ removes => removes) (fun other call' after => ?_)
    by_cases same : other = n
    · simp [same, Node.release] at after
    · exact .inl (by simpa [Node.release, same] using after)
  | @sweep m other inode named =>
    refine kept.same sound rfl (fun _ _ => rfl) (fun m' found removes => ?_) (fun _ _ after => .inl after)
    by_cases same : m' = m
    · simp only [same, Function.update_self, Option.some.injEq, Prod.mk.injEq] at removes
      exact absurd (by rw [removes.1]) (spared m)
    · simpa [same] using removes
  | @sweepUnlink m file other inode removes =>
    have differs : other ≠ key := by
      rintro rfl
      exact kept.sweeps m inode removes
    exact kept.same sound rfl (elsewhere (foreign (kept.sound.sweeps m other inode removes) differs))
      (fun _ _ removes => removes) (fun _ _ after => .inl after)
  | @swept m other inode found removes named empty =>
    have differs : key ≠ other := by
      rintro rfl
      exact kept.sweeps m inode removes
    refine kept.same sound (Function.update_of_ne differs _ _) (fun _ _ => rfl)
      (fun m' found removes => ?_) (fun _ _ after => .inl after)
    by_cases same : m' = m
    · simp [same] at removes
    · simpa [same] using removes
  | @abandon m =>
    refine kept.same sound rfl (fun _ _ => rfl) (fun m' found removes => ?_) (fun _ _ after => .inl after)
    by_cases same : m' = m
    · simp [same] at removes
    · simpa [same] using removes
  | stop =>
    exact kept.same sound rfl (fun _ _ => rfl) (fun _ _ removes => by cases removes)
      (fun _ _ after => by cases after)

theorem run_kept [Crates] {labels : List Label} (kept : Kept key s) (ran : s.run labels = some t)
    (spared : ∀ m, Label.sweep m key ∉ labels) :
    Kept key t ∧ ∀ inode, s.Complete key inode → t.Complete key inode := by
  induction labels generalizing s with
  | nil =>
    cases ran
    exact ⟨kept, fun _ complete => complete⟩
  | cons label rest ih =>
    rw [Node.run, List.foldlM_cons, Option.bind_eq_bind, Option.bind_eq_some_iff] at ran
    obtain ⟨next, stepped, later⟩ := ran
    obtain ⟨kept', change⟩ := kept_step kept stepped (fun m same =>
      spared m (same ▸ List.mem_cons_self))
    obtain ⟨final, stays⟩ := ih kept' later (fun m member => spared m (List.mem_cons_of_mem _ member))
    exact ⟨final, fun inode complete => stays inode (change.complete complete)⟩

theorem started_kept : Kept key Node.started where
  sound := started_sound
  sweeps _ _ removes := by cases removes
  calls _ _ there := by cases there

/-- A snapshot is made, and the process ends. -/
def making [Crates] (source : Source) : List Label :=
  [.enter 0 source, .look 0, .lock 0, .look 0, .clear 0, .create 0, .write 0 .state false,
    .write 0 .memory true, .write 0 .state true, .answer 0, .mark 0, .rename 0, .stop]

/-- A virtual machine is restored from it. -/
def restoring [Crates] (source : Source) : List Label :=
  [.enter 1 source, .look 1, .look 1, .look 1, .load 1, .load 1]

/-- The snapshot is there. -/
def prepared [Crates] (source : Source) : Node :=
  { Node.started with
    directory := Function.update Node.started.directory 0 ⟨source.key, fun _ => some true⟩
    count := 1
    names := Function.update Node.started.names source.key (some 0) }

def restored [Crates] (source : Source) : Node :=
  { prepared source with
    call := Function.update (prepared source).call 1
      (some (.loaded source.key ⟨0, true⟩ ⟨0, true⟩)) }

theorem run_append [Crates] {before after : List Label} (ran : s.run before = some t) :
    s.run (before ++ after) = t.run after := by
  rw [Node.run] at ran
  rw [Node.run, List.foldlM_append, ran]
  rfl

theorem prepares [Crates] (source : Source) :
    Node.started.run (making source) = some (prepared source) := by
  have files : Function.update (Function.update (Function.update (Function.update
      (fun _ => none) File.state (some false)) File.memory (some true)) File.state (some true))
        File.ready (some true) = fun _ => some true := by
    funext file
    cases file <;> rfl
  simp [prepared, making, Node.run, Node.step, Node.become, Node.started, Node.lookup, File.next,
    Node.release, Node.allocate, Node.put, files]

theorem restores [Crates] (source : Source) :
    (prepared source).run (restoring source) = some (restored source) := by
  simp [restored, restoring, prepared, Node.started, Node.run, Node.step, Node.become, Node.lookup,
    File.next, Node.release]

/-- A pool with a module to load before the snapshot. -/
def scientificSource : @Source moduleDigests :=
  have digits : '/' ∉ (@Crates.sha256 moduleDigests scientificPool.preloadBytes).toList := by
    change '/' ∉ (ite (scientificPool.preloadBytes = []) _ _ : String).toList
    split <;> decide
  @Source.mk moduleDigests scientificPool
    (mt (@slash_mem_snapshotKey moduleDigests scientificPool digits).mp (by decide))

/-- Nothing half written is ever found under the name of a snapshot, nor anything made for another
key, and no virtual machine loads such a file, whatever calls, passes and ends of the process come
between. -/
theorem snapshots_whole [Crates] {labels : List Label} (ran : Node.started.run labels = some t) :
    (∀ key file found, t.lookup key file = some found → t.Open key found) ∧
      ∀ n key state memory, t.call n = some (.loaded key state memory) →
        t.Open key state ∧ t.Open key memory := by
  have sound := run_sound started_sound ran
  refine ⟨fun key file found sees => ?_, fun n key state memory there => sound.calls n _ there⟩
  obtain ⟨named, held⟩ := lookup_some.mp sees
  obtain ⟨made, -, whole⟩ := sound.named key found.inode named
  exact ⟨whole file found.whole held, made⟩

theorem snapshots_whole_restored :
    let key := @Source.key moduleDigests scientificSource
    let node := @restored moduleDigests scientificSource
    node.call 1 = some (.loaded key ⟨0, true⟩ ⟨0, true⟩) ∧ node.Open key ⟨0, true⟩ := by
  intro key node
  have loaded : node.call 1 = some (.loaded key ⟨0, true⟩ ⟨0, true⟩) := by
    simp only [node, key, restored, Function.update_self]
  have ran : @Node.run moduleDigests Node.started
      (@making moduleDigests scientificSource ++ @restoring moduleDigests scientificSource) =
        some node := by
    rw [@run_append _ _ moduleDigests _ _ (@prepares moduleDigests scientificSource),
      @restores moduleDigests]
  exact ⟨loaded, ((@snapshots_whole _ moduleDigests _ ran).2 1 _ _ _ loaded).1⟩

/-- A snapshot that every pass wants stays. Once it is complete no call, failure or end of the process
changes it; a virtual machine that has got past `ensure_snapshot` finds it, and what it loads are two
files of one snapshot. -/
theorem snapshots_stay [Crates] {before after : List Label}
    (ran : Node.started.run before = some s) (later : s.run after = some t)
    (spared : ∀ m, Label.sweep m key ∉ before ++ after) :
    (∀ inode, s.Complete key inode → t.Complete key inode) ∧
      (∀ n, t.call n = some (.loading key) → ∃ inode, t.Complete key inode) ∧
      ∀ n state memory, t.call n = some (.loaded key state memory) → state = memory := by
  have first := (run_kept started_kept ran (fun m member =>
    spared m (List.mem_append_left _ member))).1
  obtain ⟨kept, stays⟩ := run_kept first later (fun m member =>
    spared m (List.mem_append_right _ member))
  refine ⟨stays, fun n there => kept.calls n _ there rfl, fun n state memory there => ?_⟩
  have same : state.inode = memory.inode := kept.calls n _ there rfl
  obtain ⟨⟨one, -⟩, two, -⟩ := kept.sound.calls n _ there
  cases state
  cases memory
  simp_all

theorem snapshots_stay_restored :
    let key := @Source.key moduleDigests scientificSource
    (@prepared moduleDigests scientificSource).Complete key 0 ∧
      (@restored moduleDigests scientificSource).Complete key 0 := by
  intro key
  have complete : (@prepared moduleDigests scientificSource).Complete key 0 :=
    ⟨Function.update_self _ _ _, fun _ => rfl⟩
  have spared (m : Nat) : @Label.sweep moduleDigests m key ∉
      @making moduleDigests scientificSource ++ @restoring moduleDigests scientificSource := by
    simp [making, restoring]
  exact ⟨complete, (@snapshots_stay _ _ key moduleDigests _ _
    (@prepares moduleDigests scientificSource) (@restores moduleDigests scientificSource) spared).1 0 complete⟩

end Scraperack.SnapshotFiles
