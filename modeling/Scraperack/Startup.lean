import Scraperack.Registry
import Scraperack.Runs

/-! The identity of a controller over the start-ups on one data directory. The database keeps it. An earlier release
kept it in the file `controller-id`, which is where `join` looks for it. -/

namespace Scraperack.Startup

/-- What the file system answers to a read. -/
inductive File (α : Type) where
  | missing
  | unreadable
  | content (value : α)

/-- `text.trim()`. -/
def trim (text : String) : String :=
  String.ofList ((text.toList.dropWhile whiteSpace).reverse.dropWhile whiteSpace).reverse

structure DataDir where
  /-- The file `controller-id`. -/
  controllerId : File String
  /-- The file `state.json`; its bytes need not be those of a cluster. -/
  stateJson : File (Option Cluster)
  database : Database
  /-- The value of `controller_id` in the table `metadata`. -/
  metadata : Option Uuid

/-- How far `serve` has come. -/
inductive Process where
  | down
  | identified (id : Uuid)
  | saved (id : Uuid)
  | cleared (id : Uuid)
  | ready (id : Uuid)
  | serving (id : Uuid)
  deriving DecidableEq

structure Controller where
  dir : DataDir
  process : Process

/-- The identity is in the metadata. -/
def Controller.identified (c : Controller) (id : Uuid) : Controller :=
  { dir := { c.dir with metadata := some id }, process := .identified id }

inductive Label where
  /-- A process starts and looks up its identity; `generated` is the identifier that it makes if there is none. -/
  | start (generated : Uuid)
  /-- The cluster is loaded and converted, the executions are loaded, and the cluster is saved. -/
  | load (fresh : String → Uuid)
  | removeState (succeeds : Bool)
  | removeControllerId (succeeds : Bool)
  /-- The first `prune`, after which requests are accepted. -/
  | prune (now : Nat)
  /-- Handlers change the database. None of them takes the stored cluster away. -/
  | handle (database : Database)
  /-- The process ends, wherever it is. -/
  | stop

section
variable [Crates]

/-- `is_local_controller`, without a result when it returns an error. -/
def isLocalController (dir : DataDir) (target : Uuid) : Option Bool :=
  match dir.controllerId with
  | .content text => (Crates.parseUuid (trim text)).map (fun id => decide (id = target))
  | .missing => some false
  | .unreadable => none

/-- The `legacy_controller_id` of `serve`, without a result when reading it is an error. -/
def legacyControllerId (dir : DataDir) : Option (Option Uuid) :=
  match dir.controllerId with
  | .content text => (Crates.parseUuid (trim text)).map some
  | .missing => some none
  | .unreadable => none

/-- `Database::controller_id`. The identifier that it returns is in the metadata afterwards. -/
def controllerId (metadata legacy : Option Uuid) (generated : Uuid) : Uuid :=
  metadata.getD (legacy.getD generated)

/-- The cluster that `serve` begins with, without a result when reading it is an error. -/
def loadCluster (dir : DataDir) : Option Cluster :=
  match dir.database.cluster, dir.stateJson with
  | some cluster, _ => some cluster
  | none, .content decoded => decoded
  | none, .missing => some Cluster.empty
  | none, .unreadable => none

def step (c : Controller) : Label → Option Controller
  | .start generated =>
    if c.process = .down then
      some (((legacyControllerId c.dir).map (fun legacy =>
        c.identified (controllerId c.dir.metadata legacy generated))).getD c)
    else none
  | .load fresh =>
    match c.process, loadCluster c.dir with
    | .identified id, some stored =>
      let migrated := System.migrateLegacy fresh stored
      let loaded := c.dir.database.loadActiveExecutions
      let cluster : Cluster :=
        { migrated with executions := loaded.2.foldl Keyed.insert migrated.executions }
      some { dir := { c.dir with database := loaded.1.saveCluster cluster }
             process := if c.dir.database.cluster.isNone then .saved id else .ready id }
    | .identified _, none => some { c with process := .down }
    | _, _ => none
  | .removeState succeeds =>
    match c.process with
    | .saved id =>
      some { dir := { c.dir with stateJson :=
        if succeeds then .missing else c.dir.stateJson }, process := .cleared id }
    | _ => none
  | .removeControllerId succeeds =>
    match c.process with
    | .cleared id =>
      some { dir := { c.dir with controllerId :=
        if succeeds then .missing else c.dir.controllerId }, process := .ready id }
    | _ => none
  | .prune now =>
    match c.process, Scraperack.prune c.dir.database now none with
    | .ready id, some database => some { dir :=
        { c.dir with database := database }, process := .serving id }
    | .ready _, none => some { c with process := .down }
    | _, _ => none
  | .handle database =>
    match c.process with
    | .serving _ => if database.cluster.isSome then some { c with dir :=
        { c.dir with database := database } } else none
    | _ => none
  | .stop => some { c with process := .down }

end

/-- The identity that the process has found. -/
def Process.id : Process → Option Uuid
  | down => none
  | identified id | saved id | cleared id | ready id | serving id => some id

/-- A directory that no process with a database has used yet: empty, or left by an earlier release. -/
structure Installed (c : Controller) : Prop where
  down : c.process = .down
  unnamed : c.dir.metadata = none
  unsaved : c.dir.database.cluster = none

/-- Nothing interferes with the start-up that saves the first cluster: it does not stop before it removes the file
`controller-id`, and can remove it. -/
def undisturbed (c : Controller) : Label → Bool
  | .removeControllerId succeeds => succeeds
  | .stop => match c.process with
    | .saved _ | .cleared _ => false
    | _ => true
  | _ => true

variable [Crates]

/-- What a step can do. -/
inductive Stepped (c : Controller) : Label → Controller → Prop where
  | started (generated : Uuid) (legacy : Option Uuid) (down : c.process = .down)
      (read : legacyControllerId c.dir = some legacy) :
      Stepped c (.start generated) (c.identified (controllerId c.dir.metadata legacy generated))
  | first (fresh : String → Uuid) (id : Uuid) (database : Database)
      (identified : c.process = .identified id)
      (unsaved : c.dir.database.cluster = none) :
      Stepped c (.load fresh) { dir := { c.dir with database := database }, process := .saved id }
  | again (fresh : String → Uuid) (id : Uuid) (database : Database)
      (identified : c.process = .identified id)
      (saved : c.dir.database.cluster.isSome = true) :
      Stepped c (.load fresh) { dir := { c.dir with database := database }, process := .ready id }
  | stateRemoved (succeeds : Bool) (id : Uuid) (state : File (Option Cluster))
      (saved : c.process = .saved id) :
      Stepped c (.removeState succeeds) { dir :=
        { c.dir with stateJson := state }, process := .cleared id }
  | removed (id : Uuid) (cleared : c.process = .cleared id) :
      Stepped c (.removeControllerId true) { dir :=
        { c.dir with controllerId := .missing }, process := .ready id }
  | unremoved (id : Uuid) (cleared : c.process = .cleared id) :
      Stepped c (.removeControllerId false) { c with process := .ready id }
  | served (now : Nat) (id : Uuid) (database : Database) (ready : c.process = .ready id)
      (kept : database.cluster = c.dir.database.cluster) :
      Stepped c (.prune now) { dir := { c.dir with database := database }, process := .serving id }
  | handled (database : Database) (id : Uuid) (serving : c.process = .serving id)
      (saved : database.cluster.isSome = true) :
      Stepped c (.handle database) { c with dir := { c.dir with database := database } }
  | failed (label : Label) (running : ∀ id, c.process ≠ .saved id ∧ c.process ≠ .cleared id) :
      Stepped c label { c with process := .down }
  | stopped : Stepped c .stop { c with process := .down }

theorem step_cases {c d : Controller} {label : Label} (stepped : step c label =
    some d) : Stepped c label d := by
  cases label with
  | start generated =>
    rw [step] at stepped
    split_ifs at stepped with down
    obtain rfl := Option.some.inj stepped
    cases read : legacyControllerId c.dir with
    | some legacy => exact .started generated legacy down read
    | none =>
      have same : { c with process := .down } = c := by rw [← down]
      exact same ▸ .failed _ (fun id => by simp)
  | load fresh =>
    simp only [step] at stepped
    split at stepped
    · rename_i id stored identified loaded
      obtain rfl := Option.some.inj stepped
      split_ifs with unsaved
      · exact .first fresh id _ identified (Option.isNone_iff_eq_none.mp unsaved)
      · exact .again fresh id _ identified (by simpa [Option.isSome_iff_ne_none] using unsaved)
    · rename_i id identified failed
      exact Option.some.inj stepped ▸ .failed _ (fun id => by simp [identified])
    · cases stepped
  | removeState succeeds =>
    simp only [step] at stepped
    split at stepped
    · rename_i id saved
      exact Option.some.inj stepped ▸ .stateRemoved succeeds id _ saved
    · cases stepped
  | removeControllerId succeeds =>
    simp only [step] at stepped
    split at stepped
    · rename_i id cleared
      obtain rfl := Option.some.inj stepped
      cases succeeds with
      | true => exact .removed id cleared
      | false => exact .unremoved id cleared
    · cases stepped
  | prune now =>
    simp only [step] at stepped
    split at stepped
    · rename_i id database ready pruned
      exact Option.some.inj stepped ▸ .served now id database ready (System.prune_cluster pruned)
    · rename_i id ready failed
      exact Option.some.inj stepped ▸ .failed _ (fun id => by simp [ready])
    · cases stepped
  | handle database =>
    simp only [step] at stepped
    split at stepped
    · rename_i id serving
      split_ifs at stepped with saved
      exact Option.some.inj stepped ▸ .handled database id serving saved
    · cases stepped
  | stop => exact Option.some.inj stepped ▸ .stopped

/-- The database has the identity of the process, and the file that of the database. -/
structure Named (c : Controller) : Prop where
  process : ∀ id, c.process.id = some id → c.dir.metadata = some id
  file : ∀ id text, c.dir.metadata = some id → c.dir.controllerId = .content text →
    Crates.parseUuid (trim text) = some id
  readable : c.dir.metadata.isSome = true → c.dir.controllerId ≠ .unreadable

theorem Named.step {c d : Controller} {label : Label}
    (named : Named c) (stepped : step c label = some d) : Named d := by
  have same (process : Process) (known : ∀ id, process.id = some id →
    c.process.id = some id) (database : Database)
      (state : File (Option Cluster)) :
      Named { dir := { c.dir with database := database, stateJson := state }, process :=
        process } :=
    ⟨fun id is => named.process id (known id is), named.file, named.readable⟩
  cases step_cases stepped with
  | started generated legacy down read =>
    refine ⟨fun id is => is, fun id text is there => ?_, fun _ there => ?_⟩
    · change c.dir.controllerId = .content text at there
      obtain rfl := Option.some.inj is
      cases known : c.dir.metadata with
      | some id => exact named.file id text known there
      | none =>
        simp only [legacyControllerId, there, Option.map_eq_some_iff] at read
        obtain ⟨id, parsed, rfl⟩ := read
        exact parsed
    · change c.dir.controllerId = .unreadable at there
      simp [legacyControllerId, there] at read
  | first fresh id database identified =>
    exact same (.saved id) (fun _ is =>
      (congrArg Process.id identified).trans is) database c.dir.stateJson
  | again fresh id database identified =>
    exact same (.ready id) (fun _ is =>
      (congrArg Process.id identified).trans is) database c.dir.stateJson
  | stateRemoved succeeds id state saved =>
    exact same (.cleared id) (fun _ is => (congrArg Process.id saved).trans is) c.dir.database state
  | removed id cleared =>
    refine ⟨fun other is => named.process other ((congrArg Process.id cleared).trans is),
      fun other text _ there => ?_,
      fun _ there => ?_⟩ <;> cases there
  | unremoved id cleared =>
    exact same (.ready id) (fun _ is =>
      (congrArg Process.id cleared).trans is) c.dir.database c.dir.stateJson
  | served now id database ready =>
    exact same (.serving id) (fun _ is =>
      (congrArg Process.id ready).trans is) database c.dir.stateJson
  | handled database => exact same c.process (fun id is => is) database c.dir.stateJson
  | failed | stopped => exact same .down (fun id is => by cases is) c.dir.database c.dir.stateJson

/-- Only the process that saved the first cluster still has the file before it. -/
structure Removed (c : Controller) : Prop where
  saved : c.dir.database.cluster.isSome = true → c.dir.controllerId = .missing ∨
    ∃ id, c.process = .saved id ∨ c.process = .cleared id
  ready : ∀ id, c.process = .ready id ∨ c.process = .serving id → c.dir.controllerId = .missing

theorem Removed.step {c d : Controller} {label : Label} (removed : Removed c)
    (alone : undisturbed c label = true)
    (stepped : step c label = some d) : Removed d := by
  cases step_cases stepped with
  | started generated legacy down =>
    refine ⟨fun saved => ?_, fun id is => by rcases is with is | is <;> cases is⟩
    rcases removed.saved saved with gone | ⟨id, is⟩
    · exact .inl gone
    · simp [down] at is
  | first fresh id => exact ⟨fun _ => .inr ⟨id, .inl rfl⟩, fun id is => by simp at is⟩
  | again fresh id database identified saved =>
    have gone : c.dir.controllerId = .missing := by
      rcases removed.saved saved with gone | ⟨id, is⟩
      · exact gone
      · simp [identified] at is
    exact ⟨fun _ => .inl gone, fun _ _ => gone⟩
  | stateRemoved succeeds id => exact ⟨fun _ => .inr ⟨id, .inr rfl⟩, fun id is => by simp at is⟩
  | removed id => exact ⟨fun _ => .inl rfl, fun _ _ => rfl⟩
  | unremoved => cases alone
  | served now id database ready =>
    have gone := removed.ready id (.inl ready)
    exact ⟨fun _ => .inl gone, fun _ _ => gone⟩
  | handled database id serving =>
    have gone := removed.ready id (.inr serving)
    exact ⟨fun _ => .inl gone, fun _ _ => gone⟩
  | failed _ running =>
    refine ⟨fun saved => (removed.saved saved).imp_right fun ⟨id, is⟩ => ?_,
      fun id is => by simp at is⟩
    exact absurd is (not_or.mpr (running id))
  | stopped =>
    refine ⟨fun saved => (removed.saved saved).imp_right fun ⟨id, is⟩ => ?_,
      fun id is => by simp at is⟩
    rcases is with is | is <;> simp [undisturbed, is] at alone

/-- In every history of start-ups, the identity that is served, and no other, is recognised as local exactly as long
as the file of an earlier release is still there. A start-up that is not interfered with leaves no such file. -/
theorem local_recognised {c d : Controller} {id : Uuid} (installed : Installed c)
    (run : Runs.Reaches step (fun _ _ => True) c d) (serving : d.process = .serving id) :
    ((∀ target, isLocalController d.dir target = some (decide (id = target))) ↔
      d.dir.controllerId ≠ .missing) ∧
      (Runs.Reaches step (fun c label => undisturbed c label = true) c d →
        d.dir.controllerId = .missing) := by
  have named : Named d := by
    refine run.invariant (P := Named) ⟨fun id is => ?_, fun id text is => ?_, fun is => ?_⟩
      (fun named _ stepped => named.step stepped)
    · rw [installed.down] at is
      cases is
    · rw [installed.unnamed] at is
      cases is
    · rw [installed.unnamed] at is
      cases is
  have known : d.dir.metadata = some id := named.process id (by rw [serving]; rfl)
  refine ⟨⟨fun recognised gone => ?_, fun there target => ?_⟩, fun alone => ?_⟩
  · have own := recognised id
    simp [isLocalController, gone] at own
  · cases read : d.dir.controllerId with
    | missing => exact absurd read there
    | unreadable => exact absurd read (named.readable (by rw [known]; rfl))
    | content text => simp [isLocalController, read, named.file id text known read]
  · have removed : Removed d := by
      refine alone.invariant (P := Removed) ⟨fun saved => ?_, fun id is => ?_⟩
        (fun removed alone stepped => removed.step alone stepped)
      · rw [installed.unsaved] at saved
        cases saved
      · simp [installed.down] at is
    exact removed.ready id (.inr serving)

omit [Crates]

/-- An empty data directory. -/
def emptyDir : Controller := ⟨⟨.missing, .missing, Demo.empty.database, none⟩, .down⟩

/-- The data directory of an earlier release. -/
def legacyDir : Controller :=
  ⟨⟨.content "00000000-0000-0000-0000-000000000009\n", .missing, Demo.empty.database, none⟩, .down⟩

/-- The stand-ins, with a parser that knows the one identifier. -/
abbrev parsing : Crates :=
  { Demo.crates with
    parseUuid := fun text =>
      if text = "00000000-0000-0000-0000-000000000009" then some 9 else none }

/-- The first process stops when it has saved the cluster, before it removes the file. -/
theorem local_recognised_interrupted : ∃ d : Controller, d.process = .serving 9 ∧
    ∀ target, @isLocalController parsing d.dir target = some (decide (9 = target)) := by
  obtain ⟨d, run, shape⟩ := Runs.exists_reaches (@step parsing) (fun _ _ => True) legacyDir
    [.start 5, .load (fun _ => 0), .stop, .start 6, .load (fun _ => 0), .prune 0]
    (fun d => decide (d.process = .serving 9) &&
      match d.dir.controllerId with
      | .missing => false
      | _ => true) (by decide +kernel)
  simp only [Bool.and_eq_true, decide_eq_true_eq] at shape
  have installed : Installed legacyDir := ⟨rfl, rfl, rfl⟩
  refine ⟨d, shape.1, (@local_recognised parsing _ _ _ installed run shape.1).1.mpr fun gone => ?_⟩
  simp [gone] at shape

/-- A controller that starts on an empty directory is not recognised as local. -/
theorem local_unrecognised :
    ¬ ∀ [Crates] (c d : Controller) (id : Uuid), Installed c →
      Runs.Reaches step (fun _ _ => True) c d →
      d.process = .serving id → isLocalController d.dir id = some true := by
  intro claim
  obtain ⟨d, run, shape⟩ := Runs.exists_reaches (@step Demo.crates) (fun _ _ => True) emptyDir
    [.start 5, .load (fun _ => 0), .removeState true, .removeControllerId true, .prune 0]
    (fun d => decide (d.process = .serving 5) && decide (@isLocalController Demo.crates d.dir 5 =
      some false))
    (by decide +kernel)
  simp only [Bool.and_eq_true, decide_eq_true_eq] at shape
  have recognised := @claim Demo.crates _ _ _ ⟨rfl, rfl, rfl⟩ run shape.1
  rw [shape.2] at recognised
  cases recognised

end Scraperack.Startup
