import Scraperack.System
import Scraperack.Runs

/-! The checksum markers of a node. Beside each image, artifact and working directory that it keeps, a node writes
the checksum it has verified, and trusts what is written there in later passes. -/

namespace Scraperack.Markers

/-- The name of an artifact. It has no extension, so that those of marker and temporary file are added to it. -/
structure Stem where
  name : String
  plain : '.' ∉ name.toList
  deriving DecidableEq

inductive Item where
  | image (id : Uuid)
  | environment (artifact : Stem)
  | workingDir (digest : String)
  deriving DecidableEq

structure Disk where
  file : Item → Option Bytes
  /-- The file with the extension `sha256`. -/
  marker : Item → Option String
  /-- The file with the extension `partial`. -/
  temp : Item → Option Bytes

/-- How far a pass has come with an item. -/
inductive Stage where
  | reading
  | hashing
  | requesting
  | receiving
  | verifying
  | truncating
  | writing
  | checked
  deriving DecidableEq

/-- The next operation. -/
inductive Event where
  | read (readable : Bool)
  | hash
  | create
  | chunk (bytes : Bytes)
  | rename
  | verify
  | truncate
  | write

inductive Kind where
  | images
  | environments
  deriving DecidableEq

def Item.ofKind : Item → Kind → Bool
  | image _, .images | environment _, .environments => true
  | _, _ => false

/-- An item that the controller lists, with the checksum it expects. -/
structure Wanted where
  item : Item
  sha256 : String

/-- Where the main loop is in `sync_images` or `sync_environments`. -/
inductive Pass where
  | idle
  | visiting (kind : Kind) (wanted : List Wanted) (current : Wanted) (rest : List Wanted)
      (stage : Stage)
  | sweeping (kind : Kind) (wanted : List Wanted)
  | unmarking (kind : Kind) (wanted : List Wanted) (item : Item)

/-- A call of `ensure_working_dir`, by one of the executions that the node runs. -/
inductive Call where
  | looking (digest : String)
  | seen (digest : String) (present : Bool)
  | waiting (digest : String)
  | holding (digest : String) (stage : Stage)
  | returning (digest : String)

structure Node where
  disk : Disk
  pass : Pass
  calls : List Call

inductive Label where
  | list (kind : Kind) (wanted : List Wanted)
  | sync (event : Event)
  /-- The item is announced as ready, or passed over when it is an image that is no file system. -/
  | announce
  | remove (item : Item)
  | removeTemp (artifact : Stem)
  | unmark (succeeds : Bool)
  | finish
  | call (digest : String)
  | look (index : Nat)
  | consult (index : Nat) (readable : Bool)
  | lock (index : Nat)
  | work (index : Nat) (event : Event)
  /-- The call returns the path. -/
  | answer (index : Nat)
  | fail (index : Nat)
  /-- The process ends, by a crash or by an error in the main loop. -/
  | stop

section
variable [Crates]

def Disk.read (d : Disk) (item : Item) (readable : Bool) : String :=
  if readable then (d.marker item).getD "" else ""

def Disk.hashes (d : Disk) (item : Item) (sha256 : String) : Bool :=
  (d.file item).any (fun content => decide (Crates.sha256 content = sha256))

/-- One operation of the three passes on one item. Without a stage afterwards the verification has failed. -/
def fetch (d : Disk) (item : Item) (sha256 : String) : Stage → Event → Option (Disk × Option Stage)
  | .reading, .read readable =>
    if (d.file item).isNone then some (d, some .requesting)
    else if d.read item readable = sha256 then some (d, some .checked)
    else some (d, some .hashing)
  | .hashing, .hash => some (d, some (if d.hashes item sha256 then .truncating else .requesting))
  | .requesting, .create => some ({ d with temp := Function.update d.temp item (some []) },
      some .receiving)
  | .receiving, .chunk bytes =>
    some
      ({ d with temp := Function.update d.temp item ((d.temp item).map (fun content => content ++ bytes)) },
      some .receiving)
  | .receiving, .rename =>
    (d.temp item).map (fun content =>
      ({ d with file := Function.update d.file item (some content), temp := Function.update d.temp item none },
        some .verifying))
  | .verifying, .verify => some (d, if d.hashes item sha256 then some .truncating else none)
  | .truncating, .truncate =>
      some ({ d with marker := Function.update d.marker item (some "") }, some .writing)
  | .writing, .write =>
      some ({ d with marker := Function.update d.marker item (some sha256) }, some .checked)
  | _, _ => none

/-- `is_ext4`. -/
def isExt4 (content : Bytes) : Bool := decide ((content.drop 1080).take 2 = [0x53, 0xef])

/-- An image that is no file system is not announced. -/
def Disk.announced (d : Disk) : Item → Bool
  | .image id => (d.file (.image id)).any isExt4
  | _ => true

def Pass.visit (kind : Kind) (wanted : List Wanted) : List Wanted → Pass
  | [] => .sweeping kind wanted
  | current :: rest => .visiting kind wanted current rest .reading

def Call.holds : Call → Bool
  | holding .. => true
  | _ => false

def Node.stopped (s : Node) : Node := { s with pass := .idle, calls := [] }

def step (s : Node) : Label → Option Node
  | .list kind wanted =>
    match s.pass with
    | .idle => if wanted.all (fun w => w.item.ofKind kind) then some
        { s with pass := .visit kind wanted wanted } else none
    | _ => none
  | .sync event =>
    match s.pass with
    | .visiting kind wanted current rest stage =>
      (fetch s.disk current.item current.sha256 stage event).map (fun fetched =>
        match fetched.2 with
        | some stage =>
            { s with disk := fetched.1, pass := .visiting kind wanted current rest stage }
        | none => { s with disk := fetched.1 }.stopped)
    | _ => none
  | .announce =>
    match s.pass with
    | .visiting kind wanted _ rest .checked => some { s with pass := .visit kind wanted rest }
    | _ => none
  | .remove item =>
    match s.pass with
    | .sweeping kind wanted =>
      if item.ofKind kind && (s.disk.file item).isSome &&
        wanted.all (fun w => decide (w.item ≠ item)) then
        some { s with disk := { s.disk with file := Function.update s.disk.file item none }
                      pass := .unmarking kind wanted item }
      else none
    | _ => none
  | .removeTemp artifact =>
    match s.pass with
    | .sweeping .environments wanted =>
      if (s.disk.temp (.environment artifact)).isSome then
        some { s with disk := { s.disk with temp := Function.update s.disk.temp (.environment artifact) none }
                      pass := .unmarking .environments wanted (.environment artifact) }
      else none
    | _ => none
  | .unmark succeeds =>
    match s.pass with
    | .unmarking kind wanted item =>
      some { s with disk := if succeeds then { s.disk with marker := Function.update s.disk.marker item none } else s.disk
                    pass := .sweeping kind wanted }
    | _ => none
  | .finish =>
    match s.pass with
    | .sweeping _ _ => some { s with pass := .idle }
    | _ => none
  | .call digest => if validDigest digest then some
      { s with calls := s.calls ++ [.looking digest] } else none
  | .look index =>
    match s.calls[index]? with
    | some (.looking digest) =>
      some
        { s with calls := s.calls.set index (.seen digest (s.disk.file (.workingDir digest)).isSome) }
    | _ => none
  | .consult index readable =>
    match s.calls[index]? with
    | some (.seen digest present) =>
      if present && decide (s.disk.read (.workingDir digest) readable = digest) then
        some { s with calls := s.calls.set index (.returning digest) }
      else some { s with calls := s.calls.set index (.waiting digest) }
    | _ => none
  | .lock index =>
    match s.calls[index]? with
    | some (.waiting digest) =>
      if s.calls.any Call.holds then none else some
        { s with calls := s.calls.set index (.holding digest .reading) }
    | _ => none
  | .work index event =>
    match s.calls[index]? with
    | some (.holding digest stage) =>
      (fetch s.disk (.workingDir digest) digest stage event).map (fun fetched =>
        match fetched.2 with
        | some .checked =>
            { s with disk := fetched.1, calls := s.calls.set index (.returning digest) }
        | some stage =>
            { s with disk := fetched.1, calls := s.calls.set index (.holding digest stage) }
        | none => { s with disk := fetched.1, calls := s.calls.eraseIdx index })
    | _ => none
  | .answer index =>
    match s.calls[index]? with
    | some (.returning _) => some { s with calls := s.calls.eraseIdx index }
    | _ => none
  | .fail index => some { s with calls := s.calls.eraseIdx index }
  | .stop => some s.stopped

/-- The file is there and has the checksum. -/
def Disk.Holds (d : Disk) (item : Item) (sha256 : String) : Prop :=
  ∃ content, d.file item = some content ∧ Crates.sha256 content = sha256

/-- The marker says something else than the checksum of the file beside it. -/
def Disk.stale (d : Disk) (item : Item) : Bool :=
  (d.file item).any (fun content => (d.marker item).any (fun text =>
    decide (text ≠ "") && decide (Crates.sha256 content ≠ text)))

/-- What a step of the node would leave behind: the process ends, or finds a download to be wrong, while a marker
from before the download stands beside the file. Nor may a checksum be expected that is empty. -/
def keepsMarkers (s : Node) : Label → Bool
  | .list _ wanted => wanted.all (fun w => decide (w.sha256 ≠ ""))
  | .stop =>
    match s.pass with
    | .visiting _ _ current _ .verifying | .visiting _ _ current _ .truncating =>
        !s.disk.stale current.item
    | _ => true
  | .sync _ =>
    match s.pass with
    | .visiting _ _ current _ .verifying =>
      s.disk.hashes current.item current.sha256 || !s.disk.stale current.item
    | _ => true
  | _ => true

theorem Disk.hashes_iff (d : Disk) (item : Item) (sha256 : String) : d.hashes item sha256 = true ↔
    d.Holds item sha256 := by
  simp only [hashes, Option.any_eq_true, decide_eq_true_eq, Holds]

/-- What is known of the file at each stage. -/
def Stage.Knows (d : Disk) (item : Item) (sha256 : String) : Stage → Prop
  | requesting | receiving => ¬ d.Holds item sha256
  | truncating | writing | checked => d.Holds item sha256
  | _ => True

/-- What one operation does: it leaves the files and markers alone, puts a download in place of a file that does not
have the checksum, empties the marker, or writes it beside a file that does. -/
inductive Fetched (d : Disk) (item : Item) (sha256 : String) : Stage → Option Stage →
    Disk → Prop where
  | quiet (stage : Stage) (next : Stage) (temp : Item → Option Bytes)
      (knows : next.Knows d item sha256)
      (before : stage ≠ .verifying) (outside : stage ≠ .truncating) (after : next ≠ .verifying)
      (writes : next ≠ .writing) :
      Fetched d item sha256 stage (some next) { d with temp := temp }
  | verified (holds : d.Holds item sha256) : Fetched d item sha256 .verifying (some .truncating) d
  | rejected (other : ¬ d.Holds item sha256) : Fetched d item sha256 .verifying none d
  | renamed (content : Bytes) (temp : Item → Option Bytes) :
      Fetched d item sha256 .receiving (some .verifying)
        { d with file := Function.update d.file item (some content), temp := temp }
  | truncated : Fetched d item sha256 .truncating (some .writing)
      { d with marker := Function.update d.marker item (some "") }
  | written : Fetched d item sha256 .writing (some .checked)
      { d with marker := Function.update d.marker item (some sha256) }

theorem fetch_cases {d e : Disk} {item : Item} {sha256 : String} {stage : Stage}
    {next : Option Stage} {event : Event}
    (knows : stage.Knows d item sha256)
    (trusts : stage = .reading → ∀ readable, d.read item readable = sha256 →
      (d.file item).isSome = true →
      d.Holds item sha256)
    (fetched : fetch d item sha256 stage event =
      some (e, next)) : Fetched d item sha256 stage next e := by
  unfold fetch at fetched
  split at fetched
  · rename_i readable
    split_ifs at fetched with absent verified <;> cases fetched
    · refine .quiet _ _ _ ?_ (by decide) (by decide) (by decide) (by decide)
      rintro ⟨content, there, -⟩
      rw [there] at absent
      cases absent
    · exact .quiet _ _ _ (trusts rfl readable verified
        (by simpa [Option.isSome_iff_ne_none] using absent))
        (by decide) (by decide) (by decide) (by decide)
    · exact .quiet _ _ _ trivial (by decide) (by decide) (by decide) (by decide)
  · cases fetched
    split_ifs with hashes
    · exact .quiet _ _ _ ((d.hashes_iff item sha256).mp hashes) (by decide) (by decide)
        (by decide) (by decide)
    · exact .quiet _ _ _ (fun holds => hashes ((d.hashes_iff item sha256).mpr holds))
        (by decide) (by decide) (by decide) (by decide)
  · cases fetched
    exact .quiet _ _ _ knows (by decide) (by decide) (by decide) (by decide)
  · cases fetched
    exact .quiet _ _ _ knows (by decide) (by decide) (by decide) (by decide)
  · obtain ⟨content, -, renamed⟩ := Option.map_eq_some_iff.mp fetched
    cases renamed
    exact .renamed content _
  · cases fetched
    split_ifs with hashes
    · exact .verified ((d.hashes_iff item sha256).mp hashes)
    · exact .rejected (fun holds => hashes ((d.hashes_iff item sha256).mpr holds))
  · cases fetched
    exact .truncated
  · cases fetched
    exact .written
  · cases fetched

section
variable {d e : Disk} {item : Item} {sha256 : String} {stage : Stage} {next : Option Stage}

theorem Disk.Holds.congr (same : e.file item = d.file item) : e.Holds item sha256 ↔
    d.Holds item sha256 := by
  rw [Holds, Holds, same]

theorem Disk.stale_congr (file : e.file item = d.file item)
    (marker : e.marker item = d.marker item) :
    e.stale item = d.stale item := by rw [stale, stale, file, marker]

theorem Disk.stale_eq_false_iff (d : Disk) (item : Item) : d.stale item = false ↔
    ∀ content text, d.file item = some content → d.marker item = some text →
      text = "" ∨ Crates.sha256 content = text := by
  unfold stale
  cases d.file item <;> cases d.marker item <;> simp
  tauto

omit [Crates] in
/-- Text that is read from a marker is in it. -/
theorem Disk.marker_of_read {readable : Bool} (read : d.read item readable = sha256)
    (nonempty : sha256 ≠ "") :
    d.marker item = some sha256 := by
  unfold Disk.read at read
  split_ifs at read
  · cases marker : d.marker item with
    | none => exact absurd (by simpa [marker] using read.symm) nonempty
    | some text => simpa [marker] using read
  · exact absurd read.symm nonempty

theorem fetch_frame {event : Event}
    (fetched : fetch d item sha256 stage event = some (e, next)) {other : Item}
    (differs : other ≠ item) : e.file other = d.file other ∧ e.marker other = d.marker other := by
  unfold fetch at fetched
  split at fetched
  case h_1 =>
    split_ifs at fetched <;> cases fetched <;> exact ⟨rfl, rfl⟩
  case h_5 =>
    obtain ⟨content, -, renamed⟩ := Option.map_eq_some_iff.mp fetched
    cases renamed
    exact ⟨Function.update_of_ne differs _ _, rfl⟩
  all_goals cases fetched
  case h_7 | h_8 => exact ⟨rfl, Function.update_of_ne differs _ _⟩
  all_goals exact ⟨rfl, rfl⟩

theorem Stage.Knows.congr {n : Stage} (knows : n.Knows d item sha256)
    (same : e.file item = d.file item) :
    n.Knows e item sha256 := by
  have equal : e.Holds item sha256 ↔ d.Holds item sha256 := Disk.Holds.congr same
  cases n <;> simp only [Stage.Knows, equal] at knows ⊢ <;> exact knows

theorem Fetched.knows {n : Stage} (fetched : Fetched d item sha256 stage (some n) e)
    (knows : stage.Knows d item sha256) :
    n.Knows e item sha256 := by
  cases fetched with
  | quiet _ _ temp after => exact after.congr rfl
  | verified holds => exact holds
  | renamed => trivial
  | truncated | written => exact knows

/-- A file that has its checksum keeps it. -/
theorem Fetched.holds (fetched : Fetched d item sha256 stage next e)
    (knows : stage.Knows d item sha256) {other : Item}
    {sum : String} (own : other = item → sum = sha256)
    (holds : d.Holds other sum) : e.Holds other sum := by
  cases fetched with
  | quiet | verified | rejected | truncated | written => exact holds
  | renamed content temp =>
    by_cases same : other = item
    · subst same
      exact absurd (own rfl ▸ holds) knows
    · exact (Disk.Holds.congr (Function.update_of_ne same _ _)).mpr holds

/-- Of an item whose marker is written by these operations alone, no marker is ever wrong. -/
theorem Fetched.marks (fetched : Fetched d item sha256 stage next e)
    (knows : stage.Knows d item sha256)
    (marks : ∀ text, d.marker item = some text → text = "" ∨ text = sha256 ∧ d.Holds item sha256) :
    ∀ text, e.marker item = some text → text = "" ∨ text = sha256 ∧ e.Holds item sha256 := by
  intro text there
  cases fetched with
  | quiet | verified | rejected => exact marks text there
  | renamed content temp => exact (marks text there).imp_right fun ⟨_, holds⟩ => absurd holds knows
  | truncated => exact .inl (by simpa using there.symm)
  | written => exact .inr ⟨by simpa using there.symm, knows⟩

end

/-! The main loop. -/

def Pass.wants : Pass → List Wanted
  | visiting _ _ current rest _ => current :: rest
  | _ => []

/-- The item is not one whose download has just been put in place. -/
def Pass.settled (item : Item) : Pass → Bool
  | visiting _ _ current _ .verifying | visiting _ _ current _ .truncating =>
      decide (current.item ≠ item)
  | _ => true

/-- Markers of images and artifacts are right, but for an item whose download has just been put in place. -/
structure Synced (s : Node) : Prop where
  wants : ∀ w ∈ s.pass.wants, w.sha256 ≠ "" ∧ ∃ kind, w.item.ofKind kind = true
  knows : ∀ kind wanted current rest stage, s.pass = .visiting kind wanted current rest stage →
    stage.Knows s.disk current.item current.sha256
  fresh : ∀ item kind, item.ofKind kind = true → s.pass.settled item = true →
    s.disk.stale item = false

/-- What the pass knows does not depend on the working directories. -/
theorem Synced.of_same {s t : Node} (synced : Synced s) (pass : t.pass = s.pass)
    (same : ∀ item kind, item.ofKind kind = true →
      t.disk.file item = s.disk.file item ∧
        t.disk.marker item = s.disk.marker item) : Synced t := by
  refine ⟨by
    rw [pass]; exact synced.wants, fun kind wanted current rest stage at_stage => ?_,
    fun item kind is settled => ?_⟩
  · rw [pass] at at_stage
    obtain ⟨-, own, is⟩ := synced.wants current (by rw [at_stage]; exact List.mem_cons_self)
    exact (synced.knows kind wanted current rest stage at_stage).congr (same _ own is).1
  · rw [pass] at settled
    rw [Disk.stale_congr (same item kind is).1 (same item kind is).2]
    exact synced.fresh item kind is settled

/-- A pass that is at no item, or at the start of one. -/
theorem Synced.rest {disk : Disk} {pass : Pass} {calls : List Call}
    (wants : ∀ w ∈ pass.wants, w.sha256 ≠ "" ∧ ∃ kind, w.item.ofKind kind = true)
    (starts : ∀ kind wanted current rest stage, pass = .visiting kind wanted current rest stage →
      stage = .reading)
    (fresh : ∀ item kind, item.ofKind kind = true → disk.stale item = false) :
    Synced ⟨disk, pass, calls⟩ := by
  refine ⟨wants, fun kind wanted current rest stage is => ?_, fun item kind is _ =>
    fresh item kind is⟩
  obtain rfl := starts kind wanted current rest stage is
  trivial

theorem Synced.still {disk : Disk} {pass : Pass} {calls : List Call} (still : pass.wants = [])
    (fresh : ∀ item kind, item.ofKind kind = true →
      disk.stale item = false) : Synced ⟨disk, pass, calls⟩ := by
  refine Synced.rest (fun w member => ?_) (fun kind wanted current rest stage is => ?_) fresh
  · rw [still] at member
    cases member
  · rw [is] at still
    cases still

omit [Crates] in
theorem Pass.visit_wants (kind : Kind)
    (wanted rest : List Wanted) : (Pass.visit kind wanted rest).wants = rest := by
  cases rest <;> rfl

omit [Crates] in
theorem Pass.visit_starts (kind : Kind)
    (wanted remaining : List Wanted) : ∀ kind' wanted' current rest stage,
    Pass.visit kind wanted remaining = .visiting kind' wanted' current rest stage →
      stage = .reading := by
  intro kind' wanted' current rest stage is
  cases remaining with
  | nil => cases is
  | cons => cases is; rfl

theorem Synced.sync {s t : Node}
    {event : Event} (synced : Synced s) (keeps : keepsMarkers s (.sync event) = true)
    (stepped : step s (.sync event) = some t) : Synced t := by
  simp only [step] at stepped
  split at stepped
  · rename_i kind wanted current rest stage visiting
    obtain ⟨⟨disk, next⟩, ran, rfl⟩ := Option.map_eq_some_iff.mp stepped
    have knows := synced.knows kind wanted current rest stage visiting
    obtain ⟨nonempty, own, is⟩ := synced.wants current (by rw [visiting]; exact List.mem_cons_self)
    have before (item : Item) (kind : Kind) (is : item.ofKind kind = true)
        (outside : (stage ≠ .verifying ∧ stage ≠ .truncating) ∨ item ≠ current.item) : s.disk.stale
          item = false := by
      refine synced.fresh item kind is ?_
      rw [visiting]
      cases stage <;> simp only [Pass.settled,
        decide_eq_true_eq] <;> simp at outside <;> exact fun same => outside same.symm
    have trusts : stage = .reading → ∀ readable, s.disk.read current.item
      readable = current.sha256 →
        (s.disk.file current.item).isSome = true → s.disk.Holds current.item current.sha256 := by
      rintro rfl readable read there
      obtain ⟨content, there⟩ := Option.isSome_iff_exists.mp there
      have right := (Disk.stale_eq_false_iff _ _).mp (before _ own is (.inl ⟨by decide, by decide⟩))
      exact ⟨content, there, (right content _
        there (Disk.marker_of_read read nonempty)).resolve_left nonempty⟩
    have fetched := fetch_cases knows trusts ran
    have others {item : Item} {kind : Kind} (is : item.ofKind kind = true) (differs : item ≠
      current.item) :
        disk.stale item = false := by
      rw [Disk.stale_congr (fetch_frame ran differs).1 (fetch_frame ran differs).2]
      exact before item kind is (.inr differs)
    cases next with
    | none =>
      refine Synced.still rfl fun item kind is => ?_
      by_cases same : item = current.item
      · subst same
        cases fetched with
        | rejected other =>
          simp only [keepsMarkers, visiting,
            Bool.or_eq_true, Disk.hashes_iff, Bool.not_eq_true'] at keeps
          exact keeps.resolve_left other
      · exact others is same
    | some next =>
      refine ⟨fun w member => synced.wants w (by rw [visiting]; exact member), fun _
        _ _ _ _ is => ?_,
        fun item kind is settled => ?_⟩
      · cases is
        exact fetched.knows knows
      · by_cases same : item = current.item
        · subst same
          cases fetched with
          | quiet _ _ temp after verifying truncating =>
            exact before _ kind is (.inl ⟨verifying, truncating⟩)
          | verified | renamed => simp [Pass.settled] at settled
          | truncated => exact (Disk.stale_eq_false_iff _ _).mpr fun _ text _
              there => .inl (by simpa using there.symm)
          | written =>
            obtain ⟨content, there, sum⟩ := knows
            refine (Disk.stale_eq_false_iff _ _).mpr fun other text found marked => .inr ?_
            obtain rfl := Option.some.inj (there.symm.trans found)
            exact sum.trans (by simpa using marked)
        · exact others is same
  · cases stepped

theorem Synced.fresh_idle {s : Node} (synced : Synced s)
    (settled : ∀ item, s.pass.settled item = true) : ∀ item kind, item.ofKind kind = true →
      s.disk.stale item = false :=
  fun item kind is => synced.fresh item kind is (settled item)

/-- A file or a marker is removed. -/
theorem Disk.stale_removed {d : Disk} {item other : Item} (fresh : d.stale other = false) :
    ({ d with file := Function.update d.file item none } : Disk).stale other = false ∧
      ({ d with marker := Function.update d.marker item none } : Disk).stale other = false := by
  rw [stale_eq_false_iff] at fresh
  constructor <;> refine (stale_eq_false_iff _ _).mpr fun content text found marked => ?_
  · by_cases same : other = item
    · subst same
      simp at found
    · exact fresh content text ((Function.update_of_ne same _ _).symm.trans found) marked
  · by_cases same : other = item
    · subst same
      simp at marked
    · exact fresh content text found ((Function.update_of_ne same _ _).symm.trans marked)

/-- A call of `ensure_working_dir` leaves the pass alone, and all items but working directories. -/
theorem work_frame {s t : Node}
    {index : Nat} {event : Event} (stepped : step s (.work index event) = some t) :
    t.pass = s.pass ∧ ∀ item kind, item.ofKind kind = true →
      t.disk.file item = s.disk.file item ∧ t.disk.marker item = s.disk.marker item := by
  simp only [step] at stepped
  split at stepped
  · rename_i digest stage holding
    obtain ⟨⟨disk, next⟩, ran, rfl⟩ := Option.map_eq_some_iff.mp stepped
    have frame (item : Item) (kind : Kind) (is : item.ofKind kind = true) :
        disk.file item = s.disk.file item ∧ disk.marker item = s.disk.marker item := by
      refine fetch_frame ran ?_
      rintro rfl
      cases kind <;> cases is
    split <;> exact ⟨rfl, frame⟩
  · cases stepped

def Label.ofCall : Label → Bool
  | call _ | look _ | consult _ _ | lock _ | answer _ | fail _ => true
  | _ => false

/-- The steps of a call outside the lock. -/
inductive Called (s : Node) : Node → Prop where
  | joined (digest : String) (valid : validDigest digest = true) : Called s
      { s with calls := s.calls ++ [.looking digest] }
  | looked (index : Nat) (digest : String) (present : Bool)
      (there : s.calls[index]? = some (.looking digest)) :
      Called s { s with calls := s.calls.set index (.seen digest present) }
  | trusted (index : Nat) (digest : String) (present readable : Bool)
      (there : s.calls[index]? = some (.seen digest present))
      (read : s.disk.read (.workingDir digest) readable = digest) :
      Called s { s with calls := s.calls.set index (.returning digest) }
  | doubted (index : Nat) (digest : String) (present : Bool)
      (there : s.calls[index]? = some (.seen digest present)) :
      Called s { s with calls := s.calls.set index (.waiting digest) }
  | locked (index : Nat) (digest : String) (there : s.calls[index]? = some (.waiting digest))
      (free : s.calls.any Call.holds = false) :
      Called s { s with calls := s.calls.set index (.holding digest .reading) }
  | left (index : Nat) : Called s { s with calls := s.calls.eraseIdx index }

theorem called_cases {s t : Node} {label : Label} (stepped : step s label =
    some t) (call : label.ofCall = true) :
    Called s t := by
  cases label with
  | call digest =>
    simp only [step] at stepped
    split_ifs at stepped with valid
    exact Option.some.inj stepped ▸ .joined digest valid
  | look index =>
    simp only [step] at stepped
    split at stepped
    · rename_i digest there
      exact Option.some.inj stepped ▸ .looked index digest _ there
    · cases stepped
  | consult index readable =>
    simp only [step] at stepped
    split at stepped
    · rename_i digest present there
      split_ifs at stepped with same
      · simp only [Bool.and_eq_true, decide_eq_true_eq] at same
        exact Option.some.inj stepped ▸ .trusted index digest present readable there same.2
      · exact Option.some.inj stepped ▸ .doubted index digest present there
    · cases stepped
  | lock index =>
    simp only [step] at stepped
    split at stepped
    · rename_i digest there
      split_ifs at stepped with held
      exact Option.some.inj stepped ▸ .locked index digest there (Bool.eq_false_iff.mpr held)
    · cases stepped
  | answer index =>
    simp only [step] at stepped
    split at stepped
    · exact Option.some.inj stepped ▸ .left index
    · cases stepped
  | fail index => exact Option.some.inj stepped ▸ .left index
  | _ => cases call

theorem Synced.step {s t : Node} {label : Label} (synced : Synced s) (keeps : keepsMarkers s label =
    true)
    (stepped : step s label = some t) : Synced t := by
  cases label with
  | sync event => exact synced.sync keeps stepped
  | list kind wanted =>
    simp only [Markers.step] at stepped
    split at stepped
    · rename_i idle
      split_ifs at stepped with own
      obtain rfl := Option.some.inj stepped
      simp only [keepsMarkers, List.all_eq_true, decide_eq_true_eq] at keeps own
      refine Synced.rest (fun w member => ?_) (Pass.visit_starts kind wanted wanted)
        (synced.fresh_idle fun item => by rw [idle]; rfl)
      rw [Pass.visit_wants] at member
      exact ⟨keeps w member, kind, own w member⟩
    · cases stepped
  | announce =>
    simp only [Markers.step] at stepped
    split at stepped
    · rename_i kind wanted current rest visiting
      obtain rfl := Option.some.inj stepped
      refine Synced.rest (fun w member => ?_) (Pass.visit_starts kind wanted rest)
        (synced.fresh_idle fun item => by rw [visiting]; rfl)
      rw [Pass.visit_wants] at member
      exact synced.wants w (by rw [visiting]; exact List.mem_cons_of_mem _ member)
    · cases stepped
  | remove item =>
    simp only [Markers.step] at stepped
    split at stepped
    · rename_i kind wanted sweeping
      split_ifs at stepped
      obtain rfl := Option.some.inj stepped
      refine Synced.still rfl fun other kind is => ?_
      exact (Disk.stale_removed
        (synced.fresh_idle (fun item => by rw [sweeping]; rfl) other kind is)).1
    · cases stepped
  | removeTemp artifact =>
    simp only [Markers.step] at stepped
    split at stepped
    · rename_i wanted sweeping
      split_ifs at stepped
      obtain rfl := Option.some.inj stepped
      exact Synced.still rfl (synced.fresh_idle fun item => by rw [sweeping]; rfl)
    · cases stepped
  | unmark succeeds =>
    simp only [Markers.step] at stepped
    split at stepped
    · rename_i kind wanted item unmarking
      obtain rfl := Option.some.inj stepped
      refine Synced.still rfl fun other kind is => ?_
      have fresh := synced.fresh_idle (fun item => by rw [unmarking]; rfl) other kind is
      split_ifs
      · exact (Disk.stale_removed fresh).2
      · exact fresh
    · cases stepped
  | finish =>
    simp only [Markers.step] at stepped
    split at stepped
    · rename_i kind wanted sweeping
      obtain rfl := Option.some.inj stepped
      exact Synced.still rfl (synced.fresh_idle fun item => by rw [sweeping]; rfl)
    · cases stepped
  | stop =>
    obtain rfl := Option.some.inj stepped
    refine Synced.still rfl fun item kind is => ?_
    by_cases settled : s.pass.settled item = true
    · exact synced.fresh item kind is settled
    · unfold Pass.settled at settled
      split at settled
      all_goals
        rename_i at_stage
        simp only [keepsMarkers, at_stage,
          Bool.not_eq_true', decide_eq_true_eq, not_not] at keeps settled
        first | exact settled ▸ keeps | exact absurd trivial settled
  | call | look | consult | lock | answer | fail =>
    cases called_cases stepped rfl <;> exact synced.of_same rfl fun _ _ _ => ⟨rfl, rfl⟩
  | work index event => exact synced.of_same (work_frame stepped).1 (work_frame stepped).2

/-! The calls of `ensure_working_dir`. -/

def Call.digest : Call → String
  | looking digest | seen digest _ | waiting digest | holding digest _ | returning digest => digest

/-- What a call knows of its file. -/
def Call.Fits (d : Disk) (call : Call) : Prop :=
  call.digest ≠ "" ∧
    match call with
    | .holding digest stage => stage.Knows d (.workingDir digest) digest
    | .returning digest => d.Holds (.workingDir digest) digest
    | _ => True

/-- Only verified working directories have a marker, and at most one call holds the lock. -/
structure Shared (s : Node) : Prop where
  calls : ∀ call ∈ s.calls, call.Fits s.disk
  marks : ∀ digest text, s.disk.marker (.workingDir digest) = some text →
    text = "" ∨ text = digest ∧ s.disk.Holds (.workingDir digest) digest
  alone : s.calls.countP Call.holds ≤ 1

theorem Shared.left {s : Node} (shared : Shared s) (index : Nat) : Shared
    { s with calls := s.calls.eraseIdx index } :=
  ⟨fun call member => shared.calls call (List.mem_of_mem_eraseIdx member), shared.marks,
    ((List.eraseIdx_sublist s.calls index).countP_le).trans shared.alone⟩

/-- A call goes on. It holds the lock only if it did before, or if nobody did. -/
theorem Shared.moved {s : Node} (shared : Shared s) {index : Nat} {before : Call}
    (there : s.calls[index]? = some before)
    {after : Call} (fits : after.Fits s.disk)
    (holds : after.holds = true → before.holds = true ∨ s.calls.any Call.holds = false) :
    Shared { s with calls := s.calls.set index after } := by
  refine ⟨fun call member => ?_, shared.marks, ?_⟩
  · rcases List.mem_or_eq_of_mem_set member with member | rfl
    · exact shared.calls call member
    · exact fits
  · have alone := shared.alone
    have count := (Keyed.perm_eraseIdx there).countP_eq Call.holds
    rw [List.countP_cons] at count
    change (s.calls.set index after).countP Call.holds ≤ 1
    rw [(Keyed.perm_set there after).countP_eq, List.countP_cons]
    split_ifs with held
    · rcases holds held with was | free
      · rw [if_pos was] at count
        omega
      · have none : s.calls.countP Call.holds = 0 := List.countP_eq_zero.mpr fun call member => by
          simpa using List.any_eq_false.mp free call member
        omega
    · omega

theorem Shared.called {s t : Node} (shared : Shared s) (called : Called s t) : Shared t := by
  have nonempty {index : Nat} {call : Call}
    (there : s.calls[index]? = some call) : call.digest ≠ "" :=
    (shared.calls call (List.mem_of_getElem? there)).1
  cases called with
  | joined digest valid =>
    refine ⟨fun call member => ?_, shared.marks, ?_⟩
    · rcases List.mem_append.mp member with member | new
      · exact shared.calls call member
      · obtain rfl := List.mem_singleton.mp new
        refine ⟨?_, trivial⟩
        rintro rfl
        exact absurd valid (by decide)
    · simpa [List.countP_append, Call.holds] using shared.alone
  | looked index digest present there =>
    have own : digest ≠ "" := nonempty there
    exact shared.moved there ⟨own, trivial⟩ (fun held => by cases held)
  | trusted index digest present readable there read =>
    have own : digest ≠ "" := nonempty there
    have marked := Disk.marker_of_read read own
    have holds := ((shared.marks digest digest marked).resolve_left own).2
    exact shared.moved there ⟨own, holds⟩ (fun held => by cases held)
  | doubted index digest present there =>
    have own : digest ≠ "" := nonempty there
    exact shared.moved there ⟨own, trivial⟩ (fun held => by cases held)
  | locked index digest there free =>
    have own : digest ≠ "" := nonempty there
    exact shared.moved there ⟨own, trivial⟩ (fun _ => .inr free)
  | left index => exact shared.left index

/-- The pass of the main loop leaves working directories alone. -/
theorem Shared.of_same {s t : Node} (shared : Shared s) (calls : t.calls = s.calls ∨ t.calls = [])
    (same : ∀ digest, t.disk.file (.workingDir digest) = s.disk.file (.workingDir digest) ∧
      t.disk.marker (.workingDir digest) = s.disk.marker (.workingDir digest)) : Shared t := by
  have fewer : t.calls.Sublist s.calls := by
    rcases calls with calls | calls <;> rw [calls]
    exact List.nil_sublist _
  refine ⟨fun call member => ?_, fun digest text there => ?_, fewer.countP_le.trans shared.alone⟩
  · obtain ⟨nonempty, fits⟩ := shared.calls call (fewer.subset member)
    refine ⟨nonempty, ?_⟩
    cases call with
    | holding digest stage => exact Stage.Knows.congr fits (same digest).1
    | returning digest => exact (Disk.Holds.congr (same digest).1).mpr fits
    | _ => trivial
  · rw [(same digest).2] at there
    exact (shared.marks digest text there).imp_right fun ⟨own, holds⟩ =>
      ⟨own, (Disk.Holds.congr (same digest).1).mpr holds⟩

theorem Shared.work {s t : Node} {index : Nat} {event : Event} (shared : Shared s)
    (stepped : step s (.work index event) = some t) : Shared t := by
  simp only [step] at stepped
  split at stepped
  · rename_i digest stage there
    obtain ⟨⟨disk, next⟩, ran, rfl⟩ := Option.map_eq_some_iff.mp stepped
    obtain ⟨nonempty, knows⟩ := shared.calls _ (List.mem_of_getElem? there)
    have trusts : stage = .reading → ∀ readable, s.disk.read (.workingDir digest) readable =
      digest →
        (s.disk.file (.workingDir digest)).isSome = true → s.disk.Holds
          (.workingDir digest) digest := by
      intro _ readable read _
      exact ((shared.marks digest digest (Disk.marker_of_read
        read nonempty)).resolve_left nonempty).2
    have fetched := fetch_cases knows trusts ran
    -- The other calls do not hold the lock.
    have count := (Keyed.perm_eraseIdx there).countP_eq Call.holds
    rw [List.countP_cons, if_pos (show (Call.holding digest stage).holds = true from rfl)] at count
    have alone := shared.alone
    have outside : ∀ call ∈ s.calls.eraseIdx index, call.holds = false := by
      have none : (s.calls.eraseIdx index).countP Call.holds = 0 := by omega
      exact fun call member => by simpa using List.countP_eq_zero.mp none call member
    have others : ∀ call ∈ s.calls.eraseIdx index, call.Fits disk := by
      intro call member
      obtain ⟨own, fits⟩ := shared.calls call (List.mem_of_mem_eraseIdx member)
      refine ⟨own, ?_⟩
      cases call with
      | holding => cases outside _ member
      | returning other => exact fetched.holds knows (fun same => by cases same; rfl) fits
      | _ => trivial
    have marks : ∀ other text, disk.marker (.workingDir other) = some text →
        text = "" ∨ text = other ∧ disk.Holds (.workingDir other) other := by
      intro other text marked
      by_cases same : other = digest
      · subst same
        exact fetched.marks knows (shared.marks other) text marked
      · have differs : Item.workingDir other ≠ .workingDir digest := by simpa using same
        rw [(fetch_frame ran differs).2] at marked
        exact (shared.marks other text marked).imp_right fun ⟨own, holds⟩ =>
          ⟨own, (Disk.Holds.congr (fetch_frame ran differs).1).mpr holds⟩
    have goes (after : Call) (fits : after.Fits disk) : Shared
      ⟨disk, s.pass, s.calls.set index after⟩ := by
      refine ⟨fun call member => ?_, marks, ?_⟩
      · rcases List.mem_cons.mp ((Keyed.perm_set there after).mem_iff.mp member) with rfl | member
        · exact fits
        · exact others call member
      · change (s.calls.set index after).countP Call.holds ≤ 1
        rw [(Keyed.perm_set there after).countP_eq, List.countP_cons]
        split_ifs <;> omega
    cases next with
    | none =>
      have none : (s.calls.eraseIdx index).countP Call.holds = 0 := by omega
      exact ⟨others, marks, none.le.trans (Nat.zero_le 1)⟩
    | some next =>
      have after := fetched.knows knows
      cases next with
      | checked => exact goes (.returning digest) ⟨nonempty, after⟩
      | _ => exact goes (.holding digest _) ⟨nonempty, after⟩
  · cases stepped

theorem Shared.step {s t : Node} {label : Label} (shared : Shared s) (synced : Synced s)
    (stepped : step s label = some t) : Shared t := by
  cases label with
  | call | look | consult | lock | answer | fail => exact shared.called (called_cases stepped rfl)
  | work index event => exact shared.work stepped
  | sync event =>
    simp only [Markers.step] at stepped
    split at stepped
    · rename_i kind wanted current rest stage visiting
      obtain ⟨⟨disk, next⟩, ran, rfl⟩ := Option.map_eq_some_iff.mp stepped
      obtain ⟨-, own, is⟩ := synced.wants current (by rw [visiting]; exact List.mem_cons_self)
      have frame (digest : String) : disk.file
        (.workingDir digest) = s.disk.file (.workingDir digest) ∧
          disk.marker (.workingDir digest) = s.disk.marker (.workingDir digest) := by
        refine fetch_frame ran fun same => ?_
        rw [← same] at is
        cases own <;> cases is
      cases next with
      | none => exact shared.of_same (.inr rfl) frame
      | some next => exact shared.of_same (.inl rfl) frame
    · cases stepped
  | remove item =>
    simp only [Markers.step] at stepped
    split at stepped
    · rename_i kind wanted sweeping
      split_ifs at stepped with found
      obtain rfl := Option.some.inj stepped
      simp only [Bool.and_eq_true] at found
      refine shared.of_same (.inl rfl) fun digest => ⟨Function.update_of_ne ?_ _ _, rfl⟩
      rintro rfl
      cases kind <;> cases found.1.1
    · cases stepped
  | unmark succeeds =>
    simp only [Markers.step] at stepped
    split at stepped
    · rename_i kind wanted item unmarking
      obtain rfl := Option.some.inj stepped
      cases succeeds with
      | false => exact shared.of_same (.inl rfl) fun _ => ⟨rfl, rfl⟩
      | true =>
        refine ⟨shared.calls, fun digest text there => ?_, shared.alone⟩
        by_cases same : Item.workingDir digest = item
        · subst same
          simp at there
        · exact shared.marks digest text ((Function.update_of_ne same _ _).symm.trans there)
    · cases stepped
  | list | announce | removeTemp | finish =>
    simp only [Markers.step] at stepped
    split at stepped
    · first
        | split_ifs at stepped
          exact Option.some.inj stepped ▸ shared.of_same (.inl rfl) fun _ => ⟨rfl, rfl⟩
        | exact Option.some.inj stepped ▸ shared.of_same (.inl rfl) fun _ => ⟨rfl, rfl⟩
    · cases stepped
  | stop => exact Option.some.inj stepped ▸ shared.of_same (.inr rfl) fun _ => ⟨rfl, rfl⟩

/-- A node before its first pass. -/
structure Fresh (s : Node) : Prop where
  empty : s.disk = ⟨fun _ => none, fun _ => none, fun _ => none⟩
  idle : s.pass = .idle
  quiet : s.calls = []

/-- The node is about to announce the item as ready. -/
def Node.Announces (s : Node) (item : Item) (sha256 : String) : Prop :=
  ∃ kind wanted rest, s.pass = .visiting kind wanted ⟨item, sha256⟩ rest .checked ∧
    s.disk.announced item = true

/-- As long as no pass ends between a download and the new marker while the old marker is wrong, and no empty
checksum is expected: what is announced as ready, and every path that is returned, has the expected checksum. -/
theorem markers_sound {s t : Node} (fresh : Fresh s)
    (run : Runs.Reaches step (fun s label => keepsMarkers s label = true) s t) :
    (∀ item sha256, t.Announces item sha256 →
      ∃ content, t.disk.file item = some content ∧ Crates.sha256 content = sha256) ∧
    ∀ digest, .returning digest ∈ t.calls →
      ∃ content, t.disk.file (.workingDir digest) = some content ∧
        Crates.sha256 content = digest := by
  have sound : Synced t ∧ Shared t := by
    refine run.invariant (P := fun s => Synced s ∧ Shared s) ⟨⟨?_, ?_, ?_⟩, ?_, ?_, ?_⟩
      (fun sound keeps stepped => ⟨sound.1.step keeps stepped, sound.2.step sound.1 stepped⟩)
    all_goals simp [fresh.idle, fresh.quiet, fresh.empty, Pass.wants, Disk.stale]
  refine ⟨fun item sha256 ⟨kind, wanted, rest, visiting, _⟩ => ?_, fun digest member =>
    (sound.2.calls _ member).2⟩
  exact sound.1.knows _ _ _ _ _ visiting

end

namespace Demo
open Scraperack.Demo

def node : Node := ⟨⟨fun _ => none, fun _ => none, fun _ => none⟩, .idle, []⟩
def artifact : Item := .environment ⟨"a", by decide⟩

/-- The bytes that the controller has built. -/
def built : Bytes := [1]
def wanted : Wanted := ⟨artifact, crates.sha256 built⟩

/-- A download that is put in place of the file. -/
def downloading (content : Bytes) : List Label :=
  [.sync (.read true), .sync .create, .sync (.chunk content), .sync .rename]

def passing : List Label :=
  .list .environments [wanted] :: downloading built ++
    [.sync .verify, .sync .truncate, .sync .write]

/-- The artifact is announced, and removed in a later pass that ends before it removes the marker. Its next download
is damaged, and the pass ends; the pass after it finds the file and the old marker. -/
def outliving : List Label :=
  passing ++ [.announce, .finish, .list .environments [], .remove artifact, .stop,
    .list .environments [wanted]] ++
    downloading [2] ++ [.sync .verify, .list .environments [wanted], .sync (.read true)]

/-- The node is about to announce the artifact. -/
def announces (s : Node) : Bool :=
  match s.pass with
  | .visiting _ _ current _ .checked =>
    decide (current.item = artifact) && decide (current.sha256 = crates.sha256 built) &&
      s.disk.announced current.item
  | _ => false

theorem announces_iff (s : Node) : announces s = true ↔ s.Announces artifact
    (crates.sha256 built) := by
  unfold announces Node.Announces
  constructor
  · intro shape
    split at shape
    · rename_i kind wanted current rest visiting
      simp only [Bool.and_eq_true, decide_eq_true_eq] at shape
      obtain ⟨⟨item, sum⟩, announced⟩ := shape
      refine ⟨kind, wanted, rest, ?_, item ▸ announced⟩
      rw [visiting, ← item, ← sum]
    · cases shape
  · rintro ⟨kind, wanted, rest, visiting, announced⟩
    simp [visiting, announced]

end Demo

theorem markers_sound_announced : ∃ t : Node, t.Announces Demo.artifact
    (Demo.crates.sha256 Demo.built) ∧
    ∃ content, t.disk.file Demo.artifact = some content ∧
      Demo.crates.sha256 content = Demo.crates.sha256 Demo.built := by
  obtain ⟨t, run, announced⟩ := Runs.exists_reaches (@step Demo.crates)
    (fun s label => @keepsMarkers Demo.crates s label = true) Demo.node Demo.passing Demo.announces
      (by decide +kernel)
  have ready := (Demo.announces_iff t).mp announced
  exact ⟨t, ready, (@markers_sound Demo.crates _ _ ⟨rfl, rfl, rfl⟩ run).1 _ _ ready⟩

/-- A marker outlives its file, and is trusted beside a download that failed verification. -/
theorem marker_outlives_file :
    ¬ ∀ [Crates] (s t : Node), Fresh s → Runs.Reaches step (fun _ _ => True) s t →
      ∀ item sha256, t.Announces item sha256 →
        ∃ content, t.disk.file item = some content ∧ Crates.sha256 content = sha256 := by
  intro claim
  obtain ⟨t, run, shape⟩ := Runs.exists_reaches (@step Demo.crates) (fun _ _ =>
    True) Demo.node Demo.outliving
    (fun t => Demo.announces t && decide (t.disk.file Demo.artifact = some [2])) (by decide +kernel)
  simp only [Bool.and_eq_true, decide_eq_true_eq] at shape
  obtain ⟨content, there, sum⟩ :=
    @claim Demo.crates _ _ ⟨rfl, rfl, rfl⟩ run _ _ ((Demo.announces_iff t).mp shape.1)
  obtain rfl := Option.some.inj (shape.2.symm.trans there)
  exact absurd sum (by decide)

end Scraperack.Markers
