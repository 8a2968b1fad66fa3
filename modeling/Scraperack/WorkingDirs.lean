import Scraperack.System

/-! Working directories on their way from the client to the executor. The client packs the files of
a directory into an archive and names it by its digest. The executor unpacks the archive under that
name, once, and takes what is there for the directory of every execution that names it. -/

namespace Scraperack.WorkingDirs

/-- The name of a file or directory. -/
abbrev Name := List Char

abbrev Path := List Name

/-- What a path in a directory leads to. -/
inductive Node where
  | file (data : Bytes)
  | directory
  | symlink
  | other
  deriving DecidableEq

/-- A directory, as `root.rglob("*")` lists it in some order. -/
abbrev Listing := List (Path × Node)

/-- A member of an archive. -/
structure Member where
  filename : List Char
  data : Bytes
  deriving DecidableEq

/-- The format of archives: the library `zipfile` at both ends. -/
class Zip where
  write : List Member → Bytes
  read : Bytes → Option (List Member)

/-- `as_posix`. -/
def posix (path : Path) : List Char := ['/'].intercalate path

/-- The members that `_archive` writes, in the order of the list. -/
def members : Listing → Except String (List Member)
  | [] => .ok []
  | (path, node) :: rest =>
    match node with
    | .symlink => .error "working directory contains a symlink"
    | .file data => (members rest).map (⟨posix path, data⟩ :: ·)
    | _ => members rest

/-- `sorted`. -/
def sorted (listing : Listing) : Listing := listing.insertionSort (fun a b => a.1 ≤ b.1)

/-- `_archive`: the digest and the archive. -/
def archive [Crates] [Zip] (listing : Listing) : Except String (String × Bytes) :=
  (members (sorted listing)).map (fun members =>
    (Crates.sha256 (Zip.write members), Zip.write members))

/-- What is in a directory of the executor. -/
inductive Object where
  | file (data : Bytes)
  | directory
  deriving DecidableEq

abbrev Files := Path → Option Object

/-- A directory that `mkdtemp` has just made. -/
def made : Files := fun path => if path = [] then some .directory else none

/-- The path is absolute or has the part `..`. -/
def refused (filename : List Char) : Bool :=
  decide (filename.head? = some '/') ||
    (filename.splitOn '/').any (fun part => decide (part = ['.', '.']))

/-- Where `extractall` puts a member. It leaves out some of the parts of the name. -/
def target (filename : List Char) : Path :=
  (filename.splitOn '/').filter (fun part =>
    decide (part ≠ [] ∧ part ≠ ['.'] ∧ part ≠ ['.', '.']))

/-- `ZipInfo.is_dir`. -/
def isDir (filename : List Char) : Bool := decide (filename.getLast? = some '/')

/-- `os.makedirs` of the directory that the path is in. -/
def makeParents (files : Files) (path : Path) : Option Files :=
  let parents := path.dropLast.inits
  if parents.any (fun parent => match files parent with
    | some (.file _) => true
    | _ => false) then none
  else some (fun other => if other ∈ parents then some .directory else files other)

def extractMember (files : Files) (member : Member) : Option Files :=
  let path := target member.filename
  (makeParents files path).bind (fun files =>
    match isDir member.filename, files path with
    | true, some (.file _) => none
    | true, _ => some (Function.update files path (some .directory))
    | false, some .directory => none
    | false, _ => some (Function.update files path (some (.file member.data))))

def extractAll (members : List Member) : Option Files := members.foldlM extractMember made

/-- What comes with a request: the digest, and the archive unless the node leaves it out. -/
structure Spec where
  hash : String
  archive : Option Bytes

/-- The working directories of one executor. -/
abbrev Directories := String → Option Files

/-- `prepare_working_dir`. The directory appears under its name when all of it is unpacked. -/
def prepareWorkingDir [Crates] [Zip] (directories : Directories) (spec : Spec) :
    Except String Directories :=
  if validDigest spec.hash = false then .error "invalid working directory hash"
  else if (directories spec.hash).isSome then .ok directories
  else
    match spec.archive with
    | none => .error "working directory archive is missing"
    | some data =>
      if Crates.sha256 data ≠ spec.hash then
        .error "working directory hash does not match archive"
      else
        match Zip.read data with
        | none => .error "File is not a zip file"
        | some members =>
          if members.any (fun member => refused member.filename) then
            .error "invalid working directory path"
          else
            match extractAll members with
            | none => .error "file exists"
            | some files => .ok (Function.update directories spec.hash (some files))

/-! Names. -/

/-- A name that a file system gives. -/
structure Proper (name : Name) : Prop where
  nonempty : name ≠ []
  slashless : '/' ∉ name
  nulless : '\x00' ∉ name
  dot : name ≠ ['.']
  dots : name ≠ ['.', '.']

section
variable {path : Path}

theorem posix_ne_nil (named : ∀ name ∈ path, Proper name) (deep : path ≠ []) : posix path ≠ [] := by
  obtain ⟨name, rest, rfl⟩ := List.exists_cons_of_ne_nil deep
  have first := (named name List.mem_cons_self).nonempty
  cases rest with
  | nil => simpa [posix] using first
  | cons => simp [posix, List.intercalate_cons_cons, first]

theorem split_posix (named : ∀ name ∈ path, Proper name) (deep : path ≠ []) :
    (posix path).splitOn '/' = path :=
  List.splitOn_intercalate '/' (fun name member => (named name member).slashless) deep

theorem target_posix (named : ∀ name ∈ path, Proper name) (deep : path ≠ []) :
    target (posix path) = path := by
  rw [target, split_posix named deep, List.filter_eq_self]
  intro name member
  have proper := named name member
  simp [proper.nonempty, proper.dot, proper.dots]

theorem isDir_posix (named : ∀ name ∈ path, Proper name) : isDir (posix path) = false := by
  rw [isDir, decide_eq_false_iff_not]
  induction path with
  | nil => simp [posix]
  | cons name rest ih =>
    have last (chars : List Char) (clean : '/' ∉ chars) : chars.getLast? ≠ some '/' :=
      fun same => clean (List.mem_of_getLast? same)
    cases rest with
    | nil => simpa [posix] using last name (named name List.mem_cons_self).slashless
    | cons next rest =>
      have later := ih (fun other member => named other (List.mem_cons_of_mem _ member))
      have some : posix (next :: rest) ≠ [] :=
        posix_ne_nil (fun other member => named other (List.mem_cons_of_mem _ member)) (by simp)
      obtain ⟨c, ends⟩ := Option.ne_none_iff_exists'.mp (mt List.getLast?_eq_none_iff.mp some)
      rw [posix, List.intercalate_cons_cons, List.getLast?_append]
      rw [posix] at ends later
      rw [ends] at later ⊢
      simpa using later

theorem refused_posix (named : ∀ name ∈ path, Proper name) (deep : path ≠ []) :
    refused (posix path) = false := by
  rw [refused, Bool.or_eq_false_iff, decide_eq_false_iff_not, split_posix named deep,
    List.any_eq_false]
  refine ⟨fun head => ?_, fun name member => by simpa using (named name member).dots⟩
  obtain ⟨name, rest, rfl⟩ := List.exists_cons_of_ne_nil deep
  have proper := named name List.mem_cons_self
  have first : name.head? = some '/' := by
    cases rest with
    | nil => simpa [posix] using head
    | cons next rest =>
      rw [posix, List.intercalate_cons_cons, List.append_assoc, List.head?_append] at head
      obtain ⟨c, starts⟩ := Option.ne_none_iff_exists'.mp (mt List.head?_eq_none_iff.mp proper.nonempty)
      rw [starts] at head ⊢
      simpa using head
  exact proper.slashless (List.mem_of_head? first)

theorem posix_nulless (named : ∀ name ∈ path, Proper name) : '\x00' ∉ posix path := by
  induction path with
  | nil => simp [posix]
  | cons name rest ih =>
    have first := (named name List.mem_cons_self).nulless
    cases rest with
    | nil => simpa [posix] using first
    | cons next rest =>
      have later := ih (fun other member => named other (List.mem_cons_of_mem _ member))
      rw [posix] at later ⊢
      rw [List.intercalate_cons_cons]
      simp [first, later]

end

/-! Unpacking. -/

/-- The files of a listing. -/
def regular (listing : Listing) : List (Path × Bytes) := listing.filterMap (fun
  | (path, .file data) => some (path, data)
  | _ => none)

@[simp] theorem mem_regular {listing : Listing} {path : Path} {data : Bytes} :
    (path, data) ∈ regular listing ↔ (path, .file data) ∈ listing := by
  rw [regular, List.mem_filterMap]
  constructor
  · rintro ⟨⟨other, node⟩, member, same⟩
    cases node <;> simp_all
  · exact fun member => ⟨_, member, rfl⟩

def packed (file : Path × Bytes) : Member := ⟨posix file.1, file.2⟩

/-- What an archive has when it is made: the files, in the order of the listing. -/
theorem members_ok {listing : Listing} {written : List Member} (done : members listing = .ok written) :
    written = (regular listing).map packed := by
  induction listing generalizing written with
  | nil => cases done; rfl
  | cons entry rest ih =>
    obtain ⟨path, node⟩ := entry
    cases node with
    | symlink => cases done
    | file data =>
      cases later : members rest with
      | error => rw [members, later] at done; cases done
      | ok others => rw [members, later] at done; cases done; rw [ih later]; rfl
    | directory => exact ih done
    | other => exact ih done

/-- The directory has these files, the directories on the way to them, and nothing else. -/
def Holds (files : Files) (done : List (Path × Bytes)) : Prop :=
  ∀ path object, files path = some object ↔
    match object with
    | .file data => (path, data) ∈ done
    | .directory => path = [] ∨ ∃ inner data, inner ≠ [] ∧ (path ++ inner, data) ∈ done

/-- No file is below another, and each is at one place. -/
def Apart (done : List (Path × Bytes)) : Prop :=
  done.Pairwise (fun one other => ¬ one.1 <+: other.1 ∧ ¬ other.1 <+: one.1)

theorem mem_parents {path parent : Path} (deep : path ≠ []) :
    parent ∈ path.dropLast.inits ↔ ∃ inner, inner ≠ [] ∧ parent ++ inner = path := by
  rw [List.mem_inits]
  constructor
  · rintro ⟨between, same⟩
    refine ⟨between ++ [path.getLast deep], by simp, ?_⟩
    rw [← List.append_assoc, same, List.dropLast_append_getLast]
  · rintro ⟨inner, some, rfl⟩
    exact ⟨inner.dropLast, (List.dropLast_append_of_ne_nil some).symm⟩

section
variable {files : Files} {path : Path} {data : Bytes} {done : List (Path × Bytes)}

/-- Another file fits in. -/
theorem extractMember_holds (named : ∀ name ∈ path, Proper name) (deep : path ≠ [])
    (holds : Holds files done)
    (apart : ∀ other ∈ done, ¬ path <+: other.1 ∧ ¬ other.1 <+: path) :
    ∃ extracted, extractMember files (packed (path, data)) = some extracted ∧
      Holds extracted ((path, data) :: done) := by
  have clear : path.dropLast.inits.any (fun parent => match files parent with
      | some (.file _) => true
      | _ => false) = false := by
    rw [List.any_eq_false]
    intro parent above
    obtain ⟨inner, -, rfl⟩ := (mem_parents deep).mp above
    split
    · rename_i there
      exact absurd ((holds _ _).mp there) (fun member => (apart _ member).2 ⟨inner, rfl⟩)
    · simp
  have outside : path ∉ path.dropLast.inits := by
    rw [mem_parents deep]
    rintro ⟨inner, more, same⟩
    exact more (by simpa using same)
  have free : files path ≠ some .directory := by
    intro there
    rcases (holds _ _).mp there with empty | ⟨inner, other, -, member⟩
    · exact deep empty
    · exact (apart _ member).1 ⟨inner, rfl⟩
  refine ⟨Function.update (fun other => if other ∈ path.dropLast.inits then some .directory
    else files other) path (some (.file data)), ?_, ?_⟩
  · rw [extractMember, packed, target_posix named deep, isDir_posix named, makeParents]
    simp only [clear, Bool.false_eq_true, if_false, Option.bind_some, if_neg outside]
  · intro other object
    by_cases same : other = path
    · subst same
      rw [Function.update_self]
      cases object with
      | file content =>
        have fresh : (other, content) ∉ done := fun member => (apart _ member).1 (List.prefix_refl _)
        simp [fresh, eq_comm]
      | directory =>
        have fresh (inner : Path) (content : Bytes) : (other ++ inner, content) ∉ done :=
          fun member => (apart _ member).1 ⟨inner, rfl⟩
        simp [deep, fresh]
    · rw [Function.update_of_ne same]
      by_cases above : other ∈ path.dropLast.inits
      · rw [if_pos above]
        obtain ⟨inner, more, rfl⟩ := (mem_parents deep).mp above
        cases object with
        | file content =>
          have fresh : (other, content) ∉ done := fun member => (apart _ member).2 ⟨inner, rfl⟩
          simp [fresh, more]
        | directory =>
          simp only [true_iff]
          exact .inr ⟨inner, data, more, List.mem_cons_self⟩
      · rw [if_neg above, holds]
        cases object with
        | file content => simp [same]
        | directory =>
          rw [mem_parents deep, not_exists] at above
          have aside (inner : Path) (more : inner ≠ []) : other ++ inner ≠ path :=
            fun joined => above inner ⟨more, joined⟩
          simp only [List.mem_cons, Prod.mk.injEq]
          refine or_congr_right (exists_congr fun inner => exists_congr fun content =>
            and_congr_right fun more => ?_)
          exact ⟨.inr, fun member => member.resolve_left (fun equal => aside inner more equal.1)⟩

end

/-- The files of a directory come out of the archive as they went in. -/
theorem extractAll_holds {done : List (Path × Bytes)}
    (named : ∀ file ∈ done, file.1 ≠ [] ∧ ∀ name ∈ file.1, Proper name) (apart : Apart done) :
    ∃ files, extractAll (done.map packed) = some files ∧ Holds files done.reverse := by
  have general (before : List (Path × Bytes)) (files : Files) (holds : Holds files before)
      (beside : ∀ file ∈ done, ∀ other ∈ before,
        ¬ file.1 <+: other.1 ∧ ¬ other.1 <+: file.1) :
      ∃ extracted, (done.map packed).foldlM extractMember files = some extracted ∧
        Holds extracted (done.reverse ++ before) := by
    induction done generalizing before files with
    | nil => exact ⟨files, rfl, holds⟩
    | cons file rest ih =>
      obtain ⟨deep, names⟩ := named file List.mem_cons_self
      obtain ⟨first, rest_apart⟩ := List.pairwise_cons.mp apart
      obtain ⟨next, extracts, held⟩ := extractMember_holds names deep holds
        (beside file List.mem_cons_self)
      obtain ⟨final, ends, all⟩ := ih (fun other member => named other (List.mem_cons_of_mem _ member))
        rest_apart (file :: before) next held (fun other member before within => by
          rcases List.mem_cons.mp within with rfl | within
          · exact (first other member).symm
          · exact beside other (List.mem_cons_of_mem _ member) before within)
      refine ⟨final, ?_, ?_⟩
      · rw [List.map_cons, List.foldlM_cons, extracts]
        exact ends
      · rwa [List.reverse_cons, List.append_assoc]
  have empty : Holds made [] := by
    intro path object
    unfold made
    cases object <;> simp
  simpa [extractAll] using general [] made empty (by simp)

/-! Round trip. -/

/-- What holds of the list of everything below a directory: the names are those of a file system,
each path is there once, and nothing is below a file. -/
structure Listed (listing : Listing) : Prop where
  deep : ∀ entry ∈ listing, entry.1 ≠ []
  named : ∀ entry ∈ listing, ∀ name ∈ entry.1, Proper name
  distinct : (listing.map Prod.fst).Nodup
  leaves : ∀ path data entry, (path, .file data) ∈ listing → entry ∈ listing → path <+: entry.1 →
    entry.1 = path

/-- The directory has the files of the listing, the directories on the way to them, and nothing
else. -/
def Copies (files : Files) (listing : Listing) : Prop :=
  ∀ path object, files path = some object ↔
    match object with
    | .file data => (path, .file data) ∈ listing
    | .directory => path = [] ∨ ∃ inner data, inner ≠ [] ∧ (path ++ inner, .file data) ∈ listing

section
variable {listing other : Listing}

theorem sorted_perm : (sorted listing).Perm listing := List.perm_insertionSort _ _

theorem Listed.perm (listed : Listed listing) (perm : other.Perm listing) :
    Listed other where
  deep entry member := listed.deep entry (perm.mem_iff.mp member)
  named entry member := listed.named entry (perm.mem_iff.mp member)
  distinct := (perm.map _).nodup_iff.mpr listed.distinct
  leaves path data entry file member :=
    listed.leaves path data entry (perm.mem_iff.mp file) (perm.mem_iff.mp member)

theorem Listed.apart (listed : Listed listing) : Apart (regular listing) := by
  have distinct : listing.Pairwise (fun one other => one.1 ≠ other.1) :=
    List.pairwise_map.mp listed.distinct
  rw [Apart, regular, List.pairwise_filterMap]
  refine distinct.imp_of_mem (fun {one other} here there different => ?_)
  intro first found second found'
  obtain ⟨path, node⟩ := one
  obtain ⟨path', node'⟩ := other
  cases node <;> cases node' <;> simp only [reduceCtorEq, Option.some.injEq] at found found'
  subst found found'
  exact ⟨fun below => different (listed.leaves _ _ _ here there below).symm,
    fun below => different (listed.leaves _ _ _ there here below)⟩

theorem Listed.files (listed : Listed listing) :
    ∀ file ∈ regular listing, file.1 ≠ [] ∧ ∀ name ∈ file.1, Proper name :=
  fun _ member => ⟨listed.deep _ (mem_regular.mp member), listed.named _ (mem_regular.mp member)⟩

/-- What `_archive` makes of a directory. -/
theorem archive_ok [Crates] [Zip] {digest : String} {data : Bytes}
    (done : archive listing = .ok (digest, data)) :
    data = Zip.write ((regular (sorted listing)).map packed) ∧ digest = Crates.sha256 data := by
  cases written : members (sorted listing) with
  | error => rw [archive, written] at done; cases done
  | ok all =>
    rw [archive, written] at done
    cases done
    rw [members_ok written]
    exact ⟨rfl, rfl⟩

/-- The members of an archive of a directory are accepted, and unpacked they are the directory. -/
theorem Listed.unpacks (listed : Listed listing) :
    ((regular (sorted listing)).map packed).any (fun member => refused member.filename) = false ∧
      ∃ files, extractAll ((regular (sorted listing)).map packed) = some files ∧
        Copies files listing := by
  have ordered := listed.perm sorted_perm
  constructor
  · rw [List.any_eq_false]
    intro member within
    obtain ⟨file, found, rfl⟩ := List.mem_map.mp within
    obtain ⟨deep, named⟩ := ordered.files file found
    simp [packed, refused_posix named deep]
  · obtain ⟨files, extracted, holds⟩ := extractAll_holds ordered.files ordered.apart
    refine ⟨files, extracted, fun path object => ?_⟩
    rw [holds]
    cases object <;> simp [sorted_perm.mem_iff]

theorem regular_ordered (listed : Listed listing) :
    (regular (sorted listing)).Pairwise (fun one next => one.1 < next.1) := by
  have ordered : (sorted listing).Pairwise (fun one next => one.1 ≤ next.1) :=
    have : Std.Total (fun (a b : Path × Node) => a.1 ≤ b.1) := ⟨fun a b => le_total a.1 b.1⟩
    have : IsTrans (Path × Node) (fun a b => a.1 ≤ b.1) := ⟨fun _ _ _ => le_trans⟩
    List.pairwise_insertionSort _ _
  have distinct : (sorted listing).Pairwise (fun one next => one.1 ≠ next.1) :=
    List.pairwise_map.mp (listed.perm sorted_perm).distinct
  rw [regular, List.pairwise_filterMap]
  refine (ordered.and distinct).imp (fun {one next} related => ?_)
  intro first found second found'
  obtain ⟨path, node⟩ := one
  obtain ⟨path', node'⟩ := next
  cases node <;> cases node' <;> simp only [reduceCtorEq, Option.some.injEq] at found found'
  subst found found'
  exact lt_of_le_of_ne related.1 related.2

/-- Listings of the same files, in whatever order, become one list. -/
theorem regular_eq (listed : Listed listing) (listed' : Listed other)
    (same : ∀ path data, (path, .file data) ∈ listing ↔ (path, .file data) ∈ other) :
    regular (sorted listing) = regular (sorted other) := by
  have ordered := regular_ordered listed
  have ordered' := regular_ordered listed'
  refine List.Perm.eq_of_pairwise (fun a b _ _ below above => absurd above below.asymm) ordered ordered' ?_
  refine (List.perm_ext_iff_of_nodup (ordered.imp ?_) (ordered'.imp ?_)).mpr ?_
  · rintro _ _ below rfl
    exact below.false
  · rintro _ _ below rfl
    exact below.false
  · rintro ⟨path, data⟩
    simp [sorted_perm.mem_iff, same]

variable [Crates] [Zip]

/-- What `zipfile` writes it also reads. Names have no null characters in a file system. -/
def Reads : Prop :=
  ∀ members : List Member, (∀ member ∈ members, '\x00' ∉ member.filename) →
    Zip.read (Zip.write members) = some members

omit [Crates] in
theorem Listed.reads (listed : Listed listing) (reads : Reads) :
    Zip.read (Zip.write ((regular (sorted listing)).map packed)) =
      some ((regular (sorted listing)).map packed) := by
  refine reads _ (fun member within => ?_)
  obtain ⟨file, found, rfl⟩ := List.mem_map.mp within
  exact posix_nulless ((listed.perm sorted_perm).files file found).2

end

/-- A package `lib` and a script, as they happen to be listed. -/
def project : Listing :=
  [(["run.py".toList], .file [1, 2]), (["lib".toList], .directory),
    (["lib".toList, "a.py".toList], .file [3]), (["lib".toList, "empty".toList], .directory)]

theorem project_listed : Listed project where
  deep := by decide
  named := by
    have clean : ∀ entry ∈ project, ∀ name ∈ entry.1, name ≠ [] ∧ '/' ∉ name ∧
        '\x00' ∉ name ∧ name ≠ ['.'] ∧ name ≠ ['.', '.'] := by decide
    intro entry member name within
    obtain ⟨nonempty, slashless, nulless, dot, dots⟩ := clean entry member name within
    exact ⟨nonempty, slashless, nulless, dot, dots⟩
  distinct := by decide
  leaves := by
    have apart : ∀ file ∈ project, ∀ entry ∈ project, file.2 ≠ .directory → file.1 <+: entry.1 →
        entry.1 = file.1 := by decide
    exact fun path data entry file member => apart (path, .file data) file entry member (by simp)

def projectMembers : List Member := [⟨"lib/a.py".toList, [3]⟩, ⟨"run.py".toList, [1, 2]⟩]

/-- The archive that `zipfile` makes of them. -/
def projectArchive : Bytes :=
  [80, 75, 3, 4, 20, 0, 0, 0, 8, 0, 0, 0, 33, 0, 55, 190, 11, 75, 3, 0, 0, 0, 1, 0, 0, 0, 8,
    0, 0, 0, 108, 105, 98, 47, 97, 46, 112, 121, 99, 6, 0, 80, 75, 3, 4, 20, 0, 0, 0, 8, 0, 0,
    0, 33, 0, 146, 66, 204, 182, 4, 0, 0, 0, 2, 0, 0, 0, 6, 0, 0, 0, 114, 117, 110, 46, 112,
    121, 99, 100, 2, 0, 80, 75, 1, 2, 20, 3, 20, 0, 0, 0, 8, 0, 0, 0, 33, 0, 55, 190, 11, 75,
    3, 0, 0, 0, 1, 0, 0, 0, 8, 0, 0, 0, 0, 0, 0, 0, 0, 0, 0, 0, 128, 1, 0, 0, 0, 0, 108, 105,
    98, 47, 97, 46, 112, 121, 80, 75, 1, 2, 20, 3, 20, 0, 0, 0, 8, 0, 0, 0, 33, 0, 146, 66,
    204, 182, 4, 0, 0, 0, 2, 0, 0, 0, 6, 0, 0, 0, 0, 0, 0, 0, 0, 0, 0, 0, 128, 1, 41, 0, 0, 0,
    114, 117, 110, 46, 112, 121, 80, 75, 5, 6, 0, 0, 0, 0, 2, 0, 2, 0, 106, 0, 0, 0, 81, 0, 0,
    0, 0, 0]

def projectDigest : String := "5aef852635cfcca0d27c6af6f31fed9c3a94422fc47ee338ec7f48f4c82a0244"

/-- A format that has the real archive for the project, and numbers for all else. -/
abbrev projectZip : Zip where
  write members :=
    if members = projectMembers then projectArchive
    else List.replicate (Encodable.encode (members.map (fun member =>
      (member.filename.map Char.toNat, member.data.map UInt8.toNat)))) 0
  read data :=
    if data = projectArchive then some projectMembers
    else
      let decoded : Option (List (List Nat × List Nat)) := Encodable.decode data.length
      decoded.map (List.map (fun member => ⟨member.1.map Char.ofNat, member.2.map UInt8.ofNat⟩))

theorem projectZip_reads : @Reads projectZip := by
  intro members _
  by_cases same : members = projectMembers
  · simp [Zip.read, Zip.write, same]
  · have apart (count : Nat) : List.replicate count (0 : UInt8) ≠ projectArchive := by
      intro zeros
      have first : (80 : UInt8) ∈ projectArchive := by decide
      rw [← zeros, List.mem_replicate] at first
      exact absurd first.2 (by decide)
    simp [Zip.read, Zip.write, same, apart, Function.comp_def]

/-- Stand-ins for the crates, with the real digest of the project's archive. -/
abbrev projectCrates : Crates :=
  { Demo.crates with
    sha256 := fun bytes =>
      if bytes = projectArchive then projectDigest
      else "e3b0c44298fc1c149afbf4c8996fb92427ae41e4649b934ca495991b7852b855" }

theorem projectCrates_digests (data : Bytes) :
    validDigest (projectCrates.sha256 data) = true := by
  change validDigest (if data = projectArchive then projectDigest else _) = true
  split_ifs <;> decide

theorem project_archive (listing : Listing) (sorts : members (sorted listing) = .ok projectMembers) :
    @archive projectCrates projectZip listing = .ok (projectDigest, projectArchive) := by
  have written : projectZip.write projectMembers = projectArchive := if_pos rfl
  have digest : projectCrates.sha256 projectArchive = projectDigest := if_pos rfl
  unfold archive
  rw [sorts]
  simp only [Except.map, written, digest]

section
variable {listing other : Listing} [Crates] [Zip]

/-- The archive of a directory is a canonical form of its files: whatever order the file system
lists them in, two directories have one archive exactly when they have the same files. -/
theorem archives_canonical {digest digest' : String} {data data' : Bytes} (reads : Reads)
    (listed : Listed listing) (listed' : Listed other)
    (done : archive listing = .ok (digest, data)) (done' : archive other = .ok (digest', data')) :
    data = data' ↔ ∀ path content, (path, .file content) ∈ listing ↔
      (path, .file content) ∈ other := by
  obtain ⟨rfl, -⟩ := archive_ok done
  obtain ⟨rfl, -⟩ := archive_ok done'
  constructor
  · intro same
    have equal : (regular (sorted listing)).map packed = (regular (sorted other)).map packed := by
      have read := listed'.reads reads
      rw [← same, listed.reads reads] at read
      exact Option.some.inj read
    obtain ⟨files, extracted, copies⟩ := listed.unpacks.2
    obtain ⟨files', extracted', copies'⟩ := listed'.unpacks.2
    rw [equal, extracted'] at extracted
    cases extracted
    exact fun path content => (copies path (.file content)).symm.trans (copies' path (.file content))
  · intro same
    rw [regular_eq listed listed' same]

end

theorem archives_canonical_project :
    ∃ data data' : Bytes, @archive projectCrates projectZip project = .ok (projectDigest, data) ∧
      @archive projectCrates projectZip project.reverse = .ok (projectDigest, data') ∧
      (data = data' ↔ ∀ path content, (path, .file content) ∈ project ↔
        (path, .file content) ∈ project.reverse) := by
  have done := project_archive project (by decide)
  have done' := project_archive project.reverse (by decide)
  exact ⟨projectArchive, projectArchive, done, done',
    @archives_canonical project project.reverse projectCrates projectZip projectDigest projectDigest
      projectArchive projectArchive projectZip_reads project_listed
      (project_listed.perm (List.reverse_perm _)) done done'⟩

/-! Runs. -/

section
variable [Crates] [Zip]

/-- What changes the working directories of an executor: a request, or a job that leaves something
else in the directory it runs in. -/
inductive Event where
  | request (spec : Spec)
  | leave (digest : String) (files : Option Files)

def step (directories : Directories) : Event → Directories
  | .request spec =>
    match prepareWorkingDir directories spec with
    | .ok prepared => prepared
    | .error _ => directories
  | .leave digest files => Function.update directories digest files

/-- The directories after the events, of an executor that starts with none. -/
def after (events : List Event) : Directories := events.foldl step (fun _ => none)

/-- What unpacks to the files. -/
def Unpacks (data : Bytes) (files : Files) : Prop :=
  ∃ members, Zip.read data = some members ∧
    members.any (fun member => refused member.filename) = false ∧ extractAll members = some files

variable {directories prepared : Directories} {spec : Spec}

/-- A request leaves the directories as they are, or adds the one that its archive unpacks to. -/
theorem prepareWorkingDir_ok (done : prepareWorkingDir directories spec = .ok prepared) :
    (prepared = directories ∧ (directories spec.hash).isSome = true) ∨
    ∃ data files, spec.archive = some data ∧ Crates.sha256 data = spec.hash ∧ Unpacks data files ∧
      directories spec.hash = none ∧
      prepared = Function.update directories spec.hash (some files) := by
  rw [prepareWorkingDir] at done
  split at done
  · cases done
  split at done
  · rename_i there
    cases done
    exact .inl ⟨rfl, there⟩
  rename_i missing
  split at done
  · cases done
  rename_i data brought
  split at done
  · cases done
  rename_i same
  split at done
  · cases done
  rename_i members read
  split at done
  · cases done
  rename_i accepted
  split at done
  · cases done
  rename_i files extracted
  cases done
  have unpacks : Unpacks data files := ⟨members, read, by simpa using accepted, extracted⟩
  exact .inr ⟨data, files, brought, by simpa using same, unpacks, by simpa using missing, rfl⟩

/-- An archive that unpacks gives its directory, where there was none. -/
theorem prepareWorkingDir_unpacks {data : Bytes} {files : Files}
    (valid : validDigest spec.hash = true) (missing : directories spec.hash = none)
    (brought : spec.archive = some data) (same : Crates.sha256 data = spec.hash)
    (unpacks : Unpacks data files) :
    prepareWorkingDir directories spec =
      .ok (Function.update directories spec.hash (some files)) := by
  obtain ⟨members, read, accepted, extracted⟩ := unpacks
  simp [prepareWorkingDir, valid, missing, brought, same, read, accepted, extracted]

variable {listing : Listing} {digest : String} {data : Bytes} {events : List Event}

/-- What an event does to the directory of a digest: nothing, or a job writes to it, or its archive
comes and is unpacked. -/
theorem step_cases (directories : Directories) (event : Event) (digest : String) :
    step directories event digest = directories digest ∨
    (∃ left, event = .leave digest left) ∨
    ∃ data files, event = .request ⟨digest, some data⟩ ∧ Crates.sha256 data = digest ∧
      Unpacks data files ∧ directories digest = none ∧
      step directories event digest = some files := by
  cases event with
  | leave other left =>
    by_cases here : digest = other
    · exact .inr (.inl ⟨left, by rw [here]⟩)
    · exact .inl (Function.update_of_ne here _ _)
  | request spec =>
    cases done : prepareWorkingDir directories spec with
    | error => exact .inl (by simp [step, done])
    | ok prepared =>
      rcases prepareWorkingDir_ok done with
        ⟨rfl, -⟩ | ⟨data, files, brought, same, unpacks, missing, rfl⟩
      · exact .inl (by simp [step, done])
      · by_cases here : digest = spec.hash
        · subst here
          refine .inr (.inr ⟨data, files, by rw [← brought], same, unpacks, missing, ?_⟩)
          simp [step, done]
        · exact .inl (by simp [step, done, Function.update_of_ne here])

theorem after_append (event : Event) : after (events ++ [event]) = step (after events) event := by
  rw [after, List.foldl_append]
  rfl

/-- What is in a directory that no job has written to came with a request, under its digest. -/
theorem after_unpacked (untouched : ∀ files, .leave digest files ∉ events) {files : Files}
    (there : after events digest = some files) :
    ∃ data, .request ⟨digest, some data⟩ ∈ events ∧ Crates.sha256 data = digest ∧
      Unpacks data files := by
  induction events using List.reverseRecOn with
  | nil => cases there
  | append_singleton before event ih =>
    rw [after_append] at there
    rcases step_cases (after before) event digest with
      quiet | ⟨left, rfl⟩ | ⟨data, new, rfl, same, unpacks, -, stored⟩
    · obtain ⟨data, sent, same, unpacks⟩ :=
        ih (fun files member => untouched files (List.mem_append_left _ member)) (quiet ▸ there)
      exact ⟨data, List.mem_append_left _ sent, same, unpacks⟩
    · exact absurd (List.mem_append_right _ List.mem_cons_self) (untouched left)
    · obtain rfl := Option.some.inj (stored.symm.trans there)
      exact ⟨data, List.mem_append_right _ List.mem_cons_self, same, unpacks⟩

/-- A directory that is there stays, and one whose archive came and unpacks is there. -/
theorem after_there {files : Files} (valid : validDigest digest = true)
    (same : Crates.sha256 data = digest) (unpacks : Unpacks data files)
    (sent : .request ⟨digest, some data⟩ ∈ events)
    (untouched : ∀ files, .leave digest files ∉ events) : after events digest ≠ none := by
  induction events using List.reverseRecOn with
  | nil => cases sent
  | append_singleton before event ih =>
    rw [after_append]
    rcases step_cases (after before) event digest with
      quiet | ⟨left, rfl⟩ | ⟨_, new, -, -, -, -, stored⟩
    · rw [quiet]
      rcases List.mem_append.mp sent with early | last
      · exact ih early (fun files member => untouched files (List.mem_append_left _ member))
      · intro missing
        cases List.mem_singleton.mp last
        have ready : prepareWorkingDir (after before) ⟨digest, some data⟩ =
            .ok (Function.update (after before) digest (some files)) :=
          prepareWorkingDir_unpacks valid missing rfl same unpacks
        simp [step, ready, missing] at quiet
    · exact absurd (List.mem_append_right _ List.mem_cons_self) (untouched left)
    · simp [stored]

/-- A working directory arrives. Once a request has brought its archive, and as long as no job writes
to it, the executor has under its digest exactly the files that the client packed, whatever other
requests come before, between and after. -/
theorem working_dir_arrives (reads : Reads) (digests : ∀ data, validDigest (Crates.sha256 data) = true)
    (listed : Listed listing) (done : archive listing = .ok (digest, data))
    (sent : .request ⟨digest, some data⟩ ∈ events)
    (untouched : ∀ files, .leave digest files ∉ events)
    (genuine : ∀ other, .request ⟨digest, some other⟩ ∈ events → Crates.sha256 other = digest →
      other = data) :
    ∃ files, after events digest = some files ∧ Copies files listing := by
  obtain ⟨rfl, rfl⟩ := archive_ok done
  obtain ⟨accepted, files, extracted, copies⟩ := listed.unpacks
  have read := listed.reads reads
  have there := after_there (digests _) rfl ⟨_, read, accepted, extracted⟩ sent untouched
  obtain ⟨found, held⟩ := Option.ne_none_iff_exists'.mp there
  obtain ⟨other, came, same, members, read', -, extracted'⟩ := after_unpacked untouched held
  cases genuine other came same
  obtain rfl := Option.some.inj (read.symm.trans read')
  obtain rfl := Option.some.inj (extracted.symm.trans extracted')
  exact ⟨files, held, copies⟩

end

/-- The archive is first left out, then sent, then left out again; a job elsewhere loses its
directory. -/
def requests : List Event :=
  [.request ⟨projectDigest, none⟩, .request ⟨projectDigest, some projectArchive⟩,
    .leave "other" none, .request ⟨projectDigest, none⟩]

theorem working_dir_arrives_project :
    ∃ files, @after projectCrates projectZip requests projectDigest = some files ∧
      Copies files project := by
  have sorts : members (sorted project) = .ok projectMembers := by decide
  refine @working_dir_arrives projectCrates projectZip project projectDigest projectArchive requests
    projectZip_reads projectCrates_digests project_listed (project_archive project sorts) ?_ ?_ ?_
  · simp [requests]
  · simp [requests, projectDigest]
  · intro other sent _
    simpa [requests] using sent

end Scraperack.WorkingDirs
