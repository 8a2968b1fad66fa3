import Scraperack.Packages
import Scraperack.Validation
import Scraperack.Vms

/-! What a snapshot is made from, and the key it is kept under. The key is one text, in which the name of the artifact
and the digest of the modules stand behind one another without anything that closes them. -/

namespace Scraperack
open Separated

/-- What `ensure_snapshot` and `configure_boot` take from the pool. -/
structure BootSource where
  image : Uuid
  vcpuCount : Nat
  memoryMib : Nat
  network : Bool
  environmentArtifact : Option String
  preload : List String
  deriving DecidableEq

namespace Pool

def vcpuCount (pool : Pool) : Nat := max ((pool.cpuMillis + 999) / 1000) 1

def bootSource (pool : Pool) : BootSource :=
  { image := pool.image, vcpuCount := pool.vcpuCount, memoryMib := pool.memoryMib
    network := pool.network, environmentArtifact := pool.environmentArtifact
    preload := pool.preload }

/-- What stands for the artifact in the key. -/
def artifactName (pool : Pool) : String := pool.environmentArtifact.getD "base"

/-- The bytes that are hashed: every module with a NUL behind it. -/
def preloadBytes (pool : Pool) : Bytes := ended 0 (pool.preload.map System.utf8)

/-- The modules, cut apart at the NULs in their names. -/
def preloadPieces (pool : Pool) : List Bytes := pieces 0 (pool.preload.map System.utf8)

variable [Crates]

def preloadDigest (pool : Pool) : List Char := (Crates.sha256 pool.preloadBytes).toList.take 16

/-- The end of the key. -/
def keyEnd (pool : Pool) : List Char :=
  pool.artifactName.toList ++ if pool.preload = [] then [] else '-' :: pool.preloadDigest

end Pool

section
variable [Crates]

/-- The digests of the two texts have at least the 16 digits that are kept, and these tell the texts apart. -/
structure Distinguishes (a b : Bytes) : Prop where
  digits : 16 ≤ (Crates.sha256 a).toList.length ∧ 16 ≤ (Crates.sha256 b).toList.length
  apart : (Crates.sha256 a).toList.take 16 = (Crates.sha256 b).toList.take 16 → a = b

/-- The first pool has no modules, and its artifact is called like the other's with the digest of the other's
modules behind it. -/
def Shadows (pool other : Pool) : Prop :=
  pool.preload = [] ∧ other.preload ≠ [] ∧
    pool.artifactName.toList = other.artifactName.toList ++ '-' :: other.preloadDigest

/-- The pools are alike but for artifact and modules, and the end of the key does not show the difference. -/
structure Mistaken (pool other : Pool) : Prop where
  image : pool.image = other.image
  vcpuCount : pool.vcpuCount = other.vcpuCount
  memoryMib : pool.memoryMib = other.memoryMib
  network : pool.network = other.network
  ends : Shadows pool other ∨ Shadows other pool ∨
    (pool.environmentArtifact ≠ other.environmentArtifact ∨ pool.preload ≠ other.preload) ∧
      pool.artifactName = other.artifactName ∧ pool.preloadPieces = other.preloadPieces

theorem snapshotKey_toList (pool : Pool) :
    (snapshotKey pool).toList = pool.image.hyphenatedChars ++ '-' :: (pool.vcpuCount.repr.toList ++
      '-' :: (pool.memoryMib.repr.toList ++
        '-' :: ((if pool.network then "net1".toList else "none".toList) ++ '-' :: pool.keyEnd))) := by
  have hashed : pool.preloadBytes =
      pool.preload.flatMap (fun module => System.utf8 module ++ [0]) := by
    simp [Pool.preloadBytes, ended, List.flatMap_map]
  have digits (n : Nat) : (toString n).toList = n.repr.toList := rfl
  have network : (if pool.network then "net1" else "none").toList =
      if pool.network then "net1".toList else "none".toList := by split <;> rfl
  have ends : (if pool.preload = [] then "" else
      "-" ++ String.ofList ((Crates.sha256 pool.preloadBytes).toList.take 16)).toList =
        if pool.preload = [] then [] else '-' :: pool.preloadDigest := by
    split_ifs <;> simp [Pool.preloadDigest]
  have dash : "-".toList = ['-'] := rfl
  rw [snapshotKey, ← hashed, Pool.keyEnd, ← ends, ← network, ← digits, ← digits]
  simp only [String.toList_append, Uuid.hyphenated, String.toList_ofList, dash, List.append_assoc,
    List.singleton_append]
  rfl

/-- The parts before the end of the key contain no dash, or are of one length. -/
theorem snapshotKey_eq_iff (pool other : Pool) :
    snapshotKey pool = snapshotKey other ↔
      pool.image = other.image ∧ pool.vcpuCount = other.vcpuCount ∧
        pool.memoryMib = other.memoryMib ∧ pool.network = other.network ∧
        pool.keyEnd = other.keyEnd := by
  have plain (n : Nat) : '-' ∉ n.repr.toList := by
    rw [Nat.toList_repr]
    intro member
    exact absurd (Nat.isDigit_of_mem_toDigits (by decide) (by decide) member) (by decide)
  have number {m n : Nat} (same : m.repr.toList = n.repr.toList) : m = n := by
    rw [Nat.toList_repr, Nat.toList_repr] at same
    have read := congrArg (fun digits => Nat.ofDigitChars 10 digits 0) same
    simpa only [Nat.ofDigitChars_ten_toDigits] using read
  have names (network : Bool) :
      (if network then "net1".toList else "none".toList).length = 4 := by
    cases network <;> rfl
  rw [← String.toList_inj, snapshotKey_toList, snapshotKey_toList]
  constructor
  · intro same
    obtain ⟨images, same⟩ := List.append_inj same
      (by rw [Uuid.hyphenatedChars_length, Uuid.hyphenatedChars_length])
    obtain ⟨counts, same⟩ := cut_inj '-' (plain _) (plain _) (List.cons.inj same).2
    obtain ⟨memory, same⟩ := cut_inj '-' (plain _) (plain _) same
    obtain ⟨networks, same⟩ := List.append_inj same (by rw [names, names])
    refine ⟨Uuid.hyphenatedChars_injective images, number counts, number memory, ?_,
      (List.cons.inj same).2⟩
    cases one : pool.network <;> cases two : other.network <;> simp_all
  · rintro ⟨image, counts, memory, network, ends⟩
    rw [image, counts, memory, network, ends]

omit [Crates] in
theorem preloadBytes_eq_iff (pool other : Pool) :
    pool.preloadBytes = other.preloadBytes ↔ pool.preloadPieces = other.preloadPieces :=
  ended_eq_iff 0

omit [Crates] in
theorem preloadPieces_eq_nil (pool : Pool) : pool.preloadPieces = [] ↔ pool.preload = [] := by
  constructor
  · intro none_there
    by_contra some_there
    obtain ⟨module, rest, split⟩ := List.exists_cons_of_ne_nil some_there
    rw [Pool.preloadPieces, split, List.map_cons, pieces, List.flatMap_cons,
      List.append_eq_nil_iff] at none_there
    exact List.splitOn_ne_nil 0 _ none_there.1
  · intro none_there
    rw [Pool.preloadPieces, none_there]
    rfl

/-- The ends of two keys are the same where the parts are, or where the name of one artifact reaches into the
digest of the other's modules. -/
theorem keyEnd_eq_iff {pool other : Pool}
    (told : Distinguishes pool.preloadBytes other.preloadBytes) :
    pool.keyEnd = other.keyEnd ↔ Shadows pool other ∨ Shadows other pool ∨
      pool.artifactName = other.artifactName ∧ pool.preloadPieces = other.preloadPieces := by
  have alike : pool.artifactName.toList = other.artifactName.toList ↔
    pool.artifactName = other.artifactName := String.toList_inj
  have empty := preloadPieces_eq_nil pool
  have empty' := preloadPieces_eq_nil other
  unfold Pool.keyEnd Shadows
  by_cases bare : pool.preload = [] <;> by_cases bare' : other.preload = []
  · simp [bare, bare', alike, empty.mpr bare, empty'.mpr bare']
  · have differ : pool.preloadPieces ≠ other.preloadPieces := fun same =>
      bare' (empty'.mp (same ▸ empty.mpr bare))
    simp [bare, bare', differ]
  · have differ : pool.preloadPieces ≠ other.preloadPieces := fun same =>
      bare (empty.mp (same.symm ▸ empty'.mpr bare'))
    simp only [bare, bare', if_true, if_false, List.append_nil, differ, and_false, or_false,
      false_and, false_or, ne_eq, not_false_eq_true, true_and]
    exact eq_comm
  · have lengths : pool.preloadDigest.length = other.preloadDigest.length := by
      have one := told.digits.1
      have two := told.digits.2
      simp only [Pool.preloadDigest, List.length_take]
      omega
    simp only [bare, bare', if_false, false_and, false_or]
    constructor
    · intro same
      obtain ⟨names, digests⟩ := List.append_inj' same (by simp [lengths])
      exact ⟨alike.mp names,
        (preloadBytes_eq_iff pool other).mp (told.apart (List.cons.inj digests).2)⟩
    · rintro ⟨names, modules⟩
      rw [names, Pool.preloadDigest, Pool.preloadDigest,
        (preloadBytes_eq_iff pool other).mpr modules]

omit [Crates] in
theorem bootSource_eq_iff (pool other : Pool) :
    pool.bootSource = other.bootSource ↔
      pool.image = other.image ∧ pool.vcpuCount = other.vcpuCount ∧
        pool.memoryMib = other.memoryMib ∧ pool.network = other.network ∧
        pool.environmentArtifact = other.environmentArtifact ∧ pool.preload = other.preload := by
  simp [Pool.bootSource]

/-- Two pools share a snapshot exactly where it is made from the same, as long as they are not of the kind that
the key mistakes for one another. -/
theorem snapshots_told_apart (pool other : Pool)
    (told : Distinguishes pool.preloadBytes other.preloadBytes) :
    (snapshotKey pool = snapshotKey other ↔ pool.bootSource = other.bootSource) ↔
      ¬ Mistaken pool other := by
  rw [snapshotKey_eq_iff, bootSource_eq_iff, keyEnd_eq_iff told]
  have shadowed : Shadows pool other ∨ Shadows other pool → pool.preload ≠ other.preload := by
    rintro (⟨bare, some_there, -⟩ | ⟨bare, some_there, -⟩) same
    · exact some_there (same ▸ bare)
    · exact some_there (same.symm ▸ bare)
  constructor
  · rintro same ⟨image, counts, memory, network, ends⟩
    have reached : Shadows pool other ∨ Shadows other pool ∨
        pool.artifactName = other.artifactName ∧ pool.preloadPieces = other.preloadPieces :=
      ends.imp_right (Or.imp_right And.right)
    obtain ⟨-, -, -, -, artifacts, modules⟩ :=
      same.mp ⟨image, counts, memory, network, reached⟩
    rcases ends with shadows | shadows | ⟨differ, -⟩
    · exact shadowed (.inl shadows) modules
    · exact shadowed (.inr shadows) modules
    · exact differ.elim (fun other => other artifacts) (fun other => other modules)
  · intro clear
    constructor
    · rintro ⟨image, counts, memory, network, ends⟩
      refine ⟨image, counts, memory, network, ?_⟩
      by_contra differ
      refine clear ⟨image, counts, memory, network, ?_⟩
      exact ends.imp_right (Or.imp_right fun shown => ⟨not_and_or.mp differ, shown⟩)
    · rintro ⟨image, counts, memory, network, artifacts, modules⟩
      refine ⟨image, counts, memory, network, .inr (.inr ⟨?_, ?_⟩)⟩
      · rw [Pool.artifactName, Pool.artifactName, artifacts]
      · rw [Pool.preloadPieces, Pool.preloadPieces, modules]

/-- The artifact is the digest of something or none at all, and the modules have no NULs in their names. -/
structure Plain (pool : Pool) : Prop where
  artifact : pool.environmentArtifact ≠ some "base"
  undashed : '-' ∉ pool.artifactName.toList
  modules : ∀ module ∈ pool.preload, '\x00' ∉ module.toList

omit [Crates] in
theorem Plain.preloadPieces {pool : Pool} (plain : Plain pool) :
    pool.preloadPieces = pool.preload.map System.utf8 := by
  apply pieces_eq_self
  intro item member
  obtain ⟨module, there, rfl⟩ := List.mem_map.mp member
  exact fun nul => plain.modules module there (nul_of_mem_utf8 nul)

/-- The artifacts that the controller builds and the modules that Python has are plain. -/
theorem not_mistaken {pool other : Pool} (plain : Plain pool) (plain' : Plain other) :
    ¬ Mistaken pool other := by
  have unshadowed {pool other : Pool} (plain : Plain pool) : ¬ Shadows pool other := by
    rintro ⟨-, -, reaches⟩
    refine plain.undashed ?_
    rw [reaches]
    exact List.mem_append_right _ List.mem_cons_self
  rintro ⟨-, -, -, -, shadows | shadows | ⟨differ, names, cut⟩⟩
  · exact unshadowed plain shadows
  · exact unshadowed plain' shadows
  · rw [plain.preloadPieces, plain'.preloadPieces] at cut
    have artifacts : pool.environmentArtifact = other.environmentArtifact := by
      have one := plain.artifact
      have two := plain'.artifact
      unfold Pool.artifactName at names
      cases here : pool.environmentArtifact <;> cases there : other.environmentArtifact <;>
        simp_all
    exact differ.elim (fun other => other artifacts)
      (fun other => other (List.map_injective_iff.mpr utf8_injective cut))

end

/-- SHA-256 of nothing and of the module `numpy`. -/
abbrev moduleDigests : Crates :=
  { Demo.crates with
    sha256 := fun bytes =>
      if bytes = [] then "e3b0c44298fc1c149afbf4c8996fb92427ae41e4649b934ca495991b7852b855"
      else "64fd16cfc245d9be5d2510ac808444c35581513f81a63ee1aec53b1a8299b38d" }

def scientificPool : Pool := { Demo.otherPool with preload := ["numpy"] }

theorem snapshots_told_apart_modules :
    (@snapshotKey moduleDigests Demo.otherPool = @snapshotKey moduleDigests scientificPool ↔
      Demo.otherPool.bootSource = scientificPool.bootSource) ↔
        ¬ @Mistaken moduleDigests Demo.otherPool scientificPool := by
  have empty : Demo.otherPool.preloadBytes = [] := rfl
  have bytes : scientificPool.preloadBytes ≠ [] := by
    simp [Pool.preloadBytes, scientificPool, ended]
  have told : @Distinguishes moduleDigests Demo.otherPool.preloadBytes
      scientificPool.preloadBytes := by
    refine @Distinguishes.mk moduleDigests _ _ ⟨?_, ?_⟩ ?_
    · rw [empty]
      decide
    · change 16 ≤ (ite (scientificPool.preloadBytes = []) _ _ : String).toList.length
      rw [if_neg bytes]
      decide
    · change (ite (Demo.otherPool.preloadBytes = []) _ _ : String).toList.take 16 =
        (ite (scientificPool.preloadBytes = []) _ _ : String).toList.take 16 → _
      rw [if_pos empty, if_neg bytes]
      decide
  exact @snapshots_told_apart moduleDigests Demo.otherPool scientificPool told

def basePool : Pool := { Demo.otherPool with environmentArtifact := some "base" }

/-- An artifact called `base` stands in the key for no artifact. -/
theorem base_mistaken :
    ¬ ∀ [Crates] (c : Cluster) (pool other : Pool),
      (∃ created, createPool pool c = .ok created) →
      (∃ created, createPool other c = .ok created) →
      Distinguishes pool.preloadBytes other.preloadBytes →
        (snapshotKey pool = snapshotKey other ↔ pool.bootSource = other.bootSource) := by
  intro claim
  let c : Cluster :=
    { Cluster.empty with images := (∅ : Keyed Image.id).insert Demo.plainImage }
  have told : @Distinguishes moduleDigests basePool.preloadBytes Demo.otherPool.preloadBytes :=
    @Distinguishes.mk moduleDigests _ _ (by decide) (fun _ => rfl)
  have same := @claim moduleDigests c basePool Demo.otherPool ⟨_, rfl⟩ ⟨_, rfl⟩ told
  have sources := congrArg BootSource.environmentArtifact (same.mp rfl)
  exact absurd sources (by decide)

end Scraperack
