import Scraperack.Separated
import Scraperack.Startup
import Scraperack.System

/-! The packages of an environment: what the handlers make of the list in a request, and the key under which the
artifact with them is kept. -/

namespace Scraperack
open Separated

/-- `trim`, leave out what is empty, `sort` and `dedup`. The order of UTF-8 is that of the characters. -/
def normalised (entries : List String) : List String :=
  (((entries.map Startup.trim).filter (· ≠ "")).insertionSort (· ≤ ·)).destutter (· ≠ ·)

/-- What `create_environment` and `update_environment` begin with. -/
def EnvironmentRequest.normalise (request : EnvironmentRequest) : EnvironmentRequest :=
  { request with
    name := Startup.trim request.name
    packages := normalised request.packages
    preload := normalised request.preload }

/-- An entry of the list that is not empty once it is trimmed. -/
def Names (entries : List String) (entry : String) : Prop :=
  entry ≠ "" ∧ ∃ sent ∈ entries, Startup.trim sent = entry

theorem mem_destutter' {α : Type} [DecidableEq α] (first : α) (items : List α) (item : α) :
    item ∈ items.destutter' (· ≠ ·) first ↔ item ∈ first :: items := by
  induction items generalizing first with
  | nil => rfl
  | cons second rest ih =>
    rw [List.destutter'_cons]
    split_ifs with other
    · rw [List.mem_cons, ih]
      exact List.mem_cons.symm
    · obtain rfl : first = second := not_not.mp other
      rw [ih, List.mem_cons, List.mem_cons, List.mem_cons]
      tauto

theorem mem_destutter {α : Type} [DecidableEq α] (items : List α) (item : α) :
    item ∈ items.destutter (· ≠ ·) ↔ item ∈ items := by
  cases items with
  | nil => rfl
  | cons first rest => exact mem_destutter' first rest item

theorem mem_normalised (entries : List String) (entry : String) :
    entry ∈ normalised entries ↔ Names entries entry := by
  rw [normalised, mem_destutter, List.mem_insertionSort, List.mem_filter, List.mem_map, Names,
    and_comm, decide_eq_true_eq]

/-- Sorted neighbours that differ are in strict order. -/
theorem normalised_sorted (entries : List String) : (normalised entries).Pairwise (· < ·) := by
  have sorted := List.pairwise_insertionSort (· ≤ ·) ((entries.map Startup.trim).filter (· ≠ ""))
  have ordered : (normalised entries).Pairwise (· ≤ ·) :=
    sorted.sublist (List.destutter_sublist _ _)
  have apart : (normalised entries).IsChain (· ≠ ·) := List.isChain_destutter _ _
  rw [← List.isChain_iff_pairwise, List.isChain_iff_getElem] at ordered ⊢
  rw [List.isChain_iff_getElem] at apart
  exact fun i there => lt_of_le_of_ne (ordered i there) (apart i there)

theorem normalised_eq_iff (entries others : List String) :
    normalised entries = normalised others ↔ ∀ entry, Names entries entry ↔ Names others entry := by
  constructor
  · intro same entry
    rw [← mem_normalised, ← mem_normalised, same]
  · intro same
    refine (normalised_sorted entries).eq_of_mem_iff (normalised_sorted others) fun entry => ?_
    rw [mem_normalised, mem_normalised, same]

/-! Texts as bytes. -/

theorem toList_loop (bytes : ByteArray) (i : Nat) (read : List UInt8) :
    ByteArray.toList.loop bytes i read = read.reverse ++ bytes.data.toList.drop i := by
  rw [ByteArray.toList.loop]
  split_ifs with more
  · rw [toList_loop bytes (i + 1)]
    have there : i < bytes.data.toList.length := more
    have next : bytes.get! i = bytes.data.toList[i] := by
      rw [ByteArray.get!, Array.getElem_toList]
      exact getElem!_pos _ _ _
    rw [List.reverse_cons, List.append_assoc, List.drop_eq_getElem_cons there, next]
    rfl
  · have past : bytes.data.toList.length ≤ i := Nat.le_of_not_lt more
    rw [List.drop_eq_nil_of_le past, List.append_nil]
termination_by bytes.size - i

theorem utf8_eq (text : String) : System.utf8 text = text.toByteArray.data.toList :=
  toList_loop text.toUTF8 0 []

theorem utf8_injective : Function.Injective System.utf8 := by
  intro text other same
  rw [utf8_eq, utf8_eq] at same
  exact String.toByteArray_inj.mp (ByteArray.ext (Array.toList_inj.mp same))

theorem utf8_length (text : String) : (System.utf8 text).length = text.utf8ByteSize := by
  rw [utf8_eq]
  rfl

/-- A byte of ASCII occurs in the encoding of its own character only. -/
theorem ascii_of_mem_utf8EncodeChar {c : Char} {byte : UInt8} (ascii : byte.toNat < 128)
    (member : byte ∈ String.utf8EncodeChar c) : c.val.toNat = byte.toNat := by
  have encoded (n : Nat) : byte = UInt8.ofNat n ↔ n % 256 = byte.toNat := by
    rw [← UInt8.toNat_inj, UInt8.toNat_ofNat']
    exact eq_comm
  simp only [String.utf8EncodeChar] at member
  -- every byte of a longer encoding has its high bit set
  split_ifs at member <;>
    simp only [List.mem_cons, encoded, List.not_mem_nil, or_false] at member <;> omega

theorem ascii_of_mem_utf8 {text : String} {c : Char} {byte : UInt8} (ascii : byte.toNat < 128)
    (code : c.val.toNat = byte.toNat) (member : byte ∈ System.utf8 text) : c ∈ text.toList := by
  have encoded : System.utf8 text = text.toList.flatMap String.utf8EncodeChar := by
    rw [utf8_eq]
    conv_lhs => rw [← String.ofList_toList (s := text), String.toByteArray_ofList]
    simp [List.utf8Encode]
  rw [encoded, List.mem_flatMap] at member
  obtain ⟨other, there, within⟩ := member
  have same : other = c :=
    Char.toNat_inj.mp ((ascii_of_mem_utf8EncodeChar ascii within).trans code.symm)
  exact same ▸ there

theorem nul_of_mem_utf8 {text : String} (member : (0 : UInt8) ∈ System.utf8 text) :
    '\x00' ∈ text.toList := ascii_of_mem_utf8 (by decide) (by decide) member

/-! The key. -/

/-- What is hashed for the key. -/
def keyText (imageSha256 : String) (packages : List String) : Bytes :=
  System.utf8 "v2" ++ System.utf8 imageSha256 ++ led 0 (packages.map System.utf8)

/-- The packages, cut apart at the NULs in their names. -/
def packagePieces (packages : List String) : List Bytes := pieces 0 (packages.map System.utf8)

theorem keyText_eq_iff {image image' : String} {packages packages' : List String}
    (digits : image.utf8ByteSize = 64) (digits' : image'.utf8ByteSize = 64) :
    keyText image packages = keyText image' packages' ↔
      image = image' ∧ packagePieces packages = packagePieces packages' := by
  have sizes : (System.utf8 "v2" ++ System.utf8 image).length =
      (System.utf8 "v2" ++ System.utf8 image').length := by
    rw [List.length_append, List.length_append, utf8_length image, utf8_length image', digits,
      digits']
  constructor
  · intro same
    obtain ⟨starts, ends⟩ := List.append_inj same sizes
    exact ⟨utf8_injective (List.append_cancel_left starts), (led_eq_iff 0).mp ends⟩
  · rintro ⟨images, same⟩
    rw [keyText, keyText, images, (led_eq_iff 0).mpr same]

/-- One key stands for two sets of packages: their names have NULs in them, and are the same when cut there. -/
def Confused (packages packages' : List String) : Prop :=
  (¬ ∀ entry, Names packages entry ↔ Names packages' entry) ∧
    packagePieces (normalised packages) = packagePieces (normalised packages')

/-- Names without NUL are never confused. -/
theorem not_confused {packages packages' : List String}
    (plain : ∀ entry, Names packages entry ∨ Names packages' entry → '\x00' ∉ entry.toList) :
    ¬ Confused packages packages' := by
  rintro ⟨differ, same⟩
  have whole (entries : List String) (clean : ∀ entry, Names entries entry →
    '\x00' ∉ entry.toList) :
      packagePieces (normalised entries) = (normalised entries).map System.utf8 := by
    apply pieces_eq_self
    intro item member
    obtain ⟨entry, there, rfl⟩ := List.mem_map.mp member
    exact fun nul => clean entry ((mem_normalised entries entry).mp there) (nul_of_mem_utf8 nul)
  rw [whole packages fun entry named => plain entry (.inl named),
    whole packages' fun entry named => plain entry (.inr named)] at same
  exact differ ((normalised_eq_iff packages packages').mp
    (List.map_injective_iff.mpr utf8_injective same))

section
variable [Crates]

/-- The keys of two requests are the same exactly where the image and the set of packages are, as long as the names
are not of the kind that NULs run together. -/
theorem keys_identify_packages (image image' : Image) (request request' : EnvironmentRequest)
    (digits : image.sha256.utf8ByteSize = 64) (digits' : image'.sha256.utf8ByteSize = 64)
    (told : let text := keyText image.sha256 request.normalise.packages
      let text' := keyText image'.sha256 request'.normalise.packages
      Crates.sha256 text = Crates.sha256 text' → text = text') :
    (System.environmentKey image.sha256 request.normalise.packages =
        System.environmentKey image'.sha256 request'.normalise.packages ↔
      image.sha256 = image'.sha256 ∧
        ∀ entry, Names request.packages entry ↔ Names request'.packages entry) ↔
      ¬ (image.sha256 = image'.sha256 ∧ Confused request.packages request'.packages) := by
  have hashed (image : Image) (packages : List String) :
      System.environmentKey image.sha256 packages =
        Crates.sha256 (keyText image.sha256 packages) := by
    rw [System.environmentKey, keyText, led, List.flatMap_map]
  have keys : System.environmentKey image.sha256 request.normalise.packages =
      System.environmentKey image'.sha256 request'.normalise.packages ↔
        image.sha256 = image'.sha256 ∧
          packagePieces (normalised request.packages) =
            packagePieces (normalised request'.packages) := by
    rw [hashed, hashed, ← keyText_eq_iff digits digits']
    exact ⟨told, congrArg _⟩
  rw [keys]
  constructor
  · rintro same ⟨images, differ, cut⟩
    exact differ (same.mp ⟨images, cut⟩).2
  · intro clear
    constructor
    · rintro ⟨images, cut⟩
      refine ⟨images, ?_⟩
      by_contra differ
      exact clear ⟨images, differ, cut⟩
    · rintro ⟨images, same⟩
      rw [(normalised_eq_iff _ _).mpr same]
      exact ⟨images, rfl⟩

end

def packagesRequest (packages : List String) : EnvironmentRequest :=
  { Demo.environmentRequest with packages := packages }

/-- An image with a digest of 64 digits. -/
def digestedImage : Image :=
  { Demo.runtimeImage with
    sha256 := "9f86d081884c7d659a2feaa0c55ad015a3bf4f1b2b0b822cd15d6c15b0f00a08" }

/-- SHA-256 of the texts for `numpy` and for `numpy` with `pandas`. -/
abbrev packageDigests : Crates :=
  { Demo.crates with
    sha256 := fun bytes =>
      if bytes = keyText digestedImage.sha256 ["numpy"] then
        "d844137ff64dbabf47d4093238e005635a1cd991446b19ef9970ffb6af7409b1"
      else "0eb5a05b7d03f1e68c2ec8501cb2adcb4ef6201886b3ba1f64fc5b92f4c1106c" }

theorem keys_identify_packages_numpy :
    let one := packagesRequest [" numpy", "numpy"]
    let two := packagesRequest ["pandas", "", "numpy"]
    (@System.environmentKey packageDigests digestedImage.sha256 one.normalise.packages =
        @System.environmentKey packageDigests digestedImage.sha256 two.normalise.packages ↔
      digestedImage.sha256 = digestedImage.sha256 ∧
        ∀ entry, Names one.packages entry ↔ Names two.packages entry) ↔
      ¬ (digestedImage.sha256 = digestedImage.sha256 ∧ Confused one.packages two.packages) := by
  have first : (packagesRequest [" numpy", "numpy"]).normalise.packages = ["numpy"] := by decide
  have second : (packagesRequest ["pandas", "", "numpy"]).normalise.packages =
      ["numpy", "pandas"] := by decide
  refine @keys_identify_packages packageDigests digestedImage digestedImage
    (packagesRequest [" numpy", "numpy"]) (packagesRequest ["pandas", "", "numpy"]) rfl rfl ?_
  have differ : keyText digestedImage.sha256 ["numpy", "pandas"] ≠
      keyText digestedImage.sha256 ["numpy"] := fun same =>
    absurd (congrArg List.length same) (by decide +kernel)
  rw [first, second]
  intro text text' same
  change (ite (text = text) _ _ : String) = ite (text' = text) _ _ at same
  rw [if_pos rfl, if_neg differ] at same
  exact absurd same (by decide)

/-- A NUL in the name of a package stands for the one before the next name. -/
theorem nul_confused :
    ¬ ∀ [Crates] (image image' : Image) (request request' : EnvironmentRequest),
      image.sha256.utf8ByteSize = 64 → image'.sha256.utf8ByteSize = 64 →
      (let text := keyText image.sha256 request.normalise.packages
       let text' := keyText image'.sha256 request'.normalise.packages
       Crates.sha256 text = Crates.sha256 text' → text = text') →
      (System.environmentKey image.sha256 request.normalise.packages =
          System.environmentKey image'.sha256 request'.normalise.packages ↔
        image.sha256 = image'.sha256 ∧
          ∀ entry, Names request.packages entry ↔ Names request'.packages entry) := by
  intro claim
  let spliced := packagesRequest ["a\x00b"]
  let listed := packagesRequest ["a", "b"]
  have texts : keyText digestedImage.sha256 spliced.normalise.packages =
      keyText digestedImage.sha256 listed.normalise.packages := by decide +kernel
  have same := @claim packageDigests digestedImage digestedImage spliced listed rfl rfl
    (fun _ => texts)
  have key : @System.environmentKey packageDigests digestedImage.sha256 spliced.normalise.packages =
      @System.environmentKey packageDigests digestedImage.sha256 listed.normalise.packages := by
    decide +kernel
  have named := ((same.mp key).2 "a").mpr ⟨by decide, "a", List.mem_cons_self, by decide⟩
  obtain ⟨-, sent, member, trimmed⟩ := named
  obtain rfl := List.mem_singleton.mp member
  exact absurd trimmed (by decide)

end Scraperack
