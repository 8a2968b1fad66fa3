import Mathlib

/-! The paths of http URLs. A client takes the path out of the text of a URL, resolves its dot segments and escapes
what may not stand in a request; a server splits the path that it receives and decodes the escapes. -/

namespace Urls

/-- Tabs and line ends are taken out wherever they stand. -/
def dropped (c : Char) : Bool := c = '\t' || c = '\n' || c = '\r'

/-- In an http URL a backslash is a slash. -/
def slash (c : Char) : Bool := c = '/' || c = '\\'

/-- The query or the fragment begins here. -/
def ending (c : Char) : Bool := c = '?' || c = '#'

/-- Control characters and spaces around the URL are taken off. -/
def blank (c : Char) : Bool := c.toNat ≤ 0x20

def hexValue (code : Nat) : Option Nat :=
  if 0x30 ≤ code ∧ code ≤ 0x39 then some (code - 0x30)
  else if 0x41 ≤ code ∧ code ≤ 0x46 then some (code - 0x41 + 10)
  else if 0x61 ≤ code ∧ code ≤ 0x66 then some (code - 0x61 + 10)
  else none

/-- A percent sign and two digits. -/
def escaped (first second third : Nat) : Option UInt8 :=
  if first = 0x25 then do
    let high ← hexValue second
    let low ← hexValue third
    return UInt8.ofNat (16 * high + low)
  else none

/-! The client. -/

def strip (text : List Char) : List Char :=
  ((text.dropWhile blank).reverse.dropWhile blank).reverse

/-- The path, from its first slash on, with the query and the fragment. -/
def afterAuthority (text : List Char) : List Char :=
  (((text.dropWhile (fun c => c ≠ ':')).drop 1).dropWhile slash).dropWhile
    (fun c => !slash c && !ending c)

def segments (url : List Char) : List (List Char) :=
  (((afterAuthority ((strip url).filter (fun c => !dropped c))).takeWhile
    (fun c => !ending c)).drop 1).splitOnP slash

def singleDot (segment : List Char) : Bool :=
  segment ∈ [".".toList, "%2e".toList, "%2E".toList]

def doubleDot (segment : List Char) : Bool :=
  segment ∈ ["..".toList, ".%2e".toList, ".%2E".toList, "%2e.".toList, "%2E.".toList,
    "%2e%2e".toList, "%2e%2E".toList, "%2E%2e".toList, "%2E%2E".toList]

/-- A dot segment is taken out, two dots with the segment before them; at the end an empty one stays. -/
def resolve : List (List Char) → List (List Char) → List (List Char)
  | done, [] => done
  | done, [last] =>
    if doubleDot last then done.dropLast ++ [[]]
    else if singleDot last then done ++ [[]]
    else done ++ [last]
  | done, segment :: rest =>
    if doubleDot segment then resolve done.dropLast rest
    else if singleDot segment then resolve done rest
    else resolve (done ++ [segment]) rest

def digit (value : Nat) : UInt8 := UInt8.ofNat (if value < 10 then 0x30 + value else 0x37 + value)

def escape (byte : UInt8) : List UInt8 := [0x25, digit (byte.toNat / 16), digit (byte.toNat % 16)]

/-- What may not stand in a path. The percent sign may. -/
def reserved (c : Char) : Bool :=
  c.toNat ≤ 0x20 || 0x7E < c.toNat || c ∈ ['"', '#', '<', '>', '?', '^', '`', '{', '}']

def encodeChar (c : Char) : List UInt8 :=
  if reserved c then (String.utf8EncodeChar c).flatMap escape else String.utf8EncodeChar c

def encode (segment : List Char) : List UInt8 := segment.flatMap encodeChar

/-- The path of the request for a URL. -/
def target (url : List Char) : List UInt8 :=
  0x2F :: [0x2F].intercalate ((resolve [] (segments url)).map encode)

/-! The server. -/

def received (path : List UInt8) : List (List UInt8) := (path.drop 1).splitOn 0x2F

def decode : List UInt8 → List UInt8
  | first :: second :: third :: rest =>
    match escaped first.toNat second.toNat third.toNat with
    | some byte => byte :: decode rest
    | none => first :: decode (second :: third :: rest)
  | rest => rest

/-- A parameter of the path, if it is UTF-8. -/
def parameter (segment : List UInt8) : Option String :=
  String.fromUTF8? ⟨(decode segment).toArray⟩

/-! What the two make of one segment. -/

def utf8 (text : List Char) : List UInt8 := text.flatMap String.utf8EncodeChar

/-- The bytes that the server has once it has decoded what the client sent for the characters. -/
def unescape : List Char → List UInt8
  | first :: second :: third :: rest =>
    match escaped first.toNat second.toNat third.toNat with
    | some byte => byte :: unescape rest
    | none => String.utf8EncodeChar first ++ unescape (second :: third :: rest)
  | rest => utf8 rest

theorem utf8_ascii {c : Char} (ascii : c.toNat ≤ 0x7E) :
    String.utf8EncodeChar c = [UInt8.ofNat c.toNat] := by
  have small : c.val.toNat ≤ 0x7F := by
    have same : c.toNat = c.val.toNat := rfl
    omega
  simp only [String.utf8EncodeChar, small, ↓reduceIte]
  rfl

theorem toNat_ascii {c : Char} (ascii : c.toNat ≤ 0x7E) : (UInt8.ofNat c.toNat).toNat = c.toNat :=
  UInt8.toNat_ofNat_of_lt' (by have size : UInt8.size = 256 := rfl; omega)

theorem hexValue_digit {value : Nat} (small : value < 16) :
    hexValue (digit value).toNat = some value := by
  have all : ∀ value : Fin 16, hexValue (digit value).toNat = some value.val := by decide
  exact all ⟨value, small⟩

theorem escaped_digits (byte : UInt8) :
    escaped 0x25 (digit (byte.toNat / 16)).toNat (digit (byte.toNat % 16)).toNat = some byte := by
  have bound := byte.toNat_lt
  have high : byte.toNat / 16 < 16 := by omega
  have low : byte.toNat % 16 < 16 := by omega
  have whole : 16 * (byte.toNat / 16) + byte.toNat % 16 = byte.toNat := by omega
  simp only [escaped, ↓reduceIte, hexValue_digit high, hexValue_digit low, Option.bind_eq_bind,
    Option.bind_some, whole]
  exact congrArg some (UInt8.ofNat_toNat)

theorem decode_escape (byte : UInt8) (rest : List UInt8) :
    decode (escape byte ++ rest) = byte :: decode rest := by
  have percent : (0x25 : UInt8).toNat = 0x25 := rfl
  simp only [escape, List.cons_append, List.nil_append, decode]
  rw [percent, escaped_digits]

theorem decode_escapes (bytes rest : List UInt8) :
    decode (bytes.flatMap escape ++ rest) = bytes ++ decode rest := by
  induction bytes with
  | nil => rfl
  | cons byte bytes ih =>
    rw [List.flatMap_cons, List.append_assoc, decode_escape, ih, List.cons_append]

theorem decode_other {byte : UInt8} (plain : byte.toNat ≠ 0x25) (rest : List UInt8) :
    decode (byte :: rest) = byte :: decode rest := by
  match rest with
  | [] => rfl
  | [_] => rfl
  | second :: third :: rest =>
    have none_there : escaped byte.toNat second.toNat third.toNat = none := by simp [escaped, plain]
    rw [decode, none_there]

theorem unescape_other {c : Char} (plain : c.toNat ≠ 0x25) (rest : List Char) :
    unescape (c :: rest) = String.utf8EncodeChar c ++ unescape rest := by
  match rest with
  | [] => rfl
  | [_] => rfl
  | second :: third :: rest =>
    have none_there : escaped c.toNat second.toNat third.toNat = none := by simp [escaped, plain]
    rw [unescape, none_there]

/-- What is reserved is neither a digit of an escape nor its sign; anything else is sent as it is. -/
theorem encodeChar_cases (c : Char) :
    (hexValue c.toNat = none ∧ c.toNat ≠ 0x25 ∧
      encodeChar c = (String.utf8EncodeChar c).flatMap escape) ∨
    (c.toNat ≤ 0x7E ∧ encodeChar c = [UInt8.ofNat c.toNat]) := by
  unfold encodeChar
  cases kept : reserved c with
  | true =>
    refine .inl ⟨?_, ?_, rfl⟩
    · simp only [reserved, Bool.or_eq_true, decide_eq_true_eq, List.mem_cons, List.not_mem_nil,
        or_false] at kept
      rcases kept with (control | high) | rfl | rfl | rfl | rfl | rfl | rfl | rfl | rfl | rfl
      · simp only [hexValue]
        split_ifs <;> first | rfl | omega
      · simp only [hexValue]
        split_ifs <;> first | rfl | omega
      all_goals rfl
    · intro percent
      have same : c = '%' := Char.toNat_inj.mp percent
      subst same
      exact absurd kept (by decide)
  | false =>
    have low : c.toNat ≤ 0x7E := by
      simp only [reserved, Bool.or_eq_false_iff, decide_eq_false_iff_not] at kept
      omega
    exact .inr ⟨low, utf8_ascii low⟩

/-- The escape whose digits begin the bytes. -/
def digits : List UInt8 → Option UInt8
  | second :: third :: _ => escaped 0x25 second.toNat third.toNat
  | _ => none

def charDigits : List Char → Option UInt8
  | second :: third :: _ => escaped 0x25 second.toNat third.toNat
  | _ => none

theorem decode_percent (bytes : List UInt8) :
    decode (0x25 :: bytes) =
      match digits bytes with
      | some byte => byte :: decode (bytes.drop 2)
      | none => 0x25 :: decode bytes := by
  match bytes with
  | [] => rfl
  | [_] => rfl
  | second :: third :: rest => rfl

theorem unescape_percent (text : List Char) :
    unescape ('%' :: text) =
      match charDigits text with
      | some byte => byte :: unescape (text.drop 2)
      | none => 0x25 :: unescape text := by
  match text with
  | [] => rfl
  | [_] => rfl
  | second :: third :: rest => rfl

theorem escaped_second {second : Nat} (other : hexValue second = none) (third : Nat) :
    escaped 0x25 second third = none := by simp [escaped, other]

theorem escaped_third (second : Nat) {third : Nat} (other : hexValue third = none) :
    escaped 0x25 second third = none := by
  simp only [escaped, ↓reduceIte, other]
  cases hexValue second <;> rfl

/-- The bytes of an escape that the client adds begin with a percent sign. -/
theorem digits_reserved {c : Char} (text : List UInt8) (before : List UInt8)
    (sent : encodeChar c = (String.utf8EncodeChar c).flatMap escape)
    (short : before.length ≤ 1) : digits (before ++ (encodeChar c ++ text)) = none := by
  obtain ⟨byte, rest, bytes⟩ := List.exists_cons_of_ne_nil (String.utf8EncodeChar_ne_nil (c := c))
  have percent : hexValue (0x25 : UInt8).toNat = none := rfl
  rw [sent, bytes, List.flatMap_cons]
  match before, short with
  | [], _ => exact escaped_second percent _
  | [second], _ => exact escaped_third second.toNat percent

/-- The client neither makes nor breaks the digits of an escape. -/
theorem digits_encode (text : List Char) :
    digits (encode text) = charDigits text ∧
      ∀ byte, charDigits text = some byte → (encode text).drop 2 = encode (text.drop 2) := by
  match text with
  | [] => exact ⟨rfl, nofun⟩
  | [second] =>
    refine ⟨?_, nofun⟩
    rcases encodeChar_cases second with ⟨-, -, sent⟩ | ⟨-, sent⟩
    · exact digits_reserved [] [] sent (by simp)
    · simp [encode, sent, digits, charDigits]
  | second :: third :: rest =>
    rcases encodeChar_cases second with ⟨other, -, sent⟩ | ⟨low, sent⟩
    · have none_there : charDigits (second :: third :: rest) = none := escaped_second other _
      rw [none_there]
      exact ⟨digits_reserved (encode (third :: rest)) [] sent (by simp), nofun⟩
    · rcases encodeChar_cases third with ⟨other, -, sent'⟩ | ⟨low', sent'⟩
      · have none_there : charDigits (second :: third :: rest) = none := escaped_third _ other
        rw [none_there, encode, List.flatMap_cons, sent, List.flatMap_cons]
        exact ⟨digits_reserved (encode rest) [UInt8.ofNat second.toNat] sent' (by simp), nofun⟩
      · have all : encode (second :: third :: rest) =
            UInt8.ofNat second.toNat :: UInt8.ofNat third.toNat :: encode rest := by
          simp [encode, sent, sent']
        rw [all]
        refine ⟨?_, fun _ _ => rfl⟩
        rw [digits, toNat_ascii low, toNat_ascii low']
        rfl

theorem decode_encode (text : List Char) : decode (encode text) = unescape text := by
  induction size : text.length using Nat.strong_induction_on generalizing text with
  | _ n ih =>
    subst size
    match text with
    | [] => rfl
    | c :: rest =>
      have shorter : decode (encode rest) = unescape rest := ih _ (by simp) rest rfl
      by_cases percent : c.toNat = 0x25
      · have same : c = '%' := Char.toNat_inj.mp percent
        subst same
        have sent : encode ('%' :: rest) = 0x25 :: encode rest := rfl
        rw [sent, decode_percent, unescape_percent, (digits_encode rest).1]
        cases found : charDigits rest with
        | none => exact congrArg _ shorter
        | some byte =>
          have later := ih _ (by rw [List.length_drop, List.length_cons]; omega) (rest.drop 2) rfl
          simp only [(digits_encode rest).2 byte found, later]
      · rw [unescape_other percent, encode, List.flatMap_cons, ← encode, ← shorter]
        rcases encodeChar_cases c with ⟨-, -, sent⟩ | ⟨low, sent⟩
        · rw [sent, decode_escapes]
        · rw [sent, utf8_ascii low, List.singleton_append, List.singleton_append,
            decode_other (by rwa [toNat_ascii low])]

/-- No percent sign has two digits behind it. -/
def NoEscape (text : List Char) : Prop :=
  ∀ front second third back, text = front ++ '%' :: second :: third :: back →
    escaped 0x25 second.toNat third.toNat = none

theorem noEscape_cons {c : Char} {rest : List Char} (later : NoEscape rest)
    (here : c = '%' → charDigits rest = none) : NoEscape (c :: rest) := by
  intro front second third back split
  cases front with
  | nil =>
    obtain ⟨rfl, rfl⟩ := List.cons.inj split
    exact here rfl
  | cons first front => exact later front second third back (List.cons.inj split).2

theorem NoEscape.tail {c : Char} {rest : List Char} (none_there : NoEscape (c :: rest)) :
    NoEscape rest :=
  fun front second third back split =>
    none_there (c :: front) second third back (by rw [split]; rfl)

theorem NoEscape.charDigits {rest : List Char} (none_there : NoEscape ('%' :: rest)) :
    charDigits rest = none := by
  match rest with
  | [] => rfl
  | [_] => rfl
  | second :: third :: back => exact none_there [] second third back rfl

theorem utf8_cons (c : Char) (rest : List Char) :
    utf8 (c :: rest) = String.utf8EncodeChar c ++ utf8 rest := List.flatMap_cons

/-- The server receives what the client means. -/
theorem unescape_of_noEscape {text : List Char} (none_there : NoEscape text) :
    unescape text = utf8 text := by
  induction text with
  | nil => rfl
  | cons c rest ih =>
    rw [utf8_cons, ← ih none_there.tail]
    by_cases percent : c.toNat = 0x25
    · have same : c = '%' := Char.toNat_inj.mp percent
      subst same
      rw [unescape_percent, none_there.charDigits]
      rfl
    · exact unescape_other percent rest

/-- An escape makes the text shorter. -/
theorem unescape_length (text : List Char) :
    (unescape text).length ≤ (utf8 text).length ∧
      ((unescape text).length = (utf8 text).length → NoEscape text) := by
  induction size : text.length using Nat.strong_induction_on generalizing text with
  | _ n ih =>
    subst size
    match text with
    | [] => exact ⟨le_rfl, fun _ front _ _ _ split => by simp at split⟩
    | c :: rest =>
      have shorter := ih _ (by simp) rest rfl
      rw [utf8_cons, List.length_append]
      by_cases percent : c.toNat = 0x25
      · have same : c = '%' := Char.toNat_inj.mp percent
        subst same
        have one : (String.utf8EncodeChar '%').length = 1 := rfl
        rw [unescape_percent, one]
        cases found : charDigits rest with
        | none =>
          simp only [List.length_cons]
          refine ⟨by omega, fun same => ?_⟩
          exact noEscape_cons (shorter.2 (by omega)) (fun _ => found)
        | some byte =>
          match rest, found with
          | second :: third :: back, found =>
            have later := (ih _ (by simp only [List.length_cons]; omega) back rfl).1
            have first := List.length_pos_iff.mpr (String.utf8EncodeChar_ne_nil (c := second))
            simp only [List.drop_succ_cons, List.drop_zero, List.length_cons, utf8_cons,
              List.length_append]
            exact ⟨by omega, fun same => by omega⟩
      · rw [unescape_other percent, List.length_append]
        refine ⟨by omega, fun same => noEscape_cons (shorter.2 (by omega)) (fun sign => ?_)⟩
        subst sign
        exact absurd rfl percent

theorem fromUTF8_eq_some (bytes : List UInt8) (text : String) :
    String.fromUTF8? ⟨bytes.toArray⟩ = some text ↔ bytes = utf8 text.toList := by
  have array : (⟨bytes.toArray⟩ : ByteArray) = bytes.toByteArray := by
    apply ByteArray.ext
    simp
  have stored : text.toByteArray = (utf8 text.toList).toByteArray := by
    conv_lhs => rw [← String.ofList_toList (s := text), String.toByteArray_ofList]
    rfl
  rw [array]
  unfold String.fromUTF8?
  constructor
  · intro found
    split at found
    · have whole : bytes.toByteArray = (utf8 text.toList).toByteArray :=
        (congrArg String.toByteArray (Option.some.inj found)).trans stored
      have arrays := congrArg ByteArray.data whole
      simpa using arrays
    · cases found
  · intro same
    have valid : bytes.toByteArray.IsValidUTF8 := by
      rw [same, ← stored]
      exact text.isValidUTF8
    rw [dif_pos valid]
    refine congrArg some (String.toByteArray_inj.mp ?_)
    rw [stored, ← same]
    rfl

/-- The server reads the parameter as the text when that is what is left of the client's segment. -/
theorem parameter_encode (segment : List Char) (text : String) :
    parameter (encode segment) = some text ↔ unescape segment = utf8 text.toList := by
  rw [parameter, fromUTF8_eq_some, decode_encode]

/-! The segments of a path. -/

section Split
variable {α : Type} (p : α → Bool)

theorem length_splitOnP (text : List α) : (text.splitOnP p).length = text.countP p + 1 := by
  induction text with
  | nil => rfl
  | cons c rest ih =>
    rw [List.splitOnP_cons_eq_if_modifyHead, List.countP_cons]
    split_ifs <;> simp [ih]

theorem mem_splitOnP {text segment : List α} (member : segment ∈ text.splitOnP p) :
    ∀ c ∈ segment, p c = false := by
  induction text generalizing segment with
  | nil =>
    rw [List.splitOnP_nil, List.mem_singleton] at member
    subst member
    exact nofun
  | cons c rest ih =>
    rw [List.splitOnP_cons_eq_if_modifyHead] at member
    split_ifs at member with here
    · rcases List.mem_cons.mp member with rfl | later
      · exact nofun
      · exact ih later
    · obtain ⟨first, others, split⟩ := List.exists_cons_of_ne_nil (List.splitOnP_ne_nil p rest)
      rw [split, List.modifyHead_cons] at member
      rw [split] at ih
      rcases List.mem_cons.mp member with rfl | later
      · intro d inside
        rcases List.mem_cons.mp inside with rfl | inside
        · simpa using here
        · exact ih List.mem_cons_self d inside
      · exact ih (List.mem_cons_of_mem first later)

end Split

theorem size_splitOnP (text : List Char) :
    ((text.splitOnP slash).map (fun segment => (utf8 segment).length)).sum + text.countP slash =
      (utf8 text).length := by
  induction text with
  | nil => rfl
  | cons c rest ih =>
    rw [List.splitOnP_cons_eq_if_modifyHead, List.countP_cons, utf8_cons, List.length_append]
    by_cases here : slash c = true
    · have one : (String.utf8EncodeChar c).length = 1 := by
        simp only [slash, Bool.or_eq_true, decide_eq_true_eq] at here
        rcases here with rfl | rfl <;> rfl
      have empty : (utf8 []).length = 0 := rfl
      rw [if_pos here, if_pos here, List.map_cons, List.sum_cons, one, empty]
      omega
    · obtain ⟨first, others, split⟩ :=
        List.exists_cons_of_ne_nil (List.splitOnP_ne_nil slash rest)
      rw [split, List.map_cons, List.sum_cons] at ih
      rw [if_neg here, if_neg here, split, List.modifyHead_cons, List.map_cons, List.sum_cons,
        utf8_cons, List.length_append]
      omega

theorem utf8_append (front back : List Char) : utf8 (front ++ back) = utf8 front ++ utf8 back :=
  List.flatMap_append

theorem utf8_sublist {part text : List Char} (inside : part.Sublist text) :
    (utf8 part).length ≤ (utf8 text).length := by
  induction inside with
  | slnil => exact le_rfl
  | cons c _ ih =>
    rw [utf8_cons, List.length_append]
    omega
  | cons_cons c _ ih =>
    rw [utf8_cons, utf8_cons, List.length_append, List.length_append]
    omega

/-- A text loses bytes with every character. -/
theorem eq_of_sublist {part text : List Char} (inside : part.Sublist text)
    (same : (utf8 text).length ≤ (utf8 part).length) : part = text := by
  induction inside with
  | slnil => rfl
  | cons c inside _ =>
    have shorter := utf8_sublist inside
    have positive := List.length_pos_iff.mpr (String.utf8EncodeChar_ne_nil (c := c))
    rw [utf8_cons, List.length_append] at same
    omega
  | cons_cons c _ ih =>
    rw [utf8_cons, utf8_cons, List.length_append, List.length_append] at same
    rw [ih (by omega)]

/-! Dot segments. -/

theorem resolve_ne_nil {done rest : List (List Char)} (some_rest : rest ≠ []) :
    resolve done rest ≠ [] := by
  induction rest generalizing done with
  | nil => exact absurd rfl some_rest
  | cons segment rest ih =>
    cases rest with
    | nil =>
      unfold resolve
      split_ifs <;> simp
    | cons next rest =>
      unfold resolve
      split_ifs
      · exact ih (List.cons_ne_nil _ _)
      · exact ih (List.cons_ne_nil _ _)
      · exact ih (List.cons_ne_nil _ _)

/-- The segments that are left stand in their order, unless an empty one was put at the end. -/
theorem resolve_sublist (done rest : List (List Char)) :
    (resolve done rest).Sublist (done ++ rest) ∨ ∃ front, resolve done rest = front ++ [[]] := by
  induction rest generalizing done with
  | nil => exact .inl (by simp [resolve])
  | cons segment rest ih =>
    cases rest with
    | nil =>
      unfold resolve
      split_ifs
      · exact .inr ⟨_, rfl⟩
      · exact .inr ⟨_, rfl⟩
      · exact .inl (List.Sublist.refl _)
    | cons next rest =>
      have later : (done ++ next :: rest).Sublist (done ++ segment :: next :: rest) :=
        (List.sublist_cons_self segment _).append_left done
      unfold resolve
      split_ifs
      · exact (ih done.dropLast).imp_left (fun part =>
          (part.trans ((List.dropLast_sublist done).append_right _)).trans later)
      · exact (ih done).imp_left (fun part => part.trans later)
      · simpa using ih (done ++ [segment])

def dots (segment : List Char) : Bool := singleDot segment || doubleDot segment

theorem mem_resolve {done rest : List (List Char)} {segment : List Char}
    (member : segment ∈ resolve done rest) :
    segment ∈ done ∨ dots segment = false ∧ (segment = [] ∨ segment ∈ rest) := by
  induction rest generalizing done with
  | nil => exact .inl member
  | cons first rest ih =>
    have empty : dots [] = false := by decide
    cases rest with
    | nil =>
      unfold resolve at member
      split_ifs at member with double single
      · rcases List.mem_append.mp member with before | last
        · exact .inl ((List.dropLast_sublist done).subset before)
        · obtain rfl := List.mem_singleton.mp last
          exact .inr ⟨empty, .inl rfl⟩
      · rcases List.mem_append.mp member with before | last
        · exact .inl before
        · obtain rfl := List.mem_singleton.mp last
          exact .inr ⟨empty, .inl rfl⟩
      · rcases List.mem_append.mp member with before | last
        · exact .inl before
        · obtain rfl := List.mem_singleton.mp last
          exact .inr ⟨by simp [dots, single, double], .inr List.mem_cons_self⟩
    | cons next rest =>
      have later {d : List (List Char)} (known : ∀ s ∈ d, s ∈ done ∨ dots s = false ∧ s = first)
          (inside : segment ∈ resolve d (next :: rest)) :
          segment ∈ done ∨ dots segment = false ∧
            (segment = [] ∨ segment ∈ first :: next :: rest) := by
        rcases ih inside with before | ⟨plain, after⟩
        · rcases known segment before with before | ⟨plain, rfl⟩
          · exact .inl before
          · exact .inr ⟨plain, .inr List.mem_cons_self⟩
        · exact .inr ⟨plain, after.imp_right (List.mem_cons_of_mem first)⟩
      unfold resolve at member
      split_ifs at member with double single
      · exact later (fun s before => .inl ((List.dropLast_sublist done).subset before)) member
      · exact later (fun s before => .inl before) member
      · refine later (fun s before => ?_) member
        rcases List.mem_append.mp before with before | last
        · exact .inl before
        · obtain rfl := List.mem_singleton.mp last
          exact .inr ⟨by simp [dots, single, double], rfl⟩

theorem resolve_plain {done rest : List (List Char)} (plain : ∀ s ∈ rest, dots s = false) :
    resolve done rest = done ++ rest := by
  induction rest generalizing done with
  | nil => simp [resolve]
  | cons segment rest ih =>
    have here := plain segment List.mem_cons_self
    simp only [dots, Bool.or_eq_false_iff] at here
    cases rest with
    | nil => simp [resolve, here]
    | cons next rest =>
      have later : resolve (done ++ [segment]) (next :: rest) =
          done ++ [segment] ++ next :: rest :=
        ih (fun s member => plain s (List.mem_cons_of_mem segment member))
      simpa [resolve, here] using later

/-! A URL behind the scheme and the authority of a server. -/

structure Origin where
  scheme : List Char
  authority : List Char
  special : scheme = "http".toList ∨ scheme = "https".toList
  host : authority ≠ []
  plain : ∀ c ∈ authority, slash c = false ∧ ending c = false ∧ dropped c = false

def Origin.text (origin : Origin) : List Char :=
  origin.scheme ++ "://".toList ++ origin.authority

theorem strip_eq {first last : Char} (text : List Char) (front : blank first = false)
    (back : blank last = false) :
    strip (first :: (text ++ [last])) = first :: (text ++ [last]) := by
  rw [strip, List.dropWhile_cons_of_neg (by simp [front]), List.reverse_cons, List.reverse_append,
    List.reverse_singleton, List.singleton_append, List.cons_append,
    List.dropWhile_cons_of_neg (by simp [back])]
  simp

theorem afterAuthority_origin (origin : Origin) (rest : List Char) :
    afterAuthority (origin.text ++ '/' :: rest) = '/' :: rest := by
  obtain ⟨first, others, split⟩ := List.exists_cons_of_ne_nil origin.host
  have leading : ((origin.text ++ '/' :: rest).dropWhile (fun c => c ≠ ':')).drop 1 =
      '/' :: '/' :: (origin.authority ++ '/' :: rest) := by
    rcases origin.special with http | https
    · simp [Origin.text, http]
    · simp [Origin.text, https]
  have start : slash first = false := (origin.plain first (by rw [split]; simp)).1
  have slashes : ('/' :: '/' :: (origin.authority ++ '/' :: rest)).dropWhile slash =
      origin.authority ++ '/' :: rest := by
    rw [List.dropWhile_cons_of_pos rfl, List.dropWhile_cons_of_pos rfl, split, List.cons_append,
      List.dropWhile_cons_of_neg (by simp [start])]
  rw [afterAuthority, leading, slashes,
    List.dropWhile_append_of_pos (fun c member => by simp [origin.plain c member])]
  rfl

/-- What the client takes for segments of the path. -/
theorem segments_origin (origin : Origin) (path : List Char) {last : Char}
    (back : blank last = false) :
    segments (origin.text ++ '/' :: (path ++ [last])) =
      (((path ++ [last]).filter (fun c => !dropped c)).takeWhile (fun c => !ending c)).splitOnP
        slash := by
  have stripped : strip (origin.text ++ '/' :: (path ++ [last])) =
      origin.text ++ '/' :: (path ++ [last]) := by
    have whole : ∃ text, origin.text ++ '/' :: (path ++ [last]) = 'h' :: (text ++ [last]) := by
      rcases origin.special with http | https
      · exact ⟨"ttp".toList ++ "://".toList ++ origin.authority ++ '/' :: path, by
          simp [Origin.text, http]⟩
      · exact ⟨"ttps".toList ++ "://".toList ++ origin.authority ++ '/' :: path, by
          simp [Origin.text, https]⟩
    obtain ⟨text, same⟩ := whole
    rw [same, strip_eq text rfl back]
  have http : ∀ c ∈ "http".toList ++ "://".toList, dropped c = false := by simp [dropped]
  have https : ∀ c ∈ "https".toList ++ "://".toList, dropped c = false := by simp [dropped]
  have kept : origin.text.filter (fun c => !dropped c) = origin.text := by
    rw [List.filter_eq_self]
    intro c member
    have plain : dropped c = false := by
      rcases List.mem_append.mp member with front | host
      · rcases origin.special with scheme | scheme
        · exact http c (scheme ▸ front)
        · exact https c (scheme ▸ front)
      · exact (origin.plain c host).2.2
    simp [plain]
  have slashed : ('/' :: (path ++ [last])).filter (fun c => !dropped c) =
      '/' :: (path ++ [last]).filter (fun c => !dropped c) := rfl
  rw [segments, stripped, List.filter_append, kept, slashed, afterAuthority_origin]
  rfl

/-- Segments without signs of their own are taken over as they are. -/
theorem split_known {known : List (List Char)} (plain : ∀ segment ∈ known, ∀ c ∈ segment,
    slash c = false ∧ ending c = false ∧ dropped c = false) (rest : List Char) :
    (((known.flatMap (fun segment => segment ++ ['/']) ++ rest).filter
        (fun c => !dropped c)).takeWhile (fun c => !ending c)).splitOnP slash =
      known ++ ((rest.filter (fun c => !dropped c)).takeWhile
        (fun c => !ending c)).splitOnP slash := by
  induction known with
  | nil => rfl
  | cons segment known ih =>
    have later := ih (fun s member => plain s (List.mem_cons_of_mem segment member))
    have here := plain segment List.mem_cons_self
    have kept : segment.filter (fun c => !dropped c) = segment :=
      List.filter_eq_self.mpr (fun c member => by simp [here c member])
    have slashed (text : List Char) : ('/' :: text).filter (fun c => !dropped c) =
        '/' :: text.filter (fun c => !dropped c) := rfl
    rw [List.flatMap_cons, List.append_assoc, List.append_assoc, List.filter_append, kept,
      List.singleton_append, slashed,
      List.takeWhile_append_of_pos (fun c member => by simp [here c member]),
      List.takeWhile_cons_of_pos rfl, List.splitOnP_append_cons_of_forall_mem
        (fun c member => (here c member).1) '/' rfl, later, List.cons_append]

theorem slash_encode {segment : List Char} (plain : ∀ c ∈ segment, slash c = false) :
    0x2F ∉ encode segment := by
  intro member
  obtain ⟨c, inside, sent⟩ := List.mem_flatMap.mp member
  rcases encodeChar_cases c with ⟨-, -, bytes⟩ | ⟨low, bytes⟩
  · rw [bytes] at sent
    obtain ⟨byte, -, part⟩ := List.mem_flatMap.mp sent
    have bound := byte.toNat_lt
    have high : byte.toNat / 16 < 16 := by omega
    have low : byte.toNat % 16 < 16 := by omega
    have digits : ∀ value : Fin 16, digit value.val ≠ 0x2F := by decide
    simp only [escape, List.mem_cons, List.not_mem_nil, or_false] at part
    rcases part with percent | first | second
    · exact absurd percent (by decide)
    · exact digits ⟨_, high⟩ first.symm
    · exact digits ⟨_, low⟩ second.symm
  · rw [bytes, List.mem_singleton] at sent
    have code : c.toNat = 0x2F := by rw [← toNat_ascii low, ← sent]; rfl
    have same : c = '/' := Char.toNat_inj.mp code
    exact absurd (plain c inside) (by rw [same]; decide)

/-- The server has the segments that the client sent. -/
theorem received_target {url : List Char} :
    received (target url) = (resolve [] (segments url)).map encode := by
  have sent : ∀ bytes ∈ (resolve [] (segments url)).map encode, 0x2F ∉ bytes := by
    intro bytes member
    obtain ⟨segment, resolved, rfl⟩ := List.mem_map.mp member
    refine slash_encode ?_
    rcases mem_resolve resolved with none_there | ⟨-, rfl | listed⟩
    · cases none_there
    · exact nofun
    · exact mem_splitOnP slash listed
  have some_segment : (resolve [] (segments url)).map encode ≠ [] := by
    rw [ne_eq, List.map_eq_nil_iff]
    exact resolve_ne_nil (List.splitOnP_ne_nil _ _)
  exact List.splitOn_intercalate 0x2F sent some_segment

end Urls
