import Scraperack.Data

/-! The value that a function returns, on its way to the client. The executor writes it as JSON, or
when `json.dumps` refuses it as a pickle. The node, the controller and its database each read the
document with `serde_json` and write it again, and the client decodes what it gets. -/

namespace Scraperack.Results

/-- A code point of a Python text: a character, or one half of a surrogate pair. -/
inductive Point where
  | char (value : Char)
  | high (index : Fin 1024)
  | low (index : Fin 1024)
  deriving DecidableEq

abbrev Text := List Point

namespace Text

def utf (text : String) : Text := text.toList.map .char

/-- What is read of the text in JSON, where two halves of a pair are written like the character they
stand for. -/
def join : Text → Text
  | .high one :: .low two :: rest =>
    .char (Char.ofNat (0x10000 + 1024 * one.val + two.val)) :: join rest
  | point :: rest => point :: join rest
  | [] => []

def chars : Text → Option (List Char)
  | [] => some []
  | .char value :: rest => (chars rest).map (value :: ·)
  | _ :: _ => none

/-- The string of Rust, which holds characters only. -/
def read (text : Text) : Option String := text.chars.map String.ofList

end Text

/-- The exceptions of `json.dumps`. -/
inductive Refusal where
  | typeError
  | other
  deriving DecidableEq

/-- A key of a Python dictionary. `json.dumps` takes an instance of a subclass of `str`, `int` or `float`
for the `seen` key, and refuses the others. -/
inductive Key (F O : Type) where
  | string (text : Text)
  | int (value : Int)
  | float (value : F)
  | bool (value : Bool)
  | none
  | subclass (kind : O) (seen : Key F O)
  | other (value : O)

/-- A Python value. An instance of a subclass of one of the types of JSON, as an `OrderedDict` or a member
of an `IntEnum`, is written like the `seen` value. Any other object `json.dumps` refuses, most of them with
a `TypeError`, but with another exception what is part of itself. -/
inductive PyValue (F O : Type) where
  | none
  | bool (value : Bool)
  | int (value : Int)
  | float (value : F)
  | string (text : Text)
  | list (items : List (PyValue F O))
  | tuple (items : List (PyValue F O))
  | dict (entries : List (Key F O × PyValue F O))
  | subclass (kind : O) (seen : PyValue F O)
  | object (refusal : Refusal) (value : O)

/-- A JSON document, with the texts of Python or of Rust. A number is an integer or a float, as its text
tells; the float may be one of those, like `NaN`, that only Python reads and writes. -/
inductive Document (T F : Type) where
  | null
  | bool (value : Bool)
  | int (value : Int)
  | float (value : F)
  | string (text : T)
  | array (items : List (Document T F))
  | object (fields : List (T × Document T F))

def Document.field {F : Type} (name : String) : Document String F → Option (Document String F)
  | .object fields => (fields.find? (fun entry => entry.1 = name)).map Prod.snd
  | _ => .none

/-- What the value goes through that is not part of this program. -/
class Libraries (F O : Type) where
  /-- The nesting that `json.dumps` allows. -/
  recursionLimit : Nat
  /-- The integer has no more digits than Python prints. -/
  printable : Int → Bool
  /-- The text of a float. -/
  repr : F → String
  /-- What `serde_json` reads for a float that Python or itself has written. -/
  read : F → Option F
  /-- What `serde_json` reads for an integer that has not 64 bits. -/
  readInt : Int → Option F
  /-- `base64.b64encode(cloudpickle.dumps(value))`, and back. -/
  pickle : PyValue F O → Option String
  unpickle : String → Option (PyValue F O)

section
variable {F O : Type} [Libraries F O]

/-! Python. -/

def Key.dumps : Key F O → Except Refusal Text
  | .string text => .ok text.join
  | .int value =>
    if Libraries.printable F O value then .ok (.utf (toString value)) else .error .other
  | .float value => .ok (.utf (Libraries.repr O value))
  | .bool value => .ok (.utf (if value then "true" else "false"))
  | .none => .ok (.utf "null")
  | .subclass _ seen => seen.dumps
  | .other _ => .error .typeError

mutual

/-- `json.dumps`, with the nesting that is left. -/
def dumps (levels : Nat) : PyValue F O → Except Refusal (Document Text F)
  | .none => .ok .null
  | .bool value => .ok (.bool value)
  | .int value => if Libraries.printable F O value then .ok (.int value) else .error .other
  | .float value => .ok (.float value)
  | .string text => .ok (.string text.join)
  | .list items | .tuple items =>
    match levels with
    | 0 => .error .other
    | levels + 1 => (dumpsItems levels items).map .array
  | .dict entries =>
    match levels with
    | 0 => .error .other
    | levels + 1 => (dumpsEntries levels entries).map .object
  | .subclass _ seen => dumps levels seen
  | .object refusal _ => .error refusal

def dumpsItems (levels : Nat) : List (PyValue F O) → Except Refusal (List (Document Text F))
  | [] => .ok []
  | item :: rest => do
    let first ← dumps levels item
    return first :: (← dumpsItems levels rest)

def dumpsEntries (levels : Nat) :
    List (Key F O × PyValue F O) → Except Refusal (List (Text × Document Text F))
  | [] => .ok []
  | (key, value) :: rest => do
    let name ← key.dumps
    let first ← dumps levels value
    return (name, first) :: (← dumpsEntries levels rest)

end

/-- An assignment to a key of a dictionary: a key that is there keeps its place. -/
def put {N V : Type} [DecidableEq N] (fields : List (N × V)) (field : N × V) : List (N × V) :=
  if field.1 ∈ fields.map Prod.fst then
    fields.map (fun other => if other.1 = field.1 then field else other)
  else fields ++ [field]

mutual

/-- `json.loads` and `json.dumps` of the agent in the guest. -/
def relay : Document Text F → Document Text F
  | .string text => .string text.join
  | .array items => .array (relayItems items)
  | .object fields => .object ((relayFields fields).foldl put [])
  | other => other

def relayItems : List (Document Text F) → List (Document Text F)
  | [] => []
  | item :: rest => relay item :: relayItems rest

def relayFields : List (Text × Document Text F) → List (Text × Document Text F)
  | [] => []
  | (name, value) :: rest => (name.join, relay value) :: relayFields rest

end

mutual

/-- `json.loads`. -/
def loads : Document String F → PyValue F O
  | .null => .none
  | .bool value => .bool value
  | .int value => .int value
  | .float value => .float value
  | .string text => .string (.utf text)
  | .array items => .list (loadsItems items)
  | .object fields => .dict (loadsFields fields)

def loadsItems : List (Document String F) → List (PyValue F O)
  | [] => []
  | item :: rest => loads item :: loadsItems rest

def loadsFields : List (String × Document String F) → List (Key F O × PyValue F O)
  | [] => []
  | (name, value) :: rest => (.string (.utf name), loads value) :: loadsFields rest

end

/-! Rust. -/

mutual

/-- The document with the strings that `serde_json` reads. Half of a surrogate pair is an error. -/
def unescaped : Document Text F → Option (Document String F)
  | .null => some .null
  | .bool value => some (.bool value)
  | .int value => some (.int value)
  | .float value => some (.float value)
  | .string text => text.read.map .string
  | .array items => (unescapedItems items).map .array
  | .object fields => (unescapedFields fields).map .object

def unescapedItems : List (Document Text F) → Option (List (Document String F))
  | [] => some []
  | item :: rest => (unescaped item).bind (fun first => (unescapedItems rest).map (first :: ·))

def unescapedFields : List (Text × Document Text F) → Option (List (String × Document String F))
  | [] => some []
  | (name, value) :: rest => name.read.bind (fun name =>
      (unescaped value).bind (fun first => (unescapedFields rest).map ((name, first) :: ·)))

end

/-- `BTreeMap::insert`. -/
def store {V : Type} (field : String × V) : List (String × V) → List (String × V)
  | [] => [field]
  | first :: rest =>
    if field.1 < first.1 then field :: first :: rest
    else if field.1 = first.1 then field :: rest
    else first :: store field rest

/-- The object that `serde_json` reads: the last of several fields of one name counts. -/
def arrange {V : Type} (fields : List (String × V)) : List (String × V) :=
  fields.foldl (fun stored field => store field stored) []

variable (O) in
mutual

/-- What `serde_json` makes of a document, with the nesting that is left. -/
def parse (levels : Nat) : Document String F → Option (Document String F)
  | .null => some .null
  | .bool value => some (.bool value)
  | .int value =>
    if -2 ^ 63 ≤ value ∧ value < 2 ^ 64 then some (.int value)
    else (Libraries.readInt O value).map .float
  | .float value => (Libraries.read O value).map .float
  | .string text => some (.string text)
  | .array items =>
    match levels with
    | 0 => none
    | levels + 1 => (parseItems levels items).map .array
  | .object fields =>
    match levels with
    | 0 => none
    | levels + 1 => (parseFields levels fields).map (fun fields => .object (arrange fields))

def parseItems (levels : Nat) : List (Document String F) → Option (List (Document String F))
  | [] => some []
  | item :: rest => (parse levels item).bind (fun first => (parseItems levels rest).map (first :: ·))

def parseFields (levels : Nat) : List (String × Document String F) → Option (List (String × Document String F))
  | [] => some []
  | (name, value) :: rest =>
    (parse levels value).bind (fun first => (parseFields levels rest).map ((name, first) :: ·))

end

/-! The way of a result. -/

section
variable {T : Type} (write : String → T)

/-- What `encode` returns. -/
def answer (name : String) (data : Document T F) : Document T F :=
  .object [(write "encoding", .string (write name)), (write "data", data)]

/-- The response of the executor's `handle` for a value. -/
def response (value : Document T F) (stdout stderr : String) : Document T F :=
  .object [(write "result", .object [(write "value", value),
      (write "stdout", .string (write stdout)), (write "stderr", .string (write stderr))]),
    (write "error", .null), (write "timed_out", .bool false)]

end

/-- `encode` of the executor; none when an exception leaves it. -/
def encode (value : PyValue F O) : Option (Document Text F) :=
  match dumps (Libraries.recursionLimit F O) value with
  | .ok data => some (answer Text.utf "json" data)
  | .error .typeError => (Libraries.pickle value).map (fun text =>
      answer Text.utf "cloudpickle" (.string (.utf text)))
  | .error .other => none

/-- The nesting that `serde_json` allows. -/
def nesting : Nat := 127

/-- What `redact_completion` does to the texts beside the value. -/
def redactTexts (redact : String → String) : Document String F → Document String F
  | .object fields => .object (fields.map (fun field =>
      match field with
      | (name, .string text) =>
        if name = "stdout" ∨ name = "stderr" then (name, .string (redact text)) else field
      | _ => field))
  | other => other

variable (O) in
/-- The value of a completed execution, as `get_execution_result` answers: the node reads the response of
the guest, the controller the completion of the node, the database its column. -/
def carried (redact : String → String) (answer : Document Text F) : Option (Document String F) := do
  let received ← unescaped (relay answer)
  let completion ← parse O nesting received
  let result ← completion.field "result"
  let posted ← parse O nesting (.object [("result", redactTexts redact result), ("error", .null),
    ("timed_out", .bool false)])
  let stored ← posted.field "result"
  let row ← parse O nesting stored
  row.field "value"

/-- `_decode` of the client. -/
def decode (value : Document String F) : Option (PyValue F O) :=
  match value.field "encoding", value.field "data" with
  | some (.string "json"), some data => some (loads data)
  | some (.string "cloudpickle"), some (.string text) => Libraries.unpickle text
  | _, _ => none

/-- What `result` of the client returns when the function returned the value. It raises an exception when the
execution has failed on the way. -/
def received (redact : String → String) (stdout stderr : String) (value : PyValue F O) :
    Option (PyValue F O) :=
  (encode value).bind (fun value =>
    (carried O redact (response Text.utf value stdout stderr)).bind decode)

/-! Values that JSON holds. -/

/-- The names are in order, and there is one field of each. -/
def Ascending {V : Type} (fields : List (String × V)) : Prop :=
  fields.Pairwise (fun one other => one.1 < other.1)

variable (O) in
/-- The float is read as it was written, all three times. -/
def Stable (value : F) : Prop :=
  ((Libraries.read O value).bind (Libraries.read O)).bind (Libraries.read O) = some value

/-- A value of JSON, with at most so much nesting, with the fields of its dictionaries in order. -/
inductive Plain : Nat → PyValue F O → Prop where
  | none {levels : Nat} : Plain levels .none
  | bool {levels : Nat} (value : Bool) : Plain levels (.bool value)
  | int {levels : Nat} (value : Int) (least : -2 ^ 63 ≤ value) (most : value < 2 ^ 64) :
      Plain levels (.int value)
  | float {levels : Nat} (value : F) (stable : Stable O value) : Plain levels (.float value)
  | string {levels : Nat} (text : String) : Plain levels (.string (.utf text))
  | list {levels : Nat} (items : List (PyValue F O)) (inside : ∀ item ∈ items, Plain levels item) :
      Plain (levels + 1) (.list items)
  | dict {levels : Nat} (fields : List (String × PyValue F O)) (ordered : Ascending fields)
      (inside : ∀ field ∈ fields, Plain levels field.2) :
      Plain (levels + 1) (.dict (fields.map (fun field => (.string (.utf field.1), field.2))))

/-! Objects. -/

section
variable {V : Type}

theorem ascending_iff {fields : List (String × V)} :
    Ascending fields ↔ (fields.map Prod.fst).Pairwise (· < ·) :=
  List.pairwise_map.symm

/-- Fields of the same names are in order as well. -/
theorem Ascending.congr {W : Type} {fields : List (String × V)} {others : List (String × W)}
    (ordered : Ascending fields) (same : fields.map Prod.fst = others.map Prod.fst) :
    Ascending others := by
  rw [ascending_iff] at ordered ⊢
  rwa [← same]

end

/-! Lists of values, one by one. -/

variable (O) in
/-- What the node, the controller and the database make of a part of the value. The node and the
controller find it one level deeper than the database. -/
def carry (levels : Nat) (doc : Document String F) : Option (Document String F) :=
  ((parse O levels doc).bind (parse O levels)).bind (parse O (levels + 1))

variable (O) in
/-- What becomes of a part of the value: the agent relays it, and then it is read three times. -/
def arrived (levels : Nat) (doc : Document Text F) : Option (Document String F) :=
  (unescaped (relay doc)).bind (carry O levels)

/-- What `encode` returns, with its fields in order. -/
def ordered (name : String) (data : Document String F) : Document String F :=
  .object [("data", data), ("encoding", .string name)]

/-- The document `result`, with its fields in order. -/
def texts (value : Document String F) (stdout stderr : String) : Document String F :=
  .object [("stderr", .string stderr), ("stdout", .string stdout), ("value", value)]

/-- A completion, with its fields in order. -/
def completed (result : Document String F) : Document String F :=
  .object [("error", .null), ("result", result), ("timed_out", .bool false)]

@[simp] theorem texts_field (value : Document String F) (stdout stderr : String) :
    (texts value stdout stderr).field "value" = some value := by
  simp [texts, Document.field]

end

def table : PyValue (BitVec 64) Unit :=
  .dict [(.string (.utf "a"), .list [.int 1, .float 0x3ff8000000000000]), (.string (.utf "b"), .none)]

/-- The two halves of one character, which is what arrives. -/
def halves : PyValue (BitVec 64) Unit := .string [.high 0x3d, .low 0x200]

end Scraperack.Results
