import Scraperack.Data
import Scraperack.Interference

/-! The redaction of completions. Before a node reports what became of an execution, it replaces the values
of the execution's secrets in the error and in the two outputs, one value after the other, in the order in
which the hash map gives them out. -/

namespace Scraperack
open Substitution

structure Completion where
  result : Option Value
  error : Option String
  timedOut : Bool
  metrics : Option ExecutionMetrics
  keepIdle : Bool

def redacted : List Char := "[REDACTED]".toList

/-- `str::replace` of a pattern that is not empty. -/
def replace (text secret : String) : String :=
  String.ofList (scan id redacted [secret.toList] text.toList)

/-- `Map::insert` of a JSON object. -/
def insertField (field : String) (value : Value) : List (String × Value) → List (String × Value)
  | [] => [(field, value)]
  | entry :: rest =>
    if entry.1 = field then (field, value) :: rest else entry :: insertField field value rest

def redactField (secret : String) (result : Value) (field : String) : Value :=
  match result, (result.field field).bind Value.asStr with
  | .object fields, some value => .object
      (insertField field (.string (replace value secret)) fields)
  | result, _ => result

def redactSecret (completion : Completion) (secret : String) : Completion :=
  { completion with
    error := completion.error.map (fun error => replace error secret)
    result := completion.result.map (fun result =>
      ["stdout", "stderr"].foldl (redactField secret) result) }

/-- The values of the secrets in the order of one iteration over the map. -/
def redactCompletion (completion : Completion) (order : List String) : Completion :=
  (order.filter (fun value => value ≠ "")).foldl redactSecret completion

/-! The redaction maps every text of the completion by one function. -/

def redactText (secrets : List String) (text : String) : String := secrets.foldl replace text

def Value.mapString (f : String → String) : Value → Value
  | .string value => .string (f value)
  | value => value

def mapFirst (field : String) (f : Value → Value) : List (String × Value) → List (String × Value)
  | [] => []
  | entry :: rest =>
    if entry.1 = field then (field, f entry.2) :: rest else entry :: mapFirst field f rest

def Value.mapField (field : String) (f : String → String) : Value → Value
  | .object fields => .object (mapFirst field (Value.mapString f) fields)
  | value => value

def Value.mapOutputs (f : String → String) (result : Value) : Value :=
  (result.mapField "stdout" f).mapField "stderr" f

def Completion.mapTexts (f : String → String) (completion : Completion) : Completion :=
  { completion with
    error := completion.error.map f
    result := completion.result.map (Value.mapOutputs f) }

theorem Value.mapString_comp (f g : String → String) :
    Value.mapString g ∘ Value.mapString f = Value.mapString (g ∘ f) := by
  funext value
  cases value <;> rfl

theorem Value.mapString_id : Value.mapString id = id := by
  funext value
  cases value <;> rfl

@[simp] theorem Value.asStr_mapString (f : String → String) (value : Value) :
    (value.mapString f).asStr = value.asStr.map f := by
  cases value <;> rfl

theorem mapFirst_id (field : String) (fields : List (String × Value)) :
    mapFirst field id fields = fields := by
  induction fields with
  | nil => rfl
  | cons entry rest ih =>
    by_cases here : entry.1 = field
    · simp [mapFirst, ← here]
    · simp [mapFirst, here, ih]

theorem mapFirst_comp (field : String) (f g : Value → Value) (fields : List (String × Value)) :
    mapFirst field g (mapFirst field f fields) = mapFirst field (g ∘ f) fields := by
  induction fields with
  | nil => rfl
  | cons entry rest ih =>
    by_cases here : entry.1 = field
    · simp [mapFirst, here]
    · simp [mapFirst, here, ih]

theorem mapFirst_comm {field other : String} (differs : field ≠ other) (f g : Value → Value)
    (fields : List (String × Value)) :
    mapFirst field f (mapFirst other g fields) = mapFirst other g (mapFirst field f fields) := by
  induction fields with
  | nil => rfl
  | cons entry rest ih =>
    by_cases here : entry.1 = field
    · simp [mapFirst, here, differs]
    · by_cases there : entry.1 = other
      · simp [mapFirst, there, differs.symm]
      · simp [mapFirst, here, there, ih]

theorem find_mapFirst (field other : String) (f : Value → Value) (fields : List (String × Value)) :
    ((mapFirst field f fields).find? (fun entry => entry.1 = other)).map Prod.snd =
      ((fields.find? (fun entry => entry.1 = other)).map Prod.snd).map
        (if other = field then f else id) := by
  induction fields with
  | nil => rfl
  | cons entry rest ih =>
    by_cases here : entry.1 = field
    · by_cases same : other = field
      · simp [mapFirst, here, same]
      · have differs : field ≠ other := Ne.symm same
        simp [mapFirst, here, same, differs]
    · by_cases there : entry.1 = other
      · have differs : other ≠ field := fun same => here (there.trans same)
        simp [mapFirst, there, differs]
      · simpa [mapFirst, here, there] using ih

theorem names_mapFirst (field : String) (f : Value → Value) (fields : List (String × Value)) :
    (mapFirst field f fields).map Prod.fst = fields.map Prod.fst := by
  induction fields with
  | nil => rfl
  | cons entry rest ih =>
    by_cases here : entry.1 = field
    · simp [mapFirst, here]
    · simp [mapFirst, here, ih]

/-- A field that is no string is not touched. -/
theorem mapFirst_other (field : String) (f : String → String) (fields : List (String × Value))
    (other : ((fields.find? (fun entry => entry.1 = field)).map Prod.snd).bind Value.asStr = none) :
    mapFirst field (Value.mapString f) fields = fields := by
  induction fields with
  | nil => rfl
  | cons entry rest ih =>
    obtain ⟨name, content⟩ := entry
    by_cases here : name = field
    · subst here
      have plain : content.asStr = none := by simpa using other
      have same : content.mapString f = content := by
        cases content with
        | string value => cases plain
        | _ => rfl
      simp [mapFirst, same]
    · have later : ((rest.find? (fun entry => entry.1 = field)).map Prod.snd).bind Value.asStr =
          none := by simpa [here] using other
      simp [mapFirst, here, ih later]

theorem insertField_eq_mapFirst {field value : String} (f : String → String)
    {fields : List (String × Value)}
    (there : (fields.find? (fun entry => entry.1 = field)).map Prod.snd = some (.string value)) :
    insertField field (.string (f value)) fields = mapFirst field (Value.mapString f) fields := by
  induction fields with
  | nil => cases there
  | cons entry rest ih =>
    obtain ⟨name, content⟩ := entry
    by_cases here : name = field
    · have content_eq : content = .string value := by simpa [here] using there
      simp [insertField, mapFirst, here, content_eq, Value.mapString]
    · have later : (rest.find? (fun entry => entry.1 = field)).map Prod.snd =
          some (.string value) := by simpa [here] using there
      simp [insertField, mapFirst, here, ih later]

theorem mapFirst_congr {field : String} {f g : String → String} {fields : List (String × Value)}
    (same : ∀ text, ((fields.find? (fun entry => entry.1 = field)).map Prod.snd).bind Value.asStr =
      some text → f text = g text) :
    mapFirst field (Value.mapString f) fields = mapFirst field (Value.mapString g) fields := by
  induction fields with
  | nil => rfl
  | cons entry rest ih =>
    obtain ⟨name, content⟩ := entry
    by_cases here : name = field
    · have equal : content.mapString f = content.mapString g := by
        cases content with
        | string text => exact congrArg Value.string (same text (by simp [here, Value.asStr]))
        | _ => rfl
      simp [mapFirst, here, equal]
    · have later := ih (fun text found => same text (by simpa [here] using found))
      simp [mapFirst, here, later]

theorem Value.mapField_congr {field : String} {f g : String → String} {result : Value}
    (same : ∀ text, (result.field field).bind Value.asStr = some text → f text = g text) :
    result.mapField field f = result.mapField field g := by
  cases result with
  | object fields => exact congrArg Value.object (mapFirst_congr same)
  | _ => rfl

/-- `redact_completion` takes a field only where it is a string. -/
theorem redactField_eq (secret : String) (result : Value) (field : String) :
    redactField secret result field = result.mapField field
      (fun value => replace value secret) := by
  cases result with
  | object fields =>
    unfold redactField
    cases found : ((Value.object fields).field field).bind Value.asStr with
    | none => exact congrArg Value.object (mapFirst_other field _ fields found).symm
    | some value =>
      obtain ⟨content, here, text⟩ := Option.bind_eq_some_iff.mp found
      cases content with
      | string other =>
        obtain rfl := Option.some.inj text
        exact congrArg Value.object
          (insertField_eq_mapFirst (fun value => replace value secret) here)
      | _ => cases text
  | _ => rfl

theorem Value.mapOutputs_comp (f g : String → String) (result : Value) :
    (result.mapOutputs f).mapOutputs g = result.mapOutputs (g ∘ f) := by
  cases result with
  | object fields =>
    have differs : "stdout" ≠ "stderr" := by decide
    refine congrArg Value.object ?_
    rw [mapFirst_comm differs, mapFirst_comp, mapFirst_comp, Value.mapString_comp,
      mapFirst_comm differs.symm]
  | _ => rfl

theorem redactSecret_eq (completion : Completion) (secret : String) :
    redactSecret completion secret = completion.mapTexts (fun text => replace text secret) := by
  have results : (fun result => ["stdout", "stderr"].foldl (redactField secret) result) =
      Value.mapOutputs (fun text => replace text secret) := by
    funext result
    rw [List.foldl_cons, List.foldl_cons, List.foldl_nil, redactField_eq, redactField_eq]
    rfl
  rw [redactSecret, results]
  rfl

theorem foldl_redactSecret (completion : Completion) (secrets : List String) :
    secrets.foldl redactSecret completion = completion.mapTexts (redactText secrets) := by
  induction secrets generalizing completion with
  | nil =>
    have outputs : Value.mapOutputs (redactText []) = id := by
      funext result
      cases result with
      | object fields =>
        refine congrArg Value.object ?_
        have same : redactText [] = id := rfl
        rw [same, Value.mapString_id, mapFirst_id, mapFirst_id]
      | _ => rfl
    have errors : completion.error.map (redactText []) = completion.error :=
      Option.map_id_fun' ▸ rfl
    rw [List.foldl_nil, Completion.mapTexts, outputs, Option.map_id, errors]
    rfl
  | cons secret rest ih =>
    have texts : redactText (secret :: rest) =
        redactText rest ∘ fun text => replace text secret := rfl
    rw [List.foldl_cons, ih, redactSecret_eq, texts]
    simp only [Completion.mapTexts, Option.map_map]
    congr 2
    funext result
    exact Value.mapOutputs_comp _ _ result

theorem redactCompletion_eq (completion : Completion) (order : List String) :
    redactCompletion completion order =
      completion.mapTexts (redactText (order.filter (fun value => value ≠ ""))) :=
  foldl_redactSecret completion _

inductive Channel where
  | error
  | stdout
  | stderr

/-- The text of the completion that the redaction looks at. -/
def Completion.text (completion : Completion) : Channel → Option String
  | .error => completion.error
  | .stdout => (completion.result.bind (Value.field "stdout")).bind Value.asStr
  | .stderr => (completion.result.bind (Value.field "stderr")).bind Value.asStr

theorem Value.field_mapField (field other : String) (f : String → String) (result : Value) :
    (result.mapField field f).field other =
      (result.field other).map (if other = field then Value.mapString f else id) := by
  cases result with
  | object fields => exact find_mapFirst field other _ fields
  | _ => rfl

theorem Value.field_mapOutputs (f : String → String) (result : Value) (field : String) :
    (result.mapOutputs f).field field = (result.field field).map
      (if field ∈ ["stdout", "stderr"] then Value.mapString f else id) := by
  rw [Value.mapOutputs, Value.field_mapField, Value.field_mapField, Option.map_map]
  by_cases out : field = "stdout"
  · simp [out]
  · simp [out]

theorem Completion.text_mapTexts (completion : Completion) (f : String → String)
    (channel : Channel) :
    (completion.mapTexts f).text channel = (completion.text channel).map f := by
  have output {field : String} (out : field ∈ ["stdout", "stderr"]) :
      ((completion.mapTexts f).result.bind (Value.field field)).bind Value.asStr =
        ((completion.result.bind (Value.field field)).bind Value.asStr).map f := by
    cases there : completion.result with
    | none => simp [Completion.mapTexts, there]
    | some result =>
      have mapped := Value.field_mapOutputs f result field
      rw [if_pos out] at mapped
      simp [Completion.mapTexts, there, mapped, Option.bind_map, Option.map_bind]
  cases channel with
  | error => rfl
  | stdout => exact output List.mem_cons_self
  | stderr => exact output (List.mem_cons_of_mem _ List.mem_cons_self)

/-- Two redactions that do the same to the texts of the channels do the same to the completion. -/
theorem Completion.mapTexts_congr {completion : Completion} {f g : String → String}
    (same : ∀ channel text, completion.text channel = some text → f text = g text) :
    completion.mapTexts f = completion.mapTexts g := by
  have errors : completion.error.map f = completion.error.map g :=
    Option.map_congr fun text there => same .error text there
  have results : completion.result.map (Value.mapOutputs f) =
      completion.result.map (Value.mapOutputs g) := by
    refine Option.map_congr fun result there => ?_
    have first : result.mapField "stdout" f = result.mapField "stdout" g :=
      Value.mapField_congr fun text found => same .stdout text (by rw [Completion.text, there]; exact found)
    rw [Value.mapOutputs, Value.mapOutputs, first]
    refine Value.mapField_congr fun text found => same .stderr text ?_
    rw [Value.field_mapField, if_neg (by decide), Option.map_id] at found
    rw [Completion.text, there]
    exact found
  rw [Completion.mapTexts, Completion.mapTexts, errors, results]

/-! What survives. The same passes run over characters that carry their position in the text; the characters
of a marker carry none. -/

def tagged (text : List Char) : List (Char × Option Nat) :=
  text.zipIdx.map (fun entry => (entry.1, some entry.2))

def taggedMarker : List (Char × Option Nat) := redacted.map (fun letter => (letter, none))

/-- The secrets that are replaced, in the order in which they are. -/
def patterns (order : List String) : List (List Char) :=
  (order.filter (fun value => value ≠ "")).map String.toList

def trace (order : List String) (text : String) : List (Char × Option Nat) :=
  passes Prod.fst taggedMarker (patterns order) (tagged text.toList)

/-- No character of an occurrence of the secret is left. -/
def Hidden (secret text : String) (left : List (Char × Option Nat)) : Prop :=
  ∀ front back, text.toList = front ++ (secret.toList ++ back) →
    ∀ letter i, (letter, some i) ∈ left →
    ¬ (front.length ≤ i ∧ i < front.length + secret.toList.length)

/-- The names of the fields, if the value is an object. -/
def Value.names : Value → Option (List String)
  | .object fields => some (fields.map Prod.fst)
  | _ => none

/-- All that is no text of a channel stays. -/
structure Unchanged (before after : Completion) : Prop where
  timedOut : after.timedOut = before.timedOut
  metrics : after.metrics = before.metrics
  keepIdle : after.keepIdle = before.keepIdle
  names : after.result.map Value.names = before.result.map Value.names
  plain : ∀ result, before.result = some result → result.names = none → after.result = some result
  others : ∀ field, field ∉ ["stdout", "stderr"] →
    after.result.bind (Value.field field) = before.result.bind (Value.field field)
  noText : ∀ field value, before.result.bind (Value.field field) = some value → value.asStr = none →
    after.result.bind (Value.field field) = some value

/-- The redaction of the completion, in every order in which the map can give out the secrets. -/
structure Redacts (completion : Completion) (secrets : Keyed.Table String String) : Prop where
  shown : ∀ order, order.Perm (secrets.values.map Prod.snd) → ∀ channel,
    (redactCompletion completion order).text channel = (completion.text channel).map
      (fun text => String.ofList ((trace order text).map Prod.fst))
  hidden : ∀ order, order.Perm (secrets.values.map Prod.snd) → ∀ channel text,
    completion.text channel = some text → ∀ secret ∈ order, secret ≠ "" →
      Hidden secret text (trace order text)
  same : ∀ order other : List String, order.Perm (secrets.values.map Prod.snd) →
    other.Perm (secrets.values.map Prod.snd) →
      redactCompletion completion order = redactCompletion completion other
  unchanged : ∀ order, order.Perm (secrets.values.map Prod.snd) →
    Unchanged completion (redactCompletion completion order)

theorem redactText_toList (secrets : List String) (text : String) :
    (redactText secrets text).toList =
      passes id redacted (secrets.map String.toList) text.toList := by
  induction secrets generalizing text with
  | nil => rfl
  | cons secret rest ih =>
    have first : (replace text secret).toList = scan id redacted [secret.toList] text.toList :=
      String.toList_ofList
    rw [redactText, List.foldl_cons, ← redactText, ih, first]
    rfl

@[simp] theorem map_tagged (text : List Char) : (tagged text).map Prod.fst = text := by
  rw [tagged, List.map_map]
  exact List.zipIdx_map_fst 0 text

@[simp] theorem map_taggedMarker : taggedMarker.map Prod.fst = redacted := by
  rw [taggedMarker, List.map_map]
  exact List.map_id redacted

/-- The characters of the trace are the redacted text. -/
theorem trace_text (order : List String) (text : String) :
    String.ofList ((trace order text).map Prod.fst) =
      redactText (order.filter (fun value => value ≠ "")) text := by
  have same (entry : Char × Option Nat) : id entry.1 = entry.1 := rfl
  have letters : (passes Prod.fst taggedMarker (patterns order) (tagged text.toList)).map Prod.fst =
      passes id (taggedMarker.map Prod.fst) (patterns order) ((tagged text.toList).map Prod.fst) :=
    map_passes Prod.fst same _ _
  rw [map_tagged, map_taggedMarker] at letters
  rw [trace, letters, patterns, ← redactText_toList, String.ofList_toList]

theorem mem_take_tagged {text : List Char} {n i : Nat} {letter : Char}
    (member : (letter, some i) ∈ (tagged text).take n) : i < n := by
  obtain ⟨k, bound, found⟩ := List.mem_take_iff_getElem.mp member
  simp [tagged] at found
  omega

theorem mem_drop_tagged {text : List Char} {n i : Nat} {letter : Char}
    (member : (letter, some i) ∈ (tagged text).drop n) : n ≤ i ∧ i < text.length := by
  obtain ⟨k, bound, found⟩ := List.mem_drop_iff_getElem.mp member
  simp [tagged] at found bound
  omega

theorem shown_all (completion : Completion) (order : List String) (channel : Channel) :
    (redactCompletion completion order).text channel = (completion.text channel).map
      (fun text => String.ofList ((trace order text).map Prod.fst)) := by
  rw [redactCompletion_eq, Completion.text_mapTexts]
  congr 1
  funext text
  exact (trace_text order text).symm

theorem Value.names_mapOutputs (f : String → String) (result : Value) :
    (result.mapOutputs f).names = result.names ∧
      (result.names = none → result.mapOutputs f = result) := by
  cases result with
  | object fields =>
    refine ⟨congrArg some ?_, fun other => nomatch other⟩
    rw [names_mapFirst, names_mapFirst]
  | _ => exact ⟨rfl, fun _ => rfl⟩

theorem unchanged_all (completion : Completion) (order : List String) :
    Unchanged completion (redactCompletion completion order) := by
  rw [redactCompletion_eq]
  generalize redactText (order.filter (fun value => value ≠ "")) = f
  have field (name : String) : (completion.mapTexts f).result.bind (Value.field name) =
      (completion.result.bind (Value.field name)).map
        (if name ∈ ["stdout", "stderr"] then Value.mapString f else id) := by
    cases there : completion.result with
    | none => simp [Completion.mapTexts, there]
    | some result => simpa [Completion.mapTexts, there] using Value.field_mapOutputs f result name
  refine ⟨rfl, rfl, rfl, ?_, ?_, ?_, ?_⟩
  · cases there : completion.result with
    | none => simp [Completion.mapTexts, there]
    | some result => simp [Completion.mapTexts, there, (Value.names_mapOutputs f result).1]
  · intro result there plain
    simp [Completion.mapTexts, there, (Value.names_mapOutputs f result).2 plain]
  · intro name other
    rw [field, if_neg other, Option.map_id]
    rfl
  · intro name value there no_text
    have same : value.mapString f = value := by
      cases value with
      | string text => cases no_text
      | _ => rfl
    rw [field, there]
    split_ifs
    · exact congrArg some same
    · rfl

theorem patterns_perm {order other : List String} (perm : order.Perm other) :
    (patterns order).Perm (patterns other) :=
  (perm.filter _).map _

theorem patterns_nonempty (order : List String) : ∀ w ∈ patterns order, w ≠ [] := by
  intro w member
  obtain ⟨secret, listed, rfl⟩ := List.mem_map.mp member
  have some_secret : secret ≠ "" := by simpa using (List.mem_filter.mp listed).2
  intro empty
  exact some_secret (String.toList_injective (by rw [empty]; rfl))

theorem mem_patterns {order : List String} {secret : String} (member : secret ∈ order)
    (some_secret : secret ≠ "") : secret.toList ∈ patterns order :=
  List.mem_map_of_mem (List.mem_filter.mpr ⟨member, by simpa using some_secret⟩)

theorem some_redacted : redacted ≠ [] := by decide

/-- The values of the secrets do not meet one another, and they meet the marker only where there is no second
value whose marker it could be. -/
structure Separate (secrets : Keyed.Table String String) : Prop where
  solid : Solid (patterns (secrets.values.map Prod.snd))
  marked : (∀ w ∈ patterns (secrets.values.map Prod.snd), Neutral redacted w) ∨
    ∃ v, ∀ w ∈ patterns (secrets.values.map Prod.snd), w = v

/-- In the text the values stand apart from one another. Where one occurs, none meets the marker, unless there is
no second value. -/
structure SeparateIn (secrets : Keyed.Table String String) (text : String) : Prop where
  spaced : Spaced (patterns (secrets.values.map Prod.snd)) text.toList
  marked : (∃ w ∈ patterns (secrets.values.map Prod.snd), w <:+: text.toList) →
    (∀ w ∈ patterns (secrets.values.map Prod.snd), Neutral redacted w) ∨
      ∃ v, ∀ w ∈ patterns (secrets.values.map Prod.snd), w = v

theorem Separate.separateIn {secrets : Keyed.Table String String} (separate : Separate secrets)
    (text : String) : SeparateIn secrets text :=
  ⟨separate.solid.spaced _, fun _ => separate.marked⟩

section Sufficient
variable {secrets : Keyed.Table String String} {text : String}
  (separate : SeparateIn secrets text)
include separate

theorem SeparateIn.hidden {order : List String} (perm : order.Perm (secrets.values.map Prod.snd))
    {secret : String} (member : secret ∈ order) (some_secret : secret ≠ "") :
    Hidden secret text (trace order text) := by
  intro front back split letter i left inside
  have listed := mem_patterns member some_secret
  have among (w : List Char) : w ∈ patterns order → w ∈ patterns (secrets.values.map Prod.snd) :=
    (patterns_perm perm).mem_iff.mp
  -- The occurrence with its positions, and what stands before and behind it.
  obtain ⟨before, word, behind, cut, letters, starts, ends⟩ : ∃ before word behind,
      tagged text.toList = before ++ (word ++ behind) ∧ word.map Prod.fst = secret.toList ∧
        (tagged text.toList).take front.length = before ∧
          (tagged text.toList).drop (front.length + secret.toList.length) = behind := by
    refine ⟨_, ((tagged text.toList).drop front.length).take secret.toList.length, _, ?_, ?_, rfl, rfl⟩
    · rw [← List.drop_drop, List.take_append_drop, List.take_append_drop]
    · rw [List.map_take, List.map_drop, map_tagged, split, List.drop_left, List.take_left]
  have outside : ¬ ((letter, some i) ∈ taggedMarker ∨ (letter, some i) ∈ before ∨
      (letter, some i) ∈ behind) := by
    rintro (marker | here | here)
    · obtain ⟨_, -, other⟩ := List.mem_map.mp marker
      cases other
    · exact absurd (mem_take_tagged (starts ▸ here)) (by omega)
    · exact absurd (mem_drop_tagged (ends ▸ here)).1 (by omega)
  have replaced {a b : List (Char × Option Nat)}
      (here : (letter, some i) ∈ a ++ (taggedMarker ++ b))
      (first : (letter, some i) ∈ a → (letter, some i) ∈ taggedMarker ∨ (letter, some i) ∈ before)
      (second : (letter, some i) ∈ b → (letter, some i) ∈ taggedMarker ∨ (letter, some i) ∈ behind) :
      False := by
    rcases List.mem_append.mp here with here | here
    · exact outside ((first here).imp_right .inl)
    · rcases List.mem_append.mp here with marker | here
      · exact outside (.inl marker)
      · exact outside ((second here).imp_right .inr)
  have spaced : Spaced (patterns order) ((before ++ (word ++ behind)).map Prod.fst) := by
    rw [← cut, map_tagged]
    exact separate.spaced.mono among
  rw [trace, cut] at left
  rcases separate.marked ⟨_, among _ listed, ⟨front, back, by rw [split, List.append_assoc]⟩⟩ with
    neutral | ⟨v, same⟩
  · have marks : ∀ w ∈ patterns order, Neutral (taggedMarker.map Prod.fst) w := by
      rw [map_taggedMarker]
      exact fun w member => neutral w (among w member)
    rw [passes_spaced (patterns_nonempty order) marks (by decide) (letters ▸ listed) spaced] at left
    exact replaced left mem_passes mem_passes
  · obtain ⟨first, rest, start⟩ := List.exists_cons_of_ne_nil (List.ne_nil_of_mem listed)
    have first_listed : first ∈ patterns order := start ▸ List.mem_cons_self
    have single : first = word.map Prod.fst :=
      (same _ (among _ first_listed)).trans (letters ▸ same _ (among _ listed)).symm
    have some_word : word ≠ [] := by
      have some_letters := patterns_nonempty order _ listed
      rw [← letters] at some_letters
      simpa using some_letters
    -- The passes after the first one only see what it left.
    rw [start, passes, List.foldl_cons, ← passes, single, scan_spaced some_word
      (spaced.mono (fun w there => by
        rwa [List.mem_singleton.mp there, letters]))] at left
    rcases mem_passes left with marker | here
    · exact outside (.inl marker)
    · exact replaced here mem_scan mem_scan

theorem SeparateIn.same {order other : List String}
    (perm : order.Perm (secrets.values.map Prod.snd))
    (perm' : other.Perm (secrets.values.map Prod.snd)) :
    redactText (order.filter (fun value => value ≠ "")) text =
      redactText (other.filter (fun value => value ≠ "")) text := by
  have between := patterns_perm (perm.trans perm'.symm)
  have among (w : List Char) : w ∈ patterns order → w ∈ patterns (secrets.values.map Prod.snd) :=
    (patterns_perm perm).mem_iff.mp
  apply String.toList_injective
  rw [redactText_toList, redactText_toList, ← patterns, ← patterns]
  by_cases there : ∃ w ∈ patterns order, w <:+: text.toList
  · obtain ⟨w, listed, inside⟩ := there
    rcases separate.marked ⟨w, among w listed, inside⟩ with neutral | ⟨v, same⟩
    · refine passes_congr (patterns_nonempty order) ?_ some_redacted (fun w => between.mem_iff) ?_
      · rw [List.map_id]
        exact fun w member => neutral w (among w member)
      · rw [List.map_id]
        exact separate.spaced.mono among
    · have repeated := List.eq_replicate_of_mem fun w member => same w (among w member)
      rw [repeated] at between ⊢
      rw [List.replicate_perm.mp between]
  · push Not at there
    have absent {words : List String} (sub : ∀ w ∈ patterns words, w ∈ patterns order) :
        passes id redacted (patterns words) text.toList = text.toList :=
      passes_absent fun w member => by
        rw [List.map_id]
        exact there w (sub w member)
    rw [absent (fun _ => id), absent (fun w => between.mem_iff.mpr)]

end Sufficient

/-- The map may give out its values in any order. -/
theorem exists_order {values : List String} {words : List (List Char)}
    (perm : words.Perm (patterns values)) :
    ∃ order : List String, order.Perm values ∧ patterns order = words := by
  obtain ⟨kept, among, rfl⟩ := Keyed.exists_of_perm_map perm
  refine ⟨kept ++ values.filter (fun value => !decide (value ≠ "")), ?_, ?_⟩
  · exact (among.append_right _).trans (List.filter_append_perm _ values)
  · have some_kept : kept.filter (fun value => value ≠ "") = kept :=
      List.filter_eq_self.mpr (fun value member => (List.mem_filter.mp (among.mem_iff.mp member)).2)
    have none_left : (values.filter (fun value => !decide (value ≠ ""))).filter
        (fun value => value ≠ "") = [] := by simp
    rw [patterns, List.filter_append, some_kept, none_left, List.append_nil]

/-- Every value can be the first one that the map gives out. -/
theorem exists_first {values : List String} {w : List Char} (member : w ∈ patterns values) :
    ∃ order rest, order.Perm values ∧ patterns order = w :: rest ∧
      ∀ v ∈ w :: rest, v ∈ patterns values := by
  have front := (List.perm_cons_erase member).symm
  obtain ⟨order, perm, starts⟩ := exists_order front
  exact ⟨order, _, perm, starts, fun v there => front.mem_iff.mp there⟩

theorem bracketed_redacted : Bracketed redacted := by
  have parts : ∀ n < 10, 0 < n → (redacted.drop n).head? ≠ redacted.head? ∧
      (redacted.take n).getLast? ≠ redacted.getLast? := by decide
  have length : redacted.length = 10 := rfl
  refine ⟨some_redacted, fun x c split some_x => ?_, fun c z split some_z => ?_⟩
  · have positive := List.length_pos_iff.mpr some_x
    have cut : c = redacted.drop x.length := by rw [split, List.drop_left]
    by_cases short : x.length < 10
    · exact cut ▸ (parts x.length short positive).1
    · have none_left : c = [] := by
        rw [cut]
        exact List.drop_eq_nil_iff.mpr (by omega)
      rw [none_left]
      exact nofun
  · have positive := List.length_pos_iff.mpr some_z
    have lengths := congrArg List.length split
    rw [length, List.length_append] at lengths
    have cut : c = redacted.take c.length := by rw [split, List.take_left]
    by_cases some_c : c = []
    · rw [some_c]
      exact nofun
    · have start := List.length_pos_iff.mpr some_c
      rw [cut]
      exact (parts c.length (by omega) start).2

/-- A completion whose only text is its error. -/
def failure (error : String) : Completion := ⟨none, some error, false, none, false⟩

section Necessary
variable {secrets : Keyed.Table String String}
  (redacts : ∀ completion, Redacts completion secrets)
include redacts

/-- All orders of the values do the same to every text. -/
theorem Redacts.passes_same {words more : List (List Char)}
    (perm : words.Perm (patterns (secrets.values.map Prod.snd)))
    (perm' : more.Perm (patterns (secrets.values.map Prod.snd))) (text : List Char) :
    passes id redacted words text = passes id redacted more text := by
  obtain ⟨order, given, rfl⟩ := exists_order perm
  obtain ⟨other, given', rfl⟩ := exists_order perm'
  have same := (redacts (failure (String.ofList text))).same order other given given'
  rw [redactCompletion_eq, redactCompletion_eq] at same
  have texts := congrArg String.toList (Option.some.inj (congrArg Completion.error same))
  rwa [redactText_toList, redactText_toList, String.toList_ofList] at texts

/-- Two values that do not meet one another do not meet the marker either. -/
theorem Redacts.marked (solid : Solid (patterns (secrets.values.map Prod.snd))) :
    (∀ w ∈ patterns (secrets.values.map Prod.snd), Neutral redacted w) ∨
      ∃ v, ∀ w ∈ patterns (secrets.values.map Prod.snd), w = v := by
  refine or_iff_not_imp_right.mpr fun several w second => ?_
  obtain ⟨v, first, different⟩ : ∃ v ∈ patterns (secrets.values.map Prod.snd), v ≠ w := by
    by_contra single
    push Not at single
    exact several ⟨w, single⟩
  exact neutral_of_same solid (fun _ _ perm perm' => Redacts.passes_same redacts perm perm')
    bracketed_redacted first second (Ne.symm different)

section
variable (neutral : ∀ w ∈ patterns (secrets.values.map Prod.snd), Neutral redacted w)
include neutral

/-- Of two values one of which occurs in the other, the one that comes first decides what is left. -/
theorem Redacts.apart {u w : List Char} (first : u ∈ patterns (secrets.values.map Prod.snd))
    (second : w ∈ patterns (secrets.values.map Prod.snd)) (inside : u <:+: w) : u = w := by
  by_contra different
  have known : ∀ v ∈ u :: w :: ((patterns (secrets.values.map Prod.snd)).erase w ++
      (patterns (secrets.values.map Prod.snd)).erase u),
      v ∈ patterns (secrets.values.map Prod.snd) := by
    intro v member
    rcases List.mem_cons.mp member with rfl | member
    · exact first
    · rcases List.mem_cons.mp member with rfl | member
      · exact second
      · rcases List.mem_append.mp member with member | member <;> exact List.mem_of_mem_erase member
  refine passes_contained (fun v member => patterns_nonempty _ v (known v member)) ?_
    some_redacted inside different (List.map_id w)
    (Redacts.passes_same redacts (List.perm_cons_erase second).symm
      (List.perm_cons_erase first).symm w)
  rw [List.map_id]
  exact fun v member => neutral v (known v member)

/-- Of two values that overlap, the second one is not found once the first one is replaced. -/
theorem Redacts.free {u w : List Char} (first : u ∈ patterns (secrets.values.map Prod.snd))
    (second : w ∈ patterns (secrets.values.map Prod.snd)) : ¬ Overlap u w := by
  rintro ⟨x, c, z, -, some_c, some_z, rfl, rfl⟩
  obtain ⟨order, rest, perm, starts, listed⟩ := exists_first first
  have short := List.length_pos_iff.mpr some_c
  have known := patterns_nonempty (secrets.values.map Prod.snd)
  -- No value occurs in what stands behind the first one.
  have absent : ∀ v ∈ (x ++ c) :: rest, ¬ v <:+: z := by
    intro v member inside
    have part := inside.trans (List.suffix_append c z).isInfix
    have same := Redacts.apart redacts neutral (listed v member) second part
    have bound := inside.length_le
    rw [same, List.length_append] at bound
    omega
  have text : (String.ofList (x ++ c ++ z)).toList = x ++ c ++ z := String.toList_ofList
  have left : trace order (String.ofList (x ++ c ++ z)) =
      taggedMarker ++ (tagged (x ++ c ++ z)).drop (x ++ c).length := by
    have cut := (List.take_append_drop (x ++ c).length (tagged (x ++ c ++ z))).symm
    rw [trace, text, starts]
    conv_lhs => rw [cut]
    refine passes_overlap (fun v member => known v (listed v member)) ?_ (by decide) absent ?_ ?_
    · rw [map_taggedMarker]
      exact fun v member => neutral v (listed v member)
    · rw [List.map_take, map_tagged, List.take_left]
    · rw [List.map_drop, map_tagged, List.drop_left]
  obtain ⟨secret, there, letters⟩ := List.mem_map.mp second
  have some_secret : secret ≠ "" := by simpa using (List.mem_filter.mp there).2
  have hidden := (redacts (failure (String.ofList (x ++ c ++ z)))).hidden order perm .error _ rfl
    secret (perm.mem_iff.mpr (List.mem_of_mem_filter there)) some_secret
  obtain ⟨letter, more, rfl⟩ := List.exists_cons_of_ne_nil some_z
  refine hidden x [] (by rw [text, letters]; simp) letter (x ++ c).length ?_ ?_
  · rw [left]
    have there : (x ++ c).length < (tagged (x ++ c ++ letter :: more)).length := by
      simp only [tagged, List.length_map, List.length_zipIdx, List.length_append, List.length_cons]
      omega
    rw [List.drop_eq_getElem_cons there]
    refine List.mem_append_right _ (List.mem_cons.mpr (.inl ?_))
    simp [tagged]
  · rw [letters]
    simp only [List.length_append, List.length_cons]
    omega

theorem Redacts.solid : Solid (patterns (secrets.values.map Prod.snd)) :=
  ⟨patterns_nonempty _, fun _ first _ second => Redacts.apart redacts neutral first second,
    fun _ first _ second => Redacts.free redacts neutral first second⟩

end

end Necessary

/-- The redaction is right for a completion in whose texts the values are separate, and so for all of them where the
map keeps its values separate. Of values that do not meet the marker and of values that do not meet one another, it is
right for all completions for these only. -/
theorem redaction_hides (secrets : Keyed.Table String String) :
    (∀ completion : Completion,
      (∀ channel text, completion.text channel = some text → SeparateIn secrets text) →
        Redacts completion secrets) ∧
    (Separate secrets → ∀ completion, Redacts completion secrets) ∧
      (Solid (patterns (secrets.values.map Prod.snd)) ∨
        (∀ w ∈ patterns (secrets.values.map Prod.snd), Neutral redacted w) →
          ((∀ completion, Redacts completion secrets) ↔ Separate secrets)) := by
  have enough (completion : Completion)
      (separate : ∀ channel text, completion.text channel = some text → SeparateIn secrets text) :
      Redacts completion secrets := by
    refine ⟨fun order _ => shown_all completion order,
      fun order perm channel text there _ member some_secret =>
        (separate channel text there).hidden perm member some_secret,
      fun order other perm perm' => ?_, fun order _ => unchanged_all completion order⟩
    rw [redactCompletion_eq, redactCompletion_eq]
    exact Completion.mapTexts_congr fun channel text there =>
      (separate channel text there).same perm perm'
  have always (separate : Separate secrets) (completion : Completion) :
      Redacts completion secrets :=
    enough completion fun _ text _ => separate.separateIn text
  refine ⟨enough, always, fun either => ⟨fun redacts => ?_, always⟩⟩
  rcases either with solid | neutral
  · exact ⟨solid, Redacts.marked redacts solid⟩
  · exact ⟨Redacts.solid redacts neutral, .inl neutral⟩

/-- Two secrets of which the first ends as the second begins. -/
def overlapping : Keyed.Table String String := ⟨[("FIRST", "ab"), ("SECOND", "bc")], by decide⟩

/-- Where both stand in one place of the error, a character of the second one is left. -/
theorem overlapping_secret_shown : ¬ ∀ completion secrets, Redacts completion secrets := by
  intro redacts
  have hidden := (redacts (failure "abc") overlapping).hidden ["ab", "bc"] (List.Perm.refl _)
    .error "abc" rfl "bc" (by decide) (by decide)
  exact hidden ['a'] [] rfl 'c' 2 (by decide) (by decide)

example : redactCompletion (failure "abc") ["ab", "bc"] = failure "[REDACTED]c" := rfl

end Scraperack
