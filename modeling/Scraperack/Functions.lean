import Scraperack.Packages

/-! The functions that the executor keeps. A client names its function by the digest of the pickle, and
one that belongs to a working directory by a digest of both. The executor keeps what it has loaded
under that key, and calls it again for whatever comes with the key. -/

namespace Scraperack.Functions

/-- What the client submits: the pickle of a function, and the digest of its working directory. -/
structure Submission where
  function : Bytes
  workingDir : Option String

/-- `if working_dir`. -/
def Submission.given (submission : Submission) : Option String :=
  submission.workingDir.filter (fun workingDir => workingDir ≠ "")

/-- The payload `python-function`, as far as the function is concerned. -/
structure Payload where
  hash : String
  function : Option Bytes
  cacheKey : Option String
  workingDir : Option String

/-- What unpickling gave, in the working directory of the execution. -/
structure Loaded where
  function : Bytes
  workingDir : Option String

/-- `FUNCTIONS`. -/
abbrev Kept := String → Option Loaded

inductive Event where
  /-- A request for the submission. The node may leave the function out, and unpickling may raise an
  exception. -/
  | request (submission : Submission) (omitted : Bool) (unpickles : Bool)
  /-- The executor is started again. -/
  | restart

/-- The submissions among the events. -/
def Event.submission : Event → Option Submission
  | .request submission .. => some submission
  | .restart => none

section
variable [Crates]

/-- `_payload`. -/
def payload (submission : Submission) : Payload :=
  { hash := Crates.sha256 submission.function
    function := some submission.function
    cacheKey := submission.given.map (fun workingDir =>
      Crates.sha256 (submission.function ++ System.utf8 workingDir))
    workingDir := submission.given }

/-- What the node makes of the payload in `run_execution`. The directory goes another way, and the function
stays behind when it is taken to be with the executor. -/
def relayed (payload : Payload) (omitted : Bool) : Payload :=
  { payload with
    workingDir := none
    function := if omitted then none else payload.function }

/-- The branch `python-function` of `execute`, up to the call: the function that is called. -/
def execute (kept : Kept) (directory : Option String) (payload : Payload) (unpickles : Bool) :
    Kept × Except String Loaded :=
  let key := payload.cacheKey.getD payload.hash
  match kept key with
  | some loaded => (kept, .ok loaded)
  | none =>
    match payload.function with
    | none => (kept, .error "KeyError: 'function'")
    | some data =>
      if Crates.sha256 data ≠ payload.hash then
        (kept, .error "ValueError: function hash does not match payload")
      else if unpickles then
        let loaded : Loaded := ⟨data, directory⟩
        (Function.update kept key (some loaded), .ok loaded)
      else (kept, .error "UnpicklingError")

/-- The executor is asked for the submission, in its working directory. -/
def request (kept : Kept) (submission : Submission) (omitted unpickles : Bool) :
    Kept × Except String Loaded :=
  let made := payload submission
  execute kept made.workingDir (relayed made omitted) unpickles

def step (kept : Kept) : Event → Kept
  | .request submission omitted unpickles => (request kept submission omitted unpickles).1
  | .restart => fun _ => none

/-- What the executor keeps after the events. -/
def after (events : List Event) : Kept := events.foldl step (fun _ => none)

end

/-! Keys. -/

/-- What is hashed for the key. -/
def Submission.hashed (submission : Submission) : Bytes :=
  submission.function ++ (submission.given.map System.utf8).getD []

/-- A pickle ends with the opcode `STOP`, which is a full stop; a working directory has a digest. -/
structure Submission.Proper (submission : Submission) : Prop where
  stops : submission.function.getLast? = some 46
  valid : ∀ digest ∈ submission.given, validDigest digest = true

theorem digest_length {digest : String} (valid : validDigest digest = true) :
    (System.utf8 digest).length = 64 := by
  rw [validDigest, Bool.and_eq_true, decide_eq_true_eq] at valid
  rw [utf8_length, valid.1]

theorem digest_stopless {digest : String} (valid : validDigest digest = true) :
    (46 : UInt8) ∉ System.utf8 digest := by
  intro member
  rw [validDigest, Bool.and_eq_true, List.all_eq_true] at valid
  have digit := valid.2 '.' (ascii_of_mem_utf8 (by decide) (by decide) member)
  revert digit
  decide

section
variable {one other : Submission}

/-- A pickle is not another one with a digest behind it: it would not end with the opcode. -/
theorem stopped_ne {pickle before : Bytes} {digest : String} (stops : pickle.getLast? = some 46)
    (valid : validDigest digest = true) : pickle ≠ before ++ System.utf8 digest := by
  rintro rfl
  have some : System.utf8 digest ≠ [] := by
    rw [← List.length_pos_iff, digest_length valid]
    decide
  rw [List.getLast?_append_of_ne_nil _ some] at stops
  exact digest_stopless valid (List.mem_of_getLast? stops)

theorem hashed_injective (proper : one.Proper) (proper' : other.Proper)
    (same : one.hashed = other.hashed) : one.function = other.function ∧ one.given = other.given := by
  have valid := proper.valid
  have valid' := proper'.valid
  unfold Submission.hashed at same
  cases given : one.given with
  | none =>
    cases given' : other.given with
    | none =>
      simp only [given, given', Option.map_none, Option.getD_none, List.append_nil] at same
      exact ⟨same, rfl⟩
    | some digest =>
      simp only [given, given', Option.map_none, Option.getD_none, List.append_nil, Option.map_some,
        Option.getD_some] at same
      exact absurd same (stopped_ne proper.stops (valid' digest given'))
  | some digest =>
    cases given' : other.given with
    | none =>
      simp only [given, given', Option.map_none, Option.getD_none, List.append_nil, Option.map_some,
        Option.getD_some] at same
      exact absurd same.symm (stopped_ne proper'.stops (valid digest given))
    | some digest' =>
      simp only [given, given', Option.map_some, Option.getD_some] at same
      have sizes : (System.utf8 digest).length = (System.utf8 digest').length := by
        rw [digest_length (valid digest given), digest_length (valid' digest' given')]
      obtain ⟨functions, texts⟩ := List.append_inj' same sizes
      exact ⟨functions, congrArg some (utf8_injective texts)⟩

end

/-! Runs. -/

def submissions (events : List Event) : List Submission := events.filterMap Event.submission

section
variable [Crates] {events : List Event} {submission : Submission} {omitted unpickles : Bool}

/-- The key is the digest of what is hashed for it, with a working directory and without. -/
theorem key_eq (submission : Submission) (omitted : Bool) :
    (relayed (payload submission) omitted).cacheKey.getD (relayed (payload submission) omitted).hash =
      Crates.sha256 submission.hashed := by
  cases found : submission.given <;> simp [relayed, payload, Submission.hashed, found]

/-- What is kept under a key came with a submission of that key. -/
def Traced (kept : Kept) (known : List Submission) : Prop :=
  ∀ key loaded, kept key = some loaded → ∃ submission ∈ known,
    Crates.sha256 submission.hashed = key ∧ loaded = ⟨submission.function, submission.given⟩

theorem request_kept {kept : Kept} {loaded : Loaded}
    (held : kept (Crates.sha256 submission.hashed) = some loaded) :
    request kept submission omitted unpickles = (kept, .ok loaded) := by
  simp only [request, execute, key_eq, held]

theorem request_missing {kept : Kept}
    (missing : kept (Crates.sha256 submission.hashed) = none) :
    request kept submission false true =
      (Function.update kept (Crates.sha256 submission.hashed)
          (some ⟨submission.function, submission.given⟩),
        .ok ⟨submission.function, submission.given⟩) := by
  simp only [request, execute, key_eq, missing]
  simp [relayed, payload]

/-- A call is of a function that is kept under the key, or has just come with the request. -/
theorem request_cases (kept : Kept) (submission : Submission) (omitted unpickles : Bool) :
    let executed := request kept submission omitted unpickles
    let own : Loaded := ⟨submission.function, submission.given⟩
    (executed.1 = kept ∧ ∀ loaded, executed.2 = .ok loaded →
      kept (Crates.sha256 submission.hashed) = some loaded) ∨
    executed = (Function.update kept (Crates.sha256 submission.hashed) (some own), .ok own) := by
  cases held : kept (Crates.sha256 submission.hashed) with
  | some loaded =>
    rw [request_kept held]
    exact .inl ⟨rfl, fun _ called => congrArg some (Except.ok.inj called)⟩
  | none =>
    cases omitted with
    | true =>
      simp only [request, execute, key_eq, held]
      exact .inl ⟨rfl, fun _ called => by cases called⟩
    | false =>
      cases unpickles with
      | true => exact .inr (request_missing held)
      | false =>
        simp only [request, execute, key_eq, held]
        exact .inl (by simp [relayed, payload])

theorem Traced.step {kept : Kept} {known : List Submission} (traced : Traced kept known)
    (event : Event) : Traced (step kept event) (known ++ event.submission.toList) := by
  intro key loaded there
  cases event with
  | restart => cases there
  | request submission omitted unpickles =>
    have earlier (held : kept key = some loaded) :
        ∃ given ∈ known ++ [submission], Crates.sha256 given.hashed = key ∧
          loaded = ⟨given.function, given.given⟩ := by
      obtain ⟨given, member, same, came⟩ := traced key loaded held
      exact ⟨given, List.mem_append_left _ member, same, came⟩
    rcases request_cases kept submission omitted unpickles with ⟨quiet, -⟩ | stored
    · rw [Functions.step, quiet] at there
      exact earlier there
    · rw [Functions.step, stored] at there
      by_cases here : key = Crates.sha256 submission.hashed
      · simp only [here, Function.update_self, Option.some.injEq] at there
        exact ⟨submission, List.mem_append_right _ List.mem_cons_self, here.symm, there.symm⟩
      · simp only [Function.update_of_ne here] at there
        exact earlier there

theorem after_traced (events : List Event) : Traced (after events) (submissions events) := by
  induction events using List.reverseRecOn with
  | nil => exact fun _ _ there => by cases there
  | append_singleton before event ih =>
    have stepped := ih.step event
    rw [after, List.foldl_append, submissions, List.filterMap_append]
    cases event <;> exact stepped

/-- Functions are not taken for one another. As long as clients submit what `_payload` makes, and what
is hashed for keys does not collide, a request calls the function of its own pickle, loaded in its own
working directory, whether the pickle comes with it or not and whatever was submitted before. -/
theorem functions_not_confused {loaded : Loaded}
    (proper : ∀ known ∈ submission :: submissions events, known.Proper)
    (genuine : ∀ one ∈ submissions events, Crates.sha256 one.hashed = Crates.sha256 submission.hashed →
      one.hashed = submission.hashed)
    (called : (request (after events) submission omitted unpickles).2 = .ok loaded) :
    loaded = ⟨submission.function, submission.given⟩ := by
  rcases request_cases (after events) submission omitted unpickles with ⟨-, found⟩ | stored
  · obtain ⟨earlier, member, same, rfl⟩ := after_traced events _ loaded (found loaded called)
    obtain ⟨functions, directories⟩ := hashed_injective
      (proper earlier (List.mem_cons_of_mem _ member)) (proper submission List.mem_cons_self)
      (genuine earlier member same)
    rw [functions, directories]
  · rw [stored] at called
    cases called
    rfl

end

def script : Submission := ⟨[128, 4, 46], none⟩

/-- The same function, of which a module is in a working directory. -/
def project : Submission :=
  ⟨[128, 4, 46], some "e3b0c44298fc1c149afbf4c8996fb92427ae41e4649b934ca495991b7852b855"⟩

theorem project_given : project.given = project.workingDir := by decide

theorem script_proper : script.Proper := ⟨by decide, fun _ own => by cases own⟩

theorem project_proper : project.Proper := by
  refine ⟨by decide, fun digest own => ?_⟩
  rw [project_given] at own
  obtain rfl := Option.some.inj own
  decide

/-- The demonstration's digest keeps the length. -/
theorem keys_apart :
    Demo.crates.sha256 script.hashed ≠ Demo.crates.sha256 project.hashed := by
  intro same
  have sizes (bytes : Bytes) : (Demo.crates.sha256 bytes).length = bytes.length := by
    change (String.ofList (bytes.map _)).length = bytes.length
    rw [String.length_ofList, List.length_map]
  have digest := digest_length (project_proper.valid _ project_given)
  have script_given : script.given = none := rfl
  have lengths := congrArg String.length same
  rw [sizes, sizes, Submission.hashed, Submission.hashed, script_given, project_given] at lengths
  simp only [script, project, Option.map_none, Option.map_some, Option.getD_none, Option.getD_some,
    List.length_append, List.length_cons, List.length_nil, digest] at lengths
  omega

theorem functions_not_confused_project :
    ∃ loaded, (@request Demo.crates
        (@after Demo.crates [.request script false true, .request project false true])
        project true true).2 = .ok loaded ∧
      loaded = ⟨project.function, project.given⟩ := by
  have called : (@request Demo.crates
      (@after Demo.crates [.request script false true, .request project false true])
      project true true).2 = .ok ⟨project.function, project.given⟩ := by
    have first := @request_missing Demo.crates script (fun _ => none) rfl
    have missing : (@request Demo.crates (fun _ => none) script false true).1
        (Demo.crates.sha256 project.hashed) = none := by
      rw [first]
      simp only [Function.update_of_ne keys_apart.symm]
    have second := @request_missing Demo.crates project _ missing
    exact congrArg Prod.snd (@request_kept Demo.crates project true true _ _
      ((congrFun (congrArg Prod.fst second) _).trans (Function.update_self _ _ _)))
  refine ⟨_, called, @functions_not_confused Demo.crates _ project true true _ ?_ ?_ called⟩
  · intro known member
    simp only [submissions, Event.submission, List.filterMap_cons, List.filterMap_nil, List.mem_cons,
      List.not_mem_nil, or_false] at member
    rcases member with rfl | rfl | rfl
    · exact project_proper
    · exact script_proper
    · exact project_proper
  · intro one member same
    simp only [submissions, Event.submission, List.filterMap_cons, List.filterMap_nil, List.mem_cons,
      List.not_mem_nil, or_false] at member
    rcases member with rfl | rfl
    · exact absurd same keys_apart
    · rfl

end Scraperack.Functions
