import Scraperack.WorkingDirs
import Scraperack.Runs

/-! The working directories that the controller stores. Clients upload archives side by side, each
under the digest of its bytes, and nodes download them. A handler may fail or be dropped at any point,
and the process may end. -/

namespace Scraperack.Uploads

/-- A handler of a request, with the digest in its path. -/
inductive Handler where
  /-- `upload_working_dir`, before it looks for the file. -/
  | looking (digest : String) (body : Bytes)
  | hashing (digest : String) (body : Bytes)
  /-- `fs::write`, and what it has yet to write. -/
  | writing (digest : String) (inode : Nat) (rest : Bytes)
  | publishing (digest : String) (inode : Nat)
  /-- It has answered `CREATED` or `NO_CONTENT`. -/
  | uploaded (digest : String) (created : Bool)
  /-- `working_dir_exists` has answered `NO_CONTENT`. -/
  | present (digest : String)
  /-- `download_working_dir_for_node`, and what it has streamed. -/
  | streaming (digest : String) (inode : Nat) (received : Bytes)
  | downloaded (digest : String) (received : Bytes)
  | refused (error : ApiError)

/-- The file that the handler still writes. -/
def Handler.writes : Handler → Option Nat
  | writing _ inode _ => some inode
  | _ => none

/-- The file that the handler has open, or is about to name. -/
def Handler.holds : Handler → Option Nat
  | writing _ inode _ | publishing _ inode | streaming _ inode _ => some inode
  | _ => none

/-- An answer that tells a client that the archive is there: `_upload_working_dir` returns. -/
def Handler.confirms : Handler → Option String
  | uploaded digest _ | present digest => some digest
  | _ => none

/-- The directory `working-dirs`. `Uuid::new_v4` gives no name twice, so that a temporary file is known
by its inode alone. -/
structure Store where
  content : Nat → Bytes
  /-- The number of files there ever were. -/
  count : Nat
  /-- The files that have the name of a digest. -/
  file : String → Option Nat
  handler : Nat → Option Handler

inductive Label where
  | put (n : Nat) (digest : String) (body : Bytes)
  | head (n : Nat) (digest : String)
  | get (n : Nat) (digest : String)
  | look (n : Nat)
  /-- The hash is compared, and the temporary file created. -/
  | create (n : Nat)
  /-- So many bytes and one more, or all that are left. -/
  | write (n : Nat) (bytes : Nat)
  | rename (n : Nat)
  | read (n : Nat) (bytes : Nat)
  /-- An operation fails, or the client has gone. -/
  | fail (n : Nat)
  /-- The process ends, and the next one begins. -/
  | restart

namespace Store

def empty : Store := ⟨fun _ => [], 0, fun _ => none, fun _ => none⟩

def become (s : Store) (n : Nat) (handler : Handler) : Store :=
  { s with handler := Function.update s.handler n (some handler) }

/-- `working_dir_path`, which every handler calls first. -/
def enter (s : Store) (n : Nat) (digest : String) (handler : Handler) : Option Store :=
  match s.handler n with
  | none =>
    if validDigest digest = true then some (s.become n handler)
    else some (s.become n (.refused ⟨.badRequest, "invalid working directory hash"⟩))
  | some _ => none

def step [Crates] (s : Store) : Label → Option Store
  | .put n digest body => s.enter n digest (.looking digest body)
  | .head n digest =>
    s.enter n digest (if (s.file digest).isSome then .present digest
      else .refused ⟨.notFound, "working directory not found"⟩)
  | .get n digest =>
    s.enter n digest (match s.file digest with
      | some inode => .streaming digest inode []
      | none => .refused ⟨.notFound, "working directory not found"⟩)
  | .look n =>
    match s.handler n with
    | some (.looking digest body) =>
      some (s.become n (if (s.file digest).isSome then .uploaded digest false
        else .hashing digest body))
    | _ => none
  | .create n =>
    match s.handler n with
    | some (.hashing digest body) =>
      if Crates.sha256 body ≠ digest then
        some (s.become n
          (.refused ⟨.badRequest, "working directory hash does not match content"⟩))
      else
        some { s.become n (.writing digest s.count body) with
          content := Function.update s.content s.count []
          count := s.count + 1 }
    | _ => none
  | .write n bytes =>
    match s.handler n with
    | some (.writing digest inode rest) =>
      match rest with
      | [] => some (s.become n (.publishing digest inode))
      | _ :: _ =>
        some { s.become n (.writing digest inode (rest.drop (bytes + 1))) with
          content := Function.update s.content inode
            (s.content inode ++ rest.take (bytes + 1)) }
    | _ => none
  | .rename n =>
    match s.handler n with
    | some (.publishing digest inode) =>
      some { s.become n (.uploaded digest true) with
        file := Function.update s.file digest (some inode) }
    | _ => none
  | .read n bytes =>
    match s.handler n with
    | some (.streaming digest inode received) =>
      match (s.content inode).drop received.length with
      | [] => some (s.become n (.downloaded digest received))
      | byte :: rest =>
        some (s.become n (.streaming digest inode (received ++ (byte :: rest).take (bytes + 1))))
    | _ => none
  | .fail n =>
    match s.handler n with
    | some _ => some { s with handler := Function.update s.handler n none }
    | none => none
  | .restart => some { s with handler := fun _ => none }

end Store

theorem holds_of_writes {handler : Handler} {inode : Nat} (writes : handler.writes = some inode) :
    handler.holds = some inode := by
  cases handler <;> first | cases writes; rfl | cases writes

theorem update_cases {handlers : Nat → Option Handler} {next : Option Handler} {m : Nat}
    {handler : Handler} (there : Function.update handlers n next m = some handler) :
    (m = n ∧ next = some handler) ∨ (m ≠ n ∧ handlers m = some handler) := by
  by_cases same : m = n
  · subst same
    exact .inl ⟨rfl, by rwa [Function.update_self] at there⟩
  · exact .inr ⟨same, by rwa [Function.update_of_ne same] at there⟩

theorem isSome_update {files : String → Option Nat} {digest name : String} {inode : Nat}
    (found : (files name).isSome) : (Function.update files digest (some inode) name).isSome := by
  by_cases same : name = digest
  · rw [same, Function.update_self]
    rfl
  · rwa [Function.update_of_ne same]

theorem enter_cases {s t : Store} {n : Nat} {digest : String} {handler : Handler}
    (entered : s.enter n digest handler = some t) :
    (validDigest digest = true ∧ t = s.become n handler) ∨
      ∃ error, t = s.become n (.refused error) := by
  unfold Store.enter at entered
  split at entered
  · split at entered
    · exact .inl ⟨‹_›, (Option.some.inj entered).symm⟩
    · exact .inr ⟨_, (Option.some.inj entered).symm⟩
  · cases entered

theorem checkWorkingDir_ok {uploaded : Finset String} {payload : Value} {digest : String}
    (named : payload.field "working_dir" = some (.string digest)) (valid : validDigest digest = true)
    (member : digest ∈ uploaded) : checkWorkingDir uploaded payload = .ok () := by
  simp [checkWorkingDir, named, found, Value.asStr, require, valid, member, bind, Except.bind]

/-! What is stored is what was asked for. `good` says of bytes what an upload has ascertained of them,
and perhaps more than the digest. -/

section
variable [Crates] {good : String → Bytes → Prop} {s t u : Store} {n : Nat}

/-- What holds of a handler, whatever the others do. -/
def Fits (good : String → Bytes → Prop) (s : Store) : Handler → Prop
  | .looking digest body | .hashing digest body =>
    validDigest digest = true ∧ (Crates.sha256 body = digest → good digest body)
  | .writing digest inode rest =>
    validDigest digest = true ∧ inode < s.count ∧ good digest (s.content inode ++ rest)
  | .publishing digest inode =>
    validDigest digest = true ∧ inode < s.count ∧ good digest (s.content inode)
  | .uploaded digest _ | .present digest => (s.file digest).isSome
  | .streaming digest inode received =>
    inode < s.count ∧ good digest (s.content inode) ∧ received <+: s.content inode
  | .downloaded digest received => good digest received
  | .refused _ => True

structure Sound (good : String → Bytes → Prop) (s : Store) : Prop where
  files : ∀ digest inode, s.file digest = some inode →
    validDigest digest = true ∧ inode < s.count ∧ good digest (s.content inode)
  handlers : ∀ n handler, s.handler n = some handler → Fits good s handler
  /-- No file is written any more once it has its name. -/
  named : ∀ digest inode n handler, s.file digest = some inode → s.handler n = some handler →
    handler.writes ≠ some inode
  apart : ∀ n m one other inode, s.handler n = some one → s.handler m = some other →
    one.writes = some inode → other.holds = some inode → n = m

/-- The bodies of uploads are good when they have the digest. -/
def Told (good : String → Bytes → Prop) (_ : Store) (label : Label) : Prop :=
  ∀ n digest body, label = .put n digest body → Crates.sha256 body = digest → good digest body

theorem Fits.bound {handler : Handler} {inode : Nat} (fits : Fits good s handler)
    (holds : handler.holds = some inode) : inode < s.count := by
  cases handler <;> cases holds
  · exact fits.2.1
  · exact fits.2.1
  · exact fits.1

theorem Fits.mono {handler : Handler} (fits : Fits good s handler) (count : s.count ≤ t.count)
    (files : ∀ digest, (s.file digest).isSome → (t.file digest).isSome)
    (content : ∀ inode, handler.holds = some inode → t.content inode = s.content inode) :
    Fits good t handler := by
  cases handler with
  | looking | hashing | downloaded | refused => exact fits
  | writing digest inode rest =>
    exact ⟨fits.1, fits.2.1.trans_le count, (content inode rfl).symm ▸ fits.2.2⟩
  | publishing digest inode =>
    exact ⟨fits.1, fits.2.1.trans_le count, (content inode rfl).symm ▸ fits.2.2⟩
  | uploaded | present => exact files _ fits
  | streaming digest inode received =>
    obtain ⟨bound, right, front⟩ := fits
    rw [Fits, content inode rfl]
    exact ⟨bound.trans_le count, right, front⟩

/-! One lemma for each way in which a step changes the store. -/

/-- A handler goes on, or ends, and no file changes. -/
theorem Sound.turned (sound : Sound good s) (next : Option Handler)
    (fits : ∀ handler, next = some handler → Fits good s handler)
    (quiet : ∀ handler, next = some handler → handler.writes = none)
    (held : ∀ handler inode, next = some handler → handler.holds = some inode →
      (∃ digest, s.file digest = some inode) ∨
        ∃ old, s.handler n = some old ∧ old.holds = some inode) :
    Sound good { s with handler := Function.update s.handler n next } where
  files := sound.files
  handlers m handler there := by
    refine Fits.mono (s := s) ?_ le_rfl (fun _ found => found) (fun _ _ => rfl)
    rcases update_cases there with ⟨-, own⟩ | ⟨-, other⟩
    · exact fits handler own
    · exact sound.handlers m handler other
  named digest inode m handler file there := by
    rcases update_cases there with ⟨-, own⟩ | ⟨-, other⟩
    · simp [quiet handler own]
    · exact sound.named digest inode m handler file other
  apart m k one other inode first second writes holds := by
    rcases update_cases first with ⟨-, own⟩ | ⟨different, before⟩
    · rw [quiet one own] at writes
      cases writes
    · rcases update_cases second with ⟨rfl, own⟩ | ⟨-, before'⟩
      · rcases held other inode own holds with ⟨digest, file⟩ | ⟨old, there, same⟩
        · exact absurd writes (sound.named digest inode m one file before)
        · exact sound.apart m k one old inode before there writes same
      · exact sound.apart m k one other inode before before' writes holds

theorem Sound.created {digest : String} {body : Bytes} (sound : Sound good s)
    (valid : validDigest digest = true) (right : good digest body) :
    Sound good
      { s.become n (.writing digest s.count body) with
        content := Function.update s.content s.count []
        count := s.count + 1 } := by
  have old (inode : Nat) (bound : inode < s.count) :
      Function.update s.content s.count [] inode = s.content inode :=
    Function.update_of_ne bound.ne _ _
  constructor
  · intro name inode file
    obtain ⟨known, bound, right⟩ := sound.files name inode file
    refine ⟨known, bound.trans (Nat.lt_succ_self _), ?_⟩
    simp only [old inode bound]
    exact right
  · intro m handler there
    rcases update_cases there with ⟨-, own⟩ | ⟨-, other⟩
    · obtain rfl := Option.some.inj own
      refine ⟨valid, Nat.lt_succ_self _, ?_⟩
      simp only [Function.update_self, List.nil_append]
      exact right
    · have fits := sound.handlers m handler other
      exact fits.mono (Nat.le_succ _) (fun _ found => found)
        (fun inode holds => old inode (fits.bound holds))
  · intro name inode m handler file there
    rcases update_cases there with ⟨-, own⟩ | ⟨-, other⟩
    · obtain rfl := Option.some.inj own
      intro same
      exact absurd (Option.some.inj same).symm (sound.files name inode file).2.1.ne
    · exact sound.named name inode m handler file other
  · intro m k one other inode first second writes holds
    rcases update_cases first with ⟨rfl, own⟩ | ⟨-, before⟩
    · obtain rfl := Option.some.inj own
      obtain rfl := Option.some.inj writes
      rcases update_cases second with ⟨rfl, -⟩ | ⟨-, before'⟩
      · rfl
      · exact absurd ((sound.handlers k other before').bound holds) (lt_irrefl _)
    · rcases update_cases second with ⟨rfl, own⟩ | ⟨-, before'⟩
      · obtain rfl := Option.some.inj own
        obtain rfl := Option.some.inj holds
        exact absurd ((sound.handlers m one before).bound (holds_of_writes writes)) (lt_irrefl _)
      · exact sound.apart m k one other inode before before' writes holds

theorem Sound.wrote {digest : String} {inode : Nat} {rest : Bytes} (sound : Sound good s)
    (there : s.handler n = some (.writing digest inode rest)) (bytes : Nat) :
    Sound good
      { s.become n (.writing digest inode (rest.drop bytes)) with
        content := Function.update s.content inode (s.content inode ++ rest.take bytes) } := by
  constructor
  · intro name found file
    obtain ⟨known, bound, right⟩ := sound.files name found file
    have other : found ≠ inode := by
      rintro rfl
      exact sound.named name found n _ file there rfl
    refine ⟨known, bound, ?_⟩
    simp only [Function.update_of_ne other]
    exact right
  · intro m handler now
    rcases update_cases now with ⟨-, own⟩ | ⟨different, before⟩
    · obtain rfl := Option.some.inj own
      obtain ⟨valid, bound, right⟩ := sound.handlers n _ there
      refine ⟨valid, bound, ?_⟩
      simp only [Function.update_self, List.append_assoc, List.take_append_drop]
      exact right
    · refine (sound.handlers m handler before).mono le_rfl (fun _ found => found) ?_
      intro held holds
      refine Function.update_of_ne (fun same => ?_) _ _
      subst same
      exact different (sound.apart n m _ handler held there before rfl holds).symm
  · intro name found m handler file now
    rcases update_cases now with ⟨-, own⟩ | ⟨-, before⟩
    · obtain rfl := Option.some.inj own
      exact sound.named name found n (.writing digest inode rest) file there
    · exact sound.named name found m handler file before
  · intro m k one other held first second writes holds
    rcases update_cases first with ⟨rfl, own⟩ | ⟨-, before⟩
    · obtain rfl := Option.some.inj own
      rcases update_cases second with ⟨rfl, -⟩ | ⟨-, before'⟩
      · rfl
      · exact sound.apart m k _ other held there before' writes holds
    · rcases update_cases second with ⟨rfl, own⟩ | ⟨-, before'⟩
      · obtain rfl := Option.some.inj own
        exact sound.apart m k one _ held before there writes holds
      · exact sound.apart m k one other held before before' writes holds

theorem Sound.renamed {digest : String} {inode : Nat} (sound : Sound good s)
    (there : s.handler n = some (.publishing digest inode)) :
    Sound good
      { s.become n (.uploaded digest true) with
        file := Function.update s.file digest (some inode) } := by
  constructor
  · intro name found file
    by_cases same : name = digest
    · subst same
      simp only [Function.update_self, Option.some.injEq] at file
      exact file ▸ sound.handlers n _ there
    · simp only [Function.update_of_ne same] at file
      exact sound.files name found file
  · intro m handler now
    rcases update_cases now with ⟨-, own⟩ | ⟨-, before⟩
    · obtain rfl := Option.some.inj own
      simp [Fits]
    · exact (sound.handlers m handler before).mono le_rfl (fun _ found => isSome_update found)
        (fun _ _ => rfl)
  · intro name found m handler file now
    rcases update_cases now with ⟨-, own⟩ | ⟨different, before⟩
    · obtain rfl := Option.some.inj own
      exact fun writes => by cases writes
    · by_cases same : name = digest
      · subst same
        simp only [Function.update_self, Option.some.injEq] at file
        subst file
        exact fun writes => different (sound.apart m n handler _ inode before there writes rfl)
      · simp only [Function.update_of_ne same] at file
        exact sound.named name found m handler file before
  · intro m k one other held first second writes holds
    rcases update_cases first with ⟨-, own⟩ | ⟨-, before⟩
    · obtain rfl := Option.some.inj own
      cases writes
    · rcases update_cases second with ⟨-, own⟩ | ⟨-, before'⟩
      · obtain rfl := Option.some.inj own
        cases holds
      · exact sound.apart m k one other held before before' writes holds

/-- What a step can do. -/
inductive Move (s : Store) : Label → Store → Prop where
  | put {n : Nat} {digest : String} {body : Bytes} (valid : validDigest digest = true) :
      Move s (.put n digest body) (s.become n (.looking digest body))
  | head {n : Nat} {digest : String} (there : (s.file digest).isSome) :
      Move s (.head n digest) (s.become n (.present digest))
  | get {n : Nat} {digest : String} {inode : Nat} (there : s.file digest = some inode) :
      Move s (.get n digest) (s.become n (.streaming digest inode []))
  | refuse {label : Label} {n : Nat} (error : ApiError) : Move s label (s.become n (.refused error))
  | finds {n : Nat} {digest : String} {body : Bytes}
      (looks : s.handler n = some (.looking digest body)) (there : (s.file digest).isSome) :
      Move s (.look n) (s.become n (.uploaded digest false))
  | misses {n : Nat} {digest : String} {body : Bytes}
      (looks : s.handler n = some (.looking digest body)) :
      Move s (.look n) (s.become n (.hashing digest body))
  | create {n : Nat} {digest : String} {body : Bytes}
      (hashes : s.handler n = some (.hashing digest body)) (same : Crates.sha256 body = digest) :
      Move s (.create n) { s.become n (.writing digest s.count body) with
        content := Function.update s.content s.count []
        count := s.count + 1 }
  | write {n bytes : Nat} {digest : String} {inode : Nat} {rest : Bytes}
      (writes : s.handler n = some (.writing digest inode rest)) :
      Move s (.write n bytes) { s.become n (.writing digest inode (rest.drop (bytes + 1))) with
        content := Function.update s.content inode (s.content inode ++ rest.take (bytes + 1)) }
  | written {n bytes : Nat} {digest : String} {inode : Nat}
      (writes : s.handler n = some (.writing digest inode [])) :
      Move s (.write n bytes) (s.become n (.publishing digest inode))
  | rename {n : Nat} {digest : String} {inode : Nat}
      (renames : s.handler n = some (.publishing digest inode)) :
      Move s (.rename n) { s.become n (.uploaded digest true) with
        file := Function.update s.file digest (some inode) }
  | read {n bytes : Nat} {digest : String} {inode : Nat} {received left : Bytes}
      (streams : s.handler n = some (.streaming digest inode received))
      (ahead : (s.content inode).drop received.length = left) :
      Move s (.read n bytes)
        (s.become n (.streaming digest inode (received ++ left.take (bytes + 1))))
  | ended {n bytes : Nat} {digest : String} {inode : Nat} {received : Bytes}
      (streams : s.handler n = some (.streaming digest inode received))
      (ends : (s.content inode).drop received.length = []) :
      Move s (.read n bytes) (s.become n (.downloaded digest received))
  | fail {n : Nat} : Move s (.fail n) { s with handler := Function.update s.handler n none }
  | restart : Move s .restart { s with handler := fun _ => none }

theorem step_cases {label : Label} (stepped : s.step label = some t) : Move s label t := by
  cases label with
  | put n digest body =>
    rcases enter_cases stepped with ⟨valid, rfl⟩ | ⟨error, rfl⟩
    · exact .put valid
    · exact .refuse error
  | head n digest =>
    rcases enter_cases stepped with ⟨-, rfl⟩ | ⟨error, rfl⟩
    · split_ifs with there
      · exact .head there
      · exact .refuse _
    · exact .refuse error
  | get n digest =>
    rcases enter_cases stepped with ⟨-, rfl⟩ | ⟨error, rfl⟩
    · split
      · exact .get ‹_›
      · exact .refuse _
    · exact .refuse error
  | look n =>
    simp only [Store.step] at stepped
    split at stepped <;> cases stepped
    split_ifs with there
    · exact .finds ‹_› there
    · exact .misses ‹_›
  | create n =>
    simp only [Store.step] at stepped
    split at stepped
    · rename_i digest body hashes
      split_ifs at stepped with differs
      · exact Option.some.inj stepped ▸ .refuse _
      · exact Option.some.inj stepped ▸ .create hashes (not_not.mp differs)
    · cases stepped
  | write n bytes =>
    simp only [Store.step] at stepped
    split at stepped
    · split at stepped
      · exact Option.some.inj stepped ▸ .written ‹_›
      · exact Option.some.inj stepped ▸ .write ‹_›
    · cases stepped
  | rename n =>
    simp only [Store.step] at stepped
    split at stepped <;> cases stepped
    exact .rename ‹_›
  | read n bytes =>
    simp only [Store.step] at stepped
    split at stepped
    · split at stepped
      · exact Option.some.inj stepped ▸ .ended ‹_› ‹_›
      · exact Option.some.inj stepped ▸ .read ‹_› ‹_›
    · cases stepped
  | fail n =>
    simp only [Store.step] at stepped
    split at stepped <;> cases stepped
    exact .fail
  | restart =>
    cases stepped
    exact .restart

/-- A handler goes on with a file that is complete. -/
theorem Sound.holding {next : Handler} (sound : Sound good s) (fits : Fits good s next)
    (quiet : next.writes = none)
    (held : ∀ inode, next.holds = some inode → (∃ digest, s.file digest = some inode) ∨
      ∃ old, s.handler n = some old ∧ old.holds = some inode) :
    Sound good (s.become n next) := by
  refine sound.turned (some next) ?_ ?_ ?_
  · rintro _ ⟨⟩
    exact fits
  · rintro _ ⟨⟩
    exact quiet
  · rintro _ inode ⟨⟩ holds
    exact held inode holds

/-- A handler goes on to something that has no file open. -/
theorem Sound.answered {next : Handler} (sound : Sound good s) (fits : Fits good s next)
    (closed : next.holds = none) : Sound good (s.become n next) := by
  refine sound.holding fits ?_ ?_
  · cases writes : next.writes with
    | none => rfl
    | some inode => cases closed.symm.trans (holds_of_writes writes)
  · intro inode holds
    cases closed.symm.trans holds

theorem Sound.step {label : Label} (sound : Sound good s) (told : Told good s label)
    (stepped : s.step label = some t) : Sound good t := by
  cases step_cases stepped with
  | put valid => exact sound.answered ⟨valid, told _ _ _ rfl⟩ rfl
  | head there => exact sound.answered there rfl
  | get there =>
    obtain ⟨-, bound, right⟩ := sound.files _ _ there
    refine sound.holding ⟨bound, right, List.nil_prefix⟩ rfl ?_
    rintro _ ⟨⟩
    exact .inl ⟨_, there⟩
  | refuse error => exact sound.answered trivial rfl
  | finds looks there => exact sound.answered there rfl
  | misses looks =>
    obtain ⟨valid, right⟩ := sound.handlers _ _ looks
    exact sound.answered ⟨valid, right⟩ rfl
  | create hashes same =>
    obtain ⟨valid, right⟩ := sound.handlers _ _ hashes
    exact sound.created valid (right same)
  | write writes => exact sound.wrote writes _
  | written writes =>
    obtain ⟨valid, bound, right⟩ := sound.handlers _ _ writes
    rw [List.append_nil] at right
    refine sound.holding ⟨valid, bound, right⟩ rfl ?_
    rintro _ ⟨⟩
    exact .inr ⟨_, writes, rfl⟩
  | rename renames => exact sound.renamed renames
  | read streams ahead =>
    obtain ⟨bound, right, front⟩ := sound.handlers _ _ streams
    refine sound.holding ⟨bound, right, ?_⟩ rfl ?_
    · obtain ⟨rest, whole⟩ := front
      rw [← whole, List.drop_left] at ahead
      rw [← whole, ahead, List.prefix_append_right_inj]
      exact List.take_prefix _ _
    · rintro _ ⟨⟩
      exact .inr ⟨_, streams, rfl⟩
  | ended streams ends =>
    obtain ⟨-, right, rest, whole⟩ := sound.handlers _ _ streams
    rw [← whole, List.drop_left] at ends
    rw [← whole, ends, List.append_nil] at right
    exact sound.answered right rfl
  | fail => exact sound.turned none nofun nofun nofun
  | restart => exact ⟨sound.files, nofun, nofun, nofun⟩

theorem empty_sound : Sound good Store.empty := ⟨nofun, nofun, nofun, nofun⟩

theorem run_sound (run : Runs.Reaches Store.step (Told good) Store.empty t) : Sound good t :=
  run.invariant empty_sound (fun sound told stepped => sound.step told stepped)

theorem file_stays {label : Label} {digest : String} (stepped : s.step label = some t)
    (there : (s.file digest).isSome) : (t.file digest).isSome := by
  cases step_cases stepped with
  | rename => exact isSome_update there
  | _ => exact there

/-! The whole system sees an upload as one step. -/

/-- The system has the digests of the files. -/
def Shows (s : Store) (σ : System) : Prop :=
  ∀ digest, digest ∈ σ.workingDirs ↔ (s.file digest).isSome

theorem step_refines {σ : System} {label : Label}
    (sound : Sound (fun digest bytes => Crates.sha256 bytes = digest) s) (shows' : Shows s σ)
    (stepped : s.step label = some t) :
    ∃ σ', Shows t σ' ∧
      (σ' = σ ∨ ∃ digest body, σ.step (.uploadWorkingDir digest body) = some σ') := by
  cases step_cases stepped with
  | @rename n digest inode renames =>
    obtain ⟨valid, -, right⟩ := sound.handlers _ _ renames
    refine ⟨{ σ with workingDirs := insert digest σ.workingDirs }, ?_,
      .inr ⟨digest, s.content inode, ?_⟩⟩
    · intro name
      by_cases same : name = digest
      · simp [same]
      · simp [same, shows' name]
    · simp [System.step, valid, right]
  | _ => exact ⟨σ, shows', .inl rfl⟩

/-- What a run of the store does, a run of the system does in one step an upload. -/
theorem run_refines {σ : System} (fresh : σ.workingDirs = ∅)
    (run : Runs.Reaches Store.step (fun _ _ => True) Store.empty t) :
    ∃ σ', Runs.Reaches System.step (fun _ _ => True) σ σ' ∧ Shows t σ' := by
  have told {u : Store} (part : Runs.Reaches Store.step (fun _ _ => True) Store.empty u) :
      Sound (fun digest bytes => Crates.sha256 bytes = digest) u :=
    run_sound (part.mono (fun _ _ _ _ _ _ _ same => same))
  refine run.invariant_along (P := fun t => ∃ σ', Runs.Reaches System.step (fun _ _ => True) σ σ' ∧
    Shows t σ') ⟨σ, .refl σ, fun digest => by simp [fresh, Store.empty]⟩ ?_
  rintro u v label before ⟨σ', reached, shown⟩ - stepped
  obtain ⟨σ'', shown', rfl | ⟨digest, body, uploaded⟩⟩ := step_refines (told before) shown stepped
  · exact ⟨σ'', reached, shown'⟩
  · exact ⟨σ'', reached.tail _ trivial uploaded, shown'⟩

/-! Archives. -/

/-- No upload collides with the archive. -/
def Genuine (archive : Bytes) (_ : Store) : Label → Prop
  | .put _ digest body =>
    digest = Crates.sha256 archive → Crates.sha256 body = digest → body = archive
  | _ => True

instance (archive : Bytes) (s : Store) (label : Label) : Decidable (Genuine archive s label) :=
  match label with
  | .put .. => inferInstanceAs (Decidable (_ → _ → _))
  | .head .. | .get .. | .look _ | .create _ | .write .. | .rename _ | .read .. | .fail _ | .restart =>
    inferInstanceAs (Decidable True)

/-- Archives stay. When a client has been told that its archive is there, then for good: whatever
uploads, downloads, failures and ends of the process come later, the controller has exactly the archive
under its digest, every download of the digest that ends has exactly the archive, and the system, which
has got to the same directories in a run of its own, refuses no execution for naming it. -/
theorem archives_stay {archive : Bytes} {handler : Handler}
    (run : Runs.Reaches Store.step (Genuine archive) Store.empty t)
    (there : t.handler n = some handler) (confirmed : handler.confirms = some (Crates.sha256 archive))
    (later : Runs.Reaches Store.step (Genuine archive) t u) :
    (∃ inode, u.file (Crates.sha256 archive) = some inode ∧ u.content inode = archive) ∧
      (∀ m received, u.handler m = some (.downloaded (Crates.sha256 archive) received) →
        received = archive) ∧
      ∀ σ : System, σ.workingDirs = ∅ → ∃ σ', Runs.Reaches System.step (fun _ _ => True) σ σ' ∧
        Shows u σ' ∧ ∀ payload : Value,
          payload.field "working_dir" = some (.string (Crates.sha256 archive)) →
          checkWorkingDir σ'.workingDirs payload = .ok () := by
  have told {v w : Store} (part : Runs.Reaches Store.step (Genuine archive) v w) :
      Runs.Reaches Store.step
        (Told (fun digest bytes => digest = Crates.sha256 archive → bytes = archive)) v w :=
    part.mono (fun _ _ genuine m digest body put same own => by
      subst put
      exact genuine own same)
  have before := run_sound (told run)
  have after := run_sound (told (run.trans later))
  have uploaded : (t.file (Crates.sha256 archive)).isSome := by
    have fits := before.handlers n handler there
    cases handler <;> cases confirmed <;> exact fits
  have stays : (u.file (Crates.sha256 archive)).isSome :=
    later.invariant uploaded (fun there _ stepped => file_stays stepped there)
  obtain ⟨inode, file⟩ := Option.isSome_iff_exists.mp stays
  obtain ⟨valid, -, right⟩ := after.files _ _ file
  refine ⟨⟨inode, file, right rfl⟩, fun m received done => after.handlers m _ done rfl, ?_⟩
  intro σ fresh
  have whole : Runs.Reaches Store.step (fun _ _ => True) Store.empty u :=
    (run.trans later).mono (fun _ _ _ => trivial)
  obtain ⟨σ', reached, shown⟩ := run_refines fresh whole
  refine ⟨σ', reached, shown, fun payload named => ?_⟩
  exact checkWorkingDir_ok named valid ((shown _).mpr stays)

end

open WorkingDirs (projectArchive projectCrates projectDigest)

/-- The upload of a project's archive stops with the process, and is done again in two pieces. -/
def uploading : List Label :=
  [.put 0 projectDigest projectArchive, .look 0, .create 0, .write 0 99, .restart,
    .put 0 projectDigest projectArchive, .look 0, .create 0, .write 0 99, .write 0 199, .write 0 0,
    .rename 0]

/-- The process ends, and a node downloads the archive from the next one in three pieces. -/
def downloading : List Label :=
  [.restart, .get 1 projectDigest, .read 1 49, .read 1 99, .read 1 99, .read 1 0]

/-- What a download that has ended was asked for. -/
def Handler.downloads : Handler → Option String
  | downloaded digest _ => some digest
  | _ => none

theorem archives_stay_downloaded :
    ∃ t u : Store, (t.handler 0).bind Handler.confirms = some projectDigest ∧
      (∃ inode, u.file projectDigest = some inode ∧ u.content inode = projectArchive) ∧
      u.handler 1 = some (.downloaded projectDigest projectArchive) := by
  have digest : projectCrates.sha256 projectArchive = projectDigest := if_pos rfl
  have performed : Option.any (fun t : Store =>
        decide ((t.handler 0).bind Handler.confirms = some projectDigest) &&
        (Runs.exec (@Store.step projectCrates) (@Genuine projectCrates projectArchive) t
          downloading).any (fun u =>
            decide ((u.handler 1).bind Handler.downloads = some projectDigest)))
      (Runs.exec (@Store.step projectCrates) (@Genuine projectCrates projectArchive) Store.empty
        uploading) = true := by
    decide +kernel
  obtain ⟨t, run, after⟩ := (Option.any_eq_true _ _).mp performed
  simp only [Bool.and_eq_true, Option.any_eq_true, decide_eq_true_eq] at after
  obtain ⟨confirmed, u, later, fetched⟩ := after
  obtain ⟨handler, there, told⟩ := Option.bind_eq_some_iff.mp confirmed
  obtain ⟨done, there', told'⟩ := Option.bind_eq_some_iff.mp fetched
  have stays := @archives_stay projectCrates t u 0 projectArchive handler
    (Runs.reaches_of_exec uploading run) there (told.trans (congrArg some digest.symm))
    (Runs.reaches_of_exec downloading later)
  rw [digest] at stays
  cases done with
  | downloaded other received =>
    obtain rfl : other = projectDigest := Option.some.inj told'
    exact ⟨t, u, confirmed, stays.1, there'.trans (by rw [stays.2.1 1 received there'])⟩
  | _ => cases told'

end Scraperack.Uploads
