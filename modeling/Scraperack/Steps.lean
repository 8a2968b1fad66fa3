import Scraperack.SectionMoves

/-! The steps of the controller by outcome: every invariant of a run is checked
against the cases listed here. -/

namespace Scraperack
/-- The call inserts the row of a new execution. -/
def Op.inserts : Op → Bool
  | insertExecution .. => true
  | _ => false

namespace System

/-- A call other than the insertion of a row leaves the cluster alone, and the handler goes on
with the calls it had left. -/
theorem runOp_frame [Crates] {s next : System} {rest ops : List Op} {before after : Reply} {op : Op}
    (plain : op.inserts = false) (done : s.runOp rest before op = some (next, ops, after)) :
    next.cluster = s.cluster ∧ next.issued = s.issued ∧ next.replies = s.replies ∧ ops = rest := by
  cases op with
  | insertExecution execution secrets queue => cases plain
  | completeExecution execution | deliver node execution pool =>
    simp only [runOp, Option.map_eq_some_iff, Prod.mk.injEq] at done
    obtain ⟨_, _, rfl, rfl, -⟩ := done
    exact ⟨rfl, rfl, rfl, rfl⟩
  | _ =>
    simp only [runOp, Option.some.injEq, Prod.mk.injEq] at done
    obtain ⟨rfl, rfl, -⟩ := done
    exact ⟨rfl, rfl, rfl, rfl⟩

/-- How a section came to be entered: by a client's request directly or by a handler in flight. -/
inductive Entered (s : System) : Label → Commit → List Frame → Prop where
  | client (commit : Commit) (direct : commit.direct = true) : Entered s
      (.client commit) commit s.inflight
  | handler (index : Nat) (input : Input) (frame : Frame) (commit : Commit)
      (there : s.inflight[index]? = some frame) (ready : frame.commit input = some commit) :
      Entered s (.enter index input) commit (s.inflight.eraseIdx index)

theorem Entered.fewer {s : System} {label : Label} {commit : Commit} {others : List Frame}
    (entered : Entered s label commit others) : others.Sublist s.inflight := by
  cases entered with
  | client => exact List.Sublist.refl _
  | handler index => exact List.eraseIdx_sublist _ _

/-- The section that the step enters, if it enters one. -/
def entering (s : System) : Label → Option Commit
  | .client commit => some commit
  | .enter index input => (s.inflight[index]?).bind (Frame.commit input)
  | _ => none

theorem Entered.entering {s : System} {label : Label} {commit : Commit} {others : List Frame}
    (entered : Entered s label commit others) : s.entering label = some commit := by
  cases entered with
  | client => rfl
  | handler index input frame _ there ready =>
      simp only [System.entering, there, Option.bind_some, ready]

/-- A step enters one section at most. -/
theorem Entered.unique {s : System} {label : Label} {commit other : Commit}
    {others others' : List Frame}
    (entered : Entered s label commit others)
    (again : Entered s label other others') : commit = other := by
  cases entered with
  | client =>
    cases again
    rfl
  | handler index input frame _ there ready =>
    cases again with
    | handler _ _ frame' _ there' ready' =>
      obtain rfl := Option.some.inj (there.symm.trans there')
      exact Option.some.inj (ready.symm.trans ready')

variable [Crates]

/-- What a step can do, branch by branch. -/
inductive Stepped (s : System) : Label → System → Prop where
  | refused (label : Label) (others : List Frame) (error : ApiError)
      (fewer : others.Sublist s.inflight) :
      Stepped s label (s.answer others (.refused error))
  | authenticated (node : Uuid) (hash : String) (claimed : Option Uuid) (request : NodeRequest)
      (known : s.cluster.nodeCredentials.get node = some (node, hash)) :
      Stepped s (.authenticate node hash claimed request)
        { s with inflight := s.inflight ++ [.authenticated node request] }
  | started (id : Option Uuid) (request : EnvironmentRequest) (job : Job) (free : s.locked = false)
      (checked : s.startJob id request = .ok job) :
      Stepped s (.checkEnvironment id request)
        { s with inflight := s.inflight ++ [.environment job] }
  | importing (name : String) : Stepped s (.checkImport name)
      { s with inflight := s.inflight ++ [.importing name] }
  | performed (label : Label) (commit : Commit) (others : List Frame) (result : Section)
      (free : s.locked = false)
      (allowed : s.allows commit = true) (entered : Entered s label commit others)
      (ran : commit.run s.cluster = .ok result) :
      Stepped s label
        { s with
          cluster := result.cluster
          inflight := others ++ [.running result.ops result.reply]
          issued := commit.issues ++ s.issued }
  | declined (label : Label) (commit : Commit) (others : List Frame) (error : ApiError)
      (entered : Entered s label commit others) :
      Stepped s label
        { s with inflight := others, issued := commit.issues ++ s.issued, replies := .refused error :: s.replies }
  | prepared (index : Nat) (event : PrepareEvent) (job next : Job)
      (files : Keyed.Table String Bytes)
      (there : s.inflight[index]? = some (.environment job))
      (done : prepareJob s.files job event = some (files, .ok next)) :
      Stepped s (.prepare index event)
        { s with files := files, inflight := s.inflight.set index (.environment next) }
  | answered (index : Nat) (succeeds : Bool) (reply : Reply)
      (there : s.inflight[index]? = some (.running [] reply)) :
      Stepped s (.op index succeeds) (s.answer (s.inflight.eraseIdx index) reply)
  | called (index : Nat) (op : Op) (rest : List Op) (before after : Reply) (next : System)
      (there : s.inflight[index]? = some (.running (op :: rest) before))
      (plain : op.inserts = false)
      (done : s.runOp rest before op = some (next, rest, after)) :
      Stepped s (.op index true)
        { next with inflight := s.inflight.set index (.running rest after) }
  | admitted (index : Nat) (execution : Execution) (secrets : Bytes) (queue : Bool) (rest : List Op)
      (before : Reply)
      (database : Database)
      (there : s.inflight[index]? =
        some (.running (.insertExecution execution secrets queue :: rest) before))
      (stored : s.database.insertExecution execution secrets = some (database, true)) :
      Stepped s (.op index true)
        { s with
          cluster := (admitExecution execution queue s.cluster).cluster
          database := database
          inflight := s.inflight.set index
            (.running (admitExecution execution queue s.cluster).ops
              (admitExecution execution queue s.cluster).reply) }
  | rejected (index : Nat) (execution : Execution) (secrets : Bytes) (queue : Bool) (rest : List Op)
      (before : Reply)
      (database : Database)
      (there : s.inflight[index]? =
        some (.running (.insertExecution execution secrets queue :: rest) before))
      (stored : s.database.insertExecution execution secrets = some (database, false)) :
      Stepped s (.op index true)
        { s with
          database := database
          inflight := s.inflight.set index
            (.running [] (.refused ⟨.insufficientStorage, "controller execution storage is full"⟩))
              }
  | failed (index : Nat) (succeeds : Bool) (op : Op) (rest : List Op) (reply : Reply)
      (there : s.inflight[index]? = some (.running (op :: rest) reply))
      (error : succeeds = false ∨ s.runOp rest reply op = none) :
      Stepped s (.op index succeeds) (s.answer (s.inflight.eraseIdx index) (.refused internalError))
  | ignored (index : Nat) (artifact : String) (rest : List Op) (reply : Reply)
      (there : s.inflight[index]? = some (.running (.removeArtifact artifact :: rest) reply)) :
      Stepped s (.op index false) { s with inflight := s.inflight.set index (.running rest reply) }
  | uploaded (digest : String) (body : Bytes) :
      Stepped s (.uploadWorkingDir digest body)
        { s with workingDirs := insert digest s.workingDirs }
  | pruned (now : Nat) :
      Stepped s (.prune now)
        { s with database := (Scraperack.prune s.database now none).getD s.database }
  | settings (retentionHours maxStorageBytes : Nat) :
      Stepped s (.updateSettings retentionHours maxStorageBytes)
        { s with database :=
          { s.database with retentionMs := retentionHours * 3600000, maxStorageBytes := maxStorageBytes } }
  | restarted (fresh : String → Uuid) (now : Nat) (cluster : Cluster) (database : Database)
      (fits : s.freshFits fresh = true) (served : serve s.database none fresh now =
        some (cluster, database)) :
      Stepped s (.restart fresh now)
        { s with
          cluster := cluster
          database := database
          inflight := []
          issued := (legacyPools (s.database.cluster.getD Cluster.empty)).map
            (fun pool => fresh pool.name) ++ s.issued
          replies := []
          lastSave := cluster }

/-- A refused preparation leaves the files alone. -/
theorem prepareJob_error {files files' : Keyed.Table String Bytes} {job : Job}
    {event : PrepareEvent}
    {error : ApiError} (done : prepareJob files job event = some (files', .error error)) : files' =
      files := by
  unfold prepareJob at done
  repeat' split at done
  all_goals cases done
  all_goals rfl

theorem insert_cases {s t : System} {index : Nat} {execution : Execution}
    {secrets : Bytes} {queue : Bool}
    {rest : List Op} {reply : Reply}
    (there : s.inflight[index]? =
      some (.running (.insertExecution execution secrets queue :: rest) reply))
    (stepped : s.callOp index (.insertExecution execution secrets queue) rest reply true = some t) :
    Stepped s (.op index true) t := by
  cases stored : s.database.insertExecution execution secrets with
  | none =>
    simp only [callOp, runOp, stored, ↓reduceIte, Option.map_none, Option.some.injEq] at stepped
    exact stepped ▸ .failed index true _ rest reply there (.inr (by simp [runOp, stored]))
  | some outcome =>
    obtain ⟨database, accepted⟩ := outcome
    cases accepted with
    | true =>
      simp only [callOp, runOp, stored, ↓reduceIte, Option.map_some, Option.some.injEq] at stepped
      exact stepped ▸ .admitted index execution secrets queue rest reply database there stored
    | false =>
      simp only [callOp, runOp, stored, ↓reduceIte, Option.map_some, Bool.false_eq_true,
        Option.some.injEq] at stepped
      exact stepped ▸ .rejected index execution secrets queue rest reply database there stored

theorem callOp_cases {s t : System} {index : Nat} {op : Op} {rest : List Op} {reply : Reply}
    {succeeds : Bool}
    (there : s.inflight[index]? = some (.running (op :: rest) reply))
    (stepped : s.callOp index op rest reply succeeds = some t) : Stepped s
      (.op index succeeds) t := by
  cases succeeds with
  | true =>
    cases plain : op.inserts with
    | true =>
      cases op with
      | insertExecution execution secrets queue => exact insert_cases there stepped
      | _ => cases plain
    | false =>
      simp only [callOp, ↓reduceIte] at stepped
      cases done : s.runOp rest reply op with
      | none =>
        simp only [done, Option.some.injEq] at stepped
        exact stepped ▸ .failed index true op rest reply there (.inr done)
      | some outcome =>
        obtain ⟨next, ops, after⟩ := outcome
        obtain rfl := (runOp_frame plain done).2.2.2
        simp only [done, Option.some.injEq] at stepped
        exact stepped ▸ .called index op ops reply after next there plain done
  | false =>
    simp only [callOp, Bool.false_eq_true, ↓reduceIte] at stepped
    cases op with
    | unlock => cases stepped
    | removeArtifact artifact =>
      simp only [Option.some.injEq] at stepped
      exact stepped ▸ .ignored index artifact rest reply there
    | _ =>
      simp only [Option.some.injEq] at stepped
      exact stepped ▸ .failed index false _ rest reply there (.inl rfl)

theorem perform_cases {s : System} {label : Label} {commit : Commit} {others : List Frame}
    (free : s.locked = false)
    (allowed : s.allows commit = true) (entered : Entered s label commit others) :
    Stepped s label (s.perform commit others) := by
  unfold perform
  cases ran : commit.run s.cluster with
  | error error => exact .declined label commit others error entered
  | ok result => exact .performed label commit others result free allowed entered ran

theorem client_cases {s t : System} {commit : Commit} (stepped : s.step (.client commit) = some t) :
    Stepped s (.client commit) t := by
  simp only [step] at stepped
  split_ifs at stepped with refused
  simp only [Bool.or_eq_true, Bool.not_eq_true', not_or, Bool.not_eq_true,
    Bool.not_eq_false] at refused
  obtain ⟨⟨free, direct⟩, allowed⟩ := refused
  have performs : Stepped s (.client commit) (s.perform commit s.inflight) :=
    perform_cases free allowed (.client commit direct)
  cases commit with
  | createExecution id request secrets now =>
    dsimp only at stepped
    cases checked : checkWorkingDir s.workingDirs request.payload with
    | ok _ =>
      simp only [checked, Option.some.injEq] at stepped
      exact stepped ▸ performs
    | error error =>
      simp only [checked, Option.some.injEq] at stepped
      exact stepped ▸ .refused _ _ _ (List.Sublist.refl _)
  | _ => exact Option.some.inj stepped ▸ performs

theorem step_cases {s t : System} {label : Label}
    (stepped : s.step label = some t) : Stepped s label t := by
  cases label with
  | client commit => exact client_cases stepped
  | authenticate node hash claimed request =>
    simp only [step] at stepped
    split_ifs at stepped with _ known _ <;> obtain rfl := Option.some.inj stepped
    · exact .refused _ _ _ (List.Sublist.refl _)
    · exact .refused _ _ _ (List.Sublist.refl _)
    · exact .authenticated node hash claimed request (not_not.mp known)
  | checkEnvironment id request =>
    simp only [step] at stepped
    split_ifs at stepped with free
    cases checked : s.startJob id request with
    | ok job =>
      simp only [checked, Option.some.injEq] at stepped
      exact stepped ▸ .started id request job (by simpa using free) checked
    | error error =>
      simp only [checked, Option.some.injEq] at stepped
      exact stepped ▸ .refused _ _ _ (List.Sublist.refl _)
  | checkImport name =>
    simp only [step] at stepped
    split_ifs at stepped <;> obtain rfl := Option.some.inj stepped
    · exact .refused _ _ _ (List.Sublist.refl _)
    · exact .importing name
  | enter index input =>
    simp only [step] at stepped
    cases ready : (s.inflight[index]?).bind (Frame.commit input) with
    | none => simp [ready] at stepped
    | some commit =>
      obtain ⟨frame, there, committed⟩ := Option.bind_eq_some_iff.mp ready
      simp only [ready] at stepped
      split_ifs at stepped with refused
      simp only [Bool.or_eq_true, Bool.not_eq_true', not_or, Bool.not_eq_true,
        Bool.not_eq_false] at refused
      exact Option.some.inj stepped ▸
        perform_cases refused.1 refused.2 (.handler index input frame commit there committed)
  | prepare index event =>
    simp only [step] at stepped
    split at stepped
    · rename_i job there
      split at stepped
      · cases stepped
      · rename_i files next done
        exact Option.some.inj stepped ▸ .prepared index event job next files there done
      · rename_i files error done
        obtain rfl := prepareJob_error done
        exact Option.some.inj stepped ▸ .refused _ _ error (List.eraseIdx_sublist _ _)
    · cases stepped
  | op index succeeds =>
    simp only [step] at stepped
    split at stepped
    · rename_i reply there
      exact Option.some.inj stepped ▸ .answered index succeeds reply there
    · rename_i op rest reply there
      exact callOp_cases there stepped
    · cases stepped
  | uploadWorkingDir digest body =>
    simp only [step] at stepped
    split_ifs at stepped
    exact Option.some.inj stepped ▸ .uploaded digest body
  | prune now => exact Option.some.inj stepped ▸ .pruned now
  | updateSettings retentionHours maxStorageBytes =>
    simp only [step] at stepped
    split_ifs at stepped
    exact Option.some.inj stepped ▸ .settings retentionHours maxStorageBytes
  | restart fresh now =>
    simp only [step] at stepped
    split_ifs at stepped with fits
    obtain ⟨⟨cluster, database⟩, served, rfl⟩ := Option.map_eq_some_iff.mp stepped
    exact .restarted fresh now cluster database fits served

/-- Where a handler in flight after the step comes from. -/
inductive Arrived (s : System) (label : Label) : Frame → Prop where
  | stayed (frame : Frame) (member : frame ∈ s.inflight) : Arrived s label frame
  | authenticated (node : Uuid) (request : NodeRequest) : Arrived s label
      (.authenticated node request)
  | started (id : Option Uuid) (request : EnvironmentRequest) (job : Job)
      (checked : s.startJob id request = .ok job) :
      Arrived s label (.environment job)
  | importing (name : String) : Arrived s label (.importing name)
  | performed (commit : Commit) (others : List Frame) (result : Section) (free : s.locked = false)
      (allowed : s.allows commit = true) (entered : Entered s label commit others)
      (ran : commit.run s.cluster = .ok result) : Arrived s label (.running result.ops result.reply)
  | prepared (event : PrepareEvent) (job next : Job) (files : Keyed.Table String Bytes)
      (member : Frame.environment job ∈ s.inflight)
      (done : prepareJob s.files job event = some (files, .ok next)) :
      Arrived s label (.environment next)
  | called (op : Op) (rest : List Op) (before after : Reply) (next : System)
      (member : Frame.running (op :: rest) before ∈ s.inflight)
      (done : s.runOp rest before op = some (next, rest, after)) : Arrived s label
        (.running rest after)
  | admitted (execution : Execution) (secrets : Bytes) (queue : Bool) (rest : List Op)
      (before : Reply)
      (member : Frame.running (.insertExecution execution secrets queue :: rest) before ∈
        s.inflight) :
      Arrived s label (.running (admitExecution execution queue s.cluster).ops
        (admitExecution execution queue s.cluster).reply)
  | rejected (error : ApiError) : Arrived s label (.running [] (.refused error))
  | ignored (artifact : String) (rest : List Op) (reply : Reply)
      (member : Frame.running (.removeArtifact artifact :: rest) reply ∈ s.inflight) :
      Arrived s label (.running rest reply)

theorem frame_cases {s t : System} {label : Label} (stepped : s.step label = some t) {frame : Frame}
    (member : frame ∈ t.inflight) : Arrived s label frame := by
  have stays {others : List Frame} (fewer : others.Sublist s.inflight) (inside : frame ∈ others) :
      Arrived s label frame := .stayed frame (fewer.subset inside)
  cases step_cases stepped with
  | refused _ others error fewer => exact stays fewer member
  | authenticated | started | importing =>
    rcases List.mem_append.mp member with before | new
    · exact .stayed frame before
    · obtain rfl := List.mem_singleton.mp new
      first | exact .authenticated .. | exact .importing .. | exact .started _ _ _ ‹_›
  | performed _ commit others result free allowed entered ran =>
    rcases List.mem_append.mp member with before | new
    · exact stays entered.fewer before
    · obtain rfl := List.mem_singleton.mp new
      exact .performed commit others result free allowed entered ran
  | declined _ commit others error entered => exact stays entered.fewer member
  | prepared index event job next files there done =>
    rcases List.mem_or_eq_of_mem_set member with before | rfl
    · exact .stayed frame before
    · exact .prepared event job next files (List.mem_of_getElem? there) done
  | answered | failed => exact stays (List.eraseIdx_sublist _ _) member
  | ignored index artifact rest reply there =>
    rcases List.mem_or_eq_of_mem_set member with before | rfl
    · exact .stayed frame before
    · exact .ignored artifact rest reply (List.mem_of_getElem? there)
  | called index op rest before after next there plain done =>
    rcases List.mem_or_eq_of_mem_set member with same | rfl
    · exact .stayed frame same
    · exact .called op rest before after next (List.mem_of_getElem? there) done
  | admitted index execution secrets queue rest before database there stored =>
    rcases List.mem_or_eq_of_mem_set member with same | rfl
    · exact .stayed frame same
    · exact .admitted execution secrets queue rest before (List.mem_of_getElem? there)
  | rejected index execution secrets queue rest before database there stored =>
    rcases List.mem_or_eq_of_mem_set member with same | rfl
    · exact .stayed frame same
    · exact .rejected _
  | restarted => cases member
  | _ => exact .stayed frame member

/-- Where the handlers in flight stand after a step: the one at the label's index goes on in its
place, enters its section or leaves, and a new one joins behind the others. -/
def Shifts (s : System) (label : Label) (t : System) : Prop :=
  match label with
  | .client _ | .authenticate .. | .checkEnvironment .. | .checkImport _ =>
    t.inflight = s.inflight ∨ ∃ frame, t.inflight = s.inflight ++ [frame]
  | .enter index _ =>
    (∃ frame, s.inflight[index]? = some frame ∧ ∀ ops reply, frame ≠ .running ops reply) ∧
      (t.inflight = s.inflight.eraseIdx index ∨
        ∃ frame, t.inflight = s.inflight.eraseIdx index ++ [frame])
  | .prepare index _ =>
    (∃ job, s.inflight[index]? = some (.environment job)) ∧
      (t.inflight = s.inflight.eraseIdx index ∨
        ∃ job, t.inflight = s.inflight.set index (.environment job))
  | .op index _ =>
    (∃ ops reply, s.inflight[index]? = some (.running ops reply)) ∧
      (t.inflight = s.inflight.eraseIdx index ∨
        ∃ ops reply, t.inflight = s.inflight.set index (.running ops reply))
  | .restart .. => t.inflight = []
  | _ => t.inflight = s.inflight

theorem perform_inflight (s : System) (commit : Commit) (others : List Frame) :
    (s.perform commit others).inflight = others ∨
      ∃ frame, (s.perform commit others).inflight = others ++ [frame] := by
  unfold perform
  split
  · exact .inl rfl
  · exact .inr ⟨_, rfl⟩

theorem callOp_inflight {s t : System} {index : Nat} {op : Op} {rest : List Op} {reply : Reply}
    {succeeds : Bool}
    (stepped : s.callOp index op rest reply succeeds = some t) :
    t.inflight = s.inflight.eraseIdx index ∨
      ∃ ops reply, t.inflight = s.inflight.set index (.running ops reply) := by
  unfold callOp at stepped
  split_ifs at stepped
  · split at stepped <;> obtain rfl := Option.some.inj stepped
    · exact .inr ⟨_, _, rfl⟩
    · exact .inl rfl
  · cases op <;> simp only [reduceCtorEq, Option.some.injEq] at stepped <;> obtain rfl := stepped
    case removeArtifact => exact .inr ⟨_, _, rfl⟩
    all_goals exact .inl rfl

theorem step_shifts {s t : System} {label : Label}
    (stepped : s.step label = some t) : s.Shifts label t := by
  cases label with
  | client commit =>
    have performs := s.perform_inflight commit s.inflight
    simp only [step] at stepped
    split_ifs at stepped
    split at stepped
    · split at stepped <;> obtain rfl := Option.some.inj stepped
      · exact performs
      · exact .inl rfl
    · exact Option.some.inj stepped ▸ performs
  | authenticate node hash claimed request =>
    simp only [step] at stepped
    split_ifs at stepped <;> obtain rfl := Option.some.inj stepped
    · exact .inl rfl
    · exact .inl rfl
    · exact .inr ⟨_, rfl⟩
  | checkEnvironment id request =>
    simp only [step] at stepped
    split_ifs at stepped
    split at stepped <;> obtain rfl := Option.some.inj stepped
    · exact .inr ⟨_, rfl⟩
    · exact .inl rfl
  | checkImport name =>
    simp only [step] at stepped
    split_ifs at stepped <;> obtain rfl := Option.some.inj stepped
    · exact .inl rfl
    · exact .inr ⟨_, rfl⟩
  | enter index input =>
    simp only [step] at stepped
    split at stepped
    · cases stepped
    · rename_i commit ready
      obtain ⟨frame, there, committed⟩ := Option.bind_eq_some_iff.mp ready
      split_ifs at stepped
      refine ⟨⟨frame, there, ?_⟩, Option.some.inj stepped ▸ s.perform_inflight commit _⟩
      rintro ops reply rfl
      cases committed
  | prepare index event =>
    simp only [step] at stepped
    split at stepped
    · rename_i job there
      refine ⟨⟨job, there⟩, ?_⟩
      split at stepped
      · cases stepped
      · exact Option.some.inj stepped ▸ .inr ⟨_, rfl⟩
      · exact Option.some.inj stepped ▸ .inl rfl
    · cases stepped
  | op index succeeds =>
    simp only [step] at stepped
    split at stepped
    · rename_i reply there
      exact ⟨⟨_, reply, there⟩, Option.some.inj stepped ▸ .inl rfl⟩
    · rename_i op rest reply there
      exact ⟨⟨_, reply, there⟩, callOp_inflight stepped⟩
    · cases stepped
  | uploadWorkingDir digest body =>
    simp only [step] at stepped
    split_ifs at stepped
    exact Option.some.inj stepped ▸ rfl
  | prune now => exact Option.some.inj stepped ▸ rfl
  | updateSettings retentionHours maxStorageBytes =>
    simp only [step] at stepped
    split_ifs at stepped
    exact Option.some.inj stepped ▸ rfl
  | restart fresh now =>
    simp only [step] at stepped
    split_ifs at stepped
    obtain ⟨_, _, rfl⟩ := Option.map_eq_some_iff.mp stepped
    rfl

end System
end Scraperack
