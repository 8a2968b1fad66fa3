import Scraperack.Rows
import Scraperack.Secrets

/-! Executions in memory and their rows. A handler changes executions under the lock and writes
their rows later, so an execution is as its row has it, or as the last of the writes that are
still to come. -/

namespace Scraperack

/-! One execution: in memory, among the writes to come, and in its row. -/

/-- What is in memory is in the row, or in the last of the writes still to come. A completion is
the last of these, and nothing follows it. -/
structure Recorded (memory : Option Execution) (unwritten : List Execution)
    (row : Option Row) : Prop where
  stored : ∀ execution, memory = some execution → unwritten.getLast? = some execution ∨
    unwritten = [] ∧ ∃ found, row = some found ∧ found.Records execution
  active : ∀ execution, memory = some execution → execution.status.terminal = false
  last : ∀ execution ∈ unwritten.dropLast, execution.status.terminal = false
  ended : ∀ found, row = some found → found.status.terminal = true → memory = none ∧ unwritten = []

namespace Recorded
variable {memory : Option Execution} {unwritten here rest : List Execution} {row : Option Row}

/-- Nothing is asked of an execution that is not in memory and not to be written. -/
theorem absent (row : Option Row) : Recorded none [] row :=
  ⟨fun _ held => (by cases held), fun _ held => (by cases held), fun _ early => (by cases early),
    fun _ _ _ => ⟨rfl, rfl⟩⟩

/-- A completion that is still to be written is the last write, of an execution that is gone. -/
theorem completion (recorded : Recorded memory (here ++ rest) row) {execution : Execution}
    (member : execution ∈ here) (ended : execution.status.terminal = true) : memory = none ∧
      rest = [] := by
  have ends : rest = [] := by
    by_contra more
    have early : execution ∈ (here ++ rest).dropLast := by
      rw [List.dropLast_append_of_ne_nil more]
      exact List.mem_append_left _ member
    rw [recorded.last execution early] at ended
    cases ended
  subst ends
  rw [List.append_nil] at recorded
  refine ⟨?_, rfl⟩
  cases held : memory with
  | none => rfl
  | some kept =>
    have active := recorded.active kept held
    rcases recorded.stored kept held with last | ⟨nothing, -⟩
    · rw [List.getLast?_eq_some_iff] at last
      obtain ⟨before, rfl⟩ := last
      rcases List.mem_append.mp member with early | same
      · have := recorded.last execution (by simpa using early)
        rw [this] at ended
        cases ended
      · rw [List.mem_singleton.mp same, active] at ended
        cases ended
    · rw [nothing] at member
      cases member

/-- The writes that come first have been made: the row records the last of them. -/
theorem saved (recorded : Recorded memory (here ++ rest) row) {execution : Execution} {found : Row}
    (last : here.getLast? = some execution) (records : found.Records execution) :
    Recorded memory rest (some found) := by
  have member := List.mem_of_getLast? last
  refine ⟨fun kept held => ?_, recorded.active, fun other early => ?_, fun other same ended => ?_⟩
  · by_cases ends : rest = []
    · subst ends
      rw [List.append_nil] at recorded
      rcases recorded.stored kept held with newest | ⟨nothing, -⟩
      · obtain rfl := Option.some.inj (last.symm.trans newest)
        exact .inr ⟨rfl, found, rfl, records⟩
      · rw [nothing] at last
        cases last
    · rcases recorded.stored kept held with newest | ⟨nothing, -⟩
      · rw [List.getLast?_append_of_ne_nil _ ends] at newest
        exact .inl newest
      · exact absurd (List.append_eq_nil_iff.mp nothing).2 ends
  · refine recorded.last other ?_
    rw [List.dropLast_append_of_ne_nil (fun none => by rw [none] at early; cases early)]
    exact List.mem_append_right _ early
  · obtain rfl := Option.some.inj same
    rw [records.status] at ended
    exact recorded.completion member ended

theorem kept (recorded : Recorded memory unwritten row) {next : Option Row}
    (kept : next = row ∨ next = none ∧ ∃ found, row = some found ∧ found.status.terminal = true) :
    Recorded memory unwritten next := by
  rcases kept with rfl | ⟨rfl, found, there, ended⟩
  · exact recorded
  · obtain ⟨rfl, rfl⟩ := recorded.ended found there ended
    exact absent none

/-- A handler that fails takes no more with it than a completion that it had still to write. -/
theorem dropped {gone : List Execution} (recorded : Recorded memory (here ++ gone ++ rest) row)
    (completions : ∀ execution ∈ gone, execution.status.terminal = true) :
    Recorded memory (here ++ rest) row := by
  cases lost : gone with
  | nil => simpa [lost] using recorded
  | cons execution more =>
    have member : execution ∈ here ++ gone := List.mem_append_right _ (lost ▸ List.mem_cons_self)
    obtain ⟨rfl, rfl⟩ := recorded.completion member
      (completions execution (lost ▸ List.mem_cons_self))
    refine ⟨fun _ held => (by cases held), fun _ held => (by cases held), fun other early => ?_,
      fun found there ended => ?_⟩
    · refine recorded.last other ?_
      rw [List.append_nil, List.dropLast_append_of_ne_nil (lost ▸ List.cons_ne_nil _ _)]
      rw [List.append_nil] at early
      exact List.mem_append_left _ (List.mem_of_mem_dropLast early)
    · have nothing := (recorded.ended found there ended).2
      rw [List.append_nil] at nothing
      rw [nothing] at member
      cases member

/-- Nothing that is still to be written for an execution in memory is a completion. -/
theorem waiting (recorded : Recorded memory unwritten row) {execution : Execution}
    (held : memory = some execution) {write : Execution} (member : write ∈ unwritten) :
    write.status.terminal = false := by
  by_contra ended
  have split : Recorded memory (unwritten ++ []) row := by rwa [List.append_nil]
  have gone := (split.completion member (by simpa using ended)).1
  rw [gone] at held
  cases held

/-- A section leaves the writes to come in order. -/
theorem afterSection {c : Cluster} {result : Section} {id : Uuid}
    (recorded : Recorded (c.executions.get id) unwritten row) (written : Written c result id)
    (active : ∀ execution, result.cluster.executions.get id = some execution →
      execution.status.terminal = false) :
    Recorded (result.cluster.executions.get id) (unwritten ++ result.writesFor id) row := by
  cases written with
  | nothing none same =>
    rw [none, List.append_nil, same]
    exact recorded
  | copies before after present holds last all =>
    have some : result.writesFor id ≠ [] := fun none => by
      rw [none] at last
      cases last
    refine ⟨fun execution held => .inl ?_, active, fun execution early => ?_,
      fun found there ended => ?_⟩
    · rw [List.getLast?_append_of_ne_nil _ some, last, ← holds, held]
    · rw [List.dropLast_append_of_ne_nil some] at early
      rcases List.mem_append.mp early with before | new
      · exact recorded.waiting present before
      · rw [all execution (List.mem_of_mem_dropLast new)]
        exact active after holds
    · rw [present] at recorded
      cases (recorded.ended found there ended).1
  | completion before after present gone ended only =>
    rw [gone, only]
    refine ⟨fun _ held => (by cases held), fun _ held => (by cases held), fun execution early => ?_,
      fun found there ended => ?_⟩
    · rw [List.dropLast_concat] at early
      exact recorded.waiting present early
    · rw [present] at recorded
      cases (recorded.ended found there ended).1

end Recorded

namespace System

/-- What handlers in flight still have to write for the execution, in the order of their sections. -/
def unwritten (s : System) (id : Uuid) : List Execution :=
  (s.inflight.flatMap Frame.writes).filter (fun execution => execution.id = id)

/-- The handlers before the position have nothing left to write for these executions. -/
def overtakes (s : System) (index : Nat) (writes : List Execution) : Bool :=
  ((s.inflight.take index).flatMap Frame.writes).any (fun earlier =>
    writes.any (fun write => decide (write.id = earlier.id)))

section
variable [Crates]

/-- A call that writes executions comes after the writes that handlers with an earlier section
have left for them, and no call fails while its handler has copies left to save. -/
def inOrder (s : System) : Label → Bool
  | .op index succeeds =>
    match s.inflight[index]? with
    | some (.running (op :: rest) reply) =>
      if succeeds && (s.runOp rest reply op).isSome then !s.overtakes index op.writes
      else (op :: rest).all (fun op => op.copies.isEmpty)
    | _ => true
  | _ => true

end

/-! The frames around the one that makes a step. -/

theorem writes_split {frames : List Frame} {index : Nat} {frame : Frame}
    (there : frames[index]? = some frame) :
    frames.flatMap Frame.writes = (frames.take index).flatMap Frame.writes ++
      (frame.writes ++ (frames.drop (index + 1)).flatMap Frame.writes) := by
  obtain ⟨inside, rfl⟩ := List.getElem?_eq_some_iff.mp there
  conv_lhs => rw [← List.take_append_drop index frames, List.drop_eq_getElem_cons inside]
  rw [List.flatMap_append, List.flatMap_cons]

theorem writes_set {frames : List Frame} {index : Nat} {frame : Frame}
    (there : frames[index]? = some frame) (next : Frame) :
    (frames.set index next).flatMap Frame.writes = (frames.take index).flatMap Frame.writes ++
      (next.writes ++ (frames.drop (index + 1)).flatMap Frame.writes) := by
  obtain ⟨inside, -⟩ := List.getElem?_eq_some_iff.mp there
  rw [List.set_eq_take_append_cons_drop, if_pos inside, List.flatMap_append, List.flatMap_cons]

theorem writes_eraseIdx (frames : List Frame) (index : Nat) :
    (frames.eraseIdx index).flatMap Frame.writes = (frames.take index).flatMap Frame.writes ++
      (frames.drop (index + 1)).flatMap Frame.writes := by
  rw [List.eraseIdx_eq_take_drop_succ, List.flatMap_append]

/-- Frames without writes may come and go. -/
theorem writes_eraseIdx_idle {frames : List Frame} {index : Nat} {frame : Frame}
    (there : frames[index]? = some frame) (idle : frame.writes = []) :
    (frames.eraseIdx index).flatMap Frame.writes = frames.flatMap Frame.writes := by
  rw [writes_eraseIdx, writes_split there, idle, List.nil_append]

theorem writes_of_commit {frame : Frame} {input : Input} {commit : Commit}
    (ready : frame.commit input = some commit) : frame.writes = [] := by
  cases frame with
  | running => cases ready
  | _ => rfl

theorem Entered.writes {s : System} {label : Label} {commit : Commit} {others : List Frame}
    (entered : Entered s label commit others) :
    others.flatMap Frame.writes = s.inflight.flatMap Frame.writes := by
  cases entered with
  | client => rfl
  | handler index input frame _ there ready =>
    exact writes_eraseIdx_idle there (writes_of_commit ready)

/-- The step leaves the executions in memory and the writes to come alone, and deletes no row but
those that are over. -/
structure Calm (s t : System) : Prop where
  cluster : t.cluster = s.cluster
  writes : t.inflight.flatMap Frame.writes = s.inflight.flatMap Frame.writes
  rows : ∀ id, Kept s.database.rows t.database.rows id
  issued : ∀ id, id ∈ s.issued → id ∈ t.issued
  frames : ∀ ops reply, Frame.running ops reply ∈ t.inflight → Frame.running ops reply ∈ s.inflight

/-- The handlers that a step which changes no execution leaves in flight. -/
theorem Calm.of_frames {s t : System} (cluster : t.cluster = s.cluster)
    (rows : t.database.rows = s.database.rows)
    (issued : ∀ id, id ∈ s.issued → id ∈ t.issued)
    (writes : t.inflight.flatMap Frame.writes = s.inflight.flatMap Frame.writes)
    (frames : ∀ ops reply, Frame.running ops reply ∈ t.inflight →
      Frame.running ops reply ∈ s.inflight) :
    Calm s t :=
  ⟨cluster, writes, fun id => .inl (by rw [rows]), issued, frames⟩

theorem Calm.eraseIdx {s : System} {index : Nat} {frame : Frame}
    (there : s.inflight[index]? = some frame)
    (idle : frame.writes = []) (reply : Reply) : Calm s
      (s.answer (s.inflight.eraseIdx index) reply) :=
  .of_frames rfl rfl (fun _ known => known) (writes_eraseIdx_idle there idle)
    (fun _ _ member => (List.eraseIdx_sublist _ _).subset member)

theorem Calm.append {s : System} {frame : Frame} (idle : frame.writes = [])
    (waits : ∀ ops reply, frame ≠ .running ops reply) : Calm s
      { s with inflight := s.inflight ++ [frame] } := by
  refine .of_frames rfl rfl (fun _ known => known) (by simp [idle]) (fun ops reply member => ?_)
  rcases List.mem_append.mp member with before | new
  · exact before
  · exact absurd (List.mem_singleton.mp new).symm (waits ops reply)

/-- A handler enters its locked section and leaves calls behind. -/
structure Performed [Crates] (s t : System) (commit : Commit) (result : Section) : Prop where
  free : s.locked = false
  allowed : s.allows commit = true
  ran : commit.run s.cluster = .ok result
  cluster : t.cluster = result.cluster
  writes : t.inflight.flatMap Frame.writes = s.inflight.flatMap Frame.writes ++
    result.ops.flatMap Op.writes
  rows : t.database.rows = s.database.rows
  issued : t.issued = commit.issues ++ s.issued
  frames : ∀ ops reply, Frame.running ops reply ∈ t.inflight →
    Frame.running ops reply ∈ s.inflight ∨ ops = result.ops

section
variable [Crates]

theorem perform_outcome {s : System} {label : Label} {commit : Commit} {others : List Frame}
    (free : s.locked = false) (allowed : s.allows commit = true)
    (entered : Entered s label commit others) :
    Calm s (s.perform commit others) ∨ ∃ result,
      Performed s (s.perform commit others) commit result := by
  unfold perform
  cases ran : commit.run s.cluster with
  | error error =>
    exact .inl (.of_frames rfl rfl (fun _ known => List.mem_append_right _ known) entered.writes
      (fun _ _ member => entered.fewer.subset member))
  | ok result =>
    refine .inr ⟨result, free, allowed, ran, rfl, ?_, rfl, rfl, fun ops reply member => ?_⟩
    · simp [Frame.writes, entered.writes]
    · rcases List.mem_append.mp member with before | new
      · exact .inl (entered.fewer.subset before)
      · simp only [List.mem_singleton, Frame.running.injEq] at new
        exact .inr new.1

/-- A step that is no call of a handler enters a section or changes no execution. -/
theorem step_outcome {s t : System} {label : Label} (stepped : s.step label = some t)
    (same : restarts label = false) (other : ∀ index succeeds, label ≠ .op index succeeds) :
    Calm s t ∨ ∃ commit result, Performed s t commit result := by
  have refused (error : ApiError) : Calm s (s.answer s.inflight (.refused error)) :=
    .of_frames rfl rfl (fun _ known => known) rfl (fun _ _ member => member)
  have entered {commit : Commit} {others : List Frame} (free : s.locked = false)
    (allowed : s.allows commit = true)
      (entered : Entered s label commit others) :
      Calm s (s.perform commit others) ∨ ∃ commit' result,
        Performed s (s.perform commit others) commit' result :=
    (perform_outcome free allowed entered).imp_right
      (fun ⟨result, performed⟩ => ⟨commit, result, performed⟩)
  cases label with
  | client commit =>
    simp only [step] at stepped
    split_ifs at stepped with blocked
    simp only [Bool.or_eq_true, Bool.not_eq_true', not_or, Bool.not_eq_true,
      Bool.not_eq_false] at blocked
    obtain ⟨⟨free, direct⟩, allowed⟩ := blocked
    have performs := entered free allowed (.client commit direct)
    cases commit with
    | createExecution id request secrets now =>
      dsimp only at stepped
      split at stepped <;> obtain rfl := Option.some.inj stepped
      · exact performs
      · exact .inl (refused _)
    | _ => exact Option.some.inj stepped ▸ performs
  | authenticate node hash claimed request =>
    simp only [step] at stepped
    split_ifs at stepped <;> obtain rfl := Option.some.inj stepped
    · exact .inl (refused _)
    · exact .inl (refused _)
    · exact .inl (.append rfl (fun _ _ same => by cases same))
  | checkEnvironment id request =>
    simp only [step] at stepped
    split_ifs at stepped
    split at stepped <;> obtain rfl := Option.some.inj stepped
    · exact .inl (.append rfl (fun _ _ same => by cases same))
    · exact .inl (refused _)
  | checkImport name =>
    simp only [step] at stepped
    split_ifs at stepped <;> obtain rfl := Option.some.inj stepped
    · exact .inl (refused _)
    · exact .inl (.append rfl (fun _ _ same => by cases same))
  | enter index input =>
    simp only [step] at stepped
    cases ready : (s.inflight[index]?).bind (Frame.commit input) with
    | none => simp [ready] at stepped
    | some commit =>
      obtain ⟨frame, there, committed⟩ := Option.bind_eq_some_iff.mp ready
      simp only [ready] at stepped
      split_ifs at stepped with blocked
      simp only [Bool.or_eq_true, Bool.not_eq_true', not_or, Bool.not_eq_true,
        Bool.not_eq_false] at blocked
      exact Option.some.inj stepped ▸
        entered blocked.1 blocked.2 (.handler index input frame commit there committed)
  | prepare index event =>
    simp only [step] at stepped
    split at stepped
    · rename_i job there
      split at stepped
      · cases stepped
      · obtain rfl := Option.some.inj stepped
        refine .inl (.of_frames rfl rfl (fun _ known => known) ?_ (fun ops reply member => ?_))
        · change (s.inflight.set index _).flatMap Frame.writes = _
          rw [writes_set there, writes_split there]
          rfl
        · exact (List.mem_or_eq_of_mem_set member).resolve_right (fun same => by cases same)
      · obtain rfl := Option.some.inj stepped
        exact .inl (.of_frames rfl rfl (fun _ known => known) (writes_eraseIdx_idle there rfl)
          (fun _ _ member => (List.eraseIdx_sublist _ _).subset member))
    · cases stepped
  | op index succeeds => exact absurd rfl (other index succeeds)
  | uploadWorkingDir digest body =>
    simp only [step] at stepped
    split_ifs at stepped
    exact .inl (Option.some.inj stepped ▸
      .of_frames rfl rfl (fun _ known => known) rfl (fun _ _ member => member))
  | prune now =>
    obtain rfl := Option.some.inj stepped
    refine .inl ⟨rfl, rfl, fun id => ?_, fun _ known => known, fun _ _ member => member⟩
    cases done : Scraperack.prune s.database now none with
    | none => exact .inl (by simp)
    | some next => simpa [Kept, done] using prune_get done id
  | updateSettings retentionHours maxStorageBytes =>
    simp only [step] at stepped
    split_ifs at stepped
    exact .inl (Option.some.inj stepped ▸
      .of_frames rfl rfl (fun _ known => known) rfl (fun _ _ member => member))
  | restart fresh now => cases same

end

/-- The execution is not in memory, and nothing is to be written for it. -/
structure Reserved (s : System) (id : Uuid) : Prop where
  absent : s.cluster.executions.get id = none
  unwritten : s.unwritten id = []
  waits : ∀ row, s.database.rows.get id = some row → row.status.terminal = false
  issued : id ∈ s.issued

/-- Memory, the writes to come and the rows fit together. -/
structure RowsFollow (s : System) : Prop where
  recorded : ∀ id, Recorded (s.cluster.executions.get id) (s.unwritten id) (s.database.rows.get id)
  issued : ∀ id, id ∉ s.issued → s.unwritten id = [] ∧ s.database.rows.get id = none
  reserved : ∀ ops reply op id, Frame.running ops reply ∈ s.inflight → op ∈ ops →
    op.reserves = some id →
    (ops = [op] ∧ op.needsLock = true ∨ ops = [op, .unlock]) ∧ s.Reserved id
  completing : ∀ ops reply execution, Frame.running ops reply ∈ s.inflight →
    Op.completeExecution execution ∈ ops → execution.status.terminal = true

theorem RowsFollow.calm {s t : System} (follow : RowsFollow s)
    (calm : Calm s t) : RowsFollow t := by
  have same (id : Uuid) : t.unwritten id = s.unwritten id := by
    rw [unwritten, calm.writes, unwritten]
  refine ⟨fun id => ?_, fun id new => ?_, fun ops reply op id member inside reserves => ?_,
    fun ops reply execution member => follow.completing ops reply execution
      (calm.frames ops reply member)⟩
  · rw [calm.cluster, same]
    exact (follow.recorded id).kept (calm.rows id)
  · obtain ⟨nothing, none⟩ := follow.issued id (fun known => new (calm.issued id known))
    exact ⟨(same id).trans nothing, (calm.rows id).none none⟩
  · obtain ⟨shape, held⟩ := follow.reserved ops reply op id
      (calm.frames ops reply member) inside reserves
    exact ⟨shape, by rw [calm.cluster]; exact held.absent, (same id).trans held.unwritten,
      (calm.rows id).waits held.waits, calm.issued id held.issued⟩

/-- A handler that is about to create or remove a row holds the lock. -/
theorem RowsFollow.holds {s : System} (follow : RowsFollow s) {ops : List Op} {reply : Reply}
    (member : Frame.running ops reply ∈ s.inflight) {op : Op} (inside : op ∈ ops) {id : Uuid}
    (reserves : op.reserves = some id) : (Frame.running ops reply).holdsLock = true := by
  obtain ⟨⟨rfl, locks⟩ | rfl, -⟩ := follow.reserved ops reply op id member inside reserves
  · simp [Frame.holdsLock, locks]
  · simp [Frame.holdsLock, Op.needsLock]

/-- While the lock is free there is none. -/
theorem RowsFollow.unreserved {s : System} (follow : RowsFollow s) (free : s.locked = false)
    {ops : List Op}
    {reply : Reply} (member : Frame.running ops reply ∈ s.inflight) {op : Op} (inside : op ∈ ops) :
    op.reserves = none := by
  by_contra reserved
  obtain ⟨id, reserves⟩ := Option.ne_none_iff_exists'.mp reserved
  exact List.any_eq_false.mp free _ member (follow.holds member inside reserves)

/-- Beside a handler that is about to insert a row there is none. -/
theorem RowsFollow.alone {s : System} (follow : RowsFollow s) (sound : Sound s) {index : Nat}
    {execution : Execution}
    {secrets : Bytes} {queue : Bool} {rest : List Op} {before : Reply}
    (there : s.inflight[index]? =
      some (.running (.insertExecution execution secrets queue :: rest) before))
    {next : Frame} {ops : List Op} {reply : Reply}
    (member : Frame.running ops reply ∈ s.inflight.set index next)
    {op : Op} (inside : op ∈ ops) {id : Uuid} (reserves : op.reserves = some id) :
    Frame.running ops reply = next := by
  obtain ⟨position, found⟩ := List.getElem?_of_mem member
  by_cases own : position = index
  · subst own
    rw [List.getElem?_set_self (List.getElem?_eq_some_iff.mp there).1] at found
    exact (Option.some.inj found).symm
  · rw [List.getElem?_set_ne (fun same => own same.symm)] at found
    exact absurd (unique_of_countP sound.once found there
      (follow.holds (List.mem_of_getElem? found) inside reserves) rfl) own

section
variable [Crates]

/-- A section makes a new execution's row its only call, and no section deletes a row. -/
theorem reserves_of_run {c : Cluster} {commit : Commit} {result : Section}
    (ran : commit.run c = .ok result)
    {op : Op} (member : op ∈ result.ops) {id : Uuid} (reserves : op.reserves = some id) :
    op.inserts = true ∧ result.cluster = c ∧ result.ops = [op] ∧ commit.issues = [id] := by
  cases op with
  | insertExecution execution secrets queue =>
    obtain rfl := Option.some.inj reserves
    obtain ⟨same, only, issues, -⟩ := insert_of_run ran member
    exact ⟨rfl, same, only, issues⟩
  | deleteExecution gone =>
    cases Commit.ending ran with
    | saved _ ops => simp [ops] at member
    | scheduled | unchanged | restartPanicked | restarted | updated | createPanicked | workPanicked | worked |
      completed | created => simp [scheduleAndSave, finishEnvironment, panicSection] at member
    | deletedEnvironment => simp at member
  | _ => cases reserves

/-- An execution that a section completes is over. -/
theorem completing_of_run {c : Cluster} {commit : Commit} {result : Section}
    (ran : commit.run c = .ok result)
    {execution : Execution} (member : Op.completeExecution execution ∈ result.ops) :
    execution.status.terminal = true := by
  cases Commit.ending ran with
  | saved _ ops => simp [ops] at member
  | scheduled | unchanged | restartPanicked | restarted | updated | createPanicked | workPanicked | worked |
    created => simp [scheduleAndSave, finishEnvironment, panicSection] at member
  | deletedEnvironment => simp at member
  | completed node request now before present placed =>
    simp only [List.mem_cons, reduceCtorEq, Op.completeExecution.injEq, List.not_mem_nil, or_false,
      false_or] at member
    exact member ▸ terminal_finalStatus request

/-- After a section the rows still follow. -/
theorem RowsFollow.performed {s t : System} {commit : Commit} {result : Section}
    (follow : RowsFollow s)
    (sound : Sound s) (seated : Seated s.cluster) (orderly : Orderly t.cluster)
    (performed : Performed s t commit result) : RowsFollow t := by
  have appended (id : Uuid) : t.unwritten id = s.unwritten id ++ result.writesFor id := by
    rw [unwritten, performed.writes, List.filter_append]
    rfl
  have written (id : Uuid) : Written s.cluster result id :=
    (Commit.ending performed.ran).written (fits_of_allows performed.allowed) (.inl seated)
  have new {id : Uuid} (unknown : id ∉ s.issued) : s.cluster.executions.get id = none := by
    by_contra present
    obtain ⟨execution, present⟩ := Option.ne_none_iff_exists'.mp present
    exact unknown (sound.issued id execution present)
  refine ⟨fun id => ?_, fun id unknown => ?_, fun ops reply op id member inside reserves => ?_,
    fun ops reply execution member inside => ?_⟩
  · rw [performed.cluster, performed.rows, appended]
    refine (follow.recorded id).afterSection (written id) (fun execution held => ?_)
    have active := orderly.active id execution (by rw [performed.cluster]; exact held)
    simpa using active
  · rw [performed.issued, List.mem_append, not_or] at unknown
    obtain ⟨nothing, none⟩ := follow.issued id unknown.2
    rw [appended, nothing, performed.rows]
    refine ⟨?_, none⟩
    cases written id with
    | nothing none => exact none
    | copies before after present | completion before after present =>
      rw [new unknown.2] at present
      cases present
  · rcases performed.frames ops reply member with before | rfl
    · rw [follow.unreserved performed.free before inside] at reserves
      cases reserves
    · obtain ⟨inserts, same, only, issues⟩ := reserves_of_run performed.ran inside reserves
      have allowed := performed.allowed
      simp only [allows, Bool.and_eq_true, issues, List.all_cons, List.all_nil, Bool.and_true,
        decide_eq_true_eq] at allowed
      have unknown : id ∉ s.issued := allowed.1.1
      obtain ⟨nothing, none⟩ := follow.issued id unknown
      cases op with
      | insertExecution execution secrets queue =>
        refine ⟨.inl ⟨only, rfl⟩, ?_, ?_, ?_, ?_⟩
        · rw [performed.cluster, same]
          exact new unknown
        · rw [appended, nothing, Section.writesFor, only]
          rfl
        · intro row there
          rw [performed.rows, none] at there
          cases there
        · rw [performed.issued, issues]
          exact List.mem_cons_self
      | _ => cases inserts
  · rcases performed.frames ops reply member with before | rfl
    · exact follow.completing ops reply execution before inside
    · exact completing_of_run performed.ran inside

end

/-! The writes to come of one execution, around the handler at an index. -/

/-- Those of the handlers before it. -/
def ahead (s : System) (index : Nat) (id : Uuid) : List Execution :=
  ((s.inflight.take index).flatMap Frame.writes).filter (fun execution => execution.id = id)

/-- Those of the handlers after it. -/
def behind (s : System) (index : Nat) (id : Uuid) : List Execution :=
  ((s.inflight.drop (index + 1)).flatMap Frame.writes).filter (fun execution => execution.id = id)

theorem unwritten_split {s : System} {index : Nat} {frame : Frame}
    (there : s.inflight[index]? = some frame) (id : Uuid) : s.unwritten id =
      s.ahead index id ++
        (frame.writes.filter (fun execution => execution.id = id) ++ s.behind index id) := by
  rw [unwritten, writes_split there, List.filter_append, List.filter_append, ahead, behind]

theorem unwritten_set {s t : System} {index : Nat} {frame next : Frame}
    (there : s.inflight[index]? = some frame) (inflight : t.inflight = s.inflight.set index next)
    (id : Uuid) : t.unwritten id = s.ahead index id ++
      (next.writes.filter (fun execution => execution.id = id) ++ s.behind index id) := by
  rw [unwritten, inflight, writes_set there, List.filter_append, List.filter_append, ahead, behind]

theorem unwritten_eraseIdx {s t : System} {index : Nat}
    (inflight : t.inflight = s.inflight.eraseIdx index) (id : Uuid) :
    t.unwritten id = s.ahead index id ++ s.behind index id := by
  rw [unwritten, inflight, writes_eraseIdx, List.filter_append, ahead, behind]

/-- A call in its turn finds no earlier write for an execution that it writes. -/
theorem ahead_eq_nil {s : System} {index : Nat} {writes : List Execution}
    (turn : s.overtakes index writes = false) {id : Uuid}
    (some : writes.filter (fun execution => execution.id = id) ≠ []) : s.ahead index id = [] := by
  obtain ⟨write, member⟩ := List.exists_mem_of_ne_nil _ some
  obtain ⟨member, own⟩ := List.mem_filter.mp member
  refine List.filter_eq_nil_iff.mpr (fun execution before same => ?_)
  have apart := List.any_eq_false.mp turn execution before
  simp only [Bool.not_eq_true, List.any_eq_false, decide_eq_true_eq] at apart own same
  exact apart write member (own.trans same.symm)

/-- What a call in its turn writes for an execution comes first of what is to be written for it. -/
theorem unwritten_advanced {s t : System} {index : Nat} {op : Op} {rest : List Op}
    {before after : Reply} (there : s.inflight[index]? = some (.running (op :: rest) before))
    (turn : s.overtakes index op.writes = false)
    (inflight : t.inflight = s.inflight.set index (.running rest after)) (id : Uuid) :
    op.writes.filter (fun execution => execution.id = id) = [] ∧ t.unwritten id = s.unwritten id ∨
      op.writes.filter (fun execution => execution.id = id) ≠ [] ∧
        s.unwritten id =
          op.writes.filter (fun execution => execution.id = id) ++ t.unwritten id := by
  have was := unwritten_split there id
  have now := unwritten_set there inflight id
  rw [show (Frame.running (op :: rest) before).writes =
    op.writes ++ (Frame.running rest after).writes from List.flatMap_cons,
    List.filter_append, List.append_assoc] at was
  by_cases none : op.writes.filter (fun execution => execution.id = id) = []
  · rw [none, List.nil_append] at was
    exact .inl ⟨none, now.trans was.symm⟩
  · rw [ahead_eq_nil turn none, List.nil_append] at was now
    exact .inr ⟨none, by rw [was, now]⟩

/-- A handler makes its next call, which writes what it has to write in its turn. -/
theorem RowsFollow.advanced {s t : System} {index : Nat} {op : Op} {rest : List Op}
    {before after : Reply}
    (follow : RowsFollow s) (there : s.inflight[index]? = some (.running (op :: rest) before))
    (turn : s.overtakes index op.writes = false) (cluster : t.cluster = s.cluster)
    (issued : t.issued = s.issued)
    (inflight : t.inflight = s.inflight.set index (.running rest after))
    (kept : ∀ id, op.writes.filter (fun execution => execution.id = id) = [] →
      Kept s.database.rows t.database.rows id ∨ op = .deleteExecution id ∧
        t.database.rows.get id = none)
    (saved : ∀ id execution, (op.copies.filter (fun execution => execution.id = id)).getLast? =
      some execution →
      ∃ row, t.database.rows.get id = some row ∧ row.Records execution) : RowsFollow t := by
  have turns := unwritten_advanced there turn inflight
  have reserved {id : Uuid} (held : s.Reserved id) : t.Reserved id := by
    have nothing := held.unwritten
    refine ⟨by rw [cluster]; exact held.absent, ?_, ?_, issued ▸ held.issued⟩
    · rcases turns id with ⟨-, same⟩ | ⟨-, split⟩
      · exact same.trans nothing
      · rw [nothing] at split
        exact (List.append_eq_nil_iff.mp split.symm).2
    · rcases turns id with ⟨none, -⟩ | ⟨some, split⟩
      · rcases kept id none with kept | ⟨-, gone⟩
        · exact kept.waits held.waits
        · intro row found
          rw [gone] at found
          cases found
      · rw [nothing] at split
        exact absurd (List.append_eq_nil_iff.mp split.symm).1 some
  have present := List.mem_of_getElem? there
  refine ⟨fun id => ?_, fun id unknown => ?_, fun ops reply other id member inside reserves => ?_,
    fun ops reply execution member inside => ?_⟩
  · rw [cluster]
    have recorded := follow.recorded id
    rcases turns id with ⟨none, same⟩ | ⟨some, split⟩
    · rw [same]
      rcases kept id none with kept | ⟨rfl, -⟩
      · exact recorded.kept kept
      · obtain ⟨-, held⟩ := follow.reserved _ _ _ id present List.mem_cons_self rfl
        rw [held.absent, held.unwritten]
        exact .absent _
    · rw [split] at recorded
      cases op with
      | completeExecution execution =>
        obtain ⟨write, member⟩ := List.exists_mem_of_ne_nil _ some
        obtain rfl := List.mem_singleton.mp (List.mem_filter.mp member).1
        obtain ⟨gone, ends⟩ := recorded.completion member
          (follow.completing _ _ _ present List.mem_cons_self)
        rw [gone, ends]
        exact .absent _
      | _ =>
        obtain ⟨found, stored, records⟩ := saved id _ (List.getLast?_eq_some_getLast some)
        rw [stored]
        exact recorded.saved (List.getLast?_eq_some_getLast some) records
  · rw [issued] at unknown
    obtain ⟨nothing, none⟩ := follow.issued id unknown
    rcases turns id with ⟨idle, same⟩ | ⟨some, split⟩
    · refine ⟨same.trans nothing, ?_⟩
      rcases kept id idle with kept | ⟨-, gone⟩
      · exact kept.none none
      · exact gone
    · rw [nothing] at split
      exact absurd (List.append_eq_nil_iff.mp split.symm).1 some
  · rw [inflight] at member
    rcases List.mem_or_eq_of_mem_set member with before | new
    · obtain ⟨shape, held⟩ := follow.reserved ops reply other id before inside reserves
      exact ⟨shape, reserved held⟩
    · obtain ⟨rfl, rfl⟩ := Frame.running.inj new
      obtain ⟨⟨shape, -⟩ | shape, -⟩ := follow.reserved _ _ other id present
        (List.mem_cons_of_mem _ inside) reserves
      · rw [(List.cons.inj shape).2] at inside
        cases inside
      · rw [(List.cons.inj shape).2] at inside
        obtain rfl := List.mem_singleton.mp inside
        cases reserves
  · rw [inflight] at member
    rcases List.mem_or_eq_of_mem_set member with before | new
    · exact follow.completing ops reply execution before inside
    · obtain ⟨rfl, rfl⟩ := Frame.running.inj new
      exact follow.completing _ _ execution present (List.mem_cons_of_mem _ inside)

/-- A handler that fails with no copies left to save takes no change of memory with it. -/
theorem RowsFollow.failed {s : System} {index : Nat} {ops : List Op} {before : Reply}
    (follow : RowsFollow s)
    (there : s.inflight[index]? = some (.running ops before))
    (bare : ops.all (fun op => op.copies.isEmpty) = true) (reply : Reply) :
    RowsFollow (s.answer (s.inflight.eraseIdx index) reply) := by
  have present := List.mem_of_getElem? there
  have completions (id : Uuid) (execution : Execution)
      (member : execution ∈ (Frame.running ops before).writes.filter (fun execution =>
        execution.id = id)) :
      execution.status.terminal = true := by
    rcases mem_writes (List.mem_filter.mp member).1 with ⟨op, inside, copies⟩ | completes
    · have none := List.all_eq_true.mp bare op inside
      rw [List.isEmpty_iff.mp none] at copies
      cases copies
    · exact follow.completing _ _ execution present completes
  have now (id : Uuid) : (s.answer (s.inflight.eraseIdx index) reply).unwritten id =
      s.ahead index id ++ s.behind index id := unwritten_eraseIdx rfl id
  have nothing {id : Uuid} (before : s.unwritten id = []) :
      (s.answer (s.inflight.eraseIdx index) reply).unwritten id = [] := by
    rw [unwritten_split there, List.append_eq_nil_iff, List.append_eq_nil_iff] at before
    rw [now, before.1, before.2.2]
    rfl
  have fewer {frame : Frame} (member : frame ∈ s.inflight.eraseIdx index) : frame ∈ s.inflight :=
    (List.eraseIdx_sublist _ _).subset member
  refine ⟨fun id => ?_, fun id unknown => ?_, fun ops reply op id member inside reserves => ?_,
    fun ops reply execution member => follow.completing ops reply execution (fewer member)⟩
  · have recorded := follow.recorded id
    rw [unwritten_split there, ← List.append_assoc] at recorded
    rw [now]
    exact recorded.dropped (completions id)
  · obtain ⟨before, none⟩ := follow.issued id unknown
    exact ⟨nothing before, none⟩
  · obtain ⟨shape, held⟩ := follow.reserved ops reply op id (fewer member) inside reserves
    exact ⟨shape, held.absent, nothing held.unwritten, held.waits, held.issued⟩

/-- What `create_execution` leaves behind concerns the new execution alone. -/
theorem admitExecution_written (execution : Execution) (queue : Bool) (c : Cluster) :
    (∀ id, id ≠ execution.id →
      (admitExecution execution queue c).cluster.executions.get id = c.executions.get id) ∧
    ((∃ copy, (admitExecution execution queue c).ops = [.saveExecution copy, .unlock] ∧
      copy.id = execution.id ∧
        (admitExecution execution queue c).cluster.executions.get execution.id = some copy) ∨
      (admitExecution execution queue c).ops = [.deleteExecution execution.id, .unlock] ∧
        (admitExecution execution queue c).cluster.executions.get execution.id = none) := by
  have stored : (c.executions.insert execution).get execution.id = some execution :=
    Keyed.get_insert_self _ _
  have others {id : Uuid} (other : id ≠ execution.id) :
      (c.executions.insert execution).get id = c.executions.get id := Keyed.get_insert_ne _ other
  unfold admitExecution
  dsimp only
  split
  · rename_i next scheduled
    obtain ⟨placed, pool, node, own, choice, rfl⟩ := Cluster.schedule_cases scheduled
    refine ⟨fun id other => ?_,
      .inl ⟨{ execution with node := some node.id, status := .assigned }, ?_, rfl, ?_⟩⟩
    · rw [Cluster.place_get, if_neg (own ▸ other)]
      exact others other
    · simp [Cluster.place_get, own, stored]
    · simp [Cluster.place_get, own, stored]
  · split_ifs
    · exact ⟨fun _ other => others other, .inl ⟨execution, rfl, rfl, stored⟩⟩
    · refine ⟨fun id other => ?_, .inr ⟨rfl, Keyed.get_erase_self _ _⟩⟩
      exact (Keyed.get_erase_ne _ other).trans (others other)

/-- The row of a new execution is in the database before the execution is in memory. -/
theorem RowsFollow.inserted {s t : System} {index : Nat} {execution : Execution}
    {secrets : Bytes} {queue : Bool}
    {rest ops : List Op} {before after : Reply} (follow : RowsFollow s) (sound : Sound s)
    (there : s.inflight[index]? =
      some (.running (.insertExecution execution secrets queue :: rest) before))
    (inflight : t.inflight = s.inflight.set index (.running ops after))
    (issued : t.issued = s.issued)
    (memory : ∀ id, id ≠ execution.id → t.cluster.executions.get id = s.cluster.executions.get id)
    (rows : ∀ id, id ≠ execution.id → Kept s.database.rows t.database.rows id)
    (waits : ∀ row, t.database.rows.get execution.id = some row → row.status.terminal = false)
    (outcome : (∃ copy, ops = [.saveExecution copy, .unlock] ∧ copy.id = execution.id ∧
        copy.status.terminal = false ∧ t.cluster.executions.get execution.id = some copy) ∨
      (ops = [.deleteExecution execution.id, .unlock] ∨ ops = []) ∧
        t.cluster.executions.get execution.id = none) : RowsFollow t := by
  have present := List.mem_of_getElem? there
  obtain ⟨shape, held⟩ := follow.reserved _ _ _ execution.id present List.mem_cons_self rfl
  have bare : (Frame.running (.insertExecution execution secrets queue :: rest) before).writes =
    [] := by
    rcases shape with ⟨shape, -⟩ | shape <;> rw [shape] <;> rfl
  have was := unwritten_split there
  have now := unwritten_set there inflight
  simp only [bare, List.filter_nil, List.nil_append] at was
  -- The handler has nothing to write but a copy of the new execution.
  have writes (id : Uuid) (other : id ≠ execution.id) :
      (Frame.running ops after).writes.filter (fun execution => execution.id = id) = [] := by
    rcases outcome with ⟨copy, rfl, own, -⟩ | ⟨rfl | rfl, -⟩
    · simp [Frame.writes, Op.writes, Op.copies, own, Ne.symm other]
    · rfl
    · rfl
  have others {id : Uuid} (other : id ≠ execution.id) : t.unwritten id = s.unwritten id := by
    rw [now, was, writes id other, List.nil_append]
  have own : t.unwritten execution.id =
      (Frame.running ops after).writes.filter (fun other => other.id = execution.id) := by
    have nothing := held.unwritten
    rw [was, List.append_eq_nil_iff] at nothing
    rw [now, nothing.1, nothing.2, List.nil_append, List.append_nil]
  refine ⟨fun id => ?_, fun id unknown => ?_, fun ops' reply op id member inside reserves => ?_,
    fun ops' reply completed member inside => ?_⟩
  · by_cases other : id = execution.id
    · subst other
      rw [own]
      rcases outcome with ⟨copy, rfl, same, active, stored⟩ | ⟨rfl | rfl, gone⟩
      · rw [stored, show (Frame.running [.saveExecution copy, .unlock] after).writes.filter _ =
          [copy] by
          simp [Frame.writes, Op.writes, Op.copies, same]]
        refine ⟨fun _ equal => .inl equal, fun other equal => Option.some.inj equal ▸ active,
          fun _ early => (by cases early), fun row found ended => ?_⟩
        rw [waits row found] at ended
        cases ended
      · rw [gone]
        exact .absent _
      · rw [gone]
        exact .absent _
    · rw [memory id other, others other]
      exact (follow.recorded id).kept (rows id other)
  · rw [issued] at unknown
    have other : id ≠ execution.id := fun same => unknown (same ▸ held.issued)
    obtain ⟨nothing, none⟩ := follow.issued id unknown
    exact ⟨(others other).trans nothing, (rows id other).none none⟩
  · rw [inflight] at member
    obtain ⟨rfl, rfl⟩ := Frame.running.inj (follow.alone sound there member inside reserves)
    rcases outcome with ⟨copy, rfl, -⟩ | ⟨rfl | rfl, gone⟩
    · simp only [List.mem_cons, List.not_mem_nil, or_false] at inside
      rcases inside with rfl | rfl <;> cases reserves
    · simp only [List.mem_cons, List.not_mem_nil, or_false] at inside
      rcases inside with rfl | rfl
      · obtain rfl := Option.some.inj reserves
        exact ⟨.inr rfl, gone, own.trans rfl, waits, issued ▸ held.issued⟩
      · cases reserves
    · cases inside
  · rw [inflight] at member
    rcases List.mem_or_eq_of_mem_set member with before | new
    · exact follow.completing ops' reply completed before inside
    · obtain ⟨rfl, rfl⟩ := Frame.running.inj new
      rcases outcome with ⟨copy, rfl, -⟩ | ⟨rfl | rfl, -⟩ <;> simp at inside

section
variable [Crates]

/-- A call of a handler keeps the rows in step, as long as calls come in order. -/
theorem RowsFollow.op {s t : System} {index : Nat} {succeeds : Bool} (follow : RowsFollow s)
    (sound : Sound s)
    (orderly : Orderly t.cluster) (ordered : s.inOrder (.op index succeeds) = true)
    (stepped : s.step (.op index succeeds) = some t) : RowsFollow t := by
  simp only [step] at stepped
  split at stepped
  · rename_i reply there
    exact Option.some.inj stepped ▸ follow.calm (.eraseIdx there rfl reply)
  · rename_i op rest reply there
    simp only [inOrder, there] at ordered
    cases succeeds with
    | true =>
      simp only [callOp, ↓reduceIte] at stepped
      cases done : s.runOp rest reply op with
      | none =>
        simp only [done, Option.isSome_none, Bool.and_false, Bool.false_eq_true,
          ↓reduceIte] at stepped ordered
        exact Option.some.inj stepped ▸ follow.failed there ordered _
      | some outcome =>
        obtain ⟨next, ops, after⟩ := outcome
        simp only [done, Option.isSome_some, Bool.and_self, ↓reduceIte,
          Bool.not_eq_true'] at stepped ordered
        obtain rfl := Option.some.inj stepped
        cases plain : op.inserts with
        | false =>
          obtain ⟨cluster, issued, -, rfl⟩ := runOp_frame plain done
          exact follow.advanced there ordered cluster issued rfl
            (fun _ other => runOp_kept plain done other) (fun _ _ last => runOp_records done last)
        | true =>
          cases op with
          | insertExecution execution secrets queue =>
            obtain ⟨⟨absent, queued, -⟩, -⟩ := sound.inserting ⟨secrets, queue, rest, reply, there⟩
            have active : execution.status.terminal = false := by
              rw [queued]
              rfl
            simp only [runOp, Option.map_eq_some_iff] at done
            obtain ⟨⟨database, accepted⟩, stored, outcome⟩ := done
            obtain ⟨others, rejected, inserted⟩ := insertExecution_get stored
            cases accepted with
            | true =>
              simp only [↓reduceIte, Prod.mk.injEq] at outcome
              obtain ⟨rfl, rfl, rfl⟩ := outcome
              obtain ⟨memory, written⟩ := admitExecution_written execution queue s.cluster
              refine follow.inserted sound there rfl rfl memory others (fun row found => ?_) ?_
              · obtain ⟨own, there, records⟩ := inserted rfl active
                obtain rfl := Option.some.inj (there.symm.trans found)
                rw [records.status, active]
              · rcases written with ⟨copy, only, own, holds⟩ | ⟨only, gone⟩
                · refine .inl ⟨copy, only, own, ?_, holds⟩
                  simpa using orderly.active _ copy holds
                · exact .inr ⟨.inl only, gone⟩
            | false =>
              simp only [Bool.false_eq_true, ↓reduceIte, Prod.mk.injEq] at outcome
              obtain ⟨rfl, rfl, rfl⟩ := outcome
              refine follow.inserted sound there rfl rfl (fun _ _ => rfl) others
                (fun row found => ?_)
                (.inr ⟨.inr rfl, absent⟩)
              rw [show database.rows.get execution.id = none from rejected rfl] at found
              cases found
          | _ => cases plain
    | false =>
      simp only [callOp, Bool.false_eq_true, ↓reduceIte, Bool.false_and] at stepped ordered
      cases op with
      | unlock => cases stepped
      | removeArtifact artifact =>
        obtain rfl := Option.some.inj stepped
        exact follow.advanced there (by simp [overtakes, Op.writes, Op.copies]) rfl rfl rfl
          (fun _ _ => .inl (.inl rfl)) (fun _ _ last => by cases last)
      | _ => exact Option.some.inj stepped ▸ follow.failed there ordered _
  · cases stepped

theorem RowsFollow.step {s t : System} {label : Label} (follow : RowsFollow s) (sound : Sound s)
    (seated : Seated s.cluster) (ordered : s.inOrder label = true) (stepped : s.step label = some t)
    (same : restarts label = false) : RowsFollow t := by
  have orderly := sound.orderly_step stepped same
  by_cases calls : ∃ index succeeds, label = .op index succeeds
  · obtain ⟨index, succeeds, rfl⟩ := calls
    exact follow.op sound orderly ordered stepped
  · rcases step_outcome stepped same (fun index succeeds equal =>
      calls ⟨index, succeeds, equal⟩) with
      calm | ⟨commit, result, performed⟩
    · exact follow.calm calm
    · exact follow.performed sound seated orderly performed

/-- The step's transaction prunes the table. -/
def prunes (s : System) : Label → Bool
  | .prune _ => true
  | .op index _ =>
    match s.inflight[index]? with
    | some (.running (op :: _) _) => op.prunes
    | _ => false
  | _ => false

/-- The execution is not in memory and will not be, and no handler has a call for its row. -/
structure Settled (s : System) (id : Uuid) : Prop where
  absent : s.cluster.executions.get id = none
  issued : id ∈ s.issued
  calls : ∀ ops reply op, Frame.running ops reply ∈ s.inflight → op ∈ ops →
    op.reserves ≠ some id ∧ op.writes.filter (fun execution => execution.id = id) = []

omit [Crates] in
/-- An execution whose row is over is settled. -/
theorem RowsFollow.settled {s : System} (follow : RowsFollow s) {id : Uuid} {row : Row}
    (there : s.database.rows.get id = some row)
    (ended : row.status.terminal = true) : Settled s id := by
  obtain ⟨absent, nothing⟩ := (follow.recorded id).ended row there ended
  refine ⟨absent, ?_, fun ops reply op member inside => ⟨fun reserves => ?_, ?_⟩⟩
  · by_contra unknown
    rw [(follow.issued id unknown).2] at there
    cases there
  · have waits := (follow.reserved ops reply op id member inside reserves).2.waits row there
    rw [ended] at waits
    cases waits
  · refine List.filter_eq_nil_iff.mpr (fun execution writes => ?_)
    exact List.filter_eq_nil_iff.mp nothing execution
      (List.mem_flatMap.mpr ⟨_, member, List.mem_flatMap.mpr ⟨op, inside, writes⟩⟩)

/-- A section has nothing to do with an execution that is settled. -/
theorem Settled.section {s : System} {commit : Commit} {result : Section} {id : Uuid}
    (settled : Settled s id)
    (allowed : s.allows commit = true) (ran : commit.run s.cluster = .ok result) :
    result.cluster.executions.get id = none ∧ ∀ op ∈ result.ops,
      op.reserves ≠ some id ∧ op.writes.filter (fun execution => execution.id = id) = [] := by
  have written := (Commit.ending ran).written (fits_of_allows allowed) (.inr settled.absent)
  cases written with
  | copies before after present | completion before after present =>
    rw [settled.absent] at present
    cases present
  | nothing none same =>
    refine ⟨same.trans settled.absent, fun op inside => ⟨fun reserves => ?_, ?_⟩⟩
    · obtain ⟨-, -, -, issues⟩ := reserves_of_run ran inside reserves
      simp only [allows, Bool.and_eq_true, issues, List.all_cons, List.all_nil, Bool.and_true,
        decide_eq_true_eq] at allowed
      exact allowed.1.1 settled.issued
    · refine List.filter_eq_nil_iff.mpr (fun execution writes => ?_)
      exact List.filter_eq_nil_iff.mp none execution (List.mem_flatMap.mpr ⟨op, inside, writes⟩)

/-- Nor has any later step: it leaves the row as it is, or prunes it. -/
theorem Settled.step {s t : System} {label : Label} {id : Uuid} (settled : Settled s id)
    (stepped : s.step label = some t) (same : restarts label = false) :
    Settled t id ∧ (t.database.rows.get id = s.database.rows.get id ∨
      s.prunes label = true ∧ t.database.rows.get id = none) := by
  have calls : ∀ ops reply op, Frame.running ops reply ∈ t.inflight → op ∈ ops →
      op.reserves ≠ some id ∧ op.writes.filter (fun execution => execution.id = id) = [] := by
    intro ops reply op member inside
    cases frame_cases stepped member with
    | stayed _ before => exact settled.calls ops reply op before inside
    | performed commit others result free allowed entered ran =>
      exact (settled.section allowed ran).2 op inside
    | called first rest before after next earlier done =>
      exact settled.calls _ before op earlier (List.mem_cons_of_mem _ inside)
    | admitted execution secrets queue rest before earlier =>
      have other : execution.id ≠ id := fun same =>
        (settled.calls _ before _ earlier List.mem_cons_self).1 (congrArg some same)
      rcases (admitExecution_written execution queue s.cluster).2 with ⟨copy, only, own,
        -⟩ | ⟨only, -⟩ <;>
        simp only [only, List.mem_cons, List.not_mem_nil, or_false] at inside <;>
          rcases inside with rfl | rfl <;>
        simp [Op.reserves, Op.writes, Op.copies, *]
    | rejected => cases inside
    | ignored artifact rest _ earlier =>
        exact settled.calls _ _ op earlier (List.mem_cons_of_mem _ inside)
  have issued := issued_mono stepped settled.issued
  have pruned {after : Keyed Row.id} (kept : Kept s.database.rows after id)
    (prunes : s.prunes label = true) :
      after.get id = s.database.rows.get id ∨ s.prunes label = true ∧ after.get id = none :=
    kept.imp_right (fun gone => ⟨prunes, gone.1⟩)
  -- The insertion of a row is for another execution.
  have inserted {index : Nat} {execution : Execution} {secrets : Bytes} {queue accepted : Bool}
    {rest : List Op}
      {before : Reply} {database : Database}
      (there : s.inflight[index]? =
        some (.running (.insertExecution execution secrets queue :: rest) before))
      (stored : s.database.insertExecution execution secrets = some (database, accepted)) :
      id ≠ execution.id ∧ Kept s.database.rows database.rows id := by
    have other : id ≠ execution.id := fun same =>
      (settled.calls _ _ _ (List.mem_of_getElem? there) List.mem_cons_self).1
        (congrArg some same.symm)
    exact ⟨other, (insertExecution_get stored).1 id other⟩
  cases step_cases stepped with
  | performed _ commit others result free allowed entered ran =>
    exact ⟨⟨(settled.section allowed ran).1, issued, calls⟩, .inl rfl⟩
  | called index op rest before after next there plain done =>
    obtain ⟨unreserved, idle⟩ := settled.calls _ _ op
      (List.mem_of_getElem? there) List.mem_cons_self
    refine ⟨⟨(congrArg (fun c : Cluster => c.executions.get id) (runOp_frame plain done).1).trans
      settled.absent,
      issued, calls⟩, ?_⟩
    cases prunes : op.prunes with
    | false =>
      rcases runOp_same prunes done idle with same | ⟨rfl, -⟩
      · exact .inl same
      · exact absurd rfl unreserved
    | true =>
      rcases runOp_kept plain done idle with kept | ⟨rfl, -⟩
      · exact pruned kept (by simp [System.prunes, there, prunes])
      · cases prunes
  | admitted index execution secrets queue rest before database there stored =>
    obtain ⟨other, kept⟩ := inserted there stored
    exact ⟨⟨((admitExecution_written execution queue s.cluster).1 id other).trans settled.absent,
      issued, calls⟩,
      pruned kept (by simp [System.prunes, there, Op.prunes])⟩
  | rejected index execution secrets queue rest before database there stored =>
    exact ⟨⟨settled.absent, issued, calls⟩,
      pruned (inserted there stored).2 (by simp [System.prunes, there, Op.prunes])⟩
  | pruned now =>
    refine ⟨⟨settled.absent, issued, calls⟩, ?_⟩
    cases done : Scraperack.prune s.database now none with
    | none => exact .inl (by simp)
    | some next => exact pruned (prune_get done id) rfl
  | restarted => cases same
  | _ => exact ⟨⟨settled.absent, issued, calls⟩, .inl rfl⟩

end

/-- A process that begins to accept requests, with the executions that it has loaded and the rows
it has loaded them from. -/
structure Loaded (s : System) : Prop where
  started : Started s
  recorded : ∀ id execution, s.cluster.executions.get id = some execution →
    ∃ row, s.database.rows.get id = some row ∧ row.Records execution
  ended : ∀ id row, s.database.rows.get id = some row → row.status.terminal = true →
    s.cluster.executions.get id = none
  issued : ∀ id row, s.database.rows.get id = some row → id ∈ s.issued

theorem Loaded.seated {s : System} (loaded : Loaded s) : Seated s.cluster := by
  intro id execution present on
  rw [(loaded.started.waiting id execution present).1] at on
  cases on

theorem Loaded.follow {s : System} (loaded : Loaded s) : RowsFollow s := by
  have nothing (id : Uuid) : s.unwritten id = [] := by rw [unwritten, loaded.started.quiet]; rfl
  refine ⟨fun id => ⟨fun execution held => .inr ⟨nothing id, loaded.recorded id execution held⟩,
      fun execution held => ?_, fun execution early => ?_, fun row there ended =>
        ⟨loaded.ended id row there ended, nothing id⟩⟩,
    fun id unknown => ⟨nothing id, ?_⟩, fun ops reply op id member => ?_,
      fun ops reply execution member => ?_⟩
  · rw [(loaded.started.waiting id execution held).1]
    rfl
  · rw [nothing] at early
    cases early
  · by_contra present
    obtain ⟨row, present⟩ := Option.ne_none_iff_exists'.mp present
    exact unknown (loaded.issued id row present)
  · rw [loaded.started.quiet] at member
    cases member
  · rw [loaded.started.quiet] at member
    cases member

/-- What `serve` makes of the rows: those of executions that were not over are queued again and
loaded, and the others stay where they are until they are pruned. -/
theorem loaded_of_restart [Crates] {s t : System} {fresh : String → Uuid} {now : Nat}
    (stepped : s.step (.restart fresh now) = some t)
    (bare : (s.database.cluster.getD Cluster.empty).executions = ∅)
    (known : ∀ id row, s.database.rows.get id = some row → id ∈ s.issued) : Loaded t := by
  simp only [System.step] at stepped
  split_ifs at stepped
  obtain ⟨⟨cluster, database⟩, served, rfl⟩ := Option.map_eq_some_iff.mp stepped
  simp only [serve, Option.map_eq_some_iff, Prod.mk.injEq, Option.getD_none] at served
  obtain ⟨pruned, kept, rfl, rfl⟩ := served
  have left (id : Uuid) : Kept s.database.requeueRows.rows pruned.rows id := prune_get kept id
  have loaded (id : Uuid) (execution : Execution)
      (held : (s.database.loadActiveExecutions.2.foldl Keyed.insert
        (migrateLegacy fresh (s.database.cluster.getD Cluster.empty)).executions).get id =
          some execution) :
      ∃ row, pruned.rows.get id = some row ∧ row.Records execution ∧ row.status = .queued ∧
        row.node = none := by
    have own := Keyed.key_of_get held
    rcases get_foldl_insert _ held with member | before
    · simp only [Database.loadActiveExecutions, List.mem_map, List.mem_filter,
        decide_eq_true_eq] at member
      obtain ⟨row, ⟨member, queued⟩, rfl⟩ := member
      have there : s.database.requeueRows.rows.get id = some row :=
        own ▸ (Keyed.mem_values_iff _ _).mp member
      have requeued := there
      simp only [Database.requeueRows, Keyed.get_map, Option.map_eq_some_iff] at requeued
      obtain ⟨old, -, rfl⟩ := requeued
      refine ⟨_, ?_, ⟨rfl, rfl, rfl⟩, queued, requeueRow_node queued⟩
      rcases left id with same | ⟨-, gone, found, ended⟩
      · exact same.trans there
      · obtain rfl := Option.some.inj (there.symm.trans found)
        rw [queued] at ended
        cases ended
    · rw [(migrateLegacy_sizes fresh _).executions bare] at before
      cases before
  have before (id : Uuid) (row : Row) (there : pruned.rows.get id = some row) : id ∈ s.issued := by
    rcases left id with same | ⟨gone, -⟩
    · have requeued : s.database.requeueRows.rows.get id = some row := same.symm.trans there
      simp only [Database.requeueRows, Keyed.get_map, Option.map_eq_some_iff] at requeued
      obtain ⟨old, found, -⟩ := requeued
      exact known id old found
    · rw [gone] at there
      cases there
  refine ⟨⟨rfl, fun id execution held => ?_, fun id execution held => ?_⟩,
    fun id execution held => ?_,
    fun id row there ended => ?_, fun id row there => List.mem_append_right _ (before id row there)⟩
  · obtain ⟨row, -, records, queued, unplaced⟩ := loaded id execution held
    exact ⟨records.status.symm.trans queued, records.node.symm.trans unplaced⟩
  · obtain ⟨row, there, -⟩ := loaded id execution held
    exact List.mem_append_right _ (before id row there)
  · obtain ⟨row, there, records, -⟩ := loaded id execution held
    exact ⟨row, there, records⟩
  · by_contra present
    obtain ⟨execution, present⟩ := Option.ne_none_iff_exists'.mp present
    obtain ⟨found, stored, -, queued, -⟩ := loaded id execution present
    obtain rfl := Option.some.inj (stored.symm.trans there)
    rw [queued] at ended
    cases ended

/-- The first process on a database without executions has nothing to load. -/
theorem Fresh.loaded {s : System} (fresh : Fresh s)
    (bare : ∀ id, s.database.rows.get id = none) : Loaded s := by
  refine ⟨fresh.started, fun id execution present => ?_, fun id row there => ?_,
    fun id row there => ?_⟩
  · rw [fresh.empty] at present
    cases present
  · rw [bare] at there
    cases there
  · rw [bare] at there
    cases there

section
variable [Crates]

/-- The condition on a run: calls come in order, and no environment is deleted together with a
pool that an active execution is in. -/
def Ordered (s : System) (label : Label) : Prop := s.inOrder label = true ∧ s.SparesPool label

instance (s : System) (label : Label) : Decidable (s.Ordered label) :=
  inferInstanceAs (Decidable (_ ∧ _))

theorem Loaded.run {s t : System} (loaded : Loaded s) (run : Run Ordered s t) : RowsFollow t := by
  refine (run.invariant_along (P := fun s =>
    Seated s.cluster ∧ RowsFollow s) ⟨loaded.seated, loaded.follow⟩ ?_).2
  rintro u v label before ⟨seated, follow⟩ ⟨same, ordered, spares⟩ stepped
  have sound := loaded.started.sound.run before
  exact ⟨seated_step sound spares seated stepped same,
    follow.step sound seated ordered stepped same⟩

/-- What holds of a settled execution at one time holds at all later times. -/
theorem Settled.run {t u : System} {id : Uuid} (later : Run (fun _ _ => True) t u)
    (settled : Settled t id) :
    Settled u id ∧ (u.database.rows.get id = t.database.rows.get id ∨
      u.database.rows.get id = none) := by
  refine later.invariant (P := fun u => Settled u id ∧
    (u.database.rows.get id = t.database.rows.get id ∨
      u.database.rows.get id = none)) ⟨settled, .inl rfl⟩ ?_
  rintro v w label ⟨settled, left⟩ ⟨same, -⟩ stepped
  obtain ⟨stays, kept⟩ := settled.step stepped same
  refine ⟨stays, ?_⟩
  rcases kept with kept | ⟨-, gone⟩
  · exact left.imp kept.trans kept.trans
  · exact .inr gone

/-- As long as calls come in order, rows that are over stay as they are until they are pruned, and
while nothing is in flight the rows are what is in memory. -/
theorem results_persist {s t : System} (loaded : Loaded s) (run : Run Ordered s t) :
    (∀ id row, t.database.rows.get id = some row → row.status.terminal = true →
      (∀ u, Run (fun _ _ => True) t u →
        u.database.rows.get id = some row ∨ u.database.rows.get id = none) ∧
      ∀ label u, t.step label = some u → restarts label = false → t.prunes label = false →
        u.database.rows.get id = some row) ∧
    (t.inflight = [] → ∀ id execution, t.cluster.executions.get id = some execution →
      ∃ row, t.database.rows.get id = some row ∧ row.status = execution.status ∧
        row.node = execution.node ∧ row.pool = execution.pool) := by
  have follow := loaded.run run
  refine ⟨fun id row there ended => ⟨fun u later => ?_, fun label u stepped same unpruned => ?_⟩,
    fun quiet id execution held => ?_⟩
  · have ends := (Settled.run later (follow.settled there ended)).2
    rwa [there] at ends
  · rcases ((follow.settled there ended).step stepped same).2 with kept | ⟨prunes, -⟩
    · exact kept.trans there
    · rw [unpruned] at prunes
      cases prunes
  · rcases (follow.recorded id).stored execution held with last | ⟨-, row, there, records⟩
    · rw [unwritten, quiet] at last
      cases last
    · exact ⟨row, there, records.status, records.node, records.pool⟩

end
end System

namespace Demo

/-- The node takes the execution and completes it. -/
def serving (others : Nat) : List Label :=
  .authenticate node "credential" none .nextWork :: .enter others ⟨0, 0, some 8, none⟩ ::
    finish others 3 ++
    .authenticate node "credential" none
      (.completeExecution 8 ⟨some .null, none, none, none, true⟩) ::
      .enter others ⟨1, 0, none, none⟩ :: finish others 4

end Demo

namespace System

theorem loaded_empty : Loaded Demo.empty := fresh_empty.loaded (fun _ => rfl)

/-- One execution is over and another one waits on the node. -/
theorem results_persist_served :
    ∃ t : System, (∃ row, t.database.rows.get 8 = some row ∧ row.status.terminal = true ∧
        ∀ u, @Run Demo.crates (fun _ _ => True) t u →
          u.database.rows.get 8 = some row ∨ u.database.rows.get 8 = none) ∧
      ∃ row, t.database.rows.get 9 = some row ∧ row.status = .assigned := by
  obtain ⟨t, run, shape⟩ := Runs.exists_reaches (@step Demo.crates)
    (fun s label => restarts label = false ∧ @Ordered Demo.crates s label) Demo.empty
    (Demo.assigning ++ Demo.serving 0 ++
      Demo.request 0 (.createExecution 9 ⟨none, some "e", .null, ∅, ∅, true⟩ [] 0) 3)
    (fun t => t.inflight.isEmpty && (t.database.rows.get 8).any (fun row : Row =>
      row.status.terminal) &&
      (t.cluster.executions.get 9).any (fun execution : Execution =>
        decide (execution.status = .assigned)))
    (by decide +kernel)
  simp only [Bool.and_eq_true, Option.any_eq_true, decide_eq_true_eq, List.isEmpty_iff] at shape
  obtain ⟨⟨quiet, row, there, ended⟩, execution, held, assigned⟩ := shape
  obtain ⟨stays, same⟩ := @results_persist Demo.crates _ _ loaded_empty run
  obtain ⟨found, stored, status, -⟩ := same quiet 9 execution held
  exact ⟨t, ⟨row, there, ended, (stays 8 row there ended).1⟩, found, stored, status.trans assigned⟩

/-- A copy that a restart of the environment took is written after the execution was completed. -/
theorem result_erased :
    ¬ ∀ [Crates] (s t u : System), s.Loaded → Run (fun _ _ => True) s t →
      Run (fun _ _ => True) t u →
      ∀ id row, t.database.rows.get id = some row → row.status.terminal = true →
        u.database.rows.get id = some row ∨ u.database.rows.get id = none := by
  intro claim
  obtain ⟨t, run, shape⟩ := Runs.exists_reaches (@step Demo.crates)
    (fun _ label => restarts label = false ∧ True) Demo.empty
    (Demo.assigning ++ [.client (.restartEnvironment 9 Demo.environment), .op 0 true, .op 0 true] ++
      Demo.serving 1)
    (fun t => (t.database.rows.get 8).any (fun row : Row => row.status.terminal) &&
      (@step Demo.crates t (.op 0 true)).any (fun u =>
        (u.database.rows.get 8).any (fun row : Row => !row.status.terminal)))
    (by decide +kernel)
  simp only [Bool.and_eq_true, Option.any_eq_true, Bool.not_eq_true'] at shape
  obtain ⟨⟨row, there, ended⟩, u, stepped, stale, found, active⟩ := shape
  rcases @claim Demo.crates _ _ _ loaded_empty run
    (.single ⟨rfl, trivial⟩ stepped) 8 row there ended with
    same | gone
  · obtain rfl := Option.some.inj (same.symm.trans found)
    rw [ended] at active
    cases active
  · rw [gone] at found
    cases found

end System
end Scraperack
