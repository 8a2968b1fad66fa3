import Scraperack.Dispatch

/-! Requests that fail. No handler undoes what it has changed in memory: when a call to the
database or the cipher fails, the cluster stays as the handler's section has left it. -/

namespace Scraperack

/-- What a handler has changed in memory once its first call has succeeded. -/
def Section.outcome (result : Section) : Cluster :=
  match result.ops with
  | [.insertExecution execution _ queue] => (admitExecution execution queue result.cluster).cluster
  | _ => result.cluster

namespace System

/-- The steps of one handler alone: its own calls, all of which succeed or end it. -/
abbrev Calls [Crates] (index : Nat) : System → System → Prop :=
  Runs.Reaches System.step (fun _ label => label = .op index true)

/-- How far the handler at the end of the line has come: before its insertion, past it, turned away
by it, or done. -/
inductive Underway (others : List Frame) (result : Section) (u : System) : Prop where
  | ahead (reply : Reply) (inserts : ∃ execution secrets queue,
      result.ops = [.insertExecution execution secrets queue])
      (inflight : u.inflight = others ++ [.running result.ops reply])
      (left : u.cluster = result.cluster)
  | past (ops : List Op) (reply : Reply) (plain : ∀ op ∈ ops, op.inserts = false)
      (inflight : u.inflight = others ++ [.running ops reply]) (left : u.cluster = result.outcome)
  | rejected (error : ApiError) (inflight : u.inflight = others ++ [.running [] (.refused error)])
  | done (inflight : u.inflight = others)

theorem getElem?_last (others : List Frame)
    (frame : Frame) : (others ++ [frame])[others.length]? = some frame := by
  simp

theorem set_last (others : List Frame) (frame next : Frame) :
    (others ++ [frame]).set others.length next = others ++ [next] := by
  simp

theorem eraseIdx_last (others : List Frame)
    (frame : Frame) : (others ++ [frame]).eraseIdx others.length = others := by
  simp [List.eraseIdx_append_of_length_le]

theorem admitExecution_plain (execution : Execution) (queue : Bool) (c : Cluster) :
    ∀ op ∈ (admitExecution execution queue c).ops, op.inserts = false := by
  rcases admitExecution_ops execution queue c with ⟨copy, shape⟩ | shape <;>
    simp [shape, Op.inserts]

variable [Crates]

/-- A section either leaves memory as it is and has an insertion as its only call, or has none. -/
theorem inserts_of_run {c : Cluster} {commit : Commit} {result : Section}
    (ran : commit.run c = .ok result) :
    (∃ execution secrets queue, result.ops = [.insertExecution execution secrets queue] ∧
      result.cluster = c) ∨
      (∀ op ∈ result.ops, op.inserts = false) ∧ result.outcome = result.cluster := by
  by_cases inserts : ∃ op ∈ result.ops, op.inserts = true
  · obtain ⟨op, member, inserts⟩ := inserts
    cases op with
    | insertExecution execution secrets queue =>
      obtain ⟨same, only, -⟩ := insert_of_run ran member
      exact .inl ⟨execution, secrets, queue, only, same⟩
    | _ => cases inserts
  · simp only [not_exists, not_and, Bool.not_eq_true] at inserts
    refine .inr ⟨inserts, ?_⟩
    unfold Section.outcome
    split
    · rename_i execution secrets queue only
      have wrong := inserts (.insertExecution execution secrets queue)
        (by rw [only]; exact List.mem_cons_self)
      cases wrong
    · rfl

theorem Underway.step {others : List Frame} {result : Section} {u v : System}
    (underway : Underway others result u)
    (stepped : u.step (.op others.length true) = some v) : Underway others result v := by
  cases underway with
  | ahead reply inserts inflight left =>
    obtain ⟨execution, secrets, queue, only⟩ := inserts
    rw [only] at inflight
    have there : u.inflight[others.length]? =
      some (.running [.insertExecution execution secrets queue] reply) := by
      rw [inflight]
      exact getElem?_last ..
    simp only [System.step, there, callOp, runOp, ↓reduceIte] at stepped
    cases stored : u.database.insertExecution execution secrets with
    | none =>
      simp only [stored, Option.map_none, Option.some.injEq] at stepped
      subst stepped
      exact .done (by rw [answer, inflight]; exact eraseIdx_last ..)
    | some inserted =>
      simp only [stored, Option.map_some] at stepped
      by_cases accepted : inserted.2 = true
      · simp only [accepted, ↓reduceIte, Option.some.injEq] at stepped
        subst stepped
        refine .past _ (admitExecution execution queue u.cluster).reply
          (admitExecution_plain execution queue u.cluster) ?_ ?_
        · simp only [inflight, set_last]
        · simp only [Section.outcome, only, left]
      · simp only [accepted, Bool.false_eq_true, ↓reduceIte, Option.some.injEq] at stepped
        subst stepped
        exact .rejected _ (by rw [inflight]; exact set_last ..)
  | past ops reply plain inflight left =>
    have there : u.inflight[others.length]? = some (.running ops reply) := by
      rw [inflight]
      exact getElem?_last ..
    cases ops with
    | nil =>
      simp only [System.step, there, Option.some.injEq] at stepped
      subst stepped
      exact .done (by rw [answer, inflight]; exact eraseIdx_last ..)
    | cons op rest =>
      simp only [System.step, there, callOp, ↓reduceIte] at stepped
      cases done : u.runOp rest reply op with
      | none =>
        simp only [done, Option.some.injEq] at stepped
        subst stepped
        exact .done (by rw [answer, inflight]; exact eraseIdx_last ..)
      | some outcome =>
        obtain ⟨next, ops, after⟩ := outcome
        simp only [done, Option.some.injEq] at stepped
        subst stepped
        obtain ⟨cluster, -, -, rfl⟩ := runOp_frame (plain op List.mem_cons_self) done
        refine .past ops after (fun op member => plain op (List.mem_cons_of_mem _ member)) ?_ ?_
        · simp only [inflight, set_last]
        · exact cluster.trans left
  | rejected error inflight =>
    have there : u.inflight[others.length]? = some (.running [] (.refused error)) := by
      rw [inflight]
      exact getElem?_last ..
    simp only [System.step, there, Option.some.injEq] at stepped
    subst stepped
    exact .done (by rw [answer, inflight]; exact eraseIdx_last ..)
  | done inflight =>
    have nobody : u.inflight[others.length]? = none := by simp [inflight]
    simp only [System.step, nobody] at stepped
    cases stepped

/-- A call that fails changes nothing in memory. -/
theorem failed_cluster {u v : System} {index : Nat} {op : Op} {rest : List Op} {reply : Reply}
    {succeeds : Bool}
    (there : u.inflight[index]? = some (.running (op :: rest) reply))
    (error : succeeds = false ∨ u.runOp rest reply op = none)
    (stepped : u.step (.op index succeeds) = some v) :
    v.cluster = u.cluster := by
  simp only [System.step, there, callOp] at stepped
  split_ifs at stepped with good
  · rcases error with bad | failed
    · rw [good] at bad
      cases bad
    · simp only [failed, Option.some.injEq] at stepped
      subst stepped
      rfl
  · cases op <;> simp only [reduceCtorEq, Option.some.injEq] at stepped <;> subst stepped <;> rfl

/-- After its section a handler is underway. -/
theorem underway_perform {s : System} {commit : Commit} {others : List Frame} {result : Section}
    (ran : commit.run s.cluster = .ok result) : Underway others result
      (s.perform commit others) := by
  simp only [perform, ran]
  rcases inserts_of_run ran with ⟨execution, secrets, queue, only, same⟩ | ⟨plain, same⟩
  · exact .ahead result.reply ⟨execution, secrets, queue, only⟩ rfl rfl
  · exact .past result.ops result.reply plain rfl same.symm

/-- Where the calls of a handler have left memory before the next one. -/
theorem Underway.before_call {others : List Frame} {commit : Commit}
    {result : Section} {s u : System}
    (ran : commit.run s.cluster = .ok result) (underway : Underway others result u) {op : Op}
    {rest : List Op}
    {reply : Reply} (there : u.inflight[others.length]? = some (.running (op :: rest) reply)) :
    (op.inserts = true ∧ op ∈ result.ops ∧ u.cluster = s.cluster) ∨
      (op.inserts = false ∧ u.cluster = result.outcome) := by
  cases underway with
  | ahead before inserts inflight left =>
    obtain ⟨execution, secrets, queue, only⟩ := inserts
    have frame := there.symm.trans (inflight ▸ getElem?_last others _)
    simp only [Option.some.injEq, Frame.running.injEq, only, List.cons.injEq] at frame
    have member : op ∈ result.ops := by rw [only, frame.1.1]; exact List.mem_cons_self
    rcases inserts_of_run ran with ⟨_, _, _, _, same⟩ | ⟨plain, -⟩
    · exact .inl ⟨by rw [frame.1.1]; rfl, member, left.trans same⟩
    · have wrong := plain op member
      rw [frame.1.1] at wrong
      cases wrong
  | past ops before plain inflight left =>
    have frame := there.symm.trans (inflight ▸ getElem?_last others _)
    simp only [Option.some.injEq, Frame.running.injEq] at frame
    exact .inr ⟨plain op (frame.1 ▸ List.mem_cons_self), left⟩
  | rejected error inflight =>
    have frame := there.symm.trans (inflight ▸ getElem?_last others _)
    cases frame
  | done inflight => simp [inflight] at there

omit [Crates] in
/-- A section that finds work has set it running. -/
theorem nextWork_running {node id : Uuid} {now : Nat} {c : Cluster} {result : Section}
    {execution : Execution}
    (present : c.executions.get id = some execution) (ran : nextWork node (some id) now
      c = .ok result) :
    result.cluster.executions.get id = some
      { execution with status := .running, startedAtMs := some now } := by
  have own := Keyed.key_of_get present
  subst own
  simp only [nextWork, bind_eq_ok_iff, require_eq_ok_iff, exists_const, Option.bind_some,
    present] at ran
  have started : (c.start execution.id now).executions.get execution.id =
      some { execution with status := .running, startedAtMs := some now } := by
    rw [Cluster.start, Keyed.get_adjust_self, present]
    rfl
  obtain ⟨-, rest⟩ := ran
  split at rest <;> obtain rfl := Except.ok.inj rest <;> exact started

/-- When a call of a handler fails, memory is as the handler's section has left it, and as before the
request exactly if the section has changed nothing. The insertion of `create_execution` comes before
all its changes, so its failure leaves no trace. An execution that `next_work` took stays running,
and one that `complete_execution` removed stays away. -/
theorem failures_keep_section {s u v : System} {commit : Commit}
    {others : List Frame} {result : Section}
    (allowed : s.allows commit = true) (ran : commit.run s.cluster = .ok result)
    (calls : Calls others.length (s.perform commit others) u) {op : Op} {rest : List Op}
    {reply : Reply}
    {succeeds : Bool} (there : u.inflight[others.length]? = some (.running (op :: rest) reply))
    (error : succeeds = false ∨ u.runOp rest reply op = none)
    (failed : u.step (.op others.length succeeds) = some v) :
    v.cluster = (if op.inserts then s.cluster else result.outcome) ∧
    (∀ node id now, commit = .nextWork node (some id) now →
      ∃ execution, v.cluster.executions.get id = some execution ∧ execution.status = .running) ∧
    ∀ node id request now, commit = .completeExecution node id request now →
      v.cluster.executions.get id = none := by
  have underway : Underway others result u := by
    refine calls.invariant (underway_perform ran) ?_
    rintro w x label underway rfl stepped
    exact underway.step stepped
  have kept := failed_cluster there error failed
  have before := underway.before_call ran there
  -- Only `create_execution` has an insertion to make.
  have outcome (plain : commit.issues = []) : v.cluster = result.cluster := by
    have none_inserts (op : Op) (inserts : op.inserts = true)
      (member : op ∈ result.ops) : False := by
      cases op with
      | insertExecution =>
        have issues := (insert_of_run ran member).2.2.1
        rw [plain] at issues
        cases issues
      | _ => cases inserts
    rcases before with ⟨inserts, member, -⟩ | ⟨-, left⟩
    · exact (none_inserts op inserts member).elim
    · rcases inserts_of_run ran with ⟨execution, secrets, queue, only, -⟩ | ⟨-, same⟩
      · exact (none_inserts (.insertExecution execution secrets queue) rfl (only ▸
          List.mem_cons_self)).elim
      · exact kept.trans (left.trans same)
  refine ⟨?_, ?_, ?_⟩
  · rw [kept]
    rcases before with ⟨inserts, -, same⟩ | ⟨plain, left⟩
    · rw [inserts]
      exact same
    · rw [plain]
      exact left
  · rintro node id now rfl
    have fits := fits_of_allows allowed
    simp only [Commit.choiceFits, Option.any_eq_true] at fits
    obtain ⟨execution, present, -⟩ := fits
    exact ⟨_, (outcome rfl) ▸ nextWork_running present ran, rfl⟩
  · rintro node id request now rfl
    obtain ⟨execution, present, -, rfl⟩ := completeExecution_eq_ok ran
    rw [outcome rfl, ← Keyed.key_of_get present]
    exact scheduleQueued_get_none (cleaned_get s.cluster execution request.keepIdle)

end System

namespace Demo

/-- The section of `next_work` that hands out the execution. -/
def taking : Commit := .nextWork node (some 8) 0

def asksForWork : Frame → Bool
  | .authenticated asking .nextWork => decide (asking = node)
  | _ => false

def savesExecution : Frame → Bool
  | .running (.saveExecution _ :: _) _ => true
  | _ => false

/-- The write of an execution that `next_work` took fails. -/
theorem lost :
    ∃ s u v : System, ∃ execution rest reply,
      @System.Run crates (fun _ _ => True) empty s ∧
        s.inflight[0]? = some (.authenticated node .nextWork) ∧
      s.locked = false ∧ s.allows taking = true ∧ s.inflight.eraseIdx 0 = [] ∧
      (∃ result, @Commit.run crates s.cluster taking = .ok result) ∧
      @System.step crates (@System.perform crates s taking []) (.op 0 true) = some u ∧
      u.inflight[0]? = some (.running (.saveExecution execution :: rest) reply) ∧
      @System.step crates u (.op 0 false) = some v ∧
      (s.cluster.executions.get 8).any (fun execution =>
        decide (execution.status = .assigned)) = true ∧
      (v.cluster.executions.get 8).any (fun execution =>
        decide (execution.status = .running)) = true := by
  have performed : Option.any (fun s : System =>
        (s.inflight[0]?).any asksForWork && !s.locked && s.allows taking && (s.inflight.eraseIdx 0).isEmpty &&
        (@Commit.run crates s.cluster taking).isOk &&
        (s.cluster.executions.get 8).any (fun execution => decide (execution.status = .assigned)) &&
        (@System.step crates (@System.perform crates s taking []) (.op 0 true)).any (fun u =>
          (u.inflight[0]?).any savesExecution &&
          (@System.step crates u (.op 0 false)).any (fun v =>
            (v.cluster.executions.get 8).any (fun execution =>
              decide (execution.status = .running)))))
      (Runs.exec (@System.step crates) (fun _ label => System.restarts label = false ∧ True) empty
        (assigning ++ [.authenticate node "credential" none .nextWork])) = true := by decide +kernel
  obtain ⟨s, reached, shape⟩ := (Option.any_eq_true _ _).mp performed
  simp only [Bool.and_eq_true, Bool.not_eq_true', List.isEmpty_iff] at shape
  obtain ⟨⟨⟨⟨⟨⟨asks, free⟩, allowed⟩, alone⟩, accepted⟩, assigned⟩, calls⟩ := shape
  obtain ⟨frame, there, asks⟩ := (Option.any_eq_true _ _).mp asks
  obtain ⟨u, stepped, calls⟩ := (Option.any_eq_true _ _).mp calls
  simp only [Bool.and_eq_true] at calls
  obtain ⟨next, found, saves⟩ := (Option.any_eq_true _ _).mp calls.1
  obtain ⟨v, failed, runs⟩ := (Option.any_eq_true _ _).mp calls.2
  unfold asksForWork at asks
  unfold savesExecution at saves
  split at asks
  · split at saves
    · rename_i asking _ execution rest reply
      obtain rfl := of_decide_eq_true asks
      refine ⟨s, u, v, execution, rest, reply, Runs.reaches_of_exec _ reached, there, free, allowed,
        alone, ?_, stepped, found,
        failed, assigned, runs⟩
      cases ran : @Commit.run crates s.cluster taking with
      | ok result => exact ⟨result, rfl⟩
      | error error =>
        rw [ran] at accepted
        cases accepted
    · cases saves
  · cases asks

end Demo

namespace System

/-- The write of an execution that `next_work` took fails, and the execution stays running. -/
theorem failures_keep_section_taken :
    ∃ s v : System, (s.cluster.executions.get 8).any
      (fun execution => decide (execution.status = .assigned)) = true ∧
      ∃ execution, v.cluster.executions.get 8 = some execution ∧ execution.status = .running := by
  obtain ⟨s, u, v, _, rest, reply, -, -, -, allowed, -, ⟨result, ran⟩, stepped, found, failed,
    assigned, -⟩ := Demo.lost
  exact ⟨s, v, assigned,
    (@failures_keep_section Demo.crates _ _ _ _ _ _ allowed ran (.single rfl stepped) _ _ _ _ found
    (.inl rfl) failed).2.1 _ _ _ rfl⟩

/-- Whoever asks for work and is answered with an error because a write failed has changed memory. -/
theorem failure_leaves_changes :
    ¬ ∀ [Crates] (s t u v : System) (label : Label) (commit : Commit)
      (others : List Frame), s.Fresh →
      Run (fun _ _ => True) s t → Entered t label commit others →
        t.step label = some (t.perform commit others) →
      Calls others.length (t.perform commit others) u → u.step (.op others.length false) = some v →
      v.replies = .refused internalError :: u.replies →
      ∀ id, v.cluster.executions.get id = t.cluster.executions.get id := by
  intro claim
  obtain ⟨s, u, v, execution, rest, reply, run, there, free, allowed, alone, ⟨result, ran⟩,
    stepped, found, failed,
    assigned, runs⟩ := Demo.lost
  have entered : Entered s (.enter 0 ⟨0, 0, some 8, none⟩) Demo.taking [] :=
    alone ▸ .handler 0 _ _ _ there rfl
  have enters : @step Demo.crates s (.enter 0 ⟨0, 0, some 8, none⟩) =
    some (@perform Demo.crates s Demo.taking []) := by
    have ready : (some (Frame.authenticated Demo.node .nextWork)).bind
      (Frame.commit ⟨0, 0, some 8, none⟩) =
      some Demo.taking := rfl
    simp only [step, there, ready, free, allowed, alone]
    rfl
  have refused : v.replies = .refused internalError :: u.replies := by
    have done := failed
    simp only [step, found, callOp, Bool.false_eq_true, if_false, Option.some.injEq] at done
    exact done ▸ rfl
  have same := @claim Demo.crates _ _ _ _ _ _ _ fresh_empty run entered enters
    (.single rfl stepped) failed refused 8
  obtain ⟨before, present, waits⟩ := (Option.any_eq_true _ _).mp assigned
  rw [same, present] at runs
  have running := of_decide_eq_true runs
  rw [of_decide_eq_true waits] at running
  cases running

end System
end Scraperack
