import Scraperack.Liaison

/-! What a step of the controller does to the handlers that concern the node: those of its completions,
those that bring it executions, and the one of its request about idle machines. -/

namespace Scraperack
open Urls

theorem Frame.eq_of_completes {frame : Frame} {input : Input} {node id : Uuid}
    {request : CompleteExecution} {now : Nat}
    (ready : frame.commit input = some (.completeExecution node id request now)) :
    frame = .authenticated node (.completeExecution id request) := by
  cases frame with
  | authenticated asking asked =>
    cases asked <;> cases ready
    rfl
  | environment job =>
    simp only [Frame.commit, Job.commit] at ready
    split at ready <;> cases ready
  | importing name =>
    obtain ⟨_, -, built⟩ := Option.map_eq_some_iff.mp ready
    cases built
  | running => cases ready

/-- A handler that brings an execution will show it. -/
theorem Frame.due_of_works {node : Uuid} {frame : Frame} {work : Uuid × Pool}
    (brings : work ∈ frame.works node) : Milestone.dispatch.due work.1 frame = true := by
  cases frame with
  | running ops reply =>
    simp only [Frame.works, List.mem_append, List.mem_filterMap, Option.mem_toList] at brings
    rw [Milestone.due_running]
    rcases brings with ⟨op, there, given⟩ | given
    · cases op <;> simp only [Op.brings, reduceCtorEq] at given
      split_ifs at given
      obtain rfl := Option.some.inj given
      exact .inl ⟨_, there, by simp [Milestone.brought]⟩
    · cases reply <;> simp only [Reply.brings, reduceCtorEq] at given
      split_ifs at given
      obtain rfl := Option.some.inj given
      exact .inr (by simp [Milestone.shown])
  | _ => cases brings

namespace System
variable [Crates] {s t : System} {label : Label} {node : Uuid}

theorem runsIn_step (sound : Sound s) (stepped : s.step label = some t)
    (same : restarts label = false) {id : Uuid} {name : String}
    (runs : s.cluster.RunsIn node id name) :
    t.cluster.RunsIn node id name ∨ ∃ index input request, label = .enter index input ∧
      s.inflight[index]? = some (.authenticated node (.completeExecution id request)) := by
  cases step_cases stepped with
  | performed _ commit others result free allowed entered ran =>
    refine ((Commit.ending ran).runsIn runs).imp_right ?_
    rintro ⟨request, now, rfl⟩
    cases entered with
    | client _ direct => cases direct
    | handler index input frame _ there ready =>
      obtain rfl := Frame.eq_of_completes ready
      exact ⟨index, input, request, rfl, there⟩
  | called index op rest before after next there plain done =>
    exact .inl (by rw [(runOp_frame plain done).1]; exact runs)
  | admitted index execution secrets queue rest before database there stored =>
    obtain ⟨⟨absent, queued, -⟩, -⟩ := sound.inserting ⟨secrets, queue, rest, before, there⟩
    exact .inl (runs.admitExecution queue absent queued)
  | restarted => cases same
  | _ => exact .inl runs

/-- Replies are only added. -/
theorem replies_step (stepped : s.step label = some t) (same : restarts label = false) :
    t.replies = s.replies ∨ ∃ reply, t.replies = reply :: s.replies := by
  cases step_cases stepped with
  | refused | declined | answered | failed => exact .inr ⟨_, rfl⟩
  | called index op rest before after next there plain done =>
    exact .inl (runOp_frame plain done).2.2.1
  | restarted => cases same
  | _ => exact .inl rfl

/-- The handler of a section goes on behind the others, with calls, or is refused. -/
theorem perform_running (commit : Commit) (others : List Frame) :
    (s.perform commit others).inflight = others ∨
      ∃ ops reply, (s.perform commit others).inflight = others ++ [.running ops reply] := by
  unfold perform
  split
  · exact .inl rfl
  · exact .inr ⟨_, _, rfl⟩

theorem authenticate_step {hash : String} {claimed : Option Uuid} {request : NodeRequest}
    (stepped : s.step (.authenticate node hash claimed request) = some t) :
    t.cluster = s.cluster ∧ ((∃ error, t = s.answer s.inflight (.refused error)) ∨
      t = { s with inflight := s.inflight ++ [.authenticated node request] }) := by
  simp only [step] at stepped
  split_ifs at stepped <;> obtain rfl := Option.some.inj stepped
  · exact ⟨rfl, .inl ⟨_, rfl⟩⟩
  · exact ⟨rfl, .inl ⟨_, rfl⟩⟩
  · exact ⟨rfl, .inr rfl⟩

theorem enter_step {index : Nat} {input : Input} (stepped : s.step (.enter index input) = some t) :
    ∃ frame commit, s.inflight[index]? = some frame ∧ frame.commit input = some commit ∧
      s.allows commit = true ∧ t = s.perform commit (s.inflight.eraseIdx index) := by
  simp only [step] at stepped
  cases ready : (s.inflight[index]?).bind (Frame.commit input) with
  | none => simp [ready] at stepped
  | some commit =>
    obtain ⟨frame, there, committed⟩ := Option.bind_eq_some_iff.mp ready
    simp only [ready] at stepped
    split_ifs at stepped with refused
    simp only [Bool.or_eq_true, Bool.not_eq_true', not_or, Bool.not_eq_true,
      Bool.not_eq_false] at refused
    exact ⟨frame, commit, there, committed, refused.2, (Option.some.inj stepped).symm⟩

/-- The handler that enters its section. -/
def turning (s : System) : Label → Option Frame
  | .enter index _ => s.inflight[index]?
  | _ => none

/-- The handlers that `p` picks stay, but for the one that enters its section. -/
theorem aside_step {β : Type} (p : Frame → Option β)
    (running : ∀ ops reply, p (.running ops reply) = none)
    (environment : ∀ job, p (.environment job) = none)
    (importing : ∀ name, p (.importing name) = none)
    (asking : ∀ asking request, asking ≠ node ∨ request.aside = true →
      p (.authenticated asking request) = none)
    (stepped : s.step label = some t) (free : label.aside node = true) :
    (((s.turning label).bind p).toList ++ t.inflight.filterMap p).Perm (s.inflight.filterMap p) := by
  have joined {others : List Frame} {frame : Frame} (off : p frame = none) :
      ((others ++ [frame]).filterMap p).Perm (others.filterMap p) := by simp [off]
  have erased {index : Nat} {frame : Frame} (there : s.inflight[index]? = some frame) :
      ((p frame).toList ++ (s.inflight.eraseIdx index).filterMap p).Perm
        (s.inflight.filterMap p) := by
    refine .trans ?_ ((Keyed.perm_eraseIdx there).symm.filterMap p)
    cases picked : p frame <;> simp [picked]
  have dropped {index : Nat} {frame : Frame} (there : s.inflight[index]? = some frame)
      (off : p frame = none) :
      ((s.inflight.eraseIdx index).filterMap p).Perm (s.inflight.filterMap p) := by
    simpa [off] using erased there
  have replaced {index : Nat} {frame next : Frame} (there : s.inflight[index]? = some frame)
      (off : p frame = none) (still : p next = none) :
      ((s.inflight.set index next).filterMap p).Perm (s.inflight.filterMap p) := by
    refine ((Keyed.perm_set there next).filterMap p).trans ?_
    rw [List.filterMap_cons_none still]
    exact dropped there off
  have performs (commit : Commit) (others : List Frame) :
      ((s.perform commit others).inflight.filterMap p).Perm (others.filterMap p) := by
    rcases perform_running (s := s) commit others with same | ⟨ops, reply, same⟩ <;> rw [same]
    exact joined (running ops reply)
  have shifts := step_shifts stepped
  cases label with
  | client commit =>
    simp only [step] at stepped
    split_ifs at stepped
    split at stepped
    · split at stepped <;> obtain rfl := Option.some.inj stepped
      · exact performs _ _
      · exact .refl _
    · exact Option.some.inj stepped ▸ performs _ _
  | authenticate other hash claimed request =>
    rcases authenticate_step stepped with ⟨-, ⟨error, rfl⟩ | rfl⟩
    · exact .refl _
    · exact joined (asking other request (by simpa [Label.aside] using free))
  | checkEnvironment id request =>
    simp only [step] at stepped
    split_ifs at stepped
    split at stepped <;> obtain rfl := Option.some.inj stepped
    · exact joined (environment _)
    · exact .refl _
  | checkImport name =>
    simp only [step] at stepped
    split_ifs at stepped <;> obtain rfl := Option.some.inj stepped
    · exact .refl _
    · exact joined (importing name)
  | enter index input =>
    obtain ⟨frame, commit, there, -, -, rfl⟩ := enter_step stepped
    simp only [turning, there, Option.bind_some]
    exact ((performs commit _).append_left _).trans (erased there)
  | prepare index event =>
    obtain ⟨⟨job, there⟩, same | ⟨next, same⟩⟩ := shifts <;> rw [same]
    · exact dropped there (environment job)
    · exact replaced there (environment job) (environment next)
  | op index succeeds =>
    obtain ⟨⟨ops, reply, there⟩, same | ⟨ops', reply', same⟩⟩ := shifts <;> rw [same]
    · exact dropped there (running ops reply)
    · exact replaced there (running ops reply) (running ops' reply')
  | restart => cases free
  | uploadWorkingDir | prune | updateSettings =>
    have same : t.inflight = s.inflight := shifts
    rw [same]
    exact .refl _

/-- What is about to be brought to the node is running there. -/
theorem works_runsIn (stepped : s.step label = some t) {frame : Frame} (member : frame ∈ t.inflight)
    {work : Uuid × Pool} (brings : work ∈ frame.works node) :
    (∃ before ∈ s.inflight, work ∈ before.works node) ∨
      t.cluster.RunsIn node work.1 work.2.name := by
  refine (works_step stepped member brings).imp_right ?_
  rintro ⟨execution, now, present, placed, known, same⟩
  refine ⟨{ execution with status := .running, startedAtMs := some now }, ?_, rfl, placed,
    (Keyed.key_of_get known).symm⟩
  rw [same, Cluster.start, Keyed.get_adjust, if_pos rfl, present, Option.map_some]

/-- The handlers beside the one that goes on are where `follow` says. -/
theorem follow_step (stepped : s.step label = some t) (same : restarts label = false)
    {index : Nat} {frame : Frame} (there : s.inflight[index]? = some frame)
    (other : Hall.at? label ≠ some index) :
    ∃ place : Nat, s.follow t index label = some place ∧ t.inflight[place]? = some frame := by
  have shifts := step_shifts stepped
  have left {acting : Nat} (apart : index ≠ acting) (more : List Frame) :
      (s.inflight.eraseIdx acting ++ more)[if index < acting then index else index - 1]? =
        some frame :=
    Hall.getElem?_append_of_some ((Hall.getElem?_eraseIdx_of_ne _ apart).trans there) more
  have dropped {acting : Nat} (apart : index ≠ acting) {found : Frame}
      (present : s.inflight[acting]? = some found) (erased : t.inflight = s.inflight.eraseIdx acting) :
      t.inflight.length < s.inflight.length ∧
        t.inflight[if index < acting then index else index - 1]? = some frame := by
    have inside := (List.getElem?_eq_some_iff.mp present).1
    refine ⟨by rw [erased, List.length_eraseIdx_of_lt inside]; omega, ?_⟩
    simpa [erased] using left apart []
  cases label with
  | client | authenticate | checkEnvironment | checkImport =>
    refine ⟨index, rfl, ?_⟩
    rcases shifts with kept | ⟨joined, kept⟩ <;> rw [kept]
    · exact there
    · exact Hall.getElem?_append_of_some there _
  | enter acting input =>
    have apart : index ≠ acting := fun equal => other (equal ▸ rfl)
    refine ⟨_, if_neg (Ne.symm apart), ?_⟩
    rcases shifts.2 with kept | ⟨joined, kept⟩ <;> rw [kept]
    · simpa using left apart []
    · exact left apart _
  | prepare acting event =>
    have apart : index ≠ acting := fun equal => other (equal ▸ rfl)
    obtain ⟨⟨job, present⟩, erased | ⟨next, set⟩⟩ := shifts
    · obtain ⟨fewer, found⟩ := dropped apart present erased
      exact ⟨_, by simp only [follow, if_pos fewer, if_neg (Ne.symm apart)], found⟩
    · refine ⟨index, by simp [follow, set], ?_⟩
      rw [set, List.getElem?_set_ne (Ne.symm apart), there]
  | op acting succeeds =>
    have apart : index ≠ acting := fun equal => other (equal ▸ rfl)
    obtain ⟨⟨ops, reply, present⟩, erased | ⟨ops', reply', set⟩⟩ := shifts
    · obtain ⟨fewer, found⟩ := dropped apart present erased
      exact ⟨_, by simp only [follow, if_pos fewer, if_neg (Ne.symm apart)], found⟩
    · refine ⟨index, by simp [follow, set], ?_⟩
      rw [set, List.getElem?_set_ne (Ne.symm apart), there]
  | restart => cases same
  | uploadWorkingDir | prune | updateSettings =>
    have kept : t.inflight = s.inflight := shifts
    exact ⟨index, rfl, kept ▸ there⟩

end System

/-- A request about idle machines of the node on its way to its section. -/
def Frame.call (node : Uuid) : Frame → Option IdleCall
  | .authenticated asking (.addWarmInstance pool) => if asking = node then some (.add pool) else none
  | .authenticated asking (.removeIdleInstance pool) =>
    if asking = node then some (.remove pool) else none
  | _ => none

/-- The call may change what the handler answers. -/
def Op.revises : Op → Bool
  | .insertExecution .. | .deliver .. => true
  | _ => false

namespace IdleCall

/-- The controller answers the request with yes. -/
def accepted (c : Cluster) (node : Uuid) : IdleCall → Bool
  | add pool => (c.addWarmInstance node pool).isSome
  | remove pool => (c.removeIdleInstance node pool).isSome

/-- The handler is about to enter the section of the request, or past it. -/
def Serves (node : Uuid) (call : IdleCall) (frame : Frame) : Prop :=
  frame.call node = some call ∨ ∃ ops answer, frame = .running ops (.flag answer) ∧
    ∀ op ∈ ops, op.revises = false

theorem commit_of_call {node : Uuid} {call : IdleCall} {frame : Frame}
    (asks : frame.call node = some call) : frame = .authenticated node call.request := by
  cases frame with
  | authenticated asking request =>
    cases request <;> simp only [Frame.call, reduceCtorEq] at asks
    all_goals
      split_ifs at asks with here
      obtain rfl := here
      obtain rfl := Option.some.inj asks
      rfl
  | _ => cases asks

theorem run [Crates] (c : Cluster) (node : Uuid) (call : IdleCall) (input : Input) :
    ∃ result, (call.request.commit node input).run c = .ok result ∧
      result.reply = .flag (call.accepted c node) ∧ ∀ op ∈ result.ops, op.revises = false := by
  have either (changed : Option Cluster) :
      (scheduleIfChanged c changed).reply = .flag changed.isSome ∧
        ∀ op ∈ (scheduleIfChanged c changed).ops, op.revises = false := by
    cases changed <;> simp [scheduleIfChanged, scheduleAndSave, Op.revises]
  cases call with
  | add pool => exact ⟨_, rfl, either _⟩
  | remove pool => exact ⟨_, rfl, either _⟩

end IdleCall

namespace Errand

/-- The request has not come to its section. -/
def calling (errand : Errand) (node : Uuid) (inflight : List Frame) : Bool :=
  match errand with
  | served _ index => (inflight[index]?).any (fun frame => (frame.call node).isSome)
  | _ => false

/-- The handlers in flight about idle machines of the node are that of the request, if any. -/
structure Tracked (node : Uuid) (errand : Errand) (inflight : List Frame) : Prop where
  only : inflight.countP (fun frame => (frame.call node).isSome) ≤
    (errand.calling node inflight).toNat
  serves : ∀ call index, errand = .served call index →
    ∃ frame, inflight[index]? = some frame ∧ call.Serves node frame

theorem Tracked.unserved {node : Uuid} {errand : Errand} {inflight : List Frame}
    (none : inflight.countP (fun frame => (frame.call node).isSome) = 0)
    (apart : ∀ call index, errand ≠ .served call index) : errand.Tracked node inflight :=
  ⟨none.le.trans (Nat.zero_le _), fun call index same => absurd same (apart call index)⟩

/-- A request in flight comes from the errand. -/
theorem Tracked.own {node : Uuid} {errand : Errand} {inflight : List Frame}
    (tracked : errand.Tracked node inflight) {index : Nat} {frame : Frame} {call : IdleCall}
    (there : inflight[index]? = some frame) (asks : frame.call node = some call) :
    errand = .served call index := by
  have counted : 0 < inflight.countP (fun frame => (frame.call node).isSome) :=
    List.countP_pos_iff.mpr ⟨frame, List.mem_of_getElem? there, by simp [asks]⟩
  have only := tracked.only
  have once : inflight.countP (fun frame => (frame.call node).isSome) ≤ 1 :=
    only.trans (Bool.toNat_le _)
  cases errand with
  | served asked place =>
    obtain ⟨found, here, serves⟩ := tracked.serves asked place rfl
    rcases serves with own | ⟨ops, answer, rfl, -⟩
    · obtain rfl := System.unique_of_countP once there here (by simp [asks]) (by simp [own])
      obtain rfl := Option.some.inj (there.symm.trans here)
      rw [Option.some.inj (asks.symm.trans own)]
    · simp only [calling, here, Option.any_some, Frame.call, Option.isSome_none,
        Bool.toNat_false] at only
      exact absurd counted (Nat.not_lt.mpr only)
  | _ => exact absurd counted (Nat.not_lt.mpr only)

end Errand

/-- What a step of the controller means for the request of the loop. -/
inductive Errand.Told (node : Uuid) (errand later : Errand) (s t : System) (label : Label) : Prop where
  | failed (failed : later.failed = true)
  /-- Nothing new is known of it. -/
  | same (agreed : ∀ call, later.agreed t.inflight call = errand.agreed s.inflight call)
      (others : ∀ frame, s.turning label = some frame → frame.call node = none)
  | decided (index : Nat) (input : Input) (call : IdleCall) (entered : label = .enter index input)
      (there : s.inflight[index]? = some (.authenticated node call.request))
      (decides : ∀ other, errand.agreed s.inflight other = false ∧
        later.agreed t.inflight other = (decide (call = other) && call.accepted s.cluster node))

namespace System
variable [Crates] {s t : System} {label : Label} {node : Uuid}

/-- Only the errand of the loop brings a request about idle machines. -/
theorem call_step (stepped : s.step label = some t) (free : label.aside node = true) :
    (((s.turning label).bind (Frame.call node)).toList ++
      t.inflight.filterMap (Frame.call node)).Perm (s.inflight.filterMap (Frame.call node)) := by
  refine aside_step _ (fun _ _ => rfl) (fun _ => rfl) (fun _ => rfl) ?_ stepped free
  rintro asking request (other | aside)
  · cases request <;> simp [Frame.call, other]
  · cases request <;> first | rfl | cases aside

omit [Crates] in
theorem countP_call (inflight : List Frame) :
    inflight.countP (fun frame => (frame.call node).isSome) =
      (inflight.filterMap (Frame.call node)).length :=
  (List.length_filterMap_eq_countP ..).symm

/-- A handler that has a yes or a no to say goes on to say it, or fails. -/
theorem flag_step {index : Nat} {succeeds answer : Bool} {ops : List Op}
    (stepped : s.step (.op index succeeds) = some t)
    (there : s.inflight[index]? = some (.running ops (.flag answer)))
    (firm : ∀ op ∈ ops, op.revises = false) :
    (∃ rest, t.inflight = s.inflight.set index (.running rest (.flag answer)) ∧
        ∀ op ∈ rest, op.revises = false) ∨
      t.inflight = s.inflight.eraseIdx index ∧
        ∃ reply, t.replies = reply :: s.replies ∧
          (reply = .flag answer ∨ reply = .refused internalError) := by
  simp only [step, there] at stepped
  cases ops with
  | nil =>
    obtain rfl := Option.some.inj stepped
    exact .inr ⟨rfl, _, rfl, .inl rfl⟩
  | cons op rest =>
    have later : ∀ op ∈ rest, op.revises = false :=
      fun op member => firm op (List.mem_cons_of_mem _ member)
    have plain := firm op List.mem_cons_self
    simp only [callOp] at stepped
    split_ifs at stepped
    · split at stepped <;> obtain rfl := Option.some.inj stepped
      · rename_i next ops reply done
        refine .inl ⟨rest, ?_, later⟩
        have same : ops = rest ∧ reply = .flag answer := by
          cases op with
          | insertExecution | deliver => cases plain
          | completeExecution execution =>
            simp only [runOp, Option.map_eq_some_iff, Prod.mk.injEq] at done
            obtain ⟨_, _, _, rfl, rfl⟩ := done
            exact ⟨rfl, rfl⟩
          | _ =>
            simp only [runOp, Option.some.injEq, Prod.mk.injEq] at done
            exact ⟨done.2.1.symm, done.2.2.symm⟩
        rw [same.1, same.2]
      · exact .inr ⟨rfl, _, rfl, .inr rfl⟩
    · split at stepped <;> try cases stepped
      · exact .inl ⟨rest, rfl, later⟩
      · exact .inr ⟨rfl, _, rfl, .inr rfl⟩

/-- No handler about idle machines of the node comes in with a step. -/
theorem countP_call_step (stepped : s.step label = some t) (free : label.aside node = true) :
    t.inflight.countP (fun frame => (frame.call node).isSome) ≤
      s.inflight.countP (fun frame => (frame.call node).isSome) := by
  rw [countP_call, countP_call, ← (call_step stepped free).length_eq, List.length_append]
  exact Nat.le_add_left ..

/-- The request comes to its section, which decides. -/
theorem errand_enter {index : Nat} {input : Input} (stepped : s.step (.enter index input) = some t)
    {call : IdleCall} (tracked : (Errand.served call index).Tracked node s.inflight) :
    ((Errand.served call index).after s t (.enter index input)).Tracked node t.inflight ∧
      Errand.Told node (.served call index) ((Errand.served call index).after s t
        (.enter index input)) s t (.enter index input) := by
  obtain ⟨frame, there, serves⟩ := tracked.serves call index rfl
  obtain ⟨found, commit, present, ready, -, rfl⟩ := enter_step stepped
  obtain rfl := Option.some.inj (there.symm.trans present)
  have inside := (List.getElem?_eq_some_iff.mp there).1
  have asks : frame.call node = some call := by
    rcases serves with asks | ⟨ops, answer, rfl, -⟩
    · exact asks
    · cases ready
  obtain rfl := IdleCall.commit_of_call asks
  obtain rfl := Option.some.inj ready
  obtain ⟨result, ran, reply, firm⟩ := IdleCall.run s.cluster node call input
  have joined : (s.perform (call.request.commit node input) (s.inflight.eraseIdx index)).inflight =
      s.inflight.eraseIdx index ++
        [.running result.ops (.flag (call.accepted s.cluster node))] := by
    simp only [perform, ran, reply]
  generalize s.perform (call.request.commit node input) (s.inflight.eraseIdx index) = t
    at stepped joined ⊢
  have length : t.inflight.length = s.inflight.length := by
    rw [joined, List.length_append, List.length_eraseIdx_of_lt inside, List.length_singleton]
    omega
  have final : t.inflight[t.inflight.length - 1]? =
      some (.running result.ops (.flag (call.accepted s.cluster node))) := by
    rw [joined]
    simp
  have after : (Errand.served call index).after s t (.enter index input) =
      .served call (t.inflight.length - 1) := by
    simp [Errand.after, follow, length]
  have gone : t.inflight.countP (fun frame => (frame.call node).isSome) = 0 := by
    have taken := countP_take (p := fun frame => (Frame.call node frame).isSome) there
    have only := tracked.only.trans (Bool.toNat_le _)
    simp only [asks, Option.isSome_some, if_true] at taken
    rw [joined, List.countP_append, List.countP_singleton, if_neg (by simp [Frame.call])]
    omega
  rw [after]
  refine ⟨⟨gone.le.trans (Nat.zero_le _), ?_⟩,
    .decided index input call rfl there (fun other => ⟨?_, ?_⟩)⟩
  · rintro _ _ ⟨⟩
    exact ⟨_, final, .inr ⟨_, _, rfl, firm⟩⟩
  · simp [Errand.agreed, there, Frame.agrees]
  · simp [Errand.agreed, final, Frame.agrees]

/-- The handler of the request makes a call after its section, or answers. -/
theorem errand_op {index : Nat} {succeeds : Bool} (stepped : s.step (.op index succeeds) = some t)
    {call : IdleCall} (tracked : (Errand.served call index).Tracked node s.inflight) :
    ((Errand.served call index).after s t (.op index succeeds)).Tracked node t.inflight ∧
      Errand.Told node (.served call index) ((Errand.served call index).after s t
        (.op index succeeds)) s t (.op index succeeds) := by
  obtain ⟨frame, there, serves⟩ := tracked.serves call index rfl
  have inside := (List.getElem?_eq_some_iff.mp there).1
  obtain ⟨⟨ops, reply, present⟩, -⟩ := step_shifts stepped
  obtain rfl := Option.some.inj (there.symm.trans present)
  obtain ⟨answer, rfl, firm⟩ : ∃ answer, reply = .flag answer ∧
      ∀ op ∈ ops, op.revises = false := by
    rcases serves with asks | ⟨_, answer, same, firm⟩
    · cases asks
    · cases same
      exact ⟨answer, rfl, firm⟩
  have quiet : s.inflight.countP (fun frame => (frame.call node).isSome) = 0 := by
    have only := tracked.only
    simpa [Errand.calling, there, Frame.call] using only
  have gone := Nat.le_zero.mp ((countP_call_step stepped rfl).trans quiet.le)
  have others (frame : Frame) (turns : s.turning (.op index succeeds) = some frame) :
      frame.call node = none := by cases turns
  rcases flag_step stepped there firm with
    ⟨rest, set, firm⟩ | ⟨erased, reply, replies, said⟩
  · have final : t.inflight[index]? = some (.running rest (.flag answer)) := by
      rw [set, List.getElem?_set_self inside]
    have after : (Errand.served call index).after s t (.op index succeeds) =
        .served call index := by
      simp [Errand.after, follow, set]
    rw [after]
    refine ⟨⟨gone.le.trans (Nat.zero_le _), ?_⟩, .same (fun other => ?_) others⟩
    · rintro _ _ ⟨⟩
      exact ⟨_, final, .inr ⟨_, _, rfl, firm⟩⟩
    · simp [Errand.agreed, final, there, Frame.agrees]
  · have fewer : t.inflight.length < s.inflight.length := by
      rw [erased, List.length_eraseIdx_of_lt inside]
      omega
    have after : (Errand.served call index).after s t (.op index succeeds) =
        .answered call reply := by
      simp [Errand.after, follow, fewer, replies]
    rw [after]
    refine ⟨.unserved gone (fun _ _ same => by cases same), ?_⟩
    rcases said with rfl | rfl
    · exact .same (fun other => by simp [Errand.agreed, there, Frame.agrees]) others
    · exact .failed rfl

/-- The request after a step of the controller. -/
theorem errand_step (stepped : s.step label = some t) (free : label.aside node = true)
    {errand : Errand} (tracked : errand.Tracked node s.inflight) :
    (errand.after s t label).Tracked node t.inflight ∧
      Errand.Told node errand (errand.after s t label) s t label := by
  have same : restarts label = false := by cases label <;> first | rfl | cases free
  have fewer := countP_call_step stepped free
  -- A handler that enters another section is not about idle machines.
  have others (apart : ∀ call index, errand = .served call index → Hall.at? label ≠ some index)
      (frame : Frame) (turns : s.turning label = some frame) : frame.call node = none := by
    cases label with
    | enter acting input =>
      cases asks : frame.call node with
      | none => rfl
      | some asked => exact absurd rfl (apart asked acting (tracked.own turns asks))
    | _ => cases turns
  cases errand with
  | served call index =>
    by_cases own : Hall.at? label = some index
    · cases label with
      | enter acting input =>
        obtain rfl := Option.some.inj own
        exact errand_enter stepped tracked
      | op acting succeeds =>
        obtain rfl := Option.some.inj own
        exact errand_op stepped tracked
      | prepare acting event =>
        obtain rfl := Option.some.inj own
        obtain ⟨frame, there, serves⟩ := tracked.serves call acting rfl
        obtain ⟨⟨job, present⟩, -⟩ := step_shifts stepped
        obtain rfl := Option.some.inj (there.symm.trans present)
        rcases serves with asks | ⟨ops, answer, asks, -⟩ <;> cases asks
      | _ => cases own
    · obtain ⟨frame, there, serves⟩ := tracked.serves call index rfl
      obtain ⟨place, follows, stays⟩ := follow_step stepped same there own
      have after : (Errand.served call index).after s t label = .served call place := by
        simp [Errand.after, follows]
      rw [after]
      refine ⟨⟨?_, ?_⟩, .same (fun other => ?_) (others (fun _ _ => ?_))⟩
      · have only := tracked.only
        simp only [Errand.calling, there, stays] at only ⊢
        exact fewer.trans only
      · rintro _ _ ⟨⟩
        exact ⟨frame, stays, serves⟩
      · simp only [Errand.agreed, there, stays]
      · rintro ⟨⟩
        exact own
  | free | sent call | answered call reply | told needed =>
    have quiet := Nat.le_zero.mp tracked.only
    refine ⟨.unserved (Nat.le_zero.mp (fewer.trans quiet.le)) (fun _ _ same => by cases same),
      .same (fun other => ?_) (others (fun _ _ same => by cases same))⟩
    first | rfl | cases reply <;> rfl

end System
end Scraperack
