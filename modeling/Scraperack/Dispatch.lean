import Scraperack.Names

/-! Dispatch and completion. An execution is handed out once at most and completed once at most,
by the node it is assigned to, and one that runs is never queued or assigned again. -/

namespace Scraperack

/-- What happens to an execution once at most. -/
inductive Milestone where
  | dispatch
  | completion

namespace Milestone

/-- The reply tells a node that the execution has come this far. -/
def shown (id : Uuid) : Milestone → Reply → Bool
  | dispatch, .work _ execution _ _ => decide (execution.id = id)
  | completion, .completed _ execution => decide (execution = id)
  | _, _ => false

/-- The call turns the handler's reply into such a reply. -/
def brought (id : Uuid) : Milestone → Op → Bool
  | dispatch, .deliver _ execution _ => decide (execution.id = id)
  | _, _ => false

/-- The handler will send such a reply unless a call fails. -/
def due (milestone : Milestone) (id : Uuid) : Frame → Bool
  | .running ops reply => ops.any (milestone.brought id) || milestone.shown id reply
  | _ => false

/-- What is left to see of the execution in memory. -/
def after : Milestone → Execution → Prop
  | dispatch, execution => execution.status = .running
  | completion, _ => False

theorem due_running {milestone : Milestone} {id : Uuid} {ops : List Op} {reply : Reply} :
    milestone.due id (.running ops reply) = true ↔
      (∃ op ∈ ops, milestone.brought id op = true) ∨ milestone.shown id reply = true := by
  simp [due]

theorem concerned {milestone : Milestone} {id : Uuid} {reply : Reply}
    (shows : milestone.shown id reply = true) :
    reply.concerns = some id := by
  cases milestone <;> cases reply <;> simp [shown, Reply.concerns] at shows ⊢ <;> exact shows

/-- A call that leads further was already counted. -/
theorem due_of_called [Crates] {s next : System} {op : Op} {rest : List Op} {before reply : Reply}
    {milestone : Milestone} {id : Uuid} (done : s.runOp rest before op = some (next, rest, reply))
    (due : milestone.due id (.running rest reply) = true) (plain : op.inserts = false) :
    milestone.due id (.running (op :: rest) before) = true := by
  rw [due_running] at due ⊢
  rcases due with ⟨later, member, brings⟩ | shows
  · exact .inl ⟨later, List.mem_cons_of_mem _ member, brings⟩
  · cases op with
    | insertExecution => cases plain
    | deliver node execution pool =>
      simp only [System.runOp, Option.map_eq_some_iff, Prod.mk.injEq] at done
      obtain ⟨_, _, _, _, rfl⟩ := done
      cases milestone with
      | dispatch => exact .inl ⟨_, List.mem_cons_self, shows⟩
      | completion => cases shows
    | completeExecution execution =>
      simp only [System.runOp, Option.map_eq_some_iff, Prod.mk.injEq] at done
      obtain ⟨_, _, _, _, rfl⟩ := done
      exact .inr shows
    | _ =>
      simp only [System.runOp, Option.some.injEq, Prod.mk.injEq] at done
      obtain ⟨-, -, rfl⟩ := done
      exact .inr shows

theorem not_due_admitted (milestone : Milestone) (id : Uuid) (execution : Execution) (queue : Bool)
    (c : Cluster) :
    milestone.due id (.running (admitExecution execution queue c).ops
      (admitExecution execution queue c).reply) =
      false := by
  unfold admitExecution
  dsimp only
  split
  · cases milestone <;> rfl
  · split_ifs <;> cases milestone <;> rfl

end Milestone

/-- A section that leads an execution to a milestone finds it in memory before that milestone. -/
inductive Attained (c : Cluster) (id : Uuid) (result : Section) : Milestone → Commit → Prop where
  | started (node : Uuid) (now : Nat) (execution : Execution)
      (present : c.executions.get id = some execution)
      (marked : result.cluster = c.start id now) : Attained c id result .dispatch
        (.nextWork node (some id) now)
  | finished (node : Uuid) (request : CompleteExecution) (now : Nat) (execution : Execution)
      (present : c.executions.get id = some execution) (placed : execution.node = some node)
      (gone : result.cluster.executions.get id = none) :
      Attained c id result .completion (.completeExecution node id request now)

theorem cleaned_get (c : Cluster) (execution : Execution) (keepIdle : Bool) :
    (cleaned c execution keepIdle).executions.get execution.id = none := by
  unfold cleaned
  split_ifs <;> simp [Cluster.finish, Cluster.forget]

/-- The scheduler brings no execution back. -/
theorem scheduleQueued_get_none {c : Cluster} {id : Uuid} (absent : c.executions.get id = none) :
    c.scheduleQueued.1.executions.get id = none := by
  refine Cluster.scheduleQueued_invariant (P := fun c => c.executions.get id = none) absent ?_
  intro c execution pool node absent _ _
  rw [Cluster.place_get, absent]
  simp

theorem attained_of_due [Crates] {c : Cluster} {commit : Commit} {result : Section}
    (ran : commit.run c = .ok result)
    {milestone : Milestone} {id : Uuid}
    (due : milestone.due id (.running result.ops result.reply) = true) :
    Attained c id result milestone commit := by
  have silent {reply : Reply} (other : reply.concerns = none)
    (shows : milestone.shown id reply = true) : False := by
    rw [Milestone.concerned shows] at other
    cases other
  have refused {ops : List Op} {reply : Reply}
    (none_brings : ∀ op ∈ ops, milestone.brought id op = false)
      (other : reply.concerns = none) (due : milestone.due id (.running ops reply) =
        true) : False := by
    rcases Milestone.due_running.mp due with ⟨op, member, brings⟩ | shows
    · simp [none_brings op member] at brings
    · exact silent other shows
  cases Commit.ending ran with
  | saved same ops other =>
    rw [ops] at due
    exact (refused (by cases milestone <;> simp [Milestone.brought]) other due).elim
  | scheduled d same reply other =>
    exact (refused (by cases milestone <;> simp [scheduleAndSave, Milestone.brought])
      other due).elim
  | unchanged reply other =>
      exact (refused (by cases milestone <;> simp [Milestone.brought]) other due).elim
  | restarted | updated =>
    exact (refused (by cases milestone <;> simp [finishEnvironment,
      Milestone.brought]) rfl due).elim
  | restartPanicked | createPanicked | workPanicked =>
    exact (refused (by cases milestone <;> simp [panicSection, Milestone.brought]) rfl due).elim
  | deletedEnvironment =>
    refine (refused (fun op member => ?_) rfl due).elim
    simp only [List.cons_append, List.mem_cons, List.mem_append, List.mem_map, List.not_mem_nil,
      or_false] at member
    obtain rfl | ⟨_, _, rfl⟩ | rfl := member <;> cases milestone <;> rfl
  | created => exact (refused (by cases milestone <;> simp [Milestone.brought]) rfl due).elim
  | worked node now execution pool present known =>
    cases milestone with
    | completion => cases due
    | dispatch =>
      have own : execution.id = id := by
        simpa [Milestone.due, Milestone.brought, Milestone.shown] using due
      subst own
      exact .started node now execution present rfl
  | completed node request now execution present placed =>
    cases milestone with
    | dispatch => cases due
    | completion =>
      have own : execution.id = id := by
        simpa [Milestone.due, Milestone.brought, Milestone.shown] using due
      subst own
      exact .finished node request now execution present placed
        (scheduleQueued_get_none (cleaned_get c execution request.keepIdle))

namespace System

/-- How many replies show, or will show, that the execution has come this far. -/
def tally (milestone : Milestone) (id : Uuid) (s : System) : Nat :=
  s.inflight.countP (milestone.due id) + s.replies.countP (milestone.shown id)

/-- The execution has come this far, and its identifier is not used again. -/
structure Past (milestone : Milestone) (id : Uuid) (s : System) : Prop where
  issued : id ∈ s.issued
  settled : ∀ ops reply execution secrets queue, Frame.running ops reply ∈ s.inflight →
    Op.insertExecution execution secrets queue ∈ ops → execution.id ≠ id
  after : ∀ execution, s.cluster.executions.get id = some execution → milestone.after execution

theorem countP_take {α : Type} {p : α → Bool} {l : List α} {i : Nat} {a : α}
    (there : l[i]? = some a) :
    l.countP p = (l.eraseIdx i).countP p + if p a then 1 else 0 := by
  obtain ⟨inside, rfl⟩ := List.getElem?_eq_some_iff.mp there
  rw [← (List.getElem_cons_eraseIdx_perm inside).countP_eq p, List.countP_cons]

/-- A move takes no execution back behind a milestone. -/
theorem after_move {milestone : Milestone} {id : Uuid} {c : Cluster} {move : Move}
    (allowed : move.Allowed c)
    (other : ∀ execution, move = .receive execution → execution.id ≠ id)
    (past : ∀ execution, c.executions.get id = some execution → milestone.after execution) :
    ∀ execution, (c.move move).executions.get id = some execution → milestone.after execution := by
  intro execution present
  rw [Cluster.get_move allowed] at present
  -- Only executions that wait are moved on.
  have waits (waiting : Execution) (found : c.executions.get id = some waiting)
    (ahead : waiting.status ≠ .running) :
      False := by
    have holds := past waiting found
    cases milestone with
    | dispatch => exact ahead holds
    | completion => exact holds
  cases move with
  | receive received =>
    simp only [Move.onExecution] at present
    split_ifs at present with same
    · exact absurd same.symm (other received rfl)
    · exact past execution present
  | withdraw gone | finish gone _ =>
    simp only [Move.onExecution] at present
    split_ifs at present
    exact past execution present
  | requeue moved _ pool =>
    simp only [Move.onExecution] at present
    split_ifs at present with same
    · subst same
      obtain ⟨waiting, found, -, status⟩ := allowed
      exact (waits waiting found (by rcases status with status | status <;> simp [status])).elim
    · exact past execution present
  | start started now =>
    simp only [Move.onExecution] at present
    split_ifs at present with same
    · subst same
      obtain ⟨waiting, found, status⟩ := allowed
      exact (waits waiting found (by simp [status])).elim
    · exact past execution present
  | place placed pool node =>
    simp only [Move.onExecution] at present
    split_ifs at present with same
    · subst same
      exact (waits placed allowed.2.choose_spec.2.present (by simp [allowed.1])).elim
    · exact past execution present
  | _ => exact past execution present

variable [Crates]

/-- A step adds to the tally only when it enters a section that leads to the milestone. -/
theorem tally_step {s t : System} {label : Label} (milestone : Milestone) (id : Uuid)
    (stepped : s.step label = some t) (same : restarts label = false) :
    t.tally milestone id ≤ s.tally milestone id ∨
      t.tally milestone id ≤ s.tally milestone id + 1 ∧ s.locked = false ∧
        ∃ commit result, s.allows commit = true ∧
          commit.run s.cluster = .ok result ∧ t.cluster = result.cluster ∧
          (∃ others, t.inflight = others ++
            [.running result.ops result.reply] ∧ others.Sublist s.inflight) ∧
          Attained s.cluster id result milestone commit := by
  have refused (error : ApiError) : milestone.shown id (.refused error) =
    false := by cases milestone <;> rfl
  have changed {index : Nat} {ops ops' : List Op} {reply reply' : Reply} (replies : List Reply)
      (there : s.inflight[index]? = some (.running ops reply))
      (weaker : milestone.due id (.running ops' reply') =
        true → milestone.due id (.running ops reply) = true) :
      (s.inflight.set index (.running ops' reply')).countP (milestone.due id) + replies.countP
        (milestone.shown id) ≤
        s.inflight.countP (milestone.due id) + replies.countP (milestone.shown id) :=
    Nat.add_le_add_right (countP_set_le there weaker) _
  unfold tally
  cases step_cases stepped with
  | refused _ others error fewer =>
    refine .inl (Nat.add_le_add (fewer.countP_le) ?_)
    simp [answer, refused]
  | authenticated | started | importing => exact .inl (by simp [Milestone.due])
  | performed _ commit others result free allowed entered ran =>
    have fewer := entered.fewer.countP_le (p := milestone.due id)
    cases due : milestone.due id (.running result.ops result.reply) with
    | false => exact .inl (by simp [due, fewer])
    | true =>
      refine .inr ⟨?_, free, commit, result, allowed, ran, rfl,
        ⟨others, rfl, entered.fewer⟩, attained_of_due ran due⟩
      simp only [List.countP_append, List.countP_singleton, due, ↓reduceIte]
      omega
  | declined _ commit others error entered =>
    refine .inl (Nat.add_le_add (entered.fewer.countP_le) ?_)
    simp [refused]
  | prepared index event job next files there done =>
    exact .inl (Nat.add_le_add_right (countP_set_le there (by simp [Milestone.due])) _)
  | answered index succeeds reply there =>
    have taken := countP_take (p := milestone.due id) there
    have shows : milestone.due id (.running [] reply) =
      milestone.shown id reply := by simp [Milestone.due]
    rw [shows] at taken
    refine .inl ?_
    simp only [answer, List.countP_cons]
    omega
  | called index op rest before after next there plain done =>
    obtain ⟨-, -, replies, -⟩ := runOp_frame plain done
    refine .inl ?_
    rw [show ({ next with inflight := s.inflight.set index (.running rest after)
      } : System).replies = s.replies
      from replies]
    exact changed s.replies there (fun due => Milestone.due_of_called done due plain)
  | admitted index execution secrets queue rest before database there stored =>
    exact .inl (changed s.replies there
      (fun due => by rw [Milestone.not_due_admitted] at due; cases due))
  | rejected index execution secrets queue rest before database there stored =>
    exact .inl (changed s.replies there (fun due => by simp [Milestone.due, refused] at due))
  | failed index succeeds op rest reply there error =>
    refine .inl (Nat.add_le_add ((List.eraseIdx_sublist _ _).countP_le) ?_)
    simp [answer, refused]
  | ignored index artifact rest reply there =>
    refine .inl (changed s.replies there (fun due => ?_))
    simp only [Milestone.due, List.any_cons, Bool.or_eq_true] at due ⊢
    exact due.imp .inr (fun shows => shows)
  | restarted => cases same
  | _ => exact .inl (Nat.le_refl _)

theorem Past.settled_step {s t : System} {label : Label} {milestone : Milestone} {id : Uuid}
    (past : Past milestone id s) (stepped : s.step label = some t) {ops : List Op} {reply : Reply}
    {execution : Execution} {secrets : Bytes} {queue : Bool}
    (member : Frame.running ops reply ∈ t.inflight)
    (inserts : Op.insertExecution execution secrets queue ∈ ops) : execution.id ≠ id := by
  cases frame_cases stepped member with
  | stayed _ before => exact past.settled _ _ _ _ _ before inserts
  | performed commit others result free allowed entered ran =>
    obtain ⟨-, -, issues, -⟩ := insert_of_run ran inserts
    simp only [allows, Bool.and_eq_true, issues, List.all_cons, decide_eq_true_eq] at allowed
    rintro rfl
    exact allowed.1.1.1 past.issued
  | called op rest before after next before_member done =>
    exact past.settled _ _ _ _ _ before_member (List.mem_cons_of_mem _ inserts)
  | admitted inserted sealed wait rest before before_member =>
    rcases admitExecution_ops inserted wait s.cluster with ⟨copy, shape⟩ | shape <;>
      simp [shape] at inserts
  | rejected error => cases inserts
  | ignored artifact rest before before_member =>
    exact past.settled _ _ _ _ _ before_member (List.mem_cons_of_mem _ inserts)

theorem Past.step {s t : System} {label : Label} {milestone : Milestone} {id : Uuid}
    (past : Past milestone id s)
    (sound : Sound s) (stepped : s.step label = some t)
    (same : restarts label = false) : Past milestone id t := by
  refine ⟨issued_mono stepped past.issued, fun _ _ _ _ _ => past.settled_step stepped, ?_⟩
  refine (step_moves sound stepped same).invariant
    (P := fun c => ∀ execution, c.executions.get id = some execution →
      milestone.after execution) past.after ?_
  intro c move holds allowed used _
  refine after_move allowed (fun execution received => ?_) holds
  subst received
  rcases used with grows | ⟨_, _, _, never⟩ | ⟨index, inserted, -,
    ⟨secrets, queue, rest, reply, there⟩, equal | other⟩
  · cases grows
  · cases never
  · cases equal
    exact past.settled _ _ _ _ _ (List.mem_of_getElem? there) List.mem_cons_self
  · cases other

/-- Nobody was told, or one was and the execution is past the milestone for good. -/
def Once (milestone : Milestone) (id : Uuid) (s : System) : Prop :=
  s.tally milestone id = 0 ∨ s.tally milestone id ≤ 1 ∧ Past milestone id s

/-- The section that leads an execution to a milestone finds it before and leaves it past. -/
theorem attained_passes {s t : System} {label : Label} {milestone : Milestone} {id : Uuid}
    {commit : Commit}
    {result : Section} (sound : Sound s) (stepped : s.step label = some t) (free : s.locked = false)
    (allowed : s.allows commit = true) (ran : commit.run s.cluster = .ok result)
    (reached : t.cluster = result.cluster)
    (joined : ∃ others, t.inflight = others ++ [.running result.ops result.reply] ∧
      others.Sublist s.inflight)
    (attained : Attained s.cluster id result milestone commit) : ¬ Past milestone id s ∧
      Past milestone id t := by
  obtain ⟨others, inflight, fewer⟩ := joined
  have settles (plain : commit.issues = []) (ops : List Op) (reply : Reply) (execution : Execution)
    (secrets : Bytes)
      (queue : Bool) (member : Frame.running ops reply ∈ t.inflight)
      (inserts : Op.insertExecution execution secrets queue ∈ ops) : execution.id ≠ id := by
    rw [inflight] at member
    rcases List.mem_append.mp member with before | new
    · exact (Sound.no_insert free (fewer.subset before) inserts).elim
    · obtain ⟨rfl, rfl⟩ : ops = result.ops ∧ reply = result.reply := by simpa using new
      have issues := (insert_of_run ran inserts).2.2.1
      rw [plain] at issues
      cases issues
  cases attained with
  | started node now execution present marked =>
    have fits := fits_of_allows allowed
    simp only [Commit.choiceFits, present, Option.any_some, assignedTo, Bool.and_eq_true,
      decide_eq_true_eq] at fits
    refine ⟨fun past => ?_, ⟨issued_mono stepped (sound.issued id execution present),
      settles rfl, ?_⟩⟩
    · have running : execution.status = .running := past.after execution present
      rw [fits.2] at running
      cases running
    · rw [reached, marked]
      intro after found
      simp only [Cluster.start, Keyed.get_adjust, present, ↓reduceIte, Option.map_some,
        Option.some.injEq] at found
      subst found
      rfl
  | finished node request now execution present placed gone =>
    refine ⟨fun past => past.after execution present,
      ⟨issued_mono stepped (sound.issued id execution present), settles rfl, ?_⟩⟩
    rw [reached]
    intro after found
    rw [gone] at found
    cases found

theorem Once.step {s t : System} {label : Label} {milestone : Milestone} {id : Uuid}
    (once : Once milestone id s)
    (sound : Sound s) (stepped : s.step label = some t)
    (same : restarts label = false) : Once milestone id t := by
  rcases tally_step milestone id stepped same with
    fewer | ⟨more, free, commit, result, allowed, ran, reached, joined, attained⟩
  · rcases once with untold | ⟨told, past⟩
    · exact .inl (Nat.eq_zero_of_le_zero (fewer.trans untold.le))
    · exact .inr ⟨fewer.trans told, past.step sound stepped same⟩
  · obtain ⟨ahead, passed⟩ := attained_passes sound stepped free allowed ran reached joined attained
    rcases once with untold | ⟨-, past⟩
    · exact .inr ⟨by omega, passed⟩
    · exact absurd past ahead

theorem Once.run {may : System → Label → Prop} {s t : System} {milestone : Milestone} {id : Uuid}
    (once : Once milestone id s) (sound : Sound s) (run : Run may s t) : Once milestone id t :=
  run.invariant_along once (fun before once allowed stepped =>
    once.step (sound.run before) stepped allowed.1)

omit [Crates] in
theorem Started.once {s : System} (started : Started s) (silent : s.replies = [])
    (milestone : Milestone) (id : Uuid) :
    Once milestone id s := .inl (by simp [tally, started.quiet, silent])

omit [Crates] in
theorem Once.shown_le {s : System} {milestone : Milestone} {id : Uuid}
    (once : Once milestone id s) :
    s.replies.countP (milestone.shown id) ≤ 1 := by
  have counted : s.tally milestone id ≤ 1 := by
    rcases once with untold | ⟨told, -⟩
    · exact untold.le.trans (Nat.zero_le 1)
    · exact told
  unfold tally at counted
  omega

/-- An execution that runs is not queued or assigned again. -/
theorem running_stays {may : System → Label → Prop} {s t : System} (sound : Sound s) {id : Uuid}
    {execution : Execution}
    (present : s.cluster.executions.get id = some execution) (runs : execution.status = .running)
    (run : Run may s t) :
    ∀ later, t.cluster.executions.get id = some later → later.status = .running := by
  have past : Past .dispatch id s := by
    refine ⟨sound.issued id execution present,
      fun ops reply inserted secrets queue member inserts same => ?_, ?_⟩
    · have absent := (sound.pending ops reply inserted secrets queue member inserts).2.1.1
      rw [same, present] at absent
      cases absent
    · intro other found
      obtain rfl := Option.some.inj (present.symm.trans found)
      exact runs
  exact (run.invariant_along past
    (fun before past allowed stepped => past.step (sound.run before) stepped allowed.1)).after

/-- A handler gets past authentication with the credential of its node only. -/
theorem authenticated_step {s t : System} {label : Label} {node : Uuid} {request : NodeRequest}
    (stepped : s.step label = some t) (member : Frame.authenticated node request ∈ t.inflight) :
    Frame.authenticated node request ∈ s.inflight ∨ ∃ hash claimed,
      label = .authenticate node hash claimed request ∧
        s.cluster.nodeCredentials.get node = some (node, hash) := by
  cases step_cases stepped with
  | refused _ others error fewer => exact .inl (fewer.subset member)
  | authenticated other hash claimed asked known =>
    rcases List.mem_append.mp member with before | new
    · exact .inl before
    · cases List.mem_singleton.mp new
      exact .inr ⟨hash, claimed, rfl, known⟩
  | started | importing => simpa using member
  | performed _ commit others result free allowed entered ran =>
    rcases List.mem_append.mp member with before | new
    · exact .inl (entered.fewer.subset before)
    · cases List.mem_singleton.mp new
  | declined _ commit others error entered => exact .inl (entered.fewer.subset member)
  | answered | failed => exact .inl ((List.eraseIdx_sublist _ _).subset member)
  | prepared | ignored | called | admitted | rejected =>
    rcases List.mem_or_eq_of_mem_set member with before | new
    · exact .inl before
    · cases new
  | restarted => cases member
  | _ => exact .inl member

/-- A completion that is not refused comes from the node that the execution is on. -/
theorem completion_placed {s : System} (sound : Sound s) {label : Label} {node id : Uuid}
    {request : CompleteExecution}
    {now : Nat} {others : List Frame} {result : Section}
    (entered : Entered s label (.completeExecution node id request now) others)
    (ran : (Commit.completeExecution node id request now).run s.cluster = .ok result) :
    Frame.authenticated node (.completeExecution id request) ∈ s.inflight ∧
      ∃ execution, s.cluster.executions.get id = some execution ∧ execution.node = some node ∧
        execution.status.onNode = true := by
  obtain ⟨execution, present, placed, -⟩ := completeExecution_eq_ok ran
  refine ⟨?_, execution, present, placed, sound.orderly.onNode present placed⟩
  cases entered with
  | client _ direct => cases direct
  | handler index input frame _ there ready =>
    cases frame with
    | authenticated other asked =>
      have member := List.mem_of_getElem? there
      cases asked <;> cases ready
      exact member
    | environment job =>
      simp only [Frame.commit, Job.commit] at ready
      split at ready <;> cases ready
    | importing name =>
      simp only [Frame.commit, Option.map_eq_some_iff] at ready
      obtain ⟨_, _, equal⟩ := ready
      cases equal
    | running => cases ready

/-- In every run of one process: an execution is handed out once at most and completed once at
most; a completion that is not refused was asked for by the node that the execution is on at that
moment, which showed its credential; and an execution that runs goes on running until it is gone. -/
theorem executions_dispatched_once {s : System} (started : Started s) (silent : s.replies = []) :
    (∀ t, Run (fun _ _ => True) s t → ∀ id,
      t.replies.countP (Milestone.shown id .dispatch) ≤ 1 ∧
        t.replies.countP (Milestone.shown id .completion) ≤ 1) ∧
    (∀ t label node id request now others result, Run (fun _ _ => True) s t →
      Entered t label (.completeExecution node id request now) others →
      (Commit.completeExecution node id request now).run t.cluster = .ok result →
      Frame.authenticated node (.completeExecution id request) ∈ t.inflight ∧
        ∃ execution, t.cluster.executions.get id = some execution ∧ execution.node = some node ∧
          execution.status.onNode = true) ∧
    (∀ t u label node request, Run (fun _ _ => True) s t → t.step label = some u →
      Frame.authenticated node request ∈ u.inflight →
        Frame.authenticated node request ∈ t.inflight ∨
        ∃ hash claimed, label = .authenticate node hash claimed request ∧
          t.cluster.nodeCredentials.get node = some (node, hash)) ∧
    ∀ t u id before after, Run (fun _ _ => True) s t → Run (fun _ _ => True) t u →
      t.cluster.executions.get id = some before → u.cluster.executions.get id = some after →
      before.status = .running → after.status = .running := by
  refine ⟨fun t run id => ⟨?_, ?_⟩, ?_, ?_, ?_⟩
  · exact ((started.once silent .dispatch id).run started.sound run).shown_le
  · exact ((started.once silent .completion id).run started.sound run).shown_le
  · intro t label node id request now others result run entered ran
    exact completion_placed (started.sound.run run) entered ran
  · intro t u label node request _ stepped member
    exact authenticated_step stepped member
  · intro t u id before after run later present found runs
    exact running_stays (started.sound.run run) present runs later after found

end System

namespace Demo

/-- An execution is handed to its node, which completes it. -/
def completing : List Label :=
  assigning ++ [.authenticate node "credential" none .nextWork,
    .enter 0 ⟨0, 0, some 8, none⟩] ++ finish 0 3 ++
    nodeRequest 0 (.completeExecution 8 ⟨none, none, none, none, false⟩) 4

end Demo

namespace System

theorem executions_dispatched_once_completed :
    ∃ t : System, t.replies.countP (Milestone.shown 8 .dispatch) = 1 ∧
      t.replies.countP (Milestone.shown 8 .completion) = 1 := by
  obtain ⟨t, run, told⟩ := Runs.exists_reaches (@step Demo.crates)
    (fun _ label => restarts label = false ∧ True)
    Demo.empty Demo.completing
    (fun t => decide (1 ≤ t.replies.countP (Milestone.shown 8 .dispatch)) &&
      decide (1 ≤ t.replies.countP (Milestone.shown 8 .completion))) (by decide +kernel)
  simp only [Bool.and_eq_true, decide_eq_true_eq] at told
  obtain ⟨dispatches, completions⟩ :=
    (@executions_dispatched_once Demo.crates _ fresh_empty.started rfl).1 t run 8
  exact ⟨t, Nat.le_antisymm dispatches told.1, Nat.le_antisymm completions told.2⟩

end System
end Scraperack
