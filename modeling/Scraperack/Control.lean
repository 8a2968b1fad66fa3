import Scraperack.Coherence

/-! The lock, the pending insertions and the order of the executions in memory, along any
run of one process; and every step of such a run as moves of the cluster. -/

namespace Scraperack
namespace System

/-- Two different handlers cannot both meet a condition that at most one meets. -/
theorem unique_of_countP {α : Type} {p : α → Bool} {l : List α} {i j : Nat} {a b : α}
    (once : l.countP p ≤ 1)
    (first : l[i]? = some a) (second : l[j]? = some b) (holds : p a = true)
    (also : p b = true) : i = j := by
  by_contra differ
  obtain ⟨inside, rfl⟩ := List.getElem?_eq_some_iff.mp first
  have shorter := (List.getElem_cons_eraseIdx_perm inside).countP_eq p
  rw [List.countP_cons_of_pos holds] at shorter
  have member : b ∈ l.eraseIdx i := List.mem_eraseIdx_iff_getElem?.mpr ⟨j, fun same =>
    differ same.symm, second⟩
  have counted : 0 < (l.eraseIdx i).countP p := List.countP_pos_iff.mpr ⟨b, member, also⟩
  omega

theorem countP_set_le {α : Type} {p : α → Bool} {l : List α} {i : Nat} {a b : α}
    (there : l[i]? = some a)
    (weaker : p b = true → p a = true) : (l.set i b).countP p ≤ l.countP p := by
  obtain ⟨inside, rfl⟩ := List.getElem?_eq_some_iff.mp there
  rw [List.countP_set inside]
  have counted : p l[i] = true → 0 < l.countP p := fun holds =>
    List.countP_pos_iff.mpr ⟨l[i], List.getElem_mem inside, holds⟩
  cases now : p b with
  | true => simp [weaker now, Nat.sub_add_cancel (counted (weaker now))]
  | false => simp

/-- The step starts a new process. -/
def restarts : Label → Bool
  | .restart .. => true
  | _ => false

/-- The invariants of every run of one process. -/
structure Sound (s : System) : Prop where
  once : s.inflight.countP Frame.holdsLock ≤ 1
  orderly : Orderly s.cluster
  issued : ∀ id execution, s.cluster.executions.get id = some execution → id ∈ s.issued
  pending : ∀ ops reply execution secrets queue, Frame.running ops reply ∈ s.inflight →
    Op.insertExecution execution secrets queue ∈ ops →
    ops = [.insertExecution execution secrets queue] ∧ (Move.receive execution).Allowed s.cluster ∧
      execution.id ∈ s.issued

/-- A process that begins to accept requests: nothing is in flight, nothing is on a node. -/
structure Started (s : System) : Prop where
  quiet : s.inflight = []
  waiting : ∀ id execution, s.cluster.executions.get id = some execution →
    execution.status = .queued ∧ execution.node = none
  issued : ∀ id execution, s.cluster.executions.get id = some execution → id ∈ s.issued

theorem Started.sound {s : System} (started : Started s) : Sound s := by
  refine ⟨by simp [started.quiet], ⟨?_, ?_⟩, started.issued, ?_⟩
  · intro id execution present
    rw [(started.waiting id execution present).1]
    rfl
  · intro id execution present _
    exact (started.waiting id execution present).2
  · intro ops reply execution secrets queue member
    rw [started.quiet] at member
    cases member

theorem locked_eq_false_iff (s : System) : s.locked = false ↔
    s.inflight.countP Frame.holdsLock = 0 := by
  simp [locked, List.countP_eq_zero]

/-- A move brings in no execution but the one it admits. -/
theorem get_before_move {c : Cluster} {move : Move} (allowed : move.Allowed c) {id : Uuid}
    {execution : Execution}
    (present : (c.move move).executions.get id = some execution) :
    (∃ before, c.executions.get id = some before) ∨ move = .receive execution ∧
      id = execution.id := by
  rw [Cluster.get_move allowed] at present
  cases before : c.executions.get id with
  | some old => exact .inl ⟨old, rfl⟩
  | none =>
    rw [before] at present
    cases move <;> simp only [Move.onExecution] at present <;> try (split_ifs at present)
    all_goals try cases present
    exact .inr ⟨rfl, ‹_›⟩

/-- The handler at the index is about to insert the row of a new execution. -/
def Inserts (s : System) (index : Nat) (execution : Execution) : Prop :=
  ∃ secrets queue rest reply, s.inflight[index]? =
    some (.running (.insertExecution execution secrets queue :: rest) reply)

/-- The execution whose row a handler is about to insert is new and its pool is there. -/
theorem Sound.inserting {s : System} (sound : Sound s) {index : Nat} {execution : Execution}
    (inserts : Inserts s index execution) :
    (Move.receive execution).Allowed s.cluster ∧ execution.id ∈ s.issued := by
  obtain ⟨secrets, queue, rest, reply, there⟩ := inserts
  exact (sound.pending _ _ execution secrets queue (List.mem_of_getElem? there)
    List.mem_cons_self).2

/-- Handing the calls of one handler on to fewer calls keeps the lock unique. -/
theorem once_set {s : System} {index : Nat} {ops ops' : List Op} {reply reply' : Reply}
    (once : s.inflight.countP Frame.holdsLock ≤ 1)
    (there : s.inflight[index]? = some (.running ops reply))
    (fewer : ops'.any Op.needsLock = true → ops.any Op.needsLock = true) :
    (s.inflight.set index (.running ops' reply')).countP Frame.holdsLock ≤ 1 :=
  (countP_set_le there fewer).trans once

theorem Sound.holds_of_insert {ops : List Op} {reply : Reply} {execution : Execution}
    {secrets : Bytes} {queue : Bool}
    (member : Op.insertExecution execution secrets queue ∈
      ops) : (Frame.running ops reply).holdsLock = true :=
  List.any_eq_true.mpr ⟨_, member, rfl⟩

/-- While the lock is free no insertion is pending. -/
theorem Sound.no_insert {s : System} (free : s.locked = false) {ops : List Op} {reply : Reply}
    {execution : Execution}
    {secrets : Bytes} {queue : Bool} (member : Frame.running ops reply ∈ s.inflight)
    (inserts : Op.insertExecution execution secrets queue ∈ ops) : False := by
  have none_held := List.any_eq_false.mp free _ member
  exact none_held (Sound.holds_of_insert inserts)

theorem admitExecution_ops (execution : Execution) (queue : Bool) (c : Cluster) :
    (∃ copy, (admitExecution execution queue c).ops = [.saveExecution copy, .unlock]) ∨
      (admitExecution execution queue c).ops = [.deleteExecution execution.id, .unlock] := by
  unfold admitExecution
  dsimp only
  split
  · exact .inl ⟨_, rfl⟩
  · split_ifs
    · exact .inl ⟨_, rfl⟩
    · exact .inr rfl

theorem fresh_of_allows {s : System} {commit : Commit} (allowed : s.allows commit = true)
    (name : String)
    (makes : commit.newPoolName = some name) : s.cluster.pools.get name = none := by
  simp only [allows, Bool.and_eq_true] at allowed
  simpa [makes, Keyed.contains] using allowed.1.2

theorem fits_of_allows {s : System} {commit : Commit} (allowed : s.allows commit = true) :
    commit.choiceFits s.cluster = true := by
  simp only [allows, Bool.and_eq_true] at allowed
  exact allowed.2

variable [Crates]

/-- Only `create_execution` inserts a row, as its only call and for a new execution. -/
theorem insert_of_run {c : Cluster} {commit : Commit} {result : Section} {execution : Execution}
    {secrets : Bytes}
    {queue : Bool} (ran : commit.run c = .ok result)
    (member : Op.insertExecution execution secrets queue ∈ result.ops) :
    result.cluster = c ∧ result.ops = [.insertExecution execution secrets queue] ∧
      commit.issues = [execution.id] ∧ execution.status = .queued ∧ execution.node = none ∧
      ∃ pool, c.pools.get execution.pool = some pool ∧
        ((∃ named, c.environments.get named.id = some named ∧
        execution.environment = some named.id ∧ execution.pool = named.pool) ∨
        ∃ environment, execution.environment = some environment ∧
          pool.environment = some environment) := by
  cases Commit.ending ran with
  | saved _ ops => simp [ops] at member
  | scheduled | unchanged | restartPanicked | restarted | updated | createPanicked | workPanicked | worked |
    completed => simp [scheduleAndSave, finishEnvironment, panicSection] at member
  | deletedEnvironment => simp at member
  | created id request fresh now poolName pool environment known resolved =>
    simp only [List.mem_singleton, Op.insertExecution.injEq] at member
    obtain ⟨rfl, rfl, rfl⟩ := member
    refine ⟨rfl, rfl, rfl, rfl, rfl, pool, known, ?_⟩
    rcases resolved with ⟨named, present, rfl⟩ | managed
    · have own := Keyed.key_of_get present
      exact .inl ⟨named, Keyed.get_congr present, by rw [own]; rfl, rfl⟩
    · exact .inr ⟨environment, rfl, managed⟩

/-- The moves that a step may make, besides those that add instances. -/
def uses (s : System) (label : Label) (move : Move) : Prop :=
  (∃ commit others, Entered s label commit others ∧ commit.uses s.cluster move) ∨
    ∃ index execution, label = .op index true ∧ Inserts s index execution ∧
      (move = .receive execution ∨ move = .withdraw execution.id)

/-- Every step of a process moves the cluster as a section does: it sheds, then it grows. -/
theorem step_moves {s t : System} {label : Label} (sound : Sound s)
    (stepped : s.step label = some t)
    (same : restarts label = false) : ShedThenGrow (s.uses label) s.cluster t.cluster := by
  cases step_cases stepped with
  | performed _ commit others result free allowed entered ran =>
    exact (Commit.moves ran sound.orderly (fits_of_allows allowed) (fresh_of_allows allowed)).mono
      (fun move used => .inl ⟨commit, others, entered, used⟩)
  | admitted index execution secrets queue rest before database there stored =>
    have inserts : Inserts s index execution := ⟨secrets, queue, rest, before, there⟩
    exact (admitExecution_moves queue (sound.inserting inserts).1).mono (fun move used =>
      .inr ⟨index, execution, rfl, inserts, used⟩)
  | called index op rest before after next there plain done =>
    change ShedThenGrow _ s.cluster next.cluster
    rw [(runOp_frame plain done).1]
    exact Moves.ends (.refl _)
  | restarted => cases same
  | _ => exact Moves.ends (.refl _)

theorem Sound.orderly_step {s t : System} {label : Label} (sound : Sound s)
    (stepped : s.step label = some t)
    (same : restarts label = false) : Orderly t.cluster :=
  (step_moves sound stepped same).invariant sound.orderly
    (fun orderly allowed _ _ => orderly.move allowed)

theorem issued_mono {s t : System} {label : Label} (stepped : s.step label = some t) {id : Uuid}
    (known : id ∈ s.issued) : id ∈ t.issued := by
  cases step_cases stepped with
  | performed | declined | restarted => exact List.mem_append_right _ known
  | called index op rest before after next there plain done =>
      exact (runOp_frame plain done).2.1 ▸ known
  | _ => exact known

theorem Sound.issued_step {s t : System} {label : Label} (sound : Sound s)
    (stepped : s.step label = some t)
    (same : restarts label = false) :
    ∀ id execution, t.cluster.executions.get id = some execution → id ∈ t.issued := by
  have kept : ∀ id execution, t.cluster.executions.get id = some execution → id ∈ s.issued := by
    refine (step_moves sound stepped same).invariant
      (P := fun c => ∀ id execution, c.executions.get id = some execution →
        id ∈ s.issued) sound.issued ?_
    intro c move known allowed used _ id execution present
    rcases get_before_move allowed present with ⟨before, found⟩ | ⟨rfl, rfl⟩
    · exact known id before found
    · rcases used with grows | ⟨commit, others, _, never⟩ | ⟨index, inserted, _,
        inserts, equal | other⟩
      · cases grows
      · cases never
      · cases equal
        exact (sound.inserting inserts).2
      · cases other
  exact fun id execution present => issued_mono stepped (kept id execution present)

/-- The lock stays unique: a section starts only when it is free. -/
theorem Sound.once_step {s t : System} {label : Label} (sound : Sound s)
    (stepped : s.step label = some t) :
    t.inflight.countP Frame.holdsLock ≤ 1 := by
  have appended (frame : Frame) (free : frame.holdsLock = false) :
      (s.inflight ++ [frame]).countP Frame.holdsLock ≤ 1 := by
    simpa [free] using sound.once
  cases step_cases stepped with
  | refused _ others error fewer => exact fewer.countP_le.trans sound.once
  | authenticated node hash claimed request known => exact appended _ rfl
  | started id request job free checked => exact appended _ rfl
  | importing name => exact appended _ rfl
  | performed _ commit others result free allowed entered ran =>
    have bound := entered.fewer.countP_le (p := Frame.holdsLock)
    rw [(locked_eq_false_iff s).mp free] at bound
    rw [List.countP_append, Nat.le_zero.mp bound, Nat.zero_add]
    exact List.countP_le_length
  | declined _ commit others error entered => exact entered.fewer.countP_le.trans sound.once
  | prepared index event job next files there done =>
    exact (countP_set_le there (fun held => by cases held)).trans sound.once
  | answered index => exact (List.eraseIdx_sublist _ _).countP_le.trans sound.once
  | failed index => exact (List.eraseIdx_sublist _ _).countP_le.trans sound.once
  | ignored index artifact rest reply there =>
      exact once_set sound.once there (fun held => by simp [held])
  | called index op rest before after next there plain done =>
    exact once_set sound.once there (fun held => by simp [held])
  | admitted index execution secrets queue rest before database there stored =>
    exact once_set sound.once there (fun _ => rfl)
  | rejected index execution secrets queue rest before database there stored =>
    exact once_set sound.once there (fun _ => rfl)
  | restarted => exact Nat.zero_le 1
  | _ => exact sound.once

/-- A pending insertion stays as it was made until it is carried out. -/
theorem Sound.pending_step {s t : System} {label : Label} (sound : Sound s)
    (stepped : s.step label = some t)
    {ops : List Op} {reply : Reply} {execution : Execution} {secrets : Bytes} {queue : Bool}
    (member : Frame.running ops reply ∈ t.inflight)
    (inserts : Op.insertExecution execution secrets queue ∈ ops) :
    ops = [.insertExecution execution secrets queue] ∧ (Move.receive execution).Allowed t.cluster ∧
      execution.id ∈ t.issued := by
  have known (found : Frame.running ops reply ∈ s.inflight) :=
    sound.pending ops reply execution secrets queue found inserts
  -- A handler that is about to insert a row is the only one to hold the lock.
  have exclusive {index : Nat} {inserted : Execution} {sealed : Bytes} {wait : Bool}
    {rest ops' : List Op}
      {before reply' : Reply}
      (there : s.inflight[index]? =
        some (.running (.insertExecution inserted sealed wait :: rest) before))
      (found : Frame.running ops reply ∈ s.inflight.set index (.running ops' reply')) :
      Frame.running ops reply = .running ops' reply' := by
    obtain ⟨position, at_position⟩ := List.getElem?_of_mem found
    by_cases own : position = index
    · subst own
      rw [List.getElem?_set_self (List.getElem?_eq_some_iff.mp there).1] at at_position
      exact (Option.some.inj at_position).symm
    · rw [List.getElem?_set_ne (fun same => own same.symm)] at at_position
      exact absurd (unique_of_countP sound.once at_position there
        (Sound.holds_of_insert inserts) rfl) own
  cases step_cases stepped with
  | refused _ others error fewer => exact known (fewer.subset member)
  | authenticated | started | importing =>
    rcases List.mem_append.mp member with before | new
    · exact known before
    · simp at new
  | performed _ commit others result free allowed entered ran =>
    rcases List.mem_append.mp member with before | new
    · exact (Sound.no_insert free (entered.fewer.subset before) inserts).elim
    · obtain ⟨rfl, rfl⟩ : ops = result.ops ∧ reply = result.reply := by simpa using new
      obtain ⟨same, only, issues, queued, unplaced, pool, there, -⟩ := insert_of_run ran inserts
      simp only [allows, Bool.and_eq_true, issues, List.all_cons, List.all_nil, Bool.and_true,
        decide_eq_true_eq] at allowed
      have absent : s.cluster.executions.get execution.id = none := by
        by_contra present
        obtain ⟨old, present⟩ := Option.ne_none_iff_exists'.mp present
        exact allowed.1.1 (sound.issued _ old present)
      refine ⟨only, ?_, by simp [issues]⟩
      change (Move.receive execution).Allowed result.cluster
      rw [same]
      exact ⟨absent, queued, unplaced, (Keyed.contains_iff _ _).mpr ⟨pool, there⟩⟩
  | declined _ commit others error entered =>
    obtain ⟨only, allowed, issued⟩ := known (entered.fewer.subset member)
    exact ⟨only, allowed, List.mem_append_right _ issued⟩
  | prepared index event job next files there done =>
    rcases List.mem_or_eq_of_mem_set member with before | new
    · exact known before
    · cases new
  | answered index => exact known ((List.eraseIdx_sublist _ _).subset member)
  | failed index => exact known ((List.eraseIdx_sublist _ _).subset member)
  | ignored index artifact rest before there =>
    rcases List.mem_or_eq_of_mem_set member with same | new
    · exact known same
    · cases new
      cases (sound.pending _ _ execution secrets queue (List.mem_of_getElem? there)
        (List.mem_cons_of_mem _ inserts)).1
  | called index op rest before after next there plain done =>
    rcases List.mem_or_eq_of_mem_set member with same | new
    · obtain ⟨unchanged, issues, -⟩ := runOp_frame plain done
      obtain ⟨only, allowed, issued⟩ := known same
      refine ⟨only, ?_, ?_⟩
      · change (Move.receive execution).Allowed next.cluster
        rwa [unchanged]
      · change execution.id ∈ next.issued
        rwa [issues]
    · cases new
      have only := (sound.pending _ _ execution secrets queue (List.mem_of_getElem? there)
        (List.mem_cons_of_mem _ inserts)).1
      simp only [List.cons.injEq] at only
      rw [only.2] at inserts
      cases inserts
  | admitted index inserted sealed wait rest before database there stored =>
    cases exclusive there member
    rcases admitExecution_ops inserted wait s.cluster with ⟨copy, shape⟩ | shape <;>
      simp [shape] at inserts
  | rejected index inserted sealed wait rest before database there stored =>
    cases exclusive there member
    cases inserts
  | restarted => cases member
  | _ => exact known member

theorem Sound.step {s t : System} {label : Label} (sound : Sound s)
    (stepped : s.step label = some t)
    (same : restarts label = false) : Sound t :=
  ⟨sound.once_step stepped, sound.orderly_step stepped same, sound.issued_step stepped same,
    fun _ _ _ _ _ member inserts => sound.pending_step stepped member inserts⟩

/-- The runs of one process whose steps all meet a condition. -/
abbrev Run (may : System → Label → Prop) : System → System → Prop :=
  Runs.Reaches System.step (fun s label => restarts label = false ∧ may s label)

theorem Sound.run {may : System → Label → Prop} {s t : System} (sound : Sound s)
    (run : Run may s t) : Sound t :=
  run.invariant sound (fun before allowed stepped => before.step stepped allowed.1)

end System
end Scraperack
