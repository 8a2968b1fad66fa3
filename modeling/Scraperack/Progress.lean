import Scraperack.Durability
import Scraperack.Pools

/-! Handlers in flight come to their end. Each of their steps leaves less for them to do, and as
long as one is in flight some step of one of them is possible: nobody waits for ever for the
cluster lock. -/

/-- Of more numbers than there are places taken, one is free under both of two namings. -/
theorem exists_free {A B : Type} {size : Nat} {f : Fin size → A} {g : Fin size → B}
    (first : Function.Injective f) (second : Function.Injective g) (l : List A) (m : List B)
    (room : l.length + m.length < size) : ∃ k, f k ∉ l ∧ g k ∉ m := by
  classical
  by_contra none
  push Not at none
  have all : (Finset.univ : Finset (Fin size)) ⊆
      Finset.univ.filter (fun k => f k ∈ l) ∪ Finset.univ.filter (fun k => g k ∈ m) := by
    intro k _
    by_cases taken : f k ∈ l
    · simp [taken]
    · simp [none k taken]
  have bounded {C : Type} {h : Fin size → C} (injective : Function.Injective h) (n : List C) :
      (Finset.univ.filter (fun k => h k ∈ n)).card ≤ n.length := by
    refine le_trans (Finset.card_le_card_of_injOn h ?_ injective.injOn) n.toFinset_card_le
    intro k member
    simpa using member
  have few := (Finset.card_le_card all).trans (Finset.card_union_le _ _)
  rw [Finset.card_univ, Fintype.card_fin] at few
  have left := bounded first l
  have right := bounded second m
  omega

namespace Scraperack

/-! Identifiers for the taking. -/

/-- The identifiers whose digits behind the eighth are all zero. -/
def Uuid.spread (k : Fin (2 ^ 32)) : Uuid := BitVec.ofNat 128 (k.val * 16 ^ 24)

theorem Uuid.toNat_spread (k : Fin (2 ^ 32)) : (Uuid.spread k).toNat = k.val * 16 ^ 24 := by
  have bounded : k.val * 16 ^ 24 < 2 ^ 128 := by
    have := k.isLt
    omega
  rw [Uuid.spread, BitVec.toNat_ofNat, Nat.mod_eq_of_lt bounded]

theorem Uuid.spread_injective : Function.Injective Uuid.spread := by
  intro a b same
  have numbers := congrArg BitVec.toNat same
  rw [Uuid.toNat_spread, Uuid.toNat_spread] at numbers
  exact Fin.ext (Nat.eq_of_mul_eq_mul_right (by positivity) numbers)

theorem Uuid.drop_spread (k : Fin (2 ^ 32)) :
    (Uuid.spread k).digits.drop 8 = List.replicate 24 '0' := by
  refine List.ext_getElem (by simp [Uuid.digits_length]) (fun i inside _ => ?_)
  rw [List.length_drop, Uuid.digits_length] at inside
  have low (n : Nat) : n * 16 ^ 24 / 16 ^ (31 - (8 + i)) % 16 = 0 := by
    have split : (16 : Nat) ^ 24 = 16 ^ (i + 1) * 16 ^ (31 - (8 + i)) := by
      rw [← pow_add]
      congr 1
      omega
    rw [split, ← Nat.mul_assoc, Nat.mul_div_cancel _ (by positivity), pow_succ, ← Nat.mul_assoc]
    exact Nat.mul_mod_left _ _
  simp only [Uuid.digits, List.getElem_drop, List.getElem_map, List.getElem_range,
    Uuid.toNat_spread, low, List.getElem_replicate]
  rfl

/-- Their first eight digits tell them apart. -/
theorem Uuid.take_spread_injective : Function.Injective (fun k => (Uuid.spread k).digits.take 8) := by
  intro a b same
  refine Uuid.spread_injective (Uuid.digits_injective ?_)
  rw [← List.take_append_drop 8 (Uuid.spread a).digits,
    ← List.take_append_drop 8 (Uuid.spread b).digits, Uuid.drop_spread, Uuid.drop_spread]
  exact congrArg (· ++ List.replicate 24 '0') same

theorem environmentPoolName_injective : Function.Injective environmentPoolName := by
  intro a b same
  exact ownName_unique (same ▸ ownName_environmentPoolName a) (ownName_environmentPoolName b)

theorem restartedPoolName_spread (id : Uuid) :
    Function.Injective (fun k => restartedPoolName id (Uuid.spread k)) := by
  intro a b same
  refine Uuid.take_spread_injective ?_
  have chars := congrArg String.toList same
  simpa [restartedPoolName] using chars

/-! What handlers have left to do. -/

/-- The calls of which it may be the first: after its insertion `create_execution` makes two more. -/
def Op.effort : Op → Nat
  | insertExecution .. => 3
  | _ => 1

def Stage.effort : Stage → Nat
  | .looking => 4
  | .building => 3
  | .measuring => 2
  | .hashing _ => 1
  | .ready _ => 0

/-- The steps that a handler has left at most. No section leaves more than four calls. -/
def Frame.effort : Frame → Nat
  | running ops _ => (ops.map Op.effort).sum + 1
  | environment job => job.stage.effort + 6
  | authenticated .. | importing _ => 6

/-- The handler has its section before it. -/
def Frame.enters : Frame → Bool
  | running .. => false
  | _ => true

theorem Frame.effort_pos (frame : Frame) : 0 < frame.effort := by
  cases frame <;> simp [Frame.effort]

theorem Op.effort_pos (op : Op) : 0 < op.effort := by cases op <;> simp [Op.effort]

theorem Frame.effort_of_enters {frame : Frame} (enters : frame.enters = true) :
    6 ≤ frame.effort := by
  cases frame <;> simp_all [Frame.enters, Frame.effort]

section
variable [Crates] {c : Cluster} {commit : Commit} {result : Section}

theorem run_effort (ran : commit.run c = .ok result) :
    (Frame.running result.ops result.reply).effort ≤ 5 := by
  cases Commit.ending ran with
  | saved same ops => simp [Frame.effort, ops, Op.effort]
  | deletedEnvironment id environment =>
    cases orphanedArtifact (withoutEnvironment c environment) environment <;>
      simp [Frame.effort, Op.effort]
  | _ => simp [Frame.effort, Op.effort, scheduleAndSave, finishEnvironment, panicSection]

omit [Crates] in
theorem admitExecution_effort (execution : Execution) (queue : Bool) (c : Cluster) :
    ((admitExecution execution queue c).ops.map Op.effort).sum = 2 := by
  rcases System.admitExecution_ops execution queue c with ⟨copy, only⟩ | only <;> simp [only, Op.effort]

/-- A section adds one pool at most. -/
theorem run_pools (ran : commit.run c = .ok result) :
    result.cluster.pools.values.length ≤ c.pools.values.length + 1 := by
  let written := (commit.writesPool c).toList.map Pool.name
  have named : PoolsAll (fun pool => pool.name ∈ c.pools.values.map Pool.name ++ written)
      result.cluster := by
    refine Commit.poolsAll ran (fun name pool known => ?_) (fun pool good => good)
      (fun pool writes => ?_)
    · exact List.mem_append_left _ (List.mem_map_of_mem (Keyed.mem_of_get known))
    · exact List.mem_append_right _ (by simp [written, writes])
  have inside : result.cluster.pools.values.map Pool.name ⊆ c.pools.values.map Pool.name ++
      written := by
    intro name member
    obtain ⟨pool, present, rfl⟩ := List.mem_map.mp member
    exact named pool.name pool ((Keyed.mem_values_iff _ _).mp present)
  have few := (List.subperm_of_subset result.cluster.pools.nodup inside).length_le
  have one : written.length ≤ 1 := by
    cases writes : commit.writesPool c <;> simp [written, writes]
  simp only [List.length_append, List.length_map] at few
  omega

omit [Crates] in
theorem issues_length (commit : Commit) : commit.issues.length ≤ 1 := by
  cases commit <;> simp [Commit.issues]

end

namespace System
variable [Crates] {s t : System} {label : Label}

/-- The step is one of a handler in flight. -/
def continues : Label → Bool
  | .enter .. | .prepare .. | .op .. => true
  | _ => false

def effort (s : System) : Nat := (s.inflight.map Frame.effort).sum

/-- The identifiers and the names of pools that are taken, or may be when all handlers in flight
are through with their sections. -/
def taken (s : System) : Nat :=
  s.issued.length + s.cluster.pools.values.length + 2 * s.inflight.countP Frame.enters

omit [Crates] in
theorem effort_erase {frames : List Frame} {index : Nat} {frame : Frame}
    (there : frames[index]? = some frame) :
    ((frames.eraseIdx index).map Frame.effort).sum + frame.effort =
      (frames.map Frame.effort).sum := by
  obtain ⟨inside, rfl⟩ := List.getElem?_eq_some_iff.mp there
  have same := ((List.getElem_cons_eraseIdx_perm inside).map Frame.effort).sum_eq
  rw [List.map_cons, List.sum_cons] at same
  omega

omit [Crates] in
theorem effort_set {frames : List Frame} {index : Nat} {frame : Frame}
    (there : frames[index]? = some frame) (next : Frame) :
    ((frames.set index next).map Frame.effort).sum + frame.effort =
      (frames.map Frame.effort).sum + next.effort := by
  have inside := (List.getElem?_eq_some_iff.mp there).1
  have same := ((List.set_perm_cons_eraseIdx inside next).map Frame.effort).sum_eq
  rw [List.map_cons, List.sum_cons] at same
  have erased := effort_erase there
  omega

omit [Crates] in
theorem enters_erase {frames : List Frame} {index : Nat} {frame : Frame}
    (there : frames[index]? = some frame) :
    (frames.eraseIdx index).countP Frame.enters + (if frame.enters then 1 else 0) =
      frames.countP Frame.enters := by
  obtain ⟨inside, rfl⟩ := List.getElem?_eq_some_iff.mp there
  have same := (List.getElem_cons_eraseIdx_perm inside).countP_eq Frame.enters
  rw [List.countP_cons] at same
  omega

omit [Crates] in
theorem enters_set {frames : List Frame} {index : Nat} {frame : Frame}
    (there : frames[index]? = some frame) {next : Frame} (kind : next.enters = frame.enters) :
    (frames.set index next).countP Frame.enters = frames.countP Frame.enters := by
  have inside := (List.getElem?_eq_some_iff.mp there).1
  have same := (List.set_perm_cons_eraseIdx inside next).countP_eq Frame.enters
  rw [List.countP_cons, kind] at same
  have erased := enters_erase there
  omega

theorem prepareJob_effort {files files' : Keyed.Table String Bytes} {job next : Job}
    {event : PrepareEvent} (done : prepareJob files job event = some (files', .ok next)) :
    next.stage.effort < job.stage.effort := by
  cases event with
  | look =>
    simp only [prepareJob] at done
    split_ifs at done with stage found <;> cases done <;> simp [stage, Stage.effort]
  | built content =>
    simp only [prepareJob] at done
    split_ifs at done with stage
    cases done
    simp [stage, Stage.effort]
  | measure =>
    simp only [prepareJob] at done
    split_ifs at done with stage
    split at done <;> cases done
    simp [stage, Stage.effort]
  | hash =>
    simp only [prepareJob] at done
    split at done
    · rename_i stage
      split at done <;> cases done
      simp [stage, Stage.effort]
    · cases done
  | fail =>
    simp only [prepareJob] at done
    split at done <;> cases done

/-- A call leaves less to do than there was. -/
theorem called_effort {index : Nat} {succeeds : Bool} (stepped : s.step (.op index succeeds) = some t) :
    t.effort < s.effort := by
  have less {ops rest : List Op} {reply after : Reply} {op : Op}
      (there : s.inflight[index]? = some (.running (op :: rest) reply))
      (fewer : (ops.map Op.effort).sum < op.effort + (rest.map Op.effort).sum)
      (same : t.inflight = s.inflight.set index (.running ops after)) : t.effort < s.effort := by
    have changed := effort_set there (.running ops after)
    simp only [Frame.effort, List.map_cons, List.sum_cons] at changed
    rw [effort, effort, same]
    omega
  have gone {frame : Frame} (there : s.inflight[index]? = some frame)
      (same : t.inflight = s.inflight.eraseIdx index) : t.effort < s.effort := by
    have changed := effort_erase there
    have positive := frame.effort_pos
    rw [effort, effort, same]
    omega
  cases op_cases stepped with
  | answered _ reply there => exact gone there rfl
  | called op rest before after next there plain done =>
    exact less there (by have := op.effort_pos; omega) rfl
  | admitted execution secrets queue rest before database there stored =>
    refine less there ?_ rfl
    rw [admitExecution_effort]
    simp only [Op.effort]
    omega
  | rejected execution secrets queue rest before database there stored =>
    refine less there ?_ rfl
    simp only [List.map_nil, List.sum_nil, Op.effort]
    omega
  | failed _ op rest reply there error => exact gone there rfl
  | ignored artifact rest reply there => exact less there (by simp [Op.effort]) rfl

/-- What a handler does when it enters its section. -/
theorem enter_cases {index : Nat} {input : Input} (stepped : s.step (.enter index input) = some t) :
    ∃ frame commit, s.inflight[index]? = some frame ∧ frame.commit input = some commit ∧
      t = s.perform commit (s.inflight.eraseIdx index) := by
  simp only [step] at stepped
  split at stepped
  · cases stepped
  · rename_i commit ready
    obtain ⟨frame, there, committed⟩ := Option.bind_eq_some_iff.mp ready
    split_ifs at stepped
    exact ⟨frame, commit, there, committed, (Option.some.inj stepped).symm⟩

omit [Crates] in
theorem enters_of_commit {frame : Frame} {input : Input} {commit : Commit}
    (ready : frame.commit input = some commit) : frame.enters = true := by
  cases frame <;> first | rfl | cases ready

/-- Each step of a handler in flight leaves less for the handlers to do. -/
theorem effort_step (own : continues label = true) (stepped : s.step label = some t) :
    t.effort < s.effort := by
  cases label with
  | op index succeeds => exact called_effort stepped
  | enter index input =>
    obtain ⟨frame, commit, there, ready, rfl⟩ := enter_cases stepped
    have erased := effort_erase there
    have long := Frame.effort_of_enters (enters_of_commit ready)
    unfold perform
    split
    · change ((s.inflight.eraseIdx index).map Frame.effort).sum < (s.inflight.map Frame.effort).sum
      omega
    · rename_i result ran
      have short := run_effort ran
      change ((s.inflight.eraseIdx index ++ [_]).map Frame.effort).sum <
        (s.inflight.map Frame.effort).sum
      rw [List.map_append, List.sum_append, List.map_singleton, List.sum_singleton]
      omega
  | prepare index event =>
    simp only [step] at stepped
    split at stepped
    · rename_i job there
      split at stepped
      · cases stepped
      · rename_i files next done
        obtain rfl := Option.some.inj stepped
        have changed := effort_set there (.environment next)
        have lower := prepareJob_effort done
        simp only [Frame.effort] at changed
        change ((s.inflight.set index _).map Frame.effort).sum < (s.inflight.map Frame.effort).sum
        omega
      · obtain rfl := Option.some.inj stepped
        have changed := effort_erase there
        have positive := (Frame.environment job).effort_pos
        change ((s.inflight.eraseIdx index).map Frame.effort).sum <
          (s.inflight.map Frame.effort).sum
        omega
    · cases stepped
  | _ => cases own

/-- And takes no names that were not reckoned with. -/
theorem taken_step (own : continues label = true) (stepped : s.step label = some t) :
    t.taken ≤ s.taken := by
  cases label with
  | op index succeeds =>
    have goes {before after : List Op} {reply answer : Reply}
        (there : s.inflight[index]? = some (.running before reply))
        (pools : t.cluster.pools = s.cluster.pools) (issued : t.issued = s.issued)
        (same : t.inflight = s.inflight.set index (.running after answer)) :
        t.taken ≤ s.taken := by
      have kind : (Frame.running after answer).enters = (Frame.running before reply).enters := rfl
      rw [taken, taken, pools, issued, same, enters_set there kind]
    have gone {frame : Frame} (there : s.inflight[index]? = some frame)
        (cluster : t.cluster = s.cluster) (issued : t.issued = s.issued)
        (same : t.inflight = s.inflight.eraseIdx index) : t.taken ≤ s.taken := by
      have erased := enters_erase there
      rw [taken, taken, cluster, issued, same]
      omega
    cases op_cases stepped with
    | answered _ reply there => exact gone there rfl rfl rfl
    | called op rest before after next there plain done =>
      obtain ⟨cluster, issued, -⟩ := runOp_frame plain done
      exact goes there (congrArg Cluster.pools cluster) issued rfl
    | admitted execution secrets queue rest before database there stored =>
      exact goes there (admitExecution_pools ..) rfl rfl
    | rejected execution secrets queue rest before database there stored =>
      exact goes there rfl rfl rfl
    | failed _ op rest reply there error => exact gone there rfl rfl rfl
    | ignored artifact rest reply there => exact goes there rfl rfl rfl
  | enter index input =>
    obtain ⟨frame, commit, there, ready, rfl⟩ := enter_cases stepped
    have erased := enters_erase there
    rw [if_pos (enters_of_commit ready)] at erased
    have issues := issues_length commit
    unfold perform
    split
    · change (commit.issues ++ s.issued).length + s.cluster.pools.values.length +
        2 * (s.inflight.eraseIdx index).countP Frame.enters ≤ s.taken
      rw [taken, List.length_append]
      omega
    · rename_i result ran
      have pools := run_pools ran
      change (commit.issues ++ s.issued).length + result.cluster.pools.values.length +
        2 * (s.inflight.eraseIdx index ++ [_]).countP Frame.enters ≤ s.taken
      rw [taken, List.length_append, List.countP_append, List.countP_singleton]
      simp only [Frame.enters, Bool.false_eq_true, ↓reduceIte]
      omega
  | prepare index event =>
    simp only [step] at stepped
    split at stepped
    · rename_i job there
      split at stepped
      · cases stepped
      · rename_i files next done
        obtain rfl := Option.some.inj stepped
        have same : (Frame.environment next).enters = (Frame.environment job).enters := rfl
        simp only [taken, enters_set there same, le_refl]
      · obtain rfl := Option.some.inj stepped
        have erased := enters_erase there
        rw [taken, taken]
        simp only [answer]
        omega
    · cases stepped
  | _ => cases own

omit [Crates] in
theorem allows_iff {commit : Commit} : s.allows commit = true ↔
    (∀ id ∈ commit.issues, id ∉ s.issued) ∧
      (∀ name, commit.newPoolName = some name → s.cluster.pools.contains name = false) ∧
        commit.choiceFits s.cluster = true := by
  simp only [allows, Bool.and_eq_true, List.all_eq_true, decide_eq_true_eq, Option.all_eq_true,
    Bool.not_eq_true', and_assoc]

omit [Crates] in
/-- A node's request finds nothing in its way but the lock. -/
theorem exists_input (node : Uuid) (request : NodeRequest) :
    ∃ input, s.allows (request.commit node input) = true := by
  by_cases offered : request = .nextWork ∧ s.cluster.executions.any (assignedTo node) = true
  · obtain ⟨rfl, offered⟩ := offered
    obtain ⟨id, execution, present, assigned⟩ := (Keyed.any_iff _ _).mp offered
    refine ⟨⟨0, 0, some id, none⟩, allows_iff.mpr ⟨fun _ member => ?_, fun _ made => ?_, ?_⟩⟩
    · cases member
    · cases made
    · simp [NodeRequest.commit, Commit.choiceFits, present, assigned]
  · refine ⟨⟨0, 0, none, none⟩, allows_iff.mpr ⟨fun _ member => ?_, fun _ made => ?_, ?_⟩⟩
    · cases request <;> cases member
    · cases request <;> cases made
    · cases request with
      | nextWork => simpa [NodeRequest.commit, Commit.choiceFits] using offered
      | _ => rfl

omit [Crates] in
/-- There is an identifier that is new and gives a new name. -/
theorem exists_fresh (room : s.taken < 2 ^ 32) {name : Uuid → String}
    (different : Function.Injective (fun k => name (Uuid.spread k))) :
    ∃ id, id ∉ s.issued ∧ s.cluster.pools.contains (name id) = false := by
  have fits : s.issued.length + (s.cluster.pools.values.map Pool.name).length < 2 ^ 32 := by
    rw [List.length_map]
    rw [taken] at room
    omega
  obtain ⟨k, new, free⟩ := exists_free Uuid.spread_injective different _ _ fits
  refine ⟨Uuid.spread k, new, (Keyed.contains_eq_false_iff _ _).mpr ?_⟩
  rw [Keyed.get_eq_none_iff]
  exact fun pool member same => free (List.mem_map.mpr ⟨pool, member, same⟩)

theorem enter_of_allows {index : Nat} {frame : Frame} {input : Input} {commit : Commit}
    (there : s.inflight[index]? = some frame) (ready : frame.commit input = some commit)
    (free : s.locked = false) (allowed : s.allows commit = true) :
    (s.step (.enter index input)).isSome = true := by
  simp [step, there, ready, free, allowed]

/-- A handler that has calls left can make the next one. -/
theorem op_enabled {index : Nat} {ops : List Op} {reply : Reply}
    (there : s.inflight[index]? = some (.running ops reply)) :
    (s.step (.op index true)).isSome = true := by
  cases ops with
  | nil => simp [step, there]
  | cons op rest =>
    simp only [step, there, callOp, ↓reduceIte]
    split <;> rfl

/-- A handler that is preparing an artifact can go on, and one that has it can enter its section. -/
theorem job_enabled {index : Nat} {job : Job} (room : s.taken < 2 ^ 32) (free : s.locked = false)
    (there : s.inflight[index]? = some (.environment job)) :
    ∃ label, continues label = true ∧ (s.step label).isSome = true := by
  have goes (event : PrepareEvent) (can : (prepareJob s.files job event).isSome = true) :
      ∃ label, continues label = true ∧ (s.step label).isSome = true := by
    refine ⟨.prepare index event, rfl, ?_⟩
    obtain ⟨⟨files, next⟩, done⟩ := Option.isSome_iff_exists.mp can
    simp only [step, there, done]
    cases next <;> rfl
  cases stage : job.stage with
  | looking => exact goes .look (by simp [prepareJob, stage])
  | building | measuring | hashing size => exact goes .fail (by simp [prepareJob, stage])
  | ready artifact =>
    cases old : job.old with
    | none =>
      obtain ⟨id, new, unnamed⟩ := exists_fresh room
        (environmentPoolName_injective.comp Uuid.spread_injective)
      have ready : (Frame.environment job).commit ⟨0, id, none, none⟩ =
          some (.createEnvironment id job.request job.image artifact) := by
        simp [Frame.commit, Job.commit, stage, old]
      refine ⟨.enter index ⟨0, id, none, none⟩, rfl, enter_of_allows there ready free
        (allows_iff.mpr ⟨fun other member => ?_, fun name made => ?_, rfl⟩)⟩
      · exact List.mem_singleton.mp member ▸ new
      · exact Option.some.inj made ▸ unnamed
    | some environment =>
      obtain ⟨id, -, unnamed⟩ := exists_fresh room (restartedPoolName_spread environment.id)
      have ready : (Frame.environment job).commit ⟨0, id, none, none⟩ =
          some (.updateEnvironment id environment.id job.request environment job.image artifact) := by
        simp [Frame.commit, Job.commit, stage, old]
      refine ⟨.enter index ⟨0, id, none, none⟩, rfl, enter_of_allows there ready free
        (allows_iff.mpr ⟨fun other member => ?_, fun name made => ?_, rfl⟩)⟩
      · cases member
      · exact Option.some.inj made ▸ unnamed

/-- As long as a handler is in flight, a step of some handler is possible. -/
theorem exists_step (room : s.taken < 2 ^ 32) (busy : s.inflight ≠ []) :
    ∃ label, continues label = true ∧ (s.step label).isSome = true := by
  cases locked : s.locked with
  | true =>
    -- Whoever has the lock has calls left.
    obtain ⟨frame, member, holds⟩ := List.any_eq_true.mp locked
    obtain ⟨index, there⟩ := List.getElem?_of_mem member
    cases frame with
    | running ops reply => exact ⟨.op index true, rfl, op_enabled there⟩
    | _ => cases holds
  | false =>
    obtain ⟨frame, rest, frames⟩ := List.exists_cons_of_ne_nil busy
    have there : s.inflight[0]? = some frame := by simp [frames]
    cases frame with
    | running ops reply => exact ⟨.op 0 true, rfl, op_enabled there⟩
    | authenticated node request =>
      obtain ⟨input, allowed⟩ := exists_input node request
      exact ⟨.enter 0 input, rfl, enter_of_allows there rfl locked allowed⟩
    | environment job => exact job_enabled room locked there
    | importing name =>
      obtain ⟨id, new, -⟩ := exists_fresh room
        (environmentPoolName_injective.comp Uuid.spread_injective)
      let image : Image := ⟨id, name, "", 0, true, none, .microVm, none⟩
      have ready : (Frame.importing name).commit ⟨0, 0, none, some image⟩ =
          some (.importImage image) := by
        simp [Frame.commit, image]
      refine ⟨.enter 0 ⟨0, 0, none, some image⟩, rfl, enter_of_allows there ready locked
        (allows_iff.mpr ⟨fun other member => ?_, fun _ made => ?_, rfl⟩)⟩
      · exact List.mem_singleton.mp member ▸ new
      · cases made

/-- From every state of the controller on, the handlers in flight take no more steps than their
`effort`, in whatever order and whatever their calls return, and as long as some of them are in
flight one of them has a step to take, so that all come to their end. This needs identifiers and
pool names that are not taken; a pool that takes the place of another has a name of eight digits. -/
theorem handlers_finish (room : s.taken < 2 ^ 32) :
    (∀ (labels : List Label) (t : System),
      Runs.exec step (fun _ label => continues label = true) s labels = some t →
        labels.length ≤ s.effort ∧
          (t.inflight = [] ∨ ∃ label, continues label = true ∧ (t.step label).isSome = true)) ∧
      ∃ t, Runs.Reaches step (fun _ label => continues label = true) s t ∧ t.inflight = [] := by
  refine ⟨fun labels t done => ⟨?_, ?_⟩, ?_⟩
  · have bounded := Runs.length_le_of_exec effort effort_step labels done
    omega
  · have spare : t.taken < 2 ^ 32 :=
      (Runs.reaches_of_exec labels done).invariant (P := fun u => u.taken < 2 ^ 32) room
        (fun before own stepped => lt_of_le_of_lt (taken_step own stepped) before)
    by_cases quiet : t.inflight = []
    · exact .inl quiet
    · exact .inr (exists_step spare quiet)
  · refine Runs.exists_goal (P := fun u => u.taken < 2 ^ 32) effort effort_step
      (fun before own stepped => lt_of_le_of_lt (taken_step own stepped) before) ?_ room
    intro u spare busy
    obtain ⟨label, own, can⟩ := exists_step spare busy
    obtain ⟨v, stepped⟩ := Option.isSome_iff_exists.mp can
    exact ⟨label, v, own, stepped⟩

end System

namespace Demo

/-- An environment is about to be built and an execution about to be completed. -/
def overlap : List Label :=
  assigning ++ [.authenticate node "credential" none .nextWork,
    .checkEnvironment none { environmentRequest with name := "f" }]

end Demo

namespace System

theorem handlers_finish_overlap :
    ∃ s t : System, s.inflight.length = 2 ∧
      Runs.Reaches (@step Demo.crates) (fun _ label => continues label = true) s t ∧
        t.inflight = [] := by
  obtain ⟨s, -, told⟩ := Runs.exists_reaches (@step Demo.crates) (fun _ _ => True) Demo.empty
    Demo.overlap (fun s => decide (s.inflight.length = 2) && decide (s.taken < 100))
    (by decide +kernel)
  simp only [Bool.and_eq_true, decide_eq_true_eq] at told
  obtain ⟨busy, few⟩ := told
  obtain ⟨t, run, quiet⟩ :=
    (@handlers_finish Demo.crates s (lt_trans few (by decide))).2
  exact ⟨s, t, busy, run, quiet⟩

end System
end Scraperack
