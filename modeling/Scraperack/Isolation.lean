import Scraperack.Profiles
import Scraperack.Copies
import Scraperack.Dispatch

/-! What one node's requests do to the other nodes. The scheduler may give them queued executions, and a pool that
has gone out of use is taken from all of them. -/

namespace Scraperack

/-- The executions that the call writes, completes or hands out. -/
def Op.executions : Op → List Uuid
  | .saveExecution execution | .insertExecution execution _ _ | .completeExecution execution
  | .deliver _ execution _ => [execution.id]
  | .saveExecutions executions => executions.map Execution.id
  | .deleteExecution id => [id]
  | _ => []

/-- How a request of one node may change the record of another: queued executions are assigned to it, and idle
instances of pools that are removed are released. -/
inductive Charged (c next : Cluster) (other : Uuid) : Node → Node → Prop where
  | same (node : Node) : Charged c next other node node
  | assigned {before after : Node} (earlier : Charged c next other before after)
      (execution : Execution) (pool : Pool)
      (waiting : c.executions.get execution.id = some execution)
      (queued : execution.status = .queued)
      (known : c.pools.get execution.pool = some pool)
      (given : next.executions.get execution.id =
        some { execution with node := some other, status := .assigned }) :
      Charged c next other before (after.occupy pool)
  | released {before after : Node} (earlier : Charged c next other before after) (pool : Pool)
      (known : c.pools.get pool.name = some pool) (gone : next.pools.get pool.name = none) :
      Charged c next other before (after.forgetPool pool)

/-- What is charged to the node stays charged to it. -/
theorem Charged.mono {c d e : Cluster} {other : Uuid} {before after : Node}
    (charged : Charged c d other before after)
    (stays : ∀ id execution, d.executions.get id = some execution → execution.status ≠ .queued →
      e.executions.get id = some execution)
    (gone : ∀ name, d.pools.get name = none →
      e.pools.get name = none) : Charged c e other before after := by
  induction charged with
  | same => exact .same _
  | assigned _ execution pool waiting queued known given ih =>
    exact .assigned ih execution pool waiting queued known (stays _ _ given (by simp))
  | released _ pool known removed ih => exact .released ih pool known (gone _ removed)

/-- What a request of another node leaves alone. -/
structure Spared (c d : Cluster) (other : Uuid) : Prop where
  profile : d.profiles other = c.profiles other
  credential : d.nodeCredentials.get other = c.nodeCredentials.get other
  executions : ∀ id execution, c.executions.get id = some execution → execution.node = some other →
    d.executions.get id = some execution
  waiting : ∀ id execution, d.executions.get id = some execution → execution.status = .queued →
    c.executions.get id = some execution
  pools : ∀ name pool, d.pools.get name = some pool → c.pools.get name = some pool
  charged : ∀ before, c.nodes.get other = some before →
    ∃ after, d.nodes.get other = some after ∧ Charged c d other before after

namespace Spared
variable {c d : Cluster} {other : Uuid}

theorem refl (c : Cluster) (other : Uuid) : Spared c c other :=
  ⟨rfl, rfl, fun _ _ present _ => present, fun _ _ present _ => present, fun _ _ known => known,
    fun before there => ⟨before, there, .same before⟩⟩

/-- The requesting node's own record changes. -/
theorem of_nodes (c : Cluster) (nodes : Keyed Node.id)
    (same : nodes.get other = c.nodes.get other) :
    Spared c { c with nodes := nodes } other :=
  ⟨congrArg (Option.map Node.profile) same, rfl, fun _ _ present _ =>
    present, fun _ _ present _ => present,
    fun _ _ known => known, fun before there => ⟨before, same.trans there, .same before⟩⟩

theorem place {execution : Execution} {pool : Pool} {node : Node} (spared : Spared c d other)
    (unplaced : ∀ id execution, c.executions.get id = some execution → execution.status = .queued →
      execution.node = none)
    (queued : execution.status = .queued) (choice : Cluster.Choice d execution pool node) :
    Spared c (d.place execution pool node.id) other := by
  have before := spared.waiting _ _ choice.present queued
  have stays (id : Uuid) (old : Execution) (present : d.executions.get id = some old)
    (differs : old ≠ execution) :
      (d.place execution pool node.id).executions.get id = some old := by
    rw [Cluster.place_get, if_neg, present]
    rintro rfl
    exact differs (Option.some.inj (present.symm.trans choice.present))
  have mono {first last : Node} (charged : Charged c d other first last) :
      Charged c (d.place execution pool node.id) other first last := by
    refine charged.mono (fun id old present active => stays id old present ?_) (fun _ gone => gone)
    rintro rfl
    exact active queued
  refine ⟨(Cluster.profiles_place ..).symm ▸ spared.profile, spared.credential,
    fun id old present placed => ?_,
    fun id old present waits => ?_, spared.pools, fun first there => ?_⟩
  · refine stays id old (spared.executions id old present placed) ?_
    rintro rfl
    rw [unplaced _ _ before queued] at placed
    cases placed
  · rw [Cluster.place_get] at present
    split_ifs at present with same
    · obtain ⟨_, _, rfl⟩ := Option.map_eq_some_iff.mp present
      cases waits
    · exact spared.waiting id old present waits
  · obtain ⟨last, found, charged⟩ := spared.charged first there
    by_cases here : other = node.id
    · subst here
      refine ⟨last.occupy pool, ?_, .assigned (mono charged) execution pool before queued
        (spared.pools _ _ choice.known) ?_⟩
      · rw [Cluster.place, Keyed.get_adjust_self, found]
        rfl
      · rw [Cluster.place_get, if_pos rfl, choice.present]
        rfl
    · refine ⟨last, ?_, mono charged⟩
      rw [Cluster.place, Keyed.get_adjust_ne _ _ _ here]
      exact found

theorem scheduled (spared : Spared c d other)
    (unplaced : ∀ id execution, c.executions.get id = some execution → execution.status = .queued →
      execution.node = none) :
    Spared c d.scheduleQueued.1 other :=
  Cluster.scheduleQueued_invariant (P := fun d => Spared c d other) spared
    (fun spared queued choice => spared.place unplaced queued choice)

end Spared
namespace Cluster

theorem scheduleAll_ids {entries : List (Nat × Uuid)} {c : Cluster} {copy : Execution}
    (member : copy ∈ (c.scheduleAll entries).2) : copy.id ∈ entries.map Prod.snd := by
  induction entries generalizing c with
  | nil => cases member
  | cons entry rest ih =>
    unfold scheduleAll at member
    cases scheduled : c.schedule entry.2 with
    | none =>
      rw [scheduled] at member
      exact List.mem_cons_of_mem _ (ih member)
    | some next =>
      rw [scheduled] at member
      rcases List.mem_append.mp member with first | others
      · have own : copy.id = entry.2 := Keyed.key_of_get (Option.mem_toList.mp first)
        exact own ▸ List.mem_cons_self
      · exact List.mem_cons_of_mem _ (ih others)

/-- The copies that `schedule_queued` collects are of executions that were queued. -/
theorem scheduleQueued_waiting {c : Cluster} {copy : Execution}
    (member : copy ∈ c.scheduleQueued.2) :
    ∃ execution, c.executions.get copy.id = some execution ∧ execution.status = .queued := by
  obtain ⟨entry, inside, same⟩ := List.mem_map.mp (scheduleAll_ids member)
  obtain ⟨execution, present, queued, -⟩ := c.waiting_queue.queued entry inside
  exact ⟨execution, same ▸ present, queued⟩

end Cluster

/-- What a section leaves to be called concerns no execution of the node. -/
def Overlooks (c : Cluster) (other : Uuid) (ops : List Op) : Prop :=
  ∀ op ∈ ops, op.inserts = false ∧ ∀ id ∈ op.executions, ∀ execution,
    c.executions.get id = some execution →
    execution.node ≠ some other

section
variable {c d : Cluster} {other : Uuid}
  (unplaced : ∀ id execution, c.executions.get id = some execution → execution.status = .queued →
    execution.node = none)
include unplaced

theorem Spared.overlooks (spared : Spared c d other) : Overlooks c other
    [.saveExecutions d.scheduleQueued.2] := by
  intro op member
  obtain rfl := List.mem_singleton.mp member
  refine ⟨rfl, fun id inside execution present => ?_⟩
  obtain ⟨copy, member, rfl⟩ := List.mem_map.mp inside
  obtain ⟨waiting, there, queued⟩ := Cluster.scheduleQueued_waiting member
  obtain rfl := Option.some.inj (present.symm.trans (spared.waiting _ _ there queued))
  rw [unplaced _ _ present queued]
  exact (Option.some_ne_none other).symm

theorem Spared.scheduleAndSave (spared : Spared c d other) (reply : Reply) :
    Spared c (Scraperack.scheduleAndSave d reply).cluster other ∧
      Overlooks c other (Scraperack.scheduleAndSave d reply).ops := by
  refine ⟨spared.scheduled unplaced, fun op member => ?_⟩
  simp only [Scraperack.scheduleAndSave, List.mem_cons, List.not_mem_nil, or_false] at member
  rcases member with rfl | rfl | rfl
  · exact ⟨rfl, fun id inside => by cases inside⟩
  · exact spared.overlooks unplaced _ List.mem_cons_self
  · exact ⟨rfl, fun id inside => by cases inside⟩

theorem spared_scheduleIfChanged {changed : Option Cluster}
    (spared : ∀ next, changed = some next → Spared c next other) :
    Spared c (scheduleIfChanged c changed).cluster other ∧
      Overlooks c other (scheduleIfChanged c changed).ops := by
  cases changed with
  | none =>
    refine ⟨.refl c other, fun op member => ?_⟩
    obtain rfl := List.mem_singleton.mp member
    exact ⟨rfl, fun id inside => by cases inside⟩
  | some next => exact (spared next rfl).scheduleAndSave unplaced _

theorem spared_registerNode (id : Uuid) (request : RegisterNode) (now : Nat) (apart : other ≠ id) :
    Spared c (registerNode id request now c).cluster other ∧
      Overlooks c other (registerNode id request now c).ops := by
  have stored : (c.nodes.insert (refreshRegistration request now
    ((c.nodes.get id).getD (newNode id request now)))).get other =
      c.nodes.get other := by
    refine Keyed.get_insert_ne c.nodes ?_
    rwa [Cluster.registration_id id request now c]
  unfold registerNode
  refine Spared.scheduleAndSave unplaced ?_ _
  cases request.resetIdle with
  | false => exact Spared.of_nodes c _ ((Keyed.get_adjust_ne _ _ _ apart).trans stored)
  | true =>
    have reset := (Keyed.get_adjust_ne _ _ (fun node =>
      node.resetIdle_id c.pools) apart).trans stored
    exact Spared.of_nodes c _ ((Keyed.get_adjust_ne _ _ _ apart).trans reset)

omit unplaced in
theorem spared_nextWork {id : Uuid} {choice : Option Uuid} {now : Nat} {result : Section}
    (apart : other ≠ id)
    (fits : (Commit.nextWork id choice now).choiceFits c = true)
    (ran : nextWork id choice now c = .ok result) :
    Spared c result.cluster other ∧ Overlooks c other result.ops := by
  have started {execution : Execution} (own : execution.node = some id)
      (present : c.executions.get execution.id = some execution)
        (status : execution.status = .assigned) :
      Spared c (c.start execution.id now) other := by
    have kept (k : Uuid) (differs : k ≠ execution.id) : (c.start execution.id now).executions.get
      k = c.executions.get k := by
      simp only [Cluster.start, Keyed.get_adjust, if_neg differs]
    refine ⟨rfl, rfl, fun k old there placed => ?_, fun k old there queued => ?_,
      fun _ _ known => known,
      fun before there => ⟨before, there, .same before⟩⟩
    · rw [kept k]
      · exact there
      · rintro rfl
        obtain rfl := Option.some.inj (present.symm.trans there)
        exact apart (Option.some.inj (placed.symm.trans own))
    · by_cases same : k = execution.id
      · subst same
        rw [Cluster.start, Keyed.get_adjust_self, present] at there
        obtain rfl := Option.some.inj there
        cases queued
      · exact (kept k same).symm.trans there
  rcases nextWork_eq_ok ran with rfl | ⟨execution, rfl, present, rest⟩
  · refine ⟨.refl c other, fun op member => ?_⟩
    obtain rfl := List.mem_singleton.mp member
    exact ⟨rfl, fun id inside => by cases inside⟩
  · simp only [Commit.choiceFits, present, Option.any_some, assignedTo, Bool.and_eq_true,
      decide_eq_true_eq] at fits
    have spared := started fits.1 present fits.2
    rcases rest with ⟨-, rfl⟩ | ⟨pool, -, rfl⟩
    · exact ⟨spared, fun op member => by cases member⟩
    · refine ⟨spared, fun op member => ?_⟩
      have own (id : Uuid) (inside : id ∈ [execution.id]) (old : Execution)
        (there : c.executions.get id = some old) :
          old.node ≠ some other := by
        obtain rfl := List.mem_singleton.mp inside
        obtain rfl := Option.some.inj (present.symm.trans there)
        rw [fits.1]
        exact fun same => apart (Option.some.inj same).symm
      simp only [List.mem_cons, List.not_mem_nil, or_false] at member
      rcases member with rfl | rfl | rfl
      · exact ⟨rfl, fun id inside => by cases inside⟩
      · exact ⟨rfl, own⟩
      · exact ⟨rfl, own⟩

omit unplaced in
/-- A completion clears an execution of the requesting node, and its pool when it has gone out of use. -/
theorem spared_cleaned {id : Uuid} {execution : Execution} (keepIdle : Bool) (apart : other ≠ id)
    (present : c.executions.get execution.id = some execution) (placed : execution.node = some id) :
    Spared c (cleaned c execution keepIdle) other := by
  have released : (c.release execution.id keepIdle).nodes.get other = c.nodes.get other := by
    cases known : c.pools.get execution.pool with
    | none => rw [Cluster.release_of_get_none keepIdle present known]
    | some pool =>
      rw [Cluster.release_of_get keepIdle present placed known]
      exact Keyed.get_adjust_ne c.nodes _ (fun node => node.vacate_id pool keepIdle) apart
  have frame : c.finish execution.id keepIdle =
      { c with nodes := (c.release execution.id keepIdle).nodes, executions := c.executions.erase execution.id } := by
    rw [Cluster.finish, Cluster.forget, Cluster.release_frame]
  have kept (k : Uuid) (old : Execution) (there : c.executions.get k = some old)
    (on : old.node = some other) :
      (c.executions.erase execution.id).get k = some old := by
    rw [Keyed.get_erase_ne]
    · exact there
    · rintro rfl
      obtain rfl := Option.some.inj (present.symm.trans there)
      exact apart (Option.some.inj (on.symm.trans placed))
  have before (k : Uuid) (old : Execution)
    (there : (c.executions.erase execution.id).get k = some old) :
      c.executions.get k = some old := by
    rw [Keyed.get_erase] at there
    split_ifs at there
    exact there
  have finished : Spared c (c.finish execution.id keepIdle) other := by
    rw [frame]
    exact ⟨congrArg (Option.map Node.profile) released, rfl, kept, fun k old there _ =>
      before k old there,
      fun _ _ known => known, fun first there => ⟨first, released.trans there, .same first⟩⟩
  unfold cleaned
  split_ifs
  · cases known : (c.finish execution.id keepIdle).pools.get execution.pool with
    | none => rwa [Cluster.removePool_of_get_none known]
    | some pool =>
      have own : pool.name = execution.pool := Keyed.key_of_get known
      rw [Cluster.removePool_of_get known]
      refine ⟨?_, finished.credential, finished.executions, finished.waiting,
        fun name other there => ?_,
        fun first there => ?_⟩
      · have same := Cluster.profiles_removePool (c.finish execution.id keepIdle) execution.pool
        rw [Cluster.removePool_of_get known] at same
        exact (congrFun same other).trans finished.profile
      · change ((c.finish execution.id keepIdle).pools.erase execution.pool).get name =
          some other at there
        rw [Keyed.get_erase] at there
        split_ifs at there
        exact finished.pools name other there
      · obtain ⟨last, found, charged⟩ := finished.charged first there
        refine ⟨last.forgetPool pool, ?_, .released ?_ pool (own ▸ finished.pools _ _ known) ?_⟩
        · rw [Keyed.get_map, found]
          rfl
        · refine charged.mono (fun _ _ there _ => there) fun name gone => ?_
          change ((c.finish execution.id keepIdle).pools.erase execution.pool).get name = none
          rw [Keyed.get_erase]
          split_ifs
          · rfl
          · exact gone
        · rw [own]
          exact Keyed.get_erase_self _ _
  · exact finished

/-- The section of a request spares every other node, and so do the calls that it leaves. -/
theorem NodeRequest.spared [Crates] {node : Uuid} {input : Input} {request : NodeRequest}
    {result : Section}
    (apart : other ≠ node) (fits : (request.commit node input).choiceFits c = true)
    (ran : (request.commit node input).run c = .ok result) :
    Spared c result.cluster other ∧ Overlooks c other result.ops := by
  cases request with
  | register request =>
    obtain rfl := Except.ok.inj ran
    exact spared_registerNode unplaced node request input.now apart
  | imageReady image =>
    obtain rfl := imageReady_eq_ok ran
    refine Spared.scheduleAndSave unplaced (Spared.of_nodes c _ ?_) _
    simp only [Keyed.get_adjust, if_neg apart]
  | environmentReady artifact =>
    obtain rfl := environmentReady_eq_ok ran
    exact Spared.scheduleAndSave unplaced (Spared.of_nodes c _ (Keyed.get_adjust_ne _ _ _ apart)) _
  | addWarmInstance pool =>
    obtain rfl := Except.ok.inj ran
    refine spared_scheduleIfChanged unplaced fun next added => ?_
    obtain ⟨_, _, _, _, _, _, rfl⟩ := Cluster.addWarmInstance_eq_some added
    exact Spared.of_nodes c _ (Keyed.get_adjust_ne _ _ _ apart)
  | removeIdleInstance pool =>
    obtain rfl := Except.ok.inj ran
    refine spared_scheduleIfChanged unplaced fun next removed => ?_
    obtain ⟨_, _, _, _, _, rfl⟩ := Cluster.removeIdleInstance_eq_some removed
    exact Spared.of_nodes c _ (Keyed.get_adjust_ne _ _ _ apart)
  | nextWork => exact spared_nextWork apart fits ran
  | completeExecution id request =>
    obtain ⟨execution, present, placed, rfl⟩ := completeExecution_eq_ok ran
    have own : execution.id = id := Keyed.key_of_get present
    subst own
    have cleared := spared_cleaned request.keepIdle apart present placed
    refine ⟨cleared.scheduled unplaced, fun op member => ?_⟩
    simp only [List.mem_cons, List.not_mem_nil, or_false] at member
    rcases member with rfl | rfl | rfl | rfl
    · exact ⟨rfl, fun id inside => by cases inside⟩
    · exact ⟨rfl, fun id inside => by cases inside⟩
    · exact cleared.overlooks unplaced _ List.mem_cons_self
    · refine ⟨rfl, fun id inside old there => ?_⟩
      obtain rfl := List.mem_singleton.mp inside
      obtain rfl := Option.some.inj (present.symm.trans there)
      rw [placed]
      exact fun same => apart (Option.some.inj same).symm

end

namespace System
variable [Crates]

/-- The calls that a request leaves do not change the cluster. -/
theorem overlooked_call {s t u : System} {other : Uuid} {index : Nat} {succeeds : Bool}
    {ops : List Op} {reply : Reply}
    (overlooks : Overlooks s.cluster other ops)
    (there : t.inflight[index]? = some (.running ops reply))
    (stepped : t.step (.op index succeeds) = some u) : u.cluster = t.cluster := by
  cases step_cases stepped with
  | called _ op rest before after next found plain done => exact (runOp_frame plain done).1
  | admitted _ execution secrets queue rest before database found =>
    obtain ⟨rfl, -⟩ := Frame.running.inj (Option.some.inj (there.symm.trans found))
    cases (overlooks _ List.mem_cons_self).1
  | performed _ commit others result free allowed entered => cases entered
  | _ => rfl

/-- In every state of every run, a request that has passed authentication as one node leaves every other node alone:
what is on record about that node but for the accounting of its capacity, its credential, and the executions on it,
none of which the request's later calls concern either. The accounting changes by queued executions that are assigned
to the node, and by idle instances of a pool that is removed. -/
theorem nodes_isolated {s t u : System} (started : Started s)
    (run : Run (fun _ _ => True) s t) {index : Nat}
    {input : Input} {node other : Uuid} {request : NodeRequest} (apart : other ≠ node)
    (there : t.inflight[index]? = some (.authenticated node request))
    (stepped : t.step (.enter index input) = some u) :
    (u.cluster.nodes.get other).map Node.profile = (t.cluster.nodes.get other).map Node.profile ∧
      u.cluster.nodeCredentials.get other = t.cluster.nodeCredentials.get other ∧
      (∀ id execution, t.cluster.executions.get id = some execution → execution.node = some other →
        u.cluster.executions.get id = some execution) ∧
      (∀ before, t.cluster.nodes.get other = some before →
        ∃ after, u.cluster.nodes.get other = some after ∧
          Charged t.cluster u.cluster other before after) ∧
      ∀ ops reply, .running ops reply ∈ u.inflight →
        .running ops reply ∈ t.inflight ∨ Overlooks t.cluster other ops := by
  have unplaced := (started.sound.run run).orderly.unplaced
  have unchanged (cluster : u.cluster = t.cluster) : Spared t.cluster u.cluster other :=
    cluster ▸ .refl _ _
  have split : Spared t.cluster u.cluster other ∧
      ∀ ops reply, .running ops reply ∈ u.inflight →
        .running ops reply ∈ t.inflight ∨ Overlooks t.cluster other ops := by
    cases step_cases stepped with
    | refused _ others error fewer => exact ⟨.refl _ _, fun ops reply member =>
        .inl (fewer.subset member)⟩
    | performed _ commit others result free allowed entered ran =>
      obtain rfl : commit = request.commit node input := by
        cases entered with
        | handler _ _ frame _ found ready =>
          obtain rfl := Option.some.inj (there.symm.trans found)
          exact (Option.some.inj ready).symm
      obtain ⟨spared, overlooks⟩ := NodeRequest.spared unplaced apart (fits_of_allows allowed) ran
      refine ⟨spared, fun ops reply member => ?_⟩
      rcases List.mem_append.mp member with before | new
      · exact .inl (entered.fewer.subset before)
      · cases List.mem_singleton.mp new
        exact .inr overlooks
    | declined _ commit others error entered =>
      exact ⟨.refl _ _, fun ops reply member => .inl (entered.fewer.subset member)⟩
  exact ⟨split.1.profile, split.1.credential, split.1.executions, split.1.charged, split.2⟩

end System

namespace Demo

/-- A second node joins, while an execution is on the first, and registers. -/
def joining : List Label :=
  assigning ++ request 0 (.localJoin 9 "other") 2 ++
    [.authenticate 9 "other" none (.register ⟨"other", 4000, 4000, none, none, false, []⟩)]

/-- The second node's request has passed authentication. -/
def joined : Option Frame → Bool
  | some (.authenticated node _) => decide (node = 9)
  | _ => false

end Demo

namespace System

theorem nodes_isolated_joined : ∃ t u : System,
    (t.cluster.executions.get 8).any (fun execution =>
      decide (execution.node = some Demo.node)) = true ∧
      u.cluster.nodes.contains 9 = true ∧
      (u.cluster.nodes.get Demo.node).map Node.profile =
        (t.cluster.nodes.get Demo.node).map Node.profile ∧
      ∀ id execution, t.cluster.executions.get id = some execution →
        execution.node = some Demo.node →
        u.cluster.executions.get id = some execution := by
  obtain ⟨t, run, shape⟩ := Runs.exists_reaches (@step Demo.crates)
    (fun _ label => restarts label = false ∧ True) Demo.empty
    Demo.joining
    (fun t : System => (t.cluster.executions.get 8).any (fun execution : Execution =>
      decide (execution.node = some Demo.node)) &&
      ((@step Demo.crates t (.enter 0 (Demo.input 0))).any (fun u => u.cluster.nodes.contains 9) &&
        Demo.joined t.inflight[0]?)) (by decide +kernel)
  simp only [Bool.and_eq_true, Option.any_eq_true] at shape
  obtain ⟨there, ⟨u, stepped, known⟩, waiting⟩ := shape
  unfold Demo.joined at waiting
  split at waiting
  · rename_i node request found
    obtain rfl := of_decide_eq_true waiting
    obtain ⟨profile, -, executions, -⟩ :=
      @nodes_isolated Demo.crates _ _ _ fresh_empty.started run _ _ _ Demo.node _
        (by decide) found stepped
    exact ⟨t, u, (Option.any_eq_true _ _).mpr there, known, profile, executions⟩
  · cases waiting

end System
end Scraperack
