import Scraperack.Errands

/-! What controller and node both keep track of: each execution that the node has to do with is running
there, and the node works on it, waits for it or reports it, in one place only. -/

namespace Scraperack
open Urls
open scoped List

namespace NodeProcess
variable [Crates] {process next : NodeProcess} {pools : List Pool} {event : NodeEvent}

omit [Crates] in
/-- What a step of an execution does to the tasks and the idle machines. -/
structure Turned (process next : NodeProcess) (event : NodeEvent) (index : Nat) (task : Task) :
    Prop where
  here : event.task = some index
  there : process.tasks[index]? = some task
  beat : next.beat = process.beat
  goes : (∃ later, next.tasks = process.tasks.set index later ∧ later.pool = task.pool ∧
      later.served = true ∧ process.added event = []) ∨
    next.tasks = process.tasks.eraseIdx index
  claims : process.claimed event = [] ∨ ∃ vm, process.claimed event = [vm] ∧
    vm.pool.name = task.pool.name ∧ task.served = false
  adds : process.added event = [] ∨ ∃ vm old, process.added event = [vm] ∧ task.vm = some old ∧
    vm.pool = old.pool

theorem execution_turned (done : process.execution event = some next) :
    ∃ index task, Turned process next event index task := by
  cases event with
  | acquire index =>
    simp only [execution] at done
    split at done <;> cases done
    rename_i pool there
    refine ⟨index, .received pool, ?_⟩
    cases acquired : process.vms.acquire pool with
    | error refused =>
      exact ⟨rfl, there, rfl, .inr rfl, .inl (by simp [claimed, there, acquired]), .inl rfl⟩
    | ok result =>
      obtain ⟨vm, vms⟩ := result
      cases vm with
      | none =>
        exact ⟨rfl, there, rfl, .inl ⟨.starting pool, rfl, rfl, rfl, rfl⟩,
          .inl (by simp [claimed, there, acquired]), .inl rfl⟩
      | some vm =>
        exact ⟨rfl, there, rfl, .inl ⟨.running pool vm, rfl, rfl, rfl, rfl⟩,
          .inr ⟨vm, by simp [claimed, there, acquired],
            ((VmState.acquire_eq_ok acquired).1 vm rfl).2, rfl⟩, .inl rfl⟩
  | start index vm now =>
    simp only [execution] at done
    split at done <;> cases done
    rename_i pool there
    refine ⟨index, .starting pool, ?_⟩
    cases vm with
    | none => exact ⟨rfl, there, rfl, .inr rfl, .inl rfl, .inl rfl⟩
    | some id =>
      exact ⟨rfl, there, rfl, .inl ⟨.running pool (startVm id pool now), rfl, rfl, rfl, rfl⟩,
        .inl rfl, .inl rfl⟩
  | finish index healthy now =>
    simp only [execution] at done
    split at done <;> cases done
    rename_i pool vm there
    refine ⟨index, .running pool vm, rfl, there, rfl, .inr rfl, .inl rfl, ?_⟩
    simp only [added, there]
    split_ifs
    · exact .inr ⟨_, vm, rfl, rfl, rfl⟩
    · exact .inl rfl
  | abandon index =>
    simp only [execution] at done
    split at done <;> cases done
    rename_i pool there
    exact ⟨index, .received pool, rfl, there, rfl, .inr rfl, .inl rfl, .inl rfl⟩
  | _ => cases done

theorem heartbeat_tasks (done : process.heartbeat pools event = some next) :
    next.tasks = process.tasks ∧ event.task = none := by
  cases event with
  | list | take | rest | retain | relabel | sync | offer | warm =>
    simp only [heartbeat] at done
    split at done <;> cases done
    first | exact ⟨rfl, rfl⟩ | (refine ⟨?_, rfl⟩; split <;> rfl)
  | ask needed =>
    simp only [heartbeat] at done
    split at done <;> cases done
    refine ⟨?_, rfl⟩
    split <;> rfl
  | trim release now =>
    simp only [heartbeat] at done
    split at done
    · obtain ⟨vm, -, rfl⟩ := Option.map_eq_some_iff.mp done
      exact ⟨rfl, rfl⟩
    · cases done
  | _ => cases done

/-- A machine that is offered has just been started for its pool. -/
theorem heartbeat_offers (done : process.heartbeat pools event = some next) {pool : Pool} {vm : Vm}
    {rest : List Pool} (offering : next.beat = .offering pool vm rest) :
    vm.pool = pool := by
  cases event with
  | warm vm now =>
    simp only [heartbeat] at done
    split at done <;> cases done
    cases vm <;> cases offering
    rfl
  | list | take | rest | retain | relabel | sync =>
    simp only [heartbeat] at done
    split at done <;> cases done
    cases offering
  | offer accepted =>
    simp only [heartbeat] at done
    split at done <;> cases done
    cases accepted <;> cases offering
  | ask needed =>
    simp only [heartbeat] at done
    split at done <;> cases done
    split at offering <;> cases offering
  | trim release now =>
    simp only [heartbeat] at done
    split at done
    · obtain ⟨vm, -, rfl⟩ := Option.map_eq_some_iff.mp done
      cases offering
    · cases done
  | _ => cases done

end NodeProcess

/-- The loop waits for an answer about a machine that it has in hand. -/
def Beat.asks : Beat → Bool
  | .trimming _ idle _ => !idle.isEmpty
  | .offering .. => true
  | _ => false

/-- While it does, it goes on with the answer only. -/
theorem NodeProcess.heartbeat_asks [Crates] {process next : NodeProcess} {pools : List Pool}
    {event : NodeEvent} (done : process.heartbeat pools event = some next)
    (asks : process.beat.asks = true) :
    (∃ release now, event = .trim release now) ∨ ∃ accepted, event = .offer accepted := by
  cases event with
  | trim release now => exact .inl ⟨_, _, rfl⟩
  | offer accepted => exact .inr ⟨_, rfl⟩
  | acquire | start | finish | abandon | renew => cases done
  | _ =>
    simp only [heartbeat] at done
    split at done
    · rename_i here
      rw [here] at asks
      cases asks
    · cases done

/-- The loop waits for an answer, which may change what the controller counts. -/
def Errand.pending : Errand → Bool
  | sent _ | served .. | answered .. => true
  | _ => false

theorem System.Once.tally_le {s : System} {milestone : Milestone} {id : Uuid}
    (once : System.Once milestone id s) : s.tally milestone id ≤ 1 := by
  rcases once with untold | ⟨told, -⟩
  · exact untold.le.trans (Nat.zero_le 1)
  · exact told

/-- Another handler joins those in flight. -/
theorem Errand.Tracked.join {node : Uuid} {errand : Errand} {inflight : List Frame}
    (tracked : errand.Tracked node inflight) {frame : Frame} (other : frame.call node = none) :
    errand.Tracked node (inflight ++ [frame]) := by
  have counted : (inflight ++ [frame]).countP (fun frame => (frame.call node).isSome) =
      inflight.countP (fun frame => (frame.call node).isSome) := by
    rw [List.countP_append, List.countP_singleton, if_neg (by simp [other]), Nat.add_zero]
  constructor
  · rw [counted]
    refine tracked.only.trans ?_
    cases errand with
    | served call index =>
      obtain ⟨found, there, -⟩ := tracked.serves call index rfl
      rw [calling, calling, there, Hall.getElem?_append_of_some there]
    | _ => exact Nat.le_refl _
  · rintro call index rfl
    obtain ⟨found, there, serves⟩ := tracked.serves call index rfl
    exact ⟨found, Hall.getElem?_append_of_some there _, serves⟩

theorem Errand.Tracked.agreed_join {node : Uuid} {errand : Errand} {inflight : List Frame}
    (tracked : errand.Tracked node inflight) (frame : Frame) (call : IdleCall) :
    errand.agreed (inflight ++ [frame]) call = errand.agreed inflight call := by
  cases errand with
  | served asked index =>
    obtain ⟨found, there, -⟩ := tracked.serves asked index rfl
    simp only [Errand.agreed, there, Hall.getElem?_append_of_some there]
  | answered asked reply => cases reply <;> rfl
  | _ => rfl

theorem zip_eraseIdx {α β : Type} (l : List α) (k : List β) (i : Nat) :
    (l.eraseIdx i).zip (k.eraseIdx i) = (l.zip k).eraseIdx i := by
  induction l generalizing k i with
  | nil => simp
  | cons a rest ih =>
    cases k with
    | nil => simp
    | cons b others =>
      cases i with
      | zero => rfl
      | succ i => simp [ih]

theorem zip_set {α β : Type} {l : List α} {i : Nat} {a : α} (there : l[i]? = some a) (k : List β)
    (b : β) : l.zip (k.set i b) = (l.zip k).set i (a, b) := by
  induction l generalizing k i with
  | nil => rfl
  | cons first rest ih =>
    cases k with
    | nil => rfl
    | cons second others =>
      cases i with
      | zero =>
        obtain rfl := Option.some.inj there
        rfl
      | succ i => simp [ih there]

namespace Liaison

/-- The invariant beside the count: what the node has to do with an execution, it has to do with one that is
running there, and with each in one place only. -/
structure Kept [Crates] (node : Uuid) (l : Liaison) : Prop where
  sound : System.Sound l.system
  once : ∀ id, System.Once .dispatch id l.system
  paired : l.executions.length = l.process.tasks.length
  apart : (l.executions ++ (l.completions node).map Prod.fst).Nodup
  told : ∀ id ∈ l.executions ++ (l.completions node).map Prod.fst,
    0 < l.system.replies.countP (Milestone.dispatch.shown id)
  coming : ∀ frame ∈ l.system.inflight, ∀ work ∈ frame.works node,
    l.system.cluster.RunsIn node work.1 work.2.name
  busy : ∀ job ∈ l.jobs, l.system.cluster.RunsIn node job.1 job.2.pool.name
  ended : ∀ report ∈ l.completions node, ∃ name, l.system.cluster.RunsIn node report.1 name
  named : ∀ task ∈ l.process.tasks, ∀ vm, task.vm = some vm → vm.pool.name = task.pool.name
  offered : ∀ pool vm rest, l.process.beat = .offering pool vm rest → vm.pool = pool
  tracked : l.errand.Tracked node l.system.inflight
  asking : l.errand.pending = true → l.process.beat.asks = true

variable [Crates] {node : Uuid} {l m : Liaison}

omit [Crates] in
/-- The identifiers of the jobs are those of the executions. -/
theorem mem_executions {job : Uuid × Task} (member : job ∈ l.jobs) : job.1 ∈ l.executions :=
  (List.of_mem_zip member).1

theorem completion_step {s t : System} {label : Label} (stepped : s.step label = some t)
    (free : label.aside node = true) :
    (((s.turning label).bind (Frame.completion node)).toList ++
      t.inflight.filterMap (Frame.completion node)) ~ s.inflight.filterMap (Frame.completion node) := by
  refine System.aside_step _ (fun _ _ => rfl) (fun _ => rfl) (fun _ => rfl) ?_ stepped free
  rintro asking request (other | aside)
  · cases request <;> simp [Frame.completion, other]
  · cases request <;> first | rfl | cases aside

/-- The completions are those that there were, but for the one whose handler enters its section. -/
theorem completions_step {t : System} {label : Label} (done : l.system.step label = some t)
    (free : label.aside node = true) :
    ((l.system.turning label).bind (Frame.completion node)).toList ++
      (l.reports ++ t.inflight.filterMap (Frame.completion node)) ~ l.completions node := by
  refine (List.perm_append_comm_assoc ..).trans ?_
  exact (completion_step done free).append_left l.reports

/-- An execution that runs on the node goes on, unless the handler of its completion enters its section. -/
theorem runs_step {s t : System} {label : Label} (sound : System.Sound s)
    (stepped : s.step label = some t) (free : label.aside node = true) {id : Uuid} {name : String}
    (runs : s.cluster.RunsIn node id name)
    (other : ∀ request, (s.turning label).bind (Frame.completion node) ≠ some (id, request)) :
    t.cluster.RunsIn node id name := by
  have same : System.restarts label = false := by cases label <;> first | rfl | cases free
  refine (System.runsIn_step sound stepped same runs).resolve_right ?_
  rintro ⟨index, input, request, rfl, there⟩
  exact other request (by simp [System.turning, there, Frame.completion])

/-- What reaches the node was on its way, and is shown in a reply from then on. -/
theorem reaching_step {s t : System} {label : Label} (stepped : s.step label = some t)
    {work : Uuid × Pool} (reaches : s.reaching node label = some work) :
    (∃ frame ∈ s.inflight, work ∈ frame.works node) ∧ s.turning label = none ∧
      ∃ reply, t.replies = reply :: s.replies ∧ Milestone.dispatch.shown work.1 reply = true := by
  cases label with
  | op index succeeds =>
    simp only [System.reaching] at reaches
    split at reaches
    · rename_i reply there
      have brings : work ∈ (Frame.running [] reply).works node := by simp [Frame.works, reaches]
      refine ⟨⟨_, List.mem_of_getElem? there, brings⟩, rfl, reply, ?_, ?_⟩
      · simp only [System.step, there] at stepped
        exact Option.some.inj stepped ▸ rfl
      · have due := Frame.due_of_works brings
        simpa [Milestone.due] using due
    · cases reaches
  | _ => cases reaches

/-- No execution is on its way to the node that the node has, or has reported. -/
theorem Kept.fresh (kept : Kept node l) {frame : Frame} (there : frame ∈ l.system.inflight)
    {work : Uuid × Pool} (brings : work ∈ frame.works node) :
    work.1 ∉ l.executions ++ (l.completions node).map Prod.fst := by
  intro member
  have shown := kept.told _ member
  have due : 0 < l.system.inflight.countP (Milestone.dispatch.due work.1) :=
    List.countP_pos_iff.mpr ⟨frame, there, Frame.due_of_works brings⟩
  have tally := (kept.once work.1).tally_le
  unfold System.tally at tally
  omega

theorem told_step {s t : System} {label : Label} (stepped : s.step label = some t)
    (free : label.aside node = true) {id : Uuid}
    (told : 0 < s.replies.countP (Milestone.dispatch.shown id)) :
    0 < t.replies.countP (Milestone.dispatch.shown id) := by
  have same : System.restarts label = false := by cases label <;> first | rfl | cases free
  rcases System.replies_step stepped same with kept | ⟨reply, more⟩
  · rwa [kept]
  · rw [more, List.countP_cons]
    exact Nat.lt_of_lt_of_le told (Nat.le_add_right _ _)

/-- An execution arrives. -/
theorem Kept.receive (kept : Kept node l) (work : Uuid × Pool)
    (new : work.1 ∉ l.executions ++ (l.completions node).map Prod.fst)
    (told : 0 < l.system.replies.countP (Milestone.dispatch.shown work.1))
    (runs : l.system.cluster.RunsIn node work.1 work.2.name) :
    Kept node { l with
      process := { l.process with tasks := l.process.tasks ++ [.received work.2] }
      executions := l.executions ++ [work.1] } := by
  have joined : (l.executions ++ [work.1]).zip (l.process.tasks ++ [.received work.2]) =
      l.jobs ++ [(work.1, .received work.2)] := List.zip_append kept.paired
  have ids : l.executions ++ [work.1] ++ (l.completions node).map Prod.fst ~
      work.1 :: (l.executions ++ (l.completions node).map Prod.fst) := by
    rw [List.append_assoc]
    exact List.perm_middle
  refine ⟨kept.sound, kept.once, by simp [kept.paired],
    ids.nodup_iff.mpr (List.nodup_cons.mpr ⟨new, kept.apart⟩), ?_, kept.coming, ?_, kept.ended, ?_,
    kept.offered, kept.tracked, kept.asking⟩
  · intro id member
    rcases List.mem_cons.mp (ids.subset member) with rfl | before
    · exact told
    · exact kept.told id before
  · intro job member
    rw [jobs, joined] at member
    rcases List.mem_append.mp member with before | last
    · exact kept.busy job before
    · obtain rfl := List.mem_singleton.mp last
      exact runs
  · intro task member vm same
    rcases List.mem_append.mp member with before | last
    · exact kept.named task before vm same
    · obtain rfl := List.mem_singleton.mp last
      cases same

theorem Kept.advance (kept : Kept node l) {label : Label} (free : label.aside node = true)
    (stepped : l.advance node label = some m) : Kept node m := by
  obtain ⟨t, done, rfl⟩ := Option.map_eq_some_iff.mp stepped
  have same : System.restarts label = false := by cases label <;> first | rfl | cases free
  let turned := (l.system.turning label).bind (Frame.completion node)
  let reported := l.reports ++ t.inflight.filterMap (Frame.completion node)
  have whole : turned.toList ++ reported ~ l.completions node := completions_step done free
  have ids : turned.toList.map Prod.fst ++ (l.executions ++ reported.map Prod.fst) ~
      l.executions ++ (l.completions node).map Prod.fst := by
    refine (List.perm_append_comm_assoc ..).trans ?_
    rw [← List.map_append]
    exact (whole.map Prod.fst).append_left l.executions
  obtain ⟨-, rest, separate⟩ := List.nodup_append.mp (ids.nodup_iff.mpr kept.apart)
  have within {id : Uuid} (member : id ∈ l.executions ++ reported.map Prod.fst) :
      id ∈ l.executions ++ (l.completions node).map Prod.fst :=
    ids.subset (List.mem_append_right _ member)
  have goes_on {id : Uuid} {name : String} (runs : l.system.cluster.RunsIn node id name)
      (stays : id ∈ l.executions ++ reported.map Prod.fst) : t.cluster.RunsIn node id name := by
    refine runs_step kept.sound done free runs (fun request turns => ?_)
    exact separate id (by simp [turned, turns]) id stays rfl
  have busy (job : Uuid × Task) (member : job ∈ l.jobs) :
      t.cluster.RunsIn node job.1 job.2.pool.name :=
    goes_on (kept.busy job member) (List.mem_append_left _ (mem_executions member))
  have on_way (frame : Frame) (there : frame ∈ l.system.inflight) (work : Uuid × Pool)
      (brings : work ∈ frame.works node) : t.cluster.RunsIn node work.1 work.2.name := by
    refine runs_step kept.sound done free (kept.coming frame there work brings)
      (fun request turns => kept.fresh there brings (ids.subset ?_))
    exact List.mem_append_left _ (by simp [turned, turns])
  have base : Kept node { l with
      system := t, errand := l.errand.after l.system t label } := by
    refine ⟨kept.sound.step done same, fun id => (kept.once id).step kept.sound done same,
      kept.paired, rest, fun id member => told_step done free (kept.told id (within member)),
      ?_, busy, ?_, kept.named, kept.offered,
      (System.errand_step done free kept.tracked).1, fun pending => kept.asking ?_⟩
    · intro frame there work brings
      rcases System.works_runsIn done there brings with ⟨before, present, had⟩ | runs
      · exact on_way before present work had
      · exact runs
    · intro report member
      obtain ⟨name, runs⟩ := kept.ended report (whole.subset (List.mem_append_right _ member))
      exact ⟨name, goes_on runs (List.mem_append_right _ (List.mem_map_of_mem member))⟩
    · cases errand : l.errand <;> rw [errand] at pending <;> first | rfl | cases pending
  cases reaches : l.system.reaching node label with
  | none => simpa [reaches] using base
  | some work =>
    obtain ⟨⟨frame, there, brings⟩, -, reply, replies, shown⟩ := reaching_step done reaches
    have arrived := base.receive work
      (fun member => kept.fresh there brings (within member))
      (by rw [replies, List.countP_cons, if_pos shown]; exact Nat.succ_pos _)
      (on_way frame there work brings)
    simpa [reaches] using arrived

/-- A refused request leaves the handlers as they are, an accepted one joins them. -/
theorem Kept.request (kept : Kept node l) {hash : String} {claimed : Option Uuid}
    {request : NodeRequest} {t : System} {reports : List (Uuid × CompleteExecution)}
    {errand : Errand}
    (done : l.system.step (.authenticate node hash claimed request) = some t)
    (fewer : ∃ gone, gone ++ (reports ++ t.inflight.filterMap (Frame.completion node)) ~
      l.completions node)
    (tracked : errand.Tracked node t.inflight)
    (asking : errand.pending = true → l.process.beat.asks = true) :
    Kept node { l with system := t, reports := reports, errand := errand } := by
  obtain ⟨cluster, outcome⟩ := System.authenticate_step done
  obtain ⟨gone, whole⟩ := fewer
  have ids : gone.map Prod.fst ++ (l.executions ++
      (reports ++ t.inflight.filterMap (Frame.completion node)).map Prod.fst) ~
        l.executions ++ (l.completions node).map Prod.fst := by
    refine (List.perm_append_comm_assoc ..).trans ?_
    rw [← List.map_append]
    exact (whole.map Prod.fst).append_left l.executions
  obtain ⟨-, rest, -⟩ := List.nodup_append.mp (ids.nodup_iff.mpr kept.apart)
  refine ⟨kept.sound.step done rfl, fun id => (kept.once id).step kept.sound done rfl, kept.paired,
    rest, fun id member => ?_, ?_, ?_, ?_, kept.named, kept.offered, tracked, asking⟩
  · have told := kept.told id (ids.subset (List.mem_append_right _ member))
    rcases System.replies_step done rfl with same | ⟨reply, more⟩
    · exact same ▸ told
    · rw [more, List.countP_cons]
      exact Nat.lt_of_lt_of_le told (Nat.le_add_right _ _)
  · intro frame there work brings
    rw [cluster]
    rcases outcome with ⟨error, rfl⟩ | rfl
    · exact kept.coming frame there work brings
    · rcases List.mem_append.mp there with before | new
      · exact kept.coming frame before work brings
      · obtain rfl := List.mem_singleton.mp new
        cases brings
  · rw [cluster]
    exact kept.busy
  · intro report member
    rw [cluster]
    exact kept.ended report (whole.subset (List.mem_append_right _ member))

theorem Kept.report (kept : Kept node l) {index : Nat} {hash : String} {controller : Origin}
    (stepped : l.step controller node (.report index hash) = some m) : Kept node m := by
  simp only [step] at stepped
  split at stepped
  · rename_i id request there
    obtain ⟨t, done, rfl⟩ := Option.map_eq_some_iff.mp stepped
    have taken := (Keyed.perm_eraseIdx there).symm
    have outcome := (System.authenticate_step done).2
    refine kept.request done ?_ ?_ kept.asking
    · rcases outcome with ⟨error, rfl⟩ | rfl
      · exact ⟨[(id, request)], taken.append_right _⟩
      · refine ⟨[], ?_⟩
        simp only [List.filterMap_append, List.filterMap_cons, Frame.completion, if_true,
          List.filterMap_nil, List.nil_append, completions]
        refine (List.perm_append_comm.append_left _).trans ?_
        rw [← List.append_assoc]
        refine List.Perm.append_right _ (.trans List.perm_append_comm taken)
    · rcases outcome with ⟨error, rfl⟩ | rfl
      · exact kept.tracked
      · exact kept.tracked.join rfl
  · cases stepped

theorem Kept.arrive (kept : Kept node l) {hash : String} {controller : Origin}
    (stepped : l.step controller node (.arrive hash) = some m) : Kept node m := by
  simp only [step] at stepped
  split at stepped
  · rename_i call sent
    obtain ⟨t, done, rfl⟩ := Option.map_eq_some_iff.mp stepped
    have quiet : l.system.inflight.countP (fun frame => (frame.call node).isSome) = 0 := by
      have only := kept.tracked.only
      rw [sent] at only
      exact Nat.le_zero.mp only
    have asks : l.process.beat.asks = true := kept.asking (by rw [sent]; rfl)
    have same : t.inflight.filterMap (Frame.completion node) =
        l.system.inflight.filterMap (Frame.completion node) := by
      rcases (System.authenticate_step done).2 with ⟨error, rfl⟩ | rfl
      · rfl
      · cases call <;> simp [IdleCall.request, Frame.completion]
    refine kept.request done ⟨[], by rw [same]; exact .refl _⟩ ?_ (fun _ => asks)
    rcases (System.authenticate_step done).2 with ⟨error, rfl⟩ | rfl
    · simp only [System.answer, Nat.lt_irrefl, if_false]
      exact .unserved quiet (fun _ _ same => by cases same)
    · have longer : l.system.inflight.length <
          (l.system.inflight ++ [Frame.authenticated node call.request]).length := by simp
      have own : (Frame.authenticated node call.request).call node = some call := by
        cases call <;> simp [IdleCall.request, Frame.call]
      rw [if_pos longer]
      refine ⟨?_, ?_⟩
      · rw [List.countP_append, quiet, Errand.calling, List.getElem?_concat_length]
        simp [own]
      · rintro _ _ ⟨⟩
        exact ⟨_, List.getElem?_concat_length .., .inl own⟩
  · cases stepped

theorem Kept.send (kept : Kept node l) {controller : Origin}
    (stepped : l.step controller node .send = some m) : Kept node m := by
  simp only [step] at stepped
  split at stepped
  · rename_i free
    obtain ⟨call, next, rfl⟩ := Option.map_eq_some_iff.mp stepped
    have quiet := kept.tracked.only
    rw [free] at quiet
    refine { kept with
      tracked := .unserved (Nat.le_zero.mp quiet) (fun _ _ same => by cases same)
      asking := fun _ => ?_ }
    unfold nextCall at next
    split at next
    · rename_i ready idle retained trimming
      obtain ⟨vm, last, -⟩ := Option.bind_eq_some_iff.mp next
      rw [trimming]
      cases idle with
      | nil => cases last
      | cons => rfl
    · rename_i offering
      rw [offering]
      rfl
    · cases next
  · cases stepped

theorem Kept.look (kept : Kept node l) {hash : String} {controller : Origin}
    (stepped : l.step controller node (.look hash) = some m) : Kept node m := by
  simp only [step] at stepped
  split at stepped
  · rename_i free _
    split_ifs at stepped
    obtain ⟨name, -, rfl⟩ := Option.map_eq_some_iff.mp stepped
    have quiet := kept.tracked.only
    rw [free] at quiet
    exact { kept with
      tracked := .unserved (Nat.le_zero.mp quiet) (fun _ _ same => by cases same)
      asking := fun pending => by cases pending }
  · cases stepped

omit [Crates] in
theorem job_at (paired : l.executions.length = l.process.tasks.length) {index : Nat} {task : Task}
    (there : l.process.tasks[index]? = some task) :
    ∃ id, l.executions[index]? = some id ∧ l.jobs[index]? = some (id, task) := by
  have inside := (List.getElem?_eq_some_iff.mp there).1
  rw [← paired] at inside
  refine ⟨l.executions[index], List.getElem?_eq_getElem inside, ?_⟩
  rw [jobs, List.getElem?_zip_eq_some]
  exact ⟨List.getElem?_eq_getElem inside, there⟩

/-- How the books change with the event of an execution. -/
inductive Proceeded (l : Liaison) (id : Uuid) (task : Task) (event : NodeEvent) (m : Liaison) : Prop where
  | goes (later : Task) (pool : later.pool = task.pool) (served : later.served = true)
      (added : l.process.added event = [])
      (tasks : m.process.tasks.length = l.process.tasks.length)
      (executions : m.executions = l.executions) (reports : m.reports = l.reports)
      (jobs : ∃ rest, l.jobs ~ (id, task) :: rest ∧ m.jobs ~ (id, later) :: rest)
  | ends (outcome : CompleteExecution) (kept : outcome.keepIdle = !(l.process.added event).isEmpty)
      (tasks : m.process.tasks.length + 1 = l.process.tasks.length)
      (executions : l.executions ~ id :: m.executions)
      (reports : m.reports = l.reports ++ [(id, outcome)])
      (jobs : l.jobs ~ (id, task) :: m.jobs)

omit [Crates] in
theorem proceed_execution (paired : l.executions.length = l.process.tasks.length)
    {process : NodeProcess} {event : NodeEvent} {index : Nat} {task : Task}
    (turned : l.process.Turned process event index task) (outcome : CompleteExecution) :
    ∃ id, Proceeded l id task event (l.proceed process event outcome) ∧
      (l.proceed process event outcome).process = process ∧
      (l.proceed process event outcome).system = l.system ∧
      (l.proceed process event outcome).errand = l.errand := by
  obtain ⟨id, execution, job⟩ := job_at paired turned.there
  have inside := (List.getElem?_eq_some_iff.mp turned.there).1
  have silent : event.answers = false := by
    have here := turned.here
    cases event <;> first | rfl | cases here
  refine ⟨id, ?_⟩
  rcases turned.goes with ⟨later, set, pool, served, added⟩ | erased
  · have same : process.tasks.length = l.process.tasks.length := by rw [set, List.length_set]
    have shape : l.proceed process event outcome = { l with process := process } := by
      simp [proceed, turned.here, same, silent]
    rw [shape]
    refine ⟨.goes later pool served added same rfl rfl ⟨_, Keyed.perm_eraseIdx job, ?_⟩,
      rfl, rfl, rfl⟩
    simp only [jobs, set, zip_set execution]
    exact Keyed.perm_set job _
  · have fewer : process.tasks.length < l.process.tasks.length := by
      rw [erased, List.length_eraseIdx_of_lt inside]
      omega
    have shape : l.proceed process event outcome = { l with
        process := process
        executions := l.executions.eraseIdx index
        reports := l.reports ++
          [(id, { outcome with keepIdle := !(l.process.added event).isEmpty })] } := by
      simp [proceed, turned.here, fewer, silent, execution]
    rw [shape]
    refine ⟨.ends _ rfl ?_ (Keyed.perm_eraseIdx execution) rfl ?_, rfl, rfl, rfl⟩
    · simp only [erased, List.length_eraseIdx_of_lt inside]
      omega
    · simp only [jobs, erased, zip_eraseIdx]
      exact Keyed.perm_eraseIdx job

theorem Kept.execution (kept : Kept node l) {process : NodeProcess} {event : NodeEvent}
    {outcome : CompleteExecution} (done : l.process.execution event = some process) :
    Kept node (l.proceed process event outcome) := by
  obtain ⟨index, task, turned⟩ := NodeProcess.execution_turned done
  obtain ⟨id, proceeded, shape, system, errand⟩ :=
    proceed_execution kept.paired turned outcome
  generalize l.proceed process event outcome = m at proceeded shape system errand ⊢
  have named : ∀ task ∈ m.process.tasks, ∀ vm, task.vm = some vm →
      vm.pool.name = task.pool.name := by
    rw [shape]
    intro task member vm same
    have follows : l.process.Follows [] process := NodeProcess.execution_follows done
    rcases follows.named task member vm same with before | names
    · exact kept.named task before vm same
    · exact names
  have offered : ∀ pool vm rest, m.process.beat = .offering pool vm rest → vm.pool = pool := by
    rw [shape, turned.beat]
    exact kept.offered
  have tracked : m.errand.Tracked node m.system.inflight := by
    rw [errand, system]
    exact kept.tracked
  have asking : m.errand.pending = true → m.process.beat.asks = true := by
    rw [errand, shape, turned.beat]
    exact kept.asking
  cases proceeded with
  | goes later pool served added tasks executions reports jobs =>
    obtain ⟨rest, before, after⟩ := jobs
    have completions : m.completions node = l.completions node := by
      rw [completions, completions, reports, system]
    refine ⟨system ▸ kept.sound, fun id => system ▸ kept.once id,
      by rw [executions, tasks, kept.paired], by rw [executions, completions]; exact kept.apart,
      by rw [executions, completions, system]; exact kept.told,
      by rw [system]; exact kept.coming, ?_, by rw [completions, system]; exact kept.ended, named,
      offered, tracked, asking⟩
    intro job member
    rw [system]
    rcases List.mem_cons.mp (after.subset member) with rfl | other
    · rw [show (id, later).2.pool = task.pool from pool]
      exact kept.busy _ (before.symm.subset List.mem_cons_self)
    · exact kept.busy job (before.symm.subset (List.mem_cons_of_mem _ other))
  | ends report _ tasks executions reports jobs =>
    have completions : m.completions node ~ (id, report) :: l.completions node := by
      rw [completions, completions, reports, system, List.append_assoc]
      exact List.perm_middle
    have ids : m.executions ++ (m.completions node).map Prod.fst ~
        l.executions ++ (l.completions node).map Prod.fst := by
      refine ((completions.map Prod.fst).append_left _).trans ?_
      refine List.perm_middle.trans ?_
      exact executions.symm.append_right _
    have first : (id, task) ∈ l.jobs := jobs.symm.subset List.mem_cons_self
    refine ⟨system ▸ kept.sound, fun id => system ▸ kept.once id, ?_,
      ids.nodup_iff.mpr kept.apart, fun id member => ?_, by rw [system]; exact kept.coming, ?_, ?_,
      named, offered, tracked, asking⟩
    · have length := executions.length_eq
      rw [List.length_cons] at length
      have paired := kept.paired
      omega
    · rw [system]
      exact kept.told id (ids.subset member)
    · intro job member
      rw [system]
      exact kept.busy job (jobs.symm.subset (List.mem_cons_of_mem _ member))
    · intro other member
      rw [system]
      rcases List.mem_cons.mp (completions.subset member) with rfl | before
      · exact ⟨_, kept.busy _ first⟩
      · exact kept.ended other before

omit [Crates] in
theorem proceed_heartbeat {event : NodeEvent} (beats : event.task = none) (process : NodeProcess)
    (outcome : CompleteExecution) : l.proceed process event outcome = { l with
      process := process, errand := if event.answers then .free else l.errand } := by
  simp only [proceed, beats]

theorem Kept.heartbeat (kept : Kept node l) {process : NodeProcess} {event : NodeEvent}
    {pools : List Pool} {outcome : CompleteExecution} (permitted : l.errand.permits event = true)
    (done : l.process.heartbeat pools event = some process) :
    Kept node (l.proceed process event outcome) := by
  obtain ⟨tasks, beats⟩ := NodeProcess.heartbeat_tasks done
  rw [proceed_heartbeat beats]
  refine ⟨kept.sound, kept.once, by rw [tasks]; exact kept.paired, kept.apart, kept.told, kept.coming,
    by rw [jobs, tasks]; exact kept.busy, kept.ended, by rw [tasks]; exact kept.named,
    fun pool vm rest offering => NodeProcess.heartbeat_offers done offering, ?_, ?_⟩
  · split_ifs with answers
    · have quiet := kept.tracked.only
      have done : l.errand.calling node l.system.inflight = false := by
        cases errand : l.errand with
        | served call index =>
          rw [errand] at permitted
          cases event with
          | trim | offer | ask => cases permitted
          | _ => cases answers
        | _ => rfl
      rw [done] at quiet
      exact .unserved (Nat.le_zero.mp quiet) (fun _ _ same => by cases same)
    · exact kept.tracked
  · intro pending
    split_ifs at pending with answers
    · cases pending
    · rcases NodeProcess.heartbeat_asks done (kept.asking pending) with
        ⟨release, now, rfl⟩ | ⟨accepted, rfl⟩
      · exact absurd rfl answers
      · exact absurd rfl answers

/-- An event of the node is one of its loop or one of an execution. -/
theorem node_step {controller : Origin} {event : NodeEvent} {outcome : CompleteExecution}
    (stepped : l.step controller node (.node event outcome) = some m) :
    l.errand.permits event = true ∧ ∃ process, m = l.proceed process event outcome ∧
      (l.process.heartbeat l.system.cluster.pools.values event = some process ∨
        l.process.execution event = some process) := by
  simp only [step] at stepped
  split_ifs at stepped with refused
  simp only [Bool.or_eq_true, Bool.not_eq_true', not_or, Bool.not_eq_false] at refused
  obtain ⟨process, done, rfl⟩ := Option.map_eq_some_iff.mp stepped
  refine ⟨refused.2, process, rfl, ?_⟩
  have either : (l.process.heartbeat l.system.cluster.pools.values event).or
      (l.process.execution event) = some process := by
    cases event with
    | renew =>
      have never : l.errand.permits .renew = false := by
        unfold Errand.permits
        split <;> first | rfl | simp_all
      rw [never] at refused
      cases refused.2
    | _ => exact done
  exact (Option.or_eq_some_iff.mp either).imp_right And.right

theorem Kept.step (kept : Kept node l) {controller : Origin} {label : LiaisonLabel}
    (stepped : l.step controller node label = some m) : Kept node m := by
  cases label with
  | controller label =>
    simp only [Liaison.step] at stepped
    split_ifs at stepped with free
    exact kept.advance free stepped
  | send => exact kept.send stepped
  | arrive => exact kept.arrive stepped
  | look => exact kept.look stepped
  | report => exact kept.report stepped
  | node event outcome =>
    obtain ⟨permitted, process, rfl, beats | runs⟩ := node_step stepped
    · exact kept.heartbeat permitted beats
    · exact kept.execution runs

end Liaison
end Scraperack
