import Scraperack.Rebalancing
import Scraperack.Routes
import Scraperack.Vms

/-! One pass of `maintain_vms`. The node knows how long a machine has been idle, and the controller decides whether
it goes; meanwhile the executions take idle machines and give others back. -/

namespace Scraperack
open Urls
open scoped List

theorem swapRemove_perm {α : Type} {items : List α} {index : Nat} {item : α}
    (there : items[index]? = some item) : (item :: swapRemove items index).Perm items := by
  rcases items.eq_nil_or_concat' with rfl | ⟨front, last, rfl⟩
  · cases there
  have kept : swapRemove (front ++ [last]) index =
      ((front ++ [last]).set index last).dropLast := by
    rw [swapRemove, List.getLast?_concat]
  rw [kept]
  rcases Nat.lt_or_ge index front.length with before | past
  · rw [List.getElem?_append_left before] at there
    obtain ⟨-, rfl⟩ := List.getElem?_eq_some_iff.mp there
    rw [List.set_append_left _ _ before, List.dropLast_concat,
      List.set_eq_take_append_cons_drop, if_pos before]
    have whole : front.take index ++ front[index] :: front.drop (index + 1) = front := by
      rw [List.getElem_cons_drop, List.take_append_drop]
    calc
      _ ~ last :: front[index] :: (front.take index ++ front.drop (index + 1)) :=
        (List.perm_middle.cons _).trans (.swap ..)
      _ ~ last :: front := by
        conv_rhs => rw [← whole]
        exact List.perm_middle.symm.cons _
      _ ~ front ++ [last] := (List.perm_append_singleton ..).symm
  · -- the last one is the one that is taken out
    obtain ⟨inside, rfl⟩ := List.getElem?_eq_some_iff.mp there
    have final : index = front.length := by
      rw [List.length_append, List.length_singleton] at inside
      omega
    subst final
    rw [List.getElem_concat_length rfl, List.set_append_right _ _ (Nat.le_refl _), Nat.sub_self,
      List.set_cons_zero, List.dropLast_concat]
    exact (List.perm_append_singleton ..).symm

/-- A request about an idle machine: when it was sent, the state of the controller that it meets, the name that
the controller reads from its URL, and the answer. -/
structure IdleRequest where
  vm : Vm
  sentAt : Nat
  controller : Cluster
  name : String
  released : Bool

/-- The pool has an idle instance too many on the node: the node is above its target, and the nodes together are not
below theirs. -/
def Cluster.Surplus (c : Cluster) (id : Uuid) (name : String) : Prop :=
  ∃ pool, c.pools.get name = some pool ∧ c.warmTarget pool id < c.warmInstancesOn id pool ∧
    (c.warmView pool).wanted ≤ (c.warmView pool).warm ∧
      ∃ node, c.nodes.get id = some node ∧ 0 < node.idle name

theorem Cluster.removeIdleInstance_surplus (c : Cluster) (id : Uuid) (name : String) :
    (c.removeIdleInstance id name).isSome = true ↔ c.Surplus id name := by
  unfold removeIdleInstance Surplus
  cases known : c.pools.get name with
  | none => simp
  | some pool =>
    simp only [Option.some.injEq, exists_eq_left']
    rw [show (c.warmView pool).targets = c.warmTargets pool from rfl,
      show ((c.warmTargets pool).lookup id).getD 0 = c.warmTarget pool id from rfl]
    cases there : c.nodes.get id with
    | none => simp
    | some node =>
      by_cases idle : node.idle name = 0
      · simp [idle]
      · simp [idle, Nat.pos_of_ne_zero idle]

/-- The configuration that a pool of this name has now. -/
def configured (pools : List Pool) (name : String) : Option Pool :=
  pools.reverse.find? (fun pool => pool.name = name)

namespace IdleRequest

/-- The machine's pool is still there, and the machine has not been idle for as long as the pool lets it. -/
def Early (pools : List Pool) (request : IdleRequest) : Prop :=
  ∃ pool, configured pools request.vm.pool.name = some pool ∧
    request.sentAt < request.vm.lastUsed + pool.idleTimeoutSecs * 1000

end IdleRequest

namespace NodeProcess

/-- The machine that an execution takes from the idle ones. -/
def claimed (process : NodeProcess) : NodeEvent → List Vm
  | .acquire index =>
    match process.tasks[index]? with
    | some (.received pool) =>
      match process.vms.acquire pool with
      | .ok (some vm, _) => [vm]
      | _ => []
    | _ => []
  | _ => []

/-- The machine that comes to the idle ones, after an execution or when it is new. -/
def added (process : NodeProcess) : NodeEvent → List Vm
  | .finish index healthy now =>
    match process.tasks[index]? with
    | some (.running pool vm) =>
      if healthy && pool.reuse && (decide (0 < pool.idleTimeoutSecs) ||
          decide (0 < pool.warmInstances)) then [{ vm with lastUsed := now }] else []
    | _ => []
  | .offer true =>
    match process.beat with
    | .offering _ vm _ => [vm]
    | _ => []
  | _ => []

end NodeProcess

/-- The events of a pass after its first loop, and those of the executions. -/
def NodeEvent.within : NodeEvent → Bool
  | .list | .sync _ | .relabel | .trim _ _ | .renew => false
  | _ => true

/-- A pass, with its requests and the machines that executions took and brought. -/
structure Pass where
  process : NodeProcess
  requests : List IdleRequest
  claimed : List Vm
  added : List Vm

/-- The machines that the second loop has in hand. -/
def Beat.held : Beat → List Vm
  | .trimming _ idle retained => idle ++ retained
  | _ => []

namespace Pass
variable [Crates]

inductive Step (origin : Origin) (node : Uuid) : Pass → Pass → Prop where
  | request {pass : Pass} {ready : List Pool} {idle retained : List Vm} {vm : Vm} {name : String}
      {next : NodeProcess} (controller : Cluster) (now : Nat)
      (trimming : pass.process.beat = .trimming ready idle retained)
      (last : idle.getLast? = some vm)
      (route : idleRoute (target (idleUrl origin node vm.pool.name)) =
        some (node.hyphenated, name))
      (stepped : pass.process.step []
        (.trim (controller.removeIdleInstance node name).isSome now) = some next) :
      Step origin node pass { pass with
        process := next
        requests := pass.requests ++
          [⟨vm, now, controller, name, (controller.removeIdleInstance node name).isSome⟩] }
  | move {pass : Pass} {next : NodeProcess} (event : NodeEvent) (within : event.within = true)
      (stepped : pass.process.step [] event = some next) :
      Step origin node pass { pass with
        process := next
        claimed := pass.claimed ++ pass.process.claimed event
        added := pass.added ++ pass.process.added event }

/-- The machines that the pass destroys because the controller says so. -/
def destroyed (pass : Pass) : List Vm := (pass.requests.filter IdleRequest.released).map IdleRequest.vm

/-- What a pass with these pools has to do with the idle machines. -/
structure Honours (pools : List Pool) (idle : List Vm) (pass : Pass) : Prop where
  timeouts : ∀ request ∈ pass.requests, request.released = true → ¬ request.Early pools
  kept : pass.process.beat = .polling →
    ((idle.filter (fun vm => (configured pools vm.pool.name).isSome) ++ pass.added).map Vm.id).Perm
      ((pass.process.vms.idle ++ pass.claimed ++ pass.destroyed).map Vm.id)

end Pass

namespace VmState

theorem acquire_idle {state next : VmState} {pool : Pool} {vm : Option Vm}
    (acquired : state.acquire pool = .ok (vm, next)) :
    (next.idle ++ vm.toList).Perm state.idle := by
  unfold acquire at acquired
  split_ifs at acquired
  cases chosen : latest pool.name state.idle with
  | none =>
    simp only [chosen, Except.ok.injEq, Prod.mk.injEq] at acquired
    obtain ⟨rfl, rfl⟩ := acquired
    exact .of_eq (List.append_nil _)
  | some index =>
    simp only [chosen, Except.ok.injEq, Prod.mk.injEq] at acquired
    obtain ⟨rfl, rfl⟩ := acquired
    obtain ⟨found, there, -⟩ := latest_eq_some chosen
    rw [there]
    exact (List.perm_append_singleton ..).trans (swapRemove_perm there)

end VmState

namespace NodeProcess
variable [Crates] {process next : NodeProcess} {event : NodeEvent}

theorem heartbeat_balance (within : event.within = true)
    (done : process.heartbeat [] event = some next) :
    (next.vms.idle ++ next.beat.held ++ process.claimed event).Perm
      (process.vms.idle ++ process.beat.held ++ process.added event) := by
  cases event with
  | list | sync | relabel | trim | renew => cases within
  | acquire | start | finish | abandon => cases done
  | take =>
    simp only [heartbeat] at done
    split at done <;> cases done
    rename_i ready at_relabelled
    simp [claimed, added, Beat.held, at_relabelled]
  | retain =>
    simp only [heartbeat] at done
    split at done <;> cases done
    rename_i ready retained at_trimming
    simp [claimed, added, Beat.held, at_trimming]
  | ask needed =>
    simp only [heartbeat] at done
    split at done <;> cases done
    rename_i pool rest at_warming
    split
    · rename_i vms reserved
      have same : vms.idle = process.vms.idle := by
        unfold VmState.reserveWarm at reserved
        split_ifs at reserved
        obtain rfl := Option.some.inj reserved
        rfl
      simp [claimed, added, Beat.held, at_warming, same]
    · simp [claimed, added, Beat.held, at_warming]
  | warm vm now =>
    simp only [heartbeat] at done
    split at done <;> cases done
    rename_i pool rest at_starting
    cases vm <;> simp [claimed, added, Beat.held, at_starting, VmState.release]
  | offer accepted =>
    simp only [heartbeat] at done
    split at done <;> cases done
    rename_i pool vm rest at_offering
    cases accepted <;> simp [claimed, added, Beat.held, at_offering, VmState.release]
  | rest =>
    simp only [heartbeat] at done
    split at done <;> cases done
    rename_i at_warming
    simp [claimed, added, Beat.held, at_warming]

theorem execution_balance (done : process.execution event = some next) :
    (next.vms.idle ++ next.beat.held ++ process.claimed event).Perm
      (process.vms.idle ++ process.beat.held ++ process.added event) := by
  cases event with
  | list | sync | relabel | take | trim | retain | ask | warm | offer | rest | renew => cases done
  | acquire index =>
    simp only [execution] at done
    split at done <;> cases done
    rename_i pool received
    cases acquired : process.vms.acquire pool with
    | error refused => simp [claimed, added, received, acquired]
    | ok result =>
      obtain ⟨vm, vms⟩ := result
      have taken := VmState.acquire_idle acquired
      have claim : process.claimed (.acquire index) = vm.toList := by
        cases vm <;> simp [claimed, received, acquired]
      have brought : process.added (.acquire index) = [] := rfl
      rw [claim, brought, List.append_nil]
      have moved : (vms.idle ++ process.beat.held ++ vm.toList).Perm
          (process.vms.idle ++ process.beat.held) := by
        rw [List.append_assoc]
        refine (List.perm_append_comm.append_left _).trans ?_
        rw [← List.append_assoc]
        exact taken.append_right _
      cases vm <;> exact moved
  | start index vm now =>
    simp only [execution] at done
    split at done <;> cases done
    cases vm <;> simp [claimed, added, VmState.release]
  | finish index healthy now =>
    simp only [execution] at done
    split at done <;> cases done
    rename_i pool vm running
    simp only [claimed, added, running, VmState.release, List.append_nil]
    split_ifs
    · rw [Option.toList_some, List.append_assoc, List.append_assoc]
      exact List.perm_append_comm.append_left _
    · simp
  | abandon index =>
    simp only [execution] at done
    split at done <;> cases done
    simp [claimed, added]

/-- What an event of the pass moves between the idle machines, those in hand and the executions. -/
theorem moved_balance (within : event.within = true) (stepped : process.step [] event = some next) :
    (next.vms.idle ++ next.beat.held ++ process.claimed event).Perm
      (process.vms.idle ++ process.beat.held ++ process.added event) := by
  have done : (process.heartbeat [] event).or (process.execution event) = some next := by
    cases event <;> first | exact stepped | cases within
  rcases Option.or_eq_some_iff.mp done with beats | ⟨-, runs⟩
  · exact heartbeat_balance within beats
  · exact execution_balance runs

/-- A request takes the last machine in hand, and keeps it under the same identifier or not at all. -/
theorem trimmed_balance {ready : List Pool} {idle retained : List Vm} {vm : Vm} {release : Bool}
    {now : Nat} (trimming : process.beat = .trimming ready idle retained)
    (last : idle.getLast? = some vm) (stepped : process.step [] (.trim release now) = some next) :
    ((next.vms.idle ++ next.beat.held ++ if release then [vm] else []).map Vm.id).Perm
      ((process.vms.idle ++ process.beat.held).map Vm.id) := by
  have done : next = { process with
      beat := .trimming ready idle.dropLast
        (if release then retained else retained ++ [vm.trimmed now]) } := by
    rcases Option.or_eq_some_iff.mp stepped with beats | ⟨-, runs⟩
    · simp only [heartbeat, trimming, last, Option.map_some] at beats
      exact (Option.some.inj beats).symm
    · cases runs
  have same : (vm.trimmed now).id = vm.id := by
    unfold Vm.trimmed
    split_ifs <;> rfl
  have whole : idle = idle.dropLast ++ [vm] := (List.dropLast_append_getLast? vm last).symm
  have held : process.beat.held = idle.dropLast ++ [vm] ++ retained := by
    rw [trimming, Beat.held, ← whole]
  rw [held, done]
  cases release with
  | true =>
    simp only [Beat.held, if_true, List.append_assoc]
    exact ((List.perm_append_comm.append_left _).append_left _).map _
  | false =>
    simp only [Beat.held, Bool.false_eq_true, if_false, List.append_nil, List.map_append,
      List.map_cons, List.map_nil, same, List.append_assoc]
    exact (List.perm_append_comm.append_left _).append_left _

end NodeProcess

namespace Pass
variable [Crates] {origin : Origin} {node : Uuid}

/-- Every machine is idle, in hand, with an execution or destroyed, and in one place only. -/
def Balanced (base : List Uuid) (pass : Pass) : Prop :=
  (base ++ pass.added.map Vm.id).Perm
    ((pass.process.vms.idle ++ pass.process.beat.held ++ pass.claimed ++ pass.destroyed).map Vm.id)

omit [Crates] in
theorem destroyed_concat (requests : List IdleRequest) (request : IdleRequest) :
    ((requests ++ [request]).filter IdleRequest.released).map IdleRequest.vm =
      (requests.filter IdleRequest.released).map IdleRequest.vm ++
        if request.released then [request.vm] else [] := by
  rw [List.filter_append, List.map_append]
  cases released : request.released <;> simp [released]

theorem Step.balanced {pass next : Pass} (step : Step origin node pass next) {base : List Uuid}
    (balanced : pass.Balanced base) : next.Balanced base := by
  rw [Balanced, List.perm_iff_count] at balanced ⊢
  intro id
  have before := balanced id
  cases step with
  | request controller now trimming last route stepped =>
    have moved := (NodeProcess.trimmed_balance trimming last stepped).count_eq id
    simp only [destroyed, destroyed_concat, List.map_append, List.count_append] at before moved ⊢
    omega
  | move event within stepped =>
    have moved := ((NodeProcess.moved_balance within stepped).map Vm.id).count_eq id
    simp only [destroyed, List.map_append, List.count_append] at before moved ⊢
    omega

/-- The answers of a run of the pass are those of `remove_idle_instance`. -/
theorem answered {start pass : Pass} (run : Relation.ReflTransGen (Step origin node) start pass)
    (fresh : start.requests = []) : ∀ request ∈ pass.requests,
      request.released = (request.controller.removeIdleInstance node request.name).isSome := by
  induction run with
  | refl =>
    intro request member
    rw [fresh] at member
    cases member
  | tail before step ih =>
    cases step with
    | request controller now trimming last route stepped =>
      intro request member
      rcases List.mem_append.mp member with earlier | latest
      · exact ih request earlier
      · obtain rfl := List.mem_singleton.mp latest
        rfl
    | move event within stepped => exact ih

omit [Crates] in
theorem relabel_ids (pools : List Pool) (idle : List Vm) :
    (relabel pools idle).map Vm.id =
      (idle.filter (fun vm => (configured pools vm.pool.name).isSome)).map Vm.id := by
  induction idle with
  | nil => rfl
  | cons vm rest ih =>
    rw [relabel, List.filterMap_cons, ← relabel]
    cases found : configured pools vm.pool.name with
    | none =>
      rw [show pools.reverse.find? (fun pool => pool.name = vm.pool.name) = none from found,
        List.filter_cons_of_neg (by simp [found])]
      exact ih
    | some pool =>
      rw [show pools.reverse.find? (fun pool => pool.name = vm.pool.name) = some pool from found,
        List.filter_cons_of_pos (by simp [found])]
      exact congrArg (List.cons vm.id) ih

/-- A pass loses and doubles no machine, and it keeps the timeouts exactly if it asks about no machine too early while
the controller has one too many. -/
theorem idle_timeout_honoured {process relabelled : NodeProcess} {ready : List Pool} {pass : Pass}
    (synced : process.beat = .synced ready) (began : process.step [] .relabel = some relabelled)
    (run : Relation.ReflTransGen (Step origin node) ⟨relabelled, [], [], []⟩ pass) :
    Honours ready process.vms.idle pass ↔
      ∀ request ∈ pass.requests, request.Early ready →
        ¬ request.controller.Surplus node request.name := by
  have answers := answered run rfl
  have balanced : pass.Balanced ((relabel ready process.vms.idle).map Vm.id) := by
    have done : relabelled = { process with
        vms := { process.vms with idle := relabel ready process.vms.idle }
        beat := .relabelled ready } := by
      rcases Option.or_eq_some_iff.mp began with beats | ⟨-, runs⟩
      · simp only [NodeProcess.heartbeat, synced] at beats
        exact (Option.some.inj beats).symm
      · cases runs
    induction run with
    | refl =>
      rw [done]
      simp [Balanced, Beat.held, destroyed]
    | tail before step ih => exact step.balanced (ih (answered before rfl))
  have settled {request : IdleRequest} (member : request ∈ pass.requests) :
      request.released = true ↔ request.controller.Surplus node request.name := by
    rw [answers request member, Cluster.removeIdleInstance_surplus]
  constructor
  · exact fun honours request member early surplus =>
      honours.timeouts request member ((settled member).mpr surplus) early
  · intro patient
    refine ⟨fun request member released early =>
      patient request member early ((settled member).mp released), fun finished => ?_⟩
    rw [Balanced, relabel_ids, finished] at balanced
    simpa [Beat.held] using balanced

end Pass

namespace Demo

/-- A pool whose machines are kept for a minute, and for which none is kept ready. -/
def minutePool : Pool := { workerPool none true with warmInstances := 0 }

def minuteCluster : Cluster :=
  { Cluster.empty with
    pools := (∅ : Keyed Pool.name).insert minutePool
    nodes := (∅ : Keyed Node.id).insert (worker 2 1) }

/-- A machine that was used a second after the start. -/
def restingVm : Vm := ⟨7, minutePool, 1000, "snapshot"⟩

/-- A node that runs nothing. -/
def restingNode (idle : List Vm) (beat : Beat) : NodeProcess := ⟨⟨idle, 0, 0, 1000, 1000⟩, [], beat⟩

end Demo

namespace Pass

/-- The pass over one idle machine, about which the controller is asked at this time. -/
theorem pass_at (now : Nat) :
    Relation.ReflTransGen (@Step Demo.crates loopback 2)
      ⟨Demo.restingNode [Demo.restingVm] (.relabelled [Demo.minutePool]), [], [], []⟩
      ⟨Demo.restingNode [] .polling, [⟨Demo.restingVm, now, Demo.minuteCluster, "p", true⟩],
        [], []⟩ := by
  let _ := Demo.crates
  have survives : Survives "p" :=
    ⟨by decide, by simp [slash, ending, dropped], noEscape_of_not_mem (by decide)⟩
  have released : (Demo.minuteCluster.removeIdleInstance 2 "p").isSome = true := by decide +kernel
  have moved {requests : List IdleRequest} {idle idle' : List Vm} {beat beat' : Beat}
      (event : NodeEvent) (within : event.within = true)
      (claimed : (Demo.restingNode idle beat).claimed event = [])
      (added : (Demo.restingNode idle beat).added event = [])
      (stepped : (Demo.restingNode idle beat).step [] event =
        some (Demo.restingNode idle' beat')) :
      Step loopback 2 ⟨Demo.restingNode idle beat, requests, [], []⟩
        ⟨Demo.restingNode idle' beat', requests, [], []⟩ := by
    have step := @Step.move Demo.crates loopback 2 ⟨Demo.restingNode idle beat, requests, [], []⟩
      (Demo.restingNode idle' beat') event within stepped
    rwa [claimed, added] at step
  have asked : Step loopback 2
      ⟨Demo.restingNode [] (.trimming [Demo.minutePool] [Demo.restingVm] []), [], [], []⟩
      ⟨Demo.restingNode [] (.trimming [Demo.minutePool] [] []),
        [⟨Demo.restingVm, now, Demo.minuteCluster, "p", true⟩], [], []⟩ := by
    rw [← released]
    refine .request Demo.minuteCluster now rfl rfl (idleRoute_of_survives survives loopback 2) ?_
    rw [released]
    rfl
  refine .head (moved .take rfl rfl rfl rfl) (.head asked ?_)
  refine .head (moved .retain rfl rfl rfl rfl) (.head (moved (.ask false) rfl rfl rfl rfl) ?_)
  exact .single (moved .rest rfl rfl rfl rfl)

/-- A machine that has been idle for its minute. -/
theorem idle_timeout_honoured_expired :
    Honours [Demo.minutePool] [Demo.restingVm]
        ⟨Demo.restingNode [] .polling,
          [⟨Demo.restingVm, 61000, Demo.minuteCluster, "p", true⟩], [], []⟩ ↔
      ∀ request ∈ [(⟨Demo.restingVm, 61000, Demo.minuteCluster, "p", true⟩ : IdleRequest)],
        request.Early [Demo.minutePool] → ¬ request.controller.Surplus 2 request.name :=
  @idle_timeout_honoured Demo.crates loopback 2
    (Demo.restingNode [Demo.restingVm] (.synced [Demo.minutePool])) _ [Demo.minutePool] _ rfl rfl
    (pass_at 61000)

/-- A second after its last use, a machine is destroyed because no instance is to be kept ready. -/
theorem timeout_ignored :
    ¬ ∀ [Crates] (origin : Origin) (node : Uuid) (process relabelled : NodeProcess)
      (ready : List Pool) (pass : Pass), process.beat = .synced ready →
      process.step [] .relabel = some relabelled →
      Relation.ReflTransGen (Step origin node) ⟨relabelled, [], [], []⟩ pass →
        Honours ready process.vms.idle pass := by
  intro claim
  have honours := @claim Demo.crates loopback 2
    (Demo.restingNode [Demo.restingVm] (.synced [Demo.minutePool])) _ [Demo.minutePool] _ rfl rfl
    (pass_at 2000)
  exact honours.timeouts _ List.mem_cons_self rfl ⟨Demo.minutePool, rfl, by decide⟩

end Pass
end Scraperack
