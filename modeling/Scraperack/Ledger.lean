import Scraperack.Load

/-! The capacity ledger over sections and runs: what every node counts as used is what its
idle instances and its executions take. -/

namespace Scraperack
open Counters

/-- The exact sums fit in 32 bits. -/
def Fits (c : Cluster) : Prop := ∀ k node, c.nodes.get k = some node → ∀ r, c.load node r ≤ u32Max

instance (c : Cluster) : Decidable (Fits c) :=
  decidable_of_iff (c.nodes.all (fun node =>
    decide (c.load node .cpu ≤ u32Max ∧ c.load node .memory ≤ u32Max)) = true) (by
    rw [Keyed.all_iff]
    constructor
    · intro small k node present r
      have both := of_decide_eq_true (small k node present)
      cases r
      · exact both.1
      · exact both.2
    · exact fun small k node present => decide_eq_true ⟨small k node present .cpu,
        small k node present .memory⟩)

/-- The ledger is exact, and no saturating subtraction has clamped. -/
def Exact (c : Cluster) : Prop :=
  ∀ k node, c.nodes.get k = some node → (∀ r, node.used r = c.load node r) ∧ node.clamped = false

theorem Covered.balanced {c : Cluster} (covered : Covered c) (fits : Fits c) : Balanced c :=
  fun k node present => (covered k node present).tracked (fits k node present)

theorem Balanced.exact {c : Cluster} (balanced : Balanced c) : Exact c :=
  fun k node present => ⟨(balanced k node present).exact, (balanced k node present).unclamped⟩

/-- A section that starts with an exact ledger ends with one that is exact as far as 32 bits go. -/
theorem ShedThenGrow.covered {may : Move → Prop} {c next : Cluster} (made : ShedThenGrow may c next)
    (balanced : Balanced c) (seated : Seated c) (owned : Owned c)
    (gentle : ∀ {e : Cluster} {move : Move}, move.grows = true ∨ may move →
      (move.leads = true → e = c) → move.Gentle e)
    (keeps : ∀ pool, may (.resetPool pool) →
      (Move.resetPool pool).KeepsSizes c) : Covered next := by
  obtain ⟨middle, shed, grown⟩ := made
  have middling : Balanced middle ∧ Seated middle ∧ Owned middle := by
    refine shed.invariant (P := fun e =>
      Balanced e ∧ Seated e ∧ Owned e) ⟨balanced, seated, owned⟩ ?_
    rintro e f move ⟨even, sits, owns⟩ ⟨allowed, sheds, admitted, leads⟩ moved
    obtain rfl := Option.some.inj moved
    have careful := gentle (.inr admitted) leads
    refine ⟨even.move sits owns allowed careful ?_ sheds, sits.move allowed careful,
      owns.move allowed⟩
    cases move with
    | resetPool pool =>
      obtain rfl := leads rfl
      exact keeps pool admitted
    | _ => trivial
  refine grown.invariant (P := Covered) middling.1.covered ?_
  rintro e f move covered ⟨allowed, grows, leads⟩ moved
  obtain rfl := Option.some.inj moved
  cases move with
  | warm id pool =>
    obtain rfl := leads rfl
    exact Covered.warm balanced allowed
  | place execution pool node =>
    obtain ⟨queued, there, rfl, choice⟩ := allowed
    exact covered.place queued choice
  | _ => cases grows

namespace System

theorem Fresh.owned {s : System} (fresh : Fresh s) : Owned s.cluster := by
  intro id node present
  rw [fresh.empty] at present
  cases present

theorem Fresh.covered {s : System} (fresh : Fresh s) : Covered s.cluster := by
  intro id node present
  rw [fresh.empty] at present
  cases present

/-- Every node counts exactly what its instances take, and its idle instances belong to known pools. -/
structure Accounted (c : Cluster) : Prop where
  covered : Covered c
  seated : Seated c
  owned : Owned c

theorem Fresh.accounted {s : System} (fresh : Fresh s) : Accounted s.cluster :=
  ⟨fresh.covered, fresh.seated, fresh.owned⟩

/-- The environment that the step writes together with its pool, without a restart of the pool. -/
def rewrite (s : System) : Label → Option Environment
  | .enter index input =>
    match (s.inflight[index]?).bind (Frame.commit input) with
    | some (.updateEnvironment _ id request old image artifact) =>
      if needsRebuild old image.id request then none
      else some (requestedEnvironment id request image.id artifact old.pool)
    | _ => none
  | _ => none

theorem rewrite_of_entered {s : System} {label : Label} {commit : Commit} {others : List Frame}
    {environment : Environment} (entered : Entered s label commit others)
    (rewrites : commit.Rewrites environment) :
    s.rewrite label = some environment := by
  obtain ⟨fresh, id, request, old, image, artifact, rfl, keeps, rfl⟩ := rewrites
  cases entered with
  | client _ direct => cases direct
  | handler index input frame _ there ready => simp [rewrite, there, ready, keeps]

/-- The step changes the size of no pool that has instances: an update that does not restart its
pool finds under the name of its copy a pool of the requested size, a pool without instances or none. -/
def KeepsSizes (s : System) (label : Label) : Prop :=
  ∀ environment, s.rewrite label = some environment →
    ∀ pool, s.cluster.pools.get environment.pool = some pool →
    s.cluster.instances environment.pool = 0 ∨
      pool.cpuMillis = environment.cpuMillis ∧ pool.memoryMib = environment.memoryMib

instance (s : System) (label : Label) : Decidable (s.KeepsSizes label) :=
  inferInstanceAs (Decidable (∀ environment, s.rewrite label = some environment →
    ∀ pool, s.cluster.pools.get environment.pool = some pool → _ ∨ _))

variable [Crates]

theorem owned_step {s t : System} {label : Label} (sound : Sound s) (owned : Owned s.cluster)
    (stepped : s.step label = some t) (same : restarts label = false) : Owned t.cluster :=
  (step_moves sound stepped same).invariant owned (fun before allowed _ _ => before.move allowed)

/-- A step that starts with an exact ledger leaves one that is exact as far as 32 bits go. -/
theorem covered_step {s t : System} {label : Label} (sound : Sound s) (spares : s.SparesPool label)
    (balanced : Balanced s.cluster) (seated : Seated s.cluster) (owned : Owned s.cluster)
    (keeps : s.KeepsSizes label) (stepped : s.step label = some t) (same : restarts label = false) :
    Covered t.cluster := by
  refine (step_moves sound stepped same).covered balanced seated owned
    (gentle_of_spares spares _) ?_
  rintro pool (⟨commit, others, entered, environment, rewrites, rfl⟩ | ⟨index, execution, -, -,
    wrong | wrong⟩)
  · intro old known
    refine (keeps environment (rewrite_of_entered entered rewrites) old known).imp_right ?_
    rintro ⟨cpu, memory⟩ r
    cases r
    · exact cpu
    · exact memory
  · cases wrong
  · cases wrong

theorem Accounted.run {s t : System} (sound : Sound s) (accounted : Accounted s.cluster)
    (run : Run (fun s label => Fits s.cluster ∧ s.KeepsSizes label ∧
      s.SparesPool label) s t) : Accounted t.cluster := by
  refine run.invariant_along (P := fun s => Accounted s.cluster) accounted ?_
  rintro u v label before ⟨covered, seated, owned⟩ ⟨same, small, keeps, spares⟩ stepped
  have sound := sound.run before
  exact ⟨covered_step sound spares (covered.balanced small) seated owned keeps stepped same,
    seated_step sound spares seated stepped same, owned_step sound owned stepped same⟩

/-- The ledger is exact in every state of a run that keeps sums and sizes. -/
theorem Fresh.exact_run {s t : System} (fresh : Fresh s)
    (run : Run (fun s label => Fits s.cluster ∧ s.KeepsSizes label) s t) (fits : Fits t.cluster) :
    Exact t.cluster := by
  have spared : Run (fun s label => Fits s.cluster ∧ s.KeepsSizes label ∧ s.SparesPool label) s t :=
    (fresh.spares_run run).mono (fun _ _ allowed =>
      ⟨allowed.1, allowed.2.1.1, allowed.2.1.2, allowed.2.2⟩)
  exact ((fresh.accounted.run fresh.started.sound spared).covered.balanced fits).exact

/-- From an empty cluster on the ledger stays exact, as long as its sums fit and no update
changes the size of a pool in use. -/
theorem ledger_exact {s t : System} (fresh : Fresh s)
    (run : Run (fun s label => Fits s.cluster ∧ s.KeepsSizes label) s t) (fits : Fits t.cluster) :
    Exact t.cluster :=
  fresh.exact_run run fits

end System

namespace Demo

/-- An update reads the environment, its pool is replaced and warmed, and the update goes on. -/
def resizing : List Label :=
  installation ++ creating ++ [.checkEnvironment (some environment) environmentRequest] ++
    request 1 (.deletePool pool) 2 ++ request 1 (.createPool otherPool) 2 ++
    nodeRequest 1 (.addWarmInstance pool) 3 ++ [.enter 0 (input 5)]

end Demo

namespace System

/-- An environment is created, warmed and updated to other limits; the ledger stays exact. -/
theorem ledger_exact_warmed :
    ∃ t, @Run Demo.crates (fun s label => Fits s.cluster ∧ s.KeepsSizes label) Demo.empty t ∧
      Exact t.cluster ∧
      ∃ node, t.cluster.nodes.get Demo.node = some node ∧ node.usedCpuMillis = 100 := by
  obtain ⟨t, run, warmed⟩ := Runs.exists_reaches (@step Demo.crates)
    (fun s label => restarts label = false ∧ Fits s.cluster ∧ s.KeepsSizes label) Demo.empty
    (Demo.installation ++ Demo.creating ++ Demo.nodeRequest 0 (.addWarmInstance Demo.pool) 3 ++
      [.checkEnvironment (some Demo.environment)
        { Demo.environmentRequest with maxInstances := some 3 },
        .enter 0 (Demo.input 5)])
    (fun t => decide (Fits t.cluster) &&
      (t.cluster.nodes.get Demo.node).any (fun node : Node => decide (node.usedCpuMillis = 100)))
        (by decide +kernel)
  simp only [Bool.and_eq_true, decide_eq_true_eq, Option.any_eq_true] at warmed
  exact ⟨t, run, @ledger_exact Demo.crates _ _ fresh_empty run warmed.1, warmed.2⟩

/-- A pool that was replaced in the meantime is overwritten with instances of another size. -/
theorem ledger_drifts :
    ¬ ∀ [Crates] (s t : System), s.Fresh → Run (fun s _ => Fits s.cluster) s t → Fits t.cluster →
      Exact t.cluster := by
  intro claim
  obtain ⟨t, run, drifted⟩ := Runs.exists_reaches (@step Demo.crates)
    (fun s label => restarts label = false ∧ Fits s.cluster)
    Demo.empty Demo.resizing
    (fun t => decide (Fits t.cluster) &&
      t.cluster.nodes.any (fun node => decide (node.used .cpu ≠ t.cluster.load node .cpu)))
        (by decide +kernel)
  simp only [Bool.and_eq_true, decide_eq_true_eq, Keyed.any_iff] at drifted
  obtain ⟨small, k, node, present, differ⟩ := drifted
  exact differ ((@claim Demo.crates _ _ fresh_empty run small k node present).1 .cpu)

end System
end Scraperack
