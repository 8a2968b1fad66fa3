import Scraperack.Ledger
import Scraperack.Registry

/-! The ledger across a restart. The counters of the nodes come back as they were saved with the
cluster, while the executions come back from their rows, all of them queued. -/

namespace Scraperack
open Counters

theorem get_foldl_insert {K V : Type} [DecidableEq K] {key : V → K} (values : List V)
    {t : Keyed key} {k : K} {v : V}
    (present : (values.foldl Keyed.insert t).get k = some v) : v ∈ values ∨ t.get k = some v := by
  induction values generalizing t with
  | nil => exact .inr present
  | cons head tail ih =>
    rcases ih present with member | found
    · exact .inl (List.mem_cons_of_mem _ member)
    · rw [Keyed.get_insert] at found
      split_ifs at found
      · exact .inl (Option.some.inj found ▸ List.mem_cons_self)
      · exact .inr found

namespace System

/-- What `migrate_legacy` leaves alone: the nodes, and the sizes of the pools. -/
structure SameSizes (c next : Cluster) : Prop where
  nodes : next.nodes = c.nodes
  idleLoad : ∀ node r, next.idleLoad node r = c.idleLoad node r
  executions : c.executions = ∅ → next.executions = ∅

theorem migratePool_sizes (fresh : String → Uuid) (c : Cluster) (old : Pool) : SameSizes c
    (migratePool fresh c old) := by
  refine ⟨rfl, fun node r => ?_, fun none => ?_⟩
  · simp only [Cluster.idleLoad, migratePool, Keyed.adjust, Keyed.total_map]
    refine Keyed.total_congr (fun name pool _ => ?_)
    split_ifs <;> cases r <;> rfl
  · simp only [migratePool, none]
    rfl

theorem migrateLegacy_sizes (fresh : String → Uuid) (c : Cluster) : SameSizes c
    (migrateLegacy fresh c) := by
  have folded (pools : List Pool) (d : Cluster) : SameSizes d
    (pools.foldl (migratePool fresh) d) := by
    induction pools generalizing d with
    | nil => exact ⟨rfl, fun _ _ => rfl, fun none => none⟩
    | cons pool rest ih =>
      have first := migratePool_sizes fresh d pool
      have later := ih (migratePool fresh d pool)
      exact ⟨later.nodes.trans first.nodes, fun node r =>
        (later.idleLoad node r).trans (first.idleLoad node r),
        fun none => later.executions (first.executions none)⟩
  exact folded _ c

/-- All executions that are loaded are queued. -/
theorem loadActiveExecutions_queued {database : Database} {execution : Execution}
    (loaded : execution ∈ database.loadActiveExecutions.2) : execution.status = .queued := by
  simp only [Database.loadActiveExecutions, List.mem_map, List.mem_filter,
    decide_eq_true_eq] at loaded
  obtain ⟨row, ⟨-, queued⟩, rfl⟩ := loaded
  exact queued

theorem activeLoad_zero {c : Cluster}
    (queued : ∀ id execution, c.executions.get id = some execution → execution.status = .queued)
    (id : Uuid) (r : Resource) : c.activeLoad id r = 0 := by
  refine Keyed.total_zero (fun k execution present => ?_)
  simp [Cluster.weight, Execution.occupiesOn, queued k execution present, ExecutionStatus.onNode]

/-- What `serve` makes of the stored cluster and the rows. -/
theorem serve_ledger {database next : Database} {cluster : Cluster}
    {fresh : String → Uuid} {now : Nat}
    (served : serve database none fresh now = some (cluster, next))
    (bare : (database.cluster.getD Cluster.empty).executions = ∅) :
    cluster.nodes = (database.cluster.getD Cluster.empty).nodes ∧
      ∀ node r, cluster.load node r = (database.cluster.getD Cluster.empty).idleLoad node r := by
  simp only [serve, Option.map_eq_some_iff, Prod.mk.injEq, Option.getD_none] at served
  obtain ⟨pruned, -, rfl, -⟩ := served
  have migrated := migrateLegacy_sizes fresh (database.cluster.getD Cluster.empty)
  refine ⟨migrated.nodes, fun node r => ?_⟩
  have idle := migrated.idleLoad node r
  rw [Cluster.load, activeLoad_zero ?_, Nat.add_zero]
  · exact idle
  · intro id execution present
    rcases get_foldl_insert _ present with loaded | before
    · exact loadActiveExecutions_queued loaded
    · rw [migrated.executions bare] at before
      cases before

/-- The stored cluster is the one saved last, with an exact ledger. -/
structure Persisted (s : System) : Prop where
  stored : s.database.cluster.getD Cluster.empty = { s.lastSave with executions := ∅ }
  accounted : Accounted s.lastSave
  fits : Fits s.lastSave

variable [Crates]

/-- A step saves the cluster in memory, or leaves what was saved alone. -/
theorem step_lastSave {s t : System} {label : Label} (stepped : s.step label = some t)
    (same : restarts label = false) :
    (t.database.cluster = s.database.cluster ∧ t.lastSave = s.lastSave) ∨
      (t.database.cluster = some { s.cluster with executions := ∅ } ∧ t.lastSave = s.cluster) := by
  cases step_cases stepped with
  | called index op rest before after next there plain done =>
    cases op with
    | insertExecution => cases plain
    | saveCluster =>
      obtain ⟨rfl, -, -⟩ := by simpa only [runOp, Option.some.injEq, Prod.mk.injEq] using done
      exact .inr ⟨rfl, rfl⟩
    | completeExecution execution =>
      simp only [runOp, Option.map_eq_some_iff, Prod.mk.injEq] at done
      obtain ⟨database, stored, rfl, -⟩ := done
      exact .inl ⟨completeExecution_cluster stored, rfl⟩
    | deliver node execution pool =>
      simp only [runOp, Option.map_eq_some_iff, Prod.mk.injEq] at done
      obtain ⟨_, _, rfl, -⟩ := done
      exact .inl ⟨rfl, rfl⟩
    | _ =>
      simp only [runOp, Option.some.injEq, Prod.mk.injEq] at done
      obtain ⟨rfl, -⟩ := done
      exact .inl ⟨rfl, rfl⟩
  | admitted _ _ _ _ _ _ _ _ stored | rejected _ _ _ _ _ _ _ _ stored =>
    exact .inl ⟨insertExecution_cluster stored, rfl⟩
  | pruned now =>
    refine .inl ⟨?_, rfl⟩
    cases done : Scraperack.prune s.database now none with
    | none => rfl
    | some next => simpa [done] using prune_cluster done
  | restarted => cases same
  | _ => exact .inl ⟨rfl, rfl⟩

theorem Persisted.step {s t : System} {label : Label}
    (persisted : Persisted s) (accounted : Accounted s.cluster)
    (fits : Fits s.cluster) (stepped : s.step label = some t) (same : restarts label =
      false) : Persisted t := by
  rcases step_lastSave stepped same with ⟨stored, last⟩ | ⟨stored, last⟩
  · exact ⟨by
      rw [stored, last]; exact persisted.stored, last ▸ persisted.accounted, last ▸ persisted.fits⟩
  · exact ⟨by rw [stored, last]; rfl, last ▸ accounted, last ▸ fits⟩

theorem Persisted.run {s t : System} (sound : Sound s) (accounted : Accounted s.cluster)
    (persisted : Persisted s)
    (run : Run (fun s label => Fits s.cluster ∧ s.KeepsSizes label ∧
      s.SparesPool label) s t) : Persisted t :=
  run.invariant_along persisted (fun before persisted allowed stepped =>
    persisted.step (accounted.run sound before) allowed.2.1 stepped allowed.1)

/-- After a restart every node counts exactly what is on it, if and only if the executions in the
cluster that was saved last took nothing on any node. -/
theorem reload_exact {s t u : System} (started : Started s) (accounted : Accounted s.cluster)
    (persisted : Persisted s)
    (run : Run (fun s label => Fits s.cluster ∧ s.KeepsSizes label ∧ s.SparesPool label) s t)
    {fresh : String → Uuid} {now : Nat} (restarted : t.step (.restart fresh now) = some u) :
    (∀ k node, u.cluster.nodes.get k = some node → ∀ r, node.used r = u.cluster.load node r) ↔
      ∀ k node, t.lastSave.nodes.get k = some node → ∀ r, t.lastSave.activeLoad k r = 0 := by
  obtain ⟨stored, covered, fits⟩ := persisted.run started.sound accounted run
  simp only [System.step] at restarted
  split_ifs at restarted
  obtain ⟨⟨cluster, database⟩, served, rfl⟩ := Option.map_eq_some_iff.mp restarted
  obtain ⟨nodes, load⟩ := serve_ledger served (by rw [stored])
  rw [stored] at nodes load
  -- Every node comes back with the counters it was saved with, and these were exact.
  have saved (k : Uuid) (node : Node) (present : t.lastSave.nodes.get k = some node)
    (r : Resource) :
      node.used r = cluster.load node r ↔ t.lastSave.activeLoad k r = 0 := by
    have exact := ((covered.covered.balanced fits).exact k node present).1 r
    have idle : cluster.load node r = t.lastSave.idleLoad node r := load node r
    rw [exact, idle, Cluster.load, Keyed.key_of_get present]
    omega
  change (∀ k node, cluster.nodes.get k = some node → _) ↔ _
  rw [nodes]
  exact forall₃_congr (fun k node present => forall_congr' (saved k node present))

end System

namespace Demo

/-- The node is given an idle instance. -/
def warming : List Label := installation ++ creating ++ nodeRequest 0 (.addWarmInstance pool) 3

/-- The cluster is saved while an execution is assigned to the node. -/
def savedWhileAssigned : List Label := assigning ++ request 0 (.createJoinToken 9 "token" 0) 2

def again : Label := .restart (fun _ => 0) 0

theorem persisted_empty : System.Persisted empty :=
  ⟨rfl, System.fresh_empty.accounted, fun _ _ present => by cases present⟩

end Demo

namespace System

/-- An idle instance is counted before a restart and after it. -/
theorem reload_exact_warmed :
    ∃ u : System, ∃ node, u.cluster.nodes.get Demo.node = some node ∧ node.usedCpuMillis = 100 ∧
      ∀ r, node.used r = u.cluster.load node r := by
  have performed : Option.any (fun u : System =>
        (u.cluster.nodes.get Demo.node).any (fun node : Node => decide (node.usedCpuMillis = 100)))
      (((Runs.exec (@step Demo.crates)
          (fun s label => restarts label = false ∧ Fits s.cluster ∧ s.KeepsSizes label ∧
            s.SparesPool label) Demo.empty
          Demo.warming).filter (fun t => t.lastSave.nodes.all (fun node =>
            decide (t.lastSave.activeLoad node.id .cpu = 0 ∧
              t.lastSave.activeLoad node.id .memory = 0)))).bind
        (fun t => @step Demo.crates t Demo.again)) = true := by decide +kernel
  obtain ⟨u, reached, after⟩ := (Option.any_eq_true _ _).mp performed
  obtain ⟨t, before, stepped⟩ := Option.bind_eq_some_iff.mp reached
  obtain ⟨before, empty⟩ := Option.filter_eq_some_iff.mp before
  obtain ⟨node, present, used⟩ := (Option.any_eq_true _ _).mp after
  have nothing (k : Uuid) (node : Node) (found : t.lastSave.nodes.get k = some node)
    (r : Resource) :
      t.lastSave.activeLoad k r = 0 := by
    have both := of_decide_eq_true ((Keyed.all_iff _ _).mp empty k node found)
    rw [Keyed.key_of_get found] at both
    cases r
    · exact both.1
    · exact both.2
  have exact := (@reload_exact Demo.crates _ _ _ fresh_empty.started fresh_empty.accounted
    Demo.persisted_empty
    (Runs.reaches_of_exec _ before) _ _ stepped).mpr nothing
  exact ⟨u, node, present, of_decide_eq_true used, exact _ _ present⟩

/-- An execution is queued again by a restart, and its former node still counts it. -/
theorem reload_drifts :
    ¬ ∀ [Crates] (s t u : System) (fresh : String → Uuid) (now : Nat), s.Blank →
      Run (fun s label => Fits s.cluster ∧ s.KeepsSizes label) s t →
        t.step (.restart fresh now) = some u →
      ∀ k node, u.cluster.nodes.get k = some node → ∀ r, node.used r = u.cluster.load node r := by
  intro claim
  have performed : Option.any (fun u : System =>
        (u.cluster.nodes.get Demo.node).any
          (fun node => decide (node.used .cpu ≠ u.cluster.load node .cpu)))
      ((Runs.exec (@step Demo.crates) (fun s label => restarts label = false ∧ Fits s.cluster ∧
        s.KeepsSizes label)
          Demo.empty Demo.savedWhileAssigned).bind (fun t => @step Demo.crates t Demo.again)) =
            true := by decide +kernel
  obtain ⟨u, reached, after⟩ := (Option.any_eq_true _ _).mp performed
  obtain ⟨t, before, stepped⟩ := Option.bind_eq_some_iff.mp reached
  obtain ⟨node, present, differs⟩ := (Option.any_eq_true _ _).mp after
  exact of_decide_eq_true differs
    (@claim Demo.crates _ _ _ _ _ ⟨fresh_empty, rfl⟩ (Runs.reaches_of_exec _ before) stepped
    _ node present .cpu)

end System
end Scraperack
