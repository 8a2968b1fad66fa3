import Scraperack.Copies
import Scraperack.Dispatch
import Scraperack.Tenancy

/-! The rows of executions: what the database's transactions and the calls of the handlers make of
them, and what each locked section leaves to be written. -/

namespace Scraperack

/-- What the call writes over rows: the copies that it saves, or the execution that is complete. -/
def Op.writes : Op → List Execution
  | .completeExecution execution => [execution]
  | op => op.copies

/-- The identifier of a row that the call creates or removes as a whole. -/
def Op.reserves : Op → Option Uuid
  | .insertExecution execution _ _ => some execution.id
  | .deleteExecution id => some id
  | _ => none

/-- The transaction of the call prunes the table as well. -/
def Op.prunes : Op → Bool
  | .insertExecution .. | .completeExecution _ => true
  | _ => false

/-- What a handler in flight still has to write, in the order of its calls. -/
def Frame.writes : Frame → List Execution
  | .running ops _ => ops.flatMap Op.writes
  | _ => []

/-- The row says of the execution where it runs and how far it has come. -/
structure Row.Records (row : Row) (execution : Execution) : Prop where
  status : row.status = execution.status
  node : row.node = execution.node
  pool : row.pool = execution.pool

/-! Rows under the operations of the database. -/

section
variable [Crates]

theorem upsertExecution_get (rows : Keyed Row.id) (execution : Execution) :
    ∃ row, row.Records execution ∧ ∀ id, (upsertExecution rows execution).get id =
      if id = execution.id then some row else rows.get id := by
  unfold upsertExecution
  split <;> exact ⟨_, ⟨rfl, rfl, rfl⟩, fun id => Keyed.get_insert _ _ id⟩

/-- After several upserts a row records what was last written for it. -/
theorem upsertExecutions_get (executions : List Execution) (rows : Keyed Row.id) (id : Uuid) :
    (executions.filter (fun execution => execution.id = id) = [] ∧
      (executions.foldl upsertExecution rows).get id = rows.get id) ∨
    ∃ execution row, (executions.filter (fun execution => execution.id = id)).getLast? =
      some execution ∧
      row.Records execution ∧ (executions.foldl upsertExecution rows).get id = some row := by
  induction executions using List.reverseRecOn with
  | nil => exact .inl ⟨rfl, rfl⟩
  | append_singleton executions last ih =>
    obtain ⟨row, records, written⟩ := upsertExecution_get
      (executions.foldl upsertExecution rows) last
    rw [List.foldl_append, List.foldl_cons, List.foldl_nil, written, List.filter_append]
    by_cases same : last.id = id
    · subst same
      exact .inr ⟨last, row, by simp, records, if_pos rfl⟩
    · rw [if_neg (Ne.symm same)]
      simpa [same] using ih

end

theorem evict_get (limit used : Nat) (candidates : List Row) (rows : Keyed Row.id) (id : Uuid) :
    (evict limit rows used candidates).get id = rows.get id ∨
      (evict limit rows used candidates).get id = none ∧ ∃ row ∈ candidates, row.id = id := by
  induction candidates generalizing rows used with
  | nil => exact .inl rfl
  | cons candidate rest ih =>
    have erased : (rows.erase candidate.id).get id = rows.get id ∨
        (rows.erase candidate.id).get id = none ∧ candidate.id = id := by
      rw [Keyed.get_erase]
      split_ifs with same
      · exact .inr ⟨rfl, same.symm⟩
      · exact .inl rfl
    unfold evict
    dsimp only
    split_ifs
    · exact erased.imp_right (fun gone => ⟨gone.1, candidate, List.mem_cons_self, gone.2⟩)
    · rcases ih _ (rows.erase candidate.id) with same | ⟨gone, row, member, own⟩
      · rw [same]
        exact erased.imp_right (fun gone => ⟨gone.1, candidate, List.mem_cons_self, gone.2⟩)
      · exact .inr ⟨gone, row, List.mem_cons_of_mem _ member, own⟩

/-- Pruning deletes rows that are over and leaves the others alone. -/
theorem prune_get {db next : Database} {now : Nat} {protectedId : Option Uuid}
    (done : prune db now protectedId = some next) (id : Uuid) :
    next.rows.get id = db.rows.get id ∨
      next.rows.get id = none ∧ ∃ row, db.rows.get id = some row ∧ row.status.terminal = true := by
  have filtered (keep : Row → Bool) (spares : ∀ row, row.status.terminal = false →
    keep row = true) :
      (db.rows.filter keep).get id = db.rows.get id ∨ (db.rows.filter keep).get id = none ∧
        ∃ row, db.rows.get id = some row ∧ row.status.terminal = true := by
    rw [Keyed.get_filter]
    cases found : db.rows.get id with
    | none => exact .inl rfl
    | some row =>
      cases kept : keep row with
      | true => exact .inl (by simp [kept])
      | false =>
        refine .inr ⟨by simp [kept], row, rfl, ?_⟩
        by_contra active
        rw [spares row (by simpa using active)] at kept
        cases kept
  unfold prune at done
  dsimp only at done
  obtain ⟨used, -, done⟩ := Option.bind_eq_some_iff.mp done
  have left := filtered (fun row => !(row.status.terminal &&
    row.finishedAtMs.any (fun finished => decide (finished ≤ now - db.retentionMs))))
    (fun row active => by simp [active])
  split_ifs at done <;> obtain rfl := Option.some.inj done
  · exact left
  · rcases evict_get db.maxStorageBytes used _ _ id with same | ⟨gone, row, member, own⟩
    · exact same.symm ▸ left
    · obtain ⟨there, ended⟩ := List.mem_filter.mp ((List.mem_insertionSort _).mp member)
      have present := (Keyed.mem_values_iff _ _).mp there
      rw [Keyed.get_filter, own] at present
      exact .inr ⟨gone, row, (Option.filter_eq_some_iff.mp present).1,
        (Bool.and_eq_true_iff.mp ended).1⟩

/-- The row is as it was, or it was over and is gone. -/
def Kept (before after : Keyed Row.id) (id : Uuid) : Prop :=
  after.get id = before.get id ∨
    after.get id = none ∧ ∃ row, before.get id = some row ∧ row.status.terminal = true

theorem Kept.of_eq {before after more : Keyed Row.id} {id : Uuid} (kept : Kept after more id)
    (same : after.get id = before.get id) : Kept before more id := by
  unfold Kept at kept
  rwa [same] at kept

theorem Kept.waits {before after : Keyed Row.id} {id : Uuid} (kept : Kept before after id)
    (waits : ∀ row, before.get id = some row → row.status.terminal = false) :
    ∀ row, after.get id = some row → row.status.terminal = false := by
  intro row there
  rcases kept with same | ⟨gone, -⟩
  · exact waits row (same ▸ there)
  · rw [gone] at there
    cases there

theorem Kept.none {before after : Keyed Row.id} {id : Uuid} (kept : Kept before after id)
    (none : before.get id = none) : after.get id = Option.none := by
  rcases kept with same | ⟨gone, -⟩
  · exact same.trans none
  · exact gone

section
variable [Crates]

/-- The transaction of an insertion writes its own row and prunes. -/
theorem insertExecution_get {db next : Database} {execution : Execution} {secrets : Bytes}
    {accepted : Bool} (done : db.insertExecution execution secrets = some (next, accepted)) :
    (∀ id, id ≠ execution.id → Kept db.rows next.rows id) ∧
      (accepted = false → next.rows.get execution.id = none) ∧
      (accepted = true → execution.status.terminal = false →
        ∃ row, next.rows.get execution.id = some row ∧ row.Records execution) := by
  simp only [Database.insertExecution, Option.bind_eq_some_iff, Option.map_eq_some_iff] at done
  obtain ⟨pruned, kept, used, -, outcome⟩ := done
  obtain ⟨row, records, written⟩ := upsertExecution_get db.rows execution
  have left (id : Uuid) := prune_get kept id
  dsimp only at left
  have others (id : Uuid) (other : id ≠ execution.id) : Kept db.rows pruned.rows id := by
    refine Kept.of_eq (left id) ?_
    split_ifs
    · rw [written, if_neg other]
    · rw [Keyed.get_adjust_ne _ _ _ other, written, if_neg other]
  have own (active : execution.status.terminal = false) :
      ∃ row, pruned.rows.get execution.id = some row ∧ row.Records execution := by
    have lasts {now : Row} (there : pruned.rows.get execution.id = some now ∨
        pruned.rows.get execution.id = none ∧
          now.status.terminal = true) (records : now.Records execution) :
        ∃ row, pruned.rows.get execution.id = some row ∧ row.Records execution := by
      rcases there with there | ⟨-, ended⟩
      · exact ⟨now, there, records⟩
      · rw [records.status, active] at ended
        cases ended
    have there := left execution.id
    split_ifs at there
    · rw [written, if_pos rfl] at there
      exact lasts (there.imp_right (fun gone => ⟨gone.1, by simpa using gone.2⟩)) records
    · rw [Keyed.get_adjust_self, written, if_pos rfl] at there
      exact lasts (there.imp_right (fun gone => ⟨gone.1, by simpa using gone.2⟩))
        ⟨records.status, records.node, records.pool⟩
  split_ifs at outcome <;> cases outcome
  · refine ⟨fun id other => ?_, fun _ => Keyed.get_erase_self _ _, fun accepted => by
      cases accepted⟩
    have same : (pruned.deleteExecution execution.id).rows.get id = pruned.rows.get id :=
      Keyed.get_erase_ne _ other
    exact (others id other).imp same.trans (fun gone => ⟨same.trans gone.1, gone.2⟩)
  · exact ⟨others, by simp, fun _ => own⟩

theorem completeExecution_get {db next : Database} {execution : Execution}
    (done : db.completeExecution execution = some next) {id : Uuid} (other : id ≠ execution.id) :
    Kept db.rows next.rows id := by
  simp only [Database.completeExecution, Option.bind_eq_some_iff, Option.map_eq_some_iff] at done
  obtain ⟨pruned, kept, used, -, rfl⟩ := done
  obtain ⟨row, -, written⟩ := upsertExecution_get db.rows execution
  have left : Kept db.rows pruned.rows id := by
    refine Kept.of_eq (prune_get kept id) ?_
    rw [Keyed.get_adjust_ne _ _ _ other, written, if_neg other]
  split_ifs
  · obtain ⟨row, -, full⟩ := upsertExecution_get pruned.rows (Database.storageFull execution)
    have same : (upsertExecution pruned.rows (Database.storageFull execution)).get id =
        pruned.rows.get id := by
      rw [full, if_neg (show id ≠ (Database.storageFull execution).id from other)]
    exact left.imp same.trans (fun gone => ⟨same.trans gone.1, gone.2⟩)
  · exact left

namespace System

/-- A call leaves the rows alone that it neither writes nor deletes, unless it prunes. -/
theorem runOp_same {s next : System} {rest ops : List Op} {before after : Reply} {op : Op}
    (plain : op.prunes = false) (done : s.runOp rest before op =
      some (next, ops, after)) {id : Uuid}
    (other : op.writes.filter (fun execution => execution.id = id) = []) :
    next.database.rows.get id = s.database.rows.get id ∨
      op = .deleteExecution id ∧ next.database.rows.get id = none := by
  cases op with
  | insertExecution | completeExecution => cases plain
  | deliver node execution pool =>
    simp only [runOp, Option.map_eq_some_iff, Prod.mk.injEq] at done
    obtain ⟨_, _, rfl, -⟩ := done
    exact .inl rfl
  | saveExecution execution =>
    simp only [runOp, Option.some.injEq, Prod.mk.injEq] at done
    obtain ⟨rfl, -⟩ := done
    obtain ⟨row, -, written⟩ := upsertExecution_get s.database.rows execution
    exact .inl ((written id).trans (if_neg (fun same => by
      simp [Op.writes, Op.copies, same] at other)))
  | saveExecutions executions =>
    simp only [runOp, Option.some.injEq, Prod.mk.injEq] at done
    obtain ⟨rfl, -⟩ := done
    rcases upsertExecutions_get executions s.database.rows id with ⟨-, same⟩ | ⟨_, _, last, -, -⟩
    · exact .inl same
    · rw [show executions.filter _ = [] from other] at last
      cases last
  | deleteExecution gone =>
    simp only [runOp, Option.some.injEq, Prod.mk.injEq] at done
    obtain ⟨rfl, -⟩ := done
    by_cases same : id = gone
    · subst same
      exact .inr ⟨rfl, Keyed.get_erase_self _ _⟩
    · exact .inl (Keyed.get_erase_ne _ same)
  | _ =>
    simp only [runOp, Option.some.injEq, Prod.mk.injEq] at done
    obtain ⟨rfl, -⟩ := done
    exact .inl rfl

theorem runOp_kept {s next : System} {rest ops : List Op} {before after : Reply} {op : Op}
    (plain : op.inserts = false) (done : s.runOp rest before op =
      some (next, ops, after)) {id : Uuid}
    (other : op.writes.filter (fun execution => execution.id = id) = []) :
    Kept s.database.rows next.database.rows id ∨
      op = .deleteExecution id ∧ next.database.rows.get id = none := by
  cases prunes : op.prunes with
  | false => exact (runOp_same prunes done other).imp_left .inl
  | true =>
    cases op with
    | completeExecution execution =>
      simp only [runOp, Option.map_eq_some_iff, Prod.mk.injEq] at done
      obtain ⟨database, stored, rfl, -⟩ := done
      exact .inl (completeExecution_get stored (fun same => by simp [Op.writes, same] at other))
    | insertExecution => cases plain
    | _ => cases prunes

/-- A call that saves copies leaves the last of them in the row. -/
theorem runOp_records {s next : System} {rest ops : List Op} {before after : Reply} {op : Op}
    (done : s.runOp rest before op = some (next, ops, after)) {id : Uuid} {execution : Execution}
    (last : (op.copies.filter (fun execution => execution.id = id)).getLast? = some execution) :
    ∃ row, next.database.rows.get id = some row ∧ row.Records execution := by
  have saved (copies : List Execution)
      (last : (copies.filter (fun execution => execution.id = id)).getLast? = some execution) :
      ∃ row, (copies.foldl upsertExecution s.database.rows).get id = some row ∧
        row.Records execution := by
    rcases upsertExecutions_get copies s.database.rows id with ⟨nothing, -⟩ | ⟨_, row, same,
      records, there⟩
    · rw [nothing] at last
      cases last
    · obtain rfl := Option.some.inj (same.symm.trans last)
      exact ⟨row, there, records⟩
  cases op with
  | saveExecution copy =>
    simp only [runOp, Option.some.injEq, Prod.mk.injEq] at done
    obtain ⟨rfl, -⟩ := done
    exact saved [copy] last
  | saveExecutions copies =>
    simp only [runOp, Option.some.injEq, Prod.mk.injEq] at done
    obtain ⟨rfl, -⟩ := done
    exact saved copies last
  | _ => cases last

end System
end

/-! What a section leaves to be written. -/

namespace Cluster

/-- The scheduler collects a copy of each execution that it changes. -/
theorem scheduleAll_changed (entries : List (Nat × Uuid)) (c : Cluster) (id : Uuid) :
    (c.scheduleAll entries).1.executions.get id = c.executions.get id ∨
      (c.executions.get id).isSome = true ∧ ∃ copy ∈ (c.scheduleAll entries).2, copy.id = id := by
  induction entries generalizing c with
  | nil => exact .inl rfl
  | cons entry rest ih =>
    unfold scheduleAll
    cases scheduled : c.schedule entry.2 with
    | none => exact ih c
    | some next =>
      obtain ⟨execution, pool, node, own, choice, rfl⟩ := schedule_cases scheduled
      by_cases placed : id = execution.id
      · subst placed
        refine .inr ⟨by
          rw [choice.present]; rfl, { execution with node := some node.id, status := .assigned },
          List.mem_append_left _ (Option.mem_toList.mpr ?_), rfl⟩
        rw [← own, place_get, if_pos rfl, choice.present]
        rfl
      · have same : (c.place execution pool node.id).executions.get id = c.executions.get id := by
          rw [place_get, if_neg placed]
        rcases ih (c.place execution pool node.id) with kept | ⟨present, copy, member, copied⟩
        · exact .inl (kept.trans same)
        · exact .inr ⟨same ▸ present, copy, List.mem_append_right _ member, copied⟩

theorem scheduleQueued_changed (c : Cluster) (id : Uuid) :
    c.scheduleQueued.1.executions.get id = c.executions.get id ∨
      (c.executions.get id).isSome = true ∧ ∃ copy ∈ c.scheduleQueued.2, copy.id = id :=
  scheduleAll_changed c.queue c id

end Cluster

/-- What the section leaves to be written for the execution. -/
def Section.writesFor (result : Section) (id : Uuid) : List Execution :=
  (result.ops.flatMap Op.writes).filter (fun execution => execution.id = id)

/-- What a section leaves to be written for one execution: nothing if it left it alone, copies of
what it made of it, or the completion with which it took it out of the cluster. -/
inductive Written (c : Cluster) (result : Section) (id : Uuid) : Prop where
  | nothing (none : result.writesFor id = [])
      (same : result.cluster.executions.get id = c.executions.get id)
  | copies (before after : Execution) (present : c.executions.get id = some before)
      (holds : result.cluster.executions.get id = some after)
      (last : (result.writesFor id).getLast? = some after)
      (all : ∀ copy ∈ result.writesFor id, copy = after)
  | completion (before after : Execution) (present : c.executions.get id = some before)
      (gone : result.cluster.executions.get id = none) (ended : after.status.terminal = true)
      (only : result.writesFor id = [after])

theorem Written.of_copies {c : Cluster} {result : Section} {id : Uuid}
    (copies : ∀ copy ∈ result.ops.flatMap Op.writes, copy.id = id →
      result.cluster.executions.get copy.id = some copy)
    (changed : result.cluster.executions.get id = c.executions.get id ∨
      (c.executions.get id).isSome = true ∧ ∃ copy ∈ result.ops.flatMap Op.writes, copy.id = id) :
    Written c result id := by
  have all (copy : Execution) (member : copy ∈ result.writesFor id) :
      result.cluster.executions.get id = some copy := by
    obtain ⟨member, own⟩ := List.mem_filter.mp member
    have own : copy.id = id := by simpa using own
    exact own ▸ copies copy member own
  cases left : result.writesFor id with
  | nil =>
    refine .nothing left (changed.resolve_right ?_)
    rintro ⟨-, copy, member, own⟩
    have inside : copy ∈ result.writesFor id := List.mem_filter.mpr ⟨member, by simpa using own⟩
    rw [left] at inside
    cases inside
  | cons copy rest =>
    have holds := all copy (left ▸ List.mem_cons_self)
    have present : (c.executions.get id).isSome = true := by
      rcases changed with same | ⟨present, -⟩
      · rw [← same, holds]
        rfl
      · exact present
    obtain ⟨before, present⟩ := Option.isSome_iff_exists.mp present
    have one (other : Execution) (member : other ∈ result.writesFor id) :
        other = copy := Option.some.inj ((all other member).symm.trans holds)
    refine .copies before copy present holds ?_ one
    rw [List.getLast?_eq_some_getLast (left ▸ List.cons_ne_nil _ _)]
    exact congrArg some (one _ (List.getLast_mem _))

theorem mem_writes {ops : List Op} {execution : Execution}
    (member : execution ∈ ops.flatMap Op.writes) :
    (∃ op ∈ ops, execution ∈ op.copies) ∨ Op.completeExecution execution ∈ ops := by
  obtain ⟨op, inside, writes⟩ := List.mem_flatMap.mp member
  cases op with
  | completeExecution completed =>
    obtain rfl := List.mem_singleton.mp writes
    exact .inr inside
  | _ => exact .inl ⟨_, inside, writes⟩

theorem cleaned_get_ne (c : Cluster) {execution : Execution} (keepIdle : Bool) {id : Uuid}
    (other : id ≠ execution.id) :
    (cleaned c execution keepIdle).executions.get id = c.executions.get id := by
  have finished : (c.finish execution.id keepIdle).executions.get id = c.executions.get id := by
    simp [Cluster.finish, Cluster.forget, Keyed.get_erase_ne _ other]
  unfold cleaned
  split_ifs
  · rw [Cluster.removePool_executions]
    exact finished
  · exact finished

/-- The section of an environment writes what it has moved to the new pool and what it has placed. -/
theorem writes_finishEnvironment (environment : Environment) (moved : List Uuid) (d : Cluster) :
    (finishEnvironment environment moved d).ops.flatMap Op.writes =
      moved.filterMap (fun id => ({ d with
        environments := d.environments.insert environment } :
          Cluster).scheduleQueued.1.executions.get id) ++
        ({ d with environments := d.environments.insert environment } :
          Cluster).scheduleQueued.2 := by
  simp [finishEnvironment, Op.writes, Op.copies]

/-- A section leaves what it has changed to be written. A panic changes executions as well, but it
takes one that is on a node without its pool. -/
theorem Ending.written [Crates] {c : Cluster} {commit : Commit} {result : Section} {id : Uuid}
    (ending : Ending c commit result) (fits : commit.choiceFits c = true)
    (calm : Seated c ∨ c.executions.get id = none) : Written c result id := by
  have saved (none : ∀ execution, Op.completeExecution execution ∉ result.ops) :
      ∀ copy ∈ result.ops.flatMap Op.writes, copy.id = id →
        result.cluster.executions.get copy.id = some copy := by
    intro copy member _
    rcases mem_writes member with ⟨op, inside, writes⟩ | completes
    · exact ending.copies inside writes
    · exact absurd completes (none copy)
  have collected {copies : List Execution} (d : Cluster)
      (same : d.executions.get id = c.executions.get id)
      (listed : ∀ copy ∈ d.scheduleQueued.2, copy ∈ copies) :
      d.scheduleQueued.1.executions.get id = c.executions.get id ∨
        (c.executions.get id).isSome = true ∧ ∃ copy ∈ copies, copy.id = id := by
    rw [← same]
    rcases d.scheduleQueued_changed id with stays | ⟨present, copy, member, own⟩
    · exact .inl stays
    · exact .inr ⟨present, copy, listed copy member, own⟩
  cases ending with
  | saved same ops reply =>
    exact .nothing (by simp [Section.writesFor, ops, Op.writes, Op.copies]) (by rw [same])
  | scheduled d same reply other =>
    refine .of_copies (saved (by simp [scheduleAndSave])) ?_
    refine collected d (by rw [same]) (fun copy member => ?_)
    simpa [scheduleAndSave, Op.writes, Op.copies] using member
  | unchanged reply other => exact .nothing rfl rfl
  | restartPanicked name pool unknown running =>
    rcases calm with seated | absent
    · rw [seated.quiet unknown] at running
      cases running
    · refine .nothing rfl ?_
      change (moved name pool c).executions.get id = _
      rw [moved_get, absent]
      split_ifs <;> rfl
  | restarted name environment pool d same =>
    refine .of_copies (saved (by simp [finishEnvironment])) ?_
    have kept : ({ d with environments := d.environments.insert environment } : Cluster).executions.get id =
        (moved name pool c).executions.get id := by rw [same]
    rw [moved_get] at kept
    by_cases member : id ∈ reassignedIds pool c
    · obtain ⟨old, present, -⟩ := (mem_reassignedIds pool c id).mp member
      rw [if_pos member, present] at kept
      refine .inr ⟨by rw [present]; rfl, ?_⟩
      rcases Cluster.scheduleQueued_changed _ id with stays | ⟨-, copy, collects, own⟩
      · refine ⟨old.requeued name, ?_, Keyed.key_of_get (stays.trans kept)⟩
        rw [writes_finishEnvironment]
        exact List.mem_append_left _ (List.mem_filterMap.mpr ⟨id, member, stays.trans kept⟩)
      · refine ⟨copy, ?_, own⟩
        rw [writes_finishEnvironment]
        exact List.mem_append_right _ collects
    · rw [if_neg member] at kept
      refine collected _ kept (fun copy member => ?_)
      rw [writes_finishEnvironment]
      exact List.mem_append_right _ member
  | updated environment d same =>
    refine .of_copies (saved (by simp [finishEnvironment])) ?_
    refine collected { d with environments := d.environments.insert environment }
      (by rw [same]) (fun copy member => ?_)
    rw [writes_finishEnvironment]
    exact List.mem_append_right _ member
  | deletedEnvironment key environment present =>
    refine .nothing ?_ ?_
    · have bare (artifacts : List String) :
          (artifacts.map Op.removeArtifact).flatMap Op.writes = [] := by
        simp [List.flatMap_map, Op.writes, Op.copies]
      simp [Section.writesFor, List.flatMap_append, Op.writes, Op.copies, bare]
    · have forgotten (d : Cluster) (artifact : Option String) :
          (forgetArtifact d artifact).executions = d.executions := by cases artifact <;> rfl
      simp [forgotten, withoutEnvironment]
  | createPanicked => exact .nothing rfl rfl
  | created => exact .nothing rfl rfl
  | workPanicked node now execution present unknown =>
    rcases calm with seated | absent
    · simp only [Commit.choiceFits, present, Option.any_some, assignedTo, Bool.and_eq_true,
        decide_eq_true_eq] at fits
      obtain ⟨⟨pool, known⟩, -⟩ := seated _ execution present (by rw [fits.2]; rfl)
      rw [unknown] at known
      cases known
    · exact .nothing rfl (by simp [panicSection, Cluster.start, Keyed.get_adjust, absent])
  | worked node now execution pool present known =>
    refine .of_copies (saved (by simp)) ?_
    by_cases started : id = execution.id
    · subst started
      exact .inr
        ⟨by rw [present]; rfl, { execution with status := .running, startedAtMs := some now },
        by simp [Op.writes, Op.copies], rfl⟩
    · exact .inl (by simp [Cluster.start, Keyed.get_adjust, started])
  | completed node request now execution present placed =>
    have gone := scheduleQueued_get_none (cleaned_get c execution request.keepIdle)
    have own : (finished request now execution).id = execution.id := rfl
    by_cases completes : id = execution.id
    · subst completes
      refine .completion execution (finished request now execution) present gone
        (terminal_finalStatus request) ?_
      have others : (cleaned c execution request.keepIdle).scheduleQueued.2.filter
          (fun copy => copy.id = execution.id) = [] := by
        refine List.filter_eq_nil_iff.mpr (fun copy member => ?_)
        have holds := Cluster.scheduleQueued_copies member
        intro same
        rw [show copy.id = execution.id by simpa using same, gone] at holds
        cases holds
      simp [Section.writesFor, Op.writes, Op.copies, List.filter_append, others, own]
    · refine .of_copies (fun copy member same => ?_) ?_
      · rcases mem_writes member with ⟨op, inside, writes⟩ | completing
        · exact (Ending.completed node request now execution present placed).copies inside writes
        · simp only [List.mem_cons, reduceCtorEq, Op.completeExecution.injEq,
            List.not_mem_nil, or_false,
            false_or] at completing
          exact absurd (same.symm.trans (congrArg Execution.id completing)) completes
      · refine collected _ (cleaned_get_ne c request.keepIdle completes) (fun copy member => ?_)
        simp [Op.writes, Op.copies, member]

end Scraperack
