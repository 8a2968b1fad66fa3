import Scraperack.Eviction

/-! The storage limit. An insertion keeps it; a completion does not when the row that says that the storage
is full does not fit either. -/

namespace Scraperack

theorem space_get {rows : Keyed Row.id} {id : Uuid} {row : Row} (found : rows.get id = some row) :
    space rows.values = row.sizeBytes + space (rows.erase id).values := by
  rw [space_perm (Keyed.perm_erase found), space_cons]

theorem space_same {rows more : Keyed Row.id} (same : ∀ id, rows.get id = more.get id) :
    space rows.values = space more.values :=
  space_perm (Keyed.perm_of_get same)

/-- Sizes are not negative. They are the lengths of what the rows hold. -/
def Sized (rows : Keyed Row.id) : Prop := ∀ id row, rows.get id = some row → 0 ≤ row.sizeBytes

/-- Fewer rows take no more space. -/
theorem Sized.space_le {rows more : Keyed Row.id} (sized : Sized more)
    (part : ∀ id row, rows.get id = some row → more.get id = some row) :
    space rows.values ≤ space more.values := by
  have distinct : rows.values.Nodup := List.Nodup.of_map _ rows.nodup
  have inside : rows.values ⊆ more.values := fun row member =>
    (Keyed.mem_values_iff _ _).mpr (part _ _ ((Keyed.mem_values_iff _ _).mp member))
  obtain ⟨same, perm, sub⟩ := List.subperm_of_subset distinct inside
  rw [← space_perm perm]
  refine (sub.map Row.sizeBytes).sum_le_sum (fun size member => ?_)
  obtain ⟨row, here, rfl⟩ := List.mem_map.mp member
  exact sized _ row ((Keyed.mem_values_iff _ _).mp here)

/-- A table is the rows that are taken out and those that are left. -/
theorem space_without {rows left : Keyed Row.id} {gone : List Row}
    (there : ∀ row ∈ gone, rows.get row.id = some row) (distinct : (gone.map Row.id).Nodup)
    (without : ∀ id, left.get id = if id ∈ gone.map Row.id then none else rows.get id) :
    space rows.values = space gone + space left.values := by
  induction gone generalizing rows with
  | nil =>
    have same : ∀ id, rows.get id = left.get id := fun id => by simp [without]
    rw [space_same same]
    simp [space]
  | cons row more ih =>
    obtain ⟨alone, distinct⟩ := List.nodup_cons.mp distinct
    have others : ∀ other ∈ more, (rows.erase row.id).get other.id = some other := by
      intro other member
      have differs : other.id ≠ row.id := fun same =>
        alone (List.mem_map.mpr ⟨other, member, same⟩)
      rw [Keyed.get_erase_ne _ differs]
      exact there other (List.mem_cons_of_mem _ member)
    have parted := ih others distinct (fun id => by
      rw [without, Keyed.get_erase, List.map_cons]
      by_cases here : id = row.id <;> by_cases later : id ∈ more.map Row.id <;>
        simp [here, later])
    rw [space_get (there row List.mem_cons_self), parted, space_cons]
    omega

theorem Sized.part {rows more : Keyed Row.id} (sized : Sized more)
    (part : ∀ id row, rows.get id = some row → more.get id = some row) : Sized rows :=
  fun id row present => sized id row (part id row present)

theorem Sized.storageUsed {rows : Keyed Row.id} (sized : Sized rows) :
    storageUsed rows = some (space rows.values).toNat := by
  refine if_pos (space_nonneg fun row member => ?_)
  exact sized _ row ((Keyed.mem_values_iff _ _).mp member)

namespace Database

/-- `storage_used` can be read and is at most `max_storage_bytes`. -/
def WithinLimit (db : Database) : Prop :=
  ∃ used, storageUsed db.rows = some used ∧ used ≤ db.maxStorageBytes

theorem WithinLimit.space_le {db : Database} (within : db.WithinLimit) :
    space db.rows.values ≤ db.maxStorageBytes := by
  obtain ⟨used, held, fits⟩ := within
  have total := storageUsed_eq_some held
  omega

theorem withinLimit_of_space {db : Database} (sized : Sized db.rows)
    (fits : space db.rows.values ≤ db.maxStorageBytes) : db.WithinLimit :=
  ⟨_, sized.storageUsed, by omega⟩

theorem Pruned.part {db next : Database} {nowMs : Nat} {protectedId : Option Uuid}
    {gone rest : List Row} (pruned : db.Pruned nowMs protectedId next gone rest) (id : Uuid)
    (row : Row) (present : next.rows.get id = some row) : db.rows.get id = some row := by
  rw [pruned.rows] at present
  exact (Option.filter_eq_some_iff.mp present).1

theorem Pruned.space {db next : Database} {nowMs : Nat} {protectedId : Option Uuid}
    {gone rest : List Row} (pruned : db.Pruned nowMs protectedId next gone rest) :
    space (db.unexpired nowMs).values = space gone + space next.rows.values := by
  have distinct := pruned.order.distinct
  rw [List.map_append] at distinct
  refine space_without (fun row member => ?_) (List.nodup_append.mp distinct).1 (fun id => ?_)
  · exact (Keyed.mem_values_iff _ _).mp
      ((pruned.order.mem row).mp (List.mem_append_left _ member)).1
  · rw [pruned.rows, get_unexpired_without]

/-- What is evicted was over and not protected. -/
theorem Pruned.evicted {db next : Database} {nowMs : Nat} {protectedId : Option Uuid}
    {gone rest : List Row} (pruned : db.Pruned nowMs protectedId next gone rest) {row : Row}
    (present : db.rows.get row.id = some row) (evicted : row.id ∈ gone.map Row.id) :
    row.status.terminal = true ∧ some row.id ≠ protectedId := by
  obtain ⟨other, member, same⟩ := List.mem_map.mp evicted
  obtain ⟨stays, ended⟩ := (pruned.order.mem other).mp (List.mem_append_left _ member)
  have stored := (Keyed.mem_values_iff _ _).mp (List.mem_filter.mp stays).1
  rw [same, present] at stored
  exact Option.some.inj stored ▸ ended

/-- When pruning leaves too much, it leaves no row that it could evict. -/
theorem Pruned.exhausted {db next : Database} {nowMs : Nat} {protectedId : Option Uuid}
    {gone rest : List Row} (pruned : db.Pruned nowMs protectedId next gone rest)
    (exceeds : (db.maxStorageBytes : Int) < Scraperack.space next.rows.values) {id : Uuid}
    (other : some id ≠ protectedId) :
    next.rows.get id = (db.rows.get id).filter (fun row => !row.status.terminal) := by
  have total := pruned.space
  have all : rest = [] := pruned.shortest.suffices_or_all.resolve_left (by omega)
  rw [pruned.rows]
  cases present : db.rows.get id with
  | none => rfl
  | some row =>
    obtain rfl := Keyed.key_of_get present
    rw [Option.filter_some, Option.filter_some]
    congr 1
    cases ended : row.status.terminal with
    | false =>
      have kept : row.id ∉ gone.map Row.id := fun evicted => by
        rw [(pruned.evicted present evicted).1] at ended
        cases ended
      simp [expired, ended, kept]
    | true =>
      cases lasts : db.expired nowMs row with
      | true => rfl
      | false =>
        have candidate : row ∈ gone ++ rest := (pruned.order.mem row).mpr
          ⟨List.mem_filter.mpr ⟨Keyed.mem_of_get present, by simp [lasts]⟩, ended, other⟩
        rw [all, List.append_nil] at candidate
        simp [List.mem_map_of_mem candidate]

/-- With sizes that are not negative, pruning succeeds. -/
theorem prune_succeeds {db : Database} (sized : Sized db.rows) (nowMs : Nat)
    (protectedId : Option Uuid) : ∃ next, prune db nowMs protectedId = some next := by
  refine Option.ne_none_iff_exists'.mp (fun fails => ?_)
  have left : Sized (db.unexpired nowMs) := sized.part (fun id row present => by
    rw [unexpired, Keyed.get_filter] at present
    exact (Option.filter_eq_some_iff.mp present).1)
  rcases (db.prune_eq_none_iff nowMs protectedId).mp fails with negative |
    ⟨-, row, member, -, -, negative⟩
  · have total : 0 ≤ space (db.unexpired nowMs).values :=
      space_nonneg fun row member => left _ row ((Keyed.mem_values_iff _ _).mp member)
    omega
  · have size := left _ row ((Keyed.mem_values_iff _ _).mp member)
    omega

end Database

variable [Crates]

/-- The row that the first statements of a transaction write for the execution. -/
structure RowWritten (before after : Keyed Row.id) (execution : Execution) (row : Row) : Prop where
  id : row.id = execution.id
  status : row.status = execution.status
  finished : row.finishedAtMs = execution.finishedAtMs
  size : Sized before → executionSize execution ≤ row.sizeBytes
  get : ∀ k, after.get k = if k = execution.id then some row else before.get k

omit [Crates] in
theorem secretsLength_nonneg (row : Row) : 0 ≤ secretsLength row := Int.natCast_nonneg _

theorem upsertExecution_written (rows : Keyed Row.id) (execution : Execution) :
    ∃ row, RowWritten rows (upsertExecution rows execution) execution row ∧
      row.sizeBytes = executionSize execution + secretsLength row ∧
      row.secrets = (rows.get execution.id).bind Row.secrets := by
  unfold upsertExecution
  cases rows.get execution.id with
  | none =>
    refine ⟨_, ⟨rfl, rfl, rfl, fun _ => le_rfl, fun k => Keyed.get_insert _ _ k⟩, ?_, rfl⟩
    simp [rowOf, secretsLength]
  | some old =>
    refine ⟨_, ⟨rfl, rfl, rfl, fun _ => ?_, fun k => Keyed.get_insert _ _ k⟩, rfl, rfl⟩
    have kept := secretsLength_nonneg old
    simp only [rowOf]
    omega

theorem RowWritten.sized {before after : Keyed Row.id} {execution : Execution} {row : Row}
    (written : RowWritten before after execution row) (sized : Sized before) : Sized after := by
  intro k other present
  rw [written.get] at present
  split_ifs at present
  · have size := written.size sized
    obtain rfl := Option.some.inj present
    omega
  · exact sized k other present

namespace Database

/-- The bytes of the other executions that are not over. -/
def activeBytes (db : Database) (id : Uuid) : Int :=
  space ((db.rows.erase id).filter (fun row => !row.status.terminal)).values

/-- The retention period of a completed execution is over when it completes. -/
def overAtOnce (db : Database) (execution : Execution) : Bool :=
  execution.status.terminal &&
    execution.finishedAtMs.any (fun finished => decide (finished ≤ finished - db.retentionMs))

/-- The completed execution leaves the limit kept: its retention period is over at once, or there is room
for it beside the others that are not over, or else for what is left of it when the storage is full. -/
def HasRoom (db : Database) (execution : Execution) : Prop :=
  db.overAtOnce execution = true ∨
  db.activeBytes execution.id + executionSize execution ≤ db.maxStorageBytes ∨
  db.activeBytes execution.id + executionSize (storageFull execution) ≤ db.maxStorageBytes

/-- `complete_execution` up to its pruning. -/
theorem completeExecution_eq (db : Database) (execution : Execution) :
    ∃ (rows : Keyed Row.id) (row : Row), RowWritten db.rows rows execution row ∧
      row.sizeBytes = executionSize execution ∧ row.secrets = none ∧
      db.completeExecution execution =
        (prune { db with rows := rows } (execution.finishedAtMs.getD execution.createdAtMs)
          (some execution.id)).bind (fun db => (storageUsed db.rows).map (fun used =>
            if db.maxStorageBytes < used then
              { db with rows := upsertExecution db.rows (storageFull execution) }
            else db)) := by
  obtain ⟨row, written, size, -⟩ := upsertExecution_written db.rows execution
  refine ⟨_, { row with sizeBytes := row.sizeBytes - secretsLength row, secrets := none },
    ⟨written.id, written.status, written.finished, fun _ => ?_, fun k => ?_⟩, ?_, rfl, rfl⟩
  · dsimp only
    omega
  · simp only [Keyed.get_adjust, written.get]
    split_ifs <;> simp_all
  · dsimp only
    omega

section Completion
variable {db pruned : Database} {execution : Execution} {rows : Keyed Row.id} {row : Row}
  {gone rest : List Row}

theorem expired_written (written : RowWritten db.rows rows execution row) :
    expired { db with rows := rows } (execution.finishedAtMs.getD execution.createdAtMs) row =
      db.overAtOnce execution := by
  unfold Database.expired overAtOnce
  rw [written.status, written.finished]
  cases execution.finishedAtMs <;> rfl

/-- The completed row is not evicted, but it may be expired. -/
theorem Pruned.own (written : RowWritten db.rows rows execution row)
    (left : Pruned { db with rows := rows } (execution.finishedAtMs.getD execution.createdAtMs)
      (some execution.id) pruned gone rest) :
    pruned.rows.get execution.id = if db.overAtOnce execution = true then none else some row := by
  have present : rows.get execution.id = some row := by rw [written.get, if_pos rfl]
  have kept : row.id ∉ gone.map Row.id := fun evicted =>
    (left.evicted (written.id ▸ present) evicted).2 (congrArg some written.id)
  rw [left.rows, present, Option.filter_some, expired_written written, decide_eq_true kept, Bool.and_true]
  cases db.overAtOnce execution <;> rfl

theorem Pruned.others (written : RowWritten db.rows rows execution row)
    (left : Pruned { db with rows := rows } (execution.finishedAtMs.getD execution.createdAtMs)
      (some execution.id) pruned gone rest) (id : Uuid) (other : Row)
    (active : ((db.rows.erase execution.id).filter (fun row => !row.status.terminal)).get id =
      some other) : (pruned.rows.erase execution.id).get id = some other := by
  rw [Keyed.get_filter, Keyed.get_erase] at active
  rw [Keyed.get_erase]
  split_ifs at active ⊢ with same
  · cases active
  · obtain ⟨present, lasts⟩ := Option.filter_eq_some_iff.mp active
    have stored : rows.get id = some other := by rw [written.get, if_neg same, present]
    obtain rfl := Keyed.key_of_get present
    have lasts : other.status.terminal = false := by simpa using lasts
    have kept : other.id ∉ gone.map Row.id := fun evicted => by
      rw [(left.evicted stored evicted).1] at lasts
      cases lasts
    rw [left.rows, stored, Option.filter_some, Database.expired, lasts, decide_eq_true kept]
    rfl

end Completion

/-- A transaction that deletes the new row again leaves no more than there was. -/
theorem insertExecution_within {db next : Database} {execution : Execution} {secrets : Bytes}
    {accepted : Bool} (sized : Sized db.rows) (within : db.WithinLimit)
    (done : db.insertExecution execution secrets = some (next, accepted)) : next.WithinLimit := by
  simp only [insertExecution, Option.bind_eq_some_iff, Option.map_eq_some_iff] at done
  obtain ⟨pruned, kept, used, held, outcome⟩ := done
  obtain ⟨gone, rest, left⟩ := prune_spec kept
  obtain ⟨row, written, -⟩ := upsertExecution_written db.rows execution
  split_ifs at outcome with exceeds <;> cases outcome
  · have part : ∀ id row, (pruned.rows.erase execution.id).get id = some row →
        db.rows.get id = some row := by
      intro id other present
      rw [Keyed.get_erase] at present
      split_ifs at present with same
      have stored := left.part id other present
      dsimp only at stored
      split_ifs at stored
      · rwa [written.get, if_neg same] at stored
      · rwa [Keyed.get_adjust_ne _ _ _ same, written.get, if_neg same] at stored
    have settings : pruned.maxStorageBytes = db.maxStorageBytes := by rw [left.settings]
    refine withinLimit_of_space (sized.part part) ?_
    have fewer := sized.space_le part
    have fits := within.space_le
    change space (pruned.rows.erase execution.id).values ≤ (pruned.maxStorageBytes : Int)
    omega
  · exact ⟨used, held, by omega⟩

/-- A completion ends within the limit exactly when there is room. -/
theorem completeExecution_within {db : Database} {execution : Execution} (sized : Sized db.rows)
    (within : db.WithinLimit) :
    (∀ next, db.completeExecution execution = some next → next.WithinLimit) ↔
      db.HasRoom execution := by
  obtain ⟨rows, row, written, size, secrets, eq⟩ := completeExecution_eq db execution
  have stored : Sized ({ db with rows := rows } : Database).rows := written.sized sized
  obtain ⟨pruned, kept⟩ := prune_succeeds stored
    (execution.finishedAtMs.getD execution.createdAtMs) (some execution.id)
  obtain ⟨gone, rest, left⟩ := prune_spec kept
  have settings : pruned.maxStorageBytes = db.maxStorageBytes := by rw [left.settings]
  have remaining : Sized pruned.rows := stored.part left.part
  have own := left.own written
  have total : space pruned.rows.values =
      (if db.overAtOnce execution = true then 0 else (executionSize execution : Int)) +
        space (pruned.rows.erase execution.id).values := by
    split_ifs at own ⊢ with ended
    · rw [Keyed.erase_absent own, zero_add]
    · rw [space_get own, size]
  have fewer := within.space_le
  have part : ∀ id other, (pruned.rows.erase execution.id).get id = some other →
      db.rows.get id = some other := by
    intro id other present
    rw [Keyed.get_erase] at present
    split_ifs at present with same
    have stored := left.part id other present
    rwa [show rows.get id = _ from written.get id, if_neg same] at stored
  have below := sized.space_le part
  have above : db.activeBytes execution.id ≤ space (pruned.rows.erase execution.id).values :=
    (sized.part part).space_le (left.others written)
  rw [eq, kept, Option.bind_some, remaining.storageUsed, Option.map_some]
  simp only [Option.some.injEq, forall_eq']
  split_ifs with exceeds
  · -- The row is replaced by what is left of it.
    have lasts : ¬ db.overAtOnce execution = true := by
      intro ended
      rw [if_pos ended] at total
      omega
    rw [if_neg lasts] at total own
    have others : db.activeBytes execution.id =
        space (pruned.rows.erase execution.id).values := by
      refine space_same (fun id => ?_)
      rw [Keyed.get_filter, Keyed.get_erase, Keyed.get_erase]
      split_ifs with same
      · rfl
      · rw [left.exhausted (by dsimp only; omega) (fun own => same (Option.some.inj own))]
        exact congrArg _ ((written.get id).trans (if_neg same)).symm
    obtain ⟨full, rewritten, bytes, none_left⟩ :=
      upsertExecution_written pruned.rows (storageFull execution)
    have downgraded : space (upsertExecution pruned.rows (storageFull execution)).values =
        executionSize (storageFull execution) + db.activeBytes execution.id := by
      have there := (rewritten.get execution.id).trans (if_pos rfl)
      have rest : space ((upsertExecution pruned.rows (storageFull execution)).erase
          execution.id).values = space (pruned.rows.erase execution.id).values := by
        refine space_same (fun id => ?_)
        rw [Keyed.get_erase, Keyed.get_erase]
        split_ifs with same
        · rfl
        · exact (rewritten.get id).trans (if_neg same)
      rw [space_get there, rest, others, bytes, secretsLength, none_left,
        show (storageFull execution).id = execution.id from rfl, own, Option.bind_some, secrets]
      simp
    constructor
    · intro ends
      have fits := ends.space_le
      dsimp only at fits
      exact .inr (.inr (by omega))
    · rintro (ended | fits | fits)
      · exact absurd ended lasts
      · omega
      · refine withinLimit_of_space (rewritten.sized remaining) ?_
        dsimp only
        omega
  · -- The row fits.
    refine iff_of_true (withinLimit_of_space remaining (by omega)) ?_
    by_contra full
    simp only [HasRoom, not_or] at full
    rw [if_neg full.1] at total
    omega

/-- An insertion keeps the limit, accepted or rejected. A completion keeps it exactly when there is
room for what it leaves. -/
theorem storage_limit_kept (db : Database) (execution : Execution) (sized : Sized db.rows)
    (within : db.WithinLimit) :
    (∀ secrets next accepted, db.insertExecution execution secrets = some (next, accepted) →
      next.WithinLimit) ∧
    ((∀ next, db.completeExecution execution = some next → next.WithinLimit) ↔
      db.HasRoom execution) :=
  ⟨fun _ _ _ done => insertExecution_within sized within done,
    completeExecution_within sized within⟩

end Database

namespace Demo

/-- Nothing is stored yet, and at most 40 bytes may be. -/
def limitedDatabase : Database := { empty.database with maxStorageBytes := 40 }

/-- The outcome of the pool's new execution: an error of 44 bytes. -/
def killed : Execution :=
  { submission with
    status := .failed
    error := some "the process was killed: it ran out of memory"
    finishedAtMs := some 2000 }

end Demo

namespace Database

omit [Crates] in
/-- An error of four bytes leaves the limit kept. -/
theorem storage_limit_kept_short :
    let short := { Demo.killed with error := some "oops" }
    (∃ next, @completeExecution Demo.jsonCrates Demo.limitedDatabase short = some next) ∧
      ∀ next, @completeExecution Demo.jsonCrates Demo.limitedDatabase short = some next →
        next.WithinLimit := by
  intro short
  have sized : Sized Demo.limitedDatabase.rows := fun _ _ present => by cases present
  refine ⟨?_, (@storage_limit_kept Demo.jsonCrates Demo.limitedDatabase short sized
    ⟨0, rfl, by decide⟩).2.mpr (.inr (.inl (by decide +kernel)))⟩
  exact Option.isSome_iff_exists.mp (by decide +kernel)

omit [Crates] in
/-- The six bytes of a new execution fit into 40. It fails with an error of 44 bytes, and the row that says that the
storage is full takes 42. -/
theorem storage_limit_exceeded : ¬ ∀ (db : Database) (execution : Execution),
    (∃ first, @insertExecution Demo.jsonCrates Demo.limitedDatabase first [] = some (db, true)) →
    db.WithinLimit →
    ∀ next, @completeExecution Demo.jsonCrates db execution = some next → next.WithinLimit := by
  intro claim
  have exceeds : (@insertExecution Demo.jsonCrates Demo.limitedDatabase Demo.submission []).any
      (fun inserted => inserted.2 && decide (storageUsed inserted.1.rows = some 6) &&
        decide (inserted.1.maxStorageBytes = 40) &&
        (@completeExecution Demo.jsonCrates inserted.1 Demo.killed).any (fun next =>
          decide (storageUsed next.rows = some 42) && decide (next.maxStorageBytes = 40))) =
      true := by
    decide +kernel
  obtain ⟨⟨db, accepted⟩, inserted, exceeds⟩ := (Option.any_eq_true _ _).mp exceeds
  simp only [Bool.and_eq_true, decide_eq_true_eq, Option.any_eq_true] at exceeds
  obtain ⟨⟨⟨rfl, held⟩, limit⟩, next, completed, more, same⟩ := exceeds
  obtain ⟨used, counted, fits⟩ :=
    claim db Demo.killed ⟨Demo.submission, inserted⟩ ⟨6, held, by omega⟩ next completed
  rw [more] at counted
  obtain rfl := Option.some.inj counted
  omega

end Database
end Scraperack
