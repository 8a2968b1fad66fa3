import Scraperack.Control

/-! The copies of executions that a handler takes under the lock and writes to the database later. When it takes
them they are what the cluster holds. -/

namespace Scraperack

/-- The copies that the call writes over the rows of their executions. -/
def Op.copies : Op → List Execution
  | .saveExecution execution => [execution]
  | .saveExecutions executions => executions
  | _ => []

namespace Cluster

theorem scheduleAll_get {entries : List (Nat × Uuid)} {c : Cluster} {id : Uuid}
    (other : id ∉ entries.map Prod.snd) :
    (c.scheduleAll entries).1.executions.get id = c.executions.get id := by
  induction entries generalizing c with
  | nil => rfl
  | cons entry rest ih =>
    simp only [List.map_cons, List.mem_cons, not_or] at other
    unfold scheduleAll
    cases scheduled : c.schedule entry.2 with
    | none => exact ih other.2
    | some next =>
      obtain ⟨execution, pool, node, own, -, rfl⟩ := schedule_cases scheduled
      rw [ih other.2, place_get, if_neg (own ▸ other.1)]

/-- The copies that `schedule_queued` collects are the executions as it leaves them. -/
theorem scheduleAll_copies {entries : List (Nat × Uuid)} {c : Cluster}
    (once : (entries.map Prod.snd).Nodup)
    {copy : Execution} (member : copy ∈ (c.scheduleAll entries).2) :
    (c.scheduleAll entries).1.executions.get copy.id = some copy := by
  induction entries generalizing c with
  | nil => cases member
  | cons entry rest ih =>
    obtain ⟨apart, later⟩ := List.nodup_cons.mp once
    unfold scheduleAll at member ⊢
    cases scheduled : c.schedule entry.2 with
    | none =>
      rw [scheduled] at member
      exact ih later member
    | some next =>
      rw [scheduled] at member
      rcases List.mem_append.mp member with first | others
      · have there : next.executions.get entry.2 = some copy := Option.mem_toList.mp first
        have own := Keyed.key_of_get there
        have same : copy.id = entry.2 := own
        dsimp only
        rw [same, scheduleAll_get apart]
        exact there
      · exact ih later others

theorem scheduleQueued_copies {c : Cluster} {copy : Execution}
    (member : copy ∈ c.scheduleQueued.2) :
    c.scheduleQueued.1.executions.get copy.id = some copy :=
  scheduleAll_copies c.waiting_queue.once member

end Cluster

/-- Every copy that a section leaves to be written is what the cluster then holds. -/
theorem Ending.copies [Crates] {c : Cluster} {commit : Commit} {result : Section}
    (ending : Ending c commit result)
    {op : Op} (member : op ∈ result.ops) {copy : Execution} (writes : copy ∈ op.copies) :
    result.cluster.executions.get copy.id = some copy := by
  cases ending with
  | saved same ops reply =>
    simp only [ops, List.mem_cons, List.not_mem_nil, or_false] at member
    rcases member with rfl | rfl <;> cases writes
  | scheduled d same reply other =>
    simp only [scheduleAndSave, List.mem_cons, List.not_mem_nil, or_false] at member
    rcases member with rfl | rfl | rfl
    · cases writes
    · exact Cluster.scheduleQueued_copies writes
    · cases writes
  | unchanged reply other =>
    obtain rfl := List.mem_singleton.mp member
    cases writes
  | restartPanicked | createPanicked | workPanicked => cases member
  | restarted name environment pool d same =>
    simp only [finishEnvironment, List.mem_cons, List.not_mem_nil, or_false] at member
    rcases member with rfl | rfl | rfl
    · cases writes
    · cases writes
    · rcases List.mem_append.mp writes with moved | scheduled
      · obtain ⟨id, -, present⟩ := List.mem_filterMap.mp moved
        have own : copy.id = id := Keyed.key_of_get present
        exact own ▸ present
      · exact Cluster.scheduleQueued_copies scheduled
  | updated environment d same =>
    simp only [finishEnvironment, List.mem_cons, List.not_mem_nil, or_false, List.filterMap_nil,
      List.nil_append] at member
    rcases member with rfl | rfl | rfl
    · cases writes
    · cases writes
    · exact Cluster.scheduleQueued_copies writes
  | deletedEnvironment id environment present =>
    simp only [List.cons_append, List.mem_cons, List.mem_append, List.mem_map, List.not_mem_nil,
      or_false] at member
    rcases member with rfl | ⟨_, _, rfl⟩ | rfl <;> cases writes
  | created =>
    obtain rfl := List.mem_singleton.mp member
    cases writes
  | worked node now execution pool present known =>
    simp only [List.mem_cons, List.not_mem_nil, or_false] at member
    rcases member with rfl | rfl | rfl
    · cases writes
    · obtain rfl := List.mem_singleton.mp writes
      simp only [Cluster.start, Keyed.get_adjust, if_true, present, Option.map_some]
    · cases writes
  | completed node request now execution present placed =>
    simp only [List.mem_cons, List.not_mem_nil, or_false] at member
    rcases member with rfl | rfl | rfl | rfl
    · cases writes
    · cases writes
    · exact Cluster.scheduleQueued_copies writes
    · cases writes

/-- So is the copy of an execution that is admitted. -/
theorem admitExecution_copies {execution : Execution} {queue : Bool} {c : Cluster} {op : Op}
    (member : op ∈ (admitExecution execution queue c).ops) {copy : Execution}
    (writes : copy ∈ op.copies) :
    (admitExecution execution queue c).cluster.executions.get copy.id = some copy := by
  unfold admitExecution at member ⊢
  dsimp only at member ⊢
  have stored : (c.executions.insert execution).get execution.id = some execution :=
    Keyed.get_insert_self _ _
  split at member
  · rename_i next scheduled
    obtain ⟨placed, pool, node, own, choice, rfl⟩ := Cluster.schedule_cases scheduled
    simp only [List.mem_cons, List.not_mem_nil, or_false] at member
    rcases member with rfl | rfl
    · obtain rfl := List.mem_singleton.mp writes
      simp [Cluster.place_get, own, stored]
    · cases writes
  · rename_i scheduled
    split_ifs at member
    · simp only [List.mem_cons, List.not_mem_nil, or_false] at member
      rcases member with rfl | rfl
      · obtain rfl := List.mem_singleton.mp writes
        simp [*]
      · cases writes
    · simp only [List.mem_cons, List.not_mem_nil, or_false] at member
      rcases member with rfl | rfl <;> cases writes

end Scraperack
