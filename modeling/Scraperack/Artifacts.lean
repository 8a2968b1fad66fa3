import Scraperack.Agreement

/-! Package artifacts. Their files are shared by all environments with the same image and packages,
and are built, replaced and removed outside the cluster lock. -/

namespace Scraperack

/-- The environments after a section. -/
inductive Rewritten (c next : Cluster) : Commit → Prop where
  | same {commit : Commit} (kept : next.environments = c.environments) : Rewritten c next commit
  | created (id : Uuid) (request : EnvironmentRequest) (image : Image) (artifact : Artifact)
      (pool : String)
      (put : next.environments = c.environments.insert
        (requestedEnvironment id request image.id artifact pool)) :
      Rewritten c next (.createEnvironment id request image artifact)
  | updated (fresh id : Uuid) (request : EnvironmentRequest) (old : Environment) (image : Image)
      (artifact : Artifact)
      (pool : String)
      (put : next.environments = c.environments.insert
        (requestedEnvironment id request image.id artifact pool)) :
      Rewritten c next (.updateEnvironment fresh id request old image artifact)
  | restarted (fresh id : Uuid) (environment : Environment) (pool : String)
      (present : c.environments.get id = some environment)
      (put : next.environments = c.environments.insert { environment with pool := pool }) :
      Rewritten c next (.restartEnvironment fresh id)
  | deleted (id : Uuid) (environment : Environment)
      (present : c.environments.get id = some environment)
      (gone : next.environments = c.environments.erase environment.id) : Rewritten c next
        (.deleteEnvironment id)

theorem settle_environments (fresh : Uuid) (environment : Environment) (c : Cluster) :
    (settle (restartEnvironmentPool fresh environment c)).cluster.environments = c.environments ∨
      (settle (restartEnvironmentPool fresh environment c)).cluster.environments =
        c.environments.insert
          { environment with pool := restartedPoolName environment.id fresh } := by
  rcases restartEnvironmentPool_cases fresh environment c with
    ⟨old, known, running, same⟩ | ⟨unknown, running, same⟩ | ⟨quiet, same⟩
  · rw [same]
    refine .inr ((Cluster.scheduleQueued_environments _).trans ?_)
    exact congrArg (fun t => Keyed.insert t _) (moved_environments ..)
  · rw [same]
    exact .inl (moved_environments ..)
  · rw [same]
    refine .inr ((Cluster.scheduleQueued_environments _).trans
      (congrArg (fun t => Keyed.insert t _) ?_))
    exact (Cluster.removePool_environments ..).trans (moved_environments ..)

theorem scheduleIfChanged_environments {c : Cluster} {changed : Option Cluster}
    (same : ∀ next, changed = some next → next.environments = c.environments) :
    (scheduleIfChanged c changed).cluster.environments = c.environments := by
  cases changed with
  | none => rfl
  | some next => exact (Cluster.scheduleQueued_environments next).trans (same next rfl)

theorem Commit.rewritten [Crates] {c : Cluster} {commit : Commit}
    {result : Section} (ran : commit.run c = .ok result) :
    Rewritten c result.cluster commit := by
  cases commit with
  | importImage image =>
    obtain rfl := Except.ok.inj ran
    exact .same rfl
  | updateImage id update =>
    obtain ⟨image, -, rfl⟩ := updateImage_eq_ok ran
    exact .same rfl
  | deleteImage id =>
    obtain ⟨-, -, rfl⟩ := deleteImage_eq_ok ran
    exact .same rfl
  | createPool pool =>
    obtain ⟨-, -, -, rfl⟩ := createPool_eq_ok ran
    exact .same rfl
  | deletePool name =>
    obtain ⟨-, rfl⟩ := deletePool_eq_ok ran
    exact .same (Cluster.removePool_environments ..)
  | createEnvironment id request image artifact =>
    obtain rfl := Except.ok.inj ran
    exact .created id request image artifact (environmentPoolName id) rfl
  | updateEnvironment fresh id request old image artifact =>
    obtain rfl := Except.ok.inj ran
    rw [updateEnvironment_eq]
    split_ifs
    · rcases settle_environments fresh (requestedEnvironment id request image.id artifact old.pool)
        c with same | put
      · exact .same same
      · exact .updated fresh id request old image artifact _ put
    · exact .updated fresh id request old image artifact old.pool
        (Cluster.scheduleQueued_environments _)
  | restartEnvironment fresh id =>
    obtain ⟨environment, present, rfl⟩ := restartEnvironment_eq_ok ran
    rcases settle_environments fresh environment c with same | put
    · exact .same same
    · exact .restarted fresh id environment _ present put
  | deleteEnvironment id =>
    obtain ⟨environment, present, -, rfl⟩ := deleteEnvironment_eq_ok ran
    refine .deleted id environment present ?_
    unfold forgetArtifact
    split <;> exact Cluster.removePool_environments ..
  | createJoinToken id tokenHash now =>
    obtain rfl := Except.ok.inj ran
    exact .same rfl
  | joinCluster node tokenHash credentialHash now =>
    obtain ⟨token, -, rfl⟩ := joinCluster_eq_ok ran
    exact .same rfl
  | localJoin node credentialHash =>
    obtain rfl := Except.ok.inj ran
    exact .same rfl
  | updateNode id concurrency =>
    obtain ⟨node, -, rfl⟩ := updateNode_eq_ok ran
    exact .same rfl
  | deleteNode id =>
    obtain ⟨-, rfl⟩ := deleteNode_eq_ok ran
    exact .same (Cluster.scheduleQueued_environments _)
  | registerNode id request now =>
    obtain rfl := Except.ok.inj ran
    refine .same ((Cluster.scheduleQueued_environments _).trans ?_)
    cases request.resetIdle <;> rfl
  | imageReady id image =>
    obtain rfl := imageReady_eq_ok ran
    exact .same (Cluster.scheduleQueued_environments _)
  | environmentReady id artifact =>
    obtain rfl := environmentReady_eq_ok ran
    exact .same (Cluster.scheduleQueued_environments _)
  | addWarmInstance id pool =>
    obtain rfl := Except.ok.inj ran
    refine .same (scheduleIfChanged_environments fun next added => ?_)
    obtain ⟨_, _, _, _, _, _, rfl⟩ := Cluster.addWarmInstance_eq_some added
    rfl
  | removeIdleInstance id pool =>
    obtain rfl := Except.ok.inj ran
    refine .same (scheduleIfChanged_environments fun next removed => ?_)
    obtain ⟨_, _, _, _, _, rfl⟩ := Cluster.removeIdleInstance_eq_some removed
    rfl
  | createExecution id request secrets now =>
    rcases createExecution_eq_ok ran with rfl | ⟨_, _, _, _, _, rfl⟩ <;> exact .same rfl
  | nextWork id choice now =>
    rcases nextWork_eq_ok ran with rfl | ⟨execution, rfl, -, ⟨-, rfl⟩ | ⟨pool, -, rfl⟩⟩ <;>
      exact .same rfl
  | completeExecution node id request now =>
    obtain ⟨execution, -, -, rfl⟩ := completeExecution_eq_ok ran
    refine .same ((Cluster.scheduleQueued_environments _).trans ?_)
    have finished : (c.finish execution.id request.keepIdle).environments = c.environments := by
      rw [Cluster.finish, Cluster.release_frame]
      rfl
    unfold cleaned
    split_ifs
    · exact (Cluster.removePool_environments ..).trans finished
    · exact finished

namespace System

/-- No environment has the artifact. -/
def Orphaned (c : Cluster) (artifact : String) : Prop :=
  ∀ id environment, c.environments.get id = some environment → environment.artifact ≠ some artifact

/-- An environment, or a handler that is ready to write one, carries the artifact with this checksum. -/
inductive Promised (s : System) (artifact : String) (sha256 : Option String) : Prop where
  | environment (id : Uuid) (environment : Environment)
      (present : s.cluster.environments.get id = some environment)
      (carries : environment.artifact = some artifact) (sum : environment.sha256 = sha256)
  | job (job : Job) (size : Nat) (member : Frame.environment job ∈ s.inflight)
      (ready : job.stage = .ready ⟨some artifact, sha256, size⟩)

/-- The checksum that a ready job carries for the artifact. -/
def Job.sum (artifact : String) (job : Job) : Option (Option String) :=
  match job.stage with
  | .ready ready => if ready.key = some artifact then some ready.sha256 else none
  | _ => none

def Frame.sum (artifact : String) : Frame → Option (Option String)
  | .environment job => Job.sum artifact job
  | _ => none

variable [Crates]

/-- The file of the artifact is there and has the checksum. -/
def Holds (files : Keyed.Table String Bytes) (artifact : String) (sha256 : Option String) : Prop :=
  ∃ file, files.get artifact = some file ∧ sha256 = some (Crates.sha256 file.2)

/-- The step neither replaces the file of an artifact that is carried by bytes with another
checksum, nor removes it while a handler is ready to write an environment with it. -/
def KeepsArtifacts (s : System) (label : Label) : Prop :=
  (match label with
  | .prepare index (.built content) =>
    match s.inflight[index]? with
    | some (.environment job) =>
      !s.cluster.environments.any (fun environment =>
        decide (environment.artifact = some (Job.key job) ∧
          environment.sha256 ≠ some (Crates.sha256 content))) &&
      s.inflight.all (fun frame =>
        (Frame.sum (Job.key job) frame).all
          (fun sum => decide (sum = some (Crates.sha256 content))))
    | _ => true
  | .op index true =>
    match s.inflight[index]? with
    | some (.running (.removeArtifact artifact :: _) _) =>
        s.inflight.all (fun frame => (Frame.sum artifact frame).isNone)
    | _ => true
  | _ => true) = true

instance (s : System) (label : Label) : Decidable (s.KeepsArtifacts label) :=
  inferInstanceAs (Decidable (_ = true))

/-- What is carried is in place, and handlers that are about to remove an artifact hold the lock until then. -/
structure Matched (s : System) : Prop where
  held : ∀ artifact sha256, Promised s artifact sha256 → Holds s.files artifact sha256
  orphaned : ∀ ops reply artifact, Frame.running ops reply ∈ s.inflight →
    Op.removeArtifact artifact ∈ ops →
    ops.getLast? = some .unlock ∧ Orphaned s.cluster artifact

/-- Sections that remove an artifact keep the lock meanwhile and have taken its last environment away. -/
theorem orphaned_of_run {c : Cluster} {commit : Commit} {result : Section}
    (ran : commit.run c = .ok result)
    {artifact : String} (removes : Op.removeArtifact artifact ∈ result.ops) :
    result.ops.getLast? = some .unlock ∧ Orphaned result.cluster artifact := by
  cases Commit.ending ran with
  | saved _ ops => simp [ops] at removes
  | scheduled | unchanged | restartPanicked | restarted | updated | createPanicked | workPanicked | worked |
    completed | created => simp [scheduleAndSave, finishEnvironment, panicSection] at removes
  | deletedEnvironment id environment present =>
    refine ⟨List.getLast?_concat, ?_⟩
    simp only [List.cons_append, List.mem_cons, List.mem_append, List.mem_map,
      List.not_mem_nil, or_false,
      Option.mem_toList, reduceCtorEq, Op.removeArtifact.injEq, exists_eq_right,
        false_or] at removes
    have unused := (Option.filter_eq_some_iff.mp removes).2
    intro other another found
    have kept : (withoutEnvironment c environment).environments.get other = some another := by
      rw [← found]
      unfold forgetArtifact
      split <;> rfl
    simp only [Bool.not_eq_true'] at unused
    simpa using (Keyed.any_eq_false_iff _ _).mp unused other another kept

omit [Crates] in
/-- A new environment is written by a job that is ready. -/
theorem Entered.creation {s : System} {label : Label} {id : Uuid} {request : EnvironmentRequest}
    {image : Image}
    {artifact : Artifact} {others : List Frame}
    (entered : Entered s label (.createEnvironment id request image artifact) others) :
    Frame.environment ⟨none, request, image, .ready artifact⟩ ∈ s.inflight := by
  cases entered with
  | client _ direct => cases direct
  | handler index input frame _ there ready =>
    cases frame with
    | environment job =>
      obtain ⟨before, wanted, chosen, stage⟩ := job
      simp only [Frame.commit, Job.commit] at ready
      cases stage <;> cases before <;> simp at ready
      obtain ⟨-, rfl, rfl, rfl⟩ := ready
      exact List.mem_of_getElem? there
    | authenticated node request => cases request <;>
        simp [Frame.commit, NodeRequest.commit] at ready
    | importing name => simp [Frame.commit] at ready
    | running ops reply => cases ready

theorem prepareJob_files {files files' : Keyed.Table String Bytes} {job next : Job}
    {event : PrepareEvent}
    (done : prepareJob files job event = some (files', .ok next)) :
    files' = files ∨ ∃ content, event = .built content ∧
      files' = files.insert (Job.key job, content) := by
  unfold prepareJob at done
  repeat' split at done
  all_goals cases done
  all_goals first | exact .inl rfl | exact .inr ⟨_, rfl, rfl⟩

/-- A job gets ready with the checksum of the file in place. -/
theorem prepareJob_ready {files files' : Keyed.Table String Bytes} {job next : Job}
    {event : PrepareEvent}
    (done : prepareJob files job event = some (files', .ok next)) {artifact : String}
    {sha256 : Option String}
    {size : Nat} (ready : next.stage = .ready ⟨some artifact, sha256, size⟩) : Holds files'
      artifact sha256 := by
  cases event with
  | hash =>
    simp only [prepareJob] at done
    split at done
    · rename_i measured stage
      cases file : files.get (Job.key job) with
      | none => simp [file] at done
      | some found =>
        simp only [file, Option.some.injEq, Prod.mk.injEq, Except.ok.injEq] at done
        obtain ⟨rfl, rfl⟩ := done
        cases ready
        exact ⟨found, file, rfl⟩
    · cases done
  | look =>
    simp only [prepareJob] at done
    split_ifs at done <;> cases done <;> cases ready
  | built content =>
    simp only [prepareJob] at done
    split_ifs at done
    cases done
    cases ready
  | measure =>
    simp only [prepareJob] at done
    split_ifs at done
    split at done <;> cases done
    cases ready
  | fail =>
    simp only [prepareJob] at done
    split at done <;> cases done

omit [Crates] in
/-- A new job is ready at once only without an artifact or with the one its environment has. -/
theorem startJob_ready {s : System} {id : Option Uuid} {request : EnvironmentRequest} {job : Job}
    (checked : s.startJob id request = .ok job) {artifact : String}
    {sha256 : Option String} {size : Nat}
    (ready : job.stage = .ready ⟨some artifact, sha256, size⟩) : Promised s artifact sha256 := by
  have bare {image : Image} {packages : List String} {stage : Stage}
    (first : firstStage image packages = .ok stage) :
      stage ≠ .ready ⟨some artifact, sha256, size⟩ := by
    rintro rfl
    unfold firstStage at first
    split_ifs at first <;> cases first
  cases id with
  | none =>
    simp only [startJob, bind_eq_ok_iff, pure, Except.pure, Except.ok.injEq] at checked
    obtain ⟨image, -, stage, first, rfl⟩ := checked
    exact absurd ready (bare first)
  | some id =>
    simp only [startJob, bind_eq_ok_iff, pure, Except.pure, Except.ok.injEq, checkUpdateEnvironment,
      found_eq_ok_iff,
      require_eq_ok_iff, exists_const] at checked
    obtain ⟨⟨before, image⟩, ⟨_, -, found, present, -, chosen, -, same⟩, rest⟩ := checked
    obtain ⟨rfl, rfl⟩ := Prod.mk.inj same
    split_ifs at rest <;> simp only [bind_eq_ok_iff, Except.ok.injEq] at rest <;>
      obtain ⟨stage, first, rfl⟩ := rest
    · exact absurd ready (bare first)
    · obtain ⟨rfl⟩ := first
      simp only [Stage.ready.injEq, Artifact.mk.injEq] at ready
      exact .environment id found present ready.1 ready.2.1

/-- Whatever is carried after a step was carried before, or is the checksum of the file in place. -/
theorem promised_step {s t : System} {label : Label} (stepped : s.step label = some t)
    (same : restarts label = false)
    {artifact : String} {sha256 : Option String} (promised : Promised t artifact sha256) :
    Promised s artifact sha256 ∨ Holds t.files artifact sha256 := by
  cases promised with
  | job job size member ready =>
    have before (found : Frame.environment job ∈ s.inflight) : Promised s artifact sha256 ∨
      Holds t.files artifact sha256 :=
      .inl (.job job size found ready)
    cases step_cases stepped with
    | refused _ others error fewer => exact before (fewer.subset member)
    | declined _ commit others error entered => exact before (entered.fewer.subset member)
    | answered | failed => exact before ((List.eraseIdx_sublist _ _).subset member)
    | started id request _ free checked =>
      rcases List.mem_append.mp member with found | new
      · exact before found
      · cases List.mem_singleton.mp new
        exact .inl (startJob_ready checked ready)
    | authenticated | importing => exact before (by simpa using member)
    | performed _ commit others result free allowed entered ran =>
      rcases List.mem_append.mp member with found | new
      · exact before (entered.fewer.subset found)
      · cases List.mem_singleton.mp new
    | prepared index event old _ files there done =>
      rcases List.mem_or_eq_of_mem_set member with found | new
      · exact before found
      · cases new
        exact .inr (prepareJob_ready done ready)
    | called | admitted | rejected | ignored =>
      rcases List.mem_or_eq_of_mem_set member with found | new
      · exact before found
      · cases new
    | restarted => cases same
    | _ => exact before member
  | environment id environment present carries sum =>
    refine .inl ?_
    have before (found : s.cluster.environments.get id =
      some environment) : Promised s artifact sha256 :=
      .environment id environment found carries sum
    cases step_cases stepped with
    | performed _ commit others result free allowed entered ran =>
      change result.cluster.environments.get id = some environment at present
      cases Commit.rewritten ran with
      | same kept => exact before (kept ▸ present)
      | created _ request image built pool put =>
        rw [put, Keyed.get_insert] at present
        split_ifs at present
        · obtain rfl := Option.some.inj present
          refine .job _ built.size entered.creation ?_
          rw [← carries, ← sum]
          rfl
        · exact before present
      | updated _ _ request old image built pool put =>
        rw [put, Keyed.get_insert] at present
        split_ifs at present
        · obtain rfl := Option.some.inj present
          refine .job _ built.size entered.job.2 ?_
          rw [← carries, ← sum]
          rfl
        · exact before present
      | restarted _ _ old pool was put =>
        rw [put, Keyed.get_insert] at present
        split_ifs at present
        · obtain rfl := Option.some.inj present
          exact .environment _ old was carries sum
        · exact before present
      | deleted _ old was gone =>
        rw [gone, Keyed.get_erase] at present
        split_ifs at present
        exact before present
    | admitted index execution secrets queue =>
      exact before ((admitExecution_environments execution queue s.cluster) ▸ present)
    | called index op rest _ after next there plain done =>
      have kept : next.cluster = s.cluster := (runOp_frame plain done).1
      exact before (kept ▸ present)
    | restarted => cases same
    | _ => exact before present

/-- The files that are carried stay in place. -/
theorem Matched.files_step {s t : System} {label : Label} (matched : Matched s)
    (keeps : s.KeepsArtifacts label)
    (stepped : s.step label = some t) (same : restarts label = false) {artifact : String}
    {sha256 : Option String}
    (promised : Promised s artifact sha256) : Holds t.files artifact sha256 := by
  have held := matched.held artifact sha256 promised
  have carried {key : String} {content : Bytes} (other : key ≠ artifact) :
      Holds (s.files.insert (key, content)) artifact sha256 := by
    obtain ⟨file, present, sum⟩ := held
    exact ⟨file, (Keyed.get_insert_ne (v :=
      (key, content)) s.files (fun equal => other equal.symm)).trans present, sum⟩
  cases step_cases stepped with
  | prepared index event job next files there done =>
    rcases prepareJob_files done with rfl | ⟨content, rfl, rfl⟩
    · exact held
    · by_cases own : Job.key job = artifact
      · subst own
        refine ⟨(Job.key job, content), Keyed.get_insert_self s.files (Job.key job, content), ?_⟩
        simp only [KeepsArtifacts, there, Bool.and_eq_true, Bool.not_eq_true',
          List.all_eq_true] at keeps
        cases promised with
        | environment id environment present carries sum =>
          have agrees := (Keyed.any_eq_false_iff _ _).mp keeps.1 id environment present
          simpa [carries, sum] using agrees
        | job other size member ready =>
          simpa [Frame.sum, Job.sum, ready] using keeps.2 _ member
      · exact carried own
  | called index op rest before after next there plain done =>
    cases op with
    | removeArtifact gone =>
      simp only [runOp, Option.some.injEq, Prod.mk.injEq] at done
      obtain ⟨rfl, -, -⟩ := done
      have other : artifact ≠ gone := by
        rintro rfl
        cases promised with
        | environment id environment present carries sum =>
          exact (matched.orphaned _ _ artifact (List.mem_of_getElem? there) List.mem_cons_self).2 id
            environment present
            carries
        | job job size member ready =>
          simp only [KeepsArtifacts, there, List.all_eq_true] at keeps
          simpa [Frame.sum, Job.sum, ready] using keeps _ member
      obtain ⟨file, present, sum⟩ := held
      exact ⟨file, (Keyed.get_erase_ne s.files other).trans present, sum⟩
    | insertExecution => cases plain
    | completeExecution | deliver =>
      simp only [runOp, Option.map_eq_some_iff, Prod.mk.injEq] at done
      obtain ⟨_, _, rfl, -⟩ := done
      exact held
    | _ =>
      simp only [runOp, Option.some.injEq, Prod.mk.injEq] at done
      obtain ⟨rfl, -⟩ := done
      exact held
  | restarted => cases same
  | _ => exact held

/-- A pending removal keeps the lock, so no environment takes the artifact up meanwhile. -/
theorem Matched.orphaned_step {s t : System} {label : Label} (matched : Matched s)
    (stepped : s.step label = some t)
    {ops : List Op} {reply : Reply} {artifact : String} (same : restarts label = false)
    (member : Frame.running ops reply ∈ t.inflight) (removes : Op.removeArtifact artifact ∈ ops) :
    ops.getLast? = some .unlock ∧ Orphaned t.cluster artifact := by
  have shorter {op : Op} {rest : List Op} {answer : Reply}
    (found : Frame.running (op :: rest) answer ∈ s.inflight)
      (inside : Op.removeArtifact artifact ∈ rest) : rest.getLast? = some .unlock ∧
        Orphaned s.cluster artifact := by
    obtain ⟨last, orphaned⟩ := matched.orphaned _ _ artifact found (List.mem_cons_of_mem _ inside)
    cases rest with
    | nil => cases inside
    | cons next rest => exact ⟨by rwa [List.getLast?_cons_cons] at last, orphaned⟩
  have before (found : Frame.running ops reply ∈ s.inflight) :=
    matched.orphaned _ _ artifact found removes
  cases step_cases stepped with
  | refused _ others error fewer => exact before (fewer.subset member)
  | declined _ commit others error entered => exact before (entered.fewer.subset member)
  | answered | failed => exact before ((List.eraseIdx_sublist _ _).subset member)
  | authenticated | started | importing => exact before (by simpa using member)
  | performed _ commit others result free allowed entered ran =>
    rcases List.mem_append.mp member with found | new
    · have held := before (entered.fewer.subset found)
      have locks : (Frame.running ops reply).holdsLock = true :=
        List.any_eq_true.mpr ⟨.unlock, List.mem_of_getLast? held.1, rfl⟩
      exact absurd locks (List.any_eq_false.mp free _ (entered.fewer.subset found))
    · cases List.mem_singleton.mp new
      exact orphaned_of_run ran removes
  | prepared =>
    rcases List.mem_or_eq_of_mem_set member with found | new
    · exact before found
    · cases new
  | called index op rest _ after next there plain done =>
    have kept : next.cluster = s.cluster := (runOp_frame plain done).1
    change _ ∧ Orphaned next.cluster artifact
    rw [kept]
    rcases List.mem_or_eq_of_mem_set member with found | new
    · exact before found
    · cases new
      exact shorter (List.mem_of_getElem? there) removes
  | admitted index execution secrets queue rest _ database there stored =>
    change _ ∧ Orphaned (admitExecution execution queue s.cluster).cluster artifact
    unfold Orphaned
    rw [admitExecution_environments]
    rcases List.mem_or_eq_of_mem_set member with found | new
    · exact before found
    · cases new
      rcases admitExecution_ops execution queue s.cluster with ⟨copy, shape⟩ | shape <;>
        simp [shape] at removes
  | rejected =>
    rcases List.mem_or_eq_of_mem_set member with found | new
    · exact before found
    · cases new
      cases removes
  | ignored index gone rest _ there =>
    rcases List.mem_or_eq_of_mem_set member with found | new
    · exact before found
    · cases new
      exact shorter (List.mem_of_getElem? there) removes
  | restarted => cases same
  | _ => exact before member

theorem Matched.step {s t : System} {label : Label} (matched : Matched s)
    (keeps : s.KeepsArtifacts label)
    (stepped : s.step label = some t) (same : restarts label = false) : Matched t := by
  refine ⟨fun artifact sha256 promised => ?_, fun ops reply artifact =>
    matched.orphaned_step stepped same⟩
  rcases promised_step stepped same promised with before | held
  · exact matched.files_step keeps stepped same before
  · exact held

/-- The files of all environments are in place, and no handler is in flight. -/
theorem matched_quiet {s : System} (quiet : s.inflight = [])
    (held : ∀ id environment artifact, s.cluster.environments.get id = some environment →
      environment.artifact = some artifact →
        Holds s.files artifact environment.sha256) : Matched s := by
  refine ⟨fun artifact sha256 promised => ?_, fun ops reply artifact member => ?_⟩
  · cases promised with
    | environment id environment present carries sum =>
        exact sum ▸ held id environment artifact present carries
    | job job size member =>
      rw [quiet] at member
      cases member
  · rw [quiet] at member
    cases member

/-- In every run of one process whose builds and removals keep the artifacts that are carried, the
file of every environment's artifact is there with the checksum that the environment records. -/
theorem artifacts_match {s t : System} (quiet : s.inflight = [])
    (held : ∀ id environment artifact, s.cluster.environments.get id = some environment →
      environment.artifact = some artifact → Holds s.files artifact environment.sha256)
    (run : Run KeepsArtifacts s t) :
    (∀ id environment artifact, t.cluster.environments.get id = some environment →
      environment.artifact = some artifact →
      ∃ file, t.files.get artifact = some file ∧ environment.sha256 = some (Crates.sha256 file.2)) ∧
    ∀ id other environment another artifact, t.cluster.environments.get id = some environment →
      t.cluster.environments.get other = some another → environment.artifact = some artifact →
      another.artifact = some artifact → environment.sha256 = another.sha256 := by
  have matched : Matched t := run.invariant (matched_quiet quiet held)
    (fun matched allowed stepped => matched.step allowed.2 stepped allowed.1)
  have own (id : Uuid) (environment : Environment) (artifact : String)
      (present : t.cluster.environments.get id = some environment)
        (carries : environment.artifact = some artifact) :=
    matched.held artifact environment.sha256 (.environment id environment present carries rfl)
  refine ⟨own, fun id other environment another artifact present found carries also => ?_⟩
  obtain ⟨file, there, sum⟩ := own id environment artifact present carries
  obtain ⟨same, again, other_sum⟩ := own other another artifact found also
  obtain rfl := Option.some.inj (there.symm.trans again)
  exact sum.trans other_sum.symm

end System

namespace Demo

def packaged (name : String) : EnvironmentRequest :=
  { environmentRequest with name := name, packages := ["requests"] }

/-- A build from its start to its hash, for the job at the index. -/
def building (index : Nat) (content : Bytes) : List Label :=
  [.prepare index (.built content), .prepare index .measure, .prepare index .hash]

def packaging : List Label :=
  installation ++ [.checkEnvironment none (packaged "e"), .prepare 0 .look] ++ building 0 [1] ++
    .enter 0 (input environment) :: finish 0 2

/-- Two environments with the same packages are built at the same time, with different results. -/
def overlapping : List Label :=
  installation ++ [.checkEnvironment none (packaged "e"), .prepare 0 .look,
    .checkEnvironment none (packaged "f"),
    .prepare 1 .look] ++ building 0 [1] ++ [.enter 0 (input environment)] ++ finish 1 2 ++
      building 0 [2] ++
    .enter 0 (input 0x50000000000000000000000000000000) :: finish 0 2

end Demo

namespace System

theorem artifacts_match_built :
    ∃ t : System, ∃ environment artifact, t.cluster.environments.get Demo.environment =
      some environment ∧
      environment.artifact = some artifact ∧
      ∃ file, t.files.get artifact = some file ∧
        environment.sha256 = some (Demo.crates.sha256 file.2) := by
  obtain ⟨t, run, built⟩ := Runs.exists_reaches (@step Demo.crates)
    (fun s label => restarts label = false ∧
      @KeepsArtifacts Demo.crates s label) Demo.empty Demo.packaging
    (fun t => (t.cluster.environments.get Demo.environment).any (fun environment =>
      environment.artifact.isSome))
    (by decide +kernel)
  obtain ⟨environment, present, carries⟩ := (Option.any_eq_true _ _).mp built
  obtain ⟨artifact, carries⟩ := Option.isSome_iff_exists.mp carries
  have nothing (id : Uuid) (environment : Environment) (artifact : String)
      (present : Demo.empty.cluster.environments.get id = some environment)
        (_ : environment.artifact = some artifact) :
      @Holds Demo.crates Demo.empty.files artifact environment.sha256 := by cases present
  exact ⟨t, environment, artifact, present, carries,
    (@artifacts_match Demo.crates _ _ rfl nothing run).1 _ environment artifact present carries⟩

/-- The second of two builds replaces the file that the first environment was recorded with. -/
theorem artifact_replaced :
    ¬ ∀ [Crates] (s t : System), s.Fresh → Run (fun _ _ => True) s t → t.inflight = [] →
      ∀ id environment artifact, t.cluster.environments.get id = some environment →
        environment.artifact = some artifact →
        ∃ file, t.files.get artifact = some file ∧
          environment.sha256 = some (Crates.sha256 file.2) := by
  intro claim
  obtain ⟨t, run, shape⟩ := Runs.exists_reaches (@step Demo.crates)
    (fun _ label => restarts label = false ∧ True)
    Demo.empty Demo.overlapping
    (fun t => t.inflight.isEmpty && (t.cluster.environments.get Demo.environment).any
      (fun environment =>
      environment.artifact.any (fun artifact => (t.files.get artifact).any (fun file =>
        decide (environment.sha256 ≠ some (Demo.crates.sha256 file.2)))))) (by decide +kernel)
  simp only [Bool.and_eq_true, Option.any_eq_true, List.isEmpty_iff, decide_eq_true_eq] at shape
  obtain ⟨quiet, environment, present, artifact, carries, file, there, differ⟩ := shape
  obtain ⟨same, found, sum⟩ :=
    @claim Demo.crates _ _ fresh_empty run quiet _ environment artifact present carries
  obtain rfl := Option.some.inj (there.symm.trans found)
  exact differ sum

end System
end Scraperack
