import Scraperack.Sections

/-! Every locked section is a sequence of moves that first shed and then grow. -/

namespace Scraperack
open Counters

/-- Every execution in memory is active, and one that is queued is on no node. -/
structure Orderly (c : Cluster) : Prop where
  active : ∀ id execution, c.executions.get id = some execution → execution.status.active = true
  unplaced : ∀ id execution, c.executions.get id = some execution → execution.status = .queued →
    execution.node = none

/-- An orderly execution that is on a node occupies an instance. -/
theorem Orderly.onNode {c : Cluster} (orderly : Orderly c) {id node : Uuid} {execution : Execution}
    (present : c.executions.get id = some execution) (placed : execution.node = some node) :
    execution.status.onNode = true := by
  rcases ExecutionStatus.active_cases (orderly.active id execution present) with queued | on
  · rw [orderly.unplaced id execution present queued] at placed
    cases placed
  · exact on

/-- The section calls `restart_environment_pool` with this environment. -/
def Commit.Restarts (c : Cluster) (commit : Commit) (fresh : Uuid)
    (environment : Environment) : Prop :=
  (commit = restartEnvironment fresh environment.id ∧
    c.environments.get environment.id = some environment) ∨
    ∃ id request old image artifact, commit =
      updateEnvironment fresh id request old image artifact ∧
      needsRebuild old image.id request = true ∧
      environment = requestedEnvironment id request image.id artifact old.pool

/-- The section updates the environment to this one without a restart of its pool. -/
def Commit.Rewrites (commit : Commit) (environment : Environment) : Prop :=
  ∃ fresh id request old image artifact,
    commit = updateEnvironment fresh id request old image artifact ∧
    needsRebuild old image.id request = false ∧
    environment = requestedEnvironment id request image.id artifact old.pool

/-- The moves that a section may make, besides those that every section may. -/
def Commit.uses (c : Cluster) (commit : Commit) : Move → Prop
  | .requeue _ source name =>
    ∃ fresh environment, commit.Restarts c fresh environment ∧ source = environment.pool ∧
      name = restartedPoolName environment.id fresh
  | .seizePool name =>
    ∃ id environment, commit = deleteEnvironment id ∧ c.environments.get id = some environment ∧
      name = environment.pool ∧ c.executions.any (fun execution =>
        decide (execution.environment = some id) && execution.status.active) = false
  | .resetPool pool => ∃ environment, commit.Rewrites environment ∧
      pool = environmentPool environment
  | .openPool pool => ∀ id, pool.environment = some id → OwnName id pool.name
  | .putEnvironment environment => OwnName environment.id environment.pool ∨
      commit.Rewrites environment
  | .receive _ | .withdraw _ => False
  | _ => True

section
variable {may : Move → Prop} {c : Cluster}

/-- The shedding moves that every section may make. -/
def Move.plain : Move → Bool
  | requeue .. | seizePool _ | resetPool _ | openPool _ | putEnvironment _ | warm
      .. | place .. | receive _
  | withdraw _ => false
  | _ => true

theorem Move.sheds_of_plain {move : Move} (ordinary : move.plain = true) :
    move.grows = false ∧ move.leads = false := by
  cases move <;> first | exact ⟨rfl, rfl⟩ | cases ordinary

/-- Once the loop is through and nothing runs in the pool, nothing in the pool is active. -/
theorem unused_of_moved {name pool : String} (differ : name ≠ pool)
    (quiet : runningIn pool (moved name pool c) = false) :
    (moved name pool c).executions.any (fun execution => execution.activeIn pool) = false := by
  rw [Keyed.any_eq_false_iff]
  intro id execution present
  have still := (Keyed.any_eq_false_iff _ _).mp quiet id execution present
  rw [moved_get] at present
  split_ifs at present with reassigned
  · obtain ⟨before, -, rfl⟩ := Option.map_eq_some_iff.mp present
    simp [Execution.activeIn, Execution.requeued, differ]
  · by_contra active
    simp only [Execution.activeIn, Bool.not_eq_false, Bool.and_eq_true, decide_eq_true_eq] at active
    obtain ⟨inside, busy⟩ := active
    apply reassigned
    refine (mem_reassignedIds pool c id).mpr ⟨execution, present, inside, ?_⟩
    cases status : execution.status <;> simp_all [ExecutionStatus.active]

theorem sheds_moved {name pool : String} (admits : ∀ id, may (.requeue id pool name)) :
    Sheds may c c (moved name pool c) := by
  apply requeueAll_invariant (P := Sheds may c c) (nodup_reassignedIds pool c)
    (fun id member => (mem_reassignedIds pool c id).mp member) (.refl c)
  intro d id execution before present ready
  exact before.shed (.requeue id pool name) ⟨execution, present, ready⟩ (admits id) rfl rfl

theorem unused_of_stalePool {pool : String} {d : Cluster} (stale : stalePool pool d = true) :
    d.executions.any (fun execution => execution.activeIn pool) = false := by
  simp only [stalePool, Bool.and_eq_true, Bool.not_eq_true'] at stale
  exact stale.2

theorem moves_addWarmInstance (id : Uuid) (pool : String) :
    ShedThenGrow may c (addWarmInstance id pool c).cluster := by
  unfold addWarmInstance scheduleIfChanged
  cases added : c.addWarmInstance id pool with
  | none => exact Moves.ends (.refl c)
  | some next =>
    obtain ⟨pool, node, known, there, room, below, rfl⟩ := Cluster.addWarmInstance_eq_some added
    exact ⟨c, .refl c, (Moves.one (.warm id pool) ⟨known, room, below, node, there⟩ ⟨rfl,
      fun _ => rfl⟩).trans
      (grows_schedule c _)⟩

variable (plain : ∀ move, Move.plain move = true → may move)
include plain

theorem Moves.plainly {d : Cluster} (before : Sheds may c c d) (move : Move)
    (ordinary : Move.plain move = true)
    (allowed : move.Allowed d) : Sheds may c c (d.move move) := by
  obtain ⟨sheds, follows⟩ := Move.sheds_of_plain ordinary
  exact before.shed move allowed (plain move ordinary) sheds follows

theorem sheds_importImage (image : Image) : Sheds may c c (importImage image c).cluster := by
  have nodes := (SameAccounts.of_map c (fun node => { node with status := .syncing }) (fun _ => rfl)
    (fun _ => rfl)).nodes
  exact Moves.plainly plain (.refl c) (.aside _) rfl ⟨rfl, rfl, rfl, rfl, nodes⟩

theorem sheds_updateImage {id : Uuid} {update : UpdateImage} {result : Section}
    (ran : updateImage id update c = .ok result) : Sheds may c c result.cluster := by
  obtain ⟨image, -, rfl⟩ := updateImage_eq_ok ran
  exact Moves.plainly plain (.refl c) (.aside _) rfl ⟨rfl, rfl, rfl, rfl, fun _ => rfl⟩

theorem sheds_deleteImage {id : Uuid} {result : Section} (ran : deleteImage id c = .ok result) :
    Sheds may c c result.cluster := by
  obtain ⟨-, -, rfl⟩ := deleteImage_eq_ok ran
  have nodes := (SameAccounts.of_map c (fun node =>
    { node with images := node.images.erase id }) (fun _ => rfl)
    (fun _ => rfl)).nodes
  exact Moves.plainly plain (.refl c) (.aside _) rfl ⟨rfl, rfl, rfl, rfl, nodes⟩

variable (opens : ∀ pool : Pool, (∀ id, pool.environment = some id → OwnName id pool.name) →
  may (.openPool pool))

include opens in
omit plain in
theorem sheds_createPool {pool : Pool} {result : Section} (ran : createPool pool c = .ok result) :
    Sheds may c c result.cluster := by
  obtain ⟨-, unmanaged, absent, rfl⟩ := createPool_eq_ok ran
  refine Moves.shed (.refl c) (.openPool pool)
    ((Keyed.contains_eq_false_iff _ _).mp absent) ?_ rfl rfl
  exact opens pool (fun id managed => by rw [unmanaged] at managed; cases managed)

theorem sheds_deletePool {name : String} {result : Section} (ran : deletePool name c = .ok result) :
    Sheds may c c result.cluster := by
  obtain ⟨unused, rfl⟩ := deletePool_eq_ok ran
  exact Moves.plainly plain (.refl c) (.dropPool name) rfl unused

variable (puts : ∀ environment : Environment, OwnName environment.id environment.pool →
  may (.putEnvironment environment))

include opens puts in
omit plain in
theorem sheds_createEnvironment (id : Uuid) (request : EnvironmentRequest) (image : Image)
    (artifact : Artifact)
    (fresh : c.pools.get (environmentPoolName id) = none) :
    Sheds may c c (createEnvironment id request image artifact c).cluster := by
  have start : Sheds may c c c := .refl c
  have opened := start.shed
    (.openPool (environmentPool (requestedEnvironment id request image.id artifact
      (environmentPoolName id)))) fresh
    (opens _ (fun own same => Option.some.inj same ▸ ownName_environmentPoolName id)) rfl rfl
  exact opened.shed (.putEnvironment _) trivial (puts _ (ownName_environmentPoolName id)) rfl rfl

include opens in
theorem sheds_restartEnvironmentPool (fresh : Uuid) (environment : Environment)
    (absent : c.pools.get (restartedPoolName environment.id fresh) = none)
    (admits : ∀ id, may (.requeue id environment.pool (restartedPoolName environment.id fresh))) :
    Sheds may c c (restartEnvironmentPool fresh environment c).cluster := by
  have looped : Sheds may c c (moved (restartedPoolName environment.id fresh) environment.pool c) :=
    sheds_moved admits
  have named (id : Uuid) (same : (environmentPool { environment with
      pool := restartedPoolName environment.id fresh }).environment = some id) :
      OwnName id (restartedPoolName environment.id fresh) :=
    Option.some.inj same ▸ ownName_restartedPoolName environment.id fresh
  rcases restartEnvironmentPool_cases fresh environment c with
    ⟨old, known, running, same⟩ | ⟨unknown, running, same⟩ | ⟨quiet, same⟩
  · rw [same]
    have quieted := Moves.plainly plain looped (.quietPool environment.pool) rfl trivial
    refine quieted.shed (.openPool (environmentPool { environment with
      pool := restartedPoolName environment.id fresh })) ?_ (opens _ named) rfl rfl
    simp [Move.Allowed, Cluster.move, Cluster.quietPool, environmentPool, Keyed.get_adjust, absent]
  · rw [same]
    exact looped
  · rw [same]
    have dropped : Sheds may c c
        ((moved (restartedPoolName environment.id fresh) environment.pool c).removePool
          environment.pool) := by
      cases known : c.pools.get environment.pool with
      | none => rwa [Cluster.removePool_of_get_none (by simpa using known)]
      | some old =>
        have differ : restartedPoolName environment.id fresh ≠ environment.pool := by
          intro equal
          rw [equal, known] at absent
          cases absent
        exact Moves.plainly plain looped (.dropPool environment.pool) rfl
          (unused_of_moved differ quiet)
    refine dropped.shed (.openPool (environmentPool { environment with
      pool := restartedPoolName environment.id fresh })) ?_ (opens _ named) rfl rfl
    simp [Move.Allowed, environmentPool, Keyed.get_erase, absent]

omit plain in
theorem moves_finishEnvironment {d : Cluster} (before : Sheds may c c d) (environment : Environment)
    (reassigned : List Uuid) (puts : may (.putEnvironment environment)) :
    ShedThenGrow may c (finishEnvironment environment reassigned d).cluster :=
  (before.shed (.putEnvironment environment) trivial puts rfl rfl).scheduled

include opens puts in
theorem moves_restart (fresh : Uuid) (environment : Environment)
    (absent : c.pools.get (restartedPoolName environment.id fresh) = none)
    (admits : ∀ id, may (.requeue id environment.pool (restartedPoolName environment.id fresh))) :
    ShedThenGrow may c (settle (restartEnvironmentPool fresh environment c)).cluster := by
  have before := sheds_restartEnvironmentPool plain opens fresh environment absent admits
  have next : (restartEnvironmentPool fresh environment c).environment =
      { environment with pool := restartedPoolName environment.id fresh } := by
    unfold restartEnvironmentPool
    dsimp only
    split_ifs <;> rfl
  unfold settle
  split_ifs
  · exact before.ends
  · apply moves_finishEnvironment before
    rw [next]
    exact puts _ (ownName_restartedPoolName environment.id fresh)

theorem sheds_deleteEnvironment {id : Uuid} {result : Section}
    (ran : deleteEnvironment id c = .ok result)
    (admits : ∀ environment, c.environments.get id = some environment →
      c.executions.any (fun execution => decide (execution.environment = some id) &&
        execution.status.active) = false →
      may (.seizePool environment.pool)) :
    Sheds may c c result.cluster := by
  obtain ⟨environment, present, unused, rfl⟩ := deleteEnvironment_eq_ok ran
  have own := Keyed.key_of_get present
  have seized := Moves.lead (c := c) (.seizePool environment.pool) trivial
    (admits environment present unused) rfl
  have dropped := Moves.plainly plain seized (.dropEnvironment id) rfl (by
    rw [Move.Allowed, Cluster.move, Cluster.removePool_executions]
    exact unused)
  have reached : (c.removePool environment.pool).move (.dropEnvironment id) =
    withoutEnvironment c environment := by
    rw [withoutEnvironment, own]
    cases known : c.pools.get environment.pool <;> simp [Cluster.move, Cluster.removePool, known]
  rw [Cluster.move, reached] at dropped
  refine Moves.plainly plain dropped (.aside _) rfl ?_
  unfold forgetArtifact
  split
  · exact SameAccounts.of_map _ _ _ (fun _ => rfl)
  · exact .refl _

theorem sheds_joinCluster {node : Uuid} {tokenHash credentialHash : String} {now : Nat}
    {result : Section}
    (ran : joinCluster node tokenHash credentialHash now c =
      .ok result) : Sheds may c c result.cluster := by
  obtain ⟨token, -, rfl⟩ := joinCluster_eq_ok ran
  exact Moves.plainly plain (.refl c) (.aside _) rfl ⟨rfl, rfl, rfl, rfl, fun _ => rfl⟩

theorem sheds_updateNode {id : Uuid} {concurrency : Nat} {result : Section}
    (ran : updateNode id concurrency c = .ok result) : Sheds may c c result.cluster := by
  obtain ⟨node, present, rfl⟩ := updateNode_eq_ok ran
  have own := Keyed.key_of_get present
  exact Moves.plainly plain (.refl c) (.aside _) rfl
    (.of_insert c { node with vmStartConcurrency := some concurrency } node
      (by rw [own, present]) rfl)

theorem moves_deleteNode {id : Uuid} {result : Section} (ran : deleteNode id c = .ok result) :
    ShedThenGrow may c result.cluster := by
  obtain ⟨unused, rfl⟩ := deleteNode_eq_ok ran
  have dropped := Moves.plainly plain (.refl c) (.dropNode id) rfl unused
  exact (Moves.plainly plain dropped (.aside { c with
    nodes := c.nodes.erase id, nodeCredentials := c.nodeCredentials.erase id }) rfl
    ⟨rfl, rfl, rfl, rfl, fun _ => rfl⟩).scheduled

theorem moves_registerNode (id : Uuid) (request : RegisterNode) (now : Nat) :
    ShedThenGrow may c (registerNode id request now c).cluster := by
  have stored : Sheds may c c { c with
      nodes := c.nodes.insert
        (refreshRegistration request now ((c.nodes.get id).getD (newNode id request now))) } := by
    cases present : c.nodes.get id with
    | none =>
      refine Moves.plainly plain (.refl c) (.addNode _) rfl ⟨?_, rfl⟩
      exact present
    | some node =>
      refine Moves.plainly plain (.refl c) (.aside _) rfl (.of_insert c _ node ?_ rfl)
      have own := Keyed.key_of_get present
      subst own
      exact present
  have reset : Sheds may c c
      (if request.resetIdle then ({ c with
        nodes := c.nodes.insert
          (refreshRegistration request now ((c.nodes.get id).getD (newNode id request now))) } :
          Cluster).resetIdleInstances id
      else { c with
        nodes := c.nodes.insert (refreshRegistration request now
          ((c.nodes.get id).getD (newNode id request now))) }) := by
    split_ifs
    · exact Moves.plainly plain stored (.resetIdle id) rfl trivial
    · exact stored
  exact (Moves.plainly plain reset (.aside _) rfl (.refreshNode _ id)).scheduled

theorem moves_imageReady {id image : Uuid} {result : Section}
    (ran : imageReady id image c = .ok result) :
    ShedThenGrow may c result.cluster := by
  obtain rfl := imageReady_eq_ok ran
  have held := SameAccounts.of_adjust c id
    (fun node => { node with images := insert image node.images })
    (fun _ => rfl) (fun _ => rfl)
  exact (Moves.plainly plain (.refl c) (.aside _) rfl (held.trans (.refreshNode _ id))).scheduled

theorem moves_environmentReady {id : Uuid} {artifact : String} {result : Section}
    (ran : environmentReady id artifact c = .ok result) : ShedThenGrow may c result.cluster := by
  obtain rfl := environmentReady_eq_ok ran
  have held := SameAccounts.of_adjust c id
    (fun node => { node with environments := insert artifact node.environments })
    (fun _ => rfl) (fun _ => rfl)
  exact (Moves.plainly plain (.refl c) (.aside _) rfl held).scheduled

theorem moves_removeIdleInstance (id : Uuid) (pool : String) :
    ShedThenGrow may c (removeIdleInstance id pool c).cluster := by
  unfold removeIdleInstance scheduleIfChanged
  cases removed : c.removeIdleInstance id pool with
  | none => exact Moves.ends (.refl c)
  | some next =>
    obtain ⟨pool, node, known, there, idle, rfl⟩ := Cluster.removeIdleInstance_eq_some removed
    exact (Moves.plainly plain (.refl c) (.cool id pool) rfl ⟨known, node, there, idle⟩).scheduled

theorem sheds_nextWork {id : Uuid} {choice : Option Uuid} {now : Nat} {result : Section}
    (ran : nextWork id choice now c = .ok result)
    (fits : (Commit.nextWork id choice now).choiceFits c = true) :
    Sheds may c c result.cluster := by
  rcases nextWork_eq_ok ran with rfl | ⟨execution, rfl, present, outcome⟩
  · exact .refl c
  · have assigned : execution.status = .assigned := by
      simp only [Commit.choiceFits, present, Option.any_some, assignedTo, Bool.and_eq_true,
        decide_eq_true_eq] at fits
      exact fits.2
    have started := Moves.plainly plain (.refl c)
      (.start execution.id now) rfl ⟨execution, present, assigned⟩
    rcases outcome with ⟨_, rfl⟩ | ⟨pool, _, rfl⟩ <;> exact started

theorem moves_completeExecution {node id : Uuid} {request : CompleteExecution} {now : Nat}
    {result : Section}
    (orderly : Orderly c) (ran : completeExecution node id request now c = .ok result) :
    ShedThenGrow may c result.cluster := by
  obtain ⟨execution, present, placed, rfl⟩ := completeExecution_eq_ok ran
  have own := Keyed.key_of_get present
  subst own
  have gone := Moves.plainly plain (.refl c) (.finish execution.id request.keepIdle) rfl
    ⟨execution, present, orderly.onNode present placed⟩
  have clean : Sheds may c c (cleaned c execution request.keepIdle) := by
    unfold cleaned
    split_ifs with stale
    · exact Moves.plainly plain gone (.dropPool execution.pool) rfl (unused_of_stalePool stale)
    · exact gone
  exact clean.scheduled

end

/-- Every section that is not refused is a sequence of moves that first shed and then grow. -/
theorem Commit.moves [Crates] {c : Cluster} {commit : Commit} {result : Section}
    (ran : commit.run c = .ok result)
    (orderly : Orderly c) (fits : commit.choiceFits c = true)
    (fresh : ∀ name, commit.newPoolName = some name → c.pools.get name = none) :
    ShedThenGrow (commit.uses c) c result.cluster := by
  have plain : ∀ move, Move.plain move = true → commit.uses c move := by
    intro move ordinary
    cases move <;> trivial
  have opens (pool : Pool) (named : ∀ id, pool.environment = some id → OwnName id pool.name) :
      commit.uses c (.openPool pool) := named
  have puts (environment : Environment) (named : OwnName environment.id environment.pool) :
      commit.uses c (.putEnvironment environment) := .inl named
  have aside (next : Cluster) (same : SameAccounts c next) : ShedThenGrow (commit.uses c) c next :=
    (Moves.plainly plain (.refl c) (.aside next) rfl same).ends
  cases commit with
  | importImage image =>
    obtain rfl := Except.ok.inj ran
    exact (sheds_importImage plain image).ends
  | updateImage id update => exact (sheds_updateImage plain ran).ends
  | deleteImage id => exact (sheds_deleteImage plain ran).ends
  | createPool pool => exact (sheds_createPool opens ran).ends
  | deletePool name => exact (sheds_deletePool plain ran).ends
  | createEnvironment id request image artifact =>
    obtain rfl := Except.ok.inj ran
    exact (sheds_createEnvironment opens puts id request image artifact (fresh _ rfl)).ends
  | updateEnvironment freshId id request old image artifact =>
    obtain rfl := Except.ok.inj ran
    rw [updateEnvironment_eq]
    split_ifs with rebuild
    · apply moves_restart plain opens puts
      · exact fresh _ rfl
      · exact fun _ => ⟨freshId, _, .inr ⟨id, request, old, image, artifact, rfl, rebuild, rfl⟩,
          rfl, rfl⟩
    · have rewrites : (updateEnvironment freshId id request old image artifact).Rewrites
          (requestedEnvironment id request image.id artifact old.pool) :=
        ⟨freshId, id, request, old, image, artifact, rfl, by simpa using rebuild, rfl⟩
      have written : Sheds
        (Commit.uses c (.updateEnvironment freshId id request old image artifact)) c c
          (c.move (.resetPool (environmentPool
            (requestedEnvironment id request image.id artifact old.pool)))) :=
        Moves.lead _ trivial ⟨_, rewrites, rfl⟩ rfl
      exact moves_finishEnvironment written _ _ (.inr rewrites)
  | restartEnvironment freshId id =>
    obtain ⟨environment, present, rfl⟩ := restartEnvironment_eq_ok ran
    have own := Keyed.key_of_get present
    subst own
    apply moves_restart plain opens puts
    · exact fresh _ rfl
    · exact fun _ => ⟨freshId, environment, .inl ⟨rfl, present⟩, rfl, rfl⟩
  | deleteEnvironment id =>
    exact (sheds_deleteEnvironment plain ran (fun environment present unused =>
      ⟨id, environment, rfl, present, rfl, unused⟩)).ends
  | createJoinToken id tokenHash now =>
    obtain rfl := Except.ok.inj ran
    exact aside _ ⟨rfl, rfl, rfl, rfl, fun _ => rfl⟩
  | joinCluster node tokenHash credentialHash now => exact (sheds_joinCluster plain ran).ends
  | localJoin node credentialHash =>
    obtain rfl := Except.ok.inj ran
    exact aside _ ⟨rfl, rfl, rfl, rfl, fun _ => rfl⟩
  | updateNode id concurrency => exact (sheds_updateNode plain ran).ends
  | deleteNode id => exact moves_deleteNode plain ran
  | registerNode id request now =>
    obtain rfl := Except.ok.inj ran
    exact moves_registerNode plain id request now
  | imageReady id image => exact moves_imageReady plain ran
  | environmentReady id artifact => exact moves_environmentReady plain ran
  | addWarmInstance id pool =>
    obtain rfl := Except.ok.inj ran
    exact moves_addWarmInstance id pool
  | removeIdleInstance id pool =>
    obtain rfl := Except.ok.inj ran
    exact moves_removeIdleInstance plain id pool
  | createExecution id request secrets now =>
    rcases createExecution_eq_ok ran with rfl | ⟨_, _, _, _, _, rfl⟩ <;> exact Moves.ends (.refl c)
  | nextWork id choice now => exact (sheds_nextWork plain ran fits).ends
  | completeExecution node id request now => exact moves_completeExecution plain orderly ran

/-- So is the end of `create_execution`, which admits the execution and may place or withdraw it. -/
theorem admitExecution_moves {execution : Execution} (queue : Bool) {c : Cluster}
    (allowed : (Move.receive execution).Allowed c) :
    ShedThenGrow (fun move => move = .receive execution ∨ move = .withdraw execution.id) c
      (admitExecution execution queue c).cluster := by
  have start : Sheds (fun move => move = .receive execution ∨
    move = .withdraw execution.id) c c c := .refl c
  have admitted := start.shed (.receive execution) allowed (.inl rfl) rfl rfl
  have stored : (c.move (.receive execution)).executions.get execution.id = some execution :=
    Keyed.get_insert_self ..
  unfold admitExecution
  dsimp only
  cases scheduled : (c.move (.receive execution)).schedule execution.id with
  | some next =>
    have same : ({ c with executions := c.executions.insert execution } : Cluster).schedule
      execution.id = some next :=
      scheduled
    rw [same]
    obtain ⟨chosen, pool, node, own, choice, rfl⟩ := Cluster.schedule_cases scheduled
    have queued : chosen.status = .queued := by
      have found := choice.present
      rw [own, stored] at found
      cases found
      exact allowed.2.1
    exact ⟨_, admitted, Moves.one (.place chosen pool node.id) ⟨queued, node, rfl, choice⟩
      ⟨rfl, fun leads => by cases leads⟩⟩
  | none =>
    have same : ({ c with executions := c.executions.insert execution } : Cluster).schedule
      execution.id = none :=
      scheduled
    rw [same]
    dsimp only
    split_ifs
    · exact admitted.ends
    · exact (admitted.shed (.withdraw execution.id) ⟨execution, stored,
        allowed.2.1⟩ (.inr rfl) rfl rfl).ends

end Scraperack
