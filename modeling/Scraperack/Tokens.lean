import Scraperack.Names
import Scraperack.Registry

/-! Join tokens. Each is answered with credentials once at most and before it expires, whatever
saves fail and however often the controller restarts. -/

namespace Scraperack

inductive JoinTokenStatus where
  | pending
  | used
  | expired
  deriving DecidableEq

structure JoinTokenView where
  id : Uuid
  expiresAtMs : Nat
  status : JoinTokenStatus

def getJoinToken (id : Uuid) (now : Nat) (c : Cluster) : Except ApiError JoinTokenView := do
  let token ← found (c.joinTokens.get id) .notFound "join token not found"
  let status := if token.usedAtMs.isSome then .used else if token.expiresAtMs ≤
    now then .expired else .pending
  return { id := id, expiresAtMs := token.expiresAtMs, status := status }

/-- `get_join_token` reports the token as pending. -/
def reportsPending (id : Uuid) (now : Nat) (c : Cluster) : Prop :=
  ∃ view, getJoinToken id now c = .ok view ∧ view.status = .pending

/-- No token with the hash is waiting to be used. -/
def Spent (tokenHash : String) (tokens : Keyed JoinToken.id) : Prop :=
  ∀ id token, tokens.get id = some token → token.tokenHash = tokenHash →
    token.usedAtMs.isSome = true

/-- Every token is one of those created. -/
def Traced (created : List JoinToken) (tokens : Keyed JoinToken.id) : Prop :=
  ∀ id token, tokens.get id = some token →
    ∃ made ∈ created, made.id = token.id ∧ made.tokenHash = token.tokenHash ∧
      made.expiresAtMs = token.expiresAtMs

/-- The token that `create_join_token` adds. -/
def newToken (id : Uuid) (tokenHash : String) (now : Nat) : JoinToken :=
  { id := id, tokenHash := tokenHash, expiresAtMs := now + joinTokenTtlMs, usedAtMs := none }

/-- A token after `create_join_token` is the new one or was there before. -/
theorem createJoinToken_get {id k : Uuid} {tokenHash : String} {now : Nat} {c : Cluster}
    {token : JoinToken}
    (present : (createJoinToken id tokenHash now c).cluster.joinTokens.get k = some token) :
    token = newToken id tokenHash now ∨ c.joinTokens.get k = some token := by
  simp only [createJoinToken, Keyed.get_insert, Keyed.get_filter] at present
  split_ifs at present
  · exact .inl (Option.some.inj present).symm
  · exact .inr (Option.filter_eq_some_iff.mp present).1

theorem used_get {tokens : Keyed JoinToken.id} {id k : Uuid} {now : Nat} {token : JoinToken}
    (present : (tokens.adjust id (fun token => { token with usedAtMs := some now }) (fun _ =>
      rfl)).get k = some token) :
    ∃ old, tokens.get k = some old ∧ old.id = token.id ∧ old.tokenHash = token.tokenHash ∧
      old.expiresAtMs = token.expiresAtMs ∧
        (token.usedAtMs = old.usedAtMs ∨ token.usedAtMs = some now) ∧
      (k = id → token.usedAtMs = some now) := by
  rw [Keyed.get_adjust] at present
  split_ifs at present with same
  · subst same
    obtain ⟨old, was, rfl⟩ := Option.map_eq_some_iff.mp present
    exact ⟨old, was, rfl, rfl, rfl, .inr rfl, fun _ => rfl⟩
  · exact ⟨token, present, rfl, rfl, rfl, .inl rfl, fun equal => absurd equal same⟩

namespace Spent
variable {tokenHash : String} {c : Cluster}

theorem create (spent : Spent tokenHash c.joinTokens) (id : Uuid) {other : String} (now : Nat)
    (differ : other ≠ tokenHash) : Spent tokenHash
      (createJoinToken id other now c).cluster.joinTokens := by
  intro k token present same
  rcases createJoinToken_get present with rfl | before
  · exact absurd same differ
  · exact spent k token before same

theorem use (spent : Spent tokenHash c.joinTokens) (id : Uuid) (now : Nat) :
    Spent tokenHash (c.joinTokens.adjust id (fun token =>
      { token with usedAtMs := some now }) (fun _ => rfl)) := by
  intro k token present same
  obtain ⟨old, was, -, hash, -, kept | used, -⟩ := used_get present
  · rw [kept]
    exact spent k old was (hash.trans same)
  · rw [used]
    rfl

/-- A spent token is refused. -/
theorem refuses (spent : Spent tokenHash c.joinTokens) (now : Nat) :
    c.joinTokens.values.find? (acceptable now tokenHash) = none := by
  refine List.find?_eq_none.mpr (fun token member => ?_)
  simp only [acceptable, Bool.and_eq_true, decide_eq_true_eq, not_and]
  rintro ⟨unused, -⟩ same
  have used := spent token.id token ((Keyed.mem_values_iff _ _).mp member) same
  rw [Option.isNone_iff_eq_none] at unused
  rw [unused] at used
  cases used

end Spent

theorem accepted_of_find {c : Cluster} {now : Nat} {tokenHash : String} {token : JoinToken}
    (accepted : c.joinTokens.values.find? (acceptable now tokenHash) = some token) :
    c.joinTokens.get token.id = some token ∧ token.usedAtMs = none ∧ now < token.expiresAtMs ∧
      token.tokenHash = tokenHash := by
  have passes := List.find?_some accepted
  simp only [acceptable, Bool.and_eq_true, decide_eq_true_eq, Option.isNone_iff_eq_none] at passes
  exact ⟨(Keyed.mem_values_iff _ _).mp (List.mem_of_find?_eq_some accepted), passes.1.1,
    passes.1.2, passes.2⟩

namespace Traced
variable {created : List JoinToken} {c : Cluster}

theorem create (traced : Traced created c.joinTokens) (id : Uuid) (tokenHash : String) (now : Nat) :
    Traced (newToken id tokenHash now :: created)
      (createJoinToken id tokenHash now c).cluster.joinTokens := by
  intro k token present
  rcases createJoinToken_get present with rfl | before
  · exact ⟨_, List.mem_cons_self, rfl, rfl, rfl⟩
  · obtain ⟨made, member, same⟩ := traced k token before
    exact ⟨made, List.mem_cons_of_mem _ member, same⟩

theorem use (traced : Traced created c.joinTokens) (id : Uuid) (now : Nat) :
    Traced created (c.joinTokens.adjust id (fun token =>
      { token with usedAtMs := some now }) (fun _ => rfl)) := by
  intro k token present
  obtain ⟨old, was, own, hash, expires, -, -⟩ := used_get present
  obtain ⟨made, member, madeId, madeHash, madeExpires⟩ := traced k old was
  exact ⟨made, member, madeId.trans own, madeHash.trans hash, madeExpires.trans expires⟩

theorem append {tokens : Keyed JoinToken.id} (traced : Traced created tokens)
    (front : List JoinToken) :
    Traced (front ++ created) tokens := by
  intro k token present
  obtain ⟨made, member, same⟩ := traced k token present
  exact ⟨made, List.mem_append_right _ member, same⟩

/-- Where all tokens have different hashes, the hash determines the token. -/
theorem made_of_hash (traced : Traced created c.joinTokens)
    (distinct : (created.map JoinToken.tokenHash).Nodup)
    {id : Uuid} {token made : JoinToken} (present : c.joinTokens.get id = some token)
    (member : made ∈ created)
    (same : made.tokenHash = token.tokenHash) : made.id = id ∧
      made.expiresAtMs = token.expiresAtMs := by
  obtain ⟨other, inside, own, hash, expires⟩ := traced id token present
  obtain rfl := List.inj_on_of_nodup_map distinct inside member (hash.trans same.symm)
  exact ⟨own.trans (Keyed.key_of_get present), expires⟩

/-- Once its token is used, the hash is spent. -/
theorem spends (traced : Traced created c.joinTokens)
    (distinct : (created.map JoinToken.tokenHash).Nodup)
    {token : JoinToken} {tokenHash : String} {now : Nat}
    (accepted : c.joinTokens.values.find? (acceptable now tokenHash) = some token) :
    Spent tokenHash
      (c.joinTokens.adjust token.id (fun token =>
        { token with usedAtMs := some now }) (fun _ => rfl)) := by
  obtain ⟨present, -, -, own⟩ := accepted_of_find accepted
  intro k other found same
  obtain ⟨old, was, -, hash, -, -, used⟩ := used_get found
  obtain ⟨made, member, madeId, madeHash, -⟩ := traced token.id token present
  have equal := (traced.made_of_hash distinct was member
    ((madeHash.trans own).trans (hash.trans same).symm)).1
  rw [used (equal.symm.trans madeId)]
  rfl

end Traced

/-- A token is reported as pending exactly when it would be accepted. -/
theorem pending_iff_accepted {created : List JoinToken} {c : Cluster}
    (traced : Traced created c.joinTokens)
    (hashes : (created.map JoinToken.tokenHash).Nodup) (ids : (created.map JoinToken.id).Nodup)
    {made : JoinToken}
    (member : made ∈ created) (now : Nat) (node : Uuid) (credentialHash : String) :
    reportsPending made.id now c ↔ ∃ result, joinCluster node made.tokenHash credentialHash now c =
      .ok result := by
  have accepts : (∃ result, joinCluster node made.tokenHash credentialHash now c = .ok result) ↔
      ∃ token, c.joinTokens.values.find? (acceptable now made.tokenHash) = some token := by
    simp only [joinCluster, bind_eq_ok_iff, found_eq_ok_iff, pure, Except.pure, Except.ok.injEq]
    constructor
    · rintro ⟨_, token, accepted, -⟩
      exact ⟨token, accepted⟩
    · rintro ⟨token, accepted⟩
      exact ⟨_, token, accepted, rfl⟩
  rw [accepts]
  simp only [reportsPending, getJoinToken, bind_eq_ok_iff, found_eq_ok_iff, pure, Except.pure,
    Except.ok.injEq]
  constructor
  · rintro ⟨_, ⟨token, present, rfl⟩, pending⟩
    dsimp only at pending
    split_ifs at pending with used expired
    obtain ⟨other, inside, own, hash, -⟩ := traced made.id token present
    obtain rfl := List.inj_on_of_nodup_map ids inside member (own.trans (Keyed.key_of_get present))
    refine Option.isSome_iff_exists.mp (List.find?_isSome.mpr ⟨token, Keyed.mem_of_get present, ?_⟩)
    simp only [acceptable, Bool.and_eq_true, decide_eq_true_eq]
    exact ⟨⟨by simpa using used, by omega⟩, hash.symm⟩
  · rintro ⟨token, accepted⟩
    obtain ⟨present, unused, early, own⟩ := accepted_of_find accepted
    have equal := (traced.made_of_hash hashes present member own.symm).1
    refine ⟨_, ⟨token, equal ▸ present, rfl⟩, ?_⟩
    simp [unused, early]

/-! The answers. A history that goes along with the controller tells which `join_cluster` request
each handler in flight serves, which of them were answered with credentials, and which tokens were
created. -/

structure Join where
  node : Uuid
  tokenHash : String
  /-- The handler's reading of the clock. -/
  now : Nat

def Commit.join : Commit → Option Join
  | joinCluster node tokenHash _ now => some ⟨node, tokenHash, now⟩
  | _ => none

structure Watched where
  system : System
  /-- For every handler in flight, the join it has made. -/
  serving : List (Option Join)
  /-- The joins answered with credentials, newest first. -/
  granted : List Join
  created : List JoinToken

namespace Watched

/-- The joins of the handlers in flight after a step: they move as the handlers do. -/
def follow (w : Watched) (label : Label) (t : System) : List (Option Join) :=
  match label with
  | .client commit => if w.system.inflight.length < t.inflight.length then w.serving ++
      [commit.join] else w.serving
  | .authenticate .. | .checkEnvironment .. | .checkImport _ =>
    if w.system.inflight.length < t.inflight.length then w.serving ++ [none] else w.serving
  | .enter index _ =>
    if t.inflight.length < w.system.inflight.length then w.serving.eraseIdx index
    else w.serving.eraseIdx index ++ [none]
  | .prepare index _ | .op index _ =>
    if t.inflight.length < w.system.inflight.length then w.serving.eraseIdx index else w.serving
  | .restart .. => []
  | _ => w.serving

/-- The join that the step answers with credentials. -/
def grants (w : Watched) : Label → List Join
  | .op index _ =>
    match w.system.inflight[index]?, w.serving[index]? with
    | some (.running [] (.credentials _)), some (some join) => [join]
    | _, _ => []
  | _ => []

def creates : Label → List JoinToken
  | .client (.createJoinToken id tokenHash now) => [newToken id tokenHash now]
  | _ => []

variable [Crates]

def step (w : Watched) (label : Label) : Option Watched :=
  (w.system.step label).map (fun t =>
    { system := t
      serving := w.follow label t
      granted := w.grants label ++ w.granted
      created := creates label ++ w.created })

/-- A token that is created has a hash that none had before. -/
def Distinct (w : Watched) (label : Label) : Prop :=
  ∀ token ∈ creates label, ∀ made ∈ w.created, made.tokenHash ≠ token.tokenHash

instance (w : Watched) (label : Label) : Decidable (w.Distinct label) :=
  inferInstanceAs (Decidable (∀ token ∈ creates label, ∀ made ∈ w.created, _ ≠ _))

/-- The joins made by handlers in flight and those already answered. -/
def joins (w : Watched) : List Join := w.serving.filterMap (fun join => join) ++ w.granted

/-- The database, if it holds a cluster, holds one in which the hash is spent. -/
def StoredSpent (tokenHash : String) (database : Database) : Prop :=
  ∀ c, database.cluster = some c → Spent tokenHash c.joinTokens

/-- A handler that has made a join answers with credentials once the cluster is saved. -/
def Serves (database : Database) (join : Join) (frame : Frame) : Prop :=
  ∃ ops, frame = .running ops (.credentials join.node) ∧
    (ops = [.saveCluster, .unlock] ∨ (ops = [.unlock] ∨ ops = []) ∧
      StoredSpent join.tokenHash database)

/-- What holds along a run. -/
structure Faithful (w : Watched) : Prop where
  length : w.serving.length = w.system.inflight.length
  serves : ∀ (i : Nat) (join : Join), w.serving[i]? = some (some join) →
    ∃ frame, w.system.inflight[i]? = some frame ∧ Serves w.system.database join frame
  spent : ∀ join ∈ w.joins, Spent join.tokenHash w.system.cluster.joinTokens
  stored : ∀ join ∈ w.granted, StoredSpent join.tokenHash w.system.database
  once : (w.joins.map Join.tokenHash).Nodup
  early : ∀ join ∈ w.joins, ∃ made ∈ w.created, made.tokenHash = join.tokenHash ∧
    join.now < made.expiresAtMs
  traced : Traced w.created w.system.cluster.joinTokens
  storedTraced : ∀ c, w.system.database.cluster = some c → Traced w.created c.joinTokens
  hashes : (w.created.map JoinToken.tokenHash).Nodup
  ids : (w.created.map JoinToken.id).Nodup
  issued : ∀ made ∈ w.created, made.id ∈ w.system.issued

/-- The join that the label asks for. -/
def asks : Label → Option Join
  | .client commit => commit.join
  | _ => none

/-- Sections other than those of the two requests leave the tokens alone. -/
theorem tokens_same {s t : System} {label : Label} (stepped : s.step label = some t)
    (same : System.restarts label = false) (created : creates label = []) (asked : asks label = none) :
    t.cluster.joinTokens = s.cluster.joinTokens := by
  rcases System.step_registered stepped same with filed | ⟨commit, others, entered, registered⟩
  · exact congrArg Registry.joinTokens filed
  cases registered with
  | same filed | imported _ filed | updated _ _ _ filed | discarded _ _ _ filed | joinedLocally _ _ filed
  | deleted _ filed | registered _ _ _ filed => exact congrArg Registry.joinTokens filed
  | issued id tokenHash now filed =>
    obtain rfl := entered.label_of_direct rfl
    cases created
  | joined node tokenHash credentialHash now token accepted filed =>
    obtain rfl := entered.label_of_direct rfl
    cases asked

theorem create_step {s t : System} {id : Uuid} {tokenHash : String} {now : Nat}
    (stepped : s.step (.client (.createJoinToken id tokenHash now)) = some t) :
    t.cluster = (createJoinToken id tokenHash now s.cluster).cluster ∧ id ∉ s.issued ∧
      id ∈ t.issued := by
  simp only [System.step] at stepped
  split_ifs at stepped with refused
  simp only [Bool.or_eq_true, Bool.not_eq_true', not_or, Bool.not_eq_true,
    Bool.not_eq_false] at refused
  have fresh := refused.2
  simp only [System.allows, Commit.issues, Bool.and_eq_true, List.all_cons,
    decide_eq_true_eq] at fresh
  obtain rfl := Option.some.inj stepped
  exact ⟨rfl, fresh.1.1.1, by simp [System.perform, Commit.run, Commit.issues]⟩

/-- `join_cluster` refuses, or it uses a token and goes on to save the cluster. -/
theorem join_step {s t : System} {node : Uuid} {tokenHash credentialHash : String} {now : Nat}
    (stepped : s.step (.client (.joinCluster node tokenHash credentialHash now)) = some t) :
    (t.cluster = s.cluster ∧ t.inflight = s.inflight) ∨
      ∃ token, s.cluster.joinTokens.values.find? (acceptable now tokenHash) = some token ∧
        t.cluster.joinTokens =
          s.cluster.joinTokens.adjust token.id (fun token => { token with usedAtMs := some now })
            (fun _ => rfl) ∧
        t.inflight = s.inflight ++ [.running [.saveCluster, .unlock] (.credentials node)] := by
  simp only [System.step] at stepped
  split_ifs at stepped
  obtain rfl := Option.some.inj stepped
  unfold System.perform
  cases ran : (Commit.joinCluster node tokenHash credentialHash now).run s.cluster with
  | error error => exact .inl ⟨rfl, rfl⟩
  | ok result =>
    obtain ⟨token, accepted, rfl⟩ := joinCluster_eq_ok ran
    exact .inr ⟨token, accepted, rfl, rfl⟩

/-- The calls of a handler that has made a join. -/
theorem op_step {s t : System} {index : Nat} {ops : List Op} {reply : Reply} {succeeds : Bool}
    (there : s.inflight[index]? = some (.running ops reply))
    (shape : ops = [.saveCluster, .unlock] ∨ ops = [.unlock] ∨ ops = [])
    (stepped : s.step (.op index succeeds) = some t) :
    t.inflight = s.inflight.eraseIdx index ∨
      ∃ rest, t.inflight = s.inflight.set index (.running rest reply) ∧
        (ops = [.saveCluster, .unlock] ∧ rest = [.unlock] ∧
            t.database.cluster = some { s.cluster with executions := ∅ } ∨
          ops = [.unlock] ∧ rest = []) := by
  simp only [System.step, there] at stepped
  rcases shape with rfl | rfl | rfl
  · cases succeeds <;> simp only [System.callOp, System.runOp, Bool.false_eq_true,
      if_true, if_false,
      Option.some.injEq] at stepped <;> obtain rfl := stepped
    · exact .inl rfl
    · exact .inr ⟨_, rfl, .inl ⟨rfl, rfl, rfl⟩⟩
  · cases succeeds <;> simp only [System.callOp, System.runOp, Bool.false_eq_true,
      if_true, if_false,
      Option.some.injEq, reduceCtorEq] at stepped
    obtain rfl := stepped
    exact .inr ⟨_, rfl, .inr ⟨rfl, rfl⟩⟩
  · exact .inl (Option.some.inj stepped ▸ rfl)

theorem stored_step {s t : System} {label : Label} {tokenHash : String}
    (stepped : s.step label = some t)
    (same : System.restarts label = false) (stored : StoredSpent tokenHash s.database)
    (spent : Spent tokenHash s.cluster.joinTokens) : StoredSpent tokenHash t.database := by
  intro c saved
  rcases System.step_saved stepped same with kept | ⟨_, _, _, _, _, now⟩
  · exact stored c (kept ▸ saved)
  · obtain rfl := Option.some.inj (now.symm.trans saved)
    exact spent

theorem Serves.step {s t : System} {label : Label} {join : Join} {frame : Frame}
    (serves : Serves s.database join frame)
    (stepped : s.step label = some t) (same : System.restarts label = false)
    (spent : Spent join.tokenHash s.cluster.joinTokens) : Serves t.database join frame := by
  obtain ⟨ops, shape, waits | ⟨later, stored⟩⟩ := serves
  · exact ⟨ops, shape, .inl waits⟩
  · exact ⟨ops, shape, .inr ⟨later, stored_step stepped same stored spent⟩⟩

/-- The step, seen from the history. -/
theorem step_cases {w w' : Watched} {label : Label} (stepped : w.step label = some w') :
    ∃ t, w.system.step label = some t ∧
      w' = ⟨t, w.follow label t, w.grants label ++ w.granted, creates label ++ w.created⟩ := by
  obtain ⟨t, moved, rfl⟩ := Option.map_eq_some_iff.mp stepped
  exact ⟨t, moved, rfl⟩

omit [Crates] in
theorem Faithful.inside {w : Watched} (faithful : Faithful w) {i : Nat} {frame : Frame}
    (there : w.system.inflight[i]? = some frame) : i < w.serving.length := by
  rw [faithful.length]
  exact (List.getElem?_eq_some_iff.mp there).1

omit [Crates] in
/-- Handlers before their section have made no join. -/
theorem Faithful.unserved {w : Watched} (faithful : Faithful w) {i : Nat} {frame : Frame}
    (there : w.system.inflight[i]? = some frame) (early : ∀ ops reply, frame ≠ .running ops reply) :
    w.serving[i]? = some none := by
  have inside := faithful.inside there
  cases served : w.serving[i] with
  | none => rw [List.getElem?_eq_getElem inside, served]
  | some join =>
    obtain ⟨other, found, ops, running, -⟩ :=
      faithful.serves i join (by rw [List.getElem?_eq_getElem inside, served])
    obtain rfl := Option.some.inj (there.symm.trans found)
    exact absurd running (early _ _)

theorem Faithful.length_step {w : Watched} {label : Label} {t : System} (faithful : Faithful w)
    (stepped : w.system.step label = some t) : (w.follow label t).length = t.inflight.length := by
  have shifts := System.step_shifts stepped
  have same := faithful.length
  have erased {i : Nat} {frame : Frame} (there : w.system.inflight[i]? = some frame) :
      (w.system.inflight.eraseIdx i).length + 1 = w.system.inflight.length ∧
        (w.serving.eraseIdx i).length + 1 = w.serving.length := by
    have inside := (List.getElem?_eq_some_iff.mp there).1
    rw [List.length_eraseIdx_of_lt inside, List.length_eraseIdx_of_lt (faithful.inside there)]
    omega
  cases label with
  | client | authenticate | checkEnvironment | checkImport =>
    rcases shifts with kept | ⟨frame, grown⟩
    · simp [follow, kept, same]
    · simp [follow, grown, same]
  | enter index input =>
    obtain ⟨⟨frame, there, -⟩, kept | ⟨new, kept⟩⟩ := shifts
    · have lengths := erased there
      simp only [follow, kept]
      split_ifs <;> omega
    · have lengths := erased there
      simp only [follow, kept, List.length_append, List.length_singleton]
      split_ifs
      · omega
      · simp only [List.length_append, List.length_singleton]
        omega
  | prepare index event =>
    obtain ⟨⟨job, there⟩, kept | ⟨new, kept⟩⟩ := shifts
    · have lengths := erased there
      simp only [follow, kept]
      split_ifs <;> omega
    · simp [follow, kept, same]
  | op index succeeds =>
    obtain ⟨⟨ops, reply, there⟩, kept | ⟨_, _, kept⟩⟩ := shifts
    · have lengths := erased there
      simp only [follow, kept]
      split_ifs <;> omega
    · simp [follow, kept, same]
  | restart fresh now =>
    have none_left : t.inflight = [] := shifts
    simp [follow, none_left]
  | uploadWorkingDir | prune | updateSettings =>
    have kept : t.inflight = w.system.inflight := shifts
    simp [follow, kept, same]

/-- After a step, a handler that has made a join is one from before, in its place, or the one that
has just made it. -/
theorem Faithful.serves_step {w : Watched} {label : Label} {t : System} (faithful : Faithful w)
    (stepped : w.system.step label = some t) (same : System.restarts label = false)
    (i : Nat) (join : Join)
    (served : (w.follow label t)[i]? = some (some join)) :
    ∃ frame, t.inflight[i]? = some frame ∧ Serves t.database join frame := by
  have shifts := System.step_shifts stepped
  have before {k : Nat} (found : w.serving[k]? = some (some join)) :
      ∃ frame, w.system.inflight[k]? = some frame ∧ Serves t.database join frame := by
    obtain ⟨frame, there, serves⟩ := faithful.serves k join found
    refine ⟨frame, there, serves.step stepped same (faithful.spent join ?_)⟩
    exact List.mem_append_left _
      (List.mem_filterMap.mpr ⟨some join, List.mem_of_getElem? found, rfl⟩)
  have erased (index k : Nat) (found : (w.serving.eraseIdx index)[k]? = some (some join)) :
      ∃ frame, (w.system.inflight.eraseIdx index)[k]? = some frame ∧
        Serves t.database join frame := by
    rw [List.getElem?_eraseIdx] at found ⊢
    split_ifs at found ⊢ <;> exact before found
  -- A handler that has just joined the others stands behind them.
  have behind {frames : List Frame} {serving : List (Option Join)} {new : Frame}
    {asked : Option Join}
      (equal : serving.length = frames.length)
      (earlier : ∀ k : Nat, serving[k]? = some (some join) →
        ∃ frame, frames[k]? = some frame ∧ Serves t.database join frame)
      (grown : t.inflight = frames ++ [new]) (found : (serving ++ [asked])[i]? = some (some join))
      (serves : asked = some join → Serves t.database join new) :
      ∃ frame, t.inflight[i]? = some frame ∧ Serves t.database join frame := by
    rw [List.getElem?_append] at found
    rw [grown, List.getElem?_append, ← equal]
    split_ifs at found ⊢
    · exact earlier i found
    · obtain ⟨inside, same⟩ := List.getElem?_eq_some_iff.mp found
      simp only [List.length_singleton, Nat.lt_one_iff] at inside
      simp only [inside, List.getElem_singleton] at same
      exact ⟨new, by simp [inside], serves same⟩
  have shorter {index : Nat} {frame : Frame} (there : w.system.inflight[index]? = some frame) :
      (w.system.inflight.eraseIdx index).length < w.system.inflight.length := by
    have inside := (List.getElem?_eq_some_iff.mp there).1
    rw [List.length_eraseIdx_of_lt inside]
    omega
  cases label with
  | client commit =>
    rcases shifts with kept | ⟨new, grown⟩
    · simp only [follow, kept, lt_irrefl, if_false] at served
      exact kept ▸ before served
    · simp only [follow, grown, List.length_append, List.length_singleton, Nat.lt_succ_self,
        if_true] at served
      refine behind faithful.length (fun k => before) grown served (fun asked => ?_)
      cases commit with
      | joinCluster node tokenHash credentialHash now =>
        obtain rfl := Option.some.inj asked
        rcases join_step stepped with ⟨-, kept⟩ | ⟨token, -, -, joined⟩
        · simp [grown] at kept
        · obtain rfl : new = _ := by simpa [grown] using joined
          exact ⟨_, rfl, .inl rfl⟩
      | _ => cases asked
  | authenticate | checkEnvironment | checkImport =>
    rcases shifts with kept | ⟨new, grown⟩
    · simp only [follow, kept, lt_irrefl, if_false] at served
      exact kept ▸ before served
    · simp only [follow, grown, List.length_append, List.length_singleton, Nat.lt_succ_self,
        if_true] at served
      exact behind faithful.length (fun k => before) grown served (fun asked => by cases asked)
  | enter index input =>
    obtain ⟨⟨frame, there, early⟩, kept | ⟨new, grown⟩⟩ := shifts
    · simp only [follow, kept, shorter there, if_true] at served
      exact kept ▸ erased index i served
    · have inside := faithful.inside there
      have equal : (w.serving.eraseIdx index).length =
        (w.system.inflight.eraseIdx index).length := by
        rw [List.length_eraseIdx_of_lt inside,
          List.length_eraseIdx_of_lt (faithful.length ▸ inside), faithful.length]
      have whole : ¬ t.inflight.length < w.system.inflight.length := by
        rw [grown, List.length_append, List.length_singleton,
          List.length_eraseIdx_of_lt (faithful.length ▸ inside)]
        omega
      simp only [follow, whole, if_false] at served
      exact behind equal (erased index) grown served (fun asked => by cases asked)
  | prepare index event =>
    obtain ⟨⟨job, there⟩, kept | ⟨new, kept⟩⟩ := shifts
    · simp only [follow, kept, shorter there, if_true] at served
      exact kept ▸ erased index i served
    · simp only [follow, kept, List.length_set, lt_irrefl, if_false] at served
      have differ : index ≠ i := by
        rintro rfl
        rw [faithful.unserved there (fun ops reply same => by cases same)] at served
        cases served
      rw [kept, List.getElem?_set_ne differ]
      exact before served
  | op index succeeds =>
    obtain ⟨⟨ops, reply, there⟩, kept | ⟨_, _, kept⟩⟩ := shifts
    · simp only [follow, kept, shorter there, if_true] at served
      exact kept ▸ erased index i served
    · have whole : t.inflight.length = w.system.inflight.length := by rw [kept, List.length_set]
      simp only [follow, whole, lt_irrefl, if_false] at served
      by_cases own : index = i
      · subst own
        obtain ⟨frame, found, made, running, shape⟩ := faithful.serves index join served
        obtain rfl := Option.some.inj (there.symm.trans found)
        obtain ⟨rfl, rfl⟩ := Frame.running.inj running
        have inside := (List.getElem?_eq_some_iff.mp there).1
        have spent : Spent join.tokenHash w.system.cluster.joinTokens := faithful.spent join
          (List.mem_append_left _ (List.mem_filterMap.mpr ⟨some join,
            List.mem_of_getElem? served, rfl⟩))
        rcases op_step there (shape.imp_right And.left) stepped with gone | ⟨rest, moved, called⟩
        · have less := shorter there
          rw [← gone, whole] at less
          exact absurd less (lt_irrefl _)
        · refine ⟨_, by rw [moved, List.getElem?_set_self inside], rest, rfl, ?_⟩
          rcases called with ⟨-, rfl, saved⟩ | ⟨rfl, rfl⟩
          · refine .inr ⟨.inl rfl, fun c stored => ?_⟩
            obtain rfl := Option.some.inj (saved.symm.trans stored)
            exact spent
          · have stored := (shape.resolve_left (fun same => by cases same)).2
            exact .inr ⟨.inr rfl, stored_step stepped same stored spent⟩
      · rw [kept, List.getElem?_set_ne own]
        exact before served
  | restart => cases same
  | uploadWorkingDir | prune | updateSettings =>
    have kept : t.inflight = w.system.inflight := shifts
    simp only [follow] at served
    exact kept ▸ before served

omit [Crates] in
theorem grants_cases (w : Watched) (label : Label) :
    w.grants label = [] ∨ ∃ index succeeds node join, label = .op index succeeds ∧
      w.system.inflight[index]? = some (.running [] (.credentials node)) ∧
        w.serving[index]? = some (some join) ∧
      w.grants label = [join] := by
  cases label with
  | op index succeeds =>
    simp only [grants]
    split
    · rename_i node join there served
      exact .inr ⟨index, succeeds, node, join, rfl, there, served, rfl⟩
    · exact .inl rfl
  | _ => exact .inl rfl

/-- The joins after a step: one more when a token is used, else none that was not there. -/
theorem joins_step {w : Watched} {label : Label} {t : System}
    (stepped : w.system.step label = some t) :
    (∃ node tokenHash credentialHash now token,
      label = .client (.joinCluster node tokenHash credentialHash now) ∧
      w.system.cluster.joinTokens.values.find? (acceptable now tokenHash) = some token ∧
      t.cluster.joinTokens = w.system.cluster.joinTokens.adjust token.id
        (fun token => { token with usedAtMs := some now }) (fun _ => rfl) ∧
      (((w.follow label t).filterMap (fun join => join)) ++ (w.grants label ++ w.granted)).Perm
        (⟨node, tokenHash, now⟩ :: w.joins)) ∨
    (((w.follow label t).filterMap (fun join => join)) ++
      (w.grants label ++ w.granted)).Subperm w.joins := by
  have shifts := System.step_shifts stepped
  have ungranted (plain : w.grants label = []) (fewer : (w.follow label t).Sublist w.serving) :
      (((w.follow label t).filterMap (fun join => join)) ++
        (w.grants label ++ w.granted)).Subperm w.joins := by
    rw [plain, List.nil_append]
    exact ((fewer.filterMap _).append (List.Sublist.refl _)).subperm
  have unasked (serving : List (Option Join)) (plain : w.grants label = [])
    (fewer : serving.Sublist w.serving)
      (grown : w.follow label t = serving ++ [none]) :
      (((w.follow label t).filterMap (fun join => join)) ++
        (w.grants label ++ w.granted)).Subperm w.joins := by
    rw [plain, List.nil_append, grown, List.filterMap_append]
    simpa [joins] using ((fewer.filterMap (fun join => join)).append
      (List.Sublist.refl w.granted)).subperm
  have erasing (index : Nat) : (w.serving.eraseIdx index).Sublist w.serving :=
    List.eraseIdx_sublist _ _
  cases label with
  | client commit =>
    rcases shifts with kept | ⟨new, grown⟩
    · exact .inr (ungranted rfl (by simp [follow, kept]))
    · have follows : w.follow (.client commit) t = w.serving ++ [commit.join] := by
        simp [follow, grown]
      cases asked : commit.join with
      | none => exact .inr (unasked w.serving rfl (List.Sublist.refl _) (by rw [follows, asked]))
      | some join =>
        cases commit with
        | joinCluster node tokenHash credentialHash now =>
          obtain rfl := Option.some.inj asked
          rcases join_step stepped with ⟨-, kept⟩ | ⟨token, accepted, used, -⟩
          · simp [grown] at kept
          · refine .inl ⟨node, tokenHash, credentialHash, now, token, rfl, accepted, used, ?_⟩
            rw [follows, asked, List.filterMap_append, List.append_assoc]
            exact List.perm_middle
        | _ => cases asked
  | authenticate | checkEnvironment | checkImport =>
    rcases shifts with kept | ⟨new, grown⟩
    · exact .inr (ungranted rfl (by simp [follow, kept]))
    · exact .inr (unasked w.serving rfl (List.Sublist.refl _) (by simp [follow, grown]))
  | enter index input =>
    by_cases less : t.inflight.length < w.system.inflight.length
    · exact .inr (ungranted rfl (by simp only [follow, less, if_true, erasing]))
    · exact .inr (unasked _ rfl (erasing index) (by simp only [follow, less, if_false]))
  | prepare index event =>
    refine .inr (ungranted rfl ?_)
    simp only [follow]
    split_ifs
    · exact erasing index
    · exact List.Sublist.refl _
  | op index succeeds =>
    refine .inr ?_
    rcases w.grants_cases (.op index succeeds) with plain | ⟨_, _, node, join, same, there,
      served, granted⟩
    · refine ungranted plain ?_
      simp only [follow]
      split_ifs
      · exact erasing index
      · exact List.Sublist.refl _
    · obtain ⟨rfl, rfl⟩ := Label.op.inj same
      have inside := (List.getElem?_eq_some_iff.mp there).1
      have gone : t.inflight = w.system.inflight.eraseIdx index := by
        rcases op_step there (.inr (.inr rfl)) stepped with gone | ⟨rest, -,
          ⟨other, -⟩ | ⟨other, -⟩⟩
        · exact gone
        · cases other
        · cases other
      have less : t.inflight.length < w.system.inflight.length := by
        rw [gone, List.length_eraseIdx_of_lt inside]
        omega
      obtain ⟨held, own⟩ := List.getElem?_eq_some_iff.mp served
      have moved := ((List.getElem_cons_eraseIdx_perm held).filterMap (fun join =>
        join)).append_right w.granted
      rw [own] at moved
      simp only [follow, less, if_true, granted, List.singleton_append]
      exact (List.perm_middle.trans moved).subperm
  | restart => exact .inr (ungranted rfl (List.nil_sublist _))
  | uploadWorkingDir | prune | updateSettings => exact .inr (ungranted rfl (List.Sublist.refl _))

/-- What a step does to the tokens. -/
theorem tokens_step {s t : System} {label : Label} (stepped : s.step label = some t)
    (same : System.restarts label = false) :
    (creates label = [] ∧ t.cluster.joinTokens = s.cluster.joinTokens) ∨
      (∃ id tokenHash now, label = .client (.createJoinToken id tokenHash now) ∧
        t.cluster.joinTokens = (createJoinToken id tokenHash now s.cluster).cluster.joinTokens) ∨
      ∃ id now, creates label = [] ∧ t.cluster.joinTokens =
        s.cluster.joinTokens.adjust id (fun token => { token with usedAtMs := some now })
          (fun _ => rfl) := by
  have plain (created : creates label = []) (asked : asks label = none) :=
    Or.inl (b := (∃ id tokenHash now, label = .client (.createJoinToken id tokenHash now) ∧
        t.cluster.joinTokens = (createJoinToken id tokenHash now s.cluster).cluster.joinTokens) ∨
      ∃ id now, creates label = [] ∧ t.cluster.joinTokens =
        s.cluster.joinTokens.adjust id (fun token => { token with usedAtMs := some now })
          (fun _ => rfl))
      (And.intro created (tokens_same stepped same created asked))
  cases label with
  | client commit =>
    cases commit with
    | createJoinToken id tokenHash now =>
      exact .inr (.inl ⟨id, tokenHash, now, rfl,
        congrArg Cluster.joinTokens (create_step stepped).1⟩)
    | joinCluster node tokenHash credentialHash now =>
      rcases join_step stepped with ⟨kept, -⟩ | ⟨token, -, used, -⟩
      · exact .inl ⟨rfl, congrArg Cluster.joinTokens kept⟩
      · exact .inr (.inr ⟨token.id, now, rfl, used⟩)
    | _ => exact plain rfl rfl
  | _ => exact plain rfl rfl

theorem Spent.step {s t : System} {label : Label} {tokenHash : String}
    (spent : Spent tokenHash s.cluster.joinTokens)
    (stepped : s.step label = some t) (same : System.restarts label = false)
    (differ : ∀ token ∈ creates label, token.tokenHash ≠
      tokenHash) : Spent tokenHash t.cluster.joinTokens := by
  rcases tokens_step stepped same with ⟨-, kept⟩ | ⟨id, other, now, rfl,
    created⟩ | ⟨id, now, -, used⟩
  · rwa [kept]
  · rw [created]
    exact spent.create id now (differ _ List.mem_cons_self)
  · rw [used]
    exact spent.use id now

theorem Traced.step {s t : System} {label : Label} {created : List JoinToken}
    (traced : Traced created s.cluster.joinTokens) (stepped : s.step label = some t)
    (same : System.restarts label = false) : Traced
      (creates label ++ created) t.cluster.joinTokens := by
  rcases tokens_step stepped same with ⟨plain, kept⟩ | ⟨id, tokenHash, now, rfl, made⟩ | ⟨id,
    now, plain, used⟩
  · rwa [plain, kept]
  · rw [made]
    exact traced.create id tokenHash now
  · rw [plain, used]
    exact traced.use id now

/-- Each created token has a hash and an identifier of its own. -/
theorem Faithful.created_step {w : Watched} {label : Label} {t : System} (faithful : Faithful w)
    (distinct : w.Distinct label) (stepped : w.system.step label = some t) :
    ((creates label ++ w.created).map JoinToken.tokenHash).Nodup ∧
      ((creates label ++ w.created).map JoinToken.id).Nodup ∧
      ∀ made ∈ creates label ++ w.created, made.id ∈ t.issued := by
  have plain (none_made : creates label = []) :
      ((creates label ++ w.created).map JoinToken.tokenHash).Nodup ∧
        ((creates label ++ w.created).map JoinToken.id).Nodup ∧
        ∀ made ∈ creates label ++ w.created, made.id ∈ t.issued := by
    rw [none_made]
    exact ⟨faithful.hashes, faithful.ids, fun made member =>
      System.issued_mono stepped (faithful.issued made member)⟩
  cases label with
  | client commit =>
    cases commit with
    | createJoinToken id tokenHash now =>
      obtain ⟨-, fresh, issued⟩ := create_step stepped
      simp only [creates, List.singleton_append, List.map_cons, List.nodup_cons]
      refine ⟨⟨?_, faithful.hashes⟩, ⟨?_, faithful.ids⟩, ?_⟩
      · intro member
        obtain ⟨made, inside, equal⟩ := List.mem_map.mp member
        exact distinct _ List.mem_cons_self made inside equal
      · intro member
        obtain ⟨made, inside, equal⟩ := List.mem_map.mp member
        have known := faithful.issued made inside
        rw [equal] at known
        exact fresh known
      · intro made member
        rcases List.mem_cons.mp member with rfl | before
        · exact issued
        · exact System.issued_mono stepped (faithful.issued made before)
    | _ => exact plain rfl
  | _ => exact plain rfl

theorem Faithful.spent_step {w : Watched} {label : Label} {t : System} (faithful : Faithful w)
    (distinct : w.Distinct label) (stepped : w.system.step label = some t)
    (same : System.restarts label = false)
    {join : Join} (member : join ∈ w.joins) : Spent join.tokenHash t.cluster.joinTokens := by
  obtain ⟨made, inside, own, -⟩ := faithful.early join member
  refine Spent.step (faithful.spent join member) stepped same (fun token new equal => ?_)
  exact distinct token new made inside (own.trans equal.symm)

/-- A join that is answered with credentials was saved before. -/
theorem Faithful.stored_step {w : Watched} {label : Label} {t : System} (faithful : Faithful w)
    (stepped : w.system.step label = some t) (same : System.restarts label = false) {join : Join}
    (member : join ∈ w.grants label ++ w.granted) : StoredSpent join.tokenHash t.database := by
  rcases List.mem_append.mp member with new | before
  · rcases w.grants_cases label with plain | ⟨index, succeeds, node, other, rfl, there,
      served, granted⟩
    · rw [plain] at new
      cases new
    · rw [granted, List.mem_singleton] at new
      subst new
      obtain ⟨frame, found, ops, rfl, shape⟩ := faithful.serves index join served
      obtain ⟨rfl, -⟩ := Frame.running.inj (Option.some.inj (there.symm.trans found))
      have stored := (shape.resolve_left (fun same => by cases same)).2
      refine Watched.stored_step stepped same stored (faithful.spent join ?_)
      exact List.mem_append_left _
        (List.mem_filterMap.mpr ⟨some join, List.mem_of_getElem? served, rfl⟩)
  · exact Watched.stored_step stepped same (faithful.stored join before)
      (faithful.spent join (List.mem_append_right _ before))

theorem Faithful.step {w w' : Watched} {label : Label} (faithful : Faithful w)
    (distinct : w.Distinct label)
    (stepped : w.step label = some w') (same : System.restarts label = false) : Faithful w' := by
  obtain ⟨t, moved, rfl⟩ := step_cases stepped
  obtain ⟨hashes, ids, issued⟩ := faithful.created_step distinct moved
  have kept {join : Join} (member : join ∈ w.joins) : ∃ made ∈ creates label ++ w.created,
      made.tokenHash = join.tokenHash ∧ join.now < made.expiresAtMs := by
    obtain ⟨made, inside, own⟩ := faithful.early join member
    exact ⟨made, List.mem_append_right _ inside, own⟩
  have joins : (∀ join ∈ (⟨t, w.follow label t, w.grants label ++ w.granted,
    creates label ++ w.created⟩ : Watched).joins,
      Spent join.tokenHash t.cluster.joinTokens ∧ ∃ made ∈ creates label ++ w.created,
        made.tokenHash = join.tokenHash ∧ join.now < made.expiresAtMs) ∧
      ((⟨t, w.follow label t, w.grants label ++ w.granted,
        creates label ++ w.created⟩ : Watched).joins.map
        Join.tokenHash).Nodup := by
    rcases joins_step moved with ⟨node, tokenHash, credentialHash, now, token, rfl, accepted,
      used, perm⟩ | fewer
    · obtain ⟨present, -, early, own⟩ := accepted_of_find accepted
      refine ⟨fun join member => ?_, ?_⟩
      · rcases List.mem_cons.mp (perm.mem_iff.mp member) with rfl | before
        · obtain ⟨made, inside, -, hash, expires⟩ := faithful.traced token.id token present
          refine ⟨?_, made, inside, hash.trans own, expires ▸ early⟩
          rw [used]
          exact faithful.traced.spends faithful.hashes accepted
        · exact ⟨faithful.spent_step distinct moved same before, kept before⟩
      · refine ((perm.map Join.tokenHash).nodup_iff).mpr
          (List.nodup_cons.mpr ⟨fun member => ?_, faithful.once⟩)
        obtain ⟨join, before, equal⟩ := List.mem_map.mp member
        have refused := (faithful.spent join before).refuses now
        rw [equal, accepted] at refused
        cases refused
    · refine ⟨fun join member => ?_, ?_⟩
      · have before := fewer.subset member
        exact ⟨faithful.spent_step distinct moved same before, kept before⟩
      · obtain ⟨rest, perm, sublist⟩ := fewer
        exact ((perm.map Join.tokenHash).nodup_iff).mp (faithful.once.sublist (sublist.map _))
  refine ⟨faithful.length_step moved, faithful.serves_step moved same, fun join member =>
    (joins.1 join member).1,
    fun join member => faithful.stored_step moved same member, joins.2, fun join member =>
      (joins.1 join member).2,
    Traced.step faithful.traced moved same, fun c saved => ?_, hashes, ids, issued⟩
  rcases System.step_saved moved same with unchanged | ⟨_, _, _, _, _, now⟩
  · exact (faithful.storedTraced c (unchanged ▸ saved)).append _
  · obtain rfl := Option.some.inj (now.symm.trans saved)
    exact faithful.traced.append _

omit [Crates] in
theorem migrateLegacy_joinTokens (fresh : String → Uuid) (c : Cluster) :
    (System.migrateLegacy fresh c).joinTokens = c.joinTokens := by
  have folded (pools : List Pool) (d : Cluster) :
      (pools.foldl (System.migratePool fresh) d).joinTokens = d.joinTokens := by
    induction pools generalizing d with
    | nil => rfl
    | cons pool rest ih => exact ih _
  exact folded _ c

/-- A new process begins with the tokens that were saved last. -/
theorem restart_step {s t : System} {fresh : String → Uuid} {now : Nat}
    (stepped : s.step (.restart fresh now) = some t) :
    t.cluster.joinTokens = (s.database.cluster.getD Cluster.empty).joinTokens ∧
      t.database.cluster = some { t.cluster with executions := ∅ } ∧ t.inflight = [] ∧
      ∀ id ∈ s.issued, id ∈ t.issued := by
  simp only [System.step] at stepped
  split_ifs at stepped
  obtain ⟨⟨cluster, database⟩, served, rfl⟩ := Option.map_eq_some_iff.mp stepped
  simp only [System.serve, Option.map_eq_some_iff, Prod.mk.injEq] at served
  obtain ⟨pruned, kept, rfl, rfl⟩ := served
  refine ⟨migrateLegacy_joinTokens .., ?_, rfl, fun id known => List.mem_append_right _ known⟩
  exact System.prune_cluster kept

theorem Faithful.restart {w w' : Watched} {fresh : String → Uuid} {now : Nat}
    (faithful : Faithful w)
    (stepped : w.step (.restart fresh now) = some w') : Faithful w' := by
  obtain ⟨t, moved, rfl⟩ := step_cases stepped
  obtain ⟨tokens, saved, quiet, issued⟩ := restart_step moved
  have loaded : (∀ join ∈ w.granted, Spent join.tokenHash t.cluster.joinTokens) ∧
      Traced w.created t.cluster.joinTokens := by
    rw [tokens]
    cases stored : w.system.database.cluster with
    | none => exact ⟨fun _ _ _ _ present => (by cases present), fun _ _ present =>
        (by cases present)⟩
    | some c => exact ⟨fun join member =>
        faithful.stored join member c stored, faithful.storedTraced c stored⟩
  have before {join : Join} (member : join ∈ w.granted) : join ∈ w.joins :=
    List.mem_append_right _ member
  refine ⟨(by rw [quiet]; rfl), fun i join served => (by cases served), fun join member =>
    loaded.1 join member,
    fun join member c stored => ?_, faithful.once.sublist ((List.sublist_append_right _ _).map _),
    fun join member => faithful.early join (before member), loaded.2, fun c stored => ?_,
      faithful.hashes, faithful.ids,
    fun made member => issued made.id (faithful.issued made member)⟩
  · obtain rfl := Option.some.inj (saved.symm.trans stored)
    exact loaded.1 join member
  · obtain rfl := Option.some.inj (saved.symm.trans stored)
    exact loaded.2

/-- The history begins with a process on an empty database. -/
structure Begun (w : Watched) : Prop where
  blank : w.system.Blank
  serving : w.serving = []
  granted : w.granted = []
  created : w.created = []

omit [Crates] in
theorem Begun.faithful {w : Watched} (begun : Begun w) : Faithful w := by
  obtain ⟨⟨⟨empty, quiet⟩, unsaved⟩, serving, granted, created⟩ := begun
  constructor <;> simp only [joins, quiet, unsaved, serving, granted, created, empty]
  · rfl
  · intro i join served
    cases served
  · intro join member
    cases member
  · intro join member
    cases member
  · exact List.nodup_nil
  · intro join member
    cases member
  · intro id token present
    cases present
  · intro c stored
    cases stored
  · exact List.nodup_nil
  · exact List.nodup_nil
  · intro made member
    cases member

theorem Faithful.run {w w' : Watched} (faithful : Faithful w)
    (run : Runs.Reaches Watched.step Distinct w w') : Faithful w' := by
  refine run.invariant faithful ?_
  intro u v label faithful distinct stepped
  cases same : System.restarts label with
  | true =>
    cases label with
    | restart fresh now => exact faithful.restart stepped
    | _ => cases same
  | false => exact faithful.step distinct stepped same

/-- Through any interleaving, failed saves and restarts: each token is answered with credentials
once at most and before it expires; it is reported as pending exactly when it would be accepted;
after the answer it is refused for good, and in a process that has used it no step, the pruning of
old tokens included, makes it acceptable again. -/
theorem tokens_single_use {w t : Watched} (begun : Begun w) (run : Runs.Reaches step Distinct w t) :
    (t.granted.map Join.tokenHash).Nodup ∧
      (∀ join ∈ t.granted, ∃ made ∈ t.created, made.tokenHash = join.tokenHash ∧
        join.now < made.expiresAtMs) ∧
      (∀ made ∈ t.created, ∀ now node credentialHash, reportsPending made.id now t.system.cluster ↔
        ∃ result, joinCluster node made.tokenHash credentialHash now t.system.cluster =
          .ok result) ∧
      (∀ join ∈ t.granted, ∀ now node credentialHash result,
        joinCluster node join.tokenHash credentialHash now t.system.cluster ≠ .ok result) ∧
      ∀ u label, System.restarts label = false → t.Distinct label → t.step label = some u →
        ∀ made ∈ t.created, Spent made.tokenHash t.system.cluster.joinTokens →
          Spent made.tokenHash u.system.cluster.joinTokens := by
  have faithful := begun.faithful.run run
  have granted {join : Join} (member : join ∈ t.granted) : join ∈ t.joins :=
    List.mem_append_right _ member
  refine ⟨faithful.once.sublist ((List.sublist_append_right _ _).map _),
    fun join member => faithful.early join (granted member),
      fun made member now node credentialHash =>
      pending_iff_accepted faithful.traced faithful.hashes faithful.ids member now node
        credentialHash, ?_, ?_⟩
  · intro join member now node credentialHash result accepted
    obtain ⟨token, found, -⟩ := joinCluster_eq_ok accepted
    rw [(faithful.spent join (granted member)).refuses now] at found
    cases found
  · intro u label same distinct stepped made member spent
    obtain ⟨v, moved, rfl⟩ := step_cases stepped
    exact Spent.step spent moved same (fun token new equal =>
      distinct token new made member equal.symm)

omit [Crates] in
/-- The save of a first join fails, the controller restarts, and a second join with the same token is
answered. A third is refused. -/
theorem tokens_single_use_retried :
    ∃ t : Watched, t.granted.map Join.node = [22] ∧ (t.granted.map Join.tokenHash).Nodup ∧
      ∀ now node credentialHash result, joinCluster node "token" credentialHash now
        t.system.cluster ≠ .ok result := by
  obtain ⟨t, run, answered⟩ := Runs.exists_reaches
    (@Watched.step Demo.crates) Distinct ⟨Demo.empty, [], [], []⟩
    (Demo.request 0 (.createJoinToken 20 "token" 0) 2 ++
      [.client (.joinCluster 21 "token" "credential" 5), .op 0 false, .restart (fun _ => 7) 0] ++
      Demo.request 0 (.joinCluster 22 "token" "credential" 6) 2 ++
        [.client (.joinCluster 23 "token" "credential" 7)])
    (fun t => decide (t.granted.map Join.node = [22]) &&
      decide (t.granted.map Join.tokenHash = ["token"]))
    (by decide +kernel)
  simp only [Bool.and_eq_true, decide_eq_true_eq] at answered
  obtain ⟨once, -, -, refused, -⟩ :=
    @tokens_single_use Demo.crates _ _ ⟨⟨System.fresh_empty, rfl⟩, rfl, rfl, rfl⟩ run
  refine ⟨t, answered.1, once, fun now node credentialHash result => ?_⟩
  obtain ⟨join, member, equal⟩ := List.mem_map.mp (answered.2 ▸ List.mem_singleton_self "token" :
    "token" ∈ t.granted.map Join.tokenHash)
  exact equal ▸ refused join member now node credentialHash result

end Watched
end Scraperack
