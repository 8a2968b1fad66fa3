import Mathlib
import Scraperack.Runs

/-! One call of `executor_request` in a virtual machine. The guest passes a request on to its executor, and once
more when the first attempt fails, to the same executor or to one that it starts. -/

namespace Scraperack.Attempts

/-- A connection from the guest to an executor. -/
structure Connection where
  /-- It carries the request of this call. -/
  own : Bool
  /-- The bytes of that request that have arrived and are not read. -/
  sent : Nat
  answered : Bool
  broken : Bool

/-- Where the executor is with the connection that it has accepted. -/
inductive Stage where
  | header
  | body
  | handling (own : Bool)
  | running
  | responding
  deriving DecidableEq

structure Executor where
  listening : Bool
  queue : List Nat
  current : Option (Nat × Stage)

inductive Phase where
  | trying
  | sending
  | awaiting
  | done
  | raised
  deriving DecidableEq

structure Guest where
  /-- The executor process, while it lives. -/
  executor : Option Executor
  connections : List Connection
  /-- `executor_connection`. -/
  connection : Option Nat
  phase : Phase
  /-- The attempt is the second one. -/
  second : Bool
  /-- The length of the encoded payload. -/
  size : Nat
  /-- Ghost: how often the function of the payload has been started in this call. -/
  starts : Nat

inductive Label where
  | spawn
  | connect
  | reuse
  | send (bytes : Nat)
  /-- The length does not fit the header. -/
  | overflow
  | receive
  /-- The attempt raises an error: there is no executor to connect to, or the connection is broken. -/
  | fail
  | listen
  | accept
  | readHeader
  | readBody
  | start
  /-- The request has no function to start, or an exception comes before it. -/
  | skip
  | finish
  | respond
  | eof
  /-- The executor process dies. -/
  | die
  | breakOff (connection : Nat)

namespace Connection

def brokenOff (connection : Connection) : Connection := { connection with broken := true }

/-- The executor has died, and what it has not read is lost. -/
def lost (connection : Connection) : Connection := { connection with sent := 0, broken := true }

/-- The whole request is there to be read. -/
def complete (size : Nat) (connection : Connection) : Bool :=
  connection.own && decide (connection.sent = 4 + size)

end Connection

namespace Guest

/-- The executor goes on with what it has accepted. -/
def advance (s : Guest) (executor : Executor) (current : Option (Nat × Stage)) : Guest :=
  { s with executor := some { executor with current := current } }

def put (s : Guest) (id : Nat) (connection : Connection) : Guest :=
  { s with connections := s.connections.set id connection }

/-- The `except` branch: the connection is closed, and there may be another attempt. -/
def failed (s : Guest) : Guest :=
  { s with
    connections := (s.connection.map (fun id =>
      s.connections.modify id Connection.brokenOff)).getD s.connections
    connection := none
    phase := if s.second then .raised else .trying
    second := true }

/-- The connection in use. -/
def used (s : Guest) : Option (Nat × Connection) :=
  s.connection.bind (fun id => (s.connections[id]?).map (fun connection => (id, connection)))

/-- The connection that the executor has accepted. -/
def accepted (s : Guest) : Option (Executor × Nat × Stage × Connection) :=
  s.executor.bind (fun executor => executor.current.bind (fun current =>
    (s.connections[current.1]?).map (fun connection =>
      (executor, current.1, current.2, connection))))

def step (s : Guest) : Label → Option Guest
  | .spawn =>
    match s.phase, s.connection, s.executor with
    | .trying, none, none => some { s with executor := some ⟨false, [], none⟩ }
    | _, _, _ => none
  | .connect =>
    match s.phase, s.connection, s.executor with
    | .trying, none, some executor =>
      if executor.listening then
        some { s with
          executor := some { executor with queue := executor.queue ++ [s.connections.length] }
          connections := s.connections ++ [⟨true, 0, false, false⟩]
          connection := some s.connections.length
          phase := .sending }
      else none
    | _, _, _ => none
  | .reuse =>
    match s.phase, s.used with
    | .trying, some (id, connection) =>
      some { s.put id ⟨true, 0, false, connection.broken⟩ with phase := .sending }
    | _, _ => none
  | .send bytes =>
    match s.phase, s.used with
    | .sending, some (id, connection) =>
      if connection.broken = false ∧ s.size < 2 ^ 32 ∧ connection.sent + bytes ≤ 4 + s.size then
        some { s.put id { connection with sent := connection.sent + bytes } with
          phase := if connection.sent + bytes = 4 + s.size then .awaiting else .sending }
      else none
    | _, _ => none
  | .overflow => if s.phase = .sending ∧
      2 ^ 32 ≤ s.size then some { s with phase := .raised } else none
  | .receive =>
    match s.phase, s.used with
    | .awaiting, some (_, connection) =>
        if connection.answered then some { s with phase := .done } else none
    | _, _ => none
  | .fail =>
    match s.phase, s.used with
    | .trying, none => some s.failed
    | .sending, some (_, connection) | .awaiting, some (_, connection) =>
        if connection.broken then some s.failed else none
    | _, _ => none
  | .listen =>
    s.executor.bind (fun executor =>
      if executor.listening then none else some
        { s with executor := some { executor with listening := true } })
  | .accept =>
    s.executor.bind (fun executor =>
      match executor.current, executor.queue with
      | none, id :: rest => some (s.advance { executor with queue := rest } (some (id, .header)))
      | _, _ => none)
  | .readHeader =>
    match s.accepted with
    | some (executor, id, .header, connection) =>
      if connection.own → 4 ≤ connection.sent then some
        (s.advance executor (some (id, .body))) else none
    | _ => none
  | .readBody =>
    match s.accepted with
    | some (executor, id, .body, connection) =>
      if connection.own → connection.sent = 4 + s.size then
        some ((s.put id { connection with sent := 0 }).advance executor
          (some (id, .handling connection.own)))
      else none
    | _ => none
  | .start =>
    match s.accepted with
    | some (executor, id, .handling own, _) =>
      some { s.advance executor (some (id, .running)) with starts := s.starts + own.toNat }
    | _ => none
  | .skip =>
    match s.accepted with
    | some (executor, id, .handling _, _) => some (s.advance executor (some (id, .responding)))
    | _ => none
  | .finish =>
    match s.accepted with
    | some (executor, id, .running, _) => some (s.advance executor (some (id, .responding)))
    | _ => none
  | .respond =>
    match s.accepted with
    | some (executor, id, .responding, connection) =>
      if connection.broken then none
      else some ((s.put id { connection with answered := true }).advance executor
        (some (id, .header)))
    | _ => none
  | .eof =>
    match s.accepted with
    | some (executor, _, .header, connection) =>
      if connection.broken = true ∧ (connection.own → connection.sent < 4) then some
        (s.advance executor none) else none
    | some (executor, id, .body, connection) =>
      if connection.broken = true ∧ (connection.own → connection.sent ≠ 4 + s.size) then
        some (s.advance executor (some (id, .responding)))
      else none
    | _ => none
  | .die =>
    if s.executor.isSome then
      some { s with executor := none, connections := s.connections.map Connection.lost }
    else none
  | .breakOff id => some { s with connections := s.connections.modify id Connection.brokenOff }

/-- An executor handles the request of this call and has not come to its function. -/
def handling (s : Guest) : Bool :=
  s.executor.any (fun executor => executor.current.any (fun current =>
    decide (current.2 = .handling true)))

/-- The starts so far, and those that may still follow without another attempt to send the request. -/
def pending (s : Guest) : Nat :=
  s.starts + s.handling.toNat + s.connections.countP (Connection.complete s.size)

/-- The request is still to be sent. -/
def sends (s : Guest) : Bool := decide (s.phase = .trying ∨ s.phase = .sending)

/-- A first attempt that fails does so before an executor has started the function, or has the whole request. -/
def failsEarly (s : Guest) : Label → Bool
  | .fail => s.second || decide (s.pending = 0)
  | _ => true

/-- A call that begins. The guest and its executor may have any past. -/
structure Begins (s : Guest) : Prop where
  trying : s.phase = .trying
  first : s.second = false
  unstarted : s.starts = 0
  unhandled : s.handling = false
  others : ∀ connection ∈ s.connections, connection.own = false

end Guest

theorem countP_modify {p : Connection → Bool} {f : Connection → Connection}
    (same : ∀ connection, p (f connection) = p connection)
    (connections : List Connection) (id : Nat) : (connections.modify id f).countP p =
      connections.countP p := by
  induction connections generalizing id with
  | nil => cases id <;> rfl
  | cons connection rest ih =>
    cases id with
    | zero => simp [List.countP_cons, same]
    | succ id => simp [List.countP_cons, ih]

theorem countP_put {p : Connection → Bool} {connections : List Connection} {id : Nat}
    {old : Connection}
    (there : connections[id]? = some old) (connection : Connection) :
    (connections.set id connection).countP p + (p old).toNat = connections.countP p +
      (p connection).toNat := by
  obtain ⟨inside, rfl⟩ := List.getElem?_eq_some_iff.mp there
  have counted : (p connections[id]).toNat ≤ connections.countP p := by
    cases holds : p connections[id] with
    | false => exact Nat.zero_le _
    | true => exact List.countP_pos_iff.mpr ⟨_, List.getElem_mem inside, holds⟩
  rw [List.countP_set inside]
  cases holds : p connections[id] <;> cases p connection <;> simp_all

namespace Guest
variable {s t : Guest}

theorem used_eq_some {id : Nat} {connection : Connection} (used : s.used = some (id, connection)) :
    s.connections[id]? = some connection := by
  obtain ⟨key, -, found⟩ := Option.bind_eq_some_iff.mp used
  obtain ⟨other, there, same⟩ := Option.map_eq_some_iff.mp found
  cases same
  exact there

theorem accepted_eq_some {executor : Executor} {id : Nat} {stage : Stage} {connection : Connection}
    (accepted : s.accepted = some (executor, id, stage, connection)) :
    s.executor = some executor ∧ executor.current = some (id, stage) ∧
      s.connections[id]? = some connection := by
  obtain ⟨process, alive, found⟩ := Option.bind_eq_some_iff.mp accepted
  obtain ⟨current, at_stage, found⟩ := Option.bind_eq_some_iff.mp found
  obtain ⟨other, there, same⟩ := Option.map_eq_some_iff.mp found
  cases same
  exact ⟨alive, at_stage, there⟩

/-- The starts that are possible in this attempt. -/
def bound (s : Guest) : Nat := s.pending + s.sends.toNat

theorem handling_of_accepted {executor : Executor} {id : Nat} {stage : Stage}
    {connection : Connection}
    (accepted : s.accepted = some (executor, id, stage, connection)) : s.handling =
      decide (stage = .handling true) := by
  obtain ⟨alive, at_stage, -⟩ := accepted_eq_some accepted
  simp [handling, alive, at_stage]

/-- A step of the executor on its connection adds no possible start. -/
theorem advance_bound {executor : Executor} {id : Nat} {stage next : Stage}
    {connection : Connection} (after : Connection)
    (accepted : s.accepted = some (executor, id, stage, connection))
    (balance : (decide (next = .handling true)).toNat + (after.complete s.size).toNat ≤
      (decide (stage = .handling true)).toNat + (connection.complete s.size).toNat) :
    ((s.put id after).advance executor (some (id, next))).bound ≤ s.bound := by
  obtain ⟨alive, at_stage, there⟩ := accepted_eq_some accepted
  have count := countP_put (p := Connection.complete s.size) there after
  have now : ((s.put id after).advance executor (some (id, next))).handling =
    decide (next = .handling true) := by
    simp [handling, advance]
  unfold bound pending
  rw [now, handling_of_accepted accepted]
  change s.starts + _ + (s.connections.set id after).countP (Connection.complete s.size) +
    s.sends.toNat ≤ _
  omega

/-- The same, where the connection stays as it is. -/
theorem advance_bound_same {executor : Executor} {id : Nat} {stage next : Stage}
    {connection : Connection}
    (accepted : s.accepted = some (executor, id, stage, connection))
    (balance : (decide (next = .handling true)).toNat ≤ (decide (stage = .handling true)).toNat) :
    (s.advance executor (some (id, next))).bound ≤ s.bound := by
  obtain ⟨-, -, there⟩ := accepted_eq_some accepted
  have same : s.put id connection = s := by
    obtain ⟨inside, rfl⟩ := List.getElem?_eq_some_iff.mp there
    rw [put, List.set_getElem_self]
  simpa only [same] using advance_bound connection accepted (Nat.add_le_add_right balance _)

theorem advance_handling {executor : Executor} {current : Option (Nat × Stage)}
    (fewer : current.any (fun current => decide (current.2 = .handling true)) = false) :
    (s.advance executor current).bound ≤ s.bound := by
  have now : (s.advance executor current).handling = false := by
    rw [handling, advance, Option.any_some]
    exact fewer
  unfold bound pending
  rw [now]
  change s.starts + 0 + s.connections.countP (Connection.complete s.size) + s.sends.toNat ≤ _
  omega

theorem failed_pending (s : Guest) : s.failed.pending = s.pending := by
  have count (id : Nat) : (s.connections.modify id Connection.brokenOff).countP
    (Connection.complete s.size) =
      s.connections.countP (Connection.complete s.size) :=
    countP_modify (f := Connection.brokenOff) (fun _ => rfl) _ id
  have handled : s.failed.handling = s.handling := rfl
  unfold pending
  rw [handled]
  unfold failed
  cases s.connection with
  | none => rfl
  | some id => simp only [Option.map_some, Option.getD_some, count]

theorem failed_bound (early : s.failsEarly .fail = true)
    (within : s.bound ≤ 1) : s.failed.bound ≤ 1 := by
  unfold bound at within ⊢
  rw [failed_pending]
  cases again : s.second with
  | true =>
    have ended : s.failed.sends = false := by simp [sends, failed, again]
    rw [ended]
    exact Nat.le_trans (Nat.le_add_right _ _) within
  | false =>
    simp only [failsEarly, again, Bool.false_or, decide_eq_true_eq] at early
    have most := Bool.toNat_le s.failed.sends
    omega

/-- The executor dies: what it has started has been counted, and nothing else can follow. -/
theorem lost_bound (s : Guest) :
    ({ s with executor := none, connections := s.connections.map Connection.lost } : Guest).bound ≤
      s.bound := by
  have none : (s.connections.map Connection.lost).countP (Connection.complete s.size) = 0 := by
    refine List.countP_eq_zero.mpr fun connection member => ?_
    obtain ⟨old, -, rfl⟩ := List.mem_map.mp member
    intro whole
    have read : 0 = 4 + s.size := of_decide_eq_true ((Bool.and_eq_true_iff.mp whole).2)
    omega
  unfold bound pending
  change s.starts + 0 + (s.connections.map Connection.lost).countP (Connection.complete s.size) +
    s.sends.toNat ≤ _
  omega

/-- A step of the guest on its connection. -/
theorem put_bound {id : Nat} {connection after : Connection} {phase : Phase}
    (there : s.connections[id]? = some connection)
    (balance : (after.complete s.size).toNat + (decide (phase = .trying ∨ phase = .sending)).toNat ≤
      (connection.complete s.size).toNat + s.sends.toNat) :
    ({ s.put id after with phase := phase } : Guest).bound ≤ s.bound := by
  have count := countP_put (p := Connection.complete s.size) there after
  unfold bound pending
  change s.starts + s.handling.toNat +
    (s.connections.set id after).countP (Connection.complete s.size) +
    (decide (phase = .trying ∨ phase = .sending)).toNat ≤ _
  omega

theorem connected_bound (s : Guest) (executor executor' : Option Executor) (connection : Option Nat)
    (trying : s.phase = .trying) (alive : s.executor = executor)
    (current : executor'.bind Executor.current = executor.bind Executor.current) :
    ({ s with
        executor := executor'
        connections := s.connections ++ [⟨true, 0, false, false⟩]
        connection := connection
        phase := .sending } : Guest).bound ≤ s.bound := by
  have waits : s.sends = true := decide_eq_true (.inl trying)
  have empty : Connection.complete s.size ⟨true, 0, false, false⟩ = false := by
    simp only [Connection.complete, Bool.true_and, decide_eq_false_iff_not]
    omega
  have handled (e : Option Executor) : e.any (fun executor => executor.current.any (fun current =>
      decide (current.2 = .handling true))) =
        (e.bind Executor.current).any (fun current => decide (current.2 = .handling true)) := by
    cases e <;> rfl
  have same : executor'.any (fun executor =>
    executor.current.any (fun current => decide (current.2 = .handling true))) =
      s.handling := by
    rw [handled, current, ← alive, ← handled, handling]
  unfold bound pending
  rw [waits]
  change s.starts + (executor'.any _).toNat +
    (s.connections ++ [_]).countP (Connection.complete s.size) + 1 ≤ _
  rw [same, List.countP_append, List.countP_singleton, empty]
  exact Nat.le_refl _

/-- Bytes of the request are sent; the last of them may make it whole. -/
theorem sent_bound {id bytes : Nat} {connection : Connection} (sending : s.phase = .sending)
    (used : s.used = some (id, connection)) :
    ({ s.put id { connection with sent := connection.sent + bytes } with
        phase := if connection.sent + bytes = 4 + s.size then .awaiting else .sending } :
          Guest).bound ≤ s.bound := by
  refine put_bound (used_eq_some used) ?_
  have waits : s.sends = true := decide_eq_true (.inr sending)
  rw [waits]
  split_ifs with whole
  · have most := Bool.toNat_le
      (Connection.complete s.size { connection with sent := connection.sent + bytes })
    change _ + 0 ≤ _ + 1
    omega
  · have part : Connection.complete s.size
        { connection with sent := connection.sent + bytes } = false := by
      simp [Connection.complete, whole]
    rw [part]
    exact Nat.le_add_left _ _

/-- A connection that is used again has no request on it. -/
theorem reused_bound {id : Nat} {connection : Connection} (trying : s.phase = .trying)
    (used : s.used = some (id, connection)) :
    ({ s.put id ⟨true, 0, false, connection.broken⟩ with phase := .sending } : Guest).bound ≤
      s.bound := by
  refine put_bound (used_eq_some used) ?_
  have waits : s.sends = true := decide_eq_true (.inl trying)
  have empty : Connection.complete s.size ⟨true, 0, false, connection.broken⟩ = false := by
    simp only [Connection.complete, Bool.true_and, decide_eq_false_iff_not]
    omega
  rw [waits, empty]
  exact Nat.le_add_left _ _

/-- What has been read is handled, and is not to be read again. -/
theorem read_bound {executor : Executor} {id : Nat} {connection : Connection}
    (accepted : s.accepted = some (executor, id, .body, connection))
    (whole : connection.own → connection.sent = 4 + s.size) :
    ((s.put id { connection with sent := 0 }).advance executor
      (some (id, .handling connection.own))).bound ≤ s.bound := by
  refine advance_bound _ accepted ?_
  have read : Connection.complete s.size { connection with sent := 0 } = false := by
    simp only [Connection.complete, Bool.and_eq_false_iff, decide_eq_false_iff_not]
    exact .inr (by omega)
  rw [read]
  cases own : connection.own with
  | false => simp
  | true => simp [Connection.complete, own, whole own]

/-- What was handled is started. -/
theorem start_bound {executor : Executor} {id : Nat} {own : Bool} {connection : Connection}
    (accepted : s.accepted = some (executor, id, .handling own, connection)) :
    ({ s.advance executor (some (id, .running)) with starts := s.starts + own.toNat } :
      Guest).bound ≤ s.bound := by
  unfold bound pending
  rw [handling_of_accepted accepted]
  change s.starts + own.toNat + 0 + s.connections.countP (Connection.complete s.size) +
    s.sends.toNat ≤ _
  cases own <;> simp

theorem broken_bound (s : Guest) (id : Nat) :
    ({ s with connections := s.connections.modify id Connection.brokenOff } : Guest).bound =
      s.bound := by
  have count : (s.connections.modify id Connection.brokenOff).countP (Connection.complete s.size) =
      s.connections.countP (Connection.complete s.size) :=
    countP_modify (f := Connection.brokenOff) (fun _ => rfl) _ id
  unfold bound pending
  change s.starts + s.handling.toNat + (s.connections.modify id Connection.brokenOff).countP
    (Connection.complete s.size) + s.sends.toNat = _
  rw [count]

theorem fail_eq (stepped : s.step .fail = some t) : t = s.failed := by
  simp only [step] at stepped
  split at stepped
  · exact (Option.some.inj stepped).symm
  · split_ifs at stepped
    exact (Option.some.inj stepped).symm
  · split_ifs at stepped
    exact (Option.some.inj stepped).symm
  · cases stepped

/-- No step but a failure adds a possible start. -/
theorem bound_le {label : Label} (unfailing : label ≠ .fail) (stepped : s.step label = some t) :
    t.bound ≤ s.bound := by
  cases label with
  | spawn =>
    simp only [step] at stepped
    split at stepped
    · rename_i trying absent dead
      obtain rfl := Option.some.inj stepped
      have idle : s.handling = false := by simp [handling, dead]
      unfold bound pending
      rw [idle]
      exact Nat.le_refl _
    · cases stepped
  | connect =>
    simp only [step] at stepped
    split at stepped
    · rename_i executor trying absent alive
      split_ifs at stepped
      obtain rfl := Option.some.inj stepped
      exact s.connected_bound (some executor) _ _ trying alive rfl
    · cases stepped
  | reuse =>
    simp only [step] at stepped
    split at stepped
    · rename_i trying used
      obtain rfl := Option.some.inj stepped
      exact reused_bound trying used
    · cases stepped
  | send bytes =>
    simp only [step] at stepped
    split at stepped
    · rename_i sending used
      obtain ⟨-, sent⟩ := Option.ite_none_right_eq_some.mp stepped
      obtain rfl := Option.some.inj sent
      exact sent_bound sending used
    · cases stepped
  | overflow =>
    simp only [step] at stepped
    split_ifs at stepped
    obtain rfl := Option.some.inj stepped
    exact Nat.le_add_right s.pending _
  | receive =>
    simp only [step] at stepped
    split at stepped
    · split_ifs at stepped
      obtain rfl := Option.some.inj stepped
      exact Nat.le_add_right s.pending _
    · cases stepped
  | fail => exact absurd rfl unfailing
  | listen =>
    obtain ⟨executor, alive, listens⟩ := Option.bind_eq_some_iff.mp stepped
    split_ifs at listens
    obtain rfl := Option.some.inj listens
    have same : s.handling = executor.current.any (fun current =>
        decide (current.2 = .handling true)) := by
      rw [handling, alive, Option.any_some]
    unfold bound pending
    rw [same]
    exact Nat.le_refl _
  | accept =>
    obtain ⟨executor, alive, accepts⟩ := Option.bind_eq_some_iff.mp stepped
    split at accepts
    · obtain rfl := Option.some.inj accepts
      exact advance_handling rfl
    · cases accepts
  | readHeader =>
    simp only [step] at stepped
    split at stepped
    · rename_i accepted
      split_ifs at stepped
      obtain rfl := Option.some.inj stepped
      exact advance_bound_same accepted (Nat.le_refl _)
    · cases stepped
  | readBody =>
    simp only [step] at stepped
    split at stepped
    · rename_i accepted
      split_ifs at stepped with whole
      obtain rfl := Option.some.inj stepped
      exact read_bound accepted whole
    · cases stepped
  | start =>
    simp only [step] at stepped
    split at stepped
    · rename_i accepted
      obtain rfl := Option.some.inj stepped
      exact start_bound accepted
    · cases stepped
  | skip =>
    simp only [step] at stepped
    split at stepped
    · rename_i accepted
      obtain rfl := Option.some.inj stepped
      exact advance_bound_same accepted (Nat.zero_le _)
    · cases stepped
  | finish =>
    simp only [step] at stepped
    split at stepped
    · rename_i accepted
      obtain rfl := Option.some.inj stepped
      exact advance_bound_same accepted (Nat.zero_le _)
    · cases stepped
  | respond =>
    simp only [step] at stepped
    split at stepped
    · rename_i accepted
      split_ifs at stepped
      obtain rfl := Option.some.inj stepped
      exact advance_bound _ accepted (Nat.le_refl _)
    · cases stepped
  | eof =>
    simp only [step] at stepped
    split at stepped
    · split_ifs at stepped
      obtain rfl := Option.some.inj stepped
      exact advance_handling rfl
    · split_ifs at stepped
      obtain rfl := Option.some.inj stepped
      exact advance_handling rfl
    · cases stepped
  | die =>
    simp only [step] at stepped
    split_ifs at stepped
    obtain rfl := Option.some.inj stepped
    exact lost_bound s
  | breakOff id =>
    obtain rfl := Option.some.inj stepped
    exact Nat.le_of_eq (broken_bound s id)

theorem step_bound {label : Label} (early : s.failsEarly label = true)
    (stepped : s.step label = some t) (within : s.bound ≤ 1) : t.bound ≤ 1 := by
  by_cases failing : label = .fail
  · subst failing
    rw [fail_eq stepped]
    exact failed_bound early within
  · exact Nat.le_trans (bound_le failing stepped) within

/-- As long as a first attempt that fails does so before an executor has started the function or has the whole request,
an executor is made to start the function at most once, wherever processes die and connections break. -/
theorem started_once (begins : Begins s)
    (run : Runs.Reaches step (fun s label => s.failsEarly label = true) s t) : t.starts ≤ 1 := by
  have bounded : t.bound ≤ 1 := by
    refine run.invariant (P := fun s => s.bound ≤ 1) ?_
      (fun within early stepped => step_bound early stepped within)
    have none : s.connections.countP (Connection.complete s.size) = 0 :=
      List.countP_eq_zero.mpr fun connection member => by
        simp [Connection.complete, begins.others connection member]
    unfold bound pending
    rw [begins.unstarted, begins.unhandled, none]
    simpa using Bool.toNat_le s.sends
  unfold bound pending at bounded
  omega

/-- No executor has been started yet. -/
def idle : Guest := ⟨none, [], none, .trying, false, 5, 0⟩

theorem begins_idle : Begins idle := ⟨rfl, rfl, rfl, rfl, fun connection member => by cases member⟩

/-- An attempt up to the start of the function. -/
def attempting : List Label :=
  [.spawn, .listen, .connect, .send 4, .send 5, .accept, .readHeader, .readBody, .start]

/-- The executor dies before the request is sent, and the second one answers. -/
theorem started_once_answered : ∃ t : Guest, t.phase = .done ∧ t.starts ≤ 1 := by
  obtain ⟨t, run, answered⟩ := Runs.exists_reaches step
    (fun s label => s.failsEarly label = true) idle
    ([.spawn, .listen, .connect, .send 4, .die, .fail] ++
      attempting ++ [.finish, .respond, .receive])
    (fun t => decide (t.phase = .done)) (by decide +kernel)
  exact ⟨t, of_decide_eq_true answered, started_once begins_idle run⟩

/-- The executor dies in the function, and the request is passed on to the next one. -/
theorem started_again :
    ¬ ∀ s t : Guest, Begins s → Runs.Reaches step (fun _ _ => True) s t → t.starts ≤ 1 := by
  intro claim
  obtain ⟨t, run, again⟩ := Runs.exists_reaches step
    (fun _ _ => True) idle (attempting ++ [.die, .fail] ++ attempting)
    (fun t => decide (t.starts = 2)) (by decide +kernel)
  have most := claim _ _ begins_idle run
  rw [of_decide_eq_true again] at most
  cases most
  rename_i more
  cases more

end Guest
end Scraperack.Attempts
