import Mathlib
import Scraperack.Runs

/-! The limiter of machine starts on a node. A call of `acquire` that finds no room waits on a `Notify`. Every
notification is sent after the lock is released, so another call may come in between. -/

namespace Scraperack.Limiter

/-- A `Notified` that is enabled. -/
inductive Notified where
  | waiting
  /-- `notify_one` chose it. Dropped before it is awaited, it passes the notification on. -/
  | chosen
  /-- `notify_waiters` woke it, or it took the stored permit. -/
  | ready
  deriving DecidableEq

/-- A call of `acquire`, and the permit that it returns. The flag `woken` is a ghost: the call was chosen and
has not looked at the counters since. -/
inductive Call where
  /-- At the start of the loop. -/
  | entering (woken : Bool)
  /-- The `Notified` is there and not enabled. `notify_waiters` reaches it already. -/
  | enabling (woken reached : Bool)
  | checking (woken : Bool) (changed : Notified)
  | parked (changed : Notified)
  /-- The permit is there; the `Notified` is still to be dropped. -/
  | leaving (changed : Notified)
  | holding
  /-- The permit has given its place back and has still to notify. -/
  | releasing
  | ended
  deriving DecidableEq

structure State where
  active : Nat
  limit : Nat
  /-- The permit that `notify_one` stores when there is nobody to wake. -/
  stored : Bool
  calls : List Call
  /-- The calls of `set_limit` that have still to notify. -/
  setting : Nat
  deriving DecidableEq

inductive Label where
  | acquire
  | create (index : Nat)
  | enable (index : Nat)
  /-- The section of `acquire` under the lock. -/
  | check (index : Nat)
  | wake (index : Nat)
  /-- The `Notified` of a call that returns is dropped. -/
  | leave (index : Nat) (next : Option Nat)
  /-- A call that is parked is dropped. -/
  | cancel (index : Nat) (next : Option Nat)
  /-- The section of `drop` under the lock. -/
  | release (index : Nat)
  | notify (index : Nat) (next : Option Nat)
  /-- The section of `set_limit` under the lock. -/
  | setLimit (limit : Nat)
  | notifyAll

namespace Call

/-- The call has an enabled `Notified` that nothing has woken. -/
def waits : Call → Bool
  | checking _ .waiting | parked .waiting | leaving .waiting => true
  | _ => false

/-- What `notify_one` does to the call that it wakes. -/
def choose : Call → Call
  | checking woken _ => checking woken .chosen
  | parked _ => parked .chosen
  | leaving _ => leaving .chosen
  | call => call

/-- What `notify_waiters` does to every call. -/
def reach : Call → Call
  | enabling woken _ => enabling woken true
  | checking woken .waiting => checking woken .ready
  | parked .waiting => parked .ready
  | leaving .waiting => leaving .ready
  | call => call

/-- The call has a permit. -/
def holds : Call → Bool
  | leaving _ | holding => true
  | _ => false

def isParked : Call → Bool
  | parked _ => true
  | _ => false

/-- The call waits for a permit and has a wake-up before it, or has not answered its last one yet. -/
def awakes : Call → Bool
  | entering woken | enabling woken _ => woken
  | checking woken changed => woken || decide (changed = .chosen)
  | parked changed => decide (changed ≠ .waiting)
  | _ => false

/-- The call has still to notify another one. -/
def notifies : Call → Bool
  | leaving .chosen | releasing => true
  | _ => false

/-- The notifications of single calls that this one has, or has not yet answered, or is about to send. -/
def credit : Call → Nat
  | entering woken | enabling woken _ => woken.toNat
  | checking woken changed => woken.toNat + (decide (changed = .chosen)).toNat
  | parked changed | leaving changed => (decide (changed = .chosen)).toNat
  | releasing => 1
  | holding | ended => 0

end Call

namespace State

/-- `VmStartLimiter::new`. -/
def new (limit : Nat) : State := ⟨0, max limit 1, false, [], 0⟩

def put (s : State) (index : Nat) (call : Call) : State :=
  { s with calls := s.calls.set index call }

/-- `notify_one`: it wakes a call that waits, and stores a permit only if there is none. -/
def notifyOne (s : State) : Option Nat → Option State
  | some index =>
    match s.calls[index]? with
    | some call => if call.waits then some (s.put index call.choose) else none
    | none => none
  | none => if s.calls.any Call.waits then none else some { s with stored := true }

/-- The drop of a `Notified`. -/
def dropNotified (s : State) (changed : Notified) (next : Option Nat) : Option State :=
  if changed = .chosen then s.notifyOne next else some s

def step (s : State) : Label → Option State
  | .acquire => some { s with calls := s.calls ++ [.entering false] }
  | .create index =>
    match s.calls[index]? with
    | some (.entering woken) => some (s.put index (.enabling woken false))
    | _ => none
  | .enable index =>
    match s.calls[index]? with
    | some (.enabling woken reached) =>
      if s.stored then some { s.put index (.checking woken .ready) with stored := false }
      else some (s.put index (.checking woken (if reached then .ready else .waiting)))
    | _ => none
  | .check index =>
    match s.calls[index]? with
    | some (.checking _ changed) =>
      if s.active < s.limit then some { s.put index (.leaving changed) with active := s.active + 1 }
      else some (s.put index (.parked changed))
    | _ => none
  | .wake index =>
    match s.calls[index]? with
    | some (.parked .chosen) => some (s.put index (.entering true))
    | some (.parked .ready) => some (s.put index (.entering false))
    | _ => none
  | .leave index next =>
    match s.calls[index]? with
    | some (.leaving changed) => (s.put index .holding).dropNotified changed next
    | _ => none
  | .cancel index next =>
    match s.calls[index]? with
    | some (.parked changed) => (s.put index .ended).dropNotified changed next
    | _ => none
  | .release index =>
    match s.calls[index]? with
    | some .holding => some { s.put index .releasing with active := s.active - 1 }
    | _ => none
  | .notify index next =>
    match s.calls[index]? with
    | some .releasing => (s.put index .ended).notifyOne next
    | _ => none
  | .setLimit limit =>
    if s.limit = max limit 1 then some s
    else some { s with limit := max limit 1, setting := s.setting + 1 }
  | .notifyAll =>
    if s.setting = 0 then none
    else some { s with calls := s.calls.map Call.reach, setting := s.setting - 1 }

def total (f : Call → Nat) (s : State) : Nat := (s.calls.map f).sum

/-- The permits that are held. -/
def held (s : State) : Nat := s.total (fun call => call.holds.toNat)

/-! Every place that is free is one that a notification is on its way for. -/

variable {s t : State}

theorem sum_map_set {α : Type} (f : α → Nat) {items : List α} {index : Nat} {old : α}
    (there : items[index]? = some old) (new : α) :
    ((items.set index new).map f).sum + f old = (items.map f).sum + f new := by
  induction items generalizing index with
  | nil => cases there
  | cons item rest ih =>
    cases index with
    | zero =>
      obtain rfl := Option.some.inj there
      simp only [List.set_cons_zero, List.map_cons, List.sum_cons]
      omega
    | succ index =>
      have later := @ih index there
      simp only [List.set_cons_succ, List.map_cons, List.sum_cons]
      omega

theorem total_put (f : Call → Nat) {index : Nat} {old : Call} (there : s.calls[index]? = some old)
    (call : Call) : (s.put index call).total f + f old = s.total f + f call :=
  sum_map_set f there call

/-- What `notify_one` does: it wakes a call that waits, or there is none. -/
theorem notifyOne_cases {next : Option Nat} (done : s.notifyOne next = some t) :
    (∃ index call, s.calls[index]? = some call ∧ call.waits = true ∧
      t = s.put index call.choose) ∨
    (∀ call ∈ s.calls, call.waits = false) ∧ t = { s with stored := true } := by
  cases next with
  | some index =>
    simp only [notifyOne] at done
    split at done
    · rename_i call there
      split_ifs at done with waits
      exact .inl ⟨index, call, there, waits, (Option.some.inj done).symm⟩
    · cases done
  | none =>
    simp only [notifyOne] at done
    split_ifs at done with waits
    simp only [List.any_eq_true, not_exists, not_and, Bool.not_eq_true] at waits
    exact .inr ⟨waits, (Option.some.inj done).symm⟩

theorem holds_choose (call : Call) : call.choose.holds = call.holds := by
  cases call <;> rfl

theorem holds_reach (call : Call) : call.reach.holds = call.holds := by
  unfold Call.reach
  split <;> rfl

theorem reach_ne (call : Call) : call.reach ≠ .parked .waiting := by
  unfold Call.reach
  split
  · nofun
  · nofun
  · nofun
  · nofun
  · assumption

theorem credit_choose {call : Call} (waits : call.waits = true) :
    call.choose.credit = call.credit + 1 := by
  unfold Call.waits at waits
  split at waits
  · rfl
  · rfl
  · rfl
  · cases waits

theorem choose_ne (call : Call) : call.choose ≠ .parked .waiting := by
  cases call <;> nofun

/-- The free places are covered by what is on its way, and by so many more. Nothing has to be covered
if nobody is parked and waits, or if `set_limit` is about to wake all. -/
def Covered (s : State) (more : Nat) : Prop :=
  0 < s.setting ∨ (∀ call ∈ s.calls, call ≠ .parked .waiting) ∨
    s.limit ≤ s.active + s.total Call.credit + more

theorem Covered.put {more index active : Nat} {old call : Call} (covered : s.Covered 0)
    (there : s.calls[index]? = some old) (plain : call ≠ .parked .waiting)
    (enough : s.active + old.credit ≤ active + call.credit + more) :
    ({ s.put index call with active := active } : State).Covered more := by
  refine covered.imp id (Or.imp (fun nobody other member => ?_) (fun places => ?_))
  · rcases List.mem_or_eq_of_mem_set member with before | rfl
    · exact nobody other before
    · exact plain
  · have moved := total_put Call.credit there call
    change s.limit ≤ active + (s.put index call).total Call.credit + more
    omega

/-- `notify_one` pays for one place. -/
theorem Covered.notifyOne {next : Option Nat} (covered : s.Covered 1)
    (done : s.notifyOne next = some t) : t.Covered 0 := by
  rcases notifyOne_cases done with ⟨index, call, there, waits, rfl⟩ | ⟨nobody, rfl⟩
  · refine covered.imp id (Or.imp (fun nobody other member => ?_) (fun places => ?_))
    · rcases List.mem_or_eq_of_mem_set member with before | rfl
      · exact nobody other before
      · exact choose_ne call
    · have moved := total_put Call.credit there call.choose
      have paid := credit_choose waits
      change s.limit ≤ s.active + (s.put index call.choose).total Call.credit + 0
      omega
  · refine .inr (.inl fun call member same => ?_)
    have waits := nobody call member
    rw [same] at waits
    cases waits

/-- The invariant of the limiter. -/
structure Sound (s : State) : Prop where
  held : s.held = s.active
  limit : 1 ≤ s.limit
  covered : s.Covered 0

theorem held_put {index : Nat} {old : Call} (there : s.calls[index]? = some old) (call : Call) :
    (s.put index call).held + old.holds.toNat = s.held + call.holds.toNat :=
  total_put (fun call => call.holds.toNat) there call

/-- `notify_one` leaves the counters and the permits as they are. -/
theorem notifyOne_frame {next : Option Nat} (done : s.notifyOne next = some t) :
    t.active = s.active ∧ t.limit = s.limit ∧ t.held = s.held := by
  rcases notifyOne_cases done with ⟨index, call, there, -, rfl⟩ | ⟨-, rfl⟩
  · refine ⟨rfl, rfl, ?_⟩
    have moved := held_put there call.choose
    rw [holds_choose] at moved
    exact Nat.add_right_cancel moved
  · exact ⟨rfl, rfl, rfl⟩

theorem sound_new (limit : Nat) : Sound (new limit) :=
  ⟨rfl, Nat.le_max_right _ _, .inr (.inl fun _ member => by cases member)⟩

/-- A call goes on without a notification of another. -/
theorem Sound.put {index active : Nat} {old call : Call} (sound : Sound s)
    (there : s.calls[index]? = some old) (plain : call ≠ .parked .waiting)
    (permits : active + old.holds.toNat = s.active + call.holds.toNat)
    (enough : s.active + old.credit ≤ active + call.credit) :
    Sound { s.put index call with active := active } := by
  refine ⟨?_, sound.limit, sound.covered.put there plain enough⟩
  have moved := held_put there call
  have held := sound.held
  change (s.put index call).held = active
  omega

theorem Sound.notifyOne {next : Option Nat} (done : s.notifyOne next = some t)
    (held : s.held = s.active) (limit : 1 ≤ s.limit) (covered : s.Covered 1) : Sound t := by
  obtain ⟨active, same, permits⟩ := notifyOne_frame done
  exact ⟨by rw [permits, held, active], by rwa [same], covered.notifyOne done⟩

/-- A call that had a notification ends with it or passes it on. -/
theorem Sound.dropNotified {index : Nat} {changed : Notified} {old call : Call} {next : Option Nat}
    (sound : Sound s) (done : (s.put index call).dropNotified changed next = some t)
    (there : s.calls[index]? = some old) (plain : call ≠ .parked .waiting)
    (permits : old.holds = call.holds)
    (credit : old.credit = (decide (changed = .chosen)).toNat + call.credit) : Sound t := by
  have same : ({ s.put index call with active := s.active } : State) = s.put index call := rfl
  unfold State.dropNotified at done
  split_ifs at done with chosen
  · have moved := held_put there call
    have held := sound.held
    refine Sound.notifyOne done ?_ sound.limit ?_
    · rw [permits] at moved
      exact (Nat.add_right_cancel moved).trans held
    · rw [← same]
      exact sound.covered.put there plain (by simp [credit, chosen]; omega)
  · obtain rfl := Option.some.inj done
    rw [← same]
    exact sound.put there plain (by rw [permits]) (by simp [credit, chosen])

theorem Sound.step {label : Label} (sound : Sound s) (stepped : s.step label = some t) :
    Sound t := by
  have held := sound.held
  cases label with
  | acquire =>
    obtain rfl := Option.some.inj stepped
    have more (f : Call → Nat) (none : f (.entering false) = 0) :
        ({ s with calls := s.calls ++ [.entering false] } : State).total f = s.total f := by
      simp [total, none]
    refine ⟨(more _ rfl).trans held, sound.limit, ?_⟩
    refine sound.covered.imp id (Or.imp (fun nobody call member => ?_) (fun places => ?_))
    · rcases List.mem_append.mp member with before | new
      · exact nobody call before
      · rw [List.mem_singleton.mp new]
        nofun
    · rwa [more Call.credit rfl]
  | create index =>
    simp only [State.step] at stepped
    split at stepped
    · rename_i woken there
      obtain rfl := Option.some.inj stepped
      exact sound.put there nofun rfl (Nat.le_refl _)
    · cases stepped
  | enable index =>
    simp only [State.step] at stepped
    split at stepped
    · rename_i woken reached there
      split at stepped
      · obtain rfl := Option.some.inj stepped
        have ready : Sound { s.put index (.checking woken .ready) with active := s.active } :=
          sound.put there nofun rfl (Nat.le_refl _)
        obtain ⟨held, limit, covered⟩ := ready
        exact ⟨held, limit, covered⟩
      · obtain rfl := Option.some.inj stepped
        refine sound.put there nofun rfl (Nat.add_le_add_left ?_ _)
        cases reached <;> exact Nat.le_refl _
    · cases stepped
  | check index =>
    simp only [State.step] at stepped
    split at stepped
    · rename_i woken changed there
      split_ifs at stepped with room
      · obtain rfl := Option.some.inj stepped
        refine sound.put there nofun rfl ?_
        have once := Bool.toNat_le woken
        simp only [Call.credit]
        omega
      · obtain rfl := Option.some.inj stepped
        refine ⟨?_, sound.limit, .inr (.inr ?_)⟩
        · exact (Nat.add_right_cancel (held_put there (.parked changed))).trans held
        · change s.limit ≤ s.active + _ + 0
          omega
    · cases stepped
  | wake index =>
    simp only [State.step] at stepped
    split at stepped
    · rename_i there
      obtain rfl := Option.some.inj stepped
      exact sound.put there nofun rfl (Nat.le_refl _)
    · rename_i there
      obtain rfl := Option.some.inj stepped
      exact sound.put there nofun rfl (Nat.le_refl _)
    · cases stepped
  | leave index next =>
    simp only [State.step] at stepped
    split at stepped
    · rename_i changed there
      exact sound.dropNotified stepped there nofun rfl rfl
    · cases stepped
  | cancel index next =>
    simp only [State.step] at stepped
    split at stepped
    · rename_i changed there
      exact sound.dropNotified stepped there nofun rfl rfl
    · cases stepped
  | release index =>
    simp only [State.step] at stepped
    split at stepped
    · rename_i there
      obtain rfl := Option.some.inj stepped
      have counted := held_put there .releasing
      change (s.put index .releasing).held + 1 = s.held + 0 at counted
      refine sound.put there nofun ?_ ?_
      · change s.active - 1 + 1 = s.active + 0
        omega
      · change s.active + 0 ≤ s.active - 1 + 1
        omega
    · cases stepped
  | notify index next =>
    simp only [State.step] at stepped
    split at stepped
    · rename_i there
      refine Sound.notifyOne stepped ?_ sound.limit ?_
      · exact (Nat.add_right_cancel (held_put there .ended)).trans held
      · have kept : ({ s.put index .ended with active := s.active } : State).Covered 1 :=
          sound.covered.put there nofun (Nat.le_refl _)
        exact kept
    · cases stepped
  | setLimit limit =>
    simp only [State.step] at stepped
    split_ifs at stepped
    · exact Option.some.inj stepped ▸ sound
    · obtain rfl := Option.some.inj stepped
      exact ⟨held, Nat.le_max_right _ _, .inl (Nat.succ_pos _)⟩
  | notifyAll =>
    simp only [State.step] at stepped
    split_ifs at stepped
    obtain rfl := Option.some.inj stepped
    refine ⟨?_, sound.limit, .inr (.inl fun call member => ?_)⟩
    · have same : (fun call : Call => call.holds.toNat) ∘ Call.reach =
          fun call => call.holds.toNat := funext fun call => congrArg Bool.toNat (holds_reach call)
      change ((s.calls.map Call.reach).map _).sum = s.active
      rw [List.map_map, same]
      exact held
    · obtain ⟨before, -, rfl⟩ := List.mem_map.mp member
      exact reach_ne before

theorem Sound.reached (limit : Nat) (run : Runs.Reaches State.step (fun _ _ => True) (new limit) s) :
    Sound s :=
  run.invariant (sound_new limit) (fun sound _ stepped => sound.step stepped)

theorem credit_pos {call : Call} (some_credit : 0 < call.credit) :
    call.awakes = true ∨ call.notifies = true := by
  cases call with
  | entering woken | enabling woken => cases woken <;> simp_all [Call.credit, Call.awakes]
  | checking woken changed =>
    cases woken <;> cases changed <;> simp_all [Call.credit, Call.awakes]
  | parked changed => cases changed <;> simp_all [Call.credit, Call.awakes]
  | leaving changed => cases changed <;> simp_all [Call.credit, Call.notifies]
  | releasing => exact .inr rfl
  | holding | ended => cases some_credit

/-- A sum that is not zero has a part that is not. -/
theorem exists_credit (some_credit : 0 < s.total Call.credit) :
    ∃ call ∈ s.calls, 0 < call.credit := by
  by_contra none
  push Not at none
  have zero : s.total Call.credit = 0 := by
    refine List.sum_eq_zero fun credit member => ?_
    obtain ⟨call, there, rfl⟩ := List.mem_map.mp member
    have spent := none call there
    omega
  omega

theorem dropNotified_active {changed : Notified} {next : Option Nat}
    (done : s.dropNotified changed next = some t) : t.active = s.active := by
  unfold dropNotified at done
  split_ifs at done
  · exact (notifyOne_frame done).1
  · rw [← Option.some.inj done]

/-- The counter only grows where it was below the limit. -/
theorem active_step {label : Label} (stepped : s.step label = some t) :
    t.active ≤ s.active ∨ s.active < s.limit ∧ t.active = s.active + 1 := by
  cases label with
  | acquire => exact .inl (Nat.le_of_eq (congrArg active (Option.some.inj stepped)).symm)
  | check index =>
    simp only [step] at stepped
    split at stepped
    · split_ifs at stepped with room
      · exact .inr ⟨room, (congrArg active (Option.some.inj stepped)).symm⟩
      · exact .inl (Nat.le_of_eq (congrArg active (Option.some.inj stepped)).symm)
    · cases stepped
  | create index | wake index =>
    simp only [step] at stepped
    split at stepped <;> first
      | exact .inl (Nat.le_of_eq (congrArg active (Option.some.inj stepped)).symm)
      | cases stepped
  | enable index =>
    simp only [step] at stepped
    split at stepped
    · split at stepped <;>
        exact .inl (Nat.le_of_eq (congrArg active (Option.some.inj stepped)).symm)
    · cases stepped
  | leave index next | cancel index next =>
    simp only [step] at stepped
    split at stepped
    · exact .inl (Nat.le_of_eq ((dropNotified_active stepped).trans rfl))
    · cases stepped
  | release index =>
    simp only [step] at stepped
    split at stepped
    · have less := congrArg active (Option.some.inj stepped)
      exact .inl (less ▸ Nat.sub_le _ _)
    · cases stepped
  | notify index next =>
    simp only [step] at stepped
    split at stepped
    · exact .inl (Nat.le_of_eq ((notifyOne_frame stepped).1.trans rfl))
    · cases stepped
  | setLimit limit | notifyAll =>
    simp only [step] at stepped
    split_ifs at stepped <;>
      exact .inl (Nat.le_of_eq (congrArg active (Option.some.inj stepped)).symm)

/-- The permits are counted, and while there is a free place and somebody is parked, a wake-up is on its way. -/
structure Limits (s : State) : Prop where
  counted : s.active = s.held
  unclamped : ∀ index : Nat, s.calls[index]? = some .holding → 0 < s.active
  limit : 1 ≤ s.limit
  granted : ∀ label t, s.step label = some t → s.held < t.held →
    s.active < s.limit ∧ t.active = s.active + 1
  woken : s.active < s.limit → (∃ call ∈ s.calls, call.isParked = true) →
    (∃ call ∈ s.calls, call.awakes = true) ∨ (∃ call ∈ s.calls, call.notifies = true) ∨
      0 < s.setting

theorem starts_limited (limit : Nat) (s : State)
    (run : Runs.Reaches step (fun _ _ => True) (new limit) s) : Limits s := by
  have sound := Sound.reached limit run
  refine ⟨sound.held.symm, fun index there => ?_, sound.limit,
    fun label t stepped more => ?_, fun free parked => ?_⟩
  · have counted := held_put there .ended
    have held := sound.held
    change (s.put index .ended).held + 1 = s.held + 0 at counted
    omega
  · refine (active_step stepped).resolve_left (fun fewer => ?_)
    rw [sound.held, (sound.step stepped).held] at more
    omega
  · obtain ⟨call, member, parks⟩ := parked
    rcases sound.covered with setting | nobody | places
    · exact .inr (.inr setting)
    · refine .inl ⟨call, member, ?_⟩
      have other := nobody call member
      cases call with
      | parked changed => simpa [Call.awakes] using other
      | _ => cases parks
    · obtain ⟨other, there, some_credit⟩ := exists_credit (s := s) (by omega)
      rcases credit_pos some_credit with awakes | notifies
      · exact .inl ⟨other, there, awakes⟩
      · exact .inr (.inl ⟨other, there, notifies⟩)

/-- The permit is given back, and the notification of the one that waits is still to come. -/
theorem starts_limited_released : ∃ s : State, s.active < s.limit ∧
    (∃ call ∈ s.calls, call.isParked = true) ∧ Limits s := by
  obtain ⟨s, run, free⟩ := Runs.exists_reaches step (fun _ _ => True) (new 1)
    [.acquire, .create 0, .enable 0, .check 0, .leave 0 none,
      .acquire, .create 1, .enable 1, .check 1, .release 0]
    (fun s => decide (s.active < s.limit) && s.calls.any Call.isParked) (by decide)
  obtain ⟨free, parked⟩ := Bool.and_eq_true_iff.mp free
  exact ⟨s, of_decide_eq_true free, List.any_eq_true.mp parked, starts_limited 1 s run⟩

end State
end Scraperack.Limiter
