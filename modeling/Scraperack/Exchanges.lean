import Scraperack.Data
import Scraperack.Runs

/-! The connection of a node with the agent in a machine that it uses again and again. Requests and
responses are lines. The node reads each response with a buffer of its own and throws the buffer away
with whatever is behind the line. -/

namespace Scraperack.Exchanges

def newline : UInt8 := 10

/-- The node's end: `guest_request_stream`, between executions or inside of one. -/
inductive Host where
  | idle
  | writing (request rest : Bytes)
  | reading (request line : Bytes)
  /-- The machine is destroyed. -/
  | gone
  deriving DecidableEq

/-- The agent's end: what `makefile()` has buffered, and the line that `handle` works on. -/
structure Guest where
  buffer : Bytes
  working : Option Bytes

structure Session where
  host : Host
  guest : Guest
  /-- What is on its way to the guest, and to the host. -/
  toGuest : Bytes
  toHost : Bytes
  /-- The agent is gone, with its end of the connection. -/
  closed : Bool
  /-- Ghost: the lines that the agent has handled, with its answers. -/
  answers : List (Bytes × Bytes)
  /-- Ghost: the requests that the node has got a completion for, with what it took as response. -/
  completed : List (Bytes × Bytes)

inductive Label where
  /-- An execution starts: `serde_json::to_vec` of its payload has no newline. -/
  | begin (request : Bytes)
  | write (count : Nat)
  | receive (count : Nat)
  | take
  /-- `json.dumps` of the response has no newline. -/
  | answer (response : Bytes)
  /-- The connection breaks off. What is on its way to the host may be cut short. -/
  | close (kept : Nat)
  | read (count : Nat)
  /-- The node reads to the end of a closed connection. -/
  | ended
  | timeout
  /-- The machine is not kept. -/
  | retire

def Session.started : Session := ⟨.idle, ⟨[], none⟩, [], [], false, [], []⟩

namespace Session

/-- The line goes to `serde_json::from_str`: a completion, or an error, and the machine is destroyed. -/
def finish (valid : Bytes → Bool) (s : Session) (request line : Bytes) : Session :=
  if valid line then { s with host := .idle, completed := s.completed ++ [(request, line)] }
  else { s with host := .gone }

/-- The step of either end. A machine that is destroyed makes none. -/
def move (valid : Bytes → Bool) (s : Session) : Label → Option Session
  | .begin request =>
    if s.host = .idle ∧ newline ∉ request then
      some { s with host := .writing request (request ++ [newline]) }
    else none
  | .write count =>
    match s.host with
    | .writing request rest =>
      if s.closed then some { s with host := .gone }
      else
        some { s with
          toGuest := s.toGuest ++ rest.take count
          host := if rest.drop count = [] then .reading request [] else .writing request
            (rest.drop count) }
    | _ => none
  | .receive count =>
    if s.closed then none
    else some { s with
      guest := { s.guest with buffer := s.guest.buffer ++ s.toGuest.take count }
      toGuest := s.toGuest.drop count }
  | .take =>
    if s.closed || s.guest.working.isSome || decide (newline ∉ s.guest.buffer) then none
    else some { s with guest :=
      ⟨(s.guest.buffer.dropWhile (· ≠ newline)).drop 1, some (s.guest.buffer.takeWhile (· ≠ newline))⟩ }
  | .answer response =>
    match s.guest.working with
    | some line =>
      if s.closed ∨ newline ∈ response then none
      else some { s with
        guest := { s.guest with working := none }
        toHost := s.toHost ++ (response ++ [newline])
        answers := s.answers ++ [(line, response)] }
    | none => none
  | .close kept => some { s with closed := true, toHost := s.toHost.take kept }
  | .read count =>
    match s.host with
    | .reading request line =>
      let chunk := s.toHost.take count
      if chunk = [] then none
      else if newline ∈ chunk then
        -- What is behind the newline goes with the buffer.
        some ({ s with toHost := s.toHost.drop count }.finish valid request
          (line ++ chunk.takeWhile (· ≠ newline)))
      else some { s with toHost := s.toHost.drop count, host := .reading request (line ++ chunk) }
    | _ => none
  | .ended =>
    match s.host with
    | .reading request line =>
      if s.closed = true ∧ s.toHost = [] then
        some (if line = [] then { s with host := .gone } else s.finish valid request line)
      else none
    | _ => none
  | .timeout =>
    match s.host with
    | .writing .. | .reading .. => some { s with host := .gone }
    | _ => none
  | .retire => if s.host = .idle then some { s with host := .gone } else none

def step (valid : Bytes → Bool) (s : Session) (label : Label) : Option Session :=
  if s.host = .gone then none else s.move valid label

/-! What is on its way. -/

/-- A response that the node took is the one that the agent gave to the request, or the beginning
of it when the connection broke off. -/
def Answered (closed : Bool) (answer taken : Bytes × Bytes) : Prop :=
  taken.1 = answer.1 ∧ taken.2 <+: answer.2 ∧ (closed = false → taken.2 = answer.2)

/-- The node has taken an answer to each line that the agent has handled. -/
def Settled (s : Session) : Prop := List.Forall₂ (Answered s.closed) s.answers s.completed

/-- Nothing is on its way. -/
structure Silent (s : Session) : Prop where
  guest : s.guest = ⟨[], none⟩
  toGuest : s.toGuest = []
  toHost : s.toHost = []

/-- Where an exchange stands whose request has been written: on its way to the agent, with the agent,
or its response on the way back. -/
inductive Awaits (s : Session) (request line : Bytes) : Prop where
  | sent (idle : s.guest.working = none) (way : s.guest.buffer ++ s.toGuest = request ++ [newline])
      (toHost : s.toHost = []) (line : line = []) (settled : s.Settled)
  | handled (guest : s.guest = ⟨[], some request⟩) (toGuest : s.toGuest = []) (toHost : s.toHost = [])
      (line : line = []) (settled : s.Settled)
  | answered (response : Bytes) (earlier : List (Bytes × Bytes)) (guest : s.guest = ⟨[], none⟩)
      (toGuest : s.toGuest = []) (way : line ++ s.toHost <+: response ++ [newline])
      (whole : s.closed = false → line ++ s.toHost = response ++ [newline])
      (plain : newline ∉ response) (unfinished : newline ∉ line)
      (last : s.answers = earlier ++ [(request, response)])
      (settled : List.Forall₂ (Answered s.closed) earlier s.completed)

/-- One request at a time, and nothing left of the ones before. -/
inductive Lockstep (s : Session) : Prop where
  | idle (host : s.host = .idle) (silent : s.Silent) (settled : s.Settled)
  | writing (request rest : Bytes) (host : s.host = .writing request rest)
      (plain : newline ∉ request) (idle : s.guest.working = none)
      (way : s.guest.buffer ++ s.toGuest ++ rest = request ++ [newline]) (more : rest ≠ [])
      (toHost : s.toHost = []) (settled : s.Settled)
  | reading (request line : Bytes) (host : s.host = .reading request line)
      (plain : newline ∉ request) (awaits : s.Awaits request line)
  | gone (host : s.host = .gone) (settled : ∃ handled rest, s.answers = handled ++ rest ∧
      rest.length ≤ 1 ∧ List.Forall₂ (Answered s.closed) handled s.completed)

/-- A line ends with its newline. -/
theorem whole_of_mem {before after line : Bytes} (way : before ++ after = line ++ [newline])
    (plain : newline ∉ line) (arrived : newline ∈ before) :
    before = line ++ [newline] ∧ after = [] := by
  rcases List.eq_nil_or_concat after with rfl | ⟨inner, last, rfl⟩
  · exact ⟨by simpa using way, rfl⟩
  · rw [List.concat_eq_append, ← List.append_assoc] at way
    have front := (List.append_inj' way rfl).1
    exact absurd (front ▸ List.mem_append_left inner arrived) plain

theorem takeWhile_line {line : Bytes} (plain : newline ∉ line) :
    (line ++ [newline]).takeWhile (· ≠ newline) = line := by
  rw [List.takeWhile_append_of_pos (fun byte member => by
    simpa using fun same : byte = newline => plain (same ▸ member))]
  simp

theorem dropWhile_line {line : Bytes} (plain : newline ∉ line) :
    (line ++ [newline]).dropWhile (· ≠ newline) = [newline] := by
  rw [List.dropWhile_append_of_pos (fun byte member => by
    simpa using fun same : byte = newline => plain (same ▸ member))]
  simp

theorem Answered.loosen {closed : Bool} {answer taken : Bytes × Bytes}
    (answered : Answered closed answer taken) : Answered true answer taken :=
  ⟨answered.1, answered.2.1, fun same => by cases same⟩

theorem loosened {closed : Bool} {answers completed : List (Bytes × Bytes)}
    (settled : List.Forall₂ (Answered closed) answers completed) :
    List.Forall₂ (Answered true) answers completed :=
  settled.imp (fun _ _ answered => answered.loosen)

variable {valid : Bytes → Bool} {s t : Session} {label : Label}

/-- The node has taken a line, and nothing is left of the exchange. -/
theorem finish_lockstep {request line response : Bytes} {earlier : List (Bytes × Bytes)}
    (silent : s.Silent) (last : s.answers = earlier ++ [(request, response)])
    (settled : List.Forall₂ (Answered s.closed) earlier s.completed)
    (answered : Answered s.closed (request, response) (request, line)) :
    (s.finish valid request line).Lockstep := by
  unfold finish
  split_ifs
  · refine .idle rfl ⟨silent.guest, silent.toGuest, silent.toHost⟩ ?_
    change List.Forall₂ (Answered s.closed) s.answers (s.completed ++ [(request, line)])
    rw [last]
    exact List.rel_append settled (.cons answered .nil)
  · exact .gone rfl ⟨earlier, _, last, by simp, settled⟩

theorem Awaits.gone {request line : Bytes} (awaits : s.Awaits request line) :
    ∃ handled rest, s.answers = handled ++ rest ∧ rest.length ≤ 1 ∧
      List.Forall₂ (Answered s.closed) handled s.completed := by
  cases awaits with
  | sent _ _ _ _ settled => exact ⟨s.answers, [], by simp, by simp, settled⟩
  | handled _ _ _ _ settled => exact ⟨s.answers, [], by simp, by simp, settled⟩
  | answered response earlier _ _ _ _ _ _ last settled =>
    exact ⟨earlier, _, last, by simp, settled⟩

theorem idle_move (silent : s.Silent) (settled : s.Settled) (host : s.host = .idle)
    (moved : s.move valid label = some t) : t.Lockstep := by
  cases label with
  | begin request =>
    simp only [move] at moved
    split_ifs at moved with ready
    obtain rfl := Option.some.inj moved
    refine .writing request _ rfl ready.2 ?_ ?_ (by simp) silent.toHost settled
    · exact congrArg Guest.working silent.guest
    · simp [silent.guest, silent.toGuest]
  | receive count =>
    simp only [move] at moved
    split_ifs at moved
    obtain rfl := Option.some.inj moved
    refine .idle host ⟨?_, ?_, silent.toHost⟩ settled
    · simp [silent.guest, silent.toGuest]
    · simp [silent.toGuest]
  | close kept =>
    obtain rfl := Option.some.inj moved
    refine .idle host ⟨silent.guest, silent.toGuest, ?_⟩ (loosened settled)
    simp [silent.toHost]
  | retire =>
    simp only [move] at moved
    split_ifs at moved
    obtain rfl := Option.some.inj moved
    exact .gone rfl ⟨s.answers, [], by simp, by simp, settled⟩
  | take | answer response | write count | read count | ended | timeout =>
    simp [move, silent.guest, host] at moved

theorem writing_move {request rest : Bytes} (host : s.host = .writing request rest)
    (plain : newline ∉ request) (idle : s.guest.working = none)
    (way : s.guest.buffer ++ s.toGuest ++ rest = request ++ [newline]) (more : rest ≠ [])
    (toHost : s.toHost = []) (settled : s.Settled) (moved : s.move valid label = some t) :
    t.Lockstep := by
  have given : ∃ handled rest, s.answers = handled ++ rest ∧ rest.length ≤ 1 ∧
      List.Forall₂ (Answered s.closed) handled s.completed :=
    ⟨s.answers, [], by simp, by simp, settled⟩
  cases label with
  | write count =>
    simp only [move, host] at moved
    split_ifs at moved with closed done <;> obtain rfl := Option.some.inj moved
    · exact .gone rfl given
    · refine .reading request [] rfl plain (.sent idle ?_ toHost rfl settled)
      have all : rest.take count = rest := by simpa [done] using List.take_append_drop count rest
      simpa [all] using way
    · refine .writing request _ rfl plain idle ?_ done toHost settled
      rw [← way]
      simp
  | receive count =>
    simp only [move] at moved
    split_ifs at moved
    obtain rfl := Option.some.inj moved
    refine .writing request rest host plain idle ?_ more toHost settled
    rw [← way]
    simp
  | take =>
    simp only [move] at moved
    split_ifs at moved with blocked
    simp only [Bool.or_eq_true, decide_eq_true_eq, not_or, not_not] at blocked
    have parts : s.guest.buffer ++ (s.toGuest ++ rest) = request ++ [newline] := by simpa using way
    have nothing := (whole_of_mem parts plain blocked.2).2
    exact absurd (List.append_eq_nil_iff.mp nothing).2 more
  | close kept =>
    obtain rfl := Option.some.inj moved
    refine .writing request rest host plain idle way more ?_ (loosened settled)
    simp [toHost]
  | timeout =>
    simp only [move, host] at moved
    obtain rfl := Option.some.inj moved
    exact .gone rfl given
  | begin | answer response | read count | ended | retire => simp [move, idle, host] at moved

theorem reading_guest {request line : Bytes} (host : s.host = .reading request line)
    (plain : newline ∉ request) (awaits : s.Awaits request line)
    (guest : label = .take ∨ (∃ count, label = .receive count) ∨ ∃ response, label = .answer response)
    (moved : s.move valid label = some t) : t.Lockstep := by
  rcases guest with rfl | ⟨count, rfl⟩ | ⟨response, rfl⟩
  · simp only [move] at moved
    split_ifs at moved with blocked
    simp only [Bool.or_eq_true, decide_eq_true_eq, not_or, not_not] at blocked
    obtain rfl := Option.some.inj moved
    cases awaits with
    | sent idle way toHost start settled =>
      obtain ⟨whole, nothing⟩ := whole_of_mem way plain blocked.2
      refine .reading request line host plain (.handled ?_ nothing toHost start settled)
      simp only [whole, takeWhile_line plain, dropWhile_line plain]
      rfl
    | handled guest => simp [guest] at blocked
    | answered _ _ guest => simp [guest] at blocked
  · simp only [move] at moved
    split_ifs at moved
    obtain rfl := Option.some.inj moved
    refine .reading request line host plain ?_
    cases awaits with
    | sent idle way toHost start settled =>
      refine .sent idle ?_ toHost start settled
      rw [← way]
      simp
    | handled guest toGuest toHost start settled =>
      exact .handled (by simp [guest, toGuest]) (by simp [toGuest]) toHost start settled
    | answered response earlier guest toGuest way whole plain unfinished last settled =>
      exact .answered response earlier (by simp [guest, toGuest]) (by simp [toGuest]) way whole plain
        unfinished last settled
  · simp only [move] at moved
    split at moved
    · rename_i taken working
      split_ifs at moved with blocked
      simp only [not_or] at blocked
      obtain rfl := Option.some.inj moved
      refine .reading request line host plain ?_
      cases awaits with
      | sent idle =>
        rw [idle] at working
        cases working
      | handled guest toGuest toHost start settled =>
        obtain rfl : request = taken := by simpa [guest] using working
        exact .answered response s.answers (by simp [guest]) toGuest (by simp [toHost, start])
          (fun _ => by simp [toHost, start]) blocked.2 (by simp [start]) rfl settled
      | answered _ _ guest =>
        rw [guest] at working
        cases working
    · cases moved

/-- The rest of a response behind the part that was read without coming to its end. -/
theorem line_prefix {line response : Bytes} (way : line <+: response ++ [newline])
    (unfinished : newline ∉ line) : line <+: response := by
  rcases List.prefix_concat_iff.mp way with rfl | before
  · exact absurd (List.mem_append_right _ List.mem_cons_self) unfinished
  · exact before

/-- The node reads on in the response, to its newline or not. -/
theorem reading_read {request line : Bytes} {count : Nat} (host : s.host = .reading request line)
    (plain : newline ∉ request) (awaits : s.Awaits request line)
    (moved : s.move valid (.read count) = some t) : t.Lockstep := by
  simp only [move, host] at moved
  cases awaits with
  | sent _ _ toHost | handled _ _ toHost => simp [toHost] at moved
  | answered response earlier guest toGuest way whole clean unfinished last settled =>
    have parts : s.toHost.take count ++ s.toHost.drop count = s.toHost := List.take_append_drop _ _
    split_ifs at moved with nothing ends <;> obtain rfl := Option.some.inj moved
    · -- With the newline in it the chunk is the end of the response, and nothing is behind it.
      obtain ⟨after, split⟩ := way
      rw [← parts, List.append_assoc, List.append_assoc, ← List.append_assoc line] at split
      obtain ⟨all, none⟩ := whole_of_mem split clean (List.mem_append_right _ ends)
      obtain ⟨body, last', chunk⟩ := (List.eq_nil_or_concat (s.toHost.take count)).resolve_left nothing
      rw [List.concat_eq_append] at chunk
      rw [chunk, ← List.append_assoc] at all
      obtain ⟨read, ending⟩ := List.append_inj' all rfl
      obtain rfl := List.singleton_inj.mp ending
      have inside : newline ∉ body := fun member =>
        clean (read ▸ List.mem_append_right line member)
      have taken : line ++ (s.toHost.take count).takeWhile (· ≠ newline) = response := by
        rw [chunk, takeWhile_line inside, read]
      rw [taken]
      exact finish_lockstep ⟨guest, toGuest, (List.append_eq_nil_iff.mp none).1⟩ last settled
        ⟨rfl, List.prefix_refl _, fun _ => rfl⟩
    · refine .reading request _ rfl plain (.answered response earlier guest toGuest ?_ ?_ clean ?_
        last settled)
      · rwa [List.append_assoc, parts]
      · intro still
        rw [List.append_assoc, parts]
        exact whole still
      · rw [List.mem_append, not_or]
        exact ⟨unfinished, ends⟩

theorem reading_ended {request line : Bytes} (host : s.host = .reading request line)
    (awaits : s.Awaits request line) (moved : s.move valid .ended = some t) : t.Lockstep := by
  simp only [move, host] at moved
  split_ifs at moved with finished nothing <;> obtain rfl := Option.some.inj moved
  · exact .gone rfl awaits.gone
  · cases awaits with
    | sent _ _ _ start | handled _ _ _ start => exact absurd start nothing
    | answered response earlier guest toGuest way whole clean unfinished last settled =>
      rw [finished.2, List.append_nil] at way
      exact finish_lockstep ⟨guest, toGuest, finished.2⟩ last settled
        ⟨rfl, line_prefix way unfinished, fun still => by simp [finished.1] at still⟩

theorem reading_move {request line : Bytes} (host : s.host = .reading request line)
    (plain : newline ∉ request) (awaits : s.Awaits request line)
    (moved : s.move valid label = some t) : t.Lockstep := by
  cases label with
  | take => exact reading_guest host plain awaits (.inl rfl) moved
  | receive count => exact reading_guest host plain awaits (.inr (.inl ⟨count, rfl⟩)) moved
  | answer response => exact reading_guest host plain awaits (.inr (.inr ⟨response, rfl⟩)) moved
  | read count => exact reading_read host plain awaits moved
  | ended => exact reading_ended host awaits moved
  | close kept =>
    obtain rfl := Option.some.inj moved
    refine .reading request line host plain ?_
    cases awaits with
    | sent idle way toHost start settled =>
      exact .sent idle way (by simp [toHost]) start (loosened settled)
    | handled guest toGuest toHost start settled =>
      exact .handled guest toGuest (by simp [toHost]) start (loosened settled)
    | answered response earlier guest toGuest way whole clean unfinished last settled =>
      have less : line ++ s.toHost.take kept <+: response ++ [newline] :=
        ((List.prefix_append_right_inj line).mpr (List.take_prefix _ _)).trans way
      exact .answered response earlier guest toGuest less (fun same => by cases same) clean
        unfinished last (loosened settled)
  | timeout =>
    simp only [move, host] at moved
    obtain rfl := Option.some.inj moved
    exact .gone rfl awaits.gone
  | begin | write count | retire => simp [move, host] at moved

/-- Each step leaves the two ends in step. -/
theorem Lockstep.step (lockstep : s.Lockstep) (stepped : s.step valid label = some t) :
    t.Lockstep := by
  simp only [Session.step] at stepped
  split_ifs at stepped with dead
  cases lockstep with
  | idle host silent settled => exact idle_move silent settled host stepped
  | writing request rest host plain idle way more toHost settled =>
    exact writing_move host plain idle way more toHost settled stepped
  | reading request line host plain awaits => exact reading_move host plain awaits stepped
  | gone host => exact absurd host dead

theorem lockstep_run (run : Runs.Reaches (step valid) (fun _ _ => True) started s) :
    s.Lockstep :=
  run.invariant (.idle rfl ⟨rfl, rfl, rfl⟩ .nil) (fun lockstep _ stepped => lockstep.step stepped)

/-- Responses are never mixed up between the executions on one machine, however the bytes are cut
into pieces, and whatever breaks off or comes too late: the node takes for each request the response
that the agent gave to just this request, one after the other; of the last it may get the beginning
only, when the connection has broken off. Between two executions nothing is on its way. -/
theorem responses_matched (run : Runs.Reaches (step valid) (fun _ _ => True) started s) :
    (∃ handled rest, s.answers = handled ++ rest ∧ rest.length ≤ 1 ∧
      List.Forall₂ (fun answer taken => taken.1 = answer.1 ∧ taken.2 <+: answer.2 ∧
        (s.closed = false → taken.2 = answer.2)) handled s.completed) ∧
      (s.host = .idle → s.guest.buffer = [] ∧ s.toGuest = [] ∧ s.toHost = []) := by
  have lockstep := lockstep_run run
  refine ⟨?_, fun idle => ?_⟩
  · cases lockstep with
    | idle _ _ settled | writing _ _ _ _ _ _ _ _ settled =>
      exact ⟨s.answers, [], by simp, by simp, settled⟩
    | reading request line _ _ awaits => exact awaits.gone
    | gone _ settled => exact settled
  · cases lockstep with
    | idle _ silent _ =>
      exact ⟨congrArg Guest.buffer silent.guest, silent.toGuest, silent.toHost⟩
    | writing _ _ host | reading _ _ host | gone host =>
      rw [host] at idle
      cases idle

end Session

namespace Demo

/-- Two executions on one machine. The first response comes in two pieces. -/
def exchanging : List Label :=
  [.begin [1, 2], .write 1, .write 5, .receive 2, .receive 9, .take, .answer [3, 4], .read 1, .read 7,
    .begin [5], .write 2, .receive 2, .take, .answer [6], .read 3]

end Demo

namespace Session

theorem responses_matched_twice : ∃ s : Session, s.completed = [([1, 2], [3, 4]), ([5], [6])] ∧
    s.toGuest = [] ∧ s.toHost = [] := by
  obtain ⟨s, run, told⟩ := Runs.exists_reaches (step (fun _ => true)) (fun _ _ => True) started
    Demo.exchanging (fun s => decide (s.host = .idle) &&
      decide (s.completed = [([1, 2], [3, 4]), ([5], [6])])) (by decide +kernel)
  simp only [Bool.and_eq_true, decide_eq_true_eq] at told
  exact ⟨s, told.2, ((responses_matched run).2 told.1).2⟩

end Session
end Scraperack.Exchanges
