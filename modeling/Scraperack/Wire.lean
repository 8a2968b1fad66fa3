import Scraperack.Framing

/-! The connection between the agent in the guest and its Python executor. Both ends send frames and read them in the
same loop; where the stream ends, the agent's raises an exception and the executor's returns `None`. -/

namespace Scraperack.Wire
open Framing

/-! The executor. -/

namespace Executor

/-- `receive` of the executor. -/
def receive (size : Nat) (socket : Socket) : Option Framing.Bytes × Socket :=
  Framing.receive none some size [] socket

/-- What one round of the server loop gave to `handle`, if anything, and what it sent back. -/
structure Round (V R : Type) where
  payload : Option V
  response : R

variable {V R : Type} (loads : Framing.Bytes → Option V) (handle : V → Option R) (failed : R)

/-- `json.loads` and `handle` on a body, which is `None` if it has not come whole; every exception becomes a
response. -/
def round (body : Option Framing.Bytes) : Round V R :=
  let payload := body.bind loads
  ⟨payload, (payload.bind handle).getD failed⟩

theorem receive_left (size : Nat) (socket : Socket) :
    (receive size socket).2.bytes = socket.bytes.drop size ∧
      ((receive size socket).1 ≠ none → size ≤ socket.bytes.length) := by
  obtain ⟨rest, outcome, left⟩ :=
    receive_spec (none : Option Framing.Bytes) some size [] socket (Nat.zero_le _)
  rw [receive, outcome, List.length_nil, Nat.zero_add]
  refine ⟨left, fun obtained => ?_⟩
  by_contra short
  exact obtained (if_neg short)

/-- The server loop on one connection. -/
def serve (socket : Socket) : List (Round V R) :=
  match _taken : receive 4 socket with
  | (none, _) => []
  | (some header, body) =>
    round loads handle failed (receive (fromBytes header) body).1 ::
      serve (receive (fromBytes header) body).2
termination_by socket.bytes.length
decreasing_by
  have after := receive_left 4 socket
  rw [_taken] at after
  have enough := after.2 nofun
  rw [(receive_left (fromBytes header) body).1, after.1, List.length_drop, List.length_drop]
  omega

variable {loads handle failed}

theorem serve_end {socket : Socket} (ended : (receive 4 socket).1 = none) :
    serve loads handle failed socket = [] := by
  rw [serve]
  split
  · rfl
  · rename_i taken
    rw [taken] at ended
    cases ended

theorem serve_frame {socket body rest : Socket} {header : Framing.Bytes} {message : Option Framing.Bytes}
    (length : receive 4 socket = (some header, body))
    (data : receive (fromBytes header) body = (message, rest)) :
    serve loads handle failed socket =
      round loads handle failed message :: serve loads handle failed rest := by
  rw [serve]
  split
  · rename_i taken
    rw [taken] at length
    cases length
  · rename_i taken
    rw [taken] at length
    cases length
    rw [data]

/-- The loop handles the messages that have come whole, in their order, and answers a truncated one without
handling it. -/
theorem serve_sent {messages : List Framing.Bytes} {message : Framing.Bytes} {cut : Nat} {socket : Socket}
    (sent : Sent messages message cut socket) :
    serve loads handle failed socket =
      messages.map (fun message => round loads handle failed (some message)) ++
        if cut < 4 then [] else [⟨none, failed⟩] := by
  induction messages generalizing socket with
  | nil =>
    have ends := receive_end (none : Option Framing.Bytes) some sent
    split_ifs at ends ⊢ with before
    · obtain ⟨rest, ended⟩ := ends
      exact serve_end (congrArg Prod.fst ended)
    · obtain ⟨body, rest, header, ended, left⟩ := ends
      rw [serve_frame header ended, serve_end]
      · rfl
      · obtain ⟨last, nothing, -⟩ := receive_short (none : Option Framing.Bytes) some
          (show rest.bytes.length < 4 by rw [left]; decide)
        exact congrArg Prod.fst nothing
  | cons first others ih =>
    obtain ⟨body, rest, header, data, sent⟩ := receive_frame (none : Option Framing.Bytes) some sent
    rw [serve_frame header data, ih sent]
    rfl

end Executor

/-! The agent. -/

namespace Agent

def closed : String := "executor closed the connection"

/-- `receive` of the agent. -/
def receive (size : Nat) (socket : Socket) : Except String Framing.Bytes × Socket :=
  Framing.receive (.error closed) .ok size [] socket

/-- `receive(connection, int.from_bytes(receive(connection, 4), "big"))`. -/
def response (socket : Socket) : Except String Framing.Bytes × Socket :=
  match receive 4 socket with
  | (.error cause, rest) => (.error cause, rest)
  | (.ok header, body) => receive (fromBytes header) body

/-- What an attempt meets: the connection that `connect_executor` makes, should there be none, and the fate of the
request. -/
structure Attempt where
  connected : Except String Socket
  sent : Except String Unit

def Attempt.run (attempt : Attempt) (connection : Option Socket) :
    Except String Framing.Bytes × Option Socket :=
  match connection.elim attempt.connected .ok with
  | .error cause => (.error cause, none)
  | .ok socket =>
    match attempt.sent with
    | .error cause => (.error cause, none)
    | .ok () =>
      match response socket with
      | (.error cause, _) => (.error cause, none)
      | (.ok data, rest) => (.ok data, some rest)

/-- `executor_request`, up to the bytes that `json.loads` reads. -/
def executorRequest (connection : Option Socket) (first second : Attempt) :
    Except String Framing.Bytes × Option Socket :=
  match first.run connection with
  | (.error _, connection) => second.run connection
  | outcome => outcome

/-- The responses to so many requests on one connection. -/
def responses : Nat → Socket → List (Except String Framing.Bytes)
  | 0, _ => []
  | count + 1, socket => (response socket).1 :: responses count (response socket).2

variable {messages : List Framing.Bytes} {first message : Framing.Bytes} {cut : Nat} {socket : Socket}

theorem response_frame (sent : Sent (first :: messages) message cut socket) :
    ∃ rest, response socket = (.ok first, rest) ∧ Sent messages message cut rest := by
  obtain ⟨body, rest, header, data, sent⟩ := receive_frame (.error closed) Except.ok sent
  refine ⟨rest, ?_, sent⟩
  rw [response, receive, header]
  exact data

theorem response_end (sent : Sent [] message cut socket) :
    ∃ rest, response socket = (.error closed, rest) := by
  have ends := receive_end (.error closed : Except String Framing.Bytes) .ok sent
  split_ifs at ends with before
  · obtain ⟨rest, ended⟩ := ends
    exact ⟨rest, by rw [response, receive, ended]⟩
  · obtain ⟨body, rest, header, ended, -⟩ := ends
    refine ⟨rest, ?_⟩
    rw [response, receive, header]
    exact ended

/-- The messages that have come whole are the responses, and then the connection is closed. -/
theorem responses_sent (sent : Sent messages message cut socket) :
    responses (messages.length + 1) socket = messages.map .ok ++ [.error closed] := by
  induction messages generalizing socket with
  | nil =>
    obtain ⟨rest, ended⟩ := response_end sent
    simp [responses, ended]
  | cons first others ih =>
    obtain ⟨rest, data, sent⟩ := response_frame sent
    rw [List.length_cons, responses, data, ih sent]
    rfl

/-- An attempt returns the first message on its connection, or nothing. -/
theorem run_sent {attempt : Attempt} {connection : Option Socket} {data : Framing.Bytes}
    (sent : Sent messages message cut socket)
    (reached : connection.elim attempt.connected .ok = .ok socket)
    (returned : (attempt.run connection).1 = .ok data) : messages.head? = some data := by
  unfold Attempt.run at returned
  rw [reached] at returned
  cases messages with
  | nil =>
    obtain ⟨rest, ended⟩ := response_end sent
    cases fate : attempt.sent <;> simp [fate, ended] at returned
  | cons first others =>
    obtain ⟨rest, found, -⟩ := response_frame sent
    cases fate : attempt.sent with
    | error cause => simp [fate] at returned
    | ok done =>
      simp only [fate, found, Except.ok.injEq] at returned
      exact congrArg some returned

/-- After an error there is no connection. -/
theorem run_error {attempt : Attempt} {connection next : Option Socket} {cause : String}
    (failed : attempt.run connection = (.error cause, next)) : next = none := by
  unfold Attempt.run at failed
  split at failed
  · cases failed
    rfl
  · split at failed
    · cases failed
      rfl
    · split at failed <;> cases failed
      rfl

end Agent

/-- However the stream of the frames is cut into pieces, and wherever it ends within a frame, the executor handles the
messages that have come whole, in their order, and nothing else; the agent reads these messages and then sees that
the connection is closed; and a request returns the next message on its connection, or the first one on the
connection of its second attempt. -/
theorem framing_lossless {messages : List Framing.Bytes} {message : Framing.Bytes} {cut : Nat} {socket : Socket}
    (sent : Sent messages message cut socket) :
    (∀ (V R : Type) (loads : Framing.Bytes → Option V) (handle : V → Option R) (failed : R),
      Executor.serve loads handle failed socket =
        messages.map (fun message => Executor.round loads handle failed (some message)) ++
          if cut < 4 then [] else [⟨none, failed⟩]) ∧
      Agent.responses (messages.length + 1) socket =
        messages.map .ok ++ [.error Agent.closed] ∧
      ∀ (connection : Option Socket) (first second : Agent.Attempt) (data : Framing.Bytes),
        connection.elim first.connected .ok = .ok socket →
        (Agent.executorRequest connection first second).1 = .ok data →
          messages.head? = some data ∨ ∃ other, second.connected = .ok other ∧
            ∀ messages message cut, Sent messages message cut other →
              messages.head? = some data := by
  refine ⟨fun _ _ _ _ _ => Executor.serve_sent sent, Agent.responses_sent sent,
    fun connection first second data reached returned => ?_⟩
  unfold Agent.executorRequest at returned
  cases attempted : first.run connection with
  | mk outcome next =>
    rw [attempted] at returned
    cases outcome with
    | ok obtained =>
      refine .inl (Agent.run_sent sent reached ?_)
      rw [attempted]
      exact returned
    | error cause =>
      -- the second attempt begins with a connection of its own
      obtain rfl := Agent.run_error attempted
      cases connects : second.connected with
      | error cause => simp [Agent.Attempt.run, connects] at returned
      | ok other =>
        refine .inr ⟨other, rfl, fun _ _ _ sent => ?_⟩
        have reached : (none : Option Socket).elim second.connected .ok = .ok other := connects
        exact Agent.run_sent sent reached returned

/-- Two messages, the second of them empty, in pieces that do not respect them, and the start of a third. -/
def pieces : Socket :=
  ⟨[[0, 0], [0, 2, 7], [8, 0, 0, 0, 0, 0], [0, 0, 3, 9]], by decide⟩

theorem framing_lossless_pieces :
    Agent.responses 3 pieces = [.ok [7, 8], .ok [], .error Agent.closed] := by
  have sent : Sent [[7, 8], []] [9, 9, 9] 5 pieces :=
    ⟨by decide, by decide, by decide, by decide⟩
  exact (framing_lossless sent).2.1

end Scraperack.Wire
