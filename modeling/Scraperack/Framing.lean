import Mathlib

/-! Messages on a byte stream, each behind its length in four bytes. A receiver reads until it has a given number of
bytes, however the stream is cut into pieces on the way. -/

namespace Framing

abbrev Bytes := List UInt8

/-- The reading end of a connection: what has arrived and will arrive, in pieces. -/
structure Socket where
  chunks : List Bytes
  nonempty : ∀ chunk ∈ chunks, chunk ≠ []

namespace Socket

def bytes (socket : Socket) : Bytes := socket.chunks.flatten

/-- `recv`: what there is of the first piece, up to the size; no bytes at the end of the stream. -/
def recv (size : Nat) : Socket → Bytes × Socket
  | ⟨[], nonempty⟩ => ([], ⟨[], nonempty⟩)
  | ⟨chunk :: rest, nonempty⟩ =>
    if more : size < chunk.length then
      (chunk.take size, ⟨chunk.drop size :: rest, List.forall_mem_cons.mpr
        ⟨fun none_left => absurd (List.drop_eq_nil_iff.mp none_left) (Nat.not_le_of_lt more),
          (List.forall_mem_cons.mp nonempty).2⟩⟩)
    else (chunk, ⟨rest, (List.forall_mem_cons.mp nonempty).2⟩)

theorem recv_bytes (size : Nat) (socket : Socket) :
    (socket.recv size).1 ++ (socket.recv size).2.bytes = socket.bytes := by
  obtain ⟨_ | ⟨chunk, rest⟩, nonempty⟩ := socket
  · rfl
  · simp only [recv]
    split_ifs
    · simp [bytes, ← List.append_assoc]
    · rfl

theorem recv_length (size : Nat) (socket : Socket) : (socket.recv size).1.length ≤ size := by
  obtain ⟨_ | ⟨chunk, rest⟩, nonempty⟩ := socket
  · exact Nat.zero_le _
  · simp only [recv]
    split_ifs with more
    · exact List.length_take_le _ _
    · exact Nat.le_of_not_lt more

/-- No bytes come only at the end. -/
theorem recv_eq_nil {size : Nat} (positive : 0 < size) {socket : Socket}
    (ended : (socket.recv size).1 = []) : socket.bytes = [] := by
  obtain ⟨_ | ⟨chunk, rest⟩, nonempty⟩ := socket
  · rfl
  · have there := nonempty chunk List.mem_cons_self
    simp only [recv] at ended
    split_ifs at ended
    · rcases List.take_eq_nil_iff.mp ended with zero | gone
      · omega
      · exact absurd gone there
    · exact absurd ended there

end Socket

variable {ρ : Type}

/-- Read until there are `size` bytes. `closed` is the outcome when the stream ends before. -/
def receive (closed : ρ) (obtained : Bytes → ρ) (size : Nat) (data : Bytes) (socket : Socket) :
    ρ × Socket :=
  if data.length < size then
    match socket.recv (size - data.length) with
    | ([], rest) => (closed, rest)
    | (byte :: chunk, rest) => receive closed obtained size (data ++ byte :: chunk) rest
  else (obtained data, socket)
termination_by size - data.length
decreasing_by
  rw [List.length_append, List.length_cons]
  omega

/-- The outcome depends on the bytes alone, not on the pieces. -/
theorem receive_spec (closed : ρ) (obtained : Bytes → ρ) (size : Nat) (data : Bytes)
    (socket : Socket) (fits : data.length ≤ size) :
    ∃ rest, receive closed obtained size data socket =
      (if size ≤ data.length + socket.bytes.length then
        obtained (data ++ socket.bytes.take (size - data.length)) else closed, rest) ∧
      rest.bytes = socket.bytes.drop (size - data.length) := by
  fun_induction receive closed obtained size data socket with
  | case1 data socket short rest ended =>
    have none_left : socket.bytes = [] := by
      refine socket.recv_eq_nil (Nat.sub_pos_of_lt short) ?_
      rw [ended]
    have after := socket.recv_bytes (size - data.length)
    rw [ended, none_left] at after
    refine ⟨rest, ?_, ?_⟩
    · rw [none_left, if_neg (by simpa using short)]
    · rw [none_left, List.drop_nil]
      exact after
  | case2 data socket short byte chunk rest more ih =>
    have after := socket.recv_bytes (size - data.length)
    have bound := socket.recv_length (size - data.length)
    rw [more] at after bound
    change byte :: chunk ++ rest.bytes = socket.bytes at after
    change (byte :: chunk).length ≤ _ at bound
    have longer : (data ++ byte :: chunk).length = data.length + (byte :: chunk).length :=
      List.length_append
    obtain ⟨last, outcome, left⟩ := ih (by omega)
    have remains : size - (data ++ byte :: chunk).length =
        size - data.length - (byte :: chunk).length := by omega
    refine ⟨last, ?_, ?_⟩
    · rw [outcome, remains, ← after, List.take_append, List.take_of_length_le bound,
        List.append_assoc, longer, List.length_append, Nat.add_assoc]
    · rw [left, remains, ← after, List.drop_append, List.drop_eq_nil_of_le bound, List.nil_append]
  | case3 data socket enough =>
    have whole : size - data.length = 0 := by omega
    exact ⟨socket, by simp [whole, show size ≤ data.length + socket.bytes.length by omega]⟩

theorem receive_front (closed : ρ) (obtained : Bytes → ρ) {front back : Bytes} {socket : Socket}
    (bytes : socket.bytes = front ++ back) :
    ∃ rest, receive closed obtained front.length [] socket = (obtained front, rest) ∧
      rest.bytes = back := by
  obtain ⟨rest, outcome, left⟩ :=
    receive_spec closed obtained front.length [] socket (Nat.zero_le _)
  rw [bytes, List.length_nil, Nat.sub_zero, Nat.zero_add, List.length_append,
    if_pos (Nat.le_add_right _ _), List.take_left', List.nil_append] at outcome
  · rw [bytes, List.length_nil, Nat.sub_zero, List.drop_left'] at left
    · exact ⟨rest, outcome, left⟩
    · rfl
  · rfl

theorem receive_short (closed : ρ) (obtained : Bytes → ρ) {size : Nat} {socket : Socket}
    (short : socket.bytes.length < size) :
    ∃ rest, receive closed obtained size [] socket = (closed, rest) ∧ rest.bytes = [] := by
  obtain ⟨rest, outcome, left⟩ := receive_spec closed obtained size [] socket (Nat.zero_le _)
  rw [List.length_nil, Nat.zero_add, if_neg (Nat.not_le_of_lt short)] at outcome
  rw [List.length_nil, Nat.sub_zero, List.drop_eq_nil_of_le (Nat.le_of_lt short)] at left
  exact ⟨rest, outcome, left⟩

/-! Frames. -/

/-- `n.to_bytes(4, "big")`, for numbers below 2³². -/
def toBytes (n : Nat) : Bytes :=
  [UInt8.ofNat (n / 2 ^ 24), UInt8.ofNat (n / 2 ^ 16), UInt8.ofNat (n / 2 ^ 8), UInt8.ofNat n]

/-- `int.from_bytes(bytes, "big")`. -/
def fromBytes (bytes : Bytes) : Nat := bytes.foldl (fun n byte => n * 256 + byte.toNat) 0

theorem fromBytes_toBytes {n : Nat} (small : n < 2 ^ 32) : fromBytes (toBytes n) = n := by
  simp only [fromBytes, toBytes, List.foldl_cons, List.foldl_nil, UInt8.toNat_ofNat']
  omega

def frame (message : Bytes) : Bytes := toBytes message.length ++ message

/-- What comes on the connection: the frames of some messages, and then a part of one more. -/
structure Sent (messages : List Bytes) (message : Bytes) (cut : Nat) (socket : Socket) : Prop where
  small : ∀ other ∈ messages, other.length < 2 ^ 32
  last_small : message.length < 2 ^ 32
  inside : cut < (frame message).length
  bytes : socket.bytes = (messages.map frame).flatten ++ (frame message).take cut

section
variable (closed : ρ) (obtained : Bytes → ρ) {messages : List Bytes} {first message : Bytes}
  {cut : Nat} {socket : Socket}

/-- The next frame gives its message and leaves the others. -/
theorem receive_frame (sent : Sent (first :: messages) message cut socket) :
    ∃ body rest, receive closed obtained 4 [] socket = (obtained (toBytes first.length), body) ∧
      receive closed obtained (fromBytes (toBytes first.length)) [] body = (obtained first, rest) ∧
      Sent messages message cut rest := by
  obtain ⟨small, last_small, inside, bytes⟩ := sent
  have whole : socket.bytes = toBytes first.length ++
      (first ++ ((messages.map frame).flatten ++ (frame message).take cut)) := by
    rw [bytes, List.map_cons, List.flatten_cons, frame, List.append_assoc, List.append_assoc]
  obtain ⟨body, header, after⟩ := receive_front closed obtained whole
  obtain ⟨rest, obtains, left⟩ := receive_front closed obtained after
  rw [fromBytes_toBytes (small first List.mem_cons_self)]
  exact ⟨body, rest, header, obtains,
    fun other member => small other (List.mem_cons_of_mem _ member), last_small, inside, left⟩

/-- Behind the last frame there is no length, or a length without all of its message. -/
theorem receive_end (sent : Sent [] message cut socket) :
    if cut < 4 then ∃ rest, receive closed obtained 4 [] socket = (closed, rest)
    else ∃ body rest, receive closed obtained 4 [] socket =
        (obtained (toBytes message.length), body) ∧
      receive closed obtained (fromBytes (toBytes message.length)) [] body = (closed, rest) ∧
      rest.bytes = [] := by
  obtain ⟨-, small, inside, bytes⟩ := sent
  rw [List.map_nil, List.flatten_nil, List.nil_append] at bytes
  have four : (toBytes message.length).length = 4 := rfl
  split_ifs with before
  · have short : socket.bytes.length < 4 := by
      rw [bytes, List.length_take]
      omega
    obtain ⟨rest, ended, -⟩ := receive_short closed obtained short
    exact ⟨rest, ended⟩
  · rw [frame, List.length_append, four] at inside
    rw [frame, List.take_append, List.take_of_length_le (by omega)] at bytes
    obtain ⟨body, header, after⟩ := receive_front closed obtained bytes
    have short : body.bytes.length < message.length := by
      rw [after, List.length_take]
      omega
    obtain ⟨rest, ended, left⟩ := receive_short closed obtained short
    rw [fromBytes_toBytes small]
    exact ⟨body, rest, header, ended, left⟩

end

end Framing
