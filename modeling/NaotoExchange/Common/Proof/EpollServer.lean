import NaotoExchange.Common.EpollServer

/-!
# What a connection has delivered

`Received wire stream consumed c`: `recv` has returned the bytes `consumed` of `stream`, and what
`c` handed on and keeps is a function of `consumed`. A batch keeps it if it is `Whole`, the loop for
the first message always does.
-/

namespace Naoto.Wire

open Frames

variable (wire : Wire)

/-! ## The meaning of a stream -/

/-- What `FirstMessageHandle` has to get. -/
def header (consumed : List UInt8) : List (List UInt8) :=
  if wire.init.isSome ∧ wire.initSize ≤ consumed.length then [consumed.take wire.initSize] else []

/-- What is cut into messages. -/
def body (consumed : List UInt8) : List UInt8 := consumed.drop wire.initSize

/-- What has to wait in the buffer. -/
def kept (consumed : List UInt8) : List UInt8 :=
  if consumed.length < wire.initSize then consumed else tail wire.size (wire.body consumed)

/-- What the server has made of the bytes it consumed. -/
structure Received (stream consumed : List UInt8) (c : Conn) : Prop where
  stream : stream = consumed ++ c.unread
  first : c.first = wire.header consumed
  pushed : c.pushed.flatten = frames wire.size (wire.body consumed)
  buffer : c.buffer = wire.kept consumed
  waiting : c.firstMessage = decide (consumed.length < wire.initSize)
  closed : c.closed = false

section
variable {wire} {stream consumed buffer piece : List UInt8} {c : Conn} {mem : Nat → UInt8}

theorem initSize_le : wire.initSize ≤ wire.size := by
  unfold initSize
  cases h : wire.init with
  | none => exact Nat.zero_le _
  | some k => exact wire.init_le k h

theorem isSome_iff_initSize : wire.init.isSome ↔ 0 < wire.initSize := by
  unfold initSize
  cases h : wire.init with
  | none => simp
  | some k => simpa using wire.init_pos k h

theorem newConn_received (wire : Wire) (stream : List UInt8) :
    wire.Received stream [] (wire.newConn stream) where
  stream := rfl
  first := by
    have h := wire.isSome_iff_initSize
    rw [header, if_neg (by rw [h, List.length_nil]; omega)]
    rfl
  pushed := by
    rw [body, List.drop_nil, frames_of_lt (l := []) wire.size_pos]
    rfl
  buffer := by
    unfold kept body
    split
    · rfl
    · rw [List.drop_nil, tail_of_lt wire.size_pos]
      rfl
  waiting := by
    rw [Bool.eq_iff_iff, decide_eq_true_iff]
    exact wire.isSome_iff_initSize
  closed := rfl

/-! ## One batch -/

theorem take_append_drop_length (l : List UInt8) (n : Nat) :
    l.take n ++ l.drop (l.take n).length = l := by
  rw [List.length_take]
  rcases Nat.le_total n l.length with hle | hle
  · rw [Nat.min_eq_left hle, List.take_append_drop]
  · rw [Nat.min_eq_right hle, List.take_of_length_le hle, List.drop_length, List.append_nil]

theorem split_fst (wire : Wire) (buffer piece : List UInt8) (mem : Nat → UInt8) :
    (wire.split buffer piece mem).1 = frames wire.size (buffer ++ piece) := by
  rw [← readMem_frames wire.size mem, List.length_append, Nat.add_comm]
  rfl

/-- The bytes that are kept are those behind the last message if the pointer is right: there is no
message, or nothing to keep. -/
theorem split_snd (h : wire.Whole (buffer.length + piece.length)) :
    (wire.split buffer piece mem).2 = tail wire.size (buffer ++ piece) := by
  have hlen : (buffer ++ piece).length = piece.length + buffer.length := by
    rw [List.length_append, Nat.add_comm]
  unfold split
  simp only [← hlen]
  rw [← List.length_append] at h
  obtain h | h := h
  · have hzero : wire.size * (wire.size * ((buffer ++ piece).length / wire.size)) = 0 := by
      rw [Nat.div_eq_of_lt h, Nat.mul_zero, Nat.mul_zero]
    rw [hzero, Nat.mod_eq_of_lt h, readMem_fill mem (by omega), tail_of_lt h, List.drop_zero,
      List.take_length, addBytes, if_neg (by simp only [List.length_nil]; omega)]
    rfl
  · rw [h, tail_of_mod h]
    simp [readMem, addBytes]

theorem body_append (h : wire.initSize ≤ consumed.length) (piece : List UInt8) :
    wire.body (consumed ++ piece) = wire.body consumed ++ piece :=
  List.drop_append_of_le_length h

theorem header_append (h : wire.initSize ≤ consumed.length) (piece : List UInt8) :
    wire.header (consumed ++ piece) = wire.header consumed := by
  have h' : wire.initSize ≤ (consumed ++ piece).length := by rw [List.length_append]; omega
  unfold header
  rw [List.take_append_of_le_length h]
  simp only [h, h', and_true]

theorem kept_of_le (h : wire.initSize ≤ consumed.length) :
    wire.kept consumed = tail wire.size (wire.body consumed) :=
  if_neg (by omega)

/-- **A whole batch delivers the next bytes of the stream.** Whether an empty batch is pushed makes
no difference. -/
theorem Received.batch {n : Nat} (h : wire.Received stream consumed c)
    (hinit : wire.initSize ≤ consumed.length) (mem : Nat → UInt8)
    (pushed : List (List (List UInt8)))
    (hw : wire.Whole (c.buffer.length + (wire.piece c n).length))
    (hpushed : pushed.flatten = c.pushed.flatten ++ (wire.split c.buffer (wire.piece c n) mem).1) :
    wire.Received stream (consumed ++ wire.piece c n)
      { c with
        unread := c.unread.drop (wire.piece c n).length
        buffer := (wire.split c.buffer (wire.piece c n) mem).2
        pushed := pushed } := by
  have hinit' : wire.initSize ≤ (consumed ++ wire.piece c n).length := by
    rw [List.length_append]
    omega
  have hbuffer : c.buffer = tail wire.size (wire.body consumed) := by
    rw [h.buffer, kept_of_le hinit]
  refine ⟨?_, ?_, ?_, ?_, ?_, h.closed⟩
  · rw [List.append_assoc]
    show stream = consumed ++ (wire.piece c n ++ c.unread.drop (wire.piece c n).length)
    rw [piece, take_append_drop_length, ← h.stream]
  · rw [header_append hinit]
    exact h.first
  · rw [body_append hinit, frames_append wire.size_pos, ← hbuffer, ← h.pushed,
      ← split_fst wire _ _ mem]
    exact hpushed
  · rw [kept_of_le hinit', body_append hinit, tail_append wire.size_pos, ← hbuffer]
    exact split_snd hw
  · rw [decide_eq_false (by omega)]
    rw [← decide_eq_false (show ¬ consumed.length < wire.initSize by omega)]
    exact h.waiting

theorem Received.receive {n : Nat} (h : wire.Received stream consumed c)
    (hinit : wire.initSize ≤ consumed.length)
    (hw : wire.Whole (c.buffer.length + (wire.piece c n).length)) :
    wire.Received stream (consumed ++ wire.piece c n) (wire.receive c (wire.piece c n) mem) := by
  apply h.batch hinit mem _ hw
  split
  · rename_i hempty
    rw [List.isEmpty_iff.1 hempty, List.append_nil]
  · rw [List.flatten_append, List.flatten_singleton]

/-- The loop for the batches, by induction on the answers of `recv`. -/
theorem Received.batchLoop {rs : List Recv} (h : wire.Received stream consumed c)
    (hinit : wire.initSize ≤ consumed.length) (hw : ∀ k ∈ wire.batchTotals c rs, wire.Whole k) :
    ∃ consumed', wire.Received stream consumed' (wire.batchLoop c rs) := by
  induction rs generalizing c consumed with
  | nil => exact ⟨consumed, h⟩
  | cons r rs ih =>
    cases r with
    | intr => exact ih h hinit hw
    | bytes n mem =>
      simp only [Wire.batchLoop, Wire.batchTotals] at hw ⊢
      split
      · exact ⟨consumed, h⟩
      · rename_i hne
        rw [if_neg hne] at hw
        have hfirst := hw _ (.head _)
        apply ih (h.receive hinit hfirst)
        · rw [List.length_append]
          omega
        · intro k hk
          exact hw k (.tail _ hk)

/-! ## The first message -/

/-- The buffer has all the bytes that came so far, and they are not more than the first message. -/
structure Starting (wire : Wire) (stream : List UInt8) (c : Conn) : Prop where
  stream : stream = c.buffer ++ c.unread
  le : c.buffer.length ≤ wire.initSize
  first : c.first = []
  pushed : c.pushed.flatten = []
  waiting : c.firstMessage = true
  closed : c.closed = false

theorem Received.starting (h : wire.Received stream consumed c) (hfirst : c.firstMessage = true) :
    Starting wire stream c := by
  have hlt : consumed.length < wire.initSize := by
    rw [h.waiting] at hfirst
    exact of_decide_eq_true hfirst
  have hbuffer : c.buffer = consumed := by rw [h.buffer, kept, if_pos hlt]
  refine ⟨?_, ?_, ?_, ?_, hfirst, h.closed⟩
  · rw [hbuffer]
    exact h.stream
  · rw [hbuffer]
    exact hlt.le
  · rw [h.first, header, if_neg (by omega)]
  · rw [h.pushed, body, List.drop_of_length_le hlt.le, frames_of_lt (l := []) wire.size_pos]

/-- While the first message is not complete, nothing else has happened. -/
theorem Starting.received (h : Starting wire stream c) (hlt : c.buffer.length < wire.initSize) :
    wire.Received stream c.buffer c where
  stream := h.stream
  first := by rw [h.first, header, if_neg (by omega)]
  pushed := by
    rw [h.pushed, body, List.drop_of_length_le hlt.le, frames_of_lt (l := []) wire.size_pos]
  buffer := by rw [kept, if_pos hlt]
  waiting := by rw [h.waiting, decide_eq_true hlt]
  closed := h.closed

/-- The first message is handed over when it is complete. -/
theorem Starting.takeFirst (h : Starting wire stream c) (hge : wire.initSize ≤ c.buffer.length)
    (hsome : wire.init.isSome) : wire.Received stream c.buffer (wire.takeFirst c) where
  stream := h.stream
  first := by
    rw [header, if_pos ⟨hsome, hge⟩, Wire.takeFirst, h.first]
    rfl
  pushed := by
    rw [body, List.drop_of_length_le h.le, frames_of_lt (l := []) wire.size_pos]
    exact h.pushed
  buffer := by
    rw [kept_of_le hge, body, List.drop_of_length_le h.le, tail_of_lt (l := []) wire.size_pos]
    exact List.drop_of_length_le h.le
  waiting := by
    rw [decide_eq_false (by omega)]
    rfl
  closed := h.closed

/-- The loop for the first message never overflows the buffer. -/
theorem Starting.firstLoop {rs : List Recv} (h : Starting wire stream c) :
    Starting wire stream (wire.firstLoop c rs).1 := by
  induction rs generalizing c with
  | nil => exact h
  | cons r rs ih =>
    unfold Wire.firstLoop
    split
    · cases r with
      | intr => exact h
      | bytes n mem =>
        dsimp only
        generalize hbytes : c.unread.take (min n (wire.initSize - c.buffer.length)) = bytes
        have hlen : bytes.length ≤ wire.initSize - c.buffer.length := by
          rw [← hbytes, List.length_take]
          omega
        have hle := h.le
        have hsize := wire.initSize_le
        split
        · exact h
        · rw [addBytes, if_neg (by omega)]
          apply ih
          refine ⟨?_, ?_, h.first, h.pushed, h.waiting, h.closed⟩
          · have htake : bytes ++ c.unread.drop bytes.length = c.unread := by
              rw [← hbytes]
              exact take_append_drop_length _ _
            rw [List.append_assoc, htake]
            exact h.stream
          · rw [List.length_append]
            omega
    · exact h

/-! ## A call -/

/-- **One call of `readMessage`** whose batches are whole. -/
theorem Received.readMessage {rs : List Recv} (h : wire.Received stream consumed c)
    (hw : ∀ k ∈ wire.readTotals c rs, wire.Whole k) :
    ∃ consumed', wire.Received stream consumed' (wire.readMessage c rs) := by
  unfold Wire.readMessage
  unfold readTotals at hw
  split
  · rename_i hfirst
    have hstart : Starting wire stream (wire.firstLoop c rs).1 := (h.starting hfirst).firstLoop
    have hsome : wire.init.isSome := by
      rw [h.waiting] at hfirst
      rw [isSome_iff_initSize]
      exact Nat.zero_lt_of_lt (of_decide_eq_true hfirst)
    simp only [if_pos hfirst, hstart.closed, Bool.false_eq_true, if_false] at hw ⊢
    split
    · rename_i hge
      rw [if_pos hge] at hw
      exact (hstart.takeFirst hge hsome).batchLoop hge hw
    · rename_i hlt
      exact ⟨_, hstart.received (Nat.lt_of_not_le hlt)⟩
  · rename_i hfirst
    rw [if_neg hfirst] at hw
    apply h.batchLoop _ hw
    rw [h.waiting, decide_eq_true_iff] at hfirst
    exact Nat.le_of_not_lt hfirst

/-- What was delivered is determined by how much of the stream was consumed, not by how it was cut.
-/
theorem Received.unique {consumed' : List UInt8} {c' : Conn} (h : wire.Received stream consumed c)
    (h' : wire.Received stream consumed' c') (hlen : c.unread.length = c'.unread.length) :
    c.first = c'.first ∧ c.pushed.flatten = c'.pushed.flatten ∧ c.buffer = c'.buffer := by
  have heq : consumed = consumed' := (List.append_inj' (h.stream.symm.trans h'.stream) hlen).1
  subst heq
  rw [h.first, h'.first, h.pushed, h'.pushed, h.buffer, h'.buffer]
  exact ⟨rfl, rfl, rfl⟩

end

end Naoto.Wire
