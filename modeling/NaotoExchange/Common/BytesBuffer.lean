import NaotoExchange.Lib.SendLoop

/-!
# Resend buffers

`bytes_buffer.hpp`, and the loop of `DrainBuffer` that the router and the sender of confirmations
have in common. Memory is addressed relative to `Buffer.data()`, modulo `2 ^ 64`; a new buffer holds
whatever was there.
-/

namespace Naoto

open SendLoop

/-- An array with the number of bytes in use. -/
structure BytesBuffer where
  buffer : UInt64 → UInt8
  size : UInt64

namespace BytesBuffer

/-- Empty, over whatever the array held before. -/
def new (memory : UInt64 → UInt8) : BytesBuffer := ⟨memory, 0⟩

variable (b : BytesBuffer)

/-- The bytes are not copied. -/
def add (size : UInt64) : BytesBuffer := { b with size := b.size + size }

/-- `memmove` to the front. -/
def shift (size : UInt64) : BytesBuffer :=
  let newSize := b.size - size
  { buffer := fun i => if i < newSize then b.buffer (i + size) else b.buffer i
    size := newSize }

/-- The bytes stay in the array. -/
def clear : BytesBuffer := { b with size := 0 }

/-- There is room for that many bytes. -/
def canAdd (bufferSize size : UInt64) : Bool := size ≤ bufferSize - b.size

/-- `len` bytes from `off` on. -/
def read (off : UInt64) (len : Nat) : List UInt8 :=
  (List.range len).map fun i => b.buffer (off + UInt64.ofNat i)

/-- What a drain wrote, call by call, its byte count, whether it got through, and the answers that
were not used. -/
structure Drained where
  writes : List (List UInt8)
  totalSent : UInt64
  drained : Bool
  rest : List SendResult

/-- The loop of `DrainBuffer`. The result of `send` is added to the count before it is tested, so
that an error takes one off. -/
def drainLoop (totalSent : UInt64) (rs : List SendResult) : Drained :=
  if totalSent < b.size then
    match rs with
    | [] => ⟨[b.read totalSent (b.size - totalSent).toNat], b.size, true, []⟩
    | .sent n :: rs =>
      let k := min (n + 1) (b.size - totalSent).toNat
      let d := drainLoop (totalSent + UInt64.ofNat k) rs
      { d with writes := b.read totalSent k :: d.writes }
    | .interrupted :: rs => drainLoop (totalSent - 1) rs
    | .again :: rs => ⟨[], totalSent - 1, false, rs⟩
  else ⟨[], totalSent, true, rs⟩

variable {b}

theorem drainLoop_empty (h : b.size = 0) (totalSent : UInt64) (rs : List SendResult) :
    b.drainLoop totalSent rs = ⟨[], totalSent, true, rs⟩ := by
  have hno : ¬ totalSent < b.size := by
    rw [h]
    exact UInt64.not_lt_zero
  unfold drainLoop
  rw [if_neg hno]

/-- The answers that are left when the bytes from `totalSent` to `size` have been taken, unless a
call would block before. -/
def drainUnblocked (size totalSent : UInt64) : List SendResult → Option (List SendResult)
  | [] => some []
  | r :: rs =>
    if totalSent < size then
      match r with
      | .sent n =>
        drainUnblocked size (totalSent + UInt64.ofNat (min (n + 1) (size - totalSent).toNat)) rs
      | .interrupted => drainUnblocked size (totalSent - 1) rs
      | .again => none
    else some (r :: rs)

theorem drainUnblocked_eq (b : BytesBuffer) (totalSent : UInt64) (rs : List SendResult) :
    drainUnblocked b.size totalSent rs = if (b.drainLoop totalSent rs).drained = true then
      some (b.drainLoop totalSent rs).rest else none := by
  induction rs generalizing totalSent with
  | nil =>
    unfold drainLoop
    split <;> rfl
  | cons r rs ih =>
    unfold drainUnblocked drainLoop
    split
    · cases r with
      | sent n => exact ih _
      | interrupted => exact ih _
      | again => rfl
    · rfl

end BytesBuffer

end Naoto
