import NaotoExchange.Lib.Frames

/-!
# Receiving messages

`epoll_server.hpp` (`readMessage`) on one connection that stays up, byte by byte. Batches are always
available and the outgoing queue is never full. A batch is memory read as bytes from `Data.data()`
on, with what the pool left in it; an `ObjectBuffer` is the bytes it holds.
-/

namespace Naoto

open Frames

/-- `sizeof(T)`, `BatchSize`, and `sizeof(InitMessage)` if there is one, with the server's
`static_assert`. -/
structure Wire where
  size : Nat
  batch : Nat
  init : Option Nat
  size_pos : 0 < size
  batch_pos : 0 < batch
  init_pos : ∀ k ∈ init, 0 < k
  init_le : ∀ k ∈ init, k ≤ size

/-- An answer of `recv`: at most `n` bytes, into a batch with the memory `mem`; or `EINTR`. No bytes
is `EAGAIN`. -/
inductive Recv where
  | bytes (n : Nat) (mem : Nat → UInt8)
  | intr

/-- A connection, as the server reads it. -/
structure Conn where
  /-- The bytes of the stream that `recv` has not returned yet. -/
  unread : List UInt8
  buffer : List UInt8
  firstMessage : Bool
  closed : Bool
  /-- What `FirstMessageHandle` got. -/
  first : List (List UInt8)
  /-- `Data[0..Size)` of the pushed batches. -/
  pushed : List (List (List UInt8))
  deriving DecidableEq

namespace Wire

variable (wire : Wire)

/-- The length of the first message, if the server expects one. -/
def initSize : Nat := wire.init.getD 0

/-- Nothing of the stream was read. -/
def newConn (stream : List UInt8) : Conn where
  unread := stream
  buffer := []
  firstMessage := wire.init.isSome
  closed := false
  first := []
  pushed := []

/-- `ObjectBuffer::addBytes`. -/
def addBytes (buffer bytes : List UInt8) : Option (List UInt8) :=
  if buffer.length + bytes.length > wire.size then none else some (buffer ++ bytes)

/-- What `recv` writes into a batch behind the bytes of the buffer. -/
def piece (c : Conn) (n : Nat) : List UInt8 :=
  c.unread.take (min n (wire.size * wire.batch - c.buffer.length))

/-- What a receiver makes of a batch: `Data[0..Size)`, and the bytes kept for the next one. The
pointer `Data.data() + sizeof(T) * batchSize` counts in messages, not in bytes. -/
def split (buffer piece : List UInt8) (mem : Nat → UInt8) : List (List UInt8) × List UInt8 :=
  let mem := fill (buffer ++ piece) mem
  let batchSize := (piece.length + buffer.length) / wire.size
  let bufferSize := (piece.length + buffer.length) % wire.size
  let leftover := readMem mem (wire.size * (wire.size * batchSize)) bufferSize
  ((List.range batchSize).map fun j => readMem mem (j * wire.size) wire.size,
    (wire.addBytes [] leftover).getD [])

/-! ## `EpollServer::readMessage` -/

/-- The loop for the first message; the answers that are left for the next loop. -/
def firstLoop (c : Conn) : List Recv → Conn × List Recv
  | [] => (c, [])
  | r :: rs =>
    if c.buffer.length < wire.initSize then
      match r with
      | .intr => (c, rs)
      | .bytes n _ =>
        let bytes := c.unread.take (min n (wire.initSize - c.buffer.length))
        if bytes.isEmpty then (c, rs)
        else
          let c := { c with unread := c.unread.drop bytes.length }
          match wire.addBytes c.buffer bytes with
          | some buffer => firstLoop { c with buffer := buffer } rs
          | none => ({ c with closed := true }, rs)
    else (c, r :: rs)

/-- One batch received: pushed unless it has no complete message. -/
def receive (c : Conn) (piece : List UInt8) (mem : Nat → UInt8) : Conn :=
  let p := wire.split c.buffer piece mem
  { c with
    unread := c.unread.drop piece.length
    buffer := p.2
    pushed := if p.1.isEmpty then c.pushed else c.pushed ++ [p.1] }

/-- The loop for the batches. -/
def batchLoop (c : Conn) : List Recv → Conn
  | [] => c
  | .intr :: rs => batchLoop c rs
  | .bytes n mem :: rs =>
    let piece := wire.piece c n
    if piece.isEmpty then c else batchLoop (wire.receive c piece mem) rs

/-- `FirstMessageHandle` with the first bytes of the buffer. -/
def takeFirst (c : Conn) : Conn :=
  { c with
    first := c.first ++ [c.buffer.take wire.initSize]
    buffer := c.buffer.drop wire.initSize
    firstMessage := false }

/-- One call of `ReadMessage`, with the answers of `recv` while it runs. -/
def readMessage (c : Conn) (rs : List Recv) : Conn :=
  if c.firstMessage then
    let p := wire.firstLoop c rs
    if p.1.closed then p.1
    else if wire.initSize ≤ p.1.buffer.length then wire.batchLoop (wire.takeFirst p.1) p.2
    else p.1
  else wire.batchLoop c rs

/-! ## The bytes a batch holds -/

/-- The number of bytes in each batch that a run of the batch loop receives. -/
def batchTotals (c : Conn) : List Recv → List Nat
  | [] => []
  | .intr :: rs => batchTotals c rs
  | .bytes n mem :: rs =>
    let piece := wire.piece c n
    if piece.isEmpty then []
    else (c.buffer.length + piece.length) :: batchTotals (wire.receive c piece mem) rs

/-- The number of bytes in each batch that a call of `readMessage` receives. -/
def readTotals (c : Conn) (rs : List Recv) : List Nat :=
  if c.firstMessage then
    let p := wire.firstLoop c rs
    if p.1.closed then []
    else if wire.initSize ≤ p.1.buffer.length then wire.batchTotals (wire.takeFirst p.1) p.2
    else []
  else wire.batchTotals c rs

/-- The batch has no complete message or no incomplete one. -/
def Whole (total : Nat) : Prop := total < wire.size ∨ total % wire.size = 0

instance (total : Nat) : Decidable (wire.Whole total) := inferInstanceAs (Decidable (_ ∨ _))

end Wire

end Naoto
