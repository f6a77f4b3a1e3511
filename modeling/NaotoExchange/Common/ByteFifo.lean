import NaotoExchange.Lib.Run
import NaotoExchange.Common.BytesBuffer

/-!
# A resend buffer as a queue of bytes

`BytesBuffer` against what it is for: `Add` appends the bytes it is given, `Shift` and `Read` take
bytes off the front. Sizes, `Shift`, `Read` and `Clear` are those of the queue (`contents_shift`,
`run_size`), but `Add` never looks at its pointer: the bytes it appends are the ones the array holds
behind the used part (`contents_add`). The buffer is the queue for callers that have put them there
(`run_contents`); no caller in the exchange has (`added_bytes_missing`).
-/

namespace Naoto.BytesBuffer

/-- The first `size` bytes at a pointer. -/
def bytes (data : UInt64 → UInt8) (size : UInt64) : List UInt8 :=
  (List.range size.toNat).map fun i => data (UInt64.ofNat i)

/-- The first `GetSize()` bytes of `GetData()`. -/
def contents (b : BytesBuffer) : List UInt8 := bytes b.buffer b.size

/-- `Read`: the bytes copied out, and the buffer without them. -/
def readOut (b : BytesBuffer) (size : UInt64) : List UInt8 × BytesBuffer :=
  (b.read 0 size.toNat, b.shift size)

/-- The calls a buffer takes. The pointer of `Add` is given by what it points to. -/
inductive Call
  | add (data : UInt64 → UInt8) (size : UInt64)
  | shift (size : UInt64)
  | read (size : UInt64)
  | clear

/-- A buffer in use, with what its calls of `Read` have returned. -/
structure Session where
  buffer : BytesBuffer
  returned : List (List UInt8)

namespace Session

/-- An empty buffer over any memory. -/
def new (memory : UInt64 → UInt8) : Session := ⟨.new memory, []⟩

/-- A call on the buffer. -/
def step (s : Session) : Call → Session
  | .add _ size => { s with buffer := s.buffer.add size }
  | .shift size => { s with buffer := s.buffer.shift size }
  | .read size =>
    let (out, b) := s.buffer.readOut size
    ⟨b, s.returned ++ [out]⟩
  | .clear => { s with buffer := s.buffer.clear }

/-- The calls that the capacity and the size allow. -/
def Legal (bufferSize : UInt64) (s : Session) : Call → Prop
  | .add _ size => s.buffer.canAdd bufferSize size = true
  | .shift size => size ≤ s.buffer.size
  | .read size => size ≤ s.buffer.size
  | .clear => True

instance decidableLegal (bufferSize : UInt64) (s : Session) : ∀ c, Decidable (s.Legal bufferSize c)
  | .add _ size => inferInstanceAs (Decidable (s.buffer.canAdd bufferSize size = true))
  | .shift size => inferInstanceAs (Decidable (size ≤ s.buffer.size))
  | .read size => inferInstanceAs (Decidable (size ≤ s.buffer.size))
  | .clear => .isTrue trivial

/-- The bytes to be added are those behind the used part of the array, as after a read from a socket
into `GetData() + GetSize()`. -/
def InPlace (s : Session) : Call → Prop
  | .add data size => s.buffer.read s.buffer.size size.toNat = bytes data size
  | _ => True

instance decidableInPlace (s : Session) : ∀ c, Decidable (s.InPlace c)
  | .add data size =>
    inferInstanceAs (Decidable (s.buffer.read s.buffer.size size.toNat = bytes data size))
  | .shift _ => .isTrue trivial
  | .read _ => .isTrue trivial
  | .clear => .isTrue trivial

end Session

/-- What the buffer is for. -/
structure Fifo where
  queue : List UInt8
  returned : List (List UInt8)

/-- The same call on a queue of bytes. -/
def Fifo.step (f : Fifo) : Call → Fifo
  | .add data size => { f with queue := f.queue ++ bytes data size }
  | .shift size => { f with queue := f.queue.drop size.toNat }
  | .read size => ⟨f.queue.drop size.toNat, f.returned ++ [f.queue.take size.toNat]⟩
  | .clear => { f with queue := [] }

section
variable {b : BytesBuffer} {n bufferSize : UInt64}

@[simp] theorem length_bytes (data : UInt64 → UInt8) : (bytes data n).length = n.toNat := by
  simp [bytes]

@[simp] theorem length_contents : b.contents.length = b.size.toNat := length_bytes _

theorem canAdd_iff (h : b.size ≤ bufferSize) :
    b.canAdd bufferSize n = true ↔ b.size.toNat + n.toNat ≤ bufferSize.toNat := by
  have hle : b.size.toNat ≤ bufferSize.toNat := h
  rw [canAdd, decide_eq_true_iff, UInt64.le_iff_toNat_le, UInt64.toNat_sub_of_le _ _ h]
  omega

theorem toNat_size_add (h : b.size.toNat + n.toNat ≤ bufferSize.toNat) :
    (b.add n).size.toNat = b.size.toNat + n.toNat := by
  have hlt := bufferSize.toNat_lt
  rw [add, UInt64.toNat_add, Nat.mod_eq_of_lt (by omega)]

theorem toNat_size_shift (h : n ≤ b.size) : (b.shift n).size.toNat = b.size.toNat - n.toNat :=
  UInt64.toNat_sub_of_le _ _ h

theorem bytes_split (data : UInt64 → UInt8) {m k : UInt64} (h : n.toNat = m.toNat + k.toNat) :
    bytes data n = bytes data m ++ (List.range k.toNat).map fun i => data (m + UInt64.ofNat i) := by
  rw [bytes, h, List.range_add, List.map_append, List.map_map]
  congr 1
  refine List.map_congr_left fun i _ => ?_
  simp only [Function.comp_apply, UInt64.ofNat_add, UInt64.ofNat_toNat]

/-- **`Add`** appends what the array holds behind the used part. -/
theorem contents_add (h : b.size.toNat + n.toNat ≤ bufferSize.toNat) :
    (b.add n).contents = b.contents ++ b.read b.size n.toNat :=
  bytes_split b.buffer (toNat_size_add h)

theorem readOut_eq_take (h : n ≤ b.size) : (b.readOut n).1 = b.contents.take n.toNat := by
  have hle : n.toNat ≤ b.size.toNat := h
  have hsplit : b.size.toNat = n.toNat + (b.size - n).toNat := by
    rw [UInt64.toNat_sub_of_le _ _ h]
    omega
  rw [contents, bytes_split b.buffer hsplit, List.take_left' (length_bytes _)]
  simp only [readOut, read, bytes, UInt64.zero_add]

/-- **`Shift`** drops bytes from the front. -/
theorem contents_shift (h : n ≤ b.size) : (b.shift n).contents = b.contents.drop n.toNat := by
  have hle : n.toNat ≤ b.size.toNat := h
  have hsplit : b.size.toNat = n.toNat + (b.size - n).toNat := by
    rw [UInt64.toNat_sub_of_le _ _ h]
    omega
  rw [contents, contents, bytes_split b.buffer hsplit, List.drop_left' (length_bytes _)]
  refine List.map_congr_left fun i hi => ?_
  have hlt : UInt64.ofNat i < b.size - n := by
    have hi' := List.mem_range.1 hi
    have hsize : (b.shift n).size = b.size - n := rfl
    rw [hsize] at hi'
    rw [UInt64.lt_iff_toNat_lt, UInt64.toNat_ofNat_of_lt' (hi'.trans (UInt64.toNat_lt_size _))]
    exact hi'
  simp only [shift, if_pos hlt, UInt64.add_comm]

end

/-! ## Whole runs -/

section
variable {bufferSize : UInt64} {s : Session} {f : Fifo} {c : Call}

/-- The sizes agree: of the buffer and of each `Read`. -/
structure SameSizes (bufferSize : UInt64) (s : Session) (f : Fifo) : Prop where
  fits : s.buffer.size ≤ bufferSize
  size : s.buffer.size.toNat = f.queue.length
  returned : s.returned.map List.length = f.returned.map List.length

/-- The bytes agree as well. -/
structure SameBytes (bufferSize : UInt64) (s : Session) (f : Fifo) : Prop where
  fits : s.buffer.size ≤ bufferSize
  contents : s.buffer.contents = f.queue
  returned : s.returned = f.returned

theorem Session.fits_step (h : s.buffer.size ≤ bufferSize) (hc : s.Legal bufferSize c) :
    (s.step c).buffer.size ≤ bufferSize := by
  have hle : s.buffer.size.toNat ≤ bufferSize.toNat := h
  cases c with
  | add data n =>
    have hn := (canAdd_iff h).1 hc
    rw [UInt64.le_iff_toNat_le]
    exact (toNat_size_add hn).trans_le hn
  | shift n =>
    rw [UInt64.le_iff_toNat_le]
    exact (toNat_size_shift hc).trans_le (by omega)
  | read n =>
    rw [UInt64.le_iff_toNat_le]
    exact (toNat_size_shift hc).trans_le (by omega)
  | clear => exact UInt64.zero_le

theorem SameSizes.step (h : SameSizes bufferSize s f) (hc : s.Legal bufferSize c) :
    SameSizes bufferSize (s.step c) (f.step c) := by
  refine ⟨Session.fits_step h.fits hc, ?_, ?_⟩
  · cases c with
    | add data n =>
      have hn := (canAdd_iff h.fits).1 hc
      exact (toNat_size_add hn).trans (by simp [Fifo.step, h.size])
    | shift n => exact (toNat_size_shift hc).trans (by simp [Fifo.step, h.size])
    | read n => exact (toNat_size_shift hc).trans (by simp [Fifo.step, h.size])
    | clear => rfl
  · cases c with
    | read n =>
      have hn : n.toNat ≤ f.queue.length := h.size ▸ hc
      simp [Session.step, Fifo.step, readOut, BytesBuffer.read, h.returned, hn]
    | _ => exact h.returned

theorem SameBytes.step (h : SameBytes bufferSize s f) (hc : s.Legal bufferSize c)
    (hin : s.InPlace c) : SameBytes bufferSize (s.step c) (f.step c) := by
  refine ⟨Session.fits_step h.fits hc, ?_, ?_⟩
  · cases c with
    | add data n =>
      have hadd := contents_add ((canAdd_iff h.fits).1 hc)
      exact hadd.trans (by rw [h.contents, hin]; rfl)
    | shift n => exact (contents_shift hc).trans (by rw [h.contents]; rfl)
    | read n => exact (contents_shift hc).trans (by rw [h.contents]; rfl)
    | clear => rfl
  · cases c with
    | read n =>
      simp only [Session.step, Fifo.step]
      rw [h.returned, readOut_eq_take hc, h.contents]
    | _ => exact h.returned

end

open Run

/-- **Sizes are those of the queue** in every run of legal calls, and so is the length of what
`Read` returns. -/
theorem run_size (bufferSize : UInt64) (memory : UInt64 → UInt8) {calls : List Call}
    (h : Through (Session.Legal bufferSize) Session.step (.new memory) calls) :
    SameSizes bufferSize (calls.foldl Session.step (.new memory))
    (calls.foldl Fifo.step ⟨[], []⟩) := by
  refine foldl_invariant (P := fun xs s => SameSizes bufferSize s (xs.foldl Fifo.step ⟨[], []⟩))
    ⟨UInt64.zero_le, rfl, rfl⟩ h fun xs c s hs hc => ?_
  rw [List.foldl_append]
  exact hs.step hc

/-- **A byte queue**, if the bytes of every `Add` are in place before the call: the used part of the
array is at all times the bytes added since the last `Clear` without those taken off the front, and
each `Read` returned the bytes it took off. -/
theorem run_contents (bufferSize : UInt64) (memory : UInt64 → UInt8) {calls : List Call}
    (h : Through (fun s c => Session.Legal bufferSize s c ∧ s.InPlace c) Session.step
      (.new memory) calls) :
    (calls.foldl Session.step (.new memory)).buffer.contents =
        (calls.foldl Fifo.step ⟨[], []⟩).queue ∧
      (calls.foldl Session.step (.new memory)).returned =
        (calls.foldl Fifo.step ⟨[], []⟩).returned := by
  have hrun : SameBytes bufferSize (calls.foldl Session.step (.new memory))
      (calls.foldl Fifo.step ⟨[], []⟩) := by
    refine foldl_invariant (P := fun xs s => SameBytes bufferSize s (xs.foldl Fifo.step ⟨[], []⟩))
      ⟨UInt64.zero_le, rfl, rfl⟩ h fun xs c s hs hc => ?_
    rw [List.foldl_append]
    exact hs.step hc.1 hc.2
  exact ⟨hrun.contents, hrun.returned⟩

/-- A buffer of 16 bytes over an array that counts up: six bytes are added where they lie, four are
taken off, and two of those that the moves have left behind the used part are added again. -/
theorem run_contents_counting :
    let calls : List Call := [.add (fun i => i.toUInt8) 6, .shift 1, .read 3,
      .add (fun i => i.toUInt8 + 3) 2]
    (calls.foldl Session.step (.new fun i => i.toUInt8)).buffer.contents = [4, 5, 3, 4] ∧
      (calls.foldl Session.step (.new fun i => i.toUInt8)).returned = [[1, 2, 3]] :=
  have h := run_contents 16 (fun i => i.toUInt8)
    (show Through (fun s c => Session.Legal 16 s c ∧ s.InPlace c) Session.step
      (.new fun i => i.toUInt8)
      [.add (fun i => i.toUInt8) 6, .shift 1, .read 3, .add (fun i => i.toUInt8 + 3) 2] by
      decide +kernel)
  ⟨h.1.trans (by decide +kernel), h.2.trans (by decide +kernel)⟩

/-- The bytes of the buffer's own test, added to a fresh one: there is room for them and the size
grows, but neither the array nor a `Read` has them. -/
theorem added_bytes_missing :
    let calls : List Call := [.add (fun i => i.toUInt8 + 1) 4, .read 4]
    Through (Session.Legal 16) Session.step (.new fun _ => 0) calls ∧
      ((calls.take 1).foldl Session.step (.new fun _ => 0)).buffer.contents = [0, 0, 0, 0] ∧
      ((calls.take 1).foldl Fifo.step ⟨[], []⟩).queue = [1, 2, 3, 4] ∧
      (calls.foldl Session.step (.new fun _ => 0)).returned = [[0, 0, 0, 0]] ∧
      (calls.foldl Fifo.step ⟨[], []⟩).returned = [[1, 2, 3, 4]] := by
  decide +kernel

end Naoto.BytesBuffer
