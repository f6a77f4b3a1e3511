import NaotoExchange.Common.Order
import NaotoExchange.Lib.RingIndex
import NaotoExchange.Lib.Run

/-!
# Putting numbered objects back in order

`sequence_ring_buffer.hpp`: a ring of pointers, the slot of an object being its sequence number
modulo the size. `Tail` is one past the largest number added so far, and what lies more than one
turn behind it is refused. The receiver reads the slots in the order of the numbers (`NextToRead` of
`udp_multicast_receiver.hpp`).

The ring holds pointers, so what `GetSlot` finds is what the memory holds *now*: an object that was
delivered and refilled since shows its new number. Pointers are indices into the memory of the pool.

* `shifted_run`: the ring treats numbers that are all shifted by the same amount alike, as long as
  an object and `Tail` are on the same side of the wrap of the 32-bit counter.
* `reordered_at_wrap`: two objects that swap places at the wrap stop the stream.
-/

namespace Naoto

/-- `HasSequenceId`. -/
class HasSequenceId (T : Type) where
  sequenceId : T → UInt32
  setSequenceId : UInt32 → T → T
  sequenceId_set : ∀ n t, sequenceId (setSequenceId n t) = n

export HasSequenceId (sequenceId setSequenceId)

attribute [simp] HasSequenceId.sequenceId_set

instance : HasSequenceId OrderStateReport where
  sequenceId := OrderStateReport.sequenceId
  setSequenceId n r := { r with sequenceId := n }
  sequenceId_set _ _ := rfl

instance : HasSequenceId OrderBookUpdate where
  sequenceId := OrderBookUpdate.sequenceId
  setSequenceId n u := { u with sequenceId := n }
  sequenceId_set _ _ := rfl

open RingIndex

/-- The slots, with the number behind the newest object. -/
structure SequenceRingBuffer where
  buffer : UInt64 → Option Nat
  tail : UInt32

namespace SequenceRingBuffer

/-- All slots are empty. -/
def new : SequenceRingBuffer := ⟨fun _ => none, 0⟩

variable (Q : Capacity) {T : Type} [HasSequenceId T]

/-- The slot of a sequence number. -/
def idx (seqId : UInt32) : UInt64 := Q.slot seqId.toUInt64

/-- The object with this number, if it is in its slot. -/
def getSlot (r : SequenceRingBuffer) (memory : Nat → T) (seqId : UInt32) : Option Nat :=
  (r.buffer (idx Q seqId)).filter fun p => seqId == sequenceId (memory p)

/-- The test of `AddSlot`, in the 64 bits of `Size`. -/
def Stale (r : SequenceRingBuffer) (seqId : UInt32) : Prop :=
  Q.size < r.tail.toUInt64 ∧ seqId.toUInt64 < r.tail.toUInt64 - Q.size

instance (r : SequenceRingBuffer) (seqId : UInt32) : Decidable (r.Stale Q seqId) :=
  inferInstanceAs (Decidable (_ ∧ _))

/-- `AddSlot` where it does not refuse. -/
def put (r : SequenceRingBuffer) (seqId : UInt32) (toAdd : Nat) : SequenceRingBuffer where
  buffer := Function.update r.buffer (idx Q seqId) (some toAdd)
  tail := if r.tail ≤ seqId then seqId + 1 else r.tail

/-- An object that is too old for the ring is refused. -/
def addSlot (r : SequenceRingBuffer) (memory : Nat → T) (toAdd : Nat) : Bool × SequenceRingBuffer :=
  let seqId := sequenceId (memory toAdd)
  if r.Stale Q seqId then (false, r) else (true, r.put Q seqId toAdd)

variable {Q} {r : SequenceRingBuffer} {memory : Nat → T} {p : Nat} {seqId a b : UInt32}

theorem getSlot_eq_some :
    r.getSlot Q memory seqId = some p ↔ r.buffer (idx Q seqId) = some p ∧
    sequenceId (memory p) = seqId := by
  rw [getSlot, Option.filter_eq_some_iff, beq_iff_eq, eq_comm (a := seqId)]

theorem stale_iff : r.Stale Q seqId ↔ seqId.toNat + Q.size.toNat < r.tail.toNat := by
  rw [Stale, UInt64.lt_iff_toNat_lt, UInt64.lt_iff_toNat_lt, UInt32.toNat_toUInt64,
    UInt32.toNat_toUInt64]
  constructor
  · rintro ⟨hsize, hlt⟩
    rw [UInt64.toNat_sub_of_le _ _ (UInt64.le_iff_toNat_le.2 (by simpa using hsize.le)),
      UInt32.toNat_toUInt64] at hlt
    omega
  · intro hlt
    have hsize : Q.size.toNat < r.tail.toNat := by omega
    refine ⟨hsize, ?_⟩
    rw [UInt64.toNat_sub_of_le _ _ (UInt64.le_iff_toNat_le.2 (by simpa using hsize.le)),
      UInt32.toNat_toUInt64]
    omega

theorem idx_eq_iff : idx Q a = idx Q b ↔ a.toNat % Q.size.toNat = b.toNat % Q.size.toNat := by
  rw [idx, idx, ← UInt64.toNat_inj, Q.toNat_slot, Q.toNat_slot, UInt32.toNat_toUInt64,
    UInt32.toNat_toUInt64]

/-- Two numbers with the same slot are at least one turn apart. -/
theorem idx_apart (h : idx Q a = idx Q b) (hlt : a.toNat < b.toNat) :
    a.toNat + Q.size.toNat ≤ b.toNat := by
  have hdvd : Q.size.toNat ∣ b.toNat - a.toNat := (Nat.modEq_iff_dvd' hlt.le).1 (idx_eq_iff.1 h)
  have hle := Nat.le_of_dvd (by omega) hdvd
  omega

/-- A size that fits in 32 bits divides `2 ^ 32`, so the slots keep their distances when the counter
wraps. -/
theorem idx_add_iff {k : UInt32} (hsize : Q.size.toNat < 2 ^ 32) :
    idx Q (a + k) = idx Q (b + k) ↔ idx Q a = idx Q b := by
  have hdvd : Q.size.toNat ∣ 2 ^ 32 := by
    obtain ⟨j, -, hj⟩ := Q.pow
    rw [hj] at hsize ⊢
    exact Nat.pow_dvd_pow 2 ((Nat.pow_lt_pow_iff_right (by decide)).1 hsize).le
  rw [idx_eq_iff, idx_eq_iff, UInt32.toNat_add, UInt32.toNat_add, Nat.mod_mod_of_dvd _ hdvd,
    Nat.mod_mod_of_dvd _ hdvd]
  constructor
  · exact Nat.ModEq.add_right_cancel' _
  · exact Nat.ModEq.add_right _

end SequenceRingBuffer

/-! ## Reading in order -/

/-- The part of the receiver that orders the objects. -/
structure Sequencer (T : Type) where
  memory : Nat → T
  ring : SequenceRingBuffer
  nextToRead : UInt32

namespace Sequencer

/-- What happens to a ring between two threads. -/
inductive Event (T : Type) where
  /-- The object is copied to `p`, and `p` is added to the ring. -/
  | arrive (p : Nat) (object : T)
  /-- One turn of the loop that empties the ring. -/
  | read

/-- What comes of it. -/
inductive Answer (T : Type) where
  | accepted (p : Nat)
  | rejected (p : Nat)
  | delivered (p : Nat) (object : T)
  /-- The loop ends. -/
  | missing
  deriving DecidableEq

variable (Q : Capacity) {T : Type} [HasSequenceId T]

/-- The object lies in memory at `p`. -/
def copied (s : Sequencer T) (p : Nat) (object : T) : Sequencer T :=
  { s with memory := Function.update s.memory p object }

/-- The copy, and `AddSlot`. -/
def arrive (s : Sequencer T) (p : Nat) (object : T) : Bool × Sequencer T :=
  let added := s.ring.addSlot Q (s.copied p object).memory p
  (added.1, { s.copied p object with ring := added.2 })

/-- `GetSlot` of the next number, which then counts as read. -/
def read (s : Sequencer T) : Option Nat × Sequencer T :=
  match s.ring.getSlot Q s.memory s.nextToRead with
  | some p => (some p, { s with nextToRead := s.nextToRead + 1 })
  | none => (none, s)

/-- The state after an event. -/
def next (s : Sequencer T) : Event T → Sequencer T
  | .arrive p object => (s.arrive Q p object).2
  | .read => (s.read Q).2

/-- What comes of an event. -/
def answer (s : Sequencer T) : Event T → Answer T
  | .arrive p object => if (s.arrive Q p object).1 then .accepted p else .rejected p
  | .read =>
    match (s.read Q).1 with
    | some p => .delivered p (s.memory p)
    | none => .missing

/-- What comes of a run. -/
def answers (s : Sequencer T) : List (Event T) → List (Answer T)
  | [] => []
  | e :: es => s.answer Q e :: (s.next Q e).answers es

variable {Q} {s : Sequencer T} {p : Nat} {object : T}

omit [HasSequenceId T] in
@[simp] theorem memory_copied_self : (s.copied p object).memory p = object :=
  Function.update_self ..

omit [HasSequenceId T] in
theorem memory_copied_of_ne {q : Nat} (h : q ≠ p) : (s.copied p object).memory q = s.memory q :=
  Function.update_of_ne h ..

theorem arrive_of_stale (h : s.ring.Stale Q (sequenceId object)) :
    s.arrive Q p object = (false, s.copied p object) := by
  simp [arrive, copied, SequenceRingBuffer.addSlot, h]

theorem arrive_of_not_stale (h : ¬s.ring.Stale Q (sequenceId object)) :
    s.arrive Q p object =
      (true, { s.copied p object with ring := s.ring.put Q (sequenceId object) p }) := by
  simp [arrive, copied, SequenceRingBuffer.addSlot, h]

theorem read_of_some (h : s.ring.getSlot Q s.memory s.nextToRead = some p) :
    s.read Q = (some p, { s with nextToRead := s.nextToRead + 1 }) := by
  rw [read, h]

theorem read_of_none (h : s.ring.getSlot Q s.memory s.nextToRead = none) :
    s.read Q = (none, s) := by
  rw [read, h]

/-! ## All numbers shifted by the same amount -/

section
variable (k : UInt32)

/-- The same object with its number moved by `k`. -/
def shift (object : T) : T := setSequenceId (sequenceId object + k) object

def Event.shift : Event T → Event T
  | .arrive p object => .arrive p (Sequencer.shift k object)
  | .read => .read

def Answer.shift : Answer T → Answer T
  | .delivered p object => .delivered p (Sequencer.shift k object)
  | other => other

/-- `s'` is `s` with all numbers shifted by `k`, modulo `2 ^ 32`. -/
structure Shifted (Q : Capacity) (k : UInt32) (s s' : Sequencer T) : Prop where
  memory : ∀ p, s'.memory p = Sequencer.shift k (s.memory p)
  buffer : ∀ seqId, s'.ring.buffer (SequenceRingBuffer.idx Q (seqId + k)) =
    s.ring.buffer (SequenceRingBuffer.idx Q seqId)
  tail : s'.ring.tail = s.ring.tail + k
  nextToRead : s'.nextToRead = s.nextToRead + k

/-- Shifting takes the arriving object and `Tail` both over the wrap, or neither. -/
def SameSide (s : Sequencer T) : Event T → Prop
  | .arrive _ object =>
    (sequenceId object).toNat + k.toNat < 2 ^ 32 ↔ s.ring.tail.toNat + k.toNat < 2 ^ 32
  | .read => True

instance (s : Sequencer T) : (e : Event T) → Decidable (s.SameSide k e)
  | .arrive _ _ => inferInstanceAs (Decidable (_ ↔ _))
  | .read => inferInstanceAs (Decidable True)

end

variable {k : UInt32} {s' : Sequencer T} {e : Event T} {es : List (Event T)}

@[simp] theorem sequenceId_shift : sequenceId (shift k object) = sequenceId object + k :=
  HasSequenceId.sequenceId_set _ _

/-- Numbers on the same side of the wrap keep their distance. -/
theorem toNat_add_of_side {a b k : UInt32}
    (h : a.toNat + k.toNat < 2 ^ 32 ↔ b.toNat + k.toNat < 2 ^ 32) :
    (a + k).toNat + b.toNat = a.toNat + (b + k).toNat := by
  have ha := a.toNat_lt
  have hb := b.toNat_lt
  have hk := k.toNat_lt
  rw [UInt32.toNat_add, UInt32.toNat_add]
  omega

theorem Shifted.stale_iff (h : Shifted Q k s s') (hside : s.SameSide k (.arrive p object)) :
    s'.ring.Stale Q (sequenceId (shift k object)) ↔ s.ring.Stale Q (sequenceId object) := by
  have hdist := toNat_add_of_side hside
  rw [SequenceRingBuffer.stale_iff, SequenceRingBuffer.stale_iff, sequenceId_shift, h.tail]
  omega

theorem Shifted.copied (h : Shifted Q k s s') (p : Nat) (object : T) :
    Shifted Q k (s.copied p object) (s'.copied p (shift k object)) := by
  refine ⟨fun q => ?_, h.buffer, h.tail, h.nextToRead⟩
  by_cases hq : q = p
  · rw [hq, memory_copied_self, memory_copied_self]
  · rw [memory_copied_of_ne hq, memory_copied_of_ne hq]
    exact h.memory q

theorem Shifted.put (h : Shifted Q k s s') (hsize : Q.size.toNat < 2 ^ 32)
    (hside : s.SameSide k (.arrive p object)) :
    Shifted Q k { s with ring := s.ring.put Q (sequenceId object) p }
      { s' with ring := s'.ring.put Q (sequenceId (shift k object)) p } := by
  refine ⟨h.memory, fun seqId => ?_, ?_, h.nextToRead⟩
  · simp only [SequenceRingBuffer.put, sequenceId_shift]
    by_cases hidx : SequenceRingBuffer.idx Q seqId = SequenceRingBuffer.idx Q (sequenceId object)
    · rw [hidx, (SequenceRingBuffer.idx_add_iff hsize).2 hidx, Function.update_self,
        Function.update_self]
    · rw [Function.update_of_ne hidx,
        Function.update_of_ne (mt (SequenceRingBuffer.idx_add_iff hsize).1 hidx)]
      exact h.buffer seqId
  · have hle : s.ring.tail + k ≤ sequenceId object + k ↔ s.ring.tail ≤ sequenceId object := by
      have hdist := toNat_add_of_side hside
      rw [UInt32.le_iff_toNat_le, UInt32.le_iff_toNat_le]
      omega
    simp only [SequenceRingBuffer.put, sequenceId_shift, h.tail, hle]
    split
    · ac_rfl
    · rfl

theorem Shifted.getSlot (h : Shifted Q k s s') :
    s'.ring.getSlot Q s'.memory s'.nextToRead = s.ring.getSlot Q s.memory s.nextToRead := by
  apply Option.ext
  intro p
  rw [SequenceRingBuffer.getSlot_eq_some, SequenceRingBuffer.getSlot_eq_some, h.nextToRead,
    h.buffer, h.memory, sequenceId_shift, UInt32.add_left_inj]

/-- One event of the shifted run: the corresponding answer, and the states stay corresponding. -/
theorem Shifted.next (h : Shifted Q k s s') (hsize : Q.size.toNat < 2 ^ 32)
    (hside : s.SameSide k e) :
    s'.answer Q (e.shift k) = (s.answer Q e).shift k ∧ Shifted Q k (s.next Q e)
    (s'.next Q (e.shift k)) := by
  cases e with
  | arrive p object =>
    simp only [Event.shift, answer, Sequencer.next]
    by_cases hstale : s.ring.Stale Q (sequenceId object)
    · rw [arrive_of_stale hstale, arrive_of_stale ((h.stale_iff hside).2 hstale)]
      exact ⟨rfl, h.copied p object⟩
    · rw [arrive_of_not_stale hstale, arrive_of_not_stale (mt (h.stale_iff hside).1 hstale)]
      exact ⟨rfl, (h.copied p object).put hsize hside⟩
  | read =>
    have hslot := h.getSlot
    simp only [Event.shift, answer, Sequencer.next]
    cases hfound : s.ring.getSlot Q s.memory s.nextToRead with
    | none =>
      rw [read_of_none hfound, read_of_none (hslot.trans hfound)]
      exact ⟨rfl, h⟩
    | some p =>
      rw [read_of_some hfound, read_of_some (hslot.trans hfound)]
      refine ⟨congrArg _ (h.memory p), h.memory, h.buffer, h.tail, ?_⟩
      rw [h.nextToRead]
      ac_rfl

theorem Shifted.answers (h : Shifted Q k s s') (hsize : Q.size.toNat < 2 ^ 32)
    (hside : Run.Through (SameSide k) (Sequencer.next Q) s es) :
    s'.answers Q (es.map (Event.shift k)) = (s.answers Q es).map (Answer.shift k) := by
  induction es generalizing s s' with
  | nil => rfl
  | cons e es ih =>
    rw [Run.through_cons] at hside
    obtain ⟨hanswer, hnext⟩ := h.next hsize hside.1
    rw [List.map_cons, Sequencer.answers, hanswer, ih hnext hside.2]
    rfl

/-- **Shifted runs correspond.** With every number shifted by `k` modulo `2 ^ 32`, the same objects
are accepted, refused and delivered, in the same order, as long as no object arrives on the other
side of the wrap than `Tail`. -/
theorem shifted_run (h : Shifted Q k s s') (htail : Q.size < s.ring.tail.toUInt64)
    (hside : Run.Through (SameSide k) (Sequencer.next Q) s es) :
    s'.answers Q (es.map (Event.shift k)) = (s.answers Q es).map (Answer.shift k) := by
  have hsize : Q.size.toNat < 2 ^ 32 := by
    have hlt := UInt64.lt_iff_toNat_lt.1 htail
    rw [UInt32.toNat_toUInt64] at hlt
    exact hlt.trans s.ring.tail.toNat_lt
  exact h.answers hsize hside

/-- A receiver that has delivered everything up to `n`, and whose ring was emptied. -/
def caughtUp (n : UInt32) (memory : Nat → T) : Sequencer T := ⟨memory, ⟨fun _ => none, n⟩, n⟩

def bookUpdate (n : UInt32) : OrderBookUpdate :=
  { price := 100, sequenceId := n, depth := 1, assetId := 0, side := .buy }

/-- Two objects in order, the second one the first after the wrap. -/
theorem shifted_run_in_order :
    let es : List (Event OrderBookUpdate) :=
      [.arrive 0 (bookUpdate 9), .arrive 1 (bookUpdate 10), .read, .read]
    (caughtUp (9 + 4294967286) fun _ => shift 4294967286 (bookUpdate 4)).answers
      (.ofPow 2 (by decide))
        (es.map (Event.shift 4294967286)) =
      ((caughtUp 9 fun _ => bookUpdate 4).answers (.ofPow 2 (by decide)) es).map
        (Answer.shift 4294967286) ∧
    (caughtUp 9 fun _ => bookUpdate 4).answers (.ofPow 2 (by decide)) es =
      [.accepted 0, .accepted 1, .delivered 0 (bookUpdate 9), .delivered 1 (bookUpdate 10)] := by
  intro es
  have hshifted : Shifted (.ofPow 2 (by decide)) 4294967286 (caughtUp 9 fun _ => bookUpdate 4)
      (caughtUp (9 + 4294967286) fun _ => shift 4294967286 (bookUpdate 4)) :=
    ⟨fun _ => rfl, fun _ => rfl, rfl, rfl⟩
  exact ⟨shifted_run hshifted (by decide) (by decide), by decide⟩

/-- Far from the wrap, two objects that swapped places are both delivered. At the wrap the one that
comes first is refused as one turn old, and the reader waits for it. -/
theorem reordered_at_wrap :
    let es : List (Event OrderBookUpdate) :=
      [.arrive 0 (bookUpdate 10), .read, .arrive 1 (bookUpdate 9), .read, .read]
    Shifted (.ofPow 2 (by decide)) 4294967286 (caughtUp 9 fun _ => bookUpdate 4)
      (caughtUp (9 + 4294967286) fun _ => shift 4294967286 (bookUpdate 4)) ∧
    (caughtUp 9 fun _ => bookUpdate 4).answers (.ofPow 2 (by decide)) es =
      [.accepted 0, .missing, .accepted 1, .delivered 1 (bookUpdate 9),
        .delivered 0 (bookUpdate 10)] ∧
    (caughtUp (9 + 4294967286) fun _ => shift 4294967286 (bookUpdate 4)).answers
      (.ofPow 2 (by decide))
        (es.map (Event.shift 4294967286)) =
      [.rejected 0, .missing, .accepted 1, .delivered 1 (bookUpdate 4294967295), .missing] := by
  refine ⟨⟨fun _ => rfl, fun _ => rfl, rfl, rfl⟩, ?_, ?_⟩ <;> decide

end Sequencer

end Naoto
