import NaotoExchange.Common.UdpMulticast

/-!
# Who owns the objects of the receiver

An object of the receiver's pool is free, handed out, or in the ring and still to be delivered. The
ring does not say which: a slot keeps its pointer when the object is delivered, and a pointer whose
slot is overwritten is gone. `Sequencer.Stored` is the third place, and `Receiver.places` counts in
how many places an object is.

* `run_owned_once`: every object is in one place and every mbuf is freed once, in every run in which
  each object that arrives is new or refused (`Sequencer.Fresh`) and no frame has the right address
  and the wrong port.
* `stray_port_and_duplicate`: a frame with the wrong port is not freed, and an object that arrives
  twice before it is delivered takes an object from the pool for good.
-/

namespace Naoto

open RingIndex SequenceRingBuffer

namespace Sequencer

variable (Q : Capacity) {T : Type} [HasSequenceId T]

/-- `p` is in the ring and still to be delivered. -/
def Stored (s : Sequencer T) (p : Nat) : Prop :=
  s.ring.buffer (idx Q (sequenceId (s.memory p))) = some p ∧ s.nextToRead ≤ sequenceId (s.memory p)

instance (s : Sequencer T) (p : Nat) : Decidable (s.Stored Q p) :=
  inferInstanceAs (Decidable (_ ∧ _))

/-- The slot of the number holds nothing that is still to be delivered. -/
def Vacant (s : Sequencer T) (seqId : UInt32) : Prop :=
  match s.ring.buffer (idx Q seqId) with
  | none => True
  | some q => idx Q (sequenceId (s.memory q)) = idx Q seqId → sequenceId (s.memory q) < s.nextToRead

instance (s : Sequencer T) (seqId : UInt32) : Decidable (s.Vacant Q seqId) :=
  match h : s.ring.buffer (idx Q seqId) with
  | none => .isTrue (by rw [Vacant, h]; trivial)
  | some q =>
    decidable_of_iff (idx Q (sequenceId (s.memory q)) = idx Q seqId →
      sequenceId (s.memory q) < s.nextToRead) (by rw [Vacant, h])

/-- The object is refused because it was delivered, or it is still to be delivered and its slot is
vacant. Its number is not the last one of the counter. -/
def Fresh (s : Sequencer T) (object : T) : Prop :=
  sequenceId object ≠ 4294967295 ∧
    if s.ring.Stale Q (sequenceId object) then sequenceId object < s.nextToRead
    else s.nextToRead ≤ sequenceId object ∧ s.Vacant Q (sequenceId object)

instance (s : Sequencer T) (object : T) : Decidable (s.Fresh Q object) :=
  inferInstanceAs (Decidable (_ ∧ _))

variable {Q} {s : Sequencer T} {p q : Nat} {object : T}

theorem Vacant.not_stored {seqId : UInt32} (h : s.Vacant Q seqId)
    (hidx : idx Q (sequenceId (s.memory q)) = idx Q seqId) : ¬s.Stored Q q := by
  rintro ⟨hbuf, hle⟩
  rw [hidx] at hbuf
  rw [Vacant, hbuf] at h
  exact absurd (h hidx) (UInt32.not_lt.2 hle)

/-- An accepted object is stored, the others stay as they are. -/
theorem stored_put (hle : s.nextToRead ≤ sequenceId object)
    (hvacant : s.Vacant Q (sequenceId object)) :
    Stored Q { s.copied p object with ring := s.ring.put Q (sequenceId object) p } q ↔
    q = p ∨ s.Stored Q q := by
  by_cases hq : q = p
  · subst hq
    simpa [Stored, copied, put] using hle
  · simp only [Stored, copied, put, Function.update_of_ne hq, hq, false_or]
    by_cases hidx : idx Q (sequenceId (s.memory q)) = idx Q (sequenceId object)
    · have hnot : ¬s.Stored Q q := hvacant.not_stored hidx
      rw [hidx, Function.update_self]
      rw [Stored, hidx] at hnot
      simp only [Option.some.injEq, hnot, iff_false, not_and]
      exact fun h => absurd h.symm hq
    · rw [Function.update_of_ne hidx]

/-- A refused object is not stored, also where an old slot still points to it. -/
theorem stored_copied (hlt : sequenceId object < s.nextToRead) :
    (s.copied p object).Stored Q q ↔ q ≠ p ∧ s.Stored Q q := by
  by_cases hq : q = p
  · subst hq
    simp [Stored, copied, hlt]
  · simp only [Stored, copied, Function.update_of_ne hq, ne_eq, hq, not_false_eq_true, true_and]

theorem stored_of_getSlot (h : s.ring.getSlot Q s.memory s.nextToRead = some p) : s.Stored Q p := by
  obtain ⟨hbuf, hid⟩ := getSlot_eq_some.1 h
  exact ⟨by rw [hid]; exact hbuf, by rw [hid]; exact UInt32.le_refl _⟩

theorem stored_next (h : s.ring.getSlot Q s.memory s.nextToRead = some p)
    (hmax : s.nextToRead ≠ 4294967295) :
    Stored Q { s with nextToRead := s.nextToRead + 1 } q ↔ q ≠ p ∧ s.Stored Q q := by
  have hsucc : ∀ n : UInt32, s.nextToRead + 1 ≤ n ↔ s.nextToRead ≤ n ∧ n ≠ s.nextToRead := by
    intro n
    have hlt := s.nextToRead.toNat_lt
    have hne : s.nextToRead.toNat ≠ 4294967295 := fun h => hmax (UInt32.toNat_inj.1 h)
    have hone : (1 : UInt32).toNat = 1 := rfl
    rw [UInt32.le_iff_toNat_le, UInt32.le_iff_toNat_le, ne_eq, ← UInt32.toNat_inj,
      UInt32.toNat_add, hone]
    omega
  obtain ⟨hbuf, hid⟩ := getSlot_eq_some.1 h
  have honly : s.Stored Q q → (sequenceId (s.memory q) = s.nextToRead ↔ q = p) := by
    rintro ⟨hq, -⟩
    constructor
    · intro heq
      rw [heq, hbuf] at hq
      exact (Option.some.inj hq).symm
    · rintro rfl
      exact hid
  simp only [Stored, hsucc] at honly ⊢
  tauto

end Sequencer

namespace UdpMulticast.Receiver

variable (c : Config) {T : Type} [HasSequenceId T]

/-- In how many places the object is. -/
def places (r : Receiver T) (p : Nat) : Nat :=
  (r.free ++ r.localReuse).count p + r.handedOut.count p + if r.sequencer.Stored c.ring p then
    1 else 0

/-- The object that arrives next is fresh, and a frame is not one with the wrong port. -/
def Clean (r : Receiver T) : Action T → Prop
  | .poll f => inspect c f ≠ .skipped
  | .turn _ =>
    match r.pc with
    | .copying _ (object :: _) => r.acquire.isSome → r.sequencer.Fresh c.ring object
    | _ => True
  | .release _ => True

instance (r : Receiver T) : (a : Action T) → Decidable (r.Clean c a)
  | .poll _ => inferInstanceAs (Decidable (_ ≠ _))
  | .turn _ =>
    match h : r.pc with
    | .copying _ (object :: _) =>
      decidable_of_iff (r.acquire.isSome → r.sequencer.Fresh c.ring object) (by simp [Clean, h])
    | .copying _ [] => .isTrue (by simp [Clean, h])
    | .draining _ => .isTrue (by simp [Clean, h])
    | .polling => .isTrue (by simp [Clean, h])
  | .release _ => inferInstanceAs (Decidable True)

/-- Every object of the pool is in one place, and no number in the ring is the last one. -/
structure Accounted (r : Receiver T) : Prop where
  once : ∀ p, r.places c p = if p < c.poolSize then 1 else 0
  /-- So `NextToRead` does not wrap. -/
  numbers : ∀ i p, r.sequencer.ring.buffer i = some p → sequenceId (r.sequencer.memory p) ≠
    4294967295
  mbufs : (r.freed ++ r.pc.mbuf.toList).Perm (List.range r.received)

variable {c} {r r' : Receiver T} {p : Nat} {object : T} {a : Action T} {out : Option T}

/-- The objects of a list without repetitions that are not `p`, and below `n` like `p`, are fewer
than `n`. -/
theorem length_lt_of_count {xs : List Nat} {n : Nat}
    (h : ∀ q, xs.count q + (if q = p then 1 else 0) ≤ if q < n then 1 else 0) : xs.length < n := by
  have hcount : ∀ q, (p :: xs).count q ≤ if q < n then 1 else 0 := by
    intro q
    rw [List.count_cons]
    simpa [beq_iff_eq, eq_comm (a := p)] using h q
  have hnodup : (p :: xs).Nodup := by
    rw [List.nodup_iff_count_le_one]
    intro q
    have hq := hcount q
    split at hq <;> omega
  have hsub : p :: xs ⊆ List.range n := by
    intro q hq
    rw [List.mem_range]
    have hpos := List.count_pos_iff.2 hq
    have hq := hcount q
    split at hq
    · assumption
    · omega
  exact (hnodup.subperm hsub).length_le.trans_eq (List.length_range)

/-- What `LocalRelease` gets has room: it was one of the pool and is in no other place. -/
theorem released_eq {localReuse : List Nat}
    (h : ∀ q, localReuse.count q + (if q = p then 1 else 0) ≤ if q < c.poolSize then 1 else 0) :
    released c localReuse p = p :: localReuse := by
  rw [released, if_pos (length_lt_of_count h)]

omit [HasSequenceId T] in
theorem count_acquired {free localReuse : List Nat}
    (h : (r.free ++ r.localReuse).Perm (p :: (free ++ localReuse)))
    (q : Nat) : (r.free ++ r.localReuse).count q =
      free.count q + localReuse.count q + if q = p then 1 else 0 := by
  rw [h.count_eq, List.count_cons, List.count_append]
  simp [beq_iff_eq, eq_comm (a := p)]

theorem start_accounted (memory : Nat → T) : Accounted c (start c memory) where
  once q := by
    have hstored : ¬(start c memory).sequencer.Stored c.ring q := fun h => by cases h.1
    rw [places, if_neg hstored]
    simp only [start, List.append_nil, List.count_nil, Nat.add_zero, List.nodup_range.count,
      List.mem_range]
  numbers i p h := by cases h
  mbufs := .refl _

section
variable {room : Bool} {mbuf : Nat} {rest : List T} {free localReuse : List Nat}

theorem Clean.fresh (h : r.Clean c (.turn room)) (hpc : r.pc = .copying mbuf (object :: rest))
    (hacq : r.acquire ≠ none) : r.sequencer.Fresh c.ring object := by
  simp only [Clean, hpc] at h
  exact h (Option.isSome_iff_ne_none.2 hacq)

theorem once_accepted (h : Accounted c r) (hfresh : r.sequencer.Fresh c.ring object)
    (hstale : ¬r.sequencer.ring.Stale c.ring (sequenceId object))
    (hperm : (r.free ++ r.localReuse).Perm (p :: (free ++ localReuse))) (q : Nat) :
    places c { r with
        sequencer := { r.sequencer.copied p object with
          ring := r.sequencer.ring.put c.ring (sequenceId object) p }
        free := free
        localReuse := localReuse } q = if q < c.poolSize then 1 else 0 := by
  obtain ⟨-, hcase⟩ := hfresh
  rw [if_neg hstale] at hcase
  have honce := h.once q
  rw [places, count_acquired hperm] at honce
  rw [← honce, places, List.count_append]
  simp only [Sequencer.stored_put hcase.1 hcase.2]
  by_cases hq : q = p
  · -- it was free, so it was not stored
    have hnot : ¬r.sequencer.Stored c.ring q := by
      intro hstored
      rw [if_pos hq, if_pos hstored] at honce
      split at honce <;> omega
    simp [hq, show ¬r.sequencer.Stored c.ring p from hq ▸ hnot]
    omega
  · simp [hq]

theorem once_refused (h : Accounted c r) (hfresh : r.sequencer.Fresh c.ring object)
    (hstale : r.sequencer.ring.Stale c.ring (sequenceId object))
    (hperm : (r.free ++ r.localReuse).Perm (p :: (free ++ localReuse))) (q : Nat) :
    places c { r with
        sequencer := r.sequencer.copied p object
        free := free
        localReuse := released c localReuse p } q = if q < c.poolSize then 1 else 0 := by
  obtain ⟨-, hcase⟩ := hfresh
  rw [if_pos hstale] at hcase
  have honce : ∀ q, free.count q + localReuse.count q + (if q = p then 1 else 0) +
      r.handedOut.count q +
      (if r.sequencer.Stored c.ring q then 1 else 0) = if q < c.poolSize then 1 else 0 := by
    intro q
    have hq := h.once q
    rwa [places, count_acquired hperm] at hq
  have hroom : released c localReuse p = p :: localReuse := by
    apply released_eq
    intro q
    have hq := honce q
    omega
  have hq := honce q
  rw [places, hroom, List.count_append, List.count_cons, ← hq]
  simp only [Sequencer.stored_copied hcase, beq_iff_eq]
  by_cases hqp : q = p
  · have hnot : ¬r.sequencer.Stored c.ring q := by
      intro hstored
      rw [if_pos hqp, if_pos hstored] at hq
      split at hq <;> omega
    simp [hqp, show ¬r.sequencer.Stored c.ring p from hqp ▸ hnot]
    omega
  · simp [hqp, Ne.symm hqp]

theorem once_read (h : Accounted c r)
    (hslot : r.sequencer.ring.getSlot c.ring r.sequencer.memory r.sequencer.nextToRead = some p)
    (q : Nat) : (r.free ++ r.localReuse).count q + r.handedOut.count q + (if q = p then 1 else 0) +
      (if Sequencer.Stored c.ring { r.sequencer with nextToRead := r.sequencer.nextToRead + 1 } q
        then 1 else 0) =
    if q < c.poolSize then 1 else 0 := by
  obtain ⟨hbuf, hid⟩ := getSlot_eq_some.1 hslot
  have hmax : r.sequencer.nextToRead ≠ 4294967295 := hid ▸ h.numbers _ p hbuf
  have honce := h.once q
  rw [places] at honce
  simp only [Sequencer.stored_next hslot hmax, ← honce]
  by_cases hq : q = p
  · simp [hq, Sequencer.stored_of_getSlot hslot]
  · simp [hq]

/-- What is in the ring has an old number or that of the object just copied. -/
theorem numbers_copied (h : Accounted c r) (hfresh : r.sequencer.Fresh c.ring object) (q : Nat)
    (hold : q ≠ p → ∃ i, r.sequencer.ring.buffer i = some q) :
    sequenceId ((r.sequencer.copied p object).memory q) ≠ 4294967295 := by
  by_cases hq : q = p
  · rw [hq, Sequencer.memory_copied_self]
    exact hfresh.1
  · obtain ⟨i, hi⟩ := hold hq
    rw [Sequencer.memory_copied_of_ne hq]
    exact h.numbers i q hi

end

theorem Accounted.stepped (h : Accounted c r) (hclean : r.Clean c a)
    (hstep : Stepped c r a r' out) : Accounted c r' := by
  have hmbufs := h.mbufs
  cases hstep with
  | dropped hpc hf =>
    refine ⟨h.once, h.numbers, ?_⟩
    rw [hpc] at hmbufs
    simp only [hpc, Pc.mbuf, List.range_succ] at hmbufs ⊢
    grind
  | skipped hpc hf => exact absurd hf hclean
  | processed hpc hf =>
    refine ⟨h.once, h.numbers, ?_⟩
    rw [hpc] at hmbufs
    simp only [Pc.mbuf, List.range_succ] at hmbufs ⊢
    grind
  | missed hpc hacq => exact ⟨h.once, h.numbers, by rw [hpc] at hmbufs; exact hmbufs⟩
  | @accepted _ _ p object _ _ _ hpc hacq hperm hstale =>
    have hfresh := hclean.fresh hpc hacq
    refine ⟨once_accepted h hfresh hstale hperm,
      fun i q hq => ?_, by rw [hpc] at hmbufs; exact hmbufs⟩
    apply numbers_copied h hfresh
    intro hqp
    simp only [put] at hq
    by_cases hi : i = idx c.ring (sequenceId object)
    · rw [hi, Function.update_self] at hq
      exact absurd (Option.some.inj hq).symm hqp
    · rw [Function.update_of_ne hi] at hq
      exact ⟨i, hq⟩
  | refused hpc hacq hperm hstale =>
    have hfresh := hclean.fresh hpc hacq
    exact ⟨once_refused h hfresh hstale hperm, fun i q hq => numbers_copied h hfresh q fun _ =>
      ⟨i, hq⟩, by rw [hpc] at hmbufs; exact hmbufs⟩
  | copied hpc => exact ⟨h.once, h.numbers, by rw [hpc] at hmbufs; exact hmbufs⟩
  | @pushed _ p hpc hslot =>
    refine ⟨fun q => ?_, h.numbers, hmbufs⟩
    rw [← once_read h hslot q, places, List.count_cons]
    simp only [beq_iff_eq, eq_comm (a := p)]
    omega
  | @pushFailed _ p hpc hslot =>
    have hread := once_read h hslot
    have hroom : released c r.localReuse p = p :: r.localReuse := by
      apply released_eq
      intro q
      have hq := hread q
      rw [List.count_append] at hq
      omega
    refine ⟨fun q => ?_, h.numbers, hmbufs⟩
    rw [← hread q, places, hroom, List.count_append, List.count_append, List.count_cons]
    simp only [beq_iff_eq, eq_comm (a := p)]
    omega
  | drained hpc hslot =>
    refine ⟨h.once, h.numbers, ?_⟩
    rw [hpc] at hmbufs
    simp only [Pc.mbuf] at hmbufs ⊢
    grind
  | @gaveBack p hp =>
    refine ⟨fun q => ?_, h.numbers, hmbufs⟩
    have hpos := List.count_pos_iff.2 hp
    rw [← h.once q, places, places, List.count_append, List.count_append, List.count_append,
      List.count_singleton, List.count_erase]
    by_cases hq : q = p
    · subst hq
      simp
      omega
    · simp [Ne.symm hq]

/-- **Everything is owned once.** In every run in which the objects that arrive are fresh and no
frame has the right address and the wrong port: each object of the pool is in exactly one place, and
the mbufs freed and the one being worked on are those received, each once. -/
theorem run_owned_once (c : Config) (memory : Nat → T) (as : List (Action T)) (r : Receiver T)
    (outs : List (Option T)) (hclean : Run.Along (Clean c) (step c) (start c memory) as)
    (hrun : Run.run (step c) (start c memory) as = .ok (r, outs)) :
    (∀ p < c.poolSize, r.places c p = 1) ∧
    (r.freed ++ r.pc.mbuf.toList).Perm (List.range r.received) := by
  have hall : Accounted c r := Run.run_invariant (P := fun _ r _ => Accounted c r)
    (start_accounted memory) hclean
    (fun _ _ _ _ _ _ _ _ h hpre hstep => h.stepped hpre (stepped_of_step hstep)) hrun
  refine ⟨fun p hp => ?_, hall.mbufs⟩
  rw [hall.once p, if_pos hp]

/-- A small receiver of book updates. -/
def bookConfig : Config where
  objectSize := 19
  batchSize := 2
  ring := fourSlots
  poolSize := 8
  dstIp := 0xEF000001
  dstPort := 9000
  fits := by decide

/-- A frame of book updates with these numbers. -/
def bookFrame (numbers : List UInt32) : Frame OrderBookUpdate :=
  fillHeaders bookConfig (numbers.map Sequencer.bookUpdate)

/-- Two packets in the wrong order. -/
theorem run_owned_once_reordered :
    let as := receiving (bookFrame [1]) 0 ++ receiving (bookFrame [0]) 2
    (Run.run (step bookConfig) (start bookConfig fun _ => Sequencer.bookUpdate 0) as).toOption.map
      (fun r => (r.1.handedOut, r.1.freed, r.1.pc.mbuf)) = some ([0, 1], [1, 0], none) ∧
    ∀ r outs, Run.run (step bookConfig) (start bookConfig fun _ => Sequencer.bookUpdate 0) as =
      .ok (r, outs) →
      (∀ p < 8, r.places bookConfig p = 1) ∧ (r.freed ++ r.pc.mbuf.toList).Perm
        (List.range r.received) := by
  refine ⟨by decide, fun r outs hrun => ?_⟩
  exact run_owned_once bookConfig _ _ r outs (by decide) hrun

/-- The mbuf of a frame with the wrong port is not freed. An object that arrives twice before it is
delivered leaves object 0 in no place. An object that comes late is refused and released, but an old
slot still points to it, so it is handed out as well. -/
theorem stray_port_and_duplicate :
    let run := fun as => (Run.run (step bookConfig)
      (start bookConfig fun _ => Sequencer.bookUpdate 0) as).toOption
    (run [.poll { bookFrame [0] with dstPort := 9001 }]).map
      (fun r => (r.1.received, r.1.freed, r.1.pc.mbuf)) = some (1, [], none) ∧
    (run (receiving (bookFrame [1]) 0 ++ receiving (bookFrame [1]) 0)).map
      (fun r => (r.1.places bookConfig 0, r.1.pc.mbuf)) = some (0, none) ∧
    (run (receiving (bookFrame [0, 1, 2, 3]) 4 ++ [.release 0] ++ receiving
      (bookFrame [9, 10, 11, 11]) 0 ++
        receiving (bookFrame [4]) 1)).map
      (fun r => (r.1.localReuse, r.1.handedOut, r.1.places bookConfig 0, r.1.pc.mbuf)) =
      some ([0], [0, 3, 2, 1], 2, none) := by
  decide

end UdpMulticast.Receiver

end Naoto
