import NaotoExchange.Common.UdpMulticast

/-!
# What is multicast arrives in order

One emitter sends batches; the network delivers its frames in any order, some of them more than
once, each at least once; the receiver pushes the objects in the order of their numbers.

The ring keeps pointers to objects that were delivered, given back and filled again, so the argument
is about the numbers that the objects have *now*. An object that arrived and was not delivered yet
stays in its slot unless an object one turn ahead takes it, and then an earlier object is missing
that the window will never admit (the second case of `Inv.pending`). Within one frame, before the
ring is emptied, nothing is one turn ahead since a frame has at most one turn of objects.

* `run_in_order`: what is pushed is at every moment a prefix of what was sent, as numbered by the
  emitter, and all of it when every frame has arrived and been processed.
-/

namespace Naoto.UdpMulticast

open RingIndex SequenceRingBuffer

variable {T : Type} [HasSequenceId T]

/-! ## What the emitter sends -/

theorem number_append (seqId : UInt32) (xs ys : List T) :
    number seqId (xs ++ ys) = number seqId xs ++ number (seqId + UInt32.ofNat xs.length) ys := by
  induction xs generalizing seqId with
  | nil => simp [number]
  | cons x xs ih =>
    have hnext : seqId + 1 + UInt32.ofNat xs.length = seqId + UInt32.ofNat (xs.length + 1) := by
      rw [UInt32.ofNat_add, UInt32.add_assoc, UInt32.add_comm 1]
      rfl
    rw [List.cons_append, number, ih, hnext]
    rfl

@[simp] theorem length_number (seqId : UInt32) (xs : List T) :
    (number seqId xs).length = xs.length := by
  induction xs generalizing seqId with
  | nil => rfl
  | cons x xs ih => rw [number, List.length_cons, List.length_cons, ih]

theorem sequenceId_number {seqId : UInt32} {xs : List T} {i : Nat} {t : T}
    (h : (number seqId xs)[i]? = some t) : sequenceId t = seqId + UInt32.ofNat i := by
  induction xs generalizing seqId i with
  | nil => simp [number] at h
  | cons x xs ih =>
    rw [number] at h
    cases i with
    | zero =>
      rw [List.getElem?_cons_zero, Option.some.injEq] at h
      rw [← h, HasSequenceId.sequenceId_set]
      exact (UInt32.add_zero seqId).symm
    | succ i =>
      rw [List.getElem?_cons_succ] at h
      rw [ih h, UInt32.ofNat_add, UInt32.add_assoc, UInt32.add_comm 1]
      rfl

variable {c : Config}

/-- Room for `left` packets is room for all objects: the frames carry them all, in order. -/
theorem sendLoop_spec (left : Nat) (seqId : UInt32) (objects : List T)
    (hroom : objects.length ≤ left * c.objectsPerPacket) :
    ((sendLoop c left seqId objects).1.map Frame.payload).flatten = number seqId objects ∧
      (sendLoop c left seqId objects).2 = seqId + UInt32.ofNat objects.length ∧
      ∀ f ∈ (sendLoop c left seqId objects).1,
        f = fillHeaders c f.payload ∧ f.payload.length ≤ c.objectsPerPacket := by
  induction left generalizing seqId objects with
  | zero =>
    have hnil : objects = [] := List.eq_nil_of_length_eq_zero (by omega)
    subst hnil
    simp [sendLoop, number]
  | succ left ih =>
    cases objects with
    | nil => simp [sendLoop, number]
    | cons t ts =>
      rw [sendLoop]
      set objects := t :: ts with hobjects
      set curStep := min c.objectsPerPacket objects.length with hstep
      have hdrop : (objects.drop curStep).length ≤ left * c.objectsPerPacket := by
        rw [List.length_drop]
        rw [Nat.succ_mul] at hroom
        omega
      have htake : (objects.take curStep).length = curStep := by
        rw [List.length_take]
        omega
      obtain ⟨hflat, hnext, hframes⟩ :=
        ih (seqId + UInt32.ofNat curStep) (objects.drop curStep) hdrop
      refine ⟨?_, ?_, ?_⟩
      · rw [List.map_cons, List.flatten_cons, hflat]
        conv_rhs => rw [← List.take_append_drop curStep objects, number_append, htake]
        rfl
      · rw [hnext, List.length_drop, UInt32.add_assoc, ← UInt32.ofNat_add,
          Nat.add_sub_cancel' (by omega)]
      · intro f hf
        rcases List.mem_cons.1 hf with rfl | hf
        · exact ⟨rfl, by simp [fillHeaders, hstep]⟩
        · exact hframes f hf

theorem Config.batch_fits (c : Config) : c.batchSize ≤ c.maxPackets * c.objectsPerPacket := by
  have hdiv := Nat.div_add_mod c.batchSize c.objectsPerPacket
  have hpos : 0 < c.objectsPerPacket := c.fits
  have hlt := Nat.mod_lt c.batchSize hpos
  rw [maxPackets]
  split
  · rw [Nat.add_zero, Nat.mul_comm]
    omega
  · rw [Nat.succ_mul, Nat.mul_comm]
    omega

/-- The frames of all batches carry all objects, numbered one after the other. -/
theorem sendAll_spec (seqId : UInt32) (batches : List (List T))
    (hbatch : ∀ b ∈ batches, b.length ≤ c.batchSize) :
    ((sendAll c seqId batches).map Frame.payload).flatten = number seqId batches.flatten ∧
      ∀ f ∈ sendAll c seqId batches, f = fillHeaders c f.payload ∧
      f.payload.length ≤ c.objectsPerPacket := by
  induction batches generalizing seqId with
  | nil => simp [sendAll, number]
  | cons b batches ih =>
    have hroom : b.length ≤ c.maxPackets * c.objectsPerPacket :=
      (hbatch b List.mem_cons_self).trans c.batch_fits
    obtain ⟨hflat, hnext, hframes⟩ := sendLoop_spec c.maxPackets seqId b hroom
    obtain ⟨hflats, hrest⟩ :=
      ih (send c seqId b).2 fun b' hb' => hbatch b' (List.mem_cons_of_mem _ hb')
    rw [sendAll]
    refine ⟨?_, fun f hf => ?_⟩
    · rw [List.map_append, List.flatten_append, hflats, List.flatten_cons, number_append]
      rw [send, hflat, hnext]
    · exact (List.mem_append.1 hf).elim (hframes f) (hrest f)

/-- The number of an object. -/
def num (t : T) : Nat := (sequenceId t).toNat

/-- `t` was sent, and its number is its place. -/
def Sent (sent : List T) (t : T) : Prop := sent[num t]? = some t

theorem Sent.eq {sent : List T} {t u : T} (ht : Sent sent t) (hu : Sent sent u)
    (h : num t = num u) : t = u := by
  rw [Sent, h, hu] at ht
  exact (Option.some.inj ht).symm

theorem Sent.lt {sent : List T} {t : T} (h : Sent sent t) : num t < sent.length :=
  (List.getElem?_eq_some_iff.1 h).1

/-- What the network may deliver, and what it carries. -/
structure Packets (c : Config) (sent : List T) (frames : List (Frame T)) : Prop where
  count : sent.length < 2 ^ 32
  numbered : ∀ (i : Nat) t, sent[i]? = some t → num t = i
  processed : ∀ f ∈ frames, inspect c f = .processed
  payload : ∀ f ∈ frames, ∀ t ∈ f.payload, Sent sent t
  /-- No two objects of a frame are one turn of the ring apart. -/
  close : ∀ f ∈ frames, f.payload.Pairwise fun t u => num u < num t + c.ring.size.toNat
  complete : ∀ t ∈ sent, ∃ f ∈ frames, t ∈ f.payload

theorem num_number {xs : List T} {i : Nat} {t : T} (hcount : xs.length < 2 ^ 32)
    (h : (number 0 xs)[i]? = some t) : num t = i := by
  have hi : i < xs.length := by
    obtain ⟨hlt, -⟩ := List.getElem?_eq_some_iff.1 h
    rwa [length_number] at hlt
  rw [num, sequenceId_number h, UInt32.zero_add, UInt32.toNat_ofNat', Nat.mod_eq_of_lt (by omega)]

omit [HasSequenceId T] in
/-- A frame of the emitter passes all tests of the receiver. -/
theorem inspect_fillHeaders (items : List T) : inspect c (fillHeaders c items) = .processed := by
  simp [inspect, fillHeaders]

theorem sendAll_packets {batches : List (List T)} (hbatch : ∀ b ∈ batches, b.length ≤ c.batchSize)
    (hcount : batches.flatten.length < 2 ^ 32) (hring : c.objectsPerPacket ≤ c.ring.size.toNat) :
    Packets c (number 0 batches.flatten) (sendAll c 0 batches) := by
  obtain ⟨hflat, hframes⟩ := sendAll_spec (c := c) 0 batches hbatch
  have hinfix : ∀ f ∈ sendAll c 0 batches, ∃ before after,
      before ++ f.payload ++ after = number 0 batches.flatten := by
    intro f hf
    rw [← hflat]
    exact List.infix_of_mem_flatten (List.mem_map_of_mem hf)
  -- the object at `i` of a frame is at `i` after what comes before the frame
  have hplace : ∀ f ∈ sendAll c 0 batches, ∃ k : Nat, ∀ (i : Nat) t, f.payload[i]? = some t →
      (number 0 batches.flatten)[k + i]? = some t := by
    intro f hf
    obtain ⟨before, after, heq⟩ := hinfix f hf
    refine ⟨before.length, fun i t hi => ?_⟩
    rw [← heq, List.append_assoc, List.getElem?_append_right (Nat.le_add_right _ _),
      Nat.add_sub_cancel_left, List.getElem?_append_left (List.getElem?_eq_some_iff.1 hi).1]
    exact hi
  refine ⟨by simpa using hcount, fun _ _ => num_number hcount, fun f hf => ?_, fun f hf t ht => ?_,
    fun f hf => ?_, fun t ht => ?_⟩
  · rw [(hframes f hf).1]
    exact inspect_fillHeaders _
  · obtain ⟨k, hk⟩ := hplace f hf
    obtain ⟨i, hi⟩ := List.getElem?_of_mem ht
    have hget := hk i t hi
    rw [Sent, num_number hcount hget]
    exact hget
  · obtain ⟨k, hk⟩ := hplace f hf
    rw [List.pairwise_iff_getElem]
    intro i j hi hj hij
    have hti := num_number hcount (hk i _ (List.getElem?_eq_getElem hi))
    have htj := num_number hcount (hk j _ (List.getElem?_eq_getElem hj))
    have hlen := (hframes f hf).2
    omega
  · rw [← hflat] at ht
    obtain ⟨payload, hpayload, hmem⟩ := List.mem_flatten.1 ht
    obtain ⟨f, hf, rfl⟩ := List.mem_map.1 hpayload
    exact ⟨f, hf, hmem⟩

/-! ## The receiver between two frames and within one -/

namespace Receiver

variable (c)

/-- What the network and the consumer do: the frames are those sent; an object that arrives for the
first time does so within the window; there is a free object for it; and there is room in
`Outgoing`. -/
def Delivers (frames : List (Frame T)) (r : Receiver T) : Action T → Prop
  | .poll f => f ∈ frames
  | .turn room =>
    match r.pc with
    | .polling => True
    | .copying _ [] => True
    | .copying _ (object :: _) => r.acquire.isSome ∧ (sequenceId object ∉ r.arrived.map sequenceId →
        r.sequencer.ring.tail.toNat ≤ num object + c.ring.size.toNat)
    | .draining _ => room = true
  | .release _ => True

instance [DecidableEq T] (frames : List (Frame T)) (r : Receiver T) :
    (a : Action T) → Decidable (r.Delivers c frames a)
  | .poll _ => inferInstanceAs (Decidable (_ ∈ _))
  | .turn room =>
    match h : r.pc with
    | .polling => .isTrue (by simp [Delivers, h])
    | .copying _ [] => .isTrue (by simp [Delivers, h])
    | .copying _ (object :: _) =>
      decidable_of_iff (r.acquire.isSome ∧ (sequenceId object ∉ r.arrived.map sequenceId →
        r.sequencer.ring.tail.toNat ≤ num object + c.ring.size.toNat)) (by simp only [Delivers, h])
    | .draining _ => decidable_of_iff (room = true) (by simp only [Delivers, h])
  | .release _ => inferInstanceAs (Decidable True)

/-- An object with that number has arrived. -/
def Arrived (r : Receiver T) (n : Nat) : Prop := ∃ t ∈ r.arrived, num t = n

/-- The objects that are not for the ring. -/
def owned (r : Receiver T) : List Nat := r.free ++ r.localReuse ++ r.handedOut

/-- `NextToRead` as a number. -/
def next (r : Receiver T) : Nat := r.sequencer.nextToRead.toNat

/-- Between two frames the ring is empty of what is next. Within one, what is next may have arrived
with this frame, and then nothing of the rest is one turn ahead of it. -/
def Phase (sent : List T) (r : Receiver T) : Pc T → Prop
  | .polling => ¬r.Arrived r.next
  | .copying _ rest => (∀ t ∈ rest, Sent sent t) ∧
      rest.Pairwise (fun t u => num u < num t + c.ring.size.toNat) ∧
      (¬r.Arrived r.next ∨ ∀ t ∈ rest, num t < r.next + c.ring.size.toNat)
  | .draining _ => True

/-- What was pushed is the beginning of what was sent, and what arrived and is not pushed yet is in
the ring. -/
structure Inv (sent : List T) (r : Receiver T) (outs : List (Option T)) : Prop where
  pushed : outs.reduceOption = sent.take r.next
  next_le : r.next ≤ sent.length
  delivered : ∀ n < r.next, r.Arrived n
  arrived : ∀ t ∈ r.arrived, Sent sent t ∧ num t < r.sequencer.ring.tail.toNat
  /-- What a slot points to is an object that arrived, though not always the one it was set for. -/
  slots : ∀ i p, r.sequencer.ring.buffer i = some p → r.sequencer.memory p ∈ r.arrived
  pending : ∀ t ∈ r.arrived, r.next ≤ num t →
    (∃ p, r.sequencer.ring.buffer (idx c.ring (sequenceId t)) = some p ∧ r.sequencer.memory p = t ∧
      p ∉ r.owned) ∨
    ∃ m, r.next ≤ m ∧ m < num t ∧ ¬r.Arrived m ∧ m + c.ring.size.toNat < r.sequencer.ring.tail.toNat
  nodup : r.owned.Nodup
  phase : r.Phase c sent r.pc

variable {c} {sent : List T} {frames : List (Frame T)} {r r' : Receiver T} {outs : List (Option T)}
  {out : Option T} {a : Action T} {t u : T} {rest : List T} {p mbuf n : Nat}

theorem start_inv (memory : Nat → T) : Inv c sent (start c memory) [] where
  pushed := rfl
  next_le := Nat.zero_le _
  delivered _ h := absurd h (Nat.not_lt_zero _)
  arrived _ h := nomatch h
  slots _ _ h := nomatch h
  pending _ h := nomatch h
  nodup := by simpa [owned, start] using List.nodup_range
  phase h := by
    obtain ⟨t, ht, -⟩ := h
    cases ht

/-! ### An object arrives -/

theorem arrived_cons (h : r'.arrived = t :: r.arrived) :
    r'.Arrived n ↔ num t = n ∨ r.Arrived n := by
  simp [Arrived, h]

theorem toNat_tail_put {ring : SequenceRingBuffer} (h : num t + 1 < 2 ^ 32) :
    (ring.put c.ring (sequenceId t) p).tail.toNat = max ring.tail.toNat (num t + 1) := by
  have hone : (1 : UInt32).toNat = 1 := rfl
  simp only [put, UInt32.le_iff_toNat_le, num] at h ⊢
  split
  · rw [UInt32.toNat_add, hone, Nat.mod_eq_of_lt h]
    omega
  · omega

/-- An object that has arrived keeps its slot while another one is copied to a free place. -/
theorem Inv.pending_copied (h : Inv c sent r outs) (hp : p ∈ r.owned) (hu : u ∈ r.arrived)
    (hle : r.next ≤ num u) :
    (∃ q, r.sequencer.ring.buffer (idx c.ring (sequenceId u)) = some q ∧
      (r.sequencer.copied p t).memory q = u ∧ q ∉ r.owned) ∨
    ∃ m, r.next ≤ m ∧ m < num u ∧ ¬r.Arrived m ∧
      m + c.ring.size.toNat < r.sequencer.ring.tail.toNat := by
  refine (h.pending u hu hle).imp_left ?_
  rintro ⟨q, hbuf, hmem, hq⟩
  have hqp : q ≠ p := fun heq => hq (heq ▸ hp)
  exact ⟨q, hbuf, (Sequencer.memory_copied_of_ne hqp).trans hmem, hq⟩

/-- It also keeps its slot when the other one is added, unless what is next is missing and has
fallen out of the window. -/
theorem Inv.pending_put (h : Inv c sent r outs) (ht : Sent sent t) (hcount : sent.length < 2 ^ 32)
    (hphase : ¬r.Arrived r.next ∨ num t < r.next + c.ring.size.toNat)
    (hwindow : ¬r.Arrived (num t) → r.sequencer.ring.tail.toNat ≤ num t + c.ring.size.toNat)
    (hstale : ¬r.sequencer.ring.Stale c.ring (sequenceId t)) (hp : p ∈ r.owned) (hu : u ∈ r.arrived)
    (hne : num u ≠ num t) (hle : r.next ≤ num u) :
    (∃ q, (r.sequencer.ring.put c.ring (sequenceId t) p).buffer (idx c.ring (sequenceId u)) =
      some q ∧ (r.sequencer.copied p t).memory q = u ∧ q ∉ r.owned) ∨
    ∃ m, r.next ≤ m ∧ m < num u ∧ num t ≠ m ∧ ¬r.Arrived m ∧
      m + c.ring.size.toNat < (r.sequencer.ring.put c.ring (sequenceId t) p).tail.toNat := by
  have hlt := ht.lt
  rw [toNat_tail_put (by omega)]
  obtain ⟨q, hbuf, hmem, hq⟩ | ⟨m, hm, hmu, hnot, hout⟩ := h.pending_copied (t := t) hp hu hle
  · by_cases hidx : idx c.ring (sequenceId u) = idx c.ring (sequenceId t)
    · have hutail := (h.arrived u hu).2
      rcases Nat.lt_or_gt_of_ne hne with hlow | hhigh
      · -- `t` is one turn ahead of `u`, so it is not in one frame with what is next
        have hapart : num u + c.ring.size.toNat ≤ num t := idx_apart hidx hlow
        have hmissing : ¬r.Arrived r.next := hphase.resolve_right (by omega)
        have hnext : r.next ≠ num u := fun heq => hmissing ⟨u, hu, heq.symm⟩
        exact .inr ⟨r.next, Nat.le_refl _, by omega, by omega, hmissing, by omega⟩
      · -- `t` is one turn behind `u`, so it is refused
        have hapart : num t + c.ring.size.toNat ≤ num u := idx_apart hidx.symm hhigh
        have hrefused : r.sequencer.ring.Stale c.ring (sequenceId t) :=
          stale_iff.2 (Nat.lt_of_le_of_lt hapart hutail)
        exact absurd hrefused hstale
    · refine .inl ⟨q, ?_, hmem, hq⟩
      simp only [put]
      rw [Function.update_of_ne hidx]
      exact hbuf
  · refine .inr ⟨m, hm, hmu, ?_, hnot, by omega⟩
    rintro rfl
    have hin := hwindow hnot
    omega

theorem Phase.tail (h : r.Phase c sent (.copying mbuf (t :: rest)))
    (harr : r'.arrived = t :: r.arrived)
    (hnext : r'.next = r.next) : r'.Phase c sent (.copying mbuf rest) := by
  obtain ⟨hsent, hclose, hcase⟩ := h
  rw [List.pairwise_cons] at hclose
  refine ⟨fun u hu => hsent u (List.mem_cons_of_mem _ hu), hclose.2, ?_⟩
  rw [hnext, arrived_cons harr]
  obtain hmissing | hnear := hcase
  · by_cases ht : num t = r.next
    · exact .inr fun u hu => by rw [← ht]; exact hclose.1 u hu
    · exact .inl (not_or.2 ⟨ht, hmissing⟩)
  · exact .inr fun u hu => hnear u (List.mem_cons_of_mem _ hu)

/-- What arrives for the first time is within the window. -/
theorem Delivers.window {room : Bool} (h : r.Delivers c frames (.turn room))
    (hpc : r.pc = .copying mbuf (t :: rest)) (hnot : ¬r.Arrived (num t)) :
    r.sequencer.ring.tail.toNat ≤ num t + c.ring.size.toNat := by
  simp only [Delivers, hpc] at h
  apply h.2
  intro hmem
  obtain ⟨u, hu, heq⟩ := List.mem_map.1 hmem
  exact hnot ⟨u, hu, congrArg UInt32.toNat heq⟩

section
variable {free localReuse : List Nat}

/-- After a copy a slot points to an object that arrived, if it pointed to one or points to the
copy. -/
theorem Inv.copied_mem (h : Inv c sent r outs) (i : UInt64) {q : Nat}
    (hq : q ≠ p → r.sequencer.ring.buffer i = some q) :
    (r.sequencer.copied p t).memory q ∈ t :: r.arrived := by
  by_cases hqp : q = p
  · rw [hqp]
    exact List.mem_cons.2 (.inl Sequencer.memory_copied_self)
  · rw [Sequencer.memory_copied_of_ne hqp]
    exact List.mem_cons_of_mem _ (h.slots i q (hq hqp))

theorem Inv.accepted (h : Inv c sent r outs) (hcount : sent.length < 2 ^ 32)
    (hpc : r.pc = .copying mbuf (t :: rest))
    (hwindow : ¬r.Arrived (num t) → r.sequencer.ring.tail.toNat ≤ num t + c.ring.size.toNat)
    (hperm : (r.free ++ r.localReuse).Perm (p :: (free ++ localReuse)))
    (hstale : ¬r.sequencer.ring.Stale c.ring (sequenceId t)) :
    Inv c sent { r with
      pc := .copying mbuf rest
      sequencer :=
        { r.sequencer.copied p t with ring := r.sequencer.ring.put c.ring (sequenceId t) p }
      free := free
      localReuse := localReuse
      arrived := t :: r.arrived } outs := by
  have hphase := h.phase
  rw [hpc] at hphase
  have ht : Sent sent t := hphase.1 t List.mem_cons_self
  have hlt := ht.lt
  have howned : r.owned.Perm (p :: (free ++ localReuse ++ r.handedOut)) := hperm.append_right _
  have hnodup := howned.nodup_iff.1 h.nodup
  have hp : p ∈ r.owned := howned.mem_iff.2 List.mem_cons_self
  have htail : (r.sequencer.ring.put c.ring (sequenceId t) p).tail.toNat =
      max r.sequencer.ring.tail.toNat (num t + 1) := toNat_tail_put (by omega)
  constructor
  case pushed => exact h.pushed
  case next_le => exact h.next_le
  case delivered => exact fun n hn => (arrived_cons rfl).2 (.inr (h.delivered n hn))
  case arrived =>
    intro u hu
    simp only [htail]
    rcases List.mem_cons.1 hu with rfl | hu
    · exact ⟨ht, by omega⟩
    · have hsent := h.arrived u hu
      exact ⟨hsent.1, by omega⟩
  case slots =>
    intro i q hq
    refine h.copied_mem i fun hqp => ?_
    simp only [put] at hq
    by_cases hi : i = idx c.ring (sequenceId t)
    · rw [hi, Function.update_self] at hq
      exact absurd (Option.some.inj hq).symm hqp
    · rwa [Function.update_of_ne hi] at hq
  case pending =>
    intro u hu hle
    by_cases hnum : num u = num t
    · have hsent : Sent sent u :=
        (List.mem_cons.1 hu).elim (fun heq => heq ▸ ht) fun hu => (h.arrived u hu).1
      rw [hsent.eq ht hnum]
      refine .inl ⟨p, ?_, Sequencer.memory_copied_self, (List.nodup_cons.1 hnodup).1⟩
      simp only [put]
      exact Function.update_self ..
    · have hmem : u ∈ r.arrived := (List.mem_cons.1 hu).resolve_left fun heq => hnum (heq ▸ rfl)
      have hnear : ¬r.Arrived r.next ∨ num t < r.next + c.ring.size.toNat :=
        hphase.2.2.imp_right fun hall => hall t List.mem_cons_self
      obtain ⟨q, hbuf, hq, hout⟩ | ⟨m, hm, hmu, hmt, hnot, hout⟩ :=
        h.pending_put ht hcount hnear hwindow hstale hp hmem hnum hle
      · exact .inl ⟨q, hbuf, hq, fun hin => hout (howned.mem_iff.2 (List.mem_cons_of_mem _ hin))⟩
      · exact .inr ⟨m, hm, hmu, fun harr => ((arrived_cons rfl).1 harr).elim hmt hnot, hout⟩
  case nodup => exact (List.nodup_cons.1 hnodup).2
  case phase => exact Phase.tail hphase rfl rfl

theorem Inv.arrived_of_stale (h : Inv c sent r outs) (ht : Sent sent t)
    (hwindow : ¬r.Arrived (num t) → r.sequencer.ring.tail.toNat ≤ num t + c.ring.size.toNat)
    (hstale : r.sequencer.ring.Stale c.ring (sequenceId t)) : t ∈ r.arrived := by
  have harrived : r.Arrived (num t) := by
    by_contra hnot
    have hin := hwindow hnot
    have hout : num t + c.ring.size.toNat < r.sequencer.ring.tail.toNat := stale_iff.1 hstale
    omega
  obtain ⟨u, hu, hnum⟩ := harrived
  rw [← (h.arrived u hu).1.eq ht hnum]
  exact hu

omit [HasSequenceId T] in
/-- A slot that is given back is owned again, unless it is dropped. -/
theorem released_subperm (hperm : (r.free ++ r.localReuse).Perm (p :: (free ++ localReuse))) :
    (free ++ released c localReuse p ++ r.handedOut).Subperm r.owned := by
  have howned : r.owned.Perm (p :: (free ++ localReuse ++ r.handedOut)) := hperm.append_right _
  rw [released]
  split
  · refine List.Perm.subperm (.trans ?_ howned.symm)
    simp only [List.append_assoc, List.cons_append]
    exact List.perm_middle
  · exact (List.sublist_cons_self _ _).subperm.trans howned.symm.subperm

theorem Inv.refused (h : Inv c sent r outs) (hpc : r.pc = .copying mbuf (t :: rest))
    (hwindow : ¬r.Arrived (num t) → r.sequencer.ring.tail.toNat ≤ num t + c.ring.size.toNat)
    (hperm : (r.free ++ r.localReuse).Perm (p :: (free ++ localReuse)))
    (hstale : r.sequencer.ring.Stale c.ring (sequenceId t)) :
    Inv c sent { r with
      pc := .copying mbuf rest
      sequencer := r.sequencer.copied p t
      free := free
      localReuse := released c localReuse p
      arrived := t :: r.arrived } outs := by
  have hphase := h.phase
  rw [hpc] at hphase
  have ht : Sent sent t := hphase.1 t List.mem_cons_self
  have hbefore : t ∈ r.arrived := h.arrived_of_stale ht hwindow hstale
  have hp : p ∈ r.owned := (hperm.append_right r.handedOut).mem_iff.2 List.mem_cons_self
  have hsub : (free ++ released c localReuse p ++ r.handedOut).Subperm r.owned :=
    released_subperm hperm
  have hsame : ∀ n, (∃ u ∈ t :: r.arrived, num u = n) ↔ r.Arrived n := by
    intro n
    constructor
    · rintro ⟨u, hu, hn⟩
      exact ⟨u, (List.mem_cons.1 hu).elim (fun heq => heq ▸ hbefore) id, hn⟩
    · rintro ⟨u, hu, hn⟩
      exact ⟨u, List.mem_cons_of_mem _ hu, hn⟩
  constructor
  case pushed => exact h.pushed
  case next_le => exact h.next_le
  case delivered => exact fun n hn => (hsame n).2 (h.delivered n hn)
  case arrived =>
    intro u hu
    exact h.arrived u ((List.mem_cons.1 hu).elim (fun heq => heq ▸ hbefore) id)
  case slots => exact fun i q hq => h.copied_mem i fun _ => hq
  case pending =>
    intro u hu hle
    have hmem : u ∈ r.arrived := (List.mem_cons.1 hu).elim (fun heq => heq ▸ hbefore) id
    obtain ⟨q, hbuf, hq, hout⟩ | ⟨m, hm, hmu, hnot, hout⟩ := h.pending_copied (t := t) hp hmem hle
    · exact .inl ⟨q, hbuf, hq, fun hin => hout (hsub.subset hin)⟩
    · exact .inr ⟨m, hm, hmu, fun harr => hnot ((hsame m).1 harr), hout⟩
  case nodup =>
    obtain ⟨left, hleft, hin⟩ := hsub
    exact hleft.nodup_iff.1 (h.nodup.sublist hin)
  case phase => exact Phase.tail hphase rfl rfl

end

/-! ### The ring is emptied -/

theorem Inv.slot_of_arrived (h : Inv c sent r outs) (harr : r.Arrived r.next) : ∃ p,
    r.sequencer.ring.getSlot c.ring r.sequencer.memory r.sequencer.nextToRead = some p ∧
    p ∉ r.owned := by
  obtain ⟨t, ht, hnum⟩ := harr
  have hid : sequenceId t = r.sequencer.nextToRead := UInt32.toNat_inj.1 hnum
  obtain ⟨p, hbuf, hmem, hp⟩ | ⟨m, hm, hlt, -, -⟩ := h.pending t ht hnum.ge
  · refine ⟨p, getSlot_eq_some.2 ⟨?_, ?_⟩, hp⟩
    · rw [← hid]
      exact hbuf
    · rw [hmem]
      exact hid
  · omega

theorem Inv.read (h : Inv c sent r outs)
    (hslot : r.sequencer.ring.getSlot c.ring r.sequencer.memory r.sequencer.nextToRead = some p) :
    sent[r.next]? = some (r.sequencer.memory p) ∧ r.Arrived r.next ∧ p ∉ r.owned := by
  obtain ⟨hbuf, hid⟩ := getSlot_eq_some.1 hslot
  have hmem := h.slots _ p hbuf
  have hnum : num (r.sequencer.memory p) = r.next := congrArg UInt32.toNat hid
  have harr : r.Arrived r.next := ⟨_, hmem, hnum⟩
  obtain ⟨q, hq, hout⟩ := h.slot_of_arrived harr
  rw [hslot] at hq
  cases hq
  exact ⟨hnum ▸ (h.arrived _ hmem).1, harr, hout⟩

theorem Inv.pushes (h : Inv c sent r outs) (hcount : sent.length < 2 ^ 32)
    (hpc : r.pc = .draining mbuf)
    (hslot : r.sequencer.ring.getSlot c.ring r.sequencer.memory r.sequencer.nextToRead = some p) :
    Inv c sent { r with
      sequencer := { r.sequencer with nextToRead := r.sequencer.nextToRead + 1 }
      handedOut := p :: r.handedOut } (outs ++ [some (r.sequencer.memory p)]) := by
  obtain ⟨hsent, harr, hp⟩ := h.read hslot
  obtain ⟨hlt, -⟩ := List.getElem?_eq_some_iff.1 hsent
  have hnext : (r.sequencer.nextToRead + 1).toNat = r.next + 1 := by
    have hone : (1 : UInt32).toNat = 1 := rfl
    rw [UInt32.toNat_add, hone]
    exact Nat.mod_eq_of_lt (by rw [next] at hlt; omega)
  have howned : (r.free ++ r.localReuse ++ p :: r.handedOut).Perm (p :: r.owned) := List.perm_middle
  constructor
  case pushed =>
    change _ = sent.take (r.sequencer.nextToRead + 1).toNat
    rw [hnext, List.reduceOption_append, h.pushed, List.take_add_one, hsent]
    rfl
  case next_le => exact hnext.trans_le hlt
  case delivered =>
    intro n hn
    replace hn : n < r.next + 1 := hn.trans_eq hnext
    rcases Nat.lt_succ_iff_lt_or_eq.1 hn with hn | rfl
    · exact h.delivered n hn
    · exact harr
  case arrived => exact h.arrived
  case slots => exact h.slots
  case pending =>
    intro t ht hle
    replace hle : r.next + 1 ≤ num t := hnext.symm.trans_le hle
    obtain ⟨q, hbuf, hmem, hq⟩ | ⟨m, hm, hmt, hnot, hout⟩ := h.pending t ht (Nat.le_of_succ_le hle)
    · refine .inl ⟨q, hbuf, hmem, fun hin => ?_⟩
      rcases List.mem_cons.1 (howned.mem_iff.1 hin) with rfl | hin
      · have hnum : num (r.sequencer.memory q) = r.next :=
          congrArg UInt32.toNat (getSlot_eq_some.1 hslot).2
        rw [hmem] at hnum
        omega
      · exact hq hin
    · have hne : m ≠ r.next := fun heq => hnot (heq ▸ harr)
      exact .inr ⟨m, hnext.trans_le (by omega), hmt, hnot, hout⟩
  case nodup => exact howned.nodup_iff.2 (List.nodup_cons.2 ⟨hp, h.nodup⟩)
  case phase =>
    rw [hpc]
    trivial

/-! ### Whole runs -/

theorem Inv.go (h : Inv c sent r outs) {pc : Pc T} (hphase : r.Phase c sent pc) (received : Nat)
    (freed : List Nat) :
    Inv c sent { r with pc := pc, received := received, freed := freed } outs :=
  ⟨h.pushed, h.next_le, h.delivered, h.arrived, h.slots, h.pending, h.nodup, hphase⟩

theorem Inv.stepped (h : Inv c sent r outs) (hpackets : Packets c sent frames)
    (hdelivers : r.Delivers c frames a) (hstep : Stepped c r a r' out) :
    Inv c sent r' (outs ++ [out]) := by
  have hphase := h.phase
  have hquiet : ∀ {r : Receiver T}, Inv c sent r outs → Inv c sent r (outs ++ [none]) := by
    intro r h
    exact ⟨by
      rw [List.reduceOption_append]; simpa using h.pushed, h.next_le, h.delivered, h.arrived,
      h.slots, h.pending, h.nodup, h.phase⟩
  cases hstep with
  | dropped hpc hf => exact nomatch hf.symm.trans (hpackets.processed _ hdelivers)
  | skipped hpc hf => exact nomatch hf.symm.trans (hpackets.processed _ hdelivers)
  | @processed f hpc hf =>
    rw [hpc] at hphase
    have hcopying : r.Phase c sent (.copying r.received f.payload) :=
      ⟨hpackets.payload f hdelivers, hpackets.close f hdelivers, .inl hphase⟩
    exact hquiet (h.go hcopying _ _)
  | missed hpc hacq =>
    simp only [Delivers, hpc, hacq] at hdelivers
    exact nomatch hdelivers.1
  | accepted hpc hacq hperm hstale =>
    exact hquiet (h.accepted hpackets.count hpc (hdelivers.window hpc) hperm hstale)
  | refused hpc hacq hperm hstale =>
    exact hquiet (h.refused hpc (hdelivers.window hpc) hperm hstale)
  | @copied _ mbuf hpc =>
    have hdraining : r.Phase c sent (.draining mbuf) := trivial
    exact hquiet (h.go hdraining _ _)
  | pushed hpc hslot => exact h.pushes hpackets.count hpc hslot
  | pushFailed hpc hslot =>
    simp only [Delivers, hpc] at hdelivers
    exact nomatch hdelivers
  | drained hpc hslot =>
    have hpolling : r.Phase c sent .polling := by
      intro harr
      obtain ⟨p, hp, -⟩ := h.slot_of_arrived harr
      exact nomatch hslot.symm.trans hp
    exact hquiet (h.go hpolling _ _)
  | @gaveBack p hp =>
    have howned : (r.free ++ [p] ++ r.localReuse ++ r.handedOut.erase p).Perm r.owned := by
      have herase := List.perm_cons_erase hp
      rw [owned]
      grind
    apply hquiet
    refine ⟨h.pushed, h.next_le, h.delivered, h.arrived, h.slots, fun t ht hle => ?_,
      howned.nodup_iff.2 h.nodup, h.phase⟩
    refine (h.pending t ht hle).imp_left ?_
    rintro ⟨q, hbuf, hmem, hq⟩
    exact ⟨q, hbuf, hmem, fun hin => hq (howned.mem_iff.1 hin)⟩

/-- The objects of the frames so far have arrived, or are about to. -/
def Copied (as : List (Action T)) (r : Receiver T) : Prop :=
  ∀ f, .poll f ∈ as → ∀ t ∈ f.payload, t ∈ r.arrived ∨ ∃ mbuf rest, r.pc = .copying mbuf rest ∧
    t ∈ rest

theorem Copied.stepped {as : List (Action T)} (h : Copied as r) (hpackets : Packets c sent frames)
    (hdelivers : r.Delivers c frames a) (hstep : Stepped c r a r' out) : Copied (as ++ [a]) r' := by
  -- a turn of the receiver takes objects from the frame to the ring only
  have hturn : ∀ {room r'}, (∀ t ∈ r.arrived, t ∈ r'.arrived) →
      (∀ mbuf rest, r.pc = .copying mbuf rest → ∀ t ∈ rest,
        t ∈ r'.arrived ∨ ∃ mbuf rest, r'.pc = .copying mbuf rest ∧ t ∈ rest) →
      Copied (as ++ [.turn room]) r' := by
    intro room r' harr hpc f hf t ht
    have hold : .poll f ∈ as := by simpa using hf
    rcases h f hold t ht with harrived | ⟨mbuf, rest, hcopying, hmem⟩
    · exact .inl (harr t harrived)
    · exact hpc mbuf rest hcopying t hmem
  -- the next object of the frame arrives
  have hcopy : ∀ {room mbuf object rest r'}, r.pc = .copying mbuf (object :: rest) →
      r'.pc = .copying mbuf rest → r'.arrived = object :: r.arrived →
      Copied (as ++ [.turn room]) r' := by
    intro room mbuf object rest r' hpc hpc' harr
    apply hturn
    · intro t ht
      rw [harr]
      exact List.mem_cons_of_mem _ ht
    · intro mbuf' rest' hcopying t ht
      rw [hpc, Pc.copying.injEq] at hcopying
      rw [← hcopying.2] at ht
      rcases List.mem_cons.1 ht with rfl | ht
      · exact .inl (by rw [harr]; exact List.mem_cons_self)
      · exact .inr ⟨mbuf, rest, hpc', ht⟩
  cases hstep with
  | dropped hpc hf => exact nomatch hf.symm.trans (hpackets.processed _ hdelivers)
  | skipped hpc hf => exact nomatch hf.symm.trans (hpackets.processed _ hdelivers)
  | @processed f hpc hf =>
    intro f' hf' t ht
    rcases List.mem_append.1 hf' with hold | hnew
    · rcases h f' hold t ht with harrived | ⟨mbuf, rest, hcopying, -⟩
      · exact .inl harrived
      · exact nomatch hpc.symm.trans hcopying
    · have heq : f' = f := by simpa using hnew
      exact .inr ⟨_, _, rfl, heq ▸ ht⟩
  | missed hpc hacq =>
    simp only [Delivers, hpc, hacq] at hdelivers
    exact nomatch hdelivers.1
  | accepted hpc hacq hperm hstale => exact hcopy hpc rfl rfl
  | refused hpc hacq hperm hstale => exact hcopy hpc rfl rfl
  | copied hpc =>
    refine hturn (fun _ ht => ht) fun mbuf rest hcopying t ht => ?_
    rw [hpc, Pc.copying.injEq] at hcopying
    rw [← hcopying.2] at ht
    cases ht
  | pushed hpc hslot =>
    exact hturn (fun _ ht => ht) fun mbuf rest hcopying => nomatch hpc.symm.trans hcopying
  | pushFailed hpc hslot =>
    exact hturn (fun _ ht => ht) fun mbuf rest hcopying => nomatch hpc.symm.trans hcopying
  | drained hpc hslot =>
    exact hturn (fun _ ht => ht) fun mbuf rest hcopying => nomatch hpc.symm.trans hcopying
  | gaveBack hp =>
    intro f hf
    exact h f (by simpa using hf)

/-- The loop that empties the ring ends: it reads no more than what was sent. -/
theorem Inv.drains (h : Inv c sent r outs) (hcount : sent.length < 2 ^ 32)
    (hpc : r.pc = .draining mbuf) :
    ∃ n r' outs', Run.run (step c) r (List.replicate n (.turn true)) = .ok (r', outs') ∧
    r'.pc = .polling := by
  induction hleft : sent.length - r.next using Nat.strong_induction_on generalizing r outs with
  | _ left ih =>
    cases hslot : r.sequencer.ring.getSlot c.ring r.sequencer.memory r.sequencer.nextToRead with
    | none =>
      refine ⟨1, { r with pc := .polling, freed := mbuf :: r.freed }, [none], ?_, rfl⟩
      rw [List.replicate_one, Run.run_cons, step, hpc]
      simp only [drain, Sequencer.read_of_none hslot]
      rfl
    | some p =>
      have hnext := h.pushes hcount hpc hslot
      have hless : sent.length - next { r with
          sequencer := { r.sequencer with nextToRead := r.sequencer.nextToRead + 1 }
          handedOut := p :: r.handedOut } < left := by
        have hpushed := congrArg List.length h.pushed
        have hpushed' := congrArg List.length hnext.pushed
        have hle := h.next_le
        have hle' := hnext.next_le
        have hone : [some (r.sequencer.memory p)].reduceOption.length = 1 := rfl
        rw [List.length_take] at hpushed
        rw [List.reduceOption_append, List.length_append, List.length_take] at hpushed'
        omega
      obtain ⟨n, r', outs', hrun, hpolling⟩ := ih _ hless hnext hpc rfl
      refine ⟨n + 1, r', some (r.sequencer.memory p) :: outs', ?_, hpolling⟩
      rw [List.replicate_succ, Run.run_cons, step, hpc]
      simp only [drain, Sequencer.read_of_some hslot, if_true, Except.bind]
      rw [hrun]
      rfl

/-- All objects have arrived, so between two frames all have been pushed. -/
theorem Inv.all_pushed (h : Inv c sent r outs) (hpackets : Packets c sent frames)
    (hpc : r.pc = .polling) (hall : ∀ t ∈ sent, t ∈ r.arrived) : outs.reduceOption = sent := by
  have hphase := h.phase
  rw [hpc] at hphase
  have hend : sent.length ≤ r.next := by
    by_contra hlt
    have hget := List.getElem?_eq_getElem (Nat.lt_of_not_le hlt)
    exact hphase ⟨_, hall _ (List.mem_of_getElem? hget), hpackets.numbered _ _ hget⟩
  rw [h.pushed, List.take_of_length_le hend]

/-- **In order, and exactly once.** Batches of at most `BatchSize` objects are sent; the frames
arrive in any order and any number of times, the first copy of each object within the window of the
ring; the pool is never empty and the queue never full. What the receiver pushes is at every moment
a prefix of the objects sent, with their contents and the emitter's numbers, and all of them once
every frame was received and processed. The loop that empties the ring ends. -/
theorem run_in_order (c : Config) (batches : List (List T)) (memory : Nat → T)
    (as : List (Action T))
    (r : Receiver T) (outs : List (Option T)) (hbatch : ∀ b ∈ batches, b.length ≤ c.batchSize)
    (hcount : batches.flatten.length < 2 ^ 32) (hring : c.objectsPerPacket ≤ c.ring.size.toNat)
    (hdelivers : Run.Along (Delivers c (sendAll c 0 batches)) (step c) (start c memory) as)
    (hrun : Run.run (step c) (start c memory) as = .ok (r, outs)) :
    outs.reduceOption <+: number 0 batches.flatten ∧
    ((∀ f ∈ sendAll c 0 batches, .poll f ∈ as) → r.pc = .polling →
      outs.reduceOption = number 0 batches.flatten) ∧
    ∀ mbuf, r.pc = .draining mbuf →
      ∃ n r' outs', Run.run (step c) r (List.replicate n (.turn true)) = .ok (r', outs') ∧
      r'.pc = .polling := by
  have hpackets := sendAll_packets hbatch hcount hring
  obtain ⟨hinv, hcopied⟩ := Run.run_invariant
    (P := fun as r outs => Inv c (number 0 batches.flatten) r outs ∧ Copied as r)
    ⟨start_inv memory, nofun⟩ hdelivers
    (fun _ _ _ _ _ _ _ _ h hpre hstep => ⟨h.1.stepped hpackets hpre (stepped_of_step hstep),
      h.2.stepped hpackets hpre (stepped_of_step hstep)⟩) hrun
  refine ⟨?_, fun hall hpc => ?_, fun mbuf hpc => hinv.drains hpackets.count hpc⟩
  · rw [hinv.pushed]
    exact List.take_prefix _ _
  · apply hinv.all_pushed hpackets hpc
    intro t ht
    obtain ⟨f, hf, hmem⟩ := hpackets.complete t ht
    refine (hcopied f (hall f hf) t hmem).resolve_right ?_
    rintro ⟨mbuf, rest, hcopying, -⟩
    exact nomatch hpc.symm.trans hcopying

/-- Two objects fit in a packet. -/
def pairsConfig : Config where
  objectSize := 736
  batchSize := 3
  ring := fourSlots
  poolSize := 5
  dstIp := 0xEF000001
  dstPort := 9000
  fits := by decide

/-- Two packets of three objects: the second one first, then the first one, then the second one
again. -/
theorem run_in_order_reordered :
    let batch := [Sequencer.bookUpdate 7, Sequencer.bookUpdate 7, Sequencer.bookUpdate 7]
    let first := fillHeaders pairsConfig [Sequencer.bookUpdate 0, Sequencer.bookUpdate 1]
    let second := fillHeaders pairsConfig [Sequencer.bookUpdate 2]
    let as := receiving second 0 ++ receiving first 3 ++ [.release 1] ++ receiving second 0
    sendAll pairsConfig 0 [batch] = [first, second] ∧
    (Run.run (step pairsConfig) (start pairsConfig fun _ => Sequencer.bookUpdate 0) as).toOption.map
      (fun r => (r.2.reduceOption, r.1.pc.mbuf)) = some (number 0 batch, none) ∧
    ∀ r outs, Run.run (step pairsConfig) (start pairsConfig fun _ => Sequencer.bookUpdate 0) as =
      .ok (r, outs) → r.pc = .polling → outs.reduceOption = number 0 batch := by
  intro batch first second as
  refine ⟨by decide, by decide, fun r outs hrun hpc => ?_⟩
  exact (run_in_order pairsConfig [batch] _ as r outs (by decide) (by decide) (by decide)
    (by decide) hrun).2.1
    (by simp [as, receiving, show sendAll pairsConfig 0 [batch] = [first, second] by decide]) hpc

end Receiver

end Naoto.UdpMulticast
