import NaotoExchange.Common.Proof.SpscQueue

/-!
# The storage pool of two threads

`storage_pool.hpp`: the free objects are in a queue and in a buffer of the owner's own. The owner
takes objects with `Acquire` and may give them back with `LocalRelease`, the other thread gives them
back with `Release`. A pointer into the pool is the index of the object; `outstanding` are the
objects handed out and not given back, whichever thread has them.

* `run_partition`: no object is ever in two places, and nothing that is given back is refused.
-/

namespace Naoto.StoragePool

open RingIndex SpscQueue

/-- The free objects, the owner's own buffer and what both threads hold. -/
structure System where
  free : SpscQueue.System Nat
  /-- `LocalReuseBuffer`, the last one first. -/
  localReuse : List Nat
  outstanding : List Nat

/-- What a step of either thread does. -/
inductive Label where
  | acquired (p : Nat)
  | acquireFailed
  | localReleased (p : Nat)
  | localReleaseFailed (p : Nat)
  | callRelease (p : Nat)
  | released (p : Nat)
  | releaseFailed (p : Nat)
  | silent

variable (Q : Capacity)

/-- The loop of the constructor, which throws when a push fails. -/
def populate (free : SpscQueue.System Nat) : List Nat → Option (SpscQueue.System Nat)
  | [] => some free
  | p :: ps => if (free.tryPush Q p).1 then populate (free.tryPush Q p).2 ps else none

/-- The constructor pushes every object once. -/
def new (memory : UInt64 → Nat) : Option System :=
  (populate Q (.start 0 memory) (List.range Q.size.toNat)).map fun free => ⟨free, [], []⟩

/-- The steps of the owner. -/
inductive OwnerStep (s : System) : Label → System → Prop
  | reuse {p : Nat} {rest : List Nat} : s.free.consumer.pc = .idle → s.localReuse = p :: rest →
      OwnerStep s (.acquired p) { s with localReuse := rest, outstanding := p :: s.outstanding }
  | acquire {free : SpscQueue.System Nat} : s.localReuse = [] →
      ConsumerStep Q s.free (.callPop .tryPop) free → OwnerStep s .silent { s with free := free }
  | inAcquire {free : SpscQueue.System Nat} : ConsumerStep Q s.free .silent free →
      OwnerStep s .silent { s with free := free }
  | acquired {p : Nat} {free : SpscQueue.System Nat} : ConsumerStep Q s.free (.popped p) free →
      OwnerStep s (.acquired p) { s with free := free, outstanding := p :: s.outstanding }
  | acquiredNull {free : SpscQueue.System Nat} : ConsumerStep Q s.free (.popFailed .tryPop) free →
      OwnerStep s .acquireFailed { s with free := free }
  | localRelease {p : Nat} : s.free.consumer.pc = .idle → p ∈ s.outstanding →
      s.localReuse.length < Q.size.toNat →
      OwnerStep s (.localReleased p)
        { s with localReuse := p :: s.localReuse, outstanding := s.outstanding.erase p }
  | localReleaseFull {p : Nat} : s.free.consumer.pc = .idle → p ∈ s.outstanding →
      Q.size.toNat ≤ s.localReuse.length → OwnerStep s (.localReleaseFailed p) s

/-- The steps of the other thread. An object that it is giving back is with the call. -/
inductive OtherStep (s : System) : Label → System → Prop
  | release {p : Nat} {free : SpscQueue.System Nat} : p ∈ s.outstanding →
      ProducerStep Q s.free (.callPush .tryPush p) free →
      OtherStep s (.callRelease p) { s with free := free, outstanding := s.outstanding.erase p }
  | inRelease {free : SpscQueue.System Nat} : ProducerStep Q s.free .silent free →
      OtherStep s .silent { s with free := free }
  | released {p : Nat} {free : SpscQueue.System Nat} : ProducerStep Q s.free (.pushed p) free →
      OtherStep s (.released p) { s with free := free }
  | releaseFull {p : Nat} {free : SpscQueue.System Nat} : s.free.producer.pc.held = some p →
      ProducerStep Q s.free (.pushFailed .tryPush) free →
      OtherStep s (.releaseFailed p) { s with free := free, outstanding := p :: s.outstanding }

/-- A step of either thread. -/
def Step (s : System) (l : Label) (s' : System) : Prop := OwnerStep Q s l s' ∨ OtherStep Q s l s'

/-- Any number of steps, interleaved in any way. -/
def Reaches : System → System → Prop := Relation.ReflTransGen fun s s' => ∃ l, Step Q s l s'

/-! ## Everything is somewhere -/

/-- All objects: in the queue, in the owner's buffer, handed out, or with a call of `Release`. -/
def System.objects (s : System) : List Nat :=
  s.free.outstanding ++ s.localReuse ++ s.outstanding ++ s.free.producer.pc.held.toList

/-- The objects are those of the pool, each of them once. -/
structure Inv (s : System) : Prop where
  queue : SpscQueue.Inv Q 0 s.free
  objects : s.objects.Perm (List.range Q.size.toNat)
  /-- `Acquire` looks into the queue only when the buffer is empty. -/
  buffer : s.free.consumer.pc = .idle ∨ s.localReuse = []

variable {Q} {s s' : System} {l : Label}

theorem Inv.length (h : Inv Q s) : s.free.outstanding.length + s.localReuse.length +
    s.outstanding.length + s.free.producer.pc.held.toList.length = Q.size.toNat := by
  have hlen := h.objects.length_eq
  simpa [System.objects, Nat.add_assoc] using hlen

theorem consumerStep_producer {T : Type} {q q' : SpscQueue.System T} {m : SpscQueue.Label T}
    (h : ConsumerStep Q q m q') : q'.producer = q.producer := by
  cases h <;> rfl

theorem producerStep_consumer {T : Type} {q q' : SpscQueue.System T} {m : SpscQueue.Label T}
    (h : ProducerStep Q q m q') : q'.consumer = q.consumer := by
  cases h <;> rfl

theorem consumerStep_busy {T : Type} {q q' : SpscQueue.System T} {m : SpscQueue.Label T}
    (h : ConsumerStep Q q m q') (hm : ∀ call, m ≠ .callPop call) : q.consumer.pc ≠ .idle := by
  cases h with
  | call call hpc => exact absurd rfl (hm call)
  | load hpc => rw [hpc]; exact nofun
  | empty hpc => rw [hpc]; exact nofun
  | retry hpc => rw [hpc]; exact nofun
  | timeout hpc => rw [hpc]; exact nofun
  | read hpc => rw [hpc]; exact nofun
  | store hpc => rw [hpc]; exact nofun

theorem Inv.ownerStep (h : Inv Q s) (hstep : OwnerStep Q s l s') : Inv Q s' := by
  have hobjects := h.objects
  cases hstep with
  | @reuse p rest hidle hbuf =>
    refine ⟨h.queue, ?_, .inl hidle⟩
    refine .trans ?_ hobjects
    simp only [System.objects, hbuf]
    grind
  | acquire hbuf hq =>
    refine ⟨h.queue.consumerStep hq, ?_, .inr hbuf⟩
    have hlist : _ = s.free.outstanding := h.queue.consumerStep_fifo hq
    simpa only [System.objects, hlist, consumerStep_producer hq] using hobjects
  | inAcquire hq =>
    have hbusy := consumerStep_busy hq nofun
    refine ⟨h.queue.consumerStep hq, ?_, .inr (h.buffer.resolve_left hbusy)⟩
    have hlist : _ = s.free.outstanding := h.queue.consumerStep_fifo hq
    simpa only [System.objects, hlist, consumerStep_producer hq] using hobjects
  | @acquired p free hq =>
    have hbusy := consumerStep_busy hq nofun
    refine ⟨h.queue.consumerStep hq, ?_, .inr (h.buffer.resolve_left hbusy)⟩
    have hlist : s.free.outstanding = p :: free.outstanding := h.queue.consumerStep_fifo hq
    refine .trans ?_ hobjects
    simp only [System.objects, hlist, consumerStep_producer hq]
    grind
  | acquiredNull hq =>
    have hbusy := consumerStep_busy hq nofun
    refine ⟨h.queue.consumerStep hq, ?_, .inr (h.buffer.resolve_left hbusy)⟩
    have hlist : s.free.outstanding = [] ∧ _ = s.free.outstanding := h.queue.consumerStep_fifo hq
    simpa only [System.objects, hlist.2, consumerStep_producer hq] using hobjects
  | @localRelease p hidle hp hroom =>
    refine ⟨h.queue, ?_, .inl hidle⟩
    have herase := List.perm_cons_erase hp
    refine .trans ?_ hobjects
    simp only [System.objects]
    grind
  | localReleaseFull hidle hp hfull => exact h

/-- **A queue that misses an object has room for it.** -/
theorem Inv.release_fits (h : Inv Q s) {p : Nat} (hp : s.free.producer.pc.held = some p) :
    s.free.outstanding.length < Q.size.toNat := by
  have hlen := h.length
  rw [hp, Option.toList_some, List.length_singleton] at hlen
  omega

theorem Inv.otherStep (h : Inv Q s) (hstep : OtherStep Q s l s') : Inv Q s' := by
  have hobjects := h.objects
  have hbuffer := h.buffer
  cases hstep with
  | @release p free hp hq =>
    rw [← producerStep_consumer hq] at hbuffer
    refine ⟨h.queue.producerStep hq, ?_, hbuffer⟩
    have hlist : free.outstanding = s.free.outstanding := h.queue.producerStep_fifo hq
    obtain ⟨hnone, hsome⟩ : s.free.producer.pc.held = none ∧ free.producer.pc.held = some p :=
      hq.held
    have herase := List.perm_cons_erase hp
    refine .trans ?_ hobjects
    simp only [System.objects, hlist, hnone, hsome, Option.toList_some, Option.toList_none]
    grind
  | @inRelease free hq =>
    rw [← producerStep_consumer hq] at hbuffer
    refine ⟨h.queue.producerStep hq, ?_, hbuffer⟩
    have hlist : free.outstanding = s.free.outstanding := h.queue.producerStep_fifo hq
    have hheld : free.producer.pc.held = s.free.producer.pc.held := hq.held
    simpa only [System.objects, hlist, hheld] using hobjects
  | @released p free hq =>
    rw [← producerStep_consumer hq] at hbuffer
    refine ⟨h.queue.producerStep hq, ?_, hbuffer⟩
    have hlist : _ ∧ free.outstanding = s.free.outstanding ++ [p] := h.queue.producerStep_fifo hq
    obtain ⟨hsome, hnone⟩ : s.free.producer.pc.held = some p ∧ free.producer.pc.held = none :=
      hq.held
    refine .trans ?_ hobjects
    simp only [System.objects, hlist.2, hnone, hsome, Option.toList_some, Option.toList_none]
    grind
  | releaseFull hp hq =>
    have hfull : s.free.outstanding.length = Q.size.toNat ∧ _ := h.queue.producerStep_fifo hq
    have hroom := h.release_fits hp
    omega

theorem Inv.step (h : Inv Q s) (hstep : Step Q s l s') : Inv Q s' := by
  cases hstep with
  | inl hstep => exact h.ownerStep hstep
  | inr hstep => exact h.otherStep hstep

theorem Inv.reaches (h : Inv Q s) (hr : Reaches Q s s') : Inv Q s' := by
  induction hr with
  | refl => exact h
  | tail _ hstep ih =>
    obtain ⟨l, hstep⟩ := hstep
    exact ih.step hstep

/-! ## The constructor -/

/-- The loop pushes all objects it gets, as long as there is room. -/
theorem populate_ok {free : SpscQueue.System Nat} {ps : List Nat} (h : SpscQueue.Inv Q 0 free)
    (hidle : free.producer.pc = .idle)
    (hroom : free.outstanding.length + ps.length ≤ Q.size.toNat) :
    ∃ free', populate Q free ps = some free' ∧ SpscQueue.Inv Q 0 free' ∧ free'.producer.pc = .idle ∧
      free'.outstanding = free.outstanding ++ ps ∧ free'.consumer = free.consumer := by
  induction ps generalizing free with
  | nil => exact ⟨free, rfl, h, hidle, (List.append_nil _).symm, rfl⟩
  | cons p ps ih =>
    rw [List.length_cons] at hroom
    obtain ⟨hok, hlist, hconsumer⟩ := h.tryPush (by omega) p
    obtain ⟨hreaches, hidle'⟩ := tryPush_reaches (Q := Q) hidle p
    obtain ⟨free', hrun, hinv, hpc, hlist', hconsumer'⟩ := ih (h.reaches hreaches) hidle' (by
      rw [hlist, List.length_append, List.length_singleton]
      omega)
    refine ⟨free', ?_, hinv, hpc, ?_, hconsumer'.trans hconsumer⟩
    · rw [populate, if_pos hok, hrun]
    · rw [hlist', hlist, List.append_assoc]
      rfl

theorem new_inv (Q : Capacity) (memory : UInt64 → Nat) : ∃ s, new Q memory = some s ∧ Inv Q s ∧
    s.free.outstanding = List.range Q.size.toNat ∧ s.localReuse = [] ∧ s.outstanding = [] ∧
    s.free.producer.pc = .idle ∧ s.free.consumer.pc = .idle := by
  have hroom : (SpscQueue.System.start 0 memory).outstanding.length +
      (List.range Q.size.toNat).length ≤
      Q.size.toNat := by simp [SpscQueue.System.start, SpscQueue.System.outstanding]
  obtain ⟨free, hrun, hinv, hpc, hlist, hconsumer⟩ := populate_ok (start_inv Q 0 memory) rfl hroom
  have hall : free.outstanding = List.range Q.size.toNat := hlist
  have hidle : free.consumer.pc = .idle := by rw [hconsumer]; rfl
  refine ⟨⟨free, [], []⟩, by
    rw [new, hrun]; rfl, ⟨hinv, ?_, .inl hidle⟩, hall, rfl, rfl, hpc, hidle⟩
  simp only [System.objects, hall, hpc, ProducerPc.held, Option.toList_none, List.append_nil]
  exact .refl _

/-! ## The result -/

/-- **Objects are never handed out twice and never refused**: the pool can be built, and from then
on, in every interleaving, each object is in exactly one place, `Acquire` returns null only if it
found both the buffer and the queue empty, and `LocalRelease` and `Release` of an object that is
handed out succeed. -/
theorem run_partition (Q : Capacity) (memory : UInt64 → Nat) :
    ∃ s₀, new Q memory = some s₀ ∧ ∀ s, Reaches Q s₀ s →
      (s.objects.Perm (List.range Q.size.toNat) ∧ s.objects.Nodup) ∧
      (∀ s', Step Q s .acquireFailed s' → s.localReuse = [] ∧ s.free.outstanding = []) ∧
      ∀ p s', ¬ Step Q s (.localReleaseFailed p) s' ∧ ¬ Step Q s (.releaseFailed p) s' := by
  obtain ⟨s₀, hnew, hinv, -⟩ := new_inv Q memory
  refine ⟨s₀, hnew, fun s hr => ?_⟩
  have hinv := hinv.reaches hr
  refine ⟨⟨hinv.objects, hinv.objects.nodup_iff.2 List.nodup_range⟩, fun s' hstep => ?_,
    fun p s' => ⟨fun hstep => ?_, fun hstep => ?_⟩⟩
  · cases hstep with
    | inl hstep =>
      cases hstep with
      | acquiredNull hq =>
        have hempty : s.free.outstanding = [] ∧ _ := hinv.queue.consumerStep_fifo hq
        exact ⟨hinv.buffer.resolve_left (consumerStep_busy hq nofun), hempty.1⟩
    | inr hstep => cases hstep
  · cases hstep with
    | inl hstep =>
      cases hstep with
      | localReleaseFull hidle hp hfull =>
        have hlen := hinv.length
        have hpos := List.length_pos_of_mem hp
        omega
    | inr hstep => cases hstep
  · cases hstep with
    | inl hstep => cases hstep
    | inr hstep =>
      cases hstep with
      | releaseFull hp hq =>
        have hfull : s.free.outstanding.length = Q.size.toNat ∧ _ := hinv.queue.producerStep_fifo hq
        have hroom := hinv.release_fits hp
        omega

end Naoto.StoragePool
