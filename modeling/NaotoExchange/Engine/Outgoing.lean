import NaotoExchange.Common.SharedPool

/-!
# Reports and book updates on their way out

The matching thread takes an object from a pool, fills it and pushes it to a queue (`FillBuyOrder`
and the other functions of `bid_ask.hpp`); it does not look at the result of the push. The emitter
thread pops up to `BatchSize` objects, sends them and gives each back to the pool
(`Consumer::TryConsume` of `consumer.hpp`).

* `run_never_drops`: the queue is as large as the pool, so a push of an object that was acquired
  never finds it full.
-/

namespace Naoto.Engine.Outgoing

open RingIndex

/-- Where the emitter is in `TryConsume`. -/
inductive EmitterPc where
  | popping
  | releasing

/-- The pool, the queue and the two threads between which the objects travel. -/
structure System where
  pool : StoragePool.System
  outgoing : SpscQueue.System Nat
  /-- What the matching thread has acquired and not pushed yet. -/
  hand : Option Nat
  emitter : EmitterPc
  /-- `Buffer[0..curSize)` of the emitter, without those already given back. -/
  batch : List Nat

/-- What a step of either thread does. -/
inductive Label where
  | acquired (p : Nat)
  | pushed (p : Nat)
  | dropped
  | terminated
  | other

variable (P O : Capacity) (batchSize : Nat)

/-- The queue is empty, and nobody holds anything. -/
def start (pool : StoragePool.System) (memory : UInt64 → Nat) : System where
  pool := pool
  outgoing := .start 0 memory
  hand := none
  emitter := .popping
  batch := []

/-- The matching thread. The source writes through the pointer it acquired without a test, so after
`acquireNull` nothing is known about it; here it may go on. -/
inductive MatchingStep (s : System) : Label → System → Prop
  | inAcquire {pool : StoragePool.System} : s.hand = none → s.outgoing.producer.pc = .idle →
      StoragePool.OwnerStep P s.pool .silent pool → MatchingStep s .other { s with pool := pool }
  | acquireNull {pool : StoragePool.System} : s.hand = none → s.outgoing.producer.pc = .idle →
      StoragePool.OwnerStep P s.pool .acquireFailed pool →
      MatchingStep s .other { s with pool := pool }
  | acquire {p : Nat} {pool : StoragePool.System} : s.hand = none → s.outgoing.producer.pc = .idle →
      StoragePool.OwnerStep P s.pool (.acquired p) pool →
      MatchingStep s (.acquired p) { s with pool := pool, hand := some p }
  | callPush {p : Nat} {call : SpscQueue.PushCall} {outgoing : SpscQueue.System Nat} : s.hand =
      some p → call ≠ .timedPush → SpscQueue.ProducerStep O s.outgoing (.callPush call p) outgoing →
      MatchingStep s .other { s with outgoing := outgoing, hand := none }
  | inPush {outgoing : SpscQueue.System Nat} : SpscQueue.ProducerStep O s.outgoing .silent
      outgoing → MatchingStep s .other { s with outgoing := outgoing }
  | pushed {p : Nat} {outgoing : SpscQueue.System Nat} :
      SpscQueue.ProducerStep O s.outgoing (.pushed p) outgoing →
      MatchingStep s (.pushed p) { s with outgoing := outgoing }
  | pushFailed {call : SpscQueue.PushCall} {outgoing : SpscQueue.System Nat} :
      SpscQueue.ProducerStep O s.outgoing (.pushFailed call) outgoing →
      MatchingStep s .dropped { s with outgoing := outgoing }

/-- The emitter thread. -/
inductive EmitterStep (s : System) : Label → System → Prop
  | callPop {outgoing : SpscQueue.System Nat} : s.emitter = .popping → s.batch.length < batchSize →
      SpscQueue.ConsumerStep O s.outgoing (.callPop .tryPop) outgoing →
      EmitterStep s .other { s with outgoing := outgoing }
  | inPop {outgoing : SpscQueue.System Nat} : s.emitter = .popping →
      SpscQueue.ConsumerStep O s.outgoing .silent outgoing →
      EmitterStep s .other { s with outgoing := outgoing }
  | popped {p : Nat} {outgoing : SpscQueue.System Nat} : s.emitter = .popping →
      SpscQueue.ConsumerStep O s.outgoing (.popped p) outgoing →
      EmitterStep s .other { s with outgoing := outgoing, batch := s.batch ++ [p] }
  | popFailed {outgoing : SpscQueue.System Nat} : s.emitter = .popping →
      SpscQueue.ConsumerStep O s.outgoing (.popFailed .tryPop) outgoing →
      EmitterStep s .other { s with outgoing := outgoing, emitter := .releasing }
  | full : s.emitter = .popping → s.outgoing.consumer.pc = .idle → batchSize ≤ s.batch.length →
      EmitterStep s .other { s with emitter := .releasing }
  | callRelease {p : Nat} {rest : List Nat} {pool : StoragePool.System} : s.emitter = .releasing →
      s.batch = p :: rest → StoragePool.OtherStep P s.pool (.callRelease p) pool →
      EmitterStep s .other { s with pool := pool, batch := rest }
  | inRelease {pool : StoragePool.System} : s.emitter = .releasing →
      StoragePool.OtherStep P s.pool .silent pool → EmitterStep s .other { s with pool := pool }
  | released {p : Nat} {pool : StoragePool.System} : s.emitter = .releasing →
      StoragePool.OtherStep P s.pool (.released p) pool →
      EmitterStep s .other { s with pool := pool }
  | releaseFailed {p : Nat} {pool : StoragePool.System} : s.emitter = .releasing →
      StoragePool.OtherStep P s.pool (.releaseFailed p) pool →
      EmitterStep s .terminated { s with pool := pool }
  | done : s.emitter = .releasing → s.batch = [] → s.pool.free.producer.pc = .idle →
      EmitterStep s .other { s with emitter := .popping }

/-- A step of either thread. -/
def Step (s : System) (l : Label) (s' : System) : Prop :=
  MatchingStep P O s l s' ∨ EmitterStep P O batchSize s l s'

/-- Any number of steps, interleaved in any way. -/
def Reaches : System → System → Prop :=
  Relation.ReflTransGen fun s s' => ∃ l, Step P O batchSize s l s'

/-! ## Where the acquired objects are -/

/-- In the hand of the matching thread, in its push, in the queue, or with the emitter. -/
def System.inUse (s : System) : List Nat :=
  s.hand.toList ++ s.outgoing.producer.pc.held.toList ++ s.outgoing.outstanding ++ s.batch

/-- Every object that is out of the pool is in somebody's hand or in the queue. -/
structure Inv (s : System) : Prop where
  pool : StoragePool.Inv P s.pool
  queue : SpscQueue.Inv O 0 s.outgoing
  used : s.pool.outstanding.Perm s.inUse
  untimed : ∀ item, s.outgoing.producer.pc ≠ .loadHead .timedPush item

variable {P O batchSize} {s s' : System} {l : Label}

theorem ownerStep_outstanding {p p' : StoragePool.System} {m : StoragePool.Label}
    (h : StoragePool.OwnerStep P p m p') (hm : m = .silent ∨ m = .acquireFailed) :
    p'.outstanding = p.outstanding := by
  cases h with
  | reuse | acquired | localRelease => simp at hm
  | acquire | inAcquire | acquiredNull | localReleaseFull => rfl

theorem ownerStep_acquired {p p' : StoragePool.System} {x : Nat}
    (h : StoragePool.OwnerStep P p (.acquired x) p') : p'.outstanding = x :: p.outstanding := by
  cases h <;> rfl

theorem otherStep_outstanding {p p' : StoragePool.System} {m : StoragePool.Label}
    (h : StoragePool.OtherStep P p m p') (hm : m = .silent ∨ ∃ x, m = .released x) :
    p'.outstanding = p.outstanding := by
  cases h with
  | release | releaseFull => simp at hm
  | inRelease | released => rfl

theorem otherStep_callRelease {p p' : StoragePool.System} {x : Nat}
    (h : StoragePool.OtherStep P p (.callRelease x) p') :
    x ∈ p.outstanding ∧ p'.outstanding = p.outstanding.erase x := by
  cases h with
  | release hx hq => exact ⟨hx, rfl⟩

theorem producerStep_untimed {q q' : SpscQueue.System Nat} {m : SpscQueue.Label Nat}
    (h : SpscQueue.ProducerStep O q m q') (hq : ∀ item, q.producer.pc ≠ .loadHead .timedPush item)
    (hm : ∀ item, m ≠ .callPush .timedPush item) :
    ∀ item, q'.producer.pc ≠ .loadHead .timedPush item := by
  intro item
  cases h with
  | call call x hpc =>
    dsimp only
    split
    · intro he
      cases he
      exact hm item rfl
    · exact nofun
  | retry hpc hcall hfull => exact hq item
  | load | full | timeout | write | store => exact nofun

/-- **An object on its way finds the queue with room.** -/
theorem Inv.push_fits (h : Inv P O s) (hle : P.size.toNat ≤ O.size.toNat) {p : Nat}
    (hp : s.hand = some p ∨ s.outgoing.producer.pc.held = some p) :
    s.outgoing.outstanding.length < O.size.toNat := by
  have hpool := h.pool.length
  have hlen := h.used.length_eq
  have hone : 0 < s.hand.toList.length + s.outgoing.producer.pc.held.toList.length := by
    obtain hp | hp := hp
    · rw [hp, Option.toList_some, List.length_singleton]
      omega
    · rw [hp, Option.toList_some, List.length_singleton]
      omega
  simp only [System.inUse, List.length_append] at hlen
  omega

theorem Inv.not_pushFailed (h : Inv P O s) (hle : P.size.toNat ≤ O.size.toNat)
    {call : SpscQueue.PushCall} {outgoing : SpscQueue.System Nat} :
    ¬ SpscQueue.ProducerStep O s.outgoing (.pushFailed call) outgoing := by
  intro hq
  obtain ⟨⟨p, hheld⟩, -⟩ : (∃ p, s.outgoing.producer.pc.held = some p) ∧ _ := hq.held
  have hroom := h.push_fits hle (.inr hheld)
  cases hq with
  | full hpc hfull =>
    have hfifo : s.outgoing.outstanding.length = O.size.toNat ∧ _ :=
      h.queue.producerStep_fifo (.full hpc hfull)
    omega
  | timeout hpc => exact h.untimed _ hpc

theorem Inv.matchingStep (h : Inv P O s) (hle : P.size.toNat ≤ O.size.toNat)
    (hstep : MatchingStep P O s l s') : Inv P O s' := by
  have hused := h.used
  cases hstep with
  | inAcquire hhand hpc hp =>
    refine ⟨h.pool.ownerStep hp, h.queue, ?_, h.untimed⟩
    rw [ownerStep_outstanding hp (.inl rfl)]
    exact hused
  | acquireNull hhand hpc hp =>
    refine ⟨h.pool.ownerStep hp, h.queue, ?_, h.untimed⟩
    rw [ownerStep_outstanding hp (.inr rfl)]
    exact hused
  | acquire hhand hpc hp =>
    refine ⟨h.pool.ownerStep hp, h.queue, ?_, h.untimed⟩
    rw [ownerStep_acquired hp]
    simp only [System.inUse, hhand, Option.toList_none, List.nil_append] at hused
    simpa only [System.inUse, Option.toList_some, List.singleton_append, List.cons_append,
      List.nil_append, List.append_assoc] using hused.cons _
  | @callPush p call outgoing hhand hcall hq =>
    have hlist : outgoing.outstanding = s.outgoing.outstanding := h.queue.producerStep_fifo hq
    obtain ⟨hnone, hsome⟩ : s.outgoing.producer.pc.held = none ∧ outgoing.producer.pc.held =
      some p :=
      hq.held
    refine ⟨h.pool, h.queue.producerStep hq, ?_,
      producerStep_untimed hq h.untimed fun item he => hcall (by cases he; rfl)⟩
    simpa only [System.inUse, hhand, hlist, hnone, hsome, Option.toList_none, Option.toList_some,
      List.append_nil, List.nil_append] using hused
  | @inPush outgoing hq =>
    have hlist : outgoing.outstanding = s.outgoing.outstanding := h.queue.producerStep_fifo hq
    have hheld : outgoing.producer.pc.held = s.outgoing.producer.pc.held := hq.held
    refine ⟨h.pool, h.queue.producerStep hq, ?_, producerStep_untimed hq h.untimed nofun⟩
    simpa only [System.inUse, hlist, hheld] using hused
  | @pushed p outgoing hq =>
    have hlist : _ ∧ outgoing.outstanding = s.outgoing.outstanding ++ [p] :=
      h.queue.producerStep_fifo hq
    obtain ⟨hsome, hnone⟩ : s.outgoing.producer.pc.held = some p ∧
      outgoing.producer.pc.held = none :=
      hq.held
    refine ⟨h.pool, h.queue.producerStep hq, hused.trans ?_,
      producerStep_untimed hq h.untimed nofun⟩
    simp only [System.inUse, hlist.2, hnone, hsome, Option.toList_none, Option.toList_some]
    grind
  | pushFailed hq => exact absurd hq (h.not_pushFailed hle)

theorem Inv.not_releaseFailed (h : Inv P O s) {p : Nat} {pool : StoragePool.System} :
    ¬ StoragePool.OtherStep P s.pool (.releaseFailed p) pool := by
  intro hp
  cases hp with
  | releaseFull hheld hq =>
    have hfifo : s.pool.free.outstanding.length = P.size.toNat ∧ _ :=
      h.pool.queue.producerStep_fifo hq
    have hroom := h.pool.release_fits hheld
    omega

theorem Inv.inPop (h : Inv P O s) {outgoing : SpscQueue.System Nat} {m : SpscQueue.Label Nat}
    (hq : SpscQueue.ConsumerStep O s.outgoing m outgoing)
    (hlist : outgoing.outstanding = s.outgoing.outstanding) (pc : EmitterPc) :
    Inv P O { s with outgoing := outgoing, emitter := pc } := by
  have hused := h.used
  have hproducer := StoragePool.consumerStep_producer hq
  refine ⟨h.pool, h.queue.consumerStep hq, ?_, by rw [hproducer]; exact h.untimed⟩
  simpa only [System.inUse, hlist, hproducer] using hused

theorem Inv.emitterStep (h : Inv P O s) (hstep : EmitterStep P O batchSize s l s') :
    Inv P O s' := by
  have hused := h.used
  cases hstep with
  | callPop hpc hroom hq => exact h.inPop hq (h.queue.consumerStep_fifo hq) _
  | inPop hpc hq => exact h.inPop hq (h.queue.consumerStep_fifo hq) _
  | @popped p outgoing hpc hq =>
    have hlist : s.outgoing.outstanding = p :: outgoing.outstanding := h.queue.consumerStep_fifo hq
    have hproducer := StoragePool.consumerStep_producer hq
    refine ⟨h.pool, h.queue.consumerStep hq, hused.trans ?_, by rw [hproducer]; exact h.untimed⟩
    simp only [System.inUse, hlist, hproducer]
    grind
  | @popFailed outgoing hpc hq =>
    have hlist : s.outgoing.outstanding = [] ∧ outgoing.outstanding = s.outgoing.outstanding :=
      h.queue.consumerStep_fifo hq
    exact h.inPop hq hlist.2 _
  | full hpc hidle hfull => exact ⟨h.pool, h.queue, hused, h.untimed⟩
  | @callRelease p rest pool hpc hbatch hp =>
    obtain ⟨hmem, herase⟩ := otherStep_callRelease hp
    refine ⟨h.pool.otherStep hp, h.queue, ?_, h.untimed⟩
    have hcons := List.perm_cons_erase hmem
    simp only [System.inUse, hbatch] at hused
    show pool.outstanding.Perm _
    rw [herase]
    simp only [System.inUse]
    grind
  | inRelease hpc hp =>
    refine ⟨h.pool.otherStep hp, h.queue, ?_, h.untimed⟩
    rw [otherStep_outstanding hp (.inl rfl)]
    exact hused
  | released hpc hp =>
    refine ⟨h.pool.otherStep hp, h.queue, ?_, h.untimed⟩
    rw [otherStep_outstanding hp (.inr ⟨_, rfl⟩)]
    exact hused
  | releaseFailed hpc hp => exact absurd hp h.not_releaseFailed
  | done hpc hbatch hidle => exact ⟨h.pool, h.queue, hused, h.untimed⟩

theorem Inv.reaches (h : Inv P O s) (hle : P.size.toNat ≤ O.size.toNat)
    (hr : Reaches P O batchSize s s') : Inv P O s' := by
  induction hr with
  | refl => exact h
  | tail _ hstep ih =>
    obtain ⟨l, hstep | hstep⟩ := hstep
    · exact ih.matchingStep hle hstep
    · exact ih.emitterStep hstep

/-! ## The result -/

/-- Nothing is lost between the pool and the queue. -/
structure System.Delivers (P O : Capacity) (batchSize : Nat) (s : System) : Prop where
  /-- `TryPush` of the object that was acquired returns true. -/
  succeeds : ∀ p, s.hand = some p → (s.outgoing.tryPush O p).1 = true
  /-- Nor does a push fail with steps of the emitter in between. -/
  notDropped : ∀ s', ¬ Step P O batchSize s .dropped s'
  notTerminated : ∀ s', ¬ Step P O batchSize s .terminated s'

theorem Inv.delivers (h : Inv P O s) (hle : P.size.toNat ≤ O.size.toNat) :
    s.Delivers P O batchSize where
  succeeds := fun p hp => (h.queue.tryPush (h.push_fits hle (.inl hp)) p).1
  notDropped := by
    rintro s' (hstep | hstep)
    · cases hstep with
      | pushFailed hq => exact h.not_pushFailed hle hq
    · cases hstep
  notTerminated := by
    rintro s' (hstep | hstep)
    · cases hstep
    · cases hstep with
      | releaseFailed hpc hp => exact h.not_releaseFailed hp

theorem never_drops (hle : P.size.toNat ≤ O.size.toNat) (batchSize : Nat)
    (poolMemory memory : UInt64 → Nat) : ∃ pool, StoragePool.new P poolMemory = some pool ∧
      ∀ s, Reaches P O batchSize (start pool memory) s → s.Delivers P O batchSize := by
  obtain ⟨pool, hnew, hpool, -, -, hnone, -⟩ := StoragePool.new_inv P poolMemory
  have hstart : Inv P O (start pool memory) := by
    refine ⟨hpool, SpscQueue.start_inv O 0 memory, ?_, nofun⟩
    show pool.outstanding.Perm _
    rw [hnone]
    exact .refl _
  exact ⟨pool, hnew, fun s hr => (hstart.reaches hle hr).delivers hle⟩

/-- `MeOrderStatePoolSize` and `MeOrderStateQueueSize`. -/
def orderStateSize : Capacity := .ofPow 15 (by decide)

/-- `MeOrderBookUpdatePoolSize` and `MeOrderBookUpdateQueueSize`. -/
def orderBookUpdateSize : Capacity := .ofPow 15 (by decide)

example : orderStateSize.size = 32768 ∧ orderBookUpdateSize.size = 32768 := by decide

/-- **No execution report and no book update is dropped**: in every interleaving a push of an
acquired object succeeds, and the emitter never terminates the process over an object that it gives
back. -/
theorem run_never_drops (batchSize : Nat) (poolMemory memory : UInt64 → Nat) :
    (∃ pool, StoragePool.new orderStateSize poolMemory = some pool ∧
      ∀ s, Reaches orderStateSize orderStateSize batchSize (start pool memory) s →
        s.Delivers orderStateSize orderStateSize batchSize) ∧
    (∃ pool, StoragePool.new orderBookUpdateSize poolMemory = some pool ∧
      ∀ s, Reaches orderBookUpdateSize orderBookUpdateSize batchSize (start pool memory) s →
        s.Delivers orderBookUpdateSize orderBookUpdateSize batchSize) :=
  ⟨never_drops (le_refl _) batchSize poolMemory memory,
    never_drops (le_refl _) batchSize poolMemory memory⟩

end Naoto.Engine.Outgoing
