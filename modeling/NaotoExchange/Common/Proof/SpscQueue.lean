import NaotoExchange.Common.SpscQueue

/-!
# What the queue keeps

Each side knows its own index and an old value of the other's. An old `Head` makes the queue look
fuller than it is and an old `Tail` makes it look emptier, so neither side goes where it must not
(`Inv`). What a client of the queue sees is a list of bounded length: `step_fifo`.
-/

namespace Naoto.SpscQueue

open RingIndex

section
variable {T : Type} (Q : Capacity)

/-- What the producer may rely on before its next step. -/
def ProducerPc.Ready (s : System T) (h : Nat) : ProducerPc T → Prop
  | .idle | .loadHead _ _ => True
  | .writeSlot _ => s.pushed.length < h + Q.size.toNat
  | .storeTail item =>
    s.pushed.length < h + Q.size.toNat ∧ s.queue.buffer (Q.slot s.queue.tail) = item

/-- Behind a slot that the consumer reads there is an item. -/
def ConsumerPc.Ready (s : System T) (t : Nat) : ConsumerPc T → Prop
  | .idle | .loadTail _ => True
  | .readSlot => s.popped.length < t
  | .storeHead item => s.popped.length < t ∧ s.pushed[s.popped.length]? = some item

/-- The producer's copy of `Head` is that of `h` pops. -/
structure ProducerInv (v₀ : UInt64) (s : System T) (h : Nat) : Prop where
  localTail : s.producer.localTail = s.queue.tail
  localHead : s.producer.localHead = count v₀ h
  old : h ≤ s.popped.length
  room : s.pushed.length ≤ h + Q.size.toNat
  ready : s.producer.pc.Ready Q s h

/-- The consumer's copy of `Tail` is that of `t` pushes. -/
structure ConsumerInv (v₀ : UInt64) (s : System T) (t : Nat) : Prop where
  localHead : s.consumer.localHead = s.queue.head
  localTail : s.consumer.localTail = count v₀ t
  old : t ≤ s.pushed.length
  behind : s.popped.length ≤ t
  ready : s.consumer.pc.Ready s t

/-- The indices count the pushes and the pops, and the items in between lie in their slots. -/
structure Inv (v₀ : UInt64) (s : System T) : Prop where
  tail : s.queue.tail = count v₀ s.pushed.length
  head : s.queue.head = count v₀ s.popped.length
  fifo : s.popped <+: s.pushed
  bounded : s.pushed.length ≤ s.popped.length + Q.size.toNat
  /-- What is outstanding is in its slot. -/
  slots : ∀ i item, s.popped.length ≤ i → s.pushed[i]? = some item →
    s.queue.buffer (Q.slot (count v₀ i)) = item
  producer : ∃ h, ProducerInv Q v₀ s h
  consumer : ∃ t, ConsumerInv v₀ s t

theorem start_inv (v₀ : UInt64) (memory : UInt64 → T) : Inv Q v₀ (.start v₀ memory) where
  tail := (count_zero v₀).symm
  head := (count_zero v₀).symm
  fifo := List.prefix_refl _
  bounded := Nat.zero_le _
  slots := fun i item _ hi => by simp [System.start] at hi
  producer := ⟨0, rfl, (count_zero v₀).symm, le_refl _, Nat.zero_le _, trivial⟩
  consumer := ⟨0, rfl, (count_zero v₀).symm, le_refl _, le_refl _, trivial⟩

variable {Q} {v₀ : UInt64} {s s' : System T} {l : Label T}

/-! ## What the tests mean -/

/-- The producer's test counts from the pops it knows of. -/
theorem looksFull_iff {p : Producer T} {n h : Nat} (htail : p.localTail = count v₀ n)
    (hhead : p.localHead = count v₀ h) (hle : h ≤ n) (hroom : n ≤ h + Q.size.toNat) :
    p.looksFull Q ↔ n = h + Q.size.toNat := by
  have hsize := Q.size_le
  unfold Producer.looksFull
  rw [htail, hhead, UInt64.le_iff_toNat_le, toNat_count_sub hle (by omega)]
  omega

theorem looksEmpty_iff {c : Consumer T} {n t : Nat} (hhead : c.localHead = count v₀ n)
    (htail : c.localTail = count v₀ t) (hle : n ≤ t) (hroom : t ≤ n + Q.size.toNat) :
    c.looksEmpty ↔ t = n := by
  have hsize := Q.size_le
  unfold Consumer.looksEmpty
  rw [htail, hhead]
  exact ⟨count_inj hle (by omega), fun he => by rw [he]⟩

theorem Inv.le (h : Inv Q v₀ s) : s.popped.length ≤ s.pushed.length := h.fifo.length_le

theorem Inv.loadedHead_looksFull (h : Inv Q v₀ s) :
    s.loadedHead.looksFull Q ↔ s.pushed.length = s.popped.length + Q.size.toNat := by
  obtain ⟨k, hp⟩ := h.producer
  exact looksFull_iff (hp.localTail.trans h.tail) h.head h.le h.bounded

theorem Inv.loadedTail_looksEmpty (h : Inv Q v₀ s) :
    s.loadedTail.looksEmpty ↔ s.pushed.length = s.popped.length := by
  obtain ⟨k, hc⟩ := h.consumer
  exact looksEmpty_iff (hc.localHead.trans h.head) h.tail h.le h.bounded

/-- **The slot that the producer writes next is of no outstanding value.** -/
theorem Inv.slot_free (h : Inv Q v₀ s) {k : Nat} (hp : ProducerInv Q v₀ s k)
    (hroom : s.pushed.length < k + Q.size.toNat) {i : Nat} (hi : s.popped.length ≤ i)
    (hlt : i < s.pushed.length) : Q.slot s.queue.tail ≠ Q.slot (count v₀ i) := by
  intro he
  rw [h.tail] at he
  have hold := hp.old
  have heq := slot_inj Q (Nat.le_of_lt hlt) (by omega) he
  omega

/-! ## The producer's steps -/

/-- A step that changes nothing but the producer's own state. -/
theorem Inv.withProducer (h : Inv Q v₀ s) {p : Producer T} {k : Nat}
    (hp : ProducerInv Q v₀ { s with producer := p } k) : Inv Q v₀ { s with producer := p } where
  tail := h.tail
  head := h.head
  fifo := h.fifo
  bounded := h.bounded
  slots := h.slots
  producer := ⟨k, hp⟩
  consumer := by
    obtain ⟨t, hc⟩ := h.consumer
    exact ⟨t, hc.localHead, hc.localTail, hc.old, hc.behind, hc.ready⟩

theorem Inv.loaded (h : Inv Q v₀ s) {pc : ProducerPc T}
    (hready : pc.Ready Q s s.popped.length) :
    Inv Q v₀ { s with producer := { s.loadedHead with pc := pc } } := by
  obtain ⟨k, hp⟩ := h.producer
  exact h.withProducer (k := s.popped.length) ⟨hp.localTail, h.head, le_refl _, h.bounded, hready⟩

theorem Inv.write (h : Inv Q v₀ s) {item : T} (hpc : s.producer.pc = .writeSlot item) :
    Inv Q v₀ { s with
      queue := { s.queue with
        buffer := Function.update s.queue.buffer (Q.slot s.producer.localTail) item }
      producer := { s.producer with pc := .storeTail item } } := by
  obtain ⟨k, hp⟩ := h.producer
  have hroom : s.pushed.length < k + Q.size.toNat := by
    have hready := hp.ready
    rw [hpc] at hready
    exact hready
  refine ⟨h.tail, h.head, h.fifo, h.bounded, fun i x hi hx => ?_, ?_, ?_⟩
  · have hlt : i < s.pushed.length := (List.getElem?_eq_some_iff.1 hx).1
    have hne := h.slot_free hp hroom hi hlt
    rw [← hp.localTail] at hne
    show Function.update s.queue.buffer _ item _ = x
    rw [Function.update_of_ne hne.symm]
    exact h.slots i x hi hx
  · refine ⟨k, hp.localTail, hp.localHead, hp.old, hp.room, hroom, ?_⟩
    show Function.update s.queue.buffer _ item _ = item
    rw [hp.localTail, Function.update_self]
  · obtain ⟨t, hc⟩ := h.consumer
    exact ⟨t, hc.localHead, hc.localTail, hc.old, hc.behind, hc.ready⟩

theorem Inv.storeTail (h : Inv Q v₀ s) {item : T} (hpc : s.producer.pc = .storeTail item) :
    Inv Q v₀ { s with
      queue := { s.queue with tail := s.producer.localTail + 1 }
      producer := { s.producer with localTail := s.producer.localTail + 1, pc := .idle }
      pushed := s.pushed ++ [item] } := by
  obtain ⟨k, hp⟩ := h.producer
  obtain ⟨hroom, hslot⟩ : s.pushed.length < k + Q.size.toNat ∧
      s.queue.buffer (Q.slot s.queue.tail) = item := by
    have hready := hp.ready
    rw [hpc] at hready
    exact hready
  have hlen : (s.pushed ++ [item]).length = s.pushed.length + 1 := by simp
  have hnew : s.producer.localTail + 1 = count v₀ (s.pushed ++ [item]).length := by
    rw [hlen, count_succ, hp.localTail, h.tail]
  refine ⟨hnew, h.head, h.fifo.trans (List.prefix_append _ _), ?_, fun i x hi hx => ?_, ?_, ?_⟩
  · have hold := hp.old
    show (s.pushed ++ [item]).length ≤ s.popped.length + Q.size.toNat
    omega
  · obtain hlt | rfl | hgt := lt_trichotomy i s.pushed.length
    · rw [List.getElem?_append_left hlt] at hx
      exact h.slots i x hi hx
    · rw [List.getElem?_concat_length] at hx
      obtain rfl := Option.some.inj hx
      rw [← h.tail]
      exact hslot
    · have hlt := (List.getElem?_eq_some_iff.1 hx).1
      change i < (s.pushed ++ [item]).length at hlt
      omega
  · refine ⟨k, rfl, hp.localHead, hp.old, ?_, trivial⟩
    show (s.pushed ++ [item]).length ≤ k + Q.size.toNat
    omega
  · obtain ⟨t, hc⟩ := h.consumer
    refine ⟨t, hc.localHead, hc.localTail, ?_, hc.behind, ?_⟩
    · have hold := hc.old
      show t ≤ (s.pushed ++ [item]).length
      omega
    · have hready := hc.ready
      cases hcpc : s.consumer.pc with
      | idle => trivial
      | loadTail call => trivial
      | readSlot =>
        rw [hcpc] at hready
        exact hready
      | storeHead x =>
        rw [hcpc] at hready
        refine ⟨hready.1, ?_⟩
        show (s.pushed ++ [item])[s.popped.length]? = some x
        rw [List.getElem?_append_left (List.getElem?_eq_some_iff.1 hready.2).1]
        exact hready.2

theorem Inv.producerStep (h : Inv Q v₀ s) (hstep : ProducerStep Q s l s') : Inv Q v₀ s' := by
  obtain ⟨k, hp⟩ := h.producer
  have hle := h.le
  have hold := hp.old
  cases hstep with
  | call call item hpc =>
    refine h.withProducer (k := k) ⟨hp.localTail, hp.localHead, hp.old, hp.room, ?_⟩
    have hfull := looksFull_iff (hp.localTail.trans h.tail) hp.localHead (by omega) hp.room
    dsimp only
    split
    · trivial
    · rename_i hnot
      rw [hfull] at hnot
      have hroom := hp.room
      show s.pushed.length < k + Q.size.toNat
      omega
  | load hpc hnot =>
    rw [h.loadedHead_looksFull] at hnot
    have hbound := h.bounded
    exact h.loaded (show s.pushed.length < s.popped.length + Q.size.toNat by omega)
  | full hpc hfull => exact h.loaded trivial
  | retry hpc hcall hfull =>
    have hstay : s.loadedHead = { s.loadedHead with pc := s.producer.pc } := rfl
    rw [hstay]
    refine h.loaded ?_
    rw [hpc]
    trivial
  | timeout hpc =>
    exact h.withProducer (k := k) ⟨hp.localTail, hp.localHead, hp.old, hp.room, trivial⟩
  | write hpc => exact h.write hpc
  | store hpc => exact h.storeTail hpc

/-! ## The consumer's steps -/

theorem Inv.withConsumer (h : Inv Q v₀ s) {c : Consumer T} {t : Nat}
    (hc : ConsumerInv v₀ { s with consumer := c } t) : Inv Q v₀ { s with consumer := c } where
  tail := h.tail
  head := h.head
  fifo := h.fifo
  bounded := h.bounded
  slots := h.slots
  producer := by
    obtain ⟨k, hp⟩ := h.producer
    exact ⟨k, hp.localTail, hp.localHead, hp.old, hp.room, hp.ready⟩
  consumer := ⟨t, hc⟩

theorem Inv.loadedAll (h : Inv Q v₀ s) {pc : ConsumerPc T} (hready : pc.Ready s s.pushed.length) :
    Inv Q v₀ { s with consumer := { s.loadedTail with pc := pc } } := by
  obtain ⟨t, hc⟩ := h.consumer
  exact h.withConsumer (t := s.pushed.length) ⟨hc.localHead, h.tail, le_refl _, h.le, hready⟩

/-- **What the consumer reads is the next value.** -/
theorem Inv.read_next (h : Inv Q v₀ s) (hlt : s.popped.length < s.pushed.length) :
    s.pushed[s.popped.length]? = some (s.queue.buffer (Q.slot s.queue.head)) := by
  obtain ⟨x, hx⟩ : ∃ x, s.pushed[s.popped.length]? = some x := ⟨_, List.getElem?_eq_getElem hlt⟩
  rw [h.head, h.slots _ x (le_refl _) hx, hx]

theorem snoc_prefix {xs ys : List T} {x : T} (h : xs <+: ys) (hx : ys[xs.length]? = some x) :
    xs ++ [x] <+: ys := by
  obtain ⟨zs, rfl⟩ := h
  rw [List.getElem?_append_right (le_refl _), Nat.sub_self] at hx
  cases zs with
  | nil => cases hx
  | cons z zs =>
    cases hx
    exact ⟨zs, by simp⟩

theorem Inv.storeHead (h : Inv Q v₀ s) {item : T} (hpc : s.consumer.pc = .storeHead item) :
    Inv Q v₀ { s with
      queue := { s.queue with head := s.consumer.localHead + 1 }
      consumer := { s.consumer with localHead := s.consumer.localHead + 1, pc := .idle }
      popped := s.popped ++ [item] } := by
  obtain ⟨t, hc⟩ := h.consumer
  obtain ⟨hlt, hitem⟩ : s.popped.length < t ∧ s.pushed[s.popped.length]? = some item := by
    have hready := hc.ready
    rw [hpc] at hready
    exact hready
  have hlen : (s.popped ++ [item]).length = s.popped.length + 1 := by simp
  have hbound := h.bounded
  refine ⟨h.tail, ?_, snoc_prefix h.fifo hitem, ?_, fun i x hi hx => ?_, ?_, ?_⟩
  · show s.consumer.localHead + 1 = count v₀ (s.popped ++ [item]).length
    rw [hlen, count_succ, hc.localHead, h.head]
  · show s.pushed.length ≤ (s.popped ++ [item]).length + Q.size.toNat
    omega
  · change (s.popped ++ [item]).length ≤ i at hi
    exact h.slots i x (by omega) hx
  · obtain ⟨k, hp⟩ := h.producer
    have hold := hp.old
    refine ⟨k, hp.localTail, hp.localHead, ?_, hp.room, hp.ready⟩
    show k ≤ (s.popped ++ [item]).length
    omega
  · refine ⟨t, rfl, hc.localTail, hc.old, ?_, trivial⟩
    show (s.popped ++ [item]).length ≤ t
    omega

theorem Inv.consumerStep (h : Inv Q v₀ s) (hstep : ConsumerStep Q s l s') : Inv Q v₀ s' := by
  obtain ⟨t, hc⟩ := h.consumer
  have hbehind := hc.behind
  have hold := hc.old
  cases hstep with
  | call call hpc =>
    refine h.withConsumer (t := t) ⟨hc.localHead, hc.localTail, hc.old, hc.behind, ?_⟩
    have hbound := h.bounded
    have hempty : s.consumer.looksEmpty ↔ t = s.popped.length :=
      looksEmpty_iff (Q := Q) (hc.localHead.trans h.head) hc.localTail hbehind (by omega)
    dsimp only
    split
    · trivial
    · rename_i hnot
      rw [hempty] at hnot
      show s.popped.length < t
      omega
  | load hpc hnot =>
    rw [h.loadedTail_looksEmpty] at hnot
    have hle := h.le
    exact h.loadedAll (show s.popped.length < s.pushed.length by omega)
  | empty hpc hempty => exact h.loadedAll trivial
  | retry hpc hcall hempty =>
    have hstay : s.loadedTail = { s.loadedTail with pc := s.consumer.pc } := rfl
    rw [hstay]
    refine h.loadedAll ?_
    rw [hpc]
    trivial
  | timeout hpc =>
    exact h.withConsumer (t := t) ⟨hc.localHead, hc.localTail, hc.old, hc.behind, trivial⟩
  | read hpc =>
    have hlt : s.popped.length < t := by
      have hready := hc.ready
      rw [hpc] at hready
      exact hready
    refine h.withConsumer (t := t) ⟨hc.localHead, hc.localTail, hc.old, hc.behind, hlt, ?_⟩
    rw [hc.localHead]
    exact h.read_next (by omega)
  | store hpc => exact h.storeHead hpc

theorem Inv.step (h : Inv Q v₀ s) (hstep : Step Q s l s') : Inv Q v₀ s' := by
  cases hstep with
  | inl hstep => exact h.producerStep hstep
  | inr hstep => exact h.consumerStep hstep

theorem Inv.reaches (h : Inv Q v₀ s) (hr : Reaches Q s s') : Inv Q v₀ s' := by
  induction hr with
  | refl => exact h
  | tail _ hstep ih =>
    obtain ⟨l, hstep⟩ := hstep
    exact ih.step hstep

/-! ## The queue as a list -/

/-- What a step does to a list of at most `size` values. -/
def FifoStep (size : Nat) (xs : List T) (l : Label T) (xs' : List T) : Prop :=
  match l with
  | .pushed item => xs.length < size ∧ xs' = xs ++ [item]
  | .popped item => xs = item :: xs'
  | .pushFailed .tryPush => xs.length = size ∧ xs' = xs
  | .popFailed .tryPop => xs = [] ∧ xs' = xs
  | _ => xs' = xs

theorem length_outstanding (s : System T) :
    s.outstanding.length = s.pushed.length - s.popped.length :=
  List.length_drop

theorem Inv.producerStep_fifo (h : Inv Q v₀ s) (hstep : ProducerStep Q s l s') :
    FifoStep Q.size.toNat s.outstanding l s'.outstanding := by
  obtain ⟨k, hp⟩ := h.producer
  cases hstep with
  | call call item hpc => rfl
  | load hpc hnot => rfl
  | full hpc hfull =>
    rw [h.loadedHead_looksFull] at hfull
    refine ⟨?_, rfl⟩
    rw [length_outstanding]
    omega
  | retry hpc hcall hfull => rfl
  | timeout hpc => rfl
  | write hpc => rfl
  | store hpc =>
    have hready := hp.ready
    have hold := hp.old
    rw [hpc] at hready
    have hroom : s.pushed.length < k + Q.size.toNat := hready.1
    refine ⟨?_, List.drop_append_of_le_length h.le⟩
    rw [length_outstanding]
    have hpos := Q.size_pos
    omega

theorem Inv.consumerStep_fifo (h : Inv Q v₀ s) (hstep : ConsumerStep Q s l s') :
    FifoStep Q.size.toNat s.outstanding l s'.outstanding := by
  obtain ⟨t, hc⟩ := h.consumer
  cases hstep with
  | call call hpc => rfl
  | load hpc hnot => rfl
  | empty hpc hempty =>
    rw [h.loadedTail_looksEmpty] at hempty
    refine ⟨List.length_eq_zero_iff.1 ?_, rfl⟩
    rw [length_outstanding]
    omega
  | retry hpc hcall hempty => rfl
  | timeout hpc => rfl
  | read hpc => rfl
  | @store item hpc =>
    have hready := hc.ready
    rw [hpc] at hready
    obtain ⟨hlt, hget⟩ := List.getElem?_eq_some_iff.1 hready.2
    show s.pushed.drop s.popped.length = item :: s.pushed.drop (s.popped ++ [item]).length
    rw [List.drop_eq_getElem_cons hlt, hget, List.length_append]
    rfl

/-- **The queue is a list of at most `Size` values** to whoever uses it. -/
theorem Inv.step_fifo (h : Inv Q v₀ s) (hstep : Step Q s l s') :
    FifoStep Q.size.toNat s.outstanding l s'.outstanding := by
  cases hstep with
  | inl hstep => exact h.producerStep_fifo hstep
  | inr hstep => exact h.consumerStep_fifo hstep

/-! ## A call in one piece -/

/-- What the producer's steps do to the value it has to push. -/
theorem ProducerStep.held (hstep : ProducerStep Q s l s') :
    match l with
    | .callPush _ item => s.producer.pc.held = none ∧ s'.producer.pc.held = some item
    | .pushed item => s.producer.pc.held = some item ∧ s'.producer.pc.held = none
    | .pushFailed _ => (∃ item, s.producer.pc.held = some item) ∧ s'.producer.pc.held = none
    | _ => s'.producer.pc.held = s.producer.pc.held := by
  cases hstep with
  | call call item hpc =>
    refine ⟨by rw [hpc]; rfl, ?_⟩
    dsimp only
    split
    · rfl
    · rfl
  | load hpc hnot =>
    rw [hpc]
    rfl
  | full hpc hfull =>
    rw [hpc]
    exact ⟨⟨_, rfl⟩, rfl⟩
  | retry hpc hcall hfull => rfl
  | timeout hpc =>
    rw [hpc]
    exact ⟨⟨_, rfl⟩, rfl⟩
  | write hpc =>
    rw [hpc]
    rfl
  | store hpc =>
    rw [hpc]
    exact ⟨rfl, rfl⟩

theorem tryPush_reaches (hidle : s.producer.pc = .idle) (item : T) :
    Reaches Q s (s.tryPush Q item).2 ∧ (s.tryPush Q item).2.producer.pc = .idle := by
  obtain ⟨queue, ⟨localHead, localTail, pc⟩, consumer, pushed, popped⟩ := s
  obtain rfl : pc = .idle := hidle
  -- from the test that lets the call through
  have hgo : ∀ h, Reaches Q ⟨queue, ⟨h, localTail, .writeSlot item⟩, consumer, pushed, popped⟩
      ⟨{ queue with
          buffer := Function.update queue.buffer (Q.slot localTail) item
          tail := localTail + 1 }, ⟨h, localTail + 1, .idle⟩, consumer, pushed ++ [item], popped⟩ :=
    fun h => .tail (.single ⟨_, .inl (.write rfl)⟩) ⟨_, .inl (.store rfl)⟩
  have hcall := ProducerStep.call (Q := Q)
    (s := ⟨queue, ⟨localHead, localTail, .idle⟩, consumer, pushed, popped⟩) .tryPush item rfl
  unfold System.tryPush
  dsimp only
  by_cases hfull : (⟨localHead, localTail, .idle⟩ : Producer T).looksFull Q
  · rw [if_pos hfull] at hcall
    rw [if_pos hfull]
    split
    · rename_i hstill
      exact ⟨.tail (.single ⟨_, .inl hcall⟩) ⟨_, .inl (.full rfl hstill)⟩, rfl⟩
    · rename_i hroom
      exact ⟨.trans (.tail (.single ⟨_, .inl hcall⟩) ⟨_, .inl (.load rfl hroom)⟩) (hgo queue.head),
        rfl⟩
  · rw [if_neg hfull] at hcall
    rw [if_neg hfull, if_neg hfull]
    exact ⟨.trans (.single ⟨_, .inl hcall⟩) (hgo localHead), rfl⟩

theorem Inv.tryPush (h : Inv Q v₀ s) (hroom : s.outstanding.length < Q.size.toNat) (item : T) :
    (s.tryPush Q item).1 = true ∧ (s.tryPush Q item).2.outstanding = s.outstanding ++ [item] ∧
      (s.tryPush Q item).2.consumer = s.consumer := by
  have hnot : ¬ s.loadedHead.looksFull Q := by
    rw [h.loadedHead_looksFull]
    rw [length_outstanding] at hroom
    omega
  have hpass : ¬ (if s.producer.looksFull Q then s.loadedHead else s.producer).looksFull Q := by
    split
    · exact hnot
    · assumption
  unfold System.tryPush
  dsimp only
  rw [if_neg hpass]
  exact ⟨rfl, List.drop_append_of_le_length h.le, rfl⟩

/-! ## The result -/

/-- **The queue is a bounded FIFO**, from any common start of its indices and in every interleaving:
what was popped is the beginning of what was pushed, at most `Size` values are outstanding, each is
in its slot, which the producer does not write, and the calls that do not wait fail only on a full
and an empty queue. -/
theorem run_bounded_fifo (Q : Capacity) (v₀ : UInt64) (memory : UInt64 → T) {s : System T}
    (h : Reaches Q (.start v₀ memory) s) :
    s.popped <+: s.pushed ∧ s.outstanding.length ≤ Q.size.toNat ∧
    (∀ i item, s.popped.length ≤ i → s.pushed[i]? = some item →
      s.queue.buffer (Q.slot (count v₀ i)) = item ∧
      ∀ x, s.producer.pc = .writeSlot x → Q.slot s.producer.localTail ≠ Q.slot (count v₀ i)) ∧
    (∀ s', Step Q s (.pushFailed .tryPush) s' → s.outstanding.length = Q.size.toNat) ∧
    (∀ s', Step Q s (.popFailed .tryPop) s' → s.outstanding = []) := by
  have hinv := (start_inv Q v₀ memory).reaches h
  refine ⟨hinv.fifo, ?_, fun i item hi hitem => ⟨hinv.slots i item hi hitem, fun x hpc => ?_⟩,
    fun s' hstep => (hinv.step_fifo hstep).1, fun s' hstep => (hinv.step_fifo hstep).1⟩
  · have hbound := hinv.bounded
    rw [length_outstanding]
    omega
  · obtain ⟨k, hp⟩ := hinv.producer
    have hready := hp.ready
    rw [hpc] at hready
    rw [hp.localTail]
    exact hinv.slot_free hp hready hi (List.getElem?_eq_some_iff.1 hitem).1

/-- One value through a queue of two slots whose indices wrap at the push. -/
theorem run_bounded_fifo_sample : ∃ s : System Nat,
    Reaches (.ofPow 1 (by decide)) (.start (-1) fun _ => 0) s ∧ s.queue.tail = 0 ∧ s.popped = [7] ∧
      s.popped <+: s.pushed := by
  have hrun : Reaches (T := Nat) (.ofPow 1 (by decide)) (.start (-1) fun _ => 0) _ :=
    .tail (.tail (.tail (.tail (.tail (.tail (.tail .refl
      ⟨_, .inl (.call .tryPush 7 rfl)⟩) ⟨_, .inl (.write rfl)⟩) ⟨_, .inl (.store rfl)⟩)
      ⟨_, .inr (.call .tryPop rfl)⟩) ⟨_, .inr (.load rfl (by decide))⟩) ⟨_, .inr (.read rfl)⟩)
      ⟨_, .inr (.store rfl)⟩
  exact ⟨_, hrun, rfl, rfl, (run_bounded_fifo _ _ _ hrun).1⟩

end

end Naoto.SpscQueue
