import NaotoExchange.Common.UdpMulticastEmitter

/-!
# What arrives when frames are lost

The emitter may leave out frames, the network may lose, repeat and reorder them and bring frames of
others, and the receiver's pool may be empty. There is no second attempt: what is missing once is
missing for good. The receiver then stops before the gap, so its consumer may be late for ever but
never sees objects out of order or skips one (`run_stops_at_gap`). A push never fails, since the
queue has room for the whole pool.
-/

namespace Naoto.UdpMulticast

open RingIndex SequenceRingBuffer Run

variable {T : Type} [HasSequenceId T] {c : Config}

/-- The frames of the emitter carry what was sent, though not all of it. With a frame for each
object they carry all of it. -/
theorem Emitter.Kept.packets {given : List T} {e : Emitter T} (h : e.Kept c given)
    (hcount : given.length < 2 ^ 32) (hring : c.objectsPerPacket ≤ c.ring.size.toNat) :
    Packets c (number 0 given)
      (e.transmitted.map Prod.snd ++ (number 0 given).map fun t => fillHeaders c [t]) := by
  have hframe : ∀ f ∈ e.transmitted.map Prod.snd ++ (number 0 given).map
      (fun t => fillHeaders c [t]), f = fillHeaders c f.payload ∧
      f.payload.length ≤ c.objectsPerPacket ∧ f.payload <:+: number 0 given := by
    intro f hf
    obtain hf | hf := List.mem_append.1 hf
    · obtain ⟨p, hp, rfl⟩ := List.mem_map.1 hf
      exact h.frames p hp
    · obtain ⟨t, ht, rfl⟩ := List.mem_map.1 hf
      obtain ⟨before, after, heq⟩ := List.append_of_mem ht
      exact ⟨rfl, c.fits, before, after, by simp [fillHeaders, heq]⟩
  constructor
  case count => simpa using hcount
  case numbered => exact fun _ _ => num_number hcount
  case processed =>
    intro f hf
    rw [(hframe f hf).1]
    exact inspect_fillHeaders _
  case payload =>
    intro f hf t ht
    obtain ⟨i, hi⟩ := List.getElem?_of_mem ((hframe f hf).2.2.subset ht)
    rw [Sent, num_number hcount hi]
    exact hi
  case close =>
    intro f hf
    obtain ⟨-, hlength, hin⟩ := hframe f hf
    obtain ⟨k, -, hplace⟩ := List.infix_iff_getElem?.1 hin
    rw [List.pairwise_iff_getElem]
    intro i j hi hj hij
    have hti := num_number hcount (hplace i hi)
    have htj := num_number hcount (hplace j hj)
    omega
  case complete =>
    intro t ht
    exact ⟨fillHeaders c [t], List.mem_append_right _ (List.mem_map_of_mem ht),
      List.mem_singleton_self t⟩

namespace Receiver

variable (c)

/-- The pool may be empty; an object that arrives for the first time and is copied does so within
the window; `Outgoing` is full only when it has `queueSize` objects, which are all handed out. -/
def TurnTolerates (queueSize : Nat) (r : Receiver T) (room : Bool) : Pc T → Prop
  | .polling => True
  | .copying _ [] => True
  | .copying _ (object :: _) => r.acquire.isSome → sequenceId object ∉ r.arrived.map sequenceId →
      r.sequencer.ring.tail.toNat ≤ num object + c.ring.size.toNat
  | .draining _ => room = false → queueSize ≤ r.handedOut.length

/-- What may happen: the frames are those of the emitter, or frames that the tests refuse. -/
def Tolerates (queueSize : Nat) (frames : List (Frame T)) (r : Receiver T) : Action T → Prop
  | .poll f => f ∈ frames ∨ inspect c f ≠ .processed
  | .turn room => r.TurnTolerates c queueSize room r.pc
  | .release _ => True

instance (queueSize : Nat) (r : Receiver T) (room : Bool) : (pc : Pc T) →
    Decidable (r.TurnTolerates c queueSize room pc)
  | .polling => .isTrue trivial
  | .copying _ [] => .isTrue trivial
  | .copying _ (_ :: _) => inferInstanceAs (Decidable (_ → _ → _))
  | .draining _ => inferInstanceAs (Decidable (_ → _))

instance [DecidableEq T] (queueSize : Nat) (frames : List (Frame T)) (r : Receiver T) :
    (a : Action T) → Decidable (r.Tolerates c queueSize frames a)
  | .poll _ => inferInstanceAs (Decidable (_ ∨ _))
  | .turn room => inferInstanceAs (Decidable (r.TurnTolerates c queueSize room r.pc))
  | .release _ => .isTrue trivial

/-- Besides the order of what is pushed: objects are those of the pool, what arrives was in a frame,
and what the consumer holds is what was pushed to it. -/
structure Held (frames : List (Frame T)) (r : Receiver T) (outs : List (Option T)) : Prop where
  owned : ∀ p ∈ r.owned, p < c.poolSize
  slots : ∀ i p, r.sequencer.ring.buffer i = some p → p < c.poolSize
  arrived : ∀ t ∈ r.arrived, ∃ f ∈ frames, t ∈ f.payload
  copying : ∀ mbuf rest, r.pc = .copying mbuf rest → ∀ t ∈ rest, ∃ f ∈ frames, t ∈ f.payload
  intact : ∀ p ∈ r.handedOut, r.sequencer.memory p ∈ outs.reduceOption

variable {c} {sent : List T} {frames : List (Frame T)} {r r' : Receiver T} {outs : List (Option T)}
  {out : Option T} {a : Action T} {p mbuf queueSize : Nat} {room : Bool}

omit [HasSequenceId T] in
theorem start_held (memory : Nat → T) : Held c frames (start c memory) [] where
  owned p hp := by simpa [Receiver.owned, start] using hp
  slots _ _ h := nomatch h
  arrived _ h := nomatch h
  copying _ _ h := nomatch h
  intact _ h := nomatch h

theorem Held.lt_poolSize (h : Held c frames r outs) (hinv : Inv c sent r outs)
    (hslot : r.sequencer.ring.getSlot c.ring r.sequencer.memory r.sequencer.nextToRead = some p) :
    r.handedOut.length < c.poolSize := by
  obtain ⟨-, -, hp⟩ := hinv.read hslot
  have hlt : p < c.poolSize := h.slots _ p (getSlot_eq_some.1 hslot).1
  have hnodup : (p :: r.owned).Nodup := List.nodup_cons.2 ⟨hp, hinv.nodup⟩
  have hsub : (p :: r.owned) ⊆ List.range c.poolSize := by
    intro q hq
    rw [List.mem_range]
    obtain rfl | hq := List.mem_cons.1 hq
    · exact hlt
    · exact h.owned q hq
  have hlength := (hnodup.subperm hsub).length_le
  simp only [Receiver.owned, List.length_cons, List.length_append, List.length_range] at hlength
  omega

omit [HasSequenceId T] in
theorem Held.memory_copied (h : Held c frames r outs) (hnodup : r.owned.Nodup) {t : T}
    {free localReuse : List Nat}
    (hperm : (r.free ++ r.localReuse).Perm (p :: (free ++ localReuse))) :
    ∀ q ∈ r.handedOut, (r.sequencer.copied p t).memory q ∈ outs.reduceOption := by
  intro q hq
  have hp : p ∈ r.free ++ r.localReuse := hperm.mem_iff.2 List.mem_cons_self
  have hne : q ≠ p := by
    rintro rfl
    exact (List.disjoint_of_nodup_append hnodup) hp hq
  rw [Sequencer.memory_copied_of_ne hne]
  exact h.intact q hq

omit [HasSequenceId T] in
theorem Held.quiet (h : Held c frames r outs) : Held c frames r (outs ++ [none]) :=
  ⟨h.owned, h.slots, h.arrived, h.copying, by rw [List.reduceOption_append]; simpa using h.intact⟩

omit [HasSequenceId T] in
theorem Held.go (h : Held c frames r outs) (pc : Pc T)
    (hcopying : ∀ mbuf rest, pc = .copying mbuf rest → ∀ t ∈ rest, ∃ f ∈ frames, t ∈ f.payload)
    (received : Nat)
    (freed : List Nat) : Held c frames { r with pc := pc, received := received, freed := freed }
      outs :=
  ⟨h.owned, h.slots, h.arrived, hcopying, h.intact⟩

theorem Held.stepped (h : Held c frames r outs) (hinv : Inv c sent r outs)
    (hqueue : c.poolSize ≤ queueSize)
    (htolerates : r.Tolerates c queueSize frames a) (hstep : Stepped c r a r' out) :
    Held c frames r' (outs ++ [out]) := by
  have hrest : ∀ {mbuf object rest}, r.pc = .copying mbuf (object :: rest) → ∀ mbuf' rest',
      Pc.copying mbuf rest = .copying mbuf' rest' → ∀ t ∈ rest', ∃ f ∈ frames, t ∈ f.payload := by
    intro mbuf object rest hpc mbuf' rest' heq t ht
    cases heq
    exact h.copying mbuf _ hpc t (List.mem_cons_of_mem _ ht)
  have hmore : ∀ {mbuf object rest}, r.pc = .copying mbuf (object :: rest) →
      ∀ t ∈ object :: r.arrived, ∃ f ∈ frames, t ∈ f.payload := by
    intro mbuf object rest hpc t ht
    obtain rfl | ht := List.mem_cons.1 ht
    · exact h.copying mbuf _ hpc t List.mem_cons_self
    · exact h.arrived t ht
  cases hstep with
  | dropped hpc hf => exact (h.go r.pc h.copying _ _).quiet
  | skipped hpc hf => exact (h.go r.pc h.copying _ _).quiet
  | @processed f hpc hf =>
    have hmem : f ∈ frames := htolerates.resolve_right fun hne => hne hf
    refine (h.go (.copying r.received f.payload) (fun mbuf rest heq t ht => ?_) _ _).quiet
    cases heq
    exact ⟨f, hmem, ht⟩
  | missed hpc hacq => exact (h.go _ (hrest hpc) _ _).quiet
  | @accepted _ _ p object _ free localReuse hpc hacq hperm hstale =>
    have howned : r.owned.Perm (p :: (free ++ localReuse ++ r.handedOut)) := hperm.append_right _
    refine Held.quiet ⟨fun q hq => ?_, fun i q hq => ?_, hmore hpc, hrest hpc,
      h.memory_copied hinv.nodup hperm⟩
    · exact h.owned q (howned.mem_iff.2 (List.mem_cons_of_mem _ hq))
    · simp only [put] at hq
      by_cases hi : i = idx c.ring (sequenceId object)
      · rw [hi, Function.update_self] at hq
        rw [← Option.some.inj hq]
        exact h.owned p (howned.mem_iff.2 List.mem_cons_self)
      · rw [Function.update_of_ne hi] at hq
        exact h.slots i q hq
  | refused hpc hacq hperm hstale =>
    refine Held.quiet ⟨fun q hq => ?_, h.slots, hmore hpc, hrest hpc,
      h.memory_copied hinv.nodup hperm⟩
    exact h.owned q ((released_subperm hperm).subset hq)
  | @copied _ mbuf hpc => exact (h.go (.draining mbuf) (fun _ _ heq => by cases heq) _ _).quiet
  | @pushed mbuf p hpc hslot =>
    refine ⟨fun q hq => ?_, h.slots, h.arrived, h.copying, fun q hq => ?_⟩
    · have howned : (r.free ++ r.localReuse ++ p :: r.handedOut).Perm (p :: r.owned) :=
        List.perm_middle
      obtain rfl | hq := List.mem_cons.1 (howned.mem_iff.1 hq)
      · exact h.slots _ q (getSlot_eq_some.1 hslot).1
      · exact h.owned q hq
    · rw [List.reduceOption_append, List.mem_append]
      obtain rfl | hq := List.mem_cons.1 hq
      · exact .inr (List.mem_singleton_self _)
      · exact .inl (h.intact q hq)
  | pushFailed hpc hslot =>
    have hroom := h.lt_poolSize hinv hslot
    simp only [Tolerates, hpc, TurnTolerates] at htolerates
    have hfull := htolerates trivial
    omega
  | drained hpc hslot => exact (h.go .polling (fun _ _ heq => by cases heq) _ _).quiet
  | @gaveBack p hp =>
    refine Held.quiet ⟨fun q hq => h.owned q ?_, h.slots, h.arrived, h.copying,
      fun q hq => h.intact q (List.mem_of_mem_erase hq)⟩
    simp only [Receiver.owned, List.mem_append] at hq ⊢
    obtain ((hq | hq) | hq) | hq := hq
    · exact .inl (.inl hq)
    · exact .inr (List.mem_singleton.1 hq ▸ hp)
    · exact .inl (.inr hq)
    · exact .inr (List.mem_of_mem_erase hq)

theorem Inv.tolerated (h : Inv c sent r outs) (hheld : Held c frames r outs)
    (hqueue : c.poolSize ≤ queueSize)
    {more : List (Frame T)} (hpackets : Packets c sent (frames ++ more))
    (htolerates : r.Tolerates c queueSize frames a) (hstep : Stepped c r a r' out) :
    Inv c sent r' (outs ++ [out]) := by
  have hquiet : ∀ {r : Receiver T}, Inv c sent r outs → Inv c sent r (outs ++ [none]) := by
    intro r h
    exact ⟨by
      rw [List.reduceOption_append]; simpa using h.pushed, h.next_le, h.delivered, h.arrived,
      h.slots, h.pending, h.nodup, h.phase⟩
  -- a copy is one that the rule for steps without loss knows
  have hcopy : ∀ {mbuf object rest room}, r.pc = .copying mbuf (object :: rest) → r.acquire ≠ none →
      r.Tolerates c queueSize frames (.turn room) → r.Delivers c (frames ++ more) (.turn room) := by
    intro mbuf object rest room hpc hacq htolerates
    have hsome := Option.isSome_iff_ne_none.2 hacq
    simp only [Tolerates, hpc, TurnTolerates] at htolerates
    simp only [Delivers, hpc]
    exact ⟨hsome, htolerates hsome⟩
  cases hstep with
  | dropped hpc hf => exact hquiet (h.go h.phase _ _)
  | skipped hpc hf => exact hquiet (h.go h.phase _ _)
  | @processed f hpc hf =>
    have hmem : f ∈ frames := htolerates.resolve_right fun hne => hne hf
    exact h.stepped hpackets (a := .poll f) (List.mem_append_left _ hmem) (.processed hpc hf)
  | @missed _ mbuf _ rest hpc hacq =>
    have hphase := h.phase
    rw [hpc] at hphase
    obtain ⟨hsent, hclose, hcase⟩ := hphase
    have hcopying : r.Phase c sent (.copying mbuf rest) :=
      ⟨fun u hu => hsent u (List.mem_cons_of_mem _ hu), (List.pairwise_cons.1 hclose).2,
        hcase.imp_right fun hnear u hu => hnear u (List.mem_cons_of_mem _ hu)⟩
    exact hquiet (h.go hcopying _ _)
  | accepted hpc hacq hperm hstale =>
    exact h.stepped hpackets (hcopy hpc hacq htolerates) (.accepted hpc hacq hperm hstale)
  | refused hpc hacq hperm hstale =>
    exact h.stepped hpackets (hcopy hpc hacq htolerates) (.refused hpc hacq hperm hstale)
  | @copied _ mbuf hpc =>
    have hdraining : r.Phase c sent (.draining mbuf) := trivial
    exact hquiet (h.go hdraining _ _)
  | pushed hpc hslot => exact h.pushes hpackets.count hpc hslot
  | pushFailed hpc hslot =>
    have hroom := hheld.lt_poolSize h hslot
    simp only [Tolerates, hpc, TurnTolerates] at htolerates
    have hfull := htolerates trivial
    omega
  | @drained room mbuf hpc hslot =>
    have hdelivers : r.Delivers c (frames ++ more) (.turn true) := by
      simp only [Delivers, hpc]
    exact h.stepped hpackets hdelivers (.drained hpc hslot)
  | gaveBack hp => exact h.stepped hpackets (a := .release _) trivial (.gaveBack hp)

theorem run_tolerated {calls : List (Emitter.Call T)} {memory : Nat → T} {as : List (Action T)}
    (hqueue : c.poolSize ≤ queueSize) (hfits : ∀ call ∈ calls, call.Fits c)
    (hcount : (calls.flatMap Emitter.Call.objects).length < 2 ^ 32)
    (hring : c.objectsPerPacket ≤ c.ring.size.toNat)
    (htolerates : Along (Tolerates c queueSize
      ((calls.foldl (Emitter.send c) .new).transmitted.map Prod.snd)) (step c) (start c memory) as)
    (hrun : Run.run (step c) (start c memory) as = .ok (r, outs)) :
    Inv c (number 0 (calls.flatMap Emitter.Call.objects)) r outs ∧
      Held c ((calls.foldl (Emitter.send c) .new).transmitted.map Prod.snd) r outs := by
  have hkept : Emitter.Kept c (calls.flatMap Emitter.Call.objects)
      (calls.foldl (Emitter.send c) .new) :=
    Emitter.kept_new.calls hfits
  have hpackets := hkept.packets hcount hring
  exact Run.run_invariant
    (P := fun _ r outs => Inv c (number 0 (calls.flatMap Emitter.Call.objects)) r outs ∧
      Held c ((calls.foldl (Emitter.send c) .new).transmitted.map Prod.snd) r outs)
    ⟨start_inv memory, start_held memory⟩ htolerates
    (fun _ _ _ _ _ _ _ _ h hpre hstep =>
      ⟨h.1.tolerated h.2 hqueue hpackets hpre (stepped_of_step hstep),
        h.2.stepped h.1 hqueue hpre (stepped_of_step hstep)⟩) hrun

theorem Inv.prefix_sent (h : Inv c sent r outs) : outs.reduceOption <+: sent := by
  rw [h.pushed]
  exact List.take_prefix _ _

/-- **Late, but never wrong.** The receiver's queue has room for its pool. Whatever the emitter's
allocations and bursts, whichever of its frames are lost, repeated or reordered, whatever frames of
others come in between and however often the pool is empty, as long as what is copied for the first
time is within the window: what the receiver pushes is a prefix of the numbered objects, there is
room in the queue whenever it has something to push, what the consumer holds is what was pushed, and
nothing from the first object on that no frame carries is ever pushed. -/
theorem run_stops_at_gap (c : Config) (queueSize : Nat) (calls : List (Emitter.Call T))
    (memory : Nat → T) (as : List (Action T)) (r : Receiver T) (outs : List (Option T))
    (hqueue : c.poolSize ≤ queueSize) (hfits : ∀ call ∈ calls, call.Fits c)
    (hcount : (calls.flatMap Emitter.Call.objects).length < 2 ^ 32)
    (hring : c.objectsPerPacket ≤ c.ring.size.toNat)
    (htolerates : Along (Tolerates c queueSize
      ((calls.foldl (Emitter.send c) .new).transmitted.map Prod.snd)) (step c) (start c memory) as)
    (hrun : Run.run (step c) (start c memory) as = .ok (r, outs)) :
    let sent := number 0 (calls.flatMap Emitter.Call.objects)
    outs.reduceOption <+: sent ∧
      (∀ p, r.sequencer.ring.getSlot c.ring r.sequencer.memory r.sequencer.nextToRead = some p →
        r.handedOut.length < queueSize) ∧
      (∀ p ∈ r.handedOut, r.sequencer.memory p ∈ outs.reduceOption) ∧
      ∀ n t, sent[n]? = some t →
        (∀ p ∈ (calls.foldl (Emitter.send c) .new).transmitted, t ∉ p.2.payload) →
        outs.reduceOption.length ≤ n := by
  intro sent
  obtain ⟨hinv, hheld⟩ := run_tolerated hqueue hfits hcount hring htolerates hrun
  refine ⟨hinv.prefix_sent, fun p hslot => (hheld.lt_poolSize hinv hslot).trans_le hqueue,
    hheld.intact, fun n t ht hlost => ?_⟩
  rw [hinv.pushed, List.length_take]
  by_contra hlt
  obtain ⟨u, hu, hnum⟩ := hinv.delivered n (by omega)
  obtain ⟨hsent, -⟩ := hinv.arrived u hu
  obtain ⟨f, hf, hmem⟩ := hheld.arrived u hu
  obtain ⟨p, hp, rfl⟩ := List.mem_map.1 hf
  rw [Sent, hnum, ht] at hsent
  exact hlost p hp (Option.some.inj hsent ▸ hmem)

/-- There is no mbuf for the second packet of a batch, so the third object is lost, and a fourth one
is of no use. -/
theorem run_stops_at_gap_sample :
    let u := Sequencer.bookUpdate 7
    let calls : List (Emitter.Call OrderBookUpdate) :=
      [.batch [u, u, u] [true, false] 2, .one u true 1]
    let frame := fun numbers : List UInt32 =>
      fillHeaders pairsConfig (numbers.map Sequencer.bookUpdate)
    let as := receiving (frame [0, 1]) 2 ++ [.poll { frame [5] with etherType := 0 }] ++ receiving
      (frame [3]) 0
    ∃ r outs, Run.run (step pairsConfig) (start pairsConfig fun _ => u) as = .ok (r, outs) ∧
      outs.reduceOption = [Sequencer.bookUpdate 0, Sequencer.bookUpdate 1] ∧
      outs.reduceOption <+: number 0 (calls.flatMap Emitter.Call.objects) ∧
      outs.reduceOption.length ≤ 2 := by
  intro u calls frame as
  obtain ⟨r, outs, hrun, houts⟩ := exists_of_succeeds
    (P := fun _ outs => outs.reduceOption = [Sequencer.bookUpdate 0, Sequencer.bookUpdate 1])
    (r := Run.run (step pairsConfig) (start pairsConfig fun _ => u) as) (by decide)
  have hfits : ∀ call ∈ calls, call.Fits pairsConfig := by
    simp [calls, Emitter.Call.Fits, pairsConfig]
  obtain ⟨hsent, -, -, hgap⟩ :=
    run_stops_at_gap pairsConfig 5 calls (fun _ => u) as r outs (by decide) hfits
    (by decide) (by decide) (by decide) hrun
  exact ⟨r, outs, hrun, houts, hsent, hgap 2 (Sequencer.bookUpdate 2) (by decide) (by decide)⟩

end Receiver

end Naoto.UdpMulticast
