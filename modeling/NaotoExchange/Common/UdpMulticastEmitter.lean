import NaotoExchange.Common.MulticastDelivery

/-!
# The emitter when DPDK refuses

Both `Send` functions of `udp_multicast_emitter.hpp`, with what `rte_pktmbuf_alloc` and
`rte_eth_tx_burst` answer as an input. An object gets its number before an mbuf is asked for, so the
number is used up when there is none.

* `run_emits`: whatever the answers, every mbuf is freed by the emitter or handed to the port, and
  not both; the frames handed over carry objects in the order and with the numbers of the calls, and
  leave out only those whose mbuf was refused or did not get into a burst.
-/

namespace Naoto.UdpMulticast

open Run

variable {T : Type} [HasSequenceId T]

/-- The room for data in an mbuf of the emitter's pool. -/
def tailroom : Nat := mtu + 14

/-- mbufs are numbered as they are allocated. -/
structure Emitter (T : Type) where
  sequenceId : UInt32
  allocated : Nat
  freed : List Nat
  /-- What the port has taken, in order. -/
  transmitted : List (Nat × Frame T)

namespace Emitter

/-- Nothing was sent. -/
def new : Emitter T := ⟨0, 0, [], []⟩

variable (c : Config)

/-- `rte_pktmbuf_append` for so many objects succeeds. -/
def canAppend (count : Nat) : Bool := headerSize + c.objectSize * count ≤ tailroom

/-- What an allocation and `FillHeaders` come to: a packet, if both succeed. -/
def build (e : Emitter T) (alloc : Bool) (items : List T) : Emitter T × Option (Nat × Frame T) :=
  if alloc then
    let e' := { e with allocated := e.allocated + 1 }
    if canAppend c items.length then (e', some (e.allocated, fillHeaders c items))
    else ({ e' with freed := e.allocated :: e.freed }, none)
  else (e, none)

/-- The loop of `Send`, with the packets so far and the objects left. Each turn takes an object at
least. -/
def fill : Nat → List Bool → Emitter T → List (Nat × Frame T) → List T → Emitter T × List
    (Nat × Frame T)
  | 0, _, e, packets, _ => (e, packets)
  | _ + 1, _, e, packets, [] => (e, packets)
  | turns + 1, allocs, e, packets, t :: ts =>
    if packets.length < c.maxPackets then
      let curStep := min c.objectsPerPacket (t :: ts).length
      let items := number e.sequenceId ((t :: ts).take curStep)
      let built := { e with sequenceId := e.sequenceId + UInt32.ofNat curStep }.build c
        (allocs.headD true) items
      fill turns allocs.tail built.1 (packets ++ built.2.toList) ((t :: ts).drop curStep)
    else (e, packets)

/-- `rte_eth_tx_burst` of packets of which it takes the first ones; the others are freed. -/
def burst (e : Emitter T) (packets : List (Nat × Frame T)) (sent : Nat) : Emitter T :=
  { e with
    transmitted := e.transmitted ++ packets.take sent
    freed := (packets.drop sent).map Prod.fst ++ e.freed }

/-- A call, with what DPDK answers while it runs. -/
inductive Call (T : Type) where
  /-- `Send` of one object; whether there is an mbuf and what the burst takes. -/
  | one (object : T) (alloc : Bool) (sent : Nat)
  /-- `Send` of a batch, with one answer per allocation. -/
  | batch (objects : List T) (allocs : List Bool) (sent : Nat)

/-- The objects of the call. -/
def Call.objects : Call T → List T
  | .one object _ _ => [object]
  | .batch objects _ _ => objects

/-- The objects get their numbers whether or not there is a packet for them. -/
def send (e : Emitter T) : Call T → Emitter T
  | .one object alloc sent =>
    let built := { e with sequenceId := e.sequenceId + 1 }.build c alloc
      (number e.sequenceId [object])
    match built.2 with
    | none => built.1
    | some packet => built.1.burst [packet] sent
  | .batch objects allocs sent =>
    let filled := e.fill c objects.length allocs [] objects
    if filled.2 = [] then filled.1 else filled.1.burst filled.2 sent

/-- A batch comes from a buffer of `BatchSize`. -/
def Call.Fits : Call T → Prop
  | .one _ _ _ => True
  | .batch objects _ _ => objects.length ≤ c.batchSize

/-- Nothing is refused. -/
def Call.Served : Call T → Prop
  | .one _ alloc sent => alloc = true ∧ 1 ≤ sent
  | .batch objects allocs sent => (∀ a ∈ allocs, a = true) ∧ objects.length ≤ sent

/-! ## A call -/

variable {c} {e e' : Emitter T} {given objects : List T} {packets : List (Nat × Frame T)}

/-- What the packets carry. -/
def payloads (packets : List (Nat × Frame T)) : List T := packets.flatMap fun p => p.2.payload

/-- So many objects always fit into an mbuf: `FillHeaders` does not fail. -/
theorem canAppend_of_le {count : Nat} (h : count ≤ c.objectsPerPacket) :
    canAppend c count = true := by
  have hbytes : c.objectSize * c.objectsPerPacket ≤ mtu - 20 - 8 := Nat.mul_div_le _ _
  have hmono := Nat.mul_le_mul_left c.objectSize h
  refine decide_eq_true ?_
  simp only [headerSize, tailroom, mtu] at hbytes ⊢
  omega

omit [HasSequenceId T] in
theorem build_of_le {alloc : Bool} {items : List T} (h : items.length ≤ c.objectsPerPacket) :
    e.build c alloc items = if alloc then
      ({ e with allocated := e.allocated + 1 }, some (e.allocated, fillHeaders c items)) else
        (e, none) := by
  simp only [build, canAppend_of_le h, if_true]

/-- The call has taken `objects` and made the packets `new` of some of them. -/
structure Filled (c : Config) (objects : List T) (e e' : Emitter T) (new : List (Nat × Frame T)) :
    Prop where
  sequenceId : e'.sequenceId = e.sequenceId + UInt32.ofNat objects.length
  allocated : e'.allocated = e.allocated + new.length
  count : new.length ≤ objects.length
  mbufs : new.map Prod.fst = List.range' e.allocated new.length
  freed : e'.freed = e.freed
  transmitted : e'.transmitted = e.transmitted
  carried : (payloads new).Sublist (number e.sequenceId objects)
  packets : ∀ p ∈ new, p.2 = fillHeaders c p.2.payload ∧ p.2.payload.length ≤ c.objectsPerPacket ∧
    p.2.payload <:+: number e.sequenceId objects

theorem filled_nil (e : Emitter T) : Filled c [] e e [] :=
  ⟨(UInt32.add_zero _).symm, rfl, Nat.le_refl _, rfl, rfl, rfl, List.Sublist.refl _, nofun⟩

theorem filled_build (alloc : Bool) (hpos : 0 < objects.length)
    (h : objects.length ≤ c.objectsPerPacket) :
    let built := { e with sequenceId := e.sequenceId + UInt32.ofNat objects.length }.build c alloc
      (number e.sequenceId objects)
    Filled c objects e built.1 built.2.toList ∧
      (alloc = true → payloads built.2.toList = number e.sequenceId objects) := by
  intro built
  have hbuilt : built = _ := build_of_le (by rw [length_number]; exact h)
  cases alloc with
  | true =>
    rw [hbuilt]
    have hcarried : payloads [(e.allocated, fillHeaders c (number e.sequenceId objects))] =
        number e.sequenceId objects := List.append_nil _
    have hall : (payloads [(e.allocated, fillHeaders c (number e.sequenceId objects))]).Sublist
        (number e.sequenceId objects) := by rw [hcarried]
    refine ⟨⟨rfl, rfl, hpos, rfl, rfl, rfl, hall, ?_⟩, fun _ => hcarried⟩
    · intro p hp
      rw [List.mem_singleton.1 hp]
      exact ⟨rfl, by simpa [fillHeaders] using h, List.infix_refl _⟩
  | false =>
    rw [hbuilt]
    exact ⟨⟨rfl, rfl, Nat.zero_le _, rfl, rfl, rfl, List.nil_sublist _,
      fun p hp => absurd hp List.not_mem_nil⟩, fun h => absurd h Bool.false_ne_true⟩

theorem Filled.append {more : List T} {e'' : Emitter T} {new new' : List (Nat × Frame T)}
    (h : Filled c objects e e' new) (h' : Filled c more e' e'' new') :
    Filled c (objects ++ more) e e'' (new ++ new') := by
  have hnumber : number e.sequenceId (objects ++ more) =
      number e.sequenceId objects ++ number e'.sequenceId more := by
    rw [number_append, ← h.sequenceId]
  constructor
  case sequenceId => rw [h'.sequenceId, h.sequenceId, List.length_append, UInt32.ofNat_add,
    UInt32.add_assoc]
  case allocated => rw [h'.allocated, h.allocated, List.length_append, Nat.add_assoc]
  case count =>
    have hcount := h.count
    have hcount' := h'.count
    rw [List.length_append, List.length_append]
    omega
  case mbufs =>
    rw [List.map_append, h.mbufs, h'.mbufs, h.allocated, List.length_append, List.range'_append_1]
  case freed => exact h'.freed.trans h.freed
  case transmitted => exact h'.transmitted.trans h.transmitted
  case carried =>
    rw [hnumber, payloads, List.flatMap_append]
    exact h.carried.append h'.carried
  case packets =>
    intro p hp
    rw [hnumber]
    obtain hp | hp := List.mem_append.1 hp
    · obtain ⟨hframe, hlength, hin⟩ := h.packets p hp
      exact ⟨hframe, hlength, hin.trans (List.prefix_append _ _).isInfix⟩
    · obtain ⟨hframe, hlength, hin⟩ := h'.packets p hp
      exact ⟨hframe, hlength, hin.trans (List.suffix_append _ _).isInfix⟩

/-- **The loop of `Send`** gets through all objects: the bound on the packets stops it too late to
matter. -/
theorem fill_spec (turns : Nat) (allocs : List Bool) (e : Emitter T)
    (packets : List (Nat × Frame T)) (objects : List T) (hturns : objects.length ≤ turns)
    (hroom : objects.length + packets.length * c.objectsPerPacket ≤
      c.maxPackets * c.objectsPerPacket) :
    ∃ new, (e.fill c turns allocs packets objects).2 = packets ++ new ∧
      Filled c objects e (e.fill c turns allocs packets objects).1 new ∧
      ((∀ a ∈ allocs, a = true) → payloads new = number e.sequenceId objects) := by
  induction turns generalizing allocs e packets objects with
  | zero =>
    obtain rfl : objects = [] := List.eq_nil_of_length_eq_zero (by omega)
    exact ⟨[], (List.append_nil _).symm, filled_nil e, fun _ => rfl⟩
  | succ turns ih =>
    cases objects with
    | nil => exact ⟨[], (List.append_nil _).symm, filled_nil e, fun _ => rfl⟩
    | cons t ts =>
      have hpos : 0 < c.objectsPerPacket := c.fits
      have hleft : packets.length < c.maxPackets := by
        by_contra hfull
        have hmul := Nat.mul_le_mul_right c.objectsPerPacket (Nat.le_of_not_lt hfull)
        rw [List.length_cons] at hroom
        omega
      rw [fill, if_pos hleft]
      set objects := t :: ts with hobjects
      set curStep := min c.objectsPerPacket objects.length with hstep
      have hstep_pos : 0 < curStep := by
        rw [hstep, hobjects, List.length_cons]
        omega
      have htake : (objects.take curStep).length = curStep := by
        rw [List.length_take]
        omega
      obtain ⟨hfirst, hcarried⟩ := filled_build (c := c) (e := e) (allocs.headD true)
        (show 0 < (objects.take curStep).length by omega) (by omega)
      rw [htake] at hfirst hcarried
      set built := { e with sequenceId := e.sequenceId + UInt32.ofNat curStep }.build c
        (allocs.headD true) (number e.sequenceId (objects.take curStep)) with hbuilt
      have hone : built.2.toList.length ≤ 1 := by
        cases built.2 <;> simp
      have hdrop : (objects.drop curStep).length = objects.length - curStep := List.length_drop
      obtain ⟨new, hnew, hfilled, hrest⟩ :=
        ih allocs.tail built.1 (packets ++ built.2.toList) (objects.drop curStep) (by omega) (by
          have hmul := Nat.mul_le_mul_right c.objectsPerPacket hone
          have hmore := Nat.mul_le_mul_right c.objectsPerPacket hleft
          rw [Nat.succ_mul] at hmore
          rw [List.length_append, Nat.add_mul, hdrop]
          omega)
      refine ⟨built.2.toList ++ new, by rw [hnew, List.append_assoc], ?_, fun hall => ?_⟩
      · have happend := hfirst.append hfilled
        rwa [List.take_append_drop] at happend
      · have hhead : allocs.headD true = true := by
          cases allocs with
          | nil => rfl
          | cons a _ => exact hall a List.mem_cons_self
        have htail := hrest fun a ha => hall a (List.mem_of_mem_tail ha)
        have hparts : payloads built.2.toList ++ payloads new =
            number e.sequenceId (objects.take curStep ++ objects.drop curStep) := by
          rw [number_append, hcarried hhead, htail, hfirst.sequenceId]
        rw [List.take_append_drop] at hparts
        rw [← hparts]
        exact List.flatMap_append

omit [HasSequenceId T] in
theorem burst_nil (e : Emitter T) (sent : Nat) : e.burst [] sent = e := by
  simp [burst]

/-- **Both `Send` functions**: the objects are numbered, packets are made of some of them and
offered to the port. -/
theorem send_spec (e : Emitter T) {call : Call T} (hfits : call.Fits c) :
    ∃ e' new sent, e.send c call = e'.burst new sent ∧ Filled c call.objects e e' new ∧
      (call.Served → payloads new = number e.sequenceId call.objects ∧ new.length ≤ sent) := by
  cases call with
  | one object alloc sent =>
    obtain ⟨built, hbuilt⟩ : ∃ built,
      built = { e with sequenceId := e.sequenceId + 1 }.build c alloc
      (number e.sequenceId [object]) := ⟨_, rfl⟩
    have hspec : Filled c [object] e built.1 built.2.toList ∧
        (alloc = true → payloads built.2.toList = number e.sequenceId [object]) := by
      rw [hbuilt]
      exact filled_build alloc Nat.one_pos c.fits
    obtain ⟨hfilled, hcarried⟩ := hspec
    refine ⟨built.1, built.2.toList, sent, ?_, hfilled,
      fun hserved => ⟨hcarried hserved.1, Nat.le_trans hfilled.count hserved.2⟩⟩
    simp only [send, ← hbuilt]
    cases built.2 with
    | none => exact (burst_nil _ _).symm
    | some packet => rfl
  | batch objects allocs sent =>
    have hroom : objects.length + ([] : List (Nat × Frame T)).length * c.objectsPerPacket ≤
        c.maxPackets * c.objectsPerPacket := by
      simpa using Nat.le_trans hfits c.batch_fits
    obtain ⟨new, hnew, hfilled, hcarried⟩ :=
      fill_spec objects.length allocs e [] objects (Nat.le_refl _) hroom
    rw [List.nil_append] at hnew
    refine ⟨_, new, sent, ?_, hfilled,
      fun hserved => ⟨hcarried hserved.1, Nat.le_trans hfilled.count hserved.2⟩⟩
    simp only [send, hnew]
    split
    · next hnone => rw [hnone, burst_nil]
    · rfl

/-! ## Runs -/

/-- What holds after calls with the objects `given`. -/
structure Kept (c : Config) (given : List T) (e : Emitter T) : Prop where
  sequenceId : e.sequenceId = UInt32.ofNat given.length
  mbufs : (e.freed ++ e.transmitted.map Prod.fst).Perm (List.range e.allocated)
  carried : (payloads e.transmitted).Sublist (number 0 given)
  frames : ∀ p ∈ e.transmitted, p.2 = fillHeaders c p.2.payload ∧
    p.2.payload.length ≤ c.objectsPerPacket ∧ p.2.payload <:+: number 0 given

theorem kept_new : Kept c [] (new : Emitter T) :=
  ⟨rfl, List.Perm.refl _, List.Sublist.refl _, nofun⟩

theorem Kept.number_append (h : Kept c given e) :
    number 0 (given ++ objects) = number 0 given ++ number e.sequenceId objects := by
  rw [UdpMulticast.number_append, h.sequenceId, UInt32.zero_add]

theorem Kept.burst (h : Kept c given e) (hfilled : Filled c objects e e' packets) (sent : Nat) :
    Kept c (given ++ objects) (e'.burst packets sent) := by
  have hfree : (packets.drop sent).map Prod.fst ++ e'.freed ++
      (e'.transmitted ++ packets.take sent).map Prod.fst =
      (packets.drop sent).map Prod.fst ++ (e.freed ++ (e.transmitted.map Prod.fst ++
        (packets.take sent).map Prod.fst)) := by
    rw [hfilled.freed, hfilled.transmitted, List.map_append, List.append_assoc]
  constructor
  case sequenceId =>
    rw [List.length_append, UInt32.ofNat_add, ← h.sequenceId]
    exact hfilled.sequenceId
  case mbufs =>
    show ((packets.drop sent).map Prod.fst ++ e'.freed ++
      (e'.transmitted ++ packets.take sent).map Prod.fst).Perm (List.range e'.allocated)
    have hrange : List.range e'.allocated = List.range e.allocated ++ packets.map Prod.fst := by
      rw [hfilled.allocated, hfilled.mbufs, List.range_eq_range', List.range_eq_range',
        ← List.range'_append_1, Nat.zero_add]
    have hparts : packets.map Prod.fst = (packets.take sent).map Prod.fst ++ (packets.drop sent).map
        Prod.fst := by
      rw [← List.map_append, List.take_append_drop]
    rw [hfree, hrange, hparts]
    refine List.perm_append_comm.trans ?_
    rw [← List.append_assoc, List.append_assoc]
    exact h.mbufs.append_right _
  case carried =>
    show (payloads (e'.transmitted ++ packets.take sent)).Sublist _
    rw [h.number_append, hfilled.transmitted, payloads, List.flatMap_append]
    refine h.carried.append (List.Sublist.trans ?_ hfilled.carried)
    exact (List.take_sublist sent packets).flatMap _
  case frames =>
    intro p hp
    change p ∈ e'.transmitted ++ packets.take sent at hp
    rw [hfilled.transmitted] at hp
    rw [h.number_append]
    obtain hp | hp := List.mem_append.1 hp
    · obtain ⟨hframe, hlength, hin⟩ := h.frames p hp
      exact ⟨hframe, hlength, hin.trans (List.prefix_append _ _).isInfix⟩
    · obtain ⟨hframe, hlength, hin⟩ := hfilled.packets p (List.mem_of_mem_take hp)
      exact ⟨hframe, hlength, hin.trans (List.suffix_append _ _).isInfix⟩

theorem Kept.calls (h : Kept c given e) {calls : List (Call T)}
    (hfits : ∀ call ∈ calls, call.Fits c) :
    Kept c (given ++ calls.flatMap Call.objects) (calls.foldl (send c) e) := by
  induction calls generalizing given e with
  | nil => simpa using h
  | cons call calls ih =>
    obtain ⟨e', new, sent, he, hfilled, -⟩ := send_spec e (hfits call List.mem_cons_self)
    have hkept := h.burst hfilled sent
    rw [← he] at hkept
    have hrest := ih hkept fun call' hmem => hfits call' (List.mem_cons_of_mem _ hmem)
    rw [List.append_assoc] at hrest
    exact hrest

theorem Kept.all_carried (h : Kept c given e) (hall : payloads e.transmitted = number 0 given)
    {calls : List (Call T)}
    (hfits : ∀ call ∈ calls, call.Fits c) (hserved : ∀ call ∈ calls, call.Served) :
    payloads (calls.foldl (send c) e).transmitted =
    number 0 (given ++ calls.flatMap Call.objects) := by
  induction calls generalizing given e with
  | nil => simpa using hall
  | cons call calls ih =>
    obtain ⟨e', new, sent, he, hfilled, hcarried⟩ := send_spec e (hfits call List.mem_cons_self)
    obtain ⟨hnew, hcount⟩ := hcarried (hserved call List.mem_cons_self)
    have hkept := h.burst hfilled sent
    have hnow : payloads (e'.burst new sent).transmitted = number 0 (given ++ call.objects) := by
      show payloads (e'.transmitted ++ new.take sent) = _
      rw [h.number_append, List.take_of_length_le hcount, hfilled.transmitted, ← hall, ← hnew]
      exact List.flatMap_append
    rw [← he] at hkept hnow
    have hrest := ih hkept hnow (fun call' hmem => hfits call' (List.mem_cons_of_mem _ hmem))
      fun call' hmem => hserved call' (List.mem_cons_of_mem _ hmem)
    rw [List.append_assoc] at hrest
    exact hrest

/-- **No mbuf is lost and no object changes its number.** Whatever DPDK answers in a run of calls,
each mbuf allocated is freed or handed to the port, exactly one of the two and once; the frames
handed over pass the receivers' tests, each carries consecutive objects as numbered over all calls,
and together they carry them in order. They carry all objects if nothing is refused. The numbers
count on over the objects that are left out. -/
theorem run_emits (c : Config) (calls : List (Call T)) (hfits : ∀ call ∈ calls, call.Fits c) :
    let e := calls.foldl (send c) new
    let sent := number 0 (calls.flatMap Call.objects)
    e.sequenceId = UInt32.ofNat sent.length ∧
      (e.freed ++ e.transmitted.map Prod.fst).Perm (List.range e.allocated) ∧
      (∀ p ∈ e.transmitted, inspect c p.2 = .processed ∧ p.2.payload <:+: sent) ∧
      (e.transmitted.flatMap fun p => p.2.payload).Sublist sent ∧
      ((∀ call ∈ calls, call.Served) → (e.transmitted.flatMap fun p => p.2.payload) = sent) := by
  intro e sent
  have hkept : Kept c (calls.flatMap Call.objects) e := kept_new.calls hfits
  refine ⟨?_, hkept.mbufs, fun p hp => ?_, hkept.carried,
    fun hserved => kept_new.all_carried rfl hfits hserved⟩
  · rw [length_number]
    exact hkept.sequenceId
  · obtain ⟨hframe, -, hin⟩ := hkept.frames p hp
    rw [hframe]
    exact ⟨inspect_fillHeaders _, hin⟩

/-- The port takes nothing of the first call, there is no mbuf for the first packet of the second
one, and the port takes one packet of two of the third one. -/
theorem run_emits_refused :
    let u := Sequencer.bookUpdate 7
    let calls : List (Call OrderBookUpdate) :=
      [.one u true 0, .batch [u, u, u] [false] 9, .batch [u, u, u] [] 1]
    let e := calls.foldl (send Receiver.pairsConfig) new
    (e.sequenceId, e.freed, e.transmitted.map Prod.fst) = (7, [3, 0], [1, 2]) ∧
      (e.transmitted.flatMap fun p => p.2.payload).map HasSequenceId.sequenceId = [3, 4, 5] ∧
      (e.freed ++ e.transmitted.map Prod.fst).Perm (List.range e.allocated) ∧
      (e.transmitted.flatMap fun p => p.2.payload).Sublist
        (number 0 (calls.flatMap Call.objects)) := by
  intro u calls e
  have hfits : ∀ call ∈ calls, call.Fits Receiver.pairsConfig := by
    simp [calls, Call.Fits, Receiver.pairsConfig]
  obtain ⟨-, hmbufs, -, hsub, -⟩ := run_emits Receiver.pairsConfig calls hfits
  exact ⟨by decide, by decide, hmbufs, hsub⟩

end Emitter

end Naoto.UdpMulticast
