import NaotoExchange.Common.SequenceRingBuffer

/-!
# Multicast of numbered objects

`udp_multicast_emitter.hpp` numbers the objects of a batch and packs them into frames;
`udp_multicast_receiver.hpp` copies the objects of each frame into objects of a pool, puts them into
the ring and pushes what is next in order to a queue. Here are both, with the frames as values.

The receiver is a step function. The consumer of the queue is another thread, which may give an
object back between any two turns of the receiver's loops.
-/

namespace Naoto.UdpMulticast

open RingIndex

/-- `sizeof(rte_ether_hdr) + sizeof(rte_ipv4_hdr) + sizeof(rte_udp_hdr)`. -/
def headerSize : Nat := 14 + 20 + 8

/-- `MTU`. -/
def mtu : Nat := 1500

def etherTypeIpv4 : UInt16 := 0x0800
def ipprotoUdp : UInt8 := 17

/-- The template parameters and constants of an emitter and the receivers of its address. -/
structure Config where
  /-- `sizeof(T)`. -/
  objectSize : Nat
  batchSize : Nat
  /-- `RingBufferSize`. -/
  ring : Capacity
  poolSize : Nat
  dstIp : UInt32
  dstPort : UInt16
  /-- The `static_assert` on `ObjectsPerPacket`. -/
  fits : 0 < (mtu - 20 - 8) / objectSize

namespace Config

/-- How many objects fit behind the headers. -/
def objectsPerPacket (c : Config) : Nat := (mtu - 20 - 8) / c.objectSize

/-- How many packets a full batch needs. -/
def maxPackets (c : Config) : Nat :=
  c.batchSize / c.objectsPerPacket + if c.batchSize % c.objectsPerPacket = 0 then 0 else 1

end Config

/-- The ring of a small receiver. -/
def fourSlots : Capacity := .ofPow 2 (by decide)

/-- What the receiver looks at in an mbuf. -/
structure Frame (T : Type) where
  nbSegs : Nat
  ipCksumBad : Bool
  l4CksumBad : Bool
  dataLen : Nat
  etherType : UInt16
  nextProtoId : UInt8
  dstAddr : UInt32
  dstPort : UInt16
  /-- What the turns of the loop over the payload copy. -/
  payload : List T
  deriving DecidableEq

variable {T : Type} [HasSequenceId T]

/-! ## The emitter -/

/-- `SequenceId++` for each object. -/
def number (seqId : UInt32) : List T → List T
  | [] => []
  | t :: ts => setSequenceId seqId t :: number (seqId + 1) ts

variable (c : Config)

/-- A frame of the emitter. -/
def fillHeaders (items : List T) : Frame T where
  nbSegs := 1
  ipCksumBad := false
  l4CksumBad := false
  dataLen := headerSize + c.objectSize * items.length
  etherType := etherTypeIpv4
  nextProtoId := ipprotoUdp
  dstAddr := c.dstIp
  dstPort := c.dstPort
  payload := items

/-- The loop of `Send`: so many packets left, the next number, the objects left. -/
def sendLoop : Nat → UInt32 → List T → List (Frame T) × UInt32
  | 0, seqId, _ => ([], seqId)
  | _ + 1, seqId, [] => ([], seqId)
  | left + 1, seqId, t :: ts =>
    let curStep := min c.objectsPerPacket (t :: ts).length
    let rest := sendLoop left (seqId + UInt32.ofNat curStep) ((t :: ts).drop curStep)
    (fillHeaders c (number seqId ((t :: ts).take curStep)) :: rest.1, rest.2)

/-- `Send` of a batch, every allocation and the burst succeeding. -/
def send (seqId : UInt32) (batch : List T) : List (Frame T) × UInt32 :=
  sendLoop c c.maxPackets seqId batch

/-- The frames of one batch after the other. -/
def sendAll : UInt32 → List (List T) → List (Frame T)
  | _, [] => []
  | seqId, batch :: batches => (send c seqId batch).1 ++ sendAll (send c seqId batch).2 batches

/-! ## The receiver -/

/-- What becomes of a frame. -/
inductive Verdict where
  | freed
  /-- `continue`, with nothing done. -/
  | skipped
  | processed
  deriving DecidableEq

/-- The tests that a frame goes through. -/
def inspect (f : Frame T) : Verdict :=
  if 1 < f.nbSegs ∨ f.ipCksumBad ∨ f.l4CksumBad then .freed
  else if f.dataLen < headerSize then .freed
  else if f.etherType ≠ etherTypeIpv4 then .freed
  else if f.nextProtoId ≠ ipprotoUdp then .freed
  else if f.dstAddr ≠ c.dstIp then .freed
  else if f.dstPort ≠ c.dstPort then .skipped
  else .processed

/-- Where `Receive` is; mbufs are numbered as they come. -/
inductive Pc (T : Type) where
  | polling
  | copying (mbuf : Nat) (rest : List T)
  | draining (mbuf : Nat)

/-- The packet that the receiver has in its hands. -/
def Pc.mbuf : Pc T → Option Nat
  | .polling => none
  | .copying mbuf _ => some mbuf
  | .draining mbuf => some mbuf

/-- The receiving thread, the pool and its consumer. -/
structure Receiver (T : Type) where
  pc : Pc T
  sequencer : Sequencer T
  /-- The free queue of the pool, and its `LocalReuseBuffer`, the last one first. -/
  free : List Nat
  localReuse : List Nat
  /-- Pushed to `Outgoing` and not yet released. -/
  handedOut : List Nat
  /-- How many mbufs `rte_eth_rx_burst` has returned, and those freed. -/
  received : Nat
  freed : List Nat
  /-- The objects copied so far. -/
  arrived : List T

namespace Receiver

variable {c}

/-- All objects are free, and the receiver polls. -/
def start (c : Config) (memory : Nat → T) : Receiver T where
  pc := .polling
  sequencer := ⟨memory, .new, 0⟩
  free := List.range c.poolSize
  localReuse := []
  handedOut := []
  received := 0
  freed := []
  arrived := []

/-- The owner's own buffer first, then the free queue. -/
def acquire (r : Receiver T) : Option (Nat × Receiver T) :=
  match r.localReuse, r.free with
  | p :: rest, _ => some (p, { r with localReuse := rest })
  | [], p :: rest => some (p, { r with free := rest })
  | [], [] => none

variable (c)

/-- `LocalReuseBuffer` after `LocalRelease`. -/
def released (localReuse : List Nat) (p : Nat) : List Nat :=
  if localReuse.length < c.poolSize then p :: localReuse else localReuse

/-- The object goes to the owner's own buffer. -/
def localRelease (r : Receiver T) (p : Nat) : Receiver T :=
  { r with localReuse := released c r.localReuse p }

/-- `memcpy`, `AddSlot`, and `LocalRelease` if it refuses. -/
def store (r : Receiver T) (p : Nat) (object : T) : Receiver T :=
  let added := r.sequencer.arrive c.ring p object
  let r := { r with sequencer := added.2, arrived := object :: r.arrived }
  if added.1 then r else r.localRelease c p

/-- The next mbuf of the burst. -/
def poll (r : Receiver T) (f : Frame T) : Receiver T :=
  let r' := { r with received := r.received + 1 }
  match inspect c f with
  | .freed => { r' with freed := r.received :: r.freed }
  | .skipped => r'
  | .processed => { r' with pc := .copying r.received f.payload }

/-- One turn of the loop that empties the ring, `Outgoing` having room or not. With it the object
that is pushed. -/
def drain (r : Receiver T) (mbuf : Nat) (room : Bool) : Receiver T × Option T :=
  match r.sequencer.read c.ring with
  | (some p, sequencer) =>
    let r' := { r with sequencer := sequencer }
    if room then ({ r' with handedOut := p :: r.handedOut }, some (r.sequencer.memory p))
    else (r'.localRelease c p, none)
  | (none, _) => ({ r with pc := .polling, freed := mbuf :: r.freed }, none)

/-- A step of the network, of the receiver or of the consumer. -/
inductive Action (T : Type) where
  | poll (f : Frame T)
  /-- The receiver goes on, `Outgoing` having room for a push or not. -/
  | turn (room : Bool)
  /-- The consumer releases an object. -/
  | release (p : Nat)

/-- One step; with it the object pushed, if any. An action that is not possible is an error. -/
def step (r : Receiver T) : Action T → Except Unit (Receiver T × Option T)
  | .poll f =>
    match r.pc with
    | .polling => .ok (r.poll c f, none)
    | _ => .error ()
  | .turn room =>
    match r.pc with
    | .polling => .error ()
    | .copying mbuf (object :: rest) =>
      match r.acquire with
      | some (p, r') => .ok ({ r'.store c p object with pc := .copying mbuf rest }, none)
      | none => .ok ({ r with pc := .copying mbuf rest }, none)
    | .copying mbuf [] => .ok ({ r with pc := .draining mbuf }, none)
    | .draining mbuf => .ok (r.drain c mbuf room)
  | .release p =>
    if p ∈ r.handedOut then .ok
      ({ r with handedOut := r.handedOut.erase p, free := r.free ++ [p] }, none)
    else .error ()

/-- The actions of a frame that is processed to its end, so many objects being pushed. -/
def receiving (f : Frame T) (pushes : Nat) : List (Action T) :=
  .poll f :: List.replicate (f.payload.length + 1 + pushes + 1) (.turn true)

/-- What a step can do. -/
inductive Stepped (r : Receiver T) : Action T → Receiver T → Option T → Prop
  | dropped {f : Frame T} : r.pc = .polling → inspect c f = .freed →
      Stepped r (.poll f) { r with received := r.received + 1, freed := r.received :: r.freed } none
  | skipped {f : Frame T} : r.pc = .polling → inspect c f = .skipped →
      Stepped r (.poll f) { r with received := r.received + 1 } none
  | processed {f : Frame T} : r.pc = .polling → inspect c f = .processed →
      Stepped r (.poll f) { r with received := r.received + 1, pc := .copying r.received f.payload }
        none
  | missed {room : Bool} {mbuf : Nat} {object : T} {rest : List T} :
      r.pc = .copying mbuf (object :: rest) → r.acquire = none →
      Stepped r (.turn room) { r with pc := .copying mbuf rest } none
  | accepted {room : Bool} {mbuf p : Nat} {object : T} {rest : List T}
      {free localReuse : List Nat} : r.pc = .copying mbuf (object :: rest) → r.acquire ≠ none →
      (r.free ++ r.localReuse).Perm (p :: (free ++ localReuse)) →
      ¬r.sequencer.ring.Stale c.ring (sequenceId object) →
      Stepped r (.turn room) { r with
        pc := .copying mbuf rest
        sequencer := { r.sequencer.copied p object with
          ring := r.sequencer.ring.put c.ring (sequenceId object) p }
        free := free
        localReuse := localReuse
        arrived := object :: r.arrived } none
  | refused {room : Bool} {mbuf p : Nat} {object : T} {rest : List T} {free localReuse : List Nat} :
      r.pc = .copying mbuf (object :: rest) → r.acquire ≠ none →
      (r.free ++ r.localReuse).Perm (p :: (free ++ localReuse)) →
      r.sequencer.ring.Stale c.ring (sequenceId object) →
      Stepped r (.turn room) { r with
        pc := .copying mbuf rest
        sequencer := r.sequencer.copied p object
        free := free
        localReuse := released c localReuse p
        arrived := object :: r.arrived } none
  | copied {room : Bool} {mbuf : Nat} : r.pc = .copying mbuf [] →
      Stepped r (.turn room) { r with pc := .draining mbuf } none
  | pushed {mbuf p : Nat} : r.pc = .draining mbuf →
      r.sequencer.ring.getSlot c.ring r.sequencer.memory r.sequencer.nextToRead = some p →
      Stepped r (.turn true) { r with
        sequencer := { r.sequencer with nextToRead := r.sequencer.nextToRead + 1 }
        handedOut := p :: r.handedOut } (some (r.sequencer.memory p))
  | pushFailed {mbuf p : Nat} : r.pc = .draining mbuf →
      r.sequencer.ring.getSlot c.ring r.sequencer.memory r.sequencer.nextToRead = some p →
      Stepped r (.turn false) { r with
        sequencer := { r.sequencer with nextToRead := r.sequencer.nextToRead + 1 }
        localReuse := released c r.localReuse p } none
  | drained {room : Bool} {mbuf : Nat} : r.pc = .draining mbuf →
      r.sequencer.ring.getSlot c.ring r.sequencer.memory r.sequencer.nextToRead = none →
      Stepped r (.turn room) { r with pc := .polling, freed := mbuf :: r.freed } none
  | gaveBack {p : Nat} : p ∈ r.handedOut →
      Stepped r (.release p) { r with handedOut := r.handedOut.erase p, free := r.free ++ [p] } none

variable {c} {r r' : Receiver T} {p : Nat} {a : Action T} {out : Option T}

omit [HasSequenceId T] in
theorem acquire_eq (h : r.acquire = some (p, r')) : ∃ free localReuse,
    r' = { r with free := free, localReuse := localReuse } ∧
      (r.free ++ r.localReuse).Perm (p :: (free ++ localReuse)) := by
  unfold acquire at h
  split at h
  · next q rest heq =>
    cases h
    exact ⟨r.free, rest, rfl, by rw [heq]; exact List.perm_middle⟩
  · next q rest heq hfree =>
    cases h
    exact ⟨rest, [], by rw [heq], by rw [heq, hfree]; exact .refl _⟩
  · cases h

theorem stepped_copy {mbuf : Nat} {object : T} {rest : List T} {room : Bool}
    (hpc : r.pc = .copying mbuf (object :: rest)) (h : r.acquire = some (p, r')) :
    Stepped c r (.turn room) { r'.store c p object with pc := .copying mbuf rest } none := by
  have hsome : r.acquire ≠ none := by rw [h]; exact Option.some_ne_none _
  obtain ⟨free, localReuse, rfl, hperm⟩ := acquire_eq h
  by_cases hstale : r.sequencer.ring.Stale c.ring (sequenceId object)
  · simp only [store, Sequencer.arrive_of_stale hstale]
    exact .refused hpc hsome hperm hstale
  · simp only [store, Sequencer.arrive_of_not_stale hstale]
    exact .accepted hpc hsome hperm hstale

theorem stepped_drain {mbuf : Nat} {room : Bool} (hpc : r.pc = .draining mbuf) :
    Stepped c r (.turn room) (r.drain c mbuf room).1 (r.drain c mbuf room).2 := by
  cases hslot : r.sequencer.ring.getSlot c.ring r.sequencer.memory r.sequencer.nextToRead with
  | none =>
    simp only [drain, Sequencer.read_of_none hslot]
    exact .drained hpc hslot
  | some p =>
    simp only [drain, Sequencer.read_of_some hslot]
    cases room with
    | true => exact .pushed hpc hslot
    | false => exact .pushFailed hpc hslot

theorem stepped_of_step (h : r.step c a = .ok (r', out)) : Stepped c r a r' out := by
  cases a with
  | poll f =>
    simp only [step] at h
    split at h
    · next hpc =>
      cases h
      unfold poll
      split
      · next hf => exact .dropped hpc hf
      · next hf => exact .skipped hpc hf
      · next hf => exact .processed hpc hf
    · cases h
  | turn room =>
    simp only [step] at h
    split at h
    · cases h
    · next mbuf object rest hpc =>
      split at h
      · next p r₁ hacq =>
        cases h
        exact stepped_copy hpc hacq
      · next hacq =>
        cases h
        exact .missed hpc hacq
    · next mbuf hpc =>
      cases h
      exact .copied hpc
    · next mbuf hpc =>
      have hturn : Stepped c r (.turn room) (r.drain c mbuf room).1 (r.drain c mbuf room).2 :=
        stepped_drain hpc
      rw [Except.ok.inj h] at hturn
      exact hturn
  | release p =>
    simp only [step] at h
    split at h
    · next hp =>
      cases h
      exact .gaveBack hp
    · cases h

end Receiver

end Naoto.UdpMulticast
