import NaotoExchange.Common.Conf

/-!
# The flat hash map

`flat_hash_map.hpp`: `16 * Size` slots in four parallel arrays, and one more group of 16 that
mirrors the first for the vector loads. `toU64` is the conversion of the key type to `uint64_t`. A
vector of 16 bytes is a function of the lane, a mask is a test of the lane, and `firstLane` is
`(mask == 0) ? 16 : __builtin_ctz(mask)`.

`AddNode` carries an entry from slot to slot: a `Cursor` is what its local variables hold. Its loops
stop with a table or go on with a cursor (`Sum`).
-/

namespace Naoto

/-- The four arrays: distance, footprint, key and value of each slot. -/
structure FlatHashMap (K V : Type) (Size : Nat) where
  footPrints : Nat → UInt8
  tags : Nat → UInt8
  keys : Nat → K
  data : Nat → V

namespace FlatHashMap

/-- The tag of an empty slot. -/
def emptyMarker : UInt8 := 0x80

/-- The lowest lane of a mask, 16 if there is none. -/
def firstLane (mask : Nat → Bool) : Nat := ((List.range 16).find? mask).getD 16

/-- `_mm_cmplt_epi8` on one lane: the bytes are signed. -/
def lessSigned (a b : UInt8) : Bool := a.toBitVec.slt b.toBitVec

/-- `_mm_add_epi8(base_seq, _mm_set1_epi8(cur_dib))` on one lane. -/
def expectedDib (curDib lane : Nat) : UInt8 := UInt8.ofNat lane + UInt8.ofNat curDib

section
variable {K V : Type} {Size : Nat} [DecidableEq K] [Inhabited K] [Inhabited V] (toU64 : K → UInt64)

/-- Fibonacci hashing. -/
def hash64 (key : K) : UInt64 := toU64 key * 0x9E3779B97F4A7C15

/-- The byte of the hash that a group of slots is searched for. -/
def footprint (key : K) : UInt8 := (hash64 toU64 key >>> 56).toUInt8

/-- `Size << 4`. -/
def totalSize (Size : Nat) : Nat := Size <<< 4

/-- An index back into the table. -/
def wrap (Size idx : Nat) : Nat := idx &&& (totalSize Size - 1)

/-- The first slot of a key's bucket. -/
def home (Size : Nat) (key : K) : Nat := ((hash64 toU64 key).toNat &&& (Size - 1)) <<< 4

/-- All slots are empty. -/
def new : FlatHashMap K V Size where
  footPrints := fun _ => 0
  tags := fun _ => emptyMarker
  keys := fun _ => default
  data := fun _ => default

/-! ## Writing a slot -/

/-- One index of the four arrays. A distance is cut to a byte. -/
def write (m : FlatHashMap K V Size) (idx dib : Nat) (key : K) (val : V) :
    FlatHashMap K V Size where
  footPrints := Function.update m.footPrints idx (footprint toU64 key)
  tags := Function.update m.tags idx (UInt8.ofNat dib)
  keys := Function.update m.keys idx key
  data := Function.update m.data idx val

/-- The first 16 slots have a copy behind the last one, so that a group can be loaded there. -/
def paddingSafeWrite (m : FlatHashMap K V Size) (idx dib : Nat) (key : K) (val : V) :
    FlatHashMap K V Size :=
  let m := m.write toU64 idx dib key val
  if idx < 16 then m.write toU64 (Size * 16 + idx) dib key val else m

/-! ## Lookup -/

/-- The lanes of a group whose distance and footprint match, in order. -/
def matchLanes (m : FlatHashMap K V Size) (key : K) (curIdx curDib : Nat) : List Nat :=
  (List.range 16).filter fun i =>
    m.tags (curIdx + i) == expectedDib curDib i && m.footPrints (curIdx + i) == footprint toU64 key

/-- A lane where a search ends: free, or taken by an entry nearer to home. -/
def isStop (m : FlatHashMap K V Size) (curIdx curDib i : Nat) : Bool :=
  m.tags (curIdx + i) == emptyMarker || lessSigned (m.tags (curIdx + i)) (expectedDib curDib i)

/-- The loop over the matches of a group: `some` if the search ends here. -/
def checkMatches (m : FlatHashMap K V Size) (key : K) (curIdx firstStop : Nat) :
    List Nat → Option (Option V)
  | [] => none
  | firstMatch :: rest =>
    if firstMatch < firstStop then
      let i := wrap Size (curIdx + firstMatch)
      if m.footPrints i == footprint toU64 key && m.keys i == key then some (some (m.data i))
      else checkMatches m key curIdx firstStop rest
    else some none

/-- The groups of a search; `fuel` is how many are left of the table. -/
def getLoop (m : FlatHashMap K V Size) (key : K) : Nat → Nat → Nat → Option V
  | 0, _, _ => none
  | fuel + 1, curIdx, curDib =>
    let firstStop := firstLane (m.isStop curIdx curDib)
    match checkMatches toU64 m key curIdx firstStop (m.matchLanes toU64 key curIdx curDib) with
    | some r => r
    | none =>
      if firstStop < 16 then none
      else getLoop m key fuel (wrap Size (curIdx + 16)) (curDib + 16)

/-- The groups from the home bucket on, one after the other. -/
def getVal (m : FlatHashMap K V Size) (key : K) : Option V :=
  getLoop toU64 m key Size (home toU64 Size key) 0

/-! ## Insertion -/

/-- The local variables of `AddNode`: the table, and the entry it carries over slot `idx`. -/
structure Cursor (K V : Type) (Size : Nat) where
  map : FlatHashMap K V Size
  idx : Nat
  dib : Nat
  key : K
  val : V

/-- `PaddingSafeWrite` of the carried entry at slot `idx`, at the distance `dib`. -/
def Cursor.place (c : Cursor K V Size) (idx dib : Nat) : FlatHashMap K V Size :=
  c.map.paddingSafeWrite toU64 idx dib c.key c.val

/-- `PaddingSafeSwap` at slot `idx`, where the carried entry has the distance `dib`. -/
def Cursor.swap (c : Cursor K V Size) (idx dib : Nat) : Cursor K V Size where
  map := c.place toU64 idx dib
  idx := idx
  dib := (c.map.tags idx).toNat
  key := c.map.keys idx
  val := c.map.data idx

/-- The cursor on another slot, its entry `n` farther from home. -/
def Cursor.advance (c : Cursor K V Size) (idx n : Nat) : Cursor K V Size :=
  { c with idx := idx, dib := c.dib + n }

/-- One slot of the slot-by-slot loops: written if it is free, swapped if its entry is nearer to
home. -/
def Cursor.slot (c : Cursor K V Size) : FlatHashMap K V Size ⊕ Cursor K V Size :=
  if c.map.tags c.idx = emptyMarker then .inl (c.place toU64 c.idx c.dib)
  else if (c.map.tags c.idx).toNat < c.dib then .inr (c.swap toU64 c.idx c.dib)
  else .inr c

/-- The first loop: the slots of the home bucket. -/
def homeLoop : Nat → Cursor K V Size → Except Fault (FlatHashMap K V Size ⊕ Cursor K V Size)
  | 0, _ => .error .outOfFuel
  | fuel + 1, c =>
    if c.dib < 16 then
      match c.slot toU64 with
      | .inl m => .ok (.inl m)
      | .inr c => homeLoop fuel (c.advance (c.idx + 1) 1)
    else .ok (.inr c)

/-- The loop to the next group. -/
def alignLoop : Nat → Cursor K V Size → Except Fault (FlatHashMap K V Size ⊕ Cursor K V Size)
  | 0, _ => .error .outOfFuel
  | fuel + 1, c =>
    if c.idx &&& 15 ≠ 0 then
      match c.slot toU64 with
      | .inl m => .ok (.inl m)
      | .inr c => alignLoop fuel (c.advance (wrap Size (c.idx + 1)) 1)
    else .ok (.inr c)

/-- The first free lane of the cursor's group. -/
def Cursor.firstFree (c : Cursor K V Size) : Nat :=
  firstLane fun i => c.map.tags (c.idx + i) == emptyMarker

/-- The first lane that is free or taken by an entry nearer to home. -/
def Cursor.firstAvailable (c : Cursor K V Size) : Nat :=
  firstLane (c.map.isStop c.idx c.dib)

/-- The branch that leaves a group although its first slot is taken by an entry nearer to home. -/
def Cursor.skips (c : Cursor K V Size) : Bool :=
  c.firstAvailable == 0 && c.firstFree != 0

/-- The vector part of the second loop: one group. -/
def Cursor.group (c : Cursor K V Size) : FlatHashMap K V Size ⊕ Cursor K V Size :=
  let lane := c.firstAvailable
  if lane = 16 then .inr (c.advance (wrap Size (c.idx + 16)) 16)
  else
    let slotIdx := wrap Size (c.idx + lane)
    if c.firstFree = lane then .inl (c.place toU64 slotIdx (c.dib + lane))
    else if lane ≠ 0 then
      let c := c.swap toU64 slotIdx (c.dib + lane)
      .inr (c.advance (wrap Size (c.idx + 1)) 1)
    else .inr (c.advance (wrap Size (c.idx + 16)) 16)

/-- The second loop; at its end there was no slot and the carried entry is dropped. -/
def groupLoop : Nat → Cursor K V Size → Except Fault (FlatHashMap K V Size)
  | 0, _ => .error .outOfFuel
  | fuel + 1, c =>
    if c.dib < totalSize Size then
      match alignLoop toU64 16 c with
      | .error e => .error e
      | .ok (.inl m) => .ok m
      | .ok (.inr c) =>
        match c.group toU64 with
        | .inl m => .ok m
        | .inr c => groupLoop fuel c
    else .ok c.map

/-- The cursor over a key's home slot. -/
def start (m : FlatHashMap K V Size) (key : K) (val : V) : Cursor K V Size :=
  ⟨m, home toU64 Size key, 0, key, val⟩

/-- Robin Hood insertion: it takes the slot of the first entry that is nearer to its home, and goes
on with that entry. -/
def addNode (m : FlatHashMap K V Size) (key : K) (val : V) : Except Fault (FlatHashMap K V Size) :=
  match m.getVal toU64 key with
  | some _ => .ok m
  | none =>
    match homeLoop toU64 (totalSize Size + 1) (m.start toU64 key val) with
    | .error e => .error e
    | .ok (.inl m) => .ok m
    | .ok (.inr c) => groupLoop toU64 (totalSize Size + 1) c

/-- The cursors with which the second loop reads a group. -/
def groupArrivals : Nat → Cursor K V Size → List (Cursor K V Size)
  | 0, _ => []
  | fuel + 1, c =>
    if c.dib < totalSize Size then
      match alignLoop toU64 16 c with
      | .error _ => []
      | .ok (.inl _) => []
      | .ok (.inr c) =>
        c :: match c.group toU64 with
          | .inl _ => []
          | .inr c => groupArrivals fuel c
    else []

/-- The cursors with which `AddNode` reads a group. Homes and groups are multiples of 16 slots, so
that the distance of a carried entry passes a multiple of 16 only where it arrives at a group. -/
def addArrivals (m : FlatHashMap K V Size) (key : K) (val : V) : List (Cursor K V Size) :=
  match m.getVal toU64 key with
  | some _ => []
  | none =>
    match homeLoop toU64 (totalSize Size + 1) (m.start toU64 key val) with
    | .ok (.inr c) => groupArrivals toU64 (totalSize Size + 1) c
    | _ => []

/-! ## Deletion -/

/-- The search of `DeleteNode`, slot by slot; `fuel` is how many are left of the table. -/
def findLoop (m : FlatHashMap K V Size) (key : K) : Nat → Nat → Nat → Option Nat
  | 0, _, _ => none
  | fuel + 1, curIdx, curDib =>
    if m.tags curIdx = emptyMarker ∨ (m.tags curIdx).toNat < curDib then none
    else if m.footPrints curIdx == footprint toU64 key && m.keys curIdx == key then some curIdx
    else findLoop m key fuel (wrap Size (curIdx + 1)) (curDib + 1)

/-- The entries behind the hole move up until one is at home or a slot is free. -/
def shiftLoop : Nat → FlatHashMap K V Size → Nat → Except Fault (FlatHashMap K V Size)
  | 0, _, _ => .error .outOfFuel
  | fuel + 1, m, curIdx =>
    let nextIdx := wrap Size (curIdx + 1)
    let nextTag := m.tags nextIdx
    if nextTag = emptyMarker ∨ nextTag = 0 then
      .ok (m.paddingSafeWrite toU64 curIdx emptyMarker.toNat default default)
    else
      shiftLoop fuel (m.paddingSafeWrite toU64 curIdx (nextTag.toNat - 1) (m.keys nextIdx)
        (m.data nextIdx)) nextIdx

/-- The entries behind the key move back by one slot. -/
def deleteNode (m : FlatHashMap K V Size) (key : K) : Except Fault (FlatHashMap K V Size) :=
  match findLoop toU64 m key (totalSize Size) (home toU64 Size key) 0 with
  | none => .ok m
  | some curIdx => shiftLoop toU64 (totalSize Size + 1) m curIdx

end

end FlatHashMap

end Naoto
