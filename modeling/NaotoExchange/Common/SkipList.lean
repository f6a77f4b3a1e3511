import NaotoExchange.Lib.FixedWidth
import NaotoExchange.Common.Conf
import NaotoExchange.Common.StoragePool

/-!
# The skip list

`skip_list.hpp`. The nodes live in a pool; `forward i` is the node's pointer at level `i`. The
two sentinels are pool nodes as well, with the extreme keys of the key type. `K` is bounded: `⊥`
and `⊤` are its numeric limits.

A node's height comes from a generator seeded with the time stamp counter; `addNodeAt` is the
insertion with the height given, which `addNode` draws with `nextLevel`.
-/

namespace Naoto

/-- The `Compare` template argument: `std::less` or `std::greater`. -/
inductive Compare where
  | less
  | greater
  deriving DecidableEq, Repr

section
variable {K : Type} [LinearOrder K] [BoundedOrder K]

/-- `a` comes before `b`. -/
def Compare.comp : Compare → K → K → Bool
  | .less, a, b => decide (a < b)
  | .greater, a, b => decide (b < a)

/-- The key of the head sentinel. -/
def Compare.headKey : Compare → K
  | .less => ⊥
  | .greater => ⊤

/-- The key of the tail sentinel. -/
def Compare.tailKey : Compare → K
  | .less => ⊤
  | .greater => ⊥

end

/-- A node with its successors, level by level. The sentinels have no value. -/
structure SkipNode (K V : Type) where
  key : K
  value : Option V
  height : Nat
  forward : Nat → Option Nat

/-- The two sentinels, the pool and the state of the generator. -/
structure SkipList (K V : Type) (PoolSize MaxLevel : Nat) where
  head : Nat
  tail : Nat
  nodesPool : SingleThreadedStoragePool (SkipNode K V) PoolSize
  state : UInt64
  curMax : Nat

namespace SkipList

/-- The generator's next state; `t` is the 128-bit product. -/
def nextU64 (state : UInt64) : UInt64 :=
  let newState := state + 0xa0761d6478bd642f
  let t := newState.toNat * (newState ^^^ 0xe7037ed1a0b428db).toNat
  UInt64.ofNat (t / 2 ^ 64) ^^^ UInt64.ofNat t

/-- `__builtin_ctzll`. -/
def ctz (x : UInt64) : Nat := ((List.range 64).find? fun i => x.toNat.testBit i).getD 64

variable {K V : Type} {PoolSize MaxLevel : Nat}

/-- A pointer's node. -/
def node (sl : SkipList K V PoolSize MaxLevel) (x : Nat) : SkipNode K V := sl.nodesPool.storage x

/-- The list with another generator state. -/
def setState (sl : SkipList K V PoolSize MaxLevel) (st : UInt64) : SkipList K V PoolSize MaxLevel :=
  { sl with state := st }

/-- The height of the next node. -/
def nextLevel (sl : SkipList K V PoolSize MaxLevel) : Nat × SkipList K V PoolSize MaxLevel :=
  let state := nextU64 sl.state
  (min (ctz state) MaxLevel, sl.setState state)

section
variable [LinearOrder K] [BoundedOrder K]

/-- The constructor: the tail sentinel is acquired first, then the head sentinel, whose pointers
all lead to it. The pool has room for both. -/
def new (c : Compare) (seed : UInt64) : SkipList K V PoolSize MaxLevel :=
  let blank : SkipNode K V := ⟨⊥, none, 0, fun _ => none⟩
  let (t, p) := (SingleThreadedStoragePool.new blank).acquire
  let tail := t.getD 0
  let p := p.set tail ⟨c.tailKey, none, MaxLevel, fun _ => none⟩
  let (h, p) := p.acquire
  let head := h.getD 0
  let p := p.set head ⟨c.headKey, none, MaxLevel, fun _ => some tail⟩
  { head, tail, nodesPool := p, state := seed, curMax := 0 }

/-- The `while` loop on one level: step while the next node's key passes `go`. -/
def advance (sl : SkipList K V PoolSize MaxLevel) (go : K → Bool) (level : Nat) :
    Nat → Nat → Except Fault Nat
  | 0, _ => .error .outOfFuel
  | fuel + 1, curNode =>
    match (sl.node curNode).forward level with
    | none => .error .nullDeref
    | some next => if go (sl.node next).key then advance sl go level fuel next else .ok curNode

/-- The `for` loop over the levels `n - 1, .., 0`; `prev` records where each level stopped. -/
def descend (sl : SkipList K V PoolSize MaxLevel) (go : K → Bool) :
    Nat → Nat → (Nat → Nat) → Except Fault (Nat × (Nat → Nat))
  | 0, curNode, prev => .ok (curNode, prev)
  | level + 1, curNode, prev =>
    match advance sl go level PoolSize curNode with
    | .error e => .error e
    | .ok curNode => descend sl go level curNode (Function.update prev level curNode)

/-- The node behind the last smaller one, if it has the key. -/
def getVal (c : Compare) (sl : SkipList K V PoolSize MaxLevel) (key : K) :
    Except Fault (Option (Option V)) :=
  match descend sl (fun k => c.comp k key) (MaxLevel + 1) sl.head (fun _ => sl.head) with
  | .error e => .error e
  | .ok (curNode, _) =>
    match (sl.node curNode).forward 0 with
    | none => .error .nullDeref
    | some curNode =>
      if (sl.node curNode).key = key then .ok (some (sl.node curNode).value) else .ok none

/-- One iteration of the loop that links the new node in on the levels up to its height. -/
def linkLevel (prev : Nat → Nat) (newNode : Nat) (st : Nat → SkipNode K V) (i : Nat) :
    Nat → SkipNode K V :=
  let st := Function.update st newNode
    { st newNode with
      forward := Function.update (st newNode).forward i ((st (prev i)).forward i) }
  Function.update st (prev i)
    { st (prev i) with forward := Function.update (st (prev i)).forward i (some newNode) }

/-- One iteration of the loop that points the new node's higher levels at the tail. -/
def topLevel (tail newNode : Nat) (st : Nat → SkipNode K V) (i : Nat) : Nat → SkipNode K V :=
  Function.update st newNode
    { st newNode with forward := Function.update (st newNode).forward i (some tail) }

/-- `AddNode` behind the search, with the height drawn. -/
def insertAt (sl : SkipList K V PoolSize MaxLevel) (prev : Nat → Nat) (key : K) (val : V)
    (level : Nat) : Except Fault (SkipList K V PoolSize MaxLevel) :=
  match sl.nodesPool.acquire with
  | (none, _) => .error .terminate
  | (some newNode, p) =>
    let st := Function.update p.storage newNode
      { p.storage newNode with key, value := some val, height := level }
    let st := (List.range (level + 1)).foldl (linkLevel prev newNode) st
    let st := (List.range' (level + 1) (MaxLevel - level)).foldl (topLevel sl.tail newNode) st
    .ok { sl with nodesPool := { p with storage := st }, curMax := max sl.curMax level }

/-- `AddNode` with the level given: the search stops behind the last key not after `key`. -/
def addNodeAt (c : Compare) (sl : SkipList K V PoolSize MaxLevel) (key : K) (val : V)
    (nextLevel : SkipList K V PoolSize MaxLevel → Nat × SkipList K V PoolSize MaxLevel) :
    Except Fault (SkipList K V PoolSize MaxLevel) :=
  match descend sl (fun k => !c.comp key k) (MaxLevel + 1) sl.head (fun _ => sl.head) with
  | .error e => .error e
  | .ok (_, prev) =>
    if (sl.node (prev 0)).key = key then .ok sl
    else
      let (level, sl) := nextLevel sl
      insertAt sl prev key val level

/-- `AddNode`, with the height drawn. -/
def addNode (c : Compare) (sl : SkipList K V PoolSize MaxLevel) (key : K) (val : V) :
    Except Fault (SkipList K V PoolSize MaxLevel) :=
  addNodeAt c sl key val nextLevel

/-- One iteration of the loop that unlinks `curNode`. -/
def unlinkLevel (prev : Nat → Nat) (curNode : Nat) (st : Nat → SkipNode K V) (i : Nat) :
    Nat → SkipNode K V :=
  Function.update st (prev i)
    { st (prev i) with
      forward := Function.update (st (prev i)).forward i ((st curNode).forward i) }

/-- The node is unlinked on all its levels and released. -/
def deleteNode (c : Compare) (sl : SkipList K V PoolSize MaxLevel) (key : K) :
    Except Fault (SkipList K V PoolSize MaxLevel) :=
  match descend sl (fun k => c.comp k key) (MaxLevel + 1) sl.head (fun _ => sl.head) with
  | .error e => .error e
  | .ok (curNode, prev) =>
    match (sl.node curNode).forward 0 with
    | none => .error .nullDeref
    | some curNode =>
      if (sl.node curNode).key = key then
        let st := (List.range ((sl.node curNode).height + 1)).foldl (unlinkLevel prev curNode)
          sl.nodesPool.storage
        match { sl.nodesPool with storage := st }.release curNode with
        | (true, p) => .ok { sl with nodesPool := p }
        | (false, _) => .error .terminate
      else .ok sl

/-- The best key's value; null when the list is empty. -/
def getHead (sl : SkipList K V PoolSize MaxLevel) : Except Fault (Option V) :=
  match (sl.node sl.head).forward 0 with
  | none => .error .nullDeref
  | some x => .ok (sl.node x).value

end

end SkipList

end Naoto
