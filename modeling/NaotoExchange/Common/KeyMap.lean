import NaotoExchange.Lib.FiniteMap
import NaotoExchange.Common.FlatHashMap

/-!
# Maps from keys to pointers

What the book asks of its hash maps. The source has one implementation, `FlatHashMap`; the
contract that it is written for is `FiniteMap`. Code that is written against `KeyMap` runs on both.
-/

namespace Naoto

/-- The interface of `FlatHashMap`. A call may fault where a loop of the source does not end. -/
class KeyMap (M : Type) (K V : outParam Type) where
  empty : M
  getVal : M → K → Option V
  addNode : M → K → V → Except Fault M
  deleteNode : M → K → Except Fault M

/-- The contract: insertion leaves a present key alone, and no call faults. -/
instance {K V : Type} [DecidableEq K] : KeyMap (FiniteMap K V) K V where
  empty := FiniteMap.empty
  getVal := FiniteMap.getVal
  addNode := fun m k v => .ok (m.addNode k v)
  deleteNode := fun m k => .ok (m.deleteNode k)

namespace KeyMap

variable {K V : Type} [DecidableEq K] (m : FiniteMap K V) (k : K)

@[simp] theorem getVal_finite : KeyMap.getVal m k = m.getVal k := rfl

@[simp] theorem addNode_finite (v : V) : KeyMap.addNode m k v = .ok (m.addNode k v) := rfl

@[simp] theorem deleteNode_finite : KeyMap.deleteNode m k = .ok (m.deleteNode k) := rfl

end KeyMap

/-- The conversion of a key type to `uint64_t`, which `hash_64` multiplies. -/
class HashKey (K : Type) where
  toU64 : K → UInt64

instance : HashKey UInt32 := ⟨UInt32.toUInt64⟩

instance : HashKey UInt64 := ⟨id⟩

instance : HashKey Int64 := ⟨Int64.toUInt64⟩

/-- The hash map of the source. -/
instance {K V : Type} {Size : Nat} [HashKey K] [DecidableEq K] [Inhabited K] [Inhabited V] :
    KeyMap (FlatHashMap K V Size) K V where
  empty := FlatHashMap.new
  getVal := fun m k => m.getVal HashKey.toU64 k
  addNode := fun m k v => m.addNode HashKey.toU64 k v
  deleteNode := fun m k => m.deleteNode HashKey.toU64 k

end Naoto
