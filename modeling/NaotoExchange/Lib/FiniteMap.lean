import Mathlib

/-!
# Finite maps with first-insert-wins insertion

The contract of an open-addressing table whose insertion leaves a present key alone: a partial
function, `addNode` that only writes an absent key, `deleteNode` that clears one.
-/

/-- A map from keys to values. -/
abbrev FiniteMap (K V : Type) := K → Option V

namespace FiniteMap

variable {K V : Type} [DecidableEq K]

/-- No key is there. -/
def empty : FiniteMap K V := fun _ => none

/-- The value of the key, if it is there. -/
def getVal (m : FiniteMap K V) (k : K) : Option V := m k

/-- Insertion of an absent key; a present key keeps its value. -/
def addNode (m : FiniteMap K V) (k : K) (v : V) : FiniteMap K V :=
  if (m k).isSome then m else fun k' => if k' = k then some v else m k'

/-- The key is no longer there. -/
def deleteNode (m : FiniteMap K V) (k : K) : FiniteMap K V :=
  fun k' => if k' = k then none else m k'

theorem addNode_of_none {m : FiniteMap K V} {k : K} {v : V} (h : m k = none) (k' : K) :
    m.addNode k v k' = if k' = k then some v else m k' := by
  simp [addNode, h]

theorem addNode_eq_update {m : FiniteMap K V} {k : K} {v : V} (h : m k = none) :
    m.addNode k v = Function.update m k (some v) := by
  funext k'
  rw [addNode_of_none h, Function.update_apply]

theorem addNode_of_some {m : FiniteMap K V} {k : K} {v w : V} (h : m k = some w) :
    m.addNode k v = m := by
  simp [addNode, h]

theorem addNode_other (m : FiniteMap K V) {k k' : K} (v : V) (h : k' ≠ k) :
    m.addNode k v k' = m k' := by
  unfold addNode
  split
  · rfl
  · simp [h]

theorem deleteNode_apply (m : FiniteMap K V) (k k' : K) :
    m.deleteNode k k' = if k' = k then none else m k' := rfl

theorem deleteNode_eq_update (m : FiniteMap K V) (k : K) :
    m.deleteNode k = Function.update m k none := by
  funext k'
  rw [deleteNode_apply, Function.update_apply]

@[simp] theorem deleteNode_self (m : FiniteMap K V) (k : K) : m.deleteNode k k = none := by
  simp [deleteNode]

theorem deleteNode_other (m : FiniteMap K V) {k k' : K} (h : k' ≠ k) :
    m.deleteNode k k' = m k' := by
  simp [deleteNode, h]

theorem deleteNode_addNode_self (m : FiniteMap K V) (k : K) (v : V) :
    (m.addNode k v).deleteNode k = m.deleteNode k := by
  funext k'
  by_cases h : k' = k
  · rw [h, deleteNode_self, deleteNode_self]
  · rw [deleteNode_other _ h, deleteNode_other _ h, addNode_other m v h]

theorem deleteNode_addNode {m : FiniteMap K V} {k k' : K} (v : V) (h : k ≠ k') :
    (m.addNode k v).deleteNode k' = (m.deleteNode k').addNode k v := by
  have hk : m.deleteNode k' k = m k := deleteNode_other m h
  unfold addNode
  rw [hk]
  split
  · rfl
  · funext j
    simp only [deleteNode]
    grind

theorem deleteNode_comm (m : FiniteMap K V) (k k' : K) :
    (m.deleteNode k).deleteNode k' = (m.deleteNode k').deleteNode k := by
  funext j
  simp only [deleteNode]
  grind

theorem deleteNode_idem (m : FiniteMap K V) (k : K) :
    (m.deleteNode k).deleteNode k = m.deleteNode k := by
  funext j
  simp only [deleteNode]
  grind

end FiniteMap
