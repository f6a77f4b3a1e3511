import Mathlib

/-!
# The single-threaded storage pool

`single_threaded_storage_pool.hpp`: a fixed array of objects and a stack of the free ones. A
pointer into the pool is the index of the object.

`Owns p used`: the free pointers and the pointers `used` are together exactly the objects of the
pool, each once. `acquire_owns` and `release_owns` move one pointer between the two lists; every
structure built from pool objects keeps `Owns` for the list of objects it links.
-/

namespace Naoto

/-- The objects and a stack of the free ones, both by index. -/
structure SingleThreadedStoragePool (T : Type) (Size : Nat) where
  storage : Nat → T
  freeQueue : Nat → Nat
  freeSize : Nat

namespace SingleThreadedStoragePool

variable {T : Type} {Size : Nat}

/-- The constructor: every object free, the last one on top. -/
def new (init : T) : SingleThreadedStoragePool T Size :=
  { storage := fun _ => init, freeQueue := id, freeSize := Size }

/-- The top of the stack, if there is one. -/
def acquire (p : SingleThreadedStoragePool T Size) :
    Option Nat × SingleThreadedStoragePool T Size :=
  if 0 < p.freeSize then
    (some (p.freeQueue (p.freeSize - 1)), { p with freeSize := p.freeSize - 1 })
  else (none, p)

/-- It goes on top of the stack; if that is full, nothing happens. -/
def release (p : SingleThreadedStoragePool T Size) (toRelease : Nat) :
    Bool × SingleThreadedStoragePool T Size :=
  if p.freeSize < Size then
    (true, { p with freeQueue := Function.update p.freeQueue p.freeSize toRelease,
                    freeSize := p.freeSize + 1 })
  else (false, p)

/-- The object behind a pointer is overwritten. -/
def set (p : SingleThreadedStoragePool T Size) (x : Nat) (t : T) :
    SingleThreadedStoragePool T Size :=
  { p with storage := Function.update p.storage x t }

/-- The free pointers, bottom of the stack first. -/
def freeList (p : SingleThreadedStoragePool T Size) : List Nat :=
  (List.range p.freeSize).map p.freeQueue

@[simp] theorem set_storage_self (p : SingleThreadedStoragePool T Size) (x : Nat) (t : T) :
    (p.set x t).storage x = t := by
  simp [set]

theorem set_storage_of_ne (p : SingleThreadedStoragePool T Size) {x y : Nat} (t : T)
    (h : y ≠ x) : (p.set x t).storage y = p.storage y := by
  simp [set, h]

theorem set_storage (p : SingleThreadedStoragePool T Size) (x y : Nat) (t : T) :
    (p.set x t).storage y = if y = x then t else p.storage y := by
  simp [set, Function.update_apply]

@[simp] theorem set_freeList (p : SingleThreadedStoragePool T Size) (x : Nat) (t : T) :
    (p.set x t).freeList = p.freeList := rfl

@[simp] theorem set_freeSize (p : SingleThreadedStoragePool T Size) (x : Nat) (t : T) :
    (p.set x t).freeSize = p.freeSize := rfl

@[simp] theorem release_storage (p : SingleThreadedStoragePool T Size) (x : Nat) :
    (p.release x).2.storage = p.storage := by
  unfold release
  split <;> rfl

@[simp] theorem freeList_length (p : SingleThreadedStoragePool T Size) :
    p.freeList.length = p.freeSize := by
  simp [freeList]

/-! ## Ownership -/

/-- The free objects and the objects `used` are all objects of the pool, each once. -/
def Owns (p : SingleThreadedStoragePool T Size) (used : List Nat) : Prop :=
  (p.freeList ++ used).Perm (List.range Size)

variable {p : SingleThreadedStoragePool T Size} {used used' : List Nat} {x : Nat}

theorem new_owns (init : T) : (new init : SingleThreadedStoragePool T Size).Owns [] := by
  simp [Owns, freeList, new]

theorem Owns.perm (h : p.Owns used) (hp : used.Perm used') : p.Owns used' :=
  (List.Perm.append_left _ hp.symm).trans h

theorem Owns.set (h : p.Owns used) (y : Nat) (t : T) : (p.set y t).Owns used := h

theorem Owns.nodup (h : p.Owns used) : used.Nodup :=
  (h.nodup_iff.2 List.nodup_range).of_append_right

theorem Owns.not_free (h : p.Owns used) (hx : x ∈ used) : x ∉ p.freeList := fun hf =>
  (List.nodup_append.1 (h.nodup_iff.2 List.nodup_range)).2.2 x hf x hx rfl

theorem Owns.length (h : p.Owns used) : p.freeSize + used.length = Size := by
  have := h.length_eq
  simpa using this

theorem Owns.length_le (h : p.Owns used) : used.length ≤ Size := by
  have := h.length; omega

theorem acquire_eq (h : 0 < p.freeSize) :
    ∃ x p', p.acquire = (some x, p') ∧ p'.storage = p.storage ∧ p'.freeSize + 1 = p.freeSize ∧
      p.freeList = p'.freeList ++ [x] := by
  obtain ⟨n, hn⟩ : ∃ n, p.freeSize = n + 1 := ⟨p.freeSize - 1, by omega⟩
  refine ⟨p.freeQueue n, { p with freeSize := n }, by simp [acquire, hn], rfl, hn.symm, ?_⟩
  simp [freeList, hn, List.range_succ]

theorem acquire_none (h : p.freeSize = 0) : p.acquire = (none, p) := by
  simp [acquire, h]

/-- **Acquiring** from a pool that is not empty: the object was free and is now in use. -/
theorem acquire_owns (h : p.Owns used) (h0 : 0 < p.freeSize) :
    ∃ x p', p.acquire = (some x, p') ∧ p'.storage = p.storage ∧ x ∈ p.freeList ∧
      (∀ y ∈ p'.freeList, y ∈ p.freeList) ∧ p'.freeSize + 1 = p.freeSize ∧ p'.Owns (x :: used) := by
  obtain ⟨x, p', he, hs, hf, hl⟩ := acquire_eq h0
  refine ⟨x, p', he, hs, by simp [hl], fun y hy => by rw [hl]; exact List.mem_append_left _ hy,
    hf, ?_⟩
  have h' : (p.freeList ++ used).Perm (List.range Size) := h
  rw [hl, List.append_assoc, List.singleton_append] at h'
  exact h'

theorem release_freeList (h : p.freeSize < Size) :
    (p.release x).2.freeList = p.freeList ++ [x] := by
  simp only [release, h, if_true, freeList, List.range_succ, List.map_append, List.map_cons,
    List.map_nil, Function.update_self, List.append_cancel_right_eq]
  apply List.map_congr_left
  intro i hi
  have : i < p.freeSize := List.mem_range.1 hi
  rw [Function.update_of_ne (by omega)]

/-- **Releasing** an object in use never fails: it is free again. -/
theorem release_owns (h : p.Owns (x :: used)) :
    ∃ p', p.release x = (true, p') ∧ p'.storage = p.storage ∧
      (∀ y ∈ p'.freeList, y = x ∨ y ∈ p.freeList) ∧ x ∈ p'.freeList ∧
      p'.freeSize = p.freeSize + 1 ∧ p'.Owns used := by
  have hlt : p.freeSize < Size := by
    have := h.length
    simp only [List.length_cons] at this
    omega
  have hfl := release_freeList (x := x) hlt
  refine ⟨(p.release x).2, by simp [release, hlt], by simp [release, hlt], ?_, ?_,
    by simp [release, hlt], ?_⟩
  · intro y hy
    rw [hfl] at hy
    rcases List.mem_append.1 hy with hy | hy
    · exact .inr hy
    · exact .inl (by simpa using hy)
  · rw [hfl]; simp
  · unfold Owns
    rw [hfl, List.append_assoc]
    exact h

end SingleThreadedStoragePool

end Naoto
