import NaotoExchange.Common.KeyMap
import NaotoExchange.Common.ProbeDistance

/-!
# Tables whose keys stay at home

A flat hash map is the finite map that it should be as long as no more than 16 of the keys in use
have one home bucket (`Uncrowded`): then no entry leaves its bucket, and `AddNode` never gets to
the groups it may skip. `KeysIn ks m` says that the table `m` is in order and holds keys of `ks`
only; `KeysIn.addNode` and `KeysIn.deleteNode` are the two calls on it.
-/

namespace Naoto

namespace FlatHashMap

section
variable {K V : Type} [HashKey K] [DecidableEq K] {Size : Nat} {ks : List K}

/-- No more than 16 of the keys have one home bucket. -/
def Uncrowded (Size : Nat) (ks : List K) : Prop :=
  ∀ k ∈ ks, ks.countP (fun k' =>
    decide (bucket HashKey.toU64 Size k' = bucket HashKey.toU64 Size k)) ≤ 16

instance (Size : Nat) (ks : List K) : Decidable (Uncrowded Size ks) :=
  inferInstanceAs (Decidable (∀ k ∈ ks, _))

omit [DecidableEq K] in
theorem Uncrowded.buckets (h : Uncrowded Size ks) (b : Nat) :
    ks.countP (fun k => decide (bucket HashKey.toU64 Size k = b)) ≤ 16 := by
  by_cases hb : ∃ k ∈ ks, bucket HashKey.toU64 Size k = b
  · obtain ⟨k, hk, rfl⟩ := hb
    exact h k hk
  · have hzero : ks.countP (fun k => decide (bucket HashKey.toU64 Size k = b)) = 0 := by
      rw [List.countP_eq_zero]
      intro k hk hkb
      exact hb ⟨k, hk, of_decide_eq_true hkb⟩
    omega

/-- The finite map that a table answers from. -/
def finite (m : FlatHashMap K V Size) : FiniteMap K V := m.getVal HashKey.toU64

/-- A table of `2 ^ e` buckets is in order, and its keys are among `ks`, which are fewer than its
slots. -/
inductive KeysIn (ks : List K) : {Size : Nat} → FlatHashMap K V Size → Prop
  | intro {e : Nat} {m : FlatHashMap K V (2 ^ e)} (good : Good HashKey.toU64 m m.finite)
      (keys : ∀ k, m.finite k ≠ none → k ∈ ks) (fewer : ks.length < totalSize (2 ^ e)) : KeysIn ks m

theorem Good.finite_eq {e : Nat} {m : FlatHashMap K V (2 ^ e)} {f : FiniteMap K V}
    (h : Good HashKey.toU64 m f) : m.finite = f :=
  funext (getVal_eq h)

/-- A table that holds `f` has its keys in any list that has those of `f`. -/
theorem Good.keysIn {e : Nat} {m : FlatHashMap K V (2 ^ e)} {f : FiniteMap K V}
    (h : Good HashKey.toU64 m f) (hf : ∀ k, f k ≠ none → k ∈ ks)
    (hlen : ks.length < totalSize (2 ^ e)) : KeysIn ks m := by
  have heq := h.finite_eq
  exact .intro (by rw [heq]; exact h) (by rw [heq]; exact hf) hlen

variable {m : FlatHashMap K V Size}

theorem KeysIn.change {ks' : List K} (h : KeysIn ks m) (hk : ∀ k, m.finite k ≠ none → k ∈ ks')
    (hlen : ks'.length < totalSize Size) : KeysIn ks' m := by
  obtain ⟨good, -, -⟩ := h
  exact .intro good hk hlen

/-- Nothing that `AddNode` carries leaves its home bucket. -/
theorem KeysIn.addArrivals_eq_nil (h : KeysIn ks m) (hc : Uncrowded Size ks) {k : K} (hk : k ∈ ks)
    (v : V) (hnone : m.finite k = none) : m.addArrivals HashKey.toU64 k v = [] := by
  obtain ⟨good, keys, fewer⟩ := h
  obtain ⟨z, hz, hfree⟩ := good.exists_free keys fewer
  rcases good.addArrivals_cases hz hfree v hnone with hnil | ⟨a, gap, h16, ha, -⟩
  · exact hnil
  · next m =>
    have hlive : ∀ k', Function.update m.finite k (some v) k' ≠ none → k' ∈ ks := by
      intro k' hk'
      by_cases heq : k' = k
      · rw [heq]
        exact hk
      · rw [Function.update_of_ne heq] at hk'
        exact keys k' hk'
    have hdib := ha.dib_lt_of_rows hlive (rows_of_buckets fun b _ => hc.buckets b)
    omega

variable [Inhabited K] [Inhabited V]

/-- **`AddNode`** of a key from the list. -/
theorem KeysIn.addNode (h : KeysIn ks m) (hc : Uncrowded Size ks) {k : K} (hk : k ∈ ks) (v : V) :
    ∃ m' : FlatHashMap K V Size, KeyMap.addNode m k v = .ok m' ∧ KeysIn ks m' ∧
      m'.finite = m.finite.addNode k v := by
  cases hget : m.finite k with
  | some w =>
    refine ⟨m, ?_, h, (FiniteMap.addNode_of_some hget).symm⟩
    have hfound : m.getVal HashKey.toU64 k = some w := hget
    show m.addNode HashKey.toU64 k v = .ok m
    rw [FlatHashMap.addNode, hfound]
  | none =>
    have harr := h.addArrivals_eq_nil hc hk v hget
    obtain ⟨good, keys, fewer⟩ := h
    obtain ⟨z, hz, hfree⟩ := good.exists_free keys fewer
    obtain ⟨m', hm, hg⟩ := addNode_good good v hget hz hfree (by
      rw [harr]
      exact fun a ha => absurd ha List.not_mem_nil)
    rw [← FiniteMap.addNode_eq_update hget] at hg
    refine ⟨m', hm, hg.keysIn (fun k' hk' => ?_) fewer, hg.finite_eq⟩
    by_cases heq : k' = k
    · rw [heq]
      exact hk
    · rw [FiniteMap.addNode_other _ _ heq] at hk'
      exact keys k' hk'

/-- **`DeleteNode`** of any key. -/
theorem KeysIn.deleteNode (h : KeysIn ks m) (k : K) :
    ∃ m' : FlatHashMap K V Size, KeyMap.deleteNode m k = .ok m' ∧ KeysIn ks m' ∧
      m'.finite = m.finite.deleteNode k := by
  obtain ⟨good, keys, fewer⟩ := h
  obtain ⟨z, hz, hfree⟩ := good.exists_free keys fewer
  obtain ⟨m', hm, hg⟩ := deleteNode_good good k hz hfree
  rw [← FiniteMap.deleteNode_eq_update] at hg
  refine ⟨m', hm, hg.keysIn (fun k' hk' => ?_) fewer, hg.finite_eq⟩
  by_cases heq : k' = k
  · rw [heq, FiniteMap.deleteNode_self] at hk'
    exact absurd rfl hk'
  · rw [FiniteMap.deleteNode_other _ heq] at hk'
    exact keys k' hk'

theorem new_keysIn (e : Nat) : KeysIn [] (new : FlatHashMap K V (2 ^ e)) :=
  new_good.keysIn (fun _ hk => absurd rfl hk)
    (by rw [totalSize_eq, List.length_nil]; exact Nat.mul_pos (Nat.two_pow_pos e) (by decide))

end

end FlatHashMap

end Naoto
