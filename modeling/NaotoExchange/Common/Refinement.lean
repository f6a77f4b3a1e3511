import NaotoExchange.Lib.FiniteMap
import NaotoExchange.Lib.Run
import NaotoExchange.Common.Proof.FlatHashMapInsert
import NaotoExchange.Common.Proof.FlatHashMapDelete

/-!
# The flat hash map as a finite map

A sequence of calls on an empty table. `lookup` says what a key should give, read off the history
alone; it is the finite map that the calls build (`lookup_addNode`, `lookup_deleteNode`).

* `run_refines_map`: the table agrees with it as long as a slot is free, no entry is carried 128
  slots from home, and `AddNode` never leaves a group whose first slot it should have taken
  (`Cursor.skips`).
* `skippedGroup_loses_key`: without the last condition a key is lost.
-/

namespace Naoto

namespace FlatHashMap

open Run

/-- A call of the table's interface. -/
inductive Call (K V : Type) where
  | addNode (key : K) (val : V)
  | deleteNode (key : K)
  | getVal (key : K)

namespace Call
variable {K V : Type}

/-- The key that the call is about. -/
def key : Call K V → K
  | addNode k _ => k
  | deleteNode k => k
  | getVal k => k

variable [DecidableEq K]

/-- The value that a call adds for `k`. -/
def added (k : K) : Call K V → Option V
  | addNode k' v => if k' = k then some v else none
  | _ => none

/-- The call deletes the key. -/
def deletes (k : K) : Call K V → Bool
  | deleteNode k' => k' == k
  | _ => false

end Call

/-! ## The history of a key -/

section
variable {K V : Type} [DecidableEq K]

/-- The value of the first `AddNode` of `k` since it was last deleted. -/
def lookup (calls : List (Call K V)) : FiniteMap K V := fun k =>
  (calls.reverse.takeWhile fun c => !c.deletes k).reverse.findSome? (Call.added k)

/-- The keys that are in the map after the calls. -/
def liveKeys (calls : List (Call K V)) : List K :=
  (calls.map Call.key).dedup.filter fun k => (lookup calls k).isSome

variable (calls : List (Call K V))

theorem lookup_snoc (c : Call K V) (k : K) : lookup (calls ++ [c]) k =
    if c.deletes k then none else (lookup calls k).or (c.added k) := by
  unfold lookup
  rw [List.reverse_append, List.reverse_singleton, List.singleton_append, List.takeWhile_cons]
  cases c.deletes k <;> simp [List.findSome?_append]

theorem lookup_other {c : Call K V} {k : K} (h : k ≠ c.key) :
    lookup (calls ++ [c]) k = lookup calls k := by
  rw [lookup_snoc]
  cases c <;> simp_all [Call.deletes, Call.added, Call.key, Ne.symm]

theorem lookup_getVal (k : K) : lookup (calls ++ [.getVal k]) = lookup calls := by
  funext k'
  simp [lookup_snoc, Call.deletes, Call.added]

theorem lookup_addNode (k : K) (v : V) :
    lookup (calls ++ [.addNode k v]) = (lookup calls).addNode k v := by
  funext k'
  by_cases hk : k' = k
  · subst hk
    rw [lookup_snoc]
    cases h : lookup calls k' with
    | none => simp [FiniteMap.addNode_of_none h, Call.deletes, Call.added]
    | some w => simp [FiniteMap.addNode_of_some h, Call.deletes, h]
  · rw [lookup_other calls hk, FiniteMap.addNode_other _ _ hk]

theorem lookup_deleteNode (k : K) :
    lookup (calls ++ [.deleteNode k]) = (lookup calls).deleteNode k := by
  funext k'
  by_cases hk : k' = k
  · subst hk
    simp [lookup_snoc, Call.deletes]
  · rw [lookup_other calls hk, FiniteMap.deleteNode_other _ hk]

theorem mem_liveKeys {k : K} (h : lookup calls k ≠ none) : k ∈ liveKeys calls := by
  rw [liveKeys, List.mem_filter, List.mem_dedup, Option.isSome_iff_ne_none]
  refine ⟨?_, h⟩
  by_contra hk
  refine h ?_
  induction calls using List.reverseRecOn with
  | nil => rfl
  | append_singleton calls c ih =>
    simp only [List.map_append, List.map_cons, List.map_nil, List.mem_append, List.mem_singleton,
      not_or] at hk
    rw [lookup_other calls hk.2] at h ⊢
    exact ih h hk.1

end

/-! ## Calls on the table -/

section
variable {K V : Type} [DecidableEq K] [Inhabited K] [Inhabited V] (toU64 : K → UInt64) {Size : Nat}

/-- One call: the table after it, and the answer of a lookup. -/
def call (m : FlatHashMap K V Size) : Call K V → Except Fault (FlatHashMap K V Size × Option V)
  | .addNode k v => (m.addNode toU64 k v).map fun m' => (m', none)
  | .deleteNode k => (m.deleteNode toU64 k).map fun m' => (m', none)
  | .getVal k => .ok (m, m.getVal toU64 k)

/-- The groups that a call reads with an entry in hand. -/
def arrivals (m : FlatHashMap K V Size) : Call K V → List (Cursor K V Size)
  | .addNode k v => m.addArrivals toU64 k v
  | _ => []

/-- No entry is carried to a distance of 128. -/
def StaysNear (m : FlatHashMap K V Size) (c : Call K V) : Prop :=
  ∀ a ∈ m.arrivals toU64 c, a.dib < 128

/-- No group is left although its first slot is taken by an entry nearer to home. -/
def NeverSkips (m : FlatHashMap K V Size) (c : Call K V) : Prop :=
  ∀ a ∈ m.arrivals toU64 c, a.skips = false

instance (m : FlatHashMap K V Size) (c : Call K V) : Decidable (StaysNear toU64 m c) :=
  inferInstanceAs (Decidable (∀ a ∈ m.arrivals toU64 c, a.dib < 128))

instance (m : FlatHashMap K V Size) (c : Call K V) : Decidable (NeverSkips toU64 m c) :=
  inferInstanceAs (Decidable (∀ a ∈ m.arrivals toU64 c, a.skips = false))

end

section
variable {K V : Type} [DecidableEq K] {toU64 : K → UInt64} {e : Nat}
  {m : FlatHashMap K V (2 ^ e)} {f : K → Option V}

omit [DecidableEq K] in
theorem new_good [Inhabited K] [Inhabited V] :
    Good toU64 (new : FlatHashMap K V (2 ^ e)) fun _ => none := by
  have hnone : ∀ i < totalSize (2 ^ e), entryAt (new : FlatHashMap K V (2 ^ e)) i = none :=
    fun i hi => (entryAt_eq_none hi).2 rfl
  refine ⟨⟨fun _ _ => rfl, fun _ _ h => absurd rfl h, fun _ _ h => absurd rfl h⟩, ⟨?_, ?_, ?_⟩, ?_⟩
  · intro i hi x hx
    rw [hnone i hi] at hx
    cases hx
  · intro i hi x hx
    rw [hnone i hi] at hx
    cases hx
  · intro i hi j _ x _ hx
    rw [hnone i hi] at hx
    cases hx
  · intro k v
    refine ⟨(nomatch ·), ?_⟩
    rintro ⟨i, hi, x, hx, -⟩
    rw [hnone i hi] at hx
    cases hx

/-- A table with fewer keys than slots has a free slot: no two slots hold one key. -/
theorem Good.exists_free (h : Good toU64 m f) {live : List K} (hl : ∀ k, f k ≠ none → k ∈ live)
    (hlen : live.length < totalSize (2 ^ e)) :
    ∃ z < totalSize (2 ^ e), m.tags z = emptyMarker := by
  by_contra hfull
  push Not at hfull
  have hinto : Set.MapsTo m.keys (Finset.range (totalSize (2 ^ e))) live.toFinset := by
    intro i hi
    rw [Finset.coe_range, Set.mem_Iio] at hi
    rw [Finset.mem_coe, List.mem_toFinset]
    refine hl _ ?_
    rw [(h.contents (m.keys i) (m.data i)).2 ⟨i, hi, _, entryAt_of_ne hi (hfull i hi), rfl, rfl⟩]
    simp
  have hinj : Set.InjOn m.keys (Finset.range (totalSize (2 ^ e))) := by
    intro i hi j hj hij
    rw [Finset.coe_range, Set.mem_Iio] at hi hj
    exact h.valid.unique i hi j hj _ _ (entryAt_of_ne hi (hfull i hi))
      (entryAt_of_ne hj (hfull j hj)) hij
  have hcard := Finset.card_le_card_of_injOn m.keys hinto hinj
  rw [Finset.card_range] at hcard
  have := live.toFinset_card_le
  omega

/-- **One call** on a table that holds `f` and has a free slot. -/
theorem call_good [Inhabited K] [Inhabited V] {xs : List (Call K V)} (h : Good toU64 m (lookup xs))
    (hlive : (liveKeys xs).length < totalSize (2 ^ e)) {c : Call K V}
    (hnear : StaysNear toU64 m c) (hskip : NeverSkips toU64 m c) :
    ∃ m' r, m.call toU64 c = .ok (m', r) ∧ Good toU64 m' (lookup (xs ++ [c])) ∧
      ∀ k, c = .getVal k → r = lookup xs k := by
  obtain ⟨z, hz, hfree⟩ := h.exists_free (fun k => mem_liveKeys xs) hlive
  cases c with
  | getVal k =>
    refine ⟨m, _, rfl, by rw [lookup_getVal]; exact h, ?_⟩
    rintro k' ⟨⟩
    exact getVal_eq h k
  | deleteNode k =>
    obtain ⟨m', hm, hg⟩ := deleteNode_good h k hz hfree
    refine ⟨m', none, by rw [call, hm]; rfl, ?_, fun _ hk => by cases hk⟩
    rw [lookup_deleteNode, FiniteMap.deleteNode_eq_update]
    exact hg
  | addNode k v =>
    rw [lookup_addNode]
    cases hk : lookup xs k with
    | some w =>
      -- the key is there: `AddNode` returns at once
      refine ⟨m, none, ?_, by rw [FiniteMap.addNode_of_some hk]; exact h, fun _ hk => by cases hk⟩
      rw [call, addNode, getVal_eq h k, hk]
      rfl
    | none =>
      obtain ⟨m', hm, hg⟩ :=
        addNode_good h v hk hz hfree fun a ha => ⟨hnear a ha, hskip a ha⟩
      refine ⟨m', none, by rw [call, hm]; rfl, ?_, fun _ hk => by cases hk⟩
      rw [FiniteMap.addNode_eq_update hk]
      exact hg

end

/-! ## Runs -/

section
variable {K V : Type} [DecidableEq K] [Inhabited K] [Inhabited V] {toU64 : K → UInt64} {e : Nat}
  {calls : List (Call K V)}

/-- The table holds the map of the calls, and every lookup was answered from it. -/
theorem run_good (hlive : ∀ xs, xs <+: calls → (liveKeys xs).length < 16 * 2 ^ e)
    (hnear : Along (StaysNear toU64) (call toU64) (new : FlatHashMap K V (2 ^ e)) calls)
    (hskip : Along (NeverSkips toU64) (call toU64) (new : FlatHashMap K V (2 ^ e)) calls) :
    ∃ m outs, run (call toU64) (new : FlatHashMap K V (2 ^ e)) calls = .ok (m, outs) ∧
      Good toU64 m (lookup calls) ∧ outs.length = calls.length ∧
      ∀ xs k, xs ++ [.getVal k] <+: calls → outs[xs.length]? = some (lookup xs k) := by
  have hpre : Along (fun m c => StaysNear toU64 m c ∧ NeverSkips toU64 m c) (call toU64)
      (new : FlatHashMap K V (2 ^ e)) calls :=
    fun xs c hx m bs hr => ⟨hnear xs c hx m bs hr, hskip xs c hx m bs hr⟩
  refine run_total (P := fun ys m outs => Good toU64 m (lookup ys) ∧ outs.length = ys.length ∧
    ∀ xs k, xs ++ [.getVal k] <+: ys → outs[xs.length]? = some (lookup xs k))
    ⟨new_good, rfl, fun xs k hx => by simp at hx⟩ hpre ?_
  rintro ys c m outs hy - ⟨hg, hlen, houts⟩ ⟨hn, hs⟩
  have hl := hlive ys ((List.prefix_append _ _).trans hy)
  obtain ⟨m', r, hm, hg', hr⟩ := call_good hg (by rw [totalSize_eq]; omega) hn hs
  refine ⟨m', r, hm, hg', by simp [hlen], fun xs k hx => ?_⟩
  rcases List.prefix_concat_iff.1 hx with heq | hx
  · -- the call just made
    obtain ⟨rfl, hc⟩ := List.append_inj' heq rfl
    rw [← hlen, List.getElem?_concat_length, hr k (List.singleton_inj.1 hc).symm]
  · have hlt : xs.length < outs.length := by
      have := hx.length_le
      simp only [List.length_append, List.length_singleton] at this
      omega
    rw [List.getElem?_append_left hlt]
    exact houts xs k hx

/-- **The table refines a finite map**: after the calls a key gives the value of its first `AddNode`
since it was last deleted, and so did every `GetVal` on the way; `AddNode` of a present key changes
nothing; and no call changes the lookup of another key. -/
theorem run_refines_map (hlive : ∀ xs, xs <+: calls → (liveKeys xs).length < 16 * 2 ^ e)
    (hnear : Along (StaysNear toU64) (call toU64) (new : FlatHashMap K V (2 ^ e)) calls)
    (hskip : Along (NeverSkips toU64) (call toU64) (new : FlatHashMap K V (2 ^ e)) calls) :
    ∃ m outs, run (call toU64) (new : FlatHashMap K V (2 ^ e)) calls = .ok (m, outs) ∧
      (∀ k, m.getVal toU64 k = lookup calls k) ∧
      (∀ xs k, xs ++ [.getVal k] <+: calls → outs[xs.length]? = some (lookup xs k)) ∧
      (∀ k v, lookup calls k ≠ none → m.addNode toU64 k v = .ok m) ∧
      ∀ xs c m₁ outs₁ m₂ r, xs ++ [c] <+: calls →
        run (call toU64) (new : FlatHashMap K V (2 ^ e)) xs = .ok (m₁, outs₁) →
        m₁.call toU64 c = .ok (m₂, r) →
        ∀ k, k ≠ c.key → m₂.getVal toU64 k = m₁.getVal toU64 k := by
  -- the conditions hold along every shorter run as well
  have hgood : ∀ xs, xs <+: calls → ∀ m outs,
      run (call toU64) (new : FlatHashMap K V (2 ^ e)) xs = .ok (m, outs) →
      Good toU64 m (lookup xs) := by
    intro xs hx m outs hr
    obtain ⟨m', outs', hr', hg, -⟩ := run_good (fun ys hy => hlive ys (hy.trans hx))
      (hnear.restrict hx) (hskip.restrict hx)
    rw [hr, Except.ok.injEq, Prod.mk.injEq] at hr'
    rw [hr'.1]
    exact hg
  obtain ⟨m, outs, hr, hg, -, houts⟩ := run_good hlive hnear hskip
  refine ⟨m, outs, hr, getVal_eq hg, houts, fun k v hk => ?_, ?_⟩
  · obtain ⟨w, hw⟩ := Option.ne_none_iff_exists'.1 hk
    rw [addNode, getVal_eq hg, hw]
  · intro xs c m₁ outs₁ m₂ r hx hr₁ hc k hk
    have h₁ := hgood xs ((List.prefix_append _ _).trans hx) m₁ outs₁ hr₁
    have h₂ := hgood _ hx m₂ _ (run_snoc_ok hr₁ hc)
    rw [getVal_eq h₁, getVal_eq h₂, lookup_other xs hk]

end

/-- Two keys of one bucket, one of them deleted and added again with another value. -/
def sampleCalls : List (Call UInt64 Nat) :=
  [.addNode 4 10, .addNode 8 20, .addNode 4 30, .getVal 4, .deleteNode 4, .getVal 4, .addNode 4 40]

theorem run_refines_map_sample : ∃ m outs,
    run (call id) (new : FlatHashMap UInt64 Nat (2 ^ 2)) sampleCalls = .ok (m, outs) ∧
      m.getVal id 4 = some 40 ∧ m.getVal id 8 = some 20 ∧ outs[3]? = some (some 10) := by
  have hlive : ∀ xs ∈ sampleCalls.inits, (liveKeys xs).length < 16 * 2 ^ 2 := by decide +kernel
  have hnear : Along (StaysNear id) (call id)
      (new : FlatHashMap UInt64 Nat (2 ^ 2)) sampleCalls := by
    decide +kernel
  have hskip : Along (NeverSkips id) (call id)
      (new : FlatHashMap UInt64 Nat (2 ^ 2)) sampleCalls := by
    decide +kernel
  obtain ⟨m, outs, hr, hget, houts, -⟩ :=
    run_refines_map (fun xs hx => hlive xs ((List.mem_inits _ _).2 hx)) hnear hskip
  refine ⟨m, outs, hr, ?_, ?_, ?_⟩
  · rw [hget]; decide +kernel
  · rw [hget]; decide +kernel
  · exact (houts (sampleCalls.take 3) 4 ⟨sampleCalls.drop 4, rfl⟩).trans
      (by decide +kernel)

/-! ## The group that is skipped -/

/-- Key 1 in the second bucket, then 17 keys of the first. -/
def skippedGroup : List (Call UInt64 Nat) :=
  .addNode 1 0 :: (List.range 17).map fun i => .addNode (UInt64.ofNat (4 * i)) i

/-- Only 18 of 64 slots are in use and no entry is far from home, but the last key cannot be found:
it was carried past the first slot of the second group, which key 1 holds at distance 0. -/
theorem skippedGroup_loses_key :
    (∀ xs, xs <+: skippedGroup → (liveKeys xs).length < 16 * 2 ^ 2) ∧
    Along (StaysNear id) (call id) (new : FlatHashMap UInt64 Nat (2 ^ 2)) skippedGroup ∧
    lookup skippedGroup 64 = some 16 ∧
    ∃ m outs, run (call id) (new : FlatHashMap UInt64 Nat (2 ^ 2)) skippedGroup = .ok (m, outs) ∧
      m.getVal id 64 = none := by
  have hlive : ∀ xs ∈ skippedGroup.inits, (liveKeys xs).length < 16 * 2 ^ 2 := by decide +kernel
  refine ⟨fun xs hx => hlive xs
    ((List.mem_inits _ _).2 hx), by decide +kernel, by decide +kernel, ?_⟩
  exact exists_of_succeeds (by decide +kernel)

end FlatHashMap

end Naoto
