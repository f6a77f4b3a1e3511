import NaotoExchange.Lib.FiniteMap
import NaotoExchange.Lib.Run
import NaotoExchange.Common.Proof.SkipList

/-!
# The skip list as a sorted finite map

A sequence of `AddNode` and `DeleteNode` calls on the list that the constructor leaves. Each
`AddNode` brings its own source of heights, so that the runs cover every sequence of levels and the
generator's own ones. `contents` is the finite map that the calls build.

* `Agrees`: the list holds the pairs of the map; `call_agrees` is the step.
* `run_sorted_map`: what the map and the chains of the list have to do with each other after a run
  (`Holds`).
-/

namespace Naoto

namespace SkipList

open Run Linked

/-! ## Calls -/

/-- A call that changes the list; an insertion draws its height from `nextLevel`. -/
inductive Call (K V : Type) (PoolSize MaxLevel : Nat) where
  | addNode (key : K) (val : V)
      (nextLevel : SkipList K V PoolSize MaxLevel → Nat × SkipList K V PoolSize MaxLevel)
  | deleteNode (key : K)

namespace Call
variable {K V : Type} {PoolSize MaxLevel : Nat}

/-- The key that the call is about. -/
def key : Call K V PoolSize MaxLevel → K
  | addNode k _ _ => k
  | deleteNode k => k

/-- The heights are in `[0, MaxLevel]`. -/
def Draws : Call K V PoolSize MaxLevel → Prop
  | addNode _ _ nextLevel => DrawsLevel nextLevel
  | deleteNode _ => True

/-- What the call does to the map. -/
def apply [DecidableEq K] (m : FiniteMap K V) : Call K V PoolSize MaxLevel → FiniteMap K V
  | addNode k v _ => m.addNode k v
  | deleteNode k => m.deleteNode k

end Call

section
variable {K V : Type} {PoolSize MaxLevel : Nat}

/-- The map that the calls build: a key has the value of its first `AddNode` since it was last
deleted. -/
def contents [DecidableEq K] (calls : List (Call K V PoolSize MaxLevel)) : FiniteMap K V :=
  calls.foldl Call.apply FiniteMap.empty

/-- The node pool is not exhausted when a node may be needed. -/
def NodeFree (sl : SkipList K V PoolSize MaxLevel) : Call K V PoolSize MaxLevel → Prop
  | .addNode .. => 0 < sl.nodesPool.freeSize
  | .deleteNode _ => True

instance decidableNodeFree (sl : SkipList K V PoolSize MaxLevel) :
    ∀ a : Call K V PoolSize MaxLevel, Decidable (NodeFree sl a)
  | .addNode .. => inferInstanceAs (Decidable (0 < _))
  | .deleteNode _ => inferInstanceAs (Decidable True)

variable [LinearOrder K] [BoundedOrder K]

/-- The call on the list. -/
def call (c : Compare) (sl : SkipList K V PoolSize MaxLevel) :
    Call K V PoolSize MaxLevel → Except Fault (SkipList K V PoolSize MaxLevel × Unit)
  | .addNode key val nextLevel => (addNodeAt c sl key val nextLevel).map fun sl' => (sl', ())
  | .deleteNode key => (deleteNode c sl key).map fun sl' => (sl', ())

/-- The list holds the map `m` in the nodes `xs`, and answers from it. -/
structure Holds (c : Compare) (sl : SkipList K V PoolSize MaxLevel) (m : FiniteMap K V)
    (xs : List Nat) : Prop where
  /-- the chain of level 0, from the head to the tail -/
  chain : Chain (fun x => (sl.node x).forward 0) sl.head xs sl.tail
  sorted : xs.Pairwise fun a b => c.comp (sl.node a).key (sl.node b).key = true
  live : ∀ k, (∃ x ∈ xs, (sl.node x).key = k) ↔ (m k).isSome
  value : ∀ x ∈ xs, (sl.node x).value = m (sl.node x).key
  levels : ∀ i ≤ MaxLevel, Chain (fun x => (sl.node x).forward i) sl.head
    (xs.filter fun x => decide (i ≤ (sl.node x).height)) sl.tail
  /-- the returned value is the map's for every key; the flag is right except for the key of the
  tail sentinel, which is always found, with a null value -/
  getVal : ∀ k, ∃ r, SkipList.getVal c sl k = .ok r ∧ r.join = m k ∧
    (k ≠ c.tailKey → r = (m k).map some)
  headEmpty : (∀ k, m k = none) → sl.getHead = .ok none
  headBest : ∀ k, (m k).isSome → (∀ k', (m k').isSome → k' = k ∨ c.comp k k' = true) →
    sl.getHead = .ok (m k)

end

/-! ## A map and its pairs -/

section
variable {K V : Type} [LinearOrder K] {c : Compare} {m : FiniteMap K V} {key : K} {val : V}
  {kvs k₁ k₂ : List (K × V)}

/-- The pairs of the map are `kvs`. -/
def Lists (m : FiniteMap K V) (kvs : List (K × V)) : Prop := ∀ k v, m k = some v ↔ (k, v) ∈ kvs

/-- A key that is missing between the keys before it and after it is not in the map. -/
theorem Lists.absent (h : Lists m (k₁ ++ k₂)) (h1 : ∀ p ∈ k₁, c.comp p.1 key = true)
    (h2 : ∀ p ∈ k₂, c.comp key p.1 = true) : m key = none := by
  refine Option.eq_none_iff_forall_ne_some.2 fun v hv => ?_
  rcases List.mem_append.1 ((h key v).1 hv) with hm | hm
  · exact Compare.comp_ne (h1 _ hm) rfl
  · exact Compare.comp_ne (h2 _ hm) rfl

omit [LinearOrder K] in
theorem Lists.present (h : Lists m (k₁ ++ (key, val) :: k₂)) : m key = some val :=
  (h key val).2 (by simp)

theorem Lists.addNode (h : Lists m (k₁ ++ k₂)) (hk : m key = none) :
    Lists (m.addNode key val) (k₁ ++ (key, val) :: k₂) := by
  intro k v
  have hiff := h k v
  simp only [List.mem_append, List.mem_cons] at hiff ⊢
  rw [FiniteMap.addNode_of_none hk]
  by_cases he : k = key
  · subst he
    rw [hk] at hiff
    rw [if_pos rfl]
    simp only [reduceCtorEq, false_iff, not_or] at hiff
    simp [hiff.1, hiff.2, eq_comm]
  · simp [he, hiff]

theorem Lists.deleteNode (h : Lists m (k₁ ++ (key, val) :: k₂))
    (hs : (k₁ ++ (key, val) :: k₂).Pairwise fun a b => c.comp a.1 b.1 = true) :
    Lists (m.deleteNode key) (k₁ ++ k₂) := by
  have hs := List.pairwise_append.1 hs
  have h1 : ∀ v, (key, v) ∉ k₁ := fun v hm =>
    Compare.comp_ne (hs.2.2 _ hm (key, val) (by simp)) rfl
  have h2 : ∀ v, (key, v) ∉ k₂ := fun v hm =>
    Compare.comp_ne ((List.pairwise_cons.1 hs.2.1).1 _ hm) rfl
  intro k v
  have hiff := h k v
  rw [FiniteMap.deleteNode_apply]
  by_cases he : k = key
  · subst he
    simp [h1 v, h2 v]
  · simpa [he] using hiff

end

/-! ## One call -/

section
variable {K V : Type} {PoolSize MaxLevel : Nat} [LinearOrder K] [BoundedOrder K] {c : Compare}
  {sl : SkipList K V PoolSize MaxLevel} {m : FiniteMap K V}
  {calls : List (Call K V PoolSize MaxLevel)}

/-- The list holds the pairs of the map. -/
def Agrees (c : Compare) (sl : SkipList K V PoolSize MaxLevel) (m : FiniteMap K V) : Prop :=
  ∃ kvs, Models c sl kvs ∧ Lists m kvs

/-- **One call** on a list that agrees with `m`. -/
theorem call_agrees (h : Agrees c sl m) {a : Call K V PoolSize MaxLevel} (hk : c.Inner a.key)
    (hd : a.Draws) (hroom : NodeFree sl a) :
    ∃ sl', call c sl a = .ok (sl', ()) ∧ Agrees c sl' (a.apply m) := by
  obtain ⟨kvs, hm, hl⟩ := h
  cases a with
  | addNode key val nextLevel =>
    rcases split_sorted Prod.fst key hm.sorted
      with ⟨k₁, ⟨_, v⟩, k₂, rfl, rfl⟩ | ⟨k₁, k₂, rfl, h1, h2⟩
    · refine ⟨sl, by rw [call, hm.addNodeAt_present]; rfl, _, hm, ?_⟩
      rw [Call.apply, FiniteMap.addNode_of_some hl.present]
      exact hl
    · have hin : c.Inner key := hk
      obtain ⟨sl', hok, hm'⟩ := hm.addNodeAt val hd hin h1 h2 hroom
      exact ⟨sl', by rw [call, hok]; rfl, _, hm', hl.addNode (hl.absent h1 h2)⟩
  | deleteNode key =>
    rcases split_sorted Prod.fst key hm.sorted
      with ⟨k₁, ⟨_, v⟩, k₂, rfl, rfl⟩ | ⟨k₁, k₂, rfl, h1, h2⟩
    · obtain ⟨sl', hok, hm'⟩ := hm.deleteNode
      exact ⟨sl', by rw [call, hok]; rfl, _, hm', hl.deleteNode hm.sorted⟩
    · have hne : key ≠ c.tailKey := Compare.comp_ne hk.2
      refine ⟨sl, by rw [call, hm.deleteNode_absent h1 h2 hne]; rfl, _, hm, fun k v => ?_⟩
      rw [← hl k v, Call.apply, FiniteMap.deleteNode_apply]
      split
      · next he => rw [he, hl.absent h1 h2]
      · rfl

/-! ## What the list says about the map -/

theorem Agrees.getVal (h : Agrees c sl m) (k : K) : ∃ r, SkipList.getVal c sl k = .ok r ∧
    r.join = m k ∧ (k ≠ c.tailKey → r = (m k).map some) := by
  obtain ⟨kvs, hm, hl⟩ := h
  rcases split_sorted Prod.fst k hm.sorted with ⟨k₁, ⟨_, v⟩, k₂, rfl, rfl⟩ | ⟨k₁, k₂, rfl, h1, h2⟩
  · rw [hl.present]
    exact ⟨_, hm.getVal_present, rfl, fun _ => rfl⟩
  · rw [hl.absent h1 h2]
    refine ⟨_, hm.getVal_absent h1 h2, ?_, fun hk => if_neg hk⟩
    split <;> rfl

theorem Agrees.headBest (h : Agrees c sl m) {k : K} (hk : (m k).isSome)
    (hb : ∀ k', (m k').isSome → k' = k ∨ c.comp k k' = true) : sl.getHead = .ok (m k) := by
  obtain ⟨kvs, hm, hl⟩ := h
  obtain ⟨v, hv⟩ := Option.isSome_iff_exists.1 hk
  rw [hm.getHead, hv]
  have hmem := (hl k v).1 hv
  cases kvs with
  | nil => simp at hmem
  | cons p kvs =>
    -- the first pair is not after `k`, and `k` is not after it
    have hp : m p.1 = some p.2 := (hl p.1 p.2).2 (by simp)
    have he : p.1 = k := by
      rcases hb p.1 (by rw [hp]; rfl) with he | hc
      · exact he
      · rcases List.mem_cons.1 hmem with he | hmem
        · rw [← he]
        · have := (List.pairwise_cons.1 hm.sorted).1 _ hmem
          rw [Compare.comp_asymm hc] at this
          cases this
    rw [he, hv] at hp
    simp [Option.some.inj hp]

/-- **A list that agrees with a map holds it.** -/
theorem Agrees.holds (h : Agrees c sl m) : ∃ xs, Holds c sl m xs := by
  have hget := h.getVal
  have hbest := fun k => h.headBest (k := k)
  obtain ⟨kvs, hm, hl⟩ := h
  have hhead := hm.getHead
  obtain ⟨xs, hr, hpairs⟩ := hm
  -- a node's key has a node's value in the map
  have hnode : ∀ x ∈ xs, ∃ v, (sl.node x).value = some v ∧ m (sl.node x).key = some v := by
    intro x hx
    have hmem : ((sl.node x).key, (sl.node x).value) ∈ kvs.map fun p => (p.1, some p.2) := by
      rw [← hpairs]; exact List.mem_map.2 ⟨x, hx, rfl⟩
    obtain ⟨p, hp, he⟩ := List.mem_map.1 hmem
    rw [Prod.mk.injEq] at he
    exact ⟨p.2, he.2.symm, by rw [← he.1]; exact (hl p.1 p.2).2 hp⟩
  refine ⟨xs, ?_, hr.sorted, fun k => ⟨?_, fun hk => ?_⟩, fun x hx => ?_, hr.chain, hget,
    fun hnone => ?_, hbest⟩
  · have := hr.chain 0 (Nat.zero_le _)
    rwa [atLevel_zero] at this
  · rintro ⟨x, hx, rfl⟩
    obtain ⟨v, -, hv⟩ := hnode x hx
    rw [hv]; rfl
  · obtain ⟨v, hv⟩ := Option.isSome_iff_exists.1 hk
    have hmem : (k, some v) ∈ xs.map fun x => ((sl.node x).key, (sl.node x).value) := by
      rw [hpairs]; exact List.mem_map.2 ⟨(k, v), (hl k v).1 hv, rfl⟩
    obtain ⟨x, hx, he⟩ := List.mem_map.1 hmem
    exact ⟨x, hx, (Prod.mk.inj he).1⟩
  · obtain ⟨v, hv, hmv⟩ := hnode x hx
    rw [hv, hmv]
  · rw [hhead]
    cases kvs with
    | nil => rfl
    | cons p kvs =>
      have := (hl p.1 p.2).2 (by simp)
      rw [hnone] at this
      cases this

/-! ## The sentinels' keys -/

/-- The list holds the pairs of the map, except for one at the key of the head sentinel. -/
def Tracks (c : Compare) (sl : SkipList K V PoolSize MaxLevel) (m : FiniteMap K V) : Prop :=
  Agrees c sl (m.deleteNode c.headKey)

section
variable {sl' : SkipList K V PoolSize MaxLevel} {key : K} {val : V}

/-- An insertion that returns is one of a key that the list can hold, or leaves the list alone. -/
theorem Tracks.addNode [Nontrivial K] (h : Tracks c sl m) (hnone : m key = none)
    (hadd : SkipList.addNode c sl key val = .ok sl') : Tracks c sl' (m.addNode key val) := by
  by_cases hhead : key = c.headKey
  · obtain ⟨kvs, hm, hl⟩ := h
    rw [hhead, hm.addNode_headKey c.headKey_comp_tailKey] at hadd
    cases hadd
    rw [Tracks, hhead, FiniteMap.deleteNode_addNode_self]
    exact ⟨kvs, hm, hl⟩
  · have htail : key ≠ c.tailKey := fun he => addNode_tailKey (he ▸ hadd)
    have hin : c.Inner key := Compare.inner_of_ne hhead htail
    rw [Tracks, FiniteMap.deleteNode_addNode val hhead]
    have hagrees := h
    obtain ⟨kvs, hm, hl⟩ := h
    by_cases hroom : 0 < sl.nodesPool.freeSize
    · obtain ⟨sl₁, hcall, ha⟩ :=
        call_agrees (a := .addNode key val nextLevel) hagrees hin nextLevel_draws hroom
      have hadd' : call c sl (.addNode key val nextLevel) = .ok (sl', ()) := by
        rw [call]
        exact congrArg (Except.map fun sl' => (sl', ())) hadd
      rw [hadd'] at hcall
      cases hcall
      exact ha
    · rcases split_sorted Prod.fst key hm.sorted
        with ⟨k₁, ⟨k, v⟩, k₂, rfl, hk⟩ | ⟨k₁, k₂, rfl, h1, h2⟩
      · have hpres := hl.present
        rw [show k = key from hk, FiniteMap.deleteNode_other _ hhead, hnone] at hpres
        cases hpres
      · rw [hm.addNode_full hin h1 h2 (by omega)] at hadd
        cases hadd

theorem Tracks.deleteNode [Nontrivial K] (h : Tracks c sl m) (hkey : m key = some val)
    (hdel : SkipList.deleteNode c sl key = .ok sl') : Tracks c sl' (m.deleteNode key) := by
  obtain ⟨kvs, hm, hl⟩ := h
  by_cases hhead : key = c.headKey
  · rcases split_sorted Prod.fst key hm.sorted
      with ⟨k₁, ⟨k, v⟩, k₂, rfl, hk⟩ | ⟨k₁, k₂, rfl, h1, h2⟩
    · have hpres := hl.present
      rw [show k = c.headKey from hk.trans hhead, FiniteMap.deleteNode_self] at hpres
      cases hpres
    · have hne : key ≠ c.tailKey := fun he =>
        Compare.comp_ne c.headKey_comp_tailKey (hhead.symm.trans he)
      rw [hm.deleteNode_absent h1 h2 hne] at hdel
      cases hdel
      rw [Tracks, hhead, FiniteMap.deleteNode_idem]
      exact ⟨_, hm, hl⟩
  · have hmem : (key, val) ∈ kvs := by
      rw [← hl, FiniteMap.deleteNode_other _ hhead]
      exact hkey
    obtain ⟨k₁, k₂, rfl⟩ := List.append_of_mem hmem
    obtain ⟨sl₁, hdel₁, hm₁⟩ := hm.deleteNode
    rw [hdel] at hdel₁
    cases hdel₁
    rw [Tracks, FiniteMap.deleteNode_comm]
    exact ⟨_, hm₁, hl.deleteNode hm.sorted⟩

theorem Tracks.getHead (h : Tracks c sl m) (hget : sl.getHead = .ok (some val)) :
    ∃ k, m k = some val := by
  obtain ⟨kvs, hm, hl⟩ := h
  rw [hm.getHead] at hget
  cases kvs with
  | nil => cases hget
  | cons p kvs =>
    cases hget
    have hp := (hl p.1 p.2).2 (by simp)
    rw [FiniteMap.deleteNode_apply] at hp
    split at hp
    · cases hp
    · exact ⟨p.1, hp⟩

end

/-! ## Runs -/

omit [BoundedOrder K] in
theorem contents_snoc (calls : List (Call K V PoolSize MaxLevel)) (a : Call K V PoolSize MaxLevel) :
    contents (calls ++ [a]) = a.apply (contents calls) := by
  simp [contents]

/-- **The skip list is a sorted finite map, whatever the heights**: after every sequence of calls on
keys between the limits, the chain of level 0 lists the live keys once each in comparator order with
their first values, the chain of level `i` its nodes of height at least `i`, and the lookups answer
from the map. No call of the run fails. -/
theorem run_sorted_map (c : Compare) (seed : UInt64) (hp : 2 ≤ PoolSize)
    (hk : ∀ a ∈ calls, ⊥ < a.key ∧ a.key < ⊤) (hd : ∀ a ∈ calls, a.Draws)
    (hroom : Along NodeFree (call c) (new c seed) calls) :
    ∃ sl outs, run (call c) (new c seed) calls = .ok (sl, outs) ∧
      ∃ xs, Holds c sl (contents calls) xs := by
  obtain ⟨sl, outs, hr, ha⟩ := run_total
    (P := fun ys sl (_ : List Unit) => Agrees c sl (contents ys))
    ⟨[], new_models hp seed, fun k v => by simp [contents, FiniteMap.empty]⟩ hroom
    (fun ys a s bs hy _ hs hfree => by
      have hmem : a ∈ calls := hy.subset (by simp)
      obtain ⟨s', hok, hs'⟩ := call_agrees hs (Compare.inner_iff.2 (hk a hmem)) (hd a hmem) hfree
      exact ⟨s', (), hok, by rw [contents_snoc]; exact hs'⟩)
  exact ⟨sl, outs, hr, ha.holds⟩

end

theorem drawsLevel_fixed {K V : Type} {PoolSize MaxLevel level : Nat} (h : level ≤ MaxLevel) :
    DrawsLevel fun sl : SkipList K V PoolSize MaxLevel => (level, sl) :=
  fun sl => ⟨h, sl.state, rfl⟩

/-- Three keys with the heights 2, 0 and 1; one is added twice, one is deleted. -/
def sampleMap : List (Call Int64 Nat 6 2) :=
  [.addNode 5 10 fun sl => (2, sl), .addNode 3 20 fun sl => (0, sl),
    .addNode 5 30 fun sl => (1, sl), .deleteNode 3, .addNode 7 40 fun sl => (1, sl)]

theorem run_sorted_map_sample : ∃ sl outs,
    run (call .greater) (new .greater 1) sampleMap = .ok (sl, outs) ∧
      sl.getHead = .ok (some 40) ∧ SkipList.getVal .greater sl 5 = .ok (some (some 10)) ∧
      SkipList.getVal .greater sl 3 = .ok none := by
  have hk : ∀ a ∈ sampleMap, ⊥ < a.key ∧ a.key < ⊤ := by decide
  have hd : ∀ a ∈ sampleMap, a.Draws := by
    simp only [sampleMap, List.mem_cons, List.not_mem_nil, or_false]
    rintro a (rfl | rfl | rfl | rfl | rfl)
    · exact drawsLevel_fixed (by decide)
    · exact drawsLevel_fixed (by decide)
    · exact drawsLevel_fixed (by decide)
    · trivial
    · exact drawsLevel_fixed (by decide)
  have hroom : Along NodeFree (call .greater) (new .greater 1) sampleMap := by decide +kernel
  obtain ⟨sl, outs, hr, xs, h⟩ := run_sorted_map .greater 1 (by decide) hk hd hroom
  have hm5 : contents sampleMap 5 = some 10 := by decide
  have hm3 : contents sampleMap 3 = none := by decide
  have hm7 : contents sampleMap 7 = some 40 := by decide
  refine ⟨sl, outs, hr, ?_, ?_, ?_⟩
  · rw [h.headBest 7 (by rw [hm7]; rfl) fun k hk => ?_, hm7]
    by_cases h7 : k = 7
    · exact .inl h7
    · by_cases h5 : k = 5
      · exact .inr (h5 ▸ by decide)
      · simp [contents, sampleMap, Call.apply, FiniteMap.addNode, FiniteMap.deleteNode,
          FiniteMap.empty, h5, h7] at hk
        split at hk <;> simp at hk
  · obtain ⟨r, hok, -, hr⟩ := h.getVal 5
    rw [hok, hr (by decide), hm5]; rfl
  · obtain ⟨r, hok, -, hr⟩ := h.getVal 3
    rw [hok, hr (by decide), hm3]; rfl

end SkipList

end Naoto
