import NaotoExchange.Common.ProbeDistance

/-!
# Deletion from any well-formed table

`WellFormed` says of the four arrays alone what a Robin Hood table is, without a history of calls
and without a map that it holds. It is the invariant `Good` of the other proofs in other words
(`WellFormed.exists_good`, `Good.wellFormed`): the slots between an entry and its home are described
one by one, where `RobinHood.Fits` only looks at the neighbour, and the padding group mirrors all
four arrays.

`deleteNode_wellFormed`: from a well-formed table with a free slot, `DeleteNode` removes the pair of
its key, no other, and leaves a well-formed table.
-/

namespace Naoto.FlatHashMap

open RobinHood

section
variable {K V : Type} {Size : Nat} (toU64 : K → UInt64)

/-- The Robin Hood invariant of the arrays. -/
structure WellFormed (m : FlatHashMap K V Size) : Prop where
  tag : ∀ i < totalSize Size, m.tags i ≠ emptyMarker → (m.tags i).toNat = distance toU64 m i
  near : ∀ i < totalSize Size, m.tags i ≠ emptyMarker → distance toU64 m i < 128
  /-- The slots from the home of an entry on to the entry are taken, by entries at least as far from
  their homes. -/
  between : ∀ i < totalSize Size, m.tags i ≠ emptyMarker → ∀ j < distance toU64 m i,
    m.tags ((home toU64 Size (m.keys i) + j) % totalSize Size) ≠ emptyMarker ∧
      j ≤ (m.tags ((home toU64 Size (m.keys i) + j) % totalSize Size)).toNat
  print : ∀ i < totalSize Size, m.tags i ≠ emptyMarker → m.footPrints i = footprint toU64 (m.keys i)
  distinct : ∀ i < totalSize Size, ∀ j < totalSize Size, m.tags i ≠ emptyMarker →
    m.tags j ≠ emptyMarker → m.keys i = m.keys j → i = j
  mirror : ∀ i < 16, m.tags (totalSize Size + i) = m.tags i ∧
    m.footPrints (totalSize Size + i) = m.footPrints i ∧
    m.keys (totalSize Size + i) = m.keys i ∧ m.data (totalSize Size + i) = m.data i

/-- The table contains the pair. -/
def Has (m : FlatHashMap K V Size) (k : K) (v : V) : Prop :=
  ∃ i < totalSize Size, m.tags i ≠ emptyMarker ∧ m.keys i = k ∧ m.data i = v

end

section
variable {K V : Type} {e : Nat} {toU64 : K → UInt64} {m m' : FlatHashMap K V (2 ^ e)}
  {f : K → Option V}

theorem has_iff_stored {k : K} {v : V} : m.Has k v ↔ Stored (totalSize (2 ^ e))
    (entryAt m) k v := by
  constructor
  · rintro ⟨i, hi, hE, hk, hv⟩
    exact ⟨i, hi, _, entryAt_of_ne hi hE, hk, hv⟩
  · rintro ⟨i, hi, x, hx, hk, hv⟩
    obtain ⟨-, hE, -, hkey, hval⟩ := entryAt_eq_some hx
    exact ⟨i, hi, hE, hkey.trans hk, hval.trans hv⟩

theorem home_add_distance {i : Nat} (hi : i < totalSize (2 ^ e)) :
    (home toU64 (2 ^ e) (m.keys i) + distance toU64 m i) % totalSize (2 ^ e) = i := by
  obtain ⟨-, hb⟩ := home_bound toU64 e (m.keys i)
  rw [distance, Nat.add_mod_mod, show home toU64 (2 ^ e) (m.keys i) +
    (i + (totalSize (2 ^ e) - home toU64 (2 ^ e) (m.keys i))) = i + totalSize (2 ^ e) by omega,
    Nat.add_mod_right, Nat.mod_eq_of_lt hi]

theorem distance_lt (i : Nat) : distance toU64 m i < totalSize (2 ^ e) :=
  Nat.mod_lt _ (by have := le_totalSize e; omega)

/-- The padding group mirrors the first one. -/
def Mirrored (m : FlatHashMap K V (2 ^ e)) : Prop :=
  ∀ i < 16, m.tags (totalSize (2 ^ e) + i) = m.tags i ∧
    m.footPrints (totalSize (2 ^ e) + i) = m.footPrints i ∧
    m.keys (totalSize (2 ^ e) + i) = m.keys i ∧ m.data (totalSize (2 ^ e) + i) = m.data i

/-- A well-formed table holds a map, as the other proofs have it. -/
theorem WellFormed.exists_good (h : WellFormed toU64 m) : ∃ f, Good toU64 m f := by
  have hunique : ∀ i < totalSize (2 ^ e), ∀ j < totalSize (2 ^ e), ∀ x y, entryAt m i = some x →
      entryAt m j = some y → x.key = y.key → i = j := by
    intro i hi j hj x y hx hy hk
    obtain ⟨-, hE, -, hkx, -⟩ := entryAt_eq_some hx
    obtain ⟨-, hE', -, hky, -⟩ := entryAt_eq_some hy
    exact h.distinct i hi j hj hE hE' (by rw [hkx, hky, hk])
  have hvalid : Valid (totalSize (2 ^ e)) (home toU64 (2 ^ e)) (entryAt m) := by
    refine Valid.of_chain ?_ ?_ hunique
    · intro i hi x hx
      obtain ⟨-, hE, htag, hk, -⟩ := entryAt_eq_some hx
      have hd : x.dib = distance toU64 m i := htag.symm.trans (h.tag i hi hE)
      rw [At, hd, ← hk]
      exact ⟨distance_lt i, home_add_distance hi⟩
    · intro i hi x hx j hj
      obtain ⟨-, hE, htag, hk, -⟩ := entryAt_eq_some hx
      rw [← htag, h.tag i hi hE] at hj
      obtain ⟨htaken, hfar⟩ := h.between i hi hE j hj
      rw [← hk]
      have hle := le_totalSize e
      exact ⟨_, entryAt_of_ne (Nat.mod_lt _ (by omega)) htaken, hfar⟩
  obtain ⟨f, hf⟩ := exists_contents hunique
  refine ⟨f, ⟨fun i hi => (h.mirror i hi).1, fun i hi hE => ?_, h.print⟩, hvalid, hf⟩
  rw [h.tag i hi hE]
  exact h.near i hi hE

theorem Good.wellFormed (h : Good toU64 m f) (hm : Mirrored m) : WellFormed toU64 m := by
  have hexact := h.exact
  have htag : ∀ i < totalSize (2 ^ e), m.tags i ≠ emptyMarker →
      (m.tags i).toNat = distance toU64 m i := fun i hi hE => by
    rw [hexact.tag i hi hE, toNat_ofNat_of_lt (hexact.near i hi hE)]
  refine ⟨htag, hexact.near, fun i hi hE j hj => ?_, h.coherent.print,
    fun i hi j hj hE hE' hk => ?_, hm⟩
  · rw [← htag i hi hE] at hj
    obtain ⟨x, hx, hfar⟩ := h.valid.chain hi (entryAt_of_ne hi hE) j hj.le
    obtain ⟨-, hE', htag', -, -⟩ := entryAt_eq_some hx
    exact ⟨hE', by rw [htag']; exact hfar⟩
  · exact h.valid.unique i hi j hj _ _ (entryAt_of_ne hi hE) (entryAt_of_ne hj hE') hk

theorem Mirrored.write (h : Mirrored m) {idx : Nat} (hidx : idx < totalSize (2 ^ e)) (dib : Nat)
    (key : K) (val : V) : Mirrored (m.paddingSafeWrite toU64 idx dib key val) := by
  have hN := le_totalSize e
  have hsize : 2 ^ e * 16 = totalSize (2 ^ e) := (totalSize_eq _).symm
  intro i hi
  have htags := mirror_update hN hidx (UInt8.ofNat dib) (fun i hi => (h i hi).1) i hi
  have hprints := mirror_update hN hidx (footprint toU64 key) (fun i hi => (h i hi).2.1) i hi
  have hkeys := mirror_update hN hidx key (fun i hi => (h i hi).2.2.1) i hi
  have hdata := mirror_update hN hidx val (fun i hi => (h i hi).2.2.2) i hi
  simp only [paddingSafeWrite, hsize]
  split
  · next h16 =>
    simp only [if_pos h16] at htags hprints hkeys hdata
    exact ⟨htags, hprints, hkeys, hdata⟩
  · next h16 =>
    simp only [if_neg h16] at htags hprints hkeys hdata
    exact ⟨htags, hprints, hkeys, hdata⟩

theorem Mirrored.shiftLoop [Inhabited K] [Inhabited V] :
    ∀ {fuel idx : Nat} {m : FlatHashMap K V (2 ^ e)}, Mirrored m → idx < totalSize (2 ^ e) →
    shiftLoop toU64 fuel m idx = .ok m' → Mirrored m'
  | 0, _, _, _, _, hs => by cases hs
  | fuel + 1, idx, m, h, hidx, hs => by
    rw [FlatHashMap.shiftLoop] at hs
    split at hs
    · cases hs
      exact h.write hidx _ _ _
    · refine (h.write hidx _ _ _).shiftLoop ?_ hs
      rw [wrap_eq]
      exact Nat.mod_lt _ (by omega)

theorem Mirrored.deleteNode [DecidableEq K] [Inhabited K] [Inhabited V] (h : Mirrored m) {key : K}
    (hd : m.deleteNode toU64 key = .ok m') : Mirrored m' := by
  unfold FlatHashMap.deleteNode at hd
  split at hd
  · cases hd
    exact h
  · next hfind =>
    obtain ⟨-, hb⟩ := home_bound toU64 e key
    exact h.shiftLoop (findLoop_some (by omega) hfind).1 hd

/-- **`DeleteNode`** on any well-formed table with a free slot: it returns, the table is well formed
again, and contains the pairs it contained, without the one of the key. -/
theorem deleteNode_wellFormed [DecidableEq K] [Inhabited K] [Inhabited V] (h : WellFormed toU64 m)
    {free : Nat} (hlt : free < totalSize (2 ^ e)) (hfree : m.tags free = emptyMarker) (key : K) :
    ∃ m', m.deleteNode toU64 key = .ok m' ∧ WellFormed toU64 m' ∧
      ∀ k v, m'.Has k v ↔ m.Has k v ∧ k ≠ key := by
  obtain ⟨f, hgood⟩ := h.exists_good
  obtain ⟨m', hdelete, hgood'⟩ := deleteNode_good hgood key hlt hfree
  refine ⟨m', hdelete, hgood'.wellFormed (Mirrored.deleteNode h.mirror hdelete), fun k v => ?_⟩
  rw [has_iff_stored, has_iff_stored, ← hgood'.contents k v, ← hgood.contents k v]
  by_cases hk : k = key
  · simp [hk]
  · simp [hk]

end

/-- Twenty keys of the second of two buckets: the last four have gone around the end of the table.
-/
def wrappedTable : FlatHashMap UInt64 Nat (2 ^ 1) :=
  (List.range 20).foldl
    (fun m i => m.paddingSafeWrite id ((16 + i) % 32) i (UInt64.ofNat (2 * i + 1)) i) new

/-- Deleting the first of them moves the other nineteen up. -/
theorem deleteNode_wrappedTable : ∃ m', wrappedTable.deleteNode id 1 = .ok m' ∧ WellFormed id m' ∧
    (∀ k v, m'.Has k v ↔ wrappedTable.Has k v ∧ k ≠ 1) ∧
    (m'.tags 31, m'.keys 31, m'.tags 2, m'.keys 2, m'.keys 34, m'.tags 3) =
      (15, 33, 18, 39, 39, emptyMarker) := by
  have hwell : WellFormed id wrappedTable :=
    ⟨by decide +kernel, by decide +kernel, by decide +kernel, by decide +kernel, by decide +kernel,
      by decide +kernel⟩
  obtain ⟨m', hdelete, hwell', hhas⟩ :=
    deleteNode_wellFormed hwell (show 4 < totalSize (2 ^ 1) by decide) (by decide +kernel) 1
  have hslots : (wrappedTable.deleteNode id 1).map (fun m =>
      (m.tags 31, m.keys 31, m.tags 2, m.keys 2, m.keys 34, m.tags 3)) =
      .ok (15, 33, 18, 39, 39, emptyMarker) := by decide +kernel
  rw [hdelete] at hslots
  exact ⟨m', hdelete, hwell', hhas, Except.ok.inj hslots⟩

end Naoto.FlatHashMap
