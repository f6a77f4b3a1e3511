import NaotoExchange.Common.Proof.FlatHashMap

/-!
# Insertion

`AddNode` flies an entry through the table (`RobinHood.Flight`); `Airborne c gap f` is what its
loops keep. A free slot is `gap` slots ahead of the cursor, which bounds the loops. A cursor passes
taken slots (`Airborne.pass`), comes down on a free one (`Airborne.land`) or changes places with an
entry nearer to home (`Airborne.swap`); the slot-by-slot loops do this one slot at a time, the
vector code up to 16 at a time.

One branch of the vector code passes over a group without looking at it: when its first slot is
taken by an entry nearer to home (`Cursor.skips`). `addNode_good` is about insertions that do not
take it and in which no entry gets 128 slots away from home.
-/

namespace Naoto

namespace FlatHashMap

open RobinHood

/-- The entry the cursor carries is on a flight that will leave the map `f`. -/
structure Airborne {K V : Type} {e : Nat} (toU64 : K → UInt64) (c : Cursor K V (2 ^ e)) (gap : Nat)
    (f : K → Option V) : Prop where
  coherent : Coherent toU64 c.map
  idx : c.idx ≤ totalSize (2 ^ e)
  flight : Flight (totalSize (2 ^ e)) (home toU64 (2 ^ e)) (entryAt c.map)
    (c.idx % totalSize (2 ^ e)) ⟨c.dib, c.key, c.val⟩ gap f
  near : c.dib ≤ 128

section
variable {K V : Type} {e : Nat} {toU64 : K → UInt64} {c : Cursor K V (2 ^ e)} {gap : Nat}
  {f : K → Option V}

/-- The carried entry's distance and the cursor's slot agree modulo 16. -/
theorem Airborne.mod_eq (h : Airborne toU64 c gap f) : c.dib % 16 = c.idx % 16 := by
  have h1 : (home toU64 (2 ^ e) c.key + c.dib) % totalSize (2 ^ e) = c.idx % totalSize (2 ^ e) :=
    h.flight.place
  have h2 := congrArg (· % 16) h1
  simp only [mod_totalSize_mod] at h2
  obtain ⟨h3, -⟩ := home_bound toU64 e c.key
  omega

/-- Between groups the carried entry is less than 128 slots away from home. -/
theorem Airborne.lt_of_unaligned (h : Airborne toU64 c gap f) (h16 : c.idx % 16 ≠ 0) :
    c.dib < 128 := by
  have h1 := h.near
  have h2 := h.mod_eq
  omega

theorem Airborne.dib_lt (h : Airborne toU64 c gap f) : c.dib < totalSize (2 ^ e) :=
  Nat.lt_of_le_of_lt (Nat.le_add_right _ _) h.flight.room

/-- **Passing** taken slots. -/
theorem Airborne.pass (h : Airborne toU64 c gap f) {n idx : Nat}
    (hpass : ∀ i < n, ∃ x, entryAt c.map ((c.idx + i) % totalSize (2 ^ e)) = some x ∧
      c.dib + i ≤ x.dib) (hn : c.dib + n ≤ 128) (hidx : idx ≤ totalSize (2 ^ e))
    (hmod : idx % totalSize (2 ^ e) = (c.idx + n) % totalSize (2 ^ e)) :
    ∃ g, gap = g + n ∧ Airborne toU64 (c.advance idx n) g f := by
  obtain ⟨g, hg, hf⟩ := h.flight.pass_many n fun i hi => by
    rw [Nat.mod_add_mod]
    exact hpass i hi
  rw [Nat.mod_add_mod, ← hmod] at hf
  exact ⟨g, hg, h.coherent, hidx, hf, hn⟩

/-- **Landing** on a free slot. -/
theorem Airborne.land (h : Airborne toU64 c gap f) (hlt : c.idx < totalSize (2 ^ e))
    (hd : c.dib < 128) (hE : c.map.tags c.idx = emptyMarker) :
    Good toU64 (c.place toU64 c.idx c.dib) f := by
  have hle := le_totalSize e
  have hf := h.flight
  rw [Nat.mod_eq_of_lt hlt] at hf
  obtain ⟨hv, hc⟩ := hf.put (by omega) ((entryAt_eq_none hlt).2 hE)
  refine ⟨h.coherent.write toU64 hlt (by omega) _ _, ?_, ?_⟩
  · rw [Cursor.place, entryAt_write toU64 hlt hd]
    exact hv
  · rw [Cursor.place, entryAt_write toU64 hlt hd]
    exact hc

/-- **Changing places** with an entry nearer to home. -/
theorem Airborne.swap (h : Airborne toU64 c gap f) (hlt : c.idx < totalSize (2 ^ e))
    (hd : c.dib < 128) (hE : c.map.tags c.idx ≠ emptyMarker)
    (hnear : (c.map.tags c.idx).toNat < c.dib) {idx : Nat} (hidx : idx ≤ totalSize (2 ^ e))
    (hmod : idx % totalSize (2 ^ e) = (c.idx + 1) % totalSize (2 ^ e)) :
    ∃ g, gap = g + 1 ∧ Airborne toU64 ((c.swap toU64 c.idx c.dib).advance idx 1) g f := by
  have hle := le_totalSize e
  have hf := h.flight
  rw [Nat.mod_eq_of_lt hlt] at hf
  obtain ⟨g, hg, hf'⟩ := hf.swap (by omega) (entryAt_of_ne hlt hE) hnear
  refine ⟨g, hg, h.coherent.write toU64 hlt (by omega) _ _, hidx, ?_, ?_⟩
  · show Flight _ _ (entryAt (c.map.paddingSafeWrite toU64 c.idx c.dib c.key c.val))
      (idx % totalSize (2 ^ e)) _ g f
    rw [entryAt_write toU64 hlt hd, hmod]
    exact hf'
  · show (c.map.tags c.idx).toNat + 1 ≤ 128
    omega

/-! ## Slot by slot -/

theorem Airborne.slot (h : Airborne toU64 c gap f) (hlt : c.idx < totalSize (2 ^ e))
    (hd : c.dib < 128) :
    (∃ m, c.slot toU64 = .inl m ∧ Good toU64 m f) ∨
    ∃ c' g, c.slot toU64 = .inr c' ∧ c'.idx = c.idx ∧ gap = g + 1 ∧
      ∀ idx, idx ≤ totalSize (2 ^ e) → idx % totalSize (2 ^ e) = (c.idx + 1) % totalSize (2 ^ e) →
        Airborne toU64 (c'.advance idx 1) g f := by
  unfold Cursor.slot
  by_cases hE : c.map.tags c.idx = emptyMarker
  · rw [if_pos hE]
    exact .inl ⟨_, rfl, h.land hlt hd hE⟩
  rw [if_neg hE]
  have hgap : ∃ g, gap = g + 1 := by
    have hf := h.flight
    rw [Nat.mod_eq_of_lt hlt] at hf
    exact hf.gap_pos (entryAt_of_ne hlt hE)
  obtain ⟨g, rfl⟩ := hgap
  by_cases hn : (c.map.tags c.idx).toNat < c.dib
  · rw [if_pos hn]
    refine .inr ⟨_, g, rfl, rfl, rfl, fun idx hidx hmod => ?_⟩
    obtain ⟨g', hg', ha⟩ := h.swap hlt hd hE hn hidx hmod
    obtain rfl : g = g' := by omega
    exact ha
  · rw [if_neg hn]
    refine .inr ⟨_, g, rfl, rfl, rfl, fun idx hidx hmod => ?_⟩
    obtain ⟨g', hg', ha⟩ := h.pass (n := 1) (fun i hi => by
      obtain rfl : i = 0 := by omega
      rw [Nat.add_zero, Nat.mod_eq_of_lt hlt]
      exact ⟨_, entryAt_of_ne hlt hE, by show c.dib + 0 ≤ (c.map.tags c.idx).toNat; omega⟩)
      (by omega) hidx hmod
    obtain rfl : g = g' := by omega
    exact ha

/-- In its home bucket an entry finds no entry nearer to home. -/
theorem Airborne.slot_home (h : Airborne toU64 c gap f) (hlt : c.idx < totalSize (2 ^ e))
    (hd : c.dib < 16) {c' : Cursor K V (2 ^ e)} (hs : c.slot toU64 = .inr c') : c' = c := by
  unfold Cursor.slot at hs
  split at hs
  · cases hs
  · next hE =>
    split at hs
    · next hn =>
      -- both distances are the slot's number in its bucket, modulo 16
      have hpl : (home toU64 (2 ^ e) (c.map.keys c.idx) + (c.map.tags c.idx).toNat) %
          totalSize (2 ^ e) = c.idx := (h.flight.valid.place c.idx hlt _ (entryAt_of_ne hlt hE)).2
      have h2 := congrArg (· % 16) hpl
      simp only [mod_totalSize_mod] at h2
      obtain ⟨h3, -⟩ := home_bound toU64 e (c.map.keys c.idx)
      have h4 := h.mod_eq
      omega
    · exact (Sum.inr.injEq .. ▸ hs).symm

/-- **The first loop** ends with the entry in its home bucket, or carried to the next group. -/
theorem homeLoop_good : ∀ (fuel : Nat) {c : Cursor K V (2 ^ e)} {gap : Nat},
    Airborne toU64 c gap f → c.idx = home toU64 (2 ^ e) c.key + c.dib → c.dib ≤ 16 →
    17 ≤ c.dib + fuel →
    (∃ m, homeLoop toU64 fuel c = .ok (.inl m) ∧ Good toU64 m f) ∨
    ∃ c' g, homeLoop toU64 fuel c = .ok (.inr c') ∧ g ≤ gap ∧ Airborne toU64 c' g f
  | 0, c, gap, _, _, h16, hf => by omega
  | fuel + 1, c, gap, h, hidx, h16, hf => by
    obtain ⟨-, hb⟩ := home_bound toU64 e c.key
    unfold homeLoop
    by_cases hd : c.dib < 16
    · rw [if_pos hd]
      rcases h.slot (by omega) (by omega) with ⟨m, hs, hm⟩ | ⟨c', g, hs, hi, rfl, ha⟩
      · rw [hs]
        exact .inl ⟨m, rfl, hm⟩
      · rw [hs]
        obtain rfl := h.slot_home (by omega) hd hs
        rcases homeLoop_good fuel (ha (c'.idx + 1) (by omega) rfl)
          (by show c'.idx + 1 = home toU64 (2 ^ e) c'.key + (c'.dib + 1); omega)
          (by show c'.dib + 1 ≤ 16; omega) (by show 17 ≤ c'.dib + 1 + fuel; omega) with
          hm | ⟨c₂, g₂, h2, hg, ha₂⟩
        · exact .inl hm
        · exact .inr ⟨c₂, g₂, h2, by omega, ha₂⟩
    · rw [if_neg hd]
      exact .inr ⟨c, gap, rfl, Nat.le_refl _, h⟩

/-- **The loop to the next group.** -/
theorem alignLoop_good : ∀ (fuel : Nat) {c : Cursor K V (2 ^ e)} {gap : Nat},
    Airborne toU64 c gap f → (16 - c.idx % 16) % 16 < fuel →
    (∃ m, alignLoop toU64 fuel c = .ok (.inl m) ∧ Good toU64 m f) ∨
    ∃ c' g, alignLoop toU64 fuel c = .ok (.inr c') ∧ g ≤ gap ∧ c'.idx % 16 = 0 ∧
      Airborne toU64 c' g f
  | 0, c, gap, _, hf => by omega
  | fuel + 1, c, gap, h, hf => by
    have hN := totalSize_eq (2 ^ e)
    have hand : c.idx &&& 15 = c.idx % 16 := Nat.and_two_pow_sub_one_eq_mod c.idx 4
    unfold alignLoop
    rw [hand]
    by_cases h16 : c.idx % 16 = 0
    · rw [if_neg (by omega)]
      exact .inr ⟨c, gap, rfl, Nat.le_refl _, h16, h⟩
    · rw [if_pos h16]
      have hidx := h.idx
      have hlt : c.idx < totalSize (2 ^ e) := by omega
      rcases h.slot hlt (h.lt_of_unaligned h16) with ⟨m, hs, hm⟩ | ⟨c', g, hs, hi, rfl, ha⟩
      · rw [hs]
        exact .inl ⟨m, rfl, hm⟩
      · rw [hs]
        simp only
        rw [hi, wrap_eq]
        have hmod : (c.idx + 1) % totalSize (2 ^ e) % 16 = (c.idx + 1) % 16 := mod_totalSize_mod _ _
        rcases alignLoop_good fuel (ha ((c.idx + 1) % totalSize (2 ^ e))
          (Nat.le_of_lt (Nat.mod_lt _ (by omega))) (Nat.mod_mod _ _))
          (by show (16 - (c.idx + 1) % totalSize (2 ^ e) % 16) % 16 < fuel; omega) with
          hm | ⟨c₂, g₂, h2, hg, h16', ha₂⟩
        · exact .inl hm
        · exact .inr ⟨c₂, g₂, h2, by omega, h16', ha₂⟩

/-! ## Group by group -/

/-- A lane in front of the first available one is passed. -/
theorem Airborne.lane_passed (h : Airborne toU64 c gap f) (h16 : c.idx % 16 = 0) (hd : c.dib < 128)
    {i : Nat} (hi : i < c.firstAvailable) :
    ∃ x, entryAt c.map ((c.idx + i) % totalSize (2 ^ e)) = some x ∧ c.dib + i ≤ x.dib := by
  have h1 : c.firstAvailable ≤ 16 := firstLane_le _
  have h2 := h.mod_eq
  exact (h.coherent.isStop_eq_false h.idx h16 (by omega) (by omega)).1 (firstLane_false hi)

/-- The first available lane is free, or its entry is nearer to home if the signed comparison is one
of distances. -/
theorem Coherent.lane_available (h : Coherent toU64 c.map) (hidx : c.idx ≤ totalSize (2 ^ e))
    (h16 : c.idx % 16 = 0) (hlane : c.firstAvailable < 16) :
    c.firstFree = c.firstAvailable ∧
      c.map.tags ((c.idx + c.firstAvailable) % totalSize (2 ^ e)) = emptyMarker ∨
    c.firstFree ≠ c.firstAvailable ∧
      c.map.tags ((c.idx + c.firstAvailable) % totalSize (2 ^ e)) ≠ emptyMarker ∧
      (c.dib + c.firstAvailable < 128 →
        (c.map.tags ((c.idx + c.firstAvailable) % totalSize (2 ^ e))).toNat <
          c.dib + c.firstAvailable) := by
  have hle := le_totalSize e
  have hlt := Nat.mod_lt (c.idx + c.firstAvailable) (show 0 < totalSize (2 ^ e) by omega)
  have hl := Coherent.lane h.mirror hidx h16 hlane
  by_cases hE : c.map.tags ((c.idx + c.firstAvailable) % totalSize (2 ^ e)) = emptyMarker
  · refine .inl ⟨firstLane_eq hlane (by rw [hl, hE]; rfl) fun j hj => ?_, hE⟩
    have := tags_ne_of_isStop (firstLane_false hj)
    simpa using this
  · refine .inr ⟨fun hf => ?_, hE, fun hd => ?_⟩
    · have hfree : c.firstFree < 16 := by omega
      have := firstLane_true hfree
      simp only [beq_iff_eq] at this
      rw [show firstLane (fun i => c.map.tags (c.idx + i) == emptyMarker) = c.firstFree from
        rfl, hf, hl] at this
      exact hE this
    · -- otherwise the lane would not be available
      by_contra hge
      have hstop := (h.isStop_eq_false hidx h16 hlane hd).2
        ⟨_, entryAt_of_ne hlt hE, Nat.le_of_not_lt hge⟩
      have := firstLane_true hlane
      rw [show firstLane (c.map.isStop c.idx c.dib) = c.firstAvailable from rfl, hstop] at this
      cases this

theorem Airborne.lane_available (h : Airborne toU64 c gap f) (h16 : c.idx % 16 = 0)
    (hd : c.dib < 128) (hlane : c.firstAvailable < 16) :
    c.firstFree = c.firstAvailable ∧
      c.map.tags ((c.idx + c.firstAvailable) % totalSize (2 ^ e)) = emptyMarker ∨
    c.firstFree ≠ c.firstAvailable ∧
      c.map.tags ((c.idx + c.firstAvailable) % totalSize (2 ^ e)) ≠ emptyMarker ∧
      (c.map.tags ((c.idx + c.firstAvailable) % totalSize (2 ^ e))).toNat <
        c.dib + c.firstAvailable := by
  have hmod := h.mod_eq
  rcases h.coherent.lane_available h.idx h16 hlane with hfree | ⟨hf, hE, hnear⟩
  · exact .inl hfree
  · exact .inr ⟨hf, hE, hnear (by omega)⟩

/-- **One group** that is not skipped. -/
theorem Airborne.group (h : Airborne toU64 c gap f) (h16 : c.idx % 16 = 0) (hd : c.dib < 128)
    (hskip : c.skips = false) :
    (∃ m, c.group toU64 = .inl m ∧ Good toU64 m f) ∨
    ∃ c' g, c.group toU64 = .inr c' ∧ g < gap ∧ Airborne toU64 c' g f := by
  have hle := le_totalSize e
  have hmod := h.mod_eq
  have h1 : c.firstAvailable ≤ 16 := firstLane_le _
  have hwrap : ∀ i, wrap (2 ^ e) i < totalSize (2 ^ e) := fun i => by
    rw [wrap_eq]
    exact Nat.mod_lt _ (by omega)
  have hwmod : ∀ i, wrap (2 ^ e) i % totalSize (2 ^ e) = i % totalSize (2 ^ e) := fun i => by
    rw [wrap_eq, Nat.mod_mod]
  unfold Cursor.group
  simp only
  by_cases hall : c.firstAvailable = 16
  · rw [if_pos hall]
    obtain ⟨g, hg, ha⟩ := h.pass (n := 16) (fun i hi => h.lane_passed h16 hd (by omega)) (by omega)
      (Nat.le_of_lt (hwrap _)) (hwmod _)
    exact .inr ⟨_, g, rfl, by omega, ha⟩
  rw [if_neg hall]
  -- the cursor over the first available lane
  obtain ⟨g, hg, ha⟩ := h.pass (n := c.firstAvailable) (fun i hi => h.lane_passed h16 hd hi)
    (by omega) (Nat.le_of_lt (hwrap _)) (hwmod _)
  have hda : (c.advance (wrap (2 ^ e) (c.idx + c.firstAvailable)) c.firstAvailable).dib < 128 := by
    show c.dib + c.firstAvailable < 128
    omega
  rcases h.lane_available h16 hd (by omega) with ⟨hf, hE⟩ | ⟨hf, hE, hnear⟩
  · rw [if_pos hf]
    refine .inl ⟨_, rfl, ha.land (hwrap _) hda ?_⟩
    show c.map.tags (wrap (2 ^ e) (c.idx + c.firstAvailable)) = emptyMarker
    rw [wrap_eq]
    exact hE
  · rw [if_neg hf]
    by_cases h0 : c.firstAvailable = 0
    · -- the skipped group
      rw [h0] at hf
      simp [Cursor.skips, h0, hf] at hskip
    · rw [if_pos h0]
      rw [← wrap_eq] at hE hnear
      obtain ⟨g', hg', ha'⟩ := ha.swap (hwrap _) hda hE hnear (Nat.le_of_lt (hwrap _)) (hwmod _)
      exact .inr ⟨_, g', rfl, by omega, ha'⟩

/-- **The second loop.** -/
theorem groupLoop_good (fuel : Nat) (h : Airborne toU64 c gap f) (hf : gap < fuel)
    (harr : ∀ a ∈ groupArrivals toU64 fuel c, a.dib < 128 ∧ a.skips = false) :
    ∃ m, groupLoop toU64 fuel c = .ok m ∧ Good toU64 m f := by
  induction fuel generalizing c gap with
  | zero => omega
  | succ fuel ih =>
    rw [groupArrivals, if_pos h.dib_lt] at harr
    rw [groupLoop, if_pos h.dib_lt]
    rcases alignLoop_good 16 h (Nat.mod_lt _ (by decide))
      with ⟨m, hl, hm⟩ | ⟨c', g, hl, hg, h16, ha⟩
    · simp only [hl]
      exact ⟨m, rfl, hm⟩
    · simp only [hl] at harr ⊢
      obtain ⟨hd, hskip⟩ := harr c' List.mem_cons_self
      rcases ha.group h16 hd hskip with ⟨m, hgr, hm⟩ | ⟨c₂, g₂, hgr, hg₂, ha₂⟩
      · simp only [hgr]
        exact ⟨m, rfl, hm⟩
      · simp only [hgr] at harr ⊢
        have hlt : g₂ < fuel := Nat.lt_of_lt_of_le hg₂ (Nat.le_trans hg (Nat.le_of_lt_succ hf))
        exact ih ha₂ hlt fun a hmem => harr a (List.mem_cons_of_mem _ hmem)

/-- The cursor with which `AddNode` of an absent key starts, if a slot is free. -/
theorem Good.start [DecidableEq K] {m : FlatHashMap K V (2 ^ e)} (h : Good toU64 m f) {key : K}
    (val : V) (hk : f key = none) {z : Nat} (hz : z < totalSize (2 ^ e))
    (hfree : m.tags z = emptyMarker) :
    ∃ gap < totalSize (2 ^ e),
      Airborne toU64 (m.start toU64 key val) gap (Function.update f key (some val)) := by
  have hle := le_totalSize e
  obtain ⟨-, hb⟩ := home_bound toU64 e key
  obtain ⟨gap, hfl⟩ := h.valid.start h.contents val (by omega) hk hz ((entryAt_eq_none hz).2 hfree)
  have hroom := hfl.room
  refine ⟨gap, by simpa using hroom, h.coherent, by show home toU64 (2 ^ e) key ≤ _; omega, ?_,
    Nat.zero_le _⟩
  rw [show (m.start toU64 key val).idx = home toU64 (2 ^ e) key from rfl,
    Nat.mod_eq_of_lt (by omega)]
  exact hfl

theorem Good.firstLoop [DecidableEq K] {m : FlatHashMap K V (2 ^ e)} (h : Good toU64 m f) {key : K}
    (val : V) (hk : f key = none) {z : Nat} (hz : z < totalSize (2 ^ e))
    (hfree : m.tags z = emptyMarker) :
    (∃ m', homeLoop toU64 (totalSize (2 ^ e) + 1) (m.start toU64 key val) = .ok (.inl m') ∧
      Good toU64 m' (Function.update f key (some val))) ∨
    ∃ c gap, homeLoop toU64 (totalSize (2 ^ e) + 1) (m.start toU64 key val) = .ok (.inr c) ∧
      gap < totalSize (2 ^ e) + 1 ∧ Airborne toU64 c gap (Function.update f key (some val)) := by
  have hle := le_totalSize e
  obtain ⟨gap, hgap, ha⟩ := h.start val hk hz hfree
  have h0 : (m.start toU64 key val).dib = 0 := rfl
  rcases homeLoop_good (totalSize (2 ^ e) + 1) ha (by rw [h0, Nat.add_zero]; rfl)
    (by rw [h0]; omega) (by rw [h0]; omega) with hm | ⟨c, g, hl, hg, hc⟩
  · exact .inl hm
  · exact .inr ⟨c, g, hl, by omega, hc⟩

/-- **`AddNode`** of an absent key, if a slot is free. -/
theorem addNode_good [DecidableEq K] {m : FlatHashMap K V (2 ^ e)} (h : Good toU64 m f) {key : K}
    (val : V) (hk : f key = none) {z : Nat} (hz : z < totalSize (2 ^ e))
    (hfree : m.tags z = emptyMarker)
    (harr : ∀ a ∈ m.addArrivals toU64 key val, a.dib < 128 ∧ a.skips = false) :
    ∃ m', m.addNode toU64 key val = .ok m' ∧
      Good toU64 m' (Function.update f key (some val)) := by
  have hget : m.getVal toU64 key = none := (getVal_eq h key).trans hk
  unfold addArrivals at harr
  unfold addNode
  rw [hget] at harr ⊢
  simp only at harr ⊢
  rcases h.firstLoop val hk hz hfree with ⟨m', hl, hm⟩ | ⟨c, g, hl, hg, hc⟩
  · rw [hl]
    exact ⟨m', rfl, hm⟩
  · rw [hl] at harr ⊢
    exact groupLoop_good _ hc hg harr

end

end FlatHashMap

end Naoto
