import NaotoExchange.Lib.FiniteMap
import NaotoExchange.Lib.RobinHood
import NaotoExchange.Lib.Run
import NaotoExchange.Common.FlatHashMap

/-!
# The flat hash map as a Robin Hood table

`entryAt m` is the table of `RobinHood` that the four arrays hold. `Good m f`: the arrays are
coherent (the mirrored tags, the footprints, tags below the empty marker), the table is valid and
holds the map `f`. In a good state `GetVal` is `f` (`getVal_eq`).

The vector code compares bytes as signed numbers and works on groups of 16; homes are multiples of
16, so that a group's distances are all below 128 or all above.
-/

namespace Naoto

namespace FlatHashMap

open RobinHood

/-! ## Indexes -/

section
variable {K : Type} {e Size : Nat}

theorem totalSize_eq (Size : Nat) : totalSize Size = Size * 16 := by
  rw [totalSize, Nat.shiftLeft_eq]

theorem le_totalSize (e : Nat) : 16 ≤ totalSize (2 ^ e) := by
  rw [totalSize_eq]
  have := Nat.one_le_two_pow (n := e)
  omega

theorem wrap_eq (e idx : Nat) : wrap (2 ^ e) idx = idx % totalSize (2 ^ e) := by
  have : totalSize (2 ^ e) = 2 ^ (e + 4) := by
    rw [totalSize_eq, Nat.pow_add]
  rw [wrap, this, Nat.and_two_pow_sub_one_eq_mod]

theorem home_eq (toU64 : K → UInt64) (e : Nat) (key : K) :
    ∃ b < 2 ^ e, home toU64 (2 ^ e) key = b * 16 := by
  refine ⟨(hash64 toU64 key).toNat % 2 ^ e, Nat.mod_lt _ (Nat.two_pow_pos e), ?_⟩
  rw [home, Nat.and_two_pow_sub_one_eq_mod, Nat.shiftLeft_eq]

theorem home_bound (toU64 : K → UInt64) (e : Nat) (key : K) :
    home toU64 (2 ^ e) key % 16 = 0 ∧ home toU64 (2 ^ e) key + 16 ≤ totalSize (2 ^ e) := by
  obtain ⟨b, hb, h⟩ := home_eq toU64 e key
  rw [h, totalSize_eq]
  omega

theorem mod_totalSize_mod (Size idx : Nat) : idx % totalSize Size % 16 = idx % 16 := by
  rw [totalSize_eq]
  exact Nat.mod_mod_of_dvd _ (Dvd.intro_left _ rfl)

end

/-! ## Lanes -/

theorem firstLane_le (p : Nat → Bool) : firstLane p ≤ 16 := by
  unfold firstLane
  cases h : (List.range 16).find? p with
  | none => exact Nat.le_refl _
  | some i =>
    have := List.mem_range.1 (List.mem_of_find?_eq_some h)
    show i ≤ 16
    omega

theorem firstLane_true {p : Nat → Bool} (h : firstLane p < 16) : p (firstLane p) = true := by
  unfold firstLane at *
  cases hf : (List.range 16).find? p with
  | none => rw [hf] at h; simp at h
  | some i => exact List.find?_some hf

theorem firstLane_min {p : Nat → Bool} {i : Nat} (hi : i < 16) (hp : p i = true) :
    firstLane p ≤ i := by
  unfold firstLane
  cases hf : (List.range 16).find? p with
  | none => exact absurd hp (List.find?_eq_none.1 hf i (List.mem_range.2 hi))
  | some j =>
    show j ≤ i
    obtain ⟨-, as, bs, heq, hall⟩ := List.find?_eq_some_iff_append.1 hf
    by_contra hlt
    have hi' : i ∈ as := by
      have hmem : i ∈ as ++ j :: bs := by rw [← heq]; exact List.mem_range.2 hi
      have hsorted : (as ++ j :: bs).Pairwise (· < ·) := by
        rw [← heq]
        exact List.pairwise_lt_range
      rcases List.mem_append.1 hmem with h | h
      · exact h
      · rcases List.mem_cons.1 h with rfl | h
        · omega
        · have := (List.pairwise_cons.1 (List.pairwise_append.1 hsorted).2.1).1 i h
          omega
    have := hall i hi'
    rw [hp] at this
    cases this

theorem firstLane_false {p : Nat → Bool} {i : Nat} (h : i < firstLane p) : p i = false := by
  cases hp : p i with
  | false => rfl
  | true =>
    have := firstLane_min (p := p) (i := i) (by have := firstLane_le p; omega) hp
    omega

theorem firstLane_eq {p : Nat → Bool} {i : Nat} (hi : i < 16) (hp : p i = true)
    (hmin : ∀ j < i, p j = false) : firstLane p = i := by
  have h1 := firstLane_min hi hp
  rcases Nat.lt_or_ge (firstLane p) i with h2 | h2
  · have := firstLane_true (p := p) (by omega)
    rw [hmin _ h2] at this
    cases this
  · omega

theorem toNat_expectedDib (d i : Nat) : (expectedDib d i).toNat = (d + i) % 256 := by
  rw [expectedDib, UInt8.toNat_add, UInt8.toNat_ofNat', UInt8.toNat_ofNat', ← Nat.add_mod,
    Nat.add_comm]

/-- Below 128 the signed comparison is the comparison of distances. -/
theorem lessSigned_eq {a b : UInt8} (ha : a.toNat < 128) (hb : b.toNat < 128) :
    lessSigned a b = decide (a.toNat < b.toNat) := by
  have h1 : a.toBitVec.toInt = a.toNat := BitVec.toInt_eq_toNat_of_lt (by simpa using by omega)
  have h2 : b.toBitVec.toInt = b.toNat := BitVec.toInt_eq_toNat_of_lt (by simpa using by omega)
  rw [lessSigned, BitVec.slt, h1, h2]
  simp

/-! ## The table -/

section
variable {K V : Type} {e : Nat}

/-- The entries of the arrays, without the mirrored group. -/
def entryAt (m : FlatHashMap K V (2 ^ e)) : Table K V := fun i =>
  if i < totalSize (2 ^ e) ∧ m.tags i ≠ emptyMarker then
    some ⟨(m.tags i).toNat, m.keys i, m.data i⟩
  else none

variable {m : FlatHashMap K V (2 ^ e)} {i idx dib : Nat} {key : K} {val : V}

theorem entryAt_of_ne (hi : i < totalSize (2 ^ e)) (h : m.tags i ≠ emptyMarker) :
    entryAt m i = some ⟨(m.tags i).toNat, m.keys i, m.data i⟩ := if_pos ⟨hi, h⟩

theorem entryAt_eq_some {x : Entry K V} (h : entryAt m i = some x) :
    i < totalSize (2 ^ e) ∧ m.tags i ≠ emptyMarker ∧ (m.tags i).toNat = x.dib ∧ m.keys i = x.key ∧
      m.data i = x.val := by
  unfold entryAt at h
  split at h
  · next hc =>
    rw [Option.some.injEq] at h
    rw [← h]
    exact ⟨hc.1, hc.2, rfl, rfl, rfl⟩
  · cases h

theorem entryAt_eq_none (hi : i < totalSize (2 ^ e)) :
    entryAt m i = none ↔ m.tags i = emptyMarker := by
  unfold entryAt
  by_cases h : m.tags i = emptyMarker
  · simp [h]
  · simp [hi, h]

variable (toU64 : K → UInt64)

/-- What the vector code relies on: the mirrored tags, tags that are distances below 128, and
footprints of the keys. -/
structure Coherent (m : FlatHashMap K V (2 ^ e)) : Prop where
  mirror : ∀ i < 16, m.tags (totalSize (2 ^ e) + i) = m.tags i
  near : ∀ i < totalSize (2 ^ e), m.tags i ≠ emptyMarker → (m.tags i).toNat < 128
  print : ∀ i < totalSize (2 ^ e), m.tags i ≠ emptyMarker →
    m.footPrints i = footprint toU64 (m.keys i)

/-- The arrays hold the map `f`. -/
structure Good (m : FlatHashMap K V (2 ^ e)) (f : K → Option V) : Prop where
  coherent : Coherent toU64 m
  valid : Valid (totalSize (2 ^ e)) (home toU64 (2 ^ e)) (entryAt m)
  contents : Contents (totalSize (2 ^ e)) (entryAt m) f

/-! ### Writing a slot -/

/-- A write seen from the slots below the mirrored group. -/
theorem paddingSafeWrite_at (m : FlatHashMap K V (2 ^ e)) (idx dib : Nat) (key : K) (val : V)
    (hi : i < totalSize (2 ^ e)) :
    let m' := m.paddingSafeWrite toU64 idx dib key val
    m'.tags i = (if i = idx then UInt8.ofNat dib else m.tags i) ∧
    m'.keys i = (if i = idx then key else m.keys i) ∧
    m'.data i = (if i = idx then val else m.data i) ∧
    m'.footPrints i = if i = idx then footprint toU64 key else m.footPrints i := by
  have hne : i ≠ 2 ^ e * 16 + idx := by
    rw [totalSize_eq] at hi
    omega
  simp only [paddingSafeWrite]
  split
  · simp only [write, Function.update_of_ne hne, Function.update_apply]
    trivial
  · simp only [write, Function.update_apply]
    trivial

/-- An array that is written at a slot and at its mirror. -/
theorem mirror_update {α : Type} {a : Nat → α} {N idx : Nat} (hN : 16 ≤ N) (hidx : idx < N) (x : α)
    (h : ∀ i < 16, a (N + i) = a i) :
    ∀ i < 16, (if idx < 16 then Function.update (Function.update a idx x) (N + idx) x
        else Function.update a idx x) (N + i) =
      (if idx < 16 then Function.update (Function.update a idx x) (N + idx) x
        else Function.update a idx x) i := by
  intro i hi
  split
  · simp only [Function.update_apply, Nat.add_left_cancel_iff]
    by_cases he : i = idx
    · simp [he]
    · rw [if_neg he, if_neg (by omega), if_neg (by omega), if_neg he, h i hi]
  · rw [Function.update_of_ne (by omega), Function.update_of_ne (by omega), h i hi]

theorem paddingSafeWrite_mirror (hidx : idx < totalSize (2 ^ e)) (dib : Nat) (key : K) (val : V)
    (h : ∀ i < 16, m.tags (totalSize (2 ^ e) + i) = m.tags i) :
    ∀ i < 16, (m.paddingSafeWrite toU64 idx dib key val).tags (totalSize (2 ^ e) + i) =
      (m.paddingSafeWrite toU64 idx dib key val).tags i := by
  intro i hi
  have hsize : 2 ^ e * 16 = totalSize (2 ^ e) := (totalSize_eq _).symm
  have htags := mirror_update (le_totalSize e) hidx (UInt8.ofNat dib) h i hi
  simp only [paddingSafeWrite, hsize]
  split
  · next h16 =>
    rw [if_pos h16] at htags
    exact htags
  · next h16 =>
    rw [if_neg h16] at htags
    exact htags

theorem toNat_ofNat_of_lt (h : dib < 128) : (UInt8.ofNat dib).toNat = dib := by
  rw [UInt8.toNat_ofNat', Nat.mod_eq_of_lt (by omega)]

theorem ofNat_ne_emptyMarker (h : dib < 128) : UInt8.ofNat dib ≠ emptyMarker := by
  intro he
  have := congrArg UInt8.toNat he
  rw [toNat_ofNat_of_lt h] at this
  have h128 : emptyMarker.toNat = 128 := rfl
  omega

/-- **Writing an entry.** -/
theorem entryAt_write (hidx : idx < totalSize (2 ^ e)) (hd : dib < 128) :
    entryAt (m.paddingSafeWrite toU64 idx dib key val) =
      Function.update (entryAt m) idx (some ⟨dib, key, val⟩) := by
  funext i
  by_cases hi : i < totalSize (2 ^ e)
  · obtain ⟨ht, hk, hv, -⟩ := paddingSafeWrite_at toU64 m idx dib key val hi
    by_cases he : i = idx
    · subst he
      rw [if_pos rfl] at ht hk hv
      rw [Function.update_self, entryAt_of_ne hi (by rw [ht]; exact ofNat_ne_emptyMarker hd), ht,
        hk, hv, toNat_ofNat_of_lt hd]
    · rw [if_neg he] at ht hk hv
      rw [Function.update_of_ne he]
      simp only [entryAt, ht, hk, hv]
  · rw [Function.update_of_ne (by omega)]
    simp [entryAt, hi]

/-- **Clearing a slot.** -/
theorem entryAt_clear [Inhabited K] [Inhabited V] (hidx : idx < totalSize (2 ^ e)) :
    entryAt (m.paddingSafeWrite toU64 idx emptyMarker.toNat default default) =
      Function.update (entryAt m) idx none := by
  funext i
  by_cases hi : i < totalSize (2 ^ e)
  · obtain ⟨ht, hk, hv, -⟩ := paddingSafeWrite_at toU64 m idx emptyMarker.toNat (default : K)
      (default : V) hi
    by_cases he : i = idx
    · subst he
      rw [if_pos rfl] at ht
      rw [Function.update_self, entryAt_eq_none hi, ht]
      rfl
    · rw [if_neg he] at ht hk hv
      rw [Function.update_of_ne he]
      simp only [entryAt, ht, hk, hv]
  · rw [Function.update_of_ne (by omega)]
    simp [entryAt, hi]

/-- A write of a distance below 128, or of the empty marker, keeps the arrays coherent. -/
theorem Coherent.write (h : Coherent toU64 m) (hidx : idx < totalSize (2 ^ e)) (hd : dib ≤ 128)
    (key : K) (val : V) : Coherent toU64 (m.paddingSafeWrite toU64 idx dib key val) where
  mirror := paddingSafeWrite_mirror toU64 hidx dib key val h.mirror
  near := by
    intro i hi hne
    rw [(paddingSafeWrite_at toU64 m idx dib key val hi).1] at hne ⊢
    split at hne
    · rcases Nat.lt_or_ge dib 128 with hlt | hge
      · rw [if_pos ‹_›, toNat_ofNat_of_lt hlt]
        exact hlt
      · obtain rfl : dib = 128 := by omega
        exact absurd rfl hne
    · rw [if_neg ‹_›]
      exact h.near i hi hne
  print := by
    intro i hi hne
    obtain ⟨ht, hk, -, hf⟩ := paddingSafeWrite_at toU64 m idx dib key val hi
    rw [ht] at hne
    rw [hk, hf]
    split at hne
    · rw [if_pos ‹_›, if_pos ‹_›]
    · rw [if_neg ‹_›, if_neg ‹_›]
      exact h.print i hi hne

/-! ### A group -/

section
variable {toU64 : K → UInt64}

/-- A lane of a group is a slot, also for the mirrored group. -/
theorem Coherent.lane (h : ∀ i < 16, m.tags (totalSize (2 ^ e) + i) = m.tags i)
    (hidx : idx ≤ totalSize (2 ^ e)) (h16 : idx % 16 = 0) (hi : i < 16) :
    m.tags (idx + i) = m.tags ((idx + i) % totalSize (2 ^ e)) := by
  have hN := totalSize_eq (2 ^ e)
  have hle := le_totalSize e
  rcases Nat.lt_or_ge idx (totalSize (2 ^ e)) with hlt | hge
  · rw [Nat.mod_eq_of_lt (by omega)]
  · obtain rfl : idx = totalSize (2 ^ e) := by omega
    rw [Nat.add_mod_left, Nat.mod_eq_of_lt (by omega), h i hi]

/-- A lane ends a search unless its entry is far enough from home. -/
theorem Coherent.isStop_eq_false (h : Coherent toU64 m) (hidx : idx ≤ totalSize (2 ^ e))
    (h16 : idx % 16 = 0) (hi : i < 16) (hd : dib + i < 128) :
    m.isStop idx dib i = false ↔
      ∃ x, entryAt m ((idx + i) % totalSize (2 ^ e)) = some x ∧ dib + i ≤ x.dib := by
  have hle := le_totalSize e
  have hlt := Nat.mod_lt (idx + i) (show 0 < totalSize (2 ^ e) by omega)
  have hexp : (expectedDib dib i).toNat = dib + i := by
    rw [toNat_expectedDib, Nat.mod_eq_of_lt (by omega)]
  unfold isStop
  rw [Coherent.lane h.mirror hidx h16 hi]
  by_cases hE : m.tags ((idx + i) % totalSize (2 ^ e)) = emptyMarker
  · rw [(entryAt_eq_none hlt).2 hE, hE]
    simp
  · have hn := h.near _ hlt hE
    rw [entryAt_of_ne hlt hE, lessSigned_eq hn (by omega), hexp]
    simp [hE]

theorem tags_ne_of_isStop (h : m.isStop idx dib i = false) : m.tags (idx + i) ≠ emptyMarker := by
  intro he
  simp [isStop, he] at h

end

/-! ### Lookup -/

section
variable {toU64 : K → UInt64} [DecidableEq K]

/-- What the loop over the matches of a group returns is the value in a matching slot. -/
theorem checkMatches_some {stop : Nat} {v : V} : ∀ {lanes : List Nat},
    checkMatches toU64 m key idx stop lanes = some (some v) →
    ∃ a ∈ lanes, a < stop ∧ m.keys (wrap (2 ^ e) (idx + a)) = key ∧
      m.data (wrap (2 ^ e) (idx + a)) = v
  | [], h => by cases h
  | a :: lanes, h => by
    unfold checkMatches at h
    split at h
    · next hlt =>
      simp only at h
      split at h
      · next hm =>
        simp only [Bool.and_eq_true, beq_iff_eq] at hm
        simp only [Option.some.injEq] at h
        exact ⟨a, by simp, hlt, hm.2, h⟩
      · obtain ⟨b, hb, hrest⟩ := checkMatches_some h
        exact ⟨b, List.mem_cons_of_mem _ hb, hrest⟩
    · cases h

/-- If a matching slot comes before the stop, the loop finds one. -/
theorem checkMatches_found {stop a : Nat} : ∀ {lanes : List Nat}, lanes.Pairwise (· < ·) →
    a ∈ lanes → a < stop → m.keys (wrap (2 ^ e) (idx + a)) = key →
    m.footPrints (wrap (2 ^ e) (idx + a)) = footprint toU64 key →
    ∃ v, checkMatches toU64 m key idx stop lanes = some (some v)
  | b :: lanes, hs, ha, hlt, hk, hf => by
    have hb : b ≤ a := by
      rcases List.mem_cons.1 ha with rfl | ha
      · exact Nat.le_refl _
      · exact Nat.le_of_lt ((List.pairwise_cons.1 hs).1 a ha)
    unfold checkMatches
    rw [if_pos (by omega)]
    simp only
    split
    · exact ⟨_, rfl⟩
    · next hm =>
      rcases List.mem_cons.1 ha with rfl | ha
      · simp [hk, hf] at hm
      · exact checkMatches_found (List.pairwise_cons.1 hs).2 ha hlt hk hf

/-- Without a stop in the group the loop does not give up. -/
theorem checkMatches_ne : ∀ {lanes : List Nat}, (∀ a ∈ lanes, a < 16) →
    checkMatches toU64 m key idx 16 lanes ≠ some none
  | [], _ => by simp [checkMatches]
  | a :: lanes, h => by
    unfold checkMatches
    rw [if_pos (h a (by simp))]
    simp only
    split
    · simp
    · exact checkMatches_ne fun b hb => h b (List.mem_cons_of_mem _ hb)

omit [DecidableEq K] in
theorem matchLanes_lt {a : Nat} (h : a ∈ m.matchLanes toU64 key idx dib) : a < 16 :=
  List.mem_range.1 (List.mem_filter.1 h).1

omit [DecidableEq K] in
theorem matchLanes_sorted : (m.matchLanes toU64 key idx dib).Pairwise (· < ·) :=
  List.pairwise_lt_range.filter _

variable {f : K → Option V}

/-- A value that `GetVal` returns is the one the table holds. -/
theorem getLoop_some (h : Good toU64 m f) {v : V} : ∀ {fuel idx dib : Nat},
    idx < totalSize (2 ^ e) → idx % 16 = 0 → getLoop toU64 m key fuel idx dib = some v →
    f key = some v
  | 0, _, _, _, _, hv => by cases hv
  | fuel + 1, idx, dib, hidx, h16, hv => by
    have hle := le_totalSize e
    unfold getLoop at hv
    simp only at hv
    split at hv
    · next r hr =>
      rw [hv] at hr
      obtain ⟨a, ha, hlt, hk, hd⟩ := checkMatches_some hr
      have ha16 := matchLanes_lt ha
      have hslot := Nat.mod_lt (idx + a) (show 0 < totalSize (2 ^ e) by omega)
      have hne := tags_ne_of_isStop (firstLane_false hlt)
      rw [Coherent.lane h.coherent.mirror (by omega) h16 ha16] at hne
      rw [wrap_eq] at hk hd
      exact (h.contents key v).2 ⟨_, hslot, _, entryAt_of_ne hslot hne, hk, hd⟩
    · split at hv
      · cases hv
      · refine getLoop_some h ?_ ?_ hv
        · rw [wrap_eq]
          exact Nat.mod_lt _ (by omega)
        · rw [wrap_eq, mod_totalSize_mod]
          omega

theorem getLoop_found (h : Good toU64 m f) {x : Entry K V} {s : Nat} (hs : s < totalSize (2 ^ e))
    (hx : entryAt m s = some x) (hkey : x.key = key) :
    ∀ (fuel q : Nat), 16 * q ≤ x.dib → x.dib < 16 * (q + fuel) →
      ∃ v, getLoop toU64 m key fuel ((home toU64 (2 ^ e) key + 16 * q) % totalSize (2 ^ e))
      (16 * q) =
        some v
  | 0, q, h1, h2 => by omega
  | fuel + 1, q, h1, h2 => by
    have hle := le_totalSize e
    obtain ⟨hh, -⟩ := home_bound toU64 e key
    obtain ⟨-, hne, htag, hk, -⟩ := entryAt_eq_some hx
    have hx128 : x.dib < 128 := by rw [← htag]; exact h.coherent.near s hs hne
    obtain ⟨idx, hidx⟩ : ∃ idx, idx = (home toU64 (2 ^ e) key + 16 * q) % totalSize (2 ^ e) :=
      ⟨_, rfl⟩
    have hlt : idx < totalSize (2 ^ e) := by rw [hidx]; exact Nat.mod_lt _ (by omega)
    have h16 : idx % 16 = 0 := by
      rw [hidx, mod_totalSize_mod]
      omega
    have hlane : ∀ i, (idx + i) % totalSize (2 ^ e) =
        (home toU64 (2 ^ e) key + (16 * q + i)) % totalSize (2 ^ e) := fun i => by
      rw [hidx, Nat.mod_add_mod, Nat.add_assoc]
    -- no lane up to the entry ends the search
    have hpass : ∀ i < 16, 16 * q + i ≤ x.dib → m.isStop idx (16 * q) i = false := by
      intro i hi hle'
      rw [h.coherent.isStop_eq_false (by omega) h16 hi (by omega), hlane]
      rw [← hkey]
      exact h.valid.chain hs hx _ hle'
    rw [← hidx]
    unfold getLoop
    simp only
    rcases Nat.lt_or_ge x.dib (16 * q + 16) with hin | hout
    · -- the entry is in this group
      obtain ⟨a, ha⟩ : ∃ a, x.dib = 16 * q + a := ⟨x.dib - 16 * q, by omega⟩
      have hslot : wrap (2 ^ e) (idx + a) = s := by
        rw [wrap_eq, hlane, ← ha, ← hkey]
        exact (h.valid.place s hs x hx).2
      have hstop : a < firstLane (m.isStop idx (16 * q)) := by
        by_contra hge
        have := firstLane_true (p := m.isStop idx (16 * q)) (by omega)
        rw [hpass _ (by omega) (by omega)] at this
        cases this
      have hmem : a ∈ m.matchLanes toU64 key idx (16 * q) := by
        have hN := totalSize_eq (2 ^ e)
        have hs' : idx + a = s := by
          rw [wrap_eq, Nat.mod_eq_of_lt (by omega)] at hslot
          exact hslot
        have hexp : m.tags s = expectedDib (16 * q) a := by
          apply UInt8.toNat_inj.1
          rw [htag, toNat_expectedDib, Nat.mod_eq_of_lt (by omega), ha]
        refine List.mem_filter.2 ⟨List.mem_range.2 (by omega), ?_⟩
        simp [hs', hexp, h.coherent.print s hs hne, hk, hkey]
      obtain ⟨v, hv⟩ := checkMatches_found matchLanes_sorted hmem hstop
        (by rw [hslot, hk, hkey]) (by rw [hslot, h.coherent.print s hs hne, hk, hkey])
      exact ⟨v, by rw [hv]⟩
    · have hnostop : firstLane (m.isStop idx (16 * q)) = 16 := by
        have h1 := firstLane_le (m.isStop idx (16 * q))
        by_contra hne'
        have := firstLane_true (p := m.isStop idx (16 * q)) (by omega)
        rw [hpass _ (by omega) (by omega)] at this
        cases this
      rw [hnostop]
      split
      · next r hr =>
        cases r with
        | some v => exact ⟨v, rfl⟩
        | none => exact absurd hr (checkMatches_ne fun a ha => matchLanes_lt ha)
      · rw [if_neg (by omega), wrap_eq, hlane]
        exact getLoop_found h hs hx hkey fuel (q + 1) (by omega) (by omega)

/-- **`GetVal`** in a good state. -/
theorem getVal_eq (h : Good toU64 m f) (key : K) : m.getVal toU64 key = f key := by
  have hle := le_totalSize e
  obtain ⟨hh, hb⟩ := home_bound toU64 e key
  unfold getVal
  cases hf : f key with
  | none =>
    rw [Option.eq_none_iff_forall_ne_some]
    intro v hv
    have := getLoop_some h (by omega) hh hv
    rw [hf] at this
    cases this
  | some v =>
    obtain ⟨s, hs, x, hx, hk, -⟩ := (h.contents key v).1 hf
    have hdib := (h.valid.place s hs x hx).1
    rw [totalSize_eq] at hdib
    obtain ⟨w, hw⟩ := getLoop_found h hs hx hk (2 ^ e) 0 (by omega) (by omega)
    rw [Nat.mul_zero, Nat.add_zero, Nat.mod_eq_of_lt (by omega)] at hw
    have := getLoop_some h (by omega) hh hw
    rw [hw, ← this, hf]

end

end

end FlatHashMap

end Naoto
