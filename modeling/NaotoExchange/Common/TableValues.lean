import NaotoExchange.Common.KeyMap
import NaotoExchange.Common.Proof.FlatHashMapDelete
import NaotoExchange.Common.Proof.FlatHashMapInsert

/-!
# A table invents no values

A table can lose keys (`Common/Refinement`), cut distances to a byte and run full. Nevertheless
every value that a lookup gives was added at some time: `Filled P` says that the slots which are
taken hold values in `P`, at distances that fit the slots modulo 16, and that the tags of the last
group mirror the first one. It holds for any table that calls have led to, and it is all that is
needed.
-/

namespace Naoto.FlatHashMap

variable {K V : Type} {e : Nat} {toU64 : K → UInt64} {P : V → Prop} {m m' : FlatHashMap K V (2 ^ e)}
  {c : Cursor K V (2 ^ e)} {idx i : Nat} {key : K}

/-- Taken slots hold values in `P`. -/
structure Filled (P : V → Prop) (m : FlatHashMap K V (2 ^ e)) : Prop where
  mirror : ∀ i < 16, m.tags (totalSize (2 ^ e) + i) = m.tags i
  slots : ∀ i < totalSize (2 ^ e), m.tags i ≠ emptyMarker →
    (m.tags i).toNat % 16 = i % 16 ∧ P (m.data i)

theorem new_filled [Inhabited K] [Inhabited V] : Filled P (new : FlatHashMap K V (2 ^ e)) :=
  ⟨fun _ _ => rfl, fun _ _ h => absurd rfl h⟩

theorem Filled.write (h : Filled P m) (hidx : idx < totalSize (2 ^ e)) {dib : Nat} {val : V}
    (hnew : UInt8.ofNat dib ≠ emptyMarker → dib % 16 = idx % 16 ∧ P val) (key : K) :
    Filled P (m.paddingSafeWrite toU64 idx dib key val) where
  mirror := paddingSafeWrite_mirror toU64 hidx dib key val h.mirror
  slots i hi := by
    obtain ⟨ht, -, hv, -⟩ := paddingSafeWrite_at toU64 m idx dib key val hi
    rw [ht, hv]
    by_cases he : i = idx
    · subst he
      rw [if_pos rfl, if_pos rfl]
      intro hne
      obtain ⟨hmod, hP⟩ := hnew hne
      rw [UInt8.toNat_ofNat', Nat.mod_mod_of_dvd _ (by decide)]
      exact ⟨hmod, hP⟩
    · rw [if_neg he, if_neg he]
      exact h.slots i hi

/-! ## Lookup -/

theorem Filled.getLoop [DecidableEq K] (h : Filled P m) {v : V} : ∀ {fuel idx dib : Nat},
    idx < totalSize (2 ^ e) → idx % 16 = 0 → getLoop toU64 m key fuel idx dib = some v → P v
  | 0, _, _, _, _, hv => by cases hv
  | fuel + 1, idx, dib, hidx, h16, hv => by
    have hle := le_totalSize e
    unfold FlatHashMap.getLoop at hv
    simp only at hv
    split at hv
    · next r hr =>
      rw [hv] at hr
      obtain ⟨a, ha, hlt, -, hd⟩ := checkMatches_some hr
      have hslot := Nat.mod_lt (idx + a) (show 0 < totalSize (2 ^ e) by omega)
      have hne := tags_ne_of_isStop (firstLane_false hlt)
      rw [Coherent.lane h.mirror (by omega) h16 (matchLanes_lt ha)] at hne
      rw [wrap_eq] at hd
      exact hd ▸ (h.slots _ hslot hne).2
    · split at hv
      · cases hv
      · refine h.getLoop ?_ ?_ hv
        · rw [wrap_eq]
          exact Nat.mod_lt _ (by omega)
        · rw [wrap_eq, mod_totalSize_mod]
          omega

/-- **A lookup gives a value that was added.** -/
theorem Filled.getVal [DecidableEq K] (h : Filled P m) {v : V} (hv : m.getVal toU64 key = some v) :
    P v := by
  obtain ⟨h16, hb⟩ := home_bound toU64 e key
  exact h.getLoop (by omega) h16 hv

/-! ## Insertion -/

/-- A cursor that carries a value in `P` over such a table. -/
structure Carrying (P : V → Prop) (c : Cursor K V (2 ^ e)) : Prop where
  map : Filled P c.map
  le : c.idx ≤ totalSize (2 ^ e)
  mod : c.dib % 16 = c.idx % 16
  val : P c.val

theorem Carrying.place (h : Carrying P c) {n : Nat} (hidx : idx < totalSize (2 ^ e))
    (hmod : idx % 16 = (c.idx + n) % 16) : Filled P (c.place toU64 idx (c.dib + n)) := by
  have hc := h.mod
  exact h.map.write hidx (fun _ => ⟨by omega, h.val⟩) _

theorem Carrying.swap (h : Carrying P c) {n : Nat} (hidx : idx < totalSize (2 ^ e))
    (hmod : idx % 16 = (c.idx + n) % 16) (hE : c.map.tags idx ≠ emptyMarker) :
    Carrying P (c.swap toU64 idx (c.dib + n)) :=
  ⟨h.place hidx hmod, hidx.le, (h.map.slots idx hidx hE).1, (h.map.slots idx hidx hE).2⟩

theorem Carrying.advance (h : Carrying P c) {n : Nat} (hle : idx ≤ totalSize (2 ^ e))
    (hmod : idx % 16 = (c.idx + n) % 16) : Carrying P (c.advance idx n) := by
  have hc := h.mod
  refine ⟨h.map, hle, ?_, h.val⟩
  show (c.dib + n) % 16 = idx % 16
  omega

/-- A loop has put its entry down, or goes on with a cursor that meets `Q`. -/
def GoesOn (P : V → Prop) (Q : Cursor K V (2 ^ e) → Prop) :
    FlatHashMap K V (2 ^ e) ⊕ Cursor K V (2 ^ e) → Prop
  | .inl m => Filled P m
  | .inr c => Carrying P c ∧ Q c

theorem Carrying.slot (h : Carrying P c) (hidx : c.idx < totalSize (2 ^ e)) :
    GoesOn P (fun c' => c'.idx = c.idx) (c.slot toU64) := by
  unfold Cursor.slot
  split
  · exact h.place (n := 0) hidx rfl
  · next hE =>
    split
    · exact ⟨h.swap (n := 0) hidx rfl hE, rfl⟩
    · exact ⟨h, rfl⟩

theorem Carrying.slot_home (h : Carrying P c) (hidx : c.idx < totalSize (2 ^ e)) (hd : c.dib < 16)
    (hE : c.map.tags c.idx ≠ emptyMarker) : c.slot toU64 = .inr c := by
  have hmod := h.mod
  have htag := (h.map.slots c.idx hidx hE).1
  have hle := Nat.mod_le (c.map.tags c.idx).toNat 16
  rw [Cursor.slot, if_neg hE, if_neg (by omega)]

theorem Carrying.homeLoop : ∀ (fuel : Nat) {c : Cursor K V (2 ^ e)} (b : Nat)
    {r : FlatHashMap K V (2 ^ e) ⊕ Cursor K V (2 ^ e)}, Carrying P c →
    c.idx = b + c.dib → b + 16 ≤ totalSize (2 ^ e) → c.dib ≤ 16 →
    homeLoop toU64 fuel c = .ok r → GoesOn P (fun c' => c'.idx % 16 = 0) r
  | 0, _, _, _, _, _, _, _, hr => by cases hr
  | fuel + 1, c, b, r, h, hidx, hb, h16, hr => by
    rw [FlatHashMap.homeLoop] at hr
    by_cases hd : c.dib < 16
    · rw [if_pos hd] at hr
      have hlt : c.idx < totalSize (2 ^ e) := by omega
      by_cases hE : c.map.tags c.idx = emptyMarker
      · have hput : c.slot toU64 = .inl (c.place toU64 c.idx c.dib) := by
          rw [Cursor.slot, if_pos hE]
        rw [hput] at hr
        cases hr
        exact h.place (n := 0) hlt rfl
      · rw [h.slot_home hlt hd hE] at hr
        refine Carrying.homeLoop fuel b (h.advance (by omega) rfl) ?_ hb ?_ hr
        · show c.idx + 1 = b + (c.dib + 1)
          omega
        · show c.dib + 1 ≤ 16
          omega
    · rw [if_neg hd] at hr
      cases hr
      have hmod := h.mod
      exact ⟨h, by omega⟩

theorem Carrying.alignLoop : ∀ (fuel : Nat) {c : Cursor K V (2 ^ e)}
    {r : FlatHashMap K V (2 ^ e) ⊕ Cursor K V (2 ^ e)}, Carrying P c →
    alignLoop toU64 fuel c = .ok r → GoesOn P (fun c' => c'.idx % 16 = 0) r
  | 0, _, _, _, hr => by cases hr
  | fuel + 1, c, r, h, hr => by
    have hsize := totalSize_eq (2 ^ e)
    have hand : c.idx &&& 15 = c.idx % 16 := Nat.and_two_pow_sub_one_eq_mod c.idx 4
    have hle := h.le
    rw [FlatHashMap.alignLoop, hand] at hr
    by_cases h16 : c.idx % 16 = 0
    · rw [if_neg (by omega)] at hr
      cases hr
      exact ⟨h, h16⟩
    · rw [if_pos h16] at hr
      have hslot : GoesOn P (fun c' => c'.idx = c.idx) (c.slot toU64) := h.slot (by omega)
      cases hs : c.slot toU64 with
      | inl m =>
        rw [hs] at hr hslot
        cases hr
        exact hslot
      | inr c' =>
        rw [hs] at hr hslot
        have hnext : wrap (2 ^ e) (c'.idx + 1) = (c'.idx + 1) % totalSize (2 ^ e) := wrap_eq e _
        refine Carrying.alignLoop fuel (hslot.1.advance ?_ ?_) hr
        · rw [hnext]
          exact (Nat.mod_lt _ (by omega)).le
        · rw [hnext, mod_totalSize_mod]

/-- One group. The lane where the entry goes is free or taken, as its slot is. -/
theorem Carrying.group (h : Carrying P c) (h16 : c.idx % 16 = 0) :
    GoesOn P (fun _ => True) (c.group toU64) := by
  have hsize := totalSize_eq (2 ^ e)
  have hN := le_totalSize e
  have hle : c.firstAvailable ≤ 16 := firstLane_le _
  have hlt : ∀ i, i % totalSize (2 ^ e) < totalSize (2 ^ e) := fun i => Nat.mod_lt _ (by omega)
  have hgroup : GoesOn P (fun _ => True) (.inr (c.advance (wrap (2 ^ e) (c.idx + 16)) 16)) := by
    rw [wrap_eq]
    exact ⟨h.advance (hlt _).le (mod_totalSize_mod _ _), trivial⟩
  unfold Cursor.group
  simp only
  by_cases hall : c.firstAvailable = 16
  · rw [if_pos hall]
    exact hgroup
  rw [if_neg hall, wrap_eq e (c.idx + c.firstAvailable)]
  by_cases hf : c.firstFree = c.firstAvailable
  · rw [if_pos hf]
    exact h.place (hlt _) (mod_totalSize_mod _ _)
  · rw [if_neg hf]
    have hlane : c.map.tags (c.idx + c.firstAvailable) ≠ emptyMarker := by
      intro hE
      refine hf (firstLane_eq (by omega) (by simp [hE]) fun j hj => ?_)
      have hpassed := tags_ne_of_isStop (firstLane_false hj)
      simpa using hpassed
    rw [Coherent.lane h.map.mirror h.le h16 (by omega)] at hlane
    by_cases h0 : c.firstAvailable = 0
    · rw [if_neg (by omega)]
      exact hgroup
    · rw [if_pos h0]
      have hswap : Carrying P (c.swap toU64 ((c.idx + c.firstAvailable) % totalSize (2 ^ e))
          (c.dib + c.firstAvailable)) :=
        h.swap (hlt _) (mod_totalSize_mod _ _) hlane
      refine ⟨hswap.advance ?_ ?_, trivial⟩
      · rw [wrap_eq]
        exact (hlt _).le
      · rw [wrap_eq, mod_totalSize_mod]

theorem Carrying.groupLoop : ∀ (fuel : Nat) {c : Cursor K V (2 ^ e)}, Carrying P c →
    groupLoop toU64 fuel c = .ok m' → Filled P m'
  | 0, _, _, hr => by cases hr
  | fuel + 1, c, h, hr => by
    rw [FlatHashMap.groupLoop] at hr
    by_cases hd : c.dib < totalSize (2 ^ e)
    · rw [if_pos hd] at hr
      cases hl : FlatHashMap.alignLoop toU64 16 c with
      | error err => rw [hl] at hr; cases hr
      | ok r =>
        have halign := Carrying.alignLoop 16 h hl
        rw [hl] at hr
        cases r with
        | inl m =>
          cases hr
          exact halign
        | inr c' =>
          have hgroup : GoesOn P (fun _ => True) (c'.group toU64) := halign.1.group halign.2
          cases hg : c'.group toU64 with
          | inl m =>
            simp only [hg] at hr hgroup
            cases hr
            exact hgroup
          | inr c₂ =>
            simp only [hg] at hr hgroup
            exact Carrying.groupLoop fuel hgroup.1 hr
    · rw [if_neg hd] at hr
      cases hr
      exact h.map

/-- **`AddNode`.** -/
theorem Filled.addNode [DecidableEq K] (h : Filled P m) {val : V} (hval : P val)
    (hr : m.addNode toU64 key val = .ok m') : Filled P m' := by
  obtain ⟨h16, hb⟩ := home_bound toU64 e key
  have hstart : Carrying P (m.start toU64 key val) :=
    ⟨h, show home toU64 (2 ^ e) key ≤ _ by omega, h16.symm, hval⟩
  unfold FlatHashMap.addNode at hr
  split at hr
  · cases hr
    exact h
  · split at hr
    · cases hr
    · next hl =>
      cases hr
      exact Carrying.homeLoop _ _ hstart (Nat.add_zero _).symm hb (Nat.zero_le _) hl
    · next hl =>
      obtain ⟨hc, -⟩ := Carrying.homeLoop _ _ hstart (Nat.add_zero _).symm hb (Nat.zero_le _) hl
      exact Carrying.groupLoop _ hc hr

/-! ## Deletion -/

theorem Filled.shiftLoop [Inhabited K] [Inhabited V] : ∀ (fuel : Nat)
    {m : FlatHashMap K V (2 ^ e)} {idx : Nat}, Filled P m → idx < totalSize (2 ^ e) →
    shiftLoop toU64 fuel m idx = .ok m' → Filled P m'
  | 0, _, _, _, _, hs => by cases hs
  | fuel + 1, m, idx, h, hidx, hs => by
    have hN := le_totalSize e
    have hsize := totalSize_eq (2 ^ e)
    have hnext := mod_totalSize_mod (2 ^ e) (idx + 1)
    have hlt : (idx + 1) % totalSize (2 ^ e) < totalSize (2 ^ e) := Nat.mod_lt _ (by omega)
    rw [FlatHashMap.shiftLoop] at hs
    simp only [wrap_eq] at hs
    split at hs
    · cases hs
      exact h.write hidx (fun hne => absurd rfl hne) _
    · next hgo =>
      rw [not_or] at hgo
      obtain ⟨hmod, hval⟩ := h.slots _ hlt hgo.1
      have hpos : 0 < (m.tags ((idx + 1) % totalSize (2 ^ e))).toNat :=
        Nat.pos_of_ne_zero fun h0 => hgo.2 (UInt8.toNat_inj.1 h0)
      exact Filled.shiftLoop fuel (h.write hidx (fun _ => ⟨by omega, hval⟩) _) hlt hs

/-- **`DeleteNode`.** -/
theorem Filled.deleteNode [DecidableEq K] [Inhabited K] [Inhabited V] (h : Filled P m)
    (hr : m.deleteNode toU64 key = .ok m') : Filled P m' := by
  unfold FlatHashMap.deleteNode at hr
  split at hr
  · cases hr
    exact h
  · next hfind =>
    obtain ⟨-, hb⟩ := home_bound toU64 e key
    exact Filled.shiftLoop _ h (findLoop_some (by omega) hfind).1 hr

/-! ## Tables of any size -/

/-- All values of a table of `2 ^ e` buckets are in `P`. -/
inductive ValuesIn (P : V → Prop) : {Size : Nat} → FlatHashMap K V Size → Prop
  | intro {e : Nat} {m : FlatHashMap K V (2 ^ e)} (filled : Filled P m) : ValuesIn P m

section
variable [HashKey K] [DecidableEq K] [Inhabited K] [Inhabited V] {Size : Nat}
  {m m' : FlatHashMap K V Size} {k : K} {v : V}

omit [HashKey K] [DecidableEq K] in
theorem new_valuesIn (e : Nat) : ValuesIn P (new : FlatHashMap K V (2 ^ e)) := .intro new_filled

theorem ValuesIn.getVal (h : ValuesIn P m) (hv : KeyMap.getVal m k = some v) : P v := by
  obtain ⟨filled⟩ := h
  exact filled.getVal hv

theorem ValuesIn.addNode (h : ValuesIn P m) (hv : P v) (hr : KeyMap.addNode m k v = .ok m') :
    ValuesIn P m' := by
  obtain ⟨filled⟩ := h
  exact .intro (filled.addNode hv hr)

theorem ValuesIn.deleteNode (h : ValuesIn P m) (hr : KeyMap.deleteNode m k = .ok m') :
    ValuesIn P m' := by
  obtain ⟨filled⟩ := h
  exact .intro (filled.deleteNode hr)

omit [HashKey K] [DecidableEq K] [Inhabited K] [Inhabited V] in
theorem ValuesIn.mono {Q : V → Prop} (h : ValuesIn P m) (hPQ : ∀ v, P v → Q v) : ValuesIn Q m := by
  obtain ⟨mirror, slots⟩ := h
  exact .intro ⟨mirror, fun i hi hne => ⟨(slots i hi hne).1, hPQ _ (slots i hi hne).2⟩⟩

end

end Naoto.FlatHashMap
