import NaotoExchange.Common.Refinement

/-!
# The vector search and the slot-by-slot search

`GetVal` looks for a key sixteen slots at a time: it compares signed bytes with a vector of expected
distances that wraps around at 256, and takes the first match before the first stop. The search at
the start of `DeleteNode` goes slot by slot, compares unsigned numbers and does not look at the
distance of a match. They find the same slot in every table whose entries sit at their distance from
home, below 128 (`Placed`): the order of the entries does not matter, nor whether a slot is free or
a key is there twice.

* `getVal_eq_findSlot`: `GetVal` gives the value in the slot of the other search.
* `Reachable.placed`: the calls keep `Placed`, whatever `AddNode` skips, drops or overwrites, as
  long as it stores no distance of 128 or more.
* `reachable_searches_agree`: both together, with `GetVal` of a table that holds the slot numbers.
-/

namespace Naoto.FlatHashMap

open RobinHood

section
variable {K V : Type} {Size : Nat} [DecidableEq K] (toU64 : K → UInt64)

/-- The search at the start of `DeleteNode`. -/
def findSlot (m : FlatHashMap K V Size) (key : K) : Option Nat :=
  findLoop toU64 m key (totalSize Size) (home toU64 Size key) 0

/-- The table with the number of each slot for its value. -/
def slots (m : FlatHashMap K V Size) : FlatHashMap K Nat Size := { m with data := id }

end

/-- Every entry sits at its distance from home. -/
structure Placed {K V : Type} {e : Nat} (toU64 : K → UInt64) (m : FlatHashMap K V (2 ^ e)) :
    Prop where
  coherent : Coherent toU64 m
  place : ∀ i < totalSize (2 ^ e), m.tags i ≠ emptyMarker →
    (m.tags i).toNat < totalSize (2 ^ e) ∧
      (home toU64 (2 ^ e) (m.keys i) + (m.tags i).toNat) % totalSize (2 ^ e) = i

/-! ## One group -/

section
variable {K V : Type} {e : Nat} {toU64 : K → UInt64} {m : FlatHashMap K V (2 ^ e)} {key : K}
  {idx d i : Nat}

/-- A distance below the size of the table is determined by the slot. -/
theorem eq_of_home_add {N a d d' : Nat} (hd : d < N) (hd' : d' < N)
    (h : (a + d) % N = (a + d') % N) : d = d' := by
  have := Nat.ModEq.add_left_cancel' a h
  rwa [Nat.ModEq, Nat.mod_eq_of_lt hd, Nat.mod_eq_of_lt hd'] at this

/-- The key can only be in the slot `d` from its home at the distance `d`. -/
theorem Placed.tag_eq (h : Placed toU64 m) (hi : i < totalSize (2 ^ e))
    (hE : m.tags i ≠ emptyMarker) (hd : d < totalSize (2 ^ e))
    (hslot : i = (home toU64 (2 ^ e) (m.keys i) + d) % totalSize (2 ^ e)) :
    (m.tags i).toNat = d := by
  obtain ⟨hlt, hplace⟩ := h.place i hi hE
  exact eq_of_home_add hlt hd (hplace.trans hslot)

theorem Placed.isStop_iff (h : Placed toU64 m) (hi : idx + i < totalSize (2 ^ e))
    (hd : d + i < 128) :
    m.isStop idx d i = true ↔ m.tags (idx + i) = emptyMarker ∨
    (m.tags (idx + i)).toNat < d + i := by
  have hexp : (expectedDib d i).toNat = d + i := by
    rw [toNat_expectedDib, Nat.mod_eq_of_lt (by omega)]
  unfold isStop
  by_cases hE : m.tags (idx + i) = emptyMarker
  · simp [hE]
  · rw [lessSigned_eq (h.coherent.near _ hi hE) (by omega), hexp]
    simp [hE]

variable [DecidableEq K]

theorem checkMatches_of_ge {stop : Nat} : ∀ {lanes : List Nat}, (∀ a ∈ lanes, stop ≤ a) →
    checkMatches toU64 m key idx stop lanes = none ∨ checkMatches toU64 m key idx stop lanes =
    some none
  | [], _ => .inl rfl
  | a :: lanes, h => by
    have ha := h a (by simp)
    rw [checkMatches, if_neg (by omega)]
    exact .inr rfl

/-- The matching lanes among `n` from lane `i` on. -/
def matchesFrom (toU64 : K → UInt64) (m : FlatHashMap K V (2 ^ e)) (key : K) (idx d i n : Nat) :
    List Nat :=
  (List.range' i n).filter fun i =>
    m.tags (idx + i) == expectedDib d i && m.footPrints (idx + i) == footprint toU64 key

omit [DecidableEq K] in
theorem matchLanes_eq : m.matchLanes toU64 key idx d = matchesFrom toU64 m key idx d 0 16 := by
  rw [matchLanes, matchesFrom, List.range_eq_range']

omit [DecidableEq K] in
theorem le_of_mem_matchesFrom {n a : Nat} (h : a ∈ matchesFrom toU64 m key idx d i n) : i ≤ a :=
  (List.mem_range'_1.1 (List.mem_filter.1 h).1).1

/-- A lane before the first stop that holds the key ends the vector search. -/
theorem Placed.checkMatches_hit (h : Placed toU64 m) {stop n : Nat}
    (hi : idx + i < totalSize (2 ^ e))
    (hE : m.tags (idx + i) ≠ emptyMarker) (hkey : m.keys (idx + i) = key)
    (hslot : idx + i = (home toU64 (2 ^ e) key + (d + i)) % totalSize (2 ^ e))
    (hd : d + i < totalSize (2 ^ e)) (hstop : i < stop) :
    checkMatches toU64 m key idx stop (matchesFrom toU64 m key idx d i (n + 1)) =
      some (some (m.data (idx + i))) := by
  have hprint : m.footPrints (idx + i) = footprint toU64 key := by
    rw [h.coherent.print _ hi hE, hkey]
  have htag : m.tags (idx + i) = expectedDib d i := by
    have hdib := h.tag_eq hi hE hd (by rw [hkey]; exact hslot)
    have hlt := h.coherent.near _ hi hE
    apply UInt8.toNat_inj.1
    rw [hdib, toNat_expectedDib, Nat.mod_eq_of_lt (by omega)]
  have hlanes : matchesFrom toU64 m key idx d i (n + 1) = i :: matchesFrom toU64 m key idx d
      (i + 1) n := by
    rw [matchesFrom, List.range'_succ, List.filter_cons_of_pos (by simp [htag, hprint])]
    rfl
  have hwrap : wrap (2 ^ e) (idx + i) = idx + i := by
    rw [wrap_eq, Nat.mod_eq_of_lt hi]
  rw [hlanes, checkMatches, if_pos hstop, hwrap]
  simp [hprint, hkey]

/-- A lane before the first stop that does not hold the key is passed by the vector search. -/
theorem checkMatches_pass {stop n : Nat} (hi : idx + i < totalSize (2 ^ e))
    (hmiss : ¬ (m.footPrints (idx + i) == footprint toU64 key && m.keys (idx + i) == key) = true)
    (hstop : i < stop) :
    checkMatches toU64 m key idx stop (matchesFrom toU64 m key idx d i (n + 1)) =
      checkMatches toU64 m key idx stop (matchesFrom toU64 m key idx d (i + 1) n) := by
  have hwrap : wrap (2 ^ e) (idx + i) = idx + i := by
    rw [wrap_eq, Nat.mod_eq_of_lt hi]
  simp only [matchesFrom, List.range'_succ, List.filter_cons]
  split
  · rw [checkMatches, if_pos hstop, hwrap]
    simp only [if_neg hmiss]
  · rfl

/-- **A group from lane `i` on**, at distances below 128: the slot-by-slot search ends in the group
where the vector search does, or both leave it. -/
theorem Placed.scan (h : Placed toU64 m) (hidx : idx + 16 ≤ totalSize (2 ^ e))
    (hhome : idx = (home toU64 (2 ^ e) key + d) % totalSize (2 ^ e)) (hd : d + 16 ≤ 128)
    (hdN : d + 16 ≤ totalSize (2 ^ e)) (fuel : Nat) :
    ∀ (n i : Nat), i + n = 16 → i ≤ firstLane (m.isStop idx d) →
      (findLoop toU64 m key (n + fuel) ((idx + i) % totalSize (2 ^ e)) (d + i)).map m.data =
        match checkMatches toU64 m key idx (firstLane (m.isStop idx d))
          (matchesFrom toU64 m key idx d i n) with
        | some r => r
        | none =>
          if firstLane (m.isStop idx d) < 16 then none
          else (findLoop toU64 m key fuel ((idx + 16) % totalSize (2 ^ e)) (d + 16)).map m.data
  | 0, i, hn, hle => by
    obtain rfl : i = 16 := by omega
    have hstop : ¬ firstLane (m.isStop idx d) < 16 := by omega
    rw [Nat.zero_add]
    simp only [matchesFrom, List.range'_zero, List.filter_nil, checkMatches, if_neg hstop]
  | n + 1, i, hn, hle => by
    have hlt : idx + i < totalSize (2 ^ e) := by omega
    have hmod : (idx + i) % totalSize (2 ^ e) = idx + i := Nat.mod_eq_of_lt hlt
    have hiff := h.isStop_iff hlt (show d + i < 128 by omega)
    rw [Nat.add_right_comm, findLoop, hmod]
    by_cases hstop : m.isStop idx d i = true
    · -- the first stop is here
      have hfirst : firstLane (m.isStop idx d) = i :=
        Nat.le_antisymm (firstLane_min (by omega) hstop) hle
      have hend : checkMatches toU64 m key idx i (matchesFrom toU64 m key idx d i (n + 1)) = none ∨
          checkMatches toU64 m key idx i (matchesFrom toU64 m key idx d i (n + 1)) = some none :=
        checkMatches_of_ge fun a ha => le_of_mem_matchesFrom ha
      rw [if_pos (hiff.1 hstop), hfirst, if_pos (show i < 16 by omega)]
      rcases hend with hc | hc <;> rw [hc] <;> rfl
    · have hpass : i < firstLane (m.isStop idx d) := by
        refine lt_of_le_of_ne hle fun he => hstop ?_
        rw [he]
        exact firstLane_true (by omega)
      have hgo := mt hiff.2 hstop
      rw [if_neg hgo]
      split
      · next hhit =>
        simp only [Bool.and_eq_true, beq_iff_eq] at hhit
        have hslot : idx + i = (home toU64 (2 ^ e) key + (d + i)) % totalSize (2 ^ e) := by
          rw [← hmod, hhome, Nat.mod_add_mod, Nat.add_assoc]
        rw [h.checkMatches_hit hlt (fun hE => hgo (.inl hE)) hhit.2 hslot (by omega) hpass]
        rfl
      · next hmiss =>
        rw [checkMatches_pass hlt hmiss hpass, wrap_eq, Nat.add_assoc, Nat.add_assoc]
        exact h.scan hidx hhome hd hdN fuel n (i + 1) (by omega) (by omega)

/-! ## The whole search -/

/-- From distance 128 on the slot-by-slot search stops at once. -/
theorem Placed.findLoop_far (h : Placed toU64 m) (hidx : idx < totalSize (2 ^ e)) (hd : 128 ≤ d)
    (fuel : Nat) : findLoop toU64 m key fuel idx d = none := by
  cases fuel with
  | zero => rfl
  | succ fuel =>
    rw [findLoop, if_pos]
    by_cases hE : m.tags idx = emptyMarker
    · exact .inl hE
    · have := h.coherent.near idx hidx hE
      exact .inr (by omega)

/-- From distance 128 on the vector search finds nothing. -/
theorem Placed.getLoop_far (h : Placed toU64 m) : ∀ (fuel q : Nat), q + fuel = 2 ^ e →
    128 ≤ 16 * q →
    getLoop toU64 m key fuel ((home toU64 (2 ^ e) key + 16 * q) % totalSize (2 ^ e)) (16 * q) = none
  | 0, _, _, _ => rfl
  | fuel + 1, q, hq, hfar => by
    have hN := totalSize_eq (2 ^ e)
    obtain ⟨hh, -⟩ := home_bound toU64 e key
    obtain ⟨idx, hidx⟩ : ∃ idx, idx = (home toU64 (2 ^ e) key + 16 * q) % totalSize (2 ^ e) :=
      ⟨_, rfl⟩
    have hlt : idx < totalSize (2 ^ e) := by
      rw [hidx]
      exact Nat.mod_lt _ (by omega)
    have h16 : idx % 16 = 0 := by
      rw [hidx, mod_totalSize_mod]
      omega
    rw [← hidx, getLoop]
    cases hc : checkMatches toU64 m key idx (firstLane (m.isStop idx (16 * q)))
        (m.matchLanes toU64 key idx (16 * q)) with
    | none =>
      simp only
      split
      · rfl
      · rw [wrap_eq, hidx, Nat.mod_add_mod, Nat.add_assoc]
        exact h.getLoop_far fuel (q + 1) (by omega) (by omega)
    | some r =>
      cases r with
      | none => rfl
      | some v =>
        -- the slot would be at its distance from home, which is below 128
        obtain ⟨a, ha, hstop, hk, -⟩ := checkMatches_some hc
        have ha16 := matchLanes_lt ha
        have hslot : idx + a < totalSize (2 ^ e) := by omega
        have hE := tags_ne_of_isStop (firstLane_false hstop)
        have hnear := h.coherent.near _ hslot hE
        rw [wrap_eq, Nat.mod_eq_of_lt hslot] at hk
        have hdib := h.tag_eq hslot hE (show 16 * q + a < totalSize (2 ^ e) by omega) (by
          rw [hk, ← Nat.add_assoc, Nat.add_mod, ← hidx, Nat.mod_eq_of_lt (show a < _ by omega),
            Nat.mod_eq_of_lt hslot])
        omega

theorem Placed.getLoop_eq (h : Placed toU64 m) (key : K) : ∀ (fuel q : Nat), q + fuel = 2 ^ e →
    getLoop toU64 m key fuel ((home toU64 (2 ^ e) key + 16 * q) % totalSize (2 ^ e)) (16 * q) =
      (findLoop toU64 m key (16 * fuel) ((home toU64 (2 ^ e) key + 16 * q) % totalSize (2 ^ e))
        (16 * q)).map m.data
  | 0, _, _ => rfl
  | fuel + 1, q, hq => by
    have hN := totalSize_eq (2 ^ e)
    have hlt := Nat.mod_lt (home toU64 (2 ^ e) key + 16 * q) (show 0 < totalSize (2 ^ e) by omega)
    rcases Nat.lt_or_ge (16 * q) 128 with hnear | hfar
    · obtain ⟨hh, -⟩ := home_bound toU64 e key
      obtain ⟨idx, hidx⟩ : ∃ idx, idx = (home toU64 (2 ^ e) key + 16 * q) % totalSize (2 ^ e) :=
        ⟨_, rfl⟩
      have h16 : idx % 16 = 0 := by
        rw [hidx, mod_totalSize_mod]
        omega
      rw [← hidx] at hlt ⊢
      have hscan := h.scan (by omega) hidx (by omega) (by omega) (16 * fuel) 16 0 rfl
        (Nat.zero_le _)
      rw [Nat.add_zero, Nat.add_zero, Nat.mod_eq_of_lt hlt, ← matchLanes_eq] at hscan
      have hnext : (idx + 16) % totalSize (2 ^ e) =
          (home toU64 (2 ^ e) key + 16 * (q + 1)) % totalSize (2 ^ e) := by
        rw [hidx, Nat.mod_add_mod, Nat.add_assoc]
        rfl
      have hdib : 16 * q + 16 = 16 * (q + 1) := by omega
      rw [hnext, hdib, ← h.getLoop_eq key fuel (q + 1) (by omega)] at hscan
      rw [show 16 * (fuel + 1) = 16 + 16 * fuel by omega, getLoop, wrap_eq, hnext, hdib]
      exact hscan.symm
    · rw [h.getLoop_far (fuel + 1) q hq hfar, h.findLoop_far hlt hfar]
      rfl

/-- **`GetVal`** gives the value in the slot that the search of `DeleteNode` finds. -/
theorem Placed.getVal_eq_findSlot (h : Placed toU64 m) (key : K) :
    m.getVal toU64 key = (m.findSlot toU64 key).map m.data := by
  have hN := totalSize_eq (2 ^ e)
  obtain ⟨-, hb⟩ := home_bound toU64 e key
  have := h.getLoop_eq key (2 ^ e) 0 (Nat.zero_add _)
  rwa [Nat.mul_zero, Nat.add_zero, Nat.mod_eq_of_lt (by omega), Nat.mul_comm 16, ← hN] at this

end

/-! ## What the calls store -/

section
variable {K V : Type} {Size : Nat} (toU64 : K → UInt64)

/-- The distance that a slot-by-slot loop stores at the cursor, if it does. -/
def Cursor.slotStores (c : Cursor K V Size) : List Nat :=
  if c.map.tags c.idx = emptyMarker ∨ (c.map.tags c.idx).toNat < c.dib then [c.dib] else []

/-- The slots that `homeLoop` writes to. -/
def homeStores : Nat → Cursor K V Size → List Nat
  | 0, _ => []
  | fuel + 1, c =>
    if c.dib < 16 then
      c.slotStores ++ match c.slot toU64 with
        | .inl _ => []
        | .inr c => homeStores fuel (c.advance (c.idx + 1) 1)
    else []

/-- The slots that `alignLoop` writes to. -/
def alignStores : Nat → Cursor K V Size → List Nat
  | 0, _ => []
  | fuel + 1, c =>
    if c.idx &&& 15 ≠ 0 then
      c.slotStores ++ match c.slot toU64 with
        | .inl _ => []
        | .inr c => alignStores fuel (c.advance (wrap Size (c.idx + 1)) 1)
    else []

/-- The distance that the vector code stores in the cursor's group, if it does. -/
def Cursor.groupStores (c : Cursor K V Size) : List Nat :=
  if c.firstAvailable < 16 ∧ (c.firstFree = c.firstAvailable ∨ c.firstAvailable ≠ 0) then
    [c.dib + c.firstAvailable]
  else []

/-- The slots that `groupLoop` writes to. -/
def groupLoopStores : Nat → Cursor K V Size → List Nat
  | 0, _ => []
  | fuel + 1, c =>
    if c.dib < totalSize Size then
      alignStores toU64 16 c ++ match alignLoop toU64 16 c with
        | .ok (.inr c) =>
          c.groupStores ++ match c.group toU64 with
            | .inl _ => []
            | .inr c => groupLoopStores fuel c
        | _ => []
    else []

variable [DecidableEq K]

/-- The distances that `AddNode` stores, of the key and of the entries it moves on. -/
def addStores (fuel : Nat) (m : FlatHashMap K V Size) (key : K) (val : V) : List Nat :=
  match m.getVal toU64 key with
  | some _ => []
  | none =>
    homeStores toU64 fuel (m.start toU64 key val) ++
      match homeLoop toU64 fuel (m.start toU64 key val) with
      | .ok (.inr c) => groupLoopStores toU64 fuel c
      | _ => []

/-- `AddNode`, as far as `fuel` rounds of each loop get. -/
def addNodeWithin (fuel : Nat) (m : FlatHashMap K V Size) (key : K) (val : V) :
    Except Fault (FlatHashMap K V Size) :=
  match m.getVal toU64 key with
  | some _ => .ok m
  | none =>
    match homeLoop toU64 fuel (m.start toU64 key val) with
    | .error e => .error e
    | .ok (.inl m) => .ok m
    | .ok (.inr c) => groupLoop toU64 fuel c

variable [Inhabited K] [Inhabited V]

/-- `DeleteNode`, as far as `fuel` rounds of its second loop get. -/
def deleteNodeWithin (fuel : Nat) (m : FlatHashMap K V Size) (key : K) :
    Except Fault (FlatHashMap K V Size) :=
  match m.findSlot toU64 key with
  | none => .ok m
  | some curIdx => shiftLoop toU64 fuel m curIdx

/-- The tables that calls of `AddNode` and `DeleteNode` lead to, each of which returns after some
number of rounds, and stores no distance of 128 or more. -/
inductive Reachable : FlatHashMap K V Size → Prop
  | new : Reachable new
  | addNode {m m' : FlatHashMap K V Size} (key : K) (val : V) (fuel : Nat) (h : Reachable m)
      (hstores : ∀ d ∈ addStores toU64 fuel m key val, d < 128)
      (hadd : addNodeWithin toU64 fuel m key val = .ok m') : Reachable m'
  | deleteNode {m m' : FlatHashMap K V Size} (key : K) (fuel : Nat) (h : Reachable m)
      (hdelete : deleteNodeWithin toU64 fuel m key = .ok m') : Reachable m'

end

/-! ## The calls keep entries at their distance -/

section
variable {K V : Type} {e : Nat} {toU64 : K → UInt64} {m m' : FlatHashMap K V (2 ^ e)}
  {c : Cursor K V (2 ^ e)} {idx dib : Nat} {key : K}

theorem new_placed [Inhabited K] [Inhabited V] : Placed toU64 (new : FlatHashMap K V (2 ^ e)) :=
  ⟨⟨fun _ _ => rfl, fun _ _ hE => absurd rfl hE, fun _ _ hE => absurd rfl hE⟩,
    fun _ _ hE => absurd rfl hE⟩

theorem Placed.write (h : Placed toU64 m) (hidx : idx < totalSize (2 ^ e)) (hd : dib < 128)
    (hN : dib < totalSize (2 ^ e))
    (hslot : (home toU64 (2 ^ e) key + dib) % totalSize (2 ^ e) = idx)
    (val : V) : Placed toU64 (m.paddingSafeWrite toU64 idx dib key val) := by
  refine ⟨h.coherent.write toU64 hidx hd.le key val, fun i hi hE => ?_⟩
  obtain ⟨htag, hkey, -, -⟩ := paddingSafeWrite_at toU64 m idx dib key val hi
  rw [htag] at hE ⊢
  rw [hkey]
  by_cases he : i = idx
  · rw [if_pos he, if_pos he, toNat_ofNat_of_lt hd]
    exact ⟨hN, hslot.trans he.symm⟩
  · rw [if_neg he] at hE
    rw [if_neg he, if_neg he]
    exact h.place i hi hE

theorem Placed.clear [Inhabited K] [Inhabited V] (h : Placed toU64 m)
    (hidx : idx < totalSize (2 ^ e)) :
    Placed toU64 (m.paddingSafeWrite toU64 idx emptyMarker.toNat default default) := by
  refine ⟨h.coherent.write toU64 hidx (by decide) _ _, fun i hi hE => ?_⟩
  obtain ⟨htag, hkey, -, -⟩ :=
    paddingSafeWrite_at toU64 m idx emptyMarker.toNat (default : K) (default : V) hi
  rw [htag] at hE ⊢
  rw [hkey]
  by_cases he : i = idx
  · rw [if_pos he] at hE
    exact absurd rfl hE
  · rw [if_neg he] at hE
    rw [if_neg he, if_neg he]
    exact h.place i hi hE

/-! ### Insertion -/

/-- The cursor is at the distance of the entry it carries, over a placed table. -/
structure Riding (toU64 : K → UInt64) (c : Cursor K V (2 ^ e)) : Prop where
  placed : Placed toU64 c.map
  le : c.idx ≤ totalSize (2 ^ e)
  slot : (home toU64 (2 ^ e) c.key + c.dib) % totalSize (2 ^ e) = c.idx % totalSize (2 ^ e)

theorem Riding.mod_eq (h : Riding toU64 c) : c.dib % 16 = c.idx % 16 := by
  have hmod := congrArg (· % 16) h.slot
  simp only [mod_totalSize_mod] at hmod
  obtain ⟨hh, -⟩ := home_bound toU64 e c.key
  omega

theorem Placed.tag_mod (h : Placed toU64 m) (hidx : idx < totalSize (2 ^ e))
    (hE : m.tags idx ≠ emptyMarker) : (m.tags idx).toNat % 16 = idx % 16 := by
  have hmod := congrArg (· % 16) (h.place idx hidx hE).2
  simp only [mod_totalSize_mod] at hmod
  obtain ⟨hh, -⟩ := home_bound toU64 e (m.keys idx)
  omega

theorem Riding.advance (h : Riding toU64 c) {n : Nat} (hle : idx ≤ totalSize (2 ^ e))
    (hidx : idx % totalSize (2 ^ e) = (c.idx + n) % totalSize (2 ^ e)) :
    Riding toU64 (c.advance idx n) where
  placed := h.placed
  le := hle
  slot := by
    show (home toU64 (2 ^ e) c.key + (c.dib + n)) % totalSize (2 ^ e) = idx % totalSize (2 ^ e)
    rw [hidx, ← Nat.add_assoc, Nat.add_mod, h.slot, ← Nat.add_mod]

theorem Riding.place (h : Riding toU64 c) {n : Nat} (hidx : idx < totalSize (2 ^ e))
    (hslot : idx = (c.idx + n) % totalSize (2 ^ e)) (hd : c.dib + n < 128)
    (hN : c.dib + n < totalSize (2 ^ e)) : Placed toU64 (c.place toU64 idx (c.dib + n)) := by
  refine h.placed.write hidx hd hN ?_ _
  rw [hslot, ← Nat.add_assoc, Nat.add_mod, h.slot, ← Nat.add_mod]

theorem Riding.swap (h : Riding toU64 c) {n : Nat} (hidx : idx < totalSize (2 ^ e))
    (hslot : idx = (c.idx + n) % totalSize (2 ^ e)) (hd : c.dib + n < 128)
    (hN : c.dib + n < totalSize (2 ^ e)) (hE : c.map.tags idx ≠ emptyMarker) :
    Riding toU64 (c.swap toU64 idx (c.dib + n)) where
  placed := h.place hidx hslot hd hN
  le := hidx.le
  slot := by
    show (home toU64 (2 ^ e) (c.map.keys idx) + (c.map.tags idx).toNat) % totalSize (2 ^ e) =
      idx % totalSize (2 ^ e)
    rw [(h.placed.place idx hidx hE).2, Nat.mod_eq_of_lt hidx]

/-- A loop has put its entry down, or goes on with a cursor that meets `P`. -/
def Continues (toU64 : K → UInt64) (P : Cursor K V (2 ^ e) → Prop) :
    FlatHashMap K V (2 ^ e) ⊕ Cursor K V (2 ^ e) → Prop
  | .inl m => Placed toU64 m
  | .inr c => Riding toU64 c ∧ P c

theorem Riding.slot_step (h : Riding toU64 c) (hidx : c.idx < totalSize (2 ^ e))
    (hN : c.dib < totalSize (2 ^ e)) (hst : ∀ d ∈ c.slotStores, d < 128) :
    Continues toU64 (fun c' => c'.idx = c.idx ∧ c'.dib ≤ c.dib) (c.slot toU64) := by
  have hself : c.idx = (c.idx + 0) % totalSize (2 ^ e) := (Nat.mod_eq_of_lt hidx).symm
  unfold Cursor.slot
  split
  · next hE =>
    have hd : c.dib < 128 := hst _ (by simp [Cursor.slotStores, hE])
    exact h.place hidx hself hd hN
  · next hE =>
    split
    · next hlt =>
      have hd : c.dib < 128 := hst _ (by simp [Cursor.slotStores, hlt])
      exact ⟨h.swap hidx hself hd hN hE, rfl, hlt.le⟩
    · exact ⟨h, rfl, Nat.le_refl _⟩

/-- In its home bucket an entry finds none that is nearer to home. -/
theorem Riding.slot_home (h : Riding toU64 c) (hidx : c.idx < totalSize (2 ^ e)) (hd : c.dib < 16)
    (hE : c.map.tags c.idx ≠ emptyMarker) : c.slot toU64 = .inr c := by
  have hmod := h.mod_eq
  have htag := h.placed.tag_mod hidx hE
  have hle := Nat.mod_le (c.map.tags c.idx).toNat 16
  rw [Cursor.slot, if_neg hE, if_neg (by omega)]

theorem homeLoop_placed : ∀ (fuel : Nat) {c : Cursor K V (2 ^ e)}
    {r : FlatHashMap K V (2 ^ e) ⊕ Cursor K V (2 ^ e)}, Riding toU64 c →
    c.idx = home toU64 (2 ^ e) c.key + c.dib → c.dib ≤ 16 →
    (∀ d ∈ homeStores toU64 fuel c, d < 128) →
    homeLoop toU64 fuel c = .ok r → Continues toU64 (fun c' => c'.idx % 16 = 0) r
  | 0, _, _, _, _, _, _, hr => by cases hr
  | fuel + 1, c, r, h, hidx, h16, hst, hr => by
    obtain ⟨-, hb⟩ := home_bound toU64 e c.key
    rw [homeLoop] at hr
    rw [homeStores] at hst
    by_cases hd : c.dib < 16
    · rw [if_pos hd] at hr hst
      have hlt : c.idx < totalSize (2 ^ e) := by omega
      have hslot := h.slot_step hlt (by omega) fun d hd => hst d (List.mem_append_left _ hd)
      by_cases hE : c.map.tags c.idx = emptyMarker
      · have hput : c.slot toU64 = .inl (c.place toU64 c.idx c.dib) := by
          rw [Cursor.slot, if_pos hE]
        rw [hput] at hr hslot
        cases hr
        exact hslot
      · rw [h.slot_home hlt hd hE] at hr hst
        refine homeLoop_placed fuel (h.advance (by omega) rfl) ?_ ?_
          (fun d hd => hst d (List.mem_append_right _ hd)) hr
        · show c.idx + 1 = home toU64 (2 ^ e) c.key + (c.dib + 1)
          omega
        · show c.dib + 1 ≤ 16
          omega
    · rw [if_neg hd] at hr
      cases hr
      have hmod := h.mod_eq
      exact ⟨h, by omega⟩

theorem alignLoop_placed : ∀ (fuel : Nat) {c : Cursor K V (2 ^ e)}
    {r : FlatHashMap K V (2 ^ e) ⊕ Cursor K V (2 ^ e)}, Riding toU64 c →
    c.dib + 16 ≤ totalSize (2 ^ e) → (∀ d ∈ alignStores toU64 fuel c, d < 128) →
    alignLoop toU64 fuel c = .ok r →
    Continues toU64 (fun c' => c'.idx % 16 = 0 ∧ c'.dib + 16 ≤ totalSize (2 ^ e)) r
  | 0, _, _, _, _, _, hr => by cases hr
  | fuel + 1, c, r, h, hN, hst, hr => by
    have hsize := totalSize_eq (2 ^ e)
    have hand : c.idx &&& 15 = c.idx % 16 := Nat.and_two_pow_sub_one_eq_mod c.idx 4
    have hle := h.le
    have hmod := h.mod_eq
    rw [alignLoop, hand] at hr
    rw [alignStores, hand] at hst
    by_cases h16 : c.idx % 16 = 0
    · rw [if_neg (by omega)] at hr
      cases hr
      exact ⟨h, h16, hN⟩
    · rw [if_pos h16] at hr hst
      have hslot := h.slot_step (by omega) (by omega) fun d hd => hst d (List.mem_append_left _ hd)
      cases hs : c.slot toU64 with
      | inl m =>
        rw [hs] at hr hslot
        cases hr
        exact hslot
      | inr c' =>
        rw [hs] at hr hslot hst
        obtain ⟨hc', hidx', hdib'⟩ := hslot
        have hmod' := hc'.mod_eq
        have hnext : wrap (2 ^ e) (c'.idx + 1) = (c'.idx + 1) % totalSize (2 ^ e) := wrap_eq e _
        refine alignLoop_placed fuel (hc'.advance ?_ ?_) ?_
          (fun d hd => hst d (List.mem_append_right _ hd)) hr
        · rw [hnext]
          exact (Nat.mod_lt _ (by omega)).le
        · rw [hnext, Nat.mod_mod]
        · -- the distance is not at the end of the last group yet
          show c'.dib + 1 + 16 ≤ totalSize (2 ^ e)
          omega

/-- **One group**, skipped or not. -/
theorem Riding.group_step (h : Riding toU64 c) (h16 : c.idx % 16 = 0)
    (hN : c.dib + 16 ≤ totalSize (2 ^ e)) (hst : ∀ d ∈ c.groupStores, d < 128) :
    Continues toU64 (fun c' => c'.idx % 16 ≠ 0 → c'.dib + 16 ≤ totalSize (2 ^ e))
    (c.group toU64) := by
  have hsize := totalSize_eq (2 ^ e)
  have hmod := h.mod_eq
  have hle : c.firstAvailable ≤ 16 := firstLane_le _
  have hwrap : ∀ i, wrap (2 ^ e) i = i % totalSize (2 ^ e) := wrap_eq e
  have hlt : ∀ i, i % totalSize (2 ^ e) < totalSize (2 ^ e) := fun i => Nat.mod_lt _ (by omega)
  -- the next group
  have hgroup : Continues toU64 (fun c' => c'.idx % 16 ≠ 0 → c'.dib + 16 ≤ totalSize (2 ^ e))
      (.inr (c.advance (wrap (2 ^ e) (c.idx + 16)) 16)) := by
    rw [hwrap]
    refine ⟨h.advance (hlt _).le (Nat.mod_mod _ _), fun hne => absurd ?_ hne⟩
    show (c.idx + 16) % totalSize (2 ^ e) % 16 = 0
    rw [mod_totalSize_mod]
    omega
  unfold Cursor.group
  simp only
  by_cases hall : c.firstAvailable = 16
  · rw [if_pos hall]
    exact hgroup
  rw [if_neg hall, hwrap (c.idx + c.firstAvailable)]
  rcases h.placed.coherent.lane_available h.le h16 (by omega) with ⟨hf, -⟩ | ⟨hf, hE, hnear⟩
  · rw [if_pos hf]
    have hd : c.dib + c.firstAvailable < 128 :=
      hst _ (by rw [Cursor.groupStores, if_pos ⟨by omega, .inl hf⟩]; exact .head _)
    exact h.place (hlt _) rfl hd (by omega)
  · rw [if_neg hf]
    by_cases h0 : c.firstAvailable = 0
    · rw [if_neg (by omega)]
      exact hgroup
    · rw [if_pos h0]
      have hd : c.dib + c.firstAvailable < 128 :=
        hst _ (by rw [Cursor.groupStores, if_pos ⟨by omega, .inr h0⟩]; exact .head _)
      have hswap := h.swap (hlt _) rfl hd (by omega) hE
      have htag := h.placed.tag_mod (hlt _) hE
      rw [mod_totalSize_mod] at htag
      have htag' := hnear hd
      refine ⟨hswap.advance ?_ ?_, fun _ => ?_⟩
      · rw [hwrap]
        exact (hlt _).le
      · rw [hwrap, Nat.mod_mod]
      · -- the entry taken out is a group nearer to home than the one put in
        show (c.map.tags ((c.idx + c.firstAvailable) % totalSize (2 ^ e))).toNat + 1 + 16 ≤
          totalSize (2 ^ e)
        omega

theorem groupLoop_placed : ∀ (fuel : Nat) {c : Cursor K V (2 ^ e)}, Riding toU64 c →
    (c.idx % 16 ≠ 0 → c.dib + 16 ≤ totalSize (2 ^ e)) →
    (∀ d ∈ groupLoopStores toU64 fuel c, d < 128) →
    groupLoop toU64 fuel c = .ok m' → Placed toU64 m'
  | 0, _, _, _, _, hr => by cases hr
  | fuel + 1, c, h, hN, hst, hr => by
    have hsize := totalSize_eq (2 ^ e)
    have hmod := h.mod_eq
    rw [groupLoop] at hr
    rw [groupLoopStores] at hst
    by_cases hd : c.dib < totalSize (2 ^ e)
    · rw [if_pos hd] at hr hst
      have hlast : c.dib + 16 ≤ totalSize (2 ^ e) := by
        by_cases h16 : c.idx % 16 = 0
        · omega
        · exact hN h16
      cases hl : alignLoop toU64 16 c with
      | error err => rw [hl] at hr; cases hr
      | ok r =>
        have halign := alignLoop_placed 16 h hlast
          (fun d hd => hst d (List.mem_append_left _ hd)) hl
        cases r with
        | inl m =>
          rw [hl] at hr
          cases hr
          exact halign
        | inr c' =>
          rw [hl] at hr hst
          obtain ⟨hc', h16', hlast'⟩ := halign
          have hgroup := hc'.group_step h16' hlast' fun d hd =>
            hst d (List.mem_append_right _ (List.mem_append_left _ hd))
          cases hg : c'.group toU64 with
          | inl m =>
            simp only [hg] at hr hgroup
            cases hr
            exact hgroup
          | inr c₂ =>
            simp only [hg] at hr hgroup hst
            exact groupLoop_placed fuel hgroup.1 hgroup.2
              (fun d hd => hst d (List.mem_append_right _ (List.mem_append_right _ hd))) hr
    · rw [if_neg hd] at hr
      cases hr
      exact h.placed

theorem Placed.start (h : Placed toU64 m) (key : K) (val : V) :
    Riding toU64 (m.start toU64 key val) := by
  obtain ⟨-, hb⟩ := home_bound toU64 e key
  have hidx : (m.start toU64 key val).idx = home toU64 (2 ^ e) key := rfl
  have hdib : (m.start toU64 key val).dib = 0 := rfl
  have hkey : (m.start toU64 key val).key = key := rfl
  exact ⟨h, by rw [hidx]; omega, by rw [hidx, hdib, hkey, Nat.add_zero]⟩

/-- **`AddNode`** keeps every entry at its distance. -/
theorem Placed.addNode [DecidableEq K] (h : Placed toU64 m) {val : V} {fuel : Nat}
    (hst : ∀ d ∈ addStores toU64 fuel m key val, d < 128)
    (hadd : addNodeWithin toU64 fuel m key val = .ok m') : Placed toU64 m' := by
  unfold addNodeWithin at hadd
  unfold addStores at hst
  cases hget : m.getVal toU64 key with
  | some v =>
    rw [hget] at hadd
    cases hadd
    exact h
  | none =>
    simp only [hget] at hadd hst
    cases hl : homeLoop toU64 fuel (m.start toU64 key val) with
    | error err => rw [hl] at hadd; cases hadd
    | ok r =>
      have hhome := homeLoop_placed fuel (h.start key val) (Nat.add_zero _).symm (Nat.zero_le _)
        (fun d hd => hst d (List.mem_append_left _ hd)) hl
      cases r with
      | inl m =>
        rw [hl] at hadd
        cases hadd
        exact hhome
      | inr c =>
        simp only [hl] at hadd hst
        exact groupLoop_placed fuel hhome.1 (fun hne => absurd hhome.2 hne)
          (fun d hd => hst d (List.mem_append_right _ hd)) hadd

/-! ### Deletion -/

theorem shiftLoop_placed [Inhabited K] [Inhabited V] : ∀ (fuel : Nat) {m : FlatHashMap K V (2 ^ e)}
    {idx : Nat}, Placed toU64 m → idx < totalSize (2 ^ e) → shiftLoop toU64 fuel m idx = .ok m' →
    Placed toU64 m'
  | 0, _, _, _, _, hs => by cases hs
  | fuel + 1, m, idx, h, hidx, hs => by
    rw [shiftLoop] at hs
    have hnext : wrap (2 ^ e) (idx + 1) = next (totalSize (2 ^ e)) idx := wrap_eq e _
    rw [hnext] at hs
    have hlt : next (totalSize (2 ^ e)) idx < totalSize (2 ^ e) := next_lt hidx
    split at hs
    · cases hs
      exact h.clear hidx
    · next hgo =>
      rw [not_or] at hgo
      have hpos : 0 < (m.tags (next (totalSize (2 ^ e)) idx)).toNat :=
        Nat.pos_of_ne_zero fun h0 => hgo.2 (UInt8.toNat_inj.1 h0)
      have hnear := h.coherent.near _ hlt hgo.1
      obtain ⟨hN, hplace⟩ := h.place _ hlt hgo.1
      refine shiftLoop_placed fuel (h.write hidx (by omega) (by omega) ?_ _) hlt hs
      -- one slot up, one nearer to home
      refine mod_of_next hidx ?_
      rw [Nat.add_assoc, Nat.sub_add_cancel hpos]
      exact hplace

theorem Placed.deleteNode [DecidableEq K] [Inhabited K] [Inhabited V] (h : Placed toU64 m)
    {fuel : Nat} (hdelete : deleteNodeWithin toU64 fuel m key = .ok m') : Placed toU64 m' := by
  unfold deleteNodeWithin at hdelete
  split at hdelete
  · cases hdelete
    exact h
  · next hfind =>
    obtain ⟨-, hb⟩ := home_bound toU64 e key
    exact shiftLoop_placed fuel h (findLoop_some (by omega) hfind).1 hdelete

/-! ## Reachable tables -/

variable [DecidableEq K] [Inhabited K] [Inhabited V]

theorem Reachable.placed (h : Reachable toU64 m) : Placed toU64 m := by
  induction h with
  | new => exact new_placed
  | addNode key val fuel _ hstores hadd ih => exact ih.addNode hstores hadd
  | deleteNode key fuel _ hdelete ih => exact ih.deleteNode hdelete

omit [Inhabited K] [Inhabited V] in
theorem findSlot_slots (key : K) : m.slots.findSlot toU64 key = m.findSlot toU64 key := by
  have hloop : ∀ fuel idx dib, findLoop toU64 m.slots key fuel idx dib =
      findLoop toU64 m key fuel idx dib := by
    intro fuel
    induction fuel with
    | zero => exact fun _ _ => rfl
    | succ fuel ih =>
      intro idx dib
      rw [findLoop, findLoop, ih]
      rfl
  exact hloop _ _ _

/-- **The two searches agree** on every reachable table: `GetVal` finds a key exactly when the
search of `DeleteNode` does, in the same slot. -/
theorem reachable_searches_agree (h : Reachable toU64 m) (key : K) :
    m.slots.getVal toU64 key = m.findSlot toU64 key ∧
      m.getVal toU64 key = (m.findSlot toU64 key).map m.data := by
  have hplaced := h.placed
  have hslots : Placed toU64 m.slots :=
    ⟨⟨hplaced.coherent.mirror, hplaced.coherent.near, hplaced.coherent.print⟩, hplaced.place⟩
  refine ⟨?_, hplaced.getVal_eq_findSlot key⟩
  have hget := hslots.getVal_eq_findSlot key
  rw [findSlot_slots] at hget
  rw [hget]
  exact Option.map_id'

/-- The distances that a call stores in the model's rounds. -/
def stores (toU64 : K → UInt64) (m : FlatHashMap K V (2 ^ e)) : Call K V → List Nat
  | .addNode k v => addStores toU64 (totalSize (2 ^ e) + 1) m k v
  | _ => []

open Run in
theorem run_reachable {calls : List (Call K V)} {outs : List (Option V)}
    (h : Along (fun (m : FlatHashMap K V (2 ^ e)) c => ∀ d ∈ stores toU64 m c, d < 128)
      (call toU64) new calls)
    (hrun : run (call toU64) new calls = .ok (m, outs)) : Reachable toU64 m := by
  refine run_invariant (P := fun _ m _ => Reachable toU64 m) .new h ?_ hrun
  intro xs c m₁ bs m₂ b _ _ hm₁ hc hcall
  cases c with
  | addNode k v =>
    cases hadd : m₁.addNode toU64 k v with
    | error err => rw [call, hadd] at hcall; cases hcall
    | ok m₃ =>
      rw [call, hadd] at hcall
      cases hcall
      exact hm₁.addNode k v _ hc hadd
  | deleteNode k =>
    cases hdelete : m₁.deleteNode toU64 k with
    | error err => rw [call, hdelete] at hcall; cases hcall
    | ok m₃ =>
      rw [call, hdelete] at hcall
      cases hcall
      exact hm₁.deleteNode k _ hdelete
  | getVal k =>
    cases hcall
    exact hm₁

end

open Run in
/-- The table that has lost key 64, which it holds out of order in slot 32: neither search finds it,
and once it is added again both find the second copy. -/
theorem searches_agree_skippedGroup :
    (∃ m outs, run (call id) (new : FlatHashMap UInt64 Nat (2 ^ 2)) skippedGroup = .ok (m, outs) ∧
      m.slots.getVal id 64 = m.findSlot id 64 ∧ m.findSlot id 64 = none ∧ m.keys 32 = 64) ∧
    ∃ m outs, run (call id) (new : FlatHashMap UInt64 Nat (2 ^ 2))
        (skippedGroup ++ [.deleteNode 1, .addNode 64 7]) = .ok (m, outs) ∧
      m.slots.getVal id 64 = m.findSlot id 64 ∧ m.findSlot id 64 = some 16 ∧ m.keys 32 = 64 := by
  constructor
  · obtain ⟨m, outs, hrun, hfind, hkey⟩ := exists_of_succeeds
      (P := fun m (_ : List (Option Nat)) => m.findSlot id 64 = none ∧ m.keys 32 = 64)
      (r := run (call id) (new : FlatHashMap UInt64 Nat (2 ^ 2)) skippedGroup) (by decide +kernel)
    have hreach := run_reachable (by decide +kernel) hrun
    exact ⟨m, outs, hrun, (reachable_searches_agree hreach 64).1, hfind, hkey⟩
  · obtain ⟨m, outs, hrun, hfind, hkey⟩ := exists_of_succeeds
      (P := fun m (_ : List (Option Nat)) => m.findSlot id 64 = some 16 ∧ m.keys 32 = 64)
      (r := run (call id) (new : FlatHashMap UInt64 Nat (2 ^ 2))
        (skippedGroup ++ [.deleteNode 1, .addNode 64 7])) (by decide +kernel)
    have hreach := run_reachable (by decide +kernel) hrun
    exact ⟨m, outs, hrun, (reachable_searches_agree hreach 64).1, hfind, hkey⟩

end Naoto.FlatHashMap
