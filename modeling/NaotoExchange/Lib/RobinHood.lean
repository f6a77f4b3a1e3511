import Mathlib

/-!
# Robin Hood tables

A table is a circle of `N` slots. An entry sits at its distance `dib` behind the home slot of its
key. The one invariant that lookups rest on is local: an entry that is `d + 1` away from home has a
neighbour in front of it that is at least `d` away (`Fits`). It follows that every slot between an
entry and its home holds an entry that is at least as far from home as the slot is from the first
one's home (`Valid.chain`), so that a search may stop at the first slot that is nearer.

Insertion is a flight: the entry moves from slot to slot, is put into a free one, or takes the place
of an entry nearer to home, which then flies on (`Flight.put`, `Flight.swap`, `Flight.pass`). A far
flight takes many keys with homes close together (`Flight.load`).
Deletion is a hole that moves in the same direction until nothing behind it has to move up
(`Valid.remove`, `Hole.shift`, `Hole.close`).
-/

namespace RobinHood

/-- An entry with its distance from home. -/
structure Entry (K V : Type) where
  dib : Nat
  key : K
  val : V

/-- The slots; those below `N` count. -/
abbrev Table (K V : Type) := Nat → Option (Entry K V)

/-- The slot behind `i`. -/
def next (N i : Nat) : Nat := (i + 1) % N

section
variable {N i j a b : Nat}

theorem next_eq (h : i < N) : next N i = if i + 1 = N then 0 else i + 1 := by
  unfold next
  split
  · next he => rw [he, Nat.mod_self]
  · exact Nat.mod_eq_of_lt (by omega)

theorem next_lt (h : i < N) : next N i < N := Nat.mod_lt _ (by omega)

theorem next_inj (hi : i < N) (hj : j < N) (h : next N i = next N j) : i = j := by
  rw [next_eq hi, next_eq hj] at h
  split at h <;> split at h <;> omega

theorem next_ne (hN : 1 < N) (h : i < N) : next N i ≠ i := by
  rw [next_eq h]
  split <;> omega

theorem next_next_ne (hN : 2 < N) (h : i < N) : next N (next N i) ≠ i := by
  rw [next_eq (next_lt h), next_eq h]
  split <;> split <;> omega

theorem next_mod (a : Nat) : next N (a % N) = (a + 1) % N := Nat.mod_add_mod _ _ _

theorem next_add (a b : Nat) : (next N a + b) % N = (a + (b + 1)) % N := by
  rw [next, Nat.mod_add_mod]
  congr 1
  omega

theorem add_mod_ne (h : i < N) (h0 : 0 < a) (ha : a < N) : (i + a) % N ≠ i := by
  intro he
  rcases Nat.lt_or_ge (i + a) N with hlt | hge
  · rw [Nat.mod_eq_of_lt hlt] at he
    omega
  · rw [Nat.mod_eq_sub_mod hge, Nat.mod_eq_of_lt (by omega)] at he
    omega

theorem mod_of_next (hj : j < N) (h : (a + 1) % N = next N j) : a % N = j :=
  next_inj (Nat.mod_lt _ (by omega)) hj (by rw [next_mod, h])

end

variable {K V : Type}

/-- An entry that far from home may sit at `p`: it is at home, or the slot in front holds an entry
that is at most one nearer. -/
def Fits (N : Nat) (T : Table K V) (p d : Nat) : Prop :=
  ∀ i < N, next N i = p → ∀ d', d = d' + 1 → ∃ e, T i = some e ∧ d' ≤ e.dib

/-- The entry of key `k` and value `v` is in a slot. -/
def Stored (N : Nat) (T : Table K V) (k : K) (v : V) : Prop :=
  ∃ i < N, ∃ e, T i = some e ∧ e.key = k ∧ e.val = v

/-- The entry of key `k` and value `v` is in a slot other than `p`. -/
def Elsewhere (N : Nat) (T : Table K V) (p : Nat) (k : K) (v : V) : Prop :=
  ∃ i < N, i ≠ p ∧ ∃ e, T i = some e ∧ e.key = k ∧ e.val = v

/-- The table holds the map `f`. -/
def Contents (N : Nat) (T : Table K V) (f : K → Option V) : Prop :=
  ∀ k v, f k = some v ↔ Stored N T k v

/-- Slot `i` is at the entry's distance from its home. -/
def At (N : Nat) (home : K → Nat) (i : Nat) (e : Entry K V) : Prop :=
  e.dib < N ∧ (home e.key + e.dib) % N = i

/-- Every entry sits at its distance from home and fits there, and no key is stored twice. -/
structure Valid (N : Nat) (home : K → Nat) (T : Table K V) : Prop where
  place : ∀ i < N, ∀ e, T i = some e → At N home i e
  fits : ∀ i < N, ∀ e, T i = some e → Fits N T i e.dib
  unique : ∀ i < N, ∀ j < N, ∀ e e', T i = some e → T j = some e' → e.key = e'.key → i = j

section
variable {N : Nat} {home : K → Nat} {T : Table K V} {p d i : Nat} {e : Entry K V} {k : K} {v : V}

/-- The slots from an entry's home up to it are taken by entries that are far enough from home. -/
theorem Valid.chain (h : Valid N home T) (hi : i < N) (he : T i = some e) :
    ∀ j, j ≤ e.dib → ∃ e', T ((home e.key + j) % N) = some e' ∧ j ≤ e'.dib := by
  -- from the entry backwards: `n` is the distance from it
  have hback : ∀ n, n ≤ e.dib → ∃ e', T ((home e.key + (e.dib - n)) % N) = some e' ∧
      e.dib - n ≤ e'.dib := by
    intro n
    induction n with
    | zero => exact fun _ => ⟨e, by rw [Nat.sub_zero, (h.place i hi e he).2]; exact he, by omega⟩
    | succ n ih =>
      intro hn
      obtain ⟨e₁, he₁, hd₁⟩ := ih (by omega)
      have hN : 0 < N := by omega
      obtain ⟨a, ha⟩ : ∃ a, e₁.dib = a + 1 := ⟨e₁.dib - 1, by omega⟩
      obtain ⟨e₂, he₂, hd₂⟩ := h.fits _ (Nat.mod_lt _ hN) e₁ he₁
        ((home e.key + (e.dib - (n + 1))) % N) (Nat.mod_lt _ hN)
        (by rw [next_mod]; congr 1; omega) a ha
      exact ⟨e₂, he₂, by omega⟩
  intro j hj
  obtain ⟨e', he', hd'⟩ := hback (e.dib - j) (by omega)
  rw [show e.dib - (e.dib - j) = j by omega] at he' hd'
  exact ⟨e', he', hd'⟩

/-- A table is valid if the slots between an entry and its home hold entries that are far enough
from theirs. -/
theorem Valid.of_chain (hplace : ∀ i < N, ∀ e, T i = some e → At N home i e)
    (hchain : ∀ i < N, ∀ e, T i = some e → ∀ j < e.dib,
      ∃ e', T ((home e.key + j) % N) = some e' ∧ j ≤ e'.dib)
    (hunique : ∀ i < N, ∀ j < N, ∀ e e', T i = some e → T j = some e' → e.key = e'.key → i = j) :
    Valid N home T where
  place := hplace
  unique := hunique
  fits := by
    intro i hi e he p hp hnext d hd
    have hslot : (home e.key + d + 1) % N = next N p := by
      rw [hnext, Nat.add_assoc, ← hd]
      exact (hplace i hi e he).2
    obtain ⟨e', he', hle⟩ := hchain i hi e he d (by omega)
    rw [mod_of_next hp hslot] at he'
    exact ⟨e', he', hle⟩

theorem exists_contents
    (hunique : ∀ i < N, ∀ j < N, ∀ e e', T i = some e → T j = some e' → e.key = e'.key → i = j) :
    ∃ f, Contents N T f := by
  classical
  refine ⟨fun k => if h : ∃ v, Stored N T k v then some h.choose else none, fun k v => ?_⟩
  constructor
  · intro hv
    beta_reduce at hv
    split at hv
    · next h =>
      rw [← Option.some.inj hv]
      exact h.choose_spec
    · cases hv
  · intro hv
    have h : ∃ w, Stored N T k w := ⟨v, hv⟩
    obtain ⟨i, hi, e, he, hk, hval⟩ := hv
    obtain ⟨j, hj, e', he', hk', hval'⟩ := h.choose_spec
    obtain rfl := hunique i hi j hj e e' he he' (hk.trans hk'.symm)
    beta_reduce
    rw [dif_pos h, ← hval', ← hval, Option.some.inj (he.symm.trans he')]

theorem stored_update (hp : p < N) (x : Option (Entry K V)) :
    Stored N (Function.update T p x) k v ↔
      (∃ e, x = some e ∧ e.key = k ∧ e.val = v) ∨ Elsewhere N T p k v := by
  constructor
  · rintro ⟨i, hi, e, he, hk⟩
    by_cases hip : i = p
    · subst hip
      rw [Function.update_self] at he
      exact .inl ⟨e, he, hk⟩
    · rw [Function.update_of_ne hip] at he
      exact .inr ⟨i, hi, hip, e, he, hk⟩
  · rintro (⟨e, he, hk⟩ | ⟨i, hi, hip, e, he, hk⟩)
    · exact ⟨p, hp, e, by rw [Function.update_self]; exact he, hk⟩
    · exact ⟨i, hi, e, by rw [Function.update_of_ne hip]; exact he, hk⟩

theorem stored_iff (hp : p < N) :
    Stored N T k v ↔ (∃ e, T p = some e ∧ e.key = k ∧ e.val = v) ∨ Elsewhere N T p k v := by
  rw [← stored_update hp (T p), Function.update_eq_self]

theorem Fits.congr {T' : Table K V} (h : Fits N T p d)
    (hT : ∀ i < N, next N i = p → T' i = T i) : Fits N T' p d := by
  intro i hi hn d' hd
  rw [hT i hi hn]
  exact h i hi hn d' hd

/-- Behind an entry fits what is at most one farther from home. -/
theorem fits_next (hp : p < N) (he : T p = some e) (hd : d ≤ e.dib + 1) :
    Fits N T (next N p) d := by
  intro i hi hn d' hd'
  rw [next_inj hi hp hn]
  exact ⟨e, he, by omega⟩

end

/-! ## Insertion -/

/-- The entry `e` flies over slot `p`; with it the table holds `f`. A free slot is `gap` slots
ahead. -/
structure Flight (N : Nat) (home : K → Nat) (T : Table K V) (p : Nat) (e : Entry K V) (gap : Nat)
    (f : K → Option V) : Prop where
  valid : Valid N home T
  lt : p < N
  place : (home e.key + e.dib) % N = p
  fits : Fits N T p e.dib
  fresh : ∀ i < N, ∀ e', T i = some e' → e'.key ≠ e.key
  contents : ∀ k v, f k = some v ↔ (e.key = k ∧ e.val = v) ∨ Stored N T k v
  free : T ((p + gap) % N) = none
  room : e.dib + gap < N

section
variable {N : Nat} {home : K → Nat} {T : Table K V} {p gap : Nat} {e e' : Entry K V}
  {f : K → Option V}

theorem Valid.start [DecidableEq K] (h : Valid N home T) (hc : Contents N T f) {k : K} (v : V)
    (hh : home k < N) (hk : f k = none) {z : Nat} (hz : z < N) (hfree : T z = none) :
    ∃ gap, Flight N home T (home k) ⟨0, k, v⟩ gap (Function.update f k (some v)) := by
  refine ⟨(z + (N - home k)) % N, h, hh, Nat.mod_eq_of_lt hh, ?_, ?_, fun k' v' => ?_, ?_, ?_⟩
  · intro i _ _ d' hd
    exact absurd hd (by simp)
  · intro i hi e' he' hke
    have := (hc k e'.val).2 ⟨i, hi, e', he', hke, rfl⟩
    rw [hk] at this
    cases this
  · rw [← hc k' v']
    by_cases hkk : k' = k
    · subst hkk
      rw [Function.update_self, hk]
      simp
    · rw [Function.update_of_ne hkk]
      constructor
      · exact .inr
      · rintro (⟨he, -⟩ | hs)
        · exact absurd he.symm hkk
        · exact hs
  · rw [Nat.add_mod_mod, show home k + (z + (N - home k)) = z + N by omega, Nat.add_mod_right,
      Nat.mod_eq_of_lt hz]
    exact hfree
  · have := Nat.mod_lt (z + (N - home k)) (show 0 < N by omega)
    simpa using this

/-- The free slot is not the one the entry flies over if that is taken. -/
theorem Flight.gap_pos (h : Flight N home T p e gap f) (hp : T p = some e') :
    ∃ g, gap = g + 1 := by
  cases gap with
  | zero =>
    have := h.free
    rw [Nat.add_zero, Nat.mod_eq_of_lt h.lt, hp] at this
    cases this
  | succ g => exact ⟨g, rfl⟩

theorem Flight.place_update (h : Flight N home T p e gap f) :
    ∀ i < N, ∀ x, Function.update T p (some e) i = some x → At N home i x := by
  intro i hi x hx
  by_cases hip : i = p
  · subst hip
    rw [Function.update_self, Option.some.injEq] at hx
    rw [← hx]
    exact ⟨by have := h.room; omega, h.place⟩
  · rw [Function.update_of_ne hip] at hx
    exact h.valid.place i hi x hx

theorem Flight.unique_update (h : Flight N home T p e gap f) :
    ∀ i < N, ∀ j < N, ∀ x y, Function.update T p (some e) i = some x →
      Function.update T p (some e) j = some y → x.key = y.key → i = j := by
  intro i hi j hj x y hx hy hk
  by_cases hip : i = p
  · by_cases hjp : j = p
    · rw [hip, hjp]
    · subst hip
      rw [Function.update_self, Option.some.injEq] at hx
      rw [Function.update_of_ne hjp] at hy
      exact absurd (by rw [hx]; exact hk.symm) (h.fresh j hj y hy)
  · rw [Function.update_of_ne hip] at hx
    by_cases hjp : j = p
    · subst hjp
      rw [Function.update_self, Option.some.injEq] at hy
      exact absurd (by rw [hy]; exact hk) (h.fresh i hi x hx)
    · rw [Function.update_of_ne hjp] at hy
      exact h.valid.unique i hi j hj x y hx hy hk

/-- Every entry still fits, if the one in slot `p`, if any, was nearer to home. -/
theorem Flight.fits_update (hN : 1 < N) (h : Flight N home T p e gap f)
    (hnear : ∀ x, T p = some x → x.dib ≤ e.dib) :
    ∀ i < N, ∀ x, Function.update T p (some e) i = some x →
      Fits N (Function.update T p (some e)) i x.dib := by
  intro i hi x hx
  by_cases hip : i = p
  · subst hip
    rw [Function.update_self, Option.some.injEq] at hx
    rw [← hx]
    refine h.fits.congr fun j hj hn => Function.update_of_ne ?_ _ _
    rintro rfl
    exact next_ne hN hj hn
  · rw [Function.update_of_ne hip] at hx
    intro j hj hn d' hd
    obtain ⟨y, hy, hd'⟩ := h.valid.fits i hi x hx j hj hn d' hd
    by_cases hjp : j = p
    · subst hjp
      exact ⟨e, Function.update_self .., Nat.le_trans hd' (hnear y hy)⟩
    · exact ⟨y, by rw [Function.update_of_ne hjp]; exact hy, hd'⟩

/-- **Into a free slot**: the flight ends. -/
theorem Flight.put (hN : 1 < N) (h : Flight N home T p e gap f) (hp : T p = none) :
    Valid N home (Function.update T p (some e)) ∧ Contents N (Function.update T p (some e)) f := by
  refine ⟨⟨h.place_update, h.fits_update hN fun x hx => ?_, h.unique_update⟩, fun k v => ?_⟩
  · rw [hp] at hx
    cases hx
  · rw [h.contents, stored_update h.lt, stored_iff h.lt, hp]
    simp

/-- **Past an entry** that is at least as far from home. -/
theorem Flight.pass (h : Flight N home T p e gap f) (hp : T p = some e') (hd : e.dib ≤ e'.dib) :
    ∃ g, gap = g + 1 ∧ Flight N home T (next N p) { e with dib := e.dib + 1 } g f := by
  obtain ⟨g, rfl⟩ := h.gap_pos hp
  refine ⟨g, rfl, h.valid, next_lt h.lt, ?_, fits_next h.lt hp (by simpa using hd), h.fresh,
    h.contents, ?_, ?_⟩
  · show (home e.key + (e.dib + 1)) % N = next N p
    rw [← h.place, next_mod, Nat.add_assoc]
  · rw [next_add]
    exact h.free
  · have := h.room
    show e.dib + 1 + g < N
    omega

theorem Flight.pass_many (h : Flight N home T p e gap f) : ∀ n,
    (∀ i < n, ∃ x, T ((p + i) % N) = some x ∧ e.dib + i ≤ x.dib) →
    ∃ g, gap = g + n ∧ Flight N home T ((p + n) % N) { e with dib := e.dib + n } g f
  | 0, _ => ⟨gap, rfl, by rw [Nat.add_zero, Nat.mod_eq_of_lt h.lt]; exact h⟩
  | n + 1, hpass => by
    obtain ⟨g, rfl, hn⟩ := h.pass_many n fun i hi => hpass i (by omega)
    obtain ⟨x, hx, hd⟩ := hpass n (by omega)
    obtain ⟨g', rfl, hn'⟩ := hn.pass hx hd
    rw [next_mod] at hn'
    exact ⟨g', by omega, hn'⟩

/-- **In place of an entry** nearer to home, which flies on. -/
theorem Flight.swap (hN : 1 < N) (h : Flight N home T p e gap f) (hp : T p = some e')
    (hd : e'.dib < e.dib) :
    ∃ g, gap = g + 1 ∧ Flight N home (Function.update T p (some e)) (next N p)
      { e' with dib := e'.dib + 1 } g f := by
  obtain ⟨g, rfl⟩ := h.gap_pos hp
  have hroom := h.room
  have hself : Function.update T p (some e) p = some e := Function.update_self ..
  refine ⟨g, rfl, ⟨h.place_update, h.fits_update hN fun x hx => ?_, h.unique_update⟩, next_lt h.lt,
    ?_, fits_next h.lt hself (by show e'.dib + 1 ≤ _; omega), fun i hi x hx => ?_,
    fun k v => ?_, ?_, ?_⟩
  · rw [hp, Option.some.injEq] at hx
    rw [← hx]
    omega
  · show (home e'.key + (e'.dib + 1)) % N = next N p
    rw [← (h.valid.place p h.lt e' hp).2, next_mod, Nat.add_assoc]
  · show x.key ≠ e'.key
    by_cases hip : i = p
    · subst hip
      rw [Function.update_self, Option.some.injEq] at hx
      rw [← hx]
      exact (h.fresh i hi e' hp).symm
    · rw [Function.update_of_ne hip] at hx
      exact fun hk => hip (h.valid.unique i hi p h.lt x e' hx hp hk)
  · rw [h.contents, stored_update h.lt, stored_iff h.lt, hp]
    simp only [Option.some.injEq, exists_eq_left']
    exact or_left_comm
  · rw [next_add, Function.update_of_ne]
    · exact h.free
    · exact add_mod_ne h.lt (by omega) (by omega)
  · show e'.dib + 1 + g < N
    omega

end

/-! ## How far a flight gets -/

section
variable {N : Nat} {home : K → Nat} {T : Table K V} {p gap : Nat} {e : Entry K V}
  {f : K → Option V}

/-- The slot `j` in front of `p` on the circle. -/
def back (N p j : Nat) : Nat := (p + (N - j)) % N

theorem next_back {j : Nat} (hj : j + 1 ≤ N) : next N (back N p (j + 1)) = back N p j := by
  rw [back, next_mod, back]
  congr 1
  omega

theorem back_zero (hp : p < N) : back N p 0 = p := by
  rw [back, Nat.sub_zero, Nat.add_mod_right, Nat.mod_eq_of_lt hp]

theorem back_lt (hN : 0 < N) (j : Nat) : back N p j < N := Nat.mod_lt _ hN

theorem back_add {i k : Nat} (hi : i ≤ k) (hk : k ≤ N) :
    (back N p k + i) % N = back N p (k - i) := by
  rw [back, Nat.mod_add_mod, back]
  congr 1
  omega

/-- What is `i` slots in front of the slot that is `j` in front of `p`. -/
theorem back_of_add {a i j : Nat} (hij : i + j ≤ N) (h : (a + i) % N = back N p j) :
    a % N = back N p (i + j) := by
  have heq : a + i ≡ p + (N - (i + j)) + i [MOD N] := by
    rw [Nat.ModEq, h, back]
    congr 1
    omega
  exact Nat.ModEq.add_right_cancel' i heq

theorem back_inj {i j : Nat} (hi : i < N) (hj : j < N) (h : back N p i = back N p j) : i = j := by
  have hN : 0 < N := by omega
  rcases Nat.lt_trichotomy i j with hlt | heq | hlt
  · refine absurd ?_ (add_mod_ne (i := back N p j) (back_lt hN j) (show 0 < j - i by omega)
      (by omega))
    rw [back_add (Nat.sub_le j i) (by omega), Nat.sub_sub_self hlt.le]
    exact h
  · exact heq
  · refine absurd ?_ (add_mod_ne (i := back N p i) (back_lt hN i) (show 0 < i - j by omega)
      (by omega))
    rw [back_add (Nat.sub_le i j) (by omega), Nat.sub_sub_self hlt.le]
    exact h.symm

/-- At `k` slots in front of the flight an entry is at home; the flying one is if `k` is 0. -/
def AtHome (N : Nat) (T : Table K V) (p d k : Nat) : Prop :=
  (k = 0 ∧ d = 0) ∨ (0 < k ∧ ∃ x, T (back N p k) = some x ∧ x.dib = 0)

/-- The slots in front are taken as long as no entry in them is at home. -/
theorem Flight.taken (h : Flight N home T p e gap f) : ∀ j, j + 1 ≤ N →
    (∀ k ≤ j, ¬ AtHome N T p e.dib k) →
    ∃ x, T (back N p (j + 1)) = some x ∧ e.dib ≤ x.dib + (j + 1) := by
  have hN : 0 < N := by have := h.lt; omega
  intro j
  induction j with
  | zero =>
    intro h1 hno
    have hd : e.dib ≠ 0 := fun hd => hno 0 (Nat.le_refl _) (.inl ⟨rfl, hd⟩)
    obtain ⟨x, hx, hle⟩ := h.fits (back N p 1) (back_lt hN 1) (by rw [next_back h1, back_zero h.lt])
      (e.dib - 1) (by omega)
    exact ⟨x, hx, by omega⟩
  | succ j ih =>
    intro h1 hno
    obtain ⟨x, hx, hle⟩ := ih (by omega) fun k hk => hno k (by omega)
    have hd : x.dib ≠ 0 := fun hd => hno (j + 1) (Nat.le_refl _) (.inr ⟨by omega, x, hx, hd⟩)
    obtain ⟨y, hy, hle'⟩ := h.valid.fits _ (back_lt hN _) x hx (back N p (j + 1 + 1)) (back_lt hN _)
      (next_back h1) (x.dib - 1) (by omega)
    exact ⟨y, hy, by omega⟩

/-- Some way in front an entry is at home: the free slot ends the way back. -/
theorem Flight.exists_home (h : Flight N home T p e gap f) :
    ∃ k, k + gap < N ∧ AtHome N T p e.dib k ∧ ∀ k' < k, ¬ AtHome N T p e.dib k' := by
  have hroom := h.room
  have hex : ∃ k, k + gap < N ∧ AtHome N T p e.dib k := by
    by_contra hno
    push Not at hno
    obtain ⟨x, hx, -⟩ := h.taken (N - gap - 1) (by omega) fun k hk => hno k (by omega)
    have hfree := h.free
    have hback : back N p (N - gap - 1 + 1) = (p + gap) % N := by
      rw [back]
      congr 1
      omega
    rw [hback, hfree] at hx
    cases hx
  classical
  exact ⟨Nat.find hex, (Nat.find_spec hex).1, (Nat.find_spec hex).2, fun k' hk' hat =>
    Nat.find_min hex hk' ⟨by have := (Nat.find_spec hex).1; omega, hat⟩⟩

/-- An entry behind one that is at home has its home behind that one's. -/
theorem Valid.dib_le_of_home (h : Valid N home T) {x y : Entry K V} {j k : Nat} (hjk : j ≤ k)
    (hk : k < N) (hx : T (back N p j) = some x) (hy : T (back N p k) = some y) (h0 : y.dib = 0) :
    x.dib + j ≤ k := by
  by_contra hlt
  have hN : 0 < N := by omega
  obtain ⟨z, hz, hle⟩ := h.chain (back_lt hN j) hx (x.dib - (k - j)) (by omega)
  have hback : (home x.key + (x.dib - (k - j))) % N = back N p (k - j + j) := by
    refine back_of_add (by omega) ?_
    rw [Nat.add_assoc, Nat.sub_add_cancel (by omega)]
    exact (h.place _ (back_lt hN j) x hx).2
  rw [hback, Nat.sub_add_cancel hjk, hy, Option.some.injEq] at hz
  rw [← hz] at hle
  omega

/-- The key of an entry, the flying one's where there is none. -/
def keyAt (T : Table K V) (e : Entry K V) (i : Nat) : K := ((T i).getD e).key

/-- **The way back** to an entry at home: it is at least as long as the flight, and the homes of all
entries on it are between that home and the flying entry's. -/
theorem Flight.way (h : Flight N home T p e gap f) :
    ∃ n < N, e.dib ≤ n ∧ (∃ k, home k % N = back N p n) ∧ ∀ j < n,
      ∃ x, T (back N p (j + 1)) = some x ∧ e.dib ≤ x.dib + (j + 1) ∧ x.dib + (j + 1) ≤ n := by
  obtain ⟨n, hn, hat, hmin⟩ := h.exists_home
  have hN : 0 < N := by omega
  have htaken : ∀ j < n, ∃ x, T (back N p (j + 1)) = some x ∧ e.dib ≤ x.dib + (j + 1) :=
    fun j hj => h.taken j (by omega) fun k hk => hmin k (by omega)
  rcases hat with ⟨rfl, hd⟩ | ⟨hpos, y, hy, h0⟩
  · refine ⟨0, by omega, by omega, ⟨e.key, ?_⟩, fun j hj => absurd hj (Nat.not_lt_zero j)⟩
    have hplace := h.place
    rw [hd] at hplace
    rw [back_zero h.lt]
    exact hplace
  · have hplace := (h.valid.place _ (back_lt hN n) y hy).2
    rw [h0] at hplace
    refine ⟨n, by omega, ?_, ⟨y.key, hplace⟩, fun j hj => ?_⟩
    · obtain ⟨x, hx, hle⟩ := htaken (n - 1) (by omega)
      rw [Nat.sub_add_cancel hpos, hy, Option.some.injEq] at hx
      rw [← hx] at hle
      omega
    · obtain ⟨x, hx, hle⟩ := htaken j hj
      exact ⟨x, hx, hle, h.valid.dib_le_of_home (by omega) (by omega) hx hy h0⟩

theorem Flight.mem (h : Flight N home T p e gap f) : f e.key ≠ none := by
  rw [(h.contents e.key e.val).mpr (.inl ⟨rfl, rfl⟩)]
  exact Option.some_ne_none _

theorem Flight.mem_of_slot (h : Flight N home T p e gap f) {i : Nat} {x : Entry K V} (hi : i < N)
    (hx : T i = some x) : f x.key ≠ none := by
  rw [(h.contents x.key x.val).mpr (.inr ⟨i, hi, x, hx, rfl, rfl⟩)]
  exact Option.some_ne_none _

/-- **What a far flight takes**: the homes of `m + dib + 1` keys are among the `m + 1` slots that
end with the flying entry's home, the first of which is the home of a key. -/
theorem Flight.load (h : Flight N home T p e gap f) :
    ∃ a m, m < N ∧ (∃ k, home k % N = a) ∧ home e.key % N = (a + m) % N ∧
      ∃ ks : List K, ks.Nodup ∧ ks.length = m + e.dib + 1 ∧
        ∀ k ∈ ks, f k ≠ none ∧ ∃ t ≤ m, home k % N = (a + t) % N := by
  obtain ⟨n, hn, hd, hfirst, hway⟩ := h.way
  have hN : 0 < N := by omega
  have hplace : (home e.key + e.dib) % N = back N p 0 := by rw [back_zero h.lt]; exact h.place
  have hhome : ∀ {q i j : Nat}, i + j ≤ n → (q + i) % N = back N p j →
      q % N = (back N p n + (n - (i + j))) % N := fun {q i j} hij hq => by
    rw [back_add (by omega) (by omega), Nat.sub_sub_self hij]
    exact back_of_add (by omega) hq
  refine ⟨back N p n, n - e.dib, by omega, hfirst, hhome (by omega) hplace,
    e.key :: (List.range n).map fun j => keyAt T e (back N p (j + 1)), ?_, ?_, fun q hq => ?_⟩
  · refine List.nodup_cons.mpr ⟨fun hmem => ?_, List.Nodup.map_on (fun i hi j hj he => ?_)
      List.nodup_range⟩
    · obtain ⟨j, hj, he⟩ := List.mem_map.mp hmem
      obtain ⟨x, hx, -⟩ := hway j (List.mem_range.mp hj)
      rw [keyAt, hx] at he
      exact h.fresh _ (back_lt hN _) x hx he
    · have hi := List.mem_range.mp hi
      have hj := List.mem_range.mp hj
      obtain ⟨x, hx, -⟩ := hway i hi
      obtain ⟨y, hy, -⟩ := hway j hj
      rw [keyAt, keyAt, hx, hy] at he
      have := back_inj (by omega) (by omega)
        (h.valid.unique _ (back_lt hN _) _ (back_lt hN _) x y hx hy he)
      omega
  · rw [List.length_cons, List.length_map, List.length_range]
    omega
  · rcases List.mem_cons.mp hq with rfl | hq
    · exact ⟨h.mem, _, Nat.le_refl _, hhome (by omega) hplace⟩
    · obtain ⟨j, hj, rfl⟩ := List.mem_map.mp hq
      obtain ⟨x, hx, hle, hle'⟩ := hway j (List.mem_range.mp hj)
      rw [show keyAt T e (back N p (j + 1)) = x.key by rw [keyAt, hx]; rfl]
      exact ⟨h.mem_of_slot (back_lt hN _) hx, _, by omega,
        hhome hle' (h.valid.place _ (back_lt hN _) x hx).2⟩

end

/-! ## Deletion -/

/-- Slot `c` has been vacated by an entry `o` away from home; only the entry behind it may not fit
any more. -/
structure Hole (N : Nat) (home : K → Nat) (T : Table K V) (c o : Nat) (f : K → Option V) :
    Prop where
  lt : c < N
  empty : T c = none
  place : ∀ i < N, ∀ e, T i = some e → At N home i e
  fits : ∀ i < N, i ≠ next N c → ∀ e, T i = some e → Fits N T i e.dib
  behind : ∀ e, T (next N c) = some e → e.dib ≤ o + 1
  fit : Fits N T c o
  unique : ∀ i < N, ∀ j < N, ∀ e e', T i = some e → T j = some e' → e.key = e'.key → i = j
  contents : Contents N T f

section
variable {N : Nat} {home : K → Nat} {T : Table K V} {c o t : Nat} {e : Entry K V}
  {f : K → Option V}

theorem of_update_none {p i : Nat} (h : Function.update T p none i = some e) :
    i ≠ p ∧ T i = some e := by
  by_cases hip : i = p
  · subst hip
    rw [Function.update_self] at h
    cases h
  · rw [Function.update_of_ne hip] at h
    exact ⟨hip, h⟩

/-- **Taking an entry out.** -/
theorem Valid.remove [DecidableEq K] (hN : 1 < N) (h : Valid N home T) (hcs : Contents N T f)
    (hc : c < N) (he : T c = some e) :
    Hole N home (Function.update T c none) c e.dib (Function.update f e.key none) where
  lt := hc
  empty := Function.update_self ..
  place := fun i hi x hx => h.place i hi x (of_update_none hx).2
  fits := fun i hi hne x hx => (h.fits i hi x (of_update_none hx).2).congr fun j hj hn =>
    Function.update_of_ne (by rintro rfl; exact hne hn.symm) _ _
  behind := fun x hx => by
    rcases Nat.eq_zero_or_pos x.dib with h0 | hpos
    · omega
    · obtain ⟨y, hy, hd⟩ := h.fits _ (next_lt hc) x (of_update_none hx).2 c hc rfl (x.dib - 1)
        (by omega)
      rw [he, Option.some.injEq] at hy
      rw [← hy] at hd
      omega
  fit := (h.fits c hc e he).congr fun j hj hn =>
    Function.update_of_ne (by rintro rfl; exact next_ne hN hj hn) _ _
  unique := fun i hi j hj x y hx hy =>
    h.unique i hi j hj x y (of_update_none hx).2 (of_update_none hy).2
  contents := fun k v => by
    rw [stored_update hc]
    by_cases hk : k = e.key
    · subst hk
      rw [Function.update_self]
      constructor
      · intro h0
        cases h0
      · rintro (⟨x, hx, -⟩ | ⟨i, hi, hne, x, hx, hkx, -⟩)
        · cases hx
        · exact absurd (h.unique i hi c hc x e hx he hkx) hne
    · rw [Function.update_of_ne hk, hcs k v, stored_iff hc, he]
      simp [Ne.symm hk]

/-- The table after the entry behind the hole has moved up. -/
def moveUp (N : Nat) (T : Table K V) (c : Nat) (e : Entry K V) : Table K V :=
  Function.update (Function.update T c (some e)) (next N c) none

/-- **The entry behind the hole moves up**, nearer to its home by one. -/
theorem Hole.shift (hN : 2 < N) (h : Hole N home T c o f) (he : T (next N c) = some e)
    (hd : e.dib = t + 1) :
    Hole N home (moveUp N T c { e with dib := t }) (next N c) (t + 1) f := by
  have hlt := h.lt
  have hnc : next N c ≠ c := next_ne (by omega) hlt
  have hself : moveUp N T c { e with dib := t } c = some { e with dib := t } := by
    rw [moveUp, Function.update_of_ne hnc.symm, Function.update_self]
  have hother : ∀ i, i ≠ c → i ≠ next N c → moveUp N T c { e with dib := t } i = T i :=
    fun i h1 h2 => by rw [moveUp, Function.update_of_ne h2, Function.update_of_ne h1]
  -- an entry of the new table is the one that moved, or an old one
  have hmem : ∀ {i x}, moveUp N T c { e with dib := t } i = some x →
      (i = c ∧ x = { e with dib := t }) ∨ (i ≠ c ∧ i ≠ next N c ∧ T i = some x) := by
    intro i x hx
    obtain ⟨h2, hx'⟩ := of_update_none hx
    by_cases h1 : i = c
    · subst h1
      rw [Function.update_self, Option.some.injEq] at hx'
      exact .inl ⟨rfl, hx'.symm⟩
    · rw [Function.update_of_ne h1] at hx'
      exact .inr ⟨h1, h2, hx'⟩
  refine ⟨next_lt hlt, Function.update_self .., fun i hi x hx => ?_, fun i hi hne x hx => ?_,
    fun x hx => ?_, ?_, fun i hi j hj x y hx hy hk => ?_, fun k v => ?_⟩
  · rcases hmem hx with ⟨rfl, rfl⟩ | ⟨-, -, hx⟩
    · obtain ⟨hlt', hpl⟩ := h.place _ (next_lt hi) e he
      refine ⟨by show t < N; omega, mod_of_next hi ?_⟩
      rw [← hpl, hd, Nat.add_assoc]
    · exact h.place i hi x hx
  · rcases hmem hx with ⟨rfl, rfl⟩ | ⟨h1, h2, hx⟩
    · -- the hole had room for an entry as far from home as the vacated one
      intro j hj hn d' hd'
      have hb := h.behind e he
      have ht : t = d' + 1 := hd'
      obtain ⟨y, hy, hdy⟩ := h.fit j hj hn (o - 1) (by omega)
      refine ⟨y, ?_, by omega⟩
      rw [hother j (by rintro rfl; exact next_ne (by omega) hj hn)
        (by rintro rfl; exact next_next_ne hN hi hn), hy]
    · refine (h.fits i hi h2 x hx).congr fun j hj hn => hother j ?_ ?_
      · rintro rfl
        exact h2 hn.symm
      · rintro rfl
        exact hne hn.symm
  · rcases hmem hx with ⟨h1, -⟩ | ⟨-, h2, hx⟩
    · exact absurd h1 (next_next_ne hN hlt)
    · rcases Nat.eq_zero_or_pos x.dib with h0 | hpos
      · omega
      · obtain ⟨y, hy, hdy⟩ := h.fits _ (next_lt (next_lt hlt)) h2 x hx _ (next_lt hlt) rfl
          (x.dib - 1) (by omega)
        rw [he, Option.some.injEq] at hy
        rw [← hy] at hdy
        omega
  · exact fits_next hlt hself (Nat.le_refl _)
  · rcases hmem hx with ⟨rfl, rfl⟩ | ⟨-, h2, hx'⟩
    · rcases hmem hy with ⟨rfl, rfl⟩ | ⟨-, h2', hy'⟩
      · rfl
      · exact absurd (h.unique _ (next_lt hi) j hj e y he hy' hk).symm h2'
    · rcases hmem hy with ⟨rfl, rfl⟩ | ⟨-, -, hy'⟩
      · exact absurd (h.unique i hi _ (next_lt hj) x e hx' he hk) h2
      · exact h.unique i hi j hj x y hx' hy' hk
  · rw [h.contents k v]
    constructor
    · rintro ⟨i, hi, x, hx, hkv⟩
      by_cases h2 : i = next N c
      · subst h2
        rw [he, Option.some.injEq] at hx
        exact ⟨c, hlt, _, hself, by rw [← hx] at hkv; exact hkv⟩
      · refine ⟨i, hi, x, ?_, hkv⟩
        rw [hother i _ h2, hx]
        rintro rfl
        rw [h.empty] at hx
        cases hx
    · rintro ⟨i, hi, x, hx, hkv⟩
      rcases hmem hx with ⟨rfl, rfl⟩ | ⟨-, -, hx⟩
      · exact ⟨_, next_lt hi, e, he, hkv⟩
      · exact ⟨i, hi, x, hx, hkv⟩

/-- **The hole stays** when what is behind it is at home. -/
theorem Hole.close (h : Hole N home T c o f) (hb : ∀ e, T (next N c) = some e → e.dib = 0) :
    Valid N home T where
  place := h.place
  unique := h.unique
  fits := by
    intro i hi e he
    by_cases hn : i = next N c
    · subst hn
      intro j _ _ d' hd
      rw [hb e he] at hd
      cases hd
    · exact h.fits i hi hn e he

end

end RobinHood
