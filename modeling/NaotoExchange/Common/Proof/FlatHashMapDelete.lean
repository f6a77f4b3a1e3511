import NaotoExchange.Common.Proof.FlatHashMap

/-!
# Deletion

`DeleteNode` finds the slot of the key and closes the hole it leaves by moving entries up
(`RobinHood.Hole`). While it does, the slot `curIdx` still holds a stale entry; the table that
counts is the one without it.
-/

namespace Naoto

namespace FlatHashMap

open RobinHood

section
variable {K V : Type} {e : Nat} {toU64 : K → UInt64} {m : FlatHashMap K V (2 ^ e)}
  {f : K → Option V} {key : K}

/-! ## The search -/

section
variable [DecidableEq K]

theorem findLoop_some {s : Nat} : ∀ {fuel idx dib : Nat}, idx < totalSize (2 ^ e) →
    findLoop toU64 m key fuel idx dib = some s →
    s < totalSize (2 ^ e) ∧ m.tags s ≠ emptyMarker ∧ m.keys s = key
  | 0, _, _, _, h => by cases h
  | fuel + 1, idx, dib, hidx, h => by
    unfold findLoop at h
    split at h
    · cases h
    · next hE =>
      split at h
      · next hm =>
        simp only [Bool.and_eq_true, beq_iff_eq] at hm
        rw [Option.some.injEq] at h
        subst h
        exact ⟨hidx, fun he => hE (.inl he), hm.2⟩
      · refine findLoop_some ?_ h
        rw [wrap_eq]
        exact Nat.mod_lt _ (by omega)

theorem findLoop_found (h : Good toU64 m f) {x : Entry K V} {s : Nat} (hs : s < totalSize (2 ^ e))
    (hx : entryAt m s = some x) (hkey : x.key = key) :
    ∀ (fuel j : Nat), j ≤ x.dib → x.dib < j + fuel →
      findLoop toU64 m key fuel ((home toU64 (2 ^ e) key + j) % totalSize (2 ^ e)) j ≠ none
  | 0, j, h1, h2 => by omega
  | fuel + 1, j, h1, h2 => by
    obtain ⟨y, hy, hd⟩ := h.valid.chain hs hx j h1
    rw [hkey] at hy
    obtain ⟨-, hne, htag, -, -⟩ := entryAt_eq_some hy
    unfold findLoop
    rw [if_neg (by rintro (he | hlt); exact hne he; omega)]
    split
    · simp
    · next hm =>
      have hj : j ≠ x.dib := by
        rintro rfl
        obtain ⟨-, hne', -, hk', -⟩ := entryAt_eq_some hx
        rw [← hkey, (h.valid.place s hs x hx).2, h.coherent.print s hs hne', hk'] at hm
        simp at hm
      rw [wrap_eq, Nat.mod_add_mod, Nat.add_assoc]
      exact findLoop_found h hs hx hkey fuel (j + 1) (by omega) (by omega)

end

/-! ## The hole -/

/-- The table without slot `c`, while the hole is there. -/
structure Open (toU64 : K → UInt64) (m : FlatHashMap K V (2 ^ e)) (c o gap : Nat)
    (f : K → Option V) : Prop where
  coherent : Coherent toU64 m
  hole : Hole (totalSize (2 ^ e)) (home toU64 (2 ^ e)) (Function.update (entryAt m) c none) c o f
  free : m.tags ((c + gap) % totalSize (2 ^ e)) = emptyMarker
  pos : 0 < gap
  lt : gap < totalSize (2 ^ e)

/-- **The entries behind the hole move up** until it can be closed. -/
theorem shiftLoop_good [Inhabited K] [Inhabited V] (fuel : Nat) {c o gap : Nat}
    (h : Open toU64 m c o gap f) (hf : gap ≤ fuel) :
    ∃ m', shiftLoop toU64 fuel m c = .ok m' ∧ Good toU64 m' f := by
  induction fuel generalizing m c o gap with
  | zero =>
    have := h.pos
    omega
  | succ fuel ih =>
    have hle := le_totalSize e
    have hc := h.hole.lt
    have hpos := h.pos
    have hgap := h.lt
    have hnext : next (totalSize (2 ^ e)) c < totalSize (2 ^ e) := next_lt hc
    have hnc : next (totalSize (2 ^ e)) c ≠ c := next_ne (by omega) hc
    have hwrap : wrap (2 ^ e) (c + 1) = next (totalSize (2 ^ e)) c := wrap_eq e (c + 1)
    rw [shiftLoop]
    simp only [hwrap]
    by_cases hstop : m.tags (next (totalSize (2 ^ e)) c) = emptyMarker ∨
        m.tags (next (totalSize (2 ^ e)) c) = 0
    · rw [if_pos hstop]
      refine ⟨_, rfl, h.coherent.write toU64 hc (by decide) _ _, ?_, ?_⟩
      · rw [entryAt_clear toU64 hc]
        refine h.hole.close fun x hx => ?_
        rw [Function.update_of_ne hnc] at hx
        obtain ⟨-, hne, htag, -, -⟩ := entryAt_eq_some hx
        rcases hstop with he | h0
        · exact absurd he hne
        · rw [← htag, h0]
          rfl
      · rw [entryAt_clear toU64 hc]
        exact h.hole.contents
    · rw [if_neg hstop]
      rw [not_or] at hstop
      obtain ⟨t, ht⟩ : ∃ t, (m.tags (next (totalSize (2 ^ e)) c)).toNat = t + 1 := by
        refine ⟨(m.tags (next (totalSize (2 ^ e)) c)).toNat - 1, ?_⟩
        have : (m.tags (next (totalSize (2 ^ e)) c)).toNat ≠ 0 := fun h0 =>
          hstop.2 (UInt8.toNat_inj.1 h0)
        omega
      have hnear := h.coherent.near _ hnext hstop.1
      have hentry : Function.update (entryAt m) c none (next (totalSize (2 ^ e)) c) = some
          ⟨(m.tags (next (totalSize (2 ^ e)) c)).toNat, m.keys (next (totalSize (2 ^ e)) c),
            m.data (next (totalSize (2 ^ e)) c)⟩ := by
        rw [Function.update_of_ne hnc, entryAt_of_ne hnext hstop.1]
      have hshift := h.hole.shift (by omega) hentry ht
      -- the free slot is not the one behind the hole
      obtain ⟨g, rfl⟩ : ∃ g, gap = g + 1 := ⟨gap - 1, by omega⟩
      have hg : 0 < g := by
        rcases Nat.eq_zero_or_pos g with rfl | hg
        · exact absurd h.free hstop.1
        · exact hg
      suffices hopen : Open toU64 (m.paddingSafeWrite toU64 c
          ((m.tags (next (totalSize (2 ^ e)) c)).toNat - 1) (m.keys (next (totalSize (2 ^ e)) c))
          (m.data (next (totalSize (2 ^ e)) c))) (next (totalSize (2 ^ e)) c) (t + 1) g f from
        ih hopen (by omega)
      refine ⟨h.coherent.write toU64 hc (by omega) _ _, ?_, ?_, hg, by omega⟩
      · rw [entryAt_write toU64 hc (by omega), ht, Nat.add_sub_cancel]
        rw [moveUp, Function.update_idem] at hshift
        exact hshift
      · rw [next_add]
        have hne : (c + (g + 1)) % totalSize (2 ^ e) ≠ c := add_mod_ne hc (by omega) hgap
        have hlt := Nat.mod_lt (c + (g + 1)) (show 0 < totalSize (2 ^ e) by omega)
        rw [(paddingSafeWrite_at toU64 m c _ _ _ hlt).1, if_neg hne]
        exact h.free

/-- **`DeleteNode`**, if a slot is free. -/
theorem deleteNode_good [DecidableEq K] [Inhabited K] [Inhabited V] (h : Good toU64 m f) (key : K)
    {z : Nat} (hz : z < totalSize (2 ^ e)) (hfree : m.tags z = emptyMarker) :
    ∃ m', m.deleteNode toU64 key = .ok m' ∧ Good toU64 m' (Function.update f key none) := by
  have hle := le_totalSize e
  obtain ⟨-, hb⟩ := home_bound toU64 e key
  unfold deleteNode
  cases hfind : findLoop toU64 m key (totalSize (2 ^ e)) (home toU64 (2 ^ e) key) 0 with
  | none =>
    -- the key is not in the table
    have hnone : f key = none := by
      rw [Option.eq_none_iff_forall_ne_some]
      intro v hv
      obtain ⟨s, hs, x, hx, hk, -⟩ := (h.contents key v).1 hv
      refine findLoop_found h hs hx hk (totalSize (2 ^ e)) 0 (Nat.zero_le _)
        (by have := (h.valid.place s hs x hx).1; omega) ?_
      rw [Nat.add_zero, Nat.mod_eq_of_lt (by omega)]
      exact hfind
    refine ⟨m, rfl, ?_⟩
    rw [← hnone, Function.update_eq_self]
    exact h
  | some c =>
    obtain ⟨hc, hne, hk⟩ := findLoop_some (by omega) hfind
    have hentry := entryAt_of_ne hc hne
    have hhole := h.valid.remove (by omega) h.contents hc hentry
    rw [show (Entry.mk (m.tags c).toNat (m.keys c) (m.data c)).key = key from hk] at hhole
    have hcz : z ≠ c := by
      rintro rfl
      exact hne hfree
    obtain ⟨gap, hgap⟩ : ∃ gap, gap = (z + (totalSize (2 ^ e) - c)) % totalSize (2 ^ e) := ⟨_, rfl⟩
    have hz' : (c + gap) % totalSize (2 ^ e) = z := by
      rw [hgap, Nat.add_mod_mod, show c + (z + (totalSize (2 ^ e) - c)) = z + totalSize (2 ^ e) by
        omega, Nat.add_mod_right, Nat.mod_eq_of_lt hz]
    have hlt : gap < totalSize (2 ^ e) := by rw [hgap]; exact Nat.mod_lt _ (by omega)
    refine shiftLoop_good _ ⟨h.coherent, hhole, by rw [hz']; exact hfree, ?_, hlt⟩ (by omega)
    rcases Nat.eq_zero_or_pos gap with h0 | hpos
    · rw [h0, Nat.add_zero, Nat.mod_eq_of_lt hc] at hz'
      exact absurd hz'.symm hcz
    · exact hpos

end

end FlatHashMap

end Naoto
