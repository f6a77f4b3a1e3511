import Mathlib

/-!
# Rings indexed by counters that wrap

A ring of `2 ^ k` slots is indexed by the low bits of a 64-bit counter that is never reset. `count
v₀ n` is the counter `n` steps after `v₀`. As long as two positions are less than `2 ^ k` apart they
have different slots (`slot_inj`), and as long as they are less than `2 ^ 64` apart their counters
tell how far (`toNat_count_sub`), also when the counter wraps in between.
-/

namespace RingIndex

/-- The size of a ring, a power of two that fits in 64 bits. -/
structure Capacity where
  size : UInt64
  pow : ∃ k, k < 64 ∧ size.toNat = 2 ^ k

namespace Capacity

variable (Q : Capacity)

/-- `x & (Size - 1)`. -/
def slot (x : UInt64) : UInt64 := x &&& (Q.size - 1)

/-- `2 ^ k`. -/
def ofPow (k : Nat) (h : k < 64) : Capacity where
  size := UInt64.ofNat (2 ^ k)
  pow := ⟨k, h, by
    rw [UInt64.toNat_ofNat']
    exact Nat.mod_eq_of_lt (Nat.pow_lt_pow_right (by decide) h)⟩

theorem size_pos : 0 < Q.size.toNat := by
  obtain ⟨k, -, hk⟩ := Q.pow
  rw [hk]
  exact Nat.two_pow_pos k

theorem size_le : Q.size.toNat ≤ 2 ^ 63 := by
  obtain ⟨k, hk, hsize⟩ := Q.pow
  rw [hsize]
  exact Nat.pow_le_pow_right (by decide) (by omega)

theorem size_dvd : Q.size.toNat ∣ 2 ^ 64 := by
  obtain ⟨k, hk, hsize⟩ := Q.pow
  rw [hsize]
  exact Nat.pow_dvd_pow 2 (by omega)

theorem toNat_slot (x : UInt64) : (Q.slot x).toNat = x.toNat % Q.size.toNat := by
  obtain ⟨k, hk, hsize⟩ := Q.pow
  have hone : (1 : UInt64) ≤ Q.size := by
    rw [UInt64.le_iff_toNat_le]
    exact Q.size_pos
  rw [slot, UInt64.toNat_and, UInt64.toNat_sub_of_le _ _ hone, hsize]
  exact Nat.and_two_pow_sub_one_eq_mod _ _

end Capacity

/-- The counter `n` steps after `v₀`. -/
def count (v₀ : UInt64) (n : Nat) : UInt64 := v₀ + UInt64.ofNat n

section
variable (v₀ : UInt64)

@[simp] theorem count_zero : count v₀ 0 = v₀ := UInt64.add_zero v₀

theorem count_succ (n : Nat) : count v₀ (n + 1) = count v₀ n + 1 := by
  rw [count, count, UInt64.ofNat_add, UInt64.add_assoc]
  rfl

theorem toNat_count (n : Nat) : (count v₀ n).toNat = (v₀.toNat + n) % 2 ^ 64 := by
  rw [count, UInt64.toNat_add, UInt64.toNat_ofNat']
  omega

variable {v₀}

theorem toNat_count_sub {m n : Nat} (hle : m ≤ n) (hlt : n < m + 2 ^ 64) :
    (count v₀ n - count v₀ m).toNat = n - m := by
  rw [UInt64.toNat_sub, toNat_count, toNat_count]
  omega

theorem count_inj {m n : Nat} (hle : m ≤ n) (hlt : n < m + 2 ^ 64) (h : count v₀ n = count v₀ m) :
    n = m := by
  have hdist : (count v₀ n - count v₀ m).toNat = n - m := toNat_count_sub hle hlt
  rw [h, UInt64.sub_self] at hdist
  have hzero : (0 : UInt64).toNat = 0 := rfl
  omega

/-- **Positions within one turn of the ring have different slots.** -/
theorem slot_inj (Q : Capacity) {m n : Nat} (hle : m ≤ n) (hlt : n < m + Q.size.toNat)
    (h : Q.slot (count v₀ n) = Q.slot (count v₀ m)) : n = m := by
  have hmod : (v₀.toNat + n) % Q.size.toNat = (v₀.toNat + m) % Q.size.toNat := by
    have heq := congrArg UInt64.toNat h
    rw [Q.toNat_slot, Q.toNat_slot, toNat_count, toNat_count, Nat.mod_mod_of_dvd _ Q.size_dvd,
      Nat.mod_mod_of_dvd _ Q.size_dvd] at heq
    exact heq
  have hdvd : Q.size.toNat ∣ v₀.toNat + n - (v₀.toNat + m) :=
    (Nat.modEq_iff_dvd' (by omega)).1 hmod.symm
  have hzero : n - m = 0 := Nat.eq_zero_of_dvd_of_lt (by simpa [Nat.add_sub_add_left] using hdvd)
    (by omega)
  omega

end

end RingIndex
