import Mathlib

/-!
# Fixed-width integers

Core gives `Int64` its arithmetic and its comparisons; here it gets the Mathlib structure the
development works with: a linear order bounded by `INT64_MIN` and `INT64_MAX`, and (addition
being modulo `2 ^ 64`) a commutative group, so that balances can be summed over finite sets.
-/

namespace FixedWidth

instance linearOrderInt64 : LinearOrder Int64 where
  le_refl := Int64.le_refl
  le_trans _ _ _ := Int64.le_trans
  lt_iff_le_not_ge a b := by grind
  le_antisymm _ _ := Int64.le_antisymm
  le_total a b := by grind
  min_def _ _ := rfl
  max_def _ _ := rfl
  toDecidableLE := inferInstance
  toDecidableEq := inferInstance
  toDecidableLT := inferInstance

instance boundedOrderInt64 : BoundedOrder Int64 where
  bot := Int64.minValue
  bot_le := Int64.minValue_le
  top := Int64.maxValue
  le_top := Int64.le_maxValue

instance nontrivialInt64 : Nontrivial Int64 := ⟨⟨0, 1, by decide⟩⟩

instance addCommGroupInt64 : AddCommGroup Int64 where
  add_assoc := Int64.add_assoc
  zero_add := Int64.zero_add
  add_zero := Int64.add_zero
  neg_add_cancel := Int64.add_left_neg
  add_comm := Int64.add_comm
  sub_eq_add_neg := Int64.sub_eq_add_neg
  nsmul := nsmulRec
  zsmul := zsmulRec

/-- Zero extension of an unsigned 32-bit value into a signed 64-bit one (never negative). -/
def zeroExtend (a : UInt32) : Int64 := a.toUInt64.toInt64

theorem toInt_zeroExtend (a : UInt32) : (zeroExtend a).toInt = a.toNat := by
  have h : a.toNat < 2 ^ 32 := a.toNat_lt
  unfold zeroExtend
  rw [Int64.toInt, UInt64.toBitVec_toInt64, BitVec.toInt_eq_toNat_of_lt]
  · rfl
  · simp
    omega

theorem zeroExtend_sub {a b : UInt32} (h : b ≤ a) :
    zeroExtend (a - b) = zeroExtend a - zeroExtend b := by
  have hb : b.toNat ≤ a.toNat := UInt32.le_iff_toNat_le.1 h
  have ha : a.toNat < 2 ^ 32 := a.toNat_lt
  apply Int64.toInt_inj.1
  rw [Int64.toInt_sub, toInt_zeroExtend, toInt_zeroExtend, toInt_zeroExtend,
    UInt32.toNat_sub_of_le _ _ h, Int.bmod_eq_of_le] <;> omega

theorem toInt_mul_of_fits {a b : Int64} (h : -2 ^ 63 ≤ a.toInt * b.toInt)
    (h' : a.toInt * b.toInt < 2 ^ 63) : (a * b).toInt = a.toInt * b.toInt := by
  rw [Int64.toInt_mul, Int.bmod_eq_of_le] <;> omega

/-- The values of a signed 64-bit integer. -/
def IsInt64 (x : Int) : Prop := -2 ^ 63 ≤ x ∧ x < 2 ^ 63

instance (x : Int) : Decidable (IsInt64 x) := inferInstanceAs (Decidable (_ ∧ _))

theorem toInt_add_of_fits {a b : Int64} (h : IsInt64 (a.toInt + b.toInt)) :
    (a + b).toInt = a.toInt + b.toInt := by
  obtain ⟨h, h'⟩ := h
  rw [Int64.toInt_add, Int.bmod_eq_of_le] <;> omega

theorem toInt_sub_of_fits {a b : Int64} (h : IsInt64 (a.toInt - b.toInt)) :
    (a - b).toInt = a.toInt - b.toInt := by
  obtain ⟨h, h'⟩ := h
  rw [Int64.toInt_sub, Int.bmod_eq_of_le] <;> omega

theorem toInt_neg_of_ne {a : Int64} (h : a ≠ Int64.minValue) : (-a).toInt = -a.toInt := by
  have hmin : a.toInt ≠ -2 ^ 63 := fun he => h (Int64.toInt_inj.1 he)
  have hlow := a.le_toInt
  have hhigh := a.toInt_lt
  rw [Int64.toInt_neg, Int.bmod_eq_of_le] <;> omega

/-- The `n` low bytes of a number, lowest first. -/
def littleEndian (n v : Nat) : List UInt8 := (List.range n).map fun i => UInt8.ofNat (v / 256 ^ i)

@[simp] theorem length_littleEndian (n v : Nat) : (littleEndian n v).length = n := by
  simp [littleEndian]

end FixedWidth
