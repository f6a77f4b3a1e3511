import NaotoExchange.Lib.FixedWidth
import NaotoExchange.Lib.TripleBuffer
import NaotoExchange.Common.Conf
import NaotoExchange.Common.Order

/-!
# What the two `ClientStates` share

The account service and the gateway each keep their clients in a triple buffer with the same
balances, the same update of an asset and the same loop that flushes a batch. `States1`, `States2`
and `States3` are the buffers 0, 1 and 2, and `FlushTripleBuffer` is `TripleBuffer.flush`: both
copy every field but the balances to the buffer that comes into use next.
-/

namespace Naoto

open FixedWidth

/-- The asset in each slot. -/
abbrev AssetSlots := Fin maxPositions → UInt16

/-- The balances of a client, and a `ClientDelta`. -/
@[ext] structure Funds where
  confirmed : Fin maxPositions → Int64
  attempt : Fin maxPositions → Int64
  deriving DecidableEq

namespace Funds

instance : Zero Funds := ⟨⟨0, 0⟩⟩
instance : Add Funds := ⟨fun a b => ⟨a.confirmed + b.confirmed, a.attempt + b.attempt⟩⟩
instance : Neg Funds := ⟨fun a => ⟨-a.confirmed, -a.attempt⟩⟩
instance : Sub Funds := ⟨fun a b => ⟨a.confirmed - b.confirmed, a.attempt - b.attempt⟩⟩

@[simp] theorem confirmed_zero : (0 : Funds).confirmed = 0 := rfl
@[simp] theorem attempt_zero : (0 : Funds).attempt = 0 := rfl
@[simp] theorem confirmed_add (a b : Funds) : (a + b).confirmed = a.confirmed + b.confirmed := rfl
@[simp] theorem attempt_add (a b : Funds) : (a + b).attempt = a.attempt + b.attempt := rfl
@[simp] theorem confirmed_neg (a : Funds) : (-a).confirmed = -a.confirmed := rfl
@[simp] theorem attempt_neg (a : Funds) : (-a).attempt = -a.attempt := rfl
@[simp] theorem confirmed_sub (a b : Funds) : (a - b).confirmed = a.confirmed - b.confirmed := rfl
@[simp] theorem attempt_sub (a b : Funds) : (a - b).attempt = a.attempt - b.attempt := rfl

instance : AddCommGroup Funds where
  add_assoc a b c := by ext1 <;> simp [add_assoc]
  zero_add a := by ext1 <;> simp
  add_zero a := by ext1 <;> simp
  neg_add_cancel a := by ext1 <;> simp
  add_comm a b := by ext1 <;> simp [add_comm]
  sub_eq_add_neg a b := by ext1 <;> simp [sub_eq_add_neg]
  nsmul := nsmulRec
  zsmul := zsmulRec

/-- The loop of `SetClientAssets`: every slot of the asset is changed. -/
def credit (slots : AssetSlots) (confirmed attempt : Int64) (assetId : UInt16) (d : Funds) :
    Funds where
  confirmed := fun i => if slots i = assetId then d.confirmed i + confirmed else d.confirmed i
  attempt := fun i => if slots i = assetId then d.attempt i + attempt else d.attempt i

/-- An asset's delta can be added to the pending difference instead of to the balance. -/
theorem add_credit (a d : Funds) (slots : AssetSlots) (confirmed attempt : Int64)
    (assetId : UInt16) :
    a + d.credit slots confirmed attempt assetId = (a + d).credit slots confirmed attempt
      assetId := by
  ext i
  · simp only [confirmed_add, Pi.add_apply, credit]
    split
    · rw [add_assoc]
    · rfl
  · simp only [attempt_add, Pi.add_apply, credit]
    split
    · rw [add_assoc]
    · rfl

end Funds

/-- The second loop of a batch: each id is flushed once, at its first report. -/
def flushTouched {σ : Type} (flush : σ → UInt32 → σ) (s : σ) : List UInt32 → List UInt32 → σ
  | [], _ => s
  | id :: ids, touched =>
    if id ∈ touched then flushTouched flush s ids touched
    else flushTouched flush (flush s id) ids (id :: touched)

theorem flushTouched_invariant {σ : Type} {flush : σ → UInt32 → σ} {P : σ → Prop}
    (h : ∀ s id, P s → P (flush s id)) : ∀ {ids touched : List UInt32} {s : σ}, P s →
      P (flushTouched flush s ids touched)
  | [], _, _, hs => hs
  | id :: ids, touched, s, hs => by
    unfold flushTouched
    split
    · exact flushTouched_invariant h hs
    · exact flushTouched_invariant h (h s id hs)

/-- What the loop does to one id, if a step does `f` to its own id and nothing to the others. -/
theorem flushTouched_apply {σ τ : Type} {flush : σ → UInt32 → σ} (get : σ → UInt32 → τ) (f : τ → τ)
    (hself : ∀ s id, get (flush s id) id = f (get s id))
    (hother : ∀ s id id', id' ≠ id → get (flush s id) id' = get s id') (s : σ)
    (ids touched : List UInt32) (id : UInt32) : get (flushTouched flush s ids touched) id =
      if id ∈ ids ∧ id ∉ touched then f (get s id) else get s id := by
  induction ids generalizing s touched with
  | nil => simp [flushTouched]
  | cons id' ids ih =>
    unfold flushTouched
    by_cases heq : id = id'
    · subst heq
      by_cases hmem : id ∈ touched
      · rw [if_pos hmem, ih]
        simp [hmem]
      · rw [if_neg hmem, ih, hself]
        simp [hmem]
    · split
      · rw [ih]
        simp [heq]
      · rw [ih, hother s id' id heq]
        simp [heq]

/-- How a writer gets reports. -/
inductive ReportCall where
  | one (report : OrderStateReport)
  | batch (reports : List OrderStateReport)
  deriving DecidableEq

/-- The reports of the call. -/
def ReportCall.reports : ReportCall → List OrderStateReport
  | .one report => [report]
  | .batch reports => reports

end Naoto
