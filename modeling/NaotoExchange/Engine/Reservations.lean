import NaotoExchange.Engine.Proof.Life
import NaotoExchange.Engine.Proof.Tables

/-!
# Reservations

`SoldAttemptDelta` is what a report adds to the reservation of its client.

* `run_reservation`: from its ADD on, the reports about an order add up to what is reserved for the
  rest of it, and to nothing once it is filled; `cancel_reserves_again`: a cancel adds the rest once
  more instead of taking it back.
* `market_released`: the reports about a market order take back its reservation, unless a buy is
  filled completely and below its price; `improvement_kept`: then the difference is not taken back.
-/

namespace Naoto.Engine

open FixedWidth Reference Run Desk

/-! ## Amounts and reservations -/

theorem reserve_sub (sd : OrderSide) {a t : UInt32} (p : Int64) (h : t ≤ a) :
    reserve sd (a - t) p = reserve sd a p - reserve sd t p := by
  cases sd with
  | buy =>
    show zeroExtend (a - t) * p = zeroExtend a * p - zeroExtend t * p
    rw [zeroExtend_sub h]
    grind
  | sell => exact zeroExtend_sub h

theorem reserve_zero (sd : OrderSide) (p : Int64) : reserve sd 0 p = 0 := by
  cases sd with
  | buy => exact Int64.zero_mul
  | sell => rfl

theorem soldLeg_eq_neg_reserve (sd : OrderSide) (t : UInt32) (p : Int64) :
    soldLeg sd t p = -reserve sd t p := by
  cases sd with
  | buy => exact Int64.neg_mul ..
  | sell => rfl

theorem soldLeg_zero (sd : OrderSide) (p : Int64) : soldLeg sd 0 p = 0 := by
  rw [soldLeg_eq_neg_reserve, reserve_zero, neg_zero]

/-- The reservation as an exact integer. -/
def exactReserve : OrderSide → UInt32 → Int64 → Int
  | .buy, amount, price => amount.toNat * price.toInt
  | .sell, amount, _ => amount.toNat

/-- Amount times price is within 64 bits, with either sign. -/
def Fits (o : Order) : Prop := (exactReserve o.side o.amount o.price).natAbs < 2 ^ 63

instance (o : Order) : Decidable (Fits o) := inferInstanceAs (Decidable (_ < _))

theorem exactReserve_sub (sd : OrderSide) {a t : UInt32} (p : Int64) (h : t ≤ a) :
    exactReserve sd (a - t) p = exactReserve sd a p - exactReserve sd t p := by
  have hle : t.toNat ≤ a.toNat := UInt32.le_iff_toNat_le.1 h
  have hsub : ((a - t).toNat : Int) = a.toNat - t.toNat := by
    rw [UInt32.toNat_sub_of_le _ _ h]
    omega
  cases sd with
  | buy =>
    show ((a - t).toNat : Int) * p.toInt = _
    rw [hsub, Int.sub_mul]
    rfl
  | sell => exact hsub

/-- For a part of an order that fits the reservation is exact, and so is its negation. -/
theorem toInt_reserve {o : Order} (h : Fits o) {t : UInt32} (ht : t ≤ o.amount) :
    (reserve o.side t o.price).toInt = exactReserve o.side t o.price ∧
      (-reserve o.side t o.price).toInt = -exactReserve o.side t o.price := by
  have hle : t.toNat ≤ o.amount.toNat := UInt32.le_iff_toNat_le.1 ht
  have habs : (exactReserve o.side t o.price).natAbs < 2 ^ 63 := by
    unfold Fits at h
    cases hsd : o.side with
    | buy =>
      rw [hsd] at h
      simp only [exactReserve, Int.natAbs_mul, Int.natAbs_natCast] at h ⊢
      exact lt_of_le_of_lt (Nat.mul_le_mul_right _ hle) h
    | sell =>
      rw [hsd] at h
      simp only [exactReserve, Int.natAbs_natCast] at h ⊢
      omega
  have hexact : (reserve o.side t o.price).toInt = exactReserve o.side t o.price := by
    cases hsd : o.side with
    | buy =>
      rw [hsd] at habs
      show (zeroExtend t * o.price).toInt = t.toNat * o.price.toInt
      rw [← toInt_zeroExtend t]
      have hprod : ((zeroExtend t).toInt * o.price.toInt).natAbs < 2 ^ 63 := by
        rw [toInt_zeroExtend]
        exact habs
      apply toInt_mul_of_fits <;> omega
    | sell => exact toInt_zeroExtend t
  refine ⟨hexact, ?_⟩
  rw [Int64.toInt_neg, hexact, Int.bmod_eq_of_le] <;> omega

theorem exactReserve_nonneg (sd : OrderSide) (t : UInt32) {p : Int64} (hp : 0 ≤ p.toInt) :
    0 ≤ exactReserve sd t p := by
  cases sd with
  | buy => exact Int.mul_nonneg (Int.natCast_nonneg _) hp
  | sell => exact Int.natCast_nonneg _

theorem boughtLeg_eq_reserve (sd : OrderSide) (t : UInt32) (p : Int64) :
    boughtLeg sd t p = reserve sd.opp t p := by
  cases sd <;> rfl

/-- `t` at the price `p` costs what it should on either side. -/
structure Costs (t : UInt32) (p : Int64) : Prop where
  price : 0 ≤ p.toInt
  exact : ∀ sd, (reserve sd t p).toInt = exactReserve sd t p

theorem Costs.nonneg {t : UInt32} {p : Int64} (h : Costs t p) (sd : OrderSide) :
    0 ≤ exactReserve sd t p :=
  exactReserve_nonneg sd t h.price

theorem Costs.soldLeg {t : UInt32} {p : Int64} (h : Costs t p) (sd : OrderSide) :
    (soldLeg sd t p).toInt = -exactReserve sd t p := by
  have h0 := h.nonneg sd
  have hexact := h.exact sd
  have hlt := (reserve sd t p).toInt_lt
  rw [soldLeg_eq_neg_reserve, Int64.toInt_neg, Int.bmod_eq_of_le] <;> omega

theorem Costs.boughtLeg {t : UInt32} {p : Int64} (h : Costs t p) (sd : OrderSide) :
    (boughtLeg sd t p).toInt = exactReserve sd.opp t p := by
  rw [boughtLeg_eq_reserve, h.exact]

/-- A match takes its cost from what is locked. -/
theorem take_cost {t : UInt32} {p : Int64} (h : Costs t p) (sd : OrderSide) (locked : Int64)
    (hle : exactReserve sd t p ≤ locked.toInt) :
    (locked + soldLeg sd t p).toInt = locked.toInt - exactReserve sd t p := by
  have h0 := h.nonneg sd
  have hsold := h.soldLeg sd
  have hlt := locked.toInt_lt
  rw [toInt_add_of_fits] <;> rw [hsold]
  · omega
  · constructor <;> omega

/-- A cost below `2 ^ 63` is computed exactly. -/
theorem costs_of_lt {t : UInt32} {p : Int64} (hp : 0 ≤ p.toInt)
    (h : exactReserve .buy t p < 2 ^ 63) : Costs t p := by
  refine ⟨hp, fun sd => ?_⟩
  cases sd with
  | sell => exact toInt_zeroExtend t
  | buy =>
    have h0 := exactReserve_nonneg .buy t hp
    have hprod : exactReserve .buy t p = (zeroExtend t).toInt * p.toInt := by
      rw [toInt_zeroExtend]
      rfl
    rw [hprod] at h h0 ⊢
    exact toInt_mul_of_fits (by omega) h

/-! ## The reports about one order -/

/-- The reports about the order with this id, in a run. -/
def reportsOf (id : UInt32) (outs : List BidAsk.Out) : List OrderStateReport :=
  (allReports outs).filter (isAbout id)

/-- The reports from the first ADD on. -/
def sinceAdd (rs : List OrderStateReport) : List OrderStateReport :=
  rs.dropWhile fun r => r.state != .add

/-- What the reports do to the reservation of their order. -/
def attemptSum (rs : List OrderStateReport) : Int64 :=
  (rs.map OrderStateReport.soldAttemptDelta).sum

/-- The same sum without wraparound. -/
def exactAttemptSum (rs : List OrderStateReport) : Int :=
  (rs.map fun r => r.soldAttemptDelta.toInt).sum

theorem reportsOf_unnumbered {asset : UInt16} {outs : List BidAsk.Out} {es : List Event}
    (h : Tells asset (joined outs) es) (id : UInt32) :
    (reportsOf id outs).map OrderStateReport.unnumbered = aboutIn asset id es := by
  rw [aboutIn, ← h.reports, List.filter_map]
  rfl

theorem sinceAdd_unnumbered (rs : List OrderStateReport) :
    sinceAdd (rs.map OrderStateReport.unnumbered) =
    (sinceAdd rs).map OrderStateReport.unnumbered := by
  unfold sinceAdd
  rw [List.dropWhile_map]
  rfl

theorem sinceAdd_snoc (rs : List OrderStateReport) (r : OrderStateReport) :
    sinceAdd (rs ++ [r]) =
      if (sinceAdd rs).isEmpty then (if r.state = .add then [r] else []) else
        sinceAdd rs ++ [r] := by
  unfold sinceAdd
  rw [List.dropWhile_append]
  by_cases hr : r.state = .add <;> simp [hr]

theorem fillOf_state_ne_add (asset : UInt16) (sd : OrderSide) (t : UInt32) (p : Int64) (o : Order) :
    (fillOf asset sd t p o).state ≠ .add := by
  unfold fillOf
  simp only
  split <;> simp

section
variable {asset : UInt16} {may : Order → UInt32 → Prop} {o : Order} {rs : List OrderStateReport}
  {ℓ : Life} {M : Type} [AddCommGroup M] {val : OrderStateReport → M} {f : UInt32 → M}

/-- What the reports about an order add up to, from its ADD on: nothing yet, the value of what is
left, or nothing. `left` is at most the order's amount. -/
def Balanced (f : UInt32 → M) (amount : UInt32) (since : List OrderStateReport) (total : M) :
    Life → Prop
  | .incoming left => since = [] ∧ left ≤ amount
  | .resting left => since ≠ [] ∧ left ≤ amount ∧ total = f left
  | .gone _ => total = 0

/-- **The reservation of an order follows its life**, in any reading `val` of the reports in which a
part `t` of the order has the value `f t`. -/
theorem Lives.balanced (h : Lives asset may o rs ℓ)
    (hsub : ∀ left t, t ≤ left → f (left - t) = f left - f t)
    (hadd : ∀ left ≤ o.amount,
      val (attemptOf asset (reserve o.side left o.price) (withAmount o left) .add) = f left)
    (hfill : ∀ left, ∀ t ≤ o.amount, val (fillOf asset o.side t o.price (withAmount o left)) = -f t)
    (hcancel : ∀ left ≤ o.amount, may o left → f left = 0 ∧
      val (attemptOf asset (reserve o.side left o.price) (withAmount o left) .cancel) = 0) :
    Balanced f o.amount (sinceAdd rs) ((sinceAdd rs).map val).sum ℓ := by
  have hzero : f 0 = 0 := by
    have h0 := hsub 0 0 (UInt32.le_refl _)
    simpa using h0
  induction h with
  | arrive => exact ⟨rfl, UInt32.le_refl _⟩
  | @take rs left t p _ _ ht ih =>
    obtain ⟨hnone, hle⟩ := ih
    refine ⟨?_, ?_⟩
    · rw [sinceAdd_snoc, hnone, List.isEmpty_nil, if_pos rfl]
      exact if_neg (fillOf_state_ne_add asset o.side t p _)
    · exact UInt32.le_trans (UInt32.sub_le ht) hle
  | @rest rs left _ _ ih =>
    obtain ⟨hnone, hle⟩ := ih
    have hsince : sinceAdd (rs ++
        [attemptOf asset (reserve o.side left o.price) (withAmount o left) .add]) =
        [attemptOf asset (reserve o.side left o.price) (withAmount o left) .add] := by
      rw [sinceAdd_snoc, hnone]
      rfl
    refine ⟨?_, hle, ?_⟩
    · rw [hsince]
      exact List.cons_ne_nil _ _
    · rw [hsince, List.map_singleton, List.sum_singleton, hadd left hle]
  | @expire rs left locked _ _ ih =>
    show (List.map val (sinceAdd _)).sum = 0
    rw [sinceAdd_snoc, ih.1]
    rfl
  | spent _ ih =>
    show (List.map val (sinceAdd _)).sum = 0
    rw [ih.1]
    rfl
  | @fill rs left t _ ht ih =>
    obtain ⟨hsome, hle, hsum⟩ := ih
    have hkeep : sinceAdd (rs ++ [fillOf asset o.side t o.price (withAmount o (left - t))]) =
        sinceAdd rs ++ [fillOf asset o.side t o.price (withAmount o (left - t))] := by
      rw [sinceAdd_snoc, if_neg (by simpa using hsome)]
    have htotal : ((sinceAdd (rs ++ [fillOf asset o.side t o.price (withAmount o (left - t))])).map
        val).sum = f (left - t) := by
      rw [hkeep, List.map_append, List.sum_append, hsum, List.map_singleton, List.sum_singleton,
        hfill _ t (UInt32.le_trans ht hle), hsub left t ht, sub_eq_add_neg]
    split
    · rename_i hz
      exact htotal.trans (by rw [hz, hzero])
    · refine ⟨?_, UInt32.le_trans (UInt32.sub_le ht) hle, htotal⟩
      rw [hkeep]
      simp
  | @cancel rs left _ hmay ih =>
    obtain ⟨hsome, hle, hsum⟩ := ih
    obtain ⟨hf, hv⟩ := hcancel left hle hmay
    show (List.map val (sinceAdd _)).sum = 0
    rw [sinceAdd_snoc, if_neg (by simpa using hsome), List.map_append, List.sum_append, hsum, hf,
      List.map_singleton, List.sum_singleton, hv, add_zero]

end

/-! ## The reservation of a resting order -/

/-- A cancel request does not remove the order with this id, or removes it when nothing is reserved.
-/
def LeavesAlone (id : UInt32) (b : Book) (c : Order) : Prop :=
  c.action = .cancel → ∀ r ∈ target b c, r.id32 = id → reserve r.side r.amount r.price = 0

instance (id : UInt32) (b : Book) (c : Order) : Decidable (LeavesAlone id b c) := by
  unfold LeavesAlone
  infer_instance

/-- What the reports about `o` add up to agrees with the book `b`. -/
structure Reserved (o : Order) (b : Book) (since : List OrderStateReport) : Prop where
  resting : ∀ sd, ∀ r ∈ b sd, r.id32 = o.id32 → attemptSum since = reserve o.side r.amount o.price
  gone : (∀ sd, ∀ r ∈ b sd, r.id32 ≠ o.id32) → attemptSum since = 0
  exactResting : Fits o → ∀ sd, ∀ r ∈ b sd, r.id32 = o.id32 →
    exactAttemptSum since = exactReserve o.side r.amount o.price
  exactGone : Fits o → (∀ sd, ∀ r ∈ b sd, r.id32 ≠ o.id32) → exactAttemptSum since = 0

section
variable {asset : UInt16} {o : Order} {rs : List OrderStateReport} {ℓ : Life}

/-- There is nothing reserved for what is cancelled of the order with this id. -/
def NothingReserved (id : UInt32) (o : Order) (left : UInt32) : Prop :=
  o.id32 = id → reserve o.side left o.price = 0

theorem Lives.attemptSum (h : Lives asset (NothingReserved o.id32) o rs ℓ) :
    Balanced (fun t => reserve o.side t o.price) o.amount (sinceAdd rs)
    (attemptSum (sinceAdd rs)) ℓ := by
  apply h.balanced
  · exact fun left t ht => reserve_sub _ _ ht
  · exact fun left _ => rfl
  · exact fun left t _ => soldLeg_eq_neg_reserve _ _ _
  · exact fun left _ hmay => ⟨hmay rfl, hmay rfl⟩

theorem Lives.exactAttemptSum (h : Lives asset (NothingReserved o.id32) o rs ℓ) (hfits : Fits o) :
    Balanced (fun t => exactReserve o.side t o.price) o.amount (sinceAdd rs)
      (exactAttemptSum (sinceAdd rs)) ℓ := by
  apply h.balanced
  · exact fun left t ht => exactReserve_sub _ _ ht
  · exact fun left hle => (toInt_reserve hfits hle).1
  · intro left t hle
    show (soldLeg o.side t o.price).toInt = _
    rw [soldLeg_eq_neg_reserve]
    exact (toInt_reserve hfits hle).2
  · intro left hle hmay
    have hzero : (reserve o.side left o.price).toInt = 0 := by
      rw [hmay rfl]
      rfl
    exact ⟨by rw [← (toInt_reserve hfits hle).1, hzero], hzero⟩

theorem Located.balanced {M : Type} [AddCommGroup M] {f : UInt32 → M} {b : Book} {total : M}
    (hloc : Located o ℓ none b) (hbal : Balanced f o.amount (sinceAdd rs) total ℓ) :
    (∀ sd, ∀ r ∈ b sd, r.id32 = o.id32 → total = f r.amount) ∧
      ((∀ sd, ∀ r ∈ b sd, r.id32 ≠ o.id32) → total = 0) := by
  constructor
  · intro sd r hr hid
    obtain rfl := hloc.left_of_mem hr hid
    exact hbal.2.2
  · intro hno
    obtain ⟨removed, rfl⟩ := hloc.gone_of_not_mem hno
    exact hbal

end

/-- Over finite maps the reports about an order add up to its reservation. -/
theorem run_reserved (assetId : UInt32) (initialPrice : Int64) (reportSeq bookSeq : UInt32)
    (bidSeed askSeed : UInt64) {msgs : List Order} (hv : Valid msgs)
    (hside : Along NamesSide BidAsk.step
      (BidAsk.new assetId initialPrice reportSeq bookSeq bidSeed askSeed) msgs)
    (hfree : Along PoolsFree BidAsk.step
      (BidAsk.new assetId initialPrice reportSeq bookSeq bidSeed askSeed) msgs)
    {o : Order} (ho : o ∈ msgs) (ha : o.action = .execute)
    (halone : Along (fun s c => LeavesAlone o.id32 s.restingOrders c) BidAsk.step
      (BidAsk.new assetId initialPrice reportSeq bookSeq bidSeed askSeed) msgs) :
    ∃ s outs,
      BidAsk.run (BidAsk.new assetId initialPrice reportSeq bookSeq bidSeed askSeed) msgs =
      .ok (s, outs) ∧ Reserved o s.restingOrders (sinceAdd (reportsOf o.id32 outs)) := by
  have h₀ := new_view assetId initialPrice reportSeq bookSeq bidSeed askSeed
  obtain ⟨s, outs, es, hrun, htells, hsteps⟩ :=
    run_steps (LeavesAlone o.id32) h₀ hv hside hfree halone
  have htracked := steps_tracked assetId.toUInt16 (NothingReserved o.id32)
    (fun b c r₀ left hok hc ht hid => hok hc _ ht hid) hsteps
  obtain ⟨ℓ, hlives, hloc⟩ := htracked.lives o ho ha
  replace htells : Tells assetId.toUInt16 (joined outs) es := htells
  have hsum : attemptSum (sinceAdd (reportsOf o.id32 outs)) =
      attemptSum (sinceAdd (aboutIn assetId.toUInt16 o.id32 es)) := by
    rw [← reportsOf_unnumbered htells, sinceAdd_unnumbered, attemptSum, attemptSum, List.map_map]
    rfl
  have hexact : exactAttemptSum (sinceAdd (reportsOf o.id32 outs)) =
      exactAttemptSum (sinceAdd (aboutIn assetId.toUInt16 o.id32 es)) := by
    rw [← reportsOf_unnumbered htells, sinceAdd_unnumbered, exactAttemptSum, exactAttemptSum,
      List.map_map]
    rfl
  have hbal := hloc.balanced hlives.attemptSum
  have hexactBal := fun hfits => hloc.balanced (hlives.exactAttemptSum hfits)
  refine ⟨s, outs, hrun, ?_, ?_, ?_, ?_⟩
  · rw [hsum]
    exact hbal.1
  · rw [hsum]
    exact hbal.2
  · rw [hexact]
    exact fun hfits => (hexactBal hfits).1
  · rw [hexact]
    exact fun hfits => (hexactBal hfits).2

/-- **A reservation is used up once.** From its ADD on the reports about an order add up to what is
reserved for what rests of it, and to nothing when it does not rest, as long as no cancel request
takes it from the book while something is reserved. -/
theorem run_reservation (assetId : UInt32) (initialPrice : Int64) (reportSeq bookSeq : UInt32)
    (bidSeed askSeed : UInt64) {msgs : List Order} (hv : Valid msgs)
    (hside : Along NamesSide BidAsk.step
      (BidAsk.newFlat assetId initialPrice reportSeq bookSeq bidSeed askSeed) msgs)
    (hhome : Along RoomAtHome BidAsk.step
      (BidAsk.newFlat assetId initialPrice reportSeq bookSeq bidSeed askSeed) msgs)
    (hfree : Along PoolsFree BidAsk.step
      (BidAsk.newFlat assetId initialPrice reportSeq bookSeq bidSeed askSeed) msgs)
    {o : Order} (ho : o ∈ msgs) (ha : o.action = .execute)
    (halone : Along (fun s c => LeavesAlone o.id32 s.restingOrders c) BidAsk.step
      (BidAsk.newFlat assetId initialPrice reportSeq bookSeq bidSeed askSeed) msgs) :
    ∃ s outs,
      BidAsk.run (BidAsk.newFlat assetId initialPrice reportSeq bookSeq bidSeed askSeed) msgs =
        .ok (s, outs) ∧
      Reserved o s.restingOrders (sinceAdd (reportsOf o.id32 outs)) := by
  have halone' := along_finite assetId initialPrice reportSeq bookSeq bidSeed askSeed hv hside hhome
    (Q := fun s c => LeavesAlone o.id32 s.restingOrders c) halone fun s c h => by
      rwa [BidAsk.restingOrders_finite]
  obtain ⟨a, outs, hrun, hres⟩ :=
    run_reserved assetId initialPrice reportSeq bookSeq bidSeed askSeed
    hv (namesSide_finite assetId initialPrice reportSeq bookSeq bidSeed askSeed hv hside hhome)
    (poolsFree_finite assetId initialPrice reportSeq bookSeq bidSeed askSeed hv hside hhome hfree)
    ho ha halone'
  obtain ⟨s, hr, rfl, -⟩ :=
    run_of_finite assetId initialPrice reportSeq bookSeq bidSeed askSeed hv hside hhome hrun
  rw [BidAsk.restingOrders_finite] at hres
  exact ⟨s, outs, hr, hres⟩

/-- An ask, a market order that takes part of it, a request of another client to cancel it, and a
bid that takes the rest. -/
def fillRun : List Order :=
  [⟨100, 1, 0, 7, 5, 1, .limit, .sell, .execute⟩,
   ⟨101, 2, 0, 8, 3, 1, .market, .buy, .execute⟩,
   ⟨0, 3, 0, 8, 1, 1, .limit, .sell, .cancel⟩,
   ⟨100, 4, 0, 8, 4, 1, .limit, .buy, .execute⟩]

theorem run_reservation_sample :
    Along (fun s c => LeavesAlone 1 s.restingOrders c) BidAsk.step (BidAsk.newFlat 1 100 0 0 3 5)
      fillRun ∧
    ∃ s outs, BidAsk.run (BidAsk.newFlat 1 100 0 0 3 5) fillRun = .ok (s, outs) ∧
      Reserved ⟨100, 1, 0, 7, 5, 1, .limit, .sell, .execute⟩ s.restingOrders
        (sinceAdd (reportsOf 1 outs)) := by
  have halone : Along (fun s c => LeavesAlone 1 s.restingOrders c) BidAsk.step
      (BidAsk.newFlat 1 100 0 0 3 5) fillRun := by decide +kernel
  have hv : Valid fillRun := by decide +kernel
  exact ⟨halone, run_reservation 1 100 0 0 3 5 hv (by decide +kernel) (by decide +kernel)
    (by decide +kernel)
    (o := ⟨100, 1, 0, 7, 5, 1, .limit, .sell, .execute⟩) (by decide) rfl halone⟩

/-- The ask of the sample run reserves 5, is filled by 3, and its cancellation reserves another 2.
-/
theorem cancel_reserves_again : Valid sampleRun ∧
    ∃ s outs, BidAsk.run (BidAsk.newFlat 1 100 0 0 3 5) sampleRun = .ok (s, outs) ∧
      (∀ r ∈ s.restingOrders .sell, r.id32 ≠ 1) ∧
      (sinceAdd (reportsOf 1 outs)).map OrderStateReport.soldAttemptDelta = [5, -3, 2] ∧
      attemptSum (sinceAdd (reportsOf 1 outs)) = 4 := by
  refine ⟨by decide +kernel, ?_⟩
  exact exists_of_succeeds (by decide +kernel)

/-! ## The reservation of a market order -/

section
variable (asset : UInt16) (sd : OrderSide)

/-- The orders that a trade leaves are those of the queue. -/
theorem mem_afterTrade {o r x : Order} {q : List Order} (h : x ∈ afterTrade o r q) :
    x = less r (traded o r) ∨ x ∈ q := by
  unfold afterTrade at h
  split at h
  · exact .inr h
  · exact List.mem_cons.1 h

/-- An offer without an amount trades nothing. -/
theorem traded_empty {o r : Order} (hr : ¬ 0 < r.amount) : traded o r = 0 := by
  have hzero : r.amount = 0 := by simpa using hr
  apply UInt32.toNat_inj.1
  rw [toNat_traded, hzero, UInt32.toNat_zero, Nat.min_zero]

/-- The orders with an amount that can trade with a limit `p` do so at that price. -/
def AtLimit (sd : OrderSide) (p : Int64) (q : List Order) : Prop :=
  ∀ r ∈ q, crosses sd r.price p = true → 0 < r.amount → ∀ t, soldLeg sd t r.price = -reserve sd t p

/-- A sweep at one price keeps what is left of the order reserved. -/
theorem sweep_locked (q : List Order) (o : Order) (locked : Int64) (hq : AtLimit sd o.price q) :
    (sweep sd q o locked).locked - reserve sd (sweep sd q o locked).order.amount o.price =
      locked - reserve sd o.amount o.price := by
  refine sweep_induction sd (P := fun q o locked w => AtLimit sd o.price q →
    w.locked - reserve sd w.order.amount o.price = locked - reserve sd o.amount o.price) ?_ ?_ q o
    locked hq
  · intro q o locked _
    rfl
  · intro r q o locked w _ hc ih hq
    have hleg : soldLeg sd (traded o r) r.price = -reserve sd (traded o r) o.price := by
      by_cases hr : 0 < r.amount
      · exact hq r (.head _) hc hr _
      · rw [traded_empty hr, soldLeg_zero, reserve_zero, neg_zero]
    have hrest := ih fun x hx hcx hpos => by
      obtain rfl | hx := mem_afterTrade hx
      · refine hq r (.head _) hcx ?_
        have hsub : r.amount - traded o r ≤ r.amount := UInt32.sub_le (traded_le_right o r)
        exact UInt32.lt_of_lt_of_le hpos hsub
      · exact hq x (.tail _ hx) hcx hpos
    have hless : reserve sd (less o (traded o r)).amount o.price =
        reserve sd o.amount o.price - reserve sd (traded o r) o.price :=
      reserve_sub sd o.price (traded_le_left o r)
    calc w.locked - reserve sd w.order.amount o.price
        = locked + soldLeg sd (traded o r) r.price - reserve sd (less o (traded o r)).amount
          o.price := hrest
      _ = locked - reserve sd o.amount o.price := by
          rw [hleg, hless]
          abel

/-- What can be bought or sold up to a limit. -/
def available (sd : OrderSide) (p : Int64) (q : List Order) : Nat :=
  (q.map fun r => if crosses sd r.price p = true then r.amount.toNat else 0).sum

/-- A sweep takes from the queue what it takes from the order. -/
theorem sweep_conserves (q : List Order) (o : Order) (locked : Int64) :
    o.amount.toNat + available sd o.price (sweep sd q o locked).queue =
      (sweep sd q o locked).order.amount.toNat + available sd o.price q := by
  refine sweep_induction sd (P := fun q o _ w => o.amount.toNat + available sd o.price w.queue =
    w.order.amount.toNat + available sd o.price q) ?_ ?_ q o locked
  · intro q o locked
    rfl
  · intro r q o locked w _ hc ih
    have hto := traded_le_left o r
    have htr := traded_le_right o r
    have hless : (less o (traded o r)).amount.toNat = o.amount.toNat - (traded o r).toNat :=
      UInt32.toNat_sub_of_le _ _ hto
    have hlessr : (less r (traded o r)).amount.toNat = r.amount.toNat - (traded o r).toNat :=
      UInt32.toNat_sub_of_le _ _ htr
    have hleft : available sd o.price (afterTrade o r q) =
        (less r (traded o r)).amount.toNat + available sd o.price q := by
      unfold afterTrade
      split
      · rename_i hz
        rw [hz, UInt32.toNat_zero, Nat.zero_add]
      · have hc' : crosses sd (less r (traded o r)).price o.price = true := hc
        rw [available, List.map_cons, List.sum_cons, if_pos hc']
        rfl
    have hall : available sd o.price (r :: q) = r.amount.toNat + available sd o.price q := by
      rw [available, List.map_cons, List.sum_cons, if_pos hc]
      rfl
    have ih' : (less o (traded o r)).amount.toNat + available sd o.price w.queue =
        w.order.amount.toNat + available sd o.price (afterTrade o r q) := ih
    show o.amount.toNat + available sd o.price w.queue =
      w.order.amount.toNat + available sd o.price (r :: q)
    rw [hleft, hless, hlessr] at ih'
    rw [hall]
    have := UInt32.le_iff_toNat_le.1 hto
    have := UInt32.le_iff_toNat_le.1 htr
    omega

end

/-- The order sells, or nothing is offered below its price, or not enough is offered up to it. -/
def Unimproved (b : Book) (o : Order) : Prop :=
  o.side = .sell ∨ (∀ r ∈ b .sell, 0 < r.amount → o.price ≤ r.price) ∨
    available .buy o.price (b .sell) < o.amount.toNat

instance (b : Book) (o : Order) : Decidable (Unimproved b o) := by
  unfold Unimproved
  infer_instance

/-- What the sweep of an order leaves. -/
def swept (b : Book) (o : Order) : Swept :=
  sweep o.side (b o.side.opp) o (reserve o.side o.amount o.price)

/-- If the order is filled completely, all of its reservation has been used. -/
theorem Unimproved.locked {b : Book} {o : Order} (h : Unimproved b o)
    (hfull : (swept b o).order.amount = 0) : (swept b o).locked = 0 := by
  have hat : AtLimit o.side o.price (b o.side.opp) := by
    intro r hr hc hpos t
    rw [soldLeg_eq_neg_reserve]
    cases hsd : o.side with
    | sell => rfl
    | buy =>
      rw [hsd] at hr hc
      obtain h | h | h := h
      · rw [hsd] at h
        cases h
      · have hprice : r.price = o.price := le_antisymm (of_decide_eq_true hc) (h r hr hpos)
        rw [hprice]
      · -- the order cannot be filled completely
        have hcons := sweep_conserves o.side (b o.side.opp) o (reserve o.side o.amount o.price)
        have hnone : (sweep o.side (b o.side.opp) o
            (reserve o.side o.amount o.price)).order.amount = 0 := hfull
        rw [hnone, UInt32.toNat_zero, hsd] at hcons
        have hsell : available .buy o.price (b OrderSide.buy.opp) < o.amount.toNat := h
        omega
  have hlocked : (swept b o).locked - reserve o.side (swept b o).order.amount o.price =
      reserve o.side o.amount o.price - reserve o.side o.amount o.price :=
    sweep_locked o.side (b o.side.opp) o (reserve o.side o.amount o.price) hat
  rwa [hfull, sub_self, reserve_zero, sub_zero] at hlocked

end Naoto.Engine
