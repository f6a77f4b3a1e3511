import NaotoExchange.Engine.Capacity
import NaotoExchange.Engine.Reservations
import NaotoExchange.Gateway.Proof.Balances
import NaotoExchange.Lib.Escrow

/-!
# What the orders of a client still cost

A resting order can still cost its owner what is left of it, at its own price. The reports that the
engine pushes are read in two ways: as what they do to the confirmed balance (`paid`), and as what
they do to the funds that the gateway takes for available, which is the confirmed balance less the
attempts, where an ADD does not count (`shown`). `step_covers`: whatever the message, the reports
cover the change of what the orders can still cost. The remainder of a cancelled order is charged to
the attempts a second time and the price improvement of a market order is kept there; both are on
the safe side.

Prices are not negative, and amount times price is within 64 bits (`Sound`).
-/

namespace Naoto.Exchange

open FixedWidth Engine Engine.Reference Escrow Gateway

/-! ## Exact legs -/

/-- An order at a price that is not negative, whose cost is within 64 bits. -/
structure Sound (o : Order) : Prop where
  price : 0 ≤ o.price.toInt
  fits : Fits o

instance (o : Order) : Decidable (Sound o) :=
  decidable_of_iff (0 ≤ o.price.toInt ∧ Fits o) ⟨fun h => ⟨h.1, h.2⟩, fun h => ⟨h.price, h.fits⟩⟩

theorem exactReserve_mono (sd : OrderSide) {t u : UInt32} {p : Int64} (hp : 0 ≤ p.toInt)
    (h : t ≤ u) : exactReserve sd t p ≤ exactReserve sd u p := by
  have hsub := exactReserve_nonneg sd (u - t) hp
  rw [exactReserve_sub sd p h] at hsub
  omega

theorem Sound.withAmount {o : Order} (h : Sound o) {left : UInt32} (hle : left ≤ o.amount) :
    Sound (withAmount o left) := by
  refine ⟨h.price, ?_⟩
  have hmono := exactReserve_mono o.side h.price hle
  have h0 := exactReserve_nonneg o.side left h.price
  have hfits := h.fits
  unfold Fits at hfits ⊢
  show (exactReserve o.side left o.price).natAbs < 2 ^ 63
  omega

/-- A part of a buy order at a price that is not above its own. -/
theorem Sound.costs {o : Order} (h : Sound o) (hbuy : o.side = .buy) {t : UInt32}
    (ht : t ≤ o.amount) {p : Int64} (hp : 0 ≤ p.toInt) (hle : p ≤ o.price) : Costs t p := by
  have hfits := h.fits
  rw [Fits, hbuy] at hfits
  have htn : (t.toNat : Int) ≤ o.amount.toNat := by exact_mod_cast UInt32.le_iff_toNat_le.1 ht
  have hcost : exactReserve .buy t p ≤ exactReserve .buy o.amount o.price :=
    Int.mul_le_mul htn (Int64.le_iff_toInt_le.1 hle) hp (Int.natCast_nonneg _)
  exact costs_of_lt hp (by omega)

/-- What two orders trade, at the price of the one that rests. -/
theorem costs_of_crosses {o r : Order} (ho : Sound o) (hr : Sound r) (hside : r.side = o.side.opp)
    (hc : crosses o.side r.price o.price = true) : Costs (traded o r) r.price := by
  cases hs : o.side with
  | buy =>
    rw [hs] at hc
    exact ho.costs hs (traded_le_left o r) hr.price (of_decide_eq_true hc)
  | sell =>
    rw [hs] at hside
    exact hr.costs hside (traded_le_right o r) hr.price (Int64.le_refl _)

/-! ## Reading the reports, and what is due -/

section
variable (c : UInt32) (a : UInt16)

/-- What a report does to the confirmed balance of the client `c` in the asset `a`. -/
def paid (r : OrderStateReport) : Int :=
  if r.clientId = c then
    (if r.boughtAssetId = a then r.boughtDelta.toInt else 0) + if r.soldAssetId = a then
      r.soldDelta.toInt else 0
  else 0

/-- What it does to the attempts in the gateway's book. -/
def attempted (r : OrderStateReport) : Int :=
  if r.clientId = c then if r.soldAssetId = a then (liveAttempt r).toInt else 0 else 0

/-- What it does to the funds that the gateway takes for available. -/
def shown (r : OrderStateReport) : Int := paid c a r - attempted c a r

variable (asset : UInt16)

/-- The part of `v` that is about `c` and `a`, if `v` is what the order `o` gives away. -/
def share (o : Order) (v : Int) : Int := if o.clientId = c ∧ soldAssetOf asset o.side = a then
    v else 0

/-- What is left of an order can still cost `c` this much of `a`. -/
def owed (o : Order) : Int := share c a asset o (exactReserve o.side o.amount o.price)

/-- The same for all orders of a book. -/
def due (b : Book) : Int := total (owed c a asset) (b .buy) + total (owed c a asset) (b .sell)

end

/-- Every order stands on its own side and is sound. -/
def Stands (sd : OrderSide) (q : List Order) : Prop := ∀ r ∈ q, r.side = sd ∧ Sound r

section
variable {c : UInt32} {a asset : UInt16} {o r : Order} {q : List Order} {t : UInt32} {p : Int64}
  {b : Book} {sd : OrderSide}

theorem share_nonneg {v : Int} (h : 0 ≤ v) : 0 ≤ share c a asset o v := by
  unfold share
  split
  · exact h
  · exact Int.le_refl 0

theorem share_mono {v w : Int} (h : v ≤ w) : share c a asset o v ≤ share c a asset o w := by
  unfold share
  split
  · exact h
  · exact Int.le_refl 0

theorem share_sub (v w : Int) :
    share c a asset o (v - w) = share c a asset o v - share c a asset o w := by
  unfold share
  split <;> simp

theorem Sound.owed_nonneg (h : Sound o) : 0 ≤ owed c a asset o :=
  share_nonneg (exactReserve_nonneg _ _ h.price)

theorem Stands.owed_nonneg (h : Stands sd q) : 0 ≤ total (owed c a asset) q := by
  induction q with
  | nil => exact Int.le_refl 0
  | cons r q ih =>
    have hr : 0 ≤ owed c a asset r := (h r (.head _)).2.owed_nonneg
    have hq := ih fun x hx => h x (.tail _ hx)
    rw [total_cons]
    omega

theorem Stands.afterTrade (h : Stands sd (r :: q)) (o : Order) : Stands sd (afterTrade o r q) := by
  intro x hx
  obtain ⟨hside, hr⟩ := h r (.head _)
  obtain rfl | hx := mem_afterTrade hx
  · exact ⟨hside, hr.withAmount (UInt32.sub_le (traded_le_right o r))⟩
  · exact h x (.tail _ hx)

theorem due_eq (b : Book) (sd : OrderSide) :
    due c a asset b = total (owed c a asset) (b sd.opp) + total (owed c a asset) (b sd) := by
  cases sd with
  | buy => exact Int.add_comm _ _
  | sell => rfl

theorem due_nonneg (h : ∀ sd, Stands sd (b sd)) : 0 ≤ due c a asset b := by
  have hbuy : 0 ≤ total (owed c a asset) (b .buy) := (h .buy).owed_nonneg
  have hsell : 0 ≤ total (owed c a asset) (b .sell) := (h .sell).owed_nonneg
  unfold due
  omega

/-! ## One report -/

/-- **A fill** pays what it takes from what is due, and shows what is bought. -/
theorem fill_covers (hcost : Costs t p) {d d' : Int} (h0 : 0 ≤ d')
    (hd : d = d' + share c a asset o (exactReserve o.side t p)) :
    Covers (paid c a) (shown c a) d d' [fillOf asset o.side t p o] := by
  have hsold := hcost.soldLeg o.side
  have hbought := hcost.boughtLeg o.side
  have hpos := hcost.nonneg o.side.opp
  have hshare : 0 ≤ share c a asset o (exactReserve o.side t p) :=
    share_nonneg (hcost.nonneg o.side)
  have hlive : liveAttempt (fillOf asset o.side t p o) = soldLeg o.side t p :=
    if_neg (fillOf_state_ne_add asset o.side t p o)
  -- the cost is paid and taken from the attempts at once
  have hpaid : paid c a (fillOf asset o.side t p o) = shown c a (fillOf asset o.side t p o) -
      share c a asset o (exactReserve o.side t p) := by
    simp only [shown, attempted, hlive, share, hsold]
    by_cases hc : o.clientId = c
    · by_cases ha : soldAssetOf asset o.side = a
      · simp [fillOf, hc, ha]
      · simp [fillOf, hc, ha]
    · simp [fillOf, hc]
  have hshown : 0 ≤ shown c a (fillOf asset o.side t p o) := by
    simp only [shown, paid, attempted, hlive]
    by_cases hc : o.clientId = c
    · by_cases ha : boughtAssetOf asset o.side = a
      · simp [fillOf, hc, ha, hbought, hpos]
      · simp [fillOf, hc, ha]
    · simp [fillOf, hc]
  refine covers_single ?_ ?_ ?_ ?_ <;> omega

/-- **A report that moves a reservation** frees no more than it shows. -/
theorem attempt_covers {attempt : Int64} {state : OrderState} {d d' v : Int} (h0 : 0 ≤ d)
    (hle : d' ≤ d)
    (hlive : (if state = .add then 0 else attempt).toInt = -v) (hv : share c a asset o v ≤ d - d') :
    Covers (paid c a) (shown c a) d d' [attemptOf asset attempt o state] := by
  have hattempt : (liveAttempt (attemptOf asset attempt o state)).toInt = -v := hlive
  have hpaid : paid c a (attemptOf asset attempt o state) = 0 := by
    unfold paid
    split_ifs <;> rfl
  have hshown : shown c a (attemptOf asset attempt o state) = share c a asset o v := by
    simp only [shown, hpaid, attempted, hattempt, share]
    by_cases hc : o.clientId = c
    · by_cases ha : soldAssetOf asset o.side = a
      · simp [attemptOf, hc, ha]
      · simp [attemptOf, hc, ha]
    · simp [attemptOf, hc]
  refine covers_single h0 ?_ ?_ ?_ <;> omega

/-! ## One match -/

theorem exactReserve_zero (sd : OrderSide) (p : Int64) : exactReserve sd 0 p = 0 := by
  cases sd <;> simp [exactReserve]

theorem owed_less (ht : t ≤ o.amount) :
    owed c a asset (less o t) = owed c a asset o - share c a asset o
      (exactReserve o.side t o.price) := by
  have hsub := exactReserve_sub o.side o.price ht
  show share c a asset o (exactReserve o.side (o.amount - t) o.price) = _
  rw [hsub, share_sub]
  rfl

theorem owed_afterTrade (o r : Order) (q : List Order) : total (owed c a asset) (afterTrade o r q) =
    total (owed c a asset) (r :: q) - share c a asset r
      (exactReserve r.side (traded o r) r.price) := by
  have hless : owed c a asset (less r (traded o r)) =
      owed c a asset r - share c a asset r (exactReserve r.side (traded o r) r.price) :=
    owed_less (traded_le_right o r)
  unfold afterTrade
  split
  · next hzero =>
    have hnone : owed c a asset (less r (traded o r)) = 0 := by
      rw [owed, hzero, exactReserve_zero]
      exact ite_self 0
    rw [total_cons]
    omega
  · rw [total_cons, total_cons]
    omega

theorem exactReserve_crosses (hc : crosses sd r.price o.price = true) (t : UInt32) :
    exactReserve sd t r.price ≤ exactReserve sd t o.price := by
  cases sd with
  | sell => exact Int.le_refl _
  | buy =>
    have hle : r.price ≤ o.price := of_decide_eq_true hc
    exact Int.mul_le_mul_of_nonneg_left (Int64.le_iff_toInt_le.1 hle) (Int.natCast_nonneg _)

/-- What is locked covers the cost of an order. -/
def Locks (o : Order) (locked : Int64) : Prop := exactReserve o.side o.amount o.price ≤ locked.toInt

theorem Locks.nonneg {locked : Int64} (h : Locks o locked) (ho : Sound o) : 0 ≤ locked.toInt :=
  Int.le_trans (exactReserve_nonneg _ _ ho.price) h

/-- A match takes its cost from what is locked, and that covers the rest of the order. -/
theorem Locks.trade {locked : Int64} (h : Locks o locked) (ho : Sound o)
    (hcost : Costs (traded o r) r.price) (hc : crosses o.side r.price o.price = true) :
    (locked + soldLeg o.side (traded o r) r.price).toInt =
        locked.toInt - exactReserve o.side (traded o r) r.price ∧
      Locks (less o (traded o r)) (locked + soldLeg o.side (traded o r) r.price) := by
  have hcross := exactReserve_crosses hc (traded o r)
  have hsub := exactReserve_sub o.side o.price (traded_le_left o r)
  have hleft := exactReserve_nonneg o.side (o.amount - traded o r) ho.price
  unfold Locks at h ⊢
  have hsum := take_cost hcost o.side locked (by omega)
  refine ⟨hsum, ?_⟩
  show exactReserve o.side (o.amount - traded o r) o.price ≤ _
  omega

/-- **The two reports of a match.** -/
theorem trade_covers {locked : Int64} (h : Locks o locked) (ho : Sound o)
    (hq : Stands o.side.opp (r :: q)) (hc : crosses o.side r.price o.price = true) :
    Covers (paid c a) (shown c a) (share c a asset o locked.toInt + total (owed c a asset) (r :: q))
      (share c a asset o (locked + soldLeg o.side (traded o r) r.price).toInt +
        total (owed c a asset) (afterTrade o r q))
      ((tradeEvent o.side o r q).reports asset) := by
  obtain ⟨hside, hr⟩ := hq r (.head _)
  have hcost := costs_of_crosses ho hr hside hc
  obtain ⟨hsum, hlocks⟩ := h.trade ho hcost hc
  have hq0 : 0 ≤ total (owed c a asset) (r :: q) := hq.owed_nonneg
  have hleft : 0 ≤ (locked + soldLeg o.side (traded o r) r.price).toInt :=
    hlocks.nonneg (ho.withAmount (UInt32.sub_le (traded_le_left o r)))
  have hshare : 0 ≤ share c a asset o (locked + soldLeg o.side (traded o r) r.price).toInt :=
    share_nonneg hleft
  have hafter : total (owed c a asset) (afterTrade o r q) = _ := owed_afterTrade o r q
  have hstands : Stands o.side.opp (afterTrade o r q) := hq.afterTrade o
  have hafter0 : 0 ≤ total (owed c a asset) (afterTrade o r q) := hstands.owed_nonneg
  -- first the report of the order that came in, then that of the one that rested
  have hfirst : Covers (paid c a) (shown c a)
      (share c a asset o locked.toInt + total (owed c a asset) (r :: q))
      (share c a asset o (locked + soldLeg o.side (traded o r) r.price).toInt + total
        (owed c a asset) (r :: q))
      [fillOf asset o.side (traded o r) r.price (less o (traded o r))] := by
    refine fill_covers (o := less o (traded o r)) hcost (by omega) ?_
    rw [hsum, share_sub]
    show _ = _ + share c a asset o (exactReserve o.side (traded o r) r.price)
    omega
  have hsecond : Covers (paid c a) (shown c a)
      (share c a asset o (locked + soldLeg o.side (traded o r) r.price).toInt + total
        (owed c a asset) (r :: q))
      (share c a asset o (locked + soldLeg o.side (traded o r) r.price).toInt +
        total (owed c a asset) (afterTrade o r q))
      [fillOf asset o.side.opp (traded o r) r.price (less r (traded o r))] := by
    rw [← hside]
    refine fill_covers (o := less r (traded o r)) hcost (by omega) ?_
    show _ = _ + share c a asset r (exactReserve r.side (traded o r) r.price)
    omega
  exact hfirst.trans hsecond

/-! ## A sweep -/

/-- What a sweep leaves, and that its reports cover it. -/
structure SweepCovers (c : UInt32) (a asset : UInt16) (q : List Order) (o : Order) (locked : Int64)
    (w : Swept) : Prop where
  order : w.order = withAmount o w.order.amount
  sound : Sound w.order
  stands : Stands o.side.opp w.queue
  locks : Locks w.order w.locked
  covers : Covers (paid c a) (shown c a) (share c a asset o locked.toInt + total (owed c a asset) q)
    (share c a asset o w.locked.toInt + total (owed c a asset) w.queue)
    (w.events.flatMap (Event.reports asset))

theorem sweep_covers (c : UInt32) (a asset : UInt16) (sd : OrderSide) (q : List Order) (o : Order)
    (locked : Int64)
    (hside : o.side = sd) (ho : Sound o) (hq : Stands sd.opp q) (hl : Locks o locked) :
    SweepCovers c a asset q o locked (sweep sd q o locked) := by
  refine sweep_induction sd (P := fun q o locked w => o.side = sd → Sound o → Stands sd.opp q →
    Locks o locked → SweepCovers c a asset q o locked w) ?_ ?_ q o locked hside ho hq hl
  · intro q o locked hside ho hq hl
    subst hside
    have hlocked : 0 ≤ share c a asset o locked.toInt := share_nonneg (hl.nonneg ho)
    have hq0 : 0 ≤ total (owed c a asset) q := hq.owed_nonneg
    exact ⟨rfl, ho, hq, hl, covers_nil (Int.le_refl _) (by omega)⟩
  · intro r q o locked w _ hc ih hside ho hq hl
    subst hside
    obtain ⟨hrside, hr⟩ := hq r (.head _)
    have hlocks := (hl.trade ho (costs_of_crosses ho hr hrside hc) hc).2
    have hrest := ih rfl (ho.withAmount (UInt32.sub_le (traded_le_left o r)))
      (hq.afterTrade o) hlocks
    refine ⟨hrest.order, hrest.sound, hrest.stands, hrest.locks, ?_⟩
    show Covers _ _ _ _ (([tradeEvent o.side o r q] ++ w.events).flatMap _)
    rw [List.flatMap_append, List.flatMap_singleton]
    exact (trade_covers hl ho hq hc).trans hrest.covers

/-! ## The end of a message -/

theorem total_enqueue (sd : OrderSide) (o : Order) (q : List Order) :
    total (owed c a asset) (enqueue sd o q) = owed c a asset o + total (owed c a asset) q := by
  rw [← total_cons]
  exact ((enqueue_perm sd o q).map _).sum_eq

theorem due_update (b : Book) (sd : OrderSide) (q : List Order) :
    due c a asset (Function.update b sd q) =
    due c a asset b + (total (owed c a asset) q - total (owed c a asset) (b sd)) := by
  rw [due_eq _ sd, due_eq b sd, Function.update_self, Function.update_of_ne (OrderSide.opp_ne _)]
  omega

theorem due_rest (b : Book) (o : Order) :
    due c a asset (rest b o).1 = due c a asset b + owed c a asset o := by
  show due c a asset (Function.update b o.side (enqueue o.side o (b o.side))) = _
  rw [due_update, total_enqueue]
  omega

theorem stands_rest (hb : ∀ sd, Stands sd (b sd)) (ho : Sound o) :
    ∀ sd, Stands sd ((rest b o).1 sd) := by
  intro sd x hx
  obtain hx | ⟨hsd, rfl⟩ := mem_rest hx
  · exact hb sd x hx
  · exact ⟨hsd.symm, ho⟩

theorem stands_update (hb : ∀ sd, Stands sd (b sd)) (hq : Stands sd q) :
    ∀ sd', Stands sd' (Function.update b sd q sd') := by
  intro sd'
  by_cases heq : sd' = sd
  · subst heq
    rw [Function.update_self]
    exact hq
  · rw [Function.update_of_ne heq]
    exact hb sd'

/-- **An order comes to rest**: what was locked is freed, and what is left of the order is due. -/
theorem rest_covers {locked : Int64} (hb : ∀ sd, Stands sd (b sd)) (ho : Sound o)
    (hl : Locks o locked) :
    Covers (paid c a) (shown c a) (due c a asset b + share c a asset o locked.toInt)
      (due c a asset (rest b o).1) ((rest b o).2.flatMap (Event.reports asset)) := by
  have hb0 : 0 ≤ due c a asset b := due_nonneg hb
  have hshare : 0 ≤ share c a asset o locked.toInt := share_nonneg (hl.nonneg ho)
  have howed : owed c a asset o ≤ share c a asset o locked.toInt := share_mono hl
  rw [due_rest]
  show Covers _ _ _ _ [attemptOf asset (reserve o.side o.amount o.price) o .add]
  have hzero : share c a asset o 0 = 0 := ite_self 0
  exact attempt_covers (v := 0) (by omega) (by omega) rfl (by omega)

/-- **The rest of a market order expires**: what was locked is freed, and shown. -/
theorem expire_covers {locked : Int64} (hb : ∀ sd, Stands sd (b sd)) (ho : Sound o)
    (hl : Locks o locked) :
    Covers (paid c a) (shown c a) (due c a asset b + share c a asset o locked.toInt)
    (due c a asset b)
      [attemptOf asset (-locked) o .cancel] := by
  have hb0 : 0 ≤ due c a asset b := due_nonneg hb
  have h0 := hl.nonneg ho
  have hshare : 0 ≤ share c a asset o locked.toInt := share_nonneg h0
  have hneg : (-locked).toInt = -locked.toInt := by
    have hlt := locked.toInt_lt
    rw [Int64.toInt_neg, Int.bmod_eq_of_le] <;> omega
  exact attempt_covers (by omega) (by omega) hneg (by omega)

/-- What is still locked when the order is gone is not given back. -/
theorem forget_covers {locked : Int64} (hb : ∀ sd, Stands sd (b sd)) (ho : Sound o)
    (hl : Locks o locked) :
    Covers (paid c a) (shown c a) (due c a asset b + share c a asset o locked.toInt)
    (due c a asset b) [] := by
  have hb0 : 0 ≤ due c a asset b := due_nonneg hb
  have hshare : 0 ≤ share c a asset o locked.toInt := share_nonneg (hl.nonneg ho)
  exact covers_nil (by omega) (by omega)

/-- **A cancel** frees what is left of the order and charges it to the attempts once more. -/
theorem cancel_covers (hb : ∀ sd, Stands sd (b sd)) (hr : r ∈ b r.side) (keep : Order → Bool) :
    Covers (paid c a) (shown c a) (due c a asset b)
    (due c a asset (Function.update b r.side ((b r.side).filter keep)))
      [attemptOf asset (reserve r.side r.amount r.price) r .cancel] := by
  have hb0 : 0 ≤ due c a asset b := due_nonneg hb
  have hrs := (hb _ r hr).2
  have hfilter : total (owed c a asset) ((b r.side).filter keep) ≤ total (owed c a asset)
      (b r.side) := by
    refine ((List.filter_sublist).map _).sum_le_sum fun v hv => ?_
    obtain ⟨x, hx, rfl⟩ := List.mem_map.1 hv
    exact (hb _ x hx).2.owed_nonneg
  have hle : due c a asset (Function.update b r.side ((b r.side).filter keep)) ≤
      due c a asset b := by
    rw [due_update]
    omega
  have hexact := (toInt_reserve hrs.fits (UInt32.le_refl _)).1
  have hneg : share c a asset r (-exactReserve r.side r.amount r.price) ≤ share c a asset r 0 := by
    apply share_mono
    have h0 := exactReserve_nonneg r.side r.amount hrs.price
    omega
  have hzero : share c a asset r 0 = 0 := ite_self 0
  refine attempt_covers (v := -exactReserve r.side r.amount r.price) hb0 hle ?_ (by omega)
  rw [if_neg nofun, hexact, Int.neg_neg]

theorem reject_covers (hb : ∀ sd, Stands sd (b sd)) (o : Order) :
    Covers (paid c a) (shown c a) (due c a asset b) (due c a asset b)
    ((Event.reject o).reports asset) := by
  have hb0 : 0 ≤ due c a asset b := due_nonneg hb
  have hpaid : paid c a ⟨0, 0, 0, 0, o.clientId, o.id32, 0, 0, 0, .reject⟩ = 0 := by
    unfold paid
    split_ifs <;> rfl
  have hattempted : attempted c a ⟨0, 0, 0, 0, o.clientId, o.id32, 0, 0, 0, .reject⟩ = 0 := by
    unfold attempted
    split_ifs <;> rfl
  show Covers _ _ _ _ [_]
  refine covers_single hb0 ?_ ?_ ?_ <;> simp only [shown, hpaid, hattempted] <;> omega

/-! ## A message -/

/-- What an arriving message can cost: a cancel request costs nothing. -/
def arriving (c : UInt32) (a asset : UInt16) (o : Order) : Int :=
  match o.action with
  | .execute => owed c a asset o
  | .cancel => 0

/-- What a message leaves, and that its reports cover it. -/
structure MessageCovers (c : UInt32) (a asset : UInt16) (b b' : Book) (d : Int)
    (rs : List OrderStateReport) : Prop where
  stands : ∀ sd, Stands sd (b' sd)
  covers : Covers (paid c a) (shown c a) (due c a asset b + d) (due c a asset b') rs

theorem Sound.locks (h : Sound o) : Locks o (reserve o.side o.amount o.price) :=
  Int.le_of_eq (toInt_reserve h.fits (UInt32.le_refl _)).1.symm

theorem Sound.share_reserve (h : Sound o) :
    share c a asset o (reserve o.side o.amount o.price).toInt = owed c a asset o := by
  rw [owed, (toInt_reserve h.fits (UInt32.le_refl _)).1]

theorem sweep_message (c : UInt32) (a asset : UInt16) (hb : ∀ sd, Stands sd (b sd)) (ho : Sound o) :
    let w := sweep o.side (b o.side.opp) o (reserve o.side o.amount o.price)
    (∀ sd, Stands sd (Function.update b o.side.opp w.queue sd)) ∧
      SweepCovers c a asset (b o.side.opp) o (reserve o.side o.amount o.price) w ∧
      Covers (paid c a) (shown c a) (due c a asset b + owed c a asset o)
        (due c a asset (Function.update b o.side.opp w.queue) + share c a asset w.order
          w.locked.toInt)
        (w.events.flatMap (Event.reports asset)) := by
  intro w
  have hsweep : SweepCovers c a asset (b o.side.opp) o (reserve o.side o.amount o.price) w :=
    sweep_covers c a asset o.side _ o _ rfl ho (hb _) ho.locks
  refine ⟨stands_update hb hsweep.stands, hsweep, ?_⟩
  have hown : 0 ≤ total (owed c a asset) (b o.side) := (hb _).owed_nonneg
  have hcovers := hsweep.covers.add hown
  have hshare : share c a asset w.order w.locked.toInt = share c a asset o w.locked.toInt := by
    rw [hsweep.order]
    rfl
  rw [ho.share_reserve] at hcovers
  rw [due_update, hshare, due_eq b o.side]
  convert hcovers using 1 <;> omega

theorem execute_covers (m : Bool) (hb : ∀ sd, Stands sd (b sd)) (ho : Sound o) :
    MessageCovers c a asset b (executeWith m b o).1 (owed c a asset o)
      ((executeWith m b o).2.flatMap (Event.reports asset)) := by
  cases m with
  | false =>
    refine ⟨stands_rest hb ho, ?_⟩
    rw [← ho.share_reserve]
    exact rest_covers hb ho ho.locks
  | true =>
    obtain ⟨hstands, hsweep, hcovers⟩ := sweep_message c a asset hb ho
    show MessageCovers c a asset b (execute b o).1 _ ((execute b o).2.flatMap _)
    unfold execute
    dsimp only
    rw [List.flatMap_append]
    unfold settle
    split
    · split
      · exact ⟨stands_rest hstands hsweep.sound,
          hcovers.trans (rest_covers hstands hsweep.sound hsweep.locks)⟩
      · exact ⟨hstands, hcovers.trans (expire_covers hstands hsweep.sound hsweep.locks)⟩
    · exact ⟨hstands, hcovers.trans (forget_covers hstands hsweep.sound hsweep.locks)⟩

/-- An order that finds no memory: what is left of it is forgotten. -/
theorem drop_covers (m : Bool) (hb : ∀ sd, Stands sd (b sd)) (ho : Sound o) :
    MessageCovers c a asset b (dropWith m b o).1 (owed c a asset o)
      ((dropWith m b o).2.flatMap (Event.reports asset)) := by
  cases m with
  | false =>
    refine ⟨hb, ?_⟩
    rw [← ho.share_reserve]
    exact forget_covers hb ho ho.locks
  | true =>
    obtain ⟨hstands, hsweep, hcovers⟩ := sweep_message c a asset hb ho
    refine ⟨hstands, ?_⟩
    have hall := hcovers.trans (forget_covers hstands hsweep.sound hsweep.locks)
    rw [List.append_nil] at hall
    exact hall

theorem request_covers (o : Order) (hb : ∀ sd, Stands sd (b sd)) :
    MessageCovers c a asset b (Reference.cancel b o).1 0
      ((Reference.cancel b o).2.flatMap (Event.reports asset)) := by
  unfold Reference.cancel
  split
  · refine ⟨hb, ?_⟩
    rw [Int.add_zero]
    exact reject_covers hb o
  · next r ht =>
    obtain ⟨sd, hsd⟩ := target_mem ht
    have hr : r ∈ b r.side := (hb sd r hsd).1 ▸ hsd
    refine ⟨stands_update hb fun x hx => hb _ x (List.mem_of_mem_filter hx), ?_⟩
    rw [Int.add_zero]
    exact cancel_covers hb hr _

theorem process_covers (m : Bool) (hb : ∀ sd, Stands sd (b sd))
    (ho : o.action = .execute → Sound o) :
    MessageCovers c a asset b (processWith m b o).1 (arriving c a asset o)
      ((processWith m b o).2.flatMap (Event.reports asset)) := by
  unfold processWith arriving
  cases ha : o.action with
  | execute => exact execute_covers m hb (ho ha)
  | cancel => exact request_covers o hb

/-- The reports that tell of the events cover what they do. -/
theorem MessageCovers.of_tells {b' : Book} {d : Int} {out : BidAsk.Out} {es : List Event}
    (h : MessageCovers c a asset b b' d (es.flatMap (Event.reports asset)))
    (htells : Tells asset out es) : MessageCovers c a asset b b' d out.reports := by
  refine ⟨h.stands, ?_⟩
  have hcovers := h.covers
  rw [← htells.reports] at hcovers
  exact covers_of_map hcovers

/-- **The reports of a message cover what it does**, whatever the message, and whether or not there
is memory for it. -/
theorem step_covers {s s' : FiniteBidAsk} {L : Levels} {xs : List Order} {out : BidAsk.Out}
    (hview : View s L b)
    (hk : Known xs b) (hacc : Acceptable b o) (hb : ∀ sd, Stands sd (b sd))
    (ho : o.action = .execute → Sound o) (hstep : BidAsk.step s o = .ok (s', out)) :
    s'.marketAssetId = s.marketAssetId ∧ ∃ L' b', View s' L' b' ∧ Known (xs ++ [o]) b' ∧
      ∀ c a, MessageCovers c a s.marketAssetId.toUInt16 b b'
        (arriving c a s.marketAssetId.toUInt16 o) out.reports := by
  obtain ⟨-, -, he⟩ | ⟨-, ha, s₁, L', he, hv', hfeed⟩ | ⟨s₁, L', he, hv', hfeed⟩ :=
    step_cases hview hacc
  · rw [he] at hstep
    cases hstep
  · rw [he] at hstep
    cases hstep
    have htells := tells_emit s.toFeed (dropWith (s.isMarketable o) b o).2
    rw [← hfeed] at htells
    refine ⟨by
      rw [hfeed, (foldl_emit _ _).1]; rfl, L', _, hv', hk.mono (within_dropWith _ b o) _,
      fun c a => ?_⟩
    rw [arriving, ha]
    exact (drop_covers _ hb (ho ha)).of_tells htells
  · rw [he] at hstep
    cases hstep
    have htells := tells_emit s.toFeed (processWith (s.isMarketable o) b o).2
    rw [← hfeed] at htells
    refine ⟨by rw [hfeed, (foldl_emit _ _).1]; rfl, L', _, hv', hk.process _, fun c a => ?_⟩
    exact (process_covers _ hb ho).of_tells htells

end

end Naoto.Exchange
