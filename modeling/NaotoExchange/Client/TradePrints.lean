import NaotoExchange.Engine.Proof.Intact
import NaotoExchange.Engine.Proof.Reports

/-!
# The dashboard's trade prints

The dashboard reads executed trades off the order-state feed: `decode_trade` (`app_state.hpp`) takes
the buyer's report of each match and gets the price from its cash leg. `run_prints` is the result:
over a run it yields the matches of the engine, one each and in order, with the asset, the resting
order's price and the quantity.

The matches are read off the loops of the sweep (`levelMatches`, `sweepMatches`), as they happen in
the engine's memory. Nothing is assumed about the prices of the orders, so the proof goes along
`Intact` and not along the reference: `Carries` is what a piece of the engine's work has to show.
-/

namespace Naoto

open FixedWidth Engine Reference Run

namespace MarketClient

/-- What `decode_trade` fills in. -/
structure Trade where
  asset : UInt16
  price : Int64
  qty : UInt32
  deriving DecidableEq

/-- Only the buyer's report of a match is read as a trade. -/
def decodeTrade (r : OrderStateReport) : Option Trade :=
  if r.state ≠ .fill ∧ r.state ≠ .partialFill then none
  else if r.boughtAssetId = 0 ∨ r.soldAssetId ≠ 0 ∨ r.boughtDelta ≤ 0 ∨ 0 ≤ r.soldDelta then none
  else some ⟨r.boughtAssetId, -r.soldDelta / r.boughtDelta, r.boughtDelta.toUInt64.toUInt32⟩

end MarketClient

namespace Engine

/-! ## The matches of the engine -/

/-- A match: what was traded, at which resting price and how much of it. -/
structure Match where
  asset : UInt32
  price : Int64
  quantity : UInt32
  deriving DecidableEq

/-- The cash leg of the match is positive and fits its field. -/
def Match.Priced (m : Match) : Prop :=
  0 < m.quantity ∧ 0 < m.price ∧ m.quantity.toNat * m.price.toInt < 2 ^ 63

instance Match.decidablePriced (m : Match) : Decidable m.Priced :=
  inferInstanceAs (Decidable (_ ∧ _ ∧ _))

namespace BidAsk

/-- The matches that the inner loop of a sweep makes. -/
def levelMatches (mk : FiniteBidAsk → Order → Bool) (sd : OrderSide) (bestLevel : Nat) :
    Nat → FiniteBidAsk → Order → Int64 → Option Nat → List Match
  | fuel + 1, s, o, totalLocked, some bestOffer =>
    if 0 < o.amount ∧ mk s o = true then
      let offer := (s.store.node bestOffer).order
      ⟨s.marketAssetId, offer.price, traded o offer⟩ ::
        match s.fillOffer sd o totalLocked bestLevel bestOffer with
        | .error _ => []
        | .ok (s, o, totalLocked, next) => levelMatches mk sd bestLevel fuel s o totalLocked next
    else []
  | _, _, _, _, _ => []

/-- The matches that the outer loop makes. -/
def sweepMatches (mk : FiniteBidAsk → Order → Bool) (sd : OrderSide) :
    Nat → FiniteBidAsk → Order → Int64 → List Match
  | 0, _, _, _ => []
  | fuel + 1, s, o, totalLocked =>
    if 0 < o.amount ∧ mk s o = true then
      match (s.book sd.opp).getBestLevel with
      | .ok (some bestLevel) =>
        let best := (s.store.level bestLevel).price
        let s' := s.setBestPrice best sd.opp
        let bestOffer := (s.store.level bestLevel).head
        if bestOffer.isSome ∧ crosses sd best o.price = true then
          levelMatches mk sd bestLevel (meOrderNodePoolSize + 2) s' o totalLocked bestOffer ++
            match
              fillLevel mk sd bestLevel (meOrderNodePoolSize + 2) s' o totalLocked bestOffer with
            | .error _ => []
            | .ok (s, o, totalLocked) => sweepMatches mk sd fuel s o totalLocked
        else []
      | _ => []
    else []

/-- The matches of a message. -/
def processMatches (s : FiniteBidAsk) (o : Order) : List Match :=
  if o.action = .execute ∧ s.isMarketable o = true then
    sweepMatches isMarketable o.side (mePriceLevelPoolSize + 2) s o
      (reserve o.side o.amount o.price)
  else []

/-- The matches of one message. -/
def stepMatches (s : FiniteBidAsk) (o : Order) : List Match :=
  (s.setFeed s.toFeed.cleared).processMatches o

/-- The matches of a run. -/
def runMatches (s : FiniteBidAsk) (msgs : List Order) : List Match :=
  collect stepMatches step s msgs

end BidAsk

end Engine

namespace MarketClient

/-! ## Reading a report -/

/-- The print with the asset in the engine's type. -/
def Trade.widen (t : Trade) : Match := ⟨t.asset.toUInt32, t.price, t.qty⟩

/-- What the dashboard prints for the reports. -/
def prints (rs : List OrderStateReport) : List Match := (rs.filterMap decodeTrade).map Trade.widen

@[simp] theorem prints_append (rs rs' : List OrderStateReport) :
    prints (rs ++ rs') = prints rs ++ prints rs' := by
  simp [prints]

section
variable {r : OrderStateReport}

theorem decodeTrade_of_state (h : r.state ≠ .fill ∧ r.state ≠ .partialFill) :
    decodeTrade r = none := if_pos h

theorem decodeTrade_of_cash (h : r.boughtAssetId = 0) : decodeTrade r = none := by
  unfold decodeTrade
  split
  · rfl
  · rw [if_pos (.inl h)]

/-- The buyer's leg gives the quantity and, by division, the price. -/
theorem decodeTrade_of_asset (quantity : UInt32) (price : Int64)
    (hstate : r.state = .fill ∨ r.state = .partialFill)
    (hbought : r.boughtAssetId ≠ 0) (hsold : r.soldAssetId = 0)
    (hqty : r.boughtDelta = zeroExtend quantity)
    (hcash : r.soldDelta = -zeroExtend quantity * price) (h0 : 0 < quantity) (hp : 0 < price)
    (hfits : quantity.toNat * price.toInt < 2 ^ 63) :
    decodeTrade r = some ⟨r.boughtAssetId, price, quantity⟩ := by
  have hq : 0 < quantity.toNat := UInt32.lt_iff_toNat_lt.1 h0
  have hq' : (zeroExtend quantity).toInt = quantity.toNat := toInt_zeroExtend quantity
  have hp' : 0 < price.toInt := Int64.lt_iff_toInt_lt.1 hp
  have hpos : 0 < (quantity.toNat : Int) * price.toInt := Int.mul_pos (by omega) hp'
  -- the cash leg is the exact product
  have hmul : (zeroExtend quantity * price).toInt = quantity.toNat * price.toInt := by
    rw [toInt_mul_of_fits, hq'] <;> rw [hq'] <;> omega
  have hsold' : r.soldDelta = -(zeroExtend quantity * price) := by rw [hcash, Int64.neg_mul]
  have hneg : (-(zeroExtend quantity * price)).toInt = -(quantity.toNat * price.toInt) := by
    rw [toInt_neg_of_ne, hmul]
    intro he
    rw [he] at hmul
    have : Int64.minValue.toInt = -2 ^ 63 := rfl
    omega
  have hb : 0 < r.boughtDelta := by
    rw [hqty, Int64.lt_iff_toInt_lt, hq']
    exact Int.natCast_pos.2 hq
  have hs : r.soldDelta < 0 := by
    rw [hsold', Int64.lt_iff_toInt_lt, hneg]
    show _ < (0 : Int)
    omega
  have hdiv : -r.soldDelta / r.boughtDelta = price := by
    rw [hsold', Int64.neg_neg, hqty]
    apply Int64.toInt_inj.1
    have hlow := price.le_toInt
    have hhigh := price.toInt_lt
    rw [Int64.toInt_div, hmul, hq', Int.mul_tdiv_cancel_left _ (by omega), Int.bmod_eq_of_le] <;>
      omega
  have hlow : r.boughtDelta.toUInt64.toUInt32 = quantity := by
    rw [hqty, zeroExtend]
    simp
  unfold decodeTrade
  rw [if_neg, if_neg, hdiv, hlow]
  · simp only [not_or, not_not, not_le]
    exact ⟨hbought, hsold, hb, hs⟩
  · rcases hstate with h | h <;> simp [h]

end

/-! ## Pieces of the engine's work -/

/-- The asset's number fits the field of the reports and is not the one of cash. -/
def TradableAsset (a : UInt32) : Prop := 0 < a.toNat ∧ a.toNat < 2 ^ 16

theorem TradableAsset.toUInt16_ne_zero {a : UInt32} (h : TradableAsset a) : a.toUInt16 ≠ 0 := by
  intro he
  have hnat := congrArg UInt16.toNat he
  rw [UInt32.toNat_toUInt16, Nat.mod_eq_of_lt h.2] at hnat
  exact absurd hnat (Nat.ne_of_gt h.1)

theorem TradableAsset.toUInt32_toUInt16 {a : UInt32} (h : TradableAsset a) :
    a.toUInt16.toUInt32 = a := by
  apply UInt32.toNat_inj.1
  rw [UInt16.toNat_toUInt32, UInt32.toNat_toUInt16, Nat.mod_eq_of_lt h.2]

/-- From `f` to `f'` the dashboard prints the matches `ms`. -/
structure Prints (f : Feed) (ms : List Match) (f' : Feed) : Prop where
  asset : f'.marketAssetId = f.marketAssetId
  told : TradableAsset f.marketAssetId → (∀ m ∈ ms, m.Priced) →
    prints f'.outgoingOrders = prints f.outgoingOrders ++ ms

namespace Prints

variable {f f₁ f₂ : Feed} {ms ms' : List Match}

theorem refl (f : Feed) : Prints f [] f := ⟨rfl, fun _ _ => (List.append_nil _).symm⟩

theorem trans (h₁ : Prints f ms f₁) (h₂ : Prints f₁ ms' f₂) : Prints f (ms ++ ms') f₂ where
  asset := h₂.asset.trans h₁.asset
  told := fun ha hp => by
    rw [h₂.told (by rwa [h₁.asset]) fun m hm => hp m (List.mem_append_right _ hm),
      h₁.told ha fun m hm => hp m (List.mem_append_left _ hm), List.append_assoc]

theorem pushUpdate (h : Prints f ms f₁) (total : UInt64) (price : Int64) (sd : OrderSide) :
    Prints f ms (f₁.pushUpdate total price sd) := ⟨h.asset, h.told⟩

theorem pushReport (h : Prints f ms f₁) {state : OrderState}
    (hs : state ≠ .fill ∧ state ≠ .partialFill)
    (bought sold attempt : Int64) (clientId orderId : UInt32) (boughtId soldId : UInt16) :
    Prints f ms (f₁.pushReport bought sold attempt clientId orderId boughtId soldId state) where
  asset := h.asset
  told := fun ha hp => by
    have hnone : prints [(⟨bought, sold, attempt, f₁.reportSequenceId, clientId, orderId, 0,
        boughtId, soldId, state⟩ : OrderStateReport)] = [] := by
      rw [prints, List.filterMap_cons, decodeTrade_of_state hs]
      rfl
    rw [Feed.pushReport, prints_append, hnone, List.append_nil]
    exact h.told ha hp

section
variable {quantity : UInt32} {price : Int64} {o r : Order} {left left' : UInt32}

theorem pushFill_buy (ha : TradableAsset f.marketAssetId)
    (hp : Match.Priced ⟨f.marketAssetId, price, quantity⟩) :
    prints (f.pushFill .buy quantity price o left).outgoingOrders =
      prints f.outgoingOrders ++ [⟨f.marketAssetId, price, quantity⟩] := by
  obtain ⟨h0, hpos, hfits⟩ := hp
  rw [Feed.pushFill, Feed.pushReport, prints_append]
  congr 1
  rw [prints, List.filterMap_cons, decodeTrade_of_asset quantity price ?_ ha.toUInt16_ne_zero
    rfl rfl rfl h0 hpos hfits]
  · simp only [Feed.boughtAsset, List.filterMap_nil, List.map_cons, List.map_nil, Trade.widen,
      ha.toUInt32_toUInt16]
  · simp only
    split
    · exact .inr rfl
    · exact .inl rfl

theorem pushFill_sell : prints (f.pushFill .sell quantity price o left).outgoingOrders =
    prints f.outgoingOrders := by
  rw [Feed.pushFill, Feed.pushReport, prints_append]
  nth_rewrite 2 [prints]
  rw [List.filterMap_cons, decodeTrade_of_cash rfl]
  exact List.append_nil _

/-- The two reports of a match are one print, whichever side came in. -/
theorem fills (sd : OrderSide) : Prints f [⟨f.marketAssetId, price, quantity⟩]
    ((f.pushFill sd quantity price o left).pushFill sd.opp quantity price r left') where
  asset := rfl
  told := fun ha hp => by
    have hm := hp _ (List.mem_singleton.2 rfl)
    cases sd with
    | buy =>
      show prints (Feed.pushFill _ .sell _ _ _ _).outgoingOrders = _
      rw [pushFill_sell, pushFill_buy ha hm]
    | sell =>
      show prints (Feed.pushFill _ .buy _ _ _ _).outgoingOrders = _
      rw [pushFill_buy (f := f.pushFill .sell quantity price o left) ha hm, pushFill_sell]
      rfl

end

end Prints

/-- From the state `s` and the order `o` the engine gets to `s'` and `o'` by the matches `ms`. -/
structure Carries (s : FiniteBidAsk) (o : Order) (ms : List Match) (s' : FiniteBidAsk)
    (o' : Order) : Prop where
  intact : ∃ L, Intact s' L
  kept : Kept [] s.store.orderMap s'.store.orderMap
  order : o' = { o with amount := o'.amount }
  prints : Prints s.toFeed ms s'.toFeed

section
variable {s s₁ s₂ s' : FiniteBidAsk} {L : Levels} {o o₁ o₂ o' : Order} {ms ms' : List Match}
  {sd : OrderSide}
  {locked locked' : Int64} {ptr n : Nat} {offer next : Option Nat}
  {mk : FiniteBidAsk → Order → Bool}

theorem Carries.refl (h : Intact s L) : Carries s o [] s o := ⟨⟨L, h⟩, .refl, rfl, .refl _⟩

theorem Carries.trans (h₁ : Carries s o ms s₁ o₁) (h₂ : Carries s₁ o₁ ms' s₂ o₂) :
    Carries s o (ms ++ ms') s₂ o₂ where
  intact := h₂.intact
  kept := h₁.kept.trans h₂.kept
  order := by rw [h₂.order, h₁.order]
  prints := h₁.prints.trans h₂.prints

/-- The body of the inner loop is one match, at the price of the offer. -/
theorem fillOffer_carries (h : Intact s L) (hoffer : Intact.Offers s L sd.opp ptr (some n))
    (hcode : s.fillOffer sd o locked ptr n = .ok (s', o', locked', next)) :
    Carries s o [⟨s.marketAssetId, (s.store.node n).order.price, traded o (s.store.node n).order⟩]
      s' o' ∧ ∃ L', Intact s' L' ∧ Intact.Offers s' L' sd.opp ptr next := by
  obtain ⟨L', h', hoffer', hkept, horder, hfeed⟩ := h.fillOffer hoffer hcode
  refine ⟨⟨⟨L', h'⟩, hkept, horder, ?_⟩, L', h', hoffer'⟩
  rw [hfeed, h.price_of_offers hoffer]
  exact (Prints.fills sd).pushUpdate _ _ _

/-- **The inner loop.** -/
theorem fillLevel_carries :
    ∀ {fuel : Nat} {s : FiniteBidAsk} {o : Order} {locked : Int64} {offer : Option Nat}
    {L : Levels}, Intact s L → Intact.Offers s L sd.opp ptr offer →
    BidAsk.fillLevel mk sd ptr fuel s o locked offer = .ok (s', o', locked') →
    Carries s o (BidAsk.levelMatches mk sd ptr fuel s o locked offer) s' o'
  | 0, _, _, _, _, _, _, _, hcode => by cases hcode
  | _ + 1, _, _, _, none, _, h, _, hcode => by
    cases hcode
    exact .refl h
  | fuel + 1, s, o, locked, some n, L, h, hoffer, hcode => by
    rw [fillLevel_succ] at hcode
    rw [BidAsk.levelMatches]
    by_cases hc : 0 < o.amount ∧ mk s o = true
    · rw [if_pos hc] at hcode ⊢
      cases hbody : s.fillOffer sd o locked ptr n with
      | error e =>
        rw [hbody] at hcode
        cases hcode
      | ok p =>
        obtain ⟨s₁, o₁, locked₁, next⟩ := p
        rw [hbody] at hcode
        obtain ⟨hone, L₁, h₁, hoffer₁⟩ := fillOffer_carries h hoffer hbody
        exact hone.trans (fillLevel_carries h₁ hoffer₁ hcode)
    · rw [if_neg hc] at hcode ⊢
      cases hcode
      exact .refl h

theorem setBestPrice_carries (h : Intact s L) (p : Int64) (sd : OrderSide) (o : Order) :
    Carries s o [] (s.setBestPrice p sd) o := by
  refine ⟨⟨L, h.setBestPrice p sd⟩, ?_, rfl, ?_⟩
  · rw [BidAsk.store_setBestPrice]
    exact .refl
  · rw [BidAsk.toFeed_setBestPrice]
    exact .refl _

/-- **The outer loop.** -/
theorem fillLevels_carries :
    ∀ {fuel : Nat} {s : FiniteBidAsk} {o : Order} {locked : Int64} {L : Levels}, Intact s L →
    BidAsk.fillLevels mk sd fuel s o locked = .ok (s', o', locked') →
    Carries s o (BidAsk.sweepMatches mk sd fuel s o locked) s' o'
  | 0, _, _, _, _, _, hcode => by cases hcode
  | fuel + 1, s, o, locked, L, h, hcode => by
    rw [BidAsk.fillLevels] at hcode
    rw [BidAsk.sweepMatches]
    by_cases hc : 0 < o.amount ∧ mk s o = true
    · rw [if_pos hc] at hcode ⊢
      cases hbest : (s.book sd.opp).getBestLevel with
      | error e =>
        rw [hbest] at hcode
        cases hcode
      | ok best =>
        cases best with
        | none =>
          rw [hbest] at hcode
          cases hcode
          exact .refl h
        | some ptr =>
          rw [hbest] at hcode
          simp only at hcode ⊢
          have hoffer := h.offers_best hbest
          have hset := setBestPrice_carries h (s.store.level ptr).price sd.opp o
          cases hhead : (s.store.level ptr).head with
          | none =>
            rw [hhead] at hcode
            cases hcode
            exact .refl h
          | some n =>
            rw [hhead] at hcode hoffer
            simp only at hcode
            by_cases hx : crosses sd (s.store.level ptr).price o.price = true
            · rw [if_pos hx] at hcode
              rw [if_pos ⟨rfl, hx⟩]
              cases hlevel : BidAsk.fillLevel mk sd ptr (meOrderNodePoolSize + 2)
                  (s.setBestPrice (s.store.level ptr).price sd.opp) o locked (some n) with
              | error e =>
                rw [hlevel] at hcode
                cases hcode
              | ok p =>
                obtain ⟨s₁, o₁, locked₁⟩ := p
                rw [hlevel] at hcode
                have hone := fillLevel_carries (h.setBestPrice _ _) hoffer hlevel
                obtain ⟨L₁, h₁⟩ := hone.intact
                exact (hset.trans hone).trans (fillLevels_carries h₁ hcode)
            · rw [if_neg hx] at hcode
              rw [if_neg fun hboth => hx hboth.2]
              cases hcode
              exact hset
    · rw [if_neg hc] at hcode ⊢
      cases hcode
      exact .refl h

theorem addSideLimitOrder_prints (hcode : BidAsk.addSideLimitOrder sd s o = .ok s') :
    Prints s.toFeed [] s'.toFeed := by
  simp only [BidAsk.addSideLimitOrder, Store.register_finite] at hcode
  split at hcode
  · cases hcode
    exact .refl _
  · split at hcode
    · cases hcode
    · cases hcode
      simp only [BidAsk.toFeed_setFeed, BidAsk.toFeed_setBestPrice, BidAsk.toFeed_setBook,
        BidAsk.toFeed_setStore]
      exact ((Prints.refl _).pushReport (by decide) ..).pushUpdate ..

theorem cancelOrder_prints (hcode : BidAsk.cancelOrder sd s o = .ok s') :
    Prints s.toFeed [] s'.toFeed := by
  have hreject : Prints s.toFeed [] (s.setFeed (s.toFeed.pushReject o)).toFeed :=
    (Prints.refl _).pushReport (by decide) ..
  unfold BidAsk.cancelOrder at hcode
  simp only at hcode
  split at hcode
  · cases hcode
    exact hreject
  · split at hcode
    · cases hcode
      exact hreject
    · split at hcode
      · cases hcode
      · cases hcode
        rw [BidAsk.toFeed_setFeed]
        exact ((Prints.refl _).pushReport (by decide) ..).pushUpdate ..

theorem fillOrder_prints (h : Intact s L) (hid : s.store.orderMap o.id32.toUInt64 = none)
    (hcode : BidAsk.fillOrder mk o.side s o = .ok s') :
    (∃ L', Intact s' L') ∧ Kept [o.id32] s.store.orderMap s'.store.orderMap ∧
      Prints s.toFeed (BidAsk.sweepMatches mk o.side (mePriceLevelPoolSize + 2) s o
        (reserve o.side o.amount o.price)) s'.toFeed := by
  unfold BidAsk.fillOrder at hcode
  cases hsweep : BidAsk.fillLevels mk o.side (mePriceLevelPoolSize + 2) s o
      (reserve o.side o.amount o.price) with
  | error e =>
    rw [hsweep] at hcode
    cases hcode
  | ok p =>
    obtain ⟨s₁, o₁, locked₁⟩ := p
    rw [hsweep] at hcode
    simp only at hcode
    obtain ⟨⟨L₁, h₁⟩, hkept, horder, hprints⟩ := fillLevels_carries h hsweep
    generalize BidAsk.sweepMatches mk o.side (mePriceLevelPoolSize + 2) s o
      (reserve o.side o.amount o.price) = ms at hprints ⊢
    have hkept' : Kept [o.id32] s.store.orderMap s₁.store.orderMap := hkept.trans .refl
    have hside : o₁.side = o.side := by rw [horder, Order.side_withAmount]
    have hid₁ : o₁.id32 = o.id32 := by rw [horder]; rfl
    split at hcode
    · cases htype : o₁.type with
      | limit =>
        simp only [htype] at hcode
        rw [← hside] at hcode
        have hnone : s₁.store.orderMap o₁.id32.toUInt64 = none := by
          rw [hid₁]
          exact hkept _ (by simp) hid
        obtain ⟨L₂, h₂, hkept₂⟩ := h₁.addSideLimitOrder hnone hcode
        rw [hid₁] at hkept₂
        have hall := hprints.trans (addSideLimitOrder_prints hcode)
        rw [List.append_nil] at hall
        exact ⟨⟨L₂, h₂⟩, hkept.trans hkept₂, hall⟩
      | market =>
        simp only [htype] at hcode
        cases hcode
        refine ⟨⟨L₁, h₁.setFeed _⟩, ?_, ?_⟩
        · rw [BidAsk.store_setFeed]
          exact hkept'
        · rw [BidAsk.toFeed_setFeed]
          exact hprints.pushReport (by decide) ..
    · cases hcode
      exact ⟨⟨L₁, h₁⟩, hkept', hprints⟩

/-- **One message**: what it may add to the map of orders is its id, what is printed are its
matches. -/
theorem process_prints (h : Intact s L) (hside : CancelsOwnSide s o)
    (hid : o.action = .execute → s.store.orderMap o.id32.toUInt64 = none)
    (hcode : s.process o = .ok s') :
    (∃ L', Intact s' L') ∧ Kept (executeIds [o]) s.store.orderMap s'.store.orderMap ∧
      Prints s.toFeed (s.processMatches o) s'.toFeed := by
  cases ha : o.action with
  | cancel =>
    have hcancel : BidAsk.cancelOrder o.side s o = .ok s' := by rw [← process_cancel ha, hcode]
    obtain ⟨L', h', hkept⟩ := h.cancelOrder hside ha hcancel
    refine ⟨⟨L', h'⟩, by simpa [executeIds, ha] using hkept, ?_⟩
    rw [BidAsk.processMatches, if_neg (by simp [ha])]
    exact cancelOrder_prints hcancel
  | execute =>
    rw [executeIds_of_execute ha]
    rw [process_execute ha, BidAsk.executeOrder, BidAsk.executeOrderWith] at hcode
    by_cases hm : s.isMarketable o = true
    · have hfill : BidAsk.fillOrder BidAsk.isMarketable o.side s o = .ok s' := by
        rw [if_pos hm] at hcode
        rw [← hcode, BidAsk.executeMarketableOrder]
        cases o.side <;> rfl
      rw [BidAsk.processMatches, if_pos ⟨ha, hm⟩]
      exact fillOrder_prints h (hid ha) hfill
    · have hadd : BidAsk.addSideLimitOrder o.side s o = .ok s' := by
        rw [if_neg hm] at hcode
        rw [← hcode, BidAsk.addLimitOrder]
        cases o.side <;> rfl
      rw [BidAsk.processMatches, if_neg fun hboth => hm hboth.2]
      obtain ⟨L', h', hkept⟩ := h.addSideLimitOrder (hid ha) hadd
      exact ⟨⟨L', h'⟩, hkept, addSideLimitOrder_prints hadd⟩

end

/-! ## Runs -/

section
variable {s₀ s : FiniteBidAsk} {L₀ : Levels} {msgs : List Order} {outs : List BidAsk.Out}

/-- The matches of a run are printed, from any state in order. -/
theorem prints_of_run (h₀ : Intact s₀ L₀) (hmap : s₀.store.orderMap = FiniteMap.empty)
    (ha : TradableAsset s₀.marketAssetId) (hids : (executeIds msgs).Nodup)
    (hside : Along CancelsOwnSide BidAsk.step s₀ msgs)
    (hpriced : ∀ m ∈ s₀.runMatches msgs, m.Priced)
    (hrun : BidAsk.run s₀ msgs = .ok (s, outs)) :
    prints (allReports outs) = s₀.runMatches msgs := by
  suffices h : (∃ L, Intact s L) ∧ Kept (executeIds msgs) FiniteMap.empty s.store.orderMap ∧
      s.marketAssetId = s₀.marketAssetId ∧ ((∀ m ∈ s₀.runMatches msgs, m.Priced) →
        prints (allReports outs) = s₀.runMatches msgs) from h.2.2.2 hpriced
  refine run_invariant (P := fun xs s outs => (∃ L, Intact s L) ∧
    Kept (executeIds xs) FiniteMap.empty s.store.orderMap ∧ s.marketAssetId = s₀.marketAssetId ∧
      ((∀ m ∈ s₀.runMatches xs, m.Priced) → prints (allReports outs) = s₀.runMatches xs))
    ⟨⟨L₀, h₀⟩, by rw [hmap]; exact .refl, rfl, fun _ => rfl⟩ hside ?_ hrun
  rintro xs o s outs s' out hp hrun ⟨⟨L, h⟩, hkept, hasset, htold⟩ hown hstep
  have hfresh : o.action = .execute → s.store.orderMap o.id32.toUInt64 = none := fun hx => by
    refine hkept _ (fun id hid he => ?_) rfl
    obtain ⟨ys, rfl⟩ := hp
    rw [executeIds_append] at hids
    have hnd := hids.of_append_left
    rw [executeIds_append, executeIds_of_execute hx] at hnd
    exact (List.nodup_append.1 hnd).2.2 id hid o.id32 (by simp) (UInt32.toUInt64_inj.1 he)
  obtain ⟨hproc, rfl⟩ := process_of_step hstep
  obtain ⟨hL', hkept', hprints⟩ := process_prints (h.setFeed s.toFeed.cleared) hown hfresh hproc
  have hmatches : s₀.runMatches (xs ++ [o]) = s₀.runMatches xs ++ s.stepMatches o :=
    collect_snoc hrun
  refine ⟨hL', ?_, hprints.asset.trans hasset, fun hall => ?_⟩
  · rw [executeIds_append]
    exact hkept.trans hkept'
  · rw [hmatches] at hall ⊢
    have hold := htold fun m hm => hall m (List.mem_append_left _ hm)
    have hnew := hprints.told (hasset ▸ ha)
      fun m hm => hall m (List.mem_append_right _ hm)
    rw [allReports, List.flatMap_append, List.flatMap_singleton, prints_append]
    exact congrArg₂ _ hold hnew

/-- A run of orders at prices between the extreme ones goes through. -/
theorem run_completes (h₀ : View s₀ L₀ empty) (hv : Valid msgs)
    (hside : Along CancelsOwnSide BidAsk.step s₀ msgs)
    (hfree : Along PoolsFree BidAsk.step s₀ msgs) :
    ∃ s outs, BidAsk.run s₀ msgs = .ok (s, outs) := by
  have hall : Along (fun s o => CancelsOwnSide s o ∧ PoolsFree s o) BidAsk.step s₀ msgs :=
    fun xs a hp s bs hr => ⟨hside xs a hp s bs hr, hfree xs a hp s bs hr⟩
  obtain ⟨s, outs, hrun, -⟩ := run_total (P := fun xs s _ => ∃ L b, View s L b ∧ Known xs b)
    ⟨L₀, empty, h₀, known_empty⟩ hall (by
      rintro xs o s outs hp - ⟨L, b, hview, hk⟩ ⟨hown, hroom⟩
      -- the map finds every resting order
      have hnames : NamesSide s o := by
        intro hx sd r hr hid hclient
        rw [hview.restingOrders] at hr
        obtain ⟨n, hn, rfl⟩ := hview.exists_node hr
        have hget := hview.orderMap_node hn
        rw [hid] at hget
        exact hown hx n hget hclient
      have hacc := acceptable hview hk (hv.restrict hp) hnames
      obtain ⟨hr, hx, -⟩ | ⟨hr, hx, -⟩ | ⟨s', L', he, hv', -⟩ := step_cases hview hacc
      · exact absurd (hroom hx) hr
      · exact absurd (hroom hx) hr
      · exact ⟨s', _, he, L', _, hv', hk.process _⟩)
  exact ⟨s, outs, hrun⟩

end

/-- **One print per match, with the exact price.** In every run that goes through, the dashboard's
prints are the engine's matches in order, each with the traded asset, the resting order's price and
the quantity; reports of other states give nothing. A run of orders at prices strictly between the
extreme ones does go through. -/
theorem run_prints (assetId : UInt32) (initialPrice : Int64) (reportSeq bookSeq : UInt32)
    (bidSeed askSeed : UInt64) {msgs : List Order} (ha : 0 < assetId.toNat ∧ assetId.toNat < 2 ^ 16)
    (hids : (executeIds msgs).Nodup)
    (hside : Along CancelsOwnSide BidAsk.step
      (BidAsk.new assetId initialPrice reportSeq bookSeq bidSeed askSeed) msgs)
    (hpriced : ∀ m ∈ (BidAsk.new assetId initialPrice reportSeq bookSeq bidSeed askSeed).runMatches
      msgs, m.Priced) :
    (∀ s outs,
      BidAsk.run (BidAsk.new assetId initialPrice reportSeq bookSeq bidSeed askSeed) msgs =
      .ok (s, outs) → prints (allReports outs) =
          (BidAsk.new assetId initialPrice reportSeq bookSeq bidSeed askSeed).runMatches msgs ∧
        ∀ r ∈ allReports outs, r.state = .add ∨ r.state = .cancel ∨ r.state = .reject →
          decodeTrade r = none) ∧
    (Valid msgs →
      Along PoolsFree BidAsk.step
        (BidAsk.new assetId initialPrice reportSeq bookSeq bidSeed askSeed) msgs →
      ∃ s outs, BidAsk.run (BidAsk.new assetId initialPrice reportSeq bookSeq bidSeed askSeed)
        msgs = .ok (s, outs)) := by
  constructor
  · intro s outs hrun
    refine ⟨prints_of_run (new_intact ..) rfl ha hids hside hpriced hrun, fun r _ hr => ?_⟩
    refine decodeTrade_of_state ?_
    rcases hr with h | h | h <;> simp [h]
  · intro hv hfree
    exact run_completes (new_view ..) hv hside hfree

/-- An ask, a market order that takes part of it, a bid, a sell order that takes part of the bid,
and a bid at the highest price, which rests where no sweep finds it. -/
def printedRun : List Order :=
  [⟨100, 1, 0, 7, 5, 1, .limit, .sell, .execute⟩,
   ⟨101, 2, 0, 8, 3, 1, .market, .buy, .execute⟩,
   ⟨99, 3, 0, 8, 4, 1, .limit, .buy, .execute⟩,
   ⟨98, 4, 0, 9, 2, 1, .limit, .sell, .execute⟩,
   ⟨Int64.maxValue, 5, 0, 8, 6, 1, .limit, .buy, .execute⟩]

/-- The three matches of that run: the last bid takes the rest of the ask first. -/
theorem run_prints_printedRun : ∃ s outs, BidAsk.run (BidAsk.new 1 100 0 0 3 5) printedRun = .ok
    (s, outs) ∧ prints (allReports outs) = [⟨1, 100, 3⟩, ⟨1, 99, 2⟩, ⟨1, 100, 2⟩] := by
  have hmatches : (BidAsk.new 1 100 0 0 3 5).runMatches printedRun =
      [⟨1, 100, 3⟩, ⟨1, 99, 2⟩, ⟨1, 100, 2⟩] := by decide +kernel
  obtain ⟨s, outs, hrun, -⟩ :=
    exists_of_succeeds (r := BidAsk.run (BidAsk.new 1 100 0 0 3 5) printedRun)
    (P := fun _ _ => True) (by decide +kernel)
  have h := (run_prints 1 100 0 0 3 5 (by decide) (by decide) (by decide +kernel)
    (by rw [hmatches]; decide)).1 s outs hrun
  exact ⟨s, outs, hrun, h.1.trans hmatches⟩

end MarketClient

end Naoto
