import NaotoExchange.Engine.Proof.Reports
import NaotoExchange.Engine.Proof.Tables
import NaotoExchange.Gateway.OrderRiskCheck

/-!
# The price index

The sentinels of a side's skip list have the extreme keys of the price type, and nothing keeps an
order from having one of these as its price: the risk check does not look at the price of a sell. A
sell at the highest price leads the search behind the tail (`sell_at_limits`), one at the lowest
rests in a level that the search takes for the head, so that it is never found.

With a price between the sentinels an order is safe for the index (`run_index_safe`): no null
pointer is followed, the sentinels stay, what rests is found from the head, and an opposite order
whose amount reaches it trades with it.
-/

namespace Naoto.Engine

open Reference Run SkipList

/-! ## The sentinels -/

/-- Both sides keep their sentinel nodes. -/
def KeepsSentinels (s s' : FiniteBidAsk) : Prop :=
  ∀ sd, SameSentinels (s.book sd).bestPricesMap (s'.book sd).bestPricesMap

section
variable {s s' : FiniteBidAsk} {L L' : Levels} {b b' : Book} {sd : OrderSide} {o : Order}

theorem addSideLimitOrder_sentinels (h : BidAsk.addSideLimitOrder sd s o = .ok s') :
    KeepsSentinels s s' := by
  intro sd'
  simp only [BidAsk.addSideLimitOrder, Store.register_finite] at h
  split at h
  · cases h
    exact .refl _
  · split at h
    · cases h
    · next hadd =>
      cases h
      rw [BidAsk.book_setFeed, BidAsk.book_setBestPrice, BidAsk.book_setBook, BidAsk.book_setStore]
      rcases OrderSide.eq_or_eq_opp sd sd' with rfl | rfl
      · rw [Function.update_self]
        exact OrderBook.addLimitOrder_sentinels hadd
      · rw [Function.update_of_ne (OrderSide.opp_ne _)]
        exact .refl _

theorem sentinels_invariant (sd : OrderSide) (s₀ : FiniteBidAsk) :
    SweepInvariant sd fun s _ _ _ _ _ => KeepsSentinels s₀ s where
  refresh := by
    intro s L b o k its l ls _ _ h sd'
    rw [BidAsk.book_setBestPrice]
    exact h sd'
  round := fun hround h sd' => (h sd').trans (hround.sentinels sd')

theorem executeOrder_sentinels (h : View s L b) (hcode : BidAsk.executeOrder s o = .ok s') :
    KeepsSentinels s s' := by
  rw [BidAsk.executeOrder, executeOrderWith_side] at hcode
  split at hcode
  · obtain ⟨s₁, L₁, q₁, o₁, k₁, visits, hloops, -, hswept⟩ :=
      fillLevels_rule isMarketable_decides h (sentinels_invariant o.side s) (fun sd => .refl _)
    simp only [BidAsk.fillOrder, hloops] at hcode
    split at hcode
    · split at hcode
      · exact fun sd => (hswept.inv sd).trans (addSideLimitOrder_sentinels hcode sd)
      · cases hcode
        intro sd
        rw [BidAsk.book_setFeed]
        exact hswept.inv sd
    · cases hcode
      exact hswept.inv
  · exact addSideLimitOrder_sentinels hcode

/-- The sentinels of `sl` are in use in `sl'`, with their keys. -/
structure SentinelsStay (c : Compare) (sl sl' : PriceLevelSkipList) :
    Prop extends SameSentinels sl sl' where
  headUsed : sl.head ∉ sl'.nodesPool.freeList
  tailUsed : sl.tail ∉ sl'.nodesPool.freeList
  headKey : (sl'.node sl.head).key = c.headKey
  tailKey : (sl'.node sl.tail).key = c.tailKey

theorem View.sentinelsStay (h : View s' L' b') (hsame : KeepsSentinels s s') (sd : OrderSide) :
    SentinelsStay (compareOf sd) (s.book sd).bestPricesMap (s'.book sd).bestPricesMap := by
  obtain ⟨xs, hr, -⟩ := h.rep.index sd
  have hs := hsame sd
  refine ⟨hs, ?_, ?_, ?_, ?_⟩
  · rw [← hs.head]
    exact hr.owns.not_free (by simp)
  · rw [← hs.tail]
    exact hr.owns.not_free (by simp)
  · rw [← hs.head]
    exact hr.headKey
  · rw [← hs.tail]
    exact hr.tailKey

end

/-! ## Reaching a resting order -/

/-- What rests in front. -/
def ahead (front : List Order) : Nat := (front.map fun x => x.amount.toNat).sum

/-- A sweep with more than what rests in front of an order trades with it. -/
theorem sweep_reaches (asset : UInt16) {sd : OrderSide} {r : Order} (back : List Order) :
    ∀ (front : List Order) (o : Order) (locked : Int64),
      (∀ x ∈ front, crosses sd x.price o.price = true) → crosses sd r.price o.price = true →
      ahead front < o.amount.toNat →
      ∃ t : UInt32, t.toNat = min (o.amount.toNat - ahead front) r.amount.toNat ∧
        fillOf asset sd.opp t r.price (less r t) ∈
          (sweep sd (front ++ r :: back) o locked).events.flatMap (Event.reports asset)
  | [], o, locked, _, hr, hmore => by
    have h0 : 0 < o.amount := UInt32.lt_iff_toNat_lt.2 (by simpa [ahead] using hmore)
    refine ⟨traded o r, by rw [toNat_traded]; simp [ahead], ?_⟩
    rw [List.nil_append, sweep_step back locked h0 hr]
    exact List.mem_flatMap.2 ⟨tradeEvent sd o r back, by simp [Swept.prepend], .tail _ (.head _)⟩
  | x :: front, o, locked, hfront, hr, hmore => by
    have hsum : ahead (x :: front) = x.amount.toNat + ahead front := by simp [ahead]
    rw [hsum] at hmore ⊢
    have h0 : 0 < o.amount := UInt32.lt_iff_toNat_lt.2 (by simp; omega)
    -- the first order is used up
    have hused : (less x (traded o x)).amount = 0 := by
      have ht : traded o x = x.amount := UInt32.toNat_inj.1 (by rw [toNat_traded]; omega)
      simp [less, ht]
    have hafter : afterTrade o x (front ++ r :: back) = front ++ r :: back := if_pos hused
    have hleft := toNat_less o x
    obtain ⟨t, ht, hmem⟩ := sweep_reaches asset back front (less o (traded o x))
      (locked + soldLeg sd (traded o x) x.price) (fun y hy => hfront y (.tail _ hy)) hr (by omega)
    refine ⟨t, by omega, ?_⟩
    rw [List.cons_append, sweep_step _ locked h0 (hfront x (.head _)), hafter]
    simp only [Swept.prepend, List.singleton_append, List.flatMap_cons]
    exact List.mem_append_right _ hmem

/-- The same for the queue of a view, whose front is not worse than what stands behind it. -/
theorem View.execute_reaches {s : FiniteBidAsk} {L : Levels} {b : Book} {o r : Order}
    {front back : List Order}
    (asset : UInt16) (h : View s L b) (hq : b o.side.opp = front ++ r :: back)
    (hc : crosses o.side r.price o.price = true) (hmore : ahead front < o.amount.toNat) :
    ∃ t : UInt32, t.toNat = min (o.amount.toNat - ahead front) r.amount.toNat ∧
      fillOf asset o.side.opp t r.price (less r t) ∈ (execute b o).2.flatMap
        (Event.reports asset) := by
  have hsorted := h.sorted o.side.opp
  rw [hq] at hsorted
  have hfront : ∀ x ∈ front, crosses o.side x.price o.price = true := fun x hx =>
    crosses_of_comp ((List.pairwise_append.1 hsorted).2.2 x hx r (.head _)) hc
  obtain ⟨t, ht, hmem⟩ := sweep_reaches asset back front o (reserve o.side o.amount o.price) hfront
    hc hmore
  refine ⟨t, ht, ?_⟩
  simp only [execute, List.flatMap_append, hq]
  exact List.mem_append_left _ hmem

/-! ## Runs -/

/-- What `executeOrder` does to the price index and to the orders that it reaches. -/
structure IndexSafe {OM FM : Type} [KeyMap OM UInt64 Nat] (s s' : BidAsk OM FM) (o : Order) :
    Prop where
  sentinels : ∀ sd,
    SentinelsStay (compareOf sd) (s.book sd).bestPricesMap (s'.book sd).bestPricesMap
  found : ∀ n, KeyMap.getVal s'.store.orderMap o.id32.toUInt64 = some n →
    (s'.store.node n).order = { o with amount := (s'.store.node n).order.amount } ∧
      o.price ∈ s'.indexPrices o.side ∧ (s'.store.node n).order ∈ s'.restingOrders o.side
  reaches : ∀ front r back, s.restingOrders o.side.opp = front ++ r :: back →
    crosses o.side r.price o.price = true → ahead front < o.amount.toNat →
    ∃ t : UInt32, t.toNat = min (o.amount.toNat - ahead front) r.amount.toNat ∧
      ∃ rep ∈ s'.outgoingOrders,
        rep.unnumbered = fillOf s.marketAssetId.toUInt16 o.side.opp t r.price (less r t)

/-- An order with a price between the sentinels that finds room, over finite maps. -/
theorem View.index_safe {s : FiniteBidAsk} {L : Levels} {b : Book} {o : Order} (hview : View s L b)
    (hacc : Acceptable b o) (ha : o.action = .execute) (hroom : s.HasRoom) :
    ∃ s', BidAsk.executeOrder s o = .ok s' ∧ IndexSafe s s' o := by
  obtain ⟨s', L', hcode, hview', hfeed⟩ :=
    execute_refines isMarketable_decides hview (hacc.inner ha) (hacc.fresh ha) hroom
  refine ⟨s', hcode, hview'.sentinelsStay (executeOrder_sentinels hview hcode), fun n hn => ?_,
    fun front r back hq hc hmore => ?_⟩
  · -- the only order with the id is the new one
    obtain ⟨sd, hnode, hid⟩ := hview'.mapped_node hn
    have hmem := hview'.order_mem hnode
    rcases within_executeWith (s.isMarketable o) b o sd _ hmem with ⟨r, hr, he⟩ | ⟨rfl, he⟩
    · rw [he] at hid
      exact absurd hid (hacc.fresh ha sd r hr)
    · obtain ⟨l, hl, hnl⟩ := Levels.mem_queue.1 hnode
      have hprice := ((hview'.rep.level o.side l hl).orders n hnl).2
      rw [he] at hprice
      refine ⟨he, ?_, by rw [hview'.restingOrders]; exact hmem⟩
      rw [hview'.indexPrices]
      exact List.mem_map.2 ⟨l, hl, hprice.symm⟩
  · rw [hview.restingOrders] at hq
    have h0 : 0 < o.amount := UInt32.lt_iff_toNat_lt.2 (by simp; omega)
    rw [executeWith_eq isMarketable_decides hview h0] at hfeed
    obtain ⟨t, ht, hrep⟩ := hview.execute_reaches s.marketAssetId.toUInt16 hq hc hmore
    have hreports := (foldl_emit (execute b o).2 s.toFeed).2.1
    rw [← hfeed] at hreports
    have hmem : fillOf s.marketAssetId.toUInt16 o.side.opp t r.price (less r t) ∈
        s'.outgoingOrders.map OrderStateReport.unnumbered := by
      rw [hreports]
      exact List.mem_append_right _ hrep
    obtain ⟨rep, hmem, he⟩ := List.mem_map.1 hmem
    exact ⟨t, ht, rep, hmem, he⟩

theorem IndexSafe.of_finite {s s' : FlatBidAsk} {o : Order} (h : IndexSafe s.finite s'.finite o) :
    IndexSafe s s' o where
  sentinels := by
    intro sd
    have := h.sentinels sd
    rwa [BidAsk.book_finite, BidAsk.book_finite] at this
  found := by
    intro n hn
    have := h.found n hn
    rwa [BidAsk.indexPrices_finite, BidAsk.restingOrders_finite] at this
  reaches := by
    intro front r back hq
    rw [← BidAsk.restingOrders_finite] at hq
    exact h.reaches front r back hq

/-- **An order with a price between the sentinels is safe for the price index.** In every state that
a run reaches, with free pools and room at home, `executeOrder` returns; the sentinels of both sides
stay; if the order or its remainder is registered then its price is in the index and it is found
there; and it trades with every resting order that it crosses and whose front it exceeds. -/
theorem run_index_safe (assetId : UInt32) (initialPrice : Int64) (reportSeq bookSeq : UInt32)
    (bidSeed askSeed : UInt64) {msgs : List Order} {s : FlatBidAsk} {outs : List BidAsk.Out}
    (hside : Along NamesSide BidAsk.step
      (BidAsk.newFlat assetId initialPrice reportSeq bookSeq bidSeed askSeed) msgs)
    (hhome : Along RoomAtHome BidAsk.step
      (BidAsk.newFlat assetId initialPrice reportSeq bookSeq bidSeed askSeed) msgs)
    (hrun : BidAsk.run (BidAsk.newFlat assetId initialPrice reportSeq bookSeq bidSeed askSeed)
      msgs = .ok (s, outs)) (hroom : s.HasRoom) {o : Order} (ha : o.action = .execute)
    (hv : Valid (msgs ++ [o])) (ho : RoomAtHome s o) :
    ∃ s', BidAsk.executeOrder s o = .ok s' ∧ IndexSafe s s' o := by
  have hvm := hv.restrict (List.prefix_append msgs [o])
  obtain ⟨-, hmirror⟩ :=
    run_finite assetId initialPrice reportSeq bookSeq bidSeed askSeed hvm hside hhome hrun
  obtain ⟨L, b, hview, hk⟩ := hmirror.view
  have hacc : Acceptable b o := acceptable hview hk hv fun hc => by rw [ha] at hc; cases hc
  obtain ⟨a, hcode, hsafe⟩ := hview.index_safe hacc ha (s.hasRoom_finite.2 hroom)
  obtain ⟨s', hs', rfl⟩ := hmirror.executeOrder_of_finite ha ho hcode
  exact ⟨s', hs', hsafe.of_finite⟩

/-- A bid of six against the ask of five of the sample run. -/
theorem run_index_safe_sample : ∃ s outs s',
    BidAsk.run (BidAsk.newFlat 1 100 0 0 3 5) (sampleRun.take 1) = .ok (s, outs) ∧
    BidAsk.executeOrder s ⟨101, 2, 0, 8, 6, 1, .limit, .buy, .execute⟩ = .ok s' ∧
    SentinelsStay .less s.ask.bestPricesMap s'.ask.bestPricesMap ∧
    ∃ t : UInt32, t.toNat = 5 ∧ ∃ rep ∈ s'.outgoingOrders, rep.orderId = 1 := by
  obtain ⟨s, outs, hrun, hrest, hroom⟩ := exists_of_succeeds
    (P := fun s _ => s.restingOrders .sell = sampleRun.take 1 ∧ s.HasRoom)
    (r := BidAsk.run (BidAsk.newFlat 1 100 0 0 3 5) (sampleRun.take 1)) (by decide +kernel)
  have ho : RoomAtHome s ⟨101, 2, 0, 8, 6, 1, .limit, .buy, .execute⟩ :=
    holds_of_succeeds (P := fun s _ => RoomAtHome s ⟨101, 2, 0, 8, 6, 1, .limit, .buy, .execute⟩)
      hrun (by decide +kernel)
  obtain ⟨s', hcode, hstay, -, htrade⟩ := run_index_safe 1 100 0 0 3 5 (by decide +kernel)
    (by decide +kernel) hrun hroom (o := ⟨101, 2, 0, 8, 6, 1, .limit, .buy, .execute⟩) rfl
    (by decide +kernel) ho
  obtain ⟨t, ht, rep, hmem, he⟩ := htrade [] _ [] hrest (by decide) (by decide)
  refine ⟨s, outs, s', hrun, hcode, hstay .sell, t, ht, rep, hmem, ?_⟩
  exact congrArg OrderStateReport.orderId he

/-- A sell of one at a price. -/
def sellAt (price : Int64) : Order := ⟨price, 1, 0, 7, 1, 1, .limit, .sell, .execute⟩

/-- **The extreme prices**, which the risk check lets pass. A sell at the highest one makes
`AddNode` follow the null pointer of the tail; a sell at the lowest one is registered and confirmed,
but no level is linked in, and a bid at any price finds nothing to trade with. -/
theorem sell_at_limits :
    (∀ price, (Gateway.checkOrderRisk ⟨⟨7, fun _ => 1, 1, 0⟩, ⟨fun _ => 10, fun _ => 0⟩⟩
      ⟨fun _ => 0, 0⟩ (sellAt price) 1).1 = .accepted) ∧
    (BidAsk.newFlat 1 100 0 0 3 5).HasRoom ∧
    (BidAsk.executeOrder (BidAsk.newFlat 1 100 0 0 3 5) (sellAt Int64.maxValue)).map (fun _ => ()) =
      .error .nullDeref ∧
    (BidAsk.run (BidAsk.newFlat 1 100 0 0 3 5) [sellAt Int64.minValue,
      ⟨101, 2, 0, 8, 1, 1, .limit, .buy, .execute⟩]).map (fun r =>
        ((KeyMap.getVal r.1.store.orderMap 1).isSome, r.1.indexPrices .sell,
          (allReports r.2).map fun rep => (rep.orderId, rep.state))) =
      .ok (true, [], [(1, .add), (2, .add)]) := by
  refine ⟨fun price => ?_, by decide +kernel, by decide +kernel, by decide +kernel⟩
  rfl

end Naoto.Engine
