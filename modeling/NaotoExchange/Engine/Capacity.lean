import NaotoExchange.Engine.Soundness

/-!
# The sizes of the book's pools

A level takes an entry of the level pool, which the two sides share, a node of its side's skip list
and a slot of its side's hash map. The skip list has as many nodes as the level pool has entries,
but two of them are its sentinels.

* `run_capacities`: on a side with fewer than `MeSkipListNodePoolSize - 2` levels there is memory
  for an order whenever both shared pools have a free entry.
* `ladder_terminates`: on a side with that many levels there is not.
-/

namespace Naoto.Engine

open Reference Run

/-! ## Counting levels -/

section
variable {s : FiniteBidAsk} {L : Levels} {b : Book} {sd : OrderSide} {o : Order}

theorem length_le_nodes : ∀ {ls : List LevelRep}, (∀ l ∈ ls, l.nodes ≠ []) →
    ls.length ≤ (ls.flatMap (·.nodes)).length
  | [], _ => Nat.le_refl _
  | l :: ls, h => by
    have ih := length_le_nodes fun m hm => h m (List.mem_cons_of_mem _ hm)
    have hl : 0 < l.nodes.length := List.length_pos_iff.2 (h l (by simp))
    rw [List.flatMap_cons, List.length_append, List.length_cons]
    omega

theorem View.length_levels_le (h : View s L b) (sd : OrderSide) :
    (L sd).length ≤ (b sd).length := by
  rw [h.queue_length sd]
  exact length_le_nodes (h.full sd)

theorem View.price_indexed (h : View s L b) {r : Order} (hr : r ∈ b sd) :
    r.price ∈ s.indexPrices sd := by
  obtain ⟨n, hn, rfl⟩ := h.exists_node hr
  obtain ⟨l, hl, hnl⟩ := Levels.mem_queue.1 hn
  rw [((h.rep.level sd l hl).orders n hnl).2, h.indexPrices]
  exact List.mem_map_of_mem hl

theorem View.length_le_levels (h : View s L b) (hnd : ((b sd).map Order.price).Nodup) :
    (b sd).length ≤ (L sd).length := by
  have hsub : (b sd).map Order.price ⊆ s.indexPrices sd := by
    intro p hp
    obtain ⟨r, hr, rfl⟩ := List.mem_map.1 hp
    exact h.price_indexed hr
  have hlen := (hnd.subperm hsub).length_le
  rwa [h.indexPrices, List.length_map, List.length_map] at hlen

theorem View.order_at_level (h : View s L b) {l : LevelRep} (hl : l ∈ L sd) :
    ∃ r ∈ b sd, r.price = l.price := by
  obtain ⟨n, hn⟩ := List.exists_mem_of_ne_nil _ (h.full sd l hl)
  exact ⟨_, h.order_mem (Levels.mem_queue.2 ⟨l, hl, hn⟩), ((h.rep.level sd l hl).orders n hn).2⟩

theorem View.hasRoom_of_length (h : View s L b)
    (hlen : (b .buy).length + (b .sell).length + 2 < meSkipListNodePoolSize) : s.HasRoom := by
  have hbuy := h.length_levels_le .buy
  have hsell := h.length_levels_le .sell
  have hnodes := h.nodes_count .buy
  have hlevels := h.levels_count .buy
  simp only [OrderSide.opp, meOrderNodePoolSize, mePriceLevelPoolSize, meSkipListNodePoolSize] at *
  refine ⟨by omega, by omega, fun sd => ?_⟩
  have hindex := h.index_count sd
  simp only [meSkipListNodePoolSize] at hindex
  cases sd <;> omega

/-- The memory for an order on a side that the skip list has a node left for. -/
theorem View.room_of_levels (h : View s L b) (hnode : 0 < s.store.orderNodePool.freeSize)
    (hlevel : 0 < s.store.priceLevelPool.freeSize)
    (hindex : (s.levels sd).length + 2 < meSkipListNodePoolSize)
    (p : Int64) : View.Room s sd p := by
  have hcount := h.index_count sd
  rw [h.levels sd, List.length_map] at hindex
  exact ⟨hnode, .inr ⟨hlevel, by omega⟩⟩

/-- Without a node in the skip list for a new price the process ends, whatever the pools hold. -/
theorem View.addSideLimitOrder_full (h : View s L b) (hk : (compareOf o.side).Inner o.price)
    (hf : Fresh b o.id32) (hnode : 0 < s.store.orderNodePool.freeSize)
    (hnew : ∀ r ∈ b o.side, r.price ≠ o.price)
    (hfull : meSkipListNodePoolSize ≤ (L o.side).length + 2) :
    BidAsk.addSideLimitOrder o.side s o = .error .terminate := by
  obtain ⟨x, pool, hacq, hrep, hself, -, -⟩ := h.rep.hold hnode (h.orderMap_none hf)
  have hnone : (s.book o.side).fastMap o.price = none := by
    rw [Option.eq_none_iff_forall_ne_some]
    intro y hy
    obtain ⟨l, hl, hp, -⟩ := (h.rep.fast _ _ _).1 hy
    obtain ⟨r, hr, hrp⟩ := h.order_at_level hl
    exact hnew r hr (hrp.trans hp)
  have hroom : ¬ Rep.LevelRoom s.book (s.store.registered pool x o) o.side o.price := by
    have hcount := h.index_count o.side
    rintro (hsome | ⟨-, hsl⟩)
    · exact hsome hnone
    · omega
  have hcode := hrep.addLimitOrder_full (x := x) (by rw [hself]; exact hk)
    (by rw [hself]; exact hroom)
  simp only [BidAsk.addSideLimitOrder, hacq, Store.register_finite, hcode]

end

/-! ## Room on a side -/

theorem addLimitOrder_side (s : FiniteBidAsk) (o : Order) :
    BidAsk.addLimitOrder s o = BidAsk.addSideLimitOrder o.side s o := by
  unfold BidAsk.addLimitOrder BidAsk.addBuyLimitOrder BidAsk.addSellLimitOrder
  cases o.side <;> rfl

/-- **The capacities agree below `MeSkipListNodePoolSize - 2` levels**: if both shared pools have a
free entry and the side has fewer levels than that, then its skip list has a free node, its hash map
of `16 * MeFastMapSize` slots holds fewer prices than slots, and the order comes to rest. If it has
not, an order at a new price ends the process. -/
theorem run_capacities (assetId : UInt32) (initialPrice : Int64) (reportSeq bookSeq : UInt32)
    (bidSeed askSeed : UInt64) {msgs : List Order} {o : Order} {s : FiniteBidAsk}
    {outs : List BidAsk.Out} (hv : Valid (msgs ++ [o])) (ha : o.action = .execute)
    (hside : Along NamesSide BidAsk.step
      (BidAsk.new assetId initialPrice reportSeq bookSeq bidSeed askSeed) msgs)
    (hrun : BidAsk.run (BidAsk.new assetId initialPrice reportSeq bookSeq bidSeed askSeed) msgs =
      .ok (s, outs))
    (hnode : 0 < s.store.orderNodePool.freeSize) (hlevel : 0 < s.store.priceLevelPool.freeSize) :
    ((s.levels o.side).length + 2 < meSkipListNodePoolSize →
      0 < (s.book o.side).bestPricesMap.nodesPool.freeSize ∧
      (∀ p, ((s.book o.side).fastMap p).isSome ↔ p ∈ s.indexPrices o.side) ∧
      (s.indexPrices o.side).length < 16 * meFastMapSize ∧
      ∃ s', BidAsk.addLimitOrder s o = .ok s' ∧ o ∈ s'.restingOrders o.side) ∧
    (¬ (s.levels o.side).length + 2 < meSkipListNodePoolSize → o.price ∉ s.indexPrices o.side →
      BidAsk.addLimitOrder s o = .error .terminate) := by
  obtain ⟨L, b, hview, hk⟩ :=
    run_view (new_view assetId initialPrice reportSeq bookSeq bidSeed askSeed)
    (hv.restrict (List.prefix_append _ _)) hside hrun
  have hinner := inner_price hv (by simp) ha
  have hcount := hview.index_count o.side
  rw [addLimitOrder_side]
  refine ⟨fun hindex => ?_, fun hfull hnew => ?_⟩
  · have hroom := hview.room_of_levels hnode hlevel hindex o.price
    obtain ⟨s', L', hok, hview', -⟩ := hview.addSideLimitOrder hinner
      (hview.orderMap_none (hk.fresh hv ha)) hroom
    refine ⟨by
      rw [hview.levels, List.length_map] at hindex; omega, hview.sound.prices o.side, ?_, s',
        hok, ?_⟩
    · rw [hview.indexPrices, List.length_map]
      simp only [meSkipListNodePoolSize, meFastMapSize] at *
      omega
    · rw [hview'.restingOrders]
      show o ∈ Function.update b o.side (enqueue o.side o (b o.side)) o.side
      rw [Function.update_self]
      exact mem_enqueue.2 (.inl rfl)
  · rw [hview.levels, List.length_map] at hfull
    refine hview.addSideLimitOrder_full hinner (hk.fresh hv ha) hnode (fun r hr hp => hnew ?_)
      (by omega)
    exact hp ▸ hview.price_indexed hr

/-- A bid after the sample run. -/
theorem run_capacities_sample : ∃ s outs,
    BidAsk.run (BidAsk.new 1 100 0 0 3 5) sampleRun = .ok (s, outs) ∧
      ∃ s', BidAsk.addLimitOrder s ⟨98, 9, 0, 8, 1, 1, .limit, .buy, .execute⟩ = .ok s' ∧
        ⟨98, 9, 0, 8, 1, 1, .limit, .buy, .execute⟩ ∈ s'.restingOrders .buy := by
  obtain ⟨s, outs, hrun, hnode, hlevel, hindex⟩ := exists_of_succeeds
    (P := fun s _ => 0 < s.store.orderNodePool.freeSize ∧ 0 < s.store.priceLevelPool.freeSize ∧
      (s.levels .buy).length + 2 < meSkipListNodePoolSize)
    (r := BidAsk.run (BidAsk.new 1 100 0 0 3 5) sampleRun) (by decide +kernel)
  obtain ⟨-, -, -, hok⟩ := run_capacities 1 100 0 0 3 5
    (o := ⟨98, 9, 0, 8, 1, 1, .limit, .buy, .execute⟩) (by decide +kernel) rfl
      (by decide +kernel) hrun
    hnode hlevel |>.1 hindex
  exact ⟨s, outs, hrun, hok⟩

/-! ## A side whose skip list is full -/

section
variable {s : FiniteBidAsk} {L : Levels} {b : Book} {o : Order}

/-- A limit order that meets no opposite order rests, whatever the cached price says. -/
theorem processWith_rest (m : Bool) (ha : o.action = .execute) (ht : o.type = .limit)
    (h0 : 0 < o.amount) (hopp : b o.side.opp = []) : processWith m b o = rest b o := by
  have hself : Function.update b o.side.opp [] = b := by rw [← hopp, Function.update_eq_self]
  cases m with
  | false => simp only [processWith, ha, executeWith, Bool.false_eq_true, if_false]
  | true =>
    simp only [processWith, ha, executeWith, if_true, execute, hopp, sweep, hself, settle, h0, ht,
      List.nil_append]

/-- An order at a new price ends the process once the opposite side is empty and its own side has as
many prices as its skip list has nodes. -/
theorem View.execute_full (h : View s L b) (ha : Acceptable b o) (hact : o.action = .execute)
    (ht : o.type = .limit) (h0 : 0 < o.amount) (hopp : b o.side.opp = [])
    (hnd : ((b o.side).map Order.price).Nodup) (hnew : ∀ r ∈ b o.side, r.price ≠ o.price)
    (hfull : meSkipListNodePoolSize ≤ (b o.side).length + 2)
    (hnodes : (b o.side).length < meOrderNodePoolSize) :
    BidAsk.executeOrder s o = .error .terminate := by
  have hrests : ∀ {s₁ : FiniteBidAsk} {L₁ : Levels}, View s₁ L₁ b →
      BidAsk.addSideLimitOrder o.side s₁ o = .error .terminate := by
    intro s₁ L₁ h₁
    have hcount := h₁.nodes_count o.side
    rw [hopp, List.length_nil] at hcount
    have hlen := h₁.length_le_levels hnd
    exact h₁.addSideLimitOrder_full (ha.inner hact) (ha.fresh hact) (by omega) hnew (by omega)
  cases hm : s.isMarketable o with
  | false =>
    have hcode : BidAsk.executeOrder s o = BidAsk.addSideLimitOrder o.side s o := by
      simp only [BidAsk.executeOrder, BidAsk.executeOrderWith, hm, Bool.false_eq_true, if_false,
        BidAsk.addLimitOrder]
      cases o.side <;> rfl
    rw [hcode]
    exact hrests h
  | true =>
    have hcode : BidAsk.executeOrder s o = BidAsk.fillOrder BidAsk.isMarketable o.side s o := by
      simp only [BidAsk.executeOrder, BidAsk.executeOrderWith, hm, if_true,
        BidAsk.executeMarketableOrder]
      cases o.side <;> rfl
    -- the sweep finds nothing
    obtain ⟨s₁, L₁, hv₁, -, -, -, -, hfill⟩ := fillOrder_swept isMarketable_decides h
      (w := ⟨[], o, reserve o.side o.amount o.price, []⟩) (by rw [hopp]; rfl)
    rw [hcode, hfill, if_pos h0]
    simp only [ht]
    rw [← hopp, Function.update_eq_self] at hv₁
    exact hrests hv₁

end

/-! ## A ladder of bids -/

/-- A bid for 1 at the price `i + 1`. -/
def rung (i : Nat) : Order :=
  ⟨Int64.ofNat (i + 1), UInt64.ofNat (i + 1), 0, 7, 1, 1, .limit, .buy, .execute⟩

/-- Bids at the prices 1 to `n`. -/
def ladder (n : Nat) : List Order := (List.range n).map rung

theorem ladder_succ (n : Nat) : ladder (n + 1) = ladder n ++ [rung n] := by
  simp [ladder, List.range_succ]

theorem rung_price {i : Nat} (h : i < 2 ^ 31) : (rung i).price.toInt = i + 1 := by
  show (Int64.ofNat (i + 1)).toInt = _
  rw [Int64.toInt_ofNat_of_lt (by omega)]
  rfl

theorem rung_id32 {i : Nat} (h : i < 2 ^ 31) : (rung i).id32.toNat = i + 1 := by
  show (UInt64.ofNat (i + 1)).toUInt32.toNat = _
  rw [UInt64.toNat_toUInt32, UInt64.toNat_ofNat']
  omega

theorem mem_ladder {n : Nat} {o : Order} : o ∈ ladder n ↔ ∃ i < n, rung i = o := by
  simp [ladder]

theorem nodup_ladder {α : Type} {f : Order → α} {n : Nat}
    (hf : ∀ i < n, ∀ j < n, f (rung i) = f (rung j) → i = j) : ((ladder n).map f).Nodup := by
  rw [ladder, List.map_map]
  exact List.Nodup.map_on (fun i hi j hj he => hf i (List.mem_range.1 hi) j
    (List.mem_range.1 hj) he) List.nodup_range

theorem prices_nodup {n : Nat} (h : n < 2 ^ 31) : ((ladder n).map Order.price).Nodup :=
  nodup_ladder fun i hi j hj he => by
    have := congrArg Int64.toInt he
    rw [rung_price (by omega), rung_price (by omega)] at this
    omega

theorem ladder_valid {n : Nat} (h : n < 2 ^ 31) : Valid (ladder n) where
  price := by
    intro o ho _
    obtain ⟨i, hi, rfl⟩ := mem_ladder.1 ho
    have hp := rung_price (i := i) (by omega)
    constructor
    · rw [Int64.lt_iff_toInt_lt, hp, Int64.toInt_minValue]
      omega
    · rw [Int64.lt_iff_toInt_lt, hp, Int64.toInt_maxValue]
      omega
  ids := by
    have hall : executeIds (ladder n) = (ladder n).map Order.id32 := by
      rw [executeIds, List.filter_eq_self.2]
      intro o ho
      obtain ⟨i, -, rfl⟩ := mem_ladder.1 ho
      rfl
    rw [hall]
    refine nodup_ladder fun i hi j hj he => ?_
    have := congrArg UInt32.toNat he
    rw [rung_id32 (by omega), rung_id32 (by omega)] at this
    omega

theorem enqueue_perm (sd : OrderSide) (o : Order) : ∀ q : List Order, (enqueue sd o q).Perm (o :: q)
  | [] => List.Perm.refl _
  | r :: q => by
    rw [enqueue]
    split
    · exact List.Perm.refl _
    · exact ((enqueue_perm sd o q).cons r).trans (List.Perm.swap ..)

theorem ladder_acceptable {n : Nat} {b : Book} (hn : n < 2 ^ 30) (hsell : b .sell = [])
    (hbuy : (b .buy).Perm (ladder n)) : Acceptable b (rung n) where
  inner := inner_price (ladder_valid (n := n + 1) (by omega)) (by rw [ladder_succ]; simp)
  fresh := by
    intro _ sd r hr
    cases sd with
    | buy =>
      obtain ⟨i, hi, rfl⟩ := mem_ladder.1 (hbuy.mem_iff.1 hr)
      intro he
      have := congrArg UInt32.toNat he
      rw [rung_id32 (by omega), rung_id32 (by omega)] at this
      omega
    | sell => rw [hsell] at hr; cases hr
  rightSide := fun h => by cases h

/-- **The ladder is built** as long as the skip list has nodes: every bid rests at its own level. -/
theorem ladder_run : ∀ n, n + 2 ≤ meSkipListNodePoolSize →
    ∃ s outs L b, BidAsk.run (BidAsk.new 1 100 0 0 3 5) (ladder n) = .ok (s, outs) ∧ View s L b ∧
      b .sell = [] ∧ (b .buy).Perm (ladder n)
  | 0, _ => ⟨_, [], _, _, rfl, new_view 1 100 0 0 3 5, rfl, List.Perm.refl _⟩
  | n + 1, hn => by
    obtain ⟨s, outs, L, b, hrun, hview, hsell, hbuy⟩ := ladder_run n (by omega)
    simp only [meSkipListNodePoolSize] at hn
    have hlen : (b .buy).length = n := by
      rw [hbuy.length_eq, ladder, List.length_map, List.length_range]
    have hroom : s.HasRoom := hview.hasRoom_of_length (by
      rw [hlen, hsell, List.length_nil]
      simp only [meSkipListNodePoolSize]
      omega)
    rcases step_cases hview (ladder_acceptable (by omega) hsell hbuy) with
      ⟨hr, -⟩ | ⟨hr, -⟩ | ⟨s', L', hstep, hview', -⟩
    · exact absurd hroom hr
    · exact absurd hroom hr
    · have h0 : 0 < (rung n).amount := show (0 : UInt32) < 1 by decide
      rw [processWith_rest (s.isMarketable (rung n)) rfl rfl h0 hsell] at hview'
      rw [ladder_succ]
      refine ⟨s', _, L', _, run_snoc_ok hrun hstep, hview', hsell, ?_⟩
      exact (enqueue_perm ..).trans ((hbuy.cons _).trans (List.perm_append_singleton _ _).symm)

/-- **A full skip list ends the process although both shared pools have room**: with bids at 8190
prices two levels and 24578 nodes are free, and a bid at one more price terminates the engine. -/
theorem ladder_terminates : Valid (ladder 8191) ∧
    (∀ o ∈ ladder 8191, o.action = .execute ∧ o.type = .limit) ∧
    ∃ s outs, BidAsk.run (BidAsk.new 1 100 0 0 3 5) (ladder 8190) = .ok (s, outs) ∧
      s.store.orderNodePool.freeSize = 24578 ∧ s.store.priceLevelPool.freeSize = 2 ∧
      (rung 8190).price ∉ s.indexPrices .buy ∧
      BidAsk.addLimitOrder s (rung 8190) = .error .terminate ∧
      BidAsk.run (BidAsk.new 1 100 0 0 3 5) (ladder 8191) = .error .terminate := by
  refine ⟨ladder_valid (by decide), fun o ho => ?_, ?_⟩
  · obtain ⟨i, -, rfl⟩ := mem_ladder.1 ho
    exact ⟨rfl, rfl⟩
  obtain ⟨s, outs, L, b, hrun, hview, hsell, hbuy⟩ := ladder_run 8190 (by decide)
  have hlen : (b .buy).length = 8190 := by
    rw [hbuy.length_eq, ladder, List.length_map, List.length_range]
  have hnd : ((b .buy).map Order.price).Nodup :=
    (hbuy.map _).nodup_iff.2 (prices_nodup (by decide))
  have hnew : ∀ r ∈ b .buy, r.price ≠ (rung 8190).price := by
    intro r hr he
    obtain ⟨i, hi, rfl⟩ := mem_ladder.1 (hbuy.mem_iff.1 hr)
    have := congrArg Int64.toInt he
    rw [rung_price (by omega), rung_price (by decide)] at this
    omega
  have hacc : Acceptable b (rung 8190) := ladder_acceptable (by decide) hsell hbuy
  -- the counts: one level for each bid, none for asks
  have hnodes := hview.nodes_count .buy
  have hlevels := hview.levels_count .buy
  have hge := hview.length_le_levels hnd
  have hle := hview.length_levels_le .buy
  have hnone := hview.length_levels_le .sell
  simp only [OrderSide.opp, hsell, hlen, List.length_nil, meOrderNodePoolSize, mePriceLevelPoolSize]
    at hnodes hlevels hge hle hnone
  refine ⟨s, outs, hrun, by omega, by omega, fun hm => ?_, ?_, ?_⟩
  · rw [hview.indexPrices] at hm
    obtain ⟨l, hl, hp⟩ := List.mem_map.1 hm
    obtain ⟨r, hr, hrp⟩ := hview.order_at_level hl
    exact hnew r hr (hrp.trans hp)
  · exact hview.addSideLimitOrder_full (hacc.inner rfl) (hacc.fresh rfl) (by omega) hnew (by
      simp only [meSkipListNodePoolSize, show (rung 8190).side = .buy from rfl]
      omega)
  · have hlast := (hview.setFeed s.toFeed.cleared).execute_full hacc rfl rfl
      (show (0 : UInt32) < 1 by decide) hsell hnd hnew
      (by simp only [meSkipListNodePoolSize, show (rung 8190).side = .buy from rfl]; omega)
      (by simp only [meOrderNodePoolSize, show (rung 8190).side = .buy from rfl]; omega)
    have hstep : BidAsk.step s (rung 8190) = .error .terminate := by
      have hact : (rung 8190).action = .execute := rfl
      rw [Feed.cleared] at hlast
      simp only [BidAsk.step, process_execute hact, hlast]
    have hrun' : Run.run BidAsk.step (BidAsk.new 1 100 0 0 3 5) (ladder 8190) = .ok (s, outs) :=
      hrun
    rw [show ladder 8191 = ladder 8190 ++ [rung 8190] from ladder_succ 8190, BidAsk.run,
      Run.run_snoc, hrun']
    simp only [Except.bind, hstep, Except.map]

end Naoto.Engine
