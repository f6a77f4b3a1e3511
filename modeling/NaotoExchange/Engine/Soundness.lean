import NaotoExchange.Engine.Proof.Tables

/-!
# The memory of the book, and its best prices

`BidAsk.Sound` says that the five structures of the book agree: the order map, the two levels of
indexes of each side, the linked nodes and the free list. Cancel requests for the target's side and
orders whose keys find room at home keep it (`run_sound`), whatever happens to the pools. A cancel
request for the other side does not: the node is released while its level still links it
(`wrongSideCancel_unsound`).

`run_uncrossed` is about prices: the book is never crossed, the cached best prices bound the resting
ones, and this is enough for the engine's decisions to be those taken from the best level itself.
-/

namespace Naoto.Engine

open Reference Run

namespace BidAsk

section
variable {OM FM : Type}

/-- The nodes linked in the levels of a side. -/
def linked (s : BidAsk OM FM) (sd : OrderSide) : List Nat := (s.levels sd).flatMap s.nodesOf

variable [KeyMap OM UInt64 Nat] [KeyMap FM Int64 Nat]

/-- The structures of the book agree. -/
structure Sound (s : BidAsk OM FM) : Prop where
  ids : ∀ k, (KeyMap.getVal s.store.orderMap k).isSome ↔
    ∃ sd, ∃ n ∈ s.linked sd, (s.store.node n).getId.toUInt64 = k
  place : ∀ sd, ∀ lv ∈ s.levels sd, ∀ n ∈ s.nodesOf lv,
    (s.store.node n).order.side = sd ∧ (s.store.node n).order.price = (s.store.level lv).price
  prices : ∀ sd p, (KeyMap.getVal (s.book sd).fastMap p).isSome ↔ p ∈ s.indexPrices sd
  nonempty : ∀ sd, ∀ lv ∈ s.levels sd, s.nodesOf lv ≠ []
  notFree : ∀ sd, ∀ n ∈ s.linked sd, n ∉ s.store.orderNodePool.freeList

end

theorem linked_finite (s : FlatBidAsk) (sd : OrderSide) : s.finite.linked sd = s.linked sd := by
  unfold linked
  rw [levels_finite]
  exact List.flatMap_congr fun lv _ => nodesOf_finite s lv

/-- What is sound over the maps that the tables answer from is sound over the tables. -/
theorem Sound.of_finite {s : FlatBidAsk} (h : s.finite.Sound) : s.Sound where
  ids := by
    intro k
    simp only [← linked_finite]
    exact h.ids k
  place := by
    intro sd lv hlv n hn
    rw [← levels_finite] at hlv
    rw [← nodesOf_finite] at hn
    exact h.place sd lv hlv n hn
  prices := by
    intro sd p
    have hp := h.prices sd p
    rwa [book_finite, indexPrices_finite] at hp
  nonempty := by
    intro sd lv hlv
    rw [← levels_finite] at hlv
    rw [← nodesOf_finite]
    exact h.nonempty sd lv hlv
  notFree := by
    intro sd n hn
    rw [← linked_finite] at hn
    exact h.notFree sd n hn

end BidAsk

section
variable {s : FiniteBidAsk} {L : Levels} {b : Book}

theorem View.linked (h : View s L b) (sd : OrderSide) : s.linked sd = L.queue sd := by
  unfold BidAsk.linked Levels.queue
  rw [h.levels sd, List.flatMap_map]
  exact List.flatMap_congr fun l hl => h.nodesOf hl

theorem View.sound (h : View s L b) : s.Sound where
  ids := by
    intro k
    rw [Option.isSome_iff_exists]
    constructor
    · rintro ⟨n, hn⟩
      obtain ⟨hm, hid⟩ := (h.rep.ids k n).1 hn
      obtain ⟨sd, hq⟩ := Levels.mem_nodes.1 hm
      exact ⟨sd, n, by rw [h.linked sd]; exact hq, hid⟩
    · rintro ⟨sd, n, hn, hid⟩
      rw [h.linked sd] at hn
      exact ⟨n, (h.rep.ids k n).2 ⟨Levels.mem_nodes.2 ⟨sd, hn⟩, hid⟩⟩
  place := by
    intro sd lv hlv n hn
    rw [h.levels sd] at hlv
    obtain ⟨l, hl, rfl⟩ := List.mem_map.1 hlv
    rw [h.nodesOf hl] at hn
    rw [(h.rep.level sd l hl).price]
    exact (h.rep.level sd l hl).orders n hn
  prices := by
    intro sd p
    rw [Option.isSome_iff_exists, h.indexPrices sd, List.mem_map]
    constructor
    · rintro ⟨x, hx⟩
      obtain ⟨l, hl, hp, -⟩ := (h.rep.fast sd p x).1 hx
      exact ⟨l, hl, hp⟩
    · rintro ⟨l, hl, hp⟩
      exact ⟨l.ptr, (h.rep.fast sd p l.ptr).2 ⟨l, hl, hp, rfl⟩⟩
  nonempty := by
    intro sd lv hlv
    rw [h.levels sd] at hlv
    obtain ⟨l, hl, rfl⟩ := List.mem_map.1 hlv
    rw [h.nodesOf hl]
    exact h.full sd l hl
  notFree := by
    intro sd n hn
    rw [h.linked sd] at hn
    exact h.rep.nodePool.not_free (Levels.mem_nodes.2 ⟨sd, hn⟩)

theorem View.bestPrices (h : View s L b) :
    (∀ r ∈ b .sell, s.bestAskPrice ≤ r.price) ∧ ∀ r ∈ b .buy, r.price ≤ s.bestBidPrice := by
  constructor
  · intro r hr
    have := h.best .sell r hr
    simpa only [compareOf, Compare.comp, BidAsk.bestPrice, decide_eq_false_iff_not, not_lt]
      using this
  · intro r hr
    have := h.best .buy r hr
    simpa only [compareOf, Compare.comp, BidAsk.bestPrice, decide_eq_false_iff_not, not_lt]
      using this

/-- Two decisions that never turn down a crossing order give the same book and the same streams. -/
theorem executeOrderWith_eq {mk mk' : FiniteBidAsk → Order → Bool} (hmk : Decides mk)
    (hmk' : Decides mk') {o : Order} (h : View s L b) (hk : (compareOf o.side).Inner o.price)
    (hf : Fresh b o.id32) (hroom : s.HasRoom) (h0 : 0 < o.amount) :
    ∃ s₁ s₂, BidAsk.executeOrderWith mk s o = .ok s₁ ∧ BidAsk.executeOrderWith mk' s o = .ok s₂ ∧
      s₁.restingOrders = s₂.restingOrders ∧ s₁.toFeed = s₂.toFeed := by
  obtain ⟨s₁, L₁, he₁, hv₁, hf₁⟩ := execute_refines hmk h hk hf hroom
  obtain ⟨s₂, L₂, he₂, hv₂, hf₂⟩ := execute_refines hmk' h hk hf hroom
  rw [executeWith_eq hmk h h0] at hv₁ hf₁
  rw [executeWith_eq hmk' h h0] at hv₂ hf₂
  exact ⟨s₁, s₂, he₁, he₂, by rw [hv₁.restingOrders, hv₂.restingOrders], by rw [hf₁, hf₂]⟩

end

/-! ## Results -/

section
variable (assetId : UInt32) (initialPrice : Int64) (reportSeq bookSeq : UInt32)
  (bidSeed askSeed : UInt64) {msgs : List Order}

/-- **The book stays sound** as long as each cancel request that names a resting order of its sender
carries that order's side and each limit order finds room at home in the hash maps: every state a
run reaches is sound, and a run that stops before its end was terminated for want of memory. -/
theorem run_sound (hv : Valid msgs)
    (hside : Along NamesSide BidAsk.step
      (BidAsk.newFlat assetId initialPrice reportSeq bookSeq bidSeed askSeed) msgs)
    (hhome : Along RoomAtHome BidAsk.step
      (BidAsk.newFlat assetId initialPrice reportSeq bookSeq bidSeed askSeed) msgs) :
    ∀ xs, xs <+: msgs →
      (∀ s outs,
        BidAsk.run (BidAsk.newFlat assetId initialPrice reportSeq bookSeq bidSeed askSeed) xs =
          .ok (s, outs) → s.Sound) ∧
      ∀ e, BidAsk.run (BidAsk.newFlat assetId initialPrice reportSeq bookSeq bidSeed askSeed) xs =
        .error e → e = .terminate := by
  intro xs hp
  have hv' := hv.restrict hp
  have hside' := hside.restrict hp
  have hhome' := hhome.restrict hp
  refine ⟨fun s outs hrun => ?_, fun e hrun => ?_⟩
  · obtain ⟨-, hm⟩ :=
      run_finite assetId initialPrice reportSeq bookSeq bidSeed askSeed hv' hside' hhome' hrun
    obtain ⟨L, b, hview, -⟩ := hm.view
    exact .of_finite hview.sound
  · exact run_fault (new_view assetId initialPrice reportSeq bookSeq bidSeed askSeed) hv'
      (namesSide_finite assetId initialPrice reportSeq bookSeq bidSeed askSeed hv' hside' hhome')
      (run_error_finite assetId initialPrice reportSeq bookSeq bidSeed askSeed hv' hside'
        hhome' hrun)

end

theorem run_sound_sample : ∃ s outs,
    BidAsk.run (BidAsk.newFlat 1 100 0 0 3 5) sampleRun = .ok (s, outs) ∧ s.Sound := by
  have hv : Valid sampleRun := by decide +kernel
  have h := run_sound 1 100 0 0 3 5 hv (by decide +kernel) (by decide +kernel) sampleRun
    (List.prefix_refl _)
  have hok : (BidAsk.run (BidAsk.newFlat 1 100 0 0 3 5) sampleRun).isOk = true := by decide +kernel
  cases hrun : BidAsk.run (BidAsk.newFlat 1 100 0 0 3 5) sampleRun with
  | error e => rw [hrun] at hok; cases hok
  | ok p => exact ⟨p.1, p.2, rfl, h.1 p.1 p.2 hrun⟩

/-- An ask, and its owner's request to cancel it that names the bid side. -/
def wrongSideCancel : List Order :=
  [⟨100, 1, 0, 7, 5, 1, .limit, .sell, .execute⟩, ⟨0, 2, 0, 7, 1, 1, .limit, .buy, .cancel⟩]

/-- Asks at 18 prices, of which all but the first have one home bucket. -/
def crowdedAsks : List Order :=
  (21309 :: (List.range 17).map fun i => Int64.ofNat (1024 * (17 - i))).zipIdx.map fun p =>
    ⟨p.1, UInt64.ofNat (p.2 + 1), 0, 7, 5, 1, .limit, .sell, .execute⟩

/-- After a cancel request for the wrong side the ask is still linked, but the order map has
forgotten it and its node is the next one the pool hands out. After 18 asks whose prices crowd one
bucket the best of them is in the skip list, but the hash map does not find it. -/
theorem wrongSideCancel_unsound : Valid wrongSideCancel ∧ Valid crowdedAsks ∧
    (∀ o ∈ wrongSideCancel ++ crowdedAsks, 0 < o.amount) ∧
    (∃ s outs n, BidAsk.run (BidAsk.newFlat 1 100 0 0 3 5) wrongSideCancel = .ok (s, outs) ∧
      s.linked .sell = [n] ∧ KeyMap.getVal s.store.orderMap (s.store.node n).getId.toUInt64 = none ∧
      s.store.orderNodePool.acquire.1 = some n ∧ ¬ s.Sound) ∧
    ∃ s outs, BidAsk.run (BidAsk.newFlat 1 100 0 0 3 5) crowdedAsks = .ok (s, outs) ∧
      1024 ∈ s.indexPrices .sell ∧ KeyMap.getVal s.ask.fastMap 1024 = none ∧ ¬ s.Sound := by
  refine ⟨by decide +kernel, by decide +kernel, by decide +kernel, ?_, ?_⟩
  · obtain ⟨s, outs, hrun, hl, hm, ha⟩ := exists_of_succeeds
      (P := fun s _ => s.linked .sell = [32767] ∧
        KeyMap.getVal s.store.orderMap (s.store.node 32767).getId.toUInt64 = none ∧
        s.store.orderNodePool.acquire.1 = some 32767)
      (r := BidAsk.run (BidAsk.newFlat 1 100 0 0 3 5) wrongSideCancel) (by decide +kernel)
    refine ⟨s, outs, 32767, hrun, hl, hm, ha, fun hs => ?_⟩
    have := (hs.ids _).2 ⟨.sell, 32767, by rw [hl]; simp, rfl⟩
    rw [hm] at this
    cases this
  · obtain ⟨s, outs, hrun, hp, hm⟩ := exists_of_succeeds
      (P := fun s _ => 1024 ∈ s.indexPrices .sell ∧ KeyMap.getVal s.ask.fastMap 1024 = none)
      (r := BidAsk.run (BidAsk.newFlat 1 100 0 0 3 5) crowdedAsks) (by decide +kernel)
    refine ⟨s, outs, hrun, hp, hm, fun hs => ?_⟩
    have := (hs.prices .sell 1024).2 hp
    rw [show (s.book .sell).fastMap = s.ask.fastMap from rfl, hm] at this
    cases this

section
variable (assetId : UInt32) (initialPrice : Int64) (reportSeq bookSeq : UInt32)
  (bidSeed askSeed : UInt64) {msgs : List Order}

/-- **The book is never crossed and the cached best prices are safe**: no bid reaches an ask, the
caches bound the resting prices, and the next order has the same outcome whether it is judged by
the caches or by the best level of the other side. -/
theorem run_uncrossed (hv : Valid msgs)
    (hside : Along NamesSide BidAsk.step
      (BidAsk.new assetId initialPrice reportSeq bookSeq bidSeed askSeed) msgs)
    (hfree : Along PoolsFree BidAsk.step
      (BidAsk.new assetId initialPrice reportSeq bookSeq bidSeed askSeed) msgs) :
    ∃ s outs, BidAsk.run (BidAsk.new assetId initialPrice reportSeq bookSeq bidSeed askSeed) msgs =
        .ok (s, outs) ∧
      (∀ x ∈ s.restingOrders .buy, ∀ y ∈ s.restingOrders .sell, x.price < y.price) ∧
      (∀ y ∈ s.restingOrders .sell, s.bestAskPrice ≤ y.price) ∧
      (∀ x ∈ s.restingOrders .buy, x.price ≤ s.bestBidPrice) ∧
      ∀ o, o.action = .execute → 0 < o.amount → Valid (msgs ++ [o]) → s.HasRoom →
        ∃ s₁ s₂, BidAsk.executeOrder s o = .ok s₁ ∧
          BidAsk.executeOrderWith BidAsk.isMarketableExact s o = .ok s₂ ∧
          s₁.restingOrders = s₂.restingOrders ∧ s₁.toFeed = s₂.toFeed := by
  obtain ⟨s, outs, L, b, hrun, hview, hk, hu, -⟩ := run_refines
    (Q := fun _ _ _ => True)
    (new_view assetId initialPrice reportSeq bookSeq bidSeed askSeed) hv hside hfree trivial
    (fun _ _ _ _ _ _ _ _ _ _ => trivial)
  obtain ⟨hask, hbid⟩ := hview.bestPrices
  refine ⟨s, outs, hrun, ?_⟩
  rw [hview.restingOrders]
  refine ⟨fun x hx y hy => ?_, hask, hbid, fun o ha h0 hvo hroom => ?_⟩
  · have := hu .buy x hx y hy
    simpa only [crosses, decide_eq_false_iff_not, not_le] using this
  · exact executeOrderWith_eq isMarketable_decides isMarketableExact_decides hview
      (inner_price hvo (by simp) ha) (hk.fresh hvo ha) hroom h0

end

/-- After the sample run, for a bid that takes nothing. -/
theorem run_uncrossed_sample : ∃ s outs,
    BidAsk.run (BidAsk.new 1 100 0 0 3 5) sampleRun = .ok (s, outs) ∧
    ∃ s₁ s₂, BidAsk.executeOrder s ⟨98, 9, 0, 8, 1, 1, .limit, .buy, .execute⟩ = .ok s₁ ∧
      BidAsk.executeOrderWith BidAsk.isMarketableExact s
        ⟨98, 9, 0, 8, 1, 1, .limit, .buy, .execute⟩ = .ok s₂ ∧
      s₁.restingOrders = s₂.restingOrders ∧ s₁.toFeed = s₂.toFeed := by
  have hv : Valid sampleRun := by decide +kernel
  obtain ⟨s, outs, hrun, -, -, -, h⟩ :=
    run_uncrossed 1 100 0 0 3 5 hv (by decide +kernel) (by decide +kernel)
  have hroom : s.HasRoom := holds_of_succeeds (P := fun s _ => s.HasRoom) hrun (by decide +kernel)
  exact ⟨s, outs, hrun, h _ rfl (by decide) (by decide +kernel) hroom⟩

end Naoto.Engine
