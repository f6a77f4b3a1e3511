import NaotoExchange.Engine.Proof.Sweep

/-!
# Processing an order

`executeOrder` against the reference's `execute`. A pool can be exhausted when the remainder of a
limit order is to rest: without a node the order is dropped silently, without a level the process
is terminated. `execute_cases` lists the outcomes; with a free entry in every pool
(`BidAsk.HasRoom`) only the reference's remains (`execute_refines`).
-/

namespace Naoto.Engine

open Reference

/-- Every pool of the engine has a free entry. -/
def BidAsk.HasRoom {OM FM : Type} (s : BidAsk OM FM) : Prop :=
  0 < s.store.orderNodePool.freeSize ∧ 0 < s.store.priceLevelPool.freeSize ∧
    ∀ sd, 0 < (s.book sd).bestPricesMap.nodesPool.freeSize

instance {OM FM : Type} (s : BidAsk OM FM) : Decidable s.HasRoom := by
  unfold BidAsk.HasRoom
  infer_instance

/-- No resting order has the id. -/
def Fresh (b : Book) (id : UInt32) : Prop := ∀ sd, ∀ r ∈ b sd, r.id32 ≠ id

/-- No resting order crosses one of the other side. -/
def Uncrossed (b : Book) : Prop :=
  ∀ sd, ∀ o ∈ b sd, ∀ r ∈ b sd.opp, crosses sd r.price o.price = false

/-! ## What a view says about the pools and the ids -/

namespace View

variable {s s' : FiniteBidAsk} {L L' : Levels} {b b' : Book} {sd : OrderSide} {o r : Order}

theorem setFeed (h : View s L b) (f : Feed) : View (s.setFeed f) L b :=
  ⟨by simpa using h.rep, h.full, by simpa using h.queue, by simpa using h.best⟩

theorem queue_length (h : View s L b) (sd : OrderSide) :
    (b sd).length = (L.queue sd).length := by
  rw [h.queue sd]
  exact List.length_map _

theorem nodes_count (h : View s L b) (sd : OrderSide) :
    s.store.orderNodePool.freeSize + ((b sd).length + (b sd.opp).length) = meOrderNodePoolSize := by
  have h1 := h.rep.nodePool.length
  have h2 := (L.nodes_perm sd).length_eq
  rw [List.nil_append] at h1
  rw [List.length_append] at h2
  rw [h.queue_length, h.queue_length]
  omega

theorem levels_count (h : View s L b) (sd : OrderSide) :
    s.store.priceLevelPool.freeSize + ((L sd).length + (L sd.opp).length) =
      mePriceLevelPoolSize := by
  have h1 := h.rep.levelPool.length
  have h2 := (L.ptrs_perm sd).length_eq
  rw [List.length_append, List.length_map, List.length_map] at h2
  omega

theorem index_count (h : View s L b) (sd : OrderSide) :
    (s.book sd).bestPricesMap.nodesPool.freeSize + (L sd).length + 2 = meSkipListNodePoolSize := by
  have h1 := (h.rep.index sd).length
  rwa [List.length_map] at h1

/-- Fewer orders and fewer levels leave at least as much room. -/
theorem hasRoom_mono (h : View s L b) (h' : View s' L' b') (hroom : s.HasRoom)
    (hb : ∀ sd, (b' sd).length ≤ (b sd).length) (hL : ∀ sd, (L' sd).length ≤ (L sd).length) :
    s'.HasRoom := by
  obtain ⟨r1, r2, r3⟩ := hroom
  refine ⟨?_, ?_, fun sd => ?_⟩
  · have e := h.nodes_count .buy
    have e' := h'.nodes_count .buy
    have g1 := hb .buy
    have g2 := hb OrderSide.buy.opp
    omega
  · have e := h.levels_count .buy
    have e' := h'.levels_count .buy
    have g1 := hL .buy
    have g2 := hL OrderSide.buy.opp
    omega
  · have e := h.index_count sd
    have e' := h'.index_count sd
    have g1 := hL sd
    have g2 := r3 sd
    omega

theorem exists_node (h : View s L b) (hr : r ∈ b sd) :
    ∃ n ∈ L.queue sd, (s.store.node n).order = r := by
  rw [h.queue sd] at hr
  obtain ⟨n, hn, rfl⟩ := List.mem_map.1 hr
  exact ⟨n, hn, rfl⟩

theorem order_mem (h : View s L b) {n : Nat} (hn : n ∈ L.queue sd) :
    (s.store.node n).order ∈ b sd := by
  rw [h.queue sd]
  exact List.mem_map_of_mem hn

theorem mapped_node (h : View s L b) {id : UInt32} {x : Nat}
    (hx : s.store.orderMap id.toUInt64 = some x) :
    ∃ sd, x ∈ L.queue sd ∧ (s.store.node x).order.id32 = id := by
  obtain ⟨hm, hid⟩ := (h.rep.ids _ _).1 hx
  obtain ⟨sd, hn⟩ := Levels.mem_nodes.1 hm
  have := congrArg UInt64.toUInt32 hid
  rw [UInt32.toUInt32_toUInt64, UInt32.toUInt32_toUInt64] at this
  exact ⟨sd, hn, this⟩

theorem orderMap_none (h : View s L b) {id : UInt32} (hf : Fresh b id) :
    s.store.orderMap id.toUInt64 = none := by
  rw [Option.eq_none_iff_forall_ne_some]
  intro x hx
  obtain ⟨sd, hn, hid⟩ := h.mapped_node hx
  exact hf sd _ (h.order_mem hn) hid

end View

/-! ## The reference -/

/-- The orders a sweep leaves are orders of the queue, with their amounts possibly lowered. -/
theorem sweep_mem {sd : OrderSide} : ∀ {q : List Order} {o : Order} {locked : Int64} {r' : Order},
    r' ∈ (sweep sd q o locked).queue → ∃ r ∈ q, r' = { r with amount := r'.amount }
  | [], _, _, _, h => by simp [sweep] at h
  | r :: q, o, locked, r', h => by
    rw [sweep] at h
    split at h
    · simp only at h
      split at h
      · obtain ⟨r₁, hr₁, he⟩ := sweep_mem h
        exact ⟨r₁, List.mem_cons_of_mem _ hr₁, he⟩
      · rcases List.mem_cons.1 h with rfl | h
        · exact ⟨r, by simp, rfl⟩
        · exact ⟨r', List.mem_cons_of_mem _ h, rfl⟩
    · exact ⟨r', h, rfl⟩

theorem sweep_length (sd : OrderSide) : ∀ (q : List Order) (o : Order) (locked : Int64),
    (sweep sd q o locked).queue.length ≤ q.length
  | [], _, _ => Nat.le_refl _
  | r :: q, o, locked => by
    rw [sweep]
    split
    · simp only
      split
      · have := sweep_length sd q (less o (traded o r)) (locked + soldLeg sd (traded o r) r.price)
        simp only [List.length_cons]
        omega
      · simp
    · simp

/-- `executeOrder`'s outcome in the reference's terms: an order found not marketable rests at
once. Only for an order without amount does this differ from `execute`. -/
def Reference.executeWith (marketable : Bool) (b : Book) (o : Order) : Book × List Event :=
  if marketable then execute b o else rest b o

theorem executeWith_eq {mk : FiniteBidAsk → Order → Bool} (hmk : Decides mk) {s : FiniteBidAsk}
    {L : Levels} {b : Book} {o : Order} (h : View s L b) (h0 : 0 < o.amount) :
    executeWith (mk s o) b o = execute b o := by
  cases hm : mk s o with
  | true => rfl
  | false =>
    have hlim : o.type = .limit := by
      cases ht : o.type with
      | limit => rfl
      | market => rw [hmk.market ht] at hm; cases hm
    have hstop : ∀ r q', b o.side.opp = r :: q' → crosses o.side r.price o.price = false := by
      intro r q' hq
      cases hc : crosses o.side r.price o.price with
      | false => rfl
      | true => rw [hmk.crossing h hq hc] at hm; cases hm
    simp only [executeWith, execute, sweep_stop hstop, Function.update_eq_self, settle, h0, if_true,
      hlim, List.nil_append, Bool.false_eq_true, if_false]

section
variable {mk : FiniteBidAsk → Order → Bool} {s : FiniteBidAsk} {L : Levels} {b : Book} {o : Order}

theorem addSideLimitOrder_cases (h : View s L b) (hk : (compareOf o.side).Inner o.price)
    (hf : Fresh b o.id32) :
    (¬ s.HasRoom ∧ BidAsk.addSideLimitOrder o.side s o = .error .terminate) ∨
    (¬ s.HasRoom ∧ BidAsk.addSideLimitOrder o.side s o = .ok s) ∨
    ∃ s' L', BidAsk.addSideLimitOrder o.side s o = .ok s' ∧ View s' L' (rest b o).1 ∧
      s'.toFeed = (rest b o).2.foldl Feed.emit s.toFeed := by
  have hid := h.orderMap_none hf
  rcases Nat.eq_zero_or_pos s.store.orderNodePool.freeSize with hz | hpos
  · refine .inr (.inl ⟨fun hr => ?_, ?_⟩)
    · have := hr.1
      omega
    · simp only [BidAsk.addSideLimitOrder, SingleThreadedStoragePool.acquire_none hz]
  by_cases hlr : Rep.LevelRoom s.book s.store o.side o.price
  · exact .inr (.inr (h.addSideLimitOrder hk hid ⟨hpos, hlr⟩))
  · refine .inl ⟨fun hr => hlr (.inr ⟨hr.2.1, hr.2.2 o.side⟩), ?_⟩
    obtain ⟨x, pool, hacq, hrep, hself, -, -⟩ := h.rep.hold hpos hid
    have hfull := hrep.addLimitOrder_full (x := x) (by rw [hself]; exact hk)
      (by rw [hself]; exact hlr)
    simp only [BidAsk.addSideLimitOrder, hacq, Store.register_finite, hfull]

theorem levels_fuel (h : View s L b) (sd : OrderSide) :
    (L sd.opp).length + 1 ≤ mePriceLevelPoolSize + 2 := by
  have := h.levels_count sd
  omega

/-- **The rule for the loops of `FillBuyOrder` and `FillSellOrder`**, as they are called. -/
theorem fillLevels_rule (hmk : Decides mk) (h : View s L b)
    {I : FiniteBidAsk → Levels → Book → Order → Int64 → List Iteration → Prop}
    (hI : SweepInvariant o.side I) (hstart : I s L b o (reserve o.side o.amount o.price) []) :
    ∃ s' L' q' o' k' visits,
      BidAsk.fillLevels mk o.side (mePriceLevelPoolSize + 2) s o (reserve o.side o.amount o.price) =
        .ok (s', o', k') ∧
      BidAsk.fillLevelsLog mk o.side (mePriceLevelPoolSize + 2) s o
        (reserve o.side o.amount o.price) = .ok ((s', o', k'), visits) ∧
      SideSwept I o.side b o [] visits s' L' q' o' k' := by
  obtain ⟨s', L', q', o', k', visits, hlog, hswept⟩ := fillLevelsLog_rule hmk hI
    (mePriceLevelPoolSize + 2) (reserve o.side o.amount o.price)
      [] h rfl (levels_fuel h o.side) hstart
  exact ⟨s', L', q', o', k', visits, by rw [fillLevels_eq_log, hlog]; rfl, hlog, hswept⟩

/-- **The loops of `FillBuyOrder` and `FillSellOrder`** are a sweep. -/
theorem fillLevels_swept (hmk : Decides mk) (h : View s L b) {w : Swept}
    (hw : w = sweep o.side (b o.side.opp) o (reserve o.side o.amount o.price)) :
    ∃ s₁ L₁, BidAsk.fillLevels mk o.side (mePriceLevelPoolSize + 2) s o
        (reserve o.side o.amount o.price) = .ok (s₁, w.order, w.locked) ∧
      View s₁ L₁ (Function.update b o.side.opp w.queue) ∧
      s₁.toFeed = w.events.foldl Feed.emit s.toFeed ∧ (s.HasRoom → s₁.HasRoom) ∧
      w.order = { o with amount := w.order.amount } ∧
      Finished o.side w.queue w.order w.locked := by
  obtain ⟨s₁, L₁, q₁, o₁, k₁, he, hp, hfin⟩ := fillLevels_sweep hmk (mePriceLevelPoolSize + 2)
    (reserve o.side o.amount o.price) h rfl (levels_fuel h o.side)
  obtain ⟨es, hf, hes⟩ := hp.emits
  have hfin' := hfin
  unfold Finished at hfin'
  rw [← hw, hfin'] at hes
  have hwe : w = ⟨q₁, o₁, k₁, es⟩ := by
    rw [hes]
    simp [Swept.prepend]
  subst hwe
  refine ⟨s₁, L₁, he, hp.view, hf, fun hr => ?_, hp.order, hfin⟩
  refine h.hasRoom_mono hp.view hr (fun sd => ?_) (fun sd => ?_)
  · rcases OrderSide.eq_or_eq_opp o.side sd with rfl | rfl
    · rw [Function.update_of_ne (OrderSide.ne_opp _)]
    · have := sweep_length o.side (b o.side.opp) o (reserve o.side o.amount o.price)
      rw [← hw] at this
      rwa [Function.update_self]
  · rcases OrderSide.eq_or_eq_opp o.side sd with rfl | rfl
    · rw [hp.own]
    · exact hp.levels

theorem fillOrder_swept (hmk : Decides mk) (h : View s L b) {w : Swept}
    (hw : w = sweep o.side (b o.side.opp) o (reserve o.side o.amount o.price)) :
    ∃ s₁ L₁, View s₁ L₁ (Function.update b o.side.opp w.queue) ∧
      s₁.toFeed = w.events.foldl Feed.emit s.toFeed ∧ (s.HasRoom → s₁.HasRoom) ∧
      w.order = { o with amount := w.order.amount } ∧
      Finished o.side w.queue w.order w.locked ∧
      BidAsk.fillOrder mk o.side s o =
        if 0 < w.order.amount then
          match w.order.type with
          | .limit => BidAsk.addSideLimitOrder o.side s₁ w.order
          | .market => .ok (s₁.setFeed (s₁.toFeed.pushAttempt o.side (-w.locked) w.order .cancel))
        else .ok s₁ := by
  obtain ⟨s₁, L₁, he, hview, hf, hroom, horder, hfin⟩ := fillLevels_swept hmk h hw
  refine ⟨s₁, L₁, hview, hf, hroom, horder, hfin, ?_⟩
  cases htype : w.order.type with
  | limit => simp only [BidAsk.fillOrder, he, htype]
  | market => simp only [BidAsk.fillOrder, he, htype]

/-- The two sides of `executeOrder` are instances of one. -/
theorem executeOrderWith_side {OM FM : Type} [KeyMap OM UInt64 Nat] [KeyMap FM Int64 Nat]
    (mk : BidAsk OM FM → Order → Bool) (s : BidAsk OM FM) (o : Order) :
    BidAsk.executeOrderWith mk s o =
      if mk s o = true then BidAsk.fillOrder mk o.side s o else
        BidAsk.addSideLimitOrder o.side s o := by
  unfold BidAsk.executeOrderWith BidAsk.executeMarketableOrder BidAsk.addLimitOrder
    BidAsk.addBuyLimitOrder BidAsk.addSellLimitOrder
  cases o.side <;> rfl

/-- Every order of `b'` is one of `b`, with its amount possibly lowered. -/
def Within (b' b : Book) : Prop :=
  ∀ sd, ∀ r' ∈ b' sd, ∃ r ∈ b sd, r' = { r with amount := r'.amount }

theorem Within.refl (b : Book) : Within b b := fun _ r hr => ⟨r, hr, rfl⟩

theorem within_sweep (b : Book) (sd : OrderSide) (o : Order) (locked : Int64) :
    Within (Function.update b sd.opp (sweep sd (b sd.opp) o locked).queue) b := by
  intro sd' r' hr'
  rcases OrderSide.eq_or_eq_opp sd sd' with rfl | rfl
  · rw [Function.update_of_ne (OrderSide.ne_opp _)] at hr'
    exact ⟨r', hr', rfl⟩
  · rw [Function.update_self] at hr'
    exact sweep_mem hr'

theorem Within.fresh {b' : Book} {id : UInt32} (h : Within b' b) (hf : Fresh b id) :
    Fresh b' id := by
  intro sd r' hr'
  obtain ⟨r, hr, he⟩ := h sd r' hr'
  have := hf sd r hr
  rw [he]
  exact this

/-- The outcome when the remainder of an order finds no node: it is dropped without a word. -/
def Reference.dropWith (marketable : Bool) (b : Book) (o : Order) : Book × List Event :=
  if marketable then
    let w := sweep o.side (b o.side.opp) o (reserve o.side o.amount o.price)
    (Function.update b o.side.opp w.queue, w.events)
  else (b, [])

theorem within_dropWith (m : Bool) (b : Book) (o : Order) : Within (dropWith m b o).1 b := by
  cases m with
  | true => exact within_sweep b o.side o _
  | false => exact .refl b

/-- The outcome of the reference for a marketable order, around the sweep that it starts with. -/
theorem executeWith_swept {w : Swept}
    (hw : w = sweep o.side (b o.side.opp) o (reserve o.side o.amount o.price)) :
    executeWith true b o = ((settle (Function.update b o.side.opp w.queue) w).1,
      w.events ++ (settle (Function.update b o.side.opp w.queue) w).2) := by
  simp only [executeWith, execute, ← hw, if_true]

/-- **A market order** needs no memory. -/
theorem execute_market (hmk : Decides mk) (h : View s L b) (ht : o.type = .market) :
    ∃ s' L', BidAsk.executeOrderWith mk s o = .ok s' ∧ View s' L' (executeWith true b o).1 ∧
      s'.toFeed = (executeWith true b o).2.foldl Feed.emit s.toFeed := by
  obtain ⟨w, hw⟩ : ∃ w, w = sweep o.side (b o.side.opp) o (reserve o.side o.amount o.price) :=
    ⟨_, rfl⟩
  obtain ⟨s₁, L₁, hv₁, hf₁, -, hord, -, hcode⟩ := fillOrder_swept hmk h hw
  have hws : w.order.side = o.side := by rw [hord, Order.side_withAmount]
  have hwt : w.order.type = .market := by rw [hord]; exact ht
  rw [executeOrderWith_side, hmk.market ht, if_pos rfl, hcode, executeWith_swept hw,
    List.foldl_append, ← hf₁]
  unfold settle
  by_cases h0 : 0 < w.order.amount
  · rw [if_pos h0, if_pos h0, hwt]
    refine ⟨_, L₁, rfl, hv₁.setFeed _, ?_⟩
    rw [BidAsk.toFeed_setFeed, ← hws]
    rfl
  · rw [if_neg h0, if_neg h0]
    exact ⟨s₁, L₁, rfl, hv₁, rfl⟩

/-- **`executeOrder`**: the process is terminated, or the remainder is dropped, for want of room;
or the outcome is the reference's. -/
theorem execute_cases (hmk : Decides mk) (h : View s L b) (hk : (compareOf o.side).Inner o.price)
    (hf : Fresh b o.id32) :
    (¬ s.HasRoom ∧ BidAsk.executeOrderWith mk s o = .error .terminate) ∨
    (¬ s.HasRoom ∧ ∃ s' L', BidAsk.executeOrderWith mk s o = .ok s' ∧
      View s' L' (dropWith (mk s o) b o).1 ∧
      s'.toFeed = (dropWith (mk s o) b o).2.foldl Feed.emit s.toFeed) ∨
    ∃ s' L', BidAsk.executeOrderWith mk s o = .ok s' ∧
      View s' L' (executeWith (mk s o) b o).1 ∧
      s'.toFeed = (executeWith (mk s o) b o).2.foldl Feed.emit s.toFeed := by
  rw [executeOrderWith_side]
  cases hm : mk s o with
  | false =>
    rw [if_neg (by simp)]
    rcases addSideLimitOrder_cases h hk hf with hc | ⟨hr, hc⟩ | hc
    · exact .inl hc
    · exact .inr (.inl ⟨hr, s, L, hc, h, rfl⟩)
    · exact .inr (.inr hc)
  | true =>
    cases ht : o.type with
    | market =>
      have hmarket := execute_market hmk h ht
      rw [executeOrderWith_side, hm] at hmarket
      exact .inr (.inr hmarket)
    | limit =>
    rw [if_pos rfl]
    obtain ⟨w, hw⟩ : ∃ w, w = sweep o.side (b o.side.opp) o (reserve o.side o.amount o.price) :=
      ⟨_, rfl⟩
    obtain ⟨s₁, L₁, hv₁, hf₁, hroom, hord, -, hcode⟩ := fillOrder_swept hmk h hw
    have hdrop : dropWith true b o = (Function.update b o.side.opp w.queue, w.events) := by
      simp only [dropWith, ← hw, if_true]
    have hwithin := within_sweep b o.side o (reserve o.side o.amount o.price)
    rw [← hw] at hwithin
    rw [hcode, executeWith_swept hw, hdrop, List.foldl_append, ← hf₁]
    unfold settle
    by_cases h0 : 0 < w.order.amount
    · rw [if_pos h0, if_pos h0]
      have hws : w.order.side = o.side := by rw [hord, Order.side_withAmount]
      have hwp : w.order.price = o.price := by rw [hord]
      have hwi : w.order.id32 = o.id32 := by rw [hord]; rfl
      have hwt : w.order.type = .limit := by rw [hord]; exact ht
      rw [hwt, ← hws]
      rcases addSideLimitOrder_cases hv₁ (o := w.order) (by rw [hws, hwp]; exact hk)
        (by rw [hwi]; exact hwithin.fresh hf) with ⟨hr, hc⟩ | ⟨hr, hc⟩ | hc
      · exact .inl ⟨fun hr' => hr (hroom hr'), hc⟩
      · exact .inr (.inl ⟨fun hr' => hr (hroom hr'), s₁, L₁, hc, by rw [hws]; exact hv₁, rfl⟩)
      · rw [hws] at hc ⊢
        exact .inr (.inr hc)
    · rw [if_neg h0, if_neg h0]
      exact .inr (.inr ⟨s₁, L₁, rfl, hv₁, rfl⟩)

/-- With room in every pool `executeOrder` does what the reference does. -/
theorem execute_refines (hmk : Decides mk) (h : View s L b)
    (hk : (compareOf o.side).Inner o.price) (hf : Fresh b o.id32) (hroom : s.HasRoom) :
    ∃ s' L', BidAsk.executeOrderWith mk s o = .ok s' ∧
      View s' L' (executeWith (mk s o) b o).1 ∧
      s'.toFeed = (executeWith (mk s o) b o).2.foldl Feed.emit s.toFeed := by
  rcases execute_cases hmk h hk hf with ⟨hr, -⟩ | ⟨hr, -⟩ | hc
  · exact absurd hroom hr
  · exact absurd hroom hr
  · exact hc

end

end Naoto.Engine
