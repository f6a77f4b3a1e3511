import NaotoExchange.Client.OrderBook
import NaotoExchange.Engine.Proof.Tables
import NaotoExchange.Gateway.OrderRiskCheck

/-!
# Answers

Every order with an amount is answered by a report, every order at rest has an amount, and every
level in the book was last shown with a positive depth (`run_answers`); the last as long as its
quantity fits the 32 bits of the field. Nothing checks the amount: an order without one passes the
risk check, and then rests in a level that is shown as empty, or gets no report at all
(`zero_amount_accepted`).

The results are about all runs that go through, also those that dropped a remainder for want of a
node.
-/

namespace Naoto.Engine

open Reference Run MarketClient

/-! ## The last update of a level -/

/-- The last book update for a price of a side. -/
def lastUpdate (sd : OrderSide) (p : Int64) (us : List OrderBookUpdate) : Option OrderBookUpdate :=
  (us.filter fun u => u.side = sd ∧ u.price = p).getLast?

theorem lastUpdate_append (sd : OrderSide) (p : Int64) (us vs : List OrderBookUpdate) :
    lastUpdate sd p (us ++ vs) = (lastUpdate sd p vs).or (lastUpdate sd p us) := by
  unfold lastUpdate
  rw [List.filter_append, List.getLast?_append]

theorem lastUpdate_unnumbered (sd : OrderSide) (p : Int64) (us : List OrderBookUpdate) :
    lastUpdate sd p (us.map OrderBookUpdate.unnumbered) =
      (lastUpdate sd p us).map OrderBookUpdate.unnumbered := by
  unfold lastUpdate
  rw [List.filter_map, List.getLast?_map]
  rfl

/-- The updates tell every depth that differs between two books. -/
def Shows (b : Book) (us : List OrderBookUpdate) (b' : Book) : Prop :=
  ∀ sd p, depthAt p (b' sd) = ((lastUpdate sd p us).map OrderBookUpdate.depth).getD
    (depthAt p (b sd))

section
variable {b b₁ b₂ : Book} {us vs : List OrderBookUpdate}

theorem Shows.refl (b : Book) : Shows b [] b := fun _ _ => rfl

theorem Shows.trans (h₁ : Shows b us b₁) (h₂ : Shows b₁ vs b₂) : Shows b (us ++ vs) b₂ := by
  intro sd p
  rw [h₂ sd p, h₁ sd p, lastUpdate_append]
  cases lastUpdate sd p vs <;> rfl

theorem Shows.single {u : OrderBookUpdate} {q : List Order}
    (hq : ∀ p, depthAt p q = if p = u.price then u.depth else depthAt p (b u.side)) :
    Shows b [u] (Function.update b u.side q) := by
  intro sd p
  by_cases hu : u.side = sd ∧ u.price = p
  · obtain ⟨rfl, rfl⟩ := hu
    rw [Function.update_self, hq, if_pos rfl]
    simp [lastUpdate]
  · have hnone : lastUpdate sd p [u] = none := by simp [lastUpdate, hu]
    rw [hnone, Option.map_none, Option.getD_none]
    by_cases hsd : sd = u.side
    · subst hsd
      rw [Function.update_self, hq, if_neg fun hp => hu ⟨rfl, hp.symm⟩]
    · rw [Function.update_of_ne hsd]

theorem Shows.unnumbered (h : Shows b (us.map OrderBookUpdate.unnumbered) b₁) : Shows b us b₁ := by
  intro sd p
  rw [h sd p, lastUpdate_unnumbered, Option.map_map]
  rfl

end

/-! ## The reference -/

/-- Every resting order has an amount. -/
def Positive (b : Book) : Prop := ∀ sd, ∀ r ∈ b sd, 0 < r.amount

section
variable {b : Book} {o : Order} {asset : UInt16}

theorem Positive.update (h : Positive b) {sd : OrderSide} {q : List Order}
    (hq : ∀ r ∈ q, 0 < r.amount) : Positive (Function.update b sd q) := by
  intro sd' r hr
  by_cases hsd : sd' = sd
  · subst hsd
    rw [Function.update_self] at hr
    exact hq r hr
  · rw [Function.update_of_ne hsd] at hr
    exact h sd' r hr

theorem sweep_positive (sd : OrderSide) (q : List Order) (o : Order) (locked : Int64)
    (h : ∀ r ∈ q, 0 < r.amount) : ∀ r ∈ (sweep sd q o locked).queue, 0 < r.amount := by
  refine sweep_induction sd (P := fun q _ _ w => (∀ r ∈ q, 0 < r.amount) → ∀ r ∈ w.queue,
    0 < r.amount) (fun _ _ _ h => h) (fun r q o locked w _ _ ih h => ih fun x hx => ?_) q o locked h
  unfold afterTrade at hx
  split at hx
  · exact h x (List.mem_cons_of_mem _ hx)
  · next hz =>
    rcases List.mem_cons.1 hx with rfl | hx
    · grind
    · exact h x (List.mem_cons_of_mem _ hx)

theorem Positive.rest (h : Positive b) (h0 : 0 < o.amount) : Positive (rest b o).1 := by
  refine h.update fun r hr => ?_
  rcases mem_enqueue.1 hr with rfl | hr
  · exact h0
  · exact h _ r hr

theorem Positive.dropWith (h : Positive b) (m : Bool) : Positive (dropWith m b o).1 := by
  cases m with
  | true => exact h.update (sweep_positive _ _ _ _ (h _))
  | false => exact h

theorem Positive.executeWith (h : Positive b) (h0 : 0 < o.amount) (m : Bool) :
    Positive (executeWith m b o).1 := by
  cases m with
  | true =>
    have hs := h.dropWith (o := o) true
    simp only [Reference.executeWith, execute, if_true]
    unfold settle
    split
    · next hw =>
      split
      · exact hs.rest hw
      · exact hs
    · exact hs
  | false => exact h.rest h0

theorem Positive.cancel (h : Positive b) (o : Order) : Positive (cancel b o).1 := by
  unfold Reference.cancel
  split
  · exact h
  · exact h.update fun r hr => h _ r (List.mem_filter.1 hr).1

/-- The updates of a sweep tell what it did to the opposite side. -/
theorem sweep_shows (asset : UInt16) (b : Book) (sd : OrderSide) (q : List Order) (o : Order)
    (locked : Int64) :
    Shows (Function.update b sd.opp q) ((sweep sd q o locked).events.flatMap (Event.updates asset))
      (Function.update b sd.opp (sweep sd q o locked).queue) := by
  refine sweep_induction sd (P := fun q _ _ w => Shows (Function.update b sd.opp q)
    (w.events.flatMap (Event.updates asset)) (Function.update b sd.opp w.queue))
    (fun q _ _ => Shows.refl _) (fun r q o locked w _ _ ih => ?_) q o locked
  have hround : Shows (Function.update b sd.opp (r :: q))
      [⟨r.price, 0, depthAt r.price (less r (traded o r) :: q), asset, sd.opp⟩]
      (Function.update (Function.update b sd.opp (r :: q)) sd.opp (afterTrade o r q)) :=
    Shows.single fun p => by
      rw [Function.update_self]
      exact depthAt_afterTrade o r q p
  rw [Function.update_idem] at hround
  exact hround.trans ih

theorem dropWith_shows (asset : UInt16) (m : Bool) (b : Book) (o : Order) :
    Shows b ((dropWith m b o).2.flatMap (Event.updates asset)) (dropWith m b o).1 := by
  cases m with
  | true =>
    have := sweep_shows asset b o.side (b o.side.opp) o (reserve o.side o.amount o.price)
    rwa [Function.update_eq_self] at this
  | false => exact Shows.refl b

theorem rest_shows (asset : UInt16) (b : Book) (o : Order) :
    Shows b ((rest b o).2.flatMap (Event.updates asset)) (rest b o).1 :=
  Shows.single (u := ⟨o.price, 0, depthAt o.price (enqueue o.side o (b o.side)), asset, o.side⟩)
    fun p => by
    by_cases hp : p = o.price
    · rw [if_pos hp, hp]
    · rw [if_neg hp]
      exact depthAt_enqueue_other hp _

theorem executeWith_shows (asset : UInt16) (m : Bool) (b : Book) (o : Order) :
    Shows b ((executeWith m b o).2.flatMap (Event.updates asset)) (executeWith m b o).1 := by
  cases m with
  | true =>
    have hs := dropWith_shows asset true b o
    simp only [dropWith, if_true] at hs
    simp only [executeWith, execute, if_true, List.flatMap_append]
    refine hs.trans ?_
    unfold settle
    split
    · split
      · exact rest_shows asset _ _
      · exact Shows.refl _
    · exact Shows.refl _
  | false => exact rest_shows asset b o

theorem cancel_shows (asset : UInt16) {s : FiniteBidAsk} {L : Levels} (h : View s L b) (o : Order) :
    Shows b ((cancel b o).2.flatMap (Event.updates asset)) (cancel b o).1 := by
  unfold cancel
  split
  · exact Shows.refl b
  · next r ht =>
    obtain ⟨sd, hr⟩ := target_mem ht
    refine Shows.single (u :=
      ⟨r.price, 0, depthAt r.price ((b r.side).filter fun x => x.id32 ≠ r.id32), asset, r.side⟩)
        fun p => ?_
    by_cases hp : p = r.price
    · rw [if_pos hp, hp]
    · rw [if_neg hp]
      exact depthAt_filter fun x hx hid hxp => hp (by rw [← hxp, h.order_unique hx hr hid])

theorem processWith_shows (asset : UInt16) (m : Bool) {s : FiniteBidAsk} {L : Levels}
    (h : View s L b) (o : Order) :
    Shows b ((processWith m b o).2.flatMap (Event.updates asset)) (processWith m b o).1 := by
  unfold processWith
  cases o.action with
  | execute => exact executeWith_shows asset m b o
  | cancel => exact cancel_shows asset h o

/-- The report is about the order. -/
def Answers (o : Order) (r : OrderStateReport) : Prop :=
  r.orderId = o.id32 ∧ r.clientId = o.clientId

theorem sweep_answers (asset : UInt16) (sd : OrderSide) (q : List Order) (o : Order)
    (locked : Int64) (h0 : 0 < o.amount) : 0 < (sweep sd q o locked).order.amount ∨
      ∃ r ∈ (sweep sd q o locked).events.flatMap (Event.reports asset), Answers o r := by
  refine sweep_induction sd (P := fun _ o _ w => 0 < o.amount → 0 < w.order.amount ∨
    ∃ r ∈ w.events.flatMap (Event.reports asset), Answers o r)
    (fun _ _ _ h => .inl h) (fun r q o locked w _ _ _ _ => .inr ?_) q o locked h0
  exact ⟨fillOf asset sd (traded o r) r.price (less o (traded o r)),
    List.mem_flatMap.2 ⟨tradeEvent sd o r q, by simp [Swept.prepend], .head _⟩, rfl, rfl⟩

/-- **An order with an amount is answered.** -/
theorem execute_answers (asset : UInt16) (b : Book) (h0 : 0 < o.amount) :
    ∃ r ∈ (execute b o).2.flatMap (Event.reports asset), Answers o r := by
  have hs := sweep_answers asset o.side (b o.side.opp) o (reserve o.side o.amount o.price) h0
  have hord := sweep_order o.side (b o.side.opp) o (reserve o.side o.amount o.price)
  simp only [execute, List.flatMap_append]
  obtain ⟨w, hw⟩ : ∃ w, w = sweep o.side (b o.side.opp) o (reserve o.side o.amount o.price) :=
    ⟨_, rfl⟩
  rw [← hw] at hs hord ⊢
  rcases hs with hpos | ⟨r, hr, ha⟩
  · -- what is left is reported as resting or as cancelled
    unfold settle
    rw [if_pos hpos]
    cases w.order.type with
    | limit =>
      refine ⟨_, List.mem_append_right _ (.head _), ?_⟩
      rw [hord]
      exact ⟨rfl, rfl⟩
    | market =>
      refine ⟨_, List.mem_append_right _ (.head _), ?_⟩
      rw [hord]
      exact ⟨rfl, rfl⟩
  · exact ⟨r, List.mem_append_left _ hr, ha⟩

end

/-! ## Runs -/

/-- Every order among the messages has an amount. -/
def HaveAmounts (msgs : List Order) : Prop := ∀ m ∈ msgs, m.action = .execute → 0 < m.amount

instance (msgs : List Order) : Decidable (HaveAmounts msgs) := by
  unfold HaveAmounts
  infer_instance

section
variable {s₀ s s' : FiniteBidAsk} {L : Levels} {b b' : Book} {msgs : List Order}
  {outs : List BidAsk.Out}

theorem Shows.out {es : List Event}
    (h : Shows b (es.flatMap (Event.updates s.marketAssetId.toUInt16)) b')
    (hfeed : s'.toFeed = es.foldl Feed.emit s.toFeed.cleared) :
    Shows b s'.toFeed.out.updates b' := by
  refine Shows.unnumbered ?_
  rw [hfeed, (tells_emit s.toFeed es).updates]
  exact h

/-- **The invariant of a run**: the orders at rest have amounts, and the updates show the book. -/
theorem run_told {L₀ : Levels} (h₀ : View s₀ L₀ empty) (hv : Valid msgs)
    (hside : Along NamesSide BidAsk.step s₀ msgs) (hpos : HaveAmounts msgs)
    (hrun : BidAsk.run s₀ msgs = .ok (s, outs)) :
    Positive s.restingOrders ∧ Shows empty (allUpdates outs) s.restingOrders := by
  refine run_invariant (P := fun _ s outs => Positive s.restingOrders ∧
    Shows empty (allUpdates outs) s.restingOrders) ?_ hside ?_ hrun
  · rw [h₀.restingOrders]
    exact ⟨fun sd r hr => by (cases hr), Shows.refl _⟩
  intro xs o s outs s' out hp hr ⟨hpositive, hshows⟩ hs hstep
  have hxs : xs <+: msgs := (List.prefix_append _ _).trans hp
  have hamount : o.action = .execute → 0 < o.amount := hpos o (hp.subset (by simp))
  obtain ⟨L, b, hview, hk⟩ := run_view h₀ (hv.restrict hxs) (hside.restrict hxs) hr
  rw [hview.restingOrders] at hpositive hshows
  have hall : allUpdates (outs ++ [out]) = allUpdates outs ++ out.updates := by
    simp [allUpdates]
  rw [hall]
  rcases step_cases hview (acceptable hview hk (hv.restrict hp) hs) with
    ⟨-, -, he⟩ | ⟨-, -, s₁, L₁, he, hv₁, hfeed⟩ | ⟨s₁, L₁, he, hv₁, hfeed⟩
  · rw [he] at hstep
    cases hstep
  · -- a remainder was dropped
    rw [he] at hstep
    cases hstep
    rw [hv₁.restingOrders]
    exact ⟨hpositive.dropWith _, hshows.trans ((dropWith_shows _ _ b o).out hfeed)⟩
  · rw [he] at hstep
    cases hstep
    rw [hv₁.restingOrders]
    refine ⟨?_, hshows.trans ((processWith_shows _ _ hview o).out hfeed)⟩
    unfold processWith
    cases ha : o.action with
    | execute => exact hpositive.executeWith (hamount ha) _
    | cancel => exact hpositive.cancel o

theorem View.order_of_price (h : View s L b) {sd : OrderSide} {p : Int64}
    (hp : p ∈ s.indexPrices sd) : ∃ r ∈ b sd, r.price = p := by
  rw [h.indexPrices] at hp
  obtain ⟨l, hl, rfl⟩ := List.mem_map.1 hp
  obtain ⟨n, ns, hn⟩ := List.exists_cons_of_ne_nil (h.full sd l hl)
  have hnl : n ∈ l.nodes := by rw [hn]; simp
  exact ⟨_, h.order_mem (Levels.mem_queue.2 ⟨l, hl, hnl⟩), ((h.rep.level sd l hl).orders n hnl).2⟩

theorem restingAt_pos {sd : OrderSide} {r : Order} (hr : r ∈ b sd) (h0 : 0 < r.amount) :
    0 < restingAt b sd r.price := by
  have hmem : r.amount.toNat ∈ ((b sd).filter fun o => o.price = r.price).map fun o =>
      o.amount.toNat :=
    List.mem_map_of_mem (List.mem_filter.2 ⟨hr, by simp⟩)
  have hle : r.amount.toNat ≤ restingAt b sd r.price :=
    List.single_le_sum (fun _ _ => Nat.zero_le _) _ hmem
  have : 0 < r.amount.toNat := by simpa using UInt32.lt_iff_toNat_lt.1 h0
  omega

end

theorem run_answered (assetId : UInt32) (initialPrice : Int64) (reportSeq bookSeq : UInt32)
    (bidSeed askSeed : UInt64) {msgs : List Order} {s : FiniteBidAsk} {outs : List BidAsk.Out}
    (hv : Valid msgs)
    (hside : Along NamesSide BidAsk.step
      (BidAsk.new assetId initialPrice reportSeq bookSeq bidSeed askSeed) msgs)
    (hpos : HaveAmounts msgs)
    (hrun : BidAsk.run (BidAsk.new assetId initialPrice reportSeq bookSeq bidSeed askSeed) msgs =
      .ok (s, outs)) :
    (∀ sd, ∀ r ∈ s.restingOrders sd, 0 < r.amount) ∧
    (∀ sd, ∀ p ∈ s.indexPrices sd, restingAt s.restingOrders sd p < 2 ^ 32 →
      ∃ u, lastUpdate sd p (allUpdates outs) = some u ∧ 0 < u.depth ∧
        u.depth.toNat = restingAt s.restingOrders sd p) ∧
    (s.HasRoom → ∀ o, o.action = .execute → Valid (msgs ++ [o]) → 0 < o.amount →
      ∃ s' out, BidAsk.step s o = .ok (s', out) ∧
        ∃ r ∈ out.reports, r.orderId = o.id32 ∧ r.clientId = o.clientId) := by
  have h₀ := new_view assetId initialPrice reportSeq bookSeq bidSeed askSeed
  obtain ⟨hpositive, hshows⟩ := run_told h₀ hv hside hpos hrun
  obtain ⟨L, b, hview, hk⟩ := run_view h₀ hv hside hrun
  refine ⟨hpositive, fun sd p hp hfits => ?_, fun hroom o ha hvo h0 => ?_⟩
  · obtain ⟨r, hr, rfl⟩ := hview.order_of_price hp
    rw [← hview.restingOrders] at hr
    have hquantity := restingAt_pos hr (hpositive sd r hr)
    have hdepth : (depthAt r.price (s.restingOrders sd)).toNat =
        restingAt s.restingOrders sd r.price := by
      rw [toNat_depthAt]
      exact Nat.mod_eq_of_lt hfits
    have hlast := hshows sd r.price
    cases hu : lastUpdate sd r.price (allUpdates outs) with
    | none =>
      -- nothing was shown: then nothing rests there
      rw [hu] at hlast
      have hzero : depthAt r.price (s.restingOrders sd) = 0 := hlast
      rw [hzero] at hdepth
      exact absurd hdepth (by simp; omega)
    | some u =>
      rw [hu] at hlast
      have heq : depthAt r.price (s.restingOrders sd) = u.depth := hlast
      rw [heq] at hdepth
      exact ⟨u, rfl, UInt32.lt_iff_toNat_lt.2 (by rw [hdepth]; exact hquantity), hdepth⟩
  · have hacc : Acceptable b o := acceptable hview hk hvo fun hc => by rw [ha] at hc; cases hc
    rcases step_cases hview hacc with ⟨hr, -⟩ | ⟨hr, -⟩ | ⟨s', L', he, -, hfeed⟩
    · exact absurd hroom hr
    · exact absurd hroom hr
    · refine ⟨s', _, he, ?_⟩
      have hreports := (tells_emit s.toFeed (processWith (s.isMarketable o) b o).2).reports
      rw [← hfeed] at hreports
      have hproc : processWith (s.isMarketable o) b o = execute b o := by
        unfold processWith
        rw [ha]
        exact executeWith_eq isMarketable_decides hview h0
      obtain ⟨r, hr, hans⟩ := execute_answers s.marketAssetId.toUInt16 b h0
      rw [← hproc, ← hreports] at hr
      obtain ⟨r', hr', rfl⟩ := List.mem_map.1 hr
      exact ⟨r', hr', hans⟩

/-- **Answers.** In every state that orders with amounts lead to, every order at rest has an amount;
every level in the book was last shown with its quantity, if that fits 32 bits; and every further
order with an amount that finds the pools free and room at home is processed and answered. -/
theorem run_answers (assetId : UInt32) (initialPrice : Int64) (reportSeq bookSeq : UInt32)
    (bidSeed askSeed : UInt64) {msgs : List Order} {s : FlatBidAsk} {outs : List BidAsk.Out}
    (hv : Valid msgs)
    (hside : Along NamesSide BidAsk.step
      (BidAsk.newFlat assetId initialPrice reportSeq bookSeq bidSeed askSeed) msgs)
    (hhome : Along RoomAtHome BidAsk.step
      (BidAsk.newFlat assetId initialPrice reportSeq bookSeq bidSeed askSeed) msgs)
    (hpos : HaveAmounts msgs)
    (hrun : BidAsk.run (BidAsk.newFlat assetId initialPrice reportSeq bookSeq bidSeed askSeed)
      msgs = .ok (s, outs)) :
    (∀ sd, ∀ r ∈ s.restingOrders sd, 0 < r.amount) ∧
    (∀ sd, ∀ p ∈ s.indexPrices sd, restingAt s.restingOrders sd p < 2 ^ 32 →
      ∃ u, lastUpdate sd p (allUpdates outs) = some u ∧ 0 < u.depth ∧
        u.depth.toNat = restingAt s.restingOrders sd p) ∧
    (s.HasRoom → ∀ o, o.action = .execute → Valid (msgs ++ [o]) → RoomAtHome s o → 0 < o.amount →
      ∃ s' out, BidAsk.step s o = .ok (s', out) ∧
        ∃ r ∈ out.reports, r.orderId = o.id32 ∧ r.clientId = o.clientId) := by
  obtain ⟨hrun', hmirror⟩ :=
    run_finite assetId initialPrice reportSeq bookSeq bidSeed askSeed hv hside hhome hrun
  obtain ⟨hpositive, hlast, hanswer⟩ :=
    run_answered assetId initialPrice reportSeq bookSeq bidSeed askSeed hv
      (namesSide_finite assetId initialPrice reportSeq bookSeq bidSeed askSeed hv hside hhome) hpos
      hrun'
  rw [BidAsk.restingOrders_finite] at hpositive hlast
  simp only [BidAsk.indexPrices_finite] at hlast
  refine ⟨hpositive, hlast, fun hroom o ha hvo ho h0 => ?_⟩
  obtain ⟨a, out, hstep, hreport⟩ := hanswer (s.hasRoom_finite.2 hroom) o ha hvo h0
  obtain ⟨s', hs', -⟩ := hmirror.step_of_finite ho hstep
  exact ⟨s', out, hs', hreport⟩

/-- After a partial fill of the ask and a bid, in the sample run. -/
theorem run_answers_sample : ∃ s outs,
    BidAsk.run (BidAsk.newFlat 1 100 0 0 3 5) (sampleRun.take 3) = .ok (s, outs) ∧
    (∃ u, lastUpdate .sell 100 (allUpdates outs) = some u ∧ 0 < u.depth) ∧
    ∃ s' out, BidAsk.step s ⟨98, 6, 0, 8, 1, 1, .limit, .buy, .execute⟩ = .ok (s', out) ∧
      ∃ r ∈ out.reports, r.orderId = 6 ∧ r.clientId = 8 := by
  obtain ⟨s, outs, hrun, hprice, hfits, hroom⟩ := exists_of_succeeds
    (P := fun s _ => 100 ∈ s.indexPrices .sell ∧ restingAt s.restingOrders .sell 100 < 2 ^ 32 ∧
      s.HasRoom)
    (r := BidAsk.run (BidAsk.newFlat 1 100 0 0 3 5) (sampleRun.take 3)) (by decide +kernel)
  have ho : RoomAtHome s ⟨98, 6, 0, 8, 1, 1, .limit, .buy, .execute⟩ :=
    holds_of_succeeds (P := fun s _ => RoomAtHome s ⟨98, 6, 0, 8, 1, 1, .limit, .buy, .execute⟩)
      hrun (by decide +kernel)
  obtain ⟨-, hlast, hanswer⟩ := run_answers 1 100 0 0 3 5 (by decide +kernel) (by decide +kernel)
    (by decide +kernel) (by decide +kernel) hrun
  obtain ⟨u, hu, h0, -⟩ := hlast .sell 100 hprice hfits
  exact ⟨s, outs, hrun, ⟨u, hu, h0⟩, hanswer hroom _ rfl (by decide +kernel) ho (by decide)⟩

/-- A bid for nothing. -/
def emptyBid (type : OrderType) : Order := ⟨99, 1, 0, 8, 0, 1, type, .buy, .execute⟩

/-- **An order without an amount** passes the risk check of a client who owns nothing. A limit order
then rests in a level that is shown with depth 0; a market order gets no report. -/
theorem zero_amount_accepted :
    (∀ type, (Gateway.checkOrderRisk ⟨⟨8, fun _ => 0, 1, 0⟩, ⟨fun _ => 0, fun _ => 0⟩⟩
      ⟨fun _ => 0, 0⟩ (emptyBid type) 1).1 = .accepted) ∧
    (∀ type, Valid [emptyBid type]) ∧ (BidAsk.newFlat 1 100 0 0 3 5).HasRoom ∧
    (BidAsk.step (BidAsk.newFlat 1 100 0 0 3 5) (emptyBid .limit)).map (fun r =>
      ((r.1.restingOrders .buy).map Order.amount, r.1.indexPrices .buy,
        r.2.updates.map OrderBookUpdate.depth)) = .ok ([0], [99], [0]) ∧
    (BidAsk.step (BidAsk.newFlat 1 100 0 0 3 5) (emptyBid .market)).map (fun r => r.2.reports) =
      .ok [] := by
  refine ⟨fun type => ?_, fun type => ?_, by decide +kernel, by decide +kernel, by decide +kernel⟩
  · cases type <;> decide +kernel
  · cases type <;> decide +kernel

end Naoto.Engine
