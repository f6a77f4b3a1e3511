import NaotoExchange.Engine.Proof.Reports
import NaotoExchange.Engine.Refinement

/-!
# Trades move balances and create nothing

What one message pushes is a sequence of matches, two reports each, and at most one report that
moves no balance (`Grouped`). The two legs of a match cancel, so all the reports of a run together
do not change the total of any asset (`run_zero_sum`).
-/

namespace Naoto.Engine

open FixedWidth Reference Run

/-- What a report adds to the confirmed balance of asset `a`. -/
def confirmedDelta (a : UInt16) (r : OrderStateReport) : Int64 :=
  (if r.boughtAssetId = a then r.boughtDelta else 0) + if r.soldAssetId = a then r.soldDelta else 0

/-- The two reports of a trade, `quantity` of `asset` for cash at `price`. -/
structure Legs (asset : UInt16) (quantity : UInt32) (price : Int64)
    (buyer seller : OrderStateReport) : Prop where
  assets : buyer.boughtAssetId = asset ∧ seller.soldAssetId = asset ∧
    buyer.soldAssetId = 0 ∧ seller.boughtAssetId = 0
  bought : buyer.boughtDelta = zeroExtend quantity
  paid : seller.boughtDelta = zeroExtend quantity * price
  assetLeg : buyer.boughtDelta = -seller.soldDelta
  cashLeg : seller.boughtDelta = -buyer.soldDelta

/-- `a` and `r` are the reports of a match of the order `o` with one of the resting orders, at a
price within the limit of `o`. -/
def IsMatch (asset : UInt16) (resting : List Order) (o : Order) (a r : OrderStateReport) : Prop :=
  isFill a = true ∧ isFill r = true ∧ reportParty a = orderParty o ∧
    ∃ offer ∈ resting, ∃ quantity, reportParty r = orderParty offer ∧
      match o.side with
      | .buy => offer.price ≤ o.price ∧ Legs asset quantity offer.price a r
      | .sell => o.price ≤ offer.price ∧ Legs asset quantity offer.price r a

/-- Matches, then at most one report that is not about a fill. -/
inductive Grouped (asset : UInt16) (resting : List Order) (o : Order) : List OrderStateReport → Prop
  | nil : Grouped asset resting o []
  | last {r : OrderStateReport} : isFill r = false → Grouped asset resting o [r]
  | pair {a r : OrderStateReport} {rs : List OrderStateReport} : IsMatch asset resting o a r →
      Grouped asset resting o rs → Grouped asset resting o (a :: r :: rs)

section
variable {asset : UInt16} {resting : List Order} {o : Order}

theorem Legs.of_unnumbered {quantity : UInt32} {price : Int64} {a r : OrderStateReport}
    (h : Legs asset quantity price a.unnumbered r.unnumbered) : Legs asset quantity price a r :=
  ⟨h.assets, h.bought, h.paid, h.assetLeg, h.cashLeg⟩

theorem Grouped.of_unnumbered {rs : List OrderStateReport}
    (h : Grouped asset resting o (rs.map OrderStateReport.unnumbered)) :
    Grouped asset resting o rs := by
  generalize hl : rs.map OrderStateReport.unnumbered = l at h
  induction h generalizing rs with
  | nil =>
    rw [List.map_eq_nil_iff.1 hl]
    exact .nil
  | last hr =>
    obtain ⟨r, rfl, rfl⟩ := List.map_eq_singleton_iff.1 hl
    exact .last hr
  | pair hm _ ih =>
    obtain ⟨a, rs₁, rfl, rfl, hrs₁⟩ := List.map_eq_cons_iff.1 hl
    obtain ⟨r, rs₂, rfl, rfl, hrs₂⟩ := List.map_eq_cons_iff.1 hrs₁
    refine .pair ?_ (ih hrs₂)
    obtain ⟨ha, hr, hpa, offer, hmem, quantity, hpr, hlegs⟩ := hm
    refine ⟨ha, hr, hpa, offer, hmem, quantity, hpr, ?_⟩
    cases hsd : o.side with
    | buy =>
      rw [hsd] at hlegs
      exact ⟨hlegs.1, hlegs.2.of_unnumbered⟩
    | sell =>
      rw [hsd] at hlegs
      exact ⟨hlegs.1, hlegs.2.of_unnumbered⟩

/-! ## The matches of a message -/

/-- A match of the reference is one of the order with an order of the other queue, at a price within
the limit. -/
def TradesWith (q : List Order) (o : Order) (e : Event) : Prop :=
  ∃ offer ∈ q, ∃ left quantity depth,
    e = .trade o.side { o with amount := left } (less offer quantity) quantity depth ∧
      crosses o.side offer.price o.price = true

theorem sweep_tradesWith (q : List Order) (o : Order) (locked : Int64) :
    ∀ e ∈ (sweep o.side q o locked).events, TradesWith q o e := by
  -- the side and the limit stay, the amount goes down
  suffices h : ∀ (o' : Order), o' = { o with amount := o'.amount } → ∀ locked,
      ∀ e ∈ (sweep o.side q o' locked).events, TradesWith q o e from h o rfl locked
  induction q with
  | nil =>
    intro o' _ locked e he
    cases he
  | cons r q ih =>
    intro o' ho' locked e he
    have hprice : o'.price = o.price := by rw [ho']
    have hless : less o' (traded o' r) = { o with amount := o'.amount - traded o' r } := by
      rw [less, ho']
    rw [sweep] at he
    split at he
    · rename_i hc
      have hfirst : TradesWith (r :: q) o (.trade o.side (less o' (traded o' r))
          (less r (traded o' r)) (traded o' r) (depthAt r.price (less r (traded o' r) :: q))) := by
        refine ⟨r, .head _, o'.amount - traded o' r, traded o' r,
          depthAt r.price (less r (traded o' r) :: q), ?_, ?_⟩
        · rw [hless]
        · rw [← hprice]
          exact hc.2
      simp only at he
      split at he
      · obtain rfl | he := List.mem_cons.1 he
        · exact hfirst
        · obtain ⟨offer, hmem, h⟩ := ih (less o' (traded o' r)) hless _ e he
          exact ⟨offer, .tail _ hmem, h⟩
      · rw [List.mem_singleton.1 he]
        exact hfirst
    · cases he

theorem processWith_tradesWith {m : Bool} {b : Book} {e : Event} (he : e ∈ (processWith m b o).2)
    (htrade : e.isTrade = true) : TradesWith (b o.side.opp) o e := by
  unfold processWith executeWith at he
  cases ha : o.action with
  | execute =>
    rw [ha] at he
    cases m with
    | true =>
      obtain he | he := List.mem_append.1 he
      · exact sweep_tradesWith _ _ _ e he
      · rw [(settle_events _ _).2 e he] at htrade
        cases htrade
    | false =>
      rw [List.mem_singleton.1 he] at htrade
      cases htrade
  | cancel =>
    rw [ha] at he
    simp only [cancel] at he
    split at he
    · rw [List.mem_singleton.1 he] at htrade
      cases htrade
    · rw [List.mem_singleton.1 he] at htrade
      cases htrade

theorem fillOf_isFill (sd : OrderSide) (quantity : UInt32) (price : Int64) (o : Order) :
    isFill (fillOf asset sd quantity price o) = true := by
  unfold isFill fillOf
  simp only
  split <;> rfl

theorem legs_fillOf (quantity : UInt32) (price : Int64) (buyer seller : Order) :
    Legs asset quantity price (fillOf asset .buy quantity price buyer)
      (fillOf asset .sell quantity price seller) where
  assets := ⟨rfl, rfl, rfl, rfl⟩
  bought := rfl
  paid := rfl
  assetLeg := (neg_neg (zeroExtend quantity)).symm
  cashLeg := by
    show zeroExtend quantity * price = -(-zeroExtend quantity * price)
    rw [Int64.neg_mul, Int64.neg_neg]

theorem TradesWith.reports (asset : UInt16) {e : Event} (h : TradesWith resting o e) :
    ∃ a r, e.reports asset = [a, r] ∧ IsMatch asset resting o a r := by
  obtain ⟨offer, hmem, left, quantity, depth, rfl, hc⟩ := h
  refine ⟨_, _, rfl, fillOf_isFill .., fillOf_isFill .., rfl, offer, hmem, quantity, rfl, ?_⟩
  cases hsd : o.side with
  | buy =>
    rw [hsd] at hc
    exact ⟨of_decide_eq_true hc, legs_fillOf ..⟩
  | sell =>
    rw [hsd] at hc
    exact ⟨of_decide_eq_true hc, legs_fillOf ..⟩

theorem plain_reports (asset : UInt16) {e : Event} (h : e.isTrade = false) :
    ∃ r, e.reports asset = [r] ∧ isFill r = false := by
  cases e with
  | trade sd a r quantity depth => cases h
  | add o depth => exact ⟨_, rfl, rfl⟩
  | expire o locked => exact ⟨_, rfl, rfl⟩
  | cancel o depth => exact ⟨_, rfl, rfl⟩
  | reject o => exact ⟨_, rfl, rfl⟩

theorem grouped_events {ts last : List Event} (ht : ∀ e ∈ ts, TradesWith resting o e)
    (hl : last.length ≤ 1) (hp : ∀ e ∈ last, e.isTrade = false) :
    Grouped asset resting o ((ts ++ last).flatMap (Event.reports asset)) := by
  induction ts with
  | nil =>
    cases last with
    | nil => exact .nil
    | cons e tl =>
      obtain rfl : tl = [] := List.length_eq_zero_iff.1 (by simpa using hl)
      obtain ⟨r, hr, hfill⟩ := plain_reports asset (hp e (by simp))
      rw [List.nil_append, List.flatMap_singleton, hr]
      exact .last hfill
  | cons e ts ih =>
    obtain ⟨a, r, hr, hm⟩ := (ht e (.head _)).reports asset
    rw [List.cons_append, List.flatMap_cons, hr]
    exact .pair hm (ih fun e' he' => ht e' (.tail _ he'))

theorem processWith_grouped (m : Bool) (b : Book) :
    Grouped asset (b o.side.opp) o ((processWith m b o).2.flatMap (Event.reports asset)) := by
  obtain ⟨ts, last, heq, ht, hl, hp⟩ := (processWith_formed m b o).split
  rw [heq]
  refine grouped_events (fun e he => ?_) hl hp
  have hmem : e ∈ (processWith m b o).2 := by
    rw [heq]
    exact List.mem_append_left _ he
  exact processWith_tradesWith hmem (ht e he)

/-! ## Sums -/

theorem event_zero_sum (a : UInt16) (e : Event) :
    ((e.reports asset).map (confirmedDelta a)).sum = 0 := by
  cases e with
  | trade sd x r quantity depth =>
    cases sd <;> simp only [Event.reports, fillOf, OrderSide.opp, boughtLeg, soldLeg, boughtAssetOf,
      soldAssetOf, confirmedDelta, List.map_cons, List.map_nil, List.sum_cons, List.sum_nil] <;>
      split <;> split <;> grind
  | add o depth => simp [Event.reports, attemptOf, confirmedDelta]
  | expire o locked => simp [Event.reports, attemptOf, confirmedDelta]
  | cancel o depth => simp [Event.reports, attemptOf, confirmedDelta]
  | reject o => simp [Event.reports, confirmedDelta]

theorem events_zero_sum (a : UInt16) (es : List Event) :
    ((es.flatMap (Event.reports asset)).map (confirmedDelta a)).sum = 0 := by
  induction es with
  | nil => rfl
  | cons e es ih =>
    rw [List.flatMap_cons, List.map_append, List.sum_append, event_zero_sum, ih, add_zero]

theorem event_plain_zero {e : Event} {r : OrderStateReport} (hr : r ∈ e.reports asset)
    (hplain : isFill r = false) : r.boughtDelta = 0 ∧ r.soldDelta = 0 := by
  cases e with
  | trade sd x y quantity depth =>
    simp only [Event.reports, List.mem_cons, List.not_mem_nil, or_false] at hr
    obtain rfl | rfl := hr
    · rw [fillOf_isFill] at hplain
      cases hplain
    · rw [fillOf_isFill] at hplain
      cases hplain
  | add o depth => rw [List.mem_singleton.1 hr]; exact ⟨rfl, rfl⟩
  | expire o locked => rw [List.mem_singleton.1 hr]; exact ⟨rfl, rfl⟩
  | cancel o depth => rw [List.mem_singleton.1 hr]; exact ⟨rfl, rfl⟩
  | reject o => rw [List.mem_singleton.1 hr]; exact ⟨rfl, rfl⟩

theorem plain_zero_of_tells {out : BidAsk.Out} {es : List Event} (h : Tells asset out es) :
    ∀ r ∈ out.reports, isFill r = false → r.boughtDelta = 0 ∧ r.soldDelta = 0 := by
  intro r hr hplain
  have hmem : r.unnumbered ∈ es.flatMap (Event.reports asset) := by
    rw [← h.reports]
    exact List.mem_map_of_mem hr
  obtain ⟨e, -, he⟩ := List.mem_flatMap.1 hmem
  exact event_plain_zero (r := r.unnumbered) he hplain

theorem zero_sum_of_tells {out : BidAsk.Out} {es : List Event} (h : Tells asset out es)
    (a : UInt16) : (out.reports.map (confirmedDelta a)).sum = 0 := by
  have hmap : out.reports.map (confirmedDelta a) =
      (out.reports.map OrderStateReport.unnumbered).map (confirmedDelta a) := by
    rw [List.map_map]
    rfl
  rw [hmap, h.reports, events_zero_sum]

end

/-! ## The result -/

/-- **Every match is zero-sum and within the limit**: after any beginning of a run the next order's
reports are matches and at most one other report; all other reports move no balance; and the reports
of the run do not change the total of any asset. -/
theorem run_zero_sum (assetId : UInt32) (initialPrice : Int64) (reportSeq bookSeq : UInt32)
    (bidSeed askSeed : UInt64) {msgs : List Order} (hv : Valid msgs)
    (hside : Along NamesSide BidAsk.step
      (BidAsk.new assetId initialPrice reportSeq bookSeq bidSeed askSeed) msgs)
    (hfree : Along PoolsFree BidAsk.step
      (BidAsk.new assetId initialPrice reportSeq bookSeq bidSeed askSeed) msgs) :
    (∀ xs o, xs ++ [o] <+: msgs → o.action = .execute →
      ∃ s outs s' out,
        BidAsk.run (BidAsk.new assetId initialPrice reportSeq bookSeq bidSeed askSeed) xs =
        .ok (s, outs) ∧ BidAsk.step s o = .ok (s', out) ∧
        Grouped assetId.toUInt16 (s.restingOrders o.side.opp) o out.reports) ∧
    ∃ s outs,
      BidAsk.run (BidAsk.new assetId initialPrice reportSeq bookSeq bidSeed askSeed) msgs =
      .ok (s, outs) ∧
      (∀ r ∈ allReports outs, isFill r = false → r.boughtDelta = 0 ∧ r.soldDelta = 0) ∧
      ∀ a, ((allReports outs).map (confirmedDelta a)).sum = 0 := by
  have h₀ := new_view assetId initialPrice reportSeq bookSeq bidSeed askSeed
  constructor
  · intro xs o hp _
    obtain ⟨s, outs, s', out, L, L', b, -, hrun, hstep, hview, -, -, -, htells, -⟩ := next_traced
      (Q := fun _ _ _ => True) h₀ hv hside hfree hside trivial
        (fun _ _ _ _ _ _ _ _ _ _ _ => trivial) hp
    refine ⟨s, outs, s', out, hrun, hstep, Grouped.of_unnumbered ?_⟩
    rw [htells.reports, hview.restingOrders]
    exact processWith_grouped _ _
  · obtain ⟨s, outs, L, b, es, hrun, -, -, -, htells, -⟩ := run_traced (Q := fun _ _ _ => True) h₀
      hv hside hfree hside trivial (fun _ _ _ _ _ _ _ _ _ _ _ => trivial)
    exact ⟨s, outs, hrun, plain_zero_of_tells htells, zero_sum_of_tells htells⟩

/-- The sample run, in which the market order trades with the ask. -/
theorem run_zero_sum_sample : Valid sampleRun ∧
    (∃ s outs s' out, BidAsk.run (BidAsk.new 1 100 0 0 3 5) (sampleRun.take 1) = .ok (s, outs) ∧
      BidAsk.step s ⟨101, 2, 0, 8, 3, 1, .market, .buy, .execute⟩ = .ok (s', out) ∧
      Grouped 1 (s.restingOrders .sell) ⟨101, 2, 0, 8, 3, 1, .market, .buy, .execute⟩ out.reports) ∧
    ∃ s outs, BidAsk.run (BidAsk.new 1 100 0 0 3 5) sampleRun = .ok (s, outs) ∧
      ((allReports outs).map (confirmedDelta 1)).sum = 0 := by
  have hv : Valid sampleRun := by decide +kernel
  obtain ⟨hmsg, s, outs, hrun, -, hsum⟩ :=
    run_zero_sum 1 100 0 0 3 5 hv (by decide +kernel) (by decide +kernel)
  exact ⟨hv, hmsg _ ⟨101, 2, 0, 8, 3, 1, .market, .buy, .execute⟩ (by decide) rfl, s, outs,
    hrun, hsum 1⟩

end Naoto.Engine
