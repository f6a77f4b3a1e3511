import NaotoExchange.Engine.Proof.Life

/-!
# The dashboard's order book

The book that the market client keeps from the book-update feed (`app_state.hpp`), and
`run_book_feed`: after every message of a run it shows at each price what rests there in the engine.
-/

namespace Naoto

open FixedWidth Engine Reference Run Desk

namespace MarketClient

/-- The dashboard's book: the depth at each price. -/
structure OrderBook where
  bids : FiniteMap Int64 UInt32
  asks : FiniteMap Int64 UInt32

namespace OrderBook

/-- No level is known. -/
def empty : OrderBook := ⟨.empty, .empty⟩

/-- One side's part of `apply`: a depth of zero removes the level; the result is the change in
depth. -/
def applySide (m : FiniteMap Int64 UInt32) (u : OrderBookUpdate) : FiniteMap Int64 UInt32 × Int64 :=
  let oldDepth := match m u.price with
    | some depth => zeroExtend depth
    | none => 0
  (if u.depth = 0 then m.deleteNode u.price else Function.update m u.price (some u.depth),
    zeroExtend u.depth - oldDepth)

/-- An update goes to its side; the second component is the change of the total there. -/
def apply (b : OrderBook) (u : OrderBookUpdate) : OrderBook × Int64 :=
  match u.side with
  | .buy => ({ b with bids := (applySide b.bids u).1 }, (applySide b.bids u).2)
  | .sell => ({ b with asks := (applySide b.asks u).1 }, (applySide b.asks u).2)

/-- The levels of a side. -/
def levels (b : OrderBook) : OrderSide → FiniteMap Int64 UInt32
  | .buy => b.bids
  | .sell => b.asks

/-- The book after a feed. -/
def replay (us : List OrderBookUpdate) : OrderBook := us.foldl (fun b u => (b.apply u).1) empty

/-- The entry of a price with this depth. -/
def entry (depth : UInt32) : Option UInt32 := if depth = 0 then none else some depth

theorem applySide_apply (m : FiniteMap Int64 UInt32) (u : OrderBookUpdate) (p : Int64) :
    (applySide m u).1 p = if p = u.price then entry u.depth else m p := by
  unfold applySide entry
  by_cases hd : u.depth = 0
  · simp only [hd, if_true]
    exact FiniteMap.deleteNode_apply m u.price p
  · simp only [hd, if_false]
    exact Function.update_apply m u.price (some u.depth) p

/-- An update sets the entry of its side and price and no other. -/
theorem apply_levels (b : OrderBook) (u : OrderBookUpdate) (sd : OrderSide) (p : Int64) :
    (b.apply u).1.levels sd p = if sd = u.side ∧ p = u.price then entry u.depth else
    b.levels sd p := by
  unfold apply
  cases hu : u.side <;> cases sd <;> simp [levels, applySide_apply]

theorem replay_snoc (us : List OrderBookUpdate) (u : OrderBookUpdate) :
    replay (us ++ [u]) = ((replay us).apply u).1 := by
  simp [replay]

theorem replay_unnumbered (us : List OrderBookUpdate) :
    replay (us.map OrderBookUpdate.unnumbered) = replay us := by
  unfold replay
  rw [List.foldl_map]
  rfl

end OrderBook

open OrderBook

/-! ## Depths in the engine -/

/-- What rests at a price, exactly. -/
def restingAt (b : Book) (sd : OrderSide) (p : Int64) : Nat :=
  (((b sd).filter fun o => o.price = p).map fun o => o.amount.toNat).sum

theorem toNat_depthAt (p : Int64) (q : List Order) :
    (depthAt p q).toNat = ((q.filter fun o => o.price = p).map fun o => o.amount.toNat).sum %
    2 ^ 32 := by
  induction q with
  | nil => rfl
  | cons o q ih =>
    rw [depthAt_cons, List.filter_cons]
    by_cases hp : o.price = p
    · simp only [hp, if_true, decide_true, List.map_cons, List.sum_cons]
      rw [UInt32.toNat_add, ih, Nat.add_mod_mod]
    · simp only [hp, if_false, decide_false, Bool.false_eq_true]
      exact ih

/-- Below `2 ^ 32` the entry of a depth is the quantity, and there is none for nothing. -/
theorem entry_depthAt {b : Book} {sd : OrderSide} {p : Int64} (h : restingAt b sd p < 2 ^ 32) :
    (entry (depthAt p (b sd))).map UInt32.toNat =
      if restingAt b sd p = 0 then none else some (restingAt b sd p) := by
  have hdepth : (depthAt p (b sd)).toNat = restingAt b sd p := by
    rw [toNat_depthAt]
    exact Nat.mod_eq_of_lt h
  unfold entry
  by_cases hz : restingAt b sd p = 0
  · have hzero : depthAt p (b sd) = 0 := UInt32.toNat_inj.1 (hdepth.trans hz)
    rw [if_pos hz, if_pos hzero]
    rfl
  · rw [if_neg hz, if_neg (fun h0 => hz (by rw [← hdepth, h0]; rfl)), Option.map_some, hdepth]

theorem depthAt_enqueue_other {sd : OrderSide} {o : Order} {p : Int64} (h : p ≠ o.price)
    (q : List Order) : depthAt p (enqueue sd o q) = depthAt p q := by
  induction q with
  | nil =>
    rw [enqueue, depthAt_cons, if_neg h.symm]
  | cons r q ih =>
    rw [enqueue]
    split
    · rw [depthAt_cons, if_neg h.symm]
    · rw [depthAt_cons, depthAt_cons, ih]

theorem depthAt_afterTrade (o r : Order) (q : List Order) (p : Int64) :
    depthAt p (afterTrade o r q) =
      if p = r.price then depthAt r.price (less r (traded o r) :: q) else depthAt p (r :: q) := by
  have hless : depthAt p (afterTrade o r q) = depthAt p (less r (traded o r) :: q) := by
    unfold afterTrade
    split
    · rename_i hz
      rw [depthAt_cons, hz]
      split <;> simp
    · rfl
  rw [hless]
  by_cases hp : p = r.price
  · rw [if_pos hp, hp]
  · have hne : r.price ≠ p := fun h => hp h.symm
    rw [if_neg hp, depthAt_cons, depthAt_cons, if_neg hne]
    exact if_neg hne

theorem depthAt_filter {id : UInt32} {p : Int64} {q : List Order}
    (h : ∀ x ∈ q, x.id32 = id → x.price ≠ p) :
    depthAt p (q.filter fun x => x.id32 ≠ id) = depthAt p q := by
  induction q with
  | nil => rfl
  | cons x q ih =>
    have hq := ih fun y hy => h y (.tail _ hy)
    rw [List.filter_cons, depthAt_cons]
    by_cases hid : x.id32 = id
    · simp only [hid, ne_eq, not_true, decide_false, Bool.false_eq_true, if_false]
      rw [if_neg (h x (.head _) hid)]
      exact hq
    · simp only [hid, ne_eq, not_false_eq_true, decide_true, if_true]
      rw [depthAt_cons, ← hq]

/-! ## The invariant -/

/-- The feed of the events shows the book. -/
def Mirrors (asset : UInt16) (b : Book) (es : List Event) : Prop :=
  ∀ sd p, (replay (es.flatMap (Event.updates asset))).levels sd p = entry (depthAt p (b sd))

section
variable {asset : UInt16} {b : Book} {es : List Event} {e : Event}

theorem Mirrors.silent (h : Mirrors asset b es) (he : e.updates asset = []) :
    Mirrors asset b (es ++ [e]) := by
  intro sd p
  rw [List.flatMap_append, List.flatMap_singleton, he, List.append_nil]
  exact h sd p

/-- An event that changes one queue at one price, and says so. -/
theorem Mirrors.update {u : OrderBookUpdate} {q : List Order} (h : Mirrors asset b es)
    (he : e.updates asset = [u])
    (hq : ∀ p, depthAt p q = if p = u.price then u.depth else depthAt p (b u.side)) :
    Mirrors asset (Function.update b u.side q) (es ++ [e]) := by
  intro sd p
  rw [List.flatMap_append, List.flatMap_singleton, he, replay_snoc, apply_levels, h sd p]
  by_cases hsd : sd = u.side
  · subst hsd
    rw [Function.update_self, hq p]
    by_cases hp : p = u.price
    · simp only [hp, if_true, and_self]
    · simp only [hp, if_false, and_false]
  · rw [if_neg fun hboth => hsd hboth.1, Function.update_of_ne hsd]

theorem price_of_id32 {may : Order → UInt32 → Prop} {xs : List Order} {cur : Option Order}
    (h : Tracked asset may ⟨xs, cur, b, es⟩) {sd sd' : OrderSide} {x r : Order} (hx : x ∈ b sd)
    (hr : r ∈ b sd') (hid : x.id32 = r.id32) : x.price = r.price := by
  obtain ⟨x₀, left, rfl, hx₀, hax, -⟩ := h.ofResting hx
  obtain ⟨r₀, left', rfl, hr₀, har, -⟩ := h.ofResting hr
  obtain rfl := eq_of_id32 h.ids hx₀ hax hr₀ har hid
  rfl

end

/-- **The feed shows the book at every step.** -/
theorem steps_mirrors {ok : Book → Order → Prop} (asset : UInt16) {d : Desk}
    (h : Steps ok start d) : Mirrors asset d.book d.events := by
  induction h with
  | refl => exact fun sd p => by cases sd <;> rfl
  | tail hpre hstep ih =>
    have htracked := steps_tracked asset (fun _ _ => True) (fun _ _ _ _ _ _ _ => trivial) hpre
    cases hstep with
    | arrive _ _ _ _ => exact ih
    | @trade xs b es o r q hq _ _ =>
      refine ih.update (u := ⟨r.price, 0, depthAt r.price (less r (traded o r) :: q), asset,
        o.side.opp⟩) rfl fun p => ?_
      show _ = if p = r.price then _ else depthAt p (b o.side.opp)
      rw [hq]
      exact depthAt_afterTrade o r q p
    | @rest xs b es o _ _ =>
      refine ih.update (u := ⟨o.price, 0, depthAt o.price (enqueue o.side o (b o.side)), asset,
        o.side⟩) rfl fun p => ?_
      by_cases hp : p = o.price
      · rw [if_pos hp, hp]
      · rw [if_neg hp]
        exact depthAt_enqueue_other hp _
    | expire _ _ => exact ih.silent rfl
    | spent _ => exact ih
    | @cancel xs b es o r _ _ ht =>
      refine ih.update (u := ⟨r.price, 0,
        depthAt r.price ((b r.side).filter fun x => x.id32 ≠ r.id32), asset, r.side⟩) rfl ?_
      intro p
      by_cases hp : p = r.price
      · rw [if_pos hp, hp]
      · rw [if_neg hp]
        obtain ⟨sd, hr⟩ := target_mem ht
        exact depthAt_filter fun x hx hid hxp =>
          hp (hxp.symm.trans (price_of_id32 htracked hx hr hid))
    | reject _ _ _ => exact ih.silent rfl

/-! ## Runs -/

/-- **The book-update feed reproduces the book**: after every message, at every side and price whose
total is below `2 ^ 32`, the dashboard shows what rests there, and has no entry if nothing does. -/
theorem run_book_feed (assetId : UInt32) (initialPrice : Int64) (reportSeq bookSeq : UInt32)
    (bidSeed askSeed : UInt64) {msgs : List Order} (hv : Valid msgs)
    (hside : Along NamesSide BidAsk.step
      (BidAsk.new assetId initialPrice reportSeq bookSeq bidSeed askSeed) msgs)
    (hfree : Along PoolsFree BidAsk.step
      (BidAsk.new assetId initialPrice reportSeq bookSeq bidSeed askSeed) msgs)
    {xs : List Order} (hp : xs <+: msgs) :
    ∃ s outs,
      BidAsk.run (BidAsk.new assetId initialPrice reportSeq bookSeq bidSeed askSeed) xs =
      .ok (s, outs) ∧ ∀ sd p, restingAt s.restingOrders sd p < 2 ^ 32 →
        ((replay (allUpdates outs)).levels sd p).map UInt32.toNat =
          if restingAt s.restingOrders sd p = 0 then none else
            some (restingAt s.restingOrders sd p) := by
  have h₀ := new_view assetId initialPrice reportSeq bookSeq bidSeed askSeed
  obtain ⟨s, outs, es, hrun, htells, hsteps⟩ := run_steps (fun _ _ => True) h₀ (hv.restrict hp)
    (hside.restrict hp) (hfree.restrict hp) (fun _ _ _ _ _ _ => trivial)
  refine ⟨s, outs, hrun, fun sd p hfits => ?_⟩
  have hfeed := replay_unnumbered (allUpdates outs)
  rw [show (allUpdates outs).map OrderBookUpdate.unnumbered = _ from htells.updates] at hfeed
  rw [← hfeed, steps_mirrors _ hsteps sd p]
  exact entry_depthAt hfits

/-- After a partial fill of the ask and a bid, in the sample run. -/
theorem run_book_feed_sample :
    ∃ s outs, BidAsk.run (BidAsk.new 1 100 0 0 3 5) (sampleRun.take 3) = .ok (s, outs) ∧
      ((replay (allUpdates outs)).levels .sell 100).map UInt32.toNat = some 2 ∧
      ((replay (allUpdates outs)).levels .buy 100).map UInt32.toNat = none := by
  have hv : Valid sampleRun := by decide +kernel
  obtain ⟨s, outs, hrun, h⟩ :=
    run_book_feed 1 100 0 0 3 5 hv (by decide +kernel) (by decide +kernel)
    (show sampleRun.take 3 <+: sampleRun by decide)
  have hrests : (BidAsk.run (BidAsk.new 1 100 0 0 3 5) (sampleRun.take 3)).map (fun r =>
      (restingAt r.1.restingOrders .sell 100, restingAt r.1.restingOrders .buy 100)) =
        .ok (2, 0) := by
    decide +kernel
  rw [hrun] at hrests
  obtain ⟨hsell, hbuy⟩ := Prod.mk.inj (Except.ok.inj hrests)
  have hs := h .sell 100
  have hb := h .buy 100
  rw [hsell] at hs
  rw [hbuy] at hb
  exact ⟨s, outs, hrun, hs (by decide), hb (by decide)⟩

end MarketClient

end Naoto
