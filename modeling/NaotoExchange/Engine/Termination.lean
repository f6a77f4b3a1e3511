import NaotoExchange.Engine.Proof.Reach

/-!
# Sweeps end

Every iteration of the inner loop of a sweep removes an order from the opposite side or uses up the
incoming one, and every iteration of the outer loop that gets that far removes a level or uses it
up. So a sweep of a side with `n` orders makes at most `n + 1` iterations (`run_sweeps_end`), also
when orders without an amount rest there.
-/

namespace Naoto.Engine

open Reference Run

/-- The best order of the opposite side leaves the book, and no other does. -/
def Iteration.Removes (sd : OrderSide) (it : Iteration) : Prop :=
  ∃ r, it.start.1.restingOrders sd.opp = r :: it.stop.1.restingOrders sd.opp

/-- The best level of the opposite side leaves the book, and no other does. -/
def Visit.Removes (sd : OrderSide) (v : Visit) : Prop :=
  ∃ lv, v.start.1.levels sd.opp = lv :: v.stop.1.levels sd.opp

/-- Every iteration so far has got somewhere, and `n` bounds their number: it is used up by the
orders left and the iterations made, of which only the last may have removed nothing. -/
def Counts (sd : OrderSide) (n : Nat) (_ : FiniteBidAsk) (_ : Levels) (b : Book) (o : Order)
    (_ : Int64) (its : List Iteration) : Prop :=
  (∀ it ∈ its, it.Removes sd ∨ it.stop.2.amount = 0) ∧
    its.length + (b sd.opp).length ≤ n + if o.amount = 0 then 1 else 0

theorem counts_invariant (sd : OrderSide) (n : Nat) : SweepInvariant sd (Counts sd n) where
  refresh := fun _ _ h => h
  round := by
    rintro s L b o k its r q s' L' hround ⟨hall, hlen⟩
    have ho : o.amount ≠ 0 := by
      have := hround.amount
      grind
    rw [hround.queue, List.length_cons, if_neg ho] at hlen
    unfold Counts
    rw [List.length_append, List.length_singleton, Function.update_self]
    by_cases hz : (less r (traded o r)).amount = 0
    · -- the offer left the book
      have hafter : afterTrade o r q = q := if_pos hz
      rw [hafter]
      refine ⟨fun it hit => ?_, by split <;> omega⟩
      rcases List.mem_append.1 hit with hit | hit
      · exact hall it hit
      · rw [List.mem_singleton.1 hit]
        refine .inl ⟨r, ?_⟩
        rw [hround.before.restingOrders, hround.after.restingOrders, Function.update_self, hafter,
          hround.queue]
    · -- the order is used up
      have hused := less_amount_zero hz
      have hafter : afterTrade o r q = less r (traded o r) :: q := if_neg hz
      rw [hafter, if_pos hused, List.length_cons]
      refine ⟨fun it hit => ?_, by omega⟩
      rcases List.mem_append.1 hit with hit | hit
      · exact hall it hit
      · rw [List.mem_singleton.1 hit]
        exact .inr hused

/-- **Sweeps end.** In every state that a run reaches the loops of `FillBuyOrder` and
`FillSellOrder` end for every order: each iteration of the inner loop removes the best opposite
order or uses up the order, each iteration of the outer loop that enters the inner one removes the
best opposite level or uses up the order, and there are at most as many inner iterations as opposite
orders, and one. -/
theorem run_sweeps_end (assetId : UInt32) (initialPrice : Int64) (reportSeq bookSeq : UInt32)
    (bidSeed askSeed : UInt64) {msgs : List Order} {s : FiniteBidAsk} {outs : List BidAsk.Out}
    (hv : Valid msgs)
    (hside : Along NamesSide BidAsk.step
      (BidAsk.new assetId initialPrice reportSeq bookSeq bidSeed askSeed) msgs)
    (hrun : BidAsk.run (BidAsk.new assetId initialPrice reportSeq bookSeq bidSeed askSeed) msgs =
      .ok (s, outs)) (o : Order) :
    ∃ s' o' locked visits,
      BidAsk.fillLevels BidAsk.isMarketable o.side (mePriceLevelPoolSize + 2) s o
        (reserve o.side o.amount o.price) = .ok (s', o', locked) ∧
      BidAsk.fillLevelsLog BidAsk.isMarketable o.side (mePriceLevelPoolSize + 2) s o
        (reserve o.side o.amount o.price) = .ok ((s', o', locked), visits) ∧
      (∀ v ∈ visits, ∀ it ∈ v.iterations, it.Removes o.side ∨ it.stop.2.amount = 0) ∧
      (∀ v ∈ visits, v.Removes o.side ∨ v.stop.2.amount = 0) ∧
      (visits.map fun v => v.iterations.length).sum ≤ (s.restingOrders o.side.opp).length + 1 := by
  obtain ⟨L, b, hview, -⟩ :=
    run_view (new_view assetId initialPrice reportSeq bookSeq bidSeed askSeed) hv hside hrun
  have hstart : Counts o.side (b o.side.opp).length s L b o (reserve o.side o.amount o.price) [] :=
    ⟨fun it hit => by (cases hit), by simp⟩
  obtain ⟨s', L', q', o', k', visits, hloops, hlog, hswept⟩ :=
    fillLevels_rule isMarketable_decides hview (counts_invariant o.side _) hstart
  obtain ⟨hall, hlen⟩ := hswept.inv
  rw [List.nil_append] at hall hlen
  refine ⟨s', o', k', visits, hloops, hlog,
    fun v hm it hit => hall it (List.mem_flatMap.2 ⟨v, hm, hit⟩), fun v hm => ?_, ?_⟩
  · obtain ⟨L₁, b₁, L₂, b₂, l, hv₁, hv₂, hend⟩ := hswept.progresses v hm
    refine hend.symm.imp (fun hL => ⟨l.ptr, ?_⟩) id
    rw [hv₁.levels, hv₂.levels, hL, List.map_cons]
  · rw [List.length_flatMap] at hlen
    rw [hview.restingOrders]
    split at hlen <;> omega

/-- A bid that takes part of the ask of the sample run. -/
theorem run_sweeps_end_sample : ∃ s outs,
    BidAsk.run (BidAsk.new 1 100 0 0 3 5) (sampleRun.take 1) = .ok (s, outs) ∧
    ∃ s' o' locked visits,
      BidAsk.fillLevelsLog BidAsk.isMarketable .buy (mePriceLevelPoolSize + 2) s
        ⟨101, 2, 0, 8, 3, 1, .limit, .buy, .execute⟩ 303 = .ok ((s', o', locked), visits) ∧
      (visits.map fun v => v.iterations.length).sum ≤ 2 := by
  obtain ⟨s, outs, hrun, hlen⟩ :=
    exists_of_succeeds (P := fun s _ => (s.restingOrders .sell).length = 1)
    (r := BidAsk.run (BidAsk.new 1 100 0 0 3 5) (sampleRun.take 1)) (by decide +kernel)
  obtain ⟨s', o', locked, visits, -, hlog, -, -, hsum⟩ := run_sweeps_end 1 100 0 0 3 5
    (by decide +kernel) (by decide +kernel) hrun ⟨101, 2, 0, 8, 3, 1, .limit, .buy, .execute⟩
  change _ ≤ (s.restingOrders .sell).length + 1 at hsum
  rw [hlen] at hsum
  exact ⟨s, outs, hrun, s', o', locked, visits, hlog, hsum⟩

end Naoto.Engine
