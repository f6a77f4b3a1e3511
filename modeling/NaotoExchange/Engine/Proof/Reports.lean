import NaotoExchange.Engine.Proof.Reach

/-!
# What the streams say about the events

The outgoing reports and book updates of a message are, up to their sequence numbers, a function of
its events (`Event.reports`, `Event.updates`). `run_traced` is the rule for results about all the
reports of a run, `next_traced` for those about the reports of one message of it.
-/

namespace Naoto

/-- The report without its sequence number. -/
def OrderStateReport.unnumbered (r : OrderStateReport) : OrderStateReport :=
  { r with sequenceId := 0 }

/-- The update without its number. -/
def OrderBookUpdate.unnumbered (u : OrderBookUpdate) : OrderBookUpdate := { u with sequenceId := 0 }

namespace Engine

open Reference Run

/-! ## The reports of an event -/

/-- The asset an order on side `sd` receives, and the one it gives away. -/
def boughtAssetOf (asset : UInt16) : OrderSide → UInt16
  | .buy => asset
  | .sell => 0

/-- What an order of that side gives away. -/
def soldAssetOf (asset : UInt16) : OrderSide → UInt16
  | .buy => 0
  | .sell => asset

/-- The report of a fill for the owner of an order on side `sd` of which `o.amount` remains. -/
def fillOf (asset : UInt16) (sd : OrderSide) (traded : UInt32) (price : Int64) (o : Order) :
    OrderStateReport where
  boughtDelta := boughtLeg sd traded price
  soldDelta := soldLeg sd traded price
  soldAttemptDelta := soldLeg sd traded price
  sequenceId := 0
  clientId := o.clientId
  orderId := o.id32
  tradeId := 0
  boughtAssetId := boughtAssetOf asset sd
  soldAssetId := soldAssetOf asset sd
  state := if 0 < o.amount then .partialFill else .fill

/-- A report that only moves a reservation. -/
def attemptOf (asset : UInt16) (attempt : Int64) (o : Order) (state : OrderState) :
    OrderStateReport where
  boughtDelta := 0
  soldDelta := 0
  soldAttemptDelta := attempt
  sequenceId := 0
  clientId := o.clientId
  orderId := o.id32
  tradeId := 0
  boughtAssetId := boughtAssetOf asset o.side
  soldAssetId := soldAssetOf asset o.side
  state := state

/-- The reports that the engine pushes for the event. -/
def Reference.Event.reports (asset : UInt16) : Event → List OrderStateReport
  | .trade sd a r quantity _ =>
    [fillOf asset sd quantity r.price a, fillOf asset sd.opp quantity r.price r]
  | .add o _ => [attemptOf asset (reserve o.side o.amount o.price) o .add]
  | .expire o locked => [attemptOf asset (-locked) o .cancel]
  | .cancel o _ => [attemptOf asset (reserve o.side o.amount o.price) o .cancel]
  | .reject o => [⟨0, 0, 0, 0, o.clientId, o.id32, 0, 0, 0, .reject⟩]

/-- The book updates that the engine pushes for the event. -/
def Reference.Event.updates (asset : UInt16) : Event → List OrderBookUpdate
  | .trade sd _ r _ depth => [⟨r.price, 0, depth, asset, sd.opp⟩]
  | .add o depth | .cancel o depth => [⟨o.price, 0, depth, asset, o.side⟩]
  | .expire _ _ | .reject _ => []

section
variable (f : Feed)

theorem emit_marketAssetId (e : Event) : (f.emit e).marketAssetId = f.marketAssetId := by
  cases e <;> rfl

theorem emit_reports (e : Event) : (f.emit e).outgoingOrders.map OrderStateReport.unnumbered =
    f.outgoingOrders.map OrderStateReport.unnumbered ++ e.reports f.marketAssetId.toUInt16 := by
  have hbought : ∀ sd, f.boughtAsset sd = boughtAssetOf f.marketAssetId.toUInt16 sd := by
    intro sd
    cases sd <;> rfl
  have hsold : ∀ sd, f.soldAsset sd = soldAssetOf f.marketAssetId.toUInt16 sd := by
    intro sd
    cases sd <;> rfl
  cases e with
  | trade sd a r quantity depth => cases sd <;> simp [Feed.emit, Feed.pushUpdate, Feed.pushFill,
      Feed.pushReport, Event.reports, fillOf, OrderStateReport.unnumbered] <;>
      exact ⟨⟨rfl, rfl⟩, rfl, rfl⟩
  | add o depth =>
    simp [Feed.emit, Feed.pushUpdate, Feed.pushAttempt, Feed.pushReport, Event.reports, attemptOf,
      OrderStateReport.unnumbered, hbought, hsold]
  | expire o locked => simp [Feed.emit, Feed.pushAttempt, Feed.pushReport, Event.reports,
      attemptOf, OrderStateReport.unnumbered, hbought, hsold]
  | cancel o depth =>
    simp [Feed.emit, Feed.pushUpdate, Feed.pushAttempt, Feed.pushReport, Event.reports, attemptOf,
      OrderStateReport.unnumbered, hbought, hsold]
  | reject o => simp [Feed.emit, Feed.pushReject, Feed.pushReport, Event.reports,
      OrderStateReport.unnumbered]

theorem emit_updates (e : Event) : (f.emit e).outgoingBook.map OrderBookUpdate.unnumbered =
    f.outgoingBook.map OrderBookUpdate.unnumbered ++ e.updates f.marketAssetId.toUInt16 := by
  cases e <;> simp [Feed.emit, Feed.pushUpdate, Feed.pushFill, Feed.pushAttempt, Feed.pushReject,
    Feed.pushReport, Event.updates, OrderBookUpdate.unnumbered]

end

theorem foldl_emit (es : List Event) (f : Feed) :
    (es.foldl Feed.emit f).marketAssetId = f.marketAssetId ∧
      (es.foldl Feed.emit f).outgoingOrders.map OrderStateReport.unnumbered =
        f.outgoingOrders.map OrderStateReport.unnumbered ++
          es.flatMap (Event.reports f.marketAssetId.toUInt16) ∧
      (es.foldl Feed.emit f).outgoingBook.map OrderBookUpdate.unnumbered =
        f.outgoingBook.map OrderBookUpdate.unnumbered ++
          es.flatMap (Event.updates f.marketAssetId.toUInt16) := by
  induction es generalizing f with
  | nil => simp
  | cons e es ih =>
    obtain ⟨hasset, hreports, hupdates⟩ := ih (f.emit e)
    rw [emit_marketAssetId] at hasset hreports hupdates
    refine ⟨hasset, ?_, ?_⟩
    · rw [List.foldl_cons, hreports, emit_reports, List.flatMap_cons, List.append_assoc]
    · rw [List.foldl_cons, hupdates, emit_updates, List.flatMap_cons, List.append_assoc]

/-- The output `out` reads as the events `es`. -/
structure Tells (asset : UInt16) (out : BidAsk.Out) (es : List Event) : Prop where
  reports : out.reports.map OrderStateReport.unnumbered = es.flatMap (Event.reports asset)
  updates : out.updates.map OrderBookUpdate.unnumbered = es.flatMap (Event.updates asset)

theorem tells_emit (f : Feed) (es : List Event) :
    Tells f.marketAssetId.toUInt16 (es.foldl Feed.emit f.cleared).out es where
  reports := (foldl_emit es f.cleared).2.1
  updates := (foldl_emit es f.cleared).2.2

/-! ## Runs -/

/-- All that a run pushed. -/
def allReports (outs : List BidAsk.Out) : List OrderStateReport := outs.flatMap BidAsk.Out.reports

/-- The book updates of a run. -/
def allUpdates (outs : List BidAsk.Out) : List OrderBookUpdate := outs.flatMap BidAsk.Out.updates

/-- The outputs of a run as one. -/
def joined (outs : List BidAsk.Out) : BidAsk.Out := ⟨allReports outs, allUpdates outs⟩

theorem Tells.single {asset : UInt16} {out : BidAsk.Out} {es : List Event}
    (h : Tells asset out es) : Tells asset (joined [out]) es where
  reports := by simpa [joined, allReports] using h.reports
  updates := by simpa [joined, allUpdates] using h.updates

theorem Tells.snoc {asset : UInt16} {outs : List BidAsk.Out} {out : BidAsk.Out}
    {es es' : List Event} (h : Tells asset (joined outs) es) (h' : Tells asset out es') :
    Tells asset (joined (outs ++ [out])) (es ++ es') where
  reports := by
    simp only [joined, allReports, List.flatMap_append, List.flatMap_singleton, List.map_append]
    rw [h'.reports, ← h.reports]
    rfl
  updates := by
    simp only [joined, allUpdates, List.flatMap_append, List.flatMap_singleton, List.map_append]
    rw [h'.updates, ← h.updates]
    rfl

section
variable {s₀ : FiniteBidAsk} {L₀ : Levels} {msgs : List Order} {pre : FiniteBidAsk → Order → Prop}

/-- **A run and its events.** -/
theorem run_traced {Q : List Order → Book → List Event → Prop} (h₀ : View s₀ L₀ empty)
    (hv : Valid msgs) (hside : Along NamesSide BidAsk.step s₀ msgs)
    (hfree : Along PoolsFree BidAsk.step s₀ msgs) (hpre : Along pre BidAsk.step s₀ msgs)
    (hQ₀ : Q [] empty [])
    (hQ : ∀ xs o s L b es, xs ++ [o] <+: msgs → View s L b → Acceptable b o → pre s o →
      Q xs b es → Q (xs ++ [o]) (processWith (s.isMarketable o) b o).1
        (es ++ (processWith (s.isMarketable o) b o).2)) :
    ∃ s outs L b es, BidAsk.run s₀ msgs = .ok (s, outs) ∧ View s L b ∧ Known msgs b ∧
      s.marketAssetId = s₀.marketAssetId ∧
      Tells s₀.marketAssetId.toUInt16 (joined outs) es ∧ Q msgs b es := by
  have hall : Along (fun s o => NamesSide s o ∧ PoolsFree s o ∧ pre s o) BidAsk.step s₀ msgs :=
    fun xs a hp s bs hr => ⟨hside xs a hp s bs hr, hfree xs a hp s bs hr, hpre xs a hp s bs hr⟩
  obtain ⟨s, outs, hrun, L, b, es, hP⟩ := run_total
    (P := fun xs s outs => ∃ L b es, View s L b ∧ Known xs b ∧ s.marketAssetId = s₀.marketAssetId ∧
      Tells s₀.marketAssetId.toUInt16 (joined outs) es ∧ Q xs b es)
    ⟨L₀, empty, [], h₀, known_empty, rfl, ⟨rfl, rfl⟩, hQ₀⟩ hall (by
      intro xs o s outs hp _ ⟨L, b, es, hview, hk, hasset, htells, hq⟩ ⟨hs, hf, hm⟩
      have hacc := acceptable hview hk (hv.restrict hp) hs
      obtain ⟨hr, ha, -⟩ | ⟨hr, ha, -⟩ | ⟨s', L', he, hv', hfeed⟩ := step_cases hview hacc
      · exact absurd (hf ha) hr
      · exact absurd (hf ha) hr
      · have htold := tells_emit s.toFeed (processWith (s.isMarketable o) b o).2
        rw [← hfeed, hasset] at htold
        refine ⟨s', _, he, L', _, _, hv', hk.process _, ?_, htells.snoc htold,
          hQ xs o s L b es hp hview hacc hm hq⟩
        rw [hfeed, (foldl_emit _ _).1]
        exact hasset)
  exact ⟨s, outs, L, b, es, hrun, hP⟩

/-- **A message of a run and its events.** -/
theorem next_traced {Q : List Order → Book → List Event → Prop} (h₀ : View s₀ L₀ empty)
    (hv : Valid msgs) (hside : Along NamesSide BidAsk.step s₀ msgs)
    (hfree : Along PoolsFree BidAsk.step s₀ msgs) (hpre : Along pre BidAsk.step s₀ msgs)
    (hQ₀ : Q [] empty [])
    (hQ : ∀ xs o s L b es, xs ++ [o] <+: msgs → View s L b → Acceptable b o → pre s o →
      Q xs b es → Q (xs ++ [o]) (processWith (s.isMarketable o) b o).1
        (es ++ (processWith (s.isMarketable o) b o).2))
    {xs : List Order} {o : Order} (hp : xs ++ [o] <+: msgs) :
    ∃ s outs s' out L L' b es, BidAsk.run s₀ xs = .ok (s, outs) ∧ BidAsk.step s o = .ok (s', out) ∧
      View s L b ∧ Acceptable b o ∧ View s' L' (processWith (s.isMarketable o) b o).1 ∧
      Tells s₀.marketAssetId.toUInt16 (joined outs) es ∧
      Tells s₀.marketAssetId.toUInt16 out (processWith (s.isMarketable o) b o).2 ∧ Q xs b es := by
  have hxs : xs <+: msgs := (List.prefix_append _ _).trans hp
  obtain ⟨s, outs, L, b, es, hrun, hview, hk, hasset, htells, hq⟩ := run_traced (Q := Q) h₀
    (hv.restrict hxs) (hside.restrict hxs) (hfree.restrict hxs) (hpre.restrict hxs) hQ₀
    (fun ys a s L b es hy => hQ ys a s L b es (hy.trans hxs))
  have hacc := acceptable hview hk (hv.restrict hp) (hside xs o hp s outs hrun)
  have hroom := hfree xs o hp s outs hrun
  obtain ⟨hr, ha, -⟩ | ⟨hr, ha, -⟩ | ⟨s', L', he, hv', hfeed⟩ := step_cases hview hacc
  · exact absurd (hroom ha) hr
  · exact absurd (hroom ha) hr
  · have htold := tells_emit s.toFeed (processWith (s.isMarketable o) b o).2
    rw [← hfeed, hasset] at htold
    exact ⟨s, outs, s', _, L, L', b, es, hrun, he, hview, hacc, hv', htells, htold, hq⟩

end

end Engine

end Naoto
