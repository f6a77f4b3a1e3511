import NaotoExchange.Engine.Proof.Reach

/-!
# The engine is a price-time-priority engine

What the engine pushes for a message reads as a sequence of entries: matches, each two fill reports
and a book update, then at most one report that an order was added, cancelled or turned down
(`decode`). Over any run from the empty book the entries and the book are those of the reference
engine on sorted lists (`run_eq_reference`).
-/

namespace Naoto.Engine

open FixedWidth Reference Run

/-! ## Reading the streams -/

/-- An order as the reports name it. -/
structure Party where
  clientId : UInt32
  orderId : UInt32
  deriving DecidableEq

/-- What a client learns from the streams. `attempt` is the change of a reservation. -/
inductive Entry where
  | trade (buyer seller : Party) (quantity price : Int64)
  | add (p : Party) (attempt : Int64)
  | cancel (p : Party) (attempt : Int64)
  | reject (p : Party)
  deriving DecidableEq

/-- The order a report is about. -/
def reportParty (r : OrderStateReport) : Party := ⟨r.clientId, r.orderId⟩

/-- The report is one of a match. -/
def isFill (r : OrderStateReport) : Bool := r.state == .fill || r.state == .partialFill

/-- Two fill reports and the update of the resting side's level. -/
def tradeEntry (u : OrderBookUpdate) (aggressor resting : OrderStateReport) : Entry :=
  match u.side with
  | .sell => .trade (reportParty aggressor) (reportParty resting) aggressor.boughtDelta u.price
  | .buy => .trade (reportParty resting) (reportParty aggressor) resting.boughtDelta u.price

/-- A report that is not about a fill. -/
def plainEntry (r : OrderStateReport) : Option Entry :=
  match r.state with
  | .add => some (.add (reportParty r) r.soldAttemptDelta)
  | .cancel => some (.cancel (reportParty r) r.soldAttemptDelta)
  | .reject => some (.reject (reportParty r))
  | .fill | .partialFill => none

/-- The entries of one message; `none` if the streams do not have the expected form. -/
def decode : List OrderStateReport → List OrderBookUpdate → Option (List Entry)
  | [], _ => some []
  | [r], _ => (plainEntry r).map ([·])
  | r₁ :: r₂ :: rs, u :: us =>
    if isFill r₁ && isFill r₂ then (decode rs us).map (tradeEntry u r₁ r₂ :: ·) else none
  | _ :: _ :: _, [] => none

/-- What the engine pushed for a message, read as entries. -/
def BidAsk.Out.decode (out : BidAsk.Out) : Option (List Entry) :=
  Engine.decode out.reports out.updates

/-- The order as an entry names it. -/
def orderParty (o : Order) : Party := ⟨o.clientId, o.id32⟩

/-- The entry of a reference event. -/
def Reference.Event.entry : Event → Entry
  | .trade .buy a r quantity _ => .trade (orderParty a) (orderParty r) (zeroExtend quantity) r.price
  | .trade .sell a r quantity _ =>
    .trade (orderParty r) (orderParty a) (zeroExtend quantity) r.price
  | .add o _ => .add (orderParty o) (reserve o.side o.amount o.price)
  | .expire o locked => .cancel (orderParty o) (-locked)
  | .cancel o _ => .cancel (orderParty o) (reserve o.side o.amount o.price)
  | .reject o => .reject (orderParty o)

/-! ## The events of a message -/

/-- The event is a match. -/
def Reference.Event.isTrade : Event → Bool
  | .trade .. => true
  | _ => false

/-- Matches, and then at most one other event. -/
structure Reference.Formed (es : List Event) : Prop where
  split : ∃ ts last, es = ts ++ last ∧ (∀ e ∈ ts, e.isTrade = true) ∧ last.length ≤ 1 ∧
    ∀ e ∈ last, e.isTrade = false

theorem sweep_trades (sd : OrderSide) : ∀ (q : List Order) (o : Order) (locked : Int64),
    ∀ e ∈ (sweep sd q o locked).events, e.isTrade = true
  | [], _, _, e, he => by cases he
  | r :: q, o, locked, e, he => by
    rw [sweep] at he
    split at he
    · simp only at he
      split at he
      · rcases List.mem_cons.1 he with rfl | he
        · rfl
        · exact sweep_trades sd q _ _ e he
      · rw [List.mem_singleton.1 he]
        rfl
    · cases he

theorem settle_events (b : Book) (w : Swept) :
    (settle b w).2.length ≤ 1 ∧ ∀ e ∈ (settle b w).2, e.isTrade = false := by
  unfold settle
  split
  · split
    · exact ⟨Nat.le_refl _, fun e he => by rw [List.mem_singleton.1 he]; rfl⟩
    · exact ⟨Nat.le_refl _, fun e he => by rw [List.mem_singleton.1 he]; rfl⟩
  · exact ⟨Nat.zero_le _, fun e he => by cases he⟩

theorem processWith_formed (m : Bool) (b : Book) (o : Order) : Formed (processWith m b o).2 := by
  unfold processWith executeWith
  cases o.action with
  | execute =>
    cases m with
    | true =>
      exact ⟨_, _, rfl, sweep_trades _ _ _ _, (settle_events _ _).1, (settle_events _ _).2⟩
    | false =>
      exact ⟨[], _, rfl, by simp, Nat.le_refl _, fun e he => by rw [List.mem_singleton.1 he]; rfl⟩
  | cancel =>
    refine ⟨[], _, rfl, by simp, ?_⟩
    simp only [cancel]
    split
    · exact ⟨Nat.le_refl _, fun e he => by rw [List.mem_singleton.1 he]; rfl⟩
    · exact ⟨Nat.le_refl _, fun e he => by rw [List.mem_singleton.1 he]; rfl⟩

/-! ## The streams of a message -/

/-- The report `pushFill` appends. -/
def Feed.fillReport (f : Feed) (sd : OrderSide) (traded : UInt32) (price : Int64) (o : Order)
    (left : UInt32) : OrderStateReport where
  boughtDelta := boughtLeg sd traded price
  soldDelta := soldLeg sd traded price
  soldAttemptDelta := soldLeg sd traded price
  sequenceId := f.reportSequenceId
  clientId := o.clientId
  orderId := o.id32
  tradeId := 0
  boughtAssetId := f.boughtAsset sd
  soldAssetId := f.soldAsset sd
  state := if 0 < left then .partialFill else .fill

theorem Feed.isFill_fillReport (f : Feed) (sd : OrderSide) (traded : UInt32) (price : Int64)
    (o : Order) (left : UInt32) : isFill (f.fillReport sd traded price o left) = true := by
  unfold isFill fillReport
  simp only
  split <;> rfl

theorem Feed.emit_trade_orders (f : Feed) (sd : OrderSide) (a r : Order) (quantity depth : UInt32) :
    (f.emit (.trade sd a r quantity depth)).outgoingOrders = f.outgoingOrders ++
      [f.fillReport sd quantity r.price a a.amount,
        (f.pushFill sd quantity r.price a a.amount).fillReport sd.opp quantity r.price r
          r.amount] := by
  simp only [Feed.emit, Feed.pushUpdate, Feed.pushFill, Feed.pushReport, List.append_assoc]
  rfl

/-- A match is pushed as two fill reports and an update that read as it. -/
theorem emit_trade (f : Feed) {e : Event} (h : e.isTrade = true) :
    ∃ r₁ r₂ u, (f.emit e).outgoingOrders = f.outgoingOrders ++ [r₁, r₂] ∧
      (f.emit e).outgoingBook = f.outgoingBook ++ [u] ∧ isFill r₁ = true ∧ isFill r₂ = true ∧
      tradeEntry u r₁ r₂ = e.entry := by
  cases e with
  | trade sd a r quantity depth =>
    refine ⟨_, _, _, f.emit_trade_orders sd a r quantity depth, rfl, f.isFill_fillReport ..,
      Feed.isFill_fillReport .., ?_⟩
    cases sd <;> rfl
  | add o depth => cases h
  | expire o locked => cases h
  | cancel o depth => cases h
  | reject o => cases h

/-- Any other event is pushed as one report that reads as it. -/
theorem emit_plain (f : Feed) {e : Event} (h : e.isTrade = false) :
    ∃ r us, (f.emit e).outgoingOrders = f.outgoingOrders ++ [r] ∧
      (f.emit e).outgoingBook = f.outgoingBook ++ us ∧ plainEntry r = some e.entry := by
  cases e with
  | trade sd a r quantity depth => cases h
  | add o depth => exact ⟨_, [_], rfl, rfl, rfl⟩
  | expire o locked => exact ⟨_, [], rfl, (List.append_nil _).symm, rfl⟩
  | cancel o depth => exact ⟨_, [_], rfl, rfl, rfl⟩
  | reject o => exact ⟨_, [], rfl, (List.append_nil _).symm, rfl⟩

theorem emit_last (f : Feed) {last : List Event} (hl : last.length ≤ 1)
    (h : ∀ e ∈ last, e.isTrade = false) :
    ∃ rs us, (last.foldl Feed.emit f).outgoingOrders = f.outgoingOrders ++ rs ∧
      (last.foldl Feed.emit f).outgoingBook = f.outgoingBook ++ us ∧
      decode rs us = some (last.map Event.entry) := by
  cases last with
  | nil => exact ⟨[], [], by simp, by simp, rfl⟩
  | cons e tl =>
    obtain rfl : tl = [] := List.length_eq_zero_iff.1 (by simpa using hl)
    obtain ⟨r, us, hr, hu, he⟩ := emit_plain f (h e (by simp))
    exact ⟨[r], us, hr, hu, by simp [decode, he]⟩

theorem decode_emit {last : List Event} (hl : last.length ≤ 1)
    (h : ∀ e ∈ last, e.isTrade = false) : ∀ {ts : List Event} (f : Feed),
    (∀ e ∈ ts, e.isTrade = true) →
    ∃ rs us, ((ts ++ last).foldl Feed.emit f).outgoingOrders = f.outgoingOrders ++ rs ∧
      ((ts ++ last).foldl Feed.emit f).outgoingBook = f.outgoingBook ++ us ∧
      decode rs us = some ((ts ++ last).map Event.entry)
  | [], f, _ => emit_last f hl h
  | e :: ts, f, ht => by
    obtain ⟨r₁, r₂, u, hr, hu, h1, h2, he⟩ := emit_trade f (ht e (by simp))
    obtain ⟨rs, us, hrs, hus, hd⟩ :=
      decode_emit hl h (f.emit e) fun e' he' => ht e' (List.mem_cons_of_mem _ he')
    refine ⟨r₁ :: r₂ :: rs, u :: us, ?_, ?_, ?_⟩
    · rw [List.cons_append, List.foldl_cons, hrs, hr, List.append_assoc]
      rfl
    · rw [List.cons_append, List.foldl_cons, hus, hu, List.append_assoc]
      rfl
    · simp [decode, h1, h2, hd, he]

theorem decode_out (f : Feed) {es : List Event} (h : Formed es) :
    (es.foldl Feed.emit f.cleared).out.decode = some (es.map Event.entry) := by
  obtain ⟨ts, last, rfl, ht, hl, hp⟩ := h.split
  obtain ⟨rs, us, hr, hu, hd⟩ := decode_emit hl hp f.cleared ht
  unfold BidAsk.Out.decode Feed.out
  simp only [hr, hu]
  exact hd

/-! ## Runs -/

theorem Reference.run_snoc (b : Book) (xs : List Order) (o : Order) :
    Reference.run b (xs ++ [o]) = ((process (Reference.run b xs).1 o).1,
      (Reference.run b xs).2 ++ [(process (Reference.run b xs).1 o).2]) := by
  simp [Reference.run]

/-- For an order with an amount the decision makes no difference. -/
theorem processWith_eq {s : FiniteBidAsk} {L : Levels} {b : Book} {o : Order} (h : View s L b)
    (h0 : o.action = .execute → 0 < o.amount) :
    processWith (s.isMarketable o) b o = process b o := by
  unfold processWith process
  cases ha : o.action with
  | execute => exact executeWith_eq isMarketable_decides h (h0 ha)
  | cancel => rfl

/-- **The engine refines the reference**: from the empty book, on valid orders with amounts and
cancel requests for the target's side, and with free memory, a run goes through, ends with the
reference's book and pushes the reference's matches, additions, cancellations and rejections,
message by message. -/
theorem run_eq_reference (assetId : UInt32) (initialPrice : Int64) (reportSeq bookSeq : UInt32)
    (bidSeed askSeed : UInt64) {msgs : List Order} (hv : Valid msgs)
    (hamount : ∀ o ∈ msgs, o.action = .execute → 0 < o.amount)
    (hside : Along NamesSide BidAsk.step
      (BidAsk.new assetId initialPrice reportSeq bookSeq bidSeed askSeed) msgs)
    (hfree : Along PoolsFree BidAsk.step
      (BidAsk.new assetId initialPrice reportSeq bookSeq bidSeed askSeed) msgs) :
    ∃ s outs, BidAsk.run (BidAsk.new assetId initialPrice reportSeq bookSeq bidSeed askSeed) msgs =
        .ok (s, outs) ∧
      s.restingOrders = (Reference.run empty msgs).1 ∧
      outs.map BidAsk.Out.decode =
        (Reference.run empty msgs).2.map fun es => some (es.map Event.entry) := by
  obtain ⟨s, outs, L, b, hrun, hview, -, -, hb, ho⟩ := run_refines
    (Q := fun xs b outs => b = (Reference.run empty xs).1 ∧ outs.map BidAsk.Out.decode =
      (Reference.run empty xs).2.map fun es => some (es.map Event.entry))
    (new_view assetId initialPrice reportSeq bookSeq bidSeed askSeed) hv hside hfree ⟨rfl, rfl⟩ (by
      rintro xs o s L b outs hp hview - ⟨hb, ho⟩
      have hformed := processWith_formed (s.isMarketable o) b o
      rw [processWith_eq hview (hamount o (hp.subset (by simp)))] at hformed ⊢
      rw [Reference.run_snoc, ← hb, List.map_append, List.map_append, ho]
      exact ⟨rfl, by simp [decode_out s.toFeed hformed]⟩)
  exact ⟨s, outs, hrun, by rw [hview.restingOrders, hb], ho⟩

/-- The sample run, with what it pushes. -/
theorem run_eq_reference_sample :
    ∃ s outs, BidAsk.run (BidAsk.new 1 100 0 0 3 5) sampleRun = .ok (s, outs) ∧
      s.restingOrders = (Reference.run empty sampleRun).1 ∧
      outs.map BidAsk.Out.decode =
        [some [.add ⟨7, 1⟩ 5], some [.trade ⟨8, 2⟩ ⟨7, 1⟩ 3 100], some [.add ⟨8, 3⟩ 396],
          some [.cancel ⟨7, 1⟩ 2], some [.reject ⟨7, 5⟩]] := by
  have hv : Valid sampleRun := by decide +kernel
  obtain ⟨s, outs, hrun, hb, ho⟩ := run_eq_reference 1 100 0 0 3 5 hv (by decide +kernel)
    (by decide +kernel) (by decide +kernel)
  exact ⟨s, outs, hrun, hb, ho.trans (by decide +kernel)⟩

end Naoto.Engine
