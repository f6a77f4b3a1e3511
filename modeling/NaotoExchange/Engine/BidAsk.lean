import NaotoExchange.Lib.Run
import NaotoExchange.Engine.OrderBook

/-!
# The matching engine

`bid_ask.hpp`: the book of one asset and the processing of one message. The two sides of the book
are mirror images, and so are the functions of the source that come in a buy and a sell version;
here they are one function of the side, with the versions of the source as its instances. The
pushed reports and book updates are collected in `outgoingOrders` and `outgoingBook`.

The loops of a sweep decide with `IsMarketable`; the decision is a parameter `mk` so that it can
be compared with another one. The engine's own is `isMarketable`, which reads the cached best
prices.

As in `OrderBook`, the types of the hash maps are parameters: the engine of the source is the one
over flat hash maps (`FlatBidAsk`).
-/

namespace Naoto.Engine

open FixedWidth

/-- The comparator of a side's price index. -/
def compareOf : OrderSide → Compare
  | .buy => .greater
  | .sell => .less

/-- The members that make up the outgoing streams: the asset, the sequence numbers and what has
been pushed. -/
structure Feed where
  marketAssetId : UInt32
  reportSequenceId : UInt32
  orderBookSequenceId : UInt32
  outgoingOrders : List OrderStateReport
  outgoingBook : List OrderBookUpdate

/-- The engine of one asset: both books, the shared store and what it has pushed. -/
structure BidAsk (OM FM : Type) extends Feed where
  marketPrice : Int64
  bestAskPrice : Int64
  bestBidPrice : Int64
  store : Store OM
  bid : OrderBook FM
  ask : OrderBook FM

/-- The engine with the hash maps of the source. -/
abbrev FlatBidAsk := BidAsk (FlatHashMap UInt64 Nat meOrderMapSize)
    (FlatHashMap Int64 Nat meFastMapSize)

/-- The engine with finite maps. -/
abbrev FiniteBidAsk := BidAsk (FiniteMap UInt64 Nat) (FiniteMap Int64 Nat)

/-! ## The legs of a trade -/

/-- A resting price is not worse than the limit of an incoming order on side `sd`. -/
def crosses : OrderSide → Int64 → Int64 → Bool
  | .buy, rest, limit => decide (rest ≤ limit)
  | .sell, rest, limit => decide (limit ≤ rest)

/-- What an order on side `sd` receives in a match. -/
def boughtLeg : OrderSide → UInt32 → Int64 → Int64
  | .buy, traded, _ => zeroExtend traded
  | .sell, traded, price => zeroExtend traded * price

/-- What an order on side `sd` gives away in a match, with its sign. -/
def soldLeg : OrderSide → UInt32 → Int64 → Int64
  | .buy, traded, price => -zeroExtend traded * price
  | .sell, traded, _ => -zeroExtend traded

/-- What an order on side `sd` reserves. -/
def reserve : OrderSide → UInt32 → Int64 → Int64
  | .buy, amount, price => zeroExtend amount * price
  | .sell, amount, _ => zeroExtend amount

/-! ## Outgoing messages -/

namespace Feed

/-- The asset an order on side `sd` receives, as the report's 16-bit field has it. -/
def boughtAsset (f : Feed) : OrderSide → UInt16
  | .buy => f.marketAssetId.toUInt16
  | .sell => 0

/-- A buyer gives cash, a seller the asset. -/
def soldAsset (f : Feed) : OrderSide → UInt16
  | .buy => 0
  | .sell => f.marketAssetId.toUInt16

/-- `FillReport` with the next sequence number, pushed to the report queue. -/
def pushReport (f : Feed) (boughtDelta soldDelta soldAttemptDelta : Int64)
    (clientId orderId : UInt32) (boughtAssetId soldAssetId : UInt16) (state : OrderState) :
    Feed :=
  { f with
    outgoingOrders := f.outgoingOrders ++
      [{ boughtDelta, soldDelta, soldAttemptDelta, sequenceId := f.reportSequenceId, clientId,
         orderId, tradeId := 0, boughtAssetId, soldAssetId, state }]
    reportSequenceId := f.reportSequenceId + 1 }

/-- `FillUpdate` with the next sequence number, pushed to the book-update queue. The depth is the
low half of the level's total. -/
def pushUpdate (f : Feed) (totalAmount : UInt64) (price : Int64) (side : OrderSide) : Feed :=
  { f with
    outgoingBook := f.outgoingBook ++
      [{ price, sequenceId := f.orderBookSequenceId, depth := totalAmount.toUInt32,
         assetId := f.marketAssetId.toUInt16, side }]
    orderBookSequenceId := f.orderBookSequenceId + 1 }

/-- A report about an order on side `sd` that moves nothing but a reservation. -/
def pushAttempt (f : Feed) (sd : OrderSide) (attempt : Int64) (o : Order) (state : OrderState) :
    Feed :=
  f.pushReport 0 0 attempt o.clientId o.id32 (f.boughtAsset sd) (f.soldAsset sd) state

/-- A fill's report for the owner of an order on side `sd` of which `left` remains. -/
def pushFill (f : Feed) (sd : OrderSide) (traded : UInt32) (price : Int64) (o : Order)
    (left : UInt32) : Feed :=
  f.pushReport (boughtLeg sd traded price) (soldLeg sd traded price) (soldLeg sd traded price)
    o.clientId o.id32 (f.boughtAsset sd) (f.soldAsset sd)
    (if 0 < left then .partialFill else .fill)

/-- The report that turns a cancel request down. -/
def pushReject (f : Feed) (o : Order) : Feed :=
  f.pushReport 0 0 0 o.clientId o.id32 0 0 .reject

end Feed

namespace BidAsk

variable {OM FM : Type}

/-- The state with other outgoing streams. -/
def setFeed (s : BidAsk OM FM) (f : Feed) : BidAsk OM FM := { s with toFeed := f }

/-- The engine with another store. -/
def setStore (s : BidAsk OM FM) (st : Store OM) : BidAsk OM FM := { s with store := st }

/-! ## Sides -/

/-- The book of a side. -/
def book (s : BidAsk OM FM) : OrderSide → OrderBook FM
  | .buy => s.bid
  | .sell => s.ask

/-- The engine with another book on that side. -/
def setBook (s : BidAsk OM FM) (b : OrderBook FM) : OrderSide → BidAsk OM FM
  | .buy => { s with bid := b }
  | .sell => { s with ask := b }

/-- The cached best price of a side. -/
def bestPrice (s : BidAsk OM FM) : OrderSide → Int64
  | .buy => s.bestBidPrice
  | .sell => s.bestAskPrice

/-- The engine with another cached price on that side. -/
def setBestPrice (s : BidAsk OM FM) (p : Int64) : OrderSide → BidAsk OM FM
  | .buy => { s with bestBidPrice := p }
  | .sell => { s with bestAskPrice := p }

/-- `std::max` and `std::min`: the cached best price of a side after an order at `p` joins it. -/
def improvedPrice (s : BidAsk OM FM) (p : Int64) : OrderSide → Int64
  | .buy => max s.bestBidPrice p
  | .sell => min s.bestAskPrice p

/-! ## Marketability -/

/-- `IsMarketable`: a market order always is, another one if it crosses the cached price. -/
def isMarketable (s : BidAsk OM FM) (o : Order) : Bool :=
  o.type == .market || crosses o.side (s.bestPrice o.side.opp) o.price

/-- Marketability decided from the best level that is really on the other side. -/
def isMarketableExact (s : BidAsk OM FM) (o : Order) : Bool :=
  o.type == .market ||
    match (s.book o.side.opp).getBestLevel with
    | .ok (some lv) => crosses o.side (s.store.level lv).price o.price
    | _ => false

/-! ## A match -/

/-- One match with the node `bestOffer` of the level `bestLevel`, up to the test whether the
offer is used up. The negated amount is an unsigned 32-bit value when it is widened for
`IncTotalAmount`. -/
def matchOffer (sd : OrderSide) (s : BidAsk OM FM) (o : Order) (totalLocked : Int64)
    (bestLevel bestOffer : Nat) : BidAsk OM FM × Order × Int64 :=
  let offer := (s.store.node bestOffer).order
  let traded := if o.amount < offer.amount then o.amount else offer.amount
  let orderAmount := o.amount - traded
  let offerAmount := offer.amount - traded
  let best := s.bestPrice sd.opp
  let level := (s.store.level bestLevel).incTotalAmount (-traded).toUInt64
  let s := { s with
    marketPrice := if 0 < traded then offer.price else s.marketPrice
    store := (s.store.setNode bestOffer ((s.store.node bestOffer).setAmount offerAmount)).setLevel
      bestLevel level }
  let f := s.toFeed.pushFill sd traded best o orderAmount
  let f := f.pushFill sd.opp traded best offer offerAmount
  let f := f.pushUpdate level.totalAmount best sd.opp
  (s.setFeed f, { o with amount := orderAmount }, totalLocked + soldLeg sd traded best)

/-! ## Calls that use the hash maps -/

section
variable [KeyMap OM UInt64 Nat] [KeyMap FM Int64 Nat]

/-- The constructor. The two sequence numbers come from the environment, the seeds of the skip
lists from the time stamp counter. -/
def construct (assetId : UInt32) (initialPrice : Int64) (reportSeq bookSeq : UInt32)
    (bidSeed askSeed : UInt64) : BidAsk OM FM where
  marketAssetId := assetId
  marketPrice := initialPrice
  bestAskPrice := Int64.maxValue
  bestBidPrice := Int64.minValue
  reportSequenceId := reportSeq
  orderBookSequenceId := bookSeq
  store :=
    { orderNodePool := .new ⟨none, none, ⟨0, 0, 0, 0, 0, 0, .limit, .buy, .execute⟩⟩
      priceLevelPool := .new .new
      orderMap := KeyMap.empty }
  bid := .new (compareOf .buy) bidSeed
  ask := .new (compareOf .sell) askSeed
  outgoingOrders := []
  outgoingBook := []

/-- The empty book over flat hash maps. -/
def newFlat (assetId : UInt32) (initialPrice : Int64) (reportSeq bookSeq : UInt32)
    (bidSeed askSeed : UInt64) : FlatBidAsk :=
  construct assetId initialPrice reportSeq bookSeq bidSeed askSeed

/-- The empty book over finite maps. -/
def new (assetId : UInt32) (initialPrice : Int64) (reportSeq bookSeq : UInt32)
    (bidSeed askSeed : UInt64) : FiniteBidAsk :=
  construct assetId initialPrice reportSeq bookSeq bidSeed askSeed

/-! ## Resting an order -/

/-- `AddBuyLimitOrder` and `AddSellLimitOrder`. An exhausted node pool drops the order. -/
def addSideLimitOrder (sd : OrderSide) (s : BidAsk OM FM) (o : Order) :
    Except Fault (BidAsk OM FM) :=
  match s.store.orderNodePool.acquire with
  | (none, _) => .ok s
  | (some toAdd, pool) =>
    match s.store.register pool toAdd o with
    | .error e => .error e
    | .ok st =>
      let best := s.improvedPrice o.price sd
      match (s.book sd).addLimitOrder (compareOf sd) st toAdd with
      | .error e => .error e
      | .ok (curLevel, b, st) =>
        let s := ((s.setStore st).setBook b sd).setBestPrice best sd
        let f := s.toFeed.pushAttempt sd (reserve sd o.amount o.price) o .add
        .ok (s.setFeed (f.pushUpdate (st.level curLevel).totalAmount (st.level curLevel).price sd))

/-- `AddBuyLimitOrder`. -/
def addBuyLimitOrder : BidAsk OM FM → Order → Except Fault (BidAsk OM FM) := addSideLimitOrder .buy

/-- `AddSellLimitOrder`. -/
def addSellLimitOrder : BidAsk OM FM → Order → Except Fault (BidAsk OM FM) :=
  addSideLimitOrder .sell

/-- `AddLimitOrder`. -/
def addLimitOrder (s : BidAsk OM FM) (o : Order) : Except Fault (BidAsk OM FM) :=
  match o.side with
  | .buy => addBuyLimitOrder s o
  | .sell => addSellLimitOrder s o

/-! ## Sweeping the other side -/

/-- The inner loop of a sweep: the offers of one level. -/
def fillLevel (mk : BidAsk OM FM → Order → Bool) (sd : OrderSide) (bestLevel : Nat) :
    Nat → BidAsk OM FM → Order → Int64 → Option Nat → Except Fault (BidAsk OM FM × Order × Int64)
  | 0, _, _, _, _ => .error .outOfFuel
  | _ + 1, s, o, totalLocked, none => .ok (s, o, totalLocked)
  | fuel + 1, s, o, totalLocked, some bestOffer =>
    if 0 < o.amount ∧ mk s o = true then
      let (s, o, totalLocked) := matchOffer sd s o totalLocked bestLevel bestOffer
      if (s.store.node bestOffer).order.amount = 0 then
        let next := (s.store.node bestOffer).next
        match (s.book sd.opp).deleteOrder (compareOf sd.opp) s.store bestOffer with
        | .error e => .error e
        | .ok (_, b, st) =>
          fillLevel mk sd bestLevel fuel ((s.setStore st).setBook b sd.opp) o totalLocked next
      else fillLevel mk sd bestLevel fuel s o totalLocked (some bestOffer)
    else .ok (s, o, totalLocked)

/-- The outer loop of a sweep: the levels of the other side, best first. -/
def fillLevels (mk : BidAsk OM FM → Order → Bool) (sd : OrderSide) :
    Nat → BidAsk OM FM → Order → Int64 → Except Fault (BidAsk OM FM × Order × Int64)
  | 0, _, _, _ => .error .outOfFuel
  | fuel + 1, s, o, totalLocked =>
    if 0 < o.amount ∧ mk s o = true then
      match (s.book sd.opp).getBestLevel with
      | .error e => .error e
      | .ok none => .ok (s, o, totalLocked)
      | .ok (some bestLevel) =>
        match (s.store.level bestLevel).head with
        | none => .ok (s, o, totalLocked)
        | some bestOffer =>
          let best := (s.store.level bestLevel).price
          let s := s.setBestPrice best sd.opp
          if crosses sd best o.price = true then
            match fillLevel mk sd bestLevel (meOrderNodePoolSize + 2) s o totalLocked
                (some bestOffer) with
            | .error e => .error e
            | .ok (s, o, totalLocked) => fillLevels mk sd fuel s o totalLocked
          else .ok (s, o, totalLocked)
    else .ok (s, o, totalLocked)

/-- `FillBuyOrder` and `FillSellOrder`: the sweep, and what becomes of a remainder. -/
def fillOrder (mk : BidAsk OM FM → Order → Bool) (sd : OrderSide) (s : BidAsk OM FM) (o : Order) :
    Except Fault (BidAsk OM FM) :=
  match fillLevels mk sd (mePriceLevelPoolSize + 2) s o (reserve sd o.amount o.price) with
  | .error e => .error e
  | .ok (s, o, totalLocked) =>
    if 0 < o.amount then
      match o.type with
      | .limit => addSideLimitOrder sd s o
      | .market =>
        .ok (s.setFeed (s.toFeed.pushAttempt sd (-totalLocked) o .cancel))
    else .ok s

/-- `FillBuyOrder`. -/
def fillBuyOrder : BidAsk OM FM → Order → Except Fault (BidAsk OM FM) := fillOrder isMarketable .buy

/-- `FillSellOrder`. -/
def fillSellOrder : BidAsk OM FM → Order → Except Fault (BidAsk OM FM) :=
  fillOrder isMarketable .sell

/-- `ExecuteMarketableOrder`, with the decision `mk` in the loops. -/
def executeMarketableOrder (mk : BidAsk OM FM → Order → Bool) (s : BidAsk OM FM) (o : Order) :
    Except Fault (BidAsk OM FM) :=
  match o.side with
  | .buy => fillOrder mk .buy s o
  | .sell => fillOrder mk .sell s o

/-- `executeOrder` with the decision `mk`. -/
def executeOrderWith (mk : BidAsk OM FM → Order → Bool) (s : BidAsk OM FM) (o : Order) :
    Except Fault (BidAsk OM FM) :=
  if mk s o = true then executeMarketableOrder mk s o else addLimitOrder s o

/-- `executeOrder`: what is marketable is matched, anything else rests. -/
def executeOrder : BidAsk OM FM → Order → Except Fault (BidAsk OM FM) :=
  executeOrderWith isMarketable

/-! ## Cancelling -/

/-- `CancelOrder<side>`. The request's `amount` is the id of the order to cancel; only the owner
is checked, not the side. -/
def cancelOrder (sd : OrderSide) (s : BidAsk OM FM) (o : Order) : Except Fault (BidAsk OM FM) :=
  let reject := s.setFeed (s.toFeed.pushReject o)
  match KeyMap.getVal s.store.orderMap o.amount.toUInt64 with
  | none => .ok reject
  | some toCancel =>
    let target := (s.store.node toCancel).order
    if target.clientId ≠ o.clientId then .ok reject
    else
      let s := s.setFeed
        (s.toFeed.pushAttempt sd (reserve sd target.amount target.price) target .cancel)
      match (s.book sd).deleteOrder (compareOf sd) s.store toCancel with
      | .error e => .error e
      | .ok (curLevel, b, st) =>
        let total := match curLevel with
          | some lv => (st.level lv).totalAmount
          | none => 0
        .ok (((s.setStore st).setBook b sd).setFeed (s.toFeed.pushUpdate total target.price sd))

/-! ## The execution loop -/

/-- What one message makes the engine push. -/
structure Out where
  reports : List OrderStateReport
  updates : List OrderBookUpdate
  deriving DecidableEq

/-- The body of `MarketExecutionLoop`. -/
def process (s : BidAsk OM FM) (o : Order) : Except Fault (BidAsk OM FM) :=
  match o.action with
  | .execute => executeOrder s o
  | .cancel =>
    match o.side with
    | .buy => cancelOrder .buy s o
    | .sell => cancelOrder .sell s o

/-- One message, with what it pushes. -/
def step (s : BidAsk OM FM) (o : Order) : Except Fault (BidAsk OM FM × Out) :=
  match process (s.setFeed { s.toFeed with outgoingOrders := [], outgoingBook := [] }) o with
  | .error e => .error e
  | .ok s => .ok (s, ⟨s.outgoingOrders, s.outgoingBook⟩)

/-- The engine over a sequence of messages. -/
def run (s : BidAsk OM FM) (msgs : List Order) : Except Fault (BidAsk OM FM × List Out) :=
  Run.run step s msgs

end

/-! ## Reading the book -/

/-- The chain of `next` pointers from a node. -/
def walkNodes (st : Store OM) : Nat → Option Nat → List Nat
  | 0, _ => []
  | _, none => []
  | fuel + 1, some n => n :: walkNodes st fuel (st.node n).next

/-- The level-0 chain of a skip list up to its tail. -/
def walkLevels (sl : PriceLevelSkipList) : Nat → Option Nat → List Nat
  | 0, _ => []
  | _, none => []
  | fuel + 1, some x =>
    if x = sl.tail then [] else x :: walkLevels sl fuel ((sl.node x).forward 0)

/-- The prices in a side's skip list, best first. -/
def indexPrices (s : BidAsk OM FM) (sd : OrderSide) : List Int64 :=
  let sl := (s.book sd).bestPricesMap
  (walkLevels sl meSkipListNodePoolSize ((sl.node sl.head).forward 0)).map fun x => (sl.node x).key

/-- The levels linked on a side, best first. -/
def levels (s : BidAsk OM FM) (sd : OrderSide) : List Nat :=
  let sl := (s.book sd).bestPricesMap
  (walkLevels sl meSkipListNodePoolSize ((sl.node sl.head).forward 0)).filterMap fun x =>
    (sl.node x).value

/-- The nodes linked in a level, oldest first. -/
def nodesOf (s : BidAsk OM FM) (lv : Nat) : List Nat :=
  walkNodes s.store (meOrderNodePoolSize + 1) (s.store.level lv).head

/-- The orders resting on a side, in priority order. -/
def restingOrders (s : BidAsk OM FM) (sd : OrderSide) : List Order :=
  (s.levels sd).flatMap fun lv => (s.nodesOf lv).map fun n => (s.store.node n).order

end BidAsk

end Naoto.Engine
