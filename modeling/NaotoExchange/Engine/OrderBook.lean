import NaotoExchange.Common.KeyMap
import NaotoExchange.Common.SkipList
import NaotoExchange.Engine.PriceLevel

/-!
# One side of the book

`order_book.hpp`. A side owns its price index, twice: a hash map from prices to levels and a skip
list of the levels in price order. The node pool, the level pool and the map from order ids to
nodes are shared by the two sides; they are the `Store` the functions take and return.

The types of the hash maps are parameters: `OM` is `OrderIdMap`, from order ids to nodes, `FM` is
`PriceLevelMap`, from prices to levels. The code's own are flat hash maps (`FlatStore`,
`FlatOrderBook`); with finite maps in their place the book is what it should be (`FiniteStore`,
`FiniteOrderBook`).
-/

namespace Naoto.Engine

open FixedWidth

/-- What the two sides share. -/
structure Store (OM : Type) where
  orderNodePool : OrderNodeMempool
  priceLevelPool : PriceLevelMempool
  orderMap : OM

/-- The store with the hash map of the source. -/
abbrev FlatStore := Store (FlatHashMap UInt64 Nat meOrderMapSize)

/-- The store with a finite map. -/
abbrev FiniteStore := Store (FiniteMap UInt64 Nat)

namespace Store

variable {OM : Type}

/-- A pointer's order node. -/
def node (st : Store OM) (x : Nat) : OrderNode := st.orderNodePool.storage x

/-- A pointer's price level. -/
def level (st : Store OM) (x : Nat) : PriceLevel := st.priceLevelPool.storage x

/-- The store with another order node at `x`. -/
def setNode (st : Store OM) (x : Nat) (n : OrderNode) : Store OM :=
  { st with orderNodePool := st.orderNodePool.set x n }

/-- The store with another level at `x`. -/
def setLevel (st : Store OM) (x : Nat) (lv : PriceLevel) : Store OM :=
  { st with priceLevelPool := st.priceLevelPool.set x lv }

variable [KeyMap OM UInt64 Nat]

/-- A node `x` taken from the pool (`pool` is what remains) for the order `o`, and registered under
its id. -/
def register (st : Store OM) (pool : OrderNodeMempool) (x : Nat) (o : Order) :
    Except Fault (Store OM) :=
  match KeyMap.addNode st.orderMap o.id32.toUInt64 x with
  | .error e => .error e
  | .ok orderMap =>
    .ok { st with orderNodePool := pool.set x ((pool.storage x).setOrder o), orderMap := orderMap }

/-- An id leaves the map of orders. -/
def forget (st : Store OM) (id : UInt32) : Except Fault (Store OM) :=
  match KeyMap.deleteNode st.orderMap id.toUInt64 with
  | .error e => .error e
  | .ok orderMap => .ok { st with orderMap := orderMap }

end Store

/-- The prices of a side, each with its level. -/
abbrev PriceLevelSkipList := SkipList Int64 Nat meSkipListNodePoolSize meSkipListMaxLevel

/-- One side of the book. -/
structure OrderBook (FM : Type) where
  fastMap : FM
  bestPricesMap : PriceLevelSkipList

/-- A side with the hash map of the source. -/
abbrev FlatOrderBook := OrderBook (FlatHashMap Int64 Nat meFastMapSize)

/-- A side with a finite map. -/
abbrev FiniteOrderBook := OrderBook (FiniteMap Int64 Nat)

namespace OrderBook

variable {OM FM : Type}

/-- `GetBestLevel`. -/
def getBestLevel (b : OrderBook FM) : Except Fault (Option Nat) := b.bestPricesMap.getHead

/-- A release whose failure is only logged. -/
def releaseNode (st : Store OM) (order : Nat) : Store OM :=
  { st with orderNodePool := (st.orderNodePool.release order).2 }

variable [KeyMap FM Int64 Nat]

/-- The constructor: an empty side. -/
def new (c : Compare) (seed : UInt64) : OrderBook FM :=
  ⟨KeyMap.empty, SkipList.new c seed⟩

/-- The branch of `AddLimitOrder` for a price that has no level yet: a level from the pool is
cleared and entered into both indexes. -/
def addPriceLevel (c : Compare) (b : OrderBook FM) (st : Store OM) (key : Int64) :
    Except Fault (Nat × OrderBook FM × Store OM) :=
  match st.priceLevelPool.acquire with
  | (none, _) => .error .terminate
  | (some curPrice, pool) =>
    match (pool.storage curPrice).clearPriceLevel st.orderNodePool with
    | .error e => .error e
    | .ok (lv, nodes) =>
      let st := { st with orderNodePool := nodes,
                          priceLevelPool := pool.set curPrice { lv with price := key } }
      match KeyMap.addNode b.fastMap key curPrice with
      | .error e => .error e
      | .ok fastMap =>
        match b.bestPricesMap.addNode c key curPrice with
        | .error e => .error e
        | .ok bestPricesMap => .ok (curPrice, ⟨fastMap, bestPricesMap⟩, st)

/-- `AddLimitOrder`: the level the order now rests in. -/
def addLimitOrder (c : Compare) (b : OrderBook FM) (st : Store OM) (order : Nat) :
    Except Fault (Nat × OrderBook FM × Store OM) :=
  let key := (st.node order).order.price
  let found : Except Fault (Nat × OrderBook FM × Store OM) :=
    match KeyMap.getVal b.fastMap key with
    | some curPrice => .ok (curPrice, b, st)
    | none => addPriceLevel c b st key
  match found with
  | .error e => .error e
  | .ok (curPrice, b, st) =>
    match (st.level curPrice).addOrder st.orderNodePool order with
    | .error e => .error e
    | .ok (lv, nodes) =>
      .ok (curPrice, b, { st with orderNodePool := nodes,
                                  priceLevelPool := st.priceLevelPool.set curPrice lv })

variable [KeyMap OM UInt64 Nat]

/-- `DeleteOrder`: the level the order rested in, or null when that level is gone. An order whose
price has no level on this side is released all the same. -/
def deleteOrder (c : Compare) (b : OrderBook FM) (st : Store OM) (order : Nat) :
    Except Fault (Option Nat × OrderBook FM × Store OM) :=
  let key := (st.node order).order.price
  match st.forget (st.node order).getId with
  | .error e => .error e
  | .ok st =>
    match KeyMap.getVal b.fastMap key with
    | none => .ok (none, b, releaseNode st order)
    | some curPrice =>
      let (empty, lv, nodes) := (st.level curPrice).deleteOrder st.orderNodePool order
      let st := { st with orderNodePool := nodes,
                          priceLevelPool := st.priceLevelPool.set curPrice lv }
      if empty then
        match KeyMap.deleteNode b.fastMap key with
        | .error e => .error e
        | .ok fastMap =>
          match b.bestPricesMap.deleteNode c key with
          | .error e => .error e
          | .ok bestPricesMap =>
            let st := { st with priceLevelPool := (st.priceLevelPool.release curPrice).2 }
            .ok (none, ⟨fastMap, bestPricesMap⟩, releaseNode st order)
      else .ok (some curPrice, b, releaseNode st order)

end OrderBook

end Naoto.Engine
