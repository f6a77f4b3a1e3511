import NaotoExchange.Lib.FixedWidth

/-!
# Orders, reports and book updates

The wire messages of `order.hpp`, `order_state_report.hpp` and `order_book_update.hpp` in the
default build (no `NAOTO_PERF` timestamps); padding is left out.
-/

namespace Naoto

open FixedWidth

/-- What happens to the part of an order that finds no match: it rests, or it is cancelled. -/
inductive OrderType where
  | limit
  | market
  deriving DecidableEq, Repr

/-- The two sides of the market, each with its book. -/
inductive OrderSide where
  | buy
  | sell
  deriving DecidableEq, Repr

/-- The other side. -/
def OrderSide.opp : OrderSide → OrderSide
  | .buy => .sell
  | .sell => .buy

@[simp] theorem OrderSide.opp_opp (sd : OrderSide) : sd.opp.opp = sd := by cases sd <;> rfl

@[simp] theorem OrderSide.opp_ne (sd : OrderSide) : sd.opp ≠ sd := by cases sd <;> decide

@[simp] theorem OrderSide.ne_opp (sd : OrderSide) : sd ≠ sd.opp := by cases sd <;> decide

theorem OrderSide.eq_or_eq_opp (sd sd' : OrderSide) : sd' = sd ∨ sd' = sd.opp := by
  cases sd <;> cases sd' <;> simp [OrderSide.opp]

instance decidableForallSides {P : OrderSide → Prop} [∀ sd, Decidable (P sd)] :
    Decidable (∀ sd, P sd) :=
  decidable_of_iff (P .buy ∧ P .sell)
    ⟨fun h sd => match sd with
      | .buy => h.1
      | .sell => h.2, fun h => ⟨h _, h _⟩⟩

/-- The `Side` of an order as it lies in memory, an `enum class OrderSide : uint8_t`: nobody checks
it on the way from the client to the engine, so any byte can stand there. -/
structure SideByte where
  byte : UInt8
  deriving DecidableEq, Repr

namespace SideByte

/-- `OrderSide::BUY`. -/
def buy : SideByte := ⟨0⟩

/-- `OrderSide::SELL`. -/
def sell : SideByte := ⟨1⟩

/-- The byte is one of the two enumerators. -/
def Named (s : SideByte) : Prop := s = buy ∨ s = sell

instance (s : SideByte) : Decidable s.Named := inferInstanceAs (Decidable (_ ∨ _))

/-- The side that the engine takes it for: it only ever asks whether it is `BUY`. -/
def side (s : SideByte) : OrderSide := if s = buy then .buy else .sell

end SideByte

/-- What the message asks for: to match the order, or to cancel one that rests. -/
inductive OrderAction where
  | execute
  | cancel
  deriving DecidableEq, Repr

/-- A message of a client, on its way through the gateway to the engine of its asset. -/
structure Order where
  price : Int64
  orderId : UInt64
  clientOrderId : UInt32
  clientId : UInt32
  /-- The quantity; in a cancel request, the id of the order to cancel. -/
  amount : UInt32
  assetId : UInt16
  type : OrderType
  sideByte : SideByte
  action : OrderAction
  deriving DecidableEq, Repr

/-- The side on which the engine matches the order. -/
def Order.side (o : Order) : OrderSide := o.sideByte.side

@[simp] theorem Order.side_withAmount (o : Order) (amount : UInt32) :
    ({ o with amount } : Order).side = o.side := rfl

/-- The low 32 bits of the order id: the id the engine and its reports know the order by. -/
def Order.id32 (o : Order) : UInt32 := o.orderId.toUInt32

/-- What a report says of its order. -/
inductive OrderState where
  | fill
  | partialFill
  | cancel
  | reject
  | add
  deriving DecidableEq, Repr

/-- What an event in the engine changes in the account of one client. -/
structure OrderStateReport where
  boughtDelta : Int64
  soldDelta : Int64
  soldAttemptDelta : Int64
  sequenceId : UInt32
  clientId : UInt32
  orderId : UInt32
  tradeId : UInt32
  boughtAssetId : UInt16
  soldAssetId : UInt16
  state : OrderState
  deriving DecidableEq, Repr

/-- What rests at a price after an event. -/
structure OrderBookUpdate where
  price : Int64
  sequenceId : UInt32
  depth : UInt32
  assetId : UInt16
  side : OrderSide
  deriving DecidableEq, Repr

end Naoto
