import NaotoExchange.Common.Conf
import NaotoExchange.Common.Order
import NaotoExchange.Common.StoragePool

/-!
# Price levels

`order_node.hpp` and `price_level.hpp`: the orders resting at one price, an intrusive FIFO list
of pool nodes. The functions take and return the level together with the node pool its links
live in.
-/

namespace Naoto.Engine

/-- An order in the list of its level; the links are pool indices. -/
structure OrderNode where
  prev : Option Nat
  next : Option Nat
  order : Order

/-- The pool that both sides take their nodes from. -/
abbrev OrderNodeMempool := SingleThreadedStoragePool OrderNode meOrderNodePoolSize

/-- `GetId`: the node's order id, cut to 32 bits by the return type. -/
def OrderNode.getId (n : OrderNode) : UInt32 := n.order.id32

/-- The node with another order; its links stay. -/
def OrderNode.setOrder (n : OrderNode) (o : Order) : OrderNode := { n with order := o }

/-- The node with what is left of its order. -/
def OrderNode.setAmount (n : OrderNode) (a : UInt32) : OrderNode :=
  { n with order := { n.order with amount := a } }

/-- The orders at one price: a doubly linked list with its counters. -/
structure PriceLevel where
  price : Int64
  size : UInt64
  totalAmount : UInt64
  head : Option Nat
  tail : Option Nat

/-- The pool that both sides take their levels from. -/
abbrev PriceLevelMempool := SingleThreadedStoragePool PriceLevel mePriceLevelPoolSize

namespace PriceLevel

/-- The default constructor. -/
def new : PriceLevel := ⟨0, 0, 0, none, none⟩

/-- The counters after `order` has been linked in. -/
def countOrder (lv : PriceLevel) (p : OrderNodeMempool) (order : Nat) : PriceLevel :=
  { lv with size := lv.size + 1,
            totalAmount := lv.totalAmount + (p.storage order).order.amount.toUInt64 }

/-- `AddOrder`: the node goes to the end of the list. -/
def addOrder (lv : PriceLevel) (p : OrderNodeMempool) (order : Nat) :
    Except Fault (PriceLevel × OrderNodeMempool) :=
  match lv.head with
  | none =>
    let p := p.set order { p.storage order with prev := none, next := none }
    .ok ({ lv with head := some order, tail := some order }.countOrder p order, p)
  | some _ =>
    match lv.tail with
    | none => .error .nullDeref
    | some tail =>
      let p := p.set tail { p.storage tail with next := some order }
      let p := p.set order { p.storage order with prev := some tail, next := none }
      .ok ({ lv with tail := some order }.countOrder p order, p)

/-- The first branching of `DeleteOrder`: the node in front of `order`, or the level's head, now
leads to the node behind it. -/
def joinFront (lv : PriceLevel) (p : OrderNodeMempool) (order : Nat) :
    PriceLevel × OrderNodeMempool :=
  match (p.storage order).prev with
  | some prev => (lv, p.set prev { p.storage prev with next := (p.storage order).next })
  | none => ({ lv with head := (p.storage order).next }, p)

/-- The second branching of `DeleteOrder`: the same from behind. -/
def joinBack (lv : PriceLevel) (p : OrderNodeMempool) (order : Nat) :
    PriceLevel × OrderNodeMempool :=
  match (p.storage order).next with
  | some next => (lv, p.set next { p.storage next with prev := (p.storage order).prev })
  | none => ({ lv with tail := (p.storage order).prev }, p)

/-- `DeleteOrder`: the result says whether the list is now empty. The node is assumed to be in
the list. -/
def deleteOrder (lv : PriceLevel) (p : OrderNodeMempool) (order : Nat) :
    Bool × PriceLevel × OrderNodeMempool :=
  let lv := { lv with size := lv.size - 1,
                      totalAmount := lv.totalAmount - (p.storage order).order.amount.toUInt64 }
  let (lv, p) := lv.joinFront p order
  let (lv, p) := lv.joinBack p order
  (lv.size == 0, lv, p)

/-- `PopOrder`: the oldest node is taken out, and is the caller's to release. -/
def popOrder (lv : PriceLevel) (p : OrderNodeMempool) :
    Option Nat × PriceLevel × OrderNodeMempool :=
  match lv.head with
  | none => (none, lv, p)
  | some res =>
    let lv := { lv with head := (p.storage res).next }
    let (lv, p) :=
      match lv.head with
      | some head => (lv, p.set head { p.storage head with prev := none })
      | none => ({ lv with tail := none }, p)
    (some res, { lv with size := lv.size - 1,
                         totalAmount := lv.totalAmount - (p.storage res).order.amount.toUInt64 }, p)

/-- The loop of `ClearPriceLevel`, which gives the nodes back. -/
def releaseNodes : Nat → Option Nat → OrderNodeMempool → Except Fault OrderNodeMempool
  | _, none, p => .ok p
  | 0, some _, _ => .error .outOfFuel
  | fuel + 1, some curNode, p =>
    match p.release curNode with
    | (true, p') => releaseNodes fuel (p.storage curNode).next p'
    | (false, _) => .error .terminate

/-- `ClearPriceLevel`. A full pool refuses a release, so the loop makes at most as many rounds
as the pool has nodes. -/
def clearPriceLevel (lv : PriceLevel) (p : OrderNodeMempool) :
    Except Fault (PriceLevel × OrderNodeMempool) :=
  match releaseNodes (meOrderNodePoolSize + 1) lv.head p with
  | .error e => .error e
  | .ok p => .ok ({ lv with size := 0, totalAmount := 0, head := none, tail := none }, p)

/-- `IncTotalAmount`: the argument is added modulo `2 ^ 64`. -/
def incTotalAmount (lv : PriceLevel) (amountDelta : UInt64) : PriceLevel :=
  { lv with totalAmount := lv.totalAmount + amountDelta }

end PriceLevel

end Naoto.Engine
