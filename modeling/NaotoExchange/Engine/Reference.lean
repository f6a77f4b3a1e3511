import NaotoExchange.Engine.BidAsk

/-!
# A price-time-priority engine on lists

What the matching engine is for, without its memory, its price index and its cached prices: each
side of the book is one list of orders, best price first and oldest first within a price. This is
a specification, not a translation; `Engine/Proof` shows that `BidAsk` computes it.

An incoming order trades with the head of the opposite list, at the head's price, as long as that
price is not worse than its own limit. The remainder of a limit order queues behind every order
that is not worse, the remainder of a market order is cancelled.
-/

namespace Naoto.Engine

open FixedWidth

namespace Reference

/-- The orders resting on each side, in priority order. -/
abbrev Book := OrderSide → List Order

/-- Nothing rests. -/
def empty : Book := fun _ => []

/-- What happens while a message is processed. The orders are those after the event. -/
inductive Event where
  /-- `aggressor`, on side `sd`, and `resting` trade `quantity` at the latter's price; `depth` is
  what now rests at that price. -/
  | trade (sd : OrderSide) (aggressor resting : Order) (quantity depth : UInt32)
  | add (o : Order) (depth : UInt32)
  /-- The remainder of a market order is cancelled; `locked` is left of its reservation. -/
  | expire (o : Order) (locked : Int64)
  | cancel (o : Order) (depth : UInt32)
  | reject (o : Order)
  deriving DecidableEq

/-- The quantity resting at a price, modulo `2 ^ 32`. -/
def depthAt (price : Int64) (q : List Order) : UInt32 :=
  q.foldr (fun o a => if o.price = price then o.amount + a else a) 0

/-- An order queues behind every order that is not worse. -/
def enqueue (sd : OrderSide) (o : Order) : List Order → List Order
  | [] => [o]
  | r :: q => if (compareOf sd).comp o.price r.price then o :: r :: q else r :: enqueue sd o q

/-- What two orders trade. -/
def traded (o r : Order) : UInt32 := if o.amount < r.amount then o.amount else r.amount

/-- An order that has lost `t` of its amount. -/
def less (o : Order) (t : UInt32) : Order := { o with amount := o.amount - t }

/-- What a sweep leaves: the opposite queue, the order, what is left of its reservation, and what
happened. -/
structure Swept where
  queue : List Order
  order : Order
  locked : Int64
  events : List Event

/-- An order on side `sd` trades with the heads of the opposite queue. -/
def sweep (sd : OrderSide) : List Order → Order → Int64 → Swept
  | [], o, locked => ⟨[], o, locked, []⟩
  | r :: q, o, locked =>
    if 0 < o.amount ∧ crosses sd r.price o.price = true then
      let t := traded o r
      let o' := less o t
      let r' := less r t
      let locked' := locked + soldLeg sd t r.price
      let e := Event.trade sd o' r' t (depthAt r.price (r' :: q))
      if r'.amount = 0 then
        let w := sweep sd q o' locked'
        { w with events := e :: w.events }
      else ⟨r' :: q, o', locked', [e]⟩
    else ⟨r :: q, o, locked, []⟩

/-- A limit order comes to rest. -/
def rest (b : Book) (o : Order) : Book × List Event :=
  let q := enqueue o.side o (b o.side)
  (Function.update b o.side q, [.add o (depthAt o.price q)])

/-- What becomes of an order after its sweep. -/
def settle (b : Book) (w : Swept) : Book × List Event :=
  if 0 < w.order.amount then
    match w.order.type with
    | .limit => rest b w.order
    | .market => (b, [.expire w.order w.locked])
  else (b, [])

/-- The order is matched, and what is left of it rests or expires. -/
def execute (b : Book) (o : Order) : Book × List Event :=
  let w := sweep o.side (b o.side.opp) o (reserve o.side o.amount o.price)
  let (b, es) := settle (Function.update b o.side.opp w.queue) w
  (b, w.events ++ es)

/-- The resting order a cancel request names, if its sender owns it. -/
def target (b : Book) (o : Order) : Option Order :=
  (b .buy ++ b .sell).find? fun r => r.id32 = o.amount && r.clientId = o.clientId

/-- A cancel removes the order it names if that rests and belongs to the sender, and is rejected
otherwise. -/
def cancel (b : Book) (o : Order) : Book × List Event :=
  match target b o with
  | none => (b, [.reject o])
  | some r =>
    let q := (b r.side).filter fun x => x.id32 ≠ r.id32
    (Function.update b r.side q, [.cancel r (depthAt r.price q)])

/-- What the reference engine does with a message. -/
def process (b : Book) (o : Order) : Book × List Event :=
  match o.action with
  | .execute => execute b o
  | .cancel => cancel b o

/-- The book and, message by message, the events after a sequence of messages. -/
def run (b : Book) (msgs : List Order) : Book × List (List Event) :=
  msgs.foldl (fun r o => ((process r.1 o).1, r.2 ++ [(process r.1 o).2])) (b, [])

end Reference

/-- What an event makes the engine push. -/
def Feed.emit (f : Feed) : Reference.Event → Feed
  | .trade sd a r quantity depth =>
    ((f.pushFill sd quantity r.price a a.amount).pushFill sd.opp quantity r.price r
      r.amount).pushUpdate depth.toUInt64 r.price sd.opp
  | .add o depth =>
    (f.pushAttempt o.side (reserve o.side o.amount o.price) o .add).pushUpdate depth.toUInt64
      o.price o.side
  | .expire o locked => f.pushAttempt o.side (-locked) o .cancel
  | .cancel o depth =>
    (f.pushAttempt o.side (reserve o.side o.amount o.price) o .cancel).pushUpdate depth.toUInt64
      o.price o.side
  | .reject o => f.pushReject o

end Naoto.Engine
