import NaotoExchange.Gateway.ClientMessageSender

/-!
# The order router

`order_router.hpp` without its set-up: `consumeOrder` for one order after the other. The way to the
engines is a parameter (`Link`): the shared-memory queue (`sharedMemory`), or one connection per
asset with a resend buffer (`tcp`). The values that the router reads while it handles an order (the
published state of the client, the slots of the engines, the answers of `send` or `TryPush`) come
with the order. An asset beyond `MaxAssets` is undefined behaviour in the source; here every asset
has a slot. The router's own confirmation buffers are only ever cleared and are left out.
-/

namespace Naoto.Gateway

open FixedWidth SendLoop

/-! ## Orders as bytes -/

def OrderType.code : OrderType → UInt8
  | .limit => 0
  | .market => 1

def OrderAction.code : OrderAction → UInt8
  | .execute => 0
  | .cancel => 1

/-- An order as it lies in a batch. -/
structure PaddedOrder extends Order where
  padding : Fin 7 → UInt8
  deriving DecidableEq

/-- The packed struct in memory. -/
def PaddedOrder.bytes (o : PaddedOrder) : List UInt8 :=
  littleEndian 8 o.price.toUInt64.toNat ++ littleEndian 8 o.orderId.toNat ++
    littleEndian 4 o.clientOrderId.toNat ++ littleEndian 4 o.clientId.toNat ++
    littleEndian 4 o.amount.toNat ++ littleEndian 2 o.assetId.toNat ++
    [OrderType.code o.type, o.sideByte.byte, OrderAction.code o.action] ++ List.ofFn o.padding

theorem PaddedOrder.length_bytes (o : PaddedOrder) : o.bytes.length = 40 := by
  simp [PaddedOrder.bytes]

/-! ## The two ways to the engines -/

/-- `H` is the state of the way to the engines, `E` what it answers while an order is handled. -/
structure Link (H E : Type) where
  /-- There is an engine for the order. -/
  up : E → Bool
  /-- Whether the order, of a batch from this descriptor, was handed on. -/
  handOff : H → UInt32 → PaddedOrder → E → H × Bool

/-- The queue in shared memory: the orders pushed. The answer says whether it is full. -/
def sharedMemory : Link (List PaddedOrder) Bool where
  up := fun _ => true
  handOff := fun queue _ o full => if full then (queue, false) else (queue ++ [o], true)

/-- A descriptor with the number of times its slot changed. -/
structure VersionedFd where
  fd : Int32
  gen : UInt32
  deriving DecidableEq, Repr

/-- The connections to the engines with their resend buffers. -/
structure EngineLinks where
  orderBuffer : UInt16 → BytesBuffer
  orderOffset : UInt64
  /-- Every call of `send` that took something: the descriptor and the bytes. -/
  writes : List (Int32 × List UInt8)

namespace EngineLinks

/-- Nothing was sent, and nothing waits. -/
def new (memory : UInt16 → UInt64 → UInt8) : EngineLinks where
  orderBuffer := fun a => .new (memory a)
  orderOffset := 0
  writes := []

/-- The slot of the asset when the order is taken up and after it was sent, and the answers of
`send`. -/
structure Answer where
  engine : VersionedFd
  engineAfter : VersionedFd
  results : List SendResult
  deriving DecidableEq

/-- `sizeof(OrderResendBuffer)` without its count. -/
def orderBufferSize : UInt64 := 640

/-- `DrainBuffer<Order>` when it does not get through: `std::div` of the count as an `int`. -/
def keepRest (b : BytesBuffer) (totalSent : UInt64) : BytesBuffer × UInt64 :=
  let total := totalSent.toUInt32.toInt32
  let sentOrders := total / 40
  let sentBytes := total % 40
  (b.shift (sentOrders.toInt64.toUInt64 * 40), sentBytes.toInt64.toUInt64)

/-- `DrainBuffer`, which is given the descriptor of the client, and `SendOrder` or `Add`. -/
def handOff (h : EngineLinks) (fd : UInt32) (o : PaddedOrder) (e : Answer) : EngineLinks × Bool :=
  let b := h.orderBuffer o.assetId
  let d := b.drainLoop h.orderOffset e.results
  let drained := d.writes.map fun w => (fd.toInt32, w)
  if d.drained then
    let s := sendAll o.bytes d.rest
    let writes := h.writes ++ drained ++ s.writes.map fun w => (e.engine.fd, w)
    if s.unsent = [] then
      ({ orderBuffer := Function.update h.orderBuffer o.assetId b.clear, orderOffset := 0, writes },
        e.engineAfter = e.engine)
    else
      ({ orderBuffer := Function.update h.orderBuffer o.assetId (b.clear.add 40)
         orderOffset := UInt64.ofNat (40 - s.unsent.length), writes }, false)
  else
    let (b, orderOffset) := keepRest b d.totalSent
    ({ orderBuffer := Function.update h.orderBuffer o.assetId
         (if b.canAdd orderBufferSize 40 then b.add 40 else b)
       orderOffset, writes := h.writes ++ drained }, false)

end EngineLinks

/-- One connection per asset; an asset without an engine has the descriptor -1. -/
def tcp : Link EngineLinks EngineLinks.Answer where
  up := fun e => e.engine.fd ≠ -1
  handOff := EngineLinks.handOff

/-! ## The router -/

/-- An order of a batch from the descriptor `fd`, the state of the client that is read for it, and
what the way to the engines answers. -/
structure RouterInput (E : Type) where
  fd : UInt32
  auth : UInt8
  order : PaddedOrder
  state : ClientState
  answer : E

/-- The router. Its count of orders gives the order ids. -/
structure OrderRouter (H : Type) where
  localFunds : UInt32 → LocalFunds
  ordersCount : UInt64
  link : H
  outgoingConfirmation : List ClientMessage

namespace OrderRouter

variable {H E : Type} (L : Link H E) (gatewayId : UInt16) (r : OrderRouter H) (x : RouterInput E)

/-- The gateway and a 48-bit counter; `OrderConfirmation` has room for 32 bits of it. -/
def nextOrderId : UInt32 :=
  ((gatewayId.toUInt64 <<< 48) ||| (r.ordersCount &&& (((1 : UInt64) <<< 48) - 1))).toUInt32

/-- The status of the confirmation, and the local funds of the descriptor. -/
def screen : OrderConfirmationStatus × LocalFunds :=
  if L.up x.answer then checkOrderRisk x.state (r.localFunds x.fd) x.order.toOrder x.auth
  else (.technicalFailure, r.localFunds x.fd)

/-- The order with its new id. -/
def numbered : PaddedOrder := { x.order with orderId := (r.nextOrderId gatewayId).toUInt64 }

/-- The confirmation for the order, with the id that it has just got. -/
def message : ClientMessage where
  fd := x.fd
  confirmation :=
    { orderId := r.nextOrderId gatewayId
      clientOrderId := x.order.clientOrderId
      status := (r.screen L x).1 }

/-- The body of the loop of `consumeOrder`. -/
def route : OrderRouter H :=
  let checked := r.screen L x
  let confirmed := r.outgoingConfirmation ++ [r.message L gatewayId x]
  let localFunds := Function.update r.localFunds x.fd checked.2
  if checked.1 = .accepted then
    let h := L.handOff r.link x.fd (r.numbered gatewayId x) x.answer
    { localFunds, ordersCount := r.ordersCount + 1, link := h.1
      outgoingConfirmation := if h.2 then confirmed else r.outgoingConfirmation }
  else { r with localFunds, ordersCount := r.ordersCount + 1, outgoingConfirmation := confirmed }

end OrderRouter

end Naoto.Gateway
