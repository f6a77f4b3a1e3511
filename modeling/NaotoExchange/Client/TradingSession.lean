import NaotoExchange.Common.Proof.EpollServer
import NaotoExchange.Gateway.OrderRouter
import NaotoExchange.Lib.Packed
import NaotoExchange.Lib.Run

/-!
# A trading session of the dashboard

`trading_session.hpp` on the structs of `wire_formats.hpp`: the login, orders and cancels as the
user sends them, the goodbye, and the thread that reads confirmations.

* `run_wrote`: as long as no call of `send` fails, the bytes written are a login, the orders that
  were sent, and a goodbye if the user has disconnected.
* `run_reads`: the confirmations are what came in, cut into messages, however `recv` cuts it.
-/

namespace Naoto.MarketClient

open Packed Packed.Format Gateway SendLoop Frames

/-! ## `wire_formats.hpp` -/

/-- The first message of a session. -/
structure ClientRequest where
  requestType : UInt8
  clientId : UInt32
  key : Account.Key
  deriving DecidableEq

/-- `ClientRequest`, 37 bytes. -/
def clientRequest : Format ClientRequest :=
  (u8.pair (u32.pair (u8.array 32))).map
    ⟨fun p => ⟨p.1, p.2.1, p.2.2⟩, fun r => (r.requestType, r.clientId, r.key), fun _ => rfl,
      fun _ => rfl⟩

theorem mem_orderTypes (t : OrderType) : t ∈ [OrderType.limit, .market] := by cases t <;> decide

theorem mem_orderActions (a : OrderAction) : a ∈ [OrderAction.execute, .cancel] := by
  cases a <;> decide

theorem orderTypeCode_injective : Function.Injective fun t => (OrderType.code t).toNat := by
  intro t t' h
  cases t <;> cases t' <;> first | rfl | (revert h; decide)

theorem orderActionCode_injective : Function.Injective fun a => (OrderAction.code a).toNat := by
  intro a a' h
  cases a <;> cases a' <;> first | rfl | (revert h; decide)

/-- A byte that is no enumerator is not decoded. -/
def orderType : Format OrderType :=
  enum (n := 1) ⟨fun t => (OrderType.code t).toNat, [.limit, .market], mem_orderTypes,
    orderTypeCode_injective, fun t => (OrderType.code t).toNat_lt⟩

/-- Any byte is a `Side`. -/
def orderSide : Format SideByte := u8.map ⟨SideByte.mk, SideByte.byte, fun _ => rfl, fun _ => rfl⟩

def orderAction : Format OrderAction :=
  enum (n := 1) ⟨fun a => (OrderAction.code a).toNat, [.execute, .cancel], mem_orderActions,
    orderActionCode_injective, fun a => (OrderAction.code a).toNat_lt⟩

/-- `Order`, 40 bytes. -/
def order : Format PaddedOrder :=
  (i64.pair (u64.pair (u32.pair (u32.pair (u32.pair (u16.pair (orderType.pair (orderSide.pair
    (orderAction.pair (u8.array 7)))))))))).map
    ⟨fun ⟨price, orderId, clientOrderId, clientId, amount, assetId, type, sideByte, action, pad⟩ =>
        { price, orderId, clientOrderId, clientId, amount, assetId, type, sideByte, action,
          padding := pad },
      fun o => (o.price, o.orderId, o.clientOrderId, o.clientId, o.amount, o.assetId, o.type,
        o.sideByte, o.action, o.padding),
      fun _ => rfl, fun _ => rfl⟩

/-- `OrderConfirmation`, with the value of the enumerator as it came. -/
structure Confirmation where
  orderId : UInt32
  clientOrderId : UInt32
  status : UInt8
  deriving DecidableEq, Repr

/-- `OrderConfirmation`, 9 bytes. -/
def confirmation : Format Confirmation :=
  (u32.pair (u32.pair u8)).map
    ⟨fun p => ⟨p.1, p.2.1, p.2.2⟩, fun c => (c.orderId, c.clientOrderId, c.status), fun _ => rfl,
      fun _ => rfl⟩

example : clientRequest.size = 37 ∧ order.size = 40 ∧ confirmation.size = 9 := ⟨rfl, rfl, rfl⟩

theorem littleEndian_one (b : UInt8) : FixedWidth.littleEndian 1 b.toNat = [b] := by
  simp [FixedWidth.littleEndian]

theorem encode_array (f : Format UInt8) (h : ∀ b, f.encode b = [b]) (n : Nat) (v : Fin n → UInt8) :
    (f.array n).encode v = List.ofFn v := by
  induction n with
  | zero => rfl
  | succ n ih =>
    rw [List.ofFn_succ]
    exact congrArg₂ (· ++ ·) (h _) (ih _)

theorem encode_order (o : PaddedOrder) : order.encode o = o.bytes := by
  have hpadding := encode_array u8 littleEndian_one 7 o.padding
  have htype : orderType.encode o.type = [OrderType.code o.type] := littleEndian_one _
  have hside : orderSide.encode o.sideByte = [o.sideByte.byte] := littleEndian_one _
  have haction : orderAction.encode o.action = [OrderAction.code o.action] := littleEndian_one _
  show i64.encode o.price ++
    (u64.encode o.orderId ++ (u32.encode o.clientOrderId ++ (u32.encode o.clientId ++
    (u32.encode o.amount ++ (u16.encode o.assetId ++
      (orderType.encode o.type ++ (orderSide.encode o.sideByte ++
    (orderAction.encode o.action ++ (u8.array 7).encode o.padding)))))))) = o.bytes
  rw [hpadding, htype, hside, haction]
  simp [PaddedOrder.bytes, i64, u64, u32, u16, Format.number]

/-- And it reads a confirmation as the gateway lays it out. -/
theorem encode_confirmation (c : OrderConfirmation) :
    confirmation.encode ⟨c.orderId, c.clientOrderId, c.status.code⟩ = c.bytes := by
  have hstatus : u8.encode c.status.code = [c.status.code] := littleEndian_one _
  show u32.encode c.orderId ++ (u32.encode c.clientOrderId ++ u8.encode c.status.code) = c.bytes
  rw [hstatus, ← List.append_assoc]
  rfl

/-! ## `TradingSession` -/

/-- What the dashboard shows of the session. -/
inductive SessionState where
  | disconnected
  | connecting
  | connected
  | failed
  deriving DecidableEq, Repr

/-- A session with its socket. What went over the socket is recorded. -/
structure TradingSession where
  state : SessionState
  /-- `fd_` is not -1. -/
  opened : Bool
  running : Bool
  clientId : UInt32
  key : Account.Key
  lastError : String
  /-- What the calls of `send` took. -/
  written : List UInt8
  /-- The orders and cancels for which `send_order` and `send_cancel_order` returned `true`. -/
  sent : List PaddedOrder
  /-- What comes from the gateway and `recv` has not returned. -/
  unread : List UInt8
  /-- The bytes that `recv_all` has of the next confirmation. -/
  got : List UInt8
  confirmations : List (Option Confirmation)

namespace TradingSession

/-- `send_all`: any error ends it. -/
def sendAll (data : List UInt8) (rs : List SendResult) : Sent UInt8 :=
  SendLoop.sendAll data (rs.map fun r => if r = .interrupted then .again else r)

/-- The ways `connect` can go. -/
inductive Connecting where
  | socketFailed
  | invalidHost (host : String)
  | connectFailed (error : String)
  | connected (sends : List SendResult)

/-- `connect`, on a new session, to a gateway that will send `incoming`. -/
def connect (clientId : UInt32) (key : Account.Key) (incoming : List UInt8) :
    Connecting → TradingSession
  | .socketFailed => ⟨.failed, false, false, clientId, key, "socket() failed", [], [], [], [], []⟩
  | .invalidHost host =>
    ⟨.failed, false, false, clientId, key, "invalid host: " ++ host, [], [], [], [], []⟩
  | .connectFailed error =>
    ⟨.failed, false, false, clientId, key, "connect() failed: " ++ error, [], [], [], [], []⟩
  | .connected sends =>
    let r := sendAll (clientRequest.encode ⟨65, clientId, key⟩) sends
    if r.unsent = [] then ⟨.connected, true, true, clientId, key, "", r.writes.flatten, [],
      incoming, [], []⟩
    else ⟨.failed, false, false, clientId, key, "failed sending ClientRequest", r.writes.flatten,
      [], [], [], []⟩

/-- `static_cast<uint16_t>(std::clamp(asset, 0, 65535))`. -/
def clampAsset (asset : Int32) : UInt16 :=
  if asset < 0 then 0 else if 65535 < asset then 65535 else asset.toUInt32.toUInt16

/-- A call of the user interface, or a turn of the read loop. -/
inductive Event where
  | sendOrder (localOrderId : UInt32) (type : OrderType) (side : SideByte) (price : Int64)
      (amount : UInt32) (asset : Int32) (sends : List SendResult)
  | sendCancelOrder (localOrderId orderIdToCancel : UInt32) (asset : Int32)
      (sends : List SendResult)
  | disconnect (sends : List SendResult)
  /-- A call of `recv` in `recv_all` returns at most `n + 1` bytes. -/
  | recv (n : Nat)
  /-- It returns 0 or -1. -/
  | recvFailed

variable (s : TradingSession)

/-- An order counts as sent if all of it was taken. -/
def send (o : PaddedOrder) (sends : List SendResult) : TradingSession :=
  if s.state = .connected then
    let r := sendAll (order.encode o) sends
    { s with
      written := s.written ++ r.writes.flatten
      sent := if r.unsent = [] then s.sent ++ [o] else s.sent }
  else s

/-- `recv_all` in `read_loop`. -/
def receive (n : Nat) : TradingSession :=
  if s.running && s.opened then
    let piece := s.unread.take (min (n + 1) (confirmation.size - s.got.length))
    let got := s.got ++ piece
    let s := { s with unread := s.unread.drop piece.length }
    if got.length = confirmation.size then
      { s with got := [], confirmations := s.confirmations ++ [confirmation.decode got] }
    else { s with got }
  else s

/-- The handlers of the events. -/
def step : Event → TradingSession
  | .sendOrder localOrderId type side price amount asset sends =>
    s.send
      { price, orderId := localOrderId.toUInt64, clientOrderId := localOrderId,
        clientId := s.clientId, amount, assetId := clampAsset asset, type, sideByte :=
        side, action := .execute, padding := fun _ => 0 } sends
  | .sendCancelOrder localOrderId orderIdToCancel asset sends =>
    s.send
      { price := 0, orderId := localOrderId.toUInt64, clientOrderId := localOrderId,
        clientId := s.clientId, amount := orderIdToCancel, assetId := clampAsset asset,
        type := .limit, sideByte := .buy, action := .cancel, padding := fun _ => 0 } sends
  | .disconnect sends =>
    let goodbye :=
      if s.state = .connected && s.opened then
        (sendAll (clientRequest.encode ⟨68, s.clientId, s.key⟩) sends).writes.flatten
      else []
    { s with
      written := s.written ++ goodbye, running := false, opened := false, state := .disconnected }
  | .recv n => s.receive n
  | .recvFailed =>
    if s.running && s.opened then
      { s with state := .failed, lastError := "connection closed by peer", opened := false }
    else s

/-! ## What is written -/

/-- No call of `send` for an order fails. -/
def Event.Clean : Event → Prop
  | .sendOrder _ _ _ _ _ _ sends | .sendCancelOrder _ _ _ sends =>
    .again ∉ sends ∧ .interrupted ∉ sends
  | _ => True

section
variable {s : TradingSession} {sends : List SendResult}

theorem sendAll_clean (data : List UInt8) (h : .again ∉ sends ∧ .interrupted ∉ sends) :
    (sendAll data sends).unsent = [] ∧ (sendAll data sends).writes.flatten = data := by
  have hmap : sends.map (fun r => if r = .interrupted then .again else r) = sends := by
    refine (List.map_congr_left fun r hr => ?_).trans (List.map_id' sends)
    rw [if_neg fun heq : r = .interrupted => h.2 (heq ▸ hr)]
  unfold sendAll
  rw [hmap]
  exact ⟨sendAll_complete h.1, sendAll_writes h.1⟩

theorem sendAll_sent (data : List UInt8) (sends : List SendResult) :
    (sendAll data sends).writes.flatten <+: data :=
  ⟨_, sendAll_flatten data _⟩

/-- A login, the orders sent, and perhaps something that is too short for an order, behind which
nothing comes. -/
structure Wrote (login : ClientRequest) (s : TradingSession) (rest : List UInt8) : Prop where
  written : s.written = clientRequest.encode login ++ (order.encodeAll s.sent ++ rest)
  short : rest.length < order.size
  open_ended : s.state = .connected → rest = []

theorem Wrote.send {login : ClientRequest} {rest : List UInt8} (h : Wrote login s rest)
    (o : PaddedOrder)
    (hclean : .again ∉ sends ∧ .interrupted ∉ sends) : Wrote login (s.send o sends) rest := by
  unfold TradingSession.send
  split
  · next hconnected =>
    obtain ⟨hunsent, hwrites⟩ := sendAll_clean (order.encode o) hclean
    obtain rfl := h.open_ended hconnected
    refine ⟨?_, h.short, fun _ => rfl⟩
    simp only [hunsent, hwrites, if_true, h.written, List.append_nil, encodeAll_append,
      encodeAll_cons, encodeAll_nil, List.append_assoc]
  · exact h

theorem receive_same (s : TradingSession) (n : Nat) : (s.receive n).written = s.written ∧
    (s.receive n).sent = s.sent ∧ (s.receive n).state = s.state := by
  unfold receive
  dsimp only
  split
  · split <;> exact ⟨rfl, rfl, rfl⟩
  · exact ⟨rfl, rfl, rfl⟩

theorem Wrote.step {login : ClientRequest} {rest : List UInt8} (h : Wrote login s rest) {e : Event}
    (he : e.Clean) : ∃ rest, Wrote login (s.step e) rest := by
  cases e with
  | sendOrder localOrderId type side price amount asset sends => exact ⟨rest, h.send _ he⟩
  | sendCancelOrder localOrderId orderIdToCancel asset sends => exact ⟨rest, h.send _ he⟩
  | disconnect sends =>
    by_cases hconnected : (s.state = .connected && s.opened) = true
    · have hrest := h.open_ended (of_decide_eq_true (Bool.and_eq_true_iff.1 hconnected).1)
      have hgoodbye := (sendAll_sent (clientRequest.encode ⟨68, s.clientId, s.key⟩) sends).length_le
      rw [clientRequest.length_encode] at hgoodbye
      refine ⟨_, ?_, Nat.lt_of_le_of_lt hgoodbye (by decide), nofun⟩
      simp only [TradingSession.step, hconnected, if_true, h.written, hrest, List.append_nil,
        List.append_assoc]
    · refine ⟨rest, ?_, h.short, nofun⟩
      simp only [TradingSession.step, if_neg hconnected, List.append_nil]
      exact h.written
  | recv n =>
    obtain ⟨hwritten, hsent, hstate⟩ := receive_same s n
    exact ⟨rest, by rw [TradingSession.step, hwritten, hsent, h.written], h.short, fun hc =>
      h.open_ended (hstate ▸ hc)⟩
  | recvFailed =>
    simp only [TradingSession.step]
    split
    · exact ⟨rest, h.written, h.short, nofun⟩
    · exact ⟨rest, h⟩

/-- **What a session writes** if no call of `send` fails. -/
theorem run_wrote (clientId : UInt32) (key : Account.Key) (incoming : List UInt8)
    (hsends : .again ∉ sends ∧ .interrupted ∉ sends) {es : List Event} (hes : ∀ e ∈ es, e.Clean) :
    ∃ rest, Wrote ⟨65, clientId, key⟩
      (es.foldl step (connect clientId key incoming (.connected sends))) rest := by
  obtain ⟨hunsent, hwrites⟩ := sendAll_clean (clientRequest.encode ⟨65, clientId, key⟩) hsends
  refine List.foldlRecOn (motive := fun s => ∃ rest, Wrote ⟨65, clientId, key⟩ s rest) es step
    ⟨[], ?_⟩ ?_
  · simp only [connect, hunsent, if_true, hwrites]
    exact ⟨(List.append_nil _).symm, by decide, fun _ => rfl⟩
  · rintro s ⟨rest, h⟩ e he
    exact h.step (hes e he)

end

/-! ## What is read -/

/-- The bytes `consumed` of what comes in were read. -/
structure Read (incoming consumed : List UInt8) (s : TradingSession) : Prop where
  stream : incoming = consumed ++ s.unread
  got : s.got = tail confirmation.size consumed
  confirmations : s.confirmations = (frames confirmation.size consumed).map confirmation.decode

section
variable {s : TradingSession} {incoming consumed : List UInt8}

theorem Read.receive (h : Read incoming consumed s) (n : Nat) :
    ∃ consumed, Read incoming consumed (s.receive n) := by
  have hpos : 0 < confirmation.size := by decide
  have hgot : s.got.length < confirmation.size := by
    rw [h.got, length_tail]
    exact Nat.mod_lt _ hpos
  unfold TradingSession.receive
  dsimp only
  split
  · generalize hpiece : s.unread.take (min (n + 1) (confirmation.size - s.got.length)) = piece
    have hstream : incoming = consumed ++ piece ++ s.unread.drop piece.length := by
      rw [List.append_assoc, ← hpiece, Wire.take_append_drop_length]
      exact h.stream
    have hlen : (s.got ++ piece).length ≤ confirmation.size := by
      rw [List.length_append, ← hpiece, List.length_take]
      omega
    have hframes := frames_append hpos consumed piece
    have htail := tail_append hpos consumed piece
    rw [← h.got] at hframes htail
    split
    · next hfull =>
      refine ⟨consumed ++ piece, hstream, ?_, ?_⟩
      · rw [htail, tail_of_mod (by rw [hfull, Nat.mod_self])]
      · have hone : frames confirmation.size (s.got ++ piece) = [s.got ++ piece] := by
          rw [frames, hfull, Nat.div_self hpos]
          simp [hfull.symm]
        rw [h.confirmations, hframes, hone, List.map_append]
        rfl
    · next hpart =>
      have hlt : (s.got ++ piece).length < confirmation.size := Nat.lt_of_le_of_ne hlen hpart
      refine ⟨consumed ++ piece, hstream, ?_, ?_⟩
      · rw [htail, tail_of_lt hlt]
      · rw [h.confirmations, hframes, frames_of_lt hlt, List.append_nil]
  · exact ⟨consumed, h⟩

theorem Read.step (h : Read incoming consumed s) (e : Event) :
    ∃ consumed, Read incoming consumed (s.step e) := by
  cases e with
  | recv n => exact h.receive n
  | sendOrder localOrderId type side price amount asset sends =>
    simp only [TradingSession.step, TradingSession.send]
    split <;> exact ⟨consumed, h.stream, h.got, h.confirmations⟩
  | sendCancelOrder localOrderId orderIdToCancel asset sends =>
    simp only [TradingSession.step, TradingSession.send]
    split <;> exact ⟨consumed, h.stream, h.got, h.confirmations⟩
  | disconnect sends => exact ⟨consumed, h.stream, h.got, h.confirmations⟩
  | recvFailed =>
    simp only [TradingSession.step]
    split <;> exact ⟨consumed, h.stream, h.got, h.confirmations⟩

/-- **What a session reads**, however it is cut: the first confirmations of those that were sent. -/
theorem run_reads (clientId : UInt32) (key : Account.Key) {sends : List SendResult}
    {cs : List Confirmation} {part : List UInt8} (hpart : part.length < confirmation.size)
    (hincoming : incoming = confirmation.encodeAll cs ++ part)
    (hsends : .again ∉ sends ∧ .interrupted ∉ sends) (es : List Event) :
    ∃ k, (es.foldl step (connect clientId key incoming (.connected sends))).confirmations =
    (cs.take k).map some := by
  have hread : ∃ consumed, Read incoming consumed
      (es.foldl step (connect clientId key incoming (.connected sends))) := by
    obtain ⟨hunsent, -⟩ := sendAll_clean (clientRequest.encode ⟨65, clientId, key⟩) hsends
    refine List.foldlRecOn (motive := fun s => ∃ consumed, Read incoming consumed s) es step
      ⟨[], ?_⟩ ?_
    · simp only [connect, hunsent, if_true]
      exact ⟨rfl, rfl, rfl⟩
    · rintro s ⟨consumed, h⟩ e -
      exact h.step e
  obtain ⟨consumed, h⟩ := hread
  refine ⟨consumed.length / confirmation.size, ?_⟩
  have hconsumed : consumed <+: confirmation.encodeAll cs ++ part := hincoming ▸ ⟨_, h.stream.symm⟩
  have hframes := frames_of_prefix (by decide) hpart hconsumed
  rw [h.confirmations, hframes, decode_encodes]

end

end TradingSession

end Naoto.MarketClient
