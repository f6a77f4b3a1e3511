import NaotoExchange.Client.TradingSession
import NaotoExchange.Gateway.Forwarding
import NaotoExchange.Gateway.Framing

/-!
# An order and its confirmation, byte by byte

A trading session of the dashboard, the gateway's connection to it, the order router and the sender
of the confirmations, with a TCP connection each way that cuts the bytes as it likes. Each party may
be any way behind the one it gets its input from.

`session_round_trip`: the orders that the router takes from the connection are the first ones that
the session has sent, field by field; and the confirmations that the session has read answer the
orders it has sent, one by one and in order, with the status that the router gave.
-/

namespace Naoto.Exchange

open Gateway MarketClient Packed Frames Run SendLoop OrderRouter

/-- A confirmation as the dashboard reads it. -/
def onWire (c : OrderConfirmation) : Confirmation := ⟨c.orderId, c.clientOrderId, c.status.code⟩

/-! ## Orders -/

section
variable {login : ClientRequest} {s : TradingSession} {rest : List UInt8} {c : Conn}

/-- The connection hands on the login and the first orders of a session. -/
theorem delivers_session (h : s.Wrote login rest) (hc : Delivers orderWire s.written c) :
    (∀ m ∈ c.first, m = clientRequest.encode login) ∧
      ∃ k, c.pushed.flatten = (s.sent.take k).map PaddedOrder.bytes := by
  obtain ⟨consumed, hreceived⟩ := hc
  have hprefix : consumed <+: clientRequest.encode login ++ (order.encodeAll s.sent ++ rest) :=
    h.written ▸ ⟨_, hreceived.stream.symm⟩
  have hlen : (clientRequest.encode login).length = orderWire.initSize :=
    clientRequest.length_encode login
  refine ⟨fun m hm => ?_, (orderWire.body consumed).length / order.size, ?_⟩
  · rw [hreceived.first, Wire.header] at hm
    split at hm
    · next hwhole =>
      obtain ⟨later, hlater⟩ := hprefix
      have htake : (consumed ++ later).take orderWire.initSize = consumed.take orderWire.initSize :=
        List.take_append_of_le_length hwhole.2
      rw [List.mem_singleton.1 hm, ← htake, hlater, ← hlen, List.take_left]
    · cases hm
  · have hbody : orderWire.body consumed <+: order.encodeAll s.sent ++ rest := by
      have hdrop := hprefix.drop orderWire.initSize
      rw [← hlen, List.drop_left] at hdrop
      rw [Wire.body, ← hlen]
      exact hdrop
    rw [hreceived.pushed]
    exact (Format.frames_of_prefix (by decide) h.short hbody).trans
      (List.map_congr_left fun o _ => encode_order o)

end

theorem bytes_injective : Function.Injective PaddedOrder.bytes := by
  intro o o' h
  rw [← encode_order, ← encode_order] at h
  have hdecode := congrArg order.decode h
  rw [order.decode_encode, order.decode_encode] at hdecode
  exact Option.some.inj hdecode

/-- Orders that lie in the pushed batches are orders of the session. -/
theorem taken_orders {sent os : List PaddedOrder} {k : Nat} {pushed : List (List UInt8)}
    (hpushed : pushed = (sent.take k).map PaddedOrder.bytes)
    (hos : os.map PaddedOrder.bytes <+: pushed) : os <+: sent := by
  rw [hpushed, List.prefix_map_iff_of_injective bytes_injective] at hos
  exact hos.trans (List.take_prefix k sent)

/-! ## Confirmations -/

theorem written_confirmations (memory : UInt32 → UInt64 → UInt8) (fd : UInt32)
    {msgs : List (ClientMessage × List SendResult)} (h : ∀ p ∈ msgs, p.1.fd = fd → .again ∉ p.2) :
    ((msgs.foldl ClientMessageSender.handle (.new memory)).writes fd).flatten =
      confirmation.encodeAll ((confirmationsFor fd msgs).map onWire) := by
  have hrun := run_inStep memory fd h
  rw [hrun.written, hrun.kept, Format.encodeAll, List.flatMap_map]
  exact List.flatMap_congr fun c _ => (encode_confirmation c).symm

/-- The confirmations for a descriptor, in the queue of the sender. -/
theorem confirmationsFor_mono (fd : UInt32) {msgs : List (ClientMessage × List SendResult)}
    {queue : List ClientMessage} (h : msgs.map Prod.fst <+: queue) :
    confirmationsFor fd msgs <+: (queue.filter fun m => m.fd = fd).map
      ClientMessage.confirmation := by
  have hfilter := (h.filter fun m => m.fd = fd).map ClientMessage.confirmation
  rw [List.filter_map, List.map_map] at hfilter
  exact hfilter

section
variable {H E : Type} {L : Link H E} {gatewayId : UInt16} {r : OrderRouter H}
  {xs : List (RouterInput E)}

/-- The router answers the orders of a descriptor in order. -/
theorem routed_ids (h : Through (HandsOff L gatewayId) (route L gatewayId) r xs)
    (hr : r.outgoingConfirmation = []) (fd : UInt32) :
    (((xs.foldl (route L gatewayId) r).outgoingConfirmation.filter fun m => m.fd = fd).map
      fun m => m.confirmation.clientOrderId) = (xs.filter fun x => x.fd = fd).map fun x =>
      x.order.clientOrderId := by
  obtain ⟨ms, hout, hkeys, -⟩ := run_messages h
  have hids := congrArg (fun l => (l.filter fun p => p.1 = fd).map Prod.snd) hkeys
  simp only [List.filter_map, List.map_map] at hids
  rw [hout, hr, List.nil_append]
  exact hids

/-- **A session and the gateway.** The session has handled the events `es`, the gateway has read
`calls` of what the session wrote, the router has handled `xs`, among them the first orders that
came on the session's descriptor, and the sender has handled `msgs`, the first confirmations of the
router. No call of `send` for the session's messages fails or would block, the batches are whole,
and the router hands on what passes. -/
theorem session_round_trip (clientId : UInt32) (key : Account.Key) (sends : List SendResult)
    (es : List TradingSession.Event) (memory : UInt32 → UInt64 → UInt8) (fd : UInt32)
    (msgs : List (ClientMessage × List SendResult)) (calls : List (List Recv)) (r : OrderRouter H)
    (xs : List (RouterInput E)) (hsends : .again ∉ sends ∧ .interrupted ∉ sends)
    (hes : ∀ e ∈ es, e.Clean) (hwritten : ∀ p ∈ msgs, p.1.fd = fd → .again ∉ p.2)
    (hhanded : Through (HandsOff L gatewayId) (route L gatewayId) r xs)
    (hr : r.outgoingConfirmation = []) :
    let incoming := ((msgs.foldl ClientMessageSender.handle (.new memory)).writes fd).flatten
    let s := es.foldl TradingSession.step
      (TradingSession.connect clientId key incoming (.connected sends))
    let c := calls.foldl orderWire.readMessage (orderWire.newConn s.written)
    let queue := (xs.foldl (route L gatewayId) r).outgoingConfirmation
    Through (WholeCall orderWire) orderWire.readMessage (orderWire.newConn s.written) calls →
    (xs.filter fun x => x.fd = fd).map (fun x => x.order.bytes) <+: c.pushed.flatten →
    msgs.map Prod.fst <+: queue →
      (∀ m ∈ c.first, m = clientRequest.encode ⟨65, clientId, key⟩) ∧
      (xs.filter fun x => x.fd = fd).map RouterInput.order <+: s.sent ∧
      s.confirmations <+: (queue.filter fun m => m.fd = fd).map
        (fun m => some (onWire m.confirmation)) ∧
      s.confirmations.map (fun c => c.map Confirmation.clientOrderId) <+:
        s.sent.map fun o => some o.clientOrderId := by
  intro incoming s c queue hwhole htaken hmsgs
  obtain ⟨rest, hwrote⟩ := TradingSession.run_wrote clientId key incoming hsends hes
  obtain ⟨hfirst, k, hpushed⟩ := delivers_session hwrote (readMessage_delivers orderWire hwhole)
  have horders : (xs.filter fun x => x.fd = fd).map RouterInput.order <+: s.sent :=
    taken_orders hpushed (by rw [List.map_map]; exact htaken)
  obtain ⟨j, hread⟩ := TradingSession.run_reads clientId key
    (show ([] : List UInt8).length < 9 by decide)
    ((written_confirmations memory fd hwritten).trans (List.append_nil _).symm) hsends es
  have hconfirmed : s.confirmations <+: (queue.filter fun m => m.fd = fd).map fun m => some
      (onWire m.confirmation) := by
    have hqueued := (confirmationsFor_mono fd hmsgs).map fun c => some (onWire c)
    rw [List.map_map] at hqueued
    rw [show s.confirmations = _ from hread]
    refine ((List.take_prefix j _).map some).trans ?_
    rw [List.map_map]
    exact hqueued
  refine ⟨hfirst, horders, hconfirmed, ?_⟩
  have hids := congrArg (List.map some) (routed_ids hhanded hr fd)
  have hanswers := hconfirmed.map fun c => c.map Confirmation.clientOrderId
  rw [List.map_map] at hanswers
  rw [List.map_map, List.map_map] at hids
  refine hanswers.trans ?_
  have hsame : (queue.filter fun m => m.fd = fd).map ((fun c => c.map Confirmation.clientOrderId) ∘
      fun m => some (onWire m.confirmation)) =
      ((xs.filter fun x => x.fd = fd).map RouterInput.order).map fun o => some o.clientOrderId := by
    rw [List.map_map]
    exact hids
  rw [hsame]
  exact horders.map _

end

instance {H E : Type} (L : Link H E) (gatewayId : UInt16) (r : OrderRouter H) (x : RouterInput E) :
    Decidable (HandsOff L gatewayId r x) := inferInstanceAs (Decidable (_ → _))

/-- Client 7 sends two orders for 60, the first one in pieces, reads what comes back and says
goodbye. -/
def typedEvents : List TradingSession.Event :=
  [.sendOrder 77 .limit .buy 10 6 1 [.sent 9, .sent 0], .sendOrder 78 .limit .buy 10 6 1 [],
    .recv 3, .recv 8, .recv 8, .disconnect []]

/-- The two orders, as the router has them with the client's 100 in cash. -/
def typedInputs : List (RouterInput Bool) :=
  [77, 78].map fun id => { sampleInput 6 false with
    order := { (⟨10, id.toUInt64, id, 7, 6, 1, .limit, .buy, .execute⟩ : Order)
      with padding := fun _ => 0 } }

/-- What the sender has to hand on. -/
def typedMessages : List (ClientMessage × List SendResult) :=
  [(⟨5, ⟨1, 77, .accepted⟩⟩, []), (⟨5, ⟨2, 78, .insufficientFunds⟩⟩, [.sent 3])]

theorem session_round_trip_typed :
    let incoming := ((typedMessages.foldl ClientMessageSender.handle (.new fun _ _ => 0)).writes
      5).flatten
    let s := typedEvents.foldl TradingSession.step
      (TradingSession.connect 7 (fun _ => 1) incoming (.connected [.sent 4]))
    let c := [[someBytes 37], [someBytes 15, someBytes 25, someBytes 40], [someBytes 37]].foldl
      orderWire.readMessage (orderWire.newConn s.written)
    s.confirmations = [some ⟨1, 77, 0⟩, some ⟨2, 78, 1⟩] ∧ c.unread = [] ∧ c.pushed.length = 2 ∧
      typedInputs.map RouterInput.order <+: s.sent ∧
      s.confirmations.map (fun c => c.map Confirmation.clientOrderId) <+: s.sent.map fun o =>
      some o.clientOrderId := by
  intro incoming s c
  have hhanded : Through (HandsOff sharedMemory 0) (route sharedMemory 0)
      (sampleRouter []) typedInputs := by
    decide +kernel
  obtain ⟨-, horders, -, hids⟩ :=
    session_round_trip 7 (fun _ => 1) [.sent 4] typedEvents (fun _ _ => 0) 5 typedMessages
    [[someBytes 37], [someBytes 15, someBytes 25, someBytes 40], [someBytes 37]]
    (sampleRouter []) typedInputs
    (by decide) (by simp [typedEvents, TradingSession.Event.Clean]) (by decide) hhanded rfl
      (by decide +kernel)
    (by decide +kernel) (by decide +kernel)
  exact ⟨by decide +kernel, by decide +kernel, by decide +kernel, horders, hids⟩

end Naoto.Exchange
