import NaotoExchange.Gateway.Commitments
import NaotoExchange.Gateway.OrderRouter

/-!
# Confirmations and forwarding

* `run_confirms`: exactly if every order that passes the risk check is handed on, each order gets
  one confirmation, which says whether it was handed on, and only confirmed orders reserve funds.
  `full_queue_reserves`: an order that finds the queue full gets no confirmation and keeps its
  reservation.
* `run_forwards`: as long as no call of `send` for its orders would block, the engine of an asset
  gets the accepted orders of the asset one after the other. `blocked_order_lost`: after `EAGAIN`
  the engine misses an order, and bytes go to the client instead.
-/

namespace Naoto.Gateway

open SendLoop Run OrderRouter

/-! ## Confirmations -/

/-- The local funds that a status stands for: only `Accepted` adds to them. -/
def fundsAfter (c : ClientState) (l : LocalFunds) (o : Order) : OrderConfirmationStatus → LocalFunds
  | .technicalFailure | .userNotConnected => l
  | .accepted =>
    match c.getAssetIdx (chargedAsset o) with
    | some i =>
      { l.sync c.sessionId with
        attempt := Function.update (l.sync c.sessionId).attempt i
          ((l.sync c.sessionId).attempt i + chargedAmount o) }
    | none => l.sync c.sessionId
  | _ => l.sync c.sessionId

theorem checkOrderRisk_funds (c : ClientState) (l : LocalFunds) (o : Order) (auth : UInt8) :
    (checkOrderRisk c l o auth).2 = fundsAfter c l o (checkOrderRisk c l o auth).1 := by
  unfold checkOrderRisk
  dsimp only
  split
  · rfl
  · split
    · rfl
    · split
      · split <;> rfl
      · rename_i i hslot
        split
        · rfl
        · simp only [fundsAfter, hslot]

section
variable {H E : Type} (L : Link H E) (gatewayId : UInt16)

/-- The local funds after a confirmation. -/
def confirmedFunds (funds : UInt32 → LocalFunds) (p : RouterInput E × ClientMessage) :
    UInt32 → LocalFunds :=
  Function.update funds p.1.fd
    (fundsAfter p.1.state (funds p.1.fd) p.1.order.toOrder p.2.confirmation.status)

/-- An order that passes the risk check is handed on. -/
def HandsOff (r : OrderRouter H) (x : RouterInput E) : Prop :=
  (r.screen L x).1 = .accepted → (L.handOff r.link x.fd (r.numbered gatewayId x) x.answer).2 = true

variable {L gatewayId} {r : OrderRouter H} {x : RouterInput E} {xs : List (RouterInput E)}

theorem route_localFunds : (r.route L gatewayId x).localFunds =
    confirmedFunds r.localFunds (x, r.message L gatewayId x) := by
  have hfunds : (r.screen L x).2 =
      fundsAfter x.state (r.localFunds x.fd) x.order.toOrder (r.screen L x).1 := by
    unfold screen
    split
    · exact checkOrderRisk_funds _ _ _ _
    · rfl
  unfold route confirmedFunds
  dsimp only
  rw [hfunds]
  split <;> rfl

theorem route_link : (r.route L gatewayId x).link = if (r.screen L x).1 = .accepted then
    (L.handOff r.link x.fd (r.numbered gatewayId x) x.answer).1 else r.link := by
  unfold route
  dsimp only
  split <;> rfl

theorem route_confirms (h : HandsOff L gatewayId r x) :
    (r.route L gatewayId x).outgoingConfirmation =
    r.outgoingConfirmation ++ [r.message L gatewayId x] := by
  unfold route
  dsimp only
  split
  · rename_i hacc
    rw [h hacc]
    rfl
  · rfl

theorem route_lost (hacc : (r.screen L x).1 = .accepted)
    (h : ¬ (L.handOff r.link x.fd (r.numbered gatewayId x) x.answer).2 = true) :
    (r.route L gatewayId x).outgoingConfirmation = r.outgoingConfirmation := by
  unfold route
  dsimp only
  rw [if_pos hacc]
  exact if_neg h

/-- What `consumeOrder` owes to the orders `xs`: one confirmation each, in order; `Accepted` exactly
for those that were handed on; and reservations for the orders confirmed `Accepted` only. -/
structure BatchAnswered (L : Link H E) (gatewayId : UInt16)
    (Handed : H → H → RouterInput E → PaddedOrder → Prop) (r : OrderRouter H)
    (xs : List (RouterInput E)) : Prop where
  confirmed : ∃ ms : List ClientMessage,
    (xs.foldl (route L gatewayId) r).outgoingConfirmation = r.outgoingConfirmation ++ ms ∧
    ms.map (fun m => (m.fd, m.confirmation.clientOrderId)) =
      xs.map (fun x => (x.fd, x.order.clientOrderId)) ∧
    (xs.foldl (route L gatewayId) r).localFunds = (xs.zip ms).foldl confirmedFunds r.localFunds
  handed : ∀ ys x, ys ++ [x] <+: xs →
    let s := ys.foldl (route L gatewayId) r
    ∃ m, (s.route L gatewayId x).outgoingConfirmation = s.outgoingConfirmation ++ [m] ∧
      (m.confirmation.status = .accepted ↔
        Handed s.link (s.route L gatewayId x).link x (s.numbered gatewayId x))

theorem run_messages (h : Through (HandsOff L gatewayId) (route L gatewayId) r xs) :
    ∃ ms : List ClientMessage,
      (xs.foldl (route L gatewayId) r).outgoingConfirmation = r.outgoingConfirmation ++ ms ∧
      ms.map (fun m => (m.fd, m.confirmation.clientOrderId)) =
        xs.map (fun x => (x.fd, x.order.clientOrderId)) ∧
      (xs.foldl (route L gatewayId) r).localFunds = (xs.zip ms).foldl confirmedFunds
        r.localFunds := by
  induction xs generalizing r with
  | nil => exact ⟨[], by simp, rfl, rfl⟩
  | cons x xs ih =>
    obtain ⟨hx, hxs⟩ := through_cons.1 h
    obtain ⟨ms, hout, hkeys, hfunds⟩ := ih hxs
    refine ⟨r.message L gatewayId x :: ms, ?_, ?_, ?_⟩
    · rw [List.foldl_cons, hout, route_confirms hx, List.append_assoc]
      rfl
    · rw [List.map_cons, List.map_cons, hkeys]
      rfl
    · rw [List.foldl_cons, hfunds, route_localFunds]
      rfl

/-- **Every order is answered** exactly if every order that passes is handed on. -/
theorem batch_answered_iff {P : H → H → RouterInput E → PaddedOrder → Prop}
    (hhanded : ∀ h x o, (L.handOff h x.fd o x.answer).2 = true →
      P h (L.handOff h x.fd o x.answer).1 x o)
    (hkept : ∀ h x o, ¬ P h h x o) :
    BatchAnswered L gatewayId P r xs ↔ Through (HandsOff L gatewayId) (route L gatewayId) r xs := by
  constructor
  · intro h ys x hp hacc
    obtain ⟨m, hout, -⟩ := h.handed ys x hp
    -- an order that is not handed on adds no message
    by_contra hlost
    rw [route_lost hacc hlost] at hout
    exact absurd (List.self_eq_append_right.1 hout) (List.cons_ne_nil m [])
  · intro h
    refine ⟨run_messages h, ?_⟩
    intro ys x hp s
    have hx := h ys x hp
    refine ⟨s.message L gatewayId x, route_confirms hx, ?_⟩
    rw [route_link]
    constructor
    · intro hacc
      have hstatus : (s.screen L x).1 = .accepted := hacc
      rw [if_pos hstatus]
      exact hhanded _ _ _ (hx hstatus)
    · intro hP
      by_contra hne
      have hstatus : ¬ (s.screen L x).1 = .accepted := hne
      rw [if_neg hstatus] at hP
      exact hkept _ _ _ hP

end

/-- The order is the last one in the queue. -/
def QueueHanded (queue queue' : List PaddedOrder) (_ : RouterInput Bool) (o : PaddedOrder) : Prop :=
  queue' = queue ++ [o]

/-- After what the drain wrote, the whole order was written to the engine. -/
def TcpHanded (h h' : EngineLinks) (x : RouterInput EngineLinks.Answer) (o : PaddedOrder) : Prop :=
  ∃ drained sent : List (List UInt8), h'.writes = h.writes ++ drained.map
    (fun w => (x.fd.toInt32, w)) ++
    sent.map (fun w => (x.answer.engine.fd, w)) ∧ sent.flatten = o.bytes

/-- The queue has room for an order that passes the risk check. -/
def QueueReady (r : OrderRouter (List PaddedOrder)) (x : RouterInput Bool) : Prop :=
  (r.screen sharedMemory x).1 = .accepted → x.answer = false

/-- For an order that passes the risk check, no call would block before what is buffered for its
asset and its 40 bytes have been taken, and the connection is not replaced. -/
def TcpReady (r : OrderRouter EngineLinks) (x : RouterInput EngineLinks.Answer) : Prop :=
  (r.screen tcp x).1 = .accepted →
    ((BytesBuffer.drainUnblocked (r.link.orderBuffer x.order.assetId).size r.link.orderOffset
      x.answer.results).bind (unblocked 40)).isSome = true ∧ x.answer.engineAfter = x.answer.engine

instance (r : OrderRouter (List PaddedOrder)) (x : RouterInput Bool) : Decidable (QueueReady r x) :=
  inferInstanceAs (Decidable (_ → _))

instance (r : OrderRouter EngineLinks) (x : RouterInput EngineLinks.Answer) :
    Decidable (TcpReady r x) :=
  inferInstanceAs (Decidable (_ → _ ∧ _))

theorem tcpHanded_of_handOff (h : EngineLinks) (x : RouterInput EngineLinks.Answer)
    (o : PaddedOrder)
    (hok : (h.handOff x.fd o x.answer).2 = true) :
    TcpHanded h (h.handOff x.fd o x.answer).1 x o := by
  unfold EngineLinks.handOff at hok ⊢
  dsimp only at hok ⊢
  split at hok
  · rename_i hdrained
    rw [if_pos hdrained]
    split at hok
    · rename_i hall
      rw [if_pos hall]
      refine ⟨_, _, rfl, ?_⟩
      have hflat := sendAll_flatten o.bytes
        ((h.orderBuffer o.assetId).drainLoop h.orderOffset x.answer.results).rest
      rw [hall, List.append_nil] at hflat
      exact hflat
    · cases hok
  · cases hok

theorem not_tcpHanded_self (h : EngineLinks) (x : RouterInput EngineLinks.Answer)
    (o : PaddedOrder) : ¬ TcpHanded h h x o := by
  intro hh
  obtain ⟨drained, sent, hw, hflat⟩ := hh
  have hlen := congrArg List.length hw
  have hsent : sent = [] := by
    rw [List.length_append, List.length_append, List.length_map, List.length_map] at hlen
    exact List.length_eq_zero_iff.1 (by omega)
  have hbytes := o.length_bytes
  rw [← hflat, hsent] at hbytes
  cases hbytes

/-- An order is handed on exactly if no call blocks and the connection stays. -/
theorem handOff_ok_iff (h : EngineLinks) (fd : UInt32) (o : PaddedOrder) (e : EngineLinks.Answer) :
    (h.handOff fd o e).2 = true ↔
    ((BytesBuffer.drainUnblocked (h.orderBuffer o.assetId).size h.orderOffset
      e.results).bind (unblocked 40)).isSome = true ∧ e.engineAfter = e.engine := by
  have hsent := sendAll_unsent_iff o.bytes
    ((h.orderBuffer o.assetId).drainLoop h.orderOffset e.results).rest
  rw [o.length_bytes] at hsent
  rw [BytesBuffer.drainUnblocked_eq]
  unfold EngineLinks.handOff
  dsimp only
  split
  · rw [Option.bind_some, ← hsent]
    split
    · next hall => simp [hall]
    · next hall => simp [hall]
  · simp

/-- **Exactly one confirmation per order, and no trace of the others**, exactly if every order that
passes the risk check is handed on. -/
theorem run_confirms (gatewayId : UInt16) :
    (∀ (r : OrderRouter (List PaddedOrder)) (xs : List (RouterInput Bool)),
      BatchAnswered sharedMemory gatewayId QueueHanded r xs ↔
        Through QueueReady (route sharedMemory gatewayId) r xs) ∧
    ∀ (r : OrderRouter EngineLinks) (xs : List (RouterInput EngineLinks.Answer)),
      BatchAnswered tcp gatewayId TcpHanded r xs ↔ Through TcpReady (route tcp gatewayId) r xs := by
  constructor
  · intro r xs
    rw [batch_answered_iff (fun queue x o hok => ?_) (fun queue x o hh => ?_)]
    · have hready : ∀ s x, HandsOff sharedMemory gatewayId s x ↔ QueueReady s x := by
        intro s x
        unfold HandsOff QueueReady sharedMemory
        cases x.answer <;> simp
      exact forall₃_congr fun ys x _ => hready _ x
    · simp only [sharedMemory] at hok ⊢
      split at hok
      · cases hok
      · next hroom =>
        rw [if_neg hroom]
        rfl
    · have hlen := congrArg List.length hh
      rw [List.length_append, List.length_singleton] at hlen
      omega
  · intro r xs
    rw [batch_answered_iff tcpHanded_of_handOff not_tcpHanded_self]
    exact forall₃_congr fun ys x _ => imp_congr_right fun _ => handOff_ok_iff ..

/-- Client 7, with 100 in cash and 5 of asset 1, on descriptor 5: a buy over `amount` times 10. -/
def sampleInput {E : Type} (amount : UInt32) (answer : E) : RouterInput E where
  fd := 5
  auth := 1
  order := { (⟨10, 0, 77, 7, amount, 1, .limit, .buy, .execute⟩ : Order)
    with padding := fun _ => 0 }
  state := sampleClient 100 5
  answer := answer

def sampleRouter {H : Type} (link : H) : OrderRouter H := ⟨fun _ => ⟨fun _ => 0, 0⟩, 1, link, []⟩

/-- Two orders over 60 each, through the queue; and one that is sent in two pieces and one without
engine. -/
theorem run_confirms_sample :
    let queued := [sampleInput 6 false, sampleInput 6 true]
    let sent := [sampleInput 6 (⟨⟨20, 0⟩, ⟨20, 0⟩, [.sent 9, .interrupted]⟩ : EngineLinks.Answer),
      sampleInput 6 ⟨⟨-1, 1⟩, ⟨-1, 1⟩, []⟩]
    BatchAnswered sharedMemory 0 QueueHanded (sampleRouter []) queued ∧
      (queued.foldl (route sharedMemory 0) (sampleRouter [])).outgoingConfirmation =
        [⟨5, ⟨1, 77, .accepted⟩⟩, ⟨5, ⟨2, 77, .insufficientFunds⟩⟩] ∧
      BatchAnswered tcp 0 TcpHanded (sampleRouter (.new fun _ _ => 0)) sent ∧
      (sent.foldl (route tcp 0) (sampleRouter (.new fun _ _ => 0))).outgoingConfirmation =
        [⟨5, ⟨1, 77, .accepted⟩⟩, ⟨5, ⟨2, 77, .technicalFailure⟩⟩] :=
  ⟨((run_confirms 0).1 _ _).2 (by decide +kernel), by decide +kernel,
    ((run_confirms 0).2 _ _).2 (by decide +kernel), by decide +kernel⟩

/-- The queue is full, or the connection would block: no confirmation, and 60 stay reserved. -/
theorem full_queue_reserves :
    let queued := route sharedMemory 0 (sampleRouter []) (sampleInput 6 true)
    let sent := route tcp 0 (sampleRouter (.new fun _ _ => 0))
      (sampleInput 6 ⟨⟨20, 0⟩, ⟨20, 0⟩, [.again]⟩)
    queued.outgoingConfirmation = [] ∧ queued.link = [] ∧ (queued.localFunds 5).attempt 0 = 60 ∧
      sent.outgoingConfirmation = [] ∧ (sent.localFunds 5).attempt 0 = 60 ∧
      ¬ BatchAnswered sharedMemory 0 QueueHanded (sampleRouter []) [sampleInput 6 true] := by
  refine ⟨by decide +kernel, by decide +kernel, by decide +kernel, by decide +kernel, by
    decide +kernel, fun h => ?_⟩
  obtain ⟨ms, hout, hkeys, -⟩ := h.confirmed
  have hnone : ([sampleInput 6 true].foldl (route sharedMemory 0)
      (sampleRouter [])).outgoingConfirmation = [] := by decide +kernel
  rw [hnone] at hout
  rw [← show ([] : List ClientMessage) = ms from hout] at hkeys
  cases hkeys

/-! ## The engines' streams -/

/-- The orders that pass the risk check, with their ids. -/
def acceptedOrders (gatewayId : UInt16) :
    OrderRouter EngineLinks → List (RouterInput EngineLinks.Answer) → List PaddedOrder
  | _, [] => []
  | r, x :: xs =>
    (if (r.screen tcp x).1 = .accepted then [r.numbered gatewayId x] else []) ++
      acceptedOrders gatewayId (r.route tcp gatewayId x) xs

/-- The bytes of the orders for an asset, one after the other. -/
def streamFor (a : UInt16) (os : List PaddedOrder) : List UInt8 :=
  (os.filter fun o => o.assetId = a).flatMap PaddedOrder.bytes

/-- The bytes written to a descriptor. -/
def writtenTo (fd : Int32) (ws : List (Int32 × List UInt8)) : List UInt8 :=
  ((ws.filter fun w => w.1 = fd).map Prod.snd).flatten

theorem writtenTo_append (fd : Int32) (ws ws' : List (Int32 × List UInt8)) :
    writtenTo fd (ws ++ ws') = writtenTo fd ws ++ writtenTo fd ws' := by
  simp [writtenTo]

theorem writtenTo_self (fd : Int32) (ws : List (List UInt8)) :
    writtenTo fd (ws.map fun w => (fd, w)) = ws.flatten := by
  induction ws with
  | nil => rfl
  | cons w ws ih => simpa [writtenTo] using ih

theorem writtenTo_other {fd fd' : Int32} (h : fd' ≠ fd) (ws : List (List UInt8)) :
    writtenTo fd (ws.map fun w => (fd', w)) = [] := by
  induction ws with
  | nil => rfl
  | cons w ws ih => simp [writtenTo, h]

section
variable {h : EngineLinks} {fd : UInt32} {o : PaddedOrder} {e : EngineLinks.Answer} {a : UInt16}

/-- A hand-off writes to the client's descriptor and to the engine's. -/
theorem handOff_writes (h : EngineLinks) (fd : UInt32) (o : PaddedOrder) (e : EngineLinks.Answer) :
    ∃ drained sent : List (List UInt8), (h.handOff fd o e).1.writes =
      h.writes ++ drained.map (fun w => (fd.toInt32, w)) ++ sent.map fun w => (e.engine.fd, w) := by
  unfold EngineLinks.handOff
  dsimp only
  split
  · split <;> exact ⟨_, _, rfl⟩
  · exact ⟨_, [], (List.append_nil _).symm⟩

theorem handOff_buffer (hne : a ≠ o.assetId) :
    (h.handOff fd o e).1.orderBuffer a = h.orderBuffer a := by
  unfold EngineLinks.handOff
  dsimp only
  split
  · split <;> exact Function.update_of_ne hne _ _
  · exact Function.update_of_ne hne _ _

/-- From an empty buffer and without `EAGAIN` the order goes to the engine, and nothing goes
elsewhere. -/
theorem handOff_empty (hb : (h.orderBuffer o.assetId).size = 0) (hr : .again ∉ e.results) :
    ((h.handOff fd o e).1.orderBuffer o.assetId).size = 0 ∧
      ∃ sent : List (List UInt8), (h.handOff fd o e).1.writes =
        h.writes ++ sent.map (fun w => (e.engine.fd, w)) ∧ sent.flatten = o.bytes := by
  unfold EngineLinks.handOff
  dsimp only
  rw [BytesBuffer.drainLoop_empty hb]
  simp only [if_true, sendAll_complete hr, List.map_nil, List.append_nil, Function.update_self]
  exact ⟨rfl, _, rfl, sendAll_writes hr⟩

end

/-- Where the connections are while an order is handled: that of its asset is open on its
descriptor, and the client is not on the descriptor of the engine for `a`. -/
structure Connected (engines : UInt16 → Int32) (a : UInt16) (x : RouterInput EngineLinks.Answer) :
    Prop where
  engine : x.answer.engine.fd = engines x.order.assetId
  client : x.fd.toInt32 ≠ engines a

instance (engines : UInt16 → Int32) (a : UInt16) (x : RouterInput EngineLinks.Answer) :
    Decidable (Connected engines a x) :=
  decidable_of_iff (x.answer.engine.fd = engines x.order.assetId ∧ x.fd.toInt32 ≠ engines a)
    ⟨fun h => ⟨h.1, h.2⟩, fun h => ⟨h.1, h.2⟩⟩

section
variable {engines : UInt16 → Int32} {a : UInt16} {r : OrderRouter EngineLinks}
  {x : RouterInput EngineLinks.Answer} {xs : List (RouterInput EngineLinks.Answer)}

/-- Nothing is buffered for `a`, and `ws` are the writes of an input whose accepted orders are `os`.
-/
structure Forwarded (engines : UInt16 → Int32) (a : UInt16) (r r' : OrderRouter EngineLinks)
    (os : List PaddedOrder) (ws : List (Int32 × List UInt8)) : Prop where
  buffer : (r'.link.orderBuffer a).size = 0
  writes : r'.link.writes = r.link.writes ++ ws
  stream : writtenTo (engines a) ws = streamFor a os

theorem route_forwards (gatewayId : UInt16)
    (hdistinct : ∀ b, engines b = engines a → b = a ∨ engines a = -1)
    (hb : (r.link.orderBuffer a).size = 0) (hx : Connected engines a x)
    (hok : x.order.assetId = a → .again ∉ x.answer.results) :
    ∃ ws, Forwarded engines a r (r.route tcp gatewayId x)
        (if (r.screen tcp x).1 = .accepted then [r.numbered gatewayId x] else []) ws ∧
      (x.order.assetId = a → ∀ w ∈ ws, w.1 = engines a) := by
  by_cases hacc : (r.screen tcp x).1 = .accepted
  · have hlink : (r.route tcp gatewayId x).link =
        (r.link.handOff x.fd (r.numbered gatewayId x) x.answer).1 := by
      rw [route_link, if_pos hacc]
      rfl
    rw [if_pos hacc]
    by_cases ha : x.order.assetId = a
    · subst ha
      obtain ⟨hbuffer, sent, hwrites, hflat⟩ :=
        handOff_empty (h := r.link) (o := r.numbered gatewayId x) hb (hok rfl)
      rw [hx.engine] at hwrites
      refine ⟨_, ⟨hlink ▸ hbuffer, hlink ▸ hwrites, ?_⟩, fun _ w hw => ?_⟩
      · rw [writtenTo_self, hflat]
        simp [streamFor, numbered]
      · obtain ⟨bytes, -, rfl⟩ := List.mem_map.1 hw
        rfl
    · obtain ⟨drained, sent, hwrites⟩ :=
        handOff_writes r.link x.fd (r.numbered gatewayId x) x.answer
      have hother : x.answer.engine.fd ≠ engines a := by
        intro he
        -- an order that passes has an engine
        have hup : x.answer.engine.fd ≠ -1 := by
          intro hdown
          simp [screen, tcp, hdown] at hacc
        obtain hb | hdown := hdistinct _ (hx.engine ▸ he)
        · exact ha hb
        · exact hup (he.trans hdown)
      rw [List.append_assoc] at hwrites
      refine ⟨_, ⟨?_, hlink ▸ hwrites, ?_⟩, fun h => absurd h ha⟩
      · have hne : a ≠ (r.numbered gatewayId x).assetId := fun h => ha h.symm
        rw [hlink, handOff_buffer hne]
        exact hb
      · rw [writtenTo_append, writtenTo_other hx.client, writtenTo_other hother]
        simp [streamFor, numbered, ha]
  · have hlink : (r.route tcp gatewayId x).link = r.link := by rw [route_link, if_neg hacc]
    rw [if_neg hacc]
    refine ⟨[], ⟨hlink ▸ hb, ?_, rfl⟩, fun _ w hw => nomatch hw⟩
    rw [hlink, List.append_nil]

theorem run_forwarded (gatewayId : UInt16)
    (hdistinct : ∀ b, engines b = engines a → b = a ∨ engines a = -1)
    (hb : (r.link.orderBuffer a).size = 0) (hx : ∀ x ∈ xs, Connected engines a x)
    (hok : ∀ x ∈ xs, x.order.assetId = a → .again ∉ x.answer.results) :
    ∃ ws, Forwarded engines a r (xs.foldl (route tcp gatewayId) r) (acceptedOrders gatewayId r xs)
      ws := by
  induction xs generalizing r with
  | nil => exact ⟨[], hb, (List.append_nil _).symm, rfl⟩
  | cons x xs ih =>
    obtain ⟨ws, hfirst, -⟩ :=
      route_forwards gatewayId hdistinct hb (hx x (.head _)) (hok x (.head _))
    obtain ⟨ws', hrest⟩ := ih hfirst.buffer (fun y hy => hx y (.tail _ hy)) fun y hy =>
      hok y (.tail _ hy)
    refine ⟨ws ++ ws', hrest.buffer, ?_, ?_⟩
    · rw [List.foldl_cons, hrest.writes, hfirst.writes, List.append_assoc]
    · rw [writtenTo_append, hfirst.stream, hrest.stream]
      simp [streamFor, acceptedOrders]

end

/-- **The engine of an asset gets whole orders in order**, as long as no call of `send` for its
orders would block: at all times what was written to its connection is the beginning of the accepted
orders for the asset; and nothing of these orders is written elsewhere. -/
theorem run_forwards (gatewayId : UInt16) (memory : UInt16 → UInt64 → UInt8)
    (engines : UInt16 → Int32)
    (a : UInt16) (hdistinct : ∀ b, engines b = engines a → b = a ∨ engines a = -1)
    {r : OrderRouter EngineLinks} (hr : r.link = .new memory)
    {xs : List (RouterInput EngineLinks.Answer)} (hx : ∀ x ∈ xs, Connected engines a x)
    (hok : ∀ x ∈ xs, x.order.assetId = a → .again ∉ x.answer.results) :
    (∀ ws, ws <+: (xs.foldl (route tcp gatewayId) r).link.writes →
      writtenTo (engines a) ws <+: streamFor a (acceptedOrders gatewayId r xs)) ∧
    ∀ ys x, ys ++ [x] <+: xs → x.order.assetId = a →
      ∃ ws, ((ys ++ [x]).foldl (route tcp gatewayId) r).link.writes =
        (ys.foldl (route tcp gatewayId) r).link.writes ++ ws ∧ ∀ w ∈ ws, w.1 = engines a := by
  have hb : (r.link.orderBuffer a).size = 0 := by rw [hr]; rfl
  refine ⟨fun ws hws => ?_, fun ys x hp ha => ?_⟩
  · obtain ⟨all, hall⟩ := run_forwarded gatewayId hdistinct hb hx hok
    obtain ⟨later, hlater⟩ := hws
    rw [hall.writes, hr] at hlater
    rw [← hall.stream, ← show ws ++ later = all from hlater, writtenTo_append]
    exact List.prefix_append _ _
  · have hys : ∀ y ∈ ys, y ∈ xs := fun y hy => hp.subset (List.mem_append_left _ hy)
    have hmem : x ∈ xs := hp.subset (List.mem_append_right _ (.head _))
    obtain ⟨before, hbefore⟩ := run_forwarded gatewayId hdistinct hb (fun y hy => hx y (hys y hy))
      fun y hy => hok y (hys y hy)
    obtain ⟨ws, hstep, honly⟩ :=
      route_forwards gatewayId hdistinct hbefore.buffer (hx x hmem) (hok x hmem)
    refine ⟨ws, ?_, honly ha⟩
    rw [List.foldl_append]
    exact hstep.writes

/-- The engines of the assets 1 and 2. -/
def sampleEngines (a : UInt16) : Int32 := if a = 1 then 20 else if a = 2 then 21 else -1

/-- A buy of two for 10 each, of asset `a`, by client 7 on descriptor 5. -/
def sampleBuy (a : UInt16) (results : List SendResult) : RouterInput EngineLinks.Answer :=
  { sampleInput 2 ⟨⟨sampleEngines a, 0⟩, ⟨sampleEngines a, 0⟩, results⟩ with
    order := { (⟨10, 0, 77, 7, 2, a, .limit, .buy, .execute⟩ : Order) with padding := fun _ => 0 } }

/-- Two orders for asset 1, in pieces, and between them one for asset 2 that is blocked. -/
theorem run_forwards_sample :
    let xs := [sampleBuy 1 [.sent 9, .interrupted], sampleBuy 2 [.again], sampleBuy 1 [.sent 19]]
    let r := xs.foldl (route tcp 0) (sampleRouter (.new fun _ _ => 0))
    r.link.writes.map (fun w => (w.1, w.2.length)) = [(20, 10), (20, 30), (20, 20), (20, 20)] ∧
      writtenTo 20 r.link.writes <+:
        streamFor 1 (acceptedOrders 0 (sampleRouter (.new fun _ _ => 0)) xs) := by
  have hdistinct : ∀ b, sampleEngines b = sampleEngines 1 → b = 1 ∨ sampleEngines 1 = -1 := by
    intro b hb
    by_cases h1 : b = 1
    · exact .inl h1
    · by_cases h2 : b = 2 <;> simp [sampleEngines, h1, h2] at hb
  have h := run_forwards 0 (fun _ _ => 0) sampleEngines 1 hdistinct
    (show (sampleRouter (.new fun _ _ => 0) : OrderRouter EngineLinks).link = .new fun _ _ =>
      0 from rfl)
    (show ∀ x ∈ [sampleBuy 1 [.sent 9, .interrupted], sampleBuy 2 [.again], sampleBuy 1 [.sent 19]],
      Connected sampleEngines 1 x by decide +kernel) (by decide +kernel)
  exact ⟨by decide +kernel, h.1 _ (List.prefix_refl _)⟩

/-- The first order finds the connection blocked. With the second, 40 bytes of the memory of the
buffer go to the client, and the engine gets the second order only. -/
theorem blocked_order_lost :
    let xs := [sampleBuy 1 [.again], sampleBuy 1 []]
    let r := xs.foldl (route tcp 0) (sampleRouter (.new fun _ _ => 0))
    let accepted := acceptedOrders 0 (sampleRouter (.new fun _ _ => 0)) xs
    accepted.map (fun o => o.orderId) = [1, 2] ∧
      writtenTo 5 r.link.writes = List.replicate 40 0 ∧
      writtenTo 20 r.link.writes = (accepted.drop 1).flatMap PaddedOrder.bytes ∧
      ¬ writtenTo 20 r.link.writes <+: streamFor 1 accepted := by
  decide +kernel

end Naoto.Gateway
