import NaotoExchange.Account.GatewayResponseDispatcher

/-!
# Fields of messages as indices

`GatewayHandshake`, `RoutedAuthRequest` and `Order` have a field each that the code uses as an
index: into `Gateways` in `FirstMessageHandle` and `CloseHandle`, into the account service's
`ClientStates` in `ProcessMessage`, into `GatewayFd` in `SendMessage`, and, where orders go to the
engines by TCP, into `MatchingEngines` and `OrderBuffer` in `consumeOrder`. None of the tables
checks its index. The models of these functions have a slot for every value of the field; here
`Services.accesses` lists the elements that they use, and `Services.step` stops at the first one
that a table does not have.

* `run_in_bounds`: which messages are safe, whatever else arrives.
* `unchecked_index`: the handshake check is off by one, and the other fields are not checked at all.
-/

namespace Naoto

open Run Account Gateway

/-! ## The tables -/

/-- The tables that a message from outside can index. -/
inductive Table where
  | gateways
  | clientStates
  | gatewayFd
  | matchingEngines
  | orderBuffer
  deriving DecidableEq, Repr

/-- How many entries the source gives it. -/
def Table.size : Table → Nat
  | gateways => maxGateways
  | clientStates => maxClients
  | gatewayFd => maxGateways
  | matchingEngines => maxAssets
  | orderBuffer => maxAssets

/-- An element of a table that the code reads or writes. -/
structure Access where
  table : Table
  index : Nat
  deriving DecidableEq, Repr

/-- The access stays inside its table. -/
def Access.InBounds (a : Access) : Prop := a.index < a.table.size

instance decidableInBounds (a : Access) : Decidable a.InBounds :=
  inferInstanceAs (Decidable (_ < _))

/-- An element outside its table, or what stops the services otherwise. -/
inductive Stop where
  | outside (a : Access)
  | crash (c : Crash)
  deriving DecidableEq, Repr

/-- The elements are used one after the other. -/
def useAll : List Access → Except Stop Unit
  | [] => .ok ()
  | a :: l => if a.InBounds then useAll l else .error (.outside a)

/-! ## What the services use -/

namespace Gateway

/-- `DrainBuffer`'s argument, and then `CanAdd` and `Add`, or `SendOrder`, which adds what it could
not send and otherwise looks at the slot again. -/
def EngineLinks.accesses (h : EngineLinks) (o : PaddedOrder) (e : EngineLinks.Answer) :
    List Access :=
  let orderBuffer : Access := ⟨.orderBuffer, o.assetId.toNat⟩
  let b := h.orderBuffer o.assetId
  let d := b.drainLoop h.orderOffset e.results
  orderBuffer ::
    if d.drained then
      if (SendLoop.sendAll o.bytes d.rest).unsent = [] then [⟨.matchingEngines, o.assetId.toNat⟩]
      else [orderBuffer]
    else
      let (b, _) := keepRest b d.totalSent
      orderBuffer :: if b.canAdd orderBufferSize 40 then [orderBuffer] else []

/-- The body of the loop of `consumeOrder`: the slot is loaded before the order is checked. -/
def OrderRouter.accesses (gatewayId : UInt16) (r : OrderRouter EngineLinks)
    (x : RouterInput EngineLinks.Answer) : List Access :=
  ⟨.matchingEngines, x.order.assetId.toNat⟩ ::
    if (r.screen tcp x).1 = .accepted then r.link.accesses (r.numbered gatewayId x) x.answer else []

end Gateway

/-- The account service, and the order router of a gateway. -/
structure Services where
  server : GatewayEpollServer
  responses : Responses
  router : OrderRouter EngineLinks

/-- A handshake, a request or an order arrives; or a connection opens or closes, or the dispatcher
makes a round. -/
inductive Received where
  | connection (e : ConnectionEvent)
  | response (e : ResponseEvent)
  | order (x : RouterInput EngineLinks.Answer)

namespace Services

/-- No connection and no request yet. -/
def start (memory : Nat → ClientAccountSnapshot) (router : OrderRouter EngineLinks) : Services :=
  ⟨.new, .new memory, router⟩

variable (s : Services)

/-- `FirstMessageHandle` and `CloseHandle`. -/
def connectionAccesses : ConnectionEvent → List Access
  | .accept _ => []
  | .handshake _ gatewayId =>
    if maxGateways < gatewayId.toNat then [] else [⟨.gateways, gatewayId.toNat⟩]
  | .close fd => [⟨.gateways, (s.server.fdToGateways fd).toNat⟩]

/-- `ProcessMessage`, which reads the client's state before anything else, and `SendMessage`. -/
def responseAccesses : ResponseEvent → List Access
  | .request _ curMessage => [⟨.clientStates, curMessage.clientId.toNat⟩]
  | .consume _ =>
    match s.responses.queue with
    | [] => []
    | r :: _ => [⟨.gatewayFd, r.gatewayId.toNat⟩]

/-- The elements that are used, in order. -/
def accesses (gatewayId : UInt16) : Received → List Access
  | .connection e => s.connectionAccesses e
  | .response e => s.responseAccesses e
  | .order x => s.router.accesses gatewayId x

section
variable (sha256 : Key → Key) (gatewayId : UInt16)

/-- What the services do with something they receive. -/
def handle : Received → Except Stop Services
  | .connection e => .ok { s with server := s.server.handle e }
  | .response e =>
    match s.responses.step sha256 e with
    | .ok (responses, _) => .ok { s with responses }
    | .error c => .error (.crash c)
  | .order x => .ok { s with router := s.router.route tcp gatewayId x }

/-- The elements are used, and then everything is as the models say. -/
def step (s : Services) (e : Received) : Except Stop (Services × Unit) := do
  useAll (s.accesses gatewayId e)
  return (← s.handle sha256 gatewayId e, ())

end

end Services

/-! ## What the messages have to say -/

/-- The fields have the values that the tables are made for. -/
def Received.Valid : Received → Prop
  | connection (.handshake _ gatewayId) => gatewayId.toNat ≠ maxGateways
  | connection _ => True
  | response (.request _ curMessage) => curMessage.clientId.toNat < maxClients ∧
      (curMessage.requestType = .details → curMessage.gatewayId.toNat < maxGateways)
  | response (.consume _) => True
  | order x => x.order.assetId.toNat < maxAssets

instance decidableValid : (e : Received) → Decidable e.Valid
  | .connection (.handshake _ _) => inferInstanceAs (Decidable (_ ≠ _))
  | .connection (.accept _) => .isTrue trivial
  | .connection (.close _) => .isTrue trivial
  | .response (.request _ _) => inferInstanceAs (Decidable (_ ∧ _))
  | .response (.consume _) => .isTrue trivial
  | .order _ => inferInstanceAs (Decidable (_ < _))

/-! ## One message -/

theorem useAll_ok {l : List Access} (h : ∀ a ∈ l, a.InBounds) : useAll l = .ok () := by
  induction l with
  | nil => rfl
  | cons a l ih =>
    rw [useAll, if_pos (h a List.mem_cons_self)]
    exact ih fun a' ha' => h a' (List.mem_cons_of_mem _ ha')

namespace Services

variable {sha256 : Key → Key} {gatewayId : UInt16} {s s' : Services} {e : Received}

theorem step_of_inBounds (h : ∀ a ∈ s.accesses gatewayId e, a.InBounds) :
    s.step sha256 gatewayId e = (s.handle sha256 gatewayId e).map fun s' => (s', ()) := by
  unfold step
  rw [useAll_ok h]
  cases s.handle sha256 gatewayId e <;> rfl

theorem step_outside (sha256 : Key → Key) {a : Access} {l : List Access}
    (hacc : s.accesses gatewayId e = a :: l) (ha : ¬ a.InBounds) :
    s.step sha256 gatewayId e = .error (.outside a) := by
  unfold step
  rw [hacc, useAll, if_neg ha]
  rfl

theorem handle_not_outside (a : Access) : s.handle sha256 gatewayId e ≠ .error (.outside a) := by
  cases e with
  | connection e => exact nofun
  | order x => exact nofun
  | response e =>
    unfold handle
    dsimp only
    split
    · exact nofun
    · exact nofun

/-- What the services have kept of the fields of earlier messages. -/
structure InRange (s : Services) : Prop where
  fdToGateways : ∀ fd, (s.server.fdToGateways fd).toNat < maxGateways
  queue : ∀ r ∈ s.responses.queue, r.gatewayId.toNat < maxGateways

theorem start_inRange (memory : Nat → ClientAccountSnapshot) (router : OrderRouter EngineLinks) :
    (start memory router).InRange := by
  refine ⟨fun fd => ?_, fun r hr => ?_⟩
  · exact (by decide : (0 : UInt16).toNat < maxGateways)
  · cases hr

/-! ### The elements of a valid message -/

theorem linkAccesses_asset {h : EngineLinks} {o : PaddedOrder} {answer : EngineLinks.Answer}
    {a : Access} (ha : a ∈ h.accesses o answer) :
    a = ⟨.orderBuffer, o.assetId.toNat⟩ ∨ a = ⟨.matchingEngines, o.assetId.toNat⟩ := by
  unfold EngineLinks.accesses at ha
  dsimp only at ha
  split_ifs at ha <;> simp_all

theorem orderAccesses_asset {r : OrderRouter EngineLinks} {x : RouterInput EngineLinks.Answer}
    {a : Access}
    (ha : a ∈ r.accesses gatewayId x) : a.index = x.order.assetId.toNat ∧
    a.table.size = maxAssets := by
  rcases List.mem_cons.mp ha with rfl | ha
  · exact ⟨rfl, rfl⟩
  split at ha
  · rcases linkAccesses_asset ha with rfl | rfl
    · exact ⟨rfl, rfl⟩
    · exact ⟨rfl, rfl⟩
  · cases ha

/-- **One valid message** uses elements that the tables have. -/
theorem InRange.accesses (h : s.InRange) (hvalid : e.Valid) :
    ∀ a ∈ s.accesses gatewayId e, a.InBounds := by
  intro a ha
  cases e with
  | connection e =>
    cases e with
    | accept fd => cases ha
    | handshake fd id =>
      change a ∈ (if maxGateways < id.toNat then [] else [⟨.gateways, id.toNat⟩]) at ha
      split at ha
      · cases ha
      · rename_i hpass
        rw [List.mem_singleton.mp ha]
        have hne : id.toNat ≠ maxGateways := hvalid
        show id.toNat < maxGateways
        omega
    | close fd =>
      rw [List.mem_singleton.mp ha]
      exact h.fdToGateways fd
  | response e =>
    cases e with
    | request states curMessage =>
      rw [List.mem_singleton.mp ha]
      exact hvalid.1
    | consume x =>
      cases hq : s.responses.queue with
      | nil =>
        simp only [Services.accesses, responseAccesses, hq] at ha
        cases ha
      | cons r queue =>
        simp only [Services.accesses, responseAccesses, hq] at ha
        rw [List.mem_singleton.mp ha]
        exact h.queue r (hq ▸ List.mem_cons_self)
  | order x =>
    obtain ⟨hindex, hsize⟩ := orderAccesses_asset ha
    show a.index < a.table.size
    rw [hindex, hsize]
    exact hvalid

/-! ### What a valid message leaves behind -/

theorem InRange.connection (h : s.InRange) {e : ConnectionEvent}
    (hvalid : (Received.connection e).Valid)
    (fd : UInt32) : ((s.server.handle e).fdToGateways fd).toNat < maxGateways := by
  cases e with
  | accept fd' => exact h.fdToGateways fd
  | close fd' => exact h.fdToGateways fd
  | handshake fd' id =>
    have hne : id.toNat ≠ maxGateways := hvalid
    show ((s.server.firstMessageHandle id fd').fdToGateways fd).toNat < maxGateways
    unfold GatewayEpollServer.firstMessageHandle
    split
    · exact h.fdToGateways fd
    · show (Function.update s.server.fdToGateways fd' id fd).toNat < maxGateways
      by_cases heq : fd = fd'
      · rw [heq, Function.update_self]
        omega
      · rw [Function.update_of_ne heq]
        exact h.fdToGateways fd

theorem InRange.response (h : s.InRange) {e : ResponseEvent} (hvalid : (Received.response e).Valid)
    {responses : Responses} {u : Unit} (hs : s.responses.step sha256 e = .ok (responses, u)) :
    ∀ r ∈ responses.queue, r.gatewayId.toNat < maxGateways := by
  intro r hr
  rcases Responses.step_queue hs hr with hold | ⟨states, curMessage, rfl, hdetails, hid⟩
  · exact h.queue r hold
  · rw [hid]
    exact hvalid.2 hdetails

theorem InRange.handle (h : s.InRange) (hvalid : e.Valid)
    (hs : s.handle sha256 gatewayId e = .ok s') : s'.InRange := by
  cases e with
  | connection e =>
    cases hs
    exact ⟨h.connection hvalid, h.queue⟩
  | order x =>
    cases hs
    exact ⟨h.fdToGateways, h.queue⟩
  | response e =>
    unfold Services.handle at hs
    dsimp only at hs
    split at hs
    · next responses u hstep =>
      cases hs
      exact ⟨h.fdToGateways, h.response hvalid hstep⟩
    · cases hs

theorem InRange.step (h : s.InRange) (hvalid : e.Valid) {u : Unit}
    (hs : s.step sha256 gatewayId e = .ok (s', u)) : s'.InRange := by
  rw [step_of_inBounds (h.accesses hvalid)] at hs
  cases hh : s.handle sha256 gatewayId e with
  | error c =>
    rw [hh] at hs
    cases hs
  | ok t =>
    rw [hh] at hs
    cases hs
    exact h.handle hvalid hh

/-! ## Runs -/

variable {memory : Nat → ClientAccountSnapshot} {router : OrderRouter EngineLinks}
  {es : List Received}

theorem run_inRange (hvalid : ∀ e ∈ es, e.Valid) {outs : List Unit}
    (hr : run (step sha256 gatewayId) (start memory router) es = .ok (s, outs)) : s.InRange := by
  have hpre : Along (fun _ e => e.Valid) (step sha256 gatewayId) (start memory router) es :=
    fun xs e hp _ _ _ => hvalid e (hp.subset (List.mem_append_right _ List.mem_cons_self))
  refine run_invariant (P := fun _ s _ => s.InRange) (start_inRange memory router) hpre ?_ hr
  exact fun _ _ _ _ _ _ _ _ h hv hs => h.step hv hs

/-- Along a run of valid messages every element is one that the table has. -/
theorem along_inBounds (hvalid : ∀ e ∈ es, e.Valid) :
    Along (fun s e => ∀ a ∈ s.accesses gatewayId e, a.InBounds) (step sha256 gatewayId)
      (start memory router) es := by
  intro xs e hp s outs hr
  have hxs : ∀ x ∈ xs, x.Valid := fun x hx => hvalid x (hp.subset (List.mem_append_left _ hx))
  exact (run_inRange hxs hr).accesses
    (hvalid e (hp.subset (List.mem_append_right _ List.mem_cons_self)))

theorem run_not_outside (hvalid : ∀ e ∈ es, e.Valid) (a : Access) :
    run (step sha256 gatewayId) (start memory router) es ≠ .error (.outside a) := by
  intro hr
  obtain ⟨xs, e, s, outs, hp, hxs, hs⟩ := run_error hr
  rw [step_of_inBounds (along_inBounds hvalid xs e hp s outs hxs)] at hs
  cases hh : s.handle sha256 gatewayId e with
  | ok s' =>
    rw [hh] at hs
    cases hs
  | error c =>
    rw [hh] at hs
    cases hs
    exact handle_not_outside a hh

theorem start_request (sha256 : Key → Key) (gatewayId : UInt16)
    (memory : Nat → ClientAccountSnapshot)
    (router : OrderRouter EngineLinks) (states : Account.ClientStates)
    {curMessage : RoutedAuthRequest}
    (hclient : curMessage.clientId.toNat < maxClients)
    (hdetails : curMessage.requestType = .details) :
    ∃ s p, (start memory router).step sha256 gatewayId (.response (.request states curMessage)) =
    .ok (s, ()) ∧
      s.responses.queue = [⟨curMessage.gatewayId, p⟩] := by
  obtain ⟨snapshot, hp⟩ :=
    Option.isSome_iff_exists.mp ((processMessage_isSome sha256 states curMessage).mpr hdetails)
  obtain ⟨responses, hrespond, hqueue⟩ : ∃ responses,
      (Responses.new memory).respond curMessage.gatewayId snapshot = .ok responses ∧
        responses.queue = [⟨curMessage.gatewayId, 0⟩] := ⟨_, rfl, rfl⟩
  have hstep : (Responses.new memory).step sha256 (.request states curMessage) = .ok
      (responses, ()) := by
    simp only [Responses.step, hp, hrespond, Except.map]
  refine ⟨⟨.new, responses, router⟩, 0, ?_, hqueue⟩
  rw [step_of_inBounds]
  · simp only [handle, start, hstep, Except.map]
  · intro a ha
    rw [List.mem_singleton.mp ha]
    exact hclient

/-- **A message that is not valid** stops the services, at once or when its answer is sent. -/
theorem exists_outside (hvalid : ¬ e.Valid) (x : Attempt) : ∃ a,
    run (step sha256 gatewayId) (start memory router) [e, .response (.consume x)] =
    .error (.outside a) := by
  have hfirst : ∀ {a : Access} {l : List Access}, (start memory router).accesses gatewayId e =
      a :: l →
      ¬ a.InBounds → ∃ a, run (step sha256 gatewayId) (start memory router)
        [e, .response (.consume x)] = .error (.outside a) := by
    intro a l hacc ha
    rw [run_cons, step_outside sha256 hacc ha]
    exact ⟨a, rfl⟩
  cases e with
  | connection e =>
    cases e with
    | accept fd => exact absurd trivial hvalid
    | close fd => exact absurd trivial hvalid
    | handshake fd id =>
      have hid : id.toNat = maxGateways := not_not.mp hvalid
      have hpass : ¬ maxGateways < id.toNat := by omega
      exact hfirst (if_neg hpass) (show ¬ id.toNat < maxGateways by omega)
  | order y => exact hfirst rfl hvalid
  | response e =>
    cases e with
    | consume y => exact absurd trivial hvalid
    | request states curMessage =>
      by_cases hclient : curMessage.clientId.toNat < maxClients
      · -- the request is answered, and the answer has no slot
        have hslot : ¬ (curMessage.requestType = .details →
            curMessage.gatewayId.toNat < maxGateways) :=
          fun h => hvalid ⟨hclient, h⟩
        obtain ⟨hdetails, hid⟩ := Classical.not_imp.mp hslot
        obtain ⟨s, p, hs, hq⟩ := start_request sha256 gatewayId memory router states hclient
          hdetails
        have hacc : s.accesses gatewayId (.response (.consume x)) =
            [⟨.gatewayFd, curMessage.gatewayId.toNat⟩] := by
          simp only [Services.accesses, responseAccesses, hq]
        have hnext := step_outside sha256 hacc hid
        refine ⟨⟨.gatewayFd, curMessage.gatewayId.toNat⟩, ?_⟩
        rw [run_cons, hs, Except.bind, run_cons, hnext]
        rfl
      · exact hfirst rfl hclient

/-- **Messages as indices**: while every message is valid, the services use only elements that the
tables have, on every path, and no run stops at an index. And each condition is needed: a message
that is not valid stops services that have just started, in its own handler or in the next round of
the dispatcher. -/
theorem run_in_bounds (sha256 : Key → Key) (gatewayId : UInt16)
    (memory : Nat → ClientAccountSnapshot) (router : OrderRouter EngineLinks) :
    (∀ es : List Received, (∀ e ∈ es, e.Valid) →
      Along (fun s e => ∀ a ∈ s.accesses gatewayId e, a.InBounds) (step sha256 gatewayId)
        (start memory router) es ∧
      ∀ a, run (step sha256 gatewayId) (start memory router) es ≠ .error (.outside a)) ∧
    ∀ (e : Received) (x : Attempt), ¬ e.Valid → ∃ a,
      run (step sha256 gatewayId) (start memory router) [e, .response (.consume x)] =
      .error (.outside a) := by
  refine ⟨fun es hvalid => ⟨along_inBounds hvalid, run_not_outside hvalid⟩, fun e x hvalid => ?_⟩
  exact exists_outside hvalid x

/-- Client 7 on descriptor 5 buys two for 10 each; its gateway has cash of 100 for it. -/
def buyOf (auth : UInt8) (assetId : UInt16) : RouterInput EngineLinks.Answer where
  fd := 5
  auth := auth
  order := { (⟨10, 0, 77, 7, 2, assetId, .limit, .buy, .execute⟩ : Order)
    with padding := fun _ => 0 }
  state := { clientId := 7, assetId := fun i => UInt16.ofNat i.val, auth := 1, sessionId := 0,
             confirmed := fun _ => 100, attempt := fun _ => 0 }
  answer := ⟨⟨20, 0⟩, ⟨20, 0⟩, []⟩

def sampleServices : Services :=
  start sampleMemory ⟨fun _ => ⟨fun _ => 0, 0⟩, 0, .new fun _ _ => 0, []⟩

/-- Gateway 3 connects, its client 7 logs in and buys asset 1; a handshake for gateway 40 is
refused. -/
def validMessages : List Received :=
  [.connection (.handshake 5 3), .response login, .connection (.handshake 6 40),
    .response (.consume (attempt (.sent snapshotSize))), .order (buyOf 1 1)]

theorem run_in_bounds_valid :
    (∀ e ∈ validMessages, e.Valid) ∧
    (∃ s outs, run (step id 3) sampleServices validMessages = .ok (s, outs)) ∧
    (∀ a, run (step id 3) sampleServices validMessages ≠ .error (.outside a)) ∧
    ∃ a, run (step id 3) sampleServices
      [.order (buyOf 1 200), .response (.consume (attempt .blocked))] = .error (.outside a) := by
  have hvalid : ∀ e ∈ validMessages, e.Valid := by decide +kernel
  have hinvalid : ¬ (Received.order (buyOf 1 200)).Valid := by decide
  obtain ⟨hbounds, hneeded⟩ := run_in_bounds id 3 sampleMemory sampleServices.router
  refine ⟨hvalid, ?_, (hbounds validMessages hvalid).2, hneeded _ _ hinvalid⟩
  obtain ⟨s, outs, hr, -⟩ := exists_of_succeeds (P := fun _ _ => True)
    (r := run (step id 3) sampleServices validMessages) (by decide +kernel)
  exact ⟨s, outs, hr⟩

/-- Gateway 20 asks for the details of a client of gateway 3. -/
def strayRequest : RoutedAuthRequest := { sampleRequest with gatewayId := 20 }

/-- A handshake for gateway 16 gets past the check. A request for client 1024 is looked up. One from
gateway 20 is refused, and the refusal is sent there. An order for asset 200 of a client that is not
logged in is rejected after the slot of the asset was read; if the client is logged in and has the
cash, the risk check accepts it and it goes to the asset's buffer. -/
theorem unchecked_index :
    run (step id 3) sampleServices [.connection (.handshake 5 16)] =
    .error (.outside ⟨.gateways, 16⟩) ∧
    run (step id 3) sampleServices
      [.response (.request sampleStates { sampleRequest with clientId := 1024 })] =
      .error (.outside ⟨.clientStates, 1024⟩) ∧
    (processMessage id sampleStates strayRequest = some (denial .refused strayRequest) ∧
      run (step id 3) sampleServices [.response (.request sampleStates strayRequest),
        .response (.consume (attempt .blocked))] = .error (.outside ⟨.gatewayFd, 20⟩)) ∧
    ((sampleServices.router.screen tcp (buyOf 0 200)).1 = .userNotConnected ∧
      run (step id 3) sampleServices [.order (buyOf 0 200)] =
      .error (.outside ⟨.matchingEngines, 200⟩)) ∧
    (sampleServices.router.screen tcp (buyOf 1 200)).1 = .accepted ∧
      ⟨.orderBuffer, 200⟩ ∈ sampleServices.accesses 3 (.order (buyOf 1 200)) := by
  refine ⟨rfl, rfl, ⟨by decide +kernel, rfl⟩,
    ⟨by decide +kernel, rfl⟩, by decide +kernel, by decide +kernel⟩

end Services

end Naoto
