import NaotoExchange.Engine.BidAsk
import NaotoExchange.Gateway.Agreement
import NaotoExchange.Gateway.OrderRouter

/-!
# The exchange as one system

A gateway whose router pushes the accepted orders into the queue in shared memory, the engine that
takes them out, and the two writers that follow the engine's reports: the gateway's and the account
service's. Clients log in, by a request to the account service and its answer to the gateway, and
are disconnected. Each part runs in a thread of its own, at its own pace; a run of the exchange is
any interleaving of their steps. The reports travel by multicast, which delivers them in order and
without gaps (`Common/MulticastDelivery`), so each writer has handled a prefix of all reports; the
answers travel by TCP.
-/

namespace Naoto

open Gateway Engine

/-- One gateway, the engine of one asset and the account service, with what is on its way between
them. -/
structure Exchange (M : Type) where
  /-- The router, with all orders it has pushed into the queue. -/
  router : OrderRouter (List PaddedOrder)
  /-- How many of them the engine has taken out. -/
  taken : Nat
  engine : FlatBidAsk
  /-- All reports of the engine. -/
  reports : List OrderStateReport
  writer : ClientStatesWriter M
  /-- How many of the reports the gateway and the account service have handled. -/
  atGateway : Nat
  account : Account.ClientStates
  atAccount : Nat
  /-- All answers of the account service to login requests. -/
  answers : List ClientAccountSnapshot
  /-- How many of them the gateway has handled. -/
  answered : Nat

namespace Exchange

/-- What can happen next: every part goes on at its own pace. -/
inductive Action where
  /-- The router handles an order from the descriptor `fd`, which came in with the authentication
  status `auth`; the queue may be full. -/
  | order (fd : UInt32) (auth : UInt8) (order : PaddedOrder) (full : Bool)
  /-- The engine takes out an order and processes it. -/
  | process
  /-- A writer handles the next `n` reports, or as many as there are, as one batch. -/
  | gateway (n : Nat)
  | account (n : Nat)
  /-- The account service handles a login request. -/
  | login (request : RoutedAuthRequest)
  /-- The gateway handles the next answer. -/
  | answer
  /-- The gateway learns that a descriptor has been closed. -/
  | disconnect (fd : UInt32)

variable {M : Type}

/-- A router that has seen nothing, an engine that has done nothing, and writers that have seen no
reports. -/
def new (ordersCount : UInt64) (engine : FlatBidAsk) (writer : ClientStatesWriter M)
    (account : Account.ClientStates) : Exchange M where
  router := ⟨fun _ => ⟨fun _ => 0, 0⟩, ordersCount, [], []⟩
  taken := 0
  engine := engine
  reports := []
  writer := writer
  atGateway := 0
  account := account
  atAccount := 0
  answers := []
  answered := 0

/-- What the router reads for an order. -/
def routerInput (x : Exchange M) (fd : UInt32) (auth : UInt8) (order : PaddedOrder) (full : Bool) :
    RouterInput Bool where
  fd := fd
  auth := auth
  order := order
  state := x.writer.states.getClientState fd
  answer := full

/-- The exchange after the router has handled an order. -/
def routed (gatewayId : UInt16) (x : Exchange M) (fd : UInt32) (auth : UInt8) (order : PaddedOrder)
    (full : Bool) : Exchange M :=
  { x with router := x.router.route sharedMemory gatewayId (x.routerInput fd auth order full) }

/-- The order that the engine takes next. -/
def nextOrder (x : Exchange M) : Option PaddedOrder := x.router.link[x.taken]?

/-- The exchange after the engine has taken out an order. -/
def processing (x : Exchange M) (engine : FlatBidAsk) (out : BidAsk.Out) : Exchange M :=
  { x with taken := x.taken + 1, engine, reports := x.reports ++ out.reports }

/-- The answer that the gateway handles next. -/
def nextAnswer (x : Exchange M) : Option ClientAccountSnapshot := x.answers[x.answered]?

/-- The next reports after the first `seen`. -/
def nextReports (x : Exchange M) (seen n : Nat) : List OrderStateReport :=
  (x.reports.drop seen).take n

/-- A writer that has handled the first reports and then handles the next ones has handled the first
reports. -/
theorem take_nextReports (x : Exchange M) (seen n : Nat) :
    x.reports.take (seen + (x.nextReports seen n).length) =
      x.reports.take seen ++ x.nextReports seen n := by
  unfold nextReports
  rw [List.take_add, List.length_take, List.length_drop]
  congr 1
  rcases Nat.le_total n (x.reports.length - seen) with h | h
  · rw [Nat.min_eq_left h]
  · rw [Nat.min_eq_right h, List.take_of_length_le (by simp),
      List.take_of_length_le (by simpa using h)]

section
variable [ClientFdMap M]

/-- The step of a part; nothing happens if what it waits for is not there. -/
def step (sha256 : Account.Key → Account.Key) (gatewayId : UInt16) (x : Exchange M) :
    Action → Except Fault (Exchange M × Unit)
  | .order fd auth order full => .ok (routed gatewayId x fd auth order full, ())
  | .process =>
    match x.nextOrder with
    | none => .ok (x, ())
    | some o =>
      match x.engine.step o.toOrder with
      | .error e => .error e
      | .ok (engine, out) => .ok (x.processing engine out, ())
  | .gateway n =>
    let batch := x.nextReports x.atGateway n
    .ok ({ x with writer := x.writer.handleReports batch
                  atGateway := x.atGateway + batch.length }, ())
  | .account n =>
    let batch := x.nextReports x.atAccount n
    .ok ({ x with account := x.account.handle batch
                  atAccount := x.atAccount + batch.length }, ())
  | .login request =>
    .ok ({ x with
      answers := x.answers ++ (Account.processMessage sha256 x.account request).toList }, ())
  | .answer =>
    match x.nextAnswer with
    | none => .ok (x, ())
    | some response =>
      .ok ({ x with writer := x.writer.handleResponse response, answered := x.answered + 1 }, ())
  | .disconnect fd => .ok ({ x with writer := x.writer.handleDisconnect fd }, ())

/-- The actions, one after the other. -/
def run (sha256 : Account.Key → Account.Key) (gatewayId : UInt16) (x : Exchange M)
    (actions : List Action) : Except Fault (Exchange M × List Unit) :=
  Run.run (step sha256 gatewayId) x actions

/-! ## What a step can do -/

/-- The queue, the engine and its reports are the same. -/
structure SameMarket (x x' : Exchange M) : Prop where
  router : x'.router = x.router
  taken : x'.taken = x.taken
  engine : x'.engine = x.engine
  reports : x'.reports = x.reports

omit [ClientFdMap M] in
theorem SameMarket.refl (x : Exchange M) : SameMarket x x := ⟨rfl, rfl, rfl, rfl⟩

variable {sha256 : Account.Key → Account.Key} {gatewayId : UInt16} {x x' : Exchange M} {u : Unit}
  {act : Action}

/-- The step gives the engine nothing to do. -/
def Idle (x : Exchange M) : Action → Prop
  | .order _ _ _ _ => False
  | .process => x.nextOrder = none
  | .gateway _ | .account _ | .login _ | .answer | .disconnect _ => True

/-- **What a step can do to the market**: the router handles an order, the engine takes one out, or
nothing happens to it. -/
theorem step_market (h : step sha256 gatewayId x act = .ok (x', u)) :
    (∃ fd auth order full, act = .order fd auth order full ∧
      x' = routed gatewayId x fd auth order full) ∨
    (∃ o engine out, act = .process ∧ x.nextOrder = some o ∧
      x.engine.step o.toOrder = .ok (engine, out) ∧ x' = x.processing engine out) ∨
    (Idle x act ∧ SameMarket x x') := by
  cases act with
  | order fd auth order full =>
    cases h
    exact .inl ⟨fd, auth, order, full, rfl, rfl⟩
  | process =>
    simp only [step] at h
    split at h
    · next hnone =>
      cases h
      exact .inr (.inr ⟨hnone, .refl _⟩)
    · next o ho =>
      split at h
      · cases h
      · next engine out hs =>
        cases h
        exact .inr (.inl ⟨o, engine, out, rfl, ho, hs, rfl⟩)
  | gateway n =>
    cases h
    exact .inr (.inr ⟨trivial, rfl, rfl, rfl, rfl⟩)
  | account n =>
    cases h
    exact .inr (.inr ⟨trivial, rfl, rfl, rfl, rfl⟩)
  | login request =>
    cases h
    exact .inr (.inr ⟨trivial, rfl, rfl, rfl, rfl⟩)
  | answer =>
    simp only [step] at h
    split at h
    · cases h
      exact .inr (.inr ⟨trivial, .refl _⟩)
    · cases h
      exact .inr (.inr ⟨trivial, rfl, rfl, rfl, rfl⟩)
  | disconnect fd =>
    cases h
    exact .inr (.inr ⟨trivial, rfl, rfl, rfl, rfl⟩)

/-- **What a step can do to the gateway's states of the clients.** -/
theorem step_writer (h : step sha256 gatewayId x act = .ok (x', u)) :
    (∃ n, act = .gateway n ∧ x'.writer = x.writer.handleReports (x.nextReports x.atGateway n) ∧
      x'.atGateway = x.atGateway + (x.nextReports x.atGateway n).length) ∨
    x'.atGateway = x.atGateway ∧ (x'.writer = x.writer ∨
      (∃ response, act = .answer ∧ x.nextAnswer = some response ∧
        x'.writer = x.writer.handleResponse response) ∨
      ∃ fd, act = .disconnect fd ∧ x'.writer = x.writer.handleDisconnect fd) := by
  cases act with
  | order fd auth order full =>
    cases h
    exact .inr ⟨rfl, .inl rfl⟩
  | process =>
    simp only [step] at h
    split at h
    · cases h
      exact .inr ⟨rfl, .inl rfl⟩
    · split at h
      · cases h
      · cases h
        exact .inr ⟨rfl, .inl rfl⟩
  | gateway n =>
    cases h
    exact .inl ⟨n, rfl, rfl, rfl⟩
  | account n =>
    cases h
    exact .inr ⟨rfl, .inl rfl⟩
  | login request =>
    cases h
    exact .inr ⟨rfl, .inl rfl⟩
  | answer =>
    simp only [step] at h
    split at h
    · cases h
      exact .inr ⟨rfl, .inl rfl⟩
    · next response hr =>
      cases h
      exact .inr ⟨rfl, .inr (.inl ⟨response, rfl, hr, rfl⟩)⟩
  | disconnect fd =>
    cases h
    exact .inr ⟨rfl, .inr (.inr ⟨fd, rfl, rfl⟩)⟩

/-- **What a step can do to the account service's states.** -/
theorem step_account (h : step sha256 gatewayId x act = .ok (x', u)) :
    (∃ n, x'.account = x.account.handle (x.nextReports x.atAccount n) ∧
      x'.atAccount = x.atAccount + (x.nextReports x.atAccount n).length) ∨
    x'.account = x.account ∧ x'.atAccount = x.atAccount := by
  cases act with
  | account n =>
    cases h
    exact .inl ⟨n, rfl, rfl⟩
  | process =>
    simp only [step] at h
    split at h
    · cases h
      exact .inr ⟨rfl, rfl⟩
    · split at h
      · cases h
      · cases h
        exact .inr ⟨rfl, rfl⟩
  | answer =>
    simp only [step] at h
    split at h <;> cases h <;> exact .inr ⟨rfl, rfl⟩
  | order fd auth order full =>
    cases h
    exact .inr ⟨rfl, rfl⟩
  | gateway n =>
    cases h
    exact .inr ⟨rfl, rfl⟩
  | login request =>
    cases h
    exact .inr ⟨rfl, rfl⟩
  | disconnect fd =>
    cases h
    exact .inr ⟨rfl, rfl⟩

omit [ClientFdMap M] in
/-- **What the router can do**: it pushes the order under its number, if it has accepted it and the
queue is not full. -/
theorem route_cases (gatewayId : UInt16) (r : OrderRouter (List PaddedOrder))
    (y : RouterInput Bool) :
    let r' := r.route sharedMemory gatewayId y
    r'.ordersCount = r.ordersCount + 1 ∧
      r'.localFunds = Function.update r.localFunds y.fd
        (checkOrderRisk y.state (r.localFunds y.fd) y.order.toOrder y.auth).2 ∧
      (r'.link = r.link ∨
        (checkOrderRisk y.state (r.localFunds y.fd) y.order.toOrder y.auth).1 = .accepted ∧
          r'.link = r.link ++ [r.numbered gatewayId y]) := by
  intro r'
  have hscreen : r.screen sharedMemory y =
      checkOrderRisk y.state (r.localFunds y.fd) y.order.toOrder y.auth := rfl
  simp only [r', OrderRouter.route, hscreen]
  split
  · next hacc =>
    refine ⟨rfl, rfl, ?_⟩
    cases hfull : y.answer with
    | true => exact .inl (by simp [sharedMemory])
    | false => exact .inr ⟨hacc, by simp [sharedMemory]⟩
  · exact ⟨rfl, rfl, .inl rfl⟩

theorem nextOrderId_eq (r : OrderRouter (List PaddedOrder)) :
    r.nextOrderId gatewayId = r.ordersCount.toUInt32 := by
  have hmask : (((1 : UInt64) <<< 48) - 1).toNat = 2 ^ 48 - 1 := by decide
  have hgateway : (gatewayId.toUInt64 <<< 48).toNat % 2 ^ 32 = 0 := by
    rw [UInt64.toNat_shiftLeft]
    simp [Nat.shiftLeft_eq]
    omega
  apply UInt32.toNat_inj.1
  rw [OrderRouter.nextOrderId, UInt64.toNat_toUInt32, UInt64.toNat_toUInt32, UInt64.toNat_or,
    UInt64.toNat_and, hmask, Nat.or_mod_two_pow, hgateway, Nat.and_two_pow_sub_one_eq_mod,
    Nat.zero_or, Nat.mod_mod_of_dvd _ (by decide)]

end

/-! ## The opening -/

/-- An exchange when it opens: an empty book, and states of the clients which some calls have led
to, with nothing staged. -/
structure Opening (M : Type) where
  /-- The hash of the clients' keys. -/
  sha256 : Account.Key → Account.Key
  gatewayId : UInt16
  ordersCount : UInt64
  assetId : UInt32
  initialPrice : Int64
  reportSeq : UInt32
  bookSeq : UInt32
  bidSeed : UInt64
  askSeed : UInt64
  writer : ClientStatesWriter M
  account : Account.ClientStates
  called : ∃ calls : List (UInt32 × StatesCall),
    writer.states = calls.foldl (fun s c => s.call c.1 c.2) ClientStates.new
  unstaged : writer.states.Unstaged
  accountCalled : ∃ (init : UInt32 → Account.ClientState) (calls : List Account.ClientStates.Call),
    account = calls.foldl Account.ClientStates.call (.new init)
  accountUnstaged : account.Unstaged

namespace Opening

variable (p : Opening M)

/-- The asset of the engine, as orders name it. -/
def asset : UInt16 := p.assetId.toUInt16

/-- What the gateway publishes on a descriptor at the opening. -/
def published (fd : UInt32) : ClientState := p.writer.states.getClientState fd

/-- The state of the exchange at the opening. -/
def exchange : Exchange M :=
  .new p.ordersCount (.newFlat p.assetId p.initialPrice p.reportSeq p.bookSeq p.bidSeed p.askSeed)
    p.writer p.account

theorem synced (fd : UInt32) : (p.writer.states fd).Synced := by
  obtain ⟨calls, h⟩ := p.called
  rw [h]
  exact (run_copied calls fd).synced

theorem accountSynced (id : UInt32) : (p.account id).Synced := by
  obtain ⟨init, calls, h⟩ := p.accountCalled
  rw [h]
  exact Account.ClientStates.synced_calls init calls id

variable [ClientFdMap M]

/-- A run of the exchange from its opening. -/
def run (actions : List Action) : Except Fault (Exchange M × List Unit) :=
  Exchange.run p.sha256 p.gatewayId p.exchange actions

/-- All steps of a run from the opening meet the condition. -/
def Throughout (pre : Exchange M → Action → Prop) (actions : List Action) : Prop :=
  Run.Along pre (step p.sha256 p.gatewayId) p.exchange actions

instance (pre : Exchange M → Action → Prop) [∀ x act, Decidable (pre x act)]
    (actions : List Action) : Decidable (p.Throughout pre actions) :=
  inferInstanceAs (Decidable (Run.Along pre (step p.sha256 p.gatewayId) p.exchange actions))

end Opening

end Exchange

end Naoto
