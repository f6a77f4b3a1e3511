import NaotoExchange.Engine.Proof.Tables
import NaotoExchange.Exchange.Obligations
import NaotoExchange.Exchange.System
import NaotoExchange.Gateway.Commitments
import NaotoExchange.Gateway.Routing

/-!
# Nobody is overdrawn

The gateway grants orders against the balances it has seen, which may be far behind the engine, and
against what it has granted since the login. Nevertheless, in any interleaving of the router, the
engine, the two writers and the logins of others:

* `run_available`: the gateway never takes more for available than the client really has free, which
  is the balance after all the engine's reports less what the orders in the queue and in the book
  can still cost.
* `run_solvent`: no confirmed balance is ever negative, neither in the gateway nor in the account
  service.

This is for orders of the engine's asset that name one of the two sides, at prices that are not
negative, cancel requests that name the right side, hash maps that are not crowded, a session that
lasts (`Apart`), and as long as no 64-bit value wraps. `Exchange/Login` has what a login in the
middle of the market does.
-/

namespace Naoto.Exchange

open FixedWidth Engine Escrow Gateway ClientFdMap Run

/-! ## The balances as exact sums -/

theorem toInt_add_ofInt {v : Int64} {t : Int} (h : IsInt64 (v.toInt + t)) :
    (v + Int64.ofInt t).toInt = v.toInt + t := by
  obtain ⟨hlow, hhigh⟩ := h
  have hmod : (v.toInt + t.bmod (2 ^ 64)).bmod (2 ^ 64) = (v.toInt + t).bmod (2 ^ 64) :=
    Int.add_bmod_bmod
  rw [Int64.toInt_add, Int64.toInt_ofInt]
  refine hmod.trans (Int.bmod_eq_of_le ?_ ?_) <;> omega

theorem ofInt_ite (p : Prop) [Decidable p] (v : Int64) :
    Int64.ofInt (if p then v.toInt else 0) = if p then v else 0 := by
  split
  · exact Int64.ofInt_toInt v
  · rfl

section
variable {slots : AssetSlots} {c : UInt32} {i : Fin maxPositions}

theorem creditLive_slot (g : Funds) {r : OrderStateReport} (hr : r.clientId = c) :
    (creditLive slots g r).confirmed i = g.confirmed i + Int64.ofInt (paid c (slots i) r) ∧
      (creditLive slots g r).attempt i =
        g.attempt i + Int64.ofInt (attempted c (slots i) r) := by
  have hbought : (r.boughtAssetId = slots i) = (slots i = r.boughtAssetId) := propext eq_comm
  have hsold : (r.soldAssetId = slots i) = (slots i = r.soldAssetId) := propext eq_comm
  constructor
  · simp only [creditLive, Funds.credit, paid, if_pos hr, Int64.ofInt_add, ofInt_ite, hbought,
      hsold]
    split_ifs <;> abel
  · simp only [creditLive, Funds.credit, attempted, if_pos hr, ofInt_ite, hsold]
    split_ifs <;> abel

/-- The reports of the client among all reports, on the slot `i`. -/
theorem creditLives_slot (slots : AssetSlots) (c : UInt32) (i : Fin maxPositions)
    (rs : List OrderStateReport) (g : Funds) :
    ((ownReports c rs).foldl (creditLive slots) g).confirmed i =
        g.confirmed i + Int64.ofInt (total (paid c (slots i)) rs) ∧
      ((ownReports c rs).foldl (creditLive slots) g).attempt i =
        g.attempt i + Int64.ofInt (total (attempted c (slots i)) rs) := by
  induction rs generalizing g with
  | nil => exact ⟨(add_zero _).symm, (add_zero _).symm⟩
  | cons r rs ih =>
    rw [total_cons, total_cons, Int64.ofInt_add, Int64.ofInt_add]
    by_cases hr : r.clientId = c
    · obtain ⟨hconfirmed, hattempt⟩ :
        (creditLive slots g r).confirmed i = _ ∧ (creditLive slots g r).attempt i = _ :=
          creditLive_slot g hr
      obtain ⟨hrest, hrest'⟩ := ih (creditLive slots g r)
      rw [ownReports, List.filter_cons_of_pos (by simpa using hr), List.foldl_cons]
      rw [hconfirmed, add_assoc] at hrest
      rw [hattempt, add_assoc] at hrest'
      exact ⟨hrest, hrest'⟩
    · rw [ownReports, List.filter_cons_of_neg (by simpa using hr), paid, attempted, if_neg hr,
        if_neg hr]
      have hzero : Int64.ofInt 0 = 0 := rfl
      rw [hzero, zero_add, zero_add]
      exact ih g

/-- The account service's reading differs in the attempts only. -/
theorem creditReports_confirmed (slots : AssetSlots) (rs : List OrderStateReport) {g g' : Funds}
    (h : g.confirmed = g'.confirmed) :
    (rs.foldl (fun f r => Account.creditReport slots r f) g).confirmed =
      (rs.foldl (creditLive slots) g').confirmed := by
  induction rs generalizing g g' with
  | nil => exact h
  | cons r rs ih =>
    apply ih
    funext i
    simp only [creditLive, Account.creditReport, Funds.credit, h]

end

/-! ## A session -/

section
variable {M : Type}

/-- At the opening the client `c` is on the descriptor `f` and nowhere else, and the gateway knows
the slots and the balances that the account service has; none of them is negative. -/
structure Session (p : Opening M) (c f : UInt32) : Prop where
  alone : ∀ fd, (p.published fd).clientId = c ↔ fd = f
  slots : (p.published f).assetId = (p.account.getClientState c).assetId
  confirmed : (p.published f).confirmed = (p.account.getClientState c).confirmed
  balances : ∀ i, 0 ≤ ((p.published f).confirmed i).toInt
  attempts : ∀ i, 0 ≤ ((p.published f).attempt i).toInt

/-- The step leaves the session of the client `c` on the descriptor `f` alone: nobody logs in as `c`
or on `f`, `f` is not closed, and `ClientsFd` has `c`, and no other client of the reports handled,
on `f`. -/
def Apart [ClientFdMap M] (c f : UInt32) (x : Exchange M) : Action → Prop
  | .gateway n => ∀ r ∈ x.nextReports x.atGateway n,
      getVal x.writer.clientsFd r.clientId = some f ↔ r.clientId = c
  | .answer => ∀ r ∈ x.nextAnswer, r.clientId ≠ c ∧ r.clientFd ≠ f
  | .disconnect fd => fd ≠ f
  | .order _ _ _ _ | .process | .account _ | .login _ => True

instance [ClientFdMap M] (c f : UInt32) (x : Exchange M) : ∀ act, Decidable (Apart c f x act)
  | .gateway n => inferInstanceAs (Decidable (∀ r ∈ x.nextReports x.atGateway n, _))
  | .answer => inferInstanceAs (Decidable (∀ r ∈ x.nextAnswer, _))
  | .disconnect fd => inferInstanceAs (Decidable (fd ≠ f))
  | .order _ _ _ _ | .process | .account _ | .login _ => .isTrue trivial

/-- Both writers have handled the reports up to their marks, on top of what they started from, and
the client is on its own descriptor only. -/
structure Followed (p : Opening M) (c f : UInt32) (x : Exchange M) : Prop where
  gateway : x.writer.states.Holds f (p.published f).toClientInfo
    ((ownReports c (x.reports.take x.atGateway)).foldl (creditLive (p.published f).assetId)
      (p.published f).toFunds)
  others : ∀ fd, fd ≠ f → ∃ info g, x.writer.states.Holds fd info g ∧ info.clientId ≠ c
  account : Account.ClientStates.Books p.account.getClientState x.account
    ((x.reports.take x.atAccount).foldl (Account.creditClient p.account.getClientState)
      fun id => (p.account id).total)
    ((x.reports.take x.atAccount).foldl (Account.creditClient p.account.getClientState)
      fun id => (p.account id).total)
  marks : x.atGateway ≤ x.reports.length ∧ x.atAccount ≤ x.reports.length

variable {p : Opening M} {c f : UInt32} {x x' : Exchange M}

theorem Followed.stranger (h : Followed p c f x) {fd : UInt32} (hfd : fd ≠ f) :
    (x.writer.states.getClientState fd).clientId ≠ c := by
  obtain ⟨info, g, hholds, hne⟩ := h.others fd hfd
  rw [hholds.getClientState.1]
  exact hne

theorem Followed.info (h : Followed p c f x) :
    (x.writer.states.getClientState f).toClientInfo = (p.published f).toClientInfo :=
  h.gateway.getClientState.1

/-- More reports do not matter to who has not handled them. -/
theorem Followed.reports (h : Followed p c f x) {rs : List OrderStateReport}
    (hrs : x'.reports = x.reports ++ rs) (hwriter : x'.writer = x.writer)
    (hgateway : x'.atGateway = x.atGateway) (haccount : x'.account = x.account)
    (hmark : x'.atAccount = x.atAccount) : Followed p c f x' := by
  obtain ⟨hseen, hseen'⟩ := h.marks
  have htake : ∀ {n}, n ≤ x.reports.length → x'.reports.take n = x.reports.take n := fun hn => by
    rw [hrs, List.take_append_of_le_length hn]
  refine ⟨?_, ?_, ?_, ?_⟩
  · rw [hwriter, hgateway, htake hseen]
    exact h.gateway
  · rw [hwriter]
    exact h.others
  · rw [haccount, hmark, htake hseen']
    exact h.account
  · rw [hgateway, hmark, hrs, List.length_append]
    omega

theorem length_nextReports {seen : Nat} (h : seen ≤ x.reports.length) (n : Nat) :
    seen + (x.nextReports seen n).length ≤ x.reports.length := by
  simp only [nextReports, List.length_take, List.length_drop]
  omega

variable [ClientFdMap M] {sha256 : Account.Key → Account.Key} {gatewayId : UInt16}

/-- What the gateway's writer does leaves the session as it is. -/
theorem Followed.writer (h : Followed p c f x) {act : Action} (hapart : Apart c f x act) {u : Unit}
    (hs : step sha256 gatewayId x act = .ok (x', u)) (hreports : x'.reports = x.reports) :
    x'.writer.states.Holds f (p.published f).toClientInfo
      ((ownReports c (x'.reports.take x'.atGateway)).foldl (creditLive (p.published f).assetId)
        (p.published f).toFunds) ∧
    (∀ fd, fd ≠ f → ∃ info g, x'.writer.states.Holds fd info g ∧ info.clientId ≠ c) ∧
    x'.atGateway ≤ x'.reports.length := by
  rw [hreports]
  obtain ⟨n, rfl, hwriter, hmark⟩ | ⟨hmark, hwriter | hwriter⟩ := step_writer hs
  · rw [hwriter, hmark]
    refine ⟨?_, fun fd hfd => ?_, length_nextReports h.marks.1 n⟩
    · have hbatch := ClientStatesWriter.handleReports_holds h.gateway (x.nextReports x.atGateway n)
      have hown : ClientStatesWriter.reportsOf x.writer.clientsFd f
          (x.nextReports x.atGateway n) = ownReports c (x.nextReports x.atGateway n) :=
        List.filter_congr fun r hr => decide_eq_decide.2 (hapart r hr)
      rw [hown, ← List.foldl_append, ownReports, ownReports, ← List.filter_append,
        ← take_nextReports] at hbatch
      exact hbatch
    · obtain ⟨info, g, hholds, hne⟩ := h.others fd hfd
      exact ⟨info, _, ClientStatesWriter.handleReports_holds hholds _, hne⟩
  · rw [hwriter, hmark]
    exact ⟨h.gateway, h.others, h.marks.1⟩
  · rw [hmark]
    obtain ⟨response, rfl, hr, hwriter⟩ | ⟨closed, rfl, hwriter⟩ := hwriter
    · obtain ⟨hid, hfd⟩ := hapart response hr
      rw [hwriter]
      refine ⟨?_, fun fd hne => ?_, h.marks.1⟩
      · obtain ⟨info, g, hholds, ⟨rfl, rfl⟩ | ⟨heq, -⟩⟩ :=
          ClientStatesWriter.handleResponse_holds h.gateway response
        · exact hholds
        · exact absurd heq.symm hfd
      · obtain ⟨info, g, hholds, hother⟩ := h.others fd hne
        obtain ⟨info', g', hholds', ⟨rfl, -⟩ | ⟨-, heq⟩⟩ :=
          ClientStatesWriter.handleResponse_holds hholds response
        · exact ⟨_, _, hholds', hother⟩
        · exact ⟨_, _, hholds', heq ▸ hid⟩
    · rw [hwriter]
      refine ⟨?_, fun fd hne => ?_, h.marks.1⟩
      · have hholds := ClientStatesWriter.handleDisconnect_holds h.gateway closed
        rwa [if_neg (Ne.symm hapart)] at hholds
      · obtain ⟨info, g, hholds, hother⟩ := h.others fd hne
        refine ⟨_, _, ClientStatesWriter.handleDisconnect_holds hholds closed, ?_⟩
        split
        · exact hother
        · exact hother

theorem Followed.step (h : Followed p c f x) {act : Action} (hapart : Apart c f x act) {u : Unit}
    (hs : step sha256 gatewayId x act = .ok (x', u)) : Followed p c f x' := by
  obtain ⟨fd, auth, order, full, rfl, rfl⟩ | ⟨o, engine, out, rfl, -, -, rfl⟩ | ⟨-, hsame⟩ :=
    step_market hs
  · exact h.reports (List.append_nil _).symm rfl rfl rfl rfl
  · exact h.reports rfl rfl rfl rfl rfl
  · obtain ⟨hgateway, hothers, hmark⟩ := h.writer hapart hs hsame.reports
    obtain ⟨n, haccount, hmark'⟩ | ⟨haccount, hmark'⟩ := step_account hs
    · refine ⟨hgateway, hothers, ?_, hmark, ?_⟩
      · have hbatch := h.account.handle (x.nextReports x.atAccount n)
        rw [← List.foldl_append, ← take_nextReports] at hbatch
        rw [haccount, hmark', hsame.reports]
        exact hbatch
      · rw [hmark', hsame.reports]
        exact length_nextReports h.marks.2 n
    · refine ⟨hgateway, hothers, ?_, hmark, ?_⟩
      · rw [haccount, hmark', hsame.reports]
        exact h.account
      · rw [hmark', hsame.reports]
        exact h.marks.2

end

/-! ## The orders in the queue -/

/-- The orders that the engine has taken out. -/
def processed {M : Type} (x : Exchange M) : List Order :=
  (x.router.link.take x.taken).map PaddedOrder.toOrder

/-- The orders that it has not taken out yet. -/
def waiting {M : Type} (x : Exchange M) : List Order :=
  (x.router.link.drop x.taken).map PaddedOrder.toOrder

/-- What is assumed about an order: its asset, its side and its price. -/
structure Sane (asset : UInt16) (o : Order) : Prop where
  asset : o.assetId = asset
  side : o.sideByte.Named
  price : 0 ≤ o.price.toInt
  inner : o.price < Int64.maxValue

instance (asset : UInt16) (o : Order) : Decidable (Sane asset o) :=
  decidable_of_iff
    (o.assetId = asset ∧ o.sideByte.Named ∧ 0 ≤ o.price.toInt ∧ o.price < Int64.maxValue)
    ⟨fun h => ⟨h.1, h.2.1, h.2.2.1, h.2.2.2⟩, fun h => ⟨h.asset, h.side, h.price, h.inner⟩⟩

/-- What is assumed about a step: orders are sane and no result of their risk check wraps; a cancel
request that reaches the engine names the side of its target, and an order finds room in the hash
maps near its home. -/
def Safe {M : Type} (asset : UInt16) (x : Exchange M) : Action → Prop
  | .order fd auth order _ => Sane asset order.toOrder ∧
      Exact (x.router.localFunds fd) ⟨x.writer.states.getClientState fd, auth, order.toOrder⟩
  | .process => ∀ o ∈ x.nextOrder, NamesSide x.engine o.toOrder ∧ RoomAtHome x.engine o.toOrder
  | .gateway _ | .account _ | .login _ | .answer | .disconnect _ => True

instance {M : Type} (asset : UInt16) (x : Exchange M) : ∀ act, Decidable (Safe asset x act)
  | .order _ _ _ _ => inferInstanceAs (Decidable (_ ∧ _))
  | .process => inferInstanceAs (Decidable (∀ o ∈ x.nextOrder, _))
  | .gateway _ | .account _ | .login _ | .answer | .disconnect _ => .isTrue trivial

/-- The ids of the orders count on from `start`; `n` have been given out. -/
structure Numbered (start : UInt64) (n : Nat) (r : OrderRouter (List PaddedOrder)) : Prop where
  count : r.ordersCount = start + UInt64.ofNat n
  ids : ∃ ks : List Nat,
    r.link.map (fun o => o.toOrder.id32) = ks.map (fun k => (start + UInt64.ofNat k).toUInt32) ∧
    ks.Pairwise (· < ·) ∧ ∀ k ∈ ks, k < n

section
variable {start : UInt64} {n : Nat} {r : OrderRouter (List PaddedOrder)} {gatewayId : UInt16}

theorem Numbered.route (h : Numbered start n r) (y : RouterInput Bool) :
    Numbered start (n + 1) (r.route sharedMemory gatewayId y) := by
  obtain ⟨hcount, -, hlink⟩ := route_cases gatewayId r y
  obtain ⟨ks, hids, hincreasing, hbelow⟩ := h.ids
  refine ⟨?_, ?_⟩
  · rw [hcount, h.count, UInt64.ofNat_add, add_assoc]
    rfl
  · obtain hlink | ⟨-, hlink⟩ := hlink
    · rw [hlink]
      exact ⟨ks, hids, hincreasing, fun k hk => Nat.lt_succ_of_lt (hbelow k hk)⟩
    · have hnew : (r.numbered gatewayId y).toOrder.id32 = (start + UInt64.ofNat n).toUInt32 := by
        show (r.nextOrderId gatewayId).toUInt64.toUInt32 = _
        rw [nextOrderId_eq, h.count]
        exact UInt32.toUInt32_toUInt64 _
      refine ⟨ks ++ [n], ?_, ?_, ?_⟩
      · rw [hlink, List.map_append, List.map_append, hids, List.map_singleton, List.map_singleton,
          hnew]
      · refine List.pairwise_append.2 ⟨hincreasing, List.pairwise_singleton _ _,
          fun k hk m hm => ?_⟩
        rw [List.mem_singleton.1 hm]
        exact hbelow k hk
      · intro k hk
        obtain hk | hk := List.mem_append.1 hk
        · exact Nat.lt_succ_of_lt (hbelow k hk)
        · rw [List.mem_singleton.1 hk]
          exact Nat.lt_succ_self n

/-- The ids are distinct as long as the low half of the counter does not come round. -/
theorem Numbered.nodup (h : Numbered start n r) (hn : n ≤ 2 ^ 32) :
    (r.link.map fun o => o.toOrder.id32).Nodup := by
  obtain ⟨ks, hids, hincreasing, hbelow⟩ := h.ids
  rw [hids]
  refine List.Nodup.map_on (fun k hk m hm heq => ?_) (hincreasing.imp fun hlt => Nat.ne_of_lt hlt)
  have hk' := hbelow k hk
  have hm' := hbelow m hm
  have hlow : ∀ j, (start + UInt64.ofNat j).toUInt32.toNat = (start.toNat + j) % 2 ^ 32 := by
    intro j
    simp only [UInt64.toNat_toUInt32, UInt64.toNat_add, UInt64.toNat_ofNat']
    omega
  have hnat := congrArg UInt32.toNat heq
  rw [hlow, hlow] at hnat
  omega

theorem Numbered.step {M : Type} [ClientFdMap M] {sha256 : Account.Key → Account.Key}
    {x x' : Exchange M} {act : Action} {u : Unit} (h : Numbered start n x.router)
    (hs : step sha256 gatewayId x act = .ok (x', u)) :
    ∃ n' ≤ n + 1, Numbered start n' x'.router := by
  obtain ⟨fd, auth, order, full, -, rfl⟩ | ⟨o, engine, out, -, -, -, rfl⟩ | ⟨-, hsame⟩ :=
    step_market hs
  · exact ⟨n + 1, Nat.le_refl _, h.route _⟩
  · exact ⟨n, Nat.le_succ n, h⟩
  · exact ⟨n, Nat.le_succ n, hsame.router ▸ h⟩

end

/-! ## The engine -/

section
variable {M : Type} {assetId : UInt32} {x x' : Exchange M} {L : Levels} {b : Engine.Reference.Book}

/-- The engine has the book `b` of the orders taken out so far; all orders are sane and sound. -/
structure Running (assetId : UInt32) (x : Exchange M) (L : Levels) (b : Engine.Reference.Book) :
    Prop where
  taken : x.taken ≤ x.router.link.length
  sane : ∀ o ∈ x.router.link,
    Sane assetId.toUInt16 o.toOrder ∧ (o.action = .execute → Sound o.toOrder)
  tables : Tables x.engine
  view : View x.engine.finite L b
  known : Known (processed x) b
  stands : ∀ sd, Stands sd (b sd)
  asset : x.engine.marketAssetId = assetId

theorem Running.restingOrders (h : Running assetId x L b) : x.engine.restingOrders = b := by
  rw [← BidAsk.restingOrders_finite]
  exact h.view.restingOrders

theorem Running.congr (h : Running assetId x L b) (hsame : SameMarket x x') :
    Running assetId x' L b where
  taken := by
    rw [hsame.taken, hsame.router]
    exact h.taken
  sane := by
    rw [hsame.router]
    exact h.sane
  tables := by
    rw [hsame.engine]
    exact h.tables
  view := by
    rw [hsame.engine]
    exact h.view
  known := by
    rw [processed, hsame.router, hsame.taken]
    exact h.known
  stands := h.stands
  asset := by
    rw [hsame.engine]
    exact h.asset

theorem processed_take {o : PaddedOrder} (h : x.nextOrder = some o) :
    (x.router.link.take (x.taken + 1)).map PaddedOrder.toOrder = processed x ++ [o.toOrder] := by
  have hget : x.router.link[x.taken]? = some o := h
  rw [List.take_add_one, hget, List.map_append]
  rfl

theorem waiting_take {o : PaddedOrder} (h : x.nextOrder = some o) :
    waiting x = o.toOrder :: (x.router.link.drop (x.taken + 1)).map PaddedOrder.toOrder := by
  obtain ⟨hlt, hget⟩ := List.getElem?_eq_some_iff.1 h
  rw [waiting, List.drop_eq_getElem_cons hlt, hget, List.map_cons]

theorem Running.valid (h : Running assetId x L b)
    (hids : (x.router.link.map fun o => o.toOrder.id32).Nodup) {o : PaddedOrder}
    (ho : x.nextOrder = some o) : Valid (processed x ++ [o.toOrder]) := by
  rw [← processed_take ho]
  constructor
  · intro y hy _
    obtain ⟨o', ho', rfl⟩ := List.mem_map.1 hy
    obtain ⟨hsane, -⟩ := h.sane o' (List.mem_of_mem_take ho')
    refine ⟨?_, hsane.inner⟩
    have hprice := hsane.price
    exact Int64.lt_iff_toInt_lt.2 (lt_of_lt_of_le (by decide) hprice)
  · have hsub : (executeIds ((x.router.link.take (x.taken + 1)).map PaddedOrder.toOrder)).Sublist
        (x.router.link.map fun o => o.toOrder.id32) := by
      have hall : x.router.link.map (fun o => o.toOrder.id32) =
          (x.router.link.map PaddedOrder.toOrder).map Order.id32 := by
        rw [List.map_map]
        rfl
      rw [executeIds, hall]
      exact (List.filter_sublist.trans ((List.take_sublist _ _).map _)).map _
    exact hsub.nodup hids

theorem Running.acceptable (h : Running assetId x L b)
    (hids : (x.router.link.map fun o => o.toOrder.id32).Nodup) {o : PaddedOrder}
    (ho : x.nextOrder = some o) (hside : NamesSide x.engine o.toOrder) :
    Acceptable b o.toOrder := by
  refine Engine.acceptable h.view h.known (h.valid hids ho) fun ha => ?_
  rw [BidAsk.restingOrders_finite]
  exact hside ha

/-- **The engine processes the next order**, and its reports cover what it does. -/
theorem Running.process (h : Running assetId x L b)
    (hids : (x.router.link.map fun o => o.toOrder.id32).Nodup) {o : PaddedOrder}
    (ho : x.nextOrder = some o)
    (hsafe : NamesSide x.engine o.toOrder ∧ RoomAtHome x.engine o.toOrder) {engine : FlatBidAsk}
    {out : BidAsk.Out} (hstep : x.engine.step o.toOrder = .ok (engine, out)) :
    ∃ L' b', Running assetId (x.processing engine out) L' b' ∧
      ∀ c a, Covers (paid c a) (shown c a)
        (due c a assetId.toUInt16 b + arriving c a assetId.toUInt16 o.toOrder)
        (due c a assetId.toUInt16 b') out.reports := by
  obtain ⟨hlt, hget⟩ := List.getElem?_eq_some_iff.1 ho
  have hmem : o ∈ x.router.link := hget ▸ List.getElem_mem hlt
  obtain ⟨⟨_, out'⟩, hfinite, ⟨rfl, htables⟩, hout⟩ :=
    (step_lifts h.tables h.view hsafe.2).of_ok_left hstep
  obtain rfl : out = out' := hout
  obtain ⟨hasset, L', b', hview, hknown, hcovers⟩ :=
    step_covers h.view h.known (h.acceptable hids ho hsafe.1) h.stands (h.sane o hmem).2 hfinite
  have hown : x.engine.finite.marketAssetId = assetId := h.asset
  rw [hown] at hcovers
  refine ⟨L', b', ⟨hlt, h.sane, htables, hview, ?_, (hcovers 0 0).stands, hasset.trans hown⟩,
    fun c a => (hcovers c a).covers⟩
  show Known ((x.router.link.take (x.taken + 1)).map PaddedOrder.toOrder) b'
  rw [processed_take ho]
  exact hknown

theorem Sane.arriving_nonneg {o : Order} (ho : Sane assetId.toUInt16 o) (c : UInt32)
    (a asset : UInt16) : 0 ≤ arriving c a asset o := by
  unfold arriving
  split
  · exact share_nonneg (exactReserve_nonneg _ _ ho.price)
  · exact Int.le_refl 0

theorem Running.waiting_nonneg (h : Running assetId x L b) (c : UInt32) (a asset : UInt16)
    (n : Nat) :
    0 ≤ total (arriving c a asset) ((x.router.link.drop n).map PaddedOrder.toOrder) := by
  refine List.sum_nonneg fun v hv => ?_
  obtain ⟨o, ho, rfl⟩ := List.mem_map.1 hv
  obtain ⟨o', ho', rfl⟩ := List.mem_map.1 ho
  exact (h.sane o' (List.mem_of_mem_drop ho')).1.arriving_nonneg c a asset

end

/-! ## What the replicas publish -/

/-- No balance of the client `c` on the slot `i` wraps along the reports. -/
def Unwrapped (start : ClientState) (c : UInt32) (i : Fin maxPositions)
    (rs : List OrderStateReport) : Prop :=
  ∀ p ∈ rs.inits, IsInt64 ((start.confirmed i).toInt + total (paid c (start.assetId i)) p) ∧
    IsInt64 ((start.attempt i).toInt + total (attempted c (start.assetId i)) p)

instance (start : ClientState) (c : UInt32) (i : Fin maxPositions) (rs : List OrderStateReport) :
    Decidable (Unwrapped start c i rs) := List.decidableBAll _ _

theorem Unwrapped.restrict {start : ClientState} {c : UInt32} {i : Fin maxPositions}
    {rs rs' : List OrderStateReport} (h : Unwrapped start c i rs') (hp : rs <+: rs') :
    Unwrapped start c i rs :=
  fun p hmem => h p ((List.mem_inits _ _).2 (((List.mem_inits _ _).1 hmem).trans hp))

section
variable {M : Type} {p : Opening M} {c f : UInt32} {i : Fin maxPositions} {x : Exchange M}

theorem Followed.gatewayState (h : Followed p c f x)
    (hexact : Unwrapped (p.published f) c i x.reports) :
    ((x.writer.states.getClientState f).confirmed i).toInt = ((p.published f).confirmed i).toInt +
      total (paid c ((p.published f).assetId i)) (x.reports.take x.atGateway) ∧
    ((x.writer.states.getClientState f).attempt i).toInt = ((p.published f).attempt i).toInt +
      total (attempted c ((p.published f).assetId i)) (x.reports.take x.atGateway) := by
  have hfunds := h.gateway.getClientState.2
  obtain ⟨hconfirmed, hattempt⟩ := creditLives_slot (p.published f).assetId c i
    (x.reports.take x.atGateway) (p.published f).toFunds
  rw [← hfunds] at hconfirmed hattempt
  obtain ⟨hfits, hfits'⟩ := hexact _ ((List.mem_inits _ _).2 (List.take_prefix _ _))
  refine ⟨?_, ?_⟩
  · rw [hconfirmed]
    exact toInt_add_ofInt hfits
  · rw [hattempt]
    exact toInt_add_ofInt hfits'

theorem Followed.accountState (h : Followed p c f x) (hsession : Session p c f)
    (hexact : Unwrapped (p.published f) c i x.reports) :
    ((x.account.getClientState c).confirmed i).toInt = ((p.published f).confirmed i).toInt +
      total (paid c ((p.published f).assetId i)) (x.reports.take x.atAccount) := by
  have hfunds := (h.account.getClientState c).2
  rw [creditClients_own] at hfunds
  have hsame := creditReports_confirmed (p.account.getClientState c).assetId
    (ownReports c (x.reports.take x.atAccount))
    (show (p.account c).total.confirmed = (p.published f).toFunds.confirmed from
      hsession.confirmed.symm)
  obtain ⟨hconfirmed, -⟩ := creditLives_slot (p.published f).assetId c i
    (x.reports.take x.atAccount) (p.published f).toFunds
  obtain ⟨hfits, -⟩ := hexact _ ((List.mem_inits _ _).2 (List.take_prefix x.atAccount x.reports))
  rw [← hfunds, ← hsession.slots] at hsame
  rw [hsame, hconfirmed]
  exact toInt_add_ofInt hfits

end

/-! ## An order is routed -/

/-- **The two sides agree about a named side**: the gateway charges what the engine reserves. -/
theorem exactAmount_eq {o : Order} (h : o.sideByte.Named) :
    exactAmount o = exactReserve o.side o.amount o.price := by
  unfold exactAmount Order.side
  obtain hbuy | hsell := h
  · rw [hbuy]
    rfl
  · rw [hsell]
    rfl

/-- For another byte they do not: the gateway charges the price, and the engine sells the amount. -/
theorem exactAmount_of_not_named {o : Order} (h : ¬ o.sideByte.Named) :
    chargedAsset o = o.assetId ∧ exactAmount o = o.amount.toNat * o.price.toInt ∧
      exactReserve o.side o.amount o.price = o.amount.toNat := by
  obtain ⟨hbuy, hsell⟩ := not_or.1 h
  refine ⟨if_neg hbuy, if_neg hsell, ?_⟩
  rw [Order.side, SideByte.side, if_neg hbuy]
  rfl

theorem Sane.chargedAsset_eq {asset : UInt16} {o : Order} (h : Sane asset o) :
    chargedAsset o = soldAssetOf asset o.side := by
  unfold chargedAsset Order.side SideByte.side
  split
  · rfl
  · exact h.asset

theorem Sane.exactAmount_nonneg {asset : UInt16} {o : Order} (h : Sane asset o) :
    0 ≤ exactAmount o := by
  rw [exactAmount_eq h.side]
  exact exactReserve_nonneg _ _ h.price

theorem Sane.sound {asset : UInt16} {o : Order} (h : Sane asset o)
    (hcost : IsInt64 (exactAmount o)) : Sound o := by
  have h0 := h.exactAmount_nonneg
  obtain ⟨hlow, hhigh⟩ := hcost
  rw [exactAmount_eq h.side] at h0 hlow hhigh
  refine ⟨h.price, ?_⟩
  unfold Fits
  omega

theorem Sane.arriving_le {asset : UInt16} {o : Order} (h : Sane asset o) (c : UInt32) (a : UInt16) :
    arriving c a asset o ≤ exactAmount o := by
  have h0 := h.exactAmount_nonneg
  rw [exactAmount_eq h.side] at h0 ⊢
  unfold arriving
  split
  · unfold owed share
    split
    · exact Int.le_refl _
    · exact h0
  · exact h0

theorem arriving_other {c : UInt32} {a asset : UInt16} {o : Order}
    (h : ¬ (o.clientId = c ∧ soldAssetOf asset o.side = a)) : arriving c a asset o = 0 := by
  unfold arriving
  split
  · exact if_neg h
  · rfl

section
variable {M : Type} {x : Exchange M} {assetId : UInt32} {L : Levels} {b : Engine.Reference.Book}
  {fd : UInt32} {auth : UInt8} {order : PaddedOrder} {full : Bool}

/-- The router may put an order behind the others: what has been taken out stays. -/
theorem processed_routed (gatewayId : UInt16) (h : x.taken ≤ x.router.link.length)
    (fd : UInt32) (auth : UInt8) (order : PaddedOrder) (full : Bool) :
    processed (routed gatewayId x fd auth order full) = processed x := by
  have htaken : (routed gatewayId x fd auth order full).taken = x.taken := rfl
  obtain ⟨-, -, hlink | ⟨-, hlink⟩⟩ :=
    route_cases gatewayId x.router (x.routerInput fd auth order full)
  · unfold processed
    rw [htaken, routed, hlink]
  · unfold processed
    rw [htaken, routed, hlink, List.take_append_of_le_length h]

/-- The router accepts the order, against the funds in the slot `j`. -/
structure Accepted (x : Exchange M) (fd : UInt32) (auth : UInt8) (order : Order)
    (j : Fin maxPositions) : Prop where
  status : (checkOrderRisk (x.writer.states.getClientState fd) (x.router.localFunds fd) order
    auth).1 = .accepted
  client : (x.writer.states.getClientState fd).clientId = order.clientId
  slot : (x.writer.states.getClientState fd).getAssetIdx (chargedAsset order) = some j

/-- **What the router can do to the queue**: nothing, or it has accepted the order and puts it
behind the others, under a number. -/
theorem routed_cases (gatewayId : UInt16)
    (hsafe : Safe assetId.toUInt16 x (.order fd auth order full)) :
    (routed gatewayId x fd auth order full).router.link = x.router.link ∨
    ∃ o j, (routed gatewayId x fd auth order full).router.link = x.router.link ++ [o] ∧
      Sane assetId.toUInt16 o.toOrder ∧ Sound o.toOrder ∧ Accepted x fd auth order.toOrder j ∧
      ∀ c a asset, arriving c a asset o.toOrder = arriving c a asset order.toOrder := by
  obtain ⟨hsane, hexact⟩ := hsafe
  obtain ⟨-, -, hlink | ⟨hacc, hlink⟩⟩ :=
    route_cases gatewayId x.router (x.routerInput fd auth order full)
  · exact .inl hlink
  · obtain ⟨hne, -⟩ | ⟨j, -, hclient, hslot, -, -⟩ := checkOrderRisk_cases
      (x.writer.states.getClientState fd) (x.router.localFunds fd) order.toOrder auth
    · exact absurd hacc hne
    · obtain ⟨hprice, hfits⟩ := hsane.sound (hexact j hslot).1
      exact .inr ⟨_, j, hlink, ⟨hsane.asset, hsane.side, hsane.price, hsane.inner⟩,
        ⟨hprice, hfits⟩, ⟨hacc, hclient, hslot⟩, fun _ _ _ => rfl⟩

theorem Running.routed (gatewayId : UInt16) (h : Running assetId x L b)
    (hsafe : Safe assetId.toUInt16 x (.order fd auth order full)) :
    Running assetId (routed gatewayId x fd auth order full) L b := by
  have htaken : (Exchange.routed gatewayId x fd auth order full).taken = x.taken := rfl
  have hknown : Known (processed (Exchange.routed gatewayId x fd auth order full)) b := by
    rw [processed_routed gatewayId h.taken]
    exact h.known
  obtain hlink | ⟨o, j, hlink, hsane, hsound, -⟩ := routed_cases gatewayId hsafe
  · refine ⟨?_, ?_, h.tables, h.view, hknown, h.stands, h.asset⟩
    · rw [hlink]
      exact h.taken
    · rw [hlink]
      exact h.sane
  · refine ⟨?_, ?_, h.tables, h.view, hknown, h.stands, h.asset⟩
    · rw [hlink, List.length_append]
      exact Nat.le_add_right_of_le h.taken
    · rw [hlink]
      intro o' ho'
      obtain ho' | ho' := List.mem_append.1 ho'
      · exact h.sane o' ho'
      · rw [List.mem_singleton.1 ho']
        exact ⟨hsane, fun _ => hsound⟩

theorem Running.waiting_routed (gatewayId : UInt16) (h : Running assetId x L b)
    (hsafe : Safe assetId.toUInt16 x (.order fd auth order full)) (c : UInt32) (a asset : UInt16) :
    let after :=
      total (arriving c a asset) (waiting (Exchange.routed gatewayId x fd auth order full))
    after = total (arriving c a asset) (waiting x) ∨
      ∃ j, Accepted x fd auth order.toOrder j ∧
        after = total (arriving c a asset) (waiting x) + arriving c a asset order.toOrder := by
  intro after
  have htaken : (Exchange.routed gatewayId x fd auth order full).taken = x.taken := rfl
  obtain hlink | ⟨o, j, hlink, -, -, hacc, hsame⟩ := routed_cases gatewayId hsafe
  · refine .inl ?_
    simp only [after, waiting, hlink, htaken]
  · refine .inr ⟨j, hacc, ?_⟩
    simp only [after, waiting, hlink, htaken, List.drop_append_of_le_length h.taken,
      List.map_append, List.map_singleton, total_append, total_cons, total_nil, hsame, add_zero]

variable {p : Opening M} {c f : UInt32}

theorem Followed.route (h : Followed p c f x) (gatewayId : UInt16) :
    Followed p c f (routed gatewayId x fd auth order full) :=
  h.reports (List.append_nil _).symm rfl rfl rfl rfl

theorem localFunds_routed (gatewayId : UInt16) :
    (routed gatewayId x fd auth order full).router.localFunds =
      Function.update x.router.localFunds fd (checkOrderRisk (x.writer.states.getClientState fd)
        (x.router.localFunds fd) order.toOrder auth).2 :=
  (route_cases gatewayId x.router (x.routerInput fd auth order full)).2.1

end

/-! ## The invariant -/

section
variable {M : Type}

/-- Everything is as it should be with the client `c` on the descriptor `f` and its slot `i`. -/
structure Inv (p : Opening M) (c f : UInt32) (i : Fin maxPositions) (x : Exchange M) (L : Levels)
    (b : Engine.Reference.Book) : Prop where
  followed : Followed p c f x
  running : Running p.assetId x L b
  session : InSession (p.published f).sessionId (x.router.localFunds f)
  solvent : Unwrapped (p.published f) c i x.reports →
    Solvent (paid c ((p.published f).assetId i)) (shown c ((p.published f).assetId i))
      ((p.published f).confirmed i).toInt
      (((p.published f).attempt i).toInt + ((x.router.localFunds f).attempt i).toInt)
      (due c ((p.published f).assetId i) p.asset b +
        total (arriving c ((p.published f).assetId i) p.asset) (waiting x)) x.reports

variable {p : Opening M} {c f : UInt32} {i : Fin maxPositions} {x x' : Exchange M} {L : Levels}
  {b : Engine.Reference.Book} {fd : UInt32} {auth : UInt8} {order : PaddedOrder} {full : Bool}

theorem total_shown (c : UInt32) (a : UInt16) (rs : List OrderStateReport) :
    total (shown c a) rs = total (paid c a) rs - total (attempted c a) rs := by
  induction rs with
  | nil => rfl
  | cons r rs ih =>
    rw [total_cons, total_cons, total_cons, ih, shown]
    omega

/-- **What the check sees**: an order that it accepts costs no more than the reports handled so far
show. -/
theorem Inv.sees (h : Inv p c f i x L b) (hexact : Unwrapped (p.published f) c i x.reports)
    {o : Order}
    (hcheck : Exact (x.router.localFunds f) ⟨x.writer.states.getClientState f, auth, o⟩)
    (hslot : (x.writer.states.getClientState f).getAssetIdx (chargedAsset o) = some i)
    (hfunds : chargedAmount o ≤ (x.writer.states.getClientState f).confirmed i -
      ((x.writer.states.getClientState f).attempt i + (x.router.localFunds f).attempt i)) :
    exactAmount o ≤ ((p.published f).confirmed i).toInt -
        (((p.published f).attempt i).toInt + ((x.router.localFunds f).attempt i).toInt) +
        total (shown c ((p.published f).assetId i)) (x.reports.take x.atGateway) ∧
      ((x.router.localFunds f).attempt i + chargedAmount o).toInt =
        ((x.router.localFunds f).attempt i).toInt + exactAmount o := by
  obtain ⟨hle, hgrown⟩ := hcheck.accept hslot hfunds
  obtain ⟨hconfirmed, hattempt⟩ := h.followed.gatewayState hexact
  refine ⟨?_, hgrown⟩
  dsimp only at hle
  rw [hconfirmed, hattempt] at hle
  rw [total_shown]
  omega

/-- An order on the client's own descriptor is paid for by the funds that the gateway sees. -/
theorem Inv.own (gatewayId : UInt16) (h : Inv p c f i x L b)
    (hfirst : (p.published f).getAssetIdx ((p.published f).assetId i) = some i)
    (hsafe : Safe p.asset x (.order f auth order full)) :
    Inv p c f i (routed gatewayId x f auth order full) L b := by
  have hinfo := h.followed.info
  have hslots : (x.writer.states.getClientState f).assetId = (p.published f).assetId :=
    congrArg ClientInfo.assetId hinfo
  have hid : (x.writer.states.getClientState f).sessionId = (p.published f).sessionId :=
    congrArg ClientInfo.sessionId hinfo
  have hlocal : (routed gatewayId x f auth order full).router.localFunds f =
      (checkOrderRisk (x.writer.states.getClientState f) (x.router.localFunds f) order.toOrder
        auth).2 := by
    rw [localFunds_routed]
    exact Function.update_self ..
  have hin : InSession (x.writer.states.getClientState f).sessionId (x.router.localFunds f) :=
    hid ▸ h.session
  refine ⟨h.followed.route gatewayId, h.running.routed gatewayId hsafe, ?_, fun hexact => ?_⟩
  · rw [hlocal, ← hid]
    exact hin.check
  have hsolvent := h.solvent hexact
  have hwaiting := h.running.waiting_routed gatewayId hsafe c ((p.published f).assetId i) p.asset
  obtain ⟨hsane, hcheck⟩ := hsafe
  have hcost := hsane.exactAmount_nonneg
  rw [hlocal]
  obtain ⟨hne, hattempt⟩ | ⟨j, -, -, hslot, hfunds, -, hattempt⟩ :=
    hin.check_cases order.toOrder auth
  · -- refused: nothing is charged and nothing is pushed
    obtain hsame | ⟨j, hacc, -⟩ := hwaiting
    · rw [hattempt, hsame]
      exact hsolvent
    · exact absurd hacc.status hne
  · rw [hattempt]
    by_cases hji : j = i
    · subst hji
      obtain ⟨hsees, hgrown⟩ := h.sees hexact hcheck hslot hfunds
      rw [Function.update_self, hgrown, ← add_assoc]
      refine hsolvent.grant (List.take_prefix _ _) hsees ?_
      have hle := hsane.arriving_le c ((p.published f).assetId j)
      obtain hsame | ⟨k, -, hgrew⟩ := hwaiting
      · omega
      · omega
    · -- another slot is charged, for another asset
      rw [Function.update_of_ne (Ne.symm hji)]
      obtain hsame | ⟨k, -, hgrew⟩ := hwaiting
      · rw [hsame]
        exact hsolvent
      · have hother : soldAssetOf p.asset order.side ≠ (p.published f).assetId i := by
          intro heq
          rw [hsane.chargedAsset_eq, heq, ClientState.getAssetIdx, hslots] at hslot
          exact hji (Option.some.inj (hslot.symm.trans hfirst))
        rw [hgrew, arriving_other fun hown => hother hown.2, add_zero]
        exact hsolvent

theorem Inv.other (gatewayId : UInt16) (h : Inv p c f i x L b) (hfd : fd ≠ f)
    (hsafe : Safe p.asset x (.order fd auth order full)) :
    Inv p c f i (routed gatewayId x fd auth order full) L b := by
  have hlocal : (routed gatewayId x fd auth order full).router.localFunds f =
      x.router.localFunds f := by
    rw [localFunds_routed]
    exact Function.update_of_ne (Ne.symm hfd) ..
  refine ⟨h.followed.route gatewayId, h.running.routed gatewayId hsafe, ?_, fun hexact => ?_⟩
  · rw [hlocal]
    exact h.session
  · rw [hlocal]
    have hsolvent := h.solvent hexact
    obtain hsame | ⟨j, hacc, hgrown⟩ :=
      h.running.waiting_routed gatewayId hsafe c ((p.published f).assetId i) p.asset
    · rw [hsame]
      exact hsolvent
    · have hclient : order.clientId ≠ c := fun heq =>
        h.followed.stranger hfd (hacc.client.trans heq)
      rw [hgrown, arriving_other fun hown => hclient hown.1, add_zero]
      exact hsolvent

theorem Inv.process (h : Inv p c f i x L b)
    (hids : (x.router.link.map fun o => o.toOrder.id32).Nodup) {o : PaddedOrder}
    (ho : x.nextOrder = some o)
    (hsafe : NamesSide x.engine o.toOrder ∧ RoomAtHome x.engine o.toOrder) {engine : FlatBidAsk}
    {out : BidAsk.Out} (hstep : x.engine.step o.toOrder = .ok (engine, out)) :
    ∃ L' b', Inv p c f i (x.processing engine out) L' b' := by
  obtain ⟨L', b', hrunning, hcovers⟩ := h.running.process hids ho hsafe hstep
  refine ⟨L', b', h.followed.reports rfl rfl rfl rfl rfl, hrunning, h.session, fun hexact => ?_⟩
  have hsolvent := h.solvent (hexact.restrict (List.prefix_append _ _))
  have hrest := h.running.waiting_nonneg c ((p.published f).assetId i) p.asset (x.taken + 1)
  rw [waiting_take ho, total_cons, ← add_assoc] at hsolvent
  exact hsolvent.append ((hcovers c _).add hrest)

variable [ClientFdMap M]

theorem Inv.step {act : Action} {u : Unit} (h : Inv p c f i x L b)
    (hfirst : (p.published f).getAssetIdx ((p.published f).assetId i) = some i)
    (hids : (x.router.link.map fun o => o.toOrder.id32).Nodup) (hsafe : Safe p.asset x act)
    (hapart : Apart c f x act) (hs : step p.sha256 p.gatewayId x act = .ok (x', u)) :
    ∃ L' b', Inv p c f i x' L' b' := by
  have hfollowed := h.followed.step hapart hs
  obtain ⟨fd, auth, order, full, rfl, rfl⟩ | ⟨o, engine, out, rfl, ho, hstep, rfl⟩ | ⟨-, hsame⟩ :=
    step_market hs
  · by_cases hfd : fd = f
    · subst hfd
      exact ⟨L, b, h.own p.gatewayId hfirst hsafe⟩
    · exact ⟨L, b, h.other p.gatewayId hfd hsafe⟩
  · exact h.process hids ho (hsafe o ho) hstep
  · refine ⟨L, b, hfollowed, h.running.congr hsame, ?_, ?_⟩
    · rw [hsame.router]
      exact h.session
    · rw [hsame.reports, hsame.router, waiting, hsame.router, hsame.taken]
      exact h.solvent

end

/-! ## Runs -/

/-- What the gateway takes for available on a slot of the descriptor `f`. -/
def available {M : Type} (x : Exchange M) (f : UInt32) (i : Fin maxPositions) : Int :=
  ((x.writer.states.getClientState f).confirmed i).toInt -
    (((x.writer.states.getClientState f).attempt i).toInt +
      ((x.router.localFunds f).attempt i).toInt)

/-- What the client `c`, who started with `start`, really has free: the balance after all reports
less what its orders in the queue and in the book can still cost. -/
def free {M : Type} (start : ClientState) (asset : UInt16) (x : Exchange M) (c : UInt32)
    (i : Fin maxPositions) : Int :=
  (start.confirmed i).toInt + total (paid c (start.assetId i)) x.reports -
    (due c (start.assetId i) asset x.engine.restingOrders +
      total (arriving c (start.assetId i) asset) (waiting x))

section
variable {M : Type} (p : Opening M) {c f : UInt32} {i : Fin maxPositions} {actions : List Action}
  {x : Exchange M} {us : List Unit}

theorem running_opened : Running p.assetId p.exchange (fun _ => []) Reference.empty where
  taken := Nat.le_refl _
  sane := fun o ho => by cases ho
  tables := (new_mirrored p.assetId p.initialPrice p.reportSeq p.bookSeq p.bidSeed p.askSeed).tables
  view := by
    have hview := new_view p.assetId p.initialPrice p.reportSeq p.bookSeq p.bidSeed p.askSeed
    rwa [(new_mirrored p.assetId p.initialPrice p.reportSeq p.bookSeq p.bidSeed p.askSeed).eq]
      at hview
  known := known_empty
  stands := fun sd r hr => by cases hr
  asset := rfl

theorem numbered_opened : Numbered p.ordersCount 0 p.exchange.router :=
  ⟨(add_zero _).symm, [], rfl, List.Pairwise.nil, fun k hk => by cases hk⟩

theorem followed_opened (hsession : Session p c f) : Followed p c f p.exchange := by
  have hholds : ∀ fd, p.writer.states.Holds fd (p.published fd).toClientInfo
      (p.published fd).toFunds := fun fd =>
    ClientStates.holds_of_synced (p.synced fd) (p.unstaged fd).1 (p.unstaged fd).2
  exact ⟨hholds f, fun fd hfd => ⟨_, _, hholds fd, fun heq => hfd ((hsession.alone fd).1 heq)⟩,
    p.accountUnstaged.books p.accountSynced, Nat.le_refl _, Nat.le_refl _⟩

theorem inv_opened (hsession : Session p c f) :
    Inv p c f i p.exchange (fun _ => []) Reference.empty where
  followed := followed_opened p hsession
  running := running_opened p
  session := .inr rfl
  solvent := fun _ => by
    have hattempts := hsession.attempts i
    exact solvent_start (hsession.balances i) (by
      show 0 ≤ ((p.published f).attempt i).toInt + 0
      omega)

variable [ClientFdMap M]

theorem run_inv (hsession : Session p c f)
    (hfirst : (p.published f).getAssetIdx ((p.published f).assetId i) = some i)
    (hcount : actions.length ≤ 2 ^ 32) (hsafe : p.Throughout (Safe p.asset) actions)
    (hapart : p.Throughout (Apart c f) actions) (hrun : p.run actions = .ok (x, us)) :
    ∃ L b, Inv p c f i x L b := by
  have hpre : p.Throughout (fun x act => Safe p.asset x act ∧ Apart c f x act) actions :=
    fun xs a hp s bs hr => ⟨hsafe xs a hp s bs hr, hapart xs a hp s bs hr⟩
  refine (run_invariant (P := fun acts x _ =>
      (∃ n ≤ acts.length, Numbered p.ordersCount n x.router) ∧ ∃ L b, Inv p c f i x L b)
    ⟨⟨0, Nat.zero_le _, numbered_opened p⟩, _, _, inv_opened p hsession⟩ hpre ?_ hrun).2
  intro acts act x us x' u hp _ ⟨⟨n, hn, hnumbered⟩, L, b, hinv⟩ ⟨hsafe, hapart⟩ hstep
  obtain ⟨n', hn', hnumbered'⟩ := hnumbered.step hstep
  have hlength := hp.length_le
  rw [List.length_append, List.length_singleton] at hlength ⊢
  exact ⟨⟨n', by omega, hnumbered'⟩,
    hinv.step hfirst (hnumbered.nodup (by omega)) hsafe hapart hstep⟩

/-- **The gateway is never too optimistic**: it takes no more for available than the client really
has free. -/
theorem run_available (hsession : Session p c f)
    (hfirst : (p.published f).getAssetIdx ((p.published f).assetId i) = some i)
    (hcount : actions.length ≤ 2 ^ 32) (hsafe : p.Throughout (Safe p.asset) actions)
    (hapart : p.Throughout (Apart c f) actions) (hrun : p.run actions = .ok (x, us))
    (hexact : Unwrapped (p.published f) c i x.reports) :
    available x f i ≤ free (p.published f) p.asset x c i := by
  obtain ⟨L, b, hinv⟩ := run_inv p (i := i) hsession hfirst hcount hsafe hapart hrun
  obtain ⟨hconfirmed, hattempt⟩ := hinv.followed.gatewayState hexact
  have hview := (hinv.solvent hexact).view _ (List.take_prefix x.atGateway x.reports)
  rw [total_shown] at hview
  rw [available, free, hconfirmed, hattempt, hinv.running.restingOrders]
  omega

/-- **Nobody is overdrawn**: the confirmed balance of the client on the slot `i` is not negative,
neither in the account service nor in the gateway, however far they are behind. -/
theorem run_solvent (hsession : Session p c f)
    (hfirst : (p.published f).getAssetIdx ((p.published f).assetId i) = some i)
    (hcount : actions.length ≤ 2 ^ 32) (hsafe : p.Throughout (Safe p.asset) actions)
    (hapart : p.Throughout (Apart c f) actions) (hrun : p.run actions = .ok (x, us))
    (hexact : Unwrapped (p.published f) c i x.reports) :
    0 ≤ (x.account.getClientState c).confirmed i ∧
      0 ≤ (x.writer.states.getClientState f).confirmed i := by
  obtain ⟨L, b, hinv⟩ := run_inv p (i := i) hsession hfirst hcount hsafe hapart hrun
  have hkept := (hinv.solvent hexact).kept
  have hgateway := (hinv.followed.gatewayState hexact).1
  have haccount := hinv.followed.accountState hsession hexact
  refine ⟨Int64.le_iff_toInt_le.2 ?_, Int64.le_iff_toInt_le.2 ?_⟩
  · rw [haccount]
    exact hkept _ (List.take_prefix _ _)
  · rw [hgateway]
    exact hkept _ (List.take_prefix _ _)

end

/-! ## A sample run -/

/-- Cash in the first slot and asset 1 in the second one. -/
def traderSlots : AssetSlots := fun i => if i.val = 0 then 0 else if i.val = 1 then 1 else 500

/-- An amount of cash and an amount of asset 1. -/
def traderFunds (cash shares : Int64) : Funds :=
  ⟨fun i => if i.val = 0 then cash else if i.val = 1 then shares else 0, fun _ => 0⟩

/-- Client 3 has cash, everybody else has shares. -/
def traderAccount (id : UInt32) : Account.ClientState where
  clientId := id
  key := fun _ => 0
  assetId := traderSlots
  authorized := 0
  connected := 0
  toFunds := if id = 3 then traderFunds 1000 0 else traderFunds 0 5

/-- The answer to a login. -/
def traderSnapshot (id fd : UInt32) : ClientAccountSnapshot :=
  { (traderAccount id).toFunds with status := .accepted, sequenceId := 0, clientId := id
                                    clientFd := fd, assetId := traderSlots }

/-- Client 3 has logged in on descriptor 7, client 5 on descriptor 9. -/
def tradersWriter : ClientStatesWriter (FlatHashMap UInt32 UInt32 gatewayMaxClients) :=
  ((ClientStatesWriter.new fun _ => ⟨0, 0, 0, 0, 0, 0, 0, 0, 0, .add⟩).install
    (traderSnapshot 3 7)).install (traderSnapshot 5 9)

theorem tradersWriter_called : ∃ calls : List (UInt32 × StatesCall),
    tradersWriter.states = calls.foldl (fun s c => s.call c.1 c.2) ClientStates.new :=
  ⟨[(7, .setClientState (traderSnapshot 3 7)), (7, .flushTripleBuffer),
    (9, .setClientState (traderSnapshot 5 9)), (9, .flushTripleBuffer)], rfl⟩

theorem tradersWriter_states (fd : UInt32) (h7 : fd ≠ 7) (h9 : fd ≠ 9) :
    tradersWriter.states fd = ClientStates.new fd :=
  (ClientStatesWriter.install_other (show fd ≠ (traderSnapshot 5 9).clientFd from h9)).trans
    (ClientStatesWriter.install_other (show fd ≠ (traderSnapshot 3 7).clientFd from h7))

theorem tradersWriter_unstaged : tradersWriter.states.Unstaged := by
  intro fd
  by_cases h7 : fd = 7
  · subst h7
    decide
  by_cases h9 : fd = 9
  · subst h9
    decide
  rw [tradersWriter_states fd h7 h9]
  exact ⟨rfl, rfl⟩

theorem traderAccount_called : ∃ (init : UInt32 → Account.ClientState)
    (calls : List Account.ClientStates.Call),
    Account.ClientStates.new traderAccount = calls.foldl Account.ClientStates.call (.new init) :=
  ⟨traderAccount, [], rfl⟩

theorem traderAccount_unstaged : (Account.ClientStates.new traderAccount).Unstaged :=
  fun _ => ⟨rfl, rfl⟩

/-- The engine trades asset 1, at gateway 1. -/
def traders : Opening (FlatHashMap UInt32 UInt32 gatewayMaxClients) where
  sha256 := id
  gatewayId := 1
  ordersCount := 0
  assetId := 1
  initialPrice := 100
  reportSeq := 0
  bookSeq := 0
  bidSeed := 3
  askSeed := 5
  writer := tradersWriter
  account := .new traderAccount
  called := tradersWriter_called
  unstaged := tradersWriter_unstaged
  accountCalled := traderAccount_called
  accountUnstaged := traderAccount_unstaged

theorem traders_session : Session traders 3 7 where
  alone := by
    intro fd
    by_cases h7 : fd = 7
    · subst h7
      decide
    by_cases h9 : fd = 9
    · subst h9
      decide
    have hid : (traders.published fd).clientId = 0 := by
      show (tradersWriter.states fd).published.clientId = 0
      rw [tradersWriter_states fd h7 h9]
      rfl
    rw [hid]
    simp [h7]
  slots := by decide
  confirmed := by decide
  balances := by decide
  attempts := by decide

/-- Client 5 offers 5 shares at 100; client 3 buys 3 of them at the market and then bids for more
than it can pay for. Client 6 comes and goes, and the writers follow late and in pieces. -/
def tradersRun : List Action :=
  let order : Int64 → UInt32 → UInt32 → OrderType → SideByte → PaddedOrder :=
    fun price client amount type side =>
      ⟨⟨price, 0, 0, client, amount, 1, type, side, .execute⟩, fun _ => 0⟩
  [.order 9 1 (order 100 5 5 .limit .sell) false, .process, .login ⟨.details, 6, fun _ => 0, 11, 0⟩,
    .order 7 1 (order 101 3 3 .market .buy) false, .answer, .gateway 1,
    .order 7 1 (order 100 3 8 .limit .buy) false, .process, .account 2, .disconnect 11, .gateway 5,
    .account 5]

/-- When the engine has processed the market order and the gateway does not know it yet: it sees 697
available, the price limit being 101, and 700 are free. -/
theorem run_available_traders :
    ∃ x us, traders.run (tradersRun.take 8) = .ok (x, us) ∧
      available x 7 0 = 697 ∧ free (traders.published 7) 1 x 3 0 = 700 ∧
      available x 7 0 ≤ free (traders.published 7) 1 x 3 0 := by
  obtain ⟨x, us, hrun, havailable, hfree, hexact⟩ := exists_of_succeeds
    (P := fun x _ => available x 7 0 = 697 ∧ free (traders.published 7) 1 x 3 0 = 700 ∧
      Unwrapped (traders.published 7) 3 0 x.reports)
    (r := traders.run (tradersRun.take 8)) (by decide +kernel)
  have hsafe : traders.Throughout (Safe 1) (tradersRun.take 8) := by decide +kernel
  have hapart : traders.Throughout (Apart 3 7) (tradersRun.take 8) := by decide +kernel
  have hview := run_available traders traders_session (by decide)
    (by decide) hsafe hapart hrun hexact
  exact ⟨x, us, hrun, havailable, hfree, hview⟩

theorem run_solvent_traders :
    ∃ x us, traders.run tradersRun = .ok (x, us) ∧
      (x.account.getClientState 3).confirmed 0 = 700 ∧
      (x.writer.states.getClientState 11).clientId = 6 ∧
      0 ≤ (x.account.getClientState 3).confirmed 0 ∧
      0 ≤ (x.writer.states.getClientState 7).confirmed 0 := by
  obtain ⟨x, us, hrun, hcash, hcame, hexact⟩ := exists_of_succeeds
    (P := fun x _ => (x.account.getClientState 3).confirmed 0 = 700 ∧
      (x.writer.states.getClientState 11).clientId = 6 ∧
      Unwrapped (traders.published 7) 3 0 x.reports)
    (r := traders.run tradersRun) (by decide +kernel)
  have hsafe : traders.Throughout (Safe 1) tradersRun := by decide +kernel
  have hapart : traders.Throughout (Apart 3 7) tradersRun := by decide +kernel
  obtain ⟨haccount, hgateway⟩ :=
    run_solvent traders traders_session (by decide) (by decide) hsafe hapart hrun hexact
  exact ⟨x, us, hrun, hcash, hcame, haccount, hgateway⟩

end Naoto.Exchange
