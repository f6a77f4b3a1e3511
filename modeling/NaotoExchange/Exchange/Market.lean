import NaotoExchange.Exchange.Solvency
import NaotoExchange.Engine.Refinement
import NaotoExchange.Engine.ZeroSum
import NaotoExchange.Lib.Ledger

/-!
# A market that settles at once

What the exchange is for: one market with one book, where an order is matched as it is submitted,
and where each trade moves the asset from the seller to the buyer and the money the other way, at
once. The real one has a queue before the engine, a stream of reports behind it, and two replicas of
the balances that follow at their own pace.

* `run_refines_market`: in any interleaving, the engine's book is that of the market after the
  orders that the engine has taken, in the order in which the gateway has accepted them; and what
  either replica has for a client, with what the reports still under way will add, is what the
  client has in the market. In the market nothing is lost or created.
-/

namespace Naoto.Exchange

open Engine Engine.Reference Escrow Gateway Run

/-! ## The market -/

/-- The book, and what everybody has gained since the opening. -/
structure Market where
  book : Book
  holdings : Ledger UInt32 UInt16 Int

namespace Market

/-- Nothing rests, and nobody has traded. -/
def opened : Market := ⟨empty, fun _ _ => 0⟩

/-- Who buys and who sells, if the order that came in is on the side `sd`. -/
def buyer : OrderSide → Order → Order → UInt32
  | .buy, aggressor, _ => aggressor.clientId
  | .sell, _, resting => resting.clientId

/-- Who gives the asset. -/
def seller (sd : OrderSide) (aggressor resting : Order) : UInt32 := buyer sd.opp aggressor resting

/-- A trade settles: the asset for the money. Nothing else moves anything. -/
def settle (asset : UInt16) (l : Ledger UInt32 UInt16 Int) : Event → Ledger UInt32 UInt16 Int
  | .trade sd aggressor resting quantity _ =>
    (l.transfer (seller sd aggressor resting) (buyer sd aggressor resting) asset
      quantity.toNat).transfer
      (buyer sd aggressor resting) (seller sd aggressor resting) 0
        (quantity.toNat * resting.price.toInt)
  | .add _ _ | .expire _ _ | .cancel _ _ | .reject _ => l

/-- A message is processed and everything that follows from it is settled. -/
def submit (asset : UInt16) (m : Market) (o : Order) : Market where
  book := (process m.book o).1
  holdings := (process m.book o).2.foldl (settle asset) m.holdings

end Market

/-! ## What the reports of a trade pay -/

/-- The cost of a trade is within 64 bits. -/
def Priced : Event → Prop
  | .trade _ _ resting quantity _ => Costs quantity resting.price
  | .add _ _ | .expire _ _ | .cancel _ _ | .reject _ => True

section
variable {c : UInt32} {a asset : UInt16} {o : Order} {b : Book}

theorem paid_fillOf {t : UInt32} {p : Int64} (hcost : Costs t p) (sd : OrderSide) (o : Order) :
    paid c a (fillOf asset sd t p o) = Ledger.entry o.clientId (boughtAssetOf asset sd)
    (exactReserve sd.opp t p) c a -
      Ledger.entry o.clientId (soldAssetOf asset sd) (exactReserve sd t p) c a := by
  have hbought := hcost.boughtLeg sd
  have hsold := hcost.soldLeg sd
  simp only [paid, fillOf, Ledger.entry, hbought, hsold]
  by_cases hc : o.clientId = c
  · simp only [hc, if_true, true_and, eq_comm (a := a)]
    split_ifs <;> omega
  · have hne : c ≠ o.clientId := fun h => hc h.symm
    simp [hc, hne]

theorem paid_attemptOf (attempt : Int64) (o : Order) (state : OrderState) :
    paid c a (attemptOf asset attempt o state) = 0 := by
  unfold paid
  split_ifs <;> rfl

/-- **The reports of an event pay what it settles.** -/
theorem settle_eq_paid (l : Ledger UInt32 UInt16 Int) {e : Event} (h : Priced e) :
    Market.settle asset l e c a = l c a + total (paid c a) (e.reports asset) := by
  cases e with
  | trade sd aggressor resting quantity depth =>
    have hcost : Costs quantity resting.price := h
    simp only [Market.settle, Ledger.transfer, Event.reports, total_cons, total_nil,
      paid_fillOf hcost]
    cases sd with
    | buy =>
      simp only [Market.buyer, Market.seller, OrderSide.opp, boughtAssetOf, soldAssetOf,
        exactReserve]
      omega
    | sell =>
      simp only [Market.buyer, Market.seller, OrderSide.opp, boughtAssetOf, soldAssetOf,
        exactReserve]
      omega
  | add o depth => simp [Market.settle, Event.reports, paid_attemptOf]
  | expire o locked => simp [Market.settle, Event.reports, paid_attemptOf]
  | cancel o depth => simp [Market.settle, Event.reports, paid_attemptOf]
  | reject o =>
    have hzero : paid c a ⟨0, 0, 0, 0, o.clientId, o.id32, 0, 0, 0, .reject⟩ = 0 := by
      unfold paid
      split_ifs <;> rfl
    simp [Market.settle, Event.reports, hzero]

theorem settle_all (l : Ledger UInt32 UInt16 Int) {es : List Event} (h : ∀ e ∈ es, Priced e) :
    es.foldl (Market.settle asset) l c a = l c a + total (paid c a)
    (es.flatMap (Event.reports asset)) := by
  induction es generalizing l with
  | nil => exact (Int.add_zero _).symm
  | cons e es ih =>
    rw [List.foldl_cons, ih _ fun e he => h e (.tail _ he), settle_eq_paid l (h e (.head _)),
      List.flatMap_cons, total_append, Int.add_assoc]

/-! ## The trades of a message -/

theorem sweep_priced (sd : OrderSide) (q : List Order) (o : Order) (locked : Int64)
    (hside : o.side = sd)
    (ho : Sound o) (hq : Stands sd.opp q) : ∀ e ∈ (sweep sd q o locked).events, Priced e := by
  refine sweep_induction sd (P := fun q o _ w => o.side = sd → Sound o → Stands sd.opp q →
    ∀ e ∈ w.events, Priced e) ?_ ?_ q o locked hside ho hq
  · intro q o locked _ _ _ e he
    cases he
  · intro r q o locked w _ hc ih hside ho hq e he
    subst hside
    obtain ⟨hrside, hr⟩ := hq r (.head _)
    obtain rfl | he := List.mem_cons.1 he
    · exact costs_of_crosses ho hr hrside hc
    · exact ih rfl (ho.withAmount (UInt32.sub_le (traded_le_left o r))) (hq.afterTrade o) e he

theorem process_priced (hb : ∀ sd, Stands sd (b sd)) (ho : o.action = .execute → Sound o) :
    ∀ e ∈ (process b o).2, Priced e := by
  intro e he
  cases htrade : e.isTrade with
  | false =>
    cases e with
    | trade => cases htrade
    | _ => trivial
  | true =>
    unfold process at he
    cases ha : o.action with
    | execute =>
      rw [ha] at he
      obtain he | he := List.mem_append.1 he
      · exact sweep_priced o.side _ o _ rfl (ho ha) (hb _) e he
      · rw [(settle_events _ _).2 e he] at htrade
        cases htrade
    | cancel =>
      rw [ha] at he
      simp only [Reference.cancel] at he
      split at he
      · rw [List.mem_singleton.1 he] at htrade
        cases htrade
      · rw [List.mem_singleton.1 he] at htrade
        cases htrade

theorem submit_holdings {m : Market} (hb : ∀ sd, Stands sd (m.book sd))
    (ho : o.action = .execute → Sound o) : (m.submit asset o).holdings c a =
      m.holdings c a + total (paid c a) ((process m.book o).2.flatMap (Event.reports asset)) :=
  settle_all m.holdings (process_priced hb ho)

end

/-! ## Nothing is lost or created -/

theorem process_eq (b : Book) (o : Order) : process b o = processWith true b o := by
  unfold process processWith
  cases o.action <;> rfl

/-- Everybody with an order in the book is in `S`. -/
def Members (S : Finset UInt32) (b : Book) : Prop := ∀ sd, ∀ r ∈ b sd, r.clientId ∈ S

section
variable {S : Finset UInt32} {m : Market} {o : Order} {asset a : UInt16}

theorem Members.process {b : Book} (h : Members S b) (ho : o.clientId ∈ S) :
    Members S (process b o).1 := by
  have hwithin : WithinOr (Reference.process b o).1 b o := by
    unfold Reference.process
    cases o.action with
    | execute => exact within_execute b o
    | cancel => exact (within_cancel b o).or o
  intro sd r' hr'
  obtain ⟨r, hr, he⟩ | ⟨-, he⟩ := hwithin sd r' hr'
  · rw [he]
    exact h sd r hr
  · rw [he]
    exact ho

theorem sum_settle (l : Ledger UInt32 UInt16 Int) {e : Event} (h : Members S m.book)
    (ho : o.clientId ∈ S)
    (he : e ∈ (process m.book o).2) : ∑ c ∈ S, Market.settle asset l e c a = ∑ c ∈ S, l c a := by
  cases htrade : e.isTrade with
  | false =>
    cases e with
    | trade => cases htrade
    | _ => rfl
  | true =>
    rw [process_eq] at he
    obtain ⟨offer, hoffer, left, quantity, depth, rfl, -⟩ := processWith_tradesWith he htrade
    have hmember := h _ offer hoffer
    have hsides : Market.buyer o.side { o with amount := left } (less offer quantity) ∈ S ∧
        Market.seller o.side { o with amount := left } (less offer quantity) ∈ S := by
      cases o.side with
      | buy => exact ⟨ho, hmember⟩
      | sell => exact ⟨hmember, ho⟩
    simp only [Market.settle]
    rw [Ledger.sum_transfer hsides.1 hsides.2, Ledger.sum_transfer hsides.2 hsides.1]

/-- **The market conserves every asset** among those who trade. -/
theorem submit_conserves (h : Members S m.book) (ho : o.clientId ∈ S) :
    ∑ c ∈ S, (m.submit asset o).holdings c a = ∑ c ∈ S, m.holdings c a := by
  have hall : ∀ (es : List Event) (l : Ledger UInt32 UInt16 Int),
      (∀ e ∈ es, e ∈ (process m.book o).2) →
      ∑ c ∈ S, es.foldl (Market.settle asset) l c a = ∑ c ∈ S, l c a := by
    intro es
    induction es with
    | nil => exact fun l _ => rfl
    | cons e es ih =>
      intro l hes
      rw [List.foldl_cons, ih _ fun e he => hes e (.tail _ he)]
      exact sum_settle l h ho (hes e (.head _))
  exact hall _ _ fun e he => he

theorem submits_conserve {os : List Order} (hos : ∀ o ∈ os, o.clientId ∈ S) :
    ∑ c ∈ S, (os.foldl (Market.submit asset) .opened).holdings c a = 0 := by
  suffices h : Members S (os.foldl (Market.submit asset) .opened).book ∧
      ∑ c ∈ S, (os.foldl (Market.submit asset) .opened).holdings c a = 0 from h.2
  refine List.foldlRecOn (motive := fun m : Market => Members S m.book ∧ ∑ c ∈ S,
    m.holdings c a = 0) os _ ?_ ?_
  · exact ⟨fun sd r hr => (List.not_mem_nil hr).elim, by simp [Market.opened]⟩
  · intro m hm o ho
    exact ⟨hm.1.process (hos o ho), (submit_conserves hm.1 (hos o ho)).trans hm.2⟩

end

/-! ## The exchange runs the market -/

/-- Orders have amounts, and the engine has memory for them. -/
def Roomy {M : Type} (x : Exchange M) : Action → Prop
  | .order _ _ order _ => order.action = .execute → 0 < order.amount
  | .process => ∀ o ∈ x.nextOrder, PoolsFree x.engine o.toOrder
  | .gateway _ | .account _ | .login _ | .answer | .disconnect _ => True

instance {M : Type} (x : Exchange M) : ∀ act, Decidable (Roomy x act)
  | .order _ _ _ _ => inferInstanceAs (Decidable (_ → _))
  | .process => inferInstanceAs (Decidable (∀ o ∈ x.nextOrder, _))
  | .gateway _ | .account _ | .login _ | .answer | .disconnect _ => .isTrue trivial

/-- What is assumed about a step. -/
def Orderly {M : Type} (asset : UInt16) (x : Exchange M) (act : Action) : Prop :=
  Safe asset x act ∧ Roomy x act

instance {M : Type} (asset : UInt16) (x : Exchange M) (act : Action) :
    Decidable (Orderly asset x act) := inferInstanceAs (Decidable (_ ∧ _))

/-- The market after the orders that the engine has taken. -/
def marketOf {M : Type} (asset : UInt16) (x : Exchange M) : Market :=
  (processed x).foldl (Market.submit asset) .opened

/-- What is read off the reports without looking at their numbers can be read off the events. -/
theorem total_of_tells {asset : UInt16} {rs : List OrderStateReport} {es : List Event}
    (h : rs.map OrderStateReport.unnumbered = es.flatMap (Event.reports asset))
    {f : OrderStateReport → Int} (hf : ∀ r, f r.unnumbered = f r) :
    total f rs = total f (es.flatMap (Event.reports asset)) := by
  rw [← h, total, total, List.map_map]
  exact congrArg List.sum (List.map_congr_left fun r _ => (hf r).symm)

section
variable {M : Type} {x : Exchange M} {assetId : UInt32} {L : Levels} {b : Book} {m : Market}

/-- **The engine takes an order as the reference does**, and its reports tell what happens. -/
theorem Running.tells (h : Running assetId x L b)
    (hids : (x.router.link.map fun o => o.toOrder.id32).Nodup) {o : PaddedOrder}
    (ho : x.nextOrder = some o)
    (hsafe : NamesSide x.engine o.toOrder ∧ RoomAtHome x.engine o.toOrder)
    (hroom : PoolsFree x.engine o.toOrder) (hamount : o.action = .execute → 0 < o.amount)
    {engine : FlatBidAsk} {out : BidAsk.Out}
    (hstep : x.engine.step o.toOrder = .ok (engine, out)) :
    (∃ L', Running assetId (x.processing engine out) L' (Reference.process b o.toOrder).1) ∧
      out.reports.map OrderStateReport.unnumbered =
        (Reference.process b o.toOrder).2.flatMap (Event.reports assetId.toUInt16) := by
  have hfinite : o.action = .execute → x.engine.finite.HasRoom := fun ha =>
    (BidAsk.hasRoom_finite x.engine).2 (hroom ha)
  obtain ⟨L', b', hrunning, -⟩ := h.process hids ho hsafe hstep
  obtain ⟨⟨_, out'⟩, hstep', ⟨rfl, -⟩, hout⟩ :=
    (step_lifts h.tables h.view hsafe.2).of_ok_left hstep
  obtain rfl : out = out' := hout
  obtain ⟨hfull, hact, -⟩ | ⟨hfull, hact, -⟩ | ⟨s₁, L₁, he, hv, hfeed⟩ :=
    step_cases h.view (h.acceptable hids ho hsafe.1)
  · exact absurd (hfinite hact) hfull
  · exact absurd (hfinite hact) hfull
  rw [he] at hstep'
  obtain ⟨rfl, hout⟩ := Prod.mk.inj (Except.ok.inj hstep')
  rw [processWith_eq h.view hamount] at hv hfeed
  -- the engine has one book only
  have hbook : b' = (Reference.process b o.toOrder).1 :=
    hrunning.view.restingOrders.symm.trans hv.restingOrders
  have hown : x.engine.finite.marketAssetId = assetId := h.asset
  have htells := (tells_emit x.engine.finite.toFeed (Reference.process b o.toOrder).2).reports
  rw [← hfeed, hown] at htells
  exact ⟨⟨L', hbook ▸ hrunning⟩, hout ▸ htells⟩

theorem Running.settles (h : Running assetId x L m.book) {o : PaddedOrder}
    (ho : x.nextOrder = some o) {rs : List OrderStateReport}
    (htells : rs.map OrderStateReport.unnumbered =
      (Reference.process m.book o.toOrder).2.flatMap (Event.reports assetId.toUInt16))
    (c : UInt32) (a : UInt16) :
    (m.submit assetId.toUInt16 o.toOrder).holdings c a =
      m.holdings c a + total (paid c a) rs := by
  obtain ⟨hlt, hget⟩ := List.getElem?_eq_some_iff.1 ho
  rw [submit_holdings h.stands (h.sane o (hget ▸ List.getElem_mem hlt)).2]
  exact congrArg _ (total_of_tells htells fun r => rfl).symm

end

/-- The exchange has done what the market has done. -/
structure Traces {M : Type} (assetId : UInt32) (x : Exchange M) : Prop where
  running : ∃ L, Running assetId x L (marketOf assetId.toUInt16 x).book
  amounts : ∀ o ∈ x.router.link, o.action = .execute → 0 < o.amount
  holdings : ∀ c a, (marketOf assetId.toUInt16 x).holdings c a = total (paid c a) x.reports

section
variable {M : Type} {assetId : UInt32} {x x' : Exchange M}

theorem Traces.routed (h : Traces assetId x) (gatewayId : UInt16) {fd : UInt32} {auth : UInt8}
    {order : PaddedOrder} {full : Bool}
    (hsafe : Orderly assetId.toUInt16 x (.order fd auth order full)) :
    Traces assetId (routed gatewayId x fd auth order full) := by
  obtain ⟨L, hrunning⟩ := h.running
  have hmarket : marketOf assetId.toUInt16 (Exchange.routed gatewayId x fd auth order full) =
      marketOf assetId.toUInt16 x := by
    rw [marketOf, processed_routed gatewayId hrunning.taken]
    rfl
  refine ⟨⟨L, ?_⟩, ?_, ?_⟩
  · rw [hmarket]
    exact hrunning.routed gatewayId hsafe.1
  · obtain ⟨-, -, hlink | ⟨-, hlink⟩⟩ :=
      route_cases gatewayId x.router (x.routerInput fd auth order full)
    · rw [Exchange.routed, hlink]
      exact h.amounts
    · rw [Exchange.routed, hlink]
      intro o ho
      obtain ho | ho := List.mem_append.1 ho
      · exact h.amounts o ho
      · rw [List.mem_singleton.1 ho]
        exact hsafe.2
  · rw [hmarket]
    exact h.holdings

theorem Traces.process (h : Traces assetId x)
    (hids : (x.router.link.map fun o => o.toOrder.id32).Nodup) {o : PaddedOrder}
    (ho : x.nextOrder = some o) (hsafe : Orderly assetId.toUInt16 x .process) {engine : FlatBidAsk}
    {out : BidAsk.Out} (hstep : x.engine.step o.toOrder = .ok (engine, out)) :
    Traces assetId (x.processing engine out) := by
  obtain ⟨L, hrunning⟩ := h.running
  obtain ⟨hlt, hget⟩ := List.getElem?_eq_some_iff.1 ho
  obtain ⟨hrunning', htells⟩ := hrunning.tells hids ho (hsafe.1 o ho) (hsafe.2 o ho)
    (h.amounts o (hget ▸ List.getElem_mem hlt)) hstep
  have hmarket : marketOf assetId.toUInt16 (x.processing engine out) =
      (marketOf assetId.toUInt16 x).submit assetId.toUInt16 o.toOrder := by
    have hprocessed : processed (x.processing engine out) = processed x ++ [o.toOrder] :=
      processed_take ho
    rw [marketOf, hprocessed, List.foldl_append]
    rfl
  refine ⟨?_, h.amounts, fun c a => ?_⟩
  · rw [hmarket]
    exact hrunning'
  · rw [hmarket, hrunning.settles ho htells, h.holdings, ← total_append]
    rfl

theorem Traces.congr (h : Traces assetId x) (hsame : SameMarket x x') : Traces assetId x' := by
  have hmarket : marketOf assetId.toUInt16 x' = marketOf assetId.toUInt16 x := by
    unfold marketOf processed
    rw [hsame.router, hsame.taken]
  obtain ⟨L, hrunning⟩ := h.running
  refine ⟨⟨L, ?_⟩, ?_, ?_⟩
  · rw [hmarket]
    exact hrunning.congr hsame
  · rw [hsame.router]
    exact h.amounts
  · rw [hmarket, hsame.reports]
    exact h.holdings

theorem Traces.step [ClientFdMap M] {sha256 : Account.Key → Account.Key} {gatewayId : UInt16}
    (h : Traces assetId x) (hids : (x.router.link.map fun o => o.toOrder.id32).Nodup) {act : Action}
    (hsafe : Orderly assetId.toUInt16 x act) {u : Unit}
    (hs : step sha256 gatewayId x act = .ok (x', u)) : Traces assetId x' := by
  obtain ⟨fd, auth, order, full, rfl, rfl⟩ | ⟨o, engine, out, rfl, ho, hstep, rfl⟩ | ⟨-, hsame⟩ :=
    step_market hs
  · exact h.routed gatewayId hsafe
  · exact h.process hids ho hsafe hstep
  · exact h.congr hsame

end

section
variable {M : Type} (p : Opening M) {actions : List Action} {x : Exchange M} {us : List Unit}

theorem traces_opened : Traces p.assetId p.exchange :=
  ⟨⟨_, running_opened p⟩, fun _ ho => (List.not_mem_nil ho).elim, fun _ _ => rfl⟩

variable [ClientFdMap M]

theorem run_traces (hcount : actions.length ≤ 2 ^ 32)
    (hsafe : p.Throughout (Orderly p.asset) actions) (hrun : p.run actions = .ok (x, us)) :
    Traces p.assetId x := by
  refine (run_invariant (P := fun acts x _ =>
      (∃ n ≤ acts.length, Numbered p.ordersCount n x.router) ∧ Traces p.assetId x)
    ⟨⟨0, Nat.zero_le _, numbered_opened p⟩, traces_opened p⟩ hsafe ?_ hrun).2
  intro acts act x us x' u hp _ ⟨⟨n, hn, hnumbered⟩, htraces⟩ hsafe hstep
  obtain ⟨n', hn', hnumbered'⟩ := hnumbered.step hstep
  have hlength := hp.length_le
  rw [List.length_append, List.length_singleton] at hlength ⊢
  exact ⟨⟨n', by omega, hnumbered'⟩, htraces.step (hnumbered.nodup (by omega)) hsafe hstep⟩

theorem run_followed {c f : UInt32} (hsession : Session p c f)
    (hapart : p.Throughout (Apart c f) actions) (hrun : p.run actions = .ok (x, us)) :
    Followed p c f x := by
  refine run_invariant (P := fun _ x _ => Followed p c f x) (followed_opened p hsession) hapart ?_
    hrun
  intro acts act x us x' u _ _ hfollowed hapart hstep
  exact hfollowed.step hapart hstep

/-- **The exchange refines the market.** -/
theorem run_refines_market (hcount : actions.length ≤ 2 ^ 32)
    (hsafe : p.Throughout (Orderly p.asset) actions) (hrun : p.run actions = .ok (x, us)) :
    let m := marketOf p.asset x
    x.engine.restingOrders = m.book ∧
    (∀ c f i, Session p c f → p.Throughout (Apart c f) actions →
      Unwrapped (p.published f) c i x.reports →
      let a := (p.published f).assetId i
      ((x.account.getClientState c).confirmed i).toInt +
          total (paid c a) (x.reports.drop x.atAccount) =
          ((p.account.getClientState c).confirmed i).toInt + m.holdings c a ∧
        ((x.writer.states.getClientState f).confirmed i).toInt +
          total (paid c a) (x.reports.drop x.atGateway) =
          ((p.account.getClientState c).confirmed i).toInt + m.holdings c a) ∧
    ∀ (S : Finset UInt32) (a : UInt16), (∀ o ∈ processed x, o.clientId ∈ S) →
      ∑ c ∈ S, m.holdings c a = 0 := by
  intro m
  have htraces := run_traces p hcount hsafe hrun
  obtain ⟨L, hrunning⟩ := htraces.running
  refine ⟨hrunning.restingOrders, fun c f i hsession hapart hexact => ?_,
    fun S a hS => submits_conserve hS⟩
  have hfollowed := run_followed p hsession hapart hrun
  -- what has been handled and what has not make all reports
  have hsplit : ∀ n a, total (paid c a) (x.reports.take n) + total (paid c a) (x.reports.drop n) =
      m.holdings c a := by
    intro n a
    rw [← total_append, List.take_append_drop]
    exact (htraces.holdings c a).symm
  have hgateway := (hfollowed.gatewayState hexact).1
  have haccount := hfollowed.accountState hsession hexact
  rw [hsession.confirmed] at hgateway haccount
  refine ⟨?_, ?_⟩
  · rw [haccount, Int.add_assoc, hsplit]
  · rw [hgateway, Int.add_assoc, hsplit]

end

/-- Client 3 has bought 3 shares for 300, and the account service has not heard of it yet. -/
theorem run_refines_market_traders :
    ∃ x us, traders.run (tradersRun.take 8) = .ok (x, us) ∧
      (marketOf 1 x).holdings 3 0 = -300 ∧ (x.account.getClientState 3).confirmed 0 = 1000 ∧
      x.engine.restingOrders = (marketOf 1 x).book ∧
      ((x.account.getClientState 3).confirmed 0).toInt +
        total (paid 3 0) (x.reports.drop x.atAccount) = 700 ∧
      (marketOf 1 x).holdings 3 1 + (marketOf 1 x).holdings 5 1 = 0 := by
  obtain ⟨x, us, hrun, hpaid, hlate, hmembers, hexact⟩ := exists_of_succeeds
    (P := fun x _ => (marketOf 1 x).holdings 3 0 = -300 ∧
      (x.account.getClientState 3).confirmed 0 = 1000 ∧
      (∀ o ∈ processed x, o.clientId ∈ ({3, 5} : Finset UInt32)) ∧
      Unwrapped (traders.published 7) 3 0 x.reports)
    (r := traders.run (tradersRun.take 8)) (by decide +kernel)
  have hsafe : traders.Throughout (Orderly 1) (tradersRun.take 8) := by decide +kernel
  have hapart : traders.Throughout (Apart 3 7) (tradersRun.take 8) := by decide +kernel
  obtain ⟨hbook, hreplicas, hsum⟩ := run_refines_market traders (by decide) hsafe hrun
  refine ⟨x, us, hrun, hpaid, hlate, hbook, ?_, ?_⟩
  · have haccount := (hreplicas 3 7 0 traders_session hapart hexact).1
    rw [show (traders.published 7).assetId 0 = 0 by decide +kernel] at haccount
    exact haccount.trans (congrArg _ hpaid)
  · have htotal := hsum {3, 5} 1 hmembers
    rwa [Finset.sum_pair (by decide)] at htotal

end Naoto.Exchange
