import NaotoExchange.Engine.Proof.Owners
import NaotoExchange.Exchange.Solvency

/-!
# Whose orders the reports are about

Every report of the engine is about an order that it has taken out of the queue (`step_owned`), and
every order in the queue was accepted by the router, on a descriptor where its client was published.
So a client hears of, and its balances move by, only orders that came in under its name and that
were confirmed there (`run_authentic`). Nothing is assumed about the orders and the logins: this
also holds when cancel requests name the wrong side, tables are crowded, pools are empty and values
wrap.
-/

namespace Naoto.Exchange

open Gateway Engine Run

/-! ## Orders and clients -/

section
variable {M : Type} [ClientFdMap M]

/-- The order of `q` came in on a descriptor where the gateway had published its client, with an
authentication status other than 0, and it was confirmed there as accepted. -/
def Origin (p : Opening M) (actions : List Action) (confirmed : List ClientMessage) (q : Party) :
    Prop :=
  ∃ before fd auth order full x us, before ++ [.order fd auth order full] <+: actions ∧
    p.run before = .ok (x, us) ∧ auth ≠ 0 ∧ order.clientId = q.clientId ∧
    (x.writer.states.getClientState fd).clientId = q.clientId ∧
    ⟨fd, q.orderId, order.clientOrderId, .accepted⟩ ∈ confirmed

variable {p : Opening M} {actions actions' : List Action}
  {confirmed confirmed' : List ClientMessage} {q : Party}

theorem Origin.mono (h : Origin p actions confirmed q) (ha : actions <+: actions')
    (hc : confirmed ⊆ confirmed') : Origin p actions' confirmed' q := by
  obtain ⟨before, fd, auth, order, full, x, us, hmem, hrun, hauth, horder, hclient, hmessage⟩ := h
  exact ⟨before, fd, auth, order, full, x, us, hmem.trans ha, hrun, hauth, horder, hclient,
    hc hmessage⟩

omit [ClientFdMap M] in
/-- The router takes no confirmation back, and confirms what it pushes. -/
theorem route_confirms (gatewayId : UInt16) (r : OrderRouter (List PaddedOrder))
    (y : RouterInput Bool) :
    let r' := r.route sharedMemory gatewayId y
    r.outgoingConfirmation ⊆ r'.outgoingConfirmation ∧
      (r'.link = r.link ∨
        r'.link = r.link ++ [r.numbered gatewayId y] ∧ y.auth ≠ 0 ∧
          y.state.clientId = y.order.clientId ∧
          ⟨y.fd, r.nextOrderId gatewayId, y.order.clientOrderId, .accepted⟩ ∈
            r'.outgoingConfirmation) := by
  intro r'
  have hscreen : r.screen sharedMemory y =
      checkOrderRisk y.state (r.localFunds y.fd) y.order.toOrder y.auth := rfl
  have hmessage : (checkOrderRisk y.state (r.localFunds y.fd) y.order.toOrder y.auth).1 =
      .accepted → r.message sharedMemory gatewayId y =
        ⟨y.fd, r.nextOrderId gatewayId, y.order.clientOrderId, .accepted⟩ := by
    intro hacc
    rw [OrderRouter.message, hscreen, hacc]
  obtain ⟨hne, -⟩ | ⟨j, hauth, hclient, -, -, hacc⟩ := checkOrderRisk_cases y.state
    (r.localFunds y.fd) y.order.toOrder y.auth
  · simp only [r', OrderRouter.route, hscreen, if_neg hne]
    exact ⟨List.subset_append_left _ _, .inl trivial⟩
  · have hstatus := congrArg Prod.fst hacc
    simp only [r', OrderRouter.route, hscreen, if_pos hstatus, hmessage hstatus]
    cases hfull : y.answer with
    | true => exact ⟨by simp [sharedMemory], .inl (by simp [sharedMemory])⟩
    | false =>
      exact ⟨by simp [sharedMemory],
        .inr ⟨by simp [sharedMemory], hauth, hclient, by simp [sharedMemory]⟩⟩

/-! ## The invariant -/

/-- Every order in the queue has its origin, and the engine knows and reports only such orders. -/
structure Authentic (p : Opening M) (actions : List Action) (x : Exchange M) : Prop where
  queue : ∀ o ∈ x.router.link,
    Origin p actions x.router.outgoingConfirmation (orderParty o.toOrder)
  engine : x.engine.Owned p.asset (Origin p actions x.router.outgoingConfirmation)
    (Origin p actions x.router.outgoingConfirmation)
  reports : ∀ r ∈ x.reports, Origin p actions x.router.outgoingConfirmation (reportParty r)

theorem Authentic.mono {x : Exchange M} (h : Authentic p actions x) (ha : actions <+: actions') :
    Authentic p actions' x := by
  have horigin : ∀ q, Origin p actions x.router.outgoingConfirmation q →
      Origin p actions' x.router.outgoingConfirmation q :=
    fun q hq => hq.mono ha (List.Subset.refl _)
  exact ⟨fun o ho => horigin _ (h.queue o ho), h.engine.mono horigin horigin,
    fun r hr => horigin _ (h.reports r hr)⟩

variable {x x' : Exchange M} {us : List Unit} {act : Action} {u : Unit}

theorem Authentic.routed {fd : UInt32} {auth : UInt8} {order : PaddedOrder} {full : Bool}
    (h : Authentic p actions x) (hrun : p.run actions = .ok (x, us)) :
    Authentic p (actions ++ [.order fd auth order full])
      (routed p.gatewayId x fd auth order full) := by
  obtain ⟨hconfirmed, hlink⟩ :=
    route_confirms p.gatewayId x.router (x.routerInput fd auth order full)
  have hold : ∀ q, Origin p actions x.router.outgoingConfirmation q →
      Origin p (actions ++ [.order fd auth order full])
        (Exchange.routed p.gatewayId x fd auth order full).router.outgoingConfirmation q :=
    fun q hq => hq.mono (List.prefix_append _ _) hconfirmed
  refine ⟨fun o ho => ?_, h.engine.mono hold hold, fun r hr => hold _ (h.reports r hr)⟩
  change o ∈ (x.router.route sharedMemory p.gatewayId (x.routerInput fd auth order full)).link at ho
  obtain hlink | ⟨hlink, hauth, hclient, hmessage⟩ := hlink
  · rw [hlink] at ho
    exact hold _ (h.queue o ho)
  · rw [hlink, List.mem_append, List.mem_singleton] at ho
    obtain ho | rfl := ho
    · exact hold _ (h.queue o ho)
    · have hid : (x.router.numbered p.gatewayId (x.routerInput fd auth order full)).toOrder.id32 =
          x.router.nextOrderId p.gatewayId := UInt32.toUInt32_toUInt64 _
      refine ⟨actions, fd, auth, order, full, x, us, List.prefix_refl _, hrun, hauth, rfl, hclient,
        ?_⟩
      dsimp only [orderParty]
      rw [hid]
      exact hmessage

theorem Authentic.process {o : PaddedOrder} {engine : FlatBidAsk} {out : BidAsk.Out}
    (h : Authentic p actions x) (ho : x.nextOrder = some o)
    (hstep : x.engine.step o.toOrder = .ok (engine, out)) :
    Authentic p actions (x.processing engine out) := by
  obtain ⟨hlt, hget⟩ := List.getElem?_eq_some_iff.1 ho
  have horigin := h.queue o (hget ▸ List.getElem_mem hlt)
  obtain ⟨hengine, hsettles⟩ := step_owned h.engine (fun _ => horigin) (fun _ => horigin) hstep
  refine ⟨h.queue, hengine, fun r hr => ?_⟩
  obtain hr | hr := List.mem_append.1 hr
  · exact h.reports r hr
  · exact (hsettles.told r hr).elim id id

theorem Authentic.step (h : Authentic p actions x) (hrun : p.run actions = .ok (x, us))
    (hs : step p.sha256 p.gatewayId x act = .ok (x', u)) : Authentic p (actions ++ [act]) x' := by
  obtain ⟨fd, auth, order, full, rfl, rfl⟩ | ⟨o, engine, out, rfl, ho, hstep, rfl⟩ | ⟨-, hsame⟩ :=
    step_market hs
  · exact h.routed hrun
  · exact (h.process ho hstep).mono (List.prefix_append _ _)
  · obtain ⟨hqueue, hengine, hreports⟩ := h.mono (List.prefix_append actions [act])
    refine ⟨?_, ?_, ?_⟩
    · rw [hsame.router]
      exact hqueue
    · rw [hsame.router, hsame.engine]
      exact hengine
    · rw [hsame.router, hsame.reports]
      exact hreports

/-! ## Runs -/

/-- **No report comes from nowhere**: each is about an order that came in on a descriptor where the
gateway had published the client of the report, with an authentication status other than 0, and that
was confirmed there as accepted under the id in the report. -/
theorem run_authentic (p : Opening M) {actions : List Action} {x : Exchange M} {us : List Unit}
    (hrun : p.run actions = .ok (x, us)) :
    ∀ r ∈ x.reports, Origin p actions x.router.outgoingConfirmation (reportParty r) := by
  have hstart : Authentic p [] p.exchange :=
    ⟨fun _ ho => absurd ho List.not_mem_nil, newFlat_owned,
      fun _ hr => absurd hr List.not_mem_nil⟩
  have hany : p.Throughout (fun _ _ => True) actions := fun _ _ _ _ _ _ => trivial
  refine (run_invariant (P := fun acts x _ => Authentic p acts x) hstart hany ?_ hrun).reports
  intro acts act x us x' u _ hacts h _ hstep
  exact h.step hacts hstep

end

theorem run_authentic_traders :
    ∃ x us, traders.run tradersRun = .ok (x, us) ∧
      x.reports.map reportParty = [⟨5, 0⟩, ⟨3, 1⟩, ⟨5, 0⟩] ∧
      ∀ r ∈ x.reports, Origin traders tradersRun x.router.outgoingConfirmation (reportParty r) := by
  obtain ⟨x, us, hrun, hparties⟩ := exists_of_succeeds
    (P := fun x _ => x.reports.map reportParty = [⟨5, 0⟩, ⟨3, 1⟩, ⟨5, 0⟩])
    (r := traders.run tradersRun) (by decide +kernel)
  exact ⟨x, us, hrun, hparties, run_authentic traders hrun⟩

end Naoto.Exchange
