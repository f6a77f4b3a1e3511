import NaotoExchange.Exchange.Market

/-!
# What the reservations are off by

`run_available` says that the gateway is on the safe side. Here is by how much, exactly, and where
the account service is not.

* `run_withholds`: what the gateway takes for available falls short of what the client has free by
  what is withheld from it (`withheld`): the cost of accepted orders that found the queue full and
  of accepted cancel requests, twice what was left of every cancelled order, and the price
  improvement of an order that has traded and not expired. Nothing gives that back.
* `run_drifts`: what the account service has for reserved is what the client's resting orders can
  cost, and a drift (`driftBy`): an order that trades as it comes in gives back a reservation that
  was never booked, so the next login starts with more than the client has free.
-/

namespace Naoto.Exchange

open FixedWidth Engine Engine.Reference Escrow Gateway Run

/-! ## Reading an event -/

section
variable (c : UInt32) (a asset : UInt16)

/-- What a report does to the reservations that the account service books. -/
def booked (r : OrderStateReport) : Int :=
  if r.clientId = c then if r.soldAssetId = a then r.soldAttemptDelta.toInt else 0 else 0

/-- What an event adds to what the resting orders can cost. -/
def dueBy : Event → Int
  | .trade sd _ resting quantity _ =>
    -share c a asset resting (exactReserve sd.opp quantity resting.price)
  | .add o _ => owed c a asset o
  | .cancel o _ => -owed c a asset o
  | .expire _ _ | .reject _ => 0

/-- What it takes from what the order that came in was to cost. -/
def spentBy : Event → Int
  | .trade sd aggressor _ quantity _ =>
    share c a asset aggressor (exactReserve sd quantity aggressor.price)
  | .add o _ | .expire o _ => owed c a asset o
  | .cancel _ _ | .reject _ => 0

/-- What the gateway keeps for reserved and is not due. -/
def withheldBy : Event → Int
  | .trade sd aggressor resting quantity _ =>
    share c a asset aggressor
      (exactReserve sd quantity aggressor.price - exactReserve sd quantity resting.price)
  | .expire o locked => share c a asset o (exactReserve o.side o.amount o.price - locked.toInt)
  | .cancel o _ => 2 * owed c a asset o
  | .add _ _ | .reject _ => 0

/-- What the account service books for reserved and is not due. -/
def driftBy : Event → Int
  | .trade sd aggressor resting quantity _ =>
    -share c a asset aggressor (exactReserve sd quantity resting.price)
  | .expire o locked => -share c a asset o locked.toInt
  | .cancel o _ => 2 * owed c a asset o
  | .add _ _ | .reject _ => 0

end

/-- The orders of an event are on their sides, and its values within 64 bits. -/
def Exactly : Event → Prop
  | .trade sd aggressor resting quantity _ =>
    aggressor.side = sd ∧ resting.side = sd.opp ∧ Costs quantity resting.price
  | .add o _ | .cancel o _ => Sound o
  | .expire _ locked => 0 ≤ locked.toInt
  | .reject _ => True

section
variable {c : UInt32} {a asset : UInt16} {o r : Order} {b : Book}

theorem booked_fillOf {t : UInt32} {p : Int64} (hcost : Costs t p) (o : Order) :
    booked c a (fillOf asset o.side t p o) = -share c a asset o (exactReserve o.side t p) := by
  have hsold := hcost.soldLeg o.side
  simp only [booked, fillOf, hsold, share]
  by_cases hc : o.clientId = c
  · by_cases ha : soldAssetOf asset o.side = a
    · simp [hc, ha]
    · simp [hc, ha]
  · simp [hc]

theorem booked_attemptOf (attempt : Int64) (o : Order) (state : OrderState) :
    booked c a (attemptOf asset attempt o state) = share c a asset o attempt.toInt := by
  simp only [booked, attemptOf, share]
  by_cases hc : o.clientId = c
  · by_cases ha : soldAssetOf asset o.side = a
    · simp [hc, ha]
    · simp [hc, ha]
  · simp [hc]

/-- The gateway does not count an ADD, and reads everything else as the account service does. -/
theorem attempted_add {r : OrderStateReport} (h : r.state = .add) : attempted c a r = 0 := by
  unfold attempted liveAttempt
  rw [if_pos h]
  split_ifs <;> rfl

theorem attempted_reports {rs : List OrderStateReport} (h : ∀ r ∈ rs, r.state ≠ .add) :
    total (attempted c a) rs = total (booked c a) rs := by
  refine congrArg List.sum (List.map_congr_left fun r hr => ?_)
  unfold attempted booked liveAttempt
  rw [if_neg (h r hr)]

theorem share_neg (v : Int) : share c a asset o (-v) = -share c a asset o v := by
  unfold share
  split <;> simp

variable (c a asset) in
/-- **What the account service books for an event.** -/
theorem booked_event {e : Event} (h : Exactly e) :
    total (booked c a) (e.reports asset) = dueBy c a asset e + driftBy c a asset e := by
  cases e with
  | trade sd aggressor resting quantity depth =>
    obtain ⟨rfl, hside, hcost⟩ := h
    simp only [Event.reports, total_cons, total_nil, dueBy, driftBy]
    rw [← hside, booked_fillOf hcost, booked_fillOf hcost]
    omega
  | add o depth =>
    have hsound : Sound o := h
    simp only [Event.reports, total_cons, total_nil, dueBy, driftBy, booked_attemptOf,
      hsound.share_reserve]
  | cancel o depth =>
    have hsound : Sound o := h
    simp only [Event.reports, total_cons, total_nil, dueBy, driftBy, booked_attemptOf,
      hsound.share_reserve]
    omega
  | expire o locked =>
    have hlocked : 0 ≤ locked.toInt := h
    have hneg : (-locked).toInt = -locked.toInt := by
      have hlt := locked.toInt_lt
      rw [Int64.toInt_neg, Int.bmod_eq_of_le] <;> omega
    simp only [Event.reports, total_cons, total_nil, dueBy, driftBy, booked_attemptOf, hneg,
      share_neg]
    omega
  | reject o =>
    simp only [Event.reports, total_cons, total_nil, dueBy, driftBy, booked]
    split_ifs <;> rfl

/-- **What the gateway reserves for an event.** -/
theorem attempted_event {e : Event} (h : Exactly e) : total (attempted c a) (e.reports asset) =
    dueBy c a asset e - spentBy c a asset e + withheldBy c a asset e := by
  have hbooked := booked_event c a asset h
  cases e with
  | trade sd aggressor resting quantity depth =>
    rw [attempted_reports, hbooked, driftBy, spentBy, withheldBy, share_sub]
    · omega
    · intro r hr
      obtain rfl | hr := List.mem_cons.1 hr
      · exact fillOf_state_ne_add _ _ _ _ _
      · rw [List.mem_singleton.1 hr]
        exact fillOf_state_ne_add _ _ _ _ _
  | add o depth =>
    have hzero : attempted c a (attemptOf asset (reserve o.side o.amount o.price) o .add) = 0 :=
      attempted_add rfl
    simp only [Event.reports, total_cons, total_nil, hzero, dueBy, spentBy, withheldBy]
    omega
  | cancel o depth =>
    rw [attempted_reports, hbooked, driftBy, spentBy, withheldBy]
    · omega
    · simp [Event.reports, attemptOf]
  | expire o locked =>
    rw [attempted_reports, hbooked, driftBy, spentBy, withheldBy, share_sub, owed]
    · omega
    · simp [Event.reports, attemptOf]
  | reject o =>
    rw [attempted_reports, hbooked, driftBy, spentBy, withheldBy]
    · omega
    · simp [Event.reports]

/-! ## What a message does to the book, event by event -/

variable (c a asset) in
/-- A trade takes from the one that rests, and from the order that came in. -/
theorem sweep_due (sd : OrderSide) (q : List Order) (o : Order) (locked : Int64)
    (hside : o.side = sd) (hq : ∀ r ∈ q, r.side = sd.opp) :
    total (owed c a asset) (sweep sd q o locked).queue =
        total (owed c a asset) q + total (dueBy c a asset) (sweep sd q o locked).events ∧
      owed c a asset o = total (spentBy c a asset) (sweep sd q o locked).events +
        owed c a asset (sweep sd q o locked).order := by
  refine sweep_induction sd (P := fun q o _ w => o.side = sd → (∀ r ∈ q, r.side = sd.opp) →
    total (owed c a asset) w.queue = total (owed c a asset) q + total (dueBy c a asset) w.events ∧
    owed c a asset o = total (spentBy c a asset) w.events + owed c a asset w.order) ?_ ?_ q o locked
      hside hq
  · intro q o locked _ _
    exact ⟨(Int.add_zero _).symm, (Int.zero_add _).symm⟩
  · intro r q o locked w _ _ ih hside hq
    subst hside
    have hr := hq r (.head _)
    have hafter : ∀ x ∈ afterTrade o r q, x.side = o.side.opp := by
      intro x hx
      obtain rfl | hx := mem_afterTrade hx
      · exact hr
      · exact hq x (.tail _ hx)
    obtain ⟨hqueue, horder⟩ := ih rfl hafter
    have htrade : total (owed c a asset) (afterTrade o r q) = _ := owed_afterTrade o r q
    have hless : owed c a asset (less o (traded o r)) = _ := owed_less (traded_le_left o r)
    have hdue : dueBy c a asset (tradeEvent o.side o r q) =
        -share c a asset r (exactReserve r.side (traded o r) r.price) := by
      rw [hr]
      rfl
    have hspent : spentBy c a asset (tradeEvent o.side o r q) =
        share c a asset o (exactReserve o.side (traded o r) o.price) := rfl
    refine ⟨?_, ?_⟩
    · show total (owed c a asset) w.queue = _ + total (dueBy c a asset)
        (tradeEvent o.side o r q :: w.events)
      rw [total_cons (dueBy c a asset), hdue]
      omega
    · show owed c a asset o = total (spentBy c a asset) (tradeEvent o.side o r q :: w.events) +
        owed c a asset w.order
      rw [total_cons, hspent]
      omega

variable (c a asset) in
theorem settle_due (b : Book) (w : Swept) :
    due c a asset (settle b w).1 = due c a asset b + total (dueBy c a asset) (settle b w).2 ∧
      owed c a asset w.order = total (spentBy c a asset) (settle b w).2 := by
  unfold settle
  split
  · split
    · refine ⟨?_, (Int.add_zero _).symm⟩
      rw [due_rest]
      exact congrArg _ (Int.add_zero _).symm
    · exact ⟨(Int.add_zero _).symm, (Int.add_zero _).symm⟩
  · next hnone =>
    have hzero : w.order.amount = 0 := by
      have hle : w.order.amount ≤ 0 := UInt32.not_lt.1 hnone
      exact UInt32.le_zero_iff.1 hle
    refine ⟨(Int.add_zero _).symm, ?_⟩
    rw [owed, hzero, exactReserve_zero]
    exact ite_self 0

theorem execute_due (b : Book) (o : Order) (hb : ∀ r ∈ b o.side.opp, r.side = o.side.opp) :
    due c a asset (execute b o).1 = due c a asset b + total (dueBy c a asset) (execute b o).2 ∧
      owed c a asset o = total (spentBy c a asset) (execute b o).2 := by
  obtain ⟨hqueue, horder⟩ := sweep_due c a asset o.side (b o.side.opp) o
    (reserve o.side o.amount o.price) rfl hb
  unfold execute
  dsimp only
  generalize sweep o.side (b o.side.opp) o (reserve o.side o.amount o.price) = w at hqueue horder ⊢
  obtain ⟨hsettled, hspent⟩ := settle_due c a asset (Function.update b o.side.opp w.queue) w
  rw [due_update] at hsettled
  rw [total_append, total_append]
  omega

/-- Taking one order out of a queue whose ids are distinct. -/
theorem total_without {q : List Order} (hids : (q.map Order.id32).Nodup) (hr : r ∈ q) :
    total (owed c a asset) (q.filter fun x => x.id32 ≠ r.id32) = total (owed c a asset) q -
    owed c a asset r := by
  induction q with
  | nil => cases hr
  | cons x q ih =>
    obtain ⟨hx, hq⟩ := List.nodup_cons.1 hids
    rw [total_cons]
    obtain rfl | hr := List.mem_cons.1 hr
    · have hrest : q.filter (fun x => x.id32 ≠ r.id32) = q := by
        refine List.filter_eq_self.2 fun y hy => decide_eq_true fun he => hx ?_
        exact List.mem_map.2 ⟨y, hy, he⟩
      rw [List.filter_cons_of_neg (by simp), hrest]
      omega
    · have hne : x.id32 ≠ r.id32 := fun he => hx (he ▸ List.mem_map_of_mem hr)
      rw [List.filter_cons_of_pos (by simpa using hne), total_cons, ih hq hr]
      omega

theorem cancel_due (hb : ∀ sd, ∀ r ∈ b sd, r.side = sd) (hids : ∀ sd, ((b sd).map Order.id32).Nodup)
    (o : Order) :
    due c a asset (Reference.cancel b o).1 = due c a asset b + total (dueBy c a asset)
    (Reference.cancel b o).2 ∧
      total (spentBy c a asset) (Reference.cancel b o).2 = 0 := by
  unfold Reference.cancel
  split
  · exact ⟨(Int.add_zero _).symm, rfl⟩
  · next r ht =>
    obtain ⟨sd, hsd⟩ := target_mem ht
    have hr : r ∈ b r.side := hb sd r hsd ▸ hsd
    refine ⟨?_, rfl⟩
    have hout : total (owed c a asset) ((b r.side).filter fun x => x.id32 ≠ r.id32) = _ :=
      total_without (hids r.side) hr
    rw [due_update, hout, total_cons, total_nil, dueBy]
    omega

variable (c a asset) in
/-- **A message, in the book**: what is due changes by its events, and so does what it was to cost.
-/
theorem process_due (hb : ∀ sd, ∀ r ∈ b sd, r.side = sd)
    (hids : ∀ sd, ((b sd).map Order.id32).Nodup) (o : Order) :
    due c a asset (process b o).1 = due c a asset b + total (dueBy c a asset) (process b o).2 ∧
      arriving c a asset o = total (spentBy c a asset) (process b o).2 := by
  unfold process arriving
  cases o.action with
  | execute => exact execute_due b o (hb _)
  | cancel =>
    obtain ⟨hdue, hspent⟩ := cancel_due hb hids o
    exact ⟨hdue, hspent.symm⟩

theorem settle_exactly {w : Swept} (hw : Sound w.order) (hlocked : 0 ≤ w.locked.toInt) :
    ∀ e ∈ (settle b w).2, Exactly e := by
  intro e he
  unfold settle at he
  split at he
  · split at he
    · rw [List.mem_singleton.1 he]
      exact hw
    · rw [List.mem_singleton.1 he]
      exact hlocked
  · cases he

theorem process_exactly (hb : ∀ sd, Stands sd (b sd)) (ho : o.action = .execute → Sound o) :
    ∀ e ∈ (process b o).2, Exactly e := by
  intro e he
  unfold process at he
  cases ha : o.action with
  | execute =>
    rw [ha] at he
    obtain ⟨-, hsweep, -⟩ := sweep_message 0 0 0 hb (ho ha)
    obtain he | he := List.mem_append.1 he
    · have hpriced := sweep_priced o.side _ o _ rfl (ho ha) (hb _) e he
      obtain ⟨offer, hoffer, left, quantity, depth, rfl, -⟩ := sweep_tradesWith _ _ _ e he
      exact ⟨rfl, (hb _ offer hoffer).1, hpriced⟩
    · exact settle_exactly hsweep.sound (hsweep.locks.nonneg hsweep.sound) e he
  | cancel =>
    rw [ha] at he
    simp only [Reference.cancel] at he
    split at he
    · rw [List.mem_singleton.1 he]
      trivial
    · next r ht =>
      obtain ⟨sd, hsd⟩ := target_mem ht
      rw [List.mem_singleton.1 he]
      exact (hb sd r hsd).2

theorem total_flatMap {f : OrderStateReport → Int} {g : Event → Int} {es : List Event}
    (h : ∀ e ∈ es, total f (e.reports asset) = g e) :
    total f (es.flatMap (Event.reports asset)) = total g es := by
  induction es with
  | nil => rfl
  | cons e es ih =>
    rw [List.flatMap_cons, total_append, h e (.head _), ih fun e he => h e (.tail _ he), total_cons]

theorem total_sub_add (f g h : Event → Int) (es : List Event) :
    total (fun e => f e - g e + h e) es = total f es - total g es + total h es := by
  induction es with
  | nil => rfl
  | cons e es ih =>
    rw [total_cons, total_cons, total_cons, total_cons, ih]
    omega

variable (c a asset) in
/-- **A message, in the reservations.** -/
theorem process_reserves (hb : ∀ sd, Stands sd (b sd)) (hids : ∀ sd, ((b sd).map Order.id32).Nodup)
    (ho : o.action = .execute → Sound o) :
    total (attempted c a) ((process b o).2.flatMap (Event.reports asset)) =
        due c a asset (process b o).1 - due c a asset b - arriving c a asset o +
          total (withheldBy c a asset) (process b o).2 ∧
      total (booked c a) ((process b o).2.flatMap (Event.reports asset)) =
        due c a asset (process b o).1 - due c a asset b + total (driftBy c a asset)
        (process b o).2 := by
  have hexactly := process_exactly hb ho
  obtain ⟨hdue, hspent⟩ := process_due c a asset (fun sd r hr => (hb sd r hr).1) hids o
  refine ⟨?_, ?_⟩
  · rw [total_flatMap fun e he => attempted_event (hexactly e he), total_sub_add, hdue, hspent]
    omega
  · have hsum : ∀ es : List Event, total (fun e => dueBy c a asset e + driftBy c a asset e) es =
        total (dueBy c a asset) es + total (driftBy c a asset) es := fun es => List.sum_map_add ..
    rw [total_flatMap fun e he => booked_event c a asset (hexactly e he), hsum, hdue]
    omega

end

/-! ## Steps of the exchange -/

section
variable {M : Type} (c f : UInt32) (i : Fin maxPositions) (a asset : UInt16)

/-- The order was accepted against the slot `i`, and it will not be executed: it is a request to
cancel, or the queue is full. -/
def Wasted (x : Exchange M) (fd : UInt32) (auth : UInt8) (order : Order) (full : Bool) : Prop :=
  fd = f ∧
    (checkOrderRisk (x.writer.states.getClientState fd) (x.router.localFunds fd) order auth).1 =
      .accepted ∧
    (x.writer.states.getClientState fd).getAssetIdx (chargedAsset order) = some i ∧
    (full = true ∨ order.action = .cancel)

instance (x : Exchange M) (fd : UInt32) (auth : UInt8) (order : Order) (full : Bool) :
    Decidable (Wasted f i x fd auth order full) := inferInstanceAs (Decidable (_ ∧ _))

/-- The events of the order that the engine takes next. -/
def nextEvents (x : Exchange M) : List Event :=
  match x.nextOrder with
  | none => []
  | some o => (Reference.process x.engine.restingOrders o.toOrder).2

/-- What a step withholds from the client `c` on the descriptor `f`, in its slot `i` of the asset
`a`. -/
def withheld (x : Exchange M) : Action → Int
  | .order fd auth order full =>
    if Wasted f i x fd auth order.toOrder full then exactAmount order.toOrder else 0
  | .process => total (withheldBy c a asset) (nextEvents x)
  | .gateway _ | .account _ | .login _ | .answer | .disconnect _ => 0

/-- What a step adds to the drift of the account service's reservations. -/
def drift (x : Exchange M) : Action → Int
  | .process => total (driftBy c a asset) (nextEvents x)
  | .order _ _ _ _ | .gateway _ | .account _ | .login _ | .answer | .disconnect _ => 0

/-- A step that gives the engine nothing to do withholds nothing. -/
theorem idle_zero {x : Exchange M} {act : Action} (h : Idle x act) :
    withheld c f i a asset x act = 0 ∧ drift c a asset x act = 0 := by
  cases act with
  | order fd auth order full => exact h.elim
  | process =>
    have hnone : nextEvents x = [] := by
      unfold nextEvents
      rw [show x.nextOrder = none from h]
    simp only [withheld, drift, hnone, total_nil, and_self]
  | gateway n => exact ⟨rfl, rfl⟩
  | account n => exact ⟨rfl, rfl⟩
  | login request => exact ⟨rfl, rfl⟩
  | answer => exact ⟨rfl, rfl⟩
  | disconnect fd => exact ⟨rfl, rfl⟩

end

theorem arriving_execute {c : UInt32} {a asset : UInt16} {o : Order} (h : o.action = .execute) :
    arriving c a asset o = owed c a asset o := by
  unfold arriving
  rw [h]

theorem arriving_cancel {c : UInt32} {a asset : UInt16} {o : Order} (h : o.action = .cancel) :
    arriving c a asset o = 0 := by
  unfold arriving
  rw [h]

theorem getAssetIdx_some {y : ClientState} {a : UInt16} {j : Fin maxPositions}
    (h : y.getAssetIdx a = some j) : y.assetId j = a := by
  unfold ClientState.getAssetIdx at h
  exact of_decide_eq_true (List.find?_some h :)

section
variable {M : Type} {x : Exchange M} {fd : UInt32} {auth : UInt8} {order : PaddedOrder}
  {full : Bool}

/-- The router pushes an order if and only if it has accepted it and the queue has room. -/
theorem waiting_routed_eq (gatewayId : UInt16) (htaken : x.taken ≤ x.router.link.length)
    (c : UInt32) (a asset : UInt16) :
    total (arriving c a asset) (waiting (routed gatewayId x fd auth order full)) =
      total (arriving c a asset) (waiting x) +
        if (checkOrderRisk (x.writer.states.getClientState fd) (x.router.localFunds fd)
          order.toOrder auth).1 = .accepted ∧ full = false
        then arriving c a asset order.toOrder else 0 := by
  have hlink : (routed gatewayId x fd auth order full).router.link = x.router.link ++
      if (checkOrderRisk (x.writer.states.getClientState fd) (x.router.localFunds fd) order.toOrder
        auth).1 = .accepted ∧ full = false
      then [x.router.numbered gatewayId (x.routerInput fd auth order full)] else [] := by
    have hscreen : x.router.screen sharedMemory (x.routerInput fd auth order full) =
        checkOrderRisk (x.writer.states.getClientState fd) (x.router.localFunds fd) order.toOrder
          auth := rfl
    simp only [routed, OrderRouter.route, hscreen]
    by_cases hacc : (checkOrderRisk (x.writer.states.getClientState fd) (x.router.localFunds fd)
        order.toOrder auth).1 = .accepted
    · cases full with
      | true => simp [hacc, sharedMemory, routerInput]
      | false => simp [hacc, sharedMemory, routerInput]
    · simp [hacc]
  have hdrop : waiting (routed gatewayId x fd auth order full) = waiting x ++
      ((if (checkOrderRisk (x.writer.states.getClientState fd) (x.router.localFunds fd)
          order.toOrder auth).1 = .accepted ∧ full = false
        then [x.router.numbered gatewayId (x.routerInput fd auth order full)] else []).map
          PaddedOrder.toOrder) := by
    rw [waiting, hlink, waiting, ← List.map_append]
    exact congrArg _ (List.drop_append_of_le_length htaken)
  rw [hdrop, total_append]
  split_ifs
  · rw [List.map_singleton, total_cons, total_nil, Int.add_zero]
    rfl
  · rfl

end

/-! ## Runs -/

/-- What has been reserved for the client since the opening, in the gateway and in the account
service, against what is due. -/
structure Reserves {M : Type} (p : Opening M) (c f : UInt32) (i : Fin maxPositions) (x : Exchange M)
    (leak off : Int) : Prop where
  traces : Traces p.assetId x
  followed : Followed p c f x
  session : InSession (p.published f).sessionId (x.router.localFunds f)
  gateway : ((x.router.localFunds f).attempt i).toInt +
      total (attempted c ((p.published f).assetId i)) x.reports =
    due c ((p.published f).assetId i) p.asset x.engine.restingOrders +
      total (arriving c ((p.published f).assetId i) p.asset) (waiting x) + leak
  account : total (booked c ((p.published f).assetId i)) x.reports =
    due c ((p.published f).assetId i) p.asset x.engine.restingOrders + off

section
variable {M : Type} {p : Opening M} {c f : UInt32} {i : Fin maxPositions} {x x' : Exchange M}
  {leak off : Int} {fd : UInt32} {auth : UInt8} {order : PaddedOrder} {full : Bool}

variable (full) in
/-- The cost of an order that is charged to the slot either arrives at the engine or is wasted. -/
theorem arriving_add_wasted {a asset : UInt16} (hsane : Sane asset order.toOrder)
    (hacc : (checkOrderRisk (x.writer.states.getClientState f) (x.router.localFunds f)
      order.toOrder auth).1 = .accepted)
    (hslot : (x.writer.states.getClientState f).getAssetIdx (chargedAsset order.toOrder) = some i)
    (hown : order.clientId = c) (hasset : soldAssetOf asset order.side = a) :
    ((if (checkOrderRisk (x.writer.states.getClientState f) (x.router.localFunds f)
        order.toOrder auth).1 = .accepted ∧ full = false
      then arriving c a asset order.toOrder else 0) +
      if Wasted f i x f auth order.toOrder full then exactAmount order.toOrder else 0) =
      exactAmount order.toOrder := by
  have hcost : exactAmount order.toOrder = owed c a asset order.toOrder := by
    rw [exactAmount_eq hsane.side, owed, share, if_pos ⟨hown, hasset⟩]
  have hwasted : Wasted f i x f auth order.toOrder full ↔ full = true ∨ order.action = .cancel :=
    ⟨fun hw => hw.2.2.2, fun hw => ⟨rfl, hacc, hslot, hw⟩⟩
  cases full with
  | true =>
    rw [if_neg (by simp), if_pos (hwasted.2 (.inl rfl)), Int.zero_add]
  | false =>
    rw [if_pos ⟨hacc, rfl⟩]
    cases ha : order.action with
    | execute =>
      rw [arriving_execute ha, if_neg fun hw => by rw [hwasted, ha] at hw; simp at hw, hcost,
        Int.add_zero]
    | cancel =>
      rw [arriving_cancel ha, if_pos (hwasted.2 (.inr ha)), Int.zero_add]

/-- An order on the client's own descriptor: what is charged is due, or withheld. -/
theorem Reserves.own (gatewayId : UInt16) (h : Reserves p c f i x leak off)
    (hsession : Session p c f)
    (hfirst : (p.published f).getAssetIdx ((p.published f).assetId i) = some i)
    (hsafe : Orderly p.asset x (.order f auth order full)) :
    Reserves p c f i (routed gatewayId x f auth order full)
      (leak + if Wasted f i x f auth order.toOrder full then exactAmount order.toOrder else 0)
      off := by
  have hinfo := h.followed.info
  have hslots : (x.writer.states.getClientState f).assetId = (p.published f).assetId :=
    congrArg ClientInfo.assetId hinfo
  have hid : (x.writer.states.getClientState f).sessionId = (p.published f).sessionId :=
    congrArg ClientInfo.sessionId hinfo
  have hlocal : (routed gatewayId x f auth order full).router.localFunds f =
      (checkOrderRisk (x.writer.states.getClientState f) (x.router.localFunds f) order.toOrder
        auth).2 := by
    rw [localFunds_routed]
    exact Function.update_self ..
  have hin : InSession (x.writer.states.getClientState f).sessionId (x.router.localFunds f) :=
    hid ▸ h.session
  obtain ⟨L, hrunning⟩ := h.traces.running
  refine ⟨h.traces.routed gatewayId hsafe, h.followed.route gatewayId, ?_, ?_, h.account⟩
  · rw [hlocal, ← hid]
    exact hin.check
  have hgateway := h.gateway
  rw [hlocal, waiting_routed_eq gatewayId hrunning.taken]
  show _ + total _ x.reports = due _ _ _ x.engine.restingOrders + _ + _
  obtain ⟨hsane, hcheck⟩ := hsafe.1
  obtain ⟨hne, hattempt⟩ | ⟨j, -, hclient, hslot, hfunds, hacc, hattempt⟩ :=
    hin.check_cases order.toOrder auth
  · rw [hattempt, if_neg fun hp => hne hp.1, if_neg fun hw => hne hw.2.1]
    omega
  · have hown : order.clientId = c := by
      rw [← hclient]
      exact (congrArg ClientInfo.clientId hinfo).trans ((hsession.alone f).2 rfl)
    rw [hattempt]
    by_cases hji : j = i
    · subst hji
      have hasset : soldAssetOf p.asset order.side = (p.published f).assetId j := by
        rw [← hslots, getAssetIdx_some hslot, hsane.chargedAsset_eq]
      have hsplit := arriving_add_wasted full hsane hacc hslot hown hasset
      have hgrown : ((x.router.localFunds f).attempt j + chargedAmount order.toOrder).toInt =
          ((x.router.localFunds f).attempt j).toInt + exactAmount order.toOrder :=
        (hcheck.accept hslot hfunds).2
      rw [Function.update_self, hgrown]
      omega
    · -- another slot is charged, for another asset
      have hother : soldAssetOf p.asset order.side ≠ (p.published f).assetId i := by
        intro heq
        rw [hsane.chargedAsset_eq, heq, ClientState.getAssetIdx, hslots] at hslot
        exact hji (Option.some.inj (hslot.symm.trans hfirst))
      rw [Function.update_of_ne (Ne.symm hji), arriving_other fun hown => hother hown.2, ite_self,
        if_neg fun hw => hji (Option.some.inj (hslot.symm.trans hw.2.2.1))]
      omega

theorem Reserves.other (gatewayId : UInt16) (h : Reserves p c f i x leak off) (hfd : fd ≠ f)
    (hsafe : Orderly p.asset x (.order fd auth order full)) :
    Reserves p c f i (routed gatewayId x fd auth order full) leak off := by
  have hlocal : (routed gatewayId x fd auth order full).router.localFunds f =
      x.router.localFunds f := by
    rw [localFunds_routed]
    exact Function.update_of_ne (Ne.symm hfd) ..
  obtain ⟨L, hrunning⟩ := h.traces.running
  refine ⟨h.traces.routed gatewayId hsafe, h.followed.route gatewayId, hlocal ▸ h.session, ?_,
    h.account⟩
  have hgateway := h.gateway
  rw [hlocal, waiting_routed_eq gatewayId hrunning.taken]
  show _ + total _ x.reports = due _ _ _ x.engine.restingOrders + _ + _
  obtain ⟨hne, -⟩ | ⟨j, -, hclient, -⟩ := checkOrderRisk_cases
    (x.writer.states.getClientState fd) (x.router.localFunds fd) order.toOrder auth
  · rw [if_neg fun hp => hne hp.1]
    omega
  · have hstranger : order.clientId ≠ c := fun heq =>
      h.followed.stranger hfd (hclient.trans heq)
    rw [arriving_other fun hown => hstranger hown.1, ite_self]
    omega

theorem Reserves.process (h : Reserves p c f i x leak off)
    (hids : (x.router.link.map fun o => o.toOrder.id32).Nodup) {o : PaddedOrder}
    (ho : x.nextOrder = some o) (hsafe : Orderly p.asset x .process) {engine : FlatBidAsk}
    {out : BidAsk.Out} (hstep : x.engine.step o.toOrder = .ok (engine, out)) :
    Reserves p c f i (x.processing engine out)
      (leak + total (withheldBy c ((p.published f).assetId i) p.asset) (nextEvents x))
      (off + total (driftBy c ((p.published f).assetId i) p.asset) (nextEvents x)) := by
  obtain ⟨L, hrunning⟩ := h.traces.running
  obtain ⟨hlt, hget⟩ := List.getElem?_eq_some_iff.1 ho
  have hmem : o ∈ x.router.link := hget ▸ List.getElem_mem hlt
  obtain ⟨⟨L', hrunning'⟩, htells⟩ := hrunning.tells hids ho (hsafe.1 o ho) (hsafe.2 o ho)
    (h.traces.amounts o hmem) hstep
  have hevents : nextEvents x = (Reference.process x.engine.restingOrders o.toOrder).2 := by
    unfold nextEvents
    rw [ho]
  have hafter : engine.restingOrders =
      (Reference.process x.engine.restingOrders o.toOrder).1 := by
    rw [hrunning.restingOrders]
    exact hrunning'.restingOrders
  rw [← hrunning.restingOrders] at htells
  have hstands := hrunning.stands
  have hnodup := hrunning.view.ids_nodup
  rw [← hrunning.restingOrders] at hstands hnodup
  obtain ⟨hattempted, hbooked⟩ := process_reserves c ((p.published f).assetId i) p.asset
    hstands hnodup (hrunning.sane o hmem).2
  have htells' : out.reports.map OrderStateReport.unnumbered =
      (Reference.process x.engine.restingOrders o.toOrder).2.flatMap (Event.reports p.asset) :=
      htells
  rw [← total_of_tells htells' fun r => rfl, ← hevents, ← hafter] at hattempted hbooked
  have hgateway := h.gateway
  have haccount := h.account
  rw [waiting_take ho, total_cons] at hgateway
  refine ⟨h.traces.process hids ho hsafe hstep, h.followed.reports rfl rfl rfl rfl rfl, h.session,
    ?_, ?_⟩
  · show _ + total _ (x.reports ++ out.reports) = due _ _ _ engine.restingOrders +
      total _ ((x.router.link.drop (x.taken + 1)).map PaddedOrder.toOrder) + _
    rw [total_append, hattempted]
    show ((x.router.localFunds f).attempt i).toInt + _ = _
    omega
  · show total _ (x.reports ++ out.reports) = due _ _ _ engine.restingOrders + _
    rw [total_append, hbooked]
    omega

theorem Reserves.step [ClientFdMap M] (h : Reserves p c f i x leak off) (hsession : Session p c f)
    (hfirst : (p.published f).getAssetIdx ((p.published f).assetId i) = some i)
    (hids : (x.router.link.map fun o => o.toOrder.id32).Nodup) {act : Action}
    (hsafe : Orderly p.asset x act) (hapart : Apart c f x act) {u : Unit}
    (hs : step p.sha256 p.gatewayId x act = .ok (x', u)) :
    Reserves p c f i x'
      (leak + withheld c f i ((p.published f).assetId i) p.asset x act)
      (off + drift c ((p.published f).assetId i) p.asset x act) := by
  have hfollowed := h.followed.step hapart hs
  obtain ⟨fd, auth, order, full, rfl, rfl⟩ | ⟨o, engine, out, rfl, ho, hstep, rfl⟩ |
    ⟨hidle, hsame⟩ := step_market hs
  · rw [drift, Int.add_zero]
    by_cases hfd : fd = f
    · subst hfd
      exact h.own p.gatewayId hsession hfirst hsafe
    · rw [withheld, if_neg fun hw => hfd hw.1, Int.add_zero]
      exact h.other p.gatewayId hfd hsafe
  · exact h.process hids ho hsafe hstep
  · obtain ⟨hwithheld, hdrift⟩ := idle_zero c f i ((p.published f).assetId i) p.asset hidle
    rw [hwithheld, hdrift, Int.add_zero, Int.add_zero]
    refine ⟨h.traces.congr hsame, hfollowed, ?_, ?_, ?_⟩
    · rw [hsame.router]
      exact h.session
    · rw [waiting, hsame.router, hsame.taken, hsame.reports, hsame.engine]
      exact h.gateway
    · rw [hsame.reports, hsame.engine]
      exact h.account

end

section
variable {M : Type} [ClientFdMap M] (p : Opening M) {c f : UInt32} {i : Fin maxPositions}
  {actions : List Action} {x : Exchange M} {us : List Unit}

/-- What `v` reads off the steps, added up along a run from the opening. -/
def summed (v : Exchange M → Action → Int) (actions : List Action) : Int :=
  (collect (fun x act => [v x act]) (step p.sha256 p.gatewayId) p.exchange actions).sum

theorem run_reserves (hsession : Session p c f)
    (hfirst : (p.published f).getAssetIdx ((p.published f).assetId i) = some i)
    (hcount : actions.length ≤ 2 ^ 32) (hsafe : p.Throughout (Orderly p.asset) actions)
    (hapart : p.Throughout (Apart c f) actions) (hrun : p.run actions = .ok (x, us)) :
    let a := (p.published f).assetId i
    Reserves p c f i x (summed p (withheld c f i a p.asset) actions)
      (summed p (drift c a p.asset) actions) := by
  intro a
  have hstart : Reserves p c f i p.exchange 0 0 := by
    have hempty : p.exchange.engine.restingOrders = Reference.empty :=
      (running_opened p).restingOrders
    refine ⟨traces_opened p, followed_opened p hsession, .inr rfl, ?_, ?_⟩
    · rw [hempty]
      rfl
    · rw [hempty]
      rfl
  have hpre : p.Throughout (fun x act => Orderly p.asset x act ∧ Apart c f x act) actions :=
    fun xs a hp s bs hr => ⟨hsafe xs a hp s bs hr, hapart xs a hp s bs hr⟩
  refine (run_invariant (P := fun acts x _ =>
      (∃ n ≤ acts.length, Numbered p.ordersCount n x.router) ∧
      Reserves p c f i x (summed p (withheld c f i a p.asset) acts)
        (summed p (drift c a p.asset) acts))
    ⟨⟨0, Nat.zero_le _, numbered_opened p⟩, hstart⟩ hpre ?_ hrun).2
  intro acts act x us x' u hp hacts ⟨⟨n, hn, hnumbered⟩, hreserves⟩ ⟨hsafe, hapart⟩ hstep
  obtain ⟨n', hn', hnumbered'⟩ := hnumbered.step hstep
  have hlength := hp.length_le
  rw [List.length_append, List.length_singleton] at hlength ⊢
  have hsum : ∀ v : Exchange M → Action → Int,
      summed p v (acts ++ [act]) = summed p v acts + v x act := by
    intro v
    rw [summed, collect_snoc hacts, List.sum_append, List.sum_singleton]
    rfl
  rw [hsum, hsum]
  exact ⟨⟨n', by omega, hnumbered'⟩,
    hreserves.step hsession hfirst (hnumbered.nodup (by omega)) hsafe hapart hstep⟩

/-- **What the gateway withholds**, however far it is behind: with what the reports under way will
show, it takes for available what the client has free, less the reservations of the start and what
is withheld. -/
theorem run_withholds (hsession : Session p c f)
    (hfirst : (p.published f).getAssetIdx ((p.published f).assetId i) = some i)
    (hcount : actions.length ≤ 2 ^ 32) (hsafe : p.Throughout (Orderly p.asset) actions)
    (hapart : p.Throughout (Apart c f) actions) (hrun : p.run actions = .ok (x, us))
    (hexact : Unwrapped (p.published f) c i x.reports) :
    let a := (p.published f).assetId i
    available x f i + total (shown c a) (x.reports.drop x.atGateway) =
      free (p.published f) p.asset x c i - ((p.published f).attempt i).toInt -
        summed p (withheld c f i a p.asset) actions := by
  dsimp only
  have hreserves := run_reserves p hsession hfirst hcount hsafe hapart hrun
  obtain ⟨hconfirmed, hattempt⟩ := hreserves.followed.gatewayState hexact
  have hsplit : ∀ g : OrderStateReport → Int, total g x.reports =
      total g (x.reports.take x.atGateway) + total g (x.reports.drop x.atGateway) := fun g => by
    rw [← total_append, List.take_append_drop]
  have hgateway := hreserves.gateway
  rw [hsplit (attempted c _)] at hgateway
  rw [available, free, hconfirmed, hattempt, total_shown, hsplit (paid c _)]
  omega

/-- The reports of the client among all reports, in the account service's reservations. -/
theorem creditReports_attempt (slots : AssetSlots) (c : UInt32) (i : Fin maxPositions)
    (rs : List OrderStateReport) (g : Funds) :
    ((ownReports c rs).foldl (fun f r => Account.creditReport slots r f) g).attempt i =
      g.attempt i + Int64.ofInt (total (booked c (slots i)) rs) := by
  induction rs generalizing g with
  | nil => exact (add_zero _).symm
  | cons r rs ih =>
    rw [total_cons, Int64.ofInt_add]
    by_cases hr : r.clientId = c
    · have hsold : (r.soldAssetId = slots i) = (slots i = r.soldAssetId) := propext eq_comm
      have hone : (Account.creditReport slots r g).attempt i =
          g.attempt i + Int64.ofInt (booked c (slots i) r) := by
        simp only [Account.creditReport, Funds.credit, booked, if_pos hr, ofInt_ite, hsold]
        split_ifs <;> simp
      rw [ownReports, List.filter_cons_of_pos (by simpa using hr), List.foldl_cons]
      have hrest := ih (Account.creditReport slots r g)
      rw [hone, add_assoc] at hrest
      exact hrest
    · rw [ownReports, List.filter_cons_of_neg (by simpa using hr), booked, if_neg hr]
      have hzero : Int64.ofInt 0 = 0 := rfl
      rw [hzero, zero_add]
      exact ih g

/-- **How the account service's reservations drift**, however far it is behind: with what the
reports under way will book, they are those of the start, what the resting orders of the client can
cost, and the drift. -/
theorem run_drifts (hsession : Session p c f)
    (hfirst : (p.published f).getAssetIdx ((p.published f).assetId i) = some i)
    (hcount : actions.length ≤ 2 ^ 32) (hsafe : p.Throughout (Orderly p.asset) actions)
    (hapart : p.Throughout (Apart c f) actions) (hrun : p.run actions = .ok (x, us))
    (hfits : IsInt64 (((p.account.getClientState c).attempt i).toInt +
      total (booked c ((p.account.getClientState c).assetId i)) (x.reports.take x.atAccount))) :
    let a := (p.account.getClientState c).assetId i
    ((x.account.getClientState c).attempt i).toInt +
        total (booked c a) (x.reports.drop x.atAccount) =
      ((p.account.getClientState c).attempt i).toInt + due c a p.asset x.engine.restingOrders +
        summed p (drift c a p.asset) actions := by
  dsimp only
  have hreserves := run_reserves p hsession hfirst hcount hsafe hapart hrun
  have hsum := hreserves.account
  rw [hsession.slots] at hsum
  have hfunds := (hreserves.followed.account.getClientState c).2
  rw [creditClients_own] at hfunds
  have hattempt := creditReports_attempt (p.account.getClientState c).assetId c i
    (x.reports.take x.atAccount) (p.account c).total
  rw [← hfunds] at hattempt
  have hexact : ((p.account c).total.attempt i + Int64.ofInt
      (total (booked c ((p.account.getClientState c).assetId i))
        (x.reports.take x.atAccount))).toInt =
      ((p.account.getClientState c).attempt i).toInt +
        total (booked c ((p.account.getClientState c).assetId i))
          (x.reports.take x.atAccount) := toInt_add_ofInt hfits
  rw [hattempt, hexact]
  have hsplit : total (booked c ((p.account.getClientState c).assetId i)) x.reports =
      total (booked c ((p.account.getClientState c).assetId i)) (x.reports.take x.atAccount) +
        total (booked c ((p.account.getClientState c).assetId i))
          (x.reports.drop x.atAccount) := by
    rw [← total_append, List.take_append_drop]
  omega

end

/-- Client 3 has paid 300 for what it was charged 303 for: 3 are withheld. -/
theorem run_withholds_traders :
    ∃ x us, traders.run tradersRun = .ok (x, us) ∧
      x.atGateway = x.reports.length ∧ available x 7 0 = 697 ∧
      free (traders.published 7) 1 x 3 0 = 700 ∧
      available x 7 0 = free (traders.published 7) 1 x 3 0 -
        summed traders (withheld 3 7 0 0 1) tradersRun := by
  obtain ⟨x, us, hrun, hall, havailable, hfree, hexact⟩ := exists_of_succeeds
    (P := fun x _ => x.atGateway = x.reports.length ∧ available x 7 0 = 697 ∧
      free (traders.published 7) 1 x 3 0 = 700 ∧ Unwrapped (traders.published 7) 3 0 x.reports)
    (r := traders.run tradersRun) (by decide +kernel)
  have hsafe : traders.Throughout (Orderly 1) tradersRun := by decide +kernel
  have hapart : traders.Throughout (Apart 3 7) tradersRun := by decide +kernel
  have hview := run_withholds traders traders_session (by decide)
    (by decide) hsafe hapart hrun hexact
  have hslot : (traders.published 7).assetId 0 = 0 := by decide
  have hattempt : ((traders.published 7).attempt 0).toInt = 0 := by decide
  have hasset : traders.asset = 1 := rfl
  simp only [hall, List.drop_length, total_nil, hslot, hattempt, hasset, Int.add_zero,
    Int.sub_zero] at hview
  exact ⟨x, us, hrun, hall, havailable, hfree, hview⟩

/-- The account service has -300 for reserved, for an order that is done: the next login starts with
300 too much. -/
theorem run_drifts_traders :
    ∃ x us, traders.run tradersRun = .ok (x, us) ∧
      (x.account.getClientState 3).confirmed 0 = 700 ∧
      (x.account.getClientState 3).attempt 0 = -300 ∧
      due 3 0 1 x.engine.restingOrders = 0 ∧
      ((x.account.getClientState 3).attempt 0).toInt = due 3 0 1 x.engine.restingOrders +
        summed traders (drift 3 0 1) tradersRun := by
  obtain ⟨x, us, hrun, hall, hconfirmed, hattempt, hdue, hfits⟩ := exists_of_succeeds
    (P := fun x _ => x.atAccount = x.reports.length ∧
      (x.account.getClientState 3).confirmed 0 = 700 ∧
      (x.account.getClientState 3).attempt 0 = -300 ∧ due 3 0 1 x.engine.restingOrders = 0 ∧
      IsInt64 (((traders.account.getClientState 3).attempt 0).toInt +
        total (booked 3 ((traders.account.getClientState 3).assetId 0))
          (x.reports.take x.atAccount)))
    (r := traders.run tradersRun) (by decide +kernel)
  have hsafe : traders.Throughout (Orderly 1) tradersRun := by decide +kernel
  have hapart : traders.Throughout (Apart 3 7) tradersRun := by decide +kernel
  have hview := run_drifts traders traders_session (by decide) (by decide) hsafe hapart hrun hfits
  have hslot : (traders.account.getClientState 3).assetId 0 = 0 := by decide
  have hstart : ((traders.account.getClientState 3).attempt 0).toInt = 0 := by decide
  have hasset : traders.asset = 1 := rfl
  simp only [hall, List.drop_length, total_nil, hslot, hstart, hasset, Int.add_zero,
    Int.zero_add] at hview
  exact ⟨x, us, hrun, hconfirmed, hattempt, hdue, hview⟩

end Naoto.Exchange
