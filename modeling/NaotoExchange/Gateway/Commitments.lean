import NaotoExchange.Gateway.OrderRiskCheck
import NaotoExchange.Lib.Run

/-!
# What a client may commit

A session of risk checks, with the answers given so far.

* `run_no_overcommitment`: as long as no 64-bit result wraps, the accepted orders of a slot cost at
  most what the slot had left. `wrapped_order_accepted`: an order whose cost wraps is accepted
  whatever it costs.
* `run_only_orders_reserve`: as long as cancel requests name no cost and meet funds that are not
  overdrawn, only orders reserve. `cancel_reserves`: a cancel request reserves, or is refused for,
  its target's id.
-/

namespace Naoto.Gateway

open FixedWidth Run

/-- A check: the state that it reads, whether its batch came from a client that is logged in, and
the message. -/
structure RiskInput where
  state : ClientState
  auth : UInt8
  order : Order

/-- The local funds of a descriptor and the answers given. -/
structure RiskSession where
  funds : LocalFunds
  answers : List (RiskInput × OrderConfirmationStatus)

namespace RiskSession

/-- The router checks an order and remembers what it answered. -/
def check (s : RiskSession) (x : RiskInput) : RiskSession :=
  let r := checkOrderRisk x.state s.funds x.order x.auth
  ⟨r.2, s.answers ++ [(x, r.1)]⟩

/-- Nothing is reserved and nothing has been checked. -/
def start (localSessionId : UInt32) : RiskSession := ⟨⟨fun _ => 0, localSessionId⟩, []⟩

/-- A check against the state `c`, which does not change. -/
def checkWith (c : ClientState) (s : RiskSession) (o : Order) : RiskSession := s.check ⟨c, 1, o⟩

end RiskSession

open RiskSession

/-- The message was accepted, and charged to the slot `i`. -/
def chargedTo (i : Fin maxPositions) (e : RiskInput × OrderConfirmationStatus) : Bool :=
  e.2 = .accepted && e.1.state.getAssetIdx (chargedAsset e.1.order) = some i

theorem chargedTo_accepted {i j : Fin maxPositions} {x : RiskInput}
    (h : x.state.getAssetIdx (chargedAsset x.order) = some i) :
    chargedTo j (x, .accepted) = decide (i = j) := by
  simp [chargedTo, h]

theorem chargedTo_refused {j : Fin maxPositions} {x : RiskInput} {status : OrderConfirmationStatus}
    (h : status ≠ .accepted) : chargedTo j (x, status) = false := by
  simp [chargedTo, h]

/-! ## Over-commitment -/

/-- The cost of an order, without wraparound. -/
def exactAmount (o : Order) : Int :=
  if o.sideByte = .sell then o.amount.toNat else o.amount.toNat * o.price.toInt

theorem toInt_chargedAmount {o : Order} (h : IsInt64 (exactAmount o)) :
    (chargedAmount o).toInt = exactAmount o := by
  unfold chargedAmount
  unfold exactAmount at h ⊢
  by_cases hs : o.sideByte = .sell
  · rw [if_pos hs, if_pos hs]
    exact toInt_zeroExtend o.amount
  · rw [if_neg hs, ← toInt_zeroExtend] at h
    rw [if_neg hs, if_neg hs, ← toInt_zeroExtend]
    exact toInt_mul_of_fits h.1 h.2

/-- What has been accepted on a slot. -/
def committed (i : Fin maxPositions) (answers : List (RiskInput × OrderConfirmationStatus)) : Int :=
  ((answers.filter (chargedTo i)).map fun e => exactAmount e.1.order).sum

/-- No result of the check wraps: the cost, what is reserved already, what is left, and what is
reserved if the order is accepted. -/
def Exact (l : LocalFunds) (x : RiskInput) : Prop :=
  ∀ i, x.state.getAssetIdx (chargedAsset x.order) = some i →
    let left := (x.state.confirmed i).toInt - ((x.state.attempt i).toInt + (l.attempt i).toInt)
    IsInt64 (exactAmount x.order) ∧ IsInt64 ((x.state.attempt i).toInt + (l.attempt i).toInt) ∧
      IsInt64 left ∧
      (exactAmount x.order ≤ left → IsInt64 ((l.attempt i).toInt + exactAmount x.order))

instance (l : LocalFunds) (x : RiskInput) : Decidable (Exact l x) :=
  inferInstanceAs (Decidable (∀ _, _ → _ ∧ _ ∧ _ ∧ _))

section
variable {c : ClientState} {answers : List (RiskInput × OrderConfirmationStatus)} {x : RiskInput}
  {status : OrderConfirmationStatus} {i j : Fin maxPositions}

theorem committed_refused (h : status ≠ .accepted) :
    committed j (answers ++ [(x, status)]) = committed j answers := by
  simp [committed, chargedTo_refused h]

theorem committed_accepted (h : x.state.getAssetIdx (chargedAsset x.order) = some i) :
    committed j (answers ++ [(x, .accepted)]) =
      committed j answers + if i = j then exactAmount x.order else 0 := by
  unfold committed
  rw [List.filter_append, List.filter_singleton, chargedTo_accepted h]
  by_cases hij : i = j
  · simp [hij]
  · simp [hij]

/-- The local attempts are the commitments, and these are within the funds. -/
structure Covered (c : ClientState) (s : RiskSession) : Prop where
  session : InSession c.sessionId s.funds
  counted : ∀ i, (s.funds.attempt i).toInt = committed i s.answers
  within : ∀ i, committed i s.answers ≤ max 0 ((c.confirmed i).toInt - (c.attempt i).toInt)

/-- An order that is accepted costs at most what is left, and is counted at its cost. -/
theorem Exact.accept {l : LocalFunds} (h : Exact l x)
    (hslot : x.state.getAssetIdx (chargedAsset x.order) = some i)
    (hfunds : chargedAmount x.order ≤ x.state.confirmed i - (x.state.attempt i + l.attempt i)) :
    exactAmount x.order ≤
        (x.state.confirmed i).toInt - ((x.state.attempt i).toInt + (l.attempt i).toInt) ∧
      (l.attempt i + chargedAmount x.order).toInt = (l.attempt i).toInt + exactAmount x.order := by
  obtain ⟨hcost, hsum, hleft, hgrown⟩ := h i hslot
  have hadd := toInt_add_of_fits hsum
  have hle := Int64.le_iff_toInt_le.1 hfunds
  rw [← hadd] at hleft hgrown ⊢
  rw [toInt_chargedAmount hcost, toInt_sub_of_fits hleft] at hle
  refine ⟨hle, ?_⟩
  rw [← toInt_chargedAmount hcost] at hgrown ⊢
  exact toInt_add_of_fits (hgrown (by rw [toInt_chargedAmount hcost]; exact hle))

theorem Covered.check {s : RiskSession} {o : Order} {auth : UInt8} (h : Covered c s)
    (hx : Exact s.funds ⟨c, auth, o⟩) : Covered c (s.check ⟨c, auth, o⟩) := by
  have hfunds' : (s.check ⟨c, auth, o⟩).funds = (checkOrderRisk c s.funds o auth).2 := rfl
  have hanswers : (s.check ⟨c, auth, o⟩).answers =
      s.answers ++ [(⟨c, auth, o⟩, (checkOrderRisk c s.funds o auth).1)] := rfl
  obtain ⟨hne, hl⟩ | ⟨i, -, -, hslot, hfunds, hacc, hl⟩ := h.session.check_cases o auth
  · refine ⟨h.session.check, fun j => ?_, fun j => ?_⟩
    · rw [hfunds', hanswers, hl, committed_refused hne, h.counted]
    · rw [hanswers, committed_refused hne]
      exact h.within j
  · obtain ⟨hle, hcount⟩ := hx.accept hslot hfunds
    rw [h.counted] at hle
    have htotal : committed i s.answers + exactAmount o ≤ (c.confirmed i).toInt -
        (c.attempt i).toInt := by
      dsimp only at hle
      omega
    refine ⟨h.session.check, fun j => ?_, fun j => ?_⟩
    · rw [hfunds', hanswers, hl, hacc, committed_accepted hslot]
      by_cases hij : i = j
      · subst hij
        rw [if_pos rfl, Function.update_self, ← h.counted]
        exact hcount
      · rw [if_neg hij, Function.update_of_ne fun hji => hij hji.symm, h.counted, add_zero]
    · rw [hanswers, hacc, committed_accepted hslot]
      by_cases hij : i = j
      · subst hij
        rw [if_pos rfl]
        exact le_max_of_le_right htotal
      · rw [if_neg hij, add_zero]
        exact h.within j

end

/-- No result of the next check wraps. -/
def ExactWith (c : ClientState) (s : RiskSession) (o : Order) : Prop := Exact s.funds ⟨c, 1, o⟩

instance (c : ClientState) (s : RiskSession) (o : Order) : Decidable (ExactWith c s o) :=
  inferInstanceAs (Decidable (Exact _ _))

/-- **No over-commitment**, as long as no result wraps: for each slot, what the accepted orders cost
in total is at most what the slot had left. -/
theorem run_no_overcommitment (c : ClientState) (localSessionId : UInt32) {orders : List Order}
    (hx : Through (ExactWith c) (checkWith c) (start localSessionId) orders)
    (i : Fin maxPositions) :
    committed i (orders.foldl (checkWith c) (start localSessionId)).answers ≤
      max 0 ((c.confirmed i).toInt - (c.attempt i).toInt) := by
  have hstart : Covered c (start localSessionId) :=
    ⟨.inr rfl, fun _ => rfl, fun _ => le_max_left _ _⟩
  have hrun := foldl_invariant (P := fun _ s => Covered c s) hstart hx fun _ o s h hexact =>
    h.check hexact
  exact hrun.within i

instance : NeZero maxPositions := ⟨by decide⟩

/-- Cash in slot 0 and asset 1 in slot 1, for client 7 in session 1. -/
def sampleClient (cash shares : Int64) : ClientState where
  clientId := 7
  assetId := fun i => if i = 0 then 0 else if i = 1 then 1 else 500
  auth := 1
  sessionId := 1
  confirmed := fun i => if i = 0 then cash else if i = 1 then shares else 0
  attempt := fun _ => 0

def sampleOrders : List Order :=
  [⟨10, 1, 0, 7, 6, 1, .limit, .buy, .execute⟩, ⟨10, 2, 0, 7, 6, 1, .limit, .buy, .execute⟩,
   ⟨10, 3, 0, 7, 5, 1, .limit, .sell, .execute⟩, ⟨-10, 4, 0, 7, 1, 1, .limit, .buy, .execute⟩,
   ⟨10, 5, 0, 7, 5, 1, .limit, .buy, .execute⟩]

/-- With 100 in cash: of two orders over 60 the first is accepted; one at a negative price makes
room. -/
theorem run_no_overcommitment_sample :
    committed 0 (sampleOrders.foldl (checkWith (sampleClient 100 5)) (start 0)).answers = 100 ∧
      (100 : Int) ≤ max 0 (100 - 0) := by
  have hx : Through (ExactWith (sampleClient 100 5)) (checkWith (sampleClient 100 5)) (start 0)
      sampleOrders := by decide +kernel
  have hspent : committed 0
      (sampleOrders.foldl (checkWith (sampleClient 100 5)) (start 0)).answers = 100 := by
    decide +kernel
  have h := run_no_overcommitment (sampleClient 100 5) 0 hx 0
  rw [hspent] at h
  exact ⟨hspent, h⟩

/-- With 100 in cash, an order over 12,000,000,000,000,000,000 is accepted: its cost wraps below
zero. -/
theorem wrapped_order_accepted :
    let s := checkWith (sampleClient 100 5) (start 0)
      ⟨3000000000, 1, 0, 7, 4000000000, 1, .limit, .buy, .execute⟩
    s.answers.map Prod.snd = [.accepted] ∧ committed 0 s.answers = 12000000000000000000 ∧
      ¬ committed 0 s.answers ≤ max 0 (((sampleClient 100 5).confirmed 0).toInt -
        ((sampleClient 100 5).attempt 0).toInt) := by
  decide +kernel

/-! ## Cancel requests -/

/-- What the accepted orders charged to a slot add up to. -/
def reserved (i : Fin maxPositions) (answers : List (RiskInput × OrderConfirmationStatus)) :
    Int64 :=
  ((answers.filter fun e => chargedTo i e && e.1.order.action = .execute).map fun e =>
    chargedAmount e.1.order).sum

/-- A cancel request that gets as far as the funds comes to no amount, and finds them not overdrawn.
-/
def Harmless (s : RiskSession) (x : RiskInput) : Prop :=
  x.order.action = .cancel → x.auth ≠ 0 → x.state.clientId = x.order.clientId →
    ∀ i, x.state.getAssetIdx (chargedAsset x.order) = some i →
      chargedAmount x.order = 0 ∧
        0 ≤ x.state.confirmed i - (x.state.attempt i + (s.funds.sync x.state.sessionId).attempt i)

instance (s : RiskSession) (x : RiskInput) : Decidable (Harmless s x) :=
  inferInstanceAs (Decidable (_ → _ → _ → ∀ _, _ → _))

section
variable {answers : List (RiskInput × OrderConfirmationStatus)} {x : RiskInput}
  {status : OrderConfirmationStatus} {i j : Fin maxPositions}

theorem reserved_refused (h : status ≠ .accepted) :
    reserved j (answers ++ [(x, status)]) = reserved j answers := by
  simp [reserved, chargedTo_refused h]

theorem reserved_cancel (h : x.order.action = .cancel) :
    reserved j (answers ++ [(x, status)]) = reserved j answers := by
  simp [reserved, h]

theorem reserved_order (h : x.state.getAssetIdx (chargedAsset x.order) = some i)
    (ha : x.order.action = .execute) :
    reserved j (answers ++ [(x, .accepted)]) =
      reserved j answers + if i = j then chargedAmount x.order else 0 := by
  unfold reserved
  rw [List.filter_append, List.filter_singleton, chargedTo_accepted h, ha]
  by_cases hij : i = j
  · simp [hij]
  · simp [hij]

/-- The local attempts are those of the orders. -/
structure OnlyOrders (session : UInt32) (s : RiskSession) : Prop where
  session : InSession session s.funds
  counted : ∀ i, s.funds.attempt i = reserved i s.answers

theorem Harmless.attempt {s : RiskSession} (h : Harmless s x)
    (hs : InSession x.state.sessionId s.funds)
    (ha : x.order.action = .cancel) : (s.check x).funds.attempt = s.funds.attempt := by
  obtain ⟨-, hl⟩ | ⟨i, hauth, hclient, hslot, -, -, hl⟩ := hs.check_cases x.order x.auth
  · exact hl
  · refine hl.trans ?_
    rw [(h ha hauth hclient i hslot).1, add_zero, Function.update_eq_self]

theorem OnlyOrders.check {session : UInt32} {s : RiskSession} (h : OnlyOrders session s)
    (hs : x.state.sessionId = session) (hx : Harmless s x) : OnlyOrders session (s.check x) := by
  subst hs
  have hanswers : (s.check x).answers =
      s.answers ++ [(x, (checkOrderRisk x.state s.funds x.order x.auth).1)] := rfl
  refine ⟨h.session.check, fun j => ?_⟩
  rw [hanswers]
  cases ha : x.order.action with
  | cancel => rw [hx.attempt h.session ha, reserved_cancel ha, h.counted]
  | execute =>
    obtain ⟨hne, hl⟩ | ⟨i, -, -, hslot, -, hacc, hl⟩ := h.session.check_cases x.order x.auth
    · rw [reserved_refused hne, ← h.counted]
      exact congrFun hl j
    · rw [hacc, reserved_order hslot ha, ← h.counted]
      refine (congrFun hl j).trans ?_
      by_cases hij : i = j
      · subst hij
        rw [Function.update_self, if_pos rfl]
      · rw [Function.update_of_ne fun hji => hij hji.symm, if_neg hij, add_zero]

/-- A harmless cancel request of the right client is accepted. -/
theorem Harmless.accepted_iff {s : RiskSession} (h : Harmless s x) (ha : x.order.action = .cancel)
    (hslot : x.state.getAssetIdx (chargedAsset x.order) = some i) :
    (checkOrderRisk x.state s.funds x.order x.auth).1 = .accepted ↔
      x.auth ≠ 0 ∧ x.state.clientId = x.order.clientId := by
  constructor
  · intro hacc
    obtain ⟨hne, -⟩ | ⟨-, hauth, hclient, -⟩ := checkOrderRisk_cases x.state s.funds x.order x.auth
    · exact absurd hacc hne
    · exact ⟨hauth, hclient⟩
  · intro hright
    obtain ⟨hzero, hleft⟩ := h ha hright.1 hright.2 i hslot
    simp only [checkOrderRisk, hright.1, hright.2, hslot, hzero, if_false, ne_eq, not_true,
      not_lt.2 hleft]

end

/-- **Only orders reserve funds**, as long as every cancel request is harmless: the local attempts
of a slot are the amounts of the orders accepted on it, a cancel request leaves them unchanged, and
whether it is accepted does not depend on the funds. -/
theorem run_only_orders_reserve (session localSessionId : UInt32) {xs : List RiskInput}
    (hsession : ∀ x ∈ xs, x.state.sessionId = session)
    (hx : Through Harmless check (start localSessionId) xs) :
    (∀ i, (xs.foldl check (start localSessionId)).funds.attempt i =
      reserved i (xs.foldl check (start localSessionId)).answers) ∧
    ∀ ys x, ys ++ [x] <+: xs → x.order.action = .cancel →
      let s := ys.foldl check (start localSessionId)
      (s.check x).funds.attempt = s.funds.attempt ∧
        ∀ i, x.state.getAssetIdx (chargedAsset x.order) = some i →
          ((checkOrderRisk x.state s.funds x.order x.auth).1 = .accepted ↔
            x.auth ≠ 0 ∧ x.state.clientId = x.order.clientId) := by
  have hpre : Through (fun s x => x.state.sessionId = session ∧ Harmless s x) check
      (start localSessionId) xs :=
    fun ys x hp => ⟨hsession x (hp.subset (by simp)), hx ys x hp⟩
  have hrun : ∀ ys, ys <+: xs → OnlyOrders session (ys.foldl check (start localSessionId)) := by
    intro ys hp
    exact foldl_invariant (P := fun _ s => OnlyOrders session s) ⟨.inr rfl, fun _ => rfl⟩
      (hpre.restrict hp) fun _ x s h hboth => h.check hboth.1 hboth.2
  refine ⟨(hrun xs (List.prefix_refl _)).counted, fun ys x hp ha => ?_⟩
  obtain ⟨hs, hharmless⟩ := hpre ys x hp
  have hbefore := (hrun ys ((List.prefix_append _ _).trans hp)).session
  exact ⟨hharmless.attempt (hs ▸ hbefore) ha, fun i hslot => hharmless.accepted_iff ha hslot⟩

/-- An order, and a cancel request for a buy that names no price. -/
def sampleChecks : List RiskInput :=
  [⟨sampleClient 100 5, 1, ⟨10, 1, 0, 7, 6, 1, .limit, .buy, .execute⟩⟩,
   ⟨sampleClient 100 5, 1, ⟨0, 2, 0, 7, 1, 1, .limit, .buy, .cancel⟩⟩]

theorem run_only_orders_reserve_sample :
    (sampleChecks.foldl check (start 0)).funds.attempt 0 = 60 ∧
      (sampleChecks.foldl check (start 0)).answers.map Prod.snd = [.accepted, .accepted] ∧
      reserved 0 (sampleChecks.foldl check (start 0)).answers = 60 := by
  have hsession : ∀ x ∈ sampleChecks, x.state.sessionId = 1 := by
    intro x hx
    simp only [sampleChecks, List.mem_cons, List.not_mem_nil, or_false] at hx
    obtain rfl | rfl := hx <;> rfl
  have hx : Through Harmless check (start 0) sampleChecks := by decide +kernel
  have hreserved : reserved 0 (sampleChecks.foldl check (start 0)).answers = 60 := by decide +kernel
  have h := (run_only_orders_reserve 1 0 hsession hx).1 0
  rw [hreserved] at h
  exact ⟨h, by decide +kernel, hreserved⟩

/-- A cancel request for the sell with id 3 reserves 3 of the asset; with 2 of it the request is
refused. -/
theorem cancel_reserves :
    let cancel : Order := ⟨0, 4, 0, 7, 3, 1, .limit, .sell, .cancel⟩
    let s := RiskSession.check (start 0) ⟨sampleClient 100 5, 1, cancel⟩
    s.answers.map Prod.snd = [.accepted] ∧ s.funds.attempt 1 = 3 ∧ reserved 1 s.answers = 0 ∧
      (checkOrderRisk (sampleClient 100 2) (start 0).funds cancel 1).1 = .insufficientFunds := by
  decide +kernel

end Naoto.Gateway
