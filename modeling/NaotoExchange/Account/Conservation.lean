import NaotoExchange.Account.Proof.Balances
import NaotoExchange.Engine.Proof.Owners
import NaotoExchange.Gateway.OrderRiskCheck

/-!
# The account service conserves every asset

* `run_conserves`: as long as the client of every order has a slot for cash and one for the asset of
  the engine, the total of each asset over all clients stays what it was, however the reports of the
  engines are batched.
* `bought_without_slot`: the risk check only looks at the slot of the asset that the order sells
  according to its own `AssetId`, and what is bought without a slot is lost.
-/

namespace Naoto.Account

open FixedWidth Engine Run

/-! ## Balances -/

/-- The first slot of an asset. -/
def slotOf (slots : AssetSlots) (a : UInt16) : Option (Fin maxPositions) :=
  (List.finRange maxPositions).find? fun i => slots i = a

/-- The confirmed balance of an asset, 0 without a slot. -/
def balanceOf (slots : AssetSlots) (f : Funds) (a : UInt16) : Int64 :=
  match slotOf slots a with
  | some i => f.confirmed i
  | none => 0

/-- What the client has of an asset. -/
def ClientState.balance (c : ClientState) (a : UInt16) : Int64 := balanceOf c.assetId c.toFunds a

section
variable {slots : AssetSlots} {f : Funds} {a : UInt16}

theorem balanceOf_credit {confirmed : Int64} {assetId : UInt16} (attempt : Int64)
    (h : confirmed = 0 ∨ (slotOf slots assetId).isSome = true) :
    balanceOf slots (f.credit slots confirmed attempt assetId) a =
      balanceOf slots f a + if assetId = a then confirmed else 0 := by
  unfold balanceOf
  cases hs : slotOf slots a with
  | some i =>
    have hi : slots i = a := by simpa using List.find?_some hs
    simp only [Funds.credit, hi]
    by_cases heq : assetId = a
    · rw [if_pos heq.symm, if_pos heq]
    · rw [if_neg fun h => heq h.symm, if_neg heq, add_zero]
  | none =>
    by_cases heq : assetId = a
    · rw [heq, hs] at h
      rw [if_pos heq, h.resolve_right (by simp), add_zero]
    · rw [if_neg heq, add_zero]

/-- Every leg of the report that moves something has a slot. -/
def Booked (slots : AssetSlots) (r : OrderStateReport) : Prop :=
  (r.boughtDelta = 0 ∨ (slotOf slots r.boughtAssetId).isSome = true) ∧
    (r.soldDelta = 0 ∨ (slotOf slots r.soldAssetId).isSome = true)

theorem balanceOf_creditReport {r : OrderStateReport} (h : Booked slots r) :
    balanceOf slots (creditReport slots r f) a = balanceOf slots f a + confirmedDelta a r := by
  unfold creditReport
  rw [balanceOf_credit _ h.2, balanceOf_credit _ h.1, add_assoc]
  rfl

end

/-! ## Totals -/

theorem sum_of_update {α β M : Type} [DecidableEq α] [AddCommMonoid M] {s : Finset α}
    (g : α → β → M)
    {w : α → β} {i : α} {v : β} {d : M} (hv : g i v = g i (w i) + d) (hi : i ∈ s ∨ d = 0) :
    ∑ x ∈ s, g x (Function.update w i v x) = ∑ x ∈ s, g x (w x) + d := by
  simp only [Function.apply_update g]
  by_cases hmem : i ∈ s
  · rw [Finset.sum_update_of_mem hmem, hv, Finset.sum_eq_add_sum_sdiff_singleton_of_mem hmem,
      add_right_comm]
  · rw [Finset.sum_update_of_notMem hmem, hi.resolve_left hmem, add_zero]

section
variable (init : UInt32 → ClientState) (clients : Finset UInt32) (a : UInt16)

/-- A report for one of the clients, who has the slots it needs, or one that moves nothing. -/
def Bookable (r : OrderStateReport) : Prop :=
  (r.clientId ∈ clients ∧ Booked (init r.clientId).assetId r) ∨
    (r.boughtDelta = 0 ∧ r.soldDelta = 0)

/-- The report's amount and the balance after it are exact. -/
def Exact (w : UInt32 → Funds) (r : OrderStateReport) : Prop :=
  confirmedDelta a r ≠ Int64.minValue ∧
    IsInt64 ((balanceOf (init r.clientId).assetId (w r.clientId) a).toInt +
      (confirmedDelta a r).toInt)

instance (w : UInt32 → Funds) (r : OrderStateReport) : Decidable (Exact init a w r) :=
  inferInstanceAs (Decidable (_ ∧ _))

variable {init clients}

theorem Bookable.booked {r : OrderStateReport} (h : Bookable init clients r) :
    Booked (init r.clientId).assetId r := by
  cases h with
  | inl h => exact h.2
  | inr h => exact ⟨.inl h.1, .inl h.2⟩

theorem Bookable.counted {r : OrderStateReport} (h : Bookable init clients r) :
    r.clientId ∈ clients ∨ confirmedDelta a r = 0 := by
  cases h with
  | inl h => exact .inl h.1
  | inr h =>
    right
    rw [confirmedDelta, h.1, h.2, ite_self, ite_self, add_zero]

theorem wrapped_creditClients {rs : List OrderStateReport} (h : ∀ r ∈ rs, Bookable init clients r)
    (w : UInt32 → Funds) :
    ∑ id ∈ clients, balanceOf (init id).assetId (rs.foldl (creditClient init) w id) a =
      ∑ id ∈ clients, balanceOf (init id).assetId (w id) a + (rs.map (confirmedDelta a)).sum := by
  induction rs generalizing w with
  | nil => exact (add_zero _).symm
  | cons r rs ih =>
    have hr := h r (.head _)
    have hone := sum_of_update (fun id f => balanceOf (init id).assetId f a) (w := w)
      (balanceOf_creditReport hr.booked) (hr.counted a)
    rw [List.foldl_cons, ih (fun x hx => h x (.tail _ hx)), List.map_cons, List.sum_cons,
      ← add_assoc]
    exact congrArg (· + _) hone

theorem exact_creditClients {rs : List OrderStateReport} (h : ∀ r ∈ rs, Bookable init clients r)
    (w : UInt32 → Funds) (hx : Through (Exact init a) (creditClient init) w rs) :
    ∑ id ∈ clients, (balanceOf (init id).assetId (rs.foldl (creditClient init) w id) a).toInt =
      ∑ id ∈ clients, (balanceOf (init id).assetId (w id) a).toInt +
        (rs.map fun r => (confirmedDelta a r).toInt).sum := by
  induction rs generalizing w with
  | nil => exact (add_zero _).symm
  | cons r rs ih =>
    have hr := h r (.head _)
    obtain ⟨hexact, hrest⟩ := through_cons.1 hx
    have hfits : (balanceOf (init r.clientId).assetId
        (creditReport (init r.clientId).assetId r (w r.clientId)) a).toInt =
        (balanceOf (init r.clientId).assetId (w r.clientId) a).toInt +
        (confirmedDelta a r).toInt := by
      rw [balanceOf_creditReport hr.booked, toInt_add_of_fits hexact.2]
    have hone := sum_of_update (fun id f => (balanceOf (init id).assetId f a).toInt) (w := w) hfits
      ((hr.counted a).imp_right fun hzero => by rw [hzero]; rfl)
    rw [List.foldl_cons, ih (fun x hx => h x (.tail _ hx)) _ hrest, List.map_cons, List.sum_cons,
      ← add_assoc]
    exact congrArg (· + _) hone

end

theorem toInt_sum_mod (s : Finset UInt32) (f : UInt32 → Int64) :
    (∑ id ∈ s, f id).toInt % 2 ^ 64 = (∑ id ∈ s, (f id).toInt) % 2 ^ 64 := by
  induction s using Finset.induction_on with
  | empty => rfl
  | insert id s hid ih =>
    rw [Finset.sum_insert hid, Finset.sum_insert hid, Int64.toInt_add, Int.add_emod, ← ih,
      ← Int.add_emod]
    exact Int.bmod_emod

/-! ## Engines -/

/-- The engine of an asset as it starts, and a run of it. -/
structure Market where
  assetId : UInt32
  initialPrice : Int64
  reportSeq : UInt32
  bookSeq : UInt32
  bidSeed : UInt64
  askSeed : UInt64
  msgs : List Order
  final : FlatBidAsk
  outs : List BidAsk.Out
  runs : BidAsk.run (.newFlat assetId initialPrice reportSeq bookSeq bidSeed askSeed) msgs =
    .ok (final, outs)

/-- All reports of the run. -/
def Market.reports (M : Market) : List OrderStateReport := allReports M.outs

theorem Market.settles (M : Market) : Settles M.assetId.toUInt16
    (fun p => Traded M.msgs p.clientId) (fun _ => True) M.reports :=
  run_settles M.runs

/-! ## The result -/

/-- The gateway accepts the order, with a state that has the client's slots. -/
def Admitted (init : UInt32 → ClientState) (o : Order) : Prop :=
  ∃ (c : Gateway.ClientState) (l : Gateway.LocalFunds) (auth : UInt8),
    c.assetId = (init o.clientId).assetId ∧ (Gateway.checkOrderRisk c l o auth).1 = .accepted

/-- The client has a slot for cash and one for the asset. -/
def HasSlots (init : UInt32 → ClientState) (asset : UInt16) (c : UInt32) : Prop :=
  (slotOf (init c).assetId 0).isSome = true ∧ (slotOf (init c).assetId asset).isSome = true

instance (init : UInt32 → ClientState) (asset : UInt16) (c : UInt32) :
    Decidable (HasSlots init asset c) :=
  inferInstanceAs (Decidable (_ ∧ _))

/-- The confirmed balances of the clients, added up. -/
def ClientStates.total (s : ClientStates) (clients : Finset UInt32) (a : UInt16) : Int :=
  ∑ id ∈ clients, ((s.getClientState id).balance a).toInt

section
variable {init : UInt32 → ClientState} {clients : Finset UInt32} {a : UInt16}

theorem HasSlots.slot {asset b : UInt16} {c : UInt32} (h : HasSlots init asset c)
    (hb : b ∈ [0, asset]) : (slotOf (init c).assetId b).isSome = true := by
  obtain rfl | hb := List.mem_cons.1 hb
  · exact h.1
  · rw [List.mem_singleton.1 hb]
    exact h.2

theorem Market.bookable {M : Market}
    (horders : ∀ o ∈ M.msgs, o.action = .execute →
      HasSlots init M.assetId.toUInt16 o.clientId ∧ o.clientId ∈ clients) :
    ∀ r ∈ M.reports, Bookable init clients r := by
  intro r hr
  obtain ⟨⟨o, ho, ha, hclient⟩, hbought, hsold⟩ | hzero := M.settles.owned r hr
  · obtain ⟨hslots, hmem⟩ := horders o ho ha
    rw [hclient] at hslots hmem
    exact .inl ⟨hmem, .inr (hslots.slot hbought), .inr (hslots.slot hsold)⟩
  · exact .inr hzero

theorem ClientStates.Books.total_eq {s : ClientStates} {w p : UInt32 → Funds}
    (h : Books init s w p) :
    s.total clients a = ∑ id ∈ clients, (balanceOf (init id).assetId (p id) a).toInt := by
  refine Finset.sum_congr rfl fun id _ => ?_
  obtain ⟨hslots, hfunds⟩ := h.getClientState id
  rw [ClientState.balance, hslots, hfunds]

theorem sum_flatMap_zero {α β M : Type} [AddCommMonoid M] {l : List α} {f : α → List β} {g : β → M}
    (h : ∀ x ∈ l, ((f x).map g).sum = 0) : ((l.flatMap f).map g).sum = 0 := by
  rw [List.map_flatMap, List.flatMap, List.sum_flatten, List.map_map]
  exact List.sum_eq_zero fun y hy => by
    obtain ⟨x, hx, rfl⟩ := List.mem_map.1 hy
    exact h x hx

end

/-- **The account service conserves every asset**: whatever the batching of the engines' reports and
the order in which they come, the total of each asset over any clients that include the owners of
the orders is the same as before, modulo `2 ^ 64`, and exactly so if no balance overflows. -/
theorem run_conserves {init : UInt32 → ClientState} (markets : List Market)
    (hslots : ∀ M ∈ markets, ∀ o ∈ M.msgs, o.action = .execute →
      HasSlots init M.assetId.toUInt16 o.clientId)
    {batches : List (List OrderStateReport)}
    (hreports : batches.flatten.Perm (markets.flatMap Market.reports)) {clients : Finset UInt32}
    (hclients : ∀ M ∈ markets, ∀ o ∈ M.msgs, o.action = .execute → o.clientId ∈ clients)
    (a : UInt16) :
    (batches.foldl ClientStates.handle (.new init)).total clients a % 2 ^ 64 =
      (ClientStates.new init).total clients a % 2 ^ 64 ∧
    (Through (Exact init a) (creditClient init) (fun id => (init id).toFunds) batches.flatten →
      (batches.foldl ClientStates.handle (.new init)).total clients a =
        (ClientStates.new init).total clients a) := by
  have hbooks := ClientStates.new_books init
  have hbookable : ∀ r ∈ batches.flatten, Bookable init clients r := by
    intro r hr
    obtain ⟨M, hM, hr⟩ := List.mem_flatMap.1 (hreports.mem_iff.1 hr)
    exact M.bookable (fun o ho ha => ⟨hslots M hM o ho ha, hclients M hM o ho ha⟩) r hr
  rw [(hbooks.handleAll batches).total_eq, hbooks.total_eq]
  refine ⟨?_, fun hexact => ?_⟩
  · have hzero : (batches.flatten.map (confirmedDelta a)).sum = 0 := by
      rw [(hreports.map _).sum_eq]
      exact sum_flatMap_zero fun M _ => M.settles.zero a
    rw [← toInt_sum_mod, ← toInt_sum_mod, wrapped_creditClients a hbookable, hzero, add_zero]
  · have hne : ∀ r ∈ batches.flatten, confirmedDelta a r ≠ Int64.minValue := by
      intro r hr
      obtain ⟨pre, post, hsplit⟩ := List.append_of_mem hr
      exact (hexact pre r ⟨post, by rw [hsplit, List.append_assoc]; rfl⟩).1
    have hzero : (batches.flatten.map fun r => (confirmedDelta a r).toInt).sum = 0 := by
      rw [(hreports.map _).sum_eq]
      exact sum_flatMap_zero fun M hM => M.settles.exact a fun r hr =>
        hne r (hreports.mem_iff.2 (List.mem_flatMap.2 ⟨M, hM, hr⟩))
    rw [exact_creditClients a hbookable _ hexact, hzero, add_zero]

/-- Everyone has 1000 in cash. Client 7 has 5 of asset `first`, the others have a slot for `second`.
-/
def sampleAccounts (first second : UInt16) (id : UInt32) : ClientState where
  clientId := id
  key := fun _ => 0
  assetId := fun i =>
    if i.val = 0 then 0 else if i.val = 1 then (if id = 7 then first else second) else 500
  authorized := 0
  connected := 0
  confirmed := fun i => if i.val = 0 then 1000 else if i.val = 1 ∧ id = 7 then 5 else 0
  attempt := fun _ => 0

/-- Client 7 sells 5 at 100, an order that names the asset `first`, and client 8 buys 3 of asset 1.
-/
def sampleOrders (first : UInt16) : List Order :=
  [⟨100, 1, 0, 7, 5, first, .limit, .sell, .execute⟩, ⟨100, 2, 0, 8, 3, 1, .limit, .buy, .execute⟩]

/-- The gateway's copy of an account, in session 1. -/
def sampleSession (first second : UInt16) (id : UInt32) : Gateway.ClientState where
  clientId := id
  assetId := (sampleAccounts first second id).assetId
  auth := 1
  sessionId := 1
  toFunds := (sampleAccounts first second id).toFunds

theorem admitted_of_session {first second : UInt16} {o : Order}
    (h : (Gateway.checkOrderRisk (sampleSession first second o.clientId) ⟨fun _ => 0, 1⟩ o 1).1 =
      .accepted) : Admitted (sampleAccounts first second) o :=
  ⟨sampleSession first second o.clientId, ⟨fun _ => 0, 1⟩, 1, rfl, h⟩

/-- Both have a slot for asset 1, and the reports come one by one. -/
theorem run_conserves_sample : ∃ M : Market, M.assetId = 1 ∧ M.msgs = sampleOrders 1 ∧
    (ClientStates.new (sampleAccounts 1 1)).total {7, 8} 1 = 5 ∧
    ((M.reports.map fun r => [r]).foldl ClientStates.handle (.new (sampleAccounts 1 1))).total
      {7, 8} 1 = 5 := by
  obtain ⟨s, outs, hrun, hexact⟩ := exists_of_succeeds
    (r := BidAsk.run (.newFlat 1 100 0 0 3 5) (sampleOrders 1))
    (P := fun _ outs => Through (Exact (sampleAccounts 1 1) 1) (creditClient (sampleAccounts 1 1))
      (fun id => (sampleAccounts 1 1 id).toFunds) ((allReports outs).map fun r => [r]).flatten)
    (by decide +kernel)
  have hslots : ∀ o ∈ sampleOrders 1, HasSlots (sampleAccounts 1 1) 1 o.clientId := by
    decide +kernel
  have hclients : ∀ o ∈ sampleOrders 1, o.clientId ∈ ({7, 8} : Finset UInt32) := by decide +kernel
  have hbefore : (ClientStates.new (sampleAccounts 1 1)).total {7, 8} 1 = 5 := by decide +kernel
  refine ⟨⟨1, 100, 0, 0, 3, 5, _, s, outs, hrun⟩, rfl, rfl, hbefore, Eq.trans ?_ hbefore⟩
  refine (run_conserves [⟨1, 100, 0, 0, 3, 5, _, s, outs, hrun⟩] ?_ ?_ ?_ 1).2 hexact
  · exact List.forall_mem_singleton.2 fun o ho _ => hslots o ho
  · rw [List.flatMap_singleton]
    exact .of_eq (List.flatMap_singleton' _)
  · exact List.forall_mem_singleton.2 fun o ho _ => hclients o ho

/-- The risk check accepts the orders, and the total of asset 1 changes: the 3 that client 8 buys
are gone if it has no slot for them, and come from nowhere if client 7 sells asset 2 in the engine
of asset 1. -/
theorem bought_without_slot :
    (∃ M : Market, M.assetId = 1 ∧ M.msgs = sampleOrders 1 ∧
      (∀ o ∈ M.msgs, Admitted (sampleAccounts 1 500) o) ∧
      (ClientStates.new (sampleAccounts 1 500)).total {7, 8} 1 = 5 ∧
      ([M.reports].foldl ClientStates.handle (.new (sampleAccounts 1 500))).total {7, 8} 1 = 2) ∧
    ∃ M : Market, M.assetId = 1 ∧ M.msgs = sampleOrders 2 ∧
      (∀ o ∈ M.msgs, Admitted (sampleAccounts 2 1) o) ∧
      (ClientStates.new (sampleAccounts 2 1)).total {7, 8} 1 = 0 ∧
      ([M.reports].foldl ClientStates.handle (.new (sampleAccounts 2 1))).total {7, 8} 1 = 3 := by
  constructor
  · obtain ⟨s, outs, hrun, htotal⟩ := exists_of_succeeds
      (r := BidAsk.run (.newFlat 1 100 0 0 3 5) (sampleOrders 1))
      (P := fun _ outs => ([allReports outs].foldl ClientStates.handle
        (.new (sampleAccounts 1 500))).total {7, 8} 1 = 2) (by decide +kernel)
    have hchecks : ∀ o ∈ sampleOrders 1, (Gateway.checkOrderRisk (sampleSession 1 500 o.clientId)
        ⟨fun _ => 0, 1⟩ o 1).1 = .accepted := by decide +kernel
    exact ⟨⟨1, 100, 0, 0, 3, 5, _, s, outs, hrun⟩, rfl, rfl,
      fun o ho => admitted_of_session (hchecks o ho), by decide +kernel, htotal⟩
  · obtain ⟨s, outs, hrun, htotal⟩ := exists_of_succeeds
      (r := BidAsk.run (.newFlat 1 100 0 0 3 5) (sampleOrders 2))
      (P := fun _ outs => ([allReports outs].foldl ClientStates.handle
        (.new (sampleAccounts 2 1))).total {7, 8} 1 = 3) (by decide +kernel)
    have hchecks : ∀ o ∈ sampleOrders 2, (Gateway.checkOrderRisk (sampleSession 2 1 o.clientId)
        ⟨fun _ => 0, 1⟩ o 1).1 = .accepted := by decide +kernel
    exact ⟨⟨1, 100, 0, 0, 3, 5, _, s, outs, hrun⟩, rfl, rfl,
      fun o ho => admitted_of_session (hchecks o ho), by decide +kernel, htotal⟩

end Naoto.Account
