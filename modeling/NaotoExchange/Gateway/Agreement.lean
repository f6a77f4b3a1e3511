import NaotoExchange.Account.Proof.Balances
import NaotoExchange.Gateway.Proof.Balances
import NaotoExchange.Gateway.SingleCopy

/-!
# The gateway and the account service agree

Both writers handle the same reports, each in its own batches, and keep the balances in their own
triple buffers. The gateway knows a client by its descriptor and leaves the attempts of an add
alone.

* `run_agree`: what the gateway publishes for a descriptor differs from what the account service
  publishes for the client on it by the attempts of the client's adds only; neither depends on the
  batching.
-/

namespace Naoto.Gateway

open ClientFdMap

namespace ClientStates

/-- Nothing is written that is not published. -/
def Unstaged (s : ClientStates) : Prop :=
  ∀ fd, (s fd).written = (s fd).published ∧ (s fd).pending = 0

end ClientStates

/-- What the adds of a client charge to a slot. -/
def addCharges (slots : AssetSlots) (c : UInt32) (rs : List OrderStateReport)
    (i : Fin maxPositions) : Int64 :=
  ((rs.filter fun r => r.clientId = c ∧ r.state = .add ∧ slots i = r.soldAssetId).map
    OrderStateReport.soldAttemptDelta).sum

/-- The reports of a client. -/
def ownReports (c : UInt32) (rs : List OrderStateReport) : List OrderStateReport :=
  rs.filter fun r => r.clientId = c

theorem creditClients_own (init : UInt32 → Account.ClientState) (c : UInt32)
    (rs : List OrderStateReport) (w : UInt32 → Funds) : rs.foldl (Account.creditClient init) w c =
      (ownReports c rs).foldl (fun f r => Account.creditReport (init c).assetId r f) (w c) := by
  induction rs generalizing w with
  | nil => rfl
  | cons r rs ih =>
    rw [List.foldl_cons, ih]
    by_cases heq : r.clientId = c
    · subst heq
      rw [ownReports, ownReports, List.filter_cons_of_pos (by simp), List.foldl_cons,
        Account.creditClient, Function.update_self]
    · rw [ownReports, ownReports, List.filter_cons_of_neg (by simpa using heq),
        Account.creditClient, Function.update_of_ne (Ne.symm heq)]

section
variable (slots : AssetSlots) {a g : Funds} {x : Fin maxPositions → Int64}

/-- One report of the client: the confirmed balances stay the same, and the attempts differ by those
of an add. -/
theorem credit_differs (r : OrderStateReport) (hconfirmed : g.confirmed = a.confirmed)
    (hattempt : ∀ i, g.attempt i = a.attempt i - x i) :
    (creditLive slots g r).confirmed = (Account.creditReport slots r a).confirmed ∧
      ∀ i, (creditLive slots g r).attempt i = (Account.creditReport slots r a).attempt i -
        (x i + if r.state = .add ∧ slots i = r.soldAssetId then r.soldAttemptDelta else 0) := by
  refine ⟨?_, fun i => ?_⟩
  · funext i
    simp only [creditLive, Account.creditReport, Funds.credit, hconfirmed]
  · simp only [creditLive, Account.creditReport, Funds.credit, hattempt, liveAttempt, add_zero,
      ite_self]
    by_cases hslot : slots i = r.soldAssetId
    · by_cases hadd : r.state = .add
      · simp only [hslot, hadd, and_self, if_true]
        abel
      · simp only [hslot, hadd, false_and, if_true, if_false]
        abel
    · simp only [hslot, and_false, if_false, add_zero]

theorem credits_differ (c : UInt32) (rs : List OrderStateReport)
    (hconfirmed : g.confirmed = a.confirmed) (hattempt : ∀ i, g.attempt i = a.attempt i - x i) :
    ((ownReports c rs).foldl (creditLive slots) g).confirmed =
      ((ownReports c rs).foldl (fun f r => Account.creditReport slots r f) a).confirmed ∧
    ∀ i, ((ownReports c rs).foldl (creditLive slots) g).attempt i =
      ((ownReports c rs).foldl (fun f r => Account.creditReport slots r f) a).attempt i -
        (x i + addCharges slots c rs i) := by
  induction rs generalizing a g x with
  | nil =>
    refine ⟨hconfirmed, fun i => ?_⟩
    have hnone : addCharges slots c [] i = 0 := rfl
    rw [hnone, add_zero]
    exact hattempt i
  | cons r rs ih =>
    by_cases heq : r.clientId = c
    · obtain ⟨hc, ha⟩ := credit_differs slots r hconfirmed hattempt
      obtain ⟨hc', ha'⟩ := ih hc ha
      have hown : ownReports c (r :: rs) = r :: ownReports c rs :=
        List.filter_cons_of_pos (by simpa using heq)
      rw [hown, List.foldl_cons, List.foldl_cons]
      refine ⟨hc', fun i => ?_⟩
      rw [ha' i, addCharges, addCharges, List.filter_cons]
      by_cases hadd : r.state = .add ∧ slots i = r.soldAssetId
      · simp only [heq, hadd, and_self, decide_true, if_true, List.map_cons, List.sum_cons,
          add_assoc]
      · simp only [heq, hadd, and_false, decide_false, if_false, Bool.false_eq_true, add_zero]
    · have hown : ownReports c (r :: rs) = ownReports c rs :=
        List.filter_cons_of_neg (by simpa using heq)
      have hcharges : ∀ i, addCharges slots c (r :: rs) i = addCharges slots c rs i := by
        intro i
        rw [addCharges, addCharges, List.filter_cons_of_neg (by simp [heq])]
      rw [hown]
      simp only [hcharges]
      exact ih hconfirmed hattempt

end

/-! ## The two writers -/

section
variable {M : Type} [ClientFdMap M] {w : ClientStatesWriter M} {s : Account.ClientStates}
  {c f : UInt32}

/-- With `c` and nobody else on the descriptor, its reports are the client's. -/
theorem reportsOf_eq {m : M} (hmap : ∀ id, getVal m id = some f ↔ id = c)
    (rs : List OrderStateReport) : ClientStatesWriter.reportsOf m f rs = ownReports c rs :=
  List.filter_congr fun r _ => decide_eq_decide.2 (hmap r.clientId)

/-- What the gateway publishes on a descriptor depends on the reports, not on the calls. -/
theorem getClientState_calls {fd : UInt32} (hsynced : (w.states fd).Synced)
    (hunstaged : w.states.Unstaged) (calls : List ReportCall) :
    ((calls.foldl ClientStatesWriter.handleCall w).states.getClientState fd).toClientInfo =
        (w.states.getClientState fd).toClientInfo ∧
      ((calls.foldl ClientStatesWriter.handleCall w).states.getClientState fd).toFunds =
        (ClientStatesWriter.reportsOf w.clientsFd fd (calls.flatMap ReportCall.reports)).foldl
          (creditLive (w.states.getClientState fd).assetId)
          (w.states.getClientState fd).toFunds := by
  have hholds := ClientStates.holds_of_synced hsynced (hunstaged fd).1 (hunstaged fd).2
  exact (ClientStatesWriter.handleCalls_holds hholds calls).getClientState

theorem account_getClientState_calls (hsynced : ∀ id, (s id).Synced) (hunstaged : s.Unstaged)
    (calls : List ReportCall) (id : UInt32) :
    ((calls.foldl Account.ClientStates.handleCall s).getClientState id).toClientInfo =
        (s.getClientState id).toClientInfo ∧
      ((calls.foldl Account.ClientStates.handleCall s).getClientState id).toFunds =
        (ownReports id (calls.flatMap ReportCall.reports)).foldl
          (fun f r => Account.creditReport (s.getClientState id).assetId r f)
          (s.getClientState id).toFunds := by
  have hbooks := (hunstaged.books hsynced).handleCalls calls
  refine ⟨(hbooks.steady id).1, ?_⟩
  rw [(hbooks.getClientState id).2, creditClients_own]
  rfl

/-- **The two sides agree.** Start from reachable states in which nothing is staged, with the same
slots and balances for the client `c` and the descriptor `f`, on which `c` and nobody else is. After
the same reports, however they were cut into calls on either side, the confirmed balances are the
same, and the attempts differ by what the adds of the client charged. The batching does not matter
for any descriptor or client. -/
theorem run_agree (w : ClientStatesWriter M) (s : Account.ClientStates) (c f : UInt32)
    (past : List (UInt32 × StatesCall)) (init : UInt32 → Account.ClientState)
    (accountPast : List Account.ClientStates.Call)
    (hw : w.states = past.foldl (fun s c => s.call c.1 c.2) ClientStates.new)
    (hs : s = accountPast.foldl Account.ClientStates.call (.new init))
    (hunstaged : w.states.Unstaged) (haccount : s.Unstaged)
    (hmap : ∀ id, getVal w.clientsFd id = some f ↔ id = c)
    (hslots : (w.states.getClientState f).assetId = (s.getClientState c).assetId)
    (hfunds : (w.states.getClientState f).toFunds = (s.getClientState c).toFunds)
    (rs : List OrderStateReport) (calls accountCalls : List ReportCall)
    (hcalls : calls.flatMap ReportCall.reports = rs)
    (haccountCalls : accountCalls.flatMap ReportCall.reports = rs) :
    let gateway := (calls.foldl ClientStatesWriter.handleCall w).states
    let account := accountCalls.foldl Account.ClientStates.handleCall s
    ((gateway.getClientState f).assetId = (account.getClientState c).assetId ∧
      (gateway.getClientState f).confirmed = (account.getClientState c).confirmed ∧
      ∀ i, (gateway.getClientState f).attempt i = (account.getClientState c).attempt i -
        addCharges (s.getClientState c).assetId c rs i) ∧
    (∀ calls' : List ReportCall, calls'.flatMap ReportCall.reports = rs → ∀ fd,
      (calls'.foldl ClientStatesWriter.handleCall w).states.getClientState fd =
      gateway.getClientState fd) ∧
    ∀ calls' : List ReportCall, calls'.flatMap ReportCall.reports = rs → ∀ id,
      (calls'.foldl Account.ClientStates.handleCall s).getClientState id =
      account.getClientState id := by
  intro gateway account
  have hsynced : ∀ fd, (w.states fd).Synced := fun fd => hw ▸ (run_copied past fd).synced
  have hsynced' : ∀ id, (s id).Synced := hs ▸ Account.ClientStates.synced_calls init accountPast
  refine ⟨?_, fun calls' hcalls' fd => ?_, fun calls' hcalls' id => ?_⟩
  · obtain ⟨hinfo, hg⟩ := getClientState_calls (hsynced f) hunstaged calls
    obtain ⟨hinfo', ha⟩ := account_getClientState_calls hsynced' haccount accountCalls c
    rw [hcalls, reportsOf_eq hmap, hslots, hfunds] at hg
    rw [haccountCalls] at ha
    have hstart : ∀ i, (s.getClientState c).attempt i = (s.getClientState c).attempt i - 0 :=
      fun i => (sub_zero _).symm
    obtain ⟨hconfirmed, hattempt⟩ := credits_differ (s.getClientState c).assetId c rs rfl hstart
    refine ⟨?_, ?_, fun i => ?_⟩
    · calc
        (gateway.getClientState f).assetId = (w.states.getClientState f).assetId :=
          congrArg _ hinfo
        _ = (s.getClientState c).assetId := hslots
        _ = (account.getClientState c).assetId := (congrArg _ hinfo').symm
    · rw [← ha] at hconfirmed
      exact (congrArg Funds.confirmed hg).trans hconfirmed
    · have hi := hattempt i
      rw [← ha, zero_add] at hi
      exact (congrFun (congrArg Funds.attempt hg) i).trans hi
  · obtain ⟨hinfo, hg⟩ := getClientState_calls (hsynced fd) hunstaged calls
    obtain ⟨hinfo', hg'⟩ := getClientState_calls (hsynced fd) hunstaged calls'
    rw [hcalls'] at hg'
    rw [hcalls] at hg
    exact ClientState.eq_of_parts (hinfo'.trans hinfo.symm) (hg'.trans hg.symm)
  · obtain ⟨hinfo, ha⟩ := account_getClientState_calls hsynced' haccount accountCalls id
    obtain ⟨hinfo', ha'⟩ := account_getClientState_calls hsynced' haccount calls' id
    rw [hcalls'] at ha'
    rw [haccountCalls] at ha
    exact Account.ClientState.eq_of_parts (hinfo'.trans hinfo.symm) (ha'.trans ha.symm)

end

/-- A client with 1000 of cash in its first slot. -/
def cashFunds : Funds := ⟨fun i => if i.val = 0 then 1000 else 0, fun _ => 0⟩

/-- Cash in the first slot, and the same other asset in the rest. -/
def cashSlots : AssetSlots := fun i => if i.val = 0 then 0 else 500

/-- An account with that cash. -/
def cashAccount (id : UInt32) : Account.ClientState where
  clientId := id
  key := fun _ => 0
  assetId := cashSlots
  authorized := 0
  connected := 0
  toFunds := cashFunds

/-- Client 3 has logged in on descriptor 7. -/
def cashWriter : ClientStatesWriter (FiniteMap UInt32 UInt32) :=
  (ClientStatesWriter.new fun _ => ⟨0, 0, 0, 0, 0, 0, 0, 0, 0, .add⟩).install
    { cashFunds with
      status := .accepted, sequenceId := 0, clientId := 3, clientFd := 7, assetId := cashSlots }

/-- An add of 300 and a fill of 100 of it, and a report for another client. -/
def cashReports : List OrderStateReport :=
  [⟨0, 0, 300, 0, 3, 1, 0, 1, 0, .add⟩, ⟨1, -100, -100, 1, 3, 1, 1, 1, 0, .partialFill⟩,
    ⟨5, 0, 0, 2, 9, 2, 1, 0, 1, .partialFill⟩]

theorem cashWriter_unstaged : cashWriter.states.Unstaged := by
  intro fd
  by_cases heq : fd = 7
  · subst heq
    decide
  · have hnew : cashWriter.states fd = ClientStates.new fd :=
      (Function.update_of_ne heq ..).trans (Function.update_of_ne heq ..)
    rw [hnew]
    exact ⟨rfl, rfl⟩

theorem cashWriter_clientsFd (id : UInt32) : getVal cashWriter.clientsFd id = some 7 ↔ id = 3 := by
  have hlinked : getVal cashWriter.clientsFd id = if id = 3 then some 7 else none := by
    change ((FiniteMap.empty.deleteNode 0).addNode 3 7).addNode 3 7 id = _
    have hnone : (FiniteMap.empty.deleteNode 0 : FiniteMap UInt32 UInt32) 3 = none := rfl
    have hsome : ((FiniteMap.empty.deleteNode 0).addNode 3 7 : FiniteMap UInt32 UInt32) 3 =
        some 7 := rfl
    rw [FiniteMap.addNode_of_some hsome, FiniteMap.addNode_of_none hnone]
    simp [FiniteMap.deleteNode, FiniteMap.empty]
  rw [hlinked]
  split <;> simp_all

theorem run_agree_cash :
    let calls : List ReportCall :=
      [.batch (cashReports.take 2), .one ⟨5, 0, 0, 2, 9, 2, 1, 0, 1, .partialFill⟩]
    let accountCalls : List ReportCall :=
      [.one ⟨0, 0, 300, 0, 3, 1, 0, 1, 0, .add⟩, .batch (cashReports.drop 1)]
    let gateway := (calls.foldl ClientStatesWriter.handleCall cashWriter).states
    let account := accountCalls.foldl Account.ClientStates.handleCall (.new cashAccount)
    (gateway.getClientState 7).confirmed = (account.getClientState 3).confirmed ∧
    (∀ i, (gateway.getClientState 7).attempt i =
      (account.getClientState 3).attempt i - addCharges cashSlots 3 cashReports i) ∧
    addCharges cashSlots 3 cashReports ⟨0, by decide⟩ = 300 := by
  intro calls accountCalls gateway account
  have hfunds : (cashWriter.states.getClientState 7).toFunds = cashFunds :=
    (ClientStatesWriter.install_holds (TripleBuffer.new_synced _ _)).getClientState.2
  have hagree := (run_agree cashWriter (.new cashAccount) 3 7
    [(7, .setClientState { cashFunds with
      status := .accepted, sequenceId := 0, clientId := 3, clientFd := 7, assetId := cashSlots }),
      (7, .flushTripleBuffer)] cashAccount [] rfl rfl cashWriter_unstaged (fun _ => ⟨rfl, rfl⟩)
        cashWriter_clientsFd
    (by decide) hfunds cashReports calls accountCalls rfl rfl).1
  exact ⟨hagree.2.1, hagree.2.2, by decide⟩

end Naoto.Gateway
