import NaotoExchange.Exchange.Login

/-!
# The balances on the dashboard

The dashboard asks the account service for a client's balances when the user wants it to
(`client_details_poller.hpp`), and adds every trade report of the client that it gets
(`app_state.hpp`, `apply_trade_to_balance`). It looks at no sequence number, neither of a report nor
of an answer.

`balance_drift`: the balance on the screen is the account service's, off by the reports that the
answer and the dashboard both counted or both missed and by those the network lost. The drift does
not change until the next answer, and the order in which reports arrive makes no difference. An
asset is shown as its last slot has it.
-/

namespace Naoto.MarketClient

open Account Escrow Exchange

/-! ## `AppState::balances` -/

/-- The confirmed balance and the attempts of each asset. -/
structure LiveBalance where
  positions : FiniteMap UInt16 (Int64 × Int64)
  hasSnapshot : Bool
  lastError : String

namespace LiveBalance

/-- No position is known. -/
def new : LiveBalance := ⟨.empty, false, ""⟩

/-- A position that is not there starts at 0. -/
def applyConfirmedDelta (b : LiveBalance) (assetId : UInt16) (delta : Int64) : LiveBalance :=
  let p := (b.positions assetId).getD (0, 0)
  { b with positions := Function.update b.positions assetId (some (p.1 + delta, p.2)) }

/-- The same for what is reserved. -/
def applyAttemptDelta (b : LiveBalance) (assetId : UInt16) (delta : Int64) : LiveBalance :=
  let p := (b.positions assetId).getD (0, 0)
  { b with positions := Function.update b.positions assetId (some (p.1, p.2 + delta)) }

/-- What is shown for an asset. -/
def shown (b : LiveBalance) (a : UInt16) : Int64 × Int64 := (b.positions a).getD (0, 0)

end LiveBalance

/-- The watched clients with their balances. -/
abbrev Balances := FiniteMap UInt32 LiveBalance

/-- `apply_trade_to_balance`. -/
def applyTradeToBalance (balances : Balances) (r : OrderStateReport) : Balances :=
  match balances r.clientId with
  | none => balances
  | some b => Function.update balances r.clientId (some
      (((b.applyConfirmedDelta r.boughtAssetId r.boughtDelta).applyConfirmedDelta r.soldAssetId
        r.soldDelta).applyAttemptDelta r.soldAssetId r.soldAttemptDelta))

/-! ## Answers of the account service -/

/-- What a query of the account service comes back with. -/
structure ClientBalanceSnapshot where
  clientId : UInt32
  ok : Bool
  error : String
  positions : List (UInt16 × Int64 × Int64)

/-- What `ClientDetailsPoller::query` returns, given the response or the error it met on the way to
one. -/
def query (clientId : UInt32) : Except String ClientAccountSnapshot → ClientBalanceSnapshot
  | .error error => ⟨clientId, false, error, []⟩
  | .ok resp =>
    match resp.status with
    | .accepted => ⟨clientId, true, "",
        (List.finRange maxPositions).map fun i =>
        (resp.assetId i, resp.confirmed i, resp.attempt i)⟩
    | .wrongCredentials => ⟨clientId, false, "wrong credentials", []⟩
    | .refused => ⟨clientId, false, "refused (check GatewayId is authorized for this client)", []⟩

/-- The body of the loop of `drain_balance_results`. -/
def drainBalanceResult (balances : Balances) (snap : ClientBalanceSnapshot) : Balances :=
  let bal := (balances snap.clientId).getD .new
  Function.update balances snap.clientId (some
    (if snap.ok then
      ⟨snap.positions.foldl (fun m p => Function.update m p.1 (some p.2)) .empty, true, ""⟩
    else { bal with lastError := snap.error }))

/-- What the main loop does to the balances. -/
inductive BalanceEvent where
  | report (r : OrderStateReport)
  | result (snap : ClientBalanceSnapshot)

namespace BalanceEvent

def reports : BalanceEvent → List OrderStateReport
  | report r => [r]
  | result _ => []

/-- It replaces the positions of client `c`. -/
def Replaces (c : UInt32) : BalanceEvent → Prop
  | report _ => False
  | result snap => snap.clientId = c ∧ snap.ok = true

end BalanceEvent

/-- How an event changes the balances. -/
def handleBalance (balances : Balances) : BalanceEvent → Balances
  | .report r => applyTradeToBalance balances r
  | .result snap => drainBalanceResult balances snap

/-! ## Reports -/

/-- What a report does to the balance and the attempts of client `c` in asset `a`. -/
def moves (c : UInt32) (a : UInt16) (r : OrderStateReport) : Int64 × Int64 :=
  if r.clientId = c then
    ((if r.boughtAssetId = a then r.boughtDelta else 0) + (if r.soldAssetId = a then
      r.soldDelta else 0),
      if r.soldAssetId = a then r.soldAttemptDelta else 0)
  else 0

section
variable {balances : Balances} {c : UInt32} {b : LiveBalance} {a : UInt16}

theorem shown_applyConfirmedDelta (b : LiveBalance) (assetId : UInt16) (delta : Int64) :
    (b.applyConfirmedDelta assetId delta).shown a =
      b.shown a + (if assetId = a then delta else 0, 0) := by
  by_cases heq : assetId = a
  · subst heq
    refine Prod.ext ?_ ?_ <;> simp [LiveBalance.applyConfirmedDelta, LiveBalance.shown]
  · simp [LiveBalance.applyConfirmedDelta, LiveBalance.shown, Function.update_of_ne (Ne.symm heq),
      heq]

theorem shown_applyAttemptDelta (b : LiveBalance) (assetId : UInt16) (delta : Int64) :
    (b.applyAttemptDelta assetId delta).shown a =
      b.shown a + (0, if assetId = a then delta else 0) := by
  by_cases heq : assetId = a
  · subst heq
    refine Prod.ext ?_ ?_ <;> simp [LiveBalance.applyAttemptDelta, LiveBalance.shown]
  · simp [LiveBalance.applyAttemptDelta, LiveBalance.shown, Function.update_of_ne (Ne.symm heq),
      heq]

/-- A report moves what is shown of its client, if anything is. -/
theorem applyTradeToBalance_shown (h : balances c = some b) (r : OrderStateReport) :
    ∃ b', applyTradeToBalance balances r c = some b' ∧
    ∀ a, b'.shown a = b.shown a + moves c a r := by
  unfold applyTradeToBalance
  by_cases hown : r.clientId = c
  · subst hown
    rw [h]
    refine ⟨_, Function.update_self .., fun a => ?_⟩
    rw [shown_applyAttemptDelta, shown_applyConfirmedDelta, shown_applyConfirmedDelta, moves,
      if_pos rfl]
    simp [add_assoc]
  · refine ⟨b, ?_, fun a => by rw [moves, if_neg hown, add_zero]⟩
    cases hr : balances r.clientId with
    | none => exact h
    | some b' => exact (Function.update_of_ne (Ne.symm hown) ..).trans h

theorem handleBalance_shown (h : balances c = some b) {e : BalanceEvent} (he : ¬ e.Replaces c) :
    ∃ b', handleBalance balances e c = some b' ∧ ∀ a, b'.shown a = b.shown a + total
      (moves c a) e.reports := by
  cases e with
  | report r =>
    obtain ⟨b', hb', hmoves⟩ := applyTradeToBalance_shown h r
    exact ⟨b', hb', fun a => by
      rw [hmoves a, BalanceEvent.reports, total_cons, total_nil, add_zero]⟩
  | result snap =>
    by_cases hown : snap.clientId = c
    · subst hown
      have hok : snap.ok = false := Bool.eq_false_iff.2 fun hok => he ⟨rfl, hok⟩
      refine ⟨{ b with lastError := snap.error }, ?_, fun a => (add_zero _).symm⟩
      simp [handleBalance, drainBalanceResult, h, hok]
    · refine ⟨b, ?_, fun a => (add_zero _).symm⟩
      rw [handleBalance, drainBalanceResult, Function.update_of_ne (Ne.symm hown), h]

/-- Between two answers the balance moves by the reports. -/
theorem run_balance (h : balances c = some b) {es : List BalanceEvent}
    (hes : ∀ e ∈ es, ¬ e.Replaces c) : ∃ b', es.foldl handleBalance balances c = some b' ∧
      ∀ a, b'.shown a = b.shown a + total (moves c a) (es.flatMap BalanceEvent.reports) := by
  induction es generalizing balances b with
  | nil => exact ⟨b, h, fun a => (add_zero _).symm⟩
  | cons e es ih =>
    obtain ⟨b₁, hb₁, hstep⟩ := handleBalance_shown h (hes e List.mem_cons_self)
    obtain ⟨b', hb', hrest⟩ := ih hb₁ fun e' he' => hes e' (List.mem_cons_of_mem _ he')
    refine ⟨b', hb', fun a => ?_⟩
    rw [hrest a, hstep a, List.flatMap_cons, total_append, add_assoc]

end

/-! ## Answers -/

section
variable {a : UInt16}

theorem foldl_update_last {ι K V : Type} [DecidableEq K] {key : ι → K} {val : ι → V} {j : ι} {k : K}
    {pre post : List ι} (hj : key j = k) (hpost : ∀ i ∈ post, key i ≠ k) (m : FiniteMap K V) :
    (pre ++ j :: post).foldl (fun m i => Function.update m (key i) (some (val i))) m k =
    some (val j) := by
  rw [List.foldl_append, List.foldl_cons]
  refine List.foldlRecOn (motive := fun m' : FiniteMap K V => m' k = some (val j)) post _
    (by rw [hj, Function.update_self]) ?_
  intro m' hm' i hi
  rw [Function.update_of_ne (hpost i hi).symm, hm']

/-- The positions are those of the answer, the last slot of each asset. -/
theorem drainBalanceResult_accepted (balances : Balances) (c : UInt32)
    {response : ClientAccountSnapshot}
    (haccepted : response.status = .accepted) {j : Fin maxPositions} (hj : response.assetId j = a)
    (hlast : ∀ i, j < i → response.assetId i ≠ a) :
    ∃ b, drainBalanceResult balances (query c (.ok response)) c = some b ∧
      b.shown a = (response.confirmed j, response.attempt j) := by
  obtain ⟨pre, post, hsplit⟩ := List.append_of_mem (List.mem_finRange j)
  have hafter : ∀ i ∈ post, response.assetId i ≠ a := fun i hi => hlast i <| by
    have hsorted := List.pairwise_lt_finRange maxPositions
    rw [hsplit] at hsorted
    exact (List.pairwise_cons.1 (List.pairwise_append.1 hsorted).2.1).1 i hi
  refine ⟨_, by rw [drainBalanceResult, query, haccepted]; exact Function.update_self .., ?_⟩
  rw [if_pos rfl, LiveBalance.shown, List.foldl_map, hsplit]
  exact congrArg (Option.getD · (0, 0)) (foldl_update_last hj hafter .empty)

end

/-! ## The account service -/

/-- The balance and the attempts in a slot. -/
def slot (f : Funds) (i : Fin maxPositions) : Int64 × Int64 := (f.confirmed i, f.attempt i)

theorem slot_creditReports (slots : AssetSlots) (c : UInt32) (i : Fin maxPositions)
    (rs : List OrderStateReport)
    (f : Funds) : slot ((Gateway.ownReports c rs).foldl (fun f r => creditReport slots r f) f) i =
      slot f i + total (moves c (slots i)) rs := by
  induction rs generalizing f with
  | nil => exact (add_zero _).symm
  | cons r rs ih =>
    rw [total_cons, ← add_assoc]
    by_cases hown : r.clientId = c
    · have hone : slot (creditReport slots r f) i = slot f i + moves c (slots i) r := by
        rw [moves, if_pos hown]
        simp only [slot, creditReport, Funds.credit, eq_comm (a := slots i), Prod.mk_add_mk]
        refine Prod.ext ?_ ?_
        · by_cases hbought : r.boughtAssetId = slots i <;>
            by_cases hsold : r.soldAssetId = slots i <;> simp [hbought, hsold, add_assoc]
        · by_cases hsold : r.soldAssetId = slots i <;> simp [hsold]
      rw [Gateway.ownReports, List.filter_cons_of_pos (by simpa using hown),
        List.foldl_cons, ← hone]
      exact ih _
    · rw [Gateway.ownReports, List.filter_cons_of_neg (by simpa using hown), moves, if_neg hown,
        add_zero]
      exact ih f

theorem slot_account (init : UInt32 → Account.ClientState) (calls : List ReportCall) (c : UInt32)
    (i : Fin maxPositions) :
    slot ((calls.foldl Account.ClientStates.handleCall (.new init)).getClientState c).toFunds i =
      slot (init c).toFunds i + total (moves c ((init c).assetId i))
      (calls.flatMap ReportCall.reports) := by
  have hsynced : ∀ id, (Account.ClientStates.new init id).Synced :=
    fun _ => TripleBuffer.new_synced _ _
  rw [(Gateway.account_getClientState_calls hsynced (fun _ => ⟨rfl, rfl⟩) calls c).2]
  exact slot_creditReports (init c).assetId c i (calls.flatMap ReportCall.reports) (init c).toFunds

/-- **How far the dashboard is off.** The account service has handled `accountCalls` when it answers
the dashboard, which has handled the events `before`. Later the dashboard has handled the events
`after`, too, and the account service has handled `booked`: the reports that the dashboard got, in
any order, and those it did not, `lost`. For an asset of the client whose last slot is `j`, the
dashboard shows that slot and what the answer already contained, less what the dashboard got before
the answer and what it never got. -/
theorem balance_drift (sha256 : Key → Key) (init : UInt32 → Account.ClientState)
    (accountCalls booked : List ReportCall)
    (request : RoutedAuthRequest) (response : ClientAccountSnapshot)
    (before after : List BalanceEvent) (lost : List OrderStateReport) (j : Fin maxPositions)
    (hanswer : processMessage sha256
      (accountCalls.foldl Account.ClientStates.handleCall (.new init)) request =
      some response) (haccepted : response.status = .accepted)
    (hafter : ∀ e ∈ after, ¬ e.Replaces request.clientId)
    (hlast : ∀ i, j < i → (init request.clientId).assetId i ≠ (init request.clientId).assetId j)
    (hbooked : (booked.flatMap ReportCall.reports).Perm
      (before.flatMap BalanceEvent.reports ++ after.flatMap BalanceEvent.reports ++ lost)) :
    let c := request.clientId
    let a := (init c).assetId j
    let account := (booked.foldl Account.ClientStates.handleCall (.new init)).getClientState c
    let handled := accountCalls.flatMap ReportCall.reports
    ∃ b, (before ++ .result (query c (.ok response)) :: after).foldl handleBalance .empty c =
      some b ∧ b.shown a = slot account.toFunds j + (total (moves c a) handled -
        total (moves c a) (before.flatMap BalanceEvent.reports) - total (moves c a) lost) := by
  intro c a account handled
  obtain ⟨-, -, hslots, hfunds⟩ := (processMessage_spec hanswer).2 haccepted
  have hkept := congrArg Account.ClientInfo.assetId (Gateway.account_getClientState_calls
    (fun _ => TripleBuffer.new_synced _ _)
    (fun _ => ⟨rfl, rfl⟩ : (Account.ClientStates.new init).Unstaged) accountCalls c).1
  have hassets : response.assetId = (init c).assetId := hslots.trans hkept
  obtain ⟨b, hb, hshown⟩ :=
    drainBalanceResult_accepted (before.foldl handleBalance .empty) c haccepted
    (congrFun hassets j) (fun i hi => by rw [hassets]; exact hlast i hi)
  obtain ⟨b', hb', hmoved⟩ := run_balance hb hafter
  refine ⟨b', by rw [List.foldl_append, List.foldl_cons]; exact hb', ?_⟩
  have hresponse : b.shown a = slot (init c).toFunds j + total (moves c a) handled := by
    rw [hshown]
    exact (congrArg (slot · j) hfunds).trans (slot_account init accountCalls c j)
  have hall : total (moves c a) (booked.flatMap ReportCall.reports) =
      total (moves c a) (before.flatMap BalanceEvent.reports ++
        after.flatMap BalanceEvent.reports ++ lost) :=
    (hbooked.map (moves c a)).sum_eq
  have haccount := slot_account init booked c j
  rw [hall, total_append, total_append] at haccount
  rw [hmoved a, hresponse, show slot account.toFunds j = _ from haccount]
  abel

/-- The answer has the fill of 100, and then the dashboard gets the reports: it shows 800 where the
account service has 900. -/
theorem balance_drift_cash :
    ∃ b, (.result (query 3 (.ok cashAnswer)) :: Gateway.cashReports.map BalanceEvent.report).foldl
      handleBalance .empty 3 =
        some b ∧ (cashBooks.getClientState 3).confirmed 0 = 900 ∧ b.shown 0 = (800, 400) := by
  obtain ⟨b, hb, hshown⟩ := balance_drift id Gateway.cashAccount [.batch Gateway.cashReports]
    [.batch Gateway.cashReports] cashRequest cashAnswer [] (Gateway.cashReports.map .report)
      [] 0 cashBooks_answer rfl
    (by simp [BalanceEvent.Replaces]) (by decide) (List.Perm.refl _)
  refine ⟨b, hb, by decide +kernel, hshown.trans ?_⟩
  decide +kernel

end Naoto.MarketClient
