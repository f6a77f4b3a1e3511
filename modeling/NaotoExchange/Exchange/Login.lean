import NaotoExchange.Exchange.Replicas
import NaotoExchange.Gateway.Replay

/-!
# A login while the market runs

The account service answers a login with the balances it has at that time, and with the report
number 0 (`client_request_processor.cpp`). The gateway takes the number for the last report in the
balances. It adds all reports from number 1 on, as long as its ring has number 0, and ignores the
answer after that.

`login_offset` says what comes of this for any time of the answer and any time of its arrival: the
reports which the account service had booked before the login count twice, but for the first one,
and they do so for the rest of the session. Once the gateway has received more reports than the ring
holds, every answer is dropped and no client gets in.
-/

namespace Naoto.Exchange

open Engine Escrow Gateway ClientFdMap ClientStatesWriter Account

/-- What reports add to the confirmed balance of client `c` in slot `i`. -/
def gain (slots : AssetSlots) (c : UInt32) (rs : List OrderStateReport) (i : Fin maxPositions) :
    Int64 :=
  Int64.ofInt (total (paid c (slots i)) rs)

/-- A report that buys and sells the same asset sells nothing of it. -/
def OneSided (r : OrderStateReport) : Prop := r.boughtAssetId = r.soldAssetId → r.soldDelta = 0

instance (r : OrderStateReport) : Decidable (OneSided r) := inferInstanceAs (Decidable (_ → _))

section
variable {slots : AssetSlots} {c : UInt32}

theorem gain_append (rs rs' : List OrderStateReport) (i : Fin maxPositions) :
    gain slots c (rs ++ rs') i = gain slots c rs i + gain slots c rs' i := by
  rw [gain, total_append, Int64.ofInt_add]
  rfl

/-- Missed or live, a report does the same to the confirmed balances. -/
theorem creditMissed_confirmed {rs : List OrderStateReport} (hrs : ∀ r ∈ rs, OneSided r)
    {g g' : Funds} (hg : g.confirmed = g'.confirmed) :
    (rs.foldl (creditMissed slots) g).confirmed = (rs.foldl (creditLive slots) g').confirmed := by
  induction rs generalizing g g' with
  | nil => exact hg
  | cons r rs ih =>
    refine ih (fun r' hr' => hrs r' (List.mem_cons_of_mem _ hr')) (funext fun i => ?_)
    have hr := hrs r List.mem_cons_self
    simp only [creditMissed, creditLive, Funds.credit, hg]
    by_cases hbought : slots i = r.boughtAssetId
    · by_cases hsold : slots i = r.soldAssetId
      · simp [hbought, hr (hbought.symm.trans hsold)]
      · simp [hbought, hbought ▸ hsold]
    · simp [hbought]

theorem creditMissed_slot {rs : List OrderStateReport} (hrs : ∀ r ∈ rs, r.clientId = c → OneSided r)
    (g : Funds) (i : Fin maxPositions) :
    ((ownReports c rs).foldl (creditMissed slots) g).confirmed i = g.confirmed i +
    gain slots c rs i := by
  have hown : ∀ r ∈ ownReports c rs, OneSided r := fun r hr =>
    hrs r (List.mem_filter.1 hr).1 (of_decide_eq_true (List.mem_filter.1 hr).2)
  rw [creditMissed_confirmed hown (rfl : g.confirmed = g.confirmed)]
  exact (creditLives_slot slots c i rs g).1

end

/-! ## The answer -/

section
variable {sha256 : Key → Key} {states : Account.ClientStates} {request : RoutedAuthRequest}
  {response : ClientAccountSnapshot}

/-- An answer is as of report 0, whatever it says; an acceptance has the balances of the time. -/
theorem processMessage_spec (h : processMessage sha256 states request = some response) :
    response.sequenceId = 0 ∧ (response.status = .accepted →
      response.clientId = request.clientId ∧ response.clientFd = request.clientFd ∧
      response.assetId = (states.getClientState request.clientId).assetId ∧
      response.toFunds = (states.getClientState request.clientId).toFunds) := by
  unfold processMessage at h
  cases ht : request.requestType with
  | details =>
    rw [ht] at h
    dsimp only at h
    split at h
    · cases h
      exact ⟨rfl, fun hs => by (cases hs)⟩
    · split at h
      · cases h
        exact ⟨rfl, fun hs => by (cases hs)⟩
      · cases h
        exact ⟨rfl, fun _ => ⟨rfl, rfl, rfl, rfl⟩⟩
  | disconnect =>
    rw [ht] at h
    cases h
  | invalid =>
    rw [ht] at h
    cases h

end

/-! ## The login -/

section
variable {M : Type} [ClientFdMap M] {w : ClientStatesWriter M} {rs : List OrderStateReport}
  {response : ClientAccountSnapshot}

omit [ClientFdMap M] in
/-- While the ring has the first report, a login as of it is followed by all others. -/
theorem catchUp_all (h : Recorded 0 rs w.updatesBuffer w.lastSeq) (hzero : response.sequenceId = 0)
    (hfit : rs.length ≤ gatewayUpdateBufferSize) : w.catchUp response =
    (rs.drop 1).foldl missedReport response := by
  by_cases hne : rs = []
  · have hlast := h.start hne
    unfold catchUp
    rw [hlast, hzero, hne]
    rfl
  · have hlen := h.last hne
    have hle : response.sequenceId ≤ w.lastSeq := by
      rw [hzero]
      exact UInt64.le_iff_toNat_le.2 (Nat.zero_le _)
    have hin : w.lastSeq.toNat < response.sequenceId.toNat + gatewayUpdateBufferSize := by omega
    rw [catchUp_eq h hne (Nat.zero_le _) hle hin, hzero]
    rfl

omit [ClientFdMap M] in
theorem not_stale_all (h : Recorded 0 rs w.updatesBuffer w.lastSeq) (hnumbers : Consecutive 0 rs)
    (hzero : response.sequenceId = 0) (hfit : rs.length ≤ gatewayUpdateBufferSize) :
    w.stale response = false := by
  by_cases hne : rs = []
  · simp [stale, hzero, h.start hne]
  · have hlen := h.last hne
    have hle : response.sequenceId ≤ w.lastSeq := by
      rw [hzero]
      exact UInt64.le_iff_toNat_le.2 (Nat.zero_le _)
    have hin : w.lastSeq.toNat < response.sequenceId.toNat + gatewayUpdateBufferSize := by omega
    exact not_stale_of_in_ring h hnumbers hne (Nat.zero_le _) hle hin

omit [ClientFdMap M] in
/-- When the first report has been overwritten, a login as of it is ignored. -/
theorem stale_overwritten (h : Recorded 0 rs w.updatesBuffer w.lastSeq)
    (hzero : response.sequenceId = 0)
    (hover : gatewayUpdateBufferSize < rs.length) : w.stale response = true := by
  have hne : rs ≠ [] := List.ne_nil_of_length_pos (by omega)
  have hlen := h.last hne
  by_contra hstale
  have hin := in_ring_of_not_stale h hne (Bool.eq_false_iff.2 hstale)
  rw [hzero] at hin
  replace hin : w.lastSeq.toNat < 0 + gatewayUpdateBufferSize := hin
  omega

/-- The confirmed balances in a session: those of the login, the reports replayed and the reports
since. -/
theorem session_confirmed (hsynced : ∀ fd, (w.states fd).Synced) {replayed : List OrderStateReport}
    (hstale : w.stale response = false)
    (hcaught : w.catchUp response = replayed.foldl missedReport response)
    (hlinked : ∀ id, getVal (w.install response).clientsFd id = some response.clientFd ↔
      id = response.clientId)
    (hsided : ∀ r ∈ replayed, r.clientId = response.clientId → OneSided r) (later : List ReportCall)
    (i : Fin maxPositions) :
    ((later.foldl handleCall (w.handleResponse response)).states.getClientState
      response.clientFd).confirmed i =
      response.confirmed i + gain response.assetId response.clientId replayed i +
        gain response.assetId response.clientId (later.flatMap ReportCall.reports) i := by
  obtain ⟨hid, hfd, hslots⟩ := catchUp_spec w response
  have hholds := handleCalls_holds (install_holds (hsynced (w.catchUp response).clientFd)) later
  have hmap : ∀ id, getVal (w.install (w.catchUp response)).clientsFd id = some response.clientFd ↔
      id = response.clientId := by
    intro id
    have hsame : (w.install (w.catchUp response)).clientsFd = (w.install response).clientsFd := by
      simp only [install, hid, hfd]
    rw [hsame]
    exact hlinked id
  rw [hfd, reportsOf_eq hmap] at hholds
  have hinstalled : w.handleResponse response = w.install (w.catchUp response) := by
    rw [handleResponse, hstale]
    rfl
  have hfunds := hholds.getClientState.2
  have hslot := (creditLives_slot response.assetId response.clientId i
    (later.flatMap ReportCall.reports) (w.catchUp response).toFunds).1
  rw [hslots] at hfunds
  rw [← hfunds, ← hinstalled, hcaught, missedReports_funds, creditMissed_slot hsided] at hslot
  exact hslot

end

section
variable {M : Type} [ClientFdMap M]

/-- **A login while the market runs.** The account service has handled the reports of `accountCalls`
when it answers the client, and the gateway those of `events` when it gets the answer; the gateway's
are numbered from 0. If the ring still has the first report and the client is accepted and linked to
its descriptor, then the confirmed balances are those at the start, all reports of the gateway and,
for the rest of the session, once more the reports which the account service had handled, less the
first one of the gateway. If the ring has it no more, any answer changes nothing. -/
theorem login_offset (sha256 : Key → Key) (init : UInt32 → Account.ClientState)
    (memory : Nat → OrderStateReport) (events : List ClientStatesWriter.Event)
    (accountCalls later : List ReportCall) (request : RoutedAuthRequest)
    (response : ClientAccountSnapshot)
    (hnumbers : Consecutive 0 (events.flatMap ClientStatesWriter.Event.received))
    (hanswer : processMessage sha256
      (accountCalls.foldl Account.ClientStates.handleCall (.new init)) request = some response) :
    let w := events.foldl handle (ClientStatesWriter.new memory : ClientStatesWriter M)
    let received := events.flatMap ClientStatesWriter.Event.received
    let handled := accountCalls.flatMap ReportCall.reports
    let account := init request.clientId
    (received.length ≤ gatewayUpdateBufferSize → response.status = .accepted →
      (∀ id, getVal (w.install response).clientsFd id = some request.clientFd ↔
        id = request.clientId) →
      (∀ r ∈ received, r.clientId = request.clientId → OneSided r) → ∀ i,
      ((later.foldl handleCall (w.handleResponse response)).states.getClientState
          request.clientFd).confirmed i =
        account.confirmed i +
          gain account.assetId request.clientId (received ++ later.flatMap ReportCall.reports) i +
          (gain account.assetId request.clientId handled i -
            gain account.assetId request.clientId (received.take 1) i)) ∧
    (gatewayUpdateBufferSize < received.length → w.handleResponse response = w) := by
  intro w received handled account
  obtain ⟨hzero, hacceptance⟩ := processMessage_spec hanswer
  obtain ⟨hrecorded, hsynced⟩ := events_recorded (M := M) memory events hnumbers
  refine ⟨fun hfit haccepted hlinked hsided i => ?_, fun hover => ?_⟩
  · obtain ⟨hid, hfd, hslots, hfunds⟩ := hacceptance haccepted
    have hbooked := account_confirmed (c := request.clientId)
      (fun id => TripleBuffer.new_synced _ _)
      (fun id => ⟨rfl, rfl⟩ : (Account.ClientStates.new init).Unstaged) accountCalls i
    have hkept := (account_getClientState_calls (fun id => TripleBuffer.new_synced _ _)
      (fun id => ⟨rfl, rfl⟩ : (Account.ClientStates.new init).Unstaged) accountCalls
      request.clientId).1
    have hsum := session_confirmed hsynced (not_stale_all hrecorded hnumbers hzero hfit)
      (catchUp_all hrecorded hzero hfit) (by rw [hid, hfd]; exact hlinked)
      (fun r hr hown => hsided r (List.mem_of_mem_drop hr) (hown.trans hid)) later i
    have hassets : response.assetId = account.assetId :=
      hslots.trans (congrArg Account.ClientInfo.assetId hkept)
    have hconfirmed : response.confirmed i =
        account.confirmed i + gain account.assetId request.clientId handled i :=
      (congrFun (congrArg Funds.confirmed hfunds) i).trans hbooked
    have hfirst : gain account.assetId request.clientId received i =
        gain account.assetId request.clientId (received.take 1) i +
          gain account.assetId request.clientId (received.drop 1) i := by
      rw [← gain_append, List.take_append_drop]
    rw [hid, hfd, hassets, hconfirmed] at hsum
    rw [hsum, gain_append, hfirst]
    grind
  · rw [handleResponse, stale_overwritten hrecorded hzero hover]
    rfl

end

/-- Client 3 asks for its details on descriptor 7. -/
def cashRequest : RoutedAuthRequest := ⟨.details, 3, fun _ => 0, 7, 0⟩

/-- The account service after the reports. -/
def cashBooks : Account.ClientStates :=
  ([.batch cashReports] : List ReportCall).foldl Account.ClientStates.handleCall (.new cashAccount)

/-- The answer to a login of client 3. -/
def cashAnswer : ClientAccountSnapshot where
  toFunds := (cashBooks.getClientState 3).toFunds
  status := .accepted
  sequenceId := 0
  clientId := 3
  clientFd := 7
  assetId := (cashBooks.getClientState 3).assetId

theorem cashBooks_answer : processMessage id cashBooks cashRequest = some cashAnswer := by
  have hallowed : gatewayAllowed (cashBooks.getClientState 3) 0 = true := by decide +kernel
  have hkey : (cashBooks.getClientState 3).checkKey id (fun _ => 0) = true := by decide +kernel
  simp [processMessage, cashRequest, cashAnswer, hallowed, hkey]

/-- The account service and the gateway have both got the fill of 100: the client starts its session
with 800. -/
theorem login_offset_cash :
    let w : ClientStatesWriter (FiniteMap UInt32 UInt32) :=
      ([.reports (.batch cashReports)] : List ClientStatesWriter.Event).foldl handle
        (ClientStatesWriter.new fun _ => ⟨0, 0, 0, 0, 0, 0, 0, 0, 0, .add⟩)
    processMessage id cashBooks cashRequest = some cashAnswer ∧ cashAnswer.confirmed 0 = 900 ∧
      ((w.handleResponse cashAnswer).states.getClientState 7).confirmed 0 = 800 := by
  intro w
  have hlinked : ∀ id, getVal (w.install cashAnswer).clientsFd id = some 7 ↔ id = 3 :=
    cashWriter_clientsFd
  have hnumbers : Consecutive 0 cashReports := by
    intro i r hr
    obtain ⟨hlt, rfl⟩ := List.getElem?_eq_some_iff.1 hr
    revert i
    decide
  have hoffset := (login_offset id cashAccount (fun _ => ⟨0, 0, 0, 0, 0, 0, 0, 0, 0, .add⟩)
    [.reports (.batch cashReports)] [.batch cashReports] [] cashRequest cashAnswer hnumbers
    cashBooks_answer).1 (by decide) rfl hlinked (by decide) 0
  refine ⟨cashBooks_answer, by decide +kernel, hoffset.trans ?_⟩
  decide +kernel

end Naoto.Exchange
