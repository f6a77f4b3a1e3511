import NaotoExchange.Common.MulticastLoss
import NaotoExchange.Exchange.Solvency

/-!
# The two replicas of the balances

The emitter of the trade reports, a receiver and a writer in the gateway, another receiver and
another writer in the account service: two ways that lose different frames at different times. Each
writer has handled a prefix of what its receiver pushed. The confirmed balances of a client then
differ by the reports that only one of the two has got so far, whatever was lost
(`replicas_differ_by_lag`).
-/

namespace Naoto.Exchange

open Engine Escrow Gateway ClientFdMap Run UdpMulticast

/-- A receiver of the emitter's frames, and a writer that has handled some of what it pushed. -/
structure Follows (config : Config) (queueSize : Nat) (sends : List (Emitter.Call OrderStateReport))
    (calls : List ReportCall) : Prop where
  run : ∃ (memory : Nat → OrderStateReport) (as : List (Receiver.Action OrderStateReport))
    (r : Receiver OrderStateReport) (outs : List (Option OrderStateReport)),
    Along (Receiver.Tolerates config queueSize
      ((sends.foldl (Emitter.send config) .new).transmitted.map Prod.snd))
      (Receiver.step config) (Receiver.start config memory) as ∧
    Run.run (Receiver.step config) (Receiver.start config memory) as = .ok (r, outs) ∧
    calls.flatMap ReportCall.reports <+: outs.reduceOption

section
variable {config : Config} {queueSize : Nat} {sends : List (Emitter.Call OrderStateReport)}
  {calls : List ReportCall}

theorem Follows.prefix_sent (h : Follows config queueSize sends calls)
    (hqueue : config.poolSize ≤ queueSize)
    (hfits : ∀ call ∈ sends, call.Fits config)
    (hcount : (sends.flatMap Emitter.Call.objects).length < 2 ^ 32)
    (hring : config.objectsPerPacket ≤ config.ring.size.toNat) :
    calls.flatMap ReportCall.reports <+: number 0 (sends.flatMap Emitter.Call.objects) := by
  obtain ⟨memory, as, r, outs, htolerates, hrun, hhandled⟩ := h.run
  exact hhandled.trans (Receiver.run_tolerated hqueue hfits hcount hring htolerates
    hrun).1.prefix_sent

end

section
variable {M : Type} [ClientFdMap M] {w : ClientStatesWriter M} {s : Account.ClientStates}
  {c f : UInt32}

/-- The confirmed balance in the gateway is the sum over the reports handled. -/
theorem gateway_confirmed (hsynced : (w.states f).Synced) (hunstaged : w.states.Unstaged)
    (hmap : ∀ id, getVal w.clientsFd id = some f ↔ id = c) (calls : List ReportCall)
    (i : Fin maxPositions) :
    ((calls.foldl ClientStatesWriter.handleCall w).states.getClientState f).confirmed i =
      (w.states.getClientState f).confirmed i +
        Int64.ofInt (total (paid c ((w.states.getClientState f).assetId i))
          (calls.flatMap ReportCall.reports)) := by
  have hfunds := (getClientState_calls hsynced hunstaged calls).2
  rw [reportsOf_eq hmap] at hfunds
  have hslot := (creditLives_slot (w.states.getClientState f).assetId c i
    (calls.flatMap ReportCall.reports) (w.states.getClientState f).toFunds).1
  rw [← hfunds] at hslot
  exact hslot

theorem account_confirmed (hsynced : ∀ id, (s id).Synced) (hunstaged : s.Unstaged)
    (calls : List ReportCall) (i : Fin maxPositions) :
    ((calls.foldl Account.ClientStates.handleCall s).getClientState c).confirmed i =
      (s.getClientState c).confirmed i +
        Int64.ofInt (total (paid c ((s.getClientState c).assetId i))
          (calls.flatMap ReportCall.reports)) := by
  have hfunds := (account_getClientState_calls hsynced hunstaged calls c).2
  have hsame := creditReports_confirmed (s.getClientState c).assetId
    (ownReports c (calls.flatMap ReportCall.reports))
    (show (s.getClientState c).toFunds.confirmed = (s.getClientState c).toFunds.confirmed from rfl)
  have hslot := (creditLives_slot (s.getClientState c).assetId c i
    (calls.flatMap ReportCall.reports) (s.getClientState c).toFunds).1
  rw [← hfunds] at hsame
  rw [← hsame] at hslot
  exact hslot

/-- **The replicas differ by the lag only.** The gateway and the account service start with the same
confirmed balances and the same slots for the client `c`, who is alone on the descriptor `f`. Each
follows the feed by a receiver of its own, over a network that loses frames of its own. One of the
two has then handled what the other has and some reports more, and the confirmed balances differ by
what those pay the client. -/
theorem replicas_differ_by_lag (w : ClientStatesWriter M) (s : Account.ClientStates) (c f : UInt32)
    (past : List (UInt32 × StatesCall)) (init : UInt32 → Account.ClientState)
    (accountPast : List Account.ClientStates.Call) (config : Config) (queueSize : Nat)
    (sends : List (Emitter.Call OrderStateReport)) (calls accountCalls : List ReportCall)
    (hw : w.states = past.foldl (fun s c => s.call c.1 c.2) ClientStates.new)
    (hs : s = accountPast.foldl Account.ClientStates.call (.new init))
    (hunstaged : w.states.Unstaged)
    (haccount : s.Unstaged) (hmap : ∀ id, getVal w.clientsFd id = some f ↔ id = c)
    (hslots : (w.states.getClientState f).assetId = (s.getClientState c).assetId)
    (hfunds : (w.states.getClientState f).confirmed = (s.getClientState c).confirmed)
    (hqueue : config.poolSize ≤ queueSize) (hfits : ∀ call ∈ sends, call.Fits config)
    (hcount : (sends.flatMap Emitter.Call.objects).length < 2 ^ 32)
    (hring : config.objectsPerPacket ≤ config.ring.size.toNat)
    (hgateway : Follows config queueSize sends calls)
    (hfollows : Follows config queueSize sends accountCalls) :
    let gateway := (calls.foldl ClientStatesWriter.handleCall w).states.getClientState f
    let account := (accountCalls.foldl Account.ClientStates.handleCall s).getClientState c
    let gain := fun late i => Int64.ofInt (total (paid c ((s.getClientState c).assetId i)) late)
    (∃ late, accountCalls.flatMap ReportCall.reports = calls.flatMap ReportCall.reports ++ late ∧
      ∀ i, account.confirmed i = gateway.confirmed i + gain late i) ∨
    ∃ late, calls.flatMap ReportCall.reports = accountCalls.flatMap ReportCall.reports ++ late ∧
      ∀ i, gateway.confirmed i = account.confirmed i + gain late i := by
  intro gateway account gain
  have hsynced : (w.states f).Synced := hw ▸ (run_copied past f).synced
  have hsynced' : ∀ id, (s id).Synced := hs ▸ Account.ClientStates.synced_calls init accountPast
  have hg : ∀ i, gateway.confirmed i = (s.getClientState c).confirmed i + gain
      (calls.flatMap ReportCall.reports) i := by
    intro i
    have hsum := gateway_confirmed hsynced hunstaged hmap calls i
    rw [hslots, hfunds] at hsum
    exact hsum
  have ha : ∀ i, account.confirmed i =
      (s.getClientState c).confirmed i + gain (accountCalls.flatMap ReportCall.reports) i :=
    account_confirmed hsynced' haccount accountCalls
  have hgain : ∀ rs late i, gain (rs ++ late) i = gain rs i + gain late i := by
    intro rs late i
    simp only [gain, total_append, Int64.ofInt_add]
  have hsent := hgateway.prefix_sent hqueue hfits hcount hring
  have hsent' := hfollows.prefix_sent hqueue hfits hcount hring
  obtain ⟨late, hlate⟩ | ⟨late, hlate⟩ := List.prefix_or_prefix_of_prefix hsent hsent'
  · refine .inl ⟨late, hlate.symm, fun i => ?_⟩
    rw [hg, ha, ← hlate, hgain, add_assoc]
  · refine .inr ⟨late, hlate.symm, fun i => ?_⟩
    rw [hg, ha, ← hlate, hgain, add_assoc]

end

/-- An add goes out alone, then a fill of it and a report for somebody else. -/
def cashSends : List (Emitter.Call OrderStateReport) :=
  [.batch (cashReports.take 1) [] 1, .batch (cashReports.drop 1) [] 1]

theorem cashGateway_follows :
    Follows Receiver.pairsConfig 5 cashSends [.batch (cashReports.take 1)] where
  run := by
    let frame := fillHeaders Receiver.pairsConfig (cashReports.take 1)
    obtain ⟨r, outs, hrun, houts⟩ := exists_of_succeeds
      (P := fun _ outs => cashReports.take 1 = outs.reduceOption)
      (r := Run.run (Receiver.step Receiver.pairsConfig)
        (Receiver.start Receiver.pairsConfig fun _ => ⟨0, 0, 0, 0, 0, 0, 0, 0, 0, .add⟩)
        (Receiver.receiving frame 1))
      (by decide +kernel)
    exact ⟨_, _, r, outs, by decide +kernel, hrun, houts ▸ List.prefix_refl _⟩

theorem cashAccount_follows : Follows Receiver.pairsConfig 5 cashSends [.batch cashReports] where
  run := by
    let frame := fun reports : List OrderStateReport => fillHeaders Receiver.pairsConfig reports
    obtain ⟨r, outs, hrun, houts⟩ := exists_of_succeeds
      (P := fun _ outs => cashReports = outs.reduceOption)
      (r := Run.run (Receiver.step Receiver.pairsConfig)
        (Receiver.start Receiver.pairsConfig fun _ => ⟨0, 0, 0, 0, 0, 0, 0, 0, 0, .add⟩)
        (Receiver.receiving (frame (cashReports.drop 1)) 0 ++ Receiver.receiving
          (frame (cashReports.take 1)) 3))
      (by decide +kernel)
    exact ⟨_, _, r, outs, by decide +kernel, hrun, houts ▸ List.prefix_refl _⟩

theorem replicas_differ_by_lag_cash :
    let calls : List ReportCall := [.batch (cashReports.take 1)]
    let accountCalls : List ReportCall := [.batch cashReports]
    let gateway := (calls.foldl ClientStatesWriter.handleCall cashWriter).states.getClientState 7
    let account := (accountCalls.foldl Account.ClientStates.handleCall
      (.new cashAccount)).getClientState 3
    gateway.confirmed 0 = 1000 ∧ account.confirmed 0 = 900 ∧
    ((∃ late, accountCalls.flatMap ReportCall.reports = calls.flatMap ReportCall.reports ++ late ∧
      ∀ i, account.confirmed i = gateway.confirmed i + Int64.ofInt
        (total (paid 3 (cashSlots i)) late)) ∨
    ∃ late, calls.flatMap ReportCall.reports = accountCalls.flatMap ReportCall.reports ++ late ∧
      ∀ i, gateway.confirmed i = account.confirmed i + Int64.ofInt
        (total (paid 3 (cashSlots i)) late)) := by
  intro calls accountCalls gateway account
  have hfits : ∀ call ∈ cashSends, call.Fits Receiver.pairsConfig := by
    simp [cashSends, cashReports, Emitter.Call.Fits, Receiver.pairsConfig]
  have hlag := replicas_differ_by_lag cashWriter (.new cashAccount) 3 7
    [(7, .setClientState { cashFunds with
      status := .accepted, sequenceId := 0, clientId := 3, clientFd := 7, assetId := cashSlots }),
      (7, .flushTripleBuffer)] cashAccount [] Receiver.pairsConfig 5 cashSends calls
        accountCalls rfl rfl
    cashWriter_unstaged (fun _ => ⟨rfl, rfl⟩) cashWriter_clientsFd (by decide) (by decide)
      (by decide) hfits (by decide)
    (by decide) cashGateway_follows cashAccount_follows
  exact ⟨by decide +kernel, by decide +kernel, hlag⟩

end Naoto.Exchange
