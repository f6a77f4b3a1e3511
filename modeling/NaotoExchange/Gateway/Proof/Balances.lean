import NaotoExchange.Gateway.Proof.ClientStatesWriter

/-!
# What the messages do to the balances of a descriptor

`Holds s fd info f`: the buffers of the descriptor hold `info` and the balances `f`, and nothing is
staged. A batch of reports adds those of the clients that `ClientsFd` maps to the descriptor, in
order (`handleReports_holds`); a login replaces the balances (`install_holds`).
-/

namespace Naoto.Gateway

open ClientFdMap

/-- What a report does to the attempts; an add is already in the local attempts. -/
def liveAttempt (r : OrderStateReport) : Int64 := if r.state = .add then 0 else r.soldAttemptDelta

/-- Both legs of a report. -/
def creditLive (slots : AssetSlots) (f : Funds) (r : OrderStateReport) : Funds :=
  (f.credit slots r.boughtDelta 0 r.boughtAssetId).credit slots r.soldDelta
    (liveAttempt r) r.soldAssetId

namespace ClientStates

/-- The descriptor publishes this state, and nothing is staged on it. -/
def Holds (s : ClientStates) (fd : UInt32) (info : ClientInfo) (f : Funds) : Prop :=
  (s fd).Shows (info, f) (info, f)

variable {s : ClientStates} {fd : UInt32} {info : ClientInfo} {f : Funds}

theorem Holds.getClientState (h : s.Holds fd info f) :
    (s.getClientState fd).toClientInfo = info ∧ (s.getClientState fd).toFunds = f :=
  ⟨h.published, h.total⟩

theorem holds_of_synced (h : (s fd).Synced) (hwritten : (s fd).written = (s fd).published)
    (hpending : (s fd).pending = 0) : s.Holds fd (s fd).published (s fd).total :=
  ⟨h, hwritten, by rw [hpending, add_zero], rfl, rfl⟩

theorem setClientAssets_shows {shown : ClientInfo × Funds} (h : (s fd).Shows (info, f) shown)
    (confirmed attempt : Int64) (assetId : UInt16) :
    (s.setClientAssets fd confirmed attempt assetId fd).Shows
      (info, f.credit info.assetId confirmed attempt assetId) shown := by
  unfold ClientStates.setClientAssets
  rw [Function.update_self]
  apply h.setPending
  rw [Funds.add_credit, h.next, h.written]

theorem setClientAssets_other {fd' : UInt32} (hne : fd ≠ fd') {confirmed attempt : Int64}
    {assetId : UInt16} :
    s.setClientAssets fd' confirmed attempt assetId fd = s fd := Function.update_of_ne hne ..

end ClientStates

namespace ClientStatesWriter

open ClientStates

variable {M : Type} [ClientFdMap M] {w : ClientStatesWriter M} {fd : UInt32} {info : ClientInfo}
  {f : Funds}

/-- The reports of the clients on the descriptor. -/
def reportsOf (m : M) (fd : UInt32) (reports : List OrderStateReport) : List OrderStateReport :=
  reports.filter fun r => getVal m r.clientId = some fd

theorem applyReport_shows {shown : ClientInfo × Funds} (h : (w.states fd).Shows (info, f) shown)
    (r : OrderStateReport) : ((w.applyReport r).states fd).Shows
      (info, (reportsOf w.clientsFd fd [r]).foldl (creditLive info.assetId) f) shown := by
  unfold applyReport
  dsimp only
  split
  · next hnone =>
    rw [reportsOf, List.filter_cons_of_neg (by simp [hnone])]
    exact h
  · next fd' hsome =>
    by_cases heq : fd' = fd
    · subst heq
      rw [reportsOf, List.filter_cons_of_pos (by simp [hsome])]
      exact setClientAssets_shows (setClientAssets_shows h _ _ _) _ _ _
    · rw [reportsOf, List.filter_cons_of_neg (by simp [hsome, heq])]
      dsimp only
      rw [setClientAssets_other (Ne.symm heq), setClientAssets_other (Ne.symm heq)]
      exact h

theorem applyReports_shows {shown : ClientInfo × Funds} (h : (w.states fd).Shows (info, f) shown)
    (batch : List OrderStateReport) : ((batch.foldl applyReport w).states fd).Shows
      (info, (reportsOf w.clientsFd fd batch).foldl (creditLive info.assetId) f) shown := by
  induction batch generalizing w f with
  | nil => exact h
  | cons r batch ih =>
    have hrest := ih (applyReport_shows h r)
    rw [applyReport_clientsFd, ← List.foldl_append, reportsOf, reportsOf, ← List.filter_append]
      at hrest
    exact hrest

/-- **A batch adds the reports of the descriptor's clients and publishes the result.** -/
theorem handleReports_holds (h : w.states.Holds fd info f) (batch : List OrderStateReport) :
    (w.handleReports batch).states.Holds fd info
      ((reportsOf w.clientsFd fd batch).foldl (creditLive info.assetId) f) := by
  have happlied := applyReports_shows h batch
  have hmap := (applyReports_spec batch w).1
  have hself : ∀ (w : ClientStatesWriter M) fd, (w.flush fd).states fd = (w.states fd).flush :=
    fun _ _ => Function.update_self ..
  have hother : ∀ (w : ClientStatesWriter M) fd fd', fd' ≠ fd →
      (w.flush fd).states fd' = w.states fd' :=
    fun _ _ _ hne => Function.update_of_ne hne ..
  have hflush := flushTouched_apply ClientStatesWriter.states (fun t => t.flush) hself hother
    (batch.foldl applyReport w) (batch.filterMap fun r => getVal w.clientsFd r.clientId) [] fd
  unfold Holds handleReports
  dsimp only
  rw [hmap, hflush]
  split
  · exact happlied.flush
  · next hnone =>
    -- nothing was for this descriptor
    have hnil : reportsOf w.clientsFd fd batch = [] := by
      rw [reportsOf, List.filter_eq_nil_iff]
      intro r hr hfd
      exact hnone ⟨List.mem_filterMap.2 ⟨r, hr, by simpa using hfd⟩, List.not_mem_nil⟩
    rw [hnil] at happlied ⊢
    exact happlied

theorem handleReports_clientsFd (w : ClientStatesWriter M) (batch : List OrderStateReport) :
    (w.handleReports batch).clientsFd = w.clientsFd := by
  have hflush : ∀ (w' : ClientStatesWriter M) fd, w'.clientsFd = w.clientsFd →
      (w'.flush fd).clientsFd = w.clientsFd := fun _ _ h => h
  exact flushTouched_invariant hflush (applyReports_spec batch w).1

/-- **The batching does not matter.** -/
theorem handleCalls_holds (h : w.states.Holds fd info f) (calls : List ReportCall) :
    (calls.foldl handleCall w).states.Holds fd info
      ((reportsOf w.clientsFd fd (calls.flatMap ReportCall.reports)).foldl (creditLive info.assetId)
        f) := by
  induction calls generalizing w f with
  | nil => exact h
  | cons call calls ih =>
    have hrest := ih (handleReports_holds h call.reports)
    rw [handleReports_clientsFd, ← List.foldl_append, reportsOf, reportsOf, ← List.filter_append]
      at hrest
    rw [List.foldl_cons, handleCall_eq, List.flatMap_cons]
    exact hrest

/-- **A login replaces what the descriptor held.** -/
theorem install_holds {response : ClientAccountSnapshot} (h : (w.states response.clientFd).Synced) :
    (w.install response).states.Holds response.clientFd
      { clientId := response.clientId
        assetId := response.assetId
        auth := 1
        sessionId := (w.states response.clientFd).written.sessionId + 1 } response.toFunds := by
  have hshows : (w.states response.clientFd).Shows
      ((w.states response.clientFd).written, (w.states response.clientFd).total +
        (w.states response.clientFd).pending)
      ((w.states response.clientFd).published, (w.states response.clientFd).total) :=
        ⟨h, rfl, rfl, rfl, rfl⟩
  unfold install flushTripleBuffer setClientState Holds
  dsimp only
  rw [Function.update_self, Function.update_self]
  exact ((hshows.setWritten _).setPending (add_sub_cancel _ _)).flush

theorem install_other {response : ClientAccountSnapshot} (hne : fd ≠ response.clientFd) :
    (w.install response).states fd = w.states fd :=
  (Function.update_of_ne hne ..).trans (Function.update_of_ne hne ..)

/-- An answer that is not skipped makes its client the one on its descriptor, and leaves the other
descriptors alone. -/
theorem handleResponse_holds (h : w.states.Holds fd info f) (response : ClientAccountSnapshot) :
    ∃ info' f', (w.handleResponse response).states.Holds fd info' f' ∧
      (info' = info ∧ f' = f ∨ fd = response.clientFd ∧ info'.clientId = response.clientId) := by
  obtain ⟨-, heq⟩ | ⟨-, caught, hid, hfd, -, heq⟩ := handleResponse_cases w response
  · rw [heq]
    exact ⟨info, f, h, .inl ⟨rfl, rfl⟩⟩
  · rw [heq]
    by_cases hne : fd = caught.clientFd
    · subst hne
      exact ⟨_, _, install_holds h.synced, .inr ⟨hfd, hid⟩⟩
    · refine ⟨info, f, ?_, .inl ⟨rfl, rfl⟩⟩
      unfold Holds
      rw [install_other hne]
      exact h

omit [ClientFdMap M] in
/-- A disconnect changes nothing but the authentication status. -/
theorem handleDisconnect_holds (h : w.states.Holds fd info f) (closed : UInt32) :
    (w.handleDisconnect closed).states.Holds fd
      (if fd = closed then { info with auth := 0 } else info) f := by
  unfold handleDisconnect flushTripleBuffer setAuthStatus Holds
  dsimp only
  by_cases heq : fd = closed
  · subst heq
    rw [if_pos (rfl : fd = fd), Function.update_self, Function.update_self, h.written]
    exact (h.setWritten _).flush
  · rw [if_neg heq, Function.update_of_ne heq, Function.update_of_ne heq]
    exact h

end ClientStatesWriter

end Naoto.Gateway
