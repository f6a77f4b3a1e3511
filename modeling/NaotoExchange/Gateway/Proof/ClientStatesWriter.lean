import NaotoExchange.Gateway.ClientStatesWriter

/-!
# What each message publishes

Between two messages the written buffer of a descriptor agrees with the published one (`Settled`),
so that what a message publishes can be said in one lemma each: a report batch nothing but balances
(`handleReports_spec`), a response the client's login on its own descriptor
(`install_published`), a disconnect the end of it (`handleDisconnect_published`).
-/

namespace Naoto.Gateway

open ClientFdMap

namespace ClientStates

/-- No descriptor has an unpublished change besides its balances. -/
def Settled (s : ClientStates) : Prop := ∀ fd, (s fd).written = (s fd).published

theorem new_settled : Settled new := fun _ => rfl

variable {s : ClientStates}

/-- The same data on every descriptor, balances apart. -/
def SameInfo (s s' : ClientStates) : Prop :=
  ∀ fd, (s' fd).published = (s fd).published ∧ (s' fd).written = (s fd).written

theorem SameInfo.trans {s' s'' : ClientStates} (h : SameInfo s s') (h' : SameInfo s' s'') :
    SameInfo s s'' := fun fd => ⟨(h' fd).1.trans (h fd).1, (h' fd).2.trans (h fd).2⟩

theorem SameInfo.settled {s' : ClientStates} (h : SameInfo s s') (hs : Settled s) : Settled s' := by
  intro fd
  rw [(h fd).1, (h fd).2]
  exact hs fd

theorem setClientAssets_sameInfo (s : ClientStates) (fd : UInt32) (confirmed attempt : Int64)
    (assetId : UInt16) : SameInfo s (s.setClientAssets fd confirmed attempt assetId) := by
  intro fd'
  by_cases heq : fd' = fd
  · subst heq
    unfold setClientAssets
    rw [Function.update_self]
    exact ⟨rfl, rfl⟩
  · unfold setClientAssets
    rw [Function.update_of_ne heq]
    exact ⟨rfl, rfl⟩

/-- A flush of settled buffers publishes no change but balances. -/
theorem flush_sameInfo (h : Settled s) (fd : UInt32) : SameInfo s (s.flushTripleBuffer fd) := by
  intro fd'
  by_cases heq : fd' = fd
  · subst heq
    unfold flushTripleBuffer
    rw [Function.update_self, TripleBuffer.published_flush, TripleBuffer.written_flush]
    exact ⟨h fd', rfl⟩
  · unfold flushTripleBuffer
    rw [Function.update_of_ne heq]
    exact ⟨rfl, rfl⟩

end ClientStates

namespace ClientStatesWriter

open ClientStates

section
variable {M : Type} [ClientFdMap M] {w : ClientStatesWriter M}

/-! ## Reports -/

@[simp] theorem applyReport_clientsFd (w : ClientStatesWriter M) (r : OrderStateReport) :
    (w.applyReport r).clientsFd = w.clientsFd := by
  unfold applyReport
  dsimp only
  split <;> rfl

theorem applyReport_sameInfo (w : ClientStatesWriter M) (r : OrderStateReport) :
    SameInfo w.states (w.applyReport r).states := by
  unfold applyReport
  dsimp only
  split
  · exact fun _ => ⟨rfl, rfl⟩
  · exact SameInfo.trans (setClientAssets_sameInfo _ _ _ _ _) (setClientAssets_sameInfo _ _ _ _ _)

theorem applyReports_spec : ∀ (batch : List OrderStateReport) (w : ClientStatesWriter M),
    (batch.foldl applyReport w).clientsFd = w.clientsFd ∧
      SameInfo w.states (batch.foldl applyReport w).states
  | [], _ => ⟨rfl, fun _ => ⟨rfl, rfl⟩⟩
  | r :: batch, w => by
    obtain ⟨hm, hi⟩ := applyReports_spec batch (w.applyReport r)
    exact ⟨hm.trans (applyReport_clientsFd w r), (applyReport_sameInfo w r).trans hi⟩

/-- **A report batch** changes neither the map nor what is published, balances apart. -/
theorem handleReports_spec (h : Settled w.states) (batch : List OrderStateReport) :
    (w.handleReports batch).clientsFd = w.clientsFd ∧ Settled (w.handleReports batch).states ∧
      ∀ fd, ((w.handleReports batch).states fd).published = (w.states fd).published := by
  obtain ⟨hm, hi⟩ := applyReports_spec batch w
  unfold handleReports
  refine flushTouched_invariant (P := fun w' : ClientStatesWriter M => w'.clientsFd = w.clientsFd ∧
    Settled w'.states ∧ ∀ fd, (w'.states fd).published = (w.states fd).published) ?_
    ⟨hm, hi.settled h, fun fd => (hi fd).1⟩
  intro w' fd hw'
  obtain ⟨hm', hs', hp'⟩ := hw'
  have hflush := flush_sameInfo hs' fd
  exact ⟨hm', hflush.settled hs', fun fd' => (hflush fd').1.trans (hp' fd')⟩

/-! ## Responses -/

theorem missedReport_spec (response : ClientAccountSnapshot) (r : OrderStateReport) :
    (missedReport response r).clientId = response.clientId ∧
      (missedReport response r).clientFd = response.clientFd ∧
      (missedReport response r).assetId = response.assetId := by
  unfold missedReport
  split <;> exact ⟨rfl, rfl, rfl⟩

theorem missedReports_spec (reports : Nat → OrderStateReport) (seqs : List Nat)
    (response : ClientAccountSnapshot) :
    let response' := seqs.foldl (fun r seq => missedReport r (reports seq)) response
    response'.clientId = response.clientId ∧ response'.clientFd = response.clientFd ∧
      response'.assetId = response.assetId := by
  induction seqs generalizing response with
  | nil => exact ⟨rfl, rfl, rfl⟩
  | cons seq seqs ih =>
    obtain ⟨h1, h2, h3⟩ := missedReport_spec response (reports seq)
    obtain ⟨g1, g2, g3⟩ := ih (missedReport response (reports seq))
    exact ⟨g1.trans h1, g2.trans h2, g3.trans h3⟩

omit [ClientFdMap M] in
/-- The missed reports only change balances of the response. -/
theorem catchUp_spec (w : ClientStatesWriter M) (response : ClientAccountSnapshot) :
    (w.catchUp response).clientId = response.clientId ∧
      (w.catchUp response).clientFd = response.clientFd ∧
      (w.catchUp response).assetId = response.assetId :=
  missedReports_spec (fun seq => w.updatesBuffer (bufferIdx seq)) _ response

/-- **A login** is published on its own descriptor. -/
theorem install_published (w : ClientStatesWriter M) (response : ClientAccountSnapshot)
    (fd : UInt32) : ((w.install response).states fd).published =
      if fd = response.clientFd then
        { clientId := response.clientId
          assetId := response.assetId
          auth := 1
          sessionId := (w.states fd).written.sessionId + 1 }
      else (w.states fd).published := by
  unfold install flushTripleBuffer setClientState
  dsimp only
  by_cases heq : fd = response.clientFd
  · subst heq
    rw [if_pos rfl, Function.update_self, Function.update_self, TripleBuffer.published_flush,
      TripleBuffer.written_setPending, TripleBuffer.written_setWritten]
  · rw [if_neg heq, Function.update_of_ne heq, Function.update_of_ne heq]

theorem install_settled (h : Settled w.states) (response : ClientAccountSnapshot) :
    Settled (w.install response).states := by
  intro fd
  unfold install flushTripleBuffer setClientState
  dsimp only
  by_cases heq : fd = response.clientFd
  · subst heq
    rw [Function.update_self, TripleBuffer.written_flush, TripleBuffer.published_flush]
  · rw [Function.update_of_ne heq, Function.update_of_ne heq]
    exact h fd

/-- A response either is skipped or logs its client in on its descriptor. -/
theorem handleResponse_cases (w : ClientStatesWriter M) (response : ClientAccountSnapshot) :
    (w.stale response = true ∧ w.handleResponse response = w) ∨
      (w.stale response = false ∧ ∃ r : ClientAccountSnapshot, r.clientId = response.clientId ∧
        r.clientFd = response.clientFd ∧ r.assetId = response.assetId ∧
        w.handleResponse response = w.install r) := by
  unfold handleResponse
  cases hs : w.stale response with
  | true => exact .inl ⟨rfl, rfl⟩
  | false =>
    obtain ⟨h1, h2, h3⟩ := catchUp_spec w response
    exact .inr ⟨rfl, w.catchUp response, h1, h2, h3, rfl⟩

@[simp] theorem handleResponse_buffer (w : ClientStatesWriter M)
    (response : ClientAccountSnapshot) :
    (w.handleResponse response).updatesBuffer = w.updatesBuffer ∧
      (w.handleResponse response).lastSeq = w.lastSeq := by
  unfold handleResponse
  split <;> exact ⟨rfl, rfl⟩

/-- Whether a response is skipped does not depend on the responses before it. -/
theorem stale_handleResponse (w : ClientStatesWriter M) (r response : ClientAccountSnapshot) :
    (w.handleResponse r).stale response = w.stale response := by
  unfold stale
  rw [(handleResponse_buffer w r).1, (handleResponse_buffer w r).2]

/-! ## Disconnects -/

omit [ClientFdMap M] in
/-- **A disconnect** clears `Auth` on its descriptor. -/
theorem handleDisconnect_published (h : Settled w.states) (fd fd' : UInt32) :
    ((w.handleDisconnect fd).states fd').published =
      if fd' = fd then { (w.states fd').published with auth := 0 } else
        (w.states fd').published := by
  unfold handleDisconnect flushTripleBuffer setAuthStatus
  dsimp only
  by_cases heq : fd' = fd
  · subst heq
    rw [if_pos rfl, Function.update_self, Function.update_self, TripleBuffer.published_flush,
      TripleBuffer.written_setWritten, h fd', if_pos rfl]
  · rw [if_neg heq, Function.update_of_ne heq, Function.update_of_ne heq]

omit [ClientFdMap M] in
theorem handleDisconnect_settled (h : Settled w.states) (fd : UInt32) :
    Settled (w.handleDisconnect fd).states := by
  intro fd'
  unfold handleDisconnect flushTripleBuffer setAuthStatus
  dsimp only
  by_cases heq : fd' = fd
  · subst heq
    rw [Function.update_self, TripleBuffer.written_flush, TripleBuffer.published_flush]
  · rw [Function.update_of_ne heq, Function.update_of_ne heq]
    exact h fd'

end

end ClientStatesWriter

end Naoto.Gateway
