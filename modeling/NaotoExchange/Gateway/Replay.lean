import NaotoExchange.Gateway.Agreement

/-!
# A login in the middle of the reports

A login carries the balances as of some report. The gateway keeps the last reports in a ring and
adds those that came after it to the balances (`catchUp`), with a loop of its own. `stale` is the
test that the ring still has them.

* `replay_matches_live`: the ring has all of them whenever the login is not skipped, and it is not
  skipped when they fit; the balances are those of a login followed by the same reports exactly if
  the two ways of booking the reports add up to the same (`AddUp`), for instance report by report
  (`EachAlike`).
* `replayed_cancel`: a cancellation gives the attempts back only when it comes after the login.
-/

namespace Naoto.Gateway

open ClientFdMap

/-! ## The ring of reports -/

/-- The reports are numbered one after the other. -/
def Consecutive (first : Nat) (rs : List OrderStateReport) : Prop :=
  ∀ (i : Nat) r, rs[i]? = some r → r.sequenceId.toNat = first + i

namespace ClientStatesWriter

theorem bufferIdx_eq (seq : Nat) : bufferIdx seq = seq % gatewayUpdateBufferSize :=
  Nat.and_two_pow_sub_one_eq_mod seq 13

/-- The ring has the last reports, and no other entry is in the slot of its number. -/
structure Recorded (first : Nat) (rs : List OrderStateReport) (buffer : Nat → OrderStateReport)
    (lastSeq : UInt64) : Prop where
  recent : ∀ (i : Nat) r, rs[i]? = some r → rs.length ≤ i + gatewayUpdateBufferSize →
    buffer (bufferIdx (first + i)) = r
  only : ∀ seq, (buffer (bufferIdx seq)).sequenceId.toNat = seq →
    ∃ i, seq = first + i ∧ i < rs.length ∧ rs.length ≤ i + gatewayUpdateBufferSize
  start : rs = [] → lastSeq = 0
  last : rs ≠ [] → lastSeq.toNat + 1 = first + rs.length
  /-- It is a 32-bit number. -/
  small : lastSeq.toNat < 2 ^ 32

/-- The marks of the constructor are not in the slot of their number. -/
theorem recorded_new (first : Nat) (memory : Nat → OrderStateReport) :
    Recorded first [] (fun i => { memory i with sequenceId := UInt32.ofNat (i + 1) }) 0 where
  recent i r h := by simp at h
  only seq h := by
    rw [bufferIdx_eq, UInt32.toNat_ofNat', gatewayUpdateBufferSize] at h
    omega
  start _ := rfl
  last h := absurd rfl h
  small := by decide

theorem Recorded.report {first : Nat} {rs : List OrderStateReport} {buffer : Nat → OrderStateReport}
    {lastSeq : UInt64} (h : Recorded first rs buffer lastSeq) {r : OrderStateReport}
    (hr : r.sequenceId.toNat = first + rs.length) :
    Recorded first (rs ++ [r]) (Function.update buffer (bufferIdx r.sequenceId.toNat) r)
      r.sequenceId.toUInt64 where
  recent i r' hget hin := by
    rw [List.length_append, List.length_singleton] at hin
    rw [hr]
    rcases Nat.lt_or_ge i rs.length with hlt | hge
    · rw [List.getElem?_append_left hlt] at hget
      have hne : bufferIdx (first + i) ≠ bufferIdx (first + rs.length) := by
        rw [bufferIdx_eq, bufferIdx_eq]
        rw [gatewayUpdateBufferSize] at hin ⊢
        omega
      rw [Function.update_of_ne hne]
      exact h.recent i r' hget (by omega)
    · rw [List.getElem?_append_right hge, List.getElem?_singleton] at hget
      split at hget
      · have hi : i = rs.length := by omega
        rw [hi, Function.update_self]
        exact Option.some.inj hget
      · cases hget
  only seq hseq := by
    rw [hr] at hseq
    rw [List.length_append, List.length_singleton]
    by_cases heq : bufferIdx seq = bufferIdx (first + rs.length)
    · rw [heq, Function.update_self, hr] at hseq
      exact ⟨rs.length, hseq.symm, Nat.lt_succ_self _, Nat.add_le_add_left (by decide) _⟩
    · rw [Function.update_of_ne heq] at hseq
      obtain ⟨i, rfl, hlt, hin⟩ := h.only seq hseq
      have hne : rs.length ≠ i + gatewayUpdateBufferSize := by
        intro hlen
        apply heq
        rw [bufferIdx_eq, bufferIdx_eq, hlen, ← Nat.add_assoc, Nat.add_mod_right]
      exact ⟨i, rfl, by omega, by omega⟩
  start h := absurd h (by simp)
  last _ := by
    rw [UInt32.toNat_toUInt64, hr, List.length_append, List.length_singleton]
    omega
  small := by
    rw [UInt32.toNat_toUInt64]
    exact r.sequenceId.toNat_lt

/-! ## The writer's messages -/

/-- What the writer handles. -/
inductive Event where
  | reports (call : ReportCall)
  | responses (batch : List ClientAccountSnapshot)
  | disconnect (fd : UInt32)

/-- The reports that come in with the event. -/
def Event.received : Event → List OrderStateReport
  | .reports call => call.reports
  | _ => []

variable {M : Type} [ClientFdMap M] {w : ClientStatesWriter M} {first : Nat}
  {rs : List OrderStateReport}

/-- The writer handles the event. -/
def handle (w : ClientStatesWriter M) : Event → ClientStatesWriter M
  | .reports call => w.handleCall call
  | .responses batch => w.handleResponses batch
  | .disconnect fd => w.handleDisconnect fd

theorem Recorded.applyReports (h : Recorded first rs w.updatesBuffer w.lastSeq)
    (batch : List OrderStateReport) (hnumbers : Consecutive first (rs ++ batch)) :
    Recorded first (rs ++ batch) (batch.foldl applyReport w).updatesBuffer
      (batch.foldl applyReport w).lastSeq := by
  induction batch generalizing w rs with
  | nil => simpa using h
  | cons r batch ih =>
    have hr : r.sequenceId.toNat = first + rs.length := hnumbers rs.length r (by simp)
    have hone : Recorded first (rs ++ [r]) (w.applyReport r).updatesBuffer
        (w.applyReport r).lastSeq := by
      unfold applyReport
      dsimp only
      split <;> exact h.report hr
    rw [List.append_cons] at hnumbers ⊢
    exact ih hone hnumbers

theorem handleReports_buffer (w : ClientStatesWriter M) (batch : List OrderStateReport) :
    (w.handleReports batch).updatesBuffer = (batch.foldl applyReport w).updatesBuffer ∧
      (w.handleReports batch).lastSeq = (batch.foldl applyReport w).lastSeq := by
  have hflush : ∀ (w' : ClientStatesWriter M) fd,
      w'.updatesBuffer = (batch.foldl applyReport w).updatesBuffer ∧
        w'.lastSeq = (batch.foldl applyReport w).lastSeq →
      (w'.flush fd).updatesBuffer = (batch.foldl applyReport w).updatesBuffer ∧
        (w'.flush fd).lastSeq = (batch.foldl applyReport w).lastSeq := fun _ _ h => h
  exact flushTouched_invariant hflush ⟨rfl, rfl⟩

theorem handleResponses_buffer (w : ClientStatesWriter M) (batch : List ClientAccountSnapshot) :
    (w.handleResponses batch).updatesBuffer = w.updatesBuffer ∧
      (w.handleResponses batch).lastSeq = w.lastSeq := by
  unfold handleResponses
  induction batch generalizing w with
  | nil => exact ⟨rfl, rfl⟩
  | cons response batch ih =>
    obtain ⟨hbuffer, hlast⟩ := ih (w.handleResponse response)
    obtain ⟨hbuffer', hlast'⟩ := handleResponse_buffer w response
    exact ⟨hbuffer.trans hbuffer', hlast.trans hlast'⟩

theorem Recorded.handle (h : Recorded first rs w.updatesBuffer w.lastSeq) (e : Event)
    (hnumbers : Consecutive first (rs ++ e.received)) :
    Recorded first (rs ++ e.received) (w.handle e).updatesBuffer (w.handle e).lastSeq := by
  cases e with
  | reports call =>
    simp only [ClientStatesWriter.handle, handleCall_eq]
    obtain ⟨hbuffer, hlast⟩ := handleReports_buffer w call.reports
    rw [hbuffer, hlast]
    exact h.applyReports call.reports hnumbers
  | responses batch =>
    obtain ⟨hbuffer, hlast⟩ := handleResponses_buffer w batch
    simp only [ClientStatesWriter.handle, Event.received, List.append_nil, hbuffer, hlast]
    exact h
  | disconnect fd =>
    simp only [Event.received, List.append_nil]
    exact h

/-! ### The buffers stay in step -/

theorem synced_flush {s : ClientStates} (h : ∀ fd, (s fd).Synced) (fd : UInt32) :
    ∀ fd', (s.flushTripleBuffer fd fd').Synced := TripleBuffer.synced_update h fd (h fd).flush

theorem synced_setClientAssets {s : ClientStates} (h : ∀ fd, (s fd).Synced) (fd : UInt32)
    (confirmed attempt : Int64) (assetId : UInt16) :
    ∀ fd', (s.setClientAssets fd confirmed attempt assetId fd').Synced :=
    TripleBuffer.synced_update h fd ((h fd).setPending _)

theorem synced_applyReport (h : ∀ fd, (w.states fd).Synced) (r : OrderStateReport) :
    ∀ fd, ((w.applyReport r).states fd).Synced := by
  unfold applyReport
  dsimp only
  split
  · exact h
  · exact synced_setClientAssets (synced_setClientAssets h _ _ _ _) _ _ _ _

theorem synced_handleReports (h : ∀ fd, (w.states fd).Synced) (batch : List OrderStateReport) :
    ∀ fd, ((w.handleReports batch).states fd).Synced := by
  have happlied : ∀ fd, ((batch.foldl applyReport w).states fd).Synced := by
    induction batch generalizing w with
    | nil => exact h
    | cons r batch ih => exact ih (synced_applyReport h r)
  have hflush : ∀ (w : ClientStatesWriter M) fd, (∀ fd', (w.states fd').Synced) →
      ∀ fd', ((w.flush fd).states fd').Synced := fun _ fd h => synced_flush h fd
  exact flushTouched_invariant hflush happlied

theorem synced_install (h : ∀ fd, (w.states fd).Synced) (response : ClientAccountSnapshot) :
    ∀ fd, ((w.install response).states fd).Synced :=
  synced_flush (TripleBuffer.synced_update h _ (((h _).setWritten _).setPending _)) _

theorem synced_handle (h : ∀ fd, (w.states fd).Synced) (e : Event) :
    ∀ fd, ((w.handle e).states fd).Synced := by
  cases e with
  | reports call =>
    simp only [ClientStatesWriter.handle, handleCall_eq]
    exact synced_handleReports h call.reports
  | responses batch =>
    simp only [ClientStatesWriter.handle, handleResponses]
    induction batch generalizing w with
    | nil => exact h
    | cons response batch ih =>
      apply ih
      unfold handleResponse
      split
      · exact h
      · exact synced_install h _
  | disconnect fd => exact synced_flush (TripleBuffer.synced_update h fd ((h fd).setWritten _)) fd

theorem events_recorded (memory : Nat → OrderStateReport) (events : List Event)
    (hnumbers : Consecutive first (events.flatMap Event.received)) :
    let w := events.foldl handle (new memory : ClientStatesWriter M)
    Recorded first (events.flatMap Event.received) w.updatesBuffer w.lastSeq ∧ ∀ fd,
      (w.states fd).Synced := by
  induction events using List.reverseRecOn with
  | nil => exact ⟨recorded_new first memory, fun _ => TripleBuffer.new_synced _ _⟩
  | append_singleton events e ih =>
    rw [List.flatMap_append, List.flatMap_singleton] at hnumbers ⊢
    obtain ⟨hrecorded, hsynced⟩ := ih fun i r hr => hnumbers i r (by
      rw [List.getElem?_append_left (List.getElem?_eq_some_iff.1 hr).1]
      exact hr)
    rw [List.foldl_append]
    exact ⟨hrecorded.handle e hnumbers, synced_handle hsynced e⟩

/-! ## Catching up -/

/-- What a missed report does to the balances of a login. -/
def creditMissed (slots : AssetSlots) (f : Funds) (r : OrderStateReport) : Funds where
  confirmed := fun i =>
    if slots i = r.boughtAssetId then f.confirmed i + r.boughtDelta
    else if slots i = r.soldAssetId then f.confirmed i + r.soldDelta
    else f.confirmed i
  attempt := fun i =>
    if slots i = r.boughtAssetId then f.attempt i
    else if slots i = r.soldAssetId then f.attempt i + r.soldDelta
    else f.attempt i

/-- Missed or live, the report does the same to the slots: what it sells is not what it buys, and
the amount and the attempts that it takes are the same. -/
def Alike (slots : AssetSlots) (r : OrderStateReport) : Prop :=
  ∀ i, slots i = r.soldAssetId →
    if r.boughtAssetId = r.soldAssetId then r.soldDelta = 0 ∧ liveAttempt r = 0 else
      r.soldDelta = liveAttempt r

instance (slots : AssetSlots) (r : OrderStateReport) : Decidable (Alike slots r) :=
  inferInstanceAs (Decidable (∀ _, _))

theorem Alike.credit {slots : AssetSlots} {r : OrderStateReport} (h : Alike slots r) (f : Funds) :
    creditMissed slots f r = creditLive slots f r := by
  ext i
  all_goals
    simp only [creditMissed, creditLive, Funds.credit, add_zero, ite_self]
    by_cases hsold : slots i = r.soldAssetId
    · have hi := h i hsold
      by_cases hsame : r.boughtAssetId = r.soldAssetId
      · rw [if_pos hsame] at hi
        simp [hsold, hsame, hi.1, hi.2]
      · rw [if_neg hsame] at hi
        simp [hsold, Ne.symm hsame, hi]
    · simp [hsold]

/-- Either way, what a report does to the balances is added to them. -/
theorem creditMissed_add (slots : AssetSlots) (f : Funds) (r : OrderStateReport) :
    creditMissed slots f r = f + creditMissed slots 0 r := by
  ext i
  · simp only [creditMissed, Funds.confirmed_add, Funds.confirmed_zero, Pi.add_apply, Pi.zero_apply]
    split
    · rw [zero_add]
    · split
      · rw [zero_add]
      · rw [add_zero]
  · simp only [creditMissed, Funds.attempt_add, Funds.attempt_zero, Pi.add_apply, Pi.zero_apply]
    split
    · rw [add_zero]
    · split
      · rw [zero_add]
      · rw [add_zero]

theorem creditLive_add (slots : AssetSlots) (f : Funds) (r : OrderStateReport) :
    creditLive slots f r = f + creditLive slots 0 r := by
  rw [creditLive, creditLive, Funds.add_credit, Funds.add_credit, add_zero]

theorem foldl_of_add {credit : Funds → OrderStateReport → Funds}
    (h : ∀ f r, credit f r = f + credit 0 r) (rs : List OrderStateReport) (f : Funds) :
    rs.foldl credit f = f + (rs.map (credit 0)).sum := by
  induction rs generalizing f with
  | nil => exact (add_zero f).symm
  | cons r rs ih => rw [List.foldl_cons, ih, h, List.map_cons, List.sum_cons, add_assoc]

/-- Booked as missed reports, `own` adds up to what `live` adds up to, booked live. -/
def AddUp (slots : AssetSlots) (own live : List OrderStateReport) : Prop :=
  (own.map (creditMissed slots 0)).sum = (live.map (creditLive slots 0)).sum

theorem missedReports_funds (missed : List OrderStateReport) (response : ClientAccountSnapshot) :
    (missed.foldl missedReport response).toFunds =
      (ownReports response.clientId missed).foldl (creditMissed response.assetId)
        response.toFunds := by
  induction missed generalizing response with
  | nil => rfl
  | cons r missed ih =>
    obtain ⟨hid, -, hslots⟩ := missedReport_spec response r
    rw [List.foldl_cons, ih, hid, hslots]
    by_cases heq : r.clientId = response.clientId
    · rw [ownReports, ownReports, List.filter_cons_of_pos (by simpa using heq), List.foldl_cons,
        missedReport, if_pos heq]
      rfl
    · rw [ownReports, ownReports, List.filter_cons_of_neg (by simpa using heq), missedReport,
        if_neg heq]

omit [ClientFdMap M] in
/-- The loop over the ring goes over the reports after the login, if the ring still has them. -/
theorem catchUp_eq (h : Recorded first rs w.updatesBuffer w.lastSeq)
    {response : ClientAccountSnapshot}
    (hne : rs ≠ []) (hfirst : first ≤ response.sequenceId.toNat)
    (hlast : response.sequenceId ≤ w.lastSeq)
    (hin : w.lastSeq.toNat < response.sequenceId.toNat + gatewayUpdateBufferSize) :
    w.catchUp response = (rs.drop (response.sequenceId.toNat + 1 - first)).foldl missedReport
      response := by
  have hlen := h.last hne
  have hle := UInt64.le_iff_toNat_le.1 hlast
  have hnext : (response.sequenceId + 1).toNat = response.sequenceId.toNat + 1 := by
    have hsmall := h.small
    have hone : (1 : UInt64).toNat = 1 := rfl
    rw [UInt64.toNat_add, hone]
    omega
  unfold catchUp
  dsimp only
  rw [hnext]
  have hentries : rs.drop (response.sequenceId.toNat + 1 - first) =
      (List.range' (response.sequenceId.toNat + 1)
        (w.lastSeq.toNat + 1 - (response.sequenceId.toNat + 1))).map fun seq => w.updatesBuffer
          (bufferIdx seq) := by
    apply List.ext_getElem
    · rw [List.length_drop, List.length_map, List.length_range']
      omega
    · intro i hi hi'
      rw [List.getElem_drop, List.getElem_map, List.getElem_range']
      have hget := h.recent (response.sequenceId.toNat + 1 - first + i) _
        (List.getElem?_eq_getElem (by rw [List.length_drop] at hi; omega)) (by omega)
      rw [← hget]
      congr 2
      omega
  rw [hentries, List.foldl_map]

omit [ClientFdMap M] in
/-- A login that is not skipped finds all reports after it in the ring. -/
theorem in_ring_of_not_stale (h : Recorded first rs w.updatesBuffer w.lastSeq)
    {response : ClientAccountSnapshot} (hne : rs ≠ []) (hstale : w.stale response = false) :
    w.lastSeq.toNat < response.sequenceId.toNat + gatewayUpdateBufferSize := by
  have hlen := h.last hne
  have hpos : 0 < gatewayUpdateBufferSize := by decide
  simp only [stale, Bool.and_eq_false_iff, bne_eq_false_iff_eq] at hstale
  rcases hstale with hentry | hlast
  · have hseq := congrArg UInt64.toNat hentry
    rw [UInt32.toNat_toUInt64] at hseq
    obtain ⟨i, hi, hlt, hin⟩ := h.only _ hseq
    omega
  · rw [hlast]
    omega

omit [ClientFdMap M] in
theorem not_stale_of_in_ring (h : Recorded first rs w.updatesBuffer w.lastSeq)
    (hnumbers : Consecutive first rs)
    {response : ClientAccountSnapshot} (hne : rs ≠ []) (hfirst : first ≤ response.sequenceId.toNat)
    (hlast : response.sequenceId ≤ w.lastSeq)
    (hin : w.lastSeq.toNat < response.sequenceId.toNat + gatewayUpdateBufferSize) :
    w.stale response = false := by
  have hlen := h.last hne
  have hle := UInt64.le_iff_toNat_le.1 hlast
  have hget := List.getElem?_eq_getElem
    (show response.sequenceId.toNat - first < rs.length by omega)
  have hentry := h.recent _ _ hget (by omega)
  rw [Nat.add_sub_cancel' hfirst] at hentry
  have hseq : (w.updatesBuffer (bufferIdx response.sequenceId.toNat)).sequenceId.toUInt64 =
      response.sequenceId := by
    rw [hentry, ← UInt64.toNat_inj, UInt32.toNat_toUInt64, hnumbers _ _ hget,
      Nat.add_sub_cancel' hfirst]
  simp [stale, hseq]

theorem handleResponse_funds (hsynced : ∀ fd, (w.states fd).Synced)
    {response : ClientAccountSnapshot}
    {missed : List OrderStateReport} (hstale : w.stale response = false)
    (hcaught : w.catchUp response = missed.foldl missedReport response) :
    ((w.handleResponse response).states.getClientState response.clientFd).toFunds =
      (ownReports response.clientId missed).foldl (creditMissed response.assetId)
        response.toFunds := by
  have hholds := install_holds (hsynced (w.catchUp response).clientFd)
  rw [(catchUp_spec w response).2.1] at hholds
  rw [handleResponse, hstale, ← missedReports_funds, ← hcaught]
  exact hholds.getClientState.2

theorem liveReports_funds (hsynced : ∀ fd, (w.states fd).Synced) (response : ClientAccountSnapshot)
    (missed : List OrderStateReport) :
    ((missed.foldl handleReport (w.install response)).states.getClientState
      response.clientFd).toFunds =
      (reportsOf (w.install response).clientsFd response.clientFd missed).foldl
        (creditLive response.assetId) response.toFunds := by
  have hholds := handleCalls_holds (install_holds (hsynced response.clientFd))
    (missed.map ReportCall.one)
  rw [List.foldl_map, List.flatMap_map] at hholds
  have hreports : missed.flatMap (fun r => (ReportCall.one r).reports) = missed :=
    List.flatMap_singleton' missed
  rw [hreports] at hholds
  exact hholds.getClientState.2

/-- `ClientsFd` when the client of the login has been linked to its descriptor. -/
def linked (w : ClientStatesWriter M) (response : ClientAccountSnapshot) : M :=
  relink (w.states.getClientId response.clientFd) response.clientId response.clientFd w.clientsFd

/-- The reports that a live writer would have booked to the login's descriptor are the client's, and
they are alike missed and live. -/
def EachAlike (w : ClientStatesWriter M) (response : ClientAccountSnapshot)
    (missed : List OrderStateReport) : Prop :=
  ∀ r ∈ missed, (getVal (w.linked response) r.clientId = some response.clientFd ↔
    r.clientId = response.clientId) ∧ (r.clientId = response.clientId → Alike response.assetId r)

theorem EachAlike.addUp {response : ClientAccountSnapshot} {missed : List OrderStateReport}
    (h : w.EachAlike response missed) : AddUp response.assetId (ownReports response.clientId missed)
      (reportsOf (w.linked response) response.clientFd missed) := by
  have hsame : reportsOf (w.linked response) response.clientFd missed =
      ownReports response.clientId missed :=
    List.filter_congr fun r hr => decide_eq_decide.2 (h r hr).1
  rw [AddUp, hsame]
  refine congrArg List.sum (List.map_congr_left fun r hr => ?_)
  obtain ⟨hmem, hown⟩ := List.mem_filter.1 hr
  exact ((h r hmem).2 (of_decide_eq_true hown)).credit 0

/-- **Replay and live handling.** After any messages whose reports are numbered one after the other,
take a login as of a report that was received. It is not skipped when the reports after it fit in
the ring. If it is not skipped, it installs the balances that the login itself and then those
reports would give exactly if the two ways of booking them add up to the same; in particular if this
is so report by report. -/
theorem replay_matches_live (memory : Nat → OrderStateReport) (events : List Event) (first : Nat)
    (hnumbers : Consecutive first (events.flatMap Event.received))
    (response : ClientAccountSnapshot)
    (hpos : 1 ≤ response.sequenceId.toNat) (hfirst : first ≤ response.sequenceId.toNat)
    (hlast : response.sequenceId ≤
      (events.foldl handle (new memory : ClientStatesWriter M)).lastSeq) :
    let w := events.foldl handle (new memory : ClientStatesWriter M)
    let missed := (events.flatMap Event.received).drop (response.sequenceId.toNat + 1 - first)
    (w.lastSeq.toNat - response.sequenceId.toNat < gatewayUpdateBufferSize →
      w.stale response = false) ∧
    (w.stale response = false →
      (((w.handleResponse response).states.getClientState response.clientFd).toFunds =
        ((missed.foldl handleReport (w.install response)).states.getClientState
          response.clientFd).toFunds ↔
        AddUp response.assetId (ownReports response.clientId missed)
          (reportsOf (w.linked response) response.clientFd missed))) ∧
    (w.EachAlike response missed → AddUp response.assetId (ownReports response.clientId missed)
      (reportsOf (w.linked response) response.clientFd missed)) := by
  intro w missed
  obtain ⟨hrecorded, hsynced⟩ := events_recorded (M := M) memory events hnumbers
  replace hlast : response.sequenceId ≤ w.lastSeq := hlast
  have hle := UInt64.le_iff_toNat_le.1 hlast
  have hne : events.flatMap Event.received ≠ [] := by
    intro hnil
    have hzero : w.lastSeq = 0 := hrecorded.start hnil
    rw [hzero] at hle
    exact absurd (Nat.le_trans hpos hle) (by decide)
  refine ⟨fun hfit => ?_, fun hstale => ?_, EachAlike.addUp⟩
  · have hin : w.lastSeq.toNat < response.sequenceId.toNat + gatewayUpdateBufferSize := by omega
    exact not_stale_of_in_ring hrecorded hnumbers hne hfirst hlast hin
  · have hin := in_ring_of_not_stale hrecorded hne hstale
    have hcaught : w.catchUp response = missed.foldl missedReport response :=
      catchUp_eq hrecorded hne hfirst hlast hin
    rw [handleResponse_funds hsynced hstale hcaught, liveReports_funds hsynced,
      foldl_of_add (creditMissed_add response.assetId),
      foldl_of_add (creditLive_add response.assetId)]
    exact add_right_inj _

/-- Client 3 has added an order that reserves 300 of its cash, and then `r` happens. -/
def cashEvents (r : OrderStateReport) : List Event :=
  [.reports (.one ⟨0, 0, 300, 1, 3, 1, 0, 1, 0, .add⟩), .reports (.batch [r])]

/-- The login of client 3 as of the add. -/
def cashLogin : ClientAccountSnapshot where
  confirmed := fun i => if i.val = 0 then 1000 else 0
  attempt := fun i => if i.val = 0 then 300 else 0
  status := .accepted
  sequenceId := 1
  clientId := 3
  clientFd := 7
  assetId := cashSlots

def cashAfter (r : OrderStateReport) : ClientStatesWriter (FiniteMap UInt32 UInt32) :=
  (cashEvents r).foldl handle (new fun _ => ⟨0, 0, 0, 0, 0, 0, 0, 0, 0, .add⟩)

/-- A fill of 100 that the login does not contain. -/
theorem replay_matches_live_fill :
    let fill : OrderStateReport := ⟨1, -100, -100, 2, 3, 1, 1, 1, 0, .partialFill⟩
    (cashAfter fill).stale cashLogin = false ∧
    (((cashAfter fill).handleResponse cashLogin).states.getClientState 7).toFunds =
      (([fill].foldl handleReport ((cashAfter fill).install cashLogin)).states.getClientState
        7).toFunds := by
  intro fill
  have hnumbers : Consecutive 1 ((cashEvents fill).flatMap Event.received) := by
    intro i r hr
    match i with
    | 0 => cases hr; rfl
    | 1 => cases hr; rfl
    | i + 2 => cases hr
  have hreplay := replay_matches_live (M := FiniteMap UInt32 UInt32)
    (fun _ => ⟨0, 0, 0, 0, 0, 0, 0, 0, 0, .add⟩)
    (cashEvents fill) 1 hnumbers cashLogin (by decide) (by decide) (by decide)
  have hstale := hreplay.1 (by decide)
  have halike : (cashAfter fill).EachAlike cashLogin [fill] := fun r hr =>
    ⟨cashWriter_clientsFd r.clientId, fun _ => by
      rw [List.mem_singleton.1 hr]
      decide⟩
  exact ⟨hstale, (hreplay.2.1 hstale).2 (hreplay.2.2 halike)⟩

/-- The order is cancelled. After the login and then the cancellation nothing is reserved; after the
cancellation and then the login, which is not skipped, 300 stay reserved for good. -/
theorem replayed_cancel :
    let cancel : OrderStateReport := ⟨0, 0, -300, 2, 3, 1, 0, 1, 0, .cancel⟩
    (cashAfter cancel).stale cashLogin = false ∧
    (((cashAfter cancel).handleResponse cashLogin).states.getClientState 7).attempt
      ⟨0, by decide⟩ = 300 ∧
    ((([cancel].foldl handleReport ((cashAfter cancel).install cashLogin)).states.getClientState
      7).attempt ⟨0, by decide⟩ = 0) := by
  decide +kernel

end ClientStatesWriter

end Naoto.Gateway
