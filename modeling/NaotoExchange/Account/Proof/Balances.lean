import NaotoExchange.Account.Proof.ClientStates

/-!
# What reports do to the balances

Handling a batch adds both legs of each report to the balances of its client, in every slot of the
leg's asset, and publishes them: `Books.handle`, and for any batching `Books.handleAll`.
-/

namespace Naoto.Account

/-- Both legs of a report. -/
def creditReport (slots : AssetSlots) (r : OrderStateReport) (f : Funds) : Funds :=
  (f.credit slots r.boughtDelta 0 r.boughtAssetId).credit slots r.soldDelta r.soldAttemptDelta
    r.soldAssetId

section
variable (init : UInt32 → ClientState)

/-- The balances after a report, for the slots that the clients have. -/
def creditClient (w : UInt32 → Funds) (r : OrderStateReport) : UInt32 → Funds :=
  Function.update w r.clientId (creditReport (init r.clientId).assetId r (w r.clientId))

theorem creditClients_other {id : UInt32} {rs : List OrderStateReport}
    (h : id ∉ rs.map OrderStateReport.clientId) (w : UInt32 → Funds) :
    rs.foldl (creditClient init) w id = w id := by
  induction rs generalizing w with
  | nil => rfl
  | cons r rs ih =>
    rw [List.map_cons, List.mem_cons, not_or] at h
    rw [List.foldl_cons, ih h.2]
    exact Function.update_of_ne h.1 _ _

end

namespace ClientStates

variable {init : UInt32 → ClientState} {s : ClientStates} {w p : UInt32 → Funds}

/-- The working balances of the clients are `w`, the published ones are `p`. -/
structure Books (init : UInt32 → ClientState) (s : ClientStates) (w p : UInt32 → Funds) : Prop where
  steady : Steady init s
  shown : ∀ id, (s id).Shows ((s id).written, w id) ((s id).published, p id)

theorem new_books (init : UInt32 → ClientState) :
    Books init (new init) (fun id => (init id).toFunds) fun id => (init id).toFunds :=
  ⟨new_steady, fun _ => TripleBuffer.new_shows _ _⟩

theorem Books.update (h : Books init s w p) {id : UInt32} {t : TripleBuffer BufferInfo Funds}
    {working shown : BufferInfo × Funds} (hsteady : Steady init (Function.update s id t))
    (ht : t.Shows working shown) :
    Books init (Function.update s id t) (Function.update w id working.2)
      (Function.update p id shown.2) := by
  refine ⟨hsteady, fun id' => ?_⟩
  by_cases heq : id' = id
  · subst heq
    rw [Function.update_self, Function.update_self, Function.update_self]
    exact ht.values
  · rw [Function.update_of_ne heq, Function.update_of_ne heq, Function.update_of_ne heq]
    exact h.shown id'

theorem Books.setClientAssets (h : Books init s w p) (id : UInt32) (confirmed attempt : Int64)
    (assetId : UInt16) (sequenceId : UInt64) :
    Books init (s.setClientAssets id confirmed attempt assetId sequenceId)
      (Function.update w id ((w id).credit (init id).assetId confirmed attempt assetId)) p := by
  have hslots : (s id).written.assetId = (init id).assetId :=
    congrArg ClientInfo.assetId (h.steady id).2
  have hpending : (s id).total + (s id).pending.credit
      (s id).written.assetId confirmed attempt assetId =
      (w id).credit (init id).assetId confirmed attempt assetId := by
    rw [Funds.add_credit, (h.shown id).next, hslots]
  have hnew := h.update (h.steady.setClientAssets id confirmed attempt assetId sequenceId)
    (((h.shown id).setPending hpending).setWritten { (s id).written with sequenceId := sequenceId })
  rw [Function.update_eq_self] at hnew
  exact hnew

theorem Books.applyReport (h : Books init s w p) (r : OrderStateReport) :
    Books init (s.applyReport r) (creditClient init w r) p := by
  have hboth := (h.setClientAssets r.clientId r.boughtDelta 0 r.boughtAssetId
    r.sequenceId.toUInt64).setClientAssets r.clientId r.soldDelta r.soldAttemptDelta r.soldAssetId
    r.sequenceId.toUInt64
  rw [Function.update_self, Function.update_idem] at hboth
  exact hboth

theorem Books.applyReports (h : Books init s w p) (rs : List OrderStateReport) :
    Books init (rs.foldl ClientStates.applyReport s) (rs.foldl (creditClient init) w) p := by
  induction rs generalizing s w with
  | nil => exact h
  | cons r rs ih => exact ih (h.applyReport r)

/-- The loop that flushes: whoever is not up to date is among its ids. -/
theorem Books.flushTouched {ids : List UInt32} (h : Books init s w p)
    (hrest : ∀ id, id ∉ ids → p id = w id) :
    Books init (flushTouched ClientStates.flushTripleBuffer s ids []) w w := by
  have hself : ∀ (s : ClientStates) id, s.flushTripleBuffer id id = (s id).flush :=
    fun s id => Function.update_self ..
  have hother : ∀ (s : ClientStates) id id', id' ≠ id → s.flushTripleBuffer id id' = s id' :=
    fun s id id' hne => Function.update_of_ne hne ..
  refine ⟨flushTouched_invariant (fun _ id hs => hs.flushTripleBuffer id) h.steady, fun id => ?_⟩
  have hflush := flushTouched_apply (fun s : ClientStates => s)
    (fun t => t.flush) hself hother s ids [] id
  rw [hflush]
  by_cases hid : id ∈ ids
  · rw [if_pos ⟨hid, List.not_mem_nil⟩]
    exact (h.shown id).flush.values
  · rw [if_neg fun hin => hid hin.1, ← hrest id hid]
    have hshown := h.shown id
    rw [← hrest id hid] at hshown
    exact hshown

/-- **A batch credits its reports and publishes the result.** -/
theorem Books.handle (h : Books init s w w) (batch : List OrderStateReport) :
    Books init (s.handle batch) (batch.foldl (creditClient init) w)
    (batch.foldl (creditClient init) w) :=
  (h.applyReports batch).flushTouched fun _ hid => (creditClients_other init hid w).symm

/-- **The batching does not matter.** -/
theorem Books.handleAll (h : Books init s w w) (batches : List (List OrderStateReport)) :
    Books init (batches.foldl ClientStates.handle s) (batches.flatten.foldl (creditClient init) w)
      (batches.flatten.foldl (creditClient init) w) := by
  induction batches generalizing s w with
  | nil => exact h
  | cons batch batches ih =>
    rw [List.foldl_cons, List.flatten_cons, List.foldl_append]
    exact ih (h.handle batch)

theorem Books.getClientState (h : Books init s w p) (id : UInt32) :
    (s.getClientState id).assetId = (init id).assetId ∧ (s.getClientState id).toFunds = p id := by
  refine ⟨congrArg ClientInfo.assetId (h.steady id).1, ?_⟩
  exact (h.shown id).total

theorem Books.handleCalls (h : Books init s w w) (calls : List ReportCall) :
    Books init (calls.foldl ClientStates.handleCall s)
      ((calls.flatMap ReportCall.reports).foldl (creditClient init) w)
      ((calls.flatMap ReportCall.reports).foldl (creditClient init) w) := by
  have hcalls : calls.foldl ClientStates.handleCall s =
      (calls.map ReportCall.reports).foldl ClientStates.handle s := by
    rw [List.foldl_map]
    exact congrArg (fun f => calls.foldl f s)
      (funext fun s => funext fun call => s.handleCall_eq call)
  rw [hcalls, List.flatMap_def]
  exact h.handleAll (calls.map ReportCall.reports)

/-! ## States that the writer's calls lead to -/

/-- The writer's calls on a client. -/
inductive Call where
  | setClientState (state : ClientState) (sequenceId : UInt64)
  | setClientAssets (clientId : UInt32) (confirmed attempt : Int64) (assetId : UInt16)
      (sequenceId : UInt64)
  | flushTripleBuffer (clientId : UInt32)

/-- The call on the client states. -/
def call (s : ClientStates) : Call → ClientStates
  | .setClientState state sequenceId => s.setClientState state sequenceId
  | .setClientAssets clientId confirmed attempt assetId sequenceId =>
    s.setClientAssets clientId confirmed attempt assetId sequenceId
  | .flushTripleBuffer clientId => s.flushTripleBuffer clientId

/-- Nothing is written that is not published. -/
def Unstaged (s : ClientStates) : Prop :=
  ∀ id, (s id).written = (s id).published ∧ (s id).pending = 0

theorem synced_call (h : ∀ id, (s id).Synced) (c : Call) : ∀ id, (s.call c id).Synced := by
  cases c with
  | setClientState state sequenceId =>
    exact TripleBuffer.synced_update h _ (((h _).setPending _).setWritten _)
  | setClientAssets clientId confirmed attempt assetId sequenceId =>
    exact TripleBuffer.synced_update h _ (((h _).setPending _).setWritten _)
  | flushTripleBuffer clientId => exact TripleBuffer.synced_update h _ (h _).flush

theorem synced_calls (init : UInt32 → ClientState) (calls : List Call) :
    ∀ id, (calls.foldl call (new init) id).Synced := by
  induction calls using List.reverseRecOn with
  | nil => exact fun _ => TripleBuffer.new_synced _ _
  | append_singleton calls c ih =>
    rw [List.foldl_append]
    exact synced_call ih c

/-- The published states with their balances, nothing being staged. -/
theorem Unstaged.books (h : s.Unstaged) (hsynced : ∀ id, (s id).Synced) :
    Books s.getClientState s (fun id => (s id).total) fun id => (s id).total := by
  refine ⟨fun id => ⟨rfl, congrArg BufferInfo.toClientInfo (h id).1⟩, fun id => ?_⟩
  exact ⟨hsynced id, rfl, by rw [(h id).2, add_zero], rfl, rfl⟩

end ClientStates

end Naoto.Account
