import NaotoExchange.Account.ClientStates

/-!
# What trade reports leave alone

A report changes balances only: the key and the gateway of a client stay what they were.
-/

namespace Naoto.Account.ClientStates

/-- The published and the written buffer of every client have the client's own data. -/
def Steady (init : UInt32 → ClientState) (s : ClientStates) : Prop :=
  ∀ id, (s id).published.toClientInfo = (init id).toClientInfo ∧
    (s id).written.toClientInfo = (init id).toClientInfo

variable {init : UInt32 → ClientState} {s : ClientStates}

theorem new_steady : Steady init (new init) := fun _ => ⟨rfl, rfl⟩

theorem Steady.update (h : Steady init s) {id : UInt32} {t : TripleBuffer BufferInfo Funds}
    (hp : t.published.toClientInfo = (init id).toClientInfo)
    (hw : t.written.toClientInfo = (init id).toClientInfo) :
    Steady init (Function.update s id t) := by
  intro id'
  by_cases heq : id' = id
  · subst heq
    rw [Function.update_self]
    exact ⟨hp, hw⟩
  · rw [Function.update_of_ne heq]
    exact h id'

theorem Steady.setClientAssets (h : Steady init s) (id : UInt32) (confirmed attempt : Int64)
    (assetId : UInt16) (sequenceId : UInt64) :
    Steady init (s.setClientAssets id confirmed attempt assetId sequenceId) := by
  apply h.update
  · rw [TripleBuffer.published_setWritten, TripleBuffer.published_setPending]
    exact (h id).1
  · rw [TripleBuffer.written_setWritten]
    exact (h id).2

theorem Steady.flushTripleBuffer (h : Steady init s) (id : UInt32) :
    Steady init (s.flushTripleBuffer id) := by
  apply h.update
  · rw [TripleBuffer.published_flush]
    exact (h id).2
  · rw [TripleBuffer.written_flush]
    exact (h id).2

theorem Steady.applyReport (h : Steady init s) (report : OrderStateReport) :
    Steady init (s.applyReport report) := by
  unfold ClientStates.applyReport
  apply Steady.setClientAssets
  apply Steady.setClientAssets
  exact h

theorem Steady.applyReports : ∀ (batch : List OrderStateReport) {s : ClientStates}, Steady init s →
    Steady init (batch.foldl ClientStates.applyReport s)
  | [], _, h => h
  | report :: batch, _, h => Steady.applyReports batch (h.applyReport report)

theorem Steady.handle (h : Steady init s) (batch : List OrderStateReport) :
    Steady init (s.handle batch) :=
  flushTouched_invariant (fun _ id hs => hs.flushTripleBuffer id) (h.applyReports batch)

end Naoto.Account.ClientStates
