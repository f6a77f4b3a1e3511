import NaotoExchange.Gateway.ClientStates

/-!
# The gateway's triple buffer as a single copy

What a descriptor's three buffers and three deltas are for: a working copy that the writer changes
in place, and a published copy that becomes the working one at a flush (`SingleCopy`).
`run_single_copy`: after any calls, on any descriptors, `GetClientState` returns the published copy
of the descriptor's own calls.
-/

namespace Naoto.Gateway

/-- The writer's calls on a descriptor. -/
inductive StatesCall where
  | setClientAssets (confirmed attempt : Int64) (assetId : UInt16)
  | setClientState (response : ClientAccountSnapshot)
  | setAuthStatus (auth : UInt8)
  | flushTripleBuffer
  deriving DecidableEq

/-- The call, on the descriptor `fd`. -/
def ClientStates.call (s : ClientStates) (fd : UInt32) : StatesCall → ClientStates
  | .setClientAssets confirmed attempt assetId => s.setClientAssets fd confirmed attempt assetId
  | .setClientState response => s.setClientState { response with clientFd := fd }
  | .setAuthStatus auth => s.setAuthStatus fd auth
  | .flushTripleBuffer => s.flushTripleBuffer fd

/-- Two copies of a client's state. -/
structure SingleCopy where
  working : ClientState
  published : ClientState

namespace SingleCopy

/-- The state of a descriptor on which nobody has logged in. -/
def zero : ClientState where
  clientId := 0
  assetId := fun _ => 0
  auth := 0
  sessionId := 0
  confirmed := fun _ => 0
  attempt := fun _ => 0

/-- Nothing written, nothing published. -/
def new : SingleCopy := ⟨zero, zero⟩

/-- The calls on two copies; the flag that `SetAuthStatus` stores is 0 or 1. -/
def call (m : SingleCopy) : StatesCall → SingleCopy
  | .setClientAssets confirmed attempt assetId =>
    let w := m.working
    { m with working := { w with
        confirmed := fun i =>
          if w.assetId i = assetId then w.confirmed i + confirmed else w.confirmed i
        attempt := fun i => if w.assetId i = assetId then w.attempt i + attempt else w.attempt i } }
  | .setClientState response =>
    { m with working :=
        { clientId := response.clientId
          assetId := response.assetId
          auth := 1
          sessionId := m.working.sessionId + 1
          confirmed := response.confirmed
          attempt := response.attempt } }
  | .setAuthStatus auth =>
    { m with working := { m.working with auth := if auth = 0 then 0 else 1 } }
  | .flushTripleBuffer => { m with published := m.working }

end SingleCopy

/-- The buffers of a descriptor stand for the two copies. -/
def Copied (t : TripleBuffer ClientInfo Funds) (m : SingleCopy) : Prop :=
  t.Shows (m.working.toClientInfo, m.working.toFunds)
    (m.published.toClientInfo, m.published.toFunds)

section
variable {t : TripleBuffer ClientInfo Funds} {m : SingleCopy} {s : ClientStates} {fd : UInt32}

theorem Copied.setClientAssets (h : Copied (s fd) m) (confirmed attempt : Int64)
    (assetId : UInt16) : Copied (s.setClientAssets fd confirmed attempt assetId fd)
      (m.call (.setClientAssets confirmed attempt assetId)) := by
  unfold ClientStates.setClientAssets
  rw [Function.update_self]
  apply h.setPending
  rw [Funds.add_credit, h.next, h.written]
  rfl

theorem Copied.setClientState (h : Copied (s fd) m) (response : ClientAccountSnapshot) :
    Copied (s.setClientState { response with clientFd := fd } fd)
    (m.call (.setClientState response)) := by
  unfold ClientStates.setClientState
  dsimp only
  rw [Function.update_self, h.written]
  exact (h.setWritten _).setPending (add_sub_cancel _ _)

theorem Copied.setAuthStatus (h : Copied (s fd) m) (auth : UInt8) :
    Copied (s.setAuthStatus fd auth fd) (m.call (.setAuthStatus auth)) := by
  unfold ClientStates.setAuthStatus
  dsimp only
  rw [Function.update_self, h.written]
  exact h.setWritten _

theorem Copied.flushTripleBuffer (h : Copied (s fd) m) :
    Copied (s.flushTripleBuffer fd fd) (m.call .flushTripleBuffer) := by
  unfold ClientStates.flushTripleBuffer
  rw [Function.update_self]
  exact h.flush

/-- **A call does to the buffers what it does to the copies.** -/
theorem Copied.call (h : Copied (s fd) m) (c : StatesCall) :
    Copied (s.call fd c fd) (m.call c) := by
  cases c with
  | setClientAssets confirmed attempt assetId => exact h.setClientAssets confirmed attempt assetId
  | setClientState response => exact h.setClientState response
  | setAuthStatus auth => exact h.setAuthStatus auth
  | flushTripleBuffer => exact h.flushTripleBuffer

theorem call_other {fd' : UInt32} (h : fd' ≠ fd) (c : StatesCall) : s.call fd c fd' = s fd' := by
  cases c <;> exact Function.update_of_ne h _ _

theorem Copied.getClientState (h : Copied (s fd) m) : s.getClientState fd = m.published := by
  unfold ClientStates.getClientState
  rw [h.published, h.total]

end

/-- The calls on one descriptor. -/
def callsOn (fd : UInt32) (calls : List (UInt32 × StatesCall)) : List StatesCall :=
  (calls.filter fun c => c.1 = fd).map Prod.snd

theorem run_copied (calls : List (UInt32 × StatesCall)) (fd : UInt32) :
    Copied (calls.foldl (fun s c => s.call c.1 c.2) ClientStates.new fd)
      ((callsOn fd calls).foldl SingleCopy.call SingleCopy.new) := by
  induction calls using List.reverseRecOn with
  | nil => exact TripleBuffer.new_shows _ _
  | append_singleton calls c ih =>
    unfold callsOn
    rw [List.foldl_append, List.filter_append, List.map_append, List.foldl_append,
      List.filter_singleton]
    by_cases hfd : c.1 = fd
    · subst hfd
      simp only [decide_true]
      exact ih.call c.2
    · simp only [hfd, decide_false]
      rw [List.foldl_cons, List.foldl_nil, call_other fun h => hfd h.symm]
      exact ih

/-- **The triple buffer equals a single copy**, at every descriptor and after any calls. -/
theorem run_single_copy (calls : List (UInt32 × StatesCall)) (fd : UInt32) :
    (calls.foldl (fun s c => s.call c.1 c.2) ClientStates.new).getClientState fd =
      ((callsOn fd calls).foldl SingleCopy.call SingleCopy.new).published :=
  (run_copied calls fd).getClientState

end Naoto.Gateway
