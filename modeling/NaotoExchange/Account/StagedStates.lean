import NaotoExchange.Lib.Run
import NaotoExchange.Account.Proof.Balances

/-!
# The account service's triple buffer as a staging area

What a client's three buffers and three deltas are for: a published state, and next to it what the
next flush is to publish, namely the balances of a state that was set, or else the published ones,
and the deltas staged since the last flush (`Staging`). `run_staged`: `GetClientState` returns the
published state after any calls, on any clients, if no client gets two states between two flushes.
With two the first one is not replaced but added (`second_state_adds`): `SetClientState` adds the
difference to the published balances to the deltas that are there.
-/

namespace Naoto.Account

open Run

/-- A client's published state and what is staged on top of it. -/
structure Staging where
  published : ClientState
  /-- All but the balances, of the last state that was set. -/
  info : ClientInfo
  /-- The balances of the state set since the last flush, or else the published ones. -/
  base : Funds
  /-- What was added since the last flush. -/
  deltas : Funds
  /-- A state has been set since the last flush. -/
  replaced : Bool

namespace Staging

/-- Published, and nothing staged. -/
def new (state : ClientState) : Staging := ⟨state, state.toClientInfo, state.toFunds, 0, false⟩

/-- The calls on a client, as they are meant. -/
def call (a : Staging) : ClientStates.Call → Staging
  | .setClientState state _ =>
    { a with info := state.toClientInfo, base := state.toFunds, replaced := true }
  | .setClientAssets _ confirmed attempt assetId _ =>
    { a with deltas := a.deltas.credit a.info.assetId confirmed attempt assetId }
  | .flushTripleBuffer _ =>
    { a with
      published := { a.info, a.base + a.deltas with }
      base := a.base + a.deltas
      deltas := 0
      replaced := false }

/-- A state is set only if none was since the last flush. -/
def Single (a : Staging) : ClientStates.Call → Prop
  | .setClientState _ _ => a.replaced = false
  | .setClientAssets .. | .flushTripleBuffer _ => True

instance (a : Staging) (c : ClientStates.Call) : Decidable (a.Single c) :=
  match c with
  | .setClientState _ _ => inferInstanceAs (Decidable (a.replaced = false))
  | .setClientAssets .. | .flushTripleBuffer _ => inferInstanceAs (Decidable True)

end Staging

/-- The client that a call is about. -/
def ClientStates.Call.clientId : ClientStates.Call → UInt32
  | .setClientState state _ => state.clientId
  | .setClientAssets clientId .. | .flushTripleBuffer clientId => clientId

/-- The calls on one client. -/
def callsOn (id : UInt32) (calls : List ClientStates.Call) : List ClientStates.Call :=
  calls.filter fun c => c.clientId = id

theorem callsOn_snoc (id : UInt32) (calls : List ClientStates.Call) (c : ClientStates.Call) :
    callsOn id (calls ++ [c]) = if c.clientId = id then callsOn id calls ++ [c] else
    callsOn id calls := by
  unfold callsOn
  rw [List.filter_append]
  by_cases hid : c.clientId = id
  · simp [hid]
  · simp [hid]

/-- The buffers of a client stand for the staging area. -/
structure Stages (t : TripleBuffer BufferInfo Funds) (a : Staging) : Prop where
  shown : t.Shows (t.written, a.base + a.deltas) (t.published, a.published.toFunds)
  written : t.written.toClientInfo = a.info
  published : t.published.toClientInfo = a.published.toClientInfo
  base : a.replaced = false → a.base = a.published.toFunds

theorem new_stages (init : UInt32 → ClientState) (id : UInt32) :
    Stages (ClientStates.new init id) (.new (init id)) where
  shown := by
    show TripleBuffer.Shows _ (_, (init id).toFunds + 0) _
    rw [add_zero]
    exact TripleBuffer.new_shows _ _
  written := rfl
  published := rfl
  base := fun _ => rfl

section
variable {s : ClientStates} {a : Staging} {id : UInt32}

theorem Stages.setClientState {state : ClientState} (h : Stages (s state.clientId) a)
    (sequenceId : UInt64) (hsingle : a.replaced = false) :
    Stages (s.setClientState state sequenceId state.clientId)
    (a.call (.setClientState state sequenceId)) := by
  have hsum : (s state.clientId).total + ((s state.clientId).pending +
      (state.toFunds - (s state.clientId).total)) = state.toFunds + a.deltas := by
    rw [← add_assoc, h.shown.next, h.base hsingle, h.shown.total]
    show a.published.toFunds + a.deltas + (state.toFunds - a.published.toFunds) = _
    abel
  unfold ClientStates.setClientState
  dsimp only
  rw [Function.update_self]
  have hshown := (h.shown.setPending hsum).setWritten
    { state.toClientInfo with sequenceId := sequenceId }
  exact ⟨hshown.values, by rw [TripleBuffer.written_setWritten]; rfl,
    by rw [TripleBuffer.published_setWritten]; exact h.published, fun hf => by cases hf⟩

theorem Stages.setClientAssets (h : Stages (s id) a) (confirmed attempt : Int64) (assetId : UInt16)
    (sequenceId : UInt64) : Stages (s.setClientAssets id confirmed attempt assetId sequenceId id)
      (a.call (.setClientAssets id confirmed attempt assetId sequenceId)) := by
  have hslots : (s id).written.assetId = a.info.assetId := congrArg ClientInfo.assetId h.written
  have hsum : (s id).total + (s id).pending.credit
      (s id).written.assetId confirmed attempt assetId =
      a.base + a.deltas.credit a.info.assetId confirmed attempt assetId := by
    rw [Funds.add_credit, h.shown.next, hslots, Funds.add_credit]
  unfold ClientStates.setClientAssets
  rw [Function.update_self]
  have hshown := (h.shown.setPending hsum).setWritten
    { (s id).written with sequenceId := sequenceId }
  exact ⟨hshown.values, by rw [TripleBuffer.written_setWritten]; exact h.written,
    by rw [TripleBuffer.published_setWritten]; exact h.published, h.base⟩

theorem Stages.flushTripleBuffer (h : Stages (s id) a) :
    Stages (s.flushTripleBuffer id id) (a.call (.flushTripleBuffer id)) := by
  unfold ClientStates.flushTripleBuffer
  rw [Function.update_self]
  refine ⟨?_, by rw [TripleBuffer.written_flush]; exact h.written,
    by rw [TripleBuffer.published_flush]; exact h.written, fun _ => rfl⟩
  have hshown := h.shown.flush.values
  show TripleBuffer.Shows _ (_, a.base + a.deltas + 0) (_, a.base + a.deltas)
  rw [add_zero]
  exact hshown

/-- **A call does to the buffers what it does to the staging area.** -/
theorem Stages.call {c : ClientStates.Call} (h : Stages (s c.clientId) a) (hc : a.Single c) :
    Stages (s.call c c.clientId) (a.call c) := by
  cases c with
  | setClientState state sequenceId => exact h.setClientState sequenceId hc
  | setClientAssets clientId confirmed attempt assetId sequenceId =>
    exact h.setClientAssets confirmed attempt assetId sequenceId
  | flushTripleBuffer clientId => exact h.flushTripleBuffer

theorem ClientStates.call_other {c : ClientStates.Call} (h : id ≠ c.clientId) :
    s.call c id = s id := by
  cases c <;> exact Function.update_of_ne h _ _

end

/-- **The triple buffer publishes what was staged**: at every client, after any calls, of which no
two on that client set a state between two flushes. -/
theorem run_staged (init : UInt32 → ClientState) (calls : List ClientStates.Call) (id : UInt32)
    (hsingle : Through Staging.Single Staging.call (.new (init id)) (callsOn id calls)) :
    (calls.foldl ClientStates.call (.new init)).getClientState id =
      ((callsOn id calls).foldl Staging.call (.new (init id))).published := by
  have hstages : Stages (calls.foldl ClientStates.call (.new init) id)
      ((callsOn id calls).foldl Staging.call (.new (init id))) := by
    induction calls using List.reverseRecOn with
    | nil => exact new_stages init id
    | append_singleton calls c ih =>
      rw [List.foldl_append, callsOn_snoc]
      rw [callsOn_snoc] at hsingle
      by_cases hid : c.clientId = id
      · subst hid
        rw [if_pos rfl] at hsingle ⊢
        rw [List.foldl_append]
        exact (ih (hsingle.restrict (List.prefix_append _ _))).call
          (hsingle _ c (List.prefix_refl _))
      · rw [if_neg hid] at hsingle ⊢
        rw [List.foldl_cons, List.foldl_nil, ClientStates.call_other (Ne.symm hid)]
        exact ih hsingle
  have htotal := hstages.shown.total
  unfold ClientStates.getClientState
  rw [hstages.published, htotal]

/-- A state of client 1 with one balance, in all slots of asset 5. -/
def stateOf (balance : Int64) : ClientState where
  clientId := 1
  key := fun _ => 0
  assetId := fun _ => 5
  authorized := 0
  connected := 0
  confirmed := fun _ => balance
  attempt := fun _ => 0

/-- A delta, a state, another delta, a call on another client and a flush. -/
def sampleCalls : List ClientStates.Call :=
  [.setClientAssets 1 7 1 5 1, .setClientState (stateOf 100) 2, .setClientAssets 1 3 2 5 3,
   .setClientAssets 2 9 9 5 4, .flushTripleBuffer 1]

theorem run_staged_sample :
    ((sampleCalls.foldl ClientStates.call (.new fun _ => stateOf 0)).getClientState 1).confirmed =
      fun _ => 110 := by
  rw [run_staged (fun _ => stateOf 0) sampleCalls 1 (by decide +kernel)]
  decide +kernel

/-- **A second state before the flush adds to the first**: 100 and then 200 are published as 300. -/
theorem second_state_adds :
    let calls : List ClientStates.Call :=
      [.setClientState (stateOf 100) 1, .setClientState (stateOf 200) 2, .flushTripleBuffer 1]
    ((calls.foldl ClientStates.call (.new fun _ => stateOf 0)).getClientState 1).confirmed =
      (fun _ => 300) ∧
      (((callsOn 1 calls).foldl Staging.call (.new (stateOf 0))).published).confirmed = fun _ =>
      200 := by
  decide +kernel

end Naoto.Account
