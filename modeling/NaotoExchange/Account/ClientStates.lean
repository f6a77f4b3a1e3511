import NaotoExchange.Common.ClientStates

/-!
# The account service's client states

`account_service/include/client_state.hpp` and `client_states.hpp`, indexed by client id. An id
beyond the vectors is undefined behaviour in the source; here every id has a state.
-/

namespace Naoto.Account

/-- A SHA-256 hash, or the key it is made of. -/
abbrev Key := Fin 32 → UInt8

/-- A `ClientState` without its balances. -/
structure ClientInfo where
  clientId : UInt32
  key : Key
  assetId : AssetSlots
  /-- The gateway of the client, -1 if there is none. -/
  authorized : Int16
  connected : Int16
  deriving DecidableEq

/-- An account. -/
structure ClientState extends ClientInfo, Funds

theorem ClientState.eq_of_parts {a b : ClientState} (hinfo : a.toClientInfo = b.toClientInfo)
    (hfunds : a.toFunds = b.toFunds) : a = b := by
  cases a
  cases b
  cases hinfo
  cases hfunds
  rfl

/-- `sha256` is a parameter: `CheckKey` only compares its result byte by byte. -/
def ClientState.checkKey (sha256 : Key → Key) (c : ClientState) (key : Key) : Bool :=
  (List.finRange 32).all fun i => sha256 key i == c.key i

/-- What one of the three buffers holds of a client besides the balances. -/
structure BufferInfo extends ClientInfo where
  sequenceId : UInt64

/-- One triple buffer per client. -/
abbrev ClientStates := UInt32 → TripleBuffer BufferInfo Funds

namespace ClientStates

/-- The accounts that the service starts with. -/
def new (states : UInt32 → ClientState) : ClientStates := fun id =>
  .new ⟨(states id).toClientInfo, 0⟩ (states id).toFunds

/-- What is published, as one copy. -/
def getClientState (s : ClientStates) (clientId : UInt32) : ClientState :=
  { (s clientId).published.toClientInfo, (s clientId).total with }

/-- No writer calls it; `Deltas` is added to, not overwritten. -/
def setClientState (s : ClientStates) (clientState : ClientState) (sequenceId : UInt64) :
    ClientStates :=
  let t := s clientState.clientId
  Function.update s clientState.clientId
    ((t.setPending (t.pending + (clientState.toFunds - t.total))).setWritten
      { clientState.toClientInfo with sequenceId := sequenceId })

/-- The amounts go to the pending deltas of the slots that hold the asset. -/
def setClientAssets (s : ClientStates) (clientId : UInt32) (confirmed attempt : Int64)
    (assetId : UInt16) (sequenceId : UInt64) : ClientStates :=
  let t := s clientId
  let toChange := t.written
  Function.update s clientId
    ((t.setPending (t.pending.credit toChange.assetId confirmed attempt assetId)).setWritten
      { toChange with sequenceId := sequenceId })

/-- The store of `Complete`: what was written is published. -/
def flushTripleBuffer (s : ClientStates) (clientId : UInt32) : ClientStates :=
  Function.update s clientId (s clientId).flush

/-- `ClientStatesWriter::Handle`, the first loop: both legs of a report. -/
def applyReport (s : ClientStates) (report : OrderStateReport) : ClientStates :=
  (s.setClientAssets report.clientId report.boughtDelta 0 report.boughtAssetId
    report.sequenceId.toUInt64).setClientAssets report.clientId report.soldDelta
    report.soldAttemptDelta report.soldAssetId report.sequenceId.toUInt64

/-- `ClientStatesWriter::Handle` of a batch. -/
def handle (s : ClientStates) (reportBatch : List OrderStateReport) : ClientStates :=
  flushTouched flushTripleBuffer (reportBatch.foldl applyReport s)
    (reportBatch.map OrderStateReport.clientId) []

/-- `ClientStatesWriter::Handle` of a single report. -/
def handleReport (s : ClientStates) (report : OrderStateReport) : ClientStates :=
  (s.applyReport report).flushTripleBuffer report.clientId

/-- The two entry points for reports. -/
def handleCall (s : ClientStates) : ReportCall → ClientStates
  | .one report => s.handleReport report
  | .batch reports => s.handle reports

theorem handleCall_eq (s : ClientStates) (call : ReportCall) :
    s.handleCall call = s.handle call.reports := by
  cases call with
  | one report => rfl
  | batch reports => rfl

end ClientStates

end Naoto.Account
