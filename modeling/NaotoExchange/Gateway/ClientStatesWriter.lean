import NaotoExchange.Common.KeyMap
import NaotoExchange.Gateway.ClientStates

/-!
# The gateway's writer

`order_gateway/include/client_states_writer.hpp`. `ClientsFd` is a table of type `M`: a result that
does not depend on how the table works holds for every `M`, the source's `FlatHashMap` among them,
and `FiniteMap` is the instance where the table is taken as first-insert-wins.

The constructor sets only the sequence ids of `UpdatesBuffer`; what else is in it is the argument
`memory` of `new`.
-/

namespace Naoto.Gateway

/-- The operations of `ClientsFd`. -/
class ClientFdMap (M : Type) where
  empty : M
  getVal : M → UInt32 → Option UInt32
  addNode : M → UInt32 → UInt32 → M
  deleteNode : M → UInt32 → M

instance : ClientFdMap (FiniteMap UInt32 UInt32) where
  empty := FiniteMap.empty
  getVal := FiniteMap.getVal
  addNode := FiniteMap.addNode
  deleteNode := FiniteMap.deleteNode

/-- The table of the source. A call that does not end leaves no table to go on with; the old one
stands for it. -/
instance : ClientFdMap (FlatHashMap UInt32 UInt32 gatewayMaxClients) where
  empty := KeyMap.empty
  getVal := KeyMap.getVal
  addNode := fun m k v => (KeyMap.addNode m k v).toOption.getD m
  deleteNode := fun m k => (KeyMap.deleteNode m k).toOption.getD m

open ClientFdMap

/-- The thread that keeps the gateway's client states up to date. -/
structure ClientStatesWriter (M : Type) where
  states : ClientStates
  clientsFd : M
  updatesBuffer : Nat → OrderStateReport
  lastSeq : UInt64

namespace ClientStatesWriter

section
variable {M : Type} [ClientFdMap M]

/-- No client is mapped. No slot of the ring holds the number that belongs there, so none can be
replayed before it was received. -/
def new (memory : Nat → OrderStateReport) : ClientStatesWriter M where
  states := .new
  clientsFd := empty
  updatesBuffer := fun i => { memory i with sequenceId := UInt32.ofNat (i + 1) }
  lastSeq := 0

variable (w : ClientStatesWriter M)

/-! ## Trade reports -/

/-- `seq & (GatewayUpdateBufferSize - 1)`. -/
def bufferIdx (seq : Nat) : Nat := seq &&& (gatewayUpdateBufferSize - 1)

/-- The first loop of a report batch. An add is already in the local attempts. -/
def applyReport (report : OrderStateReport) : ClientStatesWriter M :=
  let w := { w with
    lastSeq := report.sequenceId.toUInt64
    updatesBuffer := Function.update w.updatesBuffer (bufferIdx report.sequenceId.toNat) report }
  match getVal w.clientsFd report.clientId with
  | none => w
  | some clientFd =>
    let attempt := if report.state = .add then 0 else report.soldAttemptDelta
    let states := w.states.setClientAssets clientFd report.boughtDelta 0 report.boughtAssetId
    { w with states := states.setClientAssets clientFd report.soldDelta attempt report.soldAssetId }

/-- What was staged for the descriptor is published. -/
def flush (clientFd : UInt32) : ClientStatesWriter M :=
  { w with states := w.states.flushTripleBuffer clientFd }

/-- All reports of the batch are applied, then each descriptor they touched is flushed once. -/
def handleReports (reportBatch : List OrderStateReport) : ClientStatesWriter M :=
  let w := reportBatch.foldl applyReport w
  flushTouched flush w (reportBatch.filterMap fun r => getVal w.clientsFd r.clientId) []

/-- `Handle` of a single report. -/
def handleReport (report : OrderStateReport) : ClientStatesWriter M :=
  let w := w.applyReport report
  match getVal w.clientsFd report.clientId with
  | none => w
  | some clientFd => w.flush clientFd

/-- The two entry points for reports. -/
def handleCall : ReportCall → ClientStatesWriter M
  | .one report => w.handleReport report
  | .batch reports => w.handleReports reports

theorem handleCall_eq (call : ReportCall) : w.handleCall call = w.handleReports call.reports := by
  cases call with
  | batch reports => rfl
  | one report =>
    simp only [handleCall, handleReport, handleReports, ReportCall.reports, List.foldl_cons,
      List.foldl_nil]
    cases hfd : getVal (w.applyReport report).clientsFd report.clientId with
    | none => simp [hfd, flushTouched]
    | some fd => simp [hfd, flushTouched]

/-! ## Account responses -/

/-- A response that is skipped: its report is not in the buffer and is not the last one. -/
def stale (response : ClientAccountSnapshot) : Bool :=
  (w.updatesBuffer (bufferIdx response.sequenceId.toNat)).sequenceId.toUInt64 !=
    response.sequenceId && response.sequenceId != w.lastSeq

/-- A report that the response does not contain yet. -/
def missedReport (response : ClientAccountSnapshot) (curReport : OrderStateReport) :
    ClientAccountSnapshot :=
  if curReport.clientId = response.clientId then
    { response with
      confirmed := fun i =>
        if response.assetId i = curReport.boughtAssetId then
          response.confirmed i + curReport.boughtDelta
        else if response.assetId i = curReport.soldAssetId then
          response.confirmed i + curReport.soldDelta
        else response.confirmed i
      attempt := fun i =>
        if response.assetId i = curReport.boughtAssetId then response.attempt i
        else if response.assetId i = curReport.soldAssetId then
          response.attempt i + curReport.soldDelta
        else response.attempt i }
  else response

/-- The loop over the missed reports, from the one after the response to the last one. -/
def catchUp (response : ClientAccountSnapshot) : ClientAccountSnapshot :=
  let seqId := (response.sequenceId + 1).toNat
  (List.range' seqId (w.lastSeq.toNat + 1 - seqId)).foldl
    (fun r seq => missedReport r (w.updatesBuffer (bufferIdx seq))) response

/-- `ClientsFd` after a login, given the client published on the descriptor before. -/
def relink (curClientId clientId clientFd : UInt32) (m : M) : M :=
  let m := if curClientId ≠ clientId then addNode (deleteNode m curClientId) clientId clientFd
    else m
  addNode m clientId clientFd

/-- A response that is not skipped. -/
def install (response : ClientAccountSnapshot) : ClientStatesWriter M :=
  { w with
    states := (w.states.setClientState response).flushTripleBuffer response.clientFd
    clientsFd := relink (w.states.getClientId response.clientFd) response.clientId response.clientFd
      w.clientsFd }

/-- An answer that is too old to be brought up to date from the ring is dropped. -/
def handleResponse (response : ClientAccountSnapshot) : ClientStatesWriter M :=
  if w.stale response then w else w.install (w.catchUp response)

/-- A batch of answers, one after the other. -/
def handleResponses (responseBatch : List ClientAccountSnapshot) : ClientStatesWriter M :=
  responseBatch.foldl handleResponse w

/-! ## Disconnects -/

/-- `TryConsumeDisconnects` with a descriptor popped. -/
def handleDisconnect (fd : UInt32) : ClientStatesWriter M :=
  { w with states := (w.states.setAuthStatus fd 0).flushTripleBuffer fd }

end

end ClientStatesWriter

end Naoto.Gateway
