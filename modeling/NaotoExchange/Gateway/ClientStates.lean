import NaotoExchange.Account.ClientRequestProcessor

/-!
# The gateway's client states

`order_gateway/include/client_state.hpp` and `client_states.hpp`, indexed by file descriptor. A
descriptor beyond the vectors is undefined behaviour in the source; here every one has a state.
-/

namespace Naoto.Gateway

/-- A `ClientState` without its balances. -/
structure ClientInfo where
  clientId : UInt32
  assetId : AssetSlots
  auth : UInt8
  sessionId : UInt32
  deriving DecidableEq

/-- The state of a client as the risk check reads it. -/
structure ClientState extends ClientInfo, Funds

theorem ClientState.eq_of_parts {a b : ClientState} (hinfo : a.toClientInfo = b.toClientInfo)
    (hfunds : a.toFunds = b.toFunds) : a = b := by
  cases a
  cases b
  cases hinfo
  cases hfunds
  rfl

/-- One triple buffer per descriptor. -/
abbrev ClientStates := UInt32 → TripleBuffer ClientInfo Funds

namespace ClientStates

/-- Every descriptor starts with zeros. -/
def new : ClientStates := fun _ => .new ⟨0, fun _ => 0, 0, 0⟩ 0

variable (s : ClientStates)

/-- What is published, as one copy. -/
def getClientState (clientFd : UInt32) : ClientState :=
  { (s clientFd).published, (s clientFd).total with }

/-- The client published on the descriptor. -/
def getClientId (clientFd : UInt32) : UInt32 := (s clientFd).published.clientId

/-- Its authentication status. -/
def getClientAuth (clientFd : UInt32) : UInt8 := (s clientFd).published.auth

/-- Any status but 0 is stored as 1. -/
def setAuthStatus (clientFd : UInt32) (auth : UInt8) : ClientStates :=
  let t := s clientFd
  Function.update s clientFd (t.setWritten { t.written with auth := if auth = 0 then 0 else 1 })

/-- The status of the response is not looked at. -/
def setClientState (response : ClientAccountSnapshot) : ClientStates :=
  let t := s response.clientFd
  Function.update s response.clientFd
    ((t.setWritten
      { clientId := response.clientId
        assetId := response.assetId
        auth := 1
        sessionId := t.written.sessionId + 1 }).setPending (response.toFunds - t.total))

/-- The amounts go to the pending deltas of the slots that hold the asset. -/
def setClientAssets (clientId : UInt32) (confirmed attempt : Int64) (assetId : UInt16) :
    ClientStates :=
  let t := s clientId
  Function.update s clientId
    (t.setPending (t.pending.credit t.written.assetId confirmed attempt assetId))

/-- The store of `Complete`: what was written is published. -/
def flushTripleBuffer (clientFd : UInt32) : ClientStates :=
  Function.update s clientFd (s clientFd).flush

end ClientStates

end Naoto.Gateway
