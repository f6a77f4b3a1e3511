import NaotoExchange.Account.ClientStates

/-!
# Login requests

The messages between the gateway and the account service (`routed_auth_request.hpp`,
`client_account_snapshot.hpp`) and the answer to a request (`client_request_processor.cpp`). The
response pool is never empty.
-/

namespace Naoto

/-- What a client asks for; `invalid` stands for any other byte. -/
inductive RequestType where
  | details
  | disconnect
  | invalid
  deriving DecidableEq, Repr

/-- A request with the gateway and the descriptor that the answer goes to. -/
structure RoutedAuthRequest where
  requestType : RequestType
  clientId : UInt32
  key : Account.Key
  clientFd : UInt32
  gatewayId : UInt16
  deriving DecidableEq

/-- `'A'`, `'C'` and `'R'`. -/
inductive Status where
  | accepted
  | wrongCredentials
  | refused
  deriving DecidableEq, Repr

/-- The answer: the account as it was published, with a sequence number. -/
structure ClientAccountSnapshot extends Funds where
  status : Status
  sequenceId : UInt64
  clientId : UInt32
  clientFd : UInt32
  assetId : AssetSlots
  deriving DecidableEq

namespace Account

/-- A cleared response with the given status. -/
def denial (status : Status) (r : RoutedAuthRequest) : ClientAccountSnapshot where
  toFunds := 0
  status := status
  sequenceId := 0
  clientId := r.clientId
  clientFd := r.clientFd
  assetId := fun _ => 0

/-- The gateway is the client's, or gateway 10. -/
def gatewayAllowed (curClient : ClientState) (gatewayId : UInt16) : Bool :=
  curClient.authorized.toInt == gatewayId.toNat || gatewayId == 10

/-- The body of the loop of `ProcessMessage`: the response to one request. -/
def processMessage (sha256 : Key → Key) (states : ClientStates) (curMessage : RoutedAuthRequest) :
    Option ClientAccountSnapshot :=
  let curClient := states.getClientState curMessage.clientId
  match curMessage.requestType with
  | .details =>
    if !gatewayAllowed curClient curMessage.gatewayId then some (denial .refused curMessage)
    else if !curClient.checkKey sha256 curMessage.key then
      some (denial .wrongCredentials curMessage)
    else some
      { toFunds := curClient.toFunds
        status := .accepted
        sequenceId := 0
        clientId := curMessage.clientId
        clientFd := curMessage.clientFd
        assetId := curClient.assetId }
  | .disconnect => none
  | .invalid => none

/-- Requests for details are answered, with a snapshot or a refusal; others are not. -/
theorem processMessage_isSome (sha256 : Key → Key) (states : ClientStates) (r : RoutedAuthRequest) :
    (processMessage sha256 states r).isSome ↔ r.requestType = .details := by
  unfold processMessage
  cases r.requestType with
  | details =>
    dsimp only
    split
    · simp
    · split <;> simp
  | disconnect => simp
  | invalid => simp

end Account

end Naoto
