import NaotoExchange.Gateway.ClientStates

/-!
# The risk check

`order_risk_check.hpp` and `local_attempts.hpp`: the check that the router makes before it forwards
a message. It reads the published state of the client and what the router itself has reserved since
the login, and it does not look at the message's action.
-/

namespace Naoto.Gateway

open FixedWidth

/-- The answers of the check and of the router. -/
inductive OrderConfirmationStatus where
  | accepted
  | insufficientFunds
  | maxPositions
  | invalidPrice
  | invalidQuantity
  | unknownSymbol
  | technicalFailure
  | userNotConnected
  | badClientId
  deriving DecidableEq, Repr

/-- The value of the enumerator. -/
def OrderConfirmationStatus.code : OrderConfirmationStatus → UInt8
  | .accepted => 0
  | .insufficientFunds => 1
  | .maxPositions => 2
  | .invalidPrice => 3
  | .invalidQuantity => 4
  | .unknownSymbol => 5
  | .technicalFailure => 6
  | .userNotConnected => 7
  | .badClientId => 8

/-- The first slot of the asset. -/
def ClientState.getAssetIdx (c : ClientState) (assetId : UInt16) : Option (Fin maxPositions) :=
  (List.finRange maxPositions).find? fun i => c.assetId i = assetId

/-- What the router has reserved per slot. -/
abbrev LocalAttempts := Fin maxPositions → Int64

/-- `LocalAttempt` and `LocalSessionId` of a descriptor. -/
structure LocalFunds where
  attempt : LocalAttempts
  sessionId : UInt32
  deriving DecidableEq

/-- The attempts of another session are dropped. -/
def LocalFunds.sync (sessionId : UInt32) (l : LocalFunds) : LocalFunds :=
  if sessionId ≠ l.sessionId then ⟨fun _ => 0, sessionId⟩ else l

/-- The asset that an order gives away. -/
def chargedAsset (o : Order) : UInt16 := if o.sideByte = .buy then 0 else o.assetId

/-- How much of it. A byte that is neither enumerator is charged in the asset of the order, as that
of a seller, but at its price. -/
def chargedAmount (o : Order) : Int64 :=
  if o.sideByte = .sell then zeroExtend o.amount else zeroExtend o.amount * o.price

/-- The check, in the order of the source: who asks, for which asset, and whether there is enough of
it. -/
def checkOrderRisk (curState : ClientState) (l : LocalFunds) (o : Order) (auth : UInt8) :
    OrderConfirmationStatus × LocalFunds :=
  if auth = 0 then (.userNotConnected, l)
  else
    let l := l.sync curState.sessionId
    if curState.clientId ≠ o.clientId then (.badClientId, l)
    else
      let assetId := chargedAsset o
      match curState.getAssetIdx assetId with
      | none => (if maxAssets ≤ assetId.toNat then .unknownSymbol else .maxPositions, l)
      | some assetIdx =>
        let confirmed := curState.confirmed assetIdx
        let attempt := curState.attempt assetIdx + l.attempt assetIdx
        let amount := chargedAmount o
        if confirmed - attempt < amount then (.insufficientFunds, l)
        else (.accepted,
          { l with attempt := Function.update l.attempt assetIdx (l.attempt assetIdx + amount) })

/-- The local funds are of this session, or there are none. -/
def InSession (session : UInt32) (l : LocalFunds) : Prop :=
  l.sessionId = session ∨ l.attempt = fun _ => 0

section
variable {c : ClientState} {l : LocalFunds} {o : Order} {auth : UInt8}

theorem InSession.sync_attempt {session : UInt32} (h : InSession session l) :
    (l.sync session).attempt = l.attempt := by
  unfold LocalFunds.sync
  split
  · rename_i hne
    cases h with
    | inl h => exact absurd h.symm hne
    | inr h => exact h.symm
  · rfl

theorem sync_sessionId (session : UInt32) (l : LocalFunds) :
    (l.sync session).sessionId = session := by
  unfold LocalFunds.sync
  split
  · rfl
  · rename_i h
    exact (not_not.1 h).symm

/-- **What a check can do**: it refuses and reserves nothing, or it accepts and reserves the amount
in the slot of the asset, which has that much left. -/
theorem checkOrderRisk_cases (c : ClientState) (l : LocalFunds) (o : Order) (auth : UInt8) :
    ((checkOrderRisk c l o auth).1 ≠ .accepted ∧
      ((checkOrderRisk c l o auth).2 = l ∨ (checkOrderRisk c l o auth).2 = l.sync c.sessionId)) ∨
    ∃ i, auth ≠ 0 ∧ c.clientId = o.clientId ∧ c.getAssetIdx (chargedAsset o) = some i ∧
      chargedAmount o ≤ c.confirmed i - (c.attempt i + (l.sync c.sessionId).attempt i) ∧
      checkOrderRisk c l o auth = (.accepted, { l.sync c.sessionId with
        attempt := Function.update (l.sync c.sessionId).attempt i
          ((l.sync c.sessionId).attempt i + chargedAmount o) }) := by
  unfold checkOrderRisk
  dsimp only
  split
  · exact .inl ⟨nofun, .inl rfl⟩
  · rename_i hauth
    split
    · exact .inl ⟨nofun, .inr rfl⟩
    · rename_i hclient
      split
      · refine .inl ⟨?_, .inr rfl⟩
        split <;> exact nofun
      · rename_i i hslot
        split
        · exact .inl ⟨nofun, .inr rfl⟩
        · rename_i hfunds
          exact .inr ⟨i, hauth, not_not.1 hclient, hslot, not_lt.1 hfunds, rfl⟩

theorem InSession.check_cases (h : InSession c.sessionId l) (o : Order) (auth : UInt8) :
    ((checkOrderRisk c l o auth).1 ≠ .accepted ∧ (checkOrderRisk c l o auth).2.attempt =
      l.attempt) ∨
    ∃ i, auth ≠ 0 ∧ c.clientId = o.clientId ∧ c.getAssetIdx (chargedAsset o) = some i ∧
      chargedAmount o ≤ c.confirmed i - (c.attempt i + l.attempt i) ∧
      (checkOrderRisk c l o auth).1 = .accepted ∧
      (checkOrderRisk c l o auth).2.attempt = Function.update l.attempt i
        (l.attempt i + chargedAmount o) := by
  obtain ⟨hne, hl | hl⟩ | ⟨i, hauth, hclient, hslot, hfunds, he⟩ := checkOrderRisk_cases c l o auth
  · exact .inl ⟨hne, by rw [hl]⟩
  · exact .inl ⟨hne, by rw [hl, h.sync_attempt]⟩
  · rw [h.sync_attempt] at hfunds he
    exact .inr ⟨i, hauth, hclient, hslot, hfunds, by rw [he], by rw [he]⟩

theorem InSession.check (h : InSession c.sessionId l) :
    InSession c.sessionId (checkOrderRisk c l o auth).2 := by
  obtain ⟨-, hl | hl⟩ | ⟨i, -, -, -, -, he⟩ := checkOrderRisk_cases c l o auth
  · rw [hl]
    exact h
  · rw [hl]
    exact .inl (sync_sessionId _ l)
  · rw [he]
    exact .inl (sync_sessionId _ l)

end

end Naoto.Gateway
