import NaotoExchange.Lib.Run
import NaotoExchange.Account.Proof.ClientStates
import NaotoExchange.Gateway.Proof.ClientStatesWriter

/-!
# Who is authenticated

The account service and the gateway's writer as one system. The service answers login requests at
any time; the writer handles any of the answers given so far, in any order and any batches, between
trade reports and disconnects.

* `run_authenticates`: as long as the writer only acts on accepted answers, a client that is
  authenticated on a descriptor has been accepted there.
* `wrongKey_authenticated`: it acts on refusals too.
-/

namespace Naoto.Gateway

open Run Account

/-- The account service and the gateway that asks it, as far as logins go. -/
structure AuthSystem (M : Type) where
  accounts : Account.ClientStates
  /-- The requests answered so far, each with its answer. -/
  answered : List (RoutedAuthRequest × ClientAccountSnapshot)
  writer : ClientStatesWriter M

/-- What can happen next: the two parties act in any order. -/
inductive AuthEvent where
  | request (r : RoutedAuthRequest)
  | accountReports (batch : List OrderStateReport)
  /-- The writer pops a batch of answers, given by their numbers. -/
  | responses (picks : List Nat)
  | reports (batch : List OrderStateReport)
  | disconnect (fd : UInt32)
  deriving DecidableEq

namespace AuthSystem

section
variable {M : Type} [ClientFdMap M] (sha256 : Key → Key)

/-- Nobody has asked, and the gateway knows nobody. -/
def new (init : UInt32 → Account.ClientState) (memory : Nat → OrderStateReport) : AuthSystem M where
  accounts := .new init
  answered := []
  writer := .new memory

/-- The answers with these numbers. -/
def picked (s : AuthSystem M) (picks : List Nat) : List ClientAccountSnapshot :=
  picks.filterMap fun i => s.answered[i]?.map Prod.snd

/-- A request for which the service has no snapshot gets no answer. -/
def step (s : AuthSystem M) : AuthEvent → AuthSystem M
  | .request r =>
    match processMessage sha256 s.accounts r with
    | some response => { s with answered := s.answered ++ [(r, response)] }
    | none => s
  | .accountReports batch => { s with accounts := s.accounts.handle batch }
  | .responses picks => { s with writer := s.writer.handleResponses (s.picked picks) }
  | .reports batch => { s with writer := s.writer.handleReports batch }
  | .disconnect fd => { s with writer := s.writer.handleDisconnect fd }

/-- The response is an acceptance, or the writer skips it. -/
def Honoured (w : ClientStatesWriter M) (response : ClientAccountSnapshot) : Prop :=
  response.status = .accepted ∨ w.stale response = true

instance (w : ClientStatesWriter M) (response : ClientAccountSnapshot) :
    Decidable (Honoured w response) :=
  inferInstanceAs (Decidable (_ ∨ _))

/-- The writer acts on acceptances only. -/
def HonoursStatus (s : AuthSystem M) : AuthEvent → Prop
  | .responses picks => ∀ response ∈ s.picked picks, Honoured s.writer response
  | _ => True

instance (s : AuthSystem M) : ∀ e : AuthEvent, Decidable (s.HonoursStatus e)
  | .responses picks =>
    inferInstanceAs (Decidable (∀ response ∈ s.picked picks, Honoured s.writer response))
  | .request _ => .isTrue trivial
  | .accountReports _ => .isTrue trivial
  | .reports _ => .isTrue trivial
  | .disconnect _ => .isTrue trivial

end

/-! ## The invariant -/

/-- The request deserves to be accepted: the hash of its key is the client's key, and its gateway is
the client's or gateway 10. -/
structure Deserved (sha256 : Key → Key) (init : UInt32 → Account.ClientState)
    (r : RoutedAuthRequest) : Prop where
  type : r.requestType = .details
  key : sha256 r.key = (init r.clientId).key
  gateway : (init r.clientId).authorized.toInt = r.gatewayId.toNat ∨ r.gatewayId = 10

/-- The answer names the client and the descriptor of the request, and is deserved. -/
structure Answer (sha256 : Key → Key) (init : UInt32 → Account.ClientState)
    (r : RoutedAuthRequest) (response : ClientAccountSnapshot) : Prop where
  clientId : response.clientId = r.clientId
  clientFd : response.clientFd = r.clientFd
  deserved : response.status = .accepted → Deserved sha256 init r

/-- Client `c` was accepted on descriptor `f`. -/
def AcceptedOn (answered : List (RoutedAuthRequest × ClientAccountSnapshot)) (c f : UInt32) :
    Prop :=
  ∃ p ∈ answered, p.1.clientId = c ∧ p.1.clientFd = f ∧ p.2.status = .accepted

/-- What holds in every state that is reached. -/
structure AuthInv {M : Type} (sha256 : Key → Key) (init : UInt32 → Account.ClientState)
    (s : AuthSystem M) : Prop where
  steady : s.accounts.Steady init
  answers : ∀ p ∈ s.answered, Answer sha256 init p.1 p.2
  settled : s.writer.states.Settled
  accepted : ∀ f, s.writer.states.getClientAuth f = 1 →
    AcceptedOn s.answered (s.writer.states.getClientId f) f

section
variable {sha256 : Key → Key} {init : UInt32 → Account.ClientState}

theorem checkKey_iff {c : Account.ClientState} {key : Key} :
    c.checkKey sha256 key = true ↔ sha256 key = c.key := by
  unfold ClientState.checkKey
  rw [List.all_eq_true, funext_iff]
  simp

theorem processMessage_answer {accounts : Account.ClientStates} (h : accounts.Steady init)
    {r : RoutedAuthRequest} {response : ClientAccountSnapshot}
    (hr : processMessage sha256 accounts r = some response) : Answer sha256 init r response := by
  have hinfo : (accounts.getClientState r.clientId).toClientInfo =
      (init r.clientId).toClientInfo := (h r.clientId).1
  unfold processMessage at hr
  cases htype : r.requestType with
  | disconnect => simp [htype] at hr
  | invalid => simp [htype] at hr
  | details =>
    simp only [htype] at hr
    split at hr
    · cases hr
      exact ⟨rfl, rfl, fun hs => nomatch hs⟩
    · next hgw =>
      split at hr
      · cases hr
        exact ⟨rfl, rfl, fun hs => nomatch hs⟩
      · next hkey =>
        cases hr
        refine ⟨rfl, rfl, fun _ => ⟨htype, ?_, ?_⟩⟩
        · rw [Bool.not_eq_true, Bool.not_eq_false', checkKey_iff] at hkey
          rw [hkey, ← hinfo]
        · rw [Bool.not_eq_true, Bool.not_eq_false'] at hgw
          unfold gatewayAllowed at hgw
          rw [Bool.or_eq_true, beq_iff_eq, beq_iff_eq, hinfo] at hgw
          exact hgw

variable {M : Type} [ClientFdMap M] {s : AuthSystem M}

theorem AcceptedOn.append {answered : List (RoutedAuthRequest × ClientAccountSnapshot)}
    {c f : UInt32} (h : AcceptedOn answered c f) (p : RoutedAuthRequest × ClientAccountSnapshot) :
    AcceptedOn (answered ++ [p]) c f := by
  obtain ⟨q, hq, hrest⟩ := h
  exact ⟨q, List.mem_append_left _ hq, hrest⟩

theorem AuthInv.request (h : AuthInv sha256 init s) (r : RoutedAuthRequest) :
    AuthInv sha256 init (s.step sha256 (.request r)) := by
  unfold step
  dsimp only
  split
  · next response hr =>
    refine ⟨h.steady, fun p hp => ?_, h.settled, fun f hf => (h.accepted f hf).append _⟩
    rcases List.mem_append.1 hp with hp | hp
    · exact h.answers p hp
    · rw [List.mem_singleton] at hp
      subst hp
      exact processMessage_answer h.steady hr
  · exact h

/-- One answer that the writer acts on only if it is an acceptance. -/
theorem AuthInv.response (h : AuthInv sha256 init s) {r : RoutedAuthRequest}
    {response : ClientAccountSnapshot} (hmem : (r, response) ∈ s.answered)
    (hhon : Honoured s.writer response) :
    AuthInv sha256 init { s with writer := s.writer.handleResponse response } := by
  rcases s.writer.handleResponse_cases response with ⟨-, heq⟩ | ⟨hfresh, r', hid, hfd, -, heq⟩
  · rw [heq]
    exact h
  · have hacc : response.status = .accepted := by
      rcases hhon with hacc | hstale
      · exact hacc
      · rw [hfresh] at hstale
        cases hstale
    have hans := h.answers _ hmem
    rw [heq]
    refine ⟨h.steady, h.answers, ClientStatesWriter.install_settled h.settled r', fun f hf => ?_⟩
    unfold ClientStates.getClientAuth at hf
    unfold ClientStates.getClientId
    rw [ClientStatesWriter.install_published] at hf ⊢
    by_cases hff : f = r'.clientFd
    · rw [if_pos hff]
      exact ⟨_, hmem, by rw [hid, ← hans.clientId], by rw [hff, hfd, ← hans.clientFd], hacc⟩
    · rw [if_neg hff] at hf ⊢
      exact h.accepted f hf

theorem AuthInv.responses (h : AuthInv sha256 init s) : ∀ (batch : List ClientAccountSnapshot),
    (∀ response ∈ batch, (∃ r, (r, response) ∈ s.answered) ∧ Honoured s.writer response) →
    AuthInv sha256 init { s with writer := s.writer.handleResponses batch } := by
  intro batch
  induction batch generalizing s with
  | nil => exact fun _ => h
  | cons response batch ih =>
    intro hb
    obtain ⟨⟨r, hmem⟩, hhon⟩ := hb response (.head _)
    refine ih (h.response hmem hhon) fun response' h' => ?_
    obtain ⟨hmem', hhon'⟩ := hb response' (.tail _ h')
    refine ⟨hmem', ?_⟩
    unfold Honoured at hhon' ⊢
    rw [ClientStatesWriter.stale_handleResponse]
    exact hhon'

omit [ClientFdMap M] in
theorem mem_picked {picks : List Nat} {response : ClientAccountSnapshot}
    (h : response ∈ s.picked picks) : ∃ r, (r, response) ∈ s.answered := by
  unfold picked at h
  obtain ⟨i, -, hi⟩ := List.mem_filterMap.1 h
  obtain ⟨p, hp, rfl⟩ := Option.map_eq_some_iff.1 hi
  exact ⟨p.1, List.mem_of_getElem? hp⟩

/-- **Every event keeps the invariant.** -/
theorem AuthInv.step (h : AuthInv sha256 init s) {e : AuthEvent} (he : s.HonoursStatus e) :
    AuthInv sha256 init (s.step sha256 e) := by
  cases e with
  | request r => exact h.request r
  | accountReports batch => exact ⟨h.steady.handle batch, h.answers, h.settled, h.accepted⟩
  | responses picks => exact h.responses _ fun response hr => ⟨mem_picked hr, he response hr⟩
  | reports batch =>
    obtain ⟨-, hset, hpub⟩ := ClientStatesWriter.handleReports_spec h.settled batch
    refine ⟨h.steady, h.answers, hset, fun f hf => ?_⟩
    unfold AuthSystem.step ClientStates.getClientAuth at hf
    unfold AuthSystem.step ClientStates.getClientId
    rw [hpub] at hf ⊢
    exact h.accepted f hf
  | disconnect fd =>
    refine ⟨h.steady, h.answers, ClientStatesWriter.handleDisconnect_settled h.settled fd,
      fun f hf => ?_⟩
    unfold AuthSystem.step ClientStates.getClientAuth at hf
    unfold AuthSystem.step ClientStates.getClientId
    rw [ClientStatesWriter.handleDisconnect_published h.settled] at hf ⊢
    by_cases hff : f = fd
    · rw [if_pos hff] at hf
      cases hf
    · rw [if_neg hff] at hf ⊢
      exact h.accepted f hf

theorem new_authInv (memory : Nat → OrderStateReport) :
    AuthInv sha256 init (new init memory : AuthSystem M) :=
  ⟨Account.ClientStates.new_steady, fun _ hp => (nomatch hp), ClientStates.new_settled,
    fun _ hf => (nomatch hf)⟩

end

/-! ## Runs -/

section
variable {M : Type} [ClientFdMap M] {sha256 : Key → Key} {init : UInt32 → Account.ClientState}
  {memory : Nat → OrderStateReport} {events : List AuthEvent}

/-- **Only accepted logins authenticate.** The client that is authenticated on a descriptor sent a
request for it that was accepted, with a key whose hash is the stored one, through its own gateway
or gateway 10; and a refusal changes nobody's `Auth`. -/
theorem run_authenticates (h : Through HonoursStatus (step sha256)
      (new init memory : AuthSystem M) events) :
    let s := events.foldl (step sha256) (new init memory : AuthSystem M)
    (∀ f, s.writer.states.getClientAuth f = 1 → ∃ p ∈ s.answered,
      p.1.clientId = s.writer.states.getClientId f ∧ p.1.clientFd = f ∧ p.2.status = .accepted ∧
        p.1.requestType = .details ∧ sha256 p.1.key = (init p.1.clientId).key ∧
        ((init p.1.clientId).authorized.toInt = p.1.gatewayId.toNat ∨ p.1.gatewayId = 10)) ∧
    ∀ response, response.status ≠ .accepted → Honoured s.writer response → ∀ f,
      (s.writer.handleResponse response).states.getClientAuth f =
        s.writer.states.getClientAuth f := by
  have hinv : AuthInv sha256 init (events.foldl (step sha256) (new init memory : AuthSystem M)) :=
    foldl_invariant (P := fun _ s => AuthInv sha256 init s) (new_authInv memory) h
      fun _ _ _ hs he => hs.step he
  refine ⟨fun f hf => ?_, fun response hstatus hhon f => ?_⟩
  · obtain ⟨p, hp, hc, hfd, hacc⟩ := hinv.accepted f hf
    obtain ⟨htype, hkey, hgw⟩ := (hinv.answers p hp).deserved hacc
    exact ⟨p, hp, hc, hfd, hacc, htype, hkey, hgw⟩
  · have hstale := hhon.resolve_left hstatus
    unfold ClientStatesWriter.handleResponse
    rw [if_pos hstale]

end

/-! ## A login that is accepted, and one that is not -/

/-- A client of gateway 3 with the key `0…0`. -/
def sampleAccount : Account.ClientState where
  clientId := 7
  key := fun _ => 0
  assetId := fun _ => 0
  authorized := 3
  connected := 0
  confirmed := fun _ => 100
  attempt := fun _ => 0

/-- A request for client 7 on descriptor 5 through gateway 3. -/
def sampleRequest (key : UInt8) : RoutedAuthRequest := ⟨.details, 7, fun _ => key, 5, 3⟩

/-- A report for nobody, so that later answers are stale. -/
def sampleReport : OrderStateReport := ⟨0, 0, 0, 9, 99, 1, 1, 1, 0, .cancel⟩

def sampleEvents : List AuthEvent :=
  [.request (sampleRequest 0), .responses [0], .reports [sampleReport], .request (sampleRequest 1),
    .responses [1]]

theorem run_authenticates_sample :
    let s := sampleEvents.foldl (step id)
      (new (fun _ => sampleAccount) (fun _ => sampleReport) : AuthSystem (FiniteMap UInt32 UInt32))
    s.writer.states.getClientAuth 5 = 1 ∧ ∃ p ∈ s.answered, p.1.clientId = 7 ∧ p.1.clientFd = 5 ∧
      p.2.status = .accepted := by
  have h : Through HonoursStatus (step id) (new (fun _ => sampleAccount) (fun _ => sampleReport) :
      AuthSystem (FiniteMap UInt32 UInt32)) sampleEvents := by decide +kernel
  have hauth : (sampleEvents.foldl (step id) (new (fun _ => sampleAccount) (fun _ => sampleReport) :
      AuthSystem (FiniteMap UInt32 UInt32))).writer.states.getClientAuth 5 = 1 := by decide +kernel
  have hid : (sampleEvents.foldl (step id) (new (fun _ => sampleAccount) (fun _ => sampleReport) :
      AuthSystem (FiniteMap UInt32 UInt32))).writer.states.getClientId 5 = 7 := by decide +kernel
  obtain ⟨p, hp, hc, hfd, hacc, -⟩ := (run_authenticates h).1 5 hauth
  exact ⟨hauth, p, hp, hc.trans hid, hfd, hacc⟩

/-- A request with a wrong key is answered `'C'`, and the answer authenticates the client. -/
theorem wrongKey_authenticated :
    let s := [AuthEvent.request (sampleRequest 1), .responses [0]].foldl (step id)
      (new (fun _ => sampleAccount) (fun _ => sampleReport) : AuthSystem (FiniteMap UInt32 UInt32))
    s.writer.states.getClientAuth 5 = 1 ∧ s.writer.states.getClientId 5 = 7 ∧
      s.answered.map (fun p => p.2.status) = [.wrongCredentials] := by
  decide +kernel

end AuthSystem

end Naoto.Gateway
