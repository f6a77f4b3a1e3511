import NaotoExchange.Lib.Run
import NaotoExchange.Gateway.Proof.ClientStatesWriter

/-!
# Sessions and reused descriptors

The gateway's epoll server (accept, first message, order batches, close), an account service that
accepts every login after any delay, and the loop of the writer (one report batch, one response
batch, one disconnect per turn), interleaved in any way; a response batch is handled one response at
a time. The `k`-th connection accepted is told apart by its number `k`, which the program does not
have: `answered` and `installed` record which connection a login belonged to.

* `run_session`: as long as a descriptor is not reused too early (`Tidy`), `Auth` speaks about the
  connection that has the descriptor now.
* `reusedFd_confuses`: without that, a new connection inherits a login, or loses its own.
-/

namespace Naoto.Gateway

open Run

/-- `client_auth_request.hpp`. -/
structure ClientAuthRequest where
  requestType : RequestType
  clientId : UInt32
  key : Account.Key
  deriving DecidableEq

/-- Where the writer is in its loop. -/
inductive Phase where
  | reports
  | responses
  | handling
  | disconnects
  deriving DecidableEq, Repr

/-- The gateway's server, the account service and the writer, as far as one login goes. -/
structure SessionSystem (M : Type) where
  /-- The connection on a descriptor. -/
  conn : UInt32 → Option Nat
  firstMessage : UInt32 → Bool
  nextConn : Nat
  /-- Requests that are not answered yet, with the connection that sent them. -/
  requests : List (Nat × RoutedAuthRequest)
  /-- Answers that the writer has not popped. -/
  responses : List (Nat × ClientAccountSnapshot)
  /-- The rest of the batch that the writer is handling. -/
  batch : List (Nat × ClientAccountSnapshot)
  disconnects : List UInt32
  phase : Phase
  writer : ClientStatesWriter M
  /-- The connections whose login was answered. -/
  answered : List (UInt32 × Nat)
  /-- The connections whose login was answered and handled. -/
  installed : List (UInt32 × Nat)

/-- What the account service fills in besides the request's own fields. -/
structure Details extends Funds where
  sequenceId : UInt64
  assetId : AssetSlots
  deriving DecidableEq

/-- What can happen next, in any order. -/
inductive SessionEvent where
  | accept (fd : UInt32)
  | firstMessage (fd : UInt32) (message : ClientAuthRequest)
  | close (fd : UInt32)
  /-- The service answers the `i`-th waiting request. -/
  | answer (i : Nat) (details : Details)
  | reports (batch : List OrderStateReport)
  /-- The writer pops a batch of `n` responses. -/
  | responses (n : Nat)
  /-- The writer handles the next response of its batch, or is done with it. -/
  | response
  | disconnect
  deriving DecidableEq

namespace SessionSystem

section
variable {M : Type} [ClientFdMap M] (gatewayId : UInt16)

/-- Nobody is connected. -/
def new (memory : Nat → OrderStateReport) : SessionSystem M where
  conn := fun _ => none
  firstMessage := fun _ => false
  nextConn := 0
  requests := []
  responses := []
  batch := []
  disconnects := []
  phase := .reports
  writer := .new memory
  answered := []
  installed := []

variable (s : SessionSystem M)

/-- `GatewayServer::FirstMessageHandle`. -/
def firstMessageHandle (message : ClientAuthRequest) (fd : UInt32) : RoutedAuthRequest where
  requestType := message.requestType
  clientId := message.clientId
  key := message.key
  clientFd := fd
  gatewayId := gatewayId

/-- `GatewayServer::BatchHandle`: the `Auth` of an order batch. -/
def batchHandle (fd : UInt32) : UInt8 := s.writer.states.getClientAuth fd

/-- `GatewayServer::CloseHandle`: the queue takes 128 descriptors. -/
def closeHandle (fd : UInt32) : List UInt32 :=
  if s.disconnects.length < gatewayMaxClients then s.disconnects ++ [fd] else s.disconnects

/-- The answer to a request. -/
def snapshot (r : RoutedAuthRequest) (details : Details) : ClientAccountSnapshot where
  toFunds := details.toFunds
  status := .accepted
  sequenceId := details.sequenceId
  clientId := r.clientId
  clientFd := r.clientFd
  assetId := details.assetId

/-- One step of one party; a step that is not possible changes nothing. -/
def step : SessionEvent → SessionSystem M
  | .accept fd =>
    match s.conn fd with
    | some _ => s
    | none => { s with
        conn := Function.update s.conn fd (some s.nextConn)
        firstMessage := Function.update s.firstMessage fd true
        nextConn := s.nextConn + 1 }
  | .firstMessage fd message =>
    match s.conn fd with
    | some k =>
      if s.firstMessage fd then { s with
        requests := s.requests ++ [(k, firstMessageHandle gatewayId message fd)]
        firstMessage := Function.update s.firstMessage fd false }
      else s
    | none => s
  | .close fd =>
    match s.conn fd with
    | some _ => { s with
        disconnects := s.closeHandle fd
        conn := Function.update s.conn fd none }
    | none => s
  | .answer i details =>
    match s.requests[i]? with
    | some (k, r) => { s with
        requests := s.requests.eraseIdx i
        responses := s.responses ++ [(k, snapshot r details)]
        answered := (r.clientFd, k) :: s.answered }
    | none => s
  | .reports batch =>
    if s.phase = .reports then
      { s with writer := s.writer.handleReports batch, phase := .responses }
    else s
  | .responses n =>
    if s.phase = .responses then
      { s with batch := s.responses.take n, responses := s.responses.drop n, phase := .handling }
    else s
  | .response =>
    if s.phase = .handling then
      match s.batch with
      | [] => { s with phase := .disconnects }
      | (k, response) :: rest => { s with
          batch := rest
          writer := s.writer.handleResponse response
          installed :=
            if s.writer.stale response then s.installed else (response.clientFd, k) :: s.installed }
    else s
  | .disconnect =>
    if s.phase = .disconnects then
      match s.disconnects with
      | [] => { s with phase := .reports }
      | fd :: rest => { s with
          disconnects := rest
          writer := s.writer.handleDisconnect fd
          phase := .reports }
    else s

/-! ## When descriptors are reused -/

/-- The logins on their way to the writer: connection and descriptor. -/
def pending : List (Nat × UInt32) :=
  s.requests.map (fun p => (p.1, p.2.clientFd)) ++
    (s.responses ++ s.batch).map fun p => (p.1, p.2.clientFd)

/-- A descriptor is accepted again only when the disconnect of its last connection has been handled,
a disconnect is handled only when no login of its descriptor is on its way, and none is dropped. -/
def Tidy : SessionEvent → Prop
  | .accept fd => s.conn fd = none → fd ∉ s.disconnects
  | .close fd => s.conn fd ≠ none → s.disconnects.length < gatewayMaxClients
  | .disconnect => s.phase = .disconnects → ∀ fd ∈ s.disconnects.head?, ∀ p ∈ s.pending, p.2 ≠ fd
  | _ => True

instance : ∀ e : SessionEvent, Decidable (s.Tidy e)
  | .accept fd => inferInstanceAs (Decidable (s.conn fd = none → fd ∉ s.disconnects))
  | .close fd =>
    inferInstanceAs (Decidable (s.conn fd ≠ none → s.disconnects.length < gatewayMaxClients))
  | .disconnect =>
    -- over the head, not over all of `UInt32`
    match h : s.disconnects.head? with
    | none => .isTrue fun _ fd hfd => by rw [h] at hfd; cases hfd
    | some fd =>
      decidable_of_iff (s.phase = .disconnects → ∀ p ∈ s.pending, p.2 ≠ fd)
        ⟨fun hp hphase fd' hfd' => by
          rw [h, Option.mem_some_iff] at hfd'
          rw [← hfd']
          exact hp hphase,
        fun hp hphase => hp hphase fd h⟩
  | .firstMessage _ _ => .isTrue trivial
  | .answer _ _ => .isTrue trivial
  | .reports _ => .isTrue trivial
  | .responses _ => .isTrue trivial
  | .response => .isTrue trivial

end

/-! ## The invariant -/

/-- What holds in every state of a tidy run. -/
structure SessionInv {M : Type} (s : SessionSystem M) : Prop where
  settled : s.writer.states.Settled
  /-- A login on its way belongs to the connection that has its descriptor, or the disconnect of
  that connection is still to be handled. -/
  pending : ∀ p ∈ s.pending, s.conn p.2 = some p.1 ∨ (s.conn p.2 = none ∧ p.2 ∈ s.disconnects)
  pendingOld : ∀ p ∈ s.pending, p.1 < s.nextConn
  connOld : ∀ f k, s.conn f = some k → k < s.nextConn
  installedOld : ∀ p ∈ s.installed, p.2 < s.nextConn
  answers : ∀ p ∈ s.responses ++ s.batch, (p.2.clientFd, p.1) ∈ s.answered
  closed : ∀ f ∈ s.disconnects, s.conn f = none
  idle : ∀ f, s.conn f = none → f ∉ s.disconnects → s.writer.states.getClientAuth f ≠ 1
  own : ∀ f k, s.conn f = some k → s.writer.states.getClientAuth f = 1 → (f, k) ∈ s.answered
  stays : ∀ f k, s.conn f = some k → (f, k) ∈ s.installed → s.writer.states.getClientAuth f = 1

section
variable {M : Type} {s : SessionSystem M}

theorem mem_pending {p : Nat × UInt32} : p ∈ s.pending ↔
    (∃ r, (p.1, r) ∈ s.requests ∧ r.clientFd = p.2) ∨
      ∃ r, (p.1, r) ∈ s.responses ++ s.batch ∧ r.clientFd = p.2 := by
  unfold SessionSystem.pending
  rw [List.mem_append, List.mem_map, List.mem_map]
  constructor
  · intro h
    rcases h with ⟨⟨k, r⟩, hr, rfl⟩ | ⟨⟨k, r⟩, hr, rfl⟩
    · exact .inl ⟨r, hr, rfl⟩
    · exact .inr ⟨r, hr, rfl⟩
  · intro h
    rcases h with ⟨r, hr, hf⟩ | ⟨r, hr, hf⟩
    · exact .inl ⟨(p.1, r), hr, by rw [hf]⟩
    · exact .inr ⟨(p.1, r), hr, by rw [hf]⟩

theorem new_sessionInv [ClientFdMap M] (memory : Nat → OrderStateReport) :
    SessionInv (new memory : SessionSystem M) where
  settled := ClientStates.new_settled
  pending := fun _ hp => (nomatch hp)
  pendingOld := fun _ hp => (nomatch hp)
  connOld := fun _ _ hk => (nomatch hk)
  installedOld := fun _ hp => (nomatch hp)
  answers := fun _ hp => (nomatch hp)
  closed := fun _ hf => (nomatch hf)
  idle := fun _ _ _ hf => (nomatch hf)
  own := fun _ _ hk => (nomatch hk)
  stays := fun _ _ hk => (nomatch hk)

/-- The queues lose logins and nothing else but the writer's place in its loop changes. -/
theorem SessionInv.advance (h : SessionInv s) (responses batch : List (Nat × ClientAccountSnapshot))
    (phase : Phase) (hsub : responses ++ batch ⊆ s.responses ++ s.batch) :
    SessionInv { s with responses := responses, batch := batch, phase := phase } := by
  have hpending : ∀ p ∈ SessionSystem.pending
      { s with responses := responses, batch := batch, phase := phase }, p ∈ s.pending := by
    intro p hp
    rw [mem_pending] at hp ⊢
    rcases hp with hp | ⟨r, hr, hf⟩
    · exact .inl hp
    · exact .inr ⟨r, hsub hr, hf⟩
  exact { h with
    pending := fun p hp => h.pending p (hpending p hp)
    pendingOld := fun p hp => h.pendingOld p (hpending p hp)
    answers := fun p hp => h.answers p (hsub hp) }

/-! ## The server -/

theorem SessionInv.accept (h : SessionInv s) {fd : UInt32} (hc : s.conn fd = none)
    (htidy : fd ∉ s.disconnects) :
    SessionInv { s with
      conn := Function.update s.conn fd (some s.nextConn)
      firstMessage := Function.update s.firstMessage fd true
      nextConn := s.nextConn + 1 } := by
  -- nothing of an earlier connection on `fd` is left
  have hother : ∀ p ∈ s.pending, p.2 ≠ fd := by
    intro p hp heq
    rcases h.pending p hp with hk | ⟨-, hq⟩
    · rw [heq, hc] at hk
      cases hk
    · rw [heq] at hq
      exact htidy hq
  refine ⟨h.settled, fun p hp => ?_, fun p hp => Nat.lt_succ_of_lt (h.pendingOld p hp), ?_,
    fun p hp => Nat.lt_succ_of_lt (h.installedOld p hp), h.answers, fun f hf => ?_, ?_, ?_, ?_⟩
  · dsimp only
    rw [Function.update_of_ne (hother p hp)]
    exact h.pending p hp
  · intro f k hk
    by_cases hff : f = fd
    · subst hff
      simp only [Function.update_self, Option.some.injEq] at hk
      dsimp only
      omega
    · simp only [Function.update_of_ne hff] at hk
      exact Nat.lt_succ_of_lt (h.connOld f k hk)
  · have hff : f ≠ fd := fun heq => htidy (heq ▸ hf)
    dsimp only
    rw [Function.update_of_ne hff]
    exact h.closed f hf
  · intro f hk hf
    by_cases hff : f = fd
    · subst hff
      simp only [Function.update_self] at hk
      cases hk
    · simp only [Function.update_of_ne hff] at hk
      exact h.idle f hk hf
  · intro f k hk hauth
    by_cases hff : f = fd
    · subst hff
      exact absurd hauth (h.idle f hc htidy)
    · simp only [Function.update_of_ne hff] at hk
      exact h.own f k hk hauth
  · intro f k hk hin
    by_cases hff : f = fd
    · subst hff
      simp only [Function.update_self, Option.some.injEq] at hk
      have := h.installedOld _ hin
      omega
    · simp only [Function.update_of_ne hff] at hk
      exact h.stays f k hk hin

theorem SessionInv.firstMessage (h : SessionInv s) {fd : UInt32} {k : Nat} (hc : s.conn fd = some k)
    {r : RoutedAuthRequest} (hr : r.clientFd = fd) (fm : UInt32 → Bool) :
    SessionInv { s with requests := s.requests ++ [(k, r)], firstMessage := fm } := by
  have hpending : ∀ p ∈ SessionSystem.pending
      { s with requests := s.requests ++ [(k, r)], firstMessage := fm },
      p ∈ s.pending ∨ p = (k, fd) := by
    intro p hp
    rw [mem_pending] at hp
    rcases hp with ⟨r', hr', hf⟩ | hp
    · rcases List.mem_append.1 hr' with hr' | hr'
      · exact .inl (mem_pending.2 (.inl ⟨r', hr', hf⟩))
      · rw [List.mem_singleton, Prod.mk.injEq] at hr'
        exact .inr (Prod.ext hr'.1 (by rw [← hf, hr'.2, hr]))
    · exact .inl (mem_pending.2 (.inr hp))
  refine { h with pending := fun p hp => ?_, pendingOld := fun p hp => ?_ }
  · rcases hpending p hp with hp | rfl
    · exact h.pending p hp
    · exact .inl hc
  · rcases hpending p hp with hp | rfl
    · exact h.pendingOld p hp
    · exact h.connOld fd k hc

theorem SessionInv.close (h : SessionInv s) (fd : UInt32) :
    SessionInv { s with
      disconnects := s.disconnects ++ [fd]
      conn := Function.update s.conn fd none } := by
  refine ⟨h.settled, fun p hp => ?_, h.pendingOld, ?_, h.installedOld, h.answers, ?_, ?_, ?_, ?_⟩
  · dsimp only
    by_cases hff : p.2 = fd
    · rw [hff, Function.update_self]
      exact .inr ⟨rfl, by simp⟩
    · rw [Function.update_of_ne hff]
      rcases h.pending p hp with hk | ⟨hk, hq⟩
      · exact .inl hk
      · exact .inr ⟨hk, List.mem_append_left _ hq⟩
  · intro f k' hk
    by_cases hff : f = fd
    · simp only [hff, Function.update_self] at hk
      cases hk
    · simp only [Function.update_of_ne hff] at hk
      exact h.connOld f k' hk
  · intro f hf
    by_cases hff : f = fd
    · simp only [hff, Function.update_self]
    · simp only [Function.update_of_ne hff]
      rcases List.mem_append.1 hf with hf | hf
      · exact h.closed f hf
      · exact absurd (List.mem_singleton.1 hf) hff
  · intro f hk hf
    rw [List.mem_append, not_or, List.mem_singleton] at hf
    simp only [Function.update_of_ne hf.2] at hk
    exact h.idle f hk hf.1
  · intro f k' hk hauth
    by_cases hff : f = fd
    · simp only [hff, Function.update_self] at hk
      cases hk
    · simp only [Function.update_of_ne hff] at hk
      exact h.own f k' hk hauth
  · intro f k' hk hin
    by_cases hff : f = fd
    · simp only [hff, Function.update_self] at hk
      cases hk
    · simp only [Function.update_of_ne hff] at hk
      exact h.stays f k' hk hin

/-! ## The account service -/

theorem SessionInv.answer (h : SessionInv s) {i k : Nat} {r : RoutedAuthRequest}
    (hi : s.requests[i]? = some (k, r)) (details : Details) :
    SessionInv { s with
      requests := s.requests.eraseIdx i
      responses := s.responses ++ [(k, snapshot r details)]
      answered := (r.clientFd, k) :: s.answered } := by
  have hpending : ∀ p ∈ SessionSystem.pending { s with
      requests := s.requests.eraseIdx i
      responses := s.responses ++ [(k, snapshot r details)]
      answered := (r.clientFd, k) :: s.answered }, p ∈ s.pending := by
    intro p hp
    rw [mem_pending] at hp
    rcases hp with ⟨r', hr', hf⟩ | ⟨r', hr', hf⟩
    · exact mem_pending.2 (.inl ⟨r', List.mem_of_mem_eraseIdx hr', hf⟩)
    · rw [List.mem_append, List.mem_append, List.mem_singleton] at hr'
      rcases hr' with (hr' | hr') | hr'
      · exact mem_pending.2 (.inr ⟨r', List.mem_append_left _ hr', hf⟩)
      · -- the request that has just been answered
        rw [Prod.mk.injEq] at hr'
        refine mem_pending.2 (.inl ⟨r, ?_, by rw [← hf, hr'.2]; rfl⟩)
        rw [hr'.1]
        exact List.mem_of_getElem? hi
      · exact mem_pending.2 (.inr ⟨r', List.mem_append_right _ hr', hf⟩)
  refine ⟨h.settled, fun p hp => h.pending p (hpending p hp),
    fun p hp => h.pendingOld p (hpending p hp), h.connOld, h.installedOld, fun p hp => ?_,
    h.closed, h.idle, fun f k' hk hauth => .tail _ (h.own f k' hk hauth), h.stays⟩
  rw [List.mem_append, List.mem_append, List.mem_singleton] at hp
  rcases hp with (hp | rfl) | hp
  · exact .tail _ (h.answers p (List.mem_append_left _ hp))
  · exact .head _
  · exact .tail _ (h.answers p (List.mem_append_right _ hp))

/-! ## The writer -/

theorem SessionInv.reports [ClientFdMap M] (h : SessionInv s) (batch : List OrderStateReport) :
    SessionInv { s with writer := s.writer.handleReports batch, phase := .responses } := by
  obtain ⟨-, hset, hpub⟩ := ClientStatesWriter.handleReports_spec h.settled batch
  have hauth : ∀ f, (s.writer.handleReports batch).states.getClientAuth f =
      s.writer.states.getClientAuth f := by
    intro f
    unfold ClientStates.getClientAuth
    rw [hpub]
  refine ⟨hset, h.pending, h.pendingOld, h.connOld, h.installedOld, h.answers, h.closed, ?_, ?_, ?_⟩
  · intro f hk hf
    rw [hauth]
    exact h.idle f hk hf
  · intro f k hk ha
    rw [hauth] at ha
    exact h.own f k hk ha
  · intro f k hk hin
    rw [hauth]
    exact h.stays f k hk hin

theorem getClientAuth_install [ClientFdMap M] (w : ClientStatesWriter M)
    (response : ClientAccountSnapshot) (f : UInt32) :
    (w.install response).states.getClientAuth f =
      if f = response.clientFd then 1 else w.states.getClientAuth f := by
  unfold ClientStates.getClientAuth
  rw [ClientStatesWriter.install_published]
  split <;> rfl

theorem SessionInv.login [ClientFdMap M] (h : SessionInv s) {k : Nat}
    {response r : ClientAccountSnapshot} (hmem : (k, response) ∈ s.responses ++ s.batch)
    (hfd : r.clientFd = response.clientFd) :
    SessionInv { s with
      writer := s.writer.install r
      installed := (response.clientFd, k) :: s.installed } := by
  have hp : (k, response.clientFd) ∈ s.pending := mem_pending.2 (.inr ⟨response, hmem, rfl⟩)
  refine ⟨ClientStatesWriter.install_settled h.settled r, h.pending, h.pendingOld, h.connOld,
    fun p hp' => ?_, h.answers, h.closed, fun f hk hf => ?_, fun f k' hk hauth => ?_,
    fun f k' hk hin => ?_⟩
  · rcases List.mem_cons.1 hp' with rfl | hp'
    · exact h.pendingOld _ hp
    · exact h.installedOld p hp'
  · rw [getClientAuth_install, hfd]
    by_cases hff : f = response.clientFd
    · -- a login on its way to a closed descriptor: its disconnect is still queued
      subst hff
      rcases h.pending _ hp with hk' | ⟨-, hq⟩
      · rw [hk] at hk'
        cases hk'
      · exact absurd hq hf
    · rw [if_neg hff]
      exact h.idle f hk hf
  · rw [getClientAuth_install, hfd] at hauth
    by_cases hff : f = response.clientFd
    · subst hff
      rcases h.pending _ hp with hk' | ⟨hk', -⟩
      · rw [hk, Option.some.injEq] at hk'
        rw [hk']
        exact h.answers _ hmem
      · rw [hk] at hk'
        cases hk'
    · rw [if_neg hff] at hauth
      exact h.own f k' hk hauth
  · rw [getClientAuth_install, hfd]
    by_cases hff : f = response.clientFd
    · rw [if_pos hff]
    · rw [if_neg hff]
      rcases List.mem_cons.1 hin with heq | hin
      · exact absurd (congrArg Prod.fst heq) hff
      · exact h.stays f k' hk hin

theorem SessionInv.disconnect (h : SessionInv s) {fd : UInt32} {rest : List UInt32}
    (hd : s.disconnects = fd :: rest) (htidy : ∀ p ∈ s.pending, p.2 ≠ fd) :
    SessionInv { s with
      disconnects := rest
      writer := s.writer.handleDisconnect fd
      phase := .reports } := by
  have hauth : ∀ f, (s.writer.handleDisconnect fd).states.getClientAuth f =
      if f = fd then 0 else s.writer.states.getClientAuth f := by
    intro f
    unfold ClientStates.getClientAuth
    rw [ClientStatesWriter.handleDisconnect_published h.settled]
    split <;> rfl
  have hfd : s.conn fd = none := h.closed fd (by rw [hd]; exact .head _)
  refine ⟨ClientStatesWriter.handleDisconnect_settled h.settled fd, fun p hp => ?_, h.pendingOld,
    h.connOld, h.installedOld, h.answers, fun f hf => h.closed f (by rw [hd]; exact .tail _ hf),
    fun f hk hf => ?_, fun f k hk ha => ?_, fun f k hk hin => ?_⟩
  · rcases h.pending p hp with hk | ⟨hk, hq⟩
    · exact .inl hk
    · rw [hd, List.mem_cons] at hq
      exact .inr ⟨hk, hq.resolve_left (htidy p hp)⟩
  · rw [hauth]
    by_cases hff : f = fd
    · rw [if_pos hff]
      decide
    · rw [if_neg hff]
      refine h.idle f hk fun hq => ?_
      rw [hd, List.mem_cons] at hq
      exact hq.elim hff hf
  · rw [hauth] at ha
    by_cases hff : f = fd
    · rw [if_pos hff] at ha
      cases ha
    · rw [if_neg hff] at ha
      exact h.own f k hk ha
  · have hff : f ≠ fd := by
      intro heq
      dsimp only at hk
      rw [heq, hfd] at hk
      cases hk
    rw [hauth, if_neg hff]
    exact h.stays f k hk hin

/-! ## Every step -/

theorem SessionInv.step [ClientFdMap M] (gatewayId : UInt16) (h : SessionInv s) {e : SessionEvent}
    (htidy : s.Tidy e) : SessionInv (s.step gatewayId e) := by
  cases e with
  | accept fd =>
    cases hc : s.conn fd with
    | some k => simpa only [SessionSystem.step, hc] using h
    | none => simpa only [SessionSystem.step, hc] using h.accept hc (htidy hc)
  | firstMessage fd message =>
    cases hc : s.conn fd with
    | none => simpa only [SessionSystem.step, hc] using h
    | some k =>
      simp only [SessionSystem.step, hc]
      split
      · exact h.firstMessage hc rfl _
      · exact h
  | close fd =>
    cases hc : s.conn fd with
    | none => simpa only [SessionSystem.step, hc] using h
    | some k =>
      have hroom := htidy (by rw [hc]; simp)
      simpa only [SessionSystem.step, hc, closeHandle, if_pos hroom] using h.close fd
  | answer i details =>
    cases hi : s.requests[i]? with
    | none => simpa only [SessionSystem.step, hi] using h
    | some p => simpa only [SessionSystem.step, hi] using h.answer hi details
  | reports batch =>
    simp only [SessionSystem.step]
    split
    · exact h.reports batch
    · exact h
  | responses n =>
    simp only [SessionSystem.step]
    split
    · refine h.advance _ _ .handling fun p hp => List.mem_append_left _ ?_
      rcases List.mem_append.1 hp with hp | hp
      · exact List.mem_of_mem_drop hp
      · exact List.mem_of_mem_take hp
    · exact h
  | response =>
    simp only [SessionSystem.step]
    split
    · cases hb : s.batch with
      | nil =>
        have := h.advance s.responses s.batch .disconnects fun _ hp => hp
        simpa only [hb] using this
      | cons p rest =>
        obtain ⟨k, response⟩ := p
        have hmem : (k, response) ∈ s.responses ++ s.batch := by
          rw [hb]
          exact List.mem_append_right _ (.head _)
        have hsub : s.responses ++ rest ⊆ s.responses ++ s.batch := by
          rw [hb]
          exact List.append_subset.2 ⟨List.subset_append_left _ _, fun p hp =>
            List.mem_append_right _ (.tail _ hp)⟩
        rcases s.writer.handleResponse_cases response
          with ⟨hstale, heq⟩ | ⟨hstale, r, -, hfd, -, heq⟩
        · simp only [heq, hstale, if_true]
          exact h.advance s.responses rest s.phase hsub
        · simp only [heq, hstale, Bool.false_eq_true, if_false]
          exact (h.login hmem hfd).advance s.responses rest s.phase hsub
    · exact h
  | disconnect =>
    simp only [SessionSystem.step]
    split
    · next hphase =>
      cases hd : s.disconnects with
      | nil =>
        have := h.advance s.responses s.batch .reports fun _ hp => hp
        simpa only [hd] using this
      | cons fd rest =>
        refine h.disconnect hd (htidy hphase fd ?_)
        rw [hd]
        rfl
    · exact h

/-- **A session belongs to its connection**: an order batch read from a connection carries `Auth =
1` only if a login sent on that connection has been answered, and once the login is installed,
`Auth` stays 1 as long as the connection has its descriptor. -/
theorem run_session [ClientFdMap M] {gatewayId : UInt16} {memory : Nat → OrderStateReport}
    {events : List SessionEvent}
    (h : Through Tidy (SessionSystem.step gatewayId) (new memory : SessionSystem M) events) :
    let s := events.foldl (SessionSystem.step gatewayId) (new memory : SessionSystem M)
    (∀ fd k, s.conn fd = some k → s.batchHandle fd = 1 → (fd, k) ∈ s.answered) ∧
      ∀ fd k, s.conn fd = some k → (fd, k) ∈ s.installed →
      s.writer.states.getClientAuth fd = 1 := by
  have hinv : SessionInv (events.foldl (SessionSystem.step gatewayId) (new memory)) :=
    foldl_invariant (P := fun _ (s : SessionSystem M) => SessionInv s) (new_sessionInv memory) h
      fun _ _ _ hs he => hs.step gatewayId he
  exact ⟨hinv.own, hinv.stays⟩

end

/-! ## Descriptor 5, twice -/

def sampleLogin : ClientAuthRequest := ⟨.details, 7, fun _ => 0⟩

def sampleDetails : Details := ⟨0, 0, fun _ => 0⟩

def noReport : OrderStateReport := ⟨0, 0, 0, 0, 0, 0, 0, 0, 0, .add⟩

/-- A turn of the writer that handles one response, up to its disconnect. -/
def handleOne : List SessionEvent := [.reports [], .responses 1, .response, .response]

/-- Log in, close, and let the writer see the end of it before the next connection logs in. -/
def tidyReuse : List SessionEvent :=
  ([.accept 5, .firstMessage 5 sampleLogin, .answer 0 sampleDetails] : List SessionEvent) ++
    handleOne ++
    ([.disconnect, .close 5] : List SessionEvent) ++ handleOne ++
    ([.disconnect] : List SessionEvent) ++ handleOne ++
    ([.disconnect, .accept 5, .firstMessage 5 sampleLogin, .answer 0 sampleDetails] : List
      SessionEvent) ++ handleOne

/-- The gateway after the events. -/
def sampleSession (events : List SessionEvent) : SessionSystem (FiniteMap UInt32 UInt32) :=
  events.foldl (step 3) (new fun _ => noReport)

theorem run_session_sample :
    (sampleSession tidyReuse).conn 5 = some 1 ∧ (5, 1) ∈ (sampleSession tidyReuse).answered ∧
      (sampleSession tidyReuse).writer.states.getClientAuth 5 = 1 := by
  have h : Through Tidy (step 3) (new (fun _ => noReport) : SessionSystem (FiniteMap UInt32 UInt32))
      tidyReuse := by decide +kernel
  have hconn : (sampleSession tidyReuse).conn 5 = some 1 := by decide +kernel
  have hin : (5, 1) ∈ (sampleSession tidyReuse).installed := by decide +kernel
  obtain ⟨hown, hstays⟩ := run_session h
  have hauth := hstays 5 1 hconn hin
  exact ⟨hconn, hown 5 1 hconn hauth, hauth⟩

/-- The connection is accepted before the disconnect of the one before is handled. -/
def inheritedLogin : List SessionEvent :=
  ([.accept 5, .firstMessage 5 sampleLogin, .answer 0 sampleDetails] : List SessionEvent) ++
    handleOne ++
    ([.disconnect, .close 5, .accept 5, .firstMessage 5 sampleLogin] : List SessionEvent)

/-- The writer handles the new login, then the disconnect of the connection before. -/
def lostLogin : List SessionEvent :=
  ([.accept 5, .close 5, .accept 5, .firstMessage 5 sampleLogin, .answer 0 sampleDetails] : List
    SessionEvent) ++ handleOne ++ ([.disconnect] : List SessionEvent)

/-- A batch of a connection whose login is not answered carries `Auth = 1`; and a connection whose
login was installed has `Auth = 0` although it is open. -/
theorem reusedFd_confuses :
    ((sampleSession inheritedLogin).conn 5 = some 1 ∧
      (sampleSession inheritedLogin).firstMessage 5 = false ∧
      (sampleSession inheritedLogin).batchHandle 5 = 1 ∧
      (5, 1) ∉ (sampleSession inheritedLogin).answered) ∧
    ((sampleSession lostLogin).conn 5 = some 1 ∧ (5, 1) ∈ (sampleSession lostLogin).installed ∧
      (sampleSession lostLogin).writer.states.getClientAuth 5 = 0) := by
  decide +kernel

end SessionSystem

end Naoto.Gateway
