import NaotoExchange.Account.ClientRequestProcessor
import NaotoExchange.Account.GatewayEpollServer

/-!
# Login responses on their way to the gateways

`client_request_processor.cpp` takes a `ClientAccountSnapshot` from `ResponsesPool` for each answer
and pushes it; `gateway_response_dispatcher.hpp` pops it, sends it and gives it back to the pool. A
pointer into the pool is the index of the object. `sent` and `lost` are not in the code: what was
given back as sent, and what was given up.

`SendMessage` keeps a message that it could not send in `ResponsesResend`. `DrainResendBuffers`,
which would send it again, is never called.

* `run_responses`: every object is in one place, the resend buffer never overflows, and if every
  call of `send` takes a whole snapshot for a gateway whose slot stays the same, all responses are
  sent, in order.
* `response_lost`: what happens otherwise.
-/

namespace Naoto.Account

open Run Gateway

/-- `AccountResponsePoolSize`. -/
def accountResponsePoolSize : Nat := 128

/-- `AccountResponsesResendBufferSize`. -/
def accountResponsesResendBufferSize : Nat := 128

/-- `sizeof(ClientAccountSnapshot)`. -/
def snapshotSize : Nat := 305

/-- `RoutedMessage<ClientAccountSnapshot>`. -/
structure AccountResponse where
  gatewayId : UInt16
  message : Nat
  deriving DecidableEq, Repr

/-- The answer of `send`: bytes taken; `EINTR`, `EAGAIN` or `EWOULDBLOCK`; or another error. -/
inductive SendAnswer where
  | sent (n : Nat)
  | blocked
  | failed
  deriving DecidableEq, Repr

/-- What a call of `SendMessage` meets: the gateway's slot before and after the answer of `send`. -/
structure Attempt where
  curVal : VersionedFd
  answer : SendAnswer
  newVal : VersionedFd

/-- A snapshot that was counted as sent, and how many of its bytes were written. -/
structure Delivery where
  gatewayId : UInt16
  snapshot : ClientAccountSnapshot
  bytes : Nat
  deriving DecidableEq

/-- What stops the service: a null pointer, an index outside an array, or `std::terminate`. -/
inductive Crash where
  | nullDeref
  | outOfBounds
  | terminate
  deriving DecidableEq, Repr

/-- The pool of answers, and those that wait to be sent. -/
structure Responses where
  storage : Nat → ClientAccountSnapshot
  /-- The free objects of `ResponsesPool`, the next one first. -/
  free : List Nat
  queue : List AccountResponse
  /-- `ResponsesResend` up to `ResponsesResendSize`. -/
  resend : List AccountResponse
  sent : List Delivery
  lost : List Nat

namespace Responses

/-- All objects of the pool are free. -/
def new (memory : Nat → ClientAccountSnapshot) : Responses where
  storage := memory
  free := List.range accountResponsePoolSize
  queue := []
  resend := []
  sent := []
  lost := []

variable (s : Responses)

/-! ## The processor -/

/-- The answer to a request, written into an object of the pool and pushed. `Acquire` is not
checked. -/
def respond (gatewayId : UInt16) (snapshot : ClientAccountSnapshot) : Except Crash Responses :=
  match s.free with
  | [] => .error .nullDeref
  | p :: free => .ok { s with
      storage := Function.update s.storage p snapshot
      free := free
      queue := s.queue ++ [⟨gatewayId, p⟩] }

/-! ## The dispatcher -/

/-- The message is kept for later. -/
def keep (r : AccountResponse) : Except Crash Responses :=
  if s.resend.length < accountResponsesResendBufferSize then
    .ok { s with resend := s.resend ++ [r] }
  else .error .outOfBounds

/-- `ResponsesPool.Release` after `n` bytes were written. -/
def release (r : AccountResponse) (n : Nat) : Except Crash Responses :=
  if s.free.length < accountResponsePoolSize then .ok { s with
      free := s.free ++ [r.message]
      sent := s.sent ++ [⟨r.gatewayId, s.storage r.message, n⟩] }
  else .error .terminate

/-- `SendMessage` returns and nobody has the message any more. -/
def drop (r : AccountResponse) : Responses := { s with lost := s.lost ++ [r.message] }

/-- One attempt to send an answer. -/
def sendMessage (r : AccountResponse) (x : Attempt) : Except Crash Responses :=
  if maxGateways ≤ r.gatewayId.toNat then .error .outOfBounds
  else if x.curVal.fd = -1 then .ok (s.drop r)
  else
    match x.answer with
    | .blocked => s.keep r
    | .failed => .ok (s.drop r)
    | .sent n => if x.newVal ≠ x.curVal then s.keep r else s.release r (min n snapshotSize)

/-- One round of the loop of `ConsumeMessages`, which `StartLoop` repeats for ever. -/
def consumeMessage (x : Attempt) : Except Crash Responses :=
  match s.queue with
  | [] => .ok s
  | r :: queue => { s with queue := queue }.sendMessage r x

end Responses

/-- A request at the processor, with the client states as it finds them; or a round of the
dispatcher. -/
inductive ResponseEvent where
  | request (states : ClientStates) (curMessage : RoutedAuthRequest)
  | consume (x : Attempt)

section
variable (sha256 : Key → Key)

/-- The response that an event asks for. -/
def ResponseEvent.response : ResponseEvent → Option (UInt16 × ClientAccountSnapshot)
  | request states curMessage =>
    (processMessage sha256 states curMessage).map fun snapshot => (curMessage.gatewayId, snapshot)
  | consume _ => none

/-- A request is answered, or the dispatcher makes its round. -/
def Responses.step (s : Responses) (e : ResponseEvent) : Except Crash (Responses × Unit) :=
  match e with
  | .request states curMessage =>
    match processMessage sha256 states curMessage with
    | some snapshot => (s.respond curMessage.gatewayId snapshot).map fun s => (s, ())
    | none => .ok (s, ())
  | .consume x => (s.consumeMessage x).map fun s => (s, ())

/-- There is an object for the response, and a slot for its gateway. -/
def Responses.Answerable (s : Responses) : ResponseEvent → Prop
  | .request states curMessage => (processMessage sha256 states curMessage).isSome →
      s.free ≠ [] ∧ curMessage.gatewayId.toNat < maxGateways
  | .consume _ => True

end

/-- A message that is popped is sent as a whole to a gateway that is there and stays. -/
def Responses.Smooth (s : Responses) : ResponseEvent → Prop
  | .consume x => s.queue ≠ [] →
      x.curVal.fd ≠ -1 ∧ x.answer = .sent snapshotSize ∧ x.newVal = x.curVal
  | .request _ _ => True

instance decidableAnswerable (sha256 : Key → Key) (s : Responses) :
    (e : ResponseEvent) → Decidable (s.Answerable sha256 e)
  | .request _ _ => inferInstanceAs (Decidable (_ → _))
  | .consume _ => .isTrue trivial

instance decidableSmooth (s : Responses) : (e : ResponseEvent) → Decidable (s.Smooth e)
  | .consume _ => inferInstanceAs (Decidable (_ → _))
  | .request _ _ => .isTrue trivial

/-! ## Where the objects are -/

namespace Responses

/-- The objects of the pool, wherever they are. -/
def places (s : Responses) : List Nat :=
  s.free ++ (s.queue.map (·.message) ++ (s.resend.map (·.message) ++ s.lost))

/-- Every object is in one place, and what is on its way has a slot. -/
structure Inv (s : Responses) : Prop where
  places : s.places.Perm (List.range accountResponsePoolSize)
  slots : ∀ r ∈ s.queue, r.gatewayId.toNat < maxGateways

variable {s s' : Responses}

theorem new_inv (memory : Nat → ClientAccountSnapshot) : (new memory).Inv :=
  ⟨by simp [new, Responses.places], by simp [new]⟩

theorem Inv.length (h : s.Inv) :
    s.free.length + (s.queue.length + (s.resend.length + s.lost.length)) =
    accountResponsePoolSize := by
  have := h.places.length_eq
  simpa [Responses.places] using this

/-- **A response**: the object was free and is in the queue now. -/
theorem Inv.respond (h : s.Inv) {gatewayId : UInt16} (hslot : gatewayId.toNat < maxGateways)
    {p : Nat} {free : List Nat} (hfree : s.free = p :: free) (snapshot : ClientAccountSnapshot) :
    Inv { s with
      storage := Function.update s.storage p snapshot
      free := free
      queue := s.queue ++ [⟨gatewayId, p⟩] } := by
  refine ⟨?_, ?_⟩
  · refine List.Perm.trans ?_ h.places
    simp only [Responses.places, hfree, List.map_append, List.map_cons, List.map_nil,
      List.append_assoc, List.cons_append, List.nil_append]
    rw [← List.append_assoc]
    exact List.perm_middle.trans (by rw [List.append_assoc])
  · intro r hr
    rcases List.mem_append.mp hr with hr | hr
    · exact h.slots r hr
    · rw [List.mem_singleton.mp hr]
      exact hslot

/-- The message at the head of the queue, taken out, is put somewhere. -/
theorem Inv.move (h : s.Inv) {r : AccountResponse} {queue : List AccountResponse}
    (hq : s.queue = r :: queue) (hqueue : s'.queue = queue)
    (hmove : (s'.free ++ (s'.resend.map (·.message) ++ s'.lost)).Perm
      (r.message :: (s.free ++ (s.resend.map (·.message) ++ s.lost)))) : s'.Inv := by
  refine ⟨List.Perm.trans ?_ h.places, fun r' hr' => ?_⟩
  · rw [List.perm_iff_count] at hmove ⊢
    intro a
    have := hmove a
    simp only [Responses.places, hq, hqueue, List.map_cons, List.count_append, List.count_cons]
      at this ⊢
    omega
  · rw [hqueue] at hr'
    exact h.slots r' (by rw [hq]; exact List.mem_cons_of_mem _ hr')

/-- **The exits of `SendMessage`** that return: the message is given up, kept, or given back as
sent. -/
theorem sendMessage_cases {r : AccountResponse} {x : Attempt} (h : s.sendMessage r x = .ok s') :
    s' = s.drop r ∨ s' = { s with resend := s.resend ++ [r] } ∨
    ∃ n, x.answer = .sent n ∧ s' = { s with
      free := s.free ++ [r.message]
      sent := s.sent ++ [⟨r.gatewayId, s.storage r.message, min n snapshotSize⟩] } := by
  unfold sendMessage at h
  have hkeep : s.keep r = .ok s' → s' = { s with resend := s.resend ++ [r] } := fun hk => by
    unfold keep at hk
    split at hk
    · exact (Except.ok.inj hk).symm
    · cases hk
  split at h
  · cases h
  split at h
  · exact .inl (Except.ok.inj h).symm
  split at h
  · exact .inr (.inl (hkeep h))
  · exact .inl (Except.ok.inj h).symm
  · next n hans =>
    split at h
    · exact .inr (.inl (hkeep h))
    · unfold release at h
      split at h
      · exact .inr (.inr ⟨n, hans, (Except.ok.inj h).symm⟩)
      · cases h

/-- It returns if the gateway has a slot and not all objects are free or kept. -/
theorem sendMessage_ok {r : AccountResponse} (x : Attempt) (hslot : r.gatewayId.toNat < maxGateways)
    (hfree : s.free.length < accountResponsePoolSize)
    (hresend : s.resend.length < accountResponsesResendBufferSize) : ∃ s',
    s.sendMessage r x = .ok s' := by
  have hkeep : ∃ s', s.keep r = .ok s' := ⟨_, by rw [keep, if_pos hresend]⟩
  unfold sendMessage
  rw [if_neg (Nat.not_le.mpr hslot)]
  split
  · exact ⟨_, rfl⟩
  split
  · exact hkeep
  · exact ⟨_, rfl⟩
  · split
    · exact hkeep
    · exact ⟨_, by rw [release, if_pos hfree]⟩

/-- **A round of the dispatcher** returns, and leaves every object in one place. -/
theorem Inv.consumeMessage (h : s.Inv) (x : Attempt) :
    ∃ s', s.consumeMessage x = .ok s' ∧ s'.Inv := by
  unfold Responses.consumeMessage
  cases hq : s.queue with
  | nil => exact ⟨s, rfl, h⟩
  | cons r queue =>
    have hlen := h.length
    rw [hq, List.length_cons] at hlen
    obtain ⟨s', hs'⟩ := sendMessage_ok (s := { s with queue := queue }) x
      (h.slots r (by rw [hq]; exact List.mem_cons_self)) (show s.free.length < _ by omega)
      (show s.resend.length < accountResponsePoolSize by omega)
    refine ⟨s', hs', ?_⟩
    rcases sendMessage_cases hs' with rfl | rfl | ⟨n, -, rfl⟩
    · refine h.move hq rfl ?_
      simp only [drop, ← List.append_assoc]
      exact List.perm_append_singleton _ _
    · refine h.move hq rfl ?_
      simp only [List.map_append, List.map_cons, List.map_nil, List.append_assoc,
        List.singleton_append]
      rw [← List.append_assoc]
      exact List.perm_middle.trans (by rw [List.append_assoc])
    · refine h.move hq rfl ?_
      simp only [List.append_assoc, List.singleton_append]
      exact List.perm_middle

variable {sha256 : Key → Key}

/-- **One event**, if it can be answered. -/
theorem Inv.step (h : s.Inv) {e : ResponseEvent} (ha : s.Answerable sha256 e) :
    ∃ s', s.step sha256 e = .ok (s', ()) ∧ s'.Inv := by
  cases e with
  | consume x =>
    obtain ⟨s', hs', hinv⟩ := h.consumeMessage x
    exact ⟨s', by simp [Responses.step, hs', Except.map], hinv⟩
  | request states curMessage =>
    cases hp : processMessage sha256 states curMessage with
    | none => exact ⟨s, by simp [Responses.step, hp], h⟩
    | some snapshot =>
      obtain ⟨hne, hslot⟩ := ha (by simp [hp])
      obtain ⟨p, free, hfree⟩ := List.exists_cons_of_ne_nil hne
      exact ⟨_, by simp [Responses.step, hp, Responses.respond, hfree, Except.map],
        h.respond hslot hfree snapshot⟩

/-- **What a step that returns did**: a round found nothing, or handed the head of the queue to
`SendMessage`; a request was answered from the pool, or not answered. -/
theorem step_cases {e : ResponseEvent} {u : Unit} (h : s.step sha256 e = .ok (s', u)) :
    (∃ x, e = .consume x ∧ s.queue = [] ∧ s' = s) ∨
    (∃ x r queue, e = .consume x ∧ s.queue = r :: queue ∧
      { s with queue := queue }.sendMessage r x = .ok s') ∨
    (∃ states curMessage, e = .request states curMessage ∧
      processMessage sha256 states curMessage = none ∧ s' = s) ∨
    ∃ states curMessage snapshot p free, e = .request states curMessage ∧
      processMessage sha256 states curMessage = some snapshot ∧ s.free = p :: free ∧ s' = { s with
        storage := Function.update s.storage p snapshot
        free := free
        queue := s.queue ++ [⟨curMessage.gatewayId, p⟩] } := by
  cases e with
  | consume x =>
    have hc : s.consumeMessage x = .ok s' := by
      cases hc : s.consumeMessage x <;> simp_all [Responses.step, Except.map]
    unfold Responses.consumeMessage at hc
    cases hq : s.queue with
    | nil =>
      rw [hq] at hc
      exact .inl ⟨x, rfl, rfl, (Except.ok.inj hc).symm⟩
    | cons r queue =>
      rw [hq] at hc
      exact .inr (.inl ⟨x, r, queue, rfl, rfl, hc⟩)
  | request states curMessage =>
    cases hp : processMessage sha256 states curMessage with
    | none =>
      simp only [Responses.step, hp, Except.ok.injEq, Prod.mk.injEq] at h
      exact .inr (.inr (.inl ⟨states, curMessage, rfl, hp, h.1.symm⟩))
    | some snapshot =>
      cases hfree : s.free with
      | nil => simp [Responses.step, hp, Responses.respond, hfree, Except.map] at h
      | cons p free =>
        simp only [Responses.step, hp, Responses.respond, hfree, Except.map, Except.ok.injEq,
          Prod.mk.injEq] at h
        exact .inr (.inr (.inr ⟨states, curMessage, snapshot, p, free, rfl, hp, rfl, h.1.symm⟩))

/-- **What gets into the queue**: answers to requests for details, for the gateway that the request
names. -/
theorem step_queue {e : ResponseEvent} {u : Unit} (h : s.step sha256 e = .ok (s', u))
    {r : AccountResponse} (hr : r ∈ s'.queue) : r ∈ s.queue ∨
      ∃ states curMessage, e = .request states curMessage ∧ curMessage.requestType = .details ∧
        r.gatewayId = curMessage.gatewayId := by
  rcases step_cases h with ⟨x, -, -, rfl⟩ | ⟨x, r', queue, -, hq, hsend⟩ | ⟨states, curMessage, -,
    -, rfl⟩ | ⟨states, curMessage, snapshot, p, free, rfl, hp, -, rfl⟩
  · exact .inl hr
  · have hqueue : s'.queue = queue := by
      rcases sendMessage_cases hsend with rfl | rfl | ⟨n, -, rfl⟩
      · rfl
      · rfl
      · rfl
    rw [hqueue] at hr
    rw [hq]
    exact .inl (List.mem_cons_of_mem _ hr)
  · exact .inl hr
  · rcases List.mem_append.mp hr with hr | hr
    · exact .inl hr
    · rw [List.mem_singleton.mp hr]
      have hdetails := (processMessage_isSome sha256 states curMessage).mp (by rw [hp]; rfl)
      exact .inr ⟨states, curMessage, rfl, hdetails, rfl⟩

theorem step_keeps {e : ResponseEvent} {u : Unit} (h : s.step sha256 e = .ok (s', u)) :
    s.resend <+: s'.resend := by
  rcases step_cases h with ⟨x, -, -, rfl⟩ | ⟨x, r, queue, -, -, hsend⟩ | ⟨states, curMessage, -,
    -, rfl⟩ | ⟨states, curMessage, snapshot, p, free, -, -, -, rfl⟩
  · exact List.prefix_refl _
  · rcases sendMessage_cases hsend with rfl | rfl | ⟨n, -, rfl⟩
    · exact List.prefix_refl _
    · exact List.prefix_append _ _
    · exact List.prefix_refl _
  · exact List.prefix_refl _
  · exact List.prefix_refl _

theorem run_keeps {events : List ResponseEvent} {outs : List Unit}
    (h : run (step sha256) s events = .ok (s', outs)) : s.resend <+: s'.resend := by
  have hpre : Along (fun _ _ => True) (step sha256) s events := fun _ _ _ _ _ _ => trivial
  refine run_invariant (P := fun _ t _ => s.resend <+: t.resend) (List.prefix_refl _) hpre ?_ h
  exact fun _ _ _ _ _ _ _ _ hp _ hs => hp.trans (step_keeps hs)

/-! ## What the gateways get -/

/-- Every response was sent as a whole or is still in the queue, in the order of the requests. -/
structure Complete (sha256 : Key → Key) (events : List ResponseEvent) (s : Responses) : Prop where
  lost : s.lost = []
  resend : s.resend = []
  whole : ∀ d ∈ s.sent, d.bytes = snapshotSize
  order : events.filterMap (·.response sha256) = s.sent.map (fun d => (d.gatewayId, d.snapshot)) ++
    s.queue.map fun r => (r.gatewayId, s.storage r.message)

variable {events : List ResponseEvent}

theorem Complete.sendMessage (h : Complete sha256 events s) {r : AccountResponse}
    {queue : List AccountResponse} (hq : s.queue = r :: queue) {x : Attempt}
    (hfd : x.curVal.fd ≠ -1) (hans : x.answer = .sent snapshotSize) (hval : x.newVal = x.curVal)
    (hs : { s with queue := queue }.sendMessage r x = .ok s') : Complete sha256 events s' := by
  unfold Responses.sendMessage release at hs
  by_cases hslot : maxGateways ≤ r.gatewayId.toNat
  · rw [if_pos hslot] at hs
    cases hs
  rw [if_neg hslot, if_neg hfd] at hs
  simp only [hans, hval, ne_eq, not_true, if_false, Nat.min_self] at hs
  split at hs
  · cases hs
    refine ⟨h.lost, h.resend, fun d hd => ?_, ?_⟩
    · rcases List.mem_append.mp hd with hd | hd
      · exact h.whole d hd
      · rw [List.mem_singleton.mp hd]
    · rw [h.order, hq]
      simp
  · cases hs

/-- **One event** loses no response, if nothing goes wrong with `send`. -/
theorem Complete.step (h : Complete sha256 events s) (hinv : s.Inv) {e : ResponseEvent}
    (hsm : s.Smooth e) (hs : s.step sha256 e = .ok (s', ())) : Complete sha256
      (events ++ [e]) s' := by
  have hsame : e.response sha256 = none → Complete sha256 events s' →
      Complete sha256 (events ++ [e]) s' := fun hn hc =>
    ⟨hc.lost, hc.resend, hc.whole, by simp [List.filterMap_append, hn, hc.order]⟩
  rcases step_cases hs with ⟨x, rfl, -, rfl⟩ | ⟨x, r, queue, rfl, hq, hsend⟩ |
    ⟨states, curMessage, rfl, hp, rfl⟩ | ⟨states, curMessage, snapshot, p, free, rfl, hp,
      hfree, rfl⟩
  · exact hsame rfl h
  · obtain ⟨hfd, hans, hval⟩ := hsm (by simp [hq])
    exact hsame rfl (h.sendMessage hq hfd hans hval hsend)
  · exact hsame (by simp [ResponseEvent.response, hp]) h
  · -- the object is not one of those in the queue
    have hp' : ∀ r ∈ s.queue, r.message ≠ p := fun r hr he => by
      have hnodup := hinv.places.nodup_iff.mpr List.nodup_range
      rw [Responses.places, hfree, List.cons_append, List.nodup_cons] at hnodup
      exact hnodup.1 (by simp; exact .inr (.inl ⟨r, hr, he⟩))
    refine ⟨h.lost, h.resend, h.whole, ?_⟩
    rw [List.filterMap_append, h.order]
    simp only [List.filterMap_cons, List.filterMap_nil, ResponseEvent.response, hp, Option.map_some,
      List.map_append, List.map_cons, List.map_nil, Function.update_self, List.append_assoc]
    congr 2
    exact List.map_congr_left fun r hr => by rw [Function.update_of_ne (hp' r hr)]

end Responses

open Responses

variable {sha256 : Key → Key}

/-- **Login responses**: as long as the pool has an object for each answer, nothing stops the
service, each object is free, in the queue, kept for later or given up, and in one of these places
only, and the resend buffer never overflows. If every message that is popped is sent as a whole, to
a gateway that is there and whose slot does not change, then none is given up or kept: all were
sent, with all their bytes and in the order of the requests, or are still in the queue. -/
theorem run_responses {memory : Nat → ClientAccountSnapshot} {events : List ResponseEvent}
    (h : Along (Answerable sha256) (step sha256) (new memory) events) :
    ∃ s outs, run (step sha256) (new memory) events = .ok (s, outs) ∧
      s.places.Perm (List.range accountResponsePoolSize) ∧
      s.resend.length ≤ accountResponsesResendBufferSize ∧
      (Along Smooth (step sha256) (new memory) events → Complete sha256 events s) := by
  have hrun : ∃ s outs, run (step sha256) (new memory) events = .ok (s, outs) ∧ s.Inv ∧
      (Along Smooth (step sha256) (new memory) events → Complete sha256 events s) := by
    refine run_total (P := fun ys s _ => s.Inv ∧
      (Along Smooth (step sha256) (new memory) ys → Complete sha256 ys s))
      ⟨new_inv memory, fun _ => ⟨rfl, rfl, by simp [new], rfl⟩⟩ h ?_
    rintro ys e s outs - hr ⟨hinv, hc⟩ ha
    obtain ⟨s', hs', hinv'⟩ := hinv.step ha
    refine ⟨s', (), hs', hinv', fun hsm => ?_⟩
    exact (hc (hsm.restrict (List.prefix_append _ _))).step hinv
      (hsm ys e (List.prefix_refl _) s outs hr) hs'
  obtain ⟨s, outs, hr, hinv, hc⟩ := hrun
  have hlen := hinv.length
  exact ⟨s, outs, hr, hinv.places, show s.resend.length ≤ accountResponsePoolSize by omega, hc⟩

/-! ## What is lost -/

/-- The same account for every client, which gateway 3 serves. -/
def sampleStates : ClientStates := .new fun id =>
  { clientId := id, key := fun _ => 0, assetId := fun _ => 5, authorized := 3, connected := -1,
    confirmed := fun _ => 10, attempt := fun _ => 0 }

def sampleRequest : RoutedAuthRequest where
  requestType := .details
  clientId := 7
  key := fun _ => 0
  clientFd := 5
  gatewayId := 3

/-- Client 7 asks for its details. -/
def login : ResponseEvent := .request sampleStates sampleRequest

def sampleMemory : Nat → ClientAccountSnapshot := fun _ => denial .refused sampleRequest

/-- `send` on descriptor 9. -/
def attempt (answer : SendAnswer) : Attempt := ⟨⟨9, 1⟩, answer, ⟨9, 1⟩⟩

/-- Two responses, of which one is sent. -/
def smoothRun : List ResponseEvent := [login, login, .consume (attempt (.sent snapshotSize))]

theorem run_responses_smooth : ∃ s outs,
    run (step id) (new sampleMemory) smoothRun = .ok (s, outs) ∧
      s.places.Perm (List.range accountResponsePoolSize) ∧ Complete id smoothRun s := by
  have hans : Along (Answerable id) (step id) (new sampleMemory) smoothRun := by decide +kernel
  have hsm : Along Smooth (step id) (new sampleMemory) smoothRun := by decide +kernel
  obtain ⟨s, outs, hr, hplaces, -, hc⟩ := run_responses hans
  exact ⟨s, outs, hr, hplaces, hc hsm⟩

/-- A login for a gateway that is not connected, or whose connection has broken: the snapshot is
nowhere. One for a gateway that takes 100 of its bytes: it is given back as sent. One for a gateway
that takes nothing at the moment: it is kept, and stays there whatever happens later. After 128
logins for a gateway that is not connected the next one finds no snapshot. -/
theorem response_lost :
    (∀ x ∈ [⟨noFd, .sent snapshotSize, noFd⟩, attempt .failed], ∃ s outs,
      run (step id) (new sampleMemory) [login, .consume x] = .ok (s, outs) ∧
        0 ∉ s.free ∧ s.queue = [] ∧ s.resend = [] ∧ s.sent = []) ∧
    (∃ s outs, run (step id) (new sampleMemory) [login, .consume (attempt (.sent 100))] =
      .ok (s, outs) ∧ 0 ∈ s.free ∧ s.sent.map (·.bytes) = [100]) ∧
    (∃ s outs, run (step id) (new sampleMemory) [login, .consume (attempt .blocked)] =
      .ok (s, outs) ∧
      ∀ later s' outs', run (step id) s later = .ok (s', outs') → ⟨3, 0⟩ ∈ s'.resend) ∧
    ∃ s outs, run (step id) (new sampleMemory) ((List.replicate 128
      [login, .consume ⟨noFd, .sent snapshotSize, noFd⟩]).flatten) = .ok (s, outs) ∧
      s.step id login = .error .nullDeref := by
  refine ⟨fun x hx => ?_, ?_, ?_, ?_⟩
  · rcases List.mem_cons.mp hx with rfl | hx
    · exact exists_of_succeeds (by decide +kernel)
    · rw [List.mem_singleton.mp hx]
      exact exists_of_succeeds (by decide +kernel)
  · exact exists_of_succeeds (by decide +kernel)
  · obtain ⟨s, outs, hr, hkept⟩ := exists_of_succeeds (P := fun s _ => ⟨3, 0⟩ ∈ s.resend)
      (r := run (step id) (new sampleMemory) [login, .consume (attempt .blocked)])
      (by decide +kernel)
    exact ⟨s, outs, hr, fun later s' outs' h => (run_keeps h).subset hkept⟩
  · obtain ⟨s, outs, hr, hnone⟩ := exists_of_succeeds (P := fun s _ => s.free = [])
      (r := run (step id) (new sampleMemory) ((List.replicate 128
        [login, .consume ⟨noFd, .sent snapshotSize, noFd⟩]).flatten)) (by decide +kernel)
    refine ⟨s, outs, hr, ?_⟩
    have hanswer : (processMessage id sampleStates sampleRequest).isSome := by decide +kernel
    obtain ⟨snapshot, hp⟩ := Option.isSome_iff_exists.mp hanswer
    simp [Responses.step, login, hp, Responses.respond, hnone, Except.map]

end Naoto.Account
