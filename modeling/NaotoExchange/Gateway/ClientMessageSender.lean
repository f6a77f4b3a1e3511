import NaotoExchange.Common.BytesBuffer
import NaotoExchange.Gateway.OrderRiskCheck
import NaotoExchange.Lib.Run

/-!
# Confirmations to the clients

`order_confirmation.hpp`, `client_message.hpp` and `client_message_sender.hpp`. A message is popped
together with the answers that the calls of `send` get while it is handled.

* `run_confirmations`: as long as no call on a descriptor would block, the bytes written to it are
  the confirmations in queue order.
* `blocked_confirmation_lost`: after `EAGAIN` the resend buffer is drained, but the bytes were never
  put there; and an interrupted drain counts below zero and drops it.
-/

namespace Naoto.Gateway

open FixedWidth SendLoop Run

/-- What the gateway tells a client about an order. -/
structure OrderConfirmation where
  orderId : UInt32
  clientOrderId : UInt32
  status : OrderConfirmationStatus
  deriving DecidableEq, Repr

/-- The packed struct in memory. -/
def OrderConfirmation.bytes (c : OrderConfirmation) : List UInt8 :=
  littleEndian 4 c.orderId.toNat ++ littleEndian 4 c.clientOrderId.toNat ++ [c.status.code]

theorem OrderConfirmation.length_bytes (c : OrderConfirmation) : c.bytes.length = 9 := by
  simp [OrderConfirmation.bytes]

/-- A confirmation and the descriptor it is for. -/
structure ClientMessage where
  fd : UInt32
  confirmation : OrderConfirmation
  deriving DecidableEq, Repr

/-- `sizeof(ConfirmationResendBuffer)` without its count. -/
def confirmationBufferSize : UInt64 := 144

/-- One buffer per descriptor for what a `send` did not take. -/
structure ClientMessageSender where
  confirmationBuffer : UInt32 → BytesBuffer
  /-- What each call of `send` on a descriptor took. -/
  writes : UInt32 → List (List UInt8)
  /-- The confirmations for a descriptor that were not dropped whole. -/
  kept : UInt32 → List OrderConfirmation

namespace ClientMessageSender

/-- Empty buffers; what their memory holds is left open. -/
def new (memory : UInt32 → UInt64 → UInt8) : ClientMessageSender where
  confirmationBuffer := fun fd => .new (memory fd)
  writes := fun _ => []
  kept := fun _ => []

/-- What handling a message does to the buffer of its descriptor, what it writes there, and whether
the confirmation is kept: `DrainBuffer`, then `SendOrderConfirmation` or `Add`. -/
def deliver (b : BytesBuffer) (confirmation : OrderConfirmation) (rs : List SendResult) :
    BytesBuffer × List (List UInt8) × Bool :=
  let d := b.drainLoop 0 rs
  if d.drained then
    let sent := sendAll confirmation.bytes d.rest
    (b.clear.add (UInt64.ofNat sent.unsent.length), d.writes ++ sent.writes, true)
  else
    let b := b.shift d.totalSent
    if b.canAdd confirmationBufferSize 9 then (b.add 9, d.writes, true) else (b, d.writes, false)

/-- The body of `StartLoop` with a message popped. -/
def handle (s : ClientMessageSender) (p : ClientMessage × List SendResult) : ClientMessageSender :=
  let fd := p.1.fd
  let r := deliver (s.confirmationBuffer fd) p.1.confirmation p.2
  { confirmationBuffer := Function.update s.confirmationBuffer fd r.1
    writes := Function.update s.writes fd (s.writes fd ++ r.2.1)
    kept := Function.update s.kept fd
      (if r.2.2 then s.kept fd ++ [p.1.confirmation] else s.kept fd) }

end ClientMessageSender

open ClientMessageSender

/-- The confirmations for a descriptor, in queue order. -/
def confirmationsFor (fd : UInt32) (msgs : List (ClientMessage × List SendResult)) :
    List OrderConfirmation :=
  (msgs.filter fun p => p.1.fd = fd).map fun p => p.1.confirmation

/-- Nothing is buffered for the descriptor, and it has got the confirmations so far. -/
structure InStep (fd : UInt32) (msgs : List (ClientMessage × List SendResult))
    (s : ClientMessageSender) : Prop where
  buffer : (s.confirmationBuffer fd).size = 0
  kept : s.kept fd = confirmationsFor fd msgs
  written : (s.writes fd).flatten = (s.kept fd).flatMap OrderConfirmation.bytes

section
variable {fd : UInt32} {b : BytesBuffer} {rs : List SendResult} {s : ClientMessageSender}
  {msgs : List (ClientMessage × List SendResult)} {p : ClientMessage × List SendResult}

theorem deliver_empty (hb : b.size = 0) (h : .again ∉ rs) (confirmation : OrderConfirmation) :
    (deliver b confirmation rs).1.size = 0 ∧
      (deliver b confirmation rs).2.1.flatten = confirmation.bytes ∧
      (deliver b confirmation rs).2.2 = true := by
  unfold deliver
  rw [BytesBuffer.drainLoop_empty hb]
  simp only [if_true, List.nil_append]
  rw [sendAll_complete h]
  exact ⟨rfl, sendAll_writes h, trivial⟩

theorem InStep.handle_self (h : InStep p.1.fd msgs s) (hp : .again ∉ p.2) :
    InStep p.1.fd (msgs ++ [p]) (s.handle p) := by
  obtain ⟨hsize, hwritten, hkept⟩ := deliver_empty h.buffer hp p.1.confirmation
  have hk : (s.handle p).kept p.1.fd = s.kept p.1.fd ++ [p.1.confirmation] := by
    simp only [handle, Function.update_self, hkept, if_true]
  refine ⟨?_, ?_, ?_⟩
  · simp only [handle, Function.update_self]
    exact hsize
  · rw [hk, h.kept]
    simp [confirmationsFor]
  · rw [hk, List.flatMap_append, ← h.written]
    simp only [handle, Function.update_self, List.flatten_append, hwritten, List.flatMap_singleton]

theorem InStep.handle_other (h : InStep fd msgs s) (hp : p.1.fd ≠ fd) :
    InStep fd (msgs ++ [p]) (s.handle p) := by
  have hne : fd ≠ p.1.fd := fun he => hp he.symm
  refine ⟨?_, ?_, ?_⟩
  · simp only [handle, Function.update_of_ne hne]
    exact h.buffer
  · simp only [handle, Function.update_of_ne hne]
    rw [h.kept]
    simp [confirmationsFor, hp]
  · simp only [handle, Function.update_of_ne hne]
    exact h.written

theorem run_inStep (memory : UInt32 → UInt64 → UInt8) (fd : UInt32)
    (h : ∀ p ∈ msgs, p.1.fd = fd → .again ∉ p.2) :
    InStep fd msgs (msgs.foldl handle (new memory)) := by
  induction msgs using List.reverseRecOn with
  | nil => exact ⟨rfl, rfl, rfl⟩
  | append_singleton msgs p ih =>
    have hbefore := ih fun q hq => h q (List.mem_append_left _ hq)
    rw [List.foldl_append]
    by_cases hp : p.1.fd = fd
    · subst hp
      exact hbefore.handle_self (h p (List.mem_append_right _ (.head _)) rfl)
    · exact hbefore.handle_other hp

end

/-- **The confirmation stream of a descriptor** on which no call would block: at all times the bytes
written are the beginning of the confirmations in queue order, of which none is dropped, and the
byte count of a drain stays in the buffer. -/
theorem run_confirmations (memory : UInt32 → UInt64 → UInt8) (fd : UInt32)
    {msgs : List (ClientMessage × List SendResult)} (h : ∀ p ∈ msgs, p.1.fd = fd → .again ∉ p.2) :
    (∀ ws, ws <+: (msgs.foldl handle (new memory)).writes fd →
      ws.flatten <+: ((msgs.foldl handle (new memory)).kept fd).flatMap OrderConfirmation.bytes) ∧
    (msgs.foldl handle (new memory)).kept fd = confirmationsFor fd msgs ∧
    ∀ xs p, xs ++ [p] <+: msgs → p.1.fd = fd →
      let b := (xs.foldl handle (new memory)).confirmationBuffer fd
      (b.drainLoop 0 p.2).totalSent ≤ b.size := by
  have hrun := run_inStep memory fd h
  refine ⟨fun ws hws => ?_, hrun.kept, fun xs p hp hfd => ?_⟩
  · rw [← hrun.written]
    obtain ⟨later, hlater⟩ := hws
    rw [← hlater, List.flatten_append]
    exact List.prefix_append _ _
  · have hbefore : InStep fd xs (xs.foldl handle (new memory)) :=
      run_inStep memory fd fun q hq => h q (hp.subset (List.mem_append_left _ hq))
    intro b
    rw [BytesBuffer.drainLoop_empty hbefore.buffer]
    exact UInt64.zero_le

/-- Two confirmations for descriptor 5 and one for descriptor 6. -/
def sampleMessages (first second : List SendResult) : List (ClientMessage × List SendResult) :=
  [(⟨5, ⟨1, 11, .accepted⟩⟩, first), (⟨6, ⟨2, 12, .accepted⟩⟩, [.again]),
   (⟨5, ⟨3, 13, .insufficientFunds⟩⟩, second)]

/-- The first one goes out in two pieces, the second is interrupted once; descriptor 6 would block.
-/
theorem run_confirmations_sample :
    let s := (sampleMessages [.sent 3] [.interrupted]).foldl handle (new fun _ _ => 0)
    s.writes 5 = [[1, 0, 0, 0], [11, 0, 0, 0, 0], [3, 0, 0, 0, 13, 0, 0, 0, 1]] ∧
      (s.writes 5).flatten <+: (s.kept 5).flatMap OrderConfirmation.bytes ∧
      s.kept 5 = [⟨1, 11, .accepted⟩, ⟨3, 13, .insufficientFunds⟩] :=
  have h := run_confirmations (fun _ _ => 0) 5
    (show ∀ p ∈ sampleMessages [.sent 3] [.interrupted], p.1.fd = 5 → .again ∉ p.2 by decide)
  ⟨by decide +kernel, h.1 _ (List.prefix_refl _), h.2.1⟩

/-- The first confirmation finds the descriptor blocked. Then the second goes out after nine bytes
of the memory of the buffer; or, if its drain is interrupted, the count goes below zero and the
first is lost. -/
theorem blocked_confirmation_lost :
    let s := (sampleMessages [.again] []).foldl handle (new fun _ _ => 0)
    let s' := (sampleMessages [.again] [.interrupted]).foldl handle (new fun _ _ => 0)
    let b := ((sampleMessages [.again] []).take 2 |>.foldl handle
      (new fun _ _ => 0)).confirmationBuffer 5
    s.kept 5 = [⟨1, 11, .accepted⟩, ⟨3, 13, .insufficientFunds⟩] ∧
      s.writes 5 = [[0, 0, 0, 0, 0, 0, 0, 0, 0], [3, 0, 0, 0, 13, 0, 0, 0, 1]] ∧
      ¬ (s.writes 5).flatten <+: (s.kept 5).flatMap OrderConfirmation.bytes ∧
      (b.drainLoop 0 [.interrupted]).totalSent = 18446744073709551615 ∧
      s'.writes 5 = [[3, 0, 0, 0, 13, 0, 0, 0, 1]] := by
  decide +kernel

end Naoto.Gateway
