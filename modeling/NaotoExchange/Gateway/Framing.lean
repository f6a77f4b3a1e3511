import NaotoExchange.Common.Conf
import NaotoExchange.Common.Proof.EpollServer
import NaotoExchange.Lib.Run

/-!
# Framing of the gateway's connections

The clients' connections (`EpollServer`) and the connection to the account service
(`account_service_response_receiver.hpp`) cut their streams into messages.

* `run_framed`: as long as no batch holds both a complete and an incomplete message, what is handed
  on is the stream, cut into messages, however `recv` cuts it.
* `halfOrder_shifts`: a batch with one order and a half of the next one keeps bytes from somewhere
  else in place of the half.
-/

namespace Naoto.Gateway

open Run

/-- The clients: `Order` messages after a `ClientAuthRequest`. -/
def orderWire : Wire where
  size := 40
  batch := gatewayEpollReceiveBatchSize
  init := some 37
  size_pos := by decide
  batch_pos := by decide
  init_pos := by simp
  init_le := by simp

/-- The account service: `ClientAccountSnapshot` messages. -/
def snapshotWire : Wire where
  size := 305
  batch := gatewayClientRequestResponseBatchSize
  init := none
  size_pos := by decide
  batch_pos := by decide
  init_pos := by simp
  init_le := by simp

/-- The gateway's end of its connection to the account service. -/
structure AccountServiceResponseReceiver extends Conn where
  bufferGen : UInt32

namespace AccountServiceResponseReceiver

/-- The buffer of another generation is dropped. -/
def sync (curGen : UInt32) (r : AccountServiceResponseReceiver) : AccountServiceResponseReceiver :=
  { r with
    buffer := if r.bufferGen ≠ curGen then [] else r.buffer
    bufferGen := curGen }

/-- The batch is pushed even if it is empty. -/
def receive (r : AccountServiceResponseReceiver) (piece : List UInt8) (mem : Nat → UInt8) :
    AccountServiceResponseReceiver :=
  let p := snapshotWire.split r.buffer piece mem
  { r with
    unread := r.unread.drop piece.length
    buffer := p.2
    pushed := r.pushed ++ [p.1] }

/-- `ProcessResponses`, with the generation of `AccountFd` unless its descriptor is -1. -/
def processResponses (accountFd : Option UInt32) (r : AccountServiceResponseReceiver)
    (recv : Recv) : AccountServiceResponseReceiver :=
  match accountFd with
  | none => { r with buffer := [] }
  | some curGen =>
    let r := r.sync curGen
    match recv with
    | .intr => r
    | .bytes n mem =>
      let piece := snapshotWire.piece r.toConn n
      if piece.isEmpty then r else r.receive piece mem

/-- A new connection, of the generation `gen`, that `stream` will come in on. -/
structure Fresh (gen : UInt32) (stream : List UInt8) (r : AccountServiceResponseReceiver) :
    Prop where
  conn : (r.sync gen).toConn = snapshotWire.newConn stream

/-- The bytes that the answer of `recv` puts in a batch are whole. -/
def WholeAnswer (gen : UInt32) (r : AccountServiceResponseReceiver) : Recv → Prop
  | .intr => True
  | .bytes n _ =>
    snapshotWire.Whole ((r.sync gen).buffer.length +
      (snapshotWire.piece (r.sync gen).toConn n).length)

instance (gen : UInt32) (r : AccountServiceResponseReceiver) :
    ∀ recv, Decidable (WholeAnswer gen r recv)
  | .intr => .isTrue trivial
  | .bytes _ _ => inferInstanceAs (Decidable (Wire.Whole _ _))

theorem sync_of_gen {gen : UInt32} {r : AccountServiceResponseReceiver} (h : r.bufferGen = gen) :
    r.sync gen = r := by
  subst h
  simp [sync]

theorem processResponses_bufferGen (gen : UInt32) (r : AccountServiceResponseReceiver)
    (recv : Recv) : (processResponses (some gen) r recv).bufferGen = gen := by
  cases recv with
  | intr => rfl
  | bytes n mem =>
    simp only [processResponses]
    split <;> rfl

theorem processResponses_received {gen : UInt32} {r : AccountServiceResponseReceiver} {recv : Recv}
    {stream : List UInt8} (h : ∃ consumed, snapshotWire.Received stream consumed
      (r.sync gen).toConn)
    (hw : WholeAnswer gen r recv) : ∃ consumed, snapshotWire.Received stream consumed
      ((processResponses (some gen) r recv).sync gen).toConn := by
  obtain ⟨consumed, h⟩ := h
  rw [sync_of_gen (processResponses_bufferGen gen r recv)]
  cases recv with
  | intr => exact ⟨consumed, h⟩
  | bytes n mem =>
    simp only [processResponses]
    split
    · exact ⟨consumed, h⟩
    · refine ⟨consumed ++ snapshotWire.piece (r.sync gen).toConn n, ?_⟩
      apply h.batch (Nat.zero_le _) mem _ hw
      rw [List.flatten_append, List.flatten_singleton]

end AccountServiceResponseReceiver

/-! ## Whole runs -/

/-- `c` has delivered what it consumed of `stream`. -/
def Delivers (wire : Wire) (stream : List UInt8) (c : Conn) : Prop :=
  ∃ consumed, wire.Received stream consumed c

/-- No batch of the call holds both a complete and an incomplete message. -/
def WholeCall (wire : Wire) (c : Conn) (rs : List Recv) : Prop :=
  ∀ k ∈ wire.readTotals c rs, wire.Whole k

instance (wire : Wire) (c : Conn) (rs : List Recv) : Decidable (WholeCall wire c rs) :=
  List.decidableBAll wire.Whole (wire.readTotals c rs)

theorem readMessage_delivers (wire : Wire) {stream : List UInt8} {calls : List (List Recv)}
    (hw : Through (WholeCall wire) wire.readMessage (wire.newConn stream) calls) :
    Delivers wire stream (calls.foldl wire.readMessage (wire.newConn stream)) := by
  refine foldl_invariant (P := fun _ c => Delivers wire stream c)
    ⟨[], wire.newConn_received stream⟩ hw ?_
  intro _ rs c h hcall
  obtain ⟨consumed, h⟩ := h
  exact h.readMessage hcall

open AccountServiceResponseReceiver in
theorem processResponses_delivers {gen : UInt32} {stream : List UInt8}
    {r : AccountServiceResponseReceiver} {answers : List Recv} (hr : Fresh gen stream r)
    (hw : Through (WholeAnswer gen) (processResponses (some gen)) r answers) :
    Delivers snapshotWire stream
      ((answers.foldl (processResponses (some gen)) r).sync gen).toConn := by
  refine foldl_invariant (P := fun _ r => Delivers snapshotWire stream (r.sync gen).toConn) ?_ hw ?_
  · refine ⟨[], ?_⟩
    rw [hr.conn]
    exact snapshotWire.newConn_received stream
  · intro _ recv r h hanswer
    exact processResponses_received h hanswer

open AccountServiceResponseReceiver in
/-- **Framing does not depend on the cut.** Both receivers deliver what they consumed of the stream,
and any two connections that have consumed the same have delivered the same. -/
theorem run_framed (stream : List UInt8) :
    (∀ (wire : Wire) (calls : List (List Recv)),
      Through (WholeCall wire) wire.readMessage (wire.newConn stream) calls →
      Delivers wire stream (calls.foldl wire.readMessage (wire.newConn stream))) ∧
    (∀ (gen : UInt32) (r : AccountServiceResponseReceiver) (answers : List Recv),
      Fresh gen stream r → Through (WholeAnswer gen) (processResponses (some gen)) r answers →
      Delivers snapshotWire stream
        ((answers.foldl (processResponses (some gen)) r).sync gen).toConn) ∧
    (∀ (wire : Wire) (c c' : Conn), Delivers wire stream c → Delivers wire stream c' →
      c.unread.length = c'.unread.length →
      c.first = c'.first ∧ c.pushed.flatten = c'.pushed.flatten ∧ c.buffer = c'.buffer) := by
  refine ⟨fun wire calls hw => readMessage_delivers wire hw,
    fun gen r answers hr hw => processResponses_delivers hr hw, ?_⟩
  intro wire c c' h h' hlen
  obtain ⟨consumed, h⟩ := h
  obtain ⟨consumed', h'⟩ := h'
  exact h.unique h' hlen

/-- The bytes of a first message and of two orders. -/
def sampleStream : List UInt8 := (List.range 117).map UInt8.ofNat

/-- A batch from a pool whose memory is all ones. -/
def someBytes (n : Nat) : Recv := .bytes n fun _ => 255

/-- The first message in two pieces, an order in two pieces, and an order. -/
def sampleCalls : List (List Recv) :=
  [[someBytes 20], [.intr], [someBytes 17, .intr, someBytes 10, someBytes 30, someBytes 40]]

/-- A receiver that an earlier connection left with three bytes. -/
def sampleReceiver : AccountServiceResponseReceiver :=
  { snapshotWire.newConn sampleStream with buffer := [1, 2, 3], bufferGen := 6 }

def sampleAnswers : List Recv := [someBytes 60, .intr, someBytes 57]

open AccountServiceResponseReceiver in
theorem run_framed_sample :
    let c := sampleCalls.foldl orderWire.readMessage (orderWire.newConn sampleStream)
    let r := sampleAnswers.foldl (processResponses (some 7)) sampleReceiver
    Through (WholeCall orderWire) orderWire.readMessage (orderWire.newConn sampleStream)
      sampleCalls ∧ Delivers orderWire sampleStream c ∧ c.unread = [] ∧
      Fresh 7 sampleStream sampleReceiver ∧
      Through (WholeAnswer 7) (processResponses (some 7)) sampleReceiver sampleAnswers ∧
      Delivers snapshotWire sampleStream (r.sync 7).toConn ∧ r.buffer = sampleStream :=
  have hw : Through (WholeCall orderWire) orderWire.readMessage (orderWire.newConn sampleStream)
      sampleCalls := by decide +kernel
  have hr : Fresh 7 sampleStream sampleReceiver := ⟨by decide +kernel⟩
  have hw' : Through (WholeAnswer 7) (processResponses (some 7)) sampleReceiver sampleAnswers := by
    decide +kernel
  ⟨hw, (run_framed sampleStream).1 orderWire sampleCalls hw, by decide +kernel, hr, hw',
    (run_framed sampleStream).2.1 7 sampleReceiver sampleAnswers hr hw', by decide +kernel⟩

/-- One order and a half, then the other half: the second order begins with what the pool left in
the batch. -/
theorem halfOrder_shifts :
    let c := orderWire.readMessage (orderWire.newConn sampleStream)
      [someBytes 37, someBytes 60, someBytes 20]
    c.unread = [] ∧ c.first = [sampleStream.take 37] ∧
      c.pushed = [[(sampleStream.drop 37).take 40],
        [List.replicate 20 255 ++ sampleStream.drop 97]] ∧
      ¬ Delivers orderWire sampleStream c := by
  refine ⟨by decide +kernel, by decide +kernel, by decide +kernel, ?_⟩
  rintro ⟨consumed, h⟩
  have hall : consumed = sampleStream := by
    have hstream := h.stream
    rw [show (orderWire.readMessage (orderWire.newConn sampleStream)
      [someBytes 37, someBytes 60, someBytes 20]).unread = [] by decide +kernel,
      List.append_nil] at hstream
    exact hstream.symm
  have hpushed := h.pushed
  rw [hall] at hpushed
  revert hpushed
  decide +kernel

end Naoto.Gateway
