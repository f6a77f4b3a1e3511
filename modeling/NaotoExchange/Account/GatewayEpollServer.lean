import NaotoExchange.Gateway.OrderRouter
import NaotoExchange.Lib.Run

/-!
# The table of gateway connections

`gateway_epoll_server.hpp` on top of `epoll_server.hpp`: `Gateways` has the descriptor of each
gateway, `FdToGateways` the gateway of each descriptor. The latter is only ever written by a
handshake: a descriptor that never had one counts as one of gateway 0, and a descriptor that is used
again as one of its old gateway.

* `run_connections`: the table is right as long as no connection closes whose descriptor
  `FdToGateways` assigns to a gateway that another connection serves.
* `stray_connection`: a connection that closes before its handshake cuts off gateway 0.
-/

namespace Naoto.Account

open Run Gateway

/-- `MaxGateways`. -/
def maxGateways : Nat := 16

/-- No connection. -/
def noFd : VersionedFd := ⟨-1, 0⟩

/-- Another descriptor; the slot has changed once more. -/
def switchFd (v : VersionedFd) (fd : Int32) : VersionedFd := ⟨fd, v.gen + 1⟩

/-- Which descriptor serves which gateway, and back. -/
structure GatewayEpollServer where
  gateways : UInt16 → VersionedFd
  fdToGateways : UInt32 → UInt16
  firstMessage : UInt32 → Bool

namespace GatewayEpollServer

/-- No gateway is connected. -/
def new : GatewayEpollServer where
  gateways := fun _ => noFd
  fdToGateways := fun _ => 0
  firstMessage := fun _ => false

variable (s : GatewayEpollServer)

/-- `addClient`. -/
def accept (fd : UInt32) : GatewayEpollServer :=
  { s with firstMessage := Function.update s.firstMessage fd true }

/-- The gateway is served by the descriptor. An id of `MaxGateways` passes the test. -/
def firstMessageHandle (gatewayId : UInt16) (fd : UInt32) : GatewayEpollServer :=
  if maxGateways < gatewayId.toNat then s
  else { s with
    gateways := Function.update s.gateways gatewayId (switchFd (s.gateways gatewayId) fd.toInt32)
    fdToGateways := Function.update s.fdToGateways fd gatewayId }

/-- The handshake is the first message of its connection. -/
def handshake (fd : UInt32) (gatewayId : UInt16) : GatewayEpollServer :=
  { s.firstMessageHandle gatewayId fd with
    firstMessage := Function.update s.firstMessage fd false }

/-- Whoever was last named on the descriptor loses its entry. -/
def closeHandle (fd : UInt32) : GatewayEpollServer :=
  let g := s.fdToGateways fd
  { s with gateways := Function.update s.gateways g (switchFd (s.gateways g) (-1)) }

end GatewayEpollServer

/-- What happens on the connections. -/
inductive ConnectionEvent where
  | accept (fd : UInt32)
  | handshake (fd : UInt32) (gatewayId : UInt16)
  | close (fd : UInt32)
  deriving DecidableEq

/-- The handler of the event. -/
def GatewayEpollServer.handle (s : GatewayEpollServer) : ConnectionEvent → GatewayEpollServer
  | .accept fd => s.accept fd
  | .handshake fd gatewayId => s.handshake fd gatewayId
  | .close fd => s.closeHandle fd

/-! ## What the table is for -/

/-- A connection on a descriptor. -/
inductive Connection where
  | closed
  | greeting
  | named (gatewayId : UInt16)
  deriving DecidableEq

/-- What has happened on the descriptors. -/
structure Connections where
  conn : UInt32 → Connection
  /-- The connection of the most recent handshake that named the gateway, if it is open. -/
  serving : UInt16 → Option UInt32
  /-- The gateway of the most recent handshake on the descriptor, by whichever connection. -/
  lastNamed : UInt32 → UInt16

namespace Connections

/-- Everything is closed. -/
def start : Connections := ⟨fun _ => .closed, fun _ => none, fun _ => 0⟩

/-- What a bystander makes of the event. -/
def observe (c : Connections) : ConnectionEvent → Connections
  | .accept fd => { c with conn := Function.update c.conn fd .greeting }
  | .handshake fd g =>
    { conn := Function.update c.conn fd (.named g)
      serving := Function.update c.serving g (some fd)
      lastNamed := Function.update c.lastNamed fd g }
  | .close fd => { c with
      conn := Function.update c.conn fd .closed
      serving := fun g => if c.serving g = some fd then none else c.serving g }

/-- The event can happen: descriptors are those of open connections, and a new one is not. -/
def Allows (c : Connections) : ConnectionEvent → Prop
  | .accept fd => c.conn fd = .closed
  | .handshake fd g => c.conn fd = .greeting ∧ g.toNat < maxGateways
  | .close fd => c.conn fd ≠ .closed

instance (c : Connections) : (e : ConnectionEvent) → Decidable (c.Allows e)
  | .accept _ => inferInstanceAs (Decidable (_ = _))
  | .handshake _ _ => inferInstanceAs (Decidable (_ ∧ _))
  | .close _ => inferInstanceAs (Decidable (_ ≠ _))

/-- The gateway that a closing descriptor counts for is not served by another connection. -/
def Harmless (c : Connections) : ConnectionEvent → Prop
  | .close fd => c.serving (c.lastNamed fd) = none ∨ c.serving (c.lastNamed fd) = some fd
  | _ => True

instance (c : Connections) : (e : ConnectionEvent) → Decidable (c.Harmless e)
  | .accept _ => inferInstanceAs (Decidable True)
  | .handshake _ _ => inferInstanceAs (Decidable True)
  | .close _ => inferInstanceAs (Decidable (_ ∨ _))

end Connections

/-! ## The table and the connections -/

/-- The descriptor of a gateway, -1 if nobody serves it. -/
def entryOf : Option UInt32 → Int32
  | some fd => fd.toInt32
  | none => -1

/-- The server's tables say what the bystander saw. -/
structure Reflects (s : GatewayEpollServer) (c : Connections) : Prop where
  fds : s.fdToGateways = c.lastNamed
  entries : ∀ g, (s.gateways g).fd = entryOf (c.serving g)
  /-- Who serves a gateway has named it, and nothing was named on the descriptor since. -/
  named : ∀ g fd, c.serving g = some fd → c.conn fd = .named g ∧ c.lastNamed fd = g

theorem new_reflects : Reflects .new .start := ⟨rfl, fun _ => rfl, fun _ _ h => by cases h⟩

section
variable {s : GatewayEpollServer} {c : Connections}

theorem Reflects.not_serving (h : Reflects s c) {fd : UInt32} (hconn : ∀ g, c.conn fd ≠ .named g)
    (g : UInt16) : c.serving g ≠ some fd := fun hs => hconn g (h.named g fd hs).1

theorem Reflects.accept (h : Reflects s c) {fd : UInt32} (hclosed : c.conn fd = .closed) :
    Reflects (s.accept fd) (c.observe (.accept fd)) := by
  refine ⟨h.fds, h.entries, fun g fd' hs => ?_⟩
  have hne : fd' ≠ fd := by
    rintro rfl
    exact h.not_serving (fun g => by rw [hclosed]; exact nofun) g hs
  refine ⟨?_, (h.named g fd' hs).2⟩
  show Function.update c.conn fd _ fd' = _
  rw [Function.update_of_ne hne]
  exact (h.named g fd' hs).1

theorem Reflects.handshake (h : Reflects s c) {fd : UInt32} {g : UInt16}
    (hgreeting : c.conn fd = .greeting)
    (hg : g.toNat < maxGateways) : Reflects (s.handshake fd g) (c.observe (.handshake fd g)) := by
  have hpass : ¬ maxGateways < g.toNat := by omega
  have hfree := h.not_serving (fun g => by rw [hgreeting]; exact nofun)
  unfold GatewayEpollServer.handshake GatewayEpollServer.firstMessageHandle
  rw [if_neg hpass]
  refine ⟨?_, fun g' => ?_, fun g' fd' hs => ?_⟩
  · show Function.update s.fdToGateways fd g = Function.update c.lastNamed fd g
    rw [h.fds]
  · show (Function.update s.gateways g _ g').fd = entryOf (Function.update c.serving g (some fd) g')
    by_cases heq : g' = g
    · rw [heq, Function.update_self, Function.update_self]
      rfl
    · rw [Function.update_of_ne heq, Function.update_of_ne heq]
      exact h.entries g'
  · change Function.update c.serving g (some fd) g' = some fd' at hs
    show Function.update c.conn fd _ fd' = _ ∧ Function.update c.lastNamed fd _ fd' = _
    by_cases heq : g' = g
    · rw [heq, Function.update_self] at hs
      obtain rfl := Option.some.inj hs
      rw [heq, Function.update_self, Function.update_self]
      exact ⟨rfl, rfl⟩
    · rw [Function.update_of_ne heq] at hs
      have hne : fd' ≠ fd := fun he => hfree g' (he ▸ hs)
      rw [Function.update_of_ne hne, Function.update_of_ne hne]
      exact h.named g' fd' hs

/-- **A harmless close** leaves the gateways alone that other connections serve. -/
theorem Reflects.closeHandle_other (h : Reflects s c) {fd : UInt32}
    (hharmless : c.Harmless (.close fd))
    {g : UInt16} {fd' : UInt32} (hs : c.serving g = some fd') (hne : fd' ≠ fd) :
    (s.closeHandle fd).gateways g = s.gateways g := by
  have hg : g ≠ s.fdToGateways fd := by
    rintro rfl
    rw [h.fds] at hs
    cases hharmless with
    | inl hnone =>
      rw [hnone] at hs
      cases hs
    | inr hself =>
      rw [hself] at hs
      exact hne (Option.some.inj hs).symm
  exact Function.update_of_ne hg _ _

theorem Reflects.close (h : Reflects s c) {fd : UInt32} (hharmless : c.Harmless (.close fd)) :
    Reflects (s.closeHandle fd) (c.observe (.close fd)) := by
  refine ⟨h.fds, fun g => ?_, fun g fd' hs => ?_⟩
  · show ((s.closeHandle fd).gateways g).fd = entryOf (if c.serving g = some fd then none else
      c.serving g)
    by_cases hself : g = s.fdToGateways fd
    · -- the entry that is cleared: nobody serves it afterwards
      have hnone : (if c.serving g = some fd then none else c.serving g) = none := by
        rw [hself, h.fds]
        split
        · rfl
        · rename_i hother
          exact hharmless.resolve_right hother
      rw [hnone, hself]
      show (Function.update s.gateways _ _ _).fd = -1
      rw [Function.update_self]
      rfl
    · have hkeep : c.serving g ≠ some fd := by
        intro hs
        apply hself
        rw [h.fds]
        exact (h.named g fd hs).2.symm
      rw [if_neg hkeep, ← h.entries g]
      exact congrArg VersionedFd.fd (Function.update_of_ne hself _ _)
  · change (if c.serving g = some fd then none else c.serving g) = some fd' at hs
    split at hs
    · cases hs
    · rename_i hother
      have hne : fd' ≠ fd := fun he => hother (he ▸ hs)
      refine ⟨?_, (h.named g fd' hs).2⟩
      show Function.update c.conn fd _ fd' = _
      rw [Function.update_of_ne hne]
      exact (h.named g fd' hs).1

theorem Reflects.handle (h : Reflects s c) {e : ConnectionEvent} (hallowed : c.Allows e)
    (hharmless : c.Harmless e) : Reflects (s.handle e) (c.observe e) := by
  cases e with
  | accept fd => exact h.accept hallowed
  | handshake fd g => exact h.handshake hallowed.1 hallowed.2
  | close fd => exact h.close hharmless

theorem run_reflects {es : List ConnectionEvent}
    (hallowed : Through Connections.Allows Connections.observe .start es)
    (hharmless : Through Connections.Harmless Connections.observe .start es) :
    Reflects (es.foldl GatewayEpollServer.handle .new) (es.foldl Connections.observe .start) := by
  induction es using List.reverseRecOn with
  | nil => exact new_reflects
  | append_singleton es e ih =>
    have hpre := List.prefix_append es [e]
    rw [List.foldl_append, List.foldl_append]
    exact (ih (hallowed.restrict hpre) (hharmless.restrict hpre)).handle
      (hallowed es e (List.prefix_refl _)) (hharmless es e (List.prefix_refl _))

end

/-- **The connection table**: each gateway's entry is the descriptor of the connection of its most
recent handshake while that is open, and -1 otherwise; and a close does not touch the entry of a
gateway that another connection serves. -/
theorem run_connections {es : List ConnectionEvent}
    (hallowed : Through Connections.Allows Connections.observe .start es)
    (hharmless : Through Connections.Harmless Connections.observe .start es) :
    (∀ g, ((es.foldl GatewayEpollServer.handle .new).gateways g).fd =
      entryOf ((es.foldl Connections.observe .start).serving g)) ∧
    ∀ xs fd, xs ++ [.close fd] <+: es → ∀ g fd',
      (xs.foldl Connections.observe .start).serving g = some fd' → fd' ≠ fd →
      ((xs.foldl GatewayEpollServer.handle .new).closeHandle fd).gateways g =
        (xs.foldl GatewayEpollServer.handle .new).gateways g := by
  refine ⟨(run_reflects hallowed hharmless).entries, fun xs fd hp g fd' hs hne => ?_⟩
  have hpre : xs <+: es := (List.prefix_append _ _).trans hp
  exact (run_reflects (hallowed.restrict hpre) (hharmless.restrict hpre)).closeHandle_other
    (hharmless xs (.close fd) hp) hs hne

/-- Gateway 3 connects, reconnects on the same descriptor, and gateway 0 comes and goes. -/
def sampleConnections : List ConnectionEvent :=
  [.accept 5, .handshake 5 3, .close 5, .accept 5, .accept 6, .handshake 6 0, .handshake 5 3,
    .close 6]

theorem run_connections_sample :
    ((sampleConnections.foldl GatewayEpollServer.handle .new).gateways 3).fd = 5 ∧
      ((sampleConnections.foldl GatewayEpollServer.handle .new).gateways 0).fd = -1 := by
  have hallowed : Through Connections.Allows Connections.observe .start sampleConnections := by
    decide +kernel
  have hharmless : Through Connections.Harmless Connections.observe .start sampleConnections := by
    decide +kernel
  have h := (run_connections hallowed hharmless).1
  exact ⟨(h 3).trans (by decide +kernel), (h 0).trans (by decide +kernel)⟩

/-- Gateway 0 is connected on descriptor 5; a connection on descriptor 6 closes before its
handshake. -/
theorem stray_connection :
    let es := [.accept 5, .handshake 5 0, .accept 6, .close 6]
    Through Connections.Allows Connections.observe .start es ∧
      (es.foldl Connections.observe .start).serving 0 = some 5 ∧
      (es.foldl Connections.observe .start).conn 5 = .named 0 ∧
      ((es.foldl GatewayEpollServer.handle .new).gateways 0).fd = -1 := by
  decide +kernel

end Naoto.Account
