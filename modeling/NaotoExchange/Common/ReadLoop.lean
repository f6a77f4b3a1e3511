import NaotoExchange.Common.Conf
import NaotoExchange.Common.Proof.EpollServer
import NaotoExchange.Lib.RingIndex

/-!
# Reading until `recv` fails

`epoll_server.hpp` (`readMessage`) with what decides how it ends: `errno`, which only a failing call
changes, the pool that the batches come from, and the removal of the client. The environment says
what each call of `recv` answers, whether the pool's queue has a batch when the owner's own buffer
is empty, and whether the outgoing queue has room.

The loop asks for `errno == EINTR` whenever `recv` returns nothing, also when it returned 0.

* `readMessage_ends`: a call ends, gives its batches back and removes the client when it has to,
  exactly if `errno` is not `EINTR` where the loop for the batches finds the connection closed
  (`CloseSeen`), and a call that finds no batch first has not got another error in `errno`
  (`StartSeen`). `Gauge` says which calls of `recv` are made at all.
* `readMessage_conn`: what it reads is what `Wire.readMessage` says.
* `close_after_interrupt`: without the first condition it does not end, without the second one the
  client is removed.
-/

namespace Naoto.EpollServer

/-- The values of `errno` that the loop tells apart, and the others. -/
inductive Errno where
  | again
  | wouldBlock
  | intr
  | other (code : Nat)
  deriving DecidableEq, Repr

/-- `EAGAIN`, `EWOULDBLOCK` or `EINTR`: the connection stays. -/
def Errno.passing : Errno → Bool
  | other _ => false
  | _ => true

/-- What a call of `recv` meets: at most `n` bytes of the stream, into a batch with the memory `mem`
(`EAGAIN` if there are none); an orderly close; or an error. -/
inductive Answer where
  | bytes (n : Nat) (mem : Nat → UInt8)
  | close
  | fail (e : Errno)

/-- What the `k`-th call of `recv` and the calls around it meet. -/
structure Env where
  recv : Nat → Answer
  /-- `Consumer.TryPop` of the pool. -/
  pop : Nat → Option Nat
  /-- `OutgoingBatches.TryPush` succeeds. -/
  room : Nat → Bool

/-- The reading thread in the middle of a call. -/
structure Reader where
  conn : Conn
  errno : Errno
  nread : Int
  /-- `LocalReuseBuffer` of the pool, the last one first. -/
  localReuse : List Nat
  /-- The batches taken from the pool's queue in this call. -/
  drawn : List Nat
  /-- The batches pushed in this call. -/
  queued : List Nat
  /-- What the calls of `recv` returned, each with `errno` after it. -/
  returns : List (Int × Errno)

/-! ## Calls -/

section
variable (env : Env) (Q : RingIndex.Capacity) (r : Reader)

/-- `StoragePool::Acquire`. -/
def Reader.acquire : Option (Nat × Reader) :=
  match r.localReuse with
  | batch :: rest => some (batch, { r with localReuse := rest })
  | [] =>
    (env.pop r.returns.length).map fun batch => (batch, { r with drawn := r.drawn ++ [batch] })

/-- `StoragePool::LocalRelease`; nothing is done about a failure. -/
def Reader.localRelease (batch : Nat) : Reader :=
  if r.localReuse.length < Q.size.toNat then { r with localReuse := batch :: r.localReuse } else r

/-- A call of `recv` has returned, with `errno` as it is then. -/
def Reader.answered (nread : Int) (errno : Errno) : Reader :=
  { r with nread := nread, errno := errno, returns := r.returns ++ [(nread, errno)] }

/-- `recv` for at most `cap` bytes: the bytes and the memory they are written into, if any. It
returns 0 if it is asked for none. -/
def Reader.recv (cap : Nat) : Option (List UInt8 × (Nat → UInt8)) × Reader :=
  if cap = 0 then (none, r.answered 0 r.errno)
  else
    match env.recv r.returns.length with
    | .bytes n mem =>
      let piece := r.conn.unread.take (min n cap)
      if piece.isEmpty then (none, r.answered (-1) .again)
      else (some (piece, mem), r.answered piece.length r.errno)
    | .close => (none, r.answered 0 r.errno)
    | .fail e => (none, r.answered (-1) e)

/-- The descriptor is closed, and what was buffered is dropped. -/
def Reader.removeClient : Reader := { r with conn := { r.conn with buffer := [], closed := true } }

end

/-! ## `EpollServer::readMessage` -/

section
variable (wire : Wire) (Q : RingIndex.Capacity) (env : Env)

/-- The loop for the first message: `readMessage` returns from it, or goes on. -/
def firstLoop : Nat → Reader → Except Fault (Reader ⊕ Reader)
  | 0, _ => .error .outOfFuel
  | fuel + 1, r =>
    if r.conn.buffer.length < wire.initSize then
      match r.recv env (wire.initSize - r.conn.buffer.length) with
      | (some (piece, _), r) =>
        let unread := r.conn.unread.drop piece.length
        match wire.addBytes r.conn.buffer piece with
        | some buffer =>
          firstLoop fuel { r with conn := { r.conn with unread := unread, buffer := buffer } }
        | none => .ok (.inl ({ r with conn := { r.conn with unread := unread } }).removeClient)
      | (none, r) =>
        if r.nread = 0 then .ok (.inl r.removeClient)
        else if r.errno.passing = false then .ok (.inl r.removeClient)
        else .ok (.inr r)
    else .ok (.inr r)

/-- A received batch: pushed if it has a message and there is room, given back otherwise. -/
def Reader.handOn (r : Reader) (batch : Nat) (piece : List UInt8) (mem : Nat → UInt8) : Reader :=
  let conn := wire.receive r.conn piece mem
  if (wire.split r.conn.buffer piece mem).1.isEmpty then
    { r with conn := conn }.localRelease Q batch
  else if env.room (r.returns.length - 1) then
    { r with conn := conn, queued := r.queued ++ [batch] }
  else { r with conn := { conn with pushed := r.conn.pushed } }.localRelease Q batch

/-- One round of the loop for the batches, which breaks (`inl`) or continues. -/
def Reader.round (r : Reader) : Reader ⊕ Reader :=
  match r.acquire env with
  | none => .inl r
  | some (batch, r) =>
    match r.recv env (wire.size * wire.batch - r.conn.buffer.length) with
    | (some (piece, mem), r) => .inr (r.handOn wire Q env batch piece mem)
    | (none, r) =>
      let r := r.localRelease Q batch
      if r.errno = .intr then .inr r else .inl r

/-- Rounds until one of them leaves the loop. -/
def batchLoop : Nat → Reader → Except Fault Reader
  | 0, _ => .error .outOfFuel
  | fuel + 1, r =>
    match r.round wire Q env with
    | .inl r => .ok r
    | .inr r => batchLoop fuel r

/-- What follows the loop. -/
def Reader.finish (r : Reader) : Reader :=
  if r.nread = 0 then r.removeClient
  else if r.nread < 0 then
    if r.errno.passing = false then r.removeClient else r
  else r

/-- The start of a call. -/
def Reader.start (r : Reader) : Reader :=
  { r with nread := -1, drawn := [], queued := [], returns := [] }

/-- `ReadMessage` as it stands in the source, with `errno` and the pool of batches. -/
def readMessage (fuel : Nat) (r : Reader) : Except Fault Reader :=
  let r := r.start
  if r.conn.firstMessage then
    match firstLoop wire env fuel r with
    | .error e => .error e
    | .ok (.inl r) => .ok r
    | .ok (.inr r) =>
      if wire.initSize ≤ r.conn.buffer.length then
        (batchLoop wire Q env fuel { r with conn := wire.takeFirst r.conn }).map Reader.finish
      else .ok r
  else (batchLoop wire Q env fuel r).map Reader.finish

end

/-! ## What one call can do -/

section
variable {wire : Wire} {Q : RingIndex.Capacity} {env : Env} {r : Reader}

/-- A call for at most `cap` bytes fails with `e`: there is an error, or nothing to read. -/
def Reader.Fails (env : Env) (r : Reader) (cap : Nat) (e : Errno) : Prop :=
  env.recv r.returns.length = .fail e ∨
    ∃ n mem, env.recv r.returns.length = .bytes n mem ∧ r.conn.unread.take (min n cap) = [] ∧
    e = .again

theorem Reader.Fails.intr {cap : Nat} (h : r.Fails env cap .intr) :
    env.recv r.returns.length = .fail .intr := by
  rcases h with h | ⟨n, mem, -, -, he⟩
  · exact h
  · cases he

theorem Reader.recv_cases (env : Env) (r : Reader) {cap : Nat} (hcap : 0 < cap) :
    (∃ n piece mem, env.recv r.returns.length = .bytes n mem ∧
      piece = r.conn.unread.take (min n cap) ∧ piece ≠ [] ∧
      r.recv env cap = (some (piece, mem), r.answered piece.length r.errno)) ∨
    (∃ e, r.Fails env cap e ∧ r.recv env cap = (none, r.answered (-1) e)) ∨
    (env.recv r.returns.length = .close ∧ r.recv env cap = (none, r.answered 0 r.errno)) := by
  unfold Reader.recv
  rw [if_neg hcap.ne']
  cases hk : env.recv r.returns.length with
  | close => simp
  | fail e => exact .inr (.inl ⟨e, .inl hk, rfl⟩)
  | bytes n mem =>
    by_cases hp : r.conn.unread.take (min n cap) = []
    · exact .inr (.inl ⟨.again, .inr ⟨n, mem, hk, hp, rfl⟩, by simp [hp]⟩)
    · exact .inl ⟨n, _, mem, rfl, rfl, hp, by simp [hp]⟩

/-- An error, or 0: the connection has to go. -/
def Gone (x : Int × Errno) : Prop := x.1 = 0 ∨ x.1 < 0 ∧ x.2.passing = false

/-- The batches taken from the pool are back in it or pushed, and it has room for all it may get. -/
structure Reader.Pooled (Q : RingIndex.Capacity) (reuse : List Nat) (r : Reader) : Prop where
  fits : r.localReuse.length ≤ Q.size.toNat
  kept : (r.localReuse ++ r.queued).Perm (reuse ++ r.drawn)

/-- One of them is in use. -/
structure Reader.Holding (Q : RingIndex.Capacity) (reuse : List Nat) (batch : Nat) (r : Reader) :
    Prop where
  fits : r.localReuse.length < Q.size.toNat
  kept : (batch :: (r.localReuse ++ r.queued)).Perm (reuse ++ r.drawn)

theorem Reader.acquire_none (h : r.acquire env = none) :
    r.localReuse = [] ∧ env.pop r.returns.length = none := by
  unfold Reader.acquire at h
  cases hl : r.localReuse with
  | nil => exact ⟨rfl, by simpa [hl] using h⟩
  | cons b rest => simp [hl] at h

theorem Reader.acquire_same {batch : Nat} {a : Reader} (ha : r.acquire env = some (batch, a)) :
    a.conn = r.conn ∧ a.errno = r.errno ∧ a.returns = r.returns := by
  unfold Reader.acquire at ha
  split at ha
  · cases ha
    exact ⟨rfl, rfl, rfl⟩
  · obtain ⟨b, -, hb⟩ := Option.map_eq_some_iff.mp ha
    cases hb
    exact ⟨rfl, rfl, rfl⟩

theorem Reader.Pooled.acquire {reuse : List Nat} {batch : Nat} {a : Reader} (h : r.Pooled Q reuse)
    (ha : r.acquire env = some (batch, a)) : a.Holding Q reuse batch := by
  unfold Reader.acquire at ha
  cases hl : r.localReuse with
  | cons b rest =>
    rw [hl] at ha
    cases ha
    refine ⟨?_, ?_⟩
    · have := h.fits
      rw [hl] at this
      exact this
    · have := h.kept
      rw [hl] at this
      exact this
  | nil =>
    rw [hl] at ha
    obtain ⟨b, -, hb⟩ := Option.map_eq_some_iff.mp ha
    cases hb
    refine ⟨?_, ?_⟩
    · exact Q.size_pos
    · have hk := h.kept
      simp only [hl, List.nil_append] at hk ⊢
      rw [← List.append_assoc]
      exact (hk.cons batch).trans (List.perm_append_singleton batch _).symm

section
variable {reuse : List Nat} {batch : Nat} (h : r.Holding Q reuse batch)
include h

theorem Reader.Holding.localRelease : (r.localRelease Q batch).Pooled Q reuse := by
  unfold Reader.localRelease
  rw [if_pos h.fits]
  exact ⟨h.fits, h.kept⟩

theorem Reader.Holding.push : { r with queued := r.queued ++ [batch] }.Pooled Q reuse := by
  refine ⟨h.fits.le, ?_⟩
  rw [← List.append_assoc]
  exact (List.perm_append_singleton batch _).trans h.kept

end

@[simp] theorem Reader.answered_conn (m : Int) (e : Errno) : (r.answered m e).conn = r.conn := rfl

@[simp] theorem Reader.answered_errno (m : Int) (e : Errno) : (r.answered m e).errno = e := rfl

@[simp] theorem Reader.answered_nread (m : Int) (e : Errno) : (r.answered m e).nread = m := rfl

@[simp] theorem Reader.answered_returns (m : Int) (e : Errno) :
    (r.answered m e).returns = r.returns ++ [(m, e)] := rfl

@[simp] theorem Reader.localRelease_conn (batch : Nat) :
    (r.localRelease Q batch).conn = r.conn := by
  unfold Reader.localRelease
  split <;> rfl

@[simp] theorem Reader.localRelease_errno (batch : Nat) :
    (r.localRelease Q batch).errno = r.errno := by
  unfold Reader.localRelease
  split <;> rfl

@[simp] theorem Reader.localRelease_nread (batch : Nat) :
    (r.localRelease Q batch).nread = r.nread := by
  unfold Reader.localRelease
  split <;> rfl

@[simp] theorem Reader.localRelease_returns (batch : Nat) :
    (r.localRelease Q batch).returns = r.returns := by
  unfold Reader.localRelease
  split <;> rfl

theorem split_snd_length_eq (wire : Wire) (buffer piece : List UInt8) (mem : Nat → UInt8) :
    (wire.split buffer piece mem).2.length = (buffer.length + piece.length) % wire.size := by
  have hlt := Nat.mod_lt (piece.length + buffer.length) wire.size_pos
  unfold Wire.split Wire.addBytes
  simp only [List.length_nil, Nat.zero_add, Frames.readMem, List.length_map, List.length_range,
    List.nil_append]
  rw [if_neg (by omega)]
  simp [Nat.add_comm]

theorem split_snd_length (wire : Wire) (buffer piece : List UInt8) (mem : Nat → UInt8) :
    (wire.split buffer piece mem).2.length < wire.size := by
  rw [split_snd_length_eq]
  exact Nat.mod_lt _ wire.size_pos

theorem split_fst_isEmpty (wire : Wire) (buffer piece : List UInt8) (mem : Nat → UInt8) :
    (wire.split buffer piece mem).1.isEmpty = true ↔ buffer.length + piece.length < wire.size := by
  unfold Wire.split
  simp [List.isEmpty_iff, Nat.div_eq_zero_iff, wire.size_pos.ne', Nat.add_comm]

variable (wire env) in
/-- **A received batch** is accounted for; the connection stays up. -/
theorem Reader.Holding.handOn {reuse : List Nat} {batch : Nat} (h : r.Holding Q reuse batch)
    (piece : List UInt8) (mem : Nat → UInt8) :
    (r.handOn wire Q env batch piece mem).Pooled Q reuse ∧
      (r.handOn wire Q env batch piece mem).conn.closed = r.conn.closed ∧
      (r.handOn wire Q env batch piece mem).conn.firstMessage = r.conn.firstMessage ∧
      (r.handOn wire Q env batch piece mem).conn.buffer.length < wire.size ∧
      (r.handOn wire Q env batch piece mem).nread = r.nread ∧
      (r.handOn wire Q env batch piece mem).errno = r.errno ∧
      (r.handOn wire Q env batch piece mem).returns = r.returns := by
  have hlen := split_snd_length wire r.conn.buffer piece mem
  have hback : ∀ conn : Conn, ({ r with conn := conn }.localRelease Q batch).Pooled Q reuse :=
    fun conn => Reader.Holding.localRelease ⟨h.fits, h.kept⟩
  unfold Reader.handOn
  simp only
  split
  · exact ⟨hback _, by simp [Wire.receive, hlen]⟩
  · split
    · exact ⟨⟨h.push.fits, h.push.kept⟩, by simp [Wire.receive, hlen]⟩
    · exact ⟨hback _, by simp [Wire.receive, hlen]⟩

end

/-! ## The loops -/

/-- `errno` in front of the `k`-th call of `recv`: that of the last one that failed. -/
def errnoAt (env : Env) (e : Errno) : Nat → Errno
  | 0 => e
  | k + 1 =>
    match env.recv k with
    | .fail e' => e'
    | _ => errnoAt env e k

/-- Up to the `n`-th call there are bytes and errors, from then on the connection is closed, or
there is nothing to read. -/
structure Ends (env : Env) (n : Nat) : Prop where
  before : ∀ k, k < n → env.recv k ≠ .close
  after : (∀ k, n ≤ k → env.recv k = .close) ∨ ∀ k, n ≤ k → env.recv k = .fail .again

/-! ### How far a call gets -/

/-- What decides which calls of `recv` are made: whether the first message is still awaited, the
bytes in the buffer and those to come, and the batches in the owner's own buffer. -/
structure Gauge where
  first : Bool
  buffer : Nat
  unread : Nat
  spare : Nat

namespace Gauge

/-- The first message is taken out of the buffer once it is complete. -/
def taken (wire : Wire) (g : Gauge) : Gauge :=
  if g.first = true ∧ wire.initSize ≤ g.buffer then
    { g with first := false, buffer := g.buffer - wire.initSize }
  else g

/-- The `k`-th call of `recv` is made: there is a batch, if one is needed. -/
def Supplied (env : Env) (k : Nat) (g : Gauge) : Prop :=
  g.first = true ∨ 0 < g.spare ∨ env.pop k ≠ none

instance (env : Env) (k : Nat) (g : Gauge) : Decidable (g.Supplied env k) :=
  inferInstanceAs (Decidable (_ ∨ _ ∨ _))

/-- The `k`-th call has returned `d` bytes. A batch is pushed if it has a message and there is room.
-/
def received (wire : Wire) (env : Env) (k : Nat) (g : Gauge) (d : Nat) : Gauge :=
  if g.first = true then { g with buffer := g.buffer + d, unread := g.unread - d }.taken wire
  else
    { g with
      buffer := (g.buffer + d) % wire.size
      unread := g.unread - d
      spare := if wire.size ≤ g.buffer + d ∧ env.room k = true then g.spare - 1 else
        g.spare - 1 + 1 }

/-- How many bytes the `k`-th call asks for. -/
def cap (wire : Wire) (g : Gauge) : Nat :=
  (if g.first = true then wire.initSize else wire.size * wire.batch) - g.buffer

/-- After the `k`-th call, if it is made and the loops go on: after bytes, and while there is no
first message to wait for also after an interrupt. -/
def next (wire : Wire) (env : Env) (k : Nat) (g : Gauge) : Option Gauge :=
  if g.Supplied env k then
    match env.recv k with
    | .bytes m _ =>
      let d := min (min m (g.cap wire)) g.unread
      if d = 0 then none else some (g.received wire env k d)
    | .fail .intr => if g.first = true then none else some { g with spare := g.spare - 1 + 1 }
    | _ => none
  else none

/-- In front of the `k`-th call, if the loops get there. -/
def reach (wire : Wire) (env : Env) (g : Gauge) : Nat → Option Gauge
  | 0 => some g
  | k + 1 => (reach wire env g k).bind (next wire env k)

end Gauge

/-- What is left to do for the call. -/
def Reader.gauge (wire : Wire) (r : Reader) : Gauge :=
  Gauge.taken wire
    ⟨r.conn.firstMessage, r.conn.buffer.length, r.conn.unread.length, r.localReuse.length⟩

/-- If the loop for the batches gets from `g₀` to the `n`-th call, and that one finds the connection
closed, `errno` is not `EINTR` there. -/
def CloseSeen (wire : Wire) (env : Env) (g₀ : Gauge) (e : Errno) (n : Nat) : Prop :=
  ∀ g, g₀.reach wire env n = some g → g.first = false → g.Supplied env n →
    env.recv n = .close → errnoAt env e n ≠ .intr

/-- A call that starts without a batch starts with a harmless `errno`. -/
def StartSeen (env : Env) (r : Reader) : Prop :=
  r.conn.firstMessage = true ∨ r.localReuse ≠ [] ∨ env.pop 0 ≠ none ∨ r.errno.passing = true

section
variable {wire : Wire} {Q : RingIndex.Capacity} {env : Env} {r : Reader} {e : Errno}
  {reuse : List Nat} {n limit : Nat} {waiting : Bool}

theorem Ends.cases {k : Nat} (h : Ends env n) (hk : n ≤ k) :
    env.recv k = .close ∨ env.recv k = .fail .again :=
  h.after.imp (· k hk) (· k hk)

theorem Ends.closed {k : Nat} (h : Ends env n) (hc : env.recv n = .close) (hk : n ≤ k) :
    env.recv k = .close := by
  rcases h.after with ha | ha
  · exact ha k hk
  · rw [ha n le_rfl] at hc
    cases hc

theorem Reader.gauge_open (h : r.conn.firstMessage = false) : r.gauge wire =
    ⟨false, r.conn.buffer.length, r.conn.unread.length, r.localReuse.length⟩ := by
  simp [Reader.gauge, Gauge.taken, h]

theorem Reader.gauge_waiting (h : r.conn.firstMessage = true)
    (hlt : r.conn.buffer.length < wire.initSize) : r.gauge wire =
      ⟨true, r.conn.buffer.length, r.conn.unread.length, r.localReuse.length⟩ := by
  simp [Reader.gauge, Gauge.taken, h, hlt]

theorem Reader.gauge_takeFirst (h : r.conn.firstMessage = true)
    (hle : wire.initSize ≤ r.conn.buffer.length) :
    Reader.gauge wire { r with conn := wire.takeFirst r.conn } = r.gauge wire := by
  simp [Reader.gauge, Gauge.taken, Wire.takeFirst, h, hle]

theorem Gauge.next_close {g : Gauge} {k : Nat} (hk : env.recv k = .close) :
    g.next wire env k = none := by
  unfold Gauge.next
  rw [hk]
  simp

theorem Gauge.recv_of_next {g g' : Gauge} {k : Nat} (h : g.next wire env k = some g') :
    env.recv k ≠ .close ∧ env.recv k ≠ .fail .again := by
  unfold Gauge.next at h
  constructor <;> intro hk <;> simp [hk] at h

theorem Gauge.next_intr {g : Gauge} {k : Nat} (hs : g.Supplied env k) (hf : g.first = false)
    (hk : env.recv k = .fail .intr) :
    g.next wire env k = some { g with spare := g.spare - 1 + 1 } := by
  unfold Gauge.next
  rw [if_pos hs, hk]
  simp [hf]

theorem Gauge.next_bytes {g : Gauge} {k m : Nat} {mem : Nat → UInt8} {unread : List UInt8}
    (hs : g.Supplied env k) (hu : g.unread = unread.length) (hk : env.recv k = .bytes m mem)
    (hne : unread.take (min m (g.cap wire)) ≠ []) :
    g.next wire env k =
      some (g.received wire env k (unread.take (min m (g.cap wire))).length) := by
  have hd : min (min m (g.cap wire)) g.unread = (unread.take (min m (g.cap wire))).length := by
    rw [List.length_take, hu]
  unfold Gauge.next
  rw [if_pos hs, hk]
  simp only
  rw [hd, if_neg (mt List.length_eq_zero_iff.1 hne)]

/-- A call that fails is the last one, but for an interrupt in the loop for the batches. -/
theorem Reader.Fails.next_eq_none {g : Gauge} {e' : Errno} (h : r.Fails env (g.cap wire) e')
    (hu : g.unread = r.conn.unread.length) (hi : e' = .intr → g.first = true) :
    g.next wire env r.returns.length = none := by
  unfold Gauge.next
  split
  · rcases h with hk | ⟨m, mem, hk, hnil, -⟩
    · rw [hk]
      cases e' with
      | intr => simp [hi rfl]
      | _ => rfl
    · have hd : min (min m (g.cap wire)) g.unread = 0 := by
        rw [hu, ← List.length_take, hnil, List.length_nil]
      rw [hk]
      simp [hd]
  · rfl

theorem Reader.acquire_spare {batch : Nat} {a : Reader} (ha : r.acquire env = some (batch, a)) :
    a.localReuse.length = r.localReuse.length - 1 := by
  unfold Reader.acquire at ha
  cases hl : r.localReuse with
  | cons b rest =>
    rw [hl] at ha
    cases ha
    simp
  | nil =>
    rw [hl] at ha
    obtain ⟨b, -, hb⟩ := Option.map_eq_some_iff.mp ha
    cases hb
    simp

theorem Reader.acquire_eq_none_iff (wire : Wire) (h : r.conn.firstMessage = false) :
    r.acquire env = none ↔ ¬ (r.gauge wire).Supplied env r.returns.length := by
  rw [Reader.gauge_open h]
  unfold Reader.acquire Gauge.Supplied
  cases hl : r.localReuse with
  | cons b rest => simp
  | nil => simp [Option.map_eq_none_iff]

/-- What a received batch leaves, with the other batches in `r`. -/
theorem Reader.handOn_gauge (hf : r.conn.firstMessage = false)
    (hfits : r.localReuse.length < Q.size.toNat) (batch : Nat) (piece : List UInt8)
    (mem : Nat → UInt8) : (r.handOn wire Q env batch piece mem).gauge wire =
      ⟨false, (r.conn.buffer.length + piece.length) % wire.size,
        r.conn.unread.length - piece.length,
        if wire.size ≤ r.conn.buffer.length + piece.length ∧ env.room (r.returns.length - 1) =
          true then
          r.localReuse.length else r.localReuse.length + 1⟩ := by
  have hempty := split_fst_isEmpty wire r.conn.buffer piece mem
  have hkept := split_snd_length_eq wire r.conn.buffer piece mem
  unfold Reader.handOn
  simp only
  split
  · next he =>
    have hlt := hempty.1 he
    rw [Reader.gauge_open (by simp [Wire.receive, hf])]
    simp [Wire.receive, Reader.localRelease, hfits, hkept, hlt]
  · next he =>
    have hle := Nat.le_of_not_lt (mt hempty.2 he)
    split
    · next hroom =>
      rw [Reader.gauge_open (by simp [Wire.receive, hf])]
      simp [Wire.receive, hkept, hle, hroom]
    · next hroom =>
      rw [Reader.gauge_open (by simp [Wire.receive, hf])]
      simp [Wire.receive, Reader.localRelease, hfits, hkept, hroom]

/-- The loop for the first message ends `readMessage`. -/
def Stalls (wire : Wire) (env : Env) (g₀ : Gauge) (n : Nat) : Prop :=
  ∃ m g, m ≤ n ∧ g₀.reach wire env m = some g ∧ g.first = true ∧ g.next wire env m = none

theorem Gauge.reach_none {g₀ : Gauge} {k m : Nat} (h : g₀.reach wire env k = none) (hle : k ≤ m) :
    g₀.reach wire env m = none := by
  induction m, hle using Nat.le_induction with
  | base => exact h
  | succ m _ ih =>
    rw [Gauge.reach, ih]
    rfl

theorem Stalls.closeSeen {g₀ : Gauge} (h : Stalls wire env g₀ n) (e : Errno) :
    CloseSeen wire env g₀ e n := by
  intro g hg hfirst
  obtain ⟨m, g', hle, hm, hwaits, hnext⟩ := h
  rcases Nat.eq_or_lt_of_le hle with rfl | hlt
  · rw [hm] at hg
    cases hg
    rw [hwaits] at hfirst
    cases hfirst
  · have hnone : g₀.reach wire env (m + 1) = none := by
      rw [Gauge.reach, hm]
      exact hnext
    rw [Gauge.reach_none hnone hlt] at hg
    cases hg

/-- In the loops: the buffer has fewer than `limit` bytes, and nothing that `recv` returned has
ended the connection. -/
structure Going (limit : Nat) (waiting : Bool) (env : Env) (e : Errno) (r : Reader) : Prop where
  opened : r.conn.closed = false
  buffer : r.conn.buffer.length < limit
  first : r.conn.firstMessage = waiting
  errno : r.errno = errnoAt env e r.returns.length
  stays : ∀ x ∈ r.returns, ¬ Gone x

/-- After the loop for the batches: the last values say whether the connection has ended. -/
structure Left (limit : Nat) (waiting : Bool) (r : Reader) : Prop where
  opened : r.conn.closed = false
  buffer : r.conn.buffer.length < limit
  first : r.conn.firstMessage = waiting
  gone : Gone (r.nread, r.errno) ↔ ∃ x ∈ r.returns, Gone x

theorem not_gone_of_pos {m : Nat} (hm : 0 < m) (e : Errno) : ¬ Gone ((m : Int), e) := by
  rintro (h | ⟨h, -⟩) <;> simp only at h <;> omega

theorem errnoAt_bytes {k m : Nat} {mem : Nat → UInt8} (h : env.recv k = .bytes m mem) :
    errnoAt env e (k + 1) = errnoAt env e k := by
  rw [errnoAt, h]

theorem errnoAt_fail {k : Nat} {e' : Errno} (h : env.recv k = .fail e') :
    errnoAt env e (k + 1) = e' := by
  rw [errnoAt, h]

theorem Going.left (h : Going limit waiting env e r) (m : Int) (e' : Errno) :
    Left limit waiting (r.answered m e') := by
  refine ⟨h.opened, h.buffer, h.first, fun hg => ⟨(m, e'), by simp, hg⟩, ?_⟩
  rintro ⟨x, hx, hg⟩
  rcases List.mem_append.mp hx with hx | hx
  · exact absurd hg (h.stays x hx)
  · rw [List.mem_singleton] at hx
    exact hx ▸ hg

theorem Going.answered (h : Going limit waiting env e r) {m : Int} {e' : Errno}
    (hng : ¬ Gone (m, e'))
    (he : errnoAt env e (r.returns.length + 1) = e') :
    Going limit waiting env e (r.answered m e') := by
  refine ⟨h.opened, h.buffer, h.first, by simp [he], fun x hx hg => hng ?_⟩
  exact (h.left m e').gone.mpr ⟨x, hx, hg⟩

theorem Going.localRelease (h : Going limit waiting env e r) (batch : Nat) :
    Going limit waiting env e (r.localRelease Q batch) :=
  ⟨by simpa using h.opened, by simpa using h.buffer, by simpa using h.first, by simpa using h.errno,
    by simpa using h.stays⟩

theorem Left.localRelease (h : Left limit waiting r) (batch : Nat) :
    Left limit waiting (r.localRelease Q batch) :=
  ⟨by simpa using h.opened, by simpa using h.buffer, by simpa using h.first, by simpa using h.gone⟩

/-- **One call of `recv`** in a round, with a batch in hand. -/
theorem Going.receive (h : Going limit waiting env e r) {cap : Nat} (hcap : 0 < cap)
    (hclose : env.recv r.returns.length = .close → r.errno ≠ .intr) :
    (∃ m e', r.recv env cap = (none, r.answered m e') ∧ e' ≠ .intr ∧
      (r.Fails env cap e' ∨ env.recv r.returns.length = .close)) ∨
    (r.recv env cap = (none, r.answered (-1) .intr) ∧ env.recv r.returns.length = .fail .intr ∧
      Going limit waiting env e (r.answered (-1) .intr)) ∨
    ∃ n piece mem, env.recv r.returns.length = .bytes n mem ∧
      piece = r.conn.unread.take (min n cap) ∧ piece ≠ [] ∧
      r.recv env cap = (some (piece, mem), r.answered piece.length r.errno) ∧
      Going limit waiting env e (r.answered piece.length r.errno) := by
  rcases r.recv_cases env hcap with ⟨n, piece, mem, hk, hpiece, hne, hr⟩ | ⟨e', hk, hr⟩ | ⟨hk, hr⟩
  · refine .inr (.inr ⟨n, piece, mem, hk, hpiece, hne, hr, h.answered ?_ ?_⟩)
    · exact not_gone_of_pos (List.length_pos_iff.mpr hne) _
    · rw [errnoAt_bytes hk, h.errno]
  · by_cases hi : e' = .intr
    · subst hi
      exact .inr (.inl ⟨hr, hk.intr, h.answered (by simp [Gone, Errno.passing])
        (errnoAt_fail hk.intr)⟩)
    · exact .inl ⟨_, e', hr, hi, .inl hk⟩
  · exact .inl ⟨0, r.errno, hr, hclose hk, .inr hk⟩

theorem Going.acquire {batch : Nat} {a : Reader} (h : Going limit waiting env e r)
    (ha : r.acquire env = some (batch, a)) : Going limit waiting env e a := by
  obtain ⟨hconn, herrno, hret⟩ := Reader.acquire_same ha
  refine ⟨?_, ?_, ?_, ?_, ?_⟩
  · rw [hconn]
    exact h.opened
  · rw [hconn]
    exact h.buffer
  · rw [hconn]
    exact h.first
  · rw [herrno, hret]
    exact h.errno
  · rw [hret]
    exact h.stays

/-- **One round**: the loop breaks, or goes on after bytes or an interrupt. -/
theorem Going.round (h : Going wire.size false env e r) (hp : r.Pooled Q reuse)
    (hclose : (r.gauge wire).Supplied env r.returns.length →
      env.recv r.returns.length = .close → r.errno ≠ .intr)
    (hd : ¬ (r.gauge wire).Supplied env r.returns.length → ¬ Gone (r.nread, r.errno)) :
    (∃ r', r.round wire Q env = .inl r' ∧ Left wire.size false r' ∧ r'.Pooled Q reuse ∧
      r'.returns.length ≤ r.returns.length + 1 ∧
      (r.gauge wire).next wire env r.returns.length = none) ∨
    ∃ r', r.round wire Q env = .inr r' ∧ Going wire.size false env e r' ∧ r'.Pooled Q reuse ∧
      ¬ Gone (r'.nread, r'.errno) ∧ r'.returns.length = r.returns.length + 1 ∧
      (r.gauge wire).next wire env r.returns.length = some (r'.gauge wire) := by
  unfold Reader.round
  cases ha : r.acquire env with
  | none =>
    have hs := (Reader.acquire_eq_none_iff wire h.first).1 ha
    refine .inl ⟨r, rfl, ⟨h.opened, h.buffer, h.first, fun hg => absurd hg (hd hs), ?_⟩, hp,
      Nat.le_succ _, if_neg hs⟩
    exact fun ⟨x, hx, hg⟩ => absurd hg (h.stays x hx)
  | some p =>
    obtain ⟨batch, a⟩ := p
    obtain ⟨hconn, herrno, hret⟩ := Reader.acquire_same ha
    have hspare := Reader.acquire_spare ha
    have hs : (r.gauge wire).Supplied env r.returns.length := by
      by_contra hns
      rw [(Reader.acquire_eq_none_iff wire h.first).2 hns] at ha
      cases ha
    have hold := hp.acquire ha
    have hg := h.acquire ha
    have hans : ∀ m e', (a.answered m e').Holding Q reuse batch := fun _ _ => ⟨hold.fits, hold.kept⟩
    have hgauge : r.gauge wire =
        ⟨false, a.conn.buffer.length, a.conn.unread.length, r.localReuse.length⟩ := by
      rw [Reader.gauge_open h.first, hconn]
    have hask : (r.gauge wire).cap wire = wire.size * wire.batch - a.conn.buffer.length := by
      rw [hgauge]
      rfl
    have hcap : 0 < wire.size * wire.batch - a.conn.buffer.length := by
      have := Nat.le_mul_of_pos_right wire.size wire.batch_pos
      have := hg.buffer
      omega
    replace hclose := hclose hs
    rw [← hret, ← herrno] at hclose
    rw [← hret] at hs ⊢
    simp only
    rcases hg.receive hcap hclose with
      ⟨m, e', hr, hi, hlast⟩ | ⟨hr, hk, hg'⟩ | ⟨n, piece, mem, hk, hpiece, hne, hr, hg'⟩
    · refine .inl ⟨(a.answered m e').localRelease Q batch, by simp [hr, hi],
        (hg.left m e').localRelease batch, (hans m e').localRelease, by simp, ?_⟩
      rcases hlast with hfails | hk
      · rw [← hask] at hfails
        exact hfails.next_eq_none (by rw [hgauge]) fun h => absurd h hi
      · exact Gauge.next_close hk
    · refine .inr ⟨(a.answered (-1) .intr).localRelease Q
        batch, by simp [hr], hg'.localRelease batch, (hans (-1) .intr).localRelease, by
        simp [Gone, Errno.passing], by simp, ?_⟩
      rw [Gauge.next_intr hs (by rw [hgauge]) hk, hgauge,
        Reader.gauge_open (r := (a.answered (-1) .intr).localRelease Q batch)
        (by simpa using hg.first)]
      simp [Reader.localRelease, Reader.answered, hold.fits, ← hspare]
    · obtain ⟨hpool, hc, hw, hb, hn, he, hl⟩ :=
        (hans piece.length a.errno).handOn wire env piece mem
      refine .inr ⟨_, by simp only [hr],
        ⟨hc.trans hg'.opened, hb, hw.trans hg'.first, ?_, ?_⟩, hpool, ?_, by rw [hl]; simp, ?_⟩
      · rw [he, hl]
        exact hg'.errno
      · rw [hl]
        exact hg'.stays
      · rw [hn, he]
        exact not_gone_of_pos (List.length_pos_iff.mpr hne) _
      · rw [← hask] at hpiece
        rw [Gauge.next_bytes hs (by rw [hgauge]) hk (hpiece ▸ hne), ← hpiece,
          Reader.handOn_gauge (r := a.answered piece.length a.errno) hg.first hold.fits, hgauge]
        simp [Gauge.received, Reader.answered, ← hspare]

/-- **The loop for the batches** ends. -/
theorem Going.batchLoop {g₀ : Gauge} (hclose : CloseSeen wire env g₀ e n) (hend : Ends env n) :
    ∀ (fuel : Nat) {r : Reader}, Going wire.size false env e r → r.Pooled Q reuse →
      g₀.reach wire env r.returns.length = some (r.gauge wire) →
      (¬ (r.gauge wire).Supplied env r.returns.length → ¬ Gone (r.nread, r.errno)) →
      r.returns.length ≤ n → n < fuel + r.returns.length →
      ∃ r', EpollServer.batchLoop wire Q env fuel r = .ok r' ∧ Left wire.size false r' ∧
      r'.Pooled Q reuse ∧
        r'.returns.length ≤ n + 1
  | 0, r, _, _, _, _, hn, hf => by omega
  | fuel + 1, r, h, hp, hreach, hd, hn, hf => by
    have hfirst : (r.gauge wire).first = false := by rw [Reader.gauge_open h.first]
    -- the first close is met at the `n`-th call
    have hseen : (r.gauge wire).Supplied env r.returns.length →
        env.recv r.returns.length = .close → r.errno ≠ .intr := by
      intro hs hk
      have heq : r.returns.length = n := by
        by_contra hne
        exact hend.before _ (by omega) hk
      rw [h.errno, heq]
      rw [heq] at hreach hs hk
      exact hclose _ hreach hfirst hs hk
    unfold EpollServer.batchLoop
    rcases h.round hp hseen hd with ⟨r', hr, hl, hp', hlen, -⟩ | ⟨r', hr, hg, hp', hng, hlen, hnext⟩
    · rw [hr]
      exact ⟨r', rfl, hl, hp', by omega⟩
    · rw [hr]
      -- the calls from the `n`-th on do not let the loop continue
      have hlt : r.returns.length < n := by
        obtain ⟨hnc, hna⟩ := Gauge.recv_of_next hnext
        by_contra hge
        rcases hend.cases (Nat.le_of_not_lt hge) with hc | hc
        · exact hnc hc
        · exact hna hc
      refine Going.batchLoop hclose hend fuel hg hp' ?_ (fun _ => hng) (by omega) (by omega)
      rw [hlen, Gauge.reach, hreach]
      exact hnext

/-- A connection between two calls of `readMessage`, and the pool. -/
structure Ready (wire : Wire) (Q : RingIndex.Capacity) (r : Reader) : Prop where
  opened : r.conn.closed = false
  buffer : r.conn.buffer.length < wire.size
  first : r.conn.firstMessage = true → r.conn.buffer.length < wire.initSize
  fits : r.localReuse.length ≤ Q.size.toNat

theorem newConn_ready {stream : List UInt8} (h : r.conn = wire.newConn stream)
    (hfits : r.localReuse.length ≤ Q.size.toNat) : Ready wire Q r := by
  refine ⟨by rw [h]; rfl, by rw [h]; exact wire.size_pos, fun hf => ?_, hfits⟩
  rw [h] at hf ⊢
  exact wire.isSome_iff_initSize.mp hf

theorem finish_returns : r.finish.returns = r.returns := by
  unfold Reader.finish
  split
  · rfl
  · split
    · split <;> rfl
    · rfl

/-- What follows the loop removes the client if the last call of `recv` says so. -/
theorem Left.finish (h : Left limit waiting r) : r.finish.conn.closed = true ↔
    ∃ x ∈ r.finish.returns, Gone x := by
  rw [finish_returns, ← h.gone]
  have hopen := h.opened
  unfold Reader.finish Gone
  by_cases h0 : r.nread = 0
  · simp [h0, Reader.removeClient]
  · by_cases hneg : r.nread < 0
    · cases hpass : r.errno.passing <;> simp [h0, hneg, Reader.removeClient, hopen]
    · simp [h0, hneg, hopen]

theorem Left.ready (h : Left wire.size false r) (hp : r.Pooled Q reuse)
    (hopen : r.finish.conn.closed = false) : Ready wire Q r.finish := by
  have hfin : r.finish = r := by
    unfold Reader.finish at hopen ⊢
    split at hopen
    · cases hopen
    · split at hopen
      · split at hopen
        · cases hopen
        · next h0 hneg hpass => rw [if_neg h0, if_pos hneg, if_neg hpass]
      · next h0 hneg => rw [if_neg h0, if_neg hneg]
  rw [hfin]
  exact ⟨h.opened, h.buffer, fun hf => by (rw [h.first] at hf; cases hf), hp.fits⟩

/-- The bytes that are read for the first message fit into the buffer. -/
theorem addBytes_first {c : Conn} {m : Nat} {piece : List UInt8}
    (hlt : c.buffer.length < wire.initSize)
    (hpiece : piece = c.unread.take (min m (wire.initSize - c.buffer.length))) :
    wire.addBytes c.buffer piece = some (c.buffer ++ piece) ∧
      (c.buffer ++ piece).length ≤ wire.initSize := by
  have hlen : c.buffer.length + piece.length ≤ wire.initSize := by
    have := List.length_take_le (min m (wire.initSize - c.buffer.length)) c.unread
    rw [← hpiece] at this
    omega
  exact ⟨if_neg (by have := wire.initSize_le; omega), by rw [List.length_append]; exact hlen⟩

/-- **The loop for the first message** ends: the client is removed, or it stays, and if the message
is complete the last call of `recv` returned bytes. -/
theorem Going.firstLoop {g₀ : Gauge} (hend : Ends env n) :
    ∀ (fuel : Nat) {r : Reader}, Going (wire.initSize + 1) true env e r → r.Pooled Q reuse →
      g₀.reach wire env r.returns.length = some (r.gauge wire) →
      (wire.initSize ≤ r.conn.buffer.length → 0 < r.nread) → r.returns.length ≤ n →
      n < fuel + r.returns.length →
      (∃ r', EpollServer.firstLoop wire env fuel r = .ok (.inl r') ∧ r'.conn.closed = true ∧
        (∃ x ∈ r'.returns, Gone x) ∧ r'.Pooled Q reuse ∧ r'.returns.length ≤ n + 1 ∧
        Stalls wire env g₀ n) ∨
      ∃ r', EpollServer.firstLoop wire env fuel r = .ok (.inr r') ∧ r'.conn.closed = false ∧
        (∀ x ∈ r'.returns, ¬ Gone x) ∧ r'.Pooled Q reuse ∧ r'.returns.length ≤ n + 1 ∧
        (wire.initSize ≤ r'.conn.buffer.length →
          Going (wire.initSize + 1) true env e r' ∧ 0 < r'.nread ∧ r'.returns.length ≤ n ∧
            g₀.reach wire env r'.returns.length = some (r'.gauge wire)) ∧
        (r'.conn.buffer.length < wire.initSize → Stalls wire env g₀ n)
  | 0, r, _, _, _, _, hn, hf => by omega
  | fuel + 1, r, h, hp, hreach, hpos, hn, hf => by
    unfold EpollServer.firstLoop
    by_cases hlt : r.conn.buffer.length < wire.initSize
    · rw [if_pos hlt]
      have hpool : ∀ m e', (r.answered m e').Pooled Q reuse := fun _ _ => ⟨hp.fits, hp.kept⟩
      have hgauge := Reader.gauge_waiting h.first hlt
      have hask : (r.gauge wire).cap wire = wire.initSize - r.conn.buffer.length := by
        rw [hgauge]
        rfl
      have hstalls : (r.gauge wire).next wire env r.returns.length = none → Stalls wire env g₀ n :=
        fun hnext => ⟨_, _, hn, hreach, by rw [hgauge], hnext⟩
      rcases r.recv_cases env (show 0 < wire.initSize - r.conn.buffer.length by omega) with
        ⟨m, piece, mem, hk, hpiece, hne, hr⟩ | ⟨e', hk, hr⟩ | ⟨hk, hr⟩
      · obtain ⟨hadd, hlen⟩ := addBytes_first hlt hpiece
        have hn' : r.returns.length < n := by
          by_contra hge
          rcases hend.cases (Nat.le_of_not_lt hge) with hc | hc <;> rw [hk] at hc <;> cases hc
        have hpos' := List.length_pos_iff.mpr hne
        have hg := h.answered (not_gone_of_pos hpos' r.errno) (by rw [errnoAt_bytes hk, h.errno])
        have hnext : (r.gauge wire).next wire env r.returns.length =
            some ((r.gauge wire).received wire env r.returns.length piece.length) := by
          rw [← hask] at hpiece
          rw [Gauge.next_bytes (.inl (by rw [hgauge])) (by rw [hgauge]) hk (hpiece ▸ hne), ← hpiece]
        rw [hr]
        simp only [Reader.answered_conn, hadd]
        refine Going.firstLoop hend fuel
          ⟨hg.opened, Nat.lt_succ_of_le hlen, hg.first, hg.errno, hg.stays⟩ ⟨hp.fits, hp.kept⟩ ?_
          (fun _ => by simpa using hpos') (by simpa using hn') (by simp; omega)
        simp only [Reader.answered_returns, List.length_append, List.length_singleton]
        rw [Gauge.reach, hreach]
        refine hnext.trans (congrArg some ?_)
        rw [hgauge]
        simp [Gauge.received, Reader.gauge, Reader.answered, h.first]
      · rw [← hask] at hk
        have hstop := hstalls (hk.next_eq_none (by rw [hgauge]) fun _ => by rw [hgauge])
        by_cases hpass : e'.passing = false
        · refine .inl ⟨(r.answered (-1) e').removeClient, by simp [hr, hpass], rfl,
            ⟨(-1, e'), by simp [Reader.removeClient], by simp [Gone, hpass]⟩,
            ⟨hp.fits, hp.kept⟩, ?_, hstop⟩
          simpa [Reader.removeClient] using hn
        · refine .inr ⟨r.answered (-1) e', by simp [hr, hpass], h.opened, ?_, hpool (-1) e',
            by simpa using hn, fun hle => absurd hle (Nat.not_le.mpr hlt), fun _ => hstop⟩
          exact fun x hx hg => absurd ((h.left (-1) e').gone.mpr ⟨x, hx, hg⟩)
            (by simp [Gone, hpass])
      · refine .inl ⟨(r.answered 0 r.errno).removeClient, by simp [hr], rfl,
          ⟨(0, r.errno), by simp [Reader.removeClient], .inl rfl⟩, ⟨hp.fits, hp.kept⟩, ?_,
          hstalls (Gauge.next_close hk)⟩
        simpa [Reader.removeClient] using hn
    · rw [if_neg hlt]
      exact .inr ⟨r, rfl, h.opened, h.stays, hp, by omega,
        fun hle => ⟨h, hpos hle, hn, hreach⟩, fun h => absurd h hlt⟩

theorem finish_pooled (h : r.Pooled Q reuse) : r.finish.Pooled Q reuse := by
  unfold Reader.finish
  split
  · exact ⟨h.fits, h.kept⟩
  · split
    · split
      · exact ⟨h.fits, h.kept⟩
      · exact h
    · exact h

/-- What a call has to do: the batches that were taken are pushed or back in the pool, and the
client is removed if and only if `recv` returned 0 or failed with another error than `EAGAIN`,
`EWOULDBLOCK` and `EINTR`. -/
structure Served (reuse : List Nat) (r' : Reader) : Prop where
  kept : (r'.localReuse ++ r'.queued).Perm (reuse ++ r'.drawn)
  removed : r'.conn.closed = true ↔ ∃ x ∈ r'.returns, Gone x

/-- **The end of a call**: the loop for the batches, and what follows it. -/
theorem Going.rest {g₀ : Gauge} (h : Going wire.size false env e r) (hp : r.Pooled Q reuse)
    (hreach : g₀.reach wire env r.returns.length = some (r.gauge wire))
    (hclose : CloseSeen wire env g₀ e n) (hend : Ends env n)
    (hd : ¬ (r.gauge wire).Supplied env r.returns.length → ¬ Gone (r.nread, r.errno))
    (hn : r.returns.length ≤ n) {fuel : Nat} (hfuel : n < fuel) :
    ∃ r', (EpollServer.batchLoop wire Q env fuel r).map Reader.finish = .ok r' ∧
      r'.returns.length ≤ n + 1 ∧ Served reuse r' ∧ (r'.conn.closed = false → Ready wire Q r') := by
  obtain ⟨r₁, hr, hl, hp₁, hlen⟩ := Going.batchLoop hclose hend fuel h hp hreach hd hn (by omega)
  exact ⟨r₁.finish, by rw [hr]; rfl, by rw [finish_returns]; exact hlen,
    ⟨(finish_pooled hp₁).kept, hl.finish⟩, hl.ready hp₁⟩

/-- **A call** is the loop for the batches, unless the one for the first message ends it. -/
theorem readMessage_cases (h : Ready wire Q r) (hend : Ends env n) {fuel : Nat} (hfuel : n < fuel) :
    (∃ r', readMessage wire Q env fuel r = .ok r' ∧ r'.returns.length ≤ n + 1 ∧
      Served r.localReuse r' ∧ (r'.conn.closed = false → Ready wire Q r') ∧
      Stalls wire env (r.gauge wire) n) ∨
    ∃ r₁, readMessage wire Q env fuel r = (batchLoop wire Q env fuel r₁).map Reader.finish ∧
      Going wire.size false env r.errno r₁ ∧ r₁.Pooled Q r.localReuse ∧
      (r.gauge wire).reach wire env r₁.returns.length = some (r₁.gauge wire) ∧
      r₁.returns.length ≤ n ∧ (0 < r₁.nread ∨ r₁ = r.start ∧ r.conn.firstMessage = false) := by
  have hpool : r.start.Pooled Q r.localReuse := ⟨h.fits, List.Perm.refl _⟩
  unfold readMessage
  simp only
  by_cases hf : r.start.conn.firstMessage = true
  · rw [if_pos hf]
    have hb := h.first hf
    rcases Going.firstLoop hend fuel (r := r.start)
      ⟨h.opened, Nat.lt_succ_of_lt hb, hf, rfl, by simp [Reader.start]⟩ hpool rfl
      (fun hle => absurd hle (Nat.not_le.mpr hb)) (Nat.zero_le _) (Nat.lt_add_right _ hfuel) with
      ⟨r', hr, hc, hgone, hp, hlen, hstalls⟩ | ⟨r', hr, hc, hstay, hp, hlen, hfull, hstalls⟩
    · rw [hr]
      exact .inl ⟨r', rfl, hlen, ⟨hp.kept, by simp [hc, hgone]⟩,
        fun ho => by (rw [hc] at ho; cases ho), hstalls⟩
    · rw [hr]
      simp only
      by_cases hle : wire.initSize ≤ r'.conn.buffer.length
      · rw [if_pos hle]
        obtain ⟨hg, hpos, hn, hreach⟩ := hfull hle
        have hbuf : (wire.takeFirst r'.conn).buffer.length < wire.size := by
          have := hg.buffer
          have := wire.size_pos
          simp only [Wire.takeFirst, List.length_drop]
          omega
        refine .inr ⟨{ r' with conn := wire.takeFirst r'.conn }, rfl,
          ⟨hg.opened, hbuf, rfl, hg.errno, hg.stays⟩, ⟨hp.fits, hp.kept⟩, ?_, hn, .inl hpos⟩
        rw [Reader.gauge_takeFirst hg.first hle]
        exact hreach
      · rw [if_neg hle]
        have hlt := Nat.lt_of_not_le hle
        refine .inl ⟨r', rfl, hlen, ⟨hp.kept, ?_⟩, fun _ =>
          ⟨hc, Nat.lt_of_lt_of_le hlt wire.initSize_le, fun _ => hlt, hp.fits⟩, hstalls hlt⟩
        simp only [hc, Bool.false_eq_true, false_iff, not_exists, not_and]
        exact hstay
  · rw [if_neg hf]
    have hf' : r.conn.firstMessage = false := Bool.eq_false_iff.2 hf
    exact .inr ⟨r.start, rfl, ⟨h.opened, h.buffer, hf', rfl, by simp [Reader.start]⟩, hpool, rfl,
      Nat.zero_le _, .inr ⟨rfl, hf'⟩⟩

/-- Where no batch is left at the start, `nread` is still -1 and `errno` decides. -/
theorem StartSeen.not_gone (h : StartSeen env r) (hf : r.conn.firstMessage = false)
    (hnone : ¬ (r.start.gauge wire).Supplied env 0) : ¬ Gone (r.start.nread, r.start.errno) := by
  have ha := (Reader.acquire_eq_none_iff (r := r.start) wire hf).2 hnone
  have hp : r.errno.passing = true := by
    rcases h with h | h | h | h
    · rw [hf] at h
      cases h
    · exact absurd (Reader.acquire_none ha).1 h
    · exact absurd (Reader.acquire_none ha).2 h
    · exact h
  simp [Gone, hp, Reader.start]

theorem readMessage_served (h : Ready wire Q r) (hend : Ends env n)
    (hclose : CloseSeen wire env (r.gauge wire) r.errno n) (hstart : StartSeen env r) {fuel : Nat}
    (hfuel : n < fuel) :
    ∃ r', readMessage wire Q env fuel r = .ok r' ∧ r'.returns.length ≤ n + 1 ∧
      Served r.localReuse r' ∧ (r'.conn.closed = false → Ready wire Q r') := by
  rcases readMessage_cases h hend hfuel with
    ⟨r', hr, hlen, hserved, hready, -⟩ | ⟨r₁, hr, hg, hp, hreach, hn, hlast⟩
  · exact ⟨r', hr, hlen, hserved, hready⟩
  · rw [hr]
    refine hg.rest hp hreach hclose hend (fun hnone => ?_) hn hfuel
    rcases hlast with hpos | ⟨rfl, hf⟩
    · rintro (h0 | ⟨hneg, -⟩) <;> simp only at * <;> omega
    · exact hstart.not_gone hf hnone

/-! ## A stale `errno` -/

/-- **The loop does not end** on a closed connection once `errno` is `EINTR`: the batch it gives
back is there for the next round. -/
theorem batchLoop_hangs (hclose : ∀ k, n ≤ k → env.recv k = .close) :
    ∀ (fuel : Nat) {r a : Reader} {batch : Nat}, n ≤ r.returns.length → r.errno = .intr →
      r.acquire env = some (batch, a) → a.localReuse.length < Q.size.toNat →
      batchLoop wire Q env fuel r = .error .outOfFuel
  | 0, _, _, _, _, _, _, _ => rfl
  | fuel + 1, r, a, batch, hn, hi, ha, hfit => by
    obtain ⟨-, herrno, hret⟩ := Reader.acquire_same ha
    have hrecv : ∀ cap, a.recv env cap = (none, a.answered 0 .intr) := by
      intro cap
      unfold Reader.recv
      rw [hret, hclose _ hn, herrno, hi]
      simp
    have hround : r.round wire Q env = .inr ((a.answered 0 .intr).localRelease Q batch) := by
      simp only [Reader.round, ha, hrecv, Reader.localRelease_errno, Reader.answered_errno, if_true]
    have hagain : ((a.answered 0 .intr).localRelease Q batch).acquire env =
        some (batch, a.answered 0 .intr) := by
      simp [Reader.localRelease, Reader.answered, hfit, Reader.acquire]
    unfold batchLoop
    rw [hround]
    exact batchLoop_hangs hclose fuel (by simp [hret]; omega) (by simp) hagain hfit

/-- So it is when the loop gets to a closed connection with `EINTR`. -/
theorem Going.hangs {g₀ g : Gauge} (hend : Ends env n) (hg : g₀.reach wire env n = some g)
    (hs : g.Supplied env n) (hk : env.recv n = .close) (hi : errnoAt env e n = .intr) :
    ∀ (fuel : Nat) {r : Reader}, Going wire.size false env e r → r.Pooled Q reuse →
      g₀.reach wire env r.returns.length = some (r.gauge wire) → r.returns.length ≤ n →
      EpollServer.batchLoop wire Q env fuel r = .error .outOfFuel
  | 0, _, _, _, _, _ => rfl
  | fuel + 1, r, h, hp, hreach, hn => by
    rcases Nat.eq_or_lt_of_le hn with heq | hlt
    · have hgauge : r.gauge wire = g := by
        rw [heq, hg] at hreach
        exact (Option.some.inj hreach).symm
      rw [← hgauge, ← heq] at hs
      cases ha : r.acquire env with
      | none => exact absurd hs ((Reader.acquire_eq_none_iff wire h.first).1 ha)
      | some p =>
        exact batchLoop_hangs (fun k => hend.closed hk) _ heq.ge (by rw [h.errno, heq, hi]) ha
          (hp.acquire ha).fits
    · -- the loop goes on, since it gets to the `n`-th call
      have hgoes : (r.gauge wire).next wire env r.returns.length ≠ none := by
        intro hnone
        have hstop : g₀.reach wire env (r.returns.length + 1) = none := by
          rw [Gauge.reach, hreach]
          exact hnone
        rw [Gauge.reach_none hstop hlt] at hg
        cases hg
      have hsup : (r.gauge wire).Supplied env r.returns.length := by
        by_contra hns
        exact hgoes (if_neg hns)
      unfold EpollServer.batchLoop
      rcases h.round hp (fun _ hc => absurd hc (hend.before _ hlt)) (absurd hsup) with
        ⟨r', -, -, -, -, hnone⟩ | ⟨r', hr, hg', hp', -, hlen, hnext⟩
      · exact absurd hnone hgoes
      · rw [hr]
        refine Going.hangs hend hg hs hk hi fuel hg' hp' ?_ (by omega)
        rw [hlen, Gauge.reach, hreach]
        exact hnext

theorem readMessage_hangs (h : Ready wire Q r) (hend : Ends env n)
    (hclose : ¬ CloseSeen wire env (r.gauge wire) r.errno n) {fuel : Nat} (hfuel : n < fuel) :
    readMessage wire Q env fuel r = .error .outOfFuel := by
  rcases readMessage_cases h hend hfuel with
    ⟨r', -, -, -, -, hstalls⟩ | ⟨r₁, hr, hg, hp, hreach, hn, -⟩
  · exact absurd (hstalls.closeSeen r.errno) hclose
  · unfold CloseSeen at hclose
    push Not at hclose
    obtain ⟨g, hreached, -, hs, hk, hi⟩ := hclose
    rw [hr, Going.hangs hend hreached hs hk hi fuel hg hp hreach hn]
    rfl

/-! More rounds than are needed change nothing. -/

theorem batchLoop_mono {r' : Reader} : ∀ {fuel : Nat} {r : Reader} (more : Nat),
    batchLoop wire Q env fuel r = .ok r' → batchLoop wire Q env (fuel + more) r = .ok r'
  | 0, _, _, hr => by cases hr
  | fuel + 1, r, more, hr => by
    rw [Nat.add_right_comm]
    unfold batchLoop at hr ⊢
    split at hr
    · exact hr
    · exact batchLoop_mono more hr

theorem firstLoop_mono {v : Reader ⊕ Reader} : ∀ {fuel : Nat} {r : Reader} (more : Nat),
    firstLoop wire env fuel r = .ok v → firstLoop wire env (fuel + more) r = .ok v
  | 0, _, _, hr => by cases hr
  | fuel + 1, r, more, hr => by
    rw [Nat.add_right_comm]
    unfold firstLoop at hr ⊢
    split at hr
    · next hlt =>
      rw [if_pos hlt]
      split at hr
      · simp only at hr ⊢
        split at hr
        · exact firstLoop_mono more hr
        · exact hr
      · exact hr
    · next hlt =>
      rw [if_neg hlt]
      exact hr

theorem readMessage_mono {r' : Reader} {fuel : Nat} (more : Nat)
    (hr : readMessage wire Q env fuel r = .ok r') :
    readMessage wire Q env (fuel + more) r = .ok r' := by
  have hbatch : ∀ {r₁ : Reader}, (batchLoop wire Q env fuel r₁).map Reader.finish = .ok r' →
      (batchLoop wire Q env (fuel + more) r₁).map Reader.finish = .ok r' := by
    intro r₁ h₁
    cases hl : batchLoop wire Q env fuel r₁ with
    | error e =>
      rw [hl] at h₁
      cases h₁
    | ok r₂ =>
      rw [hl] at h₁
      rw [batchLoop_mono more hl]
      exact h₁
  unfold readMessage at hr ⊢
  simp only at hr ⊢
  split at hr
  · next hf =>
    rw [if_pos hf]
    split at hr
    · cases hr
    · next hl =>
      rw [firstLoop_mono more hl]
      exact hr
    · next hl =>
      rw [firstLoop_mono more hl]
      simp only
      split at hr
      · next hle =>
        rw [if_pos hle]
        exact hbatch hr
      · next hle =>
        rw [if_neg hle]
        exact hr
  · next hf =>
    rw [if_neg hf]
    exact hbatch hr

/-- A call that starts without a batch and with another `errno` removes the client, and has not
called `recv`. -/
theorem readMessage_not_served (hstart : ¬ StartSeen env r) {fuel : Nat}
    {r' : Reader} (hr : readMessage wire Q env fuel r = .ok r') : ¬ Served r.localReuse r' := by
  simp only [StartSeen, not_or, not_not] at hstart
  obtain ⟨hf, hlocal, hpop, hpass⟩ := hstart
  have hnone : r.start.acquire env = none := by
    simp [Reader.acquire, Reader.start, hlocal, hpop]
  unfold readMessage at hr
  simp only at hr
  rw [if_neg (show ¬ r.start.conn.firstMessage = true from hf)] at hr
  cases fuel with
  | zero => cases hr
  | succ fuel =>
    have hround : r.start.round wire Q env = .inl r.start := by
      unfold Reader.round
      rw [hnone]
    unfold batchLoop at hr
    rw [hround] at hr
    cases hr
    intro hserved
    have hgone : r.start.finish.conn.closed = true := by
      simp [Reader.finish, Reader.start, Reader.removeClient, hpass]
    obtain ⟨x, hx, -⟩ := hserved.removed.1 hgone
    rw [finish_returns] at hx
    cases hx

/-- **Reading a connection ends**: some number of rounds is enough for a call that does what it has
to, exactly if `errno` is not `EINTR` where the loop for the batches gets to a closed connection,
and harmless where a call starts without a batch. Then there are at most `n + 1` calls of `recv`,
and a connection that stays up is ready for the next call. -/
theorem readMessage_ends (h : Ready wire Q r) (hend : Ends env n) :
    ((∃ fuel r', readMessage wire Q env fuel r = .ok r' ∧ Served r.localReuse r') ↔
      CloseSeen wire env (r.gauge wire) r.errno n ∧ StartSeen env r) ∧
    (CloseSeen wire env (r.gauge wire) r.errno n → StartSeen env r → ∀ fuel, n < fuel →
      ∃ r', readMessage wire Q env fuel r = .ok r' ∧ r'.returns.length ≤ n + 1 ∧
        Served r.localReuse r' ∧ (r'.conn.closed = false → Ready wire Q r')) := by
  refine ⟨⟨?_, ?_⟩, fun hclose hstart fuel hfuel => readMessage_served h hend hclose hstart hfuel⟩
  · rintro ⟨fuel, r', hr, hserved⟩
    constructor
    · by_contra hclose
      have hmore := readMessage_mono (n + 1) hr
      rw [readMessage_hangs h hend hclose (by omega)] at hmore
      cases hmore
    · by_contra hstart
      exact readMessage_not_served hstart hr hserved
  · rintro ⟨hclose, hstart⟩
    obtain ⟨r', hr, -, hserved, -⟩ := readMessage_served h hend hclose hstart (Nat.lt_succ_self n)
    exact ⟨n + 1, r', hr, hserved⟩

/-! ## What is read -/

/-- The answer on a connection that stays up. -/
def Answer.toRecv : Answer → Recv
  | .bytes n mem => .bytes n mem
  | .fail .intr => .intr
  | _ => .bytes 0 fun _ => 0

theorem toRecv_fail {e : Errno} (h : e ≠ .intr) : (Answer.fail e).toRecv = .bytes 0 fun _ => 0 := by
  cases e with
  | intr => exact absurd rfl h
  | _ => rfl

/-- The connection stays up, and there are always a batch and room for it. -/
structure Env.Steady (env : Env) : Prop where
  close : ∀ k, env.recv k ≠ .close
  fail : ∀ k e, env.recv k = .fail e → e.passing = true
  pop : ∀ k, env.pop k ≠ none
  room : ∀ k, env.room k = true

theorem Reader.Fails.passing {cap : Nat} {e : Errno} (h : r.Fails env cap e) (hs : env.Steady) :
    e.passing = true := by
  rcases h with h | ⟨-, -, -, -, rfl⟩
  · exact hs.fail _ e h
  · rfl

/-- The answers from the `k`-th on, up to the `n`-th. -/
def Env.answers (env : Env) (k n : Nat) : List Recv :=
  (List.range' k (n - k)).map fun i => (env.recv i).toRecv

theorem Env.answers_cons {k : Nat} (h : k < n) :
    env.answers k n = (env.recv k).toRecv :: env.answers (k + 1) n := by
  unfold Env.answers
  obtain ⟨d, rfl⟩ : ∃ d, n = k + (d + 1) := ⟨n - k - 1, by omega⟩
  rw [show k + (d + 1) - k = d + 1 by omega, show k + (d + 1) - (k + 1) = d by omega,
    List.range'_succ, List.map_cons]

variable (wire Q) in
theorem handOn_conn (hs : env.Steady) (batch : Nat) (piece : List UInt8) (mem : Nat → UInt8) :
    (r.handOn wire Q env batch piece mem).conn = wire.receive r.conn piece mem ∧
      (r.handOn wire Q env batch piece mem).returns = r.returns := by
  unfold Reader.handOn
  simp only [hs.room, if_true]
  split <;> simp

/-- **One round** reads what one step of the byte-wise loop does, and leaves the connection up. -/
theorem round_conn (hs : env.Steady) (hb : r.conn.buffer.length < wire.size) :
    (∃ r', r.round wire Q env = .inl r' ∧ r'.finish = r' ∧
      r'.returns.length = r.returns.length + 1 ∧
      ∀ rs, wire.batchLoop r.conn ((env.recv r.returns.length).toRecv :: rs) = r'.conn) ∨
    ∃ r', r.round wire Q env = .inr r' ∧ r'.conn.buffer.length < wire.size ∧
      r'.returns.length = r.returns.length + 1 ∧
      ∀ rs, wire.batchLoop r.conn ((env.recv r.returns.length).toRecv :: rs) =
        wire.batchLoop r'.conn rs := by
  unfold Reader.round
  cases ha : r.acquire env with
  | none => exact absurd (Reader.acquire_none ha).2 (hs.pop _)
  | some p =>
    obtain ⟨batch, a⟩ := p
    obtain ⟨hconn, -, hret⟩ := Reader.acquire_same ha
    rw [← hconn, ← hret]
    rw [← hconn] at hb
    have hcap : 0 < wire.size * wire.batch - a.conn.buffer.length := by
      have := Nat.le_mul_of_pos_right wire.size wire.batch_pos
      omega
    rcases a.recv_cases env hcap with ⟨m, piece, mem, hk, hpiece, hne, hv⟩ | ⟨e', hk, hv⟩ | ⟨hk, -⟩
    · obtain ⟨hc, hl⟩ := handOn_conn wire Q (r := a.answered piece.length a.errno) hs batch
        piece mem
      refine .inr ⟨(a.answered piece.length a.errno).handOn wire Q env batch piece
        mem, by simp [hv], by rw [hc]; exact split_snd_length wire _ piece mem, by
        rw [hl]; simp, fun rs => ?_⟩
      rw [hk, hc]
      simp only [Answer.toRecv, Wire.batchLoop, Wire.piece, ← hpiece, List.isEmpty_iff, hne,
        if_false]
      rfl
    · by_cases hi : e' = .intr
      · subst hi
        refine .inr ⟨(a.answered (-1) .intr).localRelease Q batch, by simp [hv], by simpa using hb,
          by simp, fun rs => ?_⟩
        rw [hk.intr, Reader.localRelease_conn]
        rfl
      · refine .inl ⟨(a.answered (-1) e').localRelease Q batch, by simp [hv, hi],
          by simp [Reader.finish, hk.passing hs], by simp, fun rs => ?_⟩
        rw [Reader.localRelease_conn, Reader.answered_conn]
        -- nothing was read: the batch has no bytes
        rcases hk with hk | ⟨m, mem, hk, hnil, -⟩
        · rw [hk, toRecv_fail hi]
          simp [Wire.batchLoop, Wire.piece]
        · rw [hk]
          simp [Answer.toRecv, Wire.batchLoop, Wire.piece, hnil]
    · exact absurd hk (hs.close _)

/-- The loop for the batches reads what the byte-wise one does. -/
theorem batchLoop_conn (hs : env.Steady) :
    ∀ (fuel : Nat) {r r' : Reader}, r.conn.buffer.length < wire.size →
      batchLoop wire Q env fuel r = .ok r' → r'.returns.length ≤ n →
      r.returns.length < r'.returns.length ∧ r'.finish = r' ∧
        r'.conn = wire.batchLoop r.conn (env.answers r.returns.length n)
  | 0, r, r', _, hr, _ => by cases hr
  | fuel + 1, r, r', hb, hr, hn => by
    unfold batchLoop at hr
    rcases round_conn (Q := Q) hs hb
      with ⟨r₁, hround, hfin, hlen, hread⟩ | ⟨r₁, hround, hb₁, hlen, hread⟩
    · rw [hround] at hr
      cases hr
      exact ⟨by omega, hfin, by rw [Env.answers_cons (by omega), hread]⟩
    · rw [hround] at hr
      obtain ⟨hlt, hfin, hconn⟩ := batchLoop_conn hs fuel hb₁ hr hn
      exact ⟨by omega, hfin, by rw [Env.answers_cons (by omega), hread, hconn, hlen]⟩

theorem firstLoop_conn (hs : env.Steady) :
    ∀ (fuel : Nat) {r : Reader} {v : Reader ⊕ Reader}, r.conn.buffer.length ≤ wire.initSize →
      firstLoop wire env fuel r = .ok v →
      ∃ r', v = .inr r' ∧ r.returns.length ≤ r'.returns.length ∧
        r'.conn.buffer.length ≤ wire.initSize ∧ r'.conn.closed = r.conn.closed ∧
        (r'.returns.length ≤ n →
          (wire.firstLoop r.conn (env.answers r.returns.length n)).1 = r'.conn ∧
          (wire.initSize ≤ r'.conn.buffer.length →
            (wire.firstLoop r.conn (env.answers r.returns.length n)).2 =
              env.answers r'.returns.length n))
  | 0, r, v, _, hr => by cases hr
  | fuel + 1, r, v, hb, hr => by
    unfold firstLoop at hr
    by_cases hlt : r.conn.buffer.length < wire.initSize
    · rw [if_pos hlt] at hr
      rcases r.recv_cases env (show 0 < wire.initSize - r.conn.buffer.length by omega) with
        ⟨m, piece, mem, hk, hpiece, hne, hv⟩ | ⟨e', hk, hv⟩ | ⟨hk, -⟩
      · obtain ⟨hadd, hlen⟩ := addBytes_first hlt hpiece
        simp only [hv, Reader.answered_conn, hadd] at hr
        obtain ⟨r', rfl, hle, hb', hc, hconn⟩ := firstLoop_conn hs fuel hlen hr
        simp only [Reader.answered_returns, List.length_append, List.length_singleton] at hle hconn
        refine ⟨r', rfl, by omega, hb', hc, fun hn => ?_⟩
        rw [Env.answers_cons (by omega), hk]
        simpa [Answer.toRecv, Wire.firstLoop, hlt, ← hpiece, hne, hadd] using hconn hn
      · simp only [hv, Reader.answered_nread, Reader.answered_errno, hk.passing hs,
          Bool.true_eq_false, if_false] at hr
        cases hr
        refine ⟨_,
          rfl, by simp, hb, rfl, fun hn => ⟨?_, fun hle => absurd hle (Nat.not_le.mpr hlt)⟩⟩
        simp only [Reader.answered_returns, List.length_append, List.length_singleton] at hn
        rw [Env.answers_cons (by omega)]
        rcases hk with hk | ⟨m, mem, hk, hnil, -⟩
        · rw [hk]
          cases e' with
          | intr => simp [Answer.toRecv, Wire.firstLoop, hlt]
          | _ => simp [Answer.toRecv, Wire.firstLoop, hlt]
        · rw [hk]
          simp [Answer.toRecv, Wire.firstLoop, hlt, hnil]
      · exact absurd hk (hs.close _)
    · rw [if_neg hlt] at hr
      cases hr
      refine ⟨r, rfl, Nat.le_refl _, hb, rfl, fun hn => ?_⟩
      rcases Nat.lt_or_ge r.returns.length n with hn' | hn'
      · rw [Env.answers_cons hn']
        simp [Wire.firstLoop, hlt]
      · rw [show env.answers r.returns.length n =
          [] by simp [Env.answers, Nat.sub_eq_zero_of_le hn']]
        exact ⟨rfl, fun _ => rfl⟩

/-- **What is read** is what the bytes say: on a connection that stays up, with batches and room, a
call that returns leaves the connection as `Wire.readMessage` does. -/
theorem readMessage_conn (h : Ready wire Q r) (hs : env.Steady) {fuel : Nat} {r' : Reader}
    (hr : readMessage wire Q env fuel r = .ok r') (hn : r'.returns.length ≤ n) :
    r'.conn = wire.readMessage r.conn (env.answers 0 n) := by
  -- the loop for the batches, from where the other one stopped
  have hbatch : ∀ r₁ : Reader, r₁.conn.buffer.length < wire.size →
      (batchLoop wire Q env fuel r₁).map Reader.finish = .ok r' → r₁.returns.length ≤ n ∧
        r'.conn = wire.batchLoop r₁.conn (env.answers r₁.returns.length n) := by
    intro r₁ hb hr₁
    cases hl : batchLoop wire Q env fuel r₁ with
    | error e =>
      rw [hl] at hr₁
      cases hr₁
    | ok r₂ =>
      rw [hl] at hr₁
      cases hr₁
      rw [finish_returns] at hn
      obtain ⟨hlt, hfin, hconn⟩ := batchLoop_conn hs fuel hb hl hn
      rw [hfin]
      exact ⟨by omega, hconn⟩
  unfold readMessage at hr
  simp only at hr
  unfold Wire.readMessage
  by_cases hf : r.conn.firstMessage = true
  · rw [if_pos hf]
    rw [if_pos (show r.start.conn.firstMessage = true from hf)] at hr
    have hb := h.first hf
    cases hl : firstLoop wire env fuel r.start with
    | error e =>
      rw [hl] at hr
      cases hr
    | ok v =>
      obtain ⟨r₁, rfl, -, hb₁, hc, hconn⟩ := firstLoop_conn (n := n) hs fuel (r := r.start) hb.le hl
      rw [hl] at hr
      simp only at hr
      by_cases hle : wire.initSize ≤ r₁.conn.buffer.length
      · rw [if_pos hle] at hr
        have hb₂ : (wire.takeFirst r₁.conn).buffer.length < wire.size := by
          have := wire.size_pos
          simp only [Wire.takeFirst, List.length_drop]
          omega
        obtain ⟨hn₁, hconn'⟩ := hbatch { r₁ with conn := wire.takeFirst r₁.conn } hb₂ hr
        obtain ⟨h1, h2⟩ := hconn hn₁
        simp only [Reader.start, List.length_nil] at h1 h2 hc
        simp [h1, h2 hle, hc, h.opened, hle, hconn']
      · rw [if_neg hle] at hr
        cases hr
        obtain ⟨h1, -⟩ := hconn hn
        simp only [Reader.start, List.length_nil] at h1
        simp [h1, hle]
  · rw [if_neg hf]
    rw [if_neg (show ¬ r.start.conn.firstMessage = true from hf)] at hr
    exact (hbatch r.start h.buffer hr).2

end

theorem no_init_pos : ∀ k ∈ (none : Option Nat), 0 < k := by simp

/-- Messages of four bytes, two in a batch. -/
def sampleWire : Wire where
  size := 4
  batch := 2
  init := none
  size_pos := by decide
  batch_pos := by decide
  init_pos := no_init_pos
  init_le := by simp

theorem two_lt_wordSize : 2 < 64 := by decide

def samplePool : RingIndex.Capacity := .ofPow 2 two_lt_wordSize

/-- A new connection, with the batches `localReuse` at hand. -/
def sampleReader (stream : List UInt8) (errno : Errno) (localReuse : List Nat) : Reader where
  conn := sampleWire.newConn stream
  errno := errno
  nread := -1
  localReuse := localReuse
  drawn := []
  queued := []
  returns := []

/-- Bytes, an interrupt, and then nothing more. -/
def interruptedEnv : Env where
  recv := fun k => if k = 0 then .bytes 4 fun _ => 0 else if k = 1 then .fail .intr else
    .fail .again
  pop := fun k => some k
  room := fun _ => true

theorem readMessage_ends_interrupted :
    ∃ r', readMessage sampleWire samplePool interruptedEnv 3 (sampleReader [1, 2, 3, 4] .intr []) =
    .ok r' ∧
      r'.returns.length ≤ 3 ∧ Served [] r' := by
  have hend : Ends interruptedEnv 2 := by
    refine ⟨fun k _ => ?_, .inr fun k hk => ?_⟩
    · simp only [interruptedEnv]
      split
      · simp
      · split <;> simp
    · simp [interruptedEnv, show k ≠ 0 by omega, show k ≠ 1 by omega]
  have hready : Ready sampleWire samplePool (sampleReader [1, 2, 3, 4] .intr []) :=
    newConn_ready rfl (by decide)
  have hclose : CloseSeen sampleWire interruptedEnv
      ((sampleReader [1, 2, 3, 4] .intr []).gauge sampleWire) .intr 2 := by
    intro g _ _ _ hk
    cases hk
  obtain ⟨r', hr, hlen, hserved, -⟩ := (readMessage_ends hready hend).2 hclose
    (.inr (.inr (.inr rfl))) 3 (by decide)
  exact ⟨r', hr, hlen, hserved⟩

/-- The connection is closed. -/
def closedEnv : Env where
  recv := fun _ => .close
  pop := fun _ => none
  room := fun _ => true

/-- `epoll_wait` was interrupted, and then the client closed its connection: `recv` returns 0 for
ever and `readMessage` never returns. On a connection that is up, if no batch is left and an earlier
call failed, the client is removed without any call of `recv`. -/
theorem close_after_interrupt :
    (∀ fuel, readMessage sampleWire samplePool closedEnv fuel (sampleReader [] .intr [0]) =
      .error .outOfFuel) ∧
    ∃ r', readMessage sampleWire samplePool { closedEnv with recv := fun _ => .fail .again } 1
      (sampleReader [] (.other 104) []) = .ok r' ∧ r'.returns = [] ∧ r'.conn.closed = true := by
  refine ⟨fun fuel => ?_, _, rfl, rfl, rfl⟩
  have hl : batchLoop sampleWire samplePool closedEnv fuel (sampleReader [] .intr [0]).start =
      .error .outOfFuel := batchLoop_hangs (fun _ _ => rfl) fuel (Nat.zero_le _) rfl rfl (by decide)
  show (batchLoop sampleWire samplePool closedEnv fuel (sampleReader [] .intr [0]).start).map
    Reader.finish = .error .outOfFuel
  rw [hl]
  rfl

end Naoto.EpollServer
