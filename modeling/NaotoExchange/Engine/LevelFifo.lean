import NaotoExchange.Lib.Run
import NaotoExchange.Engine.Proof.PriceLevel

/-!
# A price level over any sequence of calls

The four operations of `price_level.hpp` on one level, mixed with what its owner does to the nodes
that are not in it: taking them from the pool, giving them back, and writing them, old links and
all. `Session.placed` is the list the level is to be: the nodes added, without those taken out
since, oldest first. `run_fifo`: in every run it is what the links give, in both directions, and the
counters, the ends and the answers agree with it.
-/

namespace Naoto.Engine.PriceLevel

open Linked

/-- A call on a level or on its pool. -/
inductive Call
  | addOrder (order : Nat)
  | deleteOrder (order : Nat)
  | popOrder
  | clearPriceLevel
  /-- `Acquire` of the pool. -/
  | acquire
  /-- `Release` of the pool. -/
  | release (order : Nat)
  /-- The owner writes a node. -/
  | write (order : Nat) (node : OrderNode)

/-- What it returns. -/
inductive Reply
  | done
  /-- What `DeleteOrder` returns. -/
  | deleted (empty : Bool)
  /-- What `PopOrder` and `Acquire` return. -/
  | node (order : Option Nat)
  deriving DecidableEq

/-- A level, the pool its nodes come from, and the nodes that are to be in the level. -/
structure Session where
  level : PriceLevel
  pool : OrderNodeMempool
  placed : List Nat

namespace Session

/-- A new level. -/
def new (price : Int64) (pool : OrderNodeMempool) : Session := ⟨⟨price, 0, 0, none, none⟩, pool, []⟩

/-- The call on the level and its pool; the orders placed are recorded. -/
def step (s : Session) : Call → Except Fault (Session × Reply)
  | .addOrder x =>
    match s.level.addOrder s.pool x with
    | .error e => .error e
    | .ok (level, pool) => .ok (⟨level, pool, s.placed ++ [x]⟩, .done)
  | .deleteOrder x =>
    let (empty, level, pool) := s.level.deleteOrder s.pool x
    .ok (⟨level, pool, s.placed.erase x⟩, .deleted empty)
  | .popOrder =>
    let (res, level, pool) := s.level.popOrder s.pool
    .ok (⟨level, pool, res.elim s.placed s.placed.erase⟩, .node res)
  | .clearPriceLevel =>
    match s.level.clearPriceLevel s.pool with
    | .error e => .error e
    | .ok (level, pool) => .ok (⟨level, pool, []⟩, .done)
  | .acquire =>
    let (res, pool) := s.pool.acquire
    .ok ({ s with pool := pool }, .node res)
  | .release x =>
    let (_, pool) := s.pool.release x
    .ok ({ s with pool := pool }, .done)
  | .write x node => .ok ({ s with pool := s.pool.set x node }, .done)

/-- A node of the pool that is neither free nor in the level. -/
def Lent (s : Session) (x : Nat) : Prop :=
  x < meOrderNodePoolSize ∧ x ∉ s.pool.freeList ∧ x ∉ s.placed

/-- The calls a level is made for. A node in the level keeps its links and its amount. -/
def Legal (s : Session) : Call → Prop
  | .addOrder x => s.Lent x
  | .deleteOrder x => x ∈ s.placed
  | .release x => s.Lent x
  | .write x node => x ∈ s.placed → node.prev = (s.pool.storage x).prev ∧
      node.next = (s.pool.storage x).next ∧ node.order.amount = (s.pool.storage x).order.amount
  | _ => True

instance decidableLent (s : Session) (x : Nat) : Decidable (s.Lent x) :=
  inferInstanceAs (Decidable (_ ∧ _ ∧ _))

instance decidableLegal (s : Session) : ∀ c, Decidable (s.Legal c)
  | .addOrder x => inferInstanceAs (Decidable (s.Lent x))
  | .deleteOrder x => inferInstanceAs (Decidable (x ∈ s.placed))
  | .release x => inferInstanceAs (Decidable (s.Lent x))
  | .write x _ => inferInstanceAs (Decidable (x ∈ s.placed → _ ∧ _ ∧ _))
  | .popOrder => .isTrue trivial
  | .clearPriceLevel => .isTrue trivial
  | .acquire => .isTrue trivial

end Session

/-- The sum of the amounts of the nodes `ns`. -/
def amounts (st : Nat → OrderNode) (ns : List Nat) : Nat :=
  (ns.map fun n => (st n).order.amount.toNat).sum

/-- The level is the list `s.placed`. -/
structure Session.IsFifo (s : Session) : Prop where
  next : ∀ fuel, s.placed.length ≤ fuel →
    follow (fun n => (s.pool.storage n).next) fuel s.level.head = s.placed
  prev : ∀ fuel, s.placed.length ≤ fuel →
    follow (fun n => (s.pool.storage n).prev) fuel s.level.tail = s.placed.reverse
  size : s.level.size.toNat = s.placed.length
  total : s.level.totalAmount.toNat = amounts s.pool.storage s.placed
  head : s.level.head = none ↔ s.placed = []
  tail : s.level.tail = none ↔ s.placed = []

/-- What a call answers, and what `ClearPriceLevel` gives back: every node of the level, once. -/
def Session.Answers (s : Session) (c : Call) (s' : Session) (r : Reply) : Prop :=
  match c with
  | .deleteOrder _ => r = .deleted (decide (s'.placed = []))
  | .popOrder => r = .node s.placed.head?
  | .clearPriceLevel => s'.pool.freeList = s.pool.freeList ++ s.placed ∧ s'.pool.freeList.Nodup
  | _ => True

/-! ## One call -/

section
variable {st st' : Nat → OrderNode} {ns : List Nat} {x : Nat}

theorem amounts_congr (h : ∀ n ∈ ns, (st' n).order.amount = (st n).order.amount) :
    amounts st' ns = amounts st ns := by
  unfold amounts
  congr 1
  exact List.map_congr_left fun n hn => by rw [h n hn]

variable (st) in
theorem amounts_lt (h : ns.length < meOrderNodePoolSize) : amounts st ns + 2 ^ 32 ≤ 2 ^ 64 := by
  have hle : amounts st ns ≤ ns.length * 2 ^ 32 := by
    have := List.sum_le_card_nsmul (ns.map fun n => (st n).order.amount.toNat) (2 ^ 32) (by
      intro a ha
      obtain ⟨n, -, rfl⟩ := List.mem_map.1 ha
      exact (UInt32.toNat_lt _).le)
    simpa [amounts] using this
  have : ns.length < 32768 := h
  omega

variable (st) in
theorem amounts_erase (h : x ∈ ns) :
    amounts st ns = (st x).order.amount.toNat + amounts st (ns.erase x) := by
  unfold amounts
  rw [((List.perm_cons_erase h).map _).sum_eq, List.map_cons, List.sum_cons]

end

/-- What a call keeps. -/
structure Session.Inv (s : Session) : Prop where
  holds : s.level.Holds s.pool.storage s.placed
  total : s.level.totalAmount.toNat = amounts s.pool.storage s.placed
  owns : ∃ lent, s.pool.Owns (s.placed ++ lent)

namespace Session

variable {s : Session} {x : Nat} {c : Call}

theorem Inv.isFifo (h : s.Inv) : s.IsFifo where
  next fuel hlen := by
    rw [h.holds.head]
    exact h.holds.links.follow_next hlen
  prev fuel hlen := by
    rw [h.holds.tail]
    exact h.holds.links.follow_prev hlen
  size := h.holds.size
  total := h.total
  head := h.holds.head_eq_none
  tail := by
    rw [h.holds.tail]
    simp

theorem Inv.nodup (h : s.Inv) : s.placed.Nodup :=
  let ⟨_, howns⟩ := h.owns
  howns.nodup.of_append_left

/-- A lent node is one of the nodes that are in use outside the level. -/
theorem Inv.lent (h : s.Inv) (hx : s.Lent x) : ∃ lent, s.pool.Owns (x :: (s.placed ++ lent)) := by
  obtain ⟨lent, howns⟩ := h.owns
  have hmem : x ∈ s.pool.freeList ++ (s.placed ++ lent) := howns.mem_iff.2 (List.mem_range.2 hx.1)
  have hlent : x ∈ lent := by
    simpa [hx.2.1, hx.2.2] using hmem
  exact ⟨lent.erase x, howns.perm
    (((List.perm_cons_erase hlent).append_left s.placed).trans List.perm_middle)⟩

theorem Inv.addOrder (h : s.Inv) (hx : s.Lent x) :
    ∃ level pool, s.level.addOrder s.pool x = .ok (level, pool) ∧
      Session.Inv ⟨level, pool, s.placed ++ [x]⟩ := by
  obtain ⟨lent, howns⟩ := h.lent hx
  have hlen : s.placed.length < meOrderNodePoolSize := by
    have := howns.length_le
    simp only [List.length_cons, List.length_append] at this
    omega
  have hlen63 : s.placed.length < 2 ^ 63 := hlen.trans (by decide)
  obtain ⟨level, pool, hadd, hholds, -, hrel⟩ := addOrder_holds h.holds h.nodup hx.2.2 hlen63
  refine ⟨level, pool, hadd, hholds, ?_, lent, ?_⟩
  · have hold : amounts pool.storage s.placed = amounts s.pool.storage s.placed :=
      amounts_congr fun n _ => by rw [hrel.order]
    have hsum : amounts pool.storage (s.placed ++ [x]) =
        amounts s.pool.storage s.placed + (s.pool.storage x).order.amount.toNat := by
      rw [← hold]
      simp [amounts, hrel.order]
    have hbound := amounts_lt s.pool.storage hlen
    have hamount := (s.pool.storage x).order.amount.toNat_lt
    rw [addOrder_total hadd, UInt64.toNat_add, h.total, UInt32.toNat_toUInt64, hsum,
      Nat.mod_eq_of_lt (by omega)]
  · have hperm : (x :: (s.placed ++ lent)).Perm (s.placed ++ [x] ++ lent) := by
      rw [List.append_assoc]
      exact List.perm_middle.symm
    have := howns.perm hperm
    rwa [SingleThreadedStoragePool.Owns, ← hrel.freeList] at this

theorem Inv.deleteOrder (h : s.Inv) (hx : x ∈ s.placed) :
    ∃ level pool, s.level.deleteOrder s.pool x = (decide (s.placed.erase x = []), level, pool) ∧
      Session.Inv ⟨level, pool, s.placed.erase x⟩ := by
  obtain ⟨lent, howns⟩ := h.owns
  obtain ⟨n₁, n₂, -, hsplit, herase⟩ := List.exists_erase_eq hx
  have hbefore := h.holds
  have hnodup := h.nodup
  rw [hsplit] at hbefore hnodup
  obtain ⟨level, pool, hdelete, hholds, -, hrel⟩ := deleteOrder_holds hbefore hnodup
  rw [← herase] at hdelete hholds
  refine ⟨level, pool, hdelete, hholds, ?_, x :: lent, ?_⟩
  · have hlevel : level.totalAmount = s.level.totalAmount -
        (s.pool.storage x).order.amount.toUInt64 := by
      have := deleteOrder_total s.level s.pool x
      rwa [hdelete] at this
    have hsum := amounts_erase s.pool.storage hx
    have hle : (s.pool.storage x).order.amount.toUInt64 ≤ s.level.totalAmount := by
      rw [UInt64.le_iff_toNat_le, UInt32.toNat_toUInt64, h.total]
      omega
    have hrest : amounts pool.storage (s.placed.erase x) = amounts s.pool.storage
        (s.placed.erase x) :=
      amounts_congr fun n _ => by rw [hrel.order]
    rw [hlevel, UInt64.toNat_sub_of_le _ _ hle, UInt32.toNat_toUInt64, h.total, hrest]
    omega
  · have hperm : (s.placed ++ lent).Perm (s.placed.erase x ++ x :: lent) :=
      ((List.perm_cons_erase hx).append_right lent).trans List.perm_middle.symm
    have := howns.perm hperm
    rwa [SingleThreadedStoragePool.Owns, ← hrel.freeList] at this

theorem Inv.popOrder (h : s.Inv) :
    ∃ level pool, s.level.popOrder s.pool = (s.placed.head?, level, pool) ∧
      Session.Inv ⟨level, pool, s.placed.head?.elim s.placed s.placed.erase⟩ := by
  cases hplaced : s.placed with
  | nil =>
    have hhead : s.level.head = none := h.holds.head_eq_none.2 hplaced
    have hsame : (⟨s.level, s.pool, []⟩ : Session) = s := by rw [← hplaced]
    refine ⟨s.level, s.pool, by simp [PriceLevel.popOrder, hhead], ?_⟩
    show Session.Inv ⟨s.level, s.pool, []⟩
    rw [hsame]
    exact h
  | cons x ns =>
    have hlinks := h.holds.links
    rw [hplaced] at hlinks
    have hhead : s.level.head = some x := by
      rw [h.holds.head, hplaced]
      rfl
    obtain ⟨level, pool, hdelete, hinv⟩ := h.deleteOrder (x := x) (by rw [hplaced]; exact .head _)
    refine ⟨level, pool, ?_, ?_⟩
    · rw [popOrder_eq hhead hlinks.1, hdelete]
      rfl
    · rw [← hplaced]
      simpa [hplaced] using hinv

theorem Inv.clearPriceLevel (h : s.Inv) :
    ∃ level pool, s.level.clearPriceLevel s.pool = .ok (level, pool) ∧
    Session.Inv ⟨level, pool, []⟩ ∧
      pool.freeList = s.pool.freeList ++ s.placed ∧ pool.freeList.Nodup := by
  obtain ⟨lent, howns⟩ := h.owns
  obtain ⟨pool, hclear, -, hfree, howns'⟩ := clearPriceLevel_owns h.holds howns
  have hnodup : (pool.freeList ++ lent).Nodup := howns'.nodup_iff.2 List.nodup_range
  exact ⟨_, pool, hclear, ⟨holds_nil _ _, rfl, lent, howns'⟩, hfree, hnodup.of_append_left⟩

/-- What happens to the pool and to the nodes outside the level does not concern it. -/
theorem Inv.frame (h : s.Inv) {pool : OrderNodeMempool} {lent : List Nat}
    (howns : pool.Owns (s.placed ++ lent))
    (hnode : ∀ n ∈ s.placed, (pool.storage n).prev = (s.pool.storage n).prev ∧
      (pool.storage n).next = (s.pool.storage n).next ∧
      (pool.storage n).order.amount = (s.pool.storage n).order.amount) :
    Session.Inv { s with pool := pool } where
  holds :=
    { h.holds with
      links := h.holds.links.congr fun n hn => ⟨(hnode n hn).2.1, (hnode n hn).1⟩
      total := h.holds.total.trans (depth_congr fun n hn => (hnode n hn).2.2).symm }
  total := h.total.trans (amounts_congr fun n hn => (hnode n hn).2.2).symm
  owns := ⟨lent, howns⟩

theorem Inv.acquire (h : s.Inv) : Session.Inv { s with pool := s.pool.acquire.2 } := by
  obtain ⟨lent, howns⟩ := h.owns
  rcases Nat.eq_zero_or_pos s.pool.freeSize with h0 | h0
  · rw [SingleThreadedStoragePool.acquire_none h0]
    exact h
  · obtain ⟨x, pool, hacq, hst, -, -, -, howns'⟩ := SingleThreadedStoragePool.acquire_owns howns h0
    rw [hacq]
    exact h.frame (howns'.perm List.perm_middle.symm) fun n _ => by simp only [hst, and_self]

theorem Inv.release (h : s.Inv) (hx : s.Lent x) :
    Session.Inv { s with pool := (s.pool.release x).2 } := by
  obtain ⟨lent, howns⟩ := h.lent hx
  obtain ⟨pool, hrel, hst, -, -, -, howns'⟩ := SingleThreadedStoragePool.release_owns howns
  rw [hrel]
  exact h.frame howns' fun n _ => by simp only [hst, and_self]

theorem Inv.write {node : OrderNode} (h : s.Inv)
    (hx : x ∈ s.placed → node.prev = (s.pool.storage x).prev ∧ node.next = (s.pool.storage x).next ∧
      node.order.amount = (s.pool.storage x).order.amount) :
    Session.Inv { s with pool := s.pool.set x node } := by
  obtain ⟨lent, howns⟩ := h.owns
  refine h.frame (howns.set x node) fun n hn => ?_
  by_cases hne : n = x
  · subst hne
    rw [SingleThreadedStoragePool.set_storage_self]
    exact hx hn
  · rw [SingleThreadedStoragePool.set_storage_of_ne _ _ hne]
    exact ⟨rfl, rfl, rfl⟩

/-- **One call**: it goes through, keeps the list and answers as it should. -/
theorem Inv.step (h : s.Inv) (hc : s.Legal c) :
    ∃ s' r, s.step c = .ok (s', r) ∧ s'.Inv ∧ s.Answers c s' r := by
  cases c with
  | addOrder x =>
    obtain ⟨level, pool, hadd, hinv⟩ := h.addOrder hc
    exact ⟨_, .done, by simp only [Session.step, hadd], hinv, trivial⟩
  | deleteOrder x =>
    obtain ⟨level, pool, hdelete, hinv⟩ := h.deleteOrder hc
    exact ⟨_, _, by simp only [Session.step, hdelete], hinv, rfl⟩
  | popOrder =>
    obtain ⟨level, pool, hpop, hinv⟩ := h.popOrder
    exact ⟨_, _, by simp only [Session.step, hpop], hinv, rfl⟩
  | clearPriceLevel =>
    obtain ⟨level, pool, hclear, hinv, hfree⟩ := h.clearPriceLevel
    exact ⟨_, .done, by simp only [Session.step, hclear], hinv, hfree⟩
  | acquire => exact ⟨_, _, rfl, h.acquire, trivial⟩
  | release x => exact ⟨_, _, rfl, h.release hc, trivial⟩
  | write x node => exact ⟨_, _, rfl, h.write hc, trivial⟩

end Session

/-! ## Whole runs -/

open Run

/-- **A price level is a FIFO list with removal**: every run of legal calls from a new level goes
through, leaves a level whose links, counters and ends are those of the nodes placed and not taken
out, and every call on the way answered as it should. -/
theorem run_fifo (price : Int64) {pool : OrderNodeMempool} {lent : List Nat}
    (hpool : pool.Owns lent)
    {calls : List Call} (h : Along Session.Legal Session.step (.new price pool) calls) :
    (∃ s rs, run Session.step (.new price pool) calls = .ok (s, rs) ∧ s.IsFifo) ∧
      ∀ xs c, xs ++ [c] <+: calls → ∃ s rs s' r, run Session.step (.new price pool) xs =
      .ok (s, rs) ∧
        s.step c = .ok (s', r) ∧ s.Answers c s' r := by
  have hstart : (Session.new price pool).Inv := ⟨holds_nil _ _, rfl, lent, hpool⟩
  have hrun : ∀ xs, xs <+: calls → ∃ s rs, run Session.step (.new price pool) xs = .ok (s, rs) ∧
      s.Inv := by
    intro xs hxs
    refine run_total (P := fun _ s _ => s.Inv) hstart (h.restrict hxs) fun ys c s rs _ _ hs hc => ?_
    obtain ⟨s', r, hstep, hs', -⟩ := hs.step hc
    exact ⟨s', r, hstep, hs'⟩
  refine ⟨?_, fun xs c hxs => ?_⟩
  · obtain ⟨s, rs, hs, hinv⟩ := hrun calls (List.prefix_refl _)
    exact ⟨s, rs, hs, hinv.isFifo⟩
  · obtain ⟨s, rs, hs, hinv⟩ := hrun xs ((List.prefix_append _ _).trans hxs)
    obtain ⟨s', r, hstep, -, hanswer⟩ := hinv.step (h xs c hxs s rs hs)
    exact ⟨s, rs, s', r, hs, hstep, hanswer⟩

/-- A pool with three free nodes. All nodes have old links, and amounts that count up. -/
def usedPool : OrderNodeMempool where
  storage := fun n => ⟨some 7, some 9, ⟨100, 0, 0, 0, UInt32.ofNat n, 1, .limit, .buy, .execute⟩⟩
  freeQueue := id
  freeSize := 3

theorem usedPool_owns : usedPool.Owns (List.range' 3 (meOrderNodePoolSize - 3)) := by
  have hfree : usedPool.freeList = List.range' 0 3 := rfl
  have hall : List.range meOrderNodePoolSize = List.range' 0 (3 + (meOrderNodePoolSize - 3)) :=
    List.range_eq_range'
  rw [SingleThreadedStoragePool.Owns, hfree, hall, ← List.range'_append_1]

/-- Of three nodes one leaves from the middle and one from the front; both come back, and then all
are released. -/
theorem run_fifo_recycled :
    let calls : List Call := [.acquire, .addOrder 40, .addOrder 2, .addOrder 50, .deleteOrder 2,
      .popOrder, .addOrder 2, .addOrder 40]
    (∃ s rs, run Session.step (.new 100 usedPool) calls = .ok (s, rs) ∧ s.IsFifo ∧
      s.placed = [50, 2, 40] ∧ s.level.totalAmount = 92 ∧
      rs = [.node (some 2), .done, .done, .done, .deleted false, .node (some 40), .done, .done]) ∧
    ∃ s rs s' r, run Session.step (.new 100 usedPool) calls = .ok (s, rs) ∧
      s.step .clearPriceLevel = .ok (s', r) ∧ s'.pool.freeList = s.pool.freeList ++ s.placed ∧
      s'.pool.freeList.Nodup := by
  intro calls
  have h := run_fifo 100 usedPool_owns
    (show Along Session.Legal Session.step (.new 100 usedPool) (calls ++ [.clearPriceLevel]) by
      decide +kernel)
  have h' := run_fifo 100 usedPool_owns
    (show Along Session.Legal Session.step (.new 100 usedPool) calls by decide +kernel)
  obtain ⟨s, rs, hrun, hfifo⟩ := h'.1
  refine ⟨⟨s, rs, hrun, hfifo, ?_⟩, h.2 calls _ (List.prefix_refl _)⟩
  exact holds_of_succeeds (P := fun s rs => s.placed = [50, 2, 40] ∧ s.level.totalAmount = 92 ∧
    rs = [.node (some 2), .done, .done, .done, .deleted false, .node (some 40), .done, .done]) hrun
    (by decide +kernel)

end Naoto.Engine.PriceLevel
