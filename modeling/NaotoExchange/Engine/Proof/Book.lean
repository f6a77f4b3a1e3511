import NaotoExchange.Common.Proof.SkipList
import NaotoExchange.Engine.Proof.PriceLevel
import NaotoExchange.Engine.BidAsk

/-!
# What the book's memory represents

`Rep bk st L held`: the two sides `bk` over the shared store `st` hold the levels `L`, and the
nodes `held` are acquired and registered but not linked yet. `L sd` lists the levels of a side,
best first, each with its price, its pointer and the nodes in it. `Cells` is what that says about
the cells and the hash maps; the skip lists do not matter to it, nor does the order of the levels.

Inside an operation a level may be empty for a moment; between operations every level holds a
node (`Levels.Full`). `Cells.apart` separates one level's memory from everything else, which is what
the lemmas of `BookOps` frame with.
-/

namespace Naoto.Engine

open Linked

namespace Store

variable (st : FiniteStore) (pool : OrderNodeMempool) (x : Nat) (o : Order) (id : UInt32)

/-- What `register` makes of a store over a finite map. -/
def registered : FiniteStore :=
  { st with orderNodePool := pool.set x ((pool.storage x).setOrder o)
            orderMap := st.orderMap.addNode o.id32.toUInt64 x }

/-- What `forget` makes of a store over a finite map. -/
def forgotten : FiniteStore := { st with orderMap := st.orderMap.deleteNode id.toUInt64 }

@[simp] theorem register_finite : st.register pool x o = .ok (st.registered pool x o) := rfl

@[simp] theorem forget_finite : st.forget id = .ok (st.forgotten id) := rfl

end Store

/-- A level of a side: its price, its pointer and its nodes, oldest first. -/
structure LevelRep where
  price : Int64
  ptr : Nat
  nodes : List Nat

/-- The levels of the two sides, best first. -/
abbrev Levels := OrderSide → List LevelRep

namespace Levels

/-- The levels of both sides, as pool indices. -/
def ptrs (L : Levels) : List Nat := (L .buy ++ L .sell).map (·.ptr)

/-- The order nodes of both sides, as pool indices. -/
def nodes (L : Levels) : List Nat := (L .buy ++ L .sell).flatMap (·.nodes)

/-- No level is empty. -/
def Full (L : Levels) : Prop := ∀ sd, ∀ l ∈ L sd, l.nodes ≠ []

/-- The nodes of one side in priority order. -/
def queue (L : Levels) (sd : OrderSide) : List Nat := (L sd).flatMap (·.nodes)

variable {L : Levels} {sd : OrderSide}

theorem perm_sides (L : Levels) (sd : OrderSide) :
    (L .buy ++ L .sell).Perm (L sd ++ L sd.opp) := by
  cases sd with
  | buy => exact List.Perm.refl _
  | sell => exact List.perm_append_comm

theorem ptrs_perm (L : Levels) (sd : OrderSide) :
    L.ptrs.Perm ((L sd).map (·.ptr) ++ (L sd.opp).map (·.ptr)) := by
  rw [← List.map_append]
  exact (L.perm_sides sd).map _

theorem nodes_perm (L : Levels) (sd : OrderSide) :
    L.nodes.Perm (L.queue sd ++ L.queue sd.opp) := by
  unfold queue
  rw [← List.flatMap_append]
  exact (L.perm_sides sd).flatMap_right _

theorem mem_nodes {n : Nat} : n ∈ L.nodes ↔ ∃ sd, n ∈ L.queue sd := by
  rw [(L.nodes_perm .buy).mem_iff, List.mem_append]
  constructor
  · rintro (h | h)
    · exact ⟨.buy, h⟩
    · exact ⟨.sell, h⟩
  · rintro ⟨sd, h⟩
    cases sd with
    | buy => exact .inl h
    | sell => exact .inr h

theorem mem_queue {n : Nat} : n ∈ L.queue sd ↔ ∃ l ∈ L sd, n ∈ l.nodes := List.mem_flatMap

/-! One side replaced. -/

section
variable {ls l₁ l₂ : List LevelRep} {l m : LevelRep} {sd' : OrderSide}

@[simp] theorem queue_update_self : queue (Function.update L sd ls) sd = ls.flatMap (·.nodes) := by
  simp [queue]

@[simp] theorem queue_update_opp : queue (Function.update L sd ls) sd.opp = L.queue sd.opp := by
  simp [queue]

variable (L sd ls) in
theorem nodes_update_perm : (nodes (Function.update L sd ls)).Perm
    (ls.flatMap (·.nodes) ++ L.queue sd.opp) := by
  have := nodes_perm (Function.update L sd ls) sd
  rwa [queue_update_self, queue_update_opp] at this

variable (L sd ls) in
theorem ptrs_update_perm : (ptrs (Function.update L sd ls)).Perm
    (ls.map (·.ptr) ++ (L sd.opp).map (·.ptr)) := by
  have := ptrs_perm (Function.update L sd ls) sd
  rwa [Function.update_self, Function.update_of_ne (OrderSide.opp_ne sd)] at this

/-- The levels of a side with `l` among them are `l` and the others. -/
theorem mem_update_cons : m ∈ Function.update L sd (l₁ ++ l :: l₂) sd' ↔
    (sd' = sd ∧ m = l) ∨ m ∈ Function.update L sd (l₁ ++ l₂) sd' := by
  rcases OrderSide.eq_or_eq_opp sd sd' with rfl | rfl
  · simp only [Function.update_self, List.mem_append, List.mem_cons, true_and]
    tauto
  · simp

theorem update_split (hs : L sd = l₁ ++ l :: l₂) : Function.update L sd (l₁ ++ l :: l₂) = L := by
  rw [← hs, Function.update_eq_self]

end

end Levels

/-- The level `l` of side `sd`, as the store has it. -/
structure LevelOk (sd : OrderSide) (st : FiniteStore) (l : LevelRep) : Prop where
  price : (st.level l.ptr).price = l.price
  holds : (st.level l.ptr).Holds st.orderNodePool.storage l.nodes
  orders : ∀ n ∈ l.nodes, (st.node n).order.side = sd ∧ (st.node n).order.price = l.price

/-- The sides `bk` over the store `st` hold the levels `L`; `held` are nodes in use outside of
them. -/
structure Rep (bk : OrderSide → FiniteOrderBook) (st : FiniteStore) (L : Levels) (held : List Nat) :
    Prop where
  index : ∀ sd, SkipList.Models (compareOf sd) (bk sd).bestPricesMap
    ((L sd).map fun l => (l.price, l.ptr))
  fast : ∀ sd p x, (bk sd).fastMap p = some x ↔ ∃ l ∈ L sd, l.price = p ∧ l.ptr = x
  level : ∀ sd, ∀ l ∈ L sd, LevelOk sd st l
  levelPool : st.priceLevelPool.Owns L.ptrs
  nodePool : st.orderNodePool.Owns (held ++ L.nodes)
  ids : ∀ k x, st.orderMap k = some x ↔
    x ∈ held ++ L.nodes ∧ (st.node x).getId.toUInt64 = k
  freeLevels : ∀ x ∈ st.priceLevelPool.freeList, (st.level x).head = none

/-- The part of `Rep` that is about the cells and the hash maps. -/
structure Cells (bk : OrderSide → FiniteOrderBook) (st : FiniteStore) (L : Levels)
    (held : List Nat) : Prop where
  fast : ∀ sd p x, (bk sd).fastMap p = some x ↔ ∃ l ∈ L sd, l.price = p ∧ l.ptr = x
  level : ∀ sd, ∀ l ∈ L sd, LevelOk sd st l
  levelPool : st.priceLevelPool.Owns L.ptrs
  nodePool : st.orderNodePool.Owns (held ++ L.nodes)
  ids : ∀ k x, st.orderMap k = some x ↔
    x ∈ held ++ L.nodes ∧ (st.node x).getId.toUInt64 = k
  freeLevels : ∀ x ∈ st.priceLevelPool.freeList, (st.level x).head = none

/-- A level depends on its own cell and on the cells of its nodes only. -/
theorem LevelOk.congr {sd : OrderSide} {st st' : FiniteStore} {l : LevelRep} (h : LevelOk sd st l)
    (hl : st'.level l.ptr = st.level l.ptr) (hn : ∀ n ∈ l.nodes, st'.node n = st.node n) :
    LevelOk sd st' l where
  price := by rw [hl, h.price]
  holds := by rw [hl]; exact h.holds.congr hn
  orders := fun n hm => by rw [hn n hm]; exact h.orders n hm

namespace Cells

variable {bk : OrderSide → FiniteOrderBook} {st : FiniteStore} {L : Levels} {held : List Nat}
  {sd : OrderSide}

theorem nodup (h : Cells bk st L held) (sd : OrderSide) :
    (held ++ (L.queue sd ++ L.queue sd.opp)).Nodup :=
  (h.nodePool.perm ((List.Perm.refl _).append (L.nodes_perm sd))).nodup

theorem ptrs_nodup (h : Cells bk st L held) (sd : OrderSide) :
    ((L sd).map (·.ptr) ++ (L sd.opp).map (·.ptr)).Nodup :=
  (h.levelPool.perm (L.ptrs_perm sd)).nodup

theorem side_of_mem (h : Cells bk st L held) {n : Nat} (hn : n ∈ L.queue sd) :
    (st.node n).order.side = sd := by
  obtain ⟨l, hl, hm⟩ := Levels.mem_queue.1 hn
  exact ((h.level sd l hl).orders n hm).1

/-- The memory of a level is its own: no other level has its pointer or one of its nodes, and none
of its nodes is held. -/
theorem apart (h : Cells bk st L held) {l₁ l₂ : List LevelRep} {l : LevelRep}
    (hs : L sd = l₁ ++ l :: l₂) {sd' : OrderSide} {m : LevelRep}
    (hm : m ∈ Function.update L sd (l₁ ++ l₂) sd') :
    m.ptr ≠ l.ptr ∧ ∀ n ∈ m.nodes, n ∉ l.nodes := by
  have hp := h.ptrs_nodup sd
  have hn := (List.nodup_append.1 (h.nodup sd)).2.1
  rw [hs] at hp
  unfold Levels.queue at hn
  rw [hs] at hn
  -- the other levels' pointers and nodes, with those of `l` in front
  have hp' : (l.ptr :: ((l₁ ++ l₂).map (·.ptr) ++ (L sd.opp).map (·.ptr))).Nodup := by
    refine (List.Perm.nodup_iff ?_).1 hp
    simp only [List.map_append, List.map_cons, List.append_assoc, List.cons_append]
    exact List.perm_middle
  have hn' : (l.nodes ++ ((l₁ ++ l₂).flatMap (·.nodes) ++ (L sd.opp).flatMap (·.nodes))).Nodup := by
    refine (List.Perm.nodup_iff ?_).1 hn
    simp only [List.flatMap_append, List.flatMap_cons, List.append_assoc]
    exact List.perm_append_comm_assoc _ _ _
  have hmem : m ∈ (l₁ ++ l₂) ++ L sd.opp := by
    rcases OrderSide.eq_or_eq_opp sd sd' with rfl | rfl
    · rw [Function.update_self] at hm
      exact List.mem_append_left _ hm
    · rw [Function.update_of_ne (OrderSide.opp_ne sd)] at hm
      exact List.mem_append_right _ hm
  constructor
  · intro he
    apply (List.nodup_cons.1 hp').1
    rw [← he, ← List.map_append]
    exact List.mem_map_of_mem hmem
  · intro n hnm hnl
    rw [← List.flatMap_append] at hn'
    exact (List.nodup_append.1 hn').2.2 n hnl n (List.mem_flatMap.2 ⟨m, hmem, hnm⟩) rfl

theorem not_held (h : Cells bk st L held) {l : LevelRep} (hl : l ∈ L sd) {n : Nat}
    (hn : n ∈ l.nodes) : n ∉ held := fun hh =>
  (List.nodup_append.1 (h.nodup sd)).2.2 n hh n
    (List.mem_append_left _ (Levels.mem_queue.2 ⟨l, hl, hn⟩)) rfl

/-- The other levels of a side have other prices: the hash map has one level for a price. -/
theorem price_ne (h : Cells bk st L held) {l₁ l₂ : List LevelRep} {l m : LevelRep}
    (hs : L sd = l₁ ++ l :: l₂) (hm : m ∈ l₁ ++ l₂) : m.price ≠ l.price := by
  intro he
  have hm' : m ∈ Function.update L sd (l₁ ++ l₂) sd := by rwa [Function.update_self]
  have hmL : m ∈ L sd := by
    rw [← Levels.update_split hs]
    exact Levels.mem_update_cons.2 (.inr hm')
  have h1 := (h.fast sd l.price m.ptr).2 ⟨m, hmL, he, rfl⟩
  have h2 := (h.fast sd l.price l.ptr).2 ⟨l, by rw [hs]; simp, rfl, rfl⟩
  rw [h1, Option.some.injEq] at h2
  exact (h.apart hs hm').1 h2

end Cells

namespace Rep

variable {bk : OrderSide → FiniteOrderBook} {st : FiniteStore} {L : Levels} {held : List Nat}

theorem cells (h : Rep bk st L held) : Cells bk st L held :=
  ⟨h.fast, h.level, h.levelPool, h.nodePool, h.ids, h.freeLevels⟩

/-- What `Rep` says about the skip list of a side. -/
def Indexes (sd : OrderSide) (b : FiniteOrderBook) (ls : List LevelRep) : Prop :=
  SkipList.Models (compareOf sd) b.bestPricesMap (ls.map fun l => (l.price, l.ptr))

/-- What it says about the hash map of a side. -/
def Finds (b : FiniteOrderBook) (ls : List LevelRep) (p : Int64) (x : Nat) : Prop :=
  b.fastMap p = some x ↔ ∃ l ∈ ls, l.price = p ∧ l.ptr = x

theorem of_cells (h : Cells bk st L held) (hi : ∀ sd, Indexes sd (bk sd) (L sd)) :
    Rep bk st L held :=
  ⟨hi, h.fast, h.level, h.levelPool, h.nodePool, h.ids, h.freeLevels⟩

/-- The prices of a side's levels are in comparator order. -/
theorem sorted (h : Rep bk st L held) (sd : OrderSide) :
    (L sd).Pairwise fun a b => (compareOf sd).comp a.price b.price = true :=
  List.pairwise_map.1 (h.index sd).sorted

theorem getBestLevel (h : Rep bk st L held) (sd : OrderSide) :
    (bk sd).getBestLevel = .ok ((L sd).head?.map (·.ptr)) := by
  unfold OrderBook.getBestLevel
  rw [(h.index sd).getHead]
  cases L sd <;> rfl

end Rep

end Naoto.Engine
