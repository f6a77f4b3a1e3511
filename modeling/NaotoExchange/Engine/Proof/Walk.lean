import NaotoExchange.Engine.Proof.Execute

/-!
# Reading the book back

Walking the pointers of a state that has a view finds what the view says: the levels through the
bottom chain of the skip list, the nodes of a level through their `next` links. `View.restingOrders`
is what statements about the engine's book go through.
-/

namespace Naoto.Engine

open Linked Reference

namespace BidAsk

theorem walkNodes_linked {st : FiniteStore} : ∀ {ns : List Nat} {fuel : Nat} {p : Option Nat},
    DLinked (fun n => (st.node n).next) (fun n => (st.node n).prev) p ns → ns.length < fuel →
    walkNodes st fuel ns.head? = ns
  | [], fuel, _, _, _ => by cases fuel <;> rfl
  | n :: ns, fuel, p, h, hlen => by
    obtain ⟨f, rfl⟩ : ∃ f, fuel = f + 1 := ⟨fuel - 1, by omega⟩
    have hn : (st.node n).next = ns.head? := h.2.1
    rw [List.head?_cons, walkNodes, hn, walkNodes_linked h.2.2 (by simpa using hlen)]

/-- The bottom chain of a skip list leads through its nodes. -/
theorem walkLevels_chain {sl : PriceLevelSkipList} : ∀ {xs : List Nat} {fuel a : Nat},
    Chain (fun x => (sl.node x).forward 0) a xs sl.tail → sl.tail ∉ xs → xs.length < fuel →
    walkLevels sl fuel ((sl.node a).forward 0) = xs
  | [], fuel, a, h, _, hlen => by
    obtain ⟨f, rfl⟩ : ∃ f, fuel = f + 1 := ⟨fuel - 1, by omega⟩
    have ha : (sl.node a).forward 0 = some sl.tail := h
    rw [ha, walkLevels, if_pos rfl]
  | x :: xs, fuel, a, h, ht, hlen => by
    obtain ⟨f, rfl⟩ : ∃ f, fuel = f + 1 := ⟨fuel - 1, by omega⟩
    have ha : (sl.node a).forward 0 = some x := h.1
    rw [List.mem_cons, not_or] at ht
    rw [ha, walkLevels, if_neg (Ne.symm ht.1), walkLevels_chain h.2 ht.2 (by simpa using hlen)]

end BidAsk

namespace View

variable {s : FiniteBidAsk} {L : Levels} {b : Book} {sd : OrderSide}

theorem walkLevels (h : View s L b) (sd : OrderSide) :
    let sl := (s.book sd).bestPricesMap
    (BidAsk.walkLevels sl meSkipListNodePoolSize ((sl.node sl.head).forward 0)).map
        (fun x => ((sl.node x).key, (sl.node x).value)) =
      (L sd).map fun l => (l.price, some l.ptr) := by
  obtain ⟨xs, hr, hm⟩ := h.rep.index sd
  have hch := hr.chain 0 (Nat.zero_le _)
  rw [SkipList.atLevel_zero] at hch
  rw [List.map_map] at hm
  simp only [BidAsk.walkLevels_chain hch hr.tail_not_mem hr.length_lt, hm]
  rfl

theorem indexPrices (h : View s L b) (sd : OrderSide) :
    s.indexPrices sd = (L sd).map (·.price) := by
  have := congrArg (List.map Prod.fst) (h.walkLevels sd)
  simp only [List.map_map] at this
  exact this

theorem levels (h : View s L b) (sd : OrderSide) : s.levels sd = (L sd).map (·.ptr) := by
  have := congrArg (List.filterMap Prod.snd) (h.walkLevels sd)
  simp only [List.filterMap_map] at this
  refine this.trans ?_
  rw [← List.filterMap_eq_map]
  rfl

theorem nodesOf (h : View s L b) {l : LevelRep} (hl : l ∈ L sd) : s.nodesOf l.ptr = l.nodes := by
  have hok := h.rep.level sd l hl
  unfold BidAsk.nodesOf
  rw [hok.holds.head]
  exact BidAsk.walkNodes_linked hok.holds.links (by have := h.rep.cells.level_length_le hl; omega)

/-- **The orders found by walking the book** are those of the view. -/
theorem restingOrders (h : View s L b) : s.restingOrders = b := by
  funext sd
  rw [h.queue sd]
  unfold BidAsk.restingOrders ordersOf Levels.queue
  rw [h.levels sd, List.flatMap_map, List.map_flatMap]
  exact List.flatMap_congr fun l hl => by rw [h.nodesOf hl]

end View

end Naoto.Engine
