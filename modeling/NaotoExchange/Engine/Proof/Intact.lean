import NaotoExchange.Common.SkipListMap
import NaotoExchange.Engine.Proof.Reach

/-!
# The book's memory, whatever the prices

A `View` is about prices strictly between the extreme ones. The skip list of a side has sentinels
with the extreme keys: a level at the worse of these prices ends the process when it is entered, and
a level at the better one is found by the hash map and missing from the skip list. `Intact` is what
is true then as well: the cells are as in a view, and the skip list has the other levels. It is kept
by whatever the engine does without a fault; the lemmas here say so for each operation, `Kept` says
which ids can be new.
-/

namespace Naoto.Engine

open FixedWidth Reference

/-- The memory holds the levels `L`, in any order, and a level at the head sentinel's price may be
missing from the skip list. -/
structure Intact (s : FiniteBidAsk) (L : Levels) : Prop where
  cells : Cells s.book s.store L []
  tracks : ∀ sd, SkipList.Tracks (compareOf sd) (s.book sd).bestPricesMap (s.book sd).fastMap

/-- No id is new in the map of orders, except `ids`. -/
def Kept (ids : List UInt32) (m m' : FiniteMap UInt64 Nat) : Prop :=
  ∀ k, (∀ id ∈ ids, id.toUInt64 ≠ k) → m k = none → m' k = none

section
variable {ids ids' : List UInt32} {m m₁ m₂ : FiniteMap UInt64 Nat}

theorem Kept.refl : Kept ids m m := fun _ _ h => h

theorem Kept.trans (h₁ : Kept ids m m₁) (h₂ : Kept ids' m₁ m₂) : Kept (ids ++ ids') m m₂ :=
  fun k hk h => h₂ k (fun id hid => hk id (List.mem_append_right _ hid))
    (h₁ k (fun id hid => hk id (List.mem_append_left _ hid)) h)

end

/-! ## What the operations do to the map of orders -/

theorem OrderBook.deleteOrder_kept {c : Compare} {b b' : FiniteOrderBook} {st st' : FiniteStore}
    {x : Nat}
    {r : Option Nat} (h : b.deleteOrder c st x = .ok (r, b', st')) : Kept
      [] st.orderMap st'.orderMap := by
  have hforget : Kept [] st.orderMap (st.forgotten (st.node x).getId).orderMap := fun k _ hk => by
    show st.orderMap.deleteNode _ k = none
    rw [FiniteMap.deleteNode_apply, hk, ite_self]
  simp only [OrderBook.deleteOrder, Store.forget_finite, KeyMap.deleteNode_finite] at h
  split at h
  · cases h
    exact hforget
  · split at h
    · split at h
      · cases h
      · cases h
        exact hforget
    · cases h
      exact hforget

namespace Cells

variable {bk : OrderSide → FiniteOrderBook} {st : FiniteStore} {L : Levels} {sd : OrderSide}
  {x : Nat}

/-- **`AddLimitOrder`**, if it returns, links the node held. -/
theorem of_addLimitOrder (h : Cells bk st L [x])
    (ht : SkipList.Tracks (compareOf sd) (bk sd).bestPricesMap (bk sd).fastMap)
    (hside : (st.node x).order.side = sd) {lv : Nat} {b : FiniteOrderBook} {st' : FiniteStore}
    (hcode : (bk sd).addLimitOrder (compareOf sd) st x = .ok (lv, b, st')) :
    (∃ ls, Cells (Function.update bk sd b) st' (Function.update L sd ls) []) ∧
      SkipList.Tracks (compareOf sd) b.bestPricesMap b.fastMap ∧ st'.orderMap = st.orderMap := by
  obtain ⟨st₁, l', nodes, hfound, hadd, rfl⟩ := OrderBook.addLimitOrder_cases hcode
  obtain ⟨key, hkey⟩ : ∃ key, (st.node x).order.price = key := ⟨_, rfl⟩
  rw [hkey] at hfound
  rcases hfound with ⟨hget, rfl, rfl⟩ | ⟨hget, hnew⟩
  · obtain ⟨l, hl, hp, rfl⟩ := (h.fast sd key lv).1 hget
    obtain ⟨l₁, l₂, hs⟩ := List.append_of_mem hl
    obtain ⟨lv', pool, hlink, hc, -⟩ := h.link hs ⟨hside, hkey.trans hp.symm⟩
    rw [hadd] at hlink
    cases hlink
    exact ⟨⟨_, by rw [Function.update_eq_self]; exact hc⟩, ht, rfl⟩
  · by_cases hlv : 0 < st.priceLevelPool.freeSize
    · obtain ⟨ptr, pool, hlevel, hc⟩ := h.addLevel (List.append_nil (L sd)).symm hget hlv
      rw [hlevel] at hnew
      cases hindex : (bk sd).bestPricesMap.addNode (compareOf sd) key ptr with
      | error e =>
        rw [hindex] at hnew
        cases hnew
      | ok sl =>
        rw [hindex] at hnew
        cases hnew
        obtain ⟨lv', nodes', hlink, hc', -⟩ := (hc sl).link (Function.update_self ..) ⟨hside, hkey⟩
        rw [hadd] at hlink
        cases hlink
        rw [Function.update_idem] at hc'
        exact ⟨⟨_, hc'⟩, ht.addNode hget hindex, rfl⟩
    · rw [OrderBook.addPriceLevel, SingleThreadedStoragePool.acquire_none (by omega)] at hnew
      cases hnew

end Cells

namespace Intact

variable {s s' : FiniteBidAsk} {L : Levels} {sd : OrderSide} {l₁ l₂ : List LevelRep} {l : LevelRep}
  {x n : Nat} {ns n₁ n₂ : List Nat} {o : Order}

theorem setFeed (h : Intact s L) (f : Feed) : Intact (s.setFeed f) L :=
  ⟨by simpa using h.cells, by simpa using h.tracks⟩

theorem setBestPrice (h : Intact s L) (p : Int64) (sd : OrderSide) :
    Intact (s.setBestPrice p sd) L :=
  ⟨by simpa using h.cells, by simpa using h.tracks⟩

theorem setSide (h : Intact s L) {b : FiniteOrderBook} {st : FiniteStore} {L' : Levels}
    (hc : Cells (Function.update s.book sd b) st L' [])
    (ht : SkipList.Tracks (compareOf sd) b.bestPricesMap b.fastMap) :
    Intact ((s.setStore st).setBook b sd) L' := by
  refine ⟨by simpa using hc, fun sd' => ?_⟩
  rw [BidAsk.book_setBook, BidAsk.book_setStore]
  rcases OrderSide.eq_or_eq_opp sd sd' with rfl | rfl
  · rw [Function.update_self]
    exact ht
  · rw [Function.update_of_ne (OrderSide.opp_ne sd)]
    exact h.tracks _

theorem deleteOrder (h : Intact s L) (hs : L sd = l₁ ++ l :: l₂) (hn : l.nodes = n₁ ++ x :: n₂)
    {r : Option Nat} {b : FiniteOrderBook} {st : FiniteStore}
    (hcode : (s.book sd).deleteOrder (compareOf sd) s.store x = .ok (r, b, st)) :
    Intact ((s.setStore st).setBook b sd)
      (Function.update L sd (l₁ ++ (l.shrink (n₁ ++ n₂) ++ l₂))) := by
  obtain ⟨st', hdel, hc, -⟩ := h.cells.deleteOrder hs hn
  rw [hdel] at hcode
  by_cases he : n₁ ++ n₂ = []
  · rw [if_pos he] at hcode
    cases hsl : (s.book sd).bestPricesMap.deleteNode (compareOf sd) l.price with
    | error e =>
      rw [hsl] at hcode
      cases hcode
    | ok sl =>
      rw [hsl] at hcode
      cases hcode
      refine h.setSide (hc _ (by rw [if_pos he])) ?_
      exact (h.tracks sd).deleteNode (h.cells.getVal_level hs) hsl
  · rw [if_neg he] at hcode
    cases hcode
    exact h.setSide (hc _ (by rw [if_neg he])) (h.tracks sd)

/-- The offer the inner loop of a sweep looks at is the first of the level `ptr`, whose price is
cached. -/
def Offers (s : FiniteBidAsk) (L : Levels) (sd : OrderSide) (ptr : Nat) (offer : Option Nat) :
    Prop :=
  ∀ n, offer = some n → ∃ l ∈ L sd, l.ptr = ptr ∧ l.price = s.bestPrice sd ∧ l.nodes.head? = some n

theorem price_of_offers (h : Intact s L) {ptr : Nat} (hoffer : Offers s L sd ptr (some n)) :
    (s.store.node n).order.price = s.bestPrice sd := by
  obtain ⟨l, hl, -, hprice, hhead⟩ := hoffer n rfl
  rw [((h.cells.level sd l hl).orders n (List.mem_of_mem_head? hhead)).2, hprice]

theorem matchOffer (h : Intact s L) (hs : L sd.opp = l₁ ++ l :: l₂) (hx : n ∈ l.nodes) (o : Order)
    (locked : Int64) : Intact (s.matchOffer sd o locked l.ptr n).1 L := by
  refine ⟨?_, ?_⟩
  · rw [BidAsk.matchOffer_book]
    exact h.cells.setAmount hs hx _
  · rw [BidAsk.matchOffer_book]
    exact h.tracks

/-- **One iteration** of the inner loop. -/
theorem fillOffer (h : Intact s L) {ptr : Nat} {locked locked' : Int64} {o' : Order}
    {next : Option Nat} (hoffer : Offers s L sd.opp ptr (some n))
    (hcode : s.fillOffer sd o locked ptr n = .ok (s', o', locked', next)) :
    ∃ L', Intact s' L' ∧ Offers s' L' sd.opp ptr next ∧ Kept [] s.store.orderMap s'.store.orderMap ∧
      o' = { o with amount := o'.amount } ∧
      s'.toFeed = (s.matchOffer sd o locked ptr n).1.toFeed := by
  obtain ⟨l, hl, rfl, hprice, hhead⟩ := hoffer n rfl
  obtain ⟨l₁, l₂, hs⟩ := List.append_of_mem hl
  obtain ⟨ns, hn⟩ : ∃ ns, l.nodes = n :: ns := List.head?_eq_some_iff.1 hhead
  have hmem : n ∈ l.nodes := by rw [hn]; simp
  have h₁ := h.matchOffer hs hmem o locked
  have hbest : (s.matchOffer sd o locked l.ptr n).1.bestPrice = s.bestPrice := by
    funext sd'
    cases sd' <;> rfl
  have hnext : ((s.matchOffer sd o locked l.ptr n).1.store.node n).next = ns.head? := by
    have hlinks := (h₁.cells.level sd.opp l hl).holds.links
    rw [hn] at hlinks
    exact hlinks.2.1
  have hmap : (s.matchOffer sd o locked l.ptr n).1.store.orderMap = s.store.orderMap := rfl
  have horder : (s.matchOffer sd o locked l.ptr n).2.1 =
    { o with amount := (s.matchOffer sd o locked l.ptr n).2.1.amount } := rfl
  unfold BidAsk.fillOffer at hcode
  generalize s.matchOffer sd o locked l.ptr n = m at hcode h₁ hbest hnext hmap horder ⊢
  obtain ⟨s₁, o₁, locked₁⟩ := m
  simp only at hcode h₁ hbest hnext hmap horder ⊢
  by_cases hz : (s₁.store.node n).order.amount = 0
  · rw [if_pos hz] at hcode
    cases hdel : (s₁.book sd.opp).deleteOrder (compareOf sd.opp) s₁.store n with
    | error e =>
      rw [hdel] at hcode
      cases hcode
    | ok p =>
      obtain ⟨r, b, st⟩ := p
      rw [hdel] at hcode
      cases hcode
      refine ⟨_, h₁.deleteOrder hs (List.nil_append (n :: ns) ▸ hn) hdel, fun m hm => ?_, ?_,
        horder, ?_⟩
      · -- what is left of the level starts with the next node
        rw [hnext] at hm
        refine ⟨{ l with nodes := ns }, ?_, rfl, ?_, hm⟩
        · have hne : ns ≠ [] := by
            rintro rfl
            cases hm
          rw [Function.update_self, List.nil_append, LevelRep.shrink, if_neg hne]
          simp
        · rw [BidAsk.bestPrice_setBook, BidAsk.bestPrice_setStore, hbest]
          exact hprice
      · rw [BidAsk.store_setBook, BidAsk.store_setStore, ← hmap]
        exact OrderBook.deleteOrder_kept hdel
      · rw [BidAsk.toFeed_setBook, BidAsk.toFeed_setStore]
  · rw [if_neg hz] at hcode
    cases hcode
    refine ⟨L, h₁, fun m hm => ?_, by rw [hmap]; exact .refl, horder, rfl⟩
    cases hm
    exact ⟨l, hl, rfl, by rw [hbest]; exact hprice, hhead⟩

theorem offers_best (h : Intact s L) {ptr : Nat}
    (hbest : (s.book sd).getBestLevel = .ok (some ptr)) :
    Offers (s.setBestPrice (s.store.level ptr).price sd) L sd ptr (s.store.level ptr).head := by
  intro n hn
  obtain ⟨p, hp⟩ := (h.tracks sd).getHead hbest
  obtain ⟨l, hl, -, rfl⟩ := (h.cells.fast sd p ptr).1 hp
  have hok := h.cells.level sd l hl
  refine ⟨l, hl, rfl, ?_, ?_⟩
  · rw [BidAsk.bestPrice_setBestPrice, Function.update_self, hok.price]
  · rw [← hok.holds.head, hn]

/-- **Resting** an order whose id is not in the map. -/
theorem addSideLimitOrder (h : Intact s L) (hid : s.store.orderMap o.id32.toUInt64 = none)
    (hcode : BidAsk.addSideLimitOrder o.side s o = .ok s') :
    ∃ L', Intact s' L' ∧ Kept [o.id32] s.store.orderMap s'.store.orderMap := by
  by_cases h0 : 0 < s.store.orderNodePool.freeSize
  · obtain ⟨x, pool, hacq, hc, hself, -⟩ := h.cells.hold h0 hid
    simp only [BidAsk.addSideLimitOrder, hacq, Store.register_finite] at hcode
    cases hadd : (s.book o.side).addLimitOrder (compareOf o.side) (s.store.registered pool x o) x
      with
    | error e =>
      rw [hadd] at hcode
      cases hcode
    | ok p =>
      obtain ⟨lv, b, st⟩ := p
      rw [hadd] at hcode
      cases hcode
      obtain ⟨⟨ls, hc'⟩, ht, hmap⟩ := hc.of_addLimitOrder (h.tracks o.side) (by rw [hself]) hadd
      refine ⟨_, ((h.setSide hc' ht).setBestPrice _ _).setFeed _, fun k hk hnone => ?_⟩
      rw [BidAsk.store_setFeed, BidAsk.store_setBestPrice, BidAsk.store_setBook,
        BidAsk.store_setStore, hmap]
      show s.store.orderMap.addNode o.id32.toUInt64 x k = none
      rw [FiniteMap.addNode_of_none hid, if_neg, hnone]
      rintro rfl
      exact hk o.id32 (by simp) rfl
  · simp only [BidAsk.addSideLimitOrder, SingleThreadedStoragePool.acquire_none
      (Nat.eq_zero_of_not_pos h0)] at hcode
    cases hcode
    exact ⟨L, h, .refl⟩

end Intact

/-- A cancel request that finds an order of its sender carries the side of that order. -/
def CancelsOwnSide (s : FiniteBidAsk) (o : Order) : Prop :=
  o.action = .cancel → ∀ x ∈ s.store.orderMap.getVal o.amount.toUInt64,
    (s.store.node x).order.clientId = o.clientId → (s.store.node x).order.side = o.side

instance decidableCancelsOwnSide (s : FiniteBidAsk) (o : Order) :
    Decidable (CancelsOwnSide s o) := by
  unfold CancelsOwnSide
  infer_instance

/-- **A cancel request** for an order on the side it names. -/
theorem Intact.cancelOrder {s s' : FiniteBidAsk} {L : Levels} {o : Order} (h : Intact s L)
    (hside : CancelsOwnSide s o) (ha : o.action = .cancel)
    (hcode : BidAsk.cancelOrder o.side s o = .ok s') :
    ∃ L', Intact s' L' ∧ Kept [] s.store.orderMap s'.store.orderMap := by
  simp only [BidAsk.cancelOrder, KeyMap.getVal_finite] at hcode
  cases hget : s.store.orderMap.getVal o.amount.toUInt64 with
  | none =>
    rw [hget] at hcode
    cases hcode
    exact ⟨L, h.setFeed _, .refl⟩
  | some x =>
    rw [hget] at hcode
    by_cases hown : (s.store.node x).order.clientId = o.clientId
    · -- the node is in a level of the side that the request names
      have hx : x ∈ L.nodes := ((h.cells.ids _ x).1 hget).1
      obtain ⟨sd, hq⟩ := Levels.mem_nodes.1 hx
      have hsd : sd = o.side := (h.cells.side_of_mem hq).symm.trans (hside ha x hget hown)
      rw [hsd] at hq
      obtain ⟨l, hl, hxl⟩ := Levels.mem_queue.1 hq
      obtain ⟨l₁, l₂, hs⟩ := List.append_of_mem hl
      obtain ⟨n₁, n₂, hn⟩ := List.append_of_mem hxl
      simp only [hown, ne_eq, not_true_eq_false, if_false, BidAsk.book_setFeed,
        BidAsk.store_setFeed] at hcode
      cases hdel : (s.book o.side).deleteOrder (compareOf o.side) s.store x with
      | error e =>
        rw [hdel] at hcode
        cases hcode
      | ok p =>
        obtain ⟨r, b, st⟩ := p
        rw [hdel] at hcode
        cases hcode
        have h' := (h.setFeed (s.toFeed.pushAttempt o.side
          (reserve o.side (s.store.node x).order.amount
          (s.store.node x).order.price) (s.store.node x).order .cancel)).deleteOrder hs hn hdel
        refine ⟨_, h'.setFeed _, ?_⟩
        rw [BidAsk.store_setFeed, BidAsk.store_setBook, BidAsk.store_setStore]
        exact OrderBook.deleteOrder_kept hdel
    · simp only [hown, ne_eq, not_false_eq_true, if_true] at hcode
      cases hcode
      exact ⟨L, h.setFeed _, .refl⟩

theorem new_intact (assetId : UInt32) (initialPrice : Int64) (reportSeq bookSeq : UInt32)
    (bidSeed askSeed : UInt64) :
    Intact (BidAsk.new assetId initialPrice reportSeq bookSeq bidSeed askSeed) fun _ => [] where
  cells := (new_view assetId initialPrice reportSeq bookSeq bidSeed askSeed).rep.cells
  tracks := fun sd => ⟨[], by cases sd <;> exact SkipList.new_models (by decide) _,
    fun k v => by
      cases sd <;>
        simp [BidAsk.new, BidAsk.construct, BidAsk.book, OrderBook.new, KeyMap.empty,
          FiniteMap.empty, FiniteMap.deleteNode]⟩

end Naoto.Engine
