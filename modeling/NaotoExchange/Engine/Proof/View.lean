import NaotoExchange.Engine.Proof.BookOps
import NaotoExchange.Engine.Reference

/-!
# The engine's state as a reference book

`View s L b`: the memory of `s` holds the levels `L`, whose orders in priority order are the
reference book `b`, and no resting price is better than the cached best price of its side. The
cached prices are otherwise arbitrary: they are not refreshed when a level is cancelled or swept
away, and this bound is all the engine relies on.

The lemmas here say what the pieces of `BidAsk` do to a view: `View.matchOffer` and
`View.deleteOrder` are the body of the sweep, `View.addSideLimitOrder` is the end of it.
-/

namespace Naoto.Engine

open Reference

namespace BidAsk

/-! ## Setters -/

section
variable (s : FiniteBidAsk) (sd : OrderSide) (b : FiniteOrderBook) (st : FiniteStore) (p : Int64)
  (f : Feed)

@[simp] theorem book_setBook : (s.setBook b sd).book = Function.update s.book sd b := by
  funext sd'
  cases sd <;> cases sd' <;> rfl

@[simp] theorem store_setBook : (s.setBook b sd).store = s.store := by cases sd <;> rfl

@[simp] theorem bestPrice_setBook : (s.setBook b sd).bestPrice = s.bestPrice := by
  funext sd'
  cases sd <;> cases sd' <;> rfl

@[simp] theorem toFeed_setBook : (s.setBook b sd).toFeed = s.toFeed := by cases sd <;> rfl

@[simp] theorem book_setStore : (s.setStore st).book = s.book := by
  funext sd'
  cases sd' <;> rfl

@[simp] theorem store_setStore : (s.setStore st).store = st := rfl

@[simp] theorem bestPrice_setStore : (s.setStore st).bestPrice = s.bestPrice := by
  funext sd'
  cases sd' <;> rfl

@[simp] theorem toFeed_setStore : (s.setStore st).toFeed = s.toFeed := rfl

@[simp] theorem book_setFeed : (s.setFeed f).book = s.book := by
  funext sd'
  cases sd' <;> rfl

@[simp] theorem store_setFeed : (s.setFeed f).store = s.store := rfl

@[simp] theorem bestPrice_setFeed : (s.setFeed f).bestPrice = s.bestPrice := by
  funext sd'
  cases sd' <;> rfl

@[simp] theorem toFeed_setFeed : (s.setFeed f).toFeed = f := rfl

@[simp] theorem book_setBestPrice : (s.setBestPrice p sd).book = s.book := by
  funext sd'
  cases sd <;> cases sd' <;> rfl

@[simp] theorem store_setBestPrice : (s.setBestPrice p sd).store = s.store := by cases sd <;> rfl

@[simp] theorem bestPrice_setBestPrice :
    (s.setBestPrice p sd).bestPrice = Function.update s.bestPrice sd p := by
  funext sd'
  cases sd <;> cases sd' <;> rfl

@[simp] theorem toFeed_setBestPrice : (s.setBestPrice p sd).toFeed = s.toFeed := by
  cases sd <;> rfl

end

end BidAsk

/-! ## Views -/

/-- The orders in the nodes `ns`. -/
def ordersOf (st : FiniteStore) (ns : List Nat) : List Order := ns.map fun n => (st.node n).order

section
variable {st st' : FiniteStore}

@[simp] theorem ordersOf_nil : ordersOf st [] = [] := rfl

@[simp] theorem ordersOf_cons (n : Nat) (ns : List Nat) :
    ordersOf st (n :: ns) = (st.node n).order :: ordersOf st ns := rfl

@[simp] theorem ordersOf_append (ns ms : List Nat) :
    ordersOf st (ns ++ ms) = ordersOf st ns ++ ordersOf st ms := List.map_append

theorem ordersOf_congr {ns : List Nat} (h : ∀ n ∈ ns, (st'.node n).order = (st.node n).order) :
    ordersOf st' ns = ordersOf st ns := List.map_congr_left h

end

/-- The state holds the levels `L`, and their orders are the reference book `b`. -/
structure View (s : FiniteBidAsk) (L : Levels) (b : Book) : Prop where
  rep : Rep s.book s.store L []
  full : L.Full
  queue : ∀ sd, b sd = ordersOf s.store (L.queue sd)
  best : ∀ sd, ∀ r ∈ b sd, (compareOf sd).comp r.price (s.bestPrice sd) = false

theorem depthAt_cons (p : Int64) (o : Order) (q : List Order) : depthAt p (o :: q) =
    if o.price = p then o.amount + depthAt p q else depthAt p q := rfl

theorem depthAt_other {p : Int64} : ∀ {q r : List Order}, (∀ o ∈ q, o.price ≠ p) →
    depthAt p (q ++ r) = depthAt p r
  | [], _, _ => rfl
  | o :: q, r, h => by
    rw [List.cons_append, depthAt_cons, if_neg (h o (by simp))]
    exact depthAt_other fun o' ho' => h o' (List.mem_cons_of_mem _ ho')

theorem depthAt_ordersOf {p : Int64} {st : FiniteStore} {r : List Order} : ∀ {ns : List Nat},
    (∀ n ∈ ns, (st.node n).order.price = p) →
    depthAt p (ordersOf st ns ++ r) = depth st.orderNodePool.storage ns + depthAt p r
  | [], _ => by simp
  | n :: ns, h => by
    rw [ordersOf_cons, List.cons_append, depthAt_cons, if_pos (h n (by simp)),
      depthAt_ordersOf fun m hm => h m (List.mem_cons_of_mem _ hm), depth_cons, UInt32.add_assoc]
    rfl

section
variable {bk : OrderSide → FiniteOrderBook} {st : FiniteStore} {L : Levels} {held : List Nat}
  {sd : OrderSide} {l₁ l₂ : List LevelRep} {l : LevelRep}

theorem Rep.other_price (h : Rep bk st L held) (hs : L sd = l₁ ++ l :: l₂) {ls : List LevelRep}
    (hls : ∀ m ∈ ls, m ∈ l₁ ++ l₂) :
    ∀ o ∈ ordersOf st (ls.flatMap (·.nodes)), o.price ≠ l.price := by
  intro o ho
  obtain ⟨n, hn, rfl⟩ := List.mem_map.1 ho
  obtain ⟨m, hm, hmn⟩ := List.mem_flatMap.1 hn
  have hmem : m ∈ L sd := by
    rw [hs]
    rcases List.mem_append.1 (hls m hm) with hm | hm
    · exact List.mem_append_left _ hm
    · exact List.mem_append_right _ (List.mem_cons_of_mem _ hm)
  rw [((h.level sd m hmem).orders n hmn).2]
  exact h.cells.price_ne hs (hls m hm)

/-- The quantity at a level's price is the depth of the level. -/
theorem Rep.depthAt_level (h : Rep bk st L held) (hs : L sd = l₁ ++ l :: l₂) :
    depthAt l.price (ordersOf st (L.queue sd)) = depth st.orderNodePool.storage l.nodes := by
  have hsplit : ordersOf st (L.queue sd) = ordersOf st (l₁.flatMap (·.nodes)) ++
      (ordersOf st l.nodes ++ (ordersOf st (l₂.flatMap (·.nodes)) ++ [])) := by
    unfold Levels.queue
    rw [hs]
    simp
  rw [hsplit, depthAt_other (h.other_price hs fun m hm => List.mem_append_left _ hm),
    depthAt_ordersOf fun n hn => ((h.level sd l (by rw [hs]; simp)).orders n hn).2,
    depthAt_other (h.other_price hs fun m hm => List.mem_append_right _ hm)]
  exact UInt32.add_zero _

theorem Levels.queue_cons {ls : List LevelRep} {n : Nat} {ns : List Nat} (hL : L sd = l :: ls)
    (hn : l.nodes = n :: ns) : L.queue sd = n :: (ns ++ ls.flatMap (·.nodes)) := by
  unfold Levels.queue
  rw [hL, List.flatMap_cons, hn]
  rfl

end

theorem Feed.pushUpdate_congr (f : Feed) {t t' : UInt64} (h : t.toUInt32 = t'.toUInt32)
    (p : Int64) (sd : OrderSide) : f.pushUpdate t p sd = f.pushUpdate t' p sd := by
  unfold Feed.pushUpdate
  rw [h]

theorem enqueue_append {sd : OrderSide} {o : Order} : ∀ {q₁ q₂ : List Order},
    (∀ r ∈ q₁, (compareOf sd).comp o.price r.price = false) →
    (∀ r ∈ q₂, (compareOf sd).comp o.price r.price = true) →
    enqueue sd o (q₁ ++ q₂) = q₁ ++ o :: q₂
  | [], [], _, _ => rfl
  | [], r :: q₂, _, h2 => by
    simp [enqueue, h2 r (by simp)]
  | r :: q₁, q₂, h1, h2 => by
    rw [List.cons_append, enqueue, h1 r (by simp),
      enqueue_append (fun r' hr' => h1 r' (List.mem_cons_of_mem _ hr')) h2]
    rfl

theorem mem_enqueue {sd : OrderSide} {o r : Order} : ∀ {q : List Order},
    r ∈ enqueue sd o q ↔ r = o ∨ r ∈ q
  | [] => by simp [enqueue]
  | r' :: q => by
    unfold enqueue
    split
    · simp
    · rw [List.mem_cons, mem_enqueue, List.mem_cons]
      tauto

/-- The improved price is not worse than the old one, nor than the new order's. -/
theorem comp_improvedPrice (s : FiniteBidAsk) (sd : OrderSide) {p r : Int64}
    (h : (compareOf sd).comp r (s.bestPrice sd) = false ∨ r = p) :
    (compareOf sd).comp r (s.improvedPrice p sd) = false := by
  cases sd with
  | buy =>
    simp only [compareOf, Compare.comp, BidAsk.bestPrice, BidAsk.improvedPrice,
      decide_eq_false_iff_not, not_lt] at h ⊢
    rcases h with h | rfl
    · exact le_max_of_le_left h
    · exact le_max_right _ _
  | sell =>
    simp only [compareOf, Compare.comp, BidAsk.bestPrice, BidAsk.improvedPrice,
      decide_eq_false_iff_not, not_lt] at h ⊢
    rcases h with h | rfl
    · exact min_le_of_left_le h
    · exact min_le_right _ _

namespace View

variable {s : FiniteBidAsk} {L : Levels} {b : Book} {sd : OrderSide}
  {l : LevelRep} {l₁ l₂ ls : List LevelRep} {n x : Nat} {ns n₁ n₂ : List Nat} {o : Order}

theorem ne_of_mem (h : View s L b) (hL : L sd = l :: ls) (hn : l.nodes = n :: ns) :
    (∀ m ∈ ns ++ ls.flatMap (·.nodes), m ≠ n) ∧ ∀ m ∈ L.queue sd.opp, m ≠ n := by
  have hnd := h.rep.cells.nodup sd
  rw [List.nil_append, Levels.queue_cons hL hn, List.cons_append] at hnd
  have hno := (List.nodup_cons.1 hnd).1
  rw [List.mem_append, not_or] at hno
  exact ⟨fun m hm he => hno.1 (he ▸ hm), fun m hm he => hno.2 (he ▸ hm)⟩

theorem queue_cons (h : View s L b) (hL : L sd = l :: ls) (hn : l.nodes = n :: ns) :
    b sd = (s.store.node n).order :: ordersOf s.store (ns ++ ls.flatMap (·.nodes)) := by
  rw [h.queue sd, Levels.queue_cons hL hn]
  rfl

theorem update (h : View s L b) {s' : FiniteBidAsk} {L' : Levels} {q : List Order}
    (hrep : Rep s'.book s'.store L' [])
    (hfull : L'.Full) (hqueue : ordersOf s'.store (L'.queue sd) = q)
    (hbest : ∀ r ∈ q, (compareOf sd).comp r.price (s'.bestPrice sd) = false)
    (hlevels : L'.queue sd.opp = L.queue sd.opp)
    (horders : ∀ m ∈ L.queue sd.opp, (s'.store.node m).order = (s.store.node m).order)
    (hprice : s'.bestPrice sd.opp = s.bestPrice sd.opp) : View s' L' (Function.update b sd q) := by
  refine ⟨hrep, hfull, fun sd' => ?_, fun sd' r hr => ?_⟩
  · rcases OrderSide.eq_or_eq_opp sd sd' with rfl | rfl
    · rw [Function.update_self, hqueue]
    · rw [Function.update_of_ne (OrderSide.opp_ne sd), h.queue sd.opp, hlevels]
      exact (ordersOf_congr horders).symm
  · rcases OrderSide.eq_or_eq_opp sd sd' with rfl | rfl
    · rw [Function.update_self] at hr
      exact hbest r hr
    · rw [Function.update_of_ne (OrderSide.opp_ne sd)] at hr
      rw [hprice]
      exact h.best _ r hr

/-- **One match** with the head of the opposite side, while its cached price is the level's. -/
theorem matchOffer (h : View s L b) (hL : L sd.opp = l :: ls) (hn : l.nodes = n :: ns)
    (hbest : s.bestPrice sd.opp = l.price) (o : Order) (locked : Int64) {r : Order} {q : List Order}
    (hq : b sd.opp = r :: q) :
    ∃ s', s.matchOffer sd o locked l.ptr n =
        (s', less o (traded o r), locked + soldLeg sd (traded o r) r.price) ∧
      View s' L (Function.update b sd.opp (less r (traded o r) :: q)) ∧
      s'.toFeed = s.toFeed.emit (.trade sd (less o (traded o r)) (less r (traded o r)) (traded o r)
        (depthAt r.price (less r (traded o r) :: q))) ∧
      s'.bestPrice = s.bestPrice ∧ (s'.store.node n).order = less r (traded o r) ∧
      (s'.store.node n).next = ns.head? := by
  have hlm : l ∈ L sd.opp := by rw [hL]; simp
  have hL' : L sd.opp = [] ++ l :: ls := hL
  have hcons := h.queue_cons hL hn
  rw [hq, List.cons.injEq] at hcons
  obtain ⟨hr, hqr⟩ := hcons
  have hok := h.rep.level sd.opp l hlm
  have hprice : r.price = l.price := by
    rw [hr]
    exact (hok.orders n (by rw [hn]; simp)).2
  obtain ⟨t, ht⟩ : ∃ t, t = traded o r := ⟨_, rfl⟩
  rw [← ht]
  obtain ⟨st', hst'⟩ : ∃ st', st' =
      (s.store.setNode n ((s.store.node n).setAmount ((s.store.node n).order.amount - t))).setLevel
        l.ptr ((s.store.level l.ptr).incTotalAmount (-t).toUInt64) := ⟨_, rfl⟩
  have hrep : Rep s.book st' L [] := by
    rw [hst']
    exact h.rep.setAmount hL' (by rw [hn]; simp) t
  have hself : st'.node n = (s.store.node n).setAmount ((s.store.node n).order.amount - t) := by
    rw [hst']
    exact SingleThreadedStoragePool.set_storage_self _ _ _
  have hother : ∀ m, m ≠ n → st'.node m = s.store.node m := fun m hm => by
    rw [hst']
    exact SingleThreadedStoragePool.set_storage_of_ne _ _ hm
  have hself' : (st'.node n).order = less r t := by
    rw [hself, hr]
    rfl
  obtain ⟨hne, hne'⟩ := h.ne_of_mem hL hn
  have hqueue : ordersOf st' (L.queue sd.opp) = less r t :: q := by
    rw [Levels.queue_cons hL hn, ordersOf_cons, hself', hqr]
    congr 1
    exact ordersOf_congr fun m hm => by rw [hother m (hne m hm)]
  have hdepth : (st'.level l.ptr).totalAmount.toUInt32 = depthAt r.price (less r t :: q) := by
    rw [(hrep.level sd.opp l hlm).holds.total, hprice, ← hqueue]
    exact (hrep.depthAt_level hL').symm
  have hlevel : st'.level l.ptr = (s.store.level l.ptr).incTotalAmount (-t).toUInt64 := by
    rw [hst']
    exact SingleThreadedStoragePool.set_storage_self _ _ _
  obtain ⟨s₁, hs₁⟩ : ∃ s₁ : FiniteBidAsk, s₁ = { s with
      marketPrice := if 0 < t then r.price else s.marketPrice
      store := st' } := ⟨_, rfl⟩
  have hbook : s₁.book = s.book := by
    rw [hs₁]
    funext sd'
    cases sd' <;> rfl
  have hbp : s₁.bestPrice = s.bestPrice := by
    rw [hs₁]
    funext sd'
    cases sd' <;> rfl
  have hst₁ : s₁.store = st' := by rw [hs₁]
  refine ⟨s₁.setFeed (((s.toFeed.pushFill sd t l.price o (o.amount - t)).pushFill sd.opp t l.price r
    (r.amount - t)).pushUpdate (st'.level l.ptr).totalAmount l.price sd.opp), ?_, ?_, ?_,
    ?_, ?_, ?_⟩
  · simp only [BidAsk.matchOffer, ← hr, hbest]
    rw [hlevel, hs₁, hst', ht, ← hr, hprice]
    rfl
  · refine h.update ?_ h.full ?_ (fun r' hr' => ?_) rfl (fun m hm => ?_) ?_
    · rw [BidAsk.book_setFeed, BidAsk.store_setFeed, hbook, hst₁]
      exact hrep
    · rw [BidAsk.store_setFeed, hst₁, hqueue]
    · rw [BidAsk.bestPrice_setFeed, hbp]
      rcases List.mem_cons.1 hr' with rfl | hr'
      · exact h.best sd.opp r (by rw [hq]; simp)
      · exact h.best sd.opp r' (by rw [hq]; exact List.mem_cons_of_mem _ hr')
    · rw [BidAsk.store_setFeed, hst₁, hother m (hne' m hm)]
    · rw [BidAsk.bestPrice_setFeed, hbp]
  · rw [BidAsk.toFeed_setFeed, ← hprice]
    refine Feed.pushUpdate_congr _ ?_ _ _
    rw [hdepth, UInt32.toUInt32_toUInt64]
  · rw [BidAsk.bestPrice_setFeed, hbp]
  · rw [BidAsk.store_setFeed, hst₁, hself']
  · rw [BidAsk.store_setFeed, hst₁, hself]
    have := hok.holds.links
    rw [hn] at this
    exact this.2.1

theorem queue_split (h : View s L b) (hs : L sd = l₁ ++ l :: l₂) (hn : l.nodes = n₁ ++ x :: n₂) :
    b sd = ordersOf s.store (l₁.flatMap (·.nodes) ++ n₁) ++
      (s.store.node x).order :: ordersOf s.store (n₂ ++ l₂.flatMap (·.nodes)) := by
  rw [h.queue sd]
  unfold Levels.queue
  rw [hs, List.flatMap_append, List.flatMap_cons, hn]
  simp

/-- **Deleting** a linked node removes its order. The level returned has the depth that is left at
the price. -/
theorem deleteOrder (h : View s L b) (hs : L sd = l₁ ++ l :: l₂) (hn : l.nodes = n₁ ++ x :: n₂)
    {q₁ q₂ : List Order} (hq₁ : q₁ = ordersOf s.store (l₁.flatMap (·.nodes) ++ n₁))
    (hq₂ : q₂ = ordersOf s.store (n₂ ++ l₂.flatMap (·.nodes))) :
    ∃ lv bk st', (s.book sd).deleteOrder (compareOf sd) s.store x = .ok (lv, bk, st') ∧
      View ((s.setStore st').setBook bk sd)
        (Function.update L sd (l₁ ++ (l.shrink (n₁ ++ n₂) ++ l₂)))
        (Function.update b sd (q₁ ++ q₂)) ∧
      (∀ p, lv = some p → (st'.level p).totalAmount.toUInt32 = depthAt l.price (q₁ ++ q₂)) ∧
      (lv = none → depthAt l.price (q₁ ++ q₂) = 0) := by
  obtain ⟨bk, st', hcode, hrep, hord⟩ := h.rep.deleteOrder hs hn
  have hsplit := h.queue_split hs hn
  rw [← hq₁, ← hq₂] at hsplit
  have hsub : ∀ r ∈ q₁ ++ q₂, r ∈ b sd := fun r hr => by
    rw [hsplit]
    rcases List.mem_append.1 hr with hr | hr
    · exact List.mem_append_left _ hr
    · exact List.mem_append_right _ (List.mem_cons_of_mem _ hr)
  have hqueue : ordersOf st' (Levels.queue (Function.update L sd
      (l₁ ++ (l.shrink (n₁ ++ n₂) ++ l₂))) sd) = q₁ ++ q₂ := by
    rw [ordersOf_congr (fun n _ => hord n), Levels.queue_update_self, hq₁, hq₂]
    simp
  refine ⟨_, bk, st', hcode, h.update (by simpa using hrep) ?_ (by simpa using hqueue)
    (fun r hr => ?_) (Levels.queue_update_opp ..) (fun n _ => by simpa using hord n) ?_, ?_, ?_⟩
  · intro sd' m hm
    rcases OrderSide.eq_or_eq_opp sd sd' with rfl | rfl
    · rw [Function.update_self] at hm
      simp only [List.mem_append] at hm
      rcases hm with hm | hm | hm
      · exact h.full sd' m (by rw [hs]; exact List.mem_append_left _ hm)
      · unfold LevelRep.shrink at hm
        split at hm
        · simp at hm
        · next he =>
          rw [List.mem_singleton.1 hm]
          exact he
      · exact h.full sd' m (by rw [hs]; exact List.mem_append_right _ (List.mem_cons_of_mem _ hm))
    · rw [Function.update_of_ne (OrderSide.opp_ne sd)] at hm
      exact h.full _ m hm
  · rw [BidAsk.bestPrice_setBook, BidAsk.bestPrice_setStore]
    exact h.best sd r (hsub r hr)
  · rw [BidAsk.bestPrice_setBook, BidAsk.bestPrice_setStore]
  · intro p hp
    by_cases he : n₁ ++ n₂ = []
    · rw [if_pos he] at hp
      cases hp
    · rw [if_neg he, Option.some.injEq] at hp
      rw [LevelRep.shrink, if_neg he] at hrep hqueue
      have hs' : Function.update L sd (l₁ ++ ([{ l with nodes := n₁ ++ n₂ }] ++ l₂)) sd =
          l₁ ++ { l with nodes := n₁ ++ n₂ } :: l₂ := by simp
      have hl := (hrep.level sd { l with nodes := n₁ ++ n₂ } (by rw [hs']; simp)).holds.total
      rw [← hp, ← hqueue, hl]
      exact (hrep.depthAt_level hs').symm
  · intro hp
    by_cases he : n₁ ++ n₂ = []
    · have hall : ∀ r ∈ q₁ ++ q₂, r.price ≠ l.price := by
        obtain ⟨rfl, rfl⟩ := List.append_eq_nil_iff.1 he
        rw [hq₁, hq₂, ← ordersOf_append, List.append_nil, List.nil_append, ← List.flatMap_append]
        exact h.rep.other_price hs fun m hm => hm
      have := depthAt_other (r := []) hall
      rwa [List.append_nil] at this
    · rw [if_neg he] at hp
      cases hp

/-- There is memory for one more order. -/
def Room (s : FiniteBidAsk) (sd : OrderSide) (p : Int64) : Prop :=
  0 < s.store.orderNodePool.freeSize ∧ Rep.LevelRoom s.book s.store sd p

/-- **Resting** an order whose id is not in the book. -/
theorem addSideLimitOrder (h : View s L b) (hk : (compareOf o.side).Inner o.price)
    (hid : s.store.orderMap o.id32.toUInt64 = none) (hroom : Room s o.side o.price) :
    ∃ s' L', BidAsk.addSideLimitOrder o.side s o = .ok s' ∧ View s' L' (rest b o).1 ∧
      s'.toFeed = (rest b o).2.foldl Feed.emit s.toFeed := by
  obtain ⟨x, pool, hacq, hrep, hself, hx, hother⟩ := h.rep.hold hroom.1 hid
  obtain ⟨st, hst⟩ : ∃ st, st = s.store.registered pool x o := ⟨_, rfl⟩
  rw [← hst] at hrep hself hother
  have hprice : (st.node x).order.price = o.price := by rw [hself]
  have hlr : Rep.LevelRoom s.book st o.side (st.node x).order.price := by
    rw [hprice, hst]
    exact hroom.2
  obtain ⟨lv, bk, st', ls, hcode, hrep', hfull, ⟨m, hm, hmp, hmk⟩, hplace, hord⟩ :=
    hrep.addLimitOrder h.full (by rw [hself]) (by rw [hprice]; exact hk) hlr
  rw [hprice] at hmk hplace
  have hold : ∀ sd', ∀ n ∈ L.queue sd', (st'.node n).order = (s.store.node n).order := by
    intro sd' n hn
    rw [hord n, hother n fun he => hx (he ▸ Levels.mem_nodes.2 ⟨sd', hn⟩)]
  have hqueue : ordersOf st' (ls.flatMap (·.nodes)) = enqueue o.side o (b o.side) := by
    obtain ⟨f₁, f₂, hf, hf', h1, h2⟩ := hplace
    have hmem : ∀ n ∈ f₁ ++ f₂, (st'.node n).order = (s.store.node n).order := fun n hn =>
      hold o.side n (hf ▸ hn)
    have hpr : ∀ n ∈ f₁ ++ f₂, (st.node n).order.price = (s.store.node n).order.price :=
      fun n hn => by rw [← hord n, hmem n hn]
    have e₁ : ordersOf st' f₁ = ordersOf s.store f₁ :=
      ordersOf_congr fun n hn => hmem n (List.mem_append_left _ hn)
    have e₂ : ordersOf st' f₂ = ordersOf s.store f₂ :=
      ordersOf_congr fun n hn => hmem n (List.mem_append_right _ hn)
    have ex : (st'.node x).order = o := by rw [hord x, hself]
    rw [h.queue o.side, hf, ordersOf_append, enqueue_append, hf', ordersOf_append, ordersOf_cons,
      e₁, e₂, ex]
    · intro r hr
      obtain ⟨n, hn, rfl⟩ := List.mem_map.1 hr
      rw [← hpr n (List.mem_append_left _ hn)]
      exact h1 n hn
    · intro r hr
      obtain ⟨n, hn, rfl⟩ := List.mem_map.1 hr
      rw [← hpr n (List.mem_append_right _ hn)]
      exact h2 n hn
  have hsl : Function.update L o.side ls o.side = ls := Function.update_self ..
  obtain ⟨l₁, l₂, hspl⟩ := List.append_of_mem hm
  have hlev := hrep'.level o.side m (by rw [hsl]; exact hm)
  have hdepth : (st'.level lv).totalAmount.toUInt32 =
      depthAt o.price (enqueue o.side o (b o.side)) := by
    have := hrep'.depthAt_level (hsl.trans hspl)
    rw [Levels.queue_update_self, hqueue, hmk] at this
    rw [← hmp, hlev.holds.total, this]
  have hlvp : (st'.level lv).price = o.price := by rw [← hmp, hlev.price, hmk]
  have hres : BidAsk.addSideLimitOrder o.side s o =
      .ok ((((s.setStore st').setBook bk o.side).setBestPrice (s.improvedPrice o.price o.side)
        o.side).setFeed ((s.toFeed.pushAttempt o.side (reserve o.side o.amount o.price) o
          .add).pushUpdate (st'.level lv).totalAmount o.price o.side)) := by
    simp only [BidAsk.addSideLimitOrder, hacq, Store.register_finite, ← hst, hcode, hlvp,
      BidAsk.toFeed_setBestPrice, BidAsk.toFeed_setBook, BidAsk.toFeed_setStore]
  refine ⟨_, Function.update L o.side ls, hres, h.update ?_ hfull ?_ (fun r hr => ?_)
    (Levels.queue_update_opp ..) (fun n hn => ?_) ?_, ?_⟩
  · simp only [BidAsk.book_setFeed, BidAsk.book_setBestPrice, BidAsk.book_setBook,
      BidAsk.book_setStore, BidAsk.store_setFeed, BidAsk.store_setBestPrice, BidAsk.store_setBook,
      BidAsk.store_setStore]
    exact hrep'
  · simp only [BidAsk.store_setFeed, BidAsk.store_setBestPrice, BidAsk.store_setBook,
      BidAsk.store_setStore]
    rw [Levels.queue_update_self, hqueue]
  · simp only [BidAsk.bestPrice_setFeed, BidAsk.bestPrice_setBestPrice, Function.update_self]
    apply comp_improvedPrice
    rcases mem_enqueue.1 hr with rfl | hr
    · exact .inr rfl
    · exact .inl (h.best _ r hr)
  · simp only [BidAsk.store_setFeed, BidAsk.store_setBestPrice, BidAsk.store_setBook,
      BidAsk.store_setStore]
    exact hold _ n hn
  · simp only [BidAsk.bestPrice_setFeed, BidAsk.bestPrice_setBestPrice, BidAsk.bestPrice_setBook,
      BidAsk.bestPrice_setStore, Function.update_of_ne (OrderSide.opp_ne _)]
  · show _ = s.toFeed.emit (.add o (depthAt o.price (enqueue o.side o (b o.side))))
    rw [BidAsk.toFeed_setFeed]
    exact Feed.pushUpdate_congr _ (by rw [hdepth, UInt32.toUInt32_toUInt64]) _ _

end View

end Naoto.Engine
