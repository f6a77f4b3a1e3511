import NaotoExchange.Lib.Simulation
import NaotoExchange.Common.HomeBuckets
import NaotoExchange.Engine.Proof.Reach

/-!
# The engine over flat hash maps

`BidAsk.finite` replaces the three tables of the engine by the finite maps that they answer from.
While a message is processed the maps only get the keys of its order, so that what is in them stays
among the keys at rest and those two (`Homed`). As long as no more than 16 of these have one home
bucket, every function of the engine does over the tables what it does over the finite maps: one
lemma `…_lifts` per function, down to one message (`step_lifts`).

`run_mirrored`: a run whose orders all find room at home (`RoomAtHome`) is a run over finite maps.
-/

namespace Naoto.Engine

open Reference Run FlatHashMap

/-! ## The finite maps behind the tables -/

/-- The store with the map that its table answers from. -/
def Store.finite (st : FlatStore) : FiniteStore :=
  ⟨st.orderNodePool, st.priceLevelPool, st.orderMap.finite⟩

/-- A side with the map that its table answers from. -/
def OrderBook.finite (b : FlatOrderBook) : FiniteOrderBook := ⟨b.fastMap.finite, b.bestPricesMap⟩

namespace BidAsk

/-- The engine with the maps that its tables answer from. -/
def finite (s : FlatBidAsk) : FiniteBidAsk where
  toFeed := s.toFeed
  marketPrice := s.marketPrice
  bestAskPrice := s.bestAskPrice
  bestBidPrice := s.bestBidPrice
  store := s.store.finite
  bid := s.bid.finite
  ask := s.ask.finite

variable (s : FlatBidAsk) (sd : OrderSide)

@[simp] theorem book_finite : s.finite.book sd = (s.book sd).finite := by cases sd <;> rfl

theorem setBook_finite (b : FlatOrderBook) :
    (s.setBook b sd).finite = s.finite.setBook b.finite sd := by
  cases sd <;> rfl

theorem setBestPrice_finite (p : Int64) :
    (s.setBestPrice p sd).finite = s.finite.setBestPrice p sd := by
  cases sd <;> rfl

@[simp] theorem bestPrice_finite : s.finite.bestPrice sd = s.bestPrice sd := by cases sd <;> rfl

@[simp] theorem improvedPrice_finite (p : Int64) :
    s.finite.improvedPrice p sd = s.improvedPrice p sd := by
  cases sd <;> rfl

@[simp] theorem isMarketable_finite (o : Order) : s.finite.isMarketable o = s.isMarketable o := by
  unfold isMarketable
  rw [bestPrice_finite]

theorem matchOffer_finite (o : Order) (locked : Int64) (lv n : Nat) :
    s.finite.matchOffer sd o locked lv n =
      ((s.matchOffer sd o locked lv n).1.finite, (s.matchOffer sd o locked lv n).2) := by
  unfold matchOffer
  rw [bestPrice_finite]
  rfl

/-! Walking the book does not touch the maps. -/

theorem walkNodes_finite (st : FlatStore) :
    ∀ (fuel : Nat) (n : Option Nat), walkNodes st.finite fuel n = walkNodes st fuel n
  | 0, _ => rfl
  | _ + 1, none => rfl
  | fuel + 1, some n => congrArg (n :: ·) (walkNodes_finite st fuel _)

@[simp] theorem nodesOf_finite (lv : Nat) : s.finite.nodesOf lv = s.nodesOf lv :=
  walkNodes_finite s.store _ _

@[simp] theorem levels_finite : s.finite.levels sd = s.levels sd := by
  unfold levels
  rw [book_finite]
  rfl

@[simp] theorem indexPrices_finite : s.finite.indexPrices sd = s.indexPrices sd := by
  unfold indexPrices
  rw [book_finite]
  rfl

@[simp] theorem restingOrders_finite : s.finite.restingOrders = s.restingOrders := by
  funext sd
  unfold restingOrders
  rw [levels_finite]
  exact List.flatMap_congr fun lv _ => by rw [nodesOf_finite]; rfl

theorem hasRoom_finite : s.finite.HasRoom ↔ s.HasRoom := by
  unfold HasRoom
  simp only [book_finite]
  rfl

end BidAsk

/-! ## Keys -/

/-- The keys that may be in the maps while a message is processed. -/
structure Keys where
  ids : List UInt64
  prices : OrderSide → List Int64

/-- The tables are in order and hold no other keys. -/
structure Homed (ks : Keys) (s : FlatBidAsk) : Prop where
  orders : KeysIn ks.ids s.store.orderMap
  levels : ∀ sd, KeysIn (ks.prices sd) (s.book sd).fastMap

/-- The state over finite maps that belongs to a state over tables. -/
def Mirrors (ks : Keys) (s : FlatBidAsk) (a : FiniteBidAsk) : Prop := a = s.finite ∧ Homed ks s

section
variable {ks : Keys} {s : FlatBidAsk}

theorem Homed.setFeed (h : Homed ks s) (f : Feed) : Homed ks (s.setFeed f) :=
  ⟨h.orders, fun sd => by cases sd <;> exact h.levels _⟩

theorem Homed.setBestPrice (h : Homed ks s) (p : Int64) (sd : OrderSide) :
    Homed ks (s.setBestPrice p sd) := by
  cases sd <;> exact ⟨h.orders, fun sd' => by cases sd' <;> exact h.levels _⟩

theorem Homed.replace (h : Homed ks s) {st : FlatStore} {b : FlatOrderBook} {sd : OrderSide}
    (hst : KeysIn ks.ids st.orderMap) (hb : KeysIn (ks.prices sd) b.fastMap) :
    Homed ks ((s.setStore st).setBook b sd) := by
  cases sd with
  | buy =>
    exact ⟨hst, fun sd' => by cases sd' with | buy => exact hb | sell => exact h.levels .sell⟩
  | sell =>
    exact ⟨hst, fun sd' => by cases sd' with | buy => exact h.levels .buy | sell => exact hb⟩

theorem Homed.matchOffer (h : Homed ks s) (sd : OrderSide) (o : Order) (locked : Int64)
    (lv n : Nat) : Homed ks (s.matchOffer sd o locked lv n).1 :=
  ⟨h.orders, fun sd' => by cases sd' <;> exact h.levels _⟩

end

/-! ## The operations of one side -/

section
variable {ids : List UInt64} {prices : List Int64} {st : FlatStore} {b : FlatOrderBook} {x : Nat}

/-- What an operation of one side leaves: the result over finite maps, and the tables in order. -/
def SideMirrors {γ : Type} (ids : List UInt64) (prices : List Int64)
    (r : γ × FlatOrderBook × FlatStore) (q : γ × FiniteOrderBook × FiniteStore) : Prop :=
  q = (r.1, r.2.1.finite, r.2.2.finite) ∧ KeysIn ids r.2.2.orderMap ∧
    KeysIn prices r.2.1.fastMap

theorem Store.forget_lifts (h : KeysIn ids st.orderMap) (id : UInt32) :
    ∃ st' : FlatStore, st.forget id = .ok st' ∧ st.finite.forgotten id = st'.finite ∧
      KeysIn ids st'.orderMap := by
  obtain ⟨m, hm, hk, hf⟩ := h.deleteNode id.toUInt64
  refine ⟨{ st with orderMap := m }, ?_, ?_, hk⟩
  · rw [Store.forget, hm]
  · unfold Store.forgotten Store.finite
    rw [hf]

theorem Store.register_lifts (h : KeysIn ids st.orderMap) (hc : Uncrowded meOrderMapSize ids)
    (pool : OrderNodeMempool) (x : Nat) {o : Order} (ho : o.id32.toUInt64 ∈ ids) :
    ∃ st' : FlatStore, st.register pool x o = .ok st' ∧ st.finite.registered pool x o = st'.finite ∧
      KeysIn ids st'.orderMap := by
  obtain ⟨m, hm, hk, hf⟩ := h.addNode hc ho x
  refine ⟨⟨pool.set x ((pool.storage x).setOrder o), st.priceLevelPool, m⟩, ?_, ?_, hk⟩
  · rw [Store.register, hm]
  · unfold Store.registered Store.finite
    rw [hf]

theorem OrderBook.deleteOrder_lifts (c : Compare) (hst : KeysIn ids st.orderMap)
    (hb : KeysIn prices b.fastMap) :
    Lifts (SideMirrors ids prices) (b.deleteOrder c st x)
      (b.finite.deleteOrder c st.finite x) := by
  obtain ⟨st₁, hforget, hfin, hst₁⟩ := Store.forget_lifts hst (st.node x).getId
  have hfin' : st.finite.forget (st.finite.node x).getId = .ok st₁.finite := by
    rw [Store.forget_finite, ← hfin]
    rfl
  unfold OrderBook.deleteOrder
  rw [hforget, hfin']
  have hget : KeyMap.getVal b.finite.fastMap (st.finite.node x).order.price =
      KeyMap.getVal b.fastMap (st.node x).order.price := rfl
  simp only [hget]
  cases KeyMap.getVal b.fastMap (st.node x).order.price with
  | none => exact .ok ⟨rfl, hst₁, hb⟩
  | some cur =>
    have hdel : (st₁.finite.level cur).deleteOrder st₁.finite.orderNodePool x =
        (st₁.level cur).deleteOrder st₁.orderNodePool x := rfl
    simp only [hdel]
    split
    · obtain ⟨m, hm, hk, hf⟩ := hb.deleteNode (st.node x).order.price
      have hm' : KeyMap.deleteNode b.finite.fastMap (st.finite.node x).order.price =
          .ok m.finite := by
        rw [KeyMap.deleteNode_finite, hf]
        rfl
      have hsl : b.finite.bestPricesMap.deleteNode c (st.finite.node x).order.price =
          b.bestPricesMap.deleteNode c (st.node x).order.price := rfl
      simp only [hm, hm', hsl]
      cases b.bestPricesMap.deleteNode c (st.node x).order.price with
      | error e => exact .error e
      | ok sl => exact .ok ⟨rfl, hst₁, hk⟩
    · exact .ok ⟨rfl, hst₁, hb⟩

theorem OrderBook.addPriceLevel_lifts (c : Compare) (hst : KeysIn ids st.orderMap)
    (hb : KeysIn prices b.fastMap) (hc : Uncrowded meFastMapSize prices) {key : Int64}
    (hkey : key ∈ prices) :
    Lifts (SideMirrors ids prices) (b.addPriceLevel c st key)
      (b.finite.addPriceLevel c st.finite key) := by
  have hacq : st.finite.priceLevelPool.acquire = st.priceLevelPool.acquire := rfl
  have hnodes : st.finite.orderNodePool = st.orderNodePool := rfl
  unfold OrderBook.addPriceLevel
  simp only [hacq, hnodes]
  rcases st.priceLevelPool.acquire with ⟨_ | cur, pool⟩
  · exact .error _
  · dsimp only
    cases (pool.storage cur).clearPriceLevel st.orderNodePool with
    | error e => exact .error e
    | ok r =>
      obtain ⟨m, hm, hk, hf⟩ := hb.addNode hc hkey cur
      have hm' : KeyMap.addNode b.finite.fastMap key cur = .ok m.finite := by
        rw [KeyMap.addNode_finite, hf]
        rfl
      have hsl : b.finite.bestPricesMap.addNode c key cur = b.bestPricesMap.addNode c key cur := rfl
      simp only [hm, hm', hsl]
      cases b.bestPricesMap.addNode c key cur with
      | error e => exact .error e
      | ok sl => exact .ok ⟨rfl, hst, hk⟩

theorem OrderBook.addLimitOrder_lifts (c : Compare) (hst : KeysIn ids st.orderMap)
    (hb : KeysIn prices b.fastMap) (hc : Uncrowded meFastMapSize prices)
    (hkey : (st.node x).order.price ∈ prices) :
    Lifts (SideMirrors ids prices) (b.addLimitOrder c st x)
      (b.finite.addLimitOrder c st.finite x) := by
  have hprice : (st.finite.node x).order.price = (st.node x).order.price := rfl
  have hget : KeyMap.getVal b.finite.fastMap (st.node x).order.price =
      KeyMap.getVal b.fastMap (st.node x).order.price := rfl
  have hadd : ∀ (cur : Nat) (st : FlatStore), (st.finite.level cur).addOrder
      st.finite.orderNodePool x = (st.level cur).addOrder st.orderNodePool x := fun _ _ => rfl
  unfold OrderBook.addLimitOrder
  simp only [hprice, hget]
  cases KeyMap.getVal b.fastMap (st.node x).order.price with
  | some cur =>
    simp only [hadd]
    cases (st.level cur).addOrder st.orderNodePool x with
    | error e => exact .error e
    | ok l => exact .ok ⟨rfl, hst, hb⟩
  | none =>
    have hnew := OrderBook.addPriceLevel_lifts c hst hb hc hkey
    rcases hnew.elim with ⟨e, hr, hq⟩ | ⟨⟨cur, b₁, st₁⟩, q, hr, hq, rfl, hst₁, hb₁⟩
    · simp only [hr, hq]
      exact .error e
    · simp only [hr, hq, hadd]
      cases (st₁.level cur).addOrder st₁.orderNodePool x with
      | error e => exact .error e
      | ok l => exact .ok ⟨rfl, hst₁, hb₁⟩

end

/-! ## The functions of the engine -/

section
variable {ks : Keys} {s : FlatBidAsk} {o : Order} {sd : OrderSide}

/-- The maps have room at home for the order. -/
structure FitsHome (ks : Keys) (sd : OrderSide) (o : Order) : Prop where
  id : o.id32.toUInt64 ∈ ks.ids
  price : o.price ∈ ks.prices sd
  ids : Uncrowded meOrderMapSize ks.ids
  prices : Uncrowded meFastMapSize (ks.prices sd)

theorem addSideLimitOrder_lifts (h : Homed ks s) (hf : FitsHome ks sd o) :
    Lifts (Mirrors ks) (BidAsk.addSideLimitOrder sd s o)
      (BidAsk.addSideLimitOrder sd s.finite o) := by
  have hacq : s.finite.store.orderNodePool.acquire = s.store.orderNodePool.acquire := rfl
  unfold BidAsk.addSideLimitOrder
  rw [hacq]
  rcases s.store.orderNodePool.acquire with ⟨_ | x, pool⟩
  · exact .ok ⟨rfl, h⟩
  · obtain ⟨st, hreg, hfin, hst⟩ := Store.register_lifts h.orders hf.ids pool x hf.id
    have hfin' : s.finite.store.register pool x o = .ok st.finite := by
      rw [Store.register_finite, ← hfin]
      rfl
    have hprice : (st.node x).order.price = o.price := by
      have : st.finite.node x = (pool.storage x).setOrder o := by
        rw [← hfin]
        exact SingleThreadedStoragePool.set_storage_self ..
      exact congrArg (fun n => n.order.price) this
    simp only [hreg, hfin', BidAsk.book_finite, BidAsk.improvedPrice_finite]
    have hadd := OrderBook.addLimitOrder_lifts (x := x) (compareOf sd) hst (h.levels sd) hf.prices
      (by rw [hprice]; exact hf.price)
    rcases hadd.elim with ⟨e, hr, hq⟩ | ⟨⟨lv, b, st'⟩, q, hr, hq, rfl, hst', hb⟩
    · simp only [hr, hq]
      exact .error e
    · simp only [hr, hq]
      refine .ok ⟨?_, ((h.replace hst' hb).setBestPrice _ _).setFeed _⟩
      cases sd <;> rfl

/-- What a loop of a sweep leaves: related states, and the order with what is left of it. -/
def LoopMirrors (ks : Keys) (o : Order) (r : FlatBidAsk × Order × Int64)
    (q : FiniteBidAsk × Order × Int64) : Prop :=
  q = (r.1.finite, r.2) ∧ Homed ks r.1 ∧ r.2.1 = { o with amount := r.2.1.amount }

theorem Lifts.of_amount {o₁ : Order} {r : Except Fault (FlatBidAsk × Order × Int64)}
    {q : Except Fault (FiniteBidAsk × Order × Int64)} (h : Lifts (LoopMirrors ks o₁) r q)
    (ho : o₁ = { o with amount := o₁.amount }) : Lifts (LoopMirrors ks o) r q :=
  h.mono fun _ _ ⟨hq, hh, hr⟩ => ⟨hq, hh, by rw [hr, ho]⟩

theorem fillLevel_lifts (sd : OrderSide) (lv : Nat) : ∀ (fuel : Nat) {s : FlatBidAsk} (o : Order)
    (locked : Int64) (n : Option Nat), Homed ks s →
    Lifts (LoopMirrors ks o) (BidAsk.fillLevel BidAsk.isMarketable sd lv fuel s o locked n)
      (BidAsk.fillLevel BidAsk.isMarketable sd lv fuel s.finite o locked n)
  | 0, _, _, _, _, _ => .error _
  | _ + 1, _, _, _, none, h => .ok ⟨rfl, h, rfl⟩
  | fuel + 1, s, o, locked, some n, h => by
    simp only [BidAsk.fillLevel, BidAsk.isMarketable_finite, BidAsk.matchOffer_finite]
    split
    · obtain ⟨r, hr⟩ : ∃ r, r = s.matchOffer sd o locked lv n := ⟨_, rfl⟩
      have h₁ : Homed ks r.1 := hr ▸ h.matchOffer sd o locked lv n
      have ho : r.2.1 = { o with amount := r.2.1.amount } := by rw [hr]; rfl
      have hnode : r.1.finite.store.node n = r.1.store.node n := rfl
      have hstore : r.1.finite.store = r.1.store.finite := rfl
      rw [← hr]
      simp only [hnode, BidAsk.book_finite]
      refine Lifts.of_amount ?_ ho
      split
      · have hdel := OrderBook.deleteOrder_lifts (x := n) (compareOf sd.opp) h₁.orders
          (h₁.levels sd.opp)
        rcases hdel.elim with ⟨e, hr, hq⟩ | ⟨⟨l, b, st⟩, q, hr, hq, rfl, hst, hb⟩
        · rw [hr, hstore, hq]
          exact .error e
        · rw [hr, hstore, hq]
          have hnext := fillLevel_lifts sd lv fuel r.2.1 r.2.2 (r.1.store.node n).next
            (h₁.replace hst hb)
          rw [BidAsk.setBook_finite] at hnext
          exact hnext
      · exact fillLevel_lifts sd lv fuel r.2.1 r.2.2 (some n) h₁
    · exact .ok ⟨rfl, h, rfl⟩

theorem fillLevels_lifts (sd : OrderSide) : ∀ (fuel : Nat) {s : FlatBidAsk} (o : Order)
    (locked : Int64), Homed ks s →
    Lifts (LoopMirrors ks o) (BidAsk.fillLevels BidAsk.isMarketable sd fuel s o locked)
      (BidAsk.fillLevels BidAsk.isMarketable sd fuel s.finite o locked)
  | 0, _, _, _, _ => .error _
  | fuel + 1, s, o, locked, h => by
    have hstore : s.finite.store = s.store.finite := rfl
    have hlevel : ∀ lv, s.store.finite.level lv = s.store.level lv := fun _ => rfl
    have hget : (s.book sd.opp).finite.getBestLevel = (s.book sd.opp).getBestLevel := rfl
    simp only [BidAsk.fillLevels, BidAsk.isMarketable_finite, BidAsk.book_finite, hget, hstore,
      hlevel]
    split
    · split
      · exact .error _
      · exact .ok ⟨rfl, h, rfl⟩
      · next lv _ =>
        split
        · exact .ok ⟨rfl, h, rfl⟩
        · next n _ =>
          split
          · have hin := fillLevel_lifts sd lv (meOrderNodePoolSize + 2) o locked (some n)
              (h.setBestPrice (s.store.level lv).price sd.opp)
            rw [BidAsk.setBestPrice_finite] at hin
            rcases hin.elim with ⟨e, hr, hq⟩ | ⟨⟨s₁, w⟩, q, hr, hq, rfl, h₁, ho⟩
            · rw [hr, hq]
              exact .error e
            · rw [hr, hq]
              exact Lifts.of_amount (fillLevels_lifts sd fuel w.1 w.2 h₁) ho
          · exact .ok ⟨by rw [BidAsk.setBestPrice_finite], h.setBestPrice _ _, rfl⟩
    · exact .ok ⟨rfl, h, rfl⟩

theorem fillOrder_lifts (h : Homed ks s) (hf : o.type = .limit → FitsHome ks sd o) :
    Lifts (Mirrors ks) (BidAsk.fillOrder BidAsk.isMarketable sd s o)
      (BidAsk.fillOrder BidAsk.isMarketable sd s.finite o) := by
  unfold BidAsk.fillOrder
  have hloops := fillLevels_lifts sd (mePriceLevelPoolSize + 2) o (reserve sd o.amount o.price) h
  rcases hloops.elim with ⟨e, hr, hq⟩ | ⟨⟨s₁, w⟩, q, hr, hq, rfl, h₁, ho⟩
  · rw [hr, hq]
    exact .error e
  · simp only [hr, hq]
    split
    · have htype : w.1.type = o.type := by rw [ho]
      rw [htype]
      cases ht : o.type with
      | limit =>
        have hfit := hf ht
        refine addSideLimitOrder_lifts h₁ ⟨?_, ?_, hfit.ids, hfit.prices⟩
        · rw [ho]
          exact hfit.id
        · rw [ho]
          exact hfit.price
      | market => exact .ok ⟨rfl, h₁.setFeed _⟩
    · exact .ok ⟨rfl, h₁⟩

theorem executeOrder_lifts (h : Homed ks s) (hf : o.type = .limit → FitsHome ks o.side o) :
    Lifts (Mirrors ks) (BidAsk.executeOrder s o) (BidAsk.executeOrder s.finite o) := by
  rw [BidAsk.executeOrder, BidAsk.executeOrder, executeOrderWith_side, executeOrderWith_side,
    BidAsk.isMarketable_finite]
  split
  · exact fillOrder_lifts h hf
  · next hm =>
    refine addSideLimitOrder_lifts h (hf ?_)
    cases ht : o.type with
    | limit => rfl
    | market => exact absurd (by simp [BidAsk.isMarketable, ht]) hm

theorem cancelOrder_lifts (sd : OrderSide) (o : Order) (h : Homed ks s) :
    Lifts (Mirrors ks) (BidAsk.cancelOrder sd s o) (BidAsk.cancelOrder sd s.finite o) := by
  have hget : KeyMap.getVal s.finite.store.orderMap o.amount.toUInt64 =
      KeyMap.getVal s.store.orderMap o.amount.toUInt64 := rfl
  have hnode : ∀ n, s.finite.store.node n = s.store.node n := fun _ => rfl
  have hfeed : s.finite.toFeed = s.toFeed := rfl
  have hset : ∀ f, s.finite.setFeed f = (s.setFeed f).finite := fun _ => rfl
  simp only [BidAsk.cancelOrder, hget, hnode, hfeed, hset, BidAsk.book_finite]
  cases KeyMap.getVal s.store.orderMap o.amount.toUInt64 with
  | none => exact .ok ⟨rfl, h.setFeed _⟩
  | some n =>
    simp only
    split
    · exact .ok ⟨rfl, h.setFeed _⟩
    · generalize s.toFeed.pushAttempt sd (reserve sd (s.store.node n).order.amount
        (s.store.node n).order.price) (s.store.node n).order .cancel = f
      have h₁ := h.setFeed f
      have hdel := OrderBook.deleteOrder_lifts (x := n) (compareOf sd) h₁.orders (h₁.levels sd)
      have hstore : (s.setFeed f).finite.store = (s.setFeed f).store.finite := rfl
      rcases hdel.elim with ⟨e, hr, hq⟩ | ⟨⟨l, b, st⟩, q, hr, hq, rfl, hst, hb⟩
      · simp only [hr, hstore, hq]
        exact .error e
      · simp only [hr, hstore, hq]
        refine .ok ⟨?_, (h₁.replace hst hb).setFeed _⟩
        cases sd <;> rfl

end

/-! ## Messages -/

section
variable {OM FM : Type}

/-- The ids at rest, as the map of orders has them. -/
def BidAsk.restingIds (s : BidAsk OM FM) : List UInt64 :=
  (s.restingOrders .buy ++ s.restingOrders .sell).map fun r => r.id32.toUInt64

/-- A limit order finds room at home: no more than 16 of the ids at rest and its own share a bucket
of the map of orders, and no more than 16 of the prices of its side and its own share one of the
map of prices. -/
def RoomAtHome (s : BidAsk OM FM) (o : Order) : Prop :=
  o.action = .execute → o.type = .limit →
    Uncrowded meOrderMapSize (o.id32.toUInt64 :: s.restingIds) ∧
      Uncrowded meFastMapSize (o.price :: s.indexPrices o.side).dedup

instance (s : BidAsk OM FM) (o : Order) : Decidable (RoomAtHome s o) := by
  unfold RoomAtHome
  infer_instance

end

section
variable {ks : Keys} {s : FlatBidAsk} {o : Order}

theorem process_lifts (h : Homed ks s)
    (hf : o.action = .execute → o.type = .limit → FitsHome ks o.side o) :
    Lifts (Mirrors ks) (BidAsk.process s o) (BidAsk.process s.finite o) := by
  unfold BidAsk.process
  cases ha : o.action with
  | execute => exact executeOrder_lifts h (hf ha)
  | cancel => cases o.side <;> exact cancelOrder_lifts _ o h

/-- The tables of a state between two messages are in order. -/
structure Tables (s : FlatBidAsk) : Prop where
  orders : ∃ ids, KeysIn ids s.store.orderMap
  levels : ∀ sd, ∃ prices, KeysIn prices (s.book sd).fastMap

/-- The keys of a state and of an order that it meets. -/
def keysWith (s : FlatBidAsk) (o : Order) : Keys where
  ids := o.id32.toUInt64 :: s.restingIds
  prices := fun sd => (o.price :: s.indexPrices sd).dedup

theorem Homed.tables (h : Homed ks s) : Tables s := ⟨⟨_, h.orders⟩, fun sd => ⟨_, h.levels sd⟩⟩

theorem Tables.homed {L : Levels} {b : Book} (h : Tables s) (hv : View s.finite L b) (o : Order) :
    Homed (keysWith s o) s where
  orders := by
    obtain ⟨ids, hk⟩ := h.orders
    refine hk.change (fun k hne => ?_) ?_
    · obtain ⟨n, hn⟩ := Option.ne_none_iff_exists'.1 hne
      obtain ⟨hm, hid⟩ := (hv.rep.ids k n).1 hn
      obtain ⟨sd, hq⟩ := Levels.mem_nodes.1 hm
      have hr : (s.store.node n).order ∈ s.restingOrders sd := by
        have := hv.order_mem hq
        rwa [← hv.restingOrders, BidAsk.restingOrders_finite] at this
      refine List.mem_cons_of_mem _ (List.mem_map.2 ⟨(s.store.node n).order, ?_, hid⟩)
      cases sd with
      | buy => exact List.mem_append_left _ hr
      | sell => exact List.mem_append_right _ hr
    · have hcount := hv.nodes_count .buy
      rw [← hv.restingOrders, BidAsk.restingOrders_finite] at hcount
      have hsize : meOrderNodePoolSize + 1 < totalSize meOrderMapSize := by decide
      simp only [keysWith, BidAsk.restingIds, List.length_cons, List.length_map,
        List.length_append, OrderSide.opp] at hcount ⊢
      omega
  levels := by
    intro sd
    obtain ⟨prices, hk⟩ := h.levels sd
    refine hk.change (fun p hne => ?_) ?_
    · obtain ⟨x, hx⟩ := Option.ne_none_iff_exists'.1 hne
      have hx' : (s.finite.book sd).fastMap p = some x := by
        rw [BidAsk.book_finite]
        exact hx
      obtain ⟨l, hl, hp, -⟩ := (hv.rep.fast sd p x).1 hx'
      refine List.mem_dedup.2 (List.mem_cons_of_mem _ ?_)
      rw [← BidAsk.indexPrices_finite, hv.indexPrices]
      exact List.mem_map.2 ⟨l, hl, hp⟩
    · have hcount := hv.index_count sd
      have hsize : meSkipListNodePoolSize < totalSize meFastMapSize := by decide
      have hlen := (List.dedup_sublist (o.price :: s.indexPrices sd)).length_le
      rw [← BidAsk.indexPrices_finite, hv.indexPrices, List.length_cons, List.length_map] at hlen
      simp only [keysWith]
      rw [← BidAsk.indexPrices_finite, hv.indexPrices]
      omega

theorem fitsHome (h : Uncrowded meOrderMapSize (o.id32.toUInt64 :: s.restingIds) ∧
    Uncrowded meFastMapSize (o.price :: s.indexPrices o.side).dedup) :
    FitsHome (keysWith s o) o.side o :=
  ⟨List.mem_cons_self, List.mem_dedup.2 List.mem_cons_self, h.1, h.2⟩

/-- **One message**: the engine over tables does what the engine over finite maps does. -/
theorem step_lifts {L : Levels} {b : Book} (h : Tables s) (hv : View s.finite L b)
    (hroom : RoomAtHome s o) :
    Lifts (Alike fun s a => a = s.finite ∧ Tables s) (BidAsk.step s o)
      (BidAsk.step s.finite o) := by
  have hset : ∀ f, s.finite.setFeed f = (s.setFeed f).finite := fun _ => rfl
  have hfeed : s.finite.toFeed = s.toFeed := rfl
  unfold BidAsk.step
  rw [hset, hfeed]
  have hproc := process_lifts (o := o)
    ((h.homed hv o).setFeed { s.toFeed with outgoingOrders := [], outgoingBook := [] })
    fun ha ht => fitsHome (hroom ha ht)
  rcases hproc.elim with ⟨e, hr, hq⟩ | ⟨s', a, hr, hq, rfl, h'⟩
  · rw [hr, hq]
    exact .error e
  · rw [hr, hq]
    exact .ok ⟨⟨rfl, h'.tables⟩, rfl⟩

end

/-! ## Runs -/

/-- A state over finite maps that a run over tables mirrors. -/
structure Mirrored (xs : List Order) (s : FlatBidAsk) (a : FiniteBidAsk) : Prop where
  eq : a = s.finite
  tables : Tables s
  view : ∃ L b, View a L b ∧ Known xs b

/-- A step over finite maps that goes through is one over tables. -/
theorem Mirrored.step_of_finite {xs : List Order} {s : FlatBidAsk} {a : FiniteBidAsk} {o : Order}
    {out : BidAsk.Out} (h : Mirrored xs s s.finite) (hroom : RoomAtHome s o)
    (hstep : BidAsk.step s.finite o = .ok (a, out)) :
    ∃ s', BidAsk.step s o = .ok (s', out) ∧ a = s'.finite := by
  obtain ⟨L, b, hview, -⟩ := h.view
  obtain ⟨⟨s', out'⟩, hr, ⟨rfl, -⟩, hout⟩ := (step_lifts h.tables hview hroom).of_ok_right hstep
  obtain rfl : out' = out := hout
  exact ⟨s', hr, rfl⟩

/-- A step over tables that goes through is one over finite maps. -/
theorem Mirrored.step_finite {xs : List Order} {s s' : FlatBidAsk} {o : Order} {out : BidAsk.Out}
    (h : Mirrored xs s s.finite) (hroom : RoomAtHome s o)
    (hstep : BidAsk.step s o = .ok (s', out)) :
    BidAsk.step s.finite o = .ok (s'.finite, out) := by
  obtain ⟨L, b, hview, -⟩ := h.view
  obtain ⟨⟨a, out'⟩, hq, ⟨rfl, -⟩, hout⟩ := (step_lifts h.tables hview hroom).of_ok_left hstep
  obtain rfl : out = out' := hout
  exact hq

theorem Mirrored.executeOrder_of_finite {xs : List Order} {s : FlatBidAsk} {a : FiniteBidAsk}
    {o : Order} (h : Mirrored xs s s.finite) (ha : o.action = .execute) (hroom : RoomAtHome s o)
    (hcode : BidAsk.executeOrder s.finite o = .ok a) :
    ∃ s', BidAsk.executeOrder s o = .ok s' ∧ a = s'.finite := by
  obtain ⟨L, b, hview, -⟩ := h.view
  have hlifts := executeOrder_lifts (h.tables.homed hview o) fun ht => fitsHome (hroom ha ht)
  obtain ⟨s', hr, hmirrors⟩ := hlifts.of_ok_right hcode
  exact ⟨s', hr, hmirrors.1⟩

section
variable (assetId : UInt32) (initialPrice : Int64) (reportSeq bookSeq : UInt32)
  (bidSeed askSeed : UInt64) {msgs : List Order}

theorem new_mirrored :
    Mirrored [] (BidAsk.newFlat assetId initialPrice reportSeq bookSeq bidSeed askSeed)
      (BidAsk.new assetId initialPrice reportSeq bookSeq bidSeed askSeed) where
  eq := by
    have hids : (FlatHashMap.new : FlatHashMap UInt64 Nat meOrderMapSize).finite =
        FiniteMap.empty := (new_good (e := 12)).finite_eq
    have hprices : (FlatHashMap.new : FlatHashMap Int64 Nat meFastMapSize).finite =
        FiniteMap.empty := (new_good (e := 10)).finite_eq
    simp only [BidAsk.new, BidAsk.newFlat, BidAsk.construct, BidAsk.finite, Store.finite,
      OrderBook.finite, OrderBook.new, KeyMap.empty, hids, hprices]
  tables := ⟨⟨[], new_keysIn 12⟩, fun sd => by cases sd <;> exact ⟨[], new_keysIn 10⟩⟩
  view := ⟨_, _, new_view assetId initialPrice reportSeq bookSeq bidSeed askSeed, known_empty⟩

/-- **A run over tables is a run over finite maps**, fault for fault, as long as every order finds
room at home. -/
theorem run_mirrored (hv : Valid msgs)
    (hside : Along NamesSide BidAsk.step
      (BidAsk.newFlat assetId initialPrice reportSeq bookSeq bidSeed askSeed) msgs)
    (hhome : Along RoomAtHome BidAsk.step
      (BidAsk.newFlat assetId initialPrice reportSeq bookSeq bidSeed askSeed) msgs) :
    Lifts (Alike (Mirrored msgs))
      (BidAsk.run (BidAsk.newFlat assetId initialPrice reportSeq bookSeq bidSeed askSeed) msgs)
      (BidAsk.run (BidAsk.new assetId initialPrice reportSeq bookSeq bidSeed askSeed) msgs) := by
  have hpre : Along (fun s o => NamesSide s o ∧ RoomAtHome s o) BidAsk.step
      (BidAsk.newFlat assetId initialPrice reportSeq bookSeq bidSeed askSeed) msgs :=
    fun xs o hx s outs hr => ⟨hside xs o hx s outs hr, hhome xs o hx s outs hr⟩
  refine run_lifts (new_mirrored assetId initialPrice reportSeq bookSeq bidSeed askSeed) hpre ?_
  rintro xs o s _ hx ⟨rfl, htables, L, b, hview, hk⟩ ⟨hs, hroom⟩
  have hs' : NamesSide s.finite o := by
    intro ha
    rw [BidAsk.restingOrders_finite]
    exact hs ha
  rcases (step_lifts htables hview hroom).elim with
    ⟨e, hr, hq⟩ | ⟨⟨s', out⟩, ⟨_, out'⟩, hr, hq, ⟨rfl, htables'⟩, hout⟩
  · rw [hr, hq]
    exact .error e
  · rw [hr, hq]
    exact .ok ⟨⟨rfl, htables', step_view hview hk (hv.restrict hx) hs' hq⟩, hout⟩

section
variable (hv : Valid msgs)
  (hside : Along NamesSide BidAsk.step
    (BidAsk.newFlat assetId initialPrice reportSeq bookSeq bidSeed askSeed) msgs)
  (hhome : Along RoomAtHome BidAsk.step
    (BidAsk.newFlat assetId initialPrice reportSeq bookSeq bidSeed askSeed) msgs)

include hv hside hhome

/-- A condition along the run over tables is one along the run over finite maps. -/
theorem along_finite {P : FlatBidAsk → Order → Prop} {Q : FiniteBidAsk → Order → Prop}
    (h : Along P BidAsk.step
      (BidAsk.newFlat assetId initialPrice reportSeq bookSeq bidSeed askSeed) msgs)
    (himp : ∀ s o, P s o → Q s.finite o) :
    Along Q BidAsk.step (BidAsk.new assetId initialPrice reportSeq bookSeq bidSeed askSeed) msgs :=
  h.of_lifts (fun _ hx => run_mirrored assetId initialPrice reportSeq bookSeq bidSeed askSeed
      (hv.restrict hx) (hside.restrict hx) (hhome.restrict hx))
    fun _ s _ o hm hP => by
      rw [hm.eq]
      exact himp s o hP

theorem namesSide_finite : Along NamesSide BidAsk.step
    (BidAsk.new assetId initialPrice reportSeq bookSeq bidSeed askSeed) msgs :=
  along_finite assetId initialPrice reportSeq bookSeq bidSeed askSeed hv hside hhome hside
    fun s o hs ha => by
      rw [BidAsk.restingOrders_finite]
      exact hs ha

theorem poolsFree_finite (hfree : Along PoolsFree BidAsk.step
      (BidAsk.newFlat assetId initialPrice reportSeq bookSeq bidSeed askSeed) msgs) :
    Along PoolsFree BidAsk.step
      (BidAsk.new assetId initialPrice reportSeq bookSeq bidSeed askSeed) msgs :=
  along_finite assetId initialPrice reportSeq bookSeq bidSeed askSeed hv hside hhome hfree
    fun s _ hf ha => s.hasRoom_finite.2 (hf ha)

theorem run_finite {s : FlatBidAsk} {outs : List BidAsk.Out}
    (hrun : BidAsk.run (BidAsk.newFlat assetId initialPrice reportSeq bookSeq bidSeed askSeed)
      msgs = .ok (s, outs)) :
    BidAsk.run (BidAsk.new assetId initialPrice reportSeq bookSeq bidSeed askSeed) msgs =
        .ok (s.finite, outs) ∧ Mirrored msgs s s.finite := by
  have hruns := run_mirrored assetId initialPrice reportSeq bookSeq bidSeed askSeed hv hside hhome
  obtain ⟨⟨a, outs'⟩, hq, hm, hout⟩ := hruns.of_ok_left hrun
  obtain rfl : a = s.finite := hm.eq
  obtain rfl : outs = outs' := hout
  exact ⟨hq, hm⟩

/-- A run over finite maps that goes through is one over tables. -/
theorem run_of_finite {a : FiniteBidAsk} {outs : List BidAsk.Out}
    (hrun : BidAsk.run (BidAsk.new assetId initialPrice reportSeq bookSeq bidSeed askSeed) msgs =
      .ok (a, outs)) :
    ∃ s, BidAsk.run (BidAsk.newFlat assetId initialPrice reportSeq bookSeq bidSeed askSeed) msgs =
        .ok (s, outs) ∧ a = s.finite ∧ Mirrored msgs s s.finite := by
  have hruns := run_mirrored assetId initialPrice reportSeq bookSeq bidSeed askSeed hv hside hhome
  obtain ⟨⟨s, outs'⟩, hr, hm, hout⟩ := hruns.of_ok_right hrun
  obtain rfl : a = s.finite := hm.eq
  obtain rfl : outs' = outs := hout
  exact ⟨s, hr, rfl, hm⟩

theorem run_error_finite {e : Fault}
    (hrun : BidAsk.run (BidAsk.newFlat assetId initialPrice reportSeq bookSeq bidSeed askSeed)
      msgs = .error e) :
    BidAsk.run (BidAsk.new assetId initialPrice reportSeq bookSeq bidSeed askSeed) msgs =
      .error e :=
  (run_mirrored assetId initialPrice reportSeq bookSeq bidSeed askSeed hv hside hhome).of_error_left
    hrun

end

end

end Naoto.Engine
