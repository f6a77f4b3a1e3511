import NaotoExchange.Common.TableValues
import NaotoExchange.Engine.ZeroSum

/-!
# Who pays and who is paid

What any run of the engine pushes, whatever the messages are. The links between nodes and the map of
orders only ever lead to nodes that an order has been written to (`Owned`), and so a fill names two
orders that have arrived. Its two reports cancel, and no other report moves a balance (`Settles`).
None of this needs the book to be in order: it also holds after a cancel request for the wrong side,
with exhausted pools and with crowded tables.

`run_settles` is the result for a run.
-/

namespace Naoto.Engine

open FixedWidth Run

section
variable {asset : UInt16} {P R : Party → Prop}

/-! ## Reports that cancel -/

/-- The reports cancel, also without wrapping if no amount is the least one; only orders in `P` move
balances, in the engine's asset and in cash, and the other reports are about orders in `P` or
requests in `R`. -/
structure Settles (asset : UInt16) (P R : Party → Prop) (rs : List OrderStateReport) : Prop where
  zero : ∀ a, (rs.map (confirmedDelta a)).sum = 0
  exact : ∀ a, (∀ r ∈ rs, confirmedDelta a r ≠ Int64.minValue) →
    (rs.map fun r => (confirmedDelta a r).toInt).sum = 0
  owned : ∀ r ∈ rs, (P (reportParty r) ∧ r.boughtAssetId ∈ [0, asset] ∧
    r.soldAssetId ∈ [0, asset]) ∨ (r.boughtDelta = 0 ∧ r.soldDelta = 0)
  told : ∀ r ∈ rs, P (reportParty r) ∨ R (reportParty r)

theorem Settles.nil : Settles asset P R [] :=
  ⟨fun _ => rfl, fun _ _ => rfl, fun _ hr => by (cases hr), fun _ hr => by (cases hr)⟩

theorem Settles.append {rs rs' : List OrderStateReport} (h : Settles asset P R rs)
    (h' : Settles asset P R rs') : Settles asset P R (rs ++ rs') where
  zero a := by rw [List.map_append, List.sum_append, h.zero, h'.zero, add_zero]
  exact a hne := by
    rw [List.forall_mem_append] at hne
    rw [List.map_append, List.sum_append, h.exact a hne.1, h'.exact a hne.2, add_zero]
  owned := List.forall_mem_append.2 ⟨h.owned, h'.owned⟩
  told := List.forall_mem_append.2 ⟨h.told, h'.told⟩

theorem Settles.still {r : OrderStateReport} (hb : r.boughtDelta = 0) (hs : r.soldDelta = 0)
    (hr : P (reportParty r) ∨ R (reportParty r)) : Settles asset P R [r] := by
  have hzero : ∀ a, confirmedDelta a r = 0 := by
    intro a
    rw [confirmedDelta, hb, hs, ite_self, ite_self, add_zero]
  refine ⟨fun a => ?_, fun a _ => ?_, fun r' hr' => ?_, fun r' hr' => ?_⟩
  · rw [List.map_singleton, List.sum_singleton, hzero]
  · rw [List.map_singleton, List.sum_singleton, hzero]
    rfl
  · rw [List.mem_singleton.1 hr']
    exact .inr ⟨hb, hs⟩
  · rw [List.mem_singleton.1 hr']
    exact hr

/-- A report of one side of a trade of `asset` for cash. -/
structure IsLeg (asset : UInt16) (sd : OrderSide) (traded : UInt32) (price : Int64)
    (r : OrderStateReport) : Prop where
  bought : r.boughtDelta = boughtLeg sd traded price
  sold : r.soldDelta = soldLeg sd traded price
  boughtAsset : r.boughtAssetId = boughtAssetOf asset sd
  soldAsset : r.soldAssetId = soldAssetOf asset sd

theorem IsLeg.assets {sd : OrderSide} {traded : UInt32} {price : Int64} {r : OrderStateReport}
    (h : IsLeg asset sd traded price r) : r.boughtAssetId ∈ [0, asset] ∧
    r.soldAssetId ∈ [0, asset] := by
  rw [h.boughtAsset, h.soldAsset]
  cases sd with
  | buy => exact ⟨.tail _ (.head _), .head _⟩
  | sell => exact ⟨.head _, .tail _ (.head _)⟩

theorem IsLeg.cancel {sd : OrderSide} {traded : UInt32} {price : Int64} {x y : OrderStateReport}
    (hx : IsLeg asset sd traded price x) (hy : IsLeg asset sd.opp traded price y) (a : UInt16) :
    confirmedDelta a x = -confirmedDelta a y := by
  unfold confirmedDelta
  rw [hx.bought, hx.sold, hx.boughtAsset, hx.soldAsset, hy.bought, hy.sold, hy.boughtAsset,
    hy.soldAsset]
  cases sd <;> simp only [OrderSide.opp, boughtLeg, soldLeg, boughtAssetOf, soldAssetOf] <;>
    by_cases ha : asset = a <;> by_cases h0 : 0 = a <;> simp only [ha, h0, if_true, if_false] <;>
      grind

theorem Settles.trade {sd : OrderSide} {traded : UInt32} {price : Int64} {x y : OrderStateReport}
    (hx : IsLeg asset sd traded price x) (hy : IsLeg asset sd.opp traded price y)
    (hxP : P (reportParty x)) (hyP : P (reportParty y)) : Settles asset P R [x, y] where
  zero a := by
    rw [List.map_cons, List.map_singleton, List.sum_cons, List.sum_singleton, hx.cancel hy,
      neg_add_cancel]
  exact a hne := by
    have hy' : confirmedDelta a y ≠ Int64.minValue := hne y (.tail _ (.head _))
    rw [List.map_cons, List.map_singleton, List.sum_cons, List.sum_singleton, hx.cancel hy,
      toInt_neg_of_ne hy', neg_add_cancel]
  owned r hr := by
    obtain rfl | hr := List.mem_cons.1 hr
    · exact .inl ⟨hxP, hx.assets⟩
    · rw [List.mem_singleton.1 hr]
      exact .inl ⟨hyP, hy.assets⟩
  told r hr := by
    obtain rfl | hr := List.mem_cons.1 hr
    · exact .inl hxP
    · rw [List.mem_singleton.1 hr]
      exact .inl hyP

theorem Settles.mono {P' R' : Party → Prop} {rs : List OrderStateReport} (h : Settles asset P R rs)
    (hP : ∀ q, P q → P' q) (hR : ∀ q, R q → R' q) : Settles asset P' R' rs :=
  ⟨h.zero, h.exact, fun r hr => (h.owned r hr).imp (And.imp_left (hP _)) id,
    fun r hr => (h.told r hr).imp (hP _) (hR _)⟩

/-- The stream of reports of the engine of `asset` settles. -/
structure Feed.Settled (asset : UInt16) (P R : Party → Prop) (f : Feed) : Prop where
  own : f.marketAssetId.toUInt16 = asset
  reports : Settles asset P R f.outgoingOrders

section
variable {f : Feed}

theorem Feed.Settled.pushUpdate (h : f.Settled asset P R) (total : UInt64) (price : Int64)
    (sd : OrderSide) : (f.pushUpdate total price sd).Settled asset P R := ⟨h.own, h.reports⟩

theorem Feed.Settled.pushAttempt (h : f.Settled asset P R) (sd : OrderSide) (attempt : Int64)
    {o : Order} (ho : P (orderParty o)) (state : OrderState) :
    (f.pushAttempt sd attempt o state).Settled asset P R :=
  ⟨h.own, h.reports.append (.still rfl rfl (.inl ho))⟩

theorem Feed.Settled.pushReject (h : f.Settled asset P R) {o : Order} (ho : R (orderParty o)) :
    (f.pushReject o).Settled asset P R :=
  ⟨h.own, h.reports.append (.still rfl rfl (.inr ho))⟩

theorem Feed.Settled.pushFills (h : f.Settled asset P R) (sd : OrderSide) (traded : UInt32)
    (price : Int64) {o offer : Order} (ho : P (orderParty o)) (hoffer : P (orderParty offer))
    (left left' : UInt32) :
    ((f.pushFill sd traded price o left).pushFill sd.opp traded price offer left').Settled asset
      P R := by
  have hbought : ∀ sd, f.boughtAsset sd = boughtAssetOf asset sd := by
    intro sd
    cases sd with
    | buy => exact h.own
    | sell => rfl
  have hsold : ∀ sd, f.soldAsset sd = soldAssetOf asset sd := by
    intro sd
    cases sd with
    | buy => rfl
    | sell => exact h.own
  have hleg : ∀ sd {r}, r.boughtDelta = boughtLeg sd traded price →
      r.soldDelta = soldLeg sd traded price → r.boughtAssetId = f.boughtAsset sd →
      r.soldAssetId = f.soldAsset sd → IsLeg asset sd traded price r := by
    intro sd r hb hs hba hsa
    exact ⟨hb, hs, hba.trans (hbought sd), hsa.trans (hsold sd)⟩
  refine ⟨h.own, ?_⟩
  show Settles asset P R (f.outgoingOrders ++ [_] ++ [_])
  rw [List.append_assoc]
  exact h.reports.append (.trade (hleg sd rfl rfl rfl rfl) (hleg sd.opp rfl rfl rfl rfl) ho hoffer)

end

/-! ## Links -/

/-- A link that leads to a node of an order in `P`, or nowhere. -/
def Leads (P : Party → Prop) (p : OrderNodeMempool) (x : Option Nat) : Prop :=
  ∀ n ∈ x, P (orderParty (p.storage n).order)

/-- Nodes of orders in `P` stay so. -/
def Keeps (P : Party → Prop) (p p' : OrderNodeMempool) : Prop :=
  ∀ n, P (orderParty (p.storage n).order) → P (orderParty (p'.storage n).order)

/-- The links between nodes lead to such nodes. -/
def NodesOwned (P : Party → Prop) (p : OrderNodeMempool) : Prop :=
  ∀ n, Leads P p (p.storage n).prev ∧ Leads P p (p.storage n).next

/-- And so do the two ends of a level. -/
def LevelOwned (P : Party → Prop) (p : OrderNodeMempool) (lv : PriceLevel) : Prop :=
  Leads P p lv.head ∧ Leads P p lv.tail

section
variable {p p' : OrderNodeMempool} {lv : PriceLevel} {x : Nat}

theorem leads_none : Leads P p none := fun _ hn => by cases hn

theorem leads_some (h : P (orderParty (p.storage x).order)) : Leads P p (some x) := by
  intro n hn
  cases hn
  exact h

theorem Leads.keep {y : Option Nat} (h : Leads P p y) (hk : Keeps P p p') : Leads P p' y :=
  fun n hn => hk n (h n hn)

theorem LevelOwned.keep (h : LevelOwned P p lv) (hk : Keeps P p p') : LevelOwned P p' lv :=
  ⟨h.1.keep hk, h.2.keep hk⟩

theorem Keeps.trans {p'' : OrderNodeMempool} (h : Keeps P p p') (h' : Keeps P p' p'') :
    Keeps P p p'' :=
  fun n hn => h' n (h n hn)

theorem Keeps.of_same (h : p'.storage = p.storage) : Keeps P p p' := fun n hn => by rwa [h]

theorem keeps_set {t : OrderNode}
    (ht : P (orderParty (p.storage x).order) → P (orderParty t.order)) : Keeps P p (p.set x t) := by
  intro n hn
  rw [SingleThreadedStoragePool.set_storage]
  split
  · next heq => exact ht (heq ▸ hn)
  · exact hn

theorem NodesOwned.set (h : NodesOwned P p) {t : OrderNode}
    (ht : P (orderParty (p.storage x).order) → P (orderParty t.order)) (hprev : Leads P p t.prev)
    (hnext : Leads P p t.next) : NodesOwned P (p.set x t) := by
  intro n
  rw [SingleThreadedStoragePool.set_storage]
  split
  · exact ⟨hprev.keep (keeps_set ht), hnext.keep (keeps_set ht)⟩
  · exact ⟨(h n).1.keep (keeps_set ht), (h n).2.keep (keeps_set ht)⟩

/-- What an operation of a level leaves. -/
structure Tended (P : Party → Prop) (p : OrderNodeMempool) (lv' : PriceLevel)
    (p' : OrderNodeMempool) : Prop where
  nodes : NodesOwned P p'
  level : LevelOwned P p' lv'
  keeps : Keeps P p p'

theorem addOrder_tended (h : NodesOwned P p) (hlv : LevelOwned P p lv)
    (hx : P (orderParty (p.storage x).order)) {r : PriceLevel × OrderNodeMempool}
    (hr : lv.addOrder p x = .ok r) : Tended P p r.1 r.2 := by
  unfold PriceLevel.addOrder at hr
  split at hr
  · cases hr
    have hkeep : Keeps P p (p.set x { p.storage x with prev := none, next := none }) := keeps_set id
    have hend := (leads_some hx).keep hkeep
    exact ⟨h.set id leads_none leads_none, ⟨hend, hend⟩, hkeep⟩
  · split at hr
    · cases hr
    · next tail htail =>
      cases hr
      have htail' : P (orderParty (p.storage tail).order) := hlv.2 tail htail
      have hfirst : Keeps P p (p.set tail { p.storage tail with next := some x }) := keeps_set id
      have hnodes := h.set (x := tail) (t := { p.storage tail with next := some x }) id (h tail).1
        (leads_some hx)
      generalize p.set tail { p.storage tail with next := some x } = q at hfirst hnodes ⊢
      have hkeep : Keeps P p (q.set x { q.storage x with prev := some tail, next := none }) :=
        hfirst.trans (keeps_set id)
      exact ⟨hnodes.set id ((leads_some htail').keep hfirst) leads_none,
        ⟨hlv.1.keep hkeep, (leads_some hx).keep hkeep⟩, hkeep⟩

theorem joinFront_tended (h : NodesOwned P p) (hlv : LevelOwned P p lv) :
    Tended P p (lv.joinFront p x).1 (lv.joinFront p x).2 := by
  unfold PriceLevel.joinFront
  split
  · next prev _ =>
    have hkeep : Keeps P p (p.set prev { p.storage prev with next := (p.storage x).next }) :=
      keeps_set id
    exact ⟨h.set id (h prev).1 (h x).2, hlv.keep hkeep, hkeep⟩
  · exact ⟨h, ⟨(h x).2, hlv.2⟩, fun _ => id⟩

theorem joinBack_tended (h : NodesOwned P p) (hlv : LevelOwned P p lv) :
    Tended P p (lv.joinBack p x).1 (lv.joinBack p x).2 := by
  unfold PriceLevel.joinBack
  split
  · next next _ =>
    have hkeep : Keeps P p (p.set next { p.storage next with prev := (p.storage x).prev }) :=
      keeps_set id
    exact ⟨h.set id (h x).1 (h next).2, hlv.keep hkeep, hkeep⟩
  · exact ⟨h, ⟨hlv.1, (h x).1⟩, fun _ => id⟩

theorem deleteOrder_tended (h : NodesOwned P p) (hlv : LevelOwned P p lv) :
    Tended P p (lv.deleteOrder p x).2.1 (lv.deleteOrder p x).2.2 := by
  have hcount : LevelOwned P p
      { lv with
        size := lv.size - 1
        totalAmount := lv.totalAmount - (p.storage x).order.amount.toUInt64 } :=
    hlv
  have hfront := joinFront_tended (x := x) h hcount
  have hback := joinBack_tended (x := x) hfront.nodes hfront.level
  exact ⟨hback.nodes, hback.level, hfront.keeps.trans hback.keeps⟩

end

/-! ## The store -/

/-- All links of the store lead to nodes of orders in `P`, and so does the map of orders. -/
structure Store.Owned (P : Party → Prop) (st : FlatStore) : Prop where
  nodes : NodesOwned P st.orderNodePool
  levels : ∀ x, LevelOwned P st.orderNodePool (st.level x)
  orders : st.orderMap.ValuesIn fun n => P (orderParty (st.node n).order)

section
variable {st st' : FlatStore} {b b' : FlatOrderBook} {x : Nat}

/-- Only what the nodes, the levels and the map hold matters. -/
theorem Store.Owned.congr (h : st.Owned P)
    (hn : st'.orderNodePool.storage = st.orderNodePool.storage)
    (hl : st'.priceLevelPool.storage = st.priceLevelPool.storage)
    (ho : st'.orderMap = st.orderMap) : st'.Owned P := by
  constructor
  · intro n
    unfold Leads
    rw [hn]
    exact h.nodes n
  · intro y
    unfold LevelOwned Leads Store.level
    rw [hn, hl]
    exact h.levels y
  · unfold Store.node
    rw [hn, ho]
    exact h.orders

theorem Store.Owned.setLevel (h : st.Owned P) {lv : PriceLevel} {p : OrderNodeMempool}
    (ht : Tended P st.orderNodePool lv p) (y : Nat) :
    Store.Owned P { st with orderNodePool := p, priceLevelPool := st.priceLevelPool.set y lv } := by
  refine ⟨ht.nodes, fun z => ?_, h.orders.mono ht.keeps⟩
  unfold Store.level
  dsimp only
  rw [SingleThreadedStoragePool.set_storage]
  split
  · exact ht.level
  · exact (h.levels z).keep ht.keeps

theorem acquire_storage {T : Type} {Size : Nat} (p : SingleThreadedStoragePool T Size) :
    p.acquire.2.storage = p.storage := by
  unfold SingleThreadedStoragePool.acquire
  split <;> rfl

theorem releaseNodes_storage {p' : OrderNodeMempool} : ∀ {fuel : Nat} {y : Option Nat}
    {p : OrderNodeMempool}, PriceLevel.releaseNodes fuel y p = .ok p' → p'.storage = p.storage
  | fuel, none, p, h => by
    rw [PriceLevel.releaseNodes] at h
    cases h
    rfl
  | 0, some _, _, h => by
    rw [PriceLevel.releaseNodes] at h
    cases h
  | fuel + 1, some n, p, h => by
    rw [PriceLevel.releaseNodes] at h
    have hkept := SingleThreadedStoragePool.release_storage p n
    split at h
    · next hrel =>
      rw [hrel] at hkept
      rw [releaseNodes_storage h]
      exact hkept
    · cases h

theorem addPriceLevel_owned {c : Compare} (h : st.Owned P) {key : Int64} {lv : Nat}
    (hr : b.addPriceLevel c st key = .ok (lv, b', st')) :
    st'.Owned P ∧ st'.orderNodePool.storage = st.orderNodePool.storage := by
  unfold OrderBook.addPriceLevel at hr
  split at hr
  · cases hr
  · next cur pool hacq =>
    split at hr
    · cases hr
    · next lv₁ nodes hclear =>
      split at hr
      · cases hr
      · split at hr
        · cases hr
        · cases hr
          unfold PriceLevel.clearPriceLevel at hclear
          split at hclear
          · cases hclear
          · next hrel =>
            cases hclear
            have hnodes := releaseNodes_storage hrel
            have hpool : pool.storage = st.priceLevelPool.storage := by
              rw [← acquire_storage st.priceLevelPool, hacq]
            have hst : Store.Owned P { st with orderNodePool := nodes, priceLevelPool := pool } :=
              h.congr hnodes hpool rfl
            exact ⟨hst.setLevel ⟨hst.nodes, ⟨leads_none, leads_none⟩, fun _ => id⟩ _, hnodes⟩

theorem addLimitOrder_owned {c : Compare} (h : st.Owned P) (hx : P (orderParty (st.node x).order))
    {lv : Nat} (hr : b.addLimitOrder c st x = .ok (lv, b', st')) : st'.Owned P := by
  unfold OrderBook.addLimitOrder at hr
  simp only at hr
  cases hget : KeyMap.getVal b.fastMap (st.node x).order.price with
  | some cur =>
    simp only [hget] at hr
    split at hr
    · cases hr
    · next hadd =>
      cases hr
      exact h.setLevel (addOrder_tended h.nodes (h.levels _) hx hadd) _
  | none =>
    simp only [hget] at hr
    split at hr
    · cases hr
    · next hnew =>
      obtain ⟨h₁, hsame⟩ := addPriceLevel_owned h hnew
      split at hr
      · cases hr
      · next hadd =>
        cases hr
        exact h₁.setLevel (addOrder_tended h₁.nodes (h₁.levels _) (hsame ▸ hx) hadd) _

theorem forget_owned (h : st.Owned P) {id : UInt32} (hr : st.forget id = .ok st') :
    st'.Owned P ∧ st'.orderNodePool.storage = st.orderNodePool.storage := by
  unfold Store.forget at hr
  split at hr
  · cases hr
  · next hdelete =>
    cases hr
    exact ⟨⟨h.nodes, h.levels, h.orders.deleteNode hdelete⟩, rfl⟩

theorem register_owned (h : st.Owned P) {x : Nat} {pool : OrderNodeMempool} {o : Order}
    (hacq : st.orderNodePool.acquire = (some x, pool)) (ho : P (orderParty o))
    (hr : st.register pool x o = .ok st') :
    st'.Owned P ∧ P (orderParty (st'.node x).order) := by
  unfold Store.register at hr
  split at hr
  · cases hr
  · next hadd =>
    cases hr
    have hpool : pool.storage = st.orderNodePool.storage := by
      rw [← acquire_storage st.orderNodePool, hacq]
    have hst : Store.Owned P { st with orderNodePool := pool } := h.congr hpool rfl rfl
    have hkeep : Keeps P pool (pool.set x ((pool.storage x).setOrder o)) := keeps_set fun _ => ho
    have hself : P (orderParty ((pool.set x ((pool.storage x).setOrder o)).storage x).order) := by
      rw [SingleThreadedStoragePool.set_storage_self]
      exact ho
    exact ⟨⟨hst.nodes.set (fun _ => ho) (hst.nodes x).1 (hst.nodes x).2,
      fun y => (hst.levels y).keep hkeep, (hst.orders.mono hkeep).addNode hself hadd⟩, hself⟩

theorem deleteOrder_owned {c : Compare} (h : st.Owned P) {lv : Option Nat}
    (hr : b.deleteOrder c st x = .ok (lv, b', st')) :
    st'.Owned P ∧ Keeps P st.orderNodePool st'.orderNodePool := by
  have hrelease : ∀ {st : FlatStore}, st.Owned P → (OrderBook.releaseNode st x).Owned P ∧
      (OrderBook.releaseNode st x).orderNodePool.storage = st.orderNodePool.storage := by
    intro st hst
    have hsame := SingleThreadedStoragePool.release_storage st.orderNodePool x
    exact ⟨hst.congr hsame rfl rfl, hsame⟩
  unfold OrderBook.deleteOrder at hr
  simp only at hr
  split at hr
  · cases hr
  · next st₁ hforget =>
    obtain ⟨h₁, hsame⟩ := forget_owned h hforget
    split at hr
    · cases hr
      obtain ⟨hrel, hsame'⟩ := hrelease h₁
      exact ⟨hrel, .of_same (hsame'.trans hsame)⟩
    · next cur _ =>
      have ht := deleteOrder_tended (x := x) h₁.nodes (h₁.levels cur)
      have h₂ := h₁.setLevel ht cur
      have hkeep := (Keeps.of_same (P := P) hsame).trans ht.keeps
      split at hr
      · split at hr
        · cases hr
        · split at hr
          · cases hr
          · cases hr
            have h₃ : Store.Owned P { st₁ with
                orderNodePool := ((st₁.level cur).deleteOrder st₁.orderNodePool x).2.2
                priceLevelPool := (SingleThreadedStoragePool.release (st₁.priceLevelPool.set cur
                  ((st₁.level cur).deleteOrder st₁.orderNodePool x).2.1) cur).2 } :=
              h₂.congr rfl (SingleThreadedStoragePool.release_storage ..) rfl
            obtain ⟨hrel, hsame'⟩ := hrelease h₃
            exact ⟨hrel, hkeep.trans (.of_same hsame')⟩
      · cases hr
        obtain ⟨hrel, hsame'⟩ := hrelease h₂
        exact ⟨hrel, hkeep.trans (.of_same hsame')⟩

end

/-! ## The engine -/

/-- The stream settles and the links lead to nodes of orders in `P`. -/
structure BidAsk.Owned (asset : UInt16) (P R : Party → Prop) (s : FlatBidAsk) : Prop where
  feed : s.toFeed.Settled asset P R
  store : s.store.Owned P

section
variable {s s' : FlatBidAsk} {o : Order} {sd : OrderSide}

theorem BidAsk.Owned.mono {P' R' : Party → Prop} (h : s.Owned asset P R) (hP : ∀ q, P q → P' q)
    (hR : ∀ q, R q → R' q) : s.Owned asset P' R' := by
  have hleads : ∀ {y}, Leads P s.store.orderNodePool y → Leads P' s.store.orderNodePool y :=
    fun hy n hn => hP _ (hy n hn)
  exact ⟨⟨h.feed.own, h.feed.reports.mono hP hR⟩,
    ⟨fun n => ⟨hleads (h.store.nodes n).1, hleads (h.store.nodes n).2⟩,
      fun y => ⟨hleads (h.store.levels y).1, hleads (h.store.levels y).2⟩,
      h.store.orders.mono fun _ => hP _⟩⟩

theorem BidAsk.Owned.setBook (h : s.Owned asset P R) {st : FlatStore} (hst : st.Owned P)
    (b : FlatOrderBook) (sd : OrderSide) : ((s.setStore st).setBook b sd).Owned asset P R := by
  cases sd <;> exact ⟨h.feed, hst⟩

theorem BidAsk.Owned.setBestPrice (h : s.Owned asset P R) (p : Int64) (sd : OrderSide) :
    (s.setBestPrice p sd).Owned asset P R := by
  cases sd <;> exact ⟨h.feed, h.store⟩

theorem BidAsk.Owned.setFeed (h : s.Owned asset P R) {f : Feed} (hf : f.Settled asset P R) :
    (s.setFeed f).Owned asset P R := ⟨hf, h.store⟩

theorem matchOffer_owned (h : s.Owned asset P R) (ho : P (orderParty o)) {n : Nat}
    (hn : P (orderParty (s.store.node n).order)) (sd : OrderSide) (locked : Int64) (lv : Nat) :
    (s.matchOffer sd o locked lv n).1.Owned asset P R ∧
      Keeps P s.store.orderNodePool (s.matchOffer sd o locked lv n).1.store.orderNodePool := by
  have hkeep : Keeps P s.store.orderNodePool
      (s.matchOffer sd o locked lv n).1.store.orderNodePool := keeps_set id
  have hnodes : NodesOwned P (s.matchOffer sd o locked lv n).1.store.orderNodePool :=
    h.store.nodes.set id (h.store.nodes n).1 (h.store.nodes n).2
  refine ⟨⟨(h.feed.pushFills sd _ _ ho hn _ _).pushUpdate .., ?_⟩, hkeep⟩
  refine h.store.setLevel ⟨hnodes, ?_, hkeep⟩ lv
  exact (h.store.levels lv).keep hkeep

theorem addSideLimitOrder_owned (h : s.Owned asset P R) (ho : P (orderParty o))
    (hr : BidAsk.addSideLimitOrder sd s o = .ok s') : s'.Owned asset P R := by
  unfold BidAsk.addSideLimitOrder at hr
  split at hr
  · cases hr
    exact h
  · next hacq =>
    split at hr
    · cases hr
    · next hreg =>
      obtain ⟨hst, hx⟩ := register_owned h.store hacq ho hreg
      simp only at hr
      split at hr
      · cases hr
      · next hadd =>
        cases hr
        have hst' := addLimitOrder_owned hst hx hadd
        refine ((h.setBook hst' _ sd).setBestPrice (s.improvedPrice o.price sd) sd).setFeed ?_
        cases sd <;> exact (h.feed.pushAttempt _ _ ho _).pushUpdate ..

theorem fillLevel_owned {mk : FlatBidAsk → Order → Bool} {lv : Nat} :
    ∀ {fuel : Nat} {s : FlatBidAsk} {o : Order} {locked : Int64} {n : Option Nat}
      {r : FlatBidAsk × Order × Int64}, s.Owned asset P R → P (orderParty o) →
      Leads P s.store.orderNodePool n → BidAsk.fillLevel mk sd lv fuel s o locked n = .ok r →
      r.1.Owned asset P R ∧ P (orderParty r.2.1)
  | 0, _, _, _, _, _, _, _, _, hr => by
    rw [BidAsk.fillLevel] at hr
    cases hr
  | fuel + 1, _, _, _, none, _, h, ho, _, hr => by
    rw [BidAsk.fillLevel] at hr
    cases hr
    exact ⟨h, ho⟩
  | fuel + 1, s, o, locked, some n, r, h, ho, hn, hr => by
    rw [BidAsk.fillLevel] at hr
    split at hr
    · obtain ⟨h₁, hkeep⟩ := matchOffer_owned h ho (hn n rfl) sd locked lv
      have ho₁ : P (orderParty (s.matchOffer sd o locked lv n).2.1) := ho
      generalize s.matchOffer sd o locked lv n = m at h₁ hkeep ho₁ hr
      simp only at hr
      split at hr
      · split at hr
        · cases hr
        · next b st hdel =>
          obtain ⟨hst, hkeep'⟩ := deleteOrder_owned h₁.store hdel
          have h₂ := h₁.setBook hst b sd.opp
          refine fillLevel_owned h₂ ho₁ ?_ hr
          have hnext := (h₁.store.nodes n).2.keep hkeep'
          cases sd <;> exact hnext
      · exact fillLevel_owned h₁ ho₁ (hn.keep hkeep) hr
    · cases hr
      exact ⟨h, ho⟩

theorem fillLevels_owned {mk : FlatBidAsk → Order → Bool} :
    ∀ {fuel : Nat} {s : FlatBidAsk} {o : Order} {locked : Int64}
      {r : FlatBidAsk × Order × Int64}, s.Owned asset P R → P (orderParty o) →
      BidAsk.fillLevels mk sd fuel s o locked = .ok r → r.1.Owned asset P R ∧ P (orderParty r.2.1)
  | 0, _, _, _, _, _, _, hr => by
    rw [BidAsk.fillLevels] at hr
    cases hr
  | fuel + 1, s, o, locked, r, h, ho, hr => by
    rw [BidAsk.fillLevels] at hr
    split at hr
    · split at hr
      · cases hr
      · cases hr
        exact ⟨h, ho⟩
      · next lv _ =>
        split at hr
        · cases hr
          exact ⟨h, ho⟩
        · next n hhead =>
          have h₁ := h.setBestPrice (s.store.level lv).price sd.opp
          have hn : Leads P (s.setBestPrice (s.store.level lv).price sd.opp).store.orderNodePool
              (some n) := by
            rw [← hhead]
            cases sd <;> exact (h.store.levels lv).1
          simp only at hr
          split at hr
          · split at hr
            · cases hr
            · next hin =>
              obtain ⟨h₂, ho₂⟩ := fillLevel_owned h₁ ho hn hin
              exact fillLevels_owned h₂ ho₂ hr
          · cases hr
            exact ⟨h₁, ho⟩
    · cases hr
      exact ⟨h, ho⟩

theorem fillOrder_owned {mk : FlatBidAsk → Order → Bool} (h : s.Owned asset P R)
    (ho : P (orderParty o)) (hr : BidAsk.fillOrder mk sd s o = .ok s') : s'.Owned asset P R := by
  unfold BidAsk.fillOrder at hr
  split at hr
  · cases hr
  · next hloops =>
    obtain ⟨h₁, ho₁⟩ := fillLevels_owned h ho hloops
    split at hr
    · split at hr
      · exact addSideLimitOrder_owned h₁ ho₁ hr
      · cases hr
        exact h₁.setFeed (h₁.feed.pushAttempt _ _ ho₁ _)
    · cases hr
      exact h₁

theorem executeOrder_owned (h : s.Owned asset P R) (ho : P (orderParty o))
    (hr : BidAsk.executeOrder s o = .ok s') : s'.Owned asset P R := by
  rw [BidAsk.executeOrder, executeOrderWith_side] at hr
  split at hr
  · exact fillOrder_owned h ho hr
  · exact addSideLimitOrder_owned h ho hr

theorem cancelOrder_owned (h : s.Owned asset P R) (ho : R (orderParty o))
    (hr : BidAsk.cancelOrder sd s o = .ok s') : s'.Owned asset P R := by
  unfold BidAsk.cancelOrder at hr
  simp only at hr
  split at hr
  · cases hr
    exact h.setFeed (h.feed.pushReject ho)
  · next n hget =>
    split at hr
    · cases hr
      exact h.setFeed (h.feed.pushReject ho)
    · have hn : P (orderParty (s.store.node n).order) := h.store.orders.getVal hget
      have h₁ := fun attempt => h.setFeed (h.feed.pushAttempt sd attempt hn .cancel)
      split at hr
      · cases hr
      · next b st hdel =>
        cases hr
        obtain ⟨hst, -⟩ := deleteOrder_owned (h₁ _).store hdel
        exact ((h₁ _).setBook hst b sd).setFeed ((h₁ _).feed.pushUpdate ..)

/-- **One message.** -/
theorem step_owned {out : BidAsk.Out} (h : s.Owned asset P R)
    (hexecute : o.action = .execute → P (orderParty o))
    (hcancel : o.action = .cancel → R (orderParty o)) (hr : BidAsk.step s o = .ok (s', out)) :
    s'.Owned asset P R ∧ Settles asset P R out.reports := by
  have h₀ : (s.setFeed { s.toFeed with outgoingOrders := [], outgoingBook := [] }).Owned
    asset P R :=
    h.setFeed ⟨h.feed.own, .nil⟩
  unfold BidAsk.step at hr
  split at hr
  · cases hr
  · next hp =>
    cases hr
    suffices hs : s'.Owned asset P R from ⟨hs, hs.feed.reports⟩
    unfold BidAsk.process at hp
    split at hp
    · next ha => exact executeOrder_owned h₀ (hexecute ha) hp
    · next ha => split at hp <;> exact cancelOrder_owned h₀ (hcancel ha) hp

theorem newFlat_owned {assetId : UInt32} {initialPrice : Int64} {reportSeq bookSeq : UInt32}
    {bidSeed askSeed : UInt64} :
    (BidAsk.newFlat assetId initialPrice reportSeq bookSeq bidSeed askSeed).Owned assetId.toUInt16
      P R :=
  ⟨⟨rfl, .nil⟩, ⟨fun _ => ⟨leads_none, leads_none⟩, fun _ => ⟨leads_none, leads_none⟩,
    FlatHashMap.new_valuesIn 12⟩⟩

end

/-- The client has sent an order to execute. -/
def Traded (msgs : List Order) (c : UInt32) : Prop :=
  ∃ o ∈ msgs, o.action = .execute ∧ o.clientId = c

/-- **What a run pushes settles**, for any messages, as long as the engine is not terminated. -/
theorem run_settles {assetId : UInt32} {initialPrice : Int64} {reportSeq bookSeq : UInt32}
    {bidSeed askSeed : UInt64} {msgs : List Order} {s : FlatBidAsk} {outs : List BidAsk.Out}
    (hrun : BidAsk.run (.newFlat assetId initialPrice reportSeq bookSeq bidSeed askSeed) msgs =
      .ok (s, outs)) :
    Settles assetId.toUInt16 (fun p => Traded msgs p.clientId) (fun _ => True)
      (allReports outs) := by
  have hany : Along (fun _ _ => True) BidAsk.step
      (.newFlat assetId initialPrice reportSeq bookSeq bidSeed askSeed) msgs :=
    fun _ _ _ _ _ _ => trivial
  have hinv := run_invariant (P := fun _ (s : FlatBidAsk) outs =>
      s.Owned assetId.toUInt16 (fun p => Traded msgs p.clientId) (fun _ => True) ∧
      Settles assetId.toUInt16 (fun p => Traded msgs p.clientId) (fun _ => True)
        (allReports outs))
    ⟨newFlat_owned, .nil⟩ hany ?_ hrun
  · exact hinv.2
  · intro xs o s outs s' out hp _ ⟨hs, hsettles⟩ _ hstep
    have ho : o ∈ msgs := hp.subset (List.mem_append_right _ (.head _))
    obtain ⟨hs', hout⟩ :=
      step_owned hs (fun ha => ⟨o, ho, ha, rfl⟩) (fun _ => trivial) hstep
    refine ⟨hs', ?_⟩
    rw [allReports, List.flatMap_append, List.flatMap_singleton]
    exact hsettles.append hout

end

end Naoto.Engine
