import NaotoExchange.Engine.Proof.Book

/-!
# The operations of the book on its memory

One lemma for each thing an operation does to the memory, in terms of the levels it represents:

* `Cells.hold`, `Cells.drop`: a node is taken from the pool and registered; it is given back.
* `Cells.link`, `Cells.unlink`: a node held is linked into a level; a linked node is taken out.
* `Cells.addLevel`, `Cells.dropLevel`: an empty level enters and leaves the hash map.
* `Cells.setAmount`: a match changes the amount of a node and the total of its level.

They do not depend on the skip lists. `Rep.addLimitOrder` and `Rep.deleteOrder` put them together
with what the operations of the skip lists do.
-/

namespace Naoto.Engine

open Linked

/-- A level cut down to the nodes `ns`: gone when none is left. -/
def LevelRep.shrink (l : LevelRep) (ns : List Nat) : List LevelRep :=
  if ns = [] then [] else [{ l with nodes := ns }]

theorem LevelRep.mem_shrink {l m : LevelRep} {ns : List Nat} (h : m ∈ l.shrink ns) :
    m = { l with nodes := ns } := by
  unfold shrink at h
  split at h
  · cases h
  · exact List.mem_singleton.1 h

theorem LevelRep.shrink_length (l : LevelRep) (ns : List Nat) : (l.shrink ns).length ≤ 1 := by
  unfold shrink
  split <;> simp

@[simp] theorem LevelRep.shrink_nodes (l : LevelRep) (ns : List Nat) :
    (l.shrink ns).flatMap (·.nodes) = ns := by
  unfold shrink
  split
  · next h => simp [h]
  · simp

theorem Levels.map_update_nodes {L : Levels} {sd : OrderSide} {l₁ l₂ : List LevelRep} {l : LevelRep}
    {ns : List Nat} (hs : L sd = l₁ ++ l :: l₂) (sd' : OrderSide) :
    (Function.update L sd (l₁ ++ { l with nodes := ns } :: l₂) sd').map
      (fun l => (l.price, l.ptr)) = (L sd').map fun l => (l.price, l.ptr) := by
  rcases OrderSide.eq_or_eq_opp sd sd' with rfl | rfl
  · rw [Function.update_self, hs]
    simp
  · rw [Function.update_of_ne (OrderSide.opp_ne sd)]

namespace Cells

variable {bk : OrderSide → FiniteOrderBook} {st : FiniteStore} {L : Levels} {held : List Nat}
  {sd : OrderSide} {l₁ l₂ : List LevelRep} {l : LevelRep} {x : Nat}

/-- **Taking a node** for the order `o`. -/
theorem hold (h : Cells bk st L []) {o : Order} (h0 : 0 < st.orderNodePool.freeSize)
    (hid : st.orderMap o.id32.toUInt64 = none) :
    ∃ x pool, st.orderNodePool.acquire = (some x, pool) ∧ Cells bk (st.registered pool x o) L [x] ∧
      ((st.registered pool x o).node x).order = o ∧ x ∉ L.nodes ∧
      ∀ y, y ≠ x → (st.registered pool x o).node y = st.node y := by
  obtain ⟨x, pool, hacq, hst, hfree, -, -, howns⟩ :=
    SingleThreadedStoragePool.acquire_owns h.nodePool h0
  have hx : x ∉ L.nodes := fun hm => h.nodePool.not_free hm hfree
  have hself : ((st.registered pool x o).node x).order = o := by
    simp [Store.registered, Store.node, OrderNode.setOrder]
  have hother : ∀ y, y ≠ x → (st.registered pool x o).node y = st.node y := fun y hy => by
    simp only [Store.registered, Store.node]
    rw [SingleThreadedStoragePool.set_storage_of_ne _ _ hy, hst]
  have hne : ∀ y ∈ L.nodes, y ≠ x := fun y hy he => hx (he ▸ hy)
  refine ⟨x, pool, hacq, ?_, hself, hx, hother⟩
  refine ⟨h.fast, fun sd l hl => ?_, h.levelPool, howns.set _ _, fun k y => ?_,
    h.freeLevels⟩
  · refine (h.level sd l hl).congr rfl fun n hn => hother n (hne n ?_)
    exact Levels.mem_nodes.2 ⟨sd, Levels.mem_queue.2 ⟨l, hl, hn⟩⟩
  · show st.orderMap.addNode o.id32.toUInt64 x k = some y ↔ _
    rw [FiniteMap.addNode_of_none hid, List.singleton_append, List.mem_cons]
    by_cases hyx : y = x
    · subst hyx
      have hgid : ((st.registered pool y o).node y).getId = o.id32 := by
        unfold OrderNode.getId
        rw [hself]
      rw [hgid]
      by_cases hk : k = o.id32.toUInt64
      · simp [hk]
      · rw [if_neg hk, h.ids k y]
        simp only [List.nil_append, hx, false_and, true_or, true_and, false_iff]
        exact fun he => hk he.symm
    · rw [hother y hyx]
      by_cases hk : k = o.id32.toUInt64
      · have hno := (h.ids k y).not.1 (by rw [hk, hid]; simp)
        simp only [List.nil_append] at hno
        simp only [hk, if_true, Option.some.injEq, Ne.symm hyx, hyx, false_or, false_iff]
        rwa [← hk]
      · rw [if_neg hk, h.ids k y]
        simp [hyx]

/-- **Giving a node back** that is held: its id is forgotten. -/
theorem drop (h : Cells bk st L [x]) :
    Cells bk (OrderBook.releaseNode (st.forgotten (st.node x).getId) x) L [] := by
  obtain ⟨pool, hrel, hst, -, -, -, howns⟩ := SingleThreadedStoragePool.release_owns h.nodePool
  have hx : x ∉ L.nodes := (List.nodup_cons.1 h.nodePool.nodup).1
  unfold OrderBook.releaseNode Store.forgotten
  rw [hrel]
  have hnode : ∀ y, pool.storage y = st.node y := fun y => by rw [hst]; rfl
  refine ⟨h.fast, fun sd l hl => ?_, h.levelPool, howns, fun k y => ?_, h.freeLevels⟩
  · exact (h.level sd l hl).congr rfl fun n _ => hnode n
  · show st.orderMap.deleteNode _ k = some y ↔ y ∈ L.nodes ∧ (pool.storage y).getId.toUInt64 = k
    rw [FiniteMap.deleteNode_apply, hnode]
    have hids := h.ids k y
    simp only [List.singleton_append, List.mem_cons] at hids
    by_cases hk : k = (st.node x).getId.toUInt64
    · rw [if_pos hk]
      simp only [reduceCtorEq, false_iff, not_and]
      intro hy he
      -- two registered nodes with one id would be one node
      have h1 : st.orderMap k = some y := hids.2 ⟨.inr hy, he⟩
      have h2 : st.orderMap k = some x := (h.ids k x).2 ⟨by simp, hk.symm⟩
      rw [h1, Option.some.injEq] at h2
      exact hx (h2 ▸ hy)
    · rw [if_neg hk, hids]
      constructor
      · rintro ⟨rfl | hy, he⟩
        · exact absurd he.symm hk
        · exact ⟨hy, he⟩
      · rintro ⟨hy, he⟩
        exact ⟨.inr hy, he⟩

theorem ptr_mem (hs : L sd = l₁ ++ l :: l₂) : l.ptr ∈ L.ptrs := by
  rw [(L.ptrs_perm sd).mem_iff, hs]
  simp

/-- **One level is rewritten.** Its cell, its nodes and the nodes held change; of an order only
the amount may. The other levels do not notice. -/
theorem reshape (h : Cells bk st L held) (hs : L sd = l₁ ++ l :: l₂) {ns held' : List Nat}
    {lv : PriceLevel} {pool : OrderNodeMempool} (hprice : lv.price = l.price)
    (hholds : lv.Holds pool.storage ns) (hfree : pool.freeList = st.orderNodePool.freeList)
    (hother : ∀ y, y ∉ held ++ l.nodes → pool.storage y = st.node y)
    (horder : ∀ y, (pool.storage y).order =
      { (st.node y).order with amount := (pool.storage y).order.amount })
    (hheld : ∀ n ∈ held, n ∈ ns → (st.node n).order.side = sd ∧ (st.node n).order.price = l.price)
    (hperm : (held ++ l.nodes).Perm (held' ++ ns)) :
    Cells bk { st with orderNodePool := pool, priceLevelPool := st.priceLevelPool.set l.ptr lv }
      (Function.update L sd (l₁ ++ { l with nodes := ns } :: l₂)) held' := by
  have hptr : (Levels.ptrs (Function.update L sd (l₁ ++ { l with nodes := ns } :: l₂))).Perm
      L.ptrs := by
    refine (Levels.ptrs_update_perm _ _ _).trans (List.Perm.trans ?_ (L.ptrs_perm sd).symm)
    rw [hs]
    simp
  have hnodes : (held' ++ Levels.nodes (Function.update L sd (l₁ ++ { l with nodes := ns } :: l₂))
      ).Perm (held ++ L.nodes) := by
    have h1 := (List.Perm.refl held').append
      (Levels.nodes_update_perm L sd (l₁ ++ { l with nodes := ns } :: l₂))
    have h2 := (List.Perm.refl held).append (L.nodes_perm sd)
    refine h1.trans (List.Perm.trans ?_ h2.symm)
    unfold Levels.queue
    rw [hs]
    rw [List.perm_iff_count] at hperm ⊢
    intro a
    have := hperm a
    simp only [List.flatMap_append, List.flatMap_cons, List.count_append] at this ⊢
    omega
  have hlm : l ∈ L sd := by rw [hs]; simp
  refine ⟨fun sd' p y => ?_, fun sd' m hm => ?_, (h.levelPool.perm hptr.symm).set _ _, ?_,
    fun k y => ?_, fun y hy => ?_⟩
  · rw [h.fast sd' p y]
    have hex : ∀ ls : List LevelRep, (∃ l ∈ ls, l.price = p ∧ l.ptr = y) ↔
        (p, y) ∈ ls.map fun l => (l.price, l.ptr) := fun ls => by simp
    rw [hex, hex, Levels.map_update_nodes hs]
  · rcases Levels.mem_update_cons.1 hm with ⟨rfl, rfl⟩ | hm
    · refine ⟨?_, ?_, fun n hn => ?_⟩
      · simp only [Store.level, SingleThreadedStoragePool.set_storage_self, hprice]
      · simp only [Store.level, SingleThreadedStoragePool.set_storage_self]
        exact hholds
      · show (pool.storage n).order.side = _ ∧ (pool.storage n).order.price = _
        rw [horder n]
        rcases List.mem_append.1 (hperm.mem_iff.2 (List.mem_append_right _ hn)) with hh | hl
        · exact hheld n hh hn
        · exact (h.level _ l hlm).orders n hl
    · obtain ⟨hp, hn⟩ := h.apart hs hm
      have hmL : m ∈ L sd' := by
        rw [← Levels.update_split hs]
        exact Levels.mem_update_cons.2 (.inr hm)
      refine (h.level sd' m hmL).congr ?_ fun n hnm => hother n ?_
      · exact SingleThreadedStoragePool.set_storage_of_ne _ _ hp
      · rw [List.mem_append, not_or]
        exact ⟨h.not_held hmL hnm, hn n hnm⟩
  · unfold SingleThreadedStoragePool.Owns
    show (pool.freeList ++ _).Perm _
    rw [hfree]
    exact (h.nodePool.perm hnodes.symm)
  · show st.orderMap k = some y ↔ _ ∧ (pool.storage y).order.id32.toUInt64 = k
    rw [h.ids k y, hnodes.mem_iff, horder y]
    rfl
  · have hne : y ≠ l.ptr := fun he => h.levelPool.not_free (ptr_mem hs) (he ▸ hy)
    rw [← h.freeLevels y hy]
    simp only [Store.level, SingleThreadedStoragePool.set_storage_of_ne _ _ hne]

theorem level_length_le (h : Cells bk st L held) (hl : l ∈ L sd) :
    l.nodes.length ≤ meOrderNodePoolSize := by
  have h1 := h.nodePool.length_le
  have h2 : l.nodes.length ≤ (L.queue sd).length := by
    unfold Levels.queue
    rw [List.flatMap_def]
    exact (List.sublist_flatten_of_mem (List.mem_map_of_mem hl)).length_le
  have h3 := (L.nodes_perm sd).length_eq
  rw [List.length_append] at h1 h3
  omega

theorem level_nodup (h : Cells bk st L held) (hl : l ∈ L sd) : l.nodes.Nodup := by
  have h1 := (List.nodup_append.1 (List.nodup_append.1 (h.nodup sd)).2.1).1
  unfold Levels.queue at h1
  rw [List.flatMap_def] at h1
  exact h1.sublist (List.sublist_flatten_of_mem (List.mem_map_of_mem hl))

/-- **Linking** the node held into a level of its side and price. -/
theorem link (h : Cells bk st L [x]) (hs : L sd = l₁ ++ l :: l₂)
    (hx : (st.node x).order.side = sd ∧ (st.node x).order.price = l.price) :
    ∃ lv pool, (st.level l.ptr).addOrder st.orderNodePool x = .ok (lv, pool) ∧
      Cells bk { st with orderNodePool := pool, priceLevelPool := st.priceLevelPool.set l.ptr lv }
        (Function.update L sd (l₁ ++ { l with nodes := l.nodes ++ [x] } :: l₂)) [] ∧
      lv.price = l.price ∧ ∀ y, (pool.storage y).order = (st.node y).order := by
  have hlm : l ∈ L sd := by rw [hs]; simp
  have hok := h.level sd l hlm
  have hxl : x ∉ l.nodes := fun hm => h.not_held hlm hm (by simp)
  obtain ⟨lv, pool, hadd, hholds, hprice, hrel⟩ :=
    PriceLevel.addOrder_holds hok.holds (h.level_nodup hlm) hxl
      (Nat.lt_of_le_of_lt (h.level_length_le hlm) (by decide))
  have hprice' := hprice.trans hok.price
  refine ⟨lv, pool, hadd, ?_, hprice', hrel.order⟩
  refine h.reshape hs hprice' hholds hrel.freeList hrel.other (fun y => ?_) (fun n hn _ => ?_) ?_
  · rw [hrel.order y]
    rfl
  · rw [List.mem_singleton.1 hn]
    exact hx
  · exact List.perm_append_comm

/-- **Unlinking** a node: it is held then. -/
theorem unlink (h : Cells bk st L []) (hs : L sd = l₁ ++ l :: l₂) {n₁ n₂ : List Nat}
    (hn : l.nodes = n₁ ++ x :: n₂) :
    ∃ lv pool, (st.level l.ptr).deleteOrder st.orderNodePool x =
        (decide (n₁ ++ n₂ = []), lv, pool) ∧
      Cells bk { st with orderNodePool := pool, priceLevelPool := st.priceLevelPool.set l.ptr lv }
        (Function.update L sd (l₁ ++ { l with nodes := n₁ ++ n₂ } :: l₂)) [x] ∧
      lv.price = l.price ∧ ∀ y, (pool.storage y).order = (st.node y).order := by
  have hlm : l ∈ L sd := by rw [hs]; simp
  have hok := h.level sd l hlm
  have hholds := hok.holds
  have hnd := h.level_nodup hlm
  rw [hn] at hholds hnd
  obtain ⟨lv, pool, hdel, hholds', hprice, hrel⟩ := PriceLevel.deleteOrder_holds hholds hnd
  have hprice' := hprice.trans hok.price
  refine ⟨lv, pool, hdel, ?_, hprice', hrel.order⟩
  refine h.reshape hs hprice' hholds' hrel.freeList (fun y hy => hrel.other y fun hm => ?_)
    (fun y => ?_) (by simp) ?_
  · apply hy
    rw [List.nil_append, hn]
    rcases List.mem_append.1 hm with hm | hm
    · exact List.mem_append_left _ hm
    · exact List.mem_append_right _ (List.mem_cons_of_mem _ hm)
  · rw [hrel.order y]
    rfl
  · rw [List.nil_append, hn]
    exact List.perm_middle

/-- No level of the side has a price the comparator separates from all of them. -/
theorem fast_none (h : Cells bk st L held) (hs : L sd = l₁ ++ l₂) {key : Int64}
    (h1 : ∀ m ∈ l₁, (compareOf sd).comp m.price key = true)
    (h2 : ∀ m ∈ l₂, (compareOf sd).comp key m.price = true) : (bk sd).fastMap key = none := by
  rw [Option.eq_none_iff_forall_ne_some]
  intro y hy
  obtain ⟨m, hm, hp, -⟩ := (h.fast sd key y).1 hy
  rw [hs, List.mem_append] at hm
  rcases hm with hm | hm
  · exact Compare.comp_ne (h1 m hm) hp
  · exact Compare.comp_ne (h2 m hm) hp.symm

theorem forall_update_sides {P : OrderSide → FiniteOrderBook → List LevelRep → Prop}
    {b : FiniteOrderBook} {ls : List LevelRep}
    (hsd : P sd b ls) (hopp : P sd.opp (bk sd.opp) (L sd.opp)) (sd' : OrderSide) :
    P sd' (Function.update bk sd b sd') (Function.update L sd ls sd') := by
  rcases OrderSide.eq_or_eq_opp sd sd' with rfl | rfl
  · rw [Function.update_self, Function.update_self]
    exact hsd
  · rw [Function.update_of_ne (OrderSide.opp_ne sd), Function.update_of_ne (OrderSide.opp_ne sd)]
    exact hopp

theorem exists_mem_split {P : LevelRep → Prop} :
    (∃ m ∈ l₁ ++ l :: l₂, P m) ↔ P l ∨ ∃ m ∈ l₁ ++ l₂, P m := by
  simp [List.perm_middle.mem_iff]

/-- **A new level**, still empty, for a price the side does not have. Whether it comes about is up
to the skip list. -/
theorem addLevel (h : Cells bk st L held) (hs : L sd = l₁ ++ l₂) {key : Int64}
    (hnone : (bk sd).fastMap key = none) (hlv : 0 < st.priceLevelPool.freeSize) :
    ∃ ptr pool, OrderBook.addPriceLevel (compareOf sd) (bk sd) st key =
        ((bk sd).bestPricesMap.addNode (compareOf sd) key ptr).map (fun sl =>
          (ptr, ⟨(bk sd).fastMap.addNode key ptr, sl⟩, { st with priceLevelPool := pool })) ∧
      ∀ sl, Cells (Function.update bk sd ⟨(bk sd).fastMap.addNode key ptr, sl⟩)
        { st with priceLevelPool := pool } (Function.update L sd (l₁ ++ ⟨key, ptr, []⟩ :: l₂))
          held := by
  obtain ⟨ptr, pool, hacq, hst, hfree, hsub, -, howns⟩ :=
    SingleThreadedStoragePool.acquire_owns h.levelPool hlv
  have hnew : ptr ∉ L.ptrs := fun hm => h.levelPool.not_free hm hfree
  have hhead : (pool.storage ptr).head = none := by
    rw [hst]
    exact h.freeLevels ptr hfree
  have hptrne : ∀ sd', ∀ m ∈ L sd', m.ptr ≠ ptr := fun sd' m hm he => by
    apply hnew
    rw [(L.ptrs_perm sd').mem_iff, ← he]
    exact List.mem_append_left _ (List.mem_map_of_mem hm)
  obtain ⟨lv, hlvdef⟩ : ∃ lv : PriceLevel, lv = ⟨key, 0, 0, none, none⟩ := ⟨_, rfl⟩
  have hnodes : (held ++ Levels.nodes (Function.update L sd (l₁ ++ ⟨key, ptr, []⟩ :: l₂))).Perm
      (held ++ L.nodes) := by
    refine (List.Perm.refl held).append ?_
    refine (Levels.nodes_update_perm _ _ _).trans (List.Perm.trans ?_ (L.nodes_perm sd).symm)
    unfold Levels.queue
    rw [hs]
    simp
  refine ⟨ptr, pool.set ptr lv, ?_, fun sl => ?_⟩
  · simp only [OrderBook.addPriceLevel, hacq, PriceLevel.clearPriceLevel_empty hhead, hlvdef]
    cases (bk sd).bestPricesMap.addNode (compareOf sd) key ptr <;> rfl
  refine ⟨fun sd' p y => ?_, fun sd' m hm => ?_, ?_, h.nodePool.perm hnodes.symm, fun k y => ?_,
    fun y hy => ?_⟩
  · refine forall_update_sides (P := fun _ b ls => Rep.Finds b ls p y) ?_ (h.fast _ p y) sd'
    have hf := h.fast sd p y
    rw [hs] at hf
    show (bk sd).fastMap.addNode key ptr p = some y ↔ _
    rw [exists_mem_split, FiniteMap.addNode_of_none hnone]
    by_cases hp : p = key
    · have hno : ¬∃ m ∈ l₁ ++ l₂, m.price = p ∧ m.ptr = y := by
        rw [← hf, hp, hnone]
        exact Option.some_ne_none y ∘ Eq.symm
      rw [if_pos hp, or_iff_left hno, Option.some.injEq]
      exact (and_iff_right hp.symm).symm
    · rw [if_neg hp, hf]
      simp [Ne.symm hp]
  · rcases Levels.mem_update_cons.1 hm with ⟨rfl, rfl⟩ | hm
    · refine ⟨?_, ?_, by simp⟩
      · simp only [Store.level, SingleThreadedStoragePool.set_storage_self, hlvdef]
      · simp only [Store.level, SingleThreadedStoragePool.set_storage_self, hlvdef]
        exact PriceLevel.holds_nil _ _
    · rw [← hs, Function.update_eq_self] at hm
      refine (h.level sd' m hm).congr ?_ fun _ _ => rfl
      simp only [Store.level]
      rw [SingleThreadedStoragePool.set_storage_of_ne _ _ (hptrne sd' m hm), hst]
  · refine (howns.perm ?_).set _ _
    refine List.Perm.trans ?_ (Levels.ptrs_update_perm _ _ _).symm
    refine (List.Perm.cons _ (L.ptrs_perm sd)).trans ?_
    rw [hs]
    simp only [List.map_append, List.map_cons, List.append_assoc, List.cons_append]
    exact List.perm_middle.symm
  · show st.orderMap k = some y ↔ _
    rw [h.ids k y, hnodes.mem_iff]
    rfl
  · have hyf : y ∈ pool.freeList := hy
    have hne : y ≠ ptr := fun he => howns.not_free (by simp) (he ▸ hyf)
    simp only [Store.level]
    rw [SingleThreadedStoragePool.set_storage_of_ne _ _ hne, hst]
    exact h.freeLevels y (hsub y hyf)

/-- **An empty level leaves** the hash map and goes back to its pool. -/
theorem dropLevel (h : Cells bk st L held) (hs : L sd = l₁ ++ l :: l₂) (hn : l.nodes = [])
    (sl : PriceLevelSkipList) :
    Cells (Function.update bk sd ⟨(bk sd).fastMap.deleteNode l.price, sl⟩)
      { st with priceLevelPool := (st.priceLevelPool.release l.ptr).2 }
      (Function.update L sd (l₁ ++ l₂)) held := by
  have hlm : l ∈ L sd := by rw [hs]; simp
  have howns : st.priceLevelPool.Owns
      (l.ptr :: ((l₁ ++ l₂).map (·.ptr) ++ (L sd.opp).map (·.ptr))) := by
    refine h.levelPool.perm ((L.ptrs_perm sd).trans ?_)
    rw [hs]
    simp only [List.map_append, List.map_cons, List.append_assoc, List.cons_append]
    exact List.perm_middle
  obtain ⟨pool, hrel, hst, hfree, -, -, howns'⟩ := SingleThreadedStoragePool.release_owns howns
  have hnodes : (held ++ Levels.nodes (Function.update L sd (l₁ ++ l₂))).Perm
      (held ++ L.nodes) := by
    refine (List.Perm.refl held).append ?_
    refine (Levels.nodes_update_perm _ _ _).trans (List.Perm.trans ?_ (L.nodes_perm sd).symm)
    unfold Levels.queue
    rw [hs]
    simp [hn]
  rw [hrel]
  refine ⟨fun sd' p y => ?_, fun sd' m hm => ?_, ?_, h.nodePool.perm hnodes.symm, fun k y => ?_,
    fun y hy => ?_⟩
  · refine forall_update_sides (P := fun _ b ls => Rep.Finds b ls p y) ?_ (h.fast _ p y) sd'
    show (bk sd).fastMap.deleteNode l.price p = some y ↔ _
    rw [FiniteMap.deleteNode_apply]
    by_cases hp : p = l.price
    · rw [if_pos hp]
      simp only [reduceCtorEq, false_iff, not_exists, not_and]
      exact fun m hm he => absurd (he.trans hp) (h.price_ne hs hm)
    · rw [if_neg hp, h.fast sd p y, hs, exists_mem_split]
      simp [Ne.symm hp]
  · have hmL : m ∈ L sd' := by
      rw [← Levels.update_split hs]
      exact Levels.mem_update_cons.2 (.inr hm)
    exact (h.level sd' m hmL).congr (by simp only [Store.level, hst]) fun _ _ => rfl
  · exact howns'.perm (Levels.ptrs_update_perm _ _ _).symm
  · show st.orderMap k = some y ↔ _
    rw [h.ids k y, hnodes.mem_iff]
    rfl
  · simp only [Store.level, hst]
    rcases hfree y hy with rfl | hyf
    · exact (h.level sd l hlm).holds.head_eq_none.2 hn
    · exact h.freeLevels y hyf

theorem getVal_level (h : Cells bk st L held) (hs : L sd = l₁ ++ l :: l₂) :
    (bk sd).fastMap.getVal l.price = some l.ptr :=
  (h.fast sd _ _).2 ⟨l, by rw [hs]; simp, rfl, rfl⟩

theorem of_fastMap {bk' : OrderSide → FiniteOrderBook} (h : Cells bk st L held)
    (hf : ∀ sd, (bk' sd).fastMap = (bk sd).fastMap) : Cells bk' st L held :=
  ⟨fun sd p x => by
    rw [hf]; exact h.fast sd p x, h.level, h.levelPool, h.nodePool, h.ids, h.freeLevels⟩

theorem update_of_fastMap {b : FiniteOrderBook} (h : Cells bk st L held)
    (hf : b.fastMap = (bk sd).fastMap) : Cells (Function.update bk sd b) st L held := by
  refine h.of_fastMap fun sd' => ?_
  by_cases hsd : sd' = sd
  · rw [hsd, Function.update_self, hf]
  · rw [Function.update_of_ne hsd]

/-- **`DeleteOrder`** of a linked node: it leaves its level, and an emptied level leaves the
side, if the skip list can do it. The result is the level, or null when it is gone. -/
theorem deleteOrder (h : Cells bk st L []) (hs : L sd = l₁ ++ l :: l₂) {n₁ n₂ : List Nat}
    (hn : l.nodes = n₁ ++ x :: n₂) :
    ∃ st', (bk sd).deleteOrder (compareOf sd) st x =
        (if n₁ ++ n₂ = [] then ((bk sd).bestPricesMap.deleteNode (compareOf sd) l.price).map
          fun sl =>
          (none, ⟨(bk sd).fastMap.deleteNode l.price, sl⟩, st')
        else .ok (some l.ptr, bk sd, st')) ∧
      (∀ b : FiniteOrderBook, b.fastMap = (if n₁ ++ n₂ = [] then (bk sd).fastMap.deleteNode l.price
          else (bk sd).fastMap) →
        Cells (Function.update bk sd b) st'
          (Function.update L sd (l₁ ++ (l.shrink (n₁ ++ n₂) ++ l₂))) []) ∧
      ∀ y, (st'.node y).order = (st.node y).order := by
  have hlm : l ∈ L sd := by rw [hs]; simp
  have hkey : (st.node x).order.price = l.price :=
    ((h.level sd l hlm).orders x (by rw [hn]; simp)).2
  obtain ⟨lv, pool, hdel, hrep, -, hord⟩ := h.unlink hs hn
  have hid : (pool.storage x).getId = (st.node x).getId := by
    unfold OrderNode.getId
    rw [hord x]
  have hdel' : ((st.forgotten (st.node x).getId).level l.ptr).deleteOrder
      (st.forgotten (st.node x).getId).orderNodePool x = (decide (n₁ ++ n₂ = []), lv, pool) := hdel
  by_cases he : n₁ ++ n₂ = []
  · refine ⟨OrderBook.releaseNode
      (Store.forgotten ⟨pool, ((st.priceLevelPool.set l.ptr lv).release l.ptr).2, st.orderMap⟩
        (pool.storage x).getId) x, ?_, fun b hb => ?_, fun y => ?_⟩
    · simp only [OrderBook.deleteOrder, Store.forget_finite, KeyMap.getVal_finite,
        KeyMap.deleteNode_finite, hkey, h.getVal_level hs, hdel', he, decide_true, if_true, hid]
      cases (bk sd).bestPricesMap.deleteNode (compareOf sd) l.price <;> rfl
    · have hrep' := hrep.dropLevel (Function.update_self ..) he b.bestPricesMap
      rw [Function.update_idem] at hrep'
      have hb' : b = ⟨(bk sd).fastMap.deleteNode l.price, b.bestPricesMap⟩ := by
        rw [if_pos he] at hb
        rw [← hb]
      rw [LevelRep.shrink, if_pos he, List.nil_append, hb']
      exact hrep'.drop
    · simp only [Store.node, OrderBook.releaseNode, Store.forgotten,
        SingleThreadedStoragePool.release_storage]
      exact hord y
  · refine ⟨OrderBook.releaseNode
      (Store.forgotten ⟨pool, st.priceLevelPool.set l.ptr lv, st.orderMap⟩
        (pool.storage x).getId) x, ?_, fun b hb => ?_, fun y => ?_⟩
    · simp only [OrderBook.deleteOrder, Store.forget_finite, KeyMap.getVal_finite, hkey,
        h.getVal_level hs, hdel', he, decide_false, Bool.false_eq_true, if_false, hid]
      rfl
    · rw [LevelRep.shrink, if_neg he]
      rw [if_neg he] at hb
      exact hrep.drop.update_of_fastMap hb
    · simp only [Store.node, OrderBook.releaseNode, Store.forgotten,
        SingleThreadedStoragePool.release_storage]
      exact hord y

/-- **A match** takes `t` from the amount of a linked node and from its level's total. The total
loses it modulo `2 ^ 32` only. -/
theorem setAmount (h : Cells bk st L []) (hs : L sd = l₁ ++ l :: l₂) (hx : x ∈ l.nodes)
    (t : UInt32) :
    Cells bk ((st.setNode x ((st.node x).setAmount ((st.node x).order.amount - t))).setLevel l.ptr
      ((st.level l.ptr).incTotalAmount (-t).toUInt64)) L [] := by
  have hlm : l ∈ L sd := by rw [hs]; simp
  have hok := h.level sd l hlm
  obtain ⟨n, hn⟩ : ∃ n, n = (st.node x).setAmount ((st.node x).order.amount - t) := ⟨_, rfl⟩
  have hother : ∀ y, y ≠ x → (st.orderNodePool.set x n).storage y = st.node y := fun y hy =>
    SingleThreadedStoragePool.set_storage_of_ne _ _ hy
  have hholds : ((st.level l.ptr).incTotalAmount (-t).toUInt64).Holds
      (st.orderNodePool.set x n).storage l.nodes := by
    rw [hn]
    exact hok.holds.setAmount (h.level_nodup hlm) hx t
  have horder : ∀ y, ((st.orderNodePool.set x n).storage y).order =
      { (st.node y).order with amount := ((st.orderNodePool.set x n).storage y).order.amount } := by
    intro y
    by_cases hy : y = x
    · rw [hy, SingleThreadedStoragePool.set_storage_self, hn]
      rfl
    · rw [hother y hy]
  have hframe : ∀ y, y ∉ [] ++ l.nodes → (st.orderNodePool.set x n).storage y = st.node y :=
    fun y hy =>
    hother y fun he => hy (by simpa [he] using hx)
  have hprice : ((st.level l.ptr).incTotalAmount (-t).toUInt64).price = l.price := hok.price
  have hres := h.reshape hs hprice hholds rfl hframe horder (by simp) (List.Perm.refl _)
  rw [Levels.update_split hs, hn] at hres
  exact hres

end Cells

namespace Rep

variable {bk : OrderSide → FiniteOrderBook} {st : FiniteStore} {L : Levels} {held : List Nat}
  {sd : OrderSide} {l₁ l₂ : List LevelRep} {l : LevelRep} {x : Nat}

theorem hold (h : Rep bk st L []) {o : Order} (h0 : 0 < st.orderNodePool.freeSize)
    (hid : st.orderMap o.id32.toUInt64 = none) :
    ∃ x pool, st.orderNodePool.acquire = (some x, pool) ∧ Rep bk (st.registered pool x o) L [x] ∧
      ((st.registered pool x o).node x).order = o ∧ x ∉ L.nodes ∧
      ∀ y, y ≠ x → (st.registered pool x o).node y = st.node y := by
  obtain ⟨x, pool, hacq, hc, hself, hx, hother⟩ := h.cells.hold h0 hid
  exact ⟨x, pool, hacq, of_cells hc h.index, hself, hx, hother⟩

theorem of_update_nodes (h : Rep bk st L held) (hs : L sd = l₁ ++ l :: l₂) {st' : FiniteStore}
    {ns held' : List Nat}
    (hc : Cells bk st' (Function.update L sd (l₁ ++ { l with nodes := ns } :: l₂)) held') :
    Rep bk st' (Function.update L sd (l₁ ++ { l with nodes := ns } :: l₂)) held' := by
  refine of_cells hc fun sd' => ?_
  rw [Indexes, Levels.map_update_nodes hs]
  exact h.index sd'

theorem link (h : Rep bk st L [x]) (hs : L sd = l₁ ++ l :: l₂)
    (hx : (st.node x).order.side = sd ∧ (st.node x).order.price = l.price) :
    ∃ lv pool, (st.level l.ptr).addOrder st.orderNodePool x = .ok (lv, pool) ∧
      Rep bk { st with orderNodePool := pool, priceLevelPool := st.priceLevelPool.set l.ptr lv }
        (Function.update L sd (l₁ ++ { l with nodes := l.nodes ++ [x] } :: l₂)) [] ∧
      lv.price = l.price ∧ ∀ y, (pool.storage y).order = (st.node y).order := by
  obtain ⟨lv, pool, hadd, hc, hprice, hord⟩ := h.cells.link hs hx
  exact ⟨lv, pool, hadd, h.of_update_nodes hs hc, hprice, hord⟩

theorem setAmount (h : Rep bk st L []) (hs : L sd = l₁ ++ l :: l₂) (hx : x ∈ l.nodes)
    (t : UInt32) :
    Rep bk ((st.setNode x ((st.node x).setAmount ((st.node x).order.amount - t))).setLevel l.ptr
      ((st.level l.ptr).incTotalAmount (-t).toUInt64)) L [] :=
  of_cells (h.cells.setAmount hs hx t) h.index

/-- **A new level**, still empty, for a price the side does not have. -/
theorem addLevel (h : Rep bk st L held) (hs : L sd = l₁ ++ l₂) {key : Int64}
    (hk : (compareOf sd).Inner key)
    (h1 : ∀ m ∈ l₁, (compareOf sd).comp m.price key = true)
    (h2 : ∀ m ∈ l₂, (compareOf sd).comp key m.price = true)
    (hlv : 0 < st.priceLevelPool.freeSize)
    (hsl : 0 < (bk sd).bestPricesMap.nodesPool.freeSize) :
    ∃ ptr b pool, OrderBook.addPriceLevel (compareOf sd) (bk sd) st key =
        .ok (ptr, b, { st with priceLevelPool := pool }) ∧
      Rep (Function.update bk sd b) { st with priceLevelPool := pool }
        (Function.update L sd (l₁ ++ ⟨key, ptr, []⟩ :: l₂)) held := by
  obtain ⟨ptr, pool, hcode, hc⟩ := h.cells.addLevel hs (h.cells.fast_none hs h1 h2) hlv
  have hidx := h.index sd
  rw [hs, List.map_append] at hidx
  obtain ⟨sl, hadd, hmod⟩ := hidx.addNode ptr hk (by simpa using h1) (by simpa using h2) hsl
  rw [hadd] at hcode
  refine ⟨ptr, _, pool, hcode, of_cells (hc sl) ?_⟩
  refine Cells.forall_update_sides (P := Indexes) ?_ (h.index _)
  rw [Indexes, List.map_append, List.map_cons]
  exact hmod

/-- **`DeleteOrder`** of a linked node: it leaves its level, and an emptied level leaves the
side. The result is the level, or null when it is gone. -/
theorem deleteOrder (h : Rep bk st L []) (hs : L sd = l₁ ++ l :: l₂) {n₁ n₂ : List Nat}
    (hn : l.nodes = n₁ ++ x :: n₂) :
    ∃ b st', (bk sd).deleteOrder (compareOf sd) st x =
        .ok (if n₁ ++ n₂ = [] then none else some l.ptr, b, st') ∧
      Rep (Function.update bk sd b) st'
        (Function.update L sd (l₁ ++ (l.shrink (n₁ ++ n₂) ++ l₂))) [] ∧
      ∀ y, (st'.node y).order = (st.node y).order := by
  obtain ⟨st', hcode, hc, hord⟩ := h.cells.deleteOrder hs hn
  by_cases he : n₁ ++ n₂ = []
  · have hidx := h.index sd
    rw [hs, List.map_append, List.map_cons] at hidx
    obtain ⟨sl, hsl, hmod⟩ := hidx.deleteNode
    rw [if_pos he, hsl] at hcode
    refine ⟨_, st', by rw [hcode, if_pos he]; rfl, of_cells (hc _ (by rw [if_pos he])) ?_, hord⟩
    refine Cells.forall_update_sides (P := Indexes) ?_ (h.index _)
    rw [LevelRep.shrink, if_pos he, List.nil_append, Indexes, List.map_append]
    exact hmod
  · rw [if_neg he] at hcode
    have hc' := hc (bk sd) (by rw [if_neg he])
    have hshrink : l.shrink (n₁ ++ n₂) = [{ l with nodes := n₁ ++ n₂ }] := by
      rw [LevelRep.shrink, if_neg he]
    rw [hshrink, Function.update_eq_self] at hc'
    refine ⟨bk sd, st', by rw [hcode, if_neg he], ?_, hord⟩
    rw [hshrink, Function.update_eq_self]
    exact h.of_update_nodes hs hc'

/-- There is memory for a level at the price `key`, or one exists. -/
def LevelRoom (bk : OrderSide → FiniteOrderBook) (st : FiniteStore) (sd : OrderSide) (key : Int64) :
    Prop :=
  (bk sd).fastMap key ≠ none ∨
    (0 < st.priceLevelPool.freeSize ∧ 0 < (bk sd).bestPricesMap.nodesPool.freeSize)

/-- The place of a price in a side's queue: behind every order that is not worse. -/
def Placed (sd : OrderSide) (st : FiniteStore) (key : Int64) (x : Nat) (q q' : List Nat) : Prop :=
  ∃ f₁ f₂, q = f₁ ++ f₂ ∧ q' = f₁ ++ x :: f₂ ∧
    (∀ n ∈ f₁, (compareOf sd).comp key (st.node n).order.price = false) ∧
    ∀ n ∈ f₂, (compareOf sd).comp key (st.node n).order.price = true

/-- The nodes of levels that are not behind `key` come before it, those behind it after it. -/
theorem placed (h : Rep bk st L held) (hs : L sd = l₁ ++ l₂) {key : Int64} {q' : List Nat}
    (h1 : ∀ m ∈ l₁, (compareOf sd).comp key m.price = false)
    (h2 : ∀ m ∈ l₂, (compareOf sd).comp key m.price = true)
    (hq : q' = l₁.flatMap (·.nodes) ++ x :: l₂.flatMap (·.nodes)) :
    Placed sd st key x (L.queue sd) q' := by
  have hprice : ∀ m ∈ L sd, ∀ n ∈ m.nodes, (st.node n).order.price = m.price := fun m hm n hn =>
    ((h.level sd m hm).orders n hn).2
  refine ⟨l₁.flatMap (·.nodes), l₂.flatMap (·.nodes), ?_, hq, fun n hn => ?_, fun n hn => ?_⟩
  · unfold Levels.queue
    rw [hs, List.flatMap_append]
  · obtain ⟨m, hm, hmn⟩ := List.mem_flatMap.1 hn
    rw [hprice m (by rw [hs]; exact List.mem_append_left _ hm) n hmn]
    exact h1 m hm
  · obtain ⟨m, hm, hmn⟩ := List.mem_flatMap.1 hn
    rw [hprice m (by rw [hs]; exact List.mem_append_right _ hm) n hmn]
    exact h2 m hm

/-- **`AddLimitOrder`** with memory for the level: the node held is queued behind the orders that
are not worse. -/
theorem addLimitOrder (h : Rep bk st L [x]) (hfull : L.Full) (hside : (st.node x).order.side = sd)
    (hk : (compareOf sd).Inner (st.node x).order.price)
    (hroom : LevelRoom bk st sd (st.node x).order.price) :
    ∃ lv b st' ls, (bk sd).addLimitOrder (compareOf sd) st x = .ok (lv, b, st') ∧
      Rep (Function.update bk sd b) st' (Function.update L sd ls) [] ∧
      Levels.Full (Function.update L sd ls) ∧
      (∃ m ∈ ls, m.ptr = lv ∧ m.price = (st.node x).order.price) ∧
      Placed sd st (st.node x).order.price x (L.queue sd) (ls.flatMap (·.nodes)) ∧
      ∀ y, (st'.node y).order = (st.node y).order := by
  obtain ⟨key, hkey⟩ : ∃ key, (st.node x).order.price = key := ⟨_, rfl⟩
  rw [hkey] at hk hroom ⊢
  have hfull' : ∀ {l₁ l₂ : List LevelRep} {l : LevelRep}, (∀ m ∈ l₁ ++ l₂, m ∈ L sd) →
      Levels.Full (Function.update L sd (l₁ ++ { l with nodes := l.nodes ++ [x] } :: l₂)) := by
    intro l₁ l₂ l hsub sd' m hm
    rcases Levels.mem_update_cons.1 hm with ⟨rfl, rfl⟩ | hm
    · simp
    · rcases OrderSide.eq_or_eq_opp sd sd' with rfl | rfl
      · rw [Function.update_self] at hm
        exact hfull _ m (hsub m hm)
      · rw [Function.update_of_ne (OrderSide.opp_ne sd)] at hm
        exact hfull _ m hm
  rcases split_sorted LevelRep.price key (h.sorted sd)
    with ⟨l₁, l, l₂, hs, hl⟩ | ⟨l₁, l₂, hs, h1, h2⟩
  · -- the price has a level
    obtain ⟨lv, pool, hadd, hrep, -, hord⟩ := h.link hs ⟨hside, hkey.trans hl.symm⟩
    have hsort := h.sorted sd
    rw [hs] at hsort
    obtain ⟨-, hs2, h12⟩ := List.pairwise_append.1 hsort
    have hcode : (bk sd).addLimitOrder (compareOf sd) st x = .ok (l.ptr, bk sd,
        { st with orderNodePool := pool, priceLevelPool := st.priceLevelPool.set l.ptr lv }) := by
      have hget := h.cells.getVal_level hs
      rw [hl] at hget
      simp only [OrderBook.addLimitOrder, KeyMap.getVal_finite, hkey, hget, hadd]
    refine ⟨_, _, _, _, hcode, by rw [Function.update_eq_self]; exact hrep, hfull' ?_, ?_, ?_, hord⟩
    · intro m hm
      rw [hs]
      rcases List.mem_append.1 hm with hm | hm
      · exact List.mem_append_left _ hm
      · exact List.mem_append_right _ (List.mem_cons_of_mem _ hm)
    · exact ⟨{ l with nodes := l.nodes ++ [x] }, by simp, rfl, hl⟩
    · have hs' : L sd = (l₁ ++ [l]) ++ l₂ := by rw [hs]; simp
      refine h.placed hs' (fun m hm => ?_) (fun m hm => ?_) (by simp)
      · rcases List.mem_append.1 hm with hm | hm
        · rw [← hl]
          exact Compare.comp_asymm (h12 m hm l (by simp))
        · rw [List.mem_singleton.1 hm, hl, Compare.comp_irrefl]
      · rw [← hl]
        exact (List.pairwise_cons.1 hs2).1 m hm
  · -- a new level
    have hnone := h.cells.fast_none hs h1 h2
    obtain ⟨hlv, hsl⟩ := hroom.resolve_left (fun hc => hc hnone)
    obtain ⟨ptr, b, lpool, haddl, hrep⟩ := h.addLevel hs hk h1 h2 hlv hsl
    obtain ⟨lv, pool, hadd, hrep', -, hord⟩ :=
      hrep.link (Function.update_self ..) ⟨hside, hkey⟩
    rw [Function.update_idem] at hrep'
    have hcode : (bk sd).addLimitOrder (compareOf sd) st x = .ok (ptr, b,
        { st with orderNodePool := pool, priceLevelPool := lpool.set ptr lv }) := by
      have hget : (bk sd).fastMap.getVal key = none := hnone
      simp only [OrderBook.addLimitOrder, KeyMap.getVal_finite, hkey, hget, haddl, hadd]
    refine ⟨_, _, _, _, hcode, hrep', hfull' ?_, ?_, ?_, hord⟩
    · intro m hm
      rw [hs]
      exact hm
    · exact ⟨⟨key, ptr, [] ++ [x]⟩, by simp, rfl, rfl⟩
    · exact h.placed hs (fun m hm => Compare.comp_asymm (h1 m hm)) h2 (by simp)

/-- `AddLimitOrder` without memory for the level ends the process. -/
theorem addLimitOrder_full (h : Rep bk st L held)
    (hk : (compareOf sd).Inner (st.node x).order.price)
    (hroom : ¬ LevelRoom bk st sd (st.node x).order.price) :
    (bk sd).addLimitOrder (compareOf sd) st x = .error .terminate := by
  obtain ⟨key, hkey⟩ : ∃ key, (st.node x).order.price = key := ⟨_, rfl⟩
  rw [hkey] at hk hroom
  simp only [LevelRoom, not_or, not_not, not_and] at hroom
  obtain ⟨hnone, hno⟩ := hroom
  have hget : (bk sd).fastMap.getVal key = none := hnone
  have hlevel : OrderBook.addPriceLevel (compareOf sd) (bk sd) st key = .error .terminate := by
    rcases Nat.eq_zero_or_pos st.priceLevelPool.freeSize with hz | hlv
    · simp only [OrderBook.addPriceLevel, SingleThreadedStoragePool.acquire_none hz]
    · obtain ⟨ptr, pool, hacq, hst, hfree, -⟩ :=
        SingleThreadedStoragePool.acquire_owns h.levelPool hlv
      have hhead : (pool.storage ptr).head = none := by
        rw [hst]
        exact h.freeLevels ptr hfree
      have hsl : (bk sd).bestPricesMap.nodesPool.freeSize = 0 := by
        have := hno hlv
        omega
      rcases split_sorted LevelRep.price key (h.sorted sd) with
        ⟨l₁, l, l₂, hs, hl⟩ | ⟨l₁, l₂, hs, h1, h2⟩
      · have hsome := h.cells.getVal_level hs
        rw [hl, hget] at hsome
        cases hsome
      · have hidx := h.index sd
        rw [hs, List.map_append] at hidx
        have hadd : (bk sd).bestPricesMap.addNode (compareOf sd) key ptr = .error .terminate :=
          hidx.addNode_full hk (by simpa using h1) (by simpa using h2) hsl
        simp only [OrderBook.addPriceLevel, KeyMap.addNode_finite, hacq,
          PriceLevel.clearPriceLevel_empty hhead, hadd]
  simp only [OrderBook.addLimitOrder, KeyMap.getVal_finite, hkey, hget, hlevel]

end Rep

/-! ## What the cells of the levels contain -/

theorem OrderBook.deleteOrder_level {c : Compare} {b b' : FiniteOrderBook} {st st' : FiniteStore}
    {x lv : Nat} {r : Option Nat} (h : b.deleteOrder c st x = .ok (r, b', st'))
    (hget : b.fastMap.getVal (st.node x).order.price = some lv) :
    (st'.level lv).totalAmount = (st.level lv).totalAmount - (st.node x).order.amount.toUInt64 ∧
      ∀ y, y ≠ lv → st'.level y = st.level y := by
  have htotal := PriceLevel.deleteOrder_total (st.level lv) st.orderNodePool x
  have hcell : ∀ st₁ : FiniteStore, (∀ y, st₁.level y =
      (st.priceLevelPool.set lv ((st.level lv).deleteOrder st.orderNodePool x).2.1).storage y) →
      (st₁.level lv).totalAmount = (st.level lv).totalAmount - (st.node x).order.amount.toUInt64 ∧
        ∀ y, y ≠ lv → st₁.level y = st.level y := by
    intro st₁ h₁
    refine ⟨?_, fun y hy => ?_⟩
    · rw [h₁, SingleThreadedStoragePool.set_storage_self, htotal]
      rfl
    · rw [h₁, SingleThreadedStoragePool.set_storage_of_ne _ _ hy]
      rfl
  simp only [OrderBook.deleteOrder, Store.forget_finite, KeyMap.getVal_finite,
    KeyMap.deleteNode_finite, hget] at h
  split at h
  · split at h
    · cases h
    · cases h
      refine hcell _ fun y => ?_
      simp only [Store.level, OrderBook.releaseNode, SingleThreadedStoragePool.release_storage]
      rfl
  · cases h
    refine hcell _ fun y => ?_
    simp only [Store.level, OrderBook.releaseNode]
    rfl

theorem PriceLevel.releaseNodes_storage : ∀ {fuel : Nat} {n : Option Nat} {p p' : OrderNodeMempool},
    PriceLevel.releaseNodes fuel n p = .ok p' → p'.storage = p.storage
  | _, none, p, p', h => by
    unfold PriceLevel.releaseNodes at h
    cases h
    rfl
  | 0, some _, _, _, h => by cases h
  | fuel + 1, some n, p, p', h => by
    rw [PriceLevel.releaseNodes] at h
    cases hrel : p.release n with
    | mk released p₁ =>
      rw [hrel] at h
      cases released with
      | false => cases h
      | true =>
        have hst := SingleThreadedStoragePool.release_storage p n
        rw [hrel] at hst
        exact (releaseNodes_storage h).trans hst

/-- A new level's cell is empty, and no other cell is written. -/
theorem OrderBook.addPriceLevel_level {c : Compare} {b b' : FiniteOrderBook} {st st' : FiniteStore}
    {key : Int64} {lv : Nat} (h : b.addPriceLevel c st key = .ok (lv, b', st')) :
    b'.fastMap = b.fastMap.addNode key lv ∧ (st'.level lv).totalAmount = 0 ∧
      (∀ y, y ≠ lv → st'.level y = st.level y) ∧ ∀ x, st'.node x = st.node x := by
  simp only [OrderBook.addPriceLevel, KeyMap.addNode_finite] at h
  cases hacq : st.priceLevelPool.acquire with
  | mk cur pool =>
    have hpool : pool.storage = st.priceLevelPool.storage := by
      have := congrArg (fun r => r.2.storage) hacq
      unfold SingleThreadedStoragePool.acquire at this
      split at this <;> exact this.symm
    rw [hacq] at h
    cases cur with
    | none => cases h
    | some cur =>
      simp only [PriceLevel.clearPriceLevel] at h
      cases hrel : PriceLevel.releaseNodes (meOrderNodePoolSize + 1) (pool.storage cur).head
          st.orderNodePool with
      | error e => rw [hrel] at h; cases h
      | ok nodes =>
        rw [hrel] at h
        simp only at h
        cases hadd : b.bestPricesMap.addNode c key cur with
        | error e => rw [hadd] at h; cases h
        | ok sl =>
          rw [hadd] at h
          cases h
          refine ⟨rfl, ?_, fun y hy => ?_, fun x => ?_⟩
          · simp [Store.level]
          · simp only [Store.level]
            rw [SingleThreadedStoragePool.set_storage_of_ne _ _ hy, hpool]
          · simp only [Store.node]
            rw [PriceLevel.releaseNodes_storage hrel]

/-- **What an `AddLimitOrder` that returns did**: `AddOrder` on the level that it found, or on a new
one. -/
theorem OrderBook.addLimitOrder_cases {c : Compare} {b b' : FiniteOrderBook} {st st' : FiniteStore}
    {x lv : Nat} (h : b.addLimitOrder c st x = .ok (lv, b', st')) : ∃ st₁ l nodes,
      (b.fastMap (st.node x).order.price = some lv ∧ b' = b ∧ st₁ = st ∨
        b.fastMap (st.node x).order.price = none ∧
          OrderBook.addPriceLevel c b st (st.node x).order.price = .ok (lv, b', st₁)) ∧
      (st₁.level lv).addOrder st₁.orderNodePool x = .ok (l, nodes) ∧
      st' = { st₁ with orderNodePool := nodes, priceLevelPool := st₁.priceLevelPool.set lv l } := by
  simp only [OrderBook.addLimitOrder, KeyMap.getVal_finite] at h
  cases hget : b.fastMap.getVal (st.node x).order.price with
  | some cur =>
    rw [hget] at h
    simp only at h
    cases hadd : (st.level cur).addOrder st.orderNodePool x with
    | error e => rw [hadd] at h; cases h
    | ok p =>
      rw [hadd] at h
      cases h
      exact ⟨st, p.1, p.2, .inl ⟨hget, rfl, rfl⟩, hadd, rfl⟩
  | none =>
    rw [hget] at h
    simp only at h
    cases hnew : OrderBook.addPriceLevel c b st (st.node x).order.price with
    | error e => rw [hnew] at h; cases h
    | ok q =>
      obtain ⟨cur, b₁, st₁⟩ := q
      rw [hnew] at h
      simp only at h
      cases hadd : (st₁.level cur).addOrder st₁.orderNodePool x with
      | error e => rw [hadd] at h; cases h
      | ok p =>
        rw [hadd] at h
        cases h
        exact ⟨st₁, p.1, p.2, .inr ⟨hget, rfl⟩, hadd, rfl⟩

/-- `AddLimitOrder` writes one level's cell: the order's amount is added to the total of the level
that its price has, or gets. -/
theorem OrderBook.addLimitOrder_level {c : Compare} {b b' : FiniteOrderBook} {st st' : FiniteStore}
    {x lv : Nat} (h : b.addLimitOrder c st x = .ok (lv, b', st')) :
    b'.fastMap = b.fastMap.addNode (st.node x).order.price lv ∧
      (∀ y, y ≠ lv → st'.level y = st.level y) ∧
      (b.fastMap (st.node x).order.price = some lv ∧ (st'.level lv).totalAmount =
          (st.level lv).totalAmount + (st.node x).order.amount.toUInt64 ∨
        b.fastMap (st.node x).order.price = none ∧
          (st'.level lv).totalAmount = (st.node x).order.amount.toUInt64) := by
  obtain ⟨st₁, l, nodes, hfound, hadd, rfl⟩ := OrderBook.addLimitOrder_cases h
  have hcells : ∀ y, y ≠ lv → (st₁.priceLevelPool.set lv l).storage y = st₁.level y := fun y hy =>
    SingleThreadedStoragePool.set_storage_of_ne _ _ hy
  have htotal : ((st₁.priceLevelPool.set lv l).storage lv).totalAmount =
      (st₁.level lv).totalAmount + (st₁.node x).order.amount.toUInt64 := by
    rw [SingleThreadedStoragePool.set_storage_self]
    exact PriceLevel.addOrder_total hadd
  rcases hfound with ⟨hget, rfl, rfl⟩ | ⟨hget, hnew⟩
  · exact ⟨(FiniteMap.addNode_of_some hget).symm, hcells, .inl ⟨hget, htotal⟩⟩
  · obtain ⟨hmap, hzero, hcells₁, hnode⟩ := OrderBook.addPriceLevel_level hnew
    refine ⟨hmap, fun y hy => (hcells y hy).trans (hcells₁ y hy), .inr ⟨hget, ?_⟩⟩
    rw [hnode x, hzero, UInt64.zero_add] at htotal
    exact htotal

/-! ## The sentinels of the price index -/

open SkipList in
theorem OrderBook.addLimitOrder_sentinels {c : Compare} {b b' : FiniteOrderBook}
    {st st' : FiniteStore} {x lv : Nat}
    (h : b.addLimitOrder c st x = .ok (lv, b', st')) :
    SameSentinels b.bestPricesMap b'.bestPricesMap := by
  obtain ⟨st₁, l, nodes, hfound, -, -⟩ := OrderBook.addLimitOrder_cases h
  rcases hfound with ⟨-, rfl, -⟩ | ⟨-, hnew⟩
  · exact .refl _
  · simp only [OrderBook.addPriceLevel, KeyMap.addNode_finite] at hnew
    split at hnew
    · cases hnew
    · split at hnew
      · cases hnew
      · split at hnew
        · cases hnew
        · next hadd =>
          cases hnew
          exact addNode_sentinels hadd

open SkipList in
theorem OrderBook.deleteOrder_sentinels {c : Compare} {b b' : FiniteOrderBook}
    {st st' : FiniteStore} {x : Nat}
    {r : Option Nat} (h : b.deleteOrder c st x = .ok (r, b', st')) :
    SameSentinels b.bestPricesMap b'.bestPricesMap := by
  simp only [OrderBook.deleteOrder, Store.forget_finite, KeyMap.deleteNode_finite] at h
  split at h
  · cases h
    exact .refl _
  · split at h
    · split at h
      · cases h
      · next hdel =>
        cases h
        exact deleteNode_sentinels hdel
    · cases h
      exact .refl _

end Naoto.Engine
