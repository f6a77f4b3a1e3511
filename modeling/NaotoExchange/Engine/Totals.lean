import NaotoExchange.Engine.Proof.Reports
import NaotoExchange.Engine.Proof.Tables

/-!
# Level totals

A level's 64-bit total is kept by adding and subtracting amounts, and a match adds the negated
32-bit amount without its sign: it leaves the total `2 ^ 32` too high. `Size` is always right, and
so are the low 32 bits of the total, which is all that the feed shows. The whole total is right
(`BidAsk.ExactAt`) as long as every order uses up the levels that it trades with (`LeavesWhole`).

`Touches` says that an operation changes one level only; with it each operation has to be looked at
for the level it changes, and the matches of a sweep not at all.
-/

namespace Naoto.Engine

open Reference Run

/-! ## Quantities in 64 bits -/

/-- The quantity resting at a price, modulo `2 ^ 64`. -/
def totalAt (price : Int64) (q : List Order) : UInt64 :=
  q.foldr (fun o a => if o.price = price then o.amount.toUInt64 + a else a) 0

section
variable {p : Int64} {o r : Order} {q : List Order}

theorem totalAt_cons (p : Int64) (o : Order) (q : List Order) : totalAt p (o :: q) =
    if o.price = p then o.amount.toUInt64 + totalAt p q else totalAt p q := rfl

theorem totalAt_append (p : Int64) : ∀ q₁ q₂ : List Order,
    totalAt p (q₁ ++ q₂) = totalAt p q₁ + totalAt p q₂
  | [], q₂ => (UInt64.zero_add _).symm
  | o :: q₁, q₂ => by
    rw [List.cons_append, totalAt_cons, totalAt_cons, totalAt_append p q₁ q₂]
    split
    · rw [UInt64.add_assoc]
    · rfl

theorem totalAt_insert (p : Int64) (o : Order) (q₁ q₂ : List Order) :
    totalAt p (q₁ ++ o :: q₂) = totalAt p (o :: (q₁ ++ q₂)) := by
  rw [totalAt_append, totalAt_cons, totalAt_cons, totalAt_append]
  split
  · rw [← UInt64.add_assoc, UInt64.add_comm (totalAt p q₁), UInt64.add_assoc]
  · rfl

theorem totalAt_enqueue (p : Int64) (sd : OrderSide) (o : Order) : ∀ q : List Order,
    totalAt p (enqueue sd o q) = totalAt p (o :: q)
  | [] => rfl
  | r :: q => by
    rw [enqueue]
    split
    · rfl
    · rw [totalAt_cons, totalAt_enqueue p sd o q, ← totalAt_cons]
      exact totalAt_insert p o [r] q

/-- A match with an order at another price does not show. -/
theorem totalAt_afterTrade (h : r.price ≠ p) : totalAt p (afterTrade o r q) = totalAt p
    (r :: q) := by
  rw [totalAt_cons, if_neg h]
  unfold afterTrade
  split
  · rfl
  · rw [totalAt_cons, if_neg (show (less r (traded o r)).price ≠ p from h)]

theorem totalAt_other : ∀ {q : List Order}, (∀ o ∈ q, o.price ≠ p) → totalAt p q = 0
  | [], _ => rfl
  | o :: q, h => by
    rw [totalAt_cons, if_neg (h o (by simp))]
    exact totalAt_other fun o' ho' => h o' (List.mem_cons_of_mem _ ho')

theorem toNat_totalAt : ∀ {q : List Order}, (∀ o ∈ q, o.price = p) →
    (totalAt p q).toNat = (q.map fun o => o.amount.toNat).sum % 2 ^ 64
  | [], _ => rfl
  | o :: q, h => by
    rw [totalAt_cons, if_pos (h o (by simp)), UInt64.toNat_add,
      toNat_totalAt fun o' ho' => h o' (List.mem_cons_of_mem _ ho'), List.map_cons, List.sum_cons,
      Nat.add_mod_mod, UInt32.toNat_toUInt64]

end

theorem toNat_depth (st : Nat → OrderNode) : ∀ ns : List Nat,
    (depth st ns).toNat = (ns.map fun n => (st n).order.amount.toNat).sum % 2 ^ 32
  | [] => rfl
  | n :: ns => by
    rw [depth_cons, UInt32.toNat_add, toNat_depth st ns, Nat.add_mod_mod, List.map_cons,
      List.sum_cons]

/-! ## Exact levels -/

/-- The level that a side has at a price, if it has one, has the exact total. -/
def BidAsk.ExactAt (s : FiniteBidAsk) (sd : OrderSide) (p : Int64) : Prop :=
  ∀ x, (s.book sd).fastMap p = some x → (s.store.level x).totalAmount =
    totalAt p (s.restingOrders sd)

theorem BidAsk.restingOrders_congr {s s' : FiniteBidAsk} (hb : s'.book = s.book)
    (hs : s'.store = s.store) : s'.restingOrders = s.restingOrders := by
  funext sd
  simp only [restingOrders, levels, nodesOf, hb, hs]

theorem BidAsk.ExactAt.congr {s s' : FiniteBidAsk} {sd : OrderSide} {p : Int64} (h : s.ExactAt sd p)
    (hb : s'.book = s.book) (hs : s'.store = s.store) : s'.ExactAt sd p := by
  unfold BidAsk.ExactAt
  rw [hb, hs, restingOrders_congr hb hs]
  exact h

/-- From `s` to `s'` at most the level of one side at one price has changed. -/
structure Touches (s s' : FiniteBidAsk) (sd : OrderSide) (p : Int64) : Prop where
  levels : ∀ sd' p', ¬ (sd' = sd ∧ p' = p) → ∀ x, (s'.book sd').fastMap p' = some x →
    (s.book sd').fastMap p' = some x ∧ s'.store.level x = s.store.level x
  orders : ∀ sd' p', ¬ (sd' = sd ∧ p' = p) →
    totalAt p' (s'.restingOrders sd') = totalAt p' (s.restingOrders sd')

theorem Touches.exact {s s' : FiniteBidAsk} {sd sd' : OrderSide} {p p' : Int64}
    (h : Touches s s' sd p)
    (hne : ¬ (sd' = sd ∧ p' = p)) (he : s.ExactAt sd' p') : s'.ExactAt sd' p' := by
  intro x hx
  obtain ⟨hx', hcell⟩ := h.levels sd' p' hne x hx
  rw [hcell, h.orders sd' p' hne]
  exact he x hx'

section
variable {s s' : FiniteBidAsk} {L L' : Levels} {b : Book} {sd sd' : OrderSide} {p p' : Int64}
  {o : Order}

theorem View.entry_unique (h : View s L b) {x : Nat}
    (hx : (s.book sd).fastMap p = some x) (hx' : (s.book sd').fastMap p' = some x) :
    sd' = sd ∧ p' = p := by
  obtain ⟨l, hl, rfl, rfl⟩ := (h.rep.fast sd p x).1 hx
  obtain ⟨m, hm, rfl, hptr⟩ := (h.rep.fast sd' p' _).1 hx'
  obtain ⟨l₁, l₂, hs⟩ := List.append_of_mem hl
  have hother : m ∉ Function.update L sd (l₁ ++ l₂) sd' := fun hmem =>
    (h.rep.cells.apart hs hmem).1 hptr
  have hm' : m ∈ Function.update L sd (l₁ ++ l :: l₂) sd' := by
    rwa [Levels.update_split hs]
  rcases Levels.mem_update_cons.1 hm' with ⟨hsd, rfl⟩ | hmem
  · exact ⟨hsd, rfl⟩
  · exact absurd hmem hother

theorem totalAt_update (hne : ¬ (sd' = sd ∧ p' = p)) {q : List Order}
    (hq : p' ≠ p → totalAt p' q = totalAt p' (b sd)) :
    totalAt p' (Function.update b sd q sd') = totalAt p' (b sd') := by
  rcases OrderSide.eq_or_eq_opp sd sd' with rfl | rfl
  · rw [Function.update_self]
    exact hq fun hp => hne ⟨rfl, hp⟩
  · rw [Function.update_of_ne (OrderSide.opp_ne _)]

theorem Round.touches {r : Order} {q : List Order} (h : Round sd s L b o r q s' L') :
    Touches s s' sd.opp r.price where
  levels := by
    intro sd' p' hne x hx
    have hx' := h.entries sd' p' x hx
    exact ⟨hx', h.cells x fun he => hne (h.before.entry_unique he hx')⟩
  orders := by
    intro sd' p' hne
    rw [h.after.restingOrders, h.before.restingOrders]
    refine totalAt_update hne fun hp => ?_
    rw [h.queue]
    exact totalAt_afterTrade (Ne.symm hp)

/-- A level that is touched keeps its total exact. -/
structure TouchesExactly (s s' : FiniteBidAsk) (sd : OrderSide) (p : Int64) :
    Prop extends Touches s s' sd p where
  keeps : s.ExactAt sd p → s'.ExactAt sd p

theorem TouchesExactly.exact (h : TouchesExactly s s' sd p) (he : s.ExactAt sd' p') :
    s'.ExactAt sd' p' := by
  by_cases hp : sd' = sd ∧ p' = p
  · obtain ⟨rfl, rfl⟩ := hp
    exact h.keeps he
  · exact h.toTouches.exact hp he

/-- Resting an order touches the level at its price, and keeps it exact. -/
theorem addSideLimitOrder_touches (h : View s L b) (h' : View s' L' (rest b o).1)
    (hcode : BidAsk.addSideLimitOrder o.side s o = .ok s') (hne : s' ≠ s) :
    TouchesExactly s s' o.side o.price := by
  have hown : s'.restingOrders o.side = enqueue o.side o (s.restingOrders o.side) := by
    rw [h'.restingOrders, h.restingOrders]
    exact Function.update_self ..
  simp only [BidAsk.addSideLimitOrder, Store.register_finite] at hcode
  split at hcode
  · cases hcode
    exact absurd rfl hne
  next x pool _ =>
  cases hadd : (s.book o.side).addLimitOrder (compareOf o.side) (s.store.registered pool x o) x with
  | error e => rw [hadd] at hcode; cases hcode
  | ok res =>
    obtain ⟨lv, bk, st'⟩ := res
    rw [hadd] at hcode
    simp only [Except.ok.injEq] at hcode
    obtain ⟨hmap, hcells, htotal⟩ := OrderBook.addLimitOrder_level hadd
    have hself : ((s.store.registered pool x o).node x).order = o := by
      simp [Store.registered, Store.node, OrderNode.setOrder]
    rw [hself] at hmap htotal
    have hstore : s'.store = st' := by rw [← hcode]; simp
    have hbook : s'.book = Function.update s.book o.side bk := by rw [← hcode]; simp
    have hlv : (s'.book o.side).fastMap o.price = some lv := by
      rw [hbook, Function.update_self, hmap]
      rcases htotal with ⟨hget, -⟩ | ⟨hget, -⟩
      · rw [FiniteMap.addNode_of_some hget, hget]
      · rw [FiniteMap.addNode_of_none hget, if_pos rfl]
    refine ⟨⟨fun sd' p' hne x hx => ?_, fun sd' p' hne => ?_⟩, fun he x hx => ?_⟩
    · refine ⟨?_, ?_⟩
      · rw [hbook] at hx
        rcases OrderSide.eq_or_eq_opp o.side sd' with rfl | rfl
        · rw [Function.update_self, hmap, FiniteMap.addNode_other _ _ fun hp => hne ⟨rfl, hp⟩] at hx
          exact hx
        · rwa [Function.update_of_ne (OrderSide.opp_ne _)] at hx
      · have hxlv : x ≠ lv := fun he => hne (h'.entry_unique hlv (he ▸ hx))
        rw [hstore, hcells x hxlv]
        rfl
    · rw [h'.restingOrders, h.restingOrders]
      refine totalAt_update hne fun hp => ?_
      rw [totalAt_enqueue, totalAt_cons, if_neg (Ne.symm hp)]
    · rw [hlv, Option.some.injEq] at hx
      subst hx
      rw [hown, totalAt_enqueue, totalAt_cons, if_pos rfl, hstore]
      rcases htotal with ⟨hget, ht⟩ | ⟨hget, ht⟩
      · rw [ht, UInt64.add_comm]
        congr 1
        exact he lv hget
      · -- a new level: nothing rested at the price
        have hnone : ∀ r ∈ s.restingOrders o.side, r.price ≠ o.price := by
          intro r hr hp
          rw [h.restingOrders] at hr
          obtain ⟨n, hn, rfl⟩ := h.exists_node hr
          obtain ⟨l, hl, hnl⟩ := Levels.mem_queue.1 hn
          have hlp := ((h.rep.level o.side l hl).orders n hnl).2
          have := (h.rep.fast o.side o.price l.ptr).2 ⟨l, hl, hlp.symm.trans hp, rfl⟩
          rw [hget] at this
          cases this
        rw [ht, totalAt_other hnone, UInt64.add_zero]

/-- A cancel request changes nothing of the book, or deletes the node it names. -/
theorem BidAsk.cancelOrder_deletes (h : BidAsk.cancelOrder sd s o = .ok s') :
    (s'.book = s.book ∧ s'.store = s.store) ∨
    ∃ x lv bk, s.store.orderMap o.amount.toUInt64 = some x ∧
      (s.store.node x).order.clientId = o.clientId ∧
      (s.book sd).deleteOrder (compareOf sd) s.store x = .ok (lv, bk, s'.store) ∧
      s'.book = Function.update s.book sd bk := by
  simp only [BidAsk.cancelOrder, KeyMap.getVal_finite] at h
  split at h
  · cases h
    exact .inl ⟨by simp, by simp⟩
  · next x hx =>
    split at h
    · cases h
      exact .inl ⟨by simp, by simp⟩
    · next hc =>
      rw [BidAsk.book_setFeed, BidAsk.store_setFeed] at h
      cases hdel : (s.book sd).deleteOrder (compareOf sd) s.store x with
      | error e => rw [hdel] at h; cases h
      | ok res =>
        obtain ⟨lv, bk, st'⟩ := res
        rw [hdel] at h
        simp only [Except.ok.injEq] at h
        have hstore : s'.store = st' := by
          rw [← h, BidAsk.store_setFeed, BidAsk.store_setBook, BidAsk.store_setStore]
        have hbook : s'.book = Function.update s.book sd bk := by
          rw [← h, BidAsk.book_setFeed, BidAsk.book_setBook, BidAsk.book_setStore,
            BidAsk.book_setFeed]
        exact .inr ⟨x, lv, bk, hx, not_not.1 hc, by rw [hstore]; exact hdel, hbook⟩

/-- Deleting a linked node touches its level, and keeps it exact. -/
theorem deleteOrder_touches (h : View s L b) {x : Nat} (hx : x ∈ L.queue sd) {lv : Option Nat}
    {bk : FiniteOrderBook}
    (hdel : (s.book sd).deleteOrder (compareOf sd) s.store x = .ok (lv, bk, s'.store))
    (hbook : s'.book = Function.update s.book sd bk) :
    TouchesExactly s s' sd (s.store.node x).order.price := by
  obtain ⟨l, hl, hxl⟩ := Levels.mem_queue.1 hx
  obtain ⟨l₁, l₂, hs⟩ := List.append_of_mem hl
  obtain ⟨n₁, n₂, hn⟩ := List.append_of_mem hxl
  obtain ⟨q₁, hq₁⟩ : ∃ q₁, q₁ = ordersOf s.store (l₁.flatMap (·.nodes) ++ n₁) := ⟨_, rfl⟩
  obtain ⟨q₂, hq₂⟩ : ∃ q₂, q₂ = ordersOf s.store (n₂ ++ l₂.flatMap (·.nodes)) := ⟨_, rfl⟩
  obtain ⟨lv', bk', st', hdel', hv', -, -⟩ := h.deleteOrder hs hn hq₁ hq₂
  rw [hdel, Except.ok.injEq, Prod.mk.injEq, Prod.mk.injEq] at hdel'
  obtain ⟨-, rfl, rfl⟩ := hdel'
  have hsplit := h.queue_split hs hn
  rw [← hq₁, ← hq₂] at hsplit
  obtain ⟨r, hr⟩ : ∃ r, r = (s.store.node x).order := ⟨_, rfl⟩
  rw [← hr] at hsplit
  have hprice : r.price = l.price := by
    rw [hr]
    exact ((h.rep.level sd l hl).orders x hxl).2
  have hget : (s.book sd).fastMap.getVal (s.store.node x).order.price = some l.ptr := by
    rw [← hr, hprice]
    exact h.rep.cells.getVal_level hs
  obtain ⟨htotal, hcells⟩ := OrderBook.deleteOrder_level hdel hget
  rw [← hr] at hget htotal ⊢
  have hresting : s'.restingOrders = Function.update b sd (q₁ ++ q₂) := by
    rw [← hv'.restingOrders]
    exact BidAsk.restingOrders_congr (by rw [hbook]; simp) (by simp)
  have hentries : ∀ sd' p' x, (s'.book sd').fastMap p' = some x →
      (s.book sd').fastMap p' = some x := by
    intro sd' p' x hx
    refine h.entries_of_shrink hs hv' sd' p' x ?_
    rw [BidAsk.book_setBook, BidAsk.book_setStore, ← hbook]
    exact hx
  refine ⟨⟨fun sd' p' hne y hy => ?_, fun sd' p' hne => ?_⟩, fun he y hy => ?_⟩
  · have hy' := hentries sd' p' y hy
    exact ⟨hy', hcells y fun hyl => hne (h.entry_unique hget (hyl ▸ hy'))⟩
  · rw [hresting, h.restingOrders]
    refine totalAt_update hne fun hp => ?_
    rw [hsplit, totalAt_insert, totalAt_cons, if_neg (Ne.symm hp)]
  · have hy' := hentries sd r.price y hy
    obtain rfl : y = l.ptr := by
      have := hy'.symm.trans hget
      simpa using this
    have hold := he _ hy'
    rw [h.restingOrders, hsplit, totalAt_insert, totalAt_cons, if_pos rfl] at hold
    rw [hresting, Function.update_self, htotal, hold, UInt64.add_comm, UInt64.add_sub_cancel]

end

/-! ## One message -/

/-- An order for `amount` with the limit `p` uses up every level of the queue that it trades with:
an order that it reaches has no more than what is left of it, and less if the next one has the same
price. -/
def UsesUp (sd : OrderSide) (p : Int64) : Nat → List Order → Prop
  | _, [] => True
  | amount, r :: q =>
    amount = 0 ∨ crosses sd r.price p = false ∨
      (r.amount.toNat ≤ amount ∧ (∀ x ∈ q.head?, x.price = r.price → r.amount.toNat < amount) ∧
        UsesUp sd p (amount - r.amount.toNat) q)

instance decidableUsesUp (sd : OrderSide) (p : Int64) :
    ∀ (amount : Nat) (q : List Order), Decidable (UsesUp sd p amount q)
  | _, [] => .isTrue trivial
  | amount, r :: q =>
    haveI := decidableUsesUp sd p (amount - r.amount.toNat) q
    inferInstanceAs (Decidable (amount = 0 ∨ crosses sd r.price p = false ∨
      (r.amount.toNat ≤ amount ∧ (∀ x ∈ q.head?, x.price = r.price → r.amount.toNat < amount) ∧
        UsesUp sd p (amount - r.amount.toNat) q)))

/-- An order uses up every level that it trades with. -/
def LeavesWhole {OM FM : Type} (s : BidAsk OM FM) (o : Order) : Prop :=
  o.action = .execute → UsesUp o.side o.price o.amount.toNat (s.restingOrders o.side.opp)

instance {OM FM : Type} (s : BidAsk OM FM) (o : Order) : Decidable (LeavesWhole s o) := by
  unfold LeavesWhole
  infer_instance

section
variable {sd : OrderSide} {o r : Order} {q : List Order}

/-- Behind an order of another price no order has the price of the first. -/
theorem Sorted.price_ne {x : Order} (h : Sorted sd (r :: x :: q)) (hx : x.price ≠ r.price) :
    ∀ y ∈ x :: q, y.price ≠ r.price := by
  obtain ⟨hr, hs⟩ := List.pairwise_cons.1 h
  have hlt : (compareOf sd).comp r.price x.price = true :=
    Compare.comp_of_ne (hr x (.head _)) hx
  intro y hy hyr
  rcases List.mem_cons.1 hy with rfl | hy
  · exact hx hyr
  · have hnot := (List.pairwise_cons.1 hs).1 y hy
    rw [hyr, hlt] at hnot
    cases hnot

/-- The events of a sweep that trades start with a trade at the price of the head. -/
theorem sweep_head_event (asset : UInt16) (locked : Int64) (h0 : 0 < o.amount)
    (hc : crosses sd r.price o.price = true) :
    ∃ u ∈ (sweep sd (r :: q) o locked).events.flatMap (Event.updates asset), u.price = r.price := by
  rw [sweep_step q locked h0 hc]
  exact ⟨_, List.mem_flatMap.2 ⟨tradeEvent sd o r q, .head _, .head _⟩, rfl⟩

/-- A sweep of a queue in price order that uses up what it trades with leaves no order at a price
that it traded at. -/
theorem sweep_usesUp (asset : UInt16) : ∀ (q : List Order) (o : Order) (locked : Int64),
    Sorted sd.opp q → UsesUp sd o.price o.amount.toNat q →
    ∀ u ∈ (sweep sd q o locked).events.flatMap (Event.updates asset),
      ∀ x ∈ (sweep sd q o locked).queue, x.price ≠ u.price
  | [], o, locked, _, _ => by simp [sweep]
  | r :: q, o, locked, hs, huse => by
    by_cases hc : 0 < o.amount ∧ crosses sd r.price o.price = true
    · have hpos : 0 < o.amount.toNat := UInt32.lt_iff_toNat_lt.1 hc.1
      obtain ⟨hle, hnext, hrest⟩ : r.amount.toNat ≤ o.amount.toNat ∧
          (∀ x ∈ q.head?, x.price = r.price → r.amount.toNat < o.amount.toNat) ∧
          UsesUp sd o.price (o.amount.toNat - r.amount.toNat) q := by
        rcases huse with hz | hn | huse
        · omega
        · rw [hc.2] at hn
          cases hn
        · exact huse
      -- the head is used up
      have htraded : traded o r = r.amount := UInt32.toNat_inj.1 (by rw [toNat_traded]; omega)
      have hafter : afterTrade o r q = q := if_pos (by simp [less, htraded])
      have hleft : (less o (traded o r)).amount.toNat = o.amount.toNat - r.amount.toNat := by
        rw [toNat_less]
        omega
      have hsq := (List.pairwise_cons.1 hs).2
      rw [sweep_step q locked hc.1 hc.2, hafter]
      have ih := sweep_usesUp asset q (less o (traded o r))
        (locked + soldLeg sd (traded o r) r.price) hsq (by rw [hleft]; exact hrest)
      simp only [Swept.prepend, List.singleton_append, List.flatMap_cons, List.mem_append]
      rintro u (hu | hu) x hx
      · -- the trade with the head
        obtain rfl : u = ⟨r.price, 0, depthAt r.price (less r (traded o r) :: q), asset, sd.opp⟩ :=
          List.mem_singleton.1 hu
        cases q with
        | nil => simp [sweep] at hx
        | cons y q =>
          by_cases hy : y.price = r.price
          · have hmore := hnext y rfl hy
            obtain ⟨u, hu, hup⟩ := sweep_head_event (q := q) asset
              (locked + soldLeg sd (traded o r) r.price) (o := less o (traded o r)) (r := y)
              (UInt32.lt_iff_toNat_lt.2 (by rw [hleft]; simp; omega))
              (by rw [hy]; exact hc.2)
            rw [← hy, ← hup]
            exact ih u hu x hx
          · obtain ⟨z, hz, he⟩ := sweep_mem hx
            rw [he]
            exact hs.price_ne hy z hz
      · exact ih u hu x hx
    · rw [sweep, if_neg hc]
      simp

end

/-- From `s` to `s'` the totals stay exact, except for the levels of side `sd` that the feed shows.
-/
def ExactBut (sd : OrderSide) (s s' : FiniteBidAsk) : Prop :=
  ∀ sd' p, s.ExactAt sd' p → (∀ u ∈ s'.outgoingBook, u.side = sd → ¬ (sd' = sd ∧ p = u.price)) →
    s'.ExactAt sd' p

theorem emit_trade_updates (f : Feed) (sd : OrderSide) (o r : Order) (q : List Order) :
    ∃ u, (f.emit (tradeEvent sd o r q)).outgoingBook = f.outgoingBook ++ [u] ∧ u.side = sd.opp ∧
      u.price = r.price :=
  ⟨_, rfl, rfl, rfl⟩

theorem exactBut_invariant (sd : OrderSide) (s₀ : FiniteBidAsk) :
    SweepInvariant sd fun s _ _ _ _ _ => ExactBut sd.opp s₀ s where
  refresh := by
    intro s L b o k its l ls _ _ h sd' p he hu
    refine (h sd' p he fun u hmem => hu u ?_).congr (by simp) (by simp)
    rw [BidAsk.toFeed_setBestPrice]
    exact hmem
  round := by
    intro s L b o k its r q s' L' hround h sd' p he hu
    obtain ⟨u, hout, hside, hprice⟩ := emit_trade_updates s.toFeed sd o r q
    rw [hround.feed, hout] at hu
    have hne := hu u (by simp) hside
    rw [hprice] at hne
    exact hround.touches.exact hne (h sd' p he fun u hmem => hu u (by simp [hmem]))

section
variable {s s' : FiniteBidAsk} {L : Levels} {b : Book} {sd : OrderSide} {o : Order}

theorem ExactBut.refl (sd : OrderSide) (s : FiniteBidAsk) : ExactBut sd s s := fun _ _ he _ => he

theorem addSideLimitOrder_exact (h : View s L b) (hk : (compareOf o.side).Inner o.price)
    (hf : Fresh b o.id32) (hcode : BidAsk.addSideLimitOrder o.side s o = .ok s') :
    (∀ {sd p}, s.ExactAt sd p → s'.ExactAt sd p) ∧ s.outgoingBook ⊆ s'.outgoingBook := by
  rcases addSideLimitOrder_cases h hk hf with ⟨-, he⟩ | ⟨-, he⟩ | ⟨s₁, L₁, he, hv, hfeed⟩
  · rw [he] at hcode
    cases hcode
  · rw [he] at hcode
    cases hcode
    exact ⟨id, fun u hu => hu⟩
  · rw [he] at hcode
    cases hcode
    by_cases hne : s' = s
    · rw [hne]
      exact ⟨id, fun u hu => hu⟩
    · refine ⟨(addSideLimitOrder_touches h hv he hne).exact, fun u hu => ?_⟩
      rw [hfeed]
      simp [rest, Feed.emit, Feed.pushUpdate, Feed.pushAttempt, Feed.pushReport, hu]

/-- The loops of a sweep keep the totals of the levels that they do not trade with. -/
theorem fillLevels_exact (h : View s L b) {s₁ : FiniteBidAsk} {o₁ : Order} {k₁ : Int64}
    (hcode : BidAsk.fillLevels BidAsk.isMarketable o.side (mePriceLevelPoolSize + 2) s o
      (reserve o.side o.amount o.price) = .ok (s₁, o₁, k₁)) : ExactBut o.side.opp s s₁ := by
  obtain ⟨s₂, L₂, q₂, o₂, k₂, visits, hloops, -, hswept⟩ :=
    fillLevels_rule isMarketable_decides h (exactBut_invariant o.side s) (ExactBut.refl _ s)
  rw [hloops] at hcode
  cases hcode
  exact hswept.inv

/-- `executeOrder` spoils only totals of levels that the order trades with. -/
theorem executeOrder_exact (h : View s L b) (hk : (compareOf o.side).Inner o.price)
    (hf : Fresh b o.id32) (hcode : BidAsk.executeOrder s o = .ok s') :
    ExactBut o.side.opp s s' := by
  rw [BidAsk.executeOrder, executeOrderWith_side] at hcode
  split at hcode
  · obtain ⟨w, hw⟩ : ∃ w, w = sweep o.side (b o.side.opp) o (reserve o.side o.amount o.price) :=
      ⟨_, rfl⟩
    obtain ⟨s₁, L₁, hloops, hv₁, -, -, hord, -⟩ := fillLevels_swept isMarketable_decides h hw
    have hexact := fillLevels_exact h hloops
    have hwithin := within_sweep b o.side o (reserve o.side o.amount o.price)
    rw [← hw] at hwithin
    simp only [BidAsk.fillOrder, hloops] at hcode
    split at hcode
    · split at hcode
      · -- the remainder rests
        have hws : w.order.side = o.side := by rw [hord, Order.side_withAmount]
        rw [← hws] at hcode hk
        obtain ⟨hkeep, hsub⟩ := addSideLimitOrder_exact hv₁ (by rw [hord] at hk ⊢; exact hk)
          (by rw [hord]; exact hwithin.fresh hf) hcode
        exact fun sd p he hu => hkeep (hexact sd p he fun u hmem => hu u (hsub hmem))
      · cases hcode
        exact fun sd p he hu => (hexact sd p he hu).congr (by simp) (by simp)
    · cases hcode
      exact hexact
  · exact fun sd p he _ => (addSideLimitOrder_exact h hk hf hcode).1 he

theorem cancelOrder_exact (h : View s L b) (hside : RightSide b o)
    (hcode : BidAsk.cancelOrder o.side s o = .ok s') {p : Int64} (he : s.ExactAt sd p) :
    s'.ExactAt sd p := by
  rcases BidAsk.cancelOrder_deletes hcode with ⟨hb, hs⟩ | ⟨x, lv, bk, hx, hc, hdel, hbook⟩
  · exact he.congr hb hs
  · obtain ⟨sd', hq, hid⟩ := h.mapped_node hx
    have hmem := h.order_mem hq
    obtain rfl : sd' = o.side := by
      rw [← h.side_eq hmem]
      exact hside sd' _ hmem hid hc
    exact (deleteOrder_touches h hq hdel hbook).exact he

/-- A remainder that comes to rest shows on its own side only. -/
theorem settle_opp (asset : UInt16) (b : Book) (w : Swept) :
    (∀ u ∈ (settle b w).2.flatMap (Event.updates asset), u.side = w.order.side) ∧
      (settle b w).1 w.order.side.opp = b w.order.side.opp := by
  unfold settle
  split
  · split
    · refine ⟨fun u hu => ?_, Function.update_of_ne (OrderSide.opp_ne _) ..⟩
      obtain rfl := List.mem_singleton.1 hu
      rfl
    · exact ⟨fun u hu => by (cases hu), rfl⟩
  · exact ⟨fun u hu => by (cases hu), rfl⟩

/-- No order is left at a price of the other side that an order traded at, whether its remainder
rests or is dropped. -/
theorem traded_gone (asset : UInt16) (m : Bool) (hs : Sorted o.side.opp (b o.side.opp))
    (huse : UsesUp o.side o.price o.amount.toNat (b o.side.opp)) {b' : Book} {es : List Event}
    (hout : (b', es) = dropWith m b o ∨ (b', es) = executeWith m b o) :
    ∀ u ∈ es.flatMap (Event.updates asset), u.side = o.side.opp →
      ∀ x ∈ b' o.side.opp, x.price ≠ u.price := by
  obtain ⟨w, hw⟩ : ∃ w, w = sweep o.side (b o.side.opp) o (reserve o.side o.amount o.price) :=
    ⟨_, rfl⟩
  have hsweep := sweep_usesUp asset (b o.side.opp) o (reserve o.side o.amount o.price) hs huse
  rw [← hw] at hsweep
  intro u hu hside x hx
  cases m with
  | true =>
    rcases hout with hout | hout
    · simp only [dropWith, ← hw, if_true, Prod.mk.injEq] at hout
      rw [hout.1, Function.update_self] at hx
      rw [hout.2] at hu
      exact hsweep u hu x hx
    · rw [executeWith_swept hw, Prod.mk.injEq] at hout
      have horder : w.order.side = o.side := by rw [hw, sweep_order, Order.side_withAmount]
      obtain ⟨hown, hopp⟩ := settle_opp asset (Function.update b o.side.opp w.queue) w
      rw [horder] at hown hopp
      rw [hout.1, hopp, Function.update_self] at hx
      rw [hout.2, List.flatMap_append] at hu
      rcases List.mem_append.1 hu with hu | hu
      · exact hsweep u hu x hx
      · rw [hown u hu] at hside
        exact absurd hside (OrderSide.ne_opp _)
  | false =>
    rcases hout with hout | hout
    · cases hout
      cases hu
    · cases hout
      obtain rfl := List.mem_singleton.1 hu
      exact absurd hside (OrderSide.ne_opp _)

theorem View.fastMap_none (h : View s L b) {p : Int64} (hp : ∀ x ∈ b sd, x.price ≠ p) :
    (s.book sd).fastMap p = none := by
  rw [Option.eq_none_iff_forall_ne_some]
  intro x hx
  obtain ⟨l, hl, rfl, -⟩ := (h.rep.fast sd p x).1 hx
  obtain ⟨n, ns, hn⟩ := List.exists_cons_of_ne_nil (h.full sd l hl)
  have hnl : n ∈ l.nodes := by rw [hn]; simp
  exact hp _ (h.order_mem (Levels.mem_queue.2 ⟨l, hl, hnl⟩)) ((h.rep.level sd l hl).orders n hnl).2

/-- **The levels traded with are gone** when the order has been processed. -/
theorem LeavesWhole.gone (h : View s L b) (ha : Acceptable b o) (hwhole : LeavesWhole s o)
    (hact : o.action = .execute) {out : BidAsk.Out} (hstep : BidAsk.step s o = .ok (s', out)) :
    ∀ u ∈ out.updates, u.side = o.side.opp → (s'.book o.side.opp).fastMap u.price = none := by
  have huse := hwhole hact
  rw [h.restingOrders] at huse
  have hgone : ∀ {L' : Levels} {b' : Book} {es : List Event}, View s' L' b' →
      s'.toFeed = es.foldl Feed.emit s.toFeed.cleared →
      ((b', es) = dropWith (s.isMarketable o) b o ∨ (b', es) = executeWith (s.isMarketable o) b o) →
      ∀ u ∈ s'.toFeed.out.updates, u.side = o.side.opp →
        (s'.book o.side.opp).fastMap u.price = none := by
    intro L' b' es hv hfeed hout u hu hside
    refine hv.fastMap_none fun x hx => ?_
    have hupd := (tells_emit s.toFeed es).updates
    rw [← hfeed] at hupd
    have hmem : u.unnumbered ∈ es.flatMap (Event.updates s.marketAssetId.toUInt16) := by
      rw [← hupd]
      exact List.mem_map_of_mem hu
    exact traded_gone _ _ (h.sorted _) huse hout u.unnumbered hmem hside x hx
  rcases step_cases h ha with ⟨-, -, he⟩ | ⟨-, -, s₁, L₁, he, hv, hfeed⟩ | ⟨s₁, L₁, he, hv, hfeed⟩
  · rw [he] at hstep
    cases hstep
  · rw [he] at hstep
    cases hstep
    exact hgone hv hfeed (.inl rfl)
  · rw [he] at hstep
    cases hstep
    refine hgone hv hfeed (.inr ?_)
    simp only [processWith, hact]

/-- **One message** keeps the totals exact, if it leaves no level that it traded with. -/
theorem step_exact (h : View s L b) (ha : Acceptable b o) (hwhole : LeavesWhole s o)
    {out : BidAsk.Out} (hstep : BidAsk.step s o = .ok (s', out)) (he : ∀ sd p, s.ExactAt sd p)
    (sd : OrderSide) (p : Int64) : s'.ExactAt sd p := by
  obtain ⟨s₀, hs₀⟩ : ∃ s₀, s₀ = s.setFeed s.toFeed.cleared := ⟨_, rfl⟩
  have h₀ : View s₀ L b := hs₀ ▸ h.setFeed _
  have he₀ : ∀ sd p, s₀.ExactAt sd p := fun sd p => by
    rw [hs₀]
    exact (he sd p).congr (by simp) (by simp)
  obtain ⟨hproc, hout⟩ : BidAsk.process s₀ o = .ok s' ∧ out.updates = s'.outgoingBook := by
    rw [hs₀]
    unfold BidAsk.step at hstep
    split at hstep
    · cases hstep
    · next s₁ hp =>
      cases hstep
      exact ⟨hp, rfl⟩
  cases hact : o.action with
  | execute =>
    rw [process_execute hact] at hproc
    by_cases htraded : ∃ u ∈ s'.outgoingBook, u.side = o.side.opp ∧ sd = o.side.opp ∧ p = u.price
    · -- the level has left the book
      obtain ⟨u, hu, hsd, rfl, rfl⟩ := htraded
      have hgone := hwhole.gone h ha hact hstep u (by rw [hout]; exact hu) hsd
      intro x hx
      rw [hx] at hgone
      cases hgone
    · exact executeOrder_exact h₀ (ha.inner hact) (ha.fresh hact) hproc sd p (he₀ sd p)
        fun u hu hsd hp => htraded ⟨u, hu, hsd, hp⟩
  | cancel =>
    rw [process_cancel hact] at hproc
    exact cancelOrder_exact h₀ (ha.rightSide hact) hproc (he₀ sd p)

end

/-! ## Runs -/

section
variable {s₀ s : FiniteBidAsk} {L₀ : Levels} {msgs : List Order} {outs : List BidAsk.Out}

theorem run_exact (h₀ : View s₀ L₀ empty) (hv : Valid msgs)
    (hside : Along NamesSide BidAsk.step s₀ msgs) (hwhole : Along LeavesWhole BidAsk.step s₀ msgs)
    (hrun : BidAsk.run s₀ msgs = .ok (s, outs)) : ∀ sd p, s.ExactAt sd p := by
  refine run_invariant (P := fun _ s _ => ∀ sd p, s.ExactAt sd p)
    (fun sd p x hx => ?_) hwhole ?_ hrun
  · -- the empty book has no levels
    obtain ⟨l, hl, -⟩ := (h₀.rep.fast sd p x).1 hx
    obtain ⟨n, ns, hn⟩ := List.exists_cons_of_ne_nil (h₀.full sd l hl)
    have hnode : n ∈ L₀.queue sd := Levels.mem_queue.2 ⟨l, hl, by rw [hn]; simp⟩
    cases h₀.order_mem hnode
  · intro xs o s bs s' out hp hr he hw hstep
    have hxs : xs <+: msgs := (List.prefix_append _ _).trans hp
    obtain ⟨L, b, hview, hk⟩ := run_view h₀ (hv.restrict hxs) (hside.restrict hxs) hr
    exact step_exact hview (acceptable hview hk (hv.restrict hp) (hside xs o hp s bs hr)) hw
      hstep he

/-- The orders at a level's price are those in its nodes. -/
theorem View.totalAt_level {L : Levels} {b : Book} {sd : OrderSide} {l : LevelRep} (h : View s L b)
    (hl : l ∈ L sd) : totalAt l.price (b sd) = totalAt l.price (ordersOf s.store l.nodes) := by
  obtain ⟨l₁, l₂, hs⟩ := List.append_of_mem hl
  have hsplit : b sd = ordersOf s.store (l₁.flatMap (·.nodes)) ++
      (ordersOf s.store l.nodes ++ ordersOf s.store (l₂.flatMap (·.nodes))) := by
    rw [h.queue sd, Levels.queue, hs]
    simp
  rw [hsplit, totalAt_append, totalAt_append,
    totalAt_other (h.rep.other_price hs fun m hm => List.mem_append_left _ hm),
    totalAt_other (h.rep.other_price hs fun m hm => List.mem_append_right _ hm), UInt64.zero_add,
    UInt64.add_zero]

end

/-- The amounts in the nodes of a level. -/
def BidAsk.amountsOf {OM FM : Type} (s : BidAsk OM FM) (lv : Nat) : List Nat :=
  (s.nodesOf lv).map fun n => (s.store.node n).order.amount.toNat

theorem BidAsk.amountsOf_finite (s : FlatBidAsk) (lv : Nat) :
    s.finite.amountsOf lv = s.amountsOf lv := by
  unfold amountsOf
  rw [nodesOf_finite]
  rfl

theorem amountsOf_sum_lt {s : FiniteBidAsk} {L : Levels} {b : Book} {sd : OrderSide} {l : LevelRep}
    (h : View s L b) (hl : l ∈ L sd) : (s.amountsOf l.ptr).sum < 2 ^ 64 := by
  have hlen := h.rep.cells.level_length_le hl
  have hsum : (s.amountsOf l.ptr).sum ≤ (s.amountsOf l.ptr).length • (2 ^ 32 : Nat) := by
    refine List.sum_le_card_nsmul _ _ fun a ha => ?_
    obtain ⟨n, -, rfl⟩ := List.mem_map.1 ha
    exact Nat.le_of_lt (UInt32.toNat_lt _)
  unfold BidAsk.amountsOf at hsum ⊢
  rw [List.length_map, h.nodesOf hl, smul_eq_mul] at hsum
  rw [h.nodesOf hl]
  have : meOrderNodePoolSize * 2 ^ 32 < 2 ^ 64 := by decide
  have := Nat.mul_le_mul_right (2 ^ 32) hlen
  omega

theorem run_totals (assetId : UInt32) (initialPrice : Int64) (reportSeq bookSeq : UInt32)
    (bidSeed askSeed : UInt64) {msgs : List Order} {s : FiniteBidAsk} {outs : List BidAsk.Out}
    (hv : Valid msgs)
    (hside : Along NamesSide BidAsk.step
      (BidAsk.new assetId initialPrice reportSeq bookSeq bidSeed askSeed) msgs)
    (hrun : BidAsk.run (BidAsk.new assetId initialPrice reportSeq bookSeq bidSeed askSeed) msgs =
      .ok (s, outs)) {sd : OrderSide} {lv : Nat} (hlv : lv ∈ s.levels sd) :
    (s.store.level lv).size.toNat = (s.nodesOf lv).length ∧
    (s.store.level lv).totalAmount.toNat % 2 ^ 32 = (s.amountsOf lv).sum % 2 ^ 32 ∧
    (Along LeavesWhole BidAsk.step
        (BidAsk.new assetId initialPrice reportSeq bookSeq bidSeed askSeed) msgs →
      (s.store.level lv).totalAmount.toNat = (s.amountsOf lv).sum) := by
  have h₀ := new_view assetId initialPrice reportSeq bookSeq bidSeed askSeed
  obtain ⟨L, b, hview, -⟩ := run_view h₀ hv hside hrun
  rw [hview.levels] at hlv
  obtain ⟨l, hl, rfl⟩ := List.mem_map.1 hlv
  have hok := hview.rep.level sd l hl
  have hamounts : s.amountsOf l.ptr = (ordersOf s.store l.nodes).map fun o => o.amount.toNat := by
    rw [BidAsk.amountsOf, hview.nodesOf hl, ordersOf, List.map_map]
    rfl
  have hprice : ∀ o ∈ ordersOf s.store l.nodes, o.price = l.price := by
    intro o ho
    obtain ⟨n, hn, rfl⟩ := List.mem_map.1 ho
    exact (hok.orders n hn).2
  refine ⟨by rw [hok.holds.size, hview.nodesOf hl], ?_, fun hwhole => ?_⟩
  · have := congrArg UInt32.toNat hok.holds.total
    rw [UInt64.toNat_toUInt32, toNat_depth] at this
    rw [this, BidAsk.amountsOf, hview.nodesOf hl]
    rfl
  · have hget : (s.book sd).fastMap l.price = some l.ptr :=
      (hview.rep.fast sd _ _).2 ⟨l, hl, rfl, rfl⟩
    rw [run_exact h₀ hv hside hwhole hrun sd l.price l.ptr hget, hview.restingOrders,
      hview.totalAt_level hl, toNat_totalAt hprice, ← hamounts,
      Nat.mod_eq_of_lt (amountsOf_sum_lt hview hl)]

/-- **Level totals.** In every state that a run reaches, every linked level has a `Size` that counts
its nodes and a total whose low 32 bits are the sum of their amounts; the whole total is the sum if
every order used up the levels that it traded with. -/
theorem run_level_totals (assetId : UInt32) (initialPrice : Int64) (reportSeq bookSeq : UInt32)
    (bidSeed askSeed : UInt64) {msgs : List Order} {s : FlatBidAsk} {outs : List BidAsk.Out}
    (hv : Valid msgs)
    (hside : Along NamesSide BidAsk.step
      (BidAsk.newFlat assetId initialPrice reportSeq bookSeq bidSeed askSeed) msgs)
    (hhome : Along RoomAtHome BidAsk.step
      (BidAsk.newFlat assetId initialPrice reportSeq bookSeq bidSeed askSeed) msgs)
    (hrun : BidAsk.run (BidAsk.newFlat assetId initialPrice reportSeq bookSeq bidSeed askSeed)
      msgs = .ok (s, outs)) {sd : OrderSide} {lv : Nat} (hlv : lv ∈ s.levels sd) :
    (s.store.level lv).size.toNat = (s.nodesOf lv).length ∧
    (s.store.level lv).totalAmount.toNat % 2 ^ 32 = (s.amountsOf lv).sum % 2 ^ 32 ∧
    (Along LeavesWhole BidAsk.step
        (BidAsk.newFlat assetId initialPrice reportSeq bookSeq bidSeed askSeed) msgs →
      (s.store.level lv).totalAmount.toNat = (s.amountsOf lv).sum) := by
  obtain ⟨hrun', -⟩ :=
    run_finite assetId initialPrice reportSeq bookSeq bidSeed askSeed hv hside hhome hrun
  rw [← BidAsk.levels_finite] at hlv
  obtain ⟨hsize, hlow, hexact⟩ :=
    run_totals assetId initialPrice reportSeq bookSeq bidSeed askSeed hv
    (namesSide_finite assetId initialPrice reportSeq bookSeq bidSeed askSeed hv hside hhome)
      hrun' hlv
  rw [BidAsk.nodesOf_finite] at hsize
  rw [BidAsk.amountsOf_finite] at hlow hexact
  refine ⟨hsize, hlow, fun hwhole => hexact ?_⟩
  refine along_finite assetId initialPrice reportSeq bookSeq bidSeed askSeed hv hside hhome hwhole
    fun s o h ha => ?_
  rw [BidAsk.restingOrders_finite]
  exact h ha

/-- An ask that is taken whole, two more asks at its price, and a cancel of one of them. -/
def wholeRun : List Order :=
  [⟨100, 1, 0, 7, 5, 1, .limit, .sell, .execute⟩,
   ⟨101, 2, 0, 8, 5, 1, .market, .buy, .execute⟩,
   ⟨100, 3, 0, 7, 3, 1, .limit, .sell, .execute⟩,
   ⟨100, 4, 0, 7, 4, 1, .limit, .sell, .execute⟩,
   ⟨0, 5, 0, 7, 3, 1, .limit, .sell, .cancel⟩]

theorem run_level_totals_whole : ∃ s outs lv,
    BidAsk.run (BidAsk.newFlat 1 100 0 0 3 5) wholeRun = .ok (s, outs) ∧ s.levels .sell = [lv] ∧
    s.amountsOf lv = [4] ∧ (s.store.level lv).totalAmount.toNat = 4 := by
  obtain ⟨s, outs, hrun, hmap⟩ := exists_of_succeeds
    (P := fun s _ => (s.levels .sell).map s.amountsOf = [[4]])
    (r := BidAsk.run (BidAsk.newFlat 1 100 0 0 3 5) wholeRun) (by decide +kernel)
  obtain ⟨lv, hlv, hamounts⟩ := List.map_eq_singleton_iff.1 hmap
  have hmem : lv ∈ s.levels .sell := by
    rw [hlv]
    exact List.mem_singleton.2 rfl
  obtain ⟨-, -, htotal⟩ := run_level_totals 1 100 0 0 3 5 (by decide +kernel)
    (by decide +kernel) (by decide +kernel) hrun hmem
  refine ⟨s, outs, lv, hrun, hlv, hamounts, ?_⟩
  rw [htotal (by decide +kernel), hamounts]
  rfl

/-- **A partial fill leaves the total `2 ^ 32` too high**: the ask of five of which three are taken
has two left, and its level a total of 4294967298. -/
theorem partial_fill_total : Valid (sampleRun.take 2) ∧
    Along NamesSide BidAsk.step (BidAsk.newFlat 1 100 0 0 3 5) (sampleRun.take 2) ∧
    (BidAsk.run (BidAsk.newFlat 1 100 0 0 3 5) (sampleRun.take 2)).map (fun r =>
      (r.1.levels .sell).map fun lv => ((r.1.store.level lv).size.toNat, r.1.amountsOf lv,
        (r.1.store.level lv).totalAmount.toNat)) = .ok [(1, [2], 4294967298)] :=
  ⟨by decide +kernel, by decide +kernel, by decide +kernel⟩

end Naoto.Engine
