import NaotoExchange.Engine.Proof.Walk

/-!
# Cancelling an order

`CancelOrder` finds its target in the map shared by both sides and deletes it from the side the
request names. If that is the target's side, the outcome is the reference's (`cancel_refines`);
`RightSide` is that condition. Nothing in the engine checks it.
-/

namespace Naoto.Engine

open Reference

/-- A cancel request that names a resting order of its sender names its side too. -/
def RightSide (b : Book) (o : Order) : Prop :=
  ∀ sd, ∀ r ∈ b sd, r.id32 = o.amount → r.clientId = o.clientId → r.side = o.side

instance (b : Book) (o : Order) : Decidable (RightSide b o) := by
  unfold RightSide
  infer_instance

namespace View

variable {s : FiniteBidAsk} {L : Levels} {b : Book} {sd sd' : OrderSide} {o r r' : Order}

theorem side_eq (h : View s L b) (hr : r ∈ b sd) : r.side = sd := by
  obtain ⟨n, hn, rfl⟩ := h.exists_node hr
  exact h.rep.cells.side_of_mem hn

theorem orderMap_node (h : View s L b) {n : Nat} (hn : n ∈ L.queue sd) :
    s.store.orderMap (s.store.node n).order.id32.toUInt64 = some n :=
  (h.rep.ids _ _).2 ⟨Levels.mem_nodes.2 ⟨sd, hn⟩, rfl⟩

theorem node_unique (h : View s L b) {n n' : Nat} (hn : n ∈ L.queue sd) (hn' : n' ∈ L.queue sd')
    (hid : (s.store.node n).order.id32 = (s.store.node n').order.id32) : n = n' := by
  have h1 := h.orderMap_node hn
  rw [hid, h.orderMap_node hn', Option.some.injEq] at h1
  exact h1.symm

theorem ids_nodup (h : View s L b) (sd : OrderSide) : ((b sd).map Order.id32).Nodup := by
  have hnd := h.rep.cells.nodup sd
  rw [List.nil_append] at hnd
  rw [h.queue sd, ordersOf, List.map_map]
  refine List.Nodup.map_on (fun n hn n' hn' he => ?_) (List.nodup_append.1 hnd).1
  exact h.node_unique hn hn' he

theorem order_unique (h : View s L b) (hr : r ∈ b sd) (hr' : r' ∈ b sd') (hid : r.id32 = r'.id32) :
    r = r' := by
  obtain ⟨n, hn, rfl⟩ := h.exists_node hr
  obtain ⟨n', hn', rfl⟩ := h.exists_node hr'
  rw [h.node_unique hn hn' hid]

/-- Dropping an order's id from its side's queue drops just that order. -/
theorem filter_split (h : View s L b) {q₁ q₂ : List Order} (hb : b sd = q₁ ++ r :: q₂) :
    (b sd).filter (fun x => x.id32 ≠ r.id32) = q₁ ++ q₂ := by
  have hnd := h.ids_nodup sd
  rw [hb, List.map_append, List.map_cons, List.nodup_middle, List.nodup_cons, ← List.map_append]
    at hnd
  have hne : ∀ x ∈ q₁ ++ q₂, decide (x.id32 ≠ r.id32) = true := fun x hx =>
    decide_eq_true fun he => hnd.1 (he ▸ List.mem_map_of_mem hx)
  rw [hb, List.filter_append, List.filter_cons_of_neg (by simp), ← List.filter_append]
  exact List.filter_eq_self.2 hne

/-- The target of a request is the owner's resting order with that id. -/
theorem target_eq_some (h : View s L b) (hr : r ∈ b sd) (hid : r.id32 = o.amount)
    (hc : r.clientId = o.clientId) : target b o = some r := by
  have hmem : ∀ x, x ∈ b .buy ++ b .sell ↔ ∃ sd, x ∈ b sd := fun x => by
    rw [List.mem_append]
    constructor
    · rintro (hx | hx)
      · exact ⟨_, hx⟩
      · exact ⟨_, hx⟩
    · rintro ⟨sd, hx⟩
      cases sd with
      | buy => exact .inl hx
      | sell => exact .inr hx
  unfold target
  cases hfind : (b .buy ++ b .sell).find? fun r => r.id32 = o.amount && r.clientId = o.clientId with
  | none =>
    have := List.find?_eq_none.1 hfind r ((hmem r).2 ⟨sd, hr⟩)
    simp [hid, hc] at this
  | some r' =>
    have hp := List.find?_some hfind
    obtain ⟨sd', hr'⟩ := (hmem r').1 (List.mem_of_find?_eq_some hfind)
    simp only [Bool.and_eq_true, decide_eq_true_eq] at hp
    rw [h.order_unique hr' hr (hp.1.trans hid.symm)]

theorem target_eq_none
    (hno : ∀ sd, ∀ r ∈ b sd, r.id32 = o.amount → r.clientId ≠ o.clientId) :
    target b o = none := by
  unfold target
  rw [List.find?_eq_none]
  intro r hr
  simp only [Bool.and_eq_true, decide_eq_true_eq, not_and]
  rcases List.mem_append.1 hr with hr | hr
  · exact hno _ r hr
  · exact hno _ r hr

end View

section
variable {s : FiniteBidAsk} {L : Levels} {b : Book} {o : Order}

/-- **`CancelOrder`** with the target's side does what the reference does. -/
theorem cancel_refines (h : View s L b) (hside : RightSide b o) :
    ∃ s' L', BidAsk.cancelOrder o.side s o = .ok s' ∧ View s' L' (cancel b o).1 ∧
      s'.toFeed = (cancel b o).2.foldl Feed.emit s.toFeed := by
  have hreject : target b o = none → ∃ L', View (s.setFeed (s.toFeed.pushReject o)) L'
      (cancel b o).1 ∧ (s.setFeed (s.toFeed.pushReject o)).toFeed =
        (cancel b o).2.foldl Feed.emit s.toFeed := by
    intro ht
    simp only [cancel, ht]
    exact ⟨L, h.setFeed _, rfl⟩
  cases hget : s.store.orderMap o.amount.toUInt64 with
  | none =>
    obtain ⟨L', hv, hf⟩ := hreject (View.target_eq_none fun sd r hr hid => by
      obtain ⟨n, hn, rfl⟩ := h.exists_node hr
      have := h.orderMap_node hn
      rw [hid, hget] at this
      cases this)
    refine ⟨_, L', ?_, hv, hf⟩
    have hget' : s.store.orderMap.getVal o.amount.toUInt64 = none := hget
    simp only [BidAsk.cancelOrder, KeyMap.getVal_finite, hget']
  | some x =>
    have hget' : s.store.orderMap.getVal o.amount.toUInt64 = some x := hget
    obtain ⟨sd, hx, hid⟩ := h.mapped_node hget
    obtain ⟨r, hr⟩ : ∃ r, r = (s.store.node x).order := ⟨_, rfl⟩
    have hrm : r ∈ b sd := by rw [hr]; exact h.order_mem hx
    rw [← hr] at hid
    by_cases hc : r.clientId = o.clientId
    · -- the owner's request: the target leaves its level
      obtain rfl : sd = o.side := by
        rw [← h.side_eq hrm]
        exact hside sd r hrm hid hc
      obtain ⟨l, hl, hxl⟩ := Levels.mem_queue.1 hx
      obtain ⟨l₁, l₂, hs⟩ := List.append_of_mem hl
      obtain ⟨n₁, n₂, hn⟩ := List.append_of_mem hxl
      obtain ⟨q₁, hq₁⟩ : ∃ q₁, q₁ = ordersOf s.store (l₁.flatMap (·.nodes) ++ n₁) := ⟨_, rfl⟩
      obtain ⟨q₂, hq₂⟩ : ∃ q₂, q₂ = ordersOf s.store (n₂ ++ l₂.flatMap (·.nodes)) := ⟨_, rfl⟩
      obtain ⟨lv, bk, st', hdel, hv', hsome, hnone⟩ := h.deleteOrder hs hn hq₁ hq₂
      have hsplit := h.queue_split hs hn
      rw [← hq₁, ← hq₂, ← hr] at hsplit
      have hprice : r.price = l.price := by
        rw [hr]
        exact ((h.rep.level _ l hl).orders x hxl).2
      have hrs : r.side = o.side := h.side_eq hrm
      have hfilter := h.filter_split hsplit
      have hcancel : cancel b o = (Function.update b o.side (q₁ ++ q₂),
          [.cancel r (depthAt l.price (q₁ ++ q₂))]) := by
        simp only [cancel, h.target_eq_some hrm hid hc, hrs, hfilter, hprice]
      obtain ⟨total, hcode, hdepth⟩ : ∃ total : UInt64, BidAsk.cancelOrder o.side s o =
          .ok (((s.setStore st').setBook bk o.side).setFeed ((s.toFeed.pushAttempt o.side
            (reserve o.side r.amount r.price) r .cancel).pushUpdate total r.price o.side)) ∧
          total.toUInt32 = depthAt l.price (q₁ ++ q₂) := by
        have hset : ∀ f g : Feed, (((s.setFeed f).setStore st').setBook bk o.side).setFeed g =
            ((s.setStore st').setBook bk o.side).setFeed g := fun f g => by
          cases o.side <;> rfl
        simp only [BidAsk.cancelOrder, KeyMap.getVal_finite, hget', ← hr, ne_eq, hc,
          not_true_eq_false, if_false, BidAsk.book_setFeed, BidAsk.store_setFeed, hdel, hset,
          BidAsk.toFeed_setFeed]
        cases lv with
        | some p => exact ⟨_, rfl, hsome p rfl⟩
        | none => exact ⟨0, rfl, (hnone rfl).symm⟩
      rw [hcancel]
      refine ⟨_, _, hcode, hv'.setFeed _, ?_⟩
      simp only [BidAsk.toFeed_setFeed, List.foldl_cons, List.foldl_nil, Feed.emit, hrs]
      exact Feed.pushUpdate_congr _ (by rw [hdepth, UInt32.toUInt32_toUInt64]) _ _
    · obtain ⟨L', hv, hf⟩ := hreject (View.target_eq_none fun sd' r' hr' hid' => by
        rw [h.order_unique hr' hrm (hid'.trans hid.symm)]
        exact hc)
      refine ⟨_, L', ?_, hv, hf⟩
      simp only [BidAsk.cancelOrder, KeyMap.getVal_finite, hget', ← hr, ne_eq, hc,
        not_false_eq_true, if_true]

end

end Naoto.Engine
