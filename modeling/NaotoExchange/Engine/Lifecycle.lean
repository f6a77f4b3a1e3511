import NaotoExchange.Engine.Proof.Life
import NaotoExchange.Engine.ZeroSum

/-!
# Quantities and the order of reports

`run_lifecycle`: at every point of a run, what an order has been filled with and what is left of it
in the book, or was when it was cancelled, is its amount; a fill is the last one exactly when
nothing is left; there is at most one ADD, and nothing after the last fill or the cancellation.
-/

namespace Naoto.Engine

open FixedWidth Reference Run Desk

/-! ## Quantities -/

/-- The quantity of a fill, for the owner of an order on side `sd`. -/
def quantity : OrderSide → OrderStateReport → Int
  | .buy, r => r.boughtDelta.toInt
  | .sell, r => -r.soldDelta.toInt

/-- What the fills among the reports add up to. -/
def filled (sd : OrderSide) (rs : List OrderStateReport) : Int :=
  ((rs.filter isFill).map (quantity sd)).sum

theorem quantity_fillOf (asset : UInt16) (sd : OrderSide) (t : UInt32) (p : Int64) (o : Order) :
    quantity sd (fillOf asset sd t p o) = t.toNat := by
  cases sd with
  | buy => exact toInt_zeroExtend t
  | sell =>
    have hlt : t.toNat < 2 ^ 32 := t.toNat_lt
    show -(-zeroExtend t).toInt = t.toNat
    rw [Int64.toInt_neg, toInt_zeroExtend, Int.bmod_eq_of_le] <;> omega

section
variable {sd : OrderSide} {rs : List OrderStateReport} {r : OrderStateReport}

theorem filled_snoc_fill (h : isFill r = true) :
    filled sd (rs ++ [r]) = filled sd rs + quantity sd r := by
  simp [filled, h]

theorem filled_snoc_plain (h : isFill r = false) : filled sd (rs ++ [r]) = filled sd rs := by
  simp [filled, h]

theorem filled_unnumbered (sd : OrderSide) (rs : List OrderStateReport) :
    filled sd (rs.map OrderStateReport.unnumbered) = filled sd rs := by
  unfold filled
  rw [List.filter_map, List.map_map]
  cases sd <;> rfl

end

/-- What a life has left. -/
def Life.left : Life → UInt32
  | .incoming left | .resting left | .gone left => left

section
variable {asset : UInt16} {may : Order → UInt32 → Prop} {o : Order} {rs : List OrderStateReport}
  {ℓ : Life}

theorem filled_take {left t : UInt32} {p : Int64} (ht : t ≤ left)
    (h : filled o.side rs + left.toNat = o.amount.toNat) :
    filled o.side (rs ++ [fillOf asset o.side t p (withAmount o (left - t))]) + (left - t).toNat =
      o.amount.toNat := by
  have hle : t.toNat ≤ left.toNat := UInt32.le_iff_toNat_le.1 ht
  rw [filled_snoc_fill (fillOf_isFill ..), quantity_fillOf, UInt32.toNat_sub_of_le _ _ ht]
  omega

/-- **Nothing of an order is lost.** -/
theorem Lives.filled (h : Lives asset may o rs ℓ) :
    filled o.side rs + ℓ.left.toNat = o.amount.toNat := by
  induction h with
  | arrive => exact zero_add _
  | take _ _ ht ih => exact filled_take ht ih
  | rest _ _ ih =>
    rw [filled_snoc_plain rfl]
    exact ih
  | expire _ _ ih =>
    rw [filled_snoc_plain rfl]
    exact ih
  | spent _ ih => exact ih
  | @fill rs left t _ ht ih =>
    have hleft : (if left - t = 0 then Life.gone 0 else .resting (left - t)).left = left - t := by
      split
      · rename_i hz
        exact hz.symm
      · rfl
    rw [hleft]
    exact filled_take ht ih
  | cancel _ _ ih =>
    rw [filled_snoc_plain rfl]
    exact ih

/-- An order that is gone without a CANCEL has nothing left. -/
theorem Lives.left_of_gone {removed : UInt32} (h : Lives asset may o rs (.gone removed))
    (hno : ∀ r ∈ rs, r.state ≠ .cancel) : removed = 0 := by
  generalize hℓ : Life.gone removed = ℓ at h
  cases h with
  | arrive => cases hℓ
  | take => cases hℓ
  | rest => cases hℓ
  | expire => exact absurd rfl (hno _ (List.mem_append_right _ (.head _)))
  | spent =>
    cases hℓ
    rfl
  | fill =>
    split at hℓ
    · cases hℓ
      rfl
    · cases hℓ
  | cancel => exact absurd rfl (hno _ (List.mem_append_right _ (.head _)))

end

/-! ## The order of the reports -/

/-- The last report about an order. -/
def IsLast (r : OrderStateReport) : Prop := r.state = .fill ∨ r.state = .cancel

/-- The reports of an order come in the order that a client can rely on. -/
structure Ordered (sd : OrderSide) (amount : UInt32) (rs : List OrderStateReport) : Prop where
  fill_iff : ∀ before r after, rs = before ++ r :: after → isFill r = true →
    (r.state = .fill ↔ filled sd (before ++ [r]) = amount.toNat)
  adds : rs.countP (fun r => r.state = .add) ≤ 1
  last : ∀ before r after, rs = before ++ r :: after → IsLast r → after = []

section
variable {sd : OrderSide} {amount : UInt32} {rs : List OrderStateReport} {x : OrderStateReport}

theorem snoc_eq_append_cons {before after : List OrderStateReport} {r : OrderStateReport}
    (h : rs ++ [x] = before ++ r :: after) :
    (after = [] ∧ r = x ∧ before = rs) ∨ ∃ after', after = after' ++ [x] ∧
    rs = before ++ r :: after' := by
  cases after using List.reverseRecOn with
  | nil =>
    obtain ⟨hb, hr⟩ := List.append_inj' h rfl
    exact .inl ⟨rfl, (List.singleton_inj.1 hr).symm, hb.symm⟩
  | append_singleton after' y =>
    rw [← List.cons_append, ← List.append_assoc] at h
    obtain ⟨hb, hy⟩ := List.append_inj' h rfl
    exact .inr ⟨after', by rw [List.singleton_inj.1 hy], hb⟩

theorem Ordered.nil : Ordered sd amount [] where
  fill_iff := fun before r after h => by simp at h
  adds := Nat.zero_le _
  last := fun before r after h => by simp at h

theorem Ordered.snoc (h : Ordered sd amount rs) (hopen : ∀ r ∈ rs, ¬ IsLast r)
    (hfill : isFill x = true → (x.state = .fill ↔ filled sd (rs ++ [x]) = amount.toNat))
    (hadd : x.state = .add → ∀ r ∈ rs, r.state ≠ .add) : Ordered sd amount (rs ++ [x]) where
  fill_iff := by
    intro before r after heq hr
    obtain ⟨-, rfl, rfl⟩ | ⟨after', -, hrs⟩ := snoc_eq_append_cons heq
    · exact hfill hr
    · exact h.fill_iff before r after' hrs hr
  adds := by
    rw [List.countP_append]
    by_cases hx : x.state = .add
    · have hzero : rs.countP (fun r => r.state = .add) = 0 :=
        List.countP_eq_zero.2 fun r hr => by simpa using hadd hx r hr
      rw [hzero, zero_add]
      exact List.countP_le_length
    · have hadds := h.adds
      simpa [hx] using hadds
  last := by
    intro before r after heq hr
    obtain ⟨rfl, -, -⟩ | ⟨after', -, hrs⟩ := snoc_eq_append_cons heq
    · rfl
    · exact absurd hr (hopen r (by rw [hrs]; simp))

theorem Ordered.of_unnumbered (h : Ordered sd amount (rs.map OrderStateReport.unnumbered)) :
    Ordered sd amount rs where
  fill_iff := by
    intro before r after heq hr
    have hiff := h.fill_iff (before.map OrderStateReport.unnumbered) r.unnumbered
      (after.map OrderStateReport.unnumbered) (by rw [heq, List.map_append]; rfl) hr
    have hsum := filled_unnumbered sd (before ++ [r])
    rw [List.map_append] at hsum
    rw [← hsum]
    exact hiff
  adds := by
    have hadds := h.adds
    rw [List.countP_map] at hadds
    exact hadds
  last := by
    intro before r after heq hr
    have hlast := h.last (before.map OrderStateReport.unnumbered) r.unnumbered
      (after.map OrderStateReport.unnumbered) (by rw [heq, List.map_append]; rfl) hr
    exact List.map_eq_nil_iff.1 hlast

end

/-- Reports about the order can follow. -/
def Life.Open : Life → Prop
  | .incoming left => 0 < left
  | .resting _ => True
  | .gone _ => False

/-- What is known of the reports of a life that started with an amount. -/
structure Running (o : Order) (rs : List OrderStateReport) (ℓ : Life) : Prop where
  ordered : Ordered o.side o.amount rs
  noLast : ℓ.Open → ∀ r ∈ rs, ¬ IsLast r
  noAdd : ∀ left, ℓ = .incoming left → ∀ r ∈ rs, r.state ≠ .add

section
variable {asset : UInt16} {may : Order → UInt32 → Prop} {o : Order} {rs : List OrderStateReport}
  {ℓ : Life}

theorem fill_iff_filled {left : UInt32} {t : UInt32} {p : Int64} (ht : t ≤ left)
    (h : filled o.side rs + left.toNat = o.amount.toNat) :
    (fillOf asset o.side t p (withAmount o (left - t))).state = .fill ↔
      filled o.side (rs ++ [fillOf asset o.side t p (withAmount o (left - t))]) =
      o.amount.toNat := by
  have hfilled : filled o.side (rs ++ [fillOf asset o.side t p (withAmount o (left - t))]) +
      (left - t).toNat = o.amount.toNat := filled_take ht h
  show (if 0 < left - t then OrderState.partialFill else .fill) = .fill ↔ _
  split
  · rename_i hpos
    have hne : 0 < (left - t).toNat := UInt32.lt_iff_toNat_lt.1 hpos
    constructor
    · intro hstate
      cases hstate
    · intro hall
      omega
  · rename_i hpos
    have hz : left - t = 0 := by simpa using hpos
    rw [hz] at hfilled ⊢
    simpa using hfilled

theorem not_isLast_fillOf {t : UInt32} {p : Int64} {x : Order} (h : 0 < x.amount) :
    ¬ IsLast (fillOf asset o.side t p x) := by
  unfold IsLast fillOf
  simp [h]

theorem forall_mem_snoc {P : OrderStateReport → Prop} {x : OrderStateReport} (h : ∀ r ∈ rs, P r)
    (hx : P x) : ∀ r ∈ rs ++ [x], P r := by
  intro r hr
  obtain hr | hr := List.mem_append.1 hr
  · exact h r hr
  · rw [List.mem_singleton.1 hr]
    exact hx

theorem Lives.running (h : Lives asset may o rs ℓ) (h0 : 0 < o.amount) : Running o rs ℓ := by
  induction h with
  | arrive => exact ⟨.nil, (fun _ _ hr => nomatch hr), fun _ _ _ hr => nomatch hr⟩
  | @take rs left t p hl hpos ht ih =>
    have hopen := ih.noLast hpos
    refine ⟨ih.ordered.snoc hopen (fun _ => fill_iff_filled ht hl.filled)
      (fun _ => ih.noAdd left rfl), ?_, ?_⟩
    · intro hleft
      exact forall_mem_snoc hopen (not_isLast_fillOf hleft)
    · intro _ _
      refine forall_mem_snoc (ih.noAdd left rfl) ?_
      show (if 0 < left - t then OrderState.partialFill else .fill) ≠ .add
      split <;> simp
  | @rest rs left hl hpos ih =>
    have hleft : 0 < left := by
      obtain hpos | rfl := hpos
      · exact hpos
      · exact h0
    have hopen := ih.noLast hleft
    refine ⟨ih.ordered.snoc hopen (fun hx => nomatch hx) (fun _ => ih.noAdd left rfl), ?_, ?_⟩
    · intro _
      refine forall_mem_snoc hopen ?_
      rintro (hx | hx) <;> cases hx
    · intro _ hx
      cases hx
  | @expire rs left locked hl hpos ih =>
    refine ⟨ih.ordered.snoc (ih.noLast hpos) (fun hx => nomatch hx) (fun hx => nomatch hx), ?_, ?_⟩
    · exact fun hx => hx.elim
    · intro _ hx
      cases hx
  | spent hl ih => exact ⟨ih.ordered, (fun hx => hx.elim), fun _ hx => nomatch hx⟩
  | @fill rs left t hl ht ih =>
    have hopen := ih.noLast trivial
    refine ⟨ih.ordered.snoc hopen (fun _ => fill_iff_filled ht hl.filled) ?_, ?_, ?_⟩
    · show (if 0 < left - t then OrderState.partialFill else .fill) = .add → _
      split <;> exact fun hx => nomatch hx
    · intro hx
      split at hx
      · exact hx.elim
      · rename_i hne
        refine forall_mem_snoc hopen (not_isLast_fillOf ?_)
        show 0 < left - t
        simpa [UInt32.pos_iff_ne_zero] using hne
    · intro _ hx
      split at hx
      · cases hx
      · cases hx
  | @cancel rs left hl _ ih =>
    refine ⟨ih.ordered.snoc (ih.noLast trivial) (fun hx => nomatch hx) (fun hx => nomatch hx), ?_,
      ?_⟩
    · exact fun hx => hx.elim
    · intro _ hx
      cases hx

end

/-! ## Reports by id -/

/-- The reports that carry this id. -/
def idReports (id : UInt32) (outs : List BidAsk.Out) : List OrderStateReport :=
  (allReports outs).filter fun r => r.orderId = id

theorem steps_rejects {ok : Book → Order → Prop} {d : Desk} (h : Steps ok start d) :
    ∀ c, Event.reject c ∈ d.events → c ∈ d.seen ∧ c.action = .cancel := by
  refine h.invariant (I := fun d => ∀ c, Event.reject c ∈ d.events → c ∈ d.seen ∧
    c.action = .cancel) (fun d d' hstep hd => ?_) (fun c hc => nomatch hc)
  cases hstep with
  | arrive _ _ _ _ => exact fun c hc => ⟨List.mem_append_left _ (hd c hc).1, (hd c hc).2⟩
  | trade _ _ _ =>
    intro c hc
    obtain hc | hc := List.mem_append.1 hc
    · exact hd c hc
    · cases List.mem_singleton.1 hc
  | rest _ _ =>
    intro c hc
    obtain hc | hc := List.mem_append.1 hc
    · exact hd c hc
    · cases List.mem_singleton.1 hc
  | expire _ _ =>
    intro c hc
    obtain hc | hc := List.mem_append.1 hc
    · exact hd c hc
    · cases List.mem_singleton.1 hc
  | spent _ => exact hd
  | cancel _ _ _ =>
    intro c hc
    obtain hc | hc := List.mem_append.1 hc
    · exact ⟨List.mem_append_left _ (hd c hc).1, (hd c hc).2⟩
    · cases List.mem_singleton.1 hc
  | reject _ ha _ =>
    intro c hc
    obtain hc | hc := List.mem_append.1 hc
    · exact ⟨List.mem_append_left _ (hd c hc).1, (hd c hc).2⟩
    · cases List.mem_singleton.1 hc
      exact ⟨by simp, ha⟩

theorem eq_reject_of_report {asset : UInt16} {e : Event} {r : OrderStateReport}
    (hr : r ∈ e.reports asset)
    (hstate : r.state = .reject) : ∃ c, e = .reject c ∧ r.orderId = c.id32 := by
  cases e with
  | trade sd x y quantity depth =>
    simp only [Event.reports, List.mem_cons, List.not_mem_nil, or_false] at hr
    obtain rfl | rfl := hr
    · simp only [fillOf] at hstate
      split at hstate <;> cases hstate
    · simp only [fillOf] at hstate
      split at hstate <;> cases hstate
  | add o depth => rw [List.mem_singleton.1 hr] at hstate; cases hstate
  | expire o locked => rw [List.mem_singleton.1 hr] at hstate; cases hstate
  | cancel o depth => rw [List.mem_singleton.1 hr] at hstate; cases hstate
  | reject c =>
    rw [List.mem_singleton.1 hr]
    exact ⟨c, rfl, rfl⟩

/-- With distinct ids no rejection carries the id of an order. -/
theorem idReports_unnumbered {ok : Book → Order → Prop} {asset : UInt16} {xs : List Order}
    {cur : Option Order} {b : Book} {es : List Event} {outs : List BidAsk.Out} {o : Order}
    (htells : Tells asset (joined outs) es) (hsteps : Steps ok start ⟨xs, cur, b, es⟩)
    (hids : (xs.map Order.id32).Nodup) (ho : o ∈ xs) (ha : o.action = .execute) :
    (idReports o.id32 outs).map OrderStateReport.unnumbered = aboutIn asset o.id32 es := by
  have hall : ∀ r ∈ es.flatMap (Event.reports asset),
      (decide (r.orderId = o.id32)) = isAbout o.id32 r := by
    intro r hr
    by_cases hid : r.orderId = o.id32
    · have hstate : r.state ≠ .reject := by
        intro hreject
        obtain ⟨e, he, hr⟩ := List.mem_flatMap.1 hr
        obtain ⟨c, rfl, hc⟩ := eq_reject_of_report hr hreject
        obtain ⟨hmem, hcancel⟩ := steps_rejects hsteps c he
        have heq : c = o := List.inj_on_of_nodup_map hids hmem ho (hc.symm.trans hid)
        rw [heq, ha] at hcancel
        cases hcancel
      simp [isAbout, hid, bne_iff_ne.2 hstate]
    · simp [isAbout, hid]
  rw [aboutIn, ← List.filter_congr hall, ← htells.reports, List.filter_map]
  rfl

/-! ## The result -/

/-- What the sweep of an order leaves of it. -/
def BidAsk.unfilled (s : FiniteBidAsk) (o : Order) : Except Fault UInt32 :=
  (BidAsk.fillLevels BidAsk.isMarketable o.side (mePriceLevelPoolSize + 2) s o
    (reserve o.side o.amount o.price)).map fun p => p.2.1.amount

/-- What the CANCEL report about `o` that the message `m` leads to removes: what rests of `o` if it
is a cancel request, what the sweep leaves if it is `o` itself. -/
def Removes (s : FiniteBidAsk) (m o : Order) (removed : UInt32) : Prop :=
  match m.action with
  | .cancel => ∃ r ∈ s.restingOrders o.side, r.id32 = o.id32 ∧ r.amount = removed
  | .execute => m = o ∧ s.unfilled o = .ok removed

/-- The quantities of `o` after the message `m`, from `s` to `s'`, with the reports `rs` so far. -/
structure Conserved (s : FiniteBidAsk) (m : Order) (s' : FiniteBidAsk) (out : BidAsk.Out)
    (o : Order) (rs : List OrderStateReport) : Prop where
  resting : ∀ sd, ∀ r ∈ s'.restingOrders sd, r.id32 = o.id32 →
    filled o.side rs + r.amount.toNat = o.amount.toNat
  done : (∀ sd, ∀ r ∈ s'.restingOrders sd, r.id32 ≠ o.id32) → (∀ r ∈ rs, r.state ≠ .cancel) →
    filled o.side rs = o.amount.toNat
  cancelled : ∀ r ∈ out.reports, r.orderId = o.id32 → r.state = .cancel →
    ∃ removed, Removes s m o removed ∧ filled o.side rs + removed.toNat = o.amount.toNat

section
variable {asset : UInt16} {may : Order → UInt32 → Prop} {mk : Bool} {xs : List Order} {b : Book}
  {es : List Event} {m o : Order} {r : OrderStateReport}

/-- A CANCEL report that a cancel request leads to is about an order in the book. -/
theorem Tracked.cancelled_by_request (h : Tracked asset may ⟨xs, none, b, es⟩)
    (hm : m.action = .cancel) (ho : o ∈ xs) (ha : o.action = .execute)
    (hr : r ∈ (processWith mk b m).2.flatMap (Event.reports asset)) (hid : r.orderId = o.id32)
    (hstate : r.state = .cancel) :
    ∃ x ∈ b o.side, x.id32 = o.id32 ∧
      filled o.side (aboutIn asset o.id32 (es ++ (processWith mk b m).2)) + x.amount.toNat =
        o.amount.toNat := by
  have hevents : (processWith mk b m).2 = (Reference.cancel b m).2 := by
    rw [processWith, hm]
  rw [hevents] at hr ⊢
  unfold Reference.cancel at hr ⊢
  cases ht : target b m with
  | none =>
    rw [ht] at hr
    rw [List.flatMap_singleton] at hr
    rw [List.mem_singleton.1 hr] at hstate
    cases hstate
  | some x =>
    rw [ht] at hr
    simp only [List.flatMap_singleton] at hr ⊢
    have hx : x.id32 = o.id32 := by
      rw [← hid, List.mem_singleton.1 hr]
      rfl
    obtain ⟨sd, hmem⟩ := target_mem ht
    obtain ⟨x₀, left, rfl, hx₀, hax₀, rfl, hlives, -⟩ := h.ofResting hmem
    obtain rfl := eq_of_id32 h.ids hx₀ hax₀ ho ha hx
    refine ⟨withAmount x₀ left, hmem, rfl, ?_⟩
    have habout : ∀ depth, aboutIn asset x₀.id32 (es ++ [.cancel (withAmount x₀ left) depth]) =
        aboutIn asset x₀.id32 es ++
          [attemptOf asset (reserve x₀.side left x₀.price) (withAmount x₀ left) .cancel] := by
      intro depth
      rw [aboutIn_attempt rfl (by decide), withAmount_id32, if_pos rfl]
      rfl
    rw [habout, filled_snoc_plain rfl]
    exact hlives.filled

/-- A CANCEL report that an order leads to is about what is left of a market order. -/
theorem expire_of_report (hm : m.action = .execute)
    (hr : r ∈ (processWith mk b m).2.flatMap (Event.reports asset)) (hstate : r.state = .cancel) :
    r.orderId = m.id32 ∧ ∃ w, w = sweep m.side (b m.side.opp) m (reserve m.side m.amount m.price) ∧
      (processWith mk b m).2 = w.events ++ [.expire w.order w.locked] := by
  obtain ⟨e, he, hre⟩ := List.mem_flatMap.1 hr
  clear hr
  rw [processWith, hm] at he ⊢
  simp only [executeWith] at he ⊢
  cases mk with
  | false =>
    rw [List.mem_singleton.1 he] at hre
    rw [List.mem_singleton.1 hre] at hstate
    cases hstate
  | true =>
    simp only [if_true, execute] at he ⊢
    have horder := sweep_order m.side (b m.side.opp) m (reserve m.side m.amount m.price)
    have htrades := sweep_trades m.side (b m.side.opp) m (reserve m.side m.amount m.price)
    generalize sweep m.side (b m.side.opp) m (reserve m.side m.amount m.price) = w
      at he horder htrades ⊢
    obtain he | he := List.mem_append.1 he
    · -- a trade is reported as a fill
      have htrade := htrades e he
      cases e with
      | trade sd x y quantity depth =>
        simp only [Event.reports, List.mem_cons, List.not_mem_nil, or_false] at hre
        obtain rfl | rfl := hre
        · simp only [fillOf] at hstate
          split at hstate <;> cases hstate
        · simp only [fillOf] at hstate
          split at hstate <;> cases hstate
      | add o depth => cases htrade
      | expire o locked => cases htrade
      | cancel o depth => cases htrade
      | reject o => cases htrade
    · unfold settle at he ⊢
      split at he
      · rename_i hpos
        cases ht : w.order.type with
        | limit =>
          rw [ht] at he
          rw [List.mem_singleton.1 he] at hre
          rw [List.mem_singleton.1 hre] at hstate
          cases hstate
        | market =>
          rw [ht] at he
          rw [List.mem_singleton.1 he] at hre
          refine ⟨?_, w, rfl, ?_⟩
          · rw [List.mem_singleton.1 hre]
            show w.order.id32 = m.id32
            rw [horder]
            rfl
          · rw [if_pos hpos]
      · cases he

/-- What the sweep of an order leaves, and what it was filled with, is its amount. -/
theorem swept_conserved (asset : UInt16) {ok : Book → Order → Prop} {w : Swept}
    (hsteps : Steps ok start ⟨xs, none, b, es⟩) (hok : ok b o) (ha : o.action = .execute)
    (hnew : o.id32 ∉ executeIds xs)
    (hw : w = sweep o.side (b o.side.opp) o (reserve o.side o.amount o.price)) :
    filled o.side (aboutIn asset o.id32 (es ++ w.events)) + w.order.amount.toNat =
    o.amount.toNat := by
  have hbefore := steps_tracked asset (fun _ _ => True) (fun _ _ _ _ _ _ _ => trivial) hsteps
  have hfresh : Fresh b o.id32 := fun sd x hx he => hnew (he ▸ hbefore.known sd x hx)
  have hmid : Steps ok start ⟨xs ++ [o], some w.order, Function.update b o.side.opp w.queue,
      es ++ w.events⟩ := by
    refine hsteps.trans (.head (.arrive hok ha hfresh hnew) ?_)
    rw [hw]
    exact sweep_steps _ _ o _ b es rfl rfl
  have htracked := steps_tracked asset (fun _ _ => True) (fun _ _ _ _ _ _ _ => trivial) hmid
  obtain ⟨o₀, left, hwo, ho₀, ha₀, hlives, -⟩ := htracked.ofIncoming
  have hid : o₀.id32 = o.id32 := by
    rw [← withAmount_id32 o₀ left, ← hwo, hw, sweep_order]
    rfl
  obtain rfl := eq_of_id32 htracked.ids ho₀ ha₀ (List.mem_append_right _ (.head _)) ha hid
  rw [hwo]
  exact hlives.filled

end

/-- **Quantities are conserved and reports come in order**, for every order at every point of a run.
-/
theorem run_lifecycle (assetId : UInt32) (initialPrice : Int64) (reportSeq bookSeq : UInt32)
    (bidSeed askSeed : UInt64) {msgs : List Order} (hv : Valid msgs)
    (hids : (msgs.map Order.id32).Nodup) (hamount : ∀ o ∈ msgs, o.action = .execute → 0 < o.amount)
    (hside : Along NamesSide BidAsk.step
      (BidAsk.new assetId initialPrice reportSeq bookSeq bidSeed askSeed) msgs)
    (hfree : Along PoolsFree BidAsk.step
      (BidAsk.new assetId initialPrice reportSeq bookSeq bidSeed askSeed) msgs)
    {xs : List Order} {m : Order} (hp : xs ++ [m] <+: msgs) :
    ∃ s outs s' out,
      BidAsk.run (BidAsk.new assetId initialPrice reportSeq bookSeq bidSeed askSeed) xs =
      .ok (s, outs) ∧ BidAsk.step s m = .ok (s', out) ∧
      ∀ o ∈ xs ++ [m], o.action = .execute →
        Ordered o.side o.amount (idReports o.id32 (outs ++ [out])) ∧
        Conserved s m s' out o (idReports o.id32 (outs ++ [out])) := by
  have h₀ := new_view assetId initialPrice reportSeq bookSeq bidSeed askSeed
  obtain ⟨s, outs, s', out, L, es, es', hrun, hstep, hview, hes', htells, htold, hsteps, hnext⟩ :=
    next_steps (fun _ _ => True) h₀ hv hside hfree (fun _ _ _ _ _ _ => trivial) hp
  replace htells : Tells assetId.toUInt16 (joined outs) es := htells
  replace htold : Tells assetId.toUInt16 out es' := htold
  have hidsx : ((xs ++ [m]).map Order.id32).Nodup := hids.sublist (hp.sublist.map _)
  have htracked := steps_tracked assetId.toUInt16 (fun _ _ => True)
    (fun _ _ _ _ _ _ _ => trivial) hsteps
  have htracked' := steps_tracked assetId.toUInt16 (fun _ _ => True) (fun _ _ _ _ _ _ _ => trivial)
    (hsteps.trans hnext)
  refine ⟨s, outs, s', out, hrun, hstep, fun o ho ha => ?_⟩
  have hrs := idReports_unnumbered (htells.snoc htold) (hsteps.trans hnext) hidsx ho ha
  have hfilled : filled o.side (idReports o.id32 (outs ++ [out])) =
      filled o.side (aboutIn assetId.toUInt16 o.id32 (es ++ es')) := by
    rw [← hrs, filled_unnumbered]
  obtain ⟨ℓ, hlives, hloc⟩ := htracked'.lives o ho ha
  constructor
  · apply Ordered.of_unnumbered
    rw [hrs]
    exact (hlives.running (hamount o (hp.subset ho) ha)).ordered
  refine ⟨?_, ?_, ?_⟩
  · intro sd r hr hid
    obtain rfl := hloc.left_of_mem hr hid
    rw [hfilled]
    exact hlives.filled
  · intro hno hcancel
    obtain ⟨removed, rfl⟩ := hloc.gone_of_not_mem hno
    have hzero : removed = 0 := hlives.left_of_gone fun r hr => by
      obtain ⟨x, hx, rfl⟩ := List.mem_map.1 (hrs ▸ hr)
      exact hcancel x hx
    have hall := hlives.filled
    rw [hzero] at hall
    rw [hfilled, ← hall]
    exact (add_zero _).symm
  · intro r hr hid hstate
    have hmem : r.unnumbered ∈ es'.flatMap (Event.reports assetId.toUInt16) := by
      rw [← htold.reports]
      exact List.mem_map_of_mem hr
    rw [hes'] at hmem
    cases hm : m.action with
    | cancel =>
      obtain ⟨x, hx, hxid, hsum⟩ :=
        htracked.cancelled_by_request hm (mem_of_execute hm ho ha) ha hmem hid hstate
      refine ⟨x.amount, ?_, ?_⟩
      · rw [Removes, hm]
        exact ⟨x, hx, hxid, rfl⟩
      · rw [hfilled, hes']
        exact hsum
    | execute =>
      obtain ⟨hmid, w, hw, hevents⟩ := expire_of_report hm hmem hstate
      obtain rfl : o = m := List.inj_on_of_nodup_map hidsx ho (by simp) (hid.symm.trans hmid)
      obtain ⟨s₁, -, hlevels, -⟩ := fillLevels_swept isMarketable_decides hview hw
      refine ⟨w.order.amount, ?_, ?_⟩
      · rw [Removes, hm]
        exact ⟨rfl, by rw [BidAsk.unfilled, hlevels]; rfl⟩
      · have hswept := swept_conserved assetId.toUInt16 hsteps trivial ha (hv.new_id hp ha) hw
        have habout : aboutIn assetId.toUInt16 o.id32
            (es ++ w.events ++ [.expire w.order w.locked]) = _ :=
          aboutIn_attempt rfl (by decide)
        have hwid : w.order.id32 = o.id32 := by
          rw [hw, sweep_order]
          rfl
        rw [if_pos hwid] at habout
        rw [hfilled, hes', hevents, ← List.append_assoc, habout, filled_snoc_plain rfl]
        exact hswept

/-- The sample run at the cancellation of the ask. -/
theorem run_lifecycle_sample :
    ∃ s outs s' out, BidAsk.run (BidAsk.new 1 100 0 0 3 5) (sampleRun.take 3) = .ok (s, outs) ∧
      BidAsk.step s ⟨0, 4, 0, 7, 1, 1, .limit, .sell, .cancel⟩ = .ok (s', out) ∧
      Ordered .sell 5 (idReports 1 (outs ++ [out])) ∧
      Conserved s ⟨0, 4, 0, 7, 1, 1, .limit, .sell, .cancel⟩ s' out
        ⟨100, 1, 0, 7, 5, 1, .limit, .sell, .execute⟩ (idReports 1 (outs ++ [out])) := by
  have hv : Valid sampleRun := by decide +kernel
  have hp : sampleRun.take 3 ++ [⟨0, 4, 0, 7, 1, 1, .limit, .sell, .cancel⟩] <+: sampleRun := by
    decide
  obtain ⟨s, outs, s', out, hrun, hstep, h⟩ :=
    run_lifecycle 1 100 0 0 3 5 hv (by decide) (by decide)
    (by decide +kernel) (by decide +kernel) hp
  exact ⟨s, outs, s', out, hrun, hstep, h ⟨100, 1, 0, 7, 5, 1, .limit, .sell, .execute⟩
    (by decide) rfl⟩

end Naoto.Engine
