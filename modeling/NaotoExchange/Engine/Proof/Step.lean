import NaotoExchange.Engine.Proof.Cancel

/-!
# One message

What a message does to a view, whatever it is (`step_cases`), and the two facts about the reference
book that a run carries along: its queues are sorted (`Sorted`), and no two orders of different
sides cross (`Uncrossed`). The second rests on the first: a sweep that leaves something of the order
stops at a head that does not cross, and no order behind the head is better.
-/

namespace Naoto.Engine

open Reference

/-! ## Crossing and sortedness -/

theorem crosses_opp (sd : OrderSide) (p q : Int64) : crosses sd.opp p q = crosses sd q p := by
  cases sd <;> rfl

/-- No order is better than one in front of it. -/
def Sorted (sd : OrderSide) (q : List Order) : Prop :=
  q.Pairwise fun a b => (compareOf sd).comp b.price a.price = false

/-- No order of the queue crosses the limit of an order on side `sd`. -/
def Clear (sd : OrderSide) (q : List Order) (limit : Int64) : Prop :=
  ∀ r ∈ q, crosses sd r.price limit = false

/-- If the head of a sorted queue does not cross, nothing does. -/
theorem Sorted.clear {sd : OrderSide} {q : List Order} {limit : Int64} (h : Sorted sd.opp q)
    (hhead : ∀ r q', q = r :: q' → crosses sd r.price limit = false) : Clear sd q limit := by
  intro r hr
  cases q with
  | nil => cases hr
  | cons r₀ q =>
    rcases List.mem_cons.1 hr with rfl | hr
    · exact hhead _ _ rfl
    · cases hc : crosses sd r.price limit with
      | false => rfl
      | true =>
        have := crosses_of_comp ((List.pairwise_cons.1 h).1 r hr) hc
        rw [hhead _ _ rfl] at this
        cases this

/-- A sweep that leaves something of the order leaves nothing that crosses it. -/
theorem sweep_clear {sd : OrderSide} : ∀ {q : List Order} (o : Order) (locked : Int64),
    Sorted sd.opp q → 0 < (sweep sd q o locked).order.amount →
    Clear sd (sweep sd q o locked).queue o.price
  | [], _, _, _, _ => fun r hr => by simp [sweep] at hr
  | r :: q, o, locked, hs, h0 => by
    by_cases hc : 0 < o.amount ∧ crosses sd r.price o.price = true
    · rw [sweep_step q locked hc.1 hc.2] at h0 ⊢
      unfold afterTrade at *
      by_cases hz : (less r (traded o r)).amount = 0
      · rw [if_pos hz] at h0 ⊢
        exact sweep_clear _ _ (List.pairwise_cons.1 hs).2 h0
      · -- the order was used up
        rw [if_neg hz, sweep_zero (less_amount_zero hz)] at h0
        have : 0 < (less o (traded o r)).amount := h0
        rw [less_amount_zero hz] at this
        exact absurd this (UInt32.lt_irrefl _)
    · rw [sweep, if_neg hc] at h0 ⊢
      have h0' : 0 < o.amount := h0
      refine hs.clear fun r' q' hq => ?_
      simp only [List.cons.injEq] at hq
      rw [← hq.1]
      simpa [h0'] using hc

theorem View.sorted {s : FiniteBidAsk} {L : Levels} {b : Book} (h : View s L b) (sd : OrderSide) :
    Sorted sd (b sd) := by
  rw [h.queue sd, Sorted, ordersOf, List.pairwise_map, Levels.queue, List.pairwise_flatMap]
  have hp : ∀ l ∈ L sd, ∀ n ∈ l.nodes, (s.store.node n).order.price = l.price := fun l hl n hn =>
    ((h.rep.level sd l hl).orders n hn).2
  constructor
  · intro l hl
    refine List.pairwise_of_forall_mem_list fun n hn m hm => ?_
    rw [hp l hl n hn, hp l hl m hm]
    exact Compare.comp_irrefl _ _
  · refine (h.rep.sorted sd).imp_of_mem fun {l m} hl hm hlm n hn k hk => ?_
    rw [hp l hl n hn, hp m hm k hk]
    exact Compare.comp_asymm hlm

/-! ## The book after a message -/

/-- Every order of `b'` is one of `b` or the order `o`, with its amount possibly lowered. -/
def WithinOr (b' b : Book) (o : Order) : Prop :=
  ∀ sd, ∀ r' ∈ b' sd, (∃ r ∈ b sd, r' = { r with amount := r'.amount }) ∨
    sd = o.side ∧ r' = { o with amount := r'.amount }

section
variable {b b' : Book} {o : Order}

theorem Within.or (h : Within b' b) (o : Order) : WithinOr b' b o :=
  fun sd r' hr' => .inl (h sd r' hr')

theorem mem_rest {sd : OrderSide} {r : Order} (h : r ∈ (rest b o).1 sd) :
    r ∈ b sd ∨ sd = o.side ∧ r = o := by
  simp only [rest] at h
  rcases OrderSide.eq_or_eq_opp o.side sd with rfl | rfl
  · rw [Function.update_self] at h
    rcases mem_enqueue.1 h with rfl | h
    · exact .inr ⟨rfl, rfl⟩
    · exact .inl h
  · rw [Function.update_of_ne (OrderSide.opp_ne _)] at h
    exact .inl h

theorem within_rest (b : Book) (o : Order) : WithinOr (rest b o).1 b o := by
  intro sd r' hr'
  rcases mem_rest hr' with hr' | ⟨hsd, rfl⟩
  · exact .inl ⟨r', hr', rfl⟩
  · exact .inr ⟨hsd, rfl⟩

theorem sweep_order (sd : OrderSide) : ∀ (q : List Order) (o : Order) (locked : Int64),
    (sweep sd q o locked).order = { o with amount := (sweep sd q o locked).order.amount }
  | [], _, _ => rfl
  | r :: q, o, locked => by
    rw [sweep]
    split
    · simp only
      split
      · rw [sweep_order sd q]
        rfl
      · rfl
    · rfl

theorem within_execute (b : Book) (o : Order) : WithinOr (execute b o).1 b o := by
  have hw := within_sweep b o.side o (reserve o.side o.amount o.price)
  have ho := sweep_order o.side (b o.side.opp) o (reserve o.side o.amount o.price)
  simp only [execute]
  obtain ⟨w, hwd⟩ : ∃ w, w = sweep o.side (b o.side.opp) o (reserve o.side o.amount o.price) :=
    ⟨_, rfl⟩
  rw [← hwd] at hw ho ⊢
  unfold settle
  split
  · split
    · intro sd r' hr'
      rcases within_rest _ _ sd r' hr' with ⟨r, hr, he⟩ | ⟨hsd, he⟩
      · obtain ⟨r₀, hr₀, he₀⟩ := hw sd r hr
        refine .inl ⟨r₀, hr₀, ?_⟩
        rw [he, he₀]
      · refine .inr ⟨by rw [hsd, ho, Order.side_withAmount], ?_⟩
        rw [he, ho]
    · exact hw.or o
  · exact hw.or o

theorem within_executeWith (m : Bool) (b : Book) (o : Order) :
    WithinOr (executeWith m b o).1 b o := by
  cases m with
  | true => exact within_execute b o
  | false => exact within_rest b o

theorem within_cancel (b : Book) (o : Order) : Within (cancel b o).1 b := by
  unfold cancel
  split
  · exact .refl b
  · next r _ =>
    intro sd r' hr'
    simp only at hr'
    rcases OrderSide.eq_or_eq_opp r.side sd with rfl | rfl
    · rw [Function.update_self] at hr'
      exact ⟨r', (List.mem_filter.1 hr').1, rfl⟩
    · rw [Function.update_of_ne (OrderSide.opp_ne _)] at hr'
      exact ⟨r', hr', rfl⟩

/-! ### Nothing crosses -/

theorem Within.uncrossed (h : Within b' b) (hu : Uncrossed b) : Uncrossed b' := by
  intro sd o' ho' r' hr'
  obtain ⟨o, ho, he⟩ := h sd o' ho'
  obtain ⟨r, hr, he'⟩ := h sd.opp r' hr'
  rw [he, he']
  exact hu sd o ho r hr

theorem Uncrossed.rest (hu : Uncrossed b) (hc : Clear o.side (b o.side.opp) o.price) :
    Uncrossed (rest b o).1 := by
  intro sd x hx r hr
  rcases mem_rest hx with hxb | ⟨rfl, rfl⟩
  · rcases mem_rest hr with hrb | ⟨hsd, rfl⟩
    · exact hu sd x hxb r hrb
    · -- an old order against the new one: the same test, seen from the other side
      obtain rfl : sd = r.side.opp := by rw [← hsd, OrderSide.opp_opp]
      rw [crosses_opp]
      exact hc x hxb
  · rcases mem_rest hr with hr | ⟨hsd, -⟩
    · exact hc r hr
    · exact absurd hsd (OrderSide.opp_ne _)

theorem Uncrossed.execute (hu : Uncrossed b) (hs : Sorted o.side.opp (b o.side.opp)) :
    Uncrossed (execute b o).1 := by
  have hw := (within_sweep b o.side o (reserve o.side o.amount o.price)).uncrossed hu
  have ho := sweep_order o.side (b o.side.opp) o (reserve o.side o.amount o.price)
  have hcl := sweep_clear o (reserve o.side o.amount o.price) hs
  simp only [Reference.execute]
  obtain ⟨w, hwd⟩ : ∃ w, w = sweep o.side (b o.side.opp) o (reserve o.side o.amount o.price) :=
    ⟨_, rfl⟩
  rw [← hwd] at hw ho hcl ⊢
  unfold settle
  split
  · next h0 =>
    split
    · have hws : w.order.side = o.side := by rw [ho, Order.side_withAmount]
      have hwp : w.order.price = o.price := by rw [ho]
      refine hw.rest ?_
      rw [hws, hwp, Function.update_self]
      exact hcl h0
    · exact hw
  · exact hw

/-- **Nothing crosses** after an order either, if the decision that it is not marketable can be
relied on. -/
theorem Uncrossed.executeWith {mk : FiniteBidAsk → Order → Bool} (hmk : Decides mk)
    {s : FiniteBidAsk}
    {L : Levels} (h : View s L b) (hu : Uncrossed b) : Uncrossed (executeWith (mk s o) b o).1 := by
  cases hm : mk s o with
  | true => exact hu.execute (h.sorted _)
  | false =>
    refine hu.rest ((h.sorted _).clear fun r q' hq => ?_)
    cases hc : crosses o.side r.price o.price with
    | false => rfl
    | true =>
      rw [hmk.crossing h hq hc] at hm
      cases hm

end

/-! ## The message -/

/-- The streams, emptied. -/
def Feed.cleared (f : Feed) : Feed := { f with outgoingOrders := [], outgoingBook := [] }

/-- What has been pushed. -/
def Feed.out (f : Feed) : BidAsk.Out := ⟨f.outgoingOrders, f.outgoingBook⟩

/-- A message's outcome in the reference's terms, given the engine's decision about an order. -/
def Reference.processWith (marketable : Bool) (b : Book) (o : Order) : Book × List Event :=
  match o.action with
  | .execute => executeWith marketable b o
  | .cancel => cancel b o

/-- What the engine relies on about a message: a new id and a price between the sentinels, or the
target's side. -/
structure Acceptable (b : Book) (o : Order) : Prop where
  inner : o.action = .execute → (compareOf o.side).Inner o.price
  fresh : o.action = .execute → Fresh b o.id32
  rightSide : o.action = .cancel → RightSide b o

section
variable {s : FiniteBidAsk} {L : Levels} {b : Book} {o : Order}

theorem step_of_process {s' : FiniteBidAsk}
    (h : BidAsk.process (s.setFeed s.toFeed.cleared) o = .ok s') :
    BidAsk.step s o = .ok (s', s'.toFeed.out) := by
  simp only [Feed.cleared] at h
  simp only [BidAsk.step, h, Feed.out]

theorem process_of_step {s' : FiniteBidAsk} {out : BidAsk.Out}
    (h : BidAsk.step s o = .ok (s', out)) :
    BidAsk.process (s.setFeed s.toFeed.cleared) o = .ok s' ∧ out = s'.toFeed.out := by
  cases hproc : BidAsk.process (s.setFeed s.toFeed.cleared) o with
  | error e =>
    rw [Feed.cleared] at hproc
    simp only [BidAsk.step, hproc] at h
    cases h
  | ok s₁ =>
    rw [step_of_process hproc] at h
    cases h
    exact ⟨rfl, rfl⟩

theorem process_execute (h : o.action = .execute) (s : FiniteBidAsk) :
    BidAsk.process s o = BidAsk.executeOrder s o := by
  simp only [BidAsk.process, h]

theorem process_cancel (h : o.action = .cancel) (s : FiniteBidAsk) :
    BidAsk.process s o = BidAsk.cancelOrder o.side s o := by
  simp only [BidAsk.process, h]
  cases o.side <;> rfl

/-- **A market order** is processed as the reference does it, whatever room there is. -/
theorem step_market (h : View s L b) (ha : o.action = .execute) (ht : o.type = .market) :
    ∃ s' L', BidAsk.step s o = .ok (s', s'.toFeed.out) ∧ View s' L' (executeWith true b o).1 ∧
      s'.toFeed = (executeWith true b o).2.foldl Feed.emit s.toFeed.cleared := by
  obtain ⟨s', L', he, hv, hf⟩ :=
    execute_market isMarketable_decides (h.setFeed s.toFeed.cleared) ht
  exact ⟨s', L', step_of_process ((process_execute ha _).trans he), hv, hf⟩

/-- **One message**: for want of room the process is terminated or a remainder dropped; otherwise
the outcome is the reference's. -/
theorem step_cases (h : View s L b) (ha : Acceptable b o) :
    (¬ s.HasRoom ∧ o.action = .execute ∧ BidAsk.step s o = .error .terminate) ∨
    (¬ s.HasRoom ∧ o.action = .execute ∧ ∃ s' L', BidAsk.step s o = .ok (s', s'.toFeed.out) ∧
      View s' L' (dropWith (s.isMarketable o) b o).1 ∧
      s'.toFeed = (dropWith (s.isMarketable o) b o).2.foldl Feed.emit s.toFeed.cleared) ∨
    ∃ s' L', BidAsk.step s o = .ok (s', s'.toFeed.out) ∧
      View s' L' (processWith (s.isMarketable o) b o).1 ∧
      s'.toFeed = (processWith (s.isMarketable o) b o).2.foldl Feed.emit s.toFeed.cleared := by
  have h₀ := h.setFeed s.toFeed.cleared
  obtain ⟨s₀, hs₀⟩ : ∃ s₀, s₀ = s.setFeed s.toFeed.cleared := ⟨_, rfl⟩
  have hmk : s₀.isMarketable o = s.isMarketable o := by
    rw [hs₀, BidAsk.isMarketable, BidAsk.isMarketable, BidAsk.bestPrice_setFeed]
  have hroom : s₀.HasRoom ↔ s.HasRoom := by
    rw [hs₀, BidAsk.HasRoom, BidAsk.HasRoom, BidAsk.book_setFeed, BidAsk.store_setFeed]
  have hfeed : s₀.toFeed = s.toFeed.cleared := by rw [hs₀, BidAsk.toFeed_setFeed]
  rw [← hs₀] at h₀
  have hstep : ∀ {s'}, BidAsk.process s₀ o = .ok s' → BidAsk.step s o = .ok (s', s'.toFeed.out) :=
    fun hp => step_of_process (by rw [← hs₀]; exact hp)
  cases hact : o.action with
  | execute =>
    have hp : BidAsk.process s₀ o = BidAsk.executeOrderWith BidAsk.isMarketable s₀ o :=
      process_execute hact s₀
    have hw : processWith (s.isMarketable o) b o = executeWith (s₀.isMarketable o) b o := by
      simp only [processWith, hact, hmk]
    rcases execute_cases isMarketable_decides h₀ (ha.inner hact) (ha.fresh hact) with
      ⟨hr, he⟩ | ⟨hr, s', L', he, hv, hf⟩ | ⟨s', L', he, hv, hf⟩
    · refine .inl ⟨mt hroom.2 hr, rfl, ?_⟩
      rw [← hp, hs₀, Feed.cleared] at he
      simp only [BidAsk.step, he]
    · rw [hmk] at hv hf
      exact .inr (.inl ⟨mt hroom.2 hr, rfl, s', L', hstep (hp.trans he), hv, by rw [hf, hfeed]⟩)
    · refine .inr (.inr ⟨s', L', hstep (hp.trans he), ?_, ?_⟩)
      · rw [hw]; exact hv
      · rw [hw, hf, hfeed]
  | cancel =>
    have hp := process_cancel hact s₀
    have hw : processWith (s.isMarketable o) b o = cancel b o := by
      simp only [processWith, hact]
    obtain ⟨s', L', he, hv, hf⟩ := cancel_refines h₀ (ha.rightSide hact)
    refine .inr (.inr ⟨s', L', hstep (hp.trans he), ?_, ?_⟩)
    · rw [hw]; exact hv
    · rw [hw, hf, hfeed]

end

end Naoto.Engine
