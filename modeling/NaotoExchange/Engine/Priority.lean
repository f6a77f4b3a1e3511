import NaotoExchange.Engine.ZeroSum
import NaotoExchange.Engine.Proof.Tables

/-!
# Nobody jumps the queue

Price-time priority as a client understands it, without a reference engine: an order has priority
over another one of its side if its price is better, or the price is the same and it came in earlier
(`Precedes`, in terms of the messages only). The orders rest in that order, and a resting order is
filled only after all orders that have priority over it have been filled completely by the same
message (`run_in_turn`). That holds for every run that goes through, also when there is no memory
for the remainder of an order.
-/

namespace Naoto.Engine

open Reference Run

/-- The place of an order among the orders so far. -/
def arrival (msgs : List Order) (id : UInt32) : Nat := (executeIds msgs).idxOf id

/-- `a` has priority over `b`, both on side `sd`. -/
def Precedes (msgs : List Order) (sd : OrderSide) (a b : Order) : Prop :=
  (compareOf sd).comp a.price b.price = true ∨ a.price = b.price ∧
    arrival msgs a.id32 < arrival msgs b.id32

instance (msgs : List Order) (sd : OrderSide) (a b : Order) : Decidable (Precedes msgs sd a b) :=
  inferInstanceAs (Decidable (_ ∨ _))

/-- The orders rest by priority. -/
def Ranked (msgs : List Order) (b : Book) : Prop := ∀ sd, (b sd).Pairwise (Precedes msgs sd)

section
variable {msgs : List Order} {sd : OrderSide} {a b o r : Order} {q : List Order}

theorem arrival_append {id : UInt32} (h : id ∈ executeIds msgs) (more : List Order) :
    arrival (msgs ++ more) id = arrival msgs id := by
  rw [arrival, executeIds_append, List.idxOf_append_of_mem h]
  rfl

theorem arrival_lt_new {id : UInt32} (h : id ∈ executeIds msgs) (ha : o.action = .execute)
    (hnew : o.id32 ∉ executeIds msgs) : arrival (msgs ++ [o]) id < arrival
      (msgs ++ [o]) o.id32 := by
  have hlt : arrival msgs id < (executeIds msgs).length := List.idxOf_lt_length_iff.2 h
  have hlast : arrival (msgs ++ [o]) o.id32 = (executeIds msgs).length := by
    rw [arrival, executeIds_append, executeIds_of_execute ha, List.idxOf_append_of_notMem hnew,
      List.idxOf_cons_self, Nat.add_zero]
  rw [arrival_append h, hlast]
  exact hlt

/-- Of two orders that do not tie, the one that is not worse and came earlier has priority. -/
theorem precedes_of_not_worse (h : (compareOf sd).comp b.price a.price = false)
    (hearlier : arrival msgs a.id32 < arrival msgs b.id32) : Precedes msgs sd a b := by
  by_cases heq : a.price = b.price
  · exact .inr ⟨heq, hearlier⟩
  · exact .inl (Compare.comp_of_ne h (Ne.symm heq))

/-- An order that is better than another one is better than all behind it. -/
theorem comp_of_precedes (h : (compareOf sd).comp o.price a.price = true)
    (hp : Precedes msgs sd a b) : (compareOf sd).comp o.price b.price = true := by
  obtain hp | ⟨heq, -⟩ := hp
  · exact Compare.comp_trans h hp
  · rw [← heq]
    exact h

theorem ranked_enqueue (h : q.Pairwise (Precedes msgs sd))
    (hearlier : ∀ r ∈ q, arrival msgs r.id32 < arrival msgs o.id32) :
    (enqueue sd o q).Pairwise (Precedes msgs sd) := by
  induction q with
  | nil => exact List.pairwise_singleton _ _
  | cons r q ih =>
    obtain ⟨hr, hq⟩ := List.pairwise_cons.1 h
    rw [enqueue]
    split
    · next hbetter =>
      refine List.pairwise_cons.2 ⟨fun x hx => .inl ?_, h⟩
      obtain rfl | hx := List.mem_cons.1 hx
      · exact hbetter
      · exact comp_of_precedes hbetter (hr x hx)
    · next hnot =>
      refine List.pairwise_cons.2
        ⟨fun x hx => ?_, ih hq fun x hx => hearlier x (List.mem_cons_of_mem _ hx)⟩
      obtain rfl | hx := mem_enqueue.1 hx
      · exact precedes_of_not_worse (Bool.eq_false_iff.2 hnot) (hearlier r List.mem_cons_self)
      · exact hr x hx

/-- A sweep takes orders from the front, the last one perhaps in part. -/
theorem ranked_sweep {side : OrderSide} (h : q.Pairwise (Precedes msgs sd)) (o : Order)
    (locked : Int64) : (sweep side q o locked).queue.Pairwise (Precedes msgs sd) := by
  induction q generalizing o locked with
  | nil => exact List.Pairwise.nil
  | cons r q ih =>
    obtain ⟨hr, hq⟩ := List.pairwise_cons.1 h
    rw [sweep]
    split
    · simp only
      split
      · exact ih hq _ _
      · exact List.pairwise_cons.2 ⟨hr, hq⟩
    · exact h

end

/-! ## Messages keep the ranking -/

section
variable {msgs : List Order} {b : Book} {o a a' : Order} {sd : OrderSide}

/-- Messages behind do not change the ranking of known orders. -/
theorem Ranked.more (h : Ranked msgs b) (hk : Known msgs b) (more : List Order) :
    Ranked (msgs ++ more) b := by
  intro sd
  refine (h sd).imp_of_mem fun {x y} hx hy hp => ?_
  unfold Precedes
  rw [arrival_append (hk sd x hx), arrival_append (hk sd y hy)]
  exact hp

theorem Ranked.update (h : Ranked msgs b) {q : List Order} (hq : q.Pairwise (Precedes msgs sd)) :
    Ranked msgs (Function.update b sd q) := by
  intro sd'
  by_cases heq : sd' = sd
  · subst heq
    rwa [Function.update_self]
  · rw [Function.update_of_ne heq]
    exact h sd'

theorem Ranked.rest (h : Ranked msgs b)
    (hearlier : ∀ r ∈ b o.side, arrival msgs r.id32 < arrival msgs o.id32) :
    Ranked msgs (Reference.rest b o).1 :=
  h.update (ranked_enqueue (h o.side) hearlier)

theorem Ranked.sweep (h : Ranked msgs b) (o : Order) (locked : Int64) :
    Ranked msgs (Function.update b o.side.opp
      (Reference.sweep o.side (b o.side.opp) o locked).queue) :=
  h.update (ranked_sweep (h o.side.opp) o locked)

theorem Known.earlier (hk : Known msgs b) (hv : Valid (msgs ++ [o])) (ha : o.action = .execute)
    (sd : OrderSide) : ∀ r ∈ b sd, arrival (msgs ++ [o]) r.id32 < arrival (msgs ++ [o]) o.id32 := by
  have hids := hv.ids
  rw [executeIds_append, executeIds_of_execute ha] at hids
  have hnew : o.id32 ∉ executeIds msgs := fun hmem => (List.nodup_append.1 hids).2.2 _ hmem _
    (by simp) rfl
  exact fun r hr => arrival_lt_new (hk sd r hr) ha hnew

theorem Ranked.execute (h : Ranked msgs b) (hk : Known msgs b) (hv : Valid (msgs ++ [o]))
    (ha : o.action = .execute) : Ranked (msgs ++ [o]) (Reference.execute b o).1 := by
  have hmore := h.more hk [o]
  have hearlier := hk.earlier hv ha
  have horder := sweep_order o.side (b o.side.opp) o (reserve o.side o.amount o.price)
  have hswept := hmore.sweep o (reserve o.side o.amount o.price)
  simp only [Reference.execute]
  generalize Reference.sweep o.side (b o.side.opp) o (reserve o.side o.amount o.price) = w
    at horder hswept
  unfold settle
  split
  · split
    · refine hswept.rest fun r hr => ?_
      have hside : w.order.side = o.side := by rw [horder, Order.side_withAmount]
      rw [hside, Function.update_of_ne (OrderSide.ne_opp o.side)] at hr
      rw [horder]
      exact hearlier o.side r hr
    · exact hswept
  · exact hswept

theorem Ranked.process (h : Ranked msgs b) (hk : Known msgs b) (hv : Valid (msgs ++ [o]))
    (m : Bool) : Ranked (msgs ++ [o]) (processWith m b o).1 := by
  unfold processWith
  cases ha : o.action with
  | execute =>
    cases m with
    | true => exact h.execute hk hv ha
    | false => exact (h.more hk [o]).rest (hk.earlier hv ha o.side)
  | cancel =>
    simp only [Reference.cancel]
    split
    · exact h.more hk [o]
    · next r _ => exact (h.more hk [o]).update ((h.more hk [o] r.side).sublist List.filter_sublist)

theorem Ranked.drop (h : Ranked msgs b) (hk : Known msgs b) (m : Bool) : Ranked (msgs ++ [o])
    (dropWith m b o).1 := by
  cases m with
  | true => exact (h.more hk [o]).sweep o _
  | false => exact h.more hk [o]

theorem Precedes.asymm (h : Precedes msgs sd a a') (h' : Precedes msgs sd a' a) : False := by
  obtain h | ⟨heq, h⟩ := h <;> obtain h' | ⟨heq', h'⟩ := h'
  · exact absurd (Compare.comp_asymm h) (by rw [h']; exact Bool.noConfusion)
  · rw [heq', Compare.comp_irrefl] at h
    cases h
  · rw [heq, Compare.comp_irrefl] at h'
    cases h'
  · exact absurd h (Nat.lt_asymm h')

/-- The orders ahead of one are those that have priority over it. -/
theorem mem_before {q before after : List Order} (h : q.Pairwise (Precedes msgs sd))
    (hq : q = before ++ a' :: after) (ha : a ∈ q) (hp : Precedes msgs sd a a') : a ∈ before := by
  rw [hq] at h ha
  obtain ⟨-, hrest, -⟩ := List.pairwise_append.1 h
  obtain ha | ha := List.mem_append.1 ha
  · exact ha
  · obtain rfl | ha := List.mem_cons.1 ha
    · exact (hp.asymm hp).elim
    · exact (hp.asymm ((List.pairwise_cons.1 hrest).1 a ha)).elim

end

/-! ## Fills come in turn -/

/-- **A sweep takes the orders one after the other**, each completely before the next one. -/
theorem sweep_in_turn (sd : OrderSide) (q : List Order) (o : Order) (locked : Int64)
    {pre : List Event} {e : Event}
    {post : List Event} (h : (sweep sd q o locked).events = pre ++ e :: post) :
    ∃ before r after t a depth, q = before ++ r :: after ∧ e = .trade sd a (less r t) t depth ∧
      ∀ x ∈ before, ∃ t a depth, .trade sd a (less x t) t depth ∈ pre ∧ (less x t).amount = 0 := by
  induction q generalizing o locked pre with
  | nil => simp [sweep] at h
  | cons r q ih =>
    rw [sweep] at h
    split at h
    · simp only at h
      split at h
      · next hfilled =>
        -- the first order is gone, and the others follow
        cases pre with
        | nil =>
          rw [List.nil_append, List.cons.injEq] at h
          exact ⟨[], r, q, _, _, _, rfl, h.1.symm, by simp⟩
        | cons e₀ pre =>
          rw [List.cons_append, List.cons.injEq] at h
          obtain ⟨before, r', after, t, a, depth, rfl, he, hbefore⟩ := ih _ _ h.2
          refine ⟨r :: before, r', after, t, a, depth, rfl, he, fun x hx => ?_⟩
          obtain rfl | hx := List.mem_cons.1 hx
          · exact ⟨_, _, _, List.mem_cons.2 (.inl h.1), hfilled⟩
          · obtain ⟨t, a, depth, hmem, hzero⟩ := hbefore x hx
            exact ⟨t, a, depth, List.mem_cons_of_mem _ hmem, hzero⟩
      · -- the order was used up
        obtain ⟨rfl, he⟩ : pre = [] ∧ _ = e := by
          cases pre with
          | nil => exact ⟨rfl, (List.cons.inj h).1⟩
          | cons e₀ pre => simp at h
        exact ⟨[], r, q, _, _, _, rfl, he.symm, by simp⟩
    · simp at h

/-- The element of a list that a part of its image comes from, and what comes before it. -/
theorem exists_of_flatMap_eq {α β : Type} {f : α → List β} {l : List α} {as bs : List β} {x : β}
    (h : l.flatMap f = as ++ x :: bs) :
    ∃ pre a post, l = pre ++ a :: post ∧ x ∈ f a ∧ ∀ a₀ ∈ pre, ∀ y ∈ f a₀, y ∈ as := by
  induction l generalizing as with
  | nil => simp at h
  | cons a l ih =>
    rw [List.flatMap_cons] at h
    -- `x` is in the image of the first element, or all of that image comes before it
    have hcases : (∃ bs', f a = as ++ x :: bs') ∨ ∃ as', as = f a ++ as' ∧
        l.flatMap f = as' ++ x :: bs := by
      obtain ⟨as', has, hrest⟩ | ⟨bs', hfirst, hrest⟩ := List.append_eq_append_iff.1 h
      · exact .inr ⟨as', has, hrest⟩
      · cases bs' with
        | nil => exact .inr ⟨[], by simpa using hfirst.symm, hrest.symm⟩
        | cons y bs' =>
          rw [List.cons_append, List.cons.injEq] at hrest
          exact .inl ⟨bs', by rw [hfirst, hrest.1]⟩
    obtain ⟨bs', hfirst⟩ | ⟨as', rfl, hrest⟩ := hcases
    · exact ⟨[], a, l, rfl, by simp [hfirst], by simp⟩
    · obtain ⟨pre, a', post, rfl, hx, hpre⟩ := ih hrest
      refine ⟨a :: pre, a', post, rfl, hx, fun a₀ ha₀ y hy => List.mem_append.2 ?_⟩
      obtain rfl | ha₀ := List.mem_cons.1 ha₀
      · exact .inl hy
      · exact .inr (hpre a₀ ha₀ y hy)

section
variable {b : Book} {o older younger : Order} {asset : UInt16} {es : List Event}

/-- The events are the trades of a sweep, if there was one, and then others. -/
def Sweeps (b : Book) (o : Order) (es : List Event) : Prop :=
  ∃ last, (o.action = .execute ∧
    es = (sweep o.side (b o.side.opp) o (reserve o.side o.amount o.price)).events ++ last ∨
    es = last) ∧ ∀ e ∈ last, e.isTrade = false

theorem sweeps_process (m : Bool) (b : Book) (o : Order) : Sweeps b o (processWith m b o).2 := by
  unfold processWith
  cases ha : o.action with
  | cancel =>
    refine ⟨_, .inr rfl, fun e he => ?_⟩
    simp only [Reference.cancel] at he
    split at he
    · rw [List.mem_singleton.1 he]
      rfl
    · rw [List.mem_singleton.1 he]
      rfl
  | execute =>
    cases m with
    | true => exact ⟨_, .inl ⟨ha, rfl⟩, (settle_events _ _).2⟩
    | false =>
      refine ⟨_, .inr rfl, fun e he => ?_⟩
      rw [List.mem_singleton.1 he]
      rfl

theorem sweeps_drop (m : Bool) (b : Book) (ha : o.action = .execute) :
    Sweeps b o (dropWith m b o).2 := by
  cases m with
  | true => exact ⟨[], .inl ⟨ha, (List.append_nil _).symm⟩, by simp⟩
  | false => exact ⟨[], .inr rfl, by simp⟩

/-- A fill is one of the order that is processed, or of a resting order when it is its turn. -/
theorem Sweeps.in_turn (h : Sweeps b o es) {r : OrderStateReport} {as bs : List OrderStateReport}
    (hreports : es.flatMap (Event.reports asset) = as ++ r :: bs) (hfill : isFill r = true) :
    o.action = .execute ∧ reportParty r = orderParty o ∨ ∃ before offer after,
    b o.side.opp = before ++ offer :: after ∧
      reportParty r = orderParty offer ∧
      ∀ x ∈ before, ∃ r₀ ∈ as, reportParty r₀ = orderParty x ∧ r₀.state = .fill := by
  obtain ⟨last, hes, hlast⟩ := h
  obtain ⟨pre, e, post, hsplit, hr, hpre⟩ := exists_of_flatMap_eq hreports
  have hnot : e ∉ last := fun hmem => by
    obtain ⟨r', he, hplain⟩ := plain_reports asset (hlast e hmem)
    rw [he, List.mem_singleton] at hr
    rw [hr, hplain] at hfill
    cases hfill
  have hsweep : o.action = .execute ∧ ∃ post',
      (sweep o.side (b o.side.opp) o (reserve o.side o.amount o.price)).events =
      pre ++ e :: post' := by
    obtain ⟨ha, hes⟩ | hes := hes
    · rw [hes] at hsplit
      obtain ⟨pre', -, hrest⟩ | ⟨post', hevents, hrest⟩ := List.append_eq_append_iff.1 hsplit
      · exact absurd (by rw [hrest]; simp) hnot
      · cases post' with
        | nil => exact absurd (by rw [List.nil_append] at hrest; simp [← hrest]) hnot
        | cons e' post' =>
          rw [List.cons_append, List.cons.injEq] at hrest
          exact ⟨ha, post', by rw [hevents, hrest.1]⟩
    · exact absurd (by rw [← hes, hsplit]; simp) hnot
  obtain ⟨ha, post', hevents⟩ := hsweep
  obtain ⟨before, offer, after, t, a, depth, hqueue, rfl, hbefore⟩ := sweep_in_turn _ _ _ _ hevents
  obtain ⟨offer', -, left, quantity, depth', heq, -⟩ := sweep_tradesWith (b o.side.opp) o
    (reserve o.side o.amount o.price) _ (hevents ▸ List.mem_append_right _ List.mem_cons_self)
  simp only [Event.reports, List.mem_cons, List.not_mem_nil, or_false] at hr
  obtain rfl | rfl := hr
  · rw [Event.trade.injEq] at heq
    exact .inl ⟨ha, by rw [heq.2.1]; rfl⟩
  · refine .inr ⟨before, offer, after, hqueue, rfl, fun x hx => ?_⟩
    obtain ⟨t', a', depth'', hmem, hzero⟩ := hbefore x hx
    refine ⟨fillOf asset o.side.opp t' x.price (less x t'), hpre _ hmem _ ?_, rfl, ?_⟩
    · exact List.mem_cons_of_mem _ List.mem_cons_self
    · simp [fillOf, hzero]

end

/-! ## Runs -/

section
variable {s₀ s s' : FiniteBidAsk} {L₀ : Levels} {msgs : List Order} {o : Order}
  {outs : List BidAsk.Out} {out : BidAsk.Out}

/-- In every run that goes through, the orders rest by priority. -/
theorem run_ranked (h₀ : View s₀ L₀ empty) (hv : Valid msgs)
    (hside : Along NamesSide BidAsk.step s₀ msgs)
    (hrun : BidAsk.run s₀ msgs = .ok (s, outs)) :
    ∃ L b, View s L b ∧ Known msgs b ∧ Ranked msgs b := by
  refine run_invariant (P := fun xs s _ => ∃ L b, View s L b ∧ Known xs b ∧ Ranked xs b)
    ⟨L₀, empty, h₀, known_empty, fun sd => List.Pairwise.nil⟩ hside ?_ hrun
  rintro xs o s bs s' out hp - ⟨L, b, hview, hk, hranked⟩ hs hstep
  have hvalid := hv.restrict hp
  obtain ⟨-, -, he⟩ | ⟨-, -, s₁, L₁, he, hv₁, -⟩ | ⟨s₁, L₁, he, hv₁, -⟩ :=
    step_cases hview (acceptable hview hk hvalid hs)
  · rw [he] at hstep
    cases hstep
  · rw [he] at hstep
    cases hstep
    exact ⟨L₁, _, hv₁, hk.mono (within_dropWith _ b o) _, hranked.drop hk _⟩
  · rw [he] at hstep
    cases hstep
    exact ⟨L₁, _, hv₁, hk.process _, hranked.process hk hvalid _⟩

/-- What a message reports is told by the events of a sweep. -/
theorem step_sweeps {L : Levels} {b : Book} (hview : View s L b) (hacc : Acceptable b o)
    (hstep : BidAsk.step s o = .ok (s', out)) :
    ∃ es, Sweeps b o es ∧ Tells s.marketAssetId.toUInt16 out es := by
  obtain ⟨-, -, he⟩ | ⟨-, ha, s₁, L₁, he, -, hfeed⟩ | ⟨s₁, L₁, he, -, hfeed⟩ :=
    step_cases hview hacc
  · rw [he] at hstep
    cases hstep
  · rw [he] at hstep
    cases hstep
    have htells := tells_emit s.toFeed (dropWith (s.isMarketable o) b o).2
    rw [← hfeed] at htells
    exact ⟨_, sweeps_drop _ b ha, htells⟩
  · rw [he] at hstep
    cases hstep
    have htells := tells_emit s.toFeed (processWith (s.isMarketable o) b o).2
    rw [← hfeed] at htells
    exact ⟨_, sweeps_process _ b o, htells⟩

end

/-- The fills of one message respect the order of the queue, over finite maps. -/
theorem View.in_turn {msgs : List Order} {o : Order} {s s' : FiniteBidAsk} {L : Levels} {b : Book}
    {out : BidAsk.Out} (hview : View s L b) (hacc : Acceptable b o) (hranked : Ranked msgs b)
    (hstep : BidAsk.step s o = .ok (s', out)) :
    ∀ sd, ∀ older ∈ b sd, ∀ younger ∈ b sd, Precedes msgs sd older younger →
      ∀ as r bs, out.reports = as ++ r :: bs → isFill r = true →
      reportParty r = orderParty younger →
        ∃ r₀ ∈ as, reportParty r₀ = orderParty older ∧ r₀.state = .fill := by
  obtain ⟨es, hsweeps, htells⟩ := step_sweeps hview hacc hstep
  intro sd older holder younger hyounger hprecedes as r bs hout hfill hparty
  have hsplit := htells.reports
  rw [hout, List.map_append, List.map_cons] at hsplit
  obtain ⟨ha, hown⟩ | ⟨before, offer, after, hqueue, hoffer, hbefore⟩ :=
    hsweeps.in_turn hsplit.symm hfill
  · -- the order that is processed has a new id
    exact absurd (congrArg Party.orderId (hparty.symm.trans hown))
      (hacc.fresh ha sd younger hyounger)
  · have hmem : offer ∈ b o.side.opp := hqueue ▸ List.mem_append_right _ List.mem_cons_self
    obtain rfl := hview.order_unique hyounger hmem
      (congrArg Party.orderId (hparty.symm.trans hoffer))
    obtain rfl := (hview.side_eq hyounger).symm.trans (hview.side_eq hmem)
    obtain ⟨r₀, hr₀, hparty₀, hstate⟩ :=
      hbefore older (mem_before (hranked _) hqueue holder hprecedes)
    obtain ⟨r₁, hr₁, rfl⟩ := List.mem_map.1 hr₀
    exact ⟨r₁, hr₁, hparty₀, hstate⟩

/-- **Nobody jumps the queue.** After any run from the empty book the orders of each side rest by
priority, as the messages say. If the next message fills a resting order, then it has before that
filled completely every order that has priority over it. -/
theorem run_in_turn (assetId : UInt32) (initialPrice : Int64) (reportSeq bookSeq : UInt32)
    (bidSeed askSeed : UInt64) {msgs : List Order} {o : Order} {s s' : FlatBidAsk}
    {outs : List BidAsk.Out} {out : BidAsk.Out} (hv : Valid (msgs ++ [o]))
    (hside : Along NamesSide BidAsk.step
      (BidAsk.newFlat assetId initialPrice reportSeq bookSeq bidSeed askSeed) (msgs ++ [o]))
    (hhome : Along RoomAtHome BidAsk.step
      (BidAsk.newFlat assetId initialPrice reportSeq bookSeq bidSeed askSeed) (msgs ++ [o]))
    (hrun : BidAsk.run (BidAsk.newFlat assetId initialPrice reportSeq bookSeq bidSeed askSeed)
      msgs = .ok (s, outs))
    (hstep : BidAsk.step s o = .ok (s', out)) :
    (∀ sd, (s.restingOrders sd).Pairwise (Precedes msgs sd)) ∧
    ∀ sd, ∀ older ∈ s.restingOrders sd, ∀ younger ∈ s.restingOrders sd,
      Precedes msgs sd older younger →
      ∀ as r bs, out.reports = as ++ r :: bs → isFill r = true →
      reportParty r = orderParty younger →
        ∃ r₀ ∈ as, reportParty r₀ = orderParty older ∧ r₀.state = .fill := by
  have hmsgs : msgs <+: msgs ++ [o] := List.prefix_append _ _
  have hvm := hv.restrict hmsgs
  have hsm := hside.restrict hmsgs
  have hhm := hhome.restrict hmsgs
  obtain ⟨hrun', hmirror⟩ :=
    run_finite assetId initialPrice reportSeq bookSeq bidSeed askSeed hvm hsm hhm hrun
  have hside' := namesSide_finite assetId initialPrice reportSeq bookSeq bidSeed askSeed hv
    hside hhome
  obtain ⟨L, b, hview, hk, hranked⟩ :=
    run_ranked (new_view assetId initialPrice reportSeq bookSeq bidSeed askSeed) hvm
      (hside'.restrict hmsgs) hrun'
  have hacc := acceptable hview hk hv (hside' msgs o (List.prefix_refl _) s.finite outs hrun')
  have hstep' :=
    hmirror.step_finite (hhome msgs o (List.prefix_refl _) s outs hrun) hstep
  have hturn := hview.in_turn hacc hranked hstep'
  rw [← hview.restingOrders, BidAsk.restingOrders_finite] at hturn hranked
  exact ⟨hranked, hturn⟩

/-- Two asks at 100 behind one at 101, which came first. -/
def asksRun : List Order :=
  [⟨101, 1, 0, 7, 5, 1, .limit, .sell, .execute⟩,
   ⟨100, 2, 0, 8, 3, 1, .limit, .sell, .execute⟩,
   ⟨100, 3, 0, 9, 4, 1, .limit, .sell, .execute⟩]

/-- A bid for 5 at 101 takes the first ask at 100 and then part of the second one. -/
theorem run_in_turn_asks :
    ∃ s outs s' out, BidAsk.run (BidAsk.newFlat 1 100 0 0 3 5) asksRun = .ok (s, outs) ∧
      BidAsk.step s ⟨101, 4, 0, 6, 5, 1, .limit, .buy, .execute⟩ = .ok (s', out) ∧
      (s.restingOrders .sell).map Order.id32 = [2, 3, 1] ∧
      (s.restingOrders .sell).Pairwise (Precedes asksRun .sell) ∧
      ∃ as r bs, out.reports = as ++ r :: bs ∧ reportParty r = ⟨9, 3⟩ ∧ r.state = .partialFill ∧
        ∃ r₀ ∈ as, reportParty r₀ = ⟨8, 2⟩ ∧ r₀.state = .fill := by
  obtain ⟨s, outs, hrun, hrest, hstep⟩ := exists_of_succeeds
    (P := fun s _ => s.restingOrders .sell = [⟨100, 2, 0, 8, 3, 1, .limit, .sell, .execute⟩,
        ⟨100, 3, 0, 9, 4, 1, .limit, .sell, .execute⟩,
        ⟨101, 1, 0, 7, 5, 1, .limit, .sell, .execute⟩] ∧
      succeeds (BidAsk.step s ⟨101, 4, 0, 6, 5, 1, .limit, .buy, .execute⟩) (fun x => decide
        (x.2.reports.map (fun r => (reportParty r, r.state)) =
          [(⟨6, 4⟩, .partialFill), (⟨8, 2⟩, .fill), (⟨6, 4⟩, .fill)] ++ [(⟨9, 3⟩, .partialFill)])) =
          true)
    (r := BidAsk.run (BidAsk.newFlat 1 100 0 0 3 5) asksRun) (by decide +kernel)
  obtain ⟨s', out, hstep, hmap⟩ := exists_of_succeeds
    (P := fun _ (out : BidAsk.Out) => out.reports.map (fun r => (reportParty r, r.state)) =
      [(⟨6, 4⟩, .partialFill), (⟨8, 2⟩, .fill), (⟨6, 4⟩, .fill)] ++ [(⟨9, 3⟩, .partialFill)]) hstep
  obtain ⟨as, rest, hout, -, hlast⟩ := List.map_eq_append_iff.1 hmap
  obtain ⟨r, bs, rfl, hr, -⟩ := List.map_eq_cons_iff.1 hlast
  obtain ⟨hparty, hstate⟩ := Prod.mk.inj hr
  obtain ⟨hranked, hturn⟩ :=
    run_in_turn 1 100 0 0 3 5 (o := ⟨101, 4, 0, 6, 5, 1, .limit, .buy, .execute⟩)
    (by decide +kernel) (by decide +kernel) (by decide +kernel) hrun hstep
  refine ⟨s, outs, s', out, hrun,
    hstep, by rw [hrest]; decide, hranked .sell, as, r, bs, hout, hparty, hstate, ?_⟩
  exact hturn .sell ⟨100, 2, 0, 8, 3, 1, .limit, .sell, .execute⟩ (by rw [hrest]; decide)
    ⟨100, 3, 0, 9, 4, 1, .limit, .sell, .execute⟩ (by rw [hrest]; decide) (by decide) as r bs hout
    (by rw [isFill, hstate]; rfl) hparty

end Naoto.Engine
