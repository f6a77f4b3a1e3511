import NaotoExchange.Engine.Proof.View

/-!
# The sweep

`FillBuyOrder` and `FillSellOrder` walk the opposite side with two nested loops that delete nodes
and levels on the way; the reference walks one list. The loops are looked at through versions that
keep a log of their iterations (`fillLevelLog`, `fillLevelsLog`; `fillLevels_eq_log` drops it).
`Round` says what one iteration of the inner loop does, `SweepInvariant` what has to be shown for a
property of a whole sweep, and `fillLevelsLog_rule` that it then holds at the end;
`fillLevels_sweep` is the rule for being on the way of the reference's sweep (`Progress`).

All is proved for every decision `mk` that never turns down an order that crosses the best
opposite price (`Decides`): the cached `isMarketable` is one, and so is the decision from the best
level that is really there.
-/

namespace Naoto.Engine

open Reference

/-! ## The reference's sweep, step by step -/

/-- More happened before. -/
def Reference.Swept.prepend (w : Swept) (es : List Event) : Swept :=
  { w with events := es ++ w.events }

section
variable {sd : OrderSide} {r o : Order} {q : List Order} {locked : Int64}

theorem sweep_zero (h : o.amount = 0) : ∀ q : List Order, sweep sd q o locked = ⟨q, o, locked, []⟩
  | [] => rfl
  | r :: q => by
    rw [sweep, if_neg]
    rw [h]
    simp

theorem sweep_stop (h : ∀ r q', q = r :: q' → crosses sd r.price o.price = false) :
    sweep sd q o locked = ⟨q, o, locked, []⟩ := by
  cases q with
  | nil => rfl
  | cons r q =>
    rw [sweep, if_neg]
    rw [h r q rfl]
    simp

/-- If a match leaves something of the resting order, the incoming one is used up. -/
theorem less_amount_zero (h : (less r (traded o r)).amount ≠ 0) :
    (less o (traded o r)).amount = 0 := by
  unfold less traded at *
  simp only at *
  split at h
  · next hlt => simp [hlt]
  · simp at h

theorem toNat_traded (o r : Order) : (traded o r).toNat = min o.amount.toNat r.amount.toNat := by
  unfold traded
  split
  · next h => have := UInt32.lt_iff_toNat_lt.1 h; omega
  · next h => have := mt UInt32.lt_iff_toNat_lt.2 h; omega

theorem toNat_less (o r : Order) :
    (less o (traded o r)).amount.toNat = o.amount.toNat - min o.amount.toNat r.amount.toNat := by
  have hle : traded o r ≤ o.amount := by
    rw [UInt32.le_iff_toNat_le, toNat_traded]
    omega
  show (o.amount - traded o r).toNat = _
  rw [UInt32.toNat_sub_of_le _ _ hle, toNat_traded]

/-- The event of a match with the head of the queue. -/
def tradeEvent (sd : OrderSide) (o r : Order) (q : List Order) : Event :=
  .trade sd (less o (traded o r)) (less r (traded o r)) (traded o r)
    (depthAt r.price (less r (traded o r) :: q))

/-- The queue after a match with its head. -/
def afterTrade (o r : Order) (q : List Order) : List Order :=
  if (less r (traded o r)).amount = 0 then q else less r (traded o r) :: q

variable (q locked) in
theorem sweep_step (h0 : 0 < o.amount) (hc : crosses sd r.price o.price = true) :
    sweep sd (r :: q) o locked =
      (sweep sd (afterTrade o r q) (less o (traded o r))
        (locked + soldLeg sd (traded o r) r.price)).prepend [tradeEvent sd o r q] := by
  rw [sweep, if_pos ⟨h0, hc⟩]
  unfold afterTrade
  by_cases hz : (less r (traded o r)).amount = 0
  · simp only [hz, if_true]
    rfl
  · simp only [hz, if_false]
    rw [sweep_zero (less_amount_zero hz)]
    rfl

end

theorem sweep_induction (sd : OrderSide) {P : List Order → Order → Int64 → Swept → Prop}
    (stop : ∀ q o locked, P q o locked ⟨q, o, locked, []⟩)
    (trade : ∀ r q o locked w, 0 < o.amount → crosses sd r.price o.price = true →
      P (afterTrade o r q) (less o (traded o r)) (locked + soldLeg sd (traded o r) r.price) w →
      P (r :: q) o locked (w.prepend [tradeEvent sd o r q])) (q : List Order) :
    ∀ (o : Order) (locked : Int64), P q o locked (sweep sd q o locked) := by
  induction q with
  | nil => exact fun o locked => stop [] o locked
  | cons r q ih =>
    intro o locked
    by_cases hc : 0 < o.amount ∧ crosses sd r.price o.price = true
    · rw [sweep_step q locked hc.1 hc.2]
      apply trade r q o locked _ hc.1 hc.2
      unfold afterTrade
      by_cases hz : (less r (traded o r)).amount = 0
      · rw [if_pos hz]
        exact ih _ _
      · -- the order is used up
        rw [if_neg hz, sweep_zero (less_amount_zero hz)]
        exact stop _ _ _
    · rw [sweep, if_neg hc]
      exact stop _ _ _

/-! ## Decisions -/

/-- The decision never turns down a market order or an order that crosses the best opposite
price. -/
structure Decides (mk : FiniteBidAsk → Order → Bool) : Prop where
  market : ∀ {s o}, o.type = .market → mk s o = true
  crossing : ∀ {s L b o r q}, View s L b → b o.side.opp = r :: q →
    crosses o.side r.price o.price = true → mk s o = true

/-- A price that is not worse than a crossing one crosses. -/
theorem crosses_of_comp {sd : OrderSide} {p best limit : Int64}
    (h : (compareOf sd.opp).comp p best = false) (hc : crosses sd p limit = true) :
    crosses sd best limit = true := by
  cases sd with
  | buy =>
    simp only [OrderSide.opp, compareOf, Compare.comp, decide_eq_false_iff_not, not_lt, crosses,
      decide_eq_true_eq] at *
    exact le_trans h hc
  | sell =>
    simp only [OrderSide.opp, compareOf, Compare.comp, decide_eq_false_iff_not, not_lt, crosses,
      decide_eq_true_eq] at *
    exact le_trans hc h

theorem isMarketable_decides : Decides BidAsk.isMarketable where
  market := by
    intro s o h
    simp [BidAsk.isMarketable, h]
  crossing := by
    intro s L b o r q hv hb hc
    have := crosses_of_comp (hv.best o.side.opp r (by rw [hb]; simp)) hc
    simp [BidAsk.isMarketable, this]

theorem View.head_level {s : FiniteBidAsk} {L : Levels} {b : Book} {sd : OrderSide} {r : Order}
    {q : List Order} (h : View s L b) (hb : b sd = r :: q) :
    ∃ l ls n ns, L sd = l :: ls ∧ l.nodes = n :: ns ∧ r.price = l.price := by
  cases hL : L sd with
  | nil =>
    have := h.queue sd
    unfold Levels.queue at this
    rw [hL, hb] at this
    simp at this
  | cons l ls =>
    cases hn : l.nodes with
    | nil => exact absurd hn (h.full sd l (by rw [hL]; simp))
    | cons n ns =>
      have hc := h.queue_cons hL hn
      rw [hb, List.cons.injEq] at hc
      refine ⟨l, ls, n, ns, rfl, hn, ?_⟩
      rw [hc.1]
      exact ((h.rep.level sd l (by rw [hL]; simp)).orders n (by rw [hn]; simp)).2

theorem isMarketableExact_decides : Decides BidAsk.isMarketableExact where
  market := by
    intro s o h
    simp [BidAsk.isMarketableExact, h]
  crossing := by
    intro s L b o r q hv hb hc
    obtain ⟨l, ls, n, ns, hL, -, hp⟩ := hv.head_level hb
    have hbest := hv.rep.getBestLevel o.side.opp
    have hlp := (hv.rep.level o.side.opp l (by rw [hL]; simp)).price
    rw [hL] at hbest
    simp only [List.head?_cons, Option.map_some] at hbest
    simp only [BidAsk.isMarketableExact, hbest, hlp, ← hp, hc, Bool.or_true]

/-! ## The loops -/

/-- What a loop of the sweep has done, in terms of the reference: its events have been pushed, and
sweeping from where it stopped completes the sweep from where it began. -/
structure Progress (sd : OrderSide) (s : FiniteBidAsk) (L : Levels) (b : Book) (o : Order)
    (locked : Int64)
    (s' : FiniteBidAsk) (L' : Levels) (q' : List Order) (o' : Order) (locked' : Int64) : Prop where
  view : View s' L' (Function.update b sd.opp q')
  own : L' sd = L sd
  levels : (L' sd.opp).length ≤ (L sd.opp).length
  order : o' = { o with amount := o'.amount }
  emits : ∃ es, s'.toFeed = es.foldl Feed.emit s.toFeed ∧
    sweep sd (b sd.opp) o locked = (sweep sd q' o' locked').prepend es

section
variable {sd : OrderSide} {s s₁ s₂ : FiniteBidAsk} {L L₁ L₂ : Levels} {b : Book} {o o₁ o₂ : Order}
  {locked k₁ k₂ : Int64} {q₁ q₂ : List Order}

theorem Progress.refl (h : View s L b) :
    Progress sd s L b o locked s L (b sd.opp) o locked where
  view := by rw [Function.update_eq_self]; exact h
  own := rfl
  levels := Nat.le_refl _
  order := rfl
  emits := ⟨[], rfl, rfl⟩

theorem Progress.trans (h₁ : Progress sd s L b o locked s₁ L₁ q₁ o₁ k₁)
    (h₂ : Progress sd s₁ L₁ (Function.update b sd.opp q₁) o₁ k₁ s₂ L₂ q₂ o₂ k₂) :
    Progress sd s L b o locked s₂ L₂ q₂ o₂ k₂ where
  view := by
    have := h₂.view
    rwa [Function.update_idem] at this
  own := h₂.own.trans h₁.own
  levels := Nat.le_trans h₂.levels h₁.levels
  order := by
    rw [h₂.order, h₁.order]
  emits := by
    obtain ⟨es₁, hf₁, hw₁⟩ := h₁.emits
    obtain ⟨es₂, hf₂, hw₂⟩ := h₂.emits
    rw [Function.update_self] at hw₂
    refine ⟨es₁ ++ es₂, by rw [hf₂, hf₁, List.foldl_append], ?_⟩
    rw [hw₁, hw₂]
    simp [Swept.prepend]

/-- The cached price may be replaced by the best level's. -/
theorem View.setBestPrice (h : View s L b) {l : LevelRep} {ls : List LevelRep}
    (hL : L sd = l :: ls) : View (s.setBestPrice l.price sd) L b := by
  refine ⟨by simpa using h.rep, h.full, by simpa using h.queue, fun sd' r hr => ?_⟩
  rw [BidAsk.bestPrice_setBestPrice]
  rcases OrderSide.eq_or_eq_opp sd sd' with rfl | rfl
  · rw [Function.update_self]
    rw [h.queue sd'] at hr
    obtain ⟨n, hn, rfl⟩ := List.mem_map.1 hr
    obtain ⟨m, hm, hmn⟩ := Levels.mem_queue.1 hn
    rw [((h.rep.level sd' m hm).orders n hmn).2]
    have hsort := h.rep.sorted sd'
    rw [hL] at hsort hm
    rcases List.mem_cons.1 hm with rfl | hm
    · rw [Compare.comp_irrefl]
    · exact Compare.comp_asymm ((List.pairwise_cons.1 hsort).1 m hm)
  · rw [Function.update_of_ne (OrderSide.opp_ne sd)]
    exact h.best _ r hr

end

/-! ## The loops with a log -/

/-- The body of the inner loop: a match, after which an offer that is used up leaves the book. The
last component is the offer to go on with. -/
def BidAsk.fillOffer (sd : OrderSide) (s : FiniteBidAsk) (o : Order) (totalLocked : Int64)
    (bestLevel bestOffer : Nat) : Except Fault (FiniteBidAsk × Order × Int64 × Option Nat) :=
  let (s, o, totalLocked) := s.matchOffer sd o totalLocked bestLevel bestOffer
  if (s.store.node bestOffer).order.amount = 0 then
    let next := (s.store.node bestOffer).next
    match (s.book sd.opp).deleteOrder (compareOf sd.opp) s.store bestOffer with
    | .error e => .error e
    | .ok (_, b, st) => .ok ((s.setStore st).setBook b sd.opp, o, totalLocked, next)
  else .ok (s, o, totalLocked, some bestOffer)

/-- One iteration of the inner loop: the engine and the order before and after it. -/
structure Iteration where
  start : FiniteBidAsk × Order
  stop : FiniteBidAsk × Order

/-- One iteration of the outer loop that enters the inner one. -/
structure Visit where
  start : FiniteBidAsk × Order
  iterations : List Iteration
  stop : FiniteBidAsk × Order

/-- `fillLevel` with its iterations. -/
def BidAsk.fillLevelLog (mk : FiniteBidAsk → Order → Bool) (sd : OrderSide) (bestLevel : Nat) :
    Nat → FiniteBidAsk → Order → Int64 → Option Nat →
      Except Fault ((FiniteBidAsk × Order × Int64) × List Iteration)
  | 0, _, _, _, _ => .error .outOfFuel
  | _ + 1, s, o, totalLocked, none => .ok ((s, o, totalLocked), [])
  | fuel + 1, s, o, totalLocked, some bestOffer =>
    if 0 < o.amount ∧ mk s o = true then
      match s.fillOffer sd o totalLocked bestLevel bestOffer with
      | .error e => .error e
      | .ok (s', o', totalLocked', next) =>
        (fillLevelLog mk sd bestLevel fuel s' o' totalLocked' next).map fun r =>
          (r.1, ⟨(s, o), (s', o')⟩ :: r.2)
    else .ok ((s, o, totalLocked), [])

/-- `fillLevels` with its iterations. -/
def BidAsk.fillLevelsLog (mk : FiniteBidAsk → Order → Bool) (sd : OrderSide) :
    Nat → FiniteBidAsk → Order → Int64 → Except Fault ((FiniteBidAsk × Order × Int64) × List Visit)
  | 0, _, _, _ => .error .outOfFuel
  | fuel + 1, s, o, totalLocked =>
    if 0 < o.amount ∧ mk s o = true then
      match (s.book sd.opp).getBestLevel with
      | .error e => .error e
      | .ok none => .ok ((s, o, totalLocked), [])
      | .ok (some bestLevel) =>
        match (s.store.level bestLevel).head with
        | none => .ok ((s, o, totalLocked), [])
        | some bestOffer =>
          let best := (s.store.level bestLevel).price
          let s' := s.setBestPrice best sd.opp
          if crosses sd best o.price = true then
            match fillLevelLog mk sd bestLevel (meOrderNodePoolSize + 2) s' o totalLocked
                (some bestOffer) with
            | .error e => .error e
            | .ok ((s', o', totalLocked'), iterations) =>
              (fillLevelsLog mk sd fuel s' o' totalLocked').map fun r =>
                (r.1, ⟨(s, o), iterations, (s', o')⟩ :: r.2)
          else .ok ((s', o, totalLocked), [])
    else .ok ((s, o, totalLocked), [])

section
variable {mk : FiniteBidAsk → Order → Bool} {sd : OrderSide}

theorem fillLevel_succ (ptr fuel : Nat) (s : FiniteBidAsk) (o : Order) (locked : Int64) (n : Nat) :
    BidAsk.fillLevel mk sd ptr (fuel + 1) s o locked (some n) =
      if 0 < o.amount ∧ mk s o = true then
        match s.fillOffer sd o locked ptr n with
        | .error e => .error e
        | .ok (s', o', locked', next) => BidAsk.fillLevel mk sd ptr fuel s' o' locked' next
      else .ok (s, o, locked) := by
  rw [BidAsk.fillLevel]
  split
  · unfold BidAsk.fillOffer
    obtain ⟨s₁, o₁, k₁⟩ := s.matchOffer sd o locked ptr n
    simp only
    split
    · cases (s₁.book sd.opp).deleteOrder (compareOf sd.opp) s₁.store n <;> rfl
    · rfl
  · rfl

theorem fillLevel_eq_log (ptr : Nat) :
    ∀ (fuel : Nat) (s : FiniteBidAsk) (o : Order) (locked : Int64)
    (offer : Option Nat), BidAsk.fillLevel mk sd ptr fuel s o locked offer =
      (BidAsk.fillLevelLog mk sd ptr fuel s o locked offer).map Prod.fst
  | 0, _, _, _, _ => rfl
  | _ + 1, _, _, _, none => rfl
  | fuel + 1, s, o, locked, some n => by
    rw [fillLevel_succ, BidAsk.fillLevelLog]
    split
    · cases hbody : s.fillOffer sd o locked ptr n with
      | error e => rfl
      | ok p =>
        obtain ⟨s', o', k', next⟩ := p
        simp only [fillLevel_eq_log ptr fuel s' o' k' next]
        cases BidAsk.fillLevelLog mk sd ptr fuel s' o' k' next <;> rfl
    · rfl

theorem fillLevels_eq_log : ∀ (fuel : Nat) (s : FiniteBidAsk) (o : Order) (locked : Int64),
    BidAsk.fillLevels mk sd fuel s o locked =
      (BidAsk.fillLevelsLog mk sd fuel s o locked).map Prod.fst
  | 0, _, _, _ => rfl
  | fuel + 1, s, o, locked => by
    rw [BidAsk.fillLevels, BidAsk.fillLevelsLog]
    split
    · cases (s.book sd.opp).getBestLevel with
      | error e => rfl
      | ok best =>
        cases best with
        | none => rfl
        | some lv =>
          simp only
          cases (s.store.level lv).head with
          | none => rfl
          | some n =>
            simp only
            split
            · rw [fillLevel_eq_log]
              cases BidAsk.fillLevelLog mk sd lv (meOrderNodePoolSize + 2)
                (s.setBestPrice (s.store.level lv).price sd.opp) o locked (some n) with
              | error e => rfl
              | ok p =>
                obtain ⟨⟨s', o', k'⟩, its⟩ := p
                simp only [Except.map, fillLevels_eq_log fuel s' o' k']
                cases BidAsk.fillLevelsLog mk sd fuel s' o' k' <;> rfl
            · rfl
    · rfl

end

/-! ## One iteration -/

theorem BidAsk.matchOffer_level (sd : OrderSide) (s : FiniteBidAsk) (o : Order) (locked : Int64)
    (lv n : Nat)
    {y : Nat} (hy : y ≠ lv) : (s.matchOffer sd o locked lv n).1.store.level y = s.store.level y :=
  SingleThreadedStoragePool.set_storage_of_ne _ _ hy

theorem BidAsk.matchOffer_book (sd : OrderSide) (s : FiniteBidAsk) (o : Order) (locked : Int64)
    (lv n : Nat) : (s.matchOffer sd o locked lv n).1.book = s.book := by
  funext sd'
  cases sd' <;> rfl

/-- An iteration of the inner loop, with the head `r` of the opposite queue `r :: q`: what it does
to the view, the order and the streams, that it writes no other level's cell, and that the sentinels
of the price indexes stay. -/
structure Round (sd : OrderSide) (s : FiniteBidAsk) (L : Levels) (b : Book) (o : Order) (r : Order)
    (q : List Order) (s' : FiniteBidAsk) (L' : Levels) : Prop where
  before : View s L b
  queue : b sd.opp = r :: q
  amount : 0 < o.amount
  cross : crosses sd r.price o.price = true
  after : View s' L' (Function.update b sd.opp (afterTrade o r q))
  own : L' sd = L sd
  levels : (L' sd.opp).length ≤ (L sd.opp).length
  feed : s'.toFeed = s.toFeed.emit (tradeEvent sd o r q)
  best : s'.bestPrice = s.bestPrice
  entries : ∀ sd' p x, (s'.book sd').fastMap p = some x → (s.book sd').fastMap p = some x
  cells : ∀ x, (s.book sd.opp).fastMap r.price ≠ some x → s'.store.level x = s.store.level x
  sentinels : ∀ sd', SkipList.SameSentinels (s.book sd').bestPricesMap (s'.book sd').bestPricesMap

section
variable {sd : OrderSide} {s : FiniteBidAsk} {L : Levels} {b : Book} {l : LevelRep}
  {ls : List LevelRep} {n : Nat} {ns : List Nat} {o : Order} {locked : Int64}

/-- The entries of the hash maps of two views, when the levels of the second are among those of the
first. -/
theorem View.entries_of_levels {s' : FiniteBidAsk} {L' : Levels} {b' : Book} (h : View s L b)
    (h' : View s' L' b')
    (hsub : ∀ sd, ∀ m ∈ L' sd, ∃ m' ∈ L sd, m'.price = m.price ∧ m'.ptr = m.ptr) (sd : OrderSide)
    (p : Int64) (x : Nat) (hx : (s'.book sd).fastMap p = some x) :
    (s.book sd).fastMap p = some x := by
  obtain ⟨m, hm, hp, hptr⟩ := (h'.rep.fast sd p x).1 hx
  obtain ⟨m', hm', hp', hptr'⟩ := hsub sd m hm
  exact (h.rep.fast sd p x).2 ⟨m', hm', hp'.trans hp, hptr'.trans hptr⟩

/-- The entries of the hash maps when nodes have left a level. -/
theorem View.entries_of_shrink {s' : FiniteBidAsk} {b' : Book} {l₁ l₂ : List LevelRep}
    (h : View s L b)
    (hs : L sd = l₁ ++ l :: l₂)
    (h' : View s' (Function.update L sd (l₁ ++ (l.shrink ns ++ l₂))) b') :
    ∀ sd' p x, (s'.book sd').fastMap p = some x → (s.book sd').fastMap p = some x := by
  refine h.entries_of_levels h' fun sd' m hm => ?_
  rcases OrderSide.eq_or_eq_opp sd sd' with rfl | rfl
  · rw [Function.update_self] at hm
    rw [hs]
    simp only [List.mem_append] at hm
    rcases hm with hm | hm | hm
    · exact ⟨m, by simp [hm], rfl, rfl⟩
    · rw [LevelRep.mem_shrink hm]
      exact ⟨l, by simp, rfl, rfl⟩
    · exact ⟨m, by simp [hm], rfl, rfl⟩
  · rw [Function.update_of_ne (OrderSide.opp_ne _)] at hm
    exact ⟨m, hm, rfl, rfl⟩

variable (locked) in
/-- **One iteration of the inner loop**: either the offer is used up and leaves its level, or the
order is used up. -/
theorem fillOffer_round (hv : View s L b) (hL : L sd.opp = l :: ls) (hn : l.nodes = n :: ns)
    (hbest : s.bestPrice sd.opp = l.price) (hcross : crosses sd l.price o.price = true)
    (h0 : 0 < o.amount) :
    ∃ r q s' L' next, Round sd s L b o r q s' L' ∧
      s.fillOffer sd o locked l.ptr n =
        .ok (s', less o (traded o r), locked + soldLeg sd (traded o r) r.price, next) ∧
      ((less r (traded o r)).amount ≠ 0 ∧ next = some n ∨
        L' sd.opp = l.shrink ns ++ ls ∧ next = ns.head?) := by
  have hq := hv.queue_cons hL hn
  obtain ⟨r, hr⟩ : ∃ r, r = (s.store.node n).order := ⟨_, rfl⟩
  obtain ⟨q, hqd⟩ : ∃ q, q = ordersOf s.store (ns ++ ls.flatMap (·.nodes)) := ⟨_, rfl⟩
  rw [← hr, ← hqd] at hq
  have hlm : l ∈ L sd.opp := by rw [hL]; simp
  have hL' : L sd.opp = [] ++ l :: ls := hL
  have hrp : r.price = l.price := by
    rw [hr]
    exact ((hv.rep.level sd.opp l hlm).orders n (by rw [hn]; simp)).2
  have hget : (s.book sd.opp).fastMap r.price = some l.ptr := by
    rw [hrp]
    exact hv.rep.cells.getVal_level hL'
  obtain ⟨s₁, hm, hv₁, hf₁, hb₁, hord₁, hnext₁⟩ := hv.matchOffer hL hn hbest o locked hq
  have hcells₁ : ∀ x, x ≠ l.ptr → s₁.store.level x = s.store.level x := fun x hx => by
    have := BidAsk.matchOffer_level sd s o locked l.ptr n hx
    rwa [hm] at this
  have hbook₁ : s₁.book = s.book := by
    have := BidAsk.matchOffer_book sd s o locked l.ptr n
    rwa [hm] at this
  by_cases hz : (less r (traded o r)).amount = 0
  · -- the offer is used up: it leaves the book
    have hn' : l.nodes = [] ++ n :: ns := hn
    have hq₁ : ordersOf s₁.store (([] : List LevelRep).flatMap (·.nodes) ++ []) = [] := rfl
    obtain ⟨lv, bk, st', hdel, hv₂, -, -⟩ := hv₁.deleteOrder hL' hn' rfl rfl
    have hqq : ordersOf s₁.store (ns ++ ls.flatMap (·.nodes)) = q := by
      have := hv₁.queue_cons hL hn
      rw [Function.update_self, List.cons.injEq] at this
      exact this.2.symm
    rw [hq₁, hqq, List.nil_append, List.nil_append, List.nil_append, Function.update_idem] at hv₂
    have hafter : afterTrade o r q = q := if_pos hz
    have hget₁ : (s₁.book sd.opp).fastMap.getVal (s₁.store.node n).order.price = some l.ptr := by
      rw [hord₁]
      show (s₁.book sd.opp).fastMap r.price = some l.ptr
      rw [hrp]
      exact hv₁.rep.cells.getVal_level hL'
    have hcells₂ := (OrderBook.deleteOrder_level hdel hget₁).2
    have hentries := hv.entries_of_shrink hL' hv₂
    have hlen : (l.shrink ns ++ ls).length ≤ (L sd.opp).length := by
      have := l.shrink_length ns
      rw [hL, List.length_append, List.length_cons]
      omega
    refine ⟨r, q, _, _, ns.head?,
      ⟨hv, hq, h0, by rw [hrp]; exact hcross, by
        rw [hafter]; exact hv₂, ?_, ?_, ?_, ?_, hentries, fun x hx => ?_, fun sd' => ?_⟩, ?_,
        .inr ⟨Function.update_self .., rfl⟩⟩
    · rw [Function.update_of_ne (OrderSide.ne_opp sd)]
    · rw [Function.update_self]
      exact hlen
    · rw [BidAsk.toFeed_setBook, BidAsk.toFeed_setStore, hf₁]
      rfl
    · rw [BidAsk.bestPrice_setBook, BidAsk.bestPrice_setStore, hb₁]
    · have hne : x ≠ l.ptr := fun he => hx (he ▸ hget)
      rw [BidAsk.store_setBook, BidAsk.store_setStore, hcells₂ x hne, hcells₁ x hne]
    · rw [BidAsk.book_setBook, BidAsk.book_setStore, hbook₁]
      rcases OrderSide.eq_or_eq_opp sd.opp sd' with rfl | rfl
      · rw [Function.update_self, ← hbook₁]
        exact OrderBook.deleteOrder_sentinels hdel
      · rw [Function.update_of_ne (OrderSide.opp_ne _)]
        exact .refl _
    · simp only [BidAsk.fillOffer, hm, hord₁, hz, if_true, hdel, hnext₁]
  · -- the order is used up
    have hafter : afterTrade o r q = less r (traded o r) :: q := if_neg hz
    refine ⟨r, q, s₁, L, some n,
      ⟨hv, hq, h0, by rw [hrp]; exact hcross, by
        rw [hafter]; exact hv₁, rfl, Nat.le_refl _, hf₁, hb₁, ?_, fun x hx => hcells₁ x fun he =>
        hx (he ▸ hget),
      fun sd' => by rw [hbook₁]; exact .refl _⟩, ?_, .inl ⟨hz, rfl⟩⟩
    · exact hv.entries_of_levels hv₁ fun sd' m hm => ⟨m, hm, rfl, rfl⟩
    · simp only [BidAsk.fillOffer, hm, hord₁, hz, if_false]

end

/-! ## The rule for the loops -/

/-- What a sweep keeps: a relation between the engine, its view, the order and the iterations so far
that survives a refreshed best price and every iteration of the inner loop. -/
structure SweepInvariant (sd : OrderSide)
    (I : FiniteBidAsk → Levels → Book → Order → Int64 → List Iteration → Prop) : Prop where
  refresh : ∀ {s L b o k its l ls}, View s L b → L sd.opp = l :: ls → I s L b o k its →
    I (s.setBestPrice l.price sd.opp) L b o k its
  round : ∀ {s L b o k its r q s' L'}, Round sd s L b o r q s' L' → I s L b o k its →
    I s' L' (Function.update b sd.opp (afterTrade o r q)) (less o (traded o r))
      (k + soldLeg sd (traded o r) r.price) (its ++ [⟨(s, o), (s', less o (traded o r))⟩])

section
variable {mk : FiniteBidAsk → Order → Bool} {sd : OrderSide} {s : FiniteBidAsk} {o : Order}
  {locked : Int64} {I : FiniteBidAsk → Levels → Book → Order → Int64 → List Iteration → Prop}

theorem fillLevelLog_zero (h : o.amount = 0) (fuel ptr : Nat) (offer : Option Nat) :
    BidAsk.fillLevelLog mk sd ptr (fuel + 1) s o locked offer = .ok ((s, o, locked), []) := by
  cases offer with
  | none => rfl
  | some n =>
    rw [BidAsk.fillLevelLog, if_neg]
    rw [h]
    simp

theorem fillLevelsLog_zero (h : o.amount = 0) (fuel : Nat) :
    BidAsk.fillLevelsLog mk sd (fuel + 1) s o locked = .ok ((s, o, locked), []) := by
  rw [BidAsk.fillLevelsLog, if_neg]
  rw [h]
  simp

/-- Where the inner loop ends: with the order used up or with the level gone. -/
structure LevelSwept (I : FiniteBidAsk → Levels → Book → Order → Int64 → List Iteration → Prop)
    (sd : OrderSide) (b : Book) (o : Order) (ls : List LevelRep) (its : List Iteration)
    (s' : FiniteBidAsk) (L' : Levels) (q' : List Order) (o' : Order) (k' : Int64) : Prop where
  view : View s' L' (Function.update b sd.opp q')
  inv : I s' L' (Function.update b sd.opp q') o' k' its
  order : o' = { o with amount := o'.amount }
  stop : o'.amount = 0 ∨ L' sd.opp = ls

variable (locked) in
/-- The log of the inner loop starts with an iteration that is a round. -/
theorem fillLevelLog_round (hmk : Decides mk) {L : Levels} {b : Book} {l : LevelRep}
    {ls : List LevelRep}
    {n : Nat} {ns : List Nat} (hv : View s L b) (hside : o.side = sd) (hL : L sd.opp = l :: ls)
    (hn : l.nodes = n :: ns) (hbest : s.bestPrice sd.opp = l.price)
    (hcross : crosses sd l.price o.price = true) (h0 : 0 < o.amount) (fuel : Nat) :
    ∃ r q s' L' next, Round sd s L b o r q s' L' ∧
      BidAsk.fillLevelLog mk sd l.ptr (fuel + 1) s o locked (some n) =
        (BidAsk.fillLevelLog mk sd l.ptr fuel s' (less o (traded o r))
          (locked + soldLeg sd (traded o r) r.price) next).map
            (fun p => (p.1, ⟨(s, o), (s', less o (traded o r))⟩ :: p.2)) ∧
      ((less o (traded o r)).amount = 0 ∨ L' sd.opp = l.shrink ns ++ ls ∧ next = ns.head?) := by
  obtain ⟨r, q, s', L', next, hround, hbody, hnext⟩ :=
    fillOffer_round locked hv hL hn hbest hcross h0
  have hmk' : mk s o = true := hmk.crossing hv (by rw [hside]; exact hround.queue) (by
    rw [hside]; exact hround.cross)
  refine ⟨r, q, s', L', next, hround, ?_, hnext.imp (fun h => less_amount_zero h.1) id⟩
  rw [BidAsk.fillLevelLog, if_pos ⟨h0, hmk'⟩, hbody]

/-- **The inner loop.** An iteration that does not use up the order leaves a level with one node
less. -/
theorem fillLevelLog_rule (hmk : Decides mk) (hI : SweepInvariant sd I) (ns : List Nat)
    (n fuel : Nat)
    (locked : Int64) (its : List Iteration) {s : FiniteBidAsk} {L : Levels} {b : Book}
    {l : LevelRep}
    {ls : List LevelRep} {o : Order} (hv : View s L b) (hside : o.side = sd)
    (hL : L sd.opp = l :: ls)
    (hn : l.nodes = n :: ns) (hfuel : ns.length + 2 ≤ fuel) (hbest : s.bestPrice sd.opp = l.price)
    (hcross : crosses sd l.price o.price = true) (hinv : I s L b o locked its) :
    ∃ s' L' q' o' k' its',
      BidAsk.fillLevelLog mk sd l.ptr fuel s o locked (some n) = .ok ((s', o', k'), its') ∧
      LevelSwept I sd b o ls (its ++ its') s' L' q' o' k' := by
  obtain ⟨f, rfl⟩ : ∃ f, fuel = f + 2 := ⟨fuel - 2, by omega⟩
  by_cases h0 : o.amount = 0
  · refine ⟨s, L, b sd.opp, o, locked, [], fillLevelLog_zero h0 _ _ _, ?_⟩
    rw [List.append_nil]
    exact ⟨by rwa [Function.update_eq_self], by rwa [Function.update_eq_self], rfl, .inl h0⟩
  obtain ⟨r, q, s₁, L₁, next, hround, hlog, hnext⟩ :=
    fillLevelLog_round locked hmk hv hside hL hn hbest hcross (by grind) (f + 1)
  have hinv₁ := hI.round hround hinv
  rcases hnext with hz | ⟨hL₁, rfl⟩
  · -- the order is used up
    rw [fillLevelLog_zero hz] at hlog
    exact ⟨s₁, L₁, _, _, _, _, hlog, hround.after, hinv₁, rfl, .inl hz⟩
  cases ns with
  | nil => exact ⟨s₁, L₁, _, _, _, _, hlog, hround.after, hinv₁, rfl, .inr hL₁⟩
  | cons m ns =>
    -- the rest of the level is a shorter level at the same pointer and price
    have hsh : L₁ sd.opp = { l with nodes := m :: ns } :: ls := by
      rw [hL₁, LevelRep.shrink, if_neg (by simp)]
      rfl
    have hside₁ : (less o (traded o r)).side = sd := hside
    obtain ⟨s₂, L₂, q₂, o₂, k₂, its₂, hlog₂, hswept⟩ := fillLevelLog_rule hmk hI ns m (f + 1) _ _
      hround.after hside₁ hsh rfl (by simp only [List.length_cons] at hfuel; omega)
      (by rw [hround.best]; exact hbest) hcross hinv₁
    refine ⟨s₂, L₂, q₂, o₂, k₂, ⟨(s, o), (s₁, less o (traded o r))⟩ :: its₂, ?_, ?_, ?_, ?_,
      hswept.stop⟩
    · rw [hlog, List.head?_cons, hlog₂]
      rfl
    · have := hswept.view
      rwa [Function.update_idem] at this
    · have := hswept.inv
      rwa [Function.update_idem, List.append_assoc] at this
    · rw [hswept.order]
      rfl
termination_by ns.length

/-- Nothing is left to do for the sweep. -/
def Finished (sd : OrderSide) (q : List Order) (o : Order) (locked : Int64) : Prop :=
  sweep sd q o locked = ⟨q, o, locked, []⟩

/-- An iteration of the outer loop that entered the inner one removed a level or used up the order.
-/
def Visit.Progresses (sd : OrderSide) (v : Visit) : Prop :=
  ∃ L b L' b' l, View v.start.1 L b ∧ View v.stop.1 L' b' ∧
    (v.stop.2.amount = 0 ∨ L sd.opp = l :: L' sd.opp)

/-- Where the outer loop ends. -/
structure SideSwept (I : FiniteBidAsk → Levels → Book → Order → Int64 → List Iteration → Prop)
    (sd : OrderSide) (b : Book) (o : Order) (its : List Iteration) (visits : List Visit)
    (s' : FiniteBidAsk) (L' : Levels) (q' : List Order) (o' : Order) (k' : Int64) : Prop where
  view : View s' L' (Function.update b sd.opp q')
  inv : I s' L' (Function.update b sd.opp q') o' k' (its ++ visits.flatMap Visit.iterations)
  order : o' = { o with amount := o'.amount }
  finished : Finished sd q' o' k'
  progresses : ∀ v ∈ visits, v.Progresses sd

theorem SideSwept.stop {L : Levels} {b : Book} {its : List Iteration} (hv : View s L b)
    (hinv : I s L b o locked its) (hfin : Finished sd (b sd.opp) o locked) :
    SideSwept I sd b o its [] s L (b sd.opp) o locked where
  view := by rwa [Function.update_eq_self]
  inv := by rwa [Function.update_eq_self, List.flatMap_nil, List.append_nil]
  order := rfl
  finished := hfin
  progresses := fun v hv => by cases hv

/-- **The outer loop.** -/
theorem fillLevelsLog_rule (hmk : Decides mk) (hI : SweepInvariant sd I) :
    ∀ (fuel : Nat) (locked : Int64) (its : List Iteration) {s : FiniteBidAsk} {L : Levels}
    {b : Book} {o : Order},
      View s L b → o.side = sd → (L sd.opp).length + 1 ≤ fuel → I s L b o locked its →
      ∃ s' L' q' o' k' visits, BidAsk.fillLevelsLog mk sd fuel s o locked =
      .ok ((s', o', k'), visits) ∧
        SideSwept I sd b o its visits s' L' q' o' k' := by
  intro fuel
  induction fuel with
  | zero => intro locked its s L b o _ _ hfuel; omega
  | succ fuel ih =>
    intro locked its s L b o hv hside hfuel hinv
    by_cases h0 : o.amount = 0
    · exact ⟨s, L, _, o, locked, [], fillLevelsLog_zero h0 fuel, .stop hv hinv (sweep_zero h0 _)⟩
    have hpos : 0 < o.amount := by grind
    by_cases hm : mk s o = true
    · rw [BidAsk.fillLevelsLog, if_pos ⟨hpos, hm⟩, hv.rep.getBestLevel]
      cases hL : L sd.opp with
      | nil =>
        refine ⟨s, L, _, o, locked, [], rfl, .stop hv hinv ?_⟩
        have hq := hv.queue sd.opp
        unfold Levels.queue at hq
        rw [hL] at hq
        rw [Finished, hq]
        rfl
      | cons l ls =>
        have hlm : l ∈ L sd.opp := by rw [hL]; simp
        obtain ⟨n, ns, hn⟩ := List.exists_cons_of_ne_nil (hv.full sd.opp l hlm)
        have hok := hv.rep.level sd.opp l hlm
        have hhead : (s.store.level l.ptr).head = some n := by rw [hok.holds.head, hn]; rfl
        have hv₁ := hv.setBestPrice hL
        have hinv₁ := hI.refresh hv hL hinv
        simp only [List.head?_cons, Option.map_some, hhead, hok.price]
        by_cases hc : crosses sd l.price o.price = true
        · rw [if_pos hc]
          have hlen := hv.rep.cells.level_length_le hlm
          rw [hn, List.length_cons] at hlen
          obtain ⟨s₂, L₂, q₂, o₂, k₂, its₂, hlog, hswept⟩ := fillLevelLog_rule hmk hI ns n
            (meOrderNodePoolSize + 2) locked its hv₁ hside hL hn (by omega)
            (by rw [BidAsk.bestPrice_setBestPrice, Function.update_self]) hc hinv₁
          rw [hlog]
          rw [hL, List.length_cons] at hfuel
          have hvisit : (⟨(s, o), its₂, (s₂, o₂)⟩ : Visit).Progresses sd :=
            ⟨L, b, L₂, _, l, hv, hswept.view, hswept.stop.imp id fun h => by rw [hL, h]⟩
          -- the rest of the loop, on one level less unless the order is used up
          obtain ⟨s₃, L₃, q₃, o₃, k₃, visits, hrest, hside₃⟩ : ∃ s₃ L₃ q₃ o₃ k₃ visits,
              BidAsk.fillLevelsLog mk sd fuel s₂ o₂ k₂ = .ok ((s₃, o₃, k₃), visits) ∧
              SideSwept I sd (Function.update b sd.opp q₂) o₂ (its ++ its₂) visits s₃ L₃ q₃ o₃
                k₃ := by
            rcases hswept.stop with hz | hL₂
            · obtain ⟨f, rfl⟩ : ∃ f, fuel = f + 1 := ⟨fuel - 1, by omega⟩
              exact ⟨s₂, L₂, _, o₂, k₂, [], fillLevelsLog_zero hz f,
                .stop hswept.view hswept.inv (sweep_zero hz _)⟩
            · exact ih k₂ (its ++ its₂) hswept.view (by rw [hswept.order]; exact hside)
                (by rw [hL₂]; omega) hswept.inv
          refine ⟨s₃, L₃, q₃, o₃, k₃, ⟨(s, o), its₂, (s₂, o₂)⟩ :: visits, ?_, ?_, ?_, ?_,
            hside₃.finished, ?_⟩
          · simp only [hrest, Except.map]
          · have := hside₃.view
            rwa [Function.update_idem] at this
          · have := hside₃.inv
            rwa [Function.update_idem, List.append_assoc] at this
          · rw [hside₃.order, hswept.order]
          · intro v hm
            rcases List.mem_cons.1 hm with rfl | hm
            · exact hvisit
            · exact hside₃.progresses v hm
        · rw [if_neg hc]
          refine ⟨_, L, _, o, locked, [], rfl, .stop hv₁ hinv₁ (sweep_stop fun r q' hq => ?_)⟩
          have hcons := hv.queue_cons hL hn
          rw [hq, List.cons.injEq] at hcons
          rw [hcons.1, (hok.orders n (by rw [hn]; simp)).2]
          simpa using hc
    · refine ⟨s, L, _, o, locked, [], ?_, .stop hv hinv (sweep_stop fun r q' hq => ?_)⟩
      · rw [BidAsk.fillLevelsLog, if_neg fun h => hm h.2]
      · rw [← hside] at hq ⊢
        cases hc : crosses o.side r.price o.price with
        | false => rfl
        | true => exact absurd (hmk.crossing hv hq hc) hm

end

/-! ## The sweep of the reference -/

section
variable {sd : OrderSide} {s s' : FiniteBidAsk} {L L' : Levels} {b : Book} {o : Order}
  {locked : Int64}

theorem Round.progress {r : Order} {q : List Order} (h : Round sd s L b o r q s' L') :
    Progress sd s L b o locked s' L' (afterTrade o r q) (less o (traded o r))
      (locked + soldLeg sd (traded o r) r.price) where
  view := h.after
  own := h.own
  levels := h.levels
  order := rfl
  emits := ⟨[tradeEvent sd o r q],
    h.feed, by rw [h.queue]; exact sweep_step q locked h.amount h.cross⟩

theorem progress_invariant : SweepInvariant sd fun s' L' b' o' k' _ =>
    ∃ q', b' = Function.update b sd.opp q' ∧ Progress sd s L b o locked s' L' q' o' k' where
  refresh := by
    rintro s₁ L₁ b₁ o₁ k₁ its l ls hv hL ⟨q, rfl, hp⟩
    refine ⟨q, rfl, hp.trans ⟨?_, rfl, Nat.le_refl _, rfl, [], BidAsk.toFeed_setBestPrice _ _ _,
      ?_⟩⟩
    · rw [Function.update_idem]
      exact hv.setBestPrice hL
    · rw [Function.update_self]
      rfl
  round := by
    rintro s₁ L₁ b₁ o₁ k₁ its r q s₂ L₂ hround ⟨q₁, rfl, hp⟩
    exact ⟨_, Function.update_idem .., hp.trans hround.progress⟩

end

/-- **The loops are the reference's sweep.** -/
theorem fillLevels_sweep {mk : FiniteBidAsk → Order → Bool} (hmk : Decides mk) {sd : OrderSide}
    (fuel : Nat)
    (locked : Int64) {s : FiniteBidAsk} {L : Levels} {b : Book} {o : Order} (hv : View s L b)
    (hside : o.side = sd) (hfuel : (L sd.opp).length + 1 ≤ fuel) :
    ∃ s' L' q' o' locked', BidAsk.fillLevels mk sd fuel s o locked = .ok (s', o', locked') ∧
      Progress sd s L b o locked s' L' q' o' locked' ∧ Finished sd q' o' locked' := by
  obtain ⟨s', L', q', o', k', visits, hlog, hswept⟩ :=
    fillLevelsLog_rule hmk progress_invariant fuel locked
    [] hv hside hfuel ⟨b sd.opp, (Function.update_eq_self ..).symm, .refl hv⟩
  obtain ⟨q₁, hq, hp⟩ := hswept.inv
  obtain rfl : q' = q₁ := by
    have := congrFun hq sd.opp
    rwa [Function.update_self, Function.update_self] at this
  exact ⟨s', L', q', o', k', by rw [fillLevels_eq_log, hlog]; rfl, hp, hswept.finished⟩

end Naoto.Engine
