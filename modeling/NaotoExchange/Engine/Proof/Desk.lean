import NaotoExchange.Engine.Proof.Reports

/-!
# One event at a time

The reference engine as a transition system with one event a step: an order arrives, trades with the
head of the other queue, and rests, expires or is used up; a cancel request removes an order or is
rejected (`Desk.Step`). Every run of `BidAsk` with free memory is one of its runs (`run_steps`), so
what every step keeps holds along the engine's runs (`Steps.invariant`).
-/

namespace Naoto.Engine

open Reference Run

/-- The messages so far, the order being processed, the book and what has happened. -/
structure Desk where
  seen : List Order
  incoming : Option Order
  book : Book
  events : List Event

namespace Desk

/-- No message was seen, and nothing rests. -/
def start : Desk := ⟨[], none, empty, []⟩

/-- The steps; `ok` is what is assumed of a message and the book it meets. Only an order that
arrived without amount rests without. -/
inductive Step (ok : Book → Order → Prop) : Desk → Desk → Prop
  | arrive {xs b es o} : ok b o → o.action = .execute → Fresh b o.id32 → o.id32 ∉ executeIds xs →
      Step ok ⟨xs, none, b, es⟩ ⟨xs ++ [o], some o, b, es⟩
  | trade {xs b es o r q} : b o.side.opp = r :: q → 0 < o.amount →
      crosses o.side r.price o.price = true →
      Step ok ⟨xs, some o, b, es⟩ ⟨xs, some (less o (traded o r)),
        Function.update b o.side.opp (afterTrade o r q), es ++ [tradeEvent o.side o r q]⟩
  | rest {xs b es o} : o.type = .limit → 0 < o.amount ∨ o ∈ xs →
      Step ok ⟨xs, some o, b, es⟩ ⟨xs, none, (Reference.rest b o).1, es ++ (Reference.rest b o).2⟩
  | expire {xs b es o locked} : o.type = .market → 0 < o.amount →
      Step ok ⟨xs, some o, b, es⟩ ⟨xs, none, b, es ++ [.expire o locked]⟩
  | spent {xs b es o} : o.amount = 0 → Step ok ⟨xs, some o, b, es⟩ ⟨xs, none, b, es⟩
  | cancel {xs b es o r} : ok b o → o.action = .cancel → target b o = some r →
      Step ok ⟨xs, none, b, es⟩ ⟨xs ++ [o], none,
        Function.update b r.side ((b r.side).filter fun x => x.id32 ≠ r.id32),
        es ++ [.cancel r (depthAt r.price ((b r.side).filter fun x => x.id32 ≠ r.id32))]⟩
  | reject {xs b es o} : ok b o → o.action = .cancel → target b o = none →
      Step ok ⟨xs, none, b, es⟩ ⟨xs ++ [o], none, b, es ++ [.reject o]⟩

/-- Any number of steps. -/
def Steps (ok : Book → Order → Prop) : Desk → Desk → Prop := Relation.ReflTransGen (Step ok)

/-- **What every step keeps holds along the steps.** -/
theorem Steps.invariant {ok : Book → Order → Prop} {I : Desk → Prop} {d d' : Desk}
    (h : Steps ok d d') (hI : ∀ d d', Step ok d d' → I d → I d') (h₀ : I d) : I d' := by
  induction h with
  | refl => exact h₀
  | tail _ hs ih => exact hI _ _ hs ih

section
variable {ok : Book → Order → Prop} {xs : List Order} {es : List Event}

theorem sweep_steps (sd : OrderSide) (q : List Order) (o : Order) (locked : Int64) :
    ∀ (b : Book) (es : List Event), o.side = sd → b sd.opp = q →
      Steps ok ⟨xs, some o, b, es⟩ ⟨xs, some (sweep sd q o locked).order,
        Function.update b sd.opp (sweep sd q o locked).queue,
        es ++ (sweep sd q o locked).events⟩ := by
  refine sweep_induction sd (P := fun q o _ w => ∀ (b : Book) (es : List Event), o.side = sd →
    b sd.opp = q → Steps ok ⟨xs, some o, b, es⟩
      ⟨xs, some w.order, Function.update b sd.opp w.queue, es ++ w.events⟩) ?_ ?_ q o locked
  · intro q o locked b es _ hq
    rw [← hq, Function.update_eq_self, List.append_nil]
    exact .refl
  · intro r q o locked w h0 hc ih b es hside hq
    subst hside
    refine .head (.trade hq h0 hc) ?_
    have hrest := ih (Function.update b o.side.opp (afterTrade o r q))
      (es ++ [tradeEvent o.side o r q]) rfl (Function.update_self ..)
    rw [Function.update_idem, List.append_assoc] at hrest
    exact hrest

theorem settle_steps {b : Book} {w : Swept} :
    Steps ok ⟨xs, some w.order, b, es⟩ ⟨xs, none, (settle b w).1, es ++ (settle b w).2⟩ := by
  unfold settle
  split
  · rename_i hpos
    cases ht : w.order.type with
    | limit => exact .single (.rest ht (.inl hpos))
    | market => exact .single (.expire ht hpos)
  · rename_i hzero
    rw [List.append_nil]
    exact .single (.spent (by simpa using hzero))

/-- **A message is a sequence of steps.** -/
theorem processWith_steps {s : FiniteBidAsk} {b : Book} {o : Order} (hok : ok b o)
    (hacc : Acceptable b o) (hnew : o.action = .execute → o.id32 ∉ executeIds xs) :
    Steps ok ⟨xs, none, b, es⟩ ⟨xs ++ [o], none, (processWith (s.isMarketable o) b o).1,
      es ++ (processWith (s.isMarketable o) b o).2⟩ := by
  unfold processWith
  cases ha : o.action with
  | execute =>
    refine .head (.arrive hok ha (hacc.fresh ha) (hnew ha)) ?_
    unfold executeWith
    cases hm : s.isMarketable o with
    | false =>
      have hlimit : o.type = .limit := by
        cases ht : o.type with
        | limit => rfl
        | market =>
          rw [isMarketable_decides.market ht] at hm
          cases hm
      exact .single (.rest hlimit (.inr (by simp)))
    | true =>
      simp only [if_true, execute]
      refine .trans (sweep_steps _ _ o (reserve o.side o.amount o.price) b es rfl rfl) ?_
      rw [← List.append_assoc]
      exact settle_steps
  | cancel =>
    simp only [Reference.cancel]
    split
    · rename_i ht
      exact .single (.reject hok ha ht)
    · rename_i r ht
      exact .single (.cancel hok ha ht)

end

end Desk

open Desk

section
variable {ok : Book → Order → Prop} {s₀ : FiniteBidAsk} {L₀ : Levels} {msgs : List Order}

theorem Valid.new_id {xs : List Order} {o : Order} (hv : Valid msgs) (hp : xs ++ [o] <+: msgs)
    (ha : o.action = .execute) : o.id32 ∉ executeIds xs := by
  intro hmem
  have hnd := (hv.restrict hp).ids
  rw [executeIds_append, executeIds_of_execute ha] at hnd
  exact (List.nodup_append.1 hnd).2.2 _ hmem _ (by simp) rfl

theorem steps_of_view (es : List Event) {s : FiniteBidAsk} {L : Levels} {b : Book} {xs : List Order}
    {o : Order} (hv : Valid msgs) (hp : xs ++ [o] <+: msgs) (hview : View s L b)
    (hacc : Acceptable b o) (hok : ok s.restingOrders o) :
    Steps ok ⟨xs, none, b, es⟩ ⟨xs ++ [o], none, (processWith (s.isMarketable o) b o).1,
      es ++ (processWith (s.isMarketable o) b o).2⟩ := by
  rw [hview.restingOrders] at hok
  exact processWith_steps hok hacc (hv.new_id hp)

/-- **The runs of the engine are runs of the desk.** -/
theorem run_steps (ok : Book → Order → Prop) (h₀ : View s₀ L₀ empty) (hv : Valid msgs)
    (hside : Along NamesSide BidAsk.step s₀ msgs) (hfree : Along PoolsFree BidAsk.step s₀ msgs)
    (hok : Along (fun s o => ok s.restingOrders o) BidAsk.step s₀ msgs) :
    ∃ s outs es, BidAsk.run s₀ msgs = .ok (s, outs) ∧
      Tells s₀.marketAssetId.toUInt16 (joined outs) es ∧
      Steps ok start ⟨msgs, none, s.restingOrders, es⟩ := by
  obtain ⟨s, outs, L, b, es, hrun, hview, -, -, htells, hsteps⟩ := run_traced
    (Q := fun xs b es => Steps ok start ⟨xs, none, b, es⟩) h₀ hv hside hfree hok .refl
    (fun xs o s L b es hp hview hacc hm hq => hq.trans (steps_of_view es hv hp hview hacc hm))
  rw [← hview.restingOrders] at hsteps
  exact ⟨s, outs, es, hrun, htells, hsteps⟩

theorem next_steps (ok : Book → Order → Prop) (h₀ : View s₀ L₀ empty) (hv : Valid msgs)
    (hside : Along NamesSide BidAsk.step s₀ msgs) (hfree : Along PoolsFree BidAsk.step s₀ msgs)
    (hok : Along (fun s o => ok s.restingOrders o) BidAsk.step s₀ msgs) {xs : List Order}
    {o : Order} (hp : xs ++ [o] <+: msgs) :
    ∃ s outs s' out L es es', BidAsk.run s₀ xs = .ok (s, outs) ∧ BidAsk.step s o = .ok (s', out) ∧
      View s L s.restingOrders ∧ es' = (processWith (s.isMarketable o) s.restingOrders o).2 ∧
      Tells s₀.marketAssetId.toUInt16 (joined outs) es ∧
      Tells s₀.marketAssetId.toUInt16 out es' ∧
      Steps ok start ⟨xs, none, s.restingOrders, es⟩ ∧
      Steps ok ⟨xs, none, s.restingOrders, es⟩ ⟨xs ++ [o], none, s'.restingOrders, es ++ es'⟩ := by
  obtain ⟨s, outs, s', out, L, L', b, es, hrun, hstep, hview, hacc, hview', htells, htold,
    hsteps⟩ :=
    next_traced (Q := fun xs b es => Steps ok start ⟨xs, none, b, es⟩) h₀ hv hside hfree hok .refl
      (fun xs o s L b es hp hview hacc hm hq => hq.trans (steps_of_view es hv hp hview hacc hm)) hp
  have hnext := steps_of_view es hv hp hview hacc (hok xs o hp s outs hrun)
  rw [← hview'.restingOrders] at hnext
  obtain rfl := hview.restingOrders
  exact ⟨s, outs, s', out, L, es, _, hrun, hstep, hview, rfl, htells, htold, hsteps, hnext⟩

end

end Naoto.Engine
