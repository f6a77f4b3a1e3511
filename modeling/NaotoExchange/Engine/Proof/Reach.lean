import NaotoExchange.Engine.Proof.Step

/-!
# Runs from the empty book

The conditions on a message sequence that results about runs share, and the two induction rules
for them. `Valid` is about the messages alone; `NamesSide` and `PoolsFree` are about the state a
message meets, and results assume them along the run. `run_view` needs no free memory but then only
speaks about runs that go through; `run_refines` shows that a run with free memory goes through and
does what the reference does.
-/

namespace Naoto.Engine

open Reference Run

/-- The 32-bit ids of the orders among the messages. -/
def executeIds (msgs : List Order) : List UInt32 :=
  (msgs.filter fun o => o.action = .execute).map Order.id32

/-- Orders have prices strictly between the extreme ones and pairwise distinct 32-bit ids. -/
structure Valid (msgs : List Order) : Prop where
  price : ∀ o ∈ msgs, o.action = .execute → Int64.minValue < o.price ∧ o.price < Int64.maxValue
  ids : (executeIds msgs).Nodup

instance (msgs : List Order) : Decidable (Valid msgs) :=
  decidable_of_iff ((∀ o ∈ msgs, o.action = .execute →
    Int64.minValue < o.price ∧ o.price < Int64.maxValue) ∧ (executeIds msgs).Nodup)
    ⟨fun h => ⟨h.1, h.2⟩, fun h => ⟨h.1, h.2⟩⟩

section
variable {OM FM : Type}

/-- A cancel request that names a resting order of its sender carries that order's side. -/
def NamesSide (s : BidAsk OM FM) (o : Order) : Prop :=
  o.action = .cancel → RightSide s.restingOrders o

/-- An order finds a free entry in every pool. -/
def PoolsFree (s : BidAsk OM FM) (o : Order) : Prop := o.action = .execute → s.HasRoom

instance (s : BidAsk OM FM) (o : Order) : Decidable (NamesSide s o) := by
  unfold NamesSide
  infer_instance

instance (s : BidAsk OM FM) (o : Order) : Decidable (PoolsFree s o) := by
  unfold PoolsFree
  infer_instance

end

/-- The ids in the book are those of earlier orders. -/
def Known (msgs : List Order) (b : Book) : Prop := ∀ sd, ∀ r ∈ b sd, r.id32 ∈ executeIds msgs

section
variable {msgs xs : List Order} {o : Order} {b b' : Book}

theorem known_empty : Known xs empty := fun sd r hr => by cases hr

theorem uncrossed_empty : Uncrossed empty := fun sd o ho => by cases ho

theorem executeIds_append (xs ys : List Order) :
    executeIds (xs ++ ys) = executeIds xs ++ executeIds ys := by
  simp [executeIds]

theorem executeIds_of_execute (h : o.action = .execute) : executeIds [o] = [o.id32] := by
  simp [executeIds, h]

theorem Valid.restrict (h : Valid msgs) (hp : xs <+: msgs) : Valid xs where
  price := fun o ho => h.price o (hp.subset ho)
  ids := by
    obtain ⟨ys, rfl⟩ := hp
    have := h.ids
    rw [executeIds_append] at this
    exact this.of_append_left

theorem Known.fresh (h : Known xs b) (hv : Valid (xs ++ [o])) (ha : o.action = .execute) :
    Fresh b o.id32 := by
  intro sd r hr he
  have hnd := hv.ids
  rw [executeIds_append, executeIds_of_execute ha] at hnd
  exact (List.nodup_append.1 hnd).2.2 _ (h sd r hr) _ (by simp) he

theorem Known.mono (h : Known xs b) (hw : Within b' b) (ys : List Order) : Known (xs ++ ys) b' := by
  intro sd r' hr'
  obtain ⟨r, hr, he⟩ := hw sd r' hr'
  rw [executeIds_append, he]
  exact List.mem_append_left _ (h sd r hr)

theorem Known.process (h : Known xs b) (m : Bool) :
    Known (xs ++ [o]) (processWith m b o).1 := by
  unfold processWith
  cases ha : o.action with
  | cancel => exact h.mono (within_cancel b o) _
  | execute =>
    intro sd r' hr'
    rw [executeIds_append, executeIds_of_execute ha]
    rcases within_executeWith m b o sd r' hr' with ⟨r, hr, he⟩ | ⟨-, he⟩
    · rw [he]
      exact List.mem_append_left _ (h sd r hr)
    · rw [he]
      exact List.mem_append_right _ (by simp [Order.id32])

theorem Uncrossed.process {s : FiniteBidAsk} {L : Levels} (hu : Uncrossed b) (h : View s L b) :
    Uncrossed (processWith (s.isMarketable o) b o).1 := by
  unfold processWith
  cases o.action with
  | cancel => exact (within_cancel b o).uncrossed hu
  | execute => exact hu.executeWith isMarketable_decides h

theorem inner_price (hv : Valid msgs) (ho : o ∈ msgs) (ha : o.action = .execute) :
    (compareOf o.side).Inner o.price :=
  Compare.inner_iff.2 (hv.price o ho ha)

theorem acceptable {s : FiniteBidAsk} {L : Levels} (h : View s L b) (hk : Known xs b)
    (hv : Valid (xs ++ [o])) (hside : NamesSide s o) : Acceptable b o where
  inner := inner_price hv (by simp)
  fresh := hk.fresh hv
  rightSide := fun ha => by
    have := hside ha
    rwa [h.restingOrders] at this

end

/-! ## The empty book -/

theorem new_view (assetId : UInt32) (initialPrice : Int64) (reportSeq bookSeq : UInt32)
    (bidSeed askSeed : UInt64) :
    View (BidAsk.new assetId initialPrice reportSeq bookSeq bidSeed askSeed)
    (fun _ => []) empty where
  rep :=
    { index := fun sd => by
        cases sd with
        | buy => exact SkipList.new_models (by decide) _
        | sell => exact SkipList.new_models (by decide) _
      fast := fun sd p x => by
        cases sd <;>
          simp [BidAsk.new, BidAsk.construct, BidAsk.book, OrderBook.new, KeyMap.empty,
            FiniteMap.empty]
      level := fun sd l hl => by cases hl
      levelPool := SingleThreadedStoragePool.new_owns _
      nodePool := SingleThreadedStoragePool.new_owns _
      ids := fun k x => by
        simp [BidAsk.new, BidAsk.construct, KeyMap.empty, FiniteMap.empty, Levels.nodes]
      freeLevels := fun x _ => rfl }
  full := fun sd l hl => by cases hl
  queue := fun sd => rfl
  best := fun sd r hr => by cases hr

/-! ## Runs -/

section
variable {s₀ s : FiniteBidAsk} {L₀ : Levels} {msgs : List Order} {outs : List BidAsk.Out}

/-- A step that goes through leads to a state with a view. -/
theorem step_view {s s' : FiniteBidAsk} {L : Levels} {b : Book} {xs : List Order} {o : Order}
    {out : BidAsk.Out} (hview : View s L b) (hk : Known xs b) (hv : Valid (xs ++ [o]))
    (hs : NamesSide s o) (hstep : BidAsk.step s o = .ok (s', out)) :
    ∃ L' b', View s' L' b' ∧ Known (xs ++ [o]) b' := by
  rcases step_cases hview (acceptable hview hk hv hs) with
    ⟨-, -, he⟩ | ⟨-, -, s₁, L₁, he, hv₁, -⟩ | ⟨s₁, L₁, he, hv₁, -⟩
  · rw [he] at hstep
    cases hstep
  · rw [he] at hstep
    cases hstep
    exact ⟨L₁, _, hv₁, hk.mono (within_dropWith _ b o) _⟩
  · rw [he] at hstep
    cases hstep
    exact ⟨L₁, _, hv₁, hk.process _⟩

/-- **A run that goes through** ends in a state with a view. -/
theorem run_view (h₀ : View s₀ L₀ empty) (hv : Valid msgs)
    (hside : Along NamesSide BidAsk.step s₀ msgs) (hrun : BidAsk.run s₀ msgs = .ok (s, outs)) :
    ∃ L b, View s L b ∧ Known msgs b := by
  refine run_invariant (P := fun xs s _ => ∃ L b, View s L b ∧ Known xs b)
    ⟨L₀, empty, h₀, known_empty⟩ hside ?_ hrun
  rintro xs o s bs s' out hp - ⟨L, b, hview, hk⟩ hs hstep
  exact step_view hview hk (hv.restrict hp) hs hstep

/-- A run that does not go through is terminated for want of memory. -/
theorem run_fault (h₀ : View s₀ L₀ empty) (hv : Valid msgs)
    (hside : Along NamesSide BidAsk.step s₀ msgs) {e : Fault}
    (hrun : BidAsk.run s₀ msgs = .error e) : e = .terminate := by
  obtain ⟨xs, o, s, outs, hp, hr, hs⟩ := run_error hrun
  have hxs : xs <+: msgs := (List.prefix_append _ _).trans hp
  obtain ⟨L, b, hview, hk⟩ := run_view h₀ (hv.restrict hxs) (hside.restrict hxs) hr
  have hacc := acceptable hview hk (hv.restrict hp) (hside xs o hp s outs hr)
  rcases step_cases hview hacc with ⟨-, -, he⟩ | ⟨-, -, s₁, L₁, he, -⟩ | ⟨s₁, L₁, he, -⟩
  · rw [he] at hs
    cases hs
    rfl
  · rw [he] at hs
    cases hs
  · rw [he] at hs
    cases hs

/-- **A run with free memory** goes through; what the reference's steps keep holds at its end. -/
theorem run_refines {Q : List Order → Book → List BidAsk.Out → Prop} (h₀ : View s₀ L₀ empty)
    (hv : Valid msgs) (hside : Along NamesSide BidAsk.step s₀ msgs)
    (hfree : Along PoolsFree BidAsk.step s₀ msgs) (hQ₀ : Q [] empty [])
    (hQ : ∀ xs o s L b outs, xs ++ [o] <+: msgs → View s L b → Acceptable b o → Q xs b outs →
      Q (xs ++ [o]) (processWith (s.isMarketable o) b o).1
        (outs ++ [((processWith (s.isMarketable o) b o).2.foldl Feed.emit s.toFeed.cleared).out])) :
    ∃ s outs L b, BidAsk.run s₀ msgs = .ok (s, outs) ∧ View s L b ∧ Known msgs b ∧ Uncrossed b ∧
      Q msgs b outs := by
  have hpre : Along (fun s o => NamesSide s o ∧ PoolsFree s o) BidAsk.step s₀ msgs :=
    fun xs a hp s bs hr => ⟨hside xs a hp s bs hr, hfree xs a hp s bs hr⟩
  obtain ⟨s, outs, hrun, L, b, hP⟩ := run_total
    (P := fun xs s outs => ∃ L b, View s L b ∧ Known xs b ∧ Uncrossed b ∧ Q xs b outs)
    ⟨L₀, empty, h₀, known_empty, uncrossed_empty, hQ₀⟩ hpre (by
      rintro xs o s outs hp - ⟨L, b, hview, hk, hu, hq⟩ ⟨hs, hf⟩
      have hacc := acceptable hview hk (hv.restrict hp) hs
      rcases step_cases hview hacc with ⟨hr, ha, -⟩ | ⟨hr, ha, -⟩ | ⟨s', L', he, hv', hfeed⟩
      · exact absurd (hf ha) hr
      · exact absurd (hf ha) hr
      · refine ⟨s', _, he, L', _, hv', hk.process _, hu.process hview, ?_⟩
        rw [hfeed]
        exact hQ xs o s L b outs hp hview hacc hq)
  exact ⟨s, outs, L, b, hrun, hP⟩

end

/-! ## A sample run -/

/-- An ask, a market order that takes part of it, a bid below it, the owner's cancel of the rest of
the ask, and the same request again, which finds nothing. -/
def sampleRun : List Order :=
  [⟨100, 1, 0, 7, 5, 1, .limit, .sell, .execute⟩,
   ⟨101, 2, 0, 8, 3, 1, .market, .buy, .execute⟩,
   ⟨99, 3, 0, 8, 4, 1, .limit, .buy, .execute⟩,
   ⟨0, 4, 0, 7, 1, 1, .limit, .sell, .cancel⟩,
   ⟨0, 5, 0, 7, 1, 1, .limit, .sell, .cancel⟩]

end Naoto.Engine
