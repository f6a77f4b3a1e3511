import NaotoExchange.Engine.Proof.Desk

/-!
# The life of an order

What the reports say about one order: it arrives, takes from the book, comes to rest or is gone; at
rest it is filled piece by piece or cancelled (`Lives`). Along every run the reports about an order
are such a life, and the book has what the life says is left of it (`Tracked`, `steps_tracked`).
-/

namespace Naoto.Engine

open FixedWidth Reference Desk

/-- Where an order is, and what is left of it. -/
inductive Life where
  | incoming (left : UInt32)
  | resting (left : UInt32)
  /-- `removed` was left when it went. -/
  | gone (removed : UInt32)

/-- The order with another amount. -/
def withAmount (o : Order) (left : UInt32) : Order := { o with amount := left }

@[simp] theorem withAmount_id32 (o : Order) (left : UInt32) : (withAmount o left).id32 = o.id32 :=
  rfl

@[simp] theorem withAmount_side (o : Order) (left : UInt32) : (withAmount o left).side = o.side :=
  rfl

section
variable (asset : UInt16) (may : Order → UInt32 → Prop)

/-- The reports `rs` about the order `o` are a life that has come to `ℓ`; it was cancelled only if
it `may` be. -/
inductive Lives (o : Order) : List OrderStateReport → Life → Prop
  | arrive : Lives o [] (.incoming o.amount)
  | take {rs left t p} : Lives o rs (.incoming left) → 0 < left → t ≤ left →
      Lives o (rs ++ [fillOf asset o.side t p (withAmount o (left - t))]) (.incoming (left - t))
  | rest {rs left} : Lives o rs (.incoming left) → 0 < left ∨ left = o.amount →
      Lives o (rs ++ [attemptOf asset (reserve o.side left o.price) (withAmount o left) .add])
        (.resting left)
  | expire {rs left locked} : Lives o rs (.incoming left) → 0 < left →
      Lives o (rs ++ [attemptOf asset (-locked) (withAmount o left) .cancel]) (.gone left)
  | spent {rs} : Lives o rs (.incoming 0) → Lives o rs (.gone 0)
  | fill {rs left t} : Lives o rs (.resting left) → t ≤ left →
      Lives o (rs ++ [fillOf asset o.side t o.price (withAmount o (left - t))])
        (if left - t = 0 then .gone 0 else .resting (left - t))
  | cancel {rs left} : Lives o rs (.resting left) → may o left →
      Lives o (rs ++ [attemptOf asset (reserve o.side left o.price) (withAmount o left) .cancel])
        (.gone left)

end

/-! ## The reports about an order -/

/-- A report about the order with this id; rejected cancel requests have ids too. -/
def isAbout (id : UInt32) (r : OrderStateReport) : Bool := r.orderId = id && r.state != .reject

/-- The reports of the events that are about an order id. -/
def aboutIn (asset : UInt16) (id : UInt32) (es : List Event) : List OrderStateReport :=
  (es.flatMap (Event.reports asset)).filter (isAbout id)

section
variable {asset : UInt16} {id : UInt32} {es : List Event}

theorem aboutIn_snoc (e : Event) :
    aboutIn asset id (es ++ [e]) = aboutIn asset id es ++ (e.reports asset).filter
      (isAbout id) := by
  simp [aboutIn]

theorem isAbout_fillOf (sd : OrderSide) (t : UInt32) (p : Int64) (o : Order) :
    isAbout id (fillOf asset sd t p o) = decide (o.id32 = id) := by
  unfold isAbout fillOf
  simp only
  split <;> simp

theorem isAbout_attemptOf (attempt : Int64) (o : Order) {state : OrderState} (h : state ≠ .reject) :
    isAbout id (attemptOf asset attempt o state) = decide (o.id32 = id) := by
  unfold isAbout attemptOf
  simp only
  rw [show (state != .reject) = true from bne_iff_ne.2 h, Bool.and_true]

end

/-! ## The orders of an id in the book -/

/-- The orders with this id on a side. -/
def found (id : UInt32) (b : Book) (sd : OrderSide) : List Order :=
  (b sd).filter fun r => r.id32 = id

/-- What the book has of `o`. -/
def Life.shown (o : Order) (sd : OrderSide) : Life → List Order
  | .resting left => if sd = o.side then [withAmount o left] else []
  | .incoming _ | .gone _ => []

/-- The order is where its life says. -/
structure Located (o : Order) (ℓ : Life) (cur : Option Order) (b : Book) : Prop where
  shown : ∀ sd, found o.id32 b sd = ℓ.shown o sd
  current : ∀ o', cur = some o' → o'.id32 = o.id32 → ∃ left, ℓ = .incoming left
  arrived : ∀ left, ℓ = .incoming left → cur = some (withAmount o left)

theorem found_eq_nil {id : UInt32} {b : Book} {sd : OrderSide} :
    found id b sd = [] ↔ ∀ r ∈ b sd, r.id32 ≠ id := by
  simp [found]

theorem mem_executeIds {xs : List Order} {id : UInt32} :
    id ∈ executeIds xs ↔ ∃ o ∈ xs, o.action = .execute ∧ o.id32 = id := by
  simp only [executeIds, List.mem_map, List.mem_filter, decide_eq_true_eq]
  constructor
  · rintro ⟨o, ⟨ho, ha⟩, hid⟩
    exact ⟨o, ho, ha, hid⟩
  · rintro ⟨o, ho, ha, hid⟩
    exact ⟨o, ⟨ho, ha⟩, hid⟩

theorem eq_of_id32 {xs : List Order} (h : (executeIds xs).Nodup) {o o' : Order} (ho : o ∈ xs)
    (ha : o.action = .execute) (ho' : o' ∈ xs) (ha' : o'.action = .execute)
    (hid : o.id32 = o'.id32) : o = o' :=
  List.inj_on_of_nodup_map h (List.mem_filter.2 ⟨ho, by simpa using ha⟩)
    (List.mem_filter.2 ⟨ho', by simpa using ha'⟩) hid

/-! ## The invariant -/

/-- The book, the order being matched and the reports fit together. -/
structure Tracked (asset : UInt16) (may : Order → UInt32 → Prop) (d : Desk) : Prop where
  ids : (executeIds d.seen).Nodup
  known : Known d.seen d.book
  incoming : ∀ o, d.incoming = some o → o.id32 ∈ executeIds d.seen
  silent : ∀ id, id ∉ executeIds d.seen → aboutIn asset id d.events = []
  lives : ∀ o ∈ d.seen, o.action = .execute →
    ∃ ℓ, Lives asset may o (aboutIn asset o.id32 d.events) ℓ ∧ Located o ℓ d.incoming d.book

theorem tracked_start (asset : UInt16) (may : Order → UInt32 → Prop) : Tracked asset may start where
  ids := List.nodup_nil
  known := known_empty
  incoming := fun o ho => by cases ho
  silent := fun id _ => rfl
  lives := fun o ho => by cases ho

section
variable {asset : UInt16} {may : Order → UInt32 → Prop} {xs : List Order} {b : Book}
  {es : List Event} {o : Order}

theorem Tracked.arrive (h : Tracked asset may ⟨xs, none, b, es⟩) (ha : o.action = .execute)
    (hf : Fresh b o.id32) (hnew : o.id32 ∉ executeIds xs) :
    Tracked asset may ⟨xs ++ [o], some o, b, es⟩ where
  ids := by
    show (executeIds (xs ++ [o])).Nodup
    rw [executeIds_append, executeIds_of_execute ha, List.nodup_append]
    refine ⟨h.ids, List.nodup_singleton _, fun a hmem c hc he => ?_⟩
    rw [List.mem_singleton.1 hc] at he
    exact hnew (he ▸ hmem)
  known := h.known.mono (.refl b) [o]
  incoming := fun o' ho' => by
    cases ho'
    exact mem_executeIds.2 ⟨o, by simp, ha, rfl⟩
  silent := fun id hid => h.silent id fun hmem => hid (by
    rw [executeIds_append]
    exact List.mem_append_left _ hmem)
  lives := by
    intro o' ho' ha'
    obtain ho' | ho' := List.mem_append.1 ho'
    · obtain ⟨ℓ, hl, hloc⟩ := h.lives o' ho' ha'
      refine ⟨ℓ, hl, hloc.shown, fun o₁ ho₁ hid => ?_, fun left hleft => ?_⟩
      · cases ho₁
        exact absurd (mem_executeIds.2 ⟨o', ho', ha', hid.symm⟩) hnew
      · cases hloc.arrived left hleft
    · obtain rfl := List.mem_singleton.1 ho'
      refine ⟨.incoming o'.amount, ?_, fun sd => ?_, fun o₁ _ _ => ⟨_, rfl⟩, ?_⟩
      · rw [h.silent o'.id32 hnew]
        exact .arrive
      · exact found_eq_nil.2 (hf sd)
      · intro left hleft
        cases hleft
        rfl

theorem Tracked.ofIncoming (h : Tracked asset may ⟨xs, some o, b, es⟩) :
    ∃ o₀ left, o = withAmount o₀ left ∧ o₀ ∈ xs ∧ o₀.action = .execute ∧
      Lives asset may o₀ (aboutIn asset o₀.id32 es) (.incoming left) ∧ ∀ sd, found o₀.id32 b sd =
      [] := by
  obtain ⟨o₀, ho₀, ha₀, hid⟩ := mem_executeIds.1 (h.incoming o rfl)
  obtain ⟨ℓ, hl, hloc⟩ := h.lives o₀ ho₀ ha₀
  obtain ⟨left, rfl⟩ := hloc.current o rfl hid.symm
  exact ⟨o₀, left, Option.some.inj (hloc.arrived left rfl), ho₀, ha₀, hl, hloc.shown⟩

theorem Tracked.ofResting {cur : Option Order} (h : Tracked asset may ⟨xs, cur, b, es⟩)
    {sd : OrderSide} {r : Order} (hr : r ∈ b sd) :
    ∃ r₀ left, r = withAmount r₀ left ∧ r₀ ∈ xs ∧ r₀.action = .execute ∧ sd = r₀.side ∧
      Lives asset may r₀ (aboutIn asset r₀.id32 es) (.resting left) ∧
      ∀ sd, found r₀.id32 b sd = (Life.resting left).shown r₀ sd := by
  obtain ⟨r₀, hr₀, ha₀, hid⟩ := mem_executeIds.1 (h.known sd r hr)
  obtain ⟨ℓ, hl, hloc⟩ := h.lives r₀ hr₀ ha₀
  have hmem : r ∈ found r₀.id32 b sd := List.mem_filter.2 ⟨hr, by simp [hid]⟩
  rw [hloc.shown] at hmem
  cases ℓ with
  | incoming left => cases hmem
  | gone removed => cases hmem
  | resting left =>
    simp only [Life.shown] at hmem
    split at hmem
    · rename_i hsd
      exact ⟨r₀, left, List.mem_singleton.1 hmem, hr₀, ha₀, hsd, hl, hloc.shown⟩
    · cases hmem

/-- An order that a step does not concern stays where it is. -/
theorem Located.other {ℓ : Life} {cur cur' : Option Order} {b' : Book} (h : Located o ℓ cur b)
    (hcur : ∀ x, cur = some x → x.id32 ≠ o.id32) (hcur' : ∀ x, cur' = some x → x.id32 ≠ o.id32)
    (hb : ∀ sd, found o.id32 b' sd = found o.id32 b sd) : Located o ℓ cur' b' where
  shown := fun sd => (hb sd).trans (h.shown sd)
  current := fun x hx hid => absurd hid (hcur' x hx)
  arrived := fun left hleft =>
    absurd (show (withAmount o left).id32 = o.id32 from rfl) (hcur _ (h.arrived left hleft))

theorem Located.left_of_mem {ℓ : Life} (h : Located o ℓ none b) {sd : OrderSide} {r : Order}
    (hr : r ∈ b sd) (hid : r.id32 = o.id32) : ℓ = .resting r.amount := by
  have hmem : r ∈ found o.id32 b sd := List.mem_filter.2 ⟨hr, by simpa using hid⟩
  rw [h.shown sd] at hmem
  cases ℓ with
  | incoming left => cases hmem
  | gone removed => cases hmem
  | resting left =>
    simp only [Life.shown] at hmem
    split at hmem
    · rw [List.mem_singleton.1 hmem]
      rfl
    · cases hmem

theorem Located.gone_of_not_mem {ℓ : Life} (h : Located o ℓ none b)
    (hno : ∀ sd, ∀ r ∈ b sd, r.id32 ≠ o.id32) : ∃ removed, ℓ = .gone removed := by
  cases ℓ with
  | incoming left => cases h.arrived left rfl
  | gone removed => exact ⟨removed, rfl⟩
  | resting left =>
    have hshown := h.shown o.side
    rw [found_eq_nil.2 (hno o.side), Life.shown, if_pos rfl] at hshown
    cases hshown

theorem found_update {id : UInt32} {sd sd' : OrderSide} {q : List Order} :
    found id (Function.update b sd q) sd' =
      if sd' = sd then q.filter fun r => r.id32 = id else found id b sd' := by
  unfold found
  split
  · rename_i hsd
    rw [hsd, Function.update_self]
  · rename_i hsd
    rw [Function.update_of_ne hsd]

/-! ### A trade -/

theorem traded_le_left (o r : Order) : traded o r ≤ o.amount := by
  unfold traded
  split
  · exact UInt32.le_refl _
  · exact UInt32.not_lt.1 ‹_›

theorem traded_le_right (o r : Order) : traded o r ≤ r.amount := by
  unfold traded
  split
  · exact UInt32.le_of_lt ‹_›
  · exact UInt32.le_refl _

/-- A trade changes nothing for the orders with other ids. -/
theorem found_afterTrade {id : UInt32} {sd sd' : OrderSide} {r : Order} {q : List Order}
    (hq : b sd = r :: q) (hne : r.id32 ≠ id) :
    found id (Function.update b sd (afterTrade o r q)) sd' = found id b sd' := by
  rw [found_update]
  split
  · rename_i hsd
    have hless : (less r (traded o r)).id32 ≠ id := hne
    rw [found, hsd, hq, List.filter_cons_of_neg (by simpa using hne), afterTrade]
    split
    · rfl
    · rw [List.filter_cons_of_neg (by simpa using hless)]
  · rfl

theorem found_afterTrade_self {sd : OrderSide} {r₀ : Order} {left : UInt32} {q : List Order}
    (hq : b r₀.side = withAmount r₀ left :: q)
    (hfound : ∀ sd, found r₀.id32 b sd = (Life.resting left).shown r₀ sd) :
    found r₀.id32 (Function.update b r₀.side (afterTrade o (withAmount r₀ left) q)) sd =
      Life.shown r₀ sd (if left - traded o (withAmount r₀ left) = 0 then .gone 0
        else .resting (left - traded o (withAmount r₀ left))) := by
  rw [found_update]
  split
  · rename_i hsd
    -- there was only one
    have hrest : q.filter (fun r => r.id32 = r₀.id32) = [] := by
      have hone := hfound r₀.side
      rw [found, hq, List.filter_cons_of_pos (by simp [withAmount, Order.id32]), Life.shown,
        if_pos rfl] at hone
      exact (List.cons.inj hone).2
    unfold afterTrade
    rw [show (less (withAmount r₀ left) (traded o (withAmount r₀ left))).amount =
      left - traded o (withAmount r₀ left) from rfl]
    split
    · rw [hrest]
      rfl
    · rw [List.filter_cons_of_pos (by simp [less, withAmount, Order.id32]), hrest, Life.shown,
        if_pos hsd]
      rfl
  · rename_i hsd
    rw [hfound sd, Life.shown, if_neg hsd]
    split
    · rfl
    · rw [Life.shown, if_neg hsd]

theorem aboutIn_trade {id : UInt32} (sd : OrderSide) (o r : Order) (q : List Order) :
    aboutIn asset id (es ++ [tradeEvent sd o r q]) = aboutIn asset id es ++
      ((if o.id32 = id then [fillOf asset sd (traded o r) r.price (less o (traded o r))] else []) ++
        if r.id32 = id then [fillOf asset sd.opp (traded o r) r.price (less r (traded o r))]
        else []) := by
  rw [aboutIn_snoc]
  congr 1
  show List.filter (isAbout id) [fillOf asset sd (traded o r) r.price (less o (traded o r)),
    fillOf asset sd.opp (traded o r) r.price (less r (traded o r))] = _
  rw [List.filter_cons, List.filter_cons, isAbout_fillOf, isAbout_fillOf]
  simp only [List.filter_nil, decide_eq_true_eq]
  show (if o.id32 = id then _ else _) = _
  split
  · rfl
  · rfl

theorem known_afterTrade {sd : OrderSide} {r : Order} {q : List Order} (h : Known xs b)
    (hq : b sd = r :: q) : Known xs (Function.update b sd (afterTrade o r q)) := by
  intro sd' r' hr'
  by_cases hsd : sd' = sd
  · subst hsd
    have htail : ∀ x ∈ q, x.id32 ∈ executeIds xs :=
      fun x hx => h sd' x (by rw [hq]; exact .tail _ hx)
    rw [Function.update_self, afterTrade] at hr'
    split at hr'
    · exact htail r' hr'
    · obtain rfl | hr' := List.mem_cons.1 hr'
      · exact h sd' r (by rw [hq]; exact .head _)
      · exact htail r' hr'
  · rw [Function.update_of_ne hsd] at hr'
    exact h sd' r' hr'

theorem Tracked.trade (h : Tracked asset may ⟨xs, some o, b, es⟩) {r : Order} {q : List Order}
    (hq : b o.side.opp = r :: q) (h0 : 0 < o.amount) :
    Tracked asset may ⟨xs, some (less o (traded o r)),
      Function.update b o.side.opp (afterTrade o r q), es ++ [tradeEvent o.side o r q]⟩ := by
  have hr : r ∈ b o.side.opp := by
    rw [hq]
    exact .head _
  obtain ⟨r₀, rleft, rfl, hr₀, har₀, hside, hlr, hfr⟩ := h.ofResting hr
  obtain ⟨o₀, left, rfl, ho₀, ha₀, hlo, hfo⟩ := h.ofIncoming
  have hne : r₀.id32 ≠ o₀.id32 := fun he => found_eq_nil.1 (hfo _) (withAmount r₀ rleft) hr he
  refine ⟨h.ids, known_afterTrade h.known hq, ?_, ?_, ?_⟩
  · intro x hx
    cases hx
    exact mem_executeIds.2 ⟨o₀, ho₀, ha₀, rfl⟩
  · intro id hid
    have hido : o₀.id32 ≠ id := fun he => hid (mem_executeIds.2 ⟨o₀, ho₀, ha₀, he⟩)
    have hidr : r₀.id32 ≠ id := fun he => hid (mem_executeIds.2 ⟨r₀, hr₀, har₀, he⟩)
    rw [aboutIn_trade, h.silent id hid, withAmount_id32, withAmount_id32, if_neg hido, if_neg hidr]
    rfl
  · intro x hx hax
    dsimp only
    rw [aboutIn_trade, withAmount_id32, withAmount_id32]
    by_cases hxo : x.id32 = o₀.id32
    · -- the aggressor
      obtain rfl := eq_of_id32 h.ids hx hax ho₀ ha₀ hxo
      rw [if_pos rfl, if_neg hne, List.append_nil]
      refine ⟨_, hlo.take h0 (traded_le_left _ _), ⟨fun sd => ?_, fun _ _ _ => ⟨_, rfl⟩, ?_⟩⟩
      · rw [found_afterTrade hq hne, hfo]
        rfl
      · intro left' hleft'
        cases hleft'
        rfl
    · rw [if_neg (fun he => hxo he.symm), List.nil_append]
      by_cases hxr : x.id32 = r₀.id32
      · -- the resting order
        obtain rfl := eq_of_id32 h.ids hx hax hr₀ har₀ hxr
        rw [if_pos rfl]
        rw [withAmount_side] at hside hq ⊢
        rw [hside] at hq ⊢
        refine ⟨_, hlr.fill (traded_le_right _ _), ⟨fun sd => ?_, ?_, ?_⟩⟩
        · exact found_afterTrade_self hq hfr
        · intro y hy hid
          cases hy
          exact absurd hid.symm hxo
        · intro left' hleft'
          split at hleft'
          · cases hleft'
          · cases hleft'
      · rw [if_neg (fun he => hxr he.symm), List.append_nil]
        obtain ⟨ℓ, hl, hloc⟩ := h.lives x hx hax
        refine ⟨ℓ, hl, hloc.other ?_ ?_ fun sd => found_afterTrade hq (fun he => hxr he.symm)⟩
        · intro y hy he
          cases hy
          exact hxo he.symm
        · intro y hy he
          cases hy
          exact hxo he.symm

/-! ### The end of an order's processing -/

theorem filter_enqueue {sd : OrderSide} {p : Order → Bool} (q : List Order) :
    p o = false → (enqueue sd o q).filter p = q.filter p := by
  intro hp
  induction q with
  | nil => simp [enqueue, hp]
  | cons r q ih =>
    unfold enqueue
    split
    · rw [List.filter_cons_of_neg (by simp [hp])]
    · rw [List.filter_cons, List.filter_cons, ih]

theorem filter_enqueue_self {sd : OrderSide} {p : Order → Bool} (q : List Order) (hp : p o = true)
    (hq : q.filter p = []) : (enqueue sd o q).filter p = [o] := by
  induction q with
  | nil => simp [enqueue, hp]
  | cons r q ih =>
    have hr : p r = false := by
      cases hpr : p r with
      | false => rfl
      | true => simp [hpr] at hq
    rw [List.filter_cons_of_neg (by simp [hr])] at hq
    unfold enqueue
    split
    · rw [List.filter_cons_of_pos hp, List.filter_cons_of_neg (by simp [hr]), hq]
    · rw [List.filter_cons_of_neg (by simp [hr]), ih hq]

/-- The life of the order being processed ends or goes on in the book; nothing changes for the
others. -/
theorem Tracked.settle (h : Tracked asset may ⟨xs, some o, b, es⟩) {b' : Book} {es' : List Event}
    (hknown : Known xs b') (hb : ∀ id, id ≠ o.id32 → ∀ sd, found id b' sd = found id b sd)
    (hes : ∀ id, id ≠ o.id32 → aboutIn asset id es' = aboutIn asset id es)
    (hlife : ∀ o₀ left, o = withAmount o₀ left → o₀ ∈ xs → o₀.action = .execute →
      (∀ sd, found o₀.id32 b sd = []) → Lives asset may o₀ (aboutIn asset o₀.id32 es)
      (.incoming left) →
      ∃ ℓ, Lives asset may o₀ (aboutIn asset o₀.id32 es') ℓ ∧ (∀ left, ℓ ≠ .incoming left) ∧
        ∀ sd, found o₀.id32 b' sd = ℓ.shown o₀ sd) :
    Tracked asset may ⟨xs, none, b', es'⟩ := by
  obtain ⟨o₀, left, rfl, ho₀, ha₀, hlo, hfo⟩ := h.ofIncoming
  refine ⟨h.ids, hknown, (fun x hx => nomatch hx), ?_, ?_⟩
  · intro id hid
    rw [hes id (fun he => hid (mem_executeIds.2 ⟨o₀, ho₀, ha₀, he.symm⟩)), h.silent id hid]
  · intro x hx hax
    by_cases hxo : x.id32 = o₀.id32
    · obtain rfl := eq_of_id32 h.ids hx hax ho₀ ha₀ hxo
      obtain ⟨ℓ, hl, hin, hshown⟩ := hlife x left rfl ho₀ ha₀ hfo hlo
      exact ⟨ℓ, hl, hshown, (fun y hy => nomatch hy), fun left' hleft' => absurd hleft' (hin left')⟩
    · obtain ⟨ℓ, hl, hloc⟩ := h.lives x hx hax
      refine ⟨ℓ, ?_, hloc.other ?_ (fun y hy => nomatch hy) (hb x.id32 hxo)⟩
      · rw [hes x.id32 hxo]
        exact hl
      · intro y hy he
        cases hy
        exact hxo he.symm

theorem aboutIn_attempt {id : UInt32} {e : Event} {attempt : Int64} {state : OrderState}
    (he : e.reports asset = [attemptOf asset attempt o state]) (hs : state ≠ .reject) :
    aboutIn asset id (es ++ [e]) =
      aboutIn asset id es ++ if o.id32 = id then [attemptOf asset attempt o state] else [] := by
  rw [aboutIn_snoc, he, List.filter_cons, isAbout_attemptOf _ _ hs]
  simp only [List.filter_nil, decide_eq_true_eq]

theorem found_rest {id : UInt32} {sd : OrderSide} (hne : id ≠ o.id32) :
    found id (Reference.rest b o).1 sd = found id b sd := by
  simp only [Reference.rest]
  rw [found_update]
  split
  · rename_i hsd
    rw [filter_enqueue _ (by simpa using hne.symm), hsd]
    rfl
  · rfl

theorem Tracked.rest (h : Tracked asset may ⟨xs, some o, b, es⟩) (hpos : 0 < o.amount ∨ o ∈ xs) :
    Tracked asset may ⟨xs, none, (Reference.rest b o).1, es ++ (Reference.rest b o).2⟩ := by
  have habout : ∀ id, aboutIn asset id (es ++ (Reference.rest b o).2) = aboutIn asset id es ++
      if o.id32 = id then [attemptOf asset (reserve o.side o.amount o.price) o .add] else [] :=
    fun id => aboutIn_attempt rfl (by decide)
  refine h.settle ?_ (fun id hne sd => found_rest hne) (fun id hne => ?_) ?_
  · intro sd r hr
    obtain hr | ⟨-, rfl⟩ := mem_rest hr
    · exact h.known sd r hr
    · exact h.incoming _ rfl
  · rw [habout, if_neg hne.symm, List.append_nil]
  · intro o₀ left ho ho₀ ha₀ hfound hl
    subst ho
    refine ⟨.resting left, ?_, (fun _ hx => nomatch hx), fun sd => ?_⟩
    · rw [habout, withAmount_id32, if_pos rfl]
      refine hl.rest ?_
      obtain hpos | hmem := hpos
      · exact .inl hpos
      · have heq : withAmount o₀ left = o₀ := eq_of_id32 h.ids hmem ha₀ ho₀ ha₀ rfl
        exact .inr (congrArg Order.amount heq)
    · simp only [Reference.rest, Life.shown]
      rw [found_update]
      show (if sd = o₀.side then _ else _) = _
      split
      · exact filter_enqueue_self _ (by simp [withAmount, Order.id32]) (hfound _)
      · exact hfound sd

theorem Tracked.expire (h : Tracked asset may ⟨xs, some o, b, es⟩) (hpos : 0 < o.amount)
    (locked : Int64) : Tracked asset may ⟨xs, none, b, es ++ [.expire o locked]⟩ := by
  have habout : ∀ id, aboutIn asset id (es ++ [.expire o locked]) = aboutIn asset id es ++
      if o.id32 = id then [attemptOf asset (-locked) o .cancel] else [] :=
    fun id => aboutIn_attempt rfl (by decide)
  refine h.settle h.known (fun _ _ _ => rfl) (fun id hne => ?_) ?_
  · rw [habout, if_neg hne.symm, List.append_nil]
  · intro o₀ left ho ho₀ ha₀ hfound hl
    subst ho
    refine ⟨.gone left, ?_, (fun _ hx => nomatch hx), hfound⟩
    rw [habout, withAmount_id32, if_pos rfl]
    exact hl.expire hpos

theorem Tracked.spent (h : Tracked asset may ⟨xs, some o, b, es⟩) (hzero : o.amount = 0) :
    Tracked asset may ⟨xs, none, b, es⟩ := by
  refine h.settle h.known (fun _ _ _ => rfl) (fun _ _ => rfl) ?_
  intro o₀ left ho ho₀ ha₀ hfound hl
  subst ho
  obtain rfl : left = 0 := hzero
  exact ⟨.gone 0, hl.spent, (fun _ hx => nomatch hx), hfound⟩

/-! ### Cancel requests -/

theorem executeIds_cancel {c : Order} (hc : c.action = .cancel) :
    executeIds (xs ++ [c]) = executeIds xs := by
  simp [executeIds, hc]

theorem mem_of_execute {c : Order} (hc : c.action = .cancel) (ho : o ∈ xs ++ [c])
    (ha : o.action = .execute) : o ∈ xs := by
  obtain ho | ho := List.mem_append.1 ho
  · exact ho
  · rw [List.mem_singleton.1 ho, hc] at ha
    cases ha

theorem Tracked.request {c : Order} (hc : c.action = .cancel)
    (h : Tracked asset may ⟨xs, none, b, es⟩) : Tracked asset may ⟨xs ++ [c], none, b, es⟩ where
  ids := by
    show (executeIds (xs ++ [c])).Nodup
    rw [executeIds_cancel hc]
    exact h.ids
  known := h.known.mono (.refl b) [c]
  incoming := fun _ hx => nomatch hx
  silent := fun id hid => h.silent id (by
    rw [← executeIds_cancel hc]
    exact hid)
  lives := fun o ho ha => h.lives o (mem_of_execute hc ho ha) ha

theorem target_mem {c r : Order} (h : target b c = some r) : ∃ sd, r ∈ b sd := by
  obtain hr | hr := List.mem_append.1 (List.mem_of_find?_eq_some h)
  · exact ⟨.buy, hr⟩
  · exact ⟨.sell, hr⟩

theorem Tracked.cancel (h : Tracked asset may ⟨xs, none, b, es⟩) {c r : Order}
    (ht : target b c = some r) (hmay : ∀ r₀ left, r = withAmount r₀ left → may r₀ left)
    (depth : UInt32) :
    Tracked asset may ⟨xs, none,
      Function.update b r.side ((b r.side).filter fun x => x.id32 ≠ r.id32),
      es ++ [.cancel r depth]⟩ := by
  have habout : ∀ id, aboutIn asset id (es ++ [.cancel r depth]) = aboutIn asset id es ++
      if r.id32 = id then [attemptOf asset (reserve r.side r.amount r.price) r .cancel] else [] :=
    fun id => aboutIn_attempt rfl (by decide)
  obtain ⟨sd₀, hr⟩ := target_mem ht
  obtain ⟨r₀, left, rfl, hr₀, har₀, -, hlr, hfr⟩ := h.ofResting hr
  have hkept : ∀ id, id ≠ r₀.id32 → ∀ sd, found id (Function.update b r₀.side
      ((b r₀.side).filter fun x => x.id32 ≠ r₀.id32)) sd = found id b sd := by
    intro id hne sd
    rw [found_update]
    split
    · rename_i hsd
      rw [List.filter_filter, found, hsd]
      refine List.filter_congr fun x _ => ?_
      by_cases hx : x.id32 = id
      · simp [hx, hne]
      · simp [hx]
    · rfl
  refine ⟨h.ids, ?_, (fun x hx => nomatch hx), ?_, ?_⟩
  · intro sd x hx
    by_cases hsd : sd = r₀.side
    · subst hsd
      have hx' : x ∈ (b r₀.side).filter fun x => x.id32 ≠ r₀.id32 := by
        rw [← Function.update_self r₀.side ((b r₀.side).filter fun x => x.id32 ≠ r₀.id32) b]
        exact hx
      exact h.known _ x (List.mem_filter.1 hx').1
    · have hx' : x ∈ b sd := by
        rw [← Function.update_of_ne hsd ((b r₀.side).filter fun x => x.id32 ≠ r₀.id32) b]
        exact hx
      exact h.known sd x hx'
  · intro id hid
    have hne : r₀.id32 ≠ id := fun he => hid (mem_executeIds.2 ⟨r₀, hr₀, har₀, he⟩)
    rw [habout, h.silent id hid]
    exact if_neg hne
  · intro x hx hax
    dsimp only
    rw [habout]
    by_cases hxr : x.id32 = r₀.id32
    · obtain rfl := eq_of_id32 h.ids hx hax hr₀ har₀ hxr
      refine ⟨.gone left, ?_, ⟨fun sd => ?_, (fun y hy => nomatch hy), (fun _ hx => nomatch hx)⟩⟩
      · rw [withAmount_id32, if_pos rfl]
        exact hlr.cancel (hmay x left rfl)
      · show found x.id32 (Function.update b x.side ((b x.side).filter fun y => y.id32 ≠ x.id32))
          sd = []
        rw [found_update]
        split
        · rw [List.filter_filter, List.filter_eq_nil_iff]
          intro y _
          simp
        · rename_i hsd
          rw [hfr sd, Life.shown, if_neg hsd]
    · obtain ⟨ℓ, hl, hloc⟩ := h.lives x hx hax
      refine ⟨ℓ, ?_, hloc.other (fun y hy => nomatch hy) (fun y hy => nomatch hy)
        (hkept x.id32 hxr)⟩
      rw [withAmount_id32, if_neg (fun he => hxr he.symm), List.append_nil]
      exact hl

theorem Tracked.reject (h : Tracked asset may ⟨xs, none, b, es⟩) (c : Order) :
    Tracked asset may ⟨xs, none, b, es ++ [.reject c]⟩ := by
  have habout : ∀ id, aboutIn asset id (es ++ [.reject c]) = aboutIn asset id es := by
    intro id
    rw [aboutIn_snoc]
    simp [Event.reports, isAbout]
  refine ⟨h.ids, h.known, h.incoming, fun id hid => ?_, fun x hx hax => ?_⟩
  · rw [habout]
    exact h.silent id hid
  · dsimp only
    rw [habout]
    exact h.lives x hx hax

end

/-- **Every order lives as its reports say.** -/
theorem steps_tracked {ok : Book → Order → Prop} (asset : UInt16) (may : Order → UInt32 → Prop)
    (hmay : ∀ b c r₀ left, ok b c → c.action = .cancel → target b c = some (withAmount r₀ left) →
      may r₀ left) {d : Desk}
    (h : Steps ok start d) : Tracked asset may d := by
  refine h.invariant (fun d d' hstep hd => ?_) (tracked_start asset may)
  cases hstep with
  | arrive _ ha hf hnew => exact hd.arrive ha hf hnew
  | trade hq h0 _ => exact hd.trade hq h0
  | rest _ hpos => exact hd.rest hpos
  | expire _ hpos => exact hd.expire hpos _
  | spent hzero => exact hd.spent hzero
  | cancel hok ha ht =>
    refine (hd.cancel ht (fun r₀ left hr => ?_) _).request ha
    rw [hr] at ht
    exact hmay _ _ _ _ hok ha ht
  | reject _ ha _ => exact (hd.reject _).request ha

end Naoto.Engine
