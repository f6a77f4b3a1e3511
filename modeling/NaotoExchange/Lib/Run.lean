import Mathlib

/-!
# Runs of a fallible step function

`run step s₀ as` feeds the inputs `as` to `step` one after the other and collects the outputs;
it stops at the first fault. `Along pre step s₀ as` says that `pre` holds of every state a run
over `as` reaches, together with the input consumed there. Both induction rules go along the
consumed inputs from the left, so that an invariant may speak about the history.

A step function that cannot fail is run by `List.foldl`; `Through` is `Along` for it.
-/

namespace Run

variable {σ α β ε : Type}

/-- The state and the outputs after the inputs `as`. -/
def run (step : σ → α → Except ε (σ × β)) (s₀ : σ) (as : List α) : Except ε (σ × List β) :=
  as.foldl (fun r a => r.bind fun p => (step p.1 a).map fun q => (q.1, p.2 ++ [q.2]))
    (.ok (s₀, []))

/-- A computation goes through, and `p` is true of what it gives. -/
def succeeds (r : Except ε α) (p : α → Bool) : Bool :=
  match r with
  | .ok a => p a
  | .error _ => false

theorem exists_of_succeeds {r : Except ε (σ × β)} {P : σ → β → Prop} [∀ s b, Decidable (P s b)]
    (h : succeeds r (fun x => decide (P x.1 x.2)) = true) : ∃ s b, r = .ok (s, b) ∧ P s b := by
  cases r with
  | error e => cases h
  | ok x => exact ⟨x.1, x.2, rfl, of_decide_eq_true h⟩

theorem holds_of_succeeds {r : Except ε (σ × β)} {P : σ → β → Prop} [∀ s b, Decidable (P s b)]
    {s : σ}
    {b : β} (hr : r = .ok (s, b)) (h : succeeds r (fun x => decide (P x.1 x.2)) = true) :
    P s b := by
  rw [hr] at h
  exact of_decide_eq_true h

/-- Every state reached by a run over `as` meets `pre` with the input consumed there. -/
def Along (pre : σ → α → Prop) (step : σ → α → Except ε (σ × β)) (s₀ : σ) (as : List α) : Prop :=
  ∀ xs a, xs ++ [a] <+: as → ∀ s bs, run step s₀ xs = .ok (s, bs) → pre s a

variable {step : σ → α → Except ε (σ × β)} {s₀ s s' : σ} {as xs : List α} {a : α}
  {b : β} {bs : List β} {pre : σ → α → Prop}

@[simp] theorem run_nil : run step s₀ [] = .ok (s₀, []) := rfl

theorem run_snoc (as : List α) (a : α) : run step s₀ (as ++ [a]) =
    (run step s₀ as).bind fun p => (step p.1 a).map fun q => (q.1, p.2 ++ [q.2]) := by
  simp [run]

theorem run_snoc_ok (h : run step s₀ as = .ok (s, bs)) (hs : step s a = .ok (s', b)) :
    run step s₀ (as ++ [a]) = .ok (s', bs ++ [b]) := by
  rw [run_snoc, h]
  simp [Except.bind, Except.map, hs]

/-- A run over `as ++ [a]` is a run over `as` and one more step. -/
theorem run_snoc_inv {r : List β} (h : run step s₀ (as ++ [a]) = .ok (s', r)) :
    ∃ s bs b, run step s₀ as = .ok (s, bs) ∧ step s a = .ok (s', b) ∧ r = bs ++ [b] := by
  rw [run_snoc] at h
  cases h1 : run step s₀ as with
  | error e => rw [h1] at h; cases h
  | ok p =>
    rw [h1] at h
    simp only [Except.bind] at h
    cases h2 : step p.1 a with
    | error e => rw [h2] at h; cases h
    | ok q =>
      rw [h2] at h
      simp only [Except.map, Except.ok.injEq, Prod.mk.injEq] at h
      exact ⟨p.1, p.2, q.2, rfl, by rw [h2, ← h.1], h.2.symm⟩

theorem run_error {e : ε} (h : run step s₀ as = .error e) :
    ∃ xs a s bs, xs ++ [a] <+: as ∧ run step s₀ xs = .ok (s, bs) ∧ step s a = .error e := by
  induction as using List.reverseRecOn with
  | nil => cases h
  | append_singleton as a ih =>
    rw [run_snoc] at h
    cases h1 : run step s₀ as with
    | error e' =>
      rw [h1] at h
      cases h
      obtain ⟨xs, c, s, bs, hp, hr, hs⟩ := ih h1
      exact ⟨xs, c, s, bs, hp.trans (List.prefix_append _ _), hr, hs⟩
    | ok p =>
      rw [h1] at h
      simp only [Except.bind] at h
      cases h2 : step p.1 a with
      | error e' =>
        rw [h2] at h
        cases h
        exact ⟨as, a, p.1, p.2, List.prefix_refl _, h1, h2⟩
      | ok q => rw [h2] at h; cases h

/-- What `f` reads off the steps of a run, up to a step that fails. -/
def collect {γ : Type} (f : σ → α → List γ) (step : σ → α → Except ε (σ × β)) : σ → List α → List γ
  | _, [] => []
  | s, a :: as => f s a ++
    match step s a with
    | .error _ => []
    | .ok q => collect f step q.1 as

/-! ## Deciding a condition along a concrete run -/

theorem foldl_bind (as : List α) (r : Except ε (σ × List β)) :
    as.foldl (fun r a => r.bind fun p => (step p.1 a).map fun q => (q.1, p.2 ++ [q.2])) r =
      r.bind fun p => (run step p.1 as).map fun q => (q.1, p.2 ++ q.2) := by
  induction as using List.reverseRecOn with
  | nil => cases r <;> simp [run, Except.bind, Except.map]
  | append_singleton as a ih =>
    rw [List.foldl_append, ih]
    cases r with
    | error e => rfl
    | ok p =>
      simp only [Except.bind, run_snoc, List.foldl_cons, List.foldl_nil]
      cases run step p.1 as with
      | error e => rfl
      | ok q =>
        simp only [Except.map]
        cases step q.1 a with
        | error e => rfl
        | ok t => simp

theorem run_cons (a : α) (as : List α) : run step s₀ (a :: as) =
    (step s₀ a).bind fun q => (run step q.1 as).map fun p => (p.1, q.2 :: p.2) := by
  rw [run, List.foldl_cons, foldl_bind]
  simp only [Except.bind]
  cases step s₀ a with
  | error e => rfl
  | ok q => rfl

theorem collect_snoc {γ : Type} {f : σ → α → List γ} (h : run step s₀ as = .ok (s, bs)) :
    collect f step s₀ (as ++ [a]) = collect f step s₀ as ++ f s a := by
  induction as generalizing s₀ bs with
  | nil =>
    simp only [run_nil, Except.ok.injEq, Prod.mk.injEq] at h
    rw [← h.1]
    simp only [List.nil_append, collect]
    cases step s₀ a <;> simp
  | cons x as ih =>
    rw [run_cons] at h
    simp only [List.cons_append, collect]
    cases hq : step s₀ x with
    | error e => rw [hq] at h; cases h
    | ok q =>
      rw [hq] at h
      simp only [Except.bind] at h
      cases hp : run step q.1 as with
      | error e => rw [hp] at h; cases h
      | ok p =>
        rw [hp] at h
        simp only [Except.map, Except.ok.injEq, Prod.mk.injEq] at h
        simp only [ih (hp.trans (by rw [← h.1])), List.append_assoc]

theorem along_cons : Along pre step s₀ (a :: as) ↔
    pre s₀ a ∧ ∀ q, step s₀ a = .ok q → Along pre step q.1 as := by
  constructor
  · intro h
    refine ⟨h [] a (by simp) s₀ [] rfl, fun q hq xs c hx t bs hr => ?_⟩
    refine h (a :: xs) c (by simpa using hx) t (q.2 :: bs) ?_
    rw [run_cons, hq]
    simp only [Except.bind, hr, Except.map]
  · rintro ⟨h0, hs⟩ xs c hx t bs hr
    cases xs with
    | nil =>
      simp only [List.nil_append, List.cons_prefix_cons] at hx
      simp only [run_nil, Except.ok.injEq, Prod.mk.injEq] at hr
      rw [hx.1, ← hr.1]
      exact h0
    | cons x xs =>
      simp only [List.cons_append, List.cons_prefix_cons] at hx
      obtain ⟨rfl, hx⟩ := hx
      rw [run_cons] at hr
      cases hq : step s₀ x with
      | error e => rw [hq] at hr; cases hr
      | ok q =>
        rw [hq] at hr
        simp only [Except.bind] at hr
        cases hp : run step q.1 xs with
        | error e => rw [hp] at hr; cases hr
        | ok p =>
          rw [hp] at hr
          simp only [Except.map, Except.ok.injEq, Prod.mk.injEq] at hr
          exact hs q hq xs c hx t p.2 (by rw [hp, ← hr.1])

theorem along_nil : Along pre step s₀ [] := fun xs a hx => by simp at hx

instance decidableAlong [∀ s a, Decidable (pre s a)] :
    ∀ (s₀ : σ) (as : List α), Decidable (Along pre step s₀ as)
  | _, [] => .isTrue along_nil
  | s₀, a :: as =>
    match h : step s₀ a with
    | .ok q =>
      haveI := decidableAlong q.1 as
      decidable_of_iff (pre s₀ a ∧ Along pre step q.1 as)
        (by rw [along_cons]; simp [h])
    | .error e =>
      decidable_of_iff (pre s₀ a) (by rw [along_cons]; simp [h])

theorem Along.restrict (h : Along pre step s₀ as) (hp : xs <+: as) : Along pre step s₀ xs :=
  fun ys a hy => h ys a (hy.trans hp)

/-- **Partial correctness of a run**: what holds at the start and is kept by every step taken
holds wherever the run gets to. -/
theorem run_invariant {P : List α → σ → List β → Prop} (h0 : P [] s₀ [])
    (hpre : Along pre step s₀ as)
    (hstep : ∀ xs a s bs s' b, xs ++ [a] <+: as → run step s₀ xs = .ok (s, bs) → P xs s bs →
      pre s a → step s a = .ok (s', b) → P (xs ++ [a]) s' (bs ++ [b]))
    (h : run step s₀ as = .ok (s, bs)) : P as s bs := by
  induction as using List.reverseRecOn generalizing s bs with
  | nil =>
    simp only [run_nil, Except.ok.injEq, Prod.mk.injEq] at h; obtain ⟨rfl, rfl⟩ := h; exact h0
  | append_singleton as a ih =>
    obtain ⟨s₁, bs₁, b₁, h1, h2, rfl⟩ := run_snoc_inv h
    have hP := ih (hpre.restrict (List.prefix_append _ _))
      (fun xs c t cs t' d hx => hstep xs c t cs t' d (hx.trans (List.prefix_append _ _))) h1
    exact hstep as a s₁ bs₁ s b₁ (List.prefix_refl _) h1 hP
      (hpre as a (List.prefix_refl _) _ _ h1) h2

/-- **Total correctness of a run**: if moreover every step succeeds, so does the run. -/
theorem run_total {P : List α → σ → List β → Prop} (h0 : P [] s₀ [])
    (hpre : Along pre step s₀ as)
    (hstep : ∀ xs a s bs, xs ++ [a] <+: as → run step s₀ xs = .ok (s, bs) → P xs s bs →
      pre s a → ∃ s' b, step s a = .ok (s', b) ∧ P (xs ++ [a]) s' (bs ++ [b])) :
    ∃ s bs, run step s₀ as = .ok (s, bs) ∧ P as s bs := by
  induction as using List.reverseRecOn with
  | nil => exact ⟨s₀, [], rfl, h0⟩
  | append_singleton as a ih =>
    obtain ⟨s, bs, h1, hP⟩ := ih (hpre.restrict (List.prefix_append _ _))
      (fun xs c t cs hx => hstep xs c t cs (hx.trans (List.prefix_append _ _)))
    obtain ⟨s', b, h2, hP'⟩ :=
      hstep as a s bs (List.prefix_refl _) h1 hP (hpre as a (List.prefix_refl _) _ _ h1)
    exact ⟨s', bs ++ [b], run_snoc_ok h1 h2, hP'⟩

/-! ## Steps that cannot fail -/

section
variable {next : σ → α → σ}

/-- Every state that the inputs `as` lead through meets `pre` with the input consumed there. -/
def Through (pre : σ → α → Prop) (next : σ → α → σ) (s₀ : σ) (as : List α) : Prop :=
  ∀ xs a, xs ++ [a] <+: as → pre (xs.foldl next s₀) a

theorem through_nil : Through pre next s₀ [] := fun xs a hx => by simp at hx

theorem through_cons : Through pre next s₀ (a :: as) ↔
    pre s₀ a ∧ Through pre next (next s₀ a) as := by
  constructor
  · intro h
    exact ⟨h [] a (by simp), fun xs c hx => h (a :: xs) c (by simpa using hx)⟩
  · rintro ⟨h0, hs⟩ xs c hx
    cases xs with
    | nil =>
      simp only [List.nil_append, List.cons_prefix_cons] at hx
      rw [hx.1]
      exact h0
    | cons x xs =>
      simp only [List.cons_append, List.cons_prefix_cons] at hx
      rw [hx.1]
      exact hs xs c hx.2

instance decidableThrough [∀ s a, Decidable (pre s a)] :
    ∀ (s₀ : σ) (as : List α), Decidable (Through pre next s₀ as)
  | _, [] => .isTrue through_nil
  | s₀, a :: as =>
    haveI := decidableThrough (next s₀ a) as
    decidable_of_iff (pre s₀ a ∧ Through pre next (next s₀ a) as) through_cons.symm

theorem Through.restrict (h : Through pre next s₀ as) (hp : xs <+: as) : Through pre next s₀ xs :=
  fun ys a hy => h ys a (hy.trans hp)

/-- What holds at the start and is kept by every step holds at the end. -/
theorem foldl_invariant {P : List α → σ → Prop} (h0 : P [] s₀) (hpre : Through pre next s₀ as)
    (hstep : ∀ xs a s, P xs s → pre s a → P (xs ++ [a]) (next s a)) : P as (as.foldl next s₀) := by
  induction as using List.reverseRecOn with
  | nil => exact h0
  | append_singleton as a ih =>
    rw [List.foldl_append]
    exact hstep as a _ (ih (hpre.restrict (List.prefix_append _ _)))
      (hpre as a (List.prefix_refl _))

end

end Run
