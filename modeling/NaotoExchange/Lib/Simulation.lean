import NaotoExchange.Lib.Run

/-!
# Two fallible computations side by side

`Lifts R r q`: the computations `r` and `q` fail alike, or both go through and `R` relates what they
give. `run_lifts` is the simulation rule for runs: steps that are simulated in related states make
related runs, with the same outputs. A condition along one run then holds along the other
(`Along.of_lifts`).
-/

namespace Run

variable {α β γ σ τ ε : Type}

/-- Both computations fail with one fault, or both go through with related results. -/
inductive Lifts (R : α → β → Prop) : Except ε α → Except ε β → Prop
  | error (e : ε) : Lifts R (.error e) (.error e)
  | ok {a : α} {b : β} (h : R a b) : Lifts R (.ok a) (.ok b)

namespace Lifts

variable {R R' : α → β → Prop} {r : Except ε α} {q : Except ε β}

theorem elim (h : Lifts R r q) :
    (∃ e, r = .error e ∧ q = .error e) ∨ ∃ a b, r = .ok a ∧ q = .ok b ∧ R a b := by
  cases h with
  | error e => exact .inl ⟨e, rfl, rfl⟩
  | ok h => exact .inr ⟨_, _, rfl, rfl, h⟩

theorem mono (h : Lifts R r q) (himp : ∀ a b, R a b → R' a b) : Lifts R' r q := by
  cases h with
  | error e => exact .error e
  | ok h => exact .ok (himp _ _ h)

theorem of_ok_left {a : α} (h : Lifts R r q) (hr : r = .ok a) : ∃ b, q = .ok b ∧ R a b := by
  cases h with
  | error e => cases hr
  | ok h => cases hr; exact ⟨_, rfl, h⟩

theorem of_ok_right {b : β} (h : Lifts R r q) (hq : q = .ok b) : ∃ a, r = .ok a ∧ R a b := by
  cases h with
  | error e => cases hq
  | ok h => cases hq; exact ⟨_, rfl, h⟩

theorem of_error_left {e : ε} (h : Lifts R r q) (hr : r = .error e) : q = .error e := by
  cases h with
  | error e => cases hr; rfl
  | ok h => cases hr

end Lifts

section
variable {step : σ → α → Except ε (σ × β)} {step' : τ → α → Except ε (τ × β)}
  {R : List α → σ → τ → Prop} {s₀ : σ} {t₀ : τ} {as : List α}
  {pre : σ → α → Prop} {pre' : τ → α → Prop}

/-- The states are related, the outputs are the same. -/
def Alike (R : σ → τ → Prop) (p : σ × γ) (q : τ × γ) : Prop := R p.1 q.1 ∧ p.2 = q.2

/-- **Simulation of runs.** -/
theorem run_lifts (h0 : R [] s₀ t₀) (hpre : Along pre step s₀ as)
    (hstep : ∀ xs a s t, xs ++ [a] <+: as → R xs s t → pre s a →
      Lifts (Alike (R (xs ++ [a]))) (step s a) (step' t a)) :
    Lifts (Alike (R as)) (run step s₀ as) (run step' t₀ as) := by
  induction as using List.reverseRecOn with
  | nil => exact .ok ⟨h0, rfl⟩
  | append_singleton as a ih =>
    have hrun := ih (hpre.restrict (List.prefix_append _ _))
      fun xs c s t hx => hstep xs c s t (hx.trans (List.prefix_append _ _))
    rw [run_snoc, run_snoc]
    rcases hrun.elim with ⟨e, hr, hr'⟩ | ⟨⟨s, bs⟩, ⟨t, bs'⟩, hr, hr', hR, rfl : bs = bs'⟩
    · rw [hr, hr']
      exact .error e
    · rw [hr, hr']
      have hone := hstep as a s t (List.prefix_refl _) hR (hpre as a (List.prefix_refl _) s bs hr)
      simp only [Except.bind]
      rcases hone.elim with ⟨e, hs, hs'⟩ | ⟨p, q, hs, hs', hR', hb⟩
      · rw [hs, hs']
        exact .error e
      · rw [hs, hs']
        exact .ok ⟨hR', congrArg (fun b => bs ++ [b]) hb⟩

/-- What a condition along one run says about related states holds along the other. -/
theorem Along.of_lifts (hpre : Along pre step s₀ as)
    (hruns : ∀ xs, xs <+: as → Lifts (Alike (R xs)) (run step s₀ xs) (run step' t₀ xs))
    (himp : ∀ xs s t a, R xs s t → pre s a → pre' t a) : Along pre' step' t₀ as := by
  intro xs a hx t bs hr
  obtain ⟨⟨s, bs'⟩, hs, hR, -⟩ := (hruns xs ((List.prefix_append _ _).trans hx)).of_ok_right hr
  exact himp xs s t a hR (hpre xs a hx s bs' hs)

end

end Run
