import Mathlib

/-!
# Granting against an outdated view

A balance starts at `base` and changes with the entries of a log: an entry `e` pays `paid e`.
Against the balance stands what is due. A checker takes on new obligations, but all it knows of the
log is a prefix of it, and it reads the entries in its own way: `e` changes what it takes for
available by `shown e`.

* `Covers due due' es`: the entries `es`, written while the obligations go from `due` to `due'`,
  never pay out more than was due, and show the checker no more than they free.
* `Solvent base granted due log`: no prefix of the log overdraws the balance, the balance covers
  what is due, and no prefix shows more than is free. It holds at the start (`solvent_start`),
  whenever the checker grants what some prefix shows to be available (`Solvent.grant`), and when
  entries are written that cover the change of what is due (`Solvent.append`).
-/

namespace Escrow

/-- A prefix of two lists is one of the first, or has all of it and one of the second. -/
theorem prefix_append_cases {E : Type} {p es fs : List E} (h : p <+: es ++ fs) :
    p <+: es ∨ ∃ q, q <+: fs ∧ p = es ++ q := by
  obtain ⟨t, ht⟩ := h
  obtain ⟨q, hq, -⟩ | ⟨q, rfl, hfs⟩ := List.append_eq_append_iff.1 ht
  · exact .inl ⟨q, hq.symm⟩
  · exact .inr ⟨q, ⟨t, hfs.symm⟩, rfl⟩

variable {E G : Type} [AddCommGroup G]

/-- What the entries add up to. -/
def total (f : E → G) (es : List E) : G := (es.map f).sum

@[simp] theorem total_nil (f : E → G) : total f [] = 0 := rfl

@[simp] theorem total_cons (f : E → G) (e : E) (es : List E) :
    total f (e :: es) = f e + total f es := by
  simp [total]

@[simp] theorem total_append (f : E → G) (es fs : List E) :
    total f (es ++ fs) = total f es + total f fs := by
  simp [total]

variable [LinearOrder G] (paid shown : E → G)

/-- Between two states that owe `due` and `due'` the events cover the change, at every point. -/
structure Covers (due due' : G) (es : List E) : Prop where
  shows : ∀ p, p <+: es → total shown p ≤ total paid es + due - due'
  pays : ∀ p, p <+: es → 0 ≤ due + total paid p

/-- From `base` on, with `granted` reserved: the log never overdraws, what is left covers what is
owed, and no view of the log promises more than is free. -/
structure Solvent (base granted due : G) (log : List E) : Prop where
  kept : ∀ p, p <+: log → 0 ≤ base + total paid p
  covered : due ≤ base + total paid log
  view : ∀ p, p <+: log → base - granted + total shown p ≤ base + total paid log - due

variable {paid shown} {due due' due'' base granted a : G} {es fs log p : List E}

/-! ## Entries -/

theorem covers_of_map {F : Type} {f : F → E} {es : List F}
    (h : Covers paid shown due due' (es.map f)) : Covers (paid ∘ f) (shown ∘ f) due due' es := by
  have htotal : ∀ (g : E → G) (l : List F), total g (l.map f) = total (g ∘ f) l :=
    fun g l => by simp [total]
  constructor
  · intro p hp
    rw [← htotal, ← htotal]
    exact h.shows _ (hp.map f)
  · intro p hp
    rw [← htotal]
    exact h.pays _ (hp.map f)

variable [IsOrderedAddMonoid G]

theorem covers_nil (hle : due' ≤ due) (h0 : 0 ≤ due) : Covers paid shown due due' [] := by
  constructor
  · intro p hp
    rw [List.prefix_nil.1 hp]
    simpa using hle
  · intro p hp
    rw [List.prefix_nil.1 hp]
    simpa using h0

theorem covers_single {e : E} (h0 : 0 ≤ due) (hpays : 0 ≤ due + paid e)
    (hfrees : 0 ≤ paid e + due - due')
    (hshows : shown e ≤ paid e + due - due') : Covers paid shown due due' [e] := by
  constructor
  · intro p hp
    obtain rfl | hp := List.prefix_concat_iff.1 (show p <+: [] ++ [e] from hp)
    · simpa using hshows
    · rw [List.prefix_nil.1 hp]
      simpa using hfrees
  · intro p hp
    obtain rfl | hp := List.prefix_concat_iff.1 (show p <+: [] ++ [e] from hp)
    · simpa using hpays
    · rw [List.prefix_nil.1 hp]
      simpa using h0

theorem Covers.frees (h : Covers paid shown due due' es) : due' ≤ due + total paid es := by
  have hnil := h.shows [] (List.nil_prefix)
  rw [total_nil] at hnil
  grind

/-- **Entries after entries.** -/
theorem Covers.trans (h : Covers paid shown due due' es) (h' : Covers paid shown due' due'' fs) :
    Covers paid shown due due'' (es ++ fs) := by
  have hfrees := h.frees
  have hfrees' := h'.frees
  constructor
  · intro p hp
    obtain hp | ⟨q, hq, rfl⟩ := prefix_append_cases hp
    · have hshows := h.shows p hp
      rw [total_append]
      grind
    · have hall := h.shows es (List.prefix_refl _)
      have hshows := h'.shows q hq
      rw [total_append, total_append]
      grind
  · intro p hp
    obtain hp | ⟨q, hq, rfl⟩ := prefix_append_cases hp
    · exact h.pays p hp
    · have hpays := h'.pays q hq
      rw [total_append]
      grind

theorem Covers.add (h : Covers paid shown due due' es) {others : G} (h0 : 0 ≤ others) :
    Covers paid shown (due + others) (due' + others) es := by
  constructor
  · intro p hp
    have hshows := h.shows p hp
    grind
  · intro p hp
    have hpays := h.pays p hp
    grind

/-! ## The checker and the ledger -/

theorem solvent_start (hbase : 0 ≤ base) (hgranted : 0 ≤ granted) :
    Solvent paid shown base granted 0 [] := by
  refine ⟨?_, ?_, ?_⟩
  · intro p hp
    rw [List.prefix_nil.1 hp]
    simpa using hbase
  · simpa using hbase
  · intro p hp
    rw [List.prefix_nil.1 hp]
    simpa using hgranted

/-- **A grant.** It is at most what some prefix shows, and no more than it falls due. -/
theorem Solvent.grant (h : Solvent paid shown base granted due log) (hp : p <+: log)
    (ha : a ≤ base - granted + total shown p) (hdue : due' ≤ due + a) :
    Solvent paid shown base (granted + a) due' log := by
  have hview := h.view p hp
  refine ⟨h.kept, ?_, fun q hq => ?_⟩
  · grind
  · have hshown := h.view q hq
    grind

/-- **Entries that cover the change.** -/
theorem Solvent.append (h : Solvent paid shown base granted due log)
    (hes : Covers paid shown due due' es) : Solvent paid shown base granted due' (log ++ es) := by
  have hcovered := h.covered
  have hfrees := hes.frees
  refine ⟨fun p hp => ?_, ?_, fun p hp => ?_⟩
  · obtain hp | ⟨q, hq, rfl⟩ := prefix_append_cases hp
    · exact h.kept p hp
    · have hpays := hes.pays q hq
      rw [total_append]
      grind
  · rw [total_append]
    grind
  · obtain hp | ⟨q, hq, rfl⟩ := prefix_append_cases hp
    · have hview := h.view p hp
      rw [total_append]
      grind
    · have hview := h.view log (List.prefix_refl _)
      have hshows := hes.shows q hq
      rw [total_append, total_append]
      grind

end Escrow
