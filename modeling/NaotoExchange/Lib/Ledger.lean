import Mathlib.Algebra.BigOperators.Group.Finset.Basic
import Mathlib.Tactic.Abel

/-!
# Ledgers

What each owner has of each asset, and transfers between owners. A transfer changes nothing but the
two entries that it names, and among owners that include both ends it changes no total
(`sum_transfer`).
-/

/-- What each owner has of each asset. -/
abbrev Ledger (Owner Asset G : Type*) := Owner → Asset → G

namespace Ledger

open Finset

variable {Owner Asset G : Type*} [DecidableEq Owner] [DecidableEq Asset] [AddCommGroup G]

/-- The part of a payment of `v` in the asset `a` to `dst` that is about the owner `o` and the asset
`b`. -/
def entry (dst : Owner) (a : Asset) (v : G) (o : Owner) (b : Asset) : G :=
  if o = dst ∧ b = a then v else 0

/-- `src` gives `v` of the asset `a` to `dst`. -/
def transfer (l : Ledger Owner Asset G) (src dst : Owner) (a : Asset) (v : G) :
    Ledger Owner Asset G :=
  fun o b => l o b + entry dst a v o b - entry src a v o b

theorem sum_entry {S : Finset Owner} {dst : Owner} (h : dst ∈ S) (a : Asset) (v : G) (b : Asset) :
    ∑ o ∈ S, entry dst a v o b = if b = a then v else 0 := by
  rw [sum_eq_single_of_mem dst h]
  · simp [entry]
  · intro o _ hne
    simp [entry, hne]

/-- **A transfer conserves every asset** among owners that include both ends. -/
theorem sum_transfer {S : Finset Owner} {src dst : Owner} (hsrc : src ∈ S) (hdst : dst ∈ S)
    (l : Ledger Owner Asset G) (a : Asset) (v : G) (b : Asset) :
    ∑ o ∈ S, l.transfer src dst a v o b = ∑ o ∈ S, l o b := by
  simp only [transfer, sum_sub_distrib, sum_add_distrib, sum_entry hsrc, sum_entry hdst,
    add_sub_cancel_right]

end Ledger
