import Mathlib

/-!
# Linked structures in a heap

Pointers are natural numbers; a link field is a function from pointers to pointers or null.

* `Chain f a l t`: following `f` from `a` visits the cells `l` in order and then `t`.
* `DLinked nx pv p l`: the cells `l` form a doubly linked segment, whose first cell points back
  to `p` and whose last one points to null.
* `follow f fuel a`: the cells met by following `f` from `a`; a doubly linked list is met from its
  first cell along `nx` and from its last one, in reverse, along `pv`.

An update of the links is described by what it does to each cell, so that the lemmas apply to
a field of a larger record as well.
-/

namespace Linked

variable {f g nx pv nx' pv' : Nat → Option Nat}

/-! ## Singly linked chains -/

/-- Following `f` from `a` visits `l` and then `t`. -/
def Chain (f : Nat → Option Nat) : Nat → List Nat → Nat → Prop
  | a, [], t => f a = some t
  | a, b :: l, t => f a = some b ∧ Chain f b l t

theorem Chain.congr : ∀ {l : List Nat} {a t : Nat}, Chain f a l t →
    (∀ x ∈ a :: l, g x = f x) → Chain g a l t
  | [], a, _, h, hg => (hg a (by simp)).trans h
  | b :: _, a, _, h, hg =>
    ⟨(hg a (by simp)).trans h.1, h.2.congr fun x hx => hg x (List.mem_cons_of_mem _ hx)⟩

theorem Chain.tail_of : ∀ {l₁ l₂ : List Nat} {a b t : Nat}, Chain f a (l₁ ++ b :: l₂) t →
    Chain f b l₂ t
  | [], _, _, _, _, h => h.2
  | _ :: _, _, _, _, _, h => Chain.tail_of h.2

theorem Chain.next_of : ∀ {l₁ l₂ : List Nat} {a t : Nat}, Chain f a (l₁ ++ l₂) t →
    f (l₁.getLastD a) = some (l₂.headD t)
  | [], [], _, _, h => h
  | [], _ :: _, _, _, h => h.1
  | b :: l₁, l₂, a, t, h => by
    rw [List.getLastD_cons]
    exact Chain.next_of h.2

theorem getLastD_mem (l : List Nat) (a : Nat) : l.getLastD a ∈ a :: l := by
  induction l generalizing a with
  | nil => simp
  | cons b l ih => rw [List.getLastD_cons]; exact List.mem_cons_of_mem _ (ih b)

theorem Chain.insert : ∀ {l₁ l₂ : List Nat} {a t n : Nat}, Chain f a (l₁ ++ l₂) t →
    (a :: (l₁ ++ l₂)).Nodup → g n = f (l₁.getLastD a) → g (l₁.getLastD a) = some n →
    (∀ x ∈ a :: (l₁ ++ l₂), x ≠ l₁.getLastD a → g x = f x) → Chain g a (l₁ ++ n :: l₂) t
  | [], [], _, _, _, h, _, hn, hp, _ => ⟨hp, hn.trans h⟩
  | [], b :: l₂, a, t, n, h, hnd, hn, hp, hg => by
    refine ⟨hp, hn.trans h.1, h.2.congr fun x hx => hg x (List.mem_cons_of_mem _ hx) ?_⟩
    rintro rfl
    exact (List.nodup_cons.1 hnd).1 hx
  | b :: l₁, l₂, a, t, n, h, hnd, hn, hp, hg => by
    rw [List.getLastD_cons] at hn hp hg
    have hnd' := List.nodup_cons.1 hnd
    have hne : a ≠ l₁.getLastD b := by
      intro he
      have hm := getLastD_mem l₁ b
      rw [← he] at hm
      apply hnd'.1
      rcases List.mem_cons.1 hm with rfl | hm
      · simp
      · simp [hm]
    refine ⟨(hg a (by simp) hne).trans h.1, ?_⟩
    exact Chain.insert h.2 hnd'.2 hn hp fun x hx => hg x (List.mem_cons_of_mem _ hx)

theorem Chain.delete : ∀ {l₁ l₂ : List Nat} {a t n : Nat}, Chain f a (l₁ ++ n :: l₂) t →
    (a :: (l₁ ++ n :: l₂)).Nodup → g (l₁.getLastD a) = f n →
    (∀ x ∈ a :: (l₁ ++ l₂), x ≠ l₁.getLastD a → g x = f x) → Chain g a (l₁ ++ l₂) t
  | [], [], _, _, _, h, _, hp, _ => hp.trans h.2
  | [], b :: l₂, a, t, n, h, hnd, hp, hg => by
    refine ⟨hp.trans h.2.1, h.2.2.congr fun x hx => hg x (List.mem_cons_of_mem _ hx) ?_⟩
    rintro rfl
    exact (List.nodup_cons.1 hnd).1 (List.mem_cons_of_mem _ hx)
  | b :: l₁, l₂, a, t, n, h, hnd, hp, hg => by
    rw [List.getLastD_cons] at hp hg
    have hnd' := List.nodup_cons.1 hnd
    have hne : a ≠ l₁.getLastD b := by
      intro he
      have hm := getLastD_mem l₁ b
      rw [← he] at hm
      apply hnd'.1
      rcases List.mem_cons.1 hm with rfl | hm
      · simp
      · simp [hm]
    refine ⟨(hg a (by simp) hne).trans h.1, ?_⟩
    exact Chain.delete h.2 hnd'.2 hp fun x hx => hg x (List.mem_cons_of_mem _ hx)

/-! ## Doubly linked segments -/

/-- The cells `l` are doubly linked, the first one back to `p`, the last one to null. -/
def DLinked (nx pv : Nat → Option Nat) : Option Nat → List Nat → Prop
  | _, [] => True
  | p, a :: l => pv a = p ∧ nx a = l.head? ∧ DLinked nx pv (some a) l

theorem DLinked.congr : ∀ {l : List Nat} {p : Option Nat}, DLinked nx pv p l →
    (∀ x ∈ l, nx' x = nx x ∧ pv' x = pv x) → DLinked nx' pv' p l
  | [], _, _, _ => trivial
  | a :: _, _, h, hg =>
    ⟨(hg a (by simp)).2.trans h.1, (hg a (by simp)).1.trans h.2.1,
      h.2.2.congr fun x hx => hg x (List.mem_cons_of_mem _ hx)⟩

theorem DLinked.links : ∀ {l₁ l₂ : List Nat} {p : Option Nat} {n : Nat},
    DLinked nx pv p (l₁ ++ n :: l₂) → pv n = l₁.getLast?.or p ∧ nx n = l₂.head?
  | [], _, _, _, h => ⟨by simpa using h.1, h.2.1⟩
  | a :: l₁, l₂, p, n, h => by
    have := h.2.2.links
    refine ⟨this.1.trans ?_, this.2⟩
    cases l₁ with
    | nil => simp
    | cons b l₁ => simp [List.getLast?_cons]

theorem DLinked.append : ∀ {l : List Nat} {p : Option Nat} {n : Nat}, DLinked nx pv p l →
    l.Nodup → n ∉ l → nx' n = none → pv' n = l.getLast?.or p →
    (∀ x ∈ l, pv' x = pv x ∧ nx' x = if l.getLast? = some x then some n else nx x) →
    DLinked nx' pv' p (l ++ [n])
  | [], _, _, _, _, _, hn, hp, _ => ⟨by simpa using hp, hn, trivial⟩
  | a :: l, p, n, h, hnd, hmem, hn, hp, hg => by
    have hnd' := List.nodup_cons.1 hnd
    have ha := hg a (by simp)
    cases l with
    | nil =>
      simp only [List.getLast?_singleton, if_true] at ha
      exact ⟨ha.1.trans h.1, ha.2, by simpa using hp, hn, trivial⟩
    | cons b l =>
      have hne : (a :: b :: l).getLast? ≠ some a := by
        rw [List.getLast?_cons_cons]
        intro he
        exact hnd'.1 (List.mem_of_getLast? he)
      rw [if_neg hne] at ha
      refine ⟨ha.1.trans h.1, ha.2.trans h.2.1, ?_⟩
      refine DLinked.append h.2.2 hnd'.2 (fun hm => hmem (List.mem_cons_of_mem _ hm)) hn ?_ ?_
      · rw [hp, List.getLast?_cons_cons]
        cases hl : (b :: l).getLast? with
        | none => simp at hl
        | some z => simp
      · intro x hx
        have := hg x (List.mem_cons_of_mem _ hx)
        rwa [List.getLast?_cons_cons] at this

theorem DLinked.delete : ∀ {l₁ l₂ : List Nat} {p : Option Nat} {n : Nat},
    DLinked nx pv p (l₁ ++ n :: l₂) → (l₁ ++ n :: l₂).Nodup →
    (∀ x ∈ l₁ ++ l₂, nx' x = (if l₁.getLast? = some x then nx n else nx x) ∧
      pv' x = if l₂.head? = some x then pv n else pv x) →
    DLinked nx' pv' p (l₁ ++ l₂)
  | [], [], _, _, _, _, _ => trivial
  | [], b :: l₂, p, n, h, hnd, hg => by
    have hb := hg b (by simp)
    simp only [List.getLast?_nil, reduceCtorEq, if_false, List.head?_cons, if_true] at hb
    refine ⟨hb.2.trans h.1, hb.1.trans h.2.2.2.1, h.2.2.2.2.congr fun x hx => ?_⟩
    have hxb : x ≠ b := by
      rintro rfl
      exact (List.nodup_cons.1 (List.nodup_cons.1 hnd).2).1 hx
    have := hg x (by simp [hx])
    simpa [hxb.symm] using this
  | a :: l₁, l₂, p, n, h, hnd, hg => by
    have hnd' := List.nodup_cons.1 hnd
    have ha := hg a (by simp)
    have hhd : l₂.head? ≠ some a := by
      intro he
      exact hnd'.1 (by simp [List.mem_of_head? he])
    rw [if_neg hhd] at ha
    cases l₁ with
    | nil =>
      simp only [List.getLast?_singleton, if_true] at ha
      have hn := h.2.2
      refine ⟨ha.2.trans h.1, ha.1.trans hn.2.1, ?_⟩
      show DLinked nx' pv' (some a) ([] ++ l₂)
      refine DLinked.delete hn hnd'.2 fun x hx => ?_
      have := hg x (by simpa using .inr hx)
      have hax : ¬ a = x := by
        rintro rfl
        exact hnd'.1 (by simpa using .inr hx)
      simpa [hax] using this
    | cons b l₁ =>
      have hne : (a :: b :: l₁).getLast? ≠ some a := by
        rw [List.getLast?_cons_cons]
        intro he
        exact hnd'.1 (List.mem_append_left _ (List.mem_of_getLast? he))
      rw [if_neg hne] at ha
      refine ⟨ha.2.trans h.1, ha.1.trans h.2.1, ?_⟩
      refine DLinked.delete h.2.2 hnd'.2 fun x hx => ?_
      have := hg x (List.mem_cons_of_mem _ hx)
      rwa [List.getLast?_cons_cons] at this

/-! ## Following a link -/

/-- The first `fuel` cells met by following `f` from `a` until null. -/
def follow (f : Nat → Option Nat) : Nat → Option Nat → List Nat
  | 0, _ => []
  | _, none => []
  | fuel + 1, some n => n :: follow f fuel (f n)

@[simp] theorem follow_none (fuel : Nat) : follow f fuel none = [] := by
  cases fuel <;> rfl

@[simp] theorem follow_some (fuel n : Nat) :
    follow f (fuel + 1) (some n) = n :: follow f fuel (f n) := rfl

theorem DLinked.follow_next : ∀ {l : List Nat} {p : Option Nat} {fuel : Nat}, DLinked nx pv p l →
    l.length ≤ fuel → follow nx fuel l.head? = l
  | [], _, fuel, _, _ => follow_none fuel
  | a :: l, _, fuel + 1, h, hlen => by
    rw [List.head?_cons, follow_some, h.2.1, h.2.2.follow_next (by simpa using hlen)]

/-- A list in which every cell points back to the one before it is met in reverse. -/
theorem follow_prev {l : List Nat} (h : ∀ l₁ n l₂, l = l₁ ++ n :: l₂ → pv n = l₁.getLast?)
    {fuel : Nat} (hlen : l.length ≤ fuel) : follow pv fuel l.getLast? = l.reverse := by
  induction l using List.reverseRecOn generalizing fuel with
  | nil => exact follow_none fuel
  | append_singleton l n ih =>
    obtain ⟨fuel, rfl⟩ : ∃ k, fuel = k + 1 := ⟨fuel - 1, by simp at hlen; omega⟩
    have hn : pv n = l.getLast? := h l n [] rfl
    have hrest := ih (fun l₁ m l₂ he => h l₁ m (l₂ ++ [n]) (by simp [he])) (by simpa using hlen)
    rw [List.getLast?_concat, follow_some, hn, hrest, List.reverse_concat]

theorem DLinked.follow_prev {l : List Nat} (h : DLinked nx pv none l) {fuel : Nat}
    (hlen : l.length ≤ fuel) : follow pv fuel l.getLast? = l.reverse := by
  refine Linked.follow_prev (fun l₁ n l₂ he => ?_) hlen
  rw [he] at h
  simpa using h.links.1

end Linked
