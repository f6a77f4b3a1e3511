import NaotoExchange.Lib.Linked
import NaotoExchange.Common.SkipList

/-!
# The skip list is a sorted map, whatever the heights

`Rep c sl xs`: the nodes `xs` are linked in comparator order, the chain of level `i` being the
nodes of height at least `i`; with the two sentinels they are the pool nodes in use. The search
of all three operations is `descend`; `descend_spec` says where it stops on every level when the
keys that pass its test come first. Insertion and deletion then relink every level at that place
(`Chain.insert`, `Chain.delete`).

`Models c sl kvs` forgets the nodes: the list holds the pairs `kvs` in comparator order.
-/

namespace Naoto

open Linked

/-! ## The comparators -/

section
variable {K : Type} [LinearOrder K] {c : Compare} {a b d : K}

theorem Compare.comp_irrefl (c : Compare) (a : K) : c.comp a a = false := by
  cases c <;> simp [Compare.comp]

theorem Compare.comp_trans (h : c.comp a b = true) (h' : c.comp b d = true) :
    c.comp a d = true := by
  cases c <;> simp only [Compare.comp, decide_eq_true_eq] at * <;> order

theorem Compare.comp_asymm (h : c.comp a b = true) : c.comp b a = false := by
  cases c <;> simp only [Compare.comp, decide_eq_true_eq, decide_eq_false_iff_not] at * <;> order

theorem Compare.comp_ne (h : c.comp a b = true) : a ≠ b := by
  rintro rfl
  rw [Compare.comp_irrefl] at h
  cases h

theorem Compare.eq_of_comp (h : c.comp a b = false) (h' : c.comp b a = false) : a = b := by
  cases c <;> simp only [Compare.comp, decide_eq_false_iff_not] at * <;> order

theorem Compare.comp_of_ne (h : c.comp a b = false) (hne : a ≠ b) : c.comp b a = true := by
  cases h' : c.comp b a with
  | true => rfl
  | false => exact absurd (Compare.eq_of_comp h h') hne

/-- A list sorted by the comparator has a key, or splits at it. -/
theorem split_sorted {α : Type} (f : α → K) (key : K) :
    ∀ {ls : List α}, (ls.Pairwise fun a b => c.comp (f a) (f b) = true) →
      (∃ l₁ l l₂, ls = l₁ ++ l :: l₂ ∧ f l = key) ∨
      ∃ l₁ l₂, ls = l₁ ++ l₂ ∧ (∀ m ∈ l₁, c.comp (f m) key = true) ∧
        ∀ m ∈ l₂, c.comp key (f m) = true
  | [], _ => .inr ⟨[], [], rfl, by simp, by simp⟩
  | a :: ls, h => by
    obtain ⟨ha, hls⟩ := List.pairwise_cons.1 h
    by_cases he : f a = key
    · exact .inl ⟨[], a, ls, rfl, he⟩
    cases hc : c.comp (f a) key with
    | true =>
      rcases split_sorted f key hls with ⟨l₁, l, l₂, rfl, hl⟩ | ⟨l₁, l₂, rfl, h1, h2⟩
      · exact .inl ⟨a :: l₁, l, l₂, rfl, hl⟩
      · refine .inr ⟨a :: l₁, l₂, rfl, fun m hm => ?_, h2⟩
        rcases List.mem_cons.1 hm with rfl | hm
        · exact hc
        · exact h1 m hm
    | false =>
      have hca := Compare.comp_of_ne hc he
      refine .inr ⟨[], a :: ls, rfl, by simp, fun m hm => ?_⟩
      rcases List.mem_cons.1 hm with rfl | hm
      · exact hca
      · exact Compare.comp_trans hca (ha m hm)

variable [BoundedOrder K]

/-- The keys strictly between the sentinels'. -/
def Compare.Inner (c : Compare) (k : K) : Prop :=
  c.comp c.headKey k = true ∧ c.comp k c.tailKey = true

theorem Compare.inner_iff : c.Inner a ↔ ⊥ < a ∧ a < ⊤ := by
  cases c
  · exact and_congr decide_eq_true_iff decide_eq_true_iff
  · exact (and_congr decide_eq_true_iff decide_eq_true_iff).trans and_comm

theorem Compare.inner_of_ne (hhead : a ≠ c.headKey) (htail : a ≠ c.tailKey) : c.Inner a := by
  rw [Compare.inner_iff]
  cases c with
  | less => exact ⟨bot_lt_iff_ne_bot.2 hhead, lt_top_iff_ne_top.2 htail⟩
  | greater => exact ⟨bot_lt_iff_ne_bot.2 htail, lt_top_iff_ne_top.2 hhead⟩

theorem Compare.headKey_comp_tailKey [Nontrivial K] (c : Compare) :
    c.comp (c.headKey : K) c.tailKey = true := by
  cases c <;> simp [Compare.comp, Compare.headKey, Compare.tailKey, bot_lt_top]

theorem Compare.tail_not_before (c : Compare) (k : K) : c.comp c.tailKey k = false := by
  cases c <;> simp [Compare.comp, Compare.tailKey]

end

namespace SkipList

/-! ## Levels -/

section
variable {K V : Type} {PoolSize MaxLevel : Nat}

/-- The nodes of `xs` that reach level `i`. -/
def atLevel (sl : SkipList K V PoolSize MaxLevel) (i : Nat) (xs : List Nat) : List Nat :=
  xs.filter fun x => decide (i ≤ (sl.node x).height)

variable {sl : SkipList K V PoolSize MaxLevel}

@[simp] theorem mem_atLevel {i x : Nat} {xs : List Nat} :
    x ∈ sl.atLevel i xs ↔ x ∈ xs ∧ i ≤ (sl.node x).height := by
  simp [atLevel]

theorem atLevel_append (i : Nat) (xs ys : List Nat) :
    sl.atLevel i (xs ++ ys) = sl.atLevel i xs ++ sl.atLevel i ys :=
  List.filter_append ..

theorem atLevel_cons (i x : Nat) (xs : List Nat) :
    sl.atLevel i (x :: xs) =
      if i ≤ (sl.node x).height then x :: sl.atLevel i xs else sl.atLevel i xs := by
  simp [atLevel, List.filter_cons]

@[simp] theorem atLevel_zero (xs : List Nat) : sl.atLevel 0 xs = xs := by
  simp [atLevel]

theorem atLevel_length_le (sl : SkipList K V PoolSize MaxLevel) (i : Nat) (xs : List Nat) :
    (sl.atLevel i xs).length ≤ xs.length :=
  List.length_filter_le ..

theorem atLevel_sublist (i : Nat) (xs : List Nat) : (sl.atLevel i xs).Sublist xs :=
  List.filter_sublist

end

variable {K V : Type} {PoolSize MaxLevel : Nat} [LinearOrder K] [BoundedOrder K] {c : Compare}
  {sl sl' : SkipList K V PoolSize MaxLevel} {xs ys zs : List Nat} {key : K} {val : V}
  {go : K → Bool}

/-- The nodes `xs` are linked in order between the sentinels (module doc). -/
structure Rep (c : Compare) (sl : SkipList K V PoolSize MaxLevel) (xs : List Nat) : Prop where
  owns : sl.nodesPool.Owns (sl.head :: sl.tail :: xs)
  headKey : (sl.node sl.head).key = c.headKey
  tailKey : (sl.node sl.tail).key = c.tailKey
  tailValue : (sl.node sl.tail).value = none
  height : ∀ x ∈ xs, (sl.node x).height ≤ MaxLevel
  chain : ∀ i ≤ MaxLevel,
    Chain (fun x => (sl.node x).forward i) sl.head (sl.atLevel i xs) sl.tail
  sorted : xs.Pairwise fun a b => c.comp (sl.node a).key (sl.node b).key = true
  inner : ∀ x ∈ xs, c.Inner (sl.node x).key

theorem Rep.nodup (h : Rep c sl xs) : (sl.head :: xs).Nodup := by
  have := h.owns.nodup
  simp only [List.nodup_cons, List.mem_cons, not_or] at this ⊢
  exact ⟨this.1.2, this.2.2⟩

theorem Rep.tail_not_mem (h : Rep c sl xs) : sl.tail ∉ xs := by
  have := h.owns.nodup
  simp only [List.nodup_cons] at this
  exact this.2.1

theorem Rep.length_lt (h : Rep c sl xs) : xs.length < PoolSize := by
  have := h.owns.length_le
  simp only [List.length_cons] at this
  omega

/-! ## The search -/

omit [LinearOrder K] [BoundedOrder K] in
theorem advance_chain {level t : Nat} : ∀ {post zs : List Nat} {cur fuel : Nat},
    Chain (fun x => (sl.node x).forward level) cur (post ++ zs) t →
    (∀ x ∈ post, go (sl.node x).key = true) → go (sl.node (zs.headD t)).key = false →
    post.length < fuel → sl.advance go level fuel cur = .ok (post.getLastD cur)
  | [], zs, cur, fuel, h, _, hz, hf => by
    obtain ⟨f, rfl⟩ : ∃ f, fuel = f + 1 := ⟨fuel - 1, by simp at hf; omega⟩
    have hn : (sl.node cur).forward level = some (zs.headD t) := h.next_of
    rw [advance, hn]
    simp only [hz, Bool.false_eq_true, if_false]
    rfl
  | x :: post, zs, cur, fuel, h, hg, hz, hf => by
    obtain ⟨f, rfl⟩ : ∃ f, fuel = f + 1 := ⟨fuel - 1, by simp at hf; omega⟩
    have hn : (sl.node cur).forward level = some x := h.1
    simp only [advance, hn, hg x (by simp), if_true, List.getLastD_cons]
    exact advance_chain h.2 (fun y hy => hg y (List.mem_cons_of_mem _ hy)) hz
      (by simp at hf; omega)

theorem getLastD_append_cons (l₁ l₂ : List Nat) (a b : Nat) :
    (l₁ ++ b :: l₂).getLastD a = l₂.getLastD b := by
  induction l₁ generalizing a with
  | nil => rw [List.nil_append, List.getLastD_cons]
  | cons x l₁ ih => rw [List.cons_append, List.getLastD_cons, ih]

/-- One level of the search, from any node of the level's chain in front of the place. -/
theorem advance_level (h : Rep c sl (ys ++ zs)) (hy : ∀ x ∈ ys, go (sl.node x).key = true)
    (hz : ∀ x ∈ zs, go (sl.node x).key = false) (ht : go c.tailKey = false) {i : Nat}
    (hi : i ≤ MaxLevel) {cur : Nat} (hc : cur ∈ sl.head :: sl.atLevel i ys) :
    sl.advance go i PoolSize cur = .ok ((sl.atLevel i ys).getLastD sl.head) := by
  have hch := h.chain i hi
  rw [atLevel_append] at hch
  have hlen : (sl.atLevel i ys).length < PoolSize := by
    have h1 := sl.atLevel_length_le i ys
    have h2 := h.length_lt
    simp only [List.length_append] at h2
    omega
  have hzh : go (sl.node ((sl.atLevel i zs).headD sl.tail)).key = false := by
    cases hl : sl.atLevel i zs with
    | nil => simpa [h.tailKey] using ht
    | cons z l =>
      have : z ∈ sl.atLevel i zs := by rw [hl]; simp
      exact hz z (mem_atLevel.1 this).1
  have hmem : ∀ x ∈ sl.atLevel i ys, go (sl.node x).key = true := fun x hx =>
    hy x (mem_atLevel.1 hx).1
  obtain ⟨pre, post, hp⟩ := List.append_of_mem hc
  cases pre with
  | nil =>
    simp only [List.nil_append, List.cons.injEq] at hp
    obtain ⟨rfl, rfl⟩ := hp
    exact advance_chain hch hmem hzh hlen
  | cons a pre =>
    simp only [List.cons_append, List.cons.injEq] at hp
    obtain ⟨-, hp⟩ := hp
    rw [hp] at hlen hmem hch ⊢
    rw [List.append_assoc, List.cons_append] at hch
    rw [getLastD_append_cons]
    refine advance_chain hch.tail_of (fun x hx => hmem x (by simp [hx])) hzh ?_
    simp only [List.length_append, List.length_cons] at hlen
    omega

theorem descend_levels (h : Rep c sl (ys ++ zs)) (hy : ∀ x ∈ ys, go (sl.node x).key = true)
    (hz : ∀ x ∈ zs, go (sl.node x).key = false) (ht : go c.tailKey = false) :
    ∀ (n : Nat) (cur : Nat) (prev : Nat → Nat), n ≤ MaxLevel + 1 →
      cur ∈ sl.head :: sl.atLevel (n - 1) ys →
      ∃ cur' prev', sl.descend go n cur prev = .ok (cur', prev') ∧
        (∀ i, n ≤ i → prev' i = prev i) ∧ (n = 0 → cur' = cur) ∧
        (0 < n → cur' = (sl.atLevel 0 ys).getLastD sl.head) ∧
        ∀ i < n, prev' i = (sl.atLevel i ys).getLastD sl.head
  | 0, cur, prev, _, _ => ⟨cur, prev, rfl, fun _ _ => rfl, fun _ => rfl, by simp, by simp⟩
  | n + 1, cur, prev, hn, hc => by
    have hadv := advance_level h hy hz ht (i := n) (by omega) hc
    -- the node a level stops at is on the next lower level as well
    have hmem : (sl.atLevel n ys).getLastD sl.head ∈ sl.head :: sl.atLevel (n - 1) ys := by
      rcases List.mem_cons.1 (getLastD_mem (sl.atLevel n ys) sl.head) with he | hm
      · rw [he]; simp
      · refine List.mem_cons_of_mem _ ?_
        rw [mem_atLevel] at hm ⊢
        exact ⟨hm.1, by omega⟩
    obtain ⟨cur', prev', hd, hge, h0, hpos, hlt⟩ := descend_levels h hy hz ht n _
      (Function.update prev n ((sl.atLevel n ys).getLastD sl.head)) (by omega) hmem
    refine ⟨cur', prev', ?_, fun i hi => ?_, by simp, fun _ => ?_, fun i hi => ?_⟩
    · simp only [descend, hadv]; exact hd
    · rw [hge i (by omega), Function.update_of_ne (by omega)]
    · rcases Nat.eq_zero_or_pos n with rfl | hp
      · exact h0 rfl
      · exact hpos hp
    · rcases Nat.lt_succ_iff_lt_or_eq.1 hi with hi | rfl
      · exact hlt i hi
      · rw [hge i (Nat.le_refl i), Function.update_self]

/-- `prev` holds, for every level, the last node of `ys` on it (the head if there is none). -/
structure StopsAt (sl : SkipList K V PoolSize MaxLevel) (ys : List Nat) (prev : Nat → Nat) :
    Prop where
  level : ∀ i ≤ MaxLevel, prev i = (sl.atLevel i ys).getLastD sl.head
  mem : ∀ i, prev i ∈ sl.head :: ys

variable (go) in
/-- **The search**: it stops, on every level, at the last node in front of the place. -/
theorem descend_spec (h : Rep c sl (ys ++ zs)) (hy : ∀ x ∈ ys, go (sl.node x).key = true)
    (hz : ∀ x ∈ zs, go (sl.node x).key = false) (ht : go c.tailKey = false) :
    ∃ prev, sl.descend go (MaxLevel + 1) sl.head (fun _ => sl.head) =
        .ok (ys.getLastD sl.head, prev) ∧ StopsAt sl ys prev := by
  obtain ⟨cur, prev, hd, hge, -, hc, hp⟩ := descend_levels h hy hz ht (MaxLevel + 1) sl.head
    (fun _ => sl.head) (Nat.le_refl _) (by simp)
  refine ⟨prev, by rw [hd, hc (by omega), atLevel_zero], fun i hi => hp i (by omega), fun i => ?_⟩
  rcases Nat.lt_or_ge i (MaxLevel + 1) with hi | hi
  · rw [hp i hi]
    rcases List.mem_cons.1 (getLastD_mem (sl.atLevel i ys) sl.head) with he | hm
    · rw [he]; simp
    · exact List.mem_cons_of_mem _ (mem_atLevel.1 hm).1
  · rw [hge i hi]; simp

/-- The search of `GetVal` and `DeleteNode` stops in front of the first key not before `key`. -/
theorem search_before (h : Rep c sl (ys ++ zs)) (hy : ∀ x ∈ ys, c.comp (sl.node x).key key = true)
    (hz : ∀ x ∈ zs, c.comp (sl.node x).key key = false) :
    ∃ prev, sl.descend (fun k => c.comp k key) (MaxLevel + 1) sl.head (fun _ => sl.head) =
        .ok (ys.getLastD sl.head, prev) ∧ StopsAt sl ys prev ∧
      (sl.node (ys.getLastD sl.head)).forward 0 = some (zs.headD sl.tail) := by
  obtain ⟨prev, hd, hp⟩ := descend_spec (fun k => c.comp k key) h hy hz
    (Compare.tail_not_before c key)
  have hch := h.chain 0 (Nat.zero_le _)
  rw [atLevel_zero] at hch
  exact ⟨prev, hd, hp, hch.next_of⟩

/-! ## Relinking the levels -/

section
variable {prev : Nat → Nat} {n t : Nat}

/-- What the linking loops leave alone. -/
structure SameData (st st' : Nat → SkipNode K V) : Prop where
  key : ∀ x, (st' x).key = (st x).key
  value : ∀ x, (st' x).value = (st x).value
  height : ∀ x, (st' x).height = (st x).height

omit [LinearOrder K] [BoundedOrder K] in
theorem SameData.refl (st : Nat → SkipNode K V) : SameData st st :=
  ⟨fun _ => rfl, fun _ => rfl, fun _ => rfl⟩

omit [LinearOrder K] [BoundedOrder K] in
theorem SameData.update {st st' : Nat → SkipNode K V} (h : SameData st st') (y : Nat)
    (f : Nat → Option Nat) :
    SameData st (Function.update st' y { st' y with forward := f }) := by
  refine ⟨fun x => ?_, fun x => ?_, fun x => ?_⟩ <;> by_cases hx : x = y
  all_goals first
    | (subst hx; rw [Function.update_self]
       first | exact h.key x | exact h.value x | exact h.height x)
    | (rw [Function.update_of_ne hx]; first | exact h.key x | exact h.value x | exact h.height x)

omit [LinearOrder K] [BoundedOrder K] in
theorem linkLevels_spec (hne : ∀ i, prev i ≠ n) (st : Nat → SkipNode K V) :
    ∀ m, SameData st ((List.range m).foldl (linkLevel prev n) st) ∧
      ∀ x i, ((List.range m).foldl (linkLevel prev n) st x).forward i =
        if i < m then
          if x = n then (st (prev i)).forward i else if x = prev i then some n
          else (st x).forward i
        else (st x).forward i
  | 0 => ⟨.refl st, fun x i => by simp⟩
  | m + 1 => by
    obtain ⟨hd, hf⟩ := linkLevels_spec hne st m
    rw [List.range_succ, List.foldl_append, List.foldl_cons, List.foldl_nil]
    generalize hst : (List.range m).foldl (linkLevel prev n) st = st' at hd hf
    refine ⟨?_, fun x i => ?_⟩
    · exact (hd.update _ _).update _ _
    · have hp := hne m
      by_cases hxn : x = n
      · subst hxn
        by_cases him : i = m
        · subst him
          simp [linkLevel, Function.update_of_ne (Ne.symm hp), hf, hp]
        · have : (i < m + 1) = (i < m) := by simp; omega
          simp [linkLevel, Function.update_of_ne (Ne.symm hp), him, hf, this]
      · by_cases hxp : x = prev m
        · subst hxp
          by_cases him : i = m
          · subst him
            simp [linkLevel, hp]
          · have : (i < m + 1) = (i < m) := by simp; omega
            simp [linkLevel, him, hf, this, hp]
        · by_cases him : i = m
          · subst him
            simp [linkLevel, hf, hxn, hxp]
          · have : (i < m + 1) = (i < m) := by simp; omega
            simp [linkLevel, Function.update_of_ne hxn, Function.update_of_ne hxp, hf, this]

omit [LinearOrder K] [BoundedOrder K] in
/-- The loop over the new node's upper levels changes only these. -/
theorem topLevels_spec (a : Nat) (st : Nat → SkipNode K V) :
    ∀ m, SameData st ((List.range' a m).foldl (topLevel t n) st) ∧
      ∀ x i, x ≠ n ∨ i < a →
        ((List.range' a m).foldl (topLevel t n) st x).forward i = (st x).forward i
  | 0 => ⟨.refl st, fun x i _ => by simp⟩
  | m + 1 => by
    obtain ⟨hd, hf⟩ := topLevels_spec a st m
    rw [List.range'_concat, List.foldl_append, List.foldl_cons, List.foldl_nil]
    generalize hst : (List.range' a m).foldl (topLevel t n) st = st' at hd hf
    refine ⟨hd.update _ _, fun x i hx => ?_⟩
    rw [← hf x i hx]
    by_cases hxn : x = n
    · subst hxn
      have : i ≠ a + m := by
        rcases hx with hx | hx
        · exact absurd rfl hx
        · omega
      simp [topLevel, Function.update_of_ne this]
    · simp [topLevel, Function.update_of_ne hxn]

omit [LinearOrder K] [BoundedOrder K] in
theorem unlinkLevels_spec (hne : ∀ i, prev i ≠ n) (st : Nat → SkipNode K V) :
    ∀ m, SameData st ((List.range m).foldl (unlinkLevel prev n) st) ∧
      ∀ x i, ((List.range m).foldl (unlinkLevel prev n) st x).forward i =
        if i < m ∧ x = prev i then (st n).forward i else (st x).forward i
  | 0 => ⟨.refl st, fun x i => by simp⟩
  | m + 1 => by
    obtain ⟨hd, hf⟩ := unlinkLevels_spec hne st m
    rw [List.range_succ, List.foldl_append, List.foldl_cons, List.foldl_nil]
    generalize hst : (List.range m).foldl (unlinkLevel prev n) st = st' at hd hf
    refine ⟨hd.update _ _, fun x i => ?_⟩
    have hn : (st' n).forward m = (st n).forward m := by
      rw [hf n m, if_neg (by omega)]
    by_cases hxp : x = prev m
    · subst hxp
      by_cases him : i = m
      · subst him
        simp [unlinkLevel, hn]
      · have : (i < m + 1) = (i < m) := by simp; omega
        simp [unlinkLevel, him, hf, this]
    · rw [unlinkLevel, Function.update_of_ne hxp, hf x i]
      by_cases him : i = m
      · subst him
        simp [hxp]
      · have : (i < m + 1) = (i < m) := by simp; omega
        simp [this]

end

/-! ## Insertion -/

/-- `sl'` is `sl` with the fresh node `n` linked in behind `prev` up to `level`. -/
structure Spliced (sl sl' : SkipList K V PoolSize MaxLevel) (prev : Nat → Nat) (n : Nat) (key : K)
    (val : V) (level : Nat) : Prop where
  head : sl'.head = sl.head
  tail : sl'.tail = sl.tail
  newKey : (sl'.node n).key = key
  newValue : (sl'.node n).value = some val
  newHeight : (sl'.node n).height = level
  newForward : ∀ i ≤ level, (sl'.node n).forward i = (sl.node (prev i)).forward i
  key : ∀ x, x ≠ n → (sl'.node x).key = (sl.node x).key
  value : ∀ x, x ≠ n → (sl'.node x).value = (sl.node x).value
  height : ∀ x, x ≠ n → (sl'.node x).height = (sl.node x).height
  forward : ∀ x i, x ≠ n → (sl'.node x).forward i =
    if i ≤ level ∧ x = prev i then some n else (sl.node x).forward i

omit [LinearOrder K] [BoundedOrder K] in
variable (key val) in
theorem insertAt_spliced {prev : Nat → Nat} (level : Nat) {used : List Nat}
    (ho : sl.nodesPool.Owns used) (hp : ∀ i, prev i ∈ used) (hroom : 0 < sl.nodesPool.freeSize) :
    ∃ sl' n, sl.insertAt prev key val level = .ok sl' ∧ Spliced sl sl' prev n key val level ∧
      n ∉ used ∧ sl'.nodesPool.Owns (n :: used) ∧
      sl'.nodesPool.freeSize + 1 = sl.nodesPool.freeSize := by
  obtain ⟨n, p, hacq, hst, hfree, -, hsize, howns⟩ :=
    SingleThreadedStoragePool.acquire_owns ho hroom
  have hnew : n ∉ used := fun hm => ho.not_free hm hfree
  have hne : ∀ i, prev i ≠ n := fun i he => hnew (he ▸ hp i)
  -- the storage after the three assignments, after the first and after the second loop
  obtain ⟨st₀, hst₀⟩ : ∃ st₀, st₀ = Function.update p.storage n
    { p.storage n with key := key, value := some val, height := level } := ⟨_, rfl⟩
  obtain ⟨st₁, hst₁⟩ : ∃ st₁, st₁ = (List.range (level + 1)).foldl (linkLevel prev n) st₀ :=
    ⟨_, rfl⟩
  obtain ⟨st₂, hst₂⟩ : ∃ st₂, st₂ = (List.range' (level + 1) (MaxLevel - level)).foldl
    (topLevel sl.tail n) st₁ := ⟨_, rfl⟩
  obtain ⟨hd₁, hf₁⟩ := hst₁ ▸ linkLevels_spec hne st₀ (level + 1)
  obtain ⟨hd₂, hf₂⟩ :=
    hst₂ ▸ topLevels_spec (t := sl.tail) (n := n) (level + 1) st₁ (MaxLevel - level)
  have hold : ∀ x, x ≠ n → st₀ x = sl.node x := fun x hx => by
    rw [hst₀, Function.update_of_ne hx, hst]; rfl
  have hn : st₀ n = { p.storage n with key := key, value := some val, height := level } := by
    rw [hst₀, Function.update_self]
  refine ⟨⟨sl.head, sl.tail, { p with storage := st₂ }, sl.state, max sl.curMax level⟩, n, ?_, ?_,
    hnew, howns, hsize⟩
  · simp only [insertAt, hacq, ← hst₀, ← hst₁, ← hst₂]
  · refine ⟨rfl, rfl, ?_, ?_, ?_, fun i hi => ?_, fun x hx => ?_, fun x hx => ?_, fun x hx => ?_,
      fun x i hx => ?_⟩
    · exact ((hd₂.key n).trans (hd₁.key n)).trans (by rw [hn])
    · exact ((hd₂.value n).trans (hd₁.value n)).trans (by rw [hn])
    · exact ((hd₂.height n).trans (hd₁.height n)).trans (by rw [hn])
    · refine (hf₂ n i (.inr (by omega))).trans ?_
      rw [hf₁ n i, if_pos (by omega), if_pos rfl, hold _ (hne i)]
    · exact ((hd₂.key x).trans (hd₁.key x)).trans (by rw [hold x hx])
    · exact ((hd₂.value x).trans (hd₁.value x)).trans (by rw [hold x hx])
    · exact ((hd₂.height x).trans (hd₁.height x)).trans (by rw [hold x hx])
    · refine (hf₂ x i (.inl hx)).trans ?_
      rw [hf₁ x i, hold x hx]
      by_cases hi : i ≤ level
      · simp [hx, hi, Nat.lt_succ_of_le hi]
      · simp [hi, show ¬ i < level + 1 by omega]

section
variable {prev : Nat → Nat} {level n : Nat}

omit [LinearOrder K] [BoundedOrder K] in
theorem Spliced.atLevel_eq (hs : Spliced sl sl' prev n key val level) {l : List Nat}
    (hn : n ∉ l) (i : Nat) : sl'.atLevel i l = sl.atLevel i l := by
  apply List.filter_congr
  intro x hx
  rw [hs.height x (fun he => hn (he ▸ hx))]

theorem Spliced.chain (hs : Spliced sl sl' prev n key val level) (h : Rep c sl (ys ++ zs))
    (hp : StopsAt sl ys prev) (hn : n ∉ sl.head :: (ys ++ zs)) {i : Nat} (hi : i ≤ MaxLevel) :
    Chain (fun x => (sl'.node x).forward i) sl'.head (sl'.atLevel i (ys ++ n :: zs)) sl'.tail := by
  have hny : n ∉ ys := fun hm => hn (by simp [hm])
  have hnz : n ∉ zs := fun hm => hn (by simp [hm])
  have hch := h.chain i hi
  rw [atLevel_append] at hch
  rw [hs.head, hs.tail, atLevel_append, atLevel_cons, hs.newHeight, hs.atLevel_eq hny,
    hs.atLevel_eq hnz]
  have hsub : (sl.head :: (sl.atLevel i ys ++ sl.atLevel i zs)).Sublist
      (sl.head :: (ys ++ zs)) := by
    rw [← atLevel_append]
    exact (atLevel_sublist ..).cons_cons _
  have hne : ∀ x ∈ sl.head :: (sl.atLevel i ys ++ sl.atLevel i zs), x ≠ n := fun x hx he =>
    hn (he ▸ hsub.subset hx)
  have hpn : prev i ≠ n := by
    intro he
    apply hn
    rw [← he]
    exact List.cons_subset_cons _ (List.subset_append_left ..) (hp.mem i)
  by_cases hil : i ≤ level
  · rw [if_pos hil]
    refine hch.insert (h.nodup.sublist hsub) ?_ ?_ fun x hx hxp => ?_
    · show (sl'.node n).forward i = _
      rw [hs.newForward i hil, hp.level i hi]
    · show (sl'.node _).forward i = _
      rw [← hp.level i hi, hs.forward _ _ hpn, if_pos ⟨hil, rfl⟩]
    · show (sl'.node x).forward i = _
      rw [hs.forward x i (hne x hx), if_neg]
      rintro ⟨-, rfl⟩
      exact hxp (hp.level i hi)
  · rw [if_neg hil]
    refine hch.congr fun x hx => ?_
    show (sl'.node x).forward i = _
    rw [hs.forward x i (hne x hx), if_neg (fun hc => hil hc.1)]

/-- **Insertion**: the new node stands between the nodes before and after its key. -/
theorem Spliced.rep (hs : Spliced sl sl' prev n key val level) (h : Rep c sl (ys ++ zs))
    (hp : StopsAt sl ys prev) (hn : n ∉ sl.head :: sl.tail :: (ys ++ zs))
    (ho : sl'.nodesPool.Owns (n :: sl.head :: sl.tail :: (ys ++ zs))) (hk : c.Inner key)
    (hy : ∀ x ∈ ys, c.comp (sl.node x).key key = true)
    (hz : ∀ x ∈ zs, c.comp key (sl.node x).key = true) (hl : level ≤ MaxLevel) :
    Rep c sl' (ys ++ n :: zs) := by
  simp only [List.mem_cons, not_or] at hn
  have hnm : ∀ x ∈ ys ++ zs, x ≠ n := fun x hx he => hn.2.2 (he ▸ hx)
  have hsplit : ∀ x ∈ ys ++ n :: zs, x = n ∨ x ∈ ys ++ zs := fun x hx => by
    simp only [List.mem_append, List.mem_cons] at hx ⊢
    tauto
  refine ⟨?_, ?_, ?_, ?_, fun x hx => ?_, fun i hi => hs.chain h hp (by simp [hn.1, hn.2.2]) hi, ?_,
    fun x hx => ?_⟩
  · rw [hs.head, hs.tail]
    refine ho.perm ?_
    refine (List.Perm.swap ..).trans (.cons _ ((List.Perm.swap ..).trans (.cons _ ?_)))
    exact List.perm_middle.symm
  · rw [hs.head, hs.key _ (Ne.symm hn.1)]; exact h.headKey
  · rw [hs.tail, hs.key _ (Ne.symm hn.2.1)]; exact h.tailKey
  · rw [hs.tail, hs.value _ (Ne.symm hn.2.1)]; exact h.tailValue
  · rcases hsplit x hx with rfl | hx
    · rw [hs.newHeight]; exact hl
    · rw [hs.height x (hnm x hx)]; exact h.height x hx
  · obtain ⟨h1, h2, h3⟩ := List.pairwise_append.1 h.sorted
    have hky : ∀ x ∈ ys, (sl'.node x).key = (sl.node x).key := fun x hx =>
      hs.key x (hnm x (List.mem_append_left _ hx))
    have hkz : ∀ x ∈ zs, (sl'.node x).key = (sl.node x).key := fun x hx =>
      hs.key x (hnm x (List.mem_append_right _ hx))
    rw [List.pairwise_append, List.pairwise_cons]
    refine ⟨h1.imp_of_mem fun ha hb hab => by rwa [hky _ ha, hky _ hb],
      ⟨fun z hz' => by rw [hs.newKey, hkz z hz']; exact hz z hz',
        h2.imp_of_mem fun ha hb hab => by rwa [hkz _ ha, hkz _ hb]⟩, fun a ha b hb => ?_⟩
    rcases List.mem_cons.1 hb with rfl | hb
    · rw [hky a ha, hs.newKey]; exact hy a ha
    · rw [hky a ha, hkz b hb]; exact h3 a ha b hb
  · rcases hsplit x hx with rfl | hx
    · rw [hs.newKey]; exact hk
    · rw [hs.key x (hnm x hx)]; exact h.inner x hx

end

/-! ## Deletion -/

/-- `sl'` is `sl` with the node `n` unlinked behind `prev`. -/
structure Unlinked (sl sl' : SkipList K V PoolSize MaxLevel) (prev : Nat → Nat) (n : Nat) :
    Prop where
  head : sl'.head = sl.head
  tail : sl'.tail = sl.tail
  data : SameData sl.node sl'.node
  forward : ∀ x i, (sl'.node x).forward i =
    if i ≤ (sl.node n).height ∧ x = prev i then (sl.node n).forward i else (sl.node x).forward i

section
variable {prev : Nat → Nat} {n : Nat}

omit [LinearOrder K] [BoundedOrder K] in
theorem Unlinked.atLevel_eq (hs : Unlinked sl sl' prev n) (l : List Nat) (i : Nat) :
    sl'.atLevel i l = sl.atLevel i l := by
  apply List.filter_congr
  intro x _
  rw [hs.data.height x]

theorem Unlinked.chain (hs : Unlinked sl sl' prev n) (h : Rep c sl (ys ++ n :: zs))
    (hp : StopsAt sl ys prev) {i : Nat} (hi : i ≤ MaxLevel) :
    Chain (fun x => (sl'.node x).forward i) sl'.head (sl'.atLevel i (ys ++ zs)) sl'.tail := by
  have hch := h.chain i hi
  have hsub : (sl.head :: sl.atLevel i (ys ++ n :: zs)).Sublist (sl.head :: (ys ++ n :: zs)) :=
    (atLevel_sublist ..).cons_cons _
  have hnd := h.nodup.sublist hsub
  rw [hs.head, hs.tail, hs.atLevel_eq, atLevel_append]
  rw [atLevel_append, atLevel_cons] at hch hnd
  by_cases hil : i ≤ (sl.node n).height
  · rw [if_pos hil] at hch hnd
    refine hch.delete hnd ?_ fun x _ hxp => ?_
    · show (sl'.node _).forward i = _
      rw [← hp.level i hi, hs.forward, if_pos ⟨hil, rfl⟩]
    · show (sl'.node x).forward i = _
      rw [hs.forward, if_neg]
      rintro ⟨-, rfl⟩
      exact hxp (hp.level i hi)
  · rw [if_neg hil] at hch
    refine hch.congr fun x _ => ?_
    show (sl'.node x).forward i = _
    rw [hs.forward, if_neg (fun hc => hil hc.1)]

/-- **Deletion**: the other nodes stay in order. -/
theorem Unlinked.rep (hs : Unlinked sl sl' prev n) (h : Rep c sl (ys ++ n :: zs))
    (hp : StopsAt sl ys prev) (ho : sl'.nodesPool.Owns (sl.head :: sl.tail :: (ys ++ zs))) :
    Rep c sl' (ys ++ zs) := by
  have hmem : ∀ x ∈ ys ++ zs, x ∈ ys ++ n :: zs := fun x hx => by
    simp only [List.mem_append, List.mem_cons] at hx ⊢
    tauto
  refine ⟨by rw [hs.head, hs.tail]; exact ho, ?_, ?_, ?_, fun x hx => ?_,
    fun i hi => hs.chain h hp hi, ?_, fun x hx => ?_⟩
  · rw [hs.head, hs.data.key]; exact h.headKey
  · rw [hs.tail, hs.data.key]; exact h.tailKey
  · rw [hs.tail, hs.data.value]; exact h.tailValue
  · rw [hs.data.height]; exact h.height x (hmem x hx)
  · have hsub : (ys ++ zs).Sublist (ys ++ n :: zs) :=
      (List.Sublist.refl _).append (List.sublist_cons_self ..)
    refine (h.sorted.sublist hsub).imp fun hab => ?_
    rwa [hs.data.key, hs.data.key]
  · rw [hs.data.key]; exact h.inner x (hmem x hx)

theorem deleteNode_unlinked (h : Rep c sl (ys ++ n :: zs)) (hk : (sl.node n).key = key)
    (hy : ∀ x ∈ ys, c.comp (sl.node x).key key = true) :
    ∃ sl' prev, deleteNode c sl key = .ok sl' ∧ Unlinked sl sl' prev n ∧ StopsAt sl ys prev ∧
      sl'.nodesPool.Owns (sl.head :: sl.tail :: (ys ++ zs)) ∧
      sl'.nodesPool.freeSize = sl.nodesPool.freeSize + 1 := by
  have hz : ∀ x ∈ n :: zs, c.comp (sl.node x).key key = false := by
    intro x hx
    rcases List.mem_cons.1 hx with rfl | hx
    · rw [hk, Compare.comp_irrefl]
    · have := (List.pairwise_cons.1 (List.pairwise_append.1 h.sorted).2.1).1 x hx
      rw [← hk]; exact Compare.comp_asymm this
  obtain ⟨prev, hd, hp, hnext⟩ := search_before h hy hz
  have hne : ∀ i, prev i ≠ n := fun i he => by
    have hnd := h.nodup
    have hm := hp.mem i
    rw [he] at hm
    rcases List.mem_cons.1 hm with rfl | hm
    · exact (List.nodup_cons.1 hnd).1 (by simp)
    · exact (List.nodup_append.1 (List.nodup_cons.1 hnd).2).2.2 n hm n (by simp) rfl
  obtain ⟨hdata, hfwd⟩ := unlinkLevels_spec hne sl.nodesPool.storage ((sl.node n).height + 1)
  have hperm : (sl.head :: sl.tail :: (ys ++ n :: zs)).Perm
      (n :: sl.head :: sl.tail :: (ys ++ zs)) := by
    refine ((List.perm_middle.cons _).cons _).trans ?_
    exact ((List.Perm.swap ..).cons _).trans (List.Perm.swap ..)
  have ho : ({ sl.nodesPool with
      storage := (List.range ((sl.node n).height + 1)).foldl (unlinkLevel prev n)
        sl.nodesPool.storage } : SingleThreadedStoragePool (SkipNode K V) PoolSize).Owns
      (n :: sl.head :: sl.tail :: (ys ++ zs)) := h.owns.perm hperm
  obtain ⟨p, hrel, hst, -, -, hsize, hown⟩ := SingleThreadedStoragePool.release_owns ho
  refine ⟨⟨sl.head, sl.tail, p, sl.state, sl.curMax⟩, prev, ?_, ?_, hp, hown, hsize⟩
  · simp only [deleteNode, hd, hnext, List.headD_cons, hk, if_true, hrel]
  · have hnode : (⟨sl.head, sl.tail, p, sl.state, sl.curMax⟩ :
        SkipList K V PoolSize MaxLevel).node = (List.range ((sl.node n).height + 1)).foldl
          (unlinkLevel prev n) sl.nodesPool.storage := hst
    refine ⟨rfl, rfl, by rw [hnode]; exact hdata, fun x i => ?_⟩
    rw [hnode, hfwd x i]
    simp only [Nat.lt_succ_iff]
    rfl

end

/-! ## The list as a sorted map -/

/-- The list holds the pairs `kvs`, in comparator order. -/
def Models (c : Compare) (sl : SkipList K V PoolSize MaxLevel) (kvs : List (K × V)) : Prop :=
  ∃ xs, Rep c sl xs ∧
    xs.map (fun x => ((sl.node x).key, (sl.node x).value)) = kvs.map fun p => (p.1, some p.2)

variable {kvs k₁ k₂ : List (K × V)}

omit [LinearOrder K] [BoundedOrder K] in
/-- Transport of a property of keys from the pairs to the nodes. -/
theorem keys_of_map {P : K → Prop} :
    ∀ {xs : List Nat} {kvs : List (K × V)},
      xs.map (fun x => ((sl.node x).key, (sl.node x).value)) = kvs.map (fun p => (p.1, some p.2)) →
      (∀ p ∈ kvs, P p.1) → ∀ x ∈ xs, P (sl.node x).key
  | [], _, _, _, _, hx => by simp at hx
  | x :: xs, [], h, _, _, _ => by simp at h
  | y :: xs, p :: kvs, h, hp, x, hx => by
    simp only [List.map_cons, List.cons.injEq, Prod.mk.injEq] at h
    rcases List.mem_cons.1 hx with rfl | hx
    · rw [h.1.1]; exact hp p (by simp)
    · exact keys_of_map h.2 (fun q hq => hp q (List.mem_cons_of_mem _ hq)) x hx

theorem Models.split (h : Models c sl (k₁ ++ k₂)) : ∃ ys zs, Rep c sl (ys ++ zs) ∧
    ys.map (fun x => ((sl.node x).key, (sl.node x).value)) = k₁.map (fun p => (p.1, some p.2)) ∧
    zs.map (fun x => ((sl.node x).key, (sl.node x).value)) = k₂.map (fun p => (p.1, some p.2)) := by
  obtain ⟨xs, hr, hm⟩ := h
  rw [List.map_append] at hm
  obtain ⟨ys, zs, rfl, h1, h2⟩ := List.map_eq_append_iff.1 hm
  exact ⟨ys, zs, hr, h1, h2⟩

/-- The node of a pair of the list, between the nodes of the pairs before and after it. -/
theorem Models.split_at (h : Models c sl (k₁ ++ (key, val) :: k₂)) :
    ∃ ys n zs, Rep c sl (ys ++ n :: zs) ∧ (sl.node n).key = key ∧ (sl.node n).value = some val ∧
    ys.map (fun x => ((sl.node x).key, (sl.node x).value)) = k₁.map (fun p => (p.1, some p.2)) ∧
    zs.map (fun x => ((sl.node x).key, (sl.node x).value)) = k₂.map (fun p => (p.1, some p.2)) := by
  obtain ⟨ys, zs, hr, hm1, hm2⟩ := h.split
  cases zs with
  | nil => simp at hm2
  | cons n zs =>
    simp only [List.map_cons, List.cons.injEq, Prod.mk.injEq] at hm2
    exact ⟨ys, n, zs, hr, hm2.1.1, hm2.1.2, hm1, hm2.2⟩

theorem Models.sorted (h : Models c sl kvs) :
    kvs.Pairwise fun a b => c.comp a.1 b.1 = true := by
  obtain ⟨xs, hr, hm⟩ := h
  have h1 : (xs.map fun x => ((sl.node x).key, (sl.node x).value)).Pairwise
      fun a b => c.comp a.1 b.1 = true := List.pairwise_map.2 hr.sorted
  rw [hm, List.pairwise_map] at h1
  exact h1

theorem Models.length (h : Models c sl kvs) :
    sl.nodesPool.freeSize + kvs.length + 2 = PoolSize := by
  obtain ⟨xs, hr, hm⟩ := h
  have h1 := hr.owns.length
  have h2 := congrArg List.length hm
  simp only [List.length_map, List.length_cons] at h1 h2
  omega

theorem Models.getHead (h : Models c sl kvs) : sl.getHead = .ok (kvs.head?.map (·.2)) := by
  obtain ⟨xs, hr, hm⟩ := h
  have hch := hr.chain 0 (Nat.zero_le _)
  rw [atLevel_zero] at hch
  cases xs with
  | nil =>
    have hn : (sl.node sl.head).forward 0 = some sl.tail := hch
    have : kvs = [] := by simpa using hm
    simp [SkipList.getHead, hn, hr.tailValue, this]
  | cons x xs =>
    have hn : (sl.node sl.head).forward 0 = some x := hch.1
    cases kvs with
    | nil => simp at hm
    | cons p kvs =>
      simp only [List.map_cons, List.cons.injEq, Prod.mk.injEq] at hm
      simp [SkipList.getHead, hn, hm.1.2]

theorem new_models (hp : 2 ≤ PoolSize) (seed : UInt64) :
    Models c (new c seed : SkipList K V PoolSize MaxLevel) [] := by
  obtain ⟨n, rfl⟩ : ∃ n, PoolSize = n + 2 := ⟨PoolSize - 2, by omega⟩
  refine ⟨[], ⟨?_, ?_, ?_, ?_, by simp, fun i _ => ?_, by simp, by simp⟩, rfl⟩
  · simp only [new, SingleThreadedStoragePool.new, SingleThreadedStoragePool.acquire,
      SingleThreadedStoragePool.set, SingleThreadedStoragePool.Owns,
      SingleThreadedStoragePool.freeList]
    simp [List.range_succ]
  · simp [new, node, SingleThreadedStoragePool.new, SingleThreadedStoragePool.acquire]
  · simp [new, node, SingleThreadedStoragePool.new, SingleThreadedStoragePool.acquire,
      SingleThreadedStoragePool.set]
  · simp [new, node, SingleThreadedStoragePool.new, SingleThreadedStoragePool.acquire,
      SingleThreadedStoragePool.set]
  · simp [new, node, SingleThreadedStoragePool.new, SingleThreadedStoragePool.acquire, Chain,
      atLevel]

/-- What `AddNode` may use as its source of heights. -/
def DrawsLevel (nl : SkipList K V PoolSize MaxLevel → Nat × SkipList K V PoolSize MaxLevel) :
    Prop :=
  ∀ sl, (nl sl).1 ≤ MaxLevel ∧ ∃ st, (nl sl).2 = sl.setState st

omit [LinearOrder K] [BoundedOrder K] in
theorem nextLevel_draws :
    DrawsLevel (nextLevel : SkipList K V PoolSize MaxLevel →
      Nat × SkipList K V PoolSize MaxLevel) :=
  fun sl => ⟨min_le_right (ctz (nextU64 sl.state)) MaxLevel, nextU64 sl.state, rfl⟩

/-! ## The sentinels -/

/-- The sentinels are the same nodes. -/
structure SameSentinels (sl sl' : SkipList K V PoolSize MaxLevel) : Prop where
  head : sl'.head = sl.head
  tail : sl'.tail = sl.tail

omit [LinearOrder K] [BoundedOrder K] in
theorem SameSentinels.refl (sl : SkipList K V PoolSize MaxLevel) : SameSentinels sl sl := ⟨rfl, rfl⟩

omit [LinearOrder K] [BoundedOrder K] in
theorem SameSentinels.trans {sl₁ : SkipList K V PoolSize MaxLevel} (h : SameSentinels sl sl')
    (h' : SameSentinels sl' sl₁) : SameSentinels sl sl₁ :=
  ⟨h'.head.trans h.head, h'.tail.trans h.tail⟩

omit [LinearOrder K] [BoundedOrder K] in
theorem insertAt_sentinels {prev : Nat → Nat} {level : Nat}
    (h : sl.insertAt prev key val level = .ok sl') : SameSentinels sl sl' := by
  unfold insertAt at h
  split at h
  · cases h
  · cases h
    exact ⟨rfl, rfl⟩

omit [BoundedOrder K] in
theorem addNodeAt_sentinels
    {nl : SkipList K V PoolSize MaxLevel → Nat × SkipList K V PoolSize MaxLevel}
    (hnl : DrawsLevel nl) (h : addNodeAt c sl key val nl = .ok sl') : SameSentinels sl sl' := by
  obtain ⟨-, st, hst⟩ := hnl sl
  unfold addNodeAt at h
  split at h
  · cases h
  · split at h
    · cases h
      exact .refl _
    · have hsl := insertAt_sentinels h
      rw [hst] at hsl
      exact ⟨hsl.head, hsl.tail⟩

omit [BoundedOrder K] in
theorem addNode_sentinels (h : addNode c sl key val = .ok sl') : SameSentinels sl sl' :=
  addNodeAt_sentinels nextLevel_draws h

omit [BoundedOrder K] in
theorem deleteNode_sentinels (h : deleteNode c sl key = .ok sl') : SameSentinels sl sl' := by
  unfold deleteNode at h
  split at h
  · cases h
  · split at h
    · cases h
    · split at h
      · simp only at h
        split at h
        · cases h
          exact ⟨rfl, rfl⟩
        · cases h
      · cases h
        exact .refl _

theorem Rep.setState (h : Rep c sl xs) (st : UInt64) : Rep c (sl.setState st) xs :=
  ⟨h.owns, h.headKey, h.tailKey, h.tailValue, h.height, h.chain, h.sorted, h.inner⟩

/-- The insertion's search in front of a key that is not in the list. -/
theorem addNode_search (h : Rep c sl (ys ++ zs)) (hk : c.Inner key)
    (hy : ∀ x ∈ ys, c.comp (sl.node x).key key = true)
    (hz : ∀ x ∈ zs, c.comp key (sl.node x).key = true) :
    ∃ cur prev, sl.descend (fun k => !c.comp key k) (MaxLevel + 1) sl.head (fun _ => sl.head) =
      .ok (cur, prev) ∧ StopsAt sl ys prev ∧ (sl.node (prev 0)).key ≠ key := by
  obtain ⟨prev, hd, hp⟩ := descend_spec (fun k => !c.comp key k) h
    (fun x hx => by simp [Compare.comp_asymm (hy x hx)]) (fun x hx => by simp [hz x hx])
    (by simp [hk.2])
  refine ⟨_, prev, hd, hp, ?_⟩
  rcases List.mem_cons.1 (hp.mem 0) with he | hm
  · rw [he, h.headKey]; exact Compare.comp_ne hk.1
  · exact Compare.comp_ne (hy _ hm)

variable (val) in
/-- **`AddNode`** of a key that is not in the list puts it at its place. -/
theorem Models.addNodeAt
    {nl : SkipList K V PoolSize MaxLevel → Nat × SkipList K V PoolSize MaxLevel}
    (hnl : DrawsLevel nl) (h : Models c sl (k₁ ++ k₂)) (hk : c.Inner key)
    (h1 : ∀ p ∈ k₁, c.comp p.1 key = true) (h2 : ∀ p ∈ k₂, c.comp key p.1 = true)
    (hroom : 0 < sl.nodesPool.freeSize) :
    ∃ sl', addNodeAt c sl key val nl = .ok sl' ∧ Models c sl' (k₁ ++ (key, val) :: k₂) := by
  obtain ⟨ys, zs, hr, hm1, hm2⟩ := h.split
  have hy := keys_of_map (P := fun k => c.comp k key = true) hm1 h1
  have hz := keys_of_map (P := fun k => c.comp key k = true) hm2 h2
  obtain ⟨cur, prev, hd, hp, hne⟩ := addNode_search hr hk hy hz
  obtain ⟨hl, st, hst⟩ := hnl sl
  have hr' := hr.setState st
  have hp' : StopsAt (sl.setState st) ys prev := ⟨hp.level, hp.mem⟩
  have hused : ∀ i, prev i ∈ sl.head :: sl.tail :: (ys ++ zs) := fun i => by
    have := hp.mem i
    simp only [List.mem_cons, List.mem_append] at this ⊢
    tauto
  obtain ⟨sl', n, hins, hs, hn, ho, -⟩ :=
    insertAt_spliced key val (nl sl).1 hr'.owns hused hroom
  have hrep := hs.rep hr' hp' hn ho hk hy hz hl
  refine ⟨sl', ?_, ys ++ n :: zs, hrep, ?_⟩
  · simp only [SkipList.addNodeAt, hd, hne, if_false, hst]
    exact hins
  · have hnm : ∀ x ∈ ys ++ zs, x ≠ n := fun x hx he => hn (by simp [he ▸ hx])
    have hsame : ∀ l : List Nat, (∀ x ∈ l, x ∈ ys ++ zs) →
        l.map (fun x => ((sl'.node x).key, (sl'.node x).value)) =
          l.map fun x => ((sl.node x).key, (sl.node x).value) := by
      intro l hlx
      apply List.map_congr_left
      intro x hx
      rw [hs.key x (hnm x (hlx x hx)), hs.value x (hnm x (hlx x hx))]
      rfl
    rw [List.map_append, List.map_cons, hs.newKey, hs.newValue,
      hsame ys (fun x hx => List.mem_append_left _ hx),
      hsame zs (fun x hx => List.mem_append_right _ hx), hm1, hm2, List.map_append, List.map_cons]

variable (val) in
theorem Models.addNode (h : Models c sl (k₁ ++ k₂)) (hk : c.Inner key)
    (h1 : ∀ p ∈ k₁, c.comp p.1 key = true) (h2 : ∀ p ∈ k₂, c.comp key p.1 = true)
    (hroom : 0 < sl.nodesPool.freeSize) :
    ∃ sl', addNode c sl key val = .ok sl' ∧ Models c sl' (k₁ ++ (key, val) :: k₂) :=
  h.addNodeAt val nextLevel_draws hk h1 h2 hroom

theorem Models.addNode_full (h : Models c sl (k₁ ++ k₂)) (hk : c.Inner key)
    (h1 : ∀ p ∈ k₁, c.comp p.1 key = true) (h2 : ∀ p ∈ k₂, c.comp key p.1 = true)
    (hroom : sl.nodesPool.freeSize = 0) :
    SkipList.addNode c sl key val = .error .terminate := by
  obtain ⟨ys, zs, hr, hm1, hm2⟩ := h.split
  have hy := keys_of_map (P := fun k => c.comp k key = true) hm1 h1
  have hz := keys_of_map (P := fun k => c.comp key k = true) hm2 h2
  obtain ⟨cur, prev, hd, hp, hne⟩ := addNode_search hr hk hy hz
  obtain ⟨-, st, hst⟩ := nextLevel_draws sl
  have hins : ∀ level, (sl.setState st).insertAt prev key val level = .error .terminate := by
    intro level
    simp only [insertAt, setState, SingleThreadedStoragePool.acquire_none hroom]
  simp only [SkipList.addNode, SkipList.addNodeAt, hd, hne, if_false, hst, hins]

/-- **`DeleteNode`** of a key of the list removes its pair. -/
theorem Models.deleteNode (h : Models c sl (k₁ ++ (key, val) :: k₂)) :
    ∃ sl', deleteNode c sl key = .ok sl' ∧ Models c sl' (k₁ ++ k₂) := by
  have hs := List.pairwise_append.1 h.sorted
  obtain ⟨ys, n, zs, hr, hk, -, hm1, hm2⟩ := h.split_at
  have hy := keys_of_map (P := fun k => c.comp k key = true) hm1
    fun p hp => hs.2.2 p hp (key, val) (by simp)
  obtain ⟨sl', prev, hdel, hu, hp, ho, -⟩ := deleteNode_unlinked hr hk hy
  refine ⟨sl', hdel, ys ++ zs, hu.rep hr hp ho, ?_⟩
  simp only [hu.data.key, hu.data.value]
  rw [List.map_append, hm1, hm2, List.map_append]

/-! ## Keys in the list and keys that are not -/

/-- A present key's node, with the nodes before and after it. -/
theorem Models.node_of (h : Models c sl (k₁ ++ (key, val) :: k₂)) :
    ∃ ys n zs, Rep c sl (ys ++ n :: zs) ∧ (sl.node n).key = key ∧ (sl.node n).value = some val ∧
      (∀ x ∈ ys, c.comp (sl.node x).key key = true) ∧
      ∀ x ∈ zs, c.comp key (sl.node x).key = true := by
  have hs := List.pairwise_append.1 h.sorted
  obtain ⟨ys, n, zs, hr, hk, hv, hm1, hm2⟩ := h.split_at
  refine ⟨ys, n, zs, hr, hk, hv, keys_of_map (P := fun k => c.comp k key = true) hm1 ?_,
    keys_of_map (P := fun k => c.comp key k = true) hm2 ?_⟩
  · exact fun p hp => hs.2.2 p hp (key, val) (by simp)
  · exact (List.pairwise_cons.1 hs.2.1).1

theorem Models.addNodeAt_present (h : Models c sl (k₁ ++ (key, val) :: k₂)) (val' : V)
    (nl : SkipList K V PoolSize MaxLevel → Nat × SkipList K V PoolSize MaxLevel) :
    SkipList.addNodeAt c sl key val' nl = .ok sl := by
  obtain ⟨ys, n, zs, hr, hk, -, hy, hz⟩ := h.node_of
  have hin : c.Inner key := hk ▸ hr.inner n (by simp)
  rw [← List.singleton_append, ← List.append_assoc] at hr
  have hpass : ∀ x ∈ ys ++ [n], (!c.comp key (sl.node x).key) = true := by
    intro x hx
    rcases List.mem_append.1 hx with hx | hx
    · simp [Compare.comp_asymm (hy x hx)]
    · simp [List.mem_singleton.1 hx, hk, Compare.comp_irrefl]
  obtain ⟨prev, hd, hp⟩ := descend_spec (fun k => !c.comp key k) hr hpass
    (fun x hx => by simp [hz x hx]) (by simp [hin.2])
  have h0 : prev 0 = n := by rw [hp.level 0 (Nat.zero_le _), atLevel_zero]; simp
  simp only [SkipList.addNodeAt, hd, h0, hk, if_true]

omit [LinearOrder K] [BoundedOrder K] in
theorem advance_not_ok {go : K → Bool} (hgo : ∀ k, go k = true) (level : Nat) :
    ∀ (fuel cur : Nat) {x : Nat}, sl.advance go level fuel cur ≠ .ok x
  | 0, _, _ => nofun
  | fuel + 1, cur, x => by
    rw [advance]
    cases (sl.node cur).forward level with
    | none => nofun
    | some next =>
      simp only [hgo, if_true]
      exact advance_not_ok hgo level fuel next

/-- `AddNode` of the tail sentinel's key runs past the tail. -/
theorem addNode_tailKey {val : V} {sl' : SkipList K V PoolSize MaxLevel} :
    SkipList.addNode c sl c.tailKey val ≠ .ok sl' := by
  intro h
  rw [SkipList.addNode, SkipList.addNodeAt, descend] at h
  cases hadv : sl.advance (fun k => !c.comp c.tailKey k) MaxLevel PoolSize sl.head with
  | error e =>
    rw [hadv] at h
    cases h
  | ok cur => exact advance_not_ok (fun k => by rw [Compare.tail_not_before]; rfl) _ _ _ hadv

/-- `AddNode` of the head sentinel's key takes the sentinel for the key's node and changes nothing.
-/
theorem Models.addNode_headKey (h : Models c sl kvs) (hne : c.comp (c.headKey : K) c.tailKey = true)
    (val : V) : SkipList.addNode c sl c.headKey val = .ok sl := by
  obtain ⟨xs, hr, -⟩ := h
  have hin : ∀ x ∈ xs, (!c.comp c.headKey (sl.node x).key) = false := fun x hx => by
    rw [(hr.inner x hx).1]
    rfl
  rw [← List.nil_append xs] at hr
  obtain ⟨prev, hd, hp⟩ := descend_spec (fun k => !c.comp c.headKey k) hr (by simp) hin
    (by simp [hne])
  have h0 : prev 0 = sl.head := by rw [hp.level 0 (Nat.zero_le _), atLevel_zero]; simp
  simp only [SkipList.addNode, SkipList.addNodeAt, hd, h0, hr.headKey, if_true]

/-- The node in front of which the search for an absent key stops. -/
theorem Models.search_absent (h : Models c sl (k₁ ++ k₂)) (h1 : ∀ p ∈ k₁, c.comp p.1 key = true)
    (h2 : ∀ p ∈ k₂, c.comp key p.1 = true) :
    ∃ cur prev n,
      sl.descend (fun k => c.comp k key) (MaxLevel + 1) sl.head (fun _ => sl.head) =
        .ok (cur, prev) ∧ (sl.node cur).forward 0 = some n ∧
      ((sl.node n).key = key ↔ key = c.tailKey) ∧ (key = c.tailKey → (sl.node n).value = none) := by
  obtain ⟨ys, zs, hr, hm1, hm2⟩ := h.split
  have hy := keys_of_map (P := fun k => c.comp k key = true) hm1 h1
  have hz := keys_of_map (P := fun k => c.comp key k = true) hm2 h2
  obtain ⟨prev, hd, -, hn⟩ := search_before hr hy fun x hx => Compare.comp_asymm (hz x hx)
  refine ⟨_, prev, _, hd, hn, ?_⟩
  cases zs with
  | nil => exact ⟨by rw [List.headD_nil, hr.tailKey, eq_comm], fun _ => hr.tailValue⟩
  | cons z zs =>
    have hkz := hz z (by simp)
    have hne : key ≠ c.tailKey := by
      rintro rfl
      rw [Compare.tail_not_before] at hkz
      cases hkz
    exact ⟨iff_of_false (Ne.symm (Compare.comp_ne hkz)) hne, fun he => absurd he hne⟩

theorem Models.deleteNode_absent (h : Models c sl (k₁ ++ k₂))
    (h1 : ∀ p ∈ k₁, c.comp p.1 key = true) (h2 : ∀ p ∈ k₂, c.comp key p.1 = true)
    (hk : key ≠ c.tailKey) : SkipList.deleteNode c sl key = .ok sl := by
  obtain ⟨cur, prev, n, hd, hn, hkey, -⟩ := h.search_absent h1 h2
  simp only [SkipList.deleteNode, hd, hn, mt hkey.1 hk, if_false]

theorem Models.getVal_present (h : Models c sl (k₁ ++ (key, val) :: k₂)) :
    SkipList.getVal c sl key = .ok (some (some val)) := by
  obtain ⟨ys, n, zs, hr, hk, hv, hy, hz⟩ := h.node_of
  obtain ⟨prev, hd, -, hn⟩ := search_before hr hy fun x hx => by
    rcases List.mem_cons.1 hx with rfl | hx
    · rw [hk, Compare.comp_irrefl]
    · exact Compare.comp_asymm (hz x hx)
  simp only [SkipList.getVal, hd, hn, List.headD_cons, hk, if_true, hv]

/-- An absent key is not found; the tail sentinel's key is, with the sentinel's null. -/
theorem Models.getVal_absent (h : Models c sl (k₁ ++ k₂)) (h1 : ∀ p ∈ k₁, c.comp p.1 key = true)
    (h2 : ∀ p ∈ k₂, c.comp key p.1 = true) :
    SkipList.getVal c sl key = .ok (if key = c.tailKey then some none else none) := by
  obtain ⟨cur, prev, n, hd, hn, hkey, hv⟩ := h.search_absent h1 h2
  by_cases hk : key = c.tailKey
  · simp only [SkipList.getVal, hd, hn, if_pos (hkey.2 hk), if_pos hk, hv hk]
  · simp only [SkipList.getVal, hd, hn, if_neg (mt hkey.1 hk), if_neg hk]

end SkipList

end Naoto
