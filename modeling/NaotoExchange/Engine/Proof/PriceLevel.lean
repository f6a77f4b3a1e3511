import NaotoExchange.Lib.Linked
import NaotoExchange.Engine.PriceLevel

/-!
# A price level is a FIFO list

`Holds lv st ns`: the level `lv` links exactly the nodes `ns` of the storage `st`, oldest first,
and its counters agree with them. The total is exact modulo `2 ^ 32` only: a match adds the
negated 32-bit amount, widened without its sign, to the 64-bit total.

`addOrder_holds` and `deleteOrder_holds` are the two operations that link and unlink, and
`popOrder_eq` makes `PopOrder` a case of the second; what they leave alone in the node pool is
`Relinked`. `clearPriceLevel_owns` gives all nodes back.
-/

namespace Naoto.Engine

open Linked

/-- The sum of the amounts of the nodes `ns`, modulo `2 ^ 32`. -/
def depth (st : Nat → OrderNode) (ns : List Nat) : UInt32 :=
  ns.foldr (fun n a => (st n).order.amount + a) 0

section
variable {st st' : Nat → OrderNode} {x : Nat}

@[simp] theorem depth_nil : depth st [] = 0 := rfl

@[simp] theorem depth_cons (ns : List Nat) :
    depth st (x :: ns) = (st x).order.amount + depth st ns := rfl

theorem depth_append : ∀ ns ms : List Nat, depth st (ns ++ ms) = depth st ns + depth st ms
  | [], ms => by simp
  | n :: ns, ms => by
    rw [List.cons_append, depth_cons, depth_cons, depth_append ns ms, UInt32.add_assoc]

theorem depth_congr : ∀ {ns : List Nat},
    (∀ n ∈ ns, (st' n).order.amount = (st n).order.amount) → depth st' ns = depth st ns
  | [], _ => rfl
  | n :: ns, h => by
    rw [depth_cons, depth_cons, h n (by simp),
      depth_congr fun m hm => h m (List.mem_cons_of_mem _ hm)]

theorem depth_update (n : OrderNode) : ∀ {ns : List Nat}, ns.Nodup → x ∈ ns →
    depth (Function.update st x n) ns = depth st ns - (st x).order.amount + n.order.amount
  | y :: ns, hnd, hx => by
    obtain ⟨hy, hnd⟩ := List.nodup_cons.1 hnd
    rw [depth_cons, depth_cons]
    by_cases he : y = x
    · have hsame : depth (Function.update st x n) ns = depth st ns := depth_congr fun m hm => by
        have hm' : m ≠ x := fun h => hy (he.trans h.symm ▸ hm)
        rw [Function.update_of_ne hm']
      rw [hsame, he, Function.update_self]
      grind
    · have hns : x ∈ ns := (List.mem_cons.1 hx).resolve_left (Ne.symm he)
      rw [Function.update_of_ne he, depth_update n hnd hns]
      grind

end

/-- The level links exactly the nodes `ns`, in this order. -/
structure PriceLevel.Holds (lv : PriceLevel) (st : Nat → OrderNode) (ns : List Nat) : Prop where
  links : DLinked (fun n => (st n).next) (fun n => (st n).prev) none ns
  head : lv.head = ns.head?
  tail : lv.tail = ns.getLast?
  size : lv.size.toNat = ns.length
  total : lv.totalAmount.toUInt32 = depth st ns

/-- Between `p` and `p'` only links have changed, and only those of the nodes `ns`. -/
structure Relinked (p p' : OrderNodeMempool) (ns : List Nat) : Prop where
  freeQueue : p'.freeQueue = p.freeQueue
  freeSize : p'.freeSize = p.freeSize
  order : ∀ y, (p'.storage y).order = (p.storage y).order
  other : ∀ y, y ∉ ns → p'.storage y = p.storage y

namespace Relinked

variable {p p' : OrderNodeMempool} {ns : List Nat}

theorem freeList (h : Relinked p p' ns) : p'.freeList = p.freeList := by
  simp only [SingleThreadedStoragePool.freeList, h.freeQueue, h.freeSize]

end Relinked

namespace PriceLevel

variable {lv : PriceLevel} {p : OrderNodeMempool} {ns n₁ n₂ : List Nat} {x : Nat}

theorem Holds.congr {st st' : Nat → OrderNode} (h : lv.Holds st ns)
    (hs : ∀ n ∈ ns, st' n = st n) : lv.Holds st' ns where
  links := h.links.congr fun n hn => by simp [hs n hn]
  head := h.head
  tail := h.tail
  size := h.size
  total := h.total.trans (depth_congr fun n hn => by rw [hs n hn]).symm

/-- **A partial fill**: one of the orders gives up `t`, and so does the total. -/
theorem Holds.setAmount {st : Nat → OrderNode} (h : lv.Holds st ns) (hnd : ns.Nodup) (hx : x ∈ ns)
    (t : UInt32) : (lv.incTotalAmount (-t).toUInt64).Holds
      (Function.update st x ((st x).setAmount ((st x).order.amount - t))) ns := by
  refine ⟨h.links.congr fun y _ => ?_, h.head, h.tail, h.size, ?_⟩
  · by_cases hy : y = x
    · rw [hy, Function.update_self]
      exact ⟨rfl, rfl⟩
    · rw [Function.update_of_ne hy]
      exact ⟨rfl, rfl⟩
  · show (lv.totalAmount + (-t).toUInt64).toUInt32 = _
    rw [UInt64.toUInt32_add, h.total, UInt32.toUInt32_toUInt64, depth_update _ hnd hx]
    show _ = _ - _ + ((st x).order.amount - t)
    grind

theorem Holds.head_eq_none (h : lv.Holds p.storage ns) : lv.head = none ↔ ns = [] := by
  rw [h.head]
  simp

/-- **`AddOrder`** appends the node. -/
theorem addOrder_holds (h : lv.Holds p.storage ns) (hnd : ns.Nodup) (hx : x ∉ ns)
    (hlen : ns.length < 2 ^ 63) :
    ∃ lv' p', lv.addOrder p x = .ok (lv', p') ∧ lv'.Holds p'.storage (ns ++ [x]) ∧
      lv'.price = lv.price ∧ Relinked p p' (x :: ns) := by
  have hsize : (lv.size + 1).toNat = (ns ++ [x]).length := by
    rw [UInt64.toNat_add, h.size, List.length_append, List.length_singleton]
    simp only [UInt64.toNat_one]
    omega
  have htot : ∀ st' : Nat → OrderNode, (∀ y, (st' y).order = (p.storage y).order) →
      (lv.totalAmount + (st' x).order.amount.toUInt64).toUInt32 = depth st' (ns ++ [x]) := by
    intro st' ho
    rw [UInt64.toUInt32_add, h.total, depth_append, depth_cons, depth_nil, UInt32.add_zero,
      depth_congr fun n _ => by rw [ho n]]
    simp
  rcases List.eq_nil_or_concat ns with rfl | ⟨ms, t, rfl⟩
  · -- an empty level: the node becomes both ends
    have hhead : lv.head = none := h.head
    obtain ⟨p₁, hp₁⟩ : ∃ p₁, p₁ = p.set x { p.storage x with prev := none, next := none } :=
      ⟨_, rfl⟩
    have hx₁ : p₁.storage x = { p.storage x with prev := none, next := none } := by
      rw [hp₁, SingleThreadedStoragePool.set_storage_self]
    have hy₁ : ∀ y, y ≠ x → p₁.storage y = p.storage y := fun y hy => by
      rw [hp₁, SingleThreadedStoragePool.set_storage_of_ne _ _ hy]
    have hord : ∀ y, (p₁.storage y).order = (p.storage y).order := by
      intro y
      by_cases hy : y = x
      · rw [hy, hx₁]
      · rw [hy₁ y hy]
    refine ⟨{ lv with head := some x, tail := some x }.countOrder p₁ x, p₁, ?_, ?_, rfl,
      ⟨by rw [hp₁]; rfl, by rw [hp₁]; rfl, hord, fun y hy => hy₁ y (by simpa using hy)⟩⟩
    · simp only [addOrder, hhead, ← hp₁]
    · exact ⟨⟨by simp only [hx₁], by simp only [hx₁]; rfl, trivial⟩, rfl, rfl, hsize, htot _ hord⟩
  · rw [List.concat_eq_append] at *
    have hxt : x ≠ t := fun he => hx (by simp [he])
    obtain ⟨a, ha⟩ : ∃ a, (ms ++ [t]).head? = some a := by
      cases ms <;> simp
    have hhead : lv.head = some a := h.head.trans ha
    have htail : lv.tail = some t := by rw [h.tail]; simp
    obtain ⟨p₁, hp₁⟩ : ∃ p₁, p₁ = p.set t { p.storage t with next := some x } := ⟨_, rfl⟩
    obtain ⟨p₂, hp₂⟩ : ∃ p₂, p₂ = p₁.set x { p₁.storage x with prev := some t, next := none } :=
      ⟨_, rfl⟩
    have hx₂ : p₂.storage x = { p.storage x with prev := some t, next := none } := by
      rw [hp₂, SingleThreadedStoragePool.set_storage_self, hp₁,
        SingleThreadedStoragePool.set_storage_of_ne _ _ hxt]
    have ht₂ : p₂.storage t = { p.storage t with next := some x } := by
      rw [hp₂, SingleThreadedStoragePool.set_storage_of_ne _ _ hxt.symm, hp₁,
        SingleThreadedStoragePool.set_storage_self]
    have hy₂ : ∀ y, y ≠ x → y ≠ t → p₂.storage y = p.storage y := fun y h1 h2 => by
      rw [hp₂, SingleThreadedStoragePool.set_storage_of_ne _ _ h1, hp₁,
        SingleThreadedStoragePool.set_storage_of_ne _ _ h2]
    have hord : ∀ y, (p₂.storage y).order = (p.storage y).order := by
      intro y
      by_cases h1 : y = x
      · rw [h1, hx₂]
      · by_cases h2 : y = t
        · rw [h2, ht₂]
        · rw [hy₂ y h1 h2]
    refine ⟨{ lv with tail := some x }.countOrder p₂ x, p₂, ?_, ?_, rfl,
      ⟨by rw [hp₂, hp₁]; rfl, by rw [hp₂, hp₁]; rfl, hord, ?_⟩⟩
    · simp only [addOrder, hhead, htail, ← hp₁, ← hp₂]
    · refine ⟨?_, ?_, ?_, hsize, htot _ hord⟩
      · refine h.links.append hnd hx (by simp only [hx₂]) (by simp only [hx₂]; simp) fun y hy => ?_
        have hyx : y ≠ x := fun he => hx (he ▸ hy)
        by_cases hyt : y = t
        · simp [hyt, ht₂]
        · simp [hy₂ y hyx hyt, Ne.symm hyt]
      · show lv.head = _
        rw [hhead, List.head?_append, ha, Option.some_or]
      · show some x = _
        simp
    · intro y hy
      simp only [List.mem_cons, List.mem_append, List.not_mem_nil, or_false, not_or] at hy
      exact hy₂ y hy.1 hy.2.2

/-- Linking a node into a level adds its amount to the total. -/
theorem addOrder_total {lv' : PriceLevel} {p' : OrderNodeMempool}
    (h : lv.addOrder p x = .ok (lv', p')) :
    lv'.totalAmount = lv.totalAmount + (p.storage x).order.amount.toUInt64 := by
  unfold addOrder at h
  split at h
  · cases h
    simp [countOrder]
  · split at h
    · cases h
    · next tail _ =>
      cases h
      by_cases hx : x = tail
      · simp [countOrder, hx]
      · simp [countOrder, SingleThreadedStoragePool.set_storage_of_ne _ _ hx]

variable (lv p x) in
/-- Taking a node out of a level takes its amount off the total. -/
theorem deleteOrder_total : (lv.deleteOrder p x).2.1.totalAmount =
    lv.totalAmount - (p.storage x).order.amount.toUInt64 := by
  unfold deleteOrder joinFront
  cases (p.storage x).prev with
  | none =>
    simp only [joinBack]
    cases (p.storage x).next <;> rfl
  | some prev =>
    simp only [joinBack]
    split <;> rfl

variable (lv) in
theorem joinFront_spec (hne : (p.storage x).prev ≠ some x) :
    ∃ p', lv.joinFront p x =
        ({ lv with head := if (p.storage x).prev = none then (p.storage x).next else lv.head },
          p') ∧
      p'.freeQueue = p.freeQueue ∧ p'.freeSize = p.freeSize ∧ p'.storage x = p.storage x ∧
      ∀ y, p'.storage y = { p.storage y with
        next := if (p.storage x).prev = some y then (p.storage x).next else
          (p.storage y).next } := by
  unfold joinFront
  cases hp : (p.storage x).prev with
  | none => exact ⟨p, by simp, rfl, rfl, rfl, fun y => by simp⟩
  | some q =>
    have hqx : x ≠ q := fun he => hne (by rw [hp, he])
    refine ⟨p.set q { p.storage q with next := (p.storage x).next }, by simp, rfl, rfl,
      SingleThreadedStoragePool.set_storage_of_ne _ _ hqx, fun y => ?_⟩
    rw [SingleThreadedStoragePool.set_storage]
    by_cases hy : y = q
    · simp [hy]
    · simp [hy, Ne.symm hy]

variable (lv p x) in
theorem joinBack_spec :
    ∃ p', lv.joinBack p x =
        ({ lv with tail := if (p.storage x).next = none then (p.storage x).prev else lv.tail },
          p') ∧
      p'.freeQueue = p.freeQueue ∧ p'.freeSize = p.freeSize ∧
      ∀ y, p'.storage y = { p.storage y with
        prev := if (p.storage x).next = some y then (p.storage x).prev else
          (p.storage y).prev } := by
  unfold joinBack
  cases hp : (p.storage x).next with
  | none => exact ⟨p, by simp, rfl, rfl, fun y => by simp⟩
  | some q =>
    refine ⟨p.set q { p.storage q with prev := (p.storage x).prev }, by simp, rfl, rfl,
      fun y => ?_⟩
    rw [SingleThreadedStoragePool.set_storage]
    by_cases hy : y = q
    · simp [hy]
    · simp [hy, Ne.symm hy]

/-- **`DeleteOrder`** takes the node out, wherever it is. -/
theorem deleteOrder_holds (h : lv.Holds p.storage (n₁ ++ x :: n₂))
    (hnd : (n₁ ++ x :: n₂).Nodup) :
    ∃ lv' p', lv.deleteOrder p x = (decide (n₁ ++ n₂ = []), lv', p') ∧
      lv'.Holds p'.storage (n₁ ++ n₂) ∧ lv'.price = lv.price ∧ Relinked p p' (n₁ ++ n₂) := by
  obtain ⟨hprev, hnext⟩ := h.links.links
  simp only [Option.or_none] at hprev hnext
  have hx₁ : x ∉ n₁ := fun hm => (List.nodup_append.1 hnd).2.2 x hm x (by simp) rfl
  have hpx : (p.storage x).prev ≠ some x := fun he =>
    hx₁ (List.mem_of_getLast? (hprev.symm.trans he))
  obtain ⟨lv₁, hlv₁⟩ : ∃ lv₁ : PriceLevel, lv₁ = { lv with
      size := lv.size - 1,
      totalAmount := lv.totalAmount - (p.storage x).order.amount.toUInt64 } := ⟨_, rfl⟩
  obtain ⟨p₁, hf, hq₁, hs₁, hself, hst₁⟩ := joinFront_spec lv₁ hpx
  obtain ⟨lv₂, hlv₂⟩ : ∃ lv₂ : PriceLevel, lv₂ = { lv₁ with
      head := if (p.storage x).prev = none then (p.storage x).next else lv₁.head } := ⟨_, rfl⟩
  obtain ⟨p₂, hb, hq₂, hs₂, hst₂⟩ := joinBack_spec lv₂ p₁ x
  rw [hself] at hb hst₂
  obtain ⟨lv₃, hlv₃⟩ : ∃ lv₃ : PriceLevel, lv₃ = { lv₂ with
      tail := if (p.storage x).next = none then (p.storage x).prev else lv₂.tail } := ⟨_, rfl⟩
  have hst : ∀ y, p₂.storage y = { p.storage y with
      next := if n₁.getLast? = some y then (p.storage x).next else (p.storage y).next
      prev := if n₂.head? = some y then (p.storage x).prev else (p.storage y).prev } := by
    intro y
    rw [hst₂, hst₁, hprev, hnext]
  have hsize : lv₃.size.toNat = (n₁ ++ n₂).length := by
    have h1 := h.size
    have h2 : (1 : UInt64) ≤ lv.size := by
      rw [UInt64.le_iff_toNat_le, UInt64.toNat_one, h1, List.length_append, List.length_cons]
      omega
    rw [hlv₃, hlv₂, hlv₁, UInt64.toNat_sub_of_le _ _ h2, h1]
    simp
  have hempty : (lv₃.size == 0) = decide (n₁ ++ n₂ = []) := by
    rw [Bool.eq_iff_iff, beq_iff_eq, decide_eq_true_iff, ← List.length_eq_zero_iff, ← hsize,
      ← UInt64.toNat_inj]
    rfl
  refine ⟨lv₃, p₂, ?_, ⟨?_, ?_, ?_, hsize, ?_⟩, by rw [hlv₃, hlv₂, hlv₁],
    ⟨hq₂.trans hq₁, hs₂.trans hs₁, fun y => by rw [hst], fun y hy => ?_⟩⟩
  · simp only [deleteOrder, ← hlv₁, hf, ← hlv₂, hb, ← hlv₃, hempty]
  · refine h.links.delete hnd fun y _ => ?_
    simp only [hst]
    exact ⟨trivial, trivial⟩
  · rw [hlv₃, hlv₂, hlv₁, hprev, hnext]
    cases n₁ with
    | nil => simp
    | cons a n₁ => simp [h.head, List.getLast?_cons]
  · rw [hlv₃, hlv₂, hlv₁, hprev, hnext]
    cases n₂ with
    | nil => simp
    | cons b n₂ => simp [h.tail, List.getLast?_cons]
  · have hd : depth p₂.storage (n₁ ++ n₂) = depth p.storage (n₁ ++ n₂) :=
      depth_congr fun n _ => by rw [hst]
    have ht : lv₃.totalAmount = lv.totalAmount - (p.storage x).order.amount.toUInt64 := by
      rw [hlv₃, hlv₂, hlv₁]
    rw [ht, UInt64.toUInt32_sub, h.total, hd, depth_append, depth_append, depth_cons,
      UInt32.toUInt32_toUInt64]
    grind
  · simp only [List.mem_append, not_or] at hy
    have h1 : n₁.getLast? ≠ some y := fun he => hy.1 (List.mem_of_getLast? he)
    have h2 : n₂.head? ≠ some y := fun he => hy.2 (List.mem_of_head? he)
    rw [hst, if_neg h1, if_neg h2]

theorem popOrder_eq (hhead : lv.head = some x) (hprev : (p.storage x).prev = none) :
    lv.popOrder p = (some x, (lv.deleteOrder p x).2) := by
  simp only [popOrder, hhead, deleteOrder, joinFront, hprev, joinBack]
  cases hnext : (p.storage x).next with
  | none => rfl
  | some y =>
    have horder : ((p.set y { p.storage y with prev := none }).storage x).order =
      (p.storage x).order := by
      rw [SingleThreadedStoragePool.set_storage]
      split
      · next h => rw [h]
      · rfl
    simp only [horder]

/-- The loop of `ClearPriceLevel` gives every node of the list back, in their order. -/
theorem releaseNodes_owns :
    ∀ {ns lent : List Nat} {p : OrderNodeMempool} {fuel : Nat} {q : Option Nat},
    DLinked (fun n => (p.storage n).next) (fun n => (p.storage n).prev) q ns → p.Owns (ns ++ lent) →
    ns.length ≤ fuel → ∃ p', releaseNodes fuel ns.head? p = .ok p' ∧ p'.storage = p.storage ∧
      p'.freeList = p.freeList ++ ns ∧ p'.Owns lent
  | [], _, p, fuel, _, _, howns, _ => ⟨p, by cases fuel <;> rfl, rfl, by simp, howns⟩
  | n :: ns, lent, p, fuel + 1, _, hl, howns, hlen => by
    obtain ⟨p₁, hrel, hst, -, -, -, howns₁⟩ := SingleThreadedStoragePool.release_owns howns
    have hfree : p₁.freeList = p.freeList ++ [n] := by
      have hlt : p.freeSize < meOrderNodePoolSize := by
        have := howns.length
        simp only [List.cons_append, List.length_cons] at this
        omega
      have := SingleThreadedStoragePool.release_freeList (x := n) hlt
      rwa [hrel] at this
    have hl₁ : DLinked (fun n => (p₁.storage n).next) (fun n => (p₁.storage n).prev)
        (some n) ns := by
      rw [hst]
      exact hl.2.2
    obtain ⟨p₂, hrest, hst₂, hfree₂, howns₂⟩ := releaseNodes_owns hl₁ howns₁ (by simpa using hlen)
    refine ⟨p₂, ?_, hst₂.trans hst, ?_, howns₂⟩
    · have hnext : (p.storage n).next = ns.head? := hl.2.1
      simp only [List.head?_cons, releaseNodes, hrel, hnext, hrest]
    · rw [hfree₂, hfree, List.append_assoc, List.singleton_append]

/-- **`ClearPriceLevel`** empties the list and gives each of its nodes back once. -/
theorem clearPriceLevel_owns {lent : List Nat} (h : lv.Holds p.storage ns)
    (howns : p.Owns (ns ++ lent)) : ∃ p', lv.clearPriceLevel p =
        .ok ({ lv with size := 0, totalAmount := 0, head := none, tail := none }, p') ∧
      p'.storage = p.storage ∧ p'.freeList = p.freeList ++ ns ∧ p'.Owns lent := by
  have hlen : ns.length ≤ meOrderNodePoolSize + 1 := by
    have := howns.length_le
    simp only [List.length_append] at this
    omega
  obtain ⟨p', hrel, hrest⟩ := releaseNodes_owns h.links howns hlen
  refine ⟨p', ?_, hrest⟩
  rw [clearPriceLevel, h.head, hrel]

/-- `ClearPriceLevel` of a level without nodes leaves the pool alone. -/
theorem clearPriceLevel_empty (h : lv.head = none) : lv.clearPriceLevel p =
    .ok ({ lv with size := 0, totalAmount := 0, head := none, tail := none }, p) := by
  simp [clearPriceLevel, h, releaseNodes]

theorem holds_nil (st : Nat → OrderNode) (price : Int64) :
    PriceLevel.Holds ⟨price, 0, 0, none, none⟩ st [] :=
  ⟨trivial, rfl, rfl, rfl, rfl⟩

end PriceLevel

end Naoto.Engine
