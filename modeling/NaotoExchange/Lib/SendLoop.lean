import Mathlib

/-!
# Non-blocking sends

A loop that hands bytes to a non-blocking descriptor until all of them are taken: a call takes some
of them, is interrupted and repeated, or would block, which ends the loop (`sendAll`). The answers
of the descriptor are a list; a call after its end takes all that it is given.
-/

namespace SendLoop

/-- The answer to a call: the descriptor takes `n + 1` elements, or all if there are fewer;
`EAGAIN`; or `EINTR`. -/
inductive SendResult where
  | sent (n : Nat)
  | again
  | interrupted
  deriving DecidableEq, Repr

/-- What the calls took, one by one, what is left, and the answers that were not used. -/
structure Sent (α : Type) where
  writes : List (List α)
  unsent : List α
  rest : List SendResult

variable {α : Type}

/-- The loop over `send`: it goes on until all is taken or an answer ends it. Where the list of
answers ends, the next `send` takes everything. -/
def sendAll : List α → List SendResult → Sent α
  | [], rs => ⟨[], [], rs⟩
  | l, [] => ⟨[l], [], []⟩
  | l, .sent n :: rs =>
    let s := sendAll (l.drop (n + 1)) rs
    { s with writes := l.take (n + 1) :: s.writes }
  | l, .again :: rs => ⟨[], l, rs⟩
  | l, .interrupted :: rs => sendAll l rs

theorem sendAll_flatten (l : List α) (rs : List SendResult) :
    (sendAll l rs).writes.flatten ++ (sendAll l rs).unsent = l := by
  fun_induction sendAll l rs with
  | case1 => rfl
  | case2 => simp
  | case3 rs l n hl s ih =>
    simp only [List.flatten_cons, List.append_assoc]
    rw [ih, List.take_append_drop]
  | case4 => rfl
  | case5 rs l hl ih => exact ih

theorem sendAll_complete {l : List α} {rs : List SendResult} (h : .again ∉ rs) :
    (sendAll l rs).unsent = [] := by
  fun_induction sendAll l rs with
  | case1 => rfl
  | case2 => rfl
  | case3 rs l n hl s ih => exact ih fun hmem => h (.tail _ hmem)
  | case4 => exact absurd (List.Mem.head _) h
  | case5 rs l hl ih => exact ih fun hmem => h (.tail _ hmem)

/-- The answers that are left when `n` elements have been taken, unless a call would block before.
-/
def unblocked : Nat → List SendResult → Option (List SendResult)
  | 0, rs => some rs
  | _ + 1, [] => some []
  | n + 1, .sent k :: rs => unblocked (n - k) rs
  | _ + 1, .again :: _ => none
  | n + 1, .interrupted :: rs => unblocked (n + 1) rs

theorem sendAll_unsent_iff (l : List α) (rs : List SendResult) :
    (sendAll l rs).unsent = [] ↔ (unblocked l.length rs).isSome = true := by
  fun_induction sendAll l rs with
  | case1 rs =>
    rw [List.length_nil]
    simp [unblocked]
  | case2 l hl =>
    obtain ⟨a, l, rfl⟩ := List.exists_cons_of_ne_nil hl
    simp [unblocked]
  | case3 rs l n hl s ih =>
    obtain ⟨a, l, rfl⟩ := List.exists_cons_of_ne_nil hl
    rw [List.drop_succ_cons, List.length_drop] at ih
    rw [List.length_cons, unblocked]
    exact ih
  | case4 rs l hl =>
    obtain ⟨a, l, rfl⟩ := List.exists_cons_of_ne_nil hl
    simp [unblocked]
  | case5 rs l hl ih =>
    obtain ⟨a, l, rfl⟩ := List.exists_cons_of_ne_nil hl
    rw [List.length_cons, unblocked]
    exact ih

theorem sendAll_writes {l : List α} {rs : List SendResult} (h : .again ∉ rs) :
    (sendAll l rs).writes.flatten = l := by
  have hall := sendAll_flatten l rs
  rw [sendAll_complete h, List.append_nil] at hall
  exact hall

end SendLoop
