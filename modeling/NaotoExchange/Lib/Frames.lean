import Mathlib

/-!
# Cutting a stream into messages

A stream is cut into consecutive messages of `n` bytes; what is left is the tail. Cutting more of
the stream only needs the tail of what came before (`frames_append`, `tail_append`). Memory is a
function of the address.
-/

namespace Frames

variable {α : Type}

/-- The complete messages. -/
def frames (n : Nat) (l : List α) : List (List α) :=
  (List.range (l.length / n)).map fun j => (l.drop (j * n)).take n

/-- The bytes after the last complete message. -/
def tail (n : Nat) (l : List α) : List α := l.drop (l.length / n * n)

/-- `len` cells from `off` on. -/
def readMem (mem : Nat → α) (off len : Nat) : List α := (List.range len).map fun i => mem (off + i)

/-- The memory after the cells `l` are written at its start. -/
def fill (l : List α) (mem : Nat → α) : Nat → α := fun i => (l[i]?).getD (mem i)

section
variable {n : Nat} {a b l : List α}

theorem length_tail (n : Nat) (l : List α) : (tail n l).length = l.length % n := by
  rw [tail, List.length_drop, Nat.mod_def, Nat.mul_comm]

theorem frames_of_lt (h : l.length < n) : frames n l = [] := by
  rw [frames, Nat.div_eq_of_lt h]
  rfl

theorem tail_of_lt (h : l.length < n) : tail n l = l := by
  rw [tail, Nat.div_eq_of_lt h, Nat.zero_mul, List.drop_zero]

theorem tail_of_mod (h : l.length % n = 0) : tail n l = [] := by
  rw [← List.length_eq_zero_iff, length_tail]
  exact h

/-- Whole messages in front do not change how the rest is cut. -/
theorem frames_whole_append {k : Nat} (hn : 0 < n) (ha : a.length = k * n) :
    frames n (a ++ b) = frames n a ++ frames n b := by
  have hcount : (a ++ b).length / n = k + b.length / n := by
    rw [List.length_append, ha, Nat.add_comm, Nat.add_mul_div_right _ _ hn, Nat.add_comm]
  have hk : a.length / n = k := by rw [ha, Nat.mul_div_cancel _ hn]
  unfold frames
  rw [hcount, hk, List.range_add, List.map_append, List.map_map]
  congr 1
  · refine List.map_congr_left fun j hj => ?_
    have hj' : j + 1 ≤ k := List.mem_range.1 hj
    have hle : j * n + n ≤ a.length := by
      rw [ha, ← Nat.succ_mul]
      exact Nat.mul_le_mul_right n hj'
    rw [List.drop_append_of_le_length (by omega), List.take_append_of_le_length]
    rw [List.length_drop]
    omega
  · refine List.map_congr_left fun j _ => ?_
    show List.take n (List.drop ((k + j) * n) (a ++ b)) = _
    rw [Nat.add_mul, ← ha, List.drop_append, List.drop_of_length_le (by omega), List.nil_append,
      Nat.add_sub_cancel_left]

theorem tail_whole_append {k : Nat} (hn : 0 < n) (ha : a.length = k * n) :
    tail n (a ++ b) = tail n b := by
  have hcount : (a ++ b).length / n * n = a.length + b.length / n * n := by
    rw [List.length_append, ha, Nat.add_comm, Nat.add_mul_div_right _ _ hn, Nat.add_mul,
      Nat.add_comm]
  unfold tail
  rw [hcount, List.drop_append, List.drop_of_length_le (by omega), List.nil_append,
    Nat.add_sub_cancel_left]

theorem take_append_tail (n : Nat) (l : List α) : l.take (l.length / n * n) ++ tail n l = l :=
  List.take_append_drop _ l

theorem length_whole (n : Nat) (l : List α) :
    (l.take (l.length / n * n)).length = l.length / n * n := by
  rw [List.length_take]
  exact Nat.min_eq_left (Nat.div_mul_le_self _ _)

/-- **Cutting goes on from the tail.** -/
theorem frames_append (hn : 0 < n) (l b : List α) :
    frames n (l ++ b) = frames n l ++ frames n (tail n l ++ b) := by
  have hw := length_whole n l
  have htail : frames n (tail n l) = [] := by
    apply frames_of_lt
    rw [length_tail]
    exact Nat.mod_lt _ hn
  calc frames n (l ++ b) = frames n (l.take (l.length / n * n) ++ (tail n l ++ b)) := by
        rw [← List.append_assoc, take_append_tail]
    _ = frames n (l.take (l.length / n * n)) ++ frames n (tail n l ++ b) :=
        frames_whole_append hn hw
    _ = frames n (l.take (l.length / n * n) ++ tail n l) ++ frames n (tail n l ++ b) := by
        rw [frames_whole_append hn hw, htail, List.append_nil]
    _ = frames n l ++ frames n (tail n l ++ b) := by rw [take_append_tail]

theorem tail_append (hn : 0 < n) (l b : List α) : tail n (l ++ b) = tail n (tail n l ++ b) := by
  calc tail n (l ++ b) = tail n (l.take (l.length / n * n) ++ (tail n l ++ b)) := by
        rw [← List.append_assoc, take_append_tail]
    _ = tail n (tail n l ++ b) := tail_whole_append hn (length_whole n l)

/-! ## Memory -/

theorem readMem_fill (mem : Nat → α) {off len : Nat} (h : off + len ≤ l.length) :
    readMem (fill l mem) off len = (l.drop off).take len := by
  apply List.ext_getElem
  · simp only [readMem, List.length_map, List.length_range, List.length_take, List.length_drop]
    omega
  · intro i h1 h2
    simp only [readMem, List.length_map, List.length_range] at h1
    simp only [readMem, fill, List.getElem_map, List.getElem_range, List.getElem_take,
      List.getElem_drop]
    rw [List.getElem?_eq_getElem (by omega), Option.getD_some]

theorem readMem_frames (n : Nat) (mem : Nat → α) :
    (List.range (l.length / n)).map (fun j => readMem (fill l mem) (j * n) n) = frames n l := by
  refine List.map_congr_left fun j hj => readMem_fill mem ?_
  have hj' : j + 1 ≤ l.length / n := List.mem_range.1 hj
  calc j * n + n = (j + 1) * n := (Nat.succ_mul j n).symm
    _ ≤ l.length / n * n := Nat.mul_le_mul_right n hj'
    _ ≤ l.length := Nat.div_mul_le_self _ _

end

end Frames
