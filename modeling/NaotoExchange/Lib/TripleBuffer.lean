import Mathlib

/-!
# Triple buffers

A reader takes the record in the buffer `complete`. The writer prepares the next buffer and
publishes it by moving `complete`; it never writes the published one. A record has a part that is
overwritten (`info`) and a part that only changes by differences (`value`): the differences are
collected in `deltas`, so that a buffer that comes into use again can catch up with what it missed.

`Synced` is what the catching up relies on: under it a publication adds exactly the pending
difference (`total_flush`), and the buffers are synced again (`Synced.flush`).
-/

/-- Three copies of the plain fields and of the amounts, with the deltas since each flush.
`complete` selects the copy that readers get. -/
structure TripleBuffer (S G : Type) where
  info : Fin 3 → S
  value : Fin 3 → G
  deltas : Fin 3 → G
  complete : Fin 3

namespace TripleBuffer

variable {S G : Type}

/-- Three copies of one record. -/
def new [Zero G] (s : S) (v : G) : TripleBuffer S G where
  info := fun _ => s
  value := fun _ => v
  deltas := fun _ => 0
  complete := 0

section
variable (t : TripleBuffer S G)

/-- The buffer that is published next. -/
def spare : Fin 3 := t.complete + 1

/-- The fields that readers get. -/
def published : S := t.info t.complete

/-- The amounts that readers get. -/
def total : G := t.value t.complete

/-- The fields that the writer prepares. -/
def written : S := t.info t.spare

/-- The deltas staged since the last flush. -/
def pending : G := t.deltas t.complete

/-- The writer changes the fields it prepares. -/
def setWritten (s : S) : TripleBuffer S G := { t with info := Function.update t.info t.spare s }

/-- The writer changes the deltas. -/
def setPending (d : G) : TripleBuffer S G :=
  { t with deltas := Function.update t.deltas t.complete d }

/-- Publishes the spare buffer and prepares the next one. -/
def flush [Add G] [Zero G] : TripleBuffer S G :=
  let cur := t.spare
  let value := Function.update t.value cur (t.value cur + t.pending)
  let deltas := Function.update t.deltas cur 0
  let next := cur + 1
  { info := Function.update t.info next (t.info cur)
    value := Function.update value next (value next + deltas 0 + deltas 1 + deltas 2)
    deltas := deltas
    complete := cur }

end

/-! ## The writer's side -/

section
variable (t : TripleBuffer S G) (s : S) (d : G)

theorem complete_ne_spare : t.complete ≠ t.spare := by
  unfold spare
  generalize t.complete = c
  revert c
  decide

@[simp] theorem published_setWritten : (t.setWritten s).published = t.published :=
  Function.update_of_ne t.complete_ne_spare _ _

@[simp] theorem written_setWritten : (t.setWritten s).written = s := Function.update_self ..

@[simp] theorem total_setWritten : (t.setWritten s).total = t.total := rfl

@[simp] theorem pending_setWritten : (t.setWritten s).pending = t.pending := rfl

@[simp] theorem published_setPending : (t.setPending d).published = t.published := rfl

@[simp] theorem written_setPending : (t.setPending d).written = t.written := rfl

@[simp] theorem total_setPending : (t.setPending d).total = t.total := rfl

@[simp] theorem pending_setPending : (t.setPending d).pending = d := Function.update_self ..

end

/-! ## Publication -/

theorem fin3_cycle (c : Fin 3) : c + 1 ≠ c ∧ c + 2 ≠ c ∧ c + 2 ≠ c + 1 ∧ c + 1 + 1 = c + 2 ∧
    c + 1 + 2 = c := by
  revert c
  decide

section
variable (t : TripleBuffer S G)

@[simp] theorem published_flush [Add G] [Zero G] : t.flush.published = t.written := by
  have h : t.spare ≠ t.spare + 1 := (fin3_cycle t.spare).1.symm
  exact Function.update_of_ne h _ _

@[simp] theorem written_flush [Add G] [Zero G] : t.flush.written = t.written :=
  Function.update_self ..

@[simp] theorem pending_flush [Add G] [Zero G] : t.flush.pending = 0 := Function.update_self ..

/-- The spare buffer has the published value, and the oldest one lacks the last difference. -/
structure Synced [Add G] : Prop where
  spare : t.value t.spare = t.total
  oldest : t.value (t.complete + 2) + t.deltas (t.complete + 2) = t.total

end

section
variable [AddCommMonoid G] {t : TripleBuffer S G}

theorem sum_deltas (f : Fin 3 → G) (c : Fin 3) : f 0 + f 1 + f 2 = f c + f (c + 1) + f (c + 2) := by
  fin_cases c
  · rfl
  · show f 0 + f 1 + f 2 = f 1 + f 2 + f 0
    abel
  · show f 0 + f 1 + f 2 = f 2 + f 0 + f 1
    abel

theorem new_synced (s : S) (v : G) : (new s v).Synced := ⟨rfl, add_zero v⟩

theorem Synced.setWritten (h : t.Synced) (s : S) : (t.setWritten s).Synced := ⟨h.spare, h.oldest⟩

theorem Synced.setPending (h : t.Synced) (d : G) : (t.setPending d).Synced := by
  refine ⟨h.spare, ?_⟩
  show t.value (t.complete + 2) + Function.update t.deltas t.complete d (t.complete + 2) = t.total
  rw [Function.update_of_ne (fin3_cycle t.complete).2.1]
  exact h.oldest

theorem flush_spare (t : TripleBuffer S G) :
    t.flush.value t.spare = t.value t.spare + t.pending := by
  have hne : t.spare ≠ t.spare + 1 := (fin3_cycle t.spare).1.symm
  exact (Function.update_of_ne hne _ _).trans (Function.update_self ..)

theorem flush_complete (t : TripleBuffer S G) : t.flush.value t.complete = t.total := by
  have hne : t.complete ≠ t.spare + 1 := by
    unfold spare
    rw [(fin3_cycle t.complete).2.2.2.1]
    exact (fin3_cycle t.complete).2.1.symm
  exact (Function.update_of_ne hne _ _).trans (Function.update_of_ne t.complete_ne_spare _ _)

/-- The buffer that comes into use next gets the pending difference and the one it missed. -/
theorem flush_oldest (t : TripleBuffer S G) : t.flush.value (t.complete + 2) =
    t.value (t.complete + 2) + t.deltas (t.complete + 2) + t.pending := by
  obtain ⟨-, h2, h3, h4, -⟩ := fin3_cycle t.complete
  have hnext : t.spare + 1 = t.complete + 2 := h4
  have hold : t.complete + 2 ≠ t.spare := h3
  simp only [flush, hnext, Function.update_self, Function.update_of_ne hold]
  rw [add_assoc (t.value _ + _), add_assoc (t.value _), ← add_assoc (Function.update _ _ _ 0),
    sum_deltas _ t.complete, Function.update_of_ne t.complete_ne_spare, Function.update_of_ne hold,
    show t.complete + 1 = t.spare from rfl, Function.update_self, add_zero, pending, add_assoc,
    add_comm (t.deltas t.complete)]

/-- **A publication adds the pending difference.** -/
theorem total_flush (h : t.Synced) : t.flush.total = t.total + t.pending := by
  rw [← h.spare]
  exact flush_spare t

/-- **The buffers stay in step.** -/
theorem Synced.flush (h : t.Synced) : t.flush.Synced := by
  obtain ⟨-, -, -, h4, h5⟩ := fin3_cycle t.complete
  refine ⟨?_, ?_⟩
  · have hspare : t.flush.spare = t.complete + 2 := h4
    rw [hspare, flush_oldest, h.oldest, total_flush h]
  · have hold : t.flush.complete + 2 = t.complete := h5
    rw [hold, flush_complete, total_flush h]
    exact congrArg (t.total + ·) (Function.update_of_ne t.complete_ne_spare _ _)

theorem synced_update {ι : Type} [DecidableEq ι] {ts : ι → TripleBuffer S G}
    (h : ∀ i, (ts i).Synced) (i : ι) (ht : t.Synced) : ∀ j, (Function.update ts i t j).Synced :=
  (Function.forall_update_iff ts fun _ t => t.Synced).2 ⟨ht, fun j _ => h j⟩

/-! ## As two records -/

/-- The buffers stand for the record `working`, which the writer changes, and the record `shown`,
which a reader gets. -/
structure Shows (t : TripleBuffer S G) (working shown : S × G) : Prop where
  synced : t.Synced
  written : t.written = working.1
  next : t.total + t.pending = working.2
  published : t.published = shown.1
  total : t.total = shown.2

theorem new_shows (s : S) (v : G) : (new s v).Shows (s, v) (s, v) :=
  ⟨new_synced s v, rfl, add_zero v, rfl, rfl⟩

variable {working shown : S × G}

theorem Shows.values (h : t.Shows working shown) :
    t.Shows (t.written, working.2) (t.published, shown.2) :=
  ⟨h.synced, rfl, h.next, rfl, h.total⟩

theorem Shows.setWritten (h : t.Shows working shown) (s : S) :
    (t.setWritten s).Shows (s, working.2) shown where
  synced := h.synced.setWritten s
  written := t.written_setWritten s
  next := h.next
  published := (t.published_setWritten s).trans h.published
  total := h.total

theorem Shows.setPending (h : t.Shows working shown) {d v : G} (hd : t.total + d = v) :
    (t.setPending d).Shows (working.1, v) shown where
  synced := h.synced.setPending d
  written := h.written
  next := by rw [total_setPending, pending_setPending, hd]
  published := h.published
  total := h.total

/-- **A publication shows the working record.** -/
theorem Shows.flush (h : t.Shows working shown) : t.flush.Shows working working where
  synced := h.synced.flush
  written := t.written_flush.trans h.written
  next := by rw [total_flush h.synced, pending_flush, add_zero, h.next]
  published := t.published_flush.trans h.written
  total := (total_flush h.synced).trans h.next

end

end TripleBuffer
