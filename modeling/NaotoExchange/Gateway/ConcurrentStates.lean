import NaotoExchange.Gateway.SingleCopy

/-!
# A client's state read while it is written

`order_gateway/include/client_states.hpp` with the reader and the writer on two threads. The
writer's calls are sequences of writes to single fields, with one atomic store of `Complete` in a
flush; `GetClientState` is an atomic load of `Complete` and then a copy of the selected buffer,
field by field, in any order. The steps of the two interleave in any way.

The model is of one descriptor; the calls on others touch other memory.

* `exec_program`: the writes of a call, taken together, are the call of `Gateway/ClientStates.lean`.
* `run_untorn`: if `Complete` is stored at most once between the load and the last field read, the
  copy is the state that was published by the store of the loaded index.
-/

namespace Naoto.Gateway.Concurrent

/-- The number of a position. -/
abbrev Slot := Fin maxPositions

-- one instance for all the buffer indices below
local instance neZeroThree : NeZero 3 := ⟨by decide⟩

/-- The fields of one position, in the three buffers and the three deltas. -/
structure SlotCells where
  assetId : Fin 3 → UInt16
  confirmed : Fin 3 → Int64
  attempt : Fin 3 → Int64
  deltaConfirmed : Fin 3 → Int64
  deltaAttempt : Fin 3 → Int64

/-- The memory of a descriptor. -/
structure Cells where
  clientId : Fin 3 → UInt32
  auth : Fin 3 → UInt8
  sessionId : Fin 3 → UInt32
  slot : Slot → SlotCells
  complete : Fin 3

namespace Cells

/-- All zero. -/
def new : Cells where
  clientId := fun _ => 0
  auth := fun _ => 0
  sessionId := fun _ => 0
  slot := fun _ => ⟨fun _ => 0, fun _ => 0, fun _ => 0, fun _ => 0, fun _ => 0⟩
  complete := 0

/-- What a buffer holds. -/
def buffer (m : Cells) (b : Fin 3) : ClientState where
  clientId := m.clientId b
  assetId := fun i => (m.slot i).assetId b
  auth := m.auth b
  sessionId := m.sessionId b
  confirmed := fun i => (m.slot i).confirmed b
  attempt := fun i => (m.slot i).attempt b

/-- The memory as the triple buffer of a descriptor. -/
def toTriple (m : Cells) : TripleBuffer ClientInfo Funds where
  info := fun b => (m.buffer b).toClientInfo
  value := fun b => (m.buffer b).toFunds
  deltas := fun d => ⟨fun i => (m.slot i).deltaConfirmed d, fun i => (m.slot i).deltaAttempt d⟩
  complete := m.complete

end Cells

/-! ## The writer -/

/-- A write to one field, or the store of `Complete`. -/
inductive Write where
  | clientId (b : Fin 3) (v : UInt32)
  | auth (b : Fin 3) (v : UInt8)
  | sessionId (b : Fin 3) (v : UInt32)
  | assetId (b : Fin 3) (i : Slot) (v : UInt16)
  | confirmed (b : Fin 3) (i : Slot) (v : Int64)
  | attempt (b : Fin 3) (i : Slot) (v : Int64)
  | deltaConfirmed (d : Fin 3) (i : Slot) (v : Int64)
  | deltaAttempt (d : Fin 3) (i : Slot) (v : Int64)
  | complete (b : Fin 3)

/-- The position `i` is changed. -/
def Cells.setSlot (m : Cells) (i : Slot) (c : SlotCells) : Cells :=
  { m with slot := Function.update m.slot i c }

/-- One write of the writer's thread. -/
def Cells.write (m : Cells) : Write → Cells
  | .clientId b v => { m with clientId := Function.update m.clientId b v }
  | .auth b v => { m with auth := Function.update m.auth b v }
  | .sessionId b v => { m with sessionId := Function.update m.sessionId b v }
  | .assetId b i v =>
    m.setSlot i { m.slot i with assetId := Function.update (m.slot i).assetId b v }
  | .confirmed b i v =>
    m.setSlot i { m.slot i with confirmed := Function.update (m.slot i).confirmed b v }
  | .attempt b i v =>
    m.setSlot i { m.slot i with attempt := Function.update (m.slot i).attempt b v }
  | .deltaConfirmed d i v =>
    m.setSlot i { m.slot i with deltaConfirmed := Function.update (m.slot i).deltaConfirmed d v }
  | .deltaAttempt d i v =>
    m.setSlot i { m.slot i with deltaAttempt := Function.update (m.slot i).deltaAttempt d v }
  | .complete b => { m with complete := b }

/-- A write whose value is computed from the memory when it is made. -/
abbrev Instr := Cells → Write

/-- The writes of a call, one after the other; each one can depend on the memory it finds. -/
def exec (instrs : List Instr) (m : Cells) : Cells := instrs.foldl (fun m w => m.write (w m)) m

/-- `for (size_t i = 0; i < MaxPositions; ++i)`. -/
def forSlots (body : Slot → List Instr) : List Instr := (List.finRange maxPositions).flatMap body

section
variable (c : Fin 3)

/-- The loop of `SetClientState`. -/
def installSlot (response : ClientAccountSnapshot) (i : Slot) : List Instr :=
  [fun _ => .assetId (c + 1) i (response.assetId i),
    fun m => .deltaConfirmed c i (response.confirmed i - (m.slot i).confirmed c),
    fun m => .deltaAttempt c i (response.attempt i - (m.slot i).attempt c)]

/-- The loop of `SetClientAssets`. -/
def creditSlot (confirmed attempt : Int64) (i : Slot) : List Instr :=
  [fun m => .deltaConfirmed c i ((m.slot i).deltaConfirmed c + confirmed),
    fun m => .deltaAttempt c i ((m.slot i).deltaAttempt c + attempt)]

/-- The first loop of `FlushTripleBuffer`. -/
def finishSlot (i : Slot) : List Instr :=
  [fun m => .confirmed (c + 1) i ((m.slot i).confirmed (c + 1) + (m.slot i).deltaConfirmed c),
    fun m => .attempt (c + 1) i ((m.slot i).attempt (c + 1) + (m.slot i).deltaAttempt c)]

/-- The second loop of `FlushTripleBuffer`; `c` is the index that was stored. -/
def prepareSlot (i : Slot) : List Instr :=
  [fun _ => .deltaConfirmed c i 0, fun _ => .deltaAttempt c i 0,
    fun m => .confirmed (c + 1) i ((m.slot i).confirmed (c + 1) + (m.slot i).deltaConfirmed 0),
    fun m => .confirmed (c + 1) i ((m.slot i).confirmed (c + 1) + (m.slot i).deltaConfirmed 1),
    fun m => .confirmed (c + 1) i ((m.slot i).confirmed (c + 1) + (m.slot i).deltaConfirmed 2),
    fun m => .attempt (c + 1) i ((m.slot i).attempt (c + 1) + (m.slot i).deltaAttempt 0),
    fun m => .attempt (c + 1) i ((m.slot i).attempt (c + 1) + (m.slot i).deltaAttempt 1),
    fun m => .attempt (c + 1) i ((m.slot i).attempt (c + 1) + (m.slot i).deltaAttempt 2),
    fun m => .assetId (c + 1) i ((m.slot i).assetId c)]

/-- The assignments of the fields that are not per position. -/
def setRest (b : Fin 3) (clientId : UInt32) (auth : UInt8) (sessionId : UInt32) : List Instr :=
  [fun _ => .clientId b clientId, fun _ => .auth b auth, fun _ => .sessionId b sessionId]

end

/-- The writes of a call that begins in the memory `m`. Only the writer stores `Complete` and
changes the buffer that it prepares, so what it loads at the beginning of the call stays true. -/
def program (m : Cells) : StatesCall → List Instr
  | .setClientAssets confirmed attempt assetId =>
    forSlots fun i =>
      if (m.slot i).assetId (m.complete + 1) = assetId then
        creditSlot m.complete confirmed attempt i else []
  | .setClientState response =>
    setRest (m.complete + 1) response.clientId 1 (m.sessionId (m.complete + 1) + 1) ++
      forSlots (installSlot m.complete response)
  | .setAuthStatus auth => [fun _ => .auth (m.complete + 1) (if auth = 0 then 0 else 1)]
  | .flushTripleBuffer =>
    let c := m.complete + 1
    forSlots (finishSlot m.complete) ++ (fun _ => .complete c) :: (forSlots (prepareSlot c) ++
      setRest (c + 1) (m.clientId c) (m.auth c) (m.sessionId c))

/-! ### The writes of a call are the call -/

namespace SlotCells

/-- The amounts in buffer `b`. -/
def setFunds (x : SlotCells) (b : Fin 3) (confirmed attempt : Int64) : SlotCells :=
  { x with
    confirmed := Function.update x.confirmed b confirmed
    attempt := Function.update x.attempt b attempt }

/-- The amounts staged under the index `d`. -/
def setDelta (x : SlotCells) (d : Fin 3) (confirmed attempt : Int64) : SlotCells :=
  { x with
    deltaConfirmed := Function.update x.deltaConfirmed d confirmed
    deltaAttempt := Function.update x.deltaAttempt d attempt }

/-- The asset in buffer `b`. -/
def setAsset (x : SlotCells) (b : Fin 3) (assetId : UInt16) : SlotCells :=
  { x with assetId := Function.update x.assetId b assetId }

/-- A position after the first loop of a flush. -/
def finish (c : Fin 3) (x : SlotCells) : SlotCells :=
  x.setFunds (c + 1) (x.confirmed (c + 1) + x.deltaConfirmed c)
    (x.attempt (c + 1) + x.deltaAttempt c)

/-- A position after the second loop. -/
def prepare (c : Fin 3) (x : SlotCells) : SlotCells :=
  let y := x.setDelta c 0 0
  (y.setFunds (c + 1)
    (x.confirmed (c + 1) + y.deltaConfirmed 0 + y.deltaConfirmed 1 + y.deltaConfirmed 2)
    (x.attempt (c + 1) + y.deltaAttempt 0 + y.deltaAttempt 1 + y.deltaAttempt 2)).setAsset
    (c + 1) (x.assetId c)

end SlotCells

theorem exec_append (xs ys : List Instr) (m : Cells) : exec (xs ++ ys) m = exec ys (exec xs m) :=
  List.foldl_append ..

theorem exec_cons (w : Instr) (ws : List Instr) (m : Cells) :
    exec (w :: ws) m = exec ws (m.write (w m)) := rfl

theorem exec_forSlots {body : Slot → List Instr} (φ : Slot → SlotCells → SlotCells)
    (h : ∀ i m, exec (body i) m = m.setSlot i (φ i (m.slot i))) (m : Cells) :
    exec (forSlots body) m = { m with slot := fun i => φ i (m.slot i) } := by
  have hloop : ∀ (is : List Slot) (m : Cells), is.Nodup → exec (is.flatMap body) m =
      { m with slot := fun i => if i ∈ is then φ i (m.slot i) else m.slot i } := by
    intro is
    induction is with
    | nil => intro m _; simp [exec]
    | cons i is ih =>
      intro m hnodup
      rw [List.nodup_cons] at hnodup
      rw [List.flatMap_cons, exec_append, h, ih _ hnodup.2]
      congr 1
      funext j
      by_cases hji : j = i
      · subst hji
        simp [Cells.setSlot, hnodup.1]
      · simp [Cells.setSlot, hji]
  rw [forSlots, hloop _ _ (List.nodup_finRange _)]
  simp

theorem funds_update (f g : Slot → Fin 3 → Int64) (b : Fin 3) (x y : Slot → Int64) :
    (fun b' => (⟨fun i => Function.update (f i) b (x i) b', fun i => Function.update (g i) b
      (y i) b'⟩ : Funds)) =
      Function.update (fun b' => ⟨fun i => f i b', fun i => g i b'⟩) b ⟨x, y⟩ := by
  funext b'
  by_cases hb : b' = b
  · subst hb
    simp
  · simp [hb]

theorem info_update (m : Cells) (b : Fin 3) (info : ClientInfo) :
    (fun b' => (⟨Function.update m.clientId b info.clientId b',
      fun i => Function.update (m.slot i).assetId b (info.assetId i) b',
      Function.update m.auth b info.auth b', Function.update m.sessionId b info.sessionId b'⟩ :
      ClientInfo)) = Function.update m.toTriple.info b info := by
  funext b'
  by_cases hb : b' = b
  · subst hb
    simp
  · simp [hb, Cells.toTriple, Cells.buffer]

section
variable (m : Cells)

theorem exec_setClientAssets (confirmed attempt : Int64) (assetId : UInt16) :
    (exec (program m (.setClientAssets confirmed attempt assetId)) m).toTriple =
    m.toTriple.setPending
      (m.toTriple.pending.credit m.toTriple.written.assetId confirmed attempt assetId) := by
  let c := m.complete
  let hit := fun i => (m.slot i).assetId (c + 1) = assetId
  have hslot : ∀ i m', exec (if hit i then creditSlot c confirmed attempt i else []) m' =
      m'.setSlot i ((m'.slot i).setDelta c
        (if hit i then (m'.slot i).deltaConfirmed c + confirmed else (m'.slot i).deltaConfirmed c)
        (if hit i then (m'.slot i).deltaAttempt c + attempt else (m'.slot i).deltaAttempt c)) := by
    intro i m'
    by_cases h : hit i
    · simp [h, creditSlot, exec, Cells.write, Cells.setSlot, SlotCells.setDelta]
    · simp [h, exec, Cells.setSlot, SlotCells.setDelta]
  rw [program, exec_forSlots (fun i x => x.setDelta c
    (if hit i then x.deltaConfirmed c + confirmed else x.deltaConfirmed c)
    (if hit i then x.deltaAttempt c + attempt else x.deltaAttempt c)) hslot]
  exact congrArg (fun deltas => { m.toTriple with deltas }) (funds_update ..)

theorem exec_setClientState (response : ClientAccountSnapshot) :
    (exec (program m (.setClientState response)) m).toTriple = (m.toTriple.setWritten
      { clientId := response.clientId
        assetId := response.assetId
        auth := 1
        sessionId := m.toTriple.written.sessionId + 1 }).setPending
          (response.toFunds - m.toTriple.total) := by
  let c := m.complete
  have hslot : ∀ i m', exec (installSlot c response i) m' = m'.setSlot i
      (((m'.slot i).setAsset (c + 1) (response.assetId i)).setDelta c
        (response.confirmed i - (m'.slot i).confirmed c)
        (response.attempt i - (m'.slot i).attempt c)) := by
    intro i m'
    simp [installSlot, exec, Cells.write, Cells.setSlot, SlotCells.setDelta, SlotCells.setAsset]
  rw [program, exec_append,
    exec_forSlots (fun i x => (x.setAsset (c + 1) (response.assetId i)).setDelta c
    (response.confirmed i - x.confirmed c) (response.attempt i - x.attempt c)) hslot]
  exact congrArg₂ (fun info deltas => { m.toTriple with info, deltas })
    (info_update m (c + 1) ⟨response.clientId, response.assetId, 1, m.sessionId (c + 1) + 1⟩)
    (funds_update (fun i => (m.slot i).deltaConfirmed) (fun i => (m.slot i).deltaAttempt) c
      (fun i => response.confirmed i - (m.slot i).confirmed c) fun i =>
      response.attempt i - (m.slot i).attempt c)

theorem exec_setAuthStatus (auth : UInt8) :
    (exec (program m (.setAuthStatus auth)) m).toTriple =
      m.toTriple.setWritten { m.toTriple.written with auth := if auth = 0 then 0 else 1 } := by
  refine congrArg (fun info => { m.toTriple with info })
    (Eq.trans ?_ (info_update m (m.complete + 1) _))
  simp [program, exec, Cells.write, Cells.buffer, TripleBuffer.written, TripleBuffer.spare,
    Cells.toTriple]

theorem exec_finish (c : Fin 3) :
    exec (forSlots (finishSlot c)) m = { m with slot := fun i => (m.slot i).finish c } := by
  refine exec_forSlots (fun _ => SlotCells.finish c) (fun i m' => ?_) m
  simp [finishSlot, exec, Cells.write, Cells.setSlot, SlotCells.finish, SlotCells.setFunds]

theorem exec_prepare (c : Fin 3) :
    exec (forSlots (prepareSlot c)) m = { m with slot := fun i => (m.slot i).prepare c } := by
  refine exec_forSlots (fun _ => SlotCells.prepare c) (fun i m' => ?_) m
  simp [prepareSlot, exec, Cells.write, Cells.setSlot, SlotCells.prepare, SlotCells.setFunds,
    SlotCells.setDelta, SlotCells.setAsset]

theorem toTriple_finish (c b : Fin 3) :
    (Cells.write { m with slot := fun i => (m.slot i).finish c } (.complete b)).toTriple =
      { m.toTriple with
        value := Function.update m.toTriple.value (c + 1)
          (m.toTriple.value (c + 1) + m.toTriple.deltas c)
        complete := b } :=
  congrArg (fun value => { m.toTriple with value, complete := b }) (funds_update ..)

theorem deltas_prepare (c : Fin 3) :
    ({ m with slot := fun i => (m.slot i).prepare c } : Cells).toTriple.deltas =
    Function.update m.toTriple.deltas c 0 :=
  funds_update (fun i => (m.slot i).deltaConfirmed) (fun i => (m.slot i).deltaAttempt) c
    (fun _ => 0) fun _ => 0

theorem value_prepare (c : Fin 3) :
    ({ m with slot := fun i => (m.slot i).prepare c } : Cells).toTriple.value =
    Function.update m.toTriple.value (c + 1)
    (m.toTriple.value (c + 1) + Function.update m.toTriple.deltas c 0 0 +
      Function.update m.toTriple.deltas c 0 1 + Function.update m.toTriple.deltas c 0 2) := by
  rw [← deltas_prepare m c]
  exact funds_update (fun i => (m.slot i).confirmed) (fun i => (m.slot i).attempt) (c + 1) _ _

/-- What follows the store, from the memory `m` of the store on. -/
theorem toTriple_prepare (c : Fin 3) :
    (exec (forSlots (prepareSlot c) ++ setRest (c + 1) (m.clientId c) (m.auth c) (m.sessionId c))
      m).toTriple =
      let deltas := Function.update m.toTriple.deltas c 0
      { info := Function.update m.toTriple.info (c + 1) (m.toTriple.info c)
        value := Function.update m.toTriple.value (c + 1)
          (m.toTriple.value (c + 1) + deltas 0 + deltas 1 + deltas 2)
        deltas := deltas
        complete := m.complete } := by
  rw [exec_append, exec_prepare]
  dsimp only
  rw [← value_prepare, ← deltas_prepare, ← info_update]
  rfl

theorem exec_flush : (exec (program m .flushTripleBuffer) m).toTriple = m.toTriple.flush := by
  rw [program, exec_append, exec_finish, exec_cons]
  refine (toTriple_prepare _ _).trans ?_
  rw [toTriple_finish]
  rfl

end

/-- The states of the descriptor `fd` after calls that do not overlap with a reader. -/
def after (fd : UInt32) (calls : List StatesCall) : ClientStates :=
  calls.foldl (fun s call => s.call fd call) ClientStates.new

/-- **The writes of a call are the call.** -/
theorem exec_program {s : ClientStates} {fd : UInt32} {m : Cells} (h : m.toTriple = s fd)
    (call : StatesCall) : (exec (program m call) m).toTriple = s.call fd call fd := by
  cases call with
  | setClientAssets confirmed attempt assetId =>
    rw [exec_setClientAssets, h, ClientStates.call, ClientStates.setClientAssets,
      Function.update_self]
  | setClientState response =>
    rw [exec_setClientState, h, ClientStates.call, ClientStates.setClientState,
      Function.update_self]
  | setAuthStatus auth =>
    rw [exec_setAuthStatus, h, ClientStates.call, ClientStates.setAuthStatus, Function.update_self]
  | flushTripleBuffer =>
    rw [exec_flush, h, ClientStates.call, ClientStates.flushTripleBuffer, Function.update_self]

/-! ### Which buffers a call writes -/

/-- The write goes to the buffer `b` or to a delta. -/
def Write.Fills (b : Fin 3) : Write → Prop
  | .clientId b' _ | .auth b' _ | .sessionId b' _ => b' = b
  | .assetId b' _ _ | .confirmed b' _ _ | .attempt b' _ _ => b' = b
  | .deltaConfirmed .. | .deltaAttempt .. => True
  | .complete _ => False

/-- No write stores `Complete`, and all go to buffer `b` or to the deltas. -/
def AllFill (b : Fin 3) (ws : List Instr) : Prop := ∀ w ∈ ws, ∀ m, (w m).Fills b

/-- What is left of a call when `Complete` is `c`: it fills the next buffer; if it stores
`Complete`, then once, and it fills the buffer after that one from then on. -/
inductive Tame (c : Fin 3) : List Instr → Prop
  | fill {ws : List Instr} (h : AllFill (c + 1) ws) : Tame c ws
  | store {xs ys : List Instr} (hx : AllFill (c + 1) xs) (hy : AllFill (c + 1 + 1) ys) :
    Tame c (xs ++ (fun _ => .complete (c + 1)) :: ys)

theorem buffer_setSlot {m : Cells} {i : Slot} {x : SlotCells} {b : Fin 3}
    (hasset : x.assetId b = (m.slot i).assetId b)
    (hconfirmed : x.confirmed b = (m.slot i).confirmed b)
    (hattempt : x.attempt b = (m.slot i).attempt b) : (m.setSlot i x).buffer b = m.buffer b := by
  have hslot : ∀ {α : Type} (f : SlotCells → α), f x = f (m.slot i) →
      ∀ j, f ((m.setSlot i x).slot j) = f (m.slot j) := by
    intro α f hf j
    by_cases hj : j = i
    · subst hj
      exact (congrArg f (Function.update_self ..)).trans hf
    · exact congrArg f (Function.update_of_ne hj ..)
  refine ClientState.eq_of_parts ?_ ?_
  · exact congrArg (fun assetId => ClientInfo.mk (m.clientId b) assetId (m.auth b) (m.sessionId b))
      (funext (hslot (fun x => x.assetId b) hasset))
  · exact congrArg₂ Funds.mk (funext (hslot (fun x => x.confirmed b) hconfirmed))
      (funext (hslot (fun x => x.attempt b) hattempt))

theorem buffer_write {m : Cells} {b b' : Fin 3} {w : Write} (h : w.Fills b') (hne : b ≠ b') :
    (m.write w).buffer b = m.buffer b := by
  cases w with
  | clientId | auth | sessionId =>
    subst h
    simp [Cells.write, Cells.buffer, hne]
  | assetId | confirmed | attempt =>
    subst h
    exact buffer_setSlot (by simp [hne]) (by simp [hne]) (by simp [hne])
  | deltaConfirmed | deltaAttempt => exact buffer_setSlot rfl rfl rfl
  | complete => exact h.elim

theorem complete_write {m : Cells} {b : Fin 3} {w : Write} (h : w.Fills b) :
    (m.write w).complete = m.complete := by
  cases w with
  | complete => exact h.elim
  | _ => rfl

/-- Writes that fill one buffer leave `Complete` and the other buffers alone. -/
theorem exec_fill {b b' : Fin 3} (hne : b ≠ b') {ws : List Instr} (h : AllFill b' ws) (m : Cells) :
    (exec ws m).complete = m.complete ∧ (exec ws m).buffer b = m.buffer b := by
  induction ws generalizing m with
  | nil => exact ⟨rfl, rfl⟩
  | cons w ws ih =>
    have hw : (w m).Fills b' := h w (by simp) m
    obtain ⟨hcomplete, hbuffer⟩ := ih (fun w' hw' => h w' (by simp [hw'])) (m.write (w m))
    rw [exec_cons, hcomplete, hbuffer]
    exact ⟨complete_write hw, buffer_write hw hne⟩

theorem Tame.cons {c : Fin 3} {w : Instr} {ws : List Instr} (h : Tame c (w :: ws)) :
    ((∀ m, (w m).Fills (c + 1)) ∧ Tame c ws) ∨
    ((∀ m, w m = .complete (c + 1)) ∧ AllFill (c + 1 + 1) ws) := by
  generalize hws : w :: ws = all at h
  cases h with
  | fill h =>
    subst hws
    exact .inl ⟨h w (by simp), .fill fun w' hw' => h w' (by simp [hw'])⟩
  | @store xs ys hx hy =>
    cases xs with
    | nil =>
      obtain ⟨rfl, rfl⟩ := List.cons.inj hws
      exact .inr ⟨fun _ => rfl, hy⟩
    | cons x xs =>
      obtain ⟨rfl, rfl⟩ := List.cons.inj hws
      exact .inl ⟨hx w (by simp), .store (fun w' hw' => hx w' (by simp [hw'])) hy⟩

theorem AllFill.append {b : Fin 3} {xs ys : List Instr} (hx : AllFill b xs) (hy : AllFill b ys) :
    AllFill b (xs ++ ys) := fun w hw => (List.mem_append.1 hw).elim (hx w) (hy w)

theorem allFill_forSlots {b : Fin 3} {body : Slot → List Instr} (h : ∀ i, AllFill b (body i)) :
    AllFill b (forSlots body) := by
  intro w hw
  obtain ⟨i, -, hi⟩ := List.mem_flatMap.1 hw
  exact h i w hi

theorem allFill_setRest (b : Fin 3) (clientId : UInt32) (auth : UInt8) (sessionId : UInt32) :
    AllFill b (setRest b clientId auth sessionId) := by
  simp [AllFill, setRest, Write.Fills]

theorem program_tame (m : Cells) (call : StatesCall) : Tame m.complete (program m call) := by
  cases call with
  | setClientAssets confirmed attempt assetId =>
    refine .fill (allFill_forSlots fun i => ?_)
    split
    · simp [AllFill, creditSlot, Write.Fills]
    · simp [AllFill]
  | setClientState response =>
    refine .fill (AllFill.append (allFill_setRest _ _ _ _) (allFill_forSlots fun i => ?_))
    simp [AllFill, installSlot, Write.Fills]
  | setAuthStatus auth => exact .fill (by simp [AllFill, program, Write.Fills])
  | flushTripleBuffer =>
    refine .store (allFill_forSlots fun i => ?_)
      (AllFill.append (allFill_forSlots fun i => ?_) (allFill_setRest _ _ _ _))
    · simp [AllFill, finishSlot, Write.Fills]
    · simp [AllFill, prepareSlot, Write.Fills]

/-! ## The reader -/

/-- The fields that `GetClientState` copies. -/
inductive Field where
  | clientId
  | auth
  | sessionId
  | assetId (i : Slot)
  | confirmed (i : Slot)
  | attempt (i : Slot)
  deriving DecidableEq, Fintype

/-- The field of `dst` is overwritten with that of `src`. -/
def copyField (dst src : ClientState) : Field → ClientState
  | .clientId => { dst with clientId := src.clientId }
  | .auth => { dst with auth := src.auth }
  | .sessionId => { dst with sessionId := src.sessionId }
  | .assetId i => { dst with assetId := Function.update dst.assetId i (src.assetId i) }
  | .confirmed i => { dst with confirmed := Function.update dst.confirmed i (src.confirmed i) }
  | .attempt i => { dst with attempt := Function.update dst.attempt i (src.attempt i) }

/-- The two states have the same field. -/
def Agree (a b : ClientState) : Field → Prop
  | .clientId => a.clientId = b.clientId
  | .auth => a.auth = b.auth
  | .sessionId => a.sessionId = b.sessionId
  | .assetId i => a.assetId i = b.assetId i
  | .confirmed i => a.confirmed i = b.confirmed i
  | .attempt i => a.attempt i = b.attempt i

theorem agree_copyField (dst src : ClientState) (f : Field) :
    Agree (copyField dst src f) src f := by
  cases f with
  | clientId | auth | sessionId => rfl
  | assetId i | confirmed i | attempt i => exact Function.update_self ..

theorem agree_copyField_of_ne {dst src : ClientState} {f g : Field} (hne : g ≠ f)
    (h : Agree dst src g) : Agree (copyField dst src f) src g := by
  cases f <;> cases g <;> first
    | exact h
    | exact absurd rfl hne
    | exact (Function.update_of_ne (fun hij => hne (congrArg _ hij)) ..).trans h

theorem eq_of_agree {a b : ClientState} (h : ∀ f, Agree a b f) : a = b := by
  refine ClientState.eq_of_parts ?_ ?_
  · have hclientId : a.clientId = b.clientId := h .clientId
    have hassetId : a.assetId = b.assetId := funext fun i => h (.assetId i)
    have hauth : a.auth = b.auth := h .auth
    have hsessionId : a.sessionId = b.sessionId := h .sessionId
    exact ClientInfo.mk.injEq .. ▸ ⟨hclientId, hassetId, hauth, hsessionId⟩
  · exact congrArg₂ Funds.mk (funext fun i => h (.confirmed i)) (funext fun i => h (.attempt i))

/-- A `GetClientState` after its load. What it has to return is recorded beside it: the state that
was published with the index, and the calls up to the flush that published it. -/
structure Reader where
  loaded : Fin 3
  copy : ClientState
  read : List Field
  /-- The stores of `Complete` since the load. -/
  stores : Nat
  /-- Those of them before the last field was read. -/
  storesAtRead : Nat
  published : ClientState
  calls : List StatesCall

/-! ## Both -/

/-- The writer in the middle of a call, and a reader that may be in the middle of a copy. -/
structure System where
  cells : Cells
  /-- What is left of the writer's call. -/
  todo : List Instr
  /-- The calls that began. -/
  calls : List StatesCall
  /-- What the buffer held when its index was stored. -/
  published : ClientState
  /-- The calls up to the flush that stored it. -/
  flushed : List StatesCall
  reader : Option Reader

namespace System

/-- Nothing was called, and nobody reads. -/
def start : System := ⟨.new, [], [], SingleCopy.zero, [], none⟩

/-- A write of the writer; the store of `Complete` is seen by the records. -/
def write (s : System) (w : Write) (todo : List Instr) : System :=
  match w with
  | .complete b =>
    { cells := s.cells.write w
      todo := todo
      calls := s.calls
      published := s.cells.buffer b
      flushed := s.calls
      reader := s.reader.map fun r => { r with stores := r.stores + 1 } }
  | w => { s with cells := s.cells.write w, todo := todo }

/-- The load of `Complete`; the copy is in memory that may hold anything. -/
def load (s : System) (dst : ClientState) : Reader where
  loaded := s.cells.complete
  copy := dst
  read := []
  stores := 0
  storesAtRead := 0
  published := s.published
  calls := s.flushed

end System

/-- A field is copied, once. -/
def Reader.readField (r : Reader) (m : Cells) (f : Field) : Reader :=
  if f ∈ r.read then r
  else
    { r with
      copy := copyField r.copy (m.buffer r.loaded) f
      read := f :: r.read
      storesAtRead := r.stores }

/-- Whose step is next. A step that cannot be taken is skipped. -/
inductive Action where
  | call (c : StatesCall)
  | write
  | load (dst : ClientState)
  | read (f : Field)

/-- One step of either thread. -/
def System.next (s : System) : Action → System
  | .call c =>
    if s.todo = [] then { s with todo := program s.cells c, calls := s.calls ++ [c] } else s
  | .write =>
    match s.todo with
    | [] => s
    | w :: todo => s.write (w s.cells) todo
  | .load dst => { s with reader := some (s.load dst) }
  | .read f => { s with reader := s.reader.map fun r => r.readField s.cells f }

/-! ## What a run keeps -/

/-- The writer: the published buffer is as it was when its index was stored, and the call ends as if
no reader were there. -/
structure Inv (fd : UInt32) (s : System) : Prop where
  tame : Tame s.cells.complete s.todo
  ends : (exec s.todo s.cells).toTriple = after fd s.calls fd
  published : s.cells.buffer s.cells.complete = s.published
  flushed : (after fd s.flushed).getClientState fd = s.published

/-- The reader: as long as `Complete` is at most one further, the loaded buffer is as it was
published. -/
structure Reader.Inv (fd : UInt32) (m : Cells) (r : Reader) : Prop where
  calls : (after fd r.calls).getClientState fd = r.published
  stores : r.storesAtRead ≤ r.stores
  loaded : r.stores ≤ 1 → m.buffer r.loaded = r.published
  complete : r.stores = 0 ∧ m.complete = r.loaded ∨ r.stores = 1 ∧ m.complete = r.loaded + 1 ∨
    1 < r.stores
  copied : r.storesAtRead ≤ 1 → ∀ f ∈ r.read, Agree r.copy r.published f

theorem getClientState_of_toTriple {s : ClientStates} {fd : UInt32} {m : Cells}
    (h : m.toTriple = s fd) : s.getClientState fd = m.buffer m.complete := by
  unfold ClientStates.getClientState
  rw [← h]
  rfl

theorem start_inv (fd : UInt32) : Inv fd System.start where
  tame := .fill fun _ hw => absurd hw List.not_mem_nil
  ends := rfl
  published := rfl
  flushed := rfl

section
variable {fd : UInt32} {s : System} {w : Instr} {todo : List Instr}

theorem System.write_of_fills {w : Write} {b : Fin 3} (h : w.Fills b) :
    s.write w todo = { s with cells := s.cells.write w, todo := todo } := by
  cases w with
  | complete => exact h.elim
  | _ => rfl

theorem Inv.call (h : Inv fd s) (htodo : s.todo = []) (c : StatesCall) :
    Inv fd { s with todo := program s.cells c, calls := s.calls ++ [c] } where
  tame := program_tame s.cells c
  ends := by
    have hends := h.ends
    rw [htodo] at hends
    rw [after, List.foldl_append]
    exact exec_program hends c
  published := h.published
  flushed := h.flushed

theorem Inv.fill (h : Inv fd s) (htodo : s.todo = w :: todo)
    (hw : (w s.cells).Fills (s.cells.complete + 1)) (htame : Tame s.cells.complete todo) :
    Inv fd { s with cells := s.cells.write (w s.cells), todo := todo } where
  tame := (complete_write hw).symm ▸ htame
  ends := by
    have hends := h.ends
    rw [htodo, exec_cons] at hends
    exact hends
  published := by
    have hne := (TripleBuffer.fin3_cycle s.cells.complete).1.symm
    rw [complete_write hw, buffer_write hw hne, h.published]
  flushed := h.flushed

/-- The store publishes what the call leaves in the buffer, since the writes after it go to another
one. -/
theorem Inv.store (h : Inv fd s) (htodo : s.todo = w :: todo)
    (hw : w s.cells = .complete (s.cells.complete + 1))
    (hfill : AllFill (s.cells.complete + 1 + 1) todo) : Inv fd (s.write (w s.cells) todo) := by
  have hends := h.ends
  rw [htodo, exec_cons, hw] at hends
  rw [hw]
  refine ⟨.fill hfill, hends, rfl, ?_⟩
  have hne := (TripleBuffer.fin3_cycle (s.cells.complete + 1)).1.symm
  obtain ⟨hcomplete, hbuffer⟩ :=
    exec_fill hne hfill (s.cells.write (.complete (s.cells.complete + 1)))
  refine (getClientState_of_toTriple hends).trans ?_
  rw [hcomplete]
  exact hbuffer

theorem Inv.withReader (h : Inv fd s) (reader : Option Reader) :
    Inv fd { s with reader := reader } :=
  ⟨h.tame, h.ends, h.published, h.flushed⟩

theorem Inv.load (h : Inv fd s) (dst : ClientState) : (s.load dst).Inv fd s.cells where
  calls := h.flushed
  stores := le_refl 0
  loaded := fun _ => h.published
  complete := .inl ⟨rfl, rfl⟩
  copied := fun _ _ hf => absurd hf List.not_mem_nil

end

namespace Reader.Inv

variable {fd : UInt32} {m : Cells} {r : Reader}

theorem fill (h : r.Inv fd m) {w : Write} (hw : w.Fills (m.complete + 1)) :
    r.Inv fd (m.write w) where
  calls := h.calls
  stores := h.stores
  loaded := by
    intro hstores
    have hne : r.loaded ≠ m.complete + 1 := by
      obtain ⟨h1, h2, -, h4, -⟩ := TripleBuffer.fin3_cycle r.loaded
      obtain ⟨-, hc⟩ | ⟨-, hc⟩ | hmany := h.complete
      · rw [hc]
        exact h1.symm
      · rw [hc, h4]
        exact h2.symm
      · omega
    rw [buffer_write hw hne]
    exact h.loaded hstores
  complete := by
    rw [complete_write hw]
    exact h.complete
  copied := h.copied

theorem store (h : r.Inv fd m) :
    { r with stores := r.stores + 1 : Reader }.Inv fd (m.write (.complete (m.complete + 1))) where
  calls := h.calls
  stores := h.stores.trans (Nat.le_succ _)
  loaded := fun hstores => h.loaded (Nat.le_of_succ_le hstores)
  complete := by
    obtain ⟨hzero, hc⟩ | ⟨hone, -⟩ | hmany := h.complete
    · exact .inr (.inl ⟨congrArg (· + 1) hzero, congrArg (· + 1) hc⟩)
    · exact .inr (.inr (by simp only; omega))
    · exact .inr (.inr (by simp only; omega))
  copied := h.copied

/-- A field that is read in time is one of the published state. -/
theorem readField (h : r.Inv fd m) (f : Field) : (r.readField m f).Inv fd m := by
  unfold Reader.readField
  split
  · exact h
  · refine ⟨h.calls, le_refl _, h.loaded, h.complete, fun hstores g hg => ?_⟩
    have hcopied := h.copied (h.stores.trans hstores)
    simp only [h.loaded hstores]
    by_cases hgf : g = f
    · subst hgf
      exact agree_copyField ..
    · exact agree_copyField_of_ne hgf (hcopied g ((List.mem_cons.1 hg).resolve_left hgf))

end Reader.Inv

/-- Both invariants. -/
structure Sound (fd : UInt32) (s : System) : Prop where
  writer : Inv fd s
  reader : ∀ r ∈ s.reader, r.Inv fd s.cells

section
variable {fd : UInt32} {s : System}

theorem Sound.write (h : Sound fd s) {w : Instr} {todo : List Instr} (htodo : s.todo = w :: todo) :
    Sound fd (s.write (w s.cells) todo) := by
  obtain ⟨hw, htame⟩ | ⟨hw, hfill⟩ := (htodo ▸ h.writer.tame : Tame _ (w :: todo)).cons
  · rw [System.write_of_fills (hw s.cells)]
    exact ⟨h.writer.fill htodo (hw s.cells) htame, fun r hr => (h.reader r hr).fill (hw s.cells)⟩
  · refine ⟨h.writer.store htodo (hw s.cells) hfill, fun r hr => ?_⟩
    rw [hw] at hr ⊢
    obtain ⟨r', hr', rfl⟩ := Option.map_eq_some_iff.1 hr
    exact (h.reader r' hr').store

theorem Sound.next (h : Sound fd s) (a : Action) : Sound fd (s.next a) := by
  cases a with
  | call c =>
    simp only [System.next]
    split
    next htodo => exact ⟨h.writer.call htodo c, h.reader⟩
    next => exact h
  | write =>
    simp only [System.next]
    split
    next => exact h
    next w todo htodo => exact h.write htodo
  | load dst =>
    refine ⟨h.writer.withReader _, fun r hr => ?_⟩
    obtain rfl := Option.some.inj hr
    exact h.writer.load dst
  | read f =>
    refine ⟨h.writer.withReader _, fun r hr => ?_⟩
    obtain ⟨r', hr', rfl⟩ := Option.map_eq_some_iff.1 hr
    exact (h.reader r' hr').readField f

theorem sound_run (fd : UInt32) (as : List Action) :
    Sound fd (as.foldl System.next System.start) := by
  induction as using List.reverseRecOn with
  | nil => exact ⟨start_inv fd, fun r hr => by cases hr⟩
  | append_singleton as a ih =>
    rw [List.foldl_append]
    exact ih.next a

end

/-- **A reader within one flush sees an untorn state.** In every interleaving: if `Complete` is
stored at most once between the load and the last field read, the copy is what the buffer held when
the loaded index was stored, and this is what the calls up to that flush publish. -/
theorem run_untorn (as : List Action) (r : Reader)
    (hr : (as.foldl System.next System.start).reader = some r)
    (hread : ∀ f, f ∈ r.read) (hstores : r.storesAtRead ≤ 1) :
    r.copy = r.published ∧ ∀ fd, (after fd r.calls).getClientState fd = r.copy := by
  have hinv := fun fd => (sound_run fd as).reader r hr
  have hcopy : r.copy = r.published := eq_of_agree fun f => (hinv 0).copied hstores f (hread f)
  exact ⟨hcopy, fun fd => (hinv fd).calls.trans hcopy.symm⟩

/-- A client with 1000 of every asset. -/
def thousand : ClientAccountSnapshot where
  confirmed := fun _ => 1000
  attempt := fun _ => 1000
  status := .accepted
  sequenceId := 1
  clientId := 3
  clientFd := 7
  assetId := fun i => .ofNat i

def readSlots (f : Slot → Field) : List Action :=
  (List.finRange maxPositions).map fun i => .read (f i)

/-- The client is published, and loaded; while its fields are read the next flush stores `Complete`
and goes on. -/
def overlapped : List Action := List.flatten
  [[.call (.setClientState thousand)], List.replicate 51 .write, [.call .flushTripleBuffer],
    List.replicate 180 .write,
    [.load SingleCopy.zero, .read .clientId, .read .auth, .read .sessionId], readSlots .assetId,
    [.call .flushTripleBuffer], List.replicate 20 .write, readSlots .confirmed,
    List.replicate 50 .write, readSlots .attempt]

theorem run_untorn_overlapped : ∃ r, (overlapped.foldl System.next System.start).reader = some r ∧
    r.stores = 1 ∧ r.copy = r.published ∧
    (after 7 [.setClientState thousand, .flushTripleBuffer]).getClientState 7 = r.copy := by
  have hrun : (overlapped.foldl System.next System.start).reader.map (fun r =>
      (decide (∀ f, f ∈ r.read), r.storesAtRead, r.stores, r.calls)) =
        some (true, 1, 1, [.setClientState thousand, .flushTripleBuffer]) := by decide +kernel
  obtain ⟨r, hr, heq⟩ := Option.map_eq_some_iff.1 hrun
  simp only [Prod.mk.injEq, decide_eq_true_eq] at heq
  obtain ⟨hread, hat, hstores, hcalls⟩ := heq
  obtain ⟨hcopy, hafter⟩ := run_untorn overlapped r hr hread hat.le
  exact ⟨r, hr, hstores, hcopy, hcalls ▸ hafter 7⟩

end Naoto.Gateway.Concurrent
