import NaotoExchange.Lib.FixedWidth
import NaotoExchange.Lib.Frames

/-!
# Packed formats

A `Format` is how the values of a type lie in memory, in a fixed number of bytes, together with the
proofs that reading undoes writing and that writing undoes reading. Formats of numbers and
enumerations are put together to formats of packed structs with `pair`, `array` and `map`. A stream
of values is cut into frames that read as the values (`frames_encodeAll`, `frames_of_prefix`).
-/

namespace Packed

open FixedWidth Frames

/-- How the values of a type lie in memory: in `size` bytes, from which they can be read back. -/
structure Format (α : Type) where
  size : Nat
  encode : α → List UInt8
  decode : List UInt8 → Option α
  length_encode : ∀ a, (encode a).length = size
  decode_encode : ∀ a, decode (encode a) = some a
  encode_decode : ∀ bs a, decode bs = some a → encode a = bs

/-! ## Numbers -/

/-- The number that the bytes stand for, lowest first. -/
def ofLittleEndian : List UInt8 → Nat
  | [] => 0
  | b :: bs => b.toNat + 256 * ofLittleEndian bs

theorem littleEndian_succ (n v : Nat) :
    littleEndian (n + 1) v = UInt8.ofNat v :: littleEndian n (v / 256) := by
  unfold littleEndian
  rw [List.range_succ_eq_map, List.map_cons, List.map_map]
  refine congrArg₂ List.cons (by simp) (List.map_congr_left fun i _ => ?_)
  show UInt8.ofNat (v / 256 ^ (i + 1)) = UInt8.ofNat (v / 256 / 256 ^ i)
  rw [Nat.div_div_eq_div_mul, pow_succ']

theorem ofLittleEndian_littleEndian {n v : Nat} (h : v < 256 ^ n) :
    ofLittleEndian (littleEndian n v) = v := by
  induction n generalizing v with
  | zero =>
    have hzero : v = 0 := by simpa using h
    rw [hzero]
    rfl
  | succ n ih =>
    have hdiv : v / 256 < 256 ^ n := Nat.div_lt_of_lt_mul (by rwa [pow_succ'] at h)
    rw [littleEndian_succ, ofLittleEndian, ih hdiv, UInt8.toNat_ofNat']
    omega

theorem littleEndian_ofLittleEndian (bs : List UInt8) : littleEndian bs.length
    (ofLittleEndian bs) = bs := by
  induction bs with
  | nil => rfl
  | cons b bs ih =>
    have hb : b.toNat < 256 := b.toNat_lt
    have hdiv : (b.toNat + 256 * ofLittleEndian bs) / 256 = ofLittleEndian bs := by omega
    rw [List.length_cons, littleEndian_succ, ofLittleEndian, hdiv, ih]
    refine congrArg (· :: bs) (UInt8.toNat_inj.1 ?_)
    rw [UInt8.toNat_ofNat']
    omega

theorem ofLittleEndian_lt (bs : List UInt8) : ofLittleEndian bs < 256 ^ bs.length := by
  induction bs with
  | nil => exact Nat.one_pos
  | cons b bs ih =>
    have hb : b.toNat < 256 := b.toNat_lt
    rw [ofLittleEndian, List.length_cons, pow_succ']
    omega

/-- How a type of numbers lies in `n` bytes. -/
structure Number (α : Type) (n : Nat) where
  toNat : α → Nat
  ofNat : Nat → α
  toNat_lt : ∀ a, toNat a < 256 ^ n
  ofNat_toNat : ∀ a, ofNat (toNat a) = a
  toNat_ofNat : ∀ v, v < 256 ^ n → toNat (ofNat v) = v

/-- The codes of an enumeration of `n` bytes. -/
structure Codes (α : Type) (n : Nat) where
  code : α → Nat
  values : List α
  mem_values : ∀ a, a ∈ values
  injective : Function.Injective code
  code_lt : ∀ a, code a < 256 ^ n

section
variable {α : Type} {n : Nat}

/-- The number, if the length is right. -/
def Number.decode (k : Number α n) (bs : List UInt8) : Option α :=
  if bs.length = n then some (k.ofNat (ofLittleEndian bs)) else none

theorem Number.decode_encode (k : Number α n) (a : α) :
    k.decode (littleEndian n (k.toNat a)) = some a := by
  rw [Number.decode, if_pos (length_littleEndian _ _), ofLittleEndian_littleEndian (k.toNat_lt a),
    k.ofNat_toNat a]

theorem Number.encode_decode (k : Number α n) (bs : List UInt8) (a : α) (h : k.decode bs = some a) :
    littleEndian n (k.toNat a) = bs := by
  unfold Number.decode at h
  split at h
  · next hlen =>
    obtain rfl := Option.some.inj h
    subst hlen
    rw [k.toNat_ofNat _ (ofLittleEndian_lt bs), littleEndian_ofLittleEndian]
  · cases h

/-- The value with this code, if there is one. -/
def Codes.decode (k : Codes α n) (bs : List UInt8) : Option α :=
  if bs.length = n then k.values.find? (fun a => k.code a = ofLittleEndian bs) else none

theorem Codes.decode_encode (k : Codes α n) (a : α) :
    k.decode (littleEndian n (k.code a)) = some a := by
  rw [Codes.decode, if_pos (length_littleEndian _ _), ofLittleEndian_littleEndian (k.code_lt a)]
  have hfound : (k.values.find? fun a' => k.code a' = k.code a).isSome :=
    List.find?_isSome.2 ⟨a, k.mem_values a, decide_eq_true rfl⟩
  obtain ⟨a', ha'⟩ := Option.isSome_iff_exists.1 hfound
  have hcode : k.code a' = k.code a := by simpa using List.find?_some ha'
  rw [ha', k.injective hcode]

theorem Codes.encode_decode (k : Codes α n) (bs : List UInt8) (a : α) (h : k.decode bs = some a) :
    littleEndian n (k.code a) = bs := by
  unfold Codes.decode at h
  split at h
  · next hlen =>
    have hcode : k.code a = ofLittleEndian bs := by simpa using List.find?_some h
    subst hlen
    rw [hcode, littleEndian_ofLittleEndian]
  · cases h

end

theorem UInt8.toNat_ofNat_exact (v : Nat) (h : v < 256 ^ 1) : (UInt8.ofNat v).toNat = v :=
  (UInt8.toNat_ofNat').trans (Nat.mod_eq_of_lt h)

theorem UInt16.toNat_ofNat_exact (v : Nat) (h : v < 256 ^ 2) : (UInt16.ofNat v).toNat = v :=
  (UInt16.toNat_ofNat').trans (Nat.mod_eq_of_lt h)

theorem UInt32.toNat_ofNat_exact (v : Nat) (h : v < 256 ^ 4) : (UInt32.ofNat v).toNat = v :=
  (UInt32.toNat_ofNat').trans (Nat.mod_eq_of_lt h)

theorem UInt64.toNat_ofNat_exact (v : Nat) (h : v < 256 ^ 8) : (UInt64.ofNat v).toNat = v :=
  (UInt64.toNat_ofNat').trans (Nat.mod_eq_of_lt h)

theorem Int64.ofNat_toNat_exact (v : Int64) : (UInt64.ofNat v.toUInt64.toNat).toInt64 = v := by
  rw [UInt64.ofNat_toNat]
  exact Int64.toInt64_toUInt64 v

theorem Int64.toNat_ofNat_exact (v : Nat) (h : v < 256 ^ 8) :
    (UInt64.ofNat v).toInt64.toUInt64.toNat = v := by
  rw [UInt64.toUInt64_toInt64]
  exact UInt64.toNat_ofNat_exact v h

namespace Format

variable {α β : Type} {n : Nat}

/-- The bytes of a number, lowest first. -/
def number (k : Number α n) : Format α where
  size := n
  encode a := littleEndian n (k.toNat a)
  decode := k.decode
  length_encode a := length_littleEndian n (k.toNat a)
  decode_encode := k.decode_encode
  encode_decode := k.encode_decode

/-- An enumeration, each value with a code. -/
def enum (k : Codes α n) : Format α where
  size := n
  encode a := littleEndian n (k.code a)
  decode := k.decode
  length_encode a := length_littleEndian n (k.code a)
  decode_encode := k.decode_encode
  encode_decode := k.encode_decode

/-- `uint8_t`. -/
def u8 : Format UInt8 :=
  number (n := 1) ⟨UInt8.toNat, UInt8.ofNat, UInt8.toNat_lt, @UInt8.ofNat_toNat,
    UInt8.toNat_ofNat_exact⟩

/-- `uint16_t`. -/
def u16 : Format UInt16 :=
  number (n := 2) ⟨UInt16.toNat, UInt16.ofNat, UInt16.toNat_lt, @UInt16.ofNat_toNat,
    UInt16.toNat_ofNat_exact⟩

/-- `uint32_t`. -/
def u32 : Format UInt32 :=
  number (n := 4) ⟨UInt32.toNat, UInt32.ofNat, UInt32.toNat_lt, @UInt32.ofNat_toNat,
    UInt32.toNat_ofNat_exact⟩

/-- `uint64_t`. -/
def u64 : Format UInt64 :=
  number (n := 8) ⟨UInt64.toNat, UInt64.ofNat, UInt64.toNat_lt, @UInt64.ofNat_toNat,
    UInt64.toNat_ofNat_exact⟩

/-- Two's complement. -/
def i64 : Format Int64 :=
  number (n := 8) ⟨fun v => v.toUInt64.toNat, fun v => (UInt64.ofNat v).toInt64,
    fun v => v.toUInt64.toNat_lt, Int64.ofNat_toNat_exact, Int64.toNat_ofNat_exact⟩

/-! ## Structs -/

/-- The first value is read off the front. -/
def decodePair (f : Format α) (g : Format β) (bs : List UInt8) : Option (α × β) :=
  (f.decode (bs.take f.size)).bind fun a => (g.decode (bs.drop f.size)).map fun b => (a, b)

theorem decodePair_encode (f : Format α) (g : Format β) (p : α × β) :
    decodePair f g (f.encode p.1 ++ g.encode p.2) = some p := by
  have hsize := f.length_encode p.1
  rw [decodePair, ← hsize, List.take_left, List.drop_left, f.decode_encode, g.decode_encode]
  rfl

theorem encode_decodePair (f : Format α) (g : Format β) (bs : List UInt8) (p : α × β)
    (h : decodePair f g bs = some p) : f.encode p.1 ++ g.encode p.2 = bs := by
  obtain ⟨a, ha, h⟩ := Option.bind_eq_some_iff.1 h
  obtain ⟨b, hb, rfl⟩ := Option.map_eq_some_iff.1 h
  rw [f.encode_decode _ _ ha, g.encode_decode _ _ hb, List.take_append_drop]

/-- One after the other. -/
def pair (f : Format α) (g : Format β) : Format (α × β) where
  size := f.size + g.size
  encode p := f.encode p.1 ++ g.encode p.2
  decode := decodePair f g
  length_encode p := (List.length_append ..).trans
    (congrArg₂ _ (f.length_encode p.1) (g.length_encode p.2))
  decode_encode := decodePair_encode f g
  encode_decode := encode_decodePair f g

theorem map_decode_encode (f : Format α) (e : α ≃ β) (b : β) :
    (f.decode (f.encode (e.symm b))).map e = some b := by
  rw [f.decode_encode, Option.map_some, e.apply_symm_apply]

theorem map_encode_decode (f : Format α) (e : α ≃ β) (bs : List UInt8) (b : β)
    (h : (f.decode bs).map e = some b) : f.encode (e.symm b) = bs := by
  obtain ⟨a, ha, rfl⟩ := Option.map_eq_some_iff.1 h
  rw [e.symm_apply_apply]
  exact f.encode_decode bs a ha

/-- The same bytes for another type. -/
def map (f : Format α) (e : α ≃ β) : Format β where
  size := f.size
  encode b := f.encode (e.symm b)
  decode bs := (f.decode bs).map e
  length_encode b := f.length_encode (e.symm b)
  decode_encode := f.map_decode_encode e
  encode_decode := f.map_encode_decode e

theorem encode_decode_nil (bs : List UInt8) (v : Fin 0 → α)
    (h : (if bs = [] then some Fin.elim0 else none) = some v) : [] = bs := by
  split at h
  · next hnil => exact hnil.symm
  · cases h

/-- The array without elements. -/
def nil : Format (Fin 0 → α) where
  size := 0
  encode _ := []
  decode bs := if bs = [] then some Fin.elim0 else none
  length_encode _ := rfl
  decode_encode _ := congrArg some (funext fun i => i.elim0)
  encode_decode := encode_decode_nil

/-- `n` elements one after the other. -/
def array (f : Format α) : (n : Nat) → Format (Fin n → α)
  | 0 => nil
  | n + 1 => (f.pair (array f n)).map (Fin.consEquiv fun _ => α)

/-! ## Streams -/

section
variable (f : Format α)

/-- Values one after the other. -/
def encodeAll (xs : List α) : List UInt8 := xs.flatMap f.encode

@[simp] theorem encodeAll_nil : f.encodeAll [] = [] := rfl

@[simp] theorem encodeAll_cons (x : α) (xs : List α) :
    f.encodeAll (x :: xs) = f.encode x ++ f.encodeAll xs := rfl

theorem encodeAll_append (xs ys : List α) :
    f.encodeAll (xs ++ ys) = f.encodeAll xs ++ f.encodeAll ys :=
  List.flatMap_append

theorem decode_encodes (xs : List α) : (xs.map f.encode).map f.decode = xs.map some := by
  rw [List.map_map]
  exact List.map_congr_left fun x _ => f.decode_encode x

variable {f}

theorem frames_encode (hpos : 0 < f.size) (x : α) : frames f.size (f.encode x) = [f.encode x] := by
  have hlen := f.length_encode x
  rw [frames, hlen, Nat.div_self hpos]
  simp [hlen.symm]

/-- The values of a stream, with a part of another one behind them. -/
theorem frames_encodeAll (hpos : 0 < f.size) (xs : List α) {rest : List UInt8}
    (hrest : rest.length < f.size) : frames f.size (f.encodeAll xs ++ rest) = xs.map f.encode := by
  induction xs with
  | nil => exact frames_of_lt hrest
  | cons x xs ih =>
    have hlen : (f.encode x).length = 1 * f.size := (f.length_encode x).trans (Nat.one_mul _).symm
    rw [encodeAll_cons, List.append_assoc, frames_whole_append hpos hlen, frames_encode hpos, ih]
    rfl

/-- **What has come in of a stream** is cut into the first values. -/
theorem frames_of_prefix (hpos : 0 < f.size) {xs : List α} {rest p : List UInt8}
    (hrest : rest.length < f.size)
    (h : p <+: f.encodeAll xs ++ rest) :
    frames f.size p = (xs.take (p.length / f.size)).map f.encode := by
  obtain ⟨t, ht⟩ := h
  have hall := frames_encodeAll hpos xs hrest
  rw [← ht, frames_append hpos] at hall
  have hlen : (frames f.size p).length = p.length / f.size := by simp [frames]
  rw [← hlen, List.map_take, ← hall, List.take_left]

end

end Format

end Packed
