/-
**Integer fields: what their bytes denote, and what `decodePayload` reads.**

* `fieldValue` — the integer a field denotes: its bytes in the record's byte order, cut to the bit
  range where there is one, in two's complement for a signed field, and 0 or 1 for BOOL.
* `loadRaw_toNat`, `signExtend_toInt`, `decodeInt_eq` — the loads of the source, as numbers.
* **`fieldCell_bool`**, **`fieldCell_signed`**, **`fieldCell_unsigned`** — what a cell holds: the
  value as an `int64_t`, for an unsigned field as a word.
-/

import EtherAdapter.Memory.Basic
import EtherAdapter.Model.Config
import EtherAdapter.Model.Decode

namespace EtherAdapter

open Memory

/-! ### The value of a field -/

/-- A number of `width` bits, in two's complement. -/
def twosComplement (width n : ℕ) : ℤ := if 2 * n < 2 ^ width then n else n - 2 ^ width

/-- The bytes of a field, the lowest first. -/
def fieldBytes (be : Bool) (payload : Bytes) (field : FieldDesc) : Bytes :=
  let own := readAt payload field.byteOffset.toNat field.size.toNat
  if be then own.reverse else own

/-- The bits of a field and their number: the bit range, or else the whole field. -/
def fieldBits (be : Bool) (payload : Bytes) (field : FieldDesc) : ℕ :=
  let whole := leNat (fieldBytes be payload field)
  if field.bitLen = 0 then whole else whole / 2 ^ field.bitOffset.toNat % 2 ^ field.bitLen.toNat

def fieldWidth (field : FieldDesc) : ℕ :=
  if field.bitLen = 0 then field.size.toNat * 8 else field.bitLen.toNat

/-- **The integer a field denotes.** -/
def fieldValue (be : Bool) (payload : Bytes) (field : FieldDesc) : ℤ :=
  match field.kind with
  | .bool => if leNat (fieldBytes be payload field) = 0 then 0 else 1
  | .intSigned => twosComplement (fieldWidth field) (fieldBits be payload field)
  | _ => fieldBits be payload field

/-! ### Loads -/

theorem byteAt_eq_getElem {p : Bytes} {i : ℕ} (inside : i < p.length) : byteAt p i = p[i] := by
  rw [byteAt, List.getD_eq_getElem?_getD, List.getElem?_eq_getElem inside, Option.getD_some]

theorem wordAt_toNat (p : Bytes) (i : ℕ) : (wordAt p i).toNat = (byteAt p i).toNat := by
  rw [wordAt, BitVec.toNat_setWidth, UInt8.toNat_toBitVec]
  exact Nat.mod_eq_of_lt (Nat.lt_trans (byteAt p i).toNat_lt (by decide))

theorem take_succ_eq {p : Bytes} {n : ℕ} (inside : n < p.length) :
    p.take (n + 1) = p.take n ++ [byteAt p n] := by
  rw [byteAt_eq_getElem inside, List.take_append_getElem inside]

/-- Little-endian loads. -/
theorem foldl_le_toNat {p : Bytes} {n : ℕ} (inside : n ≤ p.length) (small : n ≤ 8) :
    ((List.range n).foldl (fun (v : BitVec 64) i => v ||| (wordAt p i <<< (8 * i))) 0).toNat =
      leNat (p.take n) := by
  induction n with
  | zero => rfl
  | succ n ih =>
    have below : leNat (p.take n) < 2 ^ (8 * n) := by
      have bound := leNat_lt (p.take n)
      rwa [List.length_take, Nat.min_eq_left (Nat.le_of_succ_le inside),
        show 256 = 2 ^ 8 by rfl, ← Nat.pow_mul] at bound
    have room : (byteAt p n).toNat * 2 ^ (8 * n) < 2 ^ 64 := by
      calc (byteAt p n).toNat * 2 ^ (8 * n)
          < 2 ^ 8 * 2 ^ (8 * n) :=
            Nat.mul_lt_mul_of_pos_right (byteAt p n).toNat_lt (Nat.two_pow_pos _)
        _ = 2 ^ (8 + 8 * n) := (Nat.pow_add 2 8 (8 * n)).symm
        _ ≤ 2 ^ 64 := Nat.pow_le_pow_right (by decide) (by omega)
    rw [List.range_succ, List.foldl_append, List.foldl_cons, List.foldl_nil, BitVec.toNat_or,
      ih (Nat.le_of_succ_le inside) (Nat.le_of_succ_le small), BitVec.toNat_shiftLeft,
      wordAt_toNat, Nat.shiftLeft_eq, Nat.mod_eq_of_lt room, take_succ_eq inside, leNat_append,
      Nat.or_comm, Nat.mul_comm, ← Nat.two_pow_add_eq_or_of_lt below, List.length_take,
      Nat.min_eq_left (Nat.le_of_succ_le inside), show 256 = 2 ^ 8 by rfl, ← Nat.pow_mul,
      leNat_singleton, Nat.add_comm]

/-- Big-endian loads. -/
theorem foldl_be_toNat {p : Bytes} {n : ℕ} (inside : n ≤ p.length) (small : n ≤ 8) :
    ((List.range n).foldl (fun (v : BitVec 64) i => (v <<< 8) ||| wordAt p i) 0).toNat =
      leNat (p.take n).reverse := by
  induction n with
  | zero => rfl
  | succ n ih =>
    have below : leNat (p.take n).reverse < 2 ^ (8 * n) := by
      have bound := leNat_lt (p.take n).reverse
      rwa [List.length_reverse, List.length_take, Nat.min_eq_left (Nat.le_of_succ_le inside),
        show 256 = 2 ^ 8 by rfl, ← Nat.pow_mul] at bound
    have room : leNat (p.take n).reverse * 2 ^ 8 < 2 ^ 64 := by
      calc leNat (p.take n).reverse * 2 ^ 8
          < 2 ^ (8 * n) * 2 ^ 8 := Nat.mul_lt_mul_of_pos_right below (by decide)
        _ = 2 ^ (8 * n + 8) := (Nat.pow_add 2 (8 * n) 8).symm
        _ ≤ 2 ^ 64 := Nat.pow_le_pow_right (by decide) (by omega)
    rw [List.range_succ, List.foldl_append, List.foldl_cons, List.foldl_nil, BitVec.toNat_or,
      BitVec.toNat_shiftLeft, ih (Nat.le_of_succ_le inside) (Nat.le_of_succ_le small),
      wordAt_toNat, Nat.shiftLeft_eq, Nat.mod_eq_of_lt room, Nat.mul_comm,
      ← Nat.two_pow_add_eq_or_of_lt (byteAt p n).toNat_lt, take_succ_eq inside,
      List.reverse_append, List.reverse_singleton, leNat_append, leNat_singleton,
      List.length_singleton, Nat.add_comm]
    rfl

/-- **The loaded word is the number of the field's bytes.** -/
theorem loadRaw_toNat {p : Bytes} {size : ℕ} (inside : size ≤ p.length) (small : size ≤ 8)
    (be : Bool) :
    (loadRaw p size be).toNat = leNat (if be then (p.take size).reverse else p.take size) := by
  rw [loadRaw]
  cases be with
  | true => exact foldl_be_toNat inside small
  | false => exact foldl_le_toNat inside small

/-! ### Signs -/

theorem xor_two_pow_of_lt {u k : ℕ} (small : u < 2 ^ k) : u ^^^ 2 ^ k = u + 2 ^ k := by
  have high : (u ^^^ 2 ^ k) / 2 ^ k = 1 := by
    rw [Nat.xor_div_two_pow, Nat.div_eq_of_lt small, Nat.div_self (Nat.two_pow_pos k)]
    rfl
  have low : (u ^^^ 2 ^ k) % 2 ^ k = u := by
    rw [Nat.xor_mod_two_pow, Nat.mod_eq_of_lt small, Nat.mod_self, Nat.xor_zero]
  rw [← Nat.div_add_mod (u ^^^ 2 ^ k) (2 ^ k), high, low, Nat.mul_one, Nat.add_comm]

theorem toNat_one_shiftLeft {k : ℕ} (small : k < 64) :
    (((1 <<< k : ℕ) : BitVec 64)).toNat = 2 ^ k := by
  rw [BitVec.natCast_eq_ofNat, BitVec.toNat_ofNat, Nat.one_shiftLeft]
  exact Nat.mod_eq_of_lt (Nat.pow_lt_pow_right (by decide) small)

/-- **Sign extension is the two's complement reading.** -/
theorem signExtend_toInt {v : BitVec 64} {bits : ℕ} (positive : 0 < bits) (most : bits ≤ 64)
    (small : v.toNat < 2 ^ bits) : (signExtend v bits).toInt = twosComplement bits v.toNat := by
  by_cases wide : bits = 64
  · rw [signExtend, if_pos (Nat.le_of_eq wide.symm), wide, twosComplement, BitVec.toInt_eq_toNat_cond]
    rfl
  · obtain ⟨k, rfl⟩ := Nat.exists_eq_succ_of_ne_zero (Nat.pos_iff_ne_zero.mp positive)
    have short : k < 64 := by omega
    have fits : (2 : ℕ) ^ k * 2 ≤ 2 ^ 63 := by
      rw [← Nat.pow_succ]
      exact Nat.pow_le_pow_right (by decide) (by omega)
    have unit := toNat_one_shiftLeft short
    rw [signExtend, if_neg (by omega), twosComplement, Nat.succ_sub_one]
    rw [Nat.pow_succ] at small ⊢
    simp only [BitVec.toInt_eq_toNat_cond, BitVec.toNat_sub, BitVec.toNat_xor, unit]
    by_cases low : v.toNat < 2 ^ k
    · rw [xor_two_pow_of_lt low, if_pos (by omega), if_pos (by omega)]
      omega
    · have rest : v.toNat - 2 ^ k < 2 ^ k := by omega
      have back : (v.toNat - 2 ^ k ^^^ 2 ^ k) ^^^ 2 ^ k = v.toNat - 2 ^ k := by
        rw [Nat.xor_assoc, Nat.xor_self, Nat.xor_zero]
      rw [xor_two_pow_of_lt rest, Nat.sub_add_cancel (Nat.le_of_not_lt low)] at back
      have power : (2 : ℤ) ^ k.succ = ((2 ^ k * 2 : ℕ) : ℤ) := by
        rw [← Nat.pow_succ]
        exact (Nat.cast_pow 2 _).symm
      rw [back, power, if_neg (by omega), if_neg (by omega)]
      omega

/-! ### Integer fields -/

section Field

variable (be : Bool) {payload : Bytes} {field : FieldDesc}

theorem length_fieldBytes (inside : field.extent ≤ payload.length) :
    (fieldBytes be payload field).length = field.size.toNat := by
  have own : (readAt payload field.byteOffset.toNat field.size.toNat).length = field.size.toNat := by
    rw [FieldDesc.extent] at inside
    rw [readAt, List.length_take, List.length_drop]
    omega
  rw [fieldBytes]
  split
  · rw [List.length_reverse, own]
  · exact own

/-- The word loaded for a field. -/
theorem loadRaw_field (inside : field.extent ≤ payload.length) :
    (loadRaw (payload.drop field.byteOffset.toNat) field.size.toNat be).toNat =
      leNat (fieldBytes be payload field) := by
  have sizes := field.size_cases
  rw [FieldDesc.extent] at inside
  rw [loadRaw_toNat (by rw [List.length_drop]; omega) (by omega)]
  rfl

/-- The mask of a bit range. -/
theorem bitRange_toNat (v : BitVec 64) {off : ℕ} {len : UInt8} (fits : off + len.toNat ≤ 64) :
    ((v >>> off) &&& (if 64 ≤ len then BitVec.allOnes 64
      else ((1 <<< len.toNat : ℕ) : BitVec 64) - 1)).toNat = v.toNat / 2 ^ off % 2 ^ len.toNat := by
  rw [BitVec.toNat_and, BitVec.toNat_ushiftRight, Nat.shiftRight_eq_div_pow]
  by_cases wide : 64 ≤ len
  · have full : len.toNat = 64 := by
      have least : 64 ≤ len.toNat := UInt8.le_iff_toNat_le.mp wide
      omega
    rw [if_pos wide, BitVec.toNat_allOnes, Nat.and_two_pow_sub_one_eq_mod, full]
  · have short : len.toNat < 64 := by
      have most := UInt8.lt_iff_toNat_lt.mp (UInt8.not_le.mp wide)
      exact most
    have mask : (((1 <<< len.toNat : ℕ) : BitVec 64) - 1).toNat = 2 ^ len.toNat - 1 := by
      rw [BitVec.toNat_sub, toNat_one_shiftLeft short]
      have positive := Nat.two_pow_pos len.toNat
      have below : 2 ^ len.toNat < 2 ^ 64 := Nat.pow_lt_pow_right (by decide) short
      show (2 ^ 64 - 1 + 2 ^ len.toNat) % 2 ^ 64 = 2 ^ len.toNat - 1
      omega
    rw [if_neg wide, mask, Nat.and_two_pow_sub_one_eq_mod]

/-- A bit range lies inside the field. -/
theorem fieldWidth_le
    (bits : field.bitLen = 0 ∨ field.bitOffset.toNat + field.bitLen.toNat ≤ field.size.toNat * 8) :
    0 < fieldWidth field ∧ fieldWidth field ≤ field.size.toNat * 8 := by
  have sizes := field.size_cases
  rw [fieldWidth]
  split
  · omega
  · rename_i some
    have positive : 0 < field.bitLen.toNat := UInt8.lt_iff_toNat_lt.mp (UInt8.pos_iff_ne_zero.mpr some)
    rcases bits with none | fits
    · exact absurd none some
    · omega

theorem fieldBits_lt (inside : field.extent ≤ payload.length) :
    fieldBits be payload field < 2 ^ fieldWidth field := by
  rw [fieldBits, fieldWidth]
  split
  · have bound := leNat_lt (fieldBytes be payload field)
    rwa [length_fieldBytes be inside, show 256 = 2 ^ 8 by rfl, ← Nat.pow_mul, Nat.mul_comm] at bound
  · exact Nat.mod_lt _ (Nat.two_pow_pos _)

/-- **A decoded integer field**: its bits as a word, sign-extended for a signed field. -/
theorem decodeInt_eq (inside : field.extent ≤ payload.length)
    (bits : field.bitLen = 0 ∨ field.bitOffset.toNat + field.bitLen.toNat ≤ field.size.toNat * 8) :
    ∃ v : BitVec 64, v.toNat = fieldBits be payload field ∧
      decodeInt (payload.drop field.byteOffset.toNat) field be =
        if field.kind = .intSigned then signExtend v (fieldWidth field) else v := by
  have sizes := field.size_cases
  have raw := loadRaw_field be inside
  rw [decodeInt, fieldBits, fieldWidth]
  by_cases whole : field.bitLen = 0
  · refine ⟨loadRaw (payload.drop field.byteOffset.toNat) field.size.toNat be, ?_, ?_⟩
    · rw [if_pos whole, raw]
    · rw [if_neg (by rw [whole]; decide), if_pos whole]
  · have fits : field.bitOffset.toNat + field.bitLen.toNat ≤ 64 := by
      have range := bits.resolve_left whole
      omega
    refine ⟨(loadRaw (payload.drop field.byteOffset.toNat) field.size.toNat be >>>
      field.bitOffset.toNat) &&& (if 64 ≤ field.bitLen then BitVec.allOnes 64
        else ((1 <<< field.bitLen.toNat : ℕ) : BitVec 64) - 1), ?_, ?_⟩
    · rw [if_neg whole, bitRange_toNat _ fits, raw]
    · rw [if_pos (UInt8.pos_iff_ne_zero.mpr whole), if_neg whole]

/-- The cell of a BOOL field is 0 or 1. -/
theorem fieldCell_bool (kind : field.kind = .bool) (inside : field.extent ≤ payload.length) :
    (fieldCell be payload field).v.toInt = fieldValue be payload field := by
  have raw := loadRaw_field be inside
  rw [FieldDesc.size_of_bool kind] at raw
  unfold fieldCell fieldValue
  simp only [kind]
  by_cases zero : leNat (fieldBytes be payload field) = 0
  · have none : loadRaw (payload.drop field.byteOffset.toNat) 1 be = 0 :=
      BitVec.eq_of_toNat_eq (raw.trans zero)
    rw [if_pos zero, if_neg (not_not.mpr none)]
    rfl
  · rw [if_neg zero, if_pos fun none => zero (raw.symm.trans (congrArg BitVec.toNat none))]
    rfl

section Integer

variable (inside : field.extent ≤ payload.length)
  (bits : field.bitLen = 0 ∨ field.bitOffset.toNat + field.bitLen.toNat ≤ field.size.toNat * 8)
  (plain : field.asDouble = false)

include inside bits plain

/-- **The cell of a signed field is its value.** -/
theorem fieldCell_signed (kind : field.kind = .intSigned) :
    (fieldCell be payload field).v.toInt = fieldValue be payload field := by
  have sizes := field.size_cases
  obtain ⟨positive, narrow⟩ := fieldWidth_le bits
  obtain ⟨v, value, decoded⟩ := decodeInt_eq be inside bits
  have small := fieldBits_lt be inside
  rw [if_pos kind] at decoded
  unfold fieldCell fieldValue
  simp only [kind, plain, Bool.false_eq_true, if_false, decoded]
  rw [signExtend_toInt positive (by omega) (value ▸ small), value]

/-- **The cell of an unsigned field is the word of its value.** -/
theorem fieldCell_unsigned (kind : field.kind = .intUnsigned) :
    ((fieldCell be payload field).v.toNat : ℤ) = fieldValue be payload field := by
  obtain ⟨v, value, decoded⟩ := decodeInt_eq be inside bits
  rw [kind, if_neg (by decide)] at decoded
  unfold fieldCell fieldValue
  simp only [kind, plain, Bool.false_eq_true, if_false, decoded, value]

end Integer

/-! ### Bounds -/

theorem twosComplement_bounds {width n : ℕ} (small : n < 2 ^ width) :
    -(2 ^ width : ℤ) ≤ 2 * twosComplement width n ∧ 2 * twosComplement width n < 2 ^ width := by
  have power : (2 : ℤ) ^ width = ((2 ^ width : ℕ) : ℤ) := (Nat.cast_pow 2 width).symm
  rw [twosComplement, power]
  split
  · omega
  · omega

end Field

end EtherAdapter
