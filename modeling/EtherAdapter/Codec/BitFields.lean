/-
**Bit fields: which bits are read, and which are written.**

* **`decodePayload_bits_iff`** — a loaded field with a bit range is decoded from the bits of that
  range alone, unless it is a BOOL field: `decodePayload` turns to the kind first, and a BOOL cell is
  the whole byte compared with 0. So the range is honoured exactly if the field is an integer, or
  the range is the whole byte.
* `writeBits` — a number with a part of its bits overwritten; `encodeField` — a field's bytes, with a
  value in its bits and any bits around them, in either byte order.
* **`decodePayload_encodeField`** — decoding gives the encoded value back, for every integer field,
  and a big-endian field is the little-endian field of the reversed bytes.
-/

import EtherAdapter.Codec.Integers
import EtherAdapter.Codec.Records
import EtherAdapter.Config.Extents

namespace EtherAdapter

open Memory

/-! ### The bits of a range -/

/-- The word a field is read from. -/
def fieldWord (be : Bool) (payload : Bytes) (field : FieldDesc) : BitVec 64 :=
  loadRaw (payload.drop field.byteOffset.toNat) field.size.toNat be

/-- Two payloads with the same bits in a field's range. -/
def AgreeOnBits (be : Bool) (field : FieldDesc) (p q : Bytes) : Prop :=
  ∀ i, field.bitOffset.toNat ≤ i → i < field.bitOffset.toNat + field.bitLen.toNat →
    (fieldWord be p field).getLsbD i = (fieldWord be q field).getLsbD i

/-- Numbers with the same bits in a range have the same range. -/
theorem div_mod_two_pow_congr {a b off len : ℕ}
    (agree : ∀ i, off ≤ i → i < off + len → a.testBit i = b.testBit i) :
    a / 2 ^ off % 2 ^ len = b / 2 ^ off % 2 ^ len := by
  refine Nat.eq_of_testBit_eq fun i => ?_
  rw [Nat.testBit_mod_two_pow, Nat.testBit_mod_two_pow, Nat.testBit_div_two_pow,
    Nat.testBit_div_two_pow]
  by_cases inside : i < len
  · rw [agree (i + off) (by omega) (by omega)]
  · rw [decide_eq_false inside, Bool.false_and, Bool.false_and]

/-- **An integer field with a bit range is read from the bits of the range.** -/
theorem decodeInt_congr_bits {be : Bool} {field : FieldDesc} {p q : Bytes}
    (range : 0 < field.bitLen)
    (fits : field.bitOffset.toNat + field.bitLen.toNat ≤ field.size.toNat * 8)
    (agree : AgreeOnBits be field p q) :
    decodeInt (p.drop field.byteOffset.toNat) field be =
      decodeInt (q.drop field.byteOffset.toNat) field be := by
  have sizes := field.size_cases
  have bound : field.bitOffset.toNat + field.bitLen.toNat ≤ 64 := by omega
  have masked := BitVec.eq_of_toNat_eq
    ((bitRange_toNat (fieldWord be p field) bound).trans
      ((div_mod_two_pow_congr agree).trans (bitRange_toNat (fieldWord be q field) bound).symm))
  rw [decodeInt, decodeInt, if_pos range, if_pos range]
  unfold fieldWord at masked
  simp only [masked]

/-! ### BOOL fields -/

theorem loadRaw_one (p : Bytes) (be : Bool) : loadRaw p 1 be = wordAt p 0 := by
  have word : wordAt p 0 <<< (8 * 0) = wordAt p 0 := BitVec.shiftLeft_zero _
  cases be with
  | true => exact BitVec.zero_or
  | false =>
    show 0 ||| (wordAt p 0 <<< (8 * 0)) = wordAt p 0
    rw [word]
    exact BitVec.zero_or

theorem toNat_fieldWord_bool {field : FieldDesc} (kind : field.kind = .bool) (be : Bool)
    (p : Bytes) : (fieldWord be p field).toNat = (byteAt p field.byteOffset.toNat).toNat := by
  rw [fieldWord, FieldDesc.size_of_bool kind, loadRaw_one, wordAt_toNat, byteAt_drop, Nat.add_zero]

/-- A BOOL cell is the whole byte compared with 0. -/
theorem fieldCell_bool_eq {field : FieldDesc} (kind : field.kind = .bool) (be : Bool) (p : Bytes) :
    fieldCell be p field =
      { v := if byteAt p field.byteOffset.toNat ≠ 0 then 1 else 0 } := by
  unfold fieldCell
  simp only [kind, loadRaw_one]
  have zero : wordAt (p.drop field.byteOffset.toNat) 0 ≠ 0 ↔
      byteAt p field.byteOffset.toNat ≠ 0 := by
    refine not_congr ⟨fun word => UInt8.toNat_inj.mp ?_, fun byte => BitVec.eq_of_toNat_eq ?_⟩
    · have value := congrArg BitVec.toNat word
      rwa [wordAt_toNat, byteAt_drop, Nat.add_zero] at value
    · rw [wordAt_toNat, byteAt_drop, Nat.add_zero, byte]
      rfl
  simp only [zero]

/-- The width check has kept the range inside the field. -/
theorem Column.range_le {f : Column} (range : 0 < f.bitLen) :
    f.bitOffset.toNat + f.bitLen.toNat ≤ f.size.toNat * 8 :=
  f.bits_ok.resolve_left (UInt8.pos_iff_ne_zero.mp range)

/-- **A field whose bit range is honoured is read from the bits of the range.** -/
theorem fieldCell_congr_bits {be : Bool} {f : Column} {p q : Bytes}
    (kind : f.kind.isFloat = false) (range : 0 < f.bitLen)
    (honoured : f.kind ≠ .bool ∨ f.bitLen = 8) (agree : AgreeOnBits be f.toFieldDesc p q) :
    fieldCell be p f.toFieldDesc = fieldCell be q f.toFieldDesc := by
  have fits := f.range_le range
  cases kindEq : f.kind with
  | bool =>
    -- eight bits of one byte: the range is the byte
    have whole : f.bitLen.toNat = 8 :=
      congrArg UInt8.toNat (honoured.resolve_left (not_not.mpr kindEq))
    rw [FieldDesc.size_of_bool kindEq] at fits
    have bytes := div_mod_two_pow_congr agree
    have start : f.bitOffset.toNat = 0 := by omega
    rw [start, whole, Nat.pow_zero, Nat.div_one, Nat.div_one, toNat_fieldWord_bool kindEq,
      toNat_fieldWord_bool kindEq, Nat.mod_eq_of_lt (UInt8.toNat_lt _),
      Nat.mod_eq_of_lt (UInt8.toNat_lt _)] at bytes
    rw [fieldCell_bool_eq kindEq, fieldCell_bool_eq kindEq, UInt8.toNat_inj.mp bytes]
  | intSigned =>
    unfold fieldCell
    simp only [kindEq, decodeInt_congr_bits range fits agree]
  | intUnsigned =>
    unfold fieldCell
    simp only [kindEq, decodeInt_congr_bits range fits agree]
  | float32 =>
    rw [kindEq] at kind
    cases kind
  | float64 =>
    rw [kindEq] at kind
    cases kind

/-- A bit of the byte that lies outside a range of less than eight bits. -/
def outsideBit (field : FieldDesc) : ℕ :=
  if 0 < field.bitOffset.toNat then 0 else field.bitLen.toNat

/-- A payload of zeros, but for one bit of a field's byte. -/
def oneBit (field : FieldDesc) (size : ℕ) : Bytes :=
  writeAt (List.replicate size 0) field.byteOffset.toNat [UInt8.ofNat (2 ^ outsideBit field)]

theorem offset_lt {field : FieldDesc} {size : ℕ} (inside : field.extent ≤ size) :
    field.byteOffset.toNat < size := by
  have positive := field.size_pos
  unfold FieldDesc.extent at inside
  omega

theorem length_oneBit {field : FieldDesc} {size : ℕ} (inside : field.extent ≤ size) :
    (oneBit field size).length = size := by
  have offset := offset_lt inside
  rw [oneBit, length_writeAt]
  · exact List.length_replicate
  · rw [List.length_replicate]
    exact offset

section Outside

variable {field : FieldDesc}
  (fits : field.bitOffset.toNat + field.bitLen.toNat ≤ 8) (part : field.bitLen.toNat ≠ 8)

include fits part

theorem outsideBit_spec :
    outsideBit field < 8 ∧ (outsideBit field < field.bitOffset.toNat ∨
      field.bitOffset.toNat + field.bitLen.toNat ≤ outsideBit field) := by
  unfold outsideBit
  split
  · omega
  · omega

theorem toNat_outsideBit : (UInt8.ofNat (2 ^ outsideBit field)).toNat = 2 ^ outsideBit field := by
  rw [UInt8.toNat_ofNat']
  exact Nat.mod_eq_of_lt (Nat.pow_lt_pow_right (by decide) (outsideBit_spec fits part).1)

/-- The bit is outside the range, and it makes the byte different from 0. -/
theorem agreeOnBits_oneBit (kind : field.kind = .bool) {size : ℕ} (inside : field.extent ≤ size)
    (be : Bool) :
    AgreeOnBits be field (List.replicate size 0) (oneBit field size) ∧
      fieldCell be (List.replicate size 0) field ≠ fieldCell be (oneBit field size) field := by
  have offset := offset_lt inside
  have zeros : byteAt (List.replicate size 0) field.byteOffset.toNat = 0 := by
    rw [byteAt, List.getD_eq_getElem?_getD, List.getElem?_replicate, if_pos offset, Option.getD_some]
  have one : byteAt (oneBit field size) field.byteOffset.toNat =
      UInt8.ofNat (2 ^ outsideBit field) := by
    rw [byteAt, List.getD_eq_getElem?_getD, oneBit, getElem?_writeAt, if_pos]
    · rw [Nat.sub_self]
      rfl
    · exact ⟨Nat.le_refl _, Nat.lt_succ_self _⟩
    · rw [List.length_replicate]
      exact offset
  have value := toNat_outsideBit fits part
  constructor
  · intro i low high
    rw [BitVec.getLsbD, BitVec.getLsbD, toNat_fieldWord_bool kind, toNat_fieldWord_bool kind, zeros,
      one, value, Nat.testBit_two_pow]
    have outside := (outsideBit_spec fits part).2
    rw [decide_eq_false (by omega)]
    exact Nat.zero_testBit i
  · rw [fieldCell_bool_eq kind, fieldCell_bool_eq kind, zeros, one, if_neg (not_not.mpr rfl), if_pos]
    · exact fun same => absurd (congrArg Cell.v same) (by decide)
    · intro none
      rw [none] at value
      exact Nat.ne_of_lt (Nat.two_pow_pos _) value

end Outside

/-! ### What a loaded field reads -/

/-- The field of an accepted row. -/
theorem field_of_accepted {tables : Tables} {pid : Int32} {spec : ProtoSpec}
    (loaded : tables.specs.lookup pid = some spec) {k : ℕ} {row : FieldRow}
    (accepted : (acceptedRows pid tables.fields)[k]? = some row) {f : Column}
    (column : row.column k = some f) : spec.fields[k]? = some f.toFieldDesc := by
  have entry := congrArg (fun list => list[k]?) (columns_of_specs loaded)
  simp only [List.getElem?_map, List.getElem?_mapIdx, accepted, Option.map_some, column] at entry
  obtain ⟨g, found, same⟩ := Option.map_eq_some_iff.mp entry
  cases same
  rw [← spec.columns_eq, List.getElem?_map, found, Option.map_some]

/-- **Bit fields read only their own bits, except BOOL fields of less than eight bits.** -/
theorem decodePayload_bits_iff (tables : Tables) {pid : Int32} {spec : ProtoSpec}
    (loaded : tables.specs.lookup pid = some spec) {k : ℕ} {row : FieldRow}
    (accepted : (acceptedRows pid tables.fields)[k]? = some row) {f : Column}
    (column : row.column k = some f) (kind : f.kind.isFloat = false) (range : 0 < f.bitLen) :
    (∀ (be : Bool) (p q : Bytes) (rowP rowQ : List Cell),
        decodePayload spec.toFrameSpec be p p.length = some rowP →
        decodePayload spec.toFrameSpec be q q.length = some rowQ →
        AgreeOnBits be f.toFieldDesc p q → rowP[k]? = rowQ[k]?) ↔
      f.kind ≠ .bool ∨ f.bitLen = 8 := by
  have field := field_of_accepted loaded accepted column
  have member := List.mem_of_getElem? field
  have fits := f.range_le range
  have cellAt : ∀ {be : Bool} {p : Bytes} {cells : List Cell},
      decodePayload spec.toFrameSpec be p p.length = some cells →
        cells[k]? = some (fieldCell be p f.toFieldDesc) := by
    intro be p cells decoded
    rw [(eq_of_decodePayload decoded).1, List.getElem?_map, field, Option.map_some]
  constructor
  · intro reads
    by_contra neither
    rw [not_or, not_not] at neither
    obtain ⟨bool, part⟩ := neither
    rw [FieldDesc.size_of_bool bool] at fits
    have admits : spec.Admits spec.extent :=
      ⟨List.ne_nil_of_mem member, spec.payloadMin_le_extent, fun _ => FrameSpec.extent_le⟩
    have inside := FrameSpec.extent_le member
    obtain ⟨agree, differ⟩ := agreeOnBits_oneBit fits
      (fun whole => part (UInt8.toNat_inj.mp whole)) bool inside false
    have decoded : ∀ p : Bytes, p.length = spec.extent →
        decodePayload spec.toFrameSpec false p p.length =
          some (spec.fields.map (fieldCell false p)) := fun p size => by
      rw [size]
      exact admits.decodePayload false p
    have zeros := decoded _ (List.length_replicate (n := spec.extent) (a := 0))
    have one := decoded _ (length_oneBit inside)
    have same := reads false _ _ _ _ zeros one agree
    rw [cellAt zeros, cellAt one] at same
    exact differ (Option.some.inj same)
  · intro honoured be p q rowP rowQ decodedP decodedQ agree
    rw [cellAt decodedP, cellAt decodedQ]
    exact congrArg some (fieldCell_congr_bits kind range honoured agree)

/-- Two fields of one byte: an alarm in its fourth bit, and a mode in three others. -/
def alarmRow : FieldRow :=
  { dataProtoId := 1, fieldName := bytesOf "alarm", fieldType := 0, bitOffset := 3, bitLen := 1 }

def modeRow : FieldRow :=
  { dataProtoId := 1, fieldName := bytesOf "mode", fieldType := 6, bitOffset := 4, bitLen := 3 }

def alarmTables : Tables where
  fields := [alarmRow, modeRow]

def alarmSpec : ProtoSpec := (alarmTables.specs.lookup 1).getD ProtoSpec.empty

def alarmColumn : Column where
  kind := .bool
  size := 1
  bitOffset := 3
  bitLen := 1
  size_ok := rfl
  name := bytesOf "alarm"
  bits_ok := Or.inr (Nat.le_of_ble_eq_true rfl)
  asDouble_eq := rfl

def modeColumn : Column where
  kind := .intUnsigned
  size := 1
  bitOffset := 4
  bitLen := 3
  size_ok := rfl
  name := bytesOf "mode"
  bits_ok := Or.inr (Nat.le_of_ble_eq_true rfl)
  asDouble_eq := rfl

theorem lookup_alarmSpec : alarmTables.specs.lookup 1 = some alarmSpec := by decide +kernel

/-- The fourth bit is clear in both bytes; the alarm is on in the second. -/
theorem decodePayload_alarm_reads_others :
    alarmTables.specs.lookup 1 = some alarmSpec ∧
      (acceptedRows 1 alarmTables.fields)[0]? = some alarmRow ∧
      alarmRow.column 0 = some alarmColumn ∧
      AgreeOnBits false alarmColumn.toFieldDesc [0x00] [0x01] ∧
      decodePayload alarmSpec.toFrameSpec false [0x00] 1 = some [⟨0, false⟩, ⟨0, false⟩] ∧
      decodePayload alarmSpec.toFrameSpec false [0x01] 1 = some [⟨1, false⟩, ⟨0, false⟩] := by
  refine ⟨lookup_alarmSpec, by decide +kernel, by decide +kernel, fun i low high => ?_,
    by decide +kernel, by decide +kernel⟩
  have three : i = 3 := by
    change 3 ≤ i at low
    change i < 3 + 1 at high
    omega
  rw [three]
  decide +kernel

theorem decodePayload_bits_mode :
    modeColumn.kind ≠ .bool ∧
      ∀ (be : Bool) (p q : Bytes) (rowP rowQ : List Cell),
        decodePayload alarmSpec.toFrameSpec be p p.length = some rowP →
        decodePayload alarmSpec.toFrameSpec be q q.length = some rowQ →
        AgreeOnBits be modeColumn.toFieldDesc p q → rowP[1]? = rowQ[1]? := by
  have accepted : (acceptedRows 1 alarmTables.fields)[1]? = some modeRow := by decide +kernel
  have column : modeRow.column 1 = some modeColumn := by decide +kernel
  have word : modeColumn.kind ≠ .bool := by decide
  exact ⟨word, (decodePayload_bits_iff alarmTables lookup_alarmSpec accepted column rfl
    (by decide)).mpr (Or.inl word)⟩

/-! ### Encoding -/

/-- A number with `n` written over the bits `offset … offset + width - 1`. -/
def writeBits (word offset width n : ℕ) : ℕ :=
  word % 2 ^ offset + 2 ^ offset * (n + 2 ^ width * (word / 2 ^ (offset + width)))

/-- What is written is in the range, and the other bits are as they were. -/
theorem testBit_writeBits {word offset width n : ℕ} (small : n < 2 ^ width) (i : ℕ) :
    (writeBits word offset width n).testBit i =
      if i < offset then word.testBit i
      else if i < offset + width then n.testBit (i - offset) else word.testBit i := by
  rw [writeBits, Nat.add_comm, Nat.testBit_two_pow_mul_add _ (Nat.mod_lt _ (Nat.two_pow_pos _)),
    Nat.add_comm n, Nat.testBit_two_pow_mul_add _ small, Nat.testBit_mod_two_pow,
    Nat.testBit_div_two_pow]
  by_cases low : i < offset
  · rw [if_pos low, if_pos low, decide_eq_true low, Bool.true_and]
  · rw [if_neg low, if_neg low]
    by_cases inside : i < offset + width
    · rw [if_pos (by omega), if_pos inside]
    · rw [if_neg (by omega), if_neg inside]
      congr 1
      omega

/-- The written bits are read back. -/
theorem div_mod_writeBits {word offset width n : ℕ} (small : n < 2 ^ width) :
    writeBits word offset width n / 2 ^ offset % 2 ^ width = n := by
  refine Nat.eq_of_testBit_eq fun i => ?_
  rw [Nat.testBit_mod_two_pow, Nat.testBit_div_two_pow, testBit_writeBits small,
    if_neg (Nat.not_lt.mpr (Nat.le_add_left _ _)), Nat.add_sub_cancel]
  by_cases inside : i < width
  · rw [decide_eq_true inside, Bool.true_and, if_pos (by omega)]
  · have high : n < 2 ^ i :=
      Nat.lt_of_lt_of_le small (Nat.pow_le_pow_right (by decide) (Nat.le_of_not_lt inside))
    rw [decide_eq_false inside, Bool.false_and, Nat.testBit_lt_two_pow high]

/-- Where a field's bits start in its word. -/
def fieldOffset (field : FieldDesc) : ℕ := if field.bitLen = 0 then 0 else field.bitOffset.toNat

/-- The values a field can hold. -/
def FieldDesc.Holds (field : FieldDesc) (v : ℤ) : Prop :=
  if field.kind = .intSigned then -(2 ^ fieldWidth field) ≤ 2 * v ∧ 2 * v < 2 ^ fieldWidth field
  else 0 ≤ v ∧ v < 2 ^ fieldWidth field

/-- The bytes of a field with the value `v`, all other bits taken from `word`. -/
def encodeField (be : Bool) (field : FieldDesc) (word : ℕ) (v : ℤ) : Bytes :=
  let bits := (v % 2 ^ fieldWidth field).toNat
  let bytes := leBytes field.size.toNat
    (BitVec.ofNat 64 (writeBits word (fieldOffset field) (fieldWidth field) bits))
  if be then bytes.reverse else bytes

/-- Reading a value back from its residue. -/
theorem twosComplement_emod {width : ℕ} {v : ℤ} (low : -(2 ^ width) ≤ 2 * v)
    (high : 2 * v < 2 ^ width) : twosComplement width (v % 2 ^ width).toNat = v := by
  have power : (2 : ℤ) ^ width = ((2 ^ width : ℕ) : ℤ) := (Nat.cast_pow 2 width).symm
  rw [power] at low high
  rw [twosComplement, power]
  generalize 2 ^ width = top at low high ⊢
  rcases Int.lt_or_le v 0 with negative | nonneg
  · have wrapped : v % (top : ℤ) = v + top := by
      rw [← Int.add_emod_right, Int.emod_eq_of_lt (by omega) (by omega)]
    rw [wrapped, if_neg (by omega)]
    omega
  · rw [Int.emod_eq_of_lt nonneg (by omega), if_pos (by omega)]
    omega

theorem toNat_emod_lt (v : ℤ) (width : ℕ) : (v % 2 ^ width).toNat < 2 ^ width := by
  have power : (2 : ℤ) ^ width = ((2 ^ width : ℕ) : ℤ) := (Nat.cast_pow 2 width).symm
  have positive := Nat.two_pow_pos width
  have below : v % 2 ^ width < 2 ^ width := Int.emod_lt_of_pos v (by omega)
  omega

section Field

variable {be : Bool} {field : FieldDesc} {before own after : Bytes}

theorem length_encodeField (be : Bool) (field : FieldDesc) (word : ℕ) (v : ℤ) :
    (encodeField be field word v).length = field.size.toNat := by
  unfold encodeField
  cases be with
  | true => exact (List.length_reverse).trans (length_leBytes _ _)
  | false => exact length_leBytes _ _

/-- The field is inside a payload that has bytes at its place. -/
theorem extent_le_at (place : before.length = field.byteOffset.toNat)
    (size : own.length = field.size.toNat) : field.extent ≤ (before ++ own ++ after).length := by
  rw [List.length_append, List.length_append, place, size]
  exact Nat.le_add_right _ _

/-- The bytes that stand at a field's place. -/
theorem fieldBytes_at (place : before.length = field.byteOffset.toNat)
    (size : own.length = field.size.toNat) :
    fieldBytes be (before ++ own ++ after) field = if be then own.reverse else own := by
  have read : readAt (before ++ own ++ after) field.byteOffset.toNat field.size.toNat = own := by
    rw [readAt, ← place, ← size, List.append_assoc, List.drop_left, List.take_left]
  rw [fieldBytes, read]

/-- The lowest byte of an encoded field comes first, whatever the byte order. -/
theorem fieldBytes_encodeField (place : before.length = field.byteOffset.toNat) (word : ℕ) (v : ℤ) :
    fieldBytes be (before ++ encodeField be field word v ++ after) field =
      encodeField false field word v := by
  rw [fieldBytes_at place (length_encodeField be field word v)]
  cases be with
  | true => exact List.reverse_reverse _
  | false => rfl

/-- The bits of a field are a range of its word. -/
theorem fieldBits_eq {payload : Bytes} (inside : field.extent ≤ payload.length) :
    fieldBits be payload field =
      leNat (fieldBytes be payload field) / 2 ^ fieldOffset field % 2 ^ fieldWidth field := by
  have small := fieldBits_lt be inside
  rw [fieldBits, fieldOffset]
  split
  · rename_i whole
    rw [fieldBits, if_pos whole] at small
    rw [Nat.pow_zero, Nat.div_one, Nat.mod_eq_of_lt small]
  · rename_i part
    rw [fieldWidth, if_neg part]

/-- **An encoded field has the bits of its value.** -/
theorem fieldBits_encodeField
    (bits : field.bitLen = 0 ∨ field.bitOffset.toNat + field.bitLen.toNat ≤ field.size.toNat * 8)
    (place : before.length = field.byteOffset.toNat) (word : ℕ) (v : ℤ) :
    fieldBits be (before ++ encodeField be field word v ++ after) field =
      (v % 2 ^ fieldWidth field).toNat := by
  have sizes := field.size_cases
  have inside : field.extent ≤ (before ++ encodeField be field word v ++ after).length :=
    extent_le_at place (length_encodeField be field word v)
  have range : fieldOffset field + fieldWidth field ≤ 8 * field.size.toNat := by
    rw [fieldOffset, fieldWidth]
    split
    · omega
    · rename_i part
      have fits := bits.resolve_left part
      omega
  rw [fieldBits_eq inside, fieldBytes_encodeField place]
  refine Eq.trans ?_ (@div_mod_writeBits word (fieldOffset field) _ _ (toNat_emod_lt v _))
  -- cutting the number to the field's bytes does not reach the range
  refine div_mod_two_pow_congr fun i _ high => ?_
  show (leNat (leBytes _ _)).testBit i = _
  rw [leNat_leBytes, BitVec.toNat_ofNat, show 256 = 2 ^ 8 by rfl, ← Nat.pow_mul,
    Nat.testBit_mod_two_pow, Nat.testBit_mod_two_pow, decide_eq_true (by omega),
    decide_eq_true (by omega), Bool.true_and, Bool.true_and]

end Field

theorem isNull_fieldCell (be : Bool) (p : Bytes) (field : FieldDesc) :
    (fieldCell be p field).isNull = false := by
  unfold fieldCell
  cases field.kind <;> rfl

/-- **The cell of an encoded integer is the integer.** -/
theorem fieldCell_encodeField {be : Bool} {f : Column} {before after : Bytes}
    (kind : f.kind = .intSigned ∨ f.kind = .intUnsigned)
    (place : before.length = f.byteOffset.toNat) (word : ℕ) {v : ℤ}
    (holds : f.toFieldDesc.Holds v) :
    fieldCell be (before ++ encodeField be f.toFieldDesc word v ++ after) f.toFieldDesc =
      { v := BitVec.ofInt 64 v } := by
  have bits : fieldBits be (before ++ encodeField be f.toFieldDesc word v ++ after) f.toFieldDesc =
      (v % 2 ^ fieldWidth f.toFieldDesc).toNat := fieldBits_encodeField f.bits_ok place word v
  have inside : f.toFieldDesc.extent ≤
      (before ++ encodeField be f.toFieldDesc word v ++ after).length :=
    extent_le_at place (length_encodeField be f.toFieldDesc word v)
  have plain : f.asDouble = false := by
    rw [f.asDouble_eq]
    rcases kind with signed | unsigned
    · rw [signed]
      rfl
    · rw [unsigned]
      rfl
  suffices value : (fieldCell be (before ++ encodeField be f.toFieldDesc word v ++ after)
      f.toFieldDesc).v = BitVec.ofInt 64 v by
    rw [← value, ← isNull_fieldCell be (before ++ encodeField be f.toFieldDesc word v ++ after)]
  unfold FieldDesc.Holds at holds
  rcases kind with signed | unsigned
  · rw [if_pos signed] at holds
    have cell := fieldCell_signed be inside f.bits_ok plain signed
    unfold fieldValue at cell
    simp only [signed, bits, twosComplement_emod holds.1 holds.2] at cell
    exact BitVec.ofInt_toInt.symm.trans (congrArg (BitVec.ofInt 64) cell)
  · rw [unsigned, if_neg (by decide)] at holds
    have cell := fieldCell_unsigned be inside f.bits_ok plain unsigned
    unfold fieldValue at cell
    simp only [unsigned, bits, Int.emod_eq_of_lt holds.1 holds.2] at cell
    rw [Int.toNat_of_nonneg holds.1] at cell
    rw [← congrArg (BitVec.ofInt 64) cell, BitVec.ofInt_natCast, BitVec.ofNat_toNat,
      BitVec.setWidth_eq]

/-- A big-endian field is the little-endian field of the reversed bytes. -/
theorem fieldCell_reverse {field : FieldDesc} {before own after : Bytes}
    (kind : field.kind = .intSigned ∨ field.kind = .intUnsigned)
    (place : before.length = field.byteOffset.toNat) (size : own.length = field.size.toNat) :
    fieldCell true (before ++ own ++ after) field =
      fieldCell false (before ++ own.reverse ++ after) field := by
  have word : loadRaw ((before ++ own ++ after).drop field.byteOffset.toNat) field.size.toNat true =
      loadRaw ((before ++ own.reverse ++ after).drop field.byteOffset.toNat) field.size.toNat
        false := by
    have turned : own.reverse.length = field.size.toNat := List.length_reverse.trans size
    refine BitVec.eq_of_toNat_eq ?_
    rw [loadRaw_field true (extent_le_at place size), loadRaw_field false (extent_le_at place turned),
      fieldBytes_at place size, fieldBytes_at place turned]
    rfl
  unfold fieldCell decodeInt
  rcases kind with signed | unsigned
  · simp only [signed, word]
  · simp only [unsigned, word]

section RoundTrip

variable {spec : FrameSpec} {k : ℕ} {f : Column} {before after : Bytes}

/-- **Integer decoding inverts encoding, in both byte orders.** -/
theorem decodePayload_encodeField (field : spec.fields[k]? = some f.toFieldDesc)
    (kind : f.kind = .intSigned ∨ f.kind = .intUnsigned)
    (place : before.length = f.byteOffset.toNat)
    (admits : spec.Admits (before.length + f.size.toNat + after.length)) :
    (∀ (be : Bool) (word : ℕ) (v : ℤ), f.toFieldDesc.Holds v →
        ∃ row, decodePayload spec be (before ++ encodeField be f.toFieldDesc word v ++ after)
            (before.length + f.size.toNat + after.length) = some row ∧
          row[k]? = some { v := BitVec.ofInt 64 v }) ∧
      ∀ own : Bytes, own.length = f.size.toNat →
        ∃ big little, decodePayload spec true (before ++ own ++ after)
            (before.length + f.size.toNat + after.length) = some big ∧
          decodePayload spec false (before ++ own.reverse ++ after)
            (before.length + f.size.toNat + after.length) = some little ∧
          big[k]? = little[k]? := by
  refine ⟨fun be word v holds => ⟨_, admits.decodePayload be _, ?_⟩, fun own size =>
    ⟨_, _, admits.decodePayload true _, admits.decodePayload false _, ?_⟩⟩
  · rw [List.getElem?_map, field, Option.map_some, fieldCell_encodeField kind place word holds]
  · rw [List.getElem?_map, List.getElem?_map, field, Option.map_some, Option.map_some,
      fieldCell_reverse kind place size]

end RoundTrip

theorem decodePayload_encodeField_mode :
    ∃ row, decodePayload alarmSpec.toFrameSpec true
        ([] ++ encodeField true modeColumn.toFieldDesc 0x8F 5 ++ []) 1 = some row ∧
      row[1]? = some { v := BitVec.ofInt 64 5 } := by
  have field : alarmSpec.toFrameSpec.fields[1]? = some modeColumn.toFieldDesc := by decide +kernel
  have admits : alarmSpec.toFrameSpec.Admits 1 :=
    ⟨by decide +kernel, by decide +kernel, by decide +kernel⟩
  exact (@decodePayload_encodeField alarmSpec.toFrameSpec 1 modeColumn [] [] field (Or.inr rfl) rfl
    admits).1 true 0x8F 5 ⟨by decide, by decide⟩

end EtherAdapter
