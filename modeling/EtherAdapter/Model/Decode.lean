/-
**Field decoding** (`FrameCodec.cpp`: `loadRaw` … `decodePayload`).

A pointer into the pending buffer is the list of bytes from there to the buffer's end; `byteAt`
reads through it. `decodePayload` receives such a pointer and the record length it may use, as in
the source, so reading past the record is expressible; `decodePayload_congr` says which bytes its
result depends on.
-/

import EtherAdapter.Model.Device

namespace EtherAdapter

/-! ### Raw loads -/

/-- `p[i]`. -/
def byteAt (p : Bytes) (i : ℕ) : UInt8 := p.getD i 0

/-- A byte as a 64-bit word. -/
def wordAt (p : Bytes) (i : ℕ) : BitVec 64 := (byteAt p i).toBitVec.setWidth 64

/-- Load `size` raw bytes as an integer honouring the byte order. -/
def loadRaw (p : Bytes) (size : ℕ) (be : Bool) : BitVec 64 :=
  if be then (List.range size).foldl (fun v i => (v <<< 8) ||| wordAt p i) 0
  else (List.range size).foldl (fun v i => v ||| (wordAt p i <<< (8 * i))) 0

def signExtend (v : BitVec 64) (bits : ℕ) : BitVec 64 :=
  if 64 ≤ bits then v
  else
    let m : BitVec 64 := 1 <<< (bits - 1)
    (v ^^^ m) - m

/-- One integer field value, with bit fields and signedness. -/
def decodeInt (p : Bytes) (field : FieldDesc) (be : Bool) : BitVec 64 :=
  let v := loadRaw p field.size.toNat be
  if 0 < field.bitLen then
    let mask : BitVec 64 :=
      if 64 ≤ field.bitLen then BitVec.allOnes 64 else (1 <<< field.bitLen.toNat) - 1
    let v := (v >>> field.bitOffset.toNat) &&& mask
    if field.kind = .intSigned then signExtend v field.bitLen.toNat else v
  else if field.kind = .intSigned then signExtend v (field.size.toNat * 8)
  else v

/-! ### Floating point, on bit patterns -/

/-- The widening of a `float` to a `double`. A NaN stays a NaN and becomes quiet. -/
def widenFloat (bits : BitVec 32) : BitVec 64 :=
  let sign := bits.toNat / 2 ^ 31
  let exponent := bits.toNat / 2 ^ 23 % 2 ^ 8
  let mantissa := bits.toNat % 2 ^ 23
  let pack (exponent mantissa : ℕ) : BitVec 64 :=
    BitVec.ofNat 64 (sign * 2 ^ 63 + exponent * 2 ^ 52 + mantissa)
  if exponent = 255 then
    if mantissa = 0 then pack 2047 0
    else pack 2047 (mantissa * 2 ^ 29 ||| 2 ^ 51)
  else if exponent = 0 then
    if mantissa = 0 then pack 0 0
    else
      -- subnormal: the leading one of the mantissa becomes the implicit bit
      let lead := Nat.log2 mantissa
      pack (lead + 874) ((mantissa - 2 ^ lead) * 2 ^ (52 - lead))
  else pack (exponent + 896) (mantissa * 2 ^ 29)

/-- The conversion of an `int64_t` to a `double`, rounding to nearest, ties to even. -/
def intToDouble (v : BitVec 64) : BitVec 64 :=
  let size := v.toInt.natAbs
  let sign := if v.toInt < 0 then 1 else 0
  if size = 0 then 0
  else
    let lead := Nat.log2 size
    let significand :=
      if lead ≤ 52 then size * 2 ^ (52 - lead)
      else
        let cut := lead - 52
        let kept := size / 2 ^ cut
        let lost := size % 2 ^ cut
        let half := 2 ^ (cut - 1)
        if half < lost ∨ (lost = half ∧ kept % 2 = 1) then kept + 1 else kept
    -- a carry out of the significand moves on into the exponent
    BitVec.ofNat 64 (sign * 2 ^ 63 + (lead + 1023) * 2 ^ 52 + (significand - 2 ^ 52))

def loadFloat32 (p : Bytes) (be : Bool) : BitVec 64 :=
  let bits : BitVec 32 := (loadRaw p 4 false).setWidth 32
  let bits :=
    if be then
      ((bits &&& 0x000000FF) <<< 24) ||| ((bits &&& 0x0000FF00) <<< 8) |||
        ((bits &&& 0x00FF0000) >>> 8) ||| ((bits &&& 0xFF000000) >>> 24)
    else bits
  widenFloat bits

def loadFloat64 (p : Bytes) (be : Bool) : BitVec 64 :=
  let bits := loadRaw p 8 false
  if be then
    ((bits &&& 0x00000000000000FF) <<< 56) ||| ((bits &&& 0x000000000000FF00) <<< 40) |||
      ((bits &&& 0x0000000000FF0000) <<< 24) ||| ((bits &&& 0x00000000FF000000) <<< 8) |||
      ((bits &&& 0x000000FF00000000) >>> 8) ||| ((bits &&& 0x0000FF0000000000) >>> 24) |||
      ((bits &&& 0x00FF000000000000) >>> 40) ||| ((bits &&& 0xFF00000000000000) >>> 56)
  else bits

/-! ### One record -/

/-- The cell of one field, read through a pointer to the record. -/
def fieldCell (be : Bool) (payload : Bytes) (field : FieldDesc) : Cell :=
  let p := payload.drop field.byteOffset.toNat
  match field.kind with
  | .float32 => { v := loadFloat32 p be }
  | .float64 => { v := loadFloat64 p be }
  | .bool => { v := if loadRaw p 1 be ≠ 0 then 1 else 0 }
  | .intSigned | .intUnsigned =>
    let raw := decodeInt p field be
    { v := if field.asDouble then intToDouble raw else raw }

/-- The field loop of `decodePayload`: it stops at the first field outside the record. -/
def decodeFields (be : Bool) (payload : Bytes) (payloadLen : ℕ) :
    List FieldDesc → Option (List Cell)
  | [] => some []
  | field :: fields =>
    if payloadLen < field.extent then none
    else (decodeFields be payload payloadLen fields).map (fieldCell be payload field :: ·)

/-- One record's payload bytes as one row; `none` when the record is malformed. -/
def decodePayload (spec : FrameSpec) (be : Bool) (payload : Bytes) (payloadLen : ℕ) :
    Option (List Cell) :=
  if spec.fields = [] then none
  else if payloadLen < spec.payloadMin.toNat then none
  else decodeFields be payload payloadLen spec.fields

/-! ### What the result depends on -/

/-- Two pointers that show the same first `size` bytes. -/
def AgreeOn (size : ℕ) (p q : Bytes) : Prop := ∀ i < size, byteAt p i = byteAt q i

theorem AgreeOn.mono {size smaller : ℕ} {p q : Bytes} (agree : AgreeOn size p q)
    (bound : smaller ≤ size) : AgreeOn smaller p q :=
  fun i inside => agree i (Nat.lt_of_lt_of_le inside bound)

theorem AgreeOn.symm {size : ℕ} {p q : Bytes} (agree : AgreeOn size p q) : AgreeOn size q p :=
  fun i inside => (agree i inside).symm

theorem byteAt_drop (p : Bytes) (offset i : ℕ) :
    byteAt (p.drop offset) i = byteAt p (offset + i) := by
  simp only [byteAt, List.getD_eq_getElem?_getD, List.getElem?_drop]

theorem AgreeOn.drop {size : ℕ} {p q : Bytes} (agree : AgreeOn size p q) (offset : ℕ) :
    AgreeOn (size - offset) (p.drop offset) (q.drop offset) := by
  intro i inside
  rw [byteAt_drop, byteAt_drop]
  exact agree _ (by omega)

/-- Appending does not change the bytes that are there. -/
theorem agreeOn_append (p more : Bytes) : AgreeOn p.length p (p ++ more) := by
  intro i inside
  simp only [byteAt, List.getD_eq_getElem?_getD, List.getElem?_append_left inside]

theorem byteAt_append {h : Bytes} {i : ℕ} (inside : i < h.length) (more : Bytes) :
    byteAt (h ++ more) i = byteAt h i := (agreeOn_append h more i inside).symm

theorem agreeOn_take (p : Bytes) (size : ℕ) : AgreeOn size p (p.take size) := by
  intro i inside
  simp only [byteAt, List.getD_eq_getElem?_getD, List.getElem?_take, if_pos inside]

theorem loadRaw_congr {size : ℕ} {p q : Bytes} (agree : AgreeOn size p q) (be : Bool) :
    loadRaw p size be = loadRaw q size be := by
  have words : ∀ i ∈ List.range size, wordAt p i = wordAt q i := fun i member => by
    rw [wordAt, wordAt, agree i (List.mem_range.mp member)]
  unfold loadRaw
  cases be with
  | true =>
    rw [if_pos rfl, if_pos rfl]
    exact List.foldl_ext _ _ _ fun v i member => by rw [words i member]
  | false =>
    rw [if_neg Bool.false_ne_true, if_neg Bool.false_ne_true]
    exact List.foldl_ext _ _ _ fun v i member => by rw [words i member]

/-- **A cell is read from the field's own bytes only.** -/
theorem fieldCell_congr {field : FieldDesc} {p q : Bytes} (agree : AgreeOn field.extent p q)
    (be : Bool) : fieldCell be p field = fieldCell be q field := by
  have own : AgreeOn field.size.toNat (p.drop field.byteOffset.toNat)
      (q.drop field.byteOffset.toNat) := by
    have shifted := agree.drop field.byteOffset.toNat
    rwa [FieldDesc.extent, Nat.add_sub_cancel_left] at shifted
  have raw : ∀ order, loadRaw (p.drop field.byteOffset.toNat) field.size.toNat order =
      loadRaw (q.drop field.byteOffset.toNat) field.size.toNat order := loadRaw_congr own
  have ok := field.size_ok
  unfold fieldCell
  cases kind : field.kind with
  | float32 =>
    have four : field.size.toNat = 4 := by
      rw [kind, FieldKind.hasSize, beq_iff_eq] at ok
      rw [ok]
      rfl
    rw [four] at raw
    simp only [loadFloat32, raw]
  | float64 =>
    have eight : field.size.toNat = 8 := by
      rw [kind, FieldKind.hasSize, beq_iff_eq] at ok
      rw [ok]
      rfl
    rw [eight] at raw
    simp only [loadFloat64, raw]
  | bool =>
    rw [FieldDesc.size_of_bool kind] at raw
    simp only [raw]
  | intSigned => simp only [decodeInt, raw]
  | intUnsigned => simp only [decodeInt, raw]

/-- **A record is decoded from the bytes of the fields that fit in it.** -/
theorem decodePayload_congr {spec : FrameSpec} {size payloadLen : ℕ} {p q : Bytes}
    (agree : AgreeOn size p q)
    (inside : ∀ field ∈ spec.fields, field.extent ≤ payloadLen → field.extent ≤ size) (be : Bool) :
    decodePayload spec be p payloadLen = decodePayload spec be q payloadLen := by
  have loop : ∀ fields : List FieldDesc,
      (∀ field ∈ fields, field.extent ≤ payloadLen → field.extent ≤ size) →
      decodeFields be p payloadLen fields = decodeFields be q payloadLen fields := by
    intro fields
    induction fields with
    | nil => intro _; rfl
    | cons field fields ih =>
      intro inside
      unfold decodeFields
      rw [ih fun other member => inside other (List.mem_cons_of_mem _ member)]
      by_cases outside : payloadLen < field.extent
      · rw [if_pos outside, if_pos outside]
      · rw [if_neg outside, if_neg outside,
          fieldCell_congr (agree.mono (inside field List.mem_cons_self (Nat.le_of_not_lt outside)))]
  unfold decodePayload
  rw [loop spec.fields inside]

/-- With every field inside the record, the field loop runs to its end. -/
theorem decodeFields_of_fits {payloadLen : ℕ} {fields : List FieldDesc}
    (inside : ∀ field ∈ fields, field.extent ≤ payloadLen) (be : Bool) (p : Bytes) :
    decodeFields be p payloadLen fields = some (fields.map (fieldCell be p)) := by
  induction fields with
  | nil => rfl
  | cons field fields ih =>
    rw [decodeFields, if_neg (Nat.not_lt.mpr (inside field List.mem_cons_self)),
      ih fun other member => inside other (List.mem_cons_of_mem _ member), Option.map_some,
      List.map_cons]

/-- With every field inside the record, decoding succeeds with one cell a field. -/
theorem decodePayload_of_fits {spec : FrameSpec} {payloadLen : ℕ} (nonempty : spec.fields ≠ [])
    (long : spec.payloadMin.toNat ≤ payloadLen)
    (inside : ∀ field ∈ spec.fields, field.extent ≤ payloadLen) (be : Bool) (p : Bytes) :
    decodePayload spec be p payloadLen = some (spec.fields.map (fieldCell be p)) := by
  rw [decodePayload, if_neg nonempty, if_neg (Nat.not_lt.mpr long), decodeFields_of_fits inside]

/-- An exact field table decodes every record of at least `payloadMin` bytes. -/
theorem FrameSpec.Exact.decodePayload {spec : FrameSpec} (exact : spec.Exact) {payloadLen : ℕ}
    (long : spec.payloadMin.toNat ≤ payloadLen) (be : Bool) (p : Bytes) :
    decodePayload spec be p payloadLen = some (spec.fields.map (fieldCell be p)) :=
  decodePayload_of_fits exact.nonempty long
    (fun _ member => Nat.le_trans (exact.fits member) long) be p

/-- **A decoded row** has the cell of every field, and every field lies inside the record. -/
theorem eq_of_decodePayload {spec : FrameSpec} {be : Bool} {p : Bytes} {payloadLen : ℕ}
    {row : List Cell} (decoded : decodePayload spec be p payloadLen = some row) :
    row = spec.fields.map (fieldCell be p) ∧ ∀ field ∈ spec.fields, field.extent ≤ payloadLen := by
  have loop : ∀ (fields : List FieldDesc) (row : List Cell),
      decodeFields be p payloadLen fields = some row →
        row = fields.map (fieldCell be p) ∧ ∀ field ∈ fields, field.extent ≤ payloadLen := by
    intro fields
    induction fields with
    | nil =>
      intro row decoded
      cases decoded
      exact ⟨rfl, fun _ member => absurd member List.not_mem_nil⟩
    | cons field fields ih =>
      intro row decoded
      unfold decodeFields at decoded
      split at decoded
      · cases decoded
      · rename_i inside
        obtain ⟨cells, later, rfl⟩ := Option.map_eq_some_iff.mp decoded
        obtain ⟨same, others⟩ := ih cells later
        rw [same]
        exact ⟨rfl, List.forall_mem_cons.mpr ⟨Nat.le_of_not_lt inside, others⟩⟩
  unfold EtherAdapter.decodePayload at decoded
  split at decoded
  · cases decoded
  · split at decoded
    · cases decoded
    · exact loop spec.fields row decoded

/-- A decoded record is no shorter than `payloadMin`. -/
theorem payloadMin_le_of_decodePayload {spec : FrameSpec} {be : Bool} {p : Bytes} {payloadLen : ℕ}
    {row : List Cell} (decoded : decodePayload spec be p payloadLen = some row) :
    spec.payloadMin.toNat ≤ payloadLen := by
  by_contra short
  rw [decodePayload, if_pos (Nat.lt_of_not_le short), ite_self] at decoded
  cases decoded

/-- A decoded row has one cell for each field of the device. -/
theorem length_of_decodePayload {spec : FrameSpec} {be : Bool} {p : Bytes} {payloadLen : ℕ}
    {row : List Cell} (decoded : decodePayload spec be p payloadLen = some row) :
    row.length = spec.fields.length := by
  rw [(eq_of_decodePayload decoded).1, List.length_map]

end EtherAdapter
