/-
**Integer values, from the wire to the column.**

* `leInt_stagedBytes` — what is staged for an integer field is its value, unless the field is
  unsigned, has eight bytes and holds `2^63` or more: the widened column is `BIGINT` then, and the
  value does not fit.
* `columns_loadAll` — the columns of a loaded device are the accepted rows of its protocol.
* **`writeBatch_integers`** — the same for any configuration, after any batches: every row of a
  batch is in a submission, and the column's bytes there read as the field's value exactly when that
  one case does not occur.
-/

import EtherAdapter.Codec.Integers
import EtherAdapter.Config.Naming

namespace EtherAdapter

open Grouping Memory

/-! ### Staged bytes -/

/-- The one case a column cannot hold: an unsigned field of eight bytes with the highest bit set. -/
def Overflows (be : Bool) (payload : Bytes) (field : FieldDesc) : Prop :=
  field.kind = .intUnsigned ∧ field.size = 8 ∧ 2 ^ 63 ≤ fieldValue be payload field

section Staged

variable (be : Bool) {payload : Bytes} {f : Column}

/-- A value in the range of the column is staged as it is. -/
theorem leInt_leBytes_of_fits {size : ℕ} (most : size ≤ 8) {v : BitVec 64}
    (low : -(256 ^ size : ℤ) ≤ 2 * v.toInt) (high : 2 * v.toInt < 256 ^ size) :
    leInt (leBytes size v) = v.toInt := by
  have whole : (256 : ℤ) ^ size = ((256 ^ size : ℕ) : ℤ) := (Nat.cast_pow 256 size).symm
  rw [whole] at low high
  rw [leInt_leBytes most]
  exact Int.bmod_eq_of_le_mul_two (by omega) (by omega)

/-- The widened column of an unsigned field. Only eight bytes are not widened. -/
theorem outSize_unsigned {field : FieldDesc} (kind : field.kind = .intUnsigned) :
    (field.size = 8 ∧ field.outSize = 8) ∨
      (field.size ≠ 8 ∧ field.outSize ≤ 8 ∧ 2 * 2 ^ (field.size.toNat * 8) ≤ 256 ^ field.outSize) := by
  rw [FieldDesc.outSize, kind]
  rcases field.size_cases with one | two | four | eight
  · have size : field.size = 1 := UInt8.toNat_inj.mp one
    rw [size]
    exact Or.inr (by decide)
  · have size : field.size = 2 := UInt8.toNat_inj.mp two
    rw [size]
    exact Or.inr (by decide)
  · have size : field.size = 4 := UInt8.toNat_inj.mp four
    rw [size]
    exact Or.inr (by decide)
  · have size : field.size = 8 := UInt8.toNat_inj.mp eight
    rw [size]
    exact Or.inl (by decide)

/-- A word whose number lies in the lower half of the column's range. -/
theorem leInt_leBytes_of_lt {size : ℕ} (most : size ≤ 8) {v : BitVec 64}
    (small : 2 * v.toNat < 256 ^ size) : leInt (leBytes size v) = v.toNat := by
  have top : (256 : ℕ) ^ size ≤ 2 ^ 64 := by
    rw [show 256 = 2 ^ 8 by rfl, ← Nat.pow_mul]
    exact Nat.pow_le_pow_right (by decide) (by omega)
  have value : v.toInt = v.toNat := by
    rw [BitVec.toInt_eq_toNat_cond, if_pos (by omega)]
  have whole : (256 : ℤ) ^ size = ((256 ^ size : ℕ) : ℤ) := (Nat.cast_pow 256 size).symm
  rw [leInt_leBytes_of_fits most, value]
  · rw [value, whole]
    omega
  · rw [value, whole]
    omega

/-- The staged bytes of a signed field. -/
theorem leInt_staged_signed (kind : f.kind = .intSigned)
    (inside : f.toFieldDesc.extent ≤ payload.length) :
    leInt (leBytes f.outSize (fieldCell be payload f.toFieldDesc).v) =
      fieldValue be payload f.toFieldDesc := by
  have plain : f.asDouble = false := by rw [f.asDouble_eq, kind]; rfl
  have value := fieldCell_signed be inside f.bits_ok plain kind
  have size : f.outSize = f.size.toNat := by rw [FieldDesc.outSize, kind]
  have sizes := f.size_cases
  have bounds := twosComplement_bounds (fieldBits_lt be inside)
  have denoted : fieldValue be payload f.toFieldDesc =
      twosComplement (fieldWidth f.toFieldDesc) (fieldBits be payload f.toFieldDesc) := by
    rw [fieldValue, kind]
  have wide : (2 : ℤ) ^ fieldWidth f.toFieldDesc ≤ 256 ^ f.size.toNat := by
    have narrow := (fieldWidth_le f.bits_ok).2
    calc (2 : ℤ) ^ fieldWidth f.toFieldDesc ≤ 2 ^ (f.size.toNat * 8) :=
          pow_le_pow_right₀ (by decide) narrow
      _ = 256 ^ f.size.toNat := by rw [Nat.mul_comm, pow_mul]; rfl
  rw [← denoted, ← value] at bounds
  rw [size, leInt_leBytes_of_fits (by omega) (by omega) (by omega), value]

/-- The staged bytes of an unsigned field, which is widened. -/
theorem leInt_staged_unsigned (kind : f.kind = .intUnsigned)
    (inside : f.toFieldDesc.extent ≤ payload.length) :
    leInt (leBytes f.outSize (fieldCell be payload f.toFieldDesc).v) =
        fieldValue be payload f.toFieldDesc ↔
      ¬ Overflows be payload f.toFieldDesc := by
  have plain : f.asDouble = false := by rw [f.asDouble_eq, kind]; rfl
  have value := fieldCell_unsigned be inside f.bits_ok plain kind
  have small : (fieldCell be payload f.toFieldDesc).v.toNat < 2 ^ (f.size.toNat * 8) := by
    have bits := fieldBits_lt be inside
    have denoted : fieldValue be payload f.toFieldDesc = fieldBits be payload f.toFieldDesc := by
      rw [fieldValue, kind]
    rw [denoted] at value
    exact Nat.lt_of_lt_of_le (by omega)
      (Nat.pow_le_pow_right (by decide) (fieldWidth_le f.bits_ok).2)
  rw [Overflows, ← value]
  rcases outSize_unsigned kind with ⟨eight, size⟩ | ⟨other, most, widened⟩
  · have below := (fieldCell be payload f.toFieldDesc).v.isLt
    have word := BitVec.toInt_eq_toNat_cond (fieldCell be payload f.toFieldDesc).v
    have staged : leInt (leBytes 8 (fieldCell be payload f.toFieldDesc).v) =
        (fieldCell be payload f.toFieldDesc).v.toInt := by
      refine leInt_leBytes_of_fits (Nat.le_refl 8) ?_ ?_
      · rw [word]
        split
        · omega
        · omega
      · rw [word]
        split
        · omega
        · omega
    rw [size, staged, word]
    simp only [kind, eight, true_and]
    split
    · omega
    · omega
  · have half : 2 * (fieldCell be payload f.toFieldDesc).v.toNat < 256 ^ f.outSize := by omega
    exact iff_of_true (leInt_leBytes_of_lt most half) fun overflow => other overflow.2.1

/-- The staged bytes of a BOOL field. -/
theorem leInt_staged_bool (kind : f.kind = .bool)
    (inside : f.toFieldDesc.extent ≤ payload.length) :
    leInt (leBytes f.outSize (fieldCell be payload f.toFieldDesc).v) =
      fieldValue be payload f.toFieldDesc := by
  have value := fieldCell_bool be kind inside
  have size : f.outSize = 1 := by rw [FieldDesc.outSize, kind]
  have range : fieldValue be payload f.toFieldDesc = 0 ∨
      fieldValue be payload f.toFieldDesc = 1 := by
    rw [fieldValue, kind]
    simp only
    split
    · exact Or.inl rfl
    · exact Or.inr rfl
  rw [size, leInt_leBytes_of_fits (by decide) (by omega) (by omega), value]

/-- **What is staged for an integer field is its value**, but for the one case a column cannot
hold. -/
theorem leInt_stagedBytes (integer : f.kind.isFloat = false)
    (inside : f.toFieldDesc.extent ≤ payload.length) :
    leInt (stagedBytes f (fieldCell be payload f.toFieldDesc)) =
        fieldValue be payload f.toFieldDesc ↔
      ¬ Overflows be payload f.toFieldDesc := by
  rw [stagedBytes_of_not_double (f.asDouble_eq.trans integer)]
  cases kind : f.kind with
  | bool =>
    refine iff_of_true (leInt_staged_bool be kind inside) fun overflow => ?_
    rw [Overflows, kind] at overflow
    cases overflow.1
  | intSigned =>
    refine iff_of_true (leInt_staged_signed be kind inside) fun overflow => ?_
    rw [Overflows, kind] at overflow
    cases overflow.1
  | intUnsigned => exact leInt_staged_unsigned be kind inside
  | float32 =>
    rw [kind] at integer
    cases integer
  | float64 =>
    rw [kind] at integer
    cases integer

end Staged

/-! ### The columns of a loaded device -/

section Loaded

variable (tables : Tables) (sorter : Sorter ℕ)

/-- The columns of a loaded device are those of its protocol. -/
theorem columns_of_mem_loadAll {dev : Device} (member : dev ∈ (tables.loadAll sorter).devices) :
    dev.columns = tables.specs.columns dev.dataProtoId := by
  have same := map_loadAll (fun d => (d.columns, d.dataProtoId)) (fun _ => rfl) tables sorter
  have held : (dev.columns, dev.dataProtoId) ∈
      tables.devicesLoaded.map fun d => (d.columns, d.dataProtoId) := by
    rw [← same]
    exact List.mem_map_of_mem member
  obtain ⟨loaded, kept, pair⟩ := List.mem_map.mp held
  rw [Tables.devicesLoaded, loadDevices_eq] at kept
  obtain ⟨k, inside, rfl⟩ := List.mem_mapIdx.mp kept
  obtain ⟨columns, proto⟩ := Prod.mk.inj pair
  rw [← columns, ← proto]
  rfl

/-- **The columns of a loaded device**: the accepted rows of its protocol. -/
theorem columns_loadAll {dev : Device} (member : dev ∈ (tables.loadAll sorter).devices)
    (positive : 0 < dev.dataProtoId) {k : ℕ} {row : FieldRow}
    (accepted : (acceptedRows dev.dataProtoId tables.fields)[k]? = some row) :
    ∃ f, row.column k = some f ∧ dev.columns[k]? = some f := by
  have loaded := columns_loadFields tables.fields (loadHeaders tables.headers) positive
    (columns_loadHeaders _ _)
  have entry := congrArg (fun list : List (Option Column) => list[k]?) loaded
  simp only [List.getElem?_map, List.getElem?_mapIdx, accepted, Option.map_some] at entry
  obtain ⟨f, found, same⟩ := Option.map_eq_some_iff.mp entry
  rw [columns_of_mem_loadAll tables sorter member]
  exact ⟨f, same.symm, found⟩

/-- The types other than FLOAT32 and FLOAT64. -/
theorem isFloat_of_code {row : FieldRow} {k : ℕ} {f : Column} (loaded : row.column k = some f)
    (code : row.fieldType.toInt32.toInt ≠ 3 ∧ row.fieldType.toInt32.toInt ≠ 4) :
    f.kind.isFloat = false := by
  unfold FieldRow.column at loaded
  split at loaded
  · cases loaded
  · rename_i kind size mapped
    cases loaded
    have same : ∀ field : FieldDesc, field.checkBits.kind = field.kind := by
      intro field
      rw [FieldDesc.checkBits]
      split
      · rfl
      · rfl
    show FieldKind.isFloat (FieldDesc.checkBits _).kind = false
    rw [same]
    unfold mapFieldType at mapped
    split at mapped
    case h_4 => exact absurd ‹_› code.1
    case h_5 => exact absurd ‹_› code.2
    all_goals cases mapped
    all_goals rfl

end Loaded

/-! ### From the wire to the column -/

/-- A submission covers a row. -/
def Submission.Covers (s : Submission) (r : ℕ) : Prop := s.done ≤ r ∧ r < s.done + s.rows

/-- The bytes of column `k` (`ts` is column 0) that a submission binds for row `r`. -/
def Submission.entry (s : Submission) (k r : ℕ) : Option Bytes :=
  (s.binds[k]?).map fun bind =>
    readAt s.data (bind.buffer + (r - s.done) * bind.stride) bind.stride

/-- The bytes bound for a row are the staged bytes of its cell. -/
theorem Submission.Stages.entry_eq {s : Submission} {dev : Device} {batch : RowBatch} {sink : Sink}
    (staged : s.Stages dev batch sink) {r : ℕ} (covers : s.Covers r) {k : ℕ} {f : Column}
    (column : dev.columns[k]? = some f) :
    s.entry (k + 1) r =
      some (stagedBytes f (batch.cells.getD (r * dev.columns.length + k) ⟨0, false⟩)) := by
  have bound : s.binds[k + 1]? =
      some ⟨f.bindType, sink.colBase.getD (k + 1) 0, f.outSize, s.rows⟩ := by
    rw [staged.binds, sinkBinds, List.getElem?_cons_succ, List.getElem?_mapIdx, column,
      Option.map_some]
  obtain ⟨from_, to_⟩ := covers
  have inside : r - s.done < s.rows := by omega
  rw [Submission.entry, bound, Option.map_some, staged.data,
    readAt_stageRows staged.laid batch staged.most column inside, Nat.add_sub_cancel' from_]

/-- The cell of a decoded row, at its place in the batch. -/
theorem getD_cells {dev : Device} {cells : List Cell} {be : Bool} {payload : Bytes} {size : ℕ}
    {row : List Cell} (decoded : decodePayload dev.spec be payload size = some row) {r : ℕ}
    (held : (cells.drop (r * dev.columns.length)).take dev.columns.length = row) {k : ℕ} {f : Column}
    (column : dev.columns[k]? = some f) :
    cells.getD (r * dev.columns.length + k) ⟨0, false⟩ = fieldCell be payload f.toFieldDesc ∧
      f.toFieldDesc.extent ≤ size := by
  obtain ⟨same, fits⟩ := eq_of_decodePayload decoded
  have inside : k < dev.columns.length := (List.getElem?_eq_some_iff.mp column).1
  have field : dev.spec.fields[k]? = some f.toFieldDesc := by
    rw [← dev.columns_eq, List.getElem?_map, column, Option.map_some]
  have entry := congrArg (fun list : List Cell => list[k]?) held
  simp only [List.getElem?_take, if_pos inside, List.getElem?_drop, same, List.getElem?_map, field,
    Option.map_some] at entry
  rw [List.getD_eq_getElem?_getD, entry, Option.getD_some]
  exact ⟨rfl, fits _ (List.mem_of_getElem? field)⟩

section WriteBatch

variable (tables : Tables) (sorter : Sorter ℕ)

/-- **Integer values, from the wire to the column.** For every accepted row of an integer or BOOL
type, every record, and any batches before: the row is submitted, and wherever it is, the bytes
bound for the column read as the field's value exactly when the value is not an unsigned one of
`2^63` or more. -/
theorem writeBatch_integers {batchRows : Int} {writer : EtherDBWriter}
    (reachable : WriterReachable batchRows (tables.loadAll sorter) writer)
    (answer : Submission → SdkAnswer) {i : ℕ} {dev : Device}
    (loaded : (tables.loadAll sorter).devices[i]? = some dev) (positive : 0 < dev.dataProtoId)
    (served : dev.connProto = connCustomData ∨ dev.connProto = connModbus)
    {k : ℕ} {fieldRow : FieldRow}
    (accepted : (acceptedRows dev.dataProtoId tables.fields)[k]? = some fieldRow)
    (integer : fieldRow.fieldType.toInt32.toInt ≠ 3 ∧ fieldRow.fieldType.toInt32.toInt ≠ 4)
    {be : Bool} {payload : Bytes} {row : List Cell}
    (decoded : decodePayload dev.spec be payload payload.length = some row)
    {batch : RowBatch} (own : batch.dev = some ((tables.loadAll sorter).devicePtr i)) {r : ℕ}
    (inside : r < batch.rowCount)
    (held : (batch.cells.drop (r * dev.columns.length)).take dev.columns.length = row) :
    ∃ f, fieldRow.column k = some f ∧
      (∃ s ∈ (writer.writeBatch (tables.loadAll sorter) answer batch).1, s.Covers r) ∧
      ∀ s ∈ (writer.writeBatch (tables.loadAll sorter) answer batch).1, s.Covers r →
        ∃ bytes, s.entry (k + 1) r = some bytes ∧ bytes.length = f.outSize ∧
          (leInt bytes = fieldValue be payload f.toFieldDesc ↔
            ¬ Overflows be payload f.toFieldDesc) := by
  obtain ⟨f, column, here⟩ :=
    columns_loadAll tables sorter (List.mem_of_getElem? loaded) positive accepted
  have device : deviceAt (tables.loadAll sorter).devices i = dev := deviceAt_of_getElem? loaded
  have columnar : (deviceAt (tables.loadAll sorter).devices i).Columnar := by
    rw [device]
    exact ⟨List.ne_nil_of_mem (List.mem_of_getElem? here), served⟩
  obtain ⟨staged, covered⟩ := reachable.writeBatch_stages answer own
    (List.getElem?_eq_some_iff.mp loaded).1 columnar
  obtain ⟨cell, fits⟩ := getD_cells decoded held here
  refine ⟨f, column, covered r (RowBatch.lt_rowCount_iff.mp inside), fun s member covers => ?_⟩
  obtain ⟨sink, stages⟩ := staged s member
  have stages' : s.Stages dev batch sink := device ▸ stages
  refine ⟨_, stages'.entry_eq covers here, length_stagedBytes f _, ?_⟩
  rw [cell]
  exact leInt_stagedBytes be (isFloat_of_code column integer) fits

end WriteBatch

/-! ### A counter -/

def deltaRow : FieldRow :=
  { dataProtoId := 1, fieldName := bytesOf "delta", fieldType := 1, byteOffset := 8 }

/-- A device with a UINT64 and an INT16 field. -/
def meterTables : Tables where
  fields :=
    [{ dataProtoId := 1, fieldName := bytesOf "total", fieldType := 10 }, deltaRow]
  devices :=
    [{ deviceId := bytesOf "meter", deviceIp := "10.0.0.1".toList
       connProto := "custom_data(1)".toList, dataProtoId := 1 }]

def meterDb : Config := meterTables.loadAll (Sorter.insertion ℕ)

def meter : Device := deviceAt meterDb.devices 0

/-- A full counter and a delta of -2, little-endian. -/
def meterPayload : Bytes := [255, 255, 255, 255, 255, 255, 255, 255, 254, 255]

def meterRow : List Cell := meter.spec.fields.map (fieldCell false meterPayload)

def meterBatch : RowBatch := ⟨some (meterDb.devicePtr 0), [0], meterRow⟩

/-- **The counter's value does not fit its column**: -1 is staged. -/
theorem writeBatch_integers_overflow :
    decodePayload meter.spec false meterPayload meterPayload.length = some meterRow ∧
      (((EtherDBWriter.start 1 meterDb).writeBatch meterDb (fun _ => .executed 1 0)
          meterBatch).1.map fun s => (s.entry 1 0).map leInt) = [some (-1)] ∧
      (meter.columns[0]?).map (fun f => fieldValue false meterPayload f.toFieldDesc) =
        some (2 ^ 64 - 1) := by
  decide

/-- The delta's value is staged as it is. -/
theorem writeBatch_integers_delta :
    ∃ f, deltaRow.column 1 = some f ∧
      ∃ s ∈ ((EtherDBWriter.start 1 meterDb).writeBatch meterDb (fun _ => .executed 1 0)
          meterBatch).1,
        ∃ bytes, s.entry 2 0 = some bytes ∧
          leInt bytes = fieldValue false meterPayload f.toFieldDesc := by
  have signed : (deltaRow.column 1).map (fun f => f.kind) = some .intSigned := by decide
  have loaded : meterDb.devices[0]? = some meter := rfl
  have accepted : (acceptedRows meter.dataProtoId meterTables.fields)[1]? = some deltaRow := rfl
  have decoded : decodePayload meter.spec false meterPayload meterPayload.length = some meterRow := by
    decide
  have own : meterBatch.dev = some (meterDb.devicePtr 0) := rfl
  obtain ⟨f, column, ⟨s, member, covers⟩, all⟩ :=
    writeBatch_integers meterTables (Sorter.insertion ℕ)
      (WriterReachable.start : WriterReachable 1 meterDb _) (fun _ => .executed 1 0) loaded
      (by decide) (Or.inl (by decide)) accepted (by decide) decoded own
      (show 0 < meterBatch.rowCount by decide) (by decide)
  obtain ⟨bytes, entry, _, value⟩ := all s member covers
  rw [column, Option.map_some, Option.some.injEq] at signed
  refine ⟨f, column, s, member, bytes, entry, value.mpr fun overflow => ?_⟩
  rw [Overflows, signed] at overflow
  cases overflow.1

end EtherAdapter
