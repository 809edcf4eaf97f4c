/-
**The extent of a field table** (`ConfigDB::loadFields`).

`payloadMin` is a running maximum of `byteOffset + size` in `uint32_t`. The offset is what
`readUInt32` makes of the column, so a negative one is a number close to `2 ^ 32`, and the sum may
wrap.

* `FrameSpec.payloadMin_le_extent` — wrapping only ever makes `payloadMin` too small.
* **`FrameSpec.payloadMin_eq_extent_iff`** — it is the true extent exactly if no field ends past
  `2 ^ 32`.
* **`payloadMin_loadFields_iff`** — the same of every loaded protocol, in terms of the rows of
  `data_proto_table`; then every payload of `payloadMin` bytes passes the field checks.
-/

import EtherAdapter.Model.Config

namespace EtherAdapter

/-! ### The running maximum -/

/-- The running maximum is the 32-bit end of one of the fields. -/
theorem payloadMinOf_mem (fields : List FieldDesc) :
    payloadMinOf fields = 0 ∨ ∃ field ∈ fields, payloadMinOf fields = field.wrappedEnd := by
  induction fields using List.reverseRecOn with
  | nil => exact Or.inl rfl
  | append_singleton fields last ih =>
    rw [payloadMinOf_concat]
    split
    · exact Or.inr ⟨last, List.mem_append_right _ List.mem_cons_self, rfl⟩
    · rcases ih with none | ⟨field, member, same⟩
      · exact Or.inl none
      · exact Or.inr ⟨field, List.mem_append_left _ member, same⟩

theorem FieldDesc.wrappedEnd_le_extent (field : FieldDesc) :
    field.wrappedEnd.toNat ≤ field.extent := by
  rcases field.wrappedEnd_eq with same | wraps
  · exact Nat.le_of_eq same
  · exact Nat.le_trans (Nat.le_of_lt field.wrappedEnd.toNat_lt) wraps

namespace FrameSpec

theorem payloadMin_le_extent (spec : FrameSpec) : spec.payloadMin.toNat ≤ spec.extent := by
  rw [spec.payloadMin_eq]
  rcases payloadMinOf_mem spec.fields with none | ⟨field, member, same⟩
  · rw [none]
    exact Nat.zero_le _
  · rw [same]
    exact Nat.le_trans field.wrappedEnd_le_extent (extent_le member)

theorem extent_le_iff (spec : FrameSpec) (bound : ℕ) :
    spec.extent ≤ bound ↔ ∀ field ∈ spec.fields, field.extent ≤ bound := by
  unfold extent
  generalize spec.fields = fields
  induction fields with
  | nil => exact ⟨fun _ _ member => absurd member List.not_mem_nil, fun _ => Nat.zero_le _⟩
  | cons field fields ih => rw [List.foldr_cons, Nat.max_le, ih, List.forall_mem_cons]

/-- **`payloadMin` is the extent exactly if no field ends past `2 ^ 32`.** -/
theorem payloadMin_eq_extent_iff (spec : FrameSpec) :
    spec.payloadMin.toNat = spec.extent ↔ ∀ field ∈ spec.fields, field.extent < 2 ^ 32 := by
  constructor
  · intro same field member
    refine Nat.lt_of_le_of_lt (extent_le member) ?_
    rw [← same]
    exact spec.payloadMin.toNat_lt
  · intro small
    refine Nat.le_antisymm spec.payloadMin_le_extent ((spec.extent_le_iff _).mpr ?_)
    intro field member
    rcases spec.extent_le_payloadMin member with inside | wraps
    · exact inside
    · exact absurd wraps (Nat.not_le.mpr (small field member))

end FrameSpec

/-! ### The rows behind the fields -/

/-- Where the field of a row ends, in unbounded numbers. -/
def FieldRow.dataEnd (row : FieldRow) : ℕ :=
  row.byteOffset.toNat +
    ((mapFieldType row.fieldType.toInt32.toInt).map fun (_, size) => size.toNat).getD 0

theorem FieldRow.extent_column {row : FieldRow} {index : ℕ} {column : Column}
    (loaded : row.column index = some column) : column.extent = row.dataEnd := by
  unfold FieldRow.column at loaded
  split at loaded
  · cases loaded
  · rename_i kind size mapped
    cases loaded
    have size : row.dataEnd = row.byteOffset.toNat + size.toNat := by
      rw [dataEnd, mapped, Option.map_some, Option.getD_some]
    rw [size]
    simp only [FieldDesc.extent, materializeField, FieldDesc.checkBits]
    split <;> rfl

/-- Only positive protocol ids are loaded. -/
theorem lookup_specs_of_nonpos (tables : Tables) {pid : Int32} (nonpos : pid ≤ 0) :
    tables.specs.lookup pid = none := by
  have headers : ∀ rows : List HeaderRow, (loadHeaders rows).lookup pid = none := by
    intro rows
    induction rows using List.reverseRecOn with
    | nil => rfl
    | append_singleton rows row ih =>
      rw [loadHeaders, List.foldl_append]
      show (loadHeader (loadHeaders rows) row).lookup pid = none
      rw [loadHeader]
      split
      · exact ih
      · rename_i positive
        have other : pid ≠ row.dataProtoId.toInt32 := fun same => positive (same ▸ nonpos)
        rwa [AList.lookup_insert_ne other]
  have fields : ∀ rows : List FieldRow,
      (loadFields (loadHeaders tables.headers) rows).lookup pid = none := by
    intro rows
    induction rows using List.reverseRecOn with
    | nil => exact headers tables.headers
    | append_singleton rows row ih =>
      rw [loadFields, List.foldl_append]
      show (loadField (loadFields (loadHeaders tables.headers) rows) row).lookup pid = none
      rw [loadField]
      split
      · exact ih
      · rename_i positive
        have other : pid ≠ row.dataProtoId.toInt32 := fun same => positive (same ▸ nonpos)
        simp only
        split
        · exact ih
        · rwa [AList.lookup_insert_ne other]
  exact fields tables.fields

/-- **The columns of a loaded protocol**: its accepted rows, in order. -/
theorem columns_of_specs {tables : Tables} {pid : Int32} {spec : ProtoSpec}
    (loaded : tables.specs.lookup pid = some spec) :
    spec.columns.map some =
      (acceptedRows pid tables.fields).mapIdx fun k row => row.column k := by
  have positive : 0 < pid := by
    refine Int32.not_le.mp fun nonpos => ?_
    rw [lookup_specs_of_nonpos tables nonpos] at loaded
    cases loaded
  have columns : tables.specs.columns pid = spec.columns := by
    rw [Specs.columns, loaded, Option.getD_some]
  rw [← columns]
  exact columns_loadFields tables.fields (loadHeaders tables.headers) positive
    (columns_loadHeaders tables.headers pid)

/-- The fields of a protocol end where its accepted rows do. -/
theorem extents_of_specs {tables : Tables} {pid : Int32} {spec : ProtoSpec}
    (loaded : tables.specs.lookup pid = some spec) :
    spec.fields.map FieldDesc.extent = (acceptedRows pid tables.fields).map FieldRow.dataEnd := by
  rw [← spec.columns_eq, List.map_map]
  refine List.ext_getElem? fun k => ?_
  have here := congrArg (fun list => list[k]?) (columns_of_specs loaded)
  simp only [List.getElem?_map, List.getElem?_mapIdx] at here ⊢
  cases column : spec.columns[k]? with
  | none =>
    rw [column, Option.map_none, eq_comm, Option.map_eq_none_iff] at here
    rw [here]
    rfl
  | some found =>
    rw [column, Option.map_some, eq_comm, Option.map_eq_some_iff] at here
    obtain ⟨row, entry, same⟩ := here
    rw [entry]
    exact congrArg some (FieldRow.extent_column same)

/-- **`payloadMin` is the true extent of a loaded field table, and a payload of that many bytes
passes every field check, exactly if no accepted row ends past `2 ^ 32`.** -/
theorem payloadMin_loadFields_iff (tables : Tables) (pid : Int32) {spec : ProtoSpec}
    (loaded : tables.specs.lookup pid = some spec) :
    (spec.payloadMin.toNat = spec.extent ∧
        ∀ be payload payloadLen, spec.payloadMin.toNat ≤ payloadLen →
          (decodeFields be payload payloadLen spec.fields).isSome) ↔
      ∀ row ∈ acceptedRows pid tables.fields, row.dataEnd < 2 ^ 32 := by
  have ends : (∀ field ∈ spec.fields, field.extent < 2 ^ 32) ↔
      ∀ row ∈ acceptedRows pid tables.fields, row.dataEnd < 2 ^ 32 := by
    rw [← List.forall_mem_map (f := FieldDesc.extent) (P := fun size => size < 2 ^ 32),
      extents_of_specs loaded, List.forall_mem_map]
  rw [← ends, ← spec.payloadMin_eq_extent_iff]
  refine ⟨And.left, fun same => ⟨same, fun be payload payloadLen long => ?_⟩⟩
  have inside := (spec.extent_le_iff payloadLen).mp (same ▸ long)
  rw [decodeFields_of_fits inside]
  rfl

/-! ### One field table -/

/-- A protocol with one 16-bit field at the given offset. -/
def offsetTables (byteOffset : UInt32) : Tables where
  fields := [{ dataProtoId := 1, fieldName := bytesOf "t", fieldType := 1, byteOffset }]

/-- What `loadFields` makes of it. -/
def offsetSpec (byteOffset : UInt32) : ProtoSpec :=
  ((offsetTables byteOffset).specs.lookup 1).getD ProtoSpec.empty

/-- A `byte_offset` of -1 is read as `2 ^ 32 - 1`: the field ends far outside every payload, and
`payloadMin` is 1. -/
theorem payloadMin_wraps :
    (offsetTables (UInt32.ofInt (-1))).specs.lookup 1 = some (offsetSpec (UInt32.ofInt (-1))) ∧
      (offsetSpec (UInt32.ofInt (-1))).payloadMin.toNat = 1 ∧
      (offsetSpec (UInt32.ofInt (-1))).extent = 2 ^ 32 + 1 ∧
      decodeFields false [7] 1 (offsetSpec (UInt32.ofInt (-1))).fields = none := by
  decide +kernel

theorem payloadMin_loadFields_offset :
    (offsetSpec 6).payloadMin.toNat = (offsetSpec 6).extent ∧
      ∀ be payload payloadLen, (offsetSpec 6).payloadMin.toNat ≤ payloadLen →
        (decodeFields be payload payloadLen (offsetSpec 6).fields).isSome := by
  have loaded : (offsetTables 6).specs.lookup 1 = some (offsetSpec 6) := by decide +kernel
  exact (payloadMin_loadFields_iff (offsetTables 6) 1 loaded).mpr (by decide +kernel)

end EtherAdapter
