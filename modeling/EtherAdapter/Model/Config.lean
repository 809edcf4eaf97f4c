/-
**Loading the configuration** (`ConfigDB.cpp`: `makeIdentifier` … `loadDevices`).

A table row holds what the row helpers (`readInt64`, `readUInt32`, `readText`) return for its
columns; the casts behind them are part of the model. Names are byte strings, since `makeIdentifier`
takes them apart byte by byte; an ip is only compared, so it stays a `Text`. Columns that are only
logged (`unit`, `precision`, `factor`, `device_name`) are left out.

* `Column` — a field together with its column name; that a kept bit range lies inside the field and
  that only floating-point fields are read as doubles are fields of the structure.
* `ProtoSpec` — a frame description with its columns; `pushColumn` keeps `payloadMin`.
* **`columns_loadFields`** — the columns of a protocol after `loadFields`: its accepted rows, in
  order, each with its own index.
* **`loadDevices_eq`** — the devices: the rows with an id and an ip, in order.
-/

import Mathlib.Data.List.AList
import Mathlib.Data.List.Induction
import EtherAdapter.Model.Ingest

namespace EtherAdapter

/-! ### Identifiers -/

/-- A literal of the source, as bytes. -/
def bytesOf (text : String) : Bytes := text.toList.map Char.toUInt8

/-- `std::to_string` of a number that is not negative. -/
def decimal (n : ℕ) : Bytes := (Nat.toDigits 10 n).map Char.toUInt8

def isDigitByte (c : UInt8) : Bool := 48 ≤ c && c ≤ 57

/-- The bytes an identifier keeps. -/
def isWordByte (c : UInt8) : Bool :=
  (97 ≤ c && c ≤ 122) || (65 ≤ c && c ≤ 90) || isDigitByte c || c == 95

def wordByte (c : UInt8) : UInt8 := if isWordByte c then c else 95

/-- A safe SQL identifier out of a raw configuration string. -/
def makeIdentifier (raw fallback : Bytes) : Bytes :=
  match raw.map wordByte with
  | [] => fallback
  | first :: rest => if isDigitByte first then 95 :: first :: rest else first :: rest

/-! ### Fields -/

/-- `EtDBStmt::BindType`. -/
inductive BindType where
  | timestamp
  | bool
  | tinyInt
  | smallInt
  | int
  | bigInt
  | float
  | double
deriving DecidableEq, Repr

/-- The wire type codes of `data_proto_table.field_type`. -/
def mapFieldType : Int → Option (FieldKind × UInt8)
  | 0 => some (.bool, 1)
  | 1 => some (.intSigned, 2)
  | 2 => some (.intSigned, 4)
  | 3 => some (.float32, 4)
  | 4 => some (.float64, 8)
  | 5 => some (.intSigned, 1)
  | 6 => some (.intUnsigned, 1)
  | 7 => some (.intUnsigned, 2)
  | 8 => some (.intUnsigned, 4)
  | 9 => some (.intSigned, 8)
  | 10 => some (.intUnsigned, 8)
  | _ => none

theorem mapFieldType_hasSize {code : Int} {kind : FieldKind} {size : UInt8}
    (mapped : mapFieldType code = some (kind, size)) : kind.hasSize size = true := by
  unfold mapFieldType at mapped
  split at mapped <;> cases mapped <;> rfl

def FieldKind.isFloat : FieldKind → Bool
  | .float32 | .float64 => true
  | _ => false

/-- The stored bytes of a value, the parameter binding and the column type, as `materializeField`
chooses them. Unsigned integers are widened to the next signed type. -/
def FieldDesc.outSize (field : FieldDesc) : ℕ :=
  match field.kind with
  | .bool => 1
  | .float32 => 4
  | .float64 => 8
  | .intSigned => field.size.toNat
  | .intUnsigned => if field.size = 1 then 2 else if field.size = 2 then 4 else 8

def FieldDesc.bindType (field : FieldDesc) : BindType :=
  match field.kind with
  | .bool => .bool
  | .float32 => .float
  | .float64 => .double
  | .intSigned =>
    if field.size = 1 then .tinyInt else if field.size = 2 then .smallInt
    else if field.size = 4 then .int else .bigInt
  | .intUnsigned => if field.size = 1 then .smallInt else if field.size = 2 then .int else .bigInt

def FieldDesc.colType (field : FieldDesc) : Bytes :=
  match field.bindType with
  | .bool => bytesOf "BOOL"
  | .float => bytesOf "FLOAT"
  | .double => bytesOf "DOUBLE"
  | .tinyInt => bytesOf "TINYINT"
  | .smallInt => bytesOf "SMALLINT"
  | .int => bytesOf "INT"
  | .bigInt => bytesOf "BIGINT"
  | .timestamp => bytesOf "TIMESTAMP"

/-- A bit range that exceeds the field is switched off. -/
def FieldDesc.checkBits (field : FieldDesc) : FieldDesc :=
  if 0 < field.bitLen ∧ field.size.toNat * 8 < field.bitOffset.toNat + field.bitLen.toNat then
    { field with bitOffset := 0, bitLen := 0 }
  else field

/-- **A loaded field**: its decoding rule and its column name. -/
structure Column extends FieldDesc where
  name : Bytes
  bits_ok : bitLen = 0 ∨ bitOffset.toNat + bitLen.toNat ≤ size.toNat * 8
  asDouble_eq : asDouble = kind.isFloat
deriving DecidableEq, Repr

theorem FieldDesc.checkBits_ok (field : FieldDesc) :
    field.checkBits.bitLen = 0 ∨
      field.checkBits.bitOffset.toNat + field.checkBits.bitLen.toNat ≤
        field.checkBits.size.toNat * 8 := by
  unfold checkBits
  split
  · exact Or.inl rfl
  · rename_i inside
    by_cases whole : field.bitLen = 0
    · exact Or.inl whole
    · refine Or.inr (Nat.le_of_not_lt fun wide => inside ⟨?_, wide⟩)
      exact UInt8.pos_iff_ne_zero.mpr whole

/-- The column name, with its fallback, and how the value is read. -/
def materializeField (field : FieldDesc)
    (bits_ok : field.bitLen = 0 ∨
      field.bitOffset.toNat + field.bitLen.toNat ≤ field.size.toNat * 8)
    (name : Bytes) (index : ℕ) : Column :=
  { field with
    asDouble := field.kind.isFloat
    name := makeIdentifier name (bytesOf "f" ++ decimal index)
    bits_ok := bits_ok
    asDouble_eq := rfl }

/-! ### Rows -/

/-- The columns of a modbus read request, where the schema has them. -/
structure ModbusColumns where
  slaveAddr : Int64
  funCode : Int64
  startAddr : Int64
  addrNum : Int64
deriving DecidableEq, Repr

/-- A `data_header_table` row. -/
structure HeaderRow where
  dataProtoId : Int64
  frameType : Int64 := 0
  frameLen : Int64 := 0
  startFlag : UInt32 := 0
  endFlag : UInt32 := 0
  endian : Int64 := 0
  modbus : Option ModbusColumns := none
deriving DecidableEq, Repr

/-- A `data_proto_table` row. -/
structure FieldRow where
  dataProtoId : Int64
  fieldName : Bytes
  fieldType : Int64
  byteOffset : UInt32 := 0
  bitOffset : UInt32 := 0
  bitLen : UInt32 := 0
deriving DecidableEq, Repr

/-- A `device_table` row. -/
structure DeviceRow where
  deviceId : Bytes
  deviceIp : Text
  devicePort : UInt32 := 0
  connProto : Text := []
  localServerPort : UInt32 := 0
  dataProtoId : Int64 := 0
  endian : Int64 := 0
deriving DecidableEq, Repr

/-- The configuration database, each table in the order its rows are delivered. -/
structure Tables where
  headers : List HeaderRow := []
  fields : List FieldRow := []
  devices : List DeviceRow := []
deriving DecidableEq, Repr

/-- The field of a row; `none` when its type is unknown. -/
def FieldRow.column (row : FieldRow) (index : ℕ) : Option Column :=
  match mapped : mapFieldType row.fieldType.toInt32.toInt with
  | none => none
  | some (kind, size) =>
    let field : FieldDesc :=
      { kind := kind, size := size, byteOffset := row.byteOffset
        bitOffset := row.bitOffset.toUInt8, bitLen := row.bitLen.toUInt8
        size_ok := mapFieldType_hasSize mapped }
    some (materializeField field.checkBits field.checkBits_ok row.fieldName index)

/-! ### Protocols -/

/-- **A loaded protocol**: the frame description and its columns. -/
structure ProtoSpec extends FrameSpec where
  columns : List Column
  columns_eq : columns.map Column.toFieldDesc = fields
deriving DecidableEq, Repr

theorem payloadMinOf_nil : 0 = payloadMinOf [] := rfl

/-- `FrameSpec()`. -/
def ProtoSpec.empty : ProtoSpec where
  payloadMin := 0
  fields := []
  frameLen_lt := FrameSpec.noFrameLen_lt
  payloadMin_eq := payloadMinOf_nil
  columns := []
  columns_eq := rfl

theorem payloadMinOf_concat (fields : List FieldDesc) (field : FieldDesc) :
    payloadMinOf (fields ++ [field]) =
      if field.wrappedEnd > payloadMinOf fields then field.wrappedEnd else payloadMinOf fields := by
  rw [payloadMinOf, List.foldl_append]
  rfl

/-- `spec.fields.push_back(f)`, with the running maximum. -/
def ProtoSpec.pushColumn (spec : ProtoSpec) (column : Column) : ProtoSpec :=
  { spec with
    fields := spec.fields ++ [column.toFieldDesc]
    payloadMin :=
      if column.wrappedEnd > spec.payloadMin then column.wrappedEnd else spec.payloadMin
    payloadMin_eq := by rw [payloadMinOf_concat, ← spec.payloadMin_eq]
    columns := spec.columns ++ [column]
    columns_eq := by rw [List.map_append, spec.columns_eq, List.map_singleton] }

/-- `_specs`. -/
abbrev Specs := AList fun _ : Int32 => ProtoSpec

/-- One row of `loadHeaders`; a later row for the same protocol replaces an earlier one. -/
def loadHeader (specs : Specs) (row : HeaderRow) : Specs :=
  let pid := row.dataProtoId.toInt32
  if pid ≤ 0 then specs
  else
    specs.insert pid
      { ProtoSpec.empty with
        frameType := row.frameType.toInt32.toInt
        frameLen := row.frameLen.toInt32.toInt
        startFlag := row.startFlag.toUInt8
        endFlag := row.endFlag.toUInt8
        endian := row.endian.toInt32.toInt
        slaveAddr := (row.modbus.map fun modbus => modbus.slaveAddr.toInt32.toInt).getD 0
        funCode := (row.modbus.map fun modbus => modbus.funCode.toInt32.toInt).getD 0
        startAddr := (row.modbus.map fun modbus => modbus.startAddr.toInt32.toInt).getD (-1)
        addrNum := (row.modbus.map fun modbus => modbus.addrNum.toInt32.toInt).getD 0
        frameLen_lt := Int32.toInt_lt _ }

def loadHeaders (rows : List HeaderRow) : Specs := rows.foldl loadHeader ∅

/-- One row of `loadFields`; a missing header row gives the default frame description. -/
def loadField (specs : Specs) (row : FieldRow) : Specs :=
  let pid := row.dataProtoId.toInt32
  if pid ≤ 0 then specs
  else
    let spec := (specs.lookup pid).getD ProtoSpec.empty
    match row.column spec.columns.length with
    | none => specs
    | some column => specs.insert pid (spec.pushColumn column)

def loadFields (specs : Specs) (rows : List FieldRow) : Specs := rows.foldl loadField specs

/-! ### Devices -/

def isSpaceChar (c : Char) : Bool :=
  c = ' ' || c = '\t' || c = '\n' || c = '\x0b' || c = '\x0c' || c = '\r'

/-- The digits at the front of a text. -/
def leadingDigits (text : Text) : ℕ :=
  (text.takeWhile Char.isDigit).foldl (fun n c => n * 10 + (c.toNat - 48)) 0

/-- `std::atoi`: `strtol`, which saturates, cut to an `int`. -/
def atoi (text : Text) : Int :=
  match text.dropWhile isSpaceChar with
  | '-' :: digits => (Int64.ofInt (max (-2 ^ 63) (-(leadingDigits digits : Int)))).toInt32.toInt
  | '+' :: digits => (Int64.ofInt (min (2 ^ 63 - 1) (leadingDigits digits : Int))).toInt32.toInt
  | digits => (Int64.ofInt (min (2 ^ 63 - 1) (leadingDigits digits : Int))).toInt32.toInt

/-- What stands between the first `(` and the next `)`, if anything does. -/
def parenthesised (text : Text) : Option Text :=
  let inside := (text.dropWhile (· ≠ '(')).tail
  if ')' ∈ inside ∧ inside.head? ≠ some ')' then some (inside.takeWhile (· ≠ ')')) else none

/-- A text that starts with a digit, as a number. -/
def leadingNumber : Text → Int
  | [] => 0
  | c :: rest => if c.isDigit then atoi (c :: rest) else 0

/-- `"custom_data(1)"`, `"modbus (2)"` or `"4"` as a protocol number, 0 when unknown. -/
def parseConnProto (text : Text) : Int :=
  match (parenthesised text).map atoi with
  | some v => if 0 < v then v else leadingNumber text
  | none => leadingNumber text

/-- **A loaded device**: the device with its table name, its endpoint and its columns, and the
routing `rebuildIndexes` fills in (`group` is an index into the groups). -/
structure Device extends DeviceDesc where
  deviceId : Bytes
  ip : Text
  devicePort : UInt16
  localServerPort : UInt16
  dataProtoId : Int32
  columns : List Column
  columns_eq : columns.map Column.toFieldDesc = spec.fields
  group : Option ℕ := none
  eventType : Int32 := 0
deriving DecidableEq, Repr

/-- A row without an id or without an ip is an annotation. -/
def DeviceRow.isDevice (row : DeviceRow) : Bool := row.deviceId ≠ [] ∧ row.deviceIp ≠ []

/-- The device of a row; an unknown protocol leaves the default frame description. -/
def DeviceRow.device (row : DeviceRow) (specs : Specs) (index : ℕ) : Device :=
  let spec := (specs.lookup row.dataProtoId.toInt32).getD ProtoSpec.empty
  let connProto := parseConnProto row.connProto
  { connProto := if connProto = 0 then connCustomData else connProto
    endian := row.endian.toInt32.toInt
    spec := spec.toFrameSpec
    deviceId := makeIdentifier row.deviceId (bytesOf "device_" ++ decimal (index + 1))
    ip := row.deviceIp
    devicePort := row.devicePort.toUInt16
    localServerPort := row.localServerPort.toUInt16
    dataProtoId := row.dataProtoId.toInt32
    columns := spec.columns
    columns_eq := spec.columns_eq }

def loadDevice (specs : Specs) (devices : List Device) (row : DeviceRow) : List Device :=
  if row.isDevice then devices ++ [row.device specs devices.length] else devices

def loadDevices (specs : Specs) (rows : List DeviceRow) : List Device :=
  rows.foldl (loadDevice specs) []

/-- The specs and the devices of `loadAll`, before `rebuildIndexes`. -/
def Tables.specs (tables : Tables) : Specs := loadFields (loadHeaders tables.headers) tables.fields

def Tables.devicesLoaded (tables : Tables) : List Device :=
  loadDevices tables.specs tables.devices

/-! ### What is loaded -/

/-- `loadFields` adds the row's field to this protocol. -/
def FieldRow.accepts (row : FieldRow) (pid : Int32) : Bool :=
  row.dataProtoId.toInt32 = pid ∧ (mapFieldType row.fieldType.toInt32.toInt).isSome

def acceptedRows (pid : Int32) (rows : List FieldRow) : List FieldRow :=
  rows.filter fun row => row.accepts pid

/-- The columns of a protocol, none where it is unknown. -/
def Specs.columns (specs : Specs) (pid : Int32) : List Column :=
  ((specs.lookup pid).getD ProtoSpec.empty).columns

/-- A row is refused for its type only. -/
theorem FieldRow.column_isSome (row : FieldRow) (index : ℕ) :
    (row.column index).isSome = (mapFieldType row.fieldType.toInt32.toInt).isSome := by
  unfold column
  split
  · rename_i mapped
    exact (congrArg Option.isSome mapped).symm
  · rename_i mapped
    exact (congrArg Option.isSome mapped).symm

/-- One row adds its column to its own protocol, and to no other. -/
theorem columns_loadField (specs : Specs) (row : FieldRow) {pid : Int32} (positive : 0 < pid) :
    ((loadField specs row).columns pid).map some =
      if row.accepts pid then (specs.columns pid).map some ++ [row.column (specs.columns pid).length]
      else (specs.columns pid).map some := by
  by_cases own : row.dataProtoId.toInt32 = pid
  · have typed := row.column_isSome (specs.columns pid).length
    simp only [FieldRow.accepts, own, true_and, ← typed, Bool.decide_eq_true]
    rw [loadField, own, if_neg (Int32.not_le.mpr positive)]
    obtain loaded | ⟨column, loaded⟩ := (row.column (specs.columns pid).length).eq_none_or_eq_some
    · rw [Specs.columns] at loaded
      simp only [Specs.columns, loaded, Option.isSome_none, Bool.false_eq_true, if_false]
    · rw [Specs.columns] at loaded
      simp only [Specs.columns, loaded, AList.lookup_insert, Option.getD_some,
        ProtoSpec.pushColumn, List.map_append, List.map_singleton, Option.isSome_some, if_true]
  · simp only [FieldRow.accepts, own, false_and, decide_false, Bool.false_eq_true, if_false]
    rw [loadField]
    split
    · rfl
    · simp only
      split
      · rfl
      · rw [Specs.columns, AList.lookup_insert_ne (Ne.symm own), Specs.columns]

/-- **The columns of a protocol**: its accepted rows, in order, each with its own index. -/
theorem columns_loadFields (rows : List FieldRow) (specs : Specs) {pid : Int32}
    (positive : 0 < pid) (fresh : specs.columns pid = []) :
    ((loadFields specs rows).columns pid).map some =
      (acceptedRows pid rows).mapIdx fun k row => row.column k := by
  induction rows using List.reverseRecOn with
  | nil => exact congrArg (List.map some) fresh
  | append_singleton rows row ih =>
    have last : loadFields specs (rows ++ [row]) = loadField (loadFields specs rows) row := by
      rw [loadFields, List.foldl_append]
      rfl
    have size : ((loadFields specs rows).columns pid).length = (acceptedRows pid rows).length := by
      have lengths := congrArg List.length ih
      rwa [List.length_map, List.length_mapIdx] at lengths
    have filtered : acceptedRows pid (rows ++ [row]) =
        acceptedRows pid rows ++ bif row.accepts pid then [row] else [] := by
      rw [acceptedRows, List.filter_append, List.filter_singleton]
      rfl
    rw [last, columns_loadField _ row positive, ih, size, filtered]
    cases row.accepts pid with
    | false => rw [cond_false, List.append_nil, if_neg Bool.false_ne_true]
    | true => rw [cond_true, if_pos rfl, List.mapIdx_concat]

/-- Headers bring no columns, and no protocol that is not positive. -/
theorem columns_loadHeaders (rows : List HeaderRow) (pid : Int32) :
    (loadHeaders rows).columns pid = [] := by
  induction rows using List.reverseRecOn with
  | nil => rfl
  | append_singleton rows row ih =>
    rw [loadHeaders, List.foldl_append]
    show (loadHeader (loadHeaders rows) row).columns pid = []
    rw [loadHeader]
    split
    · exact ih
    · rw [Specs.columns]
      by_cases own : pid = row.dataProtoId.toInt32
      · rw [own, AList.lookup_insert]
        rfl
      · rw [AList.lookup_insert_ne own]
        exact ih

/-- **The devices**: the rows with an id and an ip, in order. -/
theorem loadDevices_eq (specs : Specs) (rows : List DeviceRow) :
    loadDevices specs rows =
      (rows.filter DeviceRow.isDevice).mapIdx fun k row => row.device specs k := by
  induction rows using List.reverseRecOn with
  | nil => rfl
  | append_singleton rows row ih =>
    have last : loadDevices specs (rows ++ [row]) = loadDevice specs (loadDevices specs rows) row := by
      rw [loadDevices, List.foldl_append]
      rfl
    rw [last, loadDevice, ih, List.filter_append, List.filter_singleton, List.length_mapIdx]
    cases row.isDevice with
    | false => rw [cond_false, List.append_nil, if_neg Bool.false_ne_true]
    | true => rw [cond_true, if_pos rfl, List.mapIdx_concat]

end EtherAdapter
