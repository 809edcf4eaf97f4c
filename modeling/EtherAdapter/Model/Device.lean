/-
**The runtime device and protocol model** (`DeviceModel.h`).

The configuration tables become `FieldDesc`, `FrameSpec`, `DeviceDesc` and `DeviceGroup`. Nothing
writes to them while the adapter runs, so a pointer to one is its address together with the value
behind it (`DevicePtr`, `GroupPtr`): equal pointers are equal addresses.

Two facts hold of every configuration `ConfigDB::loadFields` can build, and the decoder relies on
both, so they are fields of the structures:

* a field's width is one its kind can have (`FieldDesc.size_ok`, from `mapFieldType`);
* `payloadMin` is the running maximum of `byteOffset + size` over the fields, **in 32-bit
  arithmetic** (`FrameSpec.payloadMin_eq`). It is the true extent of the field table only when no
  sum wraps (`FrameSpec.Exact`).
-/

import Mathlib.Algebra.Order.Ring.Nat
import Mathlib.Data.List.Basic

namespace EtherAdapter

/-- Raw bytes, as received. -/
abbrev Bytes := List UInt8

/-- A size, passed as an `int`: cut to 32 bits, with a sign. -/
def intSize (size : ℕ) : Int := (Int32.ofNat size).toInt

theorem intSize_of_lt {size : ℕ} (small : size < 2 ^ 31) : intSize size = size :=
  Int32.toInt_ofNat_of_lt small

theorem toNat_intSize_le (size : ℕ) : (intSize size).toNat ≤ size := by
  rw [intSize, Int32.toInt_ofNat', Int.bmod_def, show Int32.size = 2 ^ 32 from rfl]
  split <;> omega

/-- **A size survives exactly if it is less than `2 ^ 31`.** -/
theorem toNat_intSize_eq_iff {size : ℕ} : (intSize size).toNat = size ↔ size < 2 ^ 31 := by
  constructor
  · intro whole
    rw [intSize, Int32.toInt_ofNat', Int.bmod_def, show Int32.size = 2 ^ 32 from rfl] at whole
    split at whole <;> omega
  · intro small
    rw [intSize_of_lt small, Int.toNat_natCast]

/-! ### Fields -/

/-- Raw field kinds, from `data_proto_table.field_type`. -/
inductive FieldKind where
  | intSigned
  | intUnsigned
  | float32
  | float64
  | bool
deriving DecidableEq, Repr

/-- The raw byte widths `mapFieldType` gives to a kind. -/
def FieldKind.hasSize : FieldKind → UInt8 → Bool
  | .bool, size => size == 1
  | .float32, size => size == 4
  | .float64, size => size == 8
  | .intSigned, size => size == 1 || size == 2 || size == 4 || size == 8
  | .intUnsigned, size => size == 1 || size == 2 || size == 4 || size == 8

/-- One parsed value slot. `v` is the 64-bit union of the source: an `int64_t` in two's complement,
or the bits of a `double`. -/
structure Cell where
  v : BitVec 64
  isNull : Bool := false
deriving DecidableEq, Repr

/-- One sensor value definition (`data_proto_table` row). -/
structure FieldDesc where
  kind : FieldKind := .intSigned
  size : UInt8
  byteOffset : UInt32 := 0
  bitOffset : UInt8 := 0
  bitLen : UInt8 := 0
  asDouble : Bool := false
  size_ok : kind.hasSize size = true := by decide
deriving DecidableEq, Repr

/-- `byteOffset + size` as `loadFields` computes it, in `uint32_t`. -/
def FieldDesc.wrappedEnd (field : FieldDesc) : UInt32 := field.byteOffset + field.size.toUInt32

/-- Where the field really ends. -/
def FieldDesc.extent (field : FieldDesc) : ℕ := field.byteOffset.toNat + field.size.toNat

/-- The running maximum `loadFields` keeps in `payloadMin`. -/
def payloadMinOf (fields : List FieldDesc) : UInt32 :=
  fields.foldl (fun highest field =>
    if field.wrappedEnd > highest then field.wrappedEnd else highest) 0

/-! ### Frames -/

/-- Frame framing description (`data_header_table` row). `int` columns are `Int`; only `frameLen`
depends on being one. -/
structure FrameSpec where
  frameType : Int := 0
  frameLen : Int := 0
  startFlag : UInt8 := 0
  endFlag : UInt8 := 0
  endian : Int := 0
  payloadMin : UInt32
  slaveAddr : Int := 0
  funCode : Int := 0
  startAddr : Int := -1
  addrNum : Int := 0
  fields : List FieldDesc
  frameLen_lt : frameLen < 2 ^ 31 := by decide
  payloadMin_eq : payloadMin = payloadMinOf fields := by decide
deriving DecidableEq, Repr

namespace FrameSpec

/-- Modbus rows have no frame length. -/
theorem noFrameLen_lt : (0 : Int) < 2 ^ 31 := by decide

def hasModbusRequest (spec : FrameSpec) : Bool := 0 ≤ spec.startAddr ∧ 0 < spec.addrNum

def isModbusHeaderLen (spec : FrameSpec) : Bool :=
  spec.frameType = 0 ∨ spec.frameType = 2 ∨ spec.frameType = 7 ∨ spec.frameType = 9

/-- The true extent of the field table: `max(byteOffset + size)`, unbounded. -/
def extent (spec : FrameSpec) : ℕ := spec.fields.foldr (fun field high => max field.extent high) 0

/-- `payloadMin` is the true extent of a non-empty field table. -/
structure Exact (spec : FrameSpec) : Prop where
  nonempty : spec.fields ≠ []
  payloadMin : spec.payloadMin.toNat = spec.extent

end FrameSpec

/-! ### Devices and peer groups -/

/-- Connection protocol codes, from `device_table.conn_proto`. -/
def connCustomData : Int := 1

def connModbus : Int := 2

def connHttp : Int := 3

/-- One device (`device_table` row) with its resolved frame protocol. -/
structure DeviceDesc where
  connProto : Int := connCustomData
  endian : Int := 0
  spec : FrameSpec
  isEvent : Bool := false
  immediateFlush : Bool := false
deriving DecidableEq, Repr

namespace DeviceDesc

def fieldCount (device : DeviceDesc) : ℕ := device.spec.fields.length

/-- The byte order in force: the device's own setting, or else its header row's. -/
def effectiveEndian (device : DeviceDesc) : Int :=
  if device.endian ≠ 0 then device.endian else device.spec.endian

/-- Byte order of custom_data payloads: little unless configured otherwise. -/
def bigEndian (device : DeviceDesc) : Bool := device.effectiveEndian ≠ 0

/-- Byte order of Modbus registers: big unless configured as 1. -/
def modbusBigEndian (device : DeviceDesc) : Bool := device.effectiveEndian ≠ 1

end DeviceDesc

/-- `const DeviceDesc*`: an address, and the device behind it. -/
structure DevicePtr where
  addr : ℕ
  desc : DeviceDesc
deriving DecidableEq, Repr

/-- All `device_table` rows sharing one `(ip, device_port)` endpoint. -/
structure DeviceGroup where
  members : List DevicePtr
deriving DecidableEq, Repr

namespace DeviceGroup

def primary (group : DeviceGroup) : Option DevicePtr := group.members.head?

/-- The first member whose `frame_type` is the given one. -/
def byFrameType (group : DeviceGroup) (frameType : Int) : Option DevicePtr :=
  group.members.find? fun device => device.desc.spec.frameType == frameType

end DeviceGroup

/-- `const DeviceGroup*`: an address, and the group behind it. -/
structure GroupPtr where
  addr : ℕ
  group : DeviceGroup
deriving DecidableEq, Repr

/-! ### Extents -/

/-- The widths of a field. -/
theorem FieldDesc.size_cases (field : FieldDesc) :
    field.size.toNat = 1 ∨ field.size.toNat = 2 ∨ field.size.toNat = 4 ∨ field.size.toNat = 8 := by
  have ok := field.size_ok
  revert ok
  have sizes : ∀ {size : UInt8}, (size == 1 || size == 2 || size == 4 || size == 8) = true →
      size.toNat = 1 ∨ size.toNat = 2 ∨ size.toNat = 4 ∨ size.toNat = 8 := by
    intro size ok
    simp only [Bool.or_eq_true, beq_iff_eq] at ok
    rcases ok with ((one | two) | four) | eight
    · exact Or.inl (congrArg UInt8.toNat one)
    · exact Or.inr (Or.inl (congrArg UInt8.toNat two))
    · exact Or.inr (Or.inr (Or.inl (congrArg UInt8.toNat four)))
    · exact Or.inr (Or.inr (Or.inr (congrArg UInt8.toNat eight)))
  cases field.kind with
  | bool => exact fun ok => Or.inl (congrArg UInt8.toNat (beq_iff_eq.mp ok))
  | float32 => exact fun ok => Or.inr (Or.inr (Or.inl (congrArg UInt8.toNat (beq_iff_eq.mp ok))))
  | float64 => exact fun ok => Or.inr (Or.inr (Or.inr (congrArg UInt8.toNat (beq_iff_eq.mp ok))))
  | intSigned => exact sizes
  | intUnsigned => exact sizes

theorem FieldDesc.size_of_bool {field : FieldDesc} (kind : field.kind = .bool) :
    field.size.toNat = 1 := by
  have ok := field.size_ok
  rw [kind] at ok
  exact congrArg UInt8.toNat (beq_iff_eq.mp ok)

theorem FieldDesc.size_pos (field : FieldDesc) : 0 < field.size.toNat := by
  have sizes := field.size_cases
  omega

/-- The 32-bit end is the real one, unless the real one does not fit in 32 bits. -/
theorem FieldDesc.wrappedEnd_eq (field : FieldDesc) :
    field.wrappedEnd.toNat = field.extent ∨ 2 ^ 32 ≤ field.extent := by
  have sum : field.wrappedEnd.toNat = field.extent % 2 ^ 32 := by
    rw [wrappedEnd, UInt32.toNat_add, UInt8.toNat_toUInt32, extent]
  by_cases fits : field.extent < 2 ^ 32
  · exact Or.inl (by rw [sum, Nat.mod_eq_of_lt fits])
  · exact Or.inr (Nat.le_of_not_lt fits)

theorem FrameSpec.extent_le {spec : FrameSpec} {field : FieldDesc} (member : field ∈ spec.fields) :
    field.extent ≤ spec.extent := by
  unfold extent
  generalize spec.fields = fields at member
  induction fields with
  | nil => cases member
  | cons first fields ih =>
    rw [List.foldr_cons]
    rcases List.mem_cons.mp member with rfl | member
    · exact Nat.le_max_left _ _
    · exact Nat.le_trans (ih member) (Nat.le_max_right _ _)

/-- The running maximum is at least its start and every 32-bit end. -/
theorem le_payloadMin_fold (fields : List FieldDesc) (start : UInt32) :
    start ≤ fields.foldl (fun highest field =>
        if field.wrappedEnd > highest then field.wrappedEnd else highest) start ∧
      ∀ field ∈ fields, field.wrappedEnd ≤ fields.foldl (fun highest field =>
        if field.wrappedEnd > highest then field.wrappedEnd else highest) start := by
  induction fields generalizing start with
  | nil => exact ⟨UInt32.le_refl _, fun _ member => by cases member⟩
  | cons first fields ih =>
    obtain ⟨fromStart, fromFields⟩ :=
      ih (if first.wrappedEnd > start then first.wrappedEnd else start)
    rw [List.foldl_cons]
    by_cases larger : first.wrappedEnd > start
    · rw [if_pos larger] at fromStart fromFields ⊢
      refine ⟨UInt32.le_trans (UInt32.le_of_lt larger) fromStart, fun field member => ?_⟩
      rcases List.mem_cons.mp member with rfl | member
      · exact fromStart
      · exact fromFields field member
    · rw [if_neg larger] at fromStart fromFields ⊢
      refine ⟨fromStart, fun field member => ?_⟩
      rcases List.mem_cons.mp member with rfl | member
      · exact UInt32.le_trans (UInt32.not_lt.mp larger) fromStart
      · exact fromFields field member

/-- **A field ends inside `payloadMin` bytes, or past every 32-bit length.** -/
theorem FrameSpec.extent_le_payloadMin (spec : FrameSpec) {field : FieldDesc}
    (member : field ∈ spec.fields) :
    field.extent ≤ spec.payloadMin.toNat ∨ 2 ^ 32 ≤ field.extent := by
  have bound : field.wrappedEnd ≤ spec.payloadMin := by
    rw [spec.payloadMin_eq]
    exact (le_payloadMin_fold spec.fields 0).2 field member
  rcases field.wrappedEnd_eq with same | wraps
  · exact Or.inl (by rw [← same]; exact UInt32.le_iff_toNat_le.mp bound)
  · exact Or.inr wraps

theorem FrameSpec.Exact.fits {spec : FrameSpec} (exact : spec.Exact) {field : FieldDesc}
    (member : field ∈ spec.fields) : field.extent ≤ spec.payloadMin.toNat := by
  rw [exact.payloadMin]
  exact extent_le member

theorem FrameSpec.Exact.payloadMin_pos {spec : FrameSpec} (exact : spec.Exact) :
    0 < spec.payloadMin.toNat := by
  obtain ⟨field, member⟩ := List.exists_mem_of_ne_nil _ exact.nonempty
  have inside := exact.fits member
  have positive := field.size_pos
  unfold FieldDesc.extent at inside
  omega

end EtherAdapter
