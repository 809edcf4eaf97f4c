/-
**The custom_data wire format: what a device sends.**

`WireFrame` is a frame as the device simulator of the test suite builds it: type, flag, length
field, sequence id, payload, optional trailing delimiter. `WireFrame.WellFormed` says when it is a
frame of one of the group's members, and `WireFrame.records` which records it carries. The length
field may be 0 when the payload is exactly one configured record.

**`feedStep_bytes`** — at a well-formed frame the slicer takes exactly that frame, and its rows are
what `decodePayload` yields for each record's bytes alone.
-/

import EtherAdapter.Model.Feed

namespace EtherAdapter

open Slicing

/-! ### Frames on the wire -/

/-- One custom_data frame as sent. `zeroLen` writes the length field as 0. -/
structure WireFrame where
  frameType : UInt8
  flag : UInt8
  zeroLen : Bool := false
  seq : UInt8 × UInt8 := (0, 0)
  payload : Bytes
  tail : Option UInt8 := none
deriving DecidableEq, Repr

namespace WireFrame

/-- The value of the length field. -/
def lenField (frame : WireFrame) : ℕ := if frame.zeroLen then 0 else frame.payload.length

/-- A header, with a 16-bit little-endian length field. -/
def header (frameType flag : UInt8) (len : ℕ) (seq : UInt8 × UInt8) : Bytes :=
  [frameType, flag, UInt8.ofNat (len % 256), UInt8.ofNat (len / 256), seq.1, seq.2]

def bytes (frame : WireFrame) : Bytes :=
  header frame.frameType frame.flag frame.lenField frame.seq ++
    (frame.payload ++ frame.tail.toList)

/-- **A frame of the member `dev`.** -/
structure Fits (frame : WireFrame) (dev : DevicePtr) : Prop where
  exact : dev.desc.spec.Exact
  flag : dev.desc.isEvent = true → dev.desc.spec.startFlag ≠ 0 →
    frame.flag = dev.desc.spec.startFlag
  tail : frame.tail.isSome = true ↔ dev.desc.isEvent = true ∧ dev.desc.spec.endFlag ≠ 0
  payload_pos : 1 ≤ frame.payload.length
  payloadMin_le : dev.desc.spec.payloadMin.toNat ≤ frame.payload.length
  size_le : kHeaderSize + frame.payload.length + frame.tail.toList.length ≤ kMaxFrame
  zeroLen : frame.zeroLen = true → 0 < dev.desc.spec.frameLen ∧
    (frame.payload.length : Int) = dev.desc.spec.frameLen
  /-- Whole records, each holding all fields; or one record, shorter than the configured one. -/
  whole_records : 0 < dev.desc.spec.frameLen → dev.desc.spec.frameLen ≤ frame.payload.length →
    dev.desc.spec.frameLen ∣ frame.payload.length ∧
      (dev.desc.spec.payloadMin.toNat : Int) ≤ dev.desc.spec.frameLen

/-- **Well-formed for the group**: a frame of the member its type byte selects. -/
def WellFormed (group : DeviceGroup) (frame : WireFrame) : Prop :=
  ∃ dev, group.byFrameType frame.frameType.toNat = some dev ∧ frame.Fits dev

/-- The first `count` pieces of `size` bytes. -/
def slices (size : ℕ) : ℕ → Bytes → List Bytes
  | 0, _ => []
  | count + 1, p => p.take size :: slices size count (p.drop size)

/-- The records a frame carries: the payload cut at `frame_len`, or else the whole payload. -/
def records (frame : WireFrame) (spec : FrameSpec) : List Bytes :=
  if 0 < spec.frameLen ∧ spec.frameLen ≤ frame.payload.length then
    slices spec.frameLen.toNat (frame.payload.length / spec.frameLen.toNat) frame.payload
  else [frame.payload]

/-- The rows a frame should give: its member, and what each record decodes to on its own. -/
def decoded (group : DeviceGroup) (frame : WireFrame) : List (DevicePtr × Option (List Cell)) :=
  match group.byFrameType frame.frameType.toNat with
  | none => []
  | some dev => (frame.records dev.desc.spec).map fun record =>
      (dev, decodePayload dev.desc.spec dev.desc.bigEndian record record.length)

/-! ### The header of a well-formed frame -/

theorem headerLen_header (frameType flag : UInt8) {len : ℕ} (seq : UInt8 × UInt8)
    (small : len < 2 ^ 16) (more : Bytes) :
    headerLen (header frameType flag len seq ++ more) = len := by
  have low : (UInt8.ofNat (len % 256)).toNat = len % 256 := by
    rw [UInt8.toNat_ofNat']
    omega
  have high : (UInt8.ofNat (len / 256)).toNat = len / 256 := by
    rw [UInt8.toNat_ofNat']
    omega
  show (UInt8.ofNat (len % 256)).toNat ||| ((UInt8.ofNat (len / 256)).toNat <<< 8) = len
  rw [low, high, Nat.or_comm, ← Nat.shiftLeft_add_eq_or_of_lt (by omega), Nat.shiftLeft_eq]
  omega

theorem length_bytes (frame : WireFrame) :
    frame.bytes.length = kHeaderSize + frame.payload.length + frame.tail.toList.length := by
  simp only [bytes, header, kHeaderSize, List.length_append, List.length_cons, List.length_nil]
  omega

variable {group : DeviceGroup} {frame : WireFrame} {dev : DevicePtr}

/-- The shape the slicer reads off a frame of `dev`. -/
def shape (frame : WireFrame) (dev : DevicePtr) : FrameShape :=
  ⟨dev, frame.payload.length, dev.desc.trailFlag⟩

theorem Fits.frameBytes_eq (fits : frame.Fits dev) :
    (frame.shape dev).frameBytes = frame.bytes.length := by
  have tailEq : (frame.shape dev).tail = frame.tail.toList.length := by
    have iff := fits.tail
    unfold FrameShape.tail shape DeviceDesc.trailFlag
    cases tail : frame.tail with
    | none =>
      rw [tail] at iff
      have absent : ¬ (dev.desc.isEvent = true ∧ dev.desc.spec.endFlag ≠ 0) :=
        fun both => by cases iff.mpr both
      by_cases event : dev.desc.isEvent = true
      · have zero : dev.desc.spec.endFlag = 0 := by
          by_contra nonzero
          exact absent ⟨event, nonzero⟩
        simp [event, zero]
      · simp [event]
    | some last =>
      rw [tail] at iff
      obtain ⟨event, nonzero⟩ := iff.mp rfl
      simp [event, nonzero]
  rw [FrameShape.frameBytes, tailEq, length_bytes]
  rfl

theorem Fits.payloadBytesOf_eq (fits : frame.Fits dev) :
    payloadBytesOf dev.desc.spec frame.bytes = frame.payload.length := by
  have small : frame.payload.length < 2 ^ 16 := by
    have size := fits.size_le
    unfold kHeaderSize kMaxFrame at size
    omega
  have positive := fits.payload_pos
  unfold payloadBytesOf bytes
  cases zero : frame.zeroLen with
  | false =>
    have len : frame.lenField = frame.payload.length := by simp [lenField, zero]
    rw [headerLen_header _ _ _ (by omega), len, if_neg (by omega)]
  | true =>
    have len : frame.lenField = 0 := by simp [lenField, zero]
    obtain ⟨configured, exactLen⟩ := fits.zeroLen zero
    rw [headerLen_header _ _ _ (by omega), len, if_pos rfl, if_pos configured]
    omega

/-- **The header checks accept a well-formed frame.** -/
theorem Fits.checkHeader_eq (fits : frame.Fits dev)
    (member : group.byFrameType frame.frameType.toNat = some dev) :
    checkHeader group frame.bytes = .ok (frame.shape dev) := by
  have positive := fits.payload_pos
  have flagOk : ¬ (dev.desc.leadFlag ≠ 0 ∧ byteAt frame.bytes 1 ≠ dev.desc.leadFlag) := by
    rintro ⟨lead, miss⟩
    unfold DeviceDesc.leadFlag at lead miss
    by_cases event : dev.desc.isEvent = true
    · rw [if_pos event] at lead miss
      exact miss (fits.flag event lead)
    · rw [if_neg event] at lead
      exact lead rfl
  have lengthOk : ¬ (frame.payload.length = 0 ∨
      frame.payload.length < dev.desc.spec.payloadMin.toNat) := by
    have long := fits.payloadMin_le
    omega
  have sizeOk : ¬ kMaxFrame < (frame.shape dev).frameBytes := by
    rw [fits.frameBytes_eq, length_bytes]
    exact Nat.not_lt.mpr fits.size_le
  have first : byteAt frame.bytes 0 = frame.frameType := rfl
  unfold checkHeader
  rw [first, member]
  simp only [if_neg fits.exact.nonempty, if_neg flagOk, fits.payloadBytesOf_eq]
  change (if _ then _ else if kMaxFrame < (frame.shape dev).frameBytes then _ else _) = _
  rw [if_neg lengthOk, if_neg sizeOk]
  rfl

/-! ### The records of a well-formed frame -/

/-- The record loop on whole records: each row is its record's own. -/
theorem decodeRecords_slices {spec : FrameSpec} (exact : spec.Exact) {size : ℕ}
    (long : spec.payloadMin.toNat ≤ size) (be : Bool) (more : Bytes) (count : ℕ) :
    ∀ p : Bytes, count * size ≤ p.length →
      (decodeRecords spec be size count (p ++ more)).2 = true ∧
        (decodeRecords spec be size count (p ++ more)).1.map some =
          (slices size count p).map fun record => decodePayload spec be record record.length := by
  induction count with
  | zero => exact fun _ _ => ⟨rfl, rfl⟩
  | succ count ih =>
    intro p enough
    rw [Nat.add_mul, Nat.one_mul] at enough
    have own : decodePayload spec be (p ++ more) size =
        decodePayload spec be (p.take size) (p.take size).length := by
      rw [List.length_take_of_le (by omega)]
      have agree : AgreeOn size (p ++ more) (p.take size) := by
        have cut := agreeOn_take (p ++ more) size
        rwa [List.take_append_of_le_length (by omega)] at cut
      exact decodePayload_congr agree (fun _ _ admitted => admitted) be
    have row := exact.decodePayload long be (p ++ more)
    obtain ⟨ok, rows⟩ := ih (p.drop size) (by rw [List.length_drop]; omega)
    rw [decodeRecords, row, List.drop_append_of_le_length (by omega)]
    refine ⟨ok, ?_⟩
    rw [slices, List.map_cons, List.map_cons, rows, ← own, row]

theorem Fits.decodeRecords_eq (fits : frame.Fits dev) :
    let done := decodeRecords dev.desc.spec dev.desc.bigEndian (frame.shape dev).recordBytes
      (frame.shape dev).records (frame.payload ++ frame.tail.toList)
    done.2 = true ∧ done.1.map some = (frame.records dev.desc.spec).map fun record =>
      decodePayload dev.desc.spec dev.desc.bigEndian record record.length := by
  have positive := fits.payload_pos
  have long := fits.payloadMin_le
  by_cases configured : 0 < dev.desc.spec.frameLen
  · have size : (frame.shape dev).recordBytes = dev.desc.spec.frameLen.toNat := if_pos configured
    by_cases fit : dev.desc.spec.frameLen ≤ frame.payload.length
    · -- one or more whole records
      obtain ⟨divides, each⟩ := fits.whole_records configured fit
      have divides' : dev.desc.spec.frameLen.toNat ∣ frame.payload.length := by
        have cast : ((dev.desc.spec.frameLen.toNat : ℕ) : Int) ∣ (frame.payload.length : Int) := by
          rw [Int.toNat_of_nonneg (by omega)]
          exact divides
        exact Int.natCast_dvd_natCast.mp cast
      have count : (frame.shape dev).records =
          frame.payload.length / dev.desc.spec.frameLen.toNat := by
        rw [FrameShape.records, size, if_pos]
        · rfl
        · exact ⟨by omega, by simp only [shape]; omega, Nat.mod_eq_zero_of_dvd divides'⟩
      rw [size, count, records, if_pos ⟨configured, fit⟩]
      exact decodeRecords_slices fits.exact (by omega) _ _ _ _ (Nat.div_mul_le_self _ _)
    · -- a single record, shorter than the configured one
      have count : (frame.shape dev).records = 1 := by
        rw [FrameShape.records, size, if_neg]
        simp only [shape]
        omega
      have row := fits.exact.decodePayload (show _ ≤ dev.desc.spec.frameLen.toNat by omega)
        dev.desc.bigEndian (frame.payload ++ frame.tail.toList)
      have alone := fits.exact.decodePayload long dev.desc.bigEndian frame.payload
      have same : dev.desc.spec.fields.map
            (fieldCell dev.desc.bigEndian (frame.payload ++ frame.tail.toList)) =
          dev.desc.spec.fields.map (fieldCell dev.desc.bigEndian frame.payload) :=
        List.map_congr_left fun field member => fieldCell_congr
          ((agreeOn_append frame.payload _).symm.mono
            (Nat.le_trans (fits.exact.fits member) long)) _
      rw [size, count, records, if_neg (fun both => fit both.2)]
      simp only [decodeRecords, row, same, List.map_cons, List.map_nil, alone, and_self]
  · -- no record size configured: the payload is the record
    have size : (frame.shape dev).recordBytes = frame.payload.length := if_neg configured
    have count : (frame.shape dev).records = 1 := by
      have payload : (frame.shape dev).payloadBytes = frame.payload.length := rfl
      rw [FrameShape.records, size, payload,
        if_pos ⟨positive, Nat.le_refl _, Nat.mod_self _⟩, Nat.div_self positive]
    rw [size, count, records, if_neg (fun both => configured both.1)]
    have whole := decodeRecords_slices fits.exact long dev.desc.bigEndian frame.tail.toList 1
      frame.payload (by omega)
    rwa [slices, slices, List.take_length] at whole

/-- **At a well-formed frame, the slicer takes that frame with the rows of its records.** -/
theorem feedStep_bytes (wellFormed : frame.WellFormed group) :
    ∃ dev trailMiss rows, feedStep group frame.bytes =
        some ⟨frame.bytes.length, true, .frame dev trailMiss rows true⟩ ∧
      (rows.map fun cells => (dev, some cells)) = frame.decoded group := by
  obtain ⟨dev, member, fits⟩ := wellFormed
  have frameBytes := fits.frameBytes_eq
  have long : ¬ frame.bytes.length < kHeaderSize := by
    rw [length_bytes]
    omega
  have payload : frame.bytes.drop kHeaderSize = frame.payload ++ frame.tail.toList := rfl
  obtain ⟨ok, rows⟩ := fits.decodeRecords_eq
  rw [feedStep, if_neg long, fits.checkHeader_eq member]
  simp only [frameBytes, if_neg (Nat.lt_irrefl _), takeFrame, payload]
  refine ⟨dev, _, _, by rw [show (frame.shape dev).dev = dev from rfl, ok], ?_⟩
  have pairs := congrArg (List.map fun cells => (dev, cells)) rows
  rw [List.map_map, List.map_map] at pairs
  rw [decoded, member]
  exact pairs

end WireFrame

end EtherAdapter
