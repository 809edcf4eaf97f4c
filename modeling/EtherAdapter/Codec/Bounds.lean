/-
**Every byte the codec reads lies in the pending buffer, and every byte of a record in its frame's
payload.**

`decodePayload` is told the record length, which a large `frame_len` makes longer than the payload it
is pointed at. What keeps it inside is `payloadMin`: a field that ends behind it ends behind 2^32, in
no record at all.

* `ByteRead.Inside` — where a read may go.
* `every_decodeRecordsReads` — the reads of a run of records, from the fields each of them admits.
* **`reads_inside`** — all reads of `feed` and `feedModbus`.
-/

import EtherAdapter.Model.Reads
import EtherAdapter.Codec.Chunking

namespace EtherAdapter

open Slicing Tracing

/-- **Where a byte may be read** in a buffer of `n` bytes: anywhere in it to frame a frame, and to
decode a record in the payload of its frame, which is in the buffer as a whole. -/
def ByteRead.Inside (n : ℕ) : ByteRead → Prop
  | .framing index => index < n
  | .record span index =>
    span.start + span.header ≤ index ∧ index < span.start + span.header + span.payload ∧
      span.start + span.header + span.payload + span.tail ≤ n

/-! ### Records -/

section Records

variable {P : ByteRead → Prop} {kind : ℕ → ByteRead} (be : Bool) (base : Bytes) {off : ℕ}

/-- A field reads its own bytes. -/
theorem every_fieldCellReads {field : FieldDesc}
    (holds : ∀ i, off ≤ i → i < off + field.extent → P (kind i)) :
    Every P (fieldCellReads kind be base off field) := by
  have own : Every P (readBytes kind base (off + field.byteOffset.toNat) field.size.toNat) := by
    refine every_readBytes base fun i after before => holds i (by omega) ?_
    rw [FieldDesc.extent]
    omega
  have ok := field.size_ok
  unfold fieldCellReads
  cases field_kind : field.kind with
  | float32 =>
    rw [field_kind, FieldKind.hasSize, beq_iff_eq] at ok
    rw [ok] at own
    exact every_bind own (every_pure _)
  | float64 =>
    rw [field_kind, FieldKind.hasSize, beq_iff_eq] at ok
    rw [ok] at own
    exact every_bind own (every_pure _)
  | bool =>
    rw [field_kind, FieldKind.hasSize, beq_iff_eq] at ok
    rw [ok] at own
    exact every_bind own (every_pure _)
  | intSigned => exact every_bind own (every_pure _)
  | intUnsigned => exact every_bind own (every_pure _)

theorem every_decodeFieldsReads {payloadLen : ℕ} {fields : List FieldDesc}
    (holds : ∀ field ∈ fields, field.extent ≤ payloadLen →
      ∀ i, off ≤ i → i < off + field.extent → P (kind i)) :
    Every P (decodeFieldsReads kind be base off payloadLen fields) := by
  induction fields with
  | nil => exact every_pure _
  | cons field fields ih =>
    refine every_ite (fun _ => every_pure _) fun inside => ?_
    refine every_bind (every_fieldCellReads be base ?_) (every_bind (ih ?_) (every_pure _))
    · exact holds field List.mem_cons_self (Nat.le_of_not_lt inside)
    · exact fun other member => holds other (List.mem_cons_of_mem _ member)

theorem every_decodePayloadReads {spec : FrameSpec} {payloadLen : ℕ}
    (holds : ∀ field ∈ spec.fields, field.extent ≤ payloadLen →
      ∀ i, off ≤ i → i < off + field.extent → P (kind i)) :
    Every P (decodePayloadReads kind spec be base off payloadLen) :=
  every_ite (fun _ => every_pure _) fun _ => every_ite (fun _ => every_pure _) fun _ =>
    every_decodeFieldsReads be base holds

/-- **The records of a frame** read the fields they admit, each in its own record. -/
theorem every_decodeRecordsReads {spec : FrameSpec} {recordBytes records : ℕ}
    (holds : ∀ k < records, ∀ field ∈ spec.fields, field.extent ≤ recordBytes →
      ∀ i, off ≤ i → i < off + (k * recordBytes + field.extent) → P (kind i)) :
    Every P (decodeRecordsReads kind spec be recordBytes base records off) := by
  induction records generalizing off with
  | zero => exact every_pure _
  | succ records ih =>
    refine every_bind (every_decodePayloadReads be base fun field member admitted i after before =>
      ?_) ?_
    · exact holds 0 (Nat.succ_pos _) field member admitted i after (by omega)
    · cases value (decodePayloadReads kind spec be base off recordBytes) with
      | none => exact every_pure _
      | some row =>
        refine every_bind (ih fun k index field member admitted i after before => ?_) (every_pure _)
        refine holds (k + 1) (Nat.succ_lt_succ index) field member admitted i (by omega) ?_
        rw [Nat.add_mul, Nat.one_mul]
        omega

end Records

/-! ### `feed` -/

section Feed

variable {base : Bytes} {pos : ℕ}

/-- **A whole frame**: its delimiter, and records that stay in its payload. -/
theorem every_takeFrameReads {shape : FrameShape} (accepted : shape.Accepted)
    (whole : pos + shape.frameBytes ≤ base.length) :
    Every (ByteRead.Inside base.length) (takeFrameReads shape base pos) := by
  have sizes : shape.frameBytes = kHeaderSize + shape.payloadBytes + shape.tail := rfl
  refine every_bind (every_ite (fun delimited => ?_) fun _ => every_pure _)
    (every_bind ?_ (every_pure _))
  · refine every_bind (every_readByte ?_ base) (every_pure _)
    show pos + shape.frameBytes - 1 < base.length
    omega
  · refine every_decodeRecordsReads _ base fun k index field member admitted i after before => ?_
    have fits := accepted.record_fits index member admitted
    show pos + kHeaderSize ≤ i ∧ i < pos + kHeaderSize + shape.payloadBytes ∧
      pos + kHeaderSize + shape.payloadBytes + shape.tail ≤ base.length
    omega

theorem every_feedStepReads (group : DeviceGroup) :
    Every (ByteRead.Inside base.length) (feedStepReads group base pos) := by
  refine every_ite (fun _ => every_pure _) fun long => ?_
  unfold kHeaderSize at long
  refine every_bind (every_readBytes base fun i after before => ?_) ?_
  · show i < base.length
    omega
  · cases checked : checkHeader group (value (readBytes .framing base pos 4)) with
    | error why => exact every_pure _
    | ok shape =>
      refine every_ite (fun _ => every_pure _) fun whole => ?_
      exact every_bind (every_takeFrameReads (accepted_of_checkHeader checked) (by omega))
        (every_pure _)

theorem every_feedLoopReads (group : DeviceGroup) (recvMs : Int) (fuel : ℕ) (s : FeedLoop) :
    Every (ByteRead.Inside base.length) (feedLoopReads group recvMs base fuel s) := by
  induction fuel generalizing s with
  | zero => exact every_pure _
  | succ fuel ih =>
    refine every_bind (every_feedStepReads group) ?_
    cases value (feedStepReads group base (s.pos base)) with
    | none => exact every_pure _
    | some cut => exact ih _

end Feed

/-! ### `feedModbus` -/

section Modbus

variable {base : Bytes} {pos : ℕ} (dev : DevicePtr)

theorem every_zeroProtocolIdReads (long : pos + 4 ≤ base.length) :
    Every (ByteRead.Inside base.length) (zeroProtocolIdReads base pos) := by
  refine every_bind (every_readByte ?_ base) (every_ite (fun _ => ?_) fun _ => every_pure _)
  · show pos + 2 < base.length
    omega
  · refine every_bind (every_readByte ?_ base) (every_pure _)
    show pos + 3 < base.length
    omega

theorem every_syncScanReads (fuel : ℕ) :
    Every (ByteRead.Inside base.length) (syncScanReads base fuel pos) := by
  induction fuel generalizing pos with
  | zero => exact every_pure _
  | succ fuel ih =>
    refine every_ite (fun _ => every_pure _) fun long => ?_
    refine every_bind (every_zeroProtocolIdReads (Nat.le_of_not_lt long)) ?_
    exact every_ite (fun _ => every_pure _) fun _ => every_bind ih (every_pure _)

/-- **A response**: its registers lie behind its header, all of them arrived. -/
theorem every_responseReads {payloadLen : ℕ}
    (whole : pos + dev.desc.spec.hdr + payloadLen ≤ base.length) (total : ℕ) :
    Every (ByteRead.Inside base.length) (responseReads dev base pos payloadLen total) := by
  refine every_bind (every_decodePayloadReads _ base fun field member admitted i after before =>
    ?_) ?_
  · show pos + dev.desc.spec.hdr ≤ i ∧ i < pos + dev.desc.spec.hdr + payloadLen ∧
      pos + dev.desc.spec.hdr + payloadLen + 0 ≤ base.length
    omega
  · cases value (decodePayloadReads _ dev.desc.spec dev.desc.modbusBigEndian base
      (pos + dev.desc.spec.hdr) payloadLen) with
    | none => exact every_pure _
    | some row => exact every_pure _

theorem every_mbapFrameReads :
    Every (ByteRead.Inside base.length) (mbapFrameReads dev base pos) := by
  refine every_ite (fun _ => every_pure _) fun long => ?_
  refine every_bind (every_bind (every_readByte ?_ base)
    (every_bind (every_readByte ?_ base) (every_pure _))) ?_
  · show pos + 4 < base.length
    omega
  · show pos + 5 < base.length
    omega
  · refine every_ite (fun _ => every_pure _) fun _ => ?_
    refine every_ite (fun _ => every_pure _) fun sized => ?_
    refine every_ite (fun _ => every_pure _) fun whole => ?_
    refine every_ite (fun _ => every_pure _) fun _ => ?_
    exact every_responseReads dev (by omega) _

theorem every_fixedFrameReads (within : pos ≤ base.length) :
    Every (ByteRead.Inside base.length) (fixedFrameReads dev base pos) := by
  refine every_ite (fun _ => every_pure _) fun whole => ?_
  unfold FrameSpec.fixedTotal at whole
  exact every_responseReads dev (by omega) _

theorem every_modbusPassReads (recvMs : Int) (s : FeedLoop) :
    Every (ByteRead.Inside base.length) (modbusPassReads dev recvMs base s) := by
  refine every_ite (fun _ => ?_) fun _ => ?_
  · refine every_bind (every_syncScanReads _) ?_
    cases value (syncScanReads base s.pending.length (s.pos base)) with
    | none => exact every_pure _
    | some distance => exact every_bind (every_mbapFrameReads dev) (every_pure _)
  · exact every_ite (fun _ => every_pure _) fun _ =>
      every_bind (every_fixedFrameReads dev (Nat.sub_le _ _)) (every_pure _)

theorem every_modbusLoopReads (recvMs : Int) (fuel : ℕ) (s : FeedLoop) :
    Every (ByteRead.Inside base.length) (modbusLoopReads dev recvMs base fuel s) := by
  induction fuel generalizing s with
  | zero => exact every_pure _
  | succ fuel ih =>
    refine every_bind (every_modbusPassReads dev recvMs s) ?_
    cases value (modbusPassReads dev recvMs base s) with
    | again next => exact ih next
    | done final => exact every_pure _
    | abandoned final => exact every_pure _

end Modbus

/-! ### Both slicers -/

/-- **Every byte that is read is there to be read**: the noted runs of `feed` and `feedModbus` are
runs of them, every index they note is in the pending buffer, and every index noted while a record
is decoded is in the payload of that frame. -/
theorem reads_inside (st : DeviceStream) (data : Bytes) (recvMs : Int) :
    (∀ group, value (feedReads group st data recvMs) = feed group st data recvMs ∧
      ∀ read ∈ trace (feedReads group st data recvMs), read.Inside (st.buf ++ data).length) ∧
    ∀ dev, value (feedModbusReads dev st data recvMs) = feedModbus dev st data recvMs ∧
      ∀ read ∈ trace (feedModbusReads dev st data recvMs), read.Inside (st.buf ++ data).length := by
  refine ⟨fun group => ⟨value_feedReads group st data recvMs, ?_⟩,
    fun dev => ⟨value_feedModbusReads dev st data recvMs, ?_⟩⟩
  · exact every_bind (every_feedLoopReads group recvMs _ _) (every_pure _)
  · refine every_ite (fun _ => every_pure _) fun _ => ?_
    refine every_ite (fun _ => every_pure _) fun _ => ?_
    refine every_ite (fun _ => every_pure _) fun _ => ?_
    refine every_bind (every_modbusLoopReads dev recvMs _ _) ?_
    cases value (modbusLoopReads dev recvMs (st.buf ++ data) _ _) with
    | again s => exact every_pure _
    | done s => exact every_pure _
    | abandoned s => exact every_pure _

/-- A status frame of one record, behind an unknown byte. -/
example : trace (feedReads fixtureGroup {} [0xAA, 0xC, 0, 2, 0, 0, 0, 7, 0] 0) =
    [.framing 0, .framing 1, .framing 2, .framing 3,
      .framing 1, .framing 2, .framing 3, .framing 4,
      .record ⟨1, 6, 2, 0⟩ 7, .record ⟨1, 6, 2, 0⟩ 8] := by decide

end EtherAdapter
