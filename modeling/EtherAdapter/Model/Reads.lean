/-
**The slicers and the decoder, with every byte they read noted.**

The same functions as in `Model/Decode`, `Model/Feed` and `Model/Modbus`, over the whole pending
buffer `base` and absolute positions in it, as the source has them: each byte of the buffer is got
by `readByte`, which notes its index. What is computed from the bytes is computed by the functions of
the model, applied to the bytes that were read.

* `ByteRead` — one read: of framing, or of a record of the frame being decoded.
* **`value_feedReads`**, **`value_feedModbusReads`** — noting changes nothing: the results are those
  of `feed` and `feedModbus`.
-/

import EtherAdapter.Tracing.Basic
import EtherAdapter.Model.Feed
import EtherAdapter.Model.Modbus

namespace EtherAdapter

open Slicing Tracing

/-! ### Reading a byte -/

/-- Where a frame stands in the pending buffer: its header, its payload, its trailing delimiter. -/
structure FrameSpan where
  start : ℕ
  header : ℕ
  payload : ℕ
  tail : ℕ := 0
deriving DecidableEq, Repr

/-- One byte read, at an index of the pending buffer. -/
inductive ByteRead where
  /-- To find or to frame a frame. -/
  | framing (index : ℕ)
  /-- To decode a record of a frame. -/
  | record (span : FrameSpan) (index : ℕ)
deriving DecidableEq, Repr

abbrev Reading := Traced ByteRead

/-- `base[i]`. -/
def readByte (kind : ℕ → ByteRead) (base : Bytes) (i : ℕ) : Reading UInt8 := do
  note (kind i)
  pure (byteAt base i)

/-- The `count` bytes from `base + off` on. -/
def readBytes (kind : ℕ → ByteRead) (base : Bytes) : ℕ → ℕ → Reading Bytes
  | _, 0 => pure []
  | off, count + 1 => do
    let byte ← readByte kind base off
    let more ← readBytes kind base (off + 1) count
    pure (byte :: more)

@[simp] theorem value_readByte (kind : ℕ → ByteRead) (base : Bytes) (i : ℕ) :
    value (readByte kind base i) = byteAt base i := rfl

theorem every_readByte {P : ByteRead → Prop} {kind : ℕ → ByteRead} {i : ℕ} (holds : P (kind i))
    (base : Bytes) : Every P (readByte kind base i) :=
  every_bind (every_note holds) (every_pure _)

/-- What is read is what is there. -/
theorem agreeOn_readBytes (kind : ℕ → ByteRead) (base : Bytes) (off count : ℕ) :
    AgreeOn count (value (readBytes kind base off count)) (base.drop off) := by
  induction count generalizing off with
  | zero => exact fun i inside => absurd inside (Nat.not_lt_zero i)
  | succ count ih =>
    intro i inside
    rw [byteAt_drop]
    cases i with
    | zero => rfl
    | succ i =>
      have later := ih (off + 1) i (Nat.lt_of_succ_lt_succ inside)
      rw [byteAt_drop, Nat.add_assoc, Nat.add_comm 1 i] at later
      exact later

theorem every_readBytes {P : ByteRead → Prop} {kind : ℕ → ByteRead} (base : Bytes) {off count : ℕ}
    (holds : ∀ i, off ≤ i → i < off + count → P (kind i)) :
    Every P (readBytes kind base off count) := by
  induction count generalizing off with
  | zero => exact every_pure _
  | succ count ih =>
    refine every_bind (every_readByte (holds off (Nat.le_refl _) (by omega)) base) ?_
    refine every_bind (ih fun i after before => ?_) (every_pure _)
    exact holds i (by omega) (by omega)

/-! ### Records -/

def fieldCellReads (kind : ℕ → ByteRead) (be : Bool) (base : Bytes) (off : ℕ) (field : FieldDesc) :
    Reading Cell :=
  let p := off + field.byteOffset.toNat
  match field.kind with
  | .float32 => do
    let bytes ← readBytes kind base p 4
    pure { v := loadFloat32 bytes be }
  | .float64 => do
    let bytes ← readBytes kind base p 8
    pure { v := loadFloat64 bytes be }
  | .bool => do
    let bytes ← readBytes kind base p 1
    pure { v := if loadRaw bytes 1 be ≠ 0 then 1 else 0 }
  | .intSigned | .intUnsigned => do
    let bytes ← readBytes kind base p field.size.toNat
    let raw := decodeInt bytes field be
    pure { v := if field.asDouble then intToDouble raw else raw }

def decodeFieldsReads (kind : ℕ → ByteRead) (be : Bool) (base : Bytes) (off payloadLen : ℕ) :
    List FieldDesc → Reading (Option (List Cell))
  | [] => pure (some [])
  | field :: fields =>
    if payloadLen < field.extent then pure none
    else do
      let cell ← fieldCellReads kind be base off field
      let cells ← decodeFieldsReads kind be base off payloadLen fields
      pure (cells.map (cell :: ·))

def decodePayloadReads (kind : ℕ → ByteRead) (spec : FrameSpec) (be : Bool) (base : Bytes)
    (off payloadLen : ℕ) : Reading (Option (List Cell)) :=
  if spec.fields = [] then pure none
  else if payloadLen < spec.payloadMin.toNat then pure none
  else decodeFieldsReads kind be base off payloadLen spec.fields

def decodeRecordsReads (kind : ℕ → ByteRead) (spec : FrameSpec) (be : Bool) (recordBytes : ℕ)
    (base : Bytes) : ℕ → ℕ → Reading (List (List Cell) × Bool)
  | 0, _ => pure ([], true)
  | records + 1, off => do
    match ← decodePayloadReads kind spec be base off recordBytes with
    | none => pure ([], false)
    | some row =>
      let later ← decodeRecordsReads kind spec be recordBytes base records (off + recordBytes)
      pure (row :: later.1, later.2)

section Value

variable (kind : ℕ → ByteRead) (spec : FrameSpec) (be : Bool) (base : Bytes) (off : ℕ)

theorem value_fieldCellReads (field : FieldDesc) :
    value (fieldCellReads kind be base off field) = fieldCell be (base.drop off) field := by
  have raw : ∀ (size : ℕ) (order : Bool),
      loadRaw (value (readBytes kind base (off + field.byteOffset.toNat) size)) size order =
        loadRaw ((base.drop off).drop field.byteOffset.toNat) size order := by
    intro size order
    rw [List.drop_drop]
    exact loadRaw_congr (agreeOn_readBytes kind base _ size) order
  unfold fieldCellReads fieldCell
  cases field.kind with
  | float32 => simp only [value_bind, value_pure, loadFloat32, raw]
  | float64 => simp only [value_bind, value_pure, loadFloat64, raw]
  | bool => simp only [value_bind, value_pure, raw]
  | intSigned => simp only [value_bind, value_pure, decodeInt, raw]
  | intUnsigned => simp only [value_bind, value_pure, decodeInt, raw]

theorem value_decodeFieldsReads (payloadLen : ℕ) (fields : List FieldDesc) :
    value (decodeFieldsReads kind be base off payloadLen fields) =
      decodeFields be (base.drop off) payloadLen fields := by
  induction fields with
  | nil => rfl
  | cons field fields ih =>
    rw [decodeFieldsReads, decodeFields, value_ite, value_bind, value_bind, value_fieldCellReads, ih]
    rfl

theorem value_decodePayloadReads (payloadLen : ℕ) :
    value (decodePayloadReads kind spec be base off payloadLen) =
      decodePayload spec be (base.drop off) payloadLen := by
  rw [decodePayloadReads, decodePayload, value_ite, value_ite, value_decodeFieldsReads]
  rfl

theorem value_decodeRecordsReads (recordBytes records : ℕ) :
    value (decodeRecordsReads kind spec be recordBytes base records off) =
      decodeRecords spec be recordBytes records (base.drop off) := by
  induction records generalizing off with
  | zero => rfl
  | succ records ih =>
    rw [decodeRecordsReads, decodeRecords, value_bind, value_decodePayloadReads]
    cases decodePayload spec be (base.drop off) recordBytes with
    | none => rfl
    | some row =>
      simp only [value_bind, value_pure]
      rw [ih, List.drop_drop]

end Value

/-! ### `feed` -/

/-- The loop variable `pos`: what stands in front of the pending bytes. -/
def FeedLoop.pos (s : FeedLoop) (base : Bytes) : ℕ := base.length - s.pending.length

/-- The trailing delimiter is looked at where there is one. -/
def trailMissReads (shape : FrameShape) (base : Bytes) (pos : ℕ) : Reading Bool :=
  if shape.tail ≠ 0 then do
    let last ← readByte .framing base (pos + shape.frameBytes - 1)
    pure (last ≠ shape.trailFlag)
  else pure false

/-- The frame a header announces at `pos`. -/
def FrameShape.span (shape : FrameShape) (pos : ℕ) : FrameSpan :=
  ⟨pos, kHeaderSize, shape.payloadBytes, shape.tail⟩

def takeFrameReads (shape : FrameShape) (base : Bytes) (pos : ℕ) : Reading FeedNote := do
  let trailMiss ← trailMissReads shape base pos
  let decoded ← decodeRecordsReads (.record (shape.span pos)) shape.dev.desc.spec
    shape.dev.desc.bigEndian shape.recordBytes base shape.records (pos + kHeaderSize)
  pure (.frame shape.dev trailMiss decoded.1 decoded.2)

def feedStepReads (group : DeviceGroup) (base : Bytes) (pos : ℕ) :
    Reading (Option (Cut FeedNote)) :=
  if base.length - pos < kHeaderSize then pure none
  else do
    -- `h[4]` and `h[5]` are not looked at
    let h ← readBytes .framing base pos 4
    match checkHeader group h with
    | .error why => pure (some (Cut.skip (.skip why)))
    | .ok shape =>
      if base.length - pos < shape.frameBytes then pure none
      else do
        let note ← takeFrameReads shape base pos
        pure (some ⟨shape.frameBytes, true, note⟩)

def feedLoopReads (group : DeviceGroup) (recvMs : Int) (base : Bytes) :
    ℕ → FeedLoop → Reading FeedLoop
  | 0, s => pure s
  | fuel + 1, s => do
    match ← feedStepReads group base (s.pos base) with
    | none => pure s
    | some cut => feedLoopReads group recvMs base fuel (s.take recvMs cut)

def feedReads (group : DeviceGroup) (st : DeviceStream) (data : Bytes) (recvMs : Int) :
    Reading (DeviceStream × List Row) := do
  let buf := st.buf ++ data
  let done ← feedLoopReads group recvMs buf (buf.length + 1)
    ⟨buf, { st with bytesIn := st.bytesIn + data.length }, []⟩
  pure (done.st.compact done.pending, done.rows)

/-- The pending bytes are those from `pos` on. -/
theorem FeedLoop.drop_pos {s : FeedLoop} {base : Bytes} (behind : s.pending <:+ base) :
    base.drop (s.pos base) = s.pending := (List.suffix_iff_eq_drop.mp behind).symm

theorem FeedLoop.suffix_take {s : FeedLoop} {base : Bytes} (behind : s.pending <:+ base)
    (recvMs : Int) (cut : Cut FeedNote) : (s.take recvMs cut).pending <:+ base :=
  (List.drop_suffix cut.size s.pending).trans behind

/-- The header checks read four bytes. -/
theorem checkHeader_congr (group : DeviceGroup) {h h' : Bytes} (agree : AgreeOn 4 h h') :
    checkHeader group h = checkHeader group h' := by
  unfold checkHeader payloadBytesOf headerLen
  rw [agree 0 (by omega), agree 1 (by omega), agree 2 (by omega), agree 3 (by omega)]

theorem value_trailMissReads (shape : FrameShape) (base : Bytes) (pos : ℕ) :
    value (trailMissReads shape base pos) =
      decide (shape.tail ≠ 0 ∧
        byteAt (base.drop pos) (shape.frameBytes - 1) ≠ shape.trailFlag) := by
  have place : pos + shape.frameBytes - 1 = pos + (shape.frameBytes - 1) := by
    unfold FrameShape.frameBytes kHeaderSize
    omega
  rw [trailMissReads, place, byteAt_drop]
  by_cases delimited : shape.tail ≠ 0
  · rw [if_pos delimited, value_bind, value_readByte, value_pure]
    exact decide_eq_decide.mpr (and_iff_right delimited).symm
  · rw [if_neg delimited, value_pure]
    exact (decide_eq_false fun both => delimited both.1).symm

theorem value_takeFrameReads (shape : FrameShape) (base : Bytes) (pos : ℕ) :
    value (takeFrameReads shape base pos) = takeFrame shape (base.drop pos) := by
  rw [takeFrameReads, value_bind, value_bind, value_pure, value_trailMissReads,
    value_decodeRecordsReads, takeFrame, List.drop_drop]

theorem value_feedStepReads (group : DeviceGroup) (base : Bytes) (pos : ℕ) :
    value (feedStepReads group base pos) = feedStep group (base.drop pos) := by
  rw [feedStepReads, feedStep, List.length_drop, value_ite, value_bind,
    checkHeader_congr group (agreeOn_readBytes .framing base pos 4)]
  congr 1
  cases checkHeader group (base.drop pos) with
  | error why => rfl
  | ok shape =>
    simp only [value_ite, value_bind, value_pure]
    rw [value_takeFrameReads]

theorem value_feedLoopReads (group : DeviceGroup) (recvMs : Int) {base : Bytes} (fuel : ℕ)
    {s : FeedLoop} (behind : s.pending <:+ base) :
    value (feedLoopReads group recvMs base fuel s) = feedLoop group recvMs fuel s := by
  induction fuel generalizing s with
  | zero => rfl
  | succ fuel ih =>
    rw [feedLoopReads, feedLoop, feedBody, value_bind, value_feedStepReads,
      FeedLoop.drop_pos behind]
    cases feedStep group s.pending with
    | none => rfl
    | some cut => exact ih (FeedLoop.suffix_take behind recvMs cut)

/-- **Noting changes nothing** about `feed`. -/
theorem value_feedReads (group : DeviceGroup) (st : DeviceStream) (data : Bytes) (recvMs : Int) :
    value (feedReads group st data recvMs) = feed group st data recvMs := by
  rw [feedReads, feed, value_bind, value_pure, value_feedLoopReads]
  exact List.suffix_refl _

/-! ### `feedModbus` -/

/-- The second byte of the protocol id is looked at when the first is zero. -/
def zeroProtocolIdReads (base : Bytes) (p : ℕ) : Reading Bool := do
  let third ← readByte .framing base (p + 2)
  if third = 0 then do
    let fourth ← readByte .framing base (p + 3)
    pure (fourth = 0)
  else pure false

/-- The sync scan from `p` on, with the distance it goes. -/
def syncScanReads (base : Bytes) : ℕ → ℕ → Reading (Option ℕ)
  | 0, _ => pure none
  | fuel + 1, p =>
    if base.length < p + 4 then pure none
    else do
      let zero ← zeroProtocolIdReads base p
      if zero then pure (some 0)
      else do
        let distance ← syncScanReads base fuel (p + 1)
        pure (distance.map (· + 1))

def mbapLenReads (base : Bytes) (pos : ℕ) : Reading ℕ := do
  let high ← readByte .framing base (pos + 4)
  let low ← readByte .framing base (pos + 5)
  pure ((high.toNat <<< 8) ||| low.toNat)

/-- Decode a response, with `hdr` bytes in front of its registers. -/
def responseReads (dev : DevicePtr) (base : Bytes) (pos payloadLen total : ℕ) :
    Reading (Option (Cut FeedNote)) := do
  let spec := dev.desc.spec
  match ← decodePayloadReads (.record ⟨pos, spec.hdr, payloadLen, 0⟩) spec
      dev.desc.modbusBigEndian base (pos + spec.hdr) payloadLen with
  | none => pure (some (Cut.skip (.skip .undecodable)))
  | some row => pure (some (response dev total row))

def mbapFrameReads (dev : DevicePtr) (base : Bytes) (pos : ℕ) : Reading (Option (Cut FeedNote)) :=
  let spec := dev.desc.spec
  if base.length - pos < 6 then pure none
  else do
    let length ← mbapLenReads base pos
    if length < 1 then pure (some (Cut.skip (.skip .badMbapLength)))
    else
      let total := 6 + length
      if kMaxFrame < total ∨ total < spec.hdr then pure (some (Cut.skip (.skip .badMbapLength)))
      else if base.length - pos < total then pure none
      else if total - spec.hdr < spec.payloadMin.toNat then
        pure (some (Cut.skip (.skip .shortPayload)))
      else responseReads dev base pos (total - spec.hdr) total

def fixedFrameReads (dev : DevicePtr) (base : Bytes) (pos : ℕ) : Reading (Option (Cut FeedNote)) :=
  let spec := dev.desc.spec
  if base.length - pos < spec.fixedTotal then pure none
  else responseReads dev base pos spec.payloadMin.toNat spec.fixedTotal

def mbapPassReads (dev : DevicePtr) (recvMs : Int) (base : Bytes) (s : FeedLoop) : Reading Pass := do
  match ← syncScanReads base s.pending.length (s.pos base) with
  | none =>
    let keep := if 3 < s.pending.length then 3 else s.pending.length
    pure (.done (s.skip (s.pending.length - keep)))
  | some distance =>
    let s := s.skip distance
    let decision ← mbapFrameReads dev base (s.pos base)
    pure (s.follow recvMs decision)

def fixedPassReads (dev : DevicePtr) (recvMs : Int) (base : Bytes) (s : FeedLoop) : Reading Pass :=
  if kMaxFrame < dev.desc.spec.fixedTotal then pure (.abandoned s)
  else do
    let decision ← fixedFrameReads dev base (s.pos base)
    pure (s.follow recvMs decision)

def modbusPassReads (dev : DevicePtr) (recvMs : Int) (base : Bytes) (s : FeedLoop) : Reading Pass :=
  if dev.desc.spec.hasMbap then mbapPassReads dev recvMs base s
  else fixedPassReads dev recvMs base s

def modbusLoopReads (dev : DevicePtr) (recvMs : Int) (base : Bytes) : ℕ → FeedLoop → Reading Pass
  | 0, s => pure (.abandoned s)
  | fuel + 1, s => do
    match ← modbusPassReads dev recvMs base s with
    | .again s => modbusLoopReads dev recvMs base fuel s
    | other => pure other

def feedModbusReads (dev : DevicePtr) (st : DeviceStream) (data : Bytes) (recvMs : Int) :
    Reading (DeviceStream × List Row) :=
  let spec := dev.desc.spec
  let st := { st with bytesIn := st.bytesIn + data.length }
  if spec.fields = [] then pure (st, [])
  else if ¬ spec.isModbusHeaderLen then pure ({ st with badFrames := st.badFrames + 1 }, [])
  else if spec.payloadMin = 0 then pure ({ st with badFrames := st.badFrames + 1 }, [])
  else do
    let st := { st with buf := st.buf ++ data }
    match ← modbusLoopReads dev recvMs st.buf (st.buf.length + 1) ⟨st.buf, st, []⟩ with
    | .again s | .abandoned s => pure (s.st, s.rows)
    | .done s => pure (s.st.compact s.pending, s.rows)

theorem value_zeroProtocolIdReads (base : Bytes) (p : ℕ) :
    value (zeroProtocolIdReads base p) = zeroProtocolId (base.drop p) := by
  rw [zeroProtocolIdReads, value_bind, value_readByte, zeroProtocolId, byteAt_drop, byteAt_drop]
  by_cases third : byteAt base (p + 2) = 0
  · rw [if_pos third]
    exact decide_eq_decide.mpr (and_iff_right third).symm
  · rw [if_neg third]
    exact (decide_eq_false fun both => third both.1).symm

theorem value_syncScanReads (base : Bytes) (fuel p : ℕ) (enough : base.length ≤ p + fuel) :
    value (syncScanReads base fuel p) = syncScan (base.drop p) := by
  induction fuel generalizing p with
  | zero =>
    rw [Nat.add_zero] at enough
    rw [List.drop_eq_nil_of_le enough]
    rfl
  | succ fuel ih =>
    rw [syncScanReads, value_ite, value_bind, value_zeroProtocolIdReads, value_ite, value_bind,
      ih (p + 1) (by omega), value_pure, value_pure, value_pure]
    by_cases short : base.length < p + 4
    · rw [if_pos short]
      cases pending : base.drop p with
      | nil => rfl
      | cons byte more =>
        have few : (byte :: more).length < 4 := by
          rw [← pending, List.length_drop]
          omega
        rw [syncScan, if_pos few]
    · have inside : p < base.length := by omega
      have long : ¬ (base.drop p).length < 4 := by
        rw [List.length_drop]
        omega
      rw [if_neg short]
      rw [List.drop_eq_getElem_cons inside] at long ⊢
      rw [syncScan, if_neg long]

theorem value_mbapLenReads (base : Bytes) (pos : ℕ) :
    value (mbapLenReads base pos) = mbapLen (base.drop pos) := by
  rw [mbapLen, byteAt_drop, byteAt_drop]
  rfl

theorem value_responseReads (dev : DevicePtr) (base : Bytes) (pos payloadLen total : ℕ) :
    value (responseReads dev base pos payloadLen total) =
      (decodePayload dev.desc.spec dev.desc.modbusBigEndian
        ((base.drop pos).drop dev.desc.spec.hdr) payloadLen).elim
          (some (Cut.skip (.skip .undecodable))) fun row => some (response dev total row) := by
  rw [responseReads, value_bind, value_decodePayloadReads, List.drop_drop]
  cases decodePayload dev.desc.spec dev.desc.modbusBigEndian _ payloadLen with
  | none => rfl
  | some row => rfl

theorem value_mbapFrameReads (dev : DevicePtr) (base : Bytes) (pos : ℕ) :
    value (mbapFrameReads dev base pos) = mbapFrame dev (base.drop pos) := by
  unfold mbapFrameReads mbapFrame
  simp only [value_ite, value_bind, value_pure, value_mbapLenReads, value_responseReads,
    List.length_drop]
  cases decodePayload dev.desc.spec dev.desc.modbusBigEndian
      ((base.drop pos).drop dev.desc.spec.hdr) (6 + mbapLen (base.drop pos) - dev.desc.spec.hdr) with
  | none => rfl
  | some row => rfl

theorem value_fixedFrameReads (dev : DevicePtr) (base : Bytes) (pos : ℕ) :
    value (fixedFrameReads dev base pos) = fixedFrame dev (base.drop pos) := by
  unfold fixedFrameReads fixedFrame
  simp only [value_ite, value_pure, value_responseReads, List.length_drop]
  cases decodePayload dev.desc.spec dev.desc.modbusBigEndian
      ((base.drop pos).drop dev.desc.spec.hdr) dev.desc.spec.payloadMin.toNat with
  | none => rfl
  | some row => rfl

section Passes

variable {dev : DevicePtr} {recvMs : Int} {base : Bytes} {s : FeedLoop}

theorem FeedLoop.suffix_skip (behind : s.pending <:+ base) (count : ℕ) :
    (s.skip count).pending <:+ base :=
  (List.drop_suffix count s.pending).trans behind

theorem FeedLoop.suffix_follow (behind : s.pending <:+ base) {decision : Option (Cut FeedNote)}
    {next : FeedLoop} (again : s.follow recvMs decision = .again next) : next.pending <:+ base := by
  cases decision with
  | none => cases again
  | some cut =>
    cases again
    exact FeedLoop.suffix_take behind recvMs cut

/-- Another pass starts further on in the same buffer. -/
theorem suffix_modbusPass (behind : s.pending <:+ base) {next : FeedLoop}
    (again : modbusPass dev recvMs s = .again next) : next.pending <:+ base := by
  unfold modbusPass at again
  split at again
  · unfold mbapPass at again
    split at again
    · cases again
    · exact FeedLoop.suffix_follow (FeedLoop.suffix_skip behind _) again
  · unfold fixedPass at again
    split at again
    · cases again
    · exact FeedLoop.suffix_follow behind again

theorem value_mbapPassReads (behind : s.pending <:+ base) :
    value (mbapPassReads dev recvMs base s) = mbapPass dev recvMs s := by
  have enough : base.length ≤ s.pos base + s.pending.length := by
    unfold FeedLoop.pos
    omega
  rw [mbapPassReads, mbapPass, value_bind, value_syncScanReads _ _ _ enough,
    FeedLoop.drop_pos behind]
  cases syncScan s.pending with
  | none => rfl
  | some distance =>
    simp only [value_bind, value_pure]
    rw [value_mbapFrameReads, FeedLoop.drop_pos (FeedLoop.suffix_skip behind distance)]

theorem value_fixedPassReads (behind : s.pending <:+ base) :
    value (fixedPassReads dev recvMs base s) = fixedPass dev recvMs s := by
  rw [fixedPassReads, fixedPass, value_ite, value_bind, value_pure, value_pure,
    value_fixedFrameReads, FeedLoop.drop_pos behind]

theorem value_modbusPassReads (behind : s.pending <:+ base) :
    value (modbusPassReads dev recvMs base s) = modbusPass dev recvMs s := by
  rw [modbusPassReads, modbusPass, value_ite, value_mbapPassReads behind,
    value_fixedPassReads behind]

theorem value_modbusLoopReads (fuel : ℕ) (behind : s.pending <:+ base) :
    value (modbusLoopReads dev recvMs base fuel s) = modbusLoop dev recvMs fuel s := by
  induction fuel generalizing s with
  | zero => rfl
  | succ fuel ih =>
    rw [modbusLoopReads, modbusLoop, value_bind, value_modbusPassReads behind]
    cases pass : modbusPass dev recvMs s with
    | again next => exact ih (suffix_modbusPass behind pass)
    | done final => rfl
    | abandoned final => rfl

end Passes

/-- **Noting changes nothing** about `feedModbus`. -/
theorem value_feedModbusReads (dev : DevicePtr) (st : DeviceStream) (data : Bytes) (recvMs : Int) :
    value (feedModbusReads dev st data recvMs) = feedModbus dev st data recvMs := by
  have loop : ∀ (fuel : ℕ) (st' : DeviceStream),
      value (modbusLoopReads dev recvMs (st.buf ++ data) fuel ⟨st.buf ++ data, st', []⟩) =
        modbusLoop dev recvMs fuel ⟨st.buf ++ data, st', []⟩ :=
    fun fuel st' => value_modbusLoopReads fuel (List.suffix_refl _)
  unfold feedModbusReads feedModbus
  simp only [value_ite, value_pure, value_bind, loop]
  congr 3
  cases modbusLoop dev recvMs _ _ with
  | again s => rfl
  | done s => rfl
  | abandoned s => rfl

end EtherAdapter
