/-
**The custom_data slicer** (`FrameCodec::feed`).

One frame is a 6-byte header, the payload, and for some event devices a trailing delimiter:
`[frameType][flag][frameLen LE16][sequenceId 2][payload …][flag]`. The `while` body is split the
way it reads and writes: `feedStep` looks at the bytes from `pos` on and decides (wait, drop one
byte, or take a frame), `feedBody` carries the decision out on the stream's counters and the rows
pushed so far.

`customSlicer` is the same decision as an incremental slicer, and **`feed_eq`** says that `feed`
is that slicer, with every cut counted and every frame's records pushed. The pending buffer never
comes near the 256 KiB the last lines of `feed` cut it down to (`rest_length_lt`).
-/

import EtherAdapter.Model.Stream

namespace EtherAdapter

open Slicing

/-! ### The decision at one position -/

/-- `sizeof(customHeader)`. -/
def kHeaderSize : ℕ := 6

/-- An accepted header: the member it selects, its payload size and its trailing delimiter. -/
structure FrameShape where
  dev : DevicePtr
  payloadBytes : ℕ
  trailFlag : UInt8
deriving DecidableEq, Repr

namespace FrameShape

def tail (shape : FrameShape) : ℕ := if shape.trailFlag ≠ 0 then 1 else 0

def frameBytes (shape : FrameShape) : ℕ := kHeaderSize + shape.payloadBytes + shape.tail

/-- The configured record size, or the whole payload. -/
def recordBytes (shape : FrameShape) : ℕ :=
  if 0 < shape.dev.desc.spec.frameLen then shape.dev.desc.spec.frameLen.toNat
  else shape.payloadBytes

def records (shape : FrameShape) : ℕ :=
  if 0 < shape.recordBytes ∧ shape.recordBytes ≤ shape.payloadBytes ∧
      shape.payloadBytes % shape.recordBytes = 0 then
    shape.payloadBytes / shape.recordBytes
  else 1

theorem records_pos (shape : FrameShape) : 0 < shape.records := by
  unfold records
  split
  · rename_i several
    exact Nat.div_pos several.2.1 several.1
  · exact Nat.one_pos

end FrameShape

/-- The little-endian length field of a header. -/
def headerLen (h : Bytes) : ℕ := (byteAt h 2).toNat ||| ((byteAt h 3).toNat <<< 8)

/-- The payload size a header stands for: its length field, 0 meaning one configured record. -/
def payloadBytesOf (spec : FrameSpec) (h : Bytes) : ℕ :=
  if headerLen h = 0 then (if 0 < spec.frameLen then spec.frameLen.toNat else 0) else headerLen h

/-- Delimiters are a property of event frames; a status frame carries none. -/
def DeviceDesc.leadFlag (device : DeviceDesc) : UInt8 :=
  if device.isEvent then device.spec.startFlag else 0

def DeviceDesc.trailFlag (device : DeviceDesc) : UInt8 :=
  if device.isEvent then device.spec.endFlag else 0

/-- Steps 1 to 3 of `feed`: the checks on the six header bytes. -/
def checkHeader (group : DeviceGroup) (h : Bytes) : Except FeedSkip FrameShape :=
  match group.byFrameType (byteAt h 0).toNat with
  | none => .error .unknownType
  | some dev =>
    let spec := dev.desc.spec
    if spec.fields = [] then .error .noFields
    else if dev.desc.leadFlag ≠ 0 ∧ byteAt h 1 ≠ dev.desc.leadFlag then .error .flagMiss
    else
      let shape : FrameShape := ⟨dev, payloadBytesOf spec h, dev.desc.trailFlag⟩
      if shape.payloadBytes = 0 ∨ shape.payloadBytes < spec.payloadMin.toNat then
        .error .badLength
      else if kMaxFrame < shape.frameBytes then .error .tooLong
      else .ok shape

/-- The record loop: rows are pushed until a record does not decode. -/
def decodeRecords (spec : FrameSpec) (be : Bool) (recordBytes : ℕ) :
    ℕ → Bytes → List (List Cell) × Bool
  | 0, _ => ([], true)
  | records + 1, p =>
    match decodePayload spec be p recordBytes with
    | none => ([], false)
    | some row =>
      let later := decodeRecords spec be recordBytes records (p.drop recordBytes)
      (row :: later.1, later.2)

/-- Step 4 of `feed`: the frame at the front of `h`. -/
def takeFrame (shape : FrameShape) (h : Bytes) : FeedNote :=
  let decoded := decodeRecords shape.dev.desc.spec shape.dev.desc.bigEndian shape.recordBytes
    shape.records (h.drop kHeaderSize)
  .frame shape.dev (shape.tail ≠ 0 ∧ byteAt h (shape.frameBytes - 1) ≠ shape.trailFlag)
    decoded.1 decoded.2

/-- The decision of one pass through the `while` body, on the bytes from `pos` on. -/
def feedStep (group : DeviceGroup) (h : Bytes) : Option (Cut FeedNote) :=
  if h.length < kHeaderSize then none
  else
    match checkHeader group h with
    | .error why => some (Cut.skip (.skip why))
    | .ok shape =>
      if h.length < shape.frameBytes then none
      else some ⟨shape.frameBytes, true, takeFrame shape h⟩

/-! ### The loop -/

/-- One pass through the `while` body; `none` is `break` or a false loop condition. -/
def feedBody (group : DeviceGroup) (recvMs : Int) (s : FeedLoop) : Option FeedLoop :=
  (feedStep group s.pending).map (s.take recvMs)

def feedLoop (group : DeviceGroup) (recvMs : Int) : ℕ → FeedLoop → FeedLoop
  | 0, s => s
  | fuel + 1, s =>
    match feedBody group recvMs s with
    | none => s
    | some s' => feedLoop group recvMs fuel s'

/-- `FrameCodec::feed`: the stream afterwards, and the rows pushed to the sink. Every pass drops at
least one byte, so one pass more than there are bytes is enough. -/
def feed (group : DeviceGroup) (st : DeviceStream) (data : Bytes) (recvMs : Int) :
    DeviceStream × List Row :=
  let buf := st.buf ++ data
  let done := feedLoop group recvMs (buf.length + 1)
    ⟨buf, { st with bytesIn := st.bytesIn + data.length }, []⟩
  (done.st.compact done.pending, done.rows)

/-! ### `feed` as an incremental slicer -/

/-- The header checks read the header only. -/
theorem checkHeader_append (group : DeviceGroup) {h : Bytes} (long : kHeaderSize ≤ h.length)
    (more : Bytes) : checkHeader group (h ++ more) = checkHeader group h := by
  unfold kHeaderSize at long
  unfold checkHeader payloadBytesOf headerLen
  rw [byteAt_append (by omega), byteAt_append (by omega), byteAt_append (by omega),
    byteAt_append (by omega)]

/-- What an accepted header guarantees. -/
structure FrameShape.Accepted (shape : FrameShape) : Prop where
  fields : shape.dev.desc.spec.fields ≠ []
  payload_pos : 0 < shape.payloadBytes
  payloadMin_le : shape.dev.desc.spec.payloadMin.toNat ≤ shape.payloadBytes
  frameBytes_le : shape.frameBytes ≤ kMaxFrame

/-- **Inversion of `checkHeader`**: the type byte selects the member, the member the delimiter, and
the sizes have passed their checks. -/
theorem checkHeader_cases {group : DeviceGroup} {h : Bytes} {shape : FrameShape}
    (accepted : checkHeader group h = .ok shape) :
    group.byFrameType (byteAt h 0).toNat = some shape.dev ∧
      shape.trailFlag = shape.dev.desc.trailFlag ∧ shape.Accepted := by
  unfold checkHeader at accepted
  split at accepted
  · cases accepted
  rename_i dev selected
  simp only at accepted
  split at accepted
  · cases accepted
  rename_i fields
  split at accepted
  · cases accepted
  split at accepted
  · cases accepted
  rename_i length
  split at accepted
  · cases accepted
  rename_i size
  cases accepted
  rw [not_or] at length
  exact ⟨selected, rfl, fields, Nat.pos_of_ne_zero length.1, Nat.le_of_not_lt length.2,
    Nat.le_of_not_lt size⟩

theorem accepted_of_checkHeader {group : DeviceGroup} {h : Bytes} {shape : FrameShape}
    (accepted : checkHeader group h = .ok shape) : shape.Accepted :=
  (checkHeader_cases accepted).2.2

/-- Every field that a record admits lies in the frame's payload, record by record. -/
theorem FrameShape.Accepted.record_fits {shape : FrameShape} (accepted : shape.Accepted)
    {k : ℕ} (index : k < shape.records) {field : FieldDesc}
    (member : field ∈ shape.dev.desc.spec.fields) (admitted : field.extent ≤ shape.recordBytes) :
    k * shape.recordBytes + field.extent ≤ shape.payloadBytes := by
  by_cases several : 0 < shape.recordBytes ∧ shape.recordBytes ≤ shape.payloadBytes ∧
      shape.payloadBytes % shape.recordBytes = 0
  · rw [records, if_pos several] at index
    calc k * shape.recordBytes + field.extent
        ≤ (k + 1) * shape.recordBytes := by rw [Nat.add_mul, Nat.one_mul]; omega
      _ ≤ shape.payloadBytes / shape.recordBytes * shape.recordBytes :=
          Nat.mul_le_mul_right _ index
      _ ≤ shape.payloadBytes := Nat.div_mul_le_self _ _
  · -- a single record, possibly longer than the payload: a 32-bit wrap is the only way out of
    -- `payloadMin`, and no record is that long
    rw [records, if_neg several, Nat.lt_one_iff] at index
    rw [index, Nat.zero_mul, Nat.zero_add]
    rcases shape.dev.desc.spec.extent_le_payloadMin member with inside | wraps
    · exact Nat.le_trans inside accepted.payloadMin_le
    · have short : shape.recordBytes < 2 ^ 32 := by
        unfold recordBytes
        have int := shape.dev.desc.spec.frameLen_lt
        have frame := accepted.frameBytes_le
        unfold frameBytes kMaxFrame at frame
        split <;> omega
      omega

theorem decodeRecords_congr {spec : FrameSpec} {be : Bool} {recordBytes : ℕ} (records : ℕ) :
    ∀ {size : ℕ} {p q : Bytes}, AgreeOn size p q →
      (∀ k < records, ∀ field ∈ spec.fields, field.extent ≤ recordBytes →
        k * recordBytes + field.extent ≤ size) →
      decodeRecords spec be recordBytes records p = decodeRecords spec be recordBytes records q := by
  induction records with
  | zero => intros; rfl
  | succ records ih =>
    intro size p q agree inside
    have first : decodePayload spec be p recordBytes = decodePayload spec be q recordBytes := by
      refine decodePayload_congr agree (fun field member admitted => ?_) be
      have here := inside 0 (Nat.succ_pos _) field member admitted
      rwa [Nat.zero_mul, Nat.zero_add] at here
    have later := ih (agree.drop recordBytes) fun k index field member admitted => by
      have here := inside (k + 1) (Nat.succ_lt_succ index) field member admitted
      rw [Nat.add_mul, Nat.one_mul] at here
      omega
    rw [decodeRecords, decodeRecords, first, later]

/-- A frame that has arrived in full is not changed by what follows it. -/
theorem takeFrame_append {shape : FrameShape} (accepted : shape.Accepted) {h : Bytes}
    (whole : shape.frameBytes ≤ h.length) (more : Bytes) :
    takeFrame shape (h ++ more) = takeFrame shape h := by
  have sizes : kHeaderSize + shape.payloadBytes ≤ shape.frameBytes := Nat.le_add_right _ _
  have agree : AgreeOn shape.payloadBytes ((h ++ more).drop kHeaderSize) (h.drop kHeaderSize) :=
    ((agreeOn_append h more).symm.drop kHeaderSize).mono (by omega)
  have last : byteAt (h ++ more) (shape.frameBytes - 1) = byteAt h (shape.frameBytes - 1) :=
    byteAt_append (by unfold kHeaderSize at sizes; omega) more
  unfold takeFrame
  rw [last, decodeRecords_congr shape.records agree fun k index field member admitted =>
    accepted.record_fits index member admitted]

/-- Inversion of `feedStep`: a dropped byte, or a whole frame. -/
theorem feedStep_cases {group : DeviceGroup} {h : Bytes} {cut : Cut FeedNote}
    (decided : feedStep group h = some cut) :
    kHeaderSize ≤ h.length ∧
      ((∃ why, checkHeader group h = .error why ∧ cut = Cut.skip (.skip why)) ∨
        ∃ shape, checkHeader group h = .ok shape ∧ shape.frameBytes ≤ h.length ∧
          cut = ⟨shape.frameBytes, true, takeFrame shape h⟩) := by
  unfold feedStep at decided
  split at decided
  · cases decided
  rename_i long
  refine ⟨Nat.le_of_not_lt long, ?_⟩
  split at decided
  · rename_i why checked
    exact Or.inl ⟨why, checked, (Option.some.inj decided).symm⟩
  · rename_i shape checked
    split at decided
    · cases decided
    · rename_i whole
      exact Or.inr ⟨shape, checked, Nat.le_of_not_lt whole, (Option.some.inj decided).symm⟩

/-- A position with a whole header is undecided only while its accepted frame is incomplete. -/
theorem feedStep_eq_none {group : DeviceGroup} {h : Bytes} (undecided : feedStep group h = none) :
    h.length < kHeaderSize ∨ kHeaderSize ≤ h.length ∧
      ∃ shape, checkHeader group h = .ok shape ∧ h.length < shape.frameBytes := by
  unfold feedStep at undecided
  split at undecided
  · rename_i short
    exact Or.inl short
  · rename_i long
    split at undecided
    · cases undecided
    · rename_i shape checked
      split at undecided
      · rename_i incomplete
        exact Or.inr ⟨Nat.le_of_not_lt long, shape, checked, incomplete⟩
      · cases undecided

section Decided

variable {group : DeviceGroup} {h : Bytes} {cut : Cut FeedNote}

theorem feedStep_size_pos (decided : feedStep group h = some cut) : 0 < cut.size := by
  obtain ⟨_, ⟨why, _, rfl⟩ | ⟨shape, _, _, rfl⟩⟩ := feedStep_cases decided
  · exact Nat.one_pos
  · simp only [FrameShape.frameBytes, kHeaderSize]
    omega

theorem feedStep_size_le (decided : feedStep group h = some cut) : cut.size ≤ h.length := by
  obtain ⟨long, ⟨why, _, rfl⟩ | ⟨shape, _, whole, rfl⟩⟩ := feedStep_cases decided
  · simp only [kHeaderSize, Cut.skip] at long ⊢
    omega
  · exact whole

theorem feedStep_skip_one (decided : feedStep group h = some cut) (dropped : cut.isFrame = false) :
    cut.size = 1 := by
  obtain ⟨_, ⟨why, _, rfl⟩ | ⟨shape, _, _, rfl⟩⟩ := feedStep_cases decided
  · rfl
  · cases dropped

/-- A decision stands whatever follows. -/
theorem feedStep_append (more : Bytes) (decided : feedStep group h = some cut) :
    feedStep group (h ++ more) = some cut := by
  obtain ⟨long, ⟨why, checked, rfl⟩ | ⟨shape, checked, whole, rfl⟩⟩ := feedStep_cases decided
  · have longer : ¬ (h ++ more).length < kHeaderSize := by
      rw [List.length_append]
      omega
    rw [feedStep, if_neg longer, checkHeader_append group long, checked]
  · have longer : ¬ (h ++ more).length < kHeaderSize := by
      rw [List.length_append]
      omega
    have wholeLonger : ¬ (h ++ more).length < shape.frameBytes := by
      rw [List.length_append]
      omega
    rw [feedStep, if_neg longer, checkHeader_append group long, checked]
    simp only [if_neg wholeLonger, takeFrame_append (accepted_of_checkHeader checked) whole]

end Decided

/-- **`feed`'s decisions form an incremental slicer.** -/
def customSlicer (group : DeviceGroup) : Slicer UInt8 FeedNote where
  step := feedStep group
  size_pos := feedStep_size_pos
  size_le := feedStep_size_le
  skip_one := feedStep_skip_one
  stable := feedStep_append

theorem feedLoop_eq (group : DeviceGroup) (recvMs : Int) (fuel : ℕ) (s : FeedLoop)
    (enough : s.pending.length < fuel) :
    feedLoop group recvMs fuel s = s.finish (customSlicer group) recvMs := by
  induction fuel generalizing s with
  | zero => exact absurd enough (Nat.not_lt_zero _)
  | succ fuel ih =>
    rw [feedLoop, feedBody]
    cases decision : feedStep group s.pending with
    | none => exact (s.finish_of_none recvMs decision).symm
    | some cut =>
      have shorter := (customSlicer group).drop_length_lt decision
      simp only [Option.map_some]
      rw [ih _ (by simp only [FeedLoop.take]; omega)]
      exact FeedLoop.finish_take recvMs decision

/-- What `feed` leaves pending is less than one maximal frame. -/
theorem rest_length_lt (group : DeviceGroup) (buf : Bytes) :
    ((customSlicer group).rest buf).length < kMaxFrame := by
  rcases feedStep_eq_none ((customSlicer group).step_rest buf) with
    short | ⟨_, shape, checked, incomplete⟩
  · unfold kHeaderSize at short
    unfold kMaxFrame
    omega
  · exact Nat.lt_of_lt_of_le incomplete (accepted_of_checkHeader checked).frameBytes_le

/-- **`feed`, in closed form**: slice, count, push; the backlog bound is never reached. -/
theorem feed_eq (group : DeviceGroup) : feed group = DeviceStream.sliced (customSlicer group) := by
  funext st data recvMs
  have loop := feedLoop_eq group recvMs ((st.buf ++ data).length + 1)
    ⟨st.buf ++ data, st.advance data.length st.buf, []⟩ (Nat.lt_succ_self _)
  rw [← DeviceStream.sliced_of_finish _ _ _ _ (rest_length_lt group _) st.buf, ← loop]
  rfl

/-- A dropped byte pushes nothing. -/
theorem customSlicer_silent (group : DeviceGroup) : SilentSkips (customSlicer group) := by
  intro pending cut decided dropped
  obtain ⟨_, ⟨why, _, rfl⟩ | ⟨shape, _, _, rfl⟩⟩ := feedStep_cases decided
  · rfl
  · cases dropped

/-! ### Widths of rows -/

theorem decodeRecords_wide {spec : FrameSpec} {be : Bool} {recordBytes : ℕ} (records : ℕ)
    (p : Bytes) :
    ∀ cells ∈ (decodeRecords spec be recordBytes records p).1,
      cells.length = spec.fields.length := by
  induction records generalizing p with
  | zero => exact fun _ member => by cases member
  | succ records ih =>
    rw [decodeRecords]
    cases decoded : decodePayload spec be p recordBytes with
    | none => exact fun _ member => by cases member
    | some row =>
      intro cells member
      rcases List.mem_cons.mp member with rfl | later
      · exact length_of_decodePayload decoded
      · exact ih _ cells later

theorem feed_wide (group : DeviceGroup) (st : DeviceStream) (data : Bytes) (recvMs : Int) :
    ∀ row ∈ (feed group st data recvMs).2, row.cells.length = row.dev.desc.fieldCount := by
  rw [feed_eq]
  refine sliced_wide (fun decided => ?_) st data recvMs
  obtain ⟨_, ⟨why, _, rfl⟩ | ⟨shape, _, _, rfl⟩⟩ := feedStep_cases decided
  · trivial
  · exact decodeRecords_wide shape.records _

end EtherAdapter
