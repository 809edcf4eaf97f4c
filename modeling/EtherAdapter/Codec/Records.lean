/-
**The records of one frame** (`FrameCodec::feed`, step 4).

One header can carry several records. Rows are pushed inside the record loop, before the later
records are decoded; a frame is still emitted all or nothing, because whether `decodePayload`
succeeds depends on the layout and the record length only, never on the bytes or the record
(`FrameSpec.Admits`).

* `FeedReach` — the loop states of one call of `feed`; what a pass has pushed stays pushed
  (`rows_prefix_of_reach`).
* **`feed_all_or_nothing`** — one row for every record and a good frame, or no row and a bad frame.
* **`feed_records_iff`** — a good frame yields `frameLen / frame_len` records exactly if `frame_len`
  divides the payload or less than two records fit: else the loop falls back to one record.
-/

import EtherAdapter.Runs.Basic
import EtherAdapter.Codec.Chunking

namespace EtherAdapter

open Slicing

/-! ### The passes of a call -/

/-- The loop variables `feed` starts with. -/
def feedStart (st : DeviceStream) (data : Bytes) : FeedLoop :=
  ⟨st.buf ++ data, { st with bytesIn := st.bytesIn + data.length }, []⟩

/-- The loop states of a call: where it starts, and where its passes lead. -/
abbrev FeedReach (group : DeviceGroup) (st : DeviceStream) (data : Bytes) (recvMs : Int) :
    FeedLoop → Prop :=
  Runs.Reach (fun s (_ : Unit) => feedBody group recvMs s) Runs.anyStep (feedStart st data)

/-- A call ends where its loop ends, from whichever of its states that is run on. -/
theorem feed_of_reach {group : DeviceGroup} {st : DeviceStream} {data : Bytes} {recvMs : Int}
    {s : FeedLoop} (reached : FeedReach group st data recvMs s) :
    (feed group st data recvMs).2 = (s.finish (customSlicer group) recvMs).rows := by
  have ending : s.finish (customSlicer group) recvMs =
      (feedStart st data).finish (customSlicer group) recvMs := by
    refine @Runs.Reach.invariant _ _ _ _ _ _ (fun s => s.finish (customSlicer group) recvMs =
      (feedStart st data).finish (customSlicer group) recvMs) reached rfl
      fun s _ s' same _ moved => ?_
    obtain ⟨cut, decided, rfl⟩ := Option.map_eq_some_iff.mp moved
    rw [← same]
    exact FeedLoop.finish_take recvMs decided
  rw [ending, ← feedLoop_eq group recvMs ((st.buf ++ data).length + 1) _ (Nat.lt_succ_self _)]
  rfl

/-- What has been pushed stays pushed. -/
theorem rows_prefix_of_reach {group : DeviceGroup} {st : DeviceStream} {data : Bytes}
    {recvMs : Int} {s : FeedLoop} (reached : FeedReach group st data recvMs s) :
    s.rows <+: (feed group st data recvMs).2 := by
  rw [feed_of_reach reached]
  exact List.prefix_append _ _

/-- **Inversion of a pass over an accepted header**: the frame is there, and it is taken. -/
theorem feedBody_of_checkHeader {group : DeviceGroup} {recvMs : Int} {s s' : FeedLoop}
    (pass : feedBody group recvMs s = some s') {shape : FrameShape}
    (frame : checkHeader group s.pending = .ok shape) :
    s' = s.take recvMs ⟨shape.frameBytes, true, takeFrame shape s.pending⟩ := by
  obtain ⟨cut, decided, rfl⟩ := Option.map_eq_some_iff.mp pass
  obtain ⟨_, ⟨why, refused, _⟩ | ⟨other, checked, _, rfl⟩⟩ := feedStep_cases decided
  · rw [frame] at refused
    cases refused
  · rw [frame] at checked
    cases checked
    rfl

/-! ### What decides whether a record decodes -/

/-- All that `decodePayload` checks. -/
structure FrameSpec.Admits (spec : FrameSpec) (payloadLen : ℕ) : Prop where
  nonempty : spec.fields ≠ []
  payloadMin_le : spec.payloadMin.toNat ≤ payloadLen
  inside : ∀ field ∈ spec.fields, field.extent ≤ payloadLen

section Admits

variable {spec : FrameSpec} {payloadLen : ℕ}

theorem FrameSpec.Admits.decodePayload (admits : spec.Admits payloadLen) (be : Bool) (p : Bytes) :
    decodePayload spec be p payloadLen = some (spec.fields.map (fieldCell be p)) :=
  decodePayload_of_fits admits.nonempty admits.payloadMin_le admits.inside be p

theorem FrameSpec.admits_of_decodePayload {be : Bool} {p : Bytes} {row : List Cell}
    (decoded : EtherAdapter.decodePayload spec be p payloadLen = some row) :
    spec.Admits payloadLen where
  nonempty := fun none => by
    rw [EtherAdapter.decodePayload, if_pos none] at decoded
    cases decoded
  payloadMin_le := payloadMin_le_of_decodePayload decoded
  inside := (eq_of_decodePayload decoded).2

theorem FrameSpec.decodePayload_of_not_admits (refuses : ¬ spec.Admits payloadLen) (be : Bool)
    (p : Bytes) : EtherAdapter.decodePayload spec be p payloadLen = none := by
  cases decoded : EtherAdapter.decodePayload spec be p payloadLen with
  | none => rfl
  | some row => exact absurd (admits_of_decodePayload decoded) refuses

/-- Every record of a layout that fits is decoded. -/
theorem decodeRecords_of_admits (admits : spec.Admits payloadLen) (be : Bool) (records : ℕ)
    (p : Bytes) :
    decodeRecords spec be payloadLen records p =
      ((List.range records).map fun k => spec.fields.map (fieldCell be (p.drop (k * payloadLen))),
        true) := by
  induction records generalizing p with
  | zero => rfl
  | succ records ih =>
    rw [decodeRecords, admits.decodePayload be p, List.range_succ_eq_map, List.map_cons,
      List.map_map, Nat.zero_mul, List.drop_zero]
    simp only [ih]
    refine Prod.ext (congrArg (List.cons _) (List.map_congr_left fun k _ => ?_)) rfl
    rw [Function.comp_apply, List.drop_drop, Nat.succ_mul, Nat.add_comm]

/-- A layout that does not fit fails at the first record, before anything is pushed. -/
theorem decodeRecords_of_not_admits (refuses : ¬ spec.Admits payloadLen) (be : Bool)
    {records : ℕ} (some : 0 < records) (p : Bytes) :
    decodeRecords spec be payloadLen records p = ([], false) := by
  obtain ⟨later, rfl⟩ := Nat.exists_eq_succ_of_ne_zero (Nat.ne_of_gt some)
  rw [decodeRecords, spec.decodePayload_of_not_admits refuses be p]

/-- A record is decoded from its own bytes. -/
theorem decodePayload_take (spec : FrameSpec) (be : Bool) (p : Bytes) (size : ℕ) :
    decodePayload spec be (p.take size) size = decodePayload spec be p size :=
  decodePayload_congr (agreeOn_take p size).symm (fun _ _ admitted => admitted) be

end Admits

/-! ### The rows of a frame -/

/-- The bytes of a frame's record: `size` bytes of the payload behind the header, from `k * size`
on. -/
def recordAt (h : Bytes) (size k : ℕ) : Bytes := ((h.drop kHeaderSize).drop (k * size)).take size

/-- `pushed` are the rows of the first `count` records of the frame at the front of `h`, cut into
records of `size` bytes. -/
structure FrameShape.Pushes (shape : FrameShape) (recvMs : Int) (h : Bytes) (size count : ℕ)
    (pushed : List Row) : Prop where
  length : pushed.length = count
  decoded : ∀ (k : ℕ) row, pushed[k]? = some row →
    row.dev = shape.dev ∧ row.ts = recvMs ∧
      decodePayload shape.dev.desc.spec shape.dev.desc.bigEndian (recordAt h size k) size =
        some row.cells

/-- The rows of a layout that fits its records. -/
theorem FrameShape.pushes_of_admits (shape : FrameShape)
    (admits : shape.dev.desc.spec.Admits shape.recordBytes) (recvMs : Int) (h : Bytes) :
    shape.Pushes recvMs h shape.recordBytes shape.records ((takeFrame shape h).rows recvMs) := by
  simp only [takeFrame, FeedNote.rows, decodeRecords_of_admits admits]
  refine ⟨by rw [List.length_map, List.length_map, List.length_range], fun k row found => ?_⟩
  rw [List.getElem?_map, List.getElem?_map] at found
  obtain ⟨cells, inner, rfl⟩ := Option.map_eq_some_iff.mp found
  obtain ⟨index, ranged, rfl⟩ := Option.map_eq_some_iff.mp inner
  obtain ⟨_, rfl⟩ := List.getElem?_eq_some_iff.mp ranged
  refine ⟨rfl, rfl, ?_⟩
  rw [recordAt, decodePayload_take, admits.decodePayload, List.getElem_range]

section Frame

variable {group : DeviceGroup} {st : DeviceStream} {data : Bytes} {recvMs : Int} {s s' : FeedLoop}
  {shape : FrameShape}

/-- One pass over a frame whose layout fits. -/
theorem feedBody_of_admits (pass : feedBody group recvMs s = some s')
    (frame : checkHeader group s.pending = .ok shape)
    (admits : shape.dev.desc.spec.Admits shape.recordBytes) :
    (∃ pushed, s'.rows = s.rows ++ pushed ∧
        shape.Pushes recvMs s.pending shape.recordBytes shape.records pushed) ∧
      s'.st.frames = s.st.frames + 1 ∧ s'.st.badFrames = s.st.badFrames := by
  have pushes := shape.pushes_of_admits admits recvMs s.pending
  rw [feedBody_of_checkHeader pass frame]
  refine ⟨⟨_, rfl, pushes⟩, ?_⟩
  simp only [FeedLoop.take, takeFrame, decodeRecords_of_admits admits, DeviceStream.count]
  exact ⟨rfl, rfl⟩

/-- One pass over a frame whose layout does not fit. -/
theorem feedBody_of_not_admits (pass : feedBody group recvMs s = some s')
    (frame : checkHeader group s.pending = .ok shape)
    (refuses : ¬ shape.dev.desc.spec.Admits shape.recordBytes) :
    s'.rows = s.rows ∧ s'.st.frames = s.st.frames ∧ s'.st.badFrames = s.st.badFrames + 1 := by
  rw [feedBody_of_checkHeader pass frame]
  simp only [FeedLoop.take, takeFrame, decodeRecords_of_not_admits refuses _ shape.records_pos]
  exact ⟨List.append_nil _, rfl, rfl⟩

/-- **A frame is emitted all or nothing.** -/
theorem feed_all_or_nothing (reached : FeedReach group st data recvMs s)
    (pass : feedBody group recvMs s = some s')
    (frame : checkHeader group s.pending = .ok shape) :
    s'.rows <+: (feed group st data recvMs).2 ∧
      ((∃ pushed, s'.rows = s.rows ++ pushed ∧
            shape.Pushes recvMs s.pending shape.recordBytes shape.records pushed) ∧
          s'.st.frames = s.st.frames + 1 ∧ s'.st.badFrames = s.st.badFrames ∨
        s'.rows = s.rows ∧ s'.st.frames = s.st.frames ∧
          s'.st.badFrames = s.st.badFrames + 1) := by
  refine ⟨rows_prefix_of_reach (reached.step () trivial pass), ?_⟩
  by_cases admits : shape.dev.desc.spec.Admits shape.recordBytes
  · exact Or.inl (feedBody_of_admits pass frame admits)
  · exact Or.inr (feedBody_of_not_admits pass frame admits)

/-- A good frame had a layout that fits. -/
theorem admits_of_counted (pass : feedBody group recvMs s = some s')
    (frame : checkHeader group s.pending = .ok shape)
    (counted : s'.st.frames = s.st.frames + 1) :
    shape.dev.desc.spec.Admits shape.recordBytes := by
  by_contra refuses
  have same := (feedBody_of_not_admits pass frame refuses).2.1
  omega

/-- With a configured record length, the number of records is the quotient exactly if it divides
the payload or less than two records fit. -/
theorem FrameShape.records_eq_iff (sized : 0 < shape.dev.desc.spec.frameLen)
    (long : shape.dev.desc.spec.frameLen.toNat ≤ shape.payloadBytes) :
    shape.records = shape.payloadBytes / shape.dev.desc.spec.frameLen.toNat ↔
      shape.dev.desc.spec.frameLen.toNat ∣ shape.payloadBytes ∨
        shape.payloadBytes < 2 * shape.dev.desc.spec.frameLen.toNat := by
  have size : shape.recordBytes = shape.dev.desc.spec.frameLen.toNat := if_pos sized
  have positive : 0 < shape.dev.desc.spec.frameLen.toNat := by omega
  unfold records
  rw [size]
  by_cases divides : shape.payloadBytes % shape.dev.desc.spec.frameLen.toNat = 0
  · rw [if_pos ⟨positive, long, divides⟩]
    exact ⟨fun _ => Or.inl (Nat.dvd_of_mod_eq_zero divides), fun _ => rfl⟩
  · rw [if_neg fun several => divides several.2.2]
    constructor
    · -- one record, so the quotient is one
      intro one
      refine Or.inr ?_
      have quotient : shape.payloadBytes / shape.dev.desc.spec.frameLen.toNat < 2 := by omega
      exact (Nat.div_lt_iff_lt_mul positive).mp quotient
    · rintro (multiple | short)
      · exact absurd (Nat.mod_eq_zero_of_dvd multiple) divides
      · exact (Nat.div_eq_of_lt_le (by omega) (by omega)).symm

/-- **A good frame carries all of its complete records exactly if the record length divides the
payload or the payload is shorter than two records.** -/
theorem feed_records_iff (reached : FeedReach group st data recvMs s)
    (pass : feedBody group recvMs s = some s')
    (frame : checkHeader group s.pending = .ok shape)
    (counted : s'.st.frames = s.st.frames + 1)
    (sized : 0 < shape.dev.desc.spec.frameLen)
    (long : shape.dev.desc.spec.frameLen.toNat ≤ shape.payloadBytes) :
    (∃ pushed, s'.rows = s.rows ++ pushed ∧ s'.rows <+: (feed group st data recvMs).2 ∧
        shape.Pushes recvMs s.pending shape.dev.desc.spec.frameLen.toNat
          (shape.payloadBytes / shape.dev.desc.spec.frameLen.toNat) pushed) ↔
      shape.dev.desc.spec.frameLen.toNat ∣ shape.payloadBytes ∨
        shape.payloadBytes < 2 * shape.dev.desc.spec.frameLen.toNat := by
  have size : shape.recordBytes = shape.dev.desc.spec.frameLen.toNat := if_pos sized
  obtain ⟨⟨pushed, rows, pushes⟩, _⟩ :=
    feedBody_of_admits pass frame (admits_of_counted pass frame counted)
  rw [size] at pushes
  rw [← shape.records_eq_iff sized long]
  constructor
  · rintro ⟨other, rows', _, pushes'⟩
    have same : pushed = other := List.append_cancel_left (rows.symm.trans rows')
    rw [← pushes.length, same, pushes'.length]
  · intro quotient
    rw [quotient] at pushes
    exact ⟨pushed, rows, rows_prefix_of_reach (reached.step () trivial pass), pushes⟩

end Frame

/-! ### One device with 4-byte records -/

/-- A status device with the records of the event device, two 16-bit values each. -/
def pairDevice : DevicePtr where
  addr := 0
  desc :=
    { spec := { eventDevice.desc.spec with frameType := 1, startFlag := 0, endFlag := 0 } }

def pairGroup : DeviceGroup := ⟨[pairDevice]⟩

/-- A header that announces `size` payload bytes, and that many bytes. -/
def pairFrame (size : UInt8) : Bytes :=
  [1, 0, size, 0, 0, 0] ++ (List.range size.toNat).map UInt8.ofNat

def pairShape (size : ℕ) : FrameShape := ⟨pairDevice, size, 0⟩

/-- The pass over the frame at the front. -/
def pairPass (size : UInt8) : FeedLoop :=
  (feedStart {} (pairFrame size)).take 0
    ⟨(pairShape size.toNat).frameBytes, true, takeFrame (pairShape size.toNat) (pairFrame size)⟩

/-- Ten payload bytes hold two records of four; the frame counts as good and has one row. -/
theorem feed_drops_record :
    FeedReach pairGroup {} (pairFrame 10) 0 (feedStart {} (pairFrame 10)) ∧
      feedBody pairGroup 0 (feedStart {} (pairFrame 10)) = some (pairPass 10) ∧
      checkHeader pairGroup (pairFrame 10) = .ok (pairShape 10) ∧
      (pairPass 10).st.frames = (feedStart {} (pairFrame 10)).st.frames + 1 ∧
      pairDevice.desc.spec.frameLen.toNat ≤ (pairShape 10).payloadBytes ∧
      (feed pairGroup {} (pairFrame 10) 0).2.length = 1 ∧
      ¬ ∃ pushed, (pairPass 10).rows = (feedStart {} (pairFrame 10)).rows ++ pushed ∧
        (pairShape 10).Pushes 0 (pairFrame 10) pairDevice.desc.spec.frameLen.toNat
          (10 / pairDevice.desc.spec.frameLen.toNat) pushed := by
  refine ⟨Runs.Reach.start, rfl, by decide, rfl, by decide, by decide, ?_⟩
  rintro ⟨pushed, rows, pushes⟩
  have one : pushed.length = 1 := by
    rw [← List.nil_append pushed]
    exact (congrArg List.length rows).symm.trans rfl
  have two := pushes.length
  rw [one] at two
  exact absurd two (by decide)

theorem feed_records_pairs :
    ∃ pushed, (pairPass 8).rows = (feedStart {} (pairFrame 8)).rows ++ pushed ∧
      (pairPass 8).rows <+: (feed pairGroup {} (pairFrame 8) 0).2 ∧
      (pairShape 8).Pushes 0 (pairFrame 8) 4 (8 / 4) pushed :=
  (@feed_records_iff pairGroup {} (pairFrame 8) 0 _ (pairPass 8) (pairShape 8)
    Runs.Reach.start rfl (by decide) rfl (by decide) (by decide)).mpr (Or.inl (by decide))

theorem feed_all_or_nothing_pairs :
    (pairPass 10).rows <+: (feed pairGroup {} (pairFrame 10) 0).2 ∧
      ((∃ pushed, (pairPass 10).rows = (feedStart {} (pairFrame 10)).rows ++ pushed ∧
            (pairShape 10).Pushes 0 (pairFrame 10) 4 1 pushed) ∧
          (pairPass 10).st.frames = 0 + 1 ∧ (pairPass 10).st.badFrames = 0 ∨
        (pairPass 10).rows = (feedStart {} (pairFrame 10)).rows ∧
          (pairPass 10).st.frames = 0 ∧ (pairPass 10).st.badFrames = 0 + 1) :=
  @feed_all_or_nothing pairGroup {} (pairFrame 10) 0 _ (pairPass 10) (pairShape 10)
    Runs.Reach.start rfl (by decide)

end EtherAdapter
