/-
**The Modbus response slicer** (`FrameCodec::feedModbus`).

The response header length is the device's `frame_type`: 9 or 7 for responses with an MBAP prefix
`[tid 2][pid 2][len 2]`, whose start is found by a scan for a zero protocol id; 2 or 0 for
responses without one, which are sliced at the fixed length `header + payloadMin`.

The scan runs over many bytes at once and, when it finds nothing, keeps the last three. The
per-byte decision `modbusStep` has no scan: a byte without a zero protocol id two bytes behind it
is dropped. **`feedModbus_eq`** says that the two are the same slicer.
-/

import EtherAdapter.Model.Stream

namespace EtherAdapter

open Slicing

/-! ### One pass of the loop -/

/-- The response header length, carried by `frame_type`. -/
def FrameSpec.hdr (spec : FrameSpec) : ℕ := spec.frameType.toNat

/-- Responses with an MBAP prefix. -/
def FrameSpec.hasMbap (spec : FrameSpec) : Bool := spec.hdr = 7 ∨ spec.hdr = 9

/-- The protocol id, two bytes behind the position, is zero. -/
def zeroProtocolId (h : Bytes) : Bool := byteAt h 2 = 0 ∧ byteAt h 3 = 0

/-- The big-endian MBAP length field. -/
def mbapLen (h : Bytes) : ℕ := ((byteAt h 4).toNat <<< 8) ||| (byteAt h 5).toNat

/-- The sync scan: the distance to the first zero protocol id, as far as there are four bytes to
look at. -/
def syncScan : Bytes → Option ℕ
  | [] => none
  | byte :: more =>
    if (byte :: more).length < 4 then none
    else if zeroProtocolId (byte :: more) then some 0
    else (syncScan more).map (· + 1)

/-- A response decoded into one row. -/
def response (dev : DevicePtr) (total : ℕ) (row : List Cell) : Cut FeedNote :=
  ⟨total, true, .frame dev false [row] true⟩

/-- The decision at a zero protocol id; `none` waits for more bytes. -/
def mbapFrame (dev : DevicePtr) (h : Bytes) : Option (Cut FeedNote) :=
  let spec := dev.desc.spec
  if h.length < 6 then none
  else if mbapLen h < 1 then some (Cut.skip (.skip .badMbapLength))
  else
    let total := 6 + mbapLen h
    if kMaxFrame < total ∨ total < spec.hdr then some (Cut.skip (.skip .badMbapLength))
    else if h.length < total then none
    else if total - spec.hdr < spec.payloadMin.toNat then some (Cut.skip (.skip .shortPayload))
    else
      match decodePayload spec dev.desc.modbusBigEndian (h.drop spec.hdr) (total - spec.hdr) with
      | none => some (Cut.skip (.skip .undecodable))
      | some row => some (response dev total row)

/-- The size of a response without an MBAP prefix. -/
def FrameSpec.fixedTotal (spec : FrameSpec) : ℕ := spec.hdr + spec.payloadMin.toNat

/-- The decision on a response without an MBAP prefix. -/
def fixedFrame (dev : DevicePtr) (h : Bytes) : Option (Cut FeedNote) :=
  let spec := dev.desc.spec
  if h.length < spec.fixedTotal then none
  else
    match decodePayload spec dev.desc.modbusBigEndian (h.drop spec.hdr) spec.payloadMin.toNat with
    | none => some (Cut.skip (.skip .undecodable))
    | some row => some (response dev spec.fixedTotal row)

/-- How a pass through the loop ends: another pass, `break`, or `return` with the buffer as it
is. -/
inductive Pass where
  | again (s : FeedLoop)
  | done (s : FeedLoop)
  | abandoned (s : FeedLoop)

/-- Drop `count` bytes, all counted as re-synchronisation. -/
def FeedLoop.skip (s : FeedLoop) (count : ℕ) : FeedLoop :=
  { s with
    pending := s.pending.drop count
    st := { s.st with resyncs := s.st.resyncs + count } }

/-- Carry a decision out, or leave the loop. -/
def FeedLoop.follow (s : FeedLoop) (recvMs : Int) : Option (Cut FeedNote) → Pass
  | none => .done s
  | some cut => .again (s.take recvMs cut)

/-- The MBAP branch. Without a zero protocol id, all but the last three bytes are dropped: a split
one may complete. -/
def mbapPass (dev : DevicePtr) (recvMs : Int) (s : FeedLoop) : Pass :=
  match syncScan s.pending with
  | none =>
    let keep := if 3 < s.pending.length then 3 else s.pending.length
    .done (s.skip (s.pending.length - keep))
  | some distance =>
    let s := s.skip distance
    s.follow recvMs (mbapFrame dev s.pending)

/-- The branch without an MBAP prefix. -/
def fixedPass (dev : DevicePtr) (recvMs : Int) (s : FeedLoop) : Pass :=
  if kMaxFrame < dev.desc.spec.fixedTotal then .abandoned s
  else s.follow recvMs (fixedFrame dev s.pending)

def modbusPass (dev : DevicePtr) (recvMs : Int) (s : FeedLoop) : Pass :=
  if dev.desc.spec.hasMbap then mbapPass dev recvMs s else fixedPass dev recvMs s

/-- The `while (true)` loop; out of fuel it abandons, which `modbusLoop_eq` rules out. -/
def modbusLoop (dev : DevicePtr) (recvMs : Int) : ℕ → FeedLoop → Pass
  | 0, s => .abandoned s
  | fuel + 1, s =>
    match modbusPass dev recvMs s with
    | .again s => modbusLoop dev recvMs fuel s
    | other => other

/-- `FrameCodec::feedModbus`: the stream afterwards, and the rows pushed to the sink. -/
def feedModbus (dev : DevicePtr) (st : DeviceStream) (data : Bytes) (recvMs : Int) :
    DeviceStream × List Row :=
  let spec := dev.desc.spec
  let st := { st with bytesIn := st.bytesIn + data.length }
  if spec.fields = [] then (st, [])
  else if ¬ spec.isModbusHeaderLen then ({ st with badFrames := st.badFrames + 1 }, [])
  else if spec.payloadMin = 0 then ({ st with badFrames := st.badFrames + 1 }, [])
  else
    let st := { st with buf := st.buf ++ data }
    match modbusLoop dev recvMs (st.buf.length + 1) ⟨st.buf, st, []⟩ with
    | .again s | .abandoned s => (s.st, s.rows)
    | .done s => (s.st.compact s.pending, s.rows)

/-! ### The decision, byte by byte -/

/-- The decision on the bytes from `pos` on, without a scan. -/
def modbusStep (dev : DevicePtr) (h : Bytes) : Option (Cut FeedNote) :=
  if dev.desc.spec.hasMbap then
    if h.length < 4 then none
    else if ¬ zeroProtocolId h then some (Cut.skip (.skip .noProtocolId))
    else mbapFrame dev h
  else fixedFrame dev h

theorem zeroProtocolId_append {h : Bytes} (long : 4 ≤ h.length) (more : Bytes) :
    zeroProtocolId (h ++ more) = zeroProtocolId h := by
  unfold zeroProtocolId
  rw [byteAt_append (by omega), byteAt_append (by omega)]

theorem mbapLen_append {h : Bytes} (long : 6 ≤ h.length) (more : Bytes) :
    mbapLen (h ++ more) = mbapLen h := by
  unfold mbapLen
  rw [byteAt_append (by omega), byteAt_append (by omega)]

/-- A response that has arrived in full decodes the same whatever follows it. -/
theorem decodePayload_drop_append (spec : FrameSpec) (be : Bool) {h : Bytes} {hdr payloadLen : ℕ}
    (whole : hdr + payloadLen ≤ h.length) (more : Bytes) :
    decodePayload spec be ((h ++ more).drop hdr) payloadLen =
      decodePayload spec be (h.drop hdr) payloadLen := by
  have agree : AgreeOn payloadLen ((h ++ more).drop hdr) (h.drop hdr) :=
    ((agreeOn_append h more).symm.drop hdr).mono (by omega)
  exact decodePayload_congr agree (fun _ _ admitted => admitted) be

/-- Inversion of `mbapFrame`: a dropped byte, or a whole response. -/
theorem mbapFrame_cases {dev : DevicePtr} {h : Bytes} {cut : Cut FeedNote}
    (decided : mbapFrame dev h = some cut) :
    6 ≤ h.length ∧ ((∃ why, cut = Cut.skip (.skip why)) ∨
      ∃ row, 6 + mbapLen h ≤ h.length ∧ row.length = dev.desc.fieldCount ∧
        cut = response dev (6 + mbapLen h) row) := by
  unfold mbapFrame at decided
  simp only at decided
  split at decided
  · cases decided
  rename_i long
  refine ⟨Nat.le_of_not_lt long, ?_⟩
  split at decided
  · exact Or.inl ⟨_, (Option.some.inj decided).symm⟩
  split at decided
  · exact Or.inl ⟨_, (Option.some.inj decided).symm⟩
  split at decided
  · cases decided
  rename_i whole
  split at decided
  · exact Or.inl ⟨_, (Option.some.inj decided).symm⟩
  split at decided
  · exact Or.inl ⟨_, (Option.some.inj decided).symm⟩
  · rename_i decoded
    exact Or.inr ⟨_, Nat.le_of_not_lt whole, length_of_decodePayload decoded,
      (Option.some.inj decided).symm⟩

theorem mbapFrame_append {dev : DevicePtr} {h : Bytes} {cut : Cut FeedNote}
    (decided : mbapFrame dev h = some cut) (more : Bytes) :
    mbapFrame dev (h ++ more) = some cut := by
  unfold mbapFrame at decided ⊢
  simp only at decided ⊢
  have longer : (h ++ more).length = h.length + more.length := List.length_append
  by_cases short : h.length < 6
  · rw [if_pos short] at decided
    cases decided
  rw [if_neg short] at decided
  rw [if_neg (by omega), mbapLen_append (Nat.le_of_not_lt short)]
  by_cases empty : mbapLen h < 1
  · rw [if_pos empty] at decided ⊢
    exact decided
  rw [if_neg empty] at decided ⊢
  by_cases outside : kMaxFrame < 6 + mbapLen h ∨ 6 + mbapLen h < dev.desc.spec.hdr
  · rw [if_pos outside] at decided ⊢
    exact decided
  rw [if_neg outside] at decided ⊢
  by_cases incomplete : h.length < 6 + mbapLen h
  · rw [if_pos incomplete] at decided
    cases decided
  rw [if_neg incomplete] at decided
  rw [if_neg (by omega), decodePayload_drop_append _ _ (by omega)]
  exact decided

/-- Inversion of `fixedFrame`. -/
theorem fixedFrame_cases {dev : DevicePtr} {h : Bytes} {cut : Cut FeedNote}
    (decided : fixedFrame dev h = some cut) :
    dev.desc.spec.fixedTotal ≤ h.length ∧ (cut = Cut.skip (.skip .undecodable) ∨
      ∃ row, row.length = dev.desc.fieldCount ∧
        cut = response dev dev.desc.spec.fixedTotal row) := by
  unfold fixedFrame at decided
  simp only at decided
  split at decided
  · cases decided
  rename_i whole
  refine ⟨Nat.le_of_not_lt whole, ?_⟩
  split at decided
  · exact Or.inl (Option.some.inj decided).symm
  · rename_i decoded
    exact Or.inr ⟨_, length_of_decodePayload decoded, (Option.some.inj decided).symm⟩

theorem fixedFrame_append {dev : DevicePtr} {h : Bytes} {cut : Cut FeedNote}
    (decided : fixedFrame dev h = some cut) (more : Bytes) :
    fixedFrame dev (h ++ more) = some cut := by
  have whole := (fixedFrame_cases decided).1
  have longer : (h ++ more).length = h.length + more.length := List.length_append
  unfold fixedFrame at decided ⊢
  simp only at decided ⊢
  rw [if_neg (Nat.not_lt.mpr whole)] at decided
  rw [if_neg (by omega), decodePayload_drop_append _ _ whole]
  exact decided

/-- Inversion of `modbusStep`: a dropped byte, or a whole response. -/
theorem modbusStep_cases {dev : DevicePtr} {h : Bytes} {cut : Cut FeedNote}
    (positive : 0 < dev.desc.spec.payloadMin.toNat) (decided : modbusStep dev h = some cut) :
    0 < h.length ∧ ((∃ why, cut = Cut.skip (.skip why)) ∨
      ∃ total row, 0 < total ∧ total ≤ h.length ∧ row.length = dev.desc.fieldCount ∧
        cut = response dev total row) := by
  unfold modbusStep at decided
  split at decided
  · split at decided
    · cases decided
    rename_i four
    split at decided
    · exact ⟨by omega, Or.inl ⟨_, (Option.some.inj decided).symm⟩⟩
    · obtain ⟨six, skipped | ⟨row, whole, width, frame⟩⟩ := mbapFrame_cases decided
      · exact ⟨by omega, Or.inl skipped⟩
      · exact ⟨by omega, Or.inr ⟨_, row, by omega, whole, width, frame⟩⟩
  · have sizes : 0 < dev.desc.spec.fixedTotal := Nat.add_pos_right _ positive
    obtain ⟨whole, skipped | ⟨row, width, frame⟩⟩ := fixedFrame_cases decided
    · exact ⟨by omega, Or.inl ⟨_, skipped⟩⟩
    · exact ⟨by omega, Or.inr ⟨_, row, sizes, whole, width, frame⟩⟩

theorem modbusStep_append {dev : DevicePtr} {h : Bytes} {cut : Cut FeedNote}
    (decided : modbusStep dev h = some cut) (more : Bytes) :
    modbusStep dev (h ++ more) = some cut := by
  have longer : (h ++ more).length = h.length + more.length := List.length_append
  unfold modbusStep at decided ⊢
  by_cases mbap : dev.desc.spec.hasMbap = true
  · rw [if_pos mbap] at decided ⊢
    by_cases short : h.length < 4
    · rw [if_pos short] at decided
      cases decided
    rw [if_neg short] at decided
    rw [if_neg (by omega), zeroProtocolId_append (Nat.le_of_not_lt short)]
    by_cases zero : zeroProtocolId h = true
    · rw [if_neg (not_not_intro zero)] at decided ⊢
      exact mbapFrame_append decided more
    · rw [if_pos zero] at decided ⊢
      exact decided
  · rw [if_neg mbap] at decided ⊢
    exact fixedFrame_append decided more

/-- **`feedModbus`'s decisions form an incremental slicer.** -/
def modbusSlicer (dev : DevicePtr) (positive : 0 < dev.desc.spec.payloadMin.toNat) :
    Slicer UInt8 FeedNote where
  step := modbusStep dev
  size_pos := by
    intro h cut decided
    obtain ⟨_, ⟨why, rfl⟩ | ⟨total, row, size, _, _, rfl⟩⟩ := modbusStep_cases positive decided
    · exact Nat.one_pos
    · exact size
  size_le := by
    intro h cut decided
    obtain ⟨some, ⟨why, rfl⟩ | ⟨total, row, _, whole, _, rfl⟩⟩ := modbusStep_cases positive decided
    · exact some
    · exact whole
  skip_one := by
    intro h cut decided dropped
    obtain ⟨_, ⟨why, rfl⟩ | ⟨total, row, _, _, _, rfl⟩⟩ := modbusStep_cases positive decided
    · rfl
    · cases dropped
  stable := fun more decided => modbusStep_append decided more

/-! ### The scan is the per-byte decision -/

/-- Every byte the scan passes over has four bytes to look at and no zero protocol id; where it
stops there is one. -/
theorem syncScan_some {h : Bytes} {distance : ℕ} (found : syncScan h = some distance) :
    (∀ i < distance, 4 ≤ (h.drop i).length ∧ zeroProtocolId (h.drop i) = false) ∧
      4 ≤ (h.drop distance).length ∧ zeroProtocolId (h.drop distance) = true := by
  induction h generalizing distance with
  | nil => cases found
  | cons byte more ih =>
    rw [syncScan] at found
    split at found
    · cases found
    rename_i long
    split at found
    · rename_i zero
      cases found
      exact ⟨fun i inside => absurd inside (Nat.not_lt_zero _), Nat.le_of_not_lt long, zero⟩
    · rename_i nonzero
      obtain ⟨further, scanned, rfl⟩ := Option.map_eq_some_iff.mp found
      obtain ⟨passed, stopped⟩ := ih scanned
      refine ⟨fun i inside => ?_, stopped⟩
      cases i with
      | zero => exact ⟨Nat.le_of_not_lt long, Bool.eq_false_iff.mpr nonzero⟩
      | succ i => exact passed i (Nat.lt_of_succ_lt_succ inside)

/-- When the scan finds nothing, no position with four bytes has a zero protocol id. -/
theorem syncScan_none {h : Bytes} (missed : syncScan h = none) {i : ℕ} (inside : i + 4 ≤ h.length) :
    zeroProtocolId (h.drop i) = false := by
  induction h generalizing i with
  | nil => exact absurd inside (Nat.not_succ_le_zero _)
  | cons byte more ih =>
    rw [syncScan] at missed
    split at missed
    · omega
    split at missed
    · cases missed
    · rename_i nonzero
      cases i with
      | zero => exact Bool.eq_false_iff.mpr nonzero
      | succ i =>
        rw [List.length_cons] at inside
        exact ih (Option.map_eq_none_iff.mp missed) (by omega)

/-- Dropping a run of bytes is dropping them one by one. -/
theorem FeedLoop.finish_skip {S : Slicer UInt8 FeedNote} (recvMs : Int) (count : ℕ) (s : FeedLoop)
    (dropped : ∀ i < count, S.step (s.pending.drop i) = some (Cut.skip (.skip .noProtocolId))) :
    (s.skip count).finish S recvMs = s.finish S recvMs := by
  induction count generalizing s with
  | zero => rfl
  | succ count ih =>
    have first := dropped 0 (Nat.succ_pos _)
    rw [List.drop_zero] at first
    have later := ih (s.take recvMs (Cut.skip (.skip .noProtocolId))) fun i inside => by
      have here := dropped (i + 1) (Nat.succ_lt_succ inside)
      simpa only [take, Cut.skip, List.drop_drop, Nat.add_comm 1 i] using here
    rw [FeedLoop.finish_take recvMs first] at later
    rw [← later]
    simp only [FeedLoop.skip, take, Cut.skip, List.drop_drop, DeviceStream.count, FeedNote.rows,
      List.append_nil, Nat.add_assoc, Nat.add_comm 1 count]

/-- The devices whose responses `feedModbus` slices at all. -/
structure DeviceDesc.Sliceable (device : DeviceDesc) : Prop where
  fields : device.spec.fields ≠ []
  header : device.spec.isModbusHeaderLen = true
  payloadMin_pos : 0 < device.spec.payloadMin.toNat
  fits : device.spec.hasMbap = true ∨ device.spec.fixedTotal ≤ kMaxFrame

/-- What a pass should do: walk on as the slicer does, or stop where the slicer stops. -/
def Pass.Right (S : Slicer UInt8 FeedNote) (recvMs : Int) (s : FeedLoop) : Pass → Prop
  | .again next => next.finish S recvMs = s.finish S recvMs ∧
      next.pending.length < s.pending.length
  | .done final => final = s.finish S recvMs
  | .abandoned _ => False

theorem FeedLoop.follow_right (S : Slicer UInt8 FeedNote) (recvMs : Int) (s : FeedLoop) :
    (s.follow recvMs (S.step s.pending)).Right S recvMs s := by
  cases decision : S.step s.pending with
  | none => exact (finish_of_none recvMs decision).symm
  | some cut => exact ⟨finish_take recvMs decision, S.drop_length_lt decision⟩

section

variable {dev : DevicePtr} (positive : 0 < dev.desc.spec.payloadMin.toNat)

theorem mbapPass_right (mbap : dev.desc.spec.hasMbap = true) (recvMs : Int) (s : FeedLoop) :
    (mbapPass dev recvMs s).Right (modbusSlicer dev positive) recvMs s := by
  have dropped : ∀ h : Bytes, 4 ≤ h.length → zeroProtocolId h = false →
      (modbusSlicer dev positive).step h = some (Cut.skip (.skip .noProtocolId)) := by
    intro h long nonzero
    show modbusStep dev h = _
    rw [modbusStep, if_pos mbap, if_neg (Nat.not_lt.mpr long), nonzero, if_pos Bool.false_ne_true]
  unfold mbapPass
  cases scan : syncScan s.pending with
  | none =>
    -- the three bytes that are kept are too few to decide anything
    have passed : ∀ i < s.pending.length - (if 3 < s.pending.length then 3 else s.pending.length),
        (modbusSlicer dev positive).step (s.pending.drop i) =
          some (Cut.skip (.skip .noProtocolId)) := by
      intro i inside
      have four : i + 4 ≤ s.pending.length := by split at inside <;> omega
      exact dropped _ (by rw [List.length_drop]; omega) (syncScan_none scan four)
    show s.skip _ = _
    rw [← FeedLoop.finish_skip recvMs _ s passed, FeedLoop.finish_of_none]
    show modbusStep dev (s.pending.drop _) = none
    rw [modbusStep, if_pos mbap, if_pos]
    rw [List.length_drop]
    split <;> omega
  | some distance =>
    obtain ⟨passed, long, zero⟩ := syncScan_some scan
    have same : mbapFrame dev (s.skip distance).pending =
        (modbusSlicer dev positive).step (s.skip distance).pending := by
      show _ = modbusStep dev (s.pending.drop distance)
      rw [modbusStep, if_pos mbap, if_neg (Nat.not_lt.mpr long), if_neg (not_not_intro zero)]
      rfl
    have start := FeedLoop.finish_skip recvMs distance s
      fun i inside => dropped _ (passed i inside).1 (passed i inside).2
    have right := FeedLoop.follow_right (modbusSlicer dev positive) recvMs (s.skip distance)
    simp only
    rw [same]
    revert right
    cases (s.skip distance).follow recvMs ((modbusSlicer dev positive).step _) with
    | again next =>
      rintro ⟨finish, shorter⟩
      refine ⟨finish.trans start, ?_⟩
      have bound : (s.skip distance).pending.length ≤ s.pending.length := by
        simp only [FeedLoop.skip, List.length_drop]
        omega
      omega
    | done final => exact fun finish => Eq.trans finish start
    | abandoned _ => exact False.elim

theorem modbusPass_right (sliceable : dev.desc.Sliceable) (recvMs : Int) (s : FeedLoop) :
    (modbusPass dev recvMs s).Right (modbusSlicer dev positive) recvMs s := by
  unfold modbusPass
  by_cases mbap : dev.desc.spec.hasMbap = true
  · rw [if_pos mbap]
    exact mbapPass_right positive mbap recvMs s
  · have fits : ¬ kMaxFrame < dev.desc.spec.fixedTotal :=
      Nat.not_lt.mpr (sliceable.fits.resolve_left mbap)
    have same : fixedFrame dev s.pending = (modbusSlicer dev positive).step s.pending := by
      show _ = modbusStep dev s.pending
      rw [modbusStep, if_neg mbap]
    rw [if_neg mbap, fixedPass, if_neg fits, same]
    exact FeedLoop.follow_right _ recvMs s

theorem modbusLoop_eq (sliceable : dev.desc.Sliceable) (recvMs : Int) (fuel : ℕ) (s : FeedLoop)
    (enough : s.pending.length < fuel) :
    modbusLoop dev recvMs fuel s = .done (s.finish (modbusSlicer dev positive) recvMs) := by
  induction fuel generalizing s with
  | zero => exact absurd enough (Nat.not_lt_zero _)
  | succ fuel ih =>
    have right := modbusPass_right positive sliceable recvMs s
    rw [modbusLoop]
    revert right
    cases modbusPass dev recvMs s with
    | again next =>
      rintro ⟨finish, shorter⟩
      rw [← finish]
      exact ih next (by omega)
    | done final =>
      intro finish
      rw [← show final = _ from finish]
    | abandoned _ => exact False.elim

/-- What `feedModbus` leaves pending is less than one maximal frame. -/
theorem modbusRest_length_lt (sliceable : dev.desc.Sliceable) (buf : Bytes) :
    ((modbusSlicer dev positive).rest buf).length < kMaxFrame := by
  have undecided : modbusStep dev ((modbusSlicer dev positive).rest buf) = none :=
    (modbusSlicer dev positive).step_rest buf
  generalize (modbusSlicer dev positive).rest buf = h at undecided ⊢
  unfold modbusStep at undecided
  by_cases mbap : dev.desc.spec.hasMbap = true
  · rw [if_pos mbap] at undecided
    unfold mbapFrame kMaxFrame at undecided
    unfold kMaxFrame
    simp only at undecided
    split at undecided
    · omega
    split at undecided
    · cases undecided
    split at undecided
    · omega
    split at undecided
    · cases undecided
    split at undecided
    · cases undecided
    split at undecided
    · omega
    split at undecided
    · cases undecided
    split at undecided <;> cases undecided
  · rw [if_neg mbap] at undecided
    have fits := sliceable.fits.resolve_left mbap
    unfold fixedFrame at undecided
    simp only at undecided
    split at undecided
    · omega
    · split at undecided <;> cases undecided

/-- **`feedModbus`, in closed form**: slice, count, push. -/
theorem feedModbus_eq (sliceable : dev.desc.Sliceable) :
    feedModbus dev = DeviceStream.sliced (modbusSlicer dev positive) := by
  funext st data recvMs
  have nonzero : dev.desc.spec.payloadMin ≠ 0 := by
    intro zero
    rw [zero] at positive
    exact Nat.lt_irrefl _ positive
  rw [← DeviceStream.sliced_of_finish _ _ _ _ (modbusRest_length_lt positive sliceable _)
    (st.buf ++ data)]
  unfold feedModbus
  rw [if_neg sliceable.fields, if_neg (not_not_intro sliceable.header), if_neg nonzero]
  have loop := modbusLoop_eq positive sliceable recvMs ((st.buf ++ data).length + 1)
    ⟨st.buf ++ data, st.advance data.length (st.buf ++ data), []⟩ (Nat.lt_succ_self _)
  unfold DeviceStream.advance at loop ⊢
  simp only [loop]

end

/-- A dropped byte pushes nothing. -/
theorem modbusSlicer_silent (dev : DevicePtr) (positive : 0 < dev.desc.spec.payloadMin.toNat) :
    SilentSkips (modbusSlicer dev positive) := by
  intro h cut decided dropped
  obtain ⟨_, ⟨why, rfl⟩ | ⟨total, row, _, _, _, rfl⟩⟩ := modbusStep_cases positive decided
  · rfl
  · cases dropped

/-! ### Devices that cannot be sliced -/

/-- A layout the slicer starts on. -/
def DeviceDesc.hasLayout (device : DeviceDesc) : Bool :=
  device.spec.fields ≠ [] ∧ device.spec.isModbusHeaderLen ∧ device.spec.payloadMin ≠ 0

/-- **Without a usable layout no row is pushed**: the bytes are dropped or, where the layout is
there and its response cannot fit, kept. -/
theorem feedModbus_idle {dev : DevicePtr} (not : ¬ dev.desc.Sliceable) (st : DeviceStream)
    (data : Bytes) (recvMs : Int) :
    (feedModbus dev st data recvMs).2 = [] ∧
      (feedModbus dev st data recvMs).1.buf =
        if dev.desc.hasLayout then st.buf ++ data else st.buf := by
  by_cases fields : dev.desc.spec.fields = []
  · simp [feedModbus, DeviceDesc.hasLayout, fields]
  by_cases header : dev.desc.spec.isModbusHeaderLen = true
  · by_cases zero : dev.desc.spec.payloadMin = 0
    · simp [feedModbus, DeviceDesc.hasLayout, fields, header, zero]
    have positive : 0 < dev.desc.spec.payloadMin.toNat :=
      Nat.pos_of_ne_zero fun none => zero (UInt32.toNat_inj.mp none)
    -- the first pass returns
    have long : ¬ (dev.desc.spec.hasMbap = true ∨ dev.desc.spec.fixedTotal ≤ kMaxFrame) :=
      fun fits => not ⟨fields, header, positive, fits⟩
    rw [not_or, Nat.not_le] at long
    rw [feedModbus, if_neg fields, if_neg (not_not_intro header), if_neg zero]
    simp only [modbusLoop, modbusPass, if_neg long.1, fixedPass, if_pos long.2]
    simp [DeviceDesc.hasLayout, fields, header, zero]
  · simp [feedModbus, DeviceDesc.hasLayout, fields, header]

/-! ### Widths of rows -/

theorem feedModbus_wide (dev : DevicePtr) (st : DeviceStream) (data : Bytes) (recvMs : Int) :
    ∀ row ∈ (feedModbus dev st data recvMs).2, row.cells.length = row.dev.desc.fieldCount := by
  by_cases sliceable : dev.desc.Sliceable
  · rw [feedModbus_eq sliceable.payloadMin_pos sliceable]
    refine sliced_wide (fun decided => ?_) st data recvMs
    obtain ⟨_, ⟨why, rfl⟩ | ⟨total, row, _, _, width, rfl⟩⟩ :=
      modbusStep_cases sliceable.payloadMin_pos decided
    · trivial
    · rintro cells member
      rcases List.mem_singleton.mp member with rfl
      exact width
  · rw [(feedModbus_idle sliceable st data recvMs).1]
    exact fun _ member => by cases member

end EtherAdapter
