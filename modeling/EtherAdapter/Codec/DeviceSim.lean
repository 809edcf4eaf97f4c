/-
**The simulated device and the slicer.**

* `SimStream.Sized` — a template that is well made: `fill_sized` — with its records it is a frame as
  a device sends it, whatever was in it before.
* `DeviceSim.Ran` — after any number of passes the wire holds the frames that were sent, and the
  front of the one that came short.
* `SimStream.Fits` — the configuration of a stream's device.
* **`device_sim_decoded`** — all options, any `send`, any chunking: the rows are the records of the
  frames that were sent whole, in order and each of its stream's device; nothing is dropped, and the
  counter comes back without a gap, over all the streams.
-/

import EtherAdapter.Model.DeviceSim
import EtherAdapter.Codec.Integers
import EtherAdapter.Codec.RoundTrip

namespace EtherAdapter

open Memory Slicing

/-! ### A stream that breaks off -/

/-- The front of a frame is not decided. -/
theorem feedStep_front {group : DeviceGroup} {frame : WireFrame} (wellFormed : frame.WellFormed group)
    {part more : Bytes} (split : frame.bytes = part ++ more) (unfinished : more ≠ []) :
    feedStep group part = none := by
  obtain ⟨dev, trailMiss, rows, decided, -⟩ := WireFrame.feedStep_bytes wellFormed
  have shorter := List.length_pos_iff.mpr unfinished
  rcases (customSlicer group).step_none_or_eq part more with waits | same
  · exact waits
  · have cut : feedStep group part = feedStep group (part ++ more) := same
    rw [← split, decided] at cut
    have inside : frame.bytes.length ≤ part.length := feedStep_size_le cut
    rw [split, List.length_append] at inside
    omega

/-- Frames in any chunks, and something undecided behind them. -/
theorem feedAll_unfinished (group : DeviceGroup) {items : List NoisyFrame}
    (wellFormed : ∀ item ∈ items, item.WellFormed group) {part : Bytes}
    (waits : feedStep group part = none) {chunks : List (Bytes × Int)}
    (cut : chunkBytes chunks = items.flatMap NoisyFrame.bytes ++ part) :
    ((feedAll group {} chunks).2.map fun row => (row.dev, some row.cells)) =
        items.flatMap (fun item => item.frame.decoded group) ∧
      (feedAll group {} chunks).1.buf = part ∧
      (feedAll group {} chunks).1.frames = items.length ∧
      (feedAll group {} chunks).1.badFrames = 0 ∧
      (feedAll group {} chunks).1.resyncs = (items.map fun item => item.noise.length).sum := by
  obtain ⟨state, rows⟩ := feedAll_eq group chunks {} rfl 0
  have cuts := (customSlicer group).cuts_of_swept _ (NoisyFrame.planted wellFormed)
    (NoisyFrame.swept wellFormed)
  have rest := (customSlicer group).rest_of_swept _ (NoisyFrame.planted wellFormed)
    (NoisyFrame.swept wellFormed)
  rw [NoisyFrame.wire_tokens] at cuts rest
  have allCuts : (customSlicer group).cuts (items.flatMap NoisyFrame.bytes ++ part) =
      (items.flatMap NoisyFrame.tokens).flatMap
        ((customSlicer group).tokenCuts (.skip .unknownType)) := by
    rw [(customSlicer group).cuts_append, rest, List.nil_append,
      (customSlicer group).cuts_of_none waits, List.append_nil, cuts]
  have left : (customSlicer group).rest (items.flatMap NoisyFrame.bytes ++ part) = part := by
    rw [(customSlicer group).rest_append, rest, List.nil_append,
      (customSlicer group).rest_of_none waits]
  obtain ⟨dropped, good, bad, decoded⟩ := NoisyFrame.cuts_totals wellFormed
  rw [cut, feed_eq, DeviceStream.sliced] at state rows
  simp only [List.nil_append] at state rows
  rw [allCuts, left] at state
  rw [allCuts, rowsOf_untimed] at rows
  obtain ⟨resyncs, frames, badFrames⟩ := DeviceStream.countAll_counters {} _
  refine ⟨?_, ?_, ?_, ?_, ?_⟩
  · rw [map_untimed_some, rows, List.map_flatMap, decoded]
  · rw [state]
    rfl
  · rw [state]
    exact frames.trans ((Nat.zero_add _).trans good)
  · rw [state]
    exact badFrames.trans ((Nat.zero_add _).trans bad)
  · rw [state]
    exact resyncs.trans ((Nat.zero_add _).trans dropped)

/-! ### Templates -/

theorem writeAt_middle {α : Type*} (front old new behind : List α) (same : new.length = old.length) :
    writeAt (front ++ old ++ behind) front.length new = front ++ new ++ behind := by
  have whole : front ++ old ++ behind = front ++ (old ++ behind) := List.append_assoc _ _ _
  have last : (front ++ old ++ behind).drop (front.length + new.length) = behind := by
    rw [same, ← List.length_append, List.drop_left]
  rw [writeAt, last, whole, List.take_left]

namespace SimStream

/-- A template that is well made, for frames of `count` records. -/
structure Sized (st : SimStream) (count : ℕ) : Prop where
  record : 2 ≤ st.recordBytes
  payload : st.payloadBytes = st.recordBytes.toNat * count
  total : kHeaderSize + st.payloadBytes + (trailer st.endFlag).length ≤ 65535
  frame : ∃ old : Bytes, old.length = st.payloadBytes ∧
    st.frame = header st.frameType st.leadFlag st.payloadBytes ++ old ++ trailer st.endFlag

/-- The stream without the content of its template. -/
def bare (st : SimStream) : SimStream := { st with frame := [] }

/-- The `i`-th frame, as a device sends it. -/
def wireFrame (st : SimStream) (count i : ℕ) (next : Int) : WireFrame where
  frameType := UInt8.ofInt st.frameType
  flag := UInt8.ofInt st.leadFlag
  payload := (st.records count i next).flatten
  tail := if st.endFlag ≠ 0 then some (UInt8.ofInt st.endFlag) else none

theorem sized_of_make {options : DeviceSimOptions} {k : ℕ} {frameType : Int} {st : SimStream}
    (made : make options k frameType = some st) : st.Sized options.records.toNat := by
  rw [make] at made
  obtain ⟨fits, ⟨⟩⟩ := Option.ite_none_left_eq_some.mp made
  rw [not_or] at fits
  exact ⟨Int.not_lt.mp fits.1, rfl, Nat.not_lt.mp fits.2, _, List.length_replicate, rfl⟩

theorem sized_of_makeAll {options : DeviceSimOptions} {k : ℕ} {types : List Int}
    {streams : List SimStream} (made : makeAll options k types = some streams) :
    streams.length = types.length ∧ ∀ st ∈ streams, st.Sized options.records.toNat := by
  induction types generalizing k streams with
  | nil =>
    cases made
    exact ⟨rfl, List.forall_mem_nil _⟩
  | cons frameType later ih =>
    rw [makeAll] at made
    split at made
    · cases made
    · rename_i st first
      obtain ⟨others, rest, rfl⟩ := Option.map_eq_some_iff.mp made
      obtain ⟨length, sized⟩ := ih rest
      exact ⟨congrArg (· + 1) length, List.forall_mem_cons.mpr ⟨sized_of_make first, sized⟩⟩

variable {st : SimStream} {count : ℕ}

theorem length_record {recordBytes : ℕ} (least : 2 ≤ recordBytes) (i r : ℕ) (next : Int) :
    (record recordBytes i r next).length = recordBytes := by
  rw [record, List.length_cons, List.length_cons, List.length_map, List.length_range]
  omega

theorem Sized.record_toNat (sized : st.Sized count) : 2 ≤ st.recordBytes.toNat := by
  have record := sized.record
  omega

theorem Sized.length_records (sized : st.Sized count) (i : ℕ) (next : Int) :
    ∀ entry ∈ st.records count i next, entry.length = st.recordBytes.toNat := by
  intro entry member
  obtain ⟨r, -, rfl⟩ := List.mem_map.mp member
  exact length_record sized.record_toNat _ _ _

theorem length_records_list (st : SimStream) (count i : ℕ) (next : Int) :
    (st.records count i next).length = count := by
  rw [records, List.length_map, List.length_range]

theorem Sized.length_payload (sized : st.Sized count) (i : ℕ) (next : Int) :
    (st.records count i next).flatten.length = st.payloadBytes := by
  rw [length_flatten_of_forall (sized.length_records i next), length_records_list, sized.payload,
    Nat.mul_comm]

/-- The header as the simulator writes it. -/
theorem Sized.header_eq (sized : st.Sized count) :
    header st.frameType st.leadFlag st.payloadBytes =
      WireFrame.header (UInt8.ofInt st.frameType) (UInt8.ofInt st.leadFlag) st.payloadBytes
        (0, 0) := by
  have total := sized.total
  have low : UInt8.ofNat st.payloadBytes = UInt8.ofNat (st.payloadBytes % 256) := by
    rw [← UInt8.toNat_inj, UInt8.toNat_ofNat', UInt8.toNat_ofNat']
    omega
  rw [header, WireFrame.header, Nat.shiftRight_eq_div_pow, low]

/-- **A template with its records is a frame**, whatever was in it before. -/
theorem fill_sized (sized : st.Sized count) (i : ℕ) (next : Int) :
    (st.fill count i next).Sized count ∧
      (st.fill count i next).frame = (st.wireFrame count i next).bytes := by
  obtain ⟨old, length, frame⟩ := sized.frame
  have payload := sized.length_payload i next
  have front : (header st.frameType st.leadFlag st.payloadBytes).length = kHeaderSize := rfl
  have filled : (st.fill count i next).frame =
      header st.frameType st.leadFlag st.payloadBytes ++ (st.records count i next).flatten ++
        trailer st.endFlag := by
    rw [fill, frame, writeEach_eq _ (sized.length_records i next), ← front,
      writeAt_middle _ _ _ _ (payload.trans length.symm)]
    rw [length_records_list, List.length_append, List.length_append, length, front,
      sized.payload, Nat.mul_comm]
    omega
  refine ⟨⟨sized.record, sized.payload, sized.total, _, payload, filled⟩, ?_⟩
  have tail : trailer st.endFlag = (st.wireFrame count i next).tail.toList := by
    rw [trailer, wireFrame]
    split
    · rfl
    · rfl
  rw [filled, sized.header_eq, tail, List.append_assoc, ← payload]
  rfl

theorem Sized.length_frame (sized : st.Sized count) : st.frame.length ≤ 65535 := by
  obtain ⟨old, length, frame⟩ := sized.frame
  have front : (header st.frameType st.leadFlag st.payloadBytes).length = kHeaderSize := rfl
  rw [frame, List.length_append, List.length_append, length, front]
  exact sized.total

end SimStream

/-! ### Passes -/

namespace DeviceSim

variable (streams : List SimStream) (startValue : Int) (count : ℕ)

/-- The `i`-th frame of a run. -/
def frameAt (i : ℕ) : Option WireFrame :=
  (streams[i % streams.length]?).map fun st =>
    st.wireFrame count i (startValue + (i * count : ℕ))

/-- The frames of a run, up to the `n`-th. -/
def framesTo (n : ℕ) : List WireFrame := (List.range n).filterMap (frameAt streams startValue count)

theorem framesTo_succ {n : ℕ} {frame : WireFrame}
    (here : frameAt streams startValue count n = some frame) :
    framesTo streams startValue count (n + 1) = framesTo streams startValue count n ++ [frame] := by
  rw [framesTo, List.range_succ, List.filterMap_append, List.filterMap_cons_some here]
  rfl

/-- What was written into the templates before says nothing about a frame. -/
theorem frameAt_congr {others : List SimStream}
    (same : others.map SimStream.bare = streams.map SimStream.bare) :
    frameAt others startValue count = frameAt streams startValue count := by
  funext i
  have length : others.length = streams.length := by
    have both := congrArg List.length same
    rwa [List.length_map, List.length_map] at both
  have entry := congrArg (fun list => list[i % streams.length]?) same
  simp only [List.getElem?_map] at entry
  have frames := congrArg
    (Option.map fun st => st.wireFrame count i (startValue + (i * count : ℕ))) entry
  rw [Option.map_map, Option.map_map] at frames
  rw [frameAt, length]
  exact frames

/-- After `n` passes. -/
structure Ran (taken : ℕ → ℕ) (n : ℕ) (sim : DeviceSim) : Prop where
  bare : sim.streams.map SimStream.bare = streams.map SimStream.bare
  sized : ∀ st ∈ sim.streams, st.Sized count
  wire : ∃ part, sim.wire =
      (framesTo streams startValue count sim.sent).flatMap WireFrame.bytes ++ part ∧
    (part = [] ∨ ∃ frame more, frameAt streams startValue count sim.sent = some frame ∧
      frame.bytes = part ++ more ∧ more ≠ [])
  intact : sim.broken = false → sim.sent = n ∧ sim.next = startValue + (n * count : ℕ) ∧
    sim.wire = (framesTo streams startValue count n).flatMap WireFrame.bytes
  whole : (∀ i < n, 65535 ≤ taken i) → sim.broken = false

variable {streams startValue count} {taken : ℕ → ℕ}

theorem ran_start (sized : ∀ st ∈ streams, st.Sized count) :
    Ran streams startValue count taken 0 { streams, next := startValue } where
  bare := rfl
  sized := sized
  wire := ⟨[], rfl, Or.inl rfl⟩
  intact := fun _ => ⟨rfl, by rw [Nat.zero_mul]; exact (Int.add_zero _).symm, rfl⟩
  whole := fun _ => rfl

/-- **One pass.** -/
theorem Ran.pass {n : ℕ} {sim : DeviceSim} (ran : Ran streams startValue count taken n sim)
    (some_stream : streams ≠ []) :
    Ran streams startValue count taken (n + 1) (sim.pass count n (taken n)) := by
  have length : sim.streams.length = streams.length := by
    have both := congrArg List.length ran.bare
    rwa [List.length_map, List.length_map] at both
  have positive : 0 < sim.streams.length := by
    rw [length]
    exact List.length_pos_iff.mpr some_stream
  rw [DeviceSim.pass]
  split
  · rename_i none
    exact absurd (List.getElem?_eq_none_iff.mp none) (Nat.not_le.mpr (Nat.mod_lt _ positive))
  rename_i st found
  split
  · rename_i broken
    refine ⟨ran.bare, ran.sized, ran.wire, fun intact => ?_, fun all => ?_⟩
    · rw [broken] at intact
      cases intact
    · exact ran.whole fun i before => all i (Nat.lt_succ_of_lt before)
  rename_i going
  obtain ⟨sent, next, wire⟩ := ran.intact (Bool.eq_false_iff.mpr going)
  obtain ⟨sized, bytes⟩ :=
    SimStream.fill_sized (ran.sized st (List.mem_of_getElem? found)) n sim.next
  have here : frameAt streams startValue count n = some (st.wireFrame count n sim.next) := by
    rw [← frameAt_congr streams startValue count ran.bare, frameAt, found, next]
    rfl
  have bare : (sim.streams.set (n % sim.streams.length) (st.fill count n sim.next)).map
      SimStream.bare = streams.map SimStream.bare := by
    rw [List.map_set, ← ran.bare]
    refine List.ext_getElem? fun i => ?_
    rw [List.getElem?_set]
    split
    · rename_i same
      rw [← same, List.length_map, if_pos (Nat.mod_lt _ positive), List.getElem?_map, found]
      rfl
    · rfl
  have allSized : ∀ other ∈ sim.streams.set (n % sim.streams.length) (st.fill count n sim.next),
      other.Sized count := by
    intro other member
    rcases List.mem_or_eq_of_mem_set member with old | rfl
    · exact ran.sized other old
    · exact sized
  simp only
  split
  · rename_i short
    refine ⟨bare, allSized, ?_, nofun, fun all => ?_⟩
    · refine ⟨(st.fill count n sim.next).frame.take (taken n), ?_, Or.inr
        ⟨st.wireFrame count n sim.next, (st.fill count n sim.next).frame.drop (taken n), ?_, ?_, ?_⟩⟩
      · rw [wire, sent]
      · rw [sent]
        exact here
      · rw [List.take_append_drop, bytes]
      · intro none
        exact absurd (List.drop_eq_nil_iff.mp none) (Nat.not_le.mpr short)
    · have enough := all n (Nat.lt_succ_self n)
      have most := sized.length_frame
      omega
  · rename_i full
    have taking : (st.fill count n sim.next).frame.take (taken n) =
        (st.wireFrame count n sim.next).bytes := by
      rw [List.take_of_length_le (Nat.not_lt.mp full), bytes]
    have more : sim.wire ++ (st.fill count n sim.next).frame.take (taken n) =
        (framesTo streams startValue count (n + 1)).flatMap WireFrame.bytes := by
      rw [taking, wire, framesTo_succ _ _ _ here, List.flatMap_append, List.flatMap_singleton]
    refine ⟨bare, allSized, ⟨[], ?_, Or.inl rfl⟩, fun _ => ⟨?_, ?_, more⟩, fun _ => ?_⟩
    · rw [List.append_nil, sent]
      exact more
    · rw [sent]
    · rw [next, Nat.succ_mul]
      push_cast
      omega
    · exact Bool.eq_false_iff.mpr going

/-- **A run.** -/
theorem ran_passes (some_stream : streams ≠ []) (sized : ∀ st ∈ streams, st.Sized count) (n : ℕ) :
    Ran streams startValue count taken n
      (({ streams, next := startValue } : DeviceSim).passes count taken n) := by
  induction n with
  | zero => exact ran_start sized
  | succ n ih =>
    rw [passes, List.range_succ, List.foldl_append]
    exact ih.pass some_stream

end DeviceSim

/-! ### Devices that are configured for the streams -/

/-- A device's configuration describes the frames of a stream. -/
structure SimStream.Fits (st : SimStream) (group : DeviceGroup) (dev : DevicePtr) : Prop where
  selected : group.byFrameType (UInt8.ofInt st.frameType).toNat = some dev
  exact : dev.desc.spec.Exact
  flag : dev.desc.isEvent = true → dev.desc.spec.startFlag ≠ 0 →
    UInt8.ofInt st.leadFlag = dev.desc.spec.startFlag
  tail : st.endFlag ≠ 0 ↔ dev.desc.isEvent = true ∧ dev.desc.spec.endFlag ≠ 0
  frameLen : dev.desc.spec.frameLen = st.recordBytes
  payloadMin_le : (dev.desc.spec.payloadMin.toNat : Int) ≤ st.recordBytes

namespace SimStream

variable {st : SimStream} {count : ℕ} {group : DeviceGroup} {dev : DevicePtr}

theorem Fits.wellFormed (fits : st.Fits group dev) (sized : st.Sized count) (some_record : 0 < count)
    (i : ℕ) (next : Int) : (st.wireFrame count i next).WellFormed group := by
  have record := sized.record
  have payload : (st.wireFrame count i next).payload.length = st.recordBytes.toNat * count := by
    rw [← sized.payload]
    exact sized.length_payload i next
  have one : st.recordBytes.toNat ≤ st.recordBytes.toNat * count :=
    Nat.le_mul_of_pos_right _ some_record
  have least := fits.payloadMin_le
  have trailing : (st.wireFrame count i next).tail.toList = trailer st.endFlag := by
    rw [trailer, wireFrame]
    split
    · rfl
    · rfl
  refine ⟨dev, fits.selected, fits.exact, fits.flag, ?_, ?_, ?_, ?_, nofun, fun _ _ => ⟨?_, ?_⟩⟩
  · rw [← fits.tail, wireFrame]
    by_cases marked : st.endFlag = 0
    · simp [marked]
    · simp [marked]
  · rw [payload]
    omega
  · rw [payload]
    omega
  · rw [payload, trailing, ← sized.payload]
    have total := sized.total
    unfold kMaxFrame
    omega
  · rw [payload, fits.frameLen, Nat.cast_mul, Int.toNat_of_nonneg (by omega)]
    exact Int.dvd_mul_right _ _
  · rw [fits.frameLen]
    exact least

/-- Pieces of one size are found again. -/
theorem slices_flatten {size : ℕ} (pieces : List Bytes)
    (sized : ∀ piece ∈ pieces, piece.length = size) :
    WireFrame.slices size pieces.length pieces.flatten = pieces := by
  induction pieces with
  | nil => rfl
  | cons piece later ih =>
    have here := sized piece List.mem_cons_self
    rw [List.length_cons, WireFrame.slices, List.flatten_cons, ← here, List.take_left,
      List.drop_left, here, ih fun other member => sized other (List.mem_cons_of_mem _ member)]

/-- **The records of a frame are those that were written into it.** -/
theorem Fits.decoded_eq (fits : st.Fits group dev) (sized : st.Sized count)
    (some_record : 0 < count) (i : ℕ) (next : Int) :
    (st.wireFrame count i next).decoded group = (st.records count i next).map fun entry =>
      (dev, decodePayload dev.desc.spec dev.desc.bigEndian entry entry.length) := by
  have record := sized.record
  have payload : (st.wireFrame count i next).payload.length = st.recordBytes.toNat * count := by
    rw [← sized.payload]
    exact sized.length_payload i next
  have one : st.recordBytes.toNat ≤ st.recordBytes.toNat * count :=
    Nat.le_mul_of_pos_right _ some_record
  have each : (st.wireFrame count i next).records dev.desc.spec = st.records count i next := by
    rw [WireFrame.records, fits.frameLen, if_pos ⟨by omega, by omega⟩, payload,
      Nat.mul_div_cancel_left _ (by omega)]
    have pieces := slices_flatten _ (sized.length_records i next)
    rw [length_records_list] at pieces
    exact pieces
  have selected : group.byFrameType (st.wireFrame count i next).frameType.toNat = some dev :=
    fits.selected
  rw [WireFrame.decoded, selected]
  simp only [each]

end SimStream

/-! ### The counter -/

/-- `item1` of the simulator's usage: a signed 16-bit field in front. -/
def item1 : FieldDesc := { size := 2, size_ok := rfl }

/-- The device reads the counter first. -/
structure CountsFirst (dev : DevicePtr) : Prop where
  little : dev.desc.bigEndian = false
  first : dev.desc.spec.fields.head? = some item1

theorem toNat_ofInt (v : Int) : ((UInt8.ofInt v).toNat : Int) = v % 256 := by
  have range := Int.emod_nonneg v (show (256 : Int) ≠ 0 by decide)
  have below := Int.emod_lt_of_pos v (show (0 : Int) < 256 by decide)
  rw [UInt8.ofInt, UInt8.toNat_ofNat', Nat.mod_eq_of_lt (by omega), Int.toNat_of_nonneg (by omega)]
  rfl

/-- Two bytes of a counter, in two's complement. -/
theorem twosComplement_counter (next : Int) :
    let v := Int.bmod next (2 ^ 32)
    twosComplement 16 (leNat [UInt8.ofInt v, UInt8.ofInt (v >>> (8 : ℕ))]) = Int.bmod next (2 ^ 16) := by
  intro v
  have shifted : v >>> (8 : ℕ) = v / 256 := Int.shiftRight_eq_div_pow v 8
  have low := toNat_ofInt v
  have high := toNat_ofInt (v / 256)
  have whole : v = Int.bmod next (2 ^ 32) := rfl
  have bytes : leNat [UInt8.ofInt v, UInt8.ofInt (v / 256)] =
      (UInt8.ofInt v).toNat + 256 * (UInt8.ofInt (v / 256)).toNat := by
    rw [← List.singleton_append, leNat_append, leNat_singleton, leNat_singleton]
    rfl
  -- both sides are `next` modulo `2 ^ 16`, between the same bounds
  rw [shifted, bytes, twosComplement]
  rw [Int.bmod_def] at whole ⊢
  split_ifs at whole ⊢ <;> omega

theorem head_of_decodePayload {spec : FrameSpec} {be : Bool} {payload : Bytes} {size : ℕ}
    {cells : List Cell} {field : FieldDesc} (decoded : decodePayload spec be payload size = some cells)
    (first : spec.fields.head? = some field) : cells.head? = some (fieldCell be payload field) := by
  obtain ⟨later, fields⟩ := List.head?_eq_some_iff.mp first
  rw [decodePayload] at decoded
  obtain ⟨-, decoded⟩ := Option.ite_none_left_eq_some.mp decoded
  obtain ⟨-, decoded⟩ := Option.ite_none_left_eq_some.mp decoded
  rw [fields, decodeFields] at decoded
  obtain ⟨-, decoded⟩ := Option.ite_none_left_eq_some.mp decoded
  obtain ⟨others, -, rfl⟩ := Option.map_eq_some_iff.mp decoded
  rfl

/-- **The counter is read back**, as a 16-bit number. -/
theorem counter_decoded {dev : DevicePtr} (counts : CountsFirst dev) {size i r : ℕ} {next : Int}
    (least : 2 ≤ size) {cells : List Cell}
    (decoded : decodePayload dev.desc.spec dev.desc.bigEndian (SimStream.record size i r next) size =
      some cells) :
    (cells.head?.map fun cell => cell.v.toInt) = some (Int.bmod next (2 ^ 16)) := by
  have length := SimStream.length_record least i r next
  have inside : item1.extent ≤ (SimStream.record size i r next).length := by
    rw [length]
    exact least
  rw [counts.little] at decoded
  rw [head_of_decodePayload decoded counts.first, Option.map_some]
  congr 1
  have value := fieldCell_signed false inside (Or.inl rfl) rfl rfl
  rw [value]
  exact twosComplement_counter next

/-! ### Rows -/

theorem map_range_mul {β : Type*} (a b : ℕ) (f : ℕ → β) :
    (List.range (a * b)).map f =
      (List.range a).flatMap fun i => (List.range b).map fun r => f (i * b + r) := by
  induction a with
  | zero => rw [Nat.zero_mul]; rfl
  | succ a ih =>
    rw [Nat.succ_mul, List.range_add, List.map_append, ih, List.range_succ, List.flatMap_append,
      List.flatMap_singleton, List.map_map]
    rfl

theorem flatMap_filterMap {α β γ : Type*} (list : List α) (f : α → Option β) (g : β → List γ) :
    (list.filterMap f).flatMap g = list.flatMap fun a => (f a).toList.flatMap g := by
  induction list with
  | nil => rfl
  | cons a list ih =>
    cases found : f a with
    | none => rw [List.filterMap_cons_none found, ih, List.flatMap_cons, found]; rfl
    | some b =>
      rw [List.filterMap_cons_some found, List.flatMap_cons, List.flatMap_cons, ih, found,
        Option.toList_some, List.flatMap_singleton]

namespace DeviceSim

/-- What the `j`-th record sent is read as. -/
def rowAt (streams : List SimStream) (startValue : Int) (count : ℕ) (dev : ℕ → DevicePtr) (j : ℕ) :
    DevicePtr × Option (List Cell) :=
  let device := dev (j / count % streams.length)
  (device, (streams[j / count % streams.length]?).bind fun st =>
    decodePayload device.desc.spec device.desc.bigEndian
      (SimStream.record st.recordBytes.toNat (j / count) (j % count) (startValue + j))
      st.recordBytes.toNat)

variable {streams : List SimStream} {startValue : Int} {count : ℕ} {group : DeviceGroup}
  {dev : ℕ → DevicePtr}

theorem wellFormed_frameAt (sized : ∀ st ∈ streams, st.Sized count) (some_record : 0 < count)
    (configured : ∀ (k : ℕ) (st : SimStream), streams[k]? = some st → st.Fits group (dev k)) {i : ℕ} {frame : WireFrame}
    (here : frameAt streams startValue count i = some frame) : frame.WellFormed group := by
  obtain ⟨st, found, rfl⟩ := Option.map_eq_some_iff.mp here
  exact (configured _ st found).wellFormed (sized st (List.mem_of_getElem? found)) some_record _ _

theorem decoded_frameAt (sized : ∀ st ∈ streams, st.Sized count) (some_record : 0 < count)
    (some_stream : streams ≠ [])
    (configured : ∀ (k : ℕ) (st : SimStream), streams[k]? = some st → st.Fits group (dev k)) (i : ℕ) :
    (frameAt streams startValue count i).toList.flatMap (WireFrame.decoded group) =
      (List.range count).map fun r => rowAt streams startValue count dev (i * count + r) := by
  have inside := Nat.mod_lt i (List.length_pos_iff.mpr some_stream)
  obtain ⟨st, found⟩ : ∃ st, streams[i % streams.length]? = some st :=
    ⟨_, List.getElem?_eq_getElem inside⟩
  have own := sized st (List.mem_of_getElem? found)
  rw [frameAt, found, Option.map_some, Option.toList_some, List.flatMap_singleton,
    (configured _ st found).decoded_eq own some_record, SimStream.records, List.map_map]
  refine List.map_congr_left fun r member => ?_
  have before := List.mem_range.mp member
  have frame : (i * count + r) / count = i := by
    rw [Nat.mul_comm, Nat.mul_add_div some_record, Nat.div_eq_of_lt before, Nat.add_zero]
  have record : (i * count + r) % count = r := by
    rw [Nat.mul_comm, Nat.mul_add_mod, Nat.mod_eq_of_lt before]
  have counter : startValue + (i * count : ℕ) + (r : ℕ) = startValue + (i * count + r : ℕ) := by
    push_cast
    omega
  simp only [rowAt, frame, record, found, Option.bind_some, Function.comp_apply,
    SimStream.length_record own.record_toNat, counter]

/-- The rows of a run. -/
theorem Ran.decoded {taken : ℕ → ℕ} {n : ℕ} {sim : DeviceSim}
    (ran : Ran streams startValue count taken n sim) (some_stream : sim.streams ≠ [])
    (some_record : 0 < count)
    (configured : ∀ (k : ℕ) (st : SimStream), sim.streams[k]? = some st → st.Fits group (dev k))
    {chunks : List (Bytes × Int)} (cut : chunkBytes chunks = sim.wire) :
    ((feedAll group {} chunks).2.map fun row => (row.dev, some row.cells)) =
        (List.range (sim.sent * count)).map (rowAt sim.streams startValue count dev) ∧
      (feedAll group {} chunks).1.frames = sim.sent ∧
      (feedAll group {} chunks).1.badFrames = 0 ∧
      (feedAll group {} chunks).1.resyncs = 0 := by
  obtain ⟨part, wire, front⟩ := ran.wire
  rw [← frameAt_congr streams startValue count ran.bare] at front
  rw [framesTo, ← frameAt_congr streams startValue count ran.bare] at wire
  have waits : feedStep group part = none := by
    rcases front with rfl | ⟨frame, more, here, split, unfinished⟩
    · rfl
    · exact feedStep_front (wellFormed_frameAt ran.sized some_record configured here) split unfinished
  have each : ∀ i, ∃ frame, frameAt sim.streams startValue count i = some frame := fun i =>
    ⟨_, congrArg (Option.map _)
      (List.getElem?_eq_getElem (Nat.mod_lt i (List.length_pos_iff.mpr some_stream)))⟩
  have number : ∀ list : List ℕ,
      (list.filterMap (frameAt sim.streams startValue count)).length = list.length := by
    intro list
    induction list with
    | nil => rfl
    | cons i list ih =>
      obtain ⟨frame, here⟩ := each i
      rw [List.filterMap_cons_some here, List.length_cons, List.length_cons, ih]
  have wellFormed : ∀ item ∈ ((List.range sim.sent).filterMap
      (frameAt sim.streams startValue count)).map (NoisyFrame.mk []), item.WellFormed group := by
    intro item member
    obtain ⟨frame, inside, rfl⟩ := List.mem_map.mp member
    obtain ⟨i, -, here⟩ := List.mem_filterMap.mp inside
    exact ⟨List.forall_mem_nil _, wellFormed_frameAt ran.sized some_record configured here⟩
  have content : chunkBytes chunks = (((List.range sim.sent).filterMap
      (frameAt sim.streams startValue count)).map (NoisyFrame.mk [])).flatMap NoisyFrame.bytes ++
        part := by
    rw [List.flatMap_map]
    exact cut.trans wire
  obtain ⟨rows, -, frames, badFrames, resyncs⟩ := feedAll_unfinished group wellFormed waits content
  refine ⟨?_, ?_, badFrames, ?_⟩
  · rw [rows, List.flatMap_map, flatMap_filterMap, map_range_mul]
    refine List.flatMap_congr fun i _ => ?_
    exact decoded_frameAt ran.sized some_record some_stream configured i
  · rw [frames, List.length_map, number, List.length_range]
  · have clean : ∀ list : List WireFrame,
        ((list.map (NoisyFrame.mk [])).map fun item => item.noise.length) =
          List.replicate list.length 0 := by
      intro list
      rw [List.map_map]
      exact List.map_const'
    rw [resyncs, clean, List.sum_replicate_nat, Nat.mul_zero]

end DeviceSim

/-- **What the simulated device sends is what the adapter stores.** With devices configured for its
streams, whatever `send` takes and however the bytes arrive: every frame sent whole is counted, none
is bad and nothing is dropped; the rows are the records of these frames, in order and each of its
stream's device; and where the devices read the counter first, it comes back without a gap, over all
the streams together. If every `send` is whole, every frame is sent. -/
theorem device_sim_decoded {options : DeviceSimOptions} {taken : ℕ → ℕ} {sim : DeviceSim}
    (ran : options.run taken = some sim) {group : DeviceGroup} {dev : ℕ → DevicePtr}
    (configured : ∀ (k : ℕ) (st : SimStream), sim.streams[k]? = some st → st.Fits group (dev k))
    {chunks : List (Bytes × Int)} (cut : chunkBytes chunks = sim.wire) :
    let fed := feedAll group {} chunks
    let count := options.filled.records.toNat
    ((∀ i, 65535 ≤ taken i) → sim.sent = options.frames.toNat) ∧
      (fed.1.frames = sim.sent ∧ fed.1.badFrames = 0 ∧ fed.1.resyncs = 0) ∧
      (fed.2.map fun row => (row.dev, some row.cells)) = (List.range (sim.sent * count)).map
        (DeviceSim.rowAt sim.streams options.startValue count dev) ∧
      ∀ (j : ℕ) (row : Row), fed.2[j]? = some row → CountsFirst row.dev →
        (row.cells.head?.map fun cell => cell.v.toInt) =
          some (Int.bmod (options.startValue + j) (2 ^ 16)) := by
  intro fed count
  obtain ⟨initial, made, rfl⟩ := Option.map_eq_some_iff.mp ran
  obtain ⟨length, sized⟩ := SimStream.sized_of_makeAll made
  have some_record : 0 < count := by
    show 0 < (if options.records < 1 then 1 else options.records).toNat
    split
    · decide
    · omega
  have some_type : options.filled.typeList ≠ [] := by
    show (if options.typeList = [] then [0x0C] else options.typeList) ≠ []
    split
    · exact List.cons_ne_nil _ _
    · assumption
  have some_initial : initial ≠ [] := by
    rw [← List.length_pos_iff, length]
    exact List.length_pos_iff.mpr some_type
  have after : DeviceSim.Ran initial options.filled.startValue count taken
      options.filled.frames.toNat _ :=
    DeviceSim.ran_passes some_initial sized options.filled.frames.toNat
  generalize ({ streams := initial, next := options.filled.startValue } : DeviceSim).passes
    options.filled.records.toNat taken options.filled.frames.toNat = sim at *
  have some_stream : sim.streams ≠ [] := by
    intro none
    have same := after.bare
    rw [none] at same
    exact some_initial (List.map_eq_nil_iff.mp same.symm)
  obtain ⟨rows, frames, badFrames, resyncs⟩ := after.decoded some_stream some_record configured cut
  refine ⟨fun all => ?_, ⟨frames, badFrames, resyncs⟩, rows, ?_⟩
  · exact (after.intact (after.whole fun i _ => all i)).1
  · intro j row found counts
    have entry := congrArg (fun list => list[j]?) rows
    simp only [List.getElem?_map] at entry
    rw [found, Option.map_some] at entry
    obtain ⟨index, inRange, same⟩ := Option.map_eq_some_iff.mp entry.symm
    obtain ⟨inside, rfl⟩ := List.getElem?_eq_some_iff.mp inRange
    rw [List.getElem_range] at same
    obtain ⟨device, cells⟩ := Prod.mk.inj same
    obtain ⟨st, stream, decoded⟩ := Option.bind_eq_some_iff.mp cells
    have own := after.sized st (List.mem_of_getElem? stream)
    rw [← device] at counts
    exact counter_decoded counts own.record_toNat decoded

/-- A status and an event stream on one connection, in frames of two records. -/
def sampleOptions : DeviceSimOptions where
  frames := 3
  startValue := 32767
  records := 2
  typeList := [0xC, 0xE]
  sizeList := [2, 4]
  flagList := [0, 1]
  endList := [0, 3]

/-- The third `send` comes short. -/
def sampleTaken (i : ℕ) : ℕ := if i = 2 then 3 else 65535

def sampleSim : DeviceSim :=
  (sampleOptions.run sampleTaken).getD { streams := [], next := 0 }

theorem sampleSim_ran : sampleOptions.run sampleTaken = some sampleSim := by decide +kernel

def sampleDevice (k : ℕ) : DevicePtr := if k = 0 then statusDevice else eventDevice

theorem sampleSim_fits (k : ℕ) (st : SimStream) (found : sampleSim.streams[k]? = some st) :
    st.Fits fixtureGroup (sampleDevice k) := by
  have streams : sampleSim.streams.map SimStream.bare =
      [⟨0xC, 0, 0, 2, 4, []⟩, ⟨0xE, 1, 3, 4, 8, []⟩] := by decide +kernel
  have bare : (sampleSim.streams.map SimStream.bare)[k]? = some st.bare := by
    rw [List.getElem?_map, found]
    rfl
  rw [streams] at bare
  suffices fits : st.bare.Fits fixtureGroup (sampleDevice k) from
    ⟨fits.selected, fits.exact, fits.flag, fits.tail, fits.frameLen, fits.payloadMin_le⟩
  match k with
  | 0 =>
    rw [← Option.some.inj bare]
    exact ⟨by decide, ⟨by decide, by decide⟩, by decide, by decide, by decide, by decide⟩
  | 1 =>
    rw [← Option.some.inj bare]
    exact ⟨by decide, ⟨by decide, by decide⟩, by decide, by decide, by decide, by decide⟩
  | k + 2 => cases bare

/-- Two frames arrive, four records; the counter wraps between the first and the second. -/
theorem device_sim_decoded_sample :
    let fed := feedAll fixtureGroup {} [(sampleSim.wire.take 7, 1), (sampleSim.wire.drop 7, 2)]
    sampleSim.sent = 2 ∧ fed.1.frames = 2 ∧
      (fed.2.map fun row => (row.dev, some row.cells)) = (List.range 4).map
        (DeviceSim.rowAt sampleSim.streams 32767 2 sampleDevice) ∧
      ∀ row, fed.2[1]? = some row → CountsFirst row.dev →
        (row.cells.head?.map fun cell => cell.v.toInt) = some (-32768) := by
  have cut : chunkBytes [(sampleSim.wire.take 7, 1), (sampleSim.wire.drop 7, 2)] =
      sampleSim.wire := by
    rw [chunkBytes, List.map_cons, List.map_singleton, List.flatten_cons, List.flatten_singleton,
      List.take_append_drop]
  have sent : sampleSim.sent = 2 := by decide +kernel
  obtain ⟨-, counters, rows, counter⟩ := device_sim_decoded sampleSim_ran sampleSim_fits cut
  rw [sent] at counters rows
  exact ⟨sent, counters.1, rows, counter 1⟩

end EtherAdapter
