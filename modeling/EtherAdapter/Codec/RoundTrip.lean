/-
**custom_data: decoding undoes encoding.**

**`feed_roundTrip`** — any sequence of well-formed frames of the group's members, each behind a run
of noise bytes that are no member's frame type, cut into chunks in any way: the rows pushed are the
records of the frames, in order, each decoded from its own bytes; nothing stays pending, every frame
is counted once, no frame is bad, and the dropped bytes are the noise bytes.

The stream is a planted stream of the slicer library: a noise byte is dropped wherever it stands
(`feedStep_noise`), a frame is cut whole (`WireFrame.feedStep_bytes`).
-/

import EtherAdapter.Slicing.Planted
import EtherAdapter.Codec.Chunking
import EtherAdapter.Codec.Wire

namespace EtherAdapter

open Slicing

/-! ### Noise -/

/-- A byte that is no member's frame type. -/
def IsNoise (group : DeviceGroup) (byte : UInt8) : Prop :=
  ∀ dev ∈ group.members, dev.desc.spec.frameType ≠ byte.toNat

instance (group : DeviceGroup) (byte : UInt8) : Decidable (IsNoise group byte) :=
  inferInstanceAs (Decidable (∀ dev ∈ group.members, dev.desc.spec.frameType ≠ byte.toNat))

theorem IsNoise.byFrameType {group : DeviceGroup} {byte : UInt8} (noise : IsNoise group byte) :
    group.byFrameType byte.toNat = none := by
  rw [DeviceGroup.byFrameType, List.find?_eq_none]
  intro dev member same
  exact noise dev member (beq_iff_eq.mp same)

/-- A noise byte with a header's worth of bytes behind it is dropped. -/
theorem feedStep_noise {group : DeviceGroup} {byte : UInt8} (noise : IsNoise group byte)
    {more : Bytes} (long : kHeaderSize ≤ (byte :: more).length) :
    feedStep group (byte :: more) = some (Cut.skip (.skip .unknownType)) := by
  have first : byteAt (byte :: more) 0 = byte := rfl
  rw [feedStep, if_neg (Nat.not_lt.mpr long), checkHeader, first, noise.byFrameType]

/-! ### The stream -/

/-- Noise, then a frame. -/
structure NoisyFrame where
  noise : Bytes
  frame : WireFrame

namespace NoisyFrame

def bytes (item : NoisyFrame) : Bytes := item.noise ++ item.frame.bytes

def WellFormed (group : DeviceGroup) (item : NoisyFrame) : Prop :=
  (∀ byte ∈ item.noise, IsNoise group byte) ∧ item.frame.WellFormed group

def tokens (item : NoisyFrame) : List (Token UInt8) :=
  item.noise.map Token.junk ++ [Token.frame item.frame.bytes]

theorem wire_tokens (items : List NoisyFrame) :
    Token.wire (items.flatMap tokens) = items.flatMap bytes := by
  induction items with
  | nil => rfl
  | cons item items ih =>
    rw [List.flatMap_cons, List.flatMap_cons, Token.wire_append, ih, tokens, Token.wire_append,
      Token.wire_map_junk, bytes]
    simp only [Token.wire, List.append_nil]

theorem frames_tokens (items : List NoisyFrame) :
    Token.frames (items.flatMap tokens) = items.map fun item => item.frame.bytes := by
  induction items with
  | nil => rfl
  | cons item items ih =>
    rw [List.flatMap_cons, List.map_cons, Token.frames_append, ih, tokens, Token.frames_append,
      Token.frames_map_junk]
    rfl

theorem planted {group : DeviceGroup} {items : List NoisyFrame}
    (wellFormed : ∀ item ∈ items, item.WellFormed group) :
    ∀ content ∈ Token.frames (items.flatMap tokens), (customSlicer group).CutsWhole content := by
  intro content member
  rw [frames_tokens] at member
  obtain ⟨item, inside, rfl⟩ := List.mem_map.mp member
  obtain ⟨dev, trailMiss, rows, decided, _⟩ :=
    WireFrame.feedStep_bytes (wellFormed item inside).2
  exact ⟨_, decided⟩

/-- A run of noise in front of a frame is swept. -/
theorem swept_noise {group : DeviceGroup} {noise : Bytes}
    (clean : ∀ byte ∈ noise, IsNoise group byte) {later : List (Token UInt8)}
    (long : kHeaderSize ≤ (Token.wire later).length)
    (swept : (customSlicer group).Swept (.skip .unknownType) later) :
    (customSlicer group).Swept (.skip .unknownType) (noise.map Token.junk ++ later) := by
  induction noise with
  | nil => exact swept
  | cons byte noise ih =>
    refine ⟨feedStep_noise (clean byte List.mem_cons_self) ?_,
      ih fun other member => clean other (List.mem_cons_of_mem _ member)⟩
    show kHeaderSize ≤ (byte :: Token.wire (noise.map Token.junk ++ later)).length
    rw [Token.wire_append, List.length_cons, List.length_append]
    omega

theorem swept {group : DeviceGroup} {items : List NoisyFrame}
    (wellFormed : ∀ item ∈ items, item.WellFormed group) :
    (customSlicer group).Swept (.skip .unknownType) (items.flatMap tokens) := by
  induction items with
  | nil => trivial
  | cons item items ih =>
    have others := ih fun other member => wellFormed other (List.mem_cons_of_mem _ member)
    rw [List.flatMap_cons, tokens, List.append_assoc]
    refine swept_noise (wellFormed item List.mem_cons_self).1 ?_ others
    rw [List.singleton_append, Token.wire, List.length_append, WireFrame.length_bytes]
    omega

/-- What the cuts of the stream add up to. -/
theorem cuts_totals {group : DeviceGroup} {items : List NoisyFrame}
    (wellFormed : ∀ item ∈ items, item.WellFormed group) :
    let cuts := (items.flatMap tokens).flatMap
      ((customSlicer group).tokenCuts (.skip .unknownType))
    (cuts.map fun cut => cut.note.dropped).sum = (items.map fun item => item.noise.length).sum ∧
      (cuts.map fun cut => cut.note.good).sum = items.length ∧
      (cuts.map fun cut => cut.note.bad).sum = 0 ∧
      (cuts.flatMap fun cut => cut.note.untimed.map fun row => (row.1, some row.2)) =
        items.flatMap fun item => item.frame.decoded group := by
  induction items with
  | nil => exact ⟨rfl, rfl, rfl, rfl⟩
  | cons item items ih =>
    obtain ⟨dropped, good, bad, rows⟩ :=
      ih fun other member => wellFormed other (List.mem_cons_of_mem _ member)
    obtain ⟨dev, trailMiss, records, decided, decoded⟩ :=
      WireFrame.feedStep_bytes (wellFormed item List.mem_cons_self).2
    have noise : (item.noise.map Token.junk).flatMap
        ((customSlicer group).tokenCuts (.skip .unknownType)) =
          List.replicate item.noise.length (Cut.skip (.skip .unknownType)) := by
      induction item.noise with
      | nil => rfl
      | cons byte noise ih =>
        rw [List.map_cons, List.flatMap_cons, ih, List.length_cons, List.replicate_succ]
        rfl
    have frame : (customSlicer group).tokenCuts (.skip .unknownType) (.frame item.frame.bytes) =
        [⟨item.frame.bytes.length, true, .frame dev trailMiss records true⟩] := by
      show (feedStep group item.frame.bytes).toList = _
      rw [decided, Option.toList_some]
    simp only [List.flatMap_cons, tokens, List.flatMap_append, noise, frame, List.flatMap_nil,
      List.append_nil, List.map_append, List.map_replicate, List.sum_append, List.sum_replicate_nat,
      List.map_cons, List.map_nil, List.sum_cons, List.sum_nil, List.length_cons,
      List.flatMap_replicate]
    refine ⟨?_, ?_, ?_, ?_⟩
    · rw [dropped]
      simp [FeedNote.dropped, Cut.skip]
    · rw [good]
      simp [FeedNote.good, Cut.skip, Nat.add_comm]
    · rw [bad]
      simp [FeedNote.bad, Cut.skip]
    · rw [rows, ← decoded]
      simp [FeedNote.untimed, Cut.skip, List.map_map, Function.comp_def]

end NoisyFrame

/-- The rows of a stream of frames, cut into chunks in any way. -/
theorem feedAll_frames (group : DeviceGroup) {items : List NoisyFrame}
    (wellFormed : ∀ item ∈ items, item.WellFormed group) {chunks : List (Bytes × Int)}
    (cut : chunkBytes chunks = items.flatMap NoisyFrame.bytes) :
    ((feedAll group {} chunks).2.map fun row => (row.dev, some row.cells)) =
      items.flatMap fun item => item.frame.decoded group := by
  obtain ⟨_, rows⟩ := feedAll_eq group chunks {} rfl 0
  have cuts := (customSlicer group).cuts_of_swept _ (NoisyFrame.planted wellFormed)
    (NoisyFrame.swept wellFormed)
  rw [NoisyFrame.wire_tokens] at cuts
  rw [cut, feed_eq, DeviceStream.sliced] at rows
  simp only [List.nil_append] at rows
  rw [cuts, rowsOf_untimed] at rows
  rw [map_untimed_some, rows, List.map_flatMap, (NoisyFrame.cuts_totals wellFormed).2.2.2]

/-- **Decoding undoes encoding**, for any frames of the group's members, any noise between them and
any chunking. -/
theorem feed_roundTrip (group : DeviceGroup) (items : List NoisyFrame)
    (wellFormed : ∀ item ∈ items, item.WellFormed group) (chunks : List (Bytes × Int))
    (cut : chunkBytes chunks = items.flatMap NoisyFrame.bytes) :
    ((feedAll group {} chunks).2.map fun row => (row.dev, some row.cells)) =
        items.flatMap (fun item => item.frame.decoded group) ∧
      (feedAll group {} chunks).1.buf = [] ∧
      (feedAll group {} chunks).1.frames = items.length ∧
      (feedAll group {} chunks).1.badFrames = 0 ∧
      (feedAll group {} chunks).1.resyncs = (items.map fun item => item.noise.length).sum := by
  obtain ⟨state, _⟩ := feedAll_eq group chunks {} rfl 0
  have cuts := (customSlicer group).cuts_of_swept _ (NoisyFrame.planted wellFormed)
    (NoisyFrame.swept wellFormed)
  have rest := (customSlicer group).rest_of_swept _ (NoisyFrame.planted wellFormed)
    (NoisyFrame.swept wellFormed)
  rw [NoisyFrame.wire_tokens] at cuts rest
  obtain ⟨dropped, good, bad, _⟩ := NoisyFrame.cuts_totals wellFormed
  rw [cut, feed_eq, DeviceStream.sliced] at state
  simp only [List.nil_append] at state
  rw [cuts, rest] at state
  obtain ⟨resyncs, frames, badFrames⟩ := DeviceStream.countAll_counters {} _
  refine ⟨feedAll_frames group wellFormed cut, ?_, ?_, ?_, ?_⟩
  · rw [state]
    rfl
  · rw [state]
    exact frames.trans ((Nat.zero_add _).trans good)
  · rw [state]
    exact badFrames.trans ((Nat.zero_add _).trans bad)
  · rw [state]
    exact resyncs.trans ((Nat.zero_add _).trans dropped)

/-- A status frame with a zero length field, then two bytes of noise and an event frame with two
records. -/
def fixtureItems : List NoisyFrame :=
  [⟨[], { frameType := 0xC, flag := 0, zeroLen := true, payload := [5, 0] }⟩,
    ⟨[0xAA, 0xFF],
      { frameType := 0xE, flag := 1, payload := [1, 0, 2, 0, 3, 0, 4, 0], tail := some 3 }⟩]

theorem fixtureItems_wellFormed : ∀ item ∈ fixtureItems, item.WellFormed fixtureGroup := by
  intro item member
  rcases List.mem_cons.mp member with rfl | member
  · exact ⟨List.forall_mem_nil _, statusDevice, by decide, ⟨by decide, by decide⟩, by decide,
      by decide, by decide, by decide, by decide, by decide, by decide⟩
  · rcases List.mem_singleton.mp member with rfl
    have noise : ∀ byte ∈ [0xAA, 0xFF], IsNoise fixtureGroup byte :=
      List.forall_mem_cons.mpr ⟨by decide, List.forall_mem_singleton.mpr (by decide)⟩
    exact ⟨noise, eventDevice, by decide, ⟨by decide, by decide⟩, by decide, by decide,
      by decide, by decide, by decide, by decide, by decide⟩

/-- The fixture stream, cut inside the first header: two frames, two dropped bytes. -/
theorem feed_roundTrip_fixture :
    let chunks := [((fixtureItems.flatMap NoisyFrame.bytes).take 3, 10),
      ((fixtureItems.flatMap NoisyFrame.bytes).drop 3, 20)]
    (feedAll fixtureGroup {} chunks).1.frames = 2 ∧
      (feedAll fixtureGroup {} chunks).1.resyncs = 2 :=
  have holds := feed_roundTrip fixtureGroup fixtureItems fixtureItems_wellFormed
    [((fixtureItems.flatMap NoisyFrame.bytes).take 3, 10),
      ((fixtureItems.flatMap NoisyFrame.bytes).drop 3, 20)] (by decide)
  ⟨holds.2.2.1, holds.2.2.2.2⟩

end EtherAdapter
