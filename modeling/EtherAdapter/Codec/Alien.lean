/-
**custom_data: frames of an unconfigured type.**

A peer may send frames whose type no `device_table` row configures. The slicer does not drop such a
frame by its length field: it drops the type byte and looks for a header at the next byte, so it
walks through the alien frame's payload.

* `DroppedWhole` — the alien frames are dropped as units: the rows are those of the stream without
  them, and at any time the frames cut are exactly the configured frames that have arrived.
* **`droppedWhole_iff`** — so it is exactly when the alien bytes are `Harmless`: none of them starts
  six bytes that pass the header checks; behind the last configured frame one may, if the frame it
  announces is longer than the rest of the stream.
* `not_droppedWhole_fixture` — an alien frame with a status frame for its payload.
-/

import EtherAdapter.Codec.RoundTrip

namespace EtherAdapter

open Slicing

/-! ### Streams with alien frames -/

/-- A frame in the custom header format whose type may be no member's. -/
structure AlienFrame where
  frameType : UInt8
  flag : UInt8
  seq : UInt8 × UInt8 := (0, 0)
  payload : Bytes
deriving DecidableEq, Repr

namespace AlienFrame

def bytes (frame : AlienFrame) : Bytes :=
  WireFrame.header frame.frameType frame.flag frame.payload.length frame.seq ++ frame.payload

/-- No member has the frame's type, and its length field can hold the payload's length. -/
structure Alien (group : DeviceGroup) (frame : AlienFrame) : Prop where
  unconfigured : IsNoise group frame.frameType
  payload_lt : frame.payload.length < 2 ^ 16

end AlienFrame

/-- What a peer sends: a frame of a configured type, or an alien one. -/
inductive Sent where
  | configured (frame : WireFrame)
  | alien (frame : AlienFrame)

namespace Sent

def bytes : Sent → Bytes
  | .configured frame => frame.bytes
  | .alien frame => frame.bytes

def WellFormed (group : DeviceGroup) : Sent → Prop
  | .configured frame => frame.WellFormed group
  | .alien frame => frame.Alien group

/-- The configured frames of a stream, in order. -/
def configuredFrames (items : List Sent) : List WireFrame :=
  items.filterMap fun
    | .configured frame => some frame
    | .alien _ => none

/-- A configured frame is planted; every byte of an alien frame is junk. -/
def tokens : Sent → List (Token UInt8)
  | .configured frame => [.frame frame.bytes]
  | .alien frame => frame.bytes.map Token.junk

theorem wire_tokens (items : List Sent) :
    Token.wire (items.flatMap tokens) = items.flatMap bytes := by
  induction items with
  | nil => rfl
  | cons item items ih =>
    rw [List.flatMap_cons, List.flatMap_cons, Token.wire_append, ih]
    cases item with
    | configured frame => simp only [tokens, Token.wire, bytes, List.append_nil]
    | alien frame => rw [tokens, Token.wire_map_junk, bytes]

theorem frames_tokens (items : List Sent) :
    Token.frames (items.flatMap tokens) = (configuredFrames items).map WireFrame.bytes := by
  induction items with
  | nil => rfl
  | cons item items ih =>
    rw [List.flatMap_cons, Token.frames_append, ih]
    cases item with
    | configured frame => rfl
    | alien frame => rw [tokens, Token.frames_map_junk]; rfl

theorem wellFormed_configuredFrames {group : DeviceGroup} {items : List Sent}
    (wellFormed : ∀ item ∈ items, item.WellFormed group) :
    ∀ frame ∈ configuredFrames items, frame.WellFormed group := by
  intro frame member
  obtain ⟨item, inside, kind⟩ := List.mem_filterMap.mp member
  cases item with
  | configured other =>
    cases kind
    exact wellFormed _ inside
  | alien other => cases kind

/-- A configured frame is cut whole, and is longer than its header. -/
theorem planted {group : DeviceGroup} {items : List Sent}
    (wellFormed : ∀ item ∈ items, item.WellFormed group) :
    ∀ content ∈ Token.frames (items.flatMap tokens),
      (customSlicer group).CutsWhole content ∧ kHeaderSize ≤ content.length := by
  intro content member
  rw [frames_tokens] at member
  obtain ⟨frame, inside, rfl⟩ := List.mem_map.mp member
  obtain ⟨dev, trailMiss, rows, decided, _⟩ :=
    WireFrame.feedStep_bytes (wellFormed_configuredFrames wellFormed frame inside)
  refine ⟨⟨_, decided⟩, ?_⟩
  rw [WireFrame.length_bytes]
  omega

end Sent

/-- **Alien frames are dropped as units.** The rows are those of the stream without the alien
frames, in any chunking of either; and however far the stream has arrived, the frames cut are
exactly the configured frames that have arrived in full, so none is cut out of an alien frame, and
none is late or lost. -/
structure DroppedWhole (group : DeviceGroup) (items : List Sent) : Prop where
  rows : ∀ full bare : List (Bytes × Int), chunkBytes full = items.flatMap Sent.bytes →
    chunkBytes bare = (Sent.configuredFrames items).flatMap WireFrame.bytes →
    (feedAll group {} full).2.map Row.untimed = (feedAll group {} bare).2.map Row.untimed
  frames : (customSlicer group).RightOn (items.flatMap Sent.tokens)

/-! ### When an alien frame is harmless -/

/-- The frame size that six accepted header bytes announce. -/
def announcedFrame (group : DeviceGroup) (h : Bytes) : Option ℕ :=
  if h.length < kHeaderSize then none
  else (checkHeader group h).toOption.map FrameShape.frameBytes

theorem announcedFrame_eq_some {group : DeviceGroup} {h : Bytes} {size : ℕ}
    (announced : announcedFrame group h = some size) :
    kHeaderSize ≤ h.length ∧
      ∃ shape, checkHeader group h = .ok shape ∧ shape.frameBytes = size := by
  unfold announcedFrame at announced
  split at announced
  · cases announced
  rename_i long
  refine ⟨Nat.le_of_not_lt long, ?_⟩
  obtain ⟨shape, accepted, size⟩ := Option.map_eq_some_iff.mp announced
  cases checked : checkHeader group h with
  | error why =>
    rw [checked] at accepted
    cases accepted
  | ok other =>
    rw [checked] at accepted
    cases accepted
    exact ⟨shape, rfl, size⟩

/-- **`feed` goes by the six header bytes.** -/
theorem customSlicer_foretells (group : DeviceGroup) :
    (customSlicer group).Foretells kHeaderSize (announcedFrame group) where
  look_le := by
    intro h size announced
    obtain ⟨_, shape, _, rfl⟩ := announcedFrame_eq_some announced
    unfold FrameShape.frameBytes
    omega
  stable := by
    intro h size more announced
    have long := (announcedFrame_eq_some announced).1
    have longer : ¬ (h ++ more).length < kHeaderSize := by
      rw [List.length_append]
      omega
    rw [announcedFrame, if_neg (Nat.not_lt.mpr long)] at announced
    rw [announcedFrame, if_neg longer, checkHeader_append group long, announced]
  wait := by
    intro h size announced incomplete
    obtain ⟨long, shape, checked, rfl⟩ := announcedFrame_eq_some announced
    show feedStep group h = none
    rw [feedStep, if_neg (Nat.not_lt.mpr long), checked]
    exact if_pos incomplete
  take := by
    intro h size announced whole
    obtain ⟨long, shape, checked, rfl⟩ := announcedFrame_eq_some announced
    refine ⟨takeFrame shape h, ?_⟩
    show feedStep group h = _
    rw [feedStep, if_neg (Nat.not_lt.mpr long), checked]
    exact if_neg (Nat.not_lt.mpr whole)
  drop := by
    intro h silent long
    rw [announcedFrame, if_neg (Nat.not_lt.mpr long)] at silent
    cases checked : checkHeader group h with
    | error why =>
      refine ⟨Cut.skip (.skip why), ?_, rfl⟩
      show feedStep group h = _
      rw [feedStep, if_neg (Nat.not_lt.mpr long), checked]
    | ok shape =>
      rw [checked] at silent
      cases silent
  short := by
    intro h cut decided short
    have long := (feedStep_cases decided).1
    omega

/-- **Alien frames are dropped as units exactly when none of their bytes starts an accepted
header.** -/
theorem droppedWhole_iff (group : DeviceGroup) (items : List Sent)
    (wellFormed : ∀ item ∈ items, item.WellFormed group) :
    DroppedWhole group items ↔ Harmless (announcedFrame group) (items.flatMap Sent.tokens) := by
  have planted := Sent.planted wellFormed
  have foretells := customSlicer_foretells group
  have right := (customSlicer group).rightOn_iff_harmless foretells _ planted
  constructor
  · intro dropped
    exact right.mp dropped.frames
  · intro harmless
    refine ⟨fun full bare fullBytes bareBytes => ?_, right.mpr harmless⟩
    have clean := (foretells.noFalseStart_iff _ fun content member =>
      (planted content member).2).mpr harmless
    rw [feedAll, feed_eq]
    refine rows_eq_of_noFalseStart (customSlicer_silent group) _
      (fun content member => (planted content member).1) clean ?_ ?_
    · rw [fullBytes, Sent.wire_tokens]
    · rw [bareBytes, Sent.frames_tokens, List.flatMap_def]

/-- A status frame with the value 7. -/
def statusFrame : WireFrame := { frameType := 0xC, flag := 0, payload := [7, 0] }

theorem statusFrame_wellFormed : statusFrame.WellFormed fixtureGroup :=
  ⟨statusDevice, by decide, ⟨by decide, by decide⟩, by decide, by decide, by decide, by decide,
    by decide, by decide, by decide⟩

/-- An alien frame of three bytes, none of which is a configured type. -/
theorem droppedWhole_fixture :
    DroppedWhole fixtureGroup
      [.alien { frameType := 0x55, flag := 0, payload := [1, 2, 3] }, .configured statusFrame] :=
  (droppedWhole_iff fixtureGroup _ (by
    intro item member
    rcases List.mem_cons.mp member with rfl | member
    · exact ⟨by decide, by decide⟩
    · rcases List.mem_singleton.mp member with rfl
      exact statusFrame_wellFormed)).mpr trivial

/-- An alien frame whose payload looks like a status header for eight bytes: the status frame behind
it is taken for that header's payload, and four rows come out instead of one. -/
theorem not_droppedWhole_fixture :
    let items : List Sent :=
      [.alien { frameType := 0x55, flag := 0, payload := [0xC, 0, 8, 0, 0, 0] },
        .configured statusFrame]
    (∀ item ∈ items, item.WellFormed fixtureGroup) ∧ ¬ DroppedWhole fixtureGroup items := by
  constructor
  · intro item member
    rcases List.mem_cons.mp member with rfl | member
    · exact ⟨by decide, by decide⟩
    · rcases List.mem_singleton.mp member with rfl
      exact statusFrame_wellFormed
  · intro dropped
    have rows := dropped.rows [(_, 0)] [(_, 0)] (List.append_nil _) (List.append_nil _)
    revert rows
    decide

end EtherAdapter
