/-
**Modbus: MBAP frames too short to hold the fields.**

A slave answers a request it cannot serve with an exception reply, a well-formed MBAP frame of
three bytes. The slicer waits until such a frame has arrived in full, finds it too short, and drops
its first byte only; it then looks for a zero protocol id at the next byte, where the frame's own
header may offer one.

* `SurvivesShort` — the short frames are skipped whole: the rows are those of the stream without
  them, and at any time the frames cut are those cut from the responses that have arrived.
* **`survivesShort_iff`** — so it is exactly when the short frames are `Unharmed`: along the heads
  that look like a response, none starts in a short frame or reaches into one, and none hides one of
  the stream without them. Where every response keeps within the frame limit, it is enough that no
  byte of a short frame starts what looks like a response: a zero protocol id two bytes on, and a
  length that covers the fields.
* `not_survivesShort_exception` — an exception reply of unit 1 stalls the stream.
-/

import EtherAdapter.Slicing.Compared
import EtherAdapter.Codec.Mbap

namespace EtherAdapter

open Slicing

/-! ### Streams with short frames -/

/-- What a slave sends: a response, or a frame too short to be one. -/
inductive Reply where
  | response (r : MbapResponse)
  | short (tid : UInt8 × UInt8) (body : Bytes)

namespace Reply

def bytes (spec : FrameSpec) : Reply → Bytes
  | .response r => r.bytes spec
  | .short tid body => mbapBytes tid body

/-- A response carries the fields; a short frame does not. Both fit their length field. -/
def WellFormed (spec : FrameSpec) : Reply → Prop
  | .response r => spec.payloadMin.toNat ≤ r.registers.length ∧ (r.body spec).length < 2 ^ 16
  | .short _ body =>
    1 ≤ body.length ∧ body.length < 2 ^ 16 ∧ 6 + body.length < spec.hdr + spec.payloadMin.toNat

/-- The responses of a stream, in order. -/
def responses (replies : List Reply) : List MbapResponse :=
  replies.filterMap fun
    | .response r => some r
    | .short _ _ => none

/-- A response is planted; every byte of a short frame is junk. -/
def tokens (spec : FrameSpec) : Reply → List (Token UInt8)
  | .response r => [.frame (r.bytes spec)]
  | .short tid body => (mbapBytes tid body).map Token.junk

theorem wire_tokens (spec : FrameSpec) (replies : List Reply) :
    Token.wire (replies.flatMap (tokens spec)) = replies.flatMap (bytes spec) := by
  induction replies with
  | nil => rfl
  | cons reply replies ih =>
    rw [List.flatMap_cons, List.flatMap_cons, Token.wire_append, ih]
    cases reply with
    | response r => simp only [tokens, Token.wire, bytes, List.append_nil]
    | short tid body => rw [tokens, Token.wire_map_junk, bytes]

theorem frames_tokens (spec : FrameSpec) (replies : List Reply) :
    Token.frames (replies.flatMap (tokens spec)) =
      (responses replies).map (MbapResponse.bytes spec) := by
  induction replies with
  | nil => rfl
  | cons reply replies ih =>
    rw [List.flatMap_cons, Token.frames_append, ih]
    cases reply with
    | response r => rfl
    | short tid body => rw [tokens, Token.frames_map_junk]; rfl

theorem mem_of_mem_responses {replies : List Reply} {r : MbapResponse}
    (member : r ∈ responses replies) : Reply.response r ∈ replies := by
  obtain ⟨reply, inside, kind⟩ := List.mem_filterMap.mp member
  cases reply with
  | response other =>
    cases kind
    exact inside
  | short tid body => cases kind

end Reply

/-- A stream, the bytes of its responses marked as kept. -/
def Reply.stream (spec : FrameSpec) (replies : List Reply) : List (UInt8 × Bool) :=
  Token.marked (replies.flatMap (Reply.tokens spec))

/-- **Short frames are skipped whole.** The rows are those of the stream without the short frames,
in any chunking of either; and however far the stream has arrived, the frames cut are, byte for
byte, those cut from what has arrived of the responses: none has a byte of a short frame, no response
is late or lost that would not be without them. -/
structure SurvivesShort (dev : DevicePtr) (positive : 0 < dev.desc.spec.payloadMin.toNat)
    (replies : List Reply) : Prop where
  rows : ∀ full bare : List (Bytes × Int),
    chunkBytes full = replies.flatMap (Reply.bytes dev.desc.spec) →
    chunkBytes bare = (Reply.responses replies).flatMap (MbapResponse.bytes dev.desc.spec) →
    (feedModbusAll dev {} full).2.map Row.untimed = (feedModbusAll dev {} bare).2.map Row.untimed
  frames : ((modbusSlicer dev positive).comap Prod.fst).SameFrames Prod.snd
    (Reply.stream dev.desc.spec replies)

/-! ### What looks like a response -/

/-- The size of the response that the bytes from here on seem to be: a zero protocol id, a length
that covers the configured header and the fields and keeps within the frame limit. -/
def announcedResponse (spec : FrameSpec) (h : Bytes) : Option ℕ :=
  if 6 ≤ h.length ∧ zeroProtocolId h = true ∧
      spec.hdr + spec.payloadMin.toNat ≤ 6 + mbapLen h ∧ 6 + mbapLen h ≤ kMaxFrame then
    some (6 + mbapLen h)
  else none

theorem announcedResponse_eq_some {spec : FrameSpec} {h : Bytes} {size : ℕ}
    (announced : announcedResponse spec h = some size) :
    (6 ≤ h.length ∧ zeroProtocolId h = true ∧
      spec.hdr + spec.payloadMin.toNat ≤ size ∧ size ≤ kMaxFrame) ∧ size = 6 + mbapLen h := by
  unfold announcedResponse at announced
  split at announced
  · rename_i looks
    cases announced
    exact ⟨looks, rfl⟩
  · cases announced

section

variable {dev : DevicePtr} (exact : dev.desc.spec.Exact)
  (header : dev.desc.spec.frameType = 7 ∨ dev.desc.spec.frameType = 9)

include exact header

/-- The MBAP decision, for an exact field table: it decodes what is long enough. -/
theorem modbusStep_mbap {h : Bytes} (six : 6 ≤ h.length) (zero : zeroProtocolId h = true)
    (outside : ¬ (kMaxFrame < 6 + mbapLen h ∨ 6 + mbapLen h < dev.desc.spec.hdr)) :
    modbusStep dev h =
      if h.length < 6 + mbapLen h then none
      else if 6 + mbapLen h < dev.desc.spec.hdr + dev.desc.spec.payloadMin.toNat then
        some (Cut.skip (.skip .shortPayload))
      else some (response dev (6 + mbapLen h) (dev.desc.spec.fields.map
        (fieldCell dev.desc.modbusBigEndian (h.drop dev.desc.spec.hdr)))) := by
  have hdr := FrameSpec.hdr_of header
  rw [modbusStep, if_pos (FrameSpec.hasMbap_of header), if_neg (by omega), zero,
    if_neg (not_not_intro rfl), mbapFrame]
  simp only
  rw [if_neg (by omega), if_neg (by omega), if_neg outside]
  by_cases incomplete : h.length < 6 + mbapLen h
  · rw [if_pos incomplete, if_pos incomplete]
  rw [if_neg incomplete, if_neg incomplete]
  by_cases short : 6 + mbapLen h < dev.desc.spec.hdr + dev.desc.spec.payloadMin.toNat
  · rw [if_pos (by omega), if_pos short]
  · rw [if_neg (by omega), if_neg short]
    have row := exact.decodePayload
      (show dev.desc.spec.payloadMin.toNat ≤ 6 + mbapLen h - dev.desc.spec.hdr by omega)
      dev.desc.modbusBigEndian (h.drop dev.desc.spec.hdr)
    rw [row]

omit exact in
/-- What cannot be a response by its first six bytes is dropped. -/
theorem modbusStep_unlike {h : Bytes} (six : 6 ≤ h.length)
    (unlike : zeroProtocolId h = false ∨ kMaxFrame < 6 + mbapLen h ∨
      6 + mbapLen h < dev.desc.spec.hdr) :
    ∃ why, modbusStep dev h = some (Cut.skip (.skip why)) := by
  rw [modbusStep, if_pos (FrameSpec.hasMbap_of header), if_neg (by omega)]
  by_cases zero : zeroProtocolId h = true
  · rw [if_neg (not_not_intro zero), mbapFrame]
    simp only
    rw [if_neg (by omega)]
    by_cases empty : mbapLen h < 1
    · exact ⟨_, if_pos empty⟩
    · rw [if_neg empty, if_pos (unlike.resolve_left (ne_false_of_eq_true zero))]
      exact ⟨_, rfl⟩
  · exact ⟨_, if_pos zero⟩

omit exact in
/-- Six bytes are needed for a frame. -/
theorem isFrame_of_short {h : Bytes} {cut : Cut FeedNote} (decided : modbusStep dev h = some cut)
    (short : h.length < 6) : cut.isFrame = false := by
  rw [modbusStep, if_pos (FrameSpec.hasMbap_of header)] at decided
  split at decided
  · cases decided
  split at decided
  · cases decided
    rfl
  · have six := (mbapFrame_cases decided).1
    omega

/-- Without an announced response nothing is decoded: the bytes are dropped, or the rest of a
response that is too short is awaited. -/
theorem modbusStep_silent {h : Bytes} (six : 6 ≤ h.length)
    (silent : announcedResponse dev.desc.spec h = none) :
    (∃ cut, modbusStep dev h = some cut ∧ cut.isFrame = false) ∨
      modbusStep dev h = none ∧
        h.length < dev.desc.spec.hdr + dev.desc.spec.payloadMin.toNat := by
  by_cases unlike : zeroProtocolId h = false ∨ kMaxFrame < 6 + mbapLen h ∨
      6 + mbapLen h < dev.desc.spec.hdr
  · obtain ⟨why, dropped⟩ := modbusStep_unlike header six unlike
    exact Or.inl ⟨_, dropped, rfl⟩
  rw [not_or, Bool.not_eq_false] at unlike
  have tooShort : 6 + mbapLen h < dev.desc.spec.hdr + dev.desc.spec.payloadMin.toNat := by
    by_contra covers
    rw [announcedResponse, if_pos ⟨six, unlike.1, by omega, by omega⟩] at silent
    cases silent
  rw [modbusStep_mbap exact header six unlike.1 unlike.2]
  by_cases incomplete : h.length < 6 + mbapLen h
  · rw [if_pos incomplete]
    exact Or.inr ⟨rfl, by omega⟩
  · rw [if_neg incomplete, if_pos tooShort]
    exact Or.inl ⟨_, rfl, rfl⟩

/-- **The MBAP slicer goes by the announced response.** -/
theorem modbusSlicer_foretells (positive : 0 < dev.desc.spec.payloadMin.toNat) :
    (modbusSlicer dev positive).Foretells
      (dev.desc.spec.hdr + dev.desc.spec.payloadMin.toNat) (announcedResponse dev.desc.spec) where
  look_le := fun announced => (announcedResponse_eq_some announced).1.2.2.1
  stable := by
    intro h size more announced
    obtain ⟨⟨six, zero, covers, within⟩, rfl⟩ := announcedResponse_eq_some announced
    have longer : 6 ≤ (h ++ more).length := by
      rw [List.length_append]
      omega
    rw [announcedResponse, zeroProtocolId_append (by omega), mbapLen_append six,
      if_pos ⟨longer, zero, covers, within⟩]
  wait := by
    intro h size announced incomplete
    obtain ⟨⟨six, zero, covers, within⟩, rfl⟩ := announcedResponse_eq_some announced
    show modbusStep dev h = none
    rw [modbusStep_mbap exact header six zero (by omega), if_pos incomplete]
  take := by
    intro h size announced whole
    obtain ⟨⟨six, zero, covers, within⟩, rfl⟩ := announcedResponse_eq_some announced
    refine ⟨.frame dev false [dev.desc.spec.fields.map
      (fieldCell dev.desc.modbusBigEndian (h.drop dev.desc.spec.hdr))] true, ?_⟩
    show modbusStep dev h = _
    rw [modbusStep_mbap exact header six zero (by omega), if_neg (by omega), if_neg (by omega)]
    rfl
  drop := by
    intro h silent long
    have hdr := FrameSpec.hdr_of header
    show ∃ cut, modbusStep dev h = some cut ∧ cut.isFrame = false
    rcases modbusStep_silent exact header (by omega) silent with dropped | ⟨_, short⟩
    · exact dropped
    · omega
  short := by
    intro h cut decided short
    have step : modbusStep dev h = some cut := decided
    by_cases six : 6 ≤ h.length
    · cases announced : announcedResponse dev.desc.spec h with
      | some size =>
        -- the response is not all there, so there is no cut yet
        obtain ⟨⟨_, zero, covers, within⟩, rfl⟩ := announcedResponse_eq_some announced
        rw [modbusStep_mbap exact header six zero (by omega), if_pos (by omega)] at step
        cases step
      | none =>
        rcases modbusStep_silent exact header six announced with ⟨_, dropped, drop⟩ | ⟨none, _⟩
        · rw [step] at dropped
          cases dropped
          exact drop
        · rw [step] at none
          cases none
    · exact isFrame_of_short header step (Nat.lt_of_not_le six)

/-- A response within the frame limit is cut whole. -/
theorem planted_of_small {replies : List Reply}
    (wellFormed : ∀ reply ∈ replies, reply.WellFormed dev.desc.spec)
    (small : ∀ r ∈ Reply.responses replies, (r.bytes dev.desc.spec).length ≤ kMaxFrame)
    (positive : 0 < dev.desc.spec.payloadMin.toNat) :
    ∀ content ∈ Token.frames (replies.flatMap (Reply.tokens dev.desc.spec)),
      (modbusSlicer dev positive).CutsWhole content ∧
        dev.desc.spec.hdr + dev.desc.spec.payloadMin.toNat ≤ content.length := by
  intro content member
  rw [Reply.frames_tokens] at member
  obtain ⟨r, inside, rfl⟩ := List.mem_map.mp member
  have enough := (wellFormed _ (Reply.mem_of_mem_responses inside)).1
  refine ⟨⟨_, MbapResponse.modbusStep_bytes exact header enough (small r inside)⟩, ?_⟩
  rw [r.bytes_length header]
  omega

/-- Where the frames are the same, so are the rows. -/
theorem rows_of_sameFrames (positive : 0 < dev.desc.spec.payloadMin.toNat) {replies : List Reply}
    (same : ((modbusSlicer dev positive).comap Prod.fst).SameFrames Prod.snd
      (Reply.stream dev.desc.spec replies)) {full bare : List (Bytes × Int)}
    (fullBytes : chunkBytes full = replies.flatMap (Reply.bytes dev.desc.spec))
    (bareBytes : chunkBytes bare =
      (Reply.responses replies).flatMap (MbapResponse.bytes dev.desc.spec)) :
    (feedModbusAll dev {} full).2.map Row.untimed =
      (feedModbusAll dev {} bare).2.map Row.untimed := by
  have foretells := (modbusSlicer_foretells exact header positive).comap
    (Prod.fst : UInt8 × Bool → UInt8)
  have rows : ∀ chunks : List (Bytes × Int), (feedModbusAll dev {} chunks).2.map Row.untimed =
      (Cut.frameNotes ((modbusSlicer dev positive).cuts (chunkBytes chunks))).flatMap
        FeedNote.untimed := by
    intro chunks
    rw [feedModbusAll, feedModbus_eq positive (sliceable_of_mbap exact header),
      (feedChunks_sliced (modbusSlicer dev positive) chunks {}
        (modbusSlicer dev positive).step_nil 0).2, DeviceStream.sliced, rowsOf_untimed,
      List.nil_append, untimed_frameNotes (modbusSlicer_silent dev positive)]
  have notes := same.frameNotes foretells
  rw [Reply.stream, Token.map_fst_marked, Token.filter_marked, Reply.wire_tokens,
    Reply.frames_tokens, ← List.flatMap_def] at notes
  rw [rows, rows, fullBytes, bareBytes, notes]

/-- **Short frames are skipped whole exactly when no frame that is announced has to do with one.**
Where every response keeps within 64 KiB, that is to say that no byte of a short frame starts what
looks like a response. -/
theorem survivesShort_iff (replies : List Reply)
    (wellFormed : ∀ reply ∈ replies, reply.WellFormed dev.desc.spec) :
    (SurvivesShort dev exact.payloadMin_pos replies ↔
        Unharmed (fun h => announcedResponse dev.desc.spec (h.map Prod.fst)) Prod.snd 0
          (Reply.stream dev.desc.spec replies)) ∧
      ((∀ r ∈ Reply.responses replies, (r.bytes dev.desc.spec).length ≤ 65536) →
        (Unharmed (fun h => announcedResponse dev.desc.spec (h.map Prod.fst)) Prod.snd 0
            (Reply.stream dev.desc.spec replies) ↔
          Harmless (announcedResponse dev.desc.spec)
            (replies.flatMap (Reply.tokens dev.desc.spec)))) := by
  have positive := exact.payloadMin_pos
  have foretells := modbusSlicer_foretells exact header positive
  have frames : ((modbusSlicer dev positive).comap Prod.fst).SameFrames Prod.snd
        (Reply.stream dev.desc.spec replies) ↔
      Unharmed (fun h => announcedResponse dev.desc.spec (h.map Prod.fst)) Prod.snd 0
        (Reply.stream dev.desc.spec replies) :=
    (foretells.comap (Prod.fst : UInt8 × Bool → UInt8)).sameFrames_iff _
  refine ⟨⟨fun survives => frames.mp survives.frames, fun unharmed => ?_⟩, fun small => ?_⟩
  · have same := frames.mpr unharmed
    exact ⟨fun full bare => rows_of_sameFrames exact header positive same, same⟩
  · exact unharmed_iff_harmless foretells _
      (planted_of_small exact header wellFormed small positive)

end

/-! ### Exception replies -/

/-- The answer of unit 1 to a read of two registers, which hold 5 and 6. -/
def meterResponse : MbapResponse :=
  { tid := (0, 2), unit := 1, byteCount := 4, registers := [0, 5, 0, 6] }

theorem meterResponse_wellFormed :
    (Reply.response meterResponse).WellFormed meterDevice.desc.spec := ⟨by decide, by decide⟩

/-- The exception reply of unit 1: function 3 with the error bit, illegal data address. -/
def meterException : Reply := .short (0, 1) [1, 0x83, 2]

theorem meterException_wellFormed : meterException.WellFormed meterDevice.desc.spec :=
  ⟨by decide, by decide, by decide⟩

/-- An exception reply behind the last response does no harm. -/
theorem survivesShort_meter :
    SurvivesShort meterDevice (by decide) [.response meterResponse, meterException] := by
  have wellFormed : ∀ reply ∈ [.response meterResponse, meterException],
      reply.WellFormed meterDevice.desc.spec := by
    intro reply member
    rcases List.mem_cons.mp member with rfl | member
    · exact meterResponse_wellFormed
    · rcases List.mem_singleton.mp member with rfl
      exact meterException_wellFormed
  obtain ⟨exactly, small⟩ := survivesShort_iff ⟨by decide, by decide⟩ (by decide) _ wellFormed
  exact exactly.mpr ((small (by decide)).mpr ⟨by decide, by decide⟩)

/-- An exception reply in front of a response: one byte into the reply its header reads as a frame
of 775 bytes, the slicer waits for them, and the response gives no row. -/
theorem not_survivesShort_exception :
    (∀ reply ∈ [meterException, .response meterResponse],
        reply.WellFormed meterDevice.desc.spec) ∧
      ¬ SurvivesShort meterDevice (by decide) [meterException, .response meterResponse] := by
  constructor
  · intro reply member
    rcases List.mem_cons.mp member with rfl | member
    · exact meterException_wellFormed
    · rcases List.mem_singleton.mp member with rfl
      exact meterResponse_wellFormed
  · intro survives
    have rows := survives.rows [(_, 0)] [(_, 0)] (List.append_nil _) (List.append_nil _)
    revert rows
    decide

end EtherAdapter
