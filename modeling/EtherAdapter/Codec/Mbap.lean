/-
**Modbus: chunking, and responses with an MBAP prefix.**

* **`feedModbus_chunking`** — one call on `a ++ b` or a call on `a` and one on `b`: the same stream
  and the same cells, whatever the bytes and the response format.
* `mbapBytes` — an MBAP frame on the wire: `[tid 2][0x0000][len BE16][len bytes]`.
* **`feedModbus_roundTrip`** — any sequence of MBAP responses, cut into chunks in any way: one row
  per response, decoded from that response's registers; nothing is skipped, nothing stays pending.
-/

import EtherAdapter.Model.Modbus
import EtherAdapter.Codec.Chunking

namespace EtherAdapter

open Slicing

/-! ### Any chunking -/

/-- A sequence of calls of `feedModbus`. -/
def feedModbusAll (dev : DevicePtr) :
    DeviceStream → List (Bytes × Int) → DeviceStream × List Row :=
  feedChunks (feedModbus dev)

/-- **Chunking invariance of `feedModbus`, on arbitrary bytes**, for every stream. -/
theorem feedModbus_chunking (dev : DevicePtr) (fields : dev.desc.spec.fields ≠ [])
    (header : dev.desc.spec.frameType = 0 ∨ dev.desc.spec.frameType = 2 ∨
      dev.desc.spec.frameType = 7 ∨ dev.desc.spec.frameType = 9)
    (positive : 0 < dev.desc.spec.payloadMin.toNat)
    (fits : dev.desc.spec.frameType + dev.desc.spec.payloadMin.toNat ≤ 65536)
    (st : DeviceStream) (a b : Bytes) (whole first second : Int) :
    (feedModbus dev st (a ++ b) whole).1 =
        (feedModbus dev (feedModbus dev st a first).1 b second).1 ∧
      (feedModbus dev st (a ++ b) whole).2.map Row.untimed =
        ((feedModbus dev st a first).2 ++
          (feedModbus dev (feedModbus dev st a first).1 b second).2).map Row.untimed := by
  have small : dev.desc.spec.fixedTotal ≤ kMaxFrame := by
    unfold FrameSpec.fixedTotal FrameSpec.hdr kMaxFrame
    omega
  have sliceable : dev.desc.Sliceable := ⟨fields, decide_eq_true header, positive, Or.inr small⟩
  rw [feedModbus_eq positive sliceable]
  exact st.sliced_append (modbusSlicer dev positive) a b whole first second

/-- A Modbus device with a 9-byte response header and one register pair. -/
def meterDevice : DevicePtr :=
  { addr := 2
    desc :=
      { connProto := connModbus
        spec :=
          { frameType := 9, payloadMin := 4, startAddr := 0, addrNum := 2, fields := int16Pair
            frameLen_lt := FrameSpec.noFrameLen_lt, payloadMin_eq := payloadMinOf_int16Pair } } }

/-- A response cut behind its protocol id. -/
theorem feedModbus_chunking_meter :
    (feedModbus meterDevice {} ([9, 0, 1, 0, 0] ++ [0, 7, 1, 3, 4, 0, 5, 0, 6]) 5).1 =
      (feedModbus meterDevice (feedModbus meterDevice {} [9, 0, 1, 0, 0] 1).1
        [0, 7, 1, 3, 4, 0, 5, 0, 6] 2).1 :=
  (feedModbus_chunking meterDevice (by decide) (by decide) (by decide) (by decide) {}
    [9, 0, 1, 0, 0] [0, 7, 1, 3, 4, 0, 5, 0, 6] 5 1 2).1

/-- **A stream of whole responses**, in any chunking: one row and one frame for each, nothing
skipped, nothing pending. -/
theorem feedModbus_responses {ι : Type*} {dev : DevicePtr}
    (positive : 0 < dev.desc.spec.payloadMin.toNat) (sliceable : dev.desc.Sliceable)
    (items : List ι) (content : ι → Bytes) (row : ι → List Cell)
    (whole : ∀ item ∈ items,
      modbusStep dev (content item) = some (response dev (content item).length (row item)))
    {chunks : List (Bytes × Int)} (cut : chunkBytes chunks = items.flatMap content) :
    ((feedModbusAll dev {} chunks).2.map fun row => (row.dev, some row.cells)) =
        (items.map fun item => (dev, some (row item))) ∧
      (feedModbusAll dev {} chunks).1.buf = [] ∧
      (feedModbusAll dev {} chunks).1.frames = items.length ∧
      (feedModbusAll dev {} chunks).1.resyncs = 0 ∧
      (feedModbusAll dev {} chunks).1.badFrames = 0 := by
  obtain ⟨rows, buf, frames, resyncs, bad⟩ :=
    feedChunks_frames (modbusSlicer dev positive) items _ _ whole cut
  rw [← feedModbus_eq positive sliceable, ← feedModbusAll] at rows buf frames resyncs bad
  refine ⟨?_, buf, ?_, ?_, ?_⟩
  · rw [map_untimed_some, rows, List.map_flatMap, List.map_eq_flatMap]
    rfl
  · simpa [FeedNote.good] using frames
  · simpa [FeedNote.dropped] using resyncs
  · simpa [FeedNote.bad] using bad

/-! ### MBAP frames on the wire -/

/-- `[tid 2][0x0000][len BE16]`, then `len` bytes. -/
def mbapBytes (tid : UInt8 × UInt8) (body : Bytes) : Bytes :=
  [tid.1, tid.2, 0, 0, UInt8.ofNat (body.length / 256), UInt8.ofNat (body.length % 256)] ++ body

theorem length_mbapBytes (tid : UInt8 × UInt8) (body : Bytes) :
    (mbapBytes tid body).length = 6 + body.length := by
  rw [mbapBytes, List.length_append]
  rfl

theorem mbapLen_mbapBytes (tid : UInt8 × UInt8) {body : Bytes} (small : body.length < 2 ^ 16) :
    mbapLen (mbapBytes tid body) = body.length := by
  have high : (UInt8.ofNat (body.length / 256)).toNat = body.length / 256 := by
    rw [UInt8.toNat_ofNat']
    omega
  have low : (UInt8.ofNat (body.length % 256)).toNat = body.length % 256 := by
    rw [UInt8.toNat_ofNat']
    omega
  show ((UInt8.ofNat (body.length / 256)).toNat <<< 8) ||| (UInt8.ofNat (body.length % 256)).toNat =
    body.length
  rw [high, low, ← Nat.shiftLeft_add_eq_or_of_lt (by omega), Nat.shiftLeft_eq]
  omega

section

variable {dev : DevicePtr} (exact : dev.desc.spec.Exact)
  (header : dev.desc.spec.frameType = 7 ∨ dev.desc.spec.frameType = 9)

theorem FrameSpec.hasMbap_of {spec : FrameSpec} (header : spec.frameType = 7 ∨ spec.frameType = 9) :
    spec.hasMbap = true := by
  refine decide_eq_true ?_
  unfold FrameSpec.hdr
  omega

theorem FrameSpec.hdr_of {spec : FrameSpec} (header : spec.frameType = 7 ∨ spec.frameType = 9) :
    spec.hdr = 7 ∨ spec.hdr = 9 := by
  unfold FrameSpec.hdr
  omega

include exact header

theorem sliceable_of_mbap : dev.desc.Sliceable where
  fields := exact.nonempty
  header := decide_eq_true (Or.inr (Or.inr header))
  payloadMin_pos := exact.payloadMin_pos
  fits := Or.inl (FrameSpec.hasMbap_of header)

/-- **At an MBAP frame with enough registers, the slicer takes that frame**, with the row of the
bytes behind the configured header. -/
theorem modbusStep_mbapBytes (tid : UInt8 × UInt8) {body : Bytes}
    (small : 6 + body.length ≤ kMaxFrame)
    (enough : dev.desc.spec.hdr + dev.desc.spec.payloadMin.toNat ≤ 6 + body.length) :
    modbusStep dev (mbapBytes tid body) = some (response dev (6 + body.length)
      (dev.desc.spec.fields.map (fieldCell dev.desc.modbusBigEndian
        ((mbapBytes tid body).drop dev.desc.spec.hdr)))) := by
  have size := length_mbapBytes tid body
  have len : mbapLen (mbapBytes tid body) = body.length := by
    refine mbapLen_mbapBytes tid ?_
    unfold kMaxFrame at small
    omega
  have zero : zeroProtocolId (mbapBytes tid body) = true := rfl
  have positive := exact.payloadMin_pos
  have hdr := FrameSpec.hdr_of header
  have row := exact.decodePayload (show _ ≤ 6 + body.length - dev.desc.spec.hdr by omega)
    dev.desc.modbusBigEndian ((mbapBytes tid body).drop dev.desc.spec.hdr)
  rw [modbusStep, if_pos (FrameSpec.hasMbap_of header), if_neg (by omega), zero,
    if_neg (not_not_intro rfl), mbapFrame]
  simp only [len, row]
  rw [if_neg (by omega), if_neg (by omega), if_neg (by omega), if_neg (by omega), if_neg (by omega)]

end

/-! ### Responses -/

/-- A register-read response. `funCode` and `byteCount` are sent when the header has 9 bytes. -/
structure MbapResponse where
  tid : UInt8 × UInt8 := (0, 0)
  unit : UInt8
  funCode : UInt8 := 3
  byteCount : UInt8 := 0
  registers : Bytes
deriving DecidableEq, Repr

namespace MbapResponse

/-- What the MBAP length field counts. -/
def body (r : MbapResponse) (spec : FrameSpec) : Bytes :=
  (if spec.frameType = 9 then [r.unit, r.funCode, r.byteCount] else [r.unit]) ++ r.registers

def bytes (spec : FrameSpec) (r : MbapResponse) : Bytes := mbapBytes r.tid (r.body spec)

theorem bytes_length {spec : FrameSpec} (header : spec.frameType = 7 ∨ spec.frameType = 9)
    (r : MbapResponse) : (r.bytes spec).length = spec.hdr + r.registers.length := by
  rw [bytes, length_mbapBytes, body, List.length_append]
  unfold FrameSpec.hdr
  rcases header with seven | nine
  · rw [if_neg (by omega), seven]
    simp only [List.length_cons, List.length_nil]
    omega
  · rw [if_pos nine, nine]
    simp only [List.length_cons, List.length_nil]
    omega

theorem bytes_drop {spec : FrameSpec} (header : spec.frameType = 7 ∨ spec.frameType = 9)
    (r : MbapResponse) : (r.bytes spec).drop spec.hdr = r.registers := by
  rw [bytes, mbapBytes, body]
  unfold FrameSpec.hdr
  rcases header with seven | nine
  · rw [if_neg (by omega), seven]
    rfl
  · rw [if_pos nine, nine]
    rfl

/-- The row of a response: every field, read from the registers. -/
def row (dev : DevicePtr) (r : MbapResponse) : List Cell :=
  dev.desc.spec.fields.map (fieldCell dev.desc.modbusBigEndian r.registers)

/-- **At a response, the slicer takes that response with its row.** -/
theorem modbusStep_bytes {dev : DevicePtr} (exact : dev.desc.spec.Exact)
    (header : dev.desc.spec.frameType = 7 ∨ dev.desc.spec.frameType = 9) {r : MbapResponse}
    (enough : dev.desc.spec.payloadMin.toNat ≤ r.registers.length)
    (small : (r.bytes dev.desc.spec).length ≤ kMaxFrame) :
    modbusStep dev (r.bytes dev.desc.spec) =
      some (response dev (r.bytes dev.desc.spec).length (r.row dev)) := by
  have size := r.bytes_length header
  have body : (r.bytes dev.desc.spec).length = 6 + (r.body dev.desc.spec).length :=
    length_mbapBytes _ _
  rw [bytes, modbusStep_mbapBytes exact header r.tid (by omega) (by omega), ← bytes,
    r.bytes_drop header, body, row]

end MbapResponse

/-- **Decoding undoes encoding for MBAP responses**, in any chunking. -/
theorem feedModbus_roundTrip (dev : DevicePtr) (exact : dev.desc.spec.Exact)
    (header : dev.desc.spec.frameType = 7 ∨ dev.desc.spec.frameType = 9)
    (responses : List MbapResponse)
    (enough : ∀ r ∈ responses, dev.desc.spec.payloadMin.toNat ≤ r.registers.length)
    (small : ∀ r ∈ responses, (r.bytes dev.desc.spec).length ≤ 65536)
    (chunks : List (Bytes × Int))
    (cut : chunkBytes chunks = responses.flatMap (MbapResponse.bytes dev.desc.spec)) :
    ((feedModbusAll dev {} chunks).2.map fun row => (row.dev, some row.cells)) =
        (responses.map fun r => (dev,
          decodePayload dev.desc.spec dev.desc.modbusBigEndian r.registers r.registers.length)) ∧
      (feedModbusAll dev {} chunks).1.buf = [] ∧
      (feedModbusAll dev {} chunks).1.frames = responses.length ∧
      (feedModbusAll dev {} chunks).1.resyncs = 0 ∧
      (feedModbusAll dev {} chunks).1.badFrames = 0 := by
  have positive := exact.payloadMin_pos
  have steps : ∀ r ∈ responses, (modbusSlicer dev positive).step (r.bytes dev.desc.spec) =
      some (response dev (r.bytes dev.desc.spec).length (r.row dev)) :=
    fun r member => MbapResponse.modbusStep_bytes exact header (enough r member) (small r member)
  obtain ⟨rows, counters⟩ :=
    feedModbus_responses positive (sliceable_of_mbap exact header) responses _ _ steps cut
  refine ⟨?_, counters⟩
  rw [rows]
  refine List.map_congr_left fun r member => ?_
  rw [exact.decodePayload (enough r member), MbapResponse.row]

/-- A response with its registers cut in two. -/
theorem feedModbus_roundTrip_meter :
    let r : MbapResponse := { tid := (0, 1), unit := 1, byteCount := 4, registers := [0, 5, 0, 6] }
    let chunks := [((r.bytes meterDevice.desc.spec).take 11, 10),
      ((r.bytes meterDevice.desc.spec).drop 11, 20)]
    (feedModbusAll meterDevice {} chunks).1.frames = 1 ∧
      (feedModbusAll meterDevice {} chunks).1.resyncs = 0 :=
  have holds := feedModbus_roundTrip meterDevice ⟨by decide, by decide⟩ (by decide)
    [{ tid := (0, 1), unit := 1, byteCount := 4, registers := [0, 5, 0, 6] }] (by decide)
    (by decide) _ (by decide)
  ⟨holds.2.2.1, holds.2.2.2.1⟩

end EtherAdapter
