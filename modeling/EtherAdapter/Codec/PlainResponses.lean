/-
**Modbus: responses without an MBAP prefix, against the poller's requests.**

With `frame_type` 0 or 2 a response carries no sync marker, and the slicer cuts the stream every
`frame_type + payloadMin` bytes. The poller asks for `addr_num` registers, so a response has
`frame_type + 2 * addr_num` bytes. The two sizes come from different tables.

* **`oneRowEach_iff`** — every sequence of responses to the device's requests gives one row per
  response, in any chunking, exactly when the field table fills the response: `payloadMin = 2 *
  addr_num`.
* `length_rows` — the number of rows in general: as many as the cut size goes into the stream.
* `not_oneRowEach_plain` — two registers asked for, one of them in the field table: three rows for
  two responses.
-/

import EtherAdapter.Model.Poller
import EtherAdapter.Codec.Mbap

namespace EtherAdapter

open Slicing

/-! ### Responses to the poller's requests -/

/-- A response without an MBAP prefix. -/
structure PlainResponse where
  header : Bytes
  registers : Bytes
deriving DecidableEq, Repr

namespace PlainResponse

def bytes (r : PlainResponse) : Bytes := r.header ++ r.registers

/-- The response answers a request of the device: the configured header, then two bytes for every
register asked for. -/
structure Answers (spec : FrameSpec) (r : PlainResponse) : Prop where
  header : r.header.length = spec.hdr
  registers : ∃ tid, r.registers.length = 2 * requestedRegisters (buildRequest tid spec).1

end PlainResponse

/-- **One row per response**, for every sequence of responses and any chunking: the row that the
response's registers decode to. -/
def OneRowEach (dev : DevicePtr) : Prop :=
  ∀ responses : List PlainResponse, (∀ r ∈ responses, r.Answers dev.desc.spec) →
    ∀ chunks : List (Bytes × Int), chunkBytes chunks = responses.flatMap PlainResponse.bytes →
      ((feedModbusAll dev {} chunks).2.map fun row => (row.dev, some row.cells)) =
        responses.map fun r => (dev,
          decodePayload dev.desc.spec dev.desc.modbusBigEndian r.registers r.registers.length)

/-! ### The slicer cuts at a fixed size -/

section

variable {dev : DevicePtr} (exact : dev.desc.spec.Exact)
  (header : dev.desc.spec.frameType = 0 ∨ dev.desc.spec.frameType = 2)

include header in
theorem FrameSpec.hasMbap_of_plain : dev.desc.spec.hasMbap = false := by
  refine decide_eq_false ?_
  unfold FrameSpec.hdr
  omega

include exact header

/-- The decision, for an exact field table: it decodes whatever is long enough. -/
theorem modbusStep_plain {h : Bytes} (long : dev.desc.spec.fixedTotal ≤ h.length) :
    modbusStep dev h = some (response dev dev.desc.spec.fixedTotal (dev.desc.spec.fields.map
      (fieldCell dev.desc.modbusBigEndian (h.drop dev.desc.spec.hdr)))) := by
  have row := exact.decodePayload (Nat.le_refl dev.desc.spec.payloadMin.toNat)
    dev.desc.modbusBigEndian (h.drop dev.desc.spec.hdr)
  rw [modbusStep, FrameSpec.hasMbap_of_plain header, if_neg Bool.false_ne_true, fixedFrame,
    if_neg (Nat.not_lt.mpr long), row]

omit exact in
theorem modbusStep_plain_none {h : Bytes} (short : h.length < dev.desc.spec.fixedTotal) :
    modbusStep dev h = none := by
  rw [modbusStep, FrameSpec.hasMbap_of_plain header, if_neg Bool.false_ne_true, fixedFrame]
  exact if_pos short

theorem sliceable_of_plain (fits : dev.desc.spec.fixedTotal ≤ kMaxFrame) : dev.desc.Sliceable where
  fields := exact.nonempty
  header := by
    refine decide_eq_true ?_
    rcases header with zero | two
    · exact Or.inl zero
    · exact Or.inr (Or.inl two)
  payloadMin_pos := exact.payloadMin_pos
  fits := Or.inr fits

/-- **The number of rows**: as many as the cut size goes into the stream. -/
theorem length_rows (fits : dev.desc.spec.fixedTotal ≤ kMaxFrame) (chunks : List (Bytes × Int)) :
    (feedModbusAll dev {} chunks).2.length =
      (chunkBytes chunks).length / dev.desc.spec.fixedTotal := by
  have positive := exact.payloadMin_pos
  have total : 0 < dev.desc.spec.fixedTotal := Nat.add_pos_right _ positive
  have count : ∀ input : Bytes, (((modbusSlicer dev positive).cuts input).flatMap
      fun cut => cut.note.untimed).length = input.length / dev.desc.spec.fixedTotal := by
    intro input
    induction input using (modbusSlicer dev positive).cut_induction with
    | undecided input undecided =>
      have short : input.length < dev.desc.spec.fixedTotal := by
        by_contra long
        have step : modbusStep dev input = none := undecided
        rw [modbusStep_plain exact header (Nat.le_of_not_lt long)] at step
        cases step
      rw [(modbusSlicer dev positive).cuts_of_none undecided, Nat.div_eq_of_lt short]
      rfl
    | decided input cut decided ih =>
      have long : dev.desc.spec.fixedTotal ≤ input.length := by
        by_contra short
        have step : modbusStep dev input = some cut := decided
        rw [modbusStep_plain_none header (Nat.lt_of_not_le short)] at step
        cases step
      have step := modbusStep_plain exact header long
      rw [show modbusStep dev input = some cut from decided] at step
      cases step
      rw [(modbusSlicer dev positive).cuts_of_some decided, List.flatMap_cons, List.length_append,
        ih, response, List.length_drop, Nat.div_eq_sub_div total long, Nat.add_comm]
      rfl
  obtain ⟨_, rows⟩ := feedChunks_sliced (modbusSlicer dev positive) chunks {}
    (modbusSlicer dev positive).step_nil 0
  rw [DeviceStream.sliced, rowsOf_untimed, List.nil_append] at rows
  have lengths := congrArg List.length rows
  rw [List.length_map, count] at lengths
  rw [feedModbusAll, feedModbus_eq positive (sliceable_of_plain exact header fits), lengths]

/-! ### When the two sizes agree -/

variable (fits : dev.desc.spec.fixedTotal ≤ kMaxFrame)
  (requested : ∀ tid, (requestedRegisters (buildRequest tid dev.desc.spec).1 : Int) =
    dev.desc.spec.addrNum)

include fits requested

/-- `hdr + payloadMin` responses of zeros hold `hdr + 2 * addr_num` cuts. -/
theorem filled_of_oneRowEach (oneRow : OneRowEach dev) :
    (dev.desc.spec.payloadMin.toNat : Int) = 2 * dev.desc.spec.addrNum := by
  have positive : 0 < dev.desc.spec.fixedTotal := Nat.add_pos_right _ exact.payloadMin_pos
  let r : PlainResponse := ⟨List.replicate dev.desc.spec.hdr 0,
    List.replicate (2 * dev.desc.spec.addrNum.toNat) 0⟩
  have registers := requested 1
  have answers : r.Answers dev.desc.spec := by
    refine ⟨List.length_replicate, 1, ?_⟩
    rw [List.length_replicate]
    omega
  have size : r.bytes.length = dev.desc.spec.hdr + 2 * dev.desc.spec.addrNum.toNat := by
    rw [PlainResponse.bytes, List.length_append, List.length_replicate, List.length_replicate]
  let responses := List.replicate dev.desc.spec.fixedTotal r
  have length : (responses.flatMap PlainResponse.bytes).length =
      dev.desc.spec.fixedTotal * r.bytes.length := by
    rw [List.length_flatMap, List.map_replicate, List.sum_replicate_nat]
  have rows := oneRow responses (fun other member => List.eq_of_mem_replicate member ▸ answers)
    [(responses.flatMap PlainResponse.bytes, 0)] (List.append_nil _)
  have counts := congrArg List.length rows
  rw [List.length_map, List.length_map, length_rows exact header fits, chunkBytes, List.map_cons,
    List.map_nil, List.flatten_singleton, length, List.length_replicate,
    Nat.mul_div_cancel_left _ positive, size, FrameSpec.fixedTotal] at counts
  omega

/-- Where the field table fills the response, every response is one cut. -/
theorem oneRowEach_of_filled
    (filled : (dev.desc.spec.payloadMin.toNat : Int) = 2 * dev.desc.spec.addrNum) :
    OneRowEach dev := by
  intro responses answers chunks cut
  have positive := exact.payloadMin_pos
  have length : ∀ r ∈ responses, r.registers.length = dev.desc.spec.payloadMin.toNat := by
    intro r member
    obtain ⟨tid, registers⟩ := (answers r member).registers
    have same := requested tid
    omega
  have steps : ∀ r ∈ responses, (modbusSlicer dev positive).step r.bytes =
      some (response dev r.bytes.length (dev.desc.spec.fields.map
        (fieldCell dev.desc.modbusBigEndian r.registers))) := by
    intro r member
    have size : r.bytes.length = dev.desc.spec.fixedTotal := by
      rw [PlainResponse.bytes, List.length_append, (answers r member).header, length r member]
      rfl
    have payload : r.bytes.drop dev.desc.spec.hdr = r.registers :=
      List.drop_left' (answers r member).header
    show modbusStep dev r.bytes = _
    rw [modbusStep_plain exact header (Nat.le_of_eq size.symm), payload, size]
  obtain ⟨rows, _⟩ := feedModbus_responses positive (sliceable_of_plain exact header fits)
    responses _ _ steps cut
  rw [rows]
  refine List.map_congr_left fun r member => ?_
  rw [exact.decodePayload (Nat.le_of_eq (length r member).symm)]

end

/-- The poller asks accepted devices for at least one register. -/
theorem DeviceDesc.addrNum_pos {device : DeviceDesc} (accepted : device.pollable = true) :
    0 < device.spec.addrNum := by
  have request := (of_decide_eq_true accepted).2.1
  exact (of_decide_eq_true request).2

/-- **The slicer gives one row per response exactly when the field table fills the response.** -/
theorem oneRowEach_iff (dev : DevicePtr) (accepted : dev.desc.pollable = true)
    (header : dev.desc.spec.frameType = 0 ∨ dev.desc.spec.frameType = 2)
    (exact : dev.desc.spec.Exact)
    (covered : (dev.desc.spec.payloadMin.toNat : Int) ≤ 2 * dev.desc.spec.addrNum)
    (limit : dev.desc.spec.addrNum ≤ 125) :
    OneRowEach dev ↔ (dev.desc.spec.payloadMin.toNat : Int) = 2 * dev.desc.spec.addrNum := by
  have asked := DeviceDesc.addrNum_pos accepted
  have fits : dev.desc.spec.fixedTotal ≤ kMaxFrame := by
    unfold kMaxFrame FrameSpec.fixedTotal FrameSpec.hdr
    omega
  have requested : ∀ tid, (requestedRegisters (buildRequest tid dev.desc.spec).1 : Int) =
      dev.desc.spec.addrNum := fun tid =>
    requestedRegisters_buildRequest tid (Int.le_of_lt asked) (by omega)
  exact ⟨filled_of_oneRowEach exact header fits requested,
    oneRowEach_of_filled exact header fits requested⟩

/-- A device with a 2-byte response header, `addr_num` registers asked for and the given fields. -/
def plainDevice (addrNum : Int) (fields : List FieldDesc) : DevicePtr :=
  { addr := 3
    desc :=
      { connProto := connModbus
        spec :=
          { frameType := 2, payloadMin := payloadMinOf fields, startAddr := 0, addrNum, fields
            frameLen_lt := FrameSpec.noFrameLen_lt, payloadMin_eq := rfl } } }

/-- Two registers asked for, both in the field table. -/
theorem oneRowEach_plain :
    OneRowEach (plainDevice 2 [{ size := 2 }, { size := 2, byteOffset := 2 }]) :=
  (oneRowEach_iff _ (by decide) (by decide) ⟨by decide, by decide⟩ (by decide) (by decide)).mpr
    (by decide)

/-- Two registers asked for, one of them in the field table: the second register of the first
response is taken for the header of the next frame. -/
theorem not_oneRowEach_plain :
    let dev := plainDevice 2 [{ size := 2 }]
    dev.desc.pollable = true ∧ dev.desc.spec.Exact ∧
      (dev.desc.spec.payloadMin.toNat : Int) ≤ 2 * dev.desc.spec.addrNum ∧
      dev.desc.spec.addrNum ≤ 125 ∧ ¬ OneRowEach dev := by
  refine ⟨by decide, ⟨by decide, by decide⟩, by decide, by decide, fun oneRow => ?_⟩
  have rows := oneRow [⟨[3, 4], [0, 5, 0, 6]⟩, ⟨[3, 4], [0, 7, 0, 8]⟩] (by
    intro r member
    rcases List.mem_cons.mp member with rfl | member
    · exact ⟨rfl, 1, by decide⟩
    · rcases List.mem_singleton.mp member with rfl
      exact ⟨rfl, 1, by decide⟩) [([3, 4, 0, 5, 0, 6, 3, 4, 0, 7, 0, 8], 0)] (by decide)
  revert rows
  decide

end EtherAdapter
