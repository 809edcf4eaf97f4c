/-
**The ingest gate against the codec.**

`onMessage` asks the first member of a group for a field layout, `feed` asks the member that a frame
selects. The two agree unless the first member has no layout and another one can be decoded.

* `Decodable` — what a frame needs to give a row, read off the group alone.
* `decodable_of_feed` — every row comes from such a frame; `feed_sample` — and every such frame gives
  one, on an empty stream.
* **`onMessage_passes`** — no chunk that gives a row is dropped, exactly when the first member has a
  layout or no frame of the group is decodable.
-/

import EtherAdapter.Codec.Chunking
import EtherAdapter.Codec.Wire
import EtherAdapter.Model.Indexes

namespace EtherAdapter

open Slicing Grouping

/-! ### Decodable frames -/

/-- **Frames that give a row**: the group selects their member, the header checks accept their size,
and all fields of the member lie inside their first record. -/
structure Decodable (group : DeviceGroup) (shape : FrameShape) : Prop where
  selected : ∃ frameType : UInt8, group.byFrameType frameType.toNat = some shape.dev
  trailFlag : shape.trailFlag = shape.dev.desc.trailFlag
  accepted : shape.Accepted
  payloadMin_le : shape.dev.desc.spec.payloadMin.toNat ≤ shape.recordBytes
  extent_le : ∀ field ∈ shape.dev.desc.spec.fields, field.extent ≤ shape.recordBytes

/-- The record loop pushes a row exactly when its first record decodes. -/
theorem decodeRecords_ne_nil {spec : FrameSpec} {be : Bool} {recordBytes records : ℕ} {p : Bytes} :
    (decodeRecords spec be recordBytes records p).1 ≠ [] ↔
      0 < records ∧ (decodePayload spec be p recordBytes).isSome = true := by
  cases records with
  | zero => simp only [decodeRecords, ne_eq, not_true_eq_false, Nat.lt_irrefl, false_and]
  | succ records =>
    rw [decodeRecords]
    cases decodePayload spec be p recordBytes with
    | none => simp only [ne_eq, not_true_eq_false, Option.isSome_none, Bool.false_eq_true, and_false]
    | some row =>
      simp only [ne_eq, reduceCtorEq, not_false_eq_true, Nat.succ_pos, Option.isSome_some, and_self]

/-- A frame that pushes a row is decodable. -/
theorem decodable_of_rows {group : DeviceGroup} {h : Bytes} {shape : FrameShape}
    (checked : checkHeader group h = .ok shape)
    (pushed : (decodeRecords shape.dev.desc.spec shape.dev.desc.bigEndian shape.recordBytes
      shape.records (h.drop kHeaderSize)).1 ≠ []) : Decodable group shape := by
  obtain ⟨_, first⟩ := decodeRecords_ne_nil.mp pushed
  obtain ⟨row, decoded⟩ := Option.isSome_iff_exists.mp first
  obtain ⟨selected, trailFlag, accepted⟩ := checkHeader_cases checked
  exact ⟨⟨_, selected⟩, trailFlag, accepted, payloadMin_le_of_decodePayload decoded,
    (eq_of_decodePayload decoded).2⟩

theorem decodable_of_feedStep {group : DeviceGroup} {h : Bytes} {cut : Cut FeedNote}
    (decided : feedStep group h = some cut) {recvMs : Int} (pushed : cut.note.rows recvMs ≠ []) :
    ∃ shape, Decodable group shape := by
  obtain ⟨_, ⟨why, _, rfl⟩ | ⟨shape, checked, _, rfl⟩⟩ := feedStep_cases decided
  · exact absurd rfl pushed
  · refine ⟨shape, decodable_of_rows checked fun none => pushed ?_⟩
    rw [takeFrame, FeedNote.rows, none, List.map_nil]

/-- **A row is pushed only for a decodable frame.** -/
theorem decodable_of_feed {group : DeviceGroup} {st : DeviceStream} {data : Bytes} {recvMs : Int}
    (pushed : (feed group st data recvMs).2 ≠ []) : ∃ shape, Decodable group shape := by
  rw [feed_eq, DeviceStream.sliced] at pushed
  revert pushed
  generalize st.buf ++ data = input
  induction input using (customSlicer group).cut_induction with
  | undecided input undecided =>
    rw [(customSlicer group).cuts_of_none undecided]
    exact fun pushed => absurd rfl pushed
  | decided input cut decided ih =>
    rw [(customSlicer group).cuts_of_some decided]
    intro pushed
    by_cases own : cut.note.rows recvMs = []
    · refine ih fun none => pushed ?_
      simp only at none
      rw [rowsOf, List.flatMap_cons, own, ← rowsOf, none, List.append_nil]
    · exact decodable_of_feedStep decided own

/-! ### A sample frame -/

/-- A frame of the given shape, all its payload zero. -/
def FrameShape.sample (shape : FrameShape) (frameType : UInt8) : Bytes :=
  WireFrame.header frameType shape.dev.desc.leadFlag shape.payloadBytes (0, 0) ++
    List.replicate (shape.payloadBytes + shape.tail) 0

section Sample

variable {group : DeviceGroup} {shape : FrameShape} {frameType : UInt8}

theorem FrameShape.length_sample : (shape.sample frameType).length = shape.frameBytes := by
  rw [sample, List.length_append, List.length_replicate, frameBytes, Nat.add_assoc]
  rfl

theorem Decodable.checkHeader_sample (decodable : Decodable group shape)
    (selected : group.byFrameType frameType.toNat = some shape.dev) :
    checkHeader group (shape.sample frameType) = .ok shape := by
  have accepted := decodable.accepted
  have positive := accepted.payload_pos
  have long := accepted.payloadMin_le
  have size := accepted.frameBytes_le
  have small : shape.payloadBytes < 2 ^ 16 := by
    unfold FrameShape.frameBytes kHeaderSize kMaxFrame at size
    omega
  have length : payloadBytesOf shape.dev.desc.spec (shape.sample frameType) =
      shape.payloadBytes := by
    rw [payloadBytesOf, FrameShape.sample, WireFrame.headerLen_header _ _ _ small,
      if_neg (by omega)]
  have same : (⟨shape.dev, shape.payloadBytes, shape.dev.desc.trailFlag⟩ : FrameShape) = shape := by
    rw [← decodable.trailFlag]
  have type : byteAt (shape.sample frameType) 0 = frameType := rfl
  have flag : byteAt (shape.sample frameType) 1 = shape.dev.desc.leadFlag := rfl
  unfold checkHeader
  rw [type, selected]
  simp only [length, flag, same]
  rw [if_neg accepted.fields, if_neg (fun miss => miss.2 rfl), if_neg (by omega),
    if_neg (by omega)]

/-- **A decodable frame gives a row**, on an empty stream. -/
theorem Decodable.feed_sample (decodable : Decodable group shape)
    (selected : group.byFrameType frameType.toNat = some shape.dev) (recvMs : Int) :
    (feed group {} (shape.sample frameType) recvMs).2 ≠ [] := by
  have whole : ¬ (shape.sample frameType).length < shape.frameBytes := by
    rw [FrameShape.length_sample]
    exact Nat.lt_irrefl _
  have long : ¬ (shape.sample frameType).length < kHeaderSize := by
    rw [FrameShape.length_sample, FrameShape.frameBytes]
    omega
  have decided : (customSlicer group).step (shape.sample frameType) =
      some ⟨shape.frameBytes, true, takeFrame shape (shape.sample frameType)⟩ := by
    show feedStep group (shape.sample frameType) = _
    rw [feedStep, if_neg long, decodable.checkHeader_sample selected]
    simp only [if_neg whole]
  have first := decodePayload_of_fits decodable.accepted.fields decodable.payloadMin_le
    decodable.extent_le shape.dev.desc.bigEndian ((shape.sample frameType).drop kHeaderSize)
  have pushed : (takeFrame shape (shape.sample frameType)).rows recvMs ≠ [] := by
    rw [takeFrame, FeedNote.rows, Ne, List.map_eq_nil_iff]
    refine decodeRecords_ne_nil.mpr ⟨shape.records_pos, ?_⟩
    rw [first]
    rfl
  rw [feed_eq, DeviceStream.sliced]
  show rowsOf recvMs ((customSlicer group).cuts (shape.sample frameType)) ≠ []
  rw [(customSlicer group).cuts_of_some decided, rowsOf, List.flatMap_cons]
  exact fun none => pushed (List.append_eq_nil_iff.mp none).1

end Sample

/-! ### The gate -/

theorem GroupPtr.ingestable_custom {group : GroupPtr} {primary : DevicePtr}
    (first : group.group.primary = some primary) (custom : primary.desc.connProto = connCustomData) :
    group.ingestable = true ↔ primary.desc.spec.fields ≠ [] := by
  rw [ingestable, first]
  simp only [custom, true_or, true_and, decide_eq_true_eq]

/-- What arrives on a matched connection is enqueued exactly when its group is ingestable. -/
theorem IngestServer.onMessage_enqueues {server : IngestServer} {db : ConfigDB} {conn : ℕ}
    {peer : Peer} {group : GroupPtr} (matched : server.groupOf db conn peer = some group)
    {data : Bytes} (received : data ≠ []) (timeUs : Int) :
    (server.onMessage db conn peer data timeUs).2 = some ⟨some group, timeUs.tdiv 1000, data⟩ ↔
      group.ingestable = true := by
  rw [onMessage, if_neg received, matched]
  simp only
  split
  · rename_i passes
    simp only [passes]
  · rename_i dropped
    simp only [dropped, reduceCtorEq]

/-- **No decodable data is dropped at the gate**, exactly when the first member has a field layout
or no frame of the group is decodable. A chunk counts as decodable when `feed` pushes a row on it,
after whatever the connection has sent before. -/
theorem IngestServer.onMessage_passes (server : IngestServer) (db : ConfigDB) (conn : ℕ)
    (peer : Peer) {group : GroupPtr} {primary : DevicePtr}
    (matched : server.groupOf db conn peer = some group)
    (first : group.group.primary = some primary)
    (custom : primary.desc.connProto = connCustomData) :
    (∀ (history : List (Bytes × Int)) (data : Bytes) (timeUs : Int), data ≠ [] →
        (feed group.group (feedAll group.group {} history).1 data (timeUs.tdiv 1000)).2 ≠ [] →
        (server.onMessage db conn peer data timeUs).2 =
          some ⟨some group, timeUs.tdiv 1000, data⟩) ↔
      (primary.desc.spec.fields ≠ [] ∨ ¬ ∃ shape, Decodable group.group shape) := by
  constructor
  · intro passes
    by_cases layout : primary.desc.spec.fields = []
    · refine Or.inr ?_
      rintro ⟨shape, decodable⟩
      obtain ⟨frameType, selected⟩ := decodable.selected
      have received : shape.sample frameType ≠ [] := List.cons_ne_nil _ _
      have enqueued := passes [] (shape.sample frameType) 0 received
        (decodable.feed_sample selected _)
      rw [onMessage_enqueues matched received, GroupPtr.ingestable_custom first custom] at enqueued
      exact enqueued layout
    · exact Or.inl layout
  · intro agree history data timeUs received pushed
    rw [onMessage_enqueues matched received, GroupPtr.ingestable_custom first custom]
    rcases agree with layout | undecodable
    · exact layout
    · exact absurd (decodable_of_feed pushed) undecodable

/-- A status device and an event device at the same endpoint. -/
def burstTables (fields : List FieldRow) : Tables where
  headers := [{ dataProtoId := 1, frameType := 1 }, { dataProtoId := 2, frameType := 2 }]
  fields := fields
  devices :=
    [{ deviceId := bytesOf "status", deviceIp := "10.0.0.1".toList, devicePort := 5000,
       connProto := "custom_data(1)".toList, dataProtoId := 1 },
     { deviceId := bytesOf "burst", deviceIp := "10.0.0.1".toList, devicePort := 5000,
       connProto := "custom_data(1)".toList, dataProtoId := 2 }]

def burstField : FieldRow := { dataProtoId := 2, fieldName := bytesOf "peak", fieldType := 1 }

def statusField : FieldRow := { dataProtoId := 1, fieldName := bytesOf "level", fieldType := 1 }

def burstConfig (fields : List FieldRow) : Config :=
  (burstTables fields).loadAll (Sorter.insertion ℕ)

def burstPeer : Peer := ⟨"10.0.0.1".toList, 5000⟩

/-- The server once the device has connected. -/
def burstServer (fields : List FieldRow) : IngestServer :=
  IngestServer.connect {} (burstConfig fields).toDB 0 burstPeer

/-- One event frame of two payload bytes. -/
def burstFrame : Bytes := [2, 0, 2, 0, 0, 0, 7, 0]

theorem burstServer_groupOf (fields : List FieldRow)
    (matched : (burstConfig fields).matchGroup burstPeer = some 0) :
    (burstServer fields).groupOf (burstConfig fields).toDB 0 burstPeer =
      some ((burstConfig fields).groupPtr 0) := by
  have found : (burstConfig fields).toDB.matchGroup burstPeer =
      some ((burstConfig fields).groupPtr 0) := by
    rw [Config.matchGroup_toDB, matched, Option.map_some]
  rw [burstServer, IngestServer.groupOf, IngestServer.connect, AList.lookup_insert, found]

/-- With a layout for both, nothing that gives a row is dropped. -/
theorem onMessage_passes_layouts :
    ((burstConfig [statusField, burstField]).devicePtr 0).desc.spec.fields ≠ [] ∧
      ∀ (history : List (Bytes × Int)) (data : Bytes) (timeUs : Int), data ≠ [] →
        (feed ((burstConfig [statusField, burstField]).groupPtr 0).group
          (feedAll ((burstConfig [statusField, burstField]).groupPtr 0).group {} history).1 data
          (timeUs.tdiv 1000)).2 ≠ [] →
        ((burstServer [statusField, burstField]).onMessage
            (burstConfig [statusField, burstField]).toDB 0 burstPeer data timeUs).2 =
          some ⟨some ((burstConfig [statusField, burstField]).groupPtr 0), timeUs.tdiv 1000,
            data⟩ := by
  have matched := burstServer_groupOf [statusField, burstField] (by decide)
  have first : ((burstConfig [statusField, burstField]).groupPtr 0).group.primary =
      some ((burstConfig [statusField, burstField]).devicePtr 0) := by decide
  have layout : ((burstConfig [statusField, burstField]).devicePtr 0).desc.spec.fields ≠ [] := by
    decide
  exact ⟨layout, (IngestServer.onMessage_passes _ _ 0 burstPeer matched first
    (by decide)).mpr (Or.inl layout)⟩

/-- **Without a layout for the status device, its gate drops an event frame that decodes.** -/
theorem onMessage_drops_burst :
    (burstServer [burstField]).groupOf (burstConfig [burstField]).toDB 0 burstPeer =
        some ((burstConfig [burstField]).groupPtr 0) ∧
      ((burstConfig [burstField]).groupPtr 0).group.primary =
        some ((burstConfig [burstField]).devicePtr 0) ∧
      ((burstConfig [burstField]).devicePtr 0).desc.connProto = connCustomData ∧
      ((feed ((burstConfig [burstField]).groupPtr 0).group {} burstFrame 0).2.map
        fun row => (row.dev.addr, row.cells.map Cell.v)) = [(1, [7])] ∧
      ((burstServer [burstField]).onMessage (burstConfig [burstField]).toDB 0 burstPeer burstFrame
        0).2 = none := by
  refine ⟨burstServer_groupOf [burstField] (by decide), by decide, by decide, by decide, ?_⟩
  have matched := burstServer_groupOf [burstField] (by decide)
  have received : burstFrame ≠ [] := by decide
  have dropped : ((burstConfig [burstField]).groupPtr 0).ingestable = false := by decide
  rw [IngestServer.onMessage, if_neg received, matched]
  simp only [dropped, Bool.false_eq_true, if_false]

end EtherAdapter
