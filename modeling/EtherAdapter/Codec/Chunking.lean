/-
**custom_data: the rows do not depend on how TCP cut the stream.**

* `feedAll` — any sequence of calls; `feedAll_eq` reduces it to one call on the concatenation.
* **`feed_chunking`** — for every reachable stream, one call on `a ++ b` or a call on `a` and one on
  `b`: the same stream, the same rows; and the timestamp of every row is the `recvMs` of the call
  that delivered the last byte of the row's frame. The place of that byte is read off `rowEnds`,
  which lists the pushed rows with the end of their frames.
-/

import EtherAdapter.Model.Feed

namespace EtherAdapter

open Slicing

/-! ### Any number of calls -/

/-- A sequence of calls of `feed`. -/
def feedAll (group : DeviceGroup) : DeviceStream → List (Bytes × Int) → DeviceStream × List Row :=
  feedChunks (feed group)

/-- **Any chunking is one call on the concatenation.** -/
theorem feedAll_eq (group : DeviceGroup) (chunks : List (Bytes × Int)) (st : DeviceStream)
    (waiting : feedStep group st.buf = none) (recvMs : Int) :
    (feedAll group st chunks).1 = (feed group st (chunkBytes chunks) recvMs).1 ∧
      (feedAll group st chunks).2.map Row.untimed =
        (feed group st (chunkBytes chunks) recvMs).2.map Row.untimed := by
  rw [feedAll, feed_eq]
  exact feedChunks_sliced (customSlicer group) chunks st waiting recvMs

/-! ### Where a row's frame ends -/

/-- The rows of a sequence of cuts that starts at `start`, each with the end of its frame. -/
def endRows (recvMs : Int) : ℕ → List (Cut FeedNote) → List (ℕ × Row)
  | _, [] => []
  | start, cut :: cuts =>
    (cut.note.rows recvMs).map (fun row => (start + cut.size, row)) ++
      endRows recvMs (start + cut.size) cuts

/-- The rows a call pushes, each with the end of its frame in `st.buf ++ data`. -/
def rowEnds (group : DeviceGroup) (st : DeviceStream) (data : Bytes) (recvMs : Int) :
    List (ℕ × Row) :=
  endRows recvMs 0 ((customSlicer group).cuts (st.buf ++ data))

theorem endRows_rows (recvMs : Int) (start : ℕ) (cuts : List (Cut FeedNote)) :
    (endRows recvMs start cuts).map Prod.snd = rowsOf recvMs cuts := by
  induction cuts generalizing start with
  | nil => rfl
  | cons cut cuts ih =>
    rw [endRows, List.map_append, List.map_map, ih, rowsOf, rowsOf, List.flatMap_cons]
    congr 1
    exact List.map_id _

theorem FeedNote.ts_of_mem_rows {note : FeedNote} {recvMs : Int} {row : Row}
    (member : row ∈ note.rows recvMs) : row.ts = recvMs := by
  cases note with
  | skip why => cases member
  | frame dev trailMiss rows ok =>
    obtain ⟨cells, _, rfl⟩ := List.mem_map.mp member
    rfl

/-- A row comes from one of the cuts, and its frame ends no earlier than that cut could. -/
theorem of_mem_endRows {recvMs : Int} {start : ℕ} {cuts : List (Cut FeedNote)} {entry : ℕ × Row}
    (member : entry ∈ endRows recvMs start cuts) :
    entry.2.ts = recvMs ∧ entry.1 ≤ start + (cuts.map Cut.size).sum ∧
      ∃ cut ∈ cuts, entry.2 ∈ cut.note.rows recvMs ∧ start + cut.size ≤ entry.1 := by
  induction cuts generalizing start with
  | nil => cases member
  | cons cut cuts ih =>
    rw [List.map_cons, List.sum_cons]
    rcases List.mem_append.mp member with here | later
    · obtain ⟨row, pushed, rfl⟩ := List.mem_map.mp here
      refine ⟨FeedNote.ts_of_mem_rows pushed, ?_, cut, List.mem_cons_self, pushed, Nat.le_refl _⟩
      simp only
      omega
    · obtain ⟨time, bound, other, inside, pushed, size⟩ := ih later
      exact ⟨time, by omega, other, List.mem_cons_of_mem _ inside, pushed, by omega⟩

/-- Only frames push rows, and a frame is longer than its header. -/
theorem size_of_rows {group : DeviceGroup} {input : Bytes} {recvMs : Int} {cut : Cut FeedNote}
    {row : Row} (member : cut ∈ (customSlicer group).cuts input)
    (pushed : row ∈ cut.note.rows recvMs) : kHeaderSize < cut.size := by
  induction input using (customSlicer group).cut_induction with
  | undecided input undecided =>
    rw [(customSlicer group).cuts_of_none undecided] at member
    cases member
  | decided input other decided ih =>
    rw [(customSlicer group).cuts_of_some decided] at member
    rcases List.mem_cons.mp member with rfl | member
    · obtain ⟨_, ⟨why, _, rfl⟩ | ⟨shape, checked, _, rfl⟩⟩ := feedStep_cases decided
      · cases pushed
      · have positive := (accepted_of_checkHeader checked).payload_pos
        simp only [FrameShape.frameBytes]
        omega
    · exact ih member

/-- **The frames a call completes end in the bytes it received.** -/
theorem end_gt_pending {group : DeviceGroup} {st : DeviceStream}
    (waiting : feedStep group st.buf = none) {data : Bytes} {recvMs : Int} {entry : ℕ × Row}
    (member : entry ∈ rowEnds group st data recvMs) : st.buf.length < entry.1 := by
  unfold rowEnds at member
  rcases feedStep_eq_none waiting with short | ⟨long, shape, checked, incomplete⟩
  · -- less than a header was pending: no frame fits in it
    obtain ⟨_, _, cut, inside, pushed, size⟩ := of_mem_endRows member
    have longer := size_of_rows inside pushed
    omega
  · -- an accepted frame was incomplete: it is the first one cut
    cases decision : feedStep group (st.buf ++ data) with
    | none =>
      rw [(customSlicer group).cuts_of_none decision] at member
      cases member
    | some cut =>
      have first : cut.size = shape.frameBytes := by
        have same := checkHeader_append group long data
        rw [checked] at same
        obtain ⟨_, ⟨why, checked', _⟩ | ⟨shape', checked', _, rfl⟩⟩ := feedStep_cases decision
        · rw [same] at checked'
          cases checked'
        · rw [same] at checked'
          cases checked'
          rfl
      rw [(customSlicer group).cuts_of_some decision, endRows, Nat.zero_add, first] at member
      rcases List.mem_append.mp member with here | later
      · obtain ⟨row, _, rfl⟩ := List.mem_map.mp here
        exact incomplete
      · obtain ⟨_, _, _, _, _, size⟩ := of_mem_endRows later
        omega

/-! ### Chunking invariance -/

/-- The streams that calls of `feed` produce from the empty one. -/
inductive FeedReachable (group : DeviceGroup) : DeviceStream → Prop where
  | empty : FeedReachable group {}
  | feed {st : DeviceStream} (data : Bytes) (recvMs : Int) :
      FeedReachable group st → FeedReachable group (feed group st data recvMs).1

/-- A reachable stream is waiting: whatever could be cut has been cut. -/
theorem FeedReachable.waiting {group : DeviceGroup} {st : DeviceStream}
    (reachable : FeedReachable group st) : feedStep group st.buf = none := by
  cases reachable with
  | empty => rfl
  | feed data recvMs _ =>
    rw [feed_eq]
    exact DeviceStream.waiting_sliced (customSlicer group) _ data recvMs

/-- **Chunking invariance of `feed`, on arbitrary bytes.** One call or two give the same stream and
the same rows; the timestamp of a row is the `recvMs` of the call that delivered the last byte of
its frame. -/
theorem feed_chunking (group : DeviceGroup) {st : DeviceStream} (reachable : FeedReachable group st)
    (a b : Bytes) (whole first second : Int) :
    (feed group st (a ++ b) whole).1 = (feed group (feed group st a first).1 b second).1 ∧
      (feed group st (a ++ b) whole).2.map Row.untimed =
        ((feed group st a first).2 ++ (feed group (feed group st a first).1 b second).2).map
          Row.untimed ∧
      ∀ (data : Bytes) (recvMs : Int),
        (rowEnds group st data recvMs).map Prod.snd = (feed group st data recvMs).2 ∧
          ∀ entry ∈ rowEnds group st data recvMs, entry.2.ts = recvMs ∧
            st.buf.length < entry.1 ∧ entry.1 ≤ st.buf.length + data.length := by
  have split := st.sliced_append (customSlicer group) a b whole first second
  rw [← feed_eq] at split
  refine ⟨split.1, split.2, fun data recvMs => ⟨?_, fun entry member => ?_⟩⟩
  · rw [rowEnds, endRows_rows, feed_eq, DeviceStream.sliced]
  · obtain ⟨time, bound, _⟩ := of_mem_endRows member
    refine ⟨time, end_gt_pending reachable.waiting member, ?_⟩
    have total := (customSlicer group).sum_size_add_rest (st.buf ++ data)
    rw [List.length_append] at total
    omega

/-- The status device of the test fixtures, its records cut down to their one `INT16`. -/
def statusDevice : DevicePtr :=
  { addr := 0
    desc :=
      { spec := { frameType := 0xC, frameLen := 2, payloadMin := 2, fields := [{ size := 2 }] }
        immediateFlush := true } }

/-- A record of two `INT16`. -/
def int16Pair : List FieldDesc := [{ size := 2 }, { size := 2, byteOffset := 2 }]

theorem payloadMinOf_int16Pair : 4 = payloadMinOf int16Pair := by decide

/-- The event device of the same endpoint, its records cut down to their two `INT16`, with a
leading and a trailing delimiter. -/
def eventDevice : DevicePtr :=
  { addr := 1
    desc :=
      { spec :=
          { frameType := 0xE, frameLen := 4, startFlag := 1, endFlag := 3, payloadMin := 4
            fields := int16Pair, payloadMin_eq := payloadMinOf_int16Pair }
        isEvent := true } }

def fixtureGroup : DeviceGroup := ⟨[statusDevice, eventDevice]⟩

/-- A status frame cut inside its header, behind an unknown byte. -/
theorem feed_chunking_fixture :
    (feed fixtureGroup (feed fixtureGroup {} [0xAA, 0xC] 0).1 ([0, 2, 0, 0] ++ [0, 7, 0]) 5).1 =
      (feed fixtureGroup (feed fixtureGroup (feed fixtureGroup {} [0xAA, 0xC] 0).1
        [0, 2, 0, 0] 1).1 [0, 7, 0] 2).1 :=
  (feed_chunking fixtureGroup (.feed [0xAA, 0xC] 0 .empty) [0, 2, 0, 0] [0, 7, 0] 5 1 2).1

end EtherAdapter
