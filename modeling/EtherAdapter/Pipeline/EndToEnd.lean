/-
**From the wire to the columns.**

The codec, the ingest server, the parser thread, the shutdown and the columnar writer, put together.

* `Submission.readRows` — the rows of a submission, read back from its columns.
* `WriterReachable.readRows` — the rows read back from a batch's submissions are the rows of the batch.
* `Adapter.undisturbed` — the steps of a run in which no chunk met the leftover of another
  connection, the parser left an empty queue, and no batch was too long to count its rows.
* **`wire_to_columns`** — after it, what the SDK was given for a device, read back from the columns, is
  what the parser pushed for it. Every row of these comes from one of the connections; the records of
  a connection come in their order, each of them once, and the connections are interleaved.
-/

import EtherAdapter.Codec.RoundTrip
import EtherAdapter.Writer.Staging
import EtherAdapter.Pipeline.Isolation
import EtherAdapter.Pipeline.Gate

namespace EtherAdapter

open Memory Runs Slicing

/-! ### Rows out of columns -/

/-- A row as the writer stages it. -/
def Device.stageRow (dev : Device) (row : Int × List Cell) : List Bytes :=
  leBytes 8 (BitVec.ofInt 64 row.1) :: List.zipWith stagedBytes dev.columns row.2

/-- The rows of a submission, read back from its columns. -/
def Submission.readRows (s : Submission) (dev : Device) : List (List Bytes) :=
  (List.range' s.done s.rows).map fun r =>
    (List.range (dev.columns.length + 1)).map fun k => (s.entry k r).getD []

/-- One row of a batch. -/
theorem getElem?_unflatten (columns : ℕ) (ts : List Int) (cells : List Cell) (r : ℕ) :
    (unflatten columns ts cells)[r]? =
      (ts[r]?).map fun t => (t, (cells.drop (r * columns)).take columns) := by
  induction ts generalizing cells r with
  | nil => rfl
  | cons t ts ih =>
    cases r with
    | zero => simp [unflatten]
    | succ r =>
      rw [unflatten, List.getElem?_cons_succ, List.getElem?_cons_succ, ih, List.drop_drop,
        Nat.succ_mul, Nat.add_comm columns]

theorem length_unflatten (columns : ℕ) (ts : List Int) (cells : List Cell) :
    (unflatten columns ts cells).length = ts.length := by
  induction ts generalizing cells with
  | nil => rfl
  | cons t ts ih => rw [unflatten, List.length_cons, ih, List.length_cons]

/-- **A submission's columns hold its rows.** -/
theorem Submission.Transposes.readRow {s : Submission} {dev : Device} {batch : RowBatch}
    (holds : s.Transposes dev batch) (columns : batch.columns = dev.columns.length) {r : ℕ}
    (row : r < s.rows) :
    ∃ entry, batch.rows[s.done + r]? = some entry ∧
      (List.range (dev.columns.length + 1)).map (fun k => (s.entry k (s.done + r)).getD []) =
        dev.stageRow entry := by
  obtain ⟨t, stamp, first⟩ := holds.stamp r row
  have here : batch.rows[s.done + r]? = some (t, (batch.cells.drop
      ((s.done + r) * dev.columns.length)).take dev.columns.length) := by
    rw [RowBatch.rows, columns, getElem?_unflatten, stamp, Option.map_some]
  refine ⟨_, here, ?_⟩
  rw [List.range_succ_eq_map, List.map_cons, first, List.map_map, Device.stageRow,
    Option.getD_some]
  congr 1
  refine List.ext_getElem? fun k => ?_
  rw [List.getElem?_map, List.getElem?_zipWith]
  by_cases inside : k < dev.columns.length
  · have column := List.getElem?_eq_getElem inside
    obtain ⟨c, cell, entry, _⟩ := holds.cell r row k _ column
    rw [List.getElem?_range inside, column, Option.map_some, List.getElem?_take, if_pos inside,
      List.getElem?_drop, cell]
    simp only [Function.comp_apply, Nat.succ_eq_add_one, entry, Option.getD_some]
  · have outside := Nat.le_of_not_lt inside
    rw [List.getElem?_eq_none (by rw [List.length_range]; exact outside),
      List.getElem?_eq_none outside]
    rfl

/-- The rows read back from submissions that cut a batch. -/
theorem flatMap_readRows {submissions : List Submission} {dev : Device} {batch : RowBatch}
    {capacity : ℕ} (columns : batch.columns = dev.columns.length)
    (cuts : CutsRows capacity batch.ts.length (submissions.map fun s => (s.done, s.rows)))
    (holds : ∀ s ∈ submissions, s.Transposes dev batch) :
    submissions.flatMap (fun s => s.readRows dev) = batch.rows.map dev.stageRow := by
  let staged : ℕ → List Bytes := fun r => ((batch.rows[r]?).map dev.stageRow).getD []
  have each : ∀ s ∈ submissions, s.readRows dev = (List.range' s.done s.rows).map staged := by
    intro s member
    refine List.map_congr_left fun r inside => ?_
    obtain ⟨j, small, place⟩ := List.mem_range'.mp inside
    rw [Nat.one_mul] at place
    obtain ⟨entry, found, read⟩ := (holds s member).readRow columns small
    rw [place, read]
    show dev.stageRow entry = ((batch.rows[s.done + j]?).map dev.stageRow).getD []
    rw [found]
    rfl
  have count : batch.rows.length = batch.ts.length := length_unflatten _ _ _
  calc submissions.flatMap (fun s => s.readRows dev)
      = submissions.flatMap (fun s => (List.range' s.done s.rows).map staged) :=
        List.flatMap_congr each
    _ = ((submissions.map fun s => (s.done, s.rows)).flatMap
          fun range => List.range' range.1 range.2).map staged := by
        rw [List.map_flatMap, List.flatMap_map]
    _ = (List.range batch.ts.length).map staged := by rw [cuts.rows]
    _ = batch.rows.map dev.stageRow := by
        refine List.ext_getElem? fun r => ?_
        rw [List.getElem?_map, List.getElem?_map]
        by_cases inside : r < batch.ts.length
        · rw [List.getElem?_range inside, List.getElem?_eq_getElem (by rw [count]; exact inside)]
          show some (((batch.rows[r]?).map dev.stageRow).getD []) = _
          rw [List.getElem?_eq_getElem (by rw [count]; exact inside)]
          rfl
        · have outside := Nat.le_of_not_lt inside
          rw [List.getElem?_eq_none (by rw [List.length_range]; exact outside),
            List.getElem?_eq_none (by rw [count]; exact outside)]
          rfl

/-! ### A sequence of batches -/

/-- The batches that the writer thread hands to `writeBatch`, one after the other, each with what it
submits. The SDK may answer every batch in its own way. -/
def EtherDBWriter.writeAll (db : Config) (answers : ℕ → Submission → SdkAnswer) :
    EtherDBWriter → ℕ → List (Producer × RowBatch) → List ((Producer × RowBatch) × List Submission)
  | _, _, [] => []
  | writer, n, item :: items =>
    (item, (writer.writeBatch db (answers n) item.2).1) ::
      writeAll db answers (writer.writeBatch db (answers n) item.2).2 (n + 1) items

/-- What the SDK was given for a device by the parser's batches, read back from the columns. -/
def submittedRows (db : Config) (i : ℕ)
    (written : List ((Producer × RowBatch) × List Submission)) : List (List Bytes) :=
  (written.filter fun entry => entry.1.1 = .parser ∧ entry.1.2.dev = some (db.devicePtr i)).flatMap
    fun entry => entry.2.flatMap fun s => s.readRows (deviceAt db.devices i)

theorem fieldCount_devicePtr (db : Config) (i : ℕ) :
    (db.devicePtr i).desc.fieldCount = (deviceAt db.devices i).columns.length := by
  rw [Config.devicePtr, DeviceDesc.fieldCount, ← (deviceAt db.devices i).columns_eq, List.length_map]

/-- One batch of a device, read back from its submissions. -/
theorem WriterReachable.readRows {batchRows : Int} {db : Config} {writer : EtherDBWriter}
    (reachable : WriterReachable batchRows db writer) (answer : Submission → SdkAnswer)
    {batch : RowBatch} {i : ℕ} (own : batch.Of (db.devicePtr i)) (small : batch.ts.length < 2 ^ 31)
    (present : i < db.devices.length) (columnar : (deviceAt db.devices i).Columnar) :
    (writer.writeBatch db answer batch).1.flatMap (fun s => s.readRows (deviceAt db.devices i)) =
      batch.rows.map (deviceAt db.devices i).stageRow := by
  have columns : batch.columns = (deviceAt db.devices i).columns.length := by
    rw [own.columns, fieldCount_devicePtr]
  have whole : batch.cells.length = batch.ts.length * (deviceAt db.devices i).columns.length := by
    rw [own.cells, fieldCount_devicePtr]
  obtain ⟨sink, _, laid, ranges⟩ :=
    writeBatch_ranges reachable answer own.owner present columnar
  have cuts := cutsRows_rowRanges laid.capacity_pos batch.counted
  rw [← ranges, RowBatch.counted_eq_iff.mpr small] at cuts
  exact flatMap_readRows columns cuts
    (writeBatch_rows reachable answer own.owner present columnar whole)

/-- **The batches of a device, read back from the columns**, whatever else is written between
them. -/
theorem WriterReachable.submittedRows {capacity : Int} {db : Config} {writer : EtherDBWriter}
    (reachable : WriterReachable capacity db writer) (answers : ℕ → Submission → SdkAnswer) (n : ℕ)
    {items : List (Producer × RowBatch)} {i : ℕ} (present : i < db.devices.length)
    (columnar : (deviceAt db.devices i).Columnar)
    (own : ∀ item ∈ items, item.1 = .parser → (∃ dev, item.2.Of dev) ∧ item.2.ts.length < 2 ^ 31) :
    EtherAdapter.submittedRows db i (writer.writeAll db answers n items) =
      (batchRows (db.devicePtr i) ((items.filter fun item => item.1 = .parser).map Prod.snd)).map
        (deviceAt db.devices i).stageRow := by
  induction items generalizing writer n with
  | nil => rfl
  | cons item items ih =>
    have rest := ih (reachable.batch (answers n) item.2) (n + 1)
      fun other member => own other (List.mem_cons_of_mem _ member)
    rw [EtherDBWriter.writeAll]
    by_cases counts : item.1 = .parser ∧ item.2.dev = some (db.devicePtr i)
    · obtain ⟨⟨dev, of⟩, small⟩ := own item List.mem_cons_self counts.1
      have same : dev = db.devicePtr i := Option.some.inj (of.owner.symm.trans counts.2)
      rw [same] at of
      have now := reachable.readRows (answers n) of small present columnar
      unfold EtherAdapter.submittedRows batchRows at rest ⊢
      rw [List.filter_cons_of_pos (by simpa using counts), List.filter_cons_of_pos
        (by simpa using counts.1), List.flatMap_cons, List.map_cons, List.filter_cons_of_pos
        (by simpa using counts.2), List.flatMap_cons, List.map_append, rest, now]
    · unfold EtherAdapter.submittedRows batchRows at rest ⊢
      rw [List.filter_cons_of_neg (by simpa using counts), rest]
      by_cases parser : item.1 = .parser
      · have other : ¬ item.2.dev = some (db.devicePtr i) := fun dev => counts ⟨parser, dev⟩
        rw [List.filter_cons_of_pos (by simpa using parser), List.map_cons,
          List.filter_cons_of_neg (by simpa using other)]
      · rw [List.filter_cons_of_neg (by simpa using parser)]

/-! ### Frames -/

/-- What the server passes on of a peer it knows are all the bytes. -/
theorem chunkBytes_passedOn {db : ConfigDB} {peer : Peer} (passes : db.passes peer = true)
    (received : List (Bytes × Int)) :
    chunkBytes (passedOn db peer received) = (received.map Prod.fst).flatten := by
  rw [passedOn, if_pos passes, chunkBytes, List.map_map]
  induction received with
  | nil => rfl
  | cons message received ih =>
    by_cases empty : message.1 = []
    · rw [List.filter_cons_of_neg (by simpa using empty), ih, List.map_cons, empty, List.flatten_cons,
        List.nil_append]
    · rw [List.filter_cons_of_pos (by simpa using empty), List.map_cons, List.flatten_cons, ih,
        List.map_cons, List.flatten_cons]
      rfl

/-! ### The whole way -/

namespace Adapter

/-- The writer takes no batch of the parser that has `2 ^ 31` rows. -/
def takesCounted (a : Adapter) (event : AdapterEvent) : Prop :=
  event = .writer (.take .parser) → ∀ batch ∈ a.queued .parser, batch.ts.length < 2 ^ 31

instance (a : Adapter) (event : AdapterEvent) : Decidable (a.takesCounted event) :=
  inferInstanceAs (Decidable (_ → ∀ batch ∈ a.queued .parser, _))

/-- No chunk is taken on top of another connection's leftover, the parser leaves an empty queue, and
no batch is too long to count its rows. -/
def undisturbed (a : Adapter) (event : AdapterEvent) : Prop :=
  a.takesOwn event ∧ a.leavesEmpty event ∧ a.takesCounted event

instance (a : Adapter) (event : AdapterEvent) : Decidable (a.undisturbed event) :=
  inferInstanceAs (Decidable (_ ∧ _))

/-- The writer has been handed counted batches. -/
def WroteCounted (a : Adapter) : Prop :=
  ∀ item ∈ a.writer.written, item.1 = .parser → item.2.ts.length < 2 ^ 31

theorem WroteCounted.next {db : ConfigDB} {a a' : Adapter} {event : AdapterEvent}
    (counted : a.WroteCounted) (meets : a.takesCounted event)
    (moved : a.next db event = some a') : a'.WroteCounted := by
  cases event with
  | writer step =>
    cases step with
    | take producer =>
      obtain ⟨_, moved⟩ := Option.ite_none_right_eq_some.mp moved
      obtain ⟨batch, head, rfl⟩ := Option.map_eq_some_iff.mp moved
      intro item member parser
      rcases List.mem_append.mp member with before | new
      · exact counted item before parser
      · split at new
        · rcases List.mem_singleton.mp new with rfl
          change producer = .parser at parser
          rw [parser] at head meets
          exact meets rfl batch head
        · cases new
    | goOn | leave | idle | empty =>
      obtain ⟨_, moved⟩ := Option.ite_none_right_eq_some.mp moved
      cases moved
      exact counted
  | main =>
    obtain ⟨_, _, _, rfl, _⟩ := mainStep_cases moved
    exact counted
  | parser step =>
    obtain ⟨_, _, ⟨_, _, _, rfl⟩ | ⟨_, _, _, rfl⟩ | ⟨_, _, rfl⟩⟩ := parserStep_cases moved
    all_goals exact counted
  | message conn data timeUs =>
    obtain ⟨_, moved⟩ := Option.ite_none_right_eq_some.mp moved
    obtain ⟨_, _, rfl⟩ := Option.map_eq_some_iff.mp moved
    exact counted
  | connect peer | disconnect conn | post batch =>
    obtain ⟨_, moved⟩ := Option.ite_none_right_eq_some.mp moved
    cases moved
    exact counted

/-- The rows the parser found, each with the connection its chunk came from. -/
def taggedRows (a : Adapter) : List (ℕ × Row) :=
  (a.parsed.zip a.foundRows).flatMap fun entry => entry.2.map fun row => (entry.1.conn, row)

theorem map_taggedRows {a : Adapter} (aligned : a.parsed.length = a.foundRows.length) :
    a.taggedRows.map Prod.snd = a.parser.decoded := by
  have untag : ∀ entry : Ingested × List Row,
      (entry.2.map fun row => (entry.1.conn, row)).map Prod.snd = entry.2 := by
    intro entry
    rw [List.map_map]
    exact List.map_id _
  rw [taggedRows, List.map_flatMap]
  simp only [untag]
  rw [List.flatMap_def, List.map_snd_zip (Nat.le_of_eq aligned.symm), ParserRun.decoded,
    List.flatMap_def]
  rfl

theorem filter_taggedRows (a : Adapter) (conn : ℕ) :
    (a.taggedRows.filter fun row => row.1 = conn).map Prod.snd =
      connRows conn a.parsed a.foundRows := by
  rw [taggedRows, connRows]
  induction a.parsed.zip a.foundRows with
  | nil => rfl
  | cons entry entries ih =>
    rw [List.flatMap_cons, List.filter_append, List.map_append, ih]
    by_cases own : entry.1.conn = conn
    · rw [List.filter_cons_of_pos (by simpa using own), List.flatMap_cons,
        List.filter_eq_self.mpr (by simp [own]), List.map_map]
      congr 1
      exact List.map_id _
    · rw [List.filter_cons_of_neg (by simpa using own), List.filter_eq_nil_iff.mpr (by simp [own])]
      rfl

/-- Each row comes from a connection that was opened. -/
theorem taggedRows_opened {db : ConfigDB} (a : Adapter) (attributed : Attributed db a) :
    ∀ row ∈ a.taggedRows, row.1 < a.opened.length := by
  intro row member
  obtain ⟨entry, inside, member⟩ := List.mem_flatMap.mp member
  obtain ⟨found, _, rfl⟩ := List.mem_map.mp member
  have parsed : entry.1 ∈ a.ingested := List.mem_of_mem_take (List.of_mem_zip inside).1
  obtain ⟨_, _, opened, _⟩ := attributed.known _ parsed
  exact (List.getElem?_eq_some_iff.mp opened).1

end Adapter

/-- **From the wire to the columns.** The rows that the parser pushed come from the opened connections,
each from one: those of a device are what the SDK was given for it, read back from the columns, and
those of a connection of a custom_data group are the records of the frames sent on it, in order. -/
theorem wire_to_columns {db : Config} {batchRows : Int} {a : Adapter}
    (reach : Reach (Adapter.next db.toDB) Adapter.undisturbed (Adapter.start batchRows) a)
    (stopped : a.phase = .writerStopped) (answers : ℕ → Submission → SdkAnswer) :
    a.taggedRows.map Prod.snd = a.parser.pushed ∧
      (∀ row ∈ a.taggedRows, row.1 < a.opened.length) ∧
      (∀ i, i < db.devices.length → (deviceAt db.devices i).Columnar →
        submittedRows db i
            ((EtherDBWriter.start batchRows db).writeAll db answers 0 a.writer.written) =
          (deviceRows (db.devicePtr i) a.parser.pushed).map (deviceAt db.devices i).stageRow) ∧
      ∀ conn peer group, a.opened[conn]? = some peer → db.toDB.matchGroup peer = some group →
        group.ingestable = true →
        (∀ primary ∈ group.group.primary, primary.desc.connProto = connCustomData) →
        ∀ items : List NoisyFrame, (∀ item ∈ items, item.WellFormed group.group) →
          ((a.receivedOn conn).map Prod.fst).flatten = items.flatMap NoisyFrame.bytes →
          ((a.taggedRows.filter fun row => row.1 = conn).map fun row =>
              (row.2.dev, some row.2.cells)) =
            items.flatMap fun item => item.frame.decoded group.group := by
  have orderly := Orderly.of_reach (reach.mono fun _ _ meets => meets.2.1)
  have apart := Apart.of_reach (reach.mono fun _ _ meets => meets.1)
  have counted : a.WroteCounted := reach.invariant (fun _ member => absurd member List.not_mem_nil)
    fun _ _ _ before meets moved => before.next meets.2.2 moved
  have ended : a.parser.pc = .exited := orderly.stopping.parserEnded (by rw [stopped]; decide)
  have all : a.parsed = a.ingested := by
    rw [Adapter.parsed, orderly.empty (by rw [ended]; rfl), List.take_length]
  have pushed : a.parser.pushed = a.parser.decoded := by
    have order : a.parser.pushed ++ a.parser.inFlight = a.parser.decoded := apart.flow.pushed
    rwa [ParserRun.inFlight, ended, List.append_nil] at order
  refine ⟨?_, a.taggedRows_opened apart.attributed, fun i present columnar => ?_, ?_⟩
  · rw [Adapter.map_taggedRows apart.separate.aligned, pushed]
  · have own : ∀ item ∈ a.writer.written, item.1 = .parser →
        (∃ dev, item.2.Of dev) ∧ item.2.ts.length < 2 ^ 31 := by
      intro item member parser
      have handed : item.2 ∈ a.handedBatches :=
        List.mem_map.mpr ⟨item, List.mem_filter.mpr ⟨member, by simpa using parser⟩, rfl⟩
      rw [orderly.stopping.handed] at handed
      exact ⟨(orderly.flow.books.sent item.2 (List.mem_of_mem_take handed)).2,
        counted item member parser⟩
    rw [WriterReachable.start.submittedRows answers 0 present columnar own, pushed]
    exact congrArg _ (orderly.stopping.written orderly.flow stopped _)
  · intro conn peer group opened matched passes custom items wellFormed sent
    have passed : db.toDB.passes peer = true := by
      rw [ConfigDB.passes, matched]
      exact passes
    have codec : ParserWorker.codec group.group = feed group.group := by
      unfold ParserWorker.codec
      cases first : group.group.primary with
      | none => rfl
      | some primary =>
        have proto := custom primary first
        simp only [proto]
        rfl
    have found := apart.separate.rows (apart.names opened matched)
    rw [alone, all, apart.attributed.passed opened, codec] at found
    have decoded := feedAll_frames group.group wellFormed
      ((chunkBytes_passedOn passed _).trans sent)
    have untagged : ((a.taggedRows.filter fun row => row.1 = conn).map fun row =>
        (row.2.dev, some row.2.cells)) = (connRows conn a.ingested a.foundRows).map fun row =>
          (row.dev, some row.cells) := by
      rw [← all, ← Adapter.filter_taggedRows, List.map_map]
      rfl
    rw [untagged, found]
    exact decoded

/-- A status device and an event device at one endpoint. -/
def wiredConfig : Config := burstConfig [statusField, burstField]

/-- A frame of either, the first one behind a byte of noise. -/
def wiredItems : List NoisyFrame :=
  [⟨[0xAA], { frameType := 1, flag := 0, payload := [7, 0] }⟩,
    ⟨[], { frameType := 2, flag := 0, payload := [9, 0] }⟩]

theorem wiredItems_wellFormed :
    ∀ item ∈ wiredItems, item.WellFormed (wiredConfig.groupPtr 0).group := by
  intro item member
  rcases List.mem_cons.mp member with rfl | member
  · refine ⟨List.forall_mem_singleton.mpr (by decide), wiredConfig.devicePtr 0, by decide,
      ⟨by decide, by decide⟩, by decide, by decide, by decide, by decide, by decide, by decide,
      by decide⟩
  · rcases List.mem_singleton.mp member with rfl
    refine ⟨List.forall_mem_nil _, wiredConfig.devicePtr 1, by decide, ⟨by decide, by decide⟩,
      by decide, by decide, by decide, by decide, by decide, by decide, by decide⟩

def wiredBytes : Bytes := wiredItems.flatMap NoisyFrame.bytes

def wiredChunk (data : Bytes) : RawChunk := ⟨some (wiredConfig.groupPtr 0), 7, data⟩

/-- The bytes come in two chunks, cut inside the first header; then the adapter is stopped. -/
def wiredEvents : List AdapterEvent :=
  [[.connect burstPeer, .message 0 (wiredBytes.take 5) 7000, .message 0 (wiredBytes.drop 5) 7000,
      .parser .goOn, .parser (.take (wiredChunk (wiredBytes.take 5))), .parser .work, .parser .work,
      .parser .goOn, .parser (.take (wiredChunk (wiredBytes.drop 5)))],
    List.replicate 6 (.parser .work), List.replicate 5 .main,
    [.parser (.leave [wiredConfig.devicePtr 1, wiredConfig.devicePtr 0])],
    List.replicate 3 (.parser .work), List.replicate 3 .main, [.writer .leave],
    List.replicate 2 (.writer (.take .parser)), [.writer .empty, .main]].flatten

theorem wire_to_columns_sample :
    ∃ a : Adapter,
      play (Adapter.next wiredConfig.toDB) Adapter.undisturbed (Adapter.start 10) wiredEvents =
        some a ∧
      submittedRows wiredConfig 0 ((EtherDBWriter.start 10 wiredConfig).writeAll wiredConfig
          (fun _ _ => .executed 1 0) 0 a.writer.written) =
        (deviceRows (wiredConfig.devicePtr 0) a.parser.pushed).map
          (deviceAt wiredConfig.devices 0).stageRow ∧
      ((a.taggedRows.filter fun row => row.1 = 0).map fun row => (row.2.dev, some row.2.cells)) =
        wiredItems.flatMap fun item => item.frame.decoded (wiredConfig.groupPtr 0).group := by
  have shape : (play (Adapter.next wiredConfig.toDB) Adapter.undisturbed (Adapter.start 10)
      wiredEvents).map (fun a => (a.phase, a.opened, ((a.receivedOn 0).map Prod.fst).flatten)) =
        some (.writerStopped, [burstPeer], wiredBytes) := by decide +kernel
  obtain ⟨a, done, shape⟩ := Option.map_eq_some_iff.mp shape
  rw [Prod.mk.injEq, Prod.mk.injEq] at shape
  obtain ⟨stopped, opened, received⟩ := shape
  obtain ⟨_, _, columns, wire⟩ := wire_to_columns (Reach.of_play .start done) stopped
    fun _ _ => .executed 1 0
  have columnar : (deviceAt wiredConfig.devices 0).Columnar := ⟨by decide, by decide⟩
  have matched : wiredConfig.toDB.matchGroup burstPeer = some (wiredConfig.groupPtr 0) := by
    rw [Config.matchGroup_toDB, show wiredConfig.matchGroup burstPeer = some 0 by decide]
    rfl
  have custom : ∀ primary ∈ (wiredConfig.groupPtr 0).group.primary,
      primary.desc.connProto = connCustomData := by
    rw [show (wiredConfig.groupPtr 0).group.primary = some (wiredConfig.devicePtr 0) by decide]
    rintro primary ⟨⟩
    decide
  refine ⟨a, done, columns 0 (by decide) columnar, ?_⟩
  exact wire 0 burstPeer (wiredConfig.groupPtr 0) (by rw [opened]; rfl) matched (by decide) custom
    wiredItems wiredItems_wellFormed received

end EtherAdapter
