/-
**A batch in the staging buffer: the rows, transposed.**

* `Sink.LaidOut.ordered` — the regions of the columns lie one behind the other, inside the buffer.
* `writeLoop_ranges` — the submissions take `capacity` rows each, the last one what is left,
  whatever the SDK answers.
* `readAt_stamps` — an entry of column 0 is the timestamp of its row.
* `EtherDBWriter.Transposed` — the regions, the row ranges, and at every submission every entry and
  every bind.
* **`writeBatch_transposes`** — so it is after any batches before, exactly if the batch has less than
  `2 ^ 31` rows; of `2 ^ 31` rows none is submitted (`not_transposed_zeroRows`).
-/

import EtherAdapter.Writer.Integers

namespace EtherAdapter

open Memory

/-! ### Regions -/

section LaidOut

variable {sink : Sink} {dev : Device}

/-- **Regions do not overlap, and end inside the buffer.** -/
structure Sink.Ordered (sink : Sink) (dev : Device) : Prop where
  count : sink.colBase.length = dev.columns.length + 1
  apart : ∀ (k l size : ℕ), (columnSizes dev)[k]? = some size → k < l →
    l < dev.columns.length + 1 →
      sink.colBase.getD k 0 + size * sink.capacity ≤ sink.colBase.getD l 0
  inside : ∀ k size, (columnSizes dev)[k]? = some size →
    sink.colBase.getD k 0 + size * sink.capacity ≤ sink.data.length

theorem length_columnSizes (dev : Device) : (columnSizes dev).length = dev.columns.length + 1 := by
  rw [columnSizes, List.length_cons, List.length_map]

theorem length_layout (capacity off : ℕ) (sizes : List ℕ) :
    (layout capacity off sizes).1.length = sizes.length := by
  induction sizes generalizing off with
  | nil => rfl
  | cons size sizes ih => rw [layout, List.length_cons, ih, List.length_cons]

theorem Sink.LaidOut.ordered (laid : sink.LaidOut dev) : sink.Ordered dev where
  count := by rw [laid.colBase, length_layout, length_columnSizes]
  apart := by
    intro k l size found before within
    have here := (List.getElem?_eq_some_iff.mp found).1
    rw [laid.base here, laid.base (by rwa [length_columnSizes]), ← Nat.add_mul]
    exact Nat.mul_le_mul_right _ (sum_take_add_le _ found before)
  inside := by
    intro k size found
    have here := (List.getElem?_eq_some_iff.mp found).1
    have whole := sum_take_add_le _ found here
    rw [List.take_length] at whole
    rw [laid.base here, laid.data, ← Nat.add_mul]
    exact Nat.mul_le_mul_right _ whole

/-- **An entry of column 0 is the timestamp of its row.** -/
theorem readAt_stamps (laid : sink.LaidOut dev) (batch : RowBatch) {done n : ℕ}
    (most : n ≤ sink.capacity) {r : ℕ} (row : r < n) {t : Int}
    (stamp : batch.ts[done + r]? = some t) :
    readAt (stageRows sink dev batch done n) (sink.colBase.getD 0 0 + r * 8) 8 =
      leBytes 8 (BitVec.ofInt 64 t) := by
  have sized := sized_stamps ((batch.ts.drop done).take n)
  have whole := readAt_writeAll (laid.fits batch most) (laid.apart batch most)
    (List.mem_cons_self : (sink.colBase.getD 0 0, _) ∈ stagedRegions sink dev batch done n)
  have within : done + r < batch.ts.length := (List.getElem?_eq_some_iff.mp stamp).1
  have long : r * 8 + 8 ≤
      (((batch.ts.drop done).take n).map fun t => leBytes 8 (BitVec.ofInt 64 t)).length * 8 := by
    rw [List.length_map, List.length_take, List.length_drop]
    omega
  rw [← stageRows_eq laid batch most, List.flatMap_def, length_flatten_of_forall sized] at whole
  rw [← readAt_readAt _ _ _ _ _ long, whole]
  refine readAt_flatten sized ?_
  rw [List.getElem?_map, List.getElem?_take, if_pos row, List.getElem?_drop, stamp, Option.map_some]

end LaidOut

/-! ### Row ranges -/

/-- Row ranges of `capacity` rows each, from `done` on; the last one takes what is left. -/
def rowRanges (capacity total done : ℕ) : List (ℕ × ℕ) :=
  (List.range ((total - done + capacity - 1) / capacity)).map fun j =>
    (done + j * capacity, min (total - (done + j * capacity)) capacity)

theorem rowRanges_of_le {capacity total done : ℕ} (positive : 0 < capacity) (all : total ≤ done) :
    rowRanges capacity total done = [] := by
  have none : (total - done + capacity - 1) / capacity = 0 := Nat.div_eq_of_lt (by omega)
  rw [rowRanges, none]
  rfl

theorem rowRanges_of_lt {capacity total done : ℕ} (positive : 0 < capacity) (more : done < total) :
    rowRanges capacity total done =
      (done, min (total - done) capacity) ::
        rowRanges capacity total (done + min (total - done) capacity) := by
  by_cases full : capacity ≤ total - done
  · have count : (total - done + capacity - 1) / capacity =
        (total - (done + capacity) + capacity - 1) / capacity + 1 := by
      rw [← Nat.add_div_right _ positive]
      congr 1
      omega
    rw [Nat.min_eq_right full, rowRanges, count, List.range_succ_eq_map, List.map_cons, List.map_map,
      Nat.zero_mul, Nat.add_zero, Nat.min_eq_right full]
    congr 1
    refine List.map_congr_left fun j _ => ?_
    simp only [Function.comp, Nat.succ_mul]
    rw [Nat.add_comm (j * capacity), ← Nat.add_assoc]
  · have rest : min (total - done) capacity = total - done := by omega
    have one : (total - done + capacity - 1) / capacity = 1 := by
      refine (Nat.div_eq_iff positive).mpr ?_
      omega
    rw [rest, rowRanges_of_le positive (show total ≤ done + (total - done) by omega), rowRanges, one]
    simp only [List.range_one, List.map_singleton, Nat.zero_mul, Nat.add_zero, rest]

/-- The ranges cover every row once, in order. -/
theorem flatMap_rowRanges {capacity total done : ℕ} (positive : 0 < capacity) :
    (rowRanges capacity total done).flatMap (fun range => List.range' range.1 range.2) =
      List.range' done (total - done) := by
  induction size : total - done using Nat.strongRecOn generalizing done with
  | _ left ih =>
    by_cases more : done < total
    · have split : min (total - done) capacity +
          (total - (done + min (total - done) capacity)) = left := by omega
      rw [rowRanges_of_lt positive more, List.flatMap_cons, ih _ (by omega) rfl, ← split]
      exact List.range'_append_1
    · have none : left = 0 := by omega
      rw [rowRanges_of_le positive (Nat.le_of_not_lt more), none]
      rfl

theorem mem_rowRanges {capacity total : ℕ} (positive : 0 < capacity) {range : ℕ × ℕ}
    (member : range ∈ rowRanges capacity total 0) :
    range.1 + range.2 ≤ total ∧ 0 < range.2 ∧ range.2 ≤ capacity := by
  obtain ⟨j, inside, rfl⟩ := List.mem_map.mp member
  rw [List.mem_range, Nat.lt_iff_add_one_le, Nat.le_div_iff_mul_le positive, Nat.succ_mul] at inside
  simp only [Nat.zero_add]
  omega

/-- **The submissions take their rows in order**, whatever the SDK answers. -/
theorem writeLoop_ranges (answer : Submission → SdkAnswer) (dev : Device) (batch : RowBatch)
    (fuel : ℕ) {done : ℕ} {sink : Sink} (stats : WriterStats) (positive : 0 < sink.capacity)
    (enough : batch.counted ≤ done + fuel) :
    (writeLoop answer dev batch fuel done sink stats).1.map (fun s => (s.done, s.rows)) =
      rowRanges sink.capacity batch.counted done := by
  induction fuel generalizing done sink stats with
  | zero =>
    rw [Nat.add_zero] at enough
    rw [rowRanges_of_le positive enough]
    rfl
  | succ fuel ih =>
    rw [writeLoop_succ]
    by_cases more : done < batch.counted
    · rw [if_pos more, rowRanges_of_lt positive more]
      simp only [List.map_cons]
      rw [ih _ (by exact positive) (by omega)]
    · rw [if_neg more, rowRanges_of_le positive (Nat.le_of_not_lt more)]
      rfl

/-! ### Whole batches -/

/-- **A submission holds its rows, column by column.** -/
structure Submission.Transposes (s : Submission) (dev : Device) (batch : RowBatch) : Prop where
  stamp : ∀ r, r < s.rows → ∃ t, batch.ts[s.done + r]? = some t ∧
    s.entry 0 (s.done + r) = some (leBytes 8 (BitVec.ofInt 64 t))
  cell : ∀ r, r < s.rows → ∀ (k : ℕ) f, dev.columns[k]? = some f →
    ∃ c, batch.cells[(s.done + r) * dev.columns.length + k]? = some c ∧
      s.entry (k + 1) (s.done + r) = some (stagedBytes f c) ∧
      (f.asDouble = false → stagedBytes f c = leBytes f.outSize c.v)
  bind : ∀ (k size : ℕ), (columnSizes dev)[k]? = some size →
    ∃ b : MultiBind, s.binds[k]? = some b ∧ b.stride = size ∧ b.numRows = s.rows
  binds : s.binds.length = dev.columns.length + 1

theorem Submission.Stages.transposes {s : Submission} {dev : Device} {batch : RowBatch} {sink : Sink}
    (staged : s.Stages dev batch sink) (within : s.done + s.rows ≤ batch.ts.length)
    (whole : batch.cells.length = batch.ts.length * dev.columns.length) :
    s.Transposes dev batch where
  stamp := by
    intro r row
    have inside : s.done + r < batch.ts.length := Nat.lt_of_lt_of_le (by omega) within
    refine ⟨_, List.getElem?_eq_getElem inside, ?_⟩
    have bound : s.binds[0]? = some ⟨.timestamp, sink.colBase.getD 0 0, 8, s.rows⟩ := by
      rw [staged.binds]
      rfl
    rw [Submission.entry, bound, Option.map_some, staged.data, Nat.add_sub_cancel_left,
      readAt_stamps staged.laid batch staged.most row (List.getElem?_eq_getElem inside)]
  cell := by
    intro r row k f column
    have place : (s.done + r) * dev.columns.length + k < batch.cells.length := by
      have field : k < dev.columns.length := (List.getElem?_eq_some_iff.mp column).1
      have next : (s.done + r) * dev.columns.length + dev.columns.length ≤
          batch.ts.length * dev.columns.length := by
        rw [← Nat.succ_mul]
        exact Nat.mul_le_mul_right _ (by omega)
      omega
    have entry := staged.entry_eq ⟨Nat.le_add_right s.done r, by omega⟩ column
    rw [List.getD_eq_getElem?_getD, List.getElem?_eq_getElem place, Option.getD_some] at entry
    exact ⟨_, List.getElem?_eq_getElem place, entry, fun integer =>
      stagedBytes_of_not_double integer _⟩
  bind := by
    intro k size found
    rw [staged.binds, sinkBinds]
    cases k with
    | zero =>
      cases found
      exact ⟨_, rfl, rfl, rfl⟩
    | succ k =>
      rw [columnSizes, List.getElem?_cons_succ, List.getElem?_map] at found
      obtain ⟨f, column, rfl⟩ := Option.map_eq_some_iff.mp found
      rw [List.getElem?_cons_succ, List.getElem?_mapIdx, column]
      exact ⟨_, rfl, rfl, rfl⟩
  binds := by rw [staged.binds, sinkBinds, List.length_cons, List.length_mapIdx]

/-- **Row ranges that cut a batch**: as many as it takes, of at most `capacity` rows, every row in
one of them, in order. -/
structure CutsRows (capacity total : ℕ) (ranges : List (ℕ × ℕ)) : Prop where
  count : ranges.length = (total + capacity - 1) / capacity
  most : ∀ range ∈ ranges, 0 < range.2 ∧ range.2 ≤ capacity
  rows : ranges.flatMap (fun range => List.range' range.1 range.2) = List.range total

theorem cutsRows_rowRanges {capacity : ℕ} (positive : 0 < capacity) (total : ℕ) :
    CutsRows capacity total (rowRanges capacity total 0) where
  count := by rw [rowRanges, List.length_map, List.length_range, Nat.sub_zero]
  most := fun range member => (mem_rowRanges positive member).2
  rows := by rw [flatMap_rowRanges positive, Nat.sub_zero, List.range_eq_range']

/-- Ranges cut one number of rows only. -/
theorem CutsRows.unique {capacity total other : ℕ} {ranges : List (ℕ × ℕ)}
    (cuts : CutsRows capacity total ranges) (also : CutsRows capacity other ranges) :
    total = other := by
  have rows := congrArg List.length (cuts.rows.symm.trans also.rows)
  rwa [List.length_range, List.length_range] at rows

/-- **A batch is transposed, exactly and completely**: the regions of the sink are disjoint and
inside its buffer, the submissions take consecutive rows, `capacity` at a time, and each of them
holds its rows column by column. -/
structure EtherDBWriter.Transposed (writer : EtherDBWriter) (db : Config) (ptr : DevicePtr)
    (batch : RowBatch) (submissions : List Submission) : Prop where
  sink : ∃ sink, writer.sinks.lookup ptr.addr = some sink ∧
    sink.Ordered (deviceAt db.devices ptr.addr) ∧
    CutsRows sink.capacity batch.ts.length (submissions.map fun s => (s.done, s.rows))
  rows : ∀ s ∈ submissions, s.Transposes (deviceAt db.devices ptr.addr) batch

section Batch

variable {batchRows : Int} {db : Config} {writer : EtherDBWriter}
  (reachable : WriterReachable batchRows db writer) (answer : Submission → SdkAnswer)
  {batch : RowBatch} {ptr : DevicePtr} (own : batch.dev = some ptr)
  (present : ptr.addr < db.devices.length) (columnar : (deviceAt db.devices ptr.addr).Columnar)

include reachable own present columnar

/-- The submissions of a batch take the rows that are counted. -/
theorem writeBatch_ranges :
    ∃ sink, writer.sinks.lookup ptr.addr = some sink ∧
      sink.LaidOut (deviceAt db.devices ptr.addr) ∧
      (writer.writeBatch db answer batch).1.map (fun s => (s.done, s.rows)) =
        rowRanges sink.capacity batch.counted 0 := by
  obtain ⟨sink, found⟩ := Option.isSome_iff_exists.mp (reachable.ready.present present columnar)
  have laid := reachable.ready.laid found
  have ranges := writeLoop_ranges answer (deviceAt db.devices ptr.addr) batch batch.counted
    writer.stats laid.capacity_pos (Nat.le_add_left _ 0)
  refine ⟨sink, found, laid, ?_⟩
  rw [EtherDBWriter.writeBatch_of_columnar answer own columnar found, ranges]

/-- Each of them holds its rows. -/
theorem writeBatch_rows
    (whole : batch.cells.length =
      batch.ts.length * (deviceAt db.devices ptr.addr).columns.length) :
    ∀ s ∈ (writer.writeBatch db answer batch).1,
      s.Transposes (deviceAt db.devices ptr.addr) batch := by
  intro s member
  obtain ⟨sink, _, laid, ranges⟩ := writeBatch_ranges reachable answer own present columnar
  obtain ⟨sink', staged⟩ := (reachable.writeBatch_stages answer own present columnar).1 s member
  have range : (s.done, s.rows) ∈ rowRanges sink.capacity batch.counted 0 := by
    rw [← ranges]
    exact List.mem_map.mpr ⟨s, member, rfl⟩
  have inside := (mem_rowRanges laid.capacity_pos range).1
  exact staged.transposes (inside.trans batch.counted_le) whole

/-- A batch that is transposed has been counted in full. -/
theorem counted_of_transposed
    (done : writer.Transposed db ptr batch (writer.writeBatch db answer batch).1) :
    batch.counted = batch.ts.length := by
  obtain ⟨sink, found, laid, ranges⟩ := writeBatch_ranges reachable answer own present columnar
  obtain ⟨sink', found', _, cuts⟩ := done.sink
  cases found.symm.trans found'
  have counted := cutsRows_rowRanges laid.capacity_pos batch.counted
  rw [← ranges] at counted
  exact counted.unique cuts

/-- **A batch is transposed exactly if it has less than `2 ^ 31` rows**, whatever the SDK answers. -/
theorem writeBatch_transposes
    (whole : batch.cells.length =
      batch.ts.length * (deviceAt db.devices ptr.addr).columns.length) :
    (prepareSink batchRows (deviceAt db.devices ptr.addr)).Ordered (deviceAt db.devices ptr.addr) ∧
      (writer.Transposed db ptr batch (writer.writeBatch db answer batch).1 ↔
        batch.ts.length < 2 ^ 31) := by
  refine ⟨(prepareSink_laidOut batchRows _).ordered, fun done => ?_, fun small => ?_⟩
  · have all := counted_of_transposed reachable answer own present columnar done
    exact RowBatch.counted_eq_iff.mp all
  · obtain ⟨sink, found, laid, ranges⟩ := writeBatch_ranges reachable answer own present columnar
    refine ⟨⟨sink, found, laid.ordered, ?_⟩,
      writeBatch_rows reachable answer own present columnar whole⟩
    rw [ranges, RowBatch.counted_eq_iff.mpr small]
    exact cutsRows_rowRanges laid.capacity_pos _

end Batch

theorem columnar_meter : (deviceAt meterDb.devices 0).Columnar := by
  unfold Device.Columnar
  decide

/-- Three rows of the meter. -/
def meterRows : RowBatch := ⟨some (meterDb.devicePtr 0), [0, 1, 2], meterRow ++ meterRow ++ meterRow⟩

/-- Two rows at a time, with an SDK that refuses every bind. -/
theorem writeBatch_transposes_meter :
    (EtherDBWriter.start 2 meterDb).Transposed meterDb (meterDb.devicePtr 0) meterRows
      ((EtherDBWriter.start 2 meterDb).writeBatch meterDb (fun _ => .bindFailed) meterRows).1 := by
  have own : meterRows.dev = some (meterDb.devicePtr 0) := rfl
  have small : meterRows.ts.length < 2 ^ 31 := by decide
  exact (writeBatch_transposes (WriterReachable.start : WriterReachable 2 meterDb _)
    (fun _ => .bindFailed) own (by decide) columnar_meter (by decide)).2.mpr small

/-- As many rows of the meter as it takes, all zero. -/
def zeroRows (n : ℕ) : RowBatch :=
  ⟨some (meterDb.devicePtr 0), List.replicate n 0, List.replicate (n * 2) ⟨0, false⟩⟩

/-- **A batch of `2 ^ 31` rows is not transposed**: its row count is negative. -/
theorem not_transposed_zeroRows :
    (zeroRows (2 ^ 31)).cells.length =
        (zeroRows (2 ^ 31)).ts.length * (deviceAt meterDb.devices 0).columns.length ∧
      ¬ (EtherDBWriter.start 2 meterDb).Transposed meterDb (meterDb.devicePtr 0)
        (zeroRows (2 ^ 31))
        ((EtherDBWriter.start 2 meterDb).writeBatch meterDb (fun _ => .executed 0 0)
          (zeroRows (2 ^ 31))).1 := by
  have rows : (zeroRows (2 ^ 31)).ts.length = 2 ^ 31 := List.length_replicate
  have columns : (deviceAt meterDb.devices 0).columns.length = 2 := by decide
  constructor
  · rw [rows, columns]
    exact List.length_replicate
  · intro done
    have all := counted_of_transposed (WriterReachable.start : WriterReachable 2 meterDb _)
      (fun _ => .executed 0 0) rfl (by decide) columnar_meter done
    have small := RowBatch.counted_eq_iff.mp all
    rw [rows] at small
    exact Nat.lt_irrefl _ small

end EtherAdapter
