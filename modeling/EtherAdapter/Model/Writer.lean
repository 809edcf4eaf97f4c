/-
**The EtherDB writer** (`EtherDBWriter.cpp`: `createTableSql`, `prepareSink`, `writeBatch`).

The client SDK stands behind one function: what `bindParamBatch` and `execute` answer to a
submission. A submission is what the SDK is given: the staging buffer at that moment and, for every
column, where it starts, its stride and the number of rows. Log lines and the connection itself are
left out; http batches go to `writeBatchSql` and are not staged.

* `createTableSql_eq` — the text, column by column: `ts` first, then the fields.
* `prepareSink` — one region for every column, `capacity` rows each, without overlap
  (`Sink.LaidOut.apart`).
* `writeBatch` — submissions of at most `capacity` rows; **`readAt_stageRows`** — at a submission,
  every entry of every column holds the staged bytes of its cell.
* `WriterReachable.ready` — after any batches, every columnar device has a sink of its layout.
-/

import EtherAdapter.Memory.Basic
import EtherAdapter.Tuples.Basic
import EtherAdapter.Model.Indexes

namespace EtherAdapter

open Memory

/-! ### Tables -/

/-- The columns of a device's table, with their types. -/
def tableColumns (dev : Device) : List (Bytes × Bytes) :=
  (bytesOf "ts", bytesOf "TIMESTAMP") :: dev.columns.map fun f => (f.name, f.colType)

def createTableSql (dev : Device) : Bytes :=
  bytesOf "CREATE TABLE IF NOT EXISTS " ++ dev.deviceId ++ bytesOf " (ts TIMESTAMP" ++
    (dev.columns.flatMap fun f => bytesOf ", " ++ f.name ++ bytesOf " " ++ f.colType) ++ bytesOf ")"

/-- The text is the table name and the columns, separated by commas. -/
theorem createTableSql_eq (dev : Device) :
    createTableSql dev =
      bytesOf "CREATE TABLE IF NOT EXISTS " ++ dev.deviceId ++ bytesOf " (" ++
        (bytesOf ", ").intercalate
          ((tableColumns dev).map fun column => column.1 ++ bytesOf " " ++ column.2) ++
        bytesOf ")" := by
  have start : bytesOf " (" ++ (bytesOf "ts" ++ bytesOf " " ++ bytesOf "TIMESTAMP") =
      bytesOf " (ts TIMESTAMP" := by decide
  rw [tableColumns, List.map_cons, List.map_map]
  rw [Tuples.intercalate_cons_flatMap, List.flatMap_map, createTableSql, ← start]
  simp only [List.append_assoc, Function.comp]

/-! ### Staged values -/

/-- The conversion of a `double` to a `float`, rounding to nearest, ties to even. A NaN stays a NaN
and becomes quiet. -/
def narrowFloat (bits : BitVec 64) : BitVec 32 :=
  let sign := bits.toNat / 2 ^ 63
  let exponent := bits.toNat / 2 ^ 52 % 2 ^ 11
  let mantissa := bits.toNat % 2 ^ 52
  let pack (rest : ℕ) : BitVec 32 := BitVec.ofNat 32 (sign * 2 ^ 31 + rest)
  if exponent = 2047 then
    if mantissa = 0 then pack (255 * 2 ^ 23)
    else pack (255 * 2 ^ 23 + (mantissa / 2 ^ 29 ||| 2 ^ 22))
  else
    let significand := if exponent = 0 then mantissa else mantissa + 2 ^ 52
    let scale := max exponent 1
    -- below the smallest normal `float`, more bits are cut
    let cut := if 897 ≤ scale then 29 else 29 + (897 - scale)
    let kept := significand / 2 ^ cut
    let lost := significand % 2 ^ cut
    let half := 2 ^ (cut - 1)
    let rounded := if half < lost ∨ (lost = half ∧ kept % 2 = 1) then kept + 1 else kept
    -- a carry out of the significand moves on into the exponent, at the top to infinity
    pack (min ((scale - 897) * 2 ^ 23 + rounded) (255 * 2 ^ 23))

/-- The bytes one value is staged as. -/
def stagedBytes (f : Column) (cell : Cell) : Bytes :=
  if f.asDouble then
    if f.outSize = 8 then leBytes 8 cell.v else leBytes 4 ((narrowFloat cell.v).setWidth 64)
  else
    match f.outSize with
    | 1 => leBytes 1 cell.v
    | 2 => leBytes 2 cell.v
    | 4 => leBytes 4 cell.v
    | _ => leBytes 8 cell.v

/-! ### Sinks -/

/-- The staging buffer of a device. -/
structure Sink where
  capacity : ℕ
  colBase : List ℕ
  data : Bytes
deriving DecidableEq, Repr

/-- Regions one behind the other, of `capacity` entries each: their starts, and the end. -/
def layout (capacity : ℕ) : ℕ → List ℕ → List ℕ × ℕ
  | off, [] => ([], off)
  | off, size :: sizes =>
    let later := layout capacity (off + size * capacity) sizes
    (off :: later.1, later.2)

/-- The entry sizes of the columns, `ts` first. -/
def columnSizes (dev : Device) : List ℕ := 8 :: dev.columns.map fun f => f.outSize

def prepareSink (batchRows : Int) (dev : Device) : Sink :=
  let capacity := if 0 < batchRows then batchRows.toNat else 1
  let regions := layout capacity 0 (columnSizes dev)
  ⟨capacity, regions.1, List.replicate regions.2 0⟩

/-! ### Batches -/

/-- `EtDBStmt::MultiBind`. -/
structure MultiBind where
  type : BindType
  buffer : ℕ
  stride : ℕ
  numRows : ℕ
deriving DecidableEq, Repr

/-- What one `bindParamBatch` is given: rows `done` to `done + rows`. -/
structure Submission where
  done : ℕ
  rows : ℕ
  data : Bytes
  binds : List MultiBind
deriving DecidableEq, Repr

/-- What `bindParamBatch` and `execute` answer. -/
inductive SdkAnswer where
  | bindFailed
  | executeFailed
  | executed (affected errorRows : ℕ)
deriving DecidableEq, Repr

structure WriterStats where
  rowsWritten : ℕ := 0
  batchesWritten : ℕ := 0
  writeErrors : ℕ := 0
deriving DecidableEq, Repr

def WriterStats.record (stats : WriterStats) : SdkAnswer → WriterStats
  | .bindFailed => { stats with writeErrors := stats.writeErrors + 1 }
  | .executeFailed => { stats with writeErrors := stats.writeErrors + 1 }
  | .executed affected errorRows =>
    { rowsWritten := stats.rowsWritten + affected
      batchesWritten := stats.batchesWritten + 1
      writeErrors := stats.writeErrors + errorRows }

/-- The staged entries of field `k` for `n` rows, starting with the row at the front of `cells`. -/
def columnEntries (f : Column) (fields k n : ℕ) (cells : List Cell) : List Bytes :=
  (List.range n).map fun r => stagedBytes f (cells.getD (r * fields + k) ⟨0, false⟩)

/-- The field columns, one after the other. -/
def stageColumns (fields n : ℕ) (cells : List Cell) (colBase : List ℕ) :
    ℕ → Bytes → List Column → Bytes
  | _, data, [] => data
  | k, data, f :: columns =>
    stageColumns fields n cells colBase (k + 1)
      (writeEach f.outSize data (colBase.getD (k + 1) 0) (columnEntries f fields k n cells)) columns

/-- The buffer with `n` rows staged, from row `done` on. -/
def stageRows (sink : Sink) (dev : Device) (batch : RowBatch) (done n : ℕ) : Bytes :=
  let stamps := ((batch.ts.drop done).take n).flatMap fun t => leBytes 8 (BitVec.ofInt 64 t)
  stageColumns dev.columns.length n (batch.cells.drop (done * dev.columns.length)) sink.colBase 0
    (writeAt sink.data (sink.colBase.getD 0 0) stamps) dev.columns

/-- The binds of a submission. -/
def sinkBinds (sink : Sink) (dev : Device) (n : ℕ) : List MultiBind :=
  ⟨.timestamp, sink.colBase.getD 0 0, 8, n⟩ ::
    dev.columns.mapIdx fun k f => ⟨f.bindType, sink.colBase.getD (k + 1) 0, f.outSize, n⟩

/-- The `while` loop of `writeBatch`, from row `done` on. -/
def writeLoop (answer : Submission → SdkAnswer) (dev : Device) (batch : RowBatch) :
    ℕ → ℕ → Sink → WriterStats → List Submission × Sink × WriterStats
  | 0, _, sink, stats => ([], sink, stats)
  | fuel + 1, done, sink, stats =>
    if done < batch.rowCount then
      let n := min (batch.rowCount - done).toNat sink.capacity
      let data := stageRows sink dev batch done n
      let submission : Submission := ⟨done, n, data, sinkBinds sink dev n⟩
      let later := writeLoop answer dev batch fuel (done + n) { sink with data := data }
        (stats.record (answer submission))
      (submission :: later.1, later.2)
    else ([], sink, stats)

/-- The sinks by device index, and the counters. -/
structure EtherDBWriter where
  sinks : AList (fun _ : ℕ => Sink) := ∅
  stats : WriterStats := {}

namespace EtherDBWriter

/-- One device of `start`: a columnar sink, unless it has no fields, is an http device (written by
plain SQL) or is not served. -/
def prepare (batchRows : Int) (writer : EtherDBWriter) (i : ℕ) (dev : Device) : EtherDBWriter :=
  if dev.columns ≠ [] ∧ (dev.connProto = connCustomData ∨ dev.connProto = connModbus) then
    { writer with sinks := writer.sinks.insert i (prepareSink batchRows dev) }
  else writer

/-- `start`, with an SDK that connects and prepares every statement. -/
def start (batchRows : Int) (db : Config) : EtherDBWriter :=
  db.devices.zipIdx.foldl (fun writer entry => writer.prepare batchRows entry.2 entry.1) {}

/-- `writeBatch`: what is submitted, and the writer afterwards. Every pass of the loop takes at
least one row, so as many passes as there are rows are enough. -/
def writeBatch (writer : EtherDBWriter) (db : Config) (answer : Submission → SdkAnswer)
    (batch : RowBatch) : List Submission × EtherDBWriter :=
  match batch.dev with
  | none => ([], writer)
  | some ptr =>
    let dev := deviceAt db.devices ptr.addr
    if dev.connProto = connHttp then ([], writer)
    else
      match writer.sinks.lookup ptr.addr with
      | none => ([], writer)
      | some sink =>
        let written := writeLoop answer dev batch batch.counted 0 sink writer.stats
        (written.1, ⟨writer.sinks.insert ptr.addr written.2.1, written.2.2⟩)

end EtherDBWriter

/-! ### The layout of a sink -/

/-- A region starts behind the regions before it. -/
theorem layout_getElem? (capacity off : ℕ) (sizes : List ℕ) {k : ℕ} (inside : k < sizes.length) :
    (layout capacity off sizes).1[k]? = some (off + (sizes.take k).sum * capacity) := by
  induction sizes generalizing off k with
  | nil => exact absurd inside (Nat.not_lt_zero k)
  | cons size sizes ih =>
    cases k with
    | zero => rw [List.take_zero, List.sum_nil, Nat.zero_mul]; rfl
    | succ k =>
      rw [layout, List.getElem?_cons_succ, ih _ (Nat.lt_of_succ_lt_succ inside), List.take_succ_cons,
        List.sum_cons, Nat.add_mul, Nat.add_assoc]

theorem layout_end (capacity off : ℕ) (sizes : List ℕ) :
    (layout capacity off sizes).2 = off + sizes.sum * capacity := by
  induction sizes generalizing off with
  | nil => rw [List.sum_nil, Nat.zero_mul]; rfl
  | cons size sizes ih => rw [layout, ih, List.sum_cons, Nat.add_mul, Nat.add_assoc]

/-- **The layout of a device's sink**: it never changes, only the bytes do. -/
structure Sink.LaidOut (sink : Sink) (dev : Device) : Prop where
  capacity_pos : 0 < sink.capacity
  colBase : sink.colBase = (layout sink.capacity 0 (columnSizes dev)).1
  data : sink.data.length = (columnSizes dev).sum * sink.capacity

theorem prepareSink_laidOut (batchRows : Int) (dev : Device) :
    (prepareSink batchRows dev).LaidOut dev where
  capacity_pos := by
    show 0 < if 0 < batchRows then batchRows.toNat else 1
    split
    · omega
    · exact Nat.one_pos
  colBase := rfl
  data := by
    simp only [prepareSink, List.length_replicate, layout_end, Nat.zero_add]

section LaidOut

variable {sink : Sink} {dev : Device}

theorem Sink.LaidOut.base (laid : sink.LaidOut dev) {k : ℕ} (inside : k < (columnSizes dev).length) :
    sink.colBase.getD k 0 = ((columnSizes dev).take k).sum * sink.capacity := by
  rw [laid.colBase, List.getD_eq_getElem?_getD, layout_getElem? _ _ _ inside, Option.getD_some,
    Nat.zero_add]

/-- Regions follow each other without overlap, and end inside the buffer. -/
theorem sum_take_add_le (sizes : List ℕ) {k l size : ℕ} (found : sizes[k]? = some size)
    (later : k < l) : (sizes.take k).sum + size ≤ (sizes.take l).sum := by
  have longer : sizes.take l = sizes.take k ++ size :: (sizes.take l).drop (k + 1) := by
    obtain ⟨inside, rfl⟩ := List.getElem?_eq_some_iff.mp found
    have within : k < (sizes.take l).length := by
      rw [List.length_take]
      omega
    have split := (List.take_append_drop k (sizes.take l)).symm
    rw [List.drop_eq_getElem_cons within, List.getElem_take, List.take_take,
      Nat.min_eq_left (Nat.le_of_lt later)] at split
    exact split
  rw [longer, List.sum_append, List.sum_cons]
  omega

end LaidOut

/-! ### What is staged -/

/-- The sizes a value can be stored in, and how floating-point columns are stored. -/
theorem Column.outSize_cases (f : Column) :
    (f.outSize = 1 ∨ f.outSize = 2 ∨ f.outSize = 4 ∨ f.outSize = 8) ∧
      (f.asDouble = true → f.outSize = 4 ∨ f.outSize = 8) := by
  have double := f.asDouble_eq
  unfold FieldDesc.outSize
  revert double
  cases f.kind with
  | bool => exact fun double => ⟨Or.inl rfl, fun yes => by rw [double] at yes; cases yes⟩
  | float32 => exact fun _ => ⟨Or.inr (Or.inr (Or.inl rfl)), fun _ => Or.inl rfl⟩
  | float64 => exact fun _ => ⟨Or.inr (Or.inr (Or.inr rfl)), fun _ => Or.inr rfl⟩
  | intSigned =>
    intro double
    exact ⟨f.size_cases, fun yes => by rw [double] at yes; cases yes⟩
  | intUnsigned =>
    intro double
    refine ⟨?_, fun yes => by rw [double] at yes; cases yes⟩
    simp only
    split
    · exact Or.inr (Or.inl rfl)
    · split
      · exact Or.inr (Or.inr (Or.inl rfl))
      · exact Or.inr (Or.inr (Or.inr rfl))

theorem length_stagedBytes (f : Column) (cell : Cell) : (stagedBytes f cell).length = f.outSize := by
  obtain ⟨sizes, doubles⟩ := f.outSize_cases
  unfold stagedBytes
  split
  · rename_i double
    rcases doubles double with four | eight
    · rw [if_neg (by rw [four]; decide), length_leBytes, four]
    · rw [if_pos eight, length_leBytes, eight]
  · rcases sizes with one | two | four | eight
    · simp only [one, length_leBytes]
    · simp only [two, length_leBytes]
    · simp only [four, length_leBytes]
    · simp only [eight, length_leBytes]

/-- An integer value is staged as its low bytes. -/
theorem stagedBytes_of_not_double {f : Column} (integer : f.asDouble = false) (cell : Cell) :
    stagedBytes f cell = leBytes f.outSize cell.v := by
  obtain ⟨sizes, _⟩ := f.outSize_cases
  unfold stagedBytes
  rw [if_neg (by rw [integer]; exact Bool.false_ne_true)]
  rcases sizes with one | two | four | eight
  · simp only [one]
  · simp only [two]
  · simp only [four]
  · simp only [eight]

/-- The regions of a submission: `ts`, then the fields. -/
def stagedRegions (sink : Sink) (dev : Device) (batch : RowBatch) (done n : ℕ) :
    List (ℕ × Bytes) :=
  (sink.colBase.getD 0 0,
      ((batch.ts.drop done).take n).flatMap fun t => leBytes 8 (BitVec.ofInt 64 t)) ::
    dev.columns.mapIdx fun k f => (sink.colBase.getD (k + 1) 0,
      (columnEntries f dev.columns.length k n
        (batch.cells.drop (done * dev.columns.length))).flatten)

theorem sized_columnEntries (f : Column) (fields k n : ℕ) (cells : List Cell) :
    ∀ entry ∈ columnEntries f fields k n cells, entry.length = f.outSize := by
  intro entry member
  obtain ⟨r, _, rfl⟩ := List.mem_map.mp member
  exact length_stagedBytes f _

theorem sized_stamps (stamps : List Int) :
    ∀ entry ∈ stamps.map fun t => leBytes 8 (BitVec.ofInt 64 t), entry.length = 8 := by
  intro entry member
  obtain ⟨t, _, rfl⟩ := List.mem_map.mp member
  exact length_leBytes 8 _

theorem length_columnEntries (f : Column) (fields k n : ℕ) (cells : List Cell) :
    (columnEntries f fields k n cells).length = n := by
  rw [columnEntries, List.length_map, List.length_range]

theorem stageColumns_eq {fields n : ℕ} {cells : List Cell} {colBase : List ℕ}
    (columns : List Column) {k : ℕ} {data : Bytes}
    (fits : ∀ j f, columns[j]? = some f →
      colBase.getD (k + j + 1) 0 + n * f.outSize ≤ data.length) :
    stageColumns fields n cells colBase k data columns =
      writeAll data (columns.mapIdx fun j f =>
        (colBase.getD (k + j + 1) 0, (columnEntries f fields (k + j) n cells).flatten)) := by
  induction columns generalizing k data with
  | nil => rfl
  | cons f columns ih =>
    have room := fits 0 f rfl
    have sized := sized_columnEntries f fields k n cells
    have count := length_columnEntries f fields k n cells
    have one : writeEach f.outSize data (colBase.getD (k + 1) 0) (columnEntries f fields k n cells) =
        writeAt data (colBase.getD (k + 1) 0) (columnEntries f fields k n cells).flatten :=
      writeEach_eq _ sized (by rwa [count])
    have length : (writeAt data (colBase.getD (k + 1) 0)
        (columnEntries f fields k n cells).flatten).length = data.length :=
      length_writeAt (by rwa [length_flatten_of_forall sized, count])
    rw [stageColumns, one, ih (fun j g found => ?_), List.mapIdx_cons]
    · simp only [writeAll, List.foldl_cons, Nat.add_zero, Nat.add_assoc, Nat.add_comm 1]
    · rw [length]
      have later := fits (j + 1) g found
      rwa [← Nat.add_assoc, Nat.add_right_comm k j 1] at later

section Staged

variable {sink : Sink} {dev : Device}

/-- Where a region lies, and that its content stays inside it. -/
theorem Sink.LaidOut.region (laid : sink.LaidOut dev) (batch : RowBatch) {done n : ℕ}
    (most : n ≤ sink.capacity) {k : ℕ} {region : ℕ × Bytes}
    (found : (stagedRegions sink dev batch done n)[k]? = some region) :
    ∃ size, (columnSizes dev)[k]? = some size ∧
      region.1 = ((columnSizes dev).take k).sum * sink.capacity ∧
      region.2.length ≤ size * sink.capacity := by
  cases k with
  | zero =>
    cases found
    refine ⟨8, rfl, laid.base (Nat.succ_pos _), ?_⟩
    rw [List.flatMap_def, length_flatten_of_forall (sized_stamps _), List.length_map,
      List.length_take, Nat.mul_comm]
    exact Nat.mul_le_mul_left 8 (Nat.le_trans (Nat.min_le_left _ _) most)
  | succ k =>
    rw [stagedRegions, List.getElem?_cons_succ, List.getElem?_mapIdx] at found
    obtain ⟨f, column, rfl⟩ := Option.map_eq_some_iff.mp found
    have size : (columnSizes dev)[k + 1]? = some f.outSize := by
      rw [columnSizes, List.getElem?_cons_succ, List.getElem?_map, column, Option.map_some]
    refine ⟨f.outSize, size, laid.base (List.getElem?_eq_some_iff.mp size).1, ?_⟩
    rw [length_flatten_of_forall (sized_columnEntries f _ k n _), length_columnEntries, Nat.mul_comm]
    exact Nat.mul_le_mul_left _ most

theorem Sink.LaidOut.fits (laid : sink.LaidOut dev) (batch : RowBatch) {done n : ℕ}
    (most : n ≤ sink.capacity) :
    ∀ region ∈ stagedRegions sink dev batch done n,
      region.1 + region.2.length ≤ sink.data.length := by
  intro region member
  obtain ⟨k, found⟩ := List.mem_iff_getElem?.mp member
  obtain ⟨size, here, base, length⟩ := laid.region batch most found
  have inside := sum_take_add_le (columnSizes dev) here (List.getElem?_eq_some_iff.mp here).1
  rw [List.take_length] at inside
  calc region.1 + region.2.length
      ≤ ((columnSizes dev).take k).sum * sink.capacity + size * sink.capacity := by omega
    _ = (((columnSizes dev).take k).sum + size) * sink.capacity := (Nat.add_mul _ _ _).symm
    _ ≤ (columnSizes dev).sum * sink.capacity := Nat.mul_le_mul_right _ inside
    _ = sink.data.length := laid.data.symm

/-- **The column regions do not overlap.** -/
theorem Sink.LaidOut.apart (laid : sink.LaidOut dev) (batch : RowBatch) {done n : ℕ}
    (most : n ≤ sink.capacity) : (stagedRegions sink dev batch done n).Pairwise Memory.Apart := by
  refine List.pairwise_iff_getElem.mpr fun k l inside inside' before => Or.inl ?_
  obtain ⟨size, here, base, length⟩ := laid.region batch most (List.getElem?_eq_getElem inside)
  obtain ⟨_, _, base', _⟩ := laid.region batch most (List.getElem?_eq_getElem inside')
  have ordered := sum_take_add_le (columnSizes dev) here before
  rw [base']
  calc _ ≤ ((columnSizes dev).take k).sum * sink.capacity + size * sink.capacity := by omega
    _ = (((columnSizes dev).take k).sum + size) * sink.capacity := (Nat.add_mul _ _ _).symm
    _ ≤ _ := Nat.mul_le_mul_right _ ordered

theorem stageRows_eq (laid : sink.LaidOut dev) (batch : RowBatch) {done n : ℕ}
    (most : n ≤ sink.capacity) :
    stageRows sink dev batch done n =
      writeAll sink.data (stagedRegions sink dev batch done n) := by
  have fits : ∀ region ∈ stagedRegions sink dev batch done n,
      region.1 + region.2.length ≤ sink.data.length := laid.fits batch most
  have stamps := fits _ List.mem_cons_self
  rw [stageRows, stageColumns_eq dev.columns fun j f found => ?_]
  · simp only [stagedRegions, writeAll, List.foldl_cons, Nat.zero_add]
  · have member : (sink.colBase.getD (0 + j + 1) 0, (columnEntries f dev.columns.length j n
        (batch.cells.drop (done * dev.columns.length))).flatten) ∈
        stagedRegions sink dev batch done n := by
      refine List.mem_cons_of_mem _ (List.mem_iff_getElem?.mpr ⟨j, ?_⟩)
      rw [List.getElem?_mapIdx, found, Option.map_some, Nat.zero_add]
    have room := fits _ member
    rw [length_flatten_of_forall (sized_columnEntries f _ j n _), length_columnEntries] at room
    rwa [length_writeAt stamps]

theorem length_stageRows (laid : sink.LaidOut dev) (batch : RowBatch) {done n : ℕ}
    (most : n ≤ sink.capacity) : (stageRows sink dev batch done n).length = sink.data.length := by
  rw [stageRows_eq laid batch most, length_writeAll (laid.fits batch most)]

/-- **A staged entry is the bytes of its cell.** -/
theorem readAt_stageRows (laid : sink.LaidOut dev) (batch : RowBatch) {done n : ℕ}
    (most : n ≤ sink.capacity) {k : ℕ} {f : Column} (column : dev.columns[k]? = some f) {r : ℕ}
    (row : r < n) :
    readAt (stageRows sink dev batch done n)
        (sink.colBase.getD (k + 1) 0 + r * f.outSize) f.outSize =
      stagedBytes f (batch.cells.getD ((done + r) * dev.columns.length + k) ⟨0, false⟩) := by
  have region : (sink.colBase.getD (k + 1) 0, (columnEntries f dev.columns.length k n
      (batch.cells.drop (done * dev.columns.length))).flatten) ∈
      stagedRegions sink dev batch done n := by
    refine List.mem_cons_of_mem _ (List.mem_iff_getElem?.mpr ⟨k, ?_⟩)
    rw [List.getElem?_mapIdx, column, Option.map_some]
  have whole := readAt_writeAll (laid.fits batch most) (laid.apart batch most) region
  have sized := sized_columnEntries f dev.columns.length k n
    (batch.cells.drop (done * dev.columns.length))
  have length := length_flatten_of_forall sized
  rw [length_columnEntries] at length
  have inside : r * f.outSize + f.outSize ≤ n * f.outSize := by
    rw [← Nat.succ_mul]
    exact Nat.mul_le_mul_right _ row
  rw [← stageRows_eq laid batch most, length] at whole
  rw [← readAt_readAt _ _ (n * f.outSize) _ _ inside, whole]
  refine readAt_flatten sized ?_
  rw [columnEntries, List.getElem?_map, List.getElem?_range row, Option.map_some]
  congr 2
  simp only [List.getD_eq_getElem?_getD, List.getElem?_drop, Nat.add_mul, Nat.add_assoc]

end Staged

/-! ### The loop -/

/-- What a submission is given: the rows it names, staged in a buffer of the device's layout. -/
structure Submission.Stages (submission : Submission) (dev : Device) (batch : RowBatch) (sink : Sink) :
    Prop where
  laid : sink.LaidOut dev
  most : submission.rows ≤ sink.capacity
  data : submission.data = stageRows sink dev batch submission.done submission.rows
  binds : submission.binds = sinkBinds sink dev submission.rows

theorem Sink.LaidOut.restaged {sink : Sink} {dev : Device} (laid : sink.LaidOut dev)
    (batch : RowBatch) {done n : ℕ} (most : n ≤ sink.capacity) :
    Sink.LaidOut { sink with data := stageRows sink dev batch done n } dev where
  capacity_pos := laid.capacity_pos
  colBase := laid.colBase
  data := (length_stageRows laid batch most).trans laid.data

/-- One pass of the loop, over the rows that are counted. -/
theorem writeLoop_succ (answer : Submission → SdkAnswer) (dev : Device) (batch : RowBatch)
    (fuel done : ℕ) (sink : Sink) (stats : WriterStats) :
    writeLoop answer dev batch (fuel + 1) done sink stats =
      if done < batch.counted then
        let n := min (batch.counted - done) sink.capacity
        let data := stageRows sink dev batch done n
        let submission : Submission := ⟨done, n, data, sinkBinds sink dev n⟩
        let later := writeLoop answer dev batch fuel (done + n) { sink with data := data }
          (stats.record (answer submission))
        (submission :: later.1, later.2)
      else ([], sink, stats) := by
  rw [writeLoop]
  simp only [RowBatch.lt_rowCount_iff, RowBatch.toNat_rowCount_sub]

/-- **Every submission stages the rows it names, and every row is in one.** -/
theorem writeLoop_stages (answer : Submission → SdkAnswer) (dev : Device) (batch : RowBatch)
    (fuel : ℕ) {done : ℕ} {sink : Sink} (stats : WriterStats) (laid : sink.LaidOut dev)
    (enough : batch.counted ≤ done + fuel) :
    (∀ s ∈ (writeLoop answer dev batch fuel done sink stats).1, ∃ sink', s.Stages dev batch sink') ∧
      (∀ r, done ≤ r → r < batch.counted →
        ∃ s ∈ (writeLoop answer dev batch fuel done sink stats).1,
          s.done ≤ r ∧ r < s.done + s.rows) ∧
      (writeLoop answer dev batch fuel done sink stats).2.1.LaidOut dev := by
  induction fuel generalizing done sink stats with
  | zero =>
    refine ⟨fun s member => absurd member List.not_mem_nil, fun r from_ to_ => ?_, laid⟩
    omega
  | succ fuel ih =>
    rw [writeLoop_succ]
    by_cases more : done < batch.counted
    · rw [if_pos more]
      have most : min (batch.counted - done) sink.capacity ≤ sink.capacity := Nat.min_le_right _ _
      have positive := laid.capacity_pos
      have enough' : batch.counted ≤
          done + min (batch.counted - done) sink.capacity + fuel := by omega
      obtain ⟨staged, covered, kept⟩ :=
        ih (stats.record (answer _)) (laid.restaged batch most) enough'
      refine ⟨fun s member => ?_, fun r from_ to_ => ?_, kept⟩
      · rcases List.mem_cons.mp member with rfl | later
        · exact ⟨sink, laid, most, rfl, rfl⟩
        · exact staged s later
      · by_cases here : r < done + min (batch.counted - done) sink.capacity
        · exact ⟨_, List.mem_cons_self, from_, here⟩
        · obtain ⟨s, member, inside⟩ := covered r (Nat.le_of_not_lt here) to_
          exact ⟨s, List.mem_cons_of_mem _ member, inside⟩
    · rw [if_neg more]
      refine ⟨fun s member => absurd member List.not_mem_nil, fun r from_ to_ => ?_, laid⟩
      omega

/-! ### Any sequence of batches -/

/-- The writers that batches produce after `start`. -/
inductive WriterReachable (batchRows : Int) (db : Config) : EtherDBWriter → Prop where
  | start : WriterReachable batchRows db (EtherDBWriter.start batchRows db)
  | batch {writer : EtherDBWriter} (answer : Submission → SdkAnswer) (batch : RowBatch) :
      WriterReachable batchRows db writer →
      WriterReachable batchRows db (writer.writeBatch db answer batch).2

/-- A device that is staged: it has fields, and it is a custom_data or a modbus device. -/
def Device.Columnar (dev : Device) : Prop :=
  dev.columns ≠ [] ∧ (dev.connProto = connCustomData ∨ dev.connProto = connModbus)

/-- **The sinks of a writer**: laid out for their devices, one for every columnar device. -/
structure EtherDBWriter.Ready (writer : EtherDBWriter) (db : Config) : Prop where
  laid : ∀ {i sink}, writer.sinks.lookup i = some sink → sink.LaidOut (deviceAt db.devices i)
  present : ∀ {i}, i < db.devices.length → (deviceAt db.devices i).Columnar →
    (writer.sinks.lookup i).isSome

theorem deviceAt_append_left {front : List Device} {i : ℕ} (inside : i < front.length)
    (rest : List Device) : deviceAt (front ++ rest) i = deviceAt front i := by
  rw [deviceAt, deviceAt, List.getD_eq_getElem?_getD, List.getElem?_append_left inside,
    List.getD_eq_getElem?_getD]

theorem deviceAt_concat (front : List Device) (last : Device) :
    deviceAt (front ++ [last]) front.length = last := by
  rw [deviceAt, List.getD_eq_getElem?_getD, List.getElem?_concat_length, Option.getD_some]

section Prepare

variable {dev : Device} (batchRows : Int) (writer : EtherDBWriter) (i : ℕ)

theorem EtherDBWriter.prepare_of_columnar (columnar : dev.Columnar) :
    (writer.prepare batchRows i dev).sinks = writer.sinks.insert i (prepareSink batchRows dev) := by
  unfold Device.Columnar at columnar
  rw [prepare, if_pos columnar]

theorem EtherDBWriter.prepare_of_not_columnar (other : ¬dev.Columnar) :
    writer.prepare batchRows i dev = writer := by
  unfold Device.Columnar at other
  rw [prepare, if_neg other]

end Prepare

/-- The sinks after a front part of the devices. -/
theorem prepare_ready (batchRows : Int) (devices : List Device) :
    let writer := devices.zipIdx.foldl
      (fun writer entry => EtherDBWriter.prepare batchRows writer entry.2 entry.1) {}
    (∀ i sink, writer.sinks.lookup i = some sink →
        i < devices.length ∧ sink.LaidOut (deviceAt devices i)) ∧
      ∀ i, i < devices.length → (deviceAt devices i).Columnar →
        (writer.sinks.lookup i).isSome := by
  induction devices using List.reverseRecOn with
  | nil =>
    refine ⟨fun i sink found => ?_, fun i inside => absurd inside (Nat.not_lt_zero i)⟩
    cases found
  | append_singleton front last ih =>
    obtain ⟨laid, present⟩ := ih
    rw [List.zipIdx_append, List.foldl_append]
    simp only [List.zipIdx_singleton, Nat.zero_add, List.foldl_cons, List.foldl_nil,
      List.length_append, List.length_singleton]
    have old : ∀ (i : ℕ) (sink : Sink), i < front.length → sink.LaidOut (deviceAt front i) →
        i < front.length + 1 ∧ sink.LaidOut (deviceAt (front ++ [last]) i) := by
      intro i sink inside layout
      rw [deviceAt_append_left inside]
      exact ⟨Nat.lt_succ_of_lt inside, layout⟩
    by_cases columnar : last.Columnar
    · rw [EtherDBWriter.prepare_of_columnar _ _ _ columnar]
      constructor
      · intro i sink found
        by_cases new : i = front.length
        · rw [new, AList.lookup_insert, Option.some.injEq] at found
          rw [new, deviceAt_concat, ← found]
          exact ⟨Nat.lt_succ_self _, prepareSink_laidOut batchRows last⟩
        · rw [AList.lookup_insert_ne new] at found
          exact old i sink (laid i sink found).1 (laid i sink found).2
      · intro i inside needed
        by_cases new : i = front.length
        · rw [new, AList.lookup_insert]
          rfl
        · have earlier : i < front.length := by omega
          rw [AList.lookup_insert_ne new]
          exact present i earlier (deviceAt_append_left earlier [last] ▸ needed)
    · rw [EtherDBWriter.prepare_of_not_columnar _ _ _ columnar]
      constructor
      · intro i sink found
        exact old i sink (laid i sink found).1 (laid i sink found).2
      · intro i inside needed
        by_cases new : i = front.length
        · rw [new, deviceAt_concat] at needed
          exact absurd needed columnar
        · have earlier : i < front.length := by omega
          exact present i earlier (deviceAt_append_left earlier [last] ▸ needed)

/-- **Every reachable writer is ready.** -/
theorem WriterReachable.ready {batchRows : Int} {db : Config} {writer : EtherDBWriter}
    (reachable : WriterReachable batchRows db writer) : writer.Ready db := by
  induction reachable with
  | start =>
    obtain ⟨laid, present⟩ := prepare_ready batchRows db.devices
    exact ⟨fun {i sink} found => (laid i sink found).2, fun {i} => present i⟩
  | @batch writer answer batch _ ih =>
    unfold EtherDBWriter.writeBatch
    split
    · exact ih
    rename_i ptr _
    simp only
    split
    · exact ih
    split
    · exact ih
    rename_i sink found
    obtain ⟨_, _, kept⟩ := writeLoop_stages answer (deviceAt db.devices ptr.addr) batch
      batch.counted writer.stats (ih.laid found) (Nat.le_add_left _ 0)
    refine ⟨fun {i sink'} found' => ?_, fun {i} inside columnar => ?_⟩
    · by_cases same : i = ptr.addr
      · rw [same, AList.lookup_insert, Option.some.injEq] at found'
        rw [same, ← found']
        exact kept
      · rw [AList.lookup_insert_ne same] at found'
        exact ih.laid found'
    · by_cases same : i = ptr.addr
      · rw [same, AList.lookup_insert]
        rfl
      · rw [AList.lookup_insert_ne same]
        exact ih.present inside columnar

/-- A batch of a columnar device goes through the loop. -/
theorem EtherDBWriter.writeBatch_of_columnar {db : Config} {writer : EtherDBWriter}
    (answer : Submission → SdkAnswer) {batch : RowBatch} {ptr : DevicePtr}
    (own : batch.dev = some ptr) (columnar : (deviceAt db.devices ptr.addr).Columnar) {sink : Sink}
    (found : writer.sinks.lookup ptr.addr = some sink) :
    (writer.writeBatch db answer batch).1 =
      (writeLoop answer (deviceAt db.devices ptr.addr) batch batch.counted 0 sink
        writer.stats).1 := by
  have other : ¬ (deviceAt db.devices ptr.addr).connProto = connHttp := by
    intro http
    have served := columnar.2
    rw [http] at served
    exact absurd served (by decide)
  simp only [writeBatch, own, if_neg other, found]

/-- **A batch of a columnar device**: every submission stages the rows it names, and every row is in
one. -/
theorem WriterReachable.writeBatch_stages {batchRows : Int} {db : Config} {writer : EtherDBWriter}
    (reachable : WriterReachable batchRows db writer) (answer : Submission → SdkAnswer)
    {batch : RowBatch} {ptr : DevicePtr} (own : batch.dev = some ptr)
    (present : ptr.addr < db.devices.length) (columnar : (deviceAt db.devices ptr.addr).Columnar) :
    (∀ s ∈ (writer.writeBatch db answer batch).1,
        ∃ sink, s.Stages (deviceAt db.devices ptr.addr) batch sink) ∧
      ∀ r, r < batch.counted →
        ∃ s ∈ (writer.writeBatch db answer batch).1, s.done ≤ r ∧ r < s.done + s.rows := by
  obtain ⟨sink, found⟩ := Option.isSome_iff_exists.mp (reachable.ready.present present columnar)
  obtain ⟨staged, covered, _⟩ := writeLoop_stages answer (deviceAt db.devices ptr.addr) batch
    batch.counted writer.stats (reachable.ready.laid found) (Nat.le_add_left _ 0)
  rw [EtherDBWriter.writeBatch_of_columnar answer own columnar found]
  exact ⟨staged, fun r => covered r (Nat.zero_le r)⟩

end EtherAdapter
