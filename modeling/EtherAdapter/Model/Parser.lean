/-
**The parser thread** (`ParserWorker.cpp`, `Pipeline.h`).

`ParserWorker` is the thread's own data: the streams by peer group, the row batches by device, the
devices touched by the current chunk. `ParserRun` is the thread in the middle of its loop: where it
stands (`Pc`), and the history of what went in and out: the chunks fed to the codec, the rows the
codec pushed, the batches enqueued for the writer.

One step of the thread is `ParserRun.next`, an executable function of an event. The events are what
the thread does not decide itself: the value the loop condition reads, whether a chunk arrives
before the timeout, and the order in which a walk over an unordered map visits its keys.
-/

import Mathlib.Data.List.AList
import EtherAdapter.Runs.Basic
import EtherAdapter.Model.Feed
import EtherAdapter.Model.Modbus

namespace EtherAdapter

open Runs

/-! ### Chunks and batches -/

/-- Network thread to parser thread: a run of bytes received on one connection. -/
structure RawChunk where
  group : Option GroupPtr
  recvMs : Int
  data : Bytes
deriving DecidableEq, Repr

/-- Parser thread to writer thread, with flattened row-major storage. -/
structure RowBatch where
  dev : Option DevicePtr := none
  ts : List Int := []
  cells : List Cell := []
deriving DecidableEq, Repr

namespace RowBatch

/-- `(int)ts.size()`. -/
def rowCount (batch : RowBatch) : Int := intSize batch.ts.length

def isEmpty (batch : RowBatch) : Bool := batch.ts.isEmpty

/-- `dev->fieldCount()`. -/
def columns (batch : RowBatch) : ℕ := (batch.dev.map fun dev => dev.desc.fieldCount).getD 0

def pushRow (batch : RowBatch) (t : Int) (row : List Cell) : RowBatch :=
  { batch with ts := batch.ts ++ [t], cells := batch.cells ++ row.take batch.columns }

/-- The rows that a loop up to `rowCount()` goes through. -/
def counted (batch : RowBatch) : ℕ := batch.rowCount.toNat

theorem counted_le (batch : RowBatch) : batch.counted ≤ batch.ts.length := toNat_intSize_le _

/-- **All rows are counted exactly if there are less than `2 ^ 31`.** -/
theorem counted_eq_iff {batch : RowBatch} :
    batch.counted = batch.ts.length ↔ batch.ts.length < 2 ^ 31 := toNat_intSize_eq_iff

theorem lt_rowCount_iff {batch : RowBatch} {done : ℕ} :
    (done : Int) < batch.rowCount ↔ done < batch.counted := Int.lt_toNat.symm

theorem toNat_rowCount_sub (batch : RowBatch) (done : ℕ) :
    (batch.rowCount - done).toNat = batch.counted - done := Int.toNat_sub' _ _

end RowBatch

/-! ### The thread's own data -/

structure ParserWorker where
  batchRows : ℕ := 1
  streams : AList (fun _ : GroupPtr => DeviceStream) := ∅
  batches : AList (fun _ : DevicePtr => RowBatch) := ∅
  touched : List DevicePtr := []

namespace ParserWorker

/-- The stream of a group, created on first data. -/
def stream (worker : ParserWorker) (group : GroupPtr) : DeviceStream :=
  (worker.streams.lookup group).getD {}

/-- `_batches[dev]`. -/
def batch (worker : ParserWorker) (dev : DevicePtr) : RowBatch :=
  (worker.batches.lookup dev).getD {}

/-- `_batches[dev]`, ready for rows of the device. -/
def openBatch (worker : ParserWorker) (dev : DevicePtr) : RowBatch :=
  let batch := worker.batch dev
  if batch.dev.isNone then { batch with dev := some dev } else batch

/-- The sink callback: one decoded record joins its device's batch. -/
def appendRow (worker : ParserWorker) (row : Row) : ParserWorker :=
  { worker with
    batches := worker.batches.insert row.dev
      ((worker.openBatch row.dev).pushRow row.ts row.cells)
    touched := if worker.touched.getLast? = some row.dev then worker.touched
      else worker.touched ++ [row.dev] }

/-- `flushDevice`, and the batch it enqueues. The moved-from batch is left empty. -/
def flushDevice (worker : ParserWorker) (dev : DevicePtr) : ParserWorker × Option RowBatch :=
  match worker.batches.lookup dev with
  | none => (worker, none)
  | some batch =>
    if batch.isEmpty then (worker, none)
    else ({ worker with batches := worker.batches.insert dev { dev := some dev } }, some batch)

/-- Which slicer serves a group: the Modbus one if its primary member is a Modbus device. -/
def codec (group : DeviceGroup) : DeviceStream → Bytes → Int → DeviceStream × List Row :=
  match group.primary with
  | some first => if first.desc.connProto = connModbus then feedModbus first else feed group
  | none => feed group

/-- One chunk through the codec: the stream afterwards, and the rows pushed. An unconfigured frame
type is reported once, which only marks it as reported. -/
def feedChunk (group : GroupPtr) (st : DeviceStream) (chunk : RawChunk) :
    DeviceStream × List Row :=
  let done := codec group.group st chunk.data chunk.recvMs
  ({ done.1 with unknownTypeLogged := done.1.unknownType }, done.2)

/-- Start on a chunk of a group: feed it and keep the stream. The rows are still to be appended. -/
def receive (worker : ParserWorker) (group : GroupPtr) (chunk : RawChunk) :
    ParserWorker × List Row :=
  let done := feedChunk group (worker.stream group) chunk
  ({ worker with streams := worker.streams.insert group done.1, touched := [] }, done.2)

/-- The test in the loop over `_touched`. -/
def flushDue (worker : ParserWorker) (dev : DevicePtr) : Bool :=
  match worker.batches.lookup dev with
  | none => false
  | some batch =>
    !batch.isEmpty && (dev.desc.immediateFlush || decide (worker.batchRows ≤ batch.rowCount))

theorem lookup_appendRow (worker : ParserWorker) (row : Row) :
    (worker.appendRow row).batches.lookup row.dev =
      some ((worker.openBatch row.dev).pushRow row.ts row.cells) :=
  AList.lookup_insert _

theorem lookup_appendRow_ne (worker : ParserWorker) {row : Row} {dev : DevicePtr}
    (other : dev ≠ row.dev) :
    (worker.appendRow row).batches.lookup dev = worker.batches.lookup dev :=
  AList.lookup_insert_ne other

/-- Flushing leaves everything as it is, or moves out a batch with rows. -/
theorem flushDevice_cases (worker : ParserWorker) (dev : DevicePtr) :
    (worker.flushDevice dev = (worker, none) ∧ (worker.batch dev).isEmpty = true) ∨
      ∃ batch, worker.batches.lookup dev = some batch ∧ batch.isEmpty = false ∧
        worker.flushDevice dev =
          ({ worker with batches := worker.batches.insert dev { dev := some dev } },
            some batch) := by
  unfold flushDevice batch
  cases present : worker.batches.lookup dev with
  | none => exact Or.inl ⟨rfl, rfl⟩
  | some batch =>
    cases empty : batch.isEmpty with
    | true => exact Or.inl ⟨if_pos empty, empty⟩
    | false =>
      refine Or.inr ⟨batch, rfl, empty, ?_⟩
      simp only [empty, if_neg Bool.false_ne_true]

theorem codec_wide (group : DeviceGroup) (st : DeviceStream) (data : Bytes) (recvMs : Int) :
    ∀ row ∈ (codec group st data recvMs).2, row.cells.length = row.dev.desc.fieldCount := by
  unfold codec
  cases group.primary with
  | none => exact feed_wide group st data recvMs
  | some first =>
    by_cases modbus : first.desc.connProto = connModbus
    · simp only [if_pos modbus]
      exact feedModbus_wide first st data recvMs
    · simp only [if_neg modbus]
      exact feed_wide group st data recvMs

/-- **Of a stream, the codec reads the pending bytes only.** -/
theorem codec_congr (group : DeviceGroup) {st other : DeviceStream} (same : st.buf = other.buf)
    (data : Bytes) (recvMs : Int) :
    (codec group st data recvMs).1.buf = (codec group other data recvMs).1.buf ∧
      (codec group st data recvMs).2 = (codec group other data recvMs).2 := by
  have custom : (feed group st data recvMs).1.buf = (feed group other data recvMs).1.buf ∧
      (feed group st data recvMs).2 = (feed group other data recvMs).2 := by
    rw [feed_eq]
    exact DeviceStream.sliced_congr _ same data recvMs
  unfold codec
  cases group.primary with
  | none => exact custom
  | some first =>
    by_cases modbus : first.desc.connProto = connModbus
    · simp only [if_pos modbus]
      by_cases sliceable : first.desc.Sliceable
      · rw [feedModbus_eq sliceable.payloadMin_pos sliceable]
        exact DeviceStream.sliced_congr _ same data recvMs
      · obtain ⟨rows, buf⟩ := feedModbus_idle sliceable st data recvMs
        obtain ⟨rows', buf'⟩ := feedModbus_idle sliceable other data recvMs
        rw [rows, rows', buf, buf', same]
        exact ⟨rfl, rfl⟩
    · simp only [if_neg modbus]
      exact custom

theorem feedChunk_wide (group : GroupPtr) (st : DeviceStream) (chunk : RawChunk) :
    ∀ row ∈ (feedChunk group st chunk).2, row.cells.length = row.dev.desc.fieldCount :=
  codec_wide group.group st chunk.data chunk.recvMs

/-- A chunk leaves in the stream of its group what the codec leaves there. -/
theorem stream_receive (worker : ParserWorker) (group : GroupPtr) (chunk : RawChunk) :
    ((worker.receive group chunk).1.stream group).buf =
      (codec group.group (worker.stream group) chunk.data chunk.recvMs).1.buf := by
  simp only [receive, stream, AList.lookup_insert, Option.getD_some, feedChunk]

theorem stream_receive_ne (worker : ParserWorker) {group other : GroupPtr}
    (different : other ≠ group) (chunk : RawChunk) :
    (worker.receive group chunk).1.stream other = worker.stream other := by
  simp only [receive, stream, AList.lookup_insert_ne different]

end ParserWorker

/-! ### The thread in its loop -/

/-- Where the thread stands. -/
inductive Pc where
  /-- At the loop condition. -/
  | check
  /-- In `wait_dequeue_timed`. -/
  | poll
  /-- Inside the codec, with rows still to be pushed. -/
  | pushing (rows : List Row)
  /-- In the loop over `_touched`. -/
  | flushing (todo : List DevicePtr)
  /-- In `flushAll`, on an idle timeout or for the last time. -/
  | flushingAll (todo : List DevicePtr) (last : Bool)
  | exited
deriving DecidableEq, Repr

/-- The thread, with its history: the chunks fed to the codec, each with the rows the codec found in
it; the rows pushed to the sink; the batches enqueued for the writer. -/
structure ParserRun where
  pc : Pc := .check
  worker : ParserWorker := {}
  fed : List (RawChunk × List Row) := []
  pushed : List Row := []
  sent : List RowBatch := []

/-- What the thread does not decide itself. `order` is the order in which `flushAll` visits
`_batches`. -/
inductive ParserEvent where
  /-- The loop condition reads true. -/
  | goOn
  /-- The loop condition reads false. -/
  | leave (order : List DevicePtr)
  /-- A chunk is dequeued. -/
  | take (chunk : RawChunk)
  /-- The dequeue times out. -/
  | idle (order : List DevicePtr)
  /-- The thread works on. -/
  | work
deriving DecidableEq, Repr

namespace ParserRun

/-- `flushDevice`, with the enqueued batch in the history. -/
def flush (run : ParserRun) (dev : DevicePtr) : ParserRun :=
  { run with
    worker := (run.worker.flushDevice dev).1
    sent := run.sent ++ (run.worker.flushDevice dev).2.toList }

/-- **One step of the thread.** -/
def next (run : ParserRun) : ParserEvent → Option ParserRun
  | .goOn => if run.pc = .check then some { run with pc := .poll } else none
  | .leave order =>
    if run.pc = .check ∧ order.Perm run.worker.batches.keys then
      some { run with pc := .flushingAll order true }
    else none
  | .idle order =>
    if run.pc = .poll ∧ order.Perm run.worker.batches.keys then
      some { run with pc := .flushingAll order false }
    else none
  | .take chunk =>
    if run.pc = .poll then
      match chunk.group with
      | none => some { run with pc := .check }
      | some group =>
        if chunk.data = [] then some { run with pc := .check }
        else
          let done := run.worker.receive group chunk
          some { run with
            pc := .pushing done.2
            worker := done.1
            fed := run.fed ++ [(chunk, done.2)] }
    else none
  | .work =>
    match run.pc with
    | .pushing (row :: rows) =>
      some { run with
        pc := .pushing rows
        worker := run.worker.appendRow row
        pushed := run.pushed ++ [row] }
    | .pushing [] => some { run with pc := .flushing run.worker.touched }
    | .flushing (dev :: todo) =>
      if run.worker.flushDue dev then some { run.flush dev with pc := .flushing todo }
      else some { run with pc := .flushing todo }
    | .flushing [] => some { run with pc := .check }
    | .flushingAll (dev :: todo) last => some { run.flush dev with pc := .flushingAll todo last }
    | .flushingAll [] true => some { run with pc := .exited }
    | .flushingAll [] false => some { run with pc := .check }
    | _ => none

/-- **Everything a step can do**, as a relation. -/
inductive Moves (run : ParserRun) : ParserEvent → ParserRun → Prop where
  | goOn (here : run.pc = .check) : Moves run .goOn { run with pc := .poll }
  | leave {order : List DevicePtr} (here : run.pc = .check)
      (all : order.Perm run.worker.batches.keys) :
      Moves run (.leave order) { run with pc := .flushingAll order true }
  | idle {order : List DevicePtr} (here : run.pc = .poll)
      (all : order.Perm run.worker.batches.keys) :
      Moves run (.idle order) { run with pc := .flushingAll order false }
  | ignore {chunk : RawChunk} (here : run.pc = .poll)
      (useless : chunk.group = none ∨ chunk.data = []) :
      Moves run (.take chunk) { run with pc := .check }
  | take {chunk : RawChunk} {group : GroupPtr} (here : run.pc = .poll)
      (known : chunk.group = some group) (some : chunk.data ≠ []) :
      Moves run (.take chunk) { run with
        pc := .pushing (run.worker.receive group chunk).2
        worker := (run.worker.receive group chunk).1
        fed := run.fed ++ [(chunk, (run.worker.receive group chunk).2)] }
  | push {row : Row} {rows : List Row} (here : run.pc = .pushing (row :: rows)) :
      Moves run .work { run with
        pc := .pushing rows
        worker := run.worker.appendRow row
        pushed := run.pushed ++ [row] }
  | pushed (here : run.pc = .pushing []) :
      Moves run .work { run with pc := .flushing run.worker.touched }
  | flush {dev : DevicePtr} {todo : List DevicePtr} (here : run.pc = .flushing (dev :: todo))
      (due : run.worker.flushDue dev = true) :
      Moves run .work { run.flush dev with pc := .flushing todo }
  | keep {dev : DevicePtr} {todo : List DevicePtr} (here : run.pc = .flushing (dev :: todo))
      (early : run.worker.flushDue dev = false) : Moves run .work { run with pc := .flushing todo }
  | flushed (here : run.pc = .flushing []) : Moves run .work { run with pc := .check }
  | flushAll {dev : DevicePtr} {todo : List DevicePtr} {last : Bool}
      (here : run.pc = .flushingAll (dev :: todo) last) :
      Moves run .work { run.flush dev with pc := .flushingAll todo last }
  | exit (here : run.pc = .flushingAll [] true) : Moves run .work { run with pc := .exited }
  | resume (here : run.pc = .flushingAll [] false) : Moves run .work { run with pc := .check }

theorem moves_of_next {run run' : ParserRun} {event : ParserEvent}
    (step : run.next event = some run') : Moves run event run' := by
  cases event with
  | goOn =>
    obtain ⟨here, step⟩ := Option.ite_none_right_eq_some.mp step
    cases step
    exact .goOn here
  | leave order =>
    obtain ⟨⟨here, all⟩, step⟩ := Option.ite_none_right_eq_some.mp step
    cases step
    exact .leave here all
  | idle order =>
    obtain ⟨⟨here, all⟩, step⟩ := Option.ite_none_right_eq_some.mp step
    cases step
    exact .idle here all
  | take chunk =>
    obtain ⟨here, step⟩ := Option.ite_none_right_eq_some.mp step
    cases known : chunk.group with
    | none =>
      rw [known] at step
      cases step
      exact .ignore here (Or.inl known)
    | some group =>
      rw [known] at step
      by_cases empty : chunk.data = []
      · simp only [if_pos empty] at step
        cases step
        exact .ignore here (Or.inr empty)
      · simp only [if_neg empty] at step
        cases step
        exact .take here known empty
  | work =>
    unfold next at step
    simp only at step
    split at step
    · rename_i here
      cases step
      exact .push here
    · rename_i here
      cases step
      exact .pushed here
    · rename_i here
      split at step
      · rename_i due
        cases step
        exact .flush here due
      · rename_i early
        cases step
        exact .keep here (Bool.eq_false_iff.mpr early)
    · rename_i here
      cases step
      exact .flushed here
    · rename_i here
      cases step
      exact .flushAll here
    · rename_i here
      cases step
      exact .exit here
    · rename_i here
      cases step
      exact .resume here
    · cases step

/-- The thread at its start; a batch holds at least one row. -/
def start (batchRows : Int) : ParserRun :=
  { worker := { batchRows := if 0 < batchRows then batchRows.toNat else 1 } }

/-- The runs of the thread on its own: any events, in any order. -/
def Reachable (batchRows : Int) : ParserRun → Prop := Reach next anyStep (start batchRows)

end ParserRun

end EtherAdapter
