/-
**Parse to write: no row is lost, duplicated, reordered or given to another device.**

At every point of a run of the parser thread and for every device: the rows of the batches enqueued
for it, in order, followed by the rows pending in its batch, are the rows the codec pushed for it.

* `RowBatch.rows` — a batch read back as rows.
* `Accounted` — the invariant; `Accounted.moves` is its step lemma, `accounted_of_reachable` its run
  lemma.
* `ParserRun.PushedInOrder` — the pushed rows are what the codec found in the chunks.
* **`rows_accounted`** — the accounting itself, the shape of the enqueued batches, and that nothing
  is pending once the thread has left its loop.
-/

import EtherAdapter.Model.Parser
import EtherAdapter.Codec.RoundTrip

namespace EtherAdapter

open Runs

/-! ### A batch read back -/

/-- Row-major storage read back: the timestamps, each with its row of cells. -/
def unflatten (columns : ℕ) : List Int → List Cell → List (Int × List Cell)
  | [], _ => []
  | t :: ts, cells => (t, cells.take columns) :: unflatten columns ts (cells.drop columns)

theorem unflatten_append {columns : ℕ} {t : Int} {row : List Cell} (width : row.length = columns)
    (ts : List Int) (cells : List Cell) (size : cells.length = ts.length * columns) :
    unflatten columns (ts ++ [t]) (cells ++ row) = unflatten columns ts cells ++ [(t, row)] := by
  induction ts generalizing cells with
  | nil =>
    rw [List.length_nil, Nat.zero_mul, List.length_eq_zero_iff] at size
    rw [size, List.nil_append, List.nil_append, unflatten, unflatten, unflatten, List.nil_append,
      ← width, List.take_length]
  | cons first ts ih =>
    rw [List.length_cons, Nat.add_mul, Nat.one_mul] at size
    rw [List.cons_append, unflatten, unflatten, List.take_append_of_le_length (by omega),
      List.drop_append_of_le_length (by omega), ih _ (by rw [List.length_drop]; omega),
      List.cons_append]

namespace RowBatch

/-- The rows of a batch. -/
def rows (batch : RowBatch) : List (Int × List Cell) :=
  unflatten batch.columns batch.ts batch.cells

/-- A batch of the device: `cells.size() == rows * columns`. -/
structure Of (dev : DevicePtr) (batch : RowBatch) : Prop where
  owner : batch.dev = some dev
  cells : batch.cells.length = batch.ts.length * dev.desc.fieldCount

theorem Of.columns {dev : DevicePtr} {batch : RowBatch} (own : batch.Of dev) :
    batch.columns = dev.desc.fieldCount := by
  rw [RowBatch.columns, own.owner]
  rfl

theorem Of.pushRow {dev : DevicePtr} {batch : RowBatch} (own : batch.Of dev) {t : Int}
    {row : List Cell} (width : row.length = dev.desc.fieldCount) :
    (batch.pushRow t row).Of dev ∧ (batch.pushRow t row).rows = batch.rows ++ [(t, row)] := by
  have whole : row.take batch.columns = row := by
    rw [own.columns, ← width, List.take_length]
  constructor
  · refine ⟨own.owner, ?_⟩
    rw [RowBatch.pushRow, whole, List.length_append, List.length_append, own.cells, width,
      Nat.add_mul, List.length_singleton, Nat.one_mul]
  · have same : (batch.pushRow t row).columns = batch.columns := rfl
    rw [rows, same, RowBatch.pushRow, whole, unflatten_append (by rw [own.columns, width]) _ _
      (by rw [own.columns, own.cells]), rows]

theorem rows_of_isEmpty {batch : RowBatch} (empty : batch.isEmpty = true) : batch.rows = [] := by
  rw [rows, List.isEmpty_iff.mp empty, unflatten]

end RowBatch

/-- The rows of a device in a sequence of batches. -/
def batchRows (dev : DevicePtr) (batches : List RowBatch) : List (Int × List Cell) :=
  (batches.filter fun batch => batch.dev = some dev).flatMap RowBatch.rows

theorem batchRows_concat (dev : DevicePtr) (batches : List RowBatch) (batch : RowBatch) :
    batchRows dev (batches ++ [batch]) =
      batchRows dev batches ++ if batch.dev = some dev then batch.rows else [] := by
  rw [batchRows, batchRows, List.filter_append, List.flatMap_append]
  congr 1
  by_cases owner : batch.dev = some dev <;> simp [owner]

/-- The rows of a device among the pushed ones. -/
def deviceRows (dev : DevicePtr) (rows : List Row) : List (Int × List Cell) :=
  (rows.filter fun row => row.dev = dev).map fun row => (row.ts, row.cells)

theorem deviceRows_concat (dev : DevicePtr) (rows : List Row) (row : Row) :
    deviceRows dev (rows ++ [row]) =
      deviceRows dev rows ++ if row.dev = dev then [(row.ts, row.cells)] else [] := by
  rw [deviceRows, deviceRows, List.filter_append, List.map_append]
  congr 1
  by_cases owner : row.dev = dev <;> simp [owner]

/-! ### The books -/

namespace ParserRun

/-- The rows of the batches enqueued so far for a device, in enqueue order. -/
def sentRows (run : ParserRun) (dev : DevicePtr) : List (Int × List Cell) := batchRows dev run.sent

/-- The rows pending in a device's batch. -/
def pendingRows (run : ParserRun) (dev : DevicePtr) : List (Int × List Cell) :=
  (run.worker.batch dev).rows

/-- The rows the codec pushed for a device. -/
def pushedRows (run : ParserRun) (dev : DevicePtr) : List (Int × List Cell) :=
  deviceRows dev run.pushed

/-- The rows the codec found in the current chunk and has not pushed yet. -/
def inFlight (run : ParserRun) : List Row :=
  match run.pc with
  | .pushing rows => rows
  | _ => []

/-- The rows the codec found in the chunks fed to it, in order. -/
def decoded (run : ParserRun) : List Row := run.fed.flatMap Prod.snd

/-- Flushing a device does nothing, or moves out its batch and leaves an empty one. -/
theorem flush_cases (run : ParserRun) (dev : DevicePtr) :
    (run.flush dev = run ∧ (run.worker.batch dev).isEmpty = true) ∨
      ∃ batch, run.worker.batches.lookup dev = some batch ∧ batch.isEmpty = false ∧
        (run.flush dev).sent = run.sent ++ [batch] ∧
        ∀ other, (run.flush dev).worker.batches.lookup other =
          if other = dev then some { dev := some dev } else run.worker.batches.lookup other := by
  obtain ⟨kept, empty⟩ | ⟨batch, present, nonempty, moved⟩ := run.worker.flushDevice_cases dev
  · refine Or.inl ⟨?_, empty⟩
    rw [flush, kept, Option.toList_none, List.append_nil]
  · refine Or.inr ⟨batch, present, nonempty, ?_, fun other => ?_⟩
    · simp only [flush, moved, Option.toList_some]
    · simp only [flush, moved]
      by_cases same : other = dev
      · rw [if_pos same, same, AList.lookup_insert]
      · rw [if_neg same, AList.lookup_insert_ne same]

/-- What the codec found is pushed in order, up to the rows still in flight. -/
def PushedInOrder (run : ParserRun) : Prop := run.pushed ++ run.inFlight = run.decoded

theorem PushedInOrder.moves {run run' : ParserRun} {event : ParserEvent}
    (before : run.PushedInOrder) (step : run.Moves event run') : run'.PushedInOrder := by
  unfold PushedInOrder inFlight at before
  cases step with
  | goOn here | leave here _ | idle here _ | ignore here _ | pushed here | flush here _
    | keep here _ | flushed here | flushAll here | exit here | resume here =>
    rw [here] at before
    exact before
  | @take chunk group here known some =>
    rw [here] at before
    show run.pushed ++ (run.worker.receive group chunk).2 =
      (run.fed ++ [(chunk, (run.worker.receive group chunk).2)]).flatMap Prod.snd
    rw [List.flatMap_append, List.flatMap_singleton, ← decoded, ← before, List.append_nil]
  | @push row rows here =>
    rw [here] at before
    show (run.pushed ++ [row]) ++ rows = run.decoded
    rw [← before, List.append_assoc, List.singleton_append]

end ParserRun

/-- **The invariant of the parser thread.** -/
structure Accounted (run : ParserRun) : Prop where
  own : ∀ {dev batch}, run.worker.batches.lookup dev = some batch → batch.Of dev
  sent : ∀ batch ∈ run.sent, batch.isEmpty = false ∧ ∃ dev, batch.Of dev
  rows : ∀ dev, run.sentRows dev ++ run.pendingRows dev = run.pushedRows dev
  /-- The codec pushes rows of the right width. -/
  width : ∀ {rows}, run.pc = .pushing rows →
    ∀ row ∈ rows, row.cells.length = row.dev.desc.fieldCount
  /-- `flushAll` has every batch with rows still in front of it. -/
  todo : ∀ {todo last}, run.pc = .flushingAll todo last →
    ∀ dev, (run.worker.batch dev).isEmpty = false → dev ∈ todo
  done : run.pc = .exited → ∀ dev, (run.worker.batch dev).isEmpty = true

namespace Accounted

variable {run : ParserRun}

/-- The books do not depend on where the thread stands. -/
theorem of_pc (accounted : Accounted run) {pc : Pc}
    (width : ∀ {rows}, pc = .pushing rows →
      ∀ row ∈ rows, row.cells.length = row.dev.desc.fieldCount)
    (todo : ∀ {todo last}, pc = .flushingAll todo last →
      ∀ dev, (run.worker.batch dev).isEmpty = false → dev ∈ todo)
    (done : pc = .exited → ∀ dev, (run.worker.batch dev).isEmpty = true) :
    Accounted { run with pc } :=
  ⟨accounted.own, accounted.sent, accounted.rows, width, todo, done⟩

/-- Every batch with rows has a key for `flushAll` to visit. -/
theorem mem_order {order : List DevicePtr} (all : order.Perm run.worker.batches.keys)
    {dev : DevicePtr} (nonempty : (run.worker.batch dev).isEmpty = false) : dev ∈ order := by
  rw [all.mem_iff, ← AList.mem_keys, ← AList.lookup_isSome]
  unfold ParserWorker.batch at nonempty
  cases present : run.worker.batches.lookup dev with
  | none =>
    rw [present] at nonempty
    cases nonempty
  | some batch => rfl

/-- Starting on a chunk moves no row. -/
theorem receive (accounted : Accounted run) (group : GroupPtr) (chunk : RawChunk) :
    Accounted { run with
      pc := .pushing (run.worker.receive group chunk).2
      worker := (run.worker.receive group chunk).1
      fed := run.fed ++ [(chunk, (run.worker.receive group chunk).2)] } where
  own := accounted.own
  sent := accounted.sent
  rows := accounted.rows
  width := by
    rintro rows ⟨⟩ row member
    exact ParserWorker.feedChunk_wide group _ chunk row member
  todo := nofun
  done := nofun

/-- The batch a row joins is its device's own, or fresh. -/
theorem openBatch (accounted : Accounted run) (dev : DevicePtr) :
    (run.worker.openBatch dev).Of dev ∧ (run.worker.openBatch dev).rows = run.pendingRows dev := by
  unfold ParserRun.pendingRows ParserWorker.openBatch ParserWorker.batch
  cases present : run.worker.batches.lookup dev with
  | none => exact ⟨⟨rfl, (Nat.zero_mul _).symm⟩, rfl⟩
  | some batch =>
    have own := accounted.own present
    have keep : ¬ batch.dev.isNone = true := by
      rw [own.owner]
      exact Bool.false_ne_true
    simp only [Option.getD_some, if_neg keep, and_true]
    exact own

/-- **A pushed row joins the pending rows of its device.** -/
theorem push (accounted : Accounted run) {row : Row} {rows : List Row}
    (here : run.pc = .pushing (row :: rows)) :
    Accounted { run with
      pc := .pushing rows
      worker := run.worker.appendRow row
      pushed := run.pushed ++ [row] } := by
  have width := accounted.width here row List.mem_cons_self
  have start := accounted.openBatch row.dev
  have grown : ((run.worker.openBatch row.dev).pushRow row.ts row.cells).Of row.dev ∧
      ((run.worker.openBatch row.dev).pushRow row.ts row.cells).rows =
        (run.worker.openBatch row.dev).rows ++ [(row.ts, row.cells)] := start.1.pushRow width
  refine ⟨fun {dev batch} present => ?_, accounted.sent, fun dev => ?_, fun {rows'} pushing => ?_,
    fun {_ _} stands => ?_, fun stands => ?_⟩
  · by_cases same : dev = row.dev
    · rw [same] at present ⊢
      rw [ParserWorker.lookup_appendRow] at present
      cases present
      exact grown.1
    · rw [ParserWorker.lookup_appendRow_ne _ same] at present
      exact accounted.own present
  · have before := accounted.rows dev
    by_cases same : dev = row.dev
    · rw [same] at before ⊢
      have pending : (run.worker.appendRow row).batch row.dev =
          (run.worker.openBatch row.dev).pushRow row.ts row.cells := by
        rw [ParserWorker.batch, ParserWorker.lookup_appendRow, Option.getD_some]
      show run.sentRows row.dev ++ ((run.worker.appendRow row).batch row.dev).rows =
        deviceRows row.dev (run.pushed ++ [row])
      rw [pending, grown.2, start.2, ← List.append_assoc, before, deviceRows_concat, if_pos rfl]
      rfl
    · have pending : (run.worker.appendRow row).batch dev = run.worker.batch dev := by
        rw [ParserWorker.batch, ParserWorker.lookup_appendRow_ne _ same, ← ParserWorker.batch]
      show run.sentRows dev ++ ((run.worker.appendRow row).batch dev).rows =
        deviceRows dev (run.pushed ++ [row])
      rw [pending, ← ParserRun.pendingRows, before, deviceRows_concat,
        if_neg fun equal => same equal.symm, List.append_nil]
      rfl
  · cases pushing
    exact fun other member => accounted.width here other (List.mem_cons_of_mem _ member)
  · cases stands
  · cases stands

/-- **Flushing a device moves its pending rows behind its enqueued ones**, and nothing else. -/
theorem flush (accounted : Accounted run) (dev : DevicePtr) :
    (∀ {other batch}, (run.flush dev).worker.batches.lookup other = some batch → batch.Of other) ∧
      (∀ batch ∈ (run.flush dev).sent, batch.isEmpty = false ∧ ∃ owner, batch.Of owner) ∧
      (∀ other, (run.flush dev).sentRows other ++ (run.flush dev).pendingRows other =
        (run.flush dev).pushedRows other) ∧
      ((run.flush dev).worker.batch dev).isEmpty = true ∧
      ∀ other, ((run.flush dev).worker.batch other).isEmpty = false →
        (run.worker.batch other).isEmpty = false := by
  obtain ⟨same, empty⟩ | ⟨batch, present, nonempty, sent, lookup⟩ := run.flush_cases dev
  · rw [same]
    exact ⟨accounted.own, accounted.sent, accounted.rows, empty, fun _ nonempty => nonempty⟩
  · have own := accounted.own present
    refine ⟨fun {other found} here => ?_, fun found member => ?_, fun other => ?_, ?_,
      fun other still => ?_⟩
    · rw [lookup] at here
      split at here
      · rename_i same
        cases here
        rw [same]
        exact ⟨rfl, (Nat.zero_mul _).symm⟩
      · exact accounted.own here
    · rw [sent] at member
      rcases List.mem_append.mp member with before | last
      · exact accounted.sent found before
      · rcases List.mem_singleton.mp last with rfl
        exact ⟨nonempty, dev, own⟩
    · have before := accounted.rows other
      have pushed : (run.flush dev).pushedRows other = run.pushedRows other := rfl
      rw [pushed, ← before, ParserRun.sentRows, sent, batchRows_concat, ParserRun.pendingRows,
        ParserWorker.batch, lookup]
      by_cases same : other = dev
      · have pending : run.pendingRows dev = batch.rows := by
          rw [ParserRun.pendingRows, ParserWorker.batch, present, Option.getD_some]
        rw [same, if_pos rfl, if_pos own.owner, pending, ParserRun.sentRows, Option.getD_some]
        exact List.append_nil _
      · have notOwner : ¬ batch.dev = some other := by
          rw [own.owner, Option.some.injEq]
          exact fun equal => same equal.symm
        rw [if_neg same, if_neg notOwner, List.append_nil]
        rfl
    · rw [ParserWorker.batch, lookup, if_pos rfl]
      rfl
    · rw [ParserWorker.batch, lookup] at still
      split at still
      · cases still
      · exact still

/-- **Every step keeps the books.** -/
theorem moves {run' : ParserRun} {event : ParserEvent} (accounted : Accounted run)
    (step : run.Moves event run') : Accounted run' := by
  cases step with
  | goOn here | ignore here useless | pushed here | keep here early | flushed here | resume here =>
    exact accounted.of_pc nofun nofun nofun
  | leave here all | idle here all =>
    refine accounted.of_pc nofun (fun stands => ?_) nofun
    cases stands
    exact fun dev nonempty => mem_order all nonempty
  | take here known some => exact accounted.receive _ _
  | push here => exact accounted.push here
  | flush here due =>
    obtain ⟨own, sent, rows, _⟩ := accounted.flush _
    exact ⟨own, sent, rows, nofun, nofun, nofun⟩
  | @flushAll dev todo last here =>
    obtain ⟨own, sent, rows, empty, others⟩ := accounted.flush dev
    refine ⟨own, sent, rows, nofun, fun stands => ?_, nofun⟩
    cases stands
    intro other nonempty
    have before := accounted.todo here other (others other nonempty)
    rcases List.mem_cons.mp before with rfl | later
    · rw [show (run.flush other).worker.batch other = _ from rfl, empty] at nonempty
      cases nonempty
    · exact later
  | exit here =>
    refine accounted.of_pc nofun nofun fun _ dev => ?_
    by_contra nonempty
    cases accounted.todo here dev (Bool.eq_false_iff.mpr nonempty)

/-- The books of a thread that has done nothing yet. -/
theorem start (batchRows : Int) : Accounted (ParserRun.start batchRows) := by
  have empty : ∀ dev, (ParserRun.start batchRows).worker.batches.lookup dev = none :=
    fun dev => AList.lookup_empty dev
  refine ⟨fun {dev batch} present => ?_, fun batch member => absurd member List.not_mem_nil,
    fun dev => ?_, nofun, nofun, nofun⟩
  · rw [empty] at present
    cases present
  · rw [ParserRun.pendingRows, ParserWorker.batch, empty]
    rfl

end Accounted

theorem accounted_of_reachable {batchRows : Int} {run : ParserRun}
    (reachable : ParserRun.Reachable batchRows run) : Accounted run :=
  Reach.invariant reachable (Accounted.start batchRows)
    fun _ _ _ accounted _ moved => accounted.moves (ParserRun.moves_of_next moved)

theorem pushedInOrder_of_reachable {batchRows : Int} {run : ParserRun}
    (reachable : ParserRun.Reachable batchRows run) : run.PushedInOrder :=
  Reach.invariant reachable rfl
    fun _ _ _ before _ moved => before.moves (ParserRun.moves_of_next moved)

/-- **No row is lost, duplicated, reordered or misattributed**, at any point of any run: for every
device, what was enqueued followed by what is pending is what the codec pushed, which is what it
found in the chunks, in order. Every enqueued batch has rows, all as wide as its device's field
table, and nothing is pending when the thread ends. -/
theorem rows_accounted {batchRows : Int} {run : ParserRun}
    (reachable : ParserRun.Reachable batchRows run) :
    (∀ dev, run.sentRows dev ++ run.pendingRows dev = run.pushedRows dev) ∧
      run.PushedInOrder ∧
      (∀ batch ∈ run.sent, batch.ts ≠ [] ∧ ∃ dev, batch.dev = some dev ∧
        batch.cells.length = batch.ts.length * dev.desc.fieldCount) ∧
      (run.pc = .exited →
        ∀ dev batch, run.worker.batches.lookup dev = some batch → batch.ts = []) := by
  have accounted := accounted_of_reachable reachable
  refine ⟨accounted.rows, pushedInOrder_of_reachable reachable, fun batch member => ?_,
    fun exited dev batch present => ?_⟩
  · obtain ⟨nonempty, dev, own⟩ := accounted.sent batch member
    refine ⟨fun none => ?_, dev, own.owner, own.cells⟩
    rw [RowBatch.isEmpty, none] at nonempty
    cases nonempty
  · have empty := accounted.done exited dev
    rw [ParserWorker.batch, present, Option.getD_some] at empty
    exact List.isEmpty_iff.mp empty

/-- A chunk with a status frame and an event frame of the fixture endpoint. -/
def fixtureChunk : RawChunk :=
  { group := some ⟨0, fixtureGroup⟩
    recvMs := 7
    data := fixtureItems.flatMap NoisyFrame.bytes }

/-- The thread takes the chunk, flushes the status row at once and the event rows at its end. -/
def fixtureEvents : List ParserEvent :=
  [.goOn, .take fixtureChunk] ++ List.replicate 7 .work ++ [.leave [eventDevice, statusDevice]] ++
    List.replicate 3 .work

theorem rows_accounted_fixture :
    ∃ run, play ParserRun.next anyStep (ParserRun.start 10) fixtureEvents = some run ∧
      run.pc = .exited ∧ run.sent.length = 2 ∧
      run.sentRows eventDevice ++ run.pendingRows eventDevice = run.pushedRows eventDevice := by
  obtain ⟨run, done⟩ := Option.isSome_iff_exists.mp (by decide :
    (play ParserRun.next anyStep (ParserRun.start 10) fixtureEvents).isSome = true)
  have shape : (play ParserRun.next anyStep (ParserRun.start 10) fixtureEvents).map
      (fun run => (run.pc, run.sent.length)) = some (.exited, 2) := by decide
  rw [done, Option.map_some, Option.some.injEq, Prod.mk.injEq] at shape
  exact ⟨run, done, shape.1, shape.2,
    (rows_accounted (Reach.of_play .start done)).1 eventDevice⟩

end EtherAdapter
