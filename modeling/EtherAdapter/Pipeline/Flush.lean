/-
**The flush discipline of the parser thread.**

* `ParserRun.toFlush` — the devices the current iteration still has to look at.
* `ParserRun.Disciplined` — the invariant: a batch that is overdue has its device on that list;
  `disciplined_of_reach` is its run lemma. Its condition is that the row count tested is less than
  `2 ^ 31`: at `2 ^ 31` the `int` is negative, and the batch stays.
* `ParserRun.Drains` — what an idle iteration goes through: every batch with rows is in front of
  `flushAll`, until the loop condition is reached again.
* **`pending_rows_bounded`** — at the loop condition no batch is overdue, and none has a row after an
  idle timeout.
* `EventsPending.take` — a chunk that the test does not find enough. So a batch gets past the largest
  size there is (`pending_rows_unbounded`).
-/

import EtherAdapter.Pipeline.Accounting

namespace EtherAdapter

open Runs

namespace ParserWorker

/-! ### When a batch is due -/

/-- The number of rows pending for a device. -/
def pending (worker : ParserWorker) (dev : DevicePtr) : ℕ := (worker.batch dev).ts.length

/-- **A batch that should be flushed**: it has rows, and its device is not batched or it has reached
the size of a batch. -/
def Overdue (worker : ParserWorker) (dev : DevicePtr) : Prop :=
  worker.pending dev ≠ 0 ∧
    (dev.desc.immediateFlush = true ∨ worker.batchRows ≤ worker.pending dev)

theorem pending_eq_zero_iff {worker : ParserWorker} {dev : DevicePtr} :
    worker.pending dev = 0 ↔ (worker.batch dev).isEmpty = true := by
  rw [pending, RowBatch.isEmpty, List.isEmpty_iff, List.length_eq_zero_iff]

theorem flushDue_eq (worker : ParserWorker) (dev : DevicePtr) :
    worker.flushDue dev = (!(worker.batch dev).isEmpty &&
      (dev.desc.immediateFlush || decide (worker.batchRows ≤ (worker.batch dev).rowCount))) := by
  unfold flushDue batch
  cases worker.batches.lookup dev with
  | none => rfl
  | some batch => rfl

/-- **The test is right as long as the row count has not wrapped.** -/
theorem flushDue_iff {worker : ParserWorker} {dev : DevicePtr}
    (counts : dev.desc.immediateFlush = true ∨ worker.pending dev < 2 ^ 31) :
    worker.flushDue dev = true ↔ worker.Overdue dev := by
  have rows : (worker.batch dev).isEmpty = false ↔ worker.pending dev ≠ 0 := by
    rw [ne_eq, pending_eq_zero_iff, Bool.not_eq_true]
  rw [flushDue_eq, Bool.and_eq_true, Bool.not_eq_true', rows, Bool.or_eq_true, decide_eq_true_iff,
    Overdue]
  rcases counts with immediate | small
  · simp only [immediate, true_or]
  · have count : (worker.batch dev).rowCount = worker.pending dev := intSize_of_lt small
    rw [count, Int.ofNat_le]

/-- Of the worker, it takes the batches and the batch size. -/
theorem overdue_congr {worker other : ParserWorker} {dev : DevicePtr}
    (size : worker.batchRows = other.batchRows)
    (same : worker.batches.lookup dev = other.batches.lookup dev) :
    worker.Overdue dev ↔ other.Overdue dev := by
  unfold Overdue pending batch
  rw [same, size]

/-- **A row makes its own device overdue at most**, and puts it on the list of touched devices. -/
theorem mem_touched_appendRow {worker : ParserWorker}
    (listed : ∀ dev, worker.Overdue dev → dev ∈ worker.touched) (row : Row) :
    ∀ dev, (worker.appendRow row).Overdue dev → dev ∈ (worker.appendRow row).touched := by
  intro dev due
  rw [appendRow]
  by_cases same : dev = row.dev
  · by_cases last : worker.touched.getLast? = some row.dev
    · simp only [if_pos last]
      rw [same]
      exact List.mem_of_getLast? last
    · simp only [if_neg last]
      rw [same]
      exact List.mem_append_right _ List.mem_cons_self
  · have unchanged : (worker.appendRow row).Overdue dev ↔ worker.Overdue dev :=
      overdue_congr rfl (lookup_appendRow_ne worker same)
    have before := listed dev (unchanged.mp due)
    by_cases last : worker.touched.getLast? = some row.dev
    · simp only [if_pos last]
      exact before
    · simp only [if_neg last]
      exact List.mem_append_left _ before

theorem batchRows_flushDevice (worker : ParserWorker) (dev : DevicePtr) :
    (worker.flushDevice dev).1.batchRows = worker.batchRows := by
  obtain ⟨kept, _⟩ | ⟨batch, _, _, moved⟩ := worker.flushDevice_cases dev
  · rw [kept]
  · rw [moved]

/-- A flushed device is not overdue; the others are as they were. -/
theorem overdue_flushDevice {worker : ParserWorker} {dev other : DevicePtr}
    (due : (worker.flushDevice dev).1.Overdue other) : other ≠ dev ∧ worker.Overdue other := by
  obtain ⟨kept, empty⟩ | ⟨batch, _, _, moved⟩ := worker.flushDevice_cases dev
  · rw [kept] at due
    refine ⟨fun same => ?_, due⟩
    rw [same] at due
    exact due.1 (pending_eq_zero_iff.mpr empty)
  · rw [moved] at due
    have differ : other ≠ dev := by
      intro same
      have inserted : (worker.batches.insert dev { dev := some dev }).lookup dev =
          some { dev := some dev } := AList.lookup_insert _
      refine due.1 (pending_eq_zero_iff.mpr ?_)
      rw [same, ParserWorker.batch, inserted]
      rfl
    have unchanged : ({ worker with batches := worker.batches.insert dev { dev := some dev } } :
        ParserWorker).Overdue other ↔ worker.Overdue other :=
      overdue_congr rfl (AList.lookup_insert_ne differ)
    exact ⟨differ, unchanged.mp due⟩

end ParserWorker

/-! ### Nothing due is forgotten -/

namespace ParserRun

variable {run run' : ParserRun} {event : ParserEvent}

/-- The devices the current iteration has still to look at. -/
def toFlush (run : ParserRun) : List DevicePtr :=
  match run.pc with
  | .pushing _ => run.worker.touched
  | .flushing todo => todo
  | _ => []

/-- **The invariant**: a batch that is overdue has its device on the list. -/
def Disciplined (run : ParserRun) : Prop :=
  ∀ dev, run.worker.Overdue dev → dev ∈ run.toFlush

/-- The device whose batch the step tests. -/
def tested (run : ParserRun) : Option DevicePtr :=
  match run.pc with
  | .flushing (dev :: _) => some dev
  | _ => none

/-- **The row count that a step tests has not wrapped.** -/
def countsRows (run : ParserRun) (_ : ParserEvent) : Prop :=
  ∀ dev ∈ run.tested, dev.desc.immediateFlush = true ∨ run.worker.pending dev < 2 ^ 31

instance (run : ParserRun) (event : ParserEvent) : Decidable (countsRows run event) :=
  inferInstanceAs (Decidable (∀ dev ∈ run.tested, _))

theorem Disciplined.moves (before : run.Disciplined) (counts : countsRows run event)
    (step : run.Moves event run') : run'.Disciplined := by
  unfold Disciplined toFlush at before
  cases step with
  | goOn here | leave here _ | idle here _ | ignore here _ | pushed here | flushed here | exit here
    | resume here =>
    rw [here] at before
    exact before
  | take here known some =>
    rw [here] at before
    intro dev due
    exact absurd (before dev due) List.not_mem_nil
  | push here =>
    rw [here] at before
    exact ParserWorker.mem_touched_appendRow before _
  | @flush dev todo here due =>
    rw [here] at before
    intro other later
    obtain ⟨differ, was⟩ := ParserWorker.overdue_flushDevice later
    exact List.mem_of_ne_of_mem differ (before other was)
  | @keep dev todo here early =>
    rw [here] at before
    intro other due
    have differ : other ≠ dev := by
      intro same
      have tested : dev ∈ run.tested := by
        rw [tested, here]
        rfl
      have test := (ParserWorker.flushDue_iff (counts dev tested)).mpr (same ▸ due)
      rw [show _ = false from early] at test
      cases test
    exact List.mem_of_ne_of_mem differ (before other due)
  | flushAll here =>
    rw [here] at before
    intro other later
    exact absurd (before other (ParserWorker.overdue_flushDevice later).2) List.not_mem_nil

theorem disciplined_of_reach {batchRows : Int} (reach : Reach next countsRows (start batchRows) run) :
    run.Disciplined :=
  reach.invariant (fun _ due => absurd rfl due.1)
    fun _ _ _ before counts moved => before.moves counts (moves_of_next moved)

theorem Moves.batchRows (step : run.Moves event run') :
    run'.worker.batchRows = run.worker.batchRows := by
  cases step with
  | flush here due => exact ParserWorker.batchRows_flushDevice _ _
  | flushAll here => exact ParserWorker.batchRows_flushDevice _ _
  | _ => rfl

/-- The size of a batch is fixed when the thread starts. -/
theorem batchRows_of_reachable {batchRows : Int} (reachable : Reachable batchRows run) :
    run.worker.batchRows = (start batchRows).worker.batchRows :=
  @Reach.invariant _ _ _ _ _ _
    (fun run : ParserRun => run.worker.batchRows = (start batchRows).worker.batchRows) reachable rfl
    fun _ _ _ before _ moved => (moves_of_next moved).batchRows.trans before

theorem batchRows_start_pos (batchRows : Int) : 0 < (start batchRows).worker.batchRows := by
  rw [start]
  by_cases positive : 0 < batchRows
  · simp only [if_pos positive]
    omega
  · simp only [if_neg positive]
    exact Nat.one_pos

/-! ### Idle iterations -/

/-- The thread is inside an iteration: any step but one from the loop condition. -/
def insideIteration (run : ParserRun) (_ : ParserEvent) : Prop := run.pc ≠ .check

instance (run : ParserRun) (event : ParserEvent) : Decidable (insideIteration run event) :=
  inferInstanceAs (Decidable (run.pc ≠ .check))

/-- What an idle iteration goes through. -/
structure Drains (run : ParserRun) : Prop where
  books : Accounted run
  stands : (∃ todo, run.pc = .flushingAll todo false) ∨
    (run.pc = .check ∧ ∀ dev, run.worker.pending dev = 0)

theorem Drains.moves (drains : run.Drains) (inside : run.pc ≠ .check)
    (step : run.Moves event run') : run'.Drains := by
  refine ⟨drains.books.moves step, ?_⟩
  obtain ⟨todo, here⟩ | ⟨ended, _⟩ := drains.stands
  · cases step with
    | flushAll here' =>
      rw [here'] at here
      cases here
      exact Or.inl ⟨_, rfl⟩
    | resume here' =>
      refine Or.inr ⟨rfl, fun dev => ?_⟩
      by_contra rows
      have nonempty := Bool.eq_false_iff.mpr (mt ParserWorker.pending_eq_zero_iff.mpr rows)
      exact absurd (drains.books.todo here' dev nonempty) List.not_mem_nil
    | goOn here' | leave here' _ | idle here' _ | ignore here' _ | take here' _ _ | push here'
      | pushed here' | flush here' _ | keep here' _ | flushed here' | exit here' =>
      rw [here'] at here
      cases here
  · exact absurd ended inside

end ParserRun

open ParserRun in
/-- **The flush discipline**: in a run in which no row count has wrapped when it is tested, whenever an
iteration of the loop is complete, a device with `immediateFlush` has no row pending and every other
one less than a batch; if the dequeue had timed out, no device has a row pending. -/
theorem pending_rows_bounded {batchRows : Int} {run : ParserRun}
    (reach : Reach next countsRows (start batchRows) run) :
    (run.pc = .check → ∀ dev : DevicePtr,
      (dev.desc.immediateFlush = true → run.worker.pending dev = 0) ∧
        run.worker.pending dev < (start batchRows).worker.batchRows) ∧
      ∀ order idled after, run.next (.idle order) = some idled →
        Reach next insideIteration idled after → after.pc = .check →
          ∀ dev, after.worker.pending dev = 0 := by
  have reachable : Reachable batchRows run := reach.mono fun _ _ _ => trivial
  constructor
  · intro here dev
    have listed := disciplined_of_reach reach dev
    have quiet : ¬ run.worker.Overdue dev := by
      rw [toFlush, here] at listed
      exact fun due => absurd (listed due) List.not_mem_nil
    have positive := batchRows_start_pos batchRows
    rw [ParserWorker.Overdue, batchRows_of_reachable reachable] at quiet
    by_cases none : run.worker.pending dev = 0
    · exact ⟨fun _ => none, by omega⟩
    · refine ⟨fun immediate => absurd ⟨none, Or.inl immediate⟩ quiet, Nat.lt_of_not_le fun full => ?_⟩
      exact quiet ⟨none, Or.inr full⟩
  · intro order idled after moved inside here
    have drains : idled.Drains := by
      have step := moves_of_next moved
      refine ⟨(accounted_of_reachable reachable).moves step, Or.inl ?_⟩
      cases step
      exact ⟨order, rfl⟩
    obtain ⟨todo, other⟩ | ⟨_, empty⟩ := (inside.invariant drains
      fun _ _ _ before within moved => before.moves within (moves_of_next moved)).stands
    · rw [other] at here
      cases here
    · exact empty

/-- The thread takes a chunk with a status row and event rows, and comes back to its loop condition
with the event rows pending; then nothing arrives, and it flushes them. -/
theorem pending_rows_bounded_fixture :
    ∃ busy polling idled after, play ParserRun.next ParserRun.countsRows (ParserRun.start 10)
        ([.goOn, .take fixtureChunk] ++ List.replicate 7 .work) = some busy ∧
      busy.worker.pending statusDevice = 0 ∧
      busy.worker.pending eventDevice < 10 ∧
      ParserRun.next busy .goOn = some polling ∧
      polling.next (.idle [eventDevice, statusDevice]) = some idled ∧
      play ParserRun.next ParserRun.insideIteration idled (List.replicate 3 .work) = some after ∧
      after.worker.pending eventDevice = 0 := by
  have whole : ((play ParserRun.next ParserRun.countsRows (ParserRun.start 10)
      ([.goOn, .take fixtureChunk] ++ List.replicate 7 .work)).bind fun busy =>
        (busy.next .goOn).bind fun polling =>
          (polling.next (.idle [eventDevice, statusDevice])).bind fun idled =>
            (play ParserRun.next ParserRun.insideIteration idled (List.replicate 3 .work)).map
              fun after => (busy.pc, after.pc)) = some (.check, .check) := by decide
  obtain ⟨busy, taken, rest⟩ := Option.bind_eq_some_iff.mp whole
  obtain ⟨polling, polled, rest⟩ := Option.bind_eq_some_iff.mp rest
  obtain ⟨idled, timedOut, rest⟩ := Option.bind_eq_some_iff.mp rest
  obtain ⟨after, drained, stands⟩ := Option.map_eq_some_iff.mp rest
  obtain ⟨head, back⟩ := Prod.mk.inj stands
  have reach : Reach ParserRun.next ParserRun.countsRows (ParserRun.start 10) busy :=
    Reach.of_play .start taken
  have counts : ParserRun.countsRows busy .goOn := by
    intro dev tested
    rw [ParserRun.tested, head] at tested
    cases tested
  have bounded := (pending_rows_bounded reach).1 head
  have empty := (pending_rows_bounded (reach.step .goOn counts polled)).2 _ _ _ timedOut
    (Reach.of_play .start drained) back
  exact ⟨busy, polling, idled, after, taken, (bounded statusDevice).1 rfl, (bounded eventDevice).2,
    polled, timedOut, drained, empty eventDevice⟩

/-! ### A batch of `2 ^ 31` rows -/

theorem ParserWorker.pending_appendRow (worker : ParserWorker) (row : Row) :
    (worker.appendRow row).pending row.dev = worker.pending row.dev + 1 := by
  have opened : (worker.openBatch row.dev).ts = (worker.batch row.dev).ts := by
    unfold openBatch
    simp only
    split <;> rfl
  rw [pending, batch, lookup_appendRow, Option.getD_some, RowBatch.pushRow]
  simp only
  rw [opened, List.length_append, List.length_singleton, pending]

namespace ParserRun

/-- The rows of one device are pushed, one after the other. -/
theorem pushAll {dev : DevicePtr} {rows : List Row} (own : ∀ row ∈ rows, row.dev = dev)
    {run : ParserRun} (here : run.pc = .pushing rows)
    (touched : run.worker.touched = [] ∨ run.worker.touched = [dev]) :
    ∃ after, Reach next anyStep run after ∧ after.pc = .pushing [] ∧
      after.worker.pending dev = run.worker.pending dev + rows.length ∧
      (after.worker.touched = [] ∨ after.worker.touched = [dev]) ∧
      after.worker.streams = run.worker.streams ∧
      after.worker.batchRows = run.worker.batchRows := by
  induction rows generalizing run with
  | nil => exact ⟨run, .start, here, rfl, touched, rfl, rfl⟩
  | cons row rows ih =>
    have device : row.dev = dev := own row List.mem_cons_self
    let later : ParserRun := { run with
      pc := .pushing rows
      worker := run.worker.appendRow row
      pushed := run.pushed ++ [row] }
    have moved : run.next .work = some later := by
      rw [next]
      simp only [here, later]
    have listed : (run.worker.appendRow row).touched = [dev] := by
      rw [ParserWorker.appendRow]
      rcases touched with none | one
      · simp only [none, List.getLast?_nil, reduceCtorEq, if_false, List.nil_append, device]
      · simp only [one, List.getLast?_singleton, device, if_true]
    obtain ⟨after, reach, stands, count, kept⟩ :=
      ih (fun other member => own other (List.mem_cons_of_mem _ member))
        (show later.pc = .pushing rows from rfl) (Or.inr listed)
    refine ⟨after, Reach.head .work trivial moved reach, stands, ?_, kept⟩
    have more := run.worker.pending_appendRow row
    rw [device] at more
    rw [count, List.length_cons]
    show (run.worker.appendRow row).pending dev + rows.length = _
    omega

/-- A row count below the size of a batch keeps the batch. -/
theorem keepBatch {dev : DevicePtr} (batched : dev.desc.immediateFlush = false) {run : ParserRun}
    (here : run.pc = .pushing [])
    (touched : run.worker.touched = [] ∨ run.worker.touched = [dev])
    (early : intSize (run.worker.pending dev) < run.worker.batchRows) :
    ∃ after, Reach next anyStep run after ∧ after.pc = .check ∧ after.worker = run.worker := by
  have pushed : run.next .work = some { run with pc := .flushing run.worker.touched } := by
    rw [next]
    simp only [here]
  have first : Reach next anyStep run { run with pc := .flushing run.worker.touched } :=
    Reach.start.step .work trivial pushed
  rcases touched with none | one
  · rw [none] at first
    exact ⟨{ run with pc := .check }, first.step .work trivial rfl, rfl, rfl⟩
  · have count : ¬ (run.worker.batchRows : Int) ≤ (run.worker.batch dev).rowCount :=
      Int.not_le.mpr early
    have quiet : run.worker.flushDue dev = false := by
      rw [ParserWorker.flushDue_eq, batched, Bool.false_or, decide_eq_false count, Bool.and_false]
    rw [one] at first
    have kept : ({ run with pc := .flushing [dev] } : ParserRun).next .work =
        some { run with pc := .flushing [] } := by
      rw [next]
      simp only [quiet, Bool.false_eq_true, if_false]
    exact ⟨{ run with pc := .check }, (first.step .work trivial kept).step .work trivial rfl, rfl,
      rfl⟩

end ParserRun

/-- Some event frames with one record each, in one chunk. -/
def eventChunk (n : ℕ) : RawChunk :=
  { group := some ⟨0, fixtureGroup⟩
    recvMs := 0
    data := (List.replicate n { frameType := 0xE, flag := 1, payload := [1, 0, 2, 0], tail := some 3 }
      ).flatMap WireFrame.bytes }

/-- One or two of them leave nothing in the stream. -/
theorem feed_eventChunk : ∀ n ∈ [1, 2],
    (feed fixtureGroup {} (eventChunk n).data 0).1.buf = [] ∧
      (feed fixtureGroup {} (eventChunk n).data 0).2.map Row.dev = List.replicate n eventDevice ∧
      (eventChunk n).data ≠ [] := by decide

/-- The thread is at its loop condition, and event rows are pending. -/
structure EventsPending (batchRows k : ℕ) (run : ParserRun) : Prop where
  stands : run.pc = .check
  buf : (run.worker.stream ⟨0, fixtureGroup⟩).buf = []
  rows : run.worker.pending eventDevice = k
  size : run.worker.batchRows = batchRows

/-- One chunk more, which the test does not find enough. -/
theorem EventsPending.take {batchRows k : ℕ} {run : ParserRun} (pending : EventsPending batchRows k run)
    {n : ℕ} (few : n ∈ [1, 2]) (early : intSize (k + n) < batchRows) :
    ∃ after, Reach ParserRun.next anyStep run after ∧ EventsPending batchRows (k + n) after := by
  obtain ⟨whole, devices, some_byte⟩ := feed_eventChunk n few
  obtain ⟨buf, rows⟩ := ParserWorker.codec_congr fixtureGroup
    (show (run.worker.stream ⟨0, fixtureGroup⟩).buf = ({} : DeviceStream).buf from pending.buf)
    (eventChunk n).data 0
  have found : (run.worker.receive ⟨0, fixtureGroup⟩ (eventChunk n)).2 =
      (feed fixtureGroup {} (eventChunk n).data 0).2 := rows
  have own : ∀ row ∈ (run.worker.receive ⟨0, fixtureGroup⟩ (eventChunk n)).2,
      row.dev = eventDevice := by
    intro row member
    rw [found] at member
    have listed : row.dev ∈ List.replicate n eventDevice := devices ▸ List.mem_map_of_mem member
    exact List.eq_of_mem_replicate listed
  have count : (run.worker.receive ⟨0, fixtureGroup⟩ (eventChunk n)).2.length = n := by
    have length := congrArg List.length devices
    rwa [List.length_map, List.length_replicate, ← found] at length
  let taken : ParserRun := { run with
    pc := .pushing (run.worker.receive ⟨0, fixtureGroup⟩ (eventChunk n)).2
    worker := (run.worker.receive ⟨0, fixtureGroup⟩ (eventChunk n)).1
    fed := run.fed ++ [(eventChunk n, (run.worker.receive ⟨0, fixtureGroup⟩ (eventChunk n)).2)] }
  have first : Reach ParserRun.next anyStep run taken := by
    refine (Reach.start.step .goOn trivial (if_pos pending.stands)).step (.take (eventChunk n))
      trivial ?_
    rw [ParserRun.next, if_pos rfl]
    exact if_neg some_byte
  obtain ⟨pushed, reach, stands, more, touched, streams, size⟩ :=
    ParserRun.pushAll own (show taken.pc = .pushing _ from rfl) (Or.inl rfl)
  have total : pushed.worker.pending eventDevice = k + n := by
    rw [more, count, ← pending.rows]
    rfl
  have limit : pushed.worker.batchRows = batchRows := size.trans pending.size
  obtain ⟨after, later, back, same⟩ := ParserRun.keepBatch rfl stands touched
    (by rw [total, limit]; exact early)
  refine ⟨after, (first.trans reach).trans later, back, ?_, by rw [same, total], by rw [same, limit]⟩
  have kept := run.worker.stream_receive ⟨0, fixtureGroup⟩ (eventChunk n)
  rw [ParserWorker.stream, ← streams] at kept
  rw [same, ParserWorker.stream, kept]
  exact buf.trans whole

/-- Single rows add up. -/
theorem reach_eventsPending {batchRows : ℕ} (limit : 0 < batchRows) (most : batchRows < 2 ^ 31) (k : ℕ)
    (less : k < batchRows) :
    ∃ run, ParserRun.Reachable batchRows run ∧ EventsPending batchRows k run := by
  induction k with
  | zero =>
    refine ⟨_, .start, rfl, rfl, rfl, ?_⟩
    show (if 0 < (batchRows : Int) then (batchRows : Int).toNat else 1) = batchRows
    rw [if_pos (by omega), Int.toNat_natCast]
  | succ k ih =>
    obtain ⟨run, reach, pending⟩ := ih (by omega)
    have early : intSize (k + 1) < batchRows := by
      rw [intSize_of_lt (by omega)]
      omega
    obtain ⟨after, later, more⟩ := pending.take List.mem_cons_self early
    exact ⟨after, reach.trans later, more⟩

/-- **`2 ^ 31` rows stay behind**: the largest size of a batch is jumped over, and the row count is
negative. -/
theorem pending_rows_unbounded :
    ∃ run, ParserRun.Reachable (2 ^ 31 - 1) run ∧ run.pc = .check ∧
      eventDevice.desc.immediateFlush = false ∧
      ¬ run.worker.pending eventDevice < (ParserRun.start (2 ^ 31 - 1)).worker.batchRows := by
  obtain ⟨run, reach, pending⟩ :=
    reach_eventsPending (show 0 < 2 ^ 31 - 1 by decide) (by decide) (2 ^ 31 - 2) (by decide)
  obtain ⟨after, later, more⟩ := pending.take
    (List.mem_cons_of_mem _ List.mem_cons_self : 2 ∈ [1, 2]) (by decide)
  refine ⟨after, reach.trans later, more.stands, rfl, ?_⟩
  have limit : (ParserRun.start (2 ^ 31 - 1)).worker.batchRows = 2 ^ 31 - 1 := rfl
  rw [more.rows, limit]
  decide

end EtherAdapter
