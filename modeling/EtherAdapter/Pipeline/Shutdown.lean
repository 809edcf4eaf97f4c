/-
**The orderly shutdown: what was accepted is parsed, and what was parsed is written.**

The parser thread leaves its loop as soon as it reads the lowered flag, whatever the ingest queue
still holds; the writer thread drains its queue first. So the chunks queued behind the one the
parser works on at the wrong moment are lost (`shutdown_drops_chunk`), and nothing else is.

* `Flow` — the invariant of every run: the parser is fed the ingest queue in order.
* `Stopping` — the invariant of the shutdown: which thread has ended by which phase, and what the
  writer has been handed.
* **`nothing_lost`** — in a run whose parser leaves its loop with an empty ingest queue
  (`leavesEmpty`), every accepted chunk is fed to the codec and every row of it is handed to
  `writeBatch` exactly once, in order.
-/

import EtherAdapter.Model.Adapter
import EtherAdapter.Pipeline.Accounting

namespace EtherAdapter

open Runs

/-! ### What a step of the parser thread does to its history -/

/-- The thread has left its loop. -/
def Pc.left : Pc → Bool
  | .flushingAll _ last => last
  | .exited => true
  | _ => false

namespace ParserRun.Moves

variable {run run' : ParserRun} {event : ParserEvent}

/-- A chunk with a group and data is received and fed. -/
theorem take_useful {chunk : RawChunk} (step : run.Moves (.take chunk) run')
    (useful : chunk.group ≠ none ∧ chunk.data ≠ []) :
    ∃ group, chunk.group = some group ∧ run'.worker = (run.worker.receive group chunk).1 ∧
      run'.fed = run.fed ++ [(chunk, (run.worker.receive group chunk).2)] := by
  cases step with
  | ignore here useless =>
    rcases useless with unknown | empty
    · exact absurd unknown useful.1
    · exact absurd empty useful.2
  | take here known some => exact ⟨_, known, rfl, rfl⟩

theorem fed_other (step : run.Moves event run') (other : ∀ chunk, event ≠ .take chunk) :
    run'.fed = run.fed := by
  cases step with
  | take | ignore => exact absurd rfl (other _)
  | _ => rfl

theorem sent_grows (step : run.Moves event run') : run.sent <+: run'.sent := by
  cases step with
  | flush | flushAll => exact List.prefix_append _ _
  | _ => exact List.prefix_refl _

/-- Only a lowered flag makes the thread leave its loop. -/
theorem left_of_left (step : run.Moves event run') (left : run'.pc.left = true) :
    run.pc.left = true ∨ ∃ order, event = .leave order := by
  cases step with
  | leave => exact Or.inr ⟨_, rfl⟩
  | flushAll here | exit here =>
    rw [here]
    exact Or.inl left
  | _ => cases left

/-- Outside its loop the thread takes no chunk. -/
theorem not_take (step : run.Moves event run') (left : run.pc.left = true) (chunk : RawChunk) :
    event ≠ .take chunk := by
  rintro rfl
  cases step with
  | take here | ignore here =>
    rw [here] at left
    cases left

theorem not_exited (step : run.Moves event run') : run.pc ≠ .exited := by
  intro exited
  cases step with
  | goOn here | leave here | idle here | ignore here | take here | push here | pushed here
    | flush here | keep here | flushed here | flushAll here | exit here | resume here =>
    rw [here] at exited
    cases exited

end ParserRun.Moves

/-! ### From the connections to the codec -/

namespace Adapter

/-- A step is a callback of the event loop, or a step of one of the threads. -/
theorem next_cases {db : ConfigDB} {a a' : Adapter} {event : AdapterEvent}
    (moved : a.next db event = some a') :
    (a.phase = .serving ∧ ∃ opened live server received ingested posted,
        a' = { a with opened, live, server, received, ingested, posted } ∧
        ∃ more, ingested = a.ingested ++ more ∧
          ∀ item ∈ more, item.chunk.group ≠ none ∧ item.chunk.data ≠ []) ∨
      a.mainStep = some a' ∨
      (∃ step, event = .parser step ∧ a.parserStep step = some a') ∨
      ∃ step, a.writerStep step = some a' := by
  cases event with
  | connect peer =>
    obtain ⟨serving, moved⟩ := Option.ite_none_right_eq_some.mp moved
    cases moved
    exact Or.inl ⟨serving, _, _, _, _, _, _, rfl, [], (List.append_nil _).symm, nofun⟩
  | disconnect conn =>
    obtain ⟨⟨serving, _⟩, moved⟩ := Option.ite_none_right_eq_some.mp moved
    cases moved
    exact Or.inl ⟨serving, _, _, _, _, _, _, rfl, [], (List.append_nil _).symm, nofun⟩
  | message conn data timeUs =>
    obtain ⟨⟨serving, _⟩, moved⟩ := Option.ite_none_right_eq_some.mp moved
    obtain ⟨peer, _, rfl⟩ := Option.map_eq_some_iff.mp moved
    refine Or.inl ⟨serving, _, _, _, _, _, _, rfl, _, rfl, fun item member => ?_⟩
    obtain ⟨chunk, enqueued, rfl⟩ := Option.map_eq_some_iff.mp (Option.mem_toList.mp member)
    obtain ⟨group, _, _, rfl, some⟩ := IngestServer.onMessage_chunk enqueued
    exact ⟨nofun, some⟩
  | post batch =>
    obtain ⟨serving, moved⟩ := Option.ite_none_right_eq_some.mp moved
    cases moved
    exact Or.inl ⟨serving, _, _, _, _, _, _, rfl, [], (List.append_nil _).symm, nofun⟩
  | main => exact Or.inr (Or.inl moved)
  | parser step => exact Or.inr (Or.inr (Or.inl ⟨step, rfl, moved⟩))
  | writer step => exact Or.inr (Or.inr (Or.inr ⟨step, moved⟩))

/-- The chunks passed to the codec. -/
def fedChunks (a : Adapter) : List RawChunk := a.parser.fed.map Prod.fst

end Adapter

/-- **The invariant of every run.** -/
structure Flow (a : Adapter) : Prop where
  taken_le : a.taken ≤ a.ingested.length
  /-- The parser ignores none of the chunks. -/
  useful : ∀ item ∈ a.ingested, item.chunk.group ≠ none ∧ item.chunk.data ≠ []
  fed : a.fedChunks = (a.ingested.take a.taken).map Ingested.chunk
  books : Accounted a.parser
  pushed : a.parser.PushedInOrder

namespace Flow

theorem start (batchRows : Int) : Flow (Adapter.start batchRows) :=
  ⟨Nat.le_refl _, fun _ member => absurd member List.not_mem_nil, rfl, Accounted.start batchRows,
    rfl⟩

theorem parserStep {a a' : Adapter} {event : ParserEvent} (flow : Flow a)
    (moved : a.parserStep event = some a') : Flow a' := by
  obtain ⟨parser, step, ⟨item, here, rfl, rfl⟩ | ⟨order, rfl, _, rfl⟩ | ⟨other, _, rfl⟩⟩ :=
    Adapter.parserStep_cases moved
  · obtain ⟨inside, isItem⟩ := List.getElem?_eq_some_iff.mp here
    obtain ⟨group, _, _, fed⟩ :=
      step.take_useful (flow.useful item (List.mem_of_getElem? here))
    refine ⟨inside, flow.useful, ?_, flow.books.moves step, flow.pushed.moves step⟩
    show parser.fed.map Prod.fst = (a.ingested.take (a.taken + 1)).map Ingested.chunk
    rw [fed, List.take_add_one, here, List.map_append, List.map_append, ← flow.fed]
    rfl
  · refine ⟨flow.taken_le, flow.useful, ?_, flow.books.moves step, flow.pushed.moves step⟩
    show parser.fed.map Prod.fst = _
    rw [step.fed_other nofun]
    exact flow.fed
  · refine ⟨flow.taken_le, flow.useful, ?_, flow.books.moves step, flow.pushed.moves step⟩
    show parser.fed.map Prod.fst = _
    rw [step.fed_other other]
    exact flow.fed

/-- **Every step keeps the flow.** -/
theorem next {db : ConfigDB} {a a' : Adapter} {event : AdapterEvent} (flow : Flow a)
    (moved : a.next db event = some a') : Flow a' := by
  obtain ⟨_, _, _, _, _, _, _, rfl, more, rfl, useful⟩ | moved | ⟨step, _, moved⟩ |
    ⟨step, moved⟩ := Adapter.next_cases moved
  · refine ⟨?_, fun item member => ?_, ?_, flow.books, flow.pushed⟩
    · rw [List.length_append]
      exact Nat.le_add_right_of_le flow.taken_le
    · rcases List.mem_append.mp member with before | new
      · exact flow.useful item before
      · exact useful item new
    · show a.fedChunks = _
      rw [List.take_append_of_le_length flow.taken_le]
      exact flow.fed
  · obtain ⟨_, _, _, rfl, _⟩ := Adapter.mainStep_cases moved
    exact ⟨flow.taken_le, flow.useful, flow.fed, flow.books, flow.pushed⟩
  · exact flow.parserStep moved
  · obtain ⟨_, rfl⟩ := Adapter.writerStep_frame moved
    exact ⟨flow.taken_le, flow.useful, flow.fed, flow.books, flow.pushed⟩

end Flow

/-! ### From the codec to the writer -/

/-- The writer thread has left its loop. -/
def WriterPc.left : WriterPc → Bool
  | .draining | .exited => true
  | _ => false

namespace Adapter

/-- The batches of the parser that were handed to `writeBatch`, in order. -/
def handedBatches (a : Adapter) : List RowBatch :=
  (a.writer.written.filter fun item => item.1 = .parser).map Prod.snd

end Adapter

/-- **The invariant of the shutdown.** -/
structure Stopping (a : Adapter) : Prop where
  parserLeft : a.parser.pc.left = true → a.phase.parserRunning = false
  parserEnded : Phase.parserStopped.rank ≤ a.phase.rank → a.parser.pc = .exited
  handed : a.handedBatches = a.parser.sent.take a.writer.fromParser
  handed_le : a.writer.fromParser ≤ a.parser.sent.length
  writerLeft : a.writer.pc.left = true → a.phase.writerRunning = false
  drained : a.writer.pc = .exited → a.writer.fromParser = a.parser.sent.length
  writerEnded : Phase.writerStopped.rank ≤ a.phase.rank → a.writer.pc = .exited

namespace Stopping

variable {a a' : Adapter}

theorem start (batchRows : Int) : Stopping (Adapter.start batchRows) :=
  ⟨nofun, nofun, rfl, Nat.le_refl _, nofun, nofun, nofun⟩

/-- The writer leaves its loop after the parser thread has ended. -/
theorem parser_exited (stopping : Stopping a) (left : a.writer.pc.left = true) :
    a.parser.pc = .exited := by
  have down := stopping.writerLeft left
  refine stopping.parserEnded ?_
  rw [Phase.writerRunning, decide_eq_false_iff_not, Nat.not_lt] at down
  exact Nat.le_trans (by decide) down

theorem mainStep (stopping : Stopping a) (moved : a.mainStep = some a') : Stopping a' := by
  obtain ⟨phase, _, _, rfl, further, _, parserDone, writerDone⟩ := Adapter.mainStep_cases moved
  refine ⟨fun left => ?_, fun late => ?_, stopping.handed, stopping.handed_le, fun left => ?_,
    stopping.drained, fun late => ?_⟩
  · have down := stopping.parserLeft left
    simp only [Phase.parserRunning, decide_eq_false_iff_not, Nat.not_lt] at down ⊢
    omega
  · by_cases already : Phase.parserStopped.rank ≤ a.phase.rank
    · exact stopping.parserEnded already
    · change Phase.parserStopped.rank ≤ phase.rank at late
      exact parserDone (by omega)
  · have down := stopping.writerLeft left
    simp only [Phase.writerRunning, decide_eq_false_iff_not, Nat.not_lt] at down ⊢
    omega
  · by_cases already : Phase.writerStopped.rank ≤ a.phase.rank
    · exact stopping.writerEnded already
    · change Phase.writerStopped.rank ≤ phase.rank at late
      exact writerDone (by omega)

/-- A step of the parser thread only adds batches, and only while the writer is in its loop. -/
theorem moves {taken : ℕ} {parser : ParserRun} {event : ParserEvent} (stopping : Stopping a)
    (step : a.parser.Moves event parser)
    (flag : ∀ order, event = .leave order → a.phase.parserRunning = false) :
    Stopping { a with parser, taken } := by
  refine ⟨fun left => ?_, fun late => ?_, ?_, ?_, stopping.writerLeft, fun exited => ?_,
    stopping.writerEnded⟩
  · rcases step.left_of_left left with already | ⟨order, leave⟩
    · exact stopping.parserLeft already
    · exact flag order leave
  · exact absurd (stopping.parserEnded late) step.not_exited
  · show a.handedBatches = parser.sent.take a.writer.fromParser
    obtain ⟨more, grown⟩ := step.sent_grows
    rw [stopping.handed, ← grown, List.take_append_of_le_length stopping.handed_le]
  · exact Nat.le_trans stopping.handed_le step.sent_grows.length_le
  · have left : a.writer.pc.left = true := by
      rw [show a.writer.pc = .exited from exited]
      rfl
    exact absurd (stopping.parser_exited left) step.not_exited

theorem parserStep {event : ParserEvent} (stopping : Stopping a)
    (moved : a.parserStep event = some a') : Stopping a' := by
  obtain ⟨parser, step, ⟨item, here, rfl, rfl⟩ | ⟨order, rfl, down, rfl⟩ | ⟨_, other, rfl⟩⟩ :=
    Adapter.parserStep_cases moved
  · exact stopping.moves step nofun
  · exact stopping.moves step fun _ _ => down
  · exact stopping.moves step fun order leave => absurd leave (other order)

/-- A batch of the parser has a device and rows, so the writer hands it on. -/
theorem handed_handle (stopping : Stopping a) (books : Accounted a.parser) {producer : Producer}
    {batch : RowBatch} (head : a.queued producer = some batch) :
    Adapter.handedBatches { a with writer := a.writer.handle producer batch } =
        a.parser.sent.take (a.writer.handle producer batch).fromParser ∧
      (a.writer.handle producer batch).fromParser ≤ a.parser.sent.length := by
  cases producer with
  | parser =>
    change a.parser.sent[a.writer.fromParser]? = some batch at head
    obtain ⟨nonempty, dev, own⟩ := books.sent batch (List.mem_of_getElem? head)
    have written : (a.writer.handle .parser batch).written =
        a.writer.written ++ [(.parser, batch)] := by
      simp [WriterRun.handle, own.owner, nonempty]
    refine ⟨?_, (List.getElem?_eq_some_iff.mp head).1⟩
    show ((a.writer.handle .parser batch).written.filter _).map _ =
      a.parser.sent.take (a.writer.fromParser + 1)
    rw [written, List.take_add_one, ← stopping.handed, head]
    simp [Adapter.handedBatches]
  | http =>
    refine ⟨?_, stopping.handed_le⟩
    show ((a.writer.handle .http batch).written.filter _).map _ =
      a.parser.sent.take a.writer.fromParser
    rw [← stopping.handed]
    simp only [WriterRun.handle]
    split <;> simp [Adapter.handedBatches]

theorem handle (stopping : Stopping a) (books : Accounted a.parser) {producer : Producer}
    {batch : RowBatch} (here : a.writer.pc = .poll ∨ a.writer.pc = .draining)
    (head : a.queued producer = some batch) :
    Stopping { a with writer := a.writer.handle producer batch } := by
  obtain ⟨handed, handed_le⟩ := stopping.handed_handle books head
  have running : a.writer.pc ≠ .exited := by rcases here with here | here <;> simp [here]
  refine ⟨stopping.parserLeft, stopping.parserEnded, handed, handed_le, fun left => ?_,
    fun exited => ?_, fun late => absurd (stopping.writerEnded late) running⟩
  · refine stopping.writerLeft ?_
    rcases here with poll | draining
    · simp [WriterRun.handle, poll, WriterPc.left] at left
    · rw [draining]
      rfl
  · rcases here with poll | draining
    · simp [WriterRun.handle, poll] at exited
    · simp [WriterRun.handle, draining] at exited

theorem writerStep {event : WriterEvent} (stopping : Stopping a) (books : Accounted a.parser)
    (moved : a.writerStep event = some a') : Stopping a' := by
  obtain ⟨pc, here, inLoop, rfl⟩ | ⟨here, down, rfl⟩ | ⟨producer, batch, here, head, rfl⟩ |
    ⟨here, empty, _, rfl⟩ := Adapter.writerStep_cases moved
  · have running : a.writer.pc ≠ .exited := by rcases here with here | here <;> simp [here]
    refine ⟨stopping.parserLeft, stopping.parserEnded, stopping.handed, stopping.handed_le,
      fun left => ?_, fun exited => ?_, fun late => absurd (stopping.writerEnded late) running⟩
    · rcases inLoop with rfl | rfl <;> cases left
    · rcases inLoop with rfl | rfl <;> cases exited
  · have running : a.writer.pc ≠ .exited := by simp [here]
    exact ⟨stopping.parserLeft, stopping.parserEnded, stopping.handed, stopping.handed_le,
      fun _ => down, nofun, fun late => absurd (stopping.writerEnded late) running⟩
  · exact stopping.handle books here head
  · refine ⟨stopping.parserLeft, stopping.parserEnded, stopping.handed, stopping.handed_le,
      fun _ => stopping.writerLeft ?_, fun _ => ?_, fun _ => rfl⟩
    · rw [here]
      rfl
    · exact Nat.le_antisymm stopping.handed_le (List.getElem?_eq_none_iff.mp empty)

/-- **Every step keeps the order of the shutdown.** -/
theorem next {db : ConfigDB} {event : AdapterEvent} (stopping : Stopping a)
    (books : Accounted a.parser) (moved : a.next db event = some a') : Stopping a' := by
  obtain ⟨_, _, _, _, _, _, _, rfl, _⟩ | moved | ⟨step, _, moved⟩ | ⟨step, moved⟩ :=
    Adapter.next_cases moved
  · exact ⟨stopping.parserLeft, stopping.parserEnded, stopping.handed, stopping.handed_le,
      stopping.writerLeft, stopping.drained, stopping.writerEnded⟩
  · exact stopping.mainStep moved
  · exact stopping.parserStep moved
  · exact stopping.writerStep books moved

end Stopping

/-! ### Nothing is lost -/

/-- The parser thread reads its lowered flag. -/
def AdapterEvent.leaves : AdapterEvent → Bool
  | .parser (.leave _) => true
  | _ => false

namespace Adapter

/-- The parser thread leaves its loop with an empty ingest queue only. -/
def leavesEmpty (a : Adapter) (event : AdapterEvent) : Prop :=
  event.leaves = true → a.taken = a.ingested.length

instance (a : Adapter) (event : AdapterEvent) : Decidable (a.leavesEmpty event) :=
  inferInstanceAs (Decidable (_ → _))

/-- Every accepted chunk is fed to the codec before the parser thread ends, and every row the codec
found is handed to `writeBatch` once, in the order of its device, before the writer is stopped. -/
def NothingLost (a : Adapter) : Prop :=
  (a.parser.pc = .exited → a.fedChunks = a.ingested.map Ingested.chunk) ∧
    (a.phase = .writerStopped → a.parser.pc = .exited ∧
      ∀ dev, batchRows dev a.handedBatches = deviceRows dev a.parser.decoded)

end Adapter

/-- **What was decoded is written**, in every run. -/
theorem Stopping.written {a : Adapter} (stopping : Stopping a) (flow : Flow a)
    (stopped : a.phase = .writerStopped) (dev : DevicePtr) :
    batchRows dev a.handedBatches = deviceRows dev a.parser.decoded := by
  have ended : a.parser.pc = .exited := stopping.parserEnded (by rw [stopped]; decide)
  have drained := stopping.drained (stopping.writerEnded (by rw [stopped]))
  have nothingPending : a.parser.pendingRows dev = [] :=
    RowBatch.rows_of_isEmpty (flow.books.done ended dev)
  have nothingInFlight : a.parser.inFlight = [] := by rw [ParserRun.inFlight, ended]
  calc batchRows dev a.handedBatches = a.parser.sentRows dev := by
        rw [stopping.handed, drained, List.take_length, ParserRun.sentRows]
    _ = a.parser.pushedRows dev := by
        rw [← flow.books.rows dev, nothingPending, List.append_nil]
    _ = deviceRows dev a.parser.decoded := by
        rw [← flow.pushed, nothingInFlight, List.append_nil, ParserRun.pushedRows]

/-- **The invariant of the runs whose parser leaves an empty queue.** -/
structure Orderly (a : Adapter) : Prop where
  flow : Flow a
  stopping : Stopping a
  empty : a.parser.pc.left = true → a.taken = a.ingested.length

namespace Orderly

/-- Outside its loop the parser has nothing in front of it, and nothing is accepted any more. -/
theorem empty_next {db : ConfigDB} {a a' : Adapter} {event : AdapterEvent} (orderly : Orderly a)
    (meets : a.leavesEmpty event) (moved : a.next db event = some a')
    (left : a'.parser.pc.left = true) : a'.taken = a'.ingested.length := by
  obtain ⟨serving, _, _, _, _, _, _, rfl, _⟩ | moved | ⟨step, rfl, moved⟩ | ⟨step, moved⟩ :=
    Adapter.next_cases moved
  · have down := orderly.stopping.parserLeft left
    rw [serving] at down
    cases down
  · obtain ⟨_, _, _, rfl, _⟩ := Adapter.mainStep_cases moved
    exact orderly.empty left
  · obtain ⟨parser, move, ⟨item, here, rfl, rfl⟩ | ⟨order, rfl, _, rfl⟩ | ⟨_, other, rfl⟩⟩ :=
      Adapter.parserStep_cases moved
    · rcases move.left_of_left left with already | ⟨order, leave⟩
      · exact absurd rfl (move.not_take already item.chunk)
      · cases leave
    · exact meets rfl
    · rcases move.left_of_left left with already | ⟨order, leave⟩
      · exact orderly.empty already
      · exact absurd leave (other order)
  · obtain ⟨_, rfl⟩ := Adapter.writerStep_frame moved
    exact orderly.empty left

theorem of_reach {db : ConfigDB} {batchRows : Int} {a : Adapter}
    (reach : Reach (Adapter.next db) Adapter.leavesEmpty (Adapter.start batchRows) a) :
    Orderly a := by
  refine Reach.invariant reach ⟨Flow.start batchRows, Stopping.start batchRows, nofun⟩ ?_
  intro a event a' orderly meets moved
  exact ⟨orderly.flow.next moved, orderly.stopping.next orderly.flow.books moved,
    orderly.empty_next meets moved⟩

end Orderly

/-- **Nothing that was accepted is lost**, whenever the shutdown starts and however the threads
interleave, if the parser leaves its loop with an empty ingest queue. -/
theorem nothing_lost {db : ConfigDB} {batchRows : Int} {a : Adapter}
    (reach : Reach (Adapter.next db) Adapter.leavesEmpty (Adapter.start batchRows) a) :
    a.NothingLost := by
  have orderly := Orderly.of_reach reach
  refine ⟨fun ended => ?_, fun stopped => ⟨?_, orderly.stopping.written orderly.flow stopped⟩⟩
  · have all : a.taken = a.ingested.length := orderly.empty (by rw [ended]; rfl)
    rw [orderly.flow.fed, all, List.take_length]
  · exact orderly.stopping.parserEnded (by rw [stopped]; decide)

/-- An endpoint of the fixtures. -/
def fixturePeer : Peer := ⟨['1', '0', '.', '0', '.', '0', '.', '5'], 5000⟩

def fixtureDB : ConfigDB :=
  { groupByIpPort := AList.insert fixturePeer.key ⟨0, fixtureGroup⟩ ∅ }

/-- A second chunk arrives while the parser works on the first; then the shutdown goes on until the
parser's flag is down, and the parser is back at its loop condition. -/
def busyEvents : List AdapterEvent :=
  [.connect fixturePeer, .message 0 fixtureChunk.data 7000, .parser .goOn,
    .parser (.take fixtureChunk), .message 0 fixtureChunk.data 7000] ++
    List.replicate 5 .main ++ List.replicate 7 (.parser .work)

/-- The parser leaves its loop, the writer drains the queue, and both are stopped. -/
def endingEvents (batches : ℕ) : List AdapterEvent :=
  [.parser (.leave [eventDevice, statusDevice])] ++ List.replicate 3 (.parser .work) ++
    List.replicate 3 .main ++ [.writer .leave] ++
    List.replicate batches (.writer (.take .parser)) ++ [.writer .empty, .main]

/-- The parser takes the second chunk before it reads the flag. -/
def orderlyEvents : List AdapterEvent :=
  busyEvents ++ [.parser .goOn, .parser (.take fixtureChunk)] ++
    List.replicate 7 (.parser .work) ++ endingEvents 3

theorem nothing_lost_fixture :
    ∃ a, play (Adapter.next fixtureDB) Adapter.leavesEmpty (Adapter.start 10) orderlyEvents =
        some a ∧ a.phase = .writerStopped ∧ a.ingested.length = 2 ∧ a.NothingLost := by
  have shape : (play (Adapter.next fixtureDB) Adapter.leavesEmpty (Adapter.start 10)
      orderlyEvents).map (fun a => (a.phase, a.ingested.length)) = some (.writerStopped, 2) := by
    decide +kernel
  obtain ⟨a, done, shape⟩ := Option.map_eq_some_iff.mp shape
  rw [Prod.mk.injEq] at shape
  exact ⟨a, done, shape.1, shape.2, nothing_lost (Reach.of_play .start done)⟩

/-- **The shutdown drops a queued chunk**: the parser reads the lowered flag right after the first
chunk, and the second is never fed to the codec. -/
theorem shutdown_drops_chunk :
    ∃ a, Reach (Adapter.next fixtureDB) anyStep (Adapter.start 10) a ∧ a.phase = .writerStopped ∧
      a.ingested.length = 2 ∧ a.fedChunks.length = 1 ∧ ¬ a.NothingLost := by
  have shape : (play (Adapter.next fixtureDB) anyStep (Adapter.start 10)
      (busyEvents ++ endingEvents 2)).map
      (fun a => (a.phase, a.ingested.length, a.fedChunks.length, a.parser.pc)) =
        some (.writerStopped, 2, 1, .exited) := by
    decide +kernel
  obtain ⟨a, done, shape⟩ := Option.map_eq_some_iff.mp shape
  simp only [Prod.mk.injEq] at shape
  obtain ⟨stopped, accepted, fed, ended⟩ := shape
  refine ⟨a, Reach.of_play .start done, stopped, accepted, fed, fun holds => ?_⟩
  have all := congrArg List.length (holds.1 ended)
  rw [fed, List.length_map, accepted] at all
  cases all

end EtherAdapter
