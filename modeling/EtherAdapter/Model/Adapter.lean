/-
**The adapter at work and at its shutdown** (`AdapterApp.cpp`, `EtherDBWriter::run`).

Three threads share two queues. The main thread runs the event loop, whose callbacks fill the ingest
queue (TCP data) and, for HTTP posts, the write queue; after the loop it stops the components one by
one. The parser thread moves from the ingest queue to the write queue, the writer thread from the
write queue to `writeBatch`.

A queue is the log of what was ever enqueued and the number of elements dequeued: first in first out
for each producer, and nothing is lost. The write queue has two producers and keeps one such log for
each. The run flags are read with relaxed ordering, so a thread may go on reading an old `true`.

One step of the adapter is `Adapter.next`, on an event that says which thread moves.
-/

import EtherAdapter.Model.Ingest

namespace EtherAdapter

/-! ### The main thread -/

/-- How far the main thread has come. -/
inductive Phase where
  /-- In the event loop. -/
  | serving
  /-- The loop has returned: no callback runs any more. -/
  | loopLeft
  | serverStopped
  | httpStopped
  | pollerStopped
  /-- In `ParserWorker::stop`, with the flag down. -/
  | parserStopping
  | parserStopped
  | publishStopped
  /-- In `EtherDBWriter::stop`, with the flag down. -/
  | writerStopping
  | writerStopped
deriving DecidableEq, Repr

namespace Phase

def rank : Phase → ℕ
  | .serving => 0
  | .loopLeft => 1
  | .serverStopped => 2
  | .httpStopped => 3
  | .pollerStopped => 4
  | .parserStopping => 5
  | .parserStopped => 6
  | .publishStopped => 7
  | .writerStopping => 8
  | .writerStopped => 9

/-- The flag of the parser thread is up. -/
def parserRunning (phase : Phase) : Bool := phase.rank < Phase.parserStopping.rank

/-- The flag of the writer thread is up. -/
def writerRunning (phase : Phase) : Bool := phase.rank < Phase.writerStopping.rank

end Phase

/-! ### The writer thread -/

/-- Who enqueued a batch. -/
inductive Producer where
  | parser
  | http
deriving DecidableEq, Repr

inductive WriterPc where
  /-- At the loop condition. -/
  | check
  /-- In `wait_dequeue_timed`. -/
  | poll
  /-- In the `try_dequeue` loop after the flag came down. -/
  | draining
  | exited
deriving DecidableEq, Repr

/-- The writer thread: the batches dequeued, by producer, and those handed to `writeBatch`. -/
structure WriterRun where
  pc : WriterPc := .check
  fromParser : ℕ := 0
  fromHttp : ℕ := 0
  written : List (Producer × RowBatch) := []

inductive WriterEvent where
  | goOn
  | leave
  /-- The dequeue times out. -/
  | idle
  | take (producer : Producer)
  /-- `try_dequeue` finds nothing. -/
  | empty
deriving DecidableEq, Repr

/-- A dequeued batch: only a batch with a device and rows is written. -/
def WriterRun.handle (writer : WriterRun) (producer : Producer) (batch : RowBatch) : WriterRun where
  pc := if writer.pc = .poll then .check else writer.pc
  fromParser := writer.fromParser + if producer = .parser then 1 else 0
  fromHttp := writer.fromHttp + if producer = .http then 1 else 0
  written := writer.written ++
    if batch.dev.isSome ∧ batch.isEmpty = false then [(producer, batch)] else []

/-! ### The adapter -/

/-- A chunk on the ingest queue, with the connection it came from. -/
structure Ingested where
  conn : ℕ
  chunk : RawChunk
deriving DecidableEq, Repr

/-- The adapter, with its history. Connections are numbered in the order they came up; `received` is
what arrived on them. -/
structure Adapter where
  phase : Phase := .serving
  opened : List Peer := []
  live : List ℕ := []
  server : IngestServer := {}
  received : List (ℕ × Bytes × Int) := []
  ingested : List Ingested := []
  taken : ℕ := 0
  parser : ParserRun
  posted : List RowBatch := []
  writer : WriterRun := {}

/-- Which thread moves, and what it does not decide itself. -/
inductive AdapterEvent where
  | connect (peer : Peer)
  | disconnect (conn : ℕ)
  | message (conn : ℕ) (data : Bytes) (timeUs : Int)
  /-- An HTTP request stores a batch. -/
  | post (batch : RowBatch)
  /-- The main thread goes one step on with the shutdown. -/
  | main
  | parser (event : ParserEvent)
  | writer (event : WriterEvent)
deriving DecidableEq, Repr

namespace Adapter

/-- The next batch of a producer on the write queue. -/
def queued (a : Adapter) : Producer → Option RowBatch
  | .parser => a.parser.sent[a.writer.fromParser]?
  | .http => a.posted[a.writer.fromHttp]?

/-- The shutdown, in the order of `AdapterApp::run`; `stop` of a thread returns once the thread has
ended. -/
def mainStep (a : Adapter) : Option Adapter :=
  match a.phase with
  | .serving => some { a with phase := .loopLeft }
  | .loopLeft => some { a with phase := .serverStopped, server := {}, live := [] }
  | .serverStopped => some { a with phase := .httpStopped }
  | .httpStopped => some { a with phase := .pollerStopped }
  | .pollerStopped => some { a with phase := .parserStopping }
  | .parserStopping =>
    if a.parser.pc = .exited then some { a with phase := .parserStopped } else none
  | .parserStopped => some { a with phase := .publishStopped }
  | .publishStopped => some { a with phase := .writerStopping }
  | .writerStopping =>
    if a.writer.pc = .exited then some { a with phase := .writerStopped } else none
  | .writerStopped => none

/-- A step of the parser thread. It leaves its loop only if the flag is down; a chunk comes from the
head of the ingest queue. -/
def parserStep (a : Adapter) (event : ParserEvent) : Option Adapter :=
  match event with
  | .take chunk =>
    if (a.ingested[a.taken]?).map Ingested.chunk = some chunk then
      (a.parser.next event).map fun parser => { a with parser, taken := a.taken + 1 }
    else none
  | .leave _ =>
    if a.phase.parserRunning then none
    else (a.parser.next event).map fun parser => { a with parser }
  | _ => (a.parser.next event).map fun parser => { a with parser }

/-- A step of the writer thread. -/
def writerStep (a : Adapter) (event : WriterEvent) : Option Adapter :=
  match event with
  | .goOn =>
    if a.writer.pc = .check then some { a with writer := { a.writer with pc := .poll } } else none
  | .leave =>
    if a.writer.pc = .check ∧ a.phase.writerRunning = false then
      some { a with writer := { a.writer with pc := .draining } }
    else none
  | .idle =>
    if a.writer.pc = .poll then some { a with writer := { a.writer with pc := .check } } else none
  | .take producer =>
    if a.writer.pc = .poll ∨ a.writer.pc = .draining then
      (a.queued producer).map fun batch => { a with writer := a.writer.handle producer batch }
    else none
  | .empty =>
    if a.writer.pc = .draining ∧ a.queued .parser = none ∧ a.queued .http = none then
      some { a with writer := { a.writer with pc := .exited } }
    else none

/-- **One step of the adapter.** Callbacks run in the event loop only, and messages arrive on
connections that are up. -/
def next (db : ConfigDB) (a : Adapter) : AdapterEvent → Option Adapter
  | .connect peer =>
    if a.phase = .serving then
      some { a with
        opened := a.opened ++ [peer]
        live := a.opened.length :: a.live
        server := a.server.connect db a.opened.length peer }
    else none
  | .disconnect conn =>
    if a.phase = .serving ∧ conn ∈ a.live then
      some { a with live := a.live.erase conn, server := a.server.disconnect conn }
    else none
  | .message conn data timeUs =>
    if a.phase = .serving ∧ conn ∈ a.live then
      (a.opened[conn]?).map fun peer =>
        let done := a.server.onMessage db conn peer data timeUs
        { a with
          server := done.1
          received := a.received ++ [(conn, data, timeUs)]
          ingested := a.ingested ++ (done.2.map fun chunk => ⟨conn, chunk⟩).toList }
    else none
  | .post batch =>
    if a.phase = .serving then some { a with posted := a.posted ++ [batch] } else none
  | .main => a.mainStep
  | .parser event => a.parserStep event
  | .writer event => a.writerStep event

/-! ### What a step can do -/

/-- Inversion of `mainStep`: one phase further, behind the thread that had to end. -/
theorem mainStep_cases {a a' : Adapter} (moved : a.mainStep = some a') :
    ∃ phase server live, a' = { a with phase, server, live } ∧ phase.rank = a.phase.rank + 1 ∧
      (server = a.server ∨ server = {}) ∧
      (phase.rank = Phase.parserStopped.rank → a.parser.pc = .exited) ∧
      (phase.rank = Phase.writerStopped.rank → a.writer.pc = .exited) := by
  unfold mainStep at moved
  cases here : a.phase with
  | serving | loopLeft | serverStopped | httpStopped | pollerStopped | parserStopped
    | publishStopped =>
    rw [here] at moved
    cases moved
    exact ⟨_, _, _, rfl, rfl, by simp, nofun, nofun⟩
  | parserStopping =>
    rw [here] at moved
    obtain ⟨ended, moved⟩ := Option.ite_none_right_eq_some.mp moved
    cases moved
    exact ⟨_, _, _, rfl, rfl, Or.inl rfl, fun _ => ended, nofun⟩
  | writerStopping =>
    rw [here] at moved
    obtain ⟨ended, moved⟩ := Option.ite_none_right_eq_some.mp moved
    cases moved
    exact ⟨_, _, _, rfl, rfl, Or.inl rfl, nofun, fun _ => ended⟩
  | writerStopped =>
    rw [here] at moved
    cases moved

/-- Inversion of `parserStep`: a step of the thread; a chunk is the head of the ingest queue, and
the loop is left with the flag down. -/
theorem parserStep_cases {a a' : Adapter} {event : ParserEvent}
    (moved : a.parserStep event = some a') :
    ∃ parser, a.parser.Moves event parser ∧
      ((∃ item, a.ingested[a.taken]? = some item ∧ event = .take item.chunk ∧
          a' = { a with parser, taken := a.taken + 1 }) ∨
        (∃ order, event = .leave order ∧ a.phase.parserRunning = false ∧ a' = { a with parser }) ∨
        ((∀ chunk, event ≠ .take chunk) ∧ (∀ order, event ≠ .leave order) ∧
          a' = { a with parser })) := by
  cases event with
  | take chunk =>
    obtain ⟨head, moved⟩ := Option.ite_none_right_eq_some.mp moved
    obtain ⟨item, here, rfl⟩ := Option.map_eq_some_iff.mp head
    obtain ⟨parser, step, rfl⟩ := Option.map_eq_some_iff.mp moved
    exact ⟨parser, ParserRun.moves_of_next step, Or.inl ⟨item, here, rfl, rfl⟩⟩
  | leave order =>
    obtain ⟨down, moved⟩ := Option.ite_none_left_eq_some.mp moved
    obtain ⟨parser, step, rfl⟩ := Option.map_eq_some_iff.mp moved
    exact ⟨parser, ParserRun.moves_of_next step,
      Or.inr (Or.inl ⟨order, rfl, Bool.eq_false_iff.mpr down, rfl⟩)⟩
  | goOn | idle order | work =>
    obtain ⟨parser, step, rfl⟩ := Option.map_eq_some_iff.mp moved
    exact ⟨parser, ParserRun.moves_of_next step, Or.inr (Or.inr ⟨nofun, nofun, rfl⟩)⟩

/-- Inversion of `writerStep`. -/
theorem writerStep_cases {a a' : Adapter} {event : WriterEvent}
    (moved : a.writerStep event = some a') :
    (∃ pc, (a.writer.pc = .check ∨ a.writer.pc = .poll) ∧ (pc = .check ∨ pc = .poll) ∧
        a' = { a with writer := { a.writer with pc } }) ∨
      (a.writer.pc = .check ∧ a.phase.writerRunning = false ∧
        a' = { a with writer := { a.writer with pc := .draining } }) ∨
      (∃ producer batch, (a.writer.pc = .poll ∨ a.writer.pc = .draining) ∧
        a.queued producer = some batch ∧
        a' = { a with writer := a.writer.handle producer batch }) ∨
      (a.writer.pc = .draining ∧ a.queued .parser = none ∧ a.queued .http = none ∧
        a' = { a with writer := { a.writer with pc := .exited } }) := by
  cases event with
  | goOn | idle =>
    obtain ⟨here, moved⟩ := Option.ite_none_right_eq_some.mp moved
    cases moved
    exact Or.inl ⟨_, by simp [here], by simp, rfl⟩
  | leave =>
    obtain ⟨⟨here, down⟩, moved⟩ := Option.ite_none_right_eq_some.mp moved
    cases moved
    exact Or.inr (Or.inl ⟨here, down, rfl⟩)
  | take producer =>
    obtain ⟨here, moved⟩ := Option.ite_none_right_eq_some.mp moved
    obtain ⟨batch, head, rfl⟩ := Option.map_eq_some_iff.mp moved
    exact Or.inr (Or.inr (Or.inl ⟨producer, batch, here, head, rfl⟩))
  | empty =>
    obtain ⟨⟨here, noParser, noHttp⟩, moved⟩ := Option.ite_none_right_eq_some.mp moved
    cases moved
    exact Or.inr (Or.inr (Or.inr ⟨here, noParser, noHttp, rfl⟩))

/-- The writer thread changes nothing but its own state. -/
theorem writerStep_frame {a a' : Adapter} {event : WriterEvent}
    (moved : a.writerStep event = some a') : ∃ writer, a' = { a with writer } := by
  obtain ⟨_, _, _, rfl⟩ | ⟨_, _, rfl⟩ | ⟨_, _, _, _, rfl⟩ | ⟨_, _, _, rfl⟩ := writerStep_cases moved
  all_goals exact ⟨_, rfl⟩

/-- The adapter when its threads are started. -/
def start (batchRows : Int) : Adapter := { parser := ParserRun.start batchRows }

end Adapter

end EtherAdapter
