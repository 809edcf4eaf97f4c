/-
**The asynchronous log** (`AsyncLogging.cpp`, `LogStream.h`: `FixedBuffer`).

Threads append lines to buffers under a mutex; a background thread takes the buffers over under the
same mutex and writes them outside it. One step of the model is what happens without letting
another thread in: an `append`, the test of `_running`, taking the buffers over, writing one buffer.
`Condition::tryWait` gives the mutex up and may return at any time, so an `append` can come while
the thread waits.

`output.append` adds to the file; that a file may be rolled over, and errors of `fwrite`, are left
out. What is written is flushed before the thread ends.
-/

import EtherAdapter.Model.Device

namespace EtherAdapter

/-! ### Buffers -/

def kLargeBuffer : ℕ := 4000 * 1000

/-- `FixedBuffer::append`: what does not fit is dropped. -/
def appendFixed (buffer line : Bytes) : Bytes :=
  if line.length < kLargeBuffer - buffer.length then buffer ++ line else buffer

/-! ### The log -/

/-- Where the background thread is in `threadFunc`. -/
inductive LogPhase where
  /-- At the test of `_running`. -/
  | testing
  /-- The test has passed; the mutex comes next. -/
  | locking
  /-- In `_cond.tryWait`. -/
  | waiting
  /-- The buffers have been taken over. -/
  | writing
  | exited
deriving DecidableEq, Repr

structure AsyncLogging where
  running : Bool := true
  currentBuffer : Bytes := []
  buffers : List Bytes := []
  phase : LogPhase := .testing
  buffersToWrite : List Bytes := []
  /-- What has been written. -/
  file : Bytes := []
  /-- `stop` has been called, and it has returned. -/
  stopping : Bool := false
  stopped : Bool := false
  /-- The lines of all calls of `append` that have returned. -/
  lines : List Bytes := []
deriving DecidableEq, Repr

namespace AsyncLogging

def append (log : AsyncLogging) (line : Bytes) : AsyncLogging :=
  if line.length < kLargeBuffer - log.currentBuffer.length then
    { log with
      currentBuffer := appendFixed log.currentBuffer line, lines := log.lines ++ [line] }
  else
    { log with
      buffers := log.buffers ++ [log.currentBuffer], currentBuffer := appendFixed [] line
      lines := log.lines ++ [line] }

/-- The buffers change hands, under the mutex. -/
def takeOver (log : AsyncLogging) : AsyncLogging :=
  { log with
    buffersToWrite := log.buffers ++ [log.currentBuffer]
    buffers := log.buffersToWrite
    currentBuffer := []
    phase := .writing }

/-- The next step of `threadFunc`; `none` when it has returned. -/
def threadFunc (log : AsyncLogging) : Option AsyncLogging :=
  match log.phase with
  | .testing => some { log with phase := if log.running then .locking else .exited }
  | .locking => some (if log.buffers = [] then { log with phase := .waiting } else log.takeOver)
  | .waiting => some log.takeOver
  | .writing =>
    match log.buffersToWrite with
    | [] => some { log with phase := .testing }
    | buffer :: rest => some { log with file := log.file ++ buffer, buffersToWrite := rest }
  | .exited => none

end AsyncLogging

inductive LogEvent where
  | append (line : Bytes)
  /-- The background thread makes its next step. -/
  | thread
  /-- `stop` is called: `_running` is cleared. -/
  | stop
  /-- `_thread.join()` returns, and with it `stop`. -/
  | join
deriving DecidableEq, Repr

/-- One step; `none` when it cannot happen. There is one call of `stop`. -/
def AsyncLogging.next (log : AsyncLogging) : LogEvent → Option AsyncLogging
  | .append line => some (log.append line)
  | .thread => log.threadFunc
  | .stop => if log.stopping then none else some { log with running := false, stopping := true }
  | .join =>
    if log.stopping ∧ log.phase = .exited then some { log with stopped := true } else none

end EtherAdapter
