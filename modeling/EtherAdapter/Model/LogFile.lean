/-
**Log files** (`LogFile.cpp`), and the asynchronous log with them as its output.

A log file is named by the second in which it was opened. It is rolled over when it has grown
beyond `_rollSize`, and when a new day has begun, for which the clock is read only once in
`_checkEveryN` appends. Whatever the reason, a new file needs a later second.

The calls of `fwrite` and `time` have their results in the events. `fopen` succeeds.
-/

import EtherAdapter.Model.Logging

namespace EtherAdapter

/-! ### One file -/

structure AppendFile where
  /-- The second in its name. -/
  opened : ℕ
  bytes : Bytes := []
  /-- How many of the bytes were flushed. -/
  flushed : ℕ := 0
  writtenBytes : ℕ := 0
  /-- The calls of `append`, with the second of each. -/
  entries : List (ℕ × Bytes) := []
deriving DecidableEq, Repr

/-- The loop of `AppendFile::append` on the rest of a line, on what the calls of `fwrite` return. -/
def writeRest (rest : Bytes) : List ℕ → Bytes
  | [] => []
  | x :: results => if x = 0 then [] else rest.take x ++ writeRest (rest.drop x) results

/-- What `AppendFile::append` writes of a line. The first call of `fwrite` may write nothing. -/
def writtenOf (logline : Bytes) : List ℕ → Bytes
  | [] => []
  | n :: results => logline.take n ++ writeRest (logline.drop n) results

namespace AppendFile

def append (file : AppendFile) (called : ℕ) (logline : Bytes) (results : List ℕ) : AppendFile :=
  { file with
    bytes := file.bytes ++ writtenOf logline results
    writtenBytes := file.writtenBytes + logline.length
    entries := file.entries ++ [(called, logline)] }

def flush (file : AppendFile) : AppendFile := { file with flushed := file.bytes.length }

end AppendFile

/-! ### Rolling -/

/-- A day. -/
def kRollPerSeconds : ℕ := 60 * 60 * 24

def startOfPeriod (now : ℕ) : ℕ := now / kRollPerSeconds * kRollPerSeconds

structure LogFile where
  rollSize : ℕ
  flushInterval : ℕ := 3
  checkEveryN : ℕ := 1024
  count : ℕ := 0
  period : ℕ := 0
  lastRoll : ℕ := 0
  lastFlush : ℕ := 0
  /-- The earlier files, closed. -/
  closed : List AppendFile := []
  file : AppendFile
  /-- The clock, when it was read last. -/
  clock : ℕ
deriving DecidableEq, Repr

/-- A call of `append`: the second of the call, those that its calls of `time` return (where it
makes them), and what its calls of `fwrite` return. -/
structure LogAppend where
  called : ℕ
  check : ℕ
  roll : ℕ
  results : List ℕ
deriving DecidableEq, Repr

namespace LogFile

/-- All files, in the order in which they were opened. -/
def files (log : LogFile) : List AppendFile := log.closed ++ [log.file]

/-- The constructor. Before 1970 there is no file, and the first `append` follows a null pointer. -/
def start (rollSize flushInterval checkEveryN now : ℕ) : Option LogFile :=
  if 0 < now then
    some { rollSize, flushInterval, checkEveryN, period := startOfPeriod now, lastRoll := now,
           lastFlush := now, file := { opened := now }, clock := now }
  else none

/-- `rollFile`. The old file is closed, and flushed with that. -/
def rollFile (log : LogFile) (now : ℕ) : LogFile :=
  if log.lastRoll < now then
    { log with
      lastRoll := now, lastFlush := now, period := startOfPeriod now
      closed := log.closed ++ [log.file.flush], file := { opened := now } }
  else log

def flush (log : LogFile) : LogFile := { log with file := log.file.flush }

/-- `append_unlocked`, once the line is in the file. -/
def rollOrFlush (log : LogFile) (call : LogAppend) : LogFile :=
  if log.rollSize < log.file.writtenBytes then log.rollFile call.roll
  else if log.checkEveryN ≤ log.count + 1 then
    let log := { log with count := 0 }
    if startOfPeriod call.check ≠ log.period then log.rollFile call.roll
    else if log.flushInterval < call.check - log.lastFlush then
      { log with lastFlush := call.check, file := log.file.flush }
    else log
  else { log with count := log.count + 1 }

def append (log : LogFile) (logline : Bytes) (call : LogAppend) : LogFile :=
  { log with file := log.file.append call.called logline call.results, clock := call.roll }
    |>.rollOrFlush call

/-- One call of `append`. -/
def next (log : LogFile) (event : Bytes × LogAppend) : Option LogFile :=
  some (log.append event.1 event.2)

end LogFile

/-! ### The asynchronous log and its files -/

structure RollingLog where
  log : AsyncLogging := {}
  out : LogFile
deriving DecidableEq, Repr

/-- A step of the log; where the background thread writes a buffer, `call` says how. -/
structure RollingEvent where
  event : LogEvent
  call : LogAppend
deriving DecidableEq, Repr

namespace RollingLog

/-- What a step of the background thread does to the files: a buffer is written, or all are and the
file is flushed. -/
def output (s : RollingLog) (call : LogAppend) : LogFile :=
  match s.log.phase, s.log.buffersToWrite with
  | .writing, [] => s.out.flush
  | .writing, buffer :: _ => s.out.append buffer call
  | _, _ => s.out

def next (s : RollingLog) (e : RollingEvent) : Option RollingLog :=
  (s.log.next e.event).map fun log =>
    { log, out := if e.event = .thread then s.output e.call else s.out }

end RollingLog

end EtherAdapter
