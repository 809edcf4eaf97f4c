/-
**What the asynchronous log keeps when it is stopped.**

Every line is in the file, with the background thread, or in the buffers, in this order and once:
`AsyncLogging.Holds`, with the number of lines taken over so far. A line in the buffers reaches the
file only if the thread takes them over once more, and after `stop` it does so only if it had already
passed its test of `_running`.

* `LogPhase.due` — the thread takes the buffers over, whatever becomes of `_running`.
* `Holds.next` — what one step does to the count.
* **`stop_keeps_lines_iff`** — when `stop` returns, the lines appended before it was called are in the
  file exactly if, at the call, the thread was about to take the buffers over or nothing was in them.
  A line appended while the thread writes is lost (`stop_loses_line`).
-/

import EtherAdapter.Runs.Basic
import EtherAdapter.Model.Logging

namespace EtherAdapter

open Runs

/-- The thread has passed the test of `_running` and takes the buffers over next. -/
def LogPhase.due : LogPhase → Bool
  | .locking | .waiting => true
  | .testing | .writing | .exited => false

namespace AsyncLogging

/-- What waits in the buffers. -/
def pending (log : AsyncLogging) : Bytes := log.buffers.flatten ++ log.currentBuffer

/-- Lines are shorter than a buffer. -/
def Short (_ : AsyncLogging) : LogEvent → Prop
  | .append line => line.length < kLargeBuffer
  | _ => True

/-- **Where the lines are**, the first `n` of them taken over by the thread. -/
structure Holds (log : AsyncLogging) (n : ℕ) : Prop where
  taken : log.file ++ log.buffersToWrite.flatten = (log.lines.take n).flatten
  waits : log.pending = (log.lines.drop n).flatten
  within : n ≤ log.lines.length
  clear : log.phase ≠ .writing → log.buffersToWrite = []

/-- What a step does to the count of lines taken over: nothing, and then it becomes due only with
`_running` set; or it takes all of them over. -/
structure Counts (log after : AsyncLogging) (n m : ℕ) : Prop where
  holds : after.Holds m
  lines : log.lines <+: after.lines
  running : after.running = true → log.running = true
  count : (m = n ∧ (after.phase.due = log.phase.due ∨ log.running = true ∧ after.phase.due = true)) ∨
    (log.phase.due = true ∧ m = log.lines.length)

variable {log after : AsyncLogging} {n : ℕ}

/-! ### Steps -/

theorem pending_append {line : Bytes} (short : line.length < kLargeBuffer) :
    (log.append line).pending = log.pending ++ line := by
  unfold append appendFixed
  split
  · simp only [pending, List.append_assoc]
  · have fits : line.length < kLargeBuffer - ([] : Bytes).length := short
    simp only [pending, if_pos fits, List.flatten_append, List.flatten_singleton, List.nil_append]

/-- A line goes to the buffers. -/
theorem Holds.append (holds : log.Holds n) {line : Bytes} (short : line.length < kLargeBuffer) :
    Counts log (log.append line) n n := by
  have lines : (log.append line).lines = log.lines ++ [line] := by
    unfold AsyncLogging.append
    split <;> rfl
  have rest : (log.append line).file = log.file ∧
      (log.append line).buffersToWrite = log.buffersToWrite ∧
      (log.append line).phase = log.phase ∧ (log.append line).running = log.running := by
    unfold AsyncLogging.append
    split <;> exact ⟨rfl, rfl, rfl, rfl⟩
  obtain ⟨file, toWrite, phase, running⟩ := rest
  refine ⟨⟨?_, ?_, ?_, ?_⟩, ?_, ?_, Or.inl ⟨rfl, Or.inl ?_⟩⟩
  · rw [file, toWrite, lines, List.take_append_of_le_length holds.within, holds.taken]
  · rw [pending_append short, lines, List.drop_append_of_le_length holds.within, holds.waits,
      List.flatten_append, List.flatten_singleton]
  · rw [lines, List.length_append]
    exact Nat.le_add_right_of_le holds.within
  · rw [phase, toWrite]
    exact holds.clear
  · rw [lines]
    exact List.prefix_append _ _
  · rw [running]
    exact id
  · rw [phase]

/-- All lines are taken over. -/
theorem Holds.takeOver (holds : log.Holds n) (due : log.phase.due = true) :
    Counts log log.takeOver n log.lines.length := by
  have clear : log.buffersToWrite = [] := by
    refine holds.clear fun writing => ?_
    rw [writing] at due
    cases due
  have taken := holds.taken
  rw [clear, List.flatten_nil, List.append_nil] at taken
  refine ⟨⟨?_, ?_, Nat.le_refl _, fun other => absurd rfl other⟩, List.prefix_refl _, id,
    Or.inr ⟨due, rfl⟩⟩
  · show log.file ++ (log.buffers ++ [log.currentBuffer]).flatten =
      (log.lines.take log.lines.length).flatten
    have waits := holds.waits
    rw [pending] at waits
    rw [List.flatten_append, List.flatten_singleton, waits, taken, ← List.flatten_append,
      List.take_append_drop, List.take_length]
  · show log.buffersToWrite.flatten ++ [] = (log.lines.drop log.lines.length).flatten
    rw [clear, List.drop_length]
    rfl

/-- A step that moves no line. -/
theorem Holds.same (holds : log.Holds n) (file : after.file = log.file)
    (toWrite : after.buffersToWrite = log.buffersToWrite) (buffers : after.pending = log.pending)
    (lines : after.lines = log.lines) (clear : after.phase ≠ .writing → after.buffersToWrite = []) :
    after.Holds n := by
  refine ⟨?_, ?_, ?_, clear⟩
  · rw [file, toWrite, lines, holds.taken]
  · rw [buffers, lines, holds.waits]
  · rw [lines]
    exact holds.within

theorem Holds.threadFunc (holds : log.Holds n) (moved : log.threadFunc = some after) :
    ∃ m, Counts log after n m := by
  unfold AsyncLogging.threadFunc at moved
  cases phase : log.phase with
  | testing =>
    simp only [phase] at moved
    cases moved
    have clear := holds.clear (by rw [phase]; decide)
    refine ⟨n, holds.same rfl rfl rfl rfl fun _ => clear, List.prefix_refl _, id,
      Or.inl ⟨rfl, ?_⟩⟩
    cases running : log.running with
    | true => exact Or.inr ⟨rfl, rfl⟩
    | false => exact Or.inl (by rw [phase]; rfl)
  | locking =>
    simp only [phase] at moved
    cases moved
    have clear := holds.clear (by rw [phase]; decide)
    have due : log.phase.due = true := by rw [phase]; rfl
    split
    · exact ⟨n, holds.same rfl rfl rfl rfl fun _ => clear, List.prefix_refl _, id,
        Or.inl ⟨rfl, Or.inl due.symm⟩⟩
    · exact ⟨_, holds.takeOver due⟩
  | waiting =>
    simp only [phase] at moved
    cases moved
    exact ⟨_, holds.takeOver (by rw [phase]; rfl)⟩
  | writing =>
    simp only [phase] at moved
    have idle : log.phase.due = false := by rw [phase]; rfl
    split at moved
    · rename_i none
      cases moved
      exact ⟨n, holds.same rfl rfl rfl rfl fun _ => none, List.prefix_refl _, id,
        Or.inl ⟨rfl, Or.inl idle.symm⟩⟩
    · rename_i buffer rest more
      cases moved
      refine ⟨n, ⟨?_, holds.waits, holds.within, fun other => absurd rfl other⟩,
        List.prefix_refl _, id, Or.inl ⟨rfl, Or.inl idle.symm⟩⟩
      have taken := holds.taken
      rw [more, List.flatten_cons, ← List.append_assoc] at taken
      exact taken
  | exited =>
    simp only [phase] at moved
    cases moved

/-- **One step of the log.** -/
theorem Holds.next (holds : log.Holds n) {event : LogEvent} (short : log.Short event)
    (moved : log.next event = some after) : ∃ m, Counts log after n m := by
  cases event with
  | append line =>
    cases moved
    exact ⟨n, holds.append short⟩
  | thread => exact holds.threadFunc moved
  | stop =>
    obtain ⟨_, same⟩ := Option.ite_none_left_eq_some.mp moved
    cases same
    exact ⟨n, holds.same rfl rfl rfl rfl holds.clear, List.prefix_refl _, nofun,
      Or.inl ⟨rfl, Or.inl rfl⟩⟩
  | join =>
    obtain ⟨_, same⟩ := Option.ite_none_right_eq_some.mp moved
    cases same
    exact ⟨n, holds.same rfl rfl rfl rfl holds.clear, List.prefix_refl _, id,
      Or.inl ⟨rfl, Or.inl rfl⟩⟩

theorem holds_start : ({} : AsyncLogging).Holds 0 := ⟨rfl, rfl, Nat.le_refl _, fun _ => rfl⟩

/-! ### Runs -/

variable {stopping last final : AsyncLogging}

theorem exists_holds (run : Reach next Short {} log) : ∃ n, log.Holds n := by
  refine @Reach.invariant _ _ _ _ _ _ (fun log => ∃ n, log.Holds n) run ⟨0, holds_start⟩ ?_
  rintro log event after ⟨n, holds⟩ short moved
  obtain ⟨m, counts⟩ := holds.next short moved
  exact ⟨m, counts.holds⟩

/-- A thread that is due, or has taken all the given lines over, does not end without them. -/
theorem reach_kept {lines : List Bytes} (run : Reach next Short stopping last)
    (prefix_ : lines <+: stopping.lines) (holds : stopping.Holds n)
    (kept : stopping.phase.due = true ∨ lines.length ≤ n) :
    ∃ m, last.Holds m ∧ lines <+: last.lines ∧ (last.phase.due = true ∨ lines.length ≤ m) := by
  refine @Reach.invariant _ _ _ _ _ _ (fun log => ∃ m, log.Holds m ∧ lines <+: log.lines ∧
    (log.phase.due = true ∨ lines.length ≤ m)) run ⟨n, holds, prefix_, kept⟩ ?_
  rintro log event after ⟨n, holds, within, kept⟩ short moved
  obtain ⟨m, counts⟩ := holds.next short moved
  refine ⟨m, counts.holds, within.trans counts.lines, ?_⟩
  rcases counts.count with ⟨rfl, same | ⟨_, due⟩⟩ | ⟨_, rfl⟩
  · rw [same]
    exact kept
  · exact Or.inl due
  · exact Or.inr within.length_le

/-- A thread that is not due takes no further line over once `_running` is cleared. -/
theorem reach_lost (run : Reach next Short stopping last) (holds : stopping.Holds n)
    (cleared : stopping.running = false) (idle : stopping.phase.due = false) :
    last.Holds n ∧ stopping.lines <+: last.lines := by
  have all : last.Holds n ∧ stopping.lines <+: last.lines ∧ last.running = false ∧
      last.phase.due = false := by
    refine @Reach.invariant _ _ _ _ _ _ (fun log => log.Holds n ∧ stopping.lines <+: log.lines ∧
      log.running = false ∧ log.phase.due = false) run
      ⟨holds, List.prefix_refl _, cleared, idle⟩ ?_
    rintro log event after ⟨holds, within, cleared, idle⟩ short moved
    obtain ⟨m, counts⟩ := holds.next short moved
    have stays : after.running = false := by
      by_contra set
      have before := counts.running (by simpa using set)
      rw [cleared] at before
      cases before
    rcases counts.count with ⟨rfl, same | ⟨running, _⟩⟩ | ⟨due, _⟩
    · exact ⟨counts.holds, within.trans counts.lines, stays, same.trans idle⟩
    · rw [cleared] at running
      cases running
    · rw [idle] at due
      cases due
  exact ⟨all.1, all.2.1⟩

theorem Holds.flatten_lines (holds : log.Holds n) :
    log.lines.flatten = (log.lines.take n).flatten ++ log.pending := by
  rw [holds.waits, ← List.flatten_append, List.take_append_drop]

/-- With nothing in the buffers, all lines count as taken over. -/
theorem Holds.of_empty (holds : log.Holds n) (empty : log.pending = []) :
    log.Holds log.lines.length := by
  refine ⟨?_, ?_, Nat.le_refl _, holds.clear⟩
  · rw [holds.taken, List.take_length, holds.flatten_lines, empty, List.append_nil]
  · rw [empty, List.drop_length]
    rfl

/-- Once the thread has ended, what it has taken over is in the file. -/
theorem Holds.file_of_exited (holds : log.Holds n) (exited : log.phase = .exited) :
    log.file = (log.lines.take n).flatten := by
  have clear : log.buffersToWrite = [] := holds.clear (by rw [exited]; decide)
  have taken := holds.taken
  rwa [clear, List.flatten_nil, List.append_nil] at taken

/-- **When `stop` returns, the lines appended before it was called are in the file, once and in
order, exactly if at the call the thread was about to take the buffers over, or nothing was in
them.** -/
theorem stop_keeps_lines_iff (before : Reach next Short {} log)
    (stop : log.next .stop = some stopping) (during : Reach next Short stopping last)
    (joined : last.next .join = some final) :
    (∃ later, log.lines ++ later <+: final.lines ∧ final.file = (log.lines ++ later).flatten) ↔
      log.phase.due = true ∨ log.pending = [] := by
  obtain ⟨n, holds⟩ := exists_holds before
  obtain ⟨_, called⟩ := Option.ite_none_left_eq_some.mp stop
  cases called
  obtain ⟨⟨_, exited⟩, returned⟩ := Option.ite_none_right_eq_some.mp joined
  cases returned
  constructor
  · rintro ⟨later, _, written⟩
    by_contra neither
    rw [not_or, Bool.not_eq_true] at neither
    obtain ⟨lost, same⟩ := reach_lost during (holds.same rfl rfl rfl rfl holds.clear) rfl neither.1
    have file : last.file = (log.lines.take n).flatten := by
      obtain ⟨more, lines⟩ := same
      rw [lost.file_of_exited exited, ← lines, List.take_append_of_le_length holds.within]
    -- the file is too short for the lines in the buffers
    have size := congrArg List.length (file.symm.trans written)
    rw [List.flatten_append, List.length_append, holds.flatten_lines, List.length_append] at size
    have some := List.length_pos_of_ne_nil neither.2
    omega
  · intro safe
    have counted : ∃ m, ({ log with running := false, stopping := true } : AsyncLogging).Holds m ∧
        (log.phase.due = true ∨ log.lines.length ≤ m) := by
      rcases safe with due | empty
      · exact ⟨n, holds.same rfl rfl rfl rfl holds.clear, Or.inl due⟩
      · exact ⟨log.lines.length, (holds.of_empty empty).same rfl rfl rfl rfl holds.clear,
          Or.inr (Nat.le_refl _)⟩
    obtain ⟨m, held, kept⟩ := counted
    obtain ⟨m, held, within, done⟩ := reach_kept during (List.prefix_refl _) held kept
    have enough : log.lines.length ≤ m := by
      rw [exited] at done
      exact done.resolve_left Bool.false_ne_true
    obtain ⟨later, lines⟩ := List.prefix_take_iff.mpr ⟨within, enough⟩
    refine ⟨later, ?_, ?_⟩
    · rw [lines]
      exact List.take_prefix _ _
    · rw [lines]
      exact held.file_of_exited exited

/-! ### Two runs -/

instance (log : AsyncLogging) : (event : LogEvent) → Decidable (log.Short event)
  | .append line => inferInstanceAs (Decidable (line.length < kLargeBuffer))
  | .thread | .stop | .join => inferInstanceAs (Decidable True)

/-- The log after some steps. -/
def run (log : AsyncLogging) (events : List LogEvent) : AsyncLogging :=
  (play next Short log events).getD log

/-- A line that comes while the thread writes. -/
def lineWhileWriting : AsyncLogging :=
  run {} [.thread, .thread, .thread, .append [0x78, 0x0A]]

/-- A line that comes while the thread waits. -/
def lineWhileWaiting : AsyncLogging := run {} [.thread, .thread, .append [0x78, 0x0A]]

/-- `stop`, and the steps of the thread until it ends. -/
def stopCalled (log : AsyncLogging) : AsyncLogging := run log [.stop]

def threadEnded (log : AsyncLogging) (steps : ℕ) : AsyncLogging :=
  run (stopCalled log) (List.replicate steps .thread)

/-- The thread writes an empty buffer, sees that `_running` is cleared, and ends without the line. -/
theorem stop_loses_line :
    Reach next Short {} lineWhileWriting ∧
      lineWhileWriting.next .stop = some (stopCalled lineWhileWriting) ∧
      Reach next Short (stopCalled lineWhileWriting) (threadEnded lineWhileWriting 3) ∧
      (threadEnded lineWhileWriting 3).next .join =
        some { threadEnded lineWhileWriting 3 with stopped := true } ∧
      lineWhileWriting.lines = [[0x78, 0x0A]] ∧ (threadEnded lineWhileWriting 3).file = [] ∧
      ¬ ∃ later, lineWhileWriting.lines ++ later <+: (threadEnded lineWhileWriting 3).lines ∧
        (threadEnded lineWhileWriting 3).file = (lineWhileWriting.lines ++ later).flatten := by
  have first : play next Short {} [.thread, .thread, .thread, .append [0x78, 0x0A]] =
      some lineWhileWriting := by decide +kernel
  have second : play next Short (stopCalled lineWhileWriting) (List.replicate 3 .thread) =
      some (threadEnded lineWhileWriting 3) := by decide +kernel
  have lines : lineWhileWriting.lines = [[0x78, 0x0A]] := by decide +kernel
  have file : (threadEnded lineWhileWriting 3).file = [] := by decide +kernel
  refine ⟨Reach.start.of_play first, by decide +kernel, Reach.start.of_play second,
    by decide +kernel, lines, file, ?_⟩
  rintro ⟨later, _, written⟩
  rw [file, lines] at written
  cases written

theorem stop_keeps_waiting_line :
    ∃ later, lineWhileWaiting.lines ++ later <+: (threadEnded lineWhileWaiting 4).lines ∧
      (threadEnded lineWhileWaiting 4).file = (lineWhileWaiting.lines ++ later).flatten := by
  have first : play next Short {} [.thread, .thread, .append [0x78, 0x0A]] =
      some lineWhileWaiting := by decide +kernel
  have second : play next Short (stopCalled lineWhileWaiting) (List.replicate 4 .thread) =
      some (threadEnded lineWhileWaiting 4) := by decide +kernel
  have stop : lineWhileWaiting.next .stop = some (stopCalled lineWhileWaiting) := by decide +kernel
  have joined : (threadEnded lineWhileWaiting 4).next .join =
      some { threadEnded lineWhileWaiting 4 with stopped := true } := by decide +kernel
  exact (stop_keeps_lines_iff (Reach.start.of_play first) stop (Reach.start.of_play second)
    joined).mpr (Or.inl (by decide +kernel))

end AsyncLogging

end EtherAdapter
