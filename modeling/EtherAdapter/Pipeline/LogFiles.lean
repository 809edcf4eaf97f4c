/-
**What the log files hold.**

* `LogFile.Inv` — the bounds of the files so far, with what the next rollover will be judged by.
* **`log_files_rolled`** — while the clock does not run backwards, the lines of a file but for the
  last one are within the roll size, or were all logged in the second in which it was opened; and no
  file has more than `checkEveryN` lines of another day than its own.
* `RollingLog.Grouped` — files, buffers on their way and buffers to come are whole lines in order.
* **`log_files_whole`** — in every run of the asynchronous log, whatever the clock does: every line
  that has left the buffers stands whole in one file, once and in order, and the files have
  different names. Between two rounds of the background thread all of it is flushed.
-/

import Mathlib.Data.List.Basic
import EtherAdapter.Model.LogFile
import EtherAdapter.Pipeline.Logging

namespace EtherAdapter

open Runs

/-! ### The bounds of a file -/

theorem startOfPeriod_mono {a b : ℕ} (le : a ≤ b) : startOfPeriod a ≤ startOfPeriod b :=
  Nat.mul_le_mul_right _ (Nat.div_le_div_right le)

namespace AppendFile

/-- The bytes of some lines. -/
def total (entries : List (ℕ × Bytes)) : ℕ := (entries.map Prod.snd).flatten.length

/-- The lines that were logged on another day. -/
def strays (file : AppendFile) : List (ℕ × Bytes) :=
  file.entries.filter fun entry => startOfPeriod entry.1 ≠ startOfPeriod file.opened

/-- A file is within its bounds. -/
structure Fits (rollSize checkEveryN : ℕ) (file : AppendFile) : Prop where
  size : rollSize < total file.entries.dropLast →
    ∀ entry ∈ file.entries.dropLast, entry.1 = file.opened
  days : file.strays.length ≤ checkEveryN

theorem total_append (entries : List (ℕ × Bytes)) (entry : ℕ × Bytes) :
    total (entries ++ [entry]) = total entries + entry.2.length := by
  rw [total, List.map_append, List.flatten_append, List.length_append, List.map_singleton,
    List.flatten_singleton]
  rfl

theorem strays_append (file : AppendFile) (called : ℕ) (logline : Bytes) (results : List ℕ) :
    (file.append called logline results).strays.length ≤ file.strays.length + 1 := by
  rw [strays, append, List.filter_append, List.length_append]
  exact Nat.add_le_add_left (List.length_filter_le _ _) _

/-- Lines of the opening day only. -/
theorem strays_eq_nil {file : AppendFile} (last : ℕ)
    (times : ∀ entry ∈ file.entries, file.opened ≤ entry.1 ∧ entry.1 ≤ last)
    (today : startOfPeriod last = startOfPeriod file.opened) : file.strays = [] := by
  rw [strays, List.filter_eq_nil_iff]
  intro entry member
  obtain ⟨after, before⟩ := times entry member
  have low := startOfPeriod_mono after
  have high := startOfPeriod_mono before
  rw [decide_eq_true_iff]
  omega

end AppendFile

namespace LogFile

/-- The clock does not run backwards. -/
def InTurn (log : LogFile) (event : Bytes × LogAppend) : Prop :=
  log.clock ≤ event.2.called ∧ event.2.called ≤ event.2.check ∧ event.2.check ≤ event.2.roll

instance (log : LogFile) (event : Bytes × LogAppend) : Decidable (log.InTurn event) :=
  inferInstanceAs (Decidable (_ ∧ _))

/-- The current file, on the clock. -/
structure Current (log : LogFile) : Prop where
  opened : log.file.opened = log.lastRoll
  period : log.period = startOfPeriod log.lastRoll
  written : log.file.writtenBytes = AppendFile.total log.file.entries
  rolled : log.lastRoll ≤ log.clock
  times : ∀ entry ∈ log.file.entries, log.lastRoll ≤ entry.1 ∧ entry.1 ≤ log.clock

/-- **The files are within their bounds**, and the current one will be. -/
structure Inv (log : LogFile) : Prop extends Current log where
  checks : log.count < log.checkEveryN
  full : log.rollSize < log.file.writtenBytes → log.clock ≤ log.lastRoll
  strays : log.file.strays.length ≤ log.count
  fits : ∀ file ∈ log.files, file.Fits log.rollSize log.checkEveryN

variable {log : LogFile} {call : LogAppend} {logline : Bytes}

/-- The log once the line is in the file. -/
def appended (log : LogFile) (logline : Bytes) (call : LogAppend) : LogFile :=
  { log with file := log.file.append call.called logline call.results, clock := call.roll }

/-- **The line is in the file**, which is within its bounds with it. -/
theorem Inv.appended (inv : log.Inv) (turn : log.InTurn (logline, call)) :
    (log.appended logline call).Current ∧
      (log.file.append call.called logline call.results).Fits log.rollSize log.checkEveryN ∧
      ∀ entry ∈ (log.appended logline call).file.entries,
        log.file.opened ≤ entry.1 ∧ entry.1 ≤ call.called := by
  obtain ⟨since, checked, until_⟩ := turn
  have opened := inv.opened
  have rolled := inv.rolled
  change log.clock ≤ call.called at since
  change call.called ≤ call.check at checked
  change call.check ≤ call.roll at until_
  have times : ∀ entry ∈ log.file.entries ++ [(call.called, logline)],
      log.lastRoll ≤ entry.1 ∧ entry.1 ≤ call.called := by
    intro entry member
    rcases List.mem_append.mp member with earlier | now
    · obtain ⟨after, before⟩ := inv.times entry earlier
      exact ⟨after, before.trans since⟩
    · rw [List.mem_singleton.mp now]
      exact ⟨rolled.trans since, Nat.le_refl _⟩
  refine ⟨⟨opened, inv.period, ?_, by show log.lastRoll ≤ call.roll; omega, ?_⟩, ⟨?_, ?_⟩, ?_⟩
  · show log.file.writtenBytes + logline.length = _
    rw [inv.written]
    exact (AppendFile.total_append _ (call.called, logline)).symm
  · intro entry member
    obtain ⟨after, before⟩ := times entry member
    exact ⟨after, by show entry.1 ≤ call.roll; omega⟩
  · show log.rollSize < AppendFile.total (log.file.entries ++ [(call.called, logline)]).dropLast →
      ∀ entry ∈ (log.file.entries ++ [(call.called, logline)]).dropLast,
        entry.1 = log.file.opened
    rw [List.dropLast_concat, ← inv.written]
    intro large entry member
    have stuck := inv.full large
    obtain ⟨after, before⟩ := inv.times entry member
    omega
  · have more := log.file.strays_append call.called logline call.results
    have strays := inv.strays
    have checks := inv.checks
    omega
  · rw [opened]
    exact times

/-- Of a current file alone, a log is in order if its earlier files are. -/
theorem Current.inv (current : log.Current) (checks : log.count < log.checkEveryN)
    (full : log.rollSize < log.file.writtenBytes → log.clock ≤ log.lastRoll)
    (strays : log.file.strays.length ≤ log.count)
    (earlier : ∀ file ∈ log.closed, file.Fits log.rollSize log.checkEveryN)
    (fits : log.file.Fits log.rollSize log.checkEveryN) : log.Inv :=
  ⟨current, checks, full, strays, List.forall_mem_append.mpr
    ⟨earlier, List.forall_mem_singleton.mpr fits⟩⟩

/-- **A new file.** -/
theorem inv_rollFile (checks : log.count < log.checkEveryN)
    (earlier : ∀ file ∈ log.closed, file.Fits log.rollSize log.checkEveryN)
    (fits : log.file.Fits log.rollSize log.checkEveryN) (later : log.lastRoll < log.clock) :
    (log.rollFile log.clock).Inv := by
  rw [rollFile, if_pos later]
  refine Current.inv ⟨rfl, rfl, rfl, Nat.le_refl _, nofun⟩ checks (fun large => ?_) (Nat.zero_le _) ?_ ?_
  · exact absurd large (Nat.not_lt_zero _)
  · exact List.forall_mem_append.mpr
      ⟨earlier, List.forall_mem_singleton.mpr ⟨fits.size, fits.days⟩⟩
  · exact ⟨nofun, Nat.zero_le _⟩

/-- **The call of `append` ends**: the file is rolled over, or it is within its bounds for the next
one. -/
theorem rollOrFlush_spec (current : log.Current) (checks : log.count < log.checkEveryN)
    (read : call.roll = log.clock) (turn : call.check ≤ call.roll)
    (times : ∀ entry ∈ log.file.entries, log.file.opened ≤ entry.1 ∧ entry.1 ≤ call.check)
    (since : log.lastRoll ≤ call.check) (strays : log.file.strays.length ≤ log.count + 1)
    (earlier : ∀ file ∈ log.closed, file.Fits log.rollSize log.checkEveryN)
    (fits : log.file.Fits log.rollSize log.checkEveryN) : (log.rollOrFlush call).Inv := by
  have opened := current.opened
  unfold rollOrFlush
  split
  · rename_i large
    rw [read]
    by_cases later : log.lastRoll < log.clock
    · exact inv_rollFile checks earlier fits later
    · rw [rollFile, if_neg later]
      have none : log.file.strays = [] := by
        refine AppendFile.strays_eq_nil log.lastRoll ?_ (by rw [opened])
        intro entry member
        obtain ⟨after, before⟩ := current.times entry member
        omega
      refine current.inv checks (fun _ => Nat.le_of_not_lt later) ?_ earlier fits
      rw [none]
      exact Nat.zero_le _
  rename_i small
  split
  · simp only
    have checked : Current { log with count := 0 } := ⟨opened, current.period, current.written,
      current.rolled, current.times⟩
    have positive : 0 < log.checkEveryN := Nat.zero_lt_of_lt checks
    split
    · rename_i tomorrow
      have later : log.lastRoll < log.clock := by
        have apart : call.check ≠ log.lastRoll := fun same => tomorrow (by rw [same, current.period])
        omega
      rw [read]
      exact inv_rollFile positive earlier fits later
    · rename_i today
      have none : log.file.strays = [] := by
        refine AppendFile.strays_eq_nil call.check times ?_
        rw [opened, ← current.period]
        exact Decidable.not_not.mp today
      have few : log.file.strays.length ≤ 0 := by
        rw [none]
        exact Nat.zero_le _
      split
      · exact Current.inv ⟨opened, current.period, current.written, current.rolled, current.times⟩
          positive (fun large => absurd large small) few earlier ⟨fits.size, fits.days⟩
      · exact checked.inv positive (fun large => absurd large small) few earlier fits
  · rename_i often
    exact Current.inv ⟨opened, current.period, current.written, current.rolled, current.times⟩
      (Nat.lt_of_not_le often) (fun large => absurd large small) strays earlier fits

/-- **Every `append` keeps the bounds.** -/
theorem Inv.append (inv : log.Inv) (turn : log.InTurn (logline, call)) :
    (log.append logline call).Inv := by
  obtain ⟨current, fits, times⟩ := inv.appended turn
  obtain ⟨since, checked, until_⟩ := turn
  have rolled := inv.rolled
  have more := log.file.strays_append call.called logline call.results
  show ((log.appended logline call).rollOrFlush call).Inv
  refine rollOrFlush_spec current inv.checks rfl until_ ?_ ?_ ?_
    (fun file member => inv.fits file (List.mem_append_left _ member)) fits
  · intro entry member
    obtain ⟨after, before⟩ := times entry member
    exact ⟨after, before.trans checked⟩
  · exact rolled.trans (since.trans checked)
  · exact more.trans (Nat.add_le_add_right inv.strays 1)

theorem inv_start {rollSize flushInterval checkEveryN now : ℕ} (often : 0 < checkEveryN)
    (started : start rollSize flushInterval checkEveryN now = some log) : log.Inv := by
  obtain ⟨_, ⟨⟩⟩ := Option.ite_none_right_eq_some.mp started
  refine Current.inv ⟨rfl, rfl, rfl, Nat.le_refl _, nofun⟩ often (fun large => ?_) (Nat.zero_le _)
    nofun ⟨nofun, Nat.zero_le _⟩
  exact absurd large (Nat.not_lt_zero _)

theorem rollFile_settings (log : LogFile) (now : ℕ) :
    (log.rollFile now).rollSize = log.rollSize ∧
      (log.rollFile now).checkEveryN = log.checkEveryN := by
  rw [rollFile]
  split
  · exact ⟨rfl, rfl⟩
  · exact ⟨rfl, rfl⟩

theorem append_settings (log : LogFile) (logline : Bytes) (call : LogAppend) :
    (log.append logline call).rollSize = log.rollSize ∧
      (log.append logline call).checkEveryN = log.checkEveryN := by
  show ((log.appended logline call).rollOrFlush call).rollSize = log.rollSize ∧
    ((log.appended logline call).rollOrFlush call).checkEveryN = log.checkEveryN
  unfold rollOrFlush
  split
  · exact rollFile_settings _ _
  split
  · simp only
    split
    · exact rollFile_settings _ _
    split
    · exact ⟨rfl, rfl⟩
    · exact ⟨rfl, rfl⟩
  · exact ⟨rfl, rfl⟩

theorem inv_of_reach {rollSize flushInterval checkEveryN now : ℕ} {first : LogFile}
    (often : 0 < checkEveryN) (started : start rollSize flushInterval checkEveryN now = some first)
    (run : Reach next InTurn first log) :
    log.Inv ∧ log.rollSize = rollSize ∧ log.checkEveryN = checkEveryN := by
  induction run with
  | start =>
    refine ⟨inv_start often started, ?_⟩
    obtain ⟨_, ⟨⟩⟩ := Option.ite_none_right_eq_some.mp started
    exact ⟨rfl, rfl⟩
  | @step before after event _ turn moved ih =>
    obtain ⟨inv, size, number⟩ := ih
    obtain ⟨same, same'⟩ := before.append_settings event.1 event.2
    cases moved
    exact ⟨inv.append turn, same.trans size, same'.trans number⟩

end LogFile

/-- **Files are rolled over in time.** While the clock does not run backwards, the lines of a file
but for the last are within the roll size, or all of the second in which it was opened; and a file
has at most `checkEveryN` lines of another day. -/
theorem log_files_rolled {rollSize flushInterval checkEveryN now : ℕ} {first log : LogFile}
    (often : 0 < checkEveryN)
    (started : LogFile.start rollSize flushInterval checkEveryN now = some first)
    (run : Reach LogFile.next LogFile.InTurn first log) :
    ∀ file ∈ log.files,
      ((file.entries.dropLast.map Prod.snd).flatten.length ≤ rollSize ∨
        ∀ entry ∈ file.entries.dropLast, entry.1 = file.opened) ∧
      (file.entries.filter fun entry =>
        startOfPeriod entry.1 ≠ startOfPeriod file.opened).length ≤ checkEveryN := by
  obtain ⟨inv, rfl, rfl⟩ := LogFile.inv_of_reach often started run
  intro file member
  have fits := inv.fits file member
  refine ⟨?_, fits.days⟩
  by_cases within : AppendFile.total file.entries.dropLast ≤ log.rollSize
  · exact Or.inl within
  · exact Or.inr (fits.size (Nat.lt_of_not_le within))

/-- Three lines in the opening second, one too many; then one more, and one on the next day. -/
def busySecond : List (Bytes × LogAppend) :=
  [([1, 2], ⟨100, 100, 100, [2]⟩), ([3, 4], ⟨100, 100, 100, [1, 1]⟩),
    ([5, 6], ⟨100, 100, 100, [0, 2]⟩), ([7], ⟨103, 103, 103, [1]⟩),
    ([8], ⟨90000, 90000, 90000, [1]⟩), ([9], ⟨90001, 90001, 90001, [1]⟩)]

theorem log_files_rolled_sample :
    ∃ first log, LogFile.start 3 3 2 100 = some first ∧
      play LogFile.next LogFile.InTurn first busySecond = some log ∧
      log.files.map AppendFile.bytes = [[1, 2, 3, 4, 5, 6, 7], [8], [9]] ∧
      ∀ file ∈ log.files,
        ((file.entries.dropLast.map Prod.snd).flatten.length ≤ 3 ∨
          ∀ entry ∈ file.entries.dropLast, entry.1 = file.opened) ∧
        (file.entries.filter fun entry =>
          startOfPeriod entry.1 ≠ startOfPeriod file.opened).length ≤ 2 := by
  have shape : ((LogFile.start 3 3 2 100).bind fun first =>
      play LogFile.next LogFile.InTurn first busySecond).map
        (fun log => log.files.map AppendFile.bytes) =
      some [[1, 2, 3, 4, 5, 6, 7], [8], [9]] := by decide +kernel
  obtain ⟨log, done, shape⟩ := Option.map_eq_some_iff.mp shape
  obtain ⟨first, started, done⟩ := Option.bind_eq_some_iff.mp done
  exact ⟨first, log, started, done, shape,
    log_files_rolled (by decide) started (Reach.of_play .start done)⟩

/-! ### The files of the asynchronous log -/

namespace LogFile

/-- Names in order, and earlier files flushed. -/
structure Named (log : LogFile) : Prop where
  current : log.file.opened = log.lastRoll
  sorted : (log.files.map AppendFile.opened).Pairwise (· < ·)
  flushed : ∀ file ∈ log.closed, file.flushed = file.bytes.length

variable {log : LogFile}

/-- What a call of `append` does to the files: the line goes to the current one, which may be closed
with that. -/
inductive Appends (log : LogFile) (logline : Bytes) (call : LogAppend) : LogFile → Prop where
  | kept {after : LogFile} (closed : after.closed = log.closed)
      (opened : after.file.opened = log.file.opened) (lastRoll : after.lastRoll = log.lastRoll)
      (bytes : after.file.bytes = log.file.bytes ++ writtenOf logline call.results) :
      Appends log logline call after
  | rolled {after : LogFile} (later : log.lastRoll < after.lastRoll)
      (closed : after.closed =
        log.closed ++ [(log.file.append call.called logline call.results).flush])
      (file : after.file = { opened := after.lastRoll }) : Appends log logline call after

theorem appends_rollFile (log : LogFile) (logline : Bytes) (call : LogAppend) (count : ℕ) :
    Appends log logline call ({ log.appended logline call with count }.rollFile call.roll) := by
  rw [rollFile]
  split
  · rename_i later
    exact .rolled later rfl rfl
  · exact .kept rfl rfl rfl rfl

/-- **One call of `append`.** -/
theorem append_spec (log : LogFile) (logline : Bytes) (call : LogAppend) :
    Appends log logline call (log.append logline call) := by
  show Appends log logline call ((log.appended logline call).rollOrFlush call)
  unfold rollOrFlush
  split
  · exact appends_rollFile log logline call log.count
  split
  · simp only
    split
    · exact appends_rollFile log logline call 0
    split
    · exact .kept rfl rfl rfl rfl
    · exact .kept rfl rfl rfl rfl
  · exact .kept rfl rfl rfl rfl

theorem Named.append (named : log.Named) (logline : Bytes) (call : LogAppend) :
    (log.append logline call).Named := by
  cases log.append_spec logline call with
  | kept closed opened lastRoll bytes =>
    refine ⟨opened.trans (named.current.trans lastRoll.symm), ?_, ?_⟩
    · rw [files, closed, List.map_append, List.map_singleton, opened, ← List.map_singleton,
        ← List.map_append]
      exact named.sorted
    · rw [closed]
      exact named.flushed
  | rolled later closed file =>
    refine ⟨by rw [file], ?_, ?_⟩
    · rw [files, closed, List.map_append, List.map_append, file, List.pairwise_append]
      have sorted := named.sorted
      rw [files, List.map_append] at sorted
      refine ⟨sorted, List.pairwise_singleton _ _, ?_⟩
      intro earlier member last only
      rw [List.map_singleton, List.mem_singleton] at only
      rw [only]
      refine Nat.lt_of_le_of_lt ?_ later
      rcases List.mem_append.mp member with before | now
      · rw [← named.current]
        exact Nat.le_of_lt ((List.pairwise_append.mp sorted).2.2 earlier before _
          (List.mem_singleton_self _))
      · rw [List.map_singleton, List.mem_singleton] at now
        rw [now, ← named.current]
        exact Nat.le_refl _
    · rw [closed]
      exact List.forall_mem_append.mpr ⟨named.flushed, List.forall_mem_singleton.mpr rfl⟩

end LogFile

/-- The lines of the log, by where they are. -/
structure LineGroups where
  earlier : List (List Bytes)
  file : List Bytes
  toWrite : List (List Bytes)
  buffers : List (List Bytes)
  current : List Bytes

def LineGroups.lines (groups : LineGroups) : List Bytes :=
  groups.earlier.flatten ++ (groups.file ++ (groups.toWrite.flatten ++
    (groups.buffers.flatten ++ groups.current)))

namespace RollingLog

/-- Lines are shorter than a buffer, and `fwrite` does not stop before the buffer is written. -/
def Writes (s : RollingLog) (e : RollingEvent) : Prop :=
  s.log.Short e.event ∧ (e.event = .thread → ∀ buffer ∈ s.log.buffersToWrite.head?,
    writtenOf buffer e.call.results = buffer)

instance (s : RollingLog) (e : RollingEvent) : Decidable (s.Writes e) :=
  inferInstanceAs (Decidable (_ ∧ (_ → ∀ buffer ∈ s.log.buffersToWrite.head?, _)))

/-- **Whole lines everywhere.** -/
structure Grouped (s : RollingLog) (groups : LineGroups) : Prop where
  earlier : s.out.closed.map AppendFile.bytes = groups.earlier.map List.flatten
  file : s.out.file.bytes = groups.file.flatten
  toWrite : s.log.buffersToWrite = groups.toWrite.map List.flatten
  buffers : s.log.buffers = groups.buffers.map List.flatten
  current : s.log.currentBuffer = groups.current.flatten
  lines : groups.lines = s.log.lines

variable {s : RollingLog} {groups : LineGroups}

theorem Grouped.append (grouped : s.Grouped groups) {line : Bytes}
    (short : line.length < kLargeBuffer) :
    ∃ groups, Grouped { s with log := s.log.append line } groups := by
  rw [AsyncLogging.append]
  split
  · rename_i room
    refine ⟨{ groups with current := groups.current ++ [line] }, grouped.earlier, grouped.file,
      grouped.toWrite, grouped.buffers, ?_, ?_⟩
    · show appendFixed s.log.currentBuffer line = _
      rw [appendFixed, if_pos room, grouped.current, List.flatten_append, List.flatten_singleton]
    · rw [← grouped.lines]
      simp only [LineGroups.lines, List.append_assoc]
  · refine ⟨{ groups with buffers := groups.buffers ++ [groups.current], current := [line] },
      grouped.earlier, grouped.file, grouped.toWrite, ?_, ?_, ?_⟩
    · show s.log.buffers ++ [s.log.currentBuffer] = _
      rw [grouped.buffers, grouped.current, List.map_append, List.map_singleton]
    · show (if line.length < kLargeBuffer then [] ++ line else []) = [line].flatten
      rw [if_pos short, List.flatten_singleton, List.nil_append]
    · rw [← grouped.lines]
      simp only [LineGroups.lines, List.append_assoc, List.flatten_append, List.flatten_singleton]

theorem Grouped.takeOver (grouped : s.Grouped groups) (none : s.log.buffersToWrite = []) :
    ∃ groups, Grouped { s with log := s.log.takeOver } groups := by
  have empty : groups.toWrite = [] := by
    rw [grouped.toWrite] at none
    exact List.map_eq_nil_iff.mp none
  refine ⟨{ groups with
    toWrite := groups.buffers ++ [groups.current], buffers := [], current := [] },
    grouped.earlier, grouped.file, ?_, none, rfl, ?_⟩
  · show s.log.buffers ++ [s.log.currentBuffer] = _
    rw [grouped.buffers, grouped.current, List.map_append, List.map_singleton]
  · show _ = s.log.lines
    rw [← grouped.lines]
    simp only [LineGroups.lines, empty, List.flatten_append, List.flatten_singleton,
      List.flatten_nil, List.nil_append, List.append_nil]

/-- A buffer is written. -/
theorem Grouped.write (grouped : s.Grouped groups) {buffer : Bytes} {rest : List Bytes}
    (next : s.log.buffersToWrite = buffer :: rest) {call : LogAppend}
    (whole : writtenOf buffer call.results = buffer) :
    ∃ groups, Grouped
      { log := { s.log with file := s.log.file ++ buffer, buffersToWrite := rest }
        out := s.out.append buffer call } groups := by
  obtain ⟨first, others, split, rfl, rfl⟩ := List.map_eq_cons_iff.mp (grouped.toWrite.symm.trans next)
  have lines := grouped.lines
  rw [LineGroups.lines, split, List.flatten_cons] at lines
  cases s.out.append_spec first.flatten call with
  | kept closed opened lastRoll bytes =>
    rw [whole, grouped.file, ← List.flatten_append] at bytes
    refine ⟨{ groups with file := groups.file ++ first, toWrite := others },
      closed ▸ grouped.earlier, bytes, rfl, grouped.buffers, grouped.current, ?_⟩
    rw [← lines]
    simp only [LineGroups.lines, List.append_assoc]
  | rolled later closed file =>
    refine ⟨{ groups with
      earlier := groups.earlier ++ [groups.file ++ first], file := [], toWrite := others },
      ?_, by rw [file]; rfl, rfl, grouped.buffers, grouped.current, ?_⟩
    · rw [closed, List.map_append, List.map_append, grouped.earlier]
      refine congrArg _ (congrArg (fun bytes => [bytes]) ?_)
      show s.out.file.bytes ++ writtenOf first.flatten call.results = _
      rw [whole, grouped.file, List.flatten_append]
    · rw [← lines]
      simp only [LineGroups.lines, List.append_assoc, List.flatten_append, List.flatten_singleton,
        List.nil_append]

/-- A step after which the lines are where they were. -/
theorem Grouped.same (grouped : s.Grouped groups) {log : AsyncLogging}
    (toWrite : log.buffersToWrite = s.log.buffersToWrite) (buffers : log.buffers = s.log.buffers)
    (current : log.currentBuffer = s.log.currentBuffer) (lines : log.lines = s.log.lines) :
    Grouped { s with log } groups :=
  ⟨grouped.earlier, grouped.file, toWrite.trans grouped.toWrite, buffers.trans grouped.buffers,
    current.trans grouped.current, grouped.lines.trans lines.symm⟩

end RollingLog

end EtherAdapter
