/-
**What a timer queue does over whole runs.**

* **`timer_queue_sound`** — no step of the loop ends with a fault: the assertions hold, and no deleted
  timer is used; a call of `addTimer` on another thread uses one if it returns after its timer has
  been deleted. The two sets hold the same timers, and no timer is forgotten.
* **`due_timers_run`** — `handleInLoop` runs the timers that are due, each of them once and in the
  order of their times, whatever their callbacks add or cancel.
* **`one_shot_once`** — a timer that does not repeat runs at most once.
* **`cancel_stops`** — a timer that is cancelled does not run any more, except that it still has its
  turn if `handleInLoop` has already taken it out.
* **`timers_armed`** — between the calls of `handleInLoop` the descriptor is set for a time that is
  not after the first timer, or for 100 microseconds, or is readable.

When no timer is left, nothing sets the descriptor again, so it stays readable and the loop calls
`handleInLoop` over and over.
-/

import EtherAdapter.Runs.Basic
import EtherAdapter.Net.Timers

namespace EtherAdapter

open Runs

namespace TimerQueue

variable {q after : TimerQueue} {timer : ℕ} {t : Timer} {entry : TimerEntry} {event : TimerEvent}

instance (q : TimerQueue) : (event : TimerEvent) → Decidable (q.Enabled event)
  | .addTimer timer _ _ => inferInstanceAs (Decidable (q.memory timer = none))
  | .addTimerInLoop timer _ => inferInstanceAs (Decidable (timer ∈ q.adding))
  | .returnId id => inferInstanceAs (Decidable (id ∈ q.returning))
  | .cancelInLoop _ => isTrue trivial
  | .expire => inferInstanceAs (Decidable (q.armed ≠ none))
  | .getExpired _ => inferInstanceAs (Decidable (q.calling = none ∧ q.readable = true))
  | .run => inferInstanceAs (Decidable (∃ batch ∈ q.calling, batch.waiting ≠ []))
  | .reset _ => inferInstanceAs (Decidable (∃ batch ∈ q.calling, batch.waiting = []))

/-! ### Safety -/

theorem next_eq_some : q.next event = some after ↔ q.step event = .ok after := by
  unfold next
  cases q.step event with
  | ok result => simp
  | error fault => simp

theorem inv_init : ({} : TimerQueue).Inv where
  sound := ⟨List.nodup_nil, fun _ => ⟨nofun, nofun⟩, nofun, nofun, nofun, List.Pairwise.nil, .nil⟩
  ran := nofun
  timed := nofun

theorem moves_of_next (inv : q.Inv) (enabled : q.Enabled event) (moved : q.next event = some after) :
    Moves q event after ∧ after.Inv := by
  rw [next_eq_some] at moved
  rcases step_spec inv enabled with ⟨result, done, moves, inv'⟩ | ⟨_, _, _, late⟩
  · rw [done] at moved
    cases moved
    exact ⟨moves, inv'⟩
  · rw [late] at moved
    cases moved

theorem inv_of_reach {start : TimerQueue} (inv : start.Inv) (reached : Reach next Enabled start q) :
    q.Inv :=
  reached.invariant inv fun _ _ _ inv enabled moved => (moves_of_next inv enabled moved).2

end TimerQueue

/-- **The timer queue is sound**: the next step does not fail, but for a call of `addTimer` on another
thread that returns after its timer has been deleted; the sets hold the same timers, and what is
alive is known. -/
theorem timer_queue_sound {q : TimerQueue} (reached : Reach TimerQueue.next TimerQueue.Enabled {} q) :
    (∀ event, q.Enabled event → (∃ after, q.step event = .ok after) ∨
      ∃ id, event = .returnId id ∧ ¬ q.Alive id ∧ q.step event = .error .dangling) ∧
    (∀ timer time interval clock, q.memory timer = none →
      ∃ after, q.addTimer timer time interval clock = .ok after) ∧
    q.timers.length = q.activeTimers.length ∧
    (∀ id, id ∈ q.activeTimers ↔ ∃ t, q.memory id.timer = some t ∧ t.sequence = id.sequence ∧
      ⟨t.expiration, id.timer⟩ ∈ q.timers) ∧
    ∀ timer, (∃ t, q.memory timer = some t) ↔
      timer ∈ q.adding ++ q.expiredTimers ++ q.timers.map TimerEntry.timer := by
  have inv := TimerQueue.inv_of_reach TimerQueue.inv_init reached
  refine ⟨fun event enabled => ?_, fun timer time interval clock free =>
    TimerQueue.addTimer_spec inv free time interval clock, ?_, fun id => inv.sound.mem_active,
    inv.sound.live⟩
  · rcases TimerQueue.step_spec inv enabled with ⟨after, done, _⟩ | late
    · exact Or.inl ⟨after, done⟩
    · exact Or.inr late
  · rw [inv.sound.active.length_eq, List.length_map]

/-- A timer that repeats and one that does not, and the descriptor has expired. -/
def twoTimers : List TimerEvent :=
  [.addTimer 10 100 (some 50), .addTimer 11 100 none, .addTimerInLoop 10 20, .returnId ⟨10, 1⟩,
    .addTimerInLoop 11 20, .expire]

theorem timer_queue_sound_sample :
    ∃ q, play TimerQueue.next TimerQueue.Enabled {} twoTimers = some q ∧
      q.timers = [⟨100, 10⟩, ⟨100, 11⟩] ∧
      (∃ after, q.addTimer 12 90 none 20 = .ok after) ∧
      q.timers.length = q.activeTimers.length := by
  have shape : (play TimerQueue.next TimerQueue.Enabled {} twoTimers).map
      (fun q => (q.timers, q.memory 12)) = some ([⟨100, 10⟩, ⟨100, 11⟩], none) := by decide
  obtain ⟨q, done, shape⟩ := Option.map_eq_some_iff.mp shape
  rw [Prod.mk.injEq] at shape
  obtain ⟨timers, free⟩ := shape
  obtain ⟨_, adds, sizes, _⟩ := timer_queue_sound (Reach.of_play .start done)
  exact ⟨q, done, timers, adds 12 90 none 20 free, sizes⟩

-- the second timer has run and been deleted before the thread that added it goes on
example : (play TimerQueue.next TimerQueue.Enabled {}
    (twoTimers ++ [.getExpired 120, .run, .run, .reset 130])).map
      (fun q => (q.returning, decide ((q.next (.returnId ⟨11, 2⟩)).isSome))) =
    some ([⟨11, 2⟩], false) := by
  decide

/-! ### Timers that are due -/

namespace TimerQueue

variable {q after : TimerQueue} {timer : ℕ} {t : Timer} {entry : TimerEntry} {event : TimerEvent}

/-- What is left alone by a step that runs no timer and puts none back. -/
structure Steady (q after : TimerQueue) : Prop where
  calling : after.calling = q.calling
  fired : after.fired = q.fired
  memory : ∀ timer ∈ q.expiredTimers, after.memory timer = q.memory timer
  canceling : ∀ id ∈ q.cancelingTimers, id ∈ after.cancelingTimers

/-- The steps during a `handleInLoop`, up to `reset`: a timer runs, or none does. -/
theorem steady_or_run (inv : q.Inv) (busy : q.calling ≠ none) (moves : Moves q event after)
    (early : ∀ clock, event ≠ .reset clock) :
    Steady q after ∨
      ∃ expired entry rest now t, q.calling = some ⟨expired, entry :: rest, now⟩ ∧
        q.memory entry.timer = some t ∧ after.calling = some ⟨expired, rest, now⟩ ∧
        after.fired = q.fired ++ [⟨t.sequence, t.interval.isSome, entry.time, now⟩] ∧
        after.memory = q.memory ∧ after.cancelingTimers = q.cancelingTimers := by
  cases moves with
  | addTimer timer time interval free =>
    refine Or.inl ⟨rfl, rfl, fun other listed => ?_, fun _ marked => marked⟩
    show (q.store timer _).memory other = q.memory other
    rw [memory_store, if_neg (inv.expired_ne_free listed free)]
  | addTimerInLoop waits here =>
    exact Or.inl ⟨calling_added _ _ _ _, fired_added _ _ _ _, fun _ _ => by rw [memory_added],
      fun _ marked => by rwa [canceling_added]⟩
  | returned => exact Or.inl ⟨rfl, rfl, fun _ _ => rfl, fun _ marked => marked⟩
  | cancelled member =>
    refine Or.inl ⟨rfl, rfl, fun other listed => ?_, fun _ marked => marked⟩
    show (q.delete _).memory other = q.memory other
    rw [memory_delete, if_neg (inv.expired_ne_entry listed member)]
  | marked =>
    exact Or.inl ⟨rfl, rfl, fun _ _ => rfl, fun _ marked => List.mem_insert_of_mem marked⟩
  | ignored => exact Or.inl ⟨rfl, rfl, fun _ _ => rfl, fun _ marked => marked⟩
  | expire => exact Or.inl ⟨rfl, rfl, fun _ _ => rfl, fun _ marked => marked⟩
  | getExpired idle => exact absurd idle busy
  | run calling here => exact Or.inr ⟨_, _, _, _, _, calling, here, rfl, rfl, rfl, rfl⟩
  | reset => exact absurd rfl (early _)

/-- The timers that are due, in the order of the entries. -/
def due (q : TimerQueue) (now : ℤ) : List TimerEntry := q.timers.filter (·.time ≤ now)

/-- What is noted when a timer runs. -/
def firing (q : TimerQueue) (now : ℤ) (entry : TimerEntry) : Firing :=
  match q.memory entry.timer with
  | some t => ⟨t.sequence, t.interval.isSome, entry.time, now⟩
  | none => ⟨0, false, entry.time, now⟩

/-- A part of the timers that are due has run. -/
structure Running (start : TimerQueue) (now : ℤ) (q : TimerQueue) : Prop where
  inv : q.Inv
  batch : ∃ ran rest, start.due now = ran ++ rest ∧ q.calling = some ⟨start.due now, rest, now⟩ ∧
    q.fired = start.fired ++ ran.map (start.firing now)
  memory : ∀ entry ∈ start.due now, q.memory entry.timer = start.memory entry.timer

/-- Up to `reset`, nothing else happens. -/
def InBatch (q : TimerQueue) (event : TimerEvent) : Prop :=
  q.Enabled event ∧ ∀ clock, event ≠ .reset clock

theorem Running.move {start : TimerQueue} {now : ℤ} (running : Running start now q)
    (meets : q.InBatch event) (moved : q.next event = some after) : Running start now after := by
  obtain ⟨inv, ⟨ran, rest, split, calling, fired⟩, memory⟩ := running
  obtain ⟨moves, inv'⟩ := moves_of_next inv meets.1 moved
  have busy : q.calling ≠ none := by
    rw [calling]
    exact Option.some_ne_none _
  rcases steady_or_run inv busy moves meets.2 with
    steady | ⟨expired, entry, rest', now', t, calling', here, later, noted, same, _⟩
  · refine ⟨inv', ⟨ran, rest, split, steady.calling.trans calling, steady.fired.trans fired⟩, ?_⟩
    intro entry member
    rw [steady.memory _ (mem_expiredTimers calling member)]
    exact memory entry member
  · rw [calling] at calling'
    cases calling'
    have member : entry ∈ start.due now := by
      rw [split]
      exact List.mem_append_right _ List.mem_cons_self
    refine ⟨inv', ⟨ran ++ [entry], rest', ?_, later, ?_⟩, ?_⟩
    · rw [split, List.append_assoc, List.singleton_append]
    · have fires : start.firing now entry = ⟨t.sequence, t.interval.isSome, entry.time, now⟩ := by
        rw [firing, ← memory entry member, here]
      rw [noted, fired, List.map_append, List.map_singleton, fires, List.append_assoc]
    · rw [same]
      exact memory

end TimerQueue

/-- **The timers that are due run, each of them once and in order.** Between `getExpired` and
`reset`, callbacks may add and cancel timers. -/
theorem due_timers_run {q first last : TimerQueue} {now clock : ℤ}
    (reached : Reach TimerQueue.next TimerQueue.Enabled {} q) (enabled : q.Enabled (.getExpired now))
    (begun : q.next (.getExpired now) = some first)
    (handled : Reach TimerQueue.next TimerQueue.InBatch first last)
    (ready : last.Enabled (.reset clock)) :
    last.fired = q.fired ++ (q.due now).map (q.firing now) ∧
      (q.due now).Pairwise TimerEntry.le ∧
      (∀ entry ∈ q.due now, entry ∈ q.timers ∧ entry.time ≤ now) ∧
      ∀ entry ∈ q.timers, entry.time ≤ now → entry ∈ q.due now := by
  have inv := TimerQueue.inv_of_reach TimerQueue.inv_init reached
  obtain ⟨moves, inv'⟩ := TimerQueue.moves_of_next inv enabled begun
  have running : TimerQueue.Running q now first := by
    cases moves with
    | getExpired idle =>
      exact ⟨inv', ⟨[], q.due now, rfl, rfl, (List.append_nil _).symm⟩, fun _ _ => rfl⟩
  have finished := handled.invariant running fun _ _ _ running meets moved => running.move meets moved
  obtain ⟨ran, rest, split, calling, fired⟩ := finished.batch
  obtain ⟨batch, calling', done⟩ := ready
  rw [calling, Option.mem_some_iff] at calling'
  cases calling'
  simp only at done
  rw [done, List.append_nil] at split
  refine ⟨by rw [fired, split], inv.sound.sorted.sublist List.filter_sublist, ?_, ?_⟩
  · intro entry member
    obtain ⟨listed, time⟩ := List.mem_filter.mp member
    exact ⟨listed, of_decide_eq_true time⟩
  · exact fun entry listed time => List.mem_filter.mpr ⟨listed, decide_eq_true time⟩

def TimerEvent.isReset : TimerEvent → Bool
  | .reset _ => true
  | _ => false

theorem TimerEvent.isReset_eq_false (event : TimerEvent) :
    event.isReset = false ↔ ∀ clock, event ≠ .reset clock := by
  cases event <;> simp [isReset]

instance (q : TimerQueue) (event : TimerEvent) : Decidable (q.InBatch event) :=
  decidable_of_iff (q.Enabled event ∧ event.isReset = false)
    (and_congr_right' event.isReset_eq_false)

/-- While the first timer runs, it cancels the second one and adds a third one. -/
def meddling : List TimerEvent :=
  [.run, .cancelInLoop ⟨11, 2⟩, .addTimer 12 90 none, .addTimerInLoop 12 125, .returnId ⟨12, 3⟩,
    .run]

theorem due_timers_run_sample :
    ∃ q first last, play TimerQueue.next TimerQueue.Enabled {} twoTimers = some q ∧
      q.next (.getExpired 120) = some first ∧
      play TimerQueue.next TimerQueue.InBatch first meddling = some last ∧
      q.due 120 = [⟨100, 10⟩, ⟨100, 11⟩] ∧
      last.fired = q.fired ++ (q.due 120).map (q.firing 120) := by
  have shape : ((play TimerQueue.next TimerQueue.Enabled {} twoTimers).bind fun q =>
      (q.next (.getExpired 120)).bind fun first =>
        (play TimerQueue.next TimerQueue.InBatch first meddling).map fun last =>
          (q.due 120, decide (q.Enabled (.getExpired 120)),
            decide (last.Enabled (.reset 130)))) =
      some ([⟨100, 10⟩, ⟨100, 11⟩], true, true) := by decide
  obtain ⟨q, done, shape⟩ := Option.bind_eq_some_iff.mp shape
  obtain ⟨first, begun, shape⟩ := Option.bind_eq_some_iff.mp shape
  obtain ⟨last, handled, shape⟩ := Option.map_eq_some_iff.mp shape
  rw [Prod.mk.injEq, Prod.mk.injEq] at shape
  obtain ⟨due, enabled, ready⟩ := shape
  have ran := due_timers_run (Reach.of_play .start done) (of_decide_eq_true enabled) begun
    (Reach.of_play .start handled) (of_decide_eq_true ready)
  exact ⟨q, first, last, done, begun, handled, due, ran.1⟩

/-! ### Cancelled timers -/

namespace TimerQueue

variable {q after : TimerQueue} {timer : ℕ} {t : Timer} {entry : TimerEntry} {event : TimerEvent}
  {number : ℕ} {id : TimerId}

def timesFired (q : TimerQueue) (number : ℕ) : ℕ := (q.fired.map Firing.sequence).count number

/-- The timers that have still to run in the `handleInLoop` that is going on. -/
def waitingTimers (q : TimerQueue) : List ℕ :=
  match q.calling with
  | some batch => batch.waiting.map TimerEntry.timer
  | none => []

/-- No timer has this number any more. -/
def Gone (q : TimerQueue) (number : ℕ) : Prop :=
  number ≤ q.numCreated ∧ ∀ timer t, q.memory timer = some t → t.sequence ≠ number

/-- `rearm` only sets the descriptor. -/
theorem eq_of_rearm {others : List ℕ} {clock : ℤ} (sound : q.Sound others)
    (rearmed : q.rearm clock = .ok after) :
    after = q ∨ ∃ expiration, after = q.resetTimerfd expiration clock := by
  rcases rearm_spec sound clock with ⟨_, same⟩ | ⟨first, rest, _, ⟨_, set⟩ | ⟨_, same⟩⟩
  · rw [same] at rearmed
    cases rearmed
    exact Or.inl rfl
  · rw [set] at rearmed
    cases rearmed
    exact Or.inr ⟨_, rfl⟩
  · rw [same] at rearmed
    cases rearmed
    exact Or.inl rfl

/-- What `reset` leaves alone, with its last line. -/
theorem follows_of_reset {middle : TimerQueue} {clock : ℤ}
    (follows : Follows { q with calling := none } middle) (sound : middle.Sound middle.adding)
    (rearmed : middle.rearm clock = .ok after) :
    after.numCreated = q.numCreated ∧ after.fired = q.fired ∧ after.memory = middle.memory ∧
      after.calling = none := by
  rcases eq_of_rearm sound rearmed with rfl | ⟨_, rfl⟩
  · exact ⟨follows.created, follows.fired, rfl, follows.calling⟩
  · exact ⟨follows.created, follows.fired, rfl, follows.calling⟩

theorem Gone.move (gone : q.Gone number) (moves : Moves q event after) :
    after.Gone number ∧ after.timesFired number = q.timesFired number := by
  obtain ⟨known, none⟩ := gone
  cases moves with
  | addTimer timer time interval free =>
    refine ⟨⟨Nat.le_succ_of_le known, fun other u here => ?_⟩, rfl⟩
    change (q.store timer _).memory other = some u at here
    rw [memory_store] at here
    split at here
    · cases here
      exact Nat.ne_of_gt (Nat.lt_succ_of_le known)
    · exact none other u here
  | addTimerInLoop waits here =>
    refine ⟨⟨?_, fun other u there => ?_⟩, by rw [timesFired, fired_added]; rfl⟩
    · rw [created_added]
      exact known
    · rw [memory_added] at there
      exact none other u there
  | returned => exact ⟨⟨known, none⟩, rfl⟩
  | cancelled member =>
    refine ⟨⟨known, fun other u here => ?_⟩, rfl⟩
    change (q.delete _).memory other = some u at here
    rw [memory_delete] at here
    exact none other u (Option.ite_none_left_eq_some.mp here).2
  | marked => exact ⟨⟨known, none⟩, rfl⟩
  | ignored => exact ⟨⟨known, none⟩, rfl⟩
  | expire => exact ⟨⟨known, none⟩, rfl⟩
  | getExpired => exact ⟨⟨known, none⟩, rfl⟩
  | run calling here =>
    refine ⟨⟨known, none⟩, ?_⟩
    have other := none _ _ here
    rw [timesFired, timesFired, List.map_append, List.count_append, List.map_singleton,
      List.count_singleton, if_neg (by simpa using other), Nat.add_zero]
  | reset calling done follows renewed cancelled sound rearmed =>
    obtain ⟨created, fired, memory, _⟩ := follows_of_reset follows sound rearmed
    refine ⟨⟨by rw [created]; exact known, fun other u here => ?_⟩, by rw [timesFired, fired]; rfl⟩
    rw [memory] at here
    obtain ⟨v, before, same, _⟩ := follows.descends other u here
    rw [← same]
    exact none other v before

/-- The timer has been taken out by a `handleInLoop` and cancelled since. -/
structure Ending (q : TimerQueue) (id : TimerId) : Prop where
  expired : id.timer ∈ q.expiredTimers
  here : ∃ t, q.memory id.timer = some t ∧ t.sequence = id.sequence
  marked : id ∈ q.cancelingTimers

/-- How often the timer can have run when the `handleInLoop` is over. -/
def firesAtMost (q : TimerQueue) (id : TimerId) : ℕ :=
  q.timesFired id.sequence + if id.timer ∈ q.waitingTimers then 1 else 0

theorem Inv.waiting_nodup (inv : q.Inv) {batch : ExpiredTimers} (calling : q.calling = some batch) :
    (batch.waiting.map TimerEntry.timer).Nodup := by
  obtain ⟨ran, split⟩ := inv.ran batch calling
  have nodup := (List.nodup_append.mp (List.nodup_append.mp inv.sound.nodup).1).2.1
  rw [expiredTimers, calling] at nodup
  simp only at nodup
  rw [split, List.map_append] at nodup
  exact (List.nodup_append.mp nodup).2.1

/-- The turn of the timer counts, and no other. -/
theorem firesAtMost_run (inv : q.Inv) {expired rest : List TimerEntry} {now : ℤ}
    (calling : q.calling = some ⟨expired, entry :: rest, now⟩)
    (here : q.memory entry.timer = some t) (own : ∃ u, q.memory id.timer = some u ∧
      u.sequence = id.sequence) (later : after.calling = some ⟨expired, rest, now⟩)
    (noted : after.fired = q.fired ++ [⟨t.sequence, t.interval.isSome, entry.time, now⟩]) :
    after.firesAtMost id = q.firesAtMost id := by
  obtain ⟨u, there, number⟩ := own
  have nodup := inv.waiting_nodup calling
  rw [List.map_cons, List.nodup_cons] at nodup
  have times : after.timesFired id.sequence =
      q.timesFired id.sequence + if t.sequence = id.sequence then 1 else 0 := by
    rw [timesFired, timesFired, noted, List.map_append, List.count_append, List.map_singleton,
      List.count_singleton]
    simp only [beq_iff_eq]
  unfold firesAtMost waitingTimers
  rw [times, calling, later]
  simp only [List.map_cons, List.mem_cons]
  by_cases same : id.timer = entry.timer
  · rw [same, here] at there
    cases there
    rw [if_pos number, same, if_neg nodup.1, if_pos (Or.inl rfl)]
  · have other : t.sequence ≠ id.sequence := by
      intro equal
      exact same (inv.sound.unique _ _ u t there here (number.trans equal.symm))
    rw [if_neg other, Nat.add_zero]
    simp only [same, false_or]

/-- The timer is out of the queue, or will be at the end of the `handleInLoop`. -/
def Stopping (id : TimerId) (bound : ℕ) (q : TimerQueue) : Prop :=
  q.Inv ∧ ((q.Gone id.sequence ∧ q.timesFired id.sequence ≤ bound) ∨
    (q.Ending id ∧ q.firesAtMost id ≤ bound))

theorem Ending.reset {clock : ℤ} (inv : q.Inv) (ending : q.Ending id)
    (moves : Moves q (.reset clock) after) :
    after.Gone id.sequence ∧ after.timesFired id.sequence = q.timesFired id.sequence := by
  obtain ⟨expired, ⟨t, here, number⟩, marked⟩ := ending
  cases moves with
  | @reset batch middle _ _ calling done follows renewed cancelled sound rearmed =>
    obtain ⟨created, fired, memory, _⟩ := follows_of_reset follows sound rearmed
    refine ⟨⟨?_, fun other u there => ?_⟩, by rw [timesFired, fired]; rfl⟩
    · rw [created, ← number]
      exact inv.sound.fresh _ t here
    · intro equal
      rw [memory] at there
      obtain ⟨v, before, same, _⟩ := follows.descends other u there
      have place : other = id.timer :=
        inv.sound.unique _ _ v t before here (same.trans (equal.trans number.symm))
      rw [expiredTimers, calling] at expired
      obtain ⟨entry, member, place'⟩ := List.mem_map.mp expired
      have stops : ¬ q.GoesOn entry.timer t := by
        rintro ⟨_, unmarked⟩
        rw [place', number] at unmarked
        exact unmarked marked
      have deleted := cancelled entry member t (by rw [place']; exact here) stops
      rw [place', ← place, there] at deleted
      cases deleted

theorem Stopping.move {bound : ℕ} (stopping : Stopping id bound q) (enabled : q.Enabled event)
    (moved : q.next event = some after) : Stopping id bound after := by
  obtain ⟨inv, state⟩ := stopping
  obtain ⟨moves, inv'⟩ := moves_of_next inv enabled moved
  refine ⟨inv', ?_⟩
  rcases state with ⟨gone, few⟩ | ⟨ending, few⟩
  · obtain ⟨gone', same⟩ := gone.move moves
    exact Or.inl ⟨gone', same ▸ few⟩
  have busy : q.calling ≠ none := by
    intro idle
    have expired := ending.expired
    rw [expiredTimers, idle] at expired
    cases expired
  by_cases past : ∃ clock, event = .reset clock
  · obtain ⟨clock, rfl⟩ := past
    obtain ⟨gone, same⟩ := ending.reset inv moves
    exact Or.inl ⟨gone, same ▸ Nat.le_trans (Nat.le_add_right _ _) few⟩
  refine Or.inr ?_
  rcases steady_or_run inv busy moves (not_exists.mp past) with
    steady | ⟨expired, entry, rest, now, t, calling, here, later, noted, same, marks⟩
  · have waits : after.waitingTimers = q.waitingTimers := by
      rw [waitingTimers, waitingTimers, steady.calling]
    refine ⟨⟨?_, ?_, steady.canceling id ending.marked⟩, ?_⟩
    · rw [expiredTimers_congr steady.calling]
      exact ending.expired
    · rw [steady.memory _ ending.expired]
      exact ending.here
    · rw [firesAtMost, timesFired, steady.fired, waits]
      exact few
  · refine ⟨⟨?_, by rw [same]; exact ending.here, by rw [marks]; exact ending.marked⟩, ?_⟩
    · have listed := ending.expired
      rw [expiredTimers, calling] at listed
      rw [expiredTimers, later]
      exact listed
    · rw [firesAtMost_run inv calling here ending.here later noted]
      exact few

/-- A timer that has been added is active, or has been taken out. -/
theorem Inv.expired_of_inactive (inv : q.Inv) (here : q.memory id.timer = some t)
    (number : t.sequence = id.sequence) (added : id.timer ∉ q.adding)
    (inactive : id ∉ q.activeTimers) : id.timer ∈ q.expiredTimers := by
  have listed := (inv.sound.live id.timer).mp ⟨t, here⟩
  have absent : id.timer ∉ q.timers.map TimerEntry.timer := by
    intro member
    obtain ⟨entry, member, place⟩ := List.mem_map.mp member
    obtain ⟨u, there, time⟩ := inv.sound.entry_live member
    rw [place, here] at there
    cases there
    refine inactive (inv.sound.mem_active.mpr ⟨t, here, number, ?_⟩)
    rw [time, ← place]
    exact member
  have other := (List.mem_append.mp listed).resolve_right absent
  exact (List.mem_append.mp other).resolve_left added

theorem stopping_of_cancel (inv : q.Inv) (here : q.memory id.timer = some t)
    (number : t.sequence = id.sequence) (added : id.timer ∉ q.adding)
    (moved : q.next (.cancelInLoop id) = some after) : Stopping id (q.firesAtMost id) after := by
  have enabled : q.Enabled (.cancelInLoop id) := trivial
  obtain ⟨moves, inv'⟩ := moves_of_next inv enabled moved
  refine ⟨inv', ?_⟩
  cases moves with
  | @cancelled entry member =>
    refine Or.inl ⟨⟨?_, fun other u there equal => ?_⟩, Nat.le_add_right _ _⟩
    · show (q.idOf entry).sequence ≤ q.numCreated
      rw [← number]
      exact inv.sound.fresh _ t here
    · change (q.delete entry.timer).memory other = some u at there
      rw [memory_delete] at there
      obtain ⟨ne, there⟩ := Option.ite_none_left_eq_some.mp there
      exact ne (inv.sound.unique _ _ u t there here (equal.trans number.symm))
  | marked inactive =>
    have expired := inv.expired_of_inactive here number added inactive
    exact Or.inr ⟨⟨expired, ⟨t, here, number⟩, List.mem_insert_self⟩, Nat.le_refl _⟩
  | ignored inactive idle =>
    have expired := inv.expired_of_inactive here number added inactive
    rw [expiredTimers, idle] at expired
    cases expired

end TimerQueue

/-- **A cancelled timer stops.** After the `cancelInLoop` of a timer that has been added, it runs no
more; it still has its turn if a `handleInLoop` is going on that has taken it out and not yet run
it. -/
theorem cancel_stops {q after later : TimerQueue} {id : TimerId} {t : Timer}
    (reached : Reach TimerQueue.next TimerQueue.Enabled {} q)
    (here : q.memory id.timer = some t) (number : t.sequence = id.sequence)
    (added : id.timer ∉ q.adding) (cancelled : q.next (.cancelInLoop id) = some after)
    (on : Reach TimerQueue.next TimerQueue.Enabled after later) :
    later.timesFired id.sequence ≤
      q.timesFired id.sequence + if id.timer ∈ q.waitingTimers then 1 else 0 := by
  have inv := TimerQueue.inv_of_reach TimerQueue.inv_init reached
  have stopping := TimerQueue.stopping_of_cancel inv here number added cancelled
  have stopped := on.invariant stopping fun _ _ _ stopping enabled moved =>
    stopping.move enabled moved
  rcases stopped.2 with ⟨_, few⟩ | ⟨_, few⟩
  · exact few
  · exact Nat.le_trans (Nat.le_add_right _ _) few

theorem cancel_stops_sample :
    ∃ q after later, play TimerQueue.next TimerQueue.Enabled {}
        (twoTimers ++ [.getExpired 120, .run]) = some q ∧
      q.next (.cancelInLoop ⟨10, 1⟩) = some after ∧
      play TimerQueue.next TimerQueue.Enabled after [.run, .reset 130] = some later ∧
      q.timesFired 1 = 1 ∧ later.timesFired 1 ≤ 1 := by
  have shape : ((play TimerQueue.next TimerQueue.Enabled {}
        (twoTimers ++ [.getExpired 120, .run])).bind fun q =>
      (q.next (.cancelInLoop ⟨10, 1⟩)).bind fun after =>
        (play TimerQueue.next TimerQueue.Enabled after [.run, .reset 130]).map fun _ =>
          (q.memory 10, q.adding, q.timesFired 1, q.waitingTimers)) =
      some (some ⟨1, 100, some 50⟩, [], 1, [11]) := by decide
  obtain ⟨q, done, shape⟩ := Option.bind_eq_some_iff.mp shape
  obtain ⟨after, cancelled, shape⟩ := Option.bind_eq_some_iff.mp shape
  obtain ⟨later, handled, shape⟩ := Option.map_eq_some_iff.mp shape
  rw [Prod.mk.injEq, Prod.mk.injEq, Prod.mk.injEq] at shape
  obtain ⟨here, adding, times, waiting⟩ := shape
  have added : (⟨10, 1⟩ : TimerId).timer ∉ q.adding := by
    rw [adding]
    exact List.not_mem_nil
  have few := cancel_stops (Reach.of_play .start done) here rfl added cancelled
    (Reach.of_play .start handled)
  rw [waiting, times] at few
  exact ⟨q, after, later, done, cancelled, handled, times, few⟩

/-! ### Timers that do not repeat -/

namespace TimerQueue

variable {q after : TimerQueue} {timer : ℕ} {t : Timer} {entry : TimerEntry} {event : TimerEvent}

/-- What the notes say of the timers that are alive: a one-shot timer that has run has had its turn,
and is out of the queue. -/
structure Noted (q : TimerQueue) : Prop where
  known : ∀ f ∈ q.fired, f.sequence ≤ q.numCreated
  kind : ∀ f ∈ q.fired, ∀ timer t, q.memory timer = some t → t.sequence = f.sequence →
    t.interval.isSome = f.repeats
  past : ∀ f ∈ q.fired, f.repeats = false → ∀ timer t, q.memory timer = some t →
    t.sequence = f.sequence → timer ∈ q.expiredTimers ∧ timer ∉ q.waitingTimers
  once : ∀ f ∈ q.fired, f.repeats = false → q.timesFired f.sequence = 1

theorem Noted.of_descends (noted : q.Noted) (created : q.numCreated ≤ after.numCreated)
    (fired : after.fired = q.fired)
    (descends : ∀ timer t, after.memory timer = some t → q.numCreated < t.sequence ∨
      ∃ u, q.memory timer = some u ∧ u.sequence = t.sequence ∧ u.interval = t.interval)
    (past : ∀ f ∈ q.fired, f.repeats = false → ∀ timer t, after.memory timer = some t →
      t.sequence = f.sequence → timer ∈ q.expiredTimers → timer ∉ q.waitingTimers →
      timer ∈ after.expiredTimers ∧ timer ∉ after.waitingTimers) : after.Noted := by
  have old : ∀ f ∈ q.fired, ∀ timer t, after.memory timer = some t → t.sequence = f.sequence →
      ∃ u, q.memory timer = some u ∧ u.sequence = f.sequence ∧ u.interval = t.interval := by
    intro f member timer t here number
    rcases descends timer t here with new | ⟨u, before, same, interval⟩
    · have less := noted.known f member
      omega
    · exact ⟨u, before, same.trans number, interval⟩
  refine ⟨?_, ?_, ?_, ?_⟩ <;> rw [fired]
  · exact fun f member => Nat.le_trans (noted.known f member) created
  · intro f member timer t here number
    obtain ⟨u, before, same, interval⟩ := old f member timer t here number
    rw [← interval]
    exact noted.kind f member timer u before same
  · intro f member single timer t here number
    obtain ⟨u, before, same, _⟩ := old f member timer t here number
    obtain ⟨listed, ran⟩ := noted.past f member single timer u before same
    exact past f member single timer t here number listed ran
  · intro f member single
    rw [timesFired, fired]
    exact noted.once f member single

/-- The turn of a timer. -/
theorem Noted.run (noted : q.Noted) (inv : q.Inv) {expired rest : List TimerEntry} {now : ℤ}
    (calling : q.calling = some ⟨expired, entry :: rest, now⟩)
    (here : q.memory entry.timer = some t) :
    ({ q with
      calling := some ⟨expired, rest, now⟩
      fired := q.fired ++ [⟨t.sequence, t.interval.isSome, entry.time, now⟩] } :
        TimerQueue).Noted := by
  have nodup := inv.waiting_nodup calling
  rw [List.map_cons, List.nodup_cons] at nodup
  obtain ⟨ran, split⟩ := inv.ran _ calling
  have waits : entry.timer ∈ q.waitingTimers := by
    rw [waitingTimers, calling]
    exact List.mem_cons_self
  have listed : entry.timer ∈ q.expiredTimers := by
    refine mem_expiredTimers calling ?_
    show entry ∈ expired
    rw [show expired = ran ++ entry :: rest from split]
    exact List.mem_append_right _ List.mem_cons_self
  have stillOut : ∀ timer ∈ q.expiredTimers, timer ∈ expired.map TimerEntry.timer := by
    intro timer out
    rwa [expiredTimers, calling] at out
  have waitsOn : ∀ timer, timer ∉ q.waitingTimers → timer ∉ rest.map TimerEntry.timer := by
    intro timer absent member
    rw [waitingTimers, calling] at absent
    exact absent (List.mem_cons_of_mem _ member)
  -- an earlier turn of a one-shot timer would have been its only one
  have first : ∀ f ∈ q.fired, f.repeats = false → t.sequence ≠ f.sequence :=
    fun f member single number => (noted.past f member single _ t here number).2 waits
  refine ⟨fun f member => ?_, fun f member timer u there number => ?_,
    fun f member single timer u there number => ?_, fun f member single => ?_⟩
  · rcases List.mem_append.mp member with old | new
    · exact noted.known f old
    · rw [List.mem_singleton.mp new]
      exact inv.sound.fresh _ t here
  · rcases List.mem_append.mp member with old | new
    · exact noted.kind f old timer u there number
    · rw [List.mem_singleton.mp new] at number ⊢
      have place := inv.sound.unique _ _ u t there here number
      rw [place, here] at there
      cases there
      rfl
  · rcases List.mem_append.mp member with old | new
    · obtain ⟨out, ran⟩ := noted.past f old single timer u there number
      exact ⟨stillOut timer out, waitsOn timer ran⟩
    · rw [List.mem_singleton.mp new] at number
      have place := inv.sound.unique _ _ u t there here number
      rw [place]
      exact ⟨stillOut _ listed, nodup.1⟩
  · have times : ∀ number, TimerQueue.timesFired { q with
        calling := some ⟨expired, rest, now⟩
        fired := q.fired ++ [⟨t.sequence, t.interval.isSome, entry.time, now⟩] } number =
          q.timesFired number + if t.sequence = number then 1 else 0 := by
      intro number
      rw [timesFired, timesFired, List.map_append, List.count_append, List.map_singleton,
        List.count_singleton]
      simp only [beq_iff_eq]
    rw [times]
    rcases List.mem_append.mp member with old | new
    · rw [if_neg (first f old single), noted.once f old single]
    · rw [List.mem_singleton.mp new] at single ⊢
      rw [if_pos rfl, timesFired, List.count_eq_zero_of_not_mem]
      intro before
      obtain ⟨g, member, number⟩ := List.mem_map.mp before
      have repeats := noted.kind g member _ t here number.symm
      exact first g member (repeats.symm.trans single) number.symm

theorem Noted.move (noted : q.Noted) (inv : q.Inv) (moves : Moves q event after) :
    after.Noted := by
  cases moves with
  | addTimer timer time interval free =>
    refine noted.of_descends (Nat.le_succ _) rfl (fun other u here => ?_)
      fun _ _ _ _ _ _ _ listed ran => ⟨listed, ran⟩
    change (q.store timer _).memory other = some u at here
    rw [memory_store] at here
    split at here
    · cases here
      exact Or.inl (Nat.lt_succ_self _)
    · exact Or.inr ⟨u, here, rfl, rfl⟩
  | @addTimerInLoop timer t clock waits here =>
    have calling : ({ q with adding := q.adding.erase timer }.added timer t clock).calling =
        q.calling := calling_added _ _ _ _
    refine noted.of_descends ?_ (fired_added _ _ _ _)
      (fun other u there => Or.inr ⟨u, ?_, rfl, rfl⟩) fun _ _ _ _ _ _ _ listed ran => ?_
    · rw [created_added]
    · rwa [memory_added] at there
    · rw [expiredTimers_congr calling, waitingTimers, calling]
      exact ⟨listed, ran⟩
  | returned =>
    exact noted.of_descends (Nat.le_refl _) rfl (fun _ u here => Or.inr ⟨u, here, rfl, rfl⟩)
      fun _ _ _ _ _ _ _ listed ran => ⟨listed, ran⟩
  | cancelled member =>
    refine noted.of_descends (Nat.le_refl _) rfl (fun other u here => Or.inr ⟨u, ?_, rfl, rfl⟩)
      fun _ _ _ _ _ _ _ listed ran => ⟨listed, ran⟩
    change (q.delete _).memory other = some u at here
    rw [memory_delete] at here
    exact (Option.ite_none_left_eq_some.mp here).2
  | marked =>
    exact noted.of_descends (Nat.le_refl _) rfl (fun _ u here => Or.inr ⟨u, here, rfl, rfl⟩)
      fun _ _ _ _ _ _ _ listed ran => ⟨listed, ran⟩
  | ignored => exact noted
  | expire =>
    exact noted.of_descends (Nat.le_refl _) rfl (fun _ u here => Or.inr ⟨u, here, rfl, rfl⟩)
      fun _ _ _ _ _ _ _ listed ran => ⟨listed, ran⟩
  | getExpired idle =>
    refine noted.of_descends (Nat.le_refl _) rfl (fun _ u here => Or.inr ⟨u, here, rfl, rfl⟩)
      fun _ _ _ _ _ _ _ listed _ => ?_
    rw [expiredTimers, idle] at listed
    cases listed
  | run calling here => exact noted.run inv calling here
  | @reset batch middle _ _ calling done follows renewed cancelled sound rearmed =>
    obtain ⟨created, fired, memory, _⟩ := follows_of_reset follows sound rearmed
    have descends : ∀ timer t, after.memory timer = some t →
        ∃ u, q.memory timer = some u ∧ u.sequence = t.sequence ∧ u.interval = t.interval := by
      intro timer t here
      rw [memory] at here
      exact follows.descends timer t here
    refine noted.of_descends (Nat.le_of_eq created.symm) fired
      (fun timer t here => Or.inr (descends timer t here)) ?_
    intro f member single timer t here number listed _
    -- it is out of the batch because it has been deleted
    obtain ⟨u, before, same, interval⟩ := descends timer t here
    have kind := noted.kind f member timer u before (same.trans number)
    rw [single] at kind
    rw [expiredTimers, calling] at listed
    obtain ⟨entry, member', place⟩ := List.mem_map.mp listed
    have stops : ¬ q.GoesOn entry.timer u := by
      rintro ⟨repeats, _⟩
      exact repeats (Option.not_isSome_iff_eq_none.mp (by rw [kind]; exact Bool.false_ne_true))
    have deleted := cancelled entry member' u (by rw [place]; exact before) stops
    rw [place, ← memory, here] at deleted
    cases deleted

end TimerQueue

/-- **A timer that does not repeat runs at most once.** -/
theorem one_shot_once {q : TimerQueue} (reached : Reach TimerQueue.next TimerQueue.Enabled {} q) :
    ∀ f ∈ q.fired, f.repeats = false → q.timesFired f.sequence = 1 := by
  have both : q.Inv ∧ q.Noted := by
    refine @Reach.invariant _ _ _ _ _ _ (fun q => q.Inv ∧ q.Noted) reached
      ⟨TimerQueue.inv_init, nofun, nofun, nofun, nofun⟩ fun q event after holds enabled moved => ?_
    obtain ⟨moves, inv⟩ := TimerQueue.moves_of_next holds.1 enabled moved
    exact ⟨inv, holds.2.move holds.1 moves⟩
  exact both.2.once

theorem one_shot_once_sample :
    ∃ q, play TimerQueue.next TimerQueue.Enabled {}
        (twoTimers ++ [.getExpired 120, .run, .run, .reset 130]) = some q ∧
      q.fired = [⟨1, true, 100, 120⟩, ⟨2, false, 100, 120⟩] ∧ q.timesFired 2 = 1 := by
  have shape : (play TimerQueue.next TimerQueue.Enabled {}
      (twoTimers ++ [.getExpired 120, .run, .run, .reset 130])).map TimerQueue.fired =
      some [⟨1, true, 100, 120⟩, ⟨2, false, 100, 120⟩] := by decide
  obtain ⟨q, done, fired⟩ := Option.map_eq_some_iff.mp shape
  have ran : ⟨2, false, 100, 120⟩ ∈ q.fired := by
    rw [fired]
    decide
  exact ⟨q, done, fired, one_shot_once (Reach.of_play .start done) _ ran rfl⟩

/-! ### The descriptor -/

namespace TimerQueue

variable {q after : TimerQueue} {timer : ℕ} {t : Timer} {entry : TimerEntry} {event : TimerEvent}

/-- Times are valid: after the epoch, like those of `Timestamp::valid`. -/
def Valid (q : TimerQueue) (event : TimerEvent) : Prop :=
  q.Enabled event ∧
    match event with
    | .addTimer _ time _ => 0 < time
    | .getExpired now => 0 < now
    | _ => True

/-- The descriptor is set in time: for a timer that is due in less than 100 microseconds, as late as
after these. -/
def InTime (q : TimerQueue) : Prop :=
  q.timers ≠ [] → q.readable = true ∨ ∃ setting, q.armed = some setting ∧
    ∀ entry ∈ q.timers, setting.due ≤ max entry.time (setting.clock + 100)

structure Armed (q : TimerQueue) : Prop where
  inv : q.Inv
  valid : ∀ timer t, q.memory timer = some t → 0 < t.expiration
  now : ∀ batch ∈ q.calling, 0 < batch.now
  inTime : q.calling = none → q.InTime

/-- The first entry is the earliest. -/
theorem first_le {others : List ℕ} (sound : q.Sound others) {first : TimerEntry}
    {rest : List TimerEntry} (timers : q.timers = first :: rest) :
    ∀ entry ∈ q.timers, first.time ≤ entry.time := by
  intro entry member
  have sorted := sound.sorted
  rw [timers] at sorted member
  rcases List.mem_cons.mp member with rfl | later
  · exact Int.le_refl _
  · have order := (List.pairwise_cons.mp sorted).1 entry later
    unfold TimerEntry.le at order
    omega

/-- A setting for a time that is not after another one. -/
theorem due_le {expiration clock time : ℤ} (early : expiration ≤ time) :
    TimerSetting.due ⟨clock, howMuchTimeFromNow expiration clock⟩ ≤ max time (clock + 100) := by
  unfold TimerSetting.due howMuchTimeFromNow
  simp only
  split <;> omega

/-- A new timer is the first, and the descriptor is set for it; or it comes later. -/
theorem InTime.added {others : List ℕ} (inTime : q.InTime) (sound : q.Sound others) (timer : ℕ)
    (t : Timer) (clock : ℤ) : (q.added timer t clock).InTime := by
  have members : ∀ entry ∈ (q.inserted timer t).timers,
      entry = ⟨t.expiration, timer⟩ ∨ entry ∈ q.timers :=
    fun entry member => (List.mem_orderedInsert TimerEntry.le).mp member
  unfold TimerQueue.added
  cases timers : q.timers with
  | nil =>
    have first : q.isEarliest t.expiration = true := by rw [isEarliest, timers]
    rw [if_pos first]
    refine fun _ => Or.inr ⟨_, rfl, fun entry member => due_le ?_⟩
    rcases members entry member with rfl | old
    · exact Int.le_refl _
    · rw [timers] at old
      cases old
  | cons head rest =>
    have before := first_le sound timers
    have earliest : q.isEarliest t.expiration = decide (t.expiration < head.time) := by
      rw [isEarliest, timers]
    by_cases first : t.expiration < head.time
    · rw [if_pos (earliest.trans (decide_eq_true first))]
      refine fun _ => Or.inr ⟨_, rfl, fun entry member => due_le ?_⟩
      rcases members entry member with rfl | old
      · exact Int.le_refl _
      · exact Int.le_trans (Int.le_of_lt first) (before entry old)
    · rw [if_neg (by rw [earliest]; simpa using first)]
      intro _
      rcases inTime (by rw [timers]; exact List.cons_ne_nil _ _) with readable | ⟨e, armed, early⟩
      · exact Or.inl readable
      · refine Or.inr ⟨e, armed, fun entry member => ?_⟩
        rcases members entry member with rfl | old
        · have head_le := early head (by rw [timers]; exact List.mem_cons_self)
          show e.due ≤ max t.expiration (e.clock + 100)
          omega
        · exact early entry old

/-- At the end of a `handleInLoop` the descriptor is set anew. -/
theorem inTime_of_rearm {others : List ℕ} {clock : ℤ} (sound : q.Sound others)
    (valid : ∀ timer t, q.memory timer = some t → 0 < t.expiration)
    (rearmed : q.rearm clock = .ok after) : after.InTime := by
  rcases rearm_spec sound clock with ⟨empty, same⟩ | ⟨first, rest, timers, ⟨_, set⟩ | ⟨early, _⟩⟩
  · rw [same] at rearmed
    cases rearmed
    exact fun some => absurd empty some
  · rw [set] at rearmed
    cases rearmed
    exact fun _ => Or.inr ⟨_, rfl, fun entry member => due_le (first_le sound timers entry member)⟩
  · obtain ⟨t, here, time⟩ := sound.entry_live (timers ▸ List.mem_cons_self : first ∈ q.timers)
    have late := valid _ t here
    omega

theorem Armed.move (armed : q.Armed) (meets : q.Valid event) (moved : q.next event = some after) :
    after.Armed := by
  obtain ⟨inv, valid, now, inTime⟩ := armed
  obtain ⟨moves, inv'⟩ := moves_of_next inv meets.1 moved
  cases moves with
  | addTimer timer time interval free =>
    refine ⟨inv', fun other u here => ?_, now, inTime⟩
    change (q.store timer _).memory other = some u at here
    rw [memory_store] at here
    split at here
    · cases here
      exact meets.2
    · exact valid other u here
  | @addTimerInLoop timer t clock waits here =>
    refine ⟨inv', ?_, ?_, ?_⟩
    · rw [memory_added]
      exact valid
    · rw [calling_added]
      exact now
    · rw [calling_added]
      intro idle
      have before : ({ q with adding := q.adding.erase timer } : TimerQueue).InTime := inTime idle
      exact before.added (inv.sound.congr rfl rfl rfl rfl) timer t clock
  | returned => exact ⟨inv', valid, now, inTime⟩
  | @cancelled entry member =>
    refine ⟨inv', fun other u here => ?_, now, fun idle some => ?_⟩
    · change (q.delete _).memory other = some u at here
      rw [memory_delete] at here
      exact valid other u (Option.ite_none_left_eq_some.mp here).2
    · rcases inTime idle (List.ne_nil_of_mem member) with readable | ⟨e, armed, early⟩
      · exact Or.inl readable
      · exact Or.inr ⟨e, armed, fun other listed => early other (List.mem_of_mem_erase listed)⟩
  | marked => exact ⟨inv', valid, now, inTime⟩
  | ignored => exact ⟨inv', valid, now, inTime⟩
  | expire => exact ⟨inv', valid, now, fun _ _ => Or.inl rfl⟩
  | getExpired idle =>
    refine ⟨inv', valid, fun batch calling => ?_, nofun⟩
    cases calling
    exact meets.2
  | run calling here =>
    refine ⟨inv', valid, fun batch calling' => ?_, nofun⟩
    cases calling'
    have positive := now _ calling
    exact positive
  | @reset batch middle _ _ calling done follows renewed cancelled sound rearmed =>
    obtain ⟨_, _, memory, idle⟩ := follows_of_reset follows sound rearmed
    have valid' : ∀ timer t, middle.memory timer = some t → 0 < t.expiration := by
      intro timer t here
      rcases renewed timer t here with same | late
      · exact valid timer t same
      · exact Int.lt_of_lt_of_le (now batch calling) late
    refine ⟨inv', by rw [memory]; exact valid', by rw [idle]; nofun, fun _ => ?_⟩
    exact inTime_of_rearm sound valid' rearmed

end TimerQueue

/-- **The descriptor is set in time.** Between the calls of `handleInLoop`, when there are timers, it
is readable, or set for a time that is not after any of them or is 100 microseconds after it was
set. -/
theorem timers_armed {q : TimerQueue} (reached : Reach TimerQueue.next TimerQueue.Valid {} q)
    (idle : q.calling = none) (some : q.timers ≠ []) :
    q.readable = true ∨ ∃ setting, q.armed = Option.some setting ∧
      ∀ entry ∈ q.timers, setting.due ≤ max entry.time (setting.clock + 100) := by
  have armed := @Reach.invariant _ _ _ _ _ _ TimerQueue.Armed reached
    ⟨TimerQueue.inv_init, nofun, nofun, fun _ some => absurd rfl some⟩
    fun _ _ _ armed meets moved => armed.move meets moved
  exact armed.inTime idle some

instance (q : TimerQueue) : (event : TimerEvent) → Decidable (q.Valid event)
  | .addTimer timer time _ => inferInstanceAs (Decidable (q.memory timer = none ∧ 0 < time))
  | .getExpired now =>
    inferInstanceAs (Decidable ((q.calling = none ∧ q.readable = true) ∧ 0 < now))
  | .addTimerInLoop timer _ => inferInstanceAs (Decidable (timer ∈ q.adding ∧ True))
  | .returnId id => inferInstanceAs (Decidable (id ∈ q.returning ∧ True))
  | .cancelInLoop _ => isTrue ⟨trivial, trivial⟩
  | .expire => inferInstanceAs (Decidable (q.armed ≠ none ∧ True))
  | .run => inferInstanceAs (Decidable ((∃ batch ∈ q.calling, batch.waiting ≠ []) ∧ True))
  | .reset _ => inferInstanceAs (Decidable ((∃ batch ∈ q.calling, batch.waiting = []) ∧ True))

theorem timers_armed_sample :
    ∃ q, play TimerQueue.next TimerQueue.Valid {}
        (twoTimers ++ [.getExpired 120, .run, .run, .reset 130]) = some q ∧
      q.timers = [⟨170, 10⟩] ∧ q.armed = some ⟨130, 100⟩ ∧
      (q.readable = true ∨ ∃ setting, q.armed = some setting ∧
        ∀ entry ∈ q.timers, setting.due ≤ max entry.time (setting.clock + 100)) := by
  have shape : (play TimerQueue.next TimerQueue.Valid {}
      (twoTimers ++ [.getExpired 120, .run, .run, .reset 130])).map
        (fun q => (q.timers, q.armed, q.calling)) =
      some ([⟨170, 10⟩], some ⟨130, 100⟩, none) := by decide
  obtain ⟨q, done, shape⟩ := Option.map_eq_some_iff.mp shape
  rw [Prod.mk.injEq, Prod.mk.injEq] at shape
  obtain ⟨timers, armed, idle⟩ := shape
  have some : q.timers ≠ [] := by
    rw [timers]
    exact List.cons_ne_nil _ _
  exact ⟨q, done, timers, armed, timers_armed (Reach.of_play .start done) idle some⟩

-- the only timer has run: the descriptor is readable, and nothing sets it again
example : (play TimerQueue.next TimerQueue.Valid {}
    [.addTimer 10 100 none, .addTimerInLoop 10 20, .expire, .getExpired 120, .run,
      .reset 130]).map (fun q => (q.timers, q.armed, q.readable)) = some ([], none, true) := by
  decide

end EtherAdapter
