/-
**The timer queue of an event loop** (`TimerQueue.cpp`, `Timer.h`, `Timer.cpp`; the `#ifndef
INWINDOWS` branch).

Timers are objects in memory, known by their address. `_timers` orders them by expiration,
`_activeTimers` holds the same ones with their sequence numbers, and the timer descriptor is set for
the first of them. When it is readable, `handleInLoop` takes the expired timers out, runs them, and
puts those that repeat back.

A callback can add and cancel timers while the expired ones run, so `handleInLoop` is taken apart:
`getExpired`, one `run` after the other, `reset`. `addTimer` is taken apart too, since other threads
call it: the timer is created, the loop adds it, and the caller reads its sequence number. An
operation ends early with a `TimerFault`: an assertion that fails, or an access to a timer that has
been deleted.

* `TimerQueue.insert`, `getExpired`, `cancelInLoop`, `reset` — the operations.
* `TimerQueue.step` — one step of the loop thread, or of a thread that calls `addTimer`.
* `TimerQueue.addTimer` — a call on the loop thread, where nothing comes in between.

Times are microseconds. The clock is read anew in every `handleInLoop` and `resetTimerfd`, and may
show anything. A set is a list without duplicates, in its order where the order matters.
`readTimerfd` is not called anywhere, so the descriptor stays readable until it is set again.
Overflow of a time or of the sequence numbers is left out.
-/

import Mathlib.Data.List.Sort

namespace EtherAdapter

inductive TimerFault where
  | assertion
  | dangling
deriving DecidableEq, Repr

def checkThat (condition : Prop) [Decidable condition] : Except TimerFault Unit :=
  if condition then .ok () else .error .assertion

/-! ### Timers -/

structure Timer where
  sequence : ℕ
  expiration : ℤ
  /-- `_interval` in whole microseconds, if the timer repeats. -/
  interval : Option ℕ
deriving DecidableEq, Repr

/-- `TimerQueue::Entry`. -/
structure TimerEntry where
  time : ℤ
  timer : ℕ
deriving DecidableEq, Repr

/-- The order of pairs. -/
def TimerEntry.le (a b : TimerEntry) : Prop := a.time < b.time ∨ a.time = b.time ∧ a.timer ≤ b.timer

instance : DecidableRel TimerEntry.le := fun _ _ => inferInstanceAs (Decidable (_ ∨ _))

/-- `TimerId` and `TimerQueue::ActiveTimer`. -/
structure TimerId where
  timer : ℕ
  sequence : ℕ
deriving DecidableEq, Repr

/-- The expired timers of a `handleInLoop`, those of them that have still to run, and its `now`. -/
structure ExpiredTimers where
  expired : List TimerEntry
  waiting : List TimerEntry
  now : ℤ
deriving DecidableEq, Repr

/-- A callback that was run: of which timer, whether that repeats, when it was due, and what the
clock showed. -/
structure Firing where
  sequence : ℕ
  repeats : Bool
  expiration : ℤ
  now : ℤ
deriving DecidableEq, Repr

/-- A setting of the timer descriptor: what the clock showed, and how long it has to wait. -/
structure TimerSetting where
  clock : ℤ
  microseconds : ℤ
deriving DecidableEq, Repr

/-- What the clock shows when the descriptor expires. -/
def TimerSetting.due (setting : TimerSetting) : ℤ := setting.clock + setting.microseconds

structure TimerQueue where
  /-- `Timer::_s_numCreated`. -/
  numCreated : ℕ := 0
  memory : ℕ → Option Timer := fun _ => none
  /-- Timers that have been created, and wait for their `addTimerInLoop`. -/
  adding : List ℕ := []
  /-- What the calls of `addTimer` return that have not returned. -/
  returning : List TimerId := []
  timers : List TimerEntry := []
  activeTimers : List TimerId := []
  /-- `_callingExpiredTimers`, with the locals of `handleInLoop`. -/
  calling : Option ExpiredTimers := none
  cancelingTimers : List TimerId := []
  /-- How the timer descriptor was last set, until it expires. -/
  armed : Option TimerSetting := none
  readable : Bool := false
  fired : List Firing := []

namespace TimerQueue

/-- A pointer is followed. -/
def deref (q : TimerQueue) (timer : ℕ) : Except TimerFault Timer :=
  match q.memory timer with
  | some t => .ok t
  | none => .error .dangling

def store (q : TimerQueue) (timer : ℕ) (t : Timer) : TimerQueue :=
  { q with memory := Function.update q.memory timer (some t) }

def delete (q : TimerQueue) (timer : ℕ) : TimerQueue :=
  { q with memory := Function.update q.memory timer none }

def checkSizes (q : TimerQueue) : Except TimerFault Unit :=
  checkThat (q.timers.length = q.activeTimers.length)

/-- `detail::howMuchTimeFromNow`, in microseconds. -/
def howMuchTimeFromNow (expiration clock : ℤ) : ℤ :=
  let microseconds := expiration - clock
  if microseconds < 100 then 100 else microseconds

/-- `detail::resetTimerfd`; a set descriptor is not readable until it expires. -/
def resetTimerfd (q : TimerQueue) (expiration clock : ℤ) : TimerQueue :=
  { q with armed := some ⟨clock, howMuchTimeFromNow expiration clock⟩, readable := false }

/-- Whether a timer of this time would be the first. -/
def isEarliest (q : TimerQueue) (time : ℤ) : Bool :=
  match q.timers with
  | [] => true
  | first :: _ => time < first.time

def insert (q : TimerQueue) (timer : ℕ) : Except TimerFault (TimerQueue × Bool) := do
  q.checkSizes
  let t ← q.deref timer
  let entry : TimerEntry := ⟨t.expiration, timer⟩
  let id : TimerId := ⟨timer, t.sequence⟩
  checkThat (entry ∉ q.timers)
  checkThat (id ∉ q.activeTimers)
  let after := { q with
    timers := q.timers.orderedInsert TimerEntry.le entry, activeTimers := id :: q.activeTimers }
  after.checkSizes
  return (after, q.isEarliest t.expiration)

def addTimerInLoop (q : TimerQueue) (timer : ℕ) (clock : ℤ) : Except TimerFault TimerQueue := do
  let (after, earliestChanged) ← q.insert timer
  if earliestChanged then
    let t ← after.deref timer
    return after.resetTimerfd t.expiration clock
  else return after

/-- `timer->sequence()`, with which `addTimer` ends. The timer that was created may be gone, and
another one lie at its address. -/
def returnId (q : TimerQueue) (id : TimerId) : Except TimerFault TimerQueue := do
  let t ← q.deref id.timer
  if t.sequence = id.sequence then return { q with returning := q.returning.erase id }
  else throw .dangling

def cancelInLoop (q : TimerQueue) (id : TimerId) : Except TimerFault TimerQueue := do
  q.checkSizes
  if id ∈ q.activeTimers then
    let t ← q.deref id.timer
    let entry : TimerEntry := ⟨t.expiration, id.timer⟩
    checkThat (entry ∈ q.timers)
    return { q.delete id.timer with
      timers := q.timers.erase entry, activeTimers := q.activeTimers.erase id }
  else if q.calling.isSome then
    return { q with cancelingTimers := q.cancelingTimers.insert id }
  else return q

/-- The expired timers are no longer active. -/
def eraseActive (q : TimerQueue) : List TimerEntry → List TimerId → Except TimerFault (List TimerId)
  | [], active => .ok active
  | entry :: rest, active => do
    let t ← q.deref entry.timer
    let id : TimerId := ⟨entry.timer, t.sequence⟩
    checkThat (id ∈ active)
    q.eraseActive rest (active.erase id)

/-- `getExpired`, and the lines of `handleInLoop` before its loop. No timer lies at the address of
the sentry, so the entries before the sentry are those that are due. -/
def getExpired (q : TimerQueue) (now : ℤ) : Except TimerFault TimerQueue := do
  q.checkSizes
  let expired := q.timers.takeWhile (·.time ≤ now)
  let later := q.timers.dropWhile (·.time ≤ now)
  let active ← q.eraseActive expired q.activeTimers
  let after := { q with timers := later, activeTimers := active }
  after.checkSizes
  return { after with calling := some ⟨expired, expired, now⟩, cancelingTimers := [] }

/-- The callback of one timer is run. -/
def run (q : TimerQueue) (batch : ExpiredTimers) (entry : TimerEntry) (rest : List TimerEntry) :
    Except TimerFault TimerQueue := do
  let t ← q.deref entry.timer
  return { q with
    calling := some { batch with waiting := rest }
    fired := q.fired ++ [⟨t.sequence, t.interval.isSome, entry.time, batch.now⟩] }

/-- An expired timer is put back or deleted. -/
def resetOne (q : TimerQueue) (entry : TimerEntry) (now : ℤ) : Except TimerFault TimerQueue := do
  let t ← q.deref entry.timer
  match t.interval with
  | some interval =>
    if ⟨entry.timer, t.sequence⟩ ∈ q.cancelingTimers then return q.delete entry.timer
    else
      let (after, _) ← (q.store entry.timer { t with expiration := now + interval }).insert entry.timer
      return after
  | none => return q.delete entry.timer

def resetAll (q : TimerQueue) : List TimerEntry → ℤ → Except TimerFault TimerQueue
  | [], _ => .ok q
  | entry :: rest, now => do
    let after ← q.resetOne entry now
    after.resetAll rest now

/-- `nextExpire` is valid. -/
def rearm (q : TimerQueue) (clock : ℤ) : Except TimerFault TimerQueue :=
  match q.timers with
  | [] => .ok q
  | first :: _ => do
    let t ← q.deref first.timer
    if 0 < t.expiration then return q.resetTimerfd t.expiration clock else return q

/-- `reset`, at the end of `handleInLoop`. -/
def reset (q : TimerQueue) (batch : ExpiredTimers) (clock : ℤ) : Except TimerFault TimerQueue := do
  let after ← { q with calling := none }.resetAll batch.expired batch.now
  after.rearm clock

end TimerQueue

/-! ### Steps -/

inductive TimerEvent where
  /-- Any thread is in `addTimer`: a timer is created at a free address. -/
  | addTimer (timer : ℕ) (time : ℤ) (interval : Option ℕ)
  /-- The loop adds it; what the clock shows should the descriptor be set. -/
  | addTimerInLoop (timer : ℕ) (clock : ℤ)
  /-- The call of `addTimer` returns. -/
  | returnId (id : TimerId)
  | cancelInLoop (id : TimerId)
  /-- The descriptor expires. -/
  | expire
  /-- `handleInLoop` begins; what the clock shows. -/
  | getExpired (now : ℤ)
  /-- The next expired timer runs. -/
  | run
  | reset (clock : ℤ)
deriving DecidableEq, Repr

namespace TimerQueue

/-- The step can come next. -/
def Enabled (q : TimerQueue) : TimerEvent → Prop
  | .addTimer timer _ _ => q.memory timer = none
  | .addTimerInLoop timer _ => timer ∈ q.adding
  | .returnId id => id ∈ q.returning
  | .cancelInLoop _ => True
  | .expire => q.armed ≠ none
  | .getExpired _ => q.calling = none ∧ q.readable = true
  | .run => ∃ batch ∈ q.calling, batch.waiting ≠ []
  | .reset _ => ∃ batch ∈ q.calling, batch.waiting = []

def step (q : TimerQueue) : TimerEvent → Except TimerFault TimerQueue
  | .addTimer timer time interval =>
    .ok { q.store timer ⟨q.numCreated + 1, time, interval⟩ with
      numCreated := q.numCreated + 1
      adding := timer :: q.adding
      returning := ⟨timer, q.numCreated + 1⟩ :: q.returning }
  | .addTimerInLoop timer clock =>
    { q with adding := q.adding.erase timer }.addTimerInLoop timer clock
  | .returnId id => q.returnId id
  | .cancelInLoop id => q.cancelInLoop id
  | .expire => .ok { q with armed := none, readable := true }
  | .getExpired now => q.getExpired now
  | .run =>
    match q.calling with
    | some ⟨expired, entry :: rest, now⟩ => q.run ⟨expired, entry :: rest, now⟩ entry rest
    | _ => .ok q
  | .reset clock =>
    match q.calling with
    | some batch => q.reset batch clock
    | none => .ok q

/-- `addTimer` on the loop thread: `runInLoop` calls at once, so its steps are one after the other. -/
def addTimer (q : TimerQueue) (timer : ℕ) (time : ℤ) (interval : Option ℕ) (clock : ℤ) :
    Except TimerFault TimerQueue := do
  let created ← q.step (.addTimer timer time interval)
  let added ← created.step (.addTimerInLoop timer clock)
  added.step (.returnId ⟨timer, q.numCreated + 1⟩)

/-- One step that ends without a fault. -/
def next (q : TimerQueue) (event : TimerEvent) : Option TimerQueue :=
  match q.step event with
  | .ok after => some after
  | .error _ => none

end TimerQueue

end EtherAdapter
