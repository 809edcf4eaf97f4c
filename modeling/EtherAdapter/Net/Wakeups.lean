/-
**No functor and no wakeup is lost.**

Functors wait in `_pendingFunctors`, or in the list that `doPendingFunctors` has taken over, and are
called in the order in which they were queued: `InOrder`. A thread that queues one writes to the
wakeup descriptor afterwards, and only the dispatch of the wakeup channel, which a call of the
functors follows, takes that back: `Signalled`.

* **`functors_in_order`** — every functor is called once, in the order of `queueInLoop`.
* **`no_lost_wakeup`** — the loop does not wait while there is something to do, unless a thread is
  about to wake it up.
* **`loop_settles`** — when the other threads are done, the loop by itself calls all functors, or it
  ends.

A functor that the loop's own thread queues before `loop()` wakes nobody up, and neither does a
signal handler on the loop thread that comes between the test of `_quit` and `epoll_wait`:
`EventLoop.Timely` leaves these out.
-/

import EtherAdapter.Runs.Basic
import EtherAdapter.Model.EventLoop

namespace EtherAdapter

open Runs

/-- The loop tests `_quit` or waits before it takes the functors over again. -/
def LoopPhase.mayWait {φ : Type} : LoopPhase φ → Bool
  | .handling _ | .swapping | .exited => false
  | _ => true

/-- The loop has passed its test of `_quit`. -/
def LoopPhase.committed {φ : Type} : LoopPhase φ → Bool
  | .entering | .waiting => true
  | _ => false

namespace EventLoop

variable {φ : Type} {l l' : EventLoop φ}

/-! ### Steps -/

/-- What a step can do. -/
inductive Moves (l : EventLoop φ) : LoopEvent φ → EventLoop φ → Prop where
  | loop (here : l.phase = .idle) : Moves l .loop { l with quitFlag := false, phase := .testing }
  | leave (here : l.phase = .testing) (quit : l.quitFlag = true) :
      Moves l .test { l with phase := .exited }
  | goOn (here : l.phase = .testing) (stay : l.quitFlag = false) :
      Moves l .test { l with phase := .entering }
  | enter (here : l.phase = .entering) : Moves l .enter { l with phase := .waiting }
  | wait (here : l.phase = .waiting) {wakeup : Bool} (ready : wakeup = true → l.wakeups ≠ 0) :
      Moves l (.wait wakeup) { l with phase := .handling wakeup }
  | handleRead (here : l.phase = .handling true) :
      Moves l .handleRead { l with wakeups := 0, phase := .handling false }
  | handled (here : l.phase = .handling false) : Moves l .handled { l with phase := .swapping }
  | swap (here : l.phase = .swapping) :
      Moves l .swap ({ l with pendingFunctors := [] }.callNext l.pendingFunctors)
  | call {rest : List φ} (here : l.phase = .calling rest) : Moves l .call (l.callNext rest)
  | queueHere (functor : φ) (here : l.onLoopThread = true) :
      Moves l (.queueHere functor) (l.queueHere functor)
  | quitHere (here : l.inCallback = true) : Moves l .quitHere { l with quitFlag := true }
  | queueInLoop (functor : φ) :
      Moves l (.queueInLoop functor)
        { l with
          pendingFunctors := l.pendingFunctors ++ [functor], posted := l.posted ++ [functor]
          waking := l.waking + 1 }
  | quit : Moves l .quit { l with quitFlag := true, waking := l.waking + 1 }
  | wakeup (due : l.waking ≠ 0) :
      Moves l .wakeup { l with waking := l.waking - 1, wakeups := l.wakeups + 1 }
  | signal : Moves l .signal l.signal

theorem moves_of_loopStep {event : LoopEvent φ} (moved : l.loopStep event = some l') :
    Moves l event l' := by
  unfold loopStep at moved
  split at moved <;> rename_i here
  · cases moved
    exact .loop here
  · by_cases quit : l.quitFlag = true
    · rw [if_pos quit] at moved
      cases moved
      exact .leave here quit
    · rw [if_neg quit] at moved
      cases moved
      exact .goOn here (Bool.eq_false_iff.mpr quit)
  · cases moved
    exact .enter here
  · obtain ⟨ready, moved⟩ := Option.ite_none_left_eq_some.mp moved
    cases moved
    exact .wait here fun woken none => ready ⟨woken, none⟩
  · cases moved
    exact .handleRead here
  · cases moved
    exact .handled here
  · cases moved
    exact .swap here
  · cases moved
    exact .call here
  · cases moved

/-- **Every step is one of these.** -/
theorem moves_of_next {event : LoopEvent φ} (moved : l.next event = some l') : Moves l event l' := by
  cases event with
  | queueHere functor =>
    obtain ⟨here, moved⟩ := Option.ite_none_right_eq_some.mp moved
    cases moved
    exact .queueHere functor here
  | quitHere =>
    obtain ⟨here, moved⟩ := Option.ite_none_right_eq_some.mp moved
    cases moved
    exact .quitHere here
  | queueInLoop functor =>
    cases moved
    exact .queueInLoop functor
  | quit =>
    cases moved
    exact .quit
  | wakeup =>
    obtain ⟨due, moved⟩ := Option.ite_none_left_eq_some.mp moved
    cases moved
    exact .wakeup due
  | signal =>
    cases moved
    exact .signal
  | loop => exact moves_of_loopStep moved
  | test => exact moves_of_loopStep moved
  | enter => exact moves_of_loopStep moved
  | wait wakeup => exact moves_of_loopStep moved
  | handleRead => exact moves_of_loopStep moved
  | handled => exact moves_of_loopStep moved
  | swap => exact moves_of_loopStep moved
  | call => exact moves_of_loopStep moved

theorem next_of_moves {event : LoopEvent φ} (moves : Moves l event l') : l.next event = some l' := by
  cases moves with
  | loop here => simp only [next, loopStep, here]
  | leave here quit => simp only [next, loopStep, here, quit, if_true]
  | goOn here stay => simp only [next, loopStep, here, stay, Bool.false_eq_true, if_false]
  | enter here => simp only [next, loopStep, here]
  | wait here ready =>
    simp only [next, loopStep, here]
    exact if_neg fun none => ready none.1 none.2
  | handleRead here => simp only [next, loopStep, here]
  | handled here => simp only [next, loopStep, here]
  | swap here => simp only [next, loopStep, here]
  | call here => simp only [next, loopStep, here]
  | queueHere functor here => exact if_pos here
  | quitHere here => exact if_pos here
  | queueInLoop functor => rfl
  | quit => rfl
  | wakeup due => exact if_neg due
  | signal => rfl

/-! ### Functors -/

/-- The functors that `doPendingFunctors` has still to call. -/
def taken (l : EventLoop φ) : List φ :=
  match l.phase with
  | .calling rest => rest
  | _ => []

/-- Every functor is called, taken or waits, in the order in which it was queued. -/
def InOrder (l : EventLoop φ) : Prop := l.called ++ l.taken ++ l.pendingFunctors = l.posted

theorem InOrder.callNext {rest : List φ}
    (inOrder : l.called ++ rest ++ l.pendingFunctors = l.posted) : (l.callNext rest).InOrder := by
  cases rest with
  | nil => exact inOrder
  | cons functor rest =>
    show l.called ++ [functor] ++ rest ++ l.pendingFunctors = l.posted
    rw [List.append_assoc l.called, List.singleton_append]
    exact inOrder

/-- A functor that is queued goes to the end. -/
theorem InOrder.queue (inOrder : l.InOrder) (functor : φ) :
    l.called ++ l.taken ++ (l.pendingFunctors ++ [functor]) = l.posted ++ [functor] := by
  rw [← List.append_assoc, inOrder]

theorem InOrder.move (inOrder : l.InOrder) {event : LoopEvent φ} (moves : Moves l event l') :
    l'.InOrder := by
  have before := inOrder
  unfold InOrder taken at before
  cases moves with
  | loop here => rwa [here] at before
  | leave here => rwa [here] at before
  | goOn here => rwa [here] at before
  | enter here => rwa [here] at before
  | wait here => rwa [here] at before
  | handleRead here => rwa [here] at before
  | handled here => rwa [here] at before
  | swap here =>
    rw [here, List.append_nil] at before
    refine InOrder.callNext ?_
    rwa [List.append_nil]
  | call here =>
    rw [here] at before
    exact InOrder.callNext before
  | queueHere functor => exact inOrder.queue functor
  | quitHere => exact inOrder
  | queueInLoop functor => exact inOrder.queue functor
  | quit => exact inOrder
  | wakeup => exact inOrder
  | signal =>
    cases here : l.phase <;> rw [here] at before <;>
      simpa only [InOrder, taken, EventLoop.signal, here] using before

theorem inOrder_of_reach (reached : Reach next anyStep {} l) : l.InOrder :=
  @Reach.invariant _ _ _ _ _ _ InOrder reached rfl
    fun _ _ _ inOrder _ moved => inOrder.move (moves_of_next moved)

/-! ### Wakeups -/

/-- What waits has been announced, or a thread is about to do so; the loop ends when told to. -/
structure Signalled (l : EventLoop φ) : Prop where
  functors : l.phase.mayWait = true → l.pendingFunctors ≠ [] → 0 < l.wakeups + l.waking
  quits : l.phase.committed = true → l.quitFlag = true → 0 < l.wakeups + l.waking
  ended : l.phase = .exited → l.quitFlag = true

/-- The loop thread queues from its callbacks only, and no signal comes to it between the test of
`_quit` and `epoll_wait`. -/
def Timely (l : EventLoop φ) : LoopEvent φ → Prop
  | .queueHere _ => l.inCallback = true
  | .signal => l.phase ≠ .entering
  | _ => True

instance (l : EventLoop φ) [DecidableEq φ] : (event : LoopEvent φ) → Decidable (l.Timely event)
  | .queueHere _ => inferInstanceAs (Decidable (l.inCallback = true))
  | .signal => inferInstanceAs (Decidable (l.phase ≠ .entering))
  | .loop | .test | .enter | .wait _ | .handleRead | .handled | .swap | .call | .quitHere
  | .queueInLoop _ | .quit | .wakeup => isTrue trivial

theorem Signalled.move (signalled : l.Signalled) {event : LoopEvent φ} (timely : l.Timely event)
    (moves : Moves l event l') : l'.Signalled := by
  obtain ⟨functors, quits, ended⟩ := signalled
  cases moves with
  | loop here =>
    rw [here] at functors
    exact ⟨functors, nofun, nofun⟩
  | leave here quit => exact ⟨nofun, nofun, fun _ => quit⟩
  | goOn here stay =>
    rw [here] at functors
    refine ⟨functors, fun _ quit => ?_, nofun⟩
    rw [show l.quitFlag = true from quit] at stay
    cases stay
  | enter here =>
    rw [here] at functors quits
    exact ⟨functors, quits, nofun⟩
  | wait here => exact ⟨nofun, nofun, nofun⟩
  | handleRead here => exact ⟨nofun, nofun, nofun⟩
  | handled here => exact ⟨nofun, nofun, nofun⟩
  | swap here =>
    cases l.pendingFunctors with
    | nil => exact ⟨fun _ some => absurd rfl some, nofun, nofun⟩
    | cons functor rest => exact ⟨fun _ some => absurd rfl some, nofun, nofun⟩
  | @call rest here =>
    rw [here] at functors
    cases rest with
    | nil => exact ⟨functors, nofun, nofun⟩
    | cons functor rest => exact ⟨functors, nofun, nofun⟩
  | queueHere functor =>
    have inside : l.inCallback = true := timely
    unfold inCallback at inside
    split at inside
    · rename_i here
      -- the functors are taken over before the loop waits again
      exact ⟨fun may => absurd (here ▸ may) nofun, fun past => absurd (here ▸ past) nofun, ended⟩
    · rename_i here
      have counted : (l.queueHere functor).wakeups = l.wakeups + 1 := by
        simp only [EventLoop.queueHere, here]
      have some : 0 < (l.queueHere functor).wakeups + l.waking := by
        rw [counted]
        exact Nat.add_pos_left (Nat.succ_pos _) _
      exact ⟨fun _ _ => some, fun _ _ => some, ended⟩
    · cases inside
  | quitHere inside =>
    unfold inCallback at inside
    refine ⟨functors, fun past => ?_, fun _ => rfl⟩
    split at inside
    · rename_i here
      exact absurd (here ▸ past) nofun
    · rename_i here
      exact absurd (here ▸ past) nofun
    · cases inside
  | queueInLoop functor => exact ⟨fun _ _ => Nat.succ_pos _, fun _ _ => Nat.succ_pos _, ended⟩
  | quit => exact ⟨fun _ _ => Nat.succ_pos _, fun _ _ => Nat.succ_pos _, fun _ => rfl⟩
  | wakeup =>
    have some : 0 < l.wakeups + 1 + (l.waking - 1) := Nat.add_pos_left (Nat.succ_pos _) _
    exact ⟨fun _ _ => some, fun _ _ => some, ended⟩
  | signal =>
    have early : l.phase ≠ .entering := timely
    unfold EventLoop.signal
    split
    · exact ⟨nofun, nofun, nofun⟩
    · rename_i other
      refine ⟨functors, fun past => ?_, fun _ => rfl⟩
      cases here : l.phase with
      | entering => exact absurd here early
      | waiting => exact absurd here other
      | _ => exact absurd (here ▸ past) nofun

theorem signalled_of_reach (reached : Reach next Timely {} l) : l.Signalled :=
  @Reach.invariant _ _ _ _ _ _ Signalled reached ⟨fun _ some => absurd rfl some, nofun, nofun⟩
    fun _ _ _ signalled timely moved => signalled.move timely (moves_of_next moved)

/-- The other threads are quiet: what the loop does by itself, when `epoll_wait` returns for a wakeup
only. -/
def ownEvent (l : EventLoop φ) : Option (LoopEvent φ) :=
  match l.phase with
  | .idle => some .loop
  | .testing => some .test
  | .entering => some .enter
  | .waiting => if l.wakeups = 0 then none else some (.wait true)
  | .handling true => some .handleRead
  | .handling false => some .handled
  | .swapping => some .swap
  | .calling _ => some .call
  | .exited => none

def Alone (l : EventLoop φ) (event : LoopEvent φ) : Prop := l.ownEvent = some event

/-- The loop has nothing to do: it waits, or it has ended because it was told to. -/
def Settled (posted : List φ) (l : EventLoop φ) : Prop :=
  l.posted = posted ∧
    ((l.phase = .exited ∧ l.quitFlag = true) ∨
      (l.phase = .waiting ∧ l.wakeups = 0 ∧ l.quitFlag = false ∧ l.called = posted))

/-- What holds between the steps of a loop that is left alone. -/
structure Ready (l : EventLoop φ) : Prop where
  inOrder : l.InOrder
  signalled : l.Signalled
  quiet : l.waking = 0

/-- Left alone, the loop comes to rest. -/
def Settles (l : EventLoop φ) : Prop := ∃ q, Reach next Alone l q ∧ q.Settled l.posted

/-- A step of a loop that is left alone. -/
theorem Settles.of_step (ready : l.Ready) {event : LoopEvent φ} (own : l.ownEvent = some event)
    (moves : Moves l event l') (quiet : l'.waking = l.waking) (same : l'.posted = l.posted)
    (later : l'.Ready → l'.Settles) : l.Settles := by
  have timely : l.Timely event := by
    cases moves with
    | queueHere functor inside =>
      unfold ownEvent at own
      split at own <;> first | cases own | (split at own <;> cases own)
    | signal =>
      unfold ownEvent at own
      split at own <;> first | cases own | (split at own <;> cases own)
    | _ => trivial
  obtain ⟨q, reach, settled⟩ := later
    ⟨ready.inOrder.move moves, ready.signalled.move timely moves, quiet.trans ready.quiet⟩
  rw [same] at settled
  exact ⟨q, reach.head event own (next_of_moves moves), settled⟩

/-- Nothing has been announced, so there is nothing to do. -/
theorem settles_of_quiet (ready : l.Ready) (here : l.phase = .waiting) (none : l.wakeups = 0) :
    l.Settles := by
  obtain ⟨inOrder, ⟨functors, quits, _⟩, quiet⟩ := ready
  rw [here, none, quiet] at functors quits
  have empty : l.pendingFunctors = [] :=
    Classical.byContradiction fun some => Nat.lt_irrefl 0 (functors rfl some)
  have stay : l.quitFlag = false :=
    Bool.eq_false_iff.mpr fun quit => Nat.lt_irrefl 0 (quits rfl quit)
  rw [InOrder, taken, here, empty, List.append_nil, List.append_nil] at inOrder
  exact ⟨l, .start, rfl, Or.inr ⟨here, none, stay, inOrder⟩⟩

section Iteration

variable {w : ℕ}
  (waits : ∀ l : EventLoop φ, l.Ready → l.phase = .waiting → l.wakeups = w → l.Settles)
include waits

theorem settles_of_entering (ready : l.Ready) (here : l.phase = .entering)
    (counted : l.wakeups = w) : l.Settles :=
  Settles.of_step ready (by rw [ownEvent, here]) (.enter here) rfl rfl fun ready =>
    waits _ ready rfl counted

theorem settles_of_testing (ready : l.Ready) (here : l.phase = .testing)
    (counted : l.wakeups = w) : l.Settles := by
  have own : l.ownEvent = some .test := by rw [ownEvent, here]
  cases quit : l.quitFlag with
  | true =>
    exact Settles.of_step ready own (.leave here quit) rfl rfl fun _ =>
      ⟨_, .start, rfl, Or.inl ⟨rfl, quit⟩⟩
  | false =>
    exact Settles.of_step ready own (.goOn here quit) rfl rfl fun ready =>
      settles_of_entering waits ready rfl counted

/-- The functors are called one after the other. -/
theorem settles_of_calling {rest : List φ} (ready : l.Ready) (here : l.phase = .calling rest)
    (counted : l.wakeups = w) : l.Settles := by
  have own : l.ownEvent = some .call := by rw [ownEvent, here]
  induction rest generalizing l with
  | nil =>
    exact Settles.of_step ready own (.call here) rfl rfl fun ready =>
      settles_of_testing waits ready rfl counted
  | cons functor rest ih =>
    exact Settles.of_step ready own (.call here) rfl rfl fun ready =>
      ih ready rfl counted rfl

theorem settles_of_swapping (ready : l.Ready) (here : l.phase = .swapping)
    (counted : l.wakeups = w) : l.Settles := by
  have own : l.ownEvent = some .swap := by rw [ownEvent, here]
  have moves := Moves.swap here
  cases pending : l.pendingFunctors with
  | nil =>
    rw [pending] at moves
    exact Settles.of_step ready own moves rfl rfl fun ready =>
      settles_of_testing waits ready rfl counted
  | cons functor rest =>
    rw [pending] at moves
    exact Settles.of_step ready own moves rfl rfl fun ready =>
      settles_of_calling waits ready rfl counted

theorem settles_of_handling (ready : l.Ready) (here : l.phase = .handling false)
    (counted : l.wakeups = w) : l.Settles :=
  Settles.of_step ready (by rw [ownEvent, here]) (.handled here) rfl rfl fun ready =>
    settles_of_swapping waits ready rfl counted

end Iteration

/-- The dispatch of the wakeup channel takes back all wakeups, and the functors are called. -/
theorem settles_of_woken (ready : l.Ready) (here : l.phase = .handling true) : l.Settles :=
  Settles.of_step ready (by rw [ownEvent, here]) (.handleRead here) rfl rfl fun ready =>
    settles_of_handling (w := 0) (fun _ => settles_of_quiet) ready rfl rfl

theorem settles_of_waiting (ready : l.Ready) (here : l.phase = .waiting) : l.Settles := by
  by_cases none : l.wakeups = 0
  · exact settles_of_quiet ready here none
  · have own : l.ownEvent = some (.wait true) := by
      rw [ownEvent, here]
      exact if_neg none
    exact Settles.of_step ready own (.wait here fun _ => none) rfl rfl fun ready =>
      settles_of_woken ready rfl

theorem Ready.settles (ready : l.Ready) : l.Settles := by
  have waits : ∀ m : EventLoop φ, m.Ready → m.phase = .waiting → m.wakeups = l.wakeups → m.Settles :=
    fun _ ready here _ => settles_of_waiting ready here
  cases here : l.phase with
  | idle =>
    exact Settles.of_step ready (by rw [ownEvent, here]) (.loop here) rfl rfl fun ready =>
      settles_of_testing waits ready rfl rfl
  | testing => exact settles_of_testing waits ready here rfl
  | entering => exact settles_of_entering waits ready here rfl
  | waiting => exact settles_of_waiting ready here
  | handling wakeup =>
    cases wakeup with
    | true => exact settles_of_woken ready here
    | false => exact settles_of_handling waits ready here rfl
  | swapping => exact settles_of_swapping waits ready here rfl
  | calling rest => exact settles_of_calling waits ready here rfl
  | exited => exact ⟨l, .start, rfl, Or.inl ⟨here, ready.signalled.ended here⟩⟩

end EventLoop

/-! ### Runs -/

/-- **Every functor is called once, in the order of `queueInLoop`.** -/
theorem functors_in_order {φ : Type} {l : EventLoop φ}
    (reached : Reach EventLoop.next anyStep {} l) :
    l.called ++ l.taken ++ l.pendingFunctors = l.posted := EventLoop.inOrder_of_reach reached

/-- A functor is queued from elsewhere; while it runs it queues another one. -/
def postings : List (LoopEvent ℕ) :=
  [.loop, .test, .enter, .queueInLoop 7, .wakeup, .wait true, .handleRead, .handled, .swap,
    .queueHere 8, .queueInLoop 9]

theorem functors_in_order_sample :
    ∃ l, play EventLoop.next anyStep {} postings = some l ∧ l.called = [7] ∧ l.posted = [7, 8, 9] ∧
      l.called ++ l.taken ++ l.pendingFunctors = l.posted := by
  have shape : (play EventLoop.next anyStep {} postings).map (fun l => (l.called, l.posted)) =
      some ([7], [7, 8, 9]) := by decide
  obtain ⟨l, done, shape⟩ := Option.map_eq_some_iff.mp shape
  rw [Prod.mk.injEq] at shape
  exact ⟨l, done, shape.1, shape.2, functors_in_order (Reach.of_play .start done)⟩

/-- **The loop does not sleep over work**: where it waits with functors or `_quit` set, the wakeup
descriptor is readable, or a thread is about to write to it. -/
theorem no_lost_wakeup {φ : Type} {l : EventLoop φ}
    (reached : Reach EventLoop.next EventLoop.Timely {} l) (waits : l.phase = .waiting)
    (work : l.pendingFunctors ≠ [] ∨ l.quitFlag = true) : 0 < l.wakeups + l.waking := by
  obtain ⟨functors, quits, _⟩ := EventLoop.signalled_of_reach reached
  rw [waits] at functors quits
  rcases work with some | quit
  · exact functors rfl some
  · exact quits rfl quit

/-- The loop waits again, with the functors of `postings` that came late. -/
theorem no_lost_wakeup_sample :
    ∃ l, play EventLoop.next EventLoop.Timely {} (postings ++ [.call, .test, .enter]) = some l ∧
      l.phase = .waiting ∧ l.pendingFunctors = [8, 9] ∧ 0 < l.wakeups + l.waking := by
  have shape : (play EventLoop.next EventLoop.Timely {} (postings ++ [.call, .test, .enter])).map
      (fun l => (l.phase, l.pendingFunctors)) = some (.waiting, [8, 9]) := by decide
  obtain ⟨l, done, shape⟩ := Option.map_eq_some_iff.mp shape
  rw [Prod.mk.injEq] at shape
  obtain ⟨waits, pending⟩ := shape
  have work : l.pendingFunctors ≠ [] := by
    rw [pending]
    exact List.cons_ne_nil _ _
  exact ⟨l, done, waits, pending, no_lost_wakeup (Reach.of_play .start done) waits (Or.inl work)⟩

-- a functor that the loop thread queues before `loop()`: the loop sleeps over it
example : (play EventLoop.next anyStep {} [.queueHere 7, .loop, .test, .enter]).map
    (fun l => (l.phase, l.pendingFunctors, l.wakeups + l.waking)) = some (.waiting, [7], 0) := by
  decide

-- a signal between the test of `_quit` and `epoll_wait`: the loop sleeps until the time limit
example : (play EventLoop.next anyStep ({} : EventLoop ℕ) [.loop, .test, .signal, .enter]).map
    (fun l => (l.phase, l.quitFlag, l.wakeups + l.waking)) = some (.waiting, true, 0) := by
  decide

/-- **Left alone, the loop calls every functor or ends.** Once no thread is about to wake it up, its
own steps lead to a state where it has ended because it was told to, or waits with every functor
called. -/
theorem loop_settles {φ : Type} {l : EventLoop φ}
    (reached : Reach EventLoop.next EventLoop.Timely {} l) (quiet : l.waking = 0) :
    ∃ q, Reach EventLoop.next EventLoop.Alone l q ∧ q.posted = l.posted ∧
      ((q.phase = .exited ∧ q.quitFlag = true) ∨
        (q.phase = .waiting ∧ q.wakeups = 0 ∧ q.quitFlag = false ∧ q.called = l.posted)) :=
  EventLoop.Ready.settles
    ⟨EventLoop.inOrder_of_reach (reached.mono fun _ _ _ => trivial),
      EventLoop.signalled_of_reach reached, quiet⟩

theorem loop_settles_sample :
    ∃ l q, play EventLoop.next EventLoop.Timely {} (postings ++ [.wakeup]) = some l ∧
      Reach EventLoop.next EventLoop.Alone l q ∧ q.posted = l.posted ∧
      ((q.phase = .exited ∧ q.quitFlag = true) ∨
        (q.phase = .waiting ∧ q.wakeups = 0 ∧ q.quitFlag = false ∧ q.called = l.posted)) := by
  have shape : (play EventLoop.next EventLoop.Timely {} (postings ++ [.wakeup])).map
      (fun l => l.waking) = some 0 := by decide
  obtain ⟨l, done, quiet⟩ := Option.map_eq_some_iff.mp shape
  obtain ⟨q, alone, settled⟩ := loop_settles (Reach.of_play .start done) quiet
  exact ⟨l, q, done, alone, settled⟩

end EtherAdapter
