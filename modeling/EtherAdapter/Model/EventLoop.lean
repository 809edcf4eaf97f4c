/-
**The event loop and the threads that post to it** (`EventLoop.cpp`; `EPollPoller.cpp` as far as the
wakeup descriptor goes).

The loop thread runs `loop()`: it tests `_quit`, waits in `epoll_wait`, dispatches the active
channels, and calls the functors that wait. Other threads call `queueInLoop` and `quit`. One step is
what happens without letting another thread in: an access under the mutex, the write to the wakeup
descriptor that follows it, a return of `epoll_wait`, the start of a functor.

* `LoopPhase` — where the loop thread is.
* `EventLoop` — the flags, the functors that wait and the counter of the wakeup descriptor.
* `EventLoop.next` — one step of the loop thread, of another thread or of a signal handler.

`epoll_wait` may return at any time (a socket, the time limit), with the wakeup channel among the
active ones only if its counter is not zero. What a channel's handler or a functor does is what it
calls of the loop. A full counter (`2 ^ 64 - 2` writes without a read) is left out, and so are a
`runInLoop` on the loop thread, which calls its functor at once, and timers.
-/

import Mathlib.Data.Nat.Notation

namespace EtherAdapter

/-- Where the loop thread is in `loop()`; `φ` are the functors. -/
inductive LoopPhase (φ : Type) where
  /-- `loop()` has not been called. -/
  | idle
  /-- At the test of `_quit`. -/
  | testing
  /-- The test has passed, `epoll_wait` comes next. -/
  | entering
  /-- In `epoll_wait`. -/
  | waiting
  /-- The active channels are dispatched, the wakeup channel still to come or not. -/
  | handling (wakeup : Bool)
  /-- `_callingPendingFunctors` is set, the mutex comes next. -/
  | swapping
  /-- In a functor; these come after it. -/
  | calling (functors : List φ)
  /-- `loop()` has returned. -/
  | exited
deriving DecidableEq, Repr

structure EventLoop (φ : Type) where
  quitFlag : Bool := false
  pendingFunctors : List φ := []
  /-- The counter of `_wakeupFd`. -/
  wakeups : ℕ := 0
  /-- Threads that are about to write to `_wakeupFd`. -/
  waking : ℕ := 0
  phase : LoopPhase φ := .idle
  /-- The functors passed to `queueInLoop`, and those called, in the order of these events. -/
  posted : List φ := []
  called : List φ := []
deriving DecidableEq, Repr

/-- The events of the loop thread, of other threads, and of a signal handler on the loop thread. -/
inductive LoopEvent (φ : Type) where
  | loop
  | test
  | enter
  /-- `epoll_wait` returns, the wakeup channel among the active ones or not. -/
  | wait (wakeup : Bool)
  /-- `EPollPoller::handleRead`. -/
  | handleRead
  | handled
  | swap
  | call
  /-- A handler or a functor on the loop thread calls `queueInLoop`, or the thread does before
  `loop()`. -/
  | queueHere (functor : φ)
  | quitHere
  /-- Another thread is in `queueInLoop`, or in `quit`; the wakeup comes later. -/
  | queueInLoop (functor : φ)
  | quit
  | wakeup
  /-- A signal handler calls `quit` on the loop thread. -/
  | signal
deriving DecidableEq, Repr

namespace EventLoop

variable {φ : Type}

/-- A handler or a functor is running. -/
def inCallback (l : EventLoop φ) : Bool :=
  match l.phase with
  | .handling _ | .calling _ => true
  | _ => false

/-- The loop thread runs code of others: a handler, a functor, or what comes before `loop()`. -/
def onLoopThread (l : EventLoop φ) : Bool :=
  match l.phase with
  | .idle => true
  | _ => l.inCallback

/-- The loop thread in `queueInLoop`: it wakes itself up only from a functor. -/
def queueHere (l : EventLoop φ) (functor : φ) : EventLoop φ :=
  let wakeups :=
    match l.phase with
    | .calling _ => l.wakeups + 1
    | _ => l.wakeups
  { l with
    pendingFunctors := l.pendingFunctors ++ [functor], posted := l.posted ++ [functor]
    wakeups := wakeups }

/-- The next functor is called, or the loop goes back to its test. -/
def callNext (l : EventLoop φ) : List φ → EventLoop φ
  | [] => { l with phase := .testing }
  | functor :: rest => { l with phase := .calling rest, called := l.called ++ [functor] }

/-- A signal on the loop thread interrupts `epoll_wait`, and nothing else. -/
def signal (l : EventLoop φ) : EventLoop φ :=
  { l with
    quitFlag := true
    phase := match l.phase with
      | .waiting => .handling false
      | phase => phase }

/-- A step of `loop()`. -/
def loopStep (l : EventLoop φ) (event : LoopEvent φ) : Option (EventLoop φ) :=
  match l.phase, event with
  | .idle, .loop => some { l with quitFlag := false, phase := .testing }
  | .testing, .test => some { l with phase := if l.quitFlag then .exited else .entering }
  | .entering, .enter => some { l with phase := .waiting }
  | .waiting, .wait wakeup =>
    if wakeup ∧ l.wakeups = 0 then none else some { l with phase := .handling wakeup }
  | .handling true, .handleRead => some { l with wakeups := 0, phase := .handling false }
  | .handling false, .handled => some { l with phase := .swapping }
  | .swapping, .swap => some ({ l with pendingFunctors := [] }.callNext l.pendingFunctors)
  | .calling rest, .call => some (l.callNext rest)
  | _, _ => none

/-- One step; `none` when it cannot happen. -/
def next (l : EventLoop φ) : LoopEvent φ → Option (EventLoop φ)
  | .queueHere functor => if l.onLoopThread then some (l.queueHere functor) else none
  | .quitHere => if l.inCallback then some { l with quitFlag := true } else none
  | .queueInLoop functor =>
    some { l with
      pendingFunctors := l.pendingFunctors ++ [functor], posted := l.posted ++ [functor]
      waking := l.waking + 1 }
  | .quit => some { l with quitFlag := true, waking := l.waking + 1 }
  | .wakeup =>
    if l.waking = 0 then none else some { l with waking := l.waking - 1, wakeups := l.wakeups + 1 }
  | .signal => some l.signal
  | event => l.loopStep event

end EventLoop

end EtherAdapter
