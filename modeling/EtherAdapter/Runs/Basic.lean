/-
**Runs of a step function under a condition on the steps.**

A machine is a partial step function on events. `Reach allowed start` are the states that a run
reaches from `start` when every step meets `allowed`, a condition on the state before the step and
on the event.

* **`Reach.invariant`** — what holds at the start and is kept by every allowed step holds in every
  state reached.
* `Reach.trans`, `Reach.head` — a run put together of two, or of a step and a run.
* `play` — a run on given events, executable; `Reach.of_play` turns it into a run.
-/

import Mathlib.Logic.Basic

namespace Runs

variable {σ : Type*} {ε : Type*} {next : σ → ε → Option σ} {allowed : σ → ε → Prop}
  {start state : σ}

/-- The states reached from `start` by allowed steps. -/
inductive Reach (next : σ → ε → Option σ) (allowed : σ → ε → Prop) (start : σ) : σ → Prop where
  | start : Reach next allowed start start
  | step {state state' : σ} (event : ε) (before : Reach next allowed start state)
      (meets : allowed state event) (moved : next state event = some state') :
      Reach next allowed start state'

/-- Any step is allowed. -/
def anyStep (_ : σ) (_ : ε) : Prop := True

instance (state : σ) (event : ε) : Decidable (anyStep state event) := isTrue trivial

/-- **The invariant rule.** -/
theorem Reach.invariant {holds : σ → Prop} (reach : Reach next allowed start state)
    (initially : holds start)
    (kept : ∀ state event state', holds state → allowed state event →
      next state event = some state' → holds state') : holds state := by
  induction reach with
  | start => exact initially
  | step event before meets moved ih => exact kept _ event _ ih meets moved

/-- A weaker condition allows more runs. -/
theorem Reach.mono {weaker : σ → ε → Prop} (reach : Reach next allowed start state)
    (weakens : ∀ state event, allowed state event → weaker state event) :
    Reach next weaker start state := by
  induction reach with
  | start => exact .start
  | step event _ meets moved ih => exact ih.step event (weakens _ _ meets) moved

/-- A run goes on. -/
theorem Reach.trans {middle : σ} (first : Reach next allowed start middle)
    (later : Reach next allowed middle state) : Reach next allowed start state := by
  induction later with
  | start => exact first
  | step event _ meets moved ih => exact ih.step event meets moved

/-- A first step and a run after it. -/
theorem Reach.head {middle : σ} (event : ε) (meets : allowed start event)
    (moved : next start event = some middle) (later : Reach next allowed middle state) :
    Reach next allowed start state := (Reach.start.step event meets moved).trans later

/-- A run on given events; `none` if a step is not allowed or not possible. -/
def play (next : σ → ε → Option σ) (allowed : σ → ε → Prop)
    [∀ state event, Decidable (allowed state event)] : σ → List ε → Option σ
  | state, [] => some state
  | state, event :: events =>
    if allowed state event then
      (next state event).bind fun state' => play next allowed state' events
    else none

theorem Reach.of_play [∀ state event, Decidable (allowed state event)] {state' : σ}
    {events : List ε} (reach : Reach next allowed start state)
    (played : play next allowed state events = some state') : Reach next allowed start state' := by
  induction events generalizing state with
  | nil =>
    cases played
    exact reach
  | cons event events ih =>
    rw [play] at played
    obtain ⟨meets, played⟩ := Option.ite_none_right_eq_some.mp played
    obtain ⟨middle, moved, later⟩ := Option.bind_eq_some_iff.mp played
    exact ih (reach.step event meets moved) later

end Runs
