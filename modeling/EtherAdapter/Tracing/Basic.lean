/-
**Computations that note what they do.**

A traced computation is a value together with the events it noted on the way, in order: a writer
over lists of events.

* `value`, `trace` — the two halves, each with its equation for every way to build a computation.
* `Every` — every noted event meets a condition; **`every_bind`** carries it through sequences.
-/

import Mathlib.Control.Monad.Writer

namespace Tracing

variable {ε α β : Type}

/-- A computation that notes events. -/
abbrev Traced (ε α : Type) := Writer (List ε) α

/-- What the computation returns. -/
def value (x : Traced ε α) : α := (Id.run x.run).1

/-- What it noted. -/
def trace (x : Traced ε α) : List ε := (Id.run x.run).2

def note (event : ε) : Traced ε Unit := tell [event]

@[simp] theorem value_pure (a : α) : value (pure a : Traced ε α) = a := rfl

@[simp] theorem value_bind (x : Traced ε α) (f : α → Traced ε β) :
    value (x >>= f) = value (f (value x)) := rfl

theorem value_ite (c : Prop) [Decidable c] (x y : Traced ε α) :
    value (if c then x else y) = if c then value x else value y := apply_ite value c x y

/-- Every noted event meets the condition. -/
def Every (P : ε → Prop) (x : Traced ε α) : Prop := ∀ event ∈ trace x, P event

variable {P : ε → Prop}

theorem every_pure (a : α) : Every P (pure a : Traced ε α) :=
  fun _ member => absurd member List.not_mem_nil

theorem every_note {event : ε} (holds : P event) : Every P (note event) :=
  fun _ member => List.mem_singleton.mp member ▸ holds

/-- **Sequences.** -/
theorem every_bind {x : Traced ε α} {f : α → Traced ε β} (first : Every P x)
    (later : Every P (f (value x))) : Every P (x >>= f) := by
  intro event member
  rcases List.mem_append.mp (show event ∈ trace x ++ trace (f (value x)) from member) with
    before | after
  · exact first event before
  · exact later event after

theorem every_ite {c : Prop} [Decidable c] {x y : Traced ε α} (yes : c → Every P x)
    (no : ¬ c → Every P y) : Every P (if c then x else y) := by
  by_cases holds : c
  · rw [if_pos holds]
    exact yes holds
  · rw [if_neg holds]
    exact no holds

end Tracing
