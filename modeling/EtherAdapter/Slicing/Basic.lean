/-
**Incremental slicers: cutting a stream that arrives in pieces.**

A slicer looks at the pending input and decides one cut at its front: a frame of some size, a
dropped element, or nothing yet (more input is needed). The one law that makes it incremental is
`stable`: a cut, once decided, is the same cut whatever arrives later.

* `Slicer.cuts`, `Slicer.rest` — cut until no cut is decided: the cuts made, and the input kept.
* **`Slicer.cuts_append`** — cutting `a ++ b` is cutting `a`, then cutting what `a` left followed
  by `b`; so the cuts never depend on how the input was split (`Slicer.rest_append` for the
  remainder).
* `Slicer.run` — a whole sequence of pieces, fed one by one; `Slicer.run_eq` is its closed form.
-/

import Mathlib.Algebra.Order.Ring.Nat
import Mathlib.Data.List.Basic

namespace Slicing

variable {α : Type*} {ε : Type*}

/-- One cut off the front of the pending input: its size, whether it is a frame or a dropped
element, and what the slicer reports about it. -/
structure Cut (ε : Type*) where
  size : ℕ
  isFrame : Bool
  note : ε
deriving DecidableEq, Repr

/-- The cut that drops one element. -/
def Cut.skip (note : ε) : Cut ε := ⟨1, false, note⟩

/-- **A slicer.** `step` decides the next cut; a decided cut is not empty, lies inside the pending
input, drops one element unless it is a frame, and is not revised when more input arrives. -/
structure Slicer (α : Type*) (ε : Type*) where
  step : List α → Option (Cut ε)
  size_pos : ∀ {pending cut}, step pending = some cut → 0 < cut.size
  size_le : ∀ {pending cut}, step pending = some cut → cut.size ≤ pending.length
  skip_one : ∀ {pending cut}, step pending = some cut → cut.isFrame = false → cut.size = 1
  stable : ∀ {pending cut} (more : List α), step pending = some cut →
    step (pending ++ more) = some cut

namespace Slicer

variable (S : Slicer α ε)

/-! ### Cutting until nothing is decided -/

/-- At most `fuel` cuts off the front, and the input they leave. -/
def drain : ℕ → List α → List (Cut ε) × List α
  | 0, pending => ([], pending)
  | fuel + 1, pending =>
    match S.step pending with
    | none => ([], pending)
    | some cut =>
      let later := drain fuel (pending.drop cut.size)
      (cut :: later.1, later.2)

/-- The cuts made on the pending input. -/
def cuts (pending : List α) : List (Cut ε) := (S.drain pending.length pending).1

/-- The input no cut was decided for. -/
def rest (pending : List α) : List α := (S.drain pending.length pending).2

theorem drop_length_lt {pending : List α} {cut : Cut ε} (decided : S.step pending = some cut) :
    (pending.drop cut.size).length < pending.length := by
  have positive := S.size_pos decided
  have inside := S.size_le decided
  rw [List.length_drop]
  omega

/-- More fuel than input changes nothing: every cut removes at least one element. -/
theorem drain_fuel (fuel : ℕ) (pending : List α) (enough : pending.length ≤ fuel) :
    S.drain fuel pending = S.drain pending.length pending := by
  induction fuel using Nat.strongRecOn generalizing pending with
  | _ fuel ih =>
    cases fuel with
    | zero => rw [Nat.le_zero.mp enough]
    | succ fuel =>
      cases decided : S.step pending with
      | none =>
        cases size : pending.length with
        | zero => simp only [drain, decided]
        | succ _ => simp only [drain, decided]
      | some cut =>
        have shorter := S.drop_length_lt decided
        obtain ⟨size, sizeEq⟩ : ∃ size, pending.length = size + 1 :=
          Nat.exists_eq_succ_of_ne_zero (by omega)
        rw [sizeEq]
        simp only [drain, decided]
        rw [ih fuel (by omega) _ (by omega), ih size (by omega) _ (by omega)]

theorem cuts_of_none {pending : List α} (undecided : S.step pending = none) :
    S.cuts pending = [] := by
  unfold cuts
  cases pending.length <;> simp only [drain, undecided]

theorem rest_of_none {pending : List α} (undecided : S.step pending = none) :
    S.rest pending = pending := by
  unfold rest
  cases pending.length <;> simp only [drain, undecided]

theorem drain_of_some {pending : List α} {cut : Cut ε} (decided : S.step pending = some cut) :
    S.drain pending.length pending =
      (cut :: S.cuts (pending.drop cut.size), S.rest (pending.drop cut.size)) := by
  have shorter := S.drop_length_lt decided
  obtain ⟨size, sizeEq⟩ : ∃ size, pending.length = size + 1 :=
    Nat.exists_eq_succ_of_ne_zero (by omega)
  rw [sizeEq]
  simp only [drain, decided, cuts, rest]
  rw [S.drain_fuel size _ (by omega)]

theorem cuts_of_some {pending : List α} {cut : Cut ε} (decided : S.step pending = some cut) :
    S.cuts pending = cut :: S.cuts (pending.drop cut.size) := by
  rw [cuts, S.drain_of_some decided]

theorem rest_of_some {pending : List α} {cut : Cut ε} (decided : S.step pending = some cut) :
    S.rest pending = S.rest (pending.drop cut.size) := by
  rw [rest, S.drain_of_some decided]

/-- **Induction along the cuts** of an input. -/
theorem cut_induction {P : List α → Prop} (undecided : ∀ pending, S.step pending = none → P pending)
    (decided : ∀ pending cut, S.step pending = some cut → P (pending.drop cut.size) → P pending)
    (pending : List α) : P pending := by
  induction size : pending.length using Nat.strongRecOn generalizing pending with
  | _ size ih =>
    cases decision : S.step pending with
    | none => exact undecided pending decision
    | some cut =>
      have shorter := S.drop_length_lt decision
      exact decided pending cut decision (ih _ (by omega) _ rfl)

/-- Cutting stops only where no cut is decided. -/
theorem step_rest (pending : List α) : S.step (S.rest pending) = none := by
  induction pending using S.cut_induction with
  | undecided pending undecided => rw [S.rest_of_none undecided, undecided]
  | decided pending cut decided ih => rw [S.rest_of_some decided, ih]

/-- Every element of the input is in exactly one cut or in the remainder. -/
theorem sum_size_add_rest (pending : List α) :
    ((S.cuts pending).map Cut.size).sum + (S.rest pending).length = pending.length := by
  induction pending using S.cut_induction with
  | undecided pending undecided => simp [S.cuts_of_none undecided, S.rest_of_none undecided]
  | decided pending cut decided ih =>
    have inside := S.size_le decided
    rw [S.cuts_of_some decided, S.rest_of_some decided, List.map_cons, List.sum_cons]
    rw [List.length_drop] at ih
    omega

theorem step_nil : S.step [] = none := by
  cases decision : S.step [] with
  | none => rfl
  | some cut =>
    have positive := S.size_pos decision
    have inside := S.size_le decision
    rw [List.length_nil] at inside
    omega

/-- Input made of whole frames is cut into them. -/
theorem cuts_flatMap {ι : Type*} (items : List ι) (content : ι → List α) (note : ι → ε)
    (whole : ∀ item ∈ items,
      S.step (content item) = some ⟨(content item).length, true, note item⟩) :
    S.cuts (items.flatMap content) =
        (items.map fun item => ⟨(content item).length, true, note item⟩) ∧
      S.rest (items.flatMap content) = [] := by
  induction items with
  | nil => exact ⟨S.cuts_of_none S.step_nil, S.rest_of_none S.step_nil⟩
  | cons item items ih =>
    obtain ⟨cuts, rest⟩ := ih fun other member => whole other (List.mem_cons_of_mem _ member)
    have first := S.stable (items.flatMap content) (whole item List.mem_cons_self)
    rw [List.flatMap_cons, S.cuts_of_some first, S.rest_of_some first, List.drop_left, cuts, rest]
    exact ⟨rfl, rfl⟩

/-! ### Input that arrives in pieces -/

/-- A decision on a part of the input is the decision. -/
theorem step_none_or_eq (pending more : List α) :
    S.step pending = none ∨ S.step pending = S.step (pending ++ more) := by
  cases decision : S.step pending with
  | none => exact Or.inl rfl
  | some cut => exact Or.inr (S.stable more decision).symm

/-- **Cutting does not depend on where the input is split.** -/
theorem cuts_append (a b : List α) : S.cuts (a ++ b) = S.cuts a ++ S.cuts (S.rest a ++ b) := by
  induction a using S.cut_induction with
  | undecided a undecided =>
    rw [S.cuts_of_none undecided, S.rest_of_none undecided, List.nil_append]
  | decided a cut decided ih =>
    rw [S.cuts_of_some decided, S.rest_of_some decided, S.cuts_of_some (S.stable b decided),
      List.drop_append_of_le_length (S.size_le decided), ih, List.cons_append]

theorem rest_append (a b : List α) : S.rest (a ++ b) = S.rest (S.rest a ++ b) := by
  induction a using S.cut_induction with
  | undecided a undecided => rw [S.rest_of_none undecided]
  | decided a cut decided ih =>
    rw [S.rest_of_some decided, S.rest_of_some (S.stable b decided),
      List.drop_append_of_le_length (S.size_le decided), ih]

/-- Feed pieces one by one to a slicer that keeps its remainder in between. -/
def run (pending : List α) : List (List α) → List (Cut ε) × List α
  | [] => ([], pending)
  | piece :: pieces =>
    let later := run (S.rest (pending ++ piece)) pieces
    (S.cuts (pending ++ piece) ++ later.1, later.2)

/-- **The closed form of a run**: the cuts of the concatenated input. -/
theorem run_eq (pieces : List (List α)) (pending : List α) (waiting : S.step pending = none) :
    S.run pending pieces =
      (S.cuts (pending ++ pieces.flatten), S.rest (pending ++ pieces.flatten)) := by
  induction pieces generalizing pending with
  | nil =>
    rw [run, List.flatten_nil, List.append_nil, S.cuts_of_none waiting, S.rest_of_none waiting]
  | cons piece pieces ih =>
    rw [run, ih _ (S.step_rest _), List.flatten_cons, ← List.append_assoc,
      S.cuts_append (pending ++ piece), S.rest_append (pending ++ piece)]

end Slicer

end Slicing
