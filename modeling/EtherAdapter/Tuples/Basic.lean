/-
**Tuples in text**: `(a,b,c),(d,e,f)`, over any alphabet with three marks.

* `intercalate_cons_flatMap` — a separated list, with its separators in front.
* `render`, `parse` — tuples of tokens as one text, and back.
* **`parse_render`** — what is printed is read back, whatever the tokens, as long as none is empty
  or holds a mark.
-/

import Mathlib.Data.List.Basic

namespace Tuples

/-- The marks: between tokens and between tuples, in front of a tuple and behind it. -/
structure Marks (α : Type*) where
  comma : α
  opening : α
  closing : α
  comma_ne_closing : comma ≠ closing

variable {α : Type*} [DecidableEq α] (m : Marks α)

/-- A token: not empty, and without marks. -/
def IsToken (token : List α) : Prop :=
  token ≠ [] ∧ m.comma ∉ token ∧ m.opening ∉ token ∧ m.closing ∉ token

instance (token : List α) : Decidable (IsToken m token) :=
  inferInstanceAs (Decidable (_ ∧ _ ∧ _ ∧ _))

/-! ### Printing and reading -/

def renderTuple (tokens : List (List α)) : List α :=
  m.opening :: [m.comma].intercalate tokens ++ [m.closing]

def render (tuples : List (List (List α))) : List α :=
  [m.comma].intercalate (tuples.map (renderTuple m))

/-- The tokens in front of the first closing mark, and what follows it. -/
def parseTuple : List α → Option (List (List α) × List α)
  | [] => none
  | first :: rest =>
    let inside := rest.takeWhile (· ≠ m.closing)
    let tokens := inside.splitOn m.comma
    if first = m.opening ∧ rest.drop inside.length ≠ [] ∧ ∀ token ∈ tokens, IsToken m token then
      some (tokens, (rest.drop inside.length).tail)
    else none

/-- At least one tuple, and nothing behind the last one. -/
def parseAll : ℕ → List α → Option (List (List (List α)))
  | 0, _ => none
  | fuel + 1, text =>
    match parseTuple m text with
    | none => none
    | some (tokens, []) => some [tokens]
    | some (tokens, mark :: rest) =>
      if mark = m.comma then (parseAll fuel rest).map (tokens :: ·) else none

/-- Every tuple takes at least one letter. -/
def parse (text : List α) : Option (List (List (List α))) := parseAll m text.length text

/-! ### Round trip -/

variable {m}

omit [DecidableEq α] in
/-- A separated list: the first part, and every other one behind a separator. -/
theorem intercalate_cons_flatMap (sep first : List α) (rest : List (List α)) :
    sep.intercalate (first :: rest) = first ++ rest.flatMap fun part => sep ++ part := by
  induction rest generalizing first with
  | nil => rw [List.intercalate_singleton, List.flatMap_nil, List.append_nil]
  | cons next rest ih =>
    rw [List.intercalate_cons_cons, ih, List.flatMap_cons, List.append_assoc, List.append_assoc]

omit [DecidableEq α] in
theorem mem_intercalate {sep : α} {tokens : List (List α)} {c : α}
    (member : c ∈ [sep].intercalate tokens) : c = sep ∨ ∃ token ∈ tokens, c ∈ token := by
  cases tokens with
  | nil => cases member
  | cons first rest =>
    rw [intercalate_cons_flatMap, List.mem_append, List.mem_flatMap] at member
    rcases member with here | ⟨token, there, inside⟩
    · exact Or.inr ⟨first, List.mem_cons_self, here⟩
    · rcases List.mem_cons.mp inside with mark | inside
      · exact Or.inl mark
      · exact Or.inr ⟨token, List.mem_cons_of_mem _ there, inside⟩

theorem parseTuple_render {tokens : List (List α)} (some_token : tokens ≠ [])
    (clean : ∀ token ∈ tokens, IsToken m token) (rest : List α) :
    parseTuple m (renderTuple m tokens ++ rest) = some (tokens, rest) := by
  have open_ : ∀ c ∈ [m.comma].intercalate tokens, decide (c ≠ m.closing) = true := by
    intro c member
    rw [decide_eq_true_eq]
    obtain rfl | ⟨token, there, inside⟩ := mem_intercalate member
    · exact m.comma_ne_closing
    · rintro rfl
      exact (clean token there).2.2.2 inside
  have inside : ([m.comma].intercalate tokens ++ m.closing :: rest).takeWhile
      (fun c => decide (c ≠ m.closing)) = [m.comma].intercalate tokens := by
    rw [List.takeWhile_append_of_pos open_, List.takeWhile_cons_of_neg, List.append_nil]
    rw [decide_eq_true_eq]
    exact not_not_intro rfl
  have split : ([m.comma].intercalate tokens).splitOn m.comma = tokens :=
    List.splitOn_intercalate m.comma (fun token member => (clean token member).2.1) some_token
  rw [renderTuple, List.cons_append, List.cons_append, List.append_assoc, List.singleton_append,
    parseTuple]
  simp only [inside, split, List.drop_left, List.tail_cons]
  rw [if_pos ⟨trivial, List.cons_ne_nil _ _, clean⟩]

theorem parseAll_render {tuples : List (List (List α))} (some_tuple : tuples ≠ [])
    (clean : ∀ tokens ∈ tuples, tokens ≠ [] ∧ ∀ token ∈ tokens, IsToken m token) {fuel : ℕ}
    (enough : tuples.length ≤ fuel) : parseAll m fuel (render m tuples) = some tuples := by
  induction tuples generalizing fuel with
  | nil => exact absurd rfl some_tuple
  | cons tokens tuples ih =>
    obtain ⟨fuel, rfl⟩ := Nat.exists_eq_succ_of_ne_zero (n := fuel)
      (by rw [List.length_cons] at enough; omega)
    have first := clean tokens List.mem_cons_self
    cases tuples with
    | nil =>
      have here := parseTuple_render first.1 first.2 []
      rw [List.append_nil] at here
      rw [render, List.map_singleton, List.intercalate_singleton, parseAll, here]
    | cons next tuples =>
      rw [render, List.map_cons, List.map_cons, List.intercalate_cons_cons, List.append_assoc,
        List.singleton_append, parseAll, parseTuple_render first.1 first.2]
      simp only [if_true]
      rw [← List.map_cons, ← render, ih (List.cons_ne_nil _ _)
        (fun other member => clean other (List.mem_cons_of_mem _ member))
        (Nat.le_of_succ_le_succ enough)]
      rfl

omit [DecidableEq α] in
theorem length_le_render (tuples : List (List (List α))) :
    tuples.length ≤ (render m tuples).length := by
  induction tuples with
  | nil => exact Nat.zero_le _
  | cons tokens tuples ih =>
    cases tuples with
    | nil =>
      rw [render, List.map_singleton, List.intercalate_singleton, renderTuple, List.length_append,
        List.length_singleton, List.length_singleton]
      omega
    | cons next tuples =>
      rw [render, List.map_cons, List.map_cons, List.intercalate_cons_cons, ← List.map_cons,
        ← render, List.length_append, List.length_append, List.length_cons, List.length_singleton]
      omega

/-- **What is printed is read back.** -/
theorem parse_render {tuples : List (List (List α))} (some_tuple : tuples ≠ [])
    (clean : ∀ tokens ∈ tuples, tokens ≠ [] ∧ ∀ token ∈ tokens, IsToken m token) :
    parse m (render m tuples) = some tuples :=
  parseAll_render some_tuple clean (length_le_render tuples)

end Tuples
