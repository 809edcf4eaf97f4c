/-
**Keyed rows put into a store, one after the other.**

A store is a partial map from keys to rows. Rows arrive in a list, some of them refused; the first
refused one ends the run.

* `putAll`, `putNew` — put every row, overwriting what is there; or only where the key is new.
* **`putAll_apply`**, **`putNew_apply`** — what is under a key afterwards: the last row with it, or
  else what was there; what was there, or else the first row with it.
* `accepted` — the rows before the first refused one; **`run_eq`** — the run puts exactly these.
* **`putAll_eq_putNew_iff`** — when overwriting comes to the same as keeping.
-/

import Mathlib.Logic.Function.Basic
import Mathlib.Data.List.Induction
import Mathlib.Data.List.ReduceOption

namespace Upserts

variable {κ : Type*} {β : Type*} [DecidableEq κ]

/-! ### Puts -/

/-- A store. -/
abbrev Store (κ β : Type*) := κ → Option β

def put (store : Store κ β) (row : κ × β) : Store κ β :=
  Function.update store row.1 (some row.2)

def putAll (store : Store κ β) (rows : List (κ × β)) : Store κ β := rows.foldl put store

/-- A row whose key is there is skipped. -/
def putNew (store : Store κ β) (rows : List (κ × β)) : Store κ β :=
  rows.foldl (fun store row => if (store row.1).isSome then store else put store row) store

/-- The first row with a key. -/
def firstOf (rows : List (κ × β)) (key : κ) : Option β :=
  (rows.find? fun row => row.1 = key).map Prod.snd

/-- The last row with a key. -/
def lastOf (rows : List (κ × β)) (key : κ) : Option β := firstOf rows.reverse key

theorem firstOf_append (front back : List (κ × β)) (key : κ) :
    firstOf (front ++ back) key = (firstOf front key).or (firstOf back key) := by
  rw [firstOf, List.find?_append, Option.map_or]
  rfl

theorem firstOf_singleton (row : κ × β) (key : κ) :
    firstOf [row] key = if row.1 = key then some row.2 else none := by
  rw [firstOf, List.find?_singleton]
  by_cases same : row.1 = key
  · rw [if_pos same, if_pos (decide_eq_true same)]
    rfl
  · rw [if_neg same, if_neg (by rwa [decide_eq_true_iff])]
    rfl

/-- **The last row with a key stays.** -/
theorem putAll_apply (store : Store κ β) (rows : List (κ × β)) (key : κ) :
    putAll store rows key = (lastOf rows key).or (store key) := by
  induction rows using List.reverseRecOn with
  | nil => rfl
  | append_singleton rows row ih =>
    have last : putAll store (rows ++ [row]) = put (putAll store rows) row := List.foldl_append
    rw [last, lastOf, List.reverse_append, List.reverse_singleton, firstOf_append, firstOf_singleton,
      put]
    by_cases same : row.1 = key
    · rw [if_pos same, ← same, Function.update_self]
      rfl
    · rw [if_neg same, Function.update_of_ne (Ne.symm same), ih]
      rfl

/-- **What was there stays, or else the first row with the key.** -/
theorem putNew_apply (store : Store κ β) (rows : List (κ × β)) (key : κ) :
    putNew store rows key = (store key).or (firstOf rows key) := by
  induction rows using List.reverseRecOn with
  | nil => exact (Option.or_none).symm
  | append_singleton rows row ih =>
    have last : putNew store (rows ++ [row]) =
        if ((putNew store rows) row.1).isSome then putNew store rows
        else put (putNew store rows) row := List.foldl_append
    rw [last, firstOf_append, ← Option.or_assoc, ← ih, firstOf_singleton]
    by_cases same : row.1 = key
    · rw [if_pos same, ← same]
      cases held : putNew store rows row.1 with
      | none => rw [if_neg nofun, put, Function.update_self]; rfl
      | some found => rw [if_pos (by rfl), held]; rfl
    · rw [if_neg same, Option.or_none]
      split
      · rfl
      · exact Function.update_of_ne (Ne.symm same) _ _

/-! ### Runs that end at a refused row -/

/-- The rows before the first refused one. -/
def accepted {α : Type*} : List (Option α) → List α
  | [] => []
  | none :: _ => []
  | some row :: rows => row :: accepted rows

/-- Puts, until a row is refused; and whether none was. -/
def run (store : Store κ β) : List (Option (κ × β)) → Store κ β × Bool
  | [] => (store, true)
  | none :: _ => (store, false)
  | some row :: rows => run (put store row) rows

/-- **A run puts the accepted rows.** -/
theorem run_eq (store : Store κ β) (rows : List (Option (κ × β))) :
    run store rows = (putAll store (accepted rows), rows.all Option.isSome) := by
  induction rows generalizing store with
  | nil => rfl
  | cons row rows ih =>
    cases row with
    | none => rfl
    | some row => exact ih (put store row)

theorem run_append (store : Store κ β) (front back : List (Option (κ × β))) :
    run store (front ++ back) =
      if (run store front).2 then run (run store front).1 back else run store front := by
  induction front generalizing store with
  | nil => rfl
  | cons row front ih =>
    cases row with
    | none => rfl
    | some row => exact ih (put store row)

/-- The accepted rows come first among all rows that are not refused. -/
theorem accepted_front {α : Type*} (rows : List (Option α)) :
    accepted rows <+: rows.reduceOption := by
  induction rows with
  | nil => exact List.nil_prefix
  | cons row rows ih =>
    cases row with
    | none => exact List.nil_prefix
    | some row =>
      rw [accepted, List.reduceOption_cons_of_some]
      exact (List.prefix_cons_inj row).mpr ih

/-- With a row for each entry, these are the rows of the entries before the first refused one. -/
theorem accepted_map {α γ : Type*} (row : α → Option γ) (entries : List α) :
    accepted (entries.map row) =
      (entries.takeWhile fun entry => (row entry).isSome).filterMap row := by
  induction entries with
  | nil => rfl
  | cons entry entries ih =>
    rw [List.map_cons, List.takeWhile_cons]
    cases here : row entry with
    | none => rfl
    | some found =>
      rw [accepted, ih, Option.isSome_some, if_pos rfl, List.filterMap_cons_some here]

/-! ### Overwriting and keeping -/

theorem mem_of_lastOf {rows : List (κ × β)} {key : κ} {value : β} (last : lastOf rows key = some value) :
    (key, value) ∈ rows := by
  rw [lastOf, firstOf, Option.map_eq_some_iff] at last
  obtain ⟨row, found, rfl⟩ := last
  have test := List.find?_some found
  have same : row.1 = key := of_decide_eq_true test
  rw [← same]
  exact List.mem_reverse.mp (List.mem_of_find?_eq_some found)

theorem firstOf_eq_none_iff (rows : List (κ × β)) (key : κ) :
    firstOf rows key = none ↔ ∀ row ∈ rows, row.1 ≠ key := by
  rw [firstOf, Option.map_eq_none_iff, List.find?_eq_none]
  simp only [decide_eq_true_eq, ne_eq]

theorem lastOf_eq_none_iff (rows : List (κ × β)) (key : κ) :
    lastOf rows key = none ↔ firstOf rows key = none := by
  rw [lastOf, firstOf_eq_none_iff, firstOf_eq_none_iff]
  simp only [List.mem_reverse]

/-- At one key: `first` and `last` of the rows put, what is `held` before, and what is left out. -/
theorem or_eq_or_iff {first last held left : Option β} (both : last = none ↔ first = none) :
    last.or held = held.or (first.or left) ↔
      (∀ value, last = some value → held.or first = some value) ∧
        (left ≠ none → held.isSome ∨ first.isSome) := by
  cases last with
  | some value =>
    cases first with
    | none => exact absurd (both.mpr rfl) nofun
    | some other =>
      simp only [Option.some_or, Option.some.injEq, forall_eq', Option.isSome_some, or_true,
        implies_true, and_true]
      exact eq_comm
  | none =>
    rw [both.mp rfl]
    cases held with
    | some value => simp
    | none => cases left <;> simp

/-- **When overwriting with a part of the rows comes to keeping what is there and adding all new
rows**: the last row put under a key is the one to be kept, and no row left out has a new key. -/
theorem putAll_eq_putNew_iff (store : Store κ β) (front back : List (κ × β)) :
    (∀ key, putAll store front key = putNew store (front ++ back) key) ↔
      (∀ key value, lastOf front key = some value →
          (store key).or (firstOf front key) = some value) ∧
        ∀ row ∈ back, (store row.1).isSome ∨ (firstOf front row.1).isSome := by
  have atKey : ∀ key, putAll store front key = putNew store (front ++ back) key ↔
      (∀ value, lastOf front key = some value →
          (store key).or (firstOf front key) = some value) ∧
        (firstOf back key ≠ none → (store key).isSome ∨ (firstOf front key).isSome) := fun key => by
    rw [putAll_apply, putNew_apply, firstOf_append]
    exact or_eq_or_iff (lastOf_eq_none_iff front key)
  constructor
  · intro same
    refine ⟨fun key => ((atKey key).mp (same key)).1, fun row member => ?_⟩
    refine ((atKey row.1).mp (same row.1)).2 fun absent => ?_
    exact (firstOf_eq_none_iff back row.1).mp absent row member rfl
  · rintro ⟨kept, complete⟩ key
    refine (atKey key).mpr ⟨kept key, fun present => ?_⟩
    obtain ⟨row, member, rfl⟩ : ∃ row ∈ back, row.1 = key := by
      by_contra absent
      refine present ((firstOf_eq_none_iff back key).mpr fun row member same => ?_)
      exact absent ⟨row, member, same⟩
    exact complete row member

end Upserts
