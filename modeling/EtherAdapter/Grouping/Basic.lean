/-
**Grouping items by key, with an index from keys to groups.**

Items arrive one by one. An item is placed by a key it shares (`Place.join`: it goes to the group of
that key, which is opened on first use and indexed), or alone under a label of its own
(`Place.alone`: a group nobody else joins, and that is not indexed).

* `arrange` — the groups and the index after all items.
* **`arrange_arranged`** — what holds then: every item is in a group, a group is either the items of
  one key or one lone item, and the index finds exactly the groups of the first kind.
* `Arranged.existsUnique`, **`Arranged.same_iff`** — every item is in exactly one group, and two
  items are in one group exactly when they share their key.
* `Arranged.permuted` — none of this depends on the order of the members.
* `Sorter` — sorting by a comparison, with the order of equivalent elements left open.
* `modifyEach` — updating a list at given positions, each with its rank.
* `countP_eq_one_iff` — what occurs once is at one position.
-/

import Mathlib.Data.List.AList
import Mathlib.Data.List.Induction
import Mathlib.Data.List.Nodup
import Mathlib.Data.List.Perm.Basic
import Mathlib.Data.List.Sort
import Mathlib.Order.Defs.Unbundled

namespace Grouping

variable {κ : Type*} {ι : Type*}

/-! ### Groups -/

structure Group (κ : Type*) (ι : Type*) where
  key : κ
  members : List ι
deriving DecidableEq, Repr

/-- Where an item goes. -/
inductive Place (κ : Type*) where
  | join (key : κ)
  | alone (label : κ)
deriving DecidableEq, Repr

/-- The groups so far, and the group of each shared key. -/
structure Groups (κ : Type*) (ι : Type*) where
  groups : List (Group κ ι)
  index : AList fun _ : κ => ℕ

def Group.push (group : Group κ ι) (item : ι) : Group κ ι :=
  { group with members := group.members ++ [item] }

namespace Groups

variable [DecidableEq κ]

def join (st : Groups κ ι) (key : κ) (item : ι) : Groups κ ι :=
  match st.index.lookup key with
  | some gi => { st with groups := st.groups.modify gi fun group => group.push item }
  | none => ⟨st.groups ++ [⟨key, [item]⟩], st.index.insert key st.groups.length⟩

def alone (st : Groups κ ι) (label : κ) (item : ι) : Groups κ ι :=
  { st with groups := st.groups ++ [⟨label, [item]⟩] }

def place (st : Groups κ ι) (item : ι) : Place κ → Groups κ ι
  | .join key => st.join key item
  | .alone label => st.alone label item

end Groups

/-- All items, in order. -/
def arrange [DecidableEq κ] (place : ι → Place κ) (items : List ι) : Groups κ ι :=
  items.foldl (fun st item => st.place item (place item)) ⟨[], ∅⟩

/-! ### What holds of the groups -/

section Arranged

variable {place : ι → Place κ}

/-- The group of a shared key. -/
def Group.Shared (place : ι → Place κ) (group : Group κ ι) : Prop :=
  group.members ≠ [] ∧ ∀ item ∈ group.members, place item = .join group.key

/-- The group of one item that joins nobody. -/
def Group.Alone (place : ι → Place κ) (group : Group κ ι) : Prop :=
  ∃ item, group.members = [item] ∧ place item = .alone group.key

theorem Group.Shared.not_alone {group : Group κ ι} (shared : group.Shared place) :
    ¬ group.Alone place := by
  rintro ⟨item, members, lone⟩
  have joined := shared.2 item (members ▸ List.mem_singleton_self item)
  rw [lone] at joined
  cases joined

theorem Group.Shared.push {group : Group κ ι} {item : ι} (shared : group.Shared place)
    (joins : place item = .join group.key) : (group.push item).Shared place := by
  refine ⟨List.append_ne_nil_of_right_ne_nil _ (List.cons_ne_nil _ _), fun other member => ?_⟩
  rcases List.mem_append.mp member with old | new
  · exact shared.2 other old
  · rw [List.mem_singleton.mp new]
    exact joins

/-- **The state of a grouping** after some items. -/
structure Arranged [DecidableEq κ] (place : ι → Place κ) (items : List ι) (st : Groups κ ι) :
    Prop where
  perm : (st.groups.flatMap Group.members).Perm items
  labelled : ∀ group ∈ st.groups, group.Shared place ∨ group.Alone place
  index_iff : ∀ key gi, st.index.lookup key = some gi ↔
    ∃ group, st.groups[gi]? = some group ∧ group.key = key ∧ group.Shared place

theorem flatMap_modify_push (groups : List (Group κ ι)) (item : ι) {gi : ℕ} {group : Group κ ι}
    (found : groups[gi]? = some group) :
    ((groups.modify gi fun group => group.push item).flatMap Group.members).Perm
      (groups.flatMap Group.members ++ [item]) := by
  induction groups generalizing gi with
  | nil => cases found
  | cons first groups ih =>
    cases gi with
    | zero =>
      rw [List.modify_zero_cons, List.flatMap_cons, List.flatMap_cons, Group.push, List.append_assoc,
        List.append_assoc]
      exact List.perm_append_comm.append_left _
    | succ gi =>
      rw [List.modify_succ_cons, List.flatMap_cons, List.flatMap_cons, List.append_assoc]
      exact (ih found).append_left _

/-- A group opened at the end. -/
theorem getElem?_concat_iff {groups : List (Group κ ι)} {last group : Group κ ι} {gi : ℕ} :
    (groups ++ [last])[gi]? = some group ↔
      groups[gi]? = some group ∨ gi = groups.length ∧ group = last := by
  rcases Nat.lt_trichotomy gi groups.length with inside | rfl | outside
  · rw [List.getElem?_append_left inside]
    have other : gi ≠ groups.length := Nat.ne_of_lt inside
    simp only [other, false_and, or_false]
  · rw [List.getElem?_concat_length, List.getElem?_eq_none (Nat.le_refl _), Option.some.injEq]
    simp only [reduceCtorEq, true_and, false_or, eq_comm]
  · have beyond : (groups ++ [last]).length ≤ gi := by
      rw [List.length_append, List.length_singleton]
      omega
    have other : gi ≠ groups.length := Nat.ne_of_gt outside
    rw [List.getElem?_eq_none beyond, List.getElem?_eq_none (Nat.le_of_lt outside)]
    simp only [other, false_and, or_false]

/-- A new element that is out of the question adds no candidate. -/
theorem exists_concat_iff {α : Type*} {l : List α} {new : α} {i : ℕ} {p : α → Prop}
    (other : ¬ p new) :
    (∃ x, l[i]? = some x ∧ p x) ↔ ∃ x, (l[i]? = some x ∨ i = l.length ∧ x = new) ∧ p x := by
  constructor
  · rintro ⟨x, old, holds⟩
    exact ⟨x, Or.inl old, holds⟩
  · rintro ⟨x, old | ⟨_, rfl⟩, holds⟩
    · exact ⟨x, old, holds⟩
    · exact absurd holds other

/-- Pushing an item changes one group only. -/
theorem getElem?_modify_push {groups : List (Group κ ι)} {group : Group κ ι} {gi : ℕ}
    (here : groups[gi]? = some group) (item : ι) (gj : ℕ) (other : Group κ ι) :
    (groups.modify gi fun group => group.push item)[gj]? = some other ↔
      if gi = gj then other = group.push item else groups[gj]? = some other := by
  rw [List.getElem?_modify]
  by_cases same : gi = gj
  · subst same
    simp only [here, if_true, Option.map_eq_map, Option.map_some, Option.some.injEq, eq_comm]
  · simp only [same, if_false, Option.map_eq_map, Option.map_id']

variable [DecidableEq κ]

section Steps

variable {items : List ι} {st : Groups κ ι} {item : ι} {key label : κ}

/-- An item joins the group of its key. -/
theorem Arranged.push (arranged : Arranged place items st) (joins : place item = .join key)
    {gi : ℕ} (found : st.index.lookup key = some gi) :
    Arranged place (items ++ [item])
      { st with groups := st.groups.modify gi fun group => group.push item } := by
  obtain ⟨group, here, rfl, shared⟩ := (arranged.index_iff key gi).mp found
  refine ⟨(flatMap_modify_push st.groups item here).trans (arranged.perm.append_right _), ?_, ?_⟩
  · intro other member
    obtain ⟨gj, at_gj⟩ := List.mem_iff_getElem?.mp member
    have cases := (getElem?_modify_push here item gj other).mp at_gj
    by_cases same : gi = gj
    · rw [if_pos same] at cases
      exact Or.inl (cases ▸ shared.push joins)
    · rw [if_neg same] at cases
      exact arranged.labelled other (List.mem_of_getElem? cases)
  · intro other gj
    rw [arranged.index_iff]
    by_cases same : gi = gj
    · subst same
      constructor
      · rintro ⟨old, at_gi, keyed, _⟩
        cases here.symm.trans at_gi
        exact ⟨group.push item, (getElem?_modify_push here item gi _).mpr (by rw [if_pos rfl]),
          keyed, shared.push joins⟩
      · rintro ⟨new, at_gi, keyed, _⟩
        have pushed := (getElem?_modify_push here item gi new).mp at_gi
        rw [if_pos rfl] at pushed
        rw [pushed] at keyed
        exact ⟨group, here, keyed, shared⟩
    · simp only [getElem?_modify_push here, if_neg same]

/-- The members and the labels once a group is opened. -/
theorem Arranged.opened (arranged : Arranged place items st)
    (labelled : (⟨label, [item]⟩ : Group κ ι).Shared place ∨
      (⟨label, [item]⟩ : Group κ ι).Alone place) :
    ((st.groups ++ [(⟨label, [item]⟩ : Group κ ι)]).flatMap Group.members).Perm (items ++ [item]) ∧
      ∀ group ∈ st.groups ++ [(⟨label, [item]⟩ : Group κ ι)],
        group.Shared place ∨ group.Alone place := by
  constructor
  · rw [List.flatMap_append, List.flatMap_singleton]
    exact arranged.perm.append_right _
  · intro other member
    rcases List.mem_append.mp member with old | new
    · exact arranged.labelled other old
    · rw [List.mem_singleton.mp new]
      exact labelled

theorem Arranged.join (arranged : Arranged place items st) (joins : place item = .join key) :
    Arranged place (items ++ [item]) (st.join key item) := by
  cases found : st.index.lookup key with
  | some gi =>
    simp only [Groups.join, found]
    exact arranged.push joins found
  | none =>
    simp only [Groups.join, found]
    have first : (⟨key, [item]⟩ : Group κ ι).Shared place :=
      ⟨List.cons_ne_nil _ _, fun other member => by rw [List.mem_singleton.mp member]; exact joins⟩
    obtain ⟨perm, labelled⟩ := arranged.opened (Or.inl first)
    refine ⟨perm, labelled, fun other gj => ?_⟩
    simp only [getElem?_concat_iff]
    by_cases same : other = key
    · subst same
      rw [AList.lookup_insert, Option.some.injEq]
      constructor
      · rintro rfl
        exact ⟨_, Or.inr ⟨rfl, rfl⟩, rfl, first⟩
      · rintro ⟨group, old | ⟨rfl, _⟩, keyed, shared⟩
        · have indexed := (arranged.index_iff other gj).mpr ⟨group, old, keyed, shared⟩
          rw [found] at indexed
          cases indexed
        · rfl
    · rw [AList.lookup_insert_ne same, arranged.index_iff]
      exact exists_concat_iff fun ⟨keyed, _⟩ => same keyed.symm

theorem Arranged.alone (arranged : Arranged place items st) (lone : place item = .alone label) :
    Arranged place (items ++ [item]) (st.alone label item) := by
  have single : (⟨label, [item]⟩ : Group κ ι).Alone place := ⟨item, rfl, lone⟩
  obtain ⟨perm, labelled⟩ := arranged.opened (Or.inr single)
  refine ⟨perm, labelled, fun key gi => ?_⟩
  simp only [Groups.alone, getElem?_concat_iff, arranged.index_iff]
  exact exists_concat_iff fun ⟨_, shared⟩ => shared.not_alone single

end Steps

/-- **The grouping is arranged**, whatever the items. -/
theorem arrange_arranged (place : ι → Place κ) (items : List ι) :
    Arranged place items (arrange place items) := by
  induction items using List.reverseRecOn with
  | nil =>
    refine ⟨List.Perm.refl _, fun group member => absurd member List.not_mem_nil, fun key gi => ?_⟩
    constructor
    · intro found
      cases found
    · rintro ⟨group, found, _⟩
      cases found
  | append_singleton items item ih =>
    have last : arrange place (items ++ [item]) = (arrange place items).place item (place item) := by
      rw [arrange, List.foldl_append]
      rfl
    rw [last]
    cases placed : place item with
    | join key => exact ih.join placed
    | alone label => exact ih.alone placed

end Arranged

/-! ### Exactly one group, and which -/

section Partition

variable {place : ι → Place κ}

theorem disjoint_of_getElem? {groups : List (Group κ ι)}
    (disjoint : groups.Pairwise (Function.onFun List.Disjoint Group.members)) {gi gj : ℕ}
    (different : gi ≠ gj) {first second : Group κ ι} (one : groups[gi]? = some first)
    (two : groups[gj]? = some second) : first.members.Disjoint second.members := by
  obtain ⟨lt, rfl⟩ := List.getElem?_eq_some_iff.mp one
  obtain ⟨lt', rfl⟩ := List.getElem?_eq_some_iff.mp two
  rcases Nat.lt_or_gt_of_ne different with before | after
  · exact List.pairwise_iff_getElem.mp disjoint gi gj lt lt' before
  · exact fun item here there =>
      List.pairwise_iff_getElem.mp disjoint gj gi lt' lt after there here

/-- An item that joins a key is in the group of that key. -/
theorem Group.shared_of_join {group : Group κ ι}
    (labelled : group.Shared place ∨ group.Alone place) {item : ι} (here : item ∈ group.members)
    {key : κ} (joins : place item = .join key) : group.key = key ∧ group.Shared place := by
  rcases labelled with shared | ⟨lone, members, alone⟩
  · have own := shared.2 item here
    rw [joins, Place.join.injEq] at own
    exact ⟨own.symm, shared⟩
  · rw [members, List.mem_singleton] at here
    rw [← here, joins] at alone
    cases alone

variable [DecidableEq κ] {items : List ι} {st : Groups κ ι}

/-- **Every item is in exactly one group.** -/
theorem Arranged.existsUnique (arranged : Arranged place items st) (nodup : items.Nodup) {item : ι}
    (member : item ∈ items) :
    ∃! gi : ℕ, ∃ group : Group κ ι, st.groups[gi]? = some group ∧ item ∈ group.members := by
  obtain ⟨group, inside, here⟩ := List.mem_flatMap.mp (arranged.perm.mem_iff.mpr member)
  obtain ⟨gi, found⟩ := List.mem_iff_getElem?.mp inside
  refine ⟨gi, ⟨group, found, here⟩, fun gj ⟨other, elsewhere, there⟩ => ?_⟩
  by_contra different
  have disjoint := (List.nodup_flatMap.mp (arranged.perm.nodup_iff.mpr nodup)).2
  exact disjoint_of_getElem? disjoint different elsewhere found there here

/-- **Two items are in one group exactly when they share their key.** -/
theorem Arranged.same_iff (arranged : Arranged place items st) {gi gj : ℕ}
    {group other : Group κ ι} (found : st.groups[gi]? = some group)
    (elsewhere : st.groups[gj]? = some other) {item second : ι} (here : item ∈ group.members)
    (there : second ∈ other.members) (different : item ≠ second) :
    gi = gj ↔ ∃ key, place item = .join key ∧ place second = .join key := by
  have labelled := arranged.labelled group (List.mem_of_getElem? found)
  have labelled' := arranged.labelled other (List.mem_of_getElem? elsewhere)
  constructor
  · rintro rfl
    cases found.symm.trans elsewhere
    rcases labelled with shared | ⟨lone, members, _⟩
    · exact ⟨group.key, shared.2 item here, shared.2 second there⟩
    · rw [members, List.mem_singleton] at here there
      exact absurd (here.trans there.symm) different
  · rintro ⟨key, joins, joins'⟩
    have shared := Group.shared_of_join labelled here joins
    have shared' := Group.shared_of_join labelled' there joins'
    have one := (arranged.index_iff key gi).mpr ⟨group, found, shared⟩
    have two := (arranged.index_iff key gj).mpr ⟨other, elsewhere, shared'⟩
    exact Option.some.inj (one.symm.trans two)

/-- Reordering the members changes nothing of this. -/
theorem Arranged.permuted (arranged : Arranged place items st) (reorder : List ι → List ι)
    (perm : ∀ members, (reorder members).Perm members) :
    Arranged place items
      { st with groups := st.groups.map fun group =>
          { group with members := reorder group.members } } := by
  have shared : ∀ group : Group κ ι,
      Group.Shared place { group with members := reorder group.members } ↔ group.Shared place := by
    intro group
    have empty : reorder group.members = [] ↔ group.members = [] := by
      rw [← List.length_eq_zero_iff, ← List.length_eq_zero_iff, (perm _).length_eq]
    simp only [Group.Shared, ne_eq, empty, (perm group.members).mem_iff]
  refine ⟨?_, ?_, fun key gi => ?_⟩
  · rw [List.flatMap_map]
    exact (List.Perm.flatMap_left _ fun group _ => perm group.members).trans arranged.perm
  · intro group member
    obtain ⟨old, inside, rfl⟩ := List.mem_map.mp member
    rcases arranged.labelled old inside with joint | ⟨item, members, alone⟩
    · exact Or.inl ((shared old).mpr joint)
    · refine Or.inr ⟨item, ?_, alone⟩
      rw [members]
      exact List.perm_singleton.mp (perm [item])
  · simp only [arranged.index_iff, List.getElem?_map, Option.map_eq_some_iff]
    constructor
    · rintro ⟨group, found, keyed, joint⟩
      exact ⟨_, ⟨group, found, rfl⟩, keyed, (shared group).mpr joint⟩
    · rintro ⟨_, ⟨group, found, rfl⟩, keyed, joint⟩
      exact ⟨group, found, keyed, (shared group).mp joint⟩

end Partition

/-! ### Sorting and ranking -/

/-- **Sorting by a comparison.** The result is a permutation in which nothing stands after a greater
element; how equivalent elements are ordered is left open. -/
structure Sorter (ι : Type*) where
  sort : (ι → ι → Bool) → List ι → List ι
  perm : ∀ less items, (sort less items).Perm items
  sorted : ∀ less items, IsStrictWeakOrder ι (fun a b => less a b = true) →
    (sort less items).Pairwise fun a b => less b a = false

/-- Where nothing is less, the order is the other way round or equal: a total preorder. -/
theorem not_less_trans {less : ι → ι → Bool} (order : IsStrictWeakOrder ι fun a b => less a b = true)
    {a b c : ι} (ab : less b a = false) (bc : less c b = false) : less c a = false := by
  rw [← Bool.not_eq_true] at ab bc ⊢
  intro ca
  -- `c < a` with neither `b < a` nor `c < b`: then `b` is equivalent to both
  have notAb : ¬ less a b = true := fun lt => bc (order.trans c a b ca lt)
  have notBc : ¬ less b c = true := fun lt => ab (order.trans b c a lt ca)
  exact (order.incomp_trans a b c ⟨notAb, ab⟩ ⟨notBc, bc⟩).2 ca

/-- A sorter that keeps equivalent elements in their order. -/
def Sorter.insertion (ι : Type*) : Sorter ι where
  sort less items := items.insertionSort fun a b => less b a = false
  perm less items := List.perm_insertionSort _ items
  sorted less items order := by
    have total : Std.Total fun a b : ι => less b a = false := by
      refine ⟨fun a b => ?_⟩
      by_contra both
      rw [not_or, Bool.not_eq_false, Bool.not_eq_false] at both
      exact order.irrefl a (order.trans a b a both.2 both.1)
    have trans : IsTrans ι fun a b => less b a = false := ⟨fun _ _ _ => not_less_trans order⟩
    exact List.pairwise_insertionSort _ items

/-- Update a list at each of the given positions, with the rank of the position among them. -/
def modifyEach {α : Type*} (update : ℕ → α → α) (positions : List ℕ) (xs : List α) : List α :=
  positions.zipIdx.foldl (fun xs entry => xs.modify entry.1 (update entry.2)) xs

section ModifyEach

variable {α : Type*} {update : ℕ → α → α}

theorem modifyEach_concat (positions : List ℕ) (last : ℕ) (xs : List α) :
    modifyEach update (positions ++ [last]) xs =
      (modifyEach update positions xs).modify last (update positions.length) := by
  rw [modifyEach, List.zipIdx_append, List.foldl_append]
  simp only [List.zipIdx_singleton, Nat.zero_add, List.foldl_cons, List.foldl_nil, modifyEach]

/-- Other positions keep their element. -/
theorem getElem?_modifyEach_of_not_mem {positions : List ℕ} {i : ℕ} (other : i ∉ positions)
    (xs : List α) : (modifyEach update positions xs)[i]? = xs[i]? := by
  induction positions using List.reverseRecOn with
  | nil => rfl
  | append_singleton positions last ih =>
    rw [List.mem_append, not_or, List.mem_singleton] at other
    rw [modifyEach_concat, List.getElem?_modify, ih other.1]
    simp only [Ne.symm other.2, if_false, Option.map_eq_map, Option.map_id']

/-- A position is updated once, with its rank. -/
theorem getElem?_modifyEach {positions : List ℕ} (nodup : positions.Nodup) {k i : ℕ}
    (found : positions[k]? = some i) (xs : List α) :
    (modifyEach update positions xs)[i]? = xs[i]?.map (update k) := by
  induction positions using List.reverseRecOn generalizing k with
  | nil => cases found
  | append_singleton positions last ih =>
    have parts := List.nodup_append.mp nodup
    rw [modifyEach_concat, List.getElem?_modify]
    by_cases inside : k < positions.length
    · rw [List.getElem?_append_left inside] at found
      have other : last ≠ i := fun same =>
        parts.2.2 i (List.mem_of_getElem? found) last (List.mem_singleton_self last) same.symm
      rw [ih parts.1 found]
      simp only [other, if_false, Option.map_eq_map, Option.map_id']
    · have here : k = positions.length ∧ last = i := by
        rw [List.getElem?_append_right (Nat.le_of_not_lt inside)] at found
        obtain ⟨lt, same⟩ := List.getElem?_eq_some_iff.mp found
        rw [List.length_singleton] at lt
        have rank : k - positions.length = 0 := by omega
        simp only [rank, List.getElem_cons_zero] at same
        exact ⟨by omega, same⟩
      obtain ⟨rfl, rfl⟩ := here
      have fresh : last ∉ positions := fun member =>
        parts.2.2 last member last (List.mem_singleton_self last) rfl
      rw [getElem?_modifyEach_of_not_mem fresh]
      simp only [if_true, Option.map_eq_map]

end ModifyEach

/-! ### Positions -/

/-- One occurrence is one position. -/
theorem countP_eq_one_iff {α : Type*} (p : α → Bool) (l : List α) :
    l.countP p = 1 ↔ ∃! i : ℕ, ∃ a, l[i]? = some a ∧ p a = true := by
  induction l with
  | nil =>
    constructor
    · intro one
      cases one
    · rintro ⟨i, ⟨a, found, _⟩, _⟩
      cases found
  | cons first l ih =>
    rw [List.countP_cons]
    cases here : p first with
    | true =>
      rw [if_pos rfl]
      constructor
      · intro one
        have others : ∀ a ∈ l, ¬ p a = true := List.countP_eq_zero.mp (Nat.succ.inj one)
        refine ⟨0, ⟨first, rfl, here⟩, ?_⟩
        rintro (_ | i) ⟨a, found, holds⟩
        · rfl
        · exact absurd holds (others a (List.mem_of_getElem? found))
      · rintro ⟨i, _, unique⟩
        have zero := unique 0 ⟨first, rfl, here⟩
        rw [List.countP_eq_zero.mpr fun a member holds => ?_]
        obtain ⟨j, found⟩ := List.mem_iff_getElem?.mp member
        have later := unique (j + 1) ⟨a, found, holds⟩
        omega
    | false =>
      rw [if_neg Bool.false_ne_true, Nat.add_zero, ih]
      constructor
      · rintro ⟨i, ⟨a, found, holds⟩, unique⟩
        refine ⟨i + 1, ⟨a, found, holds⟩, ?_⟩
        rintro (_ | j) ⟨b, other, also⟩
        · cases other
          rw [here] at also
          cases also
        · rw [unique j ⟨b, other, also⟩]
      · rintro ⟨i, ⟨a, found, holds⟩, unique⟩
        cases i with
        | zero =>
          cases found
          rw [here] at holds
          cases holds
        | succ i =>
          refine ⟨i, ⟨a, found, holds⟩, fun j ⟨b, other, also⟩ => ?_⟩
          exact Nat.succ.inj (unique (j + 1) ⟨b, other, also⟩)

end Grouping
