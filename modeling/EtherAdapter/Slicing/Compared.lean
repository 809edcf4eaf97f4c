/-
**A stream with elements left out: when does a slicer cut the same frames?**

Some elements of a stream are kept and the others are left out. The slicer is undisturbed by the
elements that are left out when, however much of the stream has arrived, it has cut the frames that
it cuts from the elements kept, element by element.

* `Slicer.frameContents` — the frames cut, as their elements. For a slicer that goes by the head of
  its input it is a walk along the heads (`frameContents_frame`, `frameContents_skip`).
* `Unharmed` — walking along the heads, no frame starts at an element left out or has one in it, and
  where an element is kept the two streams announce the same frame; at the end of the stream
  a frame may be announced that does not end any more, if the other stream has no frame left.
* **`Slicer.Foretells.sameFrames_iff`** — the two are the same.
* `unharmed_iff_harmless` — where the elements kept are whole frames, it is enough that the others
  are `Harmless`.
-/

import EtherAdapter.Slicing.Planted

namespace Slicing

variable {α β : Type*} {ε : Type*}

/-- The frames in a sequence of cuts of an input, as their elements. -/
def Cut.contents : List α → List (Cut ε) → List (List α)
  | _, [] => []
  | input, cut :: cuts =>
    if cut.isFrame then input.take cut.size :: contents (input.drop cut.size) cuts
    else contents (input.drop cut.size) cuts

/-- No frame that is announced ends inside the input. -/
def Silent (head : List α → Option ℕ) : List α → Prop
  | [] => True
  | element :: later =>
    match head (element :: later) with
    | none => Silent head later
    | some size => (element :: later).length < size

/-- **The elements left out change no frame**; the number is how many elements of a frame are still
to come. -/
def Unharmed (head : List α → Option ℕ) (kept : α → Bool) : ℕ → List α → Prop
  | _, [] => True
  | inside + 1, element :: later => kept element = true ∧ Unharmed head kept inside later
  | 0, element :: later =>
    match head (element :: later) with
    | some size =>
      if size ≤ (element :: later).length then
        kept element = true ∧ Unharmed head kept (size - 1) later
      else Silent head ((element :: later).filter kept)
    | none =>
      if kept element = true then
        match head ((element :: later).filter kept) with
        | none => Unharmed head kept 0 later
        | some size => ((element :: later).filter kept).length < size ∧ Silent head later
      else Unharmed head kept 0 later

namespace Slicer

variable (S : Slicer α ε)

/-- The frames cut from an input, as their elements. -/
def frameContents (input : List α) : List (List α) := Cut.contents input (S.cuts input)

/-- However much of the stream has arrived, the elements left out have changed no frame. -/
def SameFrames (kept : α → Bool) (stream : List α) : Prop :=
  ∀ arrived, arrived <+: stream → S.frameContents arrived = S.frameContents (arrived.filter kept)

/-- A slicer on elements that carry something else. -/
def comap (f : β → α) : Slicer β ε where
  step pending := S.step (pending.map f)
  size_pos decided := S.size_pos decided
  size_le decided := by
    have bound := S.size_le decided
    rwa [List.length_map] at bound
  skip_one decided := S.skip_one decided
  stable more decided := by
    rw [List.map_append]
    exact S.stable _ decided

/-! ### Frames of an input -/

theorem frameContents_of_none {input : List α} (undecided : S.step input = none) :
    S.frameContents input = [] := by
  rw [frameContents, S.cuts_of_none undecided, Cut.contents]

theorem frameContents_of_some {input : List α} {cut : Cut ε} (decided : S.step input = some cut) :
    S.frameContents input =
      if cut.isFrame then input.take cut.size :: S.frameContents (input.drop cut.size)
      else S.frameContents (input.drop cut.size) := by
  rw [frameContents, S.cuts_of_some decided, Cut.contents, frameContents]

theorem frameContents_nil : S.frameContents [] = [] := S.frameContents_of_none S.step_nil

/-- What has been cut stays cut. -/
theorem frameContents_append (first later : List α) :
    S.frameContents (first ++ later) =
      S.frameContents first ++ S.frameContents (S.rest first ++ later) := by
  induction first using S.cut_induction with
  | undecided first undecided =>
    rw [S.frameContents_of_none undecided, S.rest_of_none undecided, List.nil_append]
  | decided first cut decided ih =>
    have inside := S.size_le decided
    rw [S.frameContents_of_some decided, S.frameContents_of_some (S.stable later decided),
      S.rest_of_some decided, List.take_append_of_le_length inside,
      List.drop_append_of_le_length inside, ih]
    split
    · rw [List.cons_append]
    · rfl

theorem frameContents_eq_nil {input arrived : List α} (none : S.frameContents input = [])
    (front : arrived <+: input) : S.frameContents arrived = [] := by
  obtain ⟨later, rfl⟩ := front
  rw [S.frameContents_append] at none
  exact (List.append_eq_nil_iff.mp none).1

/-- A frame is a stretch of the input. -/
theorem sublist_of_mem_frameContents {input content : List α}
    (member : content ∈ S.frameContents input) : content.Sublist input := by
  induction input using S.cut_induction with
  | undecided input undecided =>
    rw [S.frameContents_of_none undecided] at member
    cases member
  | decided input cut decided ih =>
    rw [S.frameContents_of_some decided] at member
    split at member
    · rcases List.mem_cons.mp member with rfl | later
      · exact List.take_sublist _ _
      · exact (ih later).trans (List.drop_sublist _ _)
    · exact (ih member).trans (List.drop_sublist _ _)

namespace Foretells

variable {S} {look : ℕ} {head : List α → Option ℕ}

theorem comap (foretells : S.Foretells look head) (f : β → α) :
    (S.comap f).Foretells look fun input => head (input.map f) where
  look_le announced := foretells.look_le announced
  stable more announced := by
    rw [List.map_append]
    exact foretells.stable _ announced
  wait announced incomplete := foretells.wait announced (by rwa [List.length_map])
  take announced whole := foretells.take announced (by rwa [List.length_map])
  drop silent long := foretells.drop silent (by rwa [List.length_map])
  short decided few := foretells.short decided (by rwa [List.length_map])

variable (foretells : S.Foretells look head)

include foretells

/-- A frame that is announced and has arrived is cut. -/
theorem frameContents_frame {input : List α} {size : ℕ} (announced : head input = some size)
    (whole : size ≤ input.length) :
    S.frameContents input = input.take size :: S.frameContents (input.drop size) := by
  obtain ⟨note, decided⟩ := foretells.take announced whole
  rw [S.frameContents_of_some decided, if_pos rfl]

theorem frameContents_wait {input : List α} {size : ℕ} (announced : head input = some size)
    (incomplete : input.length < size) : S.frameContents input = [] :=
  S.frameContents_of_none (foretells.wait announced incomplete)

/-- Less than the shortest frame holds none. -/
theorem frameContents_short {input : List α} (few : input.length < look) :
    S.frameContents input = [] := by
  induction input using S.cut_induction with
  | undecided input undecided => exact S.frameContents_of_none undecided
  | decided input cut decided ih =>
    rw [S.frameContents_of_some decided, foretells.short decided few, if_neg Bool.false_ne_true]
    refine ih ?_
    rw [List.length_drop]
    omega

/-- Where no frame is announced the walk goes on with the next element. -/
theorem frameContents_skip {element : α} {later : List α} (silent : head (element :: later) = none) :
    S.frameContents (element :: later) = S.frameContents later := by
  by_cases long : look ≤ (element :: later).length
  · obtain ⟨cut, decided, dropped⟩ := foretells.drop silent long
    rw [S.frameContents_of_some decided, dropped, if_neg Bool.false_ne_true,
      S.skip_one decided dropped, List.drop_one, List.tail_cons]
  · have few := Nat.lt_of_not_le long
    rw [foretells.frameContents_short few, foretells.frameContents_short]
    rw [List.length_cons] at few
    omega

/-- The front of an input announces nothing else. -/
theorem head_front {input arrived : List α} {size : ℕ} (front : arrived <+: input)
    (announced : head arrived = some size) : head input = some size := by
  obtain ⟨later, rfl⟩ := front
  exact foretells.stable later announced

theorem head_none {input arrived : List α} (front : arrived <+: input) (silent : head input = none) :
    head arrived = none := by
  cases announced : head arrived with
  | none => rfl
  | some size =>
    rw [foretells.head_front front announced] at silent
    exact absurd silent (Option.some_ne_none size)

/-- A frame is announced by its own elements. -/
theorem head_of_whole {input arrived : List α} {size : ℕ} (front : arrived <+: input)
    (announced : head input = some size) (whole : size ≤ arrived.length) :
    head arrived = some size := by
  cases early : head arrived with
  | some other => rw [← announced, foretells.head_front front early]
  | none =>
    -- it would have been dropped, and is not
    obtain ⟨cut, decided, dropped⟩ :=
      foretells.drop early ((foretells.look_le announced).trans whole)
    obtain ⟨later, rfl⟩ := front
    obtain ⟨note, frame⟩ := foretells.take announced (by rw [List.length_append]; omega)
    rw [S.stable later decided, Option.some.injEq] at frame
    rw [frame] at dropped
    exact Bool.noConfusion dropped

/-- The frame that is announced, and what is cut behind it. -/
theorem frameContents_behind {stream : List α} {size : ℕ} (announced : head stream = some size)
    (whole : size ≤ stream.length) (behind : List α) :
    S.frameContents (stream.take size ++ behind) = stream.take size :: S.frameContents behind := by
  have length : (stream.take size).length = size := List.length_take_of_le whole
  have own : head (stream.take size) = some size :=
    foretells.head_of_whole (List.take_prefix _ _) announced (by rw [length])
  rw [foretells.frameContents_frame (foretells.stable behind own)
    (by rw [List.length_append, length]; omega), List.take_left' length, List.drop_left' length]

theorem frameContents_eq_nil_iff (stream : List α) :
    S.frameContents stream = [] ↔ Silent head stream := by
  induction stream with
  | nil => exact iff_of_true S.frameContents_nil trivial
  | cons element later ih =>
    rw [Silent]
    cases announced : head (element :: later) with
    | none => rw [foretells.frameContents_skip announced, ih]
    | some size =>
      by_cases whole : size ≤ (element :: later).length
      · rw [foretells.frameContents_frame announced whole]
        exact iff_of_false (List.cons_ne_nil _ _) (Nat.not_lt.mpr whole)
      · have incomplete := Nat.lt_of_not_le whole
        exact iff_of_true (foretells.frameContents_wait announced incomplete) incomplete

end Foretells

end Slicer

/-! ### The comparison -/

variable {head : List α → Option ℕ} {kept : α → Bool}

theorem unharmed_inside (inside : ℕ) (stream : List α) :
    Unharmed head kept inside stream ↔
      (∀ element ∈ stream.take inside, kept element = true) ∧
        Unharmed head kept 0 (stream.drop inside) := by
  induction inside generalizing stream with
  | zero => simp only [List.take_zero, List.drop_zero, List.not_mem_nil, false_implies,
      implies_true, true_and]
  | succ inside ih =>
    cases stream with
    | nil => simp only [Unharmed, List.take_nil, List.drop_nil, List.not_mem_nil, false_implies,
        implies_true, and_self]
    | cons element later =>
      rw [Unharmed, ih, List.take_succ_cons, List.drop_succ_cons, List.forall_mem_cons, and_assoc]

/-- A front of the elements kept is what is kept of a front. -/
theorem exists_arrived (kept : α → Bool) (stream : List α) (size : ℕ) :
    ∃ arrived, arrived <+: stream ∧ arrived.filter kept = (stream.filter kept).take size := by
  induction stream generalizing size with
  | nil => exact ⟨[], List.prefix_refl _, by rw [List.filter_nil, List.take_nil]⟩
  | cons element later ih =>
    by_cases keep : kept element = true
    · cases size with
      | zero => exact ⟨[], List.nil_prefix, by rw [List.take_zero, List.filter_nil]⟩
      | succ size =>
        obtain ⟨arrived, front, same⟩ := ih size
        refine ⟨element :: arrived, List.cons_prefix_cons.mpr ⟨rfl, front⟩, ?_⟩
        rw [List.filter_cons_of_pos keep, List.filter_cons_of_pos keep, List.take_succ_cons, same]
    · obtain ⟨arrived, front, same⟩ := ih size
      refine ⟨element :: arrived, List.cons_prefix_cons.mpr ⟨rfl, front⟩, ?_⟩
      rw [List.filter_cons_of_neg keep, List.filter_cons_of_neg keep, same]

namespace Slicer

variable {S : Slicer α ε} {look : ℕ}

theorem SameFrames.whole {stream : List α} (same : S.SameFrames kept stream) :
    S.frameContents stream = S.frameContents (stream.filter kept) :=
  same stream (List.prefix_refl _)

/-- What is cut of the elements kept holds no other. -/
theorem kept_of_mem_frameContents {stream content : List α}
    (member : content ∈ S.frameContents (stream.filter kept)) :
    ∀ element ∈ content, kept element = true :=
  fun _ inside => (List.mem_filter.mp
    ((S.sublist_of_mem_frameContents member).subset inside)).2

namespace Foretells

variable (foretells : S.Foretells look head)

include foretells

/-- A frame that has arrived. -/
theorem sameFrames_frame {stream : List α} {size : ℕ} (announced : head stream = some size)
    (whole : size ≤ stream.length) :
    S.SameFrames kept stream ↔
      (∀ element ∈ stream.take size, kept element = true) ∧
        S.SameFrames kept (stream.drop size) := by
  have length : (stream.take size).length = size := List.length_take_of_le whole
  constructor
  · intro same
    have frame := same (stream.take size) (List.take_prefix _ _)
    have alone := foretells.frameContents_behind announced whole []
    rw [List.append_nil] at alone
    rw [alone] at frame
    have all := kept_of_mem_frameContents (frame ▸ List.mem_cons_self)
    refine ⟨all, fun arrived front => ?_⟩
    obtain ⟨unseen, rest⟩ := front
    have later := same (stream.take size ++ arrived)
      ⟨unseen, by rw [List.append_assoc, rest, List.take_append_drop]⟩
    rw [List.filter_append, List.filter_eq_self.mpr all,
      foretells.frameContents_behind announced whole,
      foretells.frameContents_behind announced whole, List.cons.injEq] at later
    exact later.2
  · rintro ⟨all, same⟩ arrived front
    by_cases short : arrived.length < size
    · have inside : arrived <+: stream.take size :=
        List.prefix_of_prefix_length_le front (List.take_prefix _ _) (by rw [length]; omega)
      rw [List.filter_eq_self.mpr fun element member => all element (inside.subset member)]
    · obtain ⟨behind, rfl⟩ : stream.take size <+: arrived :=
        List.prefix_of_prefix_length_le (List.take_prefix _ _) front (by rw [length]; omega)
      have rest : behind <+: stream.drop size := by
        have both := front
        rw [← List.take_append_drop size stream] at both
        rw [List.take_append_drop size stream] at both
        refine (List.prefix_append_right_inj (stream.take size)).mp ?_
        rw [List.take_append_drop]
        exact both
      rw [List.filter_append, List.filter_eq_self.mpr all,
        foretells.frameContents_behind announced whole,
        foretells.frameContents_behind announced whole, same behind rest]

/-- A frame that does not end any more. -/
theorem sameFrames_wait {stream : List α} {size : ℕ} (announced : head stream = some size)
    (incomplete : stream.length < size) :
    S.SameFrames kept stream ↔ Silent head (stream.filter kept) := by
  have none := foretells.frameContents_wait announced incomplete
  rw [← foretells.frameContents_eq_nil_iff]
  constructor
  · intro same
    rw [← same.whole, none]
  · intro silent arrived front
    rw [S.frameContents_eq_nil none front, S.frameContents_eq_nil silent (front.filter kept)]

/-- An element that starts no frame, in neither stream. -/
theorem sameFrames_skip {element : α} {later : List α} (silent : head (element :: later) = none)
    (also : kept element = true → head ((element :: later).filter kept) = none) :
    S.SameFrames kept (element :: later) ↔ S.SameFrames kept later := by
  have step : ∀ arrived, arrived <+: later →
      (S.frameContents (element :: arrived) = S.frameContents ((element :: arrived).filter kept) ↔
        S.frameContents arrived = S.frameContents (arrived.filter kept)) := by
    intro arrived front
    have longer : element :: arrived <+: element :: later := List.cons_prefix_cons.mpr ⟨rfl, front⟩
    rw [foretells.frameContents_skip (foretells.head_none longer silent)]
    by_cases keep : kept element = true
    · have bare := foretells.head_none (longer.filter kept) (also keep)
      rw [List.filter_cons_of_pos keep] at bare ⊢
      rw [foretells.frameContents_skip bare]
    · rw [List.filter_cons_of_neg keep]
  constructor
  · intro same arrived front
    exact (step arrived front).mp (same _ (List.cons_prefix_cons.mpr ⟨rfl, front⟩))
  · intro same arrived front
    rcases List.prefix_cons_iff.mp front with rfl | ⟨more, rfl, rest⟩
    · rw [List.filter_nil]
    · exact (step more rest).mpr (same more rest)

/-- An element that starts a frame in the stream of the elements kept only. -/
theorem sameFrames_bare {element : α} {later : List α} {size : ℕ}
    (silent : head (element :: later) = none) (keep : kept element = true)
    (announced : head ((element :: later).filter kept) = some size) :
    S.SameFrames kept (element :: later) ↔
      ((element :: later).filter kept).length < size ∧ Silent head later := by
  rw [← foretells.frameContents_eq_nil_iff]
  by_cases whole : size ≤ ((element :: later).filter kept).length
  · refine iff_of_false (fun same => ?_) fun both => absurd both.1 (Nat.not_lt.mpr whole)
    -- the frame has arrived, and its first element was passed by
    obtain ⟨arrived, front, frame⟩ := exists_arrived kept (element :: later) size
    have length : (arrived.filter kept).length = size := by
      rw [frame, List.length_take_of_le whole]
    have bare := foretells.frameContents_behind announced whole []
    rw [List.append_nil, ← frame, ← same arrived front] at bare
    rcases List.prefix_cons_iff.mp front with rfl | ⟨more, rfl, rest⟩
    · rw [S.frameContents_nil] at bare
      cases bare
    · rw [foretells.frameContents_skip (foretells.head_none front silent)] at bare
      have inside := S.sublist_of_mem_frameContents (bare ▸ List.mem_cons_self)
      have fewer := (inside.filter kept).length_le
      rw [List.filter_filter] at fewer
      simp only [Bool.and_self] at fewer
      rw [List.filter_cons_of_pos keep, List.length_cons] at fewer
      omega
  · have incomplete := Nat.lt_of_not_le whole
    have bare := foretells.frameContents_wait announced incomplete
    have none : S.SameFrames kept (element :: later) ↔ S.frameContents later = [] := by
      rw [← foretells.frameContents_skip silent]
      constructor
      · intro same
        rw [same.whole, bare]
      · intro nothing arrived front
        rw [S.frameContents_eq_nil nothing front, S.frameContents_eq_nil bare (front.filter kept)]
    rw [none]
    exact ⟨fun nothing => ⟨incomplete, nothing⟩, fun both => both.2⟩

/-- **The elements left out change no frame exactly when none of them is in one that is announced**,
and none hides one. -/
theorem sameFrames_iff (stream : List α) :
    S.SameFrames kept stream ↔ Unharmed head kept 0 stream := by
  induction total : stream.length using Nat.strongRecOn generalizing stream with
  | _ n ih =>
    cases stream with
    | nil =>
      refine iff_of_true (fun arrived front => ?_) trivial
      rw [List.prefix_nil.mp front, List.filter_nil]
    | cons element later =>
      have shorter : ∀ behind : List α, behind.length ≤ later.length →
          (S.SameFrames kept behind ↔ Unharmed head kept 0 behind) := by
        intro behind fewer
        refine ih behind.length ?_ behind rfl
        rw [← total, List.length_cons]
        exact Nat.lt_succ_of_le fewer
      have next := shorter later (Nat.le_refl _)
      rw [Unharmed]
      cases announced : head (element :: later) with
      | some frame =>
        by_cases whole : frame ≤ (element :: later).length
        · have positive : 0 < frame := by
            obtain ⟨note, decided⟩ := foretells.take announced whole
            exact S.size_pos decided
          obtain ⟨before, rfl⟩ := Nat.exists_eq_succ_of_ne_zero (Nat.ne_of_gt positive)
          have rest := shorter (later.drop before) (by rw [List.length_drop]; exact Nat.sub_le _ _)
          simp only [if_pos whole]
          rw [foretells.sameFrames_frame announced whole, List.take_succ_cons, List.drop_succ_cons,
            List.forall_mem_cons, Nat.succ_sub_one, unharmed_inside before, rest, and_assoc]
        · simp only [if_neg whole]
          exact foretells.sameFrames_wait announced (Nat.lt_of_not_le whole)
      | none =>
        by_cases keep : kept element = true
        · simp only [if_pos keep]
          cases bare : head ((element :: later).filter kept) with
          | none => rw [foretells.sameFrames_skip announced fun _ => bare, next]
          | some frame => exact foretells.sameFrames_bare announced keep bare
        · simp only [if_neg keep]
          rw [foretells.sameFrames_skip announced fun keeps => absurd keeps keep, next]

end Foretells

/-! ### What is reported -/

theorem Foretells.cutsWhole (foretells : S.Foretells look head) {input : List α} :
    ∀ content ∈ S.frameContents input, S.CutsWhole content := by
  induction input using S.cut_induction with
  | undecided input undecided =>
    rw [S.frameContents_of_none undecided]
    exact List.forall_mem_nil _
  | decided input cut decided ih =>
    rw [S.frameContents_of_some decided]
    cases kind : cut.isFrame with
    | false => exact ih
    | true =>
      refine List.forall_mem_cons.mpr ⟨?_, ih⟩
      have inside := S.size_le decided
      have length : (input.take cut.size).length = cut.size := List.length_take_of_le inside
      cases announced : head input with
      | none =>
        by_cases long : look ≤ input.length
        · obtain ⟨other, skip, dropped⟩ := foretells.drop announced long
          rw [decided, Option.some.injEq] at skip
          rw [skip, dropped] at kind
          cases kind
        · rw [foretells.short decided (Nat.lt_of_not_le long)] at kind
          cases kind
      | some size =>
        have whole : size ≤ input.length := by
          by_contra incomplete
          rw [foretells.wait announced (Nat.lt_of_not_le incomplete)] at decided
          exact Option.some_ne_none _ decided.symm
        obtain ⟨note, frame⟩ := foretells.take announced whole
        have same : cut.size = size := by
          rw [decided, Option.some.injEq] at frame
          rw [frame]
        have own : head (input.take cut.size) = some size :=
          foretells.head_of_whole (List.take_prefix _ _) announced (by rw [length, same])
        obtain ⟨other, taken⟩ := foretells.take own (by rw [length, same])
        exact ⟨other, by rw [taken, length, same]⟩

/-- What is reported of a frame is a matter of its own elements. -/
theorem Foretells.frameNotes_eq (foretells : S.Foretells look head) (input : List α) :
    Cut.frameNotes (S.cuts input) =
      (S.frameContents input).filterMap fun content => (S.step content).map Cut.note := by
  induction input using S.cut_induction with
  | undecided input undecided =>
    rw [S.cuts_of_none undecided, S.frameContents_of_none undecided]
    rfl
  | decided input cut decided ih =>
    have whole : ∀ content ∈ S.frameContents input, S.CutsWhole content := foretells.cutsWhole
    rw [S.frameContents_of_some decided] at whole ⊢
    rw [S.cuts_of_some decided]
    cases kind : cut.isFrame with
    | false =>
      rw [Cut.frameNotes_cons_of_drop kind, ih]
      rfl
    | true =>
      rw [kind] at whole
      obtain ⟨note, own⟩ := whole _ List.mem_cons_self
      have again := S.stable (input.drop cut.size) own
      rw [List.take_append_drop, decided, Option.some.injEq] at again
      rw [Cut.frameNotes_cons_of_frame kind, ih, if_pos rfl, List.filterMap_cons_some, again]
      rw [own]
      rfl

theorem cuts_comap (S : Slicer α ε) (f : β → α) (input : List β) :
    (S.comap f).cuts input = S.cuts (input.map f) := by
  induction input using (S.comap f).cut_induction with
  | undecided input undecided =>
    rw [(S.comap f).cuts_of_none undecided, S.cuts_of_none undecided]
  | decided input cut decided ih =>
    have own : S.step (input.map f) = some cut := decided
    rw [(S.comap f).cuts_of_some decided, S.cuts_of_some own, ih, List.map_drop]

/-- Where the same frames are cut, the same is reported. -/
theorem SameFrames.frameNotes {S : Slicer β ε} {f : α → β} {look : ℕ} {head : List α → Option ℕ}
    {kept : α → Bool} {stream : List α} (same : (S.comap f).SameFrames kept stream)
    (foretells : (S.comap f).Foretells look head) :
    Cut.frameNotes (S.cuts (stream.map f)) = Cut.frameNotes (S.cuts ((stream.filter kept).map f)) := by
  rw [← cuts_comap, ← cuts_comap, foretells.frameNotes_eq, foretells.frameNotes_eq, same.whole]

end Slicer

/-! ### Whole frames among the elements left out -/

namespace Token

/-- The elements of a stream, the frames marked as kept. -/
def marked : List (Token α) → List (α × Bool)
  | [] => []
  | .junk element :: tokens => (element, false) :: marked tokens
  | .frame content :: tokens => content.map (·, true) ++ marked tokens

theorem map_fst_marked (tokens : List (Token α)) : (marked tokens).map Prod.fst = wire tokens := by
  induction tokens with
  | nil => rfl
  | cons token tokens ih =>
    cases token with
    | junk element => rw [marked, wire, List.map_cons, ih]
    | frame content =>
      rw [marked, wire, List.map_append, ih, List.map_map]
      congr 1
      exact List.map_id content

theorem filter_marked (tokens : List (Token α)) :
    ((marked tokens).filter Prod.snd).map Prod.fst = (frames tokens).flatten := by
  induction tokens with
  | nil => rfl
  | cons token tokens ih =>
    cases token with
    | junk element =>
      rw [marked, frames, List.filter_cons_of_neg Bool.false_ne_true, ih]
    | frame content =>
      have all : (content.map (·, true)).filter Prod.snd = content.map (·, true) := by
        rw [List.filter_eq_self]
        intro entry member
        obtain ⟨element, -, rfl⟩ := List.mem_map.mp member
        rfl
      rw [marked, frames, List.filter_append, all, List.map_append, ih, List.flatten_cons,
        List.map_map]
      congr 1
      exact List.map_id content

end Token

open Token

theorem silent_comap (head : List α → Option ℕ) (f : β → α) (stream : List β) :
    Silent (fun input => head (input.map f)) stream ↔ Silent head (stream.map f) := by
  induction stream with
  | nil => exact Iff.rfl
  | cons element later ih =>
    rw [Silent, List.map_cons, Silent]
    cases head (f element :: later.map f) with
    | none => exact ih
    | some size => rw [List.length_cons, List.length_cons, List.length_map]

section

variable {S : Slicer α ε} {look : ℕ} {head : List α → Option ℕ} (foretells : S.Foretells look head)

include foretells

/-- A frame announces itself. -/
theorem head_of_cutsWhole {content : List α} (whole : S.CutsWhole content)
    (long : look ≤ content.length) : head content = some content.length := by
  obtain ⟨note, decided⟩ := whole
  cases announced : head content with
  | none =>
    obtain ⟨cut, skip, dropped⟩ := foretells.drop announced long
    rw [decided, Option.some.injEq] at skip
    rw [← skip] at dropped
    cases dropped
  | some size =>
    by_cases arrived : size ≤ content.length
    · obtain ⟨other, frame⟩ := foretells.take announced arrived
      rw [decided, Option.some.injEq, Cut.mk.injEq] at frame
      rw [frame.1]
    · rw [foretells.wait announced (Nat.lt_of_not_le arrived)] at decided
      cases decided

/-- **Among whole frames, the other elements have to be harmless only.** -/
theorem unharmed_iff_harmless (tokens : List (Token α))
    (planted : ∀ content ∈ frames tokens, S.CutsWhole content ∧ look ≤ content.length) :
    Unharmed (fun input => head (input.map Prod.fst)) Prod.snd 0 (marked tokens) ↔
      Harmless head tokens := by
  induction tokens with
  | nil => exact Iff.rfl
  | cons token tokens ih =>
    cases token with
    | frame content =>
      obtain ⟨whole, long⟩ := planted content List.mem_cons_self
      have others := ih fun other member => planted other (List.mem_cons_of_mem _ member)
      have announced := head_of_cutsWhole foretells whole long
      obtain ⟨note, decided⟩ := whole
      have positive : 0 < content.length := S.size_pos decided
      obtain ⟨first, rest, rfl⟩ := List.exists_cons_of_length_pos positive
      have front : head (((first, true) :: (rest.map (·, true) ++ marked tokens)).map Prod.fst) =
          some (first :: rest).length := by
        have again := foretells.stable ((marked tokens).map Prod.fst) announced
        rw [List.map_cons, List.map_append, List.map_map]
        rw [List.cons_append] at again
        convert again using 4
        exact List.map_id rest
      have enough : (first :: rest).length ≤
          ((first, true) :: (rest.map (·, true) ++ marked tokens)).length := by
        rw [List.length_cons, List.length_cons, List.length_append, List.length_map]
        omega
      have length : (rest.map (·, true)).length = (first :: rest).length - 1 := by
        rw [List.length_map, List.length_cons, Nat.add_sub_cancel]
      rw [marked, List.map_cons, List.cons_append, Unharmed, Harmless]
      simp only [front, if_pos enough, true_and]
      rw [unharmed_inside, List.take_left' length, List.drop_left' length, others]
      refine and_iff_right fun entry member => ?_
      obtain ⟨element, -, rfl⟩ := List.mem_map.mp member
      rfl
    | junk element =>
      have others := ih planted
      have wireEq : (((element, false) :: marked tokens).map Prod.fst) = element :: wire tokens := by
        rw [List.map_cons, map_fst_marked]
      have length : ((element, false) :: marked tokens).length = (element :: wire tokens).length := by
        rw [← wireEq, List.length_map]
      rw [marked, Unharmed, Harmless]
      simp only [wireEq, length]
      cases head (element :: wire tokens) with
      | none => exact others
      | some size =>
        simp only
        by_cases arrived : size ≤ (element :: wire tokens).length
        · rw [if_pos arrived]
          refine iff_of_false (fun both => Bool.noConfusion both.1) fun both => ?_
          exact absurd both.2 (Nat.not_lt.mpr arrived)
        · rw [if_neg arrived, silent_comap, List.filter_cons_of_neg Bool.false_ne_true,
            filter_marked]
          have longer := Nat.lt_of_not_le arrived
          constructor
          · intro silent
            refine ⟨?_, longer⟩
            cases first : frames tokens with
            | nil => rfl
            | cons content contents =>
              obtain ⟨whole, long⟩ := planted content (first ▸ List.mem_cons_self)
              have announced := head_of_cutsWhole foretells whole long
              rw [first, List.flatten_cons, ← foretells.frameContents_eq_nil_iff,
                foretells.frameContents_frame (foretells.stable _ announced)
                  (by rw [List.length_append]; omega)] at silent
              cases silent
          · rintro ⟨none, -⟩
            rw [none]
            trivial

end

end Slicing
