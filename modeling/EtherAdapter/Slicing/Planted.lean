/-
**Planted streams: frames among elements that should be dropped.**

A stream is described by its tokens: whole frames, and junk elements in between. The slicer is
right about such a stream when the frames it cuts are exactly the planted ones, each at its own
place, and each as soon as its last element has arrived. A junk element can spoil that in two
ways: the slicer may cut a frame that starts at it, or it may wait there for input while planted
frames pass by.

* `Slicer.NoFalseStart` — the condition on the stream: every junk element is dropped, except that
  the slicer may wait at one once no planted frame is left.
* **`Slicer.frameSpans_of_noFalseStart`** — under it, on every prefix of the stream the slicer has
  cut exactly the planted frames that end inside the prefix.
* **`Slicer.noFalseStart_of_frameSpans`** — the converse, from the whole stream alone.
* **`Slicer.rightOn_iff`** — the two together, for a stream that arrives in any pieces.
* `Slicer.Foretells`, `Harmless` — when the frames can be told from the input's head alone, the
  condition speaks about the junk elements only; **`Slicer.rightOn_iff_harmless`**.
* `Slicer.cuts_of_swept` — the exact cuts when every junk element is dropped.

The timing half needs that a drop is decided early: `Slicer.DropsWithin look` says `look` elements
are enough, and the planted frames are at least that long.
-/

import EtherAdapter.Slicing.Basic

namespace Slicing

variable {α : Type*} {ε : Type*}

/-- A junk element, or a whole frame. -/
inductive Token (α : Type*) where
  | junk (element : α)
  | frame (content : List α)
deriving DecidableEq, Repr

namespace Token

/-- The stream a list of tokens stands for. -/
def wire : List (Token α) → List α
  | [] => []
  | .junk element :: tokens => element :: wire tokens
  | .frame content :: tokens => content ++ wire tokens

/-- Start and size of every planted frame, for a stream that starts at `start`. -/
def spans : ℕ → List (Token α) → List (ℕ × ℕ)
  | _, [] => []
  | start, .junk _ :: tokens => spans (start + 1) tokens
  | start, .frame content :: tokens =>
    (start, content.length) :: spans (start + content.length) tokens

/-- The planted frames, in order. -/
def frames : List (Token α) → List (List α)
  | [] => []
  | .junk _ :: tokens => frames tokens
  | .frame content :: tokens => content :: frames tokens

theorem wire_append (a b : List (Token α)) : wire (a ++ b) = wire a ++ wire b := by
  induction a with
  | nil => rfl
  | cons token a ih =>
    cases token with
    | junk element => simp only [List.cons_append, wire, ih]
    | frame content => simp only [List.cons_append, wire, ih, List.append_assoc]

theorem frames_append (a b : List (Token α)) : frames (a ++ b) = frames a ++ frames b := by
  induction a with
  | nil => rfl
  | cons token a ih =>
    cases token with
    | junk element => simp only [List.cons_append, frames, ih]
    | frame content => simp only [List.cons_append, frames, ih]

/-- A run of junk. -/
theorem wire_map_junk (elements : List α) : wire (elements.map Token.junk) = elements := by
  induction elements with
  | nil => rfl
  | cons element elements ih => rw [List.map_cons, wire, ih]

theorem frames_map_junk (elements : List α) : frames (elements.map Token.junk) = [] := by
  induction elements with
  | nil => rfl
  | cons element elements ih => rw [List.map_cons, frames, ih]

/-- Frames back to back. -/
theorem wire_map_frame (contents : List (List α)) :
    wire (contents.map Token.frame) = contents.flatten := by
  induction contents with
  | nil => rfl
  | cons content contents ih => rw [List.map_cons, wire, ih, List.flatten_cons]

theorem frames_map_frame (contents : List (List α)) :
    frames (contents.map Token.frame) = contents := by
  induction contents with
  | nil => rfl
  | cons content contents ih => rw [List.map_cons, frames, ih]

/-- A planted frame starts no earlier than its stream and has the size of its content. -/
theorem of_mem_spans {tokens : List (Token α)} {start : ℕ} {span : ℕ × ℕ}
    (member : span ∈ spans start tokens) :
    start ≤ span.1 ∧ ∃ content ∈ frames tokens, span.2 = content.length := by
  induction tokens generalizing start with
  | nil => cases member
  | cons token tokens ih =>
    cases token with
    | junk element =>
      obtain ⟨later, content, inside, size⟩ := ih member
      exact ⟨by omega, content, inside, size⟩
    | frame content =>
      rcases List.mem_cons.mp member with rfl | member
      · exact ⟨Nat.le_refl _, content, List.mem_cons_self, rfl⟩
      · obtain ⟨later, other, inside, size⟩ := ih member
        exact ⟨by omega, other, List.mem_cons_of_mem _ inside, size⟩

/-- A planted frame ends inside the stream. -/
theorem end_le_of_mem_spans {tokens : List (Token α)} {start : ℕ} {span : ℕ × ℕ}
    (member : span ∈ spans start tokens) : span.1 + span.2 ≤ start + (wire tokens).length := by
  induction tokens generalizing start with
  | nil => cases member
  | cons token tokens ih =>
    cases token with
    | junk element =>
      have inside := ih member
      rw [wire, List.length_cons]
      omega
    | frame content =>
      rw [wire, List.length_append]
      rcases List.mem_cons.mp member with rfl | member
      · simp only
        omega
      · have inside := ih member
        omega

theorem spans_eq_nil_iff {tokens : List (Token α)} {start : ℕ} :
    spans start tokens = [] ↔ frames tokens = [] := by
  induction tokens generalizing start with
  | nil => simp only [spans, frames]
  | cons token tokens ih =>
    cases token with
    | junk element => exact ih
    | frame content => simp only [spans, frames, reduceCtorEq]

end Token

open Token

/-- **No junk element starts a frame's head**; behind the last planted frame one may, if the frame
it announces is longer than the rest of the stream. -/
def Harmless (head : List α → Option ℕ) : List (Token α) → Prop
  | [] => True
  | .frame _ :: tokens => Harmless head tokens
  | .junk element :: tokens =>
    match head (element :: wire tokens) with
    | none => Harmless head tokens
    | some size => frames tokens = [] ∧ (element :: wire tokens).length < size

/-- Start and size of every frame in a sequence of cuts. -/
def Cut.spans : ℕ → List (Cut ε) → List (ℕ × ℕ)
  | _, [] => []
  | start, cut :: cuts =>
    if cut.isFrame then (start, cut.size) :: Cut.spans (start + cut.size) cuts
    else Cut.spans (start + cut.size) cuts

/-- What the slicer reports about the frames in a sequence of cuts. -/
def Cut.frameNotes (cuts : List (Cut ε)) : List ε :=
  (cuts.filter Cut.isFrame).map Cut.note

theorem Cut.frameNotes_cons_of_frame {cut : Cut ε} (kind : cut.isFrame = true)
    (cuts : List (Cut ε)) : Cut.frameNotes (cut :: cuts) = cut.note :: Cut.frameNotes cuts := by
  rw [frameNotes, List.filter_cons_of_pos kind, List.map_cons, frameNotes]

theorem Cut.frameNotes_cons_of_drop {cut : Cut ε} (kind : cut.isFrame = false)
    (cuts : List (Cut ε)) : Cut.frameNotes (cut :: cuts) = Cut.frameNotes cuts := by
  rw [frameNotes, List.filter_cons_of_neg (kind ▸ Bool.false_ne_true), frameNotes]

namespace Slicer

variable (S : Slicer α ε)

/-- The places of the frames the slicer cuts from an input that starts at `start`. -/
def frameSpans (start : ℕ) (input : List α) : List (ℕ × ℕ) := Cut.spans start (S.cuts input)

/-- The slicer cuts this content as one frame. -/
def CutsWhole (content : List α) : Prop :=
  ∃ note, S.step content = some ⟨content.length, true, note⟩

/-- A drop is decided once `look` elements are pending. -/
def DropsWithin (look : ℕ) : Prop :=
  ∀ (pending more : List α) (cut : Cut ε), S.step (pending ++ more) = some cut →
    cut.isFrame = false → look ≤ pending.length → S.step pending = some cut

/-- **No junk element is taken for a frame**: each one is dropped, until the slicer possibly waits
at one after which no frame is planted. -/
def NoFalseStart : List (Token α) → Prop
  | [] => True
  | .frame _ :: tokens => NoFalseStart tokens
  | .junk element :: tokens =>
    (∃ cut, S.step (element :: wire tokens) = some cut ∧ cut.isFrame = false ∧
      NoFalseStart tokens) ∨
    (S.step (element :: wire tokens) = none ∧ frames tokens = [])

/-- **Every junk element is dropped**, with one and the same report. -/
def Swept (note : ε) : List (Token α) → Prop
  | [] => True
  | .frame _ :: tokens => Swept note tokens
  | .junk element :: tokens =>
    S.step (element :: wire tokens) = some (Cut.skip note) ∧ Swept note tokens

theorem noFalseStart_map_frame (contents : List (List α)) :
    S.NoFalseStart (contents.map Token.frame) := by
  induction contents with
  | nil => trivial
  | cons content contents ih => exact ih

/-! ### Frames of prefixes -/

/-- A proper prefix of a frame decides nothing. -/
theorem step_prefix_none {content pending : List α} (whole : S.CutsWhole content)
    (inside : pending <+: content) (shorter : pending.length < content.length) :
    S.step pending = none := by
  obtain ⟨note, decided⟩ := whole
  obtain ⟨more, rfl⟩ := inside
  rcases S.step_none_or_eq pending more with waiting | same
  · exact waiting
  · have bound := S.size_le (same.trans decided)
    simp only at bound
    omega

theorem frameSpans_of_none {input : List α} {start : ℕ} (undecided : S.step input = none) :
    S.frameSpans start input = [] := by
  rw [frameSpans, S.cuts_of_none undecided, Cut.spans]

theorem frameSpans_frame {content more : List α} {start : ℕ} (whole : S.CutsWhole content) :
    S.frameSpans start (content ++ more) =
      (start, content.length) :: S.frameSpans (start + content.length) more := by
  obtain ⟨note, decided⟩ := whole
  rw [frameSpans, S.cuts_of_some (S.stable more decided), List.drop_left, Cut.spans, if_pos rfl,
    frameSpans]

theorem frameSpans_drop {element : α} {more : List α} {cut : Cut ε} {start : ℕ}
    (decided : S.step (element :: more) = some cut) (dropped : cut.isFrame = false) :
    S.frameSpans start (element :: more) = S.frameSpans (start + 1) more := by
  rw [frameSpans, S.cuts_of_some decided, Cut.spans, dropped, if_neg Bool.false_ne_true,
    S.skip_one decided dropped, List.drop_one, List.tail_cons, frameSpans]

/-- No frame has arrived in full if each one ends behind what has arrived. -/
theorem filter_spans_eq_nil {tokens : List (Token α)} {start arrived : ℕ}
    (late : ∀ span ∈ spans start tokens, arrived < span.1 + span.2) :
    ((spans start tokens).filter fun span => span.1 + span.2 ≤ arrived) = [] := by
  rw [List.filter_eq_nil_iff]
  intro span member
  rw [decide_eq_true_eq]
  exact Nat.not_le.mpr (late span member)

/-- Where the slicer waits at an element it is going to drop, fewer than `look` elements are pending,
so no frame behind it has arrived. -/
theorem late_of_waiting {look : ℕ} (early : S.DropsWithin look) {tokens : List (Token α)}
    (long : ∀ content ∈ frames tokens, look ≤ content.length) {pending unseen : List α}
    {cut : Cut ε} (decided : S.step (pending ++ unseen) = some cut) (dropped : cut.isFrame = false)
    (waiting : S.step pending = none) (start : ℕ) :
    ∀ span ∈ spans (start + 1) tokens, start + pending.length < span.1 + span.2 := by
  intro span member
  obtain ⟨later, content, inside, size⟩ := of_mem_spans member
  have frame := long content inside
  have few : pending.length < look := by
    by_contra enough
    rw [early _ _ _ decided dropped (Nat.le_of_not_lt enough)] at waiting
    cases waiting
  omega

/-- **Without false starts, the slicer is right on every prefix**: it has cut exactly the planted
frames that have arrived in full. -/
theorem frameSpans_of_noFalseStart {look : ℕ} (early : S.DropsWithin look)
    (tokens : List (Token α))
    (planted : ∀ content ∈ frames tokens, S.CutsWhole content ∧ look ≤ content.length)
    (clean : S.NoFalseStart tokens) (start : ℕ) (input : List α) (arrived : input <+: wire tokens) :
    S.frameSpans start input =
      (spans start tokens).filter fun span => span.1 + span.2 ≤ start + input.length := by
  induction tokens generalizing start input with
  | nil =>
    rw [wire, List.prefix_nil] at arrived
    rw [arrived, S.frameSpans_of_none S.step_nil, spans, List.filter_nil]
  | cons token tokens ih =>
    cases token with
    | frame content =>
      have whole := planted content List.mem_cons_self
      have others : ∀ other ∈ frames tokens, S.CutsWhole other ∧ look ≤ other.length :=
        fun other member => planted other (List.mem_cons_of_mem _ member)
      rw [wire] at arrived
      by_cases short : input.length < content.length
      · have inside : input <+: content :=
          List.prefix_of_prefix_length_le arrived (List.prefix_append _ _)
            (Nat.le_of_lt short)
        rw [S.frameSpans_of_none (S.step_prefix_none whole.1 inside short), filter_spans_eq_nil]
        intro span member
        rcases List.mem_cons.mp member with rfl | member
        · simp only
          omega
        · have later := (of_mem_spans member).1
          omega
      · obtain ⟨more, rfl⟩ : content <+: input :=
          List.prefix_of_prefix_length_le (List.prefix_append _ _) arrived (Nat.le_of_not_lt short)
        rw [List.prefix_append_right_inj] at arrived
        rw [S.frameSpans_frame whole.1, spans, List.filter_cons_of_pos, ih others clean _ _ arrived]
        · simp only [List.length_append, Nat.add_assoc]
        · simp
    | junk element =>
      have others : ∀ other ∈ frames tokens, S.CutsWhole other ∧ look ≤ other.length := planted
      rw [wire, List.prefix_cons_iff] at arrived
      rw [spans]
      rcases arrived with rfl | ⟨more, rfl, unseen, wireEq⟩
      · rw [S.frameSpans_of_none S.step_nil, filter_spans_eq_nil]
        intro span member
        have later := (of_mem_spans member).1
        simp only [List.length_nil]
        omega
      have wireCons : element :: wire tokens = (element :: more) ++ unseen := by
        rw [← wireEq, List.cons_append]
      rw [NoFalseStart, wireCons] at clean
      rcases clean with ⟨cut, decided, dropped, clean⟩ | ⟨undecided, noFrame⟩
      · rcases S.step_none_or_eq (element :: more) unseen with waiting | same
        · have late := S.late_of_waiting early (fun content member => (others content member).2)
            decided dropped waiting start
          rw [S.frameSpans_of_none waiting, filter_spans_eq_nil late]
        · rw [S.frameSpans_drop (same.trans decided) dropped, ih others clean _ _ ⟨unseen, wireEq⟩,
            List.length_cons]
          simp only [Nat.add_comm more.length 1, Nat.add_assoc]
      · have waiting : S.step (element :: more) = none := by
          rcases S.step_none_or_eq (element :: more) unseen with waiting | same
          · exact waiting
          · exact same.trans undecided
        rw [S.frameSpans_of_none waiting, spans_eq_nil_iff.mpr noFrame, List.filter_nil]

/-- **Right on the whole stream, hence no false start.** -/
theorem noFalseStart_of_frameSpans (tokens : List (Token α))
    (planted : ∀ content ∈ frames tokens, S.CutsWhole content) (start : ℕ)
    (right : S.frameSpans start (wire tokens) = spans start tokens) : S.NoFalseStart tokens := by
  induction tokens generalizing start with
  | nil => trivial
  | cons token tokens ih =>
    cases token with
    | frame content =>
      have whole := planted content List.mem_cons_self
      rw [wire, S.frameSpans_frame whole, spans, List.cons.injEq] at right
      exact ih (fun other member => planted other (List.mem_cons_of_mem _ member)) _ right.2
    | junk element =>
      rw [wire, spans] at right
      cases decision : S.step (element :: wire tokens) with
      | none =>
        rw [S.frameSpans_of_none decision] at right
        exact Or.inr ⟨decision, spans_eq_nil_iff.mp right.symm⟩
      | some cut =>
        cases kind : cut.isFrame with
        | false =>
          rw [S.frameSpans_drop decision kind] at right
          exact Or.inl ⟨cut, decision, kind, ih planted _ right⟩
        | true =>
          -- a frame cut at a junk element starts before every planted frame
          rw [frameSpans, S.cuts_of_some decision, Cut.spans, if_pos kind] at right
          have member : (start, cut.size) ∈ spans (start + 1) tokens :=
            right ▸ List.mem_cons_self
          have later := (of_mem_spans member).1
          simp only at later
          omega

/-- **Right on the stream**: however it arrives, the frames cut so far are exactly the planted ones
that have arrived in full. -/
def RightOn (tokens : List (Token α)) : Prop :=
  ∀ pieces : List (List α), pieces.flatten <+: wire tokens →
    Cut.spans 0 (S.run [] pieces).1 =
      (spans 0 tokens).filter fun span => span.1 + span.2 ≤ pieces.flatten.length

/-- Right on the whole stream. -/
theorem RightOn.frameSpans_wire {tokens : List (Token α)} (right : S.RightOn tokens) :
    S.frameSpans 0 (wire tokens) = spans 0 tokens := by
  have whole := right [wire tokens] (List.flatten_singleton ▸ List.prefix_refl _)
  rw [S.run_eq _ _ S.step_nil, List.flatten_singleton, List.nil_append] at whole
  rw [frameSpans, whole, List.filter_eq_self]
  intro span member
  have inside := end_le_of_mem_spans member
  rw [Nat.zero_add] at inside
  exact decide_eq_true inside

/-- **The slicer is right exactly when no junk element is taken for a frame.** -/
theorem rightOn_iff {look : ℕ} (early : S.DropsWithin look) (tokens : List (Token α))
    (planted : ∀ content ∈ frames tokens, S.CutsWhole content ∧ look ≤ content.length) :
    S.RightOn tokens ↔ S.NoFalseStart tokens := by
  constructor
  · intro right
    exact S.noFalseStart_of_frameSpans tokens (fun content member => (planted content member).1) 0
      right.frameSpans_wire
  · intro clean pieces arrived
    have prefixes := S.frameSpans_of_noFalseStart early tokens planted clean 0 _ arrived
    rw [S.run_eq _ _ S.step_nil, List.nil_append]
    simpa only [frameSpans, Nat.zero_add] using prefixes

/-! ### Frames foretold by their head -/

/-- `head` reads the size of a frame off the front of the input, and the slicer goes by it: `look`
elements are enough to drop an element that starts no frame. -/
structure Foretells (look : ℕ) (head : List α → Option ℕ) : Prop where
  look_le : ∀ {input size}, head input = some size → look ≤ size
  stable : ∀ {input size} (more : List α), head input = some size →
    head (input ++ more) = some size
  wait : ∀ {input size}, head input = some size → input.length < size → S.step input = none
  take : ∀ {input size}, head input = some size → size ≤ input.length →
    ∃ note, S.step input = some ⟨size, true, note⟩
  drop : ∀ {input}, head input = none → look ≤ input.length →
    ∃ cut, S.step input = some cut ∧ cut.isFrame = false
  short : ∀ {input cut}, S.step input = some cut → input.length < look → cut.isFrame = false

namespace Foretells

variable {S} {look : ℕ} {head : List α → Option ℕ}

theorem dropsWithin (foretells : S.Foretells look head) : S.DropsWithin look := by
  intro pending more cut decided dropped long
  cases foretold : head pending with
  | none =>
    obtain ⟨early, decision, _⟩ := foretells.drop foretold long
    rcases S.step_none_or_eq pending more with waiting | same
    · rw [decision] at waiting
      cases waiting
    · exact same.trans decided
  | some size =>
    have whole := foretells.stable more foretold
    by_cases arrived : size ≤ (pending ++ more).length
    · obtain ⟨note, frame⟩ := foretells.take whole arrived
      rw [frame, Option.some.injEq] at decided
      rw [← decided] at dropped
      cases dropped
    · rw [foretells.wait whole (Nat.lt_of_not_le arrived)] at decided
      cases decided

/-- On less input than the shortest frame there is nothing to go wrong. -/
theorem of_short (foretells : S.Foretells look head) (tokens : List (Token α))
    (planted : ∀ content ∈ frames tokens, look ≤ content.length)
    (short : (wire tokens).length < look) :
    S.NoFalseStart tokens ∧ Harmless head tokens ∧ frames tokens = [] := by
  induction tokens with
  | nil => exact ⟨trivial, trivial, rfl⟩
  | cons token tokens ih =>
    cases token with
    | frame content =>
      have long := planted content List.mem_cons_self
      rw [wire, List.length_append] at short
      omega
    | junk element =>
      rw [wire] at short
      obtain ⟨clean, harmless, noFrame⟩ :=
        ih planted (by rw [List.length_cons] at short; omega)
      refine ⟨?_, ?_, noFrame⟩
      · cases decision : S.step (element :: wire tokens) with
        | none => exact Or.inr ⟨decision, noFrame⟩
        | some cut => exact Or.inl ⟨cut, decision, foretells.short decision short, clean⟩
      · rw [Harmless]
        cases foretold : head (element :: wire tokens) with
        | none => exact harmless
        | some size => exact ⟨noFrame, Nat.lt_of_lt_of_le short (foretells.look_le foretold)⟩

/-- **A false start is a junk element that starts a frame's head.** -/
theorem noFalseStart_iff (foretells : S.Foretells look head) (tokens : List (Token α))
    (planted : ∀ content ∈ frames tokens, look ≤ content.length) :
    S.NoFalseStart tokens ↔ Harmless head tokens := by
  induction tokens with
  | nil => exact Iff.rfl
  | cons token tokens ih =>
    cases token with
    | frame content => exact ih fun other member => planted other (List.mem_cons_of_mem _ member)
    | junk element =>
      by_cases long : look ≤ (element :: wire tokens).length
      · rw [NoFalseStart, Harmless]
        cases foretold : head (element :: wire tokens) with
        | none =>
          obtain ⟨cut, decided, dropped⟩ := foretells.drop foretold long
          rw [decided, ← ih planted]
          constructor
          · rintro (⟨_, _, _, clean⟩ | ⟨undecided, _⟩)
            · exact clean
            · cases undecided
          · exact fun clean => Or.inl ⟨cut, rfl, dropped, clean⟩
        | some size =>
          by_cases arrived : size ≤ (element :: wire tokens).length
          · obtain ⟨note, frame⟩ := foretells.take foretold arrived
            rw [frame]
            constructor
            · rintro (⟨cut, decided, dropped, _⟩ | ⟨undecided, _⟩)
              · cases decided
                cases dropped
              · cases undecided
            · exact fun ⟨_, longer⟩ => absurd arrived (Nat.not_le_of_lt longer)
          · have longer := Nat.lt_of_not_le arrived
            rw [foretells.wait foretold longer]
            constructor
            · rintro (⟨_, decided, _⟩ | ⟨_, noFrame⟩)
              · cases decided
              · exact ⟨noFrame, longer⟩
            · exact fun ⟨noFrame, _⟩ => Or.inr ⟨rfl, noFrame⟩
      · obtain ⟨clean, harmless, _⟩ :=
          foretells.of_short (.junk element :: tokens) planted (Nat.lt_of_not_le long)
        exact iff_of_true clean harmless

end Foretells

/-- **The slicer is right exactly when the junk is harmless.** -/
theorem rightOn_iff_harmless {look : ℕ} {head : List α → Option ℕ}
    (foretells : S.Foretells look head) (tokens : List (Token α))
    (planted : ∀ content ∈ frames tokens, S.CutsWhole content ∧ look ≤ content.length) :
    S.RightOn tokens ↔ Harmless head tokens :=
  (S.rightOn_iff foretells.dropsWithin tokens planted).trans
    (foretells.noFalseStart_iff tokens fun content member => (planted content member).2)

/-! ### What is reported -/

/-- **Without false starts, the frames reported are the planted ones**, in order. -/
theorem frameNotes_of_noFalseStart (tokens : List (Token α))
    (planted : ∀ content ∈ frames tokens, S.CutsWhole content) (clean : S.NoFalseStart tokens) :
    Cut.frameNotes (S.cuts (wire tokens)) =
      (frames tokens).filterMap fun content => (S.step content).map Cut.note := by
  induction tokens with
  | nil => rw [wire, S.cuts_of_none S.step_nil]; rfl
  | cons token tokens ih =>
    cases token with
    | frame content =>
      have others := ih (fun other member => planted other (List.mem_cons_of_mem _ member)) clean
      obtain ⟨note, decided⟩ := planted content List.mem_cons_self
      rw [wire, S.cuts_of_some (S.stable _ decided), List.drop_left, frames,
        List.filterMap_cons_some (by rw [decided, Option.map_some]), ← others,
        Cut.frameNotes_cons_of_frame rfl]
    | junk element =>
      rw [wire]
      rcases clean with ⟨cut, decided, dropped, clean⟩ | ⟨undecided, noFrame⟩
      · rw [S.cuts_of_some decided, S.skip_one decided dropped, List.drop_one, List.tail_cons,
          Cut.frameNotes_cons_of_drop dropped]
        exact ih planted clean
      · rw [S.cuts_of_none undecided, frames, noFrame]
        rfl

/-- The cuts a token should give: one drop for a junk element, its frame for a planted frame. -/
def tokenCuts (note : ε) : Token α → List (Cut ε)
  | .junk _ => [Cut.skip note]
  | .frame content => (S.step content).toList

/-- The cuts of a swept stream: one drop per junk element, one frame per planted frame. -/
theorem cuts_of_swept {note : ε} (tokens : List (Token α))
    (planted : ∀ content ∈ frames tokens, S.CutsWhole content) (swept : S.Swept note tokens) :
    S.cuts (wire tokens) = tokens.flatMap (S.tokenCuts note) := by
  induction tokens with
  | nil => rw [wire, S.cuts_of_none S.step_nil, List.flatMap_nil]
  | cons token tokens ih =>
    cases token with
    | frame content =>
      have others := ih (fun other member => planted other (List.mem_cons_of_mem _ member)) swept
      obtain ⟨note, decided⟩ := planted content List.mem_cons_self
      rw [wire, S.cuts_of_some (S.stable _ decided), List.drop_left, others, List.flatMap_cons,
        tokenCuts, decided, Option.toList_some, List.singleton_append]
    | junk element =>
      rw [wire, S.cuts_of_some swept.1, List.flatMap_cons, tokenCuts, List.singleton_append]
      exact congrArg (List.cons _) (ih planted swept.2)

/-- A swept stream is used up. -/
theorem rest_of_swept {note : ε} (tokens : List (Token α))
    (planted : ∀ content ∈ frames tokens, S.CutsWhole content) (swept : S.Swept note tokens) :
    S.rest (wire tokens) = [] := by
  induction tokens with
  | nil => rw [wire, S.rest_of_none S.step_nil]
  | cons token tokens ih =>
    cases token with
    | frame content =>
      have others := ih (fun other member => planted other (List.mem_cons_of_mem _ member)) swept
      obtain ⟨note, decided⟩ := planted content List.mem_cons_self
      rw [wire, S.rest_of_some (S.stable _ decided), List.drop_left, others]
    | junk element =>
      rw [wire, S.rest_of_some swept.1, Cut.skip, List.drop_one, List.tail_cons, ih planted swept.2]

end Slicer

end Slicing
