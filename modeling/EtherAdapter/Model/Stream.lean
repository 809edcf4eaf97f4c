/-
**Stream slicing state, shared by both slicers** (`FrameCodec.h`).

`FrameCodec::feed` and `FrameCodec::feedModbus` have one shape: append the received bytes to the
pending buffer, walk over it taking one decision after the other, drop what was walked over. What
a decision does to the counters and to the sink is `FeedNote`; here is what follows from the shape
alone.

* `DeviceStream.sliced` — one call of a slicer on a stream, in closed form.
* **`DeviceStream.sliced_append`** — one call on `a ++ b` against a call on `a` and a call on `b`:
  the same stream afterwards, counters included, and the same rows up to their timestamps.
* **`feedChunks_sliced`** — any sequence of calls is one call on the concatenation.
-/

import EtherAdapter.Slicing.Planted
import EtherAdapter.Model.Decode

namespace EtherAdapter

open Slicing

/-! ### Stream state -/

def kMaxFrame : ℕ := 64 * 1024

/-- The backlog both slicers cut the pending buffer down to. -/
def kMaxPending : ℕ := 256 * 1024

/-- Per-endpoint stream slicing state, owned by the parser thread. The decode scratch row is left
out: every pushed row is written in full before it is read. -/
structure DeviceStream where
  buf : Bytes := []
  frames : ℕ := 0
  bytesIn : ℕ := 0
  resyncs : ℕ := 0
  badFrames : ℕ := 0
  flagMiss : ℕ := 0
  unknownType : ℕ := 0
  unknownTypeLogged : ℕ := 0
deriving DecidableEq, Repr

/-- One `sink.push(dev, ts, row)`. -/
structure Row where
  dev : DevicePtr
  ts : Int
  cells : List Cell
deriving DecidableEq, Repr

/-- A pushed row without its timestamp. -/
def Row.untimed (row : Row) : DevicePtr × List Cell := (row.dev, row.cells)

theorem map_untimed_some (rows : List Row) :
    (rows.map fun row => (row.dev, some row.cells)) =
      (rows.map Row.untimed).map fun row => (row.1, some row.2) := by
  rw [List.map_map]
  rfl

/-- The end of both slicers: drop what was sliced, bound the backlog. -/
def DeviceStream.compact (st : DeviceStream) (pending : Bytes) : DeviceStream :=
  if kMaxPending < pending.length then
    { st with buf := pending.drop (pending.length - kMaxPending), resyncs := st.resyncs + 1 }
  else { st with buf := pending }

theorem DeviceStream.compact_of_lt {pending : Bytes} (short : pending.length < kMaxFrame)
    (st : DeviceStream) : st.compact pending = { st with buf := pending } := by
  rw [compact, if_neg]
  unfold kMaxFrame at short
  unfold kMaxPending
  omega

/-! ### Decisions -/

/-- Why one byte is dropped: the first five by `feed`, the others by `feedModbus`. -/
inductive FeedSkip where
  | unknownType
  | noFields
  | flagMiss
  | badLength
  | tooLong
  | noProtocolId
  | badMbapLength
  | shortPayload
  | undecodable
deriving DecidableEq, Repr

/-- What a slicer did at one position. -/
inductive FeedNote where
  | skip (why : FeedSkip)
  | frame (dev : DevicePtr) (trailMiss : Bool) (rows : List (List Cell)) (ok : Bool)
deriving DecidableEq, Repr

/-- The counters a decision moves. -/
def DeviceStream.count (st : DeviceStream) : FeedNote → DeviceStream
  | .skip .unknownType => { st with unknownType := st.unknownType + 1, resyncs := st.resyncs + 1 }
  | .skip .flagMiss => { st with flagMiss := st.flagMiss + 1, resyncs := st.resyncs + 1 }
  | .skip .undecodable => { st with badFrames := st.badFrames + 1, resyncs := st.resyncs + 1 }
  | .skip _ => { st with resyncs := st.resyncs + 1 }
  | .frame _ trailMiss _ ok =>
    { st with
      flagMiss := st.flagMiss + trailMiss.toNat
      frames := st.frames + ok.toNat
      badFrames := st.badFrames + (!ok).toNat }

/-- The rows a decision pushes. -/
def FeedNote.rows (recvMs : Int) : FeedNote → List Row
  | .skip _ => []
  | .frame dev _ rows _ => rows.map fun cells => ⟨dev, recvMs, cells⟩

/-- The rows a decision pushes, without their timestamp. -/
def FeedNote.untimed : FeedNote → List (DevicePtr × List Cell)
  | .skip _ => []
  | .frame dev _ rows _ => rows.map fun cells => (dev, cells)

theorem FeedNote.rows_untimed (note : FeedNote) (recvMs : Int) :
    (note.rows recvMs).map Row.untimed = note.untimed := by
  cases note with
  | skip why => rfl
  | frame dev trailMiss records ok =>
    simp only [rows, untimed, List.map_map]
    rfl

/-- The loop variables of a slicer: the bytes from `pos` on, the stream, and what was pushed. -/
structure FeedLoop where
  pending : Bytes
  st : DeviceStream
  rows : List Row

/-- Carry a decision out. -/
def FeedLoop.take (s : FeedLoop) (recvMs : Int) (cut : Cut FeedNote) : FeedLoop where
  pending := s.pending.drop cut.size
  st := s.st.count cut.note
  rows := s.rows ++ cut.note.rows recvMs

/-! ### Sequences of decisions -/

/-- The stream's counters after a sequence of cuts. -/
def DeviceStream.countAll (st : DeviceStream) (cuts : List (Cut FeedNote)) : DeviceStream :=
  cuts.foldl (fun st cut => st.count cut.note) st

/-- The rows a sequence of cuts pushes. -/
def rowsOf (recvMs : Int) (cuts : List (Cut FeedNote)) : List Row :=
  cuts.flatMap fun cut => cut.note.rows recvMs

theorem rowsOf_untimed (recvMs : Int) (cuts : List (Cut FeedNote)) :
    (rowsOf recvMs cuts).map Row.untimed = cuts.flatMap fun cut => cut.note.untimed := by
  rw [rowsOf, List.map_flatMap]
  simp only [FeedNote.rows_untimed]

theorem DeviceStream.countAll_cons (st : DeviceStream) (cut : Cut FeedNote)
    (cuts : List (Cut FeedNote)) :
    st.countAll (cut :: cuts) = (st.count cut.note).countAll cuts := rfl

theorem DeviceStream.countAll_append (st : DeviceStream) (a b : List (Cut FeedNote)) :
    st.countAll (a ++ b) = (st.countAll a).countAll b := List.foldl_append

namespace FeedNote

/-- What a decision adds to `resyncs`, `frames` and `badFrames`. -/
def dropped : FeedNote → ℕ
  | .skip _ => 1
  | .frame _ _ _ _ => 0

def good : FeedNote → ℕ
  | .skip _ => 0
  | .frame _ _ _ ok => ok.toNat

def bad : FeedNote → ℕ
  | .skip .undecodable => 1
  | .skip _ => 0
  | .frame _ _ _ ok => (!ok).toNat

end FeedNote

theorem DeviceStream.countAll_counters (st : DeviceStream) (cuts : List (Cut FeedNote)) :
    (st.countAll cuts).resyncs = st.resyncs + (cuts.map fun cut => cut.note.dropped).sum ∧
      (st.countAll cuts).frames = st.frames + (cuts.map fun cut => cut.note.good).sum ∧
      (st.countAll cuts).badFrames = st.badFrames + (cuts.map fun cut => cut.note.bad).sum := by
  induction cuts generalizing st with
  | nil => exact ⟨rfl, rfl, rfl⟩
  | cons cut cuts ih =>
    have one : (st.count cut.note).resyncs = st.resyncs + cut.note.dropped ∧
        (st.count cut.note).frames = st.frames + cut.note.good ∧
        (st.count cut.note).badFrames = st.badFrames + cut.note.bad := by
      cases cut.note with
      | skip why => cases why <;> exact ⟨rfl, rfl, rfl⟩
      | frame dev trailMiss rows ok => exact ⟨rfl, rfl, rfl⟩
    obtain ⟨resyncs, frames, bad⟩ := ih (st.count cut.note)
    rw [countAll_cons, resyncs, frames, bad, one.1, one.2.1, one.2.2]
    simp only [List.map_cons, List.sum_cons, Nat.add_assoc, and_self]

/-- What a call adds besides the counters: the bytes received, and the new pending buffer. -/
def DeviceStream.advance (st : DeviceStream) (received : ℕ) (pending : Bytes) : DeviceStream :=
  { st with bytesIn := st.bytesIn + received, buf := pending }

theorem DeviceStream.count_advance (st : DeviceStream) (received : ℕ) (pending : Bytes)
    (note : FeedNote) :
    (st.advance received pending).count note = (st.count note).advance received pending := by
  cases note with
  | skip why => cases why <;> rfl
  | frame dev trailMiss rows ok => rfl

/-- Counting and receiving do not interfere. -/
theorem DeviceStream.countAll_advance (st : DeviceStream) (received : ℕ) (pending : Bytes)
    (cuts : List (Cut FeedNote)) :
    (st.advance received pending).countAll cuts = (st.countAll cuts).advance received pending := by
  induction cuts generalizing st with
  | nil => rfl
  | cons cut cuts ih => rw [countAll_cons, countAll_cons, count_advance, ih]

theorem DeviceStream.advance_advance (st : DeviceStream) (m n : ℕ) (p q : Bytes) :
    (st.advance m p).advance n q = st.advance (m + n) q := by
  unfold advance
  rw [Nat.add_assoc]

/-! ### From loops to slicers -/

namespace FeedLoop

variable (S : Slicer UInt8 FeedNote) (recvMs : Int)

/-- The loop variables once the slicer has nothing left to cut. -/
def finish (s : FeedLoop) : FeedLoop where
  pending := S.rest s.pending
  st := s.st.countAll (S.cuts s.pending)
  rows := s.rows ++ rowsOf recvMs (S.cuts s.pending)

variable {S}

theorem finish_of_none {s : FeedLoop} (undecided : S.step s.pending = none) :
    s.finish S recvMs = s := by
  rw [finish, S.rest_of_none undecided, S.cuts_of_none undecided, rowsOf, List.flatMap_nil,
    List.append_nil]
  rfl

theorem finish_take {s : FeedLoop} {cut : Cut FeedNote} (decided : S.step s.pending = some cut) :
    (s.take recvMs cut).finish S recvMs = s.finish S recvMs := by
  rw [finish, finish, S.rest_of_some decided, S.cuts_of_some decided]
  simp only [take, DeviceStream.countAll_cons, rowsOf, List.flatMap_cons, List.append_assoc]

end FeedLoop

/-! ### One call, two calls, any number of calls -/

/-- **One call of a slicer on a stream**: slice, count, push. -/
def DeviceStream.sliced (S : Slicer UInt8 FeedNote) (st : DeviceStream) (data : Bytes)
    (recvMs : Int) : DeviceStream × List Row :=
  ((st.countAll (S.cuts (st.buf ++ data))).advance data.length (S.rest (st.buf ++ data)),
    rowsOf recvMs (S.cuts (st.buf ++ data)))

/-- Of a stream, a slicer reads the pending bytes only. -/
theorem DeviceStream.sliced_congr (S : Slicer UInt8 FeedNote) {st other : DeviceStream}
    (same : st.buf = other.buf) (data : Bytes) (recvMs : Int) :
    (st.sliced S data recvMs).1.buf = (other.sliced S data recvMs).1.buf ∧
      (st.sliced S data recvMs).2 = (other.sliced S data recvMs).2 := by
  rw [sliced, sliced, same]
  exact ⟨rfl, rfl⟩

/-- A call that walks over the pending bytes as the slicer does is `sliced`, as long as the backlog
stays below one maximal frame. -/
theorem DeviceStream.sliced_of_finish (S : Slicer UInt8 FeedNote) (st : DeviceStream) (data : Bytes)
    (recvMs : Int) (short : (S.rest (st.buf ++ data)).length < kMaxFrame) (buf : Bytes) :
    let done := FeedLoop.finish S recvMs ⟨st.buf ++ data, st.advance data.length buf, []⟩
    (done.st.compact done.pending, done.rows) = st.sliced S data recvMs := by
  simp only [FeedLoop.finish, compact_of_lt short, countAll_advance, List.nil_append]
  rfl

/-- **One call or two: the same stream and the same rows.** -/
theorem DeviceStream.sliced_append (S : Slicer UInt8 FeedNote) (st : DeviceStream) (a b : Bytes)
    (whole first second : Int) :
    (st.sliced S (a ++ b) whole).1 = ((st.sliced S a first).1.sliced S b second).1 ∧
      (st.sliced S (a ++ b) whole).2.map Row.untimed =
        ((st.sliced S a first).2 ++ ((st.sliced S a first).1.sliced S b second).2).map
          Row.untimed := by
  have cuts : S.cuts (st.buf ++ (a ++ b)) =
      S.cuts (st.buf ++ a) ++ S.cuts (S.rest (st.buf ++ a) ++ b) := by
    rw [← List.append_assoc, S.cuts_append]
  have rest : S.rest (st.buf ++ (a ++ b)) = S.rest (S.rest (st.buf ++ a) ++ b) := by
    rw [← List.append_assoc, S.rest_append]
  have buffer : (st.sliced S a first).1.buf = S.rest (st.buf ++ a) := rfl
  constructor
  · rw [sliced, cuts, rest, sliced, buffer, sliced, countAll_append, countAll_advance,
      advance_advance, List.length_append]
  · rw [sliced, cuts, sliced.eq_def S (st.sliced S a first).1, buffer, sliced]
    simp only [List.map_append, rowsOf_untimed, List.flatMap_append]

/-- Nothing is cut, and nothing is counted, when nothing arrives on a waiting stream. -/
theorem DeviceStream.sliced_nil {S : Slicer UInt8 FeedNote} {st : DeviceStream}
    (waiting : S.step st.buf = none) (recvMs : Int) : st.sliced S [] recvMs = (st, []) := by
  rw [sliced, List.append_nil, S.cuts_of_none waiting, S.rest_of_none waiting]
  rfl

/-- After a call nothing is left to cut. -/
theorem DeviceStream.waiting_sliced (S : Slicer UInt8 FeedNote) (st : DeviceStream) (data : Bytes)
    (recvMs : Int) : S.step (st.sliced S data recvMs).1.buf = none := S.step_rest _

/-- A sequence of calls, each with the time of its chunk. -/
def feedChunks (call : DeviceStream → Bytes → Int → DeviceStream × List Row) (st : DeviceStream) :
    List (Bytes × Int) → DeviceStream × List Row
  | [] => (st, [])
  | (data, recvMs) :: chunks =>
    let now := call st data recvMs
    let later := feedChunks call now.1 chunks
    (later.1, now.2 ++ later.2)

theorem feedChunks_concat (call : DeviceStream → Bytes → Int → DeviceStream × List Row)
    (st : DeviceStream) (chunks : List (Bytes × Int)) (data : Bytes) (recvMs : Int) :
    feedChunks call st (chunks ++ [(data, recvMs)]) =
      ((call (feedChunks call st chunks).1 data recvMs).1,
        (feedChunks call st chunks).2 ++ (call (feedChunks call st chunks).1 data recvMs).2) := by
  induction chunks generalizing st with
  | nil => simp only [List.nil_append, feedChunks, List.append_nil]
  | cons chunk chunks ih =>
    obtain ⟨first, now⟩ := chunk
    simp only [List.cons_append, feedChunks, ih, List.append_assoc]

/-- The bytes of a sequence of calls. -/
def chunkBytes (chunks : List (Bytes × Int)) : Bytes := (chunks.map Prod.fst).flatten

/-- **Any chunking is one call on the concatenation.** -/
theorem feedChunks_sliced (S : Slicer UInt8 FeedNote) (chunks : List (Bytes × Int))
    (st : DeviceStream) (waiting : S.step st.buf = none) (recvMs : Int) :
    (feedChunks (DeviceStream.sliced S) st chunks).1 = (st.sliced S (chunkBytes chunks) recvMs).1 ∧
      (feedChunks (DeviceStream.sliced S) st chunks).2.map Row.untimed =
        (st.sliced S (chunkBytes chunks) recvMs).2.map Row.untimed := by
  induction chunks generalizing st with
  | nil =>
    rw [feedChunks, chunkBytes, List.map_nil, List.flatten_nil, DeviceStream.sliced_nil waiting]
    exact ⟨rfl, rfl⟩
  | cons chunk chunks ih =>
    obtain ⟨data, now⟩ := chunk
    obtain ⟨state, rows⟩ := ih (st.sliced S data now).1 (st.waiting_sliced S data now)
    obtain ⟨wholeState, wholeRows⟩ := st.sliced_append S data (chunkBytes chunks) recvMs now recvMs
    have bytes : chunkBytes ((data, now) :: chunks) = data ++ chunkBytes chunks := by
      simp only [chunkBytes, List.map_cons, List.flatten_cons]
    rw [bytes, wholeState, wholeRows]
    refine ⟨state, ?_⟩
    simp only [feedChunks, List.map_append, rows]

/-! ### Widths of rows -/

/-- Every row has one cell for each field of its device. -/
def FeedNote.Wide : FeedNote → Prop
  | .skip _ => True
  | .frame dev _ rows _ => ∀ cells ∈ rows, cells.length = dev.desc.fieldCount

/-- The rows of a slicer whose frames are wide. -/
theorem sliced_wide {S : Slicer UInt8 FeedNote}
    (wide : ∀ {pending cut}, S.step pending = some cut → cut.note.Wide) (st : DeviceStream)
    (data : Bytes) (recvMs : Int) :
    ∀ row ∈ (st.sliced S data recvMs).2, row.cells.length = row.dev.desc.fieldCount := by
  show ∀ row ∈ rowsOf recvMs (S.cuts (st.buf ++ data)), _
  generalize st.buf ++ data = input
  induction input using S.cut_induction with
  | undecided input undecided =>
    rw [S.cuts_of_none undecided]
    exact fun _ member => by cases member
  | decided input cut decided ih =>
    rw [S.cuts_of_some decided, rowsOf, List.flatMap_cons]
    intro row member
    rcases List.mem_append.mp member with here | later
    · have own := wide decided
      revert here own
      cases cut.note with
      | skip why => exact fun here => by cases here
      | frame dev trailMiss rows ok =>
        intro here own
        obtain ⟨cells, inside, rfl⟩ := List.mem_map.mp here
        exact own cells inside
    · exact ih row later

/-! ### Rows of planted streams -/

/-- **A stream of whole frames**, in any chunking: every frame counts once, nothing else does. -/
theorem feedChunks_frames {ι : Type*} (S : Slicer UInt8 FeedNote) (items : List ι)
    (content : ι → Bytes) (note : ι → FeedNote)
    (whole : ∀ item ∈ items,
      S.step (content item) = some ⟨(content item).length, true, note item⟩)
    {chunks : List (Bytes × Int)} (cut : chunkBytes chunks = items.flatMap content) :
    (feedChunks (DeviceStream.sliced S) {} chunks).2.map Row.untimed =
        (items.flatMap fun item => (note item).untimed) ∧
      (feedChunks (DeviceStream.sliced S) {} chunks).1.buf = [] ∧
      (feedChunks (DeviceStream.sliced S) {} chunks).1.frames =
        (items.map fun item => (note item).good).sum ∧
      (feedChunks (DeviceStream.sliced S) {} chunks).1.resyncs =
        (items.map fun item => (note item).dropped).sum ∧
      (feedChunks (DeviceStream.sliced S) {} chunks).1.badFrames =
        (items.map fun item => (note item).bad).sum := by
  obtain ⟨state, rows⟩ := feedChunks_sliced S chunks {} S.step_nil 0
  obtain ⟨cuts, rest⟩ := S.cuts_flatMap items content note whole
  rw [cut, DeviceStream.sliced, List.nil_append, cuts] at state rows
  rw [rest] at state
  obtain ⟨resyncs, frames, bad⟩ := DeviceStream.countAll_counters {}
    (items.map fun item => ⟨(content item).length, true, note item⟩)
  simp only [List.map_map, Function.comp_def, Nat.zero_add] at resyncs frames bad
  rw [state]
  refine ⟨?_, rfl, frames, resyncs, bad⟩
  rw [rows, rowsOf_untimed, List.flatMap_map]

/-- Only frames push rows. -/
def SilentSkips (S : Slicer UInt8 FeedNote) : Prop :=
  ∀ pending cut, S.step pending = some cut → cut.isFrame = false → cut.note.untimed = []

theorem untimed_frameNotes {S : Slicer UInt8 FeedNote} (silent : SilentSkips S) (input : Bytes) :
    (S.cuts input).flatMap (fun cut => cut.note.untimed) =
      (Cut.frameNotes (S.cuts input)).flatMap FeedNote.untimed := by
  induction input using S.cut_induction with
  | undecided input undecided =>
    rw [S.cuts_of_none undecided]
    rfl
  | decided input cut decided ih =>
    rw [S.cuts_of_some decided, List.flatMap_cons, ih]
    cases kind : cut.isFrame with
    | false =>
      rw [silent input cut decided kind, List.nil_append, Cut.frameNotes_cons_of_drop kind]
    | true => rw [Cut.frameNotes_cons_of_frame kind, List.flatMap_cons]

/-- **Without false starts, the rows of any chunking are those of the planted frames.** -/
theorem rows_of_noFalseStart {S : Slicer UInt8 FeedNote} (silent : SilentSkips S)
    (tokens : List (Token UInt8)) (planted : ∀ content ∈ Token.frames tokens, S.CutsWhole content)
    (clean : S.NoFalseStart tokens) {chunks : List (Bytes × Int)}
    (cut : chunkBytes chunks = Token.wire tokens) :
    (feedChunks (DeviceStream.sliced S) {} chunks).2.map Row.untimed =
      ((Token.frames tokens).filterMap fun content =>
        (S.step content).map Cut.note).flatMap FeedNote.untimed := by
  obtain ⟨_, rows⟩ := feedChunks_sliced S chunks {} S.step_nil 0
  rw [rows, cut, DeviceStream.sliced, rowsOf_untimed, List.nil_append, untimed_frameNotes silent,
    S.frameNotes_of_noFalseStart tokens planted clean]

/-- **Without false starts, junk changes no row.** -/
theorem rows_eq_of_noFalseStart {S : Slicer UInt8 FeedNote} (silent : SilentSkips S)
    (tokens : List (Token UInt8)) (planted : ∀ content ∈ Token.frames tokens, S.CutsWhole content)
    (clean : S.NoFalseStart tokens) {full bare : List (Bytes × Int)}
    (fullBytes : chunkBytes full = Token.wire tokens)
    (bareBytes : chunkBytes bare = (Token.frames tokens).flatten) :
    (feedChunks (DeviceStream.sliced S) {} full).2.map Row.untimed =
      (feedChunks (DeviceStream.sliced S) {} bare).2.map Row.untimed := by
  have frames := Token.frames_map_frame (Token.frames tokens)
  rw [← Token.wire_map_frame] at bareBytes
  rw [rows_of_noFalseStart silent tokens planted clean fullBytes,
    rows_of_noFalseStart silent _ (by rwa [frames]) (S.noFalseStart_map_frame _) bareBytes, frames]

end EtherAdapter
