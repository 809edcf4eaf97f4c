/-
**custom_data: where every received byte goes, and how long the backlog gets.**

Every pass through the `while` body of `FrameCodec::feed` moves `pos` over one piece of the pending
bytes: a whole frame, or one byte that is skipped. `feedPieces` writes these pieces down next to the
loop, `feedLedger` does it for a sequence of calls.

* `feedLoop_pieces` — the loop: its pieces and what it leaves are the input, and the counters are
  the counts of the pieces.
* **`feed_budget`** — after any sequence of calls, on any bytes: the pieces followed by the pending
  buffer are exactly what was received, `bytesIn` is the sizes of the frames plus `resyncs` plus the
  pending bytes, and no more than 65535 bytes are pending, so nothing is ever truncated.
-/

import EtherAdapter.Codec.Chunking

namespace EtherAdapter

open Slicing

/-! ### The pieces of one call -/

/-- What one pass moves `pos` over: the frame of an accepted header, or one skipped byte. -/
structure Piece where
  shape : Option FrameShape
  bytes : Bytes
deriving DecidableEq, Repr

namespace Piece

/-- The size of the frame: header, payload and trailing delimiter. -/
def frameSize (piece : Piece) : ℕ :=
  match piece.shape with
  | some shape => kHeaderSize + shape.payloadBytes + shape.tail
  | none => 0

def isSkip (piece : Piece) : Bool := piece.shape.isNone

/-- A skip is one byte, a frame has the size its header stands for. -/
def WellSized (piece : Piece) : Prop :=
  match piece.shape with
  | some shape => piece.bytes.length = kHeaderSize + shape.payloadBytes + shape.tail
  | none => piece.bytes.length = 1

theorem WellSized.length_eq {piece : Piece} (sized : piece.WellSized) :
    piece.bytes.length = piece.frameSize + piece.isSkip.toNat := by
  obtain ⟨shape, bytes⟩ := piece
  cases shape with
  | none => exact sized
  | some shape => exact sized

end Piece

/-- The pieces of the passes of `feedLoop`. -/
def feedPieces (group : DeviceGroup) : ℕ → Bytes → List Piece
  | 0, _ => []
  | fuel + 1, pending =>
    match feedStep group pending with
    | none => []
    | some cut =>
      ⟨(checkHeader group pending).toOption, pending.take cut.size⟩ ::
        feedPieces group fuel (pending.drop cut.size)

/-- The pieces of a sequence of calls. -/
def feedLedger (group : DeviceGroup) : DeviceStream → List (Bytes × Int) → List Piece
  | _, [] => []
  | st, (data, recvMs) :: chunks =>
    feedPieces group ((st.buf ++ data).length + 1) (st.buf ++ data) ++
      feedLedger group (feed group st data recvMs).1 chunks

/-- One pass: the piece has the right size, and it is counted as what it is. -/
theorem wellSized_of_feedStep {group : DeviceGroup} {pending : Bytes} {cut : Cut FeedNote}
    (decided : feedStep group pending = some cut) :
    let piece : Piece := ⟨(checkHeader group pending).toOption, pending.take cut.size⟩
    piece.WellSized ∧ cut.note.dropped = [piece].countP Piece.isSkip ∧
      cut.note.good + cut.note.bad = [piece].countP fun piece => !piece.isSkip := by
  obtain ⟨long, ⟨why, checked, rfl⟩ | ⟨shape, checked, whole, rfl⟩⟩ := feedStep_cases decided
  · rw [checked]
    refine ⟨?_, rfl, ?_⟩
    · show (pending.take 1).length = 1
      rw [List.length_take, Nat.min_eq_left]
      unfold kHeaderSize at long
      omega
    · have silent : why ≠ .undecodable := by
        rintro rfl
        unfold checkHeader at checked
        grind
      cases why <;> first | rfl | exact absurd rfl silent
  · rw [checked]
    refine ⟨?_, rfl, ?_⟩
    · show (pending.take shape.frameBytes).length = shape.frameBytes
      rw [List.length_take, Nat.min_eq_left whole]
    · show Bool.toNat _ + Bool.toNat (!_) = 1
      cases (decodeRecords shape.dev.desc.spec shape.dev.desc.bigEndian shape.recordBytes
        shape.records (pending.drop kHeaderSize)).2 <;> rfl

theorem DeviceStream.count_bytesIn (st : DeviceStream) (note : FeedNote) :
    (st.count note).bytesIn = st.bytesIn := by
  cases note with
  | skip why => cases why <;> rfl
  | frame dev trailMiss rows ok => rfl

/-- What the pieces say about a loop that went from one state to another. -/
structure Ledgered (pieces : List Piece) (before after : DeviceStream) : Prop where
  sized : ∀ piece ∈ pieces, piece.WellSized
  resyncs : after.resyncs = before.resyncs + pieces.countP Piece.isSkip
  frames : after.frames + after.badFrames =
    before.frames + before.badFrames + pieces.countP fun piece => !piece.isSkip

theorem Ledgered.nil (st : DeviceStream) : Ledgered [] st st :=
  ⟨fun _ member => absurd member List.not_mem_nil, rfl, rfl⟩

theorem Ledgered.append {first second : List Piece} {before middle after : DeviceStream}
    (head : Ledgered first before middle) (tail : Ledgered second middle after) :
    Ledgered (first ++ second) before after where
  sized := by
    intro piece member
    rcases List.mem_append.mp member with here | later
    · exact head.sized piece here
    · exact tail.sized piece later
  resyncs := by rw [tail.resyncs, head.resyncs, List.countP_append, Nat.add_assoc]
  frames := by rw [tail.frames, head.frames, List.countP_append, Nat.add_assoc]

/-- One pass of the loop, in the ledger. -/
theorem Ledgered.of_feedStep {group : DeviceGroup} {pending : Bytes} {cut : Cut FeedNote}
    (decided : feedStep group pending = some cut) (st : DeviceStream) :
    Ledgered [⟨(checkHeader group pending).toOption, pending.take cut.size⟩] st
      (st.count cut.note) := by
  obtain ⟨sized, dropped, taken⟩ := wellSized_of_feedStep decided
  obtain ⟨resyncs, good, bad⟩ := st.countAll_counters [cut]
  rw [DeviceStream.countAll_cons, List.map_cons, List.sum_cons, List.map_nil, List.sum_nil,
    Nat.add_zero] at resyncs good bad
  refine ⟨List.forall_mem_singleton.mpr sized, ?_, ?_⟩
  · rw [← dropped]
    exact resyncs
  · rw [← taken]
    have frames : (st.count cut.note).frames = st.frames + cut.note.good := good
    have badFrames : (st.count cut.note).badFrames = st.badFrames + cut.note.bad := bad
    omega

/-- **The loop moves over exactly its pieces, and counts them.** -/
theorem feedLoop_pieces (group : DeviceGroup) (recvMs : Int) (fuel : ℕ) (s : FeedLoop) :
    s.pending = (feedPieces group fuel s.pending).flatMap Piece.bytes ++
        (feedLoop group recvMs fuel s).pending ∧
      (feedLoop group recvMs fuel s).st.bytesIn = s.st.bytesIn ∧
      Ledgered (feedPieces group fuel s.pending) s.st (feedLoop group recvMs fuel s).st := by
  induction fuel generalizing s with
  | zero => exact ⟨rfl, rfl, Ledgered.nil s.st⟩
  | succ fuel ih =>
    cases decision : feedStep group s.pending with
    | none =>
      rw [feedLoop, feedBody, feedPieces, decision]
      exact ⟨rfl, rfl, Ledgered.nil s.st⟩
    | some cut =>
      simp only [feedLoop, feedBody, feedPieces, decision, Option.map_some]
      obtain ⟨bytes, received, ledgered⟩ := ih (s.take recvMs cut)
      refine ⟨?_, ?_, (Ledgered.of_feedStep decision s.st).append ledgered⟩
      · calc s.pending = s.pending.take cut.size ++ s.pending.drop cut.size :=
              (List.take_append_drop _ _).symm
          _ = _ := by
              rw [List.flatMap_cons, List.append_assoc]
              exact congrArg (s.pending.take cut.size ++ ·) bytes
      · rw [received]
        exact DeviceStream.count_bytesIn s.st cut.note

/-! ### Any number of calls -/

/-- What `feed` does to the backlog: it never truncates it. -/
theorem feedLoop_pending_le (group : DeviceGroup) (st : DeviceStream) (data : Bytes)
    (recvMs : Int) :
    (feedLoop group recvMs ((st.buf ++ data).length + 1)
      ⟨st.buf ++ data, { st with bytesIn := st.bytesIn + data.length }, []⟩).pending.length ≤
        65535 := by
  have loop := feedLoop_eq group recvMs ((st.buf ++ data).length + 1)
    ⟨st.buf ++ data, { st with bytesIn := st.bytesIn + data.length }, []⟩ (Nat.lt_succ_self _)
  rw [loop]
  exact Nat.le_of_lt_succ (rest_length_lt group (st.buf ++ data))

/-- One call: what was pending and what arrived are its pieces and what is pending now. -/
theorem feed_pieces (group : DeviceGroup) (st : DeviceStream) (data : Bytes) (recvMs : Int) :
    st.buf ++ data =
        (feedPieces group ((st.buf ++ data).length + 1) (st.buf ++ data)).flatMap Piece.bytes ++
          (feed group st data recvMs).1.buf ∧
      (feed group st data recvMs).1.bytesIn = st.bytesIn + data.length ∧
      Ledgered (feedPieces group ((st.buf ++ data).length + 1) (st.buf ++ data)) st
        (feed group st data recvMs).1 := by
  have short := feedLoop_pending_le group st data recvMs
  obtain ⟨bytes, received, sized, resyncs, frames⟩ := feedLoop_pieces group recvMs
    ((st.buf ++ data).length + 1)
    ⟨st.buf ++ data, { st with bytesIn := st.bytesIn + data.length }, []⟩
  have kept := DeviceStream.compact_of_lt (Nat.lt_succ_of_le short)
    (feedLoop group recvMs ((st.buf ++ data).length + 1)
      ⟨st.buf ++ data, { st with bytesIn := st.bytesIn + data.length }, []⟩).st
  simp only [feed, kept]
  exact ⟨bytes, received, sized, resyncs, frames⟩

/-- The same for a sequence of calls. -/
theorem feedAll_pieces (group : DeviceGroup) (chunks : List (Bytes × Int)) (st : DeviceStream) :
    st.buf ++ chunkBytes chunks =
        (feedLedger group st chunks).flatMap Piece.bytes ++ (feedAll group st chunks).1.buf ∧
      (feedAll group st chunks).1.bytesIn = st.bytesIn + (chunkBytes chunks).length ∧
      Ledgered (feedLedger group st chunks) st (feedAll group st chunks).1 := by
  induction chunks generalizing st with
  | nil =>
    rw [chunkBytes, List.map_nil, List.flatten_nil, List.append_nil]
    exact ⟨rfl, rfl, Ledgered.nil st⟩
  | cons chunk chunks ih =>
    obtain ⟨data, recvMs⟩ := chunk
    obtain ⟨bytes, received, ledgered⟩ := feed_pieces group st data recvMs
    obtain ⟨laterBytes, laterReceived, later⟩ := ih (feed group st data recvMs).1
    have split : chunkBytes ((data, recvMs) :: chunks) = data ++ chunkBytes chunks := by
      simp only [chunkBytes, List.map_cons, List.flatten_cons]
    rw [split, feedLedger]
    refine ⟨?_, ?_, ledgered.append later⟩
    · calc st.buf ++ (data ++ chunkBytes chunks)
          = (feedPieces group ((st.buf ++ data).length + 1) (st.buf ++ data)).flatMap Piece.bytes ++
              ((feed group st data recvMs).1.buf ++ chunkBytes chunks) := by
            rw [← List.append_assoc, ← List.append_assoc, ← bytes]
        _ = _ := by
            rw [laterBytes, List.flatMap_append, List.append_assoc]
            rfl
    · rw [List.length_append, ← Nat.add_assoc, ← received]
      exact laterReceived

/-- The bytes of the pieces: the frames' sizes and one for each skip. -/
theorem length_flatMap_bytes {pieces : List Piece} (sized : ∀ piece ∈ pieces, piece.WellSized) :
    (pieces.flatMap Piece.bytes).length =
      (pieces.map Piece.frameSize).sum + pieces.countP Piece.isSkip := by
  induction pieces with
  | nil => rfl
  | cons piece pieces ih =>
    have here := (sized piece List.mem_cons_self).length_eq
    have later := ih fun other member => sized other (List.mem_cons_of_mem _ member)
    rw [List.flatMap_cons, List.length_append, List.map_cons, List.sum_cons, List.countP_cons,
      here, later]
    cases piece.isSkip with
    | false => simp only [Bool.toNat_false, Bool.false_eq_true, if_false]; omega
    | true => simp only [Bool.toNat_true, if_true]; omega

/-- **Every received byte is accounted for, and the backlog is bounded.** After any sequence of
calls from the empty stream:

* the frames consumed, the bytes skipped and the pending buffer are, in order, what was received;
* a frame has the size its header stands for, a skip is one byte; there are as many frames as
  `frames` and `badFrames` count and as many skips as `resyncs` counts;
* `bytesIn` is the sizes of the frames, plus `resyncs`, plus the pending bytes;
* at most 65535 bytes are pending, and no later call reaches the truncation either. -/
theorem feed_budget (group : DeviceGroup) (chunks : List (Bytes × Int)) :
    let st := (feedAll group {} chunks).1
    let ledger := feedLedger group {} chunks
    chunkBytes chunks = ledger.flatMap Piece.bytes ++ st.buf ∧
      (∀ piece ∈ ledger, piece.WellSized) ∧
      st.frames + st.badFrames = (ledger.countP fun piece => !piece.isSkip) ∧
      st.resyncs = ledger.countP Piece.isSkip ∧
      st.bytesIn = (ledger.map Piece.frameSize).sum + st.resyncs + st.buf.length ∧
      st.buf.length ≤ 65535 ∧
      ∀ (data : Bytes) (recvMs : Int),
        ¬ kMaxPending < (feedLoop group recvMs ((st.buf ++ data).length + 1)
          ⟨st.buf ++ data, { st with bytesIn := st.bytesIn + data.length }, []⟩).pending.length := by
  intro st ledger
  obtain ⟨bytes, received, sized, resyncs, frames⟩ := feedAll_pieces group chunks {}
  rw [List.nil_append] at bytes
  rw [Nat.zero_add] at received
  have skips : st.resyncs = ledger.countP Piece.isSkip := resyncs.trans (Nat.zero_add _)
  have taken : st.frames + st.badFrames = ledger.countP fun piece => !piece.isSkip :=
    frames.trans (Nat.zero_add _)
  refine ⟨bytes, sized, taken, skips, ?_, ?_, fun data recvMs => ?_⟩
  · calc st.bytesIn = (chunkBytes chunks).length := received
      _ = (ledger.flatMap Piece.bytes).length + st.buf.length := by
          rw [bytes, List.length_append]
      _ = _ := by rw [length_flatMap_bytes sized, ← skips]
  · obtain ⟨whole, _⟩ := feedAll_eq group chunks {} rfl 0
    show (feedAll group {} chunks).1.buf.length ≤ 65535
    rw [whole, feed_eq]
    exact Nat.le_of_lt_succ (rest_length_lt group _)
  · have short := feedLoop_pending_le group st data recvMs
    unfold kMaxPending
    omega

end EtherAdapter
