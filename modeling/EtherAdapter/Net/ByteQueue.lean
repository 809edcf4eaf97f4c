/-
**The buffer is a queue of bytes.**

The readable bytes are a list: `append` and `hasWritten` add to its end, `retrieve` takes from its
front, `unwrite` from its end, `prepend` adds in front, `shrink` leaves it alone. Other models use
this list in place of the buffer.

* `Buffer.Inv` — the indexes are in order, and the vector has its reserved prefix.
* `makeSpace_spec` — both branches of `makeSpace` keep the readable bytes and make the room.
* `BufferOp.Fits` — what an operation needs beyond its own assertions: sizes a vector can have, and
  for `shrink` less than `2 ^ 31` readable bytes.
* **`perform_iff`** — an operation ends without a fault and does to the list what it is for, exactly
  if it fits.
* **`buffer_refines_queue`** — the same in every state of a run. A `shrink` of `2 ^ 32` bytes leaves
  none of them (`shrink_loses_bytes`).
-/

import EtherAdapter.Runs.Basic
import EtherAdapter.Model.Buffer

namespace EtherAdapter

open Memory Runs

/-! ### Faults -/

theorem assertThat_of {condition : Prop} [Decidable condition] (holds : condition) :
    assertThat condition = .ok () := if_pos holds

theorem of_assertThat {condition : Prop} [Decidable condition] {u : Unit}
    (passed : assertThat condition = .ok u) : condition := by
  by_contra fails
  rw [assertThat, if_neg fails] at passed
  cases passed

theorem newVector_of {n : ℕ} (fits : n ≤ kMaxSize) : newVector n = .ok (List.replicate n 0) :=
  if_pos fits

/-- A copy inside the vector is there afterwards, and nothing else has changed. -/
theorem copyTo_spec {vector data : Bytes} {off : ℕ} (fits : off + data.length ≤ vector.length) :
    ∃ filled, copyTo vector off data = .ok filled ∧ filled.length = vector.length ∧
      readAt filled off data.length = data ∧
      ∀ start size, start + size ≤ off ∨ off + data.length ≤ start →
        readAt filled start size = readAt vector start size :=
  ⟨writeAt vector off data, if_pos fits, length_writeAt fits, readAt_writeAt fits,
    fun _ _ apart => readAt_writeAt_of_disjoint fits apart⟩

theorem ok_bind {α β : Type} (a : α) (f : α → Except BufferFault β) :
    (Except.ok a >>= f) = f a := rfl

/-- What comes before a result has not failed. -/
theorem bind_eq_ok {α β : Type} {x : Except BufferFault α} {f : α → Except BufferFault β} {b : β}
    (done : (x >>= f) = .ok b) : ∃ a, x = .ok a ∧ f a = .ok b := by
  cases x with
  | error fault => cases done
  | ok a => exact ⟨a, rfl, done⟩

/-! ### The readable bytes -/

namespace Buffer

/-- The indexes are in order, behind them the end of the vector. -/
structure Inv (b : Buffer) : Prop where
  reader_le : b.readerIndex ≤ b.writerIndex
  writer_le : b.writerIndex ≤ b.buffer.length
  reserved : kCheapPrepend ≤ b.buffer.length
  size_le : b.buffer.length ≤ kMaxSize

/-- What lies between the indexes. -/
def readable (b : Buffer) : Bytes := readAt b.buffer b.readerIndex b.readableBytes

variable {b after : Buffer}

theorem subSize_eq {m n : ℕ} (less : n ≤ m) (small : m ≤ kMaxSize) : subSize m n = m - n := by
  unfold kMaxSize at small
  unfold subSize
  omega

theorem addSize_eq {m n : ℕ} (small : m + n ≤ kMaxSize) : addSize m n = m + n := by
  unfold kMaxSize at small
  unfold addSize
  omega

namespace Inv

theorem readableBytes_eq (inv : b.Inv) : b.readableBytes = b.writerIndex - b.readerIndex :=
  subSize_eq inv.reader_le (Nat.le_trans inv.writer_le inv.size_le)

theorem writableBytes_eq (inv : b.Inv) : b.writableBytes = b.buffer.length - b.writerIndex :=
  subSize_eq inv.writer_le inv.size_le

theorem reader_add (inv : b.Inv) : b.readerIndex + b.readableBytes = b.writerIndex := by
  rw [inv.readableBytes_eq]
  exact Nat.add_sub_cancel' inv.reader_le

theorem writer_add (inv : b.Inv) : b.writerIndex + b.writableBytes = b.buffer.length := by
  rw [inv.writableBytes_eq]
  exact Nat.add_sub_cancel' inv.writer_le

theorem length_readable (inv : b.Inv) : b.readable.length = b.readableBytes := by
  refine length_readAt ?_
  rw [inv.reader_add]
  exact inv.writer_le

theorem readableBytes_eq_zero (inv : b.Inv) (empty : b.readable = []) : b.readableBytes = 0 := by
  rw [← inv.length_readable, empty, List.length_nil]

end Inv

/-- Indexes that stand `size` apart, with the bytes `data` between them. -/
theorem inv_of {vector : Bytes} {reader writer size : ℕ} (apart : reader + size = writer)
    (inside : writer ≤ vector.length) (reserved : kCheapPrepend ≤ vector.length)
    (most : vector.length ≤ kMaxSize) :
    (⟨vector, reader, writer⟩ : Buffer).Inv ∧
      (⟨vector, reader, writer⟩ : Buffer).readable = readAt vector reader size := by
  have inv : (⟨vector, reader, writer⟩ : Buffer).Inv :=
    ⟨by show reader ≤ writer; omega, inside, reserved, most⟩
  refine ⟨inv, ?_⟩
  have count : (⟨vector, reader, writer⟩ : Buffer).readableBytes = size := by
    rw [inv.readableBytes_eq]
    show writer - reader = size
    omega
  rw [readable, count]

/-! ### Making space -/

/-- The length of the vector is small, and so are all of its parts. -/
theorem Inv.bounds (inv : b.Inv) :
    b.readerIndex + b.readableBytes + b.writableBytes = b.buffer.length ∧
      b.buffer.length < 2 ^ 63 := by
  refine ⟨by rw [inv.reader_add, inv.writer_add], ?_⟩
  have most := inv.size_le
  unfold kMaxSize at most
  omega

/-- The readable bytes in a new vector. -/
theorem makeSpace_grown (inv : b.Inv) {len : ℕ}
    (fits : kCheapPrepend + b.readableBytes + len ≤ kMaxSize)
    (tight : b.writableBytes + b.prependableBytes < len + kCheapPrepend) :
    ∃ after, b.makeSpace len = .ok after ∧ after.Inv ∧ after.readable = b.readable ∧
      len ≤ after.writableBytes := by
  obtain ⟨parts, small⟩ := inv.bounds
  have size : addSize (addSize len b.readableBytes) kCheapPrepend =
      kCheapPrepend + b.readableBytes + len := by
    rw [addSize_eq (m := len) (by omega), addSize_eq (by omega)]
    omega
  have grown : addSize b.writableBytes b.prependableBytes < addSize len kCheapPrepend := by
    unfold prependableBytes at tight ⊢
    rw [addSize_eq (m := len) (by omega), addSize_eq (by unfold kMaxSize; omega)]
    exact tight
  have count := inv.length_readable
  have room : kCheapPrepend + b.readable.length ≤
      (List.replicate (kCheapPrepend + b.readableBytes + len) (0 : UInt8)).length := by
    rw [List.length_replicate, count]
    omega
  obtain ⟨vector, copied, length, back, _⟩ := copyTo_spec room
  rw [List.length_replicate] at length
  rw [count] at back
  obtain ⟨inv', same⟩ := @inv_of vector kCheapPrepend _ b.readableBytes rfl
    (by omega) (by omega) (by omega)
  refine ⟨_, ?_, inv', same.trans back, ?_⟩
  · unfold readable at copied
    unfold makeSpace
    simp only
    rw [if_pos grown, size, newVector_of fits, ok_bind, copied, ok_bind,
      addSize_eq (m := kCheapPrepend) (by omega)]
    rfl
  · rw [inv'.writableBytes_eq]
    show len ≤ vector.length - (kCheapPrepend + b.readableBytes)
    omega

/-- The readable bytes at the front of the same vector. -/
theorem makeSpace_moved (inv : b.Inv) {len : ℕ} (short : b.writableBytes < len)
    (fits : kCheapPrepend + b.readableBytes + len ≤ kMaxSize)
    (loose : len + kCheapPrepend ≤ b.writableBytes + b.prependableBytes) :
    ∃ after, b.makeSpace len = .ok after ∧ after.Inv ∧ after.readable = b.readable ∧
      len ≤ after.writableBytes := by
  obtain ⟨parts, small⟩ := inv.bounds
  unfold prependableBytes at loose
  have most := inv.size_le
  have kept : ¬ addSize b.writableBytes b.prependableBytes < addSize len kCheapPrepend := by
    unfold prependableBytes
    rw [addSize_eq (m := len) (by omega), addSize_eq (by omega)]
    omega
  -- what is missing behind the writer is in front of the reader
  have ahead : kCheapPrepend < b.readerIndex := by omega
  have count := inv.length_readable
  have room : kCheapPrepend + b.readable.length ≤ b.buffer.length := by omega
  have slid : slide b.buffer b.readerIndex kCheapPrepend b.readableBytes =
      writeAt b.buffer kCheapPrepend b.readable :=
    slide_eq (by omega) (Nat.le_of_lt ahead)
  have length := length_writeAt room
  have back := readAt_writeAt room
  rw [← slid] at length back
  rw [count] at back
  obtain ⟨inv', same⟩ := @inv_of _ kCheapPrepend _ b.readableBytes rfl
    (by rw [length]; omega) (by rw [length]; omega) (by rw [length]; exact most)
  refine ⟨_, ?_, inv', same.trans back, ?_⟩
  · unfold makeSpace
    simp only
    have again := inv'.length_readable
    rw [same, back, count] at again
    rw [if_neg kept, assertThat_of ahead, ok_bind, addSize_eq (m := kCheapPrepend) (by omega),
      assertThat_of again]
    rfl
  · rw [inv'.writableBytes_eq]
    show len ≤ (slide b.buffer b.readerIndex kCheapPrepend b.readableBytes).length -
      (kCheapPrepend + b.readableBytes)
    omega

/-- **Both branches of `makeSpace` keep the readable bytes and make the room.** -/
theorem makeSpace_spec (inv : b.Inv) {len : ℕ} (short : b.writableBytes < len)
    (fits : kCheapPrepend + b.readableBytes + len ≤ kMaxSize) :
    ∃ after, b.makeSpace len = .ok after ∧ after.Inv ∧ after.readable = b.readable ∧
      len ≤ after.writableBytes := by
  by_cases tight : b.writableBytes + b.prependableBytes < len + kCheapPrepend
  · exact makeSpace_grown inv fits tight
  · exact makeSpace_moved inv short fits (Nat.le_of_not_lt tight)

/-- `len` bytes are writable, or a vector can hold them behind the readable ones. -/
def HasRoom (b : Buffer) (len : ℕ) : Prop :=
  len ≤ b.writableBytes ∨ kCheapPrepend + b.readableBytes + len ≤ kMaxSize

instance (b : Buffer) (len : ℕ) : Decidable (b.HasRoom len) := inferInstanceAs (Decidable (_ ∨ _))

theorem hasRoom_of_empty (inv : b.Inv) (empty : b.readable = []) {len : ℕ}
    (fits : kCheapPrepend + len ≤ kMaxSize) : b.HasRoom len := by
  refine Or.inr ?_
  rwa [inv.readableBytes_eq_zero empty, Nat.add_zero]

theorem ensureWritableBytes_spec (inv : b.Inv) {len : ℕ} (room : b.HasRoom len) :
    ∃ after, b.ensureWritableBytes len = .ok after ∧ after.Inv ∧ after.readable = b.readable ∧
      len ≤ after.writableBytes := by
  by_cases short : b.writableBytes < len
  · have fits := room.resolve_left (Nat.not_le.mpr short)
    obtain ⟨after, made, inv', same, enough⟩ := makeSpace_spec inv short fits
    refine ⟨after, ?_, inv', same, enough⟩
    rw [ensureWritableBytes, if_pos short, made]
    show (assertThat (len ≤ after.writableBytes) >>= fun _ => pure after) = _
    rw [assertThat_of enough]
    rfl
  · have enough := Nat.le_of_not_lt short
    refine ⟨b, ?_, inv, rfl, enough⟩
    rw [ensureWritableBytes, if_neg short]
    show (assertThat (len ≤ b.writableBytes) >>= fun _ => pure b) = _
    rw [assertThat_of enough]
    rfl

/-- Space that cannot be made is not made: the vector would be too large, or the sizes wrap around
and a copy leaves the vector or the last assertion fails. -/
theorem hasRoom_of_makeSpace (inv : b.Inv) {len : ℕ} (size : len < 2 ^ 64)
    (made : b.makeSpace len = .ok after) (enough : len ≤ after.writableBytes) :
    b.HasRoom len := by
  obtain ⟨parts, small⟩ := inv.bounds
  unfold makeSpace at made
  simp only at made
  split at made
  · rename_i tight
    obtain ⟨vector, held, made⟩ := bind_eq_ok made
    obtain ⟨filled, copied, _⟩ := bind_eq_ok made
    unfold newVector at held
    split at held
    · rename_i fits
      cases held
      unfold copyTo at copied
      split at copied
      · rename_i inside
        have count := inv.length_readable
        unfold readable at count
        rw [count, List.length_replicate] at inside
        refine Or.inr ?_
        unfold addSize at inside fits
        unfold kCheapPrepend kMaxSize at *
        omega
      · cases copied
    · cases held
  · rename_i loose
    obtain ⟨_, ahead, made⟩ := bind_eq_ok made
    obtain ⟨_, _, made⟩ := bind_eq_ok made
    cases made
    have ahead := of_assertThat ahead
    have count := inv.length_readable
    have slid : slide b.buffer b.readerIndex kCheapPrepend b.readableBytes =
        writeAt b.buffer kCheapPrepend b.readable :=
      slide_eq (by omega) (Nat.le_of_lt ahead)
    have length := length_writeAt (show kCheapPrepend + b.readable.length ≤ b.buffer.length by omega)
    have most := inv.size_le
    change len ≤ subSize (slide b.buffer b.readerIndex kCheapPrepend b.readableBytes).length
      (addSize kCheapPrepend b.readableBytes) at enough
    rw [slid, length, addSize_eq (by omega), subSize_eq (by omega) most] at enough
    exact Or.inr (by omega)

/-- **`ensureWritableBytes` succeeds exactly if there can be room.** -/
theorem hasRoom_of_ensureWritableBytes (inv : b.Inv) {len : ℕ} (size : len < 2 ^ 64)
    (done : b.ensureWritableBytes len = .ok after) : b.HasRoom len := by
  rw [ensureWritableBytes] at done
  split at done
  · obtain ⟨made, space, done⟩ := bind_eq_ok done
    obtain ⟨_, passed, _⟩ := bind_eq_ok done
    exact hasRoom_of_makeSpace inv size space (of_assertThat passed)
  · obtain ⟨_, passed, _⟩ := bind_eq_ok (x := assertThat (len ≤ b.writableBytes)) done
    exact Or.inl (of_assertThat passed)

/-! ### The other operations -/

/-- Bytes that fit go to the end. -/
theorem fill_spec (inv : b.Inv) {data : Bytes} (room : data.length ≤ b.writableBytes) :
    ∃ after, b.fill data = .ok after ∧ after.Inv ∧ after.readable = b.readable ++ data := by
  obtain ⟨parts, small⟩ := inv.bounds
  have most := inv.size_le
  have end_eq := inv.writer_add
  have begin_eq := inv.reader_add
  obtain ⟨filled, copied, length, back, frame⟩ :=
    copyTo_spec (show b.writerIndex + data.length ≤ b.buffer.length by omega)
  have reserved := inv.reserved
  obtain ⟨inv', same⟩ := @inv_of filled b.readerIndex (b.writerIndex + data.length)
    (b.readableBytes + data.length) (by omega) (by omega) (by omega) (by omega)
  refine ⟨_, ?_, inv', ?_⟩
  · have writable : data.length ≤ ({ b with buffer := filled } : Buffer).writableBytes := by
      unfold writableBytes at room ⊢
      rwa [length]
    rw [fill, copied, ok_bind, hasWritten, assertThat_of writable, ok_bind,
      addSize_eq (show b.writerIndex + data.length ≤ kMaxSize by omega)]
    rfl
  · rw [same, readAt_add, begin_eq, back, frame _ _ (Or.inl (by omega))]
    rfl

theorem append_spec (inv : b.Inv) {data : Bytes} (room : b.HasRoom data.length) :
    ∃ after, b.append data = .ok after ∧ after.Inv ∧ after.readable = b.readable ++ data := by
  obtain ⟨wide, made, inv', same, enough⟩ := ensureWritableBytes_spec inv room
  obtain ⟨after, filled, inv'', added⟩ := fill_spec inv' enough
  refine ⟨after, ?_, inv'', by rw [added, same]⟩
  rw [append, made, ok_bind, filled]

theorem retrieveAll_spec (inv : b.Inv) : b.retrieveAll.Inv ∧ b.retrieveAll.readable = [] := by
  obtain ⟨inv', same⟩ := @inv_of b.buffer kCheapPrepend kCheapPrepend 0 rfl inv.reserved
    inv.reserved inv.size_le
  exact ⟨inv', same⟩

theorem retrieve_spec (inv : b.Inv) {len : ℕ} (allowed : len ≤ b.readableBytes) :
    ∃ after, b.retrieve len = .ok after ∧ after.Inv ∧ after.readable = b.readable.drop len := by
  obtain ⟨parts, small⟩ := inv.bounds
  have most := inv.size_le
  have begin_eq := inv.reader_add
  rw [retrieve, assertThat_of allowed, ok_bind]
  by_cases part : len < b.readableBytes
  · obtain ⟨inv', same⟩ := @inv_of b.buffer (b.readerIndex + len) b.writerIndex
      (b.readableBytes - len) (by omega) inv.writer_le inv.reserved most
    rw [if_pos part, addSize_eq (by omega)]
    refine ⟨_, rfl, inv', ?_⟩
    rw [same, readable, drop_readAt]
  · have all : len = b.readableBytes := Nat.le_antisymm allowed (Nat.le_of_not_lt part)
    obtain ⟨inv', same⟩ := retrieveAll_spec inv
    rw [if_neg part]
    refine ⟨_, rfl, inv', ?_⟩
    rw [same, all, ← inv.length_readable, List.drop_length]

theorem unwrite_spec (inv : b.Inv) {len : ℕ} (allowed : len ≤ b.readableBytes) :
    ∃ after, b.unwrite len = .ok after ∧ after.Inv ∧
      after.readable = b.readable.take (b.readable.length - len) := by
  have most := inv.size_le
  have inside := inv.writer_le
  have begin_eq := inv.reader_add
  obtain ⟨inv', same⟩ := @inv_of b.buffer b.readerIndex (b.writerIndex - len)
    (b.readableBytes - len) (by omega) (by omega) inv.reserved most
  rw [unwrite, assertThat_of allowed, ok_bind, subSize_eq (by omega) (by omega)]
  refine ⟨_, rfl, inv', ?_⟩
  rw [same, inv.length_readable, readable, take_readAt _ _ (Nat.sub_le _ _)]

theorem prepend_spec (inv : b.Inv) {data : Bytes} (allowed : data.length ≤ b.prependableBytes) :
    ∃ after, b.prepend data = .ok after ∧ after.Inv ∧ after.readable = data ++ b.readable := by
  have most := inv.size_le
  have inside := inv.writer_le
  have reserved := inv.reserved
  have begin_eq := inv.reader_add
  have front : data.length ≤ b.readerIndex := allowed
  obtain ⟨filled, copied, length, back, frame⟩ :=
    copyTo_spec (show b.readerIndex - data.length + data.length ≤ b.buffer.length by omega)
  obtain ⟨inv', same⟩ := @inv_of filled (b.readerIndex - data.length) b.writerIndex
    (data.length + b.readableBytes) (by omega) (by omega) (by omega) (by omega)
  rw [prepend, assertThat_of allowed, ok_bind]
  simp only
  rw [subSize_eq front (by omega), copied]
  refine ⟨_, rfl, inv', ?_⟩
  rw [same, readAt_add, back, Nat.sub_add_cancel front, frame _ _ (Or.inr (by omega))]
  rfl

/-! ### New buffers -/

/-- A fresh buffer is empty. -/
theorem create_spec {initialSize : ℕ} (small : kCheapPrepend + initialSize ≤ kMaxSize) :
    ∃ b, create initialSize = .ok b ∧ b.Inv ∧ b.readable = [] ∧ b.writableBytes = initialSize := by
  have length : (List.replicate (kCheapPrepend + initialSize) (0 : UInt8)).length =
      kCheapPrepend + initialSize := List.length_replicate
  obtain ⟨inv, same⟩ := @inv_of (List.replicate (kCheapPrepend + initialSize) 0) kCheapPrepend
    kCheapPrepend 0 rfl (by omega) (by omega) (by omega)
  have none := inv.readableBytes_eq.trans (Nat.sub_self kCheapPrepend)
  have room := inv.writableBytes_eq
  rw [length, Nat.add_sub_cancel_left] at room
  refine ⟨_, ?_, inv, same, room⟩
  rw [create, addSize_eq small, newVector_of small, ok_bind]
  simp only
  rw [assertThat_of none, ok_bind, assertThat_of room, ok_bind]
  rfl

theorem initial_fits : kCheapPrepend + kInitialSize ≤ kMaxSize := by
  unfold kCheapPrepend kInitialSize kMaxSize
  omega

/-- **`shrink` keeps as many bytes as the cast to `int` leaves.** -/
theorem shrink_spec {reserve : ℕ} (positive : b.readableBytes % 2 ^ 32 < 2 ^ 31)
    (fits : kCheapPrepend + addSize b.readableBytes reserve ≤ kMaxSize) :
    ∃ after, b.shrink reserve = .ok after ∧ after.Inv ∧
      after.readable = b.readable.take (b.readableBytes % 2 ^ 32) := by
  obtain ⟨fresh, created, inv₀, empty, _⟩ := create_spec initial_fits
  obtain ⟨wide, made, inv₁, same, _⟩ :=
    ensureWritableBytes_spec inv₀ (hasRoom_of_empty inv₀ empty fits)
  have few : b.readableBytes % 2 ^ 32 ≤ b.readableBytes := Nat.mod_le _ _
  have piece := take_readAt b.buffer b.readerIndex few
  have count : (readAt b.buffer b.readerIndex (b.readableBytes % 2 ^ 32)).length < 2 ^ 31 := by
    rw [readAt, List.length_take]
    exact Nat.lt_of_le_of_lt (Nat.min_le_left _ _) positive
  have room : wide.HasRoom (readAt b.buffer b.readerIndex (b.readableBytes % 2 ^ 32)).length := by
    refine hasRoom_of_empty inv₁ (same.trans empty) ?_
    unfold kCheapPrepend kMaxSize
    omega
  obtain ⟨after, added, inv₂, result⟩ := append_spec inv₁ room
  refine ⟨after, ?_, inv₂, by rw [result, same, empty, List.nil_append, ← piece]; rfl⟩
  rw [shrink, created, ok_bind, made, ok_bind, toStringPiece, if_pos positive, ok_bind, added]

/-- A `shrink` that keeps the readable bytes was one of less than `2 ^ 31`. -/
theorem fits_of_shrink (inv : b.Inv) {reserve : ℕ} (done : b.shrink reserve = .ok after)
    (same : after.readable = b.readable) :
    b.readableBytes < 2 ^ 31 ∧ kCheapPrepend + addSize b.readableBytes reserve ≤ kMaxSize := by
  obtain ⟨fresh, created, inv₀, empty, initial⟩ := create_spec initial_fits
  have steps := done
  rw [shrink, created, ok_bind] at steps
  obtain ⟨wide, made, steps⟩ := bind_eq_ok steps
  obtain ⟨piece, text, _⟩ := bind_eq_ok steps
  have room : kCheapPrepend + addSize b.readableBytes reserve ≤ kMaxSize := by
    rcases hasRoom_of_ensureWritableBytes inv₀ (Nat.mod_lt _ (by decide)) made with short | fits
    · rw [initial] at short
      exact Nat.le_trans (Nat.add_le_add_left short _) initial_fits
    · rwa [inv₀.readableBytes_eq_zero empty, Nat.add_zero] at fits
  have positive : b.readableBytes % 2 ^ 32 < 2 ^ 31 := by
    by_contra negative
    rw [toStringPiece, if_neg negative] at text
    cases text
  obtain ⟨after', done', _, cut⟩ := shrink_spec positive room
  rw [done] at done'
  cases done'
  -- the cast has cut nothing off
  have count := congrArg List.length (same.symm.trans cut)
  rw [List.length_take, inv.length_readable] at count
  exact ⟨by omega, room⟩

end Buffer

/-! ### Operations on the queue -/

namespace BufferOp

/-- What an operation is for. -/
def apply (queue : Bytes) : BufferOp → Bytes
  | .append data => queue ++ data
  | .retrieve len => queue.drop len
  | .retrieveAll => []
  | .hasWritten _ data => queue ++ data
  | .unwrite len => queue.take (queue.length - len)
  | .prepend data => data ++ queue
  | .shrink _ => queue

/-- What a caller has to see to: lengths within what there is, and numbers that are a `size_t`. -/
def Allowed (b : Buffer) : BufferOp → Prop
  | .append data => data.length < 2 ^ 64
  | .retrieve len => len ≤ b.readableBytes
  | .retrieveAll => True
  | .hasWritten room data => room < 2 ^ 64 ∧ data.length ≤ room
  | .unwrite len => len ≤ b.readableBytes
  | .prepend data => data.length ≤ b.prependableBytes
  | .shrink reserve => reserve < 2 ^ 64

/-- What the code needs beyond that. -/
def Fits (b : Buffer) : BufferOp → Prop
  | .append data => b.HasRoom data.length
  | .hasWritten room _ => b.HasRoom room
  | .shrink reserve =>
    b.readableBytes < 2 ^ 31 ∧ kCheapPrepend + addSize b.readableBytes reserve ≤ kMaxSize
  | .retrieve _ | .retrieveAll | .unwrite _ | .prepend _ => True

instance (b : Buffer) : (op : BufferOp) → Decidable (op.Allowed b)
  | .append data => inferInstanceAs (Decidable (data.length < 2 ^ 64))
  | .retrieve len => inferInstanceAs (Decidable (len ≤ b.readableBytes))
  | .retrieveAll => inferInstanceAs (Decidable True)
  | .hasWritten room data => inferInstanceAs (Decidable (room < 2 ^ 64 ∧ data.length ≤ room))
  | .unwrite len => inferInstanceAs (Decidable (len ≤ b.readableBytes))
  | .prepend data => inferInstanceAs (Decidable (data.length ≤ b.prependableBytes))
  | .shrink reserve => inferInstanceAs (Decidable (reserve < 2 ^ 64))

instance (b : Buffer) : (op : BufferOp) → Decidable (op.Fits b)
  | .append data => inferInstanceAs (Decidable (b.HasRoom data.length))
  | .hasWritten room _ => inferInstanceAs (Decidable (b.HasRoom room))
  | .shrink reserve => inferInstanceAs (Decidable (b.readableBytes < 2 ^ 31 ∧
      kCheapPrepend + addSize b.readableBytes reserve ≤ kMaxSize))
  | .retrieve _ | .retrieveAll | .unwrite _ | .prepend _ => inferInstanceAs (Decidable True)

end BufferOp

section Operations

variable {b after : Buffer} {op : BufferOp}

/-- An operation that fits does what it is for. -/
theorem perform_spec (inv : b.Inv) (allowed : op.Allowed b) (fits : op.Fits b) :
    ∃ after, b.perform op = .ok after ∧ after.Inv ∧ after.readable = op.apply b.readable := by
  cases op with
  | append data => exact Buffer.append_spec inv fits
  | retrieve len => exact Buffer.retrieve_spec inv allowed
  | retrieveAll =>
    obtain ⟨inv', none⟩ := Buffer.retrieveAll_spec inv
    exact ⟨_, rfl, inv', none⟩
  | hasWritten room data =>
    obtain ⟨wide, made, inv', same, enough⟩ := Buffer.ensureWritableBytes_spec inv fits
    obtain ⟨after, filled, inv'', added⟩ := Buffer.fill_spec inv' (Nat.le_trans allowed.2 enough)
    refine ⟨after, ?_, inv'', by rw [added, same]; rfl⟩
    rw [Buffer.perform, made, ok_bind, filled]
  | unwrite len => exact Buffer.unwrite_spec inv allowed
  | prepend data => exact Buffer.prepend_spec inv allowed
  | shrink reserve =>
    obtain ⟨few, room⟩ := fits
    have whole : b.readableBytes % 2 ^ 32 = b.readableBytes := Nat.mod_eq_of_lt (by omega)
    obtain ⟨after, done, inv', cut⟩ := Buffer.shrink_spec (by rwa [whole]) room
    refine ⟨after, done, inv', ?_⟩
    rw [cut, whole, ← inv.length_readable, List.take_length]
    rfl

/-- An operation that does what it is for fits. -/
theorem fits_of_perform (inv : b.Inv) (allowed : op.Allowed b) (done : b.perform op = .ok after)
    (right : after.readable = op.apply b.readable) : op.Fits b := by
  cases op with
  | append data =>
    obtain ⟨wide, made, _⟩ := bind_eq_ok done
    exact Buffer.hasRoom_of_ensureWritableBytes inv allowed made
  | hasWritten room data =>
    obtain ⟨wide, made, _⟩ := bind_eq_ok done
    exact Buffer.hasRoom_of_ensureWritableBytes inv allowed.1 made
  | shrink reserve => exact Buffer.fits_of_shrink inv done right
  | retrieve len => trivial
  | retrieveAll => trivial
  | unwrite len => trivial
  | prepend data => trivial

/-- **An operation ends without a fault and does what it is for exactly if it fits.** -/
theorem perform_iff (inv : b.Inv) (allowed : op.Allowed b) :
    (∃ after, b.perform op = .ok after ∧ after.Inv ∧ after.readable = op.apply b.readable) ↔
      op.Fits b :=
  ⟨fun ⟨_, done, _, right⟩ => fits_of_perform inv allowed done right, perform_spec inv allowed⟩

end Operations

/-! ### Runs -/

/-- A buffer, and the list that the operations so far have made. -/
structure QueueRun where
  buffer : Buffer
  queue : Bytes
deriving DecidableEq, Repr

namespace QueueRun

def next (run : QueueRun) (op : BufferOp) : Option QueueRun :=
  match run.buffer.perform op with
  | .ok after => some ⟨after, op.apply run.queue⟩
  | .error _ => none

/-- The caller sees to its part. -/
def Calls (run : QueueRun) (op : BufferOp) : Prop := op.Allowed run.buffer

/-- The caller sees to its part, and the operation fits. -/
def Within (run : QueueRun) (op : BufferOp) : Prop := op.Allowed run.buffer ∧ op.Fits run.buffer

instance (run : QueueRun) (op : BufferOp) : Decidable (run.Within op) :=
  inferInstanceAs (Decidable (_ ∧ _))

theorem next_of_perform {run : QueueRun} {op : BufferOp} {after : Buffer}
    (done : run.buffer.perform op = .ok after) :
    run.next op = some ⟨after, op.apply run.queue⟩ := by
  rw [next, done]

/-- The indexes are in order, and the readable bytes are the list. -/
def Agrees (run : QueueRun) : Prop := run.buffer.Inv ∧ run.buffer.readable = run.queue

theorem agrees_next {run run' : QueueRun} {op : BufferOp} (agrees : run.Agrees)
    (within : run.Within op) (moved : run.next op = some run') : run'.Agrees := by
  obtain ⟨inv, same⟩ := agrees
  obtain ⟨after, done, inv', right⟩ := perform_spec inv within.1 within.2
  rw [next_of_perform done] at moved
  cases moved
  exact ⟨inv', by rw [right, same]⟩

end QueueRun

/-- **The buffer refines a queue.** In every state of a run whose operations fit, the indexes are in
order, the readable bytes are the list, `makeSpace` keeps them, and the next operation ends without
a fault and does what it is for exactly if it fits. -/
theorem buffer_refines_queue {initialSize : ℕ} (small : kCheapPrepend + initialSize ≤ kMaxSize)
    {start : Buffer} (fresh : Buffer.create initialSize = .ok start) {run : QueueRun}
    (reached : Reach QueueRun.next QueueRun.Within ⟨start, []⟩ run) :
    run.buffer.readerIndex ≤ run.buffer.writerIndex ∧
    run.buffer.writerIndex ≤ run.buffer.buffer.length ∧
    run.buffer.readable = run.queue ∧
    (∀ len, run.buffer.writableBytes < len →
      kCheapPrepend + run.buffer.readableBytes + len ≤ kMaxSize →
      ∃ after, run.buffer.makeSpace len = .ok after ∧ after.readable = run.queue) ∧
    ∀ op : BufferOp, op.Allowed run.buffer →
      ((∃ after, run.buffer.perform op = .ok after ∧ after.Inv ∧
        after.readable = op.apply run.queue) ↔ op.Fits run.buffer) := by
  obtain ⟨start', created, inv₀, empty, _⟩ := Buffer.create_spec small
  rw [fresh] at created
  cases created
  have initially : QueueRun.Agrees ⟨start, []⟩ := ⟨inv₀, empty⟩
  obtain ⟨inv, same⟩ := reached.invariant initially fun _ _ _ => QueueRun.agrees_next
  refine ⟨inv.reader_le, inv.writer_le, same, fun len short fits => ?_, fun op allowed => ?_⟩
  · obtain ⟨after, made, _, kept, _⟩ := Buffer.makeSpace_spec inv short fits
    exact ⟨after, made, kept.trans same⟩
  · rw [← same]
    exact perform_iff inv allowed

/-- The second `append` moves the bytes to the front, the third needs a new vector. -/
def queueOps : List BufferOp :=
  [.append [1, 2, 3], .retrieve 2, .append [4, 5, 6], .prepend [9, 8], .append [7], .unwrite 2,
    .hasWritten 3 [1, 2], .shrink 1]

theorem buffer_refines_queue_sample :
    ∃ start run, Buffer.create 4 = .ok start ∧
      play QueueRun.next QueueRun.Within ⟨start, []⟩ queueOps = some run ∧
      run.queue = [9, 8, 3, 4, 5, 1, 2] ∧ run.buffer.readable = run.queue := by
  have fresh : Buffer.create 4 = .ok ⟨List.replicate 12 0, 8, 8⟩ := rfl
  have shape : (play QueueRun.next QueueRun.Within ⟨⟨List.replicate 12 0, 8, 8⟩, []⟩ queueOps).map
      (fun run => run.queue) = some [9, 8, 3, 4, 5, 1, 2] := by
    decide +kernel
  obtain ⟨run, done, queue⟩ := Option.map_eq_some_iff.mp shape
  exact ⟨_, run, fresh, done, queue,
    (buffer_refines_queue (by decide +kernel) fresh (Reach.of_play .start done)).2.2.1⟩

/-- As many bytes as the cast to `int` takes for none. -/
theorem shrink_of_wrapped {b : Buffer} (count : b.readableBytes = 2 ^ 32) :
    ∃ after, b.shrink 0 = .ok after ∧ after.readable = [] := by
  have wrapped : b.readableBytes % 2 ^ 32 = 0 := by rw [count, Nat.mod_self]
  have size : addSize b.readableBytes 0 = 2 ^ 32 := by rw [count]; rfl
  obtain ⟨after, done, _, cut⟩ := @Buffer.shrink_spec b 0
    (by rw [wrapped]; exact Nat.two_pow_pos 31)
    (by rw [size]; unfold kCheapPrepend kMaxSize; omega)
  exact ⟨after, done, by rw [cut, wrapped, List.take_zero]⟩

/-- **`shrink` loses bytes**: `2 ^ 32` of them are appended to a new buffer, and after the `shrink`
none is left. -/
theorem shrink_loses_bytes :
    ∃ start run, Buffer.create kInitialSize = .ok start ∧
      Reach QueueRun.next QueueRun.Calls ⟨start, []⟩ run ∧
      run.queue.length = 2 ^ 32 ∧ run.buffer.readable = [] ∧ run.buffer.readable ≠ run.queue := by
  obtain ⟨start, fresh, inv₀, empty, _⟩ := Buffer.create_spec Buffer.initial_fits
  have length : (List.replicate (2 ^ 32) (0 : UInt8)).length = 2 ^ 32 := List.length_replicate
  have room : start.HasRoom (List.replicate (2 ^ 32) (0 : UInt8)).length := by
    refine Buffer.hasRoom_of_empty inv₀ empty ?_
    rw [length]
    unfold kCheapPrepend kMaxSize
    omega
  obtain ⟨filled, appended, inv₁, added⟩ := Buffer.append_spec inv₀ room
  rw [empty, List.nil_append] at added
  have count := inv₁.length_readable
  rw [added, length] at count
  obtain ⟨after, shrunk, gone⟩ := shrink_of_wrapped count.symm
  have first : Reach QueueRun.next QueueRun.Calls ⟨start, []⟩
      ⟨filled, [] ++ List.replicate (2 ^ 32) 0⟩ :=
    Reach.start.step (.append (List.replicate (2 ^ 32) 0))
      (show (List.replicate (2 ^ 32) (0 : UInt8)).length < 2 ^ 64 by rw [length]; omega)
      (QueueRun.next_of_perform appended)
  refine ⟨start, _, fresh, first.step (.shrink 0) (Nat.two_pow_pos 64)
    (QueueRun.next_of_perform shrunk), ?_, gone, ?_⟩
  · exact length
  · intro same
    have lengths := congrArg List.length (gone.symm.trans same)
    rw [List.length_nil] at lengths
    exact absurd (lengths.trans length) (by omega)

end EtherAdapter
