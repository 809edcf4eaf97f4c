/-
**The buffer of a connection** (`Buffer.h`).

A vector of bytes with a reader and a writer index: what lies between them is readable. Numbers are
`size_t`, so sums and differences are taken modulo `2 ^ 64`. An operation ends early with a
`BufferFault`: an assertion that fails, a `std::length_error` of the library, or a copy that leaves
the vector, which the code does not guard against.

That memory runs out (`std::bad_alloc`) is left out, and so is data that lies inside the buffer it is
appended to.
-/

import EtherAdapter.Memory.Basic
import EtherAdapter.Model.Device

namespace EtherAdapter

open Memory

/-! ### The library -/

inductive BufferFault where
  | assertion
  | lengthError
  | outOfRange
deriving DecidableEq, Repr

/-- `a + b` in `size_t`. -/
def addSize (a b : ℕ) : ℕ := (a + b) % 2 ^ 64

/-- `a - b` in `size_t`. -/
def subSize (a b : ℕ) : ℕ := (a + 2 ^ 64 - b) % 2 ^ 64

/-- The largest size of a vector or a string. -/
def kMaxSize : ℕ := 2 ^ 63 - 1

def assertThat (condition : Prop) [Decidable condition] : Except BufferFault Unit :=
  if condition then .ok () else .error .assertion

/-- `std::vector<char> buffer(n)`. -/
def newVector (n : ℕ) : Except BufferFault Bytes :=
  if n ≤ kMaxSize then .ok (List.replicate n 0) else .error .lengthError

/-- `std::copy` of bytes from elsewhere into a vector. -/
def copyTo (vector : Bytes) (off : ℕ) (data : Bytes) : Except BufferFault Bytes :=
  if off + data.length ≤ vector.length then .ok (writeAt vector off data) else .error .outOfRange

/-! ### The buffer -/

def kCheapPrepend : ℕ := 8

def kInitialSize : ℕ := 2048

structure Buffer where
  buffer : Bytes
  readerIndex : ℕ
  writerIndex : ℕ
deriving DecidableEq, Repr

namespace Buffer

def readableBytes (b : Buffer) : ℕ := subSize b.writerIndex b.readerIndex

def writableBytes (b : Buffer) : ℕ := subSize b.buffer.length b.writerIndex

def prependableBytes (b : Buffer) : ℕ := b.readerIndex

/-- The constructor. -/
def create (initialSize : ℕ) : Except BufferFault Buffer := do
  let vector ← newVector (addSize kCheapPrepend initialSize)
  let b : Buffer := ⟨vector, kCheapPrepend, kCheapPrepend⟩
  assertThat (b.readableBytes = 0)
  assertThat (b.writableBytes = initialSize)
  assertThat (b.prependableBytes = kCheapPrepend)
  return b

def retrieveAll (b : Buffer) : Buffer :=
  { b with readerIndex := kCheapPrepend, writerIndex := kCheapPrepend }

def retrieve (b : Buffer) (len : ℕ) : Except BufferFault Buffer := do
  assertThat (len ≤ b.readableBytes)
  if len < b.readableBytes then return { b with readerIndex := addSize b.readerIndex len }
  else return b.retrieveAll

/-- A new vector, or the readable bytes moved to the front of the old one. -/
def makeSpace (b : Buffer) (len : ℕ) : Except BufferFault Buffer := do
  let readable := b.readableBytes
  if addSize b.writableBytes b.prependableBytes < addSize len kCheapPrepend then
    let vector ← newVector (addSize (addSize len readable) kCheapPrepend)
    let vector ← copyTo vector kCheapPrepend (readAt b.buffer b.readerIndex readable)
    return ⟨vector, kCheapPrepend, addSize kCheapPrepend readable⟩
  else
    assertThat (kCheapPrepend < b.readerIndex)
    let after : Buffer :=
      ⟨slide b.buffer b.readerIndex kCheapPrepend readable, kCheapPrepend,
        addSize kCheapPrepend readable⟩
    assertThat (readable = after.readableBytes)
    return after

def ensureWritableBytes (b : Buffer) (len : ℕ) : Except BufferFault Buffer := do
  let after ← if b.writableBytes < len then b.makeSpace len else pure b
  assertThat (len ≤ after.writableBytes)
  return after

def hasWritten (b : Buffer) (len : ℕ) : Except BufferFault Buffer := do
  assertThat (len ≤ b.writableBytes)
  return { b with writerIndex := addSize b.writerIndex len }

def unwrite (b : Buffer) (len : ℕ) : Except BufferFault Buffer := do
  assertThat (len ≤ b.readableBytes)
  return { b with writerIndex := subSize b.writerIndex len }

/-- Bytes are copied to `beginWrite()`, and `hasWritten` is told. -/
def fill (b : Buffer) (data : Bytes) : Except BufferFault Buffer := do
  let vector ← copyTo b.buffer b.writerIndex data
  { b with buffer := vector }.hasWritten data.length

def append (b : Buffer) (data : Bytes) : Except BufferFault Buffer := do
  let b ← b.ensureWritableBytes data.length
  b.fill data

def prepend (b : Buffer) (data : Bytes) : Except BufferFault Buffer := do
  assertThat (data.length ≤ b.prependableBytes)
  let readerIndex := subSize b.readerIndex data.length
  let vector ← copyTo b.buffer readerIndex data
  return { b with buffer := vector, readerIndex := readerIndex }

/-- The number of bytes is cast to `int`; a negative one is no size of a string. -/
def toStringPiece (b : Buffer) : Except BufferFault Bytes :=
  let count := b.readableBytes % 2 ^ 32
  if count < 2 ^ 31 then .ok (readAt b.buffer b.readerIndex count) else .error .lengthError

def shrink (b : Buffer) (reserve : ℕ) : Except BufferFault Buffer := do
  let other ← create kInitialSize
  let other ← other.ensureWritableBytes (addSize b.readableBytes reserve)
  let piece ← b.toStringPiece
  other.append piece

end Buffer

/-! ### Operations -/

inductive BufferOp where
  | append (data : Bytes)
  | retrieve (len : ℕ)
  | retrieveAll
  /-- `ensureWritableBytes(room)`, bytes written to `beginWrite()`, and `hasWritten`. -/
  | hasWritten (room : ℕ) (data : Bytes)
  | unwrite (len : ℕ)
  | prepend (data : Bytes)
  | shrink (reserve : ℕ)
deriving DecidableEq, Repr

def Buffer.perform (b : Buffer) : BufferOp → Except BufferFault Buffer
  | .append data => b.append data
  | .retrieve len => b.retrieve len
  | .retrieveAll => .ok b.retrieveAll
  | .hasWritten room data => do (← b.ensureWritableBytes room).fill data
  | .unwrite len => b.unwrite len
  | .prepend data => b.prepend data
  | .shrink reserve => b.shrink reserve

end EtherAdapter
