/-
**The simulated custom_data device** (`tests/device_sim.cpp`).

A device has one or more streams, each with a template of its frame: type, flags, length and a
payload of records. Before a frame is sent its records are written into the template, one behind the
other; the first field of every record is a counter that runs through all the streams. How many
bytes `send` takes is given; the device ends at the first frame that it does not take whole.

The options are given as `parseIntList` and `atoi` return them.
-/

import EtherAdapter.Memory.Basic
import EtherAdapter.Model.Feed

namespace EtherAdapter

open Memory

/-- The options of `main` that its loop reads. -/
structure DeviceSimOptions where
  frames : Int := 1000
  startValue : Int := 0
  records : Int := 1
  typeList : List Int := [0x0C]
  sizeList : List Int := [73]
  flagList : List Int := [0]
  endList : List Int := []
deriving DecidableEq, Repr

/-- What stands in for an option that says nothing. -/
def DeviceSimOptions.filled (options : DeviceSimOptions) : DeviceSimOptions :=
  { options with
    typeList := if options.typeList = [] then [0x0C] else options.typeList
    sizeList := if options.sizeList = [] then [73] else options.sizeList
    flagList := if options.flagList = [] then [0] else options.flagList
    records := if options.records < 1 then 1 else options.records }

/-- `Stream`: one template frame. -/
structure SimStream where
  frameType : Int
  leadFlag : Int
  endFlag : Int
  recordBytes : Int
  payloadBytes : ℕ
  frame : Bytes
deriving DecidableEq, Repr

namespace SimStream

/-- The trailing delimiter, where there is one. -/
def trailer (endFlag : Int) : Bytes := if endFlag ≠ 0 then [UInt8.ofInt endFlag] else []

/-- The six bytes in front of the payload. -/
def header (frameType leadFlag : Int) (payloadBytes : ℕ) : Bytes :=
  [UInt8.ofInt frameType, UInt8.ofInt leadFlag, UInt8.ofNat payloadBytes,
    UInt8.ofNat (payloadBytes >>> 8), 0, 0]

/-- The template of the `k`-th stream; a list that is too short goes on with its last value. -/
def make (options : DeviceSimOptions) (k : ℕ) (frameType : Int) : Option SimStream :=
  let recordBytes := options.sizeList.getD k (options.sizeList.getLastD 0)
  let leadFlag := options.flagList.getD k (options.flagList.getLastD 0)
  let endFlag := options.endList.getD k leadFlag
  let payloadBytes := recordBytes.toNat * options.records.toNat
  if recordBytes < 2 ∨ 65535 < kHeaderSize + payloadBytes + (trailer endFlag).length then none
  else some
    { frameType, leadFlag, endFlag, recordBytes, payloadBytes
      frame := header frameType leadFlag payloadBytes ++ List.replicate payloadBytes 0 ++
        trailer endFlag }

/-- All templates, or none. -/
def makeAll (options : DeviceSimOptions) : ℕ → List Int → Option (List SimStream)
  | _, [] => some []
  | k, frameType :: later =>
    match make options k frameType with
    | none => none
    | some st => (makeAll options (k + 1) later).map (st :: ·)

/-- A record: the counter, little endian, then a ramp. -/
def record (recordBytes i r : ℕ) (next : Int) : Bytes :=
  let v := Int.bmod next (2 ^ 32)
  UInt8.ofInt v :: UInt8.ofInt (v >>> (8 : ℕ)) ::
    (List.range (recordBytes - 2)).map fun k => UInt8.ofNat (i + (k + 2) + r)

/-- The records of the `i`-th frame. -/
def records (st : SimStream) (count i : ℕ) (next : Int) : List Bytes :=
  (List.range count).map fun r => record st.recordBytes.toNat i r (next + r)

/-- The template with the records of the `i`-th frame. -/
def fill (st : SimStream) (count i : ℕ) (next : Int) : SimStream :=
  { st with
    frame := writeEach st.recordBytes.toNat st.frame kHeaderSize (st.records count i next) }

end SimStream

/-- The loop of `main`: the counter, what was sent, and whether a `send` came short. -/
structure DeviceSim where
  streams : List SimStream
  next : Int
  sent : ℕ := 0
  wire : Bytes := []
  broken : Bool := false
deriving DecidableEq, Repr

namespace DeviceSim

/-- One pass: the `i`-th frame is filled and sent. -/
def pass (sim : DeviceSim) (count i taken : ℕ) : DeviceSim :=
  match sim.streams[i % sim.streams.length]? with
  | none => sim
  | some st =>
    if sim.broken then sim
    else
      let st := st.fill count i sim.next
      let sim :=
        { sim with
          streams := sim.streams.set (i % sim.streams.length) st
          next := sim.next + count
          wire := sim.wire ++ st.frame.take taken }
      if taken < st.frame.length then { sim with broken := true }
      else { sim with sent := sim.sent + 1 }

/-- The passes up to the `n`-th. -/
def passes (sim : DeviceSim) (count : ℕ) (taken : ℕ → ℕ) (n : ℕ) : DeviceSim :=
  (List.range n).foldl (fun sim i => sim.pass count i (taken i)) sim

end DeviceSim

/-- `main`, from the options on; a frame that cannot be ends it. -/
def DeviceSimOptions.run (options : DeviceSimOptions) (taken : ℕ → ℕ) : Option DeviceSim :=
  let options := options.filled
  (SimStream.makeAll options 0 options.typeList).map fun streams =>
    ({ streams, next := options.startValue } : DeviceSim).passes options.records.toNat taken
      options.frames.toNat

end EtherAdapter
