/-
**Modbus polling** (`ModbusPoller.cpp`: `buildRequest`, `ModbusPoller::start`, `runDevice`).

`start` opens one session for every device it can poll; `buildRequest` writes the next request of a
session. Each session has a thread, `runDevice`: one pass through its loop connects where there is
no link, builds a request, sends it, and reads off what has come back. What the system calls return
is the pass's input (`PollPass`); waiting takes no part in it.

* `requestedRegisters_buildRequest` — the read a request asks for is `addr_num` registers, as far as
  two bytes can say it.
-/

import EtherAdapter.Model.Device

namespace EtherAdapter

/-- The low byte of an `int`. -/
def lowByte (value : Int) : UInt8 := UInt8.ofInt value

/-- `buildRequest`: twelve bytes, and the transaction id of the next request. -/
def buildRequest (tid : UInt16) (spec : FrameSpec) : Bytes × UInt16 :=
  let t := if tid = 0xFF then 1 else tid
  ([(t >>> 8).toUInt8, (t &&& 0xFF).toUInt8, 0x00, 0x00, 0x00, 0x06,
      lowByte spec.slaveAddr, lowByte spec.funCode,
      lowByte (spec.startAddr >>> (8 : ℕ)), lowByte spec.startAddr,
      lowByte (spec.addrNum >>> (8 : ℕ)), lowByte spec.addrNum],
    t + 1)

/-- A device's polling session. -/
structure Session where
  dev : DevicePtr
  tid : UInt16 := 1
deriving DecidableEq, Repr

/-- The devices `ModbusPoller::start` accepts. -/
def DeviceDesc.pollable (device : DeviceDesc) : Bool :=
  device.connProto = connModbus ∧ device.spec.hasModbusRequest ∧ device.spec.fields ≠ [] ∧
    device.spec.isModbusHeaderLen

/-- `ModbusPoller::start`: the sessions it opens, in device order. -/
def startPoller (devices : List DevicePtr) : List Session :=
  (devices.filter fun dev => dev.desc.pollable).map fun dev => { dev }

/-- The number of registers a request asks for. -/
def requestedRegisters (request : Bytes) : ℕ :=
  match request.drop 10 with
  | high :: low :: _ => high.toNat * 256 + low.toNat
  | _ => 0

/-! ### The device thread -/

/-- What the system calls of one pass through the loop of `runDevice` return, and whether the poller
is still running when it looks again. A link that `stop` has closed meanwhile sends 0 bytes. -/
structure PollPass where
  connects : Bool := true
  running : Bool := true
  sentLen : Int := 12
  received : List Int := []
deriving DecidableEq, Repr

/-- A session with the other variables of its thread. `requests` are the requests built so far. -/
structure DeviceThread where
  session : Session
  running : Bool := true
  connected : Bool := false
  failStreak : ℕ := 0
  sent : ℕ := 0
  conns : ℕ := 0
  errors : ℕ := 0
  pushedBack : ℕ := 0
  requests : List Bytes := []
deriving DecidableEq, Repr

namespace DeviceThread

/-- `drainIncoming`, on the results of its `recv` calls. -/
def drainIncoming (thread : DeviceThread) : List Int → DeviceThread
  | [] => thread
  | n :: later =>
    if n ≤ 0 then { thread with connected := false }
    else drainIncoming { thread with pushedBack := thread.pushedBack + n.toNat } later

/-- A request is built, and the transaction id moves on. -/
def build (thread : DeviceThread) : DeviceThread :=
  let (request, tid) := buildRequest thread.session.tid thread.session.dev.desc.spec
  { thread with
    session := { thread.session with tid := tid }, requests := thread.requests ++ [request] }

/-- The link is there, or it is set up. -/
def link (thread : DeviceThread) : DeviceThread :=
  if thread.connected then thread
  else { thread with failStreak := 0, connected := true, conns := thread.conns + 1 }

/-- One pass through the loop of `runDevice`. -/
def pass (thread : DeviceThread) (outcome : PollPass) : DeviceThread :=
  if thread.connected = false ∧ outcome.connects = false then
    { thread with errors := thread.errors + 1, failStreak := thread.failStreak + 1 }
  else if outcome.running = false then { thread.link with running := false, connected := false }
  else
    let built := thread.link.build
    if outcome.sentLen ≠ 12 then { built with errors := built.errors + 1, connected := false }
    else { built with sent := built.sent + 1 }.drainIncoming outcome.received

end DeviceThread

/-- A pass, or the poller's `stop`. -/
inductive PollEvent where
  | pass (outcome : PollPass)
  | stop
deriving DecidableEq, Repr

/-- A thread that has seen `_running` cleared makes no further pass. -/
def DeviceThread.next (thread : DeviceThread) : PollEvent → Option DeviceThread
  | .pass outcome => if thread.running then some (thread.pass outcome) else none
  | .stop => some { thread with running := false, connected := false }

theorem toNat_lowByte (value : Int) : ((lowByte value).toNat : Int) = value % 256 := by
  rw [lowByte, UInt8.ofInt, UInt8.toNat_ofNat']
  omega

/-- **A request asks for `addr_num` registers.** -/
theorem requestedRegisters_buildRequest (tid : UInt16) {spec : FrameSpec}
    (nonneg : 0 ≤ spec.addrNum) (small : spec.addrNum < 2 ^ 16) :
    (requestedRegisters (buildRequest tid spec).1 : Int) = spec.addrNum := by
  show (((lowByte (spec.addrNum >>> (8 : ℕ))).toNat * 256 +
    (lowByte spec.addrNum).toNat : ℕ) : Int) = _
  rw [Int.natCast_add, Int.natCast_mul, toNat_lowByte, toNat_lowByte, Int.shiftRight_eq_div_pow]
  omega

end EtherAdapter
