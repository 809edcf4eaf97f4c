/-
**The simulated Modbus device** (`tests/modbus_sim.cpp`), and the loop it closes with the poller.

The device takes the polling links one after another. On a link it receives requests of twelve
bytes, in as many pieces as `recv` gives, and pushes the response to each over a link of its own to
the ingest port, with one reconnect where that fails. The response has the header of the mode and
the registers of the request's number.

`PollingLoop` is a device thread of the poller and the device with the links between them. What the
system calls return is in the events: how far a request gets before the link breaks, how many bytes
`recv` gives, whether a push gets through.
-/

import EtherAdapter.Model.Decode
import EtherAdapter.Model.Poller

namespace EtherAdapter

/-! ### Responses -/

def put16 (v : UInt16) : Bytes := [(v >>> 8).toUInt8, (v &&& 0xFF).toUInt8]

def get16 (high low : UInt8) : UInt16 := (high.toUInt16 <<< 8) ||| low.toUInt16

/-- The options of `main` that its loop reads. -/
structure SimOptions where
  count : ℕ := 3
  mode : Int := 9
  baseValue : Int := 1000
deriving DecidableEq, Repr

namespace SimOptions

/-- `regs`: as many registers as asked for, or two. -/
def registerCount (readCount : ℕ) : ℕ := if 0 < readCount ∧ readCount ≤ 64 then readCount else 2

/-- The registers of the `k`-th response, big endian. -/
def registers (options : SimOptions) (k count : ℕ) : Bytes :=
  (List.range count).flatMap fun (i : ℕ) =>
    put16 (UInt16.ofInt (if i = 0 then options.baseValue + k else options.baseValue + 100 + i + k))

/-- The header of a response, by `mode`. -/
def header (options : SimOptions) (tid : UInt16) (unit funCode : UInt8) (dataBytes : ℕ) : Bytes :=
  if options.mode = 9 then
    put16 tid ++ put16 0 ++ put16 (UInt16.ofNat (3 + dataBytes)) ++
      [unit, funCode, UInt8.ofNat dataBytes]
  else if options.mode = 7 then
    put16 tid ++ put16 0 ++ put16 (UInt16.ofNat (1 + dataBytes)) ++ [unit]
  else if options.mode = 2 then [funCode, UInt8.ofNat dataBytes]
  else []

/-- `resp`, for the `k`-th request. -/
def respond (options : SimOptions) (k : ℕ) (req : Bytes) : Bytes :=
  let readCount := get16 (byteAt req 10) (byteAt req 11)
  let regs := registerCount readCount.toNat
  options.header (get16 (byteAt req 0) (byteAt req 1)) (byteAt req 6) (byteAt req 7) (regs * 2) ++
    options.registers k regs

end SimOptions

/-! ### Pushes -/

/-- What the system calls of a push return: whether `connect` succeeds, where there is no push link,
and how many bytes `send` takes. -/
structure PushAttempt where
  connects : Bool := true
  taken : ℕ
deriving DecidableEq, Repr

/-- `modbus_sim`, in its loop. -/
inductive SimPc where
  | accepting
  | receiving
  | done
deriving DecidableEq, Repr

structure ModbusSim where
  pc : SimPc
  /-- The bytes of the request so far. -/
  got : Bytes := []
  served : ℕ := 0
  /-- `pushSock` is valid. -/
  pushOpen : Bool := false
  /-- The bytes that went out on each push link. -/
  pushLinks : List Bytes := []
deriving DecidableEq, Repr

namespace ModbusSim

/-- `ensurePush`: the push link is there, or it is set up if `connect` succeeds. -/
def ensurePush (sim : ModbusSim) (connects : Bool) : ModbusSim :=
  if sim.pushOpen = true then sim
  else if connects = true then { sim with pushOpen := true, pushLinks := sim.pushLinks ++ [[]] }
  else sim

/-- `sendAll`, on the push link. -/
def sendAll (sim : ModbusSim) (resp : Bytes) (taken : ℕ) : ModbusSim × Bool :=
  ({ sim with pushLinks := sim.pushLinks.modifyLast (· ++ resp.take taken) },
    decide (resp.length ≤ taken))

/-- `ensurePush() && sendAll(pushSock, resp)`. -/
def push (sim : ModbusSim) (resp : Bytes) (attempt : PushAttempt) : ModbusSim × Bool :=
  let sim := sim.ensurePush attempt.connects
  if sim.pushOpen = true then sim.sendAll resp attempt.taken else (sim, false)

/-- A push, and once more over a new link where it fails. -/
def pushTwice (sim : ModbusSim) (resp : Bytes) (first second : PushAttempt) : ModbusSim × Bool :=
  match sim.push resp first with
  | (sim, true) => (sim, true)
  | (sim, false) => { sim with pushOpen := false }.push resp second

end ModbusSim

/-! ### The closed loop -/

/-- A link from the poller to the device, by its number among the thread's connections. -/
structure PollLink where
  number : ℕ
  unread : Bytes := []
  /-- The poller has closed it. -/
  closed : Bool := false
deriving DecidableEq, Repr

/-- The poller writes to one of the links, or closes it. -/
def PollLink.written (number : ℕ) (bytes : Bytes) (closes : Bool) (link : PollLink) : PollLink :=
  if link.number = number then
    { link with unread := link.unread ++ bytes, closed := link.closed || closes }
  else link

structure PollingLoop where
  options : SimOptions
  thread : DeviceThread
  /-- The links that the device has not closed. It serves the first one. -/
  links : List PollLink := []
  sim : ModbusSim
  /-- The requests that were answered. -/
  answered : List Bytes := []
deriving DecidableEq, Repr

inductive PollingEvent where
  /-- A pass of the thread; that many bytes of its request go out. -/
  | poll (outcome : PollPass) (went : ℕ)
  | stop
  /-- `accept` returns the next link. -/
  | accept
  /-- `recv` returns that many bytes, or none any more. -/
  | receive (n : ℕ)
  | hangUp
  /-- The response to a request is pushed. -/
  | respond (first second : PushAttempt)
deriving DecidableEq, Repr

namespace PollingLoop

/-- Before anything has happened. -/
def start (options : SimOptions) (session : Session) : PollingLoop where
  options
  thread := { session }
  sim := { pc := if 0 < options.count then .accepting else .done }

/-- What the thread has done is done to its link. -/
def afterThread (s : PollingLoop) (thread : DeviceThread) (went : ℕ) : PollingLoop :=
  let opened := if s.thread.conns < thread.conns then s.links ++ [{ number := thread.conns }]
    else s.links
  let request := (thread.requests.drop s.thread.requests.length).flatten
  { s with
    thread
    links := opened.map (PollLink.written thread.conns (request.take went) (!thread.connected)) }

/-- The device leaves its link. -/
def leave (s : PollingLoop) : PollingLoop :=
  { s with
    links := s.links.tail
    sim := { s.sim with
      got := [], pc := if s.sim.served < s.options.count then .accepting else .done } }

/-- The response to the request in `req`. -/
def respond (s : PollingLoop) (first second : PushAttempt) : PollingLoop :=
  let resp := s.options.respond s.sim.served s.sim.got
  match s.sim.pushTwice resp first second with
  | (sim, false) => { s with sim }.leave
  | (sim, true) =>
    let s := { s with
      sim := { sim with served := sim.served + 1 }, answered := s.answered ++ [s.sim.got] }
    if s.sim.served < s.options.count then { s with sim := { s.sim with got := [] } }
    else s.leave

def next (s : PollingLoop) : PollingEvent → Option PollingLoop
  | .poll outcome went =>
    (s.thread.next (.pass outcome)).map fun thread => s.afterThread thread went
  | .stop => (s.thread.next .stop).map fun thread => s.afterThread thread 0
  | .accept =>
    if s.sim.pc = .accepting ∧ s.links ≠ [] then
      some { s with sim := { s.sim with pc := .receiving } }
    else none
  | .receive n =>
    match s.links with
    | [] => none
    | link :: others =>
      if s.sim.pc = .receiving ∧ 0 < n ∧ n ≤ link.unread.length ∧ s.sim.got.length + n ≤ 12 then
        some { s with
          links := { link with unread := link.unread.drop n } :: others
          sim := { s.sim with got := s.sim.got ++ link.unread.take n } }
      else none
  | .hangUp => if s.sim.pc = .receiving ∧ s.sim.got.length < 12 then some s.leave else none
  | .respond first second =>
    if s.sim.pc = .receiving ∧ s.sim.got.length = 12 then some (s.respond first second) else none

end PollingLoop

end EtherAdapter
