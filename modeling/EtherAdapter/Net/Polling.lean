/-
**The requests of a polling session, over the whole run.**

`buildRequest` is called once in every pass that has a link, whatever becomes of the request
afterwards, and reconnecting leaves the transaction id alone. So the `k`-th request of a session is
the same in every run: `DeviceThread.Counted`, kept by every pass.

* `parseReadRequest` — a Modbus/TCP read request, taken apart.
* **`requests_iff`** — the `k`-th request carries transaction id `k % 254 + 1` and the configured
  read exactly if the configured numbers fit their one or two bytes. `ModbusPoller::start` checks
  them from below only (`startPoller_large_address`).
-/

import EtherAdapter.Runs.Basic
import EtherAdapter.Model.Poller

namespace EtherAdapter

open Runs

/-! ### Requests, read back -/

/-- A Modbus/TCP read request. -/
structure ReadRequest where
  transactionId : Int
  protocolId : Int
  length : Int
  unit : Int
  functionCode : Int
  startAddress : Int
  registerCount : Int
deriving DecidableEq, Repr

/-- A 16-bit number, the high byte first. -/
def be16 (high low : UInt8) : Int := high.toNat * 256 + low.toNat

/-- The seven fields of a request of twelve bytes. -/
def parseReadRequest : Bytes → Option ReadRequest
  | [t₁, t₀, p₁, p₀, l₁, l₀, unit, code, s₁, s₀, n₁, n₀] =>
    some ⟨be16 t₁ t₀, be16 p₁ p₀, be16 l₁ l₀, unit.toNat, code.toNat, be16 s₁ s₀, be16 n₁ n₀⟩
  | _ => none

theorem be16_lowByte (value : Int) :
    be16 (lowByte (value >>> (8 : ℕ))) (lowByte value) = value % 65536 := by
  rw [be16, toNat_lowByte, toNat_lowByte, Int.shiftRight_eq_div_pow]
  omega

theorem be16_uint16 (t : UInt16) : be16 (t >>> 8).toUInt8 (t &&& 0xFF).toUInt8 = t.toNat := by
  have bound := t.toNat_lt
  have high : (t >>> 8).toUInt8.toNat = t.toNat / 256 % 256 := by
    rw [UInt16.toNat_toUInt8, UInt16.toNat_shiftRight, Nat.shiftRight_eq_div_pow]
    rfl
  have low : (t &&& 0xFF).toUInt8.toNat = t.toNat % 256 := by
    rw [UInt16.toNat_toUInt8, UInt16.toNat_and]
    exact (congrArg (· % 2 ^ 8) (Nat.and_two_pow_sub_one_eq_mod t.toNat 8)).trans (Nat.mod_mod _ _)
  rw [be16, high, low]
  omega

/-- The transaction id of the next request. -/
def nextId (tid : UInt16) : UInt16 := if tid = 0xFF then 1 else tid

/-- **What a request says**, in the bytes it has for it. -/
theorem parseReadRequest_buildRequest (tid : UInt16) (spec : FrameSpec) :
    parseReadRequest (buildRequest tid spec).1 =
      some ⟨(nextId tid).toNat, 0, 6, spec.slaveAddr % 256, spec.funCode % 256,
        spec.startAddr % 65536, spec.addrNum % 65536⟩ := by
  show some (ReadRequest.mk (be16 _ _) _ _ _ _ (be16 _ _) (be16 _ _)) = _
  rw [be16_lowByte, be16_lowByte, be16_uint16, toNat_lowByte, toNat_lowByte]
  rfl

/-! ### The session over a run -/

/-- The requests of a session, counted: the `k`-th one has the `k`-th transaction id. -/
structure DeviceThread.Counted (spec : FrameSpec) (thread : DeviceThread) : Prop where
  spec_eq : thread.session.dev.desc.spec = spec
  next_eq : (nextId thread.session.tid).toNat = thread.requests.length % 254 + 1
  requests : ∀ (k : ℕ) request, thread.requests[k]? = some request →
    ∃ tid, request = (buildRequest tid spec).1 ∧ (nextId tid).toNat = k % 254 + 1

/-- The id after an id: 254 is followed by 1. -/
theorem nextId_succ {tid : UInt16} {n : ℕ} (here : (nextId tid).toNat = n % 254 + 1) :
    (nextId (nextId tid + 1)).toNat = (n + 1) % 254 + 1 := by
  have sum : (nextId tid + 1).toNat = n % 254 + 2 := by
    rw [UInt16.toNat_add, here]
    show (n % 254 + 1 + 1) % 65536 = n % 254 + 2
    omega
  rw [nextId]
  by_cases last : nextId tid + 1 = 0xFF
  · have wrapped : n % 254 + 2 = 255 := by
      rw [← sum, last]
      rfl
    rw [if_pos last]
    show 1 = _
    omega
  · have before : n % 254 + 2 ≠ 255 := fun same =>
      last (UInt16.toNat_inj.mp (sum.trans same))
    rw [if_neg last, sum]
    omega

namespace DeviceThread.Counted

variable {spec : FrameSpec} {thread : DeviceThread}

/-- Only a new request or another id can break the count. -/
theorem of_same (counted : thread.Counted spec) {other : DeviceThread}
    (session : other.session = thread.session) (requests : other.requests = thread.requests) :
    other.Counted spec := by
  obtain ⟨spec_eq, next_eq, earlier⟩ := counted
  exact ⟨by rw [session, spec_eq], by rw [session, requests, next_eq], by rwa [requests]⟩

theorem start {session : Session} (fresh : session.tid = 1) :
    ({ session } : DeviceThread).Counted session.dev.desc.spec where
  spec_eq := rfl
  next_eq := by
    rw [fresh]
    rfl
  requests := fun _ _ none => by cases none

theorem build (counted : thread.Counted spec) : thread.build.Counted spec where
  spec_eq := counted.spec_eq
  next_eq := by
    show (nextId (nextId thread.session.tid + 1)).toNat = (thread.requests ++ [_]).length % 254 + 1
    rw [nextId_succ counted.next_eq, List.length_append, List.length_singleton]
  requests := by
    intro k request found
    change (thread.requests ++ [_])[k]? = some request at found
    rcases Nat.lt_or_ge k thread.requests.length with earlier | last
    · rw [List.getElem?_append_left earlier] at found
      exact counted.requests k request found
    · rw [List.getElem?_append_right last, List.getElem?_singleton] at found
      split at found
      · rename_i zero
        cases found
        have here : k = thread.requests.length := by omega
        refine ⟨thread.session.tid, ?_, ?_⟩
        · rw [← counted.spec_eq]
          rfl
        · rw [counted.next_eq, here]
      · cases found

theorem drainIncoming (counted : thread.Counted spec) (received : List Int) :
    (thread.drainIncoming received).Counted spec := by
  induction received generalizing thread with
  | nil => exact counted
  | cons n later ih =>
    rw [DeviceThread.drainIncoming]
    split
    · exact counted.of_same rfl rfl
    · exact ih (counted.of_same rfl rfl)

theorem link (counted : thread.Counted spec) : thread.link.Counted spec := by
  rw [DeviceThread.link]
  split
  · exact counted
  · exact counted.of_same rfl rfl

/-- **A pass keeps the count**, whatever the system calls return. -/
theorem pass (counted : thread.Counted spec) (outcome : PollPass) :
    (thread.pass outcome).Counted spec := by
  rw [DeviceThread.pass]
  split
  · exact counted.of_same rfl rfl
  split
  · exact counted.link.of_same rfl rfl
  simp only
  split
  · exact counted.link.build.of_same rfl rfl
  · refine drainIncoming ?_ _
    exact counted.link.build.of_same rfl rfl

theorem next (counted : thread.Counted spec) {event : PollEvent} {after : DeviceThread}
    (moved : thread.next event = some after) : after.Counted spec := by
  cases event with
  | pass outcome =>
    rw [DeviceThread.next] at moved
    obtain ⟨_, passed⟩ := Option.ite_none_right_eq_some.mp moved
    cases passed
    exact counted.pass outcome
  | stop =>
    cases moved
    exact counted.of_same rfl rfl

end DeviceThread.Counted

/-! ### The configured read -/

/-- The request a device is to be polled with. -/
def FrameSpec.readRequest (spec : FrameSpec) (k : ℕ) : ReadRequest :=
  ⟨(k % 254 + 1 : ℕ), 0, 6, spec.slaveAddr, spec.funCode, spec.startAddr, spec.addrNum⟩

/-- The configured numbers fit the bytes of a request. -/
structure FrameSpec.RequestFits (spec : FrameSpec) : Prop where
  unit : 0 ≤ spec.slaveAddr ∧ spec.slaveAddr < 256
  functionCode : 0 ≤ spec.funCode ∧ spec.funCode < 256
  startAddress : spec.startAddr < 65536
  registerCount : spec.addrNum < 65536

/-- What `ModbusPoller::start` checks of the numbers: bounds from below. -/
theorem bounds_of_startPoller {devices : List DevicePtr} {session : Session}
    (opened : session ∈ startPoller devices) :
    0 ≤ session.dev.desc.spec.startAddr ∧ 0 < session.dev.desc.spec.addrNum ∧ session.tid = 1 := by
  obtain ⟨dev, kept, rfl⟩ := List.mem_map.mp opened
  have pollable := (List.mem_filter.mp kept).2
  rw [DeviceDesc.pollable, decide_eq_true_iff] at pollable
  have bounds := pollable.2.1
  rw [FrameSpec.hasModbusRequest, decide_eq_true_iff] at bounds
  exact ⟨bounds.1, bounds.2, rfl⟩

/-- **The requests of a session are the configured reads exactly if these fit the request.** -/
theorem requests_iff (devices : List DevicePtr) {session : Session}
    (opened : session ∈ startPoller devices) {thread : DeviceThread}
    (run : Reach DeviceThread.next anyStep { session } thread) {k : ℕ} {request : Bytes}
    (built : thread.requests[k]? = some request) :
    parseReadRequest request = some (session.dev.desc.spec.readRequest k) ↔
      session.dev.desc.spec.RequestFits := by
  obtain ⟨address, count, fresh⟩ := bounds_of_startPoller opened
  have counted : thread.Counted session.dev.desc.spec :=
    run.invariant (DeviceThread.Counted.start fresh) fun _ _ _ before _ moved => before.next moved
  obtain ⟨tid, rfl, id⟩ := counted.requests k request built
  rw [parseReadRequest_buildRequest, FrameSpec.readRequest, id, Option.some.injEq,
    ReadRequest.mk.injEq]
  constructor
  · rintro ⟨_, _, _, unit, code, start, number⟩
    exact ⟨by omega, by omega, by omega, by omega⟩
  · rintro ⟨unit, code, start, number⟩
    exact ⟨rfl, rfl, rfl, by omega, by omega, by omega, by omega⟩

/-! ### One polled device -/

theorem register_hasSize : FieldKind.intSigned.hasSize 2 = true := by decide

def registerField : FieldDesc := { size := 2, size_ok := register_hasSize }

theorem payloadMinOf_register : 2 = payloadMinOf [registerField] := by decide

/-- A device with one register field that is polled from the given address on. -/
def polledDevice (startAddr : Int) : DevicePtr where
  addr := 0
  desc :=
    { connProto := connModbus
      spec :=
        { slaveAddr := 1, funCode := 3, startAddr := startAddr, addrNum := 1, payloadMin := 2
          fields := [registerField], frameLen_lt := FrameSpec.noFrameLen_lt
          payloadMin_eq := payloadMinOf_register } }

/-- Two requests, with a lost link and a failed reconnect in between. -/
def pollEvents : List PollEvent :=
  [.pass { sentLen := 3 }, .pass { connects := false }, .pass { received := [5, 0] }]

/-- The thread after these events. -/
def polledThread (startAddr : Int) : DeviceThread :=
  (play DeviceThread.next anyStep { session := { dev := polledDevice startAddr } } pollEvents).getD
    { session := { dev := polledDevice startAddr } }

/-- The configured address is 65536; the device is accepted and polled at address 0. -/
theorem startPoller_large_address :
    { dev := polledDevice 65536 } ∈ startPoller [polledDevice 65536] ∧
      Reach DeviceThread.next anyStep { session := { dev := polledDevice 65536 } }
        (polledThread 65536) ∧
      (polledThread 65536).requests[0]? = some [0, 1, 0, 0, 0, 6, 1, 3, 0, 0, 0, 1] ∧
      parseReadRequest [0, 1, 0, 0, 0, 6, 1, 3, 0, 0, 0, 1] ≠
        some ((polledDevice 65536).desc.spec.readRequest 0) := by
  have played : play DeviceThread.next anyStep { session := { dev := polledDevice 65536 } }
      pollEvents = some (polledThread 65536) := by decide +kernel
  exact ⟨by decide +kernel, Reach.start.of_play played, by decide +kernel, by decide +kernel⟩

theorem requests_iff_polled :
    parseReadRequest [0, 2, 0, 0, 0, 6, 1, 3, 0, 7, 0, 1] =
      some ((polledDevice 7).desc.spec.readRequest 1) := by
  have opened : { dev := polledDevice 7 } ∈ startPoller [polledDevice 7] := by decide +kernel
  have run : Reach DeviceThread.next anyStep { session := { dev := polledDevice 7 } }
      (polledThread 7) := by
    have played : play DeviceThread.next anyStep { session := { dev := polledDevice 7 } }
        pollEvents = some (polledThread 7) := by decide +kernel
    exact Reach.start.of_play played
  exact (requests_iff [polledDevice 7] opened run (by decide +kernel)).mpr
    ⟨by decide, by decide, by decide, by decide⟩

end EtherAdapter
