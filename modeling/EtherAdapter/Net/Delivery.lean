/-
**What a connection delivers before the FIN** (`TcpConnection::send`, `shutdown`, `handleWrite`).

A message goes to the socket at once, to the output buffer, or partly to both; `shutdown` waits for
the buffer. `Delivery` follows a connection through the calls on its loop thread and the writable
events, and remembers what was sent before `shutdown` and whether a write has failed for good.

* `Delivery.NoRevival` — the one assumption on the socket: once a write has failed with `EPIPE` or
  `ECONNRESET`, no write takes any bytes.
* `Delivery.Fits` — the condition on the messages: their lengths are those of an `int`, to which
  `sendInLoop` cuts them.
* `Delivery.Intact` — the invariant: until a write fails so, the socket's bytes followed by the
  output buffer are the messages.
* **`delivery_before_fin`** — in every state of such runs the socket has a prefix of the messages, a
  buffer that is not empty waits for its writable event, and the FIN comes last or after a failure.
* `delivery_cut` — a message of `2 ^ 32` bytes of which none is delivered before the FIN.
-/

import EtherAdapter.Runs.Basic
import EtherAdapter.Model.Connection

namespace EtherAdapter

open Runs

/-! ### A connection and what was sent on it -/

/-- A call on the loop thread, or the socket becomes writable; with the answer of the socket, should
it be asked. -/
inductive WireEvent where
  | send (message : Bytes) (result : WriteResult)
  | shutdown
  | writable (result : WriteResult)
deriving DecidableEq, Repr

/-- The step of the connection. -/
def WireEvent.toEvent : WireEvent → TcpConnection.Event
  | .send message result => .call (.send message result)
  | .shutdown => .call .shutdown
  | .writable result => .dispatch { pollOut := true } none result

structure Delivery where
  conn : TcpConnection
  /-- The messages sent before `shutdown`, one behind the other. -/
  sent : Bytes := []
  /-- `shutdown` has been called. -/
  shut : Bool := false
  /-- A write has failed with `EPIPE` or `ECONNRESET`. -/
  broken : Bool := false
deriving DecidableEq, Repr

namespace Delivery

/-- The write an event makes: the answer of the socket, and the length it was offered. -/
def write (d : Delivery) : WireEvent → Option (WriteResult × Int)
  | .send message result =>
    if d.conn.state = .kConnected ∧ d.conn.channel.writing = false ∧ d.conn.outputBuffer = [] then
      some (result, intSize message.length)
    else none
  | .shutdown => none
  | .writable result =>
    if d.conn.channel.writing then some (result, intSize d.conn.outputBuffer.length) else none

/-- The connection makes its step; the rest is written down. -/
def next (app : App) (d : Delivery) (event : WireEvent) : Option Delivery :=
  (d.conn.next app event.toEvent).map fun conn =>
    { conn := conn
      sent := match event with
        | .send message _ => if d.shut then d.sent else d.sent ++ message
        | _ => d.sent
      shut := d.shut || event = .shutdown
      broken := d.broken || ((d.write event).map Prod.fst) = some .broken }

/-- A socket that has failed for good takes no bytes. -/
def NoRevival (d : Delivery) (event : WireEvent) : Prop :=
  d.broken = true → ∀ answer ∈ d.write event, answer.1.taken answer.2 = 0

/-- A message that is sent has the length of an `int`. -/
def Fits (d : Delivery) : WireEvent → Prop
  | .send message _ => d.conn.state = .kConnected → message.length < 2 ^ 31
  | .shutdown | .writable _ => True

/-- **The condition on a step.** -/
def Allowed (d : Delivery) (event : WireEvent) : Prop := d.NoRevival event ∧ d.Fits event

instance (d : Delivery) (event : WireEvent) : Decidable (d.NoRevival event) :=
  inferInstanceAs (Decidable (_ → _))

instance (d : Delivery) : (event : WireEvent) → Decidable (d.Fits event)
  | .send message _ =>
    inferInstanceAs (Decidable (d.conn.state = .kConnected → message.length < 2 ^ 31))
  | .shutdown | .writable _ => isTrue trivial

instance (d : Delivery) (event : WireEvent) : Decidable (d.Allowed event) :=
  inferInstanceAs (Decidable (_ ∧ _))

/-- **The invariant.** -/
structure Intact (d : Delivery) : Prop where
  state : d.conn.state = if d.shut then .kDisconnecting else .kConnected
  waits : d.conn.channel.writing = true ↔ d.conn.outputBuffer ≠ []
  whole : d.broken = false → d.conn.accepted ++ d.conn.outputBuffer = d.sent
  part : d.conn.accepted <+: d.sent
  fin : d.conn.finSent = true → d.shut = true ∧ (d.conn.accepted = d.sent ∨ d.broken = true)

end Delivery

/-! ### What the calls do -/

section Calls

variable (conn : TcpConnection) (message : Bytes) (result : WriteResult)

theorem Channel.update_writing (channel : Channel) : channel.update.writing = channel.writing := by
  unfold update
  split
  · split <;> rfl
  · rfl
  · rfl

theorem TcpConnection.buffer_writing (rest : Bytes) :
    (conn.buffer rest).channel.writing = true := by
  unfold buffer
  simp only
  split
  · rename_i writing
    exact writing
  · exact Channel.update_writing _

/-- What a message changes: nothing, when the connection turns out to be broken; or the socket takes
its first `n` bytes, and the buffer the rest, if there is any. -/
theorem TcpConnection.sendInLoop_cases (live : conn.state ≠ .kDisconnected)
    (small : message.length < 2 ^ 31) {n : ℕ}
    (taken : n = if conn.channel.writing = false ∧ conn.outputBuffer = [] then
      result.taken (intSize message.length) else 0) :
    conn.sendInLoop message (intSize message.length) result = conn ∧
        (conn.channel.writing = false ∧ conn.outputBuffer = []) ∧ result = .broken ∨
      conn.sendInLoop message (intSize message.length) result = conn.accept (message.take n) ∧
        message.length ≤ n ∨
      conn.sendInLoop message (intSize message.length) result =
          (conn.accept (message.take n)).buffer (message.drop n) ∧
        n < message.length := by
  have positive : ¬ (message.length : Int) < 0 := Int.not_lt.mpr (Int.natCast_nonneg _)
  unfold sendInLoop
  rw [if_neg live]
  simp only [← taken]
  rw [intSize_of_lt small, if_neg positive, Int.toNat_natCast, List.take_length]
  split
  · rename_i lost
    exact Or.inl ⟨rfl, lost⟩
  split
  · rename_i done
    exact Or.inr (Or.inl ⟨rfl, done⟩)
  · rename_i more
    exact Or.inr (Or.inr ⟨rfl, Nat.lt_of_not_le more⟩)

/-- A message whose length is zero as an `int` leaves the buffer as it is. -/
theorem TcpConnection.sendInLoop_of_zero (live : conn.state ≠ .kDisconnected)
    (zero : intSize message.length = 0) (fine : result ≠ .broken) :
    conn.sendInLoop message (intSize message.length) result = conn := by
  have none : (if conn.channel.writing = false ∧ conn.outputBuffer = [] then
      result.taken 0 else 0) = 0 := by
    split
    · cases result with
      | wrote n => exact Nat.min_zero n
      | wouldBlock | broken | failed => rfl
    · rfl
  unfold sendInLoop
  rw [if_neg live, zero]
  simp only [none]
  rw [if_neg fun failed => fine failed.2, if_neg (Int.lt_irrefl 0), Int.toNat_zero,
    if_pos (Nat.le_refl 0), List.take_zero, accept, List.append_nil]

end Calls

/-! ### Steps -/

namespace Delivery

variable {d : Delivery}

theorem Intact.connected (intact : d.Intact) (live : d.shut = false) :
    d.conn.state = .kConnected := by
  rw [intact.state, live]
  rfl

/-- No FIN before `shutdown`. -/
theorem Intact.finSent_live (intact : d.Intact) (live : d.shut = false) :
    d.conn.finSent ≠ true := by
  intro sent
  have closed := (intact.fin sent).1
  rw [live] at closed
  cases closed

/-- Nothing is offered to the socket, or it takes all there is to take. -/
theorem Intact.taken_cases (intact : d.Intact) (live : d.shut = false) {message : Bytes}
    {result : WriteResult} (firm : d.NoRevival (.send message result)) {n : ℕ}
    (taken : n = if d.conn.channel.writing = false ∧ d.conn.outputBuffer = [] then
      result.taken (intSize message.length) else 0) :
    n = 0 ∨ d.conn.outputBuffer = [] ∧ d.broken = false := by
  by_cases direct : d.conn.channel.writing = false ∧ d.conn.outputBuffer = []
  · cases failed : d.broken with
    | false => exact Or.inr ⟨direct.2, rfl⟩
    | true =>
      refine Or.inl (taken.trans ?_)
      rw [if_pos direct]
      exact firm failed (result, intSize message.length) (if_pos ⟨intact.connected live, direct⟩)
  · exact Or.inl (taken.trans (if_neg direct))

/-- What the socket has of the message is in its place. -/
theorem Intact.part_send (intact : d.Intact) {message : Bytes} {n : ℕ}
    (amount : n = 0 ∨ d.conn.outputBuffer = [] ∧ d.broken = false) :
    d.conn.accepted ++ message.take n <+: d.sent ++ message := by
  rcases amount with none | ⟨empty, fine⟩
  · rw [none, List.take_zero, List.append_nil]
    exact intact.part.trans (List.prefix_append _ _)
  · have all := intact.whole fine
    rw [empty, List.append_nil] at all
    rw [all]
    exact List.prefix_append_right_inj _ |>.mpr (List.take_prefix _ _)

/-- With the rest in the buffer, the message is whole. -/
theorem Intact.whole_send (intact : d.Intact) (fine : d.broken = false) {message : Bytes} {n : ℕ}
    (amount : n = 0 ∨ d.conn.outputBuffer = [] ∧ d.broken = false) :
    (d.conn.accepted ++ message.take n) ++ (d.conn.outputBuffer ++ message.drop n) =
      d.sent ++ message := by
  have whole := intact.whole fine
  rcases amount with none | ⟨empty, _⟩
  · rw [none, List.take_zero, List.drop_zero, List.append_nil, ← List.append_assoc, whole]
  · rw [empty, List.append_nil] at whole
    rw [empty, List.nil_append, List.append_assoc, List.take_append_drop, whole]

/-- A message on a connection that is not shut down. -/
theorem Intact.send_live (intact : d.Intact) (live : d.shut = false) {message : Bytes}
    {result : WriteResult} (allowed : d.Allowed (.send message result)) {broken : Bool}
    (failed : broken = (d.broken ||
      ((d.write (.send message result)).map Prod.fst) = some .broken)) :
    Intact ⟨d.conn.sendInLoop message (intSize message.length) result, d.sent ++ message, false,
      broken⟩ := by
  have connected := intact.connected live
  have noFin := intact.finSent_live live
  have healthy : broken = false → d.broken = false := by
    intro fine
    rw [failed, Bool.or_eq_false_iff] at fine
    exact fine.1
  obtain ⟨n, taken⟩ : ∃ n, n = if d.conn.channel.writing = false ∧ d.conn.outputBuffer = [] then
      result.taken (intSize message.length) else 0 := ⟨_, rfl⟩
  have amount := intact.taken_cases live allowed.1 taken
  have front : d.conn.accepted ++ message.take n <+: d.sent ++ message := intact.part_send amount
  rcases d.conn.sendInLoop_cases message result (by rw [connected]; decide) (allowed.2 connected)
    taken with ⟨after, direct, gone⟩ | ⟨after, all⟩ | ⟨after, more⟩
  · rw [after]
    refine ⟨connected, intact.waits, fun fine => ?_,
      intact.part.trans (List.prefix_append _ _), fun sent => absurd sent noFin⟩
    -- the message is lost only with a broken connection
    rw [failed, write, if_pos ⟨connected, direct⟩, gone] at fine
    rw [Bool.or_eq_false_iff, decide_eq_false_iff_not] at fine
    exact absurd rfl fine.2
  · rw [after]
    refine ⟨connected, intact.waits, fun fine => ?_, front, fun sent => absurd sent noFin⟩
    have whole := @Intact.whole_send _ intact (healthy fine) message n amount
    rwa [List.drop_eq_nil_of_le all, List.append_nil] at whole
  · have rest : message.drop n ≠ [] := by
      rw [ne_eq, List.drop_eq_nil_iff]
      omega
    rw [after]
    refine ⟨connected, ?_, fun fine => intact.whole_send (healthy fine) amount, front,
      fun sent => absurd sent noFin⟩
    rw [TcpConnection.buffer_writing]
    exact ⟨fun _ => List.append_ne_nil_of_right_ne_nil _ rest, fun _ => rfl⟩

/-- Messages after `shutdown` go nowhere. -/
theorem Intact.send_shut (intact : d.Intact) (closed : d.shut = true) (message : Bytes)
    (result : WriteResult) : d.conn.send message result = d.conn := by
  refine if_neg ?_
  rw [intact.state, closed]
  decide

/-- `shutdown`, the first time. -/
theorem Intact.shutdown_live (intact : d.Intact) (live : d.shut = false) :
    Intact ⟨d.conn.shutdown, d.sent, true, d.broken⟩ := by
  rw [TcpConnection.shutdown, if_pos (intact.connected live), TcpConnection.shutdownInLoop]
  split
  · exact ⟨rfl, intact.waits, intact.whole, intact.part, fun sent => ⟨rfl, (intact.fin sent).2⟩⟩
  · rename_i idle
    refine ⟨rfl, intact.waits, intact.whole, intact.part, fun _ => ⟨rfl, ?_⟩⟩
    have empty : d.conn.outputBuffer = [] := by
      by_contra waiting
      exact idle (intact.waits.mpr waiting)
    cases failed : d.broken with
    | true => exact Or.inr rfl
    | false =>
      have whole := intact.whole failed
      rw [empty, List.append_nil] at whole
      exact Or.inl whole

/-- Everything has been written. -/
theorem drained_eq (conn : TcpConnection) :
    conn.drained.accepted = conn.accepted ∧ conn.drained.outputBuffer = conn.outputBuffer ∧
      conn.drained.state = conn.state ∧ conn.drained.channel.writing = false ∧
      (conn.drained.finSent = true → conn.finSent = true ∨ conn.state = .kDisconnecting) := by
  have idle : (conn.channel.disableWriting).writing = false := Channel.update_writing _
  unfold TcpConnection.drained
  simp only
  split
  · rename_i closing
    rw [TcpConnection.shutdownInLoop, if_neg (by rw [idle]; decide)]
    exact ⟨rfl, rfl, rfl, idle, fun _ => Or.inr closing⟩
  · exact ⟨rfl, rfl, rfl, idle, Or.inl⟩

/-- The socket takes bytes of a buffer that is not empty. -/
theorem Intact.flushed (intact : d.Intact) (fine : d.broken = false)
    (writing : d.conn.channel.writing = true) (n : ℕ) (broken : Bool) :
    Intact ⟨if (d.conn.flush n).outputBuffer = [] then (d.conn.flush n).drained
      else d.conn.flush n, d.sent, d.shut, broken⟩ := by
  have whole : (d.conn.flush n).accepted ++ (d.conn.flush n).outputBuffer = d.sent := by
    show (d.conn.accepted ++ d.conn.outputBuffer.take n) ++ d.conn.outputBuffer.drop n = d.sent
    rw [List.append_assoc, List.take_append_drop, intact.whole fine]
  have noFin : (d.conn.flush n).finSent ≠ true := by
    intro sent
    rcases (intact.fin sent).2 with all | failed
    · have buffered := intact.whole fine
      rw [← all] at buffered
      exact intact.waits.mp writing (List.append_right_eq_self.mp buffered)
    · rw [fine] at failed
      cases failed
  have part := List.prefix_append (d.conn.flush n).accepted (d.conn.flush n).outputBuffer
  rw [whole] at part
  split
  · rename_i empty
    obtain ⟨accepted, output, state, idle, fin⟩ := drained_eq (d.conn.flush n)
    rw [empty, List.append_nil] at whole
    refine ⟨state.trans intact.state, ?_, fun _ => ?_, ?_, fun sent => ⟨?_, Or.inl ?_⟩⟩
    · rw [idle, output, empty]
      exact ⟨nofun, fun more => absurd rfl more⟩
    · rw [accepted, output, empty, List.append_nil, whole]
    · rw [accepted]
      exact part
    · have closing : d.conn.state = .kDisconnecting := (fin sent).resolve_left noFin
      rw [intact.state] at closing
      by_contra live
      rw [if_neg live] at closing
      cases closing
    · rw [accepted, whole]
  · rename_i more
    exact ⟨intact.state, ⟨fun _ => more, fun _ => writing⟩, fun _ => whole, part,
      fun sent => absurd sent noFin⟩

/-- Nothing has changed but, perhaps, that a write has failed. -/
theorem Intact.still (intact : d.Intact) {broken : Bool}
    (before : broken = false → d.broken = false) : Intact ⟨d.conn, d.sent, d.shut, broken⟩ := by
  refine ⟨intact.state, intact.waits, fun fine => intact.whole (before fine), intact.part,
    fun sent => ⟨(intact.fin sent).1, (intact.fin sent).2.imp_right fun failed => ?_⟩⟩
  cases now : broken with
  | true => rfl
  | false => exact absurd ((before now).symm.trans failed) Bool.false_ne_true

/-- **A writable event.** -/
theorem Intact.handleWrite (intact : d.Intact) {result : WriteResult}
    (firm : d.NoRevival (.writable result)) {broken : Bool}
    (before : broken = false → d.broken = false) :
    Intact ⟨d.conn.handleWrite result, d.sent, d.shut, broken⟩ := by
  unfold TcpConnection.handleWrite
  split
  · rename_i writing
    simp only
    split
    · rename_i some
      have fine : d.broken = false := by
        cases failed : d.broken with
        | false => rfl
        | true =>
          have none : result.taken (intSize d.conn.outputBuffer.length) = 0 :=
            firm failed (result, intSize d.conn.outputBuffer.length) (if_pos writing)
          omega
      exact intact.flushed fine writing _ broken
    · exact intact.still before
  · exact intact.still before

/-- **Every step keeps the invariant.** -/
theorem Intact.next (intact : d.Intact) {app : App} {event : WireEvent}
    (allowed : d.Allowed event) {after : Delivery} (moved : d.next app event = some after) :
    after.Intact := by
  obtain ⟨conn, taken, rfl⟩ := Option.map_eq_some_iff.mp moved
  have stepped := TcpConnection.handle_of_next taken
  have before : ∀ {failed : Bool}, (d.broken || failed) = false → d.broken = false :=
    fun fine => (Bool.or_eq_false_iff.mp fine).1
  cases event with
  | send message result =>
    cases stepped
    cases closed : d.shut with
    | false =>
      show Intact ⟨d.conn.send message result, _, _, _⟩
      rw [TcpConnection.send, if_pos (intact.connected closed)]
      exact intact.send_live closed allowed rfl
    | true =>
      have same := intact.send_shut closed message result
      show Intact ⟨d.conn.send message result, _, _, _⟩
      rw [same]
      have kept : Intact ⟨d.conn, d.sent, d.shut, d.broken ||
          decide ((d.write (.send message result)).map Prod.fst = some .broken)⟩ :=
        intact.still before
      rwa [closed] at kept
  | shutdown =>
    cases stepped
    show Intact ⟨d.conn.shutdown, d.sent, _, d.broken || false⟩
    rw [Bool.or_false]
    cases closed : d.shut with
    | false => exact intact.shutdown_live closed
    | true =>
      have state : d.conn.state ≠ .kConnected := by
        rw [intact.state, closed]
        decide
      have kept := intact.still (fun fine : d.broken = false => fine)
      rw [closed] at kept
      rwa [TcpConnection.shutdown, if_neg state]
  | writable result =>
    obtain ⟨_, same⟩ := Option.ite_none_right_eq_some.mp stepped
    cases same
    show Intact ⟨d.conn.handleWrite result, d.sent, d.shut || false, _⟩
    rw [Bool.or_false]
    exact intact.handleWrite allowed.1 before

end Delivery

/-! ### Runs -/

/-- A connection on which nothing has been sent yet. -/
structure TcpConnection.Fresh (conn : TcpConnection) : Prop where
  connected : conn.state = .kConnected
  idle : conn.channel.writing = false
  outputBuffer : conn.outputBuffer = []
  accepted : conn.accepted = []
  finSent : conn.finSent = false

/-- **Responses are delivered in order and completely before the FIN.** -/
theorem delivery_before_fin (app : App) {conn : TcpConnection} (fresh : conn.Fresh) {d : Delivery}
    (run : Reach (Delivery.next app) Delivery.Allowed { conn } d) :
    d.conn.accepted <+: d.sent ∧
      (d.conn.outputBuffer ≠ [] → d.conn.channel.writing = true) ∧
      (d.conn.finSent = true → d.conn.accepted = d.sent ∨ d.broken = true) := by
  have intact : d.Intact := by
    refine run.invariant ?_ fun _ _ _ before allowed moved => before.next allowed moved
    refine ⟨fresh.connected, ?_, fun _ => ?_, ?_, fun sent => ?_⟩
    · rw [fresh.idle, fresh.outputBuffer]
      exact ⟨nofun, fun more => absurd rfl more⟩
    · exact List.append_eq_nil_iff.mpr ⟨fresh.accepted, fresh.outputBuffer⟩
    · exact List.prefix_nil.mpr fresh.accepted
    · exact absurd (fresh.finSent.symm.trans sent) Bool.false_ne_true
  exact ⟨intact.part, intact.waits.mpr, fun sent => (intact.fin sent).2⟩

/-- A response in two parts: one byte goes out at once, the rest with a writable event, and the FIN
after it. -/
def responseRun : List WireEvent :=
  [.send [0x48, 0x49] (.wrote 1), .send [0x4A] .failed, .shutdown, .writable .wouldBlock,
    .writable (.wrote 2)]

/-- An application that does nothing by itself. -/
def silent : App := fun _ => []

/-- The connection and what was sent on it, after the events. -/
def responded : Delivery :=
  (play (Delivery.next silent) Delivery.Allowed { conn := .newConnection silent true }
    responseRun).getD { conn := .newConnection silent true }

theorem delivery_before_fin_response :
    responded.conn.finSent = true ∧ responded.sent = [0x48, 0x49, 0x4A] ∧
      responded.conn.accepted <+: responded.sent ∧
      (responded.conn.outputBuffer ≠ [] → responded.conn.channel.writing = true) ∧
      (responded.conn.finSent = true →
        responded.conn.accepted = responded.sent ∨ responded.broken = true) := by
  have played : play (Delivery.next silent) Delivery.Allowed
      { conn := .newConnection silent true } responseRun = some responded := by decide +kernel
  exact ⟨by decide +kernel, by decide +kernel,
    delivery_before_fin silent ⟨rfl, rfl, rfl, rfl, rfl⟩ (Reach.start.of_play played)⟩

/-- A message whose length is zero as an `int`, and `shutdown`: the FIN comes at once. -/
theorem reach_of_zero (app : App) {conn : TcpConnection} (fresh : conn.Fresh)
    (defined : ¬ (conn.dangling ∨ conn.overrun)) {message : Bytes}
    (zero : intSize message.length = 0) :
    Reach (Delivery.next app) Delivery.NoRevival { conn }
      ⟨{ conn with state := .kDisconnecting, finSent := true }, message, true, false⟩ := by
  have connected := fresh.connected
  have idle : ¬ conn.channel.writing = true := by rw [fresh.idle]; decide
  have first : Delivery.next app { conn } (.send message .wouldBlock) =
      some ⟨conn, message, false, false⟩ := by
    have same : conn.send message .wouldBlock = conn := by
      rw [TcpConnection.send, if_pos connected,
        conn.sendInLoop_of_zero message .wouldBlock (by rw [connected]; decide) zero (by decide)]
    have taken : Delivery.write { conn } (.send message .wouldBlock) =
        some (.wouldBlock, intSize message.length) :=
      if_pos ⟨connected, fresh.idle, fresh.outputBuffer⟩
    have stepped : conn.next app (.call (.send message .wouldBlock)) = some conn :=
      (if_neg defined).trans (congrArg some same)
    rw [Delivery.next, WireEvent.toEvent, stepped, taken]
    rfl
  have second : Delivery.next app ⟨conn, message, false, false⟩ .shutdown =
      some ⟨{ conn with state := .kDisconnecting, finSent := true }, message, true, false⟩ := by
    have closed : conn.shutdown = { conn with state := .kDisconnecting, finSent := true } := by
      rw [TcpConnection.shutdown, if_pos connected]
      exact if_neg idle
    have stepped : conn.next app (.call .shutdown) =
        some { conn with state := .kDisconnecting, finSent := true } :=
      (if_neg defined).trans (congrArg some closed)
    show (conn.next app (.call .shutdown)).map _ = _
    rw [stepped]
    rfl
  exact (Reach.start.step _ nofun first).step _ nofun second

/-- **A message of `2 ^ 32` bytes is not delivered at all.** -/
theorem delivery_cut :
    ∃ d : Delivery,
      Reach (Delivery.next silent) Delivery.NoRevival { conn := .newConnection silent true } d ∧
      d.sent = List.replicate (2 ^ 32) 0 ∧ d.conn.finSent = true ∧
      ¬ (d.conn.accepted = d.sent ∨ d.broken = true) := by
  have zero : intSize (List.replicate (2 ^ 32) (0 : UInt8)).length = 0 := by
    rw [List.length_replicate]
    decide +kernel
  refine ⟨_, reach_of_zero silent ⟨rfl, rfl, rfl, rfl, rfl⟩ (by decide) zero, rfl, rfl, ?_⟩
  rintro (all | broken)
  · have length := congrArg List.length all
    rw [List.length_replicate] at length
    cases length
  · cases broken

end EtherAdapter
