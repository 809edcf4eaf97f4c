/-
**The callbacks of a connection: up, messages, down.**

`IngestServer` and `HttpIngest` keep a record for each connection between its up and its down, so
they rely on the order of the callbacks. It holds as long as three things do not happen: one
dispatch closes the connection and then reads from it with success; `connectDestroyed` finds the
connection half closed; and, with the server on another loop, the connection is closed after the
server has been destroyed.

* `Life`, `Follows` — the life of a connection as the application sees it, and the callbacks that
  belong to it.
* `Calls` — what calls of the application can do to a connection: neither its life nor its
  callbacks change.
* `Sound` — the invariant; **`Sound.next`** says that every permitted step keeps it.
* **`reach_orderly`** — the states of a run are orderly as long as its steps are permitted, and the
  first step that is not breaks the order at once.
-/

import EtherAdapter.Model.Connection
import EtherAdapter.Runs.Basic

namespace EtherAdapter

open Runs

/-! ### The life of a connection -/

inductive Life where
  | fresh
  | live
  | ended
deriving DecidableEq, Repr

def StateE.life : StateE → Life
  | .kConnecting => .fresh
  | .kConnected | .kDisconnecting => .live
  | .kDisconnected => .ended

theorem StateE.life_eq_live {state : StateE} :
    state.life = .live ↔ state = .kConnected ∨ state = .kDisconnecting := by
  cases state <;> decide

theorem StateE.life_eq_ended {state : StateE} : state.life = .ended ↔ state = .kDisconnected := by
  cases state <;> decide

/-- The callbacks up to a point of the life. -/
def Follows (trace : List Callback) : Life → Prop
  | .fresh => trace = []
  | .live => ∃ messages : List Bytes, trace = .up :: messages.map .message
  | .ended => ∃ messages : List Bytes, trace = .up :: messages.map .message ++ [.down]

/-- **A prefix of up, messages, down.** -/
def Protocol (trace : List Callback) : Prop :=
  ∃ messages : List Bytes, trace <+: .up :: messages.map .message ++ [.down]

theorem Follows.up {trace : List Callback} (fresh : Follows trace .fresh) :
    Follows (trace ++ [.up]) .live := by
  have empty : trace = [] := fresh
  rw [empty]
  exact ⟨[], rfl⟩

theorem Follows.message {trace : List Callback} (live : Follows trace .live) (readable : Bytes) :
    Follows (trace ++ [.message readable]) .live := by
  obtain ⟨messages, rfl⟩ := live
  refine ⟨messages ++ [readable], ?_⟩
  rw [List.map_append, List.cons_append]
  rfl

theorem Follows.down {trace : List Callback} (live : Follows trace .live) :
    Follows (trace ++ [.down]) .ended := by
  obtain ⟨messages, rfl⟩ := live
  exact ⟨messages, rfl⟩

theorem Follows.protocol {trace : List Callback} {life : Life} (follows : Follows trace life) :
    Protocol trace := by
  cases life with
  | fresh =>
    have empty : trace = [] := follows
    rw [empty]
    exact ⟨[], List.nil_prefix⟩
  | live =>
    obtain ⟨messages, rfl⟩ := follows
    exact ⟨messages, List.prefix_append _ _⟩
  | ended =>
    obtain ⟨messages, rfl⟩ := follows
    exact ⟨messages, List.prefix_refl _⟩

theorem down_not_mem (messages : List Bytes) :
    Callback.down ∉ Callback.up :: messages.map Callback.message := by
  simp only [List.mem_cons, List.mem_map, reduceCtorEq, and_false, exists_false, or_self,
    not_false_eq_true]

theorem Follows.count_down {trace : List Callback} (ended : Follows trace .ended) :
    trace.count .down = 1 := by
  obtain ⟨messages, rfl⟩ := ended
  rw [List.count_append, List.count_eq_zero.mpr (down_not_mem messages)]
  rfl

/-- Nothing comes after down. -/
theorem Protocol.down_not_mem {trace : List Callback} {callback : Callback}
    (protocol : Protocol (trace ++ [callback])) : .down ∉ trace := by
  obtain ⟨messages, isPrefix⟩ := protocol
  rcases List.prefix_concat_iff.mp isPrefix with whole | shorter
  · rw [(List.append_inj' whole rfl).1]
    exact EtherAdapter.down_not_mem messages
  · exact fun member => EtherAdapter.down_not_mem messages
      (shorter.subset (List.mem_append_left _ member))

/-! ### The channel -/

namespace Channel

variable {channel : Channel}

theorem enableWriting_of_added (added : channel.index = .kAdded) :
    channel.enableWriting = { channel with writing := true } := by
  simp only [enableWriting, update, added, isNoneEvent, Bool.not_true, Bool.and_false,
    Bool.false_eq_true, if_false]

theorem disableWriting_of_added (added : channel.index = .kAdded)
    (reading : channel.reading = true) :
    channel.disableWriting = { channel with writing := false } := by
  simp only [disableWriting, update, added, isNoneEvent, reading, Bool.not_true, Bool.false_and,
    Bool.false_eq_true, if_false]

theorem disableAll_of_added (added : channel.index = .kAdded) :
    channel.disableAll = ⟨false, false, .kDeleted⟩ := by
  simp only [disableAll, update, added, isNoneEvent, Bool.not_false, Bool.and_self, if_true]

theorem enableReading_index (apart : channel.index ≠ .kAdded) :
    channel.enableReading = { channel with reading := true, index := .kAdded } := by
  unfold enableReading update
  cases index : channel.index with
  | kAdded => exact absurd index apart
  | kNew => rfl
  | kDeleted => rfl

end Channel

namespace TcpConnection

variable {app : App} {conn after : TcpConnection}

/-! ### Calls of the application -/

/-- While it is live, a connection is watched for input. -/
def Watched (conn : TcpConnection) : Prop :=
  conn.state.life = .live → conn.channel.index = .kAdded ∧ conn.channel.reading = true

/-- **What the application's calls can do to a connection.** -/
structure Calls (conn after : TcpConnection) : Prop where
  life : after.state.life = conn.state.life
  trace : after.trace = conn.trace
  destroyed : after.destroyed = conn.destroyed
  removals : after.removals = conn.removals
  sameLoop : after.sameLoop = conn.sameLoop
  served : after.served = conn.served
  dangling : after.dangling = conn.dangling
  index : after.channel.index = conn.channel.index
  reading : after.channel.reading = conn.channel.reading
  writing : conn.state.life ≠ .live → after.channel.writing = conn.channel.writing
  pending : ∃ more, after.pending = conn.pending ++ more ∧ .connectEstablished ∉ more

theorem Calls.refl (conn : TcpConnection) : Calls conn conn :=
  ⟨rfl, rfl, rfl, rfl, rfl, rfl, rfl, rfl, rfl, fun _ => rfl, [], (List.append_nil _).symm,
    List.not_mem_nil⟩

theorem Calls.trans {last : TcpConnection} (first : Calls conn after) (second : Calls after last) :
    Calls conn last := by
  obtain ⟨more, pending, apart⟩ := first.pending
  obtain ⟨rest, later, apartRest⟩ := second.pending
  refine ⟨second.life.trans first.life, second.trace.trans first.trace,
    second.destroyed.trans first.destroyed, second.removals.trans first.removals,
    second.sameLoop.trans first.sameLoop, second.served.trans first.served,
    second.dangling.trans first.dangling, second.index.trans first.index,
    second.reading.trans first.reading, ?_, more ++ rest, ?_, ?_⟩
  · intro apart
    exact (second.writing (first.life.trans_ne apart)).trans (first.writing apart)
  · rw [later, pending, List.append_assoc]
  · exact fun member => (List.mem_append.mp member).elim apart apartRest

theorem Watched.calls (watched : Watched conn) (calls : Calls conn after) : Watched after := by
  intro live
  rw [calls.life] at live
  rw [calls.index, calls.reading]
  exact watched live

/-- Nothing changes but the buffers, the socket and how far `kDisconnecting` is. -/
theorem Calls.of_life (life : after.state.life = conn.state.life) (trace : after.trace = conn.trace)
    (destroyed : after.destroyed = conn.destroyed) (removals : after.removals = conn.removals)
    (sameLoop : after.sameLoop = conn.sameLoop) (served : after.served = conn.served)
    (dangling : after.dangling = conn.dangling) (channel : after.channel = conn.channel)
    (pending : after.pending = conn.pending) : Calls conn after := by
  refine ⟨life, trace, destroyed, removals, sameLoop, served, dangling, ?_, ?_, ?_, [], ?_,
    List.not_mem_nil⟩
  · rw [channel]
  · rw [channel]
  · intro _
    rw [channel]
  · rw [pending, List.append_nil]

/-- A live connection may ask for other output events. -/
theorem Calls.of_writing (live : conn.state.life = .live) (writing : Bool) :
    Calls conn { conn with channel := { conn.channel with writing := writing } } :=
  ⟨rfl, rfl, rfl, rfl, rfl, rfl, rfl, rfl, rfl, fun apart => absurd live apart, [],
    (List.append_nil _).symm, List.not_mem_nil⟩

theorem calls_accept (conn : TcpConnection) (bytes : Bytes) : Calls conn (conn.accept bytes) :=
  .of_life rfl rfl rfl rfl rfl rfl rfl rfl rfl

theorem calls_buffer (watched : Watched conn) (live : conn.state.life = .live) (rest : Bytes) :
    Calls conn (conn.buffer rest) := by
  rw [buffer, Channel.enableWriting_of_added (watched live).1]
  split
  · exact .of_life rfl rfl rfl rfl rfl rfl rfl rfl rfl
  · exact (Calls.of_writing live true).trans (.of_life rfl rfl rfl rfl rfl rfl rfl rfl rfl)

theorem calls_sendInLoop (watched : Watched conn) (live : conn.state.life = .live)
    (message : Bytes) (len : Int) (result : WriteResult) :
    Calls conn (conn.sendInLoop message len result) := by
  rw [sendInLoop]
  simp only
  generalize (if conn.channel.writing = false ∧ conn.outputBuffer = [] then
    result.taken len else 0) = nwrote
  have first := calls_accept conn (message.take nwrote)
  split
  · exact Calls.refl conn
  split
  · exact Calls.refl conn
  split
  · exact first.trans (.of_life rfl rfl rfl rfl rfl rfl rfl rfl rfl)
  split
  · exact first
  · exact first.trans (calls_buffer (watched.calls first) (first.life.trans live) _)

theorem calls_shutdownInLoop (conn : TcpConnection) : Calls conn conn.shutdownInLoop := by
  unfold shutdownInLoop
  split
  · exact Calls.refl conn
  · exact .of_life rfl rfl rfl rfl rfl rfl rfl rfl rfl

theorem calls_act (watched : Watched conn) (action : Action) : Calls conn (conn.act action) := by
  cases action with
  | send message result =>
    rw [act, send]
    split
    · rename_i connected
      exact calls_sendInLoop watched (by rw [connected]; rfl) message _ result
    · exact Calls.refl conn
  | shutdown =>
    rw [act, shutdown]
    split
    · rename_i connected
      have leaving : Calls conn { conn with state := .kDisconnecting } :=
        .of_life (by rw [connected]; rfl) rfl rfl rfl rfl rfl rfl rfl rfl
      exact leaving.trans (calls_shutdownInLoop _)
    · exact Calls.refl conn
  | forceClose =>
    rw [act, forceClose]
    split
    · rename_i opened
      have life : StateE.kDisconnecting.life = conn.state.life := by
        rcases opened with connected | disconnecting
        · rw [connected]
          rfl
        · rw [disconnecting]
      exact ⟨life, rfl, rfl, rfl, rfl, rfl, rfl, rfl, rfl, fun _ => rfl, [.forceCloseInLoop], rfl,
        by decide⟩
    · exact Calls.refl conn
  | retrieve len => exact .of_life rfl rfl rfl rfl rfl rfl rfl rfl rfl

theorem calls_foldl (actions : List Action) (watched : Watched conn) :
    Calls conn (actions.foldl act conn) := by
  induction actions generalizing conn with
  | nil => exact Calls.refl conn
  | cons action actions ih =>
    have first := calls_act watched action
    exact first.trans (ih (watched.calls first))

/-- A callback adds itself to the trace; the rest is calls. -/
theorem calls_deliver (watched : Watched conn) (callback : Callback) :
    Calls (conn.record callback) (conn.deliver app callback) := calls_foldl _ watched

theorem calls_drained (watched : Watched conn) (live : conn.state.life = .live) :
    Calls conn conn.drained := by
  obtain ⟨added, reading⟩ := watched live
  rw [drained, Channel.disableWriting_of_added added reading]
  have quiet := Calls.of_writing live false
  simp only
  split
  · exact quiet.trans (calls_shutdownInLoop _)
  · exact quiet

/-- The write handler does no more than a call. -/
theorem calls_handleWrite (watched : Watched conn)
    (writes : conn.channel.writing = true → conn.state.life = .live) (result : WriteResult) :
    Calls conn (conn.handleWrite result) := by
  rw [handleWrite]
  split
  · rename_i writing
    have flushed : ∀ n, Calls conn (conn.flush n) := fun n =>
      .of_life rfl rfl rfl rfl rfl rfl rfl rfl rfl
    simp only
    split
    · split
      · have first := flushed (result.taken (intSize conn.outputBuffer.length))
        exact first.trans (calls_drained (watched.calls first) (first.life.trans (writes writing)))
      · exact flushed _
    · exact Calls.refl conn
  · exact Calls.refl conn

/-! ### The invariant -/

/-- **The invariant.** The state tells how far the callbacks are; a connection is watched exactly
while it is live; it waits for `connectEstablished` at most once, first of all. -/
structure Sound (conn : TcpConnection) : Prop where
  follows : Follows conn.trace conn.state.life
  removals : conn.removals ≤ if conn.state.life = .ended then 1 else 0
  destroyed : 0 < conn.destroyed → conn.state.life = .ended
  added : conn.channel.index = .kAdded ↔ conn.state.life = .live
  reading : conn.state.life = .live → conn.channel.reading = true
  writing : conn.channel.writing = true → conn.state.life = .live
  waiting : conn.state.life = .fresh → conn.sameLoop = false ∧
    ∃ rest, conn.pending = .connectEstablished :: rest ∧ .connectEstablished ∉ rest
  established : conn.state.life ≠ .fresh → .connectEstablished ∉ conn.pending
  defined : conn.dangling = false

theorem Sound.watched (sound : Sound conn) : Watched conn :=
  fun live => ⟨sound.added.mpr live, sound.reading live⟩

theorem Sound.calls (sound : Sound conn) (calls : Calls conn after) : Sound after := by
  obtain ⟨more, pending, apart⟩ := calls.pending
  refine ⟨?_, ?_, ?_, ?_, ?_, ?_, ?_, ?_, calls.dangling.trans sound.defined⟩
  · rw [calls.trace, calls.life]
    exact sound.follows
  · rw [calls.removals, calls.life]
    exact sound.removals
  · rw [calls.destroyed, calls.life]
    exact sound.destroyed
  · rw [calls.index, calls.life]
    exact sound.added
  · rw [calls.reading, calls.life]
    exact sound.reading
  · intro writing
    rw [calls.life]
    by_contra quiet
    rw [calls.writing quiet] at writing
    exact quiet (sound.writing writing)
  · rw [calls.life, calls.sameLoop]
    intro fresh
    obtain ⟨otherLoop, rest, first, later⟩ := sound.waiting fresh
    refine ⟨otherLoop, rest ++ more, ?_, ?_⟩
    · rw [pending, first, List.cons_append]
    · exact fun member => (List.mem_append.mp member).elim later apart
  · rw [calls.life, pending]
    exact fun started member =>
      (List.mem_append.mp member).elim (sound.established started) apart

/-! ### Going down -/

theorem calls_takeDown (app : App) (conn : TcpConnection) :
    Calls (conn.takeDown.record .down) (conn.takeDown.connectionCallback app) :=
  calls_deliver (fun live => by cases live) .down

theorem Sound.takeDown (sound : Sound conn) (live : conn.state.life = .live) :
    Sound (conn.takeDown.connectionCallback app) := by
  have follows := sound.follows
  rw [live] at follows
  have quiet : conn.takeDown.channel = ⟨false, false, .kDeleted⟩ :=
    Channel.disableAll_of_added (sound.added.mpr live)
  have recorded : Sound (conn.takeDown.record .down) := by
    refine ⟨follows.down, ?_, fun _ => rfl, ?_, ?_, ?_, ?_, ?_, sound.defined⟩
    · have none := sound.removals
      rw [live, if_neg (by decide)] at none
      exact Nat.le_trans none (Nat.zero_le _)
    · show conn.takeDown.channel.index = .kAdded ↔ Life.ended = .live
      rw [quiet]
      decide
    · exact fun live => by cases live
    · show conn.takeDown.channel.writing = true → Life.ended = .live
      rw [quiet]
      decide
    · exact fun fresh => by cases fresh
    · exact fun _ => sound.established (by rw [live]; decide)
  exact recorded.calls (calls_takeDown app conn)

theorem removeConnection_state (conn : TcpConnection) :
    conn.removeConnection.state = conn.state := by
  unfold removeConnection
  split
  · rfl
  · rfl

theorem life_handleClose (app : App) (conn : TcpConnection) :
    (conn.handleClose app).state.life = .ended := by
  rw [handleClose, removeConnection_state]
  exact (calls_takeDown app conn).life

theorem useServer_of_served (served : conn.served = true) : conn.useServer = conn := by
  have same : (conn.dangling || !conn.served) = conn.dangling := by
    rw [served, Bool.not_true, Bool.or_false]
  rw [useServer, same]

theorem calls_removeConnectionInLoop (served : conn.served = true) :
    Calls conn conn.removeConnectionInLoop := by
  rw [removeConnectionInLoop, useServer_of_served served]
  exact ⟨rfl, rfl, rfl, rfl, rfl, rfl, rfl, rfl, rfl, fun _ => rfl, [.connectDestroyed], rfl,
    by decide⟩

/-- The server is there, and is told for the first time. -/
theorem Sound.removeConnection (sound : Sound conn) (ended : conn.state.life = .ended)
    (first : conn.removals = 0) (served : conn.served = true) : Sound conn.removeConnection := by
  have told : Sound { conn with removals := conn.removals + 1 } := by
    refine ⟨sound.follows, ?_, sound.destroyed, sound.added, sound.reading, sound.writing,
      sound.waiting, sound.established, sound.defined⟩
    show conn.removals + 1 ≤ if conn.state.life = .ended then 1 else 0
    rw [ended, first, if_pos rfl]
  unfold TcpConnection.removeConnection
  rw [useServer_of_served served]
  split
  · exact told.calls (calls_removeConnectionInLoop served)
  · exact told.calls (.of_life rfl rfl rfl rfl rfl rfl rfl rfl rfl)

theorem Sound.handleClose (sound : Sound conn) (live : conn.state.life = .live)
    (served : conn.served = true) : Sound (conn.handleClose app) := by
  have calls := calls_takeDown app conn
  have none := sound.removals
  rw [live, if_neg (by decide), Nat.le_zero] at none
  exact (sound.takeDown live).removeConnection calls.life (calls.removals.trans none)
    (calls.served.trans served)

theorem Sound.detach (sound : Sound conn) (ended : conn.state.life = .ended) :
    Sound conn.detach := by
  refine ⟨sound.follows, sound.removals, fun _ => ended, ?_, sound.reading, sound.writing,
    sound.waiting, sound.established, sound.defined⟩
  show PollIndex.kNew = .kAdded ↔ conn.state.life = .live
  rw [ended]
  decide

/-- **`connectDestroyed`**, on a connection that is not half closed. -/
theorem Sound.connectDestroyed (sound : Sound conn) (started : conn.state.life ≠ .fresh)
    (whole : conn.state ≠ .kDisconnecting) : Sound (conn.connectDestroyed app) := by
  rw [TcpConnection.connectDestroyed]
  split
  · rename_i connected
    have live : conn.state.life = .live := by rw [connected]; rfl
    exact (sound.takeDown live).detach (calls_takeDown app conn).life
  · rename_i apart
    refine sound.detach ?_
    cases state : conn.state with
    | kConnecting =>
      rw [state] at started
      exact absurd rfl started
    | kConnected => exact absurd state apart
    | kDisconnecting => exact absurd state whole
    | kDisconnected => rfl

/-! ### The handlers of one dispatch -/

theorem handleError_of_live (app : App) (live : conn.state.life = .live) :
    conn.handleError app = conn.handleClose app := by
  rw [handleError, if_pos (StateE.life_eq_live.mp live)]

theorem handleError_of_ended (app : App) (ended : conn.state.life = .ended) :
    conn.handleError app = conn := by
  have apart : ¬ (conn.state = .kConnected ∨ conn.state = .kDisconnecting) := by
    rw [← StateE.life_eq_live, ended]
    decide
  rw [handleError, if_neg apart]

theorem Sound.record_message (sound : Sound conn) (live : conn.state.life = .live)
    (readable : Bytes) : Sound (conn.record (.message readable)) := by
  have follows := sound.follows
  rw [live] at follows
  refine ⟨?_, sound.removals, sound.destroyed, sound.added, sound.reading, sound.writing,
    sound.waiting, sound.established, sound.defined⟩
  show Follows (conn.trace ++ [.message readable]) conn.state.life
  rw [live]
  exact follows.message readable

/-- The end of the stream and an error close a live connection. -/
theorem handleRead_of_nothing (app : App) (live : conn.state.life = .live) {recv : Option Bytes}
    (nothing : recv.getD [] = []) : conn.handleRead app recv = conn.handleClose app := by
  match recv with
  | none => rw [TcpConnection.handleRead, handleError_of_live app live]
  | some [] => rfl
  | some (byte :: data) => cases nothing

/-- A failed read leaves a closed connection as it is. -/
theorem handleRead_of_ended (app : App) (ended : conn.state.life = .ended) :
    conn.handleRead app none = conn := by
  rw [TcpConnection.handleRead, handleError_of_ended app ended]

/-- The read handler: a live connection, whose server is there should it close, or one that has just
been closed and cannot be read. -/
theorem Sound.handleRead (sound : Sound conn) {recv : Option Bytes}
    (readable : conn.state.life = .live ∧ (recv.getD [] = [] → conn.served = true) ∨
      conn.state.life = .ended ∧ recv = none) :
    Sound (conn.handleRead app recv) := by
  rcases readable with ⟨live, served⟩ | ⟨ended, rfl⟩
  · match recv with
    | none =>
      rw [handleRead_of_nothing app live rfl]
      exact sound.handleClose live (served rfl)
    | some [] => exact sound.handleClose live (served rfl)
    | some (byte :: data) =>
      have filled : Sound (conn.receive (byte :: data)) :=
        sound.calls (.of_life rfl rfl rfl rfl rfl rfl rfl rfl rfl)
      exact (filled.record_message live _).calls (calls_deliver filled.watched _)
  · rw [handleRead_of_ended app ended]
    exact sound

theorem Sound.handleWrite (sound : Sound conn) (result : WriteResult) :
    Sound (conn.handleWrite result) :=
  sound.calls (calls_handleWrite sound.watched sound.writing result)

end TcpConnection

/-- The close or the error handler runs. -/
def Revents.closes (revents : Revents) : Bool :=
  (revents.pollHup && !revents.pollIn) || revents.pollErr || revents.pollNval

/-- The read handler runs. -/
def Revents.reads (revents : Revents) : Bool :=
  revents.pollIn || revents.pollPri || revents.pollRdhup

namespace TcpConnection

variable {app : App} {conn after : TcpConnection}

/-- A live connection is closed at most once by the close and the error handler. -/
theorem closing_of_live (app : App) (live : conn.state.life = .live) (revents : Revents) :
    (if revents.pollErr ∨ revents.pollNval then
        handleError app
          (if revents.pollHup ∧ ¬ revents.pollIn then conn.handleClose app else conn)
      else if revents.pollHup ∧ ¬ revents.pollIn then conn.handleClose app else conn) =
      if revents.closes then conn.handleClose app else conn := by
  by_cases hungUp : revents.pollHup = true ∧ ¬ revents.pollIn = true
  · have closes : revents.closes = true := by
      simp only [Revents.closes, hungUp.1, hungUp.2, Bool.not_false, Bool.and_self, Bool.true_or]
    rw [if_pos hungUp, handleError_of_ended app (life_handleClose app conn), ite_self,
      if_pos closes]
  · have closes : revents.closes = true ↔ revents.pollErr = true ∨ revents.pollNval = true := by
      have noHup : (revents.pollHup && !revents.pollIn) = false := by
        rw [← Bool.not_eq_true, Bool.and_eq_true, Bool.not_eq_true']
        simpa only [Bool.not_eq_true] using hungUp
      rw [Revents.closes, noHup, Bool.false_or, Bool.or_eq_true]
    rw [if_neg hungUp, handleError_of_live app live]
    simp only [closes]

/-- A dispatch on a live connection: it is closed at most once, then read, then written. -/
theorem handleEventWithGuard_of_live (app : App) (live : conn.state.life = .live)
    (revents : Revents) (recv : Option Bytes) (result : WriteResult) :
    conn.handleEventWithGuard app revents recv result =
      (let closed := if revents.closes then conn.handleClose app else conn
      let read := if revents.reads then closed.handleRead app recv else closed
      if revents.pollOut then read.handleWrite result else read) := by
  have reading : (revents.pollIn = true ∨ revents.pollPri = true ∨ revents.pollRdhup = true) ↔
      revents.reads = true := by
    simp only [Revents.reads, Bool.or_eq_true, or_assoc]
  unfold handleEventWithGuard
  simp only [closing_of_live app live, reading]

/-! ### Permitted steps -/

/-- No successful `recv` in a dispatch that closes first, and no `connectDestroyed` on a connection
that is half closed. -/
def Regular (conn : TcpConnection) : Event → Prop
  | .dispatch revents recv _ => revents.closes = true → revents.reads = true → recv = none
  | .runPending => conn.pending.head? = some .connectDestroyed → conn.state ≠ .kDisconnecting
  | .destroyServer => conn.sameLoop = true → conn.listed = true → conn.state ≠ .kDisconnecting
  | .call _ | .runRemoval => True

/-- The steps that call the server back: those that close a live connection, and the removal that
waits on the server's loop. -/
def CallsServer (conn : TcpConnection) : Event → Prop
  | .dispatch revents recv _ =>
    revents.closes = true ∨ (revents.reads = true ∧ recv.getD [] = [])
  | .runPending => conn.pending.head? = some .forceCloseInLoop ∧ conn.state.life = .live
  | .runRemoval => True
  | .call _ | .destroyServer => False

/-- **The condition on a step**: it is regular, and calls no server that has been destroyed. -/
def Permitted (conn : TcpConnection) (event : Event) : Prop :=
  conn.Regular event ∧ (conn.CallsServer event → conn.served = true)

instance (conn : TcpConnection) : (event : Event) → Decidable (Regular conn event)
  | .dispatch revents recv _ =>
    inferInstanceAs (Decidable (revents.closes = true → revents.reads = true → recv = none))
  | .runPending =>
    inferInstanceAs (Decidable
      (conn.pending.head? = some .connectDestroyed → conn.state ≠ .kDisconnecting))
  | .destroyServer =>
    inferInstanceAs (Decidable
      (conn.sameLoop = true → conn.listed = true → conn.state ≠ .kDisconnecting))
  | .call _ | .runRemoval => isTrue trivial

instance (conn : TcpConnection) : (event : Event) → Decidable (CallsServer conn event)
  | .dispatch revents recv _ =>
    inferInstanceAs (Decidable
      (revents.closes = true ∨ (revents.reads = true ∧ recv.getD [] = [])))
  | .runPending =>
    inferInstanceAs (Decidable
      (conn.pending.head? = some .forceCloseInLoop ∧ conn.state.life = .live))
  | .runRemoval => isTrue trivial
  | .call _ | .destroyServer => isFalse id

instance (conn : TcpConnection) (event : Event) : Decidable (Permitted conn event) :=
  inferInstanceAs (Decidable (conn.Regular event ∧ (conn.CallsServer event → conn.served = true)))

theorem Sound.dispatch (sound : Sound conn) (live : conn.state.life = .live) {revents : Revents}
    {recv : Option Bytes} {result : WriteResult}
    (permitted : conn.Permitted (.dispatch revents recv result)) :
    Sound (conn.handleEventWithGuard app revents recv result) := by
  obtain ⟨regular, served⟩ := permitted
  rw [handleEventWithGuard_of_live app live]
  simp only
  have closed : Sound (if revents.closes then conn.handleClose app else conn) := by
    split
    · rename_i closes
      exact sound.handleClose live (served (Or.inl closes))
    · exact sound
  have read : Sound (if revents.reads then
      (if revents.closes then conn.handleClose app else conn).handleRead app recv
      else if revents.closes then conn.handleClose app else conn) := by
    split
    · rename_i reads
      refine closed.handleRead ?_
      by_cases closes : revents.closes = true
      · rw [if_pos closes]
        exact Or.inr ⟨life_handleClose app conn, regular closes reads⟩
      · rw [if_neg closes]
        exact Or.inl ⟨live, fun nothing => served (Or.inr ⟨reads, nothing⟩)⟩
    · exact closed
  split
  · exact read.handleWrite result
  · exact read

/-- The connection comes up. -/
theorem sound_connectEstablished (trace : conn.trace = []) (removals : conn.removals = 0)
    (destroyed : conn.destroyed = 0) (apart : conn.channel.index ≠ .kAdded)
    (once : .connectEstablished ∉ conn.pending) (defined : conn.dangling = false) : Sound (conn.connectEstablished app) := by
  have channel : conn.bringUp.channel = { conn.channel with reading := true, index := .kAdded } :=
    Channel.enableReading_index apart
  have recorded : Sound (conn.bringUp.record .up) := by
    refine ⟨?_, ?_, ?_, ?_, ?_, fun _ => rfl, ?_, fun _ => once, defined⟩
    · exact Follows.up trace
    · exact Nat.le_of_eq removals
    · intro positive
      have none : (conn.bringUp.record .up).destroyed = 0 := destroyed
      omega
    · show conn.bringUp.channel.index = .kAdded ↔ Life.live = .live
      rw [channel]
      exact ⟨fun _ => rfl, fun _ => rfl⟩
    · intro _
      show conn.bringUp.channel.reading = true
      rw [channel]
    · intro fresh
      cases fresh
  have watched : Watched conn.bringUp := by
    intro _
    rw [channel]
    exact ⟨rfl, rfl⟩
  exact recorded.calls (calls_deliver watched .up)

theorem sound_newConnection (app : App) (sameLoop : Bool) : Sound (newConnection app sameLoop) := by
  cases sameLoop with
  | true => exact sound_connectEstablished rfl rfl rfl (by decide) List.not_mem_nil rfl
  | false =>
    refine ⟨rfl, Nat.le_refl _, fun positive => absurd positive (Nat.lt_irrefl _), ?_, ?_, ?_, ?_,
      ?_, rfl⟩
    · exact ⟨fun added => absurd added PollIndex.noConfusion, fun live => by cases live⟩
    · exact fun live => by cases live
    · exact fun writing => by cases writing
    · exact fun _ => ⟨rfl, [], rfl, List.not_mem_nil⟩
    · exact fun started => absurd rfl started

/-- Once it is established, a connection may lose its next functor. -/
theorem Sound.pop (sound : Sound conn) {functor : Functor} {rest : List Functor}
    (waits : conn.pending = functor :: rest) (started : conn.state.life ≠ .fresh) :
    Sound { conn with pending := rest } := by
  have later := sound.established started
  rw [waits] at later
  exact ⟨sound.follows, sound.removals, sound.destroyed, sound.added, sound.reading, sound.writing,
    fun fresh => absurd fresh started, fun _ member => later (List.mem_cons_of_mem _ member),
    sound.defined⟩

theorem Sound.forceCloseInLoop (sound : Sound conn)
    (served : conn.state.life = .live → conn.served = true) :
    Sound (conn.forceCloseInLoop app) := by
  rw [TcpConnection.forceCloseInLoop]
  split
  · rename_i opened
    have live := StateE.life_eq_live.mpr opened
    exact sound.handleClose live (served live)
  · exact sound

/-- The functors come in order: `connectEstablished` first, and only once. -/
theorem Sound.runFunctor (sound : Sound conn) {functor : Functor} {rest : List Functor}
    (waits : conn.pending = functor :: rest) (permitted : conn.Permitted .runPending) :
    Sound (runFunctor app { conn with pending := rest } functor) := by
  have head : conn.pending.head? = some functor := by rw [waits, List.head?_cons]
  by_cases fresh : conn.state.life = .fresh
  · obtain ⟨_, others, first, once⟩ := sound.waiting fresh
    rw [waits] at first
    obtain ⟨rfl, rfl⟩ := List.cons.inj first
    have follows := sound.follows
    have none := sound.removals
    rw [fresh] at follows none
    rw [if_neg (by decide), Nat.le_zero] at none
    have whole : conn.destroyed = 0 := by
      by_contra positive
      have ended := sound.destroyed (Nat.pos_of_ne_zero positive)
      rw [fresh] at ended
      cases ended
    have apart : conn.channel.index ≠ .kAdded := by
      intro added
      have live := sound.added.mp added
      rw [fresh] at live
      cases live
    exact sound_connectEstablished follows none whole apart once sound.defined
  · have popped := sound.pop waits fresh
    cases functor with
    | connectEstablished =>
      have never := sound.established fresh
      rw [waits] at never
      exact absurd List.mem_cons_self never
    | forceCloseInLoop =>
      exact popped.forceCloseInLoop fun live => permitted.2 ⟨head, live⟩
    | connectDestroyed => exact popped.connectDestroyed fresh (permitted.1 head)

theorem Sound.destroyServer (sound : Sound conn)
    (permitted : conn.sameLoop = true → conn.listed = true → conn.state ≠ .kDisconnecting) :
    Sound (conn.destroyServer app) := by
  have gone : Sound { conn with served := false, listed := false } :=
    ⟨sound.follows, sound.removals, sound.destroyed, sound.added, sound.reading, sound.writing,
      sound.waiting, sound.established, sound.defined⟩
  rw [TcpConnection.destroyServer]
  simp only
  split
  · rename_i listed
    split
    · rename_i sameLoop
      refine gone.connectDestroyed (fun fresh => ?_) (permitted sameLoop listed)
      have otherLoop := (sound.waiting fresh).1
      rw [sameLoop] at otherLoop
      cases otherLoop
    · exact gone.calls ⟨rfl, rfl, rfl, rfl, rfl, rfl, rfl, rfl, rfl, fun _ => rfl,
        [.connectDestroyed], rfl, by decide⟩
  · exact gone

/-- **Every permitted step keeps the invariant.** -/
theorem Sound.next (sound : Sound conn) {event : Event} (permitted : Permitted conn event)
    (moved : next app conn event = some after) : Sound after := by
  have handled := handle_of_next moved
  cases event with
  | dispatch revents recv result =>
    obtain ⟨added, same⟩ := Option.ite_none_right_eq_some.mp handled
    cases same
    exact sound.dispatch (sound.added.mp added) permitted
  | runPending =>
    rw [handle] at handled
    split at handled
    · cases handled
    · rename_i functor rest waits
      cases handled
      exact sound.runFunctor waits permitted
  | call action =>
    cases handled
    exact sound.calls (calls_act sound.watched action)
  | runRemoval =>
    obtain ⟨_, same⟩ := Option.ite_none_right_eq_some.mp handled
    cases same
    have taken : Calls conn { conn with removing := conn.removing - 1 } :=
      .of_life rfl rfl rfl rfl rfl rfl rfl rfl rfl
    exact sound.calls (taken.trans (calls_removeConnectionInLoop (permitted.2 trivial)))
  | destroyServer =>
    obtain ⟨_, same⟩ := Option.ite_none_right_eq_some.mp handled
    cases same
    exact sound.destroyServer permitted.1

/-! ### Orderly runs -/

/-- **What the application relies on**: the callbacks are a prefix of up, messages, down; the server
is told to remove the connection at most once, and only while it is there; and once
`connectDestroyed` has returned, down has been delivered once and the connection is disconnected. -/
structure Orderly (conn : TcpConnection) : Prop where
  protocol : Protocol conn.trace
  defined : conn.dangling = false
  removals : conn.removals ≤ 1
  destroyed : 0 < conn.destroyed → conn.trace.count .down = 1 ∧ conn.state = .kDisconnected

theorem Sound.orderly (sound : Sound conn) : Orderly conn := by
  refine ⟨sound.follows.protocol, sound.defined, ?_, fun destroyed => ?_⟩
  · refine Nat.le_trans sound.removals ?_
    split
    · exact Nat.le_refl 1
    · exact Nat.zero_le 1
  · have ended := sound.destroyed destroyed
    have follows := sound.follows
    rw [ended] at follows
    exact ⟨follows.count_down, StateE.life_eq_ended.mp ended⟩

end TcpConnection

end EtherAdapter
