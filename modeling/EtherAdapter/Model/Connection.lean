/-
**One TCP connection of a server, on its event loop** (`TcpConnection.cpp`, the `#ifndef INWINDOWS`
branch; `Channel.cpp`, `EPollPoller.cpp` and `TcpServer.cpp` as far as one connection goes).

What the outside decides is part of an event: the poll bits of a dispatch, the results of `recv` and
`send`. The application is a function from the callbacks it has seen to the calls it makes in the
last one, so that every sequence of calls is the one of some application; calls from elsewhere on
the loop thread are events of their own. Assertions are compiled out in the release build, and what
follows them is the model. Log lines, the write-complete and the high-water callback are left out:
the latter two are not part of the life of a connection, and what they call are events.

Two things have no defined outcome: the close callback holds a plain pointer to the server, which may
be gone (`dangling`); and a message whose length is negative, as an `int`, is appended with a length
near `2 ^ 64` (`overrun`). The step in which one of them happens is the last.

* `TcpConnection` — the connection, its place in the poller, the functors that wait on its loop, and
  what its server knows of it.
* `handleEventWithGuard` — one dispatch: close, error, read and write handler, in this order.
* `TcpConnection.next` — one step of the loop, of the server or of the application.
-/

import EtherAdapter.Model.Stream

namespace EtherAdapter

/-! ### The channel in the poller -/

/-- `kNew`, `kAdded` and `kDeleted` of `EPollPoller.cpp`. -/
inductive PollIndex where
  | kNew
  | kAdded
  | kDeleted
deriving DecidableEq, Repr

/-- The events a connection asks for, and whether `epoll` watches its socket. -/
structure Channel where
  reading : Bool := false
  writing : Bool := false
  index : PollIndex := .kNew
deriving DecidableEq, Repr

namespace Channel

def isNoneEvent (channel : Channel) : Bool := !channel.reading && !channel.writing

/-- `EPollPoller::updateChannel`. A socket that is not watched is added, whatever it asks for. -/
def update (channel : Channel) : Channel :=
  match channel.index with
  | .kAdded => if channel.isNoneEvent then { channel with index := .kDeleted } else channel
  | .kNew | .kDeleted => { channel with index := .kAdded }

def enableReading (channel : Channel) : Channel := update { channel with reading := true }

def enableWriting (channel : Channel) : Channel := update { channel with writing := true }

def disableWriting (channel : Channel) : Channel := update { channel with writing := false }

def disableAll (channel : Channel) : Channel :=
  update { channel with reading := false, writing := false }

/-- `EPollPoller::removeChannel`: the socket is no longer watched. -/
def remove (channel : Channel) : Channel := { channel with index := .kNew }

end Channel

/-- The bits of `_revents`. -/
structure Revents where
  pollHup : Bool := false
  pollErr : Bool := false
  pollNval : Bool := false
  pollIn : Bool := false
  pollPri : Bool := false
  pollRdhup : Bool := false
  pollOut : Bool := false
deriving DecidableEq, Repr

/-! ### The connection -/

/-- `TcpConnection::StateE`. -/
inductive StateE where
  | kDisconnected
  | kConnecting
  | kConnected
  | kDisconnecting
deriving DecidableEq, Repr

/-- What the application sees of a connection. -/
inductive Callback where
  | up
  /-- With the readable bytes of the input buffer. -/
  | message (readable : Bytes)
  | down
deriving DecidableEq, Repr

/-- What `send(2)` answers; it takes no more than it is given. -/
inductive WriteResult where
  | wrote (n : ℕ)
  | wouldBlock
  /-- `EPIPE` or `ECONNRESET`. -/
  | broken
  | failed
deriving DecidableEq, Repr

/-- The bytes that one `send(2)` takes at most, however large the `size_t` it is given. -/
def kMaxTransfer : ℕ := 0x7ffff000

/-- How many of `len` bytes the socket takes. A negative length is a large one to `send(2)`. -/
def WriteResult.taken (result : WriteResult) (len : Int) : ℕ :=
  match result with
  | .wrote n => min n (if len < 0 then kMaxTransfer else len.toNat)
  | .wouldBlock | .broken | .failed => 0

/-- A call of the application. `send` comes with the answer of the socket, should it be asked. -/
inductive Action where
  | send (message : Bytes) (result : WriteResult)
  | shutdown
  | forceClose
  /-- `retrieve` on the input buffer. -/
  | retrieve (len : ℕ)
deriving DecidableEq, Repr

/-- The calls of the application in the last of the callbacks it has seen. -/
abbrev App := List Callback → List Action

/-- What waits in `_pendingFunctors` of the connection's loop. -/
inductive Functor where
  | connectEstablished
  | forceCloseInLoop
  | connectDestroyed
deriving DecidableEq, Repr

structure TcpConnection where
  state : StateE := .kConnecting
  channel : Channel := {}
  inputBuffer : Bytes := []
  outputBuffer : Bytes := []
  /-- The bytes the socket has taken. -/
  accepted : Bytes := []
  /-- `shutdownWrite` has been called. -/
  finSent : Bool := false
  pending : List Functor := []
  /-- The callbacks so far. -/
  trace : List Callback := []
  /-- The calls of `connectDestroyed` that have returned. -/
  destroyed : ℕ := 0
  /-- The server and the connection have one loop. -/
  sameLoop : Bool
  /-- The server has not been destroyed. -/
  served : Bool := true
  /-- In `TcpServer::_connections`. -/
  listed : Bool := true
  /-- The calls of `TcpServer::removeConnection`. -/
  removals : ℕ := 0
  /-- Calls of `removeConnectionInLoop` that wait on the server's loop. -/
  removing : ℕ := 0
  /-- A server that had been destroyed has been used. -/
  dangling : Bool := false
  /-- `append` has been given a length that no message has. -/
  overrun : Bool := false
deriving DecidableEq, Repr

namespace TcpConnection

/-! ### Calls of the application -/

/-- The socket takes bytes. -/
def accept (conn : TcpConnection) (bytes : Bytes) : TcpConnection :=
  { conn with accepted := conn.accepted ++ bytes }

/-- What the socket has not taken waits in the output buffer. -/
def buffer (conn : TcpConnection) (rest : Bytes) : TcpConnection :=
  { conn with
    outputBuffer := conn.outputBuffer ++ rest
    channel := if conn.channel.writing then conn.channel else conn.channel.enableWriting }

/-- `remaining` is a `size_t`: where `len` is negative, it is larger than any message. -/
def sendInLoop (conn : TcpConnection) (message : Bytes) (len : Int) (result : WriteResult) :
    TcpConnection :=
  if conn.state = .kDisconnected then conn
  else
    let direct := conn.channel.writing = false ∧ conn.outputBuffer = []
    let nwrote := if direct then result.taken len else 0
    let faultError := direct ∧ result = .broken
    if faultError then conn
    else if len < 0 then { conn.accept (message.take nwrote) with overrun := true }
    else if len.toNat ≤ nwrote then conn.accept (message.take nwrote)
    else (conn.accept (message.take nwrote)).buffer ((message.take len.toNat).drop nwrote)

/-- Only a connected connection sends. The length of the message goes into an `int`. -/
def send (conn : TcpConnection) (message : Bytes) (result : WriteResult) : TcpConnection :=
  if conn.state = .kConnected then conn.sendInLoop message (intSize message.length) result else conn

def shutdownInLoop (conn : TcpConnection) : TcpConnection :=
  if conn.channel.writing then conn else { conn with finSent := true }

/-- Callers are on the loop thread, so `runInLoop` calls at once. -/
def shutdown (conn : TcpConnection) : TcpConnection :=
  if conn.state = .kConnected then shutdownInLoop { conn with state := .kDisconnecting } else conn

def forceClose (conn : TcpConnection) : TcpConnection :=
  if conn.state = .kConnected ∨ conn.state = .kDisconnecting then
    { conn with state := .kDisconnecting, pending := conn.pending ++ [.forceCloseInLoop] }
  else conn

def act (conn : TcpConnection) : Action → TcpConnection
  | .send message result => conn.send message result
  | .shutdown => conn.shutdown
  | .forceClose => conn.forceClose
  | .retrieve len => { conn with inputBuffer := conn.inputBuffer.drop len }

/-! ### Callbacks -/

/-- A callback has been entered. -/
def record (conn : TcpConnection) (callback : Callback) : TcpConnection :=
  { conn with trace := conn.trace ++ [callback] }

/-- A callback, with the calls the application makes in it. -/
def deliver (app : App) (conn : TcpConnection) (callback : Callback) : TcpConnection :=
  (app (conn.record callback).trace).foldl act (conn.record callback)

/-- `_connectionCallback`: the application reads `connected()` to tell up from down. -/
def connectionCallback (app : App) (conn : TcpConnection) : TcpConnection :=
  conn.deliver app (if conn.state = .kConnected then .up else .down)

/-! ### The server -/

/-- A member function of the server has been called. -/
def useServer (conn : TcpConnection) : TcpConnection :=
  { conn with dangling := conn.dangling || !conn.served }

def removeConnectionInLoop (conn : TcpConnection) : TcpConnection :=
  { conn.useServer with listed := false, pending := conn.pending ++ [.connectDestroyed] }

/-- `_closeCallback`. -/
def removeConnection (conn : TcpConnection) : TcpConnection :=
  let told := { conn.useServer with removals := conn.removals + 1 }
  if conn.sameLoop then told.removeConnectionInLoop else { told with removing := conn.removing + 1 }

/-! ### Handlers -/

/-- `setState(kDisconnected)` and `_channel->disableAll()`. -/
def takeDown (conn : TcpConnection) : TcpConnection :=
  { conn with state := .kDisconnected, channel := conn.channel.disableAll }

def handleClose (app : App) (conn : TcpConnection) : TcpConnection :=
  (conn.takeDown.connectionCallback app).removeConnection

def handleError (app : App) (conn : TcpConnection) : TcpConnection :=
  if conn.state = .kConnected ∨ conn.state = .kDisconnecting then conn.handleClose app else conn

/-- `_inputBuffer.hasWritten(len)`, for the bytes read into it. -/
def receive (conn : TcpConnection) (data : Bytes) : TcpConnection :=
  { conn with inputBuffer := conn.inputBuffer ++ data }

/-- `recv` gives the bytes it has read, none of them at the end of the stream, or an error. -/
def handleRead (app : App) (conn : TcpConnection) (recv : Option Bytes) : TcpConnection :=
  match recv with
  | some [] => conn.handleClose app
  | some data => (conn.receive data).deliver app (.message (conn.receive data).inputBuffer)
  | none => conn.handleError app

/-- The output buffer once the socket has taken its first `n` bytes. -/
def flush (conn : TcpConnection) (n : ℕ) : TcpConnection :=
  { conn.accept (conn.outputBuffer.take n) with outputBuffer := conn.outputBuffer.drop n }

/-- Everything has been written: a waiting `shutdown` is carried out. -/
def drained (conn : TcpConnection) : TcpConnection :=
  let conn := { conn with channel := conn.channel.disableWriting }
  if conn.state = .kDisconnecting then conn.shutdownInLoop else conn

def handleWrite (conn : TcpConnection) (result : WriteResult) : TcpConnection :=
  if conn.channel.writing then
    let n := result.taken (intSize conn.outputBuffer.length)
    if 0 < n then
      if (conn.flush n).outputBuffer = [] then (conn.flush n).drained else conn.flush n
    else conn
  else conn

def forceCloseInLoop (app : App) (conn : TcpConnection) : TcpConnection :=
  if conn.state = .kConnected ∨ conn.state = .kDisconnecting then conn.handleClose app else conn

/-- `setState(kConnected)` and `_channel->enableReading()`. -/
def bringUp (conn : TcpConnection) : TcpConnection :=
  { conn with state := .kConnected, channel := conn.channel.enableReading }

def connectEstablished (app : App) (conn : TcpConnection) : TcpConnection :=
  conn.bringUp.connectionCallback app

/-- `_channel->remove()`, with which `connectDestroyed` ends. -/
def detach (conn : TcpConnection) : TcpConnection :=
  { conn with channel := conn.channel.remove, destroyed := conn.destroyed + 1 }

def connectDestroyed (app : App) (conn : TcpConnection) : TcpConnection :=
  if conn.state = .kConnected then (conn.takeDown.connectionCallback app).detach else conn.detach

/-! ### Steps -/

/-- `Channel::handleEventWithGuard`. -/
def handleEventWithGuard (app : App) (conn : TcpConnection) (revents : Revents)
    (recv : Option Bytes) (result : WriteResult) : TcpConnection :=
  let conn := if revents.pollHup ∧ ¬ revents.pollIn then conn.handleClose app else conn
  let conn := if revents.pollErr ∨ revents.pollNval then conn.handleError app else conn
  let conn := if revents.pollIn ∨ revents.pollPri ∨ revents.pollRdhup then
    conn.handleRead app recv else conn
  if revents.pollOut then conn.handleWrite result else conn

def runFunctor (app : App) (conn : TcpConnection) : Functor → TcpConnection
  | .connectEstablished => conn.connectEstablished app
  | .forceCloseInLoop => conn.forceCloseInLoop app
  | .connectDestroyed => conn.connectDestroyed app

/-- `TcpServer::newConnection`: on its own loop the server establishes the connection at once. -/
def newConnection (app : App) (sameLoop : Bool) : TcpConnection :=
  if sameLoop then connectEstablished app { sameLoop := sameLoop }
  else { sameLoop := sameLoop, pending := [.connectEstablished] }

inductive Event where
  /-- The poller reports the socket. -/
  | dispatch (revents : Revents) (recv : Option Bytes) (result : WriteResult)
  /-- The loop runs the next functor. -/
  | runPending
  /-- The application calls, outside the callbacks of this connection. -/
  | call (action : Action)
  /-- The server's loop runs `removeConnectionInLoop`. -/
  | runRemoval
  /-- `TcpServer::~TcpServer`. -/
  | destroyServer
deriving DecidableEq, Repr

/-- The server goes, and takes along the connections it still lists. -/
def destroyServer (app : App) (conn : TcpConnection) : TcpConnection :=
  let gone := { conn with served := false, listed := false }
  if conn.listed then
    if conn.sameLoop then gone.connectDestroyed app
    else { gone with pending := gone.pending ++ [.connectDestroyed] }
  else gone

/-- One event; `none` when it cannot happen. The poller reports the sockets it watches. -/
def handle (app : App) (conn : TcpConnection) : Event → Option TcpConnection
  | .dispatch revents recv result =>
    if conn.channel.index = .kAdded then some (conn.handleEventWithGuard app revents recv result)
    else none
  | .runPending =>
    match conn.pending with
    | [] => none
    | functor :: rest => some (runFunctor app { conn with pending := rest } functor)
  | .call action => some (conn.act action)
  | .runRemoval =>
    if 0 < conn.removing then
      some (removeConnectionInLoop { conn with removing := conn.removing - 1 })
    else none
  | .destroyServer => if conn.served then some (conn.destroyServer app) else none

/-- **One step**, of a program whose behaviour has been defined so far. -/
def next (app : App) (conn : TcpConnection) (event : Event) : Option TcpConnection :=
  if conn.dangling ∨ conn.overrun then none else conn.handle app event

theorem handle_of_next {app : App} {conn after : TcpConnection} {event : Event}
    (moved : conn.next app event = some after) : conn.handle app event = some after :=
  (Option.ite_none_left_eq_some.mp moved).2

end TcpConnection

end EtherAdapter
