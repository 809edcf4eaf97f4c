/-
**A TCP server with its connections** (`TcpServer.cpp`, `EventLoopThreadPool.cpp`).

The server gives each connection a name of its own, a loop in turn, and a place in `_connections`
under the name. What a connection does is `TcpConnection.next`; each call it makes of
`removeConnectionInLoop` erases its name from `_connections`. The run is one up to the destructor.
-/

import Mathlib.Logic.Function.Basic
import EtherAdapter.Model.Config
import EtherAdapter.Model.Connection

namespace EtherAdapter

/-- `EventLoopThreadPool`, started: its loops, and whose turn it is. -/
structure LoopPool where
  loops : ℕ
  next : ℕ := 0
deriving DecidableEq, Repr

/-- `getNextLoop`: the loops in turn, or the base loop where there are none. -/
def LoopPool.getNextLoop (pool : LoopPool) : Option ℕ × LoopPool :=
  if pool.loops = 0 then (none, pool)
  else (some pool.next,
    { pool with next := if pool.loops ≤ pool.next + 1 then 0 else pool.next + 1 })

/-- A connection with its name and its loop. -/
structure ServedConnection where
  name : Bytes
  loop : Option ℕ
  conn : TcpConnection
deriving DecidableEq, Repr

structure TcpServer where
  name : Bytes
  /-- `_localAddr.toIpPort()`. -/
  ipPort : Bytes
  pool : LoopPool
  nextConnId : ℕ := 1
  /-- `_connections`; the pointer is the connection's number. -/
  connections : Bytes → Option ℕ := fun _ => none
  /-- All connections so far. -/
  all : List ServedConnection := []
  /-- What the calls of `_connections.erase` have returned. -/
  erased : List ℕ := []

inductive ServerEvent where
  /-- The acceptor calls `newConnection`. -/
  | accept
  /-- A step of a connection. -/
  | step (i : ℕ) (event : TcpConnection.Event)
deriving DecidableEq, Repr

/-- The calls of `removeConnectionInLoop` that have returned. -/
def TcpConnection.erasures (conn : TcpConnection) : ℕ := conn.removals - conn.removing

namespace TcpServer

/-- `-%s#%lld` in a buffer of 64 bytes. -/
def idText (server : TcpServer) : Bytes :=
  (45 :: server.ipPort ++ 35 :: decimal server.nextConnId).take 63

def connName (server : TcpServer) : Bytes := server.name ++ server.idText

def newConnection (apps : ℕ → App) (server : TcpServer) : TcpServer :=
  let (ioLoop, pool) := server.pool.getNextLoop
  { server with
    pool
    nextConnId := server.nextConnId + 1
    connections := Function.update server.connections server.connName (some server.all.length)
    all := server.all ++ [⟨server.connName, ioLoop,
      TcpConnection.newConnection (apps server.all.length) ioLoop.isNone⟩] }

/-- `removeConnectionInLoop`, on the map. -/
def eraseConnection (name : Bytes) (server : TcpServer) : TcpServer :=
  { server with
    connections := Function.update server.connections name none
    erased := server.erased ++ [if (server.connections name).isSome then 1 else 0] }

def next (apps : ℕ → App) (server : TcpServer) : ServerEvent → Option TcpServer
  | .accept => some (server.newConnection apps)
  | .step i event =>
    match server.all[i]? with
    | none => none
    | some served =>
      if event = .destroyServer then none
      else (served.conn.next (apps i) event).map fun conn =>
        (eraseConnection served.name)^[conn.erasures - served.conn.erasures]
          { server with all := server.all.set i { served with conn } }

end TcpServer

end EtherAdapter
