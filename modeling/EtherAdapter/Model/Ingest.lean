/-
**The ingest server** (`IngestServer.cpp`), and the peer matching it uses (`ConfigDB::matchGroup`).

A connection is a number that is not used again: an entry of `_groupByConn` is erased when its
connection goes down, so a reused address finds no old entry either. Counters and log lines are left
out.

* `IngestServer.onMessage` — what was received becomes at most one chunk, which names the group of
  its peer and holds at least one byte (`onMessage_chunk`).
-/

import EtherAdapter.Model.Parser

namespace EtherAdapter

/-! ### Peers and their groups -/

abbrev Text := List Char

/-- The address a connection comes from. -/
structure Peer where
  ip : Text
  port : UInt16
deriving DecidableEq, Repr

/-- `ip + ":" + std::to_string(port)`. -/
def Peer.key (peer : Peer) : Text := peer.ip ++ ':' :: Nat.toDigits 10 peer.port.toNat

/-- The indexes of the configuration, as far as the ingest server reads them. -/
structure ConfigDB where
  groupByIpPort : AList (fun _ : Text => GroupPtr) := ∅
  groupByIpUnique : AList (fun _ : Text => GroupPtr) := ∅

/-- Exact `ip:port` first, then the ip alone where it has one group only. -/
def ConfigDB.matchGroup (db : ConfigDB) (peer : Peer) : Option GroupPtr :=
  match db.groupByIpPort.lookup peer.key with
  | some group => some group
  | none => db.groupByIpUnique.lookup peer.ip

/-! ### The server -/

structure IngestServer where
  groupByConn : AList (fun _ : ℕ => Option GroupPtr) := ∅

/-- Only raw data of a primary member with a field layout is passed on. -/
def GroupPtr.ingestable (group : GroupPtr) : Bool :=
  match group.group.primary with
  | none => false
  | some dev => (dev.desc.connProto = connCustomData ∨ dev.desc.connProto = connModbus) ∧
      dev.desc.spec.fields ≠ []

namespace IngestServer

/-- `onConnection`, on the way up. -/
def connect (server : IngestServer) (db : ConfigDB) (conn : ℕ) (peer : Peer) : IngestServer :=
  { server with groupByConn := server.groupByConn.insert conn (db.matchGroup peer) }

/-- `onConnection`, on the way down. -/
def disconnect (server : IngestServer) (conn : ℕ) : IngestServer :=
  { server with groupByConn := server.groupByConn.erase conn }

/-- The group `onMessage` works with: the one found when the connection came up, or else the one
that matches now. -/
def groupOf (server : IngestServer) (db : ConfigDB) (conn : ℕ) (peer : Peer) : Option GroupPtr :=
  match server.groupByConn.lookup conn with
  | some (some group) => some group
  | _ => db.matchGroup peer

/-- `onMessage`: the server afterwards, and the chunk it enqueues. -/
def onMessage (server : IngestServer) (db : ConfigDB) (conn : ℕ) (peer : Peer) (data : Bytes)
    (timeUs : Int) : IngestServer × Option RawChunk :=
  if data = [] then (server, none)
  else
    match server.groupOf db conn peer with
    | none => (server, none)
    | some group =>
      let server :=
        if (server.groupByConn.lookup conn).join.isSome then server
        else { server with groupByConn := server.groupByConn.insert conn (some group) }
      if group.ingestable then (server, some ⟨some group, timeUs.tdiv 1000, data⟩)
      else (server, none)

/-- **A chunk names the group of its connection and is not empty.** -/
theorem onMessage_chunk {server : IngestServer} {db : ConfigDB} {conn : ℕ} {peer : Peer}
    {data : Bytes} {timeUs : Int} {chunk : RawChunk}
    (enqueued : (server.onMessage db conn peer data timeUs).2 = some chunk) :
    ∃ group, server.groupOf db conn peer = some group ∧ group.ingestable = true ∧
      chunk = ⟨some group, timeUs.tdiv 1000, data⟩ ∧ data ≠ [] := by
  unfold onMessage at enqueued
  split at enqueued
  · cases enqueued
  rename_i some
  cases matched : server.groupOf db conn peer with
  | none =>
    rw [matched] at enqueued
    cases enqueued
  | some group =>
    rw [matched] at enqueued
    simp only at enqueued
    split at enqueued
    · rename_i passes
      cases enqueued
      exact ⟨group, rfl, passes, rfl, some⟩
    · cases enqueued

/-- A message files nothing but the group it was given. -/
theorem lookup_onMessage {server : IngestServer} {db : ConfigDB} {conn : ℕ} {peer : Peer}
    {data : Bytes} {timeUs : Int} {other : ℕ} {group : GroupPtr}
    (found : (server.onMessage db conn peer data timeUs).1.groupByConn.lookup other =
      some (some group)) :
    server.groupByConn.lookup other = some (some group) ∨
      other = conn ∧ server.groupOf db conn peer = some group := by
  unfold onMessage at found
  by_cases empty : data = []
  · rw [if_pos empty] at found
    exact Or.inl found
  rw [if_neg empty] at found
  cases matched : server.groupOf db conn peer with
  | none =>
    rw [matched] at found
    exact Or.inl found
  | some own =>
    simp only [matched, apply_ite Prod.fst, ite_self] at found
    split at found
    · exact Or.inl found
    · by_cases same : other = conn
      · rw [same, AList.lookup_insert, Option.some.injEq] at found
        exact Or.inr ⟨same, found⟩
      · rw [AList.lookup_insert_ne same] at found
        exact Or.inl found

end IngestServer

end EtherAdapter
