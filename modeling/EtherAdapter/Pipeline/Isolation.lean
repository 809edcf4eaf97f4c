/-
**Connections that share a peer group.**

The parser keeps one `DeviceStream` for a peer group, whichever connection the bytes came on. The
bytes that a connection leaves behind are glued to the first bytes of the next one
(`reconnect_glues_frame`). As long as no chunk meets the leftover of another connection, every
connection is decoded as if it were alone.

* `Attributed` — the invariant of the ingest side: every chunk names the group of its connection,
  and the chunks of a connection are what it received.
* `Separate` — the invariant of the parser side: the leftover of a group's stream is that of the
  connection fed last, and every other connection of the group has none.
* **`connections_isolated`** — in a run whose parser takes no chunk on top of another connection's
  leftover (`takesOwn`), the rows of every connection are those of a fresh stream of its group, fed
  the connection's own chunks.
-/

import EtherAdapter.Pipeline.Shutdown

namespace EtherAdapter

open Runs

/-! ### One connection among the chunks -/

/-- The chunks of a connection. -/
def chunksOf (conn : ℕ) (items : List Ingested) : List (Bytes × Int) :=
  (items.filter fun item => item.conn = conn).map fun item => (item.chunk.data, item.chunk.recvMs)

/-- The rows found in the chunks of a connection. -/
def connRows (conn : ℕ) (items : List Ingested) (rows : List (List Row)) : List Row :=
  ((items.zip rows).filter fun entry => entry.1.conn = conn).flatMap Prod.snd

/-- The connection a group's stream was fed from last. -/
def lastFeeder (group : GroupPtr) (items : List Ingested) : Option ℕ :=
  ((items.filter fun item => item.chunk.group = some group).getLast?).map Ingested.conn

/-- Every chunk of the connection names this group. -/
def Names (conn : ℕ) (group : GroupPtr) (items : List Ingested) : Prop :=
  ∀ item ∈ items, item.conn = conn → item.chunk.group = some group

theorem Names.of_append {conn : ℕ} {group : GroupPtr} {items more : List Ingested}
    (names : Names conn group (items ++ more)) : Names conn group items :=
  fun item member => names item (List.mem_append_left _ member)

/-- A fresh stream of the group, fed the chunks of one connection alone. -/
def alone (group : GroupPtr) (conn : ℕ) (items : List Ingested) : DeviceStream × List Row :=
  feedChunks (ParserWorker.codec group.group) {} (chunksOf conn items)

section Concat

variable {items : List Ingested} {item : Ingested}

theorem chunksOf_append (conn : ℕ) (items more : List Ingested) :
    chunksOf conn (items ++ more) = chunksOf conn items ++ chunksOf conn more := by
  simp only [chunksOf, List.filter_append, List.map_append]

theorem chunksOf_concat_ne {conn : ℕ} (other : item.conn ≠ conn) :
    chunksOf conn (items ++ [item]) = chunksOf conn items := by
  simp [chunksOf, other]

theorem lastFeeder_concat {group : GroupPtr} (own : item.chunk.group = some group) :
    lastFeeder group (items ++ [item]) = some item.conn := by
  simp [lastFeeder, own]

theorem lastFeeder_concat_ne {group : GroupPtr} (other : item.chunk.group ≠ some group) :
    lastFeeder group (items ++ [item]) = lastFeeder group items := by
  simp [lastFeeder, other]

theorem connRows_concat {rows : List (List Row)} (aligned : items.length = rows.length) (conn : ℕ)
    (new : List Row) :
    connRows conn (items ++ [item]) (rows ++ [new]) =
      connRows conn items rows ++ if item.conn = conn then new else [] := by
  rw [connRows, List.zip_append aligned, List.filter_append, List.flatMap_append]
  congr 1
  by_cases own : item.conn = conn <;> simp [own]

/-- One more chunk of the connection. -/
theorem alone_concat (group : GroupPtr) :
    alone group item.conn (items ++ [item]) =
      let before := alone group item.conn items
      let now := ParserWorker.codec group.group before.1 item.chunk.data item.chunk.recvMs
      (now.1, before.2 ++ now.2) := by
  have grown : chunksOf item.conn (items ++ [item]) =
      chunksOf item.conn items ++ [(item.chunk.data, item.chunk.recvMs)] := by
    simp [chunksOf]
  rw [alone, grown, feedChunks_concat]
  rfl

end Concat

/-! ### The parser side -/

/-- **The streams and the connections.** `rows` are the rows found in each of the chunks `items`. -/
structure Separate (items : List Ingested) (rows : List (List Row)) (worker : ParserWorker) :
    Prop where
  aligned : items.length = rows.length
  buf : ∀ {conn group}, Names conn group items → (alone group conn items).1.buf =
    if lastFeeder group items = some conn then (worker.stream group).buf else []
  rows : ∀ {conn group}, Names conn group items →
    connRows conn items rows = (alone group conn items).2

namespace Separate

variable {items : List Ingested} {rows : List (List Row)} {worker : ParserWorker}

theorem start (batchRows : ℕ) : Separate [] [] { batchRows } :=
  ⟨rfl, fun _ => rfl, fun _ => rfl⟩

/-- Only the streams matter. -/
theorem congr {other : ParserWorker} (separate : Separate items rows worker)
    (same : other.streams = worker.streams) : Separate items rows other := by
  refine ⟨separate.aligned, fun {conn group} names => ?_, separate.rows⟩
  rw [separate.buf names, ParserWorker.stream, ParserWorker.stream, same]

/-- Before a chunk that meets no leftover of another connection, the stream holds what the chunk's
connection left when alone, and the other connections of the group left nothing. -/
theorem leftover {conn next : ℕ} {group : GroupPtr} (separate : Separate items rows worker)
    (names : Names conn group items)
    (meets : (worker.stream group).buf = [] ∨ lastFeeder group items = some next) :
    (alone group conn items).1.buf = if next = conn then (worker.stream group).buf else [] := by
  rw [separate.buf names]
  rcases meets with empty | fed
  · rw [empty, ite_self, ite_self]
  · simp only [fed, Option.some.injEq]

/-- **A chunk that meets no leftover of another connection** is decoded as it would be alone. -/
theorem take {item : Ingested} {group : GroupPtr} (separate : Separate items rows worker)
    (known : item.chunk.group = some group)
    (meets : (worker.stream group).buf = [] ∨ lastFeeder group items = some item.conn) :
    Separate (items ++ [item]) (rows ++ [(worker.receive group item.chunk).2])
      (worker.receive group item.chunk).1 := by
  have own {owner : GroupPtr} (names : Names item.conn owner (items ++ [item])) :
      owner = group ∧ (alone group item.conn items).1.buf = (worker.stream group).buf := by
    have named := names item (List.mem_append_right _ (List.mem_singleton_self _)) rfl
    rw [known, Option.some.injEq] at named
    subst named
    exact ⟨rfl, (separate.leftover names.of_append meets).trans (if_pos rfl)⟩
  refine ⟨?_, fun {conn owner} names => ?_, fun {conn owner} names => ?_⟩
  · rw [List.length_append, List.length_append, separate.aligned]
    rfl
  · by_cases same : item.conn = conn
    · subst same
      obtain ⟨rfl, leftover⟩ := own names
      rw [alone_concat, lastFeeder_concat known, if_pos rfl,
        ParserWorker.stream_receive]
      exact (ParserWorker.codec_congr _ leftover _ _).1
    · rw [alone, chunksOf_concat_ne same, ← alone]
      by_cases served : owner = group
      · subst served
        rw [separate.leftover names.of_append meets, lastFeeder_concat known, if_neg same,
          if_neg fun equal => same (Option.some.inj equal)]
      · have other : item.chunk.group ≠ some owner := by
          rw [known, Ne, Option.some.injEq]
          exact fun equal => served equal.symm
        rw [separate.buf names.of_append, lastFeeder_concat_ne other,
          ParserWorker.stream_receive_ne _ served]
  · rw [connRows_concat separate.aligned, separate.rows names.of_append]
    by_cases same : item.conn = conn
    · subst same
      obtain ⟨rfl, leftover⟩ := own names
      rw [if_pos rfl, alone_concat]
      exact congrArg _ (ParserWorker.codec_congr _ leftover _ _).2.symm
    · rw [if_neg same, List.append_nil, alone, alone, chunksOf_concat_ne same]

end Separate

/-! ### The ingest side -/

/-- The server passes on what comes from this peer. -/
def ConfigDB.passes (db : ConfigDB) (peer : Peer) : Bool :=
  (db.matchGroup peer).any GroupPtr.ingestable

/-- What the server passes on of what it received from a peer. -/
def passedOn (db : ConfigDB) (peer : Peer) (received : List (Bytes × Int)) : List (Bytes × Int) :=
  if db.passes peer then
    (received.filter fun message => message.1 ≠ []).map fun message =>
      (message.1, message.2.tdiv 1000)
  else []

theorem passedOn_nil (db : ConfigDB) (peer : Peer) : passedOn db peer [] = [] := ite_self _

theorem passedOn_append (db : ConfigDB) (peer : Peer) (received more : List (Bytes × Int)) :
    passedOn db peer (received ++ more) = passedOn db peer received ++ passedOn db peer more := by
  unfold passedOn
  split
  · rw [List.filter_append, List.map_append]
  · rfl

/-- One message, passed on or not. -/
theorem chunksOf_onMessage {server : IngestServer} {db : ConfigDB} {conn : ℕ} {peer : Peer}
    (same : server.groupOf db conn peer = db.matchGroup peer) (data : Bytes) (timeUs : Int) :
    chunksOf conn
        ((server.onMessage db conn peer data timeUs).2.map fun chunk => ⟨conn, chunk⟩).toList =
      passedOn db peer [(data, timeUs)] := by
  unfold passedOn ConfigDB.passes IngestServer.onMessage
  rw [same]
  by_cases empty : data = []
  · simp [empty, chunksOf]
  cases matched : db.matchGroup peer with
  | none => simp [empty, chunksOf]
  | some group =>
    cases passes : group.ingestable with
    | false => simp [empty, passes, chunksOf]
    | true => simp [empty, passes, chunksOf]

/-- What arrived on a connection. -/
def Adapter.receivedOn (a : Adapter) (conn : ℕ) : List (Bytes × Int) :=
  (a.received.filter fun entry => entry.1 = conn).map Prod.snd

/-- **The invariant of the ingest side.** -/
structure Attributed (db : ConfigDB) (a : Adapter) : Prop where
  entries : ∀ {conn group}, a.server.groupByConn.lookup conn = some (some group) →
    ∃ peer, a.opened[conn]? = some peer ∧ db.matchGroup peer = some group
  known : ∀ item ∈ a.ingested, ∃ peer group, a.opened[item.conn]? = some peer ∧
    db.matchGroup peer = some group ∧ item.chunk.group = some group
  heard : ∀ entry ∈ a.received, entry.1 < a.opened.length
  passed : ∀ {conn peer}, a.opened[conn]? = some peer →
    chunksOf conn a.ingested = passedOn db peer (a.receivedOn conn)

namespace Attributed

variable {db : ConfigDB} {a : Adapter}

theorem start (batchRows : Int) : Attributed db (Adapter.start batchRows) := by
  refine ⟨fun {conn group} found => ?_, fun _ member => absurd member List.not_mem_nil,
    fun _ member => absurd member List.not_mem_nil, fun {conn peer} opened => ?_⟩
  · rw [show (Adapter.start batchRows).server.groupByConn.lookup conn = none from
      AList.lookup_empty conn] at found
    cases found
  · cases opened

/-- The group a message is given is the one its peer matches. -/
theorem groupOf_eq (attributed : Attributed db a) {conn : ℕ} {peer : Peer}
    (opened : a.opened[conn]? = some peer) :
    a.server.groupOf db conn peer = db.matchGroup peer := by
  unfold IngestServer.groupOf
  split
  · rename_i group found
    obtain ⟨other, here, matched⟩ := attributed.entries found
    rw [opened, Option.some.injEq] at here
    rw [here, matched]
  · rfl

/-- Nothing has come on a connection that is not up yet. -/
theorem connect (attributed : Attributed db a) (peer : Peer) (live : List ℕ) :
    Attributed db { a with
      opened := a.opened ++ [peer], live, server := a.server.connect db a.opened.length peer } := by
  have kept {conn : ℕ} {other : Peer} (opened : a.opened[conn]? = some other) :
      (a.opened ++ [peer])[conn]? = some other := by
    obtain ⟨inside, _⟩ := List.getElem?_eq_some_iff.mp opened
    rw [List.getElem?_append_left inside, opened]
  refine ⟨fun {conn group} found => ?_, fun item member => ?_, fun entry member => ?_,
    fun {conn other} opened => ?_⟩
  · change (a.server.groupByConn.insert a.opened.length (db.matchGroup peer)).lookup conn =
      some (some group) at found
    by_cases new : conn = a.opened.length
    · subst new
      rw [AList.lookup_insert, Option.some.injEq] at found
      exact ⟨peer, List.getElem?_concat_length, found⟩
    · rw [AList.lookup_insert_ne new] at found
      obtain ⟨other, opened, matched⟩ := attributed.entries found
      exact ⟨other, kept opened, matched⟩
  · obtain ⟨other, group, opened, matched, named⟩ := attributed.known item member
    exact ⟨other, group, kept opened, matched, named⟩
  · have before := attributed.heard entry member
    rw [List.length_append]
    exact Nat.lt_add_right _ before
  · by_cases new : conn < a.opened.length
    · change (a.opened ++ [peer])[conn]? = some other at opened
      rw [List.getElem?_append_left new] at opened
      exact attributed.passed opened
    · have silent : a.receivedOn conn = [] := by
        simp only [Adapter.receivedOn, List.map_eq_nil_iff, List.filter_eq_nil_iff,
          decide_eq_true_eq]
        exact fun entry member equal => new (equal ▸ attributed.heard entry member)
      have nothing : chunksOf conn a.ingested = [] := by
        simp only [chunksOf, List.map_eq_nil_iff, List.filter_eq_nil_iff, decide_eq_true_eq]
        intro item member equal
        obtain ⟨_, _, here, _⟩ := attributed.known item member
        exact new (equal ▸ (List.getElem?_eq_some_iff.mp here).1)
      show chunksOf conn a.ingested = passedOn db other (a.receivedOn conn)
      rw [silent, nothing, passedOn_nil]

theorem disconnect (attributed : Attributed db a) (conn : ℕ) (live : List ℕ) :
    Attributed db { a with live, server := a.server.disconnect conn } := by
  refine ⟨fun {other group} found => attributed.entries ?_, attributed.known, attributed.heard,
    attributed.passed⟩
  change (a.server.groupByConn.erase conn).lookup other = some (some group) at found
  by_cases same : other = conn
  · rw [same, AList.lookup_erase] at found
    cases found
  · rwa [AList.lookup_erase_ne same] at found

/-- **A message becomes a chunk of its connection's group**, or is passed over. -/
theorem message (attributed : Attributed db a) {conn : ℕ} {peer : Peer}
    (opened : a.opened[conn]? = some peer) (data : Bytes) (timeUs : Int) :
    Attributed db { a with
      server := (a.server.onMessage db conn peer data timeUs).1
      received := a.received ++ [(conn, data, timeUs)]
      ingested := a.ingested ++
        ((a.server.onMessage db conn peer data timeUs).2.map
          fun chunk => ⟨conn, chunk⟩).toList } := by
  have group := attributed.groupOf_eq opened
  refine ⟨fun {other found} present => ?_, fun item member => ?_, fun entry member => ?_,
    fun {other peer'} here => ?_⟩
  · rcases IngestServer.lookup_onMessage present with before | ⟨rfl, given⟩
    · exact attributed.entries before
    · exact ⟨peer, opened, group ▸ given⟩
  · rcases List.mem_append.mp member with before | new
    · exact attributed.known item before
    · obtain ⟨chunk, enqueued, rfl⟩ := Option.map_eq_some_iff.mp (Option.mem_toList.mp new)
      obtain ⟨own, given, _, rfl, _⟩ := IngestServer.onMessage_chunk enqueued
      exact ⟨peer, own, opened, group ▸ given, rfl⟩
  · rcases List.mem_append.mp member with before | new
    · exact attributed.heard entry before
    · rcases List.mem_singleton.mp new with rfl
      exact (List.getElem?_eq_some_iff.mp opened).1
  · show chunksOf other (a.ingested ++ _) =
      passedOn db peer' (((a.received ++ [(conn, data, timeUs)]).filter _).map Prod.snd)
    have before := attributed.passed here
    rw [chunksOf_append, before, List.filter_append, List.map_append, passedOn_append,
      ← Adapter.receivedOn]
    congr 1
    by_cases same : conn = other
    · subst same
      rw [opened, Option.some.injEq] at here
      subst here
      rw [chunksOf_onMessage group]
      simp
    · have others : chunksOf other ((a.server.onMessage db conn peer data timeUs).2.map
          fun chunk => Ingested.mk conn chunk).toList = [] := by
        cases (a.server.onMessage db conn peer data timeUs).2 <;> simp [chunksOf, same]
      simp only [others, List.filter_cons, same, decide_false, Bool.false_eq_true, if_false,
        List.filter_nil, List.map_nil, passedOn_nil]

/-- **Every step keeps the chunks with their connections.** -/
theorem next {a' : Adapter} {event : AdapterEvent} (attributed : Attributed db a)
    (moved : a.next db event = some a') : Attributed db a' := by
  cases event with
  | connect peer =>
    obtain ⟨_, moved⟩ := Option.ite_none_right_eq_some.mp moved
    cases moved
    exact attributed.connect peer _
  | disconnect conn =>
    obtain ⟨_, moved⟩ := Option.ite_none_right_eq_some.mp moved
    cases moved
    exact attributed.disconnect conn _
  | message conn data timeUs =>
    obtain ⟨_, moved⟩ := Option.ite_none_right_eq_some.mp moved
    obtain ⟨peer, opened, rfl⟩ := Option.map_eq_some_iff.mp moved
    exact attributed.message opened data timeUs
  | post batch =>
    obtain ⟨_, moved⟩ := Option.ite_none_right_eq_some.mp moved
    cases moved
    exact ⟨attributed.entries, attributed.known, attributed.heard, attributed.passed⟩
  | main =>
    obtain ⟨_, server, _, rfl, _, kept | cleared, _⟩ := Adapter.mainStep_cases moved
    · refine ⟨?_, attributed.known, attributed.heard, attributed.passed⟩
      rw [kept]
      exact attributed.entries
    · refine ⟨fun {conn group} found => ?_, attributed.known, attributed.heard, attributed.passed⟩
      rw [cleared] at found
      cases (AList.lookup_empty conn).symm.trans found
  | parser step =>
    obtain ⟨_, _, ⟨_, _, _, rfl⟩ | ⟨_, _, _, rfl⟩ | ⟨_, _, rfl⟩⟩ := Adapter.parserStep_cases moved
    all_goals exact ⟨attributed.entries, attributed.known, attributed.heard, attributed.passed⟩
  | writer step =>
    obtain ⟨_, rfl⟩ := Adapter.writerStep_frame moved
    exact ⟨attributed.entries, attributed.known, attributed.heard, attributed.passed⟩

end Attributed

/-! ### Isolation -/

namespace ParserRun.Moves

variable {run run' : ParserRun} {event : ParserEvent}

/-- Only a chunk touches the streams. -/
theorem streams_other (step : run.Moves event run') (other : ∀ chunk, event ≠ .take chunk) :
    run'.worker.streams = run.worker.streams := by
  cases step with
  | take | ignore => exact absurd rfl (other _)
  | @flush dev | @flushAll dev =>
    show (run.worker.flushDevice dev).1.streams = _
    obtain ⟨kept, _⟩ | ⟨_, _, _, moved⟩ := run.worker.flushDevice_cases dev
    · rw [kept]
    · rw [moved]
  | _ => rfl

end ParserRun.Moves

/-- The parser thread takes a chunk. -/
def AdapterEvent.takes : AdapterEvent → Bool
  | .parser (.take _) => true
  | _ => false

namespace Adapter

/-- The chunks taken from the ingest queue. -/
def parsed (a : Adapter) : List Ingested := a.ingested.take a.taken

/-- The rows found in each of them. -/
def foundRows (a : Adapter) : List (List Row) := a.parser.fed.map Prod.snd

/-- A chunk is taken only where its group's stream holds nothing, or was fed last from the chunk's
own connection. -/
def takesOwn (a : Adapter) (event : AdapterEvent) : Prop :=
  event.takes = true → ∀ item ∈ a.ingested[a.taken]?, ∀ group ∈ item.chunk.group,
    (a.parser.worker.stream group).buf = [] ∨ lastFeeder group a.parsed = some item.conn

instance (a : Adapter) (event : AdapterEvent) : Decidable (a.takesOwn event) :=
  inferInstanceAs (Decidable (_ → _))

/-- Every connection that was ever up is decoded as if it were alone: its chunks are what it
received, and the rows found in those parsed so far are the rows of a fresh stream of its group, fed
just these. -/
def Isolated (db : ConfigDB) (a : Adapter) : Prop :=
  ∀ conn peer, a.opened[conn]? = some peer →
    chunksOf conn a.ingested = passedOn db peer (a.receivedOn conn) ∧
      ∀ group, db.matchGroup peer = some group →
        connRows conn a.parsed a.foundRows = (alone group conn a.parsed).2

end Adapter

/-- **The invariant of the runs without foreign leftovers.** -/
structure Apart (db : ConfigDB) (a : Adapter) : Prop where
  flow : Flow a
  attributed : Attributed db a
  separate : Separate a.parsed a.foundRows a.parser.worker

namespace Apart

variable {db : ConfigDB} {a a' : Adapter}

theorem parserStep {event : ParserEvent} (apart : Apart db a)
    (meets : a.takesOwn (.parser event)) (moved : a.parserStep event = some a') :
    Separate a'.parsed a'.foundRows a'.parser.worker := by
  obtain ⟨parser, step, ⟨item, here, rfl, rfl⟩ | ⟨order, rfl, _, rfl⟩ | ⟨other, _, rfl⟩⟩ :=
    Adapter.parserStep_cases moved
  · obtain ⟨group, known, worker, fed⟩ :=
      step.take_useful (apart.flow.useful item (List.mem_of_getElem? here))
    show Separate (a.ingested.take (a.taken + 1)) (parser.fed.map Prod.snd) parser.worker
    rw [fed, worker, List.take_add_one, here, List.map_append]
    exact apart.separate.take known (meets rfl item here group known)
  · show Separate a.parsed (parser.fed.map Prod.snd) parser.worker
    rw [step.fed_other nofun]
    exact apart.separate.congr (step.streams_other nofun)
  · show Separate a.parsed (parser.fed.map Prod.snd) parser.worker
    rw [step.fed_other other]
    exact apart.separate.congr (step.streams_other other)

/-- **Every step keeps the connections apart.** -/
theorem next {event : AdapterEvent} (apart : Apart db a) (meets : a.takesOwn event)
    (moved : a.next db event = some a') : Apart db a' := by
  refine ⟨apart.flow.next moved, apart.attributed.next moved, ?_⟩
  obtain ⟨_, _, _, _, _, _, _, rfl, more, rfl, _⟩ | moved | ⟨step, rfl, moved⟩ | ⟨step, moved⟩ :=
    Adapter.next_cases moved
  · show Separate ((a.ingested ++ more).take a.taken) a.foundRows a.parser.worker
    rw [List.take_append_of_le_length apart.flow.taken_le]
    exact apart.separate
  · obtain ⟨_, _, _, rfl, _⟩ := Adapter.mainStep_cases moved
    exact apart.separate
  · exact apart.parserStep meets moved
  · obtain ⟨_, rfl⟩ := Adapter.writerStep_frame moved
    exact apart.separate

theorem of_reach {batchRows : Int}
    (reach : Reach (Adapter.next db) Adapter.takesOwn (Adapter.start batchRows) a) : Apart db a :=
  Reach.invariant reach ⟨Flow.start batchRows, Attributed.start batchRows, Separate.start _⟩
    fun _ _ _ apart meets moved => apart.next meets moved

/-- The chunks of a connection name the group its peer matches. -/
theorem names (apart : Apart db a) {conn : ℕ} {peer : Peer} {group : GroupPtr}
    (opened : a.opened[conn]? = some peer) (matched : db.matchGroup peer = some group) :
    Names conn group a.parsed := by
  rintro item member rfl
  obtain ⟨peer', group', here, given, named⟩ :=
    apart.attributed.known item (List.mem_of_mem_take member)
  rw [opened, Option.some.injEq] at here
  rw [← here, matched] at given
  rw [named, given]

end Apart

/-- **Connections are decoded as if each were alone**, for any interleaving of openings, closings
and chunks, as long as no chunk is taken on top of what another connection left. -/
theorem connections_isolated {db : ConfigDB} {batchRows : Int} {a : Adapter}
    (reach : Reach (Adapter.next db) Adapter.takesOwn (Adapter.start batchRows) a) :
    a.Isolated db := by
  have apart := Apart.of_reach reach
  intro conn peer opened
  exact ⟨apart.attributed.passed opened,
    fun group matched => apart.separate.rows (apart.names opened matched)⟩

/-- A whole status frame with the value 7, cut in two. -/
def statusHead : Bytes := [0xC, 0, 2, 0]

def statusTail : Bytes := [0, 0, 7, 0]

/-- The parser takes a chunk in which it finds no row, and is back at its loop condition. -/
def takeSilent (data : Bytes) : List AdapterEvent :=
  [.parser .goOn, .parser (.take ⟨some ⟨0, fixtureGroup⟩, 7, data⟩), .parser .work, .parser .work]

/-- A connection sends a frame in two chunks and closes; the device connects again and sends the
frame in one. -/
def reconnectEvents : List AdapterEvent :=
  [.connect fixturePeer, .message 0 statusHead 7000, .message 0 statusTail 7000, .disconnect 0,
    .connect fixturePeer, .message 1 (statusHead ++ statusTail) 7000] ++
    takeSilent statusHead ++
    [.parser .goOn, .parser (.take ⟨some ⟨0, fixtureGroup⟩, 7, statusTail⟩)] ++
    List.replicate 4 (.parser .work) ++
    [.parser .goOn, .parser (.take ⟨some ⟨0, fixtureGroup⟩, 7, statusHead ++ statusTail⟩)]

theorem connections_isolated_fixture :
    ∃ a, play (Adapter.next fixtureDB) Adapter.takesOwn (Adapter.start 10) reconnectEvents =
        some a ∧ a.parser.fed.length = 3 ∧ a.Isolated fixtureDB := by
  have shape : (play (Adapter.next fixtureDB) Adapter.takesOwn (Adapter.start 10)
      reconnectEvents).map (fun a => a.parser.fed.length) = some 3 := by
    decide +kernel
  obtain ⟨a, done, shape⟩ := Option.map_eq_some_iff.mp shape
  exact ⟨a, done, shape, connections_isolated (Reach.of_play .start done)⟩

/-- The header of a frame with four records. -/
def burstHead : Bytes := [0xC, 0, 8, 0, 0, 0]

/-- A connection sends the header and closes; the device connects again and sends a whole frame. -/
def gluedEvents : List AdapterEvent :=
  [.connect fixturePeer, .message 0 burstHead 7000, .disconnect 0,
    .connect fixturePeer, .message 1 (statusHead ++ statusTail) 7000] ++
    takeSilent burstHead ++
    [.parser .goOn, .parser (.take ⟨some ⟨0, fixtureGroup⟩, 7, statusHead ++ statusTail⟩)]

/-- **A frame is swallowed by the leftover of a closed connection**: four rows are made of the bytes
of a frame with one. -/
theorem reconnect_glues_frame :
    ∃ a, Reach (Adapter.next fixtureDB) anyStep (Adapter.start 10) a ∧
      (connRows 1 a.parsed a.foundRows).length = 4 ∧
      (alone ⟨0, fixtureGroup⟩ 1 a.parsed).2.length = 1 ∧ ¬ a.Isolated fixtureDB := by
  have shape : (play (Adapter.next fixtureDB) anyStep (Adapter.start 10) gluedEvents).map
      (fun a => ((connRows 1 a.parsed a.foundRows).length,
        (alone ⟨0, fixtureGroup⟩ 1 a.parsed).2.length, a.opened[1]?)) =
      some (4, 1, some fixturePeer) := by
    decide +kernel
  obtain ⟨a, done, shape⟩ := Option.map_eq_some_iff.mp shape
  simp only [Prod.mk.injEq] at shape
  obtain ⟨glued, right, opened⟩ := shape
  refine ⟨a, Reach.of_play .start done, glued, right, fun isolated => ?_⟩
  have matched : fixtureDB.matchGroup fixturePeer = some ⟨0, fixtureGroup⟩ := by decide +kernel
  have equal := (isolated 1 fixturePeer opened).2 _ matched
  rw [equal, right] at glued
  cases glued

end EtherAdapter
