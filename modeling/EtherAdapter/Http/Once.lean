/-
**How often an http connection stores its request.**

* `ConnState.Complete` — the request has been handled: its header is parsed, its body is there, and
  the cap is not passed. The state keeps all of it, so the next bytes handle the request again
  (`assemble_of_complete`).
* `Accepted` — a body that is stored: a device with fields, and a flat JSON object.
* **`run_stores_once`** — a connection stores at most one row, whatever arrives on it and on others,
  exactly when no bytes arrive on it (within the cap) while an accepted request is complete. A
  single byte after the body is enough to store the row twice (`run_stores_twice`).
-/

import EtherAdapter.Model.Http

namespace EtherAdapter

open Grouping

/-! ### Assembling a request -/

namespace ConnState

/-- **A handled request**, as the state keeps it. -/
structure Complete (st : ConnState) : Prop where
  header : st.headerParsed = true
  body : st.contentLen ≤ st.buf.length
  cap : st.buf.length ≤ kMaxRequest

variable {st : ConnState} {data : Bytes}

/-- With the header parsed and within the cap, a request is there when the state is complete. -/
theorem body_eq_request_iff (header : st.headerParsed = true) (cap : st.buf.length ≤ kMaxRequest)
    (content : Bytes) :
    st.body = .request content ↔ st.Complete ∧ content = st.buf.take st.contentLen := by
  rw [ConnState.body]
  split
  · rename_i short
    constructor
    · intro other
      cases other
    · rintro ⟨complete, _⟩
      exact absurd complete.body (Nat.not_le.mpr short)
  · rename_i whole
    rw [Assembled.request.injEq]
    constructor
    · intro same
      exact ⟨⟨header, Nat.le_of_not_lt whole, cap⟩, same.symm⟩
    · rintro ⟨_, same⟩
      exact same.symm

/-- **A request is handled exactly when the state becomes complete.** -/
theorem assemble_request_iff (st : ConnState) (data content : Bytes) :
    (st.assemble data).2 = .request content ↔
      (st.assemble data).1.Complete ∧
        content = (st.assemble data).1.buf.take (st.assemble data).1.contentLen := by
  have refused : ∀ {st' : ConnState} {result : Assembled}, ¬ st'.Complete →
      (∀ content, result ≠ .request content) →
      (result = .request content ↔ st'.Complete ∧ content = st'.buf.take st'.contentLen) := by
    intro st' result incomplete other
    exact ⟨fun same => absurd same (other content), fun both => absurd both.1 incomplete⟩
  unfold assemble
  simp only
  split
  · rename_i large
    exact refused (fun complete => absurd complete.cap (Nat.not_le.mpr large)) (fun _ => nofun)
  rename_i cap
  have cap' := Nat.le_of_not_lt cap
  split
  · rename_i header
    refine body_eq_request_iff ?_ cap' content
    exact header
  rename_i header
  split
  · exact refused (fun complete => header complete.header) (fun _ => nofun)
  split
  · exact refused (fun complete => header complete.header) (fun _ => nofun)
  split
  · exact refused (fun complete => header complete.header) (fun _ => nofun)
  · refine body_eq_request_iff rfl ?_ content
    rw [List.length_drop]
    omega

/-- **A complete request is handled again** with the next bytes, unless they pass the cap. -/
theorem assemble_of_complete (complete : st.Complete) (data : Bytes) :
    (st.assemble data).1 = { st with buf := st.buf ++ data } ∧
      (st.buf.length + data.length ≤ kMaxRequest →
        (st.assemble data).2 = .request (st.buf.take st.contentLen)) := by
  have same : (st.assemble data).1 = { st with buf := st.buf ++ data } := by
    unfold assemble
    simp only [complete.header, if_true]
    split
    · rfl
    · rfl
  refine ⟨same, fun cap => (assemble_request_iff st data _).mpr ?_⟩
  rw [same]
  refine ⟨⟨complete.header, ?_, ?_⟩, ?_⟩
  · exact Nat.le_trans complete.body (by rw [List.length_append]; omega)
  · rwa [List.length_append]
  · exact (List.take_append_of_le_length complete.body).symm

/-- Past the cap nothing is handled any more. -/
theorem assemble_of_large (large : kMaxRequest < st.buf.length) (data : Bytes) :
    kMaxRequest < (st.assemble data).1.buf.length := by
  have longer : kMaxRequest < (st.buf ++ data).length := by
    rw [List.length_append]
    omega
  unfold assemble
  simp only [if_pos longer]
  exact longer

end ConnState

/-! ### Accepted requests -/

/-- **A body that is stored.** -/
def Accepted (db : Config) (httpPort : UInt16) (peer : Peer) (body : Bytes) : Prop :=
  ∃ i, db.matchHttpDevice peer httpPort = some i ∧ (deviceAt db.devices i).columns ≠ [] ∧
    (parseJsonFields body (deviceAt db.devices i).columns
      (nullCells (deviceAt db.devices i).columns)).isSome

theorem handleRequest_isSome_iff (db : Config) (httpPort : UInt16) (peer : Peer) (body : Bytes)
    (timeUs : Int) :
    (handleRequest db httpPort peer body timeUs).2.isSome ↔ Accepted db httpPort peer body := by
  rw [Accepted, handleRequest]
  cases matched : db.matchHttpDevice peer httpPort with
  | none => exact ⟨nofun, fun ⟨i, found, _⟩ => by cases found⟩
  | some i =>
    simp only [Option.some.injEq, exists_eq_left']
    split
    · rename_i empty
      exact ⟨nofun, fun accepted => absurd empty accepted.1⟩
    · rename_i fields
      split
      · rename_i failed
        exact ⟨nofun, fun accepted => by rw [failed] at accepted; cases accepted.2⟩
      · rename_i matched' cells parsed
        exact ⟨fun _ => ⟨fields, by rw [parsed]; rfl⟩, fun _ => rfl⟩

/-- A row is stored exactly for an accepted request. -/
theorem answer_isSome_iff (db : Config) (httpPort : UInt16) (peer : Peer) (timeUs : Int)
    (assembled : Assembled) :
    (answer db httpPort peer timeUs assembled).2.isSome ↔
      ∃ body, assembled = .request body ∧ Accepted db httpPort peer body := by
  cases assembled with
  | request body =>
    rw [answer, handleRequest_isSome_iff]
    simp only [Assembled.request.injEq, exists_eq_left']
  | tooLarge => exact ⟨nofun, fun ⟨_, other, _⟩ => by cases other⟩
  | waiting => exact ⟨nofun, fun ⟨_, other, _⟩ => by cases other⟩
  | badHeader => exact ⟨nofun, fun ⟨_, other, _⟩ => by cases other⟩
  | notPost => exact ⟨nofun, fun ⟨_, other, _⟩ => by cases other⟩

/-! ### One connection among others -/

namespace HttpIngest

/-- The connection an event is about. -/
def Event.conn : Event → ℕ
  | .up conn => conn
  | .message conn _ _ => conn
  | .down conn => conn

section Run

variable (db : Config) (httpPort : UInt16) (peers : ℕ → Peer) (server : HttpIngest)

theorem run_concat (events : List Event) (event : Event) :
    run db httpPort peers server (events ++ [event]) =
      ((step db httpPort peers (run db httpPort peers server events).1 event).1,
        (run db httpPort peers server events).2 ++
          (step db httpPort peers (run db httpPort peers server events).1 event).2.toList) := by
  rw [run, List.foldl_append]
  rfl

/-- The rows a connection has stored. -/
def storedBy (conn : ℕ) (events : List Event) : ℕ :=
  ((run db httpPort peers server events).2.filter fun entry => entry.1 = conn).length

variable {server}

/-- An event of another connection is not noticed. -/
theorem step_other {event : Event} {conn : ℕ} (other : event.conn ≠ conn) :
    (step db httpPort peers server event).1.state conn = server.state conn ∧
      ∀ entry ∈ (step db httpPort peers server event).2, entry.1 ≠ conn := by
  have inserted : ∀ (c : ℕ) (st : ConnState), c ≠ conn →
      state { server with conns := server.conns.insert c st } conn = server.state conn := by
    intro c st apart
    rw [state, AList.lookup_insert_ne apart.symm, state]
  cases event with
  | up c => exact ⟨inserted c _ other, fun _ none => by cases none⟩
  | down c =>
    have apart : conn ≠ c := other.symm
    refine ⟨?_, fun _ none => by cases none⟩
    show ((server.conns.erase c).lookup conn).getD {} = (server.conns.lookup conn).getD {}
    rw [AList.lookup_erase_ne apart]
  | message c data timeUs =>
    rw [step, onMessage]
    constructor
    · split
      · rfl
      · exact inserted c _ other
    · intro entry stored
      obtain ⟨batch, _, rfl⟩ := Option.map_eq_some_iff.mp stored
      exact other

/-- A message of the connection: nothing for no bytes, or else what is assembled. -/
theorem step_message (conn : ℕ) (data : Bytes) (timeUs : Int) :
    ((step db httpPort peers server (.message conn data timeUs)).1.state conn =
        if data = [] then server.state conn else ((server.state conn).assemble data).1) ∧
      ((step db httpPort peers server (.message conn data timeUs)).2.isSome ↔
        data ≠ [] ∧ ∃ body, ((server.state conn).assemble data).2 = .request body ∧
          Accepted db httpPort (peers conn) body) ∧
      ∀ entry ∈ (step db httpPort peers server (.message conn data timeUs)).2, entry.1 = conn := by
  rw [step, onMessage]
  refine ⟨?_, ?_, ?_⟩
  · split
    · rfl
    · rw [state, AList.lookup_insert, Option.getD_some]
  · rw [Option.isSome_map]
    split
    · rename_i empty
      exact ⟨nofun, fun stored => absurd empty stored.1⟩
    · rename_i bytes
      rw [answer_isSome_iff]
      exact ⟨fun stored => ⟨bytes, stored⟩, And.right⟩
  · intro entry stored
    obtain ⟨batch, _, rfl⟩ := Option.map_eq_some_iff.mp stored
    rfl

variable (server)

theorem storedBy_concat_other (events : List Event) {event : Event} {conn : ℕ}
    (other : event.conn ≠ conn) :
    storedBy db httpPort peers server conn (events ++ [event]) =
      storedBy db httpPort peers server conn events := by
  have none : ((step db httpPort peers (run db httpPort peers server events).1 event).2.toList.filter
      fun entry => entry.1 = conn) = [] := by
    refine List.filter_eq_nil_iff.mpr fun entry member => ?_
    have apart := (step_other db httpPort peers other).2 entry (Option.mem_toList.mp member)
    exact fun same => apart (of_decide_eq_true same)
  rw [storedBy, run_concat, List.filter_append, none, List.append_nil, storedBy]

theorem storedBy_concat_message (events : List Event) (conn : ℕ) (data : Bytes) (timeUs : Int) :
    storedBy db httpPort peers server conn (events ++ [.message conn data timeUs]) =
      storedBy db httpPort peers server conn events +
        if (step db httpPort peers (run db httpPort peers server events).1
          (.message conn data timeUs)).2.isSome then 1 else 0 := by
  have own := (@step_message db httpPort peers (run db httpPort peers server events).1 conn data
    timeUs).2.2
  rw [storedBy, run_concat, List.filter_append, List.length_append, storedBy]
  congr 1
  revert own
  cases (step db httpPort peers (run db httpPort peers server events).1
    (.message conn data timeUs)).2 with
  | none => exact fun _ => rfl
  | some entry =>
    intro own
    have same : entry.1 = conn := own entry rfl
    rw [Option.toList_some, List.filter_singleton, same]
    simp only [decide_true, cond_true, List.length_singleton, Option.isSome_some, if_true]

end Run

/-! ### At most one row -/

/-- **Bytes that store a request again**: they arrive, within the cap, while an accepted request is
complete. -/
structure Repeats (db : Config) (httpPort : UInt16) (peer : Peer) (st : ConnState) (data : Bytes) :
    Prop where
  bytes : data ≠ []
  complete : st.Complete
  cap : st.buf.length + data.length ≤ kMaxRequest
  accepted : Accepted db httpPort peer (st.buf.take st.contentLen)

/-- An event after which the connection is still up, if it was before. -/
def Event.Keeps (conn : ℕ) (event : Event) : Prop := event ≠ .up conn ∧ event ≠ .down conn

theorem Event.Keeps.cases {conn : ℕ} {event : Event} (keeps : event.Keeps conn) :
    event.conn ≠ conn ∨ ∃ data timeUs, event = .message conn data timeUs := by
  by_cases own : event.conn = conn
  · cases event with
    | up c => exact absurd (congrArg Event.up own) keeps.1
    | down c => exact absurd (congrArg Event.down own) keeps.2
    | message c data timeUs =>
      cases own
      exact Or.inr ⟨data, timeUs, rfl⟩
  · exact Or.inl own

section Once

variable (db : Config) (httpPort : UInt16) (peers : ℕ → Peer) (server : HttpIngest) (conn : ℕ)

/-- The state of the connection after some events. -/
def stateAfter (events : List Event) : ConnState :=
  (run db httpPort peers (server.connect conn) events).1.state conn

/-- No message of the connection stores its request again. -/
def NeverRepeats (events : List Event) : Prop :=
  ∀ before data timeUs after, events = before ++ .message conn data timeUs :: after →
    ¬ Repeats db httpPort (peers conn) (stateAfter db httpPort peers server conn before) data

variable {db httpPort peers server conn}

/-- A connection starts with nothing. -/
theorem stateAfter_nil : stateAfter db httpPort peers server conn [] = {} := by
  show ((server.conns.insert conn {}).lookup conn).getD {} = {}
  rw [AList.lookup_insert, Option.getD_some]

theorem stateAfter_concat_other {events : List Event} {event : Event} (other : event.conn ≠ conn) :
    stateAfter db httpPort peers server conn (events ++ [event]) =
      stateAfter db httpPort peers server conn events := by
  rw [stateAfter, run_concat, (step_other db httpPort peers other).1, stateAfter]

theorem stateAfter_concat_message (events : List Event) (data : Bytes) (timeUs : Int) :
    stateAfter db httpPort peers server conn (events ++ [.message conn data timeUs]) =
      if data = [] then stateAfter db httpPort peers server conn events
      else ((stateAfter db httpPort peers server conn events).assemble data).1 := by
  rw [stateAfter, run_concat, (step_message db httpPort peers conn data timeUs).1]
  rfl

/-- What a message stores. -/
theorem stores_iff (events : List Event) (data : Bytes) (timeUs : Int) :
    (step db httpPort peers (run db httpPort peers (server.connect conn) events).1
        (.message conn data timeUs)).2.isSome ↔
      data ≠ [] ∧ ((stateAfter db httpPort peers server conn events).assemble data).1.Complete ∧
        Accepted db httpPort (peers conn)
          (((stateAfter db httpPort peers server conn events).assemble data).1.buf.take
            ((stateAfter db httpPort peers server conn events).assemble data).1.contentLen) := by
  rw [(step_message db httpPort peers conn data timeUs).2.1]
  refine and_congr_right fun _ => ?_
  simp only [ConnState.assemble_request_iff]
  constructor
  · rintro ⟨body, ⟨complete, rfl⟩, accepted⟩
    exact ⟨complete, accepted⟩
  · rintro ⟨complete, accepted⟩
    exact ⟨_, ⟨complete, rfl⟩, accepted⟩

/-- An accepted request that is complete has been stored. -/
theorem stored_of_complete {events : List Event} (alive : ∀ event ∈ events, event.Keeps conn)
    (complete : (stateAfter db httpPort peers server conn events).Complete)
    (accepted : Accepted db httpPort (peers conn)
      ((stateAfter db httpPort peers server conn events).buf.take
        (stateAfter db httpPort peers server conn events).contentLen)) :
    1 ≤ storedBy db httpPort peers (server.connect conn) conn events := by
  induction events using List.reverseRecOn with
  | nil =>
    rw [stateAfter_nil] at complete
    cases complete.header
  | append_singleton events event ih =>
    have earlier := ih fun event member => alive event (List.mem_append_left _ member)
    have last := alive event (List.mem_append_right _ List.mem_cons_self)
    rcases last.cases with other | ⟨data, timeUs, rfl⟩
    · rw [stateAfter_concat_other other] at complete accepted
      rw [storedBy_concat_other _ _ _ _ _ other]
      exact earlier complete accepted
    · rw [stateAfter_concat_message] at complete accepted
      rw [storedBy_concat_message]
      by_cases empty : data = []
      · rw [if_pos empty] at complete accepted
        exact Nat.le_trans (earlier complete accepted) (Nat.le_add_right _ _)
      · rw [if_neg empty] at complete accepted
        rw [if_pos ((stores_iff events data timeUs).mpr ⟨empty, complete, accepted⟩)]
        exact Nat.le_add_left _ _

/-- Once the row is stored, the request is complete or the cap is passed. -/
theorem stored_le_one {events : List Event} (alive : ∀ event ∈ events, event.Keeps conn)
    (never : NeverRepeats db httpPort peers server conn events) :
    storedBy db httpPort peers (server.connect conn) conn events ≤ 1 ∧
      (storedBy db httpPort peers (server.connect conn) conn events = 1 →
        (stateAfter db httpPort peers server conn events).Complete ∨
          kMaxRequest < (stateAfter db httpPort peers server conn events).buf.length) := by
  induction events using List.reverseRecOn with
  | nil => exact ⟨Nat.zero_le 1, nofun⟩
  | append_singleton events event ih =>
    have front : NeverRepeats db httpPort peers server conn events := by
      intro before data timeUs after split
      refine never before data timeUs (after ++ [event]) ?_
      rw [split, List.append_assoc, List.cons_append]
    obtain ⟨most, settled⟩ :=
      ih (fun event member => alive event (List.mem_append_left _ member)) front
    have last := alive event (List.mem_append_right _ List.mem_cons_self)
    rcases last.cases with other | ⟨data, timeUs, rfl⟩
    · rw [storedBy_concat_other _ _ _ _ _ other, stateAfter_concat_other other]
      exact ⟨most, settled⟩
    have fresh := never events data timeUs [] rfl
    rw [storedBy_concat_message, stateAfter_concat_message]
    by_cases stored : (step db httpPort peers (run db httpPort peers (server.connect conn) events).1
        (.message conn data timeUs)).2.isSome
    · obtain ⟨bytes, complete, accepted⟩ := (stores_iff events data timeUs).mp stored
      rw [if_pos stored, if_neg bytes]
      -- it is the first row: otherwise the request was complete already, and this one a repetition
      have first : storedBy db httpPort peers (server.connect conn) conn events = 0 := by
        by_contra some
        rcases settled (by omega) with before | large
        · obtain ⟨same, _⟩ := ConnState.assemble_of_complete before data
          rw [same] at complete accepted
          refine fresh ⟨bytes, before, ?_, ?_⟩
          · exact (List.length_append ▸ complete.cap :)
          · rwa [List.take_append_of_le_length before.body] at accepted
        · exact absurd complete.cap (Nat.not_le.mpr (ConnState.assemble_of_large large data))
      rw [first]
      exact ⟨Nat.le_refl 1, fun _ => Or.inl complete⟩
    · rw [if_neg stored]
      refine ⟨most, fun one => ?_⟩
      split
      · exact settled one
      · rcases settled one with before | large
        · obtain ⟨same, again⟩ := ConnState.assemble_of_complete before data
          by_cases cap : (stateAfter db httpPort peers server conn events).buf.length +
              data.length ≤ kMaxRequest
          · exact Or.inl ((ConnState.assemble_request_iff _ _ _).mp (again cap)).1
          · refine Or.inr ?_
            rw [same]
            simp only [List.length_append]
            omega
        · exact Or.inr (ConnState.assemble_of_large large data)

/-- What is stored stays stored. -/
theorem storedBy_append_le (events more : List Event) :
    storedBy db httpPort peers server conn events ≤
      storedBy db httpPort peers server conn (events ++ more) := by
  induction more using List.reverseRecOn with
  | nil => rw [List.append_nil]
  | append_singleton more event ih =>
    refine Nat.le_trans ih ?_
    rw [← List.append_assoc, storedBy, storedBy, run_concat, List.filter_append, List.length_append]
    exact Nat.le_add_right _ _

end Once

/-- **A connection stores at most one row** between its callbacks up and down, whatever happens on
other connections, exactly when no bytes store its request again. -/
theorem run_stores_once (db : Config) (httpPort : UInt16) (peers : ℕ → Peer) (server : HttpIngest)
    (conn : ℕ) {events : List Event} (alive : ∀ event ∈ events, event.Keeps conn) :
    storedBy db httpPort peers (server.connect conn) conn events ≤ 1 ↔
      NeverRepeats db httpPort peers server conn events := by
  constructor
  · intro most before data timeUs after split again
    have front : ∀ event ∈ before, event.Keeps conn := by
      intro event member
      exact alive event (split ▸ List.mem_append_left _ member)
    have once := stored_of_complete front again.complete again.accepted
    obtain ⟨same, handled⟩ := ConnState.assemble_of_complete again.complete data
    have twice : storedBy db httpPort peers (server.connect conn) conn
        (before ++ [.message conn data timeUs]) ≤ 1 := by
      refine Nat.le_trans (storedBy_append_le _ after) ?_
      rwa [List.append_assoc, List.singleton_append, ← split]
    have stored := (@step_message db httpPort peers (run db httpPort peers (server.connect conn)
      before).1 conn data timeUs).2.1.mpr ⟨again.bytes, _, handled again.cap, again.accepted⟩
    rw [storedBy_concat_message, if_pos stored] at twice
    omega
  · exact fun never => (stored_le_one alive never).1

/-- An http device with one field, on port 8080. -/
def gateTables : Tables where
  fields := [{ dataProtoId := 1, fieldName := bytesOf "open", fieldType := 0 }]
  devices :=
    [{ deviceId := bytesOf "gate", deviceIp := "10.0.0.1".toList, connProto := "http(3)".toList
       localServerPort := 8080, dataProtoId := 1 }]

def gateDb : Config := gateTables.loadAll (Sorter.insertion ℕ)

/-- One request, with the body `{}`. -/
def gateRequest : Bytes :=
  bytesOf "POST / HTTP/1.1" ++ crlf ++ bytesOf "Content-Length: 2" ++ headerEnd ++ [123, 125]

def gatePeers : ℕ → Peer := fun _ => ⟨"10.0.0.1".toList, 40000⟩

/-- **One more byte stores the row twice.** -/
theorem run_stores_twice :
    storedBy gateDb 8080 gatePeers (connect {} 1) 1
      [.message 1 gateRequest 0, .message 1 [10] 1000] = 2 := by
  decide

/-- The request alone, cut in two, is stored once. -/
theorem run_stores_once_gate :
    storedBy gateDb 8080 gatePeers (connect {} 1) 1
        [.message 1 (gateRequest.take 20) 0, .message 1 (gateRequest.drop 20) 1000] = 1 ∧
      NeverRepeats gateDb 8080 gatePeers {} 1
        [.message 1 (gateRequest.take 20) 0, .message 1 (gateRequest.drop 20) 1000] :=
  ⟨by decide, (run_stores_once gateDb 8080 gatePeers {} 1 (by
    simp only [Event.Keeps]
    decide)).mp (by decide)⟩

end HttpIngest

end EtherAdapter
