/-
**The http server** (`HttpIngest.cpp`).

A connection is a number that is not used again, as in the ingest server. `sendResponse` is the
bytes it sends; the half-close that follows does not keep the peer from sending more, so whatever
arrives until the connection goes down reaches `onMessage`. Counters, log lines and `start` are left
out.

* `ConnState.assemble` — what `onMessage` makes of the bytes received so far: it waits, refuses them
  or has a request.
* `handleRequest` — the answer to a request, and the row it stores.
* `HttpIngest.run` — any callbacks of any connections.
-/

import EtherAdapter.Model.Indexes
import EtherAdapter.Model.Json

namespace EtherAdapter

/-! ### Headers -/

/-- `std::string::find`: where a text first holds another one. -/
def findText (needle : Bytes) : Bytes → Option ℕ
  | [] => if needle = [] then some 0 else none
  | c :: rest =>
    if (c :: rest).take needle.length = needle then some 0
    else (findText needle rest).map (· + 1)

/-- `"\r\n"` and `"\r\n\r\n"`. -/
def crlf : Bytes := [13, 10]

def headerEnd : Bytes := [13, 10, 13, 10]

/-- The lines of a header block. Each pass takes at least one byte. -/
def headerLines : ℕ → Bytes → List Bytes
  | 0, _ => []
  | fuel + 1, text =>
    if text = [] then []
    else
      match findText crlf text with
      | none => [text]
      | some e => text.take e :: headerLines fuel (text.drop (e + 2))

/-- The value of the last `Content-Length` line, 0 where there is none. -/
def contentLengthOf (lines : List Bytes) : ℕ :=
  lines.foldl (fun length line =>
    if startsWith (bytesOf "content-length:") line then strtoul (line.drop 15) else length) 0

/-- The content length and the method of a request. -/
def parseHeaderBlock (head : Bytes) : Option (ℕ × Bytes) :=
  match findText crlf head with
  | none => none
  | some lineEnd =>
    let rest := head.drop (lineEnd + 2)
    some (contentLengthOf (headerLines rest.length rest), (head.take lineEnd).takeWhile (· ≠ 32))

/-! ### Responses -/

def statusText (code : ℕ) : Bytes :=
  match code with
  | 200 => bytesOf "200 OK"
  | 400 => bytesOf "400 Bad Request"
  | 404 => bytesOf "404 Not Found"
  | 405 => bytesOf "405 Method Not Allowed"
  | 413 => bytesOf "413 Payload Too Large"
  | _ => bytesOf "500 Internal Server Error"

/-- A text in quotes. -/
def quoted (text : Bytes) : Bytes := 34 :: text ++ [34]

/-- `{"ok":false}`, with an error where one is named. -/
def refusal (error : Option String) : Bytes :=
  123 :: quoted (bytesOf "ok") ++ bytesOf ":false" ++
    (match error with
    | none => []
    | some text => bytesOf "," ++ quoted (bytesOf "error") ++ bytesOf ":" ++ quoted (bytesOf text)) ++
    [125]

def acceptance (dev : Device) (matched : ℕ) : Bytes :=
  123 :: quoted (bytesOf "ok") ++ bytesOf ":true," ++ quoted (bytesOf "device") ++ bytesOf ":" ++
    quoted dev.deviceId ++ bytesOf "," ++ quoted (bytesOf "matched") ++ bytesOf ":" ++
    decimal matched ++ [125]

def sendResponse (code : ℕ) (body : Bytes) : Bytes :=
  bytesOf "HTTP/1.1 " ++ statusText code ++
    crlf ++ bytesOf "Content-Type: application/json" ++
    crlf ++ bytesOf "Content-Length: " ++ decimal body.length ++
    crlf ++ bytesOf "Connection: close" ++ headerEnd ++ body

/-! ### Requests -/

def kMaxRequest : ℕ := 1024 * 1024

structure ConnState where
  buf : Bytes := []
  headerParsed : Bool := false
  contentLen : ℕ := 0
deriving DecidableEq, Repr

/-- What `onMessage` finds in the buffer. -/
inductive Assembled where
  | tooLarge
  | waiting
  | badHeader
  | notPost
  | request (body : Bytes)
deriving DecidableEq, Repr

/-- The body, when it is complete. -/
def ConnState.body (st : ConnState) : Assembled :=
  if st.buf.length < st.contentLen then .waiting else .request (st.buf.take st.contentLen)

/-- `onMessage`, up to `handleRequest`. -/
def ConnState.assemble (st : ConnState) (data : Bytes) : ConnState × Assembled :=
  let st := { st with buf := st.buf ++ data }
  if kMaxRequest < st.buf.length then (st, .tooLarge)
  else if st.headerParsed then (st, st.body)
  else
    match findText headerEnd st.buf with
    | none => (st, .waiting)
    | some hdrEnd =>
      match parseHeaderBlock (st.buf.take hdrEnd) with
      | none => (st, .badHeader)
      | some (contentLen, method) =>
        if method ≠ bytesOf "POST" then (st, .notPost)
        else
          let st : ConnState := ⟨st.buf.drop (hdrEnd + 4), true, contentLen⟩
          (st, st.body)

/-- A row in which every field is missing. -/
def nullCells (columns : List Column) : List Cell := List.replicate columns.length ⟨0, true⟩

/-- The answer to a request, and the row it stores. -/
def handleRequest (db : Config) (httpPort : UInt16) (peer : Peer) (body : Bytes) (timeUs : Int) :
    Bytes × Option RowBatch :=
  match db.matchHttpDevice peer httpPort with
  | none => (sendResponse 404 (refusal (some "unknown device")), none)
  | some i =>
    let dev := deviceAt db.devices i
    if dev.columns = [] then (sendResponse 400 (refusal (some "no field layout")), none)
    else
      match parseJsonFields body dev.columns (nullCells dev.columns) with
      | none => (sendResponse 400 (refusal (some "json")), none)
      | some (matched, cells) =>
        (sendResponse 200 (acceptance dev matched),
          some ⟨some (db.devicePtr i), [timeUs.tdiv 1000], cells⟩)

/-- What is sent, and what is stored. -/
def answer (db : Config) (httpPort : UInt16) (peer : Peer) (timeUs : Int) :
    Assembled → Option Bytes × Option RowBatch
  | .tooLarge => (some (sendResponse 413 (refusal none)), none)
  | .waiting => (none, none)
  | .badHeader => (some (sendResponse 400 (refusal (some "header"))), none)
  | .notPost => (some (sendResponse 405 (refusal (some "only POST"))), none)
  | .request body =>
    let handled := handleRequest db httpPort peer body timeUs
    (some handled.1, handled.2)

/-! ### The server -/

structure HttpIngest where
  conns : AList (fun _ : ℕ => ConnState) := ∅

namespace HttpIngest

/-- `onConnection`, on the way up. -/
def connect (server : HttpIngest) (conn : ℕ) : HttpIngest :=
  { server with conns := server.conns.insert conn {} }

/-- `onConnection`, on the way down. -/
def disconnect (server : HttpIngest) (conn : ℕ) : HttpIngest :=
  { server with conns := server.conns.erase conn }

/-- `_conns[conn]`. -/
def state (server : HttpIngest) (conn : ℕ) : ConnState := (server.conns.lookup conn).getD {}

/-- `onMessage`: the server afterwards, what is sent, and what is stored. -/
def onMessage (server : HttpIngest) (db : Config) (httpPort : UInt16) (conn : ℕ) (peer : Peer)
    (data : Bytes) (timeUs : Int) : HttpIngest × Option Bytes × Option RowBatch :=
  if data = [] then (server, none, none)
  else
    let assembled := (server.state conn).assemble data
    ({ server with conns := server.conns.insert conn assembled.1 },
      answer db httpPort peer timeUs assembled.2)

/-- What happens to the connections of the server. -/
inductive Event where
  | up (conn : ℕ)
  | message (conn : ℕ) (data : Bytes) (timeUs : Int)
  | down (conn : ℕ)
deriving DecidableEq, Repr

/-- One event, of connections whose peers are given: the server afterwards, and the row it stores. -/
def step (db : Config) (httpPort : UInt16) (peers : ℕ → Peer) (server : HttpIngest) :
    Event → HttpIngest × Option (ℕ × RowBatch)
  | .up conn => (server.connect conn, none)
  | .down conn => (server.disconnect conn, none)
  | .message conn data timeUs =>
    let done := server.onMessage db httpPort conn (peers conn) data timeUs
    (done.1, done.2.2.map fun batch => (conn, batch))

/-- The server after some events, and the rows stored, with the connections they came from. -/
def run (db : Config) (httpPort : UInt16) (peers : ℕ → Peer) (server : HttpIngest)
    (events : List Event) : HttpIngest × List (ℕ × RowBatch) :=
  events.foldl (fun state event =>
    let done := step db httpPort peers state.1 event
    (done.1, state.2 ++ done.2.toList)) (server, [])

end HttpIngest

end EtherAdapter
