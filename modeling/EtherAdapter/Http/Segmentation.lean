/-
**A request, however it is cut into messages.**

* `findText_eq_some` — `std::string::find` gives the first place.
* `PostRequest` — a POST request with one `Content-Length` line, as a value: its first line, its
  header lines and its body. The text of the header is the lines, joined.
* `stateOf` — the state of the connection, from the bytes received so far alone.
* **`onMessages_request`** — every message but the last one waits, the last one has the request
  with exactly its body.
-/

import EtherAdapter.Http.Json
import EtherAdapter.Http.Buffering

namespace EtherAdapter

/-! ### Finding a text -/

/-- A text is found at its first place. -/
theorem findText_eq_some {needle text : Bytes} {k : ℕ} (some_byte : needle ≠ [])
    (here : needle <+: text.drop k) (first : ∀ j < k, ¬ needle <+: text.drop j) :
    findText needle text = some k := by
  induction text generalizing k with
  | nil =>
    rw [List.drop_nil, List.prefix_nil] at here
    exact absurd here some_byte
  | cons c text ih =>
    rw [findText]
    cases k with
    | zero =>
      rw [List.drop_zero] at here
      rw [if_pos (List.prefix_iff_eq_take.mp here).symm]
    | succ k =>
      have later : findText needle text = some k :=
        ih here fun j less => first (j + 1) (Nat.succ_lt_succ less)
      rw [if_neg, later, Option.map_some]
      intro same
      exact first 0 (Nat.succ_pos k) (List.prefix_iff_eq_take.mpr same.symm)

/-- Before the place where it is found, a text does not stand. -/
theorem not_prefix_of_findText {needle text : Bytes} {k : ℕ} (found : findText needle text = some k)
    {j : ℕ} (less : j < k) : ¬ needle <+: text.drop j := by
  induction text generalizing k j with
  | nil =>
    rw [findText] at found
    split at found
    · cases found
      exact absurd less (Nat.not_lt_zero j)
    · cases found
  | cons c text ih =>
    rw [findText] at found
    split at found
    · cases found
      exact absurd less (Nat.not_lt_zero j)
    · rename_i other
      obtain ⟨later, there, rfl⟩ := Option.map_eq_some_iff.mp found
      cases j with
      | zero =>
        rw [List.drop_zero]
        exact fun here => other (List.prefix_iff_eq_take.mp here).symm
      | succ j =>
        rw [List.drop_succ_cons]
        exact ih there (Nat.lt_of_succ_lt_succ less)

/-- A text that is nowhere is not found. -/
theorem findText_eq_none {needle text : Bytes} (some_byte : needle ≠ [])
    (nowhere : ∀ j, ¬ needle <+: text.drop j) : findText needle text = none := by
  induction text with
  | nil => rw [findText, if_neg some_byte]
  | cons c text ih =>
    rw [findText, ih fun j => nowhere (j + 1), if_neg, Option.map_none]
    intro same
    exact nowhere 0 (List.prefix_iff_eq_take.mpr same.symm)

/-! ### Lines -/

/-- A line holds no line end. -/
def IsLine (line : Bytes) : Prop := ¬ crlf <:+: line

theorem isLine_of_not_mem {line : Bytes} (without : 13 ∉ line) : IsLine line :=
  fun inside => without (inside.subset List.mem_cons_self)

/-- The first line of a text is found. -/
theorem findText_crlf {line : Bytes} (isLine : IsLine line) (rest : Bytes) :
    findText crlf (line ++ (crlf ++ rest)) = some line.length := by
  refine findText_eq_some (List.cons_ne_nil _ _) ?_ fun j less here => ?_
  · rw [List.drop_left]
    exact List.prefix_append crlf rest
  · rw [List.drop_append_of_le_length (Nat.le_of_lt less)] at here
    by_cases inside : j + 2 ≤ line.length
    · -- both bytes are in the line
      refine isLine ((List.prefix_of_prefix_length_le here (List.prefix_append _ _) ?_).isInfix.trans
        (List.drop_suffix j line).isInfix)
      rw [List.length_drop]
      show 2 ≤ _
      omega
    · -- the second byte would be the first one of the line end
      have last : line.drop j = [(line.drop j).headD 0] := by
        have one : (line.drop j).length = 1 := by
          rw [List.length_drop]
          omega
        obtain ⟨c, single⟩ := List.length_eq_one_iff.mp one
        rw [single]
        rfl
      rw [last] at here
      obtain ⟨more, same⟩ := here
      cases (List.cons.inj (List.cons.inj same).2).1

theorem findText_crlf_none {line : Bytes} (isLine : IsLine line) : findText crlf line = none := by
  refine findText_eq_none (List.cons_ne_nil _ _) fun j here => isLine ?_
  exact here.isInfix.trans (List.drop_suffix j line).isInfix

/-- Lines, with a line end between two of them. -/
def joinLines (lines : List Bytes) : Bytes := crlf.intercalate lines

theorem joinLines_cons (line next : Bytes) (lines : List Bytes) :
    joinLines (line :: next :: lines) = line ++ (crlf ++ joinLines (next :: lines)) := by
  rw [joinLines, List.intercalate_cons_cons, List.append_assoc]
  rfl

theorem joinLines_singleton (line : Bytes) : joinLines [line] = line :=
  List.intercalate_singleton

/-- The content length of a block is that of its lines. -/
theorem contentLengthOf_headerLines {lines : List Bytes} (isLines : ∀ line ∈ lines, IsLine line)
    {fuel : ℕ} (enough : (joinLines lines).length ≤ fuel) :
    contentLengthOf (headerLines fuel (joinLines lines)) = contentLengthOf lines := by
  suffices folded : ∀ start, (headerLines fuel (joinLines lines)).foldl (fun length line =>
      if startsWith (bytesOf "content-length:") line then strtoul (line.drop 15) else length) start =
      lines.foldl (fun length line =>
        if startsWith (bytesOf "content-length:") line then strtoul (line.drop 15)
        else length) start from folded 0
  induction lines generalizing fuel with
  | nil =>
    intro start
    cases fuel with
    | zero => rfl
    | succ fuel => rfl
  | cons line lines ih =>
    intro start
    have own := isLines line List.mem_cons_self
    cases lines with
    | nil =>
      rw [joinLines_singleton] at enough ⊢
      cases line with
      | nil =>
        cases fuel with
        | zero => rfl
        | succ fuel => rfl
      | cons c line =>
        cases fuel with
        | zero => exact absurd enough (Nat.not_succ_le_zero _)
        | succ fuel =>
          rw [headerLines, if_neg (List.cons_ne_nil c line), findText_crlf_none own]
    | cons next lines =>
      rw [joinLines_cons, List.length_append, List.length_append] at enough
      have some_byte : line ++ (crlf ++ joinLines (next :: lines)) ≠ [] := by
        simp [crlf]
      have two : crlf.length = 2 := rfl
      cases fuel with
      | zero => omega
      | succ fuel =>
        have rest : (line ++ (crlf ++ joinLines (next :: lines))).drop (line.length + 2) =
            joinLines (next :: lines) := by
          rw [← List.append_assoc, ← two, ← List.length_append, List.drop_left]
        rw [joinLines_cons, headerLines, if_neg some_byte, findText_crlf own]
        simp only
        rw [rest, List.take_left, List.foldl_cons, List.foldl_cons]
        exact ih (fun other member => isLines other (List.mem_cons_of_mem _ member)) (by omega) _

/-! ### The length of the body -/

/-- A `Content-Length` line, in any letter case, with blanks around the digits. -/
structure LengthLine where
  name : Bytes
  lead : Bytes
  digits : Bytes
  trail : Bytes
  named : name.map lowerByte = bytesOf "content-length"
  lead_blank : ∀ c ∈ lead, c = 32 ∨ c = 9
  some_digit : digits ≠ []
  all_digits : AllDigits digits
  trail_blank : ∀ c ∈ trail, c = 32 ∨ c = 9

/-- The bytes of some other header. -/
def OtherLine (line : Bytes) : Prop := startsWith (bytesOf "content-length:") line = false

namespace LengthLine

variable (line : LengthLine)

def text : Bytes := line.name ++ 58 :: (line.lead ++ (line.digits ++ line.trail))

def value : ℕ := digitsValue 10 line.digits

theorem length_name : line.name.length = 14 := by
  have sizes := congrArg List.length line.named
  rw [List.length_map] at sizes
  exact sizes

theorem startsWith_text : startsWith (bytesOf "content-length:") line.text = true := by
  have front : line.text.take 15 = line.name ++ [58] := by
    rw [text, List.take_append, line.length_name, List.take_of_length_le]
    · rfl
    · rw [line.length_name]
      decide
  show ((line.text.take 15).map lowerByte == bytesOf "content-length:") = true
  rw [front, List.map_append, line.named]
  rfl

/-- **The number of the line is read.** -/
theorem strtoul_text (small : line.value < 2 ^ 64) : strtoul (line.text.drop 15) = line.value := by
  have behind : line.text.drop 15 = line.lead ++ (line.digits ++ line.trail) := by
    rw [text, List.drop_append, line.length_name,
      List.drop_of_length_le (by rw [line.length_name]; decide), List.nil_append]
    rfl
  have blank : ∀ {c : UInt8}, c = 32 ∨ c = 9 → isSpaceByte c = true ∧ isDigitByte c = false := by
    rintro c (rfl | rfl)
    · decide
    · decide
  have spaces : (line.lead ++ (line.digits ++ line.trail)).takeWhile isSpaceByte = line.lead := by
    refine takeWhile_append_stop (fun c member => (blank (line.lead_blank c member)).1) ?_
    intro c head
    obtain ⟨d, digits, start⟩ := List.exists_cons_of_ne_nil line.some_digit
    rw [start, List.cons_append, List.head?_cons, Option.some.injEq] at head
    rw [← head]
    exact isSpaceByte_of_isDigitByte (line.all_digits d (by rw [start]; exact List.mem_cons_self))
  have digits : (line.digits ++ line.trail).takeWhile isDigitByte = line.digits := by
    refine takeWhile_append_stop line.all_digits fun c head => ?_
    exact (blank (line.trail_blank c (List.mem_of_mem_head? head))).2
  have within : ¬ 2 ^ 64 ≤ digitsValue 10 line.digits := Nat.not_le.mpr small
  rw [behind, strtoul, spaces]
  simp only [List.drop_left, scanSign_digits line.all_digits line.some_digit, Nat.add_zero,
    digits, Bool.false_eq_true, if_false, if_neg within]
  rfl

end LengthLine

/-- Other lines do not count. -/
theorem contentLengthOf_eq {before after : List Bytes} {line : LengthLine}
    (others : ∀ other ∈ before ++ after, OtherLine other) (small : line.value < 2 ^ 64) :
    contentLengthOf (before ++ line.text :: after) = line.value := by
  have skip : ∀ {lines : List Bytes} (start : ℕ), (∀ other ∈ lines, OtherLine other) →
      lines.foldl (fun length line => if startsWith (bytesOf "content-length:") line
        then strtoul (line.drop 15) else length) start = start := by
    intro lines start others
    induction lines with
    | nil => rfl
    | cons other lines ih =>
      have own : startsWith (bytesOf "content-length:") other = false :=
        others other List.mem_cons_self
      rw [List.foldl_cons, own, if_neg Bool.false_ne_true]
      exact ih fun line member => others line (List.mem_cons_of_mem _ member)
  rw [contentLengthOf, List.foldl_append, List.foldl_cons, line.startsWith_text, if_pos rfl,
    line.strtoul_text small]
  exact skip _ fun other member => others other (List.mem_append_right _ member)

/-! ### Requests -/

/-- The header and the text of a request. -/
def headOf (first : Bytes) (lines : List Bytes) : Bytes := joinLines (first :: lines)

def textOf (first : Bytes) (lines : List Bytes) (body : Bytes) : Bytes :=
  headOf first lines ++ (headerEnd ++ body)

/-- **A POST request** within the cap, with one `Content-Length` line that gives the length of its
body; the first empty line is the one behind its header. -/
structure PostRequest where
  first : Bytes
  before : List Bytes
  length : LengthLine
  after : List Bytes
  body : Bytes
  isLines : ∀ line ∈ first :: (before ++ length.text :: after), IsLine line
  post : bytesOf "POST " <+: first
  length_eq : length.value = body.length
  others : ∀ line ∈ before ++ after, OtherLine line
  first_end : ∀ j < (headOf first (before ++ length.text :: after)).length,
    ¬ headerEnd <+: (textOf first (before ++ length.text :: after) body).drop j
  cap : (textOf first (before ++ length.text :: after) body).length ≤ kMaxRequest

namespace PostRequest

variable (r : PostRequest)

def lines : List Bytes := r.before ++ r.length.text :: r.after

def head : Bytes := headOf r.first r.lines

def text : Bytes := textOf r.first r.lines r.body

theorem length_text : r.text.length = r.head.length + 4 + r.body.length := by
  show (r.head ++ (headerEnd ++ r.body)).length = _
  rw [List.length_append, List.length_append, Nat.add_assoc]
  rfl

/-- **The header is read**: the length of the body, and the method. -/
theorem parseHeaderBlock_head :
    parseHeaderBlock r.head = some (r.body.length, bytesOf "POST") := by
  obtain ⟨next, later, rest⟩ : ∃ next later, r.lines = next :: later :=
    List.exists_cons_of_ne_nil (by simp [lines])
  have own := r.isLines r.first List.mem_cons_self
  have isLines : ∀ line ∈ r.lines, IsLine line :=
    fun line member => r.isLines line (List.mem_cons_of_mem _ member)
  have start : r.head = r.first ++ (crlf ++ joinLines r.lines) := by
    rw [head, headOf, rest, joinLines_cons]
  have found : findText crlf r.head = some r.first.length := by
    rw [start]
    exact findText_crlf own _
  have front : r.head.take r.first.length = r.first := by rw [start, List.take_left]
  have back : r.head.drop (r.first.length + 2) = joinLines r.lines := by
    have two : crlf.length = 2 := rfl
    rw [start, ← List.append_assoc, ← two, ← List.length_append, List.drop_left]
  have method : r.first.takeWhile (· ≠ 32) = bytesOf "POST" := by
    obtain ⟨target, start⟩ := r.post
    rw [← start]
    rfl
  have small : r.length.value < 2 ^ 64 := by
    have cap : r.text.length ≤ kMaxRequest := r.cap
    rw [r.length_text, kMaxRequest] at cap
    rw [r.length_eq]
    omega
  rw [parseHeaderBlock, found]
  simp only [front, back, method]
  rw [contentLengthOf_headerLines isLines (Nat.le_refl _), lines,
    contentLengthOf_eq r.others small, r.length_eq]

/-! ### Any prefix of it -/

/-- The state of the connection after `m` bytes of the request. -/
def stateOf (m : ℕ) : ConnState :=
  if m < r.head.length + 4 then ⟨r.text.take m, false, 0⟩
  else ⟨r.body.take (m - (r.head.length + 4)), true, r.body.length⟩

/-- The end of the header is found once it is there, and not before. -/
theorem findText_take (n : ℕ) :
    findText headerEnd (r.text.take n) =
      if n < r.head.length + 4 then none else some r.head.length := by
  have early : ∀ j < r.head.length, ¬ headerEnd <+: (r.text.take n).drop j := by
    intro j less here
    rw [List.drop_take] at here
    exact r.first_end j less (here.trans (List.take_prefix _ _))
  split
  · rename_i short
    refine findText_eq_none (List.cons_ne_nil _ _) fun j here => ?_
    by_cases less : j < r.head.length
    · exact early j less here
    · have bytes : 4 ≤ ((r.text.take n).drop j).length := here.length_le
      rw [List.length_drop, List.length_take] at bytes
      omega
  · rename_i long
    refine findText_eq_some (List.cons_ne_nil _ _) ?_ early
    show headerEnd <+: ((r.head ++ (headerEnd ++ r.body)).take n).drop r.head.length
    rw [List.drop_take, List.drop_left]
    refine List.prefix_of_prefix_length_le (List.prefix_append headerEnd r.body)
      (List.take_prefix _ _) ?_
    rw [List.length_take, List.length_append]
    show 4 ≤ min _ (4 + _)
    omega

/-- The body, as far as it has arrived. -/
theorem drop_take_text (n : ℕ) :
    (r.text.take n).drop (r.head.length + 4) = r.body.take (n - (r.head.length + 4)) := by
  have split : r.text = (r.head ++ headerEnd) ++ r.body := (List.append_assoc _ _ _).symm
  have size : (r.head ++ headerEnd).length = r.head.length + 4 := List.length_append
  rw [List.drop_take, split, ← size, List.drop_left]

/-- **One message takes the state of the bytes before it to the state of the bytes with it**; it
has the request when these are all. -/
theorem assemble_stateOf {m n : ℕ} (less : m < n) (most : n ≤ r.text.length) :
    (r.stateOf m).assemble ((r.text.take n).drop m) =
      (r.stateOf n, if n = r.text.length then .request r.body else .waiting) := by
  have cap : r.text.length ≤ kMaxRequest := r.cap
  have total := r.length_text
  have joined : r.text.take m ++ (r.text.take n).drop m = r.text.take n := by
    have shorter : r.text.take m = (r.text.take n).take m := by
      rw [List.take_take, Nat.min_eq_left (Nat.le_of_lt less)]
    rw [shorter, List.take_append_drop]
  -- what is found behind the header
  have body : r.head.length + 4 ≤ n →
      ConnState.body ⟨r.body.take (n - (r.head.length + 4)), true, r.body.length⟩ =
        if n = r.text.length then .request r.body else .waiting := by
    intro long
    rw [ConnState.body]
    simp only [List.length_take]
    by_cases last : n = r.text.length
    · have whole : r.body.take (n - (r.head.length + 4)) = r.body :=
        List.take_of_length_le (by omega)
      rw [if_pos last, if_neg (by omega), whole, List.take_length]
    · rw [if_neg last, if_pos (by omega)]
  unfold ConnState.assemble
  by_cases early : m < r.head.length + 4
  · have within : ¬ kMaxRequest < (r.text.take n).length := by
      rw [List.length_take]
      omega
    rw [stateOf, if_pos early]
    simp only [joined, if_neg within, Bool.false_eq_true, if_false, r.findText_take]
    by_cases short : n < r.head.length + 4
    · simp only [if_pos short]
      rw [stateOf, if_pos short, if_neg (by omega)]
    · have long := Nat.le_of_not_lt short
      have head : (r.text.take n).take r.head.length = r.head := by
        rw [List.take_take, Nat.min_eq_left (by omega)]
        exact List.take_left
      simp only [if_neg short, head, r.parseHeaderBlock_head, ne_eq, not_true_eq_false, if_false,
        r.drop_take_text]
      rw [stateOf, if_neg short, body long]
  · have long : r.head.length + 4 ≤ n := by omega
    have appended : r.body.take (m - (r.head.length + 4)) ++ (r.text.take n).drop m =
        r.body.take (n - (r.head.length + 4)) := by
      have behind := congrArg (List.drop (r.head.length + 4)) joined
      rw [List.drop_append_of_le_length (by rw [List.length_take]; omega),
        r.drop_take_text, r.drop_take_text] at behind
      exact behind
    have within : ¬ kMaxRequest < (r.body.take (n - (r.head.length + 4))).length := by
      rw [List.length_take]
      omega
    rw [stateOf, if_neg early]
    simp only [appended, if_neg within, if_true]
    rw [stateOf, if_neg (Nat.not_lt.mpr long), body long]

end PostRequest

/-! ### Any messages -/

/-- What every message of a connection gives. -/
def ConnState.assembleAll : ConnState → List Bytes → List Assembled
  | _, [] => []
  | st, data :: chunks => (st.assemble data).2 :: assembleAll (st.assemble data).1 chunks

/-- What the server sends and stores at every message of a connection. -/
def HttpIngest.onMessages (db : Config) (httpPort : UInt16) (conn : ℕ) (peer : Peer) :
    HttpIngest → List (Bytes × Int) → List (Option Bytes × Option RowBatch)
  | _, [] => []
  | server, (data, timeUs) :: chunks =>
    (server.onMessage db httpPort conn peer data timeUs).2 ::
      onMessages db httpPort conn peer (server.onMessage db httpPort conn peer data timeUs).1 chunks

/-- The server answers what is assembled. -/
theorem HttpIngest.onMessages_eq (db : Config) (httpPort : UInt16) (conn : ℕ) (peer : Peer)
    (server : HttpIngest) {chunks : List (Bytes × Int)} (bytes : ∀ chunk ∈ chunks, chunk.1 ≠ []) :
    onMessages db httpPort conn peer server chunks =
      List.zipWith (fun assembled chunk => answer db httpPort peer chunk.2 assembled)
        ((server.state conn).assembleAll (chunks.map Prod.fst)) chunks := by
  induction chunks generalizing server with
  | nil => rfl
  | cons chunk chunks ih =>
    obtain ⟨data, timeUs⟩ := chunk
    have some_byte : data ≠ [] := bytes (data, timeUs) List.mem_cons_self
    have next : (server.onMessage db httpPort conn peer data timeUs).1.state conn =
        ((server.state conn).assemble data).1 := by
      rw [onMessage, if_neg some_byte, state, AList.lookup_insert, Option.getD_some]
    rw [onMessages, ih _ fun chunk member => bytes chunk (List.mem_cons_of_mem _ member), next,
      onMessage, if_neg some_byte]
    rfl

/-- Cut anywhere, all but the last message wait. -/
theorem PostRequest.assembleAll_stateOf (r : PostRequest) (front : List Bytes) (last : Bytes)
    (bytes : ∀ data ∈ front ++ [last], data ≠ []) {m : ℕ}
    (whole : (front ++ [last]).flatten = r.text.drop m) :
    (r.stateOf m).assembleAll (front ++ [last]) =
      List.replicate front.length .waiting ++ [.request r.body] := by
  induction front generalizing m with
  | nil =>
    have some_byte := List.length_pos_iff.mpr (bytes last (List.mem_singleton.mpr rfl))
    rw [List.nil_append, List.flatten_singleton] at whole
    have size := congrArg List.length whole
    rw [List.length_drop] at size
    have step := r.assemble_stateOf (m := m) (show m < r.text.length by omega) (Nat.le_refl _)
    rw [List.take_length, ← whole, if_pos rfl] at step
    rw [List.nil_append, ConnState.assembleAll, step]
    rfl
  | cons data front ih =>
    have some_byte := List.length_pos_iff.mpr (bytes data List.mem_cons_self)
    have later := List.length_pos_iff.mpr
      (bytes last (List.mem_append_right _ (List.mem_singleton.mpr rfl)))
    rw [List.cons_append, List.flatten_cons] at whole
    have size := congrArg List.length whole
    rw [List.length_append, List.flatten_append, List.length_append, List.flatten_singleton,
      List.length_drop] at size
    have here : data = (r.text.take (m + data.length)).drop m := by
      rw [List.drop_take, Nat.add_sub_cancel_left, ← whole, List.take_left]
    have rest : (front ++ [last]).flatten = r.text.drop (m + data.length) := by
      rw [← List.drop_drop, ← whole, List.drop_left]
    have step := r.assemble_stateOf (m := m) (n := m + data.length) (by omega) (by omega)
    rw [← here, if_neg (by omega)] at step
    rw [List.cons_append, ConnState.assembleAll, step,
      ih (fun other member => bytes other (List.mem_cons_of_mem _ member)) rest]
    rfl

/-- **A request is assembled from any messages it is cut into**: on a new connection every message
but the last one waits and is not answered, and the last one hands exactly the body on. -/
theorem PostRequest.onMessages_request (r : PostRequest) (db : Config) (httpPort : UInt16)
    (conn : ℕ) (peer : Peer) (server : HttpIngest) (front : List (Bytes × Int)) (last : Bytes × Int)
    (bytes : ∀ chunk ∈ front ++ [last], chunk.1 ≠ [])
    (whole : chunkBytes (front ++ [last]) = r.text) :
    ConnState.assembleAll {} ((front ++ [last]).map Prod.fst) =
        List.replicate front.length .waiting ++ [.request r.body] ∧
      HttpIngest.onMessages db httpPort conn peer (server.connect conn) (front ++ [last]) =
        List.replicate front.length (none, none) ++
          [(some (handleRequest db httpPort peer r.body last.2).1,
            (handleRequest db httpPort peer r.body last.2).2)] := by
  have assembled : ConnState.assembleAll {} ((front ++ [last]).map Prod.fst) =
      List.replicate front.length .waiting ++ [.request r.body] := by
    have fresh : r.stateOf 0 = {} := by
      rw [stateOf, if_pos (Nat.succ_pos _), List.take_zero]
    have start := @assembleAll_stateOf r (front.map Prod.fst) last.1 ?_ 0 ?_
    · rw [fresh, List.length_map] at start
      rw [List.map_append, List.map_singleton]
      exact start
    · intro data member
      rw [← List.map_singleton, ← List.map_append] at member
      obtain ⟨chunk, there, rfl⟩ := List.mem_map.mp member
      exact bytes chunk there
    · rw [List.drop_zero, ← whole, chunkBytes, List.map_append, List.map_singleton]
  refine ⟨assembled, ?_⟩
  have fresh : (server.connect conn).state conn = {} := by
    rw [HttpIngest.state, HttpIngest.connect, AList.lookup_insert, Option.getD_some]
  have waits : ∀ chunks : List (Bytes × Int),
      List.zipWith (fun assembled chunk => answer db httpPort peer chunk.2 assembled)
        (List.replicate chunks.length .waiting) chunks =
      List.replicate chunks.length (none, none) := by
    intro chunks
    induction chunks with
    | nil => rfl
    | cons chunk chunks ih =>
      rw [List.length_cons, List.replicate_succ, List.zipWith_cons_cons, ih, List.replicate_succ]
      rfl
  rw [HttpIngest.onMessages_eq db httpPort conn peer _ bytes, fresh, assembled,
    List.zipWith_append List.length_replicate, waits]
  rfl

/-! ### The gate's request -/

theorem noBlanks : ∀ c ∈ ([] : Bytes), c = 32 ∨ c = 9 := fun _ member => absurd member List.not_mem_nil

theorem oneBlank : ∀ c ∈ ([32] : Bytes), c = 32 ∨ c = 9 := by
  intro c member
  exact Or.inl (List.mem_singleton.mp member)

theorem gateLength_named :
    (bytesOf "CONTENT-Length").map lowerByte = bytesOf "content-length" := by decide

theorem two_digits : AllDigits [50] := by
  intro c member
  rw [List.mem_singleton.mp member]
  rfl

/-- `CONTENT-Length: 2`. -/
def gateLength : LengthLine where
  name := bytesOf "CONTENT-Length"
  lead := [32]
  digits := [50]
  trail := []
  named := gateLength_named
  lead_blank := oneBlank
  some_digit := List.cons_ne_nil _ _
  all_digits := two_digits
  trail_blank := noBlanks

theorem gatePost_isLines :
    ∀ line ∈ bytesOf "POST / HTTP/1.1" :: ([bytesOf "Host: gate"] ++ gateLength.text :: []),
      IsLine line := by
  have none : (bytesOf "POST / HTTP/1.1" ::
      ([bytesOf "Host: gate"] ++ gateLength.text :: [])).all (fun line => !line.contains 13) =
      true := by decide
  intro line member
  refine isLine_of_not_mem fun inside => ?_
  have without := List.all_eq_true.mp none line member
  rw [List.contains_iff_mem.mpr inside] at without
  cases without

theorem gatePost_post : bytesOf "POST " <+: bytesOf "POST / HTTP/1.1" := by decide

theorem gatePost_others : ∀ line ∈ [bytesOf "Host: gate"] ++ [], OtherLine line := by
  intro line member
  rw [List.append_nil] at member
  rw [List.mem_singleton.mp member, OtherLine]
  decide

theorem gatePost_first_end :
    ∀ j < (headOf (bytesOf "POST / HTTP/1.1")
        ([bytesOf "Host: gate"] ++ gateLength.text :: [])).length,
      ¬ headerEnd <+: (textOf (bytesOf "POST / HTTP/1.1")
        ([bytesOf "Host: gate"] ++ gateLength.text :: []) [123, 125]).drop j := by
  have found : findText headerEnd (textOf (bytesOf "POST / HTTP/1.1")
      ([bytesOf "Host: gate"] ++ gateLength.text :: []) [123, 125]) =
      some (headOf (bytesOf "POST / HTTP/1.1")
        ([bytesOf "Host: gate"] ++ gateLength.text :: [])).length := by decide
  exact fun j less => not_prefix_of_findText found less

theorem gatePost_cap :
    (textOf (bytesOf "POST / HTTP/1.1") ([bytesOf "Host: gate"] ++ gateLength.text :: [])
      [123, 125]).length ≤ kMaxRequest := by
  decide

/-- A request of the gate, with the body `{}`. -/
def gatePost : PostRequest where
  first := bytesOf "POST / HTTP/1.1"
  before := [bytesOf "Host: gate"]
  length := gateLength
  after := []
  body := [123, 125]
  isLines := gatePost_isLines
  post := gatePost_post
  length_eq := rfl
  others := gatePost_others
  first_end := gatePost_first_end
  cap := gatePost_cap

/-- Cut inside the end of its header, it is stored with the second message. -/
theorem PostRequest.onMessages_gate :
    HttpIngest.onMessages HttpIngest.gateDb 8080 1 (HttpIngest.gatePeers 1)
        (HttpIngest.connect {} 1) [(gatePost.text.take 46, 0), (gatePost.text.drop 46, 1000)] =
      [(none, none),
        (some (handleRequest HttpIngest.gateDb 8080 (HttpIngest.gatePeers 1) [123, 125] 1000).1,
          (handleRequest HttpIngest.gateDb 8080 (HttpIngest.gatePeers 1) [123, 125] 1000).2)] :=
  (gatePost.onMessages_request HttpIngest.gateDb 8080 1 (HttpIngest.gatePeers 1) {}
    [(gatePost.text.take 46, 0)] (gatePost.text.drop 46, 1000) (by decide) (by decide)).2

end EtherAdapter
