/-
**The flat JSON parser** (`HttpIngest.cpp`: `parseJsonFields`).

The index into the body is the list of bytes from there on. A return of -1 is `none`; the cells are
not used then. Every member has at least one byte, so as many passes of the loop as there are bytes
are enough (`parseMembers_fuel`).

* `parseJsonFields` — the number of members whose key is a column's name, and the cells.
-/

import EtherAdapter.Model.Numbers

namespace EtherAdapter

/-! ### Scanners -/

def isJsonSpace (c : UInt8) : Bool := c == 32 || c == 9 || c == 13 || c == 10

/-- `skipWs`. -/
def skipWs (text : Bytes) : Bytes := text.dropWhile isJsonSpace

/-- What a backslash and a byte stand for. -/
def unescape (c : UInt8) : UInt8 :=
  if c = 110 then 10 else if c = 116 then 9 else if c = 114 then 13 else c

/-- A string behind its opening quote: its content, and what follows it. -/
def scanString : Bytes → Option (Bytes × Bytes)
  | [] => none
  | c :: rest =>
    if c = 92 then
      match rest with
      | [] => none
      | e :: rest => (scanString rest).map fun scanned => (unescape e :: scanned.1, scanned.2)
    else if c = 34 then some ([], rest)
    else (scanString rest).map fun scanned => (c :: scanned.1, scanned.2)

def parseString : Bytes → Option (Bytes × Bytes)
  | 34 :: rest => scanString rest
  | _ => none

/-- The value of a member, `none` for a string and for `null`, and what follows it. -/
def parseValue (text : Bytes) : Option (Option (BitVec 64) × Bytes) :=
  if text.head? = some 34 then (parseString text).map fun scanned => (none, scanned.2)
  else if text.take 4 = bytesOf "null" then some (none, text.drop 4)
  else if text.take 4 = bytesOf "true" then some (some 0x3FF0000000000000, text.drop 4)
  else if text.take 5 = bytesOf "false" then some (some 0, text.drop 5)
  else
    let number := strtod text
    if number.2 = 0 then none else some (some number.1, text.drop number.2)

/-- A member: its key, its value, and what follows it and its spaces. -/
def parseMember (text : Bytes) : Option (Bytes × Option (BitVec 64) × Bytes) :=
  match parseString (skipWs text) with
  | none => none
  | some (key, rest) =>
    match skipWs rest with
    | 58 :: rest =>
      (parseValue (skipWs rest)).map fun parsed => (key, parsed.1, skipWs parsed.2)
    | _ => none

/-! ### Cells -/

/-- A number in the form of a column. -/
def Column.ofNumber (f : Column) (num : BitVec 64) : Cell :=
  { v :=
      if f.asDouble then num
      else if f.kind = .bool then (if isZeroDouble num then 0 else 1)
      else llround num }

def Column.store (f : Column) (value : Option (BitVec 64)) (cell : Cell) : Cell :=
  match value with
  | none => { cell with isNull := true }
  | some num => f.ofNumber num

/-- The first column of that name takes the value. -/
def storeMember (columns : List Column) (key : Bytes) (value : Option (BitVec 64))
    (state : ℕ × List Cell) : ℕ × List Cell :=
  match columns.findIdx? fun f => f.name = key with
  | none => state
  | some k =>
    (state.1 + 1, match columns[k]? with
      | none => state.2
      | some f => state.2.modify k (f.store value))

/-! ### Objects -/

/-- The loop over the members. -/
def parseMembers (columns : List Column) : ℕ → Bytes → ℕ × List Cell → Option (ℕ × List Cell)
  | 0, _, _ => none
  | fuel + 1, text, state =>
    match parseMember text with
    | none => none
    | some (key, value, rest) =>
      let state := storeMember columns key value state
      match rest with
      | 44 :: rest => parseMembers columns fuel rest state
      | 125 :: _ => some state
      | _ => none

def parseJsonFields (body : Bytes) (columns : List Column) (cells : List Cell) :
    Option (ℕ × List Cell) :=
  match skipWs body with
  | 123 :: rest =>
    match skipWs rest with
    | 125 :: _ => some (0, cells)
    | rest => parseMembers columns rest.length rest (0, cells)
  | _ => none

/-! ### Strings, byte by byte -/

theorem scanString_quote (rest : Bytes) : scanString (34 :: rest) = some ([], rest) := by
  rw [scanString.eq_def]
  rfl

theorem scanString_escaped (e : UInt8) (rest : Bytes) :
    scanString (92 :: e :: rest) =
      (scanString rest).map fun scanned => (unescape e :: scanned.1, scanned.2) := by
  rw [scanString.eq_def]
  rfl

theorem scanString_plain {c : UInt8} (slash : c ≠ 92) (quote : c ≠ 34) (rest : Bytes) :
    scanString (c :: rest) = (scanString rest).map fun scanned => (c :: scanned.1, scanned.2) := by
  rw [scanString.eq_def]
  simp only [if_neg slash, if_neg quote]

/-! ### Enough passes -/

theorem length_skipWs_le (text : Bytes) : (skipWs text).length ≤ text.length :=
  (List.dropWhile_sublist _).length_le

theorem length_of_scanString {text : Bytes} {scanned : Bytes × Bytes}
    (found : scanString text = some scanned) : scanned.2.length < text.length := by
  fun_induction scanString text generalizing scanned with
  | case1 => cases found
  | case2 => cases found
  | case3 e rest ih =>
    obtain ⟨inner, held, rfl⟩ := Option.map_eq_some_iff.mp found
    have shorter := ih held
    exact Nat.lt_succ_of_lt (Nat.lt_succ_of_lt shorter)
  | case4 rest =>
    cases found
    exact Nat.lt_succ_self _
  | case5 c rest _ _ ih =>
    obtain ⟨inner, held, rfl⟩ := Option.map_eq_some_iff.mp found
    have shorter := ih held
    exact Nat.lt_succ_of_lt shorter

theorem length_of_parseString {text : Bytes} {scanned : Bytes × Bytes}
    (found : parseString text = some scanned) : scanned.2.length < text.length := by
  unfold parseString at found
  split at found
  · rename_i rest
    have shorter := length_of_scanString found
    rw [List.length_cons]
    omega
  · cases found

theorem length_of_parseValue {text : Bytes} {parsed : Option (BitVec 64) × Bytes}
    (found : parseValue text = some parsed) : parsed.2.length ≤ text.length := by
  have dropped : ∀ n, (text.drop n).length ≤ text.length := fun n => by
    rw [List.length_drop]
    exact Nat.sub_le _ _
  unfold parseValue at found
  split at found
  · obtain ⟨scanned, held, rfl⟩ := Option.map_eq_some_iff.mp found
    exact Nat.le_of_lt (length_of_parseString held)
  split at found
  · cases found
    exact dropped 4
  split at found
  · cases found
    exact dropped 4
  split at found
  · cases found
    exact dropped 5
  simp only at found
  split at found
  · cases found
  · cases found
    exact dropped _

theorem length_of_parseMember {text key rest : Bytes} {value : Option (BitVec 64)}
    (found : parseMember text = some (key, value, rest)) : rest.length < text.length := by
  have front := length_skipWs_le text
  unfold parseMember at found
  split at found
  · cases found
  rename_i key' rest' scanned
  have named := length_of_parseString scanned
  have behind := length_skipWs_le rest'
  split at found
  · rename_i rest'' colon
    obtain ⟨parsed, held, equal⟩ := Option.map_eq_some_iff.mp found
    cases equal
    have valued := length_of_parseValue held
    have spaces := length_skipWs_le rest''
    have spaces' := length_skipWs_le parsed.2
    rw [colon, List.length_cons] at behind
    simp only at named
    omega
  · cases found

/-- **The number of passes does not matter**, from the number of bytes on. -/
theorem parseMembers_fuel (columns : List Column) {fuel : ℕ} {text : Bytes}
    (enough : text.length ≤ fuel) (state : ℕ × List Cell) :
    parseMembers columns fuel text state = parseMembers columns text.length text state := by
  suffices same : ∀ fuel text, text.length ≤ fuel → ∀ more state,
      parseMembers columns (fuel + more) text state = parseMembers columns fuel text state by
    obtain ⟨more, rfl⟩ := Nat.exists_eq_add_of_le enough
    exact same text.length text (Nat.le_refl _) more state
  intro fuel
  induction fuel with
  | zero =>
    intro text short more state
    have empty : text = [] := List.length_eq_zero_iff.mp (Nat.le_zero.mp short)
    rw [empty]
    cases more with
    | zero => rfl
    | succ more => rfl
  | succ fuel ih =>
    intro text short more state
    rw [Nat.add_right_comm, parseMembers, parseMembers]
    split
    · rfl
    · rename_i key value rest found
      have shorter := length_of_parseMember found
      split
      · rename_i rest'
        rw [List.length_cons] at shorter
        exact ih rest' (by omega) more _
      · rfl
      · rfl

end EtherAdapter
