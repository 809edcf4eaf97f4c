/-
**The INSERT statements read back as the batch.**

* `parseInsert` — a reader of `INSERT INTO name VALUES (v,...),(v,...)`; `readToken` makes a value of
  a token, by the column it is for.
* `digitsValue_decimal`, `readInteger_intText` — the integers come back.
* `isNumberText_formatDouble` — the text of a double has no comma, no parenthesis and no capital.
* `parseInsert_sqlStatement` — a statement is read as its name and its rows of tokens.
* **`writeHttpBatch_reads_back`** — the statements of a batch read back as the batch, exactly if it has
  less than `2 ^ 31` rows; of `2 ^ 31` rows none is written (`not_readsBack_nullRows`).
-/

import EtherAdapter.Tuples.Basic
import EtherAdapter.Model.Sql
import EtherAdapter.Config.Naming
import EtherAdapter.Http.Json
import EtherAdapter.Writer.Staging

namespace EtherAdapter

open Grouping Tuples

/-! ### The bytes of a number -/

/-- Digits, signs, a point, and the letters of `e`, `inf` and `nan`. -/
def isNumberByte (c : UInt8) : Bool :=
  isDigitByte c || c == 43 || c == 45 || c == 46 || c == 97 || c == 101 || c == 102 || c == 105 ||
    c == 110

/-- A text of such bytes, and not empty. -/
structure IsNumberText (text : Bytes) : Prop where
  some_byte : text ≠ []
  bytes : ∀ c ∈ text, isNumberByte c = true

theorem isNumberByte_of_isDigitByte {c : UInt8} (digit : isDigitByte c = true) :
    isNumberByte c = true := by
  simp only [isNumberByte, digit, Bool.true_or]

theorem decimal_ne_nil (n : ℕ) : decimal n ≠ [] := by
  rw [decimal, ne_eq, List.map_eq_nil_iff, ← List.length_eq_zero_iff]
  exact Nat.ne_of_gt Nat.length_toDigits_pos

theorem allDigits_decimal (n : ℕ) : AllDigits (decimal n) :=
  fun _ member => isDigitByte_of_mem_decimal member

theorem isNumberText_decimal (n : ℕ) : IsNumberText (decimal n) :=
  ⟨decimal_ne_nil n, fun _ member => isNumberByte_of_isDigitByte (allDigits_decimal n _ member)⟩

theorem IsNumberText.cons {text : Bytes} (number : IsNumberText text) {c : UInt8}
    (byte : isNumberByte c = true) : IsNumberText (c :: text) := by
  refine ⟨List.cons_ne_nil _ _, fun d member => ?_⟩
  rcases List.mem_cons.mp member with rfl | later
  · exact byte
  · exact number.bytes d later

theorem isNumberText_intText (v : Int) : IsNumberText (intText v) := by
  rw [intText]
  split
  · exact (isNumberText_decimal _).cons (by decide)
  · exact isNumberText_decimal _

/-- What is left of digits behind a point. -/
theorem isNumberByte_of_mem_fractionText {digits : Bytes} (all : AllDigits digits) :
    ∀ c ∈ fractionText digits, isNumberByte c = true := by
  intro c member
  rw [fractionText] at member
  split at member
  · cases member
  · rcases List.mem_cons.mp member with rfl | kept
    · decide
    · rw [List.mem_reverse] at kept
      have there := (List.dropWhile_sublist _).subset kept
      exact isNumberByte_of_isDigitByte (all c (List.mem_reverse.mp there))

theorem allDigits_append {front back : Bytes} (first : AllDigits front) (second : AllDigits back) :
    AllDigits (front ++ back) := by
  intro c member
  rcases List.mem_append.mp member with here | there
  · exact first c here
  · exact second c there

theorem allDigits_of_sublist {part digits : Bytes} (part_of : part.Sublist digits)
    (all : AllDigits digits) : AllDigits part := fun c member => all c (part_of.subset member)

theorem allDigits_replicate (n : ℕ) : AllDigits (List.replicate n 48) := by
  intro c member
  rw [List.eq_of_mem_replicate member]
  decide

theorem isNumberText_exponentText (x : ℕ) : IsNumberText (exponentText x) := by
  rw [exponentText]
  split
  · exact (isNumberText_decimal x).cons (by decide)
  · exact isNumberText_decimal x

theorem IsNumberText.append {text more : Bytes} (number : IsNumberText text)
    (bytes : ∀ c ∈ more, isNumberByte c = true) : IsNumberText (text ++ more) := by
  refine ⟨fun empty => number.some_byte (List.append_eq_nil_iff.mp empty).1, fun c member => ?_⟩
  rcases List.mem_append.mp member with here | there
  · exact number.bytes c here
  · exact bytes c there

theorem isNumberText_take {digits : Bytes} (some_digit : digits ≠ []) (all : AllDigits digits)
    (n : ℕ) : IsNumberText (digits.take (n + 1)) := by
  refine ⟨fun empty => ?_, fun c member => ?_⟩
  · rw [List.take_eq_nil_iff] at empty
    rcases empty with no | none
    · exact absurd no (Nat.succ_ne_zero n)
    · exact some_digit none
  · exact isNumberByte_of_isDigitByte (all c (List.mem_of_mem_take member))

theorem isNumberText_formatDigits (rounded : ℕ) (x : Int) : IsNumberText (formatDigits rounded x) := by
  have all := allDigits_decimal rounded
  have front := isNumberText_take (decimal_ne_nil rounded) all
  rw [formatDigits]
  split
  · exact (front _).append (isNumberByte_of_mem_fractionText (allDigits_of_sublist
      (List.drop_sublist _ _) all))
  split
  · have zero : IsNumberText [48] :=
      ⟨List.cons_ne_nil _ _, List.forall_mem_singleton.mpr (by decide)⟩
    exact zero.append (isNumberByte_of_mem_fractionText
      (allDigits_append (allDigits_replicate _) all))
  · refine ((front 0).append (isNumberByte_of_mem_fractionText (allDigits_of_sublist
      (List.drop_sublist _ _) all))).append ?_
    have exponent := isNumberText_exponentText x.natAbs
    have signed : IsNumberText ((if x < 0 then 45 else 43) :: exponentText x.natAbs) := by
      refine exponent.cons ?_
      split
      · decide
      · decide
    exact (signed.cons (by decide)).bytes

theorem isNumberText_formatQuotient (num den : ℕ) : IsNumberText (formatQuotient num den) := by
  have carried : ∀ (rounded : ℕ) (x : Int), IsNumberText
      (if rounded = 10 ^ 10 then formatDigits (10 ^ 9) (x + 1) else formatDigits rounded x) := by
    intro rounded x
    split
    · exact isNumberText_formatDigits _ _
    · exact isNumberText_formatDigits _ _
  exact carried _ _

/-- **The text of a double** has bytes of numbers only. -/
theorem isNumberText_formatDouble (bits : BitVec 64) : IsNumberText (formatDouble bits) := by
  have signed : ∀ {text : Bytes}, IsNumberText text →
      IsNumberText ((if 2 ^ 63 ≤ bits.toNat then [45] else []) ++ text) := by
    intro text number
    split
    · exact number.cons (by decide)
    · exact number
  have inf : IsNumberText (bytesOf "inf") :=
    ⟨by decide, List.all_eq_true.mp (by decide)⟩
  have nan : IsNumberText (bytesOf "nan") :=
    ⟨by decide, List.all_eq_true.mp (by decide)⟩
  have zero : IsNumberText (bytesOf "0") :=
    ⟨by decide, List.all_eq_true.mp (by decide)⟩
  have finite : ∀ significand scale : ℕ, IsNumberText
      (if significand = 0 then (if 2 ^ 63 ≤ bits.toNat then [45] else []) ++ bytesOf "0"
      else if 1075 ≤ scale then (if 2 ^ 63 ≤ bits.toNat then [45] else []) ++
        formatQuotient (significand * 2 ^ (scale - 1075)) 1
      else (if 2 ^ 63 ≤ bits.toNat then [45] else []) ++
        formatQuotient significand (2 ^ (1075 - scale))) := by
    intro significand scale
    by_cases none : significand = 0
    · rw [if_pos none]
      exact signed zero
    by_cases large : 1075 ≤ scale
    · rw [if_neg none, if_pos large]
      exact signed (isNumberText_formatQuotient _ _)
    · rw [if_neg none, if_neg large]
      exact signed (isNumberText_formatQuotient _ _)
  rw [formatDouble]
  by_cases special : bits.toNat / 2 ^ 52 % 2 ^ 11 = 2047
  · rw [if_pos special]
    refine signed ?_
    by_cases infinite : bits.toNat % 2 ^ 52 = 0
    · rw [if_pos infinite]
      exact inf
    · rw [if_neg infinite]
      exact nan
  · rw [if_neg special]
    exact finite _ _

/-! ### Integers back -/

theorem digitValue_of_isDigit {c : Char} (digit : c.isDigit = true) :
    digitValue c.toUInt8 = c.toNat - 48 := by
  simp only [Char.isDigit, Bool.and_eq_true, decide_eq_true_eq] at digit
  obtain ⟨low, high⟩ := digit
  have low' : 48 ≤ c.toNat := low
  have high' : c.toNat ≤ 57 := high
  have value : c.toUInt8.toNat = c.toNat := by
    show c.toNat % 256 = c.toNat
    exact Nat.mod_eq_of_lt (by omega)
  have byte : isDigitByte c.toUInt8 = true := by
    simp only [isDigitByte, Bool.and_eq_true, decide_eq_true_eq, UInt8.le_iff_toNat_le, value]
    exact ⟨low', high'⟩
  rw [digitValue, if_pos byte, value]

/-- The digits of a number are the number. -/
theorem digitsValue_decimal (n : ℕ) : digitsValue 10 (decimal n) = n := by
  have same : ∀ (digits : List Char) (start : ℕ), (∀ c ∈ digits, c.isDigit = true) →
      (digits.map Char.toUInt8).foldl (fun n c => n * 10 + digitValue c) start =
        Nat.ofDigitChars 10 digits start := by
    intro digits
    induction digits with
    | nil => exact fun start _ => rfl
    | cons c digits ih =>
      intro start all
      rw [List.map_cons, List.foldl_cons, Nat.ofDigitChars_cons, ih _ fun d member =>
        all d (List.mem_cons_of_mem _ member), digitValue_of_isDigit (all c List.mem_cons_self),
        Nat.mul_comm]
      rfl
  rw [digitsValue, decimal, same _ _ fun c member =>
    Nat.isDigit_of_mem_toDigits (by decide) (by decide) member]
  exact Nat.ofDigitChars_ten_toDigits

/-- A number without a point and without an exponent. -/
def readInteger (text : Bytes) : Option Int :=
  let sign := scanSign text
  let digits := text.drop sign.2
  if digits ≠ [] ∧ digits.all isDigitByte then
    some (if sign.1 then -(digitsValue 10 digits : Int) else digitsValue 10 digits)
  else none

theorem readInteger_intText (v : Int) : readInteger (intText v) = some v := by
  have digits : decimal v.natAbs ≠ [] ∧ (decimal v.natAbs).all isDigitByte = true :=
    ⟨decimal_ne_nil _, List.all_eq_true.mpr (allDigits_decimal _)⟩
  rw [intText]
  by_cases negative : v < 0
  · rw [if_pos negative]
    show (if decimal v.natAbs ≠ [] ∧ (decimal v.natAbs).all isDigitByte = true then
      some (-(digitsValue 10 (decimal v.natAbs) : Int)) else none) = some v
    rw [if_pos digits, digitsValue_decimal]
    congr 1
    omega
  · have sign : scanSign (decimal v.natAbs) = (false, 0) := by
      have front : scanSign (decimal v.natAbs ++ []) = (false, 0) :=
        scanSign_digits (allDigits_decimal v.natAbs) digits.1
      rwa [List.append_nil] at front
    rw [if_neg negative, readInteger, sign]
    simp only [List.drop_zero, Bool.false_eq_true, if_false]
    rw [if_pos digits, digitsValue_decimal]
    congr 1
    omega

/-! ### Statements back -/

theorem comma_ne_parenthesis : (44 : UInt8) ≠ 41 := by decide

def sqlMarks : Marks UInt8 := ⟨44, 40, 41, comma_ne_parenthesis⟩

/-- A text behind a word it starts with. -/
def stripWord (word text : Bytes) : Option Bytes :=
  if text.take word.length = word then some (text.drop word.length) else none

/-- `[A-Za-z_][A-Za-z0-9_]*`. -/
structure IsSqlName (name : Bytes) : Prop where
  first : ∃ c, name.head? = some c ∧ isDigitByte c = false
  word : ∀ c ∈ name, isWordByte c = true

/-- **The reader of an INSERT statement**: the name of the table, and the rows of tokens. -/
def parseInsert (text : Bytes) : Option (Bytes × List (List Bytes)) :=
  match stripWord (bytesOf "INSERT INTO ") text with
  | none => none
  | some rest =>
    let name := rest.takeWhile isWordByte
    if (name.head?.map isDigitByte).getD true then none
    else
      match stripWord (bytesOf " VALUES ") (rest.drop name.length) with
      | none => none
      | some rows => (parse sqlMarks rows).map fun tuples => (name, tuples)

theorem stripWord_append (word rest : Bytes) : stripWord word (word ++ rest) = some rest := by
  rw [stripWord, List.take_left, if_pos rfl, List.drop_left]

theorem parseInsert_render {name : Bytes} (sqlName : IsSqlName name) {tuples : List (List Bytes)}
    (some_tuple : tuples ≠ [])
    (clean : ∀ tokens ∈ tuples, tokens ≠ [] ∧ ∀ token ∈ tokens, IsToken sqlMarks token) :
    parseInsert (bytesOf "INSERT INTO " ++ name ++ bytesOf " VALUES " ++ render sqlMarks tuples) =
      some (name, tuples) := by
  obtain ⟨c, head, other⟩ := sqlName.first
  have word : (name ++ (bytesOf " VALUES " ++ render sqlMarks tuples)).takeWhile isWordByte =
      name := by
    refine takeWhile_append_stop sqlName.word fun c blank => ?_
    cases blank
    decide
  rw [List.append_assoc, List.append_assoc, parseInsert, stripWord_append]
  simp only [word, head, Option.map_some, Option.getD_some, other, Bool.false_eq_true, if_false,
    List.drop_left, stripWord_append, parse_render some_tuple clean]

/-! ### The rows of a batch -/

/-- The tokens of a row. -/
def rowTokens (dev : Device) (batch : RowBatch) (i : ℕ) : List Bytes :=
  intText (batch.ts.getD i 0) ::
    List.zipWith sqlCell dev.columns (batch.cells.drop (i * dev.columns.length))

theorem IsNumberText.isToken {text : Bytes} (number : IsNumberText text) : IsToken sqlMarks text := by
  refine ⟨number.some_byte, fun comma => ?_, fun opening => ?_, fun closing => ?_⟩
  · exact absurd (number.bytes _ comma) (by decide)
  · exact absurd (number.bytes _ opening) (by decide)
  · exact absurd (number.bytes _ closing) (by decide)

theorem isToken_sqlCell (f : Column) (c : Cell) : IsToken sqlMarks (sqlCell f c) := by
  rw [sqlCell]
  split
  · decide
  split
  · exact (isNumberText_formatDouble _).isToken
  split
  · split
    · decide
    · decide
  · exact (isNumberText_intText _).isToken

theorem isToken_rowTokens (dev : Device) (batch : RowBatch) (i : ℕ) :
    ∀ token ∈ rowTokens dev batch i, IsToken sqlMarks token := by
  intro token member
  rcases List.mem_cons.mp member with rfl | cell
  · exact (isNumberText_intText _).isToken
  · rw [List.mem_iff_getElem?] at cell
    obtain ⟨k, found⟩ := cell
    rw [List.getElem?_zipWith_eq_some] at found
    obtain ⟨f, c, _, _, rfl⟩ := found
    exact isToken_sqlCell f c

/-- The cells of a row are the tokens behind the first, each behind a comma. -/
theorem sqlCells_eq {columns : List Column} {cells : List Cell}
    (enough : columns.length ≤ cells.length) :
    sqlCells columns cells =
      (List.zipWith sqlCell columns cells).flatMap fun token => [44] ++ token := by
  induction columns generalizing cells with
  | nil => rfl
  | cons f columns ih =>
    cases cells with
    | nil => exact absurd enough (Nat.not_succ_le_zero _)
    | cons c cells =>
      rw [sqlCells, List.headD_cons, List.tail_cons, ih (Nat.le_of_succ_le_succ enough),
        List.zipWith_cons_cons, List.flatMap_cons]
      rfl

section Rows

variable {dev : Device} {batch : RowBatch}
  (whole : batch.cells.length = batch.ts.length * dev.columns.length)

include whole

theorem row_enough {i : ℕ} (inside : i < batch.ts.length) :
    dev.columns.length ≤ (batch.cells.drop (i * dev.columns.length)).length := by
  have next : (i + 1) * dev.columns.length ≤ batch.ts.length * dev.columns.length :=
    Nat.mul_le_mul_right _ inside
  rw [Nat.succ_mul] at next
  rw [List.length_drop, whole]
  omega

theorem sqlRow_eq {i : ℕ} (inside : i < batch.ts.length) :
    sqlRow dev batch i = renderTuple sqlMarks (rowTokens dev batch i) := by
  rw [sqlRow, renderTuple, rowTokens, sqlCells_eq (row_enough whole inside)]
  show _ = 40 :: [44].intercalate _ ++ [41]
  rw [intercalate_cons_flatMap, List.cons_append]

/-- The rows of a statement, with a comma in front of every row but the first. -/
theorem flatMap_sqlRow {done n : ℕ} (inside : done + n ≤ batch.ts.length) :
    ((List.range n).flatMap fun r => (if r ≠ 0 then [44] else []) ++ sqlRow dev batch (done + r)) =
      render sqlMarks ((List.range n).map fun r => rowTokens dev batch (done + r)) := by
  show _ = [44].intercalate _
  cases n with
  | zero => rfl
  | succ n =>
    have row : ∀ r < n + 1, sqlRow dev batch (done + r) =
        renderTuple sqlMarks (rowTokens dev batch (done + r)) :=
      fun r fits => sqlRow_eq whole (by omega)
    rw [List.range_succ_eq_map, List.flatMap_cons, List.map_cons, List.map_cons, List.map_map,
      List.map_map, intercalate_cons_flatMap, row 0 (Nat.succ_pos n), List.flatMap_map,
      List.flatMap_map]
    congr 1
    refine List.flatMap_congr fun r member => ?_
    rw [row (r + 1) (Nat.succ_lt_succ (List.mem_range.mp member)), if_pos (Nat.succ_ne_zero r)]
    rfl

/-- **A statement is read as its name and its rows.** -/
theorem parseInsert_sqlStatement (sqlName : IsSqlName dev.deviceId) {done n : ℕ} (some_row : 0 < n)
    (inside : done + n ≤ batch.ts.length) :
    parseInsert (sqlStatement dev batch done n) =
      some (dev.deviceId, (List.range n).map fun r => rowTokens dev batch (done + r)) := by
  rw [sqlStatement, flatMap_sqlRow whole inside]
  refine parseInsert_render sqlName ?_ fun tokens member => ?_
  · rw [ne_eq, List.map_eq_nil_iff, List.range_eq_nil]
    exact Nat.ne_of_gt some_row
  · obtain ⟨r, _, rfl⟩ := List.mem_map.mp member
    exact ⟨List.cons_ne_nil _ _, isToken_rowTokens dev batch _⟩

end Rows

/-! ### Values -/

/-- A value of a statement. -/
inductive SqlValue where
  | null
  | integer (v : Int)
  | real (text : Bytes)
deriving DecidableEq, Repr

/-- A token, for a column: a floating-point column takes any number, every other one an integer. -/
def readToken (f : Column) (token : Bytes) : Option SqlValue :=
  if token = bytesOf "NULL" then some .null
  else if f.asDouble then some (.real token)
  else (readInteger token).map .integer

/-- **The value of a cell**, by its column. -/
def cellValue (f : Column) (c : Cell) : SqlValue :=
  if c.isNull then .null
  else if f.asDouble then .real (formatDouble c.v)
  else if f.kind = .bool then .integer (if c.v ≠ 0 then 1 else 0)
  else .integer c.v.toInt

theorem IsNumberText.ne_null {text : Bytes} (number : IsNumberText text) :
    text ≠ bytesOf "NULL" := by
  rintro rfl
  exact absurd (number.bytes 78 (by decide)) (by decide)

/-- **A cell's token is read as its value.** -/
theorem readToken_sqlCell (f : Column) (c : Cell) :
    readToken f (sqlCell f c) = some (cellValue f c) := by
  rw [sqlCell, cellValue]
  by_cases null : c.isNull = true
  · rw [if_pos null, if_pos null, readToken, if_pos rfl]
  rw [if_neg null, if_neg null]
  by_cases double : f.asDouble = true
  · rw [if_pos double, if_pos double, readToken,
      if_neg (isNumberText_formatDouble c.v).ne_null, if_pos double]
  rw [if_neg double, if_neg double]
  by_cases bool : f.kind = .bool
  · rw [if_pos bool, if_pos bool]
    by_cases set : c.v ≠ 0
    · rw [if_pos set, if_pos set, readToken, if_neg (by decide), if_neg double]
      rfl
    · rw [if_neg set, if_neg set, readToken, if_neg (by decide), if_neg double]
      rfl
  · rw [if_neg bool, if_neg bool, readToken, if_neg (isNumberText_intText _).ne_null,
      if_neg double, readInteger_intText]
    rfl

/-- **A row of tokens is row `i` of a batch.** -/
structure ReadsRow (dev : Device) (batch : RowBatch) (i : ℕ) (tokens : List Bytes) : Prop where
  count : tokens.length = 1 + dev.columns.length
  stamp : ∃ t token, batch.ts[i]? = some t ∧ tokens[0]? = some token ∧ readInteger token = some t
  cell : ∀ (k : ℕ) f, dev.columns[k]? = some f →
    ∃ c token, batch.cells[i * dev.columns.length + k]? = some c ∧ tokens[k + 1]? = some token ∧
      readToken f token = some (cellValue f c)

theorem readsRow_rowTokens {dev : Device} {batch : RowBatch}
    (whole : batch.cells.length = batch.ts.length * dev.columns.length) {i : ℕ}
    (inside : i < batch.ts.length) : ReadsRow dev batch i (rowTokens dev batch i) where
  count := by
    have enough := row_enough whole inside
    rw [rowTokens, List.length_cons, List.length_zipWith, Nat.min_eq_left enough, Nat.add_comm]
  stamp := by
    have stamp : batch.ts[i]? = some (batch.ts.getD i 0) := by
      rw [List.getD_eq_getElem?_getD, List.getElem?_eq_getElem inside, Option.getD_some]
    exact ⟨_, _, stamp, rfl, readInteger_intText _⟩
  cell := by
    intro k f column
    have within : k < dev.columns.length := (List.getElem?_eq_some_iff.mp column).1
    have place : k < (batch.cells.drop (i * dev.columns.length)).length :=
      Nat.lt_of_lt_of_le within (row_enough whole inside)
    obtain ⟨c, found⟩ : ∃ c, (batch.cells.drop (i * dev.columns.length))[k]? = some c :=
      ⟨_, List.getElem?_eq_getElem place⟩
    have token : (rowTokens dev batch i)[k + 1]? = some (sqlCell f c) := by
      rw [rowTokens, List.getElem?_cons_succ, List.getElem?_zipWith_eq_some]
      exact ⟨f, c, column, found, rfl⟩
    rw [List.getElem?_drop] at found
    exact ⟨c, _, found, token, readToken_sqlCell f c⟩

/-! ### Batches -/

theorem isSqlName_map_wordByte {raw : Bytes} (given : raw ≠ []) :
    IsSqlName ((padName raw).map wordByte) := by
  have word : ∀ c, isWordByte (wordByte c) = true := by
    intro c
    rw [wordByte]
    split
    · assumption
    · decide
  refine ⟨?_, fun c member => ?_⟩
  · cases raw with
    | nil => exact absurd rfl given
    | cons first rest =>
      rw [padName]
      by_cases digit : isDigitByte first = true
      · rw [if_pos digit]
        exact ⟨_, rfl, by decide⟩
      · rw [if_neg digit]
        exact ⟨_, rfl, by rw [isDigitByte_wordByte, Bool.eq_false_iff]; exact digit⟩
  · obtain ⟨raw, _, rfl⟩ := List.mem_map.mp member
    exact word raw

/-- **The name of a loaded device is an identifier**, whatever its configured id. -/
theorem isSqlName_deviceId {tables : Tables} {sorter : Sorter ℕ} {dev : Device}
    (loaded : dev ∈ (tables.loadAll sorter).devices) : IsSqlName dev.deviceId := by
  have listed : dev.deviceId ∈ (tables.loadAll sorter).devices.map Device.deviceId :=
    List.mem_map.mpr ⟨dev, loaded, rfl⟩
  rw [map_loadAll Device.deviceId (fun _ => rfl), deviceIds_devicesLoaded] at listed
  obtain ⟨raw, member, same⟩ := List.mem_map.mp listed
  obtain ⟨row, kept, rfl⟩ := List.mem_map.mp member
  have given : row.deviceId ≠ [] := (of_decide_eq_true (List.mem_filter.mp kept).2).1
  rw [← same]
  exact isSqlName_map_wordByte given

theorem deviceAt_mem {devices : List Device} {i : ℕ} (present : i < devices.length) :
    deviceAt devices i ∈ devices := by
  rw [deviceAt, List.getD_eq_getElem?_getD, List.getElem?_eq_getElem present, Option.getD_some]
  exact List.getElem_mem present

/-- The statement of a range of rows. -/
def insertOf (dev : Device) (batch : RowBatch) (range : ℕ × ℕ) : SqlInsert :=
  ⟨range.1, range.2, sqlStatement dev batch range.1 range.2⟩

/-- **The statements take their rows in order**, whatever the client answers. -/
theorem sqlLoop_eq (fails : Bytes → Bool) (dev : Device) (batch : RowBatch) (fuel : ℕ) {done : ℕ}
    (stats : WriterStats) (enough : batch.counted ≤ done + fuel) :
    (sqlLoop fails dev batch fuel done stats).1 =
      (rowRanges kMaxRowsPerStmt batch.counted done).map (insertOf dev batch) := by
  have positive : 0 < kMaxRowsPerStmt := by decide
  induction fuel generalizing done stats with
  | zero =>
    rw [Nat.add_zero] at enough
    rw [rowRanges_of_le positive enough]
    rfl
  | succ fuel ih =>
    rw [sqlLoop]
    simp only [RowBatch.lt_rowCount_iff, RowBatch.toNat_rowCount_sub]
    by_cases more : done < batch.counted
    · rw [if_pos more, rowRanges_of_lt positive more, List.map_cons]
      simp only
      rw [ih _ (by omega)]
      rfl
    · rw [if_neg more, rowRanges_of_le positive (Nat.le_of_not_lt more)]
      rfl

theorem writeBatchSql_eq (writer : EtherDBWriter) {dev : Device} (fields : dev.columns ≠ [])
    (fails : Bytes → Bool) (batch : RowBatch) :
    (writer.writeBatchSql dev fails batch).1 =
      (rowRanges kMaxRowsPerStmt batch.counted 0).map (insertOf dev batch) := by
  have some_field : dev.columns.length ≠ 0 := mt List.length_eq_zero_iff.mp fields
  rw [EtherDBWriter.writeBatchSql]
  by_cases empty : batch.rowCount = 0
  · have none : batch.counted = 0 := by rw [RowBatch.counted, empty]; rfl
    rw [if_pos (Or.inr empty), none]
    rfl
  · rw [if_neg (not_or.mpr ⟨some_field, empty⟩)]
    exact sqlLoop_eq fails dev batch _ writer.stats (Nat.le_add_left _ 0)

section Http

variable {db : Config} {batch : RowBatch} {ptr : DevicePtr} (own : batch.dev = some ptr)
  (http : (deviceAt db.devices ptr.addr).connProto = connHttp)

include own http

theorem writeHttpBatch_eq (writer : EtherDBWriter) (fails : Bytes → Bool) :
    writer.writeHttpBatch db fails batch =
      writer.writeBatchSql (deviceAt db.devices ptr.addr) fails batch := by
  rw [EtherDBWriter.writeHttpBatch, own]
  exact if_pos http

end Http

/-- **The statements of a batch read back as the batch**: they take its rows in order, at most 200
each, and each of them is an INSERT into a proper name whose tokens are its rows. -/
structure ReadsBack (dev : Device) (batch : RowBatch) (inserts : List SqlInsert) : Prop where
  cuts : CutsRows 200 batch.ts.length (inserts.map fun s => (s.done, s.rows))
  name : IsSqlName dev.deviceId
  rows : ∀ s ∈ inserts, ∃ rows, parseInsert s.sql = some (dev.deviceId, rows) ∧
    rows.length = s.rows ∧
    ∀ r tokens, rows[r]? = some tokens → ReadsRow dev batch (s.done + r) tokens

section Batch

variable {db : Config} (writer : EtherDBWriter) (fails : Bytes → Bool) {batch : RowBatch}
  {ptr : DevicePtr} (own : batch.dev = some ptr)
  (http : (deviceAt db.devices ptr.addr).connProto = connHttp)
  (fields : (deviceAt db.devices ptr.addr).columns ≠ [])

include own http fields

/-- The statements of a batch take the rows that are counted. -/
theorem cutsRows_counted :
    CutsRows 200 batch.counted
      ((writer.writeHttpBatch db fails batch).1.map fun s => (s.done, s.rows)) := by
  rw [writeHttpBatch_eq own http, writeBatchSql_eq writer fields, List.map_map]
  show CutsRows 200 _ ((rowRanges 200 _ 0).map id)
  rw [List.map_id]
  exact cutsRows_rowRanges (by decide) _

/-- Each of them is read as its rows. -/
theorem parseInsert_writeHttpBatch (name : IsSqlName (deviceAt db.devices ptr.addr).deviceId)
    (whole : batch.cells.length =
      batch.ts.length * (deviceAt db.devices ptr.addr).columns.length) :
    ∀ s ∈ (writer.writeHttpBatch db fails batch).1,
      ∃ rows, parseInsert s.sql = some ((deviceAt db.devices ptr.addr).deviceId, rows) ∧
        rows.length = s.rows ∧ ∀ r tokens, rows[r]? = some tokens →
          ReadsRow (deviceAt db.devices ptr.addr) batch (s.done + r) tokens := by
  intro s member
  rw [writeHttpBatch_eq own http, writeBatchSql_eq writer fields] at member
  obtain ⟨range, cut, rfl⟩ := List.mem_map.mp member
  obtain ⟨counted, some_row, _⟩ := mem_rowRanges (by decide) cut
  have inside := counted.trans batch.counted_le
  refine ⟨_, parseInsert_sqlStatement whole name some_row inside, ?_, fun r tokens found => ?_⟩
  · rw [List.length_map, List.length_range]
    rfl
  · rw [List.getElem?_map, Option.map_eq_some_iff] at found
    obtain ⟨r', there, rfl⟩ := found
    obtain ⟨below, rfl⟩ := List.getElem?_eq_some_iff.mp there
    rw [List.getElem_range]
    rw [List.length_range] at below
    exact readsRow_rowTokens whole (Nat.lt_of_lt_of_le (Nat.add_lt_add_left below _) inside)

/-- A batch that is read back has been counted in full. -/
theorem counted_of_readsBack
    (back : ReadsBack (deviceAt db.devices ptr.addr) batch
      (writer.writeHttpBatch db fails batch).1) : batch.counted = batch.ts.length :=
  (cutsRows_counted writer fails own http fields).unique back.cuts

end Batch

/-- **The statements of a batch read back as the batch exactly if it has less than `2 ^ 31` rows.** -/
theorem writeHttpBatch_reads_back (tables : Tables) (sorter : Sorter ℕ) (writer : EtherDBWriter)
    (fails : Bytes → Bool) {batch : RowBatch} {ptr : DevicePtr} (own : batch.dev = some ptr)
    (present : ptr.addr < (tables.loadAll sorter).devices.length)
    (http : (deviceAt (tables.loadAll sorter).devices ptr.addr).connProto = connHttp)
    (fields : (deviceAt (tables.loadAll sorter).devices ptr.addr).columns ≠ [])
    (whole : batch.cells.length =
      batch.ts.length * (deviceAt (tables.loadAll sorter).devices ptr.addr).columns.length) :
    ReadsBack (deviceAt (tables.loadAll sorter).devices ptr.addr) batch
        (writer.writeHttpBatch (tables.loadAll sorter) fails batch).1 ↔
      batch.ts.length < 2 ^ 31 := by
  have name := isSqlName_deviceId (deviceAt_mem present)
  constructor
  · intro back
    exact RowBatch.counted_eq_iff.mp (counted_of_readsBack writer fails own http fields back)
  · intro small
    have cuts := cutsRows_counted writer fails own http fields
    rw [RowBatch.counted_eq_iff.mpr small] at cuts
    exact ⟨cuts, name, parseInsert_writeHttpBatch writer fails own http fields name whole⟩

/-- An http device with a flag, a counter and a temperature; its id is no identifier. -/
def boilerTables : Tables where
  fields :=
    [{ dataProtoId := 1, fieldName := bytesOf "on", fieldType := 0 },
     { dataProtoId := 1, fieldName := bytesOf "count", fieldType := 9 },
     { dataProtoId := 1, fieldName := bytesOf "temp", fieldType := 4 }]
  devices :=
    [{ deviceId := bytesOf "9 boiler);", deviceIp := "10.0.0.1".toList
       connProto := "http(3)".toList, localServerPort := 8080, dataProtoId := 1 }]

def boilerDb : Config := boilerTables.loadAll (Sorter.insertion ℕ)

/-- Two rows: on, -7, 21.5 and then a counter only. -/
def boilerBatch : RowBatch where
  dev := some (boilerDb.devicePtr 0)
  ts := [1700000000000, 1700000000500]
  cells := [⟨1, false⟩, ⟨-7, false⟩, ⟨0x4035800000000000, false⟩, ⟨0, true⟩, ⟨12, false⟩, ⟨0, true⟩]

theorem writeHttpBatch_reads_back_boiler :
    ((({} : EtherDBWriter).writeHttpBatch boilerDb (fun _ => false) boilerBatch).1.map
        SqlInsert.sql = [bytesOf
          "INSERT INTO _9_boiler__ VALUES (1700000000000,1,-7,21.5),(1700000000500,NULL,12,NULL)"]) ∧
      ReadsBack (deviceAt boilerDb.devices 0) boilerBatch
        (({} : EtherDBWriter).writeHttpBatch boilerDb (fun _ => false) boilerBatch).1 := by
  have own : boilerBatch.dev = some (boilerDb.devicePtr 0) := rfl
  have small : boilerBatch.ts.length < 2 ^ 31 := by decide
  exact ⟨by decide +kernel,
    (writeHttpBatch_reads_back boilerTables (Sorter.insertion ℕ) {} (fun _ => false) own
      (by decide) (by decide) (by decide) (by decide)).mpr small⟩

/-- As many rows of the boiler as it takes, without a value. -/
def nullRows (n : ℕ) : RowBatch :=
  ⟨some (boilerDb.devicePtr 0), List.replicate n 0, List.replicate (n * 3) ⟨0, true⟩⟩

/-- **A batch of `2 ^ 31` rows does not read back**: its row count is negative. -/
theorem not_readsBack_nullRows :
    (nullRows (2 ^ 31)).cells.length =
        (nullRows (2 ^ 31)).ts.length * (deviceAt boilerDb.devices 0).columns.length ∧
      ¬ ReadsBack (deviceAt boilerDb.devices 0) (nullRows (2 ^ 31))
        (({} : EtherDBWriter).writeHttpBatch boilerDb (fun _ => false) (nullRows (2 ^ 31))).1 := by
  have rows : (nullRows (2 ^ 31)).ts.length = 2 ^ 31 := List.length_replicate
  have columns : (deviceAt boilerDb.devices 0).columns.length = 3 := by decide
  constructor
  · rw [rows, columns]
    exact List.length_replicate
  · intro back
    have own : (nullRows (2 ^ 31)).dev = some (boilerDb.devicePtr 0) := rfl
    have all := counted_of_readsBack {} (fun _ => false) own
      (show (deviceAt boilerDb.devices 0).connProto = connHttp by decide)
      (show (deviceAt boilerDb.devices 0).columns ≠ [] by decide) back
    have small := RowBatch.counted_eq_iff.mp all
    rw [rows] at small
    exact Nat.lt_irrefl _ small

end EtherAdapter
