/-
**Importing configuration CSVs** (`tools/csv2sqlite.cpp`, POSIX branch).

Texts are byte strings. The three import functions differ in their table only: `importTable` is the
loop they share, `ConfigTable` holds what each of them fills in. Texts of errors and the printed
counts are left out, but for the counts themselves.

SQLite is documented behaviour. What the import relies on is written out: a quoted literal is its
unescaped text; a bare number in a `TEXT` column becomes the text of its value; `INSERT OR REPLACE`
puts the row under its primary key, whatever is there. What it does not rely on is a parameter
(`Sqlite`): the text of a real number, the values of columns that are not `TEXT`, the column
constraints. A statement that is refused changes nothing.

* **`csv2sqlite_eq`** — the import puts the rows of the three files, up to the first refused one.
-/

import EtherAdapter.Upserts.Basic
import EtherAdapter.Model.Sql

namespace EtherAdapter

open Upserts

/-! ### Lines and cells -/

/-- The bytes `trim` takes off. -/
def isTrimByte (c : UInt8) : Bool := c == 32 || c == 9 || c == 13 || c == 10

def trim (s : Bytes) : Bytes :=
  ((s.dropWhile isTrimByte).reverse.dropWhile isTrimByte).reverse

/-- The scanner of `splitCsvLine`, inside or outside quotes, with the cell it has read so far. -/
def splitCells : Bool → Bytes → Bytes → List Bytes
  | _, cur, [] => [cur]
  | true, cur, 34 :: 34 :: line => splitCells true (cur ++ [34]) line
  | true, cur, 34 :: line => splitCells false cur line
  | true, cur, c :: line => splitCells true (cur ++ [c]) line
  | false, cur, 34 :: line => splitCells true cur line
  | false, cur, 44 :: line => cur :: splitCells false [] line
  | false, cur, c :: line => splitCells false (cur ++ [c]) line

def splitCsvLine (line : Bytes) : List Bytes := (splitCells false [] line).map trim

/-- Lines end at a newline; the last one may lack it. -/
def splitLines : Bytes → Bytes → List Bytes
  | cur, [] => if cur = [] then [] else [cur]
  | cur, c :: rest => if c = 10 then cur :: splitLines [] rest else splitLines (cur ++ [c]) rest

/-- `readLines`, on the content of the file: a UTF-8 byte order mark is stripped. -/
def readLines (all : Bytes) : List Bytes :=
  splitLines [] (if all.take 3 = [0xEF, 0xBB, 0xBF] then all.drop 3 else all)

/-! ### Literals -/

/-- Digits with at most one point among them. -/
def isNumericTail : Bool → Bytes → Bool
  | _, [] => true
  | dot, c :: rest =>
    if c = 46 then !dot && isNumericTail true rest else isDigitByte c && isNumericTail dot rest

def isNumeric (s : Bytes) : Bool :=
  let rest := s.drop (scanSign s).2
  rest ≠ [] && isNumericTail false rest

def sqlQuote (s : Bytes) : Bytes :=
  39 :: s.flatMap (fun c => if c = 39 then [39, 39] else [c]) ++ [39]

/-- NULL when empty, a bare number when numeric, quoted text otherwise. -/
def colValue (s : Bytes) : Bytes :=
  if s = [] then bytesOf "NULL" else if isNumeric s then s else sqlQuote s

/-- `strtoll` with base 0, which saturates; `none` unless it ends at the end of the C string. A C
string ends at a NUL, and an empty one is 0. -/
def strtollWhole (s : Bytes) : Option Int :=
  let text := (s.takeWhile (· ≠ 0)).dropWhile isSpaceByte
  let digits := text.drop (scanSign text).2
  let (base, digits) :=
    match digits with
    | 48 :: x :: rest =>
      if lowerByte x = 120 ∧ (rest.head?.map isHexByte).getD false then (16, rest)
      else (8, 48 :: x :: rest)
    | 48 :: rest => (8, 48 :: rest)
    | _ => (10, digits)
  let isDigit (c : UInt8) : Bool := isHexByte c && digitValue c < base
  if s.takeWhile (· ≠ 0) = [] then some 0
  else if digits ≠ [] ∧ digits.all isDigit then
    let size : Int := digitsValue base digits
    some (if (scanSign text).1 then max (-2 ^ 63) (-size) else min (2 ^ 63 - 1) size)
  else none

def integerValue (s : Bytes) : Bytes :=
  if s = [] then bytesOf "NULL"
  else if isNumeric s then s
  else ((strtollWhole s).map intText).getD (bytesOf "NULL")

/-! ### The schema -/

inductive ConfigTable where
  | deviceTable
  | dataHeaderTable
  | dataProtoTable
deriving DecidableEq, Repr

inductive Affinity where
  | text
  | integer
  | real
deriving DecidableEq, Repr

/-- `colValue` or `integerValue`. -/
inductive CellRule where
  | column
  | integer
deriving DecidableEq, Repr

def CellRule.literal : CellRule → Bytes → Bytes
  | .column => colValue
  | .integer => integerValue

namespace ConfigTable

/-- The columns in the order of `kSchema`, which is also the order of the statements: what a column
holds, and how its cell is written. The first one is the primary key. -/
def columns : ConfigTable → List (Affinity × CellRule)
  | .deviceTable =>
    [(.text, .column), (.text, .column), (.text, .column), (.integer, .integer), (.text, .column),
      (.integer, .integer), (.integer, .integer), (.text, .column), (.integer, .integer)]
  | .dataHeaderTable =>
    [(.integer, .integer), (.integer, .integer), (.integer, .integer), (.text, .column),
      (.text, .column), (.integer, .integer), (.integer, .integer), (.integer, .integer),
      (.integer, .integer), (.integer, .integer)]
  | .dataProtoTable =>
    [(.integer, .integer), (.integer, .integer), (.text, .column), (.text, .column),
      (.integer, .integer), (.integer, .integer), (.integer, .integer), (.integer, .integer),
      (.integer, .integer), (.real, .column)]

/-- A line with fewer cells is passed over. -/
def minCells : ConfigTable → ℕ
  | .deviceTable => 7
  | .dataHeaderTable => 2
  | .dataProtoTable => 3

/-- The header row and annotation rows, by their first cell. -/
def isSkipped : ConfigTable → Bytes → Bool
  | .deviceTable, did => did = [] ∨ did = bytesOf "device_id"
  | .dataHeaderTable, first => !isNumeric first
  | .dataProtoTable, first => !isNumeric first

/-- The literals of a statement; a missing cell is an empty one. -/
def values (table : ConfigTable) (f : List Bytes) : List Bytes :=
  table.columns.mapIdx fun j column => column.2.literal (f.getD j [])

end ConfigTable

/-! ### SQLite -/

inductive DbValue where
  | null
  | integer (v : Int)
  | real (bits : BitVec 64)
  | text (t : Bytes)
deriving DecidableEq, Repr

/-- What the import does not depend on. -/
structure Sqlite where
  /-- The text of the real number a literal denotes. -/
  realText : Bytes → Bytes
  /-- What a column of another affinity holds for a literal. -/
  numberValue : Affinity → Bytes → Option DbValue
  /-- The constraints of a table. -/
  admits : ConfigTable → List DbValue → Bool

/-- A quoted literal behind its first quote, unescaped. -/
def unquote : Bytes → Option Bytes
  | [] => none
  | [39] => some []
  | 39 :: 39 :: rest => (unquote rest).map (39 :: ·)
  | 39 :: _ => none
  | c :: rest => (unquote rest).map (c :: ·)

namespace Sqlite

variable (sqlite : Sqlite)

/-- The text of a bare number: an integer that fits `int64_t` as such, any other number as a real
one. A point alone is no number. -/
def numberText (literal : Bytes) : Option Bytes :=
  let digits := literal.drop (scanSign literal).2
  if digits.any isDigitByte then
    let size := digitsValue 10 digits
    let v : Int := if (scanSign literal).1 then -(size : Int) else size
    some (if 46 ∉ digits ∧ -2 ^ 63 ≤ v ∧ v < 2 ^ 63 then intText v else sqlite.realText literal)
  else none

/-- What a `TEXT` column holds for a literal. -/
def textValue (literal : Bytes) : Option DbValue :=
  if literal = bytesOf "NULL" then some .null
  else
    match literal with
    | 39 :: rest => (unquote rest).map .text
    | _ => (sqlite.numberText literal).map .text

def value : Affinity → Bytes → Option DbValue
  | .text => sqlite.textValue
  | affinity => sqlite.numberValue affinity

/-- The values of a statement, column by column. -/
def rowValues : List (Affinity × CellRule) → List Bytes → Option (List DbValue)
  | column :: columns, literal :: literals =>
    (sqlite.value column.1 literal).bind fun v => (rowValues columns literals).map (v :: ·)
  | [], [] => some []
  | _, _ => none

/-- The row of a statement, under its table and primary key; `none` when it is refused. A NUL ends
the statement's text, and what is left of it is not complete. -/
def row (table : ConfigTable) (literals : List Bytes) :
    Option ((ConfigTable × DbValue) × List DbValue) :=
  if literals.any (·.contains 0) then none
  else
    match sqlite.rowValues table.columns literals with
    | some (key :: rest) =>
      if sqlite.admits table (key :: rest) then some ((table, key), key :: rest) else none
    | _ => none

end Sqlite

/-- The rows of all tables, by table and primary key. -/
abbrev Database := Store (ConfigTable × DbValue) (List DbValue)

/-! ### The import -/

structure ImportStats where
  rows : ℕ := 0
  skipped : ℕ := 0
deriving DecidableEq, Repr

/-- What an import function leaves, and whether it returns true. -/
structure Imported where
  db : Database
  stats : ImportStats
  ok : Bool

/-- The loop of the import functions, from line `i` on. -/
def importLines (sqlite : Sqlite) (table : ConfigTable) :
    ℕ → Database → ImportStats → List Bytes → Imported
  | _, db, stats, [] => ⟨db, stats, true⟩
  | i, db, stats, line :: lines =>
    let f := splitCsvLine line
    if f.length < table.minCells then importLines sqlite table (i + 1) db stats lines
    else if table.isSkipped (f.getD 0 []) then
      importLines sqlite table (i + 1) db
        { stats with skipped := if 0 < i then stats.skipped + 1 else stats.skipped } lines
    else
      match sqlite.row table (table.values f) with
      | none => ⟨db, stats, false⟩
      | some row =>
        importLines sqlite table (i + 1) (put db row) { stats with rows := stats.rows + 1 } lines

/-- An import; `none` is a file that cannot be opened. -/
def importTable (sqlite : Sqlite) (table : ConfigTable) (db : Database) : Option Bytes → Imported
  | none => ⟨db, {}, false⟩
  | some csv => importLines sqlite table 0 db {} (readLines csv)

def importDeviceTable (sqlite : Sqlite) : Database → Option Bytes → Imported :=
  importTable sqlite .deviceTable

def importHeaderTable (sqlite : Sqlite) : Database → Option Bytes → Imported :=
  importTable sqlite .dataHeaderTable

def importProtoTable (sqlite : Sqlite) : Database → Option Bytes → Imported :=
  importTable sqlite .dataProtoTable

/-- `main` behind its arguments, on a database with the three tables: what is in it afterwards, and
the exit code. The first import that fails is the last one. -/
def csv2sqlite (sqlite : Sqlite) (force : Bool) (db : Database)
    (files : ConfigTable → Option Bytes) : Database × ℕ :=
  let db : Database := if force then fun _ => none else db
  let devices := importDeviceTable sqlite db (files .deviceTable)
  if devices.ok then
    let headers := importHeaderTable sqlite devices.db (files .dataHeaderTable)
    if headers.ok then
      let protos := importProtoTable sqlite headers.db (files .dataProtoTable)
      (protos.db, if protos.ok then 0 else 3)
    else (headers.db, 3)
  else (devices.db, 3)

/-! ### What an import does -/

/-- The cells of the lines that become statements. -/
def csvCells (table : ConfigTable) (lines : List Bytes) : List (List Bytes) :=
  (lines.map splitCsvLine).filter fun f =>
    table.minCells ≤ f.length && !table.isSkipped (f.getD 0 [])

/-- The row of a line, or that it is refused. -/
def Sqlite.csvRow (sqlite : Sqlite) (entry : ConfigTable × List Bytes) :
    Option ((ConfigTable × DbValue) × List DbValue) :=
  sqlite.row entry.1 (entry.1.values entry.2)

/-- The lines of a file, each with its table. -/
def fileEntries (table : ConfigTable) (csv : Bytes) : List (ConfigTable × List Bytes) :=
  (csvCells table (readLines csv)).map fun f => (table, f)

/-- The loop puts the rows of its lines. -/
theorem importLines_run (sqlite : Sqlite) (table : ConfigTable) (i : ℕ) (db : Database)
    (stats : ImportStats) (lines : List Bytes) :
    ((importLines sqlite table i db stats lines).db,
        (importLines sqlite table i db stats lines).ok) =
      run db (((csvCells table lines).map fun f => (table, f)).map sqlite.csvRow) := by
  induction lines generalizing i db stats with
  | nil => rfl
  | cons line lines ih =>
    rw [importLines, csvCells, List.map_cons, List.filter_cons]
    by_cases short : (splitCsvLine line).length < table.minCells
    · rw [if_pos short, decide_eq_false (Nat.not_le.mpr short), Bool.false_and,
        if_neg Bool.false_ne_true]
      exact ih _ _ _
    · rw [if_neg short, decide_eq_true (Nat.le_of_not_lt short), Bool.true_and]
      cases note : table.isSkipped ((splitCsvLine line).getD 0 []) with
      | true =>
        rw [if_pos rfl, Bool.not_true, if_neg Bool.false_ne_true]
        exact ih _ _ _
      | false =>
        rw [if_neg Bool.false_ne_true, Bool.not_false, if_pos rfl, List.map_cons, List.map_cons,
          Sqlite.csvRow]
        cases sqlite.row table (table.values (splitCsvLine line)) with
        | none => rfl
        | some row => exact ih _ _ _

/-- All lines of the three files, in the order of the import. -/
def entries (csvs : ConfigTable → Bytes) : List (ConfigTable × List Bytes) :=
  fileEntries .deviceTable (csvs .deviceTable) ++
    (fileEntries .dataHeaderTable (csvs .dataHeaderTable) ++
      fileEntries .dataProtoTable (csvs .dataProtoTable))

/-- **Without `--force` the rows of the files are put one after the other, up to the first that is
refused.** -/
theorem csv2sqlite_eq (sqlite : Sqlite) (db : Database) (csvs : ConfigTable → Bytes) :
    (csv2sqlite sqlite false db fun table => some (csvs table)).1 =
      putAll db (accepted ((entries csvs).map sqlite.csvRow)) := by
  have job : ∀ (table : ConfigTable) (db : Database),
      ((importTable sqlite table db (some (csvs table))).db,
          (importTable sqlite table db (some (csvs table))).ok) =
        run db ((fileEntries table (csvs table)).map sqlite.csvRow) :=
    fun table db => importLines_run sqlite table 0 db {} _
  have whole : putAll db (accepted ((entries csvs).map sqlite.csvRow)) =
      (run db ((entries csvs).map sqlite.csvRow)).1 := by rw [run_eq]
  rw [whole, entries, List.map_append, List.map_append, run_append, ← job .deviceTable db]
  unfold csv2sqlite importDeviceTable
  rw [if_neg Bool.false_ne_true]
  simp only
  split
  · rw [run_append, ← job .dataHeaderTable]
    unfold importHeaderTable
    split
    · rw [← job .dataProtoTable]
      rfl
    · rfl
  · rfl

end EtherAdapter
