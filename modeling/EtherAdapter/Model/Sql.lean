/-
**The SQL path of the writer** (`EtherDBWriter.cpp`: `formatDouble`, `writeBatchSql`).

`std::to_string` and the stream output of a `double` follow the C and C++ standards in the classic
locale: with a precision of 10 and no flags a stream prints as `%.10g` does, correctly rounded (to
nearest, ties to even). The client stands behind one function: whether it answers a statement with
an error. Log lines are left out.

* `formatDouble` — ten significant digits, in fixed or in exponent notation, without trailing zeros.
* `writeBatchSql` — one `INSERT` for every 200 rows.
-/

import EtherAdapter.Model.Writer
import EtherAdapter.Model.Numbers

namespace EtherAdapter

/-! ### Numbers as text -/

/-- `std::to_string` of an `int64_t`. -/
def intText (v : Int) : Bytes := if v < 0 then 45 :: decimal v.natAbs else decimal v.natAbs

/-- The digits behind the point, without trailing zeros, and without the point where none are left. -/
def fractionText (digits : Bytes) : Bytes :=
  let kept := (digits.reverse.dropWhile (· == 48)).reverse
  if kept = [] then [] else 46 :: kept

/-- At least two digits. -/
def exponentText (x : ℕ) : Bytes := if x < 10 then 48 :: decimal x else decimal x

/-- `rounded * 10 ^ (x - 9)`, for `rounded` of ten digits. -/
def formatDigits (rounded : ℕ) (x : Int) : Bytes :=
  let digits := decimal rounded
  if 0 ≤ x ∧ x < 10 then digits.take (x.toNat + 1) ++ fractionText (digits.drop (x.toNat + 1))
  else if -4 ≤ x ∧ x < 0 then 48 :: fractionText (List.replicate (-x - 1).toNat 48 ++ digits)
  else digits.take 1 ++ fractionText (digits.drop 1) ++
    101 :: (if x < 0 then 45 else 43) :: exponentText x.natAbs

/-- The `x` with `10 ^ x ≤ num / den < 10 ^ (x + 1)`. -/
def decimalExponent (num den : ℕ) : Int :=
  if den ≤ num then ((decimal (num / den)).length : Int) - 1
  else -((decimal ((den - 1) / num)).length : Int)

/-- A positive quotient, rounded to ten digits. -/
def formatQuotient (num den : ℕ) : Bytes :=
  let x := decimalExponent num den
  let rounded :=
    if x ≤ 9 then divRound (num * 10 ^ (9 - x).toNat) den
    else divRound num (den * 10 ^ (x - 9).toNat)
  -- rounding up may take one more digit
  if rounded = 10 ^ 10 then formatDigits (10 ^ 9) (x + 1) else formatDigits rounded x

/-- `os.precision(10); os << v`. -/
def formatDouble (bits : BitVec 64) : Bytes :=
  let sign : Bytes := if 2 ^ 63 ≤ bits.toNat then [45] else []
  let exponent := bits.toNat / 2 ^ 52 % 2 ^ 11
  let mantissa := bits.toNat % 2 ^ 52
  if exponent = 2047 then sign ++ (if mantissa = 0 then bytesOf "inf" else bytesOf "nan")
  else
    let significand := if exponent = 0 then mantissa else mantissa + 2 ^ 52
    let scale := max exponent 1
    if significand = 0 then sign ++ bytesOf "0"
    else if 1075 ≤ scale then sign ++ formatQuotient (significand * 2 ^ (scale - 1075)) 1
    else sign ++ formatQuotient significand (2 ^ (1075 - scale))

/-! ### Statements -/

def kMaxRowsPerStmt : ℕ := 200

def sqlCell (f : Column) (c : Cell) : Bytes :=
  if c.isNull then bytesOf "NULL"
  else if f.asDouble then formatDouble c.v
  else if f.kind = .bool then (if c.v ≠ 0 then bytesOf "1" else bytesOf "0")
  else intText c.v.toInt

/-- The cells of a row, each behind a comma. -/
def sqlCells : List Column → List Cell → Bytes
  | [], _ => []
  | f :: columns, cells =>
    44 :: sqlCell f (cells.headD ⟨0, false⟩) ++ sqlCells columns cells.tail

/-- Row `i` of a batch, in parentheses. -/
def sqlRow (dev : Device) (batch : RowBatch) (i : ℕ) : Bytes :=
  40 :: intText (batch.ts.getD i 0) ++
    sqlCells dev.columns (batch.cells.drop (i * dev.columns.length)) ++ [41]

/-- The statement of `n` rows, from row `done` on. -/
def sqlStatement (dev : Device) (batch : RowBatch) (done n : ℕ) : Bytes :=
  bytesOf "INSERT INTO " ++ dev.deviceId ++ bytesOf " VALUES " ++
    (List.range n).flatMap fun r =>
      (if r ≠ 0 then [44] else []) ++ sqlRow dev batch (done + r)

/-- One `query`: the rows of the batch it takes, and its text. -/
structure SqlInsert where
  done : ℕ
  rows : ℕ
  sql : Bytes
deriving DecidableEq, Repr

def WriterStats.recordSql (stats : WriterStats) (failed : Bool) (n : ℕ) : WriterStats :=
  if failed then { stats with writeErrors := stats.writeErrors + 1 }
  else
    { stats with
      rowsWritten := stats.rowsWritten + n
      batchesWritten := stats.batchesWritten + 1 }

/-- The `while` loop of `writeBatchSql`, from row `done` on. -/
def sqlLoop (fails : Bytes → Bool) (dev : Device) (batch : RowBatch) :
    ℕ → ℕ → WriterStats → List SqlInsert × WriterStats
  | 0, _, stats => ([], stats)
  | fuel + 1, done, stats =>
    if done < batch.rowCount then
      let n := min (batch.rowCount - done).toNat kMaxRowsPerStmt
      let sql := sqlStatement dev batch done n
      let later := sqlLoop fails dev batch fuel (done + n) (stats.recordSql (fails sql) n)
      (⟨done, n, sql⟩ :: later.1, later.2)
    else ([], stats)

/-- `writeBatchSql`: the statements, and the writer afterwards. Every pass of the loop takes at
least one row. -/
def EtherDBWriter.writeBatchSql (writer : EtherDBWriter) (dev : Device) (fails : Bytes → Bool)
    (batch : RowBatch) : List SqlInsert × EtherDBWriter :=
  if dev.columns.length = 0 ∨ batch.rowCount = 0 then ([], writer)
  else
    let written := sqlLoop fails dev batch batch.counted 0 writer.stats
    (written.1, { writer with stats := written.2 })

/-- The branch of `writeBatch` that http devices take. -/
def EtherDBWriter.writeHttpBatch (writer : EtherDBWriter) (db : Config) (fails : Bytes → Bool)
    (batch : RowBatch) : List SqlInsert × EtherDBWriter :=
  match batch.dev with
  | none => ([], writer)
  | some ptr =>
    let dev := deviceAt db.devices ptr.addr
    if dev.connProto = connHttp then writer.writeBatchSql dev fails batch else ([], writer)

end EtherAdapter
