/-
**What an integer in a POST becomes in the INSERT statement.**

* `JsonInteger` — a JSON number without a fraction and without an exponent.
* `literalValue_sqlCell` — the token of its cell denotes it exactly when the column keeps it: with 53
  significant bits for the integer columns, with ten significant digits for a DOUBLE.
* **`storesAs_iff`** — the same from the POST to the statement.
-/

import EtherAdapter.Config.Matching
import EtherAdapter.Http.Objects
import EtherAdapter.Writer.Literals

namespace EtherAdapter

open Grouping Rounding

/-! ### Integers in JSON -/

/-- **A JSON integer**: no fraction and no exponent. -/
structure JsonInteger extends JsonNumber where
  no_fraction : fraction = []
  no_exponent : exponent = none

namespace JsonInteger

/-- Its size. -/
def size (n : JsonInteger) : ℕ := digitsValue 10 n.whole

def integer (n : JsonInteger) : Int := if n.negative then -(n.size : Int) else n.size

variable (n : JsonInteger)

theorem double_eq : n.double = roundDouble n.negative n.size 1 := by
  have scale : (0 : Int) - (0 : ℕ) = 0 := by decide
  rw [JsonNumber.double, n.no_fraction, n.no_exponent, List.append_nil, Option.map_none,
    Option.getD_none, List.length_nil, scale, scaledDouble, if_pos (Int.le_refl 0), Int.toNat_zero,
    Nat.pow_zero, Nat.mul_one, size]

theorem natAbs_integer : n.integer.natAbs = n.size := by
  rw [integer]
  split
  · rw [Int.natAbs_neg, Int.natAbs_natCast]
  · exact Int.natAbs_natCast _

/-- The literal of an integer. -/
def ofInt (v : Int) : JsonInteger where
  negative := decide (v < 0)
  whole := decimal v.natAbs
  some_digit := decimal_ne_nil _
  all_digits := allDigits_decimal _
  no_leading_zero := decimal_no_leading_zero
  fraction_digits := no_digits
  no_fraction := rfl
  no_exponent := rfl

theorem integer_ofInt (v : Int) : (ofInt v).integer = v := by
  have size : (ofInt v).size = v.natAbs := digitsValue_decimal _
  rw [integer, size]
  show (if decide (v < 0) = true then _ else _) = v
  simp only [decide_eq_true_eq]
  omega

end JsonInteger

/-! ### Columns -/

/-- The column has every digit of the integer: its signed range, or `2^53` for a DOUBLE. -/
def Column.Holds (f : Column) (n : Int) : Prop :=
  if f.asDouble then n.natAbs ≤ 2 ^ 53
  else -2 ^ (8 * f.outSize - 1) ≤ n ∧ n < 2 ^ (8 * f.outSize - 1)

/-- What is left of an integer: 53 significant bits of an integer column, ten significant digits of a
floating-point one. -/
def Column.Keeps (f : Column) (n : Int) : Prop :=
  if f.asDouble then FewDigits 10 10 n.natAbs else FewDigits 2 53 n.natAbs

theorem Column.Holds.range {f : Column} {n : Int} (integer : f.asDouble = false) (held : f.Holds n) :
    -2 ^ 63 ≤ n ∧ n < 2 ^ 63 := by
  rw [Holds, if_neg (by rw [integer]; exact Bool.false_ne_true)] at held
  have power : (2 : Int) ^ (8 * f.outSize - 1) ≤ 2 ^ 63 := by
    rcases f.outSize_cases.1 with size | size | size | size
    · rw [size]; decide
    · rw [size]; decide
    · rw [size]; decide
    · rw [size]
  omega

/-- The signed values of two sizes. -/
theorem signed_eq_iff (negative : Bool) (a b : ℕ) :
    (if negative then -(a : Int) else a) = (if negative then -(b : Int) else b) ↔ a = b := by
  split <;> omega

section Tokens

variable (n : JsonInteger)

/-- **An integer column keeps 53 bits.** -/
theorem llround_double_iff (range : -2 ^ 63 ≤ n.integer ∧ n.integer < 2 ^ 63) :
    (llround n.double).toInt = n.integer ↔ FewDigits 2 53 n.size := by
  have size := n.natAbs_integer
  rw [n.double_eq]
  by_cases zero : n.size = 0
  · have rounded : ∀ negative, (llround (roundDouble negative 0 1)).toInt = 0 := by decide +kernel
    rw [zero, rounded]
    exact iff_of_true (by omega) (fewDigits_of_lt (by decide))
  have positive : 0 < n.size := Nat.pos_of_ne_zero zero
  have low : 2 ^ Nat.log2 n.size ≤ n.size := Nat.log2_self_le zero
  have high : n.size < 2 ^ (Nat.log2 n.size + 1) := Nat.lt_log2_self
  have rounds : nearest.roundDigits 2 53 (Nat.log2 n.size) n.size = n.size ↔ FewDigits 2 53 n.size :=
    nearest.roundDigits_eq_iff (by decide) low high
  rw [llround_toInt (roundDouble_isInteger n.negative positive (by omega)), ← rounds]
  -- only -2^63 is out of the range of the rounded sizes, and it is kept
  by_cases largest : n.size = 2 ^ 63
  · have kept : nearest.roundDigits 2 53 (Nat.log2 n.size) n.size = 2 ^ 63 := by
      rw [rounds.mpr (by rw [largest]; exact ⟨1, 63, by decide, by decide⟩), largest]
    have smallest : n.integer = -2 ^ 63 := by omega
    rw [kept, if_pos (Nat.le_refl _), smallest, largest]
    exact iff_of_true rfl rfl
  by_cases outside : 2 ^ 63 ≤ nearest.roundDigits 2 53 (Nat.log2 n.size) n.size
  · rw [if_pos outside]
    exact iff_of_false (by omega) (by omega)
  · rw [if_neg outside, JsonInteger.integer]
    exact signed_eq_iff n.negative _ _

/-- **A DOUBLE keeps ten digits.** -/
theorem literalValue_double_iff (range : n.size ≤ 2 ^ 53) :
    literalValue (formatDouble n.double) = some (n.integer : ℚ) ↔ FewDigits 10 10 n.size := by
  rw [n.double_eq]
  by_cases zero : n.size = 0
  · have text : ∀ negative, formatDouble (roundDouble negative 0 1) =
        minusBytes negative ++ ([48] ++ fractionText [] ++ []) := by
      decide +kernel
    have value := literalValue_point n.negative (List.cons_ne_nil 48 []) zero_digits (fun _ => rfl)
      no_digits none
    have none : digitsValue 10 ([48] ++ []) = 0 := by decide
    rw [none] at value
    rw [zero, text]
    refine iff_of_true (value.trans ?_) (fewDigits_of_lt (by decide))
    show some (scaledValue n.negative 0 0) = _
    rw [scaledValue_zero, JsonInteger.integer, zero]
  have positive : 0 < n.size := Nat.pos_of_ne_zero zero
  have exact_ : nearest.roundDigits 2 53 (Nat.log2 n.size) n.size = n.size := by
    refine (nearest.roundDigits_eq_iff (by decide) (Nat.log2_self_le zero) Nat.lt_log2_self).mpr ?_
    by_cases power : n.size = 2 ^ 53
    · rw [power]
      exact ⟨1, 53, by decide, by decide⟩
    · exact fewDigits_of_lt (by omega)
  have integer := roundDouble_isInteger n.negative positive (by omega)
  rw [exact_] at integer
  obtain ⟨low, high⟩ := decimal_bounds positive
  have value := literalValue_formatQuotient n.negative low high
  rw [scaledValue_zero] at value
  have text : formatDouble (roundDouble n.negative n.size 1) =
      minusBytes n.negative ++ formatQuotient n.size 1 := formatDouble_isInteger integer
  rw [text, value, Option.some.injEq, Rat.intCast_inj, JsonInteger.integer, signed_eq_iff]
  exact nearest.roundDigits_eq_iff (by decide) low high

/-- **The token of the cell denotes the integer** exactly when the column keeps it. -/
theorem literalValue_sqlCell {f : Column}
    (kind : f.kind = .intSigned ∨ f.kind = .intUnsigned ∨ f.kind = .float64)
    (held : f.Holds n.integer) :
    literalValue (sqlCell f (f.ofNumber n.double)) = some (n.integer : ℚ) ↔ f.Keeps n.integer := by
  have not_bool : f.kind ≠ .bool := by
    rintro bool
    rw [bool] at kind
    simp only [reduceCtorEq, or_self] at kind
  have here : (f.ofNumber n.double).isNull = false := rfl
  rw [sqlCell, here, if_neg Bool.false_ne_true, Column.Keeps, n.natAbs_integer, Column.ofNumber]
  cases double : f.asDouble with
  | true =>
    simp only [if_true]
    rw [Column.Holds, if_pos double, n.natAbs_integer] at held
    exact literalValue_double_iff n held
  | false =>
    simp only [Bool.false_eq_true, if_false, if_neg not_bool]
    rw [literalValue_intText, Option.some.injEq, Rat.intCast_inj]
    exact llround_double_iff n (held.range double)

end Tokens

/-! ### From the POST to the statement -/

section Post

variable (db : Config) (httpPort : UInt16) (peer : Peer) (timeUs : Int) (writer : EtherDBWriter)
  (fails : Bytes → Bool)

/-- **A POST to device `i` is stored as an integer in column `k`**: it leads to one INSERT of one
row, and the literal there denotes the integer. -/
def StoresAs (body : Bytes) (i k : ℕ) (n : Int) : Prop :=
  ∃ batch insert tokens token,
    (handleRequest db httpPort peer body timeUs).2 = some batch ∧
      (writer.writeHttpBatch db fails batch).1 = [insert] ∧
      parseInsert insert.sql = some ((deviceAt db.devices i).deviceId, [tokens]) ∧
      tokens[k + 1]? = some token ∧ literalValue token = some (n : ℚ)

end Post

section Stored

variable (tables : Tables) (sorter : Sorter ℕ) (httpPort : UInt16) (peer : Peer) (timeUs : Int)
  (writer : EtherDBWriter) (fails : Bytes → Bool) {i k : ℕ} {f : Column} {o : FlatObject}
  {m : JsonMember} {num : BitVec 64}
  (matched : (tables.loadAll sorter).matchHttpDevice peer httpPort = some i)
  (column : (deviceAt (tables.loadAll sorter).devices i).columns[k]? = some f)
  (first : FirstColumn (deviceAt (tables.loadAll sorter).devices i).columns k f.name)
  (carried : o.lastRead f.name = some m) (value : m.value.value = some num)

/-- The row of a POST with an object. -/
def postBatch (db : Config) (i : ℕ) (o : FlatObject) (timeUs : Int) : RowBatch :=
  let columns := (deviceAt db.devices i).columns
  ⟨some (db.devicePtr i), [timeUs.tdiv 1000],
    (storeMembers columns o.members (0, nullCells columns)).2⟩

section Row

include column

theorem columns_ne_nil : (deviceAt (tables.loadAll sorter).devices i).columns ≠ [] := by
  intro empty
  rw [empty] at column
  cases column

include matched in
theorem handleRequest_flat :
    (handleRequest (tables.loadAll sorter) httpPort peer o.render timeUs).2 =
      some (postBatch (tables.loadAll sorter) i o timeUs) := by
  simp only [handleRequest, matched, if_neg (columns_ne_nil tables sorter column),
    parseJsonFields_render, postBatch]

include first carried value in
/-- The cell of the column has the number. -/
theorem getElem?_postBatch :
    (postBatch (tables.loadAll sorter) i o timeUs).cells[k]? = some (f.ofNumber num) := by
  have inside : k < (nullCells (deviceAt (tables.loadAll sorter).devices i).columns).length := by
    rw [nullCells, List.length_replicate]
    exact (List.getElem?_eq_some_iff.mp column).1
  obtain ⟨before, same⟩ := getElem?_storeMembers_last column first carried inside
  rw [value] at same
  exact same

theorem present_of_column : i < (tables.loadAll sorter).devices.length := by
  by_contra missing
  refine columns_ne_nil tables sorter column ?_
  rw [deviceAt, List.getD_eq_getElem?_getD, List.getElem?_eq_none (Nat.le_of_not_lt missing)]
  rfl

include matched in
/-- The one statement of the row. -/
theorem writeHttpBatch_postBatch :
    ∃ insert, (writer.writeHttpBatch (tables.loadAll sorter) fails
        (postBatch (tables.loadAll sorter) i o timeUs)).1 = [insert] ∧
      parseInsert insert.sql = some ((deviceAt (tables.loadAll sorter).devices i).deviceId,
        [rowTokens (deviceAt (tables.loadAll sorter).devices i)
          (postBatch (tables.loadAll sorter) i o timeUs) 0]) := by
  have http : (deviceAt (tables.loadAll sorter).devices i).connProto = connHttp :=
    connProto_of_matchHttpDevice sorter tables.devicesLoaded matched
  have name := isSqlName_deviceId (deviceAt_mem (present_of_column tables sorter column))
  have own : (postBatch (tables.loadAll sorter) i o timeUs).dev =
      some ((tables.loadAll sorter).devicePtr i) := rfl
  have whole : (postBatch (tables.loadAll sorter) i o timeUs).cells.length =
      (postBatch (tables.loadAll sorter) i o timeUs).ts.length *
        (deviceAt (tables.loadAll sorter).devices i).columns.length := by
    show (storeMembers _ o.members (0, nullCells _)).2.length = 1 * _
    rw [length_storeMembers, nullCells, List.length_replicate, Nat.one_mul]
  refine ⟨insertOf _ (postBatch (tables.loadAll sorter) i o timeUs) (0, 1), ?_,
    parseInsert_sqlStatement whole name Nat.one_pos (Nat.le_refl 1)⟩
  have one : rowRanges kMaxRowsPerStmt (postBatch (tables.loadAll sorter) i o timeUs).counted 0 =
      [(0, 1)] := by
    show rowRanges 200 1 0 = [(0, 1)]
    decide
  have statements := writeBatchSql_eq writer (columns_ne_nil tables sorter column) fails
    (postBatch (tables.loadAll sorter) i o timeUs)
  rw [one] at statements
  rw [writeHttpBatch_eq own http]
  exact statements

include matched first carried value in
/-- What a POST stores is in the token of its cell. -/
theorem storesAs_iff_sqlCell (n : Int) :
    StoresAs (tables.loadAll sorter) httpPort peer timeUs writer fails o.render i k n ↔
      literalValue (sqlCell f (f.ofNumber num)) = some (n : ℚ) := by
  have stored := handleRequest_flat (o := o) tables sorter httpPort peer timeUs matched column
  obtain ⟨insert, written, parsed⟩ := writeHttpBatch_postBatch (o := o) tables sorter httpPort peer
    timeUs writer fails matched column
  have token : (rowTokens (deviceAt (tables.loadAll sorter).devices i)
      (postBatch (tables.loadAll sorter) i o timeUs) 0)[k + 1]? =
        some (sqlCell f (f.ofNumber num)) := by
    rw [rowTokens, List.getElem?_cons_succ, List.getElem?_zipWith_eq_some]
    refine ⟨f, _, column, ?_, rfl⟩
    rw [List.getElem?_drop, Nat.zero_mul, Nat.zero_add]
    exact getElem?_postBatch tables sorter timeUs column first carried value
  constructor
  · rintro ⟨batch, insert', tokens, token', stored', written', parsed', token_eq, denotes⟩
    cases stored.symm.trans stored'
    cases written.symm.trans written'
    cases parsed.symm.trans parsed'
    cases token.symm.trans token_eq
    exact denotes
  · exact fun denotes => ⟨_, insert, _, _, stored, written, parsed, token, denotes⟩

end Row

end Stored

/-- **HTTP integers are stored as sent when they are short.** An integer that the column can hold,
as the last member of the column's name, is stored exactly as it is when it has at most 53
significant bits, for a column of integers, or at most ten significant digits, for a DOUBLE. -/
theorem storesAs_iff (tables : Tables) (sorter : Sorter ℕ) (httpPort : UInt16) (peer : Peer)
    (timeUs : Int) (writer : EtherDBWriter) (fails : Bytes → Bool) {i k : ℕ} {f : Column}
    {o : FlatObject} {m : JsonMember} (n : JsonInteger)
    (matched : (tables.loadAll sorter).matchHttpDevice peer httpPort = some i)
    (column : (deviceAt (tables.loadAll sorter).devices i).columns[k]? = some f)
    (kind : f.kind = .intSigned ∨ f.kind = .intUnsigned ∨ f.kind = .float64)
    (first : FirstColumn (deviceAt (tables.loadAll sorter).devices i).columns k f.name)
    (carried : o.lastRead f.name = some m) (number : m.value = .number n.toJsonNumber)
    (held : f.Holds n.integer) :
    StoresAs (tables.loadAll sorter) httpPort peer timeUs writer fails o.render i k n.integer ↔
      f.Keeps n.integer := by
  have value : m.value.value = some n.double := by
    rw [number]
    rfl
  rw [storesAs_iff_sqlCell tables sorter httpPort peer timeUs writer fails matched column first
    carried value]
  exact literalValue_sqlCell n kind held

/-! ### A gauge -/

/-- An http device with a counter and a total. -/
def gaugeTables : Tables where
  fields :=
    [{ dataProtoId := 1, fieldName := bytesOf "count", fieldType := 9 },
     { dataProtoId := 1, fieldName := bytesOf "total", fieldType := 4 }]
  devices :=
    [{ deviceId := bytesOf "gauge", deviceIp := "10.0.0.1".toList, connProto := "http(3)".toList
       localServerPort := 8080, dataProtoId := 1 }]

def gaugeDb : Config := gaugeTables.loadAll (Sorter.insertion ℕ)

def gaugePeer : Peer := ⟨"10.0.0.1".toList, 40000⟩

def gaugeCount : Column := materializeField { size := 8 } (Or.inl rfl) (bytesOf "count") 0

def gaugeTotal : Column :=
  materializeField { kind := .float64, size := 8 } (Or.inl rfl) (bytesOf "total") 1

theorem gauge_columns : (deviceAt gaugeDb.devices 0).columns = [gaugeCount, gaugeTotal] := by
  decide +kernel

theorem gauge_matched : gaugeDb.matchHttpDevice gaugePeer 8080 = some 0 := by decide +kernel

def gaugeMember (name : String) (v : Int) : JsonMember :=
  ⟨.none, JsonString.ofBytes (bytesOf name), .none, .none, .number (JsonInteger.ofInt v).toJsonNumber,
    .none⟩

/-- `{"count":…,"total":…}`. -/
def gaugeObject (count total : Int) : FlatObject :=
  ⟨.none, .none, [gaugeMember "count" count, gaugeMember "total" total], .none⟩

section Gauge

variable (count total : Int)

theorem gauge_count :
    (deviceAt gaugeDb.devices 0).columns[0]? = some gaugeCount ∧
      FirstColumn (deviceAt gaugeDb.devices 0).columns 0 gaugeCount.name ∧
      (gaugeObject count total).lastRead gaugeCount.name = some (gaugeMember "count" count) := by
  rw [gauge_columns]
  refine ⟨rfl, ?_, rfl⟩
  rw [FirstColumn]
  decide

theorem gauge_total :
    (deviceAt gaugeDb.devices 0).columns[1]? = some gaugeTotal ∧
      FirstColumn (deviceAt gaugeDb.devices 0).columns 1 gaugeTotal.name ∧
      (gaugeObject count total).lastRead gaugeTotal.name = some (gaugeMember "total" total) := by
  rw [gauge_columns]
  refine ⟨rfl, ?_, rfl⟩
  rw [FirstColumn]
  decide

theorem gaugeCount_holds (held : -2 ^ 63 ≤ count ∧ count < 2 ^ 63) : gaugeCount.Holds count := held

theorem gaugeTotal_holds (held : total.natAbs ≤ 2 ^ 53) : gaugeTotal.Holds total := held

end Gauge

/-- A counter of 54 bits that is even, and a total of eleven digits with zeros at the end. -/
theorem storesAs_iff_even :
    StoresAs gaugeDb 8080 gaugePeer 1700000000000000 {} (fun _ => false)
        (gaugeObject 9007199254740994 12345678900).render 0 0 9007199254740994 ∧
      StoresAs gaugeDb 8080 gaugePeer 1700000000000000 {} (fun _ => false)
        (gaugeObject 9007199254740994 12345678900).render 0 1 12345678900 := by
  constructor
  · obtain ⟨column, first, carried⟩ := gauge_count 9007199254740994 12345678900
    have integer := JsonInteger.integer_ofInt 9007199254740994
    have stores := storesAs_iff gaugeTables (Sorter.insertion ℕ) 8080 gaugePeer 1700000000000000 {}
      (fun _ => false) (JsonInteger.ofInt 9007199254740994) gauge_matched column (Or.inl rfl) first
      carried rfl (by rw [integer]; exact gaugeCount_holds _ (by decide))
    rw [integer] at stores
    exact stores.mpr ⟨4503599627370497, 1, by decide, by decide⟩
  · obtain ⟨column, first, carried⟩ := gauge_total 9007199254740994 12345678900
    have integer := JsonInteger.integer_ofInt 12345678900
    have stores := storesAs_iff gaugeTables (Sorter.insertion ℕ) 8080 gaugePeer 1700000000000000 {}
      (fun _ => false) (JsonInteger.ofInt 12345678900) gauge_matched column (Or.inr (Or.inr rfl)) first
      carried rfl (by rw [integer]; exact gaugeTotal_holds _ (by decide))
    rw [integer] at stores
    exact stores.mpr ⟨123456789, 2, by decide, by decide⟩

/-- **A counter of `2^53 + 1` loses its last bit, a total of 12345678901 its last digit.** -/
theorem storesAs_rounded :
    gaugeDb.matchHttpDevice gaugePeer 8080 = some 0 ∧
      (deviceAt gaugeDb.devices 0).columns = [gaugeCount, gaugeTotal] ∧
      gaugeCount.kind = .intSigned ∧ gaugeCount.Holds 9007199254740993 ∧
      gaugeTotal.kind = .float64 ∧ gaugeTotal.Holds 12345678901 ∧
      ((handleRequest gaugeDb 8080 gaugePeer (gaugeObject 9007199254740993 12345678901).render
          1700000000000000).2.map fun batch =>
        (({} : EtherDBWriter).writeHttpBatch gaugeDb (fun _ => false) batch).1.map SqlInsert.sql) =
          some [bytesOf
            "INSERT INTO gauge VALUES (1700000000000,9007199254740992,1.23456789e+10)"] ∧
      ¬ StoresAs gaugeDb 8080 gaugePeer 1700000000000000 {} (fun _ => false)
        (gaugeObject 9007199254740993 12345678901).render 0 0 9007199254740993 ∧
      ¬ StoresAs gaugeDb 8080 gaugePeer 1700000000000000 {} (fun _ => false)
        (gaugeObject 9007199254740993 12345678901).render 0 1 12345678901 := by
  have count_held := gaugeCount_holds 9007199254740993 (by decide)
  have total_held := gaugeTotal_holds 12345678901 (by decide)
  refine ⟨gauge_matched, gauge_columns, rfl, count_held, rfl, total_held, ?_, ?_, ?_⟩
  · decide +kernel
  · obtain ⟨column, first, carried⟩ := gauge_count 9007199254740993 12345678901
    have integer := JsonInteger.integer_ofInt 9007199254740993
    have token := literalValue_sqlCell (JsonInteger.ofInt 9007199254740993) (f := gaugeCount)
      (Or.inl rfl) (by rw [integer]; exact count_held)
    rw [integer] at token
    have lost : ¬ FewDigits 2 53 9007199254740993 := by
      rw [← nearest.roundDigits_eq_iff (x := 53) (by decide) (by decide) (by decide)]
      decide +kernel
    intro stored
    rw [gaugeDb, storesAs_iff_sqlCell gaugeTables (Sorter.insertion ℕ) 8080 gaugePeer
      1700000000000000 {} (fun _ => false) gauge_matched column first carried rfl] at stored
    exact lost (token.mp stored)
  · obtain ⟨column, first, carried⟩ := gauge_total 9007199254740993 12345678901
    have integer := JsonInteger.integer_ofInt 12345678901
    have token := literalValue_sqlCell (JsonInteger.ofInt 12345678901) (f := gaugeTotal)
      (Or.inr (Or.inr rfl)) (by rw [integer]; exact total_held)
    rw [integer] at token
    have lost : ¬ FewDigits 10 10 12345678901 := by
      rw [← nearest.roundDigits_eq_iff (x := 10) (by decide) (by decide) (by decide)]
      decide +kernel
    intro stored
    rw [gaugeDb, storesAs_iff_sqlCell gaugeTables (Sorter.insertion ℕ) 8080 gaugePeer
      1700000000000000 {} (fun _ => false) gauge_matched column first carried rfl] at stored
    exact lost (token.mp stored)

end EtherAdapter
