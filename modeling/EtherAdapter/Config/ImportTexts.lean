/-
**The texts of an import.**

A cell of a `TEXT` column is written quoted, but bare when it looks like a number; SQLite then stores
the text of the number.

* `KeepsTexts` — every text is stored as it stands, and every device keeps a row of its own.
* `Sqlite.Canonical` — a number that is the text of its value: an integer without a plus sign and
  without needless zeros, or a real number written as SQLite writes it.
* **`csv2sqlite_keepsTexts_iff`** — an import keeps texts exactly if all cells that look like numbers
  are canonical. The devices `007` and `7` become one (`csv2sqlite_merges`).
-/

import EtherAdapter.Config.Reimport
import EtherAdapter.Writer.Literals

namespace EtherAdapter

open Upserts

/-! ### Quoted texts -/

theorem unquote_quoted (s : Bytes) :
    unquote (s.flatMap (fun c => if c = 39 then [39, 39] else [c]) ++ [39]) = some s := by
  induction s with
  | nil => rfl
  | cons c s ih =>
    rw [List.flatMap_cons, List.append_assoc]
    by_cases quote : c = 39
    · rw [if_pos quote, quote]
      show (unquote (s.flatMap _ ++ [39])).map (39 :: ·) = _
      rw [ih]
      rfl
    · rw [if_neg quote, List.singleton_append, unquote, ih]
      · rfl
      · exact fun same => absurd same quote
      · exact fun _ same => absurd same quote
      · exact quote

theorem textValue_sqlQuote (sqlite : Sqlite) (s : Bytes) :
    sqlite.textValue (sqlQuote s) = some (.text s) := by
  have word : sqlQuote s ≠ bytesOf "NULL" := fun same =>
    have first : some (39 : UInt8) = some 78 := congrArg List.head? same
    absurd first (by decide)
  unfold Sqlite.textValue
  rw [if_neg word]
  show (unquote (s.flatMap _ ++ [39])).map DbValue.text = _
  rw [unquote_quoted]
  rfl

theorem head_of_isNumeric {s : Bytes} (numeric : isNumeric s = true) : s.head? ≠ some 39 := by
  intro quote
  obtain ⟨tail, rfl⟩ := List.head?_eq_some_iff.mp quote
  exact absurd numeric Bool.false_ne_true

theorem textValue_of_isNumeric (sqlite : Sqlite) {s : Bytes} (numeric : isNumeric s = true) :
    sqlite.textValue s = (sqlite.numberText s).map .text := by
  have word : s ≠ bytesOf "NULL" := by
    rintro rfl
    exact absurd numeric (by decide)
  unfold Sqlite.textValue
  rw [if_neg word]
  split
  · exact absurd rfl (head_of_isNumeric numeric)
  · rfl

/-! ### Bare numbers -/

theorem allDigits_of_isNumericTail {dot : Bool} {s : Bytes} (numeric : isNumericTail dot s = true)
    (whole : 46 ∉ s) : AllDigits s := by
  induction s with
  | nil => exact fun _ member => absurd member List.not_mem_nil
  | cons c s ih =>
    have point : c ≠ 46 := fun same => whole (same ▸ List.mem_cons_self)
    rw [isNumericTail, if_neg point, Bool.and_eq_true] at numeric
    intro d member
    rcases List.mem_cons.mp member with rfl | later
    · exact numeric.1
    · exact ih numeric.2 (fun behind => whole (List.mem_cons_of_mem _ behind)) d later

/-- The digits of a number, behind its sign. -/
def unsignedPart (t : Bytes) : Bytes := t.drop (scanSign t).2

def signedValue (t : Bytes) : Int :=
  if (scanSign t).1 then -(digitsValue 10 (unsignedPart t) : Int)
  else digitsValue 10 (unsignedPart t)

/-- No point, and a value that fits `int64_t`. -/
def IsIntegerText (t : Bytes) : Prop :=
  46 ∉ unsignedPart t ∧ -2 ^ 63 ≤ signedValue t ∧ signedValue t < 2 ^ 63

instance (t : Bytes) : Decidable (IsIntegerText t) := inferInstanceAs (Decidable (_ ∧ _))

/-- No plus sign, and a zero in front only in `0` itself. -/
def PlainInteger (t : Bytes) : Prop :=
  t.head? ≠ some 43 ∧ ((unsignedPart t).head? = some 48 → t = [48])

instance (t : Bytes) : Decidable (PlainInteger t) := inferInstanceAs (Decidable (_ ∧ _))

/-- **A number that is the text of its value.** -/
def Sqlite.Canonical (sqlite : Sqlite) (t : Bytes) : Prop :=
  if IsIntegerText t then PlainInteger t else sqlite.realText t = t

theorem numberText_eq (sqlite : Sqlite) (t : Bytes) :
    sqlite.numberText t =
      if (unsignedPart t).any isDigitByte then
        some (if IsIntegerText t then intText (signedValue t) else sqlite.realText t)
      else none := rfl

theorem head_intText (v : Int) : (intText v).head? ≠ some 43 := by
  intro plus
  rw [intText] at plus
  split at plus
  · have first : (45 : UInt8) = 43 := Option.some.inj plus
    exact absurd first (by decide)
  · have member := List.mem_of_mem_head? plus
    exact absurd (allDigits_decimal _ 43 member) (by decide)

theorem intText_negative {digits : Bytes} (all : AllDigits digits) (nonempty : digits ≠ []) :
    intText (-(digitsValue 10 digits : Int)) = 45 :: digits ↔ digits.head? ≠ some 48 := by
  constructor
  · intro text zero
    by_cases negative : -(digitsValue 10 digits : Int) < 0
    · rw [intText, if_pos negative] at text
      have same := (List.cons.inj text).2
      rw [← same] at zero
      have none := head_decimal zero
      omega
    · rw [intText, if_neg negative] at text
      have member : 45 ∈ decimal (-(digitsValue 10 digits : Int)).natAbs :=
        text ▸ List.mem_cons_self
      exact absurd (allDigits_decimal _ 45 member) (by decide)
  · intro lead
    obtain ⟨positive, text⟩ := decimal_digitsValue all nonempty lead
    rw [intText, if_pos (by omega), Int.natAbs_neg, Int.natAbs_natCast, text]

theorem intText_unsigned {digits : Bytes} (all : AllDigits digits) (nonempty : digits ≠ []) :
    intText (digitsValue 10 digits : Int) = digits ↔ (digits.head? = some 48 → digits = [48]) := by
  have unsigned : intText (digitsValue 10 digits : Int) = decimal (digitsValue 10 digits) := by
    rw [intText, if_neg (by omega), Int.natAbs_natCast]
  rw [unsigned]
  constructor
  · intro text zero
    rw [← text] at zero ⊢
    exact decimal_no_leading_zero zero
  · intro lead
    by_cases zero : digits.head? = some 48
    · rw [lead zero]
      decide
    · exact (decimal_digitsValue all nonempty zero).2

theorem scanSign_cases (t : Bytes) :
    (∃ digits, t = 45 :: digits) ∨ (∃ digits, t = 43 :: digits) ∨ scanSign t = (false, 0) := by
  unfold scanSign
  split
  · exact .inl ⟨_, rfl⟩
  · exact .inr (.inl ⟨_, rfl⟩)
  · exact .inr (.inr rfl)

/-- **An integer keeps its text exactly if it has no plus sign and no needless zero.** -/
theorem intText_signedValue {t : Bytes} (numeric : isNumeric t = true)
    (integer : IsIntegerText t) : intText (signedValue t) = t ↔ PlainInteger t := by
  simp only [isNumeric, ne_eq, Bool.and_eq_true, decide_eq_true_eq] at numeric
  have all : AllDigits (unsignedPart t) := allDigits_of_isNumericTail numeric.2 integer.1
  have nonempty : unsignedPart t ≠ [] := numeric.1
  rcases scanSign_cases t with ⟨digits, rfl⟩ | ⟨digits, rfl⟩ | unsigned
  · -- behind a minus sign no zero is needed
    have digit : AllDigits digits := all
    refine Iff.trans (intText_negative digit nonempty) ?_
    have minus : (45 :: digits).head? ≠ some 43 := by
      rw [List.head?_cons]
      decide
    have longer : 45 :: digits ≠ [48] := fun same => absurd (List.cons.inj same).1 (by decide)
    exact ⟨fun lead => ⟨minus, fun zero => absurd zero lead⟩,
      fun plain zero => longer (plain.2 zero)⟩
  · constructor
    · intro text
      refine absurd ?_ (head_intText (signedValue (43 :: digits)))
      rw [text]
      rfl
    · exact fun plain => absurd rfl plain.1
  · have whole : unsignedPart t = t := by rw [unsignedPart, unsigned, List.drop_zero]
    rw [whole] at all nonempty
    have value : signedValue t = (digitsValue 10 t : Int) := by
      rw [signedValue, unsigned, whole]
      rfl
    rw [value, intText_unsigned all nonempty, PlainInteger, whole]
    have plus : t.head? ≠ some 43 := fun first =>
      absurd (all 43 (List.mem_of_mem_head? first)) (by decide)
    exact ⟨fun lead => ⟨plus, lead⟩, And.right⟩

theorem numberText_iff (sqlite : Sqlite) {t text : Bytes} (numeric : isNumeric t = true)
    (stored : sqlite.numberText t = some text) : text = t ↔ sqlite.Canonical t := by
  rw [numberText_eq] at stored
  split at stored
  · rw [← Option.some.inj stored, Sqlite.Canonical]
    by_cases integer : IsIntegerText t
    · rw [if_pos integer, if_pos integer]
      exact intText_signedValue numeric integer
    · rw [if_neg integer, if_neg integer]
  · cases stored

/-- **A cell of a `TEXT` column is stored as it stands exactly if it is no number, or a canonical
one.** -/
theorem textValue_colValue_iff (sqlite : Sqlite) {t : Bytes} {v : DbValue} (nonempty : t ≠ [])
    (stored : sqlite.textValue (colValue t) = some v) :
    v = .text t ↔ (isNumeric t = true → sqlite.Canonical t) := by
  rw [colValue, if_neg nonempty] at stored
  by_cases numeric : isNumeric t = true
  · rw [if_pos numeric, textValue_of_isNumeric sqlite numeric, Option.map_eq_some_iff] at stored
    obtain ⟨text, number, rfl⟩ := stored
    rw [DbValue.text.injEq, numberText_iff sqlite numeric number]
    exact ⟨fun canonical _ => canonical, fun canonical => canonical numeric⟩
  · rw [if_neg numeric, textValue_sqlQuote] at stored
    exact ⟨fun _ is => absurd is numeric, fun _ => (Option.some.inj stored).symm⟩

/-! ### Rows -/

theorem rowValues_getElem (sqlite : Sqlite) {columns : List (Affinity × CellRule)}
    {literals : List Bytes} {row : List DbValue}
    (values : sqlite.rowValues columns literals = some row) {j : ℕ} {column : Affinity × CellRule}
    (at_j : columns[j]? = some column) :
    ∃ literal v, literals[j]? = some literal ∧ sqlite.value column.1 literal = some v ∧
      row[j]? = some v := by
  induction columns generalizing literals row j with
  | nil => cases at_j
  | cons first columns ih =>
    cases literals with
    | nil => cases values
    | cons literal literals =>
      rw [Sqlite.rowValues, Option.bind_eq_some_iff] at values
      obtain ⟨v, here, values⟩ := values
      rw [Option.map_eq_some_iff] at values
      obtain ⟨rest, values, rfl⟩ := values
      cases j with
      | zero =>
        cases at_j
        exact ⟨literal, v, rfl, here, rfl⟩
      | succ j => exact ih values at_j

/-- The row of a line, its key first. -/
theorem row_of_csvRow {sqlite : Sqlite} {entry : ConfigTable × List Bytes}
    {row : (ConfigTable × DbValue) × List DbValue} (stored : sqlite.csvRow entry = some row) :
    row.1.1 = entry.1 ∧ row.2.head? = some row.1.2 ∧
      sqlite.rowValues entry.1.columns (entry.1.values entry.2) = some row.2 := by
  unfold Sqlite.csvRow Sqlite.row at stored
  split at stored
  · cases stored
  · split at stored
    · split at stored
      · rename_i values _
        cases stored
        exact ⟨rfl, rfl, values⟩
      · cases stored
    · cases stored

/-- Column `j` holds texts. -/
def ConfigTable.IsText (table : ConfigTable) (j : ℕ) : Prop :=
  (table.columns[j]?).map Prod.fst = some .text

/-- `colValue` writes the `TEXT` columns. -/
theorem column_of_isText {table : ConfigTable} {j : ℕ} (text : table.IsText j) :
    table.columns[j]? = some (.text, .column) := by
  have rule : ∀ column ∈ table.columns, column.1 = .text → column.2 = .column := by
    cases table <;> decide
  obtain ⟨⟨affinity, literal⟩, at_j, rfl⟩ := Option.map_eq_some_iff.mp text
  rw [at_j, show literal = .column from rule _ (List.mem_of_getElem? at_j) rfl]

/-- **What a line stores in a `TEXT` column.** -/
theorem csvRow_text_iff {sqlite : Sqlite} {entry : ConfigTable × List Bytes}
    {row : (ConfigTable × DbValue) × List DbValue} (stored : sqlite.csvRow entry = some row)
    {j : ℕ} (text : entry.1.IsText j) (nonempty : entry.2.getD j [] ≠ []) :
    row.2[j]? = some (.text (entry.2.getD j [])) ↔
      (isNumeric (entry.2.getD j []) = true → sqlite.Canonical (entry.2.getD j [])) := by
  have column := column_of_isText text
  obtain ⟨literal, v, written, value, held⟩ :=
    rowValues_getElem sqlite (row_of_csvRow stored).2.2 column
  rw [ConfigTable.values, List.getElem?_mapIdx, column] at written
  cases written
  rw [held, Option.some.injEq]
  exact textValue_colValue_iff sqlite nonempty value

/-! ### Imports -/

/-- The lines before the first refused one. -/
def importedEntries (sqlite : Sqlite) (csvs : ConfigTable → Bytes) :
    List (ConfigTable × List Bytes) :=
  (entries csvs).takeWhile fun entry => (sqlite.csvRow entry).isSome

/-- A row of the device table whose `device_id` is a text. -/
def HoldsDevice (db : Database) (key : DbValue) (did : Bytes) : Prop :=
  ∃ row, db (.deviceTable, key) = some row ∧ row.head? = some (.text did)

/-- **Texts are stored as they stand, and different devices are different rows.** -/
structure KeepsTexts (sqlite : Sqlite) (csvs : ConfigTable → Bytes) (after : Database) : Prop where
  texts : ∀ entry ∈ importedEntries sqlite csvs, ∀ row, sqlite.csvRow entry = some row →
    ∀ j, entry.1.IsText j → entry.2.getD j [] ≠ [] →
      row.2[j]? = some (.text (entry.2.getD j []))
  devices : ∀ first ∈ importedEntries sqlite csvs, ∀ second ∈ importedEntries sqlite csvs,
    first.1 = .deviceTable → second.1 = .deviceTable → first.2.getD 0 [] ≠ second.2.getD 0 [] →
      ∃ key other, key ≠ other ∧ HoldsDevice after key (first.2.getD 0 []) ∧
        HoldsDevice after other (second.2.getD 0 [])

theorem importedRows_eq (sqlite : Sqlite) (csvs : ConfigTable → Bytes) :
    importedRows sqlite csvs = (importedEntries sqlite csvs).filterMap sqlite.csvRow :=
  accepted_map _ _

/-- Imported lines have a row. -/
theorem exists_row {sqlite : Sqlite} {csvs : ConfigTable → Bytes} {entry : ConfigTable × List Bytes}
    (imported : entry ∈ importedEntries sqlite csvs) : ∃ row, sqlite.csvRow entry = some row :=
  Option.isSome_iff_exists.mp (List.all_eq_true.mp List.all_takeWhile entry imported)

/-- No annotation is imported. -/
theorem isSkipped_of_mem {csvs : ConfigTable → Bytes} {entry : ConfigTable × List Bytes}
    (member : entry ∈ entries csvs) : entry.1.isSkipped (entry.2.getD 0 []) = false := by
  have file : ∀ table, entry ∈ fileEntries table (csvs table) →
      entry.1.isSkipped (entry.2.getD 0 []) = false := by
    intro table inside
    obtain ⟨f, line, rfl⟩ := List.mem_map.mp inside
    have kept := (List.mem_filter.mp line).2
    rw [Bool.and_eq_true, Bool.not_eq_true'] at kept
    exact kept.2
  rcases List.mem_append.mp member with device | member
  · exact file _ device
  · rcases List.mem_append.mp member with header | proto
    · exact file _ header
    · exact file _ proto

/-- **A device whose id is kept has a row.** -/
theorem holdsDevice_of_imported (sqlite : Sqlite) (force : Bool) (db : Database)
    (csvs : ConfigTable → Bytes) {entry : ConfigTable × List Bytes}
    (imported : entry ∈ importedEntries sqlite csvs) (device : entry.1 = .deviceTable)
    {row : (ConfigTable × DbValue) × List DbValue} (stored : sqlite.csvRow entry = some row)
    {did : Bytes} (text : row.2.head? = some (.text did)) :
    HoldsDevice (csv2sqlite sqlite force db fun table => some (csvs table)).1 (.text did) did := by
  obtain ⟨table, key, -⟩ := row_of_csvRow stored
  have place : row.1 = (.deviceTable, .text did) :=
    Prod.ext (table.trans device) (Option.some.inj (key.symm.trans text))
  have member : row ∈ importedRows sqlite csvs := by
    rw [importedRows_eq]
    exact List.mem_filterMap.mpr ⟨entry, imported, stored⟩
  obtain ⟨values, last⟩ : ∃ values, lastOf (importedRows sqlite csvs) row.1 = some values := by
    rw [← Option.ne_none_iff_exists', ne_eq, lastOf_eq_none_iff, firstOf_eq_none_iff]
    exact fun absent => absent row member rfl
  refine ⟨values, ?_, ?_⟩
  · have start : csv2sqlite sqlite force db (fun table => some (csvs table)) =
        csv2sqlite sqlite false (if force then fun _ => none else db)
          fun table => some (csvs table) := by cases force <;> rfl
    rw [start, csv2sqlite_eq, putAll_apply, ← place]
    show (lastOf (importedRows sqlite csvs) row.1).or _ = some values
    rw [last]
    rfl
  · have inside := mem_of_lastOf last
    rw [importedRows_eq] at inside
    obtain ⟨other, -, held⟩ := List.mem_filterMap.mp inside
    have head := (row_of_csvRow held).2.1
    rw [place] at head
    exact head

/-- **An import keeps texts exactly if the cells that look like numbers are canonical.** -/
theorem csv2sqlite_keepsTexts_iff (sqlite : Sqlite) (force : Bool) (db : Database)
    (csvs : ConfigTable → Bytes) :
    KeepsTexts sqlite csvs (csv2sqlite sqlite force db fun table => some (csvs table)).1 ↔
      ∀ entry ∈ importedEntries sqlite csvs, ∀ j, entry.1.IsText j →
        entry.2.getD j [] ≠ [] → isNumeric (entry.2.getD j []) = true →
          sqlite.Canonical (entry.2.getD j []) := by
  constructor
  · intro keeps entry imported j text nonempty
    obtain ⟨row, stored⟩ := exists_row imported
    exact (csvRow_text_iff stored text nonempty).mp
      (keeps.texts entry imported row stored j text nonempty)
  · intro canonical
    have texts : ∀ entry ∈ importedEntries sqlite csvs, ∀ row, sqlite.csvRow entry = some row →
        ∀ j, entry.1.IsText j → entry.2.getD j [] ≠ [] →
          row.2[j]? = some (.text (entry.2.getD j [])) :=
      fun entry imported row stored j text nonempty =>
        (csvRow_text_iff stored text nonempty).mpr (canonical entry imported j text nonempty)
    have held : ∀ entry ∈ importedEntries sqlite csvs, entry.1 = .deviceTable →
        HoldsDevice (csv2sqlite sqlite force db fun table => some (csvs table)).1
          (.text (entry.2.getD 0 [])) (entry.2.getD 0 []) := by
      intro entry imported device
      obtain ⟨row, stored⟩ := exists_row imported
      have nonempty : entry.2.getD 0 [] ≠ [] := by
        have note := isSkipped_of_mem (List.takeWhile_subset _ imported)
        rw [device] at note
        intro empty
        rw [empty] at note
        exact absurd note (by decide)
      have first := texts entry imported row stored 0 (by rw [device]; rfl) nonempty
      rw [← List.head?_eq_getElem?] at first
      exact holdsDevice_of_imported sqlite force db csvs imported device stored first
    refine ⟨texts, fun first imported second imported' device device' different => ?_⟩
    exact ⟨.text (first.2.getD 0 []), .text (second.2.getD 0 []),
      fun same => different (DbValue.text.inj same), held first imported device,
      held second imported' device'⟩

/-! ### Two devices -/

/-- A pump and a fan. -/
def plantCsvs : ConfigTable → Bytes
  | .deviceTable =>
    bytesOf "007,Pump,10.0.0.1,502,custom_data(1),0,1\n7,Fan,10.0.0.2,502,custom_data(1),0,1\n"
  | _ => []

/-- The two lines. -/
def plantEntries : List (ConfigTable × List Bytes) :=
  [(.deviceTable, [bytesOf "007", bytesOf "Pump", bytesOf "10.0.0.1", bytesOf "502",
      bytesOf "custom_data(1)", bytesOf "0", bytesOf "1"]),
    (.deviceTable, [bytesOf "7", bytesOf "Fan", bytesOf "10.0.0.2", bytesOf "502",
      bytesOf "custom_data(1)", bytesOf "0", bytesOf "1"])]

/-- The row of device `7`, with the name and the address given. -/
def sevenRow (name ip : String) : List DbValue :=
  [.text (bytesOf "7"), .text (bytesOf name), .text (bytesOf ip), .integer 502,
    .text (bytesOf "custom_data(1)"), .integer 0, .integer 1, .null, .null]

theorem importedEntries_plant : importedEntries plainSqlite plantCsvs = plantEntries := by
  decide +kernel

theorem importedRows_plant :
    importedRows plainSqlite plantCsvs =
      [((.deviceTable, .text (bytesOf "7")), sevenRow "Pump" "10.0.0.1"),
        ((.deviceTable, .text (bytesOf "7")), sevenRow "Fan" "10.0.0.2")] := by
  rw [importedRows_eq, importedEntries_plant]
  decide +kernel

/-- Both lines are imported; what is left is the fan. -/
theorem csv2sqlite_merges :
    importedEntries plainSqlite plantCsvs = plantEntries ∧
      (csv2sqlite plainSqlite false (fun _ => none) fun table => some (plantCsvs table)).1
          (.deviceTable, .text (bytesOf "007")) = none ∧
      (csv2sqlite plainSqlite false (fun _ => none) fun table => some (plantCsvs table)).1
          (.deviceTable, .text (bytesOf "7")) = some (sevenRow "Fan" "10.0.0.2") ∧
      ¬ KeepsTexts plainSqlite plantCsvs
        (csv2sqlite plainSqlite false (fun _ => none) fun table => some (plantCsvs table)).1 := by
  have after : (csv2sqlite plainSqlite false (fun _ => none) fun table => some (plantCsvs table)).1 =
      putAll (fun _ => none) (importedRows plainSqlite plantCsvs) := csv2sqlite_eq _ _ _
  refine ⟨importedEntries_plant, ?_, ?_, fun keeps => ?_⟩
  · rw [after, importedRows_plant]
    decide +kernel
  · rw [after, importedRows_plant]
    decide +kernel
  · have texts := keeps.texts
    rw [importedEntries_plant] at texts
    have text := texts _ List.mem_cons_self
      ((.deviceTable, .text (bytesOf "7")), sevenRow "Pump" "10.0.0.1") (by decide +kernel) 0 rfl
      (by decide)
    exact absurd text (by decide +kernel)

end EtherAdapter
