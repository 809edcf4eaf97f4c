/-
**Importing into a database that has rows already.**

The usage text says that rows which exist, by primary key, are skipped; the statements are
`INSERT OR REPLACE`.

* `KeepsRows` — what the usage text says of a database before and after: a row that was there stays,
  and under every other key is the first CSV row with that key.
* **`csv2sqlite_keeps_iff`** — the import does so exactly if the last row it puts under a key is the
  one to be kept, and no row behind a refused one has a new key. So a changed line of a CSV
  overwrites the row in the database (`csv2sqlite_overwrites`).
-/

import EtherAdapter.Model.Csv

namespace EtherAdapter

open Upserts

/-- The rows of all lines, those behind a refused one included. -/
def csvRows (sqlite : Sqlite) (csvs : ConfigTable → Bytes) :
    List ((ConfigTable × DbValue) × List DbValue) :=
  ((entries csvs).map sqlite.csvRow).reduceOption

/-- The rows before the first refused one. -/
def importedRows (sqlite : Sqlite) (csvs : ConfigTable → Bytes) :
    List ((ConfigTable × DbValue) × List DbValue) :=
  accepted ((entries csvs).map sqlite.csvRow)

/-- The rows behind the first refused one. -/
def missedRows (sqlite : Sqlite) (csvs : ConfigTable → Bytes) :
    List ((ConfigTable × DbValue) × List DbValue) :=
  (csvRows sqlite csvs).drop (importedRows sqlite csvs).length

/-- **Rows that are there stay, and the other rows of the CSVs are added.** -/
structure KeepsRows (db after : Database) (rows : List ((ConfigTable × DbValue) × List DbValue)) :
    Prop where
  kept : ∀ key values, db key = some values → after key = some values
  added : ∀ key, db key = none → after key = firstOf rows key

theorem keepsRows_iff (db after : Database)
    (rows : List ((ConfigTable × DbValue) × List DbValue)) :
    KeepsRows db after rows ↔ ∀ key, after key = putNew db rows key := by
  constructor
  · rintro ⟨kept, added⟩ key
    rw [putNew_apply]
    cases held : db key with
    | some values => exact kept key values held
    | none => exact added key held
  · intro same
    refine ⟨fun key values held => ?_, fun key fresh => ?_⟩
    · rw [same, putNew_apply, held]
      rfl
    · rw [same, putNew_apply, fresh]
      rfl

theorem csvRows_eq (sqlite : Sqlite) (csvs : ConfigTable → Bytes) :
    csvRows sqlite csvs = importedRows sqlite csvs ++ missedRows sqlite csvs :=
  (List.prefix_iff_eq_append.mp (accepted_front _)).symm

/-- **Re-import leaves existing rows alone exactly if nothing it puts differs from what is to be
kept.** -/
theorem csv2sqlite_keeps_iff (sqlite : Sqlite) (db : Database) (csvs : ConfigTable → Bytes) :
    KeepsRows db (csv2sqlite sqlite false db fun table => some (csvs table)).1
        (csvRows sqlite csvs) ↔
      (∀ key values, lastOf (importedRows sqlite csvs) key = some values →
          (db key).or (firstOf (importedRows sqlite csvs) key) = some values) ∧
        ∀ row ∈ missedRows sqlite csvs,
          (db row.1).isSome ∨ (firstOf (importedRows sqlite csvs) row.1).isSome := by
  rw [keepsRows_iff, csv2sqlite_eq, csvRows_eq]
  exact putAll_eq_putNew_iff db _ _

/-! ### One database -/

/-- SQLite, as far as texts and small numbers go. -/
def plainSqlite : Sqlite where
  realText := id
  numberValue := fun _ literal =>
    if literal = bytesOf "NULL" then some .null else some (.integer (digitsValue 10 literal))
  admits := fun _ _ => true

/-- A pump at the given port. -/
def pumpRow (port : Int) : List DbValue :=
  [.text (bytesOf "p1"), .text (bytesOf "Pump"), .text (bytesOf "10.0.0.1"), .integer port,
    .text (bytesOf "custom_data(1)"), .integer 0, .integer 1, .null, .null]

def pumpKey : ConfigTable × DbValue := (.deviceTable, .text (bytesOf "p1"))

def pumpDb : Database := fun key => if key = pumpKey then some (pumpRow 502) else none

/-- The same pump, with another port. -/
def pumpCsvs : ConfigTable → Bytes
  | .deviceTable => bytesOf "p1,Pump,10.0.0.1,503,custom_data(1),0,1\n"
  | _ => []

/-- The pump was there with port 502; afterwards its port is 503. -/
theorem csv2sqlite_overwrites :
    pumpDb pumpKey = some (pumpRow 502) ∧
      (csv2sqlite plainSqlite false pumpDb fun table => some (pumpCsvs table)).1 pumpKey =
        some (pumpRow 503) ∧
      ¬ KeepsRows pumpDb (csv2sqlite plainSqlite false pumpDb fun table => some (pumpCsvs table)).1
        (csvRows plainSqlite pumpCsvs) := by
  have there : pumpDb pumpKey = some (pumpRow 502) := by decide +kernel
  have after : (csv2sqlite plainSqlite false pumpDb fun table => some (pumpCsvs table)).1 pumpKey =
      some (pumpRow 503) := by decide +kernel
  refine ⟨there, after, fun keeps => ?_⟩
  have same := (keeps.kept pumpKey (pumpRow 502) there).symm.trans after
  exact absurd same (by decide +kernel)

end EtherAdapter
