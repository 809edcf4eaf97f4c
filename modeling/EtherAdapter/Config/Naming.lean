/-
**Table and column names: when they stay distinct.**

* `Alike` — two names that `makeIdentifier` cannot tell apart: byte by byte they are equal or both
  hold a byte that is neither a letter nor a digit, where a name with a leading digit is read with
  `_` in front.
* `map_wordByte_eq_iff` — names give one identifier exactly when they are alike.
* `FieldRow.given` — the name of a column's row, or the fallback `f<index>` where it has none.
* **`loadAll_names`** — the table names, and the column names of every table, are pairwise distinct
  exactly when no two of the configured names are alike (`ts` counts as a column); and these are the
  columns that the text of `createTableSql` lists. So distinct names are not enough
  (`loadAll_names_collide`).
-/

import EtherAdapter.Config.Groups
import EtherAdapter.Model.Writer

namespace EtherAdapter

open Grouping

/-! ### Identifiers -/

def isAlnumByte (c : UInt8) : Bool :=
  (97 ≤ c && c ≤ 122) || (65 ≤ c && c ≤ 90) || isDigitByte c

/-- Bytes that an identifier does not tell apart. -/
def SameByte (a b : UInt8) : Prop := a = b ∨ (isAlnumByte a = false ∧ isAlnumByte b = false)

/-- A name that starts with a digit gets `_` in front. -/
def padName : Bytes → Bytes
  | [] => []
  | first :: rest => if isDigitByte first then 95 :: first :: rest else first :: rest

/-- **Names that give one identifier.** -/
def Alike (a b : Bytes) : Prop := List.Forall₂ SameByte (padName a) (padName b)

theorem wordByte_eq (c : UInt8) : wordByte c = if isAlnumByte c then c else 95 := by
  rw [wordByte, isWordByte, ← isAlnumByte]
  cases isAlnumByte c with
  | true => rfl
  | false =>
    rw [Bool.false_or, if_neg Bool.false_ne_true]
    split
    · rename_i underscore
      exact beq_iff_eq.mp underscore
    · rfl

theorem wordByte_eq_iff (a b : UInt8) : wordByte a = wordByte b ↔ SameByte a b := by
  have underscore : isAlnumByte 95 = false := by decide
  rw [wordByte_eq, wordByte_eq, SameByte]
  cases here : isAlnumByte a with
  | true =>
    cases there : isAlnumByte b with
    | true => simp only [if_true, Bool.true_eq_false, false_and, or_false]
    | false =>
      simp only [if_true, Bool.false_eq_true, if_false, Bool.true_eq_false, false_and, or_false]
      constructor
      · rintro rfl
        rw [underscore] at here
        cases here
      · rintro rfl
        rw [there] at here
        cases here
  | false =>
    cases there : isAlnumByte b with
    | true =>
      simp only [if_true, Bool.false_eq_true, if_false, Bool.true_eq_false, and_false, or_false]
      constructor
      · rintro rfl
        rw [underscore] at there
        cases there
      · rintro rfl
        rw [there] at here
        cases here
    | false => simp only [Bool.false_eq_true, if_false, and_self, or_true]

theorem isAlnumByte_of_isDigitByte {c : UInt8} (digit : isDigitByte c = true) :
    isAlnumByte c = true := by
  rw [isAlnumByte, digit, Bool.or_true]

theorem isDigitByte_wordByte (c : UInt8) : isDigitByte (wordByte c) = isDigitByte c := by
  rw [wordByte_eq]
  cases letter : isAlnumByte c with
  | true => rw [if_pos rfl]
  | false =>
    rw [if_neg Bool.false_ne_true]
    cases digit : isDigitByte c with
    | true =>
      rw [isAlnumByte_of_isDigitByte digit] at letter
      cases letter
    | false => rfl

/-- An identifier, byte by byte. -/
theorem makeIdentifier_eq {raw : Bytes} (given : raw ≠ []) (fallback : Bytes) :
    makeIdentifier raw fallback = (padName raw).map wordByte := by
  have underscore : wordByte 95 = 95 := by decide
  cases raw with
  | nil => exact absurd rfl given
  | cons first rest =>
    simp only [makeIdentifier, List.map_cons, isDigitByte_wordByte, padName]
    split
    · simp only [List.map_cons, underscore]
    · rfl

/-- Names give one identifier exactly when they are alike. -/
theorem map_wordByte_eq_iff (a b : Bytes) :
    (padName a).map wordByte = (padName b).map wordByte ↔ Alike a b := by
  rw [← List.forall₂_eq_eq_eq, List.forall₂_map_left_iff, List.forall₂_map_right_iff, Alike]
  simp only [wordByte_eq_iff]

/-! ### Column names -/

/-- The name of a row's column: its own, or the fallback of its index. -/
def FieldRow.given (k : ℕ) (row : FieldRow) : Bytes :=
  if row.fieldName = [] then bytesOf "f" ++ decimal k else row.fieldName

theorem isDigitByte_of_mem_decimal {n : ℕ} {c : UInt8} (member : c ∈ decimal n) :
    isDigitByte c = true := by
  obtain ⟨digit, held, rfl⟩ := List.mem_map.mp member
  have range := Nat.isDigit_of_mem_toDigits (by decide) (by decide) held
  simp only [Char.isDigit, Bool.and_eq_true, decide_eq_true_eq] at range
  obtain ⟨low, high⟩ := range
  have low' : 48 ≤ digit.toNat := low
  have high' : digit.toNat ≤ 57 := high
  have value : digit.toUInt8.toNat = digit.toNat := by
    show digit.toNat % 256 = digit.toNat
    exact Nat.mod_eq_of_lt (by omega)
  simp only [isDigitByte, Bool.and_eq_true, decide_eq_true_eq, UInt8.le_iff_toNat_le, value]
  exact ⟨low', high'⟩

/-- A fallback name is an identifier already. -/
theorem map_wordByte_fallback (k : ℕ) :
    (padName (bytesOf "f" ++ decimal k)).map wordByte = bytesOf "f" ++ decimal k := by
  have letter : padName (bytesOf "f" ++ decimal k) = bytesOf "f" ++ decimal k := rfl
  have same : ∀ c ∈ bytesOf "f" ++ decimal k, wordByte c = id c := by
    intro c member
    rcases List.mem_append.mp member with front | digits
    · rw [List.mem_singleton.mp front]
      decide
    · rw [wordByte_eq,
        if_pos (isAlnumByte_of_isDigitByte (isDigitByte_of_mem_decimal digits)), id_eq]
  rw [letter, List.map_congr_left same, List.map_id]

/-- The name of a row's column is the identifier of its given name. -/
theorem FieldRow.name_column {row : FieldRow} {k : ℕ} {column : Column}
    (loaded : row.column k = some column) :
    column.name = (padName (row.given k)).map wordByte := by
  have name : column.name = makeIdentifier row.fieldName (bytesOf "f" ++ decimal k) := by
    unfold FieldRow.column at loaded
    split at loaded
    · cases loaded
    · cases loaded
      rfl
  rw [name, given]
  split
  · rename_i empty
    rw [empty, map_wordByte_fallback]
    rfl
  · rename_i own
    exact makeIdentifier_eq own _

/-- Protocols that are not positive have no columns. -/
theorem columns_loadFields_nonpos (rows : List FieldRow) {specs : Specs} {pid : Int32}
    (nonpos : pid ≤ 0) (fresh : specs.columns pid = []) :
    (loadFields specs rows).columns pid = [] := by
  induction rows generalizing specs with
  | nil => exact fresh
  | cons row rows ih =>
    refine ih ?_
    rw [loadField]
    split
    · exact fresh
    · rename_i positive
      simp only
      split
      · exact fresh
      · have other : pid ≠ row.dataProtoId.toInt32 := fun same => positive (same ▸ nonpos)
        rw [Specs.columns, AList.lookup_insert_ne other]
        exact fresh

/-- The given names of the columns of a protocol, in order. -/
def Tables.givenNames (tables : Tables) (pid : Int32) : List Bytes :=
  if pid ≤ 0 then [] else (acceptedRows pid tables.fields).mapIdx FieldRow.given

/-- **The column names of a protocol.** -/
theorem names_columns (tables : Tables) (pid : Int32) :
    (tables.specs.columns pid).map Column.name =
      (tables.givenNames pid).map fun name => (padName name).map wordByte := by
  rw [Tables.specs, Tables.givenNames]
  split
  · rename_i nonpos
    rw [columns_loadFields_nonpos tables.fields nonpos (columns_loadHeaders _ pid)]
    rfl
  · rename_i positive
    have loaded := columns_loadFields tables.fields (loadHeaders tables.headers)
      (Int32.not_le.mp positive) (columns_loadHeaders _ pid)
    refine List.ext_getElem? fun k => ?_
    have entry := congrArg (fun list : List (Option Column) => list[k]?) loaded
    simp only [List.getElem?_map, List.getElem?_mapIdx] at entry ⊢
    cases found : (acceptedRows pid tables.fields)[k]? with
    | none =>
      rw [found, Option.map_none, Option.map_eq_none_iff] at entry
      rw [entry]
      rfl
    | some row =>
      rw [found, Option.map_some, Option.map_eq_some_iff] at entry
      obtain ⟨column, here, same⟩ := entry
      rw [here, Option.map_some, Option.map_some, Option.map_some,
        FieldRow.name_column same.symm]

/-! ### The loaded names -/

/-- The names after `loadAll` are those of the loaded devices. -/
theorem map_loadAll {α : Type*} (f : Device → α) (blind : ∀ d, f d.unrouted = f d) (tables : Tables)
    (sorter : Sorter ℕ) : (tables.loadAll sorter).devices.map f = tables.devicesLoaded.map f := by
  have kept := congrArg (List.map f) (unrouted_rebuildIndexes sorter tables.devicesLoaded)
  rw [List.map_map, List.map_map] at kept
  have same : f ∘ Device.unrouted = f := funext blind
  rwa [same] at kept

/-- Identifiers are distinct when no two names are alike. -/
theorem nodup_identifiers_iff (names : List Bytes) :
    (names.map fun name => (padName name).map wordByte).Nodup ↔
      names.Pairwise fun a b => ¬ Alike a b := by
  rw [List.Nodup, List.pairwise_map]
  simp only [ne_eq, map_wordByte_eq_iff]

/-- The raw ids of the loaded devices, in order. -/
def Tables.rawIds (tables : Tables) : List Bytes :=
  (tables.devices.filter DeviceRow.isDevice).map DeviceRow.deviceId

theorem deviceIds_devicesLoaded (tables : Tables) :
    tables.devicesLoaded.map Device.deviceId =
      tables.rawIds.map fun name => (padName name).map wordByte := by
  rw [Tables.devicesLoaded, loadDevices_eq, Tables.rawIds, List.map_map]
  refine List.ext_getElem? fun k => ?_
  simp only [List.getElem?_map, List.getElem?_mapIdx]
  cases found : (tables.devices.filter DeviceRow.isDevice)[k]? with
  | none => rfl
  | some row =>
    have kept := (List.mem_filter.mp (List.mem_of_getElem? found)).2
    have given : row.deviceId ≠ [] := (of_decide_eq_true kept).1
    exact congrArg some (makeIdentifier_eq given _)

/-- The columns of the loaded devices are those of their protocols. -/
theorem columns_devicesLoaded (tables : Tables) :
    tables.devicesLoaded.map Device.columns =
      (tables.devices.filter DeviceRow.isDevice).map
        fun row => tables.specs.columns row.dataProtoId.toInt32 := by
  rw [Tables.devicesLoaded, loadDevices_eq]
  refine List.ext_getElem? fun k => ?_
  simp only [List.getElem?_map, List.getElem?_mapIdx]
  cases (tables.devices.filter DeviceRow.isDevice)[k]? with
  | none => rfl
  | some row => rfl

/-- The names of a table's columns: `ts`, then the fields. -/
theorem names_tableColumns (dev : Device) :
    (tableColumns dev).map Prod.fst = bytesOf "ts" :: dev.columns.map Column.name := by
  rw [tableColumns, List.map_cons, List.map_map]
  rfl

/-- **Distinct names after loading.** The table names are pairwise distinct, and so are the columns
of every table, exactly when no two configured names are alike; the statement that creates a table
has the device's name and these columns. -/
theorem loadAll_names (tables : Tables) (sorter : Sorter ℕ) :
    ((((tables.loadAll sorter).devices.map Device.deviceId).Nodup ∧
          ∀ dev ∈ (tables.loadAll sorter).devices, ((tableColumns dev).map Prod.fst).Nodup) ↔
        (tables.rawIds.Pairwise (fun a b => ¬ Alike a b) ∧
          ∀ row ∈ tables.devices, row.isDevice = true →
            (bytesOf "ts" :: tables.givenNames row.dataProtoId.toInt32).Pairwise
              fun a b => ¬ Alike a b)) ∧
      ∀ dev ∈ (tables.loadAll sorter).devices,
        createTableSql dev =
          bytesOf "CREATE TABLE IF NOT EXISTS " ++ dev.deviceId ++ bytesOf " (" ++
            (bytesOf ", ").intercalate
              ((tableColumns dev).map fun column => column.1 ++ bytesOf " " ++ column.2) ++
            bytesOf ")" := by
  have stamp : bytesOf "ts" = (padName (bytesOf "ts")).map wordByte := by decide
  have ids : ((tables.loadAll sorter).devices.map Device.deviceId).Nodup ↔
      tables.rawIds.Pairwise fun a b => ¬ Alike a b := by
    rw [map_loadAll Device.deviceId (fun _ => rfl), deviceIds_devicesLoaded, nodup_identifiers_iff]
  have perTable : (∀ dev ∈ (tables.loadAll sorter).devices,
        ((tableColumns dev).map Prod.fst).Nodup) ↔
      ∀ columns ∈ (tables.loadAll sorter).devices.map Device.columns,
        (bytesOf "ts" :: columns.map Column.name).Nodup := by
    simp only [names_tableColumns, List.forall_mem_map]
  have perRow : ∀ pid, (bytesOf "ts" :: (tables.specs.columns pid).map Column.name).Nodup ↔
      (bytesOf "ts" :: tables.givenNames pid).Pairwise fun a b => ¬ Alike a b := by
    intro pid
    rw [names_columns, ← nodup_identifiers_iff, List.map_cons, ← stamp]
  refine ⟨?_, fun dev _ => createTableSql_eq dev⟩
  rw [ids, perTable, map_loadAll Device.columns (fun _ => rfl), columns_devicesLoaded]
  simp only [List.forall_mem_map, List.mem_filter, and_imp, perRow]

/-- Two devices and two fields, with different names. -/
def pumpTables : Tables where
  fields :=
    [{ dataProtoId := 1, fieldName := bytesOf "oil.temp", fieldType := 1 },
     { dataProtoId := 1, fieldName := bytesOf "oil temp", fieldType := 1, byteOffset := 2 }]
  devices :=
    [{ deviceId := bytesOf "pump-1", deviceIp := "10.0.0.1".toList, dataProtoId := 1 },
     { deviceId := bytesOf "pump.1", deviceIp := "10.0.0.2".toList, dataProtoId := 1 }]

/-- **Distinct names become one table name and one column name.** -/
theorem loadAll_names_collide :
    (pumpTables.devices.map DeviceRow.deviceId).Nodup ∧
      (pumpTables.fields.map fun row => (row.dataProtoId, row.fieldName)).Nodup ∧
      (pumpTables.loadAll (Sorter.insertion ℕ)).devices.map Device.deviceId =
        [bytesOf "pump_1", bytesOf "pump_1"] ∧
      ∀ dev ∈ (pumpTables.loadAll (Sorter.insertion ℕ)).devices,
        (tableColumns dev).map Prod.fst =
          [bytesOf "ts", bytesOf "oil_temp", bytesOf "oil_temp"] := by
  decide

end EtherAdapter
