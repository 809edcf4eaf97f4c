/-
**JSON keys: which column a configured field name reaches.**

A key is compared with the column's name, which `makeIdentifier` made out of the field name, and the
first column of that name takes the value.

* `storeMembers_getElem?` — a cell sees only the members whose key reaches its column.
* `findIdx?_key_iff` — a field name reaches its own column exactly when it is an identifier already
  and no field before it has a name alike.
* **`parseJsonFields_key`** — a member with that key sets the cell of its field, and of no other, to
  its number, whatever the number is, exactly when in addition no later member has a key that the
  parser reads as the same name.
-/

import EtherAdapter.Http.Json
import EtherAdapter.Model.Http
import EtherAdapter.Writer.Integers

namespace EtherAdapter

open Grouping

/-! ### Cells -/

/-- What a member does to the cell of column `j`. -/
def storeAt (columns : List Column) (m : JsonMember) (j : ℕ) (cell : Cell) : Cell :=
  if columns.findIdx? (fun f => f.name = JsonString.read m.key) = some j then
    match columns[j]? with
    | none => cell
    | some f => f.store m.value.value cell
  else cell

/-- What some members do to it. -/
def cellAfter (columns : List Column) (members : List JsonMember) (j : ℕ) (cell : Cell) : Cell :=
  members.foldl (fun cell m => storeAt columns m j cell) cell

section Cells

variable (columns : List Column) (j : ℕ)

theorem storeMember_getElem? (m : JsonMember) (state : ℕ × List Cell) :
    (storeMember columns (JsonString.read m.key) m.value.value state).2[j]? =
      (state.2[j]?).map (storeAt columns m j) := by
  unfold storeMember storeAt
  cases columns.findIdx? (fun f => f.name = JsonString.read m.key) with
  | none => simp only [reduceCtorEq, if_false, Option.map_id']
  | some k =>
    simp only [Option.some.injEq]
    by_cases own : k = j
    · simp only [own, if_true]
      cases columns[j]? with
      | none => simp only [Option.map_id']
      | some f => simp only [List.getElem?_modify, if_true, Option.map_eq_map]
    · simp only [own, if_false, Option.map_id']
      cases columns[k]? with
      | none => rfl
      | some f =>
        simp only [List.getElem?_modify, own, if_false, Option.map_eq_map, Option.map_id']

/-- **A cell sees only the members whose key reaches its column.** -/
theorem storeMembers_getElem? (members : List JsonMember) (state : ℕ × List Cell) :
    (storeMembers columns members state).2[j]? =
      (state.2[j]?).map (cellAfter columns members j) := by
  induction members generalizing state with
  | nil => exact Option.map_id'.symm
  | cons m members ih =>
    show (storeMembers columns members _).2[j]? = _
    rw [ih, storeMember_getElem?, Option.map_map]
    rfl

variable {columns j}

theorem storeAt_of_ne {m : JsonMember}
    (other : columns.findIdx? (fun f => f.name = JsonString.read m.key) ≠ some j) (cell : Cell) :
    storeAt columns m j cell = cell := if_neg other

theorem storeAt_own {m : JsonMember} {f : Column} (column : columns[j]? = some f)
    (own : columns.findIdx? (fun f => f.name = JsonString.read m.key) = some j) (cell : Cell) :
    storeAt columns m j cell = f.store m.value.value cell := by
  rw [storeAt, if_pos own, column]

theorem cellAfter_append (front back : List JsonMember) (cell : Cell) :
    cellAfter columns (front ++ back) j cell =
      cellAfter columns back j (cellAfter columns front j cell) := by
  rw [cellAfter, List.foldl_append]
  rfl

/-- Members that do not reach the column leave its cell as it is. -/
theorem cellAfter_of_ne {members : List JsonMember}
    (others : ∀ m ∈ members,
      columns.findIdx? (fun f => f.name = JsonString.read m.key) ≠ some j) (cell : Cell) :
    cellAfter columns members j cell = cell := by
  induction members generalizing cell with
  | nil => rfl
  | cons m members ih =>
    show cellAfter columns members j (storeAt columns m j cell) = cell
    rw [storeAt_of_ne (others m List.mem_cons_self),
      ih fun m' member => others m' (List.mem_cons_of_mem _ member)]

/-- Members that do reach it make it NULL, or give it a value of their own. -/
theorem cellAfter_cases {f : Column} (column : columns[j]? = some f) {members : List JsonMember}
    {m : JsonMember} (member : m ∈ members)
    (own : columns.findIdx? (fun f => f.name = JsonString.read m.key) = some j) :
    (∀ cell, (cellAfter columns members j cell).isNull = true) ∨
      ∃ last, ∀ cell, cellAfter columns members j cell = last := by
  induction members using List.reverseRecOn with
  | nil => cases member
  | append_singleton members last ih =>
    have after : ∀ cell, cellAfter columns (members ++ [last]) j cell =
        storeAt columns last j (cellAfter columns members j cell) :=
      cellAfter_append members [last]
    by_cases reaches : columns.findIdx? (fun f => f.name = JsonString.read last.key) = some j
    · cases value : last.value.value with
      | none =>
        refine Or.inl fun cell => ?_
        rw [after, storeAt_own column reaches, value]
        rfl
      | some num =>
        refine Or.inr ⟨f.ofNumber num, fun cell => ?_⟩
        rw [after, storeAt_own column reaches, value]
        rfl
    · have earlier : m ∈ members := by
        rcases List.mem_append.mp member with front | back
        · exact front
        · exact absurd (List.mem_singleton.mp back ▸ own) reaches
      rcases ih earlier with null | ⟨kept, same⟩
      · exact Or.inl fun cell => by rw [after, storeAt_of_ne reaches, null]
      · exact Or.inr ⟨kept, fun cell => by rw [after, storeAt_of_ne reaches, same]⟩

end Cells

/-! ### Two numbers -/

theorem zero_digits : AllDigits [48] := by
  intro c member
  rw [List.mem_singleton.mp member]
  rfl

theorem one_digits : AllDigits [49] := by
  intro c member
  rw [List.mem_singleton.mp member]
  rfl

theorem one_no_leading_zero (head : ([49] : Bytes).head? = some 48) : ([49] : Bytes) = [48] := by
  cases head

theorem no_digits : AllDigits [] := fun _ member => absurd member List.not_mem_nil

def JsonNumber.zero : JsonNumber where
  whole := [48]
  some_digit := List.cons_ne_nil _ _
  all_digits := zero_digits
  no_leading_zero := fun _ => rfl
  fraction_digits := no_digits

def JsonNumber.one : JsonNumber where
  whole := [49]
  some_digit := List.cons_ne_nil _ _
  all_digits := one_digits
  no_leading_zero := one_no_leading_zero
  fraction_digits := no_digits

/-- Every column tells 0 and 1 apart. -/
theorem Column.ofNumber_zero_ne_one (f : Column) :
    f.ofNumber JsonNumber.zero.double ≠ f.ofNumber JsonNumber.one.double := by
  have zero : JsonNumber.zero.double = 0 := by decide +kernel
  have one : JsonNumber.one.double = 0x3FF0000000000000 := by decide +kernel
  have rounded : llround 0 = 0 ∧ llround 0x3FF0000000000000 = 1 := by decide +kernel
  rw [zero, one, Column.ofNumber, Column.ofNumber]
  cases f.asDouble with
  | true =>
    simp only [if_true]
    decide
  | false =>
    simp only [Bool.false_eq_true, if_false]
    split
    · decide
    · rw [rounded.1, rounded.2]
      decide

/-! ### Keys -/

/-- A name that `makeIdentifier` keeps. -/
def IsIdentifier (name : Bytes) : Prop := name ≠ [] ∧ (padName name).map wordByte = name

/-- The first column of a name has that name. -/
theorem name_of_findIdx? {columns : List Column} {key : Bytes} {k : ℕ} {f : Column}
    (found : columns.findIdx? (fun f => f.name = key) = some k) (column : columns[k]? = some f) :
    f.name = key := by
  obtain ⟨within, same, _⟩ := List.findIdx?_eq_some_iff_getElem.mp found
  rw [(List.getElem?_eq_some_iff.mp column).2] at same
  exact of_decide_eq_true same

/-- A key without escapes is read as it is spelled. -/
theorem read_of_render {key : JsonString} {name : Bytes} (spelled : JsonString.render key = name)
    (plain : ∀ c ∈ name, c ≠ 92) : JsonString.read key = name := by
  induction key generalizing name with
  | nil => exact spelled
  | cons item key ih =>
    rw [JsonString.render, List.flatMap_cons] at spelled
    cases item with
    | plain c quote slash =>
      rw [StringItem.render, List.singleton_append] at spelled
      rw [← spelled] at plain ⊢
      exact congrArg (c :: ·) (ih rfl fun d member => plain d (List.mem_cons_of_mem _ member))
    | escaped c =>
      rw [StringItem.render, List.cons_append] at spelled
      exact absurd rfl (plain 92 (by rw [← spelled]; exact List.mem_cons_self))

section Loaded

variable (tables : Tables) (sorter : Sorter ℕ) {dev : Device}
  (loaded : dev ∈ (tables.loadAll sorter).devices) (positive : 0 < dev.dataProtoId) {k : ℕ}
  {row : FieldRow} (accepted : (acceptedRows dev.dataProtoId tables.fields)[k]? = some row)

/-- No field before field `k` has a name alike. -/
def FirstOfItsName (rows : List FieldRow) (k : ℕ) (name : Bytes) : Prop :=
  ∀ j r, j < k → rows[j]? = some r → ¬ Alike (r.given j) name

include loaded positive accepted

/-- **A field name reaches its own column** exactly when it is an identifier already and no field
before it has a name alike. -/
theorem findIdx?_key_iff :
    dev.columns.findIdx? (fun f => f.name = row.fieldName) = some k ↔
      IsIdentifier row.fieldName ∧
        FirstOfItsName (acceptedRows dev.dataProtoId tables.fields) k row.fieldName := by
  obtain ⟨f, column, here⟩ := columns_loadAll tables sorter loaded positive accepted
  have own := FieldRow.name_column column
  have inside : k < (acceptedRows dev.dataProtoId tables.fields).length :=
    (List.getElem?_eq_some_iff.mp accepted).1
  -- the name of the column is the field name exactly when that is an identifier
  have kept : f.name = row.fieldName ↔ IsIdentifier row.fieldName := by
    rw [own, IsIdentifier, FieldRow.given]
    by_cases empty : row.fieldName = []
    · rw [if_pos empty, map_wordByte_fallback, empty]
      constructor
      · intro same
        cases same
      · intro other
        exact absurd rfl other.1
    · rw [if_neg empty]
      exact ⟨fun same => ⟨empty, same⟩, And.right⟩
  have earlier : ∀ {j : ℕ} {r : FieldRow}, IsIdentifier row.fieldName →
      (acceptedRows dev.dataProtoId tables.fields)[j]? = some r →
      ∃ g, dev.columns[j]? = some g ∧ (g.name = row.fieldName ↔ Alike (r.given j) row.fieldName) := by
    intro j r identifier found
    obtain ⟨g, column', there⟩ := columns_loadAll tables sorter loaded positive found
    refine ⟨g, there, ?_⟩
    rw [FieldRow.name_column column', ← map_wordByte_eq_iff, identifier.2]
  rw [List.findIdx?_eq_some_iff_getElem]
  constructor
  · rintro ⟨within, same, before⟩
    rw [(List.getElem?_eq_some_iff.mp here).2, decide_eq_true_eq] at same
    have identifier := kept.mp same
    refine ⟨identifier, fun j r less found alike => ?_⟩
    obtain ⟨g, there, name⟩ := earlier identifier found
    have other := before j less
    rw [(List.getElem?_eq_some_iff.mp there).2, decide_eq_true_eq] at other
    exact other (name.mpr alike)
  · rintro ⟨identifier, first⟩
    obtain ⟨within, at_k⟩ := List.getElem?_eq_some_iff.mp here
    refine ⟨within, ?_, fun j less => ?_⟩
    · rw [at_k, decide_eq_true_eq]
      exact kept.mpr identifier
    · have found := List.getElem?_eq_getElem (Nat.lt_trans less inside)
      obtain ⟨g, there, name⟩ := earlier identifier found
      rw [(List.getElem?_eq_some_iff.mp there).2, decide_eq_true_eq]
      exact fun same => first j _ less found (name.mp same)

end Loaded

/-! ### The number of a member -/

/-- A member with a number in the place of its value. -/
def JsonMember.withNumber (m : JsonMember) (n : JsonNumber) : JsonMember :=
  { m with value := .number n }

/-- A flat object with one member whose number is left open. -/
structure OpenObject where
  lead : Spaces
  inner : Spaces
  before : List JsonMember
  member : JsonMember
  after : List JsonMember
  trail : Spaces

namespace OpenObject

def withNumber (o : OpenObject) (n : JsonNumber) : FlatObject :=
  ⟨o.lead, o.inner, o.before ++ o.member.withNumber n :: o.after, o.trail⟩

def without (o : OpenObject) : FlatObject := ⟨o.lead, o.inner, o.before ++ o.after, o.trail⟩

/-- **The member sets the cell of field `k`, and of no other, to its number**, whatever the number
is. -/
def SetsOnly (o : OpenObject) (columns : List Column) (k : ℕ) (f : Column) : Prop :=
  ∀ n, ∃ matched cells matched' others,
    parseJsonFields (o.withNumber n).render columns (nullCells columns) = some (matched, cells) ∧
      parseJsonFields o.without.render columns (nullCells columns) = some (matched', others) ∧
      cells[k]? = some (f.ofNumber n.double) ∧ ∀ j, j ≠ k → cells[j]? = others[j]?

variable {o : OpenObject} {columns : List Column} {k : ℕ} {f : Column}

/-- In terms of the cells. -/
theorem setsOnly_iff (column : columns[k]? = some f) :
    o.SetsOnly columns k f ↔ ∀ n,
      cellAfter columns (o.withNumber n).members k ⟨0, true⟩ = f.ofNumber n.double ∧
        ∀ j, j ≠ k → ∀ g, columns[j]? = some g →
          cellAfter columns (o.withNumber n).members j ⟨0, true⟩ =
            cellAfter columns o.without.members j ⟨0, true⟩ := by
  have null : ∀ {j : ℕ} {g : Column}, columns[j]? = some g →
      (nullCells columns)[j]? = some ⟨0, true⟩ := by
    intro j g found
    exact List.getElem?_replicate_of_lt (List.getElem?_eq_some_iff.mp found).1
  have none : ∀ {j : ℕ}, columns[j]? = none → (nullCells columns)[j]? = none := by
    intro j missing
    rw [List.getElem?_eq_none_iff] at missing ⊢
    rwa [nullCells, List.length_replicate]
  refine forall_congr' fun n => ?_
  simp only [parseJsonFields_render, Option.some.injEq]
  constructor
  · rintro ⟨matched, cells, matched', others, parsed, parsed', own, rest⟩
    have same := congrArg Prod.snd parsed
    have same' := congrArg Prod.snd parsed'
    simp only at same same'
    rw [← same, storeMembers_getElem?, null column, Option.map_some, Option.some.injEq] at own
    refine ⟨own, fun j apart g found => ?_⟩
    have cell := rest j apart
    rw [← same, ← same', storeMembers_getElem?, storeMembers_getElem?, null found] at cell
    exact Option.some.inj cell
  · rintro ⟨own, rest⟩
    refine ⟨(storeMembers columns (o.withNumber n).members (0, nullCells columns)).1,
      (storeMembers columns (o.withNumber n).members (0, nullCells columns)).2,
      (storeMembers columns o.without.members (0, nullCells columns)).1,
      (storeMembers columns o.without.members (0, nullCells columns)).2, Prod.mk.eta.symm,
      Prod.mk.eta.symm, ?_, fun j apart => ?_⟩
    · rw [storeMembers_getElem?, null column, Option.map_some, own]
    · rw [storeMembers_getElem?, storeMembers_getElem?]
      cases found : columns[j]? with
      | none => rw [none found]; rfl
      | some g => rw [null found, Option.map_some, Option.map_some, rest j apart g found]

/-- The open member, between the others. -/
theorem cellAfter_withNumber (n : JsonNumber) (j : ℕ) (cell : Cell) :
    cellAfter columns (o.withNumber n).members j cell =
      cellAfter columns o.after j
        (storeAt columns (o.member.withNumber n) j (cellAfter columns o.before j cell)) := by
  rw [withNumber, cellAfter_append]
  rfl

/-- It sets its cell exactly when its key reaches the column, and no later one does. -/
theorem setsOnly_iff_reaches (column : columns[k]? = some f) :
    o.SetsOnly columns k f ↔
      columns.findIdx? (fun f => f.name = JsonString.read o.member.key) = some k ∧
        ∀ m ∈ o.after, columns.findIdx? (fun f => f.name = JsonString.read m.key) ≠ some k := by
  rw [setsOnly_iff column]
  have differ := f.ofNumber_zero_ne_one
  constructor
  · intro sets
    have zero := (sets .zero).1
    have one := (sets .one).1
    rw [cellAfter_withNumber] at zero one
    have reaches : columns.findIdx? (fun f => f.name = JsonString.read o.member.key) = some k := by
      by_contra other
      rw [storeAt_of_ne (m := o.member.withNumber _) other] at zero
      rw [storeAt_of_ne (m := o.member.withNumber _) other] at one
      exact differ (zero.symm.trans one)
    refine ⟨reaches, fun m member own => ?_⟩
    rcases cellAfter_cases column member own with null | ⟨last, same⟩
    · have missing := congrArg Cell.isNull zero
      rw [null] at missing
      cases missing
    · rw [same] at zero one
      exact differ (zero.symm.trans one)
  · rintro ⟨reaches, later⟩ n
    refine ⟨?_, fun j apart g _ => ?_⟩
    · rw [cellAfter_withNumber, storeAt_own (m := o.member.withNumber n) column reaches,
        cellAfter_of_ne later]
      rfl
    · have other : columns.findIdx? (fun f => f.name = JsonString.read o.member.key) ≠ some j := by
        rw [reaches]
        exact fun same => apart (Option.some.inj same).symm
      rw [cellAfter_withNumber, storeAt_of_ne (m := o.member.withNumber n) other, without,
        cellAfter_append]

end OpenObject

/-- **The keys of a JSON object are the configured field names, with exceptions.** A member whose
key is spelled as the name of an accepted row sets the cell of that field, and of no other, exactly
when the name is an identifier, is the first of its kind and is not read from a later key again. -/
theorem parseJsonFields_key (tables : Tables) (sorter : Sorter ℕ) {dev : Device}
    (loaded : dev ∈ (tables.loadAll sorter).devices) (positive : 0 < dev.dataProtoId) {k : ℕ}
    {row : FieldRow} (accepted : (acceptedRows dev.dataProtoId tables.fields)[k]? = some row)
    (plain : ∀ c ∈ row.fieldName, c ≠ 34 ∧ c ≠ 92) {o : OpenObject}
    (spelled : JsonString.render o.member.key = row.fieldName) :
    ∃ f, row.column k = some f ∧
      (o.SetsOnly dev.columns k f ↔
        IsIdentifier row.fieldName ∧
          FirstOfItsName (acceptedRows dev.dataProtoId tables.fields) k row.fieldName ∧
          ∀ m ∈ o.after, JsonString.read m.key ≠ row.fieldName) := by
  obtain ⟨f, column, here⟩ := columns_loadAll tables sorter loaded positive accepted
  have key := read_of_render spelled fun c member => (plain c member).2
  have reaches := findIdx?_key_iff tables sorter loaded positive accepted
  refine ⟨f, column, ?_⟩
  rw [OpenObject.setsOnly_iff_reaches here, key, reaches, and_assoc]
  refine and_congr_right fun identifier => and_congr_right fun first => ?_
  have own := reaches.mpr ⟨identifier, first⟩
  refine forall₂_congr fun m member => not_congr ?_
  constructor
  · intro also
    rw [← name_of_findIdx? also here, name_of_findIdx? own here]
  · intro same
    rw [same, own]

/-! ### A tank -/

/-- An http device with three fields; two of the names become one column name. -/
def tankTables : Tables where
  fields :=
    [{ dataProtoId := 1, fieldName := bytesOf "oil-temp", fieldType := 1 },
     { dataProtoId := 1, fieldName := bytesOf "oil_temp", fieldType := 1 },
     { dataProtoId := 1, fieldName := bytesOf "level", fieldType := 1 }]
  devices :=
    [{ deviceId := bytesOf "tank", deviceIp := "10.0.0.1".toList, connProto := "http(3)".toList
       localServerPort := 8080, dataProtoId := 1 }]

def tank : Device := deviceAt (tankTables.loadAll (Sorter.insertion ℕ)).devices 0

/-- An object with one member, of value 1. -/
def tankBody (key : String) : Bytes := 123 :: quoted (bytesOf key) ++ bytesOf ":1" ++ [125]

/-- **One name reaches no column, the other one the wrong column.** -/
theorem parseJsonFields_key_missed :
    (tankTables.fields.map FieldRow.fieldName).Nodup ∧
      parseJsonFields (tankBody "oil-temp") tank.columns (nullCells tank.columns) =
        some (0, [⟨0, true⟩, ⟨0, true⟩, ⟨0, true⟩]) ∧
      parseJsonFields (tankBody "oil_temp") tank.columns (nullCells tank.columns) =
        some (1, [⟨1, false⟩, ⟨0, true⟩, ⟨0, true⟩]) := by
  decide +kernel

/-- A string without escapes, where its bytes allow it. -/
def JsonString.ofBytes (text : Bytes) : JsonString :=
  text.map fun c => if ok : c ≠ 34 ∧ c ≠ 92 then .plain c ok.1 ok.2 else .escaped c

/-- `{"level":…}`. -/
def levelObject : OpenObject where
  lead := .none
  inner := .none
  before := []
  member := ⟨.none, JsonString.ofBytes (bytesOf "level"), .none, .none, .null, .none⟩
  after := []
  trail := .none

/-- The third name reaches its own column. -/
theorem parseJsonFields_key_level :
    ∃ f, tank.columns[2]? = some f ∧ levelObject.SetsOnly tank.columns 2 f := by
  have loaded : tank ∈ (tankTables.loadAll (Sorter.insertion ℕ)).devices :=
    List.mem_of_getElem? (i := 0) rfl
  have rows : acceptedRows tank.dataProtoId tankTables.fields = tankTables.fields := by decide
  have accepted : (acceptedRows tank.dataProtoId tankTables.fields)[2]? =
      some { dataProtoId := 1, fieldName := bytesOf "level", fieldType := 1 } := by
    rw [rows]
    rfl
  have first : FirstOfItsName (acceptedRows tank.dataProtoId tankTables.fields) 2
      (bytesOf "level") := by
    rw [rows]
    intro j r less found alike
    have longer : (padName (r.given j)).length = 8 := by
      obtain rfl | rfl : j = 0 ∨ j = 1 := by omega
      · rw [← Option.some.inj found]
        decide
      · rw [← Option.some.inj found]
        decide
    exact absurd (alike.length_eq.symm.trans longer) (by decide)
  have plain : ∀ c ∈ bytesOf "level", c ≠ 34 ∧ c ≠ 92 := by
    have all : (bytesOf "level").all (fun c => c ≠ 34 ∧ c ≠ 92) = true := by decide
    exact fun c member => of_decide_eq_true (List.all_eq_true.mp all c member)
  obtain ⟨f, column, sets⟩ := parseJsonFields_key tankTables (Sorter.insertion ℕ) loaded (by decide)
    accepted (o := levelObject) plain (by decide)
  have identifier : IsIdentifier (bytesOf "level") := by
    unfold IsIdentifier
    decide
  refine ⟨f, ?_, sets.mpr ⟨identifier, first, fun _ later => absurd later List.not_mem_nil⟩⟩
  rw [← column]
  rfl

end EtherAdapter
