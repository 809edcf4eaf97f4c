/-
**What a flat JSON object leaves in the cells.**

The strings of the objects here have the two-character escapes for quote, backslash, slash and the
letters n, r and t, and no raw control character; `decode` is their meaning.

* `PlainObject` — such an object, each member with its decoded name.
* `storeMembers_fst`, `cellAfter_last` — the count of the members that reach a column, and the last
  member of a name.
* **`parseJsonFields_plain`** — every such object is read: the first column of a name takes the
  value of the last member of that name, and all other cells stay as they are.
-/

import EtherAdapter.Http.Keys

namespace EtherAdapter

/-! ### Strings -/

/-- What a two-character escape stands for. -/
def decodeEscape : UInt8 → Option UInt8
  | 34 => some 34
  | 92 => some 92
  | 47 => some 47
  | 110 => some 10
  | 114 => some 13
  | 116 => some 9
  | _ => none

def StringItem.decode : StringItem → Option UInt8
  | .plain c _ _ => if 32 ≤ c then some c else none
  | .escaped c => decodeEscape c

/-- The meaning of a string, where it has no other escapes. -/
def JsonString.decode : JsonString → Option Bytes
  | [] => some []
  | item :: text =>
    match item.decode, JsonString.decode text with
    | some c, some content => some (c :: content)
    | _, _ => none

theorem unescape_of_decodeEscape {c d : UInt8} (decoded : decodeEscape c = some d) :
    unescape c = d := by
  unfold decodeEscape at decoded
  split at decoded
  · cases decoded; rfl
  · cases decoded; rfl
  · cases decoded; rfl
  · cases decoded; rfl
  · cases decoded; rfl
  · cases decoded; rfl
  · cases decoded

theorem StringItem.read_of_decode {item : StringItem} {c : UInt8} (decoded : item.decode = some c) :
    item.read = c := by
  cases item with
  | plain d quote slash =>
    rw [decode] at decoded
    exact Option.some.inj (Option.ite_none_right_eq_some.mp decoded).2
  | escaped d => exact unescape_of_decodeEscape decoded

/-- **A string is read as what it means.** -/
theorem JsonString.read_of_decode {text : JsonString} {content : Bytes}
    (decoded : JsonString.decode text = some content) : JsonString.read text = content := by
  induction text generalizing content with
  | nil => exact Option.some.inj decoded
  | cons item text ih =>
    rw [decode] at decoded
    split at decoded
    · rename_i c rest first later
      rw [← Option.some.inj decoded, ← ih later, ← StringItem.read_of_decode first]
      rfl
    · cases decoded

/-! ### Objects -/

/-- **A member with its name**: the key decoded. -/
structure PlainMember extends JsonMember where
  name : Bytes
  name_eq : JsonString.decode key = some name
  text_ok : ∀ content, value = .text content → (JsonString.decode content).isSome

structure PlainObject where
  lead : Spaces
  inner : Spaces
  members : List PlainMember
  trail : Spaces

def PlainObject.toFlat (o : PlainObject) : FlatObject :=
  ⟨o.lead, o.inner, o.members.map PlainMember.toJsonMember, o.trail⟩

def PlainObject.render (o : PlainObject) : Bytes := o.toFlat.render

/-- The last member of a name. -/
def PlainObject.lastNamed (o : PlainObject) (name : Bytes) : Option PlainMember :=
  (o.members.filter fun m => m.name = name).getLast?

/-- The last member whose key is read as a name. -/
def FlatObject.lastRead (o : FlatObject) (name : Bytes) : Option JsonMember :=
  (o.members.filter fun m => JsonString.read m.key = name).getLast?

/-- Where keys are decoded, it is the last member of the name. -/
theorem PlainObject.lastRead_toFlat (o : PlainObject) (name : Bytes) :
    o.toFlat.lastRead name = (o.lastNamed name).map PlainMember.toJsonMember := by
  have names : ((o.members.map PlainMember.toJsonMember).filter fun m =>
      JsonString.read m.key = name) =
        (o.members.filter fun m => m.name = name).map PlainMember.toJsonMember := by
    rw [List.filter_map]
    refine congrArg _ (List.filter_congr fun m _ => ?_)
    simp only [Function.comp, JsonString.read_of_decode m.name_eq]
  show ((o.members.map PlainMember.toJsonMember).filter _).getLast? = _
  rw [names, List.getLast?_map]
  rfl

/-- Column `k` is the first one of its name. -/
def FirstColumn (columns : List Column) (k : ℕ) (name : Bytes) : Prop :=
  columns.findIdx? (fun f => f.name = name) = some k

/-! ### The count -/

theorem storeMembers_fst (columns : List Column) (members : List JsonMember)
    (state : ℕ × List Cell) :
    (storeMembers columns members state).1 =
      state.1 + members.countP fun m => (JsonString.read m.key) ∈ columns.map Column.name := by
  induction members generalizing state with
  | nil => rfl
  | cons m members ih =>
    have one : (storeMember columns (JsonString.read m.key) m.value.value state).1 =
        state.1 + if (JsonString.read m.key) ∈ columns.map Column.name then 1 else 0 := by
      unfold storeMember
      cases found : columns.findIdx? (fun f => f.name = JsonString.read m.key) with
      | none =>
        rw [if_neg]
        · rfl
        · rintro member
          obtain ⟨f, there, same⟩ := List.mem_map.mp member
          have other := List.findIdx?_eq_none_iff.mp found f there
          exact absurd same (of_decide_eq_false other)
      | some k =>
        obtain ⟨within, same, _⟩ := List.findIdx?_eq_some_iff_getElem.mp found
        rw [if_pos]
        exact List.mem_map.mpr ⟨_, List.getElem_mem within, of_decide_eq_true same⟩
    show (storeMembers columns members _).1 = _
    rw [ih, one, List.countP_cons]
    simp only [decide_eq_true_eq]
    omega

/-! ### The cells -/

section Cells

variable {columns : List Column} {k : ℕ} {f : Column} (column : columns[k]? = some f)

include column

/-- The first column of its name is reached by the members of that name. -/
theorem findIdx?_eq_some_iff_of_first (first : FirstColumn columns k f.name) (key : Bytes) :
    columns.findIdx? (fun f => f.name = key) = some k ↔ key = f.name := by
  constructor
  · intro found
    exact (name_of_findIdx? found column).symm
  · rintro rfl
    exact first

/-- **The last member that is read as the name decides.** -/
theorem cellAfter_last (first : FirstColumn columns k f.name) (members : List JsonMember)
    (cell : Cell) :
    match (members.filter fun m => JsonString.read m.key = f.name).getLast? with
    | none => cellAfter columns members k cell = cell
    | some m => ∃ before, cellAfter columns members k cell = f.store m.value.value before := by
  induction members using List.reverseRecOn with
  | nil => rfl
  | append_singleton members m ih =>
    have after : cellAfter columns (members ++ [m]) k cell =
        storeAt columns m k (cellAfter columns members k cell) := cellAfter_append members [m] cell
    have reaches := findIdx?_eq_some_iff_of_first column first (JsonString.read m.key)
    rw [List.filter_append, List.filter_singleton, after]
    by_cases own : JsonString.read m.key = f.name
    · simp only [own, decide_true, cond_true, List.getLast?_concat]
      exact ⟨_, storeAt_own column (reaches.mpr own) _⟩
    · simp only [own, decide_false, cond_false, List.append_nil, storeAt_of_ne (mt reaches.mp own)]
      exact ih

/-- A column behind another one of its name is never reached. -/
theorem cellAfter_later (later : ¬ FirstColumn columns k f.name) (members : List JsonMember)
    (cell : Cell) : cellAfter columns members k cell = cell := by
  refine cellAfter_of_ne (fun m _ found => later ?_) cell
  rw [FirstColumn, name_of_findIdx? found column]
  exact found

variable {o : FlatObject} {cells : List Cell}

/-- The cell of a column that a member names. -/
theorem getElem?_storeMembers_last (first : FirstColumn columns k f.name) {m : JsonMember}
    (last : o.lastRead f.name = some m) (inside : k < cells.length) :
    ∃ before, (storeMembers columns o.members (0, cells)).2[k]? =
      some (f.store m.value.value before) := by
  have after := cellAfter_last column first o.members cells[k]
  rw [FlatObject.lastRead] at last
  simp only [last] at after
  obtain ⟨before, same⟩ := after
  refine ⟨before, ?_⟩
  rw [storeMembers_getElem?, List.getElem?_eq_getElem inside, Option.map_some, same]

/-- The cell of a column that no member names, or that is behind another one of its name. -/
theorem getElem?_storeMembers_unnamed
    (unnamed : o.lastRead f.name = none ∨ ¬ FirstColumn columns k f.name) :
    (storeMembers columns o.members (0, cells)).2[k]? = cells[k]? := by
  have same : ∀ cell, cellAfter columns o.members k cell = cell := by
    intro cell
    by_cases first : FirstColumn columns k f.name
    · have after := cellAfter_last column first o.members cell
      have last := unnamed.resolve_right (not_not_intro first)
      rw [FlatObject.lastRead] at last
      simp only [last] at after
      exact after
    · exact cellAfter_later column first _ cell
  rw [storeMembers_getElem?]
  cases cells[k]? with
  | none => rfl
  | some cell => rw [Option.map_some, same]

end Cells

/-! ### Reading an object -/

/-- **What an object leaves**: the count of its members that name a column, and the cells. -/
structure PlainObject.Leaves (o : PlainObject) (columns : List Column) (cells : List Cell)
    (matched : ℕ) (after : List Cell) : Prop where
  matched_eq : matched = o.members.countP fun m => m.name ∈ columns.map Column.name
  size : after.length = cells.length
  /-- A number, `true` or `false` sets the cell. -/
  number : ∀ k f m num, columns[k]? = some f → FirstColumn columns k f.name →
    o.lastNamed f.name = some m → m.value.value = some num →
      after[k]? = some (f.ofNumber num) ∧ (f.ofNumber num).isNull = false
  /-- A string or `null` makes it NULL. -/
  null : ∀ k f m, columns[k]? = some f → FirstColumn columns k f.name →
    o.lastNamed f.name = some m → m.value.value = none →
      ∃ cell, after[k]? = some cell ∧ cell.isNull = true
  /-- A column that no member names, or that is not the first of its name, stays as it is. -/
  unnamed : ∀ k f, columns[k]? = some f →
    o.lastNamed f.name = none ∨ ¬ FirstColumn columns k f.name →
      after[k]? = cells[k]? ∧ ∃ cell, after[k]? = some cell ∧ cell.isNull = true

/-- The columns keep their number. -/
theorem length_storeMembers (columns : List Column) (members : List JsonMember)
    (state : ℕ × List Cell) :
    (storeMembers columns members state).2.length = state.2.length := by
  induction members generalizing state with
  | nil => rfl
  | cons m members ih =>
    show (storeMembers columns members _).2.length = _
    rw [ih]
    show (storeMember columns (JsonString.read m.key) m.value.value state).2.length = _
    unfold storeMember
    split
    · rfl
    · simp only
      split
      · rfl
      · exact List.length_modify ..

/-- **A flat JSON object is read**, for every field layout and every row of NULL cells. -/
theorem parseJsonFields_plain (o : PlainObject) (columns : List Column) (cells : List Cell)
    (size : cells.length = columns.length) (null : ∀ cell ∈ cells, cell.isNull = true) :
    ∃ matched after, parseJsonFields o.render columns cells = some (matched, after) ∧
      o.Leaves columns cells matched after := by
  refine ⟨(storeMembers columns o.toFlat.members (0, cells)).1,
    (storeMembers columns o.toFlat.members (0, cells)).2,
    parseJsonFields_render o.toFlat columns cells, ?_⟩
  have names : (o.toFlat.members.countP fun m => (JsonString.read m.key) ∈ columns.map Column.name) =
      o.members.countP fun m => m.name ∈ columns.map Column.name := by
    show (o.members.map PlainMember.toJsonMember).countP _ = _
    rw [List.countP_map]
    refine List.countP_congr fun m _ => ?_
    simp only [Function.comp, JsonString.read_of_decode m.name_eq]
  have within : ∀ {k : ℕ} {f : Column}, columns[k]? = some f → k < cells.length := by
    intro k f column
    rw [size]
    exact (List.getElem?_eq_some_iff.mp column).1
  have lasts : ∀ {name : Bytes} {m : PlainMember}, o.lastNamed name = some m →
      o.toFlat.lastRead name = some m.toJsonMember := by
    intro name m last
    rw [o.lastRead_toFlat, last, Option.map_some]
  refine ⟨?_, length_storeMembers _ _ _, ?_, ?_, ?_⟩
  · rw [storeMembers_fst, names, Nat.zero_add]
  · intro k f m num column first last value
    obtain ⟨before, same⟩ := getElem?_storeMembers_last column first (lasts last) (within column)
    rw [same, value]
    exact ⟨rfl, rfl⟩
  · intro k f m column first last value
    obtain ⟨before, same⟩ := getElem?_storeMembers_last column first (lasts last) (within column)
    rw [same, value]
    exact ⟨_, rfl, rfl⟩
  · intro k f column unnamed
    have last : o.toFlat.lastRead f.name = none ∨ ¬ FirstColumn columns k f.name := by
      rwa [o.lastRead_toFlat, Option.map_eq_none_iff]
    have found := List.getElem?_eq_getElem (within column)
    rw [getElem?_storeMembers_unnamed column last]
    exact ⟨rfl, _, found, null _ (List.getElem_mem _)⟩

/-! ### A member twice -/

theorem levelKey_decode :
    JsonString.decode (JsonString.ofBytes (bytesOf "level")) = some (bytesOf "level") := by decide

theorem number_not_text {n : JsonNumber} (content : JsonString)
    (same : JsonValue.number n = .text content) : (JsonString.decode content).isSome := by
  cases same

theorem null_not_text (content : JsonString) (same : JsonValue.null = .text content) :
    (JsonString.decode content).isSome := by
  cases same

/-- `"level":` and a value. -/
def levelMember (value : JsonValue)
    (text_ok : ∀ content, value = .text content → (JsonString.decode content).isSome) :
    PlainMember where
  before := .none
  key := JsonString.ofBytes (bytesOf "level")
  beforeColon := .none
  afterColon := .none
  value := value
  after := .none
  name := bytesOf "level"
  name_eq := levelKey_decode
  text_ok := text_ok

/-- `{"level":null,"level":1}`. -/
def levelTwice : PlainObject where
  lead := .none
  inner := .none
  members := [levelMember .null null_not_text, levelMember (.number .one) number_not_text]
  trail := .none

/-- The second member counts. -/
theorem parseJsonFields_plain_level :
    ∃ matched after,
      parseJsonFields levelTwice.render tank.columns (nullCells tank.columns) =
          some (matched, after) ∧
        matched = 2 ∧ after[2]? = some ⟨1, false⟩ := by
  obtain ⟨matched, after, parsed, leaves⟩ := parseJsonFields_plain levelTwice tank.columns
    (nullCells tank.columns) List.length_replicate fun cell member => by
      rw [List.eq_of_mem_replicate member]
  obtain ⟨f, column⟩ : ∃ f, tank.columns[2]? = some f := ⟨_, rfl⟩
  have integer : f.ofNumber JsonNumber.one.double = ⟨1, false⟩ := by
    rw [← Option.some.inj column]
    decide +kernel
  have name : f.name = bytesOf "level" := by
    rw [← Option.some.inj column]
    decide
  refine ⟨matched, after, parsed, ?_, ?_⟩
  · rw [leaves.matched_eq]
    decide
  · rw [← integer]
    refine (leaves.number 2 f (levelMember (.number .one) number_not_text) _ column ?_ ?_ rfl).1
    · rw [FirstColumn, name]
      decide
    · rw [name]
      rfl

end EtherAdapter
