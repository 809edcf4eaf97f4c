/-
**Which bodies are refused.**

`parseJsonFields` stops at the closing brace, leaves numbers to `strtod` and takes any byte in a
string: it accepts more than flat JSON objects.

* `IsFlatJson` — a flat object of RFC 8259, in UTF-8, with spaces around it.
* `ReadsObject` — the parser's own grammar: the keys and the values of a body as they are spelled,
  and what follows the closing brace. `ReadsObject.unique` — a body is read in one way at most;
  `readsObject_of_parse`, `ReadsObject.parse` — it is accepted exactly when it is read.
* **`parseJsonFields_refuses_iff`** — bodies that are no flat JSON object are refused, exactly when
  every reading of the body ends with spaces and spells its keys and values as JSON does.
-/

import EtherAdapter.Http.Json
import EtherAdapter.Model.Http

namespace EtherAdapter

/-! ### Flat JSON -/

/-- A hexadecimal digit as it stands. -/
def StringItem.IsHex : StringItem → Prop
  | .plain c _ _ => isHexByte c = true
  | .escaped _ => False

/-- The strings of RFC 8259. -/
inductive RfcString : JsonString → Prop where
  | nil : RfcString []
  | plain {c : UInt8} (quote : c ≠ 34) (slash : c ≠ 92) {text : JsonString} (printable : 32 ≤ c) :
      RfcString text → RfcString (.plain c quote slash :: text)
  | escape {c : UInt8} {text : JsonString} (known : c ∈ [34, 92, 47, 98, 102, 110, 114, 116]) :
      RfcString text → RfcString (.escaped c :: text)
  | unicode {a b c d : StringItem} {text : JsonString} (hex : ∀ item ∈ [a, b, c, d], item.IsHex) :
      RfcString text → RfcString (.escaped 117 :: a :: b :: c :: d :: text)

def JsonValue.Rfc : JsonValue → Prop
  | .text content => RfcString content
  | _ => True

/-- A text in UTF-8. -/
def Utf8 (text : Bytes) : Prop := ∃ chars : List Char, text = chars.flatMap String.utf8EncodeChar

/-- **A flat JSON object**, up to spaces around it. -/
def IsFlatJson (body : Bytes) : Prop :=
  Utf8 body ∧ ∃ o : FlatObject, o.render = body ∧
    ∀ m ∈ o.members, RfcString m.key ∧ m.value.Rfc

/-! ### The grammar of the parser -/

/-- **A value as it is spelled**, with what follows it: a string, a word, or what `strtod` takes
there. -/
inductive ScannedValue (rest : Bytes) : Bytes → Prop where
  | text (content : JsonString) : ScannedValue rest (34 :: JsonString.render content ++ [34])
  | null : ScannedValue rest (bytesOf "null")
  | yes : ScannedValue rest (bytesOf "true")
  | no : ScannedValue rest (bytesOf "false")
  | number {token : Bytes} (some_byte : token ≠ []) (solid : Solid token)
      (taken : (strtod (token ++ rest)).2 = token.length) : ScannedValue rest token

/-- A member as it is spelled. -/
structure RawMember where
  before : Spaces
  key : JsonString
  beforeColon : Spaces
  afterColon : Spaces
  value : Bytes
  after : Spaces

def RawMember.render (m : RawMember) : Bytes :=
  m.before.text ++ (34 :: (JsonString.render m.key ++ 34 :: (m.beforeColon.text ++
    58 :: (m.afterColon.text ++ (m.value ++ m.after.text)))))

/-- Members and the text behind the closing brace. -/
inductive ReadsMembers : Bytes → List RawMember → Bytes → Prop where
  | last (m : RawMember) (tail : Bytes)
      (value : ScannedValue (m.after.text ++ 125 :: tail) m.value) :
      ReadsMembers (m.render ++ 125 :: tail) [m] tail
  | more (m : RawMember) {text : Bytes} {members : List RawMember} {tail : Bytes}
      (value : ScannedValue (m.after.text ++ 44 :: text) m.value)
      (later : ReadsMembers text members tail) :
      ReadsMembers (m.render ++ 44 :: text) (m :: members) tail

/-- **A body as it is read**: its members, and the text behind the closing brace. -/
inductive ReadsObject : Bytes → List RawMember → Bytes → Prop where
  | empty (lead inner : Spaces) (tail : Bytes) :
      ReadsObject (lead.text ++ 123 :: (inner.text ++ 125 :: tail)) [] tail
  | members (lead : Spaces) {text : Bytes} {members : List RawMember} {tail : Bytes}
      (read : ReadsMembers text members tail) :
      ReadsObject (lead.text ++ 123 :: text) members tail

/-- A key and a value that are spelled as in JSON. -/
structure RawMember.Strict (m : RawMember) : Prop where
  key : ∃ key, RfcString key ∧ JsonString.render key = JsonString.render m.key
  value : ∃ value : JsonValue, value.Rfc ∧ value.render = m.value

/-! ### What is scanned is read -/

/-- The first byte of a number is no quote, and it is none of the words. -/
theorem strtod_other {text : Bytes} (other : text.head? = some 34 ∨ text.take 4 = bytesOf "null" ∨
    text.take 4 = bytesOf "true" ∨ text.take 5 = bytesOf "false") : (strtod text).2 = 0 := by
  rcases other with quote | null | yes | no
  · obtain ⟨rest, rfl⟩ := List.head?_eq_some_iff.mp quote
    rfl
  · rw [← List.take_append_drop 4 text, null]
    rfl
  · rw [← List.take_append_drop 4 text, yes]
    rfl
  · rw [← List.take_append_drop 5 text, no]
    rfl

theorem ScannedValue.parse {value rest : Bytes} (scanned : ScannedValue rest value) :
    ∃ number, parseValue (value ++ rest) = some (number, rest) := by
  cases scanned with
  | text content =>
    have content := scanString_render content rest
    rw [List.cons_append, List.cons_append, List.append_assoc, List.singleton_append, parseValue,
      if_pos List.head?_cons, parseString, content]
    exact ⟨none, rfl⟩
  | null => exact ⟨none, rfl⟩
  | yes => exact ⟨_, rfl⟩
  | no => exact ⟨_, rfl⟩
  | number some_byte solid taken =>
    have length : ¬ value.length = 0 := fun zero => some_byte (List.length_eq_zero_iff.mp zero)
    have number : ∀ {P : Prop}, (P → (strtod (value ++ rest)).2 = 0) → ¬ P :=
      fun zero holds => length (taken.symm.trans (zero holds))
    rw [parseValue, if_neg (number fun quote => strtod_other (Or.inl quote)),
      if_neg (number fun null => strtod_other (Or.inr (Or.inl null))),
      if_neg (number fun yes => strtod_other (Or.inr (Or.inr (Or.inl yes)))),
      if_neg (number fun no => strtod_other (Or.inr (Or.inr (Or.inr no))))]
    simp only [taken, if_neg length, List.drop_left]
    exact ⟨_, rfl⟩

theorem ScannedValue.solid {value rest : Bytes} (scanned : ScannedValue rest value) :
    Solid (value ++ rest) := by
  cases scanned with
  | text content => exact solid_cons (by decide) _
  | null => exact solid_cons (by decide) _
  | yes => exact solid_cons (by decide) _
  | no => exact solid_cons (by decide) _
  | number some_byte solid taken =>
    obtain ⟨c, more, rfl⟩ := List.exists_cons_of_ne_nil some_byte
    exact solid_cons (solid c rfl) _

namespace RawMember

/-- The text of a member in front of another one, from outside in. -/
theorem render_append (m : RawMember) (rest : Bytes) :
    m.render ++ rest = m.before.text ++ (34 :: (JsonString.render m.key ++ 34 ::
      (m.beforeColon.text ++ 58 :: (m.afterColon.text ++ (m.value ++ (m.after.text ++ rest)))))) := by
  rw [render]
  simp only [List.append_assoc, List.cons_append]

/-- **A member is taken as a whole.** -/
theorem parse {m : RawMember} {rest : Bytes} (closes : Closes rest)
    (value : ScannedValue (m.after.text ++ rest) m.value) :
    ∃ number, parseMember (m.render ++ rest) = some (JsonString.read m.key, number, rest) := by
  obtain ⟨number, parsed⟩ := value.parse
  refine ⟨number, ?_⟩
  rw [m.render_append, parseMember, skipWs_append m.before (solid_cons (by decide) _), parseString,
    scanString_render]
  simp only
  rw [skipWs_append m.beforeColon (solid_cons (by decide) _)]
  simp only
  rw [skipWs_append m.afterColon value.solid, parsed, Option.map_some,
    skipWs_append m.after closes.solid]

/-- **A text has one first member**: its key, its value and what follows it. -/
theorem unique {m other : RawMember} {rest rest' : Bytes} (closes : Closes rest)
    (closes' : Closes rest') (value : ScannedValue (m.after.text ++ rest) m.value)
    (value' : ScannedValue (other.after.text ++ rest') other.value)
    (same : m.render ++ rest = other.render ++ rest') :
    JsonString.render m.key = JsonString.render other.key ∧ m.value = other.value ∧
      rest = rest' := by
  have behind : rest = rest' := by
    obtain ⟨_, parsed⟩ := parse closes value
    obtain ⟨_, parsed'⟩ := parse closes' value'
    rw [same, parsed'] at parsed
    exact (congrArg (fun member => member.2.2) (Option.some.inj parsed)).symm
  rw [m.render_append, other.render_append] at same
  -- spaces, the key, spaces, the colon, spaces, the value
  have keys := congrArg skipWs same
  rw [skipWs_append m.before (solid_cons (by decide) _),
    skipWs_append other.before (solid_cons (by decide) _)] at keys
  have keys := (List.cons.inj keys).2
  have colons := congrArg scanString keys
  rw [scanString_render, scanString_render] at colons
  have colons := (Prod.ext_iff.mp (Option.some.inj colons)).2
  simp only at colons
  have key : JsonString.render m.key = JsonString.render other.key := by
    rw [colons] at keys
    exact List.append_cancel_right keys
  have values := congrArg skipWs colons
  rw [skipWs_append m.beforeColon (solid_cons (by decide) _),
    skipWs_append other.beforeColon (solid_cons (by decide) _)] at values
  have values := congrArg skipWs (List.cons.inj values).2
  rw [skipWs_append m.afterColon value.solid, skipWs_append other.afterColon value'.solid] at values
  obtain ⟨_, parsed⟩ := value.parse
  obtain ⟨_, parsed'⟩ := value'.parse
  rw [values, parsed'] at parsed
  have rests := (Prod.ext_iff.mp (Option.some.inj parsed)).2
  simp only at rests
  rw [rests] at values
  exact ⟨key, List.append_cancel_right values, behind⟩

end RawMember

/-- Two members with the same key and the same value. -/
def SameTexts (m other : RawMember) : Prop :=
  JsonString.render m.key = JsonString.render other.key ∧ m.value = other.value

theorem SameTexts.strict {m other : RawMember} (same : SameTexts m other) (strict : m.Strict) :
    other.Strict := by
  obtain ⟨⟨key, rfc, spelled⟩, value⟩ := strict
  refine ⟨⟨key, rfc, spelled.trans same.1⟩, ?_⟩
  rw [← same.2]
  exact value

theorem strict_of_sameTexts {members others : List RawMember}
    (same : List.Forall₂ SameTexts members others) (strict : ∀ m ∈ members, m.Strict) :
    ∀ m ∈ others, m.Strict := by
  induction same with
  | nil => exact strict
  | cons first later ih =>
    refine List.forall_mem_cons.mpr ⟨first.strict (strict _ List.mem_cons_self), ?_⟩
    exact ih fun m member => strict m (List.mem_cons_of_mem _ member)

/-- **Members are read in one way.** -/
theorem ReadsMembers.unique {text tail tail' : Bytes} {members members' : List RawMember}
    (read : ReadsMembers text members tail) (read' : ReadsMembers text members' tail') :
    List.Forall₂ SameTexts members members' ∧ tail = tail' := by
  induction read generalizing members' tail' with
  | last m tail value =>
    generalize whole : m.render ++ 125 :: tail = text at read'
    cases read' with
    | last other tail' value' =>
      obtain ⟨key, same, rest⟩ := RawMember.unique (Or.inr rfl) (Or.inr rfl) value value' whole
      exact ⟨List.Forall₂.cons ⟨key, same⟩ .nil, (List.cons.inj rest).2⟩
    | more other value' later' =>
      obtain ⟨_, _, rest⟩ := RawMember.unique (Or.inr rfl) (Or.inl rfl) value value' whole
      cases (List.cons.inj rest).1
  | @more m text members tail value later ih =>
    generalize whole : m.render ++ 44 :: text = input at read'
    cases read' with
    | last other tail' value' =>
      obtain ⟨_, _, rest⟩ := RawMember.unique (Or.inl rfl) (Or.inr rfl) value value' whole
      cases (List.cons.inj rest).1
    | more other value' later' =>
      obtain ⟨key, same, rest⟩ := RawMember.unique (Or.inl rfl) (Or.inl rfl) value value' whole
      rw [← (List.cons.inj rest).2] at later'
      obtain ⟨members, tails⟩ := ih later'
      exact ⟨List.Forall₂.cons ⟨key, same⟩ members, tails⟩

/-- Members start with a quote, behind their spaces. -/
theorem ReadsMembers.quote {text tail : Bytes} {members : List RawMember}
    (read : ReadsMembers text members tail) : ∃ more, skipWs text = 34 :: more := by
  cases read with
  | last m tail value =>
    rw [m.render_append, skipWs_append m.before (solid_cons (by decide) _)]
    exact ⟨_, rfl⟩
  | more m value later =>
    rw [m.render_append, skipWs_append m.before (solid_cons (by decide) _)]
    exact ⟨_, rfl⟩

/-- **A body is read in one way.** -/
theorem ReadsObject.unique {body tail tail' : Bytes} {members members' : List RawMember}
    (read : ReadsObject body members tail) (read' : ReadsObject body members' tail') :
    List.Forall₂ SameTexts members members' ∧ tail = tail' := by
  have braces : ∀ {lead lead' : Spaces} {text text' : Bytes},
      lead.text ++ 123 :: text = lead'.text ++ 123 :: text' → text = text' := by
    intro lead lead' text text' same
    have skipped := congrArg skipWs same
    rw [skipWs_append lead (solid_cons (by decide) _),
      skipWs_append lead' (solid_cons (by decide) _)] at skipped
    exact (List.cons.inj skipped).2
  have closing : ∀ (inner : Spaces) (tail : Bytes),
      skipWs (inner.text ++ 125 :: tail) = 125 :: tail :=
    fun inner tail => skipWs_append inner (solid_cons (by decide) _)
  cases read with
  | empty lead inner tail =>
    generalize whole : lead.text ++ 123 :: (inner.text ++ 125 :: tail) = body at read'
    cases read' with
    | empty lead' inner' tail' =>
      have same := congrArg skipWs (braces whole)
      rw [closing, closing] at same
      exact ⟨.nil, (List.cons.inj same).2⟩
    | members lead' later' =>
      obtain ⟨more, quote⟩ := later'.quote
      rw [← braces whole, closing] at quote
      cases (List.cons.inj quote).1
  | @members lead text members tail later =>
    generalize whole : lead.text ++ 123 :: text = body at read'
    cases read' with
    | empty lead' inner' tail' =>
      obtain ⟨more, quote⟩ := later.quote
      rw [braces whole, closing] at quote
      cases (List.cons.inj quote).1
    | members lead' later' =>
      rw [← braces whole] at later'
      exact later.unique later'

/-! ### What is accepted is scanned -/

theorem length_takeWhile_le (p : UInt8 → Bool) (text : Bytes) :
    (text.takeWhile p).length ≤ text.length :=
  (List.takeWhile_sublist p).length_le

theorem length_scanMantissa_le {isDigit : UInt8 → Bool} {text : Bytes} {number : Mantissa}
    (scanned : scanMantissa isDigit text = some number) : number.length ≤ text.length := by
  have whole := length_takeWhile_le isDigit text
  unfold scanMantissa at scanned
  simp only at scanned
  split at scanned
  · rename_i rest point
    have size := congrArg List.length point
    rw [List.length_drop, List.length_cons] at size
    have fraction := length_takeWhile_le isDigit rest
    split at scanned
    · cases scanned
    · cases scanned
      show _ + 1 + _ ≤ _
      omega
  · split at scanned
    · cases scanned
    · cases scanned
      exact whole

theorem scanSign_le (text : Bytes) : (scanSign text).2 ≤ text.length := by
  unfold scanSign
  split
  · exact Nat.succ_pos _
  · exact Nat.succ_pos _
  · exact Nat.zero_le _

theorem scanExponent_le (marker : UInt8) (text : Bytes) :
    (scanExponent marker text).2 ≤ text.length := by
  cases text with
  | nil => exact Nat.zero_le _
  | cons c rest =>
    have sign := scanSign_le rest
    have digits := length_takeWhile_le isDigitByte (rest.drop (scanSign rest).2)
    rw [List.length_drop] at digits
    rw [scanExponent]
    simp only
    split
    · show 1 + _ + _ ≤ rest.length + 1
      omega
    · exact Nat.zero_le _

theorem scanNanTail_le (text : Bytes) : scanNanTail text ≤ text.length := by
  unfold scanNanTail
  split
  · rename_i rest
    simp only
    split
    · rename_i closed
      have inside : (rest.takeWhile isWordByte).length < rest.length := by
        by_contra outside
        rw [List.drop_of_length_le (Nat.le_of_not_lt outside)] at closed
        cases closed
      rw [List.length_cons]
      omega
    · exact Nat.zero_le _
  · exact Nat.zero_le _

theorem length_of_startsWith {word text : Bytes} (starts : startsWith word text = true) :
    word.length ≤ text.length := by
  have sizes := congrArg List.length (beq_iff_eq.mp starts)
  rw [List.length_map, List.length_take] at sizes
  omega

/-- A mantissa and its exponent. -/
theorem length_scaled_le {isDigit : UInt8 → Bool} {text : Bytes} {number : Mantissa}
    (mantissa : scanMantissa isDigit text = some number) (marker : UInt8) :
    number.length + (scanExponent marker (text.drop number.length)).2 ≤ text.length := by
  have front := length_scanMantissa_le mantissa
  have back := scanExponent_le marker (text.drop number.length)
  rw [List.length_drop] at back
  omega

theorem scanUnsigned_le {negative : Bool} {text : Bytes} {scanned : BitVec 64 × ℕ}
    (found : scanUnsigned negative text = some scanned) : scanned.2 ≤ text.length := by
  unfold scanUnsigned at found
  simp only at found
  split at found
  · rename_i starts
    rw [← Option.some.inj found]
    exact length_of_startsWith starts
  split at found
  · rename_i starts
    rw [← Option.some.inj found]
    exact length_of_startsWith starts
  split at found
  · rename_i starts
    have word : 3 ≤ text.length := length_of_startsWith starts
    have tail := scanNanTail_le (text.drop 3)
    rw [List.length_drop] at tail
    rw [← Option.some.inj found]
    show 3 + _ ≤ _
    omega
  split at found
  · rename_i value length hex
    obtain ⟨starts, scannedHex⟩ := Option.ite_none_right_eq_some.mp hex
    obtain ⟨number, mantissa, same⟩ := Option.map_eq_some_iff.mp scannedHex
    have word : 2 ≤ text.length := length_of_startsWith starts
    have digits := length_scaled_le mantissa 112
    rw [List.length_drop] at digits
    have size : number.length + (scanExponent 112 ((text.drop 2).drop number.length)).2 = length :=
      (Prod.ext_iff.mp same).2
    rw [← Option.some.inj found]
    show 2 + length ≤ _
    omega
  · obtain ⟨number, mantissa, same⟩ := Option.map_eq_some_iff.mp found
    rw [← same]
    exact length_scaled_le mantissa 101

/-- A number ends inside the text. -/
theorem strtod_le (text : Bytes) : (strtod text).2 ≤ text.length := by
  have spaces := length_takeWhile_le isSpaceByte text
  have sign := scanSign_le (text.drop (text.takeWhile isSpaceByte).length)
  rw [List.length_drop] at sign
  unfold strtod
  simp only
  split
  · rename_i value length found
    have number := scanUnsigned_le found
    rw [List.length_drop] at number
    simp only at number ⊢
    omega
  · exact Nat.zero_le _

/-- Spaces, then the rest. -/
theorem exists_spaces (text : Bytes) : ∃ spaces : Spaces, text = spaces.text ++ skipWs text := by
  refine ⟨⟨text.takeWhile isJsonSpace, fun c member => ?_⟩, ?_⟩
  · exact List.all_eq_true.mp List.all_takeWhile c member
  · exact List.takeWhile_append_dropWhile.symm

theorem solid_skipWs (text : Bytes) : Solid (skipWs text) := by
  intro c head
  have other := List.head?_dropWhile_not isJsonSpace text
  rw [skipWs] at head
  rw [head] at other
  exact other

theorem exists_string {text content rest : Bytes} (scanned : scanString text = some (content, rest)) :
    ∃ string : JsonString, text = JsonString.render string ++ 34 :: rest := by
  fun_induction scanString text generalizing content rest with
  | case1 => cases scanned
  | case2 => cases scanned
  | case3 e more ih =>
    obtain ⟨inner, held, same⟩ := Option.map_eq_some_iff.mp scanned
    cases same
    obtain ⟨string, text⟩ := ih held
    exact ⟨.escaped e :: string, by rw [text]; rfl⟩
  | case4 more =>
    cases scanned
    exact ⟨[], rfl⟩
  | case5 c more slash quote ih =>
    obtain ⟨inner, held, same⟩ := Option.map_eq_some_iff.mp scanned
    cases same
    obtain ⟨string, text⟩ := ih held
    exact ⟨.plain c quote slash :: string, by rw [text]; rfl⟩

/-- A value that is parsed is scanned. -/
theorem scannedValue_of_parse {text rest : Bytes} {number : Option (BitVec 64)} (solid : Solid text)
    (parsed : parseValue text = some (number, rest)) :
    ∃ value, text = value ++ rest ∧ ScannedValue rest value := by
  have word : ∀ {n : ℕ} {word : Bytes}, text.take n = word → text = word ++ text.drop n := by
    intro n word same
    rw [← same, List.take_append_drop]
  unfold parseValue at parsed
  split at parsed
  · rename_i quote
    obtain ⟨more, rfl⟩ := List.head?_eq_some_iff.mp quote
    obtain ⟨inner, held, same⟩ := Option.map_eq_some_iff.mp parsed
    cases same
    obtain ⟨content, whole⟩ := exists_string held
    refine ⟨34 :: JsonString.render content ++ [34], ?_, .text content⟩
    rw [whole, List.cons_append, List.cons_append, List.append_assoc, List.singleton_append]
  split at parsed
  · rename_i same
    cases parsed
    exact ⟨_, word same, .null⟩
  split at parsed
  · rename_i same
    cases parsed
    exact ⟨_, word same, .yes⟩
  split at parsed
  · rename_i same
    cases parsed
    exact ⟨_, word same, .no⟩
  simp only at parsed
  split at parsed
  · cases parsed
  · rename_i some_byte
    cases parsed
    have within := strtod_le text
    have size : (text.take (strtod text).2).length = (strtod text).2 :=
      List.length_take_of_le within
    refine ⟨text.take (strtod text).2, (List.take_append_drop _ _).symm, .number ?_ ?_ ?_⟩
    · intro empty
      rw [empty] at size
      exact some_byte size.symm
    · intro c head
      rw [List.head?_take, if_neg some_byte] at head
      exact solid c head
    · rw [List.take_append_drop, size]

/-- A member that is parsed is a member as it is spelled. -/
theorem rawMember_of_parse {text key rest : Bytes} {number : Option (BitVec 64)}
    (parsed : parseMember text = some (key, number, rest)) :
    ∃ m : RawMember, text = m.render ++ rest ∧ ScannedValue (m.after.text ++ rest) m.value := by
  unfold parseMember at parsed
  split at parsed
  · cases parsed
  rename_i key' behindKey named
  split at parsed
  · rename_i behindColon colon
    obtain ⟨⟨number', behindValue⟩, held, same⟩ := Option.map_eq_some_iff.mp parsed
    cases same
    unfold parseString at named
    split at named
    · rename_i behindQuote quote
      obtain ⟨before, front⟩ := exists_spaces text
      obtain ⟨string, spelled⟩ := exists_string named
      obtain ⟨beforeColon, keyed⟩ := exists_spaces behindKey
      obtain ⟨afterColon, colonEnd⟩ := exists_spaces behindColon
      obtain ⟨value, valued, scanned⟩ := scannedValue_of_parse (solid_skipWs behindColon) held
      obtain ⟨after, valueEnd⟩ := exists_spaces behindValue
      refine ⟨⟨before, string, beforeColon, afterColon, value, after⟩, ?_, ?_⟩
      · rw [RawMember.render_append]
        simp only
        rw [← valueEnd, ← valued, ← colonEnd, ← colon, ← keyed, ← spelled, ← quote]
        exact front
      · simp only
        rw [← valueEnd]
        exact scanned
    · cases named
  · cases parsed

/-! ### Accepted is read -/

theorem readsMembers_of_parse {columns : List Column} {fuel : ℕ} {text : Bytes}
    {state result : ℕ × List Cell} (parsed : parseMembers columns fuel text state = some result) :
    ∃ members tail, ReadsMembers text members tail := by
  induction fuel generalizing text state with
  | zero => cases parsed
  | succ fuel ih =>
    rw [parseMembers] at parsed
    split at parsed
    · cases parsed
    rename_i key number rest member
    obtain ⟨m, whole, value⟩ := rawMember_of_parse member
    simp only at parsed
    split at parsed
    · rename_i more
      obtain ⟨members, tail, later⟩ := ih parsed
      rw [whole]
      exact ⟨m :: members, tail, .more m value later⟩
    · rename_i tail
      rw [whole]
      exact ⟨[m], tail, .last m tail value⟩
    · cases parsed

theorem readsObject_of_parse {body : Bytes} {columns : List Column} {cells : List Cell}
    {result : ℕ × List Cell} (parsed : parseJsonFields body columns cells = some result) :
    ∃ members tail, ReadsObject body members tail := by
  obtain ⟨lead, front⟩ := exists_spaces body
  unfold parseJsonFields at parsed
  split at parsed
  · rename_i text brace
    obtain ⟨inner, inside⟩ := exists_spaces text
    rw [brace] at front
    rw [front]
    split at parsed
    · rename_i tail closing
      rw [closing] at inside
      rw [inside]
      exact ⟨[], tail, .empty lead inner tail⟩
    · -- the spaces belong to the first member
      rw [← parseMembers_spaces columns _ inner (solid_skipWs text), ← inside] at parsed
      obtain ⟨members, tail, read⟩ := readsMembers_of_parse parsed
      exact ⟨members, tail, .members lead read⟩
  · cases parsed

theorem ReadsMembers.parse {text tail : Bytes} {members : List RawMember}
    (read : ReadsMembers text members tail) (columns : List Column) {fuel : ℕ}
    (enough : text.length ≤ fuel) (state : ℕ × List Cell) :
    (parseMembers columns fuel text state).isSome := by
  induction read generalizing fuel state with
  | last m tail value =>
    obtain ⟨number, parsed⟩ := RawMember.parse (Or.inr rfl : Closes (125 :: tail)) value
    rw [List.length_append, List.length_cons] at enough
    obtain ⟨fuel, rfl⟩ := Nat.exists_eq_succ_of_ne_zero (show fuel ≠ 0 by omega)
    rw [parseMembers, parsed]
    rfl
  | @more m text members tail value later ih =>
    obtain ⟨number, parsed⟩ := RawMember.parse (Or.inl rfl : Closes (44 :: text)) value
    rw [List.length_append, List.length_cons] at enough
    obtain ⟨fuel, rfl⟩ := Nat.exists_eq_succ_of_ne_zero (show fuel ≠ 0 by omega)
    rw [parseMembers, parsed]
    exact ih (by omega) _

/-- **A body that is read is accepted.** -/
theorem ReadsObject.parse {body tail : Bytes} {members : List RawMember}
    (read : ReadsObject body members tail) (columns : List Column) (cells : List Cell) :
    (parseJsonFields body columns cells).isSome := by
  cases read with
  | empty lead inner tail =>
    rw [parseJsonFields, skipWs_append lead (solid_cons (by decide) _)]
    simp only [skipWs_append inner (solid_cons (show isJsonSpace 125 = false by decide) _)]
    rfl
  | @members lead text members tail later =>
    obtain ⟨more, quote⟩ := later.quote
    obtain ⟨inner, inside⟩ := exists_spaces text
    have accepted := later.parse columns (Nat.le_refl text.length) (0, cells)
    have shorter : (34 :: more).length ≤ text.length := quote ▸ length_skipWs_le text
    rw [quote] at inside
    rw [parseJsonFields, skipWs_append lead (solid_cons (by decide) _)]
    simp only [quote]
    show (parseMembers columns (34 :: more).length (34 :: more) (0, cells)).isSome
    rw [← parseMembers_fuel columns shorter,
      ← parseMembers_spaces columns _ inner (solid_cons (by decide) more), ← inside]
    exact accepted

/-! ### Flat JSON is read, and strictly so -/

/-- The spelling of a member. -/
def JsonMember.toRaw (m : JsonMember) : RawMember :=
  ⟨m.before, m.key, m.beforeColon, m.afterColon, m.value.render, m.after⟩

theorem JsonMember.scanned (m : JsonMember) {rest : Bytes} (closes : Closes rest) :
    ScannedValue (m.toRaw.after.text ++ rest) m.toRaw.value := by
  show ScannedValue (m.after.text ++ rest) m.value.render
  have solid := solid_value m.value []
  rw [List.append_nil] at solid
  revert solid
  cases m.value with
  | text content => exact fun _ => .text content
  | null => exact fun _ => .null
  | yes => exact fun _ => .yes
  | no => exact fun _ => .no
  | number n =>
    intro solid
    obtain ⟨c, tail, start, _⟩ := n.head_size
    have some_byte : n.render ≠ [] := by
      rw [JsonNumber.render, start]
      exact List.append_ne_nil_of_right_ne_nil _ (List.cons_ne_nil _ _)
    exact .number some_byte solid
      (congrArg Prod.snd (strtod_render n (stops_spaces m.after closes)))

theorem readsMembers_render (m : JsonMember) (members : List JsonMember) (tail : Bytes) :
    ReadsMembers (renderMembers (m :: members) (125 :: tail))
      ((m :: members).map JsonMember.toRaw) tail := by
  induction members generalizing m with
  | nil => exact .last m.toRaw tail (m.scanned (Or.inr rfl))
  | cons next members ih => exact .more m.toRaw (m.scanned (Or.inl rfl)) (ih next)

theorem readsObject_render (o : FlatObject) :
    ReadsObject o.render (o.members.map JsonMember.toRaw) o.trail.text := by
  rw [FlatObject.render]
  cases o.members with
  | nil => exact .empty o.lead o.inner o.trail.text
  | cons m members => exact .members o.lead (readsMembers_render m members o.trail.text)

/-- Members that are spelled strictly are JSON members. -/
theorem ReadsMembers.flat {text tail : Bytes} {members : List RawMember}
    (read : ReadsMembers text members tail) (strict : ∀ m ∈ members, m.Strict) :
    ∃ m flat, text = renderMembers (m :: flat) (125 :: tail) ∧
      ∀ member ∈ m :: flat, RfcString member.key ∧ member.value.Rfc := by
  have one : ∀ {m : RawMember}, m.Strict → ∃ member : JsonMember, member.render = m.render ∧
      RfcString member.key ∧ member.value.Rfc := by
    rintro m ⟨⟨key, rfcKey, spelledKey⟩, ⟨value, rfcValue, spelledValue⟩⟩
    refine ⟨⟨m.before, key, m.beforeColon, m.afterColon, value, m.after⟩, ?_, rfcKey, rfcValue⟩
    rw [JsonMember.render, RawMember.render, spelledKey, spelledValue]
  induction read with
  | last m tail value =>
    obtain ⟨member, same, rfc⟩ := one (strict m List.mem_cons_self)
    exact ⟨member, [], by rw [renderMembers, same], List.forall_mem_singleton.mpr rfc⟩
  | more m value later ih =>
    obtain ⟨member, same, rfc⟩ := one (strict m List.mem_cons_self)
    obtain ⟨next, flat, whole, others⟩ :=
      ih fun other member => strict other (List.mem_cons_of_mem _ member)
    exact ⟨member, next :: flat, by rw [renderMembers, same, whole],
      List.forall_mem_cons.mpr ⟨rfc, others⟩⟩

/-- **A body that is read strictly is a flat JSON object.** -/
theorem ReadsObject.flat {body tail : Bytes} {members : List RawMember}
    (read : ReadsObject body members tail) (spaces : ∀ c ∈ tail, isJsonSpace c = true)
    (strict : ∀ m ∈ members, m.Strict) :
    ∃ o : FlatObject, o.render = body ∧ ∀ m ∈ o.members, RfcString m.key ∧ m.value.Rfc := by
  cases read with
  | empty lead inner tail =>
    exact ⟨⟨lead, inner, [], ⟨tail, spaces⟩⟩, rfl, fun _ member => absurd member List.not_mem_nil⟩
  | members lead later =>
    obtain ⟨m, flat, rfl, rfc⟩ := later.flat strict
    exact ⟨⟨lead, .none, m :: flat, ⟨tail, spaces⟩⟩, rfl, rfc⟩

/-- And the other way round, in every reading. -/
theorem ReadsObject.strict {body tail : Bytes} {members : List RawMember}
    (read : ReadsObject body members tail) (flat : IsFlatJson body) :
    (∀ c ∈ tail, isJsonSpace c = true) ∧ ∀ m ∈ members, m.Strict := by
  obtain ⟨_, o, rfl, rfc⟩ := flat
  obtain ⟨same, rfl⟩ := (readsObject_render o).unique read
  refine ⟨o.trail.all_spaces, ?_⟩
  have spelled : ∀ raw ∈ o.members.map JsonMember.toRaw, raw.Strict := by
    intro raw member
    obtain ⟨m, there, rfl⟩ := List.mem_map.mp member
    exact ⟨⟨m.key, (rfc m there).1, rfl⟩, ⟨m.value, (rfc m there).2, rfl⟩⟩
  exact strict_of_sameTexts same spelled

/-! ### Refusals -/

/-- **A body that is no flat JSON object is refused**: by the parser, and with a 400 and no row. -/
structure Refused (body : Bytes) : Prop where
  parser : ∀ columns cells, parseJsonFields body columns cells = none
  request : ∀ (db : Config) httpPort peer timeUs i, db.matchHttpDevice peer httpPort = some i →
    (deviceAt db.devices i).columns ≠ [] →
      handleRequest db httpPort peer body timeUs =
        (sendResponse 400 (refusal (some "json")), none)

theorem refused_of_none {body : Bytes}
    (parser : ∀ columns cells, parseJsonFields body columns cells = none) : Refused body := by
  refine ⟨parser, fun db httpPort peer timeUs i matched fields => ?_⟩
  rw [handleRequest, matched]
  simp only [if_neg fields, parser]

/-- **Exactly the bodies that are spelled as JSON in every reading** are refused when they are no
flat JSON object: nothing but spaces behind the closing brace, keys and values as in JSON, and the
whole in UTF-8. -/
theorem parseJsonFields_refuses_iff (body : Bytes) :
    (¬ IsFlatJson body → Refused body) ↔
      ∀ members tail, ReadsObject body members tail →
        (∀ c ∈ tail, isJsonSpace c = true) ∧ (∀ m ∈ members, m.Strict) ∧ Utf8 body := by
  constructor
  · intro refuses members tail read
    have flat : IsFlatJson body := by
      by_contra other
      have accepted := read.parse [] []
      rw [(refuses other).parser] at accepted
      cases accepted
    exact ⟨(read.strict flat).1, (read.strict flat).2, flat.1⟩
  · intro spelled other
    refine refused_of_none fun columns cells => Option.eq_none_iff_forall_ne_some.mpr ?_
    intro result parsed
    obtain ⟨members, tail, read⟩ := readsObject_of_parse parsed
    obtain ⟨spaces, strict, utf8⟩ := spelled members tail read
    exact other ⟨utf8, read.flat spaces strict⟩

/-- **`{}x` is accepted.** -/
theorem parseJsonFields_trailing :
    ¬ IsFlatJson [123, 125, 120] ∧ ∀ columns cells,
      parseJsonFields [123, 125, 120] columns cells = some (0, cells) := by
  refine ⟨fun flat => ?_, fun columns cells => rfl⟩
  have spaces := ((ReadsObject.empty .none .none [120]).strict flat).1
  exact absurd (spaces 120 (List.mem_singleton.mpr rfl)) (by decide)

end EtherAdapter
