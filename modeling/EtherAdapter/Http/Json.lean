/-
**Flat JSON objects: their texts, and that the parser reads them.**

The grammar is a syntax tree with a `render`: numbers, strings, members and objects of RFC 8259,
with spaces wherever they may stand; values are numbers, strings, `true`, `false` and `null`. A
string is a list of plain bytes and escaped ones; `read` is what `parseString` makes of it.

* **`strtod_render`** — `strtod` takes a JSON number as a whole, and its value is the nearest double.
* `scanString_render`, `parseValue_render`, `parseMember_render` — the parts.
* **`parseJsonFields_render`** — an object is accepted, and its members are stored one after the
  other.
-/

import EtherAdapter.Model.Json

namespace EtherAdapter

/-! ### Numbers -/

def AllDigits (digits : Bytes) : Prop := ∀ c ∈ digits, isDigitByte c = true

/-- `e`, a sign where there is one, and digits. -/
structure JsonExponent where
  upper : Bool
  sign : Option Bool
  digits : Bytes
  some_digit : digits ≠ []
  all_digits : AllDigits digits

/-- A JSON number; without a fraction there is no point. -/
structure JsonNumber where
  negative : Bool := false
  whole : Bytes
  fraction : Bytes := []
  exponent : Option JsonExponent := none
  some_digit : whole ≠ []
  all_digits : AllDigits whole
  no_leading_zero : whole.head? = some 48 → whole = [48]
  fraction_digits : AllDigits fraction

namespace JsonExponent

def signBytes : Option Bool → Bytes
  | none => []
  | some true => [45]
  | some false => [43]

def render (e : JsonExponent) : Bytes :=
  (if e.upper then 69 else 101) :: signBytes e.sign ++ e.digits

def value (e : JsonExponent) : Int :=
  if e.sign = some true then -(digitsValue 10 e.digits : Int) else digitsValue 10 e.digits

end JsonExponent

namespace JsonNumber

def exponentBytes (n : JsonNumber) : Bytes := (n.exponent.map JsonExponent.render).getD []

def fractionBytes (n : JsonNumber) : Bytes := if n.fraction = [] then [] else 46 :: n.fraction

/-- The number without its sign. -/
def size (n : JsonNumber) : Bytes := n.whole ++ n.fractionBytes ++ n.exponentBytes

def render (n : JsonNumber) : Bytes := (if n.negative then [45] else []) ++ n.size

/-- **The double nearest to the number.** -/
def double (n : JsonNumber) : BitVec 64 :=
  scaledDouble n.negative 10 (digitsValue 10 (n.whole ++ n.fraction))
    ((n.exponent.map JsonExponent.value).getD 0 - n.fraction.length)

end JsonNumber

/-- What may follow a number: it does not go on with a digit, a point, an exponent or an `x`. -/
def Stops (rest : Bytes) : Prop :=
  ∀ c, rest.head? = some c →
    isDigitByte c = false ∧ c ≠ 46 ∧ lowerByte c ≠ 101 ∧ lowerByte c ≠ 120

theorem takeWhile_append_stop {p : UInt8 → Bool} {front rest : Bytes}
    (all : ∀ c ∈ front, p c = true) (stop : ∀ c, rest.head? = some c → p c = false) :
    (front ++ rest).takeWhile p = front := by
  rw [List.takeWhile_append_of_pos all]
  cases rest with
  | nil => rw [List.takeWhile_nil, List.append_nil]
  | cons c rest =>
    rw [List.takeWhile_cons_of_neg (by rw [stop c rfl]; exact Bool.false_ne_true), List.append_nil]

/-! ### Exponents -/

theorem isDigitByte_bounds {c : UInt8} (digit : isDigitByte c = true) :
    48 ≤ c.toNat ∧ c.toNat ≤ 57 := by
  simp only [isDigitByte, Bool.and_eq_true, decide_eq_true_eq, UInt8.le_iff_toNat_le] at digit
  exact digit

/-- A digit is none of the other bytes. -/
theorem ne_of_isDigitByte {c d : UInt8} (digit : isDigitByte c = true)
    (other : isDigitByte d = false) : c ≠ d := by
  rintro rfl
  rw [digit] at other
  cases other

theorem scanSign_digits {digits rest : Bytes} (all : AllDigits digits) (nonempty : digits ≠ []) :
    scanSign (digits ++ rest) = (false, 0) := by
  cases digits with
  | nil => exact absurd rfl nonempty
  | cons c digits =>
    have digit := all c List.mem_cons_self
    have minus : c ≠ 45 := ne_of_isDigitByte digit (by decide)
    have plus : c ≠ 43 := ne_of_isDigitByte digit (by decide)
    rw [List.cons_append]
    unfold scanSign
    split
    · rename_i same
      exact absurd (List.cons.inj same).1 minus
    · rename_i same
      exact absurd (List.cons.inj same).1 plus
    · rfl

theorem scanSign_signBytes (sign : Option Bool) {digits rest : Bytes} (all : AllDigits digits)
    (nonempty : digits ≠ []) :
    scanSign (JsonExponent.signBytes sign ++ (digits ++ rest)) =
      (decide (sign = some true), (JsonExponent.signBytes sign).length) := by
  match sign with
  | none =>
    rw [JsonExponent.signBytes, List.nil_append]
    exact scanSign_digits all nonempty
  | some true => rfl
  | some false => rfl

theorem scanExponent_render (e : JsonExponent) {rest : Bytes} (stop : Stops rest) :
    scanExponent 101 (e.render ++ rest) = (e.value, e.render.length) := by
  have lower : lowerByte (if e.upper then 69 else 101) = 101 := by
    cases e.upper with
    | true => decide
    | false => decide
  have digits : ((e.digits ++ rest).takeWhile isDigitByte) = e.digits :=
    takeWhile_append_stop e.all_digits fun c head => (stop c head).1
  have length : e.render.length =
      1 + (JsonExponent.signBytes e.sign).length + e.digits.length := by
    rw [JsonExponent.render, List.cons_append, List.length_cons, List.length_append]
    omega
  rw [length, JsonExponent.render, List.cons_append, List.cons_append, scanExponent,
    List.append_assoc]
  simp only [lower, scanSign_signBytes e.sign e.all_digits e.some_digit, List.drop_left, digits,
    ne_eq, e.some_digit, not_false_eq_true, and_self, if_true, decide_eq_true_eq,
    JsonExponent.value]

theorem scanExponent_stop {rest : Bytes} (stop : Stops rest) : scanExponent 101 rest = (0, 0) := by
  cases rest with
  | nil => rfl
  | cons c rest =>
    simp only [scanExponent, (stop c rfl).2.2.1, false_and, if_false]

/-! ### Whole numbers -/

namespace JsonNumber

variable (n : JsonNumber) {rest : Bytes}

/-- The first byte behind the mantissa does not continue it. -/
theorem head_exponentBytes (stop : Stops rest) {c : UInt8}
    (head : (n.exponentBytes ++ rest).head? = some c) : isDigitByte c = false ∧ c ≠ 46 ∧
      lowerByte c ≠ 120 := by
  rw [exponentBytes] at head
  cases exponent : n.exponent with
  | none =>
    rw [exponent] at head
    obtain ⟨digit, point, _, hex⟩ := stop c head
    exact ⟨digit, point, hex⟩
  | some e =>
    rw [exponent, Option.map_some, Option.getD_some, JsonExponent.render, List.cons_append,
      List.cons_append, List.head?_cons, Option.some.injEq] at head
    rw [← head]
    cases e.upper with
    | true => decide
    | false => decide

theorem scanExponent_exponentBytes (stop : Stops rest) :
    scanExponent 101 (n.exponentBytes ++ rest) =
      ((n.exponent.map JsonExponent.value).getD 0, n.exponentBytes.length) := by
  rw [exponentBytes]
  cases n.exponent with
  | none => exact scanExponent_stop stop
  | some e => exact scanExponent_render e stop

/-- The mantissa is scanned as a whole. -/
theorem scanMantissa_size (stop : Stops rest) :
    scanMantissa isDigitByte (n.size ++ rest) =
      some ⟨n.whole ++ n.fraction, n.fraction.length, (n.whole ++ n.fractionBytes).length⟩ := by
  have split : n.size ++ rest = n.whole ++ (n.fractionBytes ++ (n.exponentBytes ++ rest)) := by
    rw [size, List.append_assoc, List.append_assoc]
  have behind := fun c => n.head_exponentBytes stop (c := c)
  by_cases point : n.fraction = []
  · have none : n.fractionBytes = [] := by rw [fractionBytes, if_pos point]
    rw [none, List.nil_append] at split
    have whole : (n.size ++ rest).takeWhile isDigitByte = n.whole := by
      rw [split]
      exact takeWhile_append_stop n.all_digits fun c head => (behind c head).1
    unfold scanMantissa
    simp only [whole]
    rw [split, List.drop_left]
    split
    · rename_i same
      exact absurd rfl (behind 46 (by rw [same]; rfl)).2.1
    · rw [if_neg n.some_digit, point, none, List.append_nil, List.length_nil]
  · have some : n.fractionBytes = 46 :: n.fraction := by rw [fractionBytes, if_neg point]
    rw [some, List.cons_append] at split
    have whole : (n.size ++ rest).takeWhile isDigitByte = n.whole := by
      rw [split]
      refine takeWhile_append_stop n.all_digits fun c head => ?_
      cases head
      decide
    have fraction : (n.fraction ++ (n.exponentBytes ++ rest)).takeWhile isDigitByte =
        n.fraction :=
      takeWhile_append_stop n.fraction_digits fun c head => (behind c head).1
    unfold scanMantissa
    simp only [whole]
    rw [split, List.drop_left]
    simp only [fraction, n.some_digit, false_and, if_false, some, List.length_append,
      List.length_cons]
    congr 2
    omega

theorem scanDecimal_size (stop : Stops rest) :
    scanDecimal n.negative (n.size ++ rest) = some (n.double, n.size.length) := by
  have split : n.size ++ rest = (n.whole ++ n.fractionBytes) ++ (n.exponentBytes ++ rest) := by
    rw [size, List.append_assoc]
  rw [scanDecimal, n.scanMantissa_size stop, Option.map_some]
  simp only
  rw [split, List.drop_left, n.scanExponent_exponentBytes stop]
  simp only [double, size, List.length_append]

/-- A number starts with a digit. -/
theorem head_size : ∃ c tail, n.size = c :: tail ∧ isDigitByte c = true := by
  obtain ⟨c, whole, start⟩ := List.exists_cons_of_ne_nil n.some_digit
  refine ⟨c, whole ++ n.fractionBytes ++ n.exponentBytes, ?_, ?_⟩
  · rw [size, start, List.cons_append, List.cons_append]
  · exact n.all_digits c (by rw [start]; exact List.mem_cons_self)

/-- A number has no `x` behind its first digit. -/
theorem second_size (stop : Stops rest) {b : UInt8} (second : (n.size ++ rest)[1]? = some b) :
    lowerByte b ≠ 120 := by
  obtain ⟨c, whole, start⟩ := List.exists_cons_of_ne_nil n.some_digit
  rw [size, start, List.append_assoc, List.append_assoc, List.cons_append, List.getElem?_cons_succ]
    at second
  cases whole with
  | cons d whole =>
    have digit := n.all_digits d (by rw [start]; exact List.mem_cons_of_mem _ List.mem_cons_self)
    cases second
    have bounds := isDigitByte_bounds digit
    rw [lowerByte]
    split
    · rename_i letter
      simp only [Bool.and_eq_true, decide_eq_true_eq, UInt8.le_iff_toNat_le] at letter
      exact absurd letter.1 (by simp only [UInt8.reduceToNat]; omega)
    · exact ne_of_isDigitByte digit (by decide)
  | nil =>
    rw [List.nil_append, ← List.head?_eq_getElem?, fractionBytes] at second
    split at second
    · exact (n.head_exponentBytes stop second).2.2
    · cases second
      decide

theorem not_startsWith_hex (stop : Stops rest) :
    startsWith (bytesOf "0x") (n.size ++ rest) = false := by
  rw [Bool.eq_false_iff]
  intro starts
  have second : (((n.size ++ rest).take 2).map lowerByte)[1]? = some 120 :=
    congrArg (fun text : Bytes => text[1]?) (beq_iff_eq.mp starts)
  rw [List.getElem?_map, List.getElem?_take, if_pos (by decide)] at second
  obtain ⟨b, found, lower⟩ := Option.map_eq_some_iff.mp second
  exact n.second_size stop found lower

/-- A text that starts with a digit does not start with a word. -/
theorem not_startsWith_word {c : UInt8} (digit : isDigitByte c = true) (text : Bytes) {w : UInt8}
    (letter : isDigitByte w = false) (word : Bytes) : startsWith (w :: word) (c :: text) = false := by
  have bounds := isDigitByte_bounds digit
  have same : lowerByte c = c := by
    rw [lowerByte, if_neg]
    simp only [Bool.and_eq_true, decide_eq_true_eq, UInt8.le_iff_toNat_le, UInt8.reduceToNat]
    omega
  rw [Bool.eq_false_iff]
  intro starts
  have bytes := beq_iff_eq.mp starts
  rw [List.length_cons, List.take_succ_cons, List.map_cons, same] at bytes
  exact ne_of_isDigitByte digit letter (List.cons.inj bytes).1

theorem scanUnsigned_size (stop : Stops rest) :
    scanUnsigned n.negative (n.size ++ rest) = some (n.double, n.size.length) := by
  obtain ⟨c, tail, start, digit⟩ := n.head_size
  have word : ∀ {w : UInt8} (word : Bytes), isDigitByte w = false →
      startsWith (w :: word) (n.size ++ rest) = false := by
    intro w word letter
    rw [start, List.cons_append]
    exact not_startsWith_word digit _ letter word
  have infinity : startsWith (bytesOf "infinity") (n.size ++ rest) = false := word _ (by decide)
  have inf : startsWith (bytesOf "inf") (n.size ++ rest) = false := word _ (by decide)
  have nan : startsWith (bytesOf "nan") (n.size ++ rest) = false := word _ (by decide)
  unfold scanUnsigned
  simp only [infinity, inf, nan, n.not_startsWith_hex stop, Bool.false_eq_true, if_false]
  exact n.scanDecimal_size stop

end JsonNumber

theorem isSpaceByte_of_isDigitByte {c : UInt8} (digit : isDigitByte c = true) :
    isSpaceByte c = false := by
  have bounds := isDigitByte_bounds digit
  rw [isSpaceByte, Bool.or_eq_false_iff, Bool.and_eq_false_iff]
  refine ⟨beq_eq_false_iff_ne.mpr (ne_of_isDigitByte digit (by decide)), Or.inr ?_⟩
  simp only [decide_eq_false_iff_not, UInt8.le_iff_toNat_le, UInt8.reduceToNat]
  omega

/-- **`strtod` takes a JSON number as a whole.** -/
theorem strtod_render (n : JsonNumber) {rest : Bytes} (stop : Stops rest) :
    strtod (n.render ++ rest) = (n.double, n.render.length) := by
  have scanned := n.scanUnsigned_size stop
  rw [JsonNumber.render, strtod]
  cases negative : n.negative with
  | true =>
    rw [negative] at scanned
    have spaces : (45 :: (n.size ++ rest)).takeWhile isSpaceByte = [] := by
      rw [List.takeWhile_cons_of_neg (by decide)]
    have sign : scanSign (45 :: (n.size ++ rest)) = (true, 1) := rfl
    simp only [if_true, List.cons_append, List.nil_append, spaces, List.length_nil, List.drop_zero,
      sign, Nat.zero_add, List.drop_succ_cons, scanned, List.length_cons, Nat.add_comm 1]
  | false =>
    rw [negative] at scanned
    obtain ⟨c, tail, start, digit⟩ := n.head_size
    have spaces : (n.size ++ rest).takeWhile isSpaceByte = [] := by
      rw [start, List.cons_append, List.takeWhile_cons_of_neg]
      rw [isSpaceByte_of_isDigitByte digit]
      exact Bool.false_ne_true
    have sign : scanSign (n.size ++ rest) = (false, 0) := by
      rw [JsonNumber.size, List.append_assoc, List.append_assoc]
      exact scanSign_digits n.all_digits n.some_digit
    simp only [Bool.false_eq_true, if_false, List.nil_append, spaces, List.length_nil,
      List.drop_zero, sign, Nat.zero_add, scanned, Nat.add_zero]

/-! ### Strings and values -/

/-- A byte of a string, as it stands there or behind a backslash. -/
inductive StringItem where
  | plain (c : UInt8) (quote : c ≠ 34) (slash : c ≠ 92)
  | escaped (c : UInt8)

abbrev JsonString := List StringItem

namespace StringItem

def render : StringItem → Bytes
  | .plain c _ _ => [c]
  | .escaped c => [92, c]

def read : StringItem → UInt8
  | .plain c _ _ => c
  | .escaped c => unescape c

end StringItem

/-- The text of a string, and what `parseString` reads. -/
def JsonString.render (text : JsonString) : Bytes := text.flatMap StringItem.render

def JsonString.read (text : JsonString) : Bytes := text.map StringItem.read

theorem scanString_render (text : JsonString) (rest : Bytes) :
    scanString (JsonString.render text ++ 34 :: rest) = some (JsonString.read text, rest) := by
  induction text with
  | nil => exact scanString_quote rest
  | cons item text ih =>
    rw [JsonString.render, List.flatMap_cons, List.append_assoc]
    show scanString (item.render ++ (JsonString.render text ++ 34 :: rest)) = _
    cases item with
    | plain c quote slash =>
      rw [StringItem.render, List.singleton_append, scanString_plain slash quote, ih,
        Option.map_some]
      rfl
    | escaped c =>
      rw [StringItem.render, List.cons_append, List.singleton_append, scanString_escaped, ih,
        Option.map_some]
      rfl

inductive JsonValue where
  | text (content : JsonString)
  | null
  | yes
  | no
  | number (n : JsonNumber)

namespace JsonValue

def render : JsonValue → Bytes
  | .text content => 34 :: JsonString.render content ++ [34]
  | .null => bytesOf "null"
  | .yes => bytesOf "true"
  | .no => bytesOf "false"
  | .number n => n.render

/-- The number of a value; strings are ignored. -/
def value : JsonValue → Option (BitVec 64)
  | .text _ => none
  | .null => none
  | .yes => some 0x3FF0000000000000
  | .no => some 0
  | .number n => some n.double

end JsonValue

theorem parseValue_number (n : JsonNumber) {rest : Bytes} (stop : Stops rest) :
    parseValue (n.render ++ rest) = some (some n.double, rest) := by
  obtain ⟨c, tail, start, digit⟩ := n.head_size
  have first : ∃ d more, n.render ++ rest = d :: more ∧ (d = 45 ∨ isDigitByte d = true) := by
    rw [JsonNumber.render]
    cases n.negative with
    | true => exact ⟨45, n.size ++ rest, rfl, Or.inl rfl⟩
    | false =>
      refine ⟨c, tail ++ rest, ?_, Or.inr digit⟩
      rw [if_neg Bool.false_ne_true, List.nil_append, start, List.cons_append]
  obtain ⟨d, more, head, front⟩ := first
  have other : ∀ {w : UInt8}, w ≠ 45 → isDigitByte w = false → d ≠ w := by
    intro w minus letter
    rcases front with rfl | digit'
    · exact minus.symm
    · exact ne_of_isDigitByte digit' letter
  have word : ∀ {w : UInt8} (word : Bytes) (k : ℕ), d ≠ w →
      (n.render ++ rest).take (k + 1) ≠ w :: word := by
    intro w word k apart same
    rw [head, List.take_succ_cons] at same
    exact apart (List.cons.inj same).1
  have quote : ¬ (n.render ++ rest).head? = some 34 := by
    rw [head, List.head?_cons, Option.some.injEq]
    exact other (by decide) (by decide)
  have null : ¬ (n.render ++ rest).take 4 = bytesOf "null" := word _ 3 (other (by decide) (by decide))
  have yes : ¬ (n.render ++ rest).take 4 = bytesOf "true" := word _ 3 (other (by decide) (by decide))
  have no : ¬ (n.render ++ rest).take 5 = bytesOf "false" := word _ 4 (other (by decide) (by decide))
  have some_byte : ¬ n.render.length = 0 := by
    rw [JsonNumber.render, List.length_append, start, List.length_cons]
    omega
  rw [parseValue, if_neg quote, if_neg null, if_neg yes, if_neg no]
  simp only [strtod_render n stop, if_neg some_byte, List.drop_left]

theorem parseValue_render (value : JsonValue) {rest : Bytes} (stop : Stops rest) :
    parseValue (value.render ++ rest) = some (value.value, rest) := by
  cases value with
  | text content =>
    have scanned := scanString_render content rest
    rw [JsonValue.render, List.cons_append, List.cons_append, List.append_assoc,
      List.singleton_append, parseValue, if_pos (List.head?_cons), parseString, scanned,
      Option.map_some]
    rfl
  | null => rfl
  | yes => rfl
  | no => rfl
  | number n => exact parseValue_number n stop

/-! ### Members -/

/-- Spaces between tokens. -/
structure Spaces where
  text : Bytes
  all_spaces : ∀ c ∈ text, isJsonSpace c = true

theorem no_spaces : ∀ c ∈ ([] : Bytes), isJsonSpace c = true :=
  fun _ member => absurd member List.not_mem_nil

def Spaces.none : Spaces := ⟨[], no_spaces⟩

structure JsonMember where
  before : Spaces
  key : JsonString
  beforeColon : Spaces
  afterColon : Spaces
  value : JsonValue
  after : Spaces

/-- The text of a member. -/
def JsonMember.render (m : JsonMember) : Bytes :=
  m.before.text ++ (34 :: (JsonString.render m.key ++ 34 :: (m.beforeColon.text ++
    58 :: (m.afterColon.text ++ (m.value.render ++ m.after.text)))))

/-- A text that starts with something else than a space. -/
def Solid (rest : Bytes) : Prop := ∀ c, rest.head? = some c → isJsonSpace c = false

theorem skipWs_append (spaces : Spaces) {rest : Bytes} (solid : Solid rest) :
    skipWs (spaces.text ++ rest) = rest := by
  have front : (spaces.text ++ rest).takeWhile isJsonSpace = spaces.text :=
    takeWhile_append_stop spaces.all_spaces solid
  have split := List.takeWhile_append_dropWhile (p := isJsonSpace) (l := spaces.text ++ rest)
  rw [front] at split
  exact List.append_cancel_left split

theorem solid_cons {c : UInt8} (other : isJsonSpace c = false) (rest : Bytes) : Solid (c :: rest) := by
  intro d head
  cases head
  exact other

theorem solid_value (value : JsonValue) (rest : Bytes) : Solid (value.render ++ rest) := by
  cases value with
  | text content => exact solid_cons (by decide) _
  | null => exact solid_cons (by decide) _
  | yes => exact solid_cons (by decide) _
  | no => exact solid_cons (by decide) _
  | number n =>
    obtain ⟨c, tail, start, digit⟩ := n.head_size
    rw [JsonValue.render, JsonNumber.render]
    cases n.negative with
    | true => exact solid_cons (by decide) _
    | false =>
      rw [if_neg Bool.false_ne_true, List.nil_append, start, List.cons_append]
      have other : ∀ {w : UInt8}, isDigitByte w = false → (c == w) = false :=
        fun letter => beq_eq_false_iff_ne.mpr (ne_of_isDigitByte digit letter)
      refine solid_cons ?_ _
      simp only [isJsonSpace, other (show isDigitByte 32 = false by decide),
        other (show isDigitByte 9 = false by decide), other (show isDigitByte 13 = false by decide),
        other (show isDigitByte 10 = false by decide), Bool.or_self]

/-- A member ends at a comma or at the closing brace. -/
def Closes (rest : Bytes) : Prop := rest.head? = some 44 ∨ rest.head? = some 125

theorem Closes.solid {rest : Bytes} (closes : Closes rest) : Solid rest := by
  intro c head
  rcases closes with comma | brace
  · rw [comma] at head
    cases head
    decide
  · rw [brace] at head
    cases head
    decide

theorem isJsonSpace_cases {c : UInt8} (space : isJsonSpace c = true) :
    c = 32 ∨ c = 9 ∨ c = 13 ∨ c = 10 := by
  simp only [isJsonSpace, Bool.or_eq_true, beq_iff_eq] at space
  rcases space with ((a | b) | c) | d
  · exact Or.inl a
  · exact Or.inr (Or.inl b)
  · exact Or.inr (Or.inr (Or.inl c))
  · exact Or.inr (Or.inr (Or.inr d))

/-- No number goes on behind its spaces. -/
theorem stops_spaces (spaces : Spaces) {rest : Bytes} (closes : Closes rest) :
    Stops (spaces.text ++ rest) := by
  intro c head
  have cases' : c = 32 ∨ c = 9 ∨ c = 13 ∨ c = 10 ∨ c = 44 ∨ c = 125 := by
    cases text : spaces.text with
    | nil =>
      rw [text, List.nil_append] at head
      rcases closes with comma | brace
      · rw [comma] at head
        exact Or.inr (Or.inr (Or.inr (Or.inr (Or.inl (Option.some.inj head).symm))))
      · rw [brace] at head
        exact Or.inr (Or.inr (Or.inr (Or.inr (Or.inr (Option.some.inj head).symm))))
    | cons d more =>
      rw [text, List.cons_append, List.head?_cons, Option.some.injEq] at head
      have space := spaces.all_spaces d (by rw [text]; exact List.mem_cons_self)
      rw [head] at space
      rcases isJsonSpace_cases space with a | b | e | f
      · exact Or.inl a
      · exact Or.inr (Or.inl b)
      · exact Or.inr (Or.inr (Or.inl e))
      · exact Or.inr (Or.inr (Or.inr (Or.inl f)))
  rcases cases' with rfl | rfl | rfl | rfl | rfl | rfl
  · decide
  · decide
  · decide
  · decide
  · decide
  · decide

/-- **A member is read.** -/
theorem parseMember_render (m : JsonMember) {rest : Bytes} (closes : Closes rest) :
    parseMember (m.render ++ rest) = some (JsonString.read m.key, m.value.value, rest) := by
  have value := parseValue_render m.value (stops_spaces m.after closes)
  rw [JsonMember.render, parseMember]
  simp only [List.append_assoc, List.cons_append]
  rw [skipWs_append m.before (solid_cons (by decide) _), parseString, scanString_render]
  simp only
  rw [skipWs_append m.beforeColon (solid_cons (by decide) _)]
  simp only
  rw [skipWs_append m.afterColon (solid_value m.value _), value, Option.map_some,
    skipWs_append m.after closes.solid]

/-! ### Objects -/

/-- A flat JSON object; `inner` stands in an empty one. -/
structure FlatObject where
  lead : Spaces
  inner : Spaces
  members : List JsonMember
  trail : Spaces

/-- Members, separated by commas, and the closing brace. -/
def renderMembers : List JsonMember → Bytes → Bytes
  | [], rest => rest
  | [m], rest => m.render ++ rest
  | m :: m' :: members, rest => m.render ++ 44 :: renderMembers (m' :: members) rest

def FlatObject.render (o : FlatObject) : Bytes :=
  o.lead.text ++ 123 :: match o.members with
    | [] => o.inner.text ++ 125 :: o.trail.text
    | m :: members => renderMembers (m :: members) (125 :: o.trail.text)

/-- The members, stored one after the other. -/
def storeMembers (columns : List Column) (members : List JsonMember) (state : ℕ × List Cell) :
    ℕ × List Cell :=
  members.foldl (fun state m => storeMember columns (JsonString.read m.key) m.value.value state) state

theorem parseMembers_render (columns : List Column) (members : List JsonMember)
    (nonempty : members ≠ []) (trail : Bytes) {fuel : ℕ} (enough : members.length ≤ fuel)
    (state : ℕ × List Cell) :
    parseMembers columns fuel (renderMembers members (125 :: trail)) state =
      some (storeMembers columns members state) := by
  induction members generalizing fuel state with
  | nil => exact absurd rfl nonempty
  | cons m members ih =>
    cases fuel with
    | zero => exact absurd enough (Nat.not_succ_le_zero _)
    | succ fuel =>
      rw [parseMembers]
      cases members with
      | nil =>
        simp only [renderMembers, parseMember_render m (Or.inr rfl : Closes (125 :: trail))]
        rfl
      | cons m' members =>
        have later := ih (List.cons_ne_nil _ _) (Nat.le_of_succ_le_succ enough)
        simp only [renderMembers, parseMember_render m (Or.inl rfl : Closes (44 :: _)), later]
        rfl

theorem length_renderMembers (members : List JsonMember) (rest : Bytes) :
    members.length ≤ (renderMembers members rest).length := by
  have some_byte : ∀ m : JsonMember, 1 ≤ m.render.length := by
    intro m
    rw [JsonMember.render, List.length_append, List.length_cons]
    omega
  induction members with
  | nil => exact Nat.zero_le _
  | cons m members ih =>
    have own := some_byte m
    cases members with
    | nil =>
      rw [renderMembers, List.length_append, List.length_singleton]
      omega
    | cons m' members =>
      have comma : (44 :: renderMembers (m' :: members) rest).length =
          (renderMembers (m' :: members) rest).length + 1 := List.length_cons
      rw [renderMembers, List.length_append, comma, List.length_cons]
      omega

/-- The text of some members: spaces, then a quote. -/
theorem renderMembers_cons (m : JsonMember) (members : List JsonMember) (rest : Bytes) :
    ∃ tail, renderMembers (m :: members) rest = m.before.text ++ 34 :: tail := by
  cases members with
  | nil =>
    rw [renderMembers, JsonMember.render, List.append_assoc, List.cons_append]
    exact ⟨_, rfl⟩
  | cons m' members =>
    rw [renderMembers, JsonMember.render, List.append_assoc, List.cons_append]
    exact ⟨_, rfl⟩

/-- Spaces in front of a member do not matter. -/
theorem parseMembers_spaces (columns : List Column) (fuel : ℕ) (spaces : Spaces) {rest : Bytes}
    (solid : Solid rest) (state : ℕ × List Cell) :
    parseMembers columns fuel (spaces.text ++ rest) state =
      parseMembers columns fuel rest state := by
  have none : skipWs rest = rest := skipWs_append Spaces.none solid
  cases fuel with
  | zero => rfl
  | succ fuel =>
    rw [parseMembers, parseMembers, parseMember, parseMember, skipWs_append spaces solid, none]

/-- **A flat JSON object is accepted, and its members are stored one after the other.** -/
theorem parseJsonFields_render (o : FlatObject) (columns : List Column) (cells : List Cell) :
    parseJsonFields o.render columns cells = some (storeMembers columns o.members (0, cells)) := by
  rw [FlatObject.render, parseJsonFields, skipWs_append o.lead (solid_cons (by decide) _)]
  simp only
  cases o.members with
  | nil =>
    simp only [skipWs_append o.inner (solid_cons (show isJsonSpace 125 = false by decide) _)]
    rfl
  | cons m members =>
    obtain ⟨tail, text⟩ := renderMembers_cons m members (125 :: o.trail.text)
    have solid : Solid (34 :: tail) := solid_cons (by decide) tail
    have shorter : (34 :: tail).length ≤ (m.before.text ++ 34 :: tail).length := by
      rw [List.length_append]
      exact Nat.le_add_left _ _
    have passes := length_renderMembers (m :: members) (125 :: o.trail.text)
    have parsed := parseMembers_render columns (m :: members) (List.cons_ne_nil _ _) o.trail.text
      passes (0, cells)
    rw [text, parseMembers_spaces columns _ m.before solid, parseMembers_fuel columns shorter]
      at parsed
    simp only [text, skipWs_append m.before solid]
    exact parsed

end EtherAdapter
