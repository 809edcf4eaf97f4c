/-
**Numbers in text: the C library functions of the http path** (`strtod`, `strtoul`, `llround`).

They follow the C standard in the C locale, on a platform with 64-bit `long` and IEEE doubles, and
glibc where the standard leaves room: `strtod` is correctly rounded (to nearest, ties to even) and
`llround` of a value outside the range gives the smallest `long long`. A `double` is its bit
pattern; every NaN is the default quiet one, and `errno` is left out.

* `roundDouble` — the double nearest to a quotient.
* `strtod` — the value of the longest number at the front of a text, and how many bytes it has.
-/

import EtherAdapter.Model.Config

namespace EtherAdapter

/-! ### Rounding -/

/-- A quotient, rounded to nearest, ties to even. -/
def divRound (num den : ℕ) : ℕ :=
  let kept := num / den
  let lost := num % den
  if den < 2 * lost ∨ (2 * lost = den ∧ kept % 2 = 1) then kept + 1 else kept

/-- `num / den < 2 ^ e`. -/
def belowPower (num den : ℕ) (e : Int) : Bool :=
  if 0 ≤ e then num < den * 2 ^ e.toNat else num * 2 ^ (-e).toNat < den

/-- The double nearest to `num / den`, infinite from `2^1024` on. -/
def roundDouble (negative : Bool) (num den : ℕ) : BitVec 64 :=
  let sign := if negative then 2 ^ 63 else 0
  if num = 0 then BitVec.ofNat 64 sign
  else
    let guess : Int := (Nat.log2 num : Int) - Nat.log2 den
    let exponent := if belowPower num den guess then guess - 1 else guess
    -- the weight of the last bit; subnormal numbers share the smallest one
    let unit := max (exponent - 52) (-1074)
    let significand :=
      if 0 ≤ unit then divRound num (den * 2 ^ unit.toNat)
      else divRound (num * 2 ^ (-unit).toNat) den
    -- a carry out of the significand moves on into the exponent, at the top to infinity
    BitVec.ofNat 64 (sign + min ((unit + 1074).toNat * 2 ^ 52 + significand) (2047 * 2 ^ 52))

/-! ### Bytes -/

def isSpaceByte (c : UInt8) : Bool := c == 32 || (9 ≤ c && c ≤ 13)

/-- `tolower`. -/
def lowerByte (c : UInt8) : UInt8 := if 65 ≤ c && c ≤ 90 then c + 32 else c

def isHexByte (c : UInt8) : Bool := isDigitByte c || (97 ≤ lowerByte c && lowerByte c ≤ 102)

def digitValue (c : UInt8) : ℕ :=
  if isDigitByte c then c.toNat - 48 else (lowerByte c).toNat - 87

/-- Digits as a number. -/
def digitsValue (base : ℕ) (digits : Bytes) : ℕ :=
  digits.foldl (fun n c => n * base + digitValue c) 0

/-- A text starts with a word, in upper or lower case. -/
def startsWith (word text : Bytes) : Bool := (text.take word.length).map lowerByte == word

/-! ### `strtod` -/

/-- A number as it was scanned: its digits, how many of them follow the point, and its length. -/
structure Mantissa where
  digits : Bytes
  fraction : ℕ
  length : ℕ
deriving DecidableEq, Repr

/-- Digits with at most one point among them, and at least one digit. -/
def scanMantissa (isDigit : UInt8 → Bool) (text : Bytes) : Option Mantissa :=
  let whole := text.takeWhile isDigit
  match text.drop whole.length with
  | 46 :: rest =>
    let fraction := rest.takeWhile isDigit
    if whole = [] ∧ fraction = [] then none
    else some ⟨whole ++ fraction, fraction.length, whole.length + 1 + fraction.length⟩
  | _ => if whole = [] then none else some ⟨whole, 0, whole.length⟩

/-- A sign, and its length. -/
def scanSign : Bytes → Bool × ℕ
  | 45 :: _ => (true, 1)
  | 43 :: _ => (false, 1)
  | _ => (false, 0)

/-- An exponent, and its length; a marker without digits is none. -/
def scanExponent (marker : UInt8) : Bytes → Int × ℕ
  | [] => (0, 0)
  | c :: rest =>
    let sign := scanSign rest
    let digits := (rest.drop sign.2).takeWhile isDigitByte
    if lowerByte c = marker ∧ digits ≠ [] then
      let size : Int := digitsValue 10 digits
      (if sign.1 then -size else size, 1 + sign.2 + digits.length)
    else (0, 0)

/-- The double nearest to `mantissa * base ^ exponent`. -/
def scaledDouble (negative : Bool) (base mantissa : ℕ) (exponent : Int) : BitVec 64 :=
  if 0 ≤ exponent then roundDouble negative (mantissa * base ^ exponent.toNat) 1
  else roundDouble negative mantissa (base ^ (-exponent).toNat)

def scanDecimal (negative : Bool) (text : Bytes) : Option (BitVec 64 × ℕ) :=
  (scanMantissa isDigitByte text).map fun number =>
    let exponent := scanExponent 101 (text.drop number.length)
    (scaledDouble negative 10 (digitsValue 10 number.digits) (exponent.1 - number.fraction),
      number.length + exponent.2)

/-- A hexadecimal number, behind its `0x`. -/
def scanHex (negative : Bool) (text : Bytes) : Option (BitVec 64 × ℕ) :=
  (scanMantissa isHexByte text).map fun number =>
    let exponent := scanExponent 112 (text.drop number.length)
    (scaledDouble negative 2 (digitsValue 16 number.digits) (exponent.1 - 4 * number.fraction),
      number.length + exponent.2)

/-- The length of the `(...)` that may follow `nan`. -/
def scanNanTail : Bytes → ℕ
  | 40 :: rest =>
    let inside := rest.takeWhile isWordByte
    if (rest.drop inside.length).head? = some 41 then inside.length + 2 else 0
  | _ => 0

/-- A number without spaces and sign. -/
def scanUnsigned (negative : Bool) (text : Bytes) : Option (BitVec 64 × ℕ) :=
  let sign := if negative then 2 ^ 63 else 0
  if startsWith (bytesOf "infinity") text then
    some (BitVec.ofNat 64 (sign + 2047 * 2 ^ 52), 8)
  else if startsWith (bytesOf "inf") text then some (BitVec.ofNat 64 (sign + 2047 * 2 ^ 52), 3)
  else if startsWith (bytesOf "nan") text then
    some (BitVec.ofNat 64 (sign + 2047 * 2 ^ 52 + 2 ^ 51), 3 + scanNanTail (text.drop 3))
  else
    match if startsWith (bytesOf "0x") text then scanHex negative (text.drop 2) else none with
    | some (value, length) => some (value, 2 + length)
    | none => scanDecimal negative text

/-- The value of the number at the front of a text and its length, 0 where there is none. -/
def strtod (text : Bytes) : BitVec 64 × ℕ :=
  let spaces := (text.takeWhile isSpaceByte).length
  let sign := scanSign (text.drop spaces)
  match scanUnsigned sign.1 (text.drop (spaces + sign.2)) with
  | some (value, length) => (value, spaces + sign.2 + length)
  | none => (0, 0)

/-! ### `strtoul` and `llround` -/

/-- Base 10, with saturation; a `-` negates modulo `2^64`. -/
def strtoul (text : Bytes) : ℕ :=
  let spaces := (text.takeWhile isSpaceByte).length
  let sign := scanSign (text.drop spaces)
  let size := digitsValue 10 ((text.drop (spaces + sign.2)).takeWhile isDigitByte)
  if 2 ^ 64 ≤ size then 2 ^ 64 - 1
  else if sign.1 then (2 ^ 64 - size) % 2 ^ 64
  else size

/-- `num != 0.0`. -/
def isZeroDouble (bits : BitVec 64) : Bool := bits.toNat % 2 ^ 63 == 0

/-- To the nearest integer, halves away from zero. -/
def llround (bits : BitVec 64) : BitVec 64 :=
  let exponent := bits.toNat / 2 ^ 52 % 2 ^ 11
  let mantissa := bits.toNat % 2 ^ 52
  let significand := if exponent = 0 then mantissa else mantissa + 2 ^ 52
  let scale := max exponent 1
  let size : ℕ :=
    if 1075 ≤ scale then significand * 2 ^ (scale - 1075)
    else (significand + 2 ^ (1074 - scale)) / 2 ^ (1075 - scale)
  if exponent = 2047 ∨ 2 ^ 63 ≤ size then BitVec.ofNat 64 (2 ^ 63)
  else if 2 ^ 63 ≤ bits.toNat then BitVec.ofInt 64 (-(size : Int))
  else BitVec.ofNat 64 size

end EtherAdapter
