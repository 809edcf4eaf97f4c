/-
**The values of the number literals in a statement.**

* `literalValue` — a decimal number, with or without a point and an exponent, as an exact rational.
* `literalValue_intText`, **`literalValue_formatQuotient`** — the texts of integers.
-/

import EtherAdapter.Writer.Doubles

namespace EtherAdapter

open Rounding

/-! ### Digits -/

theorem digitsValue_append (front back : Bytes) :
    digitsValue 10 (front ++ back) =
      digitsValue 10 front * 10 ^ back.length + digitsValue 10 back := by
  induction back using List.reverseRecOn with
  | nil => simp only [List.append_nil, List.length_nil, Nat.pow_zero, Nat.mul_one]; rfl
  | append_singleton back c ih =>
    have last : ∀ digits, digitsValue 10 (digits ++ [c]) = digitsValue 10 digits * 10 + digitValue c :=
      fun digits => List.foldl_append
    rw [← List.append_assoc, last, last, ih, List.length_append, List.length_singleton,
      Nat.pow_succ]
    ring

theorem digitsValue_replicate (n : ℕ) : digitsValue 10 (List.replicate n 48) = 0 := by
  induction n with
  | zero => rfl
  | succ n ih =>
    rw [List.replicate_succ', digitsValue_append, ih]
    decide

/-- Zeros in front do not matter. -/
theorem digitsValue_zeros (n : ℕ) (digits : Bytes) :
    digitsValue 10 (List.replicate n 48 ++ digits) = digitsValue 10 digits := by
  rw [digitsValue_append, digitsValue_replicate, Nat.zero_mul, Nat.zero_add]

theorem digitsValue_lt {digits : Bytes} (all : AllDigits digits) :
    digitsValue 10 digits < 10 ^ digits.length := by
  induction digits using List.reverseRecOn with
  | nil => decide
  | append_singleton digits c ih =>
    have digit := all c (List.mem_append_right _ List.mem_cons_self)
    have bounds := isDigitByte_bounds digit
    have front := ih fun d member => all d (List.mem_append_left _ member)
    have value : digitsValue 10 [c] = c.toNat - 48 := by
      show 0 * 10 + digitValue c = _
      rw [digitValue, if_pos digit, Nat.zero_mul, Nat.zero_add]
    rw [digitsValue_append, value, List.length_append, List.length_singleton, Nat.pow_succ]
    omega

/-- A number below `10^x` has at most `x` digits. -/
theorem length_decimal_le_iff {n x : ℕ} (positive : 0 < x) : (decimal n).length ≤ x ↔ n < 10 ^ x := by
  rw [decimal, List.length_map]
  exact Nat.length_toDigits_le_iff (by decide) positive

theorem length_decimal_eq {n x : ℕ} (low : 10 ^ x ≤ n) (high : n < 10 ^ (x + 1)) :
    (decimal n).length = x + 1 := by
  refine Nat.le_antisymm ((length_decimal_le_iff (Nat.succ_pos x)).mpr high) ?_
  cases x with
  | zero => exact List.length_pos_of_ne_nil (decimal_ne_nil n)
  | succ x =>
    by_contra short
    have less := (length_decimal_le_iff (Nat.succ_pos x)).mp (Nat.le_of_not_lt short)
    omega

/-- Every number is between two powers. -/
theorem decimal_bounds {n : ℕ} (positive : 0 < n) :
    10 ^ ((decimal n).length - 1) ≤ n ∧ n < 10 ^ ((decimal n).length - 1 + 1) := by
  have some_digit : 0 < (decimal n).length := List.length_pos_of_ne_nil (decimal_ne_nil n)
  refine ⟨?_, ?_⟩
  · by_contra less
    by_cases one : (decimal n).length = 1
    · rw [one] at less
      exact less positive
    · have short := (length_decimal_le_iff (n := n) (x := (decimal n).length - 1) (by omega)).mpr
        (Nat.lt_of_not_le less)
      omega
  · rw [Nat.sub_add_cancel some_digit]
    exact (length_decimal_le_iff some_digit).mp (Nat.le_refl _)

/-- Only 0 starts with a 0. -/
theorem head_decimal {n : ℕ} (zero : (decimal n).head? = some 48) : n = 0 := by
  by_contra positive
  obtain ⟨tail, digits⟩ : ∃ tail, decimal n = 48 :: tail := List.head?_eq_some_iff.mp zero
  have low := (decimal_bounds (Nat.pos_of_ne_zero positive)).1
  have short : digitsValue 10 tail < 10 ^ tail.length :=
    digitsValue_lt (allDigits_of_sublist (digits ▸ List.sublist_cons_self 48 tail)
      (allDigits_decimal n))
  have same : digitsValue 10 (List.replicate 1 48 ++ tail) = n := by
    show digitsValue 10 (48 :: tail) = n
    rw [← digits, digitsValue_decimal]
  rw [digitsValue_zeros] at same
  rw [digits, List.length_cons, Nat.add_sub_cancel] at low
  omega

theorem decimal_no_leading_zero {n : ℕ} (zero : (decimal n).head? = some 48) : decimal n = [48] := by
  rw [head_decimal zero]
  decide

/-- A single digit is its own text. -/
theorem decimal_digitValue {c : UInt8} (digit : isDigitByte c = true) :
    decimal (digitValue c) = [c] := by
  have bounds := isDigitByte_bounds digit
  rw [digitValue, if_pos digit, decimal, Nat.toDigits_of_lt_base (by omega), List.map_singleton]
  congr 1
  refine UInt8.toNat_inj.mp ?_
  show (Nat.digitChar (c.toNat - 48)).toNat % 256 = c.toNat
  rw [Nat.toNat_digitChar_of_lt_ten (by omega)]
  omega

/-- **A number without zeros in front is the text of its value.** -/
theorem decimal_digitsValue {digits : Bytes} (all : AllDigits digits) (nonempty : digits ≠ [])
    (lead : digits.head? ≠ some 48) :
    0 < digitsValue 10 digits ∧ decimal (digitsValue 10 digits) = digits := by
  induction digits using List.reverseRecOn with
  | nil => exact absurd rfl nonempty
  | append_singleton front c ih =>
    have digit : isDigitByte c = true := all c (List.mem_append_right _ List.mem_cons_self)
    have last : digitsValue 10 (front ++ [c]) = digitsValue 10 front * 10 + digitValue c :=
      List.foldl_append
    have small : digitValue c < 10 := by
      rw [digitValue, if_pos digit]
      have bounds := isDigitByte_bounds digit
      omega
    rw [last]
    by_cases single : front = []
    · subst single
      have positive : c.toNat ≠ 48 := fun zero => lead (congrArg some (UInt8.toNat_inj.mp zero))
      have bounds := isDigitByte_bounds digit
      rw [show digitsValue 10 [] = 0 from rfl, Nat.zero_mul, Nat.zero_add]
      refine ⟨?_, decimal_digitValue digit⟩
      rw [digitValue, if_pos digit]
      omega
    · obtain ⟨positive, text⟩ := ih (fun d member => all d (List.mem_append_left _ member)) single
        (by rwa [List.head?_append_of_ne_nil _ single] at lead)
      refine ⟨by omega, ?_⟩
      rw [Nat.mul_comm, decimal, ← Nat.toDigits_append_toDigits (by decide) positive small,
        List.map_append]
      exact congrArg₂ (· ++ ·) text (decimal_digitValue digit)

/-! ### Exact values -/

/-- `± size * 10 ^ e`, exactly. -/
def scaledValue (negative : Bool) (size : ℕ) (e : Int) : ℚ :=
  mkRat ((if negative then -1 else 1) * (size * 10 ^ e.toNat : ℕ)) (10 ^ (-e).toNat)

/-- **A number literal**, the whole text, as an exact rational. -/
def literalValue (text : Bytes) : Option ℚ :=
  let sign := scanSign text
  match scanMantissa isDigitByte (text.drop sign.2) with
  | none => none
  | some number =>
    let exponent := scanExponent 101 (text.drop (sign.2 + number.length))
    if sign.2 + number.length + exponent.2 = text.length then
      some (scaledValue sign.1 (digitsValue 10 number.digits) (exponent.1 - number.fraction))
    else none

theorem scaledValue_shift (negative : Bool) (size z : ℕ) (e : Int) :
    scaledValue negative (size * 10 ^ z) e = scaledValue negative size (e + z) := by
  have power : ∀ k : ℕ, 10 ^ k ≠ 0 := fun k => (Nat.pow_pos (by decide)).ne'
  have weights : size * 10 ^ z * 10 ^ e.toNat * 10 ^ (-(e + z)).toNat =
      size * 10 ^ (e + z).toNat * 10 ^ (-e).toNat := by
    rw [Nat.mul_assoc, Nat.mul_assoc, Nat.mul_assoc, ← Nat.pow_add, ← Nat.pow_add, ← Nat.pow_add]
    congr 2
    omega
  rw [scaledValue, scaledValue, Rat.mkRat_eq_iff (power _) (power _), Int.mul_assoc, Int.mul_assoc,
    ← Int.natCast_mul, ← Int.natCast_mul, weights]

/-- A value without a negative exponent is an integer. -/
theorem scaledValue_zero (negative : Bool) (size : ℕ) :
    scaledValue negative size 0 = ((if negative then -(size : Int) else size : Int) : ℚ) := by
  have signed : (if negative then -1 else 1) * ((size * 10 ^ 0 : ℕ) : Int) =
      if negative then -(size : Int) else size := by
    rw [Nat.pow_zero, Nat.mul_one]
    split
    · exact Int.neg_one_mul _
    · exact Int.one_mul _
  show mkRat ((if negative then -1 else 1) * ((size * 10 ^ 0 : ℕ) : Int)) (10 ^ 0) = _
  rw [signed]
  exact Rat.mkRat_self (Int.cast _)

/-- The value of a JSON number. -/
def JsonNumber.value (n : JsonNumber) : ℚ :=
  scaledValue n.negative (digitsValue 10 (n.whole ++ n.fraction))
    ((n.exponent.map JsonExponent.value).getD 0 - n.fraction.length)

theorem stops_nil : Stops [] := by
  intro c head
  cases head

/-- **The text of a number denotes its value.** -/
theorem literalValue_render (n : JsonNumber) : literalValue n.render = some n.value := by
  have mantissa := n.scanMantissa_size stops_nil
  have exponent := n.scanExponent_exponentBytes stops_nil
  rw [List.append_nil] at mantissa exponent
  have behind : n.size.drop (n.whole ++ n.fractionBytes).length = n.exponentBytes := by
    rw [JsonNumber.size, List.drop_left]
  have length : (n.whole ++ n.fractionBytes).length + n.exponentBytes.length = n.size.length := by
    exact List.length_append.symm
  cases negative : n.negative with
  | true =>
    have render : n.render = 45 :: n.size := by
      rw [JsonNumber.render, negative]
      rfl
    have sign : scanSign (45 :: n.size) = (true, 1) := rfl
    rw [render, literalValue]
    simp only [sign, List.drop_succ_cons, List.drop_zero, mantissa, Nat.add_comm 1, behind, exponent,
      List.length_cons]
    rw [if_pos (by omega), JsonNumber.value, negative]
  | false =>
    have render : n.render = n.size := by
      rw [JsonNumber.render, negative]
      rfl
    have sign : scanSign n.size = (false, 0) := by
      rw [JsonNumber.size, List.append_assoc]
      exact scanSign_digits n.all_digits n.some_digit
    rw [render, literalValue]
    simp only [sign, List.drop_zero, mantissa, Nat.zero_add, behind, exponent]
    rw [if_pos length, JsonNumber.value, negative]

/-! ### The texts of the writer -/

/-- The bytes of a sign. -/
def minusBytes (negative : Bool) : Bytes := if negative then [45] else []

/-- The digits behind the point, and the zeros that are left out. -/
theorem fractionText_eq (digits : Bytes) : ∃ kept z, digits = kept ++ List.replicate z 48 ∧
    fractionText digits = if kept = [] then [] else 46 :: kept := by
  refine ⟨(digits.reverse.dropWhile (· == 48)).reverse,
    (digits.reverse.takeWhile (· == 48)).length, ?_, rfl⟩
  have zeros : digits.reverse.takeWhile (· == 48) =
      List.replicate (digits.reverse.takeWhile (· == 48)).length 48 := by
    refine List.eq_replicate_iff.mpr ⟨rfl, fun c member => ?_⟩
    exact beq_iff_eq.mp (List.all_eq_true.mp List.all_takeWhile c member)
  have parts : digits.reverse =
      List.replicate (digits.reverse.takeWhile (· == 48)).length 48 ++
        digits.reverse.dropWhile (· == 48) := by
    rw [← zeros, List.takeWhile_append_dropWhile]
  have back := congrArg List.reverse parts
  rwa [List.reverse_reverse, List.reverse_append, List.reverse_replicate] at back

/-- **Digits with a point among them denote their number, scaled**; trailing zeros do not matter. -/
theorem literalValue_point (negative : Bool) {whole rest : Bytes} (some_digit : whole ≠ [])
    (all_digits : AllDigits whole) (no_leading_zero : whole.head? = some 48 → whole = [48])
    (rest_digits : AllDigits rest) (exponent : Option JsonExponent) :
    literalValue (minusBytes negative ++
        (whole ++ fractionText rest ++ (exponent.map JsonExponent.render).getD [])) =
      some (scaledValue negative (digitsValue 10 (whole ++ rest))
        ((exponent.map JsonExponent.value).getD 0 - rest.length)) := by
  obtain ⟨kept, z, rfl, text⟩ := fractionText_eq rest
  let n : JsonNumber :=
    { negative := negative
      whole := whole
      fraction := kept
      exponent := exponent
      some_digit := some_digit
      all_digits := all_digits
      no_leading_zero := no_leading_zero
      fraction_digits := fun c member => rest_digits c (List.mem_append_left _ member) }
  have render : n.render = minusBytes negative ++
      (whole ++ fractionText (kept ++ List.replicate z 48) ++
        (exponent.map JsonExponent.render).getD []) := by
    rw [text]
    rfl
  have zeros : digitsValue 10 (whole ++ (kept ++ List.replicate z 48)) =
      digitsValue 10 (whole ++ kept) * 10 ^ z := by
    rw [← List.append_assoc, digitsValue_append, digitsValue_replicate, List.length_replicate,
      Nat.add_zero]
  rw [← render, literalValue_render, zeros, scaledValue_shift, List.length_append,
    List.length_replicate]
  show some (scaledValue negative _ ((exponent.map JsonExponent.value).getD 0 - kept.length)) = _
  congr 2
  omega

theorem allDigits_exponentText (x : ℕ) : AllDigits (exponentText x) := by
  rw [exponentText]
  split
  · exact allDigits_append (allDigits_replicate 1) (allDigits_decimal x)
  · exact allDigits_decimal x

theorem digitsValue_exponentText (x : ℕ) : digitsValue 10 (exponentText x) = x := by
  rw [exponentText]
  split
  · show digitsValue 10 (List.replicate 1 48 ++ decimal x) = x
    rw [digitsValue_zeros, digitsValue_decimal]
  · exact digitsValue_decimal x

/-- The exponent of a text in exponent notation. -/
def writtenExponent (x : Int) : JsonExponent where
  upper := false
  sign := some (decide (x < 0))
  digits := exponentText x.natAbs
  some_digit := (isNumberText_exponentText _).some_byte
  all_digits := allDigits_exponentText _

theorem render_writtenExponent (x : Int) :
    (writtenExponent x).render = 101 :: (if x < 0 then 45 else 43) :: exponentText x.natAbs := by
  by_cases negative : x < 0
  · rw [JsonExponent.render, if_pos negative]
    show _ :: (JsonExponent.signBytes (some (decide (x < 0))) ++ _) = _
    rw [decide_eq_true negative]
    rfl
  · rw [JsonExponent.render, if_neg negative]
    show _ :: (JsonExponent.signBytes (some (decide (x < 0))) ++ _) = _
    rw [decide_eq_false negative]
    rfl

theorem value_writtenExponent (x : Int) : (writtenExponent x).value = x := by
  have size : (digitsValue 10 (writtenExponent x).digits : Int) = x.natAbs :=
    congrArg _ (digitsValue_exponentText x.natAbs)
  have sign : (writtenExponent x).sign = some true ↔ x < 0 := by
    show some (decide (x < 0)) = some true ↔ x < 0
    rw [Option.some.injEq, decide_eq_true_eq]
  rw [JsonExponent.value, size]
  by_cases negative : x < 0
  · rw [if_pos (sign.mpr negative)]
    omega
  · rw [if_neg (mt sign.mp negative)]
    omega

/-- The front of a number's digits does not start with a 0. -/
theorem head_take_decimal {n : ℕ} (positive : 0 < n) (k : ℕ) :
    ((decimal n).take (k + 1)).head? ≠ some 48 := by
  rw [List.head?_take, if_neg (Nat.succ_ne_zero k)]
  exact fun zero => positive.ne' (head_decimal zero)

/-- **Ten digits, written with their exponent, denote their number scaled.** -/
theorem literalValue_formatDigits (negative : Bool) {rounded : ℕ} (x : Int) (low : 10 ^ 9 ≤ rounded)
    (high : rounded < 10 ^ 10) :
    literalValue (minusBytes negative ++ formatDigits rounded x) =
      some (scaledValue negative rounded (x - 9)) := by
  have positive : 0 < rounded := Nat.lt_of_lt_of_le (by decide) low
  have all := allDigits_decimal rounded
  have ten : (decimal rounded).length = 10 := length_decimal_eq low high
  have front : ∀ k, (decimal rounded).take (k + 1) ≠ [] := fun k =>
    (isNumberText_take (decimal_ne_nil rounded) all k).some_byte
  have fronts : ∀ k, AllDigits ((decimal rounded).take k) := fun k =>
    allDigits_of_sublist (List.take_sublist _ _) all
  have backs : ∀ k, AllDigits ((decimal rounded).drop k) := fun k =>
    allDigits_of_sublist (List.drop_sublist _ _) all
  have split : ∀ k, digitsValue 10 ((decimal rounded).take k ++ (decimal rounded).drop k) = rounded :=
    fun k => by rw [List.take_append_drop, digitsValue_decimal]
  rw [formatDigits]
  by_cases fixed : 0 ≤ x ∧ x < 10
  · rw [if_pos fixed]
    have value := literalValue_point negative (front x.toNat) (fronts _)
      (fun zero => absurd zero (head_take_decimal positive _)) (backs (x.toNat + 1)) none
    rw [Option.map_none, Option.getD_none, List.append_nil, split, Option.map_none,
      Option.getD_none, List.length_drop, ten] at value
    rw [value]
    congr 2
    omega
  rw [if_neg fixed]
  by_cases small : -4 ≤ x ∧ x < 0
  · rw [if_pos small]
    have zero : AllDigits [48] := allDigits_replicate 1
    have value := literalValue_point negative (List.cons_ne_nil 48 []) zero (fun _ => rfl)
      (allDigits_append (allDigits_replicate (-x - 1).toNat) all) none
    have zeros : digitsValue 10 ([48] ++ (List.replicate (-x - 1).toNat 48 ++ decimal rounded)) =
        rounded := by
      show digitsValue 10 (List.replicate 1 48 ++ _) = rounded
      rw [digitsValue_zeros, digitsValue_zeros, digitsValue_decimal]
    rw [Option.map_none, Option.getD_none, List.append_nil, zeros, Option.map_none,
      Option.getD_none, List.length_append, List.length_replicate, ten] at value
    refine value.trans ?_
    congr 2
    omega
  · rw [if_neg small, ← render_writtenExponent]
    have value := literalValue_point negative (front 0) (fronts _)
      (fun zero => absurd zero (head_take_decimal positive _)) (backs 1) (some (writtenExponent x))
    rw [Option.map_some, Option.getD_some, split, Option.map_some, Option.getD_some,
      value_writtenExponent, List.length_drop, ten] at value
    exact value

theorem literalValue_intText (v : Int) : literalValue (intText v) = some (v : ℚ) := by
  have text : ∀ negative, literalValue (minusBytes negative ++ decimal v.natAbs) =
      some ((if negative then -(v.natAbs : Int) else v.natAbs : Int) : ℚ) := by
    intro negative
    have value := literalValue_point negative (decimal_ne_nil v.natAbs) (allDigits_decimal _)
      decimal_no_leading_zero (allDigits_replicate 0) none
    have no_fraction : fractionText (List.replicate 0 48) = [] := by decide
    rw [no_fraction, Option.map_none, Option.getD_none, List.append_nil, List.append_nil,
      List.replicate_zero, List.append_nil, digitsValue_decimal, Option.map_none, Option.getD_none,
      List.length_nil] at value
    rw [value, ← scaledValue_zero]
    rfl
  rw [intText]
  by_cases negative : v < 0
  · have same : (if true then -(v.natAbs : Int) else v.natAbs : Int) = v := by
      rw [if_pos rfl]
      omega
    rw [if_pos negative]
    have value := text true
    rw [same] at value
    exact value
  · have same : (if false then -(v.natAbs : Int) else v.natAbs : Int) = v := by
      rw [if_neg Bool.false_ne_true]
      omega
    rw [if_neg negative]
    have value := text false
    rw [same] at value
    exact value

/-- Rounding up to eleven digits moves the exponent. -/
theorem literalValue_carried (negative : Bool) {rounded : ℕ} (x : Int) (low : 10 ^ 9 ≤ rounded)
    (high : rounded ≤ 10 ^ 10) :
    literalValue (minusBytes negative ++
        if rounded = 10 ^ 10 then formatDigits (10 ^ 9) (x + 1) else formatDigits rounded x) =
      some (scaledValue negative rounded (x - 9)) := by
  by_cases carry : rounded = 10 ^ 10
  · rw [if_pos carry, literalValue_formatDigits negative (x + 1) (Nat.le_refl _) (by decide), carry]
    have shift := scaledValue_shift negative (10 ^ 9) 1 (x - 9)
    have same : x + 1 - 9 = x - 9 + (1 : ℕ) := by omega
    rw [same, ← shift]
    rfl
  · rw [if_neg carry]
    exact literalValue_formatDigits negative x low (Nat.lt_of_le_of_ne high carry)

/-- **The text of an integer as a double** denotes the integer, rounded to ten digits. -/
theorem literalValue_formatQuotient (negative : Bool) {n x : ℕ} (low : 10 ^ x ≤ n)
    (high : n < 10 ^ (x + 1)) :
    literalValue (minusBytes negative ++ formatQuotient n 1) =
      some (scaledValue negative (nearest.roundDigits 10 10 x n) 0) := by
  have exponent : decimalExponent n 1 = x := by
    have some_unit : 1 ≤ n := Nat.le_trans (Nat.pow_pos (by decide)) low
    rw [decimalExponent, if_pos some_unit, Nat.div_one, length_decimal_eq low high]
    omega
  rw [formatQuotient, exponent, Rounder.roundDigits, nearest_round]
  by_cases short : x < 10
  · have fixed : (x : Int) ≤ 9 := by omega
    have places : (9 - (x : Int)).toNat = 9 - x := by omega
    have whole : divRound (n * 10 ^ (9 - x)) 1 = n * 10 ^ (9 - x) := by
      have one := nearest.round_mul (n * 10 ^ (9 - x)) Nat.one_pos
      rwa [Nat.mul_one] at one
    have least : 10 ^ 9 ≤ n * 10 ^ (9 - x) := by
      rw [← pow_mul_of_add 10 (show x + (9 - x) = 9 by omega)]
      exact Nat.mul_le_mul_right _ low
    have most : n * 10 ^ (9 - x) ≤ 10 ^ 10 := by
      rw [← pow_mul_of_add 10 (show x + 1 + (9 - x) = 10 by omega)]
      exact Nat.mul_le_mul_right _ (Nat.le_of_lt high)
    rw [if_pos fixed, if_pos short, places, whole, literalValue_carried negative _ least most,
      scaledValue_shift]
    congr 2
    omega
  · have long : ¬ (x : Int) ≤ 9 := by omega
    have places : ((x : Int) - 9).toNat = x - 9 := by omega
    have drop : x + 1 - 10 = x - 9 := by omega
    have unit : 0 < 10 ^ (x - 9) := Nat.pow_pos (by decide)
    have least : 10 ^ 9 ≤ divRound n (10 ^ (x - 9)) := by
      refine nearest.le_round unit ?_
      rwa [pow_mul_of_add 10 (show 9 + (x - 9) = x by omega)]
    have most : divRound n (10 ^ (x - 9)) ≤ 10 ^ 10 := by
      refine nearest.round_le unit ?_
      rwa [pow_mul_of_add 10 (show 10 + (x - 9) = x + 1 by omega)]
    rw [if_neg long, if_neg short, places, drop, Nat.one_mul,
      literalValue_carried negative _ least most, scaledValue_shift]
    congr 2
    omega

end EtherAdapter
