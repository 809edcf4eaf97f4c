/-
**Integers on their way through a double.**

* `nearest` — rounding to nearest, as a rounder.
* `IsInteger` — the bits of a double that is an integer; `roundDouble_isInteger` — the nearest double
  of an integer is one, of at most 53 significant bits.
* **`llround_toInt`** — `llround` of such a double is the integer, below `2^63`.
* `formatDouble_isInteger` — its text is the text of the integer as a quotient.
-/

import EtherAdapter.Rounding.Basic
import EtherAdapter.Writer.Sql

namespace EtherAdapter

open Rounding

/-! ### Rounding to nearest -/

theorem div_le_divRound (n d : ℕ) : n / d ≤ divRound n d := by
  unfold divRound
  simp only
  split <;> omega

theorem divRound_le_succ (n d : ℕ) : divRound n d ≤ n / d + 1 := by
  unfold divRound
  simp only
  split <;> omega

theorem divRound_of_dvd (n d : ℕ) (divides : d ∣ n) : divRound n d = n / d := by
  have none : n % d = 0 := Nat.mod_eq_zero_of_dvd divides
  rw [divRound]
  simp only [none]
  refine if_neg fun up => ?_
  rcases up with above | ⟨zero, odd⟩
  · omega
  · rw [← zero, Nat.mul_zero, Nat.div_zero] at odd
    cases odd

/-- To nearest, ties to even. -/
def nearest : Rounder := ⟨divRound, div_le_divRound, divRound_le_succ, divRound_of_dvd⟩

theorem nearest_round (n d : ℕ) : nearest.round n d = divRound n d := rfl

theorem divRound_mul_mul (a b : ℕ) {c : ℕ} (positive : 0 < c) :
    divRound (a * c) (b * c) = divRound a b := by
  have lost : ∀ k l : ℕ, k * c < l * c ↔ k < l := fun k l => Nat.mul_lt_mul_right positive
  have same : ∀ k l : ℕ, k * c = l * c ↔ k = l := fun k l => Nat.mul_left_inj positive.ne'
  unfold divRound
  simp only [Nat.mul_div_mul_right _ _ positive, Nat.mul_mod_mul_right, ← Nat.mul_assoc, lost, same]

/-! ### Doubles that are integers -/

/-- A double from its sign, its exponent field and its mantissa field. -/
def packDouble (negative : Bool) (e m : ℕ) : BitVec 64 :=
  BitVec.ofNat 64 ((if negative then 2 ^ 63 else 0) + (e * 2 ^ 52 + m))

section Fields

variable (negative : Bool) {e m : ℕ} (exponent : e < 2 ^ 11) (mantissa : m < 2 ^ 52)

include exponent mantissa

theorem toNat_packDouble :
    (packDouble negative e m).toNat = (if negative then 2 ^ 63 else 0) + (e * 2 ^ 52 + m) := by
  rw [packDouble, BitVec.toNat_ofNat, Nat.mod_eq_of_lt]
  split <;> omega

theorem sign_packDouble : 2 ^ 63 ≤ (packDouble negative e m).toNat ↔ negative = true := by
  rw [toNat_packDouble negative exponent mantissa]
  cases negative with
  | true => exact iff_of_true (by rw [if_pos rfl]; omega) rfl
  | false =>
    refine iff_of_false ?_ Bool.false_ne_true
    rw [if_neg Bool.false_ne_true]
    omega

theorem exponent_packDouble : (packDouble negative e m).toNat / 2 ^ 52 % 2 ^ 11 = e := by
  rw [toNat_packDouble negative exponent mantissa]
  split <;> omega

theorem mantissa_packDouble : (packDouble negative e m).toNat % 2 ^ 52 = m := by
  rw [toNat_packDouble negative exponent mantissa]
  split <;> omega

end Fields

/-- **The bits of an integer that is not 0**, with its sign and its size. -/
def IsInteger (bits : BitVec 64) (negative : Bool) (size : ℕ) : Prop :=
  ∃ e m, 0 < e ∧ e < 2047 ∧ m < 2 ^ 52 ∧ bits = packDouble negative e m ∧
    (m + 2 ^ 52) * 2 ^ e = size * 2 ^ 1075

/-- The bits `roundDouble` packs for an integer. -/
theorem roundDouble_nat (negative : Bool) {n : ℕ} (positive : 0 < n) :
    roundDouble negative n 1 = BitVec.ofNat 64 ((if negative then 2 ^ 63 else 0) +
      min ((Nat.log2 n + 1022) * 2 ^ 52 +
        (if 52 ≤ Nat.log2 n then divRound n (2 ^ (Nat.log2 n - 52))
          else n * 2 ^ (52 - Nat.log2 n))) (2047 * 2 ^ 52)) := by
  have reached : ¬ belowPower n 1 ((Nat.log2 n : Int) - (Nat.log2 1 : ℕ)) = true := by
    have low : 2 ^ Nat.log2 n ≤ n := Nat.log2_self_le positive.ne'
    have one : Nat.log2 1 = 0 := by decide
    rw [one, belowPower, Int.ofNat_zero, Int.sub_zero, if_pos (Int.natCast_nonneg _),
      Int.toNat_natCast, Nat.one_mul, decide_eq_true_eq]
    omega
  have unit : max ((Nat.log2 n : Int) - (Nat.log2 1 : ℕ) - 52) (-1074) = (Nat.log2 n : Int) - 52 := by
    have one : Nat.log2 1 = 0 := by decide
    rw [one]
    omega
  have field : ((Nat.log2 n : Int) - 52 + 1074).toNat = Nat.log2 n + 1022 := by omega
  rw [roundDouble, if_neg positive.ne']
  simp only [reached, Bool.false_eq_true, if_false, unit, field]
  by_cases large : 52 ≤ Nat.log2 n
  · have up : 0 ≤ (Nat.log2 n : Int) - 52 := by omega
    have shift : ((Nat.log2 n : Int) - 52).toNat = Nat.log2 n - 52 := by omega
    rw [if_pos up, if_pos large, shift, Nat.one_mul]
  · have down : ¬ 0 ≤ (Nat.log2 n : Int) - 52 := by omega
    have shift : (-((Nat.log2 n : Int) - 52)).toNat = 52 - Nat.log2 n := by omega
    have whole : divRound (n * 2 ^ (52 - Nat.log2 n)) 1 = n * 2 ^ (52 - Nat.log2 n) := by
      have one := nearest.round_mul (n * 2 ^ (52 - Nat.log2 n)) Nat.one_pos
      rwa [Nat.mul_one] at one
    rw [if_neg down, if_neg large, shift, whole]

/-- The significand of a number of `x + 1` bits: 53 bits, or one more after rounding up. -/
theorem significand_facts {n x : ℕ} (low : 2 ^ x ≤ n) (high : n < 2 ^ (x + 1)) :
    2 ^ 52 ≤ (if 52 ≤ x then divRound n (2 ^ (x - 52)) else n * 2 ^ (52 - x)) ∧
      (if 52 ≤ x then divRound n (2 ^ (x - 52)) else n * 2 ^ (52 - x)) ≤ 2 ^ 53 ∧
      (if 52 ≤ x then divRound n (2 ^ (x - 52)) else n * 2 ^ (52 - x)) * 2 ^ (x + 1023) =
        nearest.roundDigits 2 53 x n * 2 ^ 1075 := by
  by_cases large : 52 ≤ x
  · rw [if_pos large]
    have unit : 0 < 2 ^ (x - 52) := Nat.two_pow_pos _
    refine ⟨nearest.le_round unit ?_, nearest.round_le unit ?_, ?_⟩
    · rwa [pow_mul_of_add 2 (Nat.add_sub_cancel' large)]
    · rwa [pow_mul_of_add 2 (show 53 + (x - 52) = x + 1 by omega)]
    · rw [Rounder.roundDigits]
      by_cases exact_ : x < 53
      · have same : x = 52 := by omega
        have whole : divRound n 1 = n := by
          have one := nearest.round_mul n Nat.one_pos
          rwa [Nat.mul_one] at one
        rw [if_pos exact_, same, Nat.sub_self, Nat.pow_zero, whole]
      · rw [if_neg exact_, nearest_round, show x + 1 - 53 = x - 52 by omega, Nat.mul_assoc,
          pow_mul_of_add 2 (show x - 52 + 1075 = x + 1023 by omega)]
  · rw [if_neg large]
    refine ⟨?_, Nat.le_of_lt ?_, ?_⟩
    · rw [← pow_mul_of_add 2 (show x + (52 - x) = 52 by omega)]
      exact Nat.mul_le_mul_right _ low
    · rw [← pow_mul_of_add 2 (show x + 1 + (52 - x) = 53 by omega)]
      exact Nat.mul_lt_mul_of_pos_right high (Nat.two_pow_pos _)
    · rw [Rounder.roundDigits, if_pos (by omega), Nat.mul_assoc,
        pow_mul_of_add 2 (show 52 - x + (x + 1023) = 1075 by omega)]

/-- **The nearest double of an integer** is the integer rounded to 53 significant bits. -/
theorem roundDouble_isInteger (negative : Bool) {n : ℕ} (positive : 0 < n) (small : n < 2 ^ 64) :
    IsInteger (roundDouble negative n 1) negative (nearest.roundDigits 2 53 (Nat.log2 n) n) := by
  have low : 2 ^ Nat.log2 n ≤ n := Nat.log2_self_le positive.ne'
  have high : n < 2 ^ (Nat.log2 n + 1) := Nat.lt_log2_self
  have bits : Nat.log2 n < 64 := (Nat.log2_lt positive.ne').mpr small
  rw [roundDouble_nat negative positive]
  generalize significand_eq : (if 52 ≤ Nat.log2 n then divRound n (2 ^ (Nat.log2 n - 52))
    else n * 2 ^ (52 - Nat.log2 n)) = significand
  -- 53 bits, and their weight; rounding up may make them 2^53
  have facts : 2 ^ 52 ≤ significand ∧ significand ≤ 2 ^ 53 ∧
      significand * 2 ^ (Nat.log2 n + 1023) = nearest.roundDigits 2 53 (Nat.log2 n) n * 2 ^ 1075 := by
    rw [← significand_eq]
    exact significand_facts low high
  obtain ⟨enough, most, weight⟩ := facts
  have inside : min ((Nat.log2 n + 1022) * 2 ^ 52 + significand) (2047 * 2 ^ 52) =
      (Nat.log2 n + 1022) * 2 ^ 52 + significand := by omega
  rw [inside]
  by_cases carry : significand = 2 ^ 53
  · have fields : (Nat.log2 n + 1022) * 2 ^ 52 + significand =
        (Nat.log2 n + 1024) * 2 ^ 52 + 0 := by omega
    refine ⟨Nat.log2 n + 1024, 0, by omega, by omega, by decide, ?_, ?_⟩
    · rw [packDouble, fields]
    · rw [← weight, carry, Nat.zero_add, Nat.pow_succ 2 (Nat.log2 n + 1023)]
      omega
  · have fields : (Nat.log2 n + 1022) * 2 ^ 52 + significand =
        (Nat.log2 n + 1023) * 2 ^ 52 + (significand - 2 ^ 52) := by omega
    refine ⟨Nat.log2 n + 1023, significand - 2 ^ 52, by omega, by omega, by omega, ?_, ?_⟩
    · rw [packDouble, fields]
    · rw [← weight, Nat.sub_add_cancel enough]

/-! ### Out of the double -/

/-- A quotient that is an integer, over 1. -/
theorem formatQuotient_mul {n d : ℕ} (some_unit : 0 < n) (positive : 0 < d) :
    formatQuotient (n * d) d = formatQuotient n 1 := by
  have exponent : decimalExponent (n * d) d = decimalExponent n 1 := by
    rw [decimalExponent, decimalExponent, Nat.mul_div_cancel n positive, Nat.div_one,
      if_pos (Nat.le_mul_of_pos_left d some_unit), if_pos (Nat.succ_le_of_lt some_unit)]
  have up : ∀ k, divRound (n * d * 10 ^ k) d = divRound (n * 10 ^ k) 1 := by
    intro k
    rw [Nat.mul_right_comm]
    simpa only [Nat.one_mul] using divRound_mul_mul (n * 10 ^ k) 1 positive
  have down : ∀ k, divRound (n * d) (d * 10 ^ k) = divRound n (1 * 10 ^ k) := by
    intro k
    rw [Nat.mul_comm d, Nat.one_mul, divRound_mul_mul n _ positive]
  rw [formatQuotient, formatQuotient, exponent]
  simp only [up, down]

section Out

variable {bits : BitVec 64} {negative : Bool} {size : ℕ} (integer : IsInteger bits negative size)

include integer

/-- The fields of an integer, and its significand scaled. -/
theorem IsInteger.fields : ∃ e m, 0 < e ∧ e < 2047 ∧ bits.toNat / 2 ^ 52 % 2 ^ 11 = e ∧
    bits.toNat % 2 ^ 52 = m ∧ (2 ^ 63 ≤ bits.toNat ↔ negative = true) ∧
      (1075 ≤ e → (m + 2 ^ 52) * 2 ^ (e - 1075) = size) ∧
      (e < 1075 → m + 2 ^ 52 = size * 2 ^ (1075 - e)) := by
  obtain ⟨e, m, some_exponent, finite, mantissa, rfl, weight⟩ := integer
  have exponent : e < 2 ^ 11 := by omega
  refine ⟨e, m, some_exponent, finite, exponent_packDouble negative exponent mantissa,
    mantissa_packDouble negative exponent mantissa, sign_packDouble negative exponent mantissa,
    fun large => ?_, fun small => ?_⟩
  · refine Nat.eq_of_mul_eq_mul_right (Nat.two_pow_pos 1075) ?_
    have power : 2 ^ (e - 1075) * 2 ^ 1075 = 2 ^ e := pow_mul_of_add 2 (Nat.sub_add_cancel large)
    calc (m + 2 ^ 52) * 2 ^ (e - 1075) * 2 ^ 1075
        = (m + 2 ^ 52) * (2 ^ (e - 1075) * 2 ^ 1075) := Nat.mul_assoc _ _ _
      _ = (m + 2 ^ 52) * 2 ^ e := congrArg _ power
      _ = size * 2 ^ 1075 := weight
  · refine Nat.eq_of_mul_eq_mul_right (Nat.two_pow_pos e) ?_
    rw [weight, Nat.mul_assoc, pow_mul_of_add 2 (Nat.sub_add_cancel (Nat.le_of_lt small))]

theorem IsInteger.size_pos : 0 < size := by
  obtain ⟨e, m, _, _, _, _, weight⟩ := integer
  have some_weight : 0 < (m + 2 ^ 52) * 2 ^ e := Nat.mul_pos (by omega) (Nat.two_pow_pos e)
  refine Nat.pos_of_ne_zero fun zero => ?_
  rw [weight, zero, Nat.zero_mul] at some_weight
  exact Nat.lt_irrefl 0 some_weight

/-- **`llround` of an integer** is the integer, and the smallest one from `2^63` on. -/
theorem llround_toInt : (llround bits).toInt =
    if 2 ^ 63 ≤ size then -2 ^ 63 else if negative then -(size : Int) else size := by
  obtain ⟨e, m, some_exponent, finite, exponent, mantissa, sign, above, below⟩ := integer.fields
  have scale : max e 1 = e := by omega
  have rounded : (if 1075 ≤ e then (m + 2 ^ 52) * 2 ^ (e - 1075)
      else (m + 2 ^ 52 + 2 ^ (1074 - e)) / 2 ^ (1075 - e)) = size := by
    by_cases large : 1075 ≤ e
    · rw [if_pos large, above large]
    · have half : 2 ^ (1074 - e) < 2 ^ (1075 - e) := Nat.pow_lt_pow_right (by omega) (by omega)
      rw [if_neg large, below (by omega), Nat.mul_comm,
        Nat.mul_add_div (Nat.two_pow_pos _), Nat.div_eq_of_lt half, Nat.add_zero]
  rw [llround]
  simp only [exponent, mantissa, scale, if_neg some_exponent.ne', rounded]
  by_cases outside : 2 ^ 63 ≤ size
  · rw [if_pos (Or.inr outside), if_pos outside]
    decide
  · rw [if_neg (by omega), if_neg outside]
    by_cases minus : negative = true
    · rw [if_pos (sign.mpr minus), if_pos minus, BitVec.toInt_ofInt, Int.bmod_def]
      omega
    · rw [if_neg (mt sign.mp minus), if_neg minus, BitVec.toInt_eq_toNat_bmod, BitVec.toNat_ofNat,
        Int.bmod_def]
      omega

/-- **The text of an integer** is that of its size, behind its sign. -/
theorem formatDouble_isInteger :
    formatDouble bits = (if negative then [45] else []) ++ formatQuotient size 1 := by
  obtain ⟨e, m, some_exponent, finite, exponent, mantissa, sign, above, below⟩ := integer.fields
  have scale : max e 1 = e := by omega
  have some_bit : m + 2 ^ 52 ≠ 0 := by omega
  have signs : (if 2 ^ 63 ≤ bits.toNat then [45] else [] : Bytes) =
      if negative then [45] else [] := if_congr sign rfl rfl
  rw [formatDouble]
  simp only [exponent, mantissa, scale, if_neg some_exponent.ne', if_neg finite.ne, if_neg some_bit,
    signs]
  by_cases large : 1075 ≤ e
  · rw [if_pos large, above large]
  · rw [if_neg large, below (by omega), formatQuotient_mul integer.size_pos (Nat.two_pow_pos _)]

end Out

end EtherAdapter
