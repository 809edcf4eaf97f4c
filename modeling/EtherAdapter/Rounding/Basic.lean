/-
**Rounding to so many digits**, in any base and by any way to round a quotient.

* `Rounder` — a choice between the two integers around a quotient, exact where there is no choice.
* `FewDigits` — a number with so many significant digits.
* **`Rounder.roundDigits_eq_iff`** — rounding to so many digits keeps a number exactly when it has no
  more.
-/

import Mathlib.Algebra.Order.Ring.Nat

namespace Rounding

theorem pow_mul_of_add (base : ℕ) {a b c : ℕ} (sum : a + b = c) : base ^ a * base ^ b = base ^ c := by
  rw [← Nat.pow_add, sum]

/-- At most `digits` significant digits in a base. -/
def FewDigits (base digits n : ℕ) : Prop := ∃ m e, n = m * base ^ e ∧ m < base ^ digits

theorem fewDigits_of_lt {base digits n : ℕ} (small : n < base ^ digits) : FewDigits base digits n :=
  ⟨n, 0, by rw [Nat.pow_zero, Nat.mul_one], small⟩

/-- **A way to round quotients**: down or up, and exact where it can be. -/
structure Rounder where
  round : ℕ → ℕ → ℕ
  div_le : ∀ n d, n / d ≤ round n d
  le_succ : ∀ n d, round n d ≤ n / d + 1
  of_dvd : ∀ n d, d ∣ n → round n d = n / d

namespace Rounder

variable (r : Rounder) {n d u : ℕ}

theorem round_mul_eq_iff : r.round n d * d = n ↔ d ∣ n := by
  constructor
  · intro same
    exact ⟨r.round n d, by rw [Nat.mul_comm, same]⟩
  · intro divides
    rw [r.of_dvd n d divides, Nat.div_mul_cancel divides]

theorem round_mul (a : ℕ) (positive : 0 < d) : r.round (a * d) d = a := by
  rw [r.of_dvd _ _ (Nat.dvd_mul_left d a), Nat.mul_div_cancel a positive]

theorem round_le (positive : 0 < d) (below : n < u * d) : r.round n d ≤ u :=
  Nat.le_trans (r.le_succ n d) ((Nat.div_lt_iff_lt_mul positive).mpr below)

theorem le_round (positive : 0 < d) (above : u * d ≤ n) : u ≤ r.round n d :=
  Nat.le_trans ((Nat.le_div_iff_mul_le positive).mpr above) (r.div_le n d)

/-- A number of `x + 1` digits, rounded to `digits` of them. -/
def roundDigits (base digits x n : ℕ) : ℕ :=
  if x < digits then n
  else r.round n (base ^ (x + 1 - digits)) * base ^ (x + 1 - digits)

/-- **Rounding keeps a number exactly when it has few digits.** -/
theorem roundDigits_eq_iff {base digits x : ℕ} (two : 1 < base) (low : base ^ x ≤ n)
    (high : n < base ^ (x + 1)) : r.roundDigits base digits x n = n ↔ FewDigits base digits n := by
  have power : ∀ e, 0 < base ^ e := fun e => Nat.pow_pos (by omega)
  rw [roundDigits]
  by_cases short : x < digits
  · rw [if_pos short]
    refine iff_of_true rfl (fewDigits_of_lt ?_)
    exact Nat.lt_of_lt_of_le high (Nat.pow_le_pow_right (by omega) short)
  · rw [if_neg short, r.round_mul_eq_iff]
    constructor
    · rintro ⟨m, rfl⟩
      refine ⟨m, x + 1 - digits, Nat.mul_comm _ _, ?_⟩
      rw [← pow_mul_of_add base (show x + 1 - digits + digits = x + 1 by omega)] at high
      exact Nat.lt_of_mul_lt_mul_left high
    · rintro ⟨m, e, rfl, few⟩
      have enough : x + 1 - digits ≤ e := by
        by_contra less
        have bound : base ^ (digits + e) ≤ base ^ x := Nat.pow_le_pow_right (by omega) (by omega)
        have below : m * base ^ e < base ^ (digits + e) := by
          rw [Nat.pow_add]
          exact Nat.mul_lt_mul_of_pos_right few (power e)
        omega
      exact Nat.dvd_trans (Nat.pow_dvd_pow base enough) (Nat.dvd_mul_left _ _)

end Rounder

end Rounding
