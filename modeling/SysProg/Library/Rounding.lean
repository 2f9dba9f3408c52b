import Mathlib.Data.Int.Log
import Mathlib.Data.Rat.Floor
import Mathlib.Algebra.Order.Floor.Semifield
import Mathlib.Tactic.Linarith
import Mathlib.Tactic.FieldSimp

namespace SysProg

/-! # Rounding to a binary significand

Values of a binary floating-point type with `precision` bits of significand,
as rationals, in the range where exponents are not limited.
-/

/-- The nearest integer, and the even one of two. -/
def roundEven (q : ℚ) : ℤ :=
  if q - ⌊q⌋ < 1 / 2 then ⌊q⌋
  else if 1 / 2 < q - ⌊q⌋ then ⌊q⌋ + 1
  else if ⌊q⌋ % 2 = 0 then ⌊q⌋
  else ⌊q⌋ + 1

/-- The distance of neighbouring values at the magnitude of `q`. -/
def spacing (precision : ℕ) (q : ℚ) : ℚ := 2 ^ (Int.log 2 |q| - (precision - 1))

def roundTo (precision : ℕ) (q : ℚ) : ℚ :=
  roundEven (q / spacing precision q) * spacing precision q

theorem roundEven_intCast (n : ℤ) : roundEven n = n := by
  simp [roundEven]

theorem roundTo_of_multiple {precision : ℕ} {q : ℚ} {n : ℤ} (multiple : q / spacing precision q = n) :
    roundTo precision q = q := by
  have positive : spacing precision q ≠ 0 := zpow_ne_zero _ two_ne_zero
  rw [roundTo, multiple, roundEven_intCast, ← multiple, div_mul_cancel₀ _ positive]

/-- Halves of integers are represented exactly while they fit the significand. -/
theorem roundTo_half {precision n : ℕ} (fits : n < 2 ^ precision) :
    roundTo precision ((n : ℚ) / 2) = (n : ℚ) / 2 := by
  rcases Nat.eq_zero_or_pos n with rfl | positive
  · exact roundTo_of_multiple (n := 0) (by simp)
  · have value : (0 : ℚ) < (n : ℚ) / 2 := by positivity
    have magnitude : Int.log 2 |(n : ℚ) / 2| < (precision : ℤ) - 1 := by
      rw [abs_of_pos value, ← Int.lt_zpow_iff_log_lt (by norm_num) value, zpow_sub₀ (by norm_num)]
      have bound : (n : ℚ) < 2 ^ precision := by exact_mod_cast fits
      simpa using div_lt_div_of_pos_right bound (by norm_num : (0 : ℚ) < 2)
    obtain ⟨k, shift⟩ : ∃ k : ℕ, (precision : ℤ) - 1 - Int.log 2 |(n : ℚ) / 2| = k + 1 :=
      ⟨((precision : ℤ) - 2 - Int.log 2 |(n : ℚ) / 2|).toNat, by omega⟩
    have scale : spacing precision ((n : ℚ) / 2) = (2 ^ (k + 1))⁻¹ := by
      have exponent : Int.log 2 |(n : ℚ) / 2| - ((precision : ℤ) - 1) = -((k + 1 : ℕ) : ℤ) := by
        push_cast
        omega
      rw [spacing, exponent, zpow_neg, zpow_natCast]
    apply roundTo_of_multiple (n := (n * 2 ^ k : ℕ))
    rw [scale]
    push_cast
    field_simp
    ring

end SysProg
