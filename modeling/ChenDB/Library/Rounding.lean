import Mathlib

/-
  Rounding to a double: 53 bits, and of two that are equally
  near the even one. The exponent has no bounds here.
-/

namespace Library

namespace Rounding

/- The integer next to a number, and of two the even one. -/
def roundEven (x : ℚ) : ℤ :=
  let left := Int.fract x
  if 1 / 2 < left ∨ left = 1 / 2 ∧ ⌊x⌋ % 2 = 1 then ⌊x⌋ + 1
  else ⌊x⌋

/- What the last of the 53 bits of a number is worth. -/
def unit (x : ℚ) : ℚ := 2 ^ (Int.log 2 x - 52)

/- The double next to a positive number. -/
def toDouble (x : ℚ) : ℚ := roundEven (x / unit x) * unit x

theorem roundEven_int (n : ℤ) : roundEven n = n := by
  unfold roundEven
  norm_num

/- A fraction of two powers apart that 53 bits hold. -/
theorem toDouble_exact
    {n i : ℕ}
    (hBits : n < 2 ^ 53) :
    toDouble (n / 2 ^ i) = n / 2 ^ i := by
  rcases Nat.eq_zero_or_pos n with rfl | hPos
  · simp [toDouble, roundEven]
  generalize hx : (n / 2 ^ i : ℚ) = x
  have hx0 : 0 < x := by
    rw [← hx]
    positivity
  have hUnit : unit x ≠ 0 := by
    unfold unit
    positivity
  -- The unit is no more than the lowest bit of the fraction.
  have hLog : Int.log 2 x ≤ 52 - i := by
    have hLow : (2 : ℚ) ^ Int.log 2 x ≤ x :=
      Int.zpow_log_le_self (by norm_num) hx0
    have hHigh : x < (2 : ℚ) ^ ((53 : ℤ) - i) := by
      rw [← hx, zpow_sub₀ (by norm_num), zpow_natCast]
      have hCast : (n : ℚ) < 2 ^ 53 := by exact_mod_cast hBits
      exact div_lt_div_of_pos_right hCast (by positivity)
    have hLess := (zpow_lt_zpow_iff_right₀
      (by norm_num : (1 : ℚ) < 2)).mp
        (lt_of_le_of_lt hLow hHigh)
    omega
  obtain ⟨j, hj⟩ := Int.le.dest (sub_nonneg.mpr hLog)
  have hWhole : x / unit x = ((n * 2 ^ j : ℕ) : ℤ) := by
    have hShift : unit x * 2 ^ j = 1 / 2 ^ i := by
      unfold unit
      rw [← zpow_natCast, ← zpow_add₀ (by norm_num),
        one_div, ← zpow_natCast, ← zpow_neg]
      congr 1
      omega
    rw [div_eq_iff hUnit]
    push_cast
    rw [mul_assoc, mul_comm (2 ^ j : ℚ), hShift, ← hx]
    ring
  unfold toDouble
  rw [hWhole, roundEven_int, ← hWhole, div_mul_cancel₀ _ hUnit]

end Rounding

end Library
