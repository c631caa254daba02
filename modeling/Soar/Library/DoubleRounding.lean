import Mathlib.Algebra.Order.Round
import Mathlib.Data.Int.Log
import Mathlib.Data.Rat.Floor
import Mathlib.Tactic.FieldSimp
import Mathlib.Tactic.Linarith

/-! Rounding of a rational number to an integer and to a double, to the even one of two nearest. -/
namespace Soar.Library

/-- The nearest integer, the even one of two. -/
def halfEven (x : ℚ) : ℤ :=
  if Int.fract x < 1 / 2 then ⌊x⌋
  else if 1 / 2 < Int.fract x then ⌊x⌋ + 1
  else if ⌊x⌋ % 2 = 0 then ⌊x⌋
  else ⌊x⌋ + 1

/-- The unit in the last of the 53 binary digits of a number. -/
def lastDigit (x : ℚ) : ℚ := 2 ^ (Int.log 2 |x| - 52)

/-- The nearest double, where the exponent has no bounds. -/
def double (x : ℚ) : ℚ := halfEven (x / lastDigit x) * lastDigit x

/-- The bits of a double that is not negative: those of the exponent above those of the digits. -/
def doubleBits (x : ℚ) : Nat :=
  if x = 0 then 0 else (Int.log 2 x + 1022).toNat * 2 ^ 52 + ⌊x / lastDigit x⌋.toNat

/-- Its bytes, the lowest first. -/
def doubleBytes (x : ℚ) : List UInt8 := (List.range 8).map fun i => .ofNat (doubleBits x / 256 ^ i)

@[simp] theorem length_doubleBytes (x : ℚ) : (doubleBytes x).length = 8 := by simp [doubleBytes]

theorem abs_sub_halfEven (x : ℚ) : |x - halfEven x| ≤ 1 / 2 := by
  have hfract : Int.fract x = x - ⌊x⌋ := rfl
  have hnonneg := Int.fract_nonneg x
  have hlt := Int.fract_lt_one x
  unfold halfEven
  split_ifs with hbelow habove heven
  · rw [abs_le]
    constructor <;> linarith
  · rw [abs_le]
    push_cast
    constructor <;> linarith
  · rw [abs_le]
    constructor <;> linarith
  · rw [abs_le]
    push_cast
    constructor <;> linarith

/-- An integer nearer than a half is the nearest. -/
theorem halfEven_eq {x : ℚ} {n : ℤ} (h : |x - n| < 1 / 2) : halfEven x = n := by
  have hround := abs_sub_halfEven x
  rw [abs_le] at hround
  rw [abs_lt] at h
  have habove : ((halfEven x : ℤ) : ℚ) < (n + 1 : ℤ) := by
    push_cast
    linarith
  have hbelow : ((n - 1 : ℤ) : ℚ) < (halfEven x : ℤ) := by
    push_cast
    linarith
  have habove := Int.cast_lt.mp habove
  have hbelow := Int.cast_lt.mp hbelow
  omega

theorem halfEven_nonneg {x : ℚ} (h : 0 ≤ x) : 0 ≤ halfEven x := by
  have hround := abs_sub_halfEven x
  rw [abs_le] at hround
  have hbelow : ((-1 : ℤ) : ℚ) < (halfEven x : ℤ) := by
    push_cast
    linarith
  exact Int.cast_lt.mp hbelow

/-- What is at most a half above an integer is not rounded above it. -/
theorem halfEven_le {x : ℚ} {n : ℤ} (h : x < n + 1 / 2) : halfEven x ≤ n := by
  have hround := abs_sub_halfEven x
  rw [abs_le] at hround
  have habove : ((halfEven x : ℤ) : ℚ) < (n + 1 : ℤ) := by
    push_cast
    linarith
  exact Int.lt_add_one_iff.mp (Int.cast_lt.mp habove)

theorem lastDigit_pos (x : ℚ) : 0 < lastDigit x := zpow_pos two_pos _

@[simp] theorem double_zero : double 0 = 0 := by
  have hhalf : halfEven 0 = 0 := halfEven_eq (by norm_num)
  rw [double, zero_div, hhalf, Int.cast_zero, zero_mul]

/-- The error is at most a half of the last digit. -/
theorem abs_double_sub_le (x : ℚ) : |double x - x| ≤ |x| / 2 ^ 53 := by
  by_cases hx : x = 0
  · rw [hx, double_zero, sub_zero, abs_zero, zero_div]
  · have hpos := lastDigit_pos x
    have hlog : (2 : ℚ) ^ Int.log 2 |x| ≤ |x| := by
      have := Int.zpow_log_le_self (b := 2) one_lt_two (abs_pos.mpr hx)
      rwa [Nat.cast_ofNat] at this
    have hdigit : lastDigit x = 2 ^ Int.log 2 |x| / 2 ^ 52 := by
      rw [lastDigit, zpow_sub₀ two_ne_zero]
      rfl
    calc |double x - x| = |halfEven (x / lastDigit x) * lastDigit x - x / lastDigit x * lastDigit x| := by
          rw [double, div_mul_cancel₀ x hpos.ne']
      _ = |x / lastDigit x - halfEven (x / lastDigit x)| * lastDigit x := by
          rw [← sub_mul, abs_mul, abs_of_pos hpos, abs_sub_comm]
      _ ≤ 1 / 2 * lastDigit x := mul_le_mul_of_nonneg_right (abs_sub_halfEven _) hpos.le
      _ ≤ |x| / 2 ^ 53 := by
          rw [hdigit]
          linarith

theorem double_nonneg {x : ℚ} (h : 0 ≤ x) : 0 ≤ double x :=
  mul_nonneg (Int.cast_nonneg (halfEven_nonneg (div_nonneg h (lastDigit_pos x).le))) (lastDigit_pos x).le

theorem double_neg {x : ℚ} (h : x < 0) : double x < 0 := by
  have herror := abs_le.mp (abs_double_sub_le x)
  rw [abs_of_neg h] at herror
  linarith

/-- Rounding keeps the sign. -/
theorem double_neg_iff {x : ℚ} : double x < 0 ↔ x < 0 :=
  ⟨fun h => not_le.mp fun hle => (double_nonneg hle).not_gt h, double_neg⟩

/-- The error below a bound. -/
theorem abs_double_sub_lt {x b : ℚ} (h : |x| < b * 2 ^ 53) : |double x - x| < b := by
  apply (abs_double_sub_le x).trans_lt
  rw [div_lt_iff₀ (by norm_num)]
  exact h

theorem double_pos {x : ℚ} (h : 0 < x) : 0 < double x := by
  have herror := abs_le.mp (abs_double_sub_le x)
  rw [abs_of_pos h] at herror
  linarith

theorem double_nonpos {x : ℚ} (h : x ≤ 0) : double x ≤ 0 := by
  have herror := abs_le.mp (abs_double_sub_le x)
  rw [abs_of_nonpos h] at herror
  linarith

end Soar.Library
