import Mathlib.Data.Int.Log
import Mathlib.Data.Rat.Floor
import Mathlib.Tactic

/-!
# Double precision numbers

The numbers of the binary64 format as rational numbers: `round` is rounding to the nearest
one, ties to even, with an unbounded exponent, and `of_rat` also checks that the result is
finite.
-/

namespace Double

/-- The nearest integer, the even one of two. -/
def round_half_even (x : ℚ) : ℤ :=
  if x - ⌊x⌋ < 1 / 2 then ⌊x⌋
  else if 1 / 2 < x - ⌊x⌋ then ⌊x⌋ + 1
  else if ⌊x⌋ % 2 = 0 then ⌊x⌋ else ⌊x⌋ + 1

/-- The distance of the numbers of the format around `x`: 53 bits, and no more than 1074
places after the point. -/
def ulp (x : ℚ) : ℚ := 2 ^ (max (Int.log 2 |x| - 52) (-1074))

/-- The nearest number of the format. -/
def round (x : ℚ) : ℚ := round_half_even (x / ulp x) * ulp x

/-- The nearest finite number of the format. -/
def of_rat (x : ℚ) : Option ℚ := if |round x| < 2 ^ 1024 then some (round x) else none

/-- The conversion to an integer, towards zero. -/
def trunc (x : ℚ) : ℤ := if 0 ≤ x then ⌊x⌋ else ⌈x⌉

example : of_rat (11 / 10) = some (2476979795053773 / 2251799813685248) := by decide +kernel

/-! ## Rounding -/

@[simp] theorem round_half_even_intCast (n : ℤ) : round_half_even n = n := by
  simp [round_half_even]

theorem round_half_even_nonneg {x : ℚ} (h : 0 ≤ x) : 0 ≤ round_half_even x := by
  have hfloor : 0 ≤ ⌊x⌋ := Int.floor_nonneg.mpr h
  unfold round_half_even
  split_ifs <;> omega

theorem ulp_pos (x : ℚ) : 0 < ulp x := zpow_pos (by norm_num) _

theorem round_nonneg {x : ℚ} (h : 0 ≤ x) : 0 ≤ round x := by
  have hquot : 0 ≤ round_half_even (x / ulp x) :=
    round_half_even_nonneg (div_nonneg h (ulp_pos x).le)
  exact mul_nonneg (by exact_mod_cast hquot) (ulp_pos x).le

theorem trunc_nonneg {x : ℚ} (h : 0 ≤ x) : 0 ≤ trunc x := by
  rw [trunc, if_pos h]
  exact Int.floor_nonneg.mpr h

/-- What is finite is the rounded number. -/
theorem of_rat_eq_some {x y : ℚ} (h : of_rat x = some y) : y = round x := by
  unfold of_rat at h
  split_ifs at h
  exact (Option.some.inj h).symm

/-- A multiple of the distance around it is a number of the format. -/
theorem round_eq_self {x : ℚ} {m : ℤ} (h : x = m * ulp x) : round x = x := by
  have hdiv : x / ulp x = m := by
    rw [div_eq_iff (ulp_pos x).ne']
    exact h
  rw [round, hdiv, round_half_even_intCast]
  exact h.symm

@[simp] theorem round_zero : round 0 = 0 := by
  have h := round_half_even_intCast 0
  rw [Int.cast_zero] at h
  rw [round, zero_div, h, Int.cast_zero, zero_mul]

/-- Integers of at most 53 bits are numbers of the format. -/
theorem round_intCast {n : ℤ} (h : |n| < 2 ^ 53) : round n = n := by
  rcases eq_or_ne n 0 with rfl | hn
  · rw [Int.cast_zero, round_zero]
  · have habs : (0 : ℚ) < |(n : ℚ)| := abs_pos.mpr (by exact_mod_cast hn)
    have hlt : |(n : ℚ)| < (2 : ℕ) ^ (53 : ℤ) := by exact_mod_cast h
    have hlog : Int.log 2 |(n : ℚ)| < 53 := (Int.lt_zpow_iff_log_lt (by norm_num) habs).mp hlt
    obtain ⟨k, hk⟩ : ∃ k : ℕ, max (Int.log 2 |(n : ℚ)| - 52) (-1074) = -(k : ℤ) :=
      ⟨(-max (Int.log 2 |(n : ℚ)| - 52) (-1074)).toNat, by omega⟩
    have hulp : ulp n = ((2 : ℚ) ^ k)⁻¹ := by rw [ulp, hk, zpow_neg, zpow_natCast]
    have hmul : (n : ℚ) = ((n * 2 ^ k : ℤ) : ℚ) * ulp n := by
      rw [hulp]
      push_cast
      field_simp
    exact round_eq_self hmul

/-! ## How far rounding goes -/

/-- Rounding to an integer moves a number by no more than a half. -/
theorem abs_round_half_even_sub_le (x : ℚ) : |(round_half_even x : ℚ) - x| ≤ 1 / 2 := by
  have hlow : (⌊x⌋ : ℚ) ≤ x := Int.floor_le x
  have hhigh : x < ⌊x⌋ + 1 := Int.lt_floor_add_one x
  unfold round_half_even
  split_ifs with hless hmore heven
  · rw [abs_le]
    constructor <;> linarith
  · rw [abs_le]
    push_cast
    constructor <;> linarith
  · rw [abs_le]
    constructor <;> linarith
  · rw [abs_le]
    push_cast
    constructor <;> linarith

/-- An integer is the nearest one where a number is above it by less than a half. -/
theorem round_half_even_eq {x : ℚ} {n : ℤ} (hlow : (n : ℚ) ≤ x) (hhigh : x < n + 1 / 2) :
    round_half_even x = n := by
  have hfloor : ⌊x⌋ = n := Int.floor_eq_iff.mpr ⟨hlow, by linarith⟩
  rw [round_half_even, hfloor, if_pos (by linarith)]

/-- Rounding moves a number by no more than half the distance of the numbers around it. -/
theorem abs_round_sub_le (x : ℚ) : |round x - x| ≤ ulp x / 2 := by
  have hulp := ulp_pos x
  have hsplit : round x - x = ((round_half_even (x / ulp x) : ℚ) - x / ulp x) * ulp x := by
    rw [sub_mul, div_mul_cancel₀ x hulp.ne']
    rfl
  rw [hsplit, abs_mul, abs_of_pos hulp]
  have hle := mul_le_mul_of_nonneg_right (abs_round_half_even_sub_le (x / ulp x)) hulp.le
  linarith

/-- The distance around numbers below a power of two. -/
theorem ulp_le {x : ℚ} {k : ℕ} (hpos : 0 < x) (hlt : x < 2 ^ (k + 1)) (hk : k ≤ 52) :
    ulp x ≤ 1 / 2 ^ (52 - k) := by
  have habs : |x| = x := abs_of_pos hpos
  have hlog : Int.log 2 x < (k + 1 : ℕ) := by
    refine (Int.lt_zpow_iff_log_lt (by norm_num) hpos).mp ?_
    rw [zpow_natCast]
    exact_mod_cast hlt
  have hexp : max (Int.log 2 |x| - 52) (-1074) ≤ -((52 - k : ℕ) : ℤ) := by
    rw [habs]
    push_cast at hlog
    omega
  have hle : (2 : ℚ) ^ max (Int.log 2 |x| - 52) (-1074) ≤ 2 ^ (-((52 - k : ℕ) : ℤ)) :=
    zpow_le_zpow_right₀ (by norm_num) hexp
  rw [zpow_neg, zpow_natCast] at hle
  rw [one_div]
  exact hle

/-! ## Truncation -/

theorem le_trunc_of_pos {k : ℤ} (hk : 0 < k) {x : ℚ} : k ≤ trunc x ↔ (k : ℚ) ≤ x := by
  unfold trunc
  split_ifs with hx
  · exact Int.le_floor
  · have hceil : ⌈x⌉ ≤ 0 := Int.ceil_le.mpr (by push_cast; linarith)
    have hkx : (0 : ℚ) < k := by exact_mod_cast hk
    constructor
    · intro h
      omega
    · intro h
      linarith

theorem le_trunc_of_nonpos {k : ℤ} (hk : k ≤ 0) {x : ℚ} : k ≤ trunc x ↔ (k : ℚ) - 1 < x := by
  have hkx : (k : ℚ) ≤ 0 := by exact_mod_cast hk
  unfold trunc
  split_ifs with hx
  · have hfloor : 0 ≤ ⌊x⌋ := Int.floor_nonneg.mpr hx
    constructor
    · intro _
      linarith
    · intro _
      omega
  · have hlt : k ≤ ⌈x⌉ ↔ k - 1 < ⌈x⌉ := by omega
    rw [hlt, Int.lt_ceil]
    push_cast
    exact Iff.rfl

/-! ## Division by a power of two -/

theorem log_div_eight {x : ℚ} (hx : 0 < x) : Int.log 2 (x / 8) = Int.log 2 x - 3 := by
  have hdiv : 0 < x / 8 := by positivity
  have height : (8 : ℚ) = 2 ^ (3 : ℤ) := by norm_num
  have hlow : ((2 : ℕ) : ℚ) ^ (Int.log 2 x - 3) ≤ x / 8 := by
    rw [Nat.cast_two, height, zpow_sub₀ (by norm_num)]
    have hle : ((2 : ℕ) : ℚ) ^ Int.log 2 x ≤ x := Int.zpow_log_le_self (by norm_num) hx
    rw [Nat.cast_two] at hle
    gcongr
  have hhigh : x / 8 < ((2 : ℕ) : ℚ) ^ (Int.log 2 x - 3 + 1) := by
    have hexp : Int.log 2 x - 3 + 1 = Int.log 2 x + 1 - 3 := by ring
    rw [Nat.cast_two, hexp, height, zpow_sub₀ (by norm_num)]
    have hlt : x < ((2 : ℕ) : ℚ) ^ (Int.log 2 x + 1) := Int.lt_zpow_succ_log_self (by norm_num) x
    rw [Nat.cast_two] at hlt
    gcongr
  have hle := (Int.zpow_le_iff_le_log (by norm_num) hdiv).mp hlow
  have hlt := (Int.lt_zpow_iff_log_lt (by norm_num) hdiv).mp hhigh
  omega

/-- Far from the smallest numbers, division by 8 commutes with rounding. -/
theorem round_div_eight (n : ℤ) : round ((n : ℚ) / 8) = round n / 8 := by
  rcases eq_or_ne n 0 with rfl | hn
  · simp
  · have habs : (1 : ℚ) ≤ |(n : ℚ)| := by exact_mod_cast Int.one_le_abs hn
    have hpos : (0 : ℚ) < |(n : ℚ)| := by linarith
    have hlog : 0 ≤ Int.log 2 |(n : ℚ)| := by
      refine (Int.zpow_le_iff_le_log (by norm_num) hpos).mp ?_
      simpa using habs
    have hulp : ulp ((n : ℚ) / 8) = ulp n / 8 := by
      have height : (8 : ℚ) = 2 ^ (3 : ℤ) := by norm_num
      have hexp : max (Int.log 2 |(n : ℚ) / 8| - 52) (-1074) =
          max (Int.log 2 |(n : ℚ)| - 52) (-1074) - 3 := by
        rw [abs_div, abs_of_pos (show (0 : ℚ) < 8 by norm_num), log_div_eight hpos]
        omega
      rw [ulp, hexp, zpow_sub₀ (by norm_num), ← height, ulp]
    have hquot : (n : ℚ) / 8 / (ulp n / 8) = n / ulp n := by
      have hne := (ulp_pos n).ne'
      field_simp
    rw [round, hulp, hquot, round, mul_div_assoc]

end Double
