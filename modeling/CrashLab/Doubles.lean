import Mathlib.Data.Int.Log
import Mathlib.Tactic

namespace CrashLab.Doubles

section RoundHalfEven

def roundHalfEven (q : ℚ) : ℤ :=
  let low := ⌊q⌋
  let rest := q - low
  if rest < 1 / 2 then low
  else if 1 / 2 < rest then low + 1
  else if low % 2 = 0 then low
  else low + 1

theorem abs_roundHalfEven_sub_le (q : ℚ) : |roundHalfEven q - q| ≤ 1 / 2 := by
  have hlow := Int.floor_le q
  have hhigh := Int.lt_floor_add_one q
  unfold roundHalfEven
  dsimp only
  rw [abs_le]
  split_ifs <;> push_cast <;> constructor <;> linarith

theorem roundHalfEven_intCast (n : ℤ) : roundHalfEven n = n := by
  simp [roundHalfEven]

end RoundHalfEven

def ulp (q : ℚ) : ℚ := 2 ^ (Int.log 2 |q| - 52)

def toDouble (q : ℚ) : ℚ := roundHalfEven (q / ulp q) * ulp q

theorem ulp_pos (q : ℚ) : 0 < ulp q := by
  unfold ulp
  positivity

theorem ulp_le {q : ℚ} (h : q ≠ 0) : ulp q ≤ |q| * 2 ^ (-52 : ℤ) := by
  have hlog := Int.zpow_log_le_self (b := 2) (by decide) (abs_pos.mpr h)
  rw [ulp, sub_eq_add_neg, zpow_add₀ two_ne_zero]
  exact mul_le_mul_of_nonneg_right (by exact_mod_cast hlog) (by positivity)

theorem abs_toDouble_sub_le (q : ℚ) : |toDouble q - q| ≤ |q| * 2 ^ (-53 : ℤ) := by
  by_cases hzero : q = 0
  · simp [hzero, toDouble, roundHalfEven]
  · have hulp := ulp_pos q
    have hsplit : toDouble q - q = (roundHalfEven (q / ulp q) - q / ulp q) * ulp q := by
      rw [toDouble, sub_mul, div_mul_cancel₀ _ hulp.ne']
    rw [hsplit, abs_mul, abs_of_pos hulp]
    calc |(roundHalfEven (q / ulp q) : ℚ) - q / ulp q| * ulp q
      _ ≤ 1 / 2 * ulp q := mul_le_mul_of_nonneg_right (abs_roundHalfEven_sub_le _) hulp.le
      _ ≤ 1 / 2 * (|q| * 2 ^ (-52 : ℤ)) := mul_le_mul_of_nonneg_left (ulp_le hzero) (by norm_num)
      _ = |q| * 2 ^ (-53 : ℤ) := by ring

theorem toDouble_natCast {n : ℕ} (h : n < 2 ^ 53) : toDouble n = n := by
  have hlog : Int.log 2 |(n : ℚ)| = Nat.log 2 n := by
    rw [Nat.abs_cast, Int.log_natCast]
  have hsmall : Nat.log 2 n ≤ 52 := by
    by_cases hzero : n = 0
    · simp [hzero]
    · exact Nat.lt_succ_iff.mp (Nat.log_lt_of_lt_pow hzero h)
  have hulp : ulp n = ((2 ^ (52 - Nat.log 2 n) : ℕ) : ℚ)⁻¹ := by
    rw [ulp, hlog]
    push_cast
    rw [← zpow_natCast, ← zpow_neg]
    congr 1
    omega
  have hwhole : (n : ℚ) / ulp n = ((n * 2 ^ (52 - Nat.log 2 n) : ℕ) : ℤ) := by
    rw [hulp, div_inv_eq_mul]
    push_cast
    rfl
  rw [toDouble, hwhole, roundHalfEven_intCast, ← hwhole, div_mul_cancel₀ _ (ulp_pos _).ne']

theorem floor_toDouble_div {n d : ℕ} (h : n < 2 ^ 53) (hd : 0 < d) :
    ⌊toDouble ((n : ℚ) / d)⌋ = ((n / d : ℕ) : ℤ) := by
  have hd' : (0 : ℚ) < d := by exact_mod_cast hd
  have hn : (n : ℚ) = d * (n / d : ℕ) + (n % d : ℕ) := by exact_mod_cast (Nat.div_add_mod n d).symm
  have hquotient : (n : ℚ) / d = (n / d : ℕ) + (n % d : ℕ) / d := by
    conv_lhs => rw [hn, add_div, mul_div_cancel_left₀ _ hd'.ne']
  by_cases hzero : n % d = 0
  · have hwhole : n / d < 2 ^ 53 := (Nat.div_le_self n d).trans_lt h
    rw [hquotient, hzero, Nat.cast_zero, zero_div, add_zero, toDouble_natCast hwhole]
    exact Int.floor_natCast _
  · have herror := abs_toDouble_sub_le ((n : ℚ) / d)
    have hsmall : |(n : ℚ) / d| * 2 ^ (-53 : ℤ) < 1 / d := by
      rw [abs_of_nonneg (by positivity), div_mul_eq_mul_div, div_lt_div_iff_of_pos_right hd', zpow_neg,
        ← div_eq_mul_inv, div_lt_one (by positivity)]
      exact_mod_cast h
    have hlow : 1 / (d : ℚ) ≤ (n % d : ℕ) / d := by
      rw [div_le_div_iff_of_pos_right hd']
      exact_mod_cast Nat.one_le_iff_ne_zero.mpr hzero
    have hhigh : ((n % d : ℕ) : ℚ) / d + 1 / d ≤ 1 := by
      rw [← add_div, div_le_one hd']
      exact_mod_cast Nat.mod_lt n hd
    rw [abs_le] at herror
    rw [Int.floor_eq_iff, Int.cast_natCast]
    constructor <;> linarith

end CrashLab.Doubles
