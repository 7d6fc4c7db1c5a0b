import Mathlib.Algebra.Order.Round
import Mathlib.Data.Int.Log
import Mathlib.Data.Rat.Floor
import Mathlib.Tactic.Linarith
import Mathlib.Tactic.NormNum

set_option autoImplicit false

/-!
A `double` is a rational number of 53 bits; its exponent has no bounds here. Every operation rounds
to the nearest, in a tie to the even one.
-/

namespace Double

def nearest (x : ℚ) : ℤ :=
  if x - ⌊x⌋ < 1 / 2 then ⌊x⌋
  else if 1 / 2 < x - ⌊x⌋ then ⌊x⌋ + 1
  else if ⌊x⌋ % 2 = 0 then ⌊x⌋
  else ⌊x⌋ + 1

def ulp (x : ℚ) : ℚ := 2 ^ (Int.log 2 |x| - 52)

def round (x : ℚ) : ℚ := nearest (x / ulp x) * ulp x

-- A cast to an integer type drops the fraction.
def truncate (x : ℚ) : ℤ := if 0 ≤ x then ⌊x⌋ else ⌈x⌉

theorem truncate_of_nonneg {x : ℚ} (nonneg : 0 ≤ x) : truncate x = ⌊x⌋ := if_pos nonneg

theorem nearest_cases (x : ℚ) : nearest x = ⌊x⌋ ∨ nearest x = ⌊x⌋ + 1 := by
  unfold nearest
  split_ifs <;> simp

@[simp] theorem nearest_intCast (n : ℤ) : nearest n = n := by
  simp [nearest]

theorem nearest_mono {x y : ℚ} (le : x ≤ y) : nearest x ≤ nearest y := by
  have floors := Int.floor_mono le
  rcases floors.lt_or_eq with less | same
  · rcases nearest_cases x with down | up <;> rcases nearest_cases y with down' | up' <;> omega
  · unfold nearest
    rw [same]
    split_ifs <;> first | omega | linarith

theorem ulp_pos (x : ℚ) : 0 < ulp x := zpow_pos (by norm_num) _

theorem div_ulp_lt {x : ℚ} : x / ulp x < 2 ^ 53 := by
  rw [div_lt_iff₀ (ulp_pos x), ulp]
  have above := Int.lt_zpow_succ_log_self (b := 2) (by norm_num) |x|
  refine lt_of_lt_of_eq ((le_abs_self x).trans_lt above) ?_
  rw [← zpow_natCast, ← zpow_add₀ (by norm_num)]
  norm_num
  ring_nf

theorem le_div_ulp {x : ℚ} (positive : 0 < x) : 2 ^ 52 ≤ x / ulp x := by
  rw [le_div_iff₀ (ulp_pos x), ulp, abs_of_pos positive]
  refine le_of_eq_of_le ?_ (Int.zpow_log_le_self (b := 2) (by norm_num) positive)
  rw [← zpow_natCast, ← zpow_add₀ (by norm_num)]
  norm_num

theorem ulp_lt {x y : ℚ} (less : Int.log 2 |x| < Int.log 2 |y|) : 2 * ulp x ≤ ulp y := by
  have step : (2 : ℚ) * ulp x = 2 ^ (Int.log 2 |x| - 52 + 1) := by
    rw [ulp, zpow_add_one₀ (by norm_num), mul_comm]
  rw [step, ulp]
  exact zpow_le_zpow_right₀ (by norm_num) (by omega)

theorem round_nonneg {x : ℚ} (nonneg : 0 ≤ x) : 0 ≤ round x := by
  have low : nearest 0 ≤ nearest (x / ulp x) :=
    nearest_mono (div_nonneg nonneg (ulp_pos x).le)
  have zero : nearest 0 = 0 := by simpa using nearest_intCast 0
  rw [zero] at low
  exact mul_nonneg (by exact_mod_cast low) (ulp_pos x).le

theorem round_mono {x y : ℚ} (nonneg : 0 ≤ x) (le : x ≤ y) : round x ≤ round y := by
  rcases nonneg.eq_or_lt with rfl | positive
  · refine le_of_eq_of_le ?_ (round_nonneg le)
    simp [round, nearest]
  have ordered : Int.log 2 |x| ≤ Int.log 2 |y| := by
    rw [abs_of_pos positive, abs_of_pos (positive.trans_le le)]
    exact Int.log_mono_right positive le
  rcases ordered.lt_or_eq with less | same
  · -- A power of two is between the two.
    have low : nearest (x / ulp x) ≤ 2 ^ 53 := by
      have mono := nearest_mono (div_ulp_lt (x := x)).le
      rwa [show (2 ^ 53 : ℚ) = ((2 ^ 53 : ℤ) : ℚ) by norm_num, nearest_intCast] at mono
    have high : 2 ^ 52 ≤ nearest (y / ulp y) := by
      have mono := nearest_mono (le_div_ulp (positive.trans_le le))
      rwa [show (2 ^ 52 : ℚ) = ((2 ^ 52 : ℤ) : ℚ) by norm_num, nearest_intCast] at mono
    calc round x ≤ 2 ^ 53 * ulp x :=
          mul_le_mul_of_nonneg_right (by exact_mod_cast low) (ulp_pos x).le
      _ = 2 ^ 52 * (2 * ulp x) := by ring
      _ ≤ 2 ^ 52 * ulp y := mul_le_mul_of_nonneg_left (ulp_lt less) (by norm_num)
      _ ≤ round y := mul_le_mul_of_nonneg_right (by exact_mod_cast high) (ulp_pos y).le
  · have same : ulp x = ulp y := by rw [ulp, ulp, same]
    rw [round, round, same]
    refine mul_le_mul_of_nonneg_right ?_ (ulp_pos y).le
    exact_mod_cast nearest_mono (div_le_div_of_nonneg_right le (ulp_pos y).le)

theorem nearest_error (x : ℚ) : |nearest x - x| ≤ 1 / 2 := by
  have low := Int.floor_le x
  have high := Int.lt_floor_add_one x
  unfold nearest
  split_ifs <;> push_cast <;> rw [abs_le] <;> constructor <;> linarith

theorem round_error {x : ℚ} (nonneg : 0 ≤ x) : |round x - x| ≤ x / 2 ^ 53 := by
  rcases nonneg.eq_or_lt with rfl | positive
  · simp [round, nearest]
  have unit := ulp_pos x
  have scaled : round x - x = (nearest (x / ulp x) - x / ulp x) * ulp x := by
    rw [round, sub_mul, div_mul_cancel₀ _ unit.ne']
  have small : ulp x ≤ x / 2 ^ 52 := by
    rw [le_div_iff₀ (by norm_num), mul_comm, ← le_div_iff₀ unit]
    exact le_div_ulp positive
  calc |round x - x| = |nearest (x / ulp x) - x / ulp x| * ulp x := by
        rw [scaled, abs_mul, abs_of_pos unit]
    _ ≤ 1 / 2 * ulp x := mul_le_mul_of_nonneg_right (nearest_error _) unit.le
    _ ≤ 1 / 2 * (x / 2 ^ 52) := mul_le_mul_of_nonneg_left small (by norm_num)
    _ = x / 2 ^ 53 := by ring

theorem round_exact (n : ℤ) (e : ℤ) (nonneg : 0 ≤ n) (bits : n < 2 ^ 53) :
    round (n * 2 ^ e) = n * 2 ^ e := by
  rcases nonneg.eq_or_lt with rfl | positive
  · simp [round, nearest]
  have value : (0 : ℚ) < n * 2 ^ e :=
    mul_pos (by exact_mod_cast positive) (zpow_pos (by norm_num) e)
  have magnitude : Int.log 2 ((n : ℚ) * 2 ^ e) - 52 ≤ e := by
    have below : (n : ℚ) * 2 ^ e < 2 ^ (53 + e) := by
      rw [zpow_add₀ (by norm_num)]
      refine mul_lt_mul_of_pos_right ?_ (zpow_pos (by norm_num) e)
      exact_mod_cast bits
    have less := (Int.lt_zpow_iff_log_lt (b := 2) (by norm_num) value).mp (by exact_mod_cast below)
    omega
  obtain ⟨shift, same⟩ := Int.le.dest magnitude
  have whole : (n : ℚ) * 2 ^ e / ulp (n * 2 ^ e) = ((n * 2 ^ shift : ℤ) : ℚ) := by
    rw [ulp, abs_of_pos value, div_eq_iff (zpow_pos (by norm_num) _).ne', Int.cast_mul, mul_assoc]
    congr 1
    push_cast
    rw [← zpow_natCast, ← zpow_add₀ (by norm_num), add_comm, same]
  rw [round, whole, nearest_intCast, ← whole, div_mul_cancel₀ _ (ulp_pos _).ne']

@[simp] theorem round_intCast {n : ℤ} (nonneg : 0 ≤ n) (bits : n < 2 ^ 53) : round n = n := by
  simpa using round_exact n 0 nonneg bits

theorem round_half {n : ℤ} (nonneg : 0 ≤ n) (bits : n < 2 ^ 53) : round (n / 2) = n / 2 := by
  simpa [zpow_neg_one, div_eq_mul_inv] using round_exact n (-1) nonneg bits

section Halves

variable {t s q : ℤ}

theorem le_round_add_half (nonneg : 0 ≤ t) (positive : 0 < s) (low : 2 * s * q ≤ 2 * t + s)
    (q_nonneg : 0 ≤ q) (bits : 2 * q < 2 ^ 53) : (q : ℚ) ≤ round (round (t / s) + 1 / 2) := by
  have parts : (0 : ℚ) < s := by exact_mod_cast positive
  have x_nonneg : (0 : ℚ) ≤ t / s := div_nonneg (by exact_mod_cast nonneg) parts.le
  rcases q_nonneg.eq_or_lt with rfl | q_pos
  · simpa using round_nonneg (add_nonneg (round_nonneg x_nonneg) (by norm_num))
  -- The tie below the quotient is a double, and so is the whole number above it.
  have tie_nonneg : (0 : ℚ) ≤ (2 * q - 1 : ℤ) := by exact_mod_cast (by omega : 0 ≤ 2 * q - 1)
  have above : ((2 * q - 1 : ℤ) : ℚ) / 2 ≤ t / s := by
    rw [div_le_div_iff₀ (by norm_num) parts]
    exact_mod_cast (by linarith : (2 * q - 1) * s ≤ t * 2)
  have first := round_mono (div_nonneg tie_nonneg (by norm_num)) above
  rw [round_half (by omega) (by omega)] at first
  have sum : (q : ℚ) ≤ round (t / s) + 1 / 2 := by
    push_cast at first
    linarith
  rw [← round_intCast q_nonneg (by omega)]
  exact round_mono (by exact_mod_cast q_nonneg) sum

theorem round_add_half_lt (nonneg : 0 ≤ t) (positive : 0 < s)
    (high : 2 * t + s + 2 ≤ 2 * s * q) (bits : 2 * t + s < 2 ^ 53) :
    round (round (t / s) + 1 / 2) < (q : ℚ) := by
  have parts : (1 : ℚ) ≤ s := by exact_mod_cast positive
  have number : (0 : ℚ) ≤ t := by exact_mod_cast nonneg
  have whole : s * (t / s : ℚ) = t := mul_div_cancel₀ _ (by linarith)
  have x_nonneg : (0 : ℚ) ≤ t / s := div_nonneg number (by linarith)
  have sum_nonneg := add_nonneg (round_nonneg x_nonneg) (show (0 : ℚ) ≤ 1 / 2 by norm_num)
  have gap : (2 * t + s + 2 : ℚ) ≤ 2 * s * q := by exact_mod_cast high
  have room : (2 * t + s : ℚ) < 2 ^ 53 := by exact_mod_cast bits
  -- Both roundings together are off by less than the gap to the next tie.
  have first : s * round (t / s) ≤ t + t / 2 ^ 53 := by
    have error := (abs_le.mp (round_error x_nonneg)).2
    calc s * round (t / s) ≤ s * (t / s + t / s / 2 ^ 53) :=
          mul_le_mul_of_nonneg_left (by linarith) (by linarith)
      _ = t + t / 2 ^ 53 := by rw [mul_add, ← mul_div_assoc _ (t / s : ℚ), whole]
  have second : s * round (round (t / s) + 1 / 2) ≤
      (s * round (t / s) + s / 2) * (1 + 1 / 2 ^ 53) := by
    have error := (abs_le.mp (round_error sum_nonneg)).2
    calc s * round (round (t / s) + 1 / 2) ≤
          s * (round (t / s) + 1 / 2 + (round (t / s) + 1 / 2) / 2 ^ 53) :=
          mul_le_mul_of_nonneg_left (by linarith) (by linarith)
      _ = (s * round (t / s) + s / 2) * (1 + 1 / 2 ^ 53) := by ring
  have less : s * round (round (t / s) + 1 / 2) < s * q := by
    norm_num at first second room ⊢
    linarith
  exact lt_of_mul_lt_mul_left less (by linarith)

theorem floor_round_div_add_half (nonneg : 0 ≤ t) (positive : 0 < s) (even : 2 ∣ s)
    (bits : 2 * t + s < 2 ^ 53) :
    ⌊round (round (t / s) + 1 / 2)⌋ = (2 * t + s) / (2 * s) := by
  have low : 2 * s * ((2 * t + s) / (2 * s)) ≤ 2 * t + s := Int.mul_ediv_self_le (by omega)
  have high : 2 * t + s < 2 * s * ((2 * t + s) / (2 * s)) + 2 * s :=
    Int.lt_mul_ediv_self_add (by omega)
  have q_nonneg : 0 ≤ (2 * t + s) / (2 * s) := Int.ediv_nonneg (by omega) (by omega)
  generalize (2 * t + s) / (2 * s) = q at low high q_nonneg ⊢
  obtain ⟨half, rfl⟩ := even
  have less : q ≤ half * q := le_mul_of_one_le_left q_nonneg (by omega)
  rw [Int.floor_eq_iff]
  refine ⟨le_round_add_half nonneg positive low q_nonneg (by linarith), ?_⟩
  -- Both sides of the bound are even.
  have halves : t + half < 2 * half * q + 2 * half := by linarith
  have next := round_add_half_lt (q := q + 1) nonneg positive (by linarith [halves]) bits
  exact_mod_cast next

end Halves

end Double
