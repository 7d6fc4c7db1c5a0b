import Pyxis.Server.SessionFrame

set_option autoImplicit false

namespace Pyxis

def roundToDouble (t : Time) (step : Int) : Time :=
  let step := step * 1000
  let quotient := Double.round (Double.round t / Double.round step)
  Double.truncate (Double.round (quotient + 1 / 2)) * step

variable {t ms step : Int}

theorem roundToDouble_eq (later : 0 ≤ t) (positive : 0 < step)
    (bits : 2 * t + step * 1000 < 2 ^ 53) : roundToDouble t step = roundTo t step := by
  have quotient : (0 : ℚ) ≤ t / (step * 1000 : ℤ) :=
    div_nonneg (by exact_mod_cast later) (by exact_mod_cast (by omega : 0 ≤ step * 1000))
  have nonneg := Double.round_nonneg
    (add_nonneg (Double.round_nonneg quotient) (show (0 : ℚ) ≤ 1 / 2 by norm_num))
  unfold roundToDouble roundTo
  dsimp only
  rw [Double.round_intCast later (by omega), Double.round_intCast (by omega) (by omega),
    Double.truncate_of_nonneg nonneg,
    Double.floor_round_div_add_half later (by omega) (by omega) bits,
    Int.tdiv_eq_ediv_of_nonneg (by omega)]

theorem seconds_nonneg (nonneg : 0 ≤ ms) : (0 : ℚ) ≤ ms / 1000 :=
  div_nonneg (by exact_mod_cast nonneg) (by norm_num)

theorem product_nonneg (nonneg : 0 ≤ ms) : 0 ≤ Double.round (ms / 1000) * 1000000 :=
  mul_nonneg (Double.round_nonneg (seconds_nonneg nonneg)) (by norm_num)

theorem micros_eq_floor (nonneg : 0 ≤ ms) (fits : ms < 2 ^ 31) :
    micros ms = ⌊Double.round (Double.round (ms / 1000) * 1000000)⌋ := by
  unfold micros
  dsimp only
  rw [Double.round_intCast nonneg (by omega),
    Double.truncate_of_nonneg (Double.round_nonneg (product_nonneg nonneg))]

theorem micros_nonneg (nonneg : 0 ≤ ms) (fits : ms < 2 ^ 31) : 0 ≤ micros ms := by
  rw [micros_eq_floor nonneg fits, Int.floor_nonneg]
  exact Double.round_nonneg (product_nonneg nonneg)

theorem micros_cases (nonneg : 0 ≤ ms) (fits : ms < 2 ^ 31) :
    micros ms = ms * 1000 ∨ micros ms = ms * 1000 - 1 := by
  have small : (ms : ℚ) < 2 ^ 31 := by exact_mod_cast fits
  have first := abs_le.mp (Double.round_error (seconds_nonneg nonneg))
  have second := abs_le.mp (Double.round_error (product_nonneg nonneg))
  -- Each rounding moves the product by far less than a microsecond.
  have low : (ms * 1000 - 1 : ℚ) ≤ Double.round (Double.round (ms / 1000) * 1000000) := by
    norm_num at first second small ⊢
    linarith
  have high : Double.round (Double.round (ms / 1000) * 1000000) < (ms * 1000 + 1 : ℚ) := by
    norm_num at first second small ⊢
    linarith
  have least := Int.le_floor.mpr (by push_cast; exact low : ((ms * 1000 - 1 : ℤ) : ℚ) ≤ _)
  have most := Int.floor_lt.mpr (by push_cast; exact high : _ < ((ms * 1000 + 1 : ℤ) : ℚ))
  rw [micros_eq_floor nonneg fits]
  omega

example : micros 8001 = 8001 * 1000 - 1 := by decide +kernel

theorem micros_seconds (nonneg : 0 ≤ ms) (fits : ms < 2 ^ 31) (whole : 1000 ∣ ms) :
    micros ms = ms * 1000 := by
  rw [micros_eq_floor nonneg fits]
  obtain ⟨seconds, rfl⟩ := whole
  have exact : ((1000 * seconds : ℤ) : ℚ) / 1000 = seconds := by
    push_cast
    ring
  have product : (seconds : ℚ) * 1000000 = ((seconds * 1000000 : ℤ) : ℚ) := by push_cast; rfl
  rw [exact, Double.round_intCast (by omega) (by omega), product,
    Double.round_intCast (by omega) (by omega), Int.floor_intCast]
  ring

namespace SessionManager

def deadlineDouble (options : Options) (now : Time) (timeout : Int) : Time :=
  roundToDouble (addTime now timeout) options.sessionCheckInterval

-- `exact` is the sum that `addTime` gives but for a microsecond it may lose.
theorem deadlineDouble_eq (options : Options) (now timeout exact : Int)
    (sum : exact = now + timeout * 1000) (started : 0 ≤ now) (nonneg : 0 ≤ timeout)
    (fits : timeout < 2 ^ 31) (positive : 0 < options.sessionCheckInterval)
    (bits : 2 * exact + options.sessionCheckInterval * 1000 < 2 ^ 53) :
    deadlineDouble options now timeout = deadline options now timeout ∧
    (deadlineDouble options now timeout = roundTo exact options.sessionCheckInterval ∨
      deadlineDouble options now timeout = roundTo (exact - 1) options.sessionCheckInterval) ∧
    (1000 ∣ timeout →
      deadlineDouble options now timeout = roundTo exact options.sessionCheckInterval) := by
  have late : 0 ≤ addTime now timeout := Int.add_nonneg started (micros_nonneg nonneg fits)
  have loss : addTime now timeout = exact ∨ addTime now timeout = exact - 1 := by
    rcases micros_cases nonneg fits with same | short
    · exact .inl (by rw [addTime, same, sum])
    · exact .inr (by rw [addTime, short, sum, Int.add_sub_assoc])
  have rounded : deadlineDouble options now timeout = deadline options now timeout := by
    refine roundToDouble_eq late positive ?_
    rcases loss with same | short
    · rwa [same]
    · rw [short]
      omega
  refine ⟨rounded, ?_, fun whole => ?_⟩
  · rw [rounded, deadline]
    rcases loss with same | short
    · exact .inl (by rw [same])
    · exact .inr (by rw [short])
  · rw [rounded, deadline, addTime, micros_seconds nonneg fits whole, sum]

theorem deadlineDouble_five_seconds :
    deadlineDouble .standard 1700000000000000 5000 = deadline .standard 1700000000000000 5000 ∧
    (deadlineDouble .standard 1700000000000000 5000 = roundTo 1700000005000000 1000 ∨
      deadlineDouble .standard 1700000000000000 5000 = roundTo (1700000005000000 - 1) 1000) ∧
    (1000 ∣ (5000 : Int) →
      deadlineDouble .standard 1700000000000000 5000 = roundTo 1700000005000000 1000) :=
  deadlineDouble_eq .standard 1700000000000000 5000 1700000005000000 (by decide) (by decide)
    (by decide) (by decide) (by decide) (by decide)

end SessionManager

end Pyxis
