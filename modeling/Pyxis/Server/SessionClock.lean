import Pyxis.Shared.Double
import Pyxis.Server.Pings

set_option autoImplicit false

namespace Pyxis

/-- A timerfd. A timer that has expired stays readable until it is set again. -/
inductive Timer where
  | disarmed
  | armed (delay : Int) (positive : 0 < delay)
  | expired
  deriving DecidableEq

namespace Timer

def settime (sec nsec : Int) : Option Timer :=
  if valid : 0 ≤ sec ∧ 0 ≤ nsec ∧ nsec < 1000000000 then
    if zero : sec = 0 ∧ nsec = 0 then some .disarmed
    else some (.armed (sec * 1000000000 + nsec) (by omega))
  else none

def after (ms : Int) : Except Fault Timer :=
  match settime (ms.tdiv 1000) (ms.tmod 1000 * 1000000) with
  | none => .error .setTimer
  | some timer => .ok timer

-- `muduo::timeDifference`: the microseconds as a `double`, divided to seconds.
def timeDifference (high low : Time) : ℚ := Double.round (Double.round (high - low) / 1000000)

def millis (diff : ℚ) : Int :=
  -- The cast to `int64_t` drops the fraction of a number that is not negative.
  ⌊Double.round (diff * 1000)⌋

def atTime (now : Time) (timer : Timer) (when : Time) : Except Fault Timer :=
  if when < now then .ok timer else after (millis (timeDifference when now))

def Ticking (timer : Timer) : Prop := timer ≠ .disarmed

instance (timer : Timer) : Decidable timer.Ticking := inferInstanceAs (Decidable (_ ≠ _))

theorem after_spec {ms : Int} (nonneg : 0 ≤ ms) :
    ∃ timer, after ms = .ok timer ∧ (timer.Ticking ↔ 0 < ms) := by
  have valid : 0 ≤ ms / 1000 ∧ 0 ≤ ms % 1000 * 1000000 ∧ ms % 1000 * 1000000 < 1000000000 := by
    omega
  rw [after, Int.tdiv_eq_ediv_of_nonneg nonneg, Int.tmod_eq_emod_of_nonneg nonneg, settime,
    dif_pos valid]
  split_ifs with zero
  · exact ⟨_, rfl, by simp [Ticking]; omega⟩
  · exact ⟨_, rfl, by simp [Ticking]; omega⟩

def delay (micros : Int) : Int := millis (Double.round (Double.round micros / 1000000))

theorem delay_mono {low high : Int} (nonneg : 0 ≤ low) (le : low ≤ high) :
    delay low ≤ delay high := by
  have lowest : (0 : ℚ) ≤ low := by exact_mod_cast nonneg
  have first : Double.round low ≤ Double.round high :=
    Double.round_mono lowest (by exact_mod_cast le)
  have second := Double.round_mono (div_nonneg (Double.round_nonneg lowest) (by norm_num))
    (div_le_div_of_nonneg_right first (show (0 : ℚ) ≤ 1000000 by norm_num))
  refine Int.floor_mono (Double.round_mono (mul_nonneg (Double.round_nonneg ?_) (by norm_num))
    (mul_le_mul_of_nonneg_right second (by norm_num)))
  exact div_nonneg (Double.round_nonneg lowest) (by norm_num)

theorem delay_999 : delay 999 = 0 := by decide +kernel

theorem delay_1000 : delay 1000 = 1 := by decide +kernel

theorem delay_spec {micros : Int} (nonneg : 0 ≤ micros) :
    0 ≤ delay micros ∧ (0 < delay micros ↔ 1000 ≤ micros) := by
  have zero : delay 0 = 0 := by decide +kernel
  refine ⟨zero ▸ delay_mono (le_refl 0) nonneg, fun positive => ?_, fun enough => ?_⟩
  · by_contra less
    have low := delay_mono nonneg (show micros ≤ 999 by omega)
    rw [delay_999] at low
    omega
  · have high := delay_mono (show (0 : Int) ≤ 1000 by decide) enough
    rw [delay_1000] at high
    omega

theorem millis_timeDifference (now when : Time) :
    millis (timeDifference when now) = delay (when - now) := by
  rw [delay, timeDifference, Int.cast_sub]

theorem atTime_spec (now when : Time) (timer : Timer) :
    ∃ next, timer.atTime now when = .ok next ∧
      (next.Ticking ↔ now + 1000 ≤ when ∨ when < now ∧ timer.Ticking) := by
  unfold atTime
  split_ifs with past
  · refine ⟨timer, rfl, ?_⟩
    simp only [past, true_and]
    refine (or_iff_right fun ahead => ?_).symm
    linarith
  · obtain ⟨nonneg, positive⟩ := delay_spec (Int.sub_nonneg_of_le (not_lt.mp past))
    rw [millis_timeDifference]
    obtain ⟨next, set, runs⟩ := after_spec nonneg
    refine ⟨next, set, ?_⟩
    rw [runs, positive, or_iff_left fun both => past both.1, le_sub_iff_add_le']

inductive Tick where
  | expire
  | check (env : Env) (now : Time)

variable (options : Options)

def tick (tick : Tick) (timer : Timer) : Except Fault Timer :=
  match tick, timer with
  | .expire, .armed _ _ => .ok .expired
  | .expire, timer => .ok timer
  | .check env now, timer => timer.atTime now (Server.nextCheck options env)

def InTime (tick : Tick) (timer : Timer) : Prop :=
  match tick with
  | .expire => True
  | .check env now =>
      now + 1000 ≤ Server.nextCheck options env ∨
        Server.nextCheck options env < now ∧ timer.Ticking

theorem tick_total (input : Tick) (timer : Timer) :
    ∃ next, tick options input timer = .ok next := by
  cases input with
  | expire => cases timer <;> exact ⟨_, rfl⟩
  | check env now =>
      obtain ⟨next, done, -⟩ := atTime_spec now (Server.nextCheck options env) timer
      cases timer <;> exact ⟨next, done⟩

theorem tick_ticking (input : Tick) {timer : Timer} (ticking : timer.Ticking) :
    ∃ next, tick options input timer = .ok next ∧ (next.Ticking ↔ InTime options input timer) := by
  cases input with
  | expire => cases timer <;> simp_all [tick, InTime, Ticking]
  | check env now => cases timer <;> exact atTime_spec now _ _

theorem clock_ticking {timer : Timer} (ticks : List Tick) (ticking : timer.Ticking) :
    Runs.Throughout (tick options) Ticking timer ticks ↔
      Runs.Meets (tick options) (InTime options) timer ticks := by
  -- A timer that ticks is all there is to know of it.
  have stays (input : Tick) {timer next : Timer} (ticking : timer.Ticking)
      (done : tick options input timer = .ok next) :
      next.Ticking ↔ InTime options input timer := by
    obtain ⟨_, same, decides⟩ := tick_ticking options input ticking
    cases done.symm.trans same
    exact decides
  refine Runs.throughout_iff_meets (tick options) (InTime options) (fun _ => True) Ticking ?_
    (fun _ _ _ _ _ => trivial) (fun input state next _ done ticking => stays input ticking done)
    timer ticks trivial ticking
  intro input state failure _ failed
  obtain ⟨next, done⟩ := tick_total options input state
  cases failed.symm.trans done

theorem session_clock_ticking :
    (∀ (now when : Time) (timer : Timer), ∃ next, timer.atTime now when = .ok next ∧
      (next.Ticking ↔ now + 1000 ≤ when ∨ when < now ∧ timer.Ticking)) ∧
    ∀ (timer : Timer) (ticks : List Tick), timer.Ticking →
      (Runs.Throughout (tick options) Ticking timer ticks ↔
        Runs.Meets (tick options) (InTime options) timer ticks) :=
  ⟨atTime_spec, fun _ ticks ticking => clock_ticking options ticks ticking⟩

theorem session_clock_off :
    Timer.disarmed.atTime 5000000 5000999 = .ok .disarmed ∧
      (Timer.armed 1 (by decide)).atTime 5000000 5000500 = .ok .disarmed ∧
      Timer.disarmed.atTime 5000000 4999999 = .ok .disarmed := by
  decide +kernel

end Timer

end Pyxis
