import Mathlib.Algebra.Group.Int.Defs
import Pyxis.Server.Timers

set_option autoImplicit false

open Std (ExtTreeMap ExtTreeSet)

namespace Pyxis

namespace SessionManager

inductive Call where
  | genSid
  | op (call : Env × Op)

def call (options : Options) (call : Call) (sm : SessionManager) : Except Fault SessionManager :=
  match call with
  | .genSid => .ok sm.genSid.2
  | .op call => sm.exec options call

def issues (call : Call) (sm : SessionManager) : List Sid :=
  match call with
  | .genSid => [sm.genSid.1]
  | .op _ => []

def issued (options : Options) (start : Time) (calls : List Call) : List Sid :=
  Runs.trail (call options) issues (new start) calls

def SeesNoLarger (call : Call) (sm : SessionManager) : Prop :=
  match call with
  | .op (_, .add sid _) => sid ≤ sm.sid
  | _ => True

def HasNext (call : Call) (sm : SessionManager) : Prop :=
  match call with
  | .genSid => sm.sid.toNat + 1 < UInt64.size
  | .op _ => True

variable {options : Options} {sm after : SessionManager}

theorem step_sid (now : Time) (sm : SessionManager) : (sm.step now).sid = sm.sid := by
  unfold step
  generalize sm.due now = ps
  induction ps generalizing sm with
  | nil => rfl
  | cons p rest ih =>
      rw [List.foldl_cons, ih]
      split_ifs <;> rfl

theorem exec_sid {call : Env × Op} (done : sm.exec options call = .ok after) :
    after.sid =
      match call.2 with
      | .add sid _ => if sm.sid < sid then sid else sm.sid
      | _ => sm.sid := by
  obtain ⟨env, op⟩ := call
  cases op with
  | add sid timeout => exact touch_sid done
  | touch sid => exact touch_sid done
  | close sid | setTimeout sid timeout =>
      cases done
      unfold onSession
      split <;> rfl
  | remove sid => exact (remove_frame done).1
  | step =>
      cases done
      exact step_sid _ _
  | resetTimer => exact resetTimer_sid done

theorem exec_sid_le {call : Env × Op} (done : sm.exec options call = .ok after) :
    sm.sid ≤ after.sid := by
  rw [exec_sid done]
  split
  · split_ifs with larger
    · exact UInt64.le_of_lt larger
    · exact UInt64.le_refl _
  · exact UInt64.le_refl _

theorem initSid_toNat {now : Time} {ms : Nat} (whole : now / 1000 = ms) :
    (initSid now).toNat = ms % 2 ^ 40 * 2 ^ 16 := by
  have left : UInt64.toNat 24 % 64 = 24 := rfl
  have right : UInt64.toNat 8 % 64 = 8 := rfl
  rw [initSid, whole, Int.toNat_natCast, UInt64.toNat_shiftRight, UInt64.toNat_shiftLeft,
    Nat.toUInt64, UInt64.toNat_ofNat', left, right, Nat.shiftLeft_eq, Nat.shiftRight_eq_div_pow]
  omega

theorem genSid_toNat (sm : SessionManager) (room : sm.sid.toNat + 1 < UInt64.size) :
    sm.genSid.1.toNat = sm.sid.toNat + 1 ∧ sm.genSid.2.sid.toNat = sm.sid.toNat + 1 := by
  have sum : (sm.sid + 1).toNat = sm.sid.toNat + 1 := by
    rw [UInt64.toNat_add]
    exact Nat.mod_eq_of_lt room
  exact ⟨sum, sum⟩

theorem issued_le {start : Time} {calls : List Call} {last : SessionManager} {limit : Nat}
    (fits : (initSid start).toNat + limit < UInt64.size)
    (low : Runs.Meets (call options) SeesNoLarger (new start) calls)
    (reached : Runs.run (call options) (new start) calls = .ok last)
    (few : (issued options start calls).length ≤ limit) :
    ∀ sid ∈ issued options start calls, sid.toNat ≤ (initSid start).toNat + limit := by
  have counted := Runs.trail_invariant (call options) issues SeesNoLarger
    (fun sm given => given.length ≤ limit →
      sm.sid.toNat = (initSid start).toNat + given.length ∧
        ∀ sid ∈ given, sid.toNat ≤ (initSid start).toNat + given.length)
    ?_ (new start) last [] calls (fun _ => ⟨rfl, by simp⟩) low reached
  · intro sid member
    exact Nat.le_trans ((counted few).2 sid member) (Nat.add_le_add_left few _)
  · intro input sm next given counted seen taken few
    cases input with
    | genSid =>
        cases taken
        simp only [issues, List.length_append, List.length_singleton] at few ⊢
        obtain ⟨count, bound⟩ := counted (by omega)
        obtain ⟨id, next⟩ := genSid_toNat sm (by omega)
        refine ⟨by omega, fun sid member => ?_⟩
        rcases List.mem_append.mp member with old | new
        · have := bound sid old
          omega
        · cases List.mem_singleton.mp new
          omega
    | op call =>
        simp only [issues, List.append_nil] at few ⊢
        obtain ⟨count, bound⟩ := counted few
        refine ⟨?_, bound⟩
        rw [exec_sid taken]
        obtain ⟨env, op⟩ := call
        cases op with
        | add sid timeout =>
            dsimp only
            rw [if_neg (UInt64.not_lt.mpr seen)]
            exact count
        | _ => exact count

theorem lt_issued {start : Time} {calls : List Call} {last : SessionManager}
    (room : Runs.Meets (call options) HasNext (new start) calls)
    (reached : Runs.run (call options) (new start) calls = .ok last) :
    ∀ sid ∈ issued options start calls, (initSid start).toNat < sid.toNat := by
  have counted := Runs.trail_invariant (call options) issues HasNext
    (fun sm given => (initSid start).toNat ≤ sm.sid.toNat ∧
      ∀ sid ∈ given, (initSid start).toNat < sid.toNat)
    ?_ (new start) last [] calls ⟨Nat.le_refl _, by simp⟩ room reached
  · exact counted.2
  · rintro input sm next given ⟨above, bound⟩ room taken
    cases input with
    | genSid =>
        cases taken
        obtain ⟨id, next⟩ := genSid_toNat sm room
        refine ⟨by omega, fun sid member => ?_⟩
        rcases List.mem_append.mp member with old | new
        · exact bound sid old
        · cases List.mem_singleton.mp new
          omega
    | op call =>
        refine ⟨Nat.le_trans above (UInt64.le_iff_toNat_le.mp (exec_sid_le taken)), ?_⟩
        simpa [issues] using bound

theorem issue_many (options : Options) (count : Nat) (sm : SessionManager)
    (room : sm.sid.toNat + count < UInt64.size) :
    ∃ last, Runs.run (call options) sm (List.replicate count .genSid) = .ok last ∧
      (Runs.trail (call options) issues sm (List.replicate count .genSid)).length = count ∧
      (0 < count → ∃ sid ∈ Runs.trail (call options) issues sm (List.replicate count .genSid),
        sid.toNat = sm.sid.toNat + count) := by
  induction count generalizing sm with
  | zero => exact ⟨sm, rfl, rfl, by simp⟩
  | succ count ih =>
      obtain ⟨id, next⟩ := genSid_toNat sm (by omega)
      obtain ⟨last, reached, length, top⟩ := ih sm.genSid.2 (by omega)
      have trail : Runs.trail (call options) issues sm (List.replicate (count + 1) .genSid) =
          sm.genSid.1 ::
            Runs.trail (call options) issues sm.genSid.2 (List.replicate count .genSid) := rfl
      refine ⟨last, reached, by rw [trail, List.length_cons, length], fun _ => ?_⟩
      rw [trail]
      rcases Nat.eq_zero_or_pos count with rfl | more
      · exact ⟨_, List.mem_cons_self, id⟩
      · obtain ⟨sid, member, value⟩ := top more
        exact ⟨sid, List.mem_cons_of_mem _ member, by omega⟩

/-- What the session manager of `second` issues is above all that the one of `first` has issued, at
no more than 65535 ids a millisecond. -/
def Increases (options : Options) (first second : Time) : Prop :=
  ∀ early late, Runs.Meets (call options) SeesNoLarger (new first) early →
    (∃ last, Runs.run (call options) (new first) early = .ok last) →
    (issued options first early).length ≤ 65535 * (second / 1000 - first / 1000).toNat →
    Runs.Meets (call options) HasNext (new second) late →
    (∃ last, Runs.run (call options) (new second) late = .ok last) →
    ∀ one ∈ issued options first early, ∀ two ∈ issued options second late, one < two

theorem increases_same {options : Options} {first second : Time} {a b : Nat}
    (one : first / 1000 = a) (two : second / 1000 = b) (later : a < b)
    (same : a / 2 ^ 40 = b / 2 ^ 40) : Increases options first second := by
  rintro early late low ⟨_, earlyDone⟩ few room ⟨_, lateDone⟩ sid old other new
  have span : (second / 1000 - first / 1000).toNat = b - a := by
    rw [one, two]
    omega
  rw [span] at few
  have start := initSid_toNat one
  have restart := initSid_toNat two
  have size : UInt64.size = 2 ^ 64 := rfl
  have below := issued_le (by omega) low earlyDone few sid old
  have above := lt_issued room lateDone other new
  rw [UInt64.lt_iff_toNat_lt]
  omega

theorem not_increases {options : Options} {first second : Time} {a b : Nat}
    (one : first / 1000 = a) (two : second / 1000 = b) (before : a < 2 ^ 40) (turned : 2 ^ 40 ≤ b)
    (fits : b < 2 ^ 41) : ¬ Increases options first second := by
  intro increases
  have start := initSid_toNat one
  have restart := initSid_toNat two
  have size : UInt64.size = 2 ^ 64 := rfl
  have span : (second / 1000 - first / 1000).toNat = b - a := by
    rw [one, two]
    omega
  obtain ⟨count, positive, reaches, few⟩ : ∃ count, 0 < count ∧
      (initSid second).toNat + 1 ≤ (initSid first).toNat + count ∧ count ≤ 65535 * (b - a) :=
    ⟨(b % 2 ^ 40 - a) * 2 ^ 16 + 1, by omega, by omega, by omega⟩
  obtain ⟨early, earlyDone, length, top⟩ := issue_many options count (new first)
    (by change (initSid first).toNat + count < _; omega)
  obtain ⟨late, lateDone, -, next⟩ := issue_many options 1 (new second)
    (by change (initSid second).toNat + 1 < _; omega)
  obtain ⟨sid, old, value⟩ := top positive
  obtain ⟨other, new, value'⟩ := next (by decide)
  have less := increases (List.replicate count .genSid) (List.replicate 1 .genSid)
    (Runs.meets_of_mem _ _ _ _ fun input member _ => by
      rw [List.eq_of_mem_replicate member]
      trivial)
    ⟨early, earlyDone⟩ (by rw [span]; exact Nat.le_trans (Nat.le_of_eq length) few)
    ⟨by change (initSid second).toNat + 1 < _; omega, fun _ _ => trivial⟩ ⟨late, lateDone⟩
    sid old other new
  rw [UInt64.lt_iff_toNat_lt, value, value'] at less
  change (initSid first).toNat + count < (initSid second).toNat + 1 at less
  omega

theorem sids_increase (options : Options) {first second : Time} (past : 0 ≤ first)
    (later : first / 1000 < second / 1000) (fits : second / 1000 < 2 ^ 41) :
    Increases options first second ↔ first / 1000 / 2 ^ 40 = second / 1000 / 2 ^ 40 := by
  have since : (0 : Int) ≤ first / 1000 := Int.ediv_nonneg past (by decide)
  obtain ⟨a, one⟩ := Int.eq_ofNat_of_zero_le since
  obtain ⟨b, two⟩ := Int.eq_ofNat_of_zero_le (Int.le_trans since (Int.le_of_lt later))
  rw [one, two] at later ⊢
  rw [two] at fits
  have order : a < b := Int.ofNat_lt.mp later
  have small : b < 2 ^ 41 := Int.ofNat_lt.mp fits
  have era : (a : Int) / 2 ^ 40 = b / 2 ^ 40 ↔ a / 2 ^ 40 = b / 2 ^ 40 := by omega
  refine Iff.trans ⟨fun increases => ?_, fun same => ?_⟩ era.symm
  · by_contra different
    exact not_increases one two (by omega) (by omega) small increases
  · exact increases_same one two order same

theorem sids_increase_second :
    Increases Options.standard 1700000000000000 1700000000001000 ↔
      (1700000000000000 / 1000 / 2 ^ 40 : Int) = 1700000000001000 / 1000 / 2 ^ 40 :=
  sids_increase Options.standard (by decide) (by decide) (by decide)

-- A millisecond before the turn of the 40 bits the first manager issues one id, and the one
-- that is constructed a millisecond later starts from 1.
theorem sids_increase_turned :
    issued Options.standard ((2 ^ 40 - 1) * 1000) [.genSid] = [0xffffffffff0001] ∧
      issued Options.standard (2 ^ 40 * 1000) [.genSid] = [1] ∧
      ¬ Increases Options.standard ((2 ^ 40 - 1) * 1000) (2 ^ 40 * 1000) :=
  ⟨by decide +kernel, by decide +kernel,
    not_increases (a := 2 ^ 40 - 1) (b := 2 ^ 40) (by decide) (by decide) (by decide) (by decide)
      (by decide)⟩

end SessionManager

end Pyxis
