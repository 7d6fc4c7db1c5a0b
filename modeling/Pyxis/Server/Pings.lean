import Pyxis.Server.Timers
import Pyxis.Server.Notifications
import Pyxis.Server.Expiry

set_option autoImplicit false

open Std (ExtTreeMap)

namespace Pyxis

section Grid

variable {t step : Int}

theorem dvd_roundTo (t : Time) (step : Int) : step * 1000 ∣ roundTo t step := Int.dvd_mul_left _ _

theorem roundTo_bounds (positive : 0 < step) (later : 0 ≤ t) :
    2 * roundTo t step ≤ 2 * t + step * 1000 ∧ 2 * t < 2 * roundTo t step + step * 1000 := by
  unfold roundTo
  dsimp only
  have wide : 0 < step * 1000 := by omega
  generalize step * 1000 = width at wide ⊢
  rw [Int.tdiv_eq_ediv_of_nonneg (by omega)]
  have below := Int.ediv_mul_le (2 * t + width) (show 2 * width ≠ 0 by omega)
  have above := Int.lt_ediv_add_one_mul_self (2 * t + width) (show 0 < 2 * width by omega)
  constructor <;> linarith

theorem add_le_of_dvd {width one two : Int} (positive : 0 < width) (former : width ∣ one)
    (latter : width ∣ two) (before : one < two) : one + width ≤ two := by
  obtain ⟨k, rfl⟩ := former
  obtain ⟨l, rfl⟩ := latter
  have less : k < l := lt_of_mul_lt_mul_left before positive.le
  calc width * k + width = width * (k + 1) := by rw [Int.mul_add, Int.mul_one]
    _ ≤ width * l := Int.mul_le_mul_of_nonneg_left less positive.le

end Grid

namespace Machine

open SessionManager (WellFormed deadline)

variable {options : Options} {state : State} {permits : Permits} {m after : Machine}

def Hushed (m after : Machine) : Prop :=
  ∀ p, (after.sm.deref p).pingEvent = (m.sm.deref p).pingEvent ∨
    (after.sm.deref p).pingEvent = none

theorem Hushed.refl (m : Machine) : Hushed m m := fun _ => .inl rfl

theorem Hushed.trans {first second third : Machine} (one : Hushed first second)
    (two : Hushed second third) : Hushed first third := by
  intro p
  rcases two p with same | none
  · rw [same]
    exact one p
  · exact .inr none

theorem Hushed.foldl {α : Type} (f : Machine → α → Machine) (step : ∀ m x, Hushed m (f m x))
    (xs : List α) (m : Machine) : Hushed m (xs.foldl f m) := by
  induction xs generalizing m with
  | nil => exact .refl m
  | cons x rest ih => exact (step m x).trans (ih _)

theorem Hushed.held {p : SessionPtr} (hushed : Hushed m after)
    (held : (after.sm.deref p).pingEvent ≠ none) : (m.sm.deref p).pingEvent ≠ none := by
  rwa [(hushed p).resolve_right held] at held

theorem modify_hushed (m : Machine) (p : SessionPtr) (f : Session → Session)
    (each : ∀ s, (f s).pingEvent = s.pingEvent ∨ (f s).pingEvent = none) :
    Hushed m { m with sm := m.sm.modify p f } := by
  intro q
  dsimp only
  rw [SessionManager.deref, SessionManager.heap_modify, SessionManager.deref]
  split_ifs
  · cases m.sm.heap[q]? with
    | none => exact .inl rfl
    | some s => exact each s
  · exact .inl rfl

theorem pingBack_hushed (p : SessionPtr) (m : Machine) : Hushed m (m.pingBack p) := by
  have one := modify_hushed m p (fun s => s.pingBack.2) fun s => .inr s.pingBack_unheld
  unfold pingBack
  split <;> exact one

theorem watchCallback_hushed (state : State) (e : Watch.Event) (w : Watcher) (m : Machine) :
    Hushed m (watchCallback state w e m) := by
  cases live : m.sm.get w.sid with
  | none =>
      simp only [watchCallback, live]
      exact .refl m
  | some p =>
      rw [watchCallback_eq state e live]
      refine Hushed.trans ?_ (modify_hushed _ p (Session.removeWatch w) fun _ => .inl rfl)
      unfold notified
      split_ifs
      · exact (modify_hushed m p (Session.pend w.path e) fun _ => .inl rfl).trans
          (pingBack_hushed p (pended e w p m))
      · exact .refl m

theorem triger_hushed {e : Watch.Event} (done : triger state e m = .ok after) :
    Hushed m after := by
  unfold triger at done
  split at done
  · cases done
  next calls climbed =>
    cases done
    refine Hushed.foldl (trigerInternal state e) (fun m call => ?_) calls
      { m with trace := m.trace ++ [.triger e] }
    exact Hushed.foldl (fun m (entry : Str × Watcher) => watchCallback state entry.2 e m)
      (fun m entry => watchCallback_hushed state e entry.2 m) _ m

theorem onWatch_hushed (req : Request) (m : Machine) : Hushed m (m.onWatch req).2 := by
  unfold onWatch
  split
  · exact .refl m
  next p live =>
    dsimp only
    split_ifs
    · exact .refl m
    · exact modify_hushed m p (Session.bindWatch _) fun _ => .inl rfl

theorem touch_hushed {now : Time} {sid : Sid} {sm : SessionManager}
    (done : m.sm.touch options now sid = .ok sm) : Hushed m { m with sm := sm } := by
  obtain ⟨p, -, ⟨-, rfl⟩ | ⟨-, timers, rfl⟩⟩ := SessionManager.touch_cases done
  · exact .refl m
  · exact modify_hushed m p (Session.setExpireTime _) fun _ => .inl rfl

theorem Move.held (move : Move options state permits m after) (wf : m.sm.WellFormed)
    (silent : ¬ permits.pings) {sid : Sid} {p : SessionPtr} (live : after.sm.get sid = some p)
    (held : (after.sm.deref p).pingEvent ≠ none) :
    m.sm.get sid = some p ∧ (m.sm.deref p).pingEvent ≠ none := by
  have told (told : Told m after) (hushed : Hushed m after) :
      m.sm.get sid = some p ∧ (m.sm.deref p).pingEvent ≠ none := by
    rw [SessionManager.get, told.sessions] at live
    exact ⟨live, hushed.held held⟩
  cases move with
  | store db => exact ⟨live, held⟩
  | nodes q f only =>
      exact ⟨live, (modify_hushed m q f fun s => .inl (by rw [only])).held held⟩
  | reply e rep plain => exact ⟨live, held⟩
  | watch req => exact told (onWatch_told req m) (onWatch_hushed req m)
  | triger e after done => exact told (triger_told state done) (triger_hushed done)
  | pingBack other q there => exact told (pingBack_told q m) (pingBack_hushed q m)
  | ping q e there permitted => exact absurd permitted silent
  | touch other now sm permitted done =>
      have hushed := (touch_hushed done).held held
      obtain ⟨_, -, ⟨-, rfl⟩ | ⟨-, timers, rfl⟩⟩ := SessionManager.touch_cases done <;>
        exact ⟨live, hushed⟩
  | setTimeout other q timeout there permitted =>
      exact ⟨live, (modify_hushed m q (Session.setTimeout timeout) fun _ => .inl rfl).held held⟩
  | close q permitted =>
      exact ⟨live, (modify_hushed m q Session.close fun _ => .inl rfl).held held⟩
  | genSid permitted => exact ⟨live, held⟩
  | add other timeout now q sm permitted fresh done =>
      have entered := (touch_hushed (m := { m with sm := m.sm.inserted q _ }) done).held held
      have there : (m.sm.inserted q (Session.new other timeout)).get sid = some p := by
        obtain ⟨_, -, ⟨-, rfl⟩ | ⟨-, timers, rfl⟩⟩ := SessionManager.touch_cases done <;> exact live
      rw [SessionManager.inserted_get] at there
      cases before : m.sm.get sid with
      | some old =>
          rw [before, Option.some_or] at there
          cases there
          dsimp only at entered
          rw [SessionManager.inserted_deref m.sm wf q fresh _ before] at entered
          exact ⟨rfl, entered⟩
      | none =>
          -- A new session holds no ping.
          rw [before, Option.none_or] at there
          split_ifs at there
          cases there
          simp [SessionManager.deref, SessionManager.inserted_heap, Session.new] at entered
  | drop other q sm permitted there done =>
      obtain ⟨-, heap, get⟩ := SessionManager.remove_frame done
      dsimp only at live held
      rw [get] at live
      split_ifs at live
      rw [SessionManager.deref, heap] at held
      exact ⟨live, (modify_hushed m q Session.close fun _ => .inl rfl).held held⟩
  | free q gone =>
      have different : q ≠ p := by
        rintro rfl
        exact gone sid live
      refine ⟨live, ?_⟩
      simpa [SessionManager.deref, ExtTreeMap.getElem?_erase, different] using held

theorem Moves.held (moves : Moves options state permits m after) (wf : m.sm.WellFormed)
    (silent : ¬ permits.pings) {sid : Sid} {p : SessionPtr} (live : after.sm.get sid = some p)
    (held : (after.sm.deref p).pingEvent ≠ none) :
    m.sm.get sid = some p ∧ (m.sm.deref p).pingEvent ≠ none :=
  (moves.invariant (fun other => ∀ {sid p}, other.sm.get sid = some p →
      (other.sm.deref p).pingEvent ≠ none →
      m.sm.get sid = some p ∧ (m.sm.deref p).pingEvent ≠ none)
    (fun one two wf holds move _ _ live held => by
      obtain ⟨there, before⟩ := move.held wf silent live held
      exact holds there before)
    wf fun live held => ⟨live, held⟩).2 live held

theorem Told.filed (told : Told m after) {p : SessionPtr} (filed : m.sm.Filed p) :
    after.sm.Filed p := by
  obtain ⟨-, -, expire, -⟩ := Session.fields_of_core (told.deref p)
  rw [SessionManager.Filed, SessionManager.Files, told.timers, expire]
  exact filed

theorem Move.filed (move : Move options state permits m after) (wf : m.sm.WellFormed) {sid : Sid}
    {p : SessionPtr} (filed : m.sm.get sid = some p → m.sm.Filed p)
    (live : after.sm.get sid = some p) : after.sm.Filed p := by
  have told (told : Told m after) : after.sm.Filed p := by
    rw [SessionManager.get, told.sessions] at live
    exact told.filed (filed live)
  cases move with
  | store db => exact filed live
  | nodes q f only =>
      exact SessionManager.modify_filed (filed live) q f fun s => by rw [only]
  | reply e rep plain => exact filed live
  | watch req => exact told (onWatch_told req m)
  | triger e after done => exact told (triger_told state done)
  | pingBack other q there => exact told (pingBack_told q m)
  | ping q e there permitted => exact told (takePing_told q e m)
  | touch other now sm permitted done =>
      obtain ⟨q, there, -⟩ := SessionManager.touch_cases done
      dsimp only at live
      rw [SessionManager.get, (SessionManager.touch_keeps wf done).sessions] at live
      exact SessionManager.touch_filed wf there done (.inl (filed live))
  | setTimeout other q timeout there permitted =>
      exact SessionManager.modify_filed (filed live) q (Session.setTimeout timeout) fun _ => rfl
  | close q permitted =>
      exact SessionManager.modify_filed (filed live) q Session.close fun _ => rfl
  | genSid permitted => exact filed live
  | add other timeout now q sm permitted fresh done =>
      exact SessionManager.add_filed wf fresh rfl done live filed
  | drop other q sm permitted there done =>
      have before := live
      dsimp only at before
      rw [(SessionManager.remove_frame done).2.2] at before
      split_ifs at before
      exact SessionManager.remove_filed
        (SessionManager.modify_wellFormed m.sm wf q Session.close (fun _ => rfl) fun _ => rfl)
        (SessionManager.modify_filed (filed before) q Session.close fun _ => rfl) done live
  | free q gone =>
      have different : q ≠ p := by
        rintro rfl
        exact gone sid live
      have same : SessionManager.deref { m.sm with heap := m.sm.heap.erase q } p =
          m.sm.deref p := by
        simp [SessionManager.deref, ExtTreeMap.getElem?_erase, different]
      rw [SessionManager.Filed]
      dsimp only
      rw [same]
      exact filed live

theorem Moves.filed (moves : Moves options state permits m after) (wf : m.sm.WellFormed) {sid : Sid}
    {p : SessionPtr} (filed : m.sm.Filed p) (live : after.sm.get sid = some p) :
    after.sm.Filed p :=
  (moves.invariant (fun other => other.sm.get sid = some p → other.sm.Filed p)
    (fun _ _ wf filed move live => move.filed wf filed live) wf fun _ => filed).2 live

def Attended (options : Options) (time : Time) (m : Machine) : Prop :=
  ∀ sid p, m.sm.get sid = some p → (m.sm.deref p).active = true →
    (m.sm.deref p).pingEvent ≠ none →
    m.sm.Filed p ∧ options.sessionCheckInterval * 1000 ∣ (m.sm.deref p).expire ∧
      time < (m.sm.deref p).expire

variable {time : Time}

theorem Attended.moves (attended : Attended options time m) (wf : m.sm.WellFormed)
    (silent : ¬ permits.pings)
    (once : ∀ sid, permits.removes sid → ∀ now, ¬ permits.renews sid now)
    (later : ∀ sid now p timeout, permits.renews sid now → m.sm.get sid = some p →
      timeout = (m.sm.deref p).timeout ∨ permits.retimes sid timeout →
      time < deadline options now timeout)
    (moves : Moves options state permits m after) : Attended options time after := by
  intro sid p live active held
  obtain ⟨before, heldToo⟩ := moves.held wf silent live held
  have paced : Paced options permits sid p m after :=
    (moves.paced wf before (once sid)).resolve_right fun gone => by simp [gone.1] at live
  obtain ⟨filed, grid, bound⟩ := attended sid p before (paced.wasActive active) heldToo
  refine ⟨moves.filed wf filed live, ?_⟩
  rcases paced.expire with same | ⟨now, timeout, renews, timeouts, same⟩ <;> rw [same]
  · exact ⟨grid, bound⟩
  · exact ⟨dvd_roundTo _ _, later sid now p timeout renews before timeouts⟩

theorem Attended.told (attended : Attended options time m) (told : Told m after)
    (hushed : Hushed m after) : Attended options time after := by
  intro sid p live active held
  obtain ⟨-, -, expire, same, -⟩ := Session.fields_of_core (told.deref p)
  rw [SessionManager.get, told.sessions] at live
  obtain ⟨filed, grid, bound⟩ := attended sid p live (same.symm.trans active) (hushed.held held)
  rw [expire]
  exact ⟨told.filed filed, grid, bound⟩

theorem takePing_elsewhere {p q : SessionPtr} (e : Event) (different : p ≠ q) :
    (m.takePing p e).sm.deref q = m.sm.deref q := by
  have modified (m : Machine) (f : Session → Session) :
      (m.sm.modify p f).deref q = m.sm.deref q := by
    rw [SessionManager.deref, SessionManager.heap_modify, if_neg different]
    rfl
  have hold : (m.holdPing p e).sm.deref q = m.sm.deref q := by
    unfold holdPing
    cases (m.sm.deref p).pingEvent <;> exact modified _ _
  unfold takePing
  dsimp only
  split_ifs
  · exact hold
  · rw [← hold]
    unfold pingBack
    split <;> exact modified _ _

theorem Attended.ping {p : SessionPtr} {e : Event} {now : Time} {sm : SessionManager}
    (attended : Attended options time m) (wf : m.sm.WellFormed)
    (live : m.sm.get e.req.sid = some p)
    (touched : m.sm.touch options now e.req.sid = .ok sm)
    (later : time < deadline options now (m.sm.deref p).timeout) :
    Attended options time (takePing p e { m with sm := sm }) := by
  have told := takePing_told p e { m with sm := sm }
  intro sid q there active held
  rw [SessionManager.get, told.sessions] at there
  by_cases own : p = q
  · subst own
    obtain ⟨-, -, expire, same, -⟩ := Session.fields_of_core (told.deref p)
    obtain ⟨r, found, ⟨closed, rfl⟩ | ⟨before, -⟩⟩ := SessionManager.touch_cases touched <;>
      cases live.symm.trans found
    · rw [active, closed] at same
      cases same
    · rw [expire, SessionManager.touch_deref wf live before touched]
      exact ⟨told.filed (SessionManager.touch_filed wf live touched (.inr ⟨rfl, before⟩)),
        dvd_roundTo _ _, later⟩
  · rw [takePing_elsewhere e own] at active held ⊢
    -- The other sessions are as the renewal leaves them.
    have renews : Moves options .leader
        { Permits.nothing with renews := fun sid moment => sid = e.req.sid ∧ moment = now }
        m { m with sm := sm } := .single (.touch e.req.sid now sm ⟨rfl, rfl⟩ touched)
    have renewed : Attended options time { m with sm := sm } := by
      refine attended.moves wf id (fun _ => False.elim) ?_ renews
      rintro _ _ r timeout ⟨rfl, rfl⟩ there timeouts
      cases live.symm.trans there
      rw [timeouts.resolve_right id]
      exact later
    obtain ⟨filed, rest⟩ := renewed sid q there active held
    exact ⟨told.filed filed, rest⟩

theorem pingBack_unheld (p : SessionPtr) (m : Machine) :
    ((m.pingBack p).sm.deref p).pingEvent = none := by
  have modified : ((m.sm.modify p fun s => s.pingBack.2).deref p).pingEvent = none := by
    rw [SessionManager.deref, SessionManager.heap_modify, if_pos rfl]
    cases m.sm.heap[p]? with
    | none => rfl
    | some s => exact s.pingBack_unheld
  unfold pingBack
  split <;> exact modified

theorem pingBacks_unheld (ps : List SessionPtr) (m : Machine) {p : SessionPtr} (member : p ∈ ps) :
    ((ps.foldl (fun m p => m.pingBack p) m).sm.deref p).pingEvent = none := by
  induction ps generalizing m with
  | nil => cases member
  | cons q rest ih =>
      rcases List.mem_cons.mp member with rfl | later
      · have kept := Hushed.foldl (fun m p => m.pingBack p) (fun m p => pingBack_hushed p m) rest
          (m.pingBack p) p
        rw [pingBack_unheld, or_self] at kept
        exact kept
      · exact ih _ later

theorem Attended.tick {next : Time} (attended : Attended options time m)
    (positive : 0 < options.sessionCheckInterval)
    (grid : options.sessionCheckInterval * 1000 ∣ time)
    (soon : next ≤ time + options.sessionCheckInterval * 1000) :
    Attended options next ((m.sm.getSessions next).foldl (fun m p => m.pingBack p) m) := by
  have told := Told.foldl (fun m p => m.pingBack p) (fun m p => pingBack_told p m)
    (m.sm.getSessions next) m
  have hushed := Hushed.foldl (fun m p => m.pingBack p) (fun m p => pingBack_hushed p m)
    (m.sm.getSessions next) m
  intro sid p live active held
  obtain ⟨filed, dvd, bound⟩ := attended.told told hushed sid p live active held
  refine ⟨filed, dvd, lt_of_le_of_ne ?_ fun same => held (pingBacks_unheld _ m ?_)⟩
  · exact soon.trans (add_le_of_dvd (by omega) grid dvd bound)
  · obtain ⟨-, -, expire, -⟩ := Session.fields_of_core (told.deref p)
    rw [SessionManager.Filed, SessionManager.Files, told.timers, ← same] at filed
    exact Std.ExtTreeSet.mem_toList.mpr filed

end Machine

namespace Server

open Machine (Attended Moves Told)
open SessionManager (deadline)

variable {options : Options} {states : RaftStates} {env : Env} {ready : Ready}
  {server after : Server}

variable (options) in
/-- The time that `timeoutTimer` is set to by a `Step` that reads the clock last at this time. -/
def armed (read : Time) : Time :=
  roundTo (addTime read options.sessionCheckInterval) options.sessionCheckInterval

def checks (action : Action) (server : Server) : Option Time :=
  match action with
  | .turn env ready =>
      if server.state = .leader ∧ (server.inLoop = false ∨ ready = .timer) then some (env.clock 1)
      else none
  | _ => none

def timedAct (options : Options) (states : RaftStates) (action : Action) (run : Server × Time) :
    Except Fault (Server × Time) := do
  let next ← run.1.act options states action
  return (next, (checks action run.1).getD run.2)

def SparesPings (options : Options) (states : RaftStates) (action : Action) (run : Server × Time) :
    Prop :=
  ∀ env ready next, action = .turn env ready →
    run.1.turn options states env ready = .ok next →
    ∀ sid p, run.1.machine.sm.get sid = some p → (run.1.machine.sm.deref p).active = true →
      next.machine.sm.get sid = some p → (next.machine.sm.deref p).active = false →
      (run.1.machine.sm.deref p).pingEvent = none

def NoPings (sm : SessionManager) : Prop :=
  ∀ entry ∈ sm.sessions.toList, (sm.deref entry.2).pingEvent = none

instance (sm : SessionManager) : Decidable (NoPings sm) :=
  inferInstanceAs (Decidable (∀ entry ∈ sm.sessions.toList, _))

-- Every timeout is two intervals or more, also as `addTime` counts it.
def Roomy (options : Options) (sm : SessionManager) : Prop :=
  ∀ entry ∈ sm.sessions.toList,
    2 * (options.sessionCheckInterval * 1000) ≤ micros (sm.deref entry.2).timeout

instance (options : Options) (sm : SessionManager) : Decidable (Roomy options sm) :=
  inferInstanceAs (Decidable (∀ entry ∈ sm.sessions.toList, _))

-- The clock does not run backwards, no ping waits when a leader starts, and no tick is late by
-- half an interval or more.
def Prompt (options : Options) (action : Action) (run : Server × Time) : Prop :=
  match action with
  | .turn env ready =>
      run.1.state = .leader →
        0 < options.sessionCheckInterval ∧ run.2 ≤ env.clock 0 ∧ env.clock 0 ≤ env.clock 1 ∧
        (run.1.inLoop = false → NoPings run.1.machine.sm) ∧
        (run.1.inLoop = true → Roomy options run.1.machine.sm ∧
          (ready = .timer → 2 * env.clock 1 <
            2 * armed options run.2 + options.sessionCheckInterval * 1000))
  | _ => True

instance (options : Options) (action : Action) (run : Server × Time) :
    Decidable (Prompt options action run) :=
  match action with
  | .turn _ _ => inferInstanceAs (Decidable (_ → _ ∧ _))
  | .receive _ | .notify _ | .stop | .deliver | .accept _ _ | .restart _ => .isTrue trivial

theorem micros_interval (positive : 0 < options.sessionCheckInterval) :
    0 ≤ micros options.sessionCheckInterval ∧
      micros options.sessionCheckInterval ≤ options.sessionCheckInterval * 1000 := by
  have small := options.intervalFits
  have low : 0 ≤ options.sessionCheckInterval := by omega
  refine ⟨micros_nonneg low (by omega), ?_⟩
  rcases micros_cases low (by omega) with same | short <;> omega

theorem armed_bound {read : Int} (positive : 0 < options.sessionCheckInterval)
    (start : 0 ≤ read) :
    2 * armed options read ≤ 2 * read + 3 * (options.sessionCheckInterval * 1000) := by
  obtain ⟨low, high⟩ := micros_interval positive
  have arms := (roundTo_bounds (t := addTime read options.sessionCheckInterval) positive
    (Int.add_nonneg start low)).1
  change 2 * armed options read ≤ _ at arms
  unfold addTime at arms
  linarith

theorem armed_lt_deadline {read now timeout : Int} (positive : 0 < options.sessionCheckInterval)
    (start : 0 ≤ read) (later : read ≤ now)
    (roomy : 2 * (options.sessionCheckInterval * 1000) ≤ micros timeout) :
    armed options read < deadline options now timeout := by
  have arms := armed_bound positive start
  have expires := (roundTo_bounds (t := addTime now timeout) positive
    (by unfold addTime; omega)).2
  change _ < 2 * deadline options now timeout + _ at expires
  unfold addTime at expires
  linarith

theorem armed_soon {read now : Int} (positive : 0 < options.sessionCheckInterval)
    (start : 0 ≤ now)
    (prompt : 2 * now < 2 * armed options read + options.sessionCheckInterval * 1000) :
    armed options now ≤ armed options read + options.sessionCheckInterval * 1000 := by
  have arms := armed_bound positive start
  have grid (time : Time) : options.sessionCheckInterval * 1000 ∣ armed options time :=
    dvd_roundTo _ _
  by_contra late
  have far := add_le_of_dvd (by omega) (Int.dvd_add (grid read) (Int.dvd_refl _)) (grid now)
    (not_le.mp late)
  linarith

theorem Roomy.le {sm : SessionManager} (roomy : Roomy options sm) {sid : Sid} {p : SessionPtr}
    (live : sm.get sid = some p) :
    2 * (options.sessionCheckInterval * 1000) ≤ micros (sm.deref p).timeout :=
  roomy (sid, p) (ExtTreeMap.mem_toList_iff_getElem?_eq_some.mpr live)

theorem NoPings.none {sm : SessionManager} (noPings : NoPings sm) {sid : Sid} {p : SessionPtr}
    (live : sm.get sid = some p) : (sm.deref p).pingEvent = none :=
  noPings (sid, p) (ExtTreeMap.mem_toList_iff_getElem?_eq_some.mpr live)

theorem Leading.earlier {action : Action} (leading : Leading after)
    (wf : server.machine.sm.WellFormed) (taken : server.act options states action = .ok after) :
    server.state = .leader ∧ (server.inLoop = false → ∃ env ready, action = .turn env ready) := by
  obtain ⟨leads, inLoop⟩ := leading
  cases action with
  | receive | notify | stop =>
      cases taken
      exact ⟨leads, fun first => by cases inLoop.symm.trans first⟩
  | deliver =>
      cases taken
      unfold deliver at leads inLoop
      split at leads <;> split at inLoop <;>
        exact ⟨leads, fun first => by cases inLoop.symm.trans first⟩
  | accept kept cmds =>
      cases taken
      unfold accept at leads inLoop
      split at leads <;> split at inLoop <;>
        exact ⟨leads, fun first => by cases inLoop.symm.trans first⟩
  | restart env =>
      obtain ⟨_, -, taken⟩ := Runs.bind_ok.mp taken
      cases taken
      cases leads
  | turn env ready =>
      refine ⟨?_, fun _ => ⟨env, ready, rfl⟩⟩
      cases turn_cases wf taken with
      | advance pushes leads => exact leads
      | idle noCommand advances => exact advances.state.symm.trans leads
      | await waits first =>
          rw [replicate_state] at leads
          exact leads
      | command entry rest applying queue waits applied =>
          obtain ⟨_, m, -, ⟨-, rfl⟩ | ⟨_, _, -, -, rfl⟩⟩ := onCommand_ok applied <;> exact leads
      | lead => cases inLoop
      | change st =>
          unfold nextState at leads
          cases state : server.state <;> simp only [state] at leads <;> split_ifs at leads

variable {action : Action} {read : Time}

theorem attended_timer (wf : server.machine.sm.WellFormed) (leading : Leading server)
    (start : 0 ≤ read) (prompt : Prompt options (.turn env .timer) (server, read))
    (attended : Attended options (armed options read) server.machine)
    (taken : server.turn options states env .timer = .ok after) :
    Attended options (armed options (env.clock 1)) after.machine := by
  obtain ⟨positive, later, forward, -, loop⟩ := prompt leading.1
  obtain ⟨stepped, pushes, done, advances, moves⟩ := step_advances options env server wf
  simp only [turn, leading.1, leading.2, leaderLoop, Bool.true_eq_false, if_false, done, bind,
    Except.bind, pure, Except.pure, Except.ok.injEq] at taken
  subst taken
  have closed : Attended options (armed options read) stepped.machine :=
    attended.moves wf id (fun _ => False.elim) (fun _ _ _ _ => False.elim) moves
  exact closed.tick positive (dvd_roundTo _ _)
    (armed_soon positive (start.trans (later.trans forward)) ((loop leading.2).2 rfl))

theorem attended_ping {e : Event} {rest : List Event} (wf : server.machine.sm.WellFormed)
    (leading : Leading server) (start : 0 ≤ read)
    (prompt : Prompt options (.turn env .event) (server, read))
    (attended : Attended options (armed options read) server.machine)
    (queue : server.eventch = e :: rest) (pings : (eventPermits options env e).pings)
    (taken : server.turn options states env .event = .ok after) :
    Attended options (armed options read) after.machine := by
  obtain ⟨positive, later, -, -, loop⟩ := prompt leading.1
  obtain ⟨register, ping, kept⟩ := pings
  have done := turn_event leading queue taken
  cases live : server.machine.sm.get e.req.sid with
  | none =>
      simp only [handleEvent, register, live, if_true, Except.ok.injEq] at done
      subst done
      exact attended.told (Machine.reply_told e _ _) (.refl _)
  | some p =>
      obtain ⟨sm, touched, machine⟩ := handleEvent_ping (by exact wf) register ping kept
        (by exact live) done
      rw [machine]
      exact attended.ping wf live touched
        (armed_lt_deadline positive start later ((loop leading.2).1.le live))

theorem attended_otherwise {r : Replica} (stands : Stands options server r)
    (leading : Leading server) (running : action.isRestart = false) (start : 0 ≤ read)
    (prompt : Prompt options action (server, read))
    (attended : Attended options (armed options read) server.machine)
    (silent : ¬ (actionPermits options action server).pings)
    (taken : server.act options states action = .ok after) :
    Attended options (armed options read) after.machine := by
  cases act_works stands running taken with
  | entered env ready sm is leads first reset moves => cases leading.2.symm.trans first
  | moves moves =>
      refine attended.moves stands.wellFormed silent (fun _ => actionPermits_once)
        (fun sid now p timeout renews live timeouts => ?_) moves
      have deadline_of {env : Env} {ready : Ready} (is : action = .turn env ready)
          (time : now = env.clock 0)
          (same : timeout = (server.machine.sm.deref p).timeout) :
          armed options read < deadline options now timeout := by
        subst is
        obtain ⟨positive, later, -, -, loop⟩ := prompt leading.1
        rw [time, same]
        exact armed_lt_deadline positive start later ((loop leading.2).1.le live)
      obtain ⟨env, ready, cmd, is, -, permits⟩ | ⟨env, e, rest, is, -, permits⟩ |
        ⟨env, is, permits⟩ | permits := actionPermits_cases options action server <;>
        rw [permits] at renews timeouts
      · exact deadline_of is renews.2.2 (timeouts.resolve_right id)
      · refine deadline_of is renews.2.2.2 (timeouts.resolve_right ?_)
        rintro ⟨-, asked, register, -⟩
        cases renews.1.symm.trans register
      · exact renews.elim
      · exact renews.elim

theorem attended_enter (wf : server.machine.sm.WellFormed) (leads : server.state = .leader)
    (first : server.inLoop = false) (noPings : NoPings server.machine.sm)
    (taken : server.turn options states env ready = .ok after) (time : Time) :
    Attended options time after.machine := by
  obtain ⟨_, _, entered, -, ⟨sm, reset, moves⟩, -⟩ :=
    enter_leader_advances options env ready server wf leads first
  rw [turn, if_pos first, entered] at taken
  cases taken
  have keeps := SessionManager.reset_keeps wf reset
  intro sid p live active held
  obtain ⟨there, heldToo⟩ := moves.held (by exact keeps.wellFormed) id live held
  have before : server.machine.sm.get sid = some p := by
    rw [SessionManager.get, ← keeps.sessions]
    exact there
  have owed := Machine.reset_owed wf reset sid
  rw [Machine.owed_live there, Machine.owed_live before] at owed
  exact absurd ((congrArg Prod.fst owed).trans (noPings.none before)) heldToo

theorem attended_act {r : Replica} (stands : Stands options server r) (leading : Leading server)
    (running : action.isRestart = false) (start : 0 ≤ read)
    (prompt : Prompt options action (server, read))
    (attended : Attended options (armed options read) server.machine)
    (taken : server.act options states action = .ok after) :
    Attended options (armed options ((checks action server).getD read)) after.machine := by
  have wf := stands.wellFormed
  by_cases timer : ∃ env, action = .turn env .timer
  · obtain ⟨env, rfl⟩ := timer
    have step : checks (.turn env .timer) server = some (env.clock 1) := by
      simp [checks, leading.1]
    rw [step]
    exact attended_timer wf leading start prompt attended taken
  · have unchecked : checks action server = none := by
      cases action with
      | turn env ready =>
          have different : ready ≠ .timer := by
            rintro rfl
            exact timer ⟨env, rfl⟩
          simp [checks, leading.2, different]
      | _ => rfl
    rw [unchecked, Option.getD_none]
    by_cases pings : (actionPermits options action server).pings
    · obtain ⟨env, ready, cmd, is, -, permits⟩ | ⟨env, e, rest, is, queue, permits⟩ |
        ⟨env, is, permits⟩ | permits := actionPermits_cases options action server <;>
        rw [permits] at pings
      · exact pings.elim
      · subst is
        exact attended_ping wf leading start prompt attended queue pings taken
      · exact pings.elim
      · exact pings.elim
    · exact attended_otherwise stands leading running start prompt attended pings taken

structure Tended (options : Options) (states : RaftStates) (run : Server × Time) : Prop where
  reachable : Reachable options states run.1
  start : 0 ≤ run.2
  attended : Leading run.1 → Attended options (armed options run.2) run.1.machine

theorem Tended.act {run next : Server × Time} (tended : Tended options states run)
    (prompt : Prompt options action run)
    (stepped : timedAct options states action run = .ok next) : Tended options states next := by
  obtain ⟨server, read⟩ := run
  obtain ⟨after, taken, done⟩ := Runs.bind_ok.mp stepped
  cases done
  obtain ⟨r, stands⟩ := reachable_stands tended.reachable
  refine ⟨tended.reachable.act taken, ?_, fun leading => ?_⟩
  · cases action with
    | turn env ready =>
        dsimp only [checks]
        split_ifs with step
        · obtain ⟨-, later, forward, -⟩ := prompt step.1
          exact tended.start.trans (later.trans forward)
        · exact tended.start
    | _ => exact tended.start
  · obtain ⟨leads, turns⟩ := leading.earlier stands.wellFormed taken
    cases first : server.inLoop with
    | false =>
        obtain ⟨env, ready, rfl⟩ := turns first
        exact attended_enter stands.wellFormed leads first ((prompt leads).2.2.2.1 first) taken _
    | true =>
        exact attended_act stands ⟨leads, first⟩ (leading.running taken) tended.start prompt
          (tended.attended ⟨leads, first⟩) taken

theorem turn_timer_idle (follows : server.state ≠ .leader)
    (taken : server.turn options states env .timer = .ok after) :
    after.machine = server.machine := by
  cases state : server.state <;> cases inLoop : server.inLoop <;>
    simp only [turn, enter, followerLoop, waitLoop, state, inLoop, if_true, Bool.true_eq_false,
      if_false, Except.ok.injEq] at taken
  case leader.false | leader.true => exact absurd state follows
  case waiter.false => rw [← taken, replicate_machine]
  all_goals rw [← taken]

theorem Tended.sparesPings {run : Server × Time} (tended : Tended options states run)
    (prompt : Prompt options action run) : SparesPings options states action run := by
  rintro env ready next rfl taken sid p live active still inactive
  obtain ⟨r, stands⟩ := reachable_stands tended.reachable
  have works : Works options (.turn env ready) run.1 next := act_works stands rfl taken
  cases works with
  | entered env' ready' sm is leads first reset moves =>
      exact ((prompt leads).2.2.2.1 first).none live
  | moves moves =>
      have paced := (moves.paced stands.wellFormed live actionPermits_once).resolve_right
        fun gone => by simp [gone.1] at still
      have closes := (paced.active.resolve_left fun same => by simp [active, inactive] at same).2
      obtain ⟨_, _, _, is, -, same⟩ | ⟨_, _, _, is, -, same⟩ | ⟨_, is, same⟩ | same :=
        actionPermits_cases options (.turn env ready) run.1 <;> rw [same] at closes
      · exact closes.elim
      · exact closes.elim
      · cases is
        by_contra held
        by_cases leads : run.1.state = .leader
        · obtain ⟨positive, later, forward, noPings, loop⟩ := prompt leads
          cases first : run.1.inLoop with
          | false => exact held ((noPings first).none live)
          | true =>
              -- The deadline is a whole interval after the tick, and the tick is not that late.
              obtain ⟨-, grid, bound⟩ := tended.attended ⟨leads, first⟩ sid p live active held
              have away := add_le_of_dvd (by omega) (dvd_roundTo _ _) grid bound
              have due := SessionManager.due_expire stands.wellFormed closes
              have soon := (loop first).2 rfl
              change armed options run.2 + _ ≤ _ at away
              linarith
        · rw [turn_timer_idle leads taken, active] at inactive
          cases inactive
      · exact closes.elim

theorem pinged_sessions_spared {first : Server} (started : initial options env = .ok first)
    (actions : List Action)
    (prompt : Runs.Meets (timedAct options states) (Prompt options) (first, 0) actions) :
    Runs.Meets (timedAct options states) (SparesPings options states) (first, 0) actions := by
  have begins : Tended options states (first, 0) := by
    refine ⟨⟨env, first, [], started, rfl⟩, le_refl 0, fun leading => ?_⟩
    obtain ⟨_, -, restarted⟩ := Runs.bind_ok.mp started
    cases restarted
    cases leading.1
  exact Runs.meets_invariant _ (Prompt options) _ (Tended options states)
    (fun _ _ _ tended prompt stepped => tended.act prompt stepped)
    (fun _ _ tended prompt => tended.sparesPings prompt) _ actions begins prompt

def ticks (times : List Time) : List Action := times.map fun time => .turn (.still time) .timer

def pinging : List Action := joined ++ pinged 0 ++ ticks [1000000, 2000000, 3000000]

theorem pinged_sessions_spared_prompt : ∃ (first : Server) (middle last : Server × Time),
    initial Options.standard (.still 0) = .ok first ∧
      Runs.Meets (timedAct Options.standard .sample) (Prompt Options.standard) (first, 0)
        (pinging ++ ticks [4000000, 5000000, 6000000]) ∧
      Runs.run (timedAct Options.standard .sample) (first, 0) pinging = .ok middle ∧
      (middle.1.machine.sm.deref 1).pingEvent.isSome = true ∧
      Runs.run (timedAct Options.standard .sample) (first, 0)
        (pinging ++ ticks [4000000, 5000000, 6000000]) = .ok last ∧
      last.1.machine.sm.get 1 = some 1 ∧ (last.1.machine.sm.deref 1).active = false ∧
      Runs.Meets (timedAct Options.standard .sample) (SparesPings Options.standard .sample)
        (first, 0) (pinging ++ ticks [4000000, 5000000, 6000000]) := by
  have found : Runs.passes (initial Options.standard (.still 0)) (fun first =>
      decide (Runs.Meets (timedAct Options.standard .sample) (Prompt Options.standard) (first, 0)
        (pinging ++ ticks [4000000, 5000000, 6000000])) &&
      (Runs.passes (Runs.run (timedAct Options.standard .sample) (first, 0) pinging)
        (fun middle => decide ((middle.1.machine.sm.deref 1).pingEvent.isSome = true)) &&
      Runs.passes (Runs.run (timedAct Options.standard .sample) (first, 0)
        (pinging ++ ticks [4000000, 5000000, 6000000])) fun last =>
          decide (last.1.machine.sm.get 1 = some 1 ∧
            (last.1.machine.sm.deref 1).active = false))) = true := by decide +kernel
  simp only [Runs.passes_iff, Bool.and_eq_true, decide_eq_true_eq] at found
  obtain ⟨first, started, prompt, ⟨middle, waited, held⟩, last, reached, live, closed⟩ := found
  exact ⟨first, middle, last, started, prompt, waited, held, reached, live, closed,
    pinged_sessions_spared started _ prompt⟩

def NotBefore (options : Options) (action : Action) (run : Server × Time) : Prop :=
  match action with
  | .turn env .timer =>
      Leading run.1 → armed options run.2 ≤ env.clock 0 ∧ Roomy options run.1.machine.sm
  | _ => True

instance (options : Options) (action : Action) (run : Server × Time) :
    Decidable (NotBefore options action run) :=
  match action with
  | .turn _ .timer => inferInstanceAs (Decidable (_ → _))
  | .turn _ .event | .turn _ .command | .turn _ .state => .isTrue trivial
  | .receive _ | .notify _ | .stop | .deliver | .accept _ _ | .restart _ => .isTrue trivial

-- The tick of 4 s comes at 4.6 s and sets the timer to 6 s, where it closes the session.
theorem pinged_session_expired : ∃ (first : Server) (last : Server × Time) (next : Server),
    initial Options.standard (.still 0) = .ok first ∧
      Runs.Meets (timedAct Options.standard .sample) (NotBefore Options.standard) (first, 0)
        (pinging ++ ticks [4600000, 6000000]) ∧
      Runs.run (timedAct Options.standard .sample) (first, 0) (pinging ++ ticks [4600000]) =
        .ok last ∧
      last.1.machine.sm.get 1 = some 1 ∧ (last.1.machine.sm.deref 1).active = true ∧
      (last.1.machine.sm.deref 1).pingEvent.isSome = true ∧
      last.1.turn Options.standard .sample (.still 6000000) .timer = .ok next ∧
      next.machine.sm.get 1 = some 1 ∧ (next.machine.sm.deref 1).active = false ∧
      ¬ SparesPings Options.standard .sample (.turn (.still 6000000) .timer) last := by
  have found : Runs.passes (initial Options.standard (.still 0)) (fun first =>
      decide (Runs.Meets (timedAct Options.standard .sample) (NotBefore Options.standard)
        (first, 0) (pinging ++ ticks [4600000, 6000000])) &&
      Runs.passes (Runs.run (timedAct Options.standard .sample) (first, 0)
        (pinging ++ ticks [4600000])) fun last =>
          decide (last.1.machine.sm.get 1 = some 1 ∧
            (last.1.machine.sm.deref 1).active = true ∧
            (last.1.machine.sm.deref 1).pingEvent.isSome = true) &&
          Runs.passes (last.1.turn Options.standard .sample (.still 6000000) .timer) fun next =>
            decide (next.machine.sm.get 1 = some 1 ∧
              (next.machine.sm.deref 1).active = false)) = true := by decide +kernel
  simp only [Runs.passes_iff, Bool.and_eq_true, decide_eq_true_eq] at found
  obtain ⟨first, started, domain, last, reached, ⟨live, active, held⟩, next, taken, still,
    closed⟩ := found
  refine ⟨first, last, next, started, domain, reached, live, active, held, taken, still, closed,
    fun spares => ?_⟩
  rw [spares _ _ next rfl taken 1 1 live active still closed] at held
  cases held

def reelected : List Action :=
  -- Raft follows and leads again before the loop reads either state; a ping comes between.
  joined ++ [.notify 0, .notify 1] ++ pinged 0 ++
    [.turn (.still 0) .state, .turn (.still 0) .timer, .turn (.still 0) .state,
      .turn (.still 7) .timer, .deliver, .turn (.still 0) .command, .turn (.still 300000) .timer]

-- `ResetTimer` sets the deadline of a session to 5.3 s, which no tick asks for.
theorem pinged_session_expired_reset : ∃ (first : Server) (last : Server × Time) (next : Server),
    initial Options.standard (.still 0) = .ok first ∧
      Runs.run (timedAct Options.standard .sample) (first, 0)
        (reelected ++ ticks [1000000, 2000000, 3000000, 4000000, 5000000]) = .ok last ∧
      last.1.machine.sm.get 1 = some 1 ∧ (last.1.machine.sm.deref 1).active = true ∧
      (last.1.machine.sm.deref 1).pingEvent.isSome = true ∧
      Prompt Options.standard (.turn (.still 6000000) .timer) last ∧
      last.1.turn Options.standard .sample (.still 6000000) .timer = .ok next ∧
      next.machine.sm.get 1 = some 1 ∧ (next.machine.sm.deref 1).active = false := by
  have found : Runs.passes (initial Options.standard (.still 0)) (fun first =>
      Runs.passes (Runs.run (timedAct Options.standard .sample) (first, 0)
        (reelected ++ ticks [1000000, 2000000, 3000000, 4000000, 5000000])) fun last =>
          decide (last.1.machine.sm.get 1 = some 1 ∧
            (last.1.machine.sm.deref 1).active = true ∧
            (last.1.machine.sm.deref 1).pingEvent.isSome = true ∧
            Prompt Options.standard (.turn (.still 6000000) .timer) last) &&
          Runs.passes (last.1.turn Options.standard .sample (.still 6000000) .timer) fun next =>
            decide (next.machine.sm.get 1 = some 1 ∧
              (next.machine.sm.deref 1).active = false)) = true := by decide +kernel
  simp only [Runs.passes_iff, Bool.and_eq_true, decide_eq_true_eq] at found
  obtain ⟨first, started, last, reached, ⟨live, active, held, prompt⟩, next, taken, still,
    closed⟩ := found
  exact ⟨first, last, next, started, reached, live, active, held, prompt, taken, still, closed⟩

end Server

end Pyxis
