import Pyxis.Server.Machine

set_option autoImplicit false

open Std (ExtTreeMap ExtTreeSet)

namespace Pyxis

namespace SessionManager

def step (now : Time) (sm : SessionManager) : SessionManager :=
  -- `sessionCallback_` reaches the log only.
  (sm.due now).foldl
    (fun sm p => if (sm.deref p).active then sm.modify p Session.close else sm) sm

inductive Op where
  | add (sid : Sid) (timeout : Int)
  | touch (sid : Sid)
  | close (sid : Sid)
  | remove (sid : Sid)
  | setTimeout (sid : Sid) (timeout : Int)
  | step
  | resetTimer
  deriving DecidableEq, Repr

def onSession (sid : Sid) (f : Session → Session) (sm : SessionManager) : SessionManager :=
  match sm.get sid with
  | none => sm
  | some p => sm.modify p f

def exec (options : Options) (call : Env × Op) (sm : SessionManager) :
    Except Fault SessionManager :=
  match call.2 with
  | .add sid timeout =>
      sm.add options (call.1.clock 0) (call.1.alloc sm) (Session.new sid timeout)
  | .touch sid => sm.touch options (call.1.clock 0) sid
  | .close sid => .ok (sm.onSession sid Session.close)
  | .remove sid => sm.remove sid
  | .setTimeout sid timeout => .ok (sm.onSession sid (Session.setTimeout timeout))
  | .step => .ok (sm.step (call.1.clock 0))
  | .resetTimer => sm.resetTimer call.1.clock

def Files (sm : SessionManager) (time : Time) (p : SessionPtr) : Prop :=
  p ∈ sm.timers[time]?.getD ∅

/-- Every session of `sessions_` is in the bucket of its expire time, and in no other. -/
def Queued (sm : SessionManager) : Prop :=
  ∀ sid p, sm.get sid = some p → ∀ time, sm.Files time p ↔ time = (sm.deref p).expire

theorem files_iff (sm : SessionManager) (time : Time) (p : SessionPtr) :
    sm.Files time p ↔ ∃ set, sm.timers[time]? = some set ∧ p ∈ set := by
  unfold Files
  cases sm.timers[time]? <;> simp

theorem Files.live {sm : SessionManager} {time : Time} {p : SessionPtr} (wf : sm.WellFormed)
    (files : sm.Files time p) : ∃ sid, sm.get sid = some p ∧ (sm.deref p).expire = time := by
  obtain ⟨set, bucket, member⟩ := (files_iff sm time p).mp files
  obtain ⟨session, stored, expire, live⟩ := wf.queued time set p bucket member
  exact ⟨session.sid, live, by simpa [deref, stored] using expire⟩

theorem removeFromTimers_files {sm after : SessionManager} (wf : sm.WellFormed) {sid : Sid}
    {p : SessionPtr} (live : sm.get sid = some p) (done : sm.removeFromTimers sid = .ok after)
    (time : Time) (q : SessionPtr) : after.Files time q ↔ sm.Files time q ∧ q ≠ p := by
  simp only [removeFromTimers, live] at done
  -- Whatever bucket holds the session is the one of its expire time.
  have elsewhere (other : time ≠ (sm.deref p).expire) (files : sm.Files time q) : q ≠ p := by
    rintro rfl
    obtain ⟨-, -, expire⟩ := files.live wf
    exact other expire.symm
  cases bucket : sm.timers[(sm.deref p).expire]? with
  | none =>
      rw [bucket] at done
      cases done
      refine ⟨fun files => ⟨files, elsewhere ?_ files⟩, And.left⟩
      rintro rfl
      simp [Files, bucket] at files
  | some set =>
      rw [bucket] at done
      cases done
      by_cases here : time = (sm.deref p).expire
      · subst here
        have left : (if (set.erase p).isEmpty then sm.timers.erase (sm.deref p).expire
            else sm.timers.insert (sm.deref p).expire (set.erase p))[(sm.deref p).expire]?.getD ∅ =
              set.erase p := by
          split_ifs with empty
          · rw [ExtTreeMap.getElem?_erase_self, Option.getD_none]
            exact (ExtTreeSet.isEmpty_iff.mp empty).symm
          · rw [ExtTreeMap.getElem?_insert_self, Option.getD_some]
        simp only [Files, left, bucket, Option.getD_some, ExtTreeSet.mem_erase, ne_eq,
          Std.compare_eq_iff_eq]
        rw [and_comm, eq_comm]
      · have same : (if (set.erase p).isEmpty then sm.timers.erase (sm.deref p).expire
            else sm.timers.insert (sm.deref p).expire (set.erase p))[time]? = sm.timers[time]? := by
          split_ifs <;>
            simp [ExtTreeMap.getElem?_erase, ExtTreeMap.getElem?_insert, Ne.symm here]
        simp only [Files, same]
        exact ⟨fun files => ⟨files, elsewhere here files⟩, And.left⟩

theorem touch_files {options : Options} {now : Time} {sm after : SessionManager}
    (wf : sm.WellFormed) {sid : Sid} {p : SessionPtr} (live : sm.get sid = some p)
    (active : (sm.deref p).active = true) (done : sm.touch options now sid = .ok after)
    (time : Time) (q : SessionPtr) :
    after.Files time q ↔ if q = p then time = deadline options now (sm.deref p).timeout
      else sm.Files time q := by
  simp only [touch, live, active, Bool.true_eq_false, if_false] at done
  split at done
  · cases done
  next left removed =>
    have files := removeFromTimers_files wf live removed
    obtain ⟨timers, rfl⟩ := removeFromTimers_cases removed
    cases done
    change (SessionManager.Files { sm.modify p _ with
      timers := timers.insert (deadline options now (sm.deref p).timeout)
        ((timers[deadline options now (sm.deref p).timeout]?.getD ∅).insert p) } time q) ↔ _
    generalize deadline options now (sm.deref p).timeout = expire
    have inserted : ((timers.insert expire ((timers[expire]?.getD ∅).insert p))[time]?.getD ∅) =
        if time = expire then (timers[expire]?.getD ∅).insert p else timers[time]?.getD ∅ := by
      rw [ExtTreeMap.getElem?_insert]
      by_cases here : time = expire
      · simp [here]
      · simp [here, Ne.symm here]
    have old := files time q
    simp only [Files] at old ⊢
    rw [inserted]
    by_cases same : q = p
    · subst same
      simp only [ne_eq, not_true_eq_false, and_false, iff_false] at old
      by_cases here : time = expire
      · simp [here, ExtTreeSet.mem_insert]
      · simp [here, old]
    · simp only [ne_eq, same, not_false_eq_true, and_true] at old
      by_cases here : time = expire
      · subst here
        simpa [ExtTreeSet.mem_insert, Ne.symm same, same] using old
      · simpa [here, same] using old

def Filed (sm : SessionManager) (p : SessionPtr) : Prop := sm.Files (sm.deref p).expire p

theorem queued_iff {sm : SessionManager} (wf : sm.WellFormed) :
    sm.Queued ↔ ∀ sid p, sm.get sid = some p → sm.Filed p := by
  constructor
  · intro queued sid p live
    exact (queued sid p live _).mpr rfl
  · intro filed sid p live time
    constructor
    · intro files
      obtain ⟨-, -, expire⟩ := files.live wf
      exact expire.symm
    · rintro rfl
      exact filed sid p live

theorem touch_filed {options : Options} {now : Time} {sm after : SessionManager}
    (wf : sm.WellFormed) {sid : Sid} {p : SessionPtr} (live : sm.get sid = some p)
    (done : sm.touch options now sid = .ok after) {q : SessionPtr}
    (filed : sm.Filed q ∨ q = p ∧ (sm.deref p).active = true) : after.Filed q := by
  obtain ⟨r, found, ⟨closed, rfl⟩ | ⟨active, timers, moved⟩⟩ := touch_cases done <;>
    cases live.symm.trans found
  · exact filed.resolve_right fun ⟨_, active⟩ => by simp [closed] at active
  · have expire : (after.deref q).expire =
        if q = p then deadline options now (sm.deref p).timeout else (sm.deref q).expire := by
      rw [moved]
      change ((sm.modify p _).deref q).expire = _
      rw [deref_modify sm p q _ (get_deref sm wf sid p live).1]
      by_cases same : q = p
      · simp [same, Session.setExpireTime]
      · simp [same, Ne.symm same]
    rw [Filed, touch_files wf live active done, expire]
    by_cases same : q = p
    · simp [same]
    · simp only [same, if_false]
      exact filed.resolve_right fun ⟨here, _⟩ => same here

theorem add_filed {options : Options} {now : Time} {sm after : SessionManager}
    (wf : sm.WellFormed) {p : SessionPtr} (fresh : sm.heap[p]? = none) {session : Session}
    (active : session.active = true) (done : sm.add options now p session = .ok after) {sid : Sid}
    {q : SessionPtr} (there : after.get sid = some q)
    (filed : sm.get sid = some q → sm.Filed q) : after.Filed q := by
  have wellFormed := inserted_wellFormed sm wf p fresh session
  obtain ⟨r, live, -⟩ := touch_cases done
  have keeps : Keeps (sm.inserted p session) after := touch_keeps wellFormed done
  have found : (sm.inserted p session).get sid = some q := by
    rw [get, ← keeps.sessions]
    exact there
  refine touch_filed wellFormed live done ?_
  cases before : sm.get sid with
  | some old =>
      rw [inserted_get, before, Option.some_or] at found
      cases found
      have same := inserted_deref sm wf p fresh session before
      refine .inl ?_
      rw [Filed, show SessionManager.deref _ q = sm.deref q from same]
      exact filed before
  | none =>
      -- The session is the new one, and `Add` touches it.
      have own := found
      rw [inserted_get, before, Option.none_or] at own
      split_ifs at own with same
      cases own
      subst same
      cases live.symm.trans found
      refine .inr ⟨rfl, ?_⟩
      rw [deref, inserted_heap, if_pos rfl]
      exact active

theorem modify_filed {sm : SessionManager} {q : SessionPtr} (filed : sm.Filed q) (p : SessionPtr)
    (f : Session → Session) (expire : ∀ s, (f s).expire = s.expire) : (sm.modify p f).Filed q := by
  rw [Filed, modify_field Session.expire sm p f expire]
  exact filed

theorem remove_filed {sm after : SessionManager} (wf : sm.WellFormed) {sid other : Sid}
    {q : SessionPtr} (filed : sm.Filed q) (done : sm.remove sid = .ok after)
    (there : after.get other = some q) : after.Filed q := by
  unfold remove at done
  split at done
  · cases done
  next p live =>
    split_ifs at done
    split at done
    · cases done
    next left removed =>
      have files := removeFromTimers_files wf live removed
      obtain ⟨timers, rfl⟩ := removeFromTimers_cases removed
      cases done
      simp only [get, ExtTreeMap.getElem?_erase, Std.compare_eq_iff_eq] at there
      split_ifs at there with different
      have apart : q ≠ p := by
        rintro rfl
        exact different (sessions_inj sm wf _ _ q live there)
      exact (files _ q).mpr ⟨filed, apart⟩

theorem modify_queued {sm : SessionManager} (queued : sm.Queued) (p : SessionPtr)
    (f : Session → Session) (expire : ∀ s, (f s).expire = s.expire) : (sm.modify p f).Queued := by
  intro sid q live time
  rw [modify_field Session.expire sm p f expire]
  exact queued sid q live time

theorem onSession_queued {sm : SessionManager} (queued : sm.Queued) (sid : Sid)
    (f : Session → Session) (expire : ∀ s, (f s).expire = s.expire) :
    (sm.onSession sid f).Queued := by
  unfold onSession
  split
  · exact queued
  · exact modify_queued queued _ f expire

theorem step_queued {sm : SessionManager} (queued : sm.Queued) (now : Time) :
    (sm.step now).Queued := by
  unfold step
  generalize sm.due now = ps
  induction ps generalizing sm with
  | nil => exact queued
  | cons p rest ih =>
      refine ih ?_
      dsimp only
      split_ifs
      · exact modify_queued queued p _ fun _ => rfl
      · exact queued

section Reset

variable (clock : Nat → Time)

def resetDeadlines (sm : SessionManager) : List Time :=
  sm.timers.toList.zipIdx.map (deadlineOf clock sm)

theorem resetBucket_deadlineOf {sm after : SessionManager} {bucket : (Time × SessionSet) × Nat}
    (done : resetBucket clock bucket sm = .ok after) (other : (Time × SessionSet) × Nat) :
    deadlineOf clock after other = deadlineOf clock sm other := by
  have timeout (q : SessionPtr) : (after.deref q).timeout = (sm.deref q).timeout := by
    rw [deref, (resetBucket_cases clock done).2.1 q, deref]
    cases sm.heap[q]? <;> split_ifs <;> rfl
  unfold deadlineOf
  split
  · rfl
  · rw [timeout]

theorem resetBucket_files {sm after : SessionManager} {bucket : (Time × SessionSet) × Nat}
    (done : resetBucket clock bucket sm = .ok after) (time : Time) (q : SessionPtr) :
    after.Files time q ↔
      if time = deadlineOf clock sm bucket then q ∈ bucket.1.2 else sm.Files time q := by
  rw [Files, (resetBucket_cases clock done).1, ExtTreeMap.getElem?_insert]
  by_cases here : time = deadlineOf clock sm bucket
  · simp [here]
  · simp [here, Ne.symm here, Files]

theorem resetBuckets_unfiled {sm after : SessionManager} {q : SessionPtr}
    (buckets : List ((Time × SessionSet) × Nat))
    (done : Runs.run (resetBucket clock) sm buckets = .ok after)
    (outside : ∀ bucket ∈ buckets, q ∉ bucket.1.2) (unfiled : ∀ time, ¬ sm.Files time q)
    (time : Time) : ¬ after.Files time q := by
  induction buckets generalizing sm with
  | nil =>
      cases done
      exact unfiled time
  | cons bucket rest ih =>
      obtain ⟨next, one, later⟩ := (Runs.run_cons_ok _ _ _ _ _).mp done
      refine ih later (fun other member => outside other (List.mem_cons_of_mem _ member)) ?_
      intro other files
      rw [resetBucket_files clock one] at files
      split_ifs at files
      · exact outside bucket (by simp) files
      · exact unfiled other files

theorem resetBucket_filed {sm after : SessionManager} {bucket : (Time × SessionSet) × Nat}
    {rest : List ((Time × SessionSet) × Nat)}
    (waiting : Waiting sm (bucket :: rest)) (done : resetBucket clock bucket sm = .ok after)
    (free : sm.timers[deadlineOf clock sm bucket]? = none) (p : SessionPtr) :
    after.Filed p ↔ sm.Filed p ∨ p ∈ bucket.1.2 := by
  rw [Filed, resetBucket_files clock done, deref, (resetBucket_cases clock done).2.1 p]
  by_cases inside : p ∈ bucket.1.2
  · obtain ⟨session, stored, -⟩ := waiting.live bucket (by simp) p inside
    simp [inside, stored, Session.setExpireTime]
  · simp only [inside, if_false, or_false]
    change (if (sm.deref p).expire = deadlineOf clock sm bucket then _ else _) ↔ sm.Filed p
    split_ifs with here
    · simp [Filed, Files, here, free]
    · rfl

theorem resetBuckets_filed (buckets : List ((Time × SessionSet) × Nat)) {sm after : SessionManager}
    (wf : sm.WellFormed) (waiting : Waiting sm buckets)
    (done : Runs.run (resetBucket clock) sm buckets = .ok after) :
    (∀ p, (sm.Filed p ∨ ∃ bucket ∈ buckets, p ∈ bucket.1.2) → after.Filed p) ↔
      (buckets.map (deadlineOf clock sm)).Nodup ∧
        ∀ bucket ∈ buckets, sm.timers[deadlineOf clock sm bucket]? = none := by
  induction buckets generalizing sm with
  | nil =>
      cases done
      simp
  | cons bucket rest ih =>
      obtain ⟨next, one, later⟩ := (Runs.run_cons_ok _ _ _ _ _).mp done
      have rest_iff := ih (resetBucket_keeps clock wf waiting one).wellFormed
        (resetBucket_waits clock waiting one) later
      have sameTimes : deadlineOf clock next = deadlineOf clock sm :=
        funext (resetBucket_deadlineOf clock one)
      have timers (other : (Time × SessionSet) × Nat) :
          next.timers[deadlineOf clock sm other]? = none ↔
            deadlineOf clock sm other ≠ deadlineOf clock sm bucket ∧
              sm.timers[deadlineOf clock sm other]? = none := by
        rw [(resetBucket_cases clock one).1, ExtTreeMap.getElem?_insert]
        by_cases here : deadlineOf clock sm other = deadlineOf clock sm bucket
        · simp [here]
        · simp [here, Ne.symm here]
      simp only [sameTimes, timers] at rest_iff
      cases free : sm.timers[deadlineOf clock sm bucket]? with
      | none =>
          have filed := resetBucket_filed clock waiting one free
          simp only [filed] at rest_iff
          simp only [List.mem_cons, exists_eq_or_imp, List.map_cons, List.nodup_cons,
            forall_eq_or_imp, free, true_and, List.mem_map, not_exists, not_and, ← or_assoc]
          rw [rest_iff]
          grind
      | some set =>
          -- The bucket that was there already loses its sessions, and for good.
          refine iff_of_false (fun all => ?_) fun both => ?_
          · obtain ⟨p, member⟩ : ∃ p, p ∈ set := by
              obtain ⟨p, listed⟩ := List.exists_mem_of_ne_nil set.toList fun empty =>
                wf.nonempty _ set free (ExtTreeSet.toList_eq_nil_iff.mp empty)
              exact ⟨p, ExtTreeSet.mem_toList.mp listed⟩
            have files : sm.Files (deadlineOf clock sm bucket) p :=
              (files_iff _ _ _).mpr ⟨set, free, member⟩
            obtain ⟨-, -, expire⟩ := files.live wf
            have outside (other : (Time × SessionSet) × Nat) (listed : other ∈ bucket :: rest) :
                p ∉ other.1.2 := fun inside => waiting.moved other listed p inside _ set free member
            have lost (time : Time) : ¬ next.Files time p := by
              rw [resetBucket_files clock one]
              split_ifs with here
              · exact outside bucket (by simp)
              · intro there
                obtain ⟨-, -, again⟩ := there.live wf
                exact here (again.symm.trans expire)
            refine resetBuckets_unfiled clock rest later
              (fun other listed => outside other (List.mem_cons_of_mem _ listed)) lost _
              (all p (.inl ?_))
            rw [Filed, expire]
            exact files
          · have absent := both.2 bucket (by simp)
            rw [free] at absent
            cases absent

theorem resetTimer_queued {sm after : SessionManager} (wf : sm.WellFormed) (queued : sm.Queued)
    (done : sm.resetTimer clock = .ok after) :
    after.Queued ↔ (resetDeadlines clock sm).Nodup := by
  have keeps := resetTimer_keeps wf done
  have moved := resetBuckets_filed clock sm.timers.toList.zipIdx (emptied_wellFormed sm wf)
    (waiting_timers sm wf) done
  have nowhere (p : SessionPtr) : ¬ SessionManager.Filed { sm with timers := ∅ } p := by
    simp [Filed, Files]
  have bucketed (p : SessionPtr) :
      (∃ bucket ∈ sm.timers.toList.zipIdx, p ∈ bucket.1.2) ↔ ∃ sid, sm.get sid = some p := by
    constructor
    · rintro ⟨bucket, listed, member⟩
      obtain ⟨session, -, live⟩ := (waiting_timers sm wf).live bucket listed p member
      exact ⟨session.sid, live⟩
    · rintro ⟨sid, live⟩
      obtain ⟨set, bucket, member⟩ := (files_iff _ _ _).mp ((queued sid p live _).mpr rfl)
      obtain ⟨place, listed⟩ := zipped_of_bucket bucket
      exact ⟨_, listed, member⟩
  have times : deadlineOf clock { sm with timers := ∅ } = deadlineOf clock sm := rfl
  simp only [nowhere, false_or, bucketed, times, ExtTreeMap.getElem?_empty, implies_true,
    and_true] at moved
  rw [resetDeadlines, ← moved, queued_iff keeps.wellFormed]
  simp only [get, keeps.sessions]
  constructor
  · rintro filed p ⟨sid, live⟩
    exact filed sid p live
  · exact fun filed sid p live => filed p ⟨sid, live⟩

end Reset

theorem step_wellFormed {sm : SessionManager} (wf : sm.WellFormed) (now : Time) :
    (sm.step now).WellFormed := by
  unfold step
  generalize sm.due now = ps
  induction ps generalizing sm with
  | nil => exact wf
  | cons p rest ih =>
      refine ih ?_
      dsimp only
      split_ifs
      · exact modify_wellFormed sm wf p _ (fun _ => rfl) fun _ => rfl
      · exact wf

theorem exec_wellFormed {options : Options} (call : Env × Op) {sm after : SessionManager}
    (wf : sm.WellFormed) (done : sm.exec options call = .ok after) : after.WellFormed := by
  obtain ⟨env, op⟩ := call
  cases op with
  | add sid timeout =>
      exact add_wellFormed wf (env.alloc_fresh sm) done
  | touch sid =>
      exact (touch_keeps wf done).wellFormed
  | close sid | setTimeout sid timeout =>
      cases done
      unfold onSession
      split
      · exact wf
      · exact modify_wellFormed sm wf _ _ (fun _ => rfl) fun _ => rfl
  | remove sid =>
      exact remove_wellFormed wf done
  | step =>
      cases done
      exact step_wellFormed wf _
  | resetTimer =>
      exact (resetTimer_keeps wf done).wellFormed

def Apart (call : Env × Op) (sm : SessionManager) : Prop :=
  -- `ResetTimer` gives no two buckets the same time.
  call.2 = .resetTimer → (resetDeadlines call.1.clock sm).Nodup

instance (call : Env × Op) (sm : SessionManager) : Decidable (Apart call sm) :=
  inferInstanceAs (Decidable (_ → _))

theorem exec_queued {options : Options} (call : Env × Op) {sm after : SessionManager}
    (wf : sm.WellFormed) (done : sm.exec options call = .ok after) (queued : sm.Queued) :
    after.Queued ↔ Apart call sm := by
  have wellFormed := exec_wellFormed call wf done
  obtain ⟨env, op⟩ := call
  have other (still : after.Queued) (different : op ≠ .resetTimer) :
      after.Queued ↔ Apart (env, op) sm :=
    iff_of_true still fun same => absurd same different
  have filed := (queued_iff wf).mp queued
  cases op with
  | add sid timeout =>
      exact other ((queued_iff wellFormed).mpr fun sid q there =>
        add_filed wf (env.alloc_fresh sm) rfl done there (filed sid q)) (by simp)
  | touch sid =>
      obtain ⟨p, live, -⟩ := touch_cases done
      refine other ((queued_iff wellFormed).mpr fun sid q there => ?_) (by simp)
      rw [get, (touch_keeps wf done).sessions] at there
      exact touch_filed wf live done (.inl (filed sid q there))
  | close sid =>
      cases done
      exact other (onSession_queued queued sid _ fun _ => rfl) (by simp)
  | setTimeout sid timeout =>
      cases done
      exact other (onSession_queued queued sid _ fun _ => rfl) (by simp)
  | remove sid =>
      refine other ((queued_iff wellFormed).mpr fun other q there => ?_) (by simp)
      have before := there
      rw [(remove_frame done).2.2] at before
      split_ifs at before
      exact remove_filed wf (filed other q before) done there
  | step =>
      cases done
      exact other (step_queued queued _) (by simp)
  | resetTimer =>
      rw [resetTimer_queued env.clock wf queued done]
      simp [Apart]

theorem sessions_queued (options : Options) (start : Time) (calls : List (Env × Op)) :
    Runs.Throughout (exec options) Queued (new start) calls ↔
      Runs.Meets (exec options) Apart (new start) calls :=
  Runs.throughout_iff_meets (exec options) Apart WellFormed Queued
    (fun call sm failure wf failed same => by
      obtain ⟨env, op⟩ := call
      obtain ⟨after, done, -⟩ := resetTimer_spec env.clock sm wf
      have failed : sm.exec options (env, .resetTimer) = .error failure := by
        rw [← same]; exact failed
      cases failed.symm.trans done)
    (fun call sm after wf done => exec_wellFormed call wf done)
    (fun call sm after wf done queued => exec_queued call wf done queued)
    (new start) calls (wellFormed_new start) (by simp [Queued, new, get])

-- Two sessions with one timeout, touched at different times. A clock that reads the same twice
-- in `ResetTimer` leaves the first of them in no bucket.
theorem sessions_queued_lost : ∃ last,
    Runs.run (exec Options.standard) (new 0)
        [(.still 0, .add 1 5000), (.still 2000000, .add 2 5000), (.still 3000000, .resetTimer)] =
      .ok last ∧
    last.get 1 = some 1 ∧ (last.deref 1).expire = 8000000 ∧ last.getSessions 8000000 = [2] ∧
      ¬ last.Queued := by
  have found : Runs.passes (Runs.run (exec Options.standard) (new 0)
      [(.still 0, .add 1 5000), (.still 2000000, .add 2 5000), (.still 3000000, .resetTimer)])
      (fun last => decide (last.get 1 = some 1 ∧ (last.deref 1).expire = 8000000 ∧
        last.getSessions 8000000 = [2])) = true := by decide +kernel
  simp only [Runs.passes_iff, decide_eq_true_eq] at found
  obtain ⟨last, reached, live, expire, only⟩ := found
  refine ⟨last, reached, live, expire, only, fun queued => ?_⟩
  have files := (queued 1 1 live 8000000).mpr expire.symm
  rw [Files, ← ExtTreeSet.mem_toList, show (last.timers[(8000000 : Time)]?.getD ∅).toList = [2]
    from only] at files
  simp at files

end SessionManager

end Pyxis
