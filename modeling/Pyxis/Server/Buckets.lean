import Pyxis.Server.Timers

set_option autoImplicit false

open Std (ExtTreeMap ExtTreeSet)

namespace Pyxis

namespace SessionManager

variable {options : Options} {clock : Nat → Time} {now : Time} {sm after : SessionManager}
  {sid : Sid} {p : SessionPtr}

theorem calls_wellFormed {start : Time} {calls : List (Env × Op)}
    (reached : Runs.run (exec options) (new start) calls = .ok sm) : sm.WellFormed :=
  Runs.run_invariant_always (exec options) WellFormed
    (fun call _ _ wf done => exec_wellFormed call wf done) (new start) sm calls
    (wellFormed_new start) reached

def touchEach (options : Options) (now : Time) (sm : SessionManager) :
    Except Fault SessionManager :=
  Runs.run (fun sid sm => sm.touch options now sid) sm sm.sessions.keys

theorem touch_expire (wf : sm.WellFormed) (done : sm.touch options now sid = .ok after)
    (q : SessionPtr) :
    (after.deref q).expire =
      if sm.get sid = some q ∧ (sm.deref q).active = true then
        deadline options now (sm.deref q).timeout
      else (sm.deref q).expire := by
  obtain ⟨p, live, ⟨closed, rfl⟩ | ⟨active, timers, rfl⟩⟩ := touch_cases done
  · rw [if_neg]
    rintro ⟨there, active⟩
    cases live.symm.trans there
    simp [closed] at active
  · change ((sm.modify p _).deref q).expire = _
    rw [deref_modify sm p q _ (get_deref sm wf sid p live).1]
    by_cases same : p = q
    · subst same
      simp [live, active, Session.setExpireTime]
    · have other : ¬ (sm.get sid = some q ∧ (sm.deref q).active = true) := by
        rintro ⟨there, -⟩
        exact same (Option.some.inj (live.symm.trans there))
      rw [if_neg same, if_neg other]

theorem touch_field {β : Type} (g : Session → β)
    (same : ∀ expire s, g (Session.setExpireTime expire s) = g s)
    (done : sm.touch options now sid = .ok after) (q : SessionPtr) :
    g (after.deref q) = g (sm.deref q) := by
  obtain ⟨p, -, ⟨-, rfl⟩ | ⟨-, timers, rfl⟩⟩ := touch_cases done
  · rfl
  · exact modify_field g sm p _ (same _) q

theorem touches_spec (options : Options) (now : Time) (wf : sm.WellFormed) (sids : List Sid)
    (live : ∀ sid ∈ sids, sm.get sid ≠ none) :
    ∃ after, Runs.run (fun sid sm => sm.touch options now sid) sm sids = .ok after ∧
      after.sessions = sm.sessions ∧
      ∀ q, (after.deref q).expire =
        if (∃ sid ∈ sids, sm.get sid = some q) ∧ (sm.deref q).active = true then
          deadline options now (sm.deref q).timeout
        else (sm.deref q).expire := by
  induction sids generalizing sm with
  | nil => exact ⟨sm, rfl, rfl, by simp⟩
  | cons sid rest ih =>
      obtain ⟨p, there⟩ := Option.ne_none_iff_exists'.mp (live sid (by simp))
      obtain ⟨next, done, keeps⟩ := touch_spec options now sm wf sid p there
      have get (other : Sid) : next.get other = sm.get other := by
        rw [SessionManager.get, keeps.sessions, SessionManager.get]
      obtain ⟨last, reached, sessions, expire⟩ := ih keeps.wellFormed fun other member => by
        rw [get]
        exact live other (List.mem_cons_of_mem _ member)
      refine ⟨last, (Runs.run_cons_ok _ _ _ _ _).mpr ⟨next, done, reached⟩,
        sessions.trans keeps.sessions, fun q => ?_⟩
      have active := touch_field Session.active (fun _ _ => rfl) done q
      have timeout := touch_field Session.timeout (fun _ _ => rfl) done q
      rw [expire, active, timeout, touch_expire wf done]
      simp only [get, List.exists_mem_cons_iff]
      by_cases here : sm.get sid = some q <;> by_cases later : ∃ x ∈ rest, sm.get x = some q <;>
        cases (sm.deref q).active <;> simp [here, later]

theorem touchEach_spec (options : Options) (now : Time) (wf : sm.WellFormed) :
    ∃ after, touchEach options now sm = .ok after ∧
      ∀ sid p, sm.get sid = some p → (sm.deref p).active = true →
        (after.deref p).expire = deadline options now (sm.deref p).timeout := by
  obtain ⟨after, done, -, expire⟩ := touches_spec options now wf sm.sessions.keys
    fun sid member => by
      rw [ExtTreeMap.mem_keys] at member
      simp [get, member]
  refine ⟨after, done, fun sid p live active => ?_⟩
  have listed : sid ∈ sm.sessions.keys := by
    rw [ExtTreeMap.mem_keys, ← ExtTreeMap.isSome_getElem?_iff_mem]
    exact Option.isSome_of_mem live
  rw [expire, if_pos ⟨⟨sid, listed, live⟩, active⟩]

section Reset

variable (clock)

theorem resetBucket_expire {bucket : (Time × SessionSet) × Nat}
    {rest : List ((Time × SessionSet) × Nat)} (waiting : Waiting sm (bucket :: rest))
    (done : resetBucket clock bucket sm = .ok after) (q : SessionPtr) :
    (after.deref q).expire =
      if q ∈ bucket.1.2 then deadlineOf clock sm bucket else (sm.deref q).expire := by
  rw [deref, (resetBucket_cases clock done).2.1 q]
  split_ifs with inside
  · obtain ⟨session, stored, -⟩ := waiting.live bucket (by simp) q inside
    simp [stored, Session.setExpireTime]
  · rfl

theorem resetBuckets_expire (buckets : List ((Time × SessionSet) × Nat)) (wf : sm.WellFormed)
    (waiting : Waiting sm buckets) (done : Runs.run (resetBucket clock) sm buckets = .ok after)
    (q : SessionPtr) :
    (∀ bucket ∈ buckets, q ∈ bucket.1.2 → (after.deref q).expire = deadlineOf clock sm bucket) ∧
      ((∀ bucket ∈ buckets, q ∉ bucket.1.2) → (after.deref q).expire = (sm.deref q).expire) := by
  induction buckets generalizing sm with
  | nil =>
      cases done
      simp
  | cons bucket rest ih =>
      obtain ⟨next, one, later⟩ := (Runs.run_cons_ok _ _ _ _ _).mp done
      obtain ⟨inside, outside⟩ := ih (resetBucket_keeps clock wf waiting one).wellFormed
        (resetBucket_waits clock waiting one) later
      have expire := resetBucket_expire clock waiting one q
      have apart := (List.pairwise_cons.mp waiting.apart).1
      constructor
      · intro other member there
        rcases List.mem_cons.mp member with rfl | listed
        · rw [outside fun second listed => apart second listed q there, expire, if_pos there]
        · rw [inside other listed there, resetBucket_deadlineOf clock one]
      · intro absent
        rw [outside fun second listed => absent second (List.mem_cons_of_mem _ listed), expire,
          if_neg (absent bucket (by simp))]

end Reset

def leader? (sm : SessionManager) (p : SessionPtr) : Option SessionPtr :=
  if p ∈ sm.timers[(sm.deref p).expire]?.getD ∅ then (sm.getSessions (sm.deref p).expire).head?
  else none

theorem resetTimer_expire (wf : sm.WellFormed) (done : sm.resetTimer (fun _ => now) = .ok after)
    (p : SessionPtr) :
    (after.deref p).expire =
      match sm.leader? p with
      | some first => addTime now (sm.deref first).timeout
      | none => (sm.deref p).expire := by
  obtain ⟨inside, outside⟩ := resetBuckets_expire (fun _ => now) sm.timers.toList.zipIdx
    (emptied_wellFormed sm wf) (waiting_timers sm wf) done p
  have elsewhere (absent : ¬ sm.Filed p) :
      ∀ bucket ∈ sm.timers.toList.zipIdx, p ∉ bucket.1.2 := by
    intro bucket listed member
    have files : sm.Files bucket.1.1 p := (files_iff _ _ _).mpr ⟨_, zipped_bucket listed, member⟩
    obtain ⟨-, -, expire⟩ := files.live wf
    rw [Filed, expire] at absent
    exact absent files
  unfold leader?
  split_ifs with filed
  · obtain ⟨set, bucket, member⟩ := (files_iff _ _ _).mp filed
    obtain ⟨place, listed⟩ := zipped_of_bucket bucket
    rw [inside _ listed member, deadlineOf, getSessions, bucket, Option.getD_some]
    cases order : set.toList with
    | nil => exact absurd (ExtTreeSet.toList_eq_nil_iff.mp order) (wf.nonempty _ set bucket)
    | cons first rest => rfl
  · exact outside (elsewhere filed)

/-- Every session has the deadline that its own timeout gives it, the one that touching it gives. -/
def Renewed (options : Options) (now : Time) (sm after touched : SessionManager) : Prop :=
  ∀ sid p, sm.get sid = some p →
    roundTo (after.deref p).expire options.sessionCheckInterval =
        deadline options now (sm.deref p).timeout ∧
      ((sm.deref p).active = true →
        roundTo (after.deref p).expire options.sessionCheckInterval = (touched.deref p).expire)

def Uniform (options : Options) (now : Time) (sm : SessionManager) : Prop :=
  ∀ sid p, sm.get sid = some p →
    match sm.leader? p with
    | some first =>
        deadline options now (sm.deref first).timeout = deadline options now (sm.deref p).timeout
    | none =>
        roundTo (sm.deref p).expire options.sessionCheckInterval =
          deadline options now (sm.deref p).timeout

theorem resetTimer_renewed (options : Options) (now : Time) (sm : SessionManager)
    (wf : sm.WellFormed) :
    ∃ after touched, sm.resetTimer (fun _ => now) = .ok after ∧
      sm.touchEach options now = .ok touched ∧
      (Renewed options now sm after touched ↔ sm.Uniform options now) := by
  obtain ⟨after, done, -⟩ := resetTimer_spec (fun _ => now) sm wf
  obtain ⟨touched, each, expires⟩ := touchEach_spec options now wf
  refine ⟨after, touched, done, each, forall₃_congr fun sid p live => ?_⟩
  rw [resetTimer_expire wf done, and_iff_left_of_imp]
  · cases sm.leader? p <;> rfl
  · intro own active
    rw [own, expires sid p live active]

theorem resetTimer_renewed_shared : ∃ sm after touched,
    Runs.run (exec Options.standard) (new 0)
        [(.still 5000000, .add 1 5000), (.still 0, .add 2 10000)] = .ok sm ∧
    sm.resetTimer (fun _ => 6000000) = .ok after ∧
    sm.touchEach Options.standard 6000000 = .ok touched ∧
    (Renewed Options.standard 6000000 sm after touched ↔ sm.Uniform Options.standard 6000000) := by
  have found : Runs.passes (Runs.run (exec Options.standard) (new 0)
      [(.still 5000000, .add 1 5000), (.still 0, .add 2 10000)]) (fun _ => true) = true := by
    decide +kernel
  obtain ⟨sm, reached, -⟩ := (Runs.passes_iff _ _).mp found
  obtain ⟨after, touched, spec⟩ := resetTimer_renewed Options.standard 6000000 sm
    (calls_wellFormed reached)
  exact ⟨sm, after, touched, reached, spec⟩

-- Two sessions that share the bucket of 10 s. The one with a timeout of 10 s gets the 5 s of
-- the other.
theorem resetTimer_renewed_short : ∃ sm after touched,
    Runs.run (exec Options.standard) (new 0)
        [(.still 5000000, .add 1 5000), (.still 0, .add 2 10000)] = .ok sm ∧
    sm.getSessions 10000000 = [1, 2] ∧
    sm.resetTimer (fun _ => 6000000) = .ok after ∧
    sm.touchEach Options.standard 6000000 = .ok touched ∧
    (after.deref 2).expire = 11000000 ∧ (touched.deref 2).expire = 16000000 ∧
    ¬ Renewed Options.standard 6000000 sm after touched := by
  have found : Runs.passes (Runs.run (exec Options.standard) (new 0)
      [(.still 5000000, .add 1 5000), (.still 0, .add 2 10000)]) (fun sm =>
        decide (sm.getSessions 10000000 = [1, 2] ∧ sm.get 2 = some 2 ∧
          (sm.deref 2).active = true) &&
        Runs.passes (sm.resetTimer fun _ => 6000000) fun after =>
          Runs.passes (sm.touchEach Options.standard 6000000) fun touched =>
            decide ((after.deref 2).expire = 11000000 ∧ (touched.deref 2).expire = 16000000)) =
      true := by decide +kernel
  simp only [Runs.passes_iff, Bool.and_eq_true, decide_eq_true_eq] at found
  obtain ⟨sm, reached, ⟨shared, live, active⟩, after, done, touched, each, short, long⟩ := found
  refine ⟨sm, after, touched, reached, shared, done, each, short, long, fun renewed => ?_⟩
  have same := (renewed 2 2 live).2 active
  rw [short, long] at same
  exact absurd same (by decide)

theorem unregister_destroys (wf : sm.WellFormed) (env : Env) (state : State) (req : Request)
    (m : Machine) (same : m.sm = sm) (live : sm.get req.sid = some p) :
    ∃ removed,
      Machine.removeSession req.sid { m with sm := m.sm.modify p Session.close } = .ok removed ∧
      Machine.onUnRegister options env state req m = (do
        let m ← Machine.destroySession options env state p removed
        return (Status.ok, m)) := by
  subst same
  obtain ⟨stored, sid⟩ := get_deref m.sm wf req.sid p live
  have closed : ((m.sm.modify p Session.close).deref p).active = false := by
    rw [deref_modify m.sm p p _ stored, if_pos rfl]
    rfl
  obtain ⟨left, done, sessions, -, wellFormed⟩ := remove_spec (m.sm.modify p Session.close)
    (modify_wellFormed m.sm wf p _ (fun _ => rfl) fun _ => rfl) req.sid p live closed
  have removed :
      Machine.removeSession req.sid { m with sm := m.sm.modify p Session.close } =
        .ok { m with db := Store.removeSession m.db req.sid, sm := left } := by
    simp only [Machine.removeSession, done]
    rfl
  refine ⟨_, removed, ?_⟩
  have last : left.referenced p = false := by
    rw [Bool.eq_false_iff, Ne, referenced_iff left wellFormed]
    rintro ⟨other, there⟩
    rw [(remove_frame done).2.2] at there
    split_ifs at there with different
    exact different (sessions_inj m.sm wf other req.sid p there live)
  have released :
      Machine.release options env state p
          { m with db := Store.removeSession m.db req.sid, sm := left } =
        Machine.destroySession options env state p
          { m with db := Store.removeSession m.db req.sid, sm := left } :=
    if_neg (by simp [last])
  simp only [Machine.onUnRegister, live, sid, removed]
  change (do let m ← Machine.release options env state p _; return (Status.ok, m)) = _
  rw [released]

theorem remove_unqueued (wf : sm.WellFormed) (live : sm.get sid = some p)
    (done : sm.remove sid = .ok after) (time : Time) : ¬ after.Files time p := by
  intro files
  obtain ⟨other, left, -⟩ := files.live (remove_wellFormed wf done)
  rw [(remove_frame done).2.2] at left
  split_ifs at left with different
  exact different (sessions_inj sm wf other sid p left live)

theorem buckets_live (options : Options) (start : Time) (calls : List (Env × Op))
    {last : SessionManager} (reached : Runs.run (exec options) (new start) calls = .ok last) :
    (∀ time set, last.timers[time]? = some set →
      set ≠ ∅ ∧ ∀ p ∈ set, (last.deref p).expire = time ∧ last.get (last.deref p).sid = some p) ∧
    (∀ clock, ∃ after, last.resetTimer clock = .ok after) ∧
    (∀ sid p after, last.get sid = some p → last.remove sid = .ok after →
      ∀ time, ¬ after.Files time p) ∧
    ∀ (env : Env) (state : State) (req : Request) (m : Machine) (p : SessionPtr),
      m.sm = last → last.get req.sid = some p →
      ∃ removed,
        Machine.removeSession req.sid { m with sm := m.sm.modify p Session.close } = .ok removed ∧
        Machine.onUnRegister options env state req m = (do
          let m ← Machine.destroySession options env state p removed
          return (Status.ok, m)) := by
  have wf := calls_wellFormed reached
  refine ⟨fun time set bucket => ⟨wf.nonempty time set bucket, fun p member => ?_⟩,
    fun clock => ?_, fun sid p after live done => remove_unqueued wf live done,
    fun env state req m p same live => unregister_destroys wf env state req m same live⟩
  · obtain ⟨session, stored, expire, live⟩ := wf.queued time set p bucket member
    rw [deref, stored]
    exact ⟨expire, live⟩
  · obtain ⟨after, done, -⟩ := resetTimer_spec clock last wf
    exact ⟨after, done⟩

theorem buckets_live_shared : ∃ last,
    Runs.run (exec Options.standard) (new 0)
        [(.still 0, .add 1 5000), (.still 2000000, .add 2 5000), (.still 3000000, .resetTimer),
          (.still 4000000, .close 1), (.still 4000000, .remove 1)] = .ok last ∧
      ∀ clock, ∃ after, last.resetTimer clock = .ok after := by
  have found : Runs.passes (Runs.run (exec Options.standard) (new 0)
      [(.still 0, .add 1 5000), (.still 2000000, .add 2 5000), (.still 3000000, .resetTimer),
        (.still 4000000, .close 1), (.still 4000000, .remove 1)]) (fun _ => true) = true := by
    decide +kernel
  obtain ⟨last, reached, -⟩ := (Runs.passes_iff _ _).mp found
  exact ⟨last, reached, (buckets_live Options.standard 0 _ reached).2.1⟩

end SessionManager

end Pyxis
