import Pyxis.Server.Session

set_option autoImplicit false

open Std (ExtTreeMap ExtTreeSet)

namespace Pyxis.SessionManager

structure WellFormed (sm : SessionManager) : Prop where
  stored : ∀ (sid : Sid) (p : SessionPtr), sm.sessions[sid]? = some p →
    ∃ session, sm.heap[p]? = some session ∧ session.sid = sid
  nonempty : ∀ (time : Time) (set : SessionSet), sm.timers[time]? = some set → set ≠ ∅
  queued : ∀ (time : Time) (set : SessionSet) (p : SessionPtr),
    sm.timers[time]? = some set → p ∈ set →
    ∃ session, sm.heap[p]? = some session ∧ session.expire = time ∧
      sm.sessions[session.sid]? = some p

structure Keeps (before after : SessionManager) : Prop where
  sessions : after.sessions = before.sessions
  standing : ∀ p : SessionPtr,
    after.heap[p]?.map Session.standing = before.heap[p]?.map Session.standing
  wellFormed : after.WellFormed

theorem wellFormed_new (now : Time) : (new now).WellFormed := by
  constructor <;> simp [new]

theorem Keeps.refl {sm : SessionManager} (wf : sm.WellFormed) : Keeps sm sm :=
  ⟨rfl, fun _ => rfl, wf⟩

theorem Keeps.trans {first second third : SessionManager} (one : Keeps first second)
    (two : Keeps second third) : Keeps first third :=
  ⟨two.sessions.trans one.sessions, fun p => (two.standing p).trans (one.standing p),
    two.wellFormed⟩

theorem standing_stored {before after : SessionManager} (p : SessionPtr) (session : Session)
    (same : after.heap[p]?.map Session.standing = before.heap[p]?.map Session.standing)
    (stored : before.heap[p]? = some session) :
    ∃ other, after.heap[p]? = some other ∧ other.standing = session.standing := by
  rw [stored] at same
  exact Option.map_eq_some_iff.mp same

theorem deref_of_standing {before after : SessionManager} (p : SessionPtr)
    (same : after.heap[p]?.map Session.standing = before.heap[p]?.map Session.standing) :
    (after.deref p).standing = (before.deref p).standing := by
  unfold SessionManager.deref
  cases old : before.heap[p]? <;> cases new : after.heap[p]? <;> simp [old, new] at same ⊢
  exact same

theorem Keeps.deref {before after : SessionManager} (keeps : Keeps before after) (p : SessionPtr) :
    (after.deref p).standing = (before.deref p).standing :=
  deref_of_standing p (keeps.standing p)

theorem heap_modify (sm : SessionManager) (p q : SessionPtr) (f : Session → Session) :
    (sm.modify p f).heap[q]? = if p = q then sm.heap[q]?.map f else sm.heap[q]? := by
  by_cases same : p = q
  · subst same
    simp [modify]
  · simp [modify, ExtTreeMap.getElem?_modify, same]

theorem modify_field {β : Type} (g : Session → β) (sm : SessionManager) (p : SessionPtr)
    (f : Session → Session) (same : ∀ s, g (f s) = g s) (q : SessionPtr) :
    g ((sm.modify p f).deref q) = g (sm.deref q) := by
  simp only [deref, heap_modify]
  cases sm.heap[q]? <;> split_ifs <;> simp [same]

theorem foldl_modify_field {α β : Type} (g : Session → β) (sm : SessionManager)
    (place : α → SessionPtr) (f : Session → Session) (same : ∀ s, g (f s) = g s) (xs : List α)
    (q : SessionPtr) :
    g ((xs.foldl (fun sm x => sm.modify (place x) f) sm).deref q) = g (sm.deref q) := by
  induction xs generalizing sm with
  | nil => rfl
  | cons x rest ih => exact (ih _).trans (modify_field g sm (place x) f same q)

theorem foldl_modify_sid {α : Type} (sm : SessionManager) (place : α → SessionPtr)
    (f : Session → Session) (xs : List α) :
    (xs.foldl (fun sm x => sm.modify (place x) f) sm).sid = sm.sid := by
  induction xs generalizing sm with
  | nil => rfl
  | cons x rest ih => exact ih (sm.modify (place x) f)

theorem deref_modify (sm : SessionManager) (p q : SessionPtr) (f : Session → Session)
    {session : Session} (stored : sm.heap[p]? = some session) :
    (sm.modify p f).deref q = if p = q then f (sm.deref q) else sm.deref q := by
  simp only [deref, heap_modify]
  split_ifs with same
  · subst same
    simp [stored]
  · rfl

theorem modify_wellFormed (sm : SessionManager) (wf : sm.WellFormed) (p : SessionPtr)
    (f : Session → Session) (sid : ∀ s, (f s).sid = s.sid)
    (expire : ∀ s, (f s).expire = s.expire) : (sm.modify p f).WellFormed := by
  have changed (q : SessionPtr) (session : Session) (stored : sm.heap[q]? = some session) :
      ∃ other, (sm.modify p f).heap[q]? = some other ∧ other.sid = session.sid ∧
        other.expire = session.expire := by
    rw [heap_modify, stored]
    split_ifs
    · exact ⟨f session, rfl, sid session, expire session⟩
    · exact ⟨session, rfl, rfl, rfl⟩
  refine ⟨?_, wf.nonempty, ?_⟩
  · intro sid q live
    obtain ⟨session, stored, rfl⟩ := wf.stored sid q live
    obtain ⟨other, present, same, -⟩ := changed q session stored
    exact ⟨other, present, same⟩
  · intro time set q bucket member
    obtain ⟨session, stored, rfl, live⟩ := wf.queued time set q bucket member
    obtain ⟨other, present, same, at'⟩ := changed q session stored
    exact ⟨other, present, at', by rw [same]; exact live⟩

theorem modify_keeps (sm : SessionManager) (wf : sm.WellFormed) (p : SessionPtr)
    (f : Session → Session) (standing : ∀ s, (f s).standing = s.standing)
    (expire : ∀ s, (f s).expire = s.expire) : Keeps sm (sm.modify p f) := by
  refine ⟨rfl, fun q => ?_,
    modify_wellFormed sm wf p f (fun s => congrArg Prod.fst (standing s)) expire⟩
  rw [heap_modify]
  split_ifs
  · cases sm.heap[q]? <;> simp [standing]
  · rfl

theorem get_deref (sm : SessionManager) (wf : sm.WellFormed) (sid : Sid) (p : SessionPtr)
    (live : sm.get sid = some p) : sm.heap[p]? = some (sm.deref p) ∧ (sm.deref p).sid = sid := by
  obtain ⟨session, stored, same⟩ := wf.stored sid p live
  simp [deref, stored, same]

theorem expire_of_queued (sm : SessionManager) (wf : sm.WellFormed) (time : Time) (set : SessionSet)
    (p : SessionPtr) (bucket : sm.timers[time]? = some set) (member : p ∈ set) :
    (sm.deref p).expire = time := by
  obtain ⟨session, stored, expire, -⟩ := wf.queued time set p bucket member
  simpa [deref, stored] using expire

theorem removeFromTimers_spec (sm : SessionManager) (wf : sm.WellFormed) (sid : Sid)
    (p : SessionPtr) (live : sm.get sid = some p) :
    ∃ after, sm.removeFromTimers sid = .ok after ∧ after.sessions = sm.sessions ∧
      after.heap = sm.heap ∧ after.WellFormed ∧
      ∀ (time : Time) (set : SessionSet), after.timers[time]? = some set → p ∉ set := by
  simp only [removeFromTimers, live]
  cases bucket : sm.timers[(sm.deref p).expire]? with
  | none =>
      refine ⟨sm, rfl, rfl, rfl, wf, fun time set here member => ?_⟩
      rw [expire_of_queued sm wf time set p here member, here] at bucket
      cases bucket
  | some set =>
      have timers (time : Time) (left : SessionSet)
          (here : (if (set.erase p).isEmpty then sm.timers.erase (sm.deref p).expire
            else sm.timers.insert (sm.deref p).expire (set.erase p))[time]? = some left) :
          (time = (sm.deref p).expire ∧ left = set.erase p ∧ left ≠ ∅) ∨
            (time ≠ (sm.deref p).expire ∧ sm.timers[time]? = some left) := by
        by_cases same : time = (sm.deref p).expire
        · subst same
          split_ifs at here with empty
          · simp at here
          · rw [ExtTreeMap.getElem?_insert_self, Option.some.injEq] at here
            exact .inl ⟨rfl, here.symm, by rw [← here]; simpa [ExtTreeSet.isEmpty_iff] using empty⟩
        · refine .inr ⟨same, ?_⟩
          split_ifs at here <;>
            simpa [ExtTreeMap.getElem?_erase, ExtTreeMap.getElem?_insert, Ne.symm same] using here
      refine ⟨_, rfl, rfl, rfl, ⟨wf.stored, ?_, ?_⟩, ?_⟩
      · intro time left here
        rcases timers time left here with ⟨-, -, nonempty⟩ | ⟨-, old⟩
        · exact nonempty
        · exact wf.nonempty time left old
      · intro time left q here member
        rcases timers time left here with ⟨rfl, rfl, -⟩ | ⟨-, old⟩
        · exact wf.queued _ set q bucket (ExtTreeSet.mem_erase.mp member).2
        · exact wf.queued time left q old member
      · intro time left here member
        rcases timers time left here with ⟨-, rfl, -⟩ | ⟨other, old⟩
        · simp at member
        · exact other (expire_of_queued sm wf time left p old member).symm

theorem removeFromTimers_cases {sm after : SessionManager} {sid : Sid}
    (done : sm.removeFromTimers sid = .ok after) :
    ∃ timers, after = { sm with timers := timers } := by
  unfold removeFromTimers at done
  split at done
  · cases done
  · dsimp only at done
    split at done <;> cases done
    · exact ⟨sm.timers, rfl⟩
    · exact ⟨_, rfl⟩

def deadline (options : Options) (now : Time) (timeout : Int) : Time :=
  roundTo (addTime now timeout) options.sessionCheckInterval

theorem touch_cases {options : Options} {now : Time} {sm after : SessionManager} {sid : Sid}
    (done : sm.touch options now sid = .ok after) :
    ∃ p, sm.get sid = some p ∧
      (((sm.deref p).active = false ∧ after = sm) ∨
        (sm.deref p).active = true ∧ ∃ timers, after =
          { sm.modify p (Session.setExpireTime (deadline options now (sm.deref p).timeout)) with
            timers := timers }) := by
  unfold touch at done
  split at done
  · cases done
  next p live =>
    refine ⟨p, live, ?_⟩
    split_ifs at done with closed
    · exact .inl ⟨closed, (Except.ok.inj done).symm⟩
    · split at done
      · cases done
      next left removed =>
        obtain ⟨timers, rfl⟩ := removeFromTimers_cases removed
        cases done
        exact .inr ⟨by simpa using closed, _, rfl⟩

theorem touch_sid {options : Options} {now : Time} {sm after : SessionManager} {sid : Sid}
    (done : sm.touch options now sid = .ok after) : after.sid = sm.sid := by
  obtain ⟨p, -, ⟨-, rfl⟩ | ⟨-, timers, rfl⟩⟩ := touch_cases done <;> rfl

theorem add_sid {options : Options} {now : Time} {sm after : SessionManager} {p : SessionPtr}
    {session : Session} (done : sm.add options now p session = .ok after) :
    sm.sid ≤ after.sid ∧ session.sid ≤ after.sid := by
  rw [touch_sid done]
  dsimp only
  split_ifs with lower
  · exact ⟨UInt64.le_of_lt lower, UInt64.le_refl _⟩
  · exact ⟨UInt64.le_refl _, UInt64.not_lt.mp lower⟩

theorem remove_cases {sm after : SessionManager} {sid : Sid} (done : sm.remove sid = .ok after) :
    ∃ p timers, sm.get sid = some p ∧ (sm.deref p).active = false ∧
      after = { sm with timers := timers, sessions := sm.sessions.erase sid } := by
  unfold remove at done
  split at done
  · cases done
  next p live =>
    split_ifs at done with closed
    split at done
    · cases done
    next left removed =>
      obtain ⟨timers, rfl⟩ := removeFromTimers_cases removed
      cases done
      exact ⟨p, timers, live, by simpa using closed, rfl⟩

theorem remove_frame {sm after : SessionManager} {sid : Sid} (done : sm.remove sid = .ok after) :
    after.sid = sm.sid ∧ after.heap = sm.heap ∧
      ∀ other, after.get other = if other = sid then none else sm.get other := by
  obtain ⟨p, timers, -, -, rfl⟩ := remove_cases done
  refine ⟨rfl, rfl, fun other => ?_⟩
  simp only [get, ExtTreeMap.getElem?_erase, Std.compare_eq_iff_eq]
  simp only [eq_comm]

theorem requeue_keeps (sm : SessionManager) (wf : sm.WellFormed) (sid : Sid) (p : SessionPtr)
    (live : sm.get sid = some p)
    (gone : ∀ (time : Time) (set : SessionSet), sm.timers[time]? = some set → p ∉ set)
    (expire : Time) :
    Keeps sm
      { sm.modify p (Session.setExpireTime expire) with
        timers := sm.timers.insert expire ((sm.timers[expire]?.getD ∅).insert p) } := by
  obtain ⟨session, stored, rfl⟩ := wf.stored sid p live
  have heapAt (q : SessionPtr) : (sm.modify p (Session.setExpireTime expire)).heap[q]? =
      if p = q then some (session.setExpireTime expire) else sm.heap[q]? := by
    rw [heap_modify]
    split_ifs with same
    · rw [← same, stored]
      rfl
    · rfl
  refine ⟨rfl, fun q => ?_, ?_, ?_, ?_⟩
  · simp only [heapAt]
    split_ifs with same
    · rw [← same, stored]
      rfl
    · rfl
  · intro other q there
    simp only [heapAt]
    split_ifs with same
    · subst same
      obtain ⟨again, present, rfl⟩ := wf.stored other p there
      rw [stored] at present
      cases present
      exact ⟨_, rfl, rfl⟩
    · exact wf.stored other q there
  · intro time set here
    by_cases same : expire = time
    · subst same
      rw [ExtTreeMap.getElem?_insert_self, Option.some.injEq] at here
      rintro rfl
      have member : p ∈ (sm.timers[expire]?.getD ∅).insert p := ExtTreeSet.mem_insert_self
      simp [here] at member
    · simp only [ExtTreeMap.getElem?_insert, Std.compare_eq_iff_eq, same, if_false] at here
      exact wf.nonempty time set here
  · intro time set q here member
    -- A session that was queued before is not the one whose time changes.
    have queued (set : SessionSet) (old : sm.timers[time]? = some set) (member : q ∈ set) :
        ∃ other, (sm.modify p (Session.setExpireTime expire)).heap[q]? = some other ∧
          other.expire = time ∧ sm.sessions[other.sid]? = some q := by
      have other : p ≠ q := by
        rintro rfl
        exact gone time set old member
      rw [heapAt, if_neg other]
      exact wf.queued time set q old member
    by_cases same : expire = time
    · subst same
      rw [ExtTreeMap.getElem?_insert_self, Option.some.injEq] at here
      subst here
      rcases ExtTreeSet.mem_insert.mp member with equal | old
      · rw [Std.compare_eq_iff_eq] at equal
        subst equal
        exact ⟨session.setExpireTime expire, by simp [heapAt], rfl, live⟩
      · cases bucket : sm.timers[expire]? with
        | none => simp [bucket] at old
        | some set => exact queued set bucket (by simpa [bucket] using old)
    · simp only [ExtTreeMap.getElem?_insert, Std.compare_eq_iff_eq, same, if_false] at here
      exact queued set here member

theorem touch_spec (options : Options) (now : Time) (sm : SessionManager) (wf : sm.WellFormed)
    (sid : Sid) (p : SessionPtr) (live : sm.get sid = some p) :
    ∃ after, sm.touch options now sid = .ok after ∧ Keeps sm after := by
  simp only [touch, live]
  split_ifs
  · exact ⟨sm, rfl, .refl wf⟩
  obtain ⟨left, removed, sessions, heap, leftWf, gone⟩ := removeFromTimers_spec sm wf sid p live
  have taken : Keeps sm left := ⟨sessions, fun q => by rw [heap], leftWf⟩
  have stillLive : left.get sid = some p := by
    rw [get, sessions]
    exact live
  simp only [removed]
  exact ⟨_, rfl, taken.trans (requeue_keeps left leftWf sid p stillLive gone _)⟩

theorem touch_keeps {options : Options} {now : Time} {sm after : SessionManager}
    (wf : sm.WellFormed) {sid : Sid} (done : sm.touch options now sid = .ok after) :
    Keeps sm after := by
  obtain ⟨p, live, -⟩ := touch_cases done
  obtain ⟨_, same, keeps⟩ := touch_spec options now sm wf sid p live
  cases done.symm.trans same
  exact keeps

def inserted (sm : SessionManager) (p : SessionPtr) (session : Session) : SessionManager :=
  -- `Add` before it calls `Touch`.
  { sm with
    sid := if sm.sid < session.sid then session.sid else sm.sid
    heap := sm.heap.insert p session
    sessions := sm.sessions.insertIfNew session.sid p }

theorem inserted_heap (sm : SessionManager) (p : SessionPtr) (session : Session) (q : SessionPtr) :
    (sm.inserted p session).heap[q]? = if p = q then some session else sm.heap[q]? := by
  simp [inserted, ExtTreeMap.getElem?_insert]

theorem inserted_get (sm : SessionManager) (p : SessionPtr) (session : Session) (sid : Sid) :
    (sm.inserted p session).get sid =
      (sm.get sid).or (if sid = session.sid then some p else none) := by
  simp only [get, inserted, ExtTreeMap.getElem?_insertIfNew, Std.compare_eq_iff_eq,
    ← ExtTreeMap.isSome_getElem?_iff_mem]
  by_cases same : sid = session.sid
  · subst same
    cases sm.sessions[session.sid]? <;> simp
  · cases sm.sessions[sid]? <;> simp [Ne.symm same, same]

theorem inserted_deref (sm : SessionManager) (wf : sm.WellFormed) (p : SessionPtr)
    (fresh : sm.heap[p]? = none) (session : Session) {sid : Sid} {q : SessionPtr}
    (live : sm.get sid = some q) : (sm.inserted p session).deref q = sm.deref q := by
  obtain ⟨stored, -⟩ := get_deref sm wf sid q live
  rw [deref, inserted_heap, if_neg]
  · rfl
  · rintro rfl
    rw [fresh] at stored
    cases stored

theorem inserted_wellFormed (sm : SessionManager) (wf : sm.WellFormed) (p : SessionPtr)
    (fresh : sm.heap[p]? = none) (session : Session) : (sm.inserted p session).WellFormed := by
  have old (q : SessionPtr) (other : Session) (stored : sm.heap[q]? = some other) :
      (sm.inserted p session).heap[q]? = some other := by
    rw [inserted_heap, if_neg, stored]
    rintro rfl
    rw [fresh] at stored
    cases stored
  refine ⟨?_, wf.nonempty, ?_⟩
  · intro sid q live
    have found : (sm.inserted p session).get sid = some q := live
    rw [inserted_get] at found
    cases before : sm.get sid with
    | some r =>
        rw [before] at found
        cases found
        obtain ⟨other, stored, same⟩ := wf.stored sid q before
        exact ⟨other, old q other stored, same⟩
    | none =>
        rw [before, Option.none_or] at found
        split_ifs at found with own
        cases found
        exact ⟨session, by simp [inserted_heap], own.symm⟩
  · intro time set q bucket member
    obtain ⟨other, stored, expire, live⟩ := wf.queued time set q bucket member
    refine ⟨other, old q other stored, expire, ?_⟩
    have found := inserted_get sm p session other.sid
    rw [show sm.get other.sid = some q from live, Option.some_or] at found
    exact found

theorem add_spec (options : Options) (now : Time) (sm : SessionManager) (wf : sm.WellFormed)
    (p : SessionPtr) (fresh : sm.heap[p]? = none) (session : Session) :
    ∃ after, sm.add options now p session = .ok after ∧ after.WellFormed ∧
      after.sessions = sm.sessions.insertIfNew session.sid p ∧
      ∀ q : SessionPtr, after.heap[q]?.map Session.standing =
        if p = q then some session.standing else sm.heap[q]?.map Session.standing := by
  obtain ⟨q, live⟩ : ∃ q, (sm.inserted p session).get session.sid = some q := by
    rw [inserted_get]
    cases sm.get session.sid <;> simp
  obtain ⟨after, touched, keeps⟩ := touch_spec options now _
    (inserted_wellFormed sm wf p fresh session) session.sid q live
  refine ⟨after, touched, keeps.wellFormed, keeps.sessions, fun q => ?_⟩
  rw [keeps.standing, inserted_heap]
  split_ifs <;> rfl

theorem add_wellFormed {options : Options} {now : Time} {sm after : SessionManager}
    (wf : sm.WellFormed) {p : SessionPtr} (fresh : sm.heap[p]? = none) {session : Session}
    (done : sm.add options now p session = .ok after) : after.WellFormed :=
  (touch_keeps (inserted_wellFormed sm wf p fresh session) done).wellFormed

theorem remove_spec (sm : SessionManager) (wf : sm.WellFormed) (sid : Sid) (p : SessionPtr)
    (live : sm.get sid = some p) (closed : (sm.deref p).active = false) :
    ∃ after, sm.remove sid = .ok after ∧ after.sessions = sm.sessions.erase sid ∧
      after.heap = sm.heap ∧ after.WellFormed := by
  obtain ⟨left, removed, sessions, heap, leftWf, gone⟩ := removeFromTimers_spec sm wf sid p live
  refine ⟨{ left with sessions := left.sessions.erase sid },
    by simp [remove, live, closed, removed], by simp [sessions], heap, ⟨?_, leftWf.nonempty, ?_⟩⟩
  · intro other q there
    simp only [ExtTreeMap.getElem?_erase, Std.compare_eq_iff_eq] at there
    split_ifs at there
    exact leftWf.stored other q there
  · intro time set q bucket member
    obtain ⟨session, stored, expire, there⟩ := leftWf.queued time set q bucket member
    refine ⟨session, stored, expire, ?_⟩
    simp only [ExtTreeMap.getElem?_erase, Std.compare_eq_iff_eq]
    rw [if_neg, there]
    intro same
    rw [← same, sessions] at there
    rw [get, there] at live
    cases live
    exact gone time set bucket member

theorem remove_wellFormed {sm after : SessionManager} (wf : sm.WellFormed) {sid : Sid}
    (done : sm.remove sid = .ok after) : after.WellFormed := by
  obtain ⟨p, -, live, closed, -⟩ := remove_cases done
  obtain ⟨_, same, -, -, kept⟩ := remove_spec sm wf sid p live closed
  cases done.symm.trans same
  exact kept

theorem sessions_inj (sm : SessionManager) (wf : sm.WellFormed) (one two : Sid) (p : SessionPtr)
    (first : sm.get one = some p) (second : sm.get two = some p) : one = two := by
  rw [← (get_deref sm wf one p first).2, ← (get_deref sm wf two p second).2]

theorem referenced_iff (sm : SessionManager) (wf : sm.WellFormed) (p : SessionPtr) :
    sm.referenced p = true ↔ ∃ sid, sm.get sid = some p := by
  simp only [referenced, Bool.or_eq_true, List.any_eq_true, beq_iff_eq]
  constructor
  · rintro (⟨entry, member, rfl⟩ | ⟨bucket, member, held⟩)
    · exact ⟨entry.1, ExtTreeMap.mem_toList_iff_getElem?_eq_some.mp member⟩
    · obtain ⟨session, -, -, live⟩ := wf.queued bucket.1 bucket.2 p
        (ExtTreeMap.mem_toList_iff_getElem?_eq_some.mp member) held
      exact ⟨session.sid, live⟩
  · rintro ⟨sid, live⟩
    exact .inl ⟨(sid, p), ExtTreeMap.mem_toList_iff_getElem?_eq_some.mpr live, rfl⟩

theorem free_heap {sm : SessionManager} {p : SessionPtr} (free : ∀ sid, sm.get sid ≠ some p)
    {sid : Sid} {q : SessionPtr} (live : sm.get sid = some q) :
    (sm.heap.erase p)[q]? = sm.heap[q]? := by
  have different : p ≠ q := by
    rintro rfl
    exact free sid live
  simp [ExtTreeMap.getElem?_erase, different]

theorem free_deref {sm : SessionManager} {p : SessionPtr} (free : ∀ sid, sm.get sid ≠ some p)
    {sid : Sid} {q : SessionPtr} (live : sm.get sid = some q) :
    deref { sm with heap := sm.heap.erase p } q = sm.deref q := by
  rw [deref, deref, free_heap free live]

theorem wellFormed_free (sm : SessionManager) (wf : sm.WellFormed) (p : SessionPtr)
    (free : ∀ sid, sm.get sid ≠ some p) : WellFormed { sm with heap := sm.heap.erase p } := by
  refine ⟨fun sid q live => ?_, wf.nonempty, fun time set q bucket member => ?_⟩
  · rw [free_heap free live]
    exact wf.stored sid q live
  · obtain ⟨session, stored, expire, live⟩ := wf.queued time set q bucket member
    exact ⟨session, by rw [free_heap free live]; exact stored, expire, live⟩

theorem resetWatchers_keeps (sm : SessionManager) (wf : sm.WellFormed) :
    Keeps sm sm.resetWatchers := by
  unfold resetWatchers
  generalize sm.sessions.toList = entries
  induction entries generalizing sm with
  | nil => exact .refl wf
  | cons entry rest ih =>
      have one := modify_keeps sm wf entry.2 Session.resetWatch (fun _ => rfl) (fun _ => rfl)
      exact one.trans (ih _ one.wellFormed)

theorem heap_foldl_expire (sm : SessionManager) (expire : Time) (ps : List SessionPtr)
    (q : SessionPtr) :
    (ps.foldl (fun sm p => sm.modify p (Session.setExpireTime expire)) sm).heap[q]? =
      if q ∈ ps then sm.heap[q]?.map (Session.setExpireTime expire) else sm.heap[q]? := by
  induction ps generalizing sm with
  | nil => simp
  | cons p rest ih =>
      rw [List.foldl_cons, ih, heap_modify]
      by_cases same : p = q
      · subst same
        cases sm.heap[p]? <;> simp [Session.setExpireTime]
      · simp [same, Ne.symm same]

theorem foldl_expire_frame (sm : SessionManager) (expire : Time) (ps : List SessionPtr) :
    (ps.foldl (fun sm p => sm.modify p (Session.setExpireTime expire)) sm).sessions = sm.sessions ∧
      (ps.foldl (fun sm p => sm.modify p (Session.setExpireTime expire)) sm).timers =
        sm.timers := by
  induction ps generalizing sm with
  | nil => exact ⟨rfl, rfl⟩
  | cons p rest ih => exact ih (sm.modify p (Session.setExpireTime expire))

/-- The buckets `ResetTimer` has still to move: nonempty, of live sessions, and apart from each
other and from the buckets moved already. -/
structure Waiting (sm : SessionManager) (buckets : List ((Time × SessionSet) × Nat)) :
    Prop where
  nonempty : ∀ bucket ∈ buckets, bucket.1.2 ≠ ∅
  live : ∀ bucket ∈ buckets, ∀ p ∈ bucket.1.2,
    ∃ session, sm.heap[p]? = some session ∧ sm.sessions[session.sid]? = some p
  apart : buckets.Pairwise fun one two => ∀ p ∈ one.1.2, p ∉ two.1.2
  moved : ∀ bucket ∈ buckets, ∀ p ∈ bucket.1.2, ∀ (time : Time) (set : SessionSet),
    sm.timers[time]? = some set → p ∉ set

section Reset

variable (clock : Nat → Time) {sm after : SessionManager} {bucket : (Time × SessionSet) × Nat}

def deadlineOf (sm : SessionManager) (bucket : (Time × SessionSet) × Nat) : Time :=
  match bucket.1.2.toList with
  | [] => 0
  | first :: _ => addTime (clock bucket.2) (sm.deref first).timeout

theorem resetBucket_cases (done : resetBucket clock bucket sm = .ok after) :
    after.timers = sm.timers.insert (deadlineOf clock sm bucket) bucket.1.2 ∧
      (∀ q : SessionPtr, after.heap[q]? =
        if q ∈ bucket.1.2 then
          sm.heap[q]?.map (Session.setExpireTime (deadlineOf clock sm bucket))
        else sm.heap[q]?) ∧
      after.sessions = sm.sessions := by
  unfold resetBucket at done
  split at done
  · cases done
  next first others order =>
    cases done
    have deadline : deadlineOf clock sm bucket =
        addTime (clock bucket.2) (sm.deref first).timeout := by simp only [deadlineOf, order]
    obtain ⟨sessions, timers⟩ := foldl_expire_frame sm
      (addTime (clock bucket.2) (sm.deref first).timeout) (first :: others)
    rw [deadline]
    refine ⟨by rw [timers], fun q => ?_, sessions⟩
    have heapAt := heap_foldl_expire sm (addTime (clock bucket.2) (sm.deref first).timeout)
      (first :: others) q
    simp only [← order, ExtTreeSet.mem_toList] at heapAt
    rw [order] at heapAt
    exact heapAt

theorem resetBucket_stored (done : resetBucket clock bucket sm = .ok after) {q : SessionPtr}
    {session : Session} (stored : sm.heap[q]? = some session) :
    ∃ other, after.heap[q]? = some other ∧ other.sid = session.sid ∧
      other.expire = if q ∈ bucket.1.2 then deadlineOf clock sm bucket else session.expire := by
  rw [(resetBucket_cases clock done).2.1, stored]
  split_ifs
  · exact ⟨_, rfl, rfl, rfl⟩
  · exact ⟨_, rfl, rfl, rfl⟩

theorem resetBucket_timers (done : resetBucket clock bucket sm = .ok after) {time : Time}
    {set : SessionSet} (here : after.timers[time]? = some set) :
    (time = deadlineOf clock sm bucket ∧ set = bucket.1.2) ∨ sm.timers[time]? = some set := by
  rw [(resetBucket_cases clock done).1, ExtTreeMap.getElem?_insert] at here
  split_ifs at here with same
  · exact .inl ⟨(Std.compare_eq_iff_eq.mp same).symm, (Option.some.inj here).symm⟩
  · exact .inr here

variable {rest : List ((Time × SessionSet) × Nat)}

theorem resetBucket_keeps (wf : sm.WellFormed) (waiting : Waiting sm (bucket :: rest))
    (done : resetBucket clock bucket sm = .ok after) : Keeps sm after := by
  obtain ⟨-, heap, sessions⟩ := resetBucket_cases clock done
  refine ⟨sessions, fun q => ?_, fun sid q there => ?_, fun time set here => ?_,
    fun time set q here member => ?_⟩
  · rw [heap]
    split_ifs
    · cases sm.heap[q]? <;> rfl
    · rfl
  · obtain ⟨session, stored, rfl⟩ := wf.stored sid q (by rw [← sessions]; exact there)
    obtain ⟨other, present, same, -⟩ := resetBucket_stored clock done stored
    exact ⟨other, present, same⟩
  · rcases resetBucket_timers clock done here with ⟨-, rfl⟩ | old
    · exact waiting.nonempty bucket (by simp)
    · exact wf.nonempty time set old
  · rcases resetBucket_timers clock done here with ⟨rfl, rfl⟩ | old
    · obtain ⟨session, stored, there⟩ := waiting.live bucket (by simp) q member
      obtain ⟨other, present, same, expire⟩ := resetBucket_stored clock done stored
      rw [if_pos member] at expire
      exact ⟨other, present, expire, by rw [sessions, same]; exact there⟩
    · obtain ⟨session, stored, expires, there⟩ := wf.queued time set q old member
      obtain ⟨other, present, same, expire⟩ := resetBucket_stored clock done stored
      have absent : q ∉ bucket.1.2 := fun inside =>
        waiting.moved bucket (by simp) q inside time set old member
      rw [if_neg absent] at expire
      exact ⟨other, present, expire.trans expires, by rw [sessions, same]; exact there⟩

theorem resetBucket_waits (waiting : Waiting sm (bucket :: rest))
    (done : resetBucket clock bucket sm = .ok after) : Waiting after rest := by
  obtain ⟨-, -, sessions⟩ := resetBucket_cases clock done
  obtain ⟨first, others⟩ := List.pairwise_cons.mp waiting.apart
  refine ⟨fun later member => waiting.nonempty later (List.mem_cons_of_mem _ member),
    fun later member q inside => ?_, others, fun later member q inside time set here => ?_⟩
  · obtain ⟨session, stored, there⟩ := waiting.live later (List.mem_cons_of_mem _ member) q inside
    obtain ⟨other, present, same, -⟩ := resetBucket_stored clock done stored
    exact ⟨other, present, by rw [sessions, same]; exact there⟩
  · rcases resetBucket_timers clock done here with ⟨-, rfl⟩ | old
    · exact fun both => first later member q both inside
    · exact waiting.moved later (List.mem_cons_of_mem _ member) q inside time set old

theorem resetBucket_ok (sm : SessionManager) (nonempty : bucket.1.2 ≠ ∅) :
    ∃ after, resetBucket clock bucket sm = .ok after := by
  unfold resetBucket
  split
  next order => exact absurd (ExtTreeSet.toList_eq_nil_iff.mp order) nonempty
  · exact ⟨_, rfl⟩

end Reset

theorem resetBuckets_spec (clock : Nat → Time) (buckets : List ((Time × SessionSet) × Nat))
    (sm : SessionManager) (wf : sm.WellFormed) (waiting : Waiting sm buckets) :
    ∃ after, Runs.run (resetBucket clock) sm buckets = .ok after ∧ Keeps sm after := by
  induction buckets generalizing sm with
  | nil => exact ⟨sm, rfl, .refl wf⟩
  | cons bucket rest ih =>
      obtain ⟨next, taken⟩ := resetBucket_ok clock sm (waiting.nonempty bucket (by simp))
      have keeps := resetBucket_keeps clock wf waiting taken
      obtain ⟨after, reached, keepsRest⟩ := ih next keeps.wellFormed
        (resetBucket_waits clock waiting taken)
      exact ⟨after, (Runs.run_cons_ok _ _ _ _ _).mpr ⟨next, taken, reached⟩, keeps.trans keepsRest⟩

theorem zipped_bucket {sm : SessionManager} {bucket : (Time × SessionSet) × Nat}
    (listed : bucket ∈ sm.timers.toList.zipIdx) : sm.timers[bucket.1.1]? = some bucket.1.2 := by
  have member := List.mem_map_of_mem (f := Prod.fst) listed
  rw [List.zipIdx_map_fst] at member
  exact ExtTreeMap.mem_toList_iff_getElem?_eq_some.mp member

theorem zipped_of_bucket {sm : SessionManager} {time : Time} {set : SessionSet}
    (bucket : sm.timers[time]? = some set) :
    ∃ place, ((time, set), place) ∈ sm.timers.toList.zipIdx := by
  have listed := ExtTreeMap.mem_toList_iff_getElem?_eq_some.mpr bucket
  rw [← List.zipIdx_map_fst 0 sm.timers.toList] at listed
  obtain ⟨⟨entry, place⟩, found, rfl⟩ := List.mem_map.mp listed
  exact ⟨place, found⟩

theorem waiting_timers (sm : SessionManager) (wf : sm.WellFormed) :
    Waiting { sm with timers := ∅ } sm.timers.toList.zipIdx := by
  refine ⟨fun bucket member => wf.nonempty _ _ (zipped_bucket member), ?_, ?_, by simp⟩
  · intro bucket member p inside
    obtain ⟨session, stored, -, there⟩ := wf.queued _ _ p (zipped_bucket member) inside
    exact ⟨session, stored, there⟩
  · have keys : (sm.timers.toList.zipIdx.map Prod.fst).Pairwise
        fun one two => ¬ compare one.1 two.1 = .eq := by
      rw [List.zipIdx_map_fst]
      exact ExtTreeMap.distinct_keys_toList (t := sm.timers)
    rw [List.pairwise_map] at keys
    refine keys.imp_of_mem fun one two different p inOne inTwo => different ?_
    -- A session expires at one time only, so it is in no second bucket.
    rw [Std.compare_eq_iff_eq, ← expire_of_queued sm wf _ _ p (zipped_bucket one) inOne,
      ← expire_of_queued sm wf _ _ p (zipped_bucket two) inTwo]

theorem emptied_wellFormed (sm : SessionManager) (wf : sm.WellFormed) :
    WellFormed { sm with timers := ∅ } :=
  ⟨wf.stored, by simp, by simp⟩

theorem resetTimer_spec (clock : Nat → Time) (sm : SessionManager) (wf : sm.WellFormed) :
    ∃ after, sm.resetTimer clock = .ok after ∧ Keeps sm after := by
  obtain ⟨after, reached, keeps⟩ := resetBuckets_spec clock sm.timers.toList.zipIdx
    { sm with timers := ∅ } (emptied_wellFormed sm wf) (waiting_timers sm wf)
  exact ⟨after, reached, ⟨keeps.sessions, keeps.standing, keeps.wellFormed⟩⟩

theorem resetTimer_keeps {clock : Nat → Time} {sm after : SessionManager} (wf : sm.WellFormed)
    (done : sm.resetTimer clock = .ok after) : Keeps sm after := by
  obtain ⟨_, same, keeps⟩ := resetTimer_spec clock sm wf
  cases done.symm.trans same
  exact keeps

-- What a new leader does to the sessions before its first step.
theorem reset_keeps {clock : Nat → Time} {sm after : SessionManager} (wf : sm.WellFormed)
    (done : sm.resetTimer clock = .ok after) : Keeps sm after.resetWatchers :=
  have keeps := resetTimer_keeps wf done
  keeps.trans (resetWatchers_keeps after keeps.wellFormed)

theorem resetTimer_field {β : Type} (g : Session → β) (clock : Nat → Time) (sm : SessionManager)
    {after : SessionManager} (same : ∀ expire s, g (Session.setExpireTime expire s) = g s)
    (done : sm.resetTimer clock = .ok after) (q : SessionPtr) :
    g (after.deref q) = g (sm.deref q) := by
  refine Runs.run_invariant_always (resetBucket clock)
    (fun other => g (other.deref q) = g (sm.deref q)) ?_ { sm with timers := ∅ } after _ rfl done
  intro bucket one two kept moved
  rw [← kept]
  unfold resetBucket at moved
  split at moved
  · cases moved
  · cases moved
    exact foldl_modify_field g one id (Session.setExpireTime _) (same _) _ q

theorem resetTimer_sid {clock : Nat → Time} {sm after : SessionManager}
    (done : sm.resetTimer clock = .ok after) : after.sid = sm.sid := by
  refine Runs.run_invariant_always (resetBucket clock) (fun other => other.sid = sm.sid) ?_
    { sm with timers := ∅ } after _ rfl done
  intro bucket one two kept moved
  rw [← kept]
  unfold resetBucket at moved
  split at moved
  · cases moved
  · cases moved
    exact foldl_modify_sid one id (Session.setExpireTime _) _

end Pyxis.SessionManager
