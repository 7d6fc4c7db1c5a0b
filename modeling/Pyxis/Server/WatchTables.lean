import Pyxis.Replica.Reach

set_option autoImplicit false

open Std (ExtTreeMap)

namespace Pyxis

namespace WatchManager

def Single (wm : WatchManager) : Prop :=
  wm.Pairwise fun one two => one.1 = two.1 → one.2.sid ≠ two.2.sid

def isOf (w : Watcher) (entry : Str × Watcher) : Bool := entry.1 == w.path && entry.2.sid == w.sid

theorem isOf_iff {w : Watcher} {entry : Str × Watcher} :
    isOf w entry = true ↔ entry.1 = w.path ∧ entry.2.sid = w.sid := by
  simp [isOf]

theorem remove_eq_filter (wm : WatchManager) (single : Single wm) (w : Watcher) :
    remove wm w = wm.filter fun entry => !isOf w entry := by
  change wm.eraseP (isOf w) = _
  induction wm with
  | nil => rfl
  | cons entry rest ih =>
      obtain ⟨apart, single⟩ := List.pairwise_cons.mp single
      cases hit : isOf w entry with
      | false => simp [hit, ih single]
      | true =>
          -- The first hit is the only one, so a filter takes nothing else.
          have others : rest.filter (fun entry => !isOf w entry) = rest := by
            rw [List.filter_eq_self]
            intro other member
            rw [Bool.not_eq_true', ← Bool.not_eq_true, isOf_iff]
            rw [isOf_iff] at hit
            rintro ⟨path, sid⟩
            exact apart other member (hit.1.trans path.symm) (hit.2.trans sid.symm)
          simp [hit, others]

theorem foldl_remove (ws : List Watcher) (wm : WatchManager) (single : Single wm) :
    ws.foldl remove wm = wm.filter fun entry => ws.all fun w => !isOf w entry := by
  induction ws generalizing wm with
  | nil => simp
  | cons w rest ih =>
      rw [List.foldl_cons, remove_eq_filter wm single w, ih _ (List.Pairwise.filter _ single),
        List.filter_filter]
      simp only [List.all_cons, Bool.and_comm]

def rings (e : Watch.Event) (calls : List (Str × Bool)) (entry : Str × Watcher) : Bool :=
  calls.any fun call => fires call.1 e call.2 entry

end WatchManager

namespace Machine

open SessionManager (WellFormed)

/-- The tables agree entry by entry, and no two entries are the same object. -/
structure Agree (m : Machine) : Prop where
  both : ∀ path (w : Watcher), (path, w) ∈ m.wm ↔
    ∃ p, m.sm.get w.sid = some p ∧ (m.sm.deref p).watches[path]? = some w
  owned : ∀ sid p path (w : Watcher), m.sm.get sid = some p →
    (m.sm.deref p).watches[path]? = some w → w.sid = sid ∧ w.path = path
  numbered : ∀ entry ∈ m.wm, entry.2.id < m.nextWatcher
  distinct : (m.wm.map fun entry => entry.2.id).Nodup

variable {options : Options} {state : State} {permits : Permits} {m after : Machine}

theorem Agree.keyed (agree : Agree m) {path : Str} {w : Watcher} (entered : (path, w) ∈ m.wm) :
    w.path = path := by
  obtain ⟨p, live, held⟩ := (agree.both path w).mp entered
  exact (agree.owned _ p path w live held).2

theorem Agree.entered (agree : Agree m) {sid : Sid} {p : SessionPtr} {path : Str} {w : Watcher}
    (live : m.sm.get sid = some p) (held : (m.sm.deref p).watches[path]? = some w) :
    (path, w) ∈ m.wm := by
  rw [agree.both]
  exact ⟨p, by rw [(agree.owned sid p path w live held).1]; exact live, held⟩

theorem Agree.unique (agree : Agree m) {path : Str} {one two : Watcher}
    (first : (path, one) ∈ m.wm) (second : (path, two) ∈ m.wm) (same : one.sid = two.sid) :
    one = two := by
  obtain ⟨p, live, held⟩ := (agree.both path one).mp first
  obtain ⟨q, alive, kept⟩ := (agree.both path two).mp second
  rw [← same, live] at alive
  cases alive
  rw [held] at kept
  exact Option.some.inj kept

theorem Agree.single (agree : Agree m) : WatchManager.Single m.wm := by
  have ids := agree.distinct
  rw [List.Nodup, List.pairwise_map] at ids
  refine ids.imp_of_mem fun {one two} first second different path sid => different ?_
  obtain ⟨key, w⟩ := one
  obtain ⟨key', w'⟩ := two
  cases path
  rw [agree.unique first second sid]

theorem get_of_sessions {sm other : SessionManager} (sessions : other.sessions = sm.sessions)
    (sid : Sid) : other.get sid = sm.get sid := by
  rw [SessionManager.get, sessions]
  rfl

theorem Agree.frame (agree : Agree m) (wm : after.wm = m.wm)
    (next : after.nextWatcher = m.nextWatcher) (get : ∀ sid, after.sm.get sid = m.sm.get sid)
    (watches : ∀ sid p, m.sm.get sid = some p →
      (after.sm.deref p).watches = (m.sm.deref p).watches) : Agree after := by
  refine ⟨fun path w => ?_, fun sid p path w live held => ?_,
    by rw [wm, next]; exact agree.numbered, by rw [wm]; exact agree.distinct⟩
  · rw [wm, agree.both, get]
    refine exists_congr fun p => and_congr_right fun live => ?_
    rw [watches w.sid p live]
  · rw [get] at live
    rw [watches sid p live] at held
    exact agree.owned sid p path w live held

theorem Agree.modify (agree : Agree m) (p : SessionPtr) (f : Session → Session)
    (watches : ∀ s, (f s).watches = s.watches) : Agree { m with sm := m.sm.modify p f } :=
  agree.frame rfl rfl (fun _ => rfl) fun _ q _ =>
    SessionManager.modify_field Session.watches m.sm p f watches q

theorem Agree.empty (none : m.wm = [])
    (watches : ∀ sid p, m.sm.get sid = some p → (m.sm.deref p).watches = ∅) : Agree m := by
  refine ⟨fun path w => ?_, fun sid p path w live held => ?_, by simp [none], by simp [none]⟩
  · simp only [none, List.not_mem_nil, false_iff, not_exists, not_and]
    intro p live
    simp [watches w.sid p live]
  · simp [watches sid p live] at held

theorem Session.watches_pingBack (s : Session) : s.pingBack.2.watches = s.watches := by
  unfold Session.pingBack
  split
  · rfl
  · split <;> rfl

theorem Agree.pingBack (agree : Agree m) (p : SessionPtr) : Agree (m.pingBack p) := by
  have taken := agree.modify p (fun s => s.pingBack.2) Session.watches_pingBack
  unfold Machine.pingBack
  split
  · exact taken
  · exact taken.frame rfl rfl (fun _ => rfl) fun _ _ _ => rfl

theorem Agree.takePing (agree : Agree m) (p : SessionPtr) (e : Event) :
    Agree (m.takePing p e) := by
  have held : Agree (m.holdPing p e) := by
    unfold Machine.holdPing
    cases (m.sm.deref p).pingEvent with
    | none => exact agree.modify p (Session.holdPing e) fun _ => rfl
    | some old =>
        exact (agree.modify p (Session.holdPing e) fun _ => rfl).frame rfl rfl (fun _ => rfl)
          fun _ _ _ => rfl
  unfold Machine.takePing
  dsimp only
  split
  · exact held
  · exact held.pingBack p

theorem pingBack_tables (p : SessionPtr) (m : Machine) :
    (m.pingBack p).wm = m.wm ∧ (m.pingBack p).nextWatcher = m.nextWatcher := by
  unfold Machine.pingBack
  split <;> exact ⟨rfl, rfl⟩

theorem takePing_tables (p : SessionPtr) (e : Event) (m : Machine) :
    (m.takePing p e).wm = m.wm ∧ (m.takePing p e).nextWatcher = m.nextWatcher ∧
      (m.takePing p e).trace = m.trace := by
  have held : (m.holdPing p e).wm = m.wm ∧ (m.holdPing p e).nextWatcher = m.nextWatcher ∧
      (m.holdPing p e).trace = m.trace := by
    unfold Machine.holdPing
    cases (m.sm.deref p).pingEvent <;> exact ⟨rfl, rfl, rfl⟩
  unfold Machine.takePing
  dsimp only
  split
  · exact held
  · rw [(pingBack_tables p _).1, (pingBack_tables p _).2, pingBack_trace]
    exact held

theorem Agree.watch (agree : Agree m) (wf : m.sm.WellFormed) (req : Request) :
    Agree (m.onWatch req).2 := by
  unfold onWatch
  split
  · exact agree
  next p live =>
    dsimp only
    split_ifs with known
    · exact agree
    · obtain ⟨stored, sid⟩ := SessionManager.get_deref m.sm wf req.sid p live
      rw [sid]
      generalize fresh : (⟨m.nextWatcher, req.watchBody.path, req.sid, req.watchBody.watch,
        req.watchBody.recursive⟩ : Watcher) = w
      have own : w.path = req.watchBody.path ∧ w.sid = req.sid ∧ w.id = m.nextWatcher := by
        simp [← fresh]
      have absent : (m.sm.deref p).watches[req.watchBody.path]? = none :=
        ExtTreeMap.getElem?_eq_none known
      have watches (q : SessionPtr) (path : Str) :
          ((m.sm.modify p (Session.bindWatch w)).deref q).watches[path]? =
            if p = q ∧ w.path = path then some w else (m.sm.deref q).watches[path]? := by
        rw [SessionManager.deref_modify m.sm p q _ stored]
        by_cases same : p = q <;>
          simp [same, Session.bindWatch, ExtTreeMap.getElem?_insert]
      refine ⟨fun path other => ?_, fun sid' q path other there held => ?_, ?_, ?_⟩
      · change (path, other) ∈ m.wm ++ [(req.watchBody.path, w)] ↔
          ∃ q, m.sm.get other.sid = some q ∧
            ((m.sm.modify p (Session.bindWatch w)).deref q).watches[path]? = some other
        simp only [watches, List.mem_append, List.mem_singleton, Prod.mk.injEq, agree.both]
        constructor
        · rintro (⟨q, there, held⟩ | ⟨rfl, rfl⟩)
          · refine ⟨q, there, ?_⟩
            rw [if_neg, held]
            rintro ⟨rfl, path⟩
            rw [← path, own.1, absent] at held
            cases held
          · exact ⟨p, by rw [own.2.1]; exact live, by simp [own.1]⟩
        · rintro ⟨q, there, held⟩
          split_ifs at held with new
          · cases held
            exact .inr ⟨by rw [← new.2, own.1], rfl⟩
          · exact .inl ⟨q, there, held⟩
      · change ((m.sm.modify p (Session.bindWatch w)).deref q).watches[path]? = some other at held
        change m.sm.get sid' = some q at there
        rw [watches] at held
        split_ifs at held with new
        · cases held
          obtain ⟨rfl, path⟩ := new
          exact ⟨own.2.1.trans (SessionManager.sessions_inj m.sm wf _ _ p live there), path⟩
        · exact agree.owned sid' q path other there held
      · simp only [WatchManager.add, List.mem_append, List.mem_singleton]
        rintro entry (old | rfl)
        · exact Nat.lt_succ_of_lt (agree.numbered entry old)
        · simp [own.2.2]
      · simp only [WatchManager.add, List.map_append, List.map_cons, List.map_nil, own.2.2]
        refine List.nodup_append.mpr ⟨agree.distinct, by simp, ?_⟩
        rintro id listed other single rfl
        obtain ⟨entry, member, rfl⟩ := List.mem_map.mp listed
        exact absurd (agree.numbered entry member) (by simp_all)

section Triger

variable (state) (e : Watch.Event)

theorem notified_tables (w : Watcher) (p : SessionPtr) (m : Machine) :
    (notified state e w p m).wm = m.wm ∧ (notified state e w p m).nextWatcher = m.nextWatcher ∧
      (notified state e w p m).trace =
        m.trace ++ (if state = .leader then [.notify w e] else []) := by
  unfold notified
  split_ifs
  · rw [(pingBack_tables p _).1, (pingBack_tables p _).2, pingBack_trace]
    exact ⟨rfl, rfl, rfl⟩
  · exact ⟨rfl, rfl, by simp⟩

theorem notified_watches (w : Watcher) (p q : SessionPtr) (m : Machine) :
    ((notified state e w p m).sm.deref q).watches = (m.sm.deref q).watches := by
  unfold notified
  split_ifs
  · have pended := SessionManager.modify_field Session.watches m.sm p (Session.pend w.path e)
      (fun _ => rfl) q
    have taken := SessionManager.modify_field Session.watches
      (m.sm.modify p (Session.pend w.path e)) p (fun s => s.pingBack.2) Session.watches_pingBack q
    unfold pingBack
    dsimp only
    split <;> exact taken.trans pended
  · rfl

theorem watchCallback_watches (wf : m.sm.WellFormed) (w : Watcher) (q : SessionPtr) (path : Str) :
    ((watchCallback state w e m).sm.deref q).watches[path]? =
      if m.sm.get w.sid = some q ∧ w.path = path then none
      else (m.sm.deref q).watches[path]? := by
  cases live : m.sm.get w.sid with
  | none => simp [watchCallback, live]
  | some p =>
      obtain ⟨stored, -⟩ := SessionManager.get_deref m.sm wf w.sid p live
      obtain ⟨session, kept, -⟩ := (notified_told state e w p m).stored stored
      rw [watchCallback_eq state e live, SessionManager.deref_modify _ p q _ kept,
        ← notified_watches state e w p q m]
      by_cases own : p = q <;> simp [own, Session.removeWatch, ExtTreeMap.getElem?_erase]

theorem watchCallback_tables (w : Watcher) (m : Machine) :
    (watchCallback state w e m).wm = m.wm ∧
      (watchCallback state w e m).nextWatcher = m.nextWatcher := by
  cases live : m.sm.get w.sid with
  | none => simp [watchCallback, live]
  | some p =>
      rw [watchCallback_eq state e live]
      obtain ⟨wm, next, -⟩ := notified_tables state e w p m
      exact ⟨wm, next⟩

theorem watchCallback_trace {w : Watcher} (live : (m.sm.get w.sid).isSome = true) :
    (watchCallback state w e m).trace =
      m.trace ++ (if state = .leader then [.notify w e] else []) := by
  obtain ⟨p, live⟩ := Option.isSome_iff_exists.mp live
  rw [watchCallback_eq state e live]
  exact (notified_tables state e w p m).2.2

def callbacks (entries : List (Str × Watcher)) (m : Machine) : Machine :=
  entries.foldl (fun m entry => watchCallback state entry.2 e m) m

theorem callbacks_told (entries : List (Str × Watcher)) (m : Machine) :
    Told m (callbacks state e entries m) :=
  Told.foldl (fun m (entry : Str × Watcher) => watchCallback state entry.2 e m)
    (fun m entry => watchCallback_told state e entry.2 m) entries m

theorem callbacks_tables (entries : List (Str × Watcher)) (m : Machine) :
    (callbacks state e entries m).nextWatcher = m.nextWatcher := by
  unfold callbacks
  induction entries generalizing m with
  | nil => rfl
  | cons entry rest ih =>
      exact (ih _).trans (watchCallback_tables state e entry.2 m).2

theorem callbacks_watches (entries : List (Str × Watcher)) (m : Machine) (wf : m.sm.WellFormed)
    (q : SessionPtr) (path : Str) :
    ((callbacks state e entries m).sm.deref q).watches[path]? =
      if ∃ entry ∈ entries, m.sm.get entry.2.sid = some q ∧ entry.2.path = path then none
      else (m.sm.deref q).watches[path]? := by
  unfold callbacks
  induction entries generalizing m with
  | nil => simp
  | cons entry rest ih =>
      have told := watchCallback_told state e entry.2 m
      rw [List.foldl_cons, ih _ (told.wellFormed wf), watchCallback_watches state e wf]
      simp only [get_of_sessions told.sessions, List.exists_mem_cons_iff]
      by_cases now : m.sm.get entry.2.sid = some q ∧ entry.2.path = path
      · simp only [now, and_self, if_true, true_or, ite_self]
      · simp only [now, if_false, false_or]

theorem callbacks_trace (entries : List (Str × Watcher)) (m : Machine)
    (live : ∀ entry ∈ entries, (m.sm.get entry.2.sid).isSome = true) :
    (callbacks state e entries m).trace = m.trace ++
      (if state = .leader then entries.map fun entry => .notify entry.2 e else []) := by
  unfold callbacks
  induction entries generalizing m with
  | nil => simp
  | cons entry rest ih =>
      have told := watchCallback_told state e entry.2 m
      rw [List.foldl_cons, ih, watchCallback_trace state e (live entry (by simp))]
      · split_ifs <;> simp
      · intro later member
        rw [get_of_sessions told.sessions]
        exact live later (List.mem_cons_of_mem _ member)

theorem Agree.trigerInternal (agree : Agree m) (wf : m.sm.WellFormed) (call : Str × Bool) :
    Agree (trigerInternal state e m call) := by
  have watches := callbacks_watches state e (m.wm.filter (WatchManager.fires call.1 e call.2)) m wf
  have get := get_of_sessions
    (callbacks_told state e (m.wm.filter (WatchManager.fires call.1 e call.2)) m).sessions
  -- A session loses its watcher at a path exactly when that watcher fires.
  have fired {p : SessionPtr} {path : Str} {w : Watcher} (live : m.sm.get w.sid = some p)
      (held : (m.sm.deref p).watches[path]? = some w) :
      (∃ entry ∈ m.wm.filter (WatchManager.fires call.1 e call.2),
        m.sm.get entry.2.sid = some p ∧ entry.2.path = path) ↔
        WatchManager.fires call.1 e call.2 (path, w) = true := by
    constructor
    · rintro ⟨⟨key, other⟩, member, there, rfl⟩
      obtain ⟨entered, fires⟩ := List.mem_filter.mp member
      have key' := agree.keyed entered
      dsimp only at *
      subst key'
      have same := agree.unique entered ((agree.both _ w).mpr ⟨p, live, held⟩)
        (SessionManager.sessions_inj m.sm wf _ _ p there live)
      subst same
      exact fires
    · intro fires
      have entered := (agree.both path w).mpr ⟨p, live, held⟩
      exact ⟨(path, w), List.mem_filter.mpr ⟨entered, fires⟩, live, agree.keyed entered⟩
  refine ⟨fun path w => ?_, fun sid p path w live held => ?_, ?_, ?_⟩
  · change (path, w) ∈ m.wm.filter _ ↔
      ∃ p, (callbacks state e _ m).sm.get w.sid = some p ∧
        ((callbacks state e _ m).sm.deref p).watches[path]? = some w
    simp only [get, watches, List.mem_filter, agree.both]
    constructor
    · rintro ⟨⟨p, live, held⟩, silent⟩
      refine ⟨p, live, ?_⟩
      rw [if_neg, held]
      rw [fired live held]
      simpa using silent
    · rintro ⟨p, live, held⟩
      split_ifs at held with rang
      refine ⟨⟨p, live, held⟩, ?_⟩
      rw [fired live held] at rang
      simpa using rang
  · change (callbacks state e _ m).sm.get sid = some p at live
    change ((callbacks state e _ m).sm.deref p).watches[path]? = some w at held
    rw [get] at live
    rw [watches] at held
    split_ifs at held
    exact agree.owned sid p path w live held
  · intro entry member
    have next := callbacks_tables state e (m.wm.filter (WatchManager.fires call.1 e call.2)) m
    change entry.2.id < (callbacks state e _ m).nextWatcher
    rw [next]
    exact agree.numbered entry (List.mem_filter.mp member).1
  · exact agree.distinct.sublist (List.filter_sublist.map _)

theorem trigers_spec (calls : List (Str × Bool)) (m : Machine) (wf : m.sm.WellFormed)
    (agree : Agree m) :
    ∃ fired, (fired ++ (calls.foldl (Machine.trigerInternal state e) m).wm).Perm m.wm ∧
      (∀ entry ∈ fired, WatchManager.rings e calls entry = true) ∧
      (∀ entry ∈ (calls.foldl (Machine.trigerInternal state e) m).wm,
        WatchManager.rings e calls entry = false) ∧
      (calls.foldl (Machine.trigerInternal state e) m).trace = m.trace ++
        (if state = .leader then fired.map fun entry => .notify entry.2 e else []) ∧
      (calls.foldl (Machine.trigerInternal state e) m).nextWatcher = m.nextWatcher ∧
      Agree (calls.foldl (Machine.trigerInternal state e) m) := by
  induction calls generalizing m with
  | nil => exact ⟨[], by simp, by simp, by simp [WatchManager.rings], by simp, rfl, agree⟩
  | cons call rest ih =>
      have told := trigerInternal_told state e m call
      obtain ⟨later, perm, rang, silent, trace, next, agrees⟩ := ih _ (told.wellFormed wf)
        (agree.trigerInternal state e wf call)
      have live (entry : Str × Watcher)
          (member : entry ∈ m.wm.filter (WatchManager.fires call.1 e call.2)) :
          (m.sm.get entry.2.sid).isSome = true := by
        obtain ⟨p, live, -⟩ := (agree.both entry.1 entry.2).mp (List.mem_filter.mp member).1
        simp [live]
      have first : (Machine.trigerInternal state e m call).trace = _ :=
        callbacks_trace state e _ m live
      refine ⟨m.wm.filter (WatchManager.fires call.1 e call.2) ++ later, ?_, ?_, ?_, ?_,
        next.trans (callbacks_tables state e _ m), agrees⟩
      · rw [List.append_assoc]
        exact (perm.append_left _).trans (List.filter_append_perm _ m.wm)
      · intro entry member
        rcases List.mem_append.mp member with now | after
        · simp [WatchManager.rings, (List.mem_filter.mp now).2]
        · have := rang entry after
          simp_all [WatchManager.rings]
      · intro entry member
        have quiet := silent entry member
        have kept : entry ∈ (Machine.trigerInternal state e m call).wm :=
          perm.subset (List.mem_append_right _ member)
        have missed := (List.mem_filter.mp kept).2
        simp_all [WatchManager.rings]
      · rw [List.foldl_cons, trace, first]
        split_ifs <;> simp

theorem triger_spec (agree : Agree m) (wf : m.sm.WellFormed) (done : triger state e m = .ok after) :
    ∃ calls fired, trigerPaths e.node = some calls ∧ (fired ++ after.wm).Perm m.wm ∧
      (∀ entry ∈ fired, WatchManager.rings e calls entry = true) ∧
      (∀ entry ∈ after.wm, WatchManager.rings e calls entry = false) ∧
      after.trace = m.trace ++ .triger e ::
        (if state = .leader then fired.map fun entry => .notify entry.2 e else []) ∧
      after.nextWatcher = m.nextWatcher ∧ Agree after := by
  unfold triger at done
  split at done
  · cases done
  next calls climbed =>
    cases done
    obtain ⟨fired, perm, rang, silent, trace, next, agrees⟩ := trigers_spec state e calls
      { m with trace := m.trace ++ [.triger e] } wf
      (agree.frame rfl rfl (fun _ => rfl) fun _ _ _ => rfl)
    exact ⟨calls, fired, climbed, perm, rang, silent, by simpa using trace, next, agrees⟩

end Triger

theorem Agree.touch (agree : Agree m) {now : Time} {sid : Sid} {sm : SessionManager}
    (done : m.sm.touch options now sid = .ok sm) : Agree { m with sm := sm } := by
  obtain ⟨p, live, ⟨-, rfl⟩ | ⟨-, timers, rfl⟩⟩ := SessionManager.touch_cases done
  · exact agree
  · exact (agree.modify p (Session.setExpireTime _) fun _ => rfl).frame rfl rfl (fun _ => rfl)
      fun _ _ _ => rfl

theorem Agree.inserted (agree : Agree m) (wf : m.sm.WellFormed) {p : SessionPtr} {sid : Sid}
    {timeout : Int} (fresh : m.sm.heap[p]? = none) :
    Agree { m with sm := m.sm.inserted p (Session.new sid timeout) } := by
  have old {other : Sid} {q : SessionPtr} (live : m.sm.get other = some q) :
      (m.sm.inserted p (Session.new sid timeout)).deref q = m.sm.deref q :=
    SessionManager.inserted_deref m.sm wf p fresh _ live
  have held {other : Sid} {q : SessionPtr} {path : Str} {w : Watcher}
      (live : (m.sm.inserted p (Session.new sid timeout)).get other = some q)
      (held : ((m.sm.inserted p (Session.new sid timeout)).deref q).watches[path]? = some w) :
      m.sm.get other = some q := by
    rw [SessionManager.inserted_get] at live
    cases before : m.sm.get other with
    | some r => simpa [before] using live
    | none =>
        -- The new session watches nothing.
        rw [before, Option.none_or] at live
        split_ifs at live
        cases live
        simp [SessionManager.deref, SessionManager.inserted_heap, Session.new] at held
  refine ⟨fun path w => ?_, fun other q path w live kept => ?_, agree.numbered, agree.distinct⟩
  · rw [agree.both]
    constructor
    · rintro ⟨q, live, kept⟩
      refine ⟨q, ?_, by rw [old live]; exact kept⟩
      rw [SessionManager.inserted_get, live, Option.some_or]
    · rintro ⟨q, live, kept⟩
      have before := held live kept
      exact ⟨q, before, by rw [← old before]; exact kept⟩
  · have before := held live kept
    exact agree.owned other q path w before (by rw [← old before]; exact kept)

theorem Agree.unwatch_eq (agree : Agree m) {sid : Sid} {p : SessionPtr}
    (live : m.sm.get sid = some p) :
    unwatch (m.sm.deref p) m.wm = m.wm.filter fun entry => !(entry.2.sid == sid) := by
  have folded : unwatch (m.sm.deref p) m.wm =
      ((m.sm.deref p).watches.toList.map Prod.snd).foldl WatchManager.remove m.wm := by
    rw [List.foldl_map]
    rfl
  rw [folded, WatchManager.foldl_remove _ _ agree.single]
  refine List.filter_congr fun entry entered => ?_
  rw [Bool.eq_iff_iff, List.all_eq_true, Bool.not_eq_true', beq_eq_false_iff_ne]
  constructor
  · rintro none rfl
    obtain ⟨q, there, held⟩ := (agree.both entry.1 entry.2).mp entered
    rw [live] at there
    cases there
    have mine := none entry.2 (List.mem_map.mpr
      ⟨entry, ExtTreeMap.mem_toList_iff_getElem?_eq_some.mpr held, rfl⟩)
    rw [Bool.not_eq_true', ← Bool.not_eq_true, WatchManager.isOf_iff] at mine
    exact mine ⟨(agree.keyed entered).symm, rfl⟩
  · intro other w listed
    obtain ⟨⟨path, kept⟩, member, rfl⟩ := List.mem_map.mp listed
    rw [Bool.not_eq_true', ← Bool.not_eq_true, WatchManager.isOf_iff]
    have held := ExtTreeMap.mem_toList_iff_getElem?_eq_some.mp member
    exact fun both => other (both.2.trans (agree.owned sid p path kept live held).1)

theorem Agree.drop (agree : Agree m) {sid : Sid} {p : SessionPtr} {sm : SessionManager}
    (live : m.sm.get sid = some p) (done : (m.sm.modify p Session.close).remove sid = .ok sm) :
    Agree { m with sm := sm, wm := unwatch (m.sm.deref p) m.wm } := by
  obtain ⟨-, heap, get⟩ := SessionManager.remove_frame done
  rw [agree.unwatch_eq live]
  have closed := agree.modify p Session.close fun _ => rfl
  have deref (q : SessionPtr) : sm.deref q = (m.sm.modify p Session.close).deref q := by
    rw [SessionManager.deref, heap]
    rfl
  refine ⟨fun path w => ?_, fun other q path w there held => ?_, fun entry member => ?_,
    agree.distinct.sublist (List.filter_sublist.map _)⟩
  · have both := closed.both path w
    dsimp only at both ⊢
    rw [get, List.mem_filter, both]
    simp only [deref, SessionManager.get]
    by_cases own : w.sid = sid <;> simp [own, SessionManager.modify]
  · dsimp only at there held
    rw [get] at there
    rw [deref] at held
    split_ifs at there
    exact closed.owned other q path w there held
  · exact agree.numbered entry (List.mem_filter.mp member).1

theorem Agree.free (agree : Agree m) {p : SessionPtr} (gone : ∀ sid, m.sm.get sid ≠ some p) :
    Agree { m with sm := { m.sm with heap := m.sm.heap.erase p } } := by
  refine agree.frame rfl rfl (fun _ => rfl) fun sid q live => ?_
  exact congrArg Session.watches (SessionManager.free_deref gone live)

theorem Agree.move (agree : Agree m) (wf : m.sm.WellFormed)
    (move : Move options state permits m after) : Agree after := by
  cases move with
  | store db => exact agree.frame rfl rfl (fun _ => rfl) fun _ _ _ => rfl
  | nodes p f only => exact agree.modify p f fun s => by rw [only]
  | reply e rep plain => exact agree.frame rfl rfl (fun _ => rfl) fun _ _ _ => rfl
  | watch req => exact agree.watch wf req
  | triger e after done =>
      obtain ⟨_, _, _, _, _, _, _, _, agrees⟩ := triger_spec state e agree wf done
      exact agrees
  | pingBack sid p live => exact agree.pingBack p
  | ping p e live permitted => exact agree.takePing p e
  | touch sid now sm permitted done => exact agree.touch done
  | setTimeout sid p timeout live permitted =>
      exact agree.modify p (Session.setTimeout timeout) fun _ => rfl
  | close p permitted => exact agree.modify p Session.close fun _ => rfl
  | genSid permitted => exact agree.frame rfl rfl (fun _ => rfl) fun _ _ _ => rfl
  | add sid timeout now p sm permitted fresh done =>
      exact (agree.inserted wf fresh).touch (m := { m with sm := m.sm.inserted p _ }) done
  | drop sid p sm permitted live done => exact agree.drop live done
  | free p gone => exact agree.free gone

theorem resetWatchers_watches (sm : SessionManager) (sid : Sid) (p : SessionPtr)
    (live : sm.get sid = some p) : (sm.resetWatchers.deref p).watches = ∅ := by
  have listed : (∃ entry ∈ sm.sessions.toList, entry.2 = p) ∨ (sm.deref p).watches = ∅ :=
    .inl ⟨(sid, p), ExtTreeMap.mem_toList_iff_getElem?_eq_some.mpr live, rfl⟩
  clear live
  unfold SessionManager.resetWatchers
  generalize sm.sessions.toList = entries at listed
  induction entries generalizing sm with
  | nil => simpa using listed
  | cons entry rest ih =>
      refine ih _ ?_
      have cleared : entry.2 = p ∨ (sm.deref p).watches = ∅ →
          ((sm.modify entry.2 Session.resetWatch).deref p).watches = ∅ := by
        simp only [SessionManager.deref, SessionManager.heap_modify]
        cases sm.heap[p]? <;> split_ifs <;> simp_all [Session.resetWatch, Session.new]
      simp only [List.exists_mem_cons_iff] at listed
      rcases listed with (here | later) | empty
      · exact .inr (cleared (.inl here))
      · exact .inl later
      · exact .inr (cleared (.inr empty))

theorem resetWatchers_sessions (sm : SessionManager) :
    sm.resetWatchers.sessions = sm.sessions := by
  unfold SessionManager.resetWatchers
  generalize sm.sessions.toList = entries
  induction entries generalizing sm with
  | nil => rfl
  | cons entry rest ih => exact ih (sm.modify entry.2 Session.resetWatch)

theorem Agree.reset {sm : SessionManager} :
    Agree { m with sm := sm.resetWatchers, wm := [] } :=
  .empty rfl fun sid p live => resetWatchers_watches sm sid p
    (by rw [← get_of_sessions (resetWatchers_sessions sm)]; exact live)

end Machine

namespace Server

open Machine (Agree unwatch)

variable {options : Options} {states : RaftStates} {server : Server}

theorem reachable_agree (reachable : Reachable options states server) :
    ∃ r, Stands options server r ∧ Agree server.machine :=
  reachable_machine Agree
    (fun db now replies => .empty rfl fun sid p live => by
      simp [Machine.fresh, SessionManager.new, SessionManager.get] at live)
    (fun state m after wf agree move => agree.move wf move)
    (fun m sm clock wf agree reset => .reset) reachable

theorem watch_tables_agree (reachable : Reachable options states server) :
    (∀ (path : Str) (w : Watcher), (path, w) ∈ server.machine.wm ↔
      ∃ p, server.machine.sm.get w.sid = some p ∧
        (server.machine.sm.deref p).watches[path]? = some w) ∧
    (∀ (sid : Sid) (p : SessionPtr) (path : Str) (w : Watcher),
      server.machine.sm.get sid = some p →
      (server.machine.sm.deref p).watches[path]? = some w → w.sid = sid) ∧
    WatchManager.Single server.machine.wm ∧
    (server.machine.wm.map fun entry => entry.2.id).Nodup ∧
    ∀ (sid : Sid) (p : SessionPtr), server.machine.sm.get sid = some p →
      unwatch (server.machine.sm.deref p) server.machine.wm =
          server.machine.wm.filter (fun entry => !(entry.2.sid == sid)) ∧
        ∀ (path : Str) (w : Watcher), (server.machine.sm.deref p).watches[path]? = some w →
          WatchManager.remove server.machine.wm w =
            server.machine.wm.filter fun entry => entry ≠ (path, w) := by
  obtain ⟨r, stands, agree⟩ := reachable_agree reachable
  refine ⟨agree.both, fun sid p path w live held => (agree.owned sid p path w live held).1,
    agree.single, agree.distinct, fun sid p live => ⟨agree.unwatch_eq live, ?_⟩⟩
  intro path w held
  have entered := agree.entered live held
  rw [WatchManager.remove_eq_filter _ agree.single]
  refine List.filter_congr fun entry listed => ?_
  rw [Bool.eq_iff_iff, Bool.not_eq_true', ← Bool.not_eq_true, WatchManager.isOf_iff,
    decide_eq_true_eq, not_iff_not]
  constructor
  · rintro ⟨path', sid'⟩
    obtain ⟨key, other⟩ := entry
    rw [agree.keyed entered] at path'
    cases path'
    rw [agree.unique listed entered sid']
  · rintro rfl
    exact ⟨(agree.keyed entered).symm, rfl⟩

def watched (watch : WatchRequest) : List Action :=
  -- Session 1 of `admitting` sets a watch.
  joined ++ [.receive (.watching 1 watch), .turn (.still 0) .event]

theorem watch_tables_agree_watched :
    ∃ server, Reachable Options.standard .sample server ∧
      (text "/a", ⟨0, text "/a", 1, Watch.kCreate, false⟩) ∈ server.machine.wm ∧
      ∃ p, server.machine.sm.get 1 = some p ∧
        (server.machine.sm.deref p).watches[text "/a"]? =
          some ⟨0, text "/a", 1, Watch.kCreate, false⟩ := by
  obtain ⟨server, reachable, entered⟩ := exists_reachable Options.standard .sample (.still 0)
    (watched ⟨text "/a", Watch.kCreate, false⟩) (fun server =>
      (text "/a", ⟨0, text "/a", 1, Watch.kCreate, false⟩) ∈ server.machine.wm)
    (by decide +kernel)
  exact ⟨server, reachable, entered, ((watch_tables_agree reachable).1 _ _).mp entered⟩

end Server

end Pyxis
