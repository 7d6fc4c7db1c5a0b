import Pyxis.Server.Machine

set_option autoImplicit false

namespace Pyxis.Machine

open SessionManager (WellFormed Keeps)

structure Quiet (before after : Machine) : Prop where
  db : after.db = before.db
  sm : Keeps before.sm after.sm

theorem Quiet.refl {m : Machine} (wf : m.sm.WellFormed) : Quiet m m := ⟨rfl, .refl wf⟩

theorem Quiet.trans {first second third : Machine} (one : Quiet first second)
    (two : Quiet second third) : Quiet first third :=
  ⟨two.db.trans one.db, one.sm.trans two.sm⟩

theorem Quiet.foldl {α : Type} (f : Machine → α → Machine)
    (step : ∀ m x, m.sm.WellFormed → Quiet m (f m x)) (xs : List α) (m : Machine)
    (wf : m.sm.WellFormed) : Quiet m (xs.foldl f m) := by
  induction xs generalizing m with
  | nil => exact .refl wf
  | cons x rest ih =>
      have one := step m x wf
      exact one.trans (ih _ one.sm.wellFormed)

structure Told (before after : Machine) : Prop where
  db : after.db = before.db
  sid : after.sm.sid = before.sm.sid
  sessions : after.sm.sessions = before.sm.sessions
  timers : after.sm.timers = before.sm.timers
  core : ∀ p : SessionPtr,
    after.sm.heap[p]?.map Session.core = before.sm.heap[p]?.map Session.core

theorem Told.refl (m : Machine) : Told m m := ⟨rfl, rfl, rfl, rfl, fun _ => rfl⟩

theorem Told.trans {first second third : Machine} (one : Told first second)
    (two : Told second third) : Told first third :=
  ⟨two.db.trans one.db, two.sid.trans one.sid, two.sessions.trans one.sessions,
    two.timers.trans one.timers, fun p => (two.core p).trans (one.core p)⟩

theorem Told.foldl {α : Type} (f : Machine → α → Machine) (step : ∀ m x, Told m (f m x))
    (xs : List α) (m : Machine) : Told m (xs.foldl f m) := by
  induction xs generalizing m with
  | nil => exact .refl m
  | cons x rest ih => exact (step m x).trans (ih _)

theorem Told.stored {before after : Machine} (told : Told before after) {p : SessionPtr}
    {session : Session} (stored : before.sm.heap[p]? = some session) :
    ∃ other, after.sm.heap[p]? = some other ∧ other.core = session.core := by
  have same := told.core p
  rw [stored] at same
  exact Option.map_eq_some_iff.mp same

theorem Told.deref {before after : Machine} (told : Told before after) (p : SessionPtr) :
    (after.sm.deref p).core = (before.sm.deref p).core := by
  have same := told.core p
  unfold SessionManager.deref
  cases old : before.sm.heap[p]? <;> cases new : after.sm.heap[p]? <;> simp [old, new] at same ⊢
  exact same

theorem Told.wellFormed {before after : Machine} (told : Told before after)
    (wf : before.sm.WellFormed) : after.sm.WellFormed := by
  refine ⟨?_, by rw [told.timers]; exact wf.nonempty, ?_⟩
  · intro sid p live
    obtain ⟨session, stored, rfl⟩ := wf.stored sid p (by rw [← told.sessions]; exact live)
    obtain ⟨other, present, same⟩ := told.stored stored
    exact ⟨other, present, (Session.fields_of_core same).1⟩
  · intro time set p bucket member
    obtain ⟨session, stored, expires, live⟩ := wf.queued time set p
      (by rw [← told.timers]; exact bucket) member
    obtain ⟨other, present, same⟩ := told.stored stored
    obtain ⟨sid, -, expire, -⟩ := Session.fields_of_core same
    exact ⟨other, present, expire.trans expires, by rw [told.sessions, sid]; exact live⟩

theorem Told.quiet {before after : Machine} (told : Told before after)
    (wf : before.sm.WellFormed) : Quiet before after := by
  refine ⟨told.db, told.sessions, fun p => ?_, told.wellFormed wf⟩
  have same := congrArg (Option.map Session.standing) (told.core p)
  rw [Option.map_map, Option.map_map] at same
  exact same

theorem modify_told (m : Machine) (p : SessionPtr) (f : Session → Session)
    (core : ∀ s, (f s).core = s.core) : Told m { m with sm := m.sm.modify p f } := by
  refine ⟨rfl, rfl, rfl, rfl, fun q => ?_⟩
  change ((m.sm.modify p f).heap[q]?).map Session.core = _
  rw [SessionManager.heap_modify]
  split_ifs
  · simp [Function.comp_def, core]
  · rfl

theorem reply_told (e : Event) (rep : Response) (m : Machine) : Told m (m.reply e rep) :=
  ⟨rfl, rfl, rfl, rfl, fun _ => rfl⟩

theorem pingBack_told (p : SessionPtr) (m : Machine) : Told m (m.pingBack p) := by
  have one := modify_told m p (fun s => s.pingBack.2) Session.core_pingBack
  unfold pingBack
  split
  · exact one
  · exact one.trans (reply_told _ _ _)

theorem holdPing_told (p : SessionPtr) (e : Event) (m : Machine) : Told m (m.holdPing p e) := by
  unfold holdPing
  cases (m.sm.deref p).pingEvent with
  | none => exact modify_told m p (Session.holdPing e) fun _ => rfl
  | some old =>
      exact (reply_told old Response.empty m).trans
        (modify_told (m.reply old Response.empty) p (Session.holdPing e) fun _ => rfl)

section Watchers

variable (state : State) (e : Watch.Event)

def pended (w : Watcher) (p : SessionPtr) (m : Machine) : Machine :=
  { m with sm := m.sm.modify p (Session.pend w.path e), trace := m.trace ++ [.notify w e] }

def notified (w : Watcher) (p : SessionPtr) (m : Machine) : Machine :=
  -- What `watchCallback` does before the session forgets the watcher.
  if state = .leader then pingBack p (pended e w p m) else m

theorem watchCallback_eq {m : Machine} {w : Watcher} {p : SessionPtr}
    (live : m.sm.get w.sid = some p) :
    watchCallback state w e m =
      { notified state e w p m with
        sm := (notified state e w p m).sm.modify p (Session.removeWatch w) } := by
  simp only [watchCallback, live, notified, pended]

theorem pended_told (w : Watcher) (p : SessionPtr) (m : Machine) : Told m (pended e w p m) := by
  obtain ⟨db, sid, sessions, timers, core⟩ := modify_told m p (Session.pend w.path e) fun _ => rfl
  exact ⟨db, sid, sessions, timers, core⟩

theorem notified_told (w : Watcher) (p : SessionPtr) (m : Machine) :
    Told m (notified state e w p m) := by
  unfold notified
  split_ifs
  · exact (pended_told e w p m).trans (pingBack_told p _)
  · exact .refl m

theorem watchCallback_told (w : Watcher) (m : Machine) : Told m (watchCallback state w e m) := by
  cases live : m.sm.get w.sid with
  | none =>
      simp only [watchCallback, live]
      exact .refl m
  | some p =>
      rw [watchCallback_eq state e live]
      exact (notified_told state e w p m).trans
        (modify_told _ p (Session.removeWatch w) fun _ => rfl)

theorem trigerInternal_told (m : Machine) (call : Str × Bool) :
    Told m (trigerInternal state e m call) := by
  obtain ⟨db, sid, sessions, timers, core⟩ := Told.foldl
    (fun m (entry : Str × Watcher) => watchCallback state entry.2 e m)
    (fun m entry => watchCallback_told state e entry.2 m)
    (m.wm.filter (WatchManager.fires call.1 e call.2)) m
  exact ⟨db, sid, sessions, timers, core⟩

theorem triger_told {e : Watch.Event} {m after : Machine} (done : triger state e m = .ok after) :
    Told m after := by
  unfold triger at done
  split at done
  · cases done
  next calls climbed =>
    cases done
    obtain ⟨db, sid, sessions, timers, core⟩ := Told.foldl (trigerInternal state e)
      (trigerInternal_told state e) calls { m with trace := m.trace ++ [.triger e] }
    exact ⟨db, sid, sessions, timers, core⟩

theorem triger_quiet (e : Watch.Event) (m : Machine) (wf : m.sm.WellFormed)
    (rooted : ∃ rest, e.node = '/' :: rest) :
    ∃ after, triger state e m = .ok after ∧ Quiet m after := by
  obtain ⟨calls, climbed⟩ := trigerPaths_rooted e.node rooted
  have done : triger state e m =
      .ok (calls.foldl (trigerInternal state e) { m with trace := m.trace ++ [.triger e] }) := by
    simp [triger, climbed]
  exact ⟨_, done, (triger_told state done).quiet wf⟩

theorem trigerBoth_quiet (path : Str) (type : UInt32) (m : Machine) (wf : m.sm.WellFormed)
    (rooted : ∃ rest, path = '/' :: rest) (parent son : Str)
    (split : splitPath path = .ok (parent, son)) :
    ∃ after, trigerBoth state path type m = .ok after ∧ Quiet m after := by
  obtain ⟨first, own, quiet⟩ := triger_quiet state ⟨path, type⟩ m wf rooted
  obtain ⟨second, above, quietToo⟩ := triger_quiet state ⟨parentOf path, Watch.kChildren⟩ first
    quiet.sm.wellFormed
    (by simpa [parentOf, split] using splitPath_parent_head path parent son rooted split)
  exact ⟨second, by rw [trigerBoth, own]; exact above, quiet.trans quietToo⟩

end Watchers

theorem onWatch_told (req : Request) (m : Machine) : Told m (m.onWatch req).2 := by
  unfold onWatch
  split
  · exact .refl m
  next p live =>
    dsimp only
    split_ifs
    · exact .refl m
    · obtain ⟨db, sid, sessions, timers, core⟩ := modify_told m p (Session.bindWatch
        ⟨m.nextWatcher, req.watchBody.path, (m.sm.deref p).sid, req.watchBody.watch,
          req.watchBody.recursive⟩) fun _ => rfl
      exact ⟨db, sid, sessions, timers, core⟩

end Pyxis.Machine
