import Pyxis.Server.Moves
import Pyxis.Store.Keys

set_option autoImplicit false

open Std (ExtTreeMap ExtTreeSet)

namespace Pyxis

def Trace.raised? : Trace → Option Watch.Event
  | .triger e => some e
  | .notify _ _ => none

inductive Tree.Deletions (options : Options) : Tree → List Watch.Event → Tree → Prop
  | nil (tree : Tree) : Deletions options tree [] tree
  | cons {tree middle last : Tree} {path : Str} {events : List Watch.Event}
      (deleted : tree.delete options path = .ok (some middle))
      (later : Deletions options middle events last) :
      Deletions options tree
        (⟨path, Watch.kDelete⟩ :: ⟨parentOf path, Watch.kChildren⟩ :: events) last

theorem Tree.Deletions.trans {options : Options} {first second third : Tree}
    {one two : List Watch.Event} (former : Deletions options first one second)
    (latter : Deletions options second two third) :
    Deletions options first (one ++ two) third := by
  induction former with
  | nil => exact latter
  | cons deleted _ ih => exact .cons deleted (ih latter)

namespace Machine

def raised (m : Machine) : List Watch.Event := m.trace.filterMap Trace.raised?

theorem pingBack_trace (p : SessionPtr) (m : Machine) : (m.pingBack p).trace = m.trace := by
  unfold pingBack
  split <;> rfl

section Triger

variable (state : State)

theorem watchCallback_raised (w : Watcher) (e : Watch.Event) (m : Machine) :
    (watchCallback state w e m).raised = m.raised := by
  unfold watchCallback
  split
  · rfl
  · dsimp only
    split_ifs
    · simp [raised, pingBack_trace, Trace.raised?]
    · rfl

theorem trigerInternal_raised (e : Watch.Event) (m : Machine) (call : Str × Bool) :
    (trigerInternal state e m call).raised = m.raised := by
  have folded (entries : List (Str × Watcher)) (m : Machine) :
      (entries.foldl (fun m entry => watchCallback state entry.2 e m) m).raised = m.raised := by
    induction entries generalizing m with
    | nil => rfl
    | cons entry rest ih => rw [List.foldl_cons, ih, watchCallback_raised]
  exact folded _ m

theorem triger_raised {e : Watch.Event} {m after : Machine} (done : triger state e m = .ok after) :
    after.raised = m.raised ++ [e] := by
  unfold triger at done
  split at done
  · cases done
  next calls _ =>
    cases done
    have folded (calls : List (Str × Bool)) (m : Machine) :
        (calls.foldl (trigerInternal state e) m).raised = m.raised := by
      induction calls generalizing m with
      | nil => rfl
      | cons call rest ih => rw [List.foldl_cons, ih, trigerInternal_raised]
    rw [folded]
    simp [raised, Trace.raised?]

end Triger

/-- The machine moves, and the events are raised on the way. -/
structure Applied (options : Options) (state : State) (permits : Permits) (before after : Machine)
    (events : List Watch.Event) : Prop where
  moves : Moves options state permits before after
  raised : after.raised = before.raised ++ events

namespace Applied

variable {options : Options} {state : State} {permits : Permits}

theorem refl (m : Machine) : Applied options state permits m m [] := ⟨.refl, by simp⟩

theorem trans {first second third : Machine} {one two : List Watch.Event}
    (former : Applied options state permits first second one)
    (latter : Applied options state permits second third two) :
    Applied options state permits first third (one ++ two) :=
  ⟨former.moves.trans latter.moves, by rw [latter.raised, former.raised, List.append_assoc]⟩

theorem silent {before after : Machine} (move : Move options state permits before after)
    (trace : after.trace = before.trace) : Applied options state permits before after [] :=
  ⟨.single move, by simp [Machine.raised, trace]⟩

theorem quietly {first second third : Machine} {events : List Watch.Event}
    (former : Applied options state permits first second events)
    (latter : Applied options state permits second third []) :
    Applied options state permits first third events := by
  simpa using former.trans latter

theorem triger {e : Watch.Event} {before after : Machine}
    (done : Machine.triger state e before = .ok after) :
    Applied options state permits before after [e] :=
  ⟨.single (.triger e after done), triger_raised state done⟩

end Applied

variable {options : Options} {env : Env} {state : State} {permits : Permits} {m after : Machine}

theorem trigerBoth_applied {path : Str} {type : UInt32}
    (done : trigerBoth state path type m = .ok after) :
    Applied options state permits m after [⟨path, type⟩, ⟨parentOf path, Watch.kChildren⟩] ∧
      Told m after := by
  obtain ⟨middle, own, above⟩ := Runs.bind_ok.mp done
  exact ⟨(Applied.triger own).trans (.triger above),
    (triger_told state own).trans (triger_told state above)⟩

structure Deletes (options : Options) (state : State) (permits : Permits) (before after : Machine)
    (events : List Watch.Event) : Prop where
  applied : Applied options state permits before after events
  tree : Tree.Deletions options (Store.treeOf before.db) events (Store.treeOf after.db)
  sessions : after.sm.sessions = before.sm.sessions
  core : ∀ p : SessionPtr,
    after.sm.heap[p]?.map Session.core = before.sm.heap[p]?.map Session.core

theorem Deletes.refl (m : Machine) : Deletes options state permits m m [] :=
  ⟨.refl m, .nil _, rfl, fun _ => rfl⟩

theorem Deletes.trans {first second third : Machine} {one two : List Watch.Event}
    (former : Deletes options state permits first second one)
    (latter : Deletes options state permits second third two) :
    Deletes options state permits first third (one ++ two) :=
  ⟨former.applied.trans latter.applied, former.tree.trans latter.tree,
    latter.sessions.trans former.sessions, fun p => (latter.core p).trans (former.core p)⟩

theorem deleteNode_spec {path : Str} {status : Status}
    (done : deleteNode options env state path m = .ok (status, after)) :
    (status.isOk = false ∧ after = m) ∨
      status = Status.ok ∧ Deletes options state permits m after
        [⟨path, Watch.kDelete⟩, ⟨parentOf path, Watch.kChildren⟩] := by
  obtain ⟨⟨outcome, db⟩, stored, done⟩ := Runs.bind_ok.mp done
  dsimp only at done
  rcases Store.delete_cases_ok options env.proc stored with ⟨bad, rfl⟩ | ⟨good, deleted⟩
  · rw [bad] at done
    cases done
    exact .inl ⟨bad, rfl⟩
  · rw [if_pos good] at done
    obtain ⟨told, sent, done⟩ := Runs.bind_ok.mp done
    cases done
    obtain ⟨applied, same⟩ : Applied options state permits _ after _ ∧ _ := trigerBoth_applied sent
    refine .inr ⟨rfl, ⟨?_, ?_, same.sessions, same.core⟩⟩
    · exact (Applied.silent (.store db) rfl).trans applied
    · rw [same.db]
      exact .cons deleted (.nil _)

theorem destroyNode_spec {sid : Sid} {path : Str}
    (done : destroyNode options env state sid path m = .ok after) :
    ∃ events, Deletes options state permits m after events := by
  unfold destroyNode at done
  dsimp only at done
  split_ifs at done
  · obtain ⟨⟨status, middle⟩, deleted, done⟩ := Runs.bind_ok.mp done
    dsimp only at done
    split_ifs at done
    cases done
    rcases deleteNode_spec deleted with ⟨-, rfl⟩ | ⟨-, deletes⟩
    · exact ⟨[], .refl _⟩
    · exact ⟨_, deletes⟩
  · cases done
    exact ⟨[], .refl _⟩

theorem destroyNodes_spec {sid : Sid} (paths : List Str) (m : Machine)
    (done : Runs.run (destroyNode options env state sid) m paths = .ok after) :
    ∃ events, Deletes options state permits m after events := by
  induction paths generalizing m with
  | nil =>
      cases done
      exact ⟨[], .refl _⟩
  | cons path rest ih =>
      obtain ⟨next, one, done⟩ := (Runs.run_cons_ok _ _ _ _ _).mp done
      obtain ⟨first, deletes⟩ := destroyNode_spec one
      obtain ⟨others, later⟩ := ih next done
      exact ⟨_, deletes.trans later⟩

theorem destroySession_spec {p : SessionPtr} (gone : ∀ sid, m.sm.get sid ≠ some p)
    (done : destroySession options env state p m = .ok after) :
    ∃ events, Applied options state permits
        { m with wm := unwatch (m.sm.deref p) m.wm } after events ∧
      Tree.Deletions options (Store.treeOf m.db) events (Store.treeOf after.db) := by
  obtain ⟨middle, destroyed, done⟩ := Runs.bind_ok.mp done
  obtain ⟨events, applied, tree, sessions, -⟩ : ∃ events,
    Deletes options state permits _ middle events := destroyNodes_spec _ _ destroyed
  have free (last : Machine) (same : last.sm.sessions = m.sm.sessions) :
      Applied options state permits last
        { last with sm := { last.sm with heap := last.sm.heap.erase p } } [] :=
    .silent (.free p fun sid => by rw [SessionManager.get, same]; exact gone sid) rfl
  refine ⟨events, ?_⟩
  cases held : (m.sm.deref p).pingEvent with
  | none =>
      simp only [held, pure, Except.pure, Except.ok.injEq] at done
      subst done
      exact ⟨applied.quietly (free middle sessions), tree⟩
  | some e =>
      simp only [held, pure, Except.pure, Except.ok.injEq] at done
      subst done
      have answered := applied.quietly (.silent (.reply e Response.empty rfl) rfl)
      exact ⟨answered.quietly (free (middle.reply e Response.empty) sessions), tree⟩

def commandPermits (env : Env) (req : Request) : Permits where
  renews sid now := (∃ timeout, req.body = .register timeout) ∧ sid = req.sid ∧ now = env.clock 0
  retimes _ _ := False
  removes sid := req.body = .unregister ∧ sid = req.sid
  closes _ := False
  issues := False
  pings := False

theorem onRegister_spec {req : Request} {timeout : Int} {status : Status} {sid : Sid}
    (wf : m.sm.WellFormed) (renews : permits.renews req.sid (env.clock 0))
    (done : onRegister options env state req timeout m = .ok (status, sid, after)) :
    status = Status.ok ∧ Applied options state permits m after [] ∧
      after.db = Store.addSession m.db (Session.new req.sid timeout).toProtobuf ∧
      req.sid ≤ after.sm.sid := by
  obtain ⟨added, registered, done⟩ := Runs.bind_ok.mp done
  obtain ⟨released, left, done⟩ := Runs.bind_ok.mp done
  cases done
  refine ⟨rfl, ?_⟩
  obtain ⟨sm, joined, registered⟩ := Runs.bind_ok.mp registered
  cases registered
  have fresh := env.alloc_fresh m.sm
  have wf := SessionManager.add_wellFormed wf fresh joined
  have entered : Applied options state permits m
      { m with
        db := Store.addSession m.db (Session.new req.sid timeout).toProtobuf
        sm := sm } [] :=
    (Applied.silent (.add req.sid timeout _ _ sm renews fresh joined) rfl).trans
      (.silent (.store _) rfl)
  have counted : req.sid ≤ sm.sid := (SessionManager.add_sid joined).2
  unfold release at left
  split at left
  · cases left
    exact ⟨entered, rfl, counted⟩
  next unheld =>
    -- The sid was live, and the new session, which watches nothing, is dropped at once.
    have gone (sid : Sid) : sm.get sid ≠ some (env.alloc m.sm) := fun live =>
      unheld ((SessionManager.referenced_iff sm wf _).mpr ⟨sid, live⟩)
    have object : sm.deref (env.alloc m.sm) = Session.new req.sid timeout := by
      obtain ⟨q, live, ⟨-, rfl⟩ | ⟨-, timers, rfl⟩⟩ := SessionManager.touch_cases joined
      · simp [SessionManager.deref]
      · have other : q ≠ env.alloc m.sm := fun same => gone req.sid (same ▸ live)
        rw [SessionManager.deref]
        simp only [SessionManager.heap_modify, other, if_false]
        simp
    have noWatches : (∅ : ExtTreeMap Str Watcher).toList = [] :=
      ExtTreeMap.toList_eq_nil_iff.mpr rfl
    have noNodes : (∅ : ExtTreeSet Str).toList = [] := ExtTreeSet.toList_eq_nil_iff.mpr rfl
    simp only [destroySession, object, Session.new, noWatches, noNodes, List.foldl_nil,
      Runs.run_nil, bind, Except.bind, pure, Except.pure, Except.ok.injEq] at left
    subst left
    exact ⟨entered.quietly (.silent (.free _ gone) rfl), rfl, counted⟩

theorem onUnRegister_spec {req : Request} {status : Status} (wf : m.sm.WellFormed)
    (keyed : Store.Keyed m.db) (removes : permits.removes req.sid)
    (done : onUnRegister options env state req m = .ok (status, after)) :
    (status.isOk = false ∧ after = m) ∨
      status = Status.ok ∧ ∃ events, Applied options state permits m after events ∧
        Tree.Deletions options (Store.treeOf m.db) events (Store.treeOf after.db) := by
  unfold onUnRegister at done
  cases live : m.sm.get req.sid with
  | none =>
      rw [live] at done
      cases done
      exact .inl ⟨rfl, rfl⟩
  | some p =>
      rw [live] at done
      obtain ⟨removed, forgotten, done⟩ := Runs.bind_ok.mp done
      obtain ⟨released, left, done⟩ := Runs.bind_ok.mp done
      cases done
      refine .inr ⟨rfl, ?_⟩
      obtain ⟨stored, sid⟩ := SessionManager.get_deref m.sm wf req.sid p live
      rw [sid] at forgotten
      obtain ⟨sm, gone, forgotten⟩ := Runs.bind_ok.mp forgotten
      cases forgotten
      have dropped : Move options state permits m
          { m with sm := sm, wm := unwatch (m.sm.deref p) m.wm } :=
        .drop req.sid p sm removes live gone
      have droppedWf : sm.WellFormed := dropped.wellFormed wf
      obtain ⟨-, timers, -, -, rfl⟩ := SessionManager.remove_cases gone
      have closed : (m.sm.modify p Session.close).deref p = (m.sm.deref p).close := by
        rw [SessionManager.deref, SessionManager.heap_modify, if_pos rfl, stored]
        rfl
      -- `sessions_` held the last reference, so `~Session` runs as `s` goes out of scope.
      have absent (other : Sid) : (m.sm.sessions.erase req.sid)[other]? ≠ some p := by
        intro there
        simp only [ExtTreeMap.getElem?_erase, Std.compare_eq_iff_eq] at there
        split_ifs at there with same
        exact same (SessionManager.sessions_inj m.sm wf _ _ p live there)
      unfold release at left
      split at left
      next held =>
        obtain ⟨other, there⟩ := (SessionManager.referenced_iff _ droppedWf p).mp held
        exact absurd there (absent other)
      · obtain ⟨events, applied, tree⟩ :
            ∃ events, Applied options state permits _ after events ∧ _ :=
          destroySession_spec (by exact absent) left
        have entered : Applied options state permits m _ [] :=
          (Applied.silent dropped rfl).trans
            (.silent (.store (Store.removeSession m.db req.sid)) rfl)
        refine ⟨events, entered.trans ?_, ?_⟩
        · have watches : unwatch ((m.sm.modify p Session.close).deref p) m.wm =
              unwatch (m.sm.deref p) m.wm := by rw [closed]; rfl
          rw [← watches]
          exact applied
        · have same := Store.treeOf_removeSession m.db keyed req.sid
          rw [← same]
          exact tree

theorem onCreate_spec {req : Request} {create : CreateRequest} {status : Status}
    (done : onCreate options env state req create m = .ok (status, after)) :
    (status.isOk = false ∧ after = m) ∨
      status.isOk = true ∧ Applied options state permits m after
        [⟨create.path, Watch.kCreate⟩, ⟨parentOf create.path, Watch.kChildren⟩] ∧
      (Store.treeOf m.db).create options create.path create.data create.flags req.sid =
        some (Store.treeOf after.db) := by
  unfold onCreate at done
  split at done
  · cases done
    exact .inl ⟨rfl, rfl⟩
  · have outcome := Store.create_cases_ok options env.proc m.db create.path create.data create.flags
      req.sid
    generalize Store.create options env.proc m.db create.path create.data create.flags req.sid =
      result at done outcome
    obtain ⟨created, db⟩ := result
    rcases outcome with ⟨bad, same⟩ | ⟨good, tree⟩
    · dsimp only at done bad same
      subst same
      rw [bad] at done
      cases done
      exact .inl ⟨bad, rfl⟩
    · dsimp only at done good
      rw [if_pos good] at done
      obtain ⟨bound, binds, done⟩ := Runs.bind_ok.mp done
      obtain ⟨told, sent, done⟩ := Runs.bind_ok.mp done
      cases done
      obtain ⟨applied, same⟩ : Applied options state permits _ after _ ∧ _ :=
        trigerBoth_applied sent
      have stored : Applied options state permits m { m with db := db } [] :=
        .silent (.store db) rfl
      have step : Applied options state permits m bound [] ∧ bound.db = db := by
        split_ifs at binds
        · split at binds
          · cases binds
          next p live =>
            cases binds
            exact ⟨stored.quietly (.silent (.nodes p (Session.bindNode create.path) fun _ => rfl)
              rfl), rfl⟩
        · cases binds
          exact ⟨stored, rfl⟩
      refine .inr ⟨good, step.1.trans applied, ?_⟩
      rw [same.db, step.2]
      exact tree

theorem onDelete_spec {req : Request} {path : Str} {status : Status}
    (done : onDelete options env state req path m = .ok (status, after)) :
    (status.isOk = false ∧ after = m) ∨
      status.isOk = (m.sm.get req.sid).isSome ∧ Applied options state permits m after
        [⟨path, Watch.kDelete⟩, ⟨parentOf path, Watch.kChildren⟩] ∧
      (Store.treeOf m.db).delete options path = .ok (some (Store.treeOf after.db)) := by
  unfold onDelete at done
  split at done
  next status missing =>
    cases done
    exact .inl ⟨Store.get_error_isOk options env.proc m.db path status missing, rfl⟩
  · obtain ⟨⟨outcome, middle⟩, deleted, answered⟩ := Runs.bind_ok.mp done
    dsimp only at answered
    rcases deleteNode_spec deleted with ⟨bad, rfl⟩ | ⟨rfl, deletes⟩
    · rw [bad] at answered
      cases answered
      exact .inl ⟨bad, rfl⟩
    · have applied : Applied options state permits m middle _ := deletes.applied
      have tree : (Store.treeOf m.db).delete options path =
          .ok (some (Store.treeOf middle.db)) := by
        cases deletes.tree with
        | cons deleted later =>
            cases later
            exact deleted
      have same : middle.sm.get req.sid = m.sm.get req.sid := by
        rw [SessionManager.get, deletes.sessions]
        rfl
      have good : Status.ok.isOk = true := rfl
      rw [if_pos good, same] at answered
      cases live : m.sm.get req.sid with
      | none =>
          rw [live] at answered
          cases answered
          exact .inr ⟨rfl, applied, tree⟩
      | some p =>
          rw [live] at answered
          cases answered
          exact .inr ⟨rfl, applied.quietly (.silent (.nodes p (Session.removeNode path)
            fun _ => rfl) rfl), tree⟩

theorem onWatch_trace (req : Request) (m : Machine) : (m.onWatch req).2.trace = m.trace := by
  unfold onWatch
  split
  · rfl
  · dsimp only
    split_ifs <;> rfl

theorem onWatch_applied (req : Request) (m : Machine) :
    Applied options state permits m (m.onWatch req).2 [] :=
  .silent (.watch req) (onWatch_trace req m)

theorem onRead_spec {req : Request} {path : Str} {status : Status} {data : Payload}
    (done : onRead options env req path m = .ok (status, data, after)) :
    after = m ∨ after = (m.onWatch req).2 := by
  unfold onRead at done
  split at done
  · cases done
  · split at done <;> cases done
    · exact .inl rfl
    · exact .inr rfl

theorem onStat_spec {req : Request} {path : Str} {status : Status} {data : Payload}
    (done : onStat options env req path m = .ok (status, data, after)) :
    after = m ∨ after = (m.onWatch req).2 := by
  unfold onStat at done
  split at done
  · cases done
  · split at done
    · split at done <;> cases done
      · exact .inr rfl
      · exact .inl rfl
    · cases done
      exact .inr rfl

theorem onWrite_spec {write : WriteRequest} {status : Status}
    (done : onWrite options env state write m = .ok (status, after)) :
    (status.isOk = false ∧ after = m) ∨
      status.isOk = true ∧
        Applied options state permits m after [⟨write.path, Watch.kModify⟩] ∧
        ((options.underProc write.path = true ∧ after.db = m.db) ∨
          (Store.treeOf m.db).write options write.path write.data =
            some (Store.treeOf after.db)) := by
  unfold onWrite at done
  have outcome := Store.write_cases_ok options env.proc m.db write.path write.data
  generalize Store.write options env.proc m.db write.path write.data = result at done outcome
  obtain ⟨written, db⟩ := result
  rcases outcome with ⟨bad, same⟩ | ⟨good, tree⟩
  · dsimp only at done bad same
    subst same
    rw [bad] at done
    cases done
    exact .inl ⟨bad, rfl⟩
  · dsimp only at done good tree
    rw [if_pos good] at done
    obtain ⟨told, sent, done⟩ := Runs.bind_ok.mp done
    cases done
    have stored : Applied options state permits m { m with db := db } [] := .silent (.store db) rfl
    refine .inr ⟨good, stored.trans (.triger sent), ?_⟩
    rw [(triger_told state sent).db]
    exact tree

/-- Everything that a command can do. -/
inductive Outcome (options : Options) (env : Env) (state : State) (req : Request) (m : Machine) :
    Response → Machine → Prop
  | refused {rep : Response} (failed : rep.err ≠ none) : Outcome options env state req m rep m
  | watched {rep : Response} {after : Machine}
      (applied : Applied options state (commandPermits env req) m after []) (told : Told m after) :
      Outcome options env state req m rep after
  | registered {rep : Response} {after : Machine} (accepted : rep.err = none)
      (applied : Applied options state (commandPermits env req) m after [])
      (tree : Store.treeOf after.db = Store.treeOf m.db) : Outcome options env state req m rep after
  | unregistered {rep : Response} {after : Machine} (events : List Watch.Event)
      (accepted : rep.err = none)
      (applied : Applied options state (commandPermits env req) m after events)
      (tree : Tree.Deletions options (Store.treeOf m.db) events (Store.treeOf after.db)) :
      Outcome options env state req m rep after
  | created {rep : Response} {after : Machine} (create : CreateRequest) (accepted : rep.err = none)
      (applied : Applied options state (commandPermits env req) m after
        [⟨create.path, Watch.kCreate⟩, ⟨parentOf create.path, Watch.kChildren⟩])
      (tree : (Store.treeOf m.db).create options create.path create.data create.flags req.sid =
        some (Store.treeOf after.db)) : Outcome options env state req m rep after
  | deleted {rep : Response} {after : Machine} (path : Str) (body : req.body = .delete path)
      (accepted : rep.err = none ↔ m.sm.get req.sid ≠ none)
      (applied : Applied options state (commandPermits env req) m after
        [⟨path, Watch.kDelete⟩, ⟨parentOf path, Watch.kChildren⟩])
      (tree : (Store.treeOf m.db).delete options path = .ok (some (Store.treeOf after.db))) :
      Outcome options env state req m rep after
  | written {rep : Response} {after : Machine} (write : WriteRequest) (accepted : rep.err = none)
      (applied : Applied options state (commandPermits env req) m after
        [⟨write.path, Watch.kModify⟩])
      (tree : (options.underProc write.path = true ∧ after.db = m.db) ∨
        (Store.treeOf m.db).write options write.path write.data = some (Store.treeOf after.db)) :
      Outcome options env state req m rep after

theorem execute_cases {req : Request} {rep : Response} (wf : m.sm.WellFormed)
    (keyed : Store.Keyed m.db) (done : execute options env state req m = .ok (rep, after)) :
    Outcome options env state req m rep after := by
  have errs (rep : Response) (fine : rep.err = none) (status : Status) :
      (rep.withStatus status).err = none ↔ status.isOk = true := by
    rw [Response.err_withStatus, fine]
    cases status.isOk <;> simp
  have fails (rep : Response) (fine : rep.err = none) (status : Status)
      (bad : status.isOk = false) : (rep.withStatus status).err ≠ none := by
    rw [Ne, errs rep fine, bad]
    simp
  have watches (rep : Response) (last : Machine) (one : last = m ∨ last = (m.onWatch req).2) :
      Outcome options env state req m rep last := by
    rcases one with rfl | rfl
    · exact .watched (.refl _) (.refl _)
    · exact .watched (onWatch_applied req m) (onWatch_told req m)
  unfold execute at done
  cases body : req.body with
  | register timeout =>
      rw [body] at done
      obtain ⟨⟨status, sid, last⟩, registered, done⟩ := Runs.bind_ok.mp done
      cases done
      have renews : (commandPermits env req).renews req.sid (env.clock 0) :=
        ⟨⟨timeout, body⟩, rfl, rfl⟩
      obtain ⟨rfl, applied, db, -⟩ := onRegister_spec wf renews registered
      exact .registered rfl applied (by rw [db, Store.treeOf_addSession m.db keyed])
  | unregister =>
      rw [body] at done
      obtain ⟨⟨status, last⟩, closed, done⟩ := Runs.bind_ok.mp done
      cases done
      have removes : (commandPermits env req).removes req.sid := ⟨body, rfl⟩
      rcases onUnRegister_spec wf keyed removes closed with
        ⟨bad, rfl⟩ | ⟨rfl, events, applied, tree⟩
      · exact .refused (fails _ rfl status bad)
      · exact .unregistered events rfl applied tree
  | create create =>
      rw [body] at done
      obtain ⟨⟨status, last⟩, created, done⟩ := Runs.bind_ok.mp done
      cases done
      rcases onCreate_spec created with ⟨bad, rfl⟩ | ⟨good, applied, tree⟩
      · exact .refused (fails _ rfl status bad)
      · exact .created create ((errs _ rfl status).mpr good) applied tree
  | delete path =>
      rw [body] at done
      obtain ⟨⟨status, last⟩, deleted, done⟩ := Runs.bind_ok.mp done
      cases done
      rcases onDelete_spec deleted with ⟨bad, rfl⟩ | ⟨answer, applied, tree⟩
      · exact .refused (fails _ rfl status bad)
      · refine .deleted path body ?_ applied tree
        rw [errs _ rfl, answer, Option.isSome_iff_ne_none]
  | read path =>
      rw [body] at done
      obtain ⟨⟨status, data, last⟩, read, done⟩ := Runs.bind_ok.mp done
      cases done
      exact watches _ _ (onRead_spec read)
  | write write =>
      rw [body] at done
      obtain ⟨⟨status, last⟩, written, done⟩ := Runs.bind_ok.mp done
      cases done
      rcases onWrite_spec written with ⟨bad, rfl⟩ | ⟨good, applied, tree⟩
      · exact .refused (fails _ rfl status bad)
      · exact .written write ((errs _ rfl status).mpr good) applied tree
  | stat path =>
      rw [body] at done
      obtain ⟨⟨status, data, last⟩, read, done⟩ := Runs.bind_ok.mp done
      cases done
      exact watches _ _ (onStat_spec read)
  | watch =>
      rw [body] at done
      cases done
      exact watches _ _ (.inr rfl)
  | none =>
      rw [body] at done
      cases done
      exact watches _ _ (.inl rfl)

theorem Outcome.moves {req : Request} {rep : Response}
    (outcome : Outcome options env state req m rep after) :
    Moves options state (commandPermits env req) m after := by
  cases outcome with
  | refused => exact .refl
  | watched applied | registered _ applied | unregistered _ _ applied | created _ _ applied
  | deleted _ _ _ applied | written _ _ applied => exact applied.moves

end Machine

end Pyxis
