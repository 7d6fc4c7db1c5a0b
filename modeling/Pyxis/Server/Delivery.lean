import Pyxis.Server.Notifications

set_option autoImplicit false

open Std (ExtTreeMap)

namespace Pyxis

def Descends (node path : Str) : Prop :=
  (path = rootPath ∧ node ≠ rootPath) ∨ (path ≠ [] ∧ ∃ rest, node = path ++ '/' :: rest)

def Wants (path : Str) (mask : UInt32) (recursive : Bool) (e : Watch.Event) : Prop :=
  mask &&& e.type ≠ 0 ∧ (e.node = path ∨ recursive = true ∧ Descends e.node path)

theorem descends_cut {path before after : Str} (whole : path = before ++ '/' :: after)
    (name : '/' ∉ after) (above : Str) :
    (∃ rest, path = above ++ '/' :: rest) ↔
      above = before ∨ ∃ rest, before = above ++ '/' :: rest := by
  constructor
  · rintro ⟨rest, longer⟩
    rw [whole] at longer
    rcases List.append_eq_append_iff.mp longer with ⟨extra, rfl, split⟩ | ⟨extra, rfl, split⟩
    · cases extra with
      | nil => exact .inl (List.append_nil _)
      | cons head extra =>
          simp only [List.cons_append, List.cons.injEq] at split
          simp [split.2] at name
    · cases extra with
      | nil => exact .inl (List.append_nil _).symm
      | cons head extra =>
          simp only [List.cons_append, List.cons.injEq] at split
          exact .inr ⟨extra, by rw [← split.1]⟩
  · rintro (rfl | ⟨rest, rfl⟩)
    · exact ⟨after, whole⟩
    · exact ⟨rest ++ '/' :: after, by simp [whole]⟩

theorem cutPath_cases (path : Str) :
    (∃ before after, path = before ++ '/' :: after ∧ '/' ∉ after ∧ cutPath path = before) ∨
      ('/' ∉ path ∧ cutPath path = path) := by
  unfold cutPath
  cases parts : rsplit path with
  | none => exact .inr ⟨(rsplit_eq_none path).mp parts, rfl⟩
  | some pair =>
      obtain ⟨whole, name⟩ := (rsplit_eq_some path pair.1 pair.2).mp parts
      exact .inl ⟨pair.1, pair.2, whole, name, rfl⟩

theorem ancestors_slashless (fuel : Nat) (path : Str) (nonempty : path ≠ []) (name : '/' ∉ path) :
    ancestors fuel path = none := by
  induction fuel with
  | zero =>
      cases path with
      | nil => exact absurd rfl nonempty
      | cons head rest => rfl
  | succ fuel ih =>
      rcases cutPath_cases path with ⟨before, after, rfl, -, -⟩ | ⟨-, same⟩
      · simp at name
      · cases path with
        | nil => exact absurd rfl nonempty
        | cons head rest => simp [ancestors, same, ih]

theorem mem_ancestors {fuel : Nat} {path : Str} {paths : List Str}
    (climbed : ancestors fuel path = some paths) (above : Str) :
    above ∈ paths ↔ above ≠ [] ∧ (above = path ∨ ∃ rest, path = above ++ '/' :: rest) := by
  induction fuel generalizing path paths with
  | zero =>
      cases path with
      | nil =>
          cases climbed
          simp
      | cons head rest => cases climbed
  | succ fuel ih =>
      cases path with
      | nil =>
          cases climbed
          simp
      | cons head tail =>
          simp only [ancestors, Option.map_eq_some_iff] at climbed
          obtain ⟨others, climbed, rfl⟩ := climbed
          rcases cutPath_cases (head :: tail) with ⟨before, after, whole, name, cut⟩ | ⟨name, cut⟩
          rotate_left
          · rw [cut, ancestors_slashless fuel _ (by simp) name] at climbed
            cases climbed
          rw [cut] at climbed
          rw [List.mem_cons, ih climbed, descends_cut whole name]
          constructor
          · rintro (rfl | ⟨nonempty, up⟩)
            · exact ⟨by simp, .inl rfl⟩
            · exact ⟨nonempty, .inr up⟩
          · rintro ⟨nonempty, same | up⟩
            · exact .inl same
            · exact .inr ⟨nonempty, up⟩

theorem rings_iff {e : Watch.Event} {calls : List (Str × Bool)}
    (climbed : trigerPaths e.node = some calls) (path : Str) (w : Watcher) :
    WatchManager.rings e calls (path, w) = true ↔ Wants path w.mask w.recursive e := by
  simp only [trigerPaths, Option.map_eq_some_iff] at climbed
  obtain ⟨above, climbed, rfl⟩ := climbed
  have higher : path ∈ above ↔ path ≠ [] ∧ ∃ rest, e.node = path ++ '/' :: rest := by
    rw [mem_ancestors climbed]
    refine and_congr_right fun nonempty => ?_
    rcases cutPath_cases e.node with ⟨before, after, whole, name, cut⟩ | ⟨name, cut⟩
    · rw [cut, descends_cut whole name]
    · by_cases empty : e.node = []
      · rw [cut, empty]
        simp [nonempty]
      · rw [cut, ancestors_slashless _ _ empty name] at climbed
        cases climbed
  simp only [WatchManager.rings, WatchManager.fires, List.any_cons, List.any_append, List.any_map,
    List.any_nil, Bool.or_false, Bool.or_eq_true, Bool.and_eq_true, beq_iff_eq, bne_iff_ne,
    Bool.not_false, Bool.not_true, Bool.false_or, List.any_eq_true, Function.comp_apply, Wants,
    Descends]
  rw [← higher]
  constructor
  · rintro ((⟨⟨here, -⟩, hit⟩ | ⟨_, member, ⟨rfl, deep⟩, hit⟩) | ⟨⟨root, deep⟩, hit⟩)
    · exact ⟨hit, .inl here.symm⟩
    · exact ⟨hit, .inr ⟨deep, .inr member⟩⟩
    · by_cases own : e.node = path
      · exact ⟨hit, .inl own⟩
      · exact ⟨hit, .inr ⟨deep, .inl ⟨root, fun same => own (same.trans root.symm)⟩⟩⟩
  · rintro ⟨hit, here | ⟨deep, ⟨root, -⟩ | member⟩⟩
    · exact .inl (.inl ⟨⟨here.symm, .inl trivial⟩, hit⟩)
    · exact .inr ⟨⟨root, deep⟩, hit⟩
    · exact .inl (.inr ⟨path, member, ⟨rfl, deep⟩, hit⟩)

namespace Trace

def block : List Trace → List (Watcher × Watch.Event)
  -- The notifications before the next event.
  | .notify w e :: rest => (w, e) :: block rest
  | .triger _ :: _ => []
  | [] => []

def tells (sid : Sid) (path : Str) : Trace → Bool
  | .triger _ => false
  | .notify w _ => decide (w.sid = sid ∧ w.path = path)

theorem block_append_triger (first : List Trace) (e : Watch.Event) (rest : List Trace) :
    block (first ++ .triger e :: rest) = block first := by
  induction first with
  | nil => rfl
  | cons head first ih =>
      cases head with
      | triger e => rfl
      | notify w e => exact congrArg ((w, e) :: ·) ih

theorem mem_of_block {trace : List Trace} {w : Watcher} {e : Watch.Event}
    (listed : (w, e) ∈ block trace) : .notify w e ∈ trace := by
  induction trace with
  | nil => cases listed
  | cons head rest ih =>
      cases head with
      | triger e => cases listed
      | notify other event =>
          rcases List.mem_cons.mp listed with same | later
          · cases same
            exact List.mem_cons_self
          · exact List.mem_cons_of_mem _ (ih later)

theorem block_notify (fired : List (Str × Watcher)) (e : Watch.Event) :
    block (fired.map fun entry => .notify entry.2 e) = fired.map fun entry => (entry.2, e) := by
  induction fired with
  | nil => rfl
  | cons entry rest ih => exact congrArg ((entry.2, e) :: ·) ih

end Trace

namespace Machine

variable {options : Options} {state : State} {permits : Permits} {m after start : Machine}

theorem onWatch_entered (req : Request) {entry : Str × Watcher} (entered : entry ∈ m.wm) :
    entry ∈ (m.onWatch req).2.wm := by
  unfold onWatch
  split
  · exact entered
  · dsimp only
    split_ifs
    · exact entered
    · exact List.mem_append_left _ entered

theorem Move.keeps_watchers (move : Move options state permits m after) (agree : Agree m) :
    (∃ e, Machine.triger state e m = .ok after) ∨
      (after.trace = m.trace ∧
        ∀ entry ∈ m.wm, ¬ permits.removes entry.2.sid → entry ∈ after.wm) := by
  cases move with
  | watch req => exact .inr ⟨onWatch_trace req m, fun _ member _ => onWatch_entered req member⟩
  | triger e after done => exact .inl ⟨e, done⟩
  | pingBack sid p live =>
      exact .inr ⟨pingBack_trace p m, fun _ member _ => by rwa [(pingBack_tables p m).1]⟩
  | ping p e live permitted =>
      obtain ⟨wm, -, trace⟩ := takePing_tables p e m
      exact .inr ⟨trace, fun _ member _ => by rwa [wm]⟩
  | drop sid p sm permitted live done =>
      -- The tables agree, so what goes with the session is its own watchers and no others.
      refine .inr ⟨rfl, fun entry member spared => ?_⟩
      dsimp only
      rw [agree.unwatch_eq live, List.mem_filter]
      refine ⟨member, ?_⟩
      rw [Bool.not_eq_true', beq_eq_false_iff_ne]
      rintro rfl
      exact spared permitted
  | _ => exact .inr ⟨rfl, fun _ member _ => member⟩

variable {path : Str} {w : Watcher}

/-- Since `start`, the watcher has stayed at `path` until it told its session of an event, and the
first event it was asked for is the one it told. -/
structure Attends (path : Str) (w : Watcher) (start m : Machine) (grown : List Trace) : Prop where
  trace : m.trace = start.trace ++ grown
  entered : (∀ t ∈ grown, t.tells w.sid path = false) → (path, w) ∈ m.wm
  told : ∀ before e later, grown = before ++ .triger e :: later →
    (∀ t ∈ before, t.tells w.sid path = false) →
    ((∃ other, (other, e) ∈ Trace.block later ∧ other.sid = w.sid ∧ other.path = path) ↔
      Wants path w.mask w.recursive e)

theorem Attends.triger {grown : List Trace} (attends : Attends path w start m grown)
    (agree : Agree m) (wf : m.sm.WellFormed) {e : Watch.Event}
    (done : triger .leader e m = .ok after) :
    ∃ grown, Attends path w start after grown := by
  obtain ⟨calls, fired, climbed, perm, rang, silent, trace, -, -⟩ :=
    triger_spec .leader e agree wf done
  rw [if_pos rfl] at trace
  refine ⟨grown ++ .triger e :: fired.map fun entry => .notify entry.2 e,
    by rw [trace, attends.trace, List.append_assoc], fun untold => ?_, ?_⟩
  · have entered := attends.entered fun t member => untold t (List.mem_append_left _ member)
    rcases List.mem_append.mp (perm.symm.subset entered) with now | still
    · have told := untold (.notify w e) (by
        simp only [List.mem_append, List.mem_cons, List.mem_map]
        exact .inr (.inr ⟨_, now, rfl⟩))
      simp [Trace.tells, agree.keyed entered] at told
    · exact still
  · -- The new event is told now; an older one was told before the new one came.
    intro before other later split untold
    have here (eq : grown = before) : (∃ told, (told, e) ∈
        Trace.block (fired.map fun entry => .notify entry.2 e) ∧
          told.sid = w.sid ∧ told.path = path) ↔ Wants path w.mask w.recursive e := by
      have entered := attends.entered (by rw [eq]; exact untold)
      rw [Trace.block_notify, ← rings_iff climbed]
      constructor
      · rintro ⟨told, listed, sid, key⟩
        obtain ⟨⟨place, other⟩, member, same⟩ := List.mem_map.mp listed
        cases same
        have known := perm.subset (List.mem_append_left _ member)
        have place' : place = path := (agree.keyed known).symm.trans key
        subst place'
        rw [agree.unique entered known sid.symm]
        exact rang _ member
      · intro rings
        rcases List.mem_append.mp (perm.symm.subset entered) with now | still
        · exact ⟨w, List.mem_map.mpr ⟨(path, w), now, rfl⟩, rfl, agree.keyed entered⟩
        · rw [silent _ still] at rings
          cases rings
    -- A triger has one `.triger` in front and only notifications after it.
    rcases List.append_eq_append_iff.mp split with ⟨extra, longer, rest⟩ | ⟨extra, longer, rest⟩
    · cases extra with
      | nil =>
          cases rest
          exact here (by rw [longer, List.append_nil])
      | cons head extra =>
          simp only [List.cons_append, List.cons.injEq] at rest
          have raised : Trace.triger other ∈ fired.map fun entry => .notify entry.2 e := by
            rw [rest.2]
            simp
          obtain ⟨_, -, impossible⟩ := List.mem_map.mp raised
          cases impossible
    · cases extra with
      | nil =>
          cases rest
          exact here (by rw [longer, List.append_nil])
      | cons head extra =>
          simp only [List.cons_append, List.cons.injEq] at rest
          obtain ⟨rfl, rfl⟩ := rest
          rw [Trace.block_append_triger]
          exact attends.told before other extra longer untold

theorem Attends.move {grown : List Trace} (attends : Attends path w start m grown)
    (agree : Agree m) (wf : m.sm.WellFormed) (spared : ¬ permits.removes w.sid)
    (move : Move options .leader permits m after) : ∃ grown, Attends path w start after grown := by
  rcases move.keeps_watchers agree with ⟨e, done⟩ | ⟨trace, kept⟩
  · exact attends.triger agree wf done
  · exact ⟨grown, trace.trans attends.trace,
      fun untold => kept _ (attends.entered untold) spared, attends.told⟩

def watching? (sid : Sid) (path : Str) (m : Machine) : Option Watcher :=
  (m.sm.get sid).bind fun p => (m.sm.deref p).watches[path]?

theorem Agree.of_watching (agree : Agree m) {sid : Sid} (held : m.watching? sid path = some w) :
    (path, w) ∈ m.wm ∧ w.sid = sid := by
  obtain ⟨p, live, held⟩ := Option.bind_eq_some_iff.mp held
  exact ⟨agree.entered live held, (agree.owned sid p path w live held).1⟩

theorem touch_watching {now : Time} {sid : Sid} {sm : SessionManager}
    (touched : m.sm.touch options now sid = .ok sm) (other : Sid) (path : Str) :
    watching? other path { m with sm := sm } = m.watching? other path := by
  obtain ⟨p, live, ⟨-, rfl⟩ | ⟨-, timers, rfl⟩⟩ := SessionManager.touch_cases touched
  · rfl
  · refine congrArg (Option.bind (m.sm.get other)) (funext fun q => ?_)
    exact congrArg (fun table => table[path]?)
      (SessionManager.modify_field Session.watches m.sm p (Session.setExpireTime _)
        (fun _ => rfl) q)

theorem onWatch_elsewhere (wf : m.sm.WellFormed) (req : Request) {p : SessionPtr} {path : Str}
    (live : m.sm.get req.sid = some p) (other : path ≠ req.watchBody.path) :
    (m.onWatch req).2.watching? req.sid path = m.watching? req.sid path := by
  obtain ⟨stored, sid⟩ := SessionManager.get_deref m.sm wf req.sid p live
  by_cases known : req.watchBody.path ∈ (m.sm.deref p).watches
  · simp [onWatch, live, known]
  · simp only [watching?, onWatch, live, known, if_false, sid]
    rw [show SessionManager.get (m.sm.modify p _) req.sid = some p from live]
    simp only [Option.bind_some, SessionManager.deref_modify _ p p _ stored, if_true,
      Session.bindWatch, ExtTreeMap.getElem?_insert, Std.compare_eq_iff_eq, other.symm, if_false]

theorem onWatch_watching (wf : m.sm.WellFormed) (req : Request) {p : SessionPtr}
    (live : m.sm.get req.sid = some p) :
    (m.onWatch req).2.watching? req.sid req.watchBody.path =
      some ((m.watching? req.sid req.watchBody.path).getD
        ⟨m.nextWatcher, req.watchBody.path, req.sid, req.watchBody.watch,
          req.watchBody.recursive⟩) := by
  obtain ⟨stored, sid⟩ := SessionManager.get_deref m.sm wf req.sid p live
  have before : m.watching? req.sid req.watchBody.path =
      (m.sm.deref p).watches[req.watchBody.path]? := by simp [watching?, live]
  rw [before]
  by_cases known : req.watchBody.path ∈ (m.sm.deref p).watches
  · have same : (m.onWatch req).2 = m := by simp [onWatch, live, known]
    rw [same, before, ExtTreeMap.getElem?_eq_some_getElem known]
    rfl
  · have new : (m.onWatch req).2.watching? req.sid req.watchBody.path =
        ((m.sm.modify p (Session.bindWatch ⟨m.nextWatcher, req.watchBody.path, req.sid,
          req.watchBody.watch, req.watchBody.recursive⟩)).deref p).watches[
            req.watchBody.path]? := by
      simp only [watching?, onWatch, live, known, if_false, sid]
      rw [show SessionManager.get (m.sm.modify p _) req.sid = some p from live]
      rfl
    rw [new, SessionManager.deref_modify _ p p _ stored, if_pos rfl,
      ExtTreeMap.getElem?_eq_none known]
    simp [Session.bindWatch]

end Machine

namespace Server

open Machine (Attends Posted)

variable {options : Options} {states : RaftStates} {env : Env} {ready : Ready}
  {server next after : Server}

-- The node of a read is there; that of a stat may be missing.
def Finds (options : Options) (env : Env) (req : Request) (db : Persist) : Prop :=
  match req.read, req.stat with
  | some path, _ => ∃ data, Store.read options env.proc db path = .ok data
  | none, some path =>
      (∃ node, Store.get options env.proc db path = .ok node) ∨
        ∃ status, Store.get options env.proc db path = .error status ∧ status.isNotFound = true
  | none, none => True

variable (options env) in
inductive Watches (server : Server) : Ready → Request → Prop
  | event (e : Event) (rest : List Event) (queue : server.eventch = e :: rest)
      (unregistered : e.req.register = none) (kept : e.req.needBoradcast = false)
      (unpinged : e.req.ping = false) (watch : e.req.watch.isSome = true)
      (found : Finds options env e.req server.machine.db) : Watches server .event e.req
  | command (entry : Entry) (rest : List Entry) (queue : server.cmdch = entry :: rest)
      (watch : entry.cmd.watch.isSome = true)
      (body : (∃ path, entry.cmd.body = .read path) ∨ (∃ path, entry.cmd.body = .stat path) ∨
        entry.cmd.body = .watch)
      (found : Finds options env entry.cmd server.machine.db) : Watches server .command entry.cmd

theorem handleLocal_watch {e : Event} {m : Machine} (live : (m.sm.get e.req.sid).isSome = true)
    (unpinged : e.req.ping = false) (watch : e.req.watch.isSome = true)
    (found : Finds options env e.req m.db) :
    ∃ rep, handleLocal options env e m = .ok ((m.onWatch e.req).2.reply e rep) := by
  have here : m.sm.get e.req.sid ≠ none := Option.isSome_iff_ne_none.mp live
  unfold Finds at found
  unfold handleLocal
  rw [unpinged]
  cases read : e.req.read with
  | some path =>
      simp only [read] at found
      obtain ⟨data, found⟩ := found
      simp only [handleRead, here, found, watch, if_true, if_false, Bool.false_eq_true]
      exact ⟨_, rfl⟩
  | none =>
      cases stat : e.req.stat with
      | some path =>
          simp only [read, stat] at found
          rcases found with ⟨node, found⟩ | ⟨status, found, missing⟩
          · simp only [handleStat, here, found, watch, if_true, if_false, Bool.false_eq_true]
            exact ⟨_, rfl⟩
          · simp only [handleStat, here, found, missing, watch, and_self, if_true, if_false,
              Bool.false_eq_true]
            exact ⟨_, rfl⟩
      | none =>
          simp only [watch, if_true, Bool.false_eq_true, if_false]
          exact ⟨_, rfl⟩

theorem body_read {req : Request} {path : Str} (body : req.body = .read path) :
    req.read = some path := by
  unfold Request.body at body
  split at body <;> first | cases body | split_ifs at body
  assumption

theorem body_stat {req : Request} {path : Str} (body : req.body = .stat path) :
    req.read = none ∧ req.stat = some path := by
  unfold Request.body at body
  split at body <;> first | cases body | split_ifs at body
  exact ⟨by assumption, by assumption⟩

theorem execute_watch {req : Request} {m : Machine} (state : State)
    (watch : req.watch.isSome = true)
    (body : (∃ path, req.body = .read path) ∨ (∃ path, req.body = .stat path) ∨ req.body = .watch)
    (found : Finds options env req m.db) :
    ∃ rep, m.execute options env state req = .ok (rep, (m.onWatch req).2) := by
  have asked : req.watch.isNone = false := by simpa using watch
  unfold Finds at found
  unfold Machine.execute
  rcases body with ⟨path, body⟩ | ⟨path, body⟩ | body
  · simp only [body_read body] at found
    obtain ⟨data, found⟩ := found
    simp only [body, Machine.onRead, asked, found, Bool.false_eq_true, if_false]
    exact ⟨_, rfl⟩
  · obtain ⟨read, stat⟩ := body_stat body
    simp only [read, stat] at found
    rcases found with ⟨node, found⟩ | ⟨status, found, missing⟩
    · simp only [body, Machine.onStat, asked, found, Bool.false_eq_true, if_false]
      exact ⟨_, rfl⟩
    · simp only [body, Machine.onStat, asked, found, missing, Bool.false_eq_true, if_false,
        if_true]
      exact ⟨_, rfl⟩
  · simp only [body]
    exact ⟨_, rfl⟩

theorem handleEvent_local {e : Event} {p : SessionPtr} {sm : SessionManager} {m : Machine}
    (unregistered : e.req.register = none) (kept : e.req.needBoradcast = false)
    (unpinged : e.req.ping = false) (live : server.machine.sm.get e.req.sid = some p)
    (touched : server.machine.sm.touch options (env.clock 0) e.req.sid = .ok sm)
    (handled : handleLocal options env e { server.machine with sm := sm } = .ok m) :
    handleEvent options env e server = .ok (server.onMachine m) := by
  have stays : e.req.unregister = false := by
    simp only [Request.needBoradcast, Bool.or_eq_false_iff] at kept
    exact kept.1.1.1.1
  simp only [handleEvent, unregistered, live, touchFor, unpinged, stays, and_self, touched, kept,
    reduceCtorEq, if_true, if_false, bind, Except.bind, onMachine, handled, pure, Except.pure,
    Bool.false_eq_true]

theorem Watches.turn {req : Request} {p : SessionPtr}
    (watches : Watches options env server ready req)
    (wf : server.machine.sm.WellFormed) (leads : server.state = .leader)
    (inLoop : server.inLoop = true) (live : server.machine.sm.get req.sid = some p)
    (taken : server.turn options states env ready = .ok next) :
    ∃ (m : Machine) (e : Event) (rep : Response), m.sm.WellFormed ∧ m.sm.get req.sid = some p ∧
      (∀ path, m.watching? req.sid path = server.machine.watching? req.sid path) ∧
      next.machine = (m.onWatch req).2.reply e rep := by
  simp only [Server.turn, inLoop, leads, Bool.true_eq_false, if_false] at taken
  cases watches with
  | event e rest queue unregistered kept unpinged watch found =>
      obtain ⟨sm, touched, keeps⟩ := SessionManager.touch_spec options (env.clock 0)
        server.machine.sm wf e.req.sid p live
      have there : sm.get e.req.sid = some p := by
        rw [Machine.get_of_sessions keeps.sessions]
        exact live
      obtain ⟨rep, handled⟩ : ∃ rep, handleLocal options env e { server.machine with sm := sm } =
          .ok ((Machine.onWatch e.req { server.machine with sm := sm }).2.reply e rep) :=
        handleLocal_watch (by simp [there]) unpinged watch found
      simp only [leaderLoop, queue] at taken
      cases taken.symm.trans
        (handleEvent_local unregistered kept unpinged live touched handled)
      exact ⟨{ server.machine with sm := sm }, e, rep, keeps.wellFormed, there,
        Machine.touch_watching touched e.req.sid, rfl⟩
  | command entry rest queue watch body found =>
      obtain ⟨rep, executed⟩ := execute_watch .leader watch body found
      simp only [leaderLoop, queue] at taken
      obtain ⟨other, m, ran, outcome⟩ := onCommand_ok taken
      simp only [leads] at ran
      rw [executed] at ran
      cases ran
      rcases outcome with ⟨follows, -⟩ | ⟨e, others, -, -, rfl⟩
      · exact absurd leads follows
      · exact ⟨server.machine, e, rep, wf, live, fun _ => rfl, rfl⟩

def Leads (sid : Sid) (action : Action) (server : Server) : Prop :=
  (server.state = .leader ∧ server.inLoop = true) ∧ Stays sid action server

instance (sid : Sid) (action : Action) (server : Server) : Decidable (Leads sid action server) :=
  inferInstanceAs (Decidable (_ ∧ _))

theorem act_attends {path : Str} {w : Watcher} {start : Machine} {action : Action}
    (reachable : Reachable options states server) (leads : Leads w.sid action server)
    (attends : ∃ grown, Attends path w start server.machine grown)
    (taken : server.act options states action = .ok next) :
    ∃ grown, Attends path w start next.machine grown := by
  obtain ⟨r, stands, agree⟩ := reachable_agree reachable
  cases act_works stands leads.2.1 taken with
  | moves moves =>
      rw [leads.1.1] at moves
      refine (moves.invariant
        (fun m => Machine.Agree m ∧ ∃ grown, Attends path w start m grown)
        (fun one two wf holds move => ⟨holds.1.move wf move, ?_⟩)
        stands.wellFormed ⟨agree, attends⟩).2.2
      obtain ⟨grown, attends⟩ := holds.2
      exact attends.move holds.1 wf leads.2.spares move
  | entered env ready sm is leader first reset moves =>
      rw [leads.1.2] at first
      cases first

theorem run_attends {path : Str} {w : Watcher} {actions : List Action}
    (reachable : Reachable options states server)
    (leads : Runs.Meets (act options states) (Leads w.sid) server actions)
    (reached : Runs.run (act options states) server actions = .ok after)
    (entered : (path, w) ∈ server.machine.wm) :
    ∃ grown, Attends path w server.machine after.machine grown :=
  (Runs.run_invariant (act options states) (Leads w.sid)
    (fun other => Reachable options states other ∧
      ∃ grown, Attends path w server.machine other.machine grown)
    (fun _ _ _ holds leads taken =>
      ⟨holds.1.act taken, act_attends holds.1 leads holds.2 taken⟩)
    server after actions
    ⟨reachable, [], by simp, fun _ => entered, by simp⟩ leads reached).2

def Heard (sid : Sid) (path : Str) (e : Watch.Event) (later : List Trace) : Prop :=
  ∃ w, (w, e) ∈ Trace.block later ∧ w.sid = sid ∧ w.path = path

theorem Watches.entered {req : Request} {p : SessionPtr}
    (watches : Watches options env server ready req)
    (reachable : Reachable options states server) (leads : server.state = .leader)
    (inLoop : server.inLoop = true) (live : server.machine.sm.get req.sid = some p)
    (taken : server.turn options states env ready = .ok next) :
    ∃ w, (req.watchBody.path, w) ∈ next.machine.wm ∧ w.sid = req.sid ∧
      (server.machine.watching? req.sid req.watchBody.path = some w ∨
        server.machine.watching? req.sid req.watchBody.path = none ∧
          w.mask = req.watchBody.watch ∧ w.recursive = req.watchBody.recursive) := by
  obtain ⟨r, stands, -⟩ := reachable_agree reachable
  have again : Reachable options states next :=
    reachable.act (show server.act options states (.turn env ready) = .ok next from taken)
  obtain ⟨-, -, agree⟩ := reachable_agree again
  obtain ⟨m, e, rep, wf, there, same, machine⟩ :=
    watches.turn stands.wellFormed leads inLoop live taken
  have held := Machine.onWatch_watching wf req there
  rw [show (m.onWatch req).2.watching? req.sid req.watchBody.path =
    next.machine.watching? req.sid req.watchBody.path by rw [machine]; rfl] at held
  obtain ⟨entered, sid⟩ := agree.of_watching held
  refine ⟨_, entered, sid, ?_⟩
  rw [← same]
  cases m.watching? req.sid req.watchBody.path with
  | none => exact .inr ⟨rfl, rfl, rfl⟩
  | some w => exact .inl rfl

theorem watch_honoured {req : Request} {p : SessionPtr} {actions : List Action}
    {before later : List Trace} {e : Watch.Event} (reachable : Reachable options states server)
    (leads : server.state = .leader) (inLoop : server.inLoop = true)
    (live : server.machine.sm.get req.sid = some p) (watches : Watches options env server ready req)
    (taken : server.turn options states env ready = .ok next)
    (stays : Runs.Meets (act options states) (Leads req.sid) next actions)
    (reached : Runs.run (act options states) next actions = .ok after)
    (raised : after.machine.trace = next.machine.trace ++ (before ++ .triger e :: later))
    (untold : ∀ t ∈ before, t.tells req.sid req.watchBody.path = false)
    (wanted : Wants req.watchBody.path req.watchBody.watch req.watchBody.recursive e) :
    (Heard req.sid req.watchBody.path e later ↔
      ∀ w, server.machine.watching? req.sid req.watchBody.path = some w →
        Wants req.watchBody.path w.mask w.recursive e) ∧
    (Heard req.sid req.watchBody.path e later →
      ∃ replies, after.machine.replies = next.machine.replies ++ replies ∧
        (req.watchBody.path, e) ∈ answered req.sid replies ++ (after.machine.owed req.sid).2) := by
  obtain ⟨w, entered, sid, source⟩ := watches.entered reachable leads inLoop live taken
  have again : Reachable options states next :=
    reachable.act (show server.act options states (.turn env ready) = .ok next from taken)
  rw [← sid] at stays untold ⊢
  obtain ⟨grown, attends⟩ := run_attends again stays reached entered
  have split : grown = before ++ .triger e :: later :=
    List.append_cancel_left (attends.trace.symm.trans raised)
  refine ⟨(attends.told before e later split untold).trans ?_, ?_⟩
  · rw [sid]
    rcases source with held | ⟨none, mask, deep⟩
    · simp [held]
    · simp only [none, mask, deep, wanted, reduceCtorEq, false_implies, implies_true]
  · rintro ⟨other, listed, owner, path⟩
    have kept : Runs.Meets (act options states) (Stays w.sid) next actions :=
      Runs.meets_invariant _ (Leads w.sid) _ (fun _ => True) (fun _ _ _ _ _ _ => trivial)
        (fun _ _ _ leads => leads.2) next actions trivial stays
    obtain ⟨-, replies, trace, sent, traced, balance⟩ :=
      run_accounted again w.sid actions kept reached
    refine ⟨replies, sent, balance.symm.subset (List.mem_append_right _ ?_)⟩
    have same : trace = before ++ .triger e :: later :=
      List.append_cancel_left (traced.symm.trans raised)
    refine List.mem_filterMap.mpr ⟨.notify other e, ?_, by simp [Trace.notice?, owner, path]⟩
    rw [same]
    exact List.mem_append_right _ (List.mem_cons_of_mem _ (Trace.mem_of_block listed))

def creation : List Action :=
  [.receive (.creating 1 (text "/a") 0), .turn (.still 0) .event, .deliver,
    .turn (.still 0) .command]

def created : Watch.Event := ⟨text "/a", Watch.kCreate⟩

theorem asks_watching {id : Nat} {watch : WatchRequest}
    (queue : server.eventch = [⟨id, .watching 1 watch⟩]) :
    Watches options env server .event (.watching 1 watch) :=
  .event ⟨id, .watching 1 watch⟩ [] queue rfl rfl rfl rfl trivial

theorem watch_honoured_created : ∃ (server next after : Server) (later : List Trace),
    Reachable Options.standard .sample server ∧
      server.turn Options.standard .sample (.still 0) .event = .ok next ∧
      Runs.run (act Options.standard .sample) next creation = .ok after ∧
      after.machine.trace = next.machine.trace ++ ([] ++ .triger created :: later) ∧
      Heard 1 (text "/a") created later := by
  obtain ⟨server, reachable, ⟨leads, inLoop, live, queue, free⟩, found⟩ := exists_reachable
    Options.standard .sample (.still 0)
    (joined ++ [.receive (.watching 1 ⟨text "/a", Watch.kCreate, false⟩)])
    (fun server => (server.state = .leader ∧ server.inLoop = true ∧
        server.machine.sm.get 1 = some 1 ∧
        server.eventch = [⟨1, .watching 1 ⟨text "/a", Watch.kCreate, false⟩⟩] ∧
        server.machine.watching? 1 (text "/a") = none) ∧
      Runs.passes (server.turn Options.standard .sample (.still 0) .event) (fun next =>
        decide (Runs.Meets (act Options.standard .sample) (Leads 1) next creation) &&
        Runs.passes (Runs.run (act Options.standard .sample) next creation) fun after =>
          decide (after.machine.trace = next.machine.trace ++ ([] ++ .triger created ::
            after.machine.trace.drop (next.machine.trace.length + 1)))) = true)
    (by decide +kernel)
  simp only [Runs.passes_iff, Bool.and_eq_true, decide_eq_true_eq] at found
  obtain ⟨next, taken, stays, after, reached, raised⟩ := found
  have known : server.machine.sm.get
      (Request.watching 1 ⟨text "/a", Watch.kCreate, false⟩).sid = some 1 := live
  have honoured := watch_honoured reachable leads inLoop known (asks_watching queue) taken stays
    reached raised (by simp) ⟨by decide, .inl rfl⟩
  exact ⟨server, next, after, _, reachable, taken, reached, raised,
    honoured.1.mpr fun w held => nomatch free.symm.trans held⟩

-- The session watches the path for its deletion when it asks for its creation: the answer is
-- OK, and nobody hears of the new node.
theorem watch_honoured_masked : ∃ (server next after : Server) (later : List Trace),
    Reachable Options.standard .sample server ∧ server.state = .leader ∧ server.inLoop = true ∧
      server.machine.sm.get 1 = some 1 ∧
      Watches Options.standard (.still 0) server .event
        (.watching 1 ⟨text "/a", Watch.kCreate, false⟩) ∧
      server.turn Options.standard .sample (.still 0) .event = .ok next ∧
      (next.machine.replies.getLast?.map fun reply => reply.2.err) = some none ∧
      Runs.Meets (act Options.standard .sample) (Leads 1) next creation ∧
      Runs.run (act Options.standard .sample) next creation = .ok after ∧
      after.machine.trace = next.machine.trace ++ ([] ++ .triger created :: later) ∧
      Wants (text "/a") Watch.kCreate false created ∧
      answered 1 after.machine.replies = [] ∧ after.machine.owed 1 = (none, []) := by
  obtain ⟨server, reachable, ⟨leads, inLoop, live, queue⟩, found⟩ := exists_reachable
    Options.standard .sample (.still 0)
    (watched ⟨text "/a", Watch.kDelete, false⟩ ++
      [.receive (.watching 1 ⟨text "/a", Watch.kCreate, false⟩)])
    (fun server => (server.state = .leader ∧ server.inLoop = true ∧
        server.machine.sm.get 1 = some 1 ∧
        server.eventch = [⟨2, .watching 1 ⟨text "/a", Watch.kCreate, false⟩⟩]) ∧
      Runs.passes (server.turn Options.standard .sample (.still 0) .event) (fun next =>
        decide ((next.machine.replies.getLast?.map fun reply => reply.2.err) = some none ∧
          Runs.Meets (act Options.standard .sample) (Leads 1) next creation) &&
        Runs.passes (Runs.run (act Options.standard .sample) next creation) fun after =>
          decide (after.machine.trace = next.machine.trace ++ ([] ++ .triger created ::
            after.machine.trace.drop (next.machine.trace.length + 1)) ∧
            answered 1 after.machine.replies = [] ∧ after.machine.owed 1 = (none, []))) = true)
    (by decide +kernel)
  simp only [Runs.passes_iff, Bool.and_eq_true, decide_eq_true_eq] at found
  obtain ⟨next, taken, ⟨accepted, stays⟩, after, reached, raised, unsent, nothing⟩ := found
  exact ⟨server, next, after, _, reachable, leads, inLoop, live, asks_watching queue, taken,
    accepted, stays, reached, raised, ⟨by decide, .inl rfl⟩, unsent, nothing⟩

end Server

end Pyxis
