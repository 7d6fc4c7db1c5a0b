import Pyxis.Replica.Replica
import Pyxis.Server.Quiet
import Pyxis.Store.Keys

set_option autoImplicit false

open Std (ExtTreeMap ExtTreeSet)

namespace Pyxis.Machine

open SessionManager (WellFormed Keeps)

def view (m : Machine) : Replica where
  tree := Store.treeOf m.db
  records := Store.recordsOf m.db
  owned sid := (m.sm.get sid).map fun p => (m.sm.deref p).nodeSet

theorem Quiet.view {before after : Machine} (quiet : Quiet before after) :
    after.view = before.view := by
  have nodeSet (p : SessionPtr) : (after.sm.deref p).nodeSet = (before.sm.deref p).nodeSet :=
    congrArg (·.2.2) (quiet.sm.deref p)
  simp only [Machine.view, quiet.db, SessionManager.get, quiet.sm.sessions, nodeSet]

/-- What commands leave alone: the commit index, and the sessions that are being closed, of which
they may remove some. -/
structure Frame where
  commit : Option Value
  closing : Sid → Prop

variable (options : Options)

/-- A machine in good order stands for a coherent replica. -/
structure Represents (frame : Frame) (m : Machine) (r : Replica) : Prop where
  view : m.view = r
  sm : m.sm.WellFormed
  keyed : Store.Keyed m.db
  commit : Store.commitOf m.db = frame.commit
  active : ∀ sid p, m.sm.get sid = some p → ¬ frame.closing sid → (m.sm.deref p).active = true
  coherent : r.Coherent options

variable {options} {frame : Frame}

namespace Represents

variable {m : Machine} {r : Replica} (represents : Represents options frame m r)

include represents

theorem quiet {after : Machine} (quiet : Quiet m after) : Represents options frame after r := by
  refine ⟨quiet.view.trans represents.view, quiet.sm.wellFormed,
    by rw [quiet.db]; exact represents.keyed, by rw [quiet.db]; exact represents.commit,
    fun sid p live other => ?_, represents.coherent⟩
  rw [SessionManager.get, quiet.sm.sessions] at live
  have same : (after.sm.deref p).active = (m.sm.deref p).active :=
    congrArg (·.2.1) (quiet.sm.deref p)
  rw [same]
  exact represents.active sid p live other

theorem tree : Store.treeOf m.db = r.tree := congrArg Replica.tree represents.view

theorem records : Store.recordsOf m.db = r.records := congrArg Replica.records represents.view

theorem owned (sid : Sid) : r.owned sid = (m.sm.get sid).map fun p => (m.sm.deref p).nodeSet :=
  (congrFun (congrArg Replica.owned represents.view) sid).symm

theorem get_none (sid : Sid) : m.sm.get sid = none ↔ r.owned sid = none := by
  rw [represents.owned sid, Option.map_eq_none_iff]

theorem store {abstract : Option Tree} {result : Status × Persist}
    (refined : Store.Refines m.db abstract result)
    (closed : (abstract.getD r.tree).Closed options) :
    Represents options frame { m with db := result.2 } { r with tree := abstract.getD r.tree } := by
  refine ⟨?_, represents.sm, represents.keyed.refines refined,
    (Store.commitOf_refines refined).trans represents.commit, represents.active,
    represents.coherent.onTree _ closed⟩
  have view := represents.view
  subst view
  exact Replica.ext refined.tree (Store.recordsOf_refines refined) rfl

end Represents

variable (env : Env) (state : State)

def Deleted (options : Options) (frame : Frame) (m : Machine) (r : Replica)
    (result : Status × Machine) (abstract : Option Tree) : Prop :=
  -- No session comes or goes.
  result.1.isOk = abstract.isSome ∧
    Represents options frame result.2 { r with tree := abstract.getD r.tree } ∧
    result.2.sm.sessions = m.sm.sessions

theorem deleteNode_sim {m : Machine} {r : Replica} (represents : Represents options frame m r)
    (path : Str) :
    Runs.Sim (Deleted options frame m r) (deleteNode options env state path m)
      (r.tree.delete options path) := by
  have refined := Store.delete_refines options env.proc m.db path
  rw [represents.tree] at refined
  unfold deleteNode
  generalize Store.delete options env.proc m.db path = result at refined ⊢
  generalize abstract : r.tree.delete options path = outcome at refined ⊢
  cases refined with
  | error fault => exact .error fault
  | @ok result outcome accepts =>
      obtain ⟨refined, accepted⟩ := accepts
      obtain ⟨status, db⟩ := result
      simp only [bind, Except.bind]
      cases outcome with
      | none =>
          have refused : status.isOk = false := accepted
          rw [refused]
          exact .ok ⟨refused, represents.store refined represents.coherent.closed, rfl⟩
      | some tree =>
          have done : status.isOk = true := accepted
          obtain ⟨parent, son, -, -, -, split, -, -, valid, -⟩ :=
            Tree.delete_some options r.tree tree path abstract
          have stored := represents.store refined
            (Tree.closed_delete options _ tree represents.coherent.closed path abstract)
          obtain ⟨after, told, quiet⟩ := trigerBoth_quiet state path Watch.kDelete
            { m with db := db } represents.sm (isValidPath_head path valid) parent son split
          rw [done, if_pos rfl, told]
          exact .ok ⟨rfl, stored.quiet quiet, quiet.sm.sessions⟩

theorem deleteNode_refused {m : Machine} {r : Replica} (represents : Represents options frame m r)
    (path : Str) (node : Node) (here : r.tree path = some node)
    (abstract : r.tree.delete options path = .ok none) :
    ∃ message, deleteNode options env state path m = .ok (Status.invalidArgument message, m) := by
  -- A path that holds a node cannot be refused with NotFound: it has children, or is the root.
  obtain ⟨valid, outside⟩ := represents.coherent.closed.valid path node here
  have found := (Store.get_ok_iff options env.proc m.db path node outside).mpr
    ⟨valid, by rw [represents.tree]; exact here⟩
  cases split : splitPath path with
  | error status =>
      have message := splitPath_error path status split
      exact ⟨path, by
        simp [deleteNode, Store.delete, outside, split, message, bind,
          Except.bind, pure, Except.pure]⟩
  | ok parts =>
      obtain ⟨parentName, sonName⟩ := parts
      obtain ⟨parent, above, -⟩ := represents.coherent.closed.above here split
      have children : node.children ≠ [] := by
        intro childless
        simp only [Tree.delete, split, here, above, valid, outside, childless, and_self,
          if_true] at abstract
        cases listed : removeChild parent sonName <;> simp [listed] at abstract
      exact ⟨text "children not empty", by
        simp [deleteNode, Store.delete, outside, split, found, children, bind, Except.bind, pure,
          Except.pure]⟩

def Closing (options : Options) (frame : Frame) (m current : Machine) (r : Replica) : Prop :=
  Represents options frame current r ∧ current.sm.sessions = m.sm.sessions

theorem destroyNode_sim {m current : Machine} {r : Replica}
    (closing : Closing options frame m current r) (sid : Sid) (path : Str)
    (valid : isValidPath path = true) (outside : options.underProc path = false) :
    Runs.Sim (Closing options frame m) (destroyNode options env state sid path current)
      (r.closeNode options sid path) := by
  obtain ⟨represents, sessions⟩ := closing
  cases here : r.tree path with
  | none =>
      have missing := Store.get_missing options env.proc current.db path represents.keyed.nodes
        valid outside (by rw [represents.tree]; exact here)
      simp only [destroyNode, missing, Replica.closeNode, here, Status.isNotFound_notFound, if_true,
        reduceCtorEq, if_false]
      exact .ok ⟨represents, sessions⟩
  | some node =>
      have found := (Store.get_ok_iff options env.proc current.db path node outside).mpr
        ⟨valid, by rw [represents.tree]; exact here⟩
      simp only [destroyNode, found, Replica.closeNode, here, Option.some.injEq]
      by_cases own : node.sid = sid
      · simp only [own, if_true]
        obtain ⟨outcome, abstract⟩ := Tree.delete_ok options r.tree represents.coherent.closed path
        have sim := deleteNode_sim env state represents path
        rw [abstract] at sim ⊢
        cases outcome with
        | none =>
            obtain ⟨message, refused⟩ := deleteNode_refused env state represents path node here
              abstract
            simp only [refused, bind, Except.bind]
            exact .error _
        | some tree =>
            obtain ⟨result, deleted, accepted, after, kept⟩ := sim.exists_ok
            have done : result.1.isOk = true := accepted
            simp only [deleted, bind, Except.bind, done, Bool.true_or, if_true]
            exact .ok ⟨after, kept.trans sessions⟩
      · simp only [own, if_false]
        exact .ok ⟨represents, sessions⟩

theorem Represents.free {m : Machine} {r : Replica} (represents : Represents options frame m r)
    (p : SessionPtr) (gone : ∀ sid, m.sm.get sid ≠ some p) :
    Represents options frame { m with sm := { m.sm with heap := m.sm.heap.erase p } } r := by
  refine ⟨?_, SessionManager.wellFormed_free m.sm represents.sm p gone, represents.keyed,
    represents.commit, fun sid q live other => ?_, represents.coherent⟩
  · rw [← represents.view]
    refine Replica.ext rfl rfl (funext fun sid => ?_)
    change Option.map (fun q => (SessionManager.deref _ q).nodeSet) (m.sm.get sid) = _
    cases live : m.sm.get sid with
    | none => simp [Machine.view, live]
    | some q => simp [Machine.view, live, SessionManager.free_deref gone live]
  · rw [SessionManager.free_deref gone live]
    exact represents.active sid q live other

theorem destroySession_sim {m : Machine} {r : Replica} (represents : Represents options frame m r)
    (p : SessionPtr) (gone : ∀ sid, m.sm.get sid ≠ some p)
    (valid : ∀ path ∈ (m.sm.deref p).nodeSet,
      isValidPath path = true ∧ options.underProc path = false) :
    Runs.Sim (Represents options frame) (destroySession options env state p m)
      (Runs.run (Replica.closeNode options (m.sm.deref p).sid) r
        (m.sm.deref p).nodeSet.toList) := by
  unfold destroySession
  dsimp only
  generalize List.foldl _ m.wm _ = wm
  -- The loop runs on a machine whose sessions stay as they are, so `p` is free at its end too.
  have loop := Runs.Sim.run (Closing options frame m)
    (destroyNode options env state (m.sm.deref p).sid)
    (Replica.closeNode options (m.sm.deref p).sid) (m.sm.deref p).nodeSet.toList
    (fun path member current abstract closing =>
      have checked := valid path (ExtTreeSet.mem_toList.mp member)
      destroyNode_sim env state closing _ path checked.1 checked.2)
    { m with wm := wm } r
    ⟨⟨represents.view, represents.sm, represents.keyed, represents.commit, represents.active,
      represents.coherent⟩, rfl⟩
  generalize Runs.run (destroyNode options env state (m.sm.deref p).sid) _ _ = result at loop ⊢
  generalize Runs.run (Replica.closeNode options (m.sm.deref p).sid) r _ = outcome at loop ⊢
  cases loop with
  | error fault => exact .error fault
  | ok closing =>
      obtain ⟨after, sessions⟩ := closing
      simp only [bind, Except.bind]
      have still : ∀ sid, SessionManager.get _ sid ≠ some p := fun sid => by
        rw [SessionManager.get, sessions]
        exact gone sid
      refine .ok ?_
      split
      · exact after.free p still
      · exact (after.quiet ((reply_told _ _ _).quiet after.sm)).free p still

theorem owned_modify (m : Machine) (wf : m.sm.WellFormed) (sid : Sid) (p : SessionPtr)
    (live : m.sm.get sid = some p) (f : Session → Session)
    (g : ExtTreeSet Str → ExtTreeSet Str) (nodeSet : ∀ s, (f s).nodeSet = g s.nodeSet) :
    view { m with sm := m.sm.modify p f } = (view m).onOwned sid g := by
  refine Replica.ext rfl rfl (funext fun other => ?_)
  obtain ⟨session, stored, -⟩ := wf.stored sid p live
  change Option.map (fun q => ((m.sm.modify p f).deref q).nodeSet) (m.sm.get other) = _
  by_cases same : other = sid
  · subst same
    simp [Replica.onOwned, view, live, SessionManager.deref, SessionManager.heap_modify,
      stored, nodeSet]
  · simp only [Replica.onOwned, view, Function.update_of_ne same]
    cases there : m.sm.get other with
    | none => rfl
    | some q =>
        have different : p ≠ q := by
          rintro rfl
          exact same (SessionManager.sessions_inj m.sm wf _ _ p there live)
        simp [SessionManager.deref, SessionManager.heap_modify, different]

theorem Represents.modify {m : Machine} {r : Replica} (represents : Represents options frame m r)
    (sid : Sid) (p : SessionPtr) (live : m.sm.get sid = some p) (f : Session → Session)
    (g : ExtTreeSet Str → ExtTreeSet Str) (nodeSet : ∀ s, (f s).nodeSet = g s.nodeSet)
    (sameSid : ∀ s, (f s).sid = s.sid) (expire : ∀ s, (f s).expire = s.expire)
    (active : ∀ s, (f s).active = s.active) (coherent : (r.onOwned sid g).Coherent options) :
    Represents options frame { m with sm := m.sm.modify p f } (r.onOwned sid g) := by
  refine ⟨?_, SessionManager.modify_wellFormed m.sm represents.sm p f sameSid expire,
    represents.keyed, represents.commit, fun other q there awake => ?_, coherent⟩
  · rw [owned_modify m represents.sm sid p live f g nodeSet, represents.view]
  · have before := represents.active other q there awake
    have stored := (SessionManager.get_deref m.sm represents.sm other q there).1
    rw [SessionManager.deref, SessionManager.heap_modify, stored]
    split_ifs
    · exact (active _).trans before
    · exact before

theorem onOwned_dead (r : Replica) (sid : Sid) (g : ExtTreeSet Str → ExtTreeSet Str)
    (dead : r.owned sid = none) : r.onOwned sid g = r := by
  refine Replica.ext rfl rfl (funext fun other => ?_)
  by_cases same : other = sid
  · simp [Replica.onOwned, same, dead]
  · simp [Replica.onOwned, Function.update_of_ne same]

theorem addSession_represents {m : Machine} {r : Replica}
    (represents : Represents options frame m r)
    (now : Time) (p : SessionPtr) (fresh : m.sm.heap[p]? = none) (sid : Sid) (timeout : Int) :
    ∃ after, addSession options now p (Session.new sid timeout) m = .ok after ∧
      Represents options frame after (r.register sid timeout) ∧
      after.sm.sessions = m.sm.sessions.insertIfNew sid p ∧ (after.sm.deref p).nodeSet = ∅ := by
  obtain ⟨sm, added, wf, sessions, heap⟩ := SessionManager.add_spec options now m.sm represents.sm p
    fresh (Session.new sid timeout)
  have own : (sm.deref p).standing = (Session.new sid timeout).standing := by
    have here := heap p
    rw [if_pos rfl] at here
    obtain ⟨session, stored, standing⟩ := Option.map_eq_some_iff.mp here
    simp only [SessionManager.deref, stored, Option.getD_some]
    exact standing
  -- The fresh address belongs to no session that was live before.
  have old (other : Sid) (q : SessionPtr) (live : m.sm.get other = some q) :
      (sm.deref q).standing = (m.sm.deref q).standing := by
    obtain ⟨session, stored, -⟩ := represents.sm.stored other q live
    have different : p ≠ q := by
      rintro rfl
      rw [fresh] at stored
      cases stored
    have same := heap q
    rw [if_neg different] at same
    exact SessionManager.deref_of_standing q same
  have get (other : Sid) :
      sm.get other = (m.sm.get other).or (if other = sid then some p else none) := by
    rw [SessionManager.get, sessions]
    exact SessionManager.inserted_get m.sm p (Session.new sid timeout) other
  refine ⟨_, by rw [addSession, added]; rfl, ⟨?_, wf, represents.keyed.addSession _,
    (Store.commitOf_addSession _ _).trans represents.commit, fun other q live awake => ?_,
    represents.coherent.register sid timeout⟩, sessions, congrArg (·.2.2) own⟩
  · have tree := Store.treeOf_addSession m.db represents.keyed (Session.new sid timeout).toProtobuf
    have records := Store.recordsOf_addSession m.db (Session.new sid timeout).toProtobuf
    rw [represents.tree] at tree
    rw [represents.records] at records
    refine Replica.ext tree records (funext fun other => ?_)
    have ownPaths : (sm.deref p).nodeSet = ∅ := congrArg (·.2.2) own
    simp only [view, get other, Replica.register]
    cases live : m.sm.get other with
    | none =>
        have dead := (represents.get_none other).mp live
        by_cases same : other = sid
        · subst same
          simp [dead, ownPaths]
        · simp [same, dead]
    | some q =>
        have owned := represents.owned other
        have paths : (sm.deref q).nodeSet = (m.sm.deref q).nodeSet :=
          congrArg (·.2.2) (old other q live)
        rw [live, Option.map_some] at owned
        by_cases same : other = sid
        · subst same
          simp [owned, paths]
        · simp [Function.update_of_ne same, owned, paths]
  · have there : sm.get other = some q := live
    rw [get other] at there
    cases before : m.sm.get other with
    | none =>
        rw [before, Option.none_or] at there
        split_ifs at there
        cases there
        exact congrArg (·.2.1) own
    | some q' =>
        rw [before, Option.some_or] at there
        cases there
        have same : (sm.deref q).active = (m.sm.deref q).active :=
          congrArg (·.2.1) (old other q before)
        exact same.trans (represents.active other q before awake)

theorem onRegister_sim {m : Machine} {r : Replica} (represents : Represents options frame m r)
    (req : Request) (timeout : Int) :
    ∃ after, onRegister options env state req timeout m = .ok (Status.ok, req.sid, after) ∧
      Represents options frame after (r.register req.sid timeout) := by
  obtain ⟨added, done, registered, sessions, own⟩ := addSession_represents represents (env.clock 0)
    (env.alloc m.sm) (env.alloc_fresh m.sm) req.sid timeout
  have released : ∃ after, release options env state (env.alloc m.sm) added = .ok after ∧
      Represents options frame after (r.register req.sid timeout) := by
    unfold release
    split
    · exact ⟨added, rfl, registered⟩
    next free =>
      -- The sid was live already: the new session is held by nobody and owns no path.
      have gone : ∀ sid, added.sm.get sid ≠ some (env.alloc m.sm) := fun sid live =>
        free ((SessionManager.referenced_iff added.sm registered.sm _).mpr ⟨sid, live⟩)
      have sim := destroySession_sim env state registered (env.alloc m.sm) gone (by simp [own])
      rw [own] at sim
      exact sim.exists_ok
  obtain ⟨after, freed, final⟩ := released
  exact ⟨after, by simp [onRegister, done, freed, bind, Except.bind, pure, Except.pure], final⟩

theorem removeSession_represents {m : Machine} {r : Replica}
    (represents : Represents options frame m r)
    (sid : Sid) (p : SessionPtr) (live : m.sm.get sid = some p) :
    ∃ after, removeSession sid { m with sm := m.sm.modify p Session.close } = .ok after ∧
      Represents options frame after (r.forget sid) ∧ after.sm.sessions = m.sm.sessions.erase sid ∧
      after.sm.deref p = (m.sm.deref p).close := by
  have closedWf := SessionManager.modify_wellFormed m.sm represents.sm p Session.close
    (fun _ => rfl) (fun _ => rfl)
  obtain ⟨stored, -⟩ := SessionManager.get_deref m.sm represents.sm sid p live
  have closed : (m.sm.modify p Session.close).deref p = (m.sm.deref p).close := by
    rw [SessionManager.deref, SessionManager.heap_modify, if_pos rfl, stored]
    rfl
  obtain ⟨sm, removed, sessions, heap, wf⟩ := SessionManager.remove_spec
    (m.sm.modify p Session.close) closedWf sid p live (by rw [closed]; rfl)
  have get (other : Sid) : sm.get other = if sid = other then none else m.sm.get other := by
    simp only [SessionManager.get, sessions, ExtTreeMap.getElem?_erase, Std.compare_eq_iff_eq]
    rfl
  have old (other : Sid) (q : SessionPtr) (apart : sid ≠ other) (there : m.sm.get other = some q) :
      sm.deref q = m.sm.deref q := by
    have different : p ≠ q := by
      rintro rfl
      exact apart (SessionManager.sessions_inj m.sm represents.sm _ _ p live there)
    simp [SessionManager.deref, heap, SessionManager.heap_modify, different]
  refine ⟨_, by rw [removeSession, removed]; rfl, ⟨?_, wf, represents.keyed.removeSession sid,
    (Store.commitOf_removeSession _ _).trans represents.commit, fun other q there awake => ?_,
    represents.coherent.forget sid⟩, sessions,
    by rw [← closed]; simp only [SessionManager.deref, heap]⟩
  · have tree := Store.treeOf_removeSession m.db represents.keyed sid
    have records := Store.recordsOf_removeSession m.db sid
    rw [represents.tree] at tree
    rw [represents.records] at records
    refine Replica.ext tree records (funext fun other => ?_)
    simp only [view, Replica.forget]
    rw [get other]
    by_cases same : other = sid
    · simp [same]
    · rw [if_neg (Ne.symm same), Function.update_of_ne same, represents.owned other]
      cases there : m.sm.get other with
      | none => rfl
      | some q => simp [old other q (Ne.symm same) there]
  · have left : sm.get other = some q := there
    rw [get other] at left
    split_ifs at left with same
    have kept : (sm.deref q).active = (m.sm.deref q).active := by rw [old other q same left]
    exact kept.trans (represents.active other q left awake)

theorem onUnRegister_sim {m : Machine} {r : Replica} (represents : Represents options frame m r)
    (req : Request) :
    Runs.Sim (fun result => Represents options frame result.2)
      (onUnRegister options env state req m) (r.close options req.sid) := by
  cases live : m.sm.get req.sid with
  | none =>
      have dead := (represents.get_none req.sid).mp live
      simp only [onUnRegister, live, Replica.close, dead]
      exact .ok represents
  | some p =>
      have paths : r.owned req.sid = some (m.sm.deref p).nodeSet := by
        rw [represents.owned, live]
        rfl
      have sid := (SessionManager.get_deref m.sm represents.sm req.sid p live).2
      obtain ⟨removed, done, forgotten, sessions, object⟩ :=
        removeSession_represents represents req.sid p live
      -- `sessions_` held the last reference, so `~Session` runs as `s` goes out of scope.
      have gone : ∀ other, removed.sm.get other ≠ some p := by
        intro other there
        simp only [SessionManager.get, sessions, ExtTreeMap.getElem?_erase,
          Std.compare_eq_iff_eq] at there
        split_ifs at there with same
        exact same (SessionManager.sessions_inj m.sm represents.sm _ _ p live there)
      have free : removed.sm.referenced p = false := by
        rw [Bool.eq_false_iff]
        intro held
        obtain ⟨other, there⟩ := (SessionManager.referenced_iff removed.sm forgotten.sm p).mp held
        exact gone other there
      have destroyed := destroySession_sim env state forgotten p gone
        (by rw [object]; exact represents.coherent.valid req.sid _ paths)
      simp only [onUnRegister, live, sid, done, Replica.close, paths, bind, Except.bind, release,
        free, Bool.false_eq_true, if_false]
      rw [object] at destroyed
      simp only [Session.close, sid] at destroyed
      generalize destroySession options env state p removed = result at destroyed ⊢
      generalize Runs.run (Replica.closeNode options req.sid) _ _ = outcome at destroyed ⊢
      cases destroyed with
      | error fault => exact .error fault
      | ok holds => exact .ok holds

theorem onCreate_sim {m : Machine} {r : Replica} (represents : Represents options frame m r)
    (req : Request) (create : CreateRequest) :
    ∃ status after, onCreate options env state req create m = .ok (status, after) ∧
      Represents options frame after (r.create options req.sid create) := by
  unfold onCreate Replica.create
  simp only [← represents.get_none]
  split
  · exact ⟨_, _, rfl, represents⟩
  next ready =>
    have refined := Store.create_refines options env.proc m.db create.path create.data create.flags
      req.sid
    rw [represents.tree] at refined
    generalize Store.create options env.proc m.db create.path create.data create.flags req.sid =
      result at refined ⊢
    obtain ⟨refined, accepted⟩ := refined
    obtain ⟨status, db⟩ := result
    cases created : r.tree.create options create.path create.data create.flags req.sid with
    | none =>
        rw [created] at refined accepted
        have refused : status.isOk = false := accepted
        simp only [refused, Bool.false_eq_true, if_false]
        exact ⟨_, _, rfl, represents.store refined represents.coherent.closed⟩
    | some tree =>
        rw [created] at refined accepted
        have done : status.isOk = true := accepted
        obtain ⟨parent, son, -, split, -, valid, -⟩ := Tree.create_some options _ _ _ _ _ _ created
        have stored := represents.store refined
          (Tree.closed_create options r.tree tree represents.coherent.closed _ _ _ _ created)
        have told (bound : Machine) (wf : bound.sm.WellFormed) := trigerBoth_quiet state create.path
          Watch.kCreate bound wf (isValidPath_head _ valid) parent son split
        simp only [done, if_true]
        by_cases kind : isEphemeral create.flags = true
        · simp only [kind, if_true, and_true] at ready ⊢
          obtain ⟨p, live⟩ := Option.ne_none_iff_exists'.mp ready
          have coherent := represents.coherent.create req.sid create
          have alive : r.owned req.sid ≠ none := fun dead =>
            ready ((represents.get_none req.sid).mpr dead)
          simp only [Replica.create, alive, false_and, if_false, created, kind, if_true] at coherent
          have bound := stored.modify req.sid p live (Session.bindNode create.path)
            (·.insert create.path) (fun _ => rfl) (fun _ => rfl) (fun _ => rfl)
            (fun _ => rfl) coherent
          obtain ⟨after, sent, quiet⟩ := told _ bound.sm
          simp only [live, bind, Except.bind, sent]
          exact ⟨status, after, rfl, bound.quiet quiet⟩
        · simp only [kind, Bool.false_eq_true, if_false]
          obtain ⟨after, sent, quiet⟩ := told _ stored.sm
          simp only [bind, Except.bind, sent]
          exact ⟨status, after, rfl, stored.quiet quiet⟩

theorem onDelete_sim {m : Machine} {r : Replica} (represents : Represents options frame m r)
    (req : Request) (path : Str) :
    Runs.Sim (fun result => Represents options frame result.2)
      (onDelete options env state req path m)
      (r.delete options req.sid path) := by
  unfold onDelete Replica.delete
  cases found : Store.get options env.proc m.db path with
  | error status =>
      -- No lookup outside the proc root fails on a stored path, so there is nothing to delete.
      have abstract : r.tree.delete options path = .ok none := by
        obtain ⟨outcome, deleted⟩ := Tree.delete_ok options r.tree represents.coherent.closed path
        cases outcome with
        | none => exact deleted
        | some tree =>
            obtain ⟨-, -, son, -, -, -, here, -, valid, outside, -⟩ :=
              Tree.delete_some options r.tree tree path deleted
            have absent := Store.treeOf_of_get_error options env.proc valid outside found
            rw [represents.tree, here] at absent
            cases absent
      rw [abstract]
      exact .ok represents
  | ok node =>
      refine (deleteNode_sim env state represents path).bindAt ?_
      rintro ⟨status, deleted⟩ outcome abstract ⟨accepted, after, -⟩
      cases outcome with
      | none =>
          have refused : status.isOk = false := accepted
          simp only [refused, Bool.false_eq_true, if_false]
          exact .ok after
      | some tree =>
          have done : status.isOk = true := accepted
          replace after : Represents options frame deleted { r with tree := tree } := after
          simp only [done, if_true]
          have coherent := represents.coherent.removed req.sid path tree abstract
          cases live : deleted.sm.get req.sid with
          | none =>
              have dead := (after.get_none req.sid).mp live
              rw [onOwned_dead _ _ _ dead]
              exact .ok after
          | some p =>
              exact .ok (after.modify req.sid p live (Session.removeNode path) (·.erase path)
                (fun _ => rfl) (fun _ => rfl) (fun _ => rfl) (fun _ => rfl) coherent)

theorem onWrite_sim {m : Machine} {r : Replica} (represents : Represents options frame m r)
    (write : WriteRequest) :
    ∃ status after, onWrite options env state write m = .ok (status, after) ∧
      Represents options frame after (r.write options write) := by
  have refined := Store.write_refines options env.proc m.db write.path write.data
  have valid := Store.write_valid options env.proc m.db write.path write.data
  rw [represents.tree] at refined
  have stored := represents.store refined (represents.coherent.write write).closed
  unfold onWrite
  generalize Store.write options env.proc m.db write.path write.data = result
    at refined valid stored ⊢
  obtain ⟨status, db⟩ := result
  cases done : status.isOk with
  | false => exact ⟨status, _, by simp [done]; rfl, stored⟩
  | true =>
      obtain ⟨after, told, quiet⟩ := triger_quiet state ⟨write.path, Watch.kModify⟩
        { m with db := db } stored.sm (isValidPath_head _ (valid done))
      exact ⟨status, after, by simp [done, told, bind, Except.bind]; rfl, stored.quiet quiet⟩

theorem onRead_sim {m : Machine} {r : Replica} (represents : Represents options frame m r)
    (req : Request) (path : Str) (watched : req.watch.isNone = false) :
    ∃ status data after, onRead options env req path m = .ok (status, data, after) ∧
      Represents options frame after r := by
  simp only [onRead, watched, Bool.false_eq_true, if_false]
  split
  · exact ⟨_, _, _, rfl, represents⟩
  · exact ⟨_, _, _, rfl, represents.quiet ((onWatch_told req m).quiet represents.sm)⟩

theorem onStat_sim {m : Machine} {r : Replica} (represents : Represents options frame m r)
    (req : Request) (path : Str) (watched : req.watch.isNone = false) :
    ∃ status data after, onStat options env req path m = .ok (status, data, after) ∧
      Represents options frame after r := by
  have quiet := represents.quiet ((onWatch_told req m).quiet represents.sm)
  simp only [onStat, watched, Bool.false_eq_true, if_false]
  split
  · split
    · exact ⟨_, _, _, rfl, quiet⟩
    · exact ⟨_, _, _, rfl, represents⟩
  · exact ⟨_, _, _, rfl, quiet⟩

theorem execute_sim {m : Machine} {r : Replica} (represents : Represents options frame m r)
    (req : Request) :
    Runs.Sim (fun result => Represents options frame result.2) (execute options env state req m)
      (r.apply options req) := by
  unfold execute Replica.apply
  cases req.body with
  | register timeout =>
      obtain ⟨after, done, holds⟩ := onRegister_sim env state represents req timeout
      simp only [done, bind, Except.bind]
      exact .ok holds
  | unregister => exact (onUnRegister_sim env state represents req).mapLeft fun _ _ holds => holds
  | create create =>
      obtain ⟨status, after, done, holds⟩ := onCreate_sim env state represents req create
      simp only [done, bind, Except.bind]
      exact .ok holds
  | delete path => exact (onDelete_sim env state represents req path).mapLeft fun _ _ holds => holds
  | read path =>
      cases watched : req.watch.isNone with
      | true => simp only [onRead, watched, if_true, bind, Except.bind]; exact .error _
      | false =>
          obtain ⟨status, data, after, done, holds⟩ := onRead_sim env represents req path watched
          simp only [done, bind, Except.bind]
          exact .ok holds
  | write write =>
      obtain ⟨status, after, done, holds⟩ := onWrite_sim env state represents write
      simp only [done, bind, Except.bind]
      exact .ok holds
  | stat path =>
      cases watched : req.watch.isNone with
      | true => simp only [onStat, watched, if_true, bind, Except.bind]; exact .error _
      | false =>
          obtain ⟨status, data, after, done, holds⟩ := onStat_sim env represents req path watched
          simp only [done, bind, Except.bind]
          exact .ok holds
  | watch => exact .ok (represents.quiet ((onWatch_told req m).quiet represents.sm))
  | none => exact .ok represents

end Pyxis.Machine
