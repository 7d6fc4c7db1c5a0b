import Pyxis.Replica.Close
import Pyxis.Replica.Steps

set_option autoImplicit false

open Std (ExtTreeSet)

namespace Pyxis

def Request.Broadcastable (req : Request) : Prop :=
  (req.register = none ∧ req.needBoradcast = true) ∨
    ∃ sid timeout, req = Request.registering sid timeout

namespace Replica

variable {options : Options}

-- The assertions that a command can meet hold: a read or a stat carries a watch, and a session
-- that closes has no node with children to delete.
structure Harmless (req : Request) (r : Replica) : Prop where
  watched : ∀ path, req.body = .read path ∨ req.body = .stat path → req.watch.isSome = true
  childless : req.body = .unregister → ∀ paths, r.owned req.sid = some paths → ∀ path ∈ paths,
    ∀ node, r.tree path = some node → node.sid = req.sid → node.children = []

theorem close_exists {sid : Sid} {r : Replica} (closed : r.tree.Closed options) :
    (∃ next, r.close options sid = .ok next) ↔ ∀ paths, r.owned sid = some paths →
      ∀ path ∈ paths, ∀ node, r.tree path = some node → node.sid = sid → node.children = [] := by
  unfold close
  cases live : r.owned sid with
  | none => simp
  | some paths =>
      simp only [Option.some.injEq, forall_eq']
      rw [closeNodes_exists paths.toList (r.forget sid) closed (parentsFirst_toList paths)]
      simp only [Childless, ExtTreeSet.mem_toList, forget]

theorem delete_exists {sid : Sid} {path : Str} {r : Replica} (closed : r.tree.Closed options) :
    ∃ next, r.delete options sid path = .ok next := by
  obtain ⟨result, deleted⟩ := Tree.delete_ok options r.tree closed path
  exact ⟨_, by rw [delete_eq, deleted]; rfl⟩

theorem apply_exists {req : Request} {r : Replica} (closed : r.tree.Closed options) :
    (∃ next, r.apply options req = .ok next) ↔ r.Harmless req := by
  have other (body : Body) (is : req.body = body) (noRead : ∀ path, body ≠ .read path)
      (noStat : ∀ path, body ≠ .stat path) (noClose : body ≠ .unregister) : r.Harmless req :=
    ⟨fun path reads => by rcases reads with reads | reads
                          · exact absurd (is.symm.trans reads) (noRead path)
                          · exact absurd (is.symm.trans reads) (noStat path),
      fun closes => absurd (is.symm.trans closes) noClose⟩
  unfold apply
  cases body : req.body with
  | register timeout => exact iff_of_true ⟨_, rfl⟩ (other _ body nofun nofun nofun)
  | unregister =>
      rw [close_exists closed]
      exact ⟨fun childless => ⟨by simp [body], fun _ => childless⟩,
        fun harmless => harmless.childless body⟩
  | create create => exact iff_of_true ⟨_, rfl⟩ (other _ body nofun nofun nofun)
  | delete path => exact iff_of_true (delete_exists closed) (other _ body nofun nofun nofun)
  | read path | stat path =>
      have watched : r.Harmless req ↔ req.watch.isSome = true :=
        ⟨fun harmless => harmless.watched path (by simp [body]),
          fun watched => ⟨fun _ _ => watched, by simp [body]⟩⟩
      rw [watched]
      cases req.watch <;> simp
  | write write => exact iff_of_true ⟨_, rfl⟩ (other _ body nofun nofun nofun)
  | watch | none => exact iff_of_true ⟨_, rfl⟩ (other _ body nofun nofun nofun)

end Replica

namespace Server

variable {options : Options}

theorem replayed_ok_iff (options : Options) (env : Env) (log : List (Env × Request)) :
    (∃ last, replayed options env log = .ok last) ↔
      ∃ first, initial options env = .ok first ∧ Runs.Meets (onEntry options)
        (fun entry server => server.machine.view.Harmless entry.2) first log := by
  obtain ⟨first, r, started, stands, -, -, follows, -⟩ := initial_ok options env
  have gets : replayed options env log = Runs.run (onEntry options) first log := by
    simp only [replayed, started, bind, Except.bind]
  have outcome := Runs.run_ok_iff_meets (onEntry options)
    (fun entry server => server.machine.view.Harmless entry.2)
    (fun server => server.state = .follower ∧ ∃ r, Stands options server r)
    (fun entry server next holds applied => by
      obtain ⟨follows, r, _, represents⟩ := holds
      obtain ⟨after, -, holds⟩ := represents_onCommand represents applied
      obtain ⟨rep, m, -, ⟨-, rfl⟩ | ⟨e, rest, leads, -⟩⟩ := onCommand_ok applied
      · exact ⟨follows, after, _, holds⟩
      · rw [follows] at leads
        cases leads)
    (fun entry server holds => by
      obtain ⟨follows, r, _, represents⟩ := holds
      rw [represents.view, ← Replica.apply_exists represents.coherent.closed]
      constructor
      · rintro ⟨next, applied⟩
        obtain ⟨after, done, -⟩ := represents_onCommand represents applied
        exact ⟨after, done⟩
      · rintro ⟨next, done⟩
        obtain ⟨after, applied, -⟩ := onCommand_exists entry.1 represents done
          (by simp [follows])
        exact ⟨after, applied⟩)
    first log ⟨follows, r, stands⟩
  rw [gets, outcome]
  exact ⟨fun meets => ⟨first, started, meets⟩, fun ⟨other, same, meets⟩ => by
    rw [started] at same
    cases same
    exact meets⟩

def readLog : List (Env × Request) :=
  -- A write that also carries a read: it is broadcast as a write and dispatched as a read.
  [.registering 1 5000,
    { Request.empty with
      sid? := some 1, write := some ⟨text "/", []⟩, read := some (text "/") }].map (.still 0, ·)

def parentLog : List (Env × Request) :=
  -- Session 1 closes with a persistent node of its own, and a child below it, where its ephemeral
  -- node was deleted by session 2.
  [.registering 1 5000, .registering 2 5000, .creating 1 (text "/a") kEphemeral,
    .deleting 2 (text "/a"), .creating 1 (text "/a") kPersist, .creating 2 (text "/a/b") kPersist,
    .closing 1].map (.still 0, ·)

theorem replayed_aborts :
    ((∀ entry ∈ readLog, entry.2.Broadcastable) ∧
      replayed Options.standard (.still 0) readLog = .error .readWatch) ∧
    (∀ entry ∈ parentLog, entry.2.Broadcastable) ∧
      replayed Options.standard (.still 0) parentLog = .error .closeDelete := by
  refine ⟨⟨?_, by decide +kernel⟩, ?_, by decide +kernel⟩
  · simp only [readLog, List.map_cons, List.map_nil, List.forall_mem_cons]
    exact ⟨.inr ⟨_, _, rfl⟩, .inl ⟨rfl, rfl⟩, by simp⟩
  · simp only [parentLog, List.map_cons, List.map_nil, List.forall_mem_cons]
    exact ⟨.inr ⟨_, _, rfl⟩, .inr ⟨_, _, rfl⟩, .inl ⟨rfl, rfl⟩, .inl ⟨rfl, rfl⟩, .inl ⟨rfl, rfl⟩,
      .inl ⟨rfl, rfl⟩, .inl ⟨rfl, rfl⟩, by simp⟩

end Server

end Pyxis
