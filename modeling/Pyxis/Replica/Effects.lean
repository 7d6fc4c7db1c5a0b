import Pyxis.Replica.Close
import Pyxis.Replica.Steps
import Pyxis.Server.Execute

set_option autoImplicit false

namespace Pyxis

/-- The types of the events on one path, read against its node before and after. -/
structure Node.Reports (before after : Option Node) (raised : UInt32 → Prop) : Prop where
  created : raised Watch.kCreate ↔ before = none ∧ after ≠ none
  deleted : raised Watch.kDelete ↔ before ≠ none ∧ after = none
  modified : raised Watch.kModify ↔
    ∃ old new, before = some old ∧ after = some new ∧ old.version ≠ new.version
  children : raised Watch.kChildren ↔
    before.elim [] Node.children ≠ after.elim [] Node.children

theorem Node.Reports.nothing {node : Option Node} {raised : UInt32 → Prop}
    (silent : ∀ type, ¬ raised type) : Node.Reports node node raised := by
  refine ⟨?_, ?_, ?_, ?_⟩ <;> simp only [silent, false_iff]
  · exact fun both => both.2 both.1
  · exact fun both => both.1 both.2
  · rintro ⟨old, new, rfl, same, other⟩
    cases same
    exact other rfl
  · exact fun other => other rfl

namespace Tree

variable {options : Options}

def Raised (events : List Watch.Event) (path : Str) (type : UInt32) : Prop := ⟨path, type⟩ ∈ events

theorem parentOf_split {path parentName sonName : Str}
    (split : splitPath path = .ok (parentName, sonName)) : parentOf path = parentName := by
  simp [parentOf, split]

theorem create_reports {before after : Tree} {path data : Str} {flags : UInt32} {sid : Sid}
    (created : before.create options path data flags sid = some after) (other : Str) :
    Node.Reports (before other) (after other)
      (Raised [⟨path, Watch.kCreate⟩, ⟨parentOf path, Watch.kChildren⟩] other) := by
  obtain ⟨parentName, sonName, parent, split, above, -, -, absent, -, rfl⟩ :=
    create_some options before after path data flags sid created
  rw [parentOf_split split]
  have apart : parentName ≠ path := by
    rintro rfl
    rw [absent] at above
    cases above
  by_cases there : other = parentName
  · subst there
    rw [Function.update_self, above]
    constructor <;>
      simp [Raised, Watch.kCreate, Watch.kDelete, Watch.kModify, Watch.kChildren, apart, addChild]
  · rw [Function.update_of_ne there]
    by_cases here : other = path
    · subst here
      rw [Function.update_self, absent]
      constructor <;>
        simp [Raised, Watch.kCreate, Watch.kDelete, Watch.kModify, Watch.kChildren, there]
    · rw [Function.update_of_ne here]
      exact .nothing (by simp [Raised, there, here])

theorem write_reports {before after : Tree} {path data : Str}
    (written : before.write options path data = some after) (other : Str) :
    Node.Reports (before other) (after other) (Raised [⟨path, Watch.kModify⟩] other) := by
  obtain ⟨node, present, -, -, rfl⟩ := write_some options before after path data written
  by_cases here : other = path
  · subst here
    rw [Function.update_self, present]
    constructor <;> simp [Raised, Watch.kCreate, Watch.kDelete, Watch.kModify, Watch.kChildren]
  · rw [Function.update_of_ne here]
    exact .nothing (by simp [Raised, here])

theorem Deletions.types {before after : Tree} {events : List Watch.Event}
    (deletions : Deletions options before events after) :
    ∀ e ∈ events, e.type = Watch.kDelete ∨ e.type = Watch.kChildren := by
  induction deletions with
  | nil => simp
  | cons _ _ ih =>
      intro e member
      rcases List.mem_cons.mp member with rfl | member
      · exact .inl rfl
      rcases List.mem_cons.mp member with rfl | member
      · exact .inr rfl
      · exact ih e member

theorem delete_point {tree next : Tree} {path : Str}
    (deleted : tree.delete options path = .ok (some next)) (other : Str) :
    (other = path ∧ other ≠ parentOf path ∧ (∃ son, tree other = some son ∧ son.children = []) ∧
        next other = none) ∨
      (other = parentOf path ∧ other ≠ path ∧ ∃ parent removed, tree other = some parent ∧
        next other = some removed ∧ removed.version = parent.version ∧
        parent.children.length = removed.children.length + 1) ∨
      (other ≠ path ∧ other ≠ parentOf path ∧ next other = tree other) := by
  obtain ⟨parentName, sonName, son, parent, removed, split, here, above, -, -, childless, found,
    rfl⟩ := delete_some options tree next path deleted
  have apart : parentName ≠ path := (splitPath_parent path parentName sonName split).1
  rw [parentOf_split split]
  by_cases there : other = parentName
  · subst there
    obtain ⟨same, order⟩ := removeChild_spec parent removed sonName found
    refine .inr (.inl ⟨rfl, apart, parent, removed, above, by simp, ?_, ?_⟩)
    · rw [same]
    · simpa using order.length_eq
  · by_cases gone : other = path
    · subst gone
      exact .inl ⟨rfl, there, ⟨son, here, childless⟩, by simp [Function.update_of_ne there]⟩
    · exact .inr (.inr ⟨gone, there, by simp [Function.update_of_ne there, gone]⟩)

theorem Deletions.shrinks {before after : Tree} {events : List Watch.Event}
    (deletions : Deletions options before events after) (path : Str) :
    ((after path).elim [] Node.children).length ≤
      ((before path).elim [] Node.children).length := by
  induction deletions with
  | nil => exact Nat.le_refl _
  | cons deleted _ ih =>
      refine Nat.le_trans ih ?_
      rcases delete_point deleted path with
        ⟨-, -, -, gone⟩ | ⟨-, -, parent, removed, here, there, -, length⟩ | ⟨-, -, same⟩
      · simp [gone]
      · simp [here, there, length]
      · exact Nat.le_of_eq (by rw [same])

theorem raised_cons (events : List Watch.Event) (gone parent path : Str) (type : UInt32) :
    Raised (⟨gone, Watch.kDelete⟩ :: ⟨parent, Watch.kChildren⟩ :: events) path type ↔
      (path = gone ∧ type = Watch.kDelete) ∨ (path = parent ∧ type = Watch.kChildren) ∨
        Raised events path type := by
  simp [Raised]

theorem Deletions.reports {before after : Tree} {events : List Watch.Event}
    (deletions : Deletions options before events after) (path : Str) :
    Node.Reports (before path) (after path) (Raised events path) := by
  induction deletions with
  | nil => exact .nothing (by simp [Raised])
  | @cons tree middle last gone events deleted later ih =>
      have noCreate : ¬ Raised events path Watch.kCreate := fun member => by
        have types := later.types _ member
        simp [Watch.kCreate, Watch.kDelete, Watch.kChildren] at types
      have noModify : ¬ Raised events path Watch.kModify := fun member => by
        have types := later.types _ member
        simp [Watch.kModify, Watch.kDelete, Watch.kChildren] at types
      have distinct : Watch.kCreate ≠ Watch.kDelete ∧ Watch.kModify ≠ Watch.kDelete ∧
          Watch.kChildren ≠ Watch.kDelete ∧ Watch.kCreate ≠ Watch.kChildren ∧
          Watch.kModify ≠ Watch.kChildren ∧ Watch.kDelete ≠ Watch.kChildren := by decide
      rcases delete_point deleted path with
        ⟨rfl, apart, ⟨son, here, childless⟩, absent⟩ |
          ⟨rfl, apart, parent, removed, here, there, version, length⟩ | ⟨apart, away, same⟩
      · -- The path is gone for the rest of the loop, which raises no more of it.
        rw [absent] at ih
        have stillGone : last path = none := by
          by_contra back
          exact noCreate (ih.created.mpr ⟨rfl, back⟩)
        have noChildren : ¬ Raised events path Watch.kChildren := by
          rw [ih.children, stillGone]
          exact fun other => other rfl
        constructor <;> simp [raised_cons, here, stillGone, childless, noCreate, noModify,
          noChildren, apart, distinct]
      · -- Later deletions only shorten the list of children, so it never comes back.
        rw [there] at ih
        have fewer := later.shrinks (parentOf gone)
        rw [there] at fewer
        have changed : parent.children ≠ (last (parentOf gone)).elim [] Node.children := by
          intro same
          rw [← same] at fewer
          simp only [Option.elim_some] at fewer
          omega
        constructor
        · simp [raised_cons, here, noCreate, distinct]
        · simpa [raised_cons, here, apart, distinct] using ih.deleted
        · have kept := ih.modified
          simp only [noModify, false_iff] at kept
          simpa [raised_cons, here, noModify, distinct, version] using kept
        · simpa [raised_cons, here] using changed
      · rw [← same]
        have rest (type : UInt32) : Raised (⟨gone, Watch.kDelete⟩ ::
            ⟨parentOf gone, Watch.kChildren⟩ :: events) path type ↔ Raised events path type := by
          simp [raised_cons, apart, away]
        exact ⟨(rest _).trans ih.created, (rest _).trans ih.deleted, (rest _).trans ih.modified,
          (rest _).trans ih.children⟩

end Tree

namespace Machine

variable {options : Options} {env : Env} {state : State} {frame : Frame}

theorem Outcome.reports {m after : Machine} {req : Request} {rep : Response}
    (outcome : Outcome options env state req m rep after) :
    ∃ events, after.raised = m.raised ++ events ∧ ∀ path, options.underProc path = false →
      Node.Reports (Store.treeOf m.db path) (Store.treeOf after.db path)
        (Tree.Raised events path) := by
  cases outcome with
  | refused => exact ⟨[], by simp, fun path _ => .nothing (by simp [Tree.Raised])⟩
  | watched applied told =>
      exact ⟨[], applied.raised, fun path _ => by
        rw [told.db]; exact .nothing (by simp [Tree.Raised])⟩
  | registered _ applied tree =>
      exact ⟨[], applied.raised, fun path _ => by
        rw [tree]; exact .nothing (by simp [Tree.Raised])⟩
  | unregistered events _ applied tree =>
      exact ⟨events, applied.raised, fun path _ => tree.reports path⟩
  | created create _ applied tree =>
      exact ⟨_, applied.raised, fun path _ => Tree.create_reports tree path⟩
  | deleted _ _ _ applied tree =>
      exact ⟨_, applied.raised, fun path _ => (Tree.Deletions.cons tree (.nil _)).reports path⟩
  | written write _ applied tree =>
      refine ⟨_, applied.raised, fun path outside => ?_⟩
      rcases tree with ⟨inside, same⟩ | tree
      · -- A write below the proc root raises an event there, and nowhere else.
        have other : path ≠ write.path := by
          rintro rfl
          rw [inside] at outside
          cases outside
        rw [same]
        exact .nothing (by simp [Tree.Raised, other])
      · exact Tree.write_reports tree path

theorem Outcome.failed_view {m after : Machine} {req : Request} {rep : Response}
    (outcome : Outcome options env state req m rep after) (wf : m.sm.WellFormed)
    (failed : rep.err ≠ none) :
    after.view = m.view ∨ ∃ path, req.body = .delete path ∧ m.sm.get req.sid = none ∧
      (Store.treeOf m.db).delete options path = .ok (some (Store.treeOf after.db)) := by
  cases outcome with
  | refused => exact .inl rfl
  | watched _ told => exact .inl (told.quiet wf).view
  | registered accepted | unregistered _ accepted | created _ accepted | written _ accepted =>
      exact absurd accepted failed
  | deleted path body accepted applied tree =>
      refine .inr ⟨path, body, ?_, tree⟩
      by_contra live
      exact failed (accepted.mpr live)

end Machine

namespace Server

variable {options : Options} {states : RaftStates} {env : Env}

theorem onCommand_outcome {server after : Server} {r : Replica} {cmd : Request}
    (stands : Stands options server r) (applied : onCommand options env cmd server = .ok after) :
    ∃ rep m, server.machine.execute options env server.state cmd = .ok (rep, m) ∧
      Machine.Outcome options env server.state cmd server.machine rep m ∧
      after.machine.db = m.db ∧ after.machine.sm = m.sm ∧ after.machine.trace = m.trace := by
  obtain ⟨frame, represents⟩ := stands
  obtain ⟨rep, m, executed, outcome⟩ := onCommand_ok applied
  refine ⟨rep, m, executed, Machine.execute_cases represents.sm represents.keyed executed, ?_⟩
  rcases outcome with ⟨-, rfl⟩ | ⟨e, rest, -, -, rfl⟩ <;> exact ⟨rfl, rfl, rfl⟩

theorem command_events {server after : Server} {cmd : Request}
    (reachable : Reachable options states server)
    (applied : onCommand options env cmd server = .ok after) :
    ∃ events, after.machine.raised = server.machine.raised ++ events ∧
      ∀ path, options.underProc path = false →
        Node.Reports (Store.treeOf server.machine.db path) (Store.treeOf after.machine.db path)
          (Tree.Raised events path) := by
  obtain ⟨r, stands⟩ := reachable_stands reachable
  obtain ⟨rep, m, -, outcome, db, -, trace⟩ := onCommand_outcome stands applied
  obtain ⟨events, raised, reports⟩ := outcome.reports
  refine ⟨events, ?_, by rw [db]; exact reports⟩
  rw [Machine.raised, trace]
  exact raised

def ownersLog : List Request :=
  [.registering 1 5000, .creating 1 (text "/a") kPersist, .creating 1 (text "/a/b") kEphemeral,
    .creating 1 (text "/c") kEphemeral]

theorem command_events_closing : ∃ server after : Server,
    Reachable Options.standard .sample server ∧
      onCommand Options.standard (.still 0) (.closing 1) server = .ok after ∧
      ∃ events, after.machine.raised = server.machine.raised ++ events ∧
        ∀ path, Options.standard.underProc path = false →
          Node.Reports (Store.treeOf server.machine.db path) (Store.treeOf after.machine.db path)
            (Tree.Raised events path) := by
  obtain ⟨server, reachable, completes⟩ := exists_reachable Options.standard .sample (.still 0)
    (replay ownersLog) (fun server =>
      Runs.passes (onCommand Options.standard (.still 0) (.closing 1) server) fun _ => true)
    (by decide +kernel)
  obtain ⟨after, applied, -⟩ := (Runs.passes_iff _ _).mp completes
  exact ⟨server, after, reachable, applied, command_events reachable applied⟩

def LateDelete (cmd : Request) (m : Machine) : Prop :=
  -- `onDelete` asks for the session only when the node is gone.
  ∃ path node, cmd.body = .delete path ∧ m.sm.get cmd.sid = none ∧
    Store.treeOf m.db path = some node ∧ node.children = []

theorem lateDelete_fails {m after : Machine} {state : State} {cmd : Request} {rep : Response}
    (late : LateDelete cmd m) (executed : m.execute options env state cmd = .ok (rep, after)) :
    rep.err ≠ none := by
  obtain ⟨path, -, body, dead, -, -⟩ := late
  simp only [Machine.execute, body] at executed
  obtain ⟨⟨status, last⟩, deleted, answered⟩ := Runs.bind_ok.mp executed
  cases answered
  have bad : status.isOk = false := by
    have spec : _ ∨ status.isOk = _ ∧ Machine.Applied options state .nothing m last _ ∧ _ :=
      Machine.onDelete_spec deleted
    rcases spec with ⟨bad, -⟩ | ⟨answer, -⟩
    · exact bad
    · rw [answer, dead]
      rfl
  rw [Response.err_withStatus, bad]
  simp

theorem lateDelete_effect {server after : Server} {r : Replica} {cmd : Request}
    (stands : Stands options server r) (late : LateDelete cmd server.machine)
    (applied : onCommand options env cmd server = .ok after) :
    after.machine.view ≠ server.machine.view := by
  obtain ⟨path, node, body, -, here, childless⟩ := late
  obtain ⟨frame, represents⟩ := stands
  obtain ⟨next, done, holds⟩ := represents_onCommand represents applied
  have present : r.tree path = some node := by rw [← represents.tree]; exact here
  obtain ⟨tree, deleted⟩ :=
    (Tree.delete_accepted represents.coherent.closed present).mpr childless
  rw [represents.view, holds.view]
  intro same
  have gone : next.tree path = none := by
    simp only [Replica.apply, body, Replica.delete_eq, deleted] at done
    cases done
    rw [← Tree.bare_none]
    exact (Tree.delete_bare deleted path).trans (if_pos rfl)
  rw [same, present] at gone
  cases gone

theorem failed_command_view {server after : Server} {cmd : Request} {rep : Response} {m : Machine}
    (reachable : Reachable options states server)
    (executed : server.machine.execute options env server.state cmd = .ok (rep, m))
    (applied : onCommand options env cmd server = .ok after) :
    (rep.err ≠ none → after.machine.view = server.machine.view) ↔
      ¬ LateDelete cmd server.machine := by
  obtain ⟨r, stands⟩ := reachable_stands reachable
  obtain ⟨other, last, same, outcome, db, sm, -⟩ := onCommand_outcome stands applied
  rw [executed] at same
  cases same
  have view : after.machine.view = m.view := by simp only [Machine.view, db, sm]
  constructor
  · intro unchanged late
    exact lateDelete_effect stands late applied (unchanged (lateDelete_fails late executed))
  · intro timely failed
    rw [view]
    rcases outcome.failed_view stands.wellFormed failed with same | ⟨path, body, dead, tree⟩
    · exact same
    · obtain ⟨-, -, son, -, -, -, here, -, -, -, childless, -⟩ :=
        Tree.delete_some options _ _ path tree
      exact absurd ⟨path, son, body, dead, here, childless⟩ timely

theorem failed_command_view_missing : ∃ (server after : Server) (rep : Response) (m : Machine),
    Reachable Options.standard .sample server ∧
      server.machine.execute Options.standard (.still 0) server.state
        (.deleting 1 (text "/d")) = .ok (rep, m) ∧
      onCommand Options.standard (.still 0) (.deleting 1 (text "/d")) server = .ok after ∧
      ((rep.err ≠ none → after.machine.view = server.machine.view) ↔
        ¬ LateDelete (.deleting 1 (text "/d")) server.machine) := by
  obtain ⟨server, reachable, completes⟩ := exists_reachable Options.standard .sample (.still 0)
    (replay ownersLog) (fun server =>
      Runs.passes (onCommand Options.standard (.still 0) (.deleting 1 (text "/d")) server)
        fun _ => true)
    (by decide +kernel)
  obtain ⟨after, applied, -⟩ := (Runs.passes_iff _ _).mp completes
  obtain ⟨rep, m, executed, -⟩ := onCommand_ok applied
  exact ⟨server, after, rep, m, reachable, executed, applied,
    failed_command_view reachable executed applied⟩

-- Session 1 unregisters, and its last delete is applied behind that: the answer is
-- SessionExpired, and the node is gone.
theorem failed_command_deletes : ∃ (server after : Server) (rep : Response) (m : Machine),
    Reachable Options.standard .sample server ∧
      server.machine.execute Options.standard (.still 0) server.state
        (.deleting 1 (text "/a")) = .ok (rep, m) ∧
      onCommand Options.standard (.still 0) (.deleting 1 (text "/a")) server = .ok after ∧
      rep.err = some ⟨.sessionExpired, text "session expired"⟩ ∧
      (Store.treeOf server.machine.db (text "/a")).isSome = true ∧
      Store.treeOf after.machine.db (text "/a") = none := by
  obtain ⟨server, reachable, found⟩ := exists_reachable Options.standard .sample (.still 0)
    (replay (ownersLog ++ [.closing 1])) (fun server =>
      (Store.treeOf server.machine.db (text "/a")).isSome = true ∧
      Runs.passes (server.machine.execute Options.standard (.still 0) server.state
        (.deleting 1 (text "/a"))) (fun result =>
          decide (result.1.err = some ⟨.sessionExpired, text "session expired"⟩)) = true ∧
      Runs.passes (onCommand Options.standard (.still 0) (.deleting 1 (text "/a")) server)
        (fun after => decide (Store.treeOf after.machine.db (text "/a") = none)) = true)
    (by decide +kernel)
  simp only [Runs.passes_iff, decide_eq_true_eq] at found
  obtain ⟨here, ⟨⟨rep, m⟩, executed, answer⟩, after, applied, gone⟩ := found
  exact ⟨server, after, rep, m, reachable, executed, applied, answer, here, gone⟩

end Server

end Pyxis
