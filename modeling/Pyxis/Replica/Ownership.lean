import Pyxis.Replica.Close
import Pyxis.Replica.Steps

set_option autoImplicit false

open Std (ExtTreeSet)

namespace Pyxis

namespace Tree

variable {options : Options}

theorem owns_bare (tree : Tree) (sid : Sid) (path : Str) :
    tree.Owns sid path ↔
      ∃ node, tree.bare path = some node ∧ node.ephemeral = true ∧ node.sid = sid := by
  cases here : tree path <;> simp [Owns, bare, here, Node.bare, Node.ephemeral]

theorem owns_congr {tree other : Tree} {path : Str} (same : tree.bare path = other.bare path)
    (sid : Sid) : tree.Owns sid path ↔ other.Owns sid path := by
  rw [owns_bare, owns_bare, same]

theorem Owns.tagged {tree : Tree} {sid : Sid} {path : Str} (owns : tree.Owns sid path) :
    tree.tagged sid path = true := by
  obtain ⟨node, here, -, same⟩ := owns
  exact (tagged_iff _ _ _).mpr ⟨node, here, same⟩

theorem not_owns_of_none {tree : Tree} {path : Str} (gone : tree.bare path = none) (sid : Sid) :
    ¬ tree.Owns sid path := by
  simp [owns_bare, gone]

theorem create_bare {tree next : Tree} {path data : Str} {flags : UInt32} {sid : Sid}
    (created : tree.create options path data flags sid = some next) (other : Str) :
    next.bare other =
      if other = path then some { newNode data flags with sid := sid } else tree.bare other := by
  obtain ⟨parentName, sonName, parent, split, above, -, -, -, -, rfl⟩ :=
    create_some options tree next path data flags sid created
  have apart : parentName ≠ path := (splitPath_parent path parentName sonName split).1
  by_cases parentHere : other = parentName
  · subst parentHere
    simp [bare, apart, above, addChild, Node.bare]
  · by_cases here : other = path
    · subst here
      simp [bare, Function.update_of_ne parentHere, Node.bare, newNode]
    · simp [bare, here, Function.update_of_ne parentHere]

theorem owns_create {tree next : Tree} {path data : Str} {flags : UInt32} {sid : Sid}
    (created : tree.create options path data flags sid = some next) (owner : Sid) (other : Str) :
    next.Owns owner other ↔
      if other = path then isEphemeral flags = true ∧ sid = owner else tree.Owns owner other := by
  have bare := create_bare created other
  split_ifs at bare ⊢ with here
  · simp [owns_bare, bare, Node.ephemeral, newNode]
  · exact owns_congr bare owner

theorem owns_delete {tree next : Tree} {path : Str}
    (deleted : tree.delete options path = .ok (some next)) (owner : Sid) (other : Str) :
    next.Owns owner other ↔ other ≠ path ∧ tree.Owns owner other := by
  have bare := delete_bare deleted other
  split_ifs at bare with here
  · simp [here, not_owns_of_none (here ▸ bare)]
  · rw [owns_congr bare owner]
    exact (and_iff_right here).symm

theorem owns_write {tree next : Tree} {path data : Str}
    (written : tree.write options path data = some next) (owner : Sid) (other : Str) :
    next.Owns owner other ↔ tree.Owns owner other := by
  obtain ⟨node, here, -, -, rfl⟩ := write_some options tree next path data written
  by_cases same : other = path
  · subst same
    simp [Owns, here, Node.ephemeral]
  · simp [Owns, Function.update_of_ne same]

theorem stored_shrink {before after : Tree}
    (shrinks : ∀ path, before path = none → after path = none)
    (parent name : Str) :
    stored before parent name = stored after parent name +
      (spellings parent name).countP fun path => (before path).isSome && (after path).isNone := by
  unfold stored
  induction spellings parent name with
  | nil => rfl
  | cons path rest ih =>
      simp only [List.countP_cons, ih]
      cases old : before path with
      | none =>
          simp only [shrinks path old, Option.isSome_none, Bool.false_and, Bool.false_eq_true,
            if_false]
          omega
      | some node =>
          cases after path <;> simp <;> omega

/-- Exactly the ephemeral nodes of the session are gone. What is left keeps its data, version, flags
and sid, and its children but for the names of what is gone. -/
structure ClosesExactly (sid : Sid) (before after : Tree) : Prop where
  gone : ∀ path, after path = none ↔ before path = none ∨ before.Owns sid path
  kept : ∀ path old node, before path = some old → after path = some node →
    node = { old with children := node.children }
  children : ∀ path old node, before path = some old → after path = some node → ∀ name,
    old.children.count name = node.children.count name +
      (spellings path name).countP fun spelled => (before spelled).isSome && (after spelled).isNone

end Tree

namespace Replica

variable {options : Options}

/-- Every ephemeral node is among the paths that its session, which is live, will delete. -/
def Anchored (r : Replica) : Prop :=
  ∀ sid path, r.tree.Owns sid path → ∃ paths, r.owned sid = some paths ∧ path ∈ paths

theorem Reloaded.anchored {before after : Replica} (reloaded : Reloaded before after) :
    after.Anchored := by
  intro sid path owns
  rw [reloaded.tree] at owns
  cases live : after.owned sid with
  | none => exact absurd owns (((reloaded.dead sid).mp live).2 path)
  | some paths => exact ⟨paths, rfl, (reloaded.paths sid paths live path).mpr owns⟩

theorem Anchored.register {r : Replica} (anchored : r.Anchored) (sid : Sid) (timeout : Int) :
    (r.register sid timeout).Anchored := by
  intro owner path owns
  obtain ⟨paths, live, member⟩ := anchored owner path owns
  by_cases same : owner = sid
  · subst same
    exact ⟨paths, by simp [Replica.register, live], member⟩
  · exact ⟨paths, by simp [Replica.register, Function.update_of_ne same, live], member⟩

theorem Anchored.create {r : Replica} (anchored : r.Anchored) (sid : Sid) (req : CreateRequest) :
    (r.create options sid req).Anchored := by
  rcases create_cases options sid req r with same | ⟨tree, created, outcome⟩
  · rw [same]
    exact anchored
  have owns_iff := Tree.owns_create created
  rcases outcome with ⟨-, live, bound⟩ | ⟨kind, stored⟩
  · -- An ephemeral node is bound to its session in the same step.
    obtain ⟨before, found⟩ := Option.ne_none_iff_exists'.mp live
    rw [bound]
    intro owner path owns
    have held := (owns_iff owner path).mp owns
    by_cases same : owner = sid
    · subst same
      refine ⟨before.insert req.path, by simp [onOwned, found], ?_⟩
      rw [ExtTreeSet.mem_insert, Std.compare_eq_iff_eq]
      by_cases here : path = req.path
      · exact .inl here.symm
      · rw [if_neg here] at held
        obtain ⟨paths, owned, member⟩ := anchored owner path held
        rw [found] at owned
        cases owned
        exact .inr member
    · have elsewhere : path ≠ req.path := fun here => by
        rw [if_pos here] at held
        exact same held.2.symm
      rw [if_neg elsewhere] at held
      simpa only [onOwned, Function.update_of_ne same] using anchored owner path held
  · rw [stored]
    intro owner path owns
    have held := (owns_iff owner path).mp owns
    split_ifs at held with here
    · rw [kind] at held
      cases held.1
    · exact anchored owner path held

theorem Anchored.removed {r : Replica} (anchored : r.Anchored) (sid : Sid) (path : Str)
    (tree : Tree) (deleted : r.tree.delete options path = .ok (some tree)) :
    (onOwned sid (·.erase path) { r with tree := tree }).Anchored := by
  -- A deletion takes the path out of the set of the session that asks for it; what the owner
  -- keeps is stale, but nothing that is there is lost.
  intro owner other owns
  obtain ⟨elsewhere, held⟩ := (Tree.owns_delete deleted owner other).mp owns
  obtain ⟨paths, live, member⟩ := anchored owner other held
  by_cases same : owner = sid
  · subst same
    refine ⟨paths.erase path, by simp [onOwned, live], ?_⟩
    rw [ExtTreeSet.mem_erase, ne_eq, Std.compare_eq_iff_eq]
    exact ⟨Ne.symm elsewhere, member⟩
  · exact ⟨paths, by simp [onOwned, Function.update_of_ne same, live], member⟩

theorem Anchored.write {r : Replica} (anchored : r.Anchored) (req : WriteRequest) :
    (r.write options req).Anchored := by
  unfold Replica.write
  cases written : r.tree.write options req.path req.data with
  | none => exact anchored
  | some tree =>
      exact fun sid path owns => anchored sid path ((Tree.owns_write written sid path).mp owns)

theorem close_spec {sid : Sid} {paths : ExtTreeSet Str} {r next : Replica}
    (closed : r.tree.Closed options) (live : r.owned sid = some paths)
    (done : r.close options sid = .ok next) :
    next = { r.forget sid with tree := next.tree } ∧ next.tree.Closed options ∧
      ∀ other, next.tree.bare other =
        if other ∈ paths ∧ r.tree.tagged sid other = true then none else r.tree.bare other := by
  rw [close, live] at done
  obtain ⟨frame, closedNext, bare⟩ := closeNodes_spec paths.toList (r.forget sid) next closed done
  simp only [ExtTreeSet.mem_toList] at bare
  exact ⟨frame, closedNext, bare⟩

theorem close_dead {sid : Sid} {r next : Replica} (closed : r.tree.Closed options)
    (done : r.close options sid = .ok next) : next.owned sid = none := by
  cases live : r.owned sid with
  | none =>
      rw [Replica.close, live] at done
      cases done
      exact live
  | some paths =>
      rw [(close_spec closed live done).1]
      simp [forget]

theorem Anchored.close {sid : Sid} {r next : Replica} (anchored : r.Anchored)
    (closed : r.tree.Closed options) (done : r.close options sid = .ok next) : next.Anchored := by
  cases live : r.owned sid with
  | none =>
      rw [Replica.close, live] at done
      cases done
      exact anchored
  | some paths =>
      obtain ⟨frame, -, bare⟩ := close_spec closed live done
      intro owner path owns
      have same := bare path
      split_ifs at same with visited
      · exact absurd owns (Tree.not_owns_of_none same owner)
      have held := (Tree.owns_congr same owner).mp owns
      obtain ⟨set, owned, member⟩ := anchored owner path held
      have other : owner ≠ sid := by
        rintro rfl
        rw [live] at owned
        cases owned
        exact visited ⟨member, held.tagged⟩
      rw [frame]
      exact ⟨set, by simp [forget, Function.update_of_ne other, owned], member⟩

theorem Anchored.apply {req : Request} {r next : Replica} (anchored : r.Anchored)
    (closed : r.tree.Closed options) (applied : r.apply options req = .ok next) :
    next.Anchored := by
  cases apply_ok applied with
  | same => exact anchored
  | register timeout => exact anchored.register req.sid timeout
  | close _ _ done => exact anchored.close closed done
  | create create => exact anchored.create req.sid create
  | delete path tree deleted => exact anchored.removed req.sid path tree deleted
  | write write => exact anchored.write write

theorem onOwned_none (r : Replica) (sid other : Sid) (f : ExtTreeSet Str → ExtTreeSet Str) :
    (r.onOwned sid f).owned other = none ↔ r.owned other = none := by
  by_cases same : other = sid
  · subst same
    simp [onOwned]
  · simp [onOwned, Function.update_of_ne same]

theorem apply_sessions {req : Request} {r next : Replica} (closed : r.tree.Closed options)
    (applied : r.apply options req = .ok next) (sid : Sid) :
    (next.owned sid = none ∧ next.records sid = none) ∨
      (next.owned sid ≠ none ∧ next.records sid ≠ none) ∨
      ((next.owned sid = none ↔ r.owned sid = none) ∧ next.records sid = r.records sid) := by
  cases apply_ok applied with
  | same | write write => exact .inr (.inr ⟨Iff.rfl, rfl⟩)
  | register timeout =>
      by_cases same : sid = req.sid
      · subst same
        exact .inr (.inl (by simp [Replica.register]))
      · exact .inr (.inr (by simp [Replica.register, Function.update_of_ne same]))
  | close _ _ done =>
      cases live : r.owned req.sid with
      | none =>
          rw [Replica.close, live] at done
          cases done
          exact .inr (.inr ⟨Iff.rfl, rfl⟩)
      | some paths =>
          rw [(close_spec closed live done).1]
          by_cases same : sid = req.sid
          · subst same
            exact .inl (by simp [forget])
          · exact .inr (.inr (by simp [forget, Function.update_of_ne same]))
  | create create =>
      rcases create_cases options req.sid create r
        with same | ⟨tree, -, ⟨-, -, bound⟩ | ⟨-, stored⟩⟩
      · rw [same]
        exact .inr (.inr ⟨Iff.rfl, rfl⟩)
      · rw [bound]
        exact .inr (.inr ⟨onOwned_none _ _ _ _, rfl⟩)
      · rw [stored]
        exact .inr (.inr ⟨Iff.rfl, rfl⟩)
  | delete path tree deleted => exact .inr (.inr ⟨onOwned_none _ _ _ _, rfl⟩)

-- What a closing session is to delete is ephemeral. Paths that another session deleted may have
-- been taken by persistent nodes since.
def Clean (sid : Sid) (r : Replica) : Prop :=
  ∀ paths, r.owned sid = some paths → ∀ path ∈ paths, ∀ node, r.tree path = some node →
    node.sid = sid → node.ephemeral = true

instance (sid : Sid) (r : Replica) : Decidable (Clean sid r) :=
  decidable_of_iff ((r.owned sid).all fun paths => paths.toList.all fun path =>
      (r.tree path).all fun node => node.sid != sid || node.ephemeral) (by
    simp only [Option.all_eq_true, List.all_eq_true, ExtTreeSet.mem_toList, Bool.or_eq_true,
      bne_iff_ne, ne_eq, Clean, or_iff_not_imp_left, not_not])

theorem Clean.close {sid : Sid} {r : Replica} (clean : r.Clean sid)
    (closed : r.tree.Closed options) :
    ∃ next, r.close options sid = .ok next := by
  cases live : r.owned sid with
  | none => exact ⟨r, by rw [Replica.close, live]⟩
  | some paths =>
      rw [Replica.close, live]
      refine (closeNodes_exists paths.toList (r.forget sid) closed
        (parentsFirst_toList paths)).mpr fun path member node here same => ?_
      exact Tree.ephemeral_childless options r.tree closed path node here
        (clean paths live path (ExtTreeSet.mem_toList.mp member) node here same)

theorem Clean.closesExactly {sid : Sid} {r next : Replica} (clean : r.Clean sid)
    (coherent : r.Coherent options) (anchored : r.Anchored) (live : r.owned sid ≠ none)
    (done : r.close options sid = .ok next) : r.tree.ClosesExactly sid next.tree := by
  obtain ⟨paths, owned⟩ := Option.ne_none_iff_exists'.mp live
  obtain ⟨-, closedNext, bare⟩ := close_spec coherent.closed owned done
  have deleted (path : Str) : (path ∈ paths ∧ r.tree.tagged sid path = true) ↔
      r.tree.Owns sid path := by
    constructor
    · rintro ⟨member, own⟩
      obtain ⟨node, here, same⟩ := (Tree.tagged_iff _ _ _).mp own
      exact ⟨node, here, clean paths owned path member node here same, same⟩
    · intro owns
      obtain ⟨set, found, member⟩ := anchored sid path owns
      rw [owned] at found
      cases found
      exact ⟨member, owns.tagged⟩
  have lost (path : Str) (owns : r.tree.Owns sid path) : next.tree.bare path = none := by
    rw [bare path, if_pos ((deleted path).mpr owns)]
  have same (path : Str) (other : ¬ r.tree.Owns sid path) :
      next.tree.bare path = r.tree.bare path := by
    rw [bare path, if_neg (mt (deleted path).mp other)]
  have gone (path : Str) : next.tree path = none ↔ r.tree path = none ∨ r.tree.Owns sid path := by
    rw [← Tree.bare_none next.tree, ← Tree.bare_none r.tree]
    by_cases owns : r.tree.Owns sid path
    · simp [lost path owns, owns]
    · simp [same path owns, owns]
  refine ⟨gone, fun path old node before after => ?_, fun path old node before after name => ?_⟩
  · have unowned : ¬ r.tree.Owns sid path := fun owns => by
      simp [(gone path).mpr (.inr owns)] at after
    have bareSame := same path unowned
    simp only [Tree.bare, before, after, Option.map_some, Option.some.injEq] at bareSame
    calc node = { node.bare with children := node.children } := rfl
      _ = { old with children := node.children } := by rw [bareSame]; rfl
  · have nonempty := Tree.valid_nonempty path (coherent.closed.valid path old before).1
    rw [coherent.closed.counted path old before name, closedNext.counted path node after name,
      Tree.stored_shrink (fun other absent => (gone other).mpr (.inl absent))]
    omega

theorem closesExactly_iff {sid : Sid} {paths : ExtTreeSet Str} {r : Replica}
    (coherent : r.Coherent options) (anchored : r.Anchored) (live : r.owned sid = some paths) :
    (∃ next, r.close options sid = .ok next ∧ r.tree.ClosesExactly sid next.tree) ↔
      r.Clean sid := by
  constructor
  · rintro ⟨next, done, exactly⟩ set owned path member node here same
    rw [live] at owned
    cases owned
    obtain ⟨-, -, bare⟩ := close_spec coherent.closed live done
    have lost := bare path
    rw [if_pos ⟨member, (Tree.tagged_iff _ _ _).mpr ⟨node, here, same⟩⟩, Tree.bare_none,
      exactly.gone path, here] at lost
    rcases lost with absent | ⟨other, found, kind, -⟩
    · cases absent
    · rw [here] at found
      cases found
      exact kind
  · intro clean
    obtain ⟨next, done⟩ := clean.close coherent.closed
    exact ⟨next, done, clean.closesExactly coherent anchored (by simp [live]) done⟩

end Replica

namespace Server

variable {options : Options} {states : RaftStates} {env : Env}

theorem reachable_anchored {server : Server} (reachable : Reachable options states server) :
    ∃ r, Stands options server r ∧ r.Anchored :=
  reachable_replica Replica.Anchored (fun _ _ reloaded => reloaded.anchored)
    (fun _ _ _ coherent anchored applied => anchored.apply coherent.closed applied) reachable

theorem no_orphan {server : Server} (reachable : Reachable options states server) (path : Str)
    (node : Node) (here : Store.treeOf server.machine.db path = some node)
    (kind : node.ephemeral = true) :
    ∃ p, server.machine.sm.get node.sid = some p ∧
      path ∈ (server.machine.sm.deref p).nodeSet := by
  obtain ⟨r, ⟨_, represents⟩, anchored⟩ := reachable_anchored reachable
  rw [represents.tree] at here
  obtain ⟨paths, owned, member⟩ := anchored node.sid path ⟨node, here, kind, rfl⟩
  rw [represents.owned, Option.map_eq_some_iff] at owned
  obtain ⟨p, live, rfl⟩ := owned
  exact ⟨p, live, member⟩

def lockLog : List Request :=
  -- A session takes over a lock that another one has deleted.
  [.registering 1 5000, .registering 2 5000, .creating 1 (text "/lock") kEphemeral,
    .deleting 2 (text "/lock"), .creating 2 (text "/lock") kEphemeral]

theorem no_orphan_lock :
    ∃ server p, Reachable Options.standard .sample server ∧ server.machine.sm.get 2 = some p ∧
      text "/lock" ∈ (server.machine.sm.deref p).nodeSet := by
  obtain ⟨server, reachable, here⟩ := exists_reachable Options.standard .sample (.still 0)
    (replay lockLog) (fun server => Store.treeOf server.machine.db (text "/lock") =
      some { newNode [] kEphemeral with sid := 2 }) (by decide +kernel)
  obtain ⟨p, live, member⟩ := no_orphan reachable (text "/lock") _ here rfl
  exact ⟨server, p, reachable, live, member⟩

theorem close_exact_iff {server : Server} (reachable : Reachable options states server)
    (cmd : Request) (closing : cmd.body = .unregister) (p : SessionPtr)
    (live : server.machine.sm.get cmd.sid = some p)
    (waiting : server.state = .leader → server.requests ≠ []) :
    (∃ after, onCommand options env cmd server = .ok after ∧
        (Store.treeOf server.machine.db).ClosesExactly cmd.sid (Store.treeOf after.machine.db)) ↔
      ∀ path ∈ (server.machine.sm.deref p).nodeSet, ∀ node,
        Store.treeOf server.machine.db path = some node → node.sid = cmd.sid →
          node.ephemeral = true := by
  obtain ⟨r, ⟨_, represents⟩, anchored⟩ := reachable_anchored reachable
  have owned := represents.owned cmd.sid
  rw [live, Option.map_some] at owned
  have apply_close : r.apply options cmd = r.close options cmd.sid := by
    simp only [Replica.apply, closing]
  have clean_iff : (∀ path ∈ (server.machine.sm.deref p).nodeSet, ∀ node,
      Store.treeOf server.machine.db path = some node → node.sid = cmd.sid →
        node.ephemeral = true) ↔ r.Clean cmd.sid := by
    rw [represents.tree, Replica.Clean]
    simp only [owned, Option.some.injEq, forall_eq']
  rw [clean_iff, ← Replica.closesExactly_iff represents.coherent anchored owned, represents.tree]
  constructor
  · rintro ⟨after, applied, exactly⟩
    obtain ⟨next, done, holds⟩ := represents_onCommand represents applied
    exact ⟨next, apply_close ▸ done, holds.tree ▸ exactly⟩
  · rintro ⟨next, done, exactly⟩
    obtain ⟨after, applied, holds⟩ := onCommand_exists env represents (apply_close ▸ done) waiting
    exact ⟨after, applied, holds.tree ▸ exactly⟩

theorem close_exact_iff_lock :
    ∃ server after, Reachable Options.standard .sample server ∧
      onCommand Options.standard (.still 0) (.closing 2) server = .ok after ∧
      (Store.treeOf server.machine.db).ClosesExactly 2 (Store.treeOf after.machine.db) := by
  obtain ⟨server, reachable, following, live, paths⟩ := exists_reachable Options.standard .sample
    (.still 0) (replay lockLog) (fun server => server.state = .follower ∧
      server.machine.sm.get 2 = some 2 ∧
      (server.machine.sm.deref 2).nodeSet.toList = [text "/lock"] ∧
      Store.treeOf server.machine.db (text "/lock") =
        some { newNode [] kEphemeral with sid := 2 }) (by decide +kernel)
  obtain ⟨after, applied, exactly⟩ := (close_exact_iff reachable (.closing 2) rfl 2 live
    (by simp [following])).mpr (fun path member node here _ => by
      rw [← ExtTreeSet.mem_toList, paths.1, List.mem_singleton] at member
      rw [member, paths.2] at here
      cases here
      rfl)
  exact ⟨server, after, reachable, applied, exactly⟩

def staleLog : List Request :=
  -- Session 1 puts a persistent node where session 2 has deleted its ephemeral one.
  [.registering 1 5000, .registering 2 5000, .creating 1 (text "/a") kEphemeral,
    .deleting 2 (text "/a"), .creating 1 (text "/a") kPersist]

theorem close_not_exact :
    ∃ server after node, Reachable Options.standard .sample server ∧
      onCommand Options.standard (.still 0) (.closing 1) server = .ok after ∧
      Store.treeOf server.machine.db (text "/a") = some node ∧ node.ephemeral = false ∧
      Store.treeOf after.machine.db (text "/a") = none ∧
      ¬ (Store.treeOf server.machine.db).ClosesExactly 1 (Store.treeOf after.machine.db) := by
  obtain ⟨server, reachable, here, found⟩ := exists_reachable Options.standard .sample (.still 0)
    (replay staleLog) (fun server => Store.treeOf server.machine.db (text "/a") =
        some { newNode [] kPersist with sid := 1 } ∧
      Runs.passes (onCommand Options.standard (.still 0) (.closing 1) server) (fun after =>
        (Store.treeOf after.machine.db (text "/a")).isNone) = true) (by decide +kernel)
  simp only [Runs.passes_iff, Option.isNone_iff_eq_none] at found
  obtain ⟨after, applied, gone⟩ := found
  refine ⟨server, after, _, reachable, applied, here, rfl, gone, fun exactly => ?_⟩
  rcases (exactly.gone (text "/a")).mp gone with absent | ⟨node, present, kind, -⟩
  · rw [here] at absent
    cases absent
  · rw [here] at present
    cases present
    cases kind

end Server

end Pyxis
