import Pyxis.Replica.Replica

set_option autoImplicit false

open Std (ExtTreeSet)

namespace Pyxis

-- The node but for its children, which a deletion elsewhere may change.
def Node.bare (node : Node) : Node := { node with children := [] }

namespace Tree

def bare (tree : Tree) (path : Str) : Option Node := (tree path).map Node.bare

def tagged (tree : Tree) (sid : Sid) (path : Str) : Bool :=
  -- The path holds a node that was created by the session, ephemeral or not.
  (tree path).any fun node => node.sid == sid

theorem tagged_iff (tree : Tree) (sid : Sid) (path : Str) :
    tree.tagged sid path = true ↔ ∃ node, tree path = some node ∧ node.sid = sid := by
  cases here : tree path <;> simp [tagged, here]

theorem bare_none (tree : Tree) (path : Str) : tree.bare path = none ↔ tree path = none :=
  Option.map_eq_none_iff

theorem tagged_congr (tree other : Tree) (sid : Sid) (path : Str)
    (same : tree.bare path = other.bare path) : tree.tagged sid path = other.tagged sid path := by
  have reads (tree : Tree) : tree.tagged sid path = (tree.bare path).any (·.sid == sid) := by
    cases here : tree path <;> simp [tagged, bare, here, Node.bare]
  rw [reads, reads, same]

variable {options : Options}

theorem delete_bare {tree next : Tree} {path : Str}
    (deleted : tree.delete options path = .ok (some next)) (other : Str) :
    next.bare other = if other = path then none else tree.bare other := by
  obtain ⟨parentName, sonName, son, parent, removed, split, -, above, -, -, -, found, rfl⟩ :=
    delete_some options tree next path deleted
  have apart : parentName ≠ path := (splitPath_parent path parentName sonName split).1
  have same : removed.bare = parent.bare := by
    rw [(removeChild_spec parent removed sonName found).1]
    rfl
  by_cases parentHere : other = parentName
  · subst parentHere
    simp [bare, apart, above, same]
  · by_cases here : other = path
    · subst here
      simp [bare, Function.update_of_ne parentHere]
    · simp [bare, here, Function.update_of_ne parentHere]

theorem delete_elsewhere {tree next : Tree} {path : Str}
    (deleted : tree.delete options path = .ok (some next)) (other : Str) (apart : other ≠ path)
    (notParent : ∀ name, splitPath path ≠ .ok (other, name)) : next other = tree other := by
  obtain ⟨parentName, sonName, -, -, -, split, -, -, -, -, -, -, rfl⟩ :=
    delete_some options tree next path deleted
  have parentElse : other ≠ parentName := fun same => notParent sonName (same ▸ split)
  simp [Function.update_of_ne parentElse, Function.update_of_ne apart]

theorem root_children {tree : Tree} (closed : tree.Closed options) {root : Node}
    (here : tree rootPath = some root) : root.children ≠ [] := by
  intro childless
  have count := closed.counted rootPath root here options.procName
  rw [childless] at count
  simp [procEntry] at count

theorem delete_accepted {tree : Tree} (closed : tree.Closed options) {path : Str} {node : Node}
    (here : tree path = some node) :
    (∃ next, tree.delete options path = .ok (some next)) ↔ node.children = [] := by
  constructor
  · rintro ⟨next, deleted⟩
    obtain ⟨-, -, son, -, -, -, found, -, -, -, childless, -⟩ :=
      delete_some options tree next path deleted
    rw [here] at found
    cases found
    exact childless
  · intro childless
    have notRoot : path ≠ rootPath := fun same => root_children closed (same ▸ here) childless
    obtain ⟨valid, outside⟩ := closed.valid path node here
    obtain ⟨parentName, sonName, parent, split, above, -⟩ := closed.parent path node here notRoot
    obtain ⟨result, deleted⟩ := delete_ok options tree closed path
    simp only [delete, split, here, above, valid, outside, childless, and_self, if_true]
      at deleted ⊢
    cases listed : removeChild parent sonName with
    | error status => simp [listed] at deleted
    | ok removed => exact ⟨_, rfl⟩

end Tree

namespace Replica

variable {options : Options}

theorem closeNode_ok {sid : Sid} {path : Str} {r next : Replica}
    (done : closeNode options sid path r = .ok next) :
    next = { r with tree := next.tree } ∧
      ((r.tree.tagged sid path = false ∧ next.tree = r.tree) ∨
        (r.tree.tagged sid path = true ∧ r.tree.delete options path = .ok (some next.tree))) := by
  unfold closeNode at done
  split at done
  next gone =>
    cases done
    exact ⟨rfl, .inl ⟨by simp [Tree.tagged, gone], rfl⟩⟩
  next node here =>
    split_ifs at done with same
    · cases deleted : r.tree.delete options path with
      | error fault => simp [deleted, bind, Except.bind] at done
      | ok result =>
          cases result with
          | none => simp [deleted, bind, Except.bind] at done
          | some tree =>
              simp only [deleted, bind, Except.bind, pure, Except.pure, Except.ok.injEq] at done
              subst done
              exact ⟨rfl, .inr ⟨by simp [Tree.tagged, here, same], rfl⟩⟩
    · cases done
      exact ⟨rfl, .inl ⟨by simp [Tree.tagged, here, same], rfl⟩⟩

theorem closeNode_skip {sid : Sid} {path : Str} {r : Replica}
    (other : r.tree.tagged sid path = false) : closeNode options sid path r = .ok r := by
  unfold closeNode
  split
  · rfl
  next node here =>
    have foreign : node.sid ≠ sid := by simpa [Tree.tagged, here] using other
    rw [if_neg foreign]

theorem closeNode_delete {sid : Sid} {path : Str} {r : Replica} {tree : Tree}
    (own : r.tree.tagged sid path = true) (deleted : r.tree.delete options path = .ok (some tree)) :
    closeNode options sid path r = .ok { r with tree := tree } := by
  obtain ⟨node, here, same⟩ := (Tree.tagged_iff _ _ _).mp own
  simp only [closeNode, here, if_pos same, deleted, bind, Except.bind, pure, Except.pure]

theorem closeNode_bare {sid : Sid} {path : Str} {r next : Replica}
    (done : closeNode options sid path r = .ok next) (other : Str) :
    next.tree.bare other =
      if other = path ∧ r.tree.tagged sid other = true then none else r.tree.bare other := by
  rcases (closeNode_ok done).2 with ⟨foreign, same⟩ | ⟨own, deleted⟩
  · rw [same, if_neg]
    rintro ⟨rfl, own⟩
    simp [foreign] at own
  · rw [Tree.delete_bare deleted other]
    by_cases here : other = path
    · subst here
      simp [own]
    · simp [here]

theorem closeNode_closed {sid : Sid} {path : Str} {r next : Replica}
    (closed : r.tree.Closed options) (done : closeNode options sid path r = .ok next) :
    next.tree.Closed options := by
  rcases (closeNode_ok done).2 with ⟨-, same⟩ | ⟨-, deleted⟩
  · rw [same]
    exact closed
  · exact Tree.closed_delete options _ _ closed path deleted

def Childless (sid : Sid) (tree : Tree) (paths : List Str) : Prop :=
  ∀ path ∈ paths, ∀ node, tree path = some node → node.sid = sid → node.children = []

theorem closeNode_exists {sid : Sid} {path : Str} {r : Replica} (closed : r.tree.Closed options) :
    (∃ next, closeNode options sid path r = .ok next) ↔ Childless sid r.tree [path] := by
  simp only [Childless, List.mem_singleton, forall_eq]
  constructor
  · rintro ⟨next, done⟩ node here same
    rcases (closeNode_ok done).2 with ⟨foreign, -⟩ | ⟨-, deleted⟩
    · simp [Tree.tagged, here, same] at foreign
    · exact (Tree.delete_accepted closed here).mp ⟨_, deleted⟩
  · intro childless
    cases own : r.tree.tagged sid path with
    | false => exact ⟨r, closeNode_skip own⟩
    | true =>
        obtain ⟨node, here, same⟩ := (Tree.tagged_iff _ _ _).mp own
        obtain ⟨next, deleted⟩ := (Tree.delete_accepted closed here).mpr (childless node here same)
        exact ⟨_, closeNode_delete own deleted⟩

theorem closeNodes_spec {sid : Sid} (paths : List Str) (r last : Replica)
    (closed : r.tree.Closed options)
    (done : Runs.run (closeNode options sid) r paths = .ok last) :
    last = { r with tree := last.tree } ∧ last.tree.Closed options ∧
      ∀ other, last.tree.bare other =
        if other ∈ paths ∧ r.tree.tagged sid other = true then none else r.tree.bare other := by
  induction paths generalizing r with
  | nil =>
      cases done
      exact ⟨rfl, closed, by simp⟩
  | cons path rest ih =>
      obtain ⟨next, visited, later⟩ := (Runs.run_cons_ok _ _ _ _ _).mp done
      obtain ⟨frame, closedLast, bare⟩ := ih next (closeNode_closed closed visited) later
      refine ⟨?_, closedLast, fun other => ?_⟩
      · rw [frame, (closeNode_ok visited).1]
      · have step := closeNode_bare visited other
        rw [bare other]
        by_cases here : other = path ∧ r.tree.tagged sid other = true
        · rw [if_pos here] at step
          rw [step, ite_self, if_pos ⟨by simp [here.1], here.2⟩]
        · rw [if_neg here] at step
          rw [Tree.tagged_congr _ _ sid other step, step]
          refine if_congr ?_ rfl rfl
          rw [List.mem_cons, or_and_right]
          exact (or_iff_right here).symm

def ParentsFirst (paths : List Str) : Prop :=
  paths.Pairwise fun path later => ∀ name, splitPath path ≠ .ok (later, name)

theorem parentsFirst_toList (paths : ExtTreeSet Str) : ParentsFirst paths.toList := by
  refine ExtTreeSet.ordered_toList.imp fun {path later} before name split => ?_
  have after := splitPath_lt path later name split
  rw [Std.OrientedCmp.gt_of_lt before] at after
  cases after

theorem closeNodes_exists {sid : Sid} (paths : List Str) (r : Replica)
    (closed : r.tree.Closed options) (order : ParentsFirst paths) :
    (∃ last, Runs.run (closeNode options sid) r paths = .ok last) ↔
      Childless sid r.tree paths := by
  -- The loop gets through exactly when no node it is to delete has children at the start: it
  -- visits a node before the children, so it never makes room for it.
  induction paths generalizing r with
  | nil => simp [Childless]
  | cons path rest ih =>
      obtain ⟨first, order⟩ := List.pairwise_cons.mp order
      have tail {next : Replica} (visited : closeNode options sid path r = .ok next) :
          Childless sid r.tree rest ↔ Childless sid next.tree rest := by
        refine forall₂_congr fun other member => ?_
        rcases (closeNode_ok visited).2 with ⟨-, same⟩ | ⟨own, deleted⟩
        · rw [same]
        by_cases here : other = path
        · subst here
          obtain ⟨node, present, same⟩ := (Tree.tagged_iff _ _ _).mp own
          have gone := (Tree.bare_none _ _).mp ((Tree.delete_bare deleted other).trans (if_pos rfl))
          have childless := (Tree.delete_accepted closed present).mp ⟨_, deleted⟩
          simp [present, gone, childless]
        · rw [Tree.delete_elsewhere deleted other here (first other member)]
      have split : Childless sid r.tree (path :: rest) ↔
          Childless sid r.tree [path] ∧ Childless sid r.tree rest := by
        simp [Childless]
      rw [split, ← closeNode_exists closed]
      constructor
      · rintro ⟨last, done⟩
        obtain ⟨next, visited, later⟩ := (Runs.run_cons_ok _ _ _ _ _).mp done
        exact ⟨⟨next, visited⟩, (tail visited).mpr
          ((ih next (closeNode_closed closed visited) order).mp ⟨last, later⟩)⟩
      · rintro ⟨⟨next, visited⟩, childless⟩
        obtain ⟨last, later⟩ := (ih next (closeNode_closed closed visited) order).mpr
          ((tail visited).mp childless)
        exact ⟨last, (Runs.run_cons_ok _ _ _ _ _).mpr ⟨next, visited, later⟩⟩

theorem closeNodes_filter {sid : Sid} (paths : List Str) (distinct : paths.Nodup) (r : Replica) :
    Runs.run (closeNode options sid) r paths =
      Runs.run (closeNode options sid) r (paths.filter (r.tree.tagged sid)) := by
  induction paths generalizing r with
  | nil => rfl
  | cons path rest ih =>
      obtain ⟨fresh, distinct⟩ := List.nodup_cons.mp distinct
      cases own : r.tree.tagged sid path with
      | false =>
          rw [List.filter_cons_of_neg (by simp [own]), Runs.run, closeNode_skip own]
          exact ih distinct r
      | true =>
          rw [List.filter_cons_of_pos own, Runs.run, Runs.run]
          cases visited : closeNode options sid path r with
          | error fault => rfl
          | ok next =>
              have agree : rest.filter (next.tree.tagged sid) =
                  rest.filter (r.tree.tagged sid) := by
                refine List.filter_congr fun other member => Tree.tagged_congr _ _ sid other ?_
                rw [closeNode_bare visited other, if_neg]
                rintro ⟨rfl, -⟩
                exact fresh member
              exact (ih distinct next).trans (by rw [agree])

end Replica

end Pyxis
