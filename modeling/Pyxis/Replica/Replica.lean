import Std.Data.ExtTreeSet
import Pyxis.Shared.Runs
import Pyxis.Server.Message
import Pyxis.Store.Persist
import Pyxis.Store.Closure

set_option autoImplicit false

/-!
# The replicated state machine

What a server is for, without its memory layout: a tree, the session records, and the live
sessions with the paths each of them will delete when it closes. Commands are applied to it in
log order, and nothing else changes it.
-/

open Std (ExtTreeSet)

namespace Pyxis

@[ext] structure Replica where
  tree : Tree
  records : Sid → Option SessionRecord
  owned : Sid → Option (ExtTreeSet Str)

namespace Replica

variable (options : Options)

def onOwned (sid : Sid) (f : ExtTreeSet Str → ExtTreeSet Str) (r : Replica) : Replica :=
  { r with owned := Function.update r.owned sid ((r.owned sid).map f) }

def register (sid : Sid) (timeout : Int) (r : Replica) : Replica :=
  -- A new session starts with no paths; one that is live keeps its own, but not its record.
  { r with
    records := Function.update r.records sid (some ⟨sid, timeout, [], []⟩)
    owned := Function.update r.owned sid (some ((r.owned sid).getD ∅)) }

def closeNode (sid : Sid) (path : Str) (r : Replica) : Except Fault Replica :=
  match r.tree path with
  | none => .ok r
  | some node =>
      if node.sid = sid then do
        match ← r.tree.delete options path with
        | none => .error .closeDelete
        | some tree => return { r with tree := tree }
      else .ok r

def forget (sid : Sid) (r : Replica) : Replica :=
  { r with
    records := Function.update r.records sid none
    owned := Function.update r.owned sid none }

def close (sid : Sid) (r : Replica) : Except Fault Replica :=
  match r.owned sid with
  | none => .ok r
  | some paths => Runs.run (closeNode options sid) (r.forget sid) paths.toList

def create (sid : Sid) (req : CreateRequest) (r : Replica) : Replica :=
  if r.owned sid = none ∧ isEphemeral req.flags = true then r
  else
    match r.tree.create options req.path req.data req.flags sid with
    | none => r
    | some tree =>
        if isEphemeral req.flags then onOwned sid (·.insert req.path) { r with tree := tree }
        else { r with tree := tree }

def delete (sid : Sid) (path : Str) (r : Replica) : Except Fault Replica := do
  match ← r.tree.delete options path with
  | none => return r
  | some tree => return onOwned sid (·.erase path) { r with tree := tree }

def write (req : WriteRequest) (r : Replica) : Replica :=
  { r with tree := (r.tree.write options req.path req.data).getD r.tree }

def apply (req : Request) (r : Replica) : Except Fault Replica :=
  match req.body with
  | .register timeout => .ok (r.register req.sid timeout)
  | .unregister => r.close options req.sid
  | .create create => .ok (r.create options req.sid create)
  | .delete path => r.delete options req.sid path
  | .read _ => if req.watch.isNone then .error .readWatch else .ok r
  | .write write => .ok (r.write options write)
  | .stat _ => if req.watch.isNone then .error .statWatch else .ok r
  | .watch | .none => .ok r

/-- The tree is closed, records name no watch and no node, and sessions own paths that the store
could hold. -/
structure Coherent (r : Replica) : Prop where
  closed : r.tree.Closed options
  plain : ∀ sid record, r.records sid = some record → record = ⟨sid, record.timeout, [], []⟩
  valid : ∀ sid paths, r.owned sid = some paths → ∀ path ∈ paths,
    isValidPath path = true ∧ options.underProc path = false

variable {options}

theorem onOwned_cases (sid other : Sid) (f : ExtTreeSet Str → ExtTreeSet Str) (r : Replica)
    (paths : ExtTreeSet Str) (present : (r.onOwned sid f).owned other = some paths) :
    (other = sid ∧ ∃ before, r.owned sid = some before ∧ paths = f before) ∨
      (other ≠ sid ∧ r.owned other = some paths) := by
  by_cases same : other = sid
  · subst same
    simp only [onOwned, Function.update_self, Option.map_eq_some_iff] at present
    obtain ⟨before, found, rfl⟩ := present
    exact .inl ⟨rfl, before, found, rfl⟩
  · simp only [onOwned, Function.update_of_ne same] at present
    exact .inr ⟨same, present⟩

-- What a command that gets through can have done, one case for each kind of change.
variable (options) in
inductive Applied (req : Request) (r : Replica) : Replica → Prop where
  | same : Applied req r r
  | register (timeout : Int) : Applied req r (r.register req.sid timeout)
  | close (next : Replica) (body : req.body = .unregister)
      (closed : r.close options req.sid = .ok next) : Applied req r next
  | create (create : CreateRequest) : Applied req r (r.create options req.sid create)
  | delete (path : Str) (tree : Tree) (deleted : r.tree.delete options path = .ok (some tree)) :
      Applied req r (onOwned req.sid (·.erase path) { r with tree := tree })
  | write (write : WriteRequest) : Applied req r (r.write options write)

theorem delete_eq (sid : Sid) (path : Str) (r : Replica) :
    r.delete options sid path = (r.tree.delete options path).map fun result =>
      match result with
      | none => r
      | some tree => onOwned sid (·.erase path) { r with tree := tree } := by
  unfold delete
  cases r.tree.delete options path with
  | error fault => rfl
  | ok result => cases result <;> rfl

theorem apply_ok {req : Request} {r next : Replica} (applied : r.apply options req = .ok next) :
    Applied options req r next := by
  unfold apply at applied
  cases body : req.body with
  | register timeout =>
      rw [body] at applied
      cases applied
      exact .register timeout
  | unregister =>
      rw [body] at applied
      exact .close next body applied
  | create create =>
      rw [body] at applied
      cases applied
      exact .create create
  | delete path =>
      simp only [body, delete_eq] at applied
      cases deleted : r.tree.delete options path with
      | error fault =>
          rw [deleted] at applied
          cases applied
      | ok result =>
          rw [deleted] at applied
          cases applied
          cases result with
          | none => exact .same
          | some tree => exact .delete path tree deleted
  | write write =>
      rw [body] at applied
      cases applied
      exact .write write
  | read path | stat path =>
      simp only [body] at applied
      split_ifs at applied
      cases applied
      exact .same
  | watch | none =>
      rw [body] at applied
      cases applied
      exact .same

theorem Coherent.onTree {r : Replica} (coherent : r.Coherent options) (tree : Tree)
    (closed : tree.Closed options) : Coherent options { r with tree := tree } :=
  ⟨closed, coherent.plain, coherent.valid⟩

theorem Coherent.register {r : Replica} (coherent : r.Coherent options) (sid : Sid)
    (timeout : Int) : (r.register sid timeout).Coherent options := by
  refine ⟨coherent.closed, fun other record present => ?_,
    fun other paths present path member => ?_⟩
  · by_cases same : other = sid
    · subst same
      simp only [Replica.register, Function.update_self, Option.some.injEq] at present
      rw [← present]
    · simp only [Replica.register, Function.update_of_ne same] at present
      exact coherent.plain other record present
  by_cases same : other = sid
  · subst same
    simp only [Replica.register, Function.update_self, Option.some.injEq] at present
    subst present
    cases found : r.owned other with
    | none => simp [found] at member
    | some before =>
        exact coherent.valid other before found path (by simpa [found] using member)
  · simp only [Replica.register, Function.update_of_ne same] at present
    exact coherent.valid other paths present path member

theorem Coherent.forget {r : Replica} (coherent : r.Coherent options) (sid : Sid) :
    (r.forget sid).Coherent options := by
  constructor
  · exact coherent.closed
  · intro other record present
    by_cases same : other = sid
    · simp [Replica.forget, same] at present
    · simp only [Replica.forget, Function.update_of_ne same] at present
      exact coherent.plain other record present
  · intro other paths present
    by_cases same : other = sid
    · simp [Replica.forget, same] at present
    · simp only [Replica.forget, Function.update_of_ne same] at present
      exact coherent.valid other paths present

theorem coherent_insert {r : Replica} (coherent : r.Coherent options) (sid : Sid) (path : Str)
    (valid : isValidPath path = true) (outside : options.underProc path = false) :
    (r.onOwned sid (·.insert path)).Coherent options := by
  refine ⟨coherent.closed, coherent.plain, fun other paths present key member => ?_⟩
  rcases onOwned_cases _ _ _ _ _ present with ⟨rfl, before, found, rfl⟩ | ⟨-, found⟩
  · rcases ExtTreeSet.mem_insert.mp member with equal | old
    · rw [Std.compare_eq_iff_eq] at equal
      subst equal
      exact ⟨valid, outside⟩
    · exact coherent.valid other before found key old
  · exact coherent.valid other paths found key member

variable (options) in
theorem create_cases (sid : Sid) (req : CreateRequest) (r : Replica) :
    r.create options sid req = r ∨
      ∃ tree, r.tree.create options req.path req.data req.flags sid = some tree ∧
        ((isEphemeral req.flags = true ∧ r.owned sid ≠ none ∧
            r.create options sid req = onOwned sid (·.insert req.path) { r with tree := tree }) ∨
          (isEphemeral req.flags = false ∧
            r.create options sid req = { r with tree := tree })) := by
  unfold Replica.create
  split
  · exact .inl rfl
  next admitted =>
    cases created : r.tree.create options req.path req.data req.flags sid with
    | none => exact .inl rfl
    | some tree =>
        refine .inr ⟨tree, rfl, ?_⟩
        cases kind : isEphemeral req.flags with
        | false => exact .inr ⟨rfl, by simp⟩
        | true => exact .inl ⟨rfl, fun dead => admitted ⟨dead, kind⟩, by simp⟩

theorem Coherent.create {r : Replica} (coherent : r.Coherent options) (sid : Sid)
    (req : CreateRequest) : (r.create options sid req).Coherent options := by
  rcases create_cases options sid req r with same | ⟨tree, created, outcome⟩
  · rw [same]
    exact coherent
  have grown := coherent.onTree tree
    (Tree.closed_create options r.tree tree coherent.closed _ _ _ _ created)
  obtain ⟨-, -, -, -, -, valid, outside, -⟩ := Tree.create_some options _ _ _ _ _ _ created
  rcases outcome with ⟨-, -, bound⟩ | ⟨-, stored⟩
  · rw [bound]
    exact coherent_insert grown sid req.path valid outside
  · rw [stored]
    exact grown

theorem Coherent.write {r : Replica} (coherent : r.Coherent options) (req : WriteRequest) :
    (r.write options req).Coherent options := by
  refine coherent.onTree _ ?_
  cases written : r.tree.write options req.path req.data with
  | none => exact coherent.closed
  | some tree => exact Tree.closed_write options _ tree coherent.closed _ _ written

theorem Coherent.removed {r : Replica} (coherent : r.Coherent options) (sid : Sid) (path : Str)
    (tree : Tree) (deleted : r.tree.delete options path = .ok (some tree)) :
    (onOwned sid (·.erase path) { r with tree := tree }).Coherent options := by
  refine ⟨Tree.closed_delete options _ tree coherent.closed path deleted, coherent.plain,
    fun other paths present key member => ?_⟩
  rcases onOwned_cases _ _ _ _ _ present with ⟨rfl, before, found, rfl⟩ | ⟨-, found⟩
  · exact coherent.valid other before found key (ExtTreeSet.mem_erase.mp member).2
  · exact coherent.valid other paths found key member

end Replica

end Pyxis
