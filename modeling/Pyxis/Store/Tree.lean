import Mathlib.Data.List.Count
import Mathlib.Logic.Function.Basic
import Pyxis.Store.Path
import Pyxis.Store.Node

set_option autoImplicit false

namespace Pyxis

def rootNode (procName : Str) : Node := addChild (newNode [] kPersist) procName

theorem rootNode_ephemeral (procName : Str) : (rootNode procName).ephemeral = false := by
  change isEphemeral kPersist = false
  decide

structure Layout where
  procRoot : Str
  maxNodeSize : Nat

namespace Layout

def underProc (layout : Layout) (path : Str) : Bool := layout.procRoot.isPrefixOf path

def sizeLimit (layout : Layout) : Nat := layout.maxNodeSize * 1024

theorem underProc_parent (layout : Layout) {path parent son : Str}
    (rooted : ∃ rest, path = '/' :: rest) (split : splitPath path = .ok (parent, son))
    (outside : layout.underProc path = false) : layout.underProc parent = false := by
  have leads : parent <+: path := by
    rcases (splitPath_parent path parent son split).2 with rfl | leads
    · obtain ⟨rest, rfl⟩ := rooted
      exact ⟨rest, rfl⟩
    · exact leads
  rw [Bool.eq_false_iff] at outside ⊢
  intro inside
  apply outside
  rw [underProc, List.isPrefixOf_iff_prefix] at inside ⊢
  exact inside.trans leads

end Layout

-- The options and flags the server's logic reads. The proc root is one component under the root.
structure Options extends Layout where
  maxSessionTimeout : Int
  minSessionTimeout : Int
  sessionCheckInterval : Int
  -- `roundTo` multiplies the interval by 1000 in an `int`.
  intervalFits : sessionCheckInterval.natAbs ≤ 2147483
  addrList : List Str
  procName : Str
  procName_isName : IsName procName
  procRoot_eq : procRoot = '/' :: procName
  rootFits : (rootNode procName).byteSize ≤ maxNodeSize * 1024

instance : Coe Options Layout := ⟨Options.toLayout⟩

namespace Options

def standard : Options where
  procRoot := ['/', 'p', 'y', 'x', 'i', 's']
  maxNodeSize := 1024
  maxSessionTimeout := 2 * 60 * 1000
  minSessionTimeout := 5 * 1000
  sessionCheckInterval := 1000
  intervalFits := by decide
  addrList := []
  procName := ['p', 'y', 'x', 'i', 's']
  procName_isName := by decide
  procRoot_eq := rfl
  rootFits := by decide

theorem underProc_root (options : Options) : options.underProc rootPath = false := by
  have nonempty := options.procName_isName.1
  cases name : options.procName with
  | nil => exact absurd name nonempty
  | cons c rest => simp [Layout.underProc, options.procRoot_eq, name, rootPath]

theorem underProc_self (options : Options) : options.underProc options.procRoot = true :=
  List.isPrefixOf_iff_prefix.mpr (List.prefix_refl _)

theorem underProc_parent (options : Options) (path parent son : Str)
    (split : splitPath path = .ok (parent, son)) (outside : options.underProc path = false) :
    options.underProc parent = false := by
  rcases (splitPath_parent path parent son split).2 with rfl | leads
  · exact options.underProc_root
  · rw [Bool.eq_false_iff] at outside ⊢
    intro inside
    apply outside
    rw [Layout.underProc, List.isPrefixOf_iff_prefix] at inside ⊢
    exact inside.trans leads

end Options

abbrev Tree := Str → Option Node

namespace Tree

variable (options : Options)

def create (tree : Tree) (path data : Str) (flags : UInt32) (sid : Sid) : Option Tree :=
  match splitPath path with
  | .error _ => none
  | .ok (parentName, sonName) =>
      match tree parentName with
      | none => none
      | some parent =>
          if isValidPath path = true ∧ options.underProc path = false ∧
              data.length ≤ options.sizeLimit ∧ tree path = none ∧ parent.ephemeral = false ∧
              (addChild parent sonName).byteSize ≤ options.sizeLimit then
            some (Function.update
              (Function.update tree path (some { newNode data flags with sid := sid }))
              parentName (some (addChild parent sonName)))
          else none

def delete (tree : Tree) (path : Str) : Except Fault (Option Tree) :=
  -- Fails where the parent does not list the name, as the assertion in `Delete` does.
  match splitPath path with
  | .error _ => .ok none
  | .ok (parentName, sonName) =>
      match tree path, tree parentName with
      | some son, some parent =>
          if isValidPath path = true ∧ options.underProc path = false ∧ son.children = [] then
            match removeChild parent sonName with
            | .error _ => .error .removeChild
            | .ok removed =>
                .ok (some (Function.update (Function.update tree path none)
                  parentName (some removed)))
          else .ok none
      | _, _ => .ok none

def write (tree : Tree) (path data : Str) : Option Tree :=
  -- Only for a path outside the proc root: a proc write leaves the tree alone.
  match tree path with
  | none => none
  | some node =>
      let written := { node with data := data, version := node.version + 1 }
      if isValidPath path = true ∧ options.underProc path = false ∧
          written.byteSize ≤ options.sizeLimit then
        some (Function.update tree path (some written))
      else none

theorem create_some (tree next : Tree) (path data : Str) (flags : UInt32) (sid : Sid)
    (created : tree.create options path data flags sid = some next) :
    ∃ parentName sonName parent, splitPath path = .ok (parentName, sonName) ∧
      tree parentName = some parent ∧ isValidPath path = true ∧
      options.underProc path = false ∧ tree path = none ∧ parent.ephemeral = false ∧
      next = Function.update
        (Function.update tree path (some { newNode data flags with sid := sid }))
        parentName (some (addChild parent sonName)) := by
  unfold create at created
  split at created
  · cases created
  next parentName sonName split =>
    split at created
    · cases created
    next parent stored =>
      split_ifs at created with admitted
      obtain ⟨valid, outside, -, absent, persistent, -⟩ := admitted
      exact ⟨parentName, sonName, parent, split, stored, valid, outside, absent, persistent,
        (Option.some.inj created).symm⟩

theorem delete_some (tree next : Tree) (path : Str)
    (deleted : tree.delete options path = .ok (some next)) :
    ∃ parentName sonName son parent removed, splitPath path = .ok (parentName, sonName) ∧
      tree path = some son ∧ tree parentName = some parent ∧ isValidPath path = true ∧
      options.underProc path = false ∧ son.children = [] ∧
      removeChild parent sonName = .ok removed ∧
      next = Function.update (Function.update tree path none) parentName (some removed) := by
  unfold delete at deleted
  split at deleted
  · cases deleted
  next parentName sonName split =>
    split at deleted
    next son parent here above =>
      split_ifs at deleted with admitted
      · obtain ⟨valid, outside, childless⟩ := admitted
        cases listed : removeChild parent sonName with
        | error status => simp [listed] at deleted
        | ok removed =>
            simp only [listed, Except.ok.injEq, Option.some.injEq] at deleted
            exact ⟨parentName, sonName, son, parent, removed, split, here, above, valid, outside,
              childless, listed, deleted.symm⟩
      · cases deleted
    · cases deleted

theorem write_some (tree next : Tree) (path data : Str)
    (written : tree.write options path data = some next) :
    ∃ node, tree path = some node ∧ isValidPath path = true ∧
      options.underProc path = false ∧
      next = Function.update tree path
        (some { node with data := data, version := node.version + 1 }) := by
  unfold write at written
  split at written
  · cases written
  next node stored =>
    dsimp only at written
    split_ifs at written with admitted
    exact ⟨node, stored, admitted.1, admitted.2.1, (Option.some.inj written).symm⟩

def spellings (parent name : Str) : List Str :=
  if IsName name then
    joinPath parent name :: if parent = rootPath then [doubledPath name] else []
  else []

theorem mem_spellings (path parent name : Str) (nonempty : parent ≠ []) :
    path ∈ spellings parent name ↔ splitPath path = .ok (parent, name) := by
  rw [splitPath_ok_iff]
  by_cases named : IsName name <;> by_cases top : parent = rootPath <;>
    simp [spellings, named, top, nonempty]
  all_goals simp [rootPath]

theorem spellings_nodup (parent name : Str) : (spellings parent name).Nodup := by
  by_cases named : IsName name <;> by_cases top : parent = rootPath <;>
    simp [spellings, named, top, joinPath, doubledPath]

def stored (tree : Tree) (parent name : Str) : Nat :=
  (spellings parent name).countP fun path => (tree path).isSome

theorem stored_insert (tree next : Tree) (path : Str) (absent : (tree path).isSome = false)
    (present : (next path).isSome = true)
    (others : ∀ other, other ≠ path → (next other).isSome = (tree other).isSome)
    (parent name : Str) :
    stored next parent name =
      stored tree parent name + if path ∈ spellings parent name then 1 else 0 := by
  unfold stored
  have nodup := spellings_nodup parent name
  generalize spellings parent name = paths at nodup ⊢
  induction paths with
  | nil => simp
  | cons head rest ih =>
      obtain ⟨fresh, nodup⟩ := List.nodup_cons.mp nodup
      have tail := ih nodup
      by_cases same : head = path
      · subst same
        simp only [List.countP_cons, tail, fresh, absent, present, if_true, if_false,
          List.mem_cons, true_or, Bool.false_eq_true]
      · simp only [List.countP_cons, tail, others head same, List.mem_cons, Ne.symm same,
          false_or]
        omega

end Tree

end Pyxis
