import Pyxis.Shared.Runs
import Pyxis.Store.Persist
import Pyxis.Store.Closure

set_option autoImplicit false

namespace Pyxis.Store

def treeOf (db : Persist) : Tree := fun path => db[path]?.bind Value.toNode

theorem treeOf_insert (db : Persist) (key : Str) (value : Value) :
    treeOf (db.insert key value) = Function.update (treeOf db) key value.toNode := by
  funext path
  by_cases same : path = key
  · simp [treeOf, same]
  · simp [treeOf, Std.ExtTreeMap.getElem?_insert, Ne.symm same, Function.update_of_ne same]

theorem treeOf_erase (db : Persist) (key : Str) :
    treeOf (db.erase key) = Function.update (treeOf db) key none := by
  funext path
  by_cases same : path = key
  · simp [treeOf, same]
  · simp [treeOf, Std.ExtTreeMap.getElem?_erase, Ne.symm same, Function.update_of_ne same]

def IsTreeKey (key : Str) : Prop := ∃ rest, key = '/' :: rest

def NodeKeys (db : Persist) : Prop :=
  ∀ key value, IsTreeKey key → db[key]? = some value → ∃ node, value = .node node

theorem nodeKeys_insert (db : Persist) (path : Str) (node : Node) (nodes : NodeKeys db) :
    NodeKeys (db.insert path (.node node)) := by
  intro key value ours found
  rw [Std.ExtTreeMap.getElem?_insert] at found
  split_ifs at found
  · exact ⟨node, (Option.some.inj found).symm⟩
  · exact nodes key value ours found

theorem nodeKeys_erase (db : Persist) (path : Str) (nodes : NodeKeys db) :
    NodeKeys (db.erase path) := by
  intro key value ours found
  rw [Std.ExtTreeMap.getElem?_erase] at found
  split_ifs at found
  exact nodes key value ours found

/-- A store update does to the tree what the abstract update does, writes only nodes there, and
leaves every other key alone. -/
structure Refines (db : Persist) (abstract : Option Tree) (result : Status × Persist) : Prop where
  tree : treeOf result.2 = abstract.getD (treeOf db)
  frame : ∀ key, ¬ IsTreeKey key → result.2[key]? = db[key]?
  nodes : NodeKeys db → NodeKeys result.2

theorem refines_unchanged (db : Persist) (status : Status) : Refines db none (status, db) :=
  ⟨rfl, fun _ _ => rfl, id⟩

section Requests

variable (layout : Layout) (proc : ProcDB)

theorem get_ok_iff (db : Persist) (path : Str) (node : Node)
    (outside : layout.underProc path = false) :
    get layout proc db path = .ok node ↔ isValidPath path = true ∧ treeOf db path = some node := by
  cases valid : isValidPath path with
  | false => simp [get, valid]
  | true =>
      cases found : db[path]? with
      | none => simp [get, valid, outside, found, treeOf]
      | some value =>
          cases parsed : value.toNode <;> simp [get, valid, outside, found, treeOf, parsed]

theorem treeOf_of_get_error {db : Persist} {path : Str} {status : Status}
    (valid : isValidPath path = true) (outside : layout.underProc path = false)
    (failed : get layout proc db path = .error status) : treeOf db path = none := by
  cases here : treeOf db path with
  | none => rfl
  | some node =>
      rw [(get_ok_iff layout proc db path node outside).mpr ⟨valid, here⟩] at failed
      cases failed

theorem get_error_isOk (db : Persist) (path : Str) (status : Status)
    (failed : get layout proc db path = .error status) : status.isOk = false := by
  cases valid : isValidPath path with
  | false =>
      simp only [get, valid, if_true, Except.error.injEq] at failed
      subst failed
      rfl
  | true =>
      simp only [get, valid, Bool.true_eq_false, if_false] at failed
      split at failed
      · split at failed <;> cases failed <;> rfl
      · split at failed <;> cases failed
        rfl

theorem splitPath_error_isOk (path : Str) (status : Status)
    (failed : splitPath path = .error status) : status.isOk = false := by
  rw [splitPath_error path status failed]
  rfl

theorem get_absent (db : Persist) (path : Str) (valid : isValidPath path = true)
    (outside : layout.underProc path = false) (absent : treeOf db path = none) :
    ∃ status, get layout proc db path = .error status ∧ status.isInvalidArgument = false := by
  cases found : db[path]? with
  | none => exact ⟨Status.notFound path, by simp [get, valid, outside, found], rfl⟩
  | some value =>
      have parsed : value.toNode = none := by simpa [treeOf, found] using absent
      exact ⟨Status.internal (path ++ text " bad data"),
        by simp [get, valid, outside, found, parsed], rfl⟩

theorem get_not_invalid (db : Persist) (path : Str) (status : Status)
    (failed : get layout proc db path = .error status)
    (accepted : status.isInvalidArgument = false) : isValidPath path = true := by
  by_contra invalid
  have rejected : isValidPath path = false := by simpa using invalid
  simp only [get, rejected, if_true, Except.error.injEq] at failed
  subst failed
  simp at accepted

theorem isValidPath_parent (path parent son : Str) (valid : isValidPath path = true)
    (split : splitPath path = .ok (parent, son)) : isValidPath parent = true := by
  rcases (splitPath_parent path parent son split).2 with rfl | leads
  · exact isValidPath_root
  · obtain ⟨tail, rfl⟩ := leads
    obtain ⟨rest, rooted⟩ := splitPath_parent_head (parent ++ tail) parent son
      (isValidPath_head _ valid) split
    subst rooted
    simp only [List.cons_append, isValidPath, Bool.and_eq_true, beq_iff_eq, true_and,
      decide_eq_true_eq, Bool.not_eq_true', List.any_cons, List.any_append, Bool.or_eq_false_iff,
      List.length_cons, List.length_append] at valid ⊢
    exact ⟨by omega, valid.2.1, valid.2.2.1⟩

theorem frame_insert (db : Persist) (key path : Str) (value : Value) (ours : IsTreeKey path)
    (other : ¬ IsTreeKey key) : (db.insert path value)[key]? = db[key]? := by
  have different : path ≠ key := by
    rintro rfl
    exact other ours
  simp [Std.ExtTreeMap.getElem?_insert, different]

theorem frame_erase (db : Persist) (key path : Str) (ours : IsTreeKey path)
    (other : ¬ IsTreeKey key) : (db.erase path)[key]? = db[key]? := by
  have different : path ≠ key := by
    rintro rfl
    exact other ours
  simp [Std.ExtTreeMap.getElem?_erase, different]

structure Creates (db : Persist) (path data : Str) (parentName sonName : Str) (parent : Node) :
    Prop where
  outside : layout.underProc path = false
  small : data.length ≤ layout.sizeLimit
  split : splitPath path = .ok (parentName, sonName)
  valid : isValidPath path = true
  absent : treeOf db path = none
  above : treeOf db parentName = some parent
  persistent : parent.ephemeral = false
  fits : (addChild parent sonName).byteSize ≤ layout.sizeLimit

theorem create_accepted (db : Persist) (path data : Str) (flags : UInt32) (sid : Sid)
    (parentName sonName : Str) (parent : Node)
    (checked : Creates layout db path data parentName sonName parent) :
    create layout proc db path data flags sid =
      (Status.ok, (db.insert path (.node { newNode data flags with sid := sid })).insert
        parentName (.node (addChild parent sonName))) := by
  obtain ⟨status, missing, other⟩ := get_absent layout proc db path checked.valid checked.outside
    checked.absent
  have stored := (get_ok_iff layout proc db parentName parent
    (layout.underProc_parent (isValidPath_head path checked.valid) checked.split
      checked.outside)).mpr
    ⟨isValidPath_parent path parentName sonName checked.valid checked.split, checked.above⟩
  simp only [create, checked.outside, checked.split, missing, other, stored, checked.persistent,
    Nat.not_lt.mpr checked.small, Nat.not_lt.mpr checked.fits, Bool.false_eq_true, if_false]

structure Deletes (db : Persist) (path parentName sonName : Str) (parent : Node) : Prop where
  outside : layout.underProc path = false
  split : splitPath path = .ok (parentName, sonName)
  valid : isValidPath path = true
  childless : ∃ son, treeOf db path = some son ∧ son.children = []
  above : treeOf db parentName = some parent

theorem delete_accepted (db : Persist) {path parentName sonName : Str} {parent : Node}
    (checked : Deletes layout db path parentName sonName parent) :
    (∀ status, removeChild parent sonName = .error status →
      delete layout proc db path = .error .removeChild) ∧
    ∀ removed, removeChild parent sonName = .ok removed →
      delete layout proc db path =
        .ok (Status.ok, (db.erase path).insert parentName (.node removed)) := by
  obtain ⟨outside, split, valid, ⟨son, here, childless⟩, above⟩ := checked
  have found := (get_ok_iff layout proc db path son outside).mpr ⟨valid, here⟩
  have stored := (get_ok_iff layout proc db parentName parent
    (layout.underProc_parent (isValidPath_head path valid) split outside)).mpr
    ⟨isValidPath_parent path parentName sonName valid split, above⟩
  simp only [delete, outside, split, found, childless, stored, List.length_nil, ne_eq,
    not_true_eq_false, Bool.false_eq_true, if_false]
  exact ⟨fun _ removal => by rw [removal], fun _ removal => by rw [removal]⟩

theorem delete_cases (db : Persist) (path : Str) :
    (∃ status, status.isOk = false ∧ delete layout proc db path = .ok (status, db)) ∨
      ∃ parentName sonName parent, Deletes layout db path parentName sonName parent := by
  cases outside : layout.underProc path with
  | true =>
      exact .inl ⟨Status.invalidArgument (text "can't delete node under pyxis node"), rfl,
        by simp [delete, outside]⟩
  | false =>
      cases split : splitPath path with
      | error status =>
          exact .inl ⟨status, splitPath_error_isOk path status split,
            by simp [delete, outside, split]⟩
      | ok parts =>
          obtain ⟨parentName, sonName⟩ := parts
          cases found : get layout proc db path with
          | error status =>
              cases missing : status.isNotFound with
              | true =>
                  exact .inl ⟨Status.notFound path, rfl,
                    by simp [delete, outside, split, found, missing]⟩
              | false =>
                  exact .inl ⟨status, get_error_isOk layout proc db path status found,
                    by simp [delete, outside, split, found, missing]⟩
          | ok son =>
              obtain ⟨valid, here⟩ := (get_ok_iff layout proc db path son outside).mp found
              by_cases childless : son.children = []
              · cases above : get layout proc db parentName with
                | error status =>
                    exact .inl ⟨status, get_error_isOk layout proc db parentName status above,
                      by simp [delete, outside, split, found, childless, above]⟩
                | ok parent =>
                    have stored := ((get_ok_iff layout proc db parentName parent
                      (layout.underProc_parent (isValidPath_head path valid) split outside)).mp
                        above).2
                    exact .inr ⟨parentName, sonName, parent, outside, split, valid,
                      ⟨son, here, childless⟩, stored⟩
              · exact .inl ⟨Status.invalidArgument (text "children not empty"), rfl,
                  by simp [delete, outside, split, found, childless]⟩

end Requests

variable (options : Options) (proc : ProcDB)

theorem create_cases (db : Persist) (path data : Str) (flags : UInt32) (sid : Sid) :
    (∃ status, status.isOk = false ∧
        create options proc db path data flags sid = (status, db)) ∨
      ∃ parentName sonName parent, Creates options db path data parentName sonName parent := by
  by_cases inside : options.underProc path = true
  · exact .inl ⟨Status.invalidArgument (text "can't create node under pyxis node"), rfl,
      by simp [create, inside]⟩
  have outside : options.underProc path = false := by simpa using inside
  by_cases large : options.sizeLimit < data.length
  · exact .inl ⟨Status.invalidArgument (text "node size exceed"), rfl,
      by simp [create, outside, large]⟩
  cases split : splitPath path with
  | error status =>
      exact .inl ⟨status, splitPath_error_isOk path status split,
        by simp [create, outside, large, split]⟩
  | ok parts =>
      obtain ⟨parentName, sonName⟩ := parts
      cases found : get options proc db path with
      | ok node => exact .inl ⟨Status.exist path, rfl,
          by simp [create, outside, large, split, found]⟩
      | error status =>
          cases rejected : status.isInvalidArgument with
          | true =>
              exact .inl ⟨status, get_error_isOk options proc db path status found,
                by simp [create, outside, large, split, found, rejected]⟩
          | false =>
              have valid := get_not_invalid options proc db path status found rejected
              have absent := treeOf_of_get_error options proc valid outside found
              cases above : get options proc db parentName with
              | error failed =>
                  exact .inl ⟨failed, get_error_isOk options proc db parentName failed above,
                    by simp [create, outside, large, split, found, rejected, above]⟩
              | ok parent =>
                  have stored := ((get_ok_iff options proc db parentName parent
                    (options.underProc_parent path parentName sonName split outside)).mp above).2
                  cases kind : parent.ephemeral with
                  | true =>
                      exact .inl ⟨Status.invalidArgument (text "parent not persistent node"), rfl,
                        by simp [create, outside, large, split, found, rejected, above, kind]⟩
                  | false =>
                      by_cases grown : options.sizeLimit < (addChild parent sonName).byteSize
                      · exact .inl ⟨Status.invalidArgument (text "node size exceed"), rfl,
                          by simp [create, outside, large, split, found, rejected, above, kind,
                            grown]⟩
                      · exact .inr ⟨parentName, sonName, parent, outside, Nat.not_lt.mp large,
                          split, valid, absent, stored, kind, Nat.not_lt.mp grown⟩

theorem tree_create_iff (db : Persist) (path data : Str) (flags : UInt32) (sid : Sid)
    (next : Tree) :
    (treeOf db).create options path data flags sid = some next ↔
      ∃ parentName sonName parent, Creates options db path data parentName sonName parent ∧
        next = Function.update
          (Function.update (treeOf db) path (some { newNode data flags with sid := sid }))
          parentName (some (addChild parent sonName)) := by
  constructor
  · intro created
    unfold Tree.create at created
    split at created
    · cases created
    next parentName sonName split =>
      split at created
      · cases created
      next parent stored =>
        split_ifs at created with admitted
        obtain ⟨valid, outside, small, absent, persistent, fits⟩ := admitted
        exact ⟨parentName, sonName, parent,
          ⟨outside, small, split, valid, absent, stored, persistent, fits⟩,
          (Option.some.inj created).symm⟩
  · rintro ⟨parentName, sonName, parent, checked, rfl⟩
    simp only [Tree.create, checked.split, checked.above]
    rw [if_pos ⟨checked.valid, checked.outside, checked.small, checked.absent,
      checked.persistent, checked.fits⟩]

def Accepts (db : Persist) (result : Status × Persist) (abstract : Option Tree) : Prop :=
  Refines db abstract result ∧ result.1.isOk = abstract.isSome

theorem create_refines (db : Persist) (path data : Str) (flags : UInt32) (sid : Sid) :
    Accepts db (create options proc db path data flags sid)
      ((treeOf db).create options path data flags sid) := by
  cases abstract : (treeOf db).create options path data flags sid with
  | some next =>
      obtain ⟨parentName, sonName, parent, checked, rfl⟩ :=
        (tree_create_iff options db path data flags sid next).mp abstract
      have rooted := isValidPath_head path checked.valid
      rw [create_accepted options proc db path data flags sid parentName sonName parent checked]
      refine ⟨⟨?_, ?_, fun nodes => nodeKeys_insert _ _ _ (nodeKeys_insert _ _ _ nodes)⟩, rfl⟩
      · simp [treeOf_insert, Value.toNode]
      · intro key other
        rw [frame_insert _ key parentName _
            (splitPath_parent_head path parentName sonName rooted checked.split) other,
          frame_insert db key path _ rooted other]
  | none =>
      rcases create_cases options proc db path data flags sid with
        ⟨status, bad, result⟩ | ⟨parentName, sonName, parent, checked⟩
      · rw [result]
        exact ⟨refines_unchanged db status, bad⟩
      · have created := (tree_create_iff options db path data flags sid _).mpr
          ⟨parentName, sonName, parent, checked, rfl⟩
        rw [abstract] at created
        cases created

theorem tree_delete_eq {db : Persist} {path parentName sonName : Str} {parent : Node}
    (checked : Deletes options db path parentName sonName parent) :
    (∀ status, removeChild parent sonName = .error status →
      (treeOf db).delete options path = .error .removeChild) ∧
    ∀ removed, removeChild parent sonName = .ok removed →
      (treeOf db).delete options path =
        .ok (some (Function.update (Function.update (treeOf db) path none)
          parentName (some removed))) := by
  obtain ⟨outside, split, valid, ⟨son, here, childless⟩, above⟩ := checked
  simp only [Tree.delete, split, here, above]
  rw [if_pos ⟨valid, outside, childless⟩]
  exact ⟨fun _ removal => by rw [removal], fun _ removal => by rw [removal]⟩

theorem tree_delete_none {db : Persist} {path : Str}
    (unchecked : ¬ ∃ parentName sonName parent,
      Deletes options db path parentName sonName parent) :
    (treeOf db).delete options path = .ok none := by
  unfold Tree.delete
  split
  · rfl
  next parentName sonName split =>
    split
    next son parent here above =>
      rw [if_neg]
      rintro ⟨valid, outside, childless⟩
      exact unchecked ⟨parentName, sonName, parent, outside, split, valid, ⟨son, here, childless⟩,
        above⟩
    · rfl

theorem delete_refines (db : Persist) (path : Str) :
    Runs.Sim (Accepts db) (delete options proc db path) ((treeOf db).delete options path) := by
  by_cases checked : ∃ parentName sonName parent, Deletes options db path parentName sonName parent
  · obtain ⟨parentName, sonName, parent, checked⟩ := checked
    have concrete := delete_accepted options proc db checked
    have abstract := tree_delete_eq options checked
    cases removal : removeChild parent sonName with
    | error status =>
        rw [concrete.1 status removal, abstract.1 status removal]
        exact .error _
    | ok removed =>
        rw [concrete.2 removed removal, abstract.2 removed removal]
        have rooted := isValidPath_head path checked.valid
        refine .ok ⟨⟨?_, ?_, fun nodes => nodeKeys_insert _ _ _ (nodeKeys_erase _ _ nodes)⟩, rfl⟩
        · simp [treeOf_insert, treeOf_erase, Value.toNode]
        · intro key other
          rw [frame_insert _ key parentName _
              (splitPath_parent_head path parentName sonName rooted checked.split) other,
            frame_erase db key path rooted other]
  · rcases delete_cases options proc db path with ⟨status, bad, result⟩ | found
    · rw [result, tree_delete_none options checked]
      exact .ok ⟨refines_unchanged db status, bad⟩
    · exact absurd found checked

theorem write_refines (db : Persist) (path data : Str) :
    Refines db ((treeOf db).write options path data) (write options proc db path data) := by
  by_cases inside : options.underProc path = true
  · have abstract : (treeOf db).write options path data = none := by
      unfold Tree.write
      split <;> simp [inside]
    rw [abstract]
    unfold write
    split
    · exact refines_unchanged db _
    · simp only [put, inside, if_true]
      split_ifs
      · exact refines_unchanged db _
      · exact refines_unchanged db _
      · split <;> exact refines_unchanged db _
  have outside : options.underProc path = false := by simpa using inside
  cases found : get options proc db path with
  | error status =>
      have abstract : (treeOf db).write options path data = none := by
        unfold Tree.write
        cases here : treeOf db path with
        | none => rfl
        | some node =>
            have invalid : ¬ isValidPath path = true := fun valid => by
              rw [treeOf_of_get_error options proc valid outside found] at here
              cases here
            simp [invalid]
      rw [abstract]
      simp only [write, found]
      exact refines_unchanged db status
  | ok node =>
      obtain ⟨valid, here⟩ := (get_ok_iff options proc db path node outside).mp found
      simp only [write, found, Tree.write, here, put, valid, outside, Bool.true_eq_false,
        Bool.false_eq_true, if_false, true_and]
      by_cases large : options.sizeLimit <
          ({ node with data := data, version := node.version + 1 } : Node).byteSize
      · rw [if_pos large, if_neg (Nat.not_le.mpr large)]
        exact refines_unchanged db _
      · rw [if_neg large, if_pos (Nat.not_lt.mp large)]
        refine ⟨by simp [treeOf_insert, Value.toNode], fun key other => ?_, nodeKeys_insert _ _ _⟩
        exact frame_insert db key path _ (isValidPath_head path valid) other

theorem write_valid (db : Persist) (path data : Str)
    (done : (write options proc db path data).1.isOk = true) : isValidPath path = true := by
  by_contra invalid
  have rejected : isValidPath path = false := by simpa using invalid
  simp [write, get, rejected] at done

theorem create_cases_ok (db : Persist) (path data : Str) (flags : UInt32) (sid : Sid) :
    ((create options proc db path data flags sid).1.isOk = false ∧
        (create options proc db path data flags sid).2 = db) ∨
      (create options proc db path data flags sid).1.isOk = true ∧
        (treeOf db).create options path data flags sid =
          some (treeOf (create options proc db path data flags sid).2) := by
  obtain ⟨refined, accepted⟩ := create_refines options proc db path data flags sid
  rcases create_cases options proc db path data flags sid with
    ⟨status, bad, result⟩ | ⟨parentName, sonName, parent, checked⟩
  · rw [result]
    exact .inl ⟨bad, rfl⟩
  · have created := (tree_create_iff options db path data flags sid _).mpr
      ⟨parentName, sonName, parent, checked, rfl⟩
    rw [created] at accepted
    refine .inr ⟨accepted, ?_⟩
    rw [refined.tree, created]
    rfl

theorem delete_cases_ok {db next : Persist} {path : Str} {status : Status}
    (done : delete options proc db path = .ok (status, next)) :
    (status.isOk = false ∧ next = db) ∨
      status.isOk = true ∧ (treeOf db).delete options path = .ok (some (treeOf next)) := by
  rcases delete_cases options proc db path with
    ⟨_, bad, result⟩ | ⟨parentName, sonName, parent, checked⟩
  · cases done.symm.trans result
    exact .inl ⟨bad, rfl⟩
  · have concrete := delete_accepted options proc db checked
    cases removal : removeChild parent sonName with
    | error failure => cases done.symm.trans (concrete.1 failure removal)
    | ok removed =>
        cases done.symm.trans (concrete.2 removed removal)
        rw [(tree_delete_eq options checked).2 removed removal]
        exact .inr ⟨rfl, by simp [treeOf_insert, treeOf_erase, Value.toNode]⟩

theorem write_cases_ok (db : Persist) (path data : Str) :
    ((write options proc db path data).1.isOk = false ∧
        (write options proc db path data).2 = db) ∨
      (write options proc db path data).1.isOk = true ∧
        ((options.underProc path = true ∧ (write options proc db path data).2 = db) ∨
          (treeOf db).write options path data =
            some (treeOf (write options proc db path data).2)) := by
  cases found : get options proc db path with
  | error status =>
      have bad := get_error_isOk options proc db path status found
      exact .inl (by simp [write, found, bad])
  | ok node =>
      have valid : isValidPath path = true := by
        cases checked : isValidPath path with
        | true => rfl
        | false => simp [get, checked] at found
      simp only [write, found, put, valid, Bool.true_eq_false, if_false]
      split_ifs with large inside
      · exact .inl ⟨rfl, rfl⟩
      · split
        · exact .inr ⟨rfl, .inl ⟨inside, rfl⟩⟩
        · exact .inl ⟨rfl, rfl⟩
      · have outside : options.underProc path = false := by simpa using inside
        have here := ((get_ok_iff options proc db path node outside).mp found).2
        refine .inr ⟨rfl, .inr ?_⟩
        simp only [Tree.write, here, valid, outside, Nat.not_lt.mp large, and_self, if_true,
          treeOf_insert, Value.toNode]

end Pyxis.Store
