import Pyxis.Shared.Runs
import Pyxis.Store.Refinement

set_option autoImplicit false

namespace Pyxis

-- A node without its children.
def Node.core (node : Node) : Str × UInt32 × Sid × UInt64 :=
  (node.data, node.flags, node.sid, node.version)

namespace Store

inductive Op where
  | create (path data : Str) (flags : UInt32) (sid : Sid)
  | delete (path : Str)
  | write (path data : Str)

def Op.path : Op → Str
  | .create path _ _ _ => path
  | .delete path => path
  | .write path _ => path

variable (options : Options)

def exec (call : ProcDB × Op) (db : Persist) : Except Fault Persist :=
  -- One call on the store. The proc database may answer differently at every call.
  match call.2 with
  | .create path data flags sid => .ok (create options call.1 db path data flags sid).2
  | .delete path => (delete options call.1 db path).map Prod.snd
  | .write path data => .ok (write options call.1 db path data).2

def freshDb : Persist := (∅ : Persist).insert rootPath (.node (rootNode options.procName))

theorem procRoot_trimmed : options.procRoot.dropWhile (· == '/') = options.procName := by
  have named := options.procName_isName
  cases name : options.procName with
  | nil => exact absurd name named.1
  | cons head rest =>
      have notSlash : head ≠ '/' := by
        rintro rfl
        exact named.2 (by simp [name])
      simp [options.procRoot_eq, name, notSlash]

theorem init_empty (proc : ProcDB) : init options proc ∅ = .ok (freshDb options) := by
  have fits : ¬ options.sizeLimit < (rootNode options.procName).byteSize :=
    Nat.not_lt.mpr options.rootFits
  have root : addChild (newNode [] kPersist) (options.procRoot.dropWhile (· == '/')) =
      rootNode options.procName := by rw [procRoot_trimmed]; rfl
  simp [init, put, root, isValidPath_root, options.underProc_root, fits, freshDb]

theorem treeOf_fresh (path : Str) : treeOf (freshDb options) path =
    if path = rootPath then some (rootNode options.procName) else none := by
  rw [freshDb, treeOf_insert]
  by_cases same : path = rootPath
  · simp [same, Value.toNode]
  · simp [same, treeOf]

theorem closed_fresh : (treeOf (freshDb options)).Closed options := by
  have notStored (path : Str) (different : path ≠ rootPath) :
      treeOf (freshDb options) path = none := by simp [treeOf_fresh, different]
  have only (path : Str) (node : Node) (here : treeOf (freshDb options) path = some node) :
      path = rootPath ∧ node = rootNode options.procName := by
    by_cases same : path = rootPath
    · simp only [treeOf_fresh, same, if_true, Option.some.injEq] at here
      exact ⟨same, here.symm⟩
    · simp [notStored path same] at here
  constructor
  · exact ⟨rootNode options.procName, by simp [treeOf_fresh], rootNode_ephemeral _⟩
  · intro path node here
    obtain ⟨rfl, -⟩ := only path node here
    exact ⟨isValidPath_root, options.underProc_root⟩
  · intro path node here notRoot
    exact absurd (only path node here).1 notRoot
  · intro path node here name
    obtain ⟨rfl, rfl⟩ := only path node here
    have none : Tree.stored (treeOf (freshDb options)) rootPath name = 0 := by
      by_contra positive
      obtain ⟨below, lower, split, present⟩ := Tree.exists_of_stored_pos _ rootPath name
        (by simp [rootPath]) (Nat.pos_of_ne_zero positive)
      exact splitPath_ne_root below rootPath name split (only below lower present).1
    rw [none, Tree.procEntry, rootNode, addChild_count]
    simp [eq_comm]

-- Whether a call answers OK.
def succeeds (call : ProcDB × Op) (db : Persist) : Bool :=
  match call.2 with
  | .create path data flags sid => (create options call.1 db path data flags sid).1.isOk
  | .delete path => Runs.passes (delete options call.1 db path) fun result => result.1.isOk
  | .write path data => (write options call.1 db path data).1.isOk

-- What a call that succeeds does to the tree.
def Op.Applies (op : Op) (tree next : Tree) : Prop :=
  match op with
  | .create path data flags sid => tree.create options path data flags sid = some next
  | .delete path => tree.delete options path = .ok (some next)
  | .write path data => tree.write options path data = some next

section Step

variable {options} {call : ProcDB × Op} {db next : Persist}

theorem exec_applies (done : exec options call db = .ok next) :
    (succeeds options call db = false ∧ next = db) ∨
      succeeds options call db = true ∧
        ((∃ data, call.2 = .write call.2.path data ∧ options.underProc call.2.path = true ∧
            next = db) ∨
          call.2.Applies options (treeOf db) (treeOf next)) := by
  obtain ⟨proc, op⟩ := call
  cases op with
  | create path data flags sid =>
      cases done
      rcases create_cases_ok options proc db path data flags sid with
        ⟨bad, same⟩ | ⟨fine, created⟩
      · exact .inl ⟨bad, same⟩
      · exact .inr ⟨fine, .inr created⟩
  | delete path =>
      cases result : delete options proc db path with
      | error fault => simp [exec, result, Except.map] at done
      | ok outcome =>
          obtain ⟨status, after⟩ := outcome
          simp only [exec, result, Except.map, Except.ok.injEq] at done
          subst done
          have same : succeeds options (proc, .delete path) db = status.isOk := by
            simp [succeeds, result, Runs.passes]
          rw [same]
          rcases delete_cases_ok options proc result with ⟨bad, rfl⟩ | ⟨fine, deleted⟩
          · exact .inl ⟨bad, rfl⟩
          · exact .inr ⟨fine, .inr deleted⟩
  | write path data =>
      cases done
      rcases write_cases_ok options proc db path data with
        ⟨bad, same⟩ | ⟨fine, ⟨inside, same⟩ | written⟩
      · exact .inl ⟨bad, same⟩
      · exact .inr ⟨fine, .inl ⟨data, rfl, inside, same⟩⟩
      · exact .inr ⟨fine, .inr written⟩

theorem Op.Applies.elsewhere {op : Op} {tree next : Tree} (applies : op.Applies options tree next)
    {other : Str} (different : other ≠ op.path) :
    (next other).map Node.core = (tree other).map Node.core ∧
      ((∀ son, splitPath op.path ≠ .ok (other, son)) → next other = tree other) := by
  cases op with
  | create path data flags sid =>
      simp only [Op.path] at different ⊢
      obtain ⟨parentName, sonName, parent, split, above, -, -, -, -, rfl⟩ :=
        Tree.create_some options tree next path data flags sid applies
      by_cases up : other = parentName
      · subst up
        refine ⟨?_, fun away => absurd split (away sonName)⟩
        rw [Function.update_self, above]
        rfl
      · rw [Function.update_of_ne up, Function.update_of_ne different]
        exact ⟨rfl, fun _ => rfl⟩
  | delete path =>
      simp only [Op.path] at different ⊢
      obtain ⟨parentName, sonName, son, parent, removed, split, -, above, -, -, -, found, rfl⟩ :=
        Tree.delete_some options tree next path applies
      by_cases up : other = parentName
      · subst up
        refine ⟨?_, fun away => absurd split (away sonName)⟩
        rw [Function.update_self, above, (removeChild_spec parent removed sonName found).1]
        rfl
      · rw [Function.update_of_ne up, Function.update_of_ne different]
        exact ⟨rfl, fun _ => rfl⟩
  | write path data =>
      simp only [Op.path] at different ⊢
      obtain ⟨node, -, -, -, rfl⟩ := Tree.write_some options tree next path data applies
      rw [Function.update_of_ne different]
      exact ⟨rfl, fun _ => rfl⟩

theorem Op.Applies.closed {op : Op} {tree next : Tree} (applies : op.Applies options tree next)
    (closed : tree.Closed options) : next.Closed options := by
  cases op with
  | create path data flags sid =>
      exact Tree.closed_create options tree next closed path data flags sid applies
  | delete path => exact Tree.closed_delete options tree next closed path applies
  | write path data => exact Tree.closed_write options tree next closed path data applies

end Step

theorem exec_kept (call : ProcDB × Op) (db next : Persist) (closed : (treeOf db).Closed options)
    (done : exec options call db = .ok next) : (treeOf next).Closed options := by
  rcases exec_applies done with ⟨-, rfl⟩ | ⟨-, ⟨-, -, -, rfl⟩ | applies⟩
  · exact closed
  · exact closed
  · exact applies.closed closed

theorem exec_closed (call : ProcDB × Op) (db : Persist) (closed : (treeOf db).Closed options) :
    ∃ next, exec options call db = .ok next ∧ (treeOf next).Closed options := by
  have total : ∃ next, exec options call db = .ok next := by
    obtain ⟨proc, op⟩ := call
    cases op with
    | create path data flags sid => exact ⟨_, rfl⟩
    | delete path =>
        obtain ⟨result, abstract⟩ := Tree.delete_ok options (treeOf db) closed path
        have refined := delete_refines options proc db path
        rw [abstract] at refined
        cases deleted : delete options proc db path with
        | error fault => rw [deleted] at refined; cases refined
        | ok outcome => exact ⟨outcome.2, by simp [exec, deleted, Except.map]⟩
    | write path data => exact ⟨_, rfl⟩
  obtain ⟨next, done⟩ := total
  exact ⟨next, done, exec_kept options call db next closed done⟩

theorem run_closed (calls : List (ProcDB × Op)) :
    ∃ db, Runs.run (exec options) (freshDb options) calls = .ok db ∧
      (treeOf db).Closed options :=
  Runs.run_total (exec options) (fun _ _ => True) (fun db => (treeOf db).Closed options)
    (fun call db closed _ => exec_closed options call db closed) (freshDb options) calls
    (closed_fresh options) (Runs.meets_of_mem _ _ _ calls fun _ _ _ => trivial)

theorem fresh_throughout_iff (proc : ProcDB) {guard : ProcDB × Op → Persist → Prop}
    {property : Persist → Prop} (initial : property (freshDb options))
    (decides : ∀ call db next, (treeOf db).Closed options → exec options call db = .ok next →
      property db → (property next ↔ guard call db)) (calls : List (ProcDB × Op)) :
    ∃ start, init options proc ∅ = .ok start ∧
      (Runs.Throughout (exec options) property start calls ↔
        Runs.Meets (exec options) guard start calls) := by
  refine ⟨freshDb options, init_empty options proc,
    Runs.throughout_iff_meets (exec options) guard (fun db => (treeOf db).Closed options) property
      ?_ (exec_kept options) decides (freshDb options) calls (closed_fresh options) initial⟩
  intro call db failure closed failed
  obtain ⟨next, done, -⟩ := exec_closed options call db closed
  cases failed.symm.trans done

end Store

end Pyxis
