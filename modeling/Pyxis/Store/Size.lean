import Pyxis.Store.Versions

set_option autoImplicit false

namespace Pyxis.Store

variable (options : Options)

def Fits (db : Persist) : Prop :=
  ∀ path node, treeOf db path = some node → node.byteSize ≤ options.sizeLimit

-- A create that passes every check of `Create` and whose new node, with its flags, its version
-- and its sid, is within the limit. `Create` itself compares the limit with the length of the
-- data.
def CreatesSmall (call : ProcDB × Op) (db : Persist) : Prop :=
  ∀ path data flags sid, call.2 = .create path data flags sid →
    (∃ parentName sonName parent, Creates options db path data parentName sonName parent) →
    ({ newNode data flags with sid := sid } : Node).byteSize ≤ options.sizeLimit

variable {options} {call : ProcDB × Op} {db next : Persist}

theorem removeChild_byteSize {node removed : Node} {son : Str}
    (found : removeChild node son = .ok removed) : removed.byteSize ≤ node.byteSize := by
  obtain ⟨same, perm⟩ := removeChild_spec node removed son found
  have sizes : (node.children.map Node.fieldSize).sum =
      Node.fieldSize son + (removed.children.map Node.fieldSize).sum := by
    rw [(perm.map Node.fieldSize).sum_nat, List.map_cons, List.sum_cons]
  rw [same]
  simp only [Node.byteSize]
  omega

theorem fits_update {tree : Tree} {path : Str} {node : Option Node}
    (fits : ∀ other stored, tree other = some stored → stored.byteSize ≤ options.sizeLimit)
    (small : ∀ stored, node = some stored → stored.byteSize ≤ options.sizeLimit) (other : Str)
    (stored : Node) (here : Function.update tree path node other = some stored) :
    stored.byteSize ≤ options.sizeLimit := by
  by_cases same : other = path
  · subst same
    rw [Function.update_self] at here
    exact small stored here
  · rw [Function.update_of_ne same] at here
    exact fits other stored here

theorem write_fits {tree after : Tree} {path data : Str}
    (written : tree.write options path data = some after) :
    ∃ node, tree path = some node ∧
      ({ node with data := data, version := node.version + 1 } : Node).byteSize ≤
        options.sizeLimit ∧
      after = Function.update tree path
        (some { node with data := data, version := node.version + 1 }) := by
  unfold Tree.write at written
  split at written
  · cases written
  next node here =>
    dsimp only at written
    split_ifs at written with admitted
    exact ⟨node, here, admitted.2.2, (Option.some.inj written).symm⟩

theorem exec_fits (done : exec options call db = .ok next) (fits : Fits options db) :
    Fits options next ↔ CreatesSmall options call db := by
  constructor
  · rintro after path data flags sid op ⟨parentName, sonName, parent, checked⟩
    obtain ⟨proc, _⟩ := call
    cases op
    cases done
    apply after path
    have apart := (splitPath_parent path parentName sonName checked.split).1
    rw [create_accepted options proc db path data flags sid parentName sonName parent checked,
      treeOf_insert, treeOf_insert, Function.update_of_ne apart.symm, Function.update_self]
    rfl
  · intro small
    rcases exec_applies done with ⟨-, rfl⟩ | ⟨-, ⟨-, -, -, rfl⟩ | applies⟩
    · exact fits
    · exact fits
    · intro path node
      generalize treeOf next = tree at applies
      obtain ⟨proc, op⟩ := call
      cases op with
      | create created data flags sid =>
          obtain ⟨parentName, sonName, parent, checked, rfl⟩ :=
            (tree_create_iff options db created data flags sid tree).mp applies
          refine fits_update (fits_update fits ?_) ?_ path node
          · rintro _ ⟨⟩
            exact small created data flags sid rfl ⟨parentName, sonName, parent, checked⟩
          · rintro _ ⟨⟩
            exact checked.fits
      | delete deleted =>
          obtain ⟨parentName, sonName, son, parent, removed, -, -, above, -, -, -, found, rfl⟩ :=
            Tree.delete_some options _ tree deleted applies
          refine fits_update (fits_update fits (by simp)) ?_ path node
          rintro _ ⟨⟩
          exact Nat.le_trans (removeChild_byteSize found) (fits parentName parent above)
      | write written data =>
          obtain ⟨before, here, small', rfl⟩ := write_fits applies
          refine fits_update fits ?_ path node
          rintro _ ⟨⟩
          exact small'

variable (options) in
theorem fits_fresh : Fits options (freshDb options) := by
  intro path node here
  rw [treeOf_fresh] at here
  split_ifs at here
  cases here
  exact options.rootFits

variable (options) in
theorem node_size_limit (proc : ProcDB) (calls : List (ProcDB × Op)) :
    ∃ start, init options proc ∅ = .ok start ∧
      (Runs.Throughout (exec options) (Fits options) start calls ↔
        Runs.Meets (exec options) (CreatesSmall options) start calls) :=
  fresh_throughout_iff options proc (fits_fresh options) (fun _ _ _ _ done => exec_fits done) calls

-- One mebibyte of data passes the check on its length, but not the few bytes around it.
def largeData : Str := List.replicate (1024 * 1024) 'x'

theorem largeData_length : largeData.length = Options.standard.sizeLimit :=
  List.length_replicate

theorem create_exceeds {data : Str} (length : data.length = Options.standard.sizeLimit) :
    ∃ db, Runs.run (exec Options.standard) (freshDb Options.standard)
        [(.silent, .create ['/', 'a'] data kPersist 0)] = .ok db ∧
      ¬ Fits Options.standard db := by
  have checked : Creates Options.standard (freshDb Options.standard) ['/', 'a'] data rootPath
      ['a'] (rootNode Options.standard.procName) :=
    { outside := by decide
      small := Nat.le_of_eq length
      split := by decide
      valid := by decide
      absent := by decide +kernel
      above := by decide +kernel
      persistent := by decide
      fits := by decide +kernel }
  obtain ⟨db, done⟩ : ∃ db, exec Options.standard
      (.silent, .create ['/', 'a'] data kPersist 0) (freshDb Options.standard) = .ok db := ⟨_, rfl⟩
  refine ⟨db, (Runs.run_cons_ok _ _ _ _ _).mpr ⟨db, done, rfl⟩, fun fits => ?_⟩
  have small := (exec_fits done (fits_fresh Options.standard)).mp fits _ _ _ _ rfl
    ⟨_, _, _, checked⟩
  simp only [Node.byteSize, newNode, Node.fieldSize, length] at small
  omega

theorem node_size_limit_exceeded :
    ∃ db, Runs.run (exec Options.standard) (freshDb Options.standard)
        [(.silent, .create ['/', 'a'] largeData kPersist 0)] = .ok db ∧
      ¬ Fits Options.standard db :=
  create_exceeds largeData_length

end Pyxis.Store
