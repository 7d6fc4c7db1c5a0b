import Pyxis.Store.Tree

set_option autoImplicit false

namespace Pyxis.Tree

variable (options : Options)

-- The entry for the proc root, which `init` lists among the root's children.
def procEntry (path name : Str) : Nat :=
  if path = rootPath ∧ name = options.procName then 1 else 0

/-- Both encodings of the tree agree: every stored path hangs under a stored, persistent parent, and
a node lists a name once for each stored path that splits to the node and the name. -/
structure Closed (tree : Tree) : Prop where
  root : ∃ node, tree rootPath = some node ∧ node.ephemeral = false
  valid : ∀ path node, tree path = some node →
    isValidPath path = true ∧ options.underProc path = false
  parent : ∀ path node, tree path = some node → path ≠ rootPath →
    ∃ parentName sonName parent, splitPath path = .ok (parentName, sonName) ∧
      tree parentName = some parent ∧ parent.ephemeral = false
  counted : ∀ path node, tree path = some node → ∀ name,
    node.children.count name = stored tree path name + procEntry options path name

theorem stored_pos (tree : Tree) (path parent son : Str) (node : Node)
    (nonempty : parent ≠ []) (split : splitPath path = .ok (parent, son))
    (here : tree path = some node) : 0 < stored tree parent son := by
  rw [stored, List.countP_pos_iff]
  exact ⟨path, (mem_spellings path parent son nonempty).mpr split, by simp [here]⟩

theorem exists_of_stored_pos (tree : Tree) (parent name : Str) (nonempty : parent ≠ [])
    (some : 0 < stored tree parent name) :
    ∃ path node, splitPath path = .ok (parent, name) ∧ tree path = .some node := by
  rw [stored, List.countP_pos_iff] at some
  obtain ⟨path, spelled, present⟩ := some
  obtain ⟨node, here⟩ := Option.isSome_iff_exists.mp present
  exact ⟨path, node, (mem_spellings path parent name nonempty).mp spelled, here⟩

theorem splitPath_nonempty (path parent son : Str) (split : splitPath path = .ok (parent, son)) :
    parent ≠ [] := ((splitPath_ok_iff path parent son).mp split).2.1

theorem valid_nonempty (path : Str) (valid : isValidPath path = true) : path ≠ [] := by
  obtain ⟨rest, rfl⟩ := isValidPath_head path valid
  simp

theorem counted_insert (tree next : Tree) (path parentName sonName : Str)
    (split : splitPath path = .ok (parentName, sonName))
    (absent : (tree path).isSome = false) (present : (next path).isSome = true)
    (others : ∀ other, other ≠ path → (next other).isSome = (tree other).isSome)
    (parent name : Str) (nonempty : parent ≠ []) :
    stored next parent name = stored tree parent name +
      if parentName = parent ∧ sonName = name then 1 else 0 := by
  rw [stored_insert tree next path absent present others]
  simp [mem_spellings path parent name nonempty, split]

variable {options} in
theorem Closed.above {tree : Tree} (closed : tree.Closed options) {path parentName sonName : Str}
    {node : Node} (here : tree path = some node)
    (split : splitPath path = .ok (parentName, sonName)) :
    ∃ parent, tree parentName = some parent ∧ parent.ephemeral = false := by
  obtain ⟨up, name, parent, splits, stored, persistent⟩ := closed.parent path node here
    (splitPath_ne_root path parentName sonName split)
  rw [split] at splits
  cases splits
  exact ⟨parent, stored, persistent⟩

theorem closed_of_kept (tree next : Tree) (closed : tree.Closed options)
    (entered : ∀ path node, next path = some node → (∃ old, tree path = some old) ∨
      isValidPath path = true ∧ options.underProc path = false ∧
        ∃ parentName sonName parent, splitPath path = .ok (parentName, sonName) ∧
          next parentName = some parent ∧ parent.ephemeral = false)
    (kept : ∀ path old, tree path = some old →
      (path = rootPath ∨ ∃ below lower name, next below = some lower ∧
        splitPath below = .ok (path, name)) →
      ∃ now, next path = some now ∧ now.ephemeral = old.ephemeral)
    (counted : ∀ path node, next path = some node → ∀ name,
      node.children.count name = stored next path name + procEntry options path name) :
    next.Closed options where
  root := by
    obtain ⟨node, here, kind⟩ := closed.root
    obtain ⟨now, stays, same⟩ := kept rootPath node here (.inl rfl)
    exact ⟨now, stays, same.trans kind⟩
  valid path node here := by
    rcases entered path node here with ⟨old, before⟩ | ⟨valid, outside, -⟩
    · exact closed.valid path old before
    · exact ⟨valid, outside⟩
  parent path node here notRoot := by
    rcases entered path node here with ⟨old, before⟩ | ⟨-, -, hangs⟩
    · obtain ⟨parentName, sonName, parent, split, above, kind⟩ :=
        closed.parent path old before notRoot
      obtain ⟨now, stays, same⟩ := kept parentName parent above
        (.inr ⟨path, node, sonName, here, split⟩)
      exact ⟨parentName, sonName, now, split, stays, same.trans kind⟩
    · exact hangs
  counted := counted

-- What `Create` and `Delete` write: the path, and the children list of its parent.
theorem update_pair (tree : Tree) {path parentName : Str} (apart : parentName ≠ path)
    (son : Option Node) (up : Node) (above : (tree parentName).isSome = true) :
    let next := Function.update (Function.update tree path son) parentName (some up)
    next path = son ∧ next parentName = some up ∧
      (∀ other, other ≠ path → other ≠ parentName → next other = tree other) ∧
      ∀ other, other ≠ path → (next other).isSome = (tree other).isSome := by
  intro next
  have atParent : next parentName = some up := Function.update_self ..
  have elsewhere (other : Str) (notPath : other ≠ path) (notParent : other ≠ parentName) :
      next other = tree other := by
    simp [next, Function.update_of_ne notPath, Function.update_of_ne notParent]
  refine ⟨by simp [next, Function.update_of_ne apart.symm], atParent, elsewhere,
    fun other notPath => ?_⟩
  by_cases same : other = parentName
  · rw [same, atParent, above]
    rfl
  · rw [elsewhere other notPath same]

theorem closed_create (tree next : Tree) (closed : tree.Closed options) (path data : Str)
    (flags : UInt32) (sid : Sid) (created : tree.create options path data flags sid = some next) :
    next.Closed options := by
  obtain ⟨parentName, sonName, parent, split, above, valid, outside, absent, persistent, rfl⟩ :=
    create_some options tree next path data flags sid created
  have apart : parentName ≠ path := (splitPath_parent path parentName sonName split).1
  obtain ⟨atPath, atParent, elsewhere, others⟩ := update_pair tree apart
    (some { newNode data flags with sid := sid }) (addChild parent sonName) (by simp [above])
  set next := Function.update (Function.update tree path _) parentName _
  have counts := counted_insert tree next path parentName sonName split (by simp [absent])
    (by simp [atPath]) others
  apply closed_of_kept options tree next closed
  · intro other node here
    by_cases same : other = path
    · exact .inr ⟨same ▸ valid, same ▸ outside, parentName, sonName, _, same ▸ split, atParent,
        persistent⟩
    · exact .inl (Option.isSome_iff_exists.mp (by rw [← others other same, here]; rfl))
  · intro other old before _
    have notPath : other ≠ path := by rintro rfl; simp [absent] at before
    by_cases same : other = parentName
    · subst same
      rw [above] at before
      cases before
      exact ⟨_, atParent, rfl⟩
    · exact ⟨old, by rw [elsewhere other notPath same, before], rfl⟩
  · intro other node here name
    by_cases same : other = path
    · subst same
      rw [atPath] at here
      cases here
      -- Nothing stored can have the new path for its parent.
      have unused : stored tree other name = 0 := by
        by_contra positive
        obtain ⟨below, lower, splits, present⟩ := exists_of_stored_pos tree other name
          (valid_nonempty other valid) (Nat.pos_of_ne_zero positive)
        obtain ⟨up, upStored, -⟩ := closed.above present splits
        simp [absent] at upStored
      have notRoot := splitPath_ne_root other parentName sonName split
      rw [counts other name (valid_nonempty other valid), unused]
      simp [apart, procEntry, notRoot]
    · by_cases up : other = parentName
      · subst up
        rw [atParent] at here
        cases here
        rw [counts other name (splitPath_nonempty path other sonName split), addChild_count,
          closed.counted other parent above name]
        simp only [true_and]
        omega
      · rw [elsewhere other same up] at here
        rw [counts other name (valid_nonempty other (closed.valid other node here).1),
          closed.counted other node here name]
        simp [Ne.symm up]

theorem childless_not_parent (tree : Tree) (closed : tree.Closed options) (path below name : Str)
    (node lower : Node) (here : tree path = some node) (childless : node.children = [])
    (present : tree below = some lower) (split : splitPath below = .ok (path, name)) : False := by
  have count := closed.counted path node here name
  have positive := stored_pos tree below path name lower (splitPath_nonempty below path name split)
    split present
  rw [childless, List.count_nil] at count
  omega

theorem delete_ok (tree : Tree) (closed : tree.Closed options) (path : Str) :
    ∃ result, tree.delete options path = .ok result := by
  unfold delete
  split
  · exact ⟨none, rfl⟩
  next parentName sonName split =>
    split
    next son parent here above =>
      split_ifs
      · -- The parent lists every stored son, so the assertion in `Delete` holds.
        have positive := stored_pos tree path parentName sonName son
          (splitPath_nonempty path parentName sonName split) split here
        have count := closed.counted parentName parent above sonName
        have listed : sonName ∈ parent.children := List.count_pos_iff.mp (by omega)
        obtain ⟨removed, found⟩ := (removeChild_ok parent sonName).mpr listed
        exact ⟨_, by rw [found]⟩
      · exact ⟨none, rfl⟩
    · exact ⟨none, rfl⟩

theorem closed_delete (tree next : Tree) (closed : tree.Closed options) (path : Str)
    (deleted : tree.delete options path = .ok (some next)) : next.Closed options := by
  obtain ⟨parentName, sonName, son, parent, removed, split, here, above, valid, outside,
    childless, found, rfl⟩ := delete_some options tree next path deleted
  have apart : parentName ≠ path := (splitPath_parent path parentName sonName split).1
  obtain ⟨atPath, atParent, elsewhere, others⟩ := update_pair tree apart none removed
    (by simp [above])
  set next := Function.update (Function.update tree path none) parentName (some removed)
  have kindKept : removed.ephemeral = parent.ephemeral := by
    rw [(removeChild_spec parent removed sonName found).1]
    rfl
  have earlier : ∀ other node, next other = some node →
      other ≠ path ∧ ∃ old, tree other = some old := by
    intro other node now
    have notPath : other ≠ path := by rintro rfl; simp [atPath] at now
    exact ⟨notPath, Option.isSome_iff_exists.mp (by rw [← others other notPath, now]; rfl)⟩
  -- Read backwards, the deletion stores one more path.
  have counts := counted_insert next tree path parentName sonName split (by simp [atPath])
    (by simp [here]) fun other notPath => (others other notPath).symm
  apply closed_of_kept options tree next closed
  · exact fun other node now => .inl (earlier other node now).2
  · intro other old before needed
    have notPath : other ≠ path := by
      rintro rfl
      rcases needed with top | ⟨below, lower, name, stays, splits⟩
      · exact splitPath_ne_root other parentName sonName split top
      · obtain ⟨-, lowerOld, lowerBefore⟩ := earlier below lower stays
        exact childless_not_parent options tree closed other below name son lowerOld here childless
          lowerBefore splits
    by_cases same : other = parentName
    · subst same
      rw [above] at before
      cases before
      exact ⟨removed, atParent, kindKept⟩
    · exact ⟨old, by rw [elsewhere other notPath same, before], rfl⟩
  · intro other node now name
    obtain ⟨notPath, old, before⟩ := earlier other node now
    have nonempty := valid_nonempty other (closed.valid other old before).1
    have countOld := closed.counted other old before name
    rw [counts other name nonempty] at countOld
    by_cases up : other = parentName
    · subst up
      rw [atParent] at now
      cases now
      rw [above] at before
      cases before
      rw [removeChild_count parent removed sonName name found] at countOld
      simp only [true_and] at countOld
      omega
    · rw [elsewhere other notPath up] at now
      rw [now] at before
      cases before
      simpa [Ne.symm up] using countOld

theorem closed_write (tree next : Tree) (closed : tree.Closed options) (path data : Str)
    (written : tree.write options path data = some next) : next.Closed options := by
  obtain ⟨node, here, valid, outside, rfl⟩ := write_some options tree next path data written
  set changed : Node := { node with data := data, version := node.version + 1 } with changedNode
  set next := Function.update tree path (some changed) with nextTree
  have atPath : next path = some changed := by simp [nextTree]
  have elsewhere : ∀ other, other ≠ path → next other = tree other := by
    intro other different
    simp [nextTree, Function.update_of_ne different]
  have sameStored : ∀ parent name, stored next parent name = stored tree parent name := by
    intro parent name
    have present : (fun path => (next path).isSome) = fun path => (tree path).isSome := by
      funext other
      by_cases same : other = path
      · simp [same, atPath, here]
      · rw [elsewhere other same]
    rw [stored, stored, present]
  apply closed_of_kept options tree next closed
  · intro other now present
    by_cases same : other = path
    · exact .inl ⟨node, same ▸ here⟩
    · exact .inl ⟨now, by rw [← elsewhere other same, present]⟩
  · intro other old before _
    by_cases same : other = path
    · subst same
      rw [here] at before
      cases before
      exact ⟨changed, atPath, rfl⟩
    · exact ⟨old, by rw [elsewhere other same, before], rfl⟩
  · intro other now present name
    rw [sameStored]
    by_cases same : other = path
    · subst same
      rw [atPath] at present
      cases present
      exact closed.counted other node here name
    · rw [elsewhere other same] at present
      exact closed.counted other now present name

theorem ephemeral_childless (tree : Tree) (closed : tree.Closed options) (path : Str)
    (node : Node) (here : tree path = some node) (kind : node.ephemeral = true) :
    node.children = [] := by
  rw [List.eq_nil_iff_forall_not_mem]
  intro name listed
  have nonempty := valid_nonempty path (closed.valid path node here).1
  have count := closed.counted path node here name
  have notRoot : path ≠ rootPath := by
    rintro rfl
    obtain ⟨root, there, persistent⟩ := closed.root
    rw [here] at there
    cases there
    simp [kind] at persistent
  have positive : 0 < stored tree path name := by
    have atLeast := List.count_pos_iff.mpr listed
    simp only [procEntry, notRoot, false_and, if_false] at count
    omega
  obtain ⟨below, lower, splits, present⟩ := exists_of_stored_pos tree path name nonempty positive
  obtain ⟨up, upStored, persistent⟩ := closed.above present splits
  rw [here] at upStored
  cases upStored
  simp [kind] at persistent

end Pyxis.Tree
