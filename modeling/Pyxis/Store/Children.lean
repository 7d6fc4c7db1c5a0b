import Pyxis.Store.Calls

set_option autoImplicit false

namespace Pyxis.Store

variable (options : Options)

def splitsTo (parent name path : Str) : Bool :=
  match splitPath path with
  | .ok parts => parts == (parent, name)
  | .error _ => false

def storedPaths (db : Persist) (parent name : Str) : List Str :=
  db.keys.filter fun path => (treeOf db path).isSome && splitsTo parent name path

theorem splitsTo_iff (parent name path : Str) :
    splitsTo parent name path = true ↔ splitPath path = .ok (parent, name) := by
  cases split : splitPath path <;> simp [splitsTo, split]

theorem storedPaths_length (db : Persist) (parent name : Str) (nonempty : parent ≠ []) :
    (storedPaths db parent name).length = Tree.stored (treeOf db) parent name := by
  rw [Tree.stored, List.countP_eq_length_filter]
  apply List.Perm.length_eq
  rw [List.perm_ext_iff_of_nodup]
  · intro path
    simp only [storedPaths, List.mem_filter, Bool.and_eq_true, splitsTo_iff,
      Tree.mem_spellings path parent name nonempty, Std.ExtTreeMap.mem_keys]
    constructor
    · exact fun member => ⟨member.2.2, member.2.1⟩
    · rintro ⟨split, present⟩
      refine ⟨?_, present, split⟩
      by_contra missing
      simp [treeOf, Std.ExtTreeMap.getElem?_eq_none missing] at present
  · exact (Std.ExtTreeMap.nodup_keys (t := db)).filter _
  · exact (Tree.spellings_nodup parent name).filter _

theorem tree_closure (proc : ProcDB) (calls : List (ProcDB × Op)) :
    ∃ start db, init options proc ∅ = .ok start ∧
      Runs.run (exec options) start calls = .ok db ∧
      (∀ path node, treeOf db path = some node → path ≠ rootPath →
        ∃ parentName sonName parent, splitPath path = .ok (parentName, sonName) ∧
          treeOf db parentName = some parent ∧ parent.ephemeral = false ∧
          (storedPaths db parentName sonName).length ≤ parent.children.count sonName) ∧
      ∀ path node, treeOf db path = some node → node.ephemeral = true →
        node.children = [] ∧ ∀ name, storedPaths db path name = [] := by
  obtain ⟨db, reached, closed⟩ := run_closed options calls
  refine ⟨freshDb options, db, init_empty options proc, reached, ?_, ?_⟩
  · intro path node here notRoot
    obtain ⟨parentName, sonName, parent, split, above, persistent⟩ :=
      closed.parent path node here notRoot
    refine ⟨parentName, sonName, parent, split, above, persistent, ?_⟩
    rw [storedPaths_length db parentName sonName (Tree.splitPath_nonempty path _ _ split),
      closed.counted parentName parent above sonName]
    omega
  · intro path node here kind
    have childless := Tree.ephemeral_childless options (treeOf db) closed path node here kind
    refine ⟨childless, fun name => ?_⟩
    have count := closed.counted path node here name
    rw [childless, List.count_nil] at count
    apply List.eq_nil_of_length_eq_zero
    rw [storedPaths_length db path name (Tree.valid_nonempty path (closed.valid path node here).1)]
    omega

/-- Children lists mirror the tree: a node lists exactly the names under which its join is stored,
each once, the entry for the proc root apart. -/
structure Mirrors (db : Persist) : Prop where
  listed : ∀ parent node, treeOf db parent = some node → ∀ name,
    ¬ (parent = rootPath ∧ name = options.procName) →
    (name ∈ node.children ↔ IsName name ∧ (treeOf db (joinPath parent name)).isSome = true)
  once : ∀ parent node, treeOf db parent = some node → ∀ name, node.children.count name ≤ 1

theorem stored_single (tree : Tree) (parent name : Str)
    (single : parent = rootPath → IsName name → tree (doubledPath name) = none) :
    Tree.stored tree parent name =
      if IsName name ∧ (tree (joinPath parent name)).isSome = true then 1 else 0 := by
  by_cases named : IsName name
  · by_cases top : parent = rootPath
    · simp [Tree.stored, Tree.spellings, named, top, single top named, List.countP_cons]
    · simp [Tree.stored, Tree.spellings, named, top, List.countP_cons]
  · simp [Tree.stored, Tree.spellings, named]

theorem mirrors_iff (db : Persist) (closed : (treeOf db).Closed options) :
    Mirrors options db ↔ ∀ name, IsName name → treeOf db (doubledPath name) = none := by
  -- In a closed tree the mirror breaks exactly where a child of the root is stored under its
  -- doubled spelling.
  obtain ⟨root, rootHere, -⟩ := closed.root
  constructor
  · intro mirrors name named
    by_contra present
    obtain ⟨node, doubled⟩ := Option.ne_none_iff_exists'.mp present
    have count := closed.counted rootPath root rootHere name
    have atMostOnce := mirrors.once rootPath root rootHere name
    have split : Tree.stored (treeOf db) rootPath name =
        (if (treeOf db (joinPath rootPath name)).isSome then 1 else 0) + 1 := by
      simp [Tree.stored, Tree.spellings, named, doubled, List.countP_cons]
      omega
    rw [split] at count
    by_cases proc : name = options.procName
    · simp only [Tree.procEntry, proc, and_self, if_true] at count
      rw [proc] at atMostOnce
      omega
    · have member := mirrors.listed rootPath root rootHere name (by simp [proc])
      have listed : name ∈ root.children := List.count_pos_iff.mp (by omega)
      have joined := (member.mp listed).2
      simp only [joined, if_true] at count
      omega
  · intro single
    have counts : ∀ parent node, treeOf db parent = some node → ∀ name,
        node.children.count name =
          (if IsName name ∧ (treeOf db (joinPath parent name)).isSome = true then 1 else 0) +
            Tree.procEntry options parent name := by
      intro parent node here name
      rw [closed.counted parent node here name,
        stored_single (treeOf db) parent name (fun _ named => single name named)]
    constructor
    · intro parent node here name notProc
      rw [← List.count_pos_iff, counts parent node here name, Tree.procEntry, if_neg notProc]
      split_ifs with joined <;> simp [joined]
    · intro parent node here name
      rw [counts parent node here name]
      by_cases proc : parent = rootPath ∧ name = options.procName
      · -- The store holds nothing under the proc root, so only the entry of `init` is left.
        have gone : treeOf db (joinPath parent name) = none := by
          by_contra present
          obtain ⟨node, inside⟩ := Option.ne_none_iff_exists'.mp present
          have outside := (closed.valid _ node inside).2
          have procRoot : joinPath parent name = options.procRoot := by
            simp [proc.1, proc.2, joinPath, options.procRoot_eq]
          rw [procRoot, options.underProc_self] at outside
          cases outside
        rw [gone, Tree.procEntry, if_pos proc]
        simp
      · rw [Tree.procEntry, if_neg proc]
        split_ifs <;> omega

def CreateAccepted (path : Str) (call : ProcDB × Op) (db : Persist) : Prop :=
  ∃ data flags sid, call.2 = .create path data flags sid ∧
    (create options call.1 db path data flags sid).1.isOk = true

theorem exec_stored (call : ProcDB × Op) (db next : Persist) (path : Str)
    (done : exec options call db = .ok next) (present : (treeOf next path).isSome = true) :
    (treeOf db path).isSome = true ∨ CreateAccepted options path call db := by
  rcases exec_applies done with ⟨-, rfl⟩ | ⟨fine, ⟨-, -, -, rfl⟩ | applies⟩
  · exact .inl present
  · exact .inl present
  by_cases here : path = call.2.path
  · subst here
    obtain ⟨proc, op⟩ := call
    cases op with
    | create target data flags sid => exact .inr ⟨data, flags, sid, rfl, fine⟩
    | delete target =>
        obtain ⟨-, -, son, -, -, -, here, -⟩ := Tree.delete_some options _ _ target applies
        exact .inl (by simp [Op.path, here])
    | write target data =>
        obtain ⟨node, here, -⟩ := Tree.write_some options _ _ target data applies
        exact .inl (by simp [Op.path, here])
  · have same := congrArg Option.isSome (applies.elsewhere here).1
    simp only [Option.isSome_map] at same
    exact .inl (same.symm.trans present)

def AddsDoubled (call : ProcDB × Op) (db : Persist) : Prop :=
  -- What breaks the mirror: an accepted create whose path has a doubled slash in front of a
  -- single name.
  ∃ name, IsName name ∧ CreateAccepted options (doubledPath name) call db

theorem createAccepted_stored (path : Str) (call : ProcDB × Op) (db next : Persist)
    (accepted : CreateAccepted options path call db) (done : exec options call db = .ok next) :
    (treeOf next path).isSome = true := by
  obtain ⟨proc, op⟩ := call
  obtain ⟨data, flags, sid, rfl, status⟩ := accepted
  simp only [exec, Except.ok.injEq] at done
  subst done
  obtain ⟨refined, created⟩ := create_refines options proc db path data flags sid
  rw [created] at status
  obtain ⟨tree, stored⟩ := Option.isSome_iff_exists.mp status
  rw [refined.tree, stored]
  obtain ⟨parentName, sonName, parent, split, -, -, -, -, -, rfl⟩ :=
    Tree.create_some options _ tree path data flags sid stored
  have different := (splitPath_parent path parentName sonName split).1
  simp [Function.update_of_ne different.symm]

theorem exec_mirrors (call : ProcDB × Op) (db next : Persist) (closed : (treeOf db).Closed options)
    (done : exec options call db = .ok next) (mirrors : Mirrors options db) :
    Mirrors options next ↔ ¬ AddsDoubled options call db := by
  have kept := exec_kept options call db next closed done
  rw [mirrors_iff options db closed] at mirrors
  rw [mirrors_iff options next kept]
  constructor
  · rintro single ⟨name, named, accepted⟩
    have stored := createAccepted_stored options (doubledPath name) call db next accepted done
    simp [single name named] at stored
  · intro single name named
    by_contra present
    rcases exec_stored options call db next (doubledPath name) done
      (Option.isSome_iff_ne_none.mpr present) with before | accepted
    · simp [mirrors name named] at before
    · exact single ⟨name, named, accepted⟩

theorem mirrors_fresh : Mirrors options (freshDb options) := by
  rw [mirrors_iff options _ (closed_fresh options)]
  intro name _
  have different : doubledPath name ≠ rootPath := by simp [doubledPath, rootPath]
  simp [treeOf_fresh, different]

theorem children_mirror (proc : ProcDB) (calls : List (ProcDB × Op)) :
    ∃ start, init options proc ∅ = .ok start ∧
      (Runs.Throughout (exec options) (Mirrors options) start calls ↔
        Runs.Meets (exec options) (fun call db => ¬ AddsDoubled options call db) start calls) :=
  fresh_throughout_iff options proc (mirrors_fresh options) (exec_mirrors options) calls

theorem children_mirror_doubled :
    ∃ db, Runs.run (exec Options.standard) (freshDb Options.standard)
        [(.silent, .create ['/', '/', 'a'] [] kPersist 0)] = .ok db ∧
      ¬ Mirrors Options.standard db := by
  -- Creating `//a` lists `a` under the root, but nothing is stored at `/a`.
  refine ⟨_, rfl, fun mirrors => ?_⟩
  have listed := mirrors.listed rootPath (addChild (rootNode Options.standard.procName) ['a'])
    (by decide +kernel) ['a'] (by decide)
  revert listed
  decide +kernel

end Pyxis.Store
