import Mathlib.Data.List.Induction
import Pyxis.Store.Children

set_option autoImplicit false

namespace Pyxis

structure Version where
  data : Str
  flags : UInt32
  sid : Sid
  writes : Nat
  deriving DecidableEq, Repr

abbrev Versions := Str → Option Version

namespace Versions

open Store (Op)

def initial : Versions := Function.update (fun _ => none) rootPath (some ⟨[], kPersist, 0, 0⟩)

-- A call that succeeded.
def apply (versions : Versions) : Op → Versions
  | .create path data flags sid => Function.update versions path (some ⟨data, flags, sid, 0⟩)
  | .delete path => Function.update versions path none
  | .write path data => Function.update versions path
      ((versions path).map fun entry => { entry with data := data, writes := entry.writes + 1 })

def after (done : List Op) : Versions := done.foldl apply initial

theorem after_append (done : List Op) (op : Op) : after (done ++ [op]) = (after done).apply op := by
  simp [after]

def creates (path : Str) : Op → Bool
  | .create created _ _ _ => created == path
  | _ => false

def deletes (path : Str) : Op → Bool
  | .delete deleted => deleted == path
  | _ => false

def writes (path : Str) : Op → Option Str
  | .write written data => if written = path then some data else none
  | _ => none

structure CreatedBefore (path data : Str) (flags : UInt32) (sid : Sid) (done since : List Op) :
    Prop where
  created : (∃ before, done = before ++ .create path data flags sid :: since) ∨
    path = rootPath ∧ data = [] ∧ flags = kPersist ∧ sid = 0 ∧ done = since
  last : ∀ op ∈ since, creates path op = false

section History

variable {path data : Str} {flags : UInt32} {sid : Sid} {done since : List Op}

theorem createdBefore_nil :
    CreatedBefore path data flags sid [] since ↔
      path = rootPath ∧ data = [] ∧ flags = kPersist ∧ sid = 0 ∧ since = [] := by
  constructor
  · rintro ⟨⟨before, split⟩ | ⟨root, noData, persist, noSid, rfl⟩, -⟩
    · simp at split
    · exact ⟨root, noData, persist, noSid, rfl⟩
  · rintro ⟨root, noData, persist, noSid, rfl⟩
    exact ⟨.inr ⟨root, noData, persist, noSid, rfl⟩, by simp⟩

theorem createdBefore_append (op : Op) :
    CreatedBefore path data flags sid (done ++ [op]) since ↔
      (since = [] ∧ op = .create path data flags sid) ∨
        ∃ earlier, since = earlier ++ [op] ∧ creates path op = false ∧
          CreatedBefore path data flags sid done earlier := by
  constructor
  · rintro ⟨created, last⟩
    rcases List.eq_nil_or_concat since with rfl | ⟨earlier, final, rfl⟩
    · rcases created with ⟨before, split⟩ | ⟨-, -, -, -, split⟩
      · exact .inl ⟨rfl, (List.append_inj_right' split rfl) |> List.singleton_inj.mp⟩
      · simp at split
    · rw [List.concat_eq_append] at created last ⊢
      have same : final = op := by
        rcases created with ⟨before, split⟩ | ⟨-, -, -, -, split⟩
        · rw [← List.cons_append, ← List.append_assoc] at split
          exact (List.singleton_inj.mp (List.append_inj_right' split rfl)).symm
        · exact (List.singleton_inj.mp (List.append_inj_right' split rfl)).symm
      subst same
      refine .inr ⟨earlier, rfl, last final (by simp), ?_, fun op member =>
        last op (List.mem_append_left _ member)⟩
      rcases created with ⟨before, split⟩ | ⟨root, noData, persist, noSid, split⟩
      · rw [← List.cons_append, ← List.append_assoc] at split
        exact .inl ⟨before, List.append_cancel_right split⟩
      · exact .inr ⟨root, noData, persist, noSid, List.append_cancel_right split⟩
  · rintro (⟨rfl, rfl⟩ | ⟨earlier, rfl, other, created, last⟩)
    · exact ⟨.inl ⟨done, rfl⟩, by simp⟩
    · refine ⟨?_, fun op' member => ?_⟩
      · rcases created with ⟨before, rfl⟩ | ⟨root, noData, persist, noSid, rfl⟩
        · exact .inl ⟨before, by simp⟩
        · exact .inr ⟨root, noData, persist, noSid, rfl⟩
      · rcases List.mem_append.mp member with early | final
        · exact last op' early
        · rw [List.mem_singleton.mp final]
          exact other

end History

-- What the calls since its creation make of a path.
def versionSince (path data : Str) (flags : UInt32) (sid : Sid) (since : List Op) : Version :=
  { data := (since.filterMap (writes path)).getLastD data
    flags := flags
    sid := sid
    writes := (since.filterMap (writes path)).length }

theorem versionSince_write (path data written : Str) (flags : UInt32) (sid : Sid)
    (since : List Op) :
    versionSince path data flags sid (since ++ [.write path written]) =
      { versionSince path data flags sid since with
        data := written
        writes := (versionSince path data flags sid since).writes + 1 } := by
  simp [versionSince, writes, List.filterMap_append]

section Elsewhere

variable {path : Str} {op : Op} (elsewhere : op.path ≠ path)

include elsewhere

theorem creates_elsewhere : creates path op = false := by
  cases op <;> simp_all [creates, Op.path]

theorem deletes_elsewhere : deletes path op = false := by
  cases op <;> simp_all [deletes, Op.path]

theorem apply_elsewhere (versions : Versions) : versions.apply op path = versions path := by
  have other : path ≠ op.path := Ne.symm elsewhere
  cases op <;> exact Function.update_of_ne other _ _

theorem versionSince_elsewhere (data : Str) (flags : UInt32) (sid : Sid) (since : List Op) :
    versionSince path data flags sid (since ++ [op]) = versionSince path data flags sid since := by
  have silent : writes path op = none := by
    cases op <;> simp_all [writes, Op.path]
  simp [versionSince, List.filterMap_append, silent]

end Elsewhere

/-- The path was created and not deleted since, and this is what the calls since make of it. -/
def Made (path : Str) (entry : Version) (done : List Op) : Prop :=
  ∃ data flags sid since, CreatedBefore path data flags sid done since ∧
    (∀ op ∈ since, deletes path op = false) ∧ entry = versionSince path data flags sid since

section Made

variable {path : Str} {entry : Version} {done : List Op}

theorem made_nil : Made path entry [] ↔ initial path = some entry := by
  simp only [Made, createdBefore_nil]
  constructor
  · rintro ⟨data, flags, sid, since, ⟨rfl, rfl, rfl, rfl, rfl⟩, -, rfl⟩
    simp [initial, versionSince]
  · intro present
    by_cases root : path = rootPath
    · simp only [initial, root, Function.update_self, Option.some.injEq] at present
      exact ⟨[], kPersist, 0, [], ⟨root, rfl, rfl, rfl, rfl⟩, by simp, present.symm⟩
    · simp [initial, Function.update_of_ne root] at present

theorem made_create (data : Str) (flags : UInt32) (sid : Sid) :
    Made path entry (done ++ [.create path data flags sid]) ↔
      entry = versionSince path data flags sid [] := by
  simp only [Made, createdBefore_append]
  constructor
  · rintro ⟨_, _, _, _, ⟨rfl, same⟩ | ⟨earlier, -, other, -⟩, -, rfl⟩
    · cases same
      rfl
    · simp [creates] at other
  · rintro rfl
    exact ⟨data, flags, sid, [], .inl ⟨rfl, rfl⟩, by simp, rfl⟩

theorem made_delete : ¬ Made path entry (done ++ [.delete path]) := by
  simp only [Made, createdBefore_append]
  rintro ⟨_, _, _, _, ⟨-, same⟩ | ⟨earlier, rfl, -⟩, kept, -⟩
  · cases same
  · have gone := kept (.delete path) (by simp)
    simp [deletes] at gone

theorem made_append {op : Op} (created : creates path op = false) (kept : deletes path op = false) :
    Made path entry (done ++ [op]) ↔
      ∃ data flags sid since, CreatedBefore path data flags sid done since ∧
        (∀ op ∈ since, deletes path op = false) ∧
        entry = versionSince path data flags sid (since ++ [op]) := by
  simp only [Made, createdBefore_append]
  constructor
  · rintro ⟨data, flags, sid, _, ⟨-, rfl⟩ | ⟨since, rfl, -, before⟩, all, rfl⟩
    · simp [creates] at created
    · exact ⟨data, flags, sid, since, before, fun op member =>
        all op (List.mem_append_left _ member), rfl⟩
  · rintro ⟨data, flags, sid, since, before, all, rfl⟩
    refine ⟨data, flags, sid, since ++ [op], .inr ⟨since, rfl, created, before⟩,
      fun other member => ?_, rfl⟩
    rcases List.mem_append.mp member with early | final
    · exact all other early
    · rw [List.mem_singleton.mp final]
      exact kept

end Made

theorem after_eq_some (done : List Op) (path : Str) (entry : Version) :
    after done path = some entry ↔ Made path entry done := by
  induction done using List.reverseRecOn generalizing entry with
  | nil => exact made_nil.symm
  | append_singleton done op ih =>
      rw [after_append]
      by_cases here : op.path = path
      · cases op with
        | create created data flags sid =>
            cases here
            rw [Op.path, made_create, apply, Function.update_self, Option.some.injEq]
            exact eq_comm
        | delete deleted =>
            cases here
            simp [apply, Op.path, made_delete]
        | write written data =>
            cases here
            rw [Op.path, made_append rfl rfl]
            simp only [apply, Function.update_self, Option.map_eq_some_iff, versionSince_write]
            constructor
            · rintro ⟨old, before, rfl⟩
              obtain ⟨first, flags, sid, since, created, kept, rfl⟩ := (ih old).mp before
              exact ⟨first, flags, sid, since, created, kept, rfl⟩
            · rintro ⟨first, flags, sid, since, created, kept, rfl⟩
              exact ⟨_, (ih _).mpr ⟨first, flags, sid, since, created, kept, rfl⟩, rfl⟩
      · rw [apply_elsewhere here, ih, made_append (creates_elsewhere here) (deletes_elsewhere here)]
        simp only [versionSince_elsewhere here]
        rfl

end Versions

def Version.core (entry : Version) : Str × UInt32 × Sid × UInt64 :=
  (entry.data, entry.flags, entry.sid, UInt64.ofNat entry.writes)

namespace Store

variable (options : Options)

def succeeded : Persist → List (ProcDB × Op) → List Op
  | _, [] => []
  | db, call :: rest =>
      match exec options call db with
      | .error _ => []
      | .ok next =>
          if succeeds options call db then call.2 :: succeeded next rest else succeeded next rest

variable {options} {call : ProcDB × Op} {db next : Persist}

def Shows (db : Persist) (versions : Versions) : Prop :=
  ∀ path, (treeOf db path).map Node.core = (versions path).map Version.core

theorem shows_initial : Shows (freshDb options) Versions.initial := by
  intro path
  rw [treeOf_fresh]
  by_cases root : path = rootPath
  · subst root
    rfl
  · simp [Versions.initial, root]

theorem Op.Applies.shows {op : Op} {versions : Versions}
    (applies : op.Applies options (treeOf db) (treeOf next)) (shows : Shows db versions) :
    Shows next (versions.apply op) := by
  intro path
  by_cases here : op.path = path
  · cases op with
    | create created data flags sid =>
        cases here
        obtain ⟨parentName, sonName, parent, split, -, -, -, -, -, tree⟩ :=
          Tree.create_some options _ _ created data flags sid applies
        have apart := (splitPath_parent created parentName sonName split).1
        simp only [Op.path]
        rw [tree, Function.update_of_ne apart.symm, Function.update_self]
        simp [Versions.apply, Node.core, Version.core, newNode]
    | delete deleted =>
        cases here
        obtain ⟨parentName, sonName, son, parent, removed, split, -, -, -, -, -, -, tree⟩ :=
          Tree.delete_some options _ _ deleted applies
        have apart := (splitPath_parent deleted parentName sonName split).1
        simp only [Op.path]
        rw [tree, Function.update_of_ne apart.symm, Function.update_self]
        simp [Versions.apply]
    | write written data =>
        cases here
        obtain ⟨node, before, -, -, tree⟩ := Tree.write_some options _ _ written data applies
        have same := shows written
        rw [before] at same
        obtain ⟨entry, known, core⟩ := Option.map_eq_some_iff.mp same.symm
        simp only [Version.core, Node.core, Prod.mk.injEq] at core
        obtain ⟨-, flags, sid, version⟩ := core
        simp only [Op.path]
        rw [tree, Function.update_self]
        simp [Versions.apply, known, Node.core, Version.core, flags, sid, version]
  · rw [(applies.elsewhere (Ne.symm here)).1, Versions.apply_elsewhere here, shows path]

theorem exec_shows {versions : Versions} (closed : (treeOf db).Closed options)
    (done : exec options call db = .ok next) (shows : Shows db versions) :
    Shows next (if succeeds options call db then versions.apply call.2 else versions) := by
  rcases exec_applies done with ⟨failed, rfl⟩ | ⟨fine, ⟨data, op, inside, rfl⟩ | applies⟩
  · rw [failed]
    exact shows
  · -- A write under the proc root: the tree has no node there.
    rw [fine, if_pos rfl, op]
    have absent : treeOf next call.2.path = none := by
      by_contra present
      obtain ⟨node, here⟩ := Option.ne_none_iff_exists'.mp present
      rw [(closed.valid _ node here).2] at inside
      cases inside
    have unknown : versions call.2.path = none := by
      have same := shows call.2.path
      rw [absent] at same
      exact Option.map_eq_none_iff.mp same.symm
    intro path
    rw [shows path, Versions.apply, unknown]
    by_cases here : path = call.2.path
    · simp [here, unknown]
    · rw [Function.update_of_ne here]
  · rw [fine, if_pos rfl]
    exact applies.shows shows

theorem run_shows (calls : List (ProcDB × Op)) (done : List Op)
    (closed : (treeOf db).Closed options) (shows : Shows db (Versions.after done))
    (reached : Runs.run (exec options) db calls = .ok next) :
    Shows next (Versions.after (done ++ succeeded options db calls)) := by
  induction calls generalizing db done with
  | nil =>
      cases reached
      simpa [succeeded] using shows
  | cons call rest ih =>
      obtain ⟨middle, taken, reached⟩ := (Runs.run_cons_ok _ _ _ _ _).mp reached
      have step := exec_shows closed taken shows
      have kept := exec_kept options call db middle closed taken
      simp only [succeeded, taken]
      split_ifs at step ⊢ with fine
      · rw [← Versions.after_append] at step
        simpa using ih (done ++ [call.2]) kept step reached
      · exact ih done kept step reached

theorem get_of_shows {versions : Versions} (closed : (treeOf db).Closed options)
    (shows : Shows db versions) (reader : ProcDB) {path : Str}
    (outside : options.underProc path = false) {entry : Version}
    (known : versions path = some entry) :
    ∃ node, get options reader db path = .ok node ∧ node.core = entry.core := by
  have same := shows path
  rw [known] at same
  obtain ⟨node, here, core⟩ := Option.map_eq_some_iff.mp same
  exact ⟨node, (get_ok_iff options reader db path node outside).mpr
    ⟨(closed.valid path node here).1, here⟩, core⟩

variable (options) in
theorem versioned_tree (proc : ProcDB) (calls : List (ProcDB × Op)) :
    ∃ start db, init options proc ∅ = .ok start ∧
      Runs.run (exec options) start calls = .ok db ∧
      (∀ (reader : ProcDB) (path : Str), options.underProc path = false →
        ((∃ node, get options reader db path = .ok node) ∨
            (∃ data, read options reader db path = .ok data) →
          ∃ data flags sid since,
            Versions.CreatedBefore path data flags sid (succeeded options start calls) since ∧
            ∀ op ∈ since, Versions.deletes path op = false) ∧
        ∀ data flags sid since,
          Versions.CreatedBefore path data flags sid (succeeded options start calls) since →
          (∀ op ∈ since, Versions.deletes path op = false) →
          ∃ node, get options reader db path = .ok node ∧
            read options reader db path = .ok node.data ∧
            node.data = (since.filterMap (Versions.writes path)).getLastD data ∧
            node.flags = flags ∧ node.sid = sid ∧
            node.version = UInt64.ofNat (since.filterMap (Versions.writes path)).length) ∧
      ∀ (call : ProcDB × Op) (next : Persist), exec options call db = .ok next →
        ∀ other, other ≠ call.2.path →
          (treeOf next other).map Node.core = (treeOf db other).map Node.core ∧
          ((∀ son, splitPath call.2.path ≠ .ok (other, son)) →
            treeOf next other = treeOf db other) := by
  obtain ⟨db, reached, closed⟩ := run_closed options calls
  have shows : Shows db (Versions.after (succeeded options (freshDb options) calls)) :=
    run_shows calls [] (closed_fresh options) shows_initial reached
  refine ⟨freshDb options, db, init_empty options proc, reached, fun reader path outside =>
    ⟨fun found => ?_, fun data flags sid since created kept => ?_⟩, fun call next done other
    different => ?_⟩
  · have present : ∃ node, get options reader db path = .ok node := by
      rcases found with found | ⟨data, found⟩
      · exact found
      · cases looked : get options reader db path with
        | error status => simp [read, looked, Except.map] at found
        | ok node => exact ⟨node, rfl⟩
    obtain ⟨node, looked⟩ := present
    have here := ((get_ok_iff options reader db path node outside).mp looked).2
    have same := shows path
    rw [here] at same
    obtain ⟨entry, known, -⟩ := Option.map_eq_some_iff.mp same.symm
    obtain ⟨data, flags, sid, since, created, kept, -⟩ := (Versions.after_eq_some _ _ _).mp known
    exact ⟨data, flags, sid, since, created, kept⟩
  · have known := (Versions.after_eq_some _ path _).mpr
      ⟨data, flags, sid, since, created, kept, rfl⟩
    obtain ⟨node, looked, core⟩ := get_of_shows closed shows reader outside known
    simp only [Node.core, Version.core, Versions.versionSince, Prod.mk.injEq] at core
    exact ⟨node, looked, by rw [read, looked]; rfl, core⟩
  · rcases exec_applies done with ⟨-, rfl⟩ | ⟨-, ⟨-, -, -, rfl⟩ | applies⟩
    · exact ⟨rfl, fun _ => rfl⟩
    · exact ⟨rfl, fun _ => rfl⟩
    · exact applies.elsewhere different

end Store

end Pyxis
