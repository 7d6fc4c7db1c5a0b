import Pyxis.Store.Proc
import Pyxis.Store.Refinement

set_option autoImplicit false

open Std (ExtTreeMap)

namespace Pyxis

def Below (node path : Str) : Prop := path = node ∨ (node ++ ['/']) <+: path

instance (node path : Str) : Decidable (Below node path) := inferInstanceAs (Decidable (_ ∨ _))

def Ends (node path : Str) : Prop := ∀ c rest, path = node ++ c :: rest → c = '/'

theorem Below.leads {node path : Str} (below : Below node path) : node <+: path := by
  rcases below with rfl | ⟨rest, rfl⟩
  · exact List.prefix_refl _
  · exact ⟨'/' :: rest, by simp⟩

theorem below_iff {node path : Str} (leads : node <+: path) : Below node path ↔ Ends node path := by
  obtain ⟨rest, rfl⟩ := leads
  cases rest with
  | nil => exact iff_of_true (.inl (List.append_nil _)) fun c rest whole => by simp at whole
  | cons head rest =>
      constructor
      · rintro (same | ⟨tail, whole⟩) c rest' split
        · simp at same
        · rw [← whole, List.append_assoc, List.append_cancel_left_eq] at split
          exact (List.cons.inj split).1.symm
      · intro ends
        cases ends head rest rfl
        exact .inr ⟨rest, by simp⟩

namespace Store

variable (layout : Layout) (path : Str)

def refused : Status := Status.invalidArgument (text "can't create node under pyxis node")

def undeleted : Status := Status.invalidArgument (text "can't delete node under pyxis node")

structure AsProc : Prop where
  create : ∀ proc db data flags sid,
    Store.create layout proc db path data flags sid = (refused, db)
  delete : ∀ proc db, Store.delete layout proc db path = .ok (undeleted, db)
  get : ∀ proc db node, Store.get layout proc db path = .ok node ↔
    ∃ value, proc.get path = .ok value ∧ value.toNode = some node
  put : ∀ proc db node, node.byteSize ≤ layout.sizeLimit →
    (Store.put layout proc db path node).2 = db ∧
      ((Store.put layout proc db path node).1.isOk = true ↔ proc.put path node = none)

structure AsTree : Prop where
  create : ∀ proc db data flags sid, (Store.create layout proc db path data flags sid).1 ≠ refused
  delete : ∀ proc db status next,
    Store.delete layout proc db path = .ok (status, next) → status ≠ undeleted
  get : ∀ proc db node, Store.get layout proc db path = .ok node ↔ treeOf db path = some node
  put : ∀ proc db node, node.byteSize ≤ layout.sizeLimit →
    Store.put layout proc db path node = (Status.ok, db.insert path (.node node))

variable {layout path}

theorem get_valid {proc : ProcDB} {db : Persist} {status : Status}
    (valid : isValidPath path = true) (failed : get layout proc db path = .error status) :
    status.isInvalidArgument = false := by
  simp only [get, valid, Bool.true_eq_false, if_false] at failed
  split at failed
  · split_ifs at failed <;> cases failed <;> rfl
  · split at failed <;> cases failed
    rfl

theorem asProc_of_underProc (valid : isValidPath path = true)
    (inside : layout.underProc path = true) : AsProc layout path where
  create proc db data flags sid := by rw [Store.create, if_pos inside]; rfl
  delete proc db := by rw [Store.delete, if_pos inside]; rfl
  get proc db node := by
    simp only [Store.get, valid, inside, Bool.true_eq_false, if_false, if_true]
    cases proc.get path with
    | error failure => cases absent : failure.isNotFound <;> simp [absent]
    | ok value => cases parsed : value.toNode <;> simp [parsed]
  put proc db node fits := by
    simp only [Store.put, valid, inside, Bool.true_eq_false, if_false, if_true,
      Nat.not_lt.mpr fits]
    cases proc.put path node <;> simp

theorem ne_of_slash {status : Status} (valid : isValidPath path = true)
    (first : status.msg.head? = some 'c') : Status.invalidArgument path ≠ status := by
  rintro rfl
  obtain ⟨rest, rfl⟩ := isValidPath_head path valid
  cases first

theorem ne_invalidArgument {status : Status} {msg : Str} (fine : status.isInvalidArgument = false) :
    status ≠ Status.invalidArgument msg := by
  rintro rfl
  cases fine

theorem create_ne_refused (valid : isValidPath path = true)
    (outside : layout.underProc path = false) (proc : ProcDB) (db : Persist) (data : Str)
    (flags : UInt32) (sid : Sid) : (create layout proc db path data flags sid).1 ≠ refused := by
  have exceeded : Status.invalidArgument (text "node size exceed") ≠ refused := by decide +kernel
  simp only [create, outside, Bool.false_eq_true, if_false]
  split_ifs
  · exact exceeded
  cases split : splitPath path with
  | error status =>
      rw [splitPath_error path status split]
      exact ne_of_slash valid (by decide +kernel)
  | ok parts =>
      dsimp only
      cases own : get layout proc db path with
      | ok node => exact ne_invalidArgument rfl
      | error status =>
          simp only [get_valid valid own, Bool.false_eq_true, if_false]
          cases above : get layout proc db parts.1 with
          | error status =>
              exact ne_invalidArgument (get_valid (isValidPath_parent path _ _ valid split) above)
          | ok parent =>
              dsimp only
              split_ifs
              · exact show Status.invalidArgument (text "parent not persistent node") ≠ refused by
                  decide +kernel
              · exact exceeded
              · exact ne_invalidArgument rfl

theorem delete_ne_undeleted (valid : isValidPath path = true)
    (outside : layout.underProc path = false) {proc : ProcDB} {db next : Persist} {status : Status}
    (done : delete layout proc db path = .ok (status, next)) : status ≠ undeleted := by
  simp only [delete, outside, Bool.false_eq_true, if_false] at done
  cases split : splitPath path with
  | error failure =>
      rw [split] at done
      cases done
      rw [splitPath_error path _ split]
      exact ne_of_slash valid (by decide +kernel)
  | ok parts =>
      rw [split] at done
      dsimp only at done
      cases own : get layout proc db path with
      | error failure =>
          rw [own] at done
          dsimp only at done
          split_ifs at done <;> cases done
          · exact ne_invalidArgument rfl
          · exact ne_invalidArgument (get_valid valid own)
      | ok son =>
          rw [own] at done
          dsimp only at done
          split_ifs at done
          · cases done
            exact show Status.invalidArgument (text "children not empty") ≠ undeleted by
              decide +kernel
          cases above : get layout proc db parts.1 with
          | error failure =>
              rw [above] at done
              cases done
              exact ne_invalidArgument (get_valid (isValidPath_parent path _ _ valid split) above)
          | ok parent =>
              rw [above] at done
              dsimp only at done
              cases removed : removeChild parent parts.2 with
              | error failure =>
                  rw [removed] at done
                  cases done
              | ok left =>
                  rw [removed] at done
                  cases done
                  exact ne_invalidArgument rfl

theorem asTree_of_outside (valid : isValidPath path = true)
    (outside : layout.underProc path = false) : AsTree layout path where
  create := create_ne_refused valid outside
  delete _ _ _ _ done := delete_ne_undeleted valid outside done
  get proc db node := by rw [get_ok_iff layout proc db path node outside, and_iff_right valid]
  put proc db node fits := by
    simp only [Store.put, valid, outside, Bool.true_eq_false, Bool.false_eq_true, if_false,
      Nat.not_lt.mpr fits]

/-- The operations on a path are those on the proc database exactly below the proc root. -/
def Exact (layout : Layout) (path : Str) : Prop :=
  (Below layout.procRoot path → AsProc layout path) ∧
    (¬ Below layout.procRoot path → AsTree layout path)

def Creatable (layout : Layout) (path : Str) : Prop :=
  ¬ Below layout.procRoot path →
    ∀ proc db data flags sid parentName sonName parent,
      splitPath path = .ok (parentName, sonName) → treeOf db parentName = some parent →
      parent.ephemeral = false → treeOf db path = none → data.length ≤ layout.sizeLimit →
      (addChild parent sonName).byteSize ≤ layout.sizeLimit →
      create layout proc db path data flags sid =
        (Status.ok, (db.insert path (.node { newNode data flags with sid := sid })).insert
          parentName (.node (addChild parent sonName)))

theorem not_asTree (valid : isValidPath path = true) (inside : layout.underProc path = true) :
    ¬ AsTree layout path := by
  intro tree
  have found := (tree.get ProcDB.silent
    ((∅ : Persist).insert path (.node (newNode [] kPersist))) (newNode [] kPersist)).mpr (by
      simp [treeOf, Value.toNode])
  obtain ⟨value, answer, -⟩ := ((asProc_of_underProc valid inside).get _ _ _).mp found
  cases answer

theorem exact_iff (valid : isValidPath path = true) :
    Exact layout path ∧ Creatable layout path ↔ Ends layout.procRoot path := by
  by_cases inside : layout.underProc path = true
  · have below := below_iff (List.isPrefixOf_iff_prefix.mp inside)
    constructor
    · rintro ⟨exact, -⟩
      rw [← below]
      by_contra sibling
      exact not_asTree valid inside (exact.2 sibling)
    · intro ends
      have here := below.mpr ends
      exact ⟨⟨fun _ => asProc_of_underProc valid inside, fun sibling => absurd here sibling⟩,
        fun sibling => absurd here sibling⟩
  · have outside : layout.underProc path = false := by simpa using inside
    have apart : ¬ layout.procRoot <+: path := fun leads =>
      inside (List.isPrefixOf_iff_prefix.mpr leads)
    refine iff_of_true ⟨⟨fun below => absurd below.leads apart,
      fun _ => asTree_of_outside valid outside⟩, ?_⟩ fun c rest whole => ?_
    · intro _ proc db data flags sid parentName sonName parent split above persistent absent small
        fits
      exact create_accepted layout proc db path data flags sid parentName sonName parent
        ⟨outside, small, split, valid, absent, above, persistent, fits⟩
    · exact absurd ⟨c :: rest, whole.symm⟩ apart

end Store

namespace Proc

def Hands (db : DB) (path : Str) : Prop :=
  (∀ node read, Prefixes.scan db.readMap (cString path) = some (node, read) → Below node path) ∧
    ∀ node callback, Prefixes.scan db.writeMap (cString path) = some (node, callback) →
      Below node path

def EndsAtNodes (db : DB) (path : Str) : Prop :=
  (∀ node read, Prefixes.Longest db.readMap path node read → Ends node path) ∧
    ∀ node callback, Prefixes.Longest db.writeMap path node callback → Ends node path

theorem hands_iff {db : DB} {path : Str} (clean : nul ∉ path) :
    Hands db path ↔ EndsAtNodes db path := by
  have each {ν : Type} (nodes : ExtTreeMap Str ν) :
      (∀ node value, Prefixes.scan nodes (cString path) = some (node, value) → Below node path) ↔
        ∀ node value, Prefixes.Longest nodes path node value → Ends node path := by
    refine forall₂_congr fun node value => ?_
    rw [(scan_routed nodes clean).longest]
    exact imp_congr_right fun longest => below_iff longest.leads
  exact and_congr (each db.readMap) (each db.writeMap)

end Proc

theorem clean_of_valid {path : Str} (valid : isValidPath path = true) : Proc.nul ∉ path := by
  obtain ⟨rest, rfl⟩ := isValidPath_head path valid
  simp only [isValidPath, Bool.and_eq_true, Bool.not_eq_true', List.any_eq_false] at valid
  intro member
  exact valid.2 _ member (by decide)

theorem get_handed {layout : Layout} {path : Str} (valid : isValidPath path = true)
    (inside : layout.underProc path = true) {procs : Proc.DB} {node : Str} {read : Proc.ReadNode}
    (longest : Prefixes.Longest procs.readMap path node read) {answer : Status × Value}
    (called : procs.call read (Proc.splitString (path.drop node.length)) = .ok answer)
    (db : Persist) (found : Node) :
    Store.get layout procs.serve db path = .ok found ↔
      answer.1.isOk = true ∧ answer.2.toNode = some found := by
  have served : procs.serve.get path = Proc.DB.result answer := by
    rw [Proc.DB.serve]
    dsimp only
    rw [(Proc.get_routed (clean_of_valid valid)).2 node read longest, called]
    rfl
  rw [(Store.asProc_of_underProc valid inside).get, served]
  unfold Proc.DB.result Proc.DB.failure
  cases answer.1.isOk
  · cases answer.1.isNotFound <;> simp
  · simp

theorem proc_namespace (layout : Layout) (db : Proc.DB) {path : Str}
    (valid : isValidPath path = true) :
    (Store.Exact layout path ∧ Store.Creatable layout path) ∧ Proc.Hands db path ↔
      Ends layout.procRoot path ∧ Proc.EndsAtNodes db path :=
  and_congr (Store.exact_iff valid) (Proc.hands_iff (clean_of_valid valid))

theorem proc_namespace_below :
    (Store.Exact ⟨text "/pyxis", 1024⟩ (text "/pyxis/db") ∧
        Store.Creatable ⟨text "/pyxis", 1024⟩ (text "/pyxis/db")) ∧
        Proc.Hands (Proc.registered (text "/pyxis") Proc.nested) (text "/pyxis/db") ↔
      Ends (text "/pyxis") (text "/pyxis/db") ∧
        Proc.EndsAtNodes (Proc.registered (text "/pyxis") Proc.nested) (text "/pyxis/db") :=
  proc_namespace ⟨text "/pyxis", 1024⟩ (Proc.registered (text "/pyxis") Proc.nested)
    (by decide +kernel)

theorem longest_sibling : Prefixes.Longest (Proc.DB.new (text "/pyxis")).readMap
    (text "/pyxisfoo") (text "/pyxis") .onProcRead where
  stored := by simp [Proc.DB.new]
  leads := by decide +kernel
  longest other member _ := by
    have only : text "/pyxis" = other := by simpa [Proc.DB.new] using member
    rw [only]

-- `/pyxisfoo` is no path below `/pyxis`. It cannot be created, and a read asks the handler of
-- `/pyxis`, which finds nothing whatever the database holds.
theorem proc_namespace_sibling :
    isValidPath (text "/pyxisfoo") = true ∧ ¬ Below (text "/pyxis") (text "/pyxisfoo") ∧
    (∀ proc db data flags sid,
      Store.create ⟨text "/pyxis", 1024⟩ proc db (text "/pyxisfoo") data flags sid =
        (Status.invalidArgument (text "can't create node under pyxis node"), db)) ∧
    (∀ db node, Store.get ⟨text "/pyxis", 1024⟩ (Proc.DB.new (text "/pyxis")).serve db
      (text "/pyxisfoo") ≠ .ok node) ∧
    ¬ (Store.Exact ⟨text "/pyxis", 1024⟩ (text "/pyxisfoo") ∧
      Store.Creatable ⟨text "/pyxis", 1024⟩ (text "/pyxisfoo")) ∧
    ¬ Proc.Hands (Proc.DB.new (text "/pyxis")) (text "/pyxisfoo") := by
  have valid : isValidPath (text "/pyxisfoo") = true := by decide +kernel
  have sibling : ¬ Below (text "/pyxis") (text "/pyxisfoo") := by decide +kernel
  have inside : Layout.underProc ⟨text "/pyxis", 1024⟩ (text "/pyxisfoo") = true := by
    decide +kernel
  refine ⟨valid, sibling, (Store.asProc_of_underProc valid inside).create, fun db node found => ?_,
    fun exact => ?_, fun hands => ?_⟩
  · have args : Proc.splitString ((text "/pyxisfoo").drop (text "/pyxis").length) =
        [text "foo"] := by decide +kernel
    have answered := (get_handed valid inside longest_sibling (by rw [args]; rfl) db node).mp found
    cases answered.1
  · exact sibling ((below_iff longest_sibling.leads).mpr ((Store.exact_iff valid).mp exact))
  · exact sibling (hands.1 _ _
      (((Proc.scan_routed _ (clean_of_valid valid)).longest _ _).mpr longest_sibling))

end Pyxis
