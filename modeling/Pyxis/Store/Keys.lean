import Pyxis.Store.Refinement

set_option autoImplicit false

namespace Pyxis.Store

theorem byte_inj (a b : Nat) (small : a < 256) (smallToo : b < 256)
    (same : Char.ofNat a = Char.ofNat b) : a = b := by
  have valid (n : Nat) (bounded : n < 256) : n.isValidChar := .inl (by omega)
  have read (n : Nat) (bounded : n < 256) : (Char.ofNat n).toNat = n := by
    rw [Char.ofNat, dif_pos (valid n bounded)]
    rfl
  rw [← read a small, ← read b smallToo, same]

theorem leBytes_length (count n : Nat) : (leBytes count n).length = count := by
  induction count generalizing n with
  | zero => rfl
  | succ count ih => simp [leBytes, ih]

theorem leBytes_inj (count n m : Nat) (small : n < 256 ^ count) (smallToo : m < 256 ^ count)
    (same : leBytes count n = leBytes count m) : n = m := by
  induction count generalizing n m with
  | zero => simp at small smallToo; omega
  | succ count ih =>
      simp only [leBytes, List.cons.injEq] at same
      have low := byte_inj _ _ (Nat.mod_lt n (by omega)) (Nat.mod_lt m (by omega)) same.1
      rw [Nat.pow_succ] at small smallToo
      have high := ih (n / 256) (m / 256) (by omega) (by omega) same.2
      omega

theorem sessionKey_inj (one two : Sid) (same : sessionKey one = sessionKey two) : one = two := by
  have bytes := List.append_cancel_left same
  apply UInt64.toNat_inj.mp
  exact leBytes_inj 8 _ _ one.toNat_lt two.toNat_lt bytes

theorem sessionKey_not_tree (sid : Sid) : ¬ IsTreeKey (sessionKey sid) := by
  rintro ⟨rest, same⟩
  simp [sessionKey, sessionPrefix] at same

theorem commitKey_not_tree : ¬ IsTreeKey commitKey := by
  rintro ⟨rest, same⟩
  simp [commitKey] at same

theorem sessionKey_ne_commitKey (sid : Sid) : sessionKey sid ≠ commitKey := by
  simp [sessionKey, sessionPrefix, commitKey]

def recordsOf (db : Persist) : Sid → Option SessionRecord :=
  fun sid => db[sessionKey sid]?.bind Value.toSession

/-- Every key is of one of the three kinds the store writes, and holds a value of that kind. -/
structure Keyed (db : Persist) : Prop where
  nodes : NodeKeys db
  others : ∀ key value, ¬ IsTreeKey key → db[key]? = some value →
    (∃ record, value = .session record ∧ key = sessionKey record.sid) ∨
      ∃ index, value = .index index ∧ key = commitKey

theorem Keyed.refines {db : Persist} {abstract : Option Tree} {result : Status × Persist}
    (keyed : Keyed db) (refined : Refines db abstract result) : Keyed result.2 :=
  ⟨refined.nodes keyed.nodes, fun key value other found =>
    keyed.others key value other ((refined.frame key other).symm.trans found)⟩

theorem recordsOf_refines {db : Persist} {abstract : Option Tree} {result : Status × Persist}
    (refined : Refines db abstract result) : recordsOf result.2 = recordsOf db := by
  funext sid
  rw [recordsOf, refined.frame _ (sessionKey_not_tree sid), recordsOf]

theorem Keyed.record {db : Persist} (keyed : Keyed db) (sid : Sid) (record : SessionRecord)
    (found : recordsOf db sid = some record) :
    db[sessionKey sid]? = some (.session record) ∧ record.sid = sid := by
  obtain ⟨value, stored, parsed⟩ := Option.bind_eq_some_iff.mp found
  rcases keyed.others _ value (sessionKey_not_tree sid) stored with ⟨other, rfl, same⟩ | ⟨_, rfl, _⟩
  · cases parsed
    exact ⟨stored, (sessionKey_inj _ _ same).symm⟩
  · cases parsed

section Insert

variable (db : Persist) (key : Str) (value : Value)

theorem treeOf_insert_other (other : ¬ IsTreeKey key) (parsed : value.toNode = none)
    (keyed : Keyed db) : treeOf (db.insert key value) = treeOf db := by
  rw [treeOf_insert, parsed]
  funext path
  by_cases same : path = key
  · subst same
    rw [Function.update_self, treeOf]
    cases found : db[path]? with
    | none => rfl
    | some old =>
        rcases keyed.others path old other found with ⟨_, rfl, _⟩ | ⟨_, rfl, _⟩ <;> rfl
  · rw [Function.update_of_ne same]

theorem nodeKeys_insert_other (other : ¬ IsTreeKey key) (nodes : NodeKeys db) :
    NodeKeys (db.insert key value) := by
  intro path old ours found
  have different : key ≠ path := by
    rintro rfl
    exact other ours
  rw [Std.ExtTreeMap.getElem?_insert, if_neg (by simpa using different)] at found
  exact nodes path old ours found

end Insert

theorem treeOf_addSession (db : Persist) (keyed : Keyed db) (record : SessionRecord) :
    treeOf (addSession db record) = treeOf db :=
  treeOf_insert_other db _ _ (sessionKey_not_tree record.sid) rfl keyed

theorem treeOf_setCommitIndex (db : Persist) (keyed : Keyed db) (index : Nat) :
    treeOf (setCommitIndex db index) = treeOf db :=
  treeOf_insert_other db _ _ commitKey_not_tree rfl keyed

theorem treeOf_removeSession (db : Persist) (keyed : Keyed db) (sid : Sid) :
    treeOf (removeSession db sid) = treeOf db := by
  rw [removeSession, treeOf_erase]
  funext path
  by_cases same : path = sessionKey sid
  · rw [same, Function.update_self, treeOf]
    cases found : db[sessionKey sid]? with
    | none => rfl
    | some old =>
        rcases keyed.others _ old (sessionKey_not_tree sid) found with ⟨_, rfl, _⟩ | ⟨_, rfl, _⟩ <;>
          rfl
  · rw [Function.update_of_ne same]

theorem Keyed.addSession {db : Persist} (keyed : Keyed db) (record : SessionRecord) :
    Keyed (addSession db record) := by
  refine ⟨nodeKeys_insert_other db _ _ (sessionKey_not_tree _) keyed.nodes, ?_⟩
  intro key value other found
  rw [Store.addSession, Std.ExtTreeMap.getElem?_insert] at found
  split_ifs at found with same
  · exact .inl ⟨record, (Option.some.inj found).symm, (Std.compare_eq_iff_eq.mp same).symm⟩
  · exact keyed.others key value other found

theorem Keyed.setCommitIndex {db : Persist} (keyed : Keyed db) (index : Nat) :
    Keyed (setCommitIndex db index) := by
  refine ⟨nodeKeys_insert_other db _ _ commitKey_not_tree keyed.nodes, ?_⟩
  intro key value other found
  rw [Store.setCommitIndex, Std.ExtTreeMap.getElem?_insert] at found
  split_ifs at found with same
  · exact .inr ⟨index, (Option.some.inj found).symm, (Std.compare_eq_iff_eq.mp same).symm⟩
  · exact keyed.others key value other found

theorem Keyed.removeSession {db : Persist} (keyed : Keyed db) (sid : Sid) :
    Keyed (removeSession db sid) := by
  refine ⟨nodeKeys_erase db _ keyed.nodes, fun key value other found => ?_⟩
  rw [Store.removeSession, Std.ExtTreeMap.getElem?_erase] at found
  split_ifs at found
  exact keyed.others key value other found

theorem recordsOf_addSession (db : Persist) (record : SessionRecord) :
    recordsOf (addSession db record) =
      Function.update (recordsOf db) record.sid (some record) := by
  funext sid
  by_cases same : sid = record.sid
  · simp [recordsOf, addSession, same, Value.toSession]
  · have different : sessionKey record.sid ≠ sessionKey sid :=
      fun equal => same (sessionKey_inj _ _ equal).symm
    simp [recordsOf, addSession, Std.ExtTreeMap.getElem?_insert, different,
      Function.update_of_ne same]

theorem recordsOf_removeSession (db : Persist) (sid : Sid) :
    recordsOf (removeSession db sid) = Function.update (recordsOf db) sid none := by
  funext other
  by_cases same : other = sid
  · simp [recordsOf, removeSession, same]
  · have different : sessionKey sid ≠ sessionKey other :=
      fun equal => same (sessionKey_inj _ _ equal).symm
    simp [recordsOf, removeSession, Std.ExtTreeMap.getElem?_erase, different,
      Function.update_of_ne same]

theorem recordsOf_setCommitIndex (db : Persist) (index : Nat) :
    recordsOf (setCommitIndex db index) = recordsOf db := by
  funext sid
  simp [recordsOf, setCommitIndex, Std.ExtTreeMap.getElem?_insert,
    (sessionKey_ne_commitKey sid).symm]

def commitOf (db : Persist) : Option Value := db[commitKey]?

theorem getCommitIndex_congr (one two : Persist) (same : commitOf one = commitOf two) :
    getCommitIndex one = getCommitIndex two := by
  unfold commitOf at same
  rw [getCommitIndex, getCommitIndex, same]

theorem commitOf_refines {db : Persist} {abstract : Option Tree} {result : Status × Persist}
    (refined : Refines db abstract result) : commitOf result.2 = commitOf db :=
  refined.frame commitKey commitKey_not_tree

theorem commitOf_addSession (db : Persist) (record : SessionRecord) :
    commitOf (addSession db record) = commitOf db := by
  simp [commitOf, addSession, Std.ExtTreeMap.getElem?_insert, sessionKey_ne_commitKey record.sid]

theorem commitOf_removeSession (db : Persist) (sid : Sid) :
    commitOf (removeSession db sid) = commitOf db := by
  simp [commitOf, removeSession, Std.ExtTreeMap.getElem?_erase, sessionKey_ne_commitKey sid]

theorem commitOf_setCommitIndex (db : Persist) (index : Nat) :
    commitOf (setCommitIndex db index) = some (.index index) := by
  simp [commitOf, setCommitIndex]

theorem get_missing (options : Options) (proc : ProcDB) (db : Persist) (path : Str)
    (nodes : NodeKeys db) (valid : isValidPath path = true)
    (outside : options.underProc path = false) (absent : treeOf db path = none) :
    get options proc db path = .error (Status.notFound path) := by
  cases found : db[path]? with
  | none => simp [get, valid, outside, found]
  | some value =>
      obtain ⟨node, rfl⟩ := nodes path value (isValidPath_head path valid) found
      simp [treeOf, found, Value.toNode] at absent

end Pyxis.Store
