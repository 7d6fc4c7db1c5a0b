import Pyxis.Store.Keys

set_option autoImplicit false

namespace Pyxis.Store

def maxSid : Sid := 0xFFFFFFFFFFFFFFFF

theorem compare_append_left (shared one two : Str) :
    compare (shared ++ one) (shared ++ two) = compare one two := by
  induction shared with
  | nil => rfl
  | cons c rest ih =>
      rw [List.cons_append, List.cons_append, List.compare_cons_cons, ih, Std.compare_self]
      rfl

theorem compare_replicate (bound : Char) (bytes : Str)
    (bounded : ∀ c ∈ bytes, compare c bound ≠ .gt) :
    (compare bytes (List.replicate bytes.length bound)).isLT = true ↔
      bytes ≠ List.replicate bytes.length bound := by
  induction bytes with
  | nil => simp
  | cons c rest ih =>
      have later := ih fun other member => bounded other (List.mem_cons_of_mem _ member)
      rw [List.length_cons, List.replicate_succ, List.compare_cons_cons]
      cases first : compare c bound with
      | lt =>
          have different : c ≠ bound := by
            rintro rfl
            rw [Std.compare_self] at first
            cases first
          simp [different, Ordering.then]
      | eq =>
          rw [Std.compare_eq_iff_eq] at first
          subst first
          simpa [Ordering.then] using later
      | gt => exact absurd first (bounded c (by simp))

theorem leBytes_bounded (count n : Nat) :
    ∀ c ∈ leBytes count n, compare c (Char.ofNat 0xFF) ≠ .gt := by
  induction count generalizing n with
  | zero => simp [leBytes]
  | succ count ih =>
      intro c member
      rcases List.mem_cons.mp member with rfl | later
      · have small : ∀ byte : Fin 256, compare (Char.ofNat byte) (Char.ofNat 0xFF) ≠ .gt := by
          decide +kernel
        exact small ⟨n % 256, Nat.mod_lt n (by omega)⟩
      · exact ih (n / 256) c later

theorem sessionKey_below_end (sid : Sid) :
    (compare (sessionKey sid) sessionEnd).isLT = true ↔ sid ≠ maxSid := by
  have last : sessionEnd = sessionKey maxSid := by decide
  have bound : List.replicate (leBytes 8 sid.toNat).length (Char.ofNat 0xFF) =
      leBytes 8 maxSid.toNat := by
    rw [leBytes_length]
    decide
  have order := compare_replicate (Char.ofNat 0xFF) (leBytes 8 sid.toNat)
    (leBytes_bounded 8 sid.toNat)
  rw [bound] at order
  rw [last, sessionKey, sessionKey, compare_append_left, order, not_iff_not]
  constructor
  · intro same
    exact UInt64.toNat_inj.mp (leBytes_inj 8 _ _ sid.toNat_lt maxSid.toNat_lt same)
  · rintro rfl
    rfl

theorem sessionKey_above_start (sid : Sid) :
    (compare (sessionKey sid) sessionPrefix).isLT = false := by
  have order := compare_append_left sessionPrefix (leBytes 8 sid.toNat) []
  rw [List.append_nil] at order
  rw [sessionKey, order]
  rfl

theorem treeKey_before_sessions (key : Str) (ours : IsTreeKey key) :
    (compare key sessionPrefix).isLT = true := by
  obtain ⟨rest, rfl⟩ := ours
  rw [sessionPrefix, List.compare_cons_cons]
  have first : compare '/' 's' = .lt := by decide
  rw [first]
  rfl

theorem readSession_key (record : SessionRecord) :
    readSession (sessionKey record.sid, .session record) = .ok record := by
  have length : (sessionKey record.sid).length = sessionPrefix.length + 8 := by
    rw [sessionKey, List.length_append, leBytes_length]
  have bytes : (sessionKey record.sid).drop sessionPrefix.length = leBytes 8 record.sid.toNat :=
    List.drop_left
  simp only [readSession, length, ne_eq, not_true_eq_false, if_false, Value.toSession,
    bytes, if_true]

theorem mapM_ok {α β : Type} (f : α → Except Fault β) (g : α → β) (xs : List α)
    (ok : ∀ x ∈ xs, f x = .ok (g x)) : xs.mapM f = .ok (xs.map g) := by
  induction xs with
  | nil => rfl
  | cons x rest ih =>
      rw [List.mapM_cons, ok x (by simp), ih fun y member => ok y (List.mem_cons_of_mem _ member)]
      rfl

theorem scan_session {db : Persist} (keyed : Keyed db) {entry : Str × Value}
    (member : entry ∈ OrderedMap.scan sessionPrefix sessionEnd db) :
    ∃ record, entry = (sessionKey record.sid, .session record) ∧ record.sid ≠ maxSid := by
  obtain ⟨key, value⟩ := entry
  obtain ⟨stored, above, below⟩ := (OrderedMap.mem_scan _ _ _ _ _).mp member
  have other : ¬ IsTreeKey key := fun ours => by
    rw [treeKey_before_sessions key ours] at above
    cases above
  rcases keyed.others key value other stored with ⟨record, rfl, rfl⟩ | ⟨index, rfl, rfl⟩
  · exact ⟨record, rfl, (sessionKey_below_end record.sid).mp below⟩
  · have before : (compare commitKey sessionPrefix).isLT = true := by decide
    rw [before] at above
    cases above

def visited (entry : Str × Value) : SessionRecord := entry.2.toSession.getD ⟨0, 0, [], []⟩

theorem walkSessions_eq {db : Persist} (keyed : Keyed db) :
    walkSessions db = .ok ((OrderedMap.scan sessionPrefix sessionEnd db).map visited) := by
  refine mapM_ok readSession visited _ fun entry member => ?_
  obtain ⟨record, rfl, -⟩ := scan_session keyed member
  exact readSession_key record

theorem walkSessions_spec (db : Persist) (keyed : Keyed db) :
    ∃ records, walkSessions db = .ok records ∧
      ∀ record, record ∈ records ↔ recordsOf db record.sid = some record ∧ record.sid ≠ maxSid := by
  refine ⟨_, walkSessions_eq keyed, fun record => ?_⟩
  simp only [List.mem_map]
  constructor
  · rintro ⟨entry, member, parsed⟩
    obtain ⟨found, rfl, notMax⟩ := scan_session keyed member
    cases parsed
    have stored := ((OrderedMap.mem_scan _ _ _ _ _).mp member).1
    exact ⟨by simp [recordsOf, stored, Value.toSession, visited], notMax⟩
  · rintro ⟨found, notMax⟩
    refine ⟨(sessionKey record.sid, .session record), ?_, rfl⟩
    exact (OrderedMap.mem_scan _ _ _ _ _).mpr ⟨(keyed.record record.sid record found).1,
      sessionKey_above_start record.sid, (sessionKey_below_end record.sid).mpr notMax⟩

theorem validChar_small (c : Char) (valid : invalidChar c = false) :
    compare c (Char.ofNat 0xFF) = .lt := by
  have bounded : c.toNat < 0xFF := by
    delta invalidChar Char.isAlphanum Char.isAlpha Char.isUpper Char.isLower Char.isDigit at valid
    simp only [Bool.not_eq_false', Bool.or_eq_true, beq_iff_eq, Bool.and_eq_true,
      decide_eq_true_eq] at valid
    rcases valid with ((((alpha | rfl) | rfl) | rfl) | rfl)
    · have bound : c.val ≤ 122 := by
        rcases alpha with (upper | lower) | digit
        · exact UInt32.le_trans upper.2 (by decide)
        · exact lower.2
        · exact UInt32.le_trans digit.2 (by decide)
      have small : c.val.toNat ≤ 122 := bound
      exact Nat.lt_of_le_of_lt small (by decide)
    all_goals decide
  have below : c < Char.ofNat 0xFF := bounded
  exact if_pos below

theorem mem_walkTree (db : Persist) (keyed : Keyed db)
    (valid : ∀ path node, treeOf db path = some node → isValidPath path = true)
    (path : Str) (value : Option Node) :
    (path, value) ∈ walkTree db ↔ ∃ node, value = some node ∧ treeOf db path = some node := by
  simp only [walkTree, List.mem_map, Prod.mk.injEq]
  constructor
  · rintro ⟨⟨key, stored⟩, member, rfl, rfl⟩
    obtain ⟨found, above, below⟩ := (OrderedMap.mem_scan _ _ _ _ _).mp member
    have ours : IsTreeKey key := by
      by_contra other
      have outside : (compare key ['/', Char.ofNat 0xFF]).isLT = false := by
        rcases keyed.others key stored other found with ⟨record, -, rfl⟩ | ⟨index, -, rfl⟩
        · rw [sessionKey, sessionPrefix, List.cons_append, List.compare_cons_cons]
          have first : compare 's' '/' = .gt := by decide
          rw [first]
          rfl
        · decide
      rw [outside] at below
      cases below
    obtain ⟨node, rfl⟩ := keyed.nodes key stored ours found
    exact ⟨node, rfl, by simp [treeOf, found, Value.toNode]⟩
  · rintro ⟨node, rfl, here⟩
    obtain ⟨stored, found, parsed⟩ := Option.bind_eq_some_iff.mp here
    have fine := valid path node here
    obtain ⟨rest, rfl⟩ := isValidPath_head path fine
    refine ⟨('/' :: rest, stored), (OrderedMap.mem_scan _ _ _ _ _).mpr ⟨found, ?_, ?_⟩, rfl, parsed⟩
    · rw [rootPath, List.compare_cons_cons, Std.compare_self]
      cases rest <;> rfl
    · rw [List.compare_cons_cons, Std.compare_self]
      cases rest with
      | nil => rfl
      | cons c more =>
          simp only [isValidPath, Bool.and_eq_true, Bool.not_eq_true', List.any_cons,
            Bool.or_eq_false_iff] at fine
          rw [List.compare_cons_cons, validChar_small c fine.2.2.1]
          rfl

theorem getCommitIndex_ok (db : Persist) (keyed : Keyed db) :
    ∃ index, getCommitIndex db = .ok index := by
  unfold getCommitIndex
  cases found : db[commitKey]? with
  | none => exact ⟨0, rfl⟩
  | some value =>
      rcases keyed.others commitKey value commitKey_not_tree found with
        ⟨record, -, same⟩ | ⟨index, rfl, -⟩
      · exact absurd same.symm (sessionKey_ne_commitKey record.sid)
      · exact ⟨index, rfl⟩

end Pyxis.Store
