import Pyxis.Store.Walk
import Pyxis.Store.Children

set_option autoImplicit false

namespace Pyxis.Store

variable (options : Options)

-- Everything that writes to LevelDB.
inductive Change where
  | call (call : ProcDB × Op)
  | addSession (record : SessionRecord)
  | removeSession (sid : Sid)
  | setCommitIndex (index : Nat)

def change (input : Change) (db : Persist) : Except Fault Persist :=
  match input with
  | .call call => exec options call db
  | .addSession record => .ok (addSession db record)
  | .removeSession sid => .ok (removeSession db sid)
  | .setCommitIndex index => .ok (setCommitIndex db index)

/-- Each stored path is visited once, with its node, and each stored session once, with its record.
Nothing else is visited. -/
structure Walked (db : Persist) : Prop where
  tree : ∀ path, (walkTree db).filter (fun visit => visit.1 = path) =
    (treeOf db path).toList.map fun node => (path, some node)
  sessions : ∃ records, walkSessions db = .ok records ∧
    ∀ sid, records.filter (fun record => record.sid = sid) = (recordsOf db sid).toList
  commit : commitKey ∉ (walkTree db).map Prod.fst ∧
    commitKey ∉ (OrderedMap.scan sessionPrefix sessionEnd db).map Prod.fst

structure Sound (db : Persist) : Prop where
  keyed : Keyed db
  closed : (treeOf db).Closed options

variable {options} {db : Persist}

theorem exec_keyed {call : ProcDB × Op} {next : Persist} (keyed : Keyed db)
    (done : exec options call db = .ok next) : Keyed next := by
  obtain ⟨proc, op⟩ := call
  cases op with
  | create path data flags sid =>
      cases done
      exact keyed.refines (create_refines options proc db path data flags sid).1
  | delete path =>
      have sim := delete_refines options proc db path
      cases deleted : delete options proc db path with
      | error fault => simp [exec, deleted, Except.map] at done
      | ok outcome =>
          simp only [exec, deleted, Except.map, Except.ok.injEq] at done
          rw [deleted] at sim
          obtain ⟨abstract, -, refined, -⟩ := sim.of_ok
          rw [← done]
          exact keyed.refines refined
  | write path data =>
      cases done
      exact keyed.refines (write_refines options proc db path data)

theorem change_sound (input : Change) (sound : Sound options db) :
    ∃ next, change options input db = .ok next ∧ Sound options next := by
  cases input with
  | call call =>
      obtain ⟨next, done, closed⟩ := exec_closed options call db sound.closed
      exact ⟨next, done, exec_keyed sound.keyed done, closed⟩
  | addSession record =>
      refine ⟨_, rfl, sound.keyed.addSession record, ?_⟩
      rw [treeOf_addSession db sound.keyed record]
      exact sound.closed
  | removeSession sid =>
      refine ⟨_, rfl, sound.keyed.removeSession sid, ?_⟩
      rw [treeOf_removeSession db sound.keyed sid]
      exact sound.closed
  | setCommitIndex index =>
      refine ⟨_, rfl, sound.keyed.setCommitIndex index, ?_⟩
      rw [treeOf_setCommitIndex db sound.keyed index]
      exact sound.closed

variable (options) in
theorem sound_fresh : Sound options (freshDb options) := by
  refine ⟨⟨nodeKeys_insert _ _ _ (fun key value _ found => by simp at found), ?_⟩,
    closed_fresh options⟩
  intro key value other found
  rw [freshDb, frame_insert _ key rootPath _ ⟨[], rfl⟩ other] at found
  simp at found

theorem walkTree_visits (sound : Sound options db) (path : Str) :
    (walkTree db).filter (fun visit => visit.1 = path) =
      (treeOf db path).toList.map fun node => (path, some node) := by
  have keys : (walkTree db).map Prod.fst =
      (OrderedMap.scan rootPath ['/', Char.ofNat 0xFF] db).map Prod.fst := by
    simp [walkTree, Function.comp_def]
  have visits := mem_walkTree db sound.keyed fun path node here =>
    (sound.closed.valid path node here).1
  have once : ((walkTree db).map Prod.fst).Nodup := by
    rw [keys]
    exact OrderedMap.scan_keys_nodup ..
  rw [OrderedMap.filter_key Prod.fst (walkTree db) once path
    ((treeOf db path).map fun node => (path, some node)) ?_]
  · cases treeOf db path <;> rfl
  · rintro ⟨other, value⟩
    rw [visits]
    constructor
    · intro found
      obtain ⟨node, here, same⟩ := Option.map_eq_some_iff.mp found
      cases same
      exact ⟨⟨node, rfl, here⟩, rfl⟩
    · rintro ⟨⟨node, rfl, here⟩, rfl⟩
      simp [here]

theorem walkSessions_visits (sound : Sound options db) :
    ∃ records, walkSessions db = .ok records ∧ (∀ record ∈ records, record.sid ≠ maxSid) ∧
      ∀ sid, sid ≠ maxSid →
        records.filter (fun record => record.sid = sid) = (recordsOf db sid).toList := by
  obtain ⟨records, walked, visits⟩ := walkSessions_spec db sound.keyed
  refine ⟨records, walked, fun record member => ((visits record).mp member).2,
    fun sid notMax => ?_⟩
  have once : (records.map SessionRecord.sid).Nodup := by
    rw [walkSessions_eq sound.keyed] at walked
    cases walked
    have keys := OrderedMap.scan_keys_nodup sessionPrefix sessionEnd db
    have same : (OrderedMap.scan sessionPrefix sessionEnd db).map Prod.fst =
        (((OrderedMap.scan sessionPrefix sessionEnd db).map visited).map SessionRecord.sid).map
          sessionKey := by
      rw [List.map_map, List.map_map]
      refine List.map_congr_left fun entry member => ?_
      obtain ⟨record, rfl, -⟩ := scan_session sound.keyed member
      rfl
    rw [same] at keys
    exact keys.of_map sessionKey
  refine OrderedMap.filter_key SessionRecord.sid records once sid (recordsOf db sid) ?_
  intro record
  rw [visits]
  constructor
  · intro found
    have same := (sound.keyed.record sid record found).2
    rw [same]
    exact ⟨⟨found, notMax⟩, rfl⟩
  · rintro ⟨⟨found, -⟩, rfl⟩
    exact found

theorem commit_unvisited (sound : Sound options db) :
    commitKey ∉ (walkTree db).map Prod.fst ∧
      commitKey ∉ (OrderedMap.scan sessionPrefix sessionEnd db).map Prod.fst := by
  constructor
  · intro member
    obtain ⟨⟨key, value⟩, visited, same⟩ := List.mem_map.mp member
    cases same
    obtain ⟨node, -, here⟩ := (mem_walkTree db sound.keyed (fun path node here =>
      (sound.closed.valid path node here).1) commitKey value).mp visited
    exact commitKey_not_tree (isValidPath_head _ (sound.closed.valid _ node here).1)
  · intro member
    obtain ⟨entry, visited, same⟩ := List.mem_map.mp member
    obtain ⟨record, rfl, -⟩ := scan_session sound.keyed visited
    exact sessionKey_ne_commitKey record.sid same

theorem walked_iff (sound : Sound options db) : Walked db ↔ recordsOf db maxSid = none := by
  obtain ⟨records, walked, unseen, visits⟩ := walkSessions_visits sound
  constructor
  · rintro ⟨-, ⟨other, again, all⟩, -⟩
    cases walked.symm.trans again
    -- The bound of the scan is the key of the largest sid.
    rw [← Option.toList_eq_nil_iff, ← all maxSid, List.filter_eq_nil_iff]
    exact fun record member last => unseen record member (by simpa using last)
  · intro absent
    refine ⟨walkTree_visits sound, ⟨records, walked, fun sid => ?_⟩, commit_unvisited sound⟩
    by_cases last : sid = maxSid
    · subst last
      rw [absent, Option.toList_none, List.filter_eq_nil_iff]
      exact fun record member same => unseen record member (by simpa using same)
    · exact visits sid last

variable (options) in
theorem walks_complete_iff (proc : ProcDB) (inputs : List Change) :
    ∃ start db, init options proc ∅ = .ok start ∧
      Runs.run (change options) start inputs = .ok db ∧
      (Walked db ↔ recordsOf db maxSid = none) := by
  obtain ⟨db, reached, sound⟩ := Runs.run_total (change options) (fun _ _ => True)
    (Sound options) (fun input db sound _ => change_sound input sound) (freshDb options) inputs
    (sound_fresh options) (Runs.meets_of_mem _ _ _ inputs fun _ _ _ => trivial)
  exact ⟨freshDb options, db, init_empty options proc, reached, walked_iff sound⟩

theorem walks_complete_last :
    ∃ db, Runs.run (change Options.standard) (freshDb Options.standard)
        [.addSession ⟨maxSid, 5000, [], []⟩] = .ok db ∧ ¬ Walked db := by
  refine ⟨_, rfl, fun walked => ?_⟩
  obtain ⟨records, done, visits⟩ := walked.sessions
  have none : walkSessions (addSession (freshDb Options.standard) ⟨maxSid, 5000, [], []⟩) =
      .ok [] := by decide +kernel
  cases none.symm.trans done
  have seen := visits maxSid
  revert seen
  decide +kernel

end Pyxis.Store
