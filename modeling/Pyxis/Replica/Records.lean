import Pyxis.Replica.Ownership
import Pyxis.Replica.Reach

set_option autoImplicit false

namespace Pyxis

namespace SessionManager

def Bounded (sm : SessionManager) : Prop := ∀ sid, sm.get sid ≠ none → sid ≤ sm.sid

theorem bounded_new (now : Time) : (new now).Bounded := by
  simp [Bounded, get, new]

theorem Bounded.add {options : Options} {now : Time} {sm after : SessionManager} {p : SessionPtr}
    {session : Session} (bounded : sm.Bounded)
    (done : sm.add options now p session = .ok after) : after.Bounded := by
  obtain ⟨raised, counted⟩ := add_sid done
  have sessions : after.sessions = (sm.inserted p session).sessions := by
    obtain ⟨_, -, ⟨-, rfl⟩ | ⟨-, timers, rfl⟩⟩ := touch_cases done <;> rfl
  intro sid live
  rw [get, sessions, ← get, inserted_get] at live
  by_cases known : sm.get sid = none
  · rw [known, Option.none_or] at live
    split_ifs at live with own
    · exact own ▸ counted
    · exact absurd rfl live
  · exact UInt64.le_trans (bounded sid known) raised

end SessionManager

namespace Replica

variable {options : Options}

/-- Every session has a record, and every record a session, the largest sid apart: a reload passes
that record by. -/
structure Recorded (r : Replica) : Prop where
  live : ∀ sid, r.records sid = none → r.owned sid = none
  dead : ∀ sid, sid ≠ Store.maxSid → r.owned sid = none → r.records sid = none

theorem Reloaded.recordedToo {before after : Replica} (reloaded : Reloaded before after) :
    after.Recorded where
  live := by
    intro sid gone
    rw [reloaded.dead sid]
    by_cases held : ∃ path, before.tree.Owns sid path
    · obtain ⟨path, owns⟩ := held
      by_cases lost : before.records sid = none ∨ sid = Store.maxSid
      · rw [reloaded.made sid path lost owns] at gone
        cases gone
      · obtain ⟨stored, notLast⟩ := not_or.mp lost
        rw [reloaded.recorded sid stored notLast] at gone
        exact absurd gone stored
    · have unowned := not_exists.mp held
      rw [reloaded.unowned sid unowned] at gone
      exact ⟨.inl gone, unowned⟩
  dead := by
    intro sid notLast dead
    obtain ⟨absent, unowned⟩ := (reloaded.dead sid).mp dead
    rw [reloaded.unowned sid unowned]
    exact absent.resolve_right notLast

theorem Recorded.apply {req : Request} {r next : Replica} (recorded : r.Recorded)
    (closed : r.tree.Closed options) (applied : r.apply options req = .ok next) :
    next.Recorded := by
  constructor
  · intro sid gone
    rcases apply_sessions closed applied sid with ⟨dead, -⟩ | ⟨-, stored⟩ | ⟨same, kept⟩
    · exact dead
    · exact absurd gone stored
    · rw [kept] at gone
      exact same.mpr (recorded.live sid gone)
  · intro sid notLast dead
    rcases apply_sessions closed applied sid with ⟨-, gone⟩ | ⟨live, -⟩ | ⟨same, kept⟩
    · exact gone
    · exact absurd dead live
    · rw [kept]
      exact recorded.dead sid notLast (same.mp dead)

end Replica

namespace Machine

variable {options : Options} {env : Env}

theorem addSession_bounded {now : Time} {p : SessionPtr} {session : Session} {m after : Machine}
    (bounded : m.sm.Bounded) (done : addSession options now p session m = .ok after) :
    after.sm.Bounded := by
  obtain ⟨sm, added, done⟩ := Runs.bind_ok.mp done
  cases done
  exact bounded.add added

theorem walkTreeFunc_bounded {call : (Str × Option Node) × Nat} {m after : Machine}
    (bounded : m.sm.Bounded) (done : walkTreeFunc options env call m = .ok after) :
    after.sm.Bounded := by
  unfold walkTreeFunc at done
  split at done
  · cases done
    exact bounded
  · split_ifs at done
    · obtain ⟨middle, ensured, done⟩ := Runs.bind_ok.mp done
      cases done
      have found : middle.sm.Bounded := by
        unfold ensureSession at ensured
        split at ensured
        · cases ensured
          exact bounded
        · exact addSession_bounded bounded ensured
      unfold bindNode
      split <;> exact found
    · cases done
      exact bounded

theorem onLoadSnapshot_bounded {m after : Machine} {index : Nat} (bounded : m.sm.Bounded)
    (done : onLoadSnapshot options env m = .ok (after, index)) : after.sm.Bounded := by
  obtain ⟨records, -, done⟩ := Runs.bind_ok.mp done
  obtain ⟨walked, first, done⟩ := Runs.bind_ok.mp done
  obtain ⟨bound, second, done⟩ := Runs.bind_ok.mp done
  obtain ⟨read, -, done⟩ := Runs.bind_ok.mp done
  cases done
  have middle : walked.sm.Bounded := Runs.run_invariant_always _ (fun m => m.sm.Bounded)
    (fun _ _ _ bounded done => addSession_bounded bounded done) m walked _ bounded first
  exact Runs.run_invariant_always _ (fun m => m.sm.Bounded)
    (fun _ _ _ bounded done => walkTreeFunc_bounded bounded done) walked after _ middle second

variable (options env) in
-- `onLoadSnapshot` as far as `WalkSessions`.
def loadSessions (m : Machine) : Except Fault Machine := do
  let records ← Store.walkSessions m.db
  Runs.run (walkSessionFunc options env) m records.zipIdx

variable (options env) in
/-- A new process gets the sessions of `m` from its database: `onLoadSnapshot` finds the session of
each ephemeral node among those of the records, and the next sid is above them all. -/
def Rebuilds (m : Machine) (replies : List (Event × Response)) : Prop :=
  ∃ walked loaded index,
    loadSessions options env (fresh m.db (env.clock 0) replies) = .ok walked ∧
    onLoadSnapshot options env (fresh m.db (env.clock 0) replies) = .ok (loaded, index) ∧
    (∀ path node, Store.treeOf m.db path = some node → node.ephemeral = true →
      walked.sm.get node.sid ≠ none) ∧
    (∀ sid, loaded.sm.get sid = none ↔ m.sm.get sid = none) ∧ loaded.sm.Bounded

variable (options) in
structure Persisted (m : Machine) : Prop where
  alive : ∀ key record, m.db[key]? = some (.session record) →
    key = Store.sessionKey record.sid ∧ m.sm.get record.sid ≠ none
  stored : ∀ sid, m.sm.get sid ≠ none →
    ∃ record, m.db[Store.sessionKey sid]? = some (.session record) ∧ record.sid = sid
  rebuilds : ∀ env replies, Rebuilds options env m replies

variable (env) in
theorem reload_spec {db : Persist} (loadable : Loadable options db)
    (replies : List (Event × Response)) :
    ∃ walked loaded index final,
      loadSessions options env (fresh db (env.clock 0) replies) = .ok walked ∧
      onLoadSnapshot options env (fresh db (env.clock 0) replies) = .ok (loaded, index) ∧
      (∀ sid, walked.sm.get sid = none ↔
        Store.recordsOf db sid = none ∨ sid = Store.maxSid) ∧
      (∀ sid, loaded.sm.get sid = none ↔ final.owned sid = none) ∧
      Replica.Reloaded (stored db) final ∧ loaded.sm.Bounded := by
  have represents := represents_fresh loadable (env.clock 0) replies
  obtain ⟨records, walked, middle, visited, first, holds, -, -, alive⟩ :=
    sessions_reloaded env represents fun _ => rfl
  obtain ⟨loaded, index, final, done, -, last, reloaded⟩ :=
    onLoadSnapshot_spec env _ _ represents fun _ => rfl
  refine ⟨walked, loaded, index, final, ?_, done, fun sid => ?_, last.get_none, reloaded,
    onLoadSnapshot_bounded (SessionManager.bounded_new _) done⟩
  · rw [loadSessions, visited]
    exact first
  · rw [holds.get_none, alive sid, stored]
    by_cases present : Store.recordsOf db sid = none <;> by_cases last : sid = Store.maxSid <;>
      simp [present, last]

theorem records_of_stored {db : Persist} (keyed : Store.Keyed db) {key : Str}
    {record : SessionRecord} (found : db[key]? = some (.session record)) :
    key = Store.sessionKey record.sid ∧ Store.recordsOf db record.sid = some record := by
  have other : ¬ Store.IsTreeKey key := fun ours => by
    obtain ⟨node, same⟩ := keyed.nodes key _ ours found
    cases same
  rcases keyed.others key _ other found with ⟨mine, same, rfl⟩ | ⟨_, same, -⟩
  · cases same
    exact ⟨rfl, by simp [Store.recordsOf, found, Value.toSession]⟩
  · cases same

end Machine

namespace Server

open Machine (Persisted Rebuilds)

variable {options : Options} {states : RaftStates}

theorem reachable_recorded {server : Server} (reachable : Reachable options states server) :
    ∃ r, Stands options server r ∧ r.Anchored ∧ r.Recorded := by
  refine reachable_replica (fun r => r.Anchored ∧ r.Recorded) ?_ ?_ reachable
  · intro before after reloaded
    exact ⟨reloaded.anchored, reloaded.recordedToo⟩
  · intro req r next coherent holds applied
    exact ⟨holds.1.apply coherent.closed applied, holds.2.apply coherent.closed applied⟩

theorem persisted_of_noLast {server : Server} {r : Replica} (stands : Stands options server r)
    (anchored : r.Anchored) (recorded : r.Recorded)
    (noLast : Store.recordsOf server.machine.db Store.maxSid = none) :
    Persisted options server.machine := by
  obtain ⟨_, represents⟩ := stands
  have loadable := loadable_of_represents represents
  have live_iff (sid : Sid) : server.machine.sm.get sid = none ↔
      Store.recordsOf server.machine.db sid = none := by
    rw [represents.get_none, represents.records]
    constructor
    · intro dead
      by_cases last : sid = Store.maxSid
      · rw [last, ← represents.records]
        exact noLast
      · exact recorded.dead sid last dead
    · exact recorded.live sid
  have owner (path : Str) (node : Node)
      (here : Store.treeOf server.machine.db path = some node) (kind : node.ephemeral = true) :
      Store.recordsOf server.machine.db node.sid ≠ none := by
    rw [represents.tree] at here
    obtain ⟨paths, live, -⟩ := anchored node.sid path ⟨node, here, kind, rfl⟩
    rw [ne_eq, ← live_iff, represents.get_none, live]
    nofun
  refine ⟨fun key record found => ?_, fun sid live => ?_, fun env replies => ?_⟩
  · obtain ⟨place, known⟩ := Machine.records_of_stored represents.keyed found
    rw [ne_eq, live_iff, known]
    exact ⟨place, nofun⟩
  · obtain ⟨record, known⟩ := Option.ne_none_iff_exists'.mp (mt (live_iff sid).mpr live)
    exact ⟨record, represents.keyed.record sid record known⟩
  · obtain ⟨walked, loaded, index, final, first, done, alive, same, reloaded, bounded⟩ :=
      Machine.reload_spec env loadable replies
    refine ⟨walked, loaded, index, first, done, fun path node here kind => ?_, fun sid => ?_,
      bounded⟩
    · have known := owner path node here kind
      rw [ne_eq, alive, not_or]
      refine ⟨known, fun last => ?_⟩
      rw [last] at known
      exact known noLast
    · rw [same sid, reloaded.dead sid, live_iff sid]
      constructor
      · rintro ⟨absent | rfl, -⟩
        · exact absent
        · exact noLast
      · intro absent
        refine ⟨.inl absent, fun path owns => ?_⟩
        obtain ⟨node, here, kind, rfl⟩ := owns
        exact owner path node here kind absent

theorem sessions_persisted_iff {server : Server} (reachable : Reachable options states server) :
    Persisted options server.machine ↔
      Store.recordsOf server.machine.db Store.maxSid = none := by
  obtain ⟨r, stands, anchored, recorded⟩ := reachable_recorded reachable
  refine ⟨fun persisted => ?_, persisted_of_noLast stands anchored recorded⟩
  obtain ⟨_, represents⟩ := stands
  by_contra present
  obtain ⟨record, known⟩ := Option.ne_none_iff_exists'.mp present
  obtain ⟨found, own⟩ := represents.keyed.record Store.maxSid record known
  have live := (persisted.alive _ record found).2
  rw [own] at live
  obtain ⟨walked, loaded, index, first, done, noDefault, same, -⟩ :=
    persisted.rebuilds (.still 0) []
  obtain ⟨walked', loaded', index', final, first', done', alive, same', reloaded, -⟩ :=
    Machine.reload_spec (.still 0) (loadable_of_represents represents) []
  cases first.symm.trans first'
  cases done.symm.trans done'
  -- Only an ephemeral node can have brought the session back, and then by a default session.
  have back : final.owned Store.maxSid ≠ none := by
    rw [ne_eq, ← same', same]
    exact live
  rw [ne_eq, reloaded.dead] at back
  obtain ⟨path, node, here, kind, sid⟩ : ∃ path, (Store.treeOf server.machine.db).Owns
      Store.maxSid path := by
    by_contra none
    exact back ⟨.inr rfl, not_exists.mp none⟩
  refine noDefault path node here kind ?_
  rw [alive, sid]
  exact .inr rfl

def lastLog : List Request := [Request.registering Store.maxSid 5000]

theorem sessions_persisted_iff_lock :
    ∃ server, Reachable Options.standard .sample server ∧
      Persisted Options.standard server.machine := by
  obtain ⟨server, reachable, noLast⟩ := exists_reachable Options.standard .sample (.still 0)
    (replay lockLog) (fun server => Store.recordsOf server.machine.db Store.maxSid = none)
    (by decide +kernel)
  exact ⟨server, reachable, (sessions_persisted_iff reachable).mpr noLast⟩

theorem sessions_not_persisted :
    ∃ server restarted, Reachable Options.standard .sample server ∧
      (server.machine.sm.get Store.maxSid).isSome = true ∧
      server.restart Options.standard (.still 0) = .ok restarted ∧
      (Store.recordsOf restarted.machine.db Store.maxSid).isSome = true ∧
      restarted.machine.sm.get Store.maxSid = none ∧
      ¬ Persisted Options.standard restarted.machine := by
  -- The restart loses a session that was live, and keeps its record.
  have found : Runs.passes (initial Options.standard (.still 0)) (fun first =>
      Runs.passes (Runs.run (act Options.standard .sample) first (replay lastLog)) fun server =>
        Runs.passes (server.restart Options.standard (.still 0)) fun restarted =>
          decide ((server.machine.sm.get Store.maxSid).isSome = true ∧
            (Store.recordsOf restarted.machine.db Store.maxSid).isSome = true ∧
            restarted.machine.sm.get Store.maxSid = none)) = true := by
    decide +kernel
  simp only [Runs.passes_iff, decide_eq_true_eq] at found
  obtain ⟨first, started, server, reached, restarted, restarts, live, recorded, lost⟩ := found
  have reachable : Reachable Options.standard .sample server :=
    ⟨.still 0, first, _, started, reached⟩
  refine ⟨server, restarted, reachable, live, restarts, recorded, lost, fun persisted => ?_⟩
  obtain ⟨r, _, represents⟩ := reachable_stands
    (reachable.act (show act _ _ (.restart (.still 0)) server = .ok restarted from restarts))
  obtain ⟨record, known⟩ := Option.isSome_iff_exists.mp recorded
  obtain ⟨stored, own⟩ := represents.keyed.record Store.maxSid record known
  have alive := (persisted.alive _ record stored).2
  rw [own] at alive
  exact alive lost

end Server

end Pyxis
