import Pyxis.Replica.Poison
import Pyxis.Replica.Restart

set_option autoImplicit false

namespace Pyxis

-- What a server does that only follows: raft delivers, the main loop turns, and the process is
-- started again after a crash.
def Action.Follows : Action → Prop
  | .deliver | .turn _ _ | .restart _ => True
  | _ => False

instance (action : Action) : Decidable action.Follows :=
  match action with
  | .deliver | .turn _ _ | .restart _ => .isTrue trivial
  | .receive _ | .notify _ | .stop | .accept _ _ => .isFalse id

theorem Replica.Rebuilt.apply_exists {options : Options} {req : Request}
    {r restarted after : Replica}
    (rebuilt : r.Rebuilt restarted) (closed : r.tree.Closed options)
    (clean : req.body = .unregister → r.Clean req.sid)
    (applied : restarted.apply options req = .ok after) :
    ∃ next, r.apply options req = .ok next := by
  have closedToo : restarted.tree.Closed options := by
    rw [rebuilt.tree]
    exact closed
  have harmless := (Replica.apply_exists closedToo).mp ⟨after, applied⟩
  refine (Replica.apply_exists closed).mpr ⟨harmless.watched, ?_⟩
  intro body paths live path member node here same
  exact Tree.ephemeral_childless options r.tree closed path node here
    (clean body paths live path member node here same)

namespace Server

variable {options : Options} {states : RaftStates} {env : Env}

def commitAt : Nat → Option Value
  | 0 => none
  | index + 1 => some (.index (index + 1))

theorem getCommitIndex_commitAt {db : Persist} {delivered : Nat}
    (commit : Store.commitOf db = commitAt delivered) :
    Store.getCommitIndex db = .ok delivered := by
  rw [Store.commitOf] at commit
  rw [Store.getCommitIndex, commit]
  cases delivered <;> rfl

/-- A server that has crashed any number of times, beside a reference that has applied the same part
of the log and never crashed. -/
structure Recovers (options : Options) (start : Server) (entries past future : List (Env × Request))
    (reference server : Server) (r s : Replica) : Prop where
  whole : entries = past ++ future
  reached : Runs.run (onEntry options) start past = .ok reference
  clean : Runs.Meets (onEntry options) ClosesCleanly reference future
  tracks : Tracks options reference r
  stands : Stands options server s
  commit : Store.commitOf server.machine.db = commitAt server.raft.delivered.length
  rebuilt : r.Rebuilt s
  delivered : server.raft.delivered.map Entry.cmd = past.map Prod.snd ++ server.cmdch.map Entry.cmd
  ahead : future.map Prod.snd = server.cmdch.map Entry.cmd ++ server.raft.pending.map Entry.cmd
  follows : server.state = .follower
  calm : server.statech = []

def CrashesIdle (action : Action) (server : Server) : Prop :=
  -- A crash finds no delivered command waiting, and no session with the largest sid.
  action.isRestart = true → server.cmdch = [] ∧ server.machine.sm.get Store.maxSid = none

section

variable {start reference server next : Server} {entries past future : List (Env × Request)}
  {r s : Replica}

theorem Recovers.deliver
    (recovers : Recovers options start entries past future reference server r s) :
    Recovers options start entries past future reference server.deliver r s := by
  obtain ⟨_, represents⟩ := recovers.stands
  have stands : Stands options server.deliver s := ⟨_, represents_deliver represents⟩
  unfold Server.deliver at stands ⊢
  cases queue : server.raft.pending with
  | nil => exact recovers
  | cons entry rest =>
      rw [queue] at stands
      refine ⟨recovers.whole, recovers.reached, recovers.clean, recovers.tracks, stands, ?_,
        recovers.rebuilt, ?_, ?_, recovers.follows, recovers.calm⟩
      · simp [onSynced, commitAt, Store.commitOf_setCommitIndex]
      · simp [onSynced, recovers.delivered]
      · simp [onSynced, recovers.ahead, queue]

theorem Recovers.command {entry : Entry} {rest : List Entry}
    (recovers : Recovers options start entries past future reference server r s)
    (queue : server.cmdch = entry :: rest)
    (applied : onCommand options env entry.cmd { server with cmdch := rest } = .ok next) :
    ∃ past future reference r s,
      Recovers options start entries past future reference next r s := by
  obtain ⟨whole, reached, clean, tracks, ⟨frame, represents⟩, commit, rebuilt, delivered, ahead,
    follows, calm⟩ := recovers
  rw [queue] at delivered ahead
  cases future with
  | nil => cases ahead
  | cons here future =>
      obtain ⟨sameCmd, ahead⟩ := List.cons.inj ahead
      have representsToo : Machine.Represents options frame
          { server with cmdch := rest }.machine s :=
        represents
      obtain ⟨after, done, holds⟩ := represents_onCommand representsToo applied
      have committed : Store.commitOf next.machine.db = commitAt server.raft.delivered.length := by
        rw [holds.commit, ← represents.commit, commit]
      obtain ⟨_, standing⟩ := tracks.stands
      have cleanHere : entry.cmd.body = .unregister → r.Clean entry.cmd.sid := by
        have closes := clean.1
        rw [ClosesCleanly, standing.view, sameCmd] at closes
        exact closes
      obtain ⟨other, doneToo⟩ := rebuilt.apply_exists standing.coherent.closed cleanHere done
      obtain ⟨restored, same, rebuiltNext⟩ :=
        rebuilt.apply standing.coherent.closed cleanHere doneToo
      rw [done] at same
      cases same
      obtain ⟨referenceNext, taken, -⟩ := onCommand_exists here.1 standing (sameCmd ▸ doneToo)
        (by simp [tracks.follows])
      obtain ⟨otherToo, same, tracksNext⟩ := tracks.onEntry here taken
      rw [sameCmd, doneToo] at same
      cases same
      obtain ⟨rep, m, -, ⟨-, rfl⟩ | ⟨e, more, leads, -⟩⟩ := onCommand_ok applied
      · refine ⟨past ++ [here], future, referenceNext, other, after, by simpa using whole, ?_,
          clean.2 referenceNext taken, tracksNext, ⟨frame, holds⟩, committed, rebuiltNext,
          ?_, ahead, follows, calm⟩
        · exact (Runs.run_append_ok _ _ _ _ _).mpr ⟨reference, reached,
            (Runs.run_cons_ok _ _ _ _ _).mpr ⟨referenceNext, taken, rfl⟩⟩
        · simpa [onMachine, sameCmd] using delivered
      · cases follows.symm.trans leads

theorem Recovers.turn {ready : Ready}
    (recovers : Recovers options start entries past future reference server r s)
    (taken : server.turn options states env ready = .ok next) :
    ∃ past future reference r s,
      Recovers options start entries past future reference next r s := by
  have follows := recovers.follows
  obtain ⟨_, represents⟩ := recovers.stands
  cases turn_cases represents.sm taken with
  | advance pushes leads => cases follows.symm.trans leads
  | idle _ advances _ _ =>
      refine ⟨past, future, reference, r, s, recovers.whole, recovers.reached, recovers.clean,
        recovers.tracks, ⟨_, represents_advances advances represents⟩, ?_, recovers.rebuilt, ?_, ?_,
        advances.state.trans follows, advances.statech.trans recovers.calm⟩
      · rw [advances.db, advances.delivered, recovers.commit]
      · rw [advances.delivered, advances.cmdch, recovers.delivered]
      · rw [advances.cmdch, advances.pending, recovers.ahead]
        simp
  | await waits => cases follows.symm.trans waits
  | command entry rest _ queue _ applied => exact recovers.command queue applied
  | lead _ _ _ _ waits => cases follows.symm.trans waits
  | change st rest _ _ queue => cases recovers.calm.symm.trans queue

theorem Recovers.restart
    (recovers : Recovers options start entries past future reference server r s)
    (idle : server.cmdch = []) (noLast : server.machine.sm.get Store.maxSid = none)
    (taken : server.restart options env = .ok next) :
    ∃ s, Recovers options start entries past future reference next r s := by
  obtain ⟨whole, reached, clean, tracks, ⟨_, represents⟩, commit, rebuilt, delivered, ahead,
    follows, calm⟩ := recovers
  obtain ⟨after, index, restored, done, read, holds, reloaded, same⟩ := restart_ok env
    (loadable_of_represents represents)
  rw [done] at taken
  cases taken
  rw [getCommitIndex_commitAt commit] at read
  cases read
  rw [List.take_left, List.drop_left] at same
  rw [idle] at delivered ahead
  have rebuiltNext : r.Rebuilt restored := reloaded.rebuilt (represents.tree.trans rebuilt.tree)
    (represents.records.trans rebuilt.records) tracks.mirrored tracks.anchored
    ((rebuilt.live _).mp ((represents.get_none _).mp noLast))
  have committed := holds.commit.trans commit
  rw [same]
  exact ⟨restored, whole, reached, clean, tracks, ⟨_, holds⟩, committed, rebuiltNext, delivered,
    ahead, rfl, rfl⟩

theorem Recovers.act {action : Action}
    (recovers : Recovers options start entries past future reference server r s)
    (follows : action.Follows) (idle : CrashesIdle action server)
    (taken : server.act options states action = .ok next) :
    ∃ past future reference r s,
      Recovers options start entries past future reference next r s := by
  cases action with
  | deliver =>
      cases taken
      exact ⟨past, future, reference, r, s, recovers.deliver⟩
  | turn env ready => exact recovers.turn taken
  | restart env =>
      obtain ⟨empty, noLast⟩ := idle rfl
      obtain ⟨restored, holds⟩ := recovers.restart empty noLast taken
      exact ⟨past, future, reference, r, restored, holds⟩
  | receive req => cases follows
  | notify st => cases follows
  | stop => cases follows
  | accept kept cmds => cases follows

end

theorem crash_recovery {other : Env} {entries : List (Env × Request)} {actions : List Action}
    {first start last : Server} (started : initial options env = .ok first)
    (begun : initial options other = .ok start) (follows : ∀ action ∈ actions, action.Follows)
    (reached : Runs.run (act options states) (first.accept 0 (entries.map Prod.snd)) actions =
      .ok last)
    (drained : last.cmdch = [] ∧ last.raft.pending = [])
    (idle : Runs.Meets (act options states) CrashesIdle (first.accept 0 (entries.map Prod.snd))
      actions)
    (clean : Runs.Meets (onEntry options) ClosesCleanly start entries) :
    ∃ reference, Runs.run (onEntry options) start entries = .ok reference ∧
      Store.treeOf last.machine.db = Store.treeOf reference.machine.db ∧
      Store.recordsOf last.machine.db = Store.recordsOf reference.machine.db := by
  obtain ⟨origin, r, startedToo, stands, reloaded, commit, followsFirst, -, -, cmdch, statech,
    raft⟩ := initial_ok options env
  rw [startedToo] at started
  cases started
  obtain ⟨startToo, begunToo, tracks⟩ := initial_tracks options other
  rw [begunToo] at begun
  cases begun
  have fresh : Recovers options start entries [] entries start
      (first.accept 0 (entries.map Prod.snd)) (Machine.stored (Store.freshDb options)) r := by
    have same := reloaded_fresh reloaded
    subst same
    have given : first.accept 0 (entries.map Prod.snd) =
        { first with raft := ⟨false, [], (entries.map Prod.snd).map fun cmd => ⟨cmd, none⟩⟩ } := by
      simp [Server.accept, raft]
    rw [given]
    refine ⟨rfl, rfl, clean, tracks, stands, commit, .refl tracks.anchored, ?_, ?_, followsFirst,
      statech⟩
    · simp [cmdch]
    · simp [cmdch]
  have holds := Runs.run_invariant (act options states)
    (fun action server => action.Follows ∧ CrashesIdle action server)
    (fun server => ∃ past future reference r s,
      Recovers options start entries past future reference server r s)
    (fun action server next holds guard taken => by
      obtain ⟨past, future, reference, r, s, recovers⟩ := holds
      exact recovers.act guard.1 guard.2 taken)
    _ last actions ⟨_, _, _, _, _, fresh⟩
    (Runs.meets_and _ _ _ _ _ (Runs.meets_of_mem _ _ _ _ fun action member _ =>
      follows action member) idle) reached
  obtain ⟨past, future, reference, r, s, recovers⟩ := holds
  have done : future = [] := by
    have ahead := recovers.ahead
    rw [drained.1, drained.2] at ahead
    exact List.map_eq_nil_iff.mp ahead
  have whole := recovers.whole
  rw [done, List.append_nil] at whole
  obtain ⟨_, represents⟩ := recovers.stands
  obtain ⟨_, standing⟩ := recovers.tracks.stands
  refine ⟨reference, whole ▸ recovers.reached, ?_, ?_⟩
  · rw [represents.tree, standing.tree, recovers.rebuilt.tree]
  · rw [represents.records, standing.records, recovers.rebuilt.records]

instance (action : Action) (server : Server) : Decidable (CrashesIdle action server) :=
  inferInstanceAs (Decidable (_ → _))

def cautious (log : List (Env × Request)) : List Action :=
  log.flatMap fun _ =>
    [.deliver, .turn (.still 1) .timer, .turn (.still 2) .command, .restart (.still 3)]

def lockEntries : List (Env × Request) := (lockLog ++ [Request.closing 2]).map (.still 4, ·)

theorem crash_recovery_cautious :
    ∃ first last reference,
      initial Options.standard (.still 0) = .ok first ∧
      Runs.run (act Options.standard .sample) (first.accept 0 (lockEntries.map Prod.snd))
        (cautious lockEntries) = .ok last ∧
      Runs.run (onEntry Options.standard) first lockEntries = .ok reference ∧
      Store.treeOf last.machine.db = Store.treeOf reference.machine.db ∧
      Store.recordsOf last.machine.db = Store.recordsOf reference.machine.db := by
  have found : Runs.passes (initial Options.standard (.still 0)) (fun first =>
      Runs.passes (Runs.run (act Options.standard .sample)
        (first.accept 0 (lockEntries.map Prod.snd)) (cautious lockEntries)) fun last =>
      decide ((last.cmdch = [] ∧ last.raft.pending = []) ∧
        (∀ action ∈ cautious lockEntries, action.Follows) ∧
        Runs.Meets (act Options.standard .sample) CrashesIdle
          (first.accept 0 (lockEntries.map Prod.snd)) (cautious lockEntries) ∧
        Runs.Meets (onEntry Options.standard) ClosesCleanly first lockEntries)) = true := by
    decide +kernel
  simp only [Runs.passes_iff, decide_eq_true_eq] at found
  obtain ⟨first, started, last, reached, drained, follows, idle, clean⟩ := found
  obtain ⟨reference, finished, tree, records⟩ :=
    crash_recovery started started follows reached drained idle clean
  exact ⟨first, last, reference, started, reached, finished, tree, records⟩

def hasty : List Action :=
  -- Two commands are delivered, and the process is started again when it has applied the first.
  [.deliver, .deliver, .turn (.still 0) .timer, .turn (.still 0) .command, .restart (.still 0)]

theorem crash_loses_command :
    ∃ first last reference,
      initial Options.standard (.still 0) = .ok first ∧
      Runs.run (act Options.standard .sample)
        (first.accept 0 [.registering 1 5000, .creating 1 (text "/a") kPersist]) hasty = .ok last ∧
      (∀ action ∈ hasty, action.Follows) ∧ last.cmdch = [] ∧ last.raft.pending = [] ∧
      Runs.run (onEntry Options.standard) first [(.still 0, .registering 1 5000),
        (.still 0, .creating 1 (text "/a") kPersist)] = .ok reference ∧
      Store.treeOf last.machine.db (text "/a") = none ∧
      Store.treeOf reference.machine.db (text "/a") =
        some { newNode [] kPersist with sid := 1 } := by
  -- The commit index covers what was only queued: the create of "/a" is never applied.
  have found : Runs.passes (initial Options.standard (.still 0)) (fun first =>
      Runs.passes (Runs.run (act Options.standard .sample)
        (first.accept 0 [.registering 1 5000, .creating 1 (text "/a") kPersist]) hasty) fun last =>
      Runs.passes (Runs.run (onEntry Options.standard) first [(.still 0, .registering 1 5000),
        (.still 0, .creating 1 (text "/a") kPersist)]) fun reference =>
      decide ((∀ action ∈ hasty, action.Follows) ∧ last.cmdch = [] ∧ last.raft.pending = [] ∧
        Store.treeOf last.machine.db (text "/a") = none ∧
        Store.treeOf reference.machine.db (text "/a") =
          some { newNode [] kPersist with sid := 1 })) = true := by
    decide +kernel
  simp only [Runs.passes_iff, decide_eq_true_eq] at found
  obtain ⟨first, started, last, reached, reference, finished, follows, cmdch,
    pending, lost, kept⟩ := found
  exact ⟨first, last, reference, started, reached, follows, cmdch, pending, finished, lost, kept⟩

end Server

end Pyxis
