import Pyxis.Replica.Reload
import Pyxis.Server.Turn

set_option autoImplicit false

namespace Pyxis

def Action.applies (action : Action) (server : Server) : Option Request :=
  match action with
  | .turn _ ready => server.applies ready
  | _ => none

def Action.takes (action : Action) (server : Server) : Option Server.Taking :=
  match action with
  | .turn _ ready => server.takes ready
  | _ => none

def Action.isRestart : Action → Bool
  | .restart _ => true
  | _ => false

namespace Server

variable {options : Options} {states : RaftStates} {env : Env}

variable (options) in
def Stands (server : Server) (r : Replica) : Prop :=
  ∃ frame, Machine.Represents options frame server.machine r

theorem Stands.wellFormed {server : Server} {r : Replica} (stands : Stands options server r) :
    server.machine.sm.WellFormed := by
  obtain ⟨_, represents⟩ := stands
  exact represents.sm

def closes (frame : Machine.Frame) (pushes : List Push) : Machine.Frame where
  commit := frame.commit
  closing sid := frame.closing sid ∨ ∃ push ∈ pushes, push.2 = Request.closing sid

theorem represents_advances {before after : Server} {pushes : List Push} {r : Replica}
    {frame : Machine.Frame} (advances : Advances before after pushes)
    (represents : Machine.Represents options frame before.machine r) :
    Machine.Represents options (closes frame pushes) after.machine r := by
  have kept (sid : Sid) (p : SessionPtr) (live : before.machine.sm.get sid = some p) :
      ClosedBy pushes (before.machine.sm.deref p) (after.machine.sm.deref p) := by
    obtain ⟨session, stored, -⟩ := represents.sm.stored sid p live
    obtain ⟨other, present, closed⟩ := advances.objects p session stored
    simpa [SessionManager.deref, stored, present] using closed
  refine ⟨?_, advances.wellFormed, by rw [advances.db]; exact represents.keyed,
    by rw [advances.db]; exact represents.commit, fun sid p live awake => ?_, represents.coherent⟩
  · rw [← represents.view]
    refine Replica.ext (by simp only [Machine.view, advances.db])
      (by simp only [Machine.view, advances.db]) (funext fun sid => ?_)
    simp only [Machine.view, SessionManager.get, advances.sessions]
    cases live : before.machine.sm.sessions[sid]? with
    | none => rfl
    | some p => simp [(kept sid p live).2.1]
  · rw [SessionManager.get, advances.sessions] at live
    obtain ⟨-, same⟩ := SessionManager.get_deref _ represents.sm sid p live
    rcases (kept sid p live).2.2 with still | ⟨-, push, member, cmd⟩
    · rw [still]
      exact represents.active sid p live fun closing => awake (.inl closing)
    · exact absurd (.inr ⟨push, member, same ▸ cmd⟩) awake

theorem onCommand_ok {cmd : Request} {server after : Server}
    (applied : onCommand options env cmd server = .ok after) :
    ∃ rep m, server.machine.execute options env server.state cmd = .ok (rep, m) ∧
      ((server.state ≠ .leader ∧ after = server.onMachine m) ∨
        ∃ e rest, server.state = .leader ∧ server.requests = e :: rest ∧
          after = { server with requests := rest, machine := m.reply e rep }) := by
  unfold onCommand at applied
  cases done : server.machine.execute options env server.state cmd with
  | error fault =>
      rw [done] at applied
      split_ifs at applied
      · split at applied <;> cases applied
      · cases applied
  | ok result =>
      obtain ⟨rep, m⟩ := result
      rw [done] at applied
      refine ⟨rep, m, rfl, ?_⟩
      split_ifs at applied with leads
      · split at applied
        · cases applied
        next e rest queue =>
          cases applied
          exact .inr ⟨e, rest, leads, queue, rfl⟩
      · cases applied
        exact .inl ⟨leads, rfl⟩

theorem onCommand_frame {cmd : Request} {server after : Server}
    (applied : onCommand options env cmd server = .ok after) :
    after.state = server.state ∧ after.cmdch = server.cmdch ∧ after.raft = server.raft := by
  obtain ⟨rep, m, -, ⟨-, rfl⟩ | ⟨e, rest, -, -, rfl⟩⟩ := onCommand_ok applied <;>
    exact ⟨rfl, rfl, rfl⟩

theorem represents_onCommand {cmd : Request} {server after : Server} {r : Replica}
    {frame : Machine.Frame} (represents : Machine.Represents options frame server.machine r)
    (applied : onCommand options env cmd server = .ok after) :
    ∃ next, r.apply options cmd = .ok next ∧
      Machine.Represents options frame after.machine next := by
  obtain ⟨rep, m, executed, outcome⟩ := onCommand_ok applied
  have sim := Machine.execute_sim env server.state represents cmd
  rw [executed] at sim
  obtain ⟨next, done, holds⟩ := sim.of_ok
  refine ⟨next, done, ?_⟩
  rcases outcome with ⟨-, rfl⟩ | ⟨e, rest, -, -, rfl⟩
  · exact holds
  · exact holds.quiet ((Machine.reply_told e rep m).quiet holds.sm)

variable (env) in
theorem onCommand_exists {cmd : Request} {server : Server} {r next : Replica}
    {frame : Machine.Frame} (represents : Machine.Represents options frame server.machine r)
    (applied : r.apply options cmd = .ok next)
    (waiting : server.state = .leader → server.requests ≠ []) :
    ∃ after, onCommand options env cmd server = .ok after ∧
      Machine.Represents options frame after.machine next := by
  have sim := Machine.execute_sim env server.state represents cmd
  rw [applied] at sim
  obtain ⟨⟨rep, m⟩, executed, -⟩ := sim.exists_ok
  have passes : ∃ after, onCommand options env cmd server = .ok after := by
    unfold onCommand
    rw [executed]
    split_ifs with leads
    · cases queue : server.requests with
      | nil => exact absurd queue (waiting leads)
      | cons e rest => exact ⟨_, rfl⟩
    · exact ⟨_, rfl⟩
  obtain ⟨after, passed⟩ := passes
  obtain ⟨other, same, holds⟩ := represents_onCommand represents passed
  rw [applied] at same
  cases same
  exact ⟨after, passed, holds⟩

theorem represents_turn {ready : Ready} {server after : Server} {r : Replica}
    {frame : Machine.Frame} (represents : Machine.Represents options frame server.machine r)
    (taken : server.turn options states env ready = .ok after) :
    match server.applies ready with
    | none => Stands options after r
    | some cmd => ∃ next, r.apply options cmd = .ok next ∧ Stands options after next := by
  cases turn_cases represents.sm taken with
  | advance pushes leads noCommand advances _ _ _ _ =>
      rw [noCommand]
      exact ⟨_, represents_advances advances represents⟩
  | idle noCommand advances _ waits =>
      rw [noCommand]
      exact ⟨_, represents_advances advances represents⟩
  | await waits first =>
      have noCommand : server.applies ready = none := by simp [applies, first]
      rw [noCommand]
      exact ⟨frame, by simpa using represents⟩
  | command entry rest applying queue waits applied =>
      have holds : Machine.Represents options frame { server with cmdch := rest }.machine r :=
        represents
      rw [applying]
      obtain ⟨next, done, final⟩ := represents_onCommand holds applied
      exact ⟨next, done, frame, final⟩
  | lead entry rest noCommand waits inLoop queue ends =>
      rw [noCommand]
      exact ⟨frame, represents⟩
  | change st rest inLoop noCommand queue fresh =>
      rw [noCommand]
      exact ⟨frame, represents⟩

theorem represents_deliver {server : Server} {r : Replica} {frame : Machine.Frame}
    (represents : Machine.Represents options frame server.machine r) :
    Machine.Represents options { frame with commit := Store.commitOf server.deliver.machine.db }
      server.deliver.machine r := by
  unfold deliver
  cases queue : server.raft.pending with
  | nil =>
      exact ⟨represents.view, represents.sm, represents.keyed, rfl, represents.active,
        represents.coherent⟩
  | cons entry rest =>
      refine ⟨?_, represents.sm, represents.keyed.setCommitIndex _, rfl, represents.active,
        represents.coherent⟩
      rw [← represents.view]
      exact Replica.ext (Store.treeOf_setCommitIndex _ represents.keyed _)
        (Store.recordsOf_setCommitIndex _ _) rfl

theorem stands_act {action : Action} {server after : Server} {r : Replica}
    (stands : Stands options server r) (running : action.isRestart = false)
    (taken : server.act options states action = .ok after) :
    ∃ next, Runs.run (Replica.apply options) r (action.applies server).toList = .ok next ∧
      Stands options after next := by
  obtain ⟨frame, represents⟩ := stands
  have stutter (holds : Stands options after r)
      (none : action.applies server = none) :
      ∃ next, Runs.run (Replica.apply options) r (action.applies server).toList = .ok next ∧
        Stands options after next := ⟨r, by rw [none]; rfl, holds⟩
  cases action with
  | receive req =>
      cases taken
      exact stutter ⟨frame, represents⟩ rfl
  | notify st =>
      cases taken
      exact stutter ⟨frame, represents.quiet
        (onState_tends options server.state st _ represents.sm).quiet⟩ rfl
  | stop =>
      cases taken
      exact stutter ⟨frame, represents⟩ rfl
  | deliver =>
      cases taken
      exact stutter ⟨_, represents_deliver represents⟩ rfl
  | accept kept cmds =>
      cases taken
      refine stutter ⟨frame, ?_⟩ rfl
      unfold accept
      split <;> exact represents
  | turn env ready =>
      have outcome := represents_turn represents taken
      cases applied : server.applies ready with
      | none =>
          rw [applied] at outcome
          exact stutter outcome applied
      | some cmd =>
          rw [applied] at outcome
          obtain ⟨next, done, holds⟩ := outcome
          exact ⟨next, by simp [Action.applies, applied, Runs.run, done], holds⟩
  | restart env => cases running

theorem loadable_of_represents {m : Machine} {r : Replica} {frame : Machine.Frame}
    (represents : Machine.Represents options frame m r) : Machine.Loadable options m.db where
  keyed := represents.keyed
  closed := by rw [represents.tree]; exact represents.coherent.closed
  plain := by rw [represents.records]; exact represents.coherent.plain

variable (env) in
theorem restart_ok {server : Server} (loadable : Machine.Loadable options server.machine.db) :
    ∃ after index r, server.restart options env = .ok after ∧
      Store.getCommitIndex server.machine.db = .ok index ∧
      Machine.Represents options ⟨Store.commitOf server.machine.db, fun _ => False⟩
        after.machine r ∧
      Replica.Reloaded (Machine.stored server.machine.db) r ∧
      after = { state := .follower, inLoop := false, tag := 0, requests := [], eventch := []
                cmdch := [], statech := []
                raft := ⟨false, (server.raft.delivered ++ server.raft.pending).take index,
                  (server.raft.delivered ++ server.raft.pending).drop index⟩
                machine := after.machine, nextEvent := server.nextEvent } := by
  obtain ⟨m, index, r, loaded, read, represents, reloaded⟩ := Machine.load_spec env
    server.machine.db server.machine.db server.machine.replies
    (Machine.init_loadable env.proc _ loadable) loadable
  exact ⟨_, index, r, by rw [restart, loaded]; rfl, read, represents, reloaded, rfl⟩

theorem act_restart {server after : Server} {r : Replica} (stands : Stands options server r)
    (taken : server.act options states (.restart env) = .ok after) :
    ∃ next, Machine.Represents options ⟨Store.commitOf server.machine.db, fun _ => False⟩
        after.machine next ∧
      Replica.Reloaded (Machine.stored server.machine.db) next ∧ after.raft.leader = false := by
  obtain ⟨_, represents⟩ := stands
  obtain ⟨other, _, next, done, -, holds, reloaded, reset⟩ := restart_ok env
    (loadable_of_represents represents)
  have same : server.restart options env = .ok after := taken
  rw [done] at same
  cases same
  exact ⟨next, holds, reloaded, by rw [reset]⟩

theorem stands_restart {action : Action} {server after : Server} {r : Replica}
    (stands : Stands options server r) (restarts : action.isRestart = true)
    (taken : server.act options states action = .ok after) :
    ∃ next, Stands options after next ∧
      Replica.Reloaded (Machine.stored server.machine.db) next := by
  cases action with
  | restart env =>
      obtain ⟨next, holds, reloaded, -⟩ := act_restart stands taken
      exact ⟨next, ⟨_, holds⟩, reloaded⟩
  | _ => cases restarts

theorem initial_ok (options : Options) (env : Env) :
    ∃ first r, initial options env = .ok first ∧ Stands options first r ∧
      Replica.Reloaded (Machine.stored (Store.freshDb options)) r ∧
      Store.commitOf first.machine.db = none ∧ first.state = .follower ∧ first.inLoop = false ∧
      first.requests = [] ∧ first.cmdch = [] ∧ first.statech = [] ∧
      first.raft = ⟨false, [], []⟩ := by
  obtain ⟨m, index, r, loaded, -, represents, reloaded⟩ := Machine.load_spec env ∅ _ []
    (Store.init_empty options env.proc) (Machine.loadable_fresh options)
  refine ⟨_, r, by rw [initial, restart, loaded]; rfl, ⟨_, represents⟩, reloaded, ?_, rfl, rfl, rfl,
    rfl, rfl, by simp⟩
  rw [represents.commit, Store.commitOf, Store.freshDb, Std.ExtTreeMap.getElem?_insert]
  simp [rootPath, Store.commitKey]

theorem reloaded_fresh {r : Replica}
    (reloaded : Replica.Reloaded (Machine.stored (Store.freshDb options)) r) :
    r = Machine.stored (Store.freshDb options) := by
  refine Replica.ext reloaded.tree
    (funext fun sid => reloaded.unowned sid (Machine.owns_fresh sid)) (funext fun sid => ?_)
  have absent : (Machine.stored (Store.freshDb options)).records sid = none := by
    simp only [Machine.stored, Machine.recordsOf_fresh]
  exact (reloaded.dead sid).mpr ⟨.inl absent, Machine.owns_fresh sid⟩

variable (options states) in
/-- Reached from a first start by any actions, restarts included. -/
def Reachable (server : Server) : Prop :=
  ∃ env first actions, initial options env = .ok first ∧
    Runs.run (act options states) first actions = .ok server

theorem Reachable.act {action : Action} {server next : Server}
    (reachable : Reachable options states server)
    (taken : server.act options states action = .ok next) : Reachable options states next := by
  obtain ⟨env, first, actions, started, reached⟩ := reachable
  exact ⟨env, first, actions ++ [action], started, (Runs.run_append_ok _ _ _ _ _).mpr
    ⟨server, reached, (Runs.run_cons_ok _ _ _ _ _).mpr ⟨next, taken, rfl⟩⟩⟩

theorem Reachable.run {actions : List Action} {server after : Server}
    (reachable : Reachable options states server)
    (reached : Runs.run (Server.act options states) server actions = .ok after) :
    Reachable options states after := by
  obtain ⟨env, first, before, started, reaches⟩ := reachable
  exact ⟨env, first, before ++ actions, started,
    (Runs.run_append_ok _ _ _ _ _).mpr ⟨server, reaches, reached⟩⟩

-- What every reload establishes and every command keeps holds of every reachable server.
theorem reachable_replica (invariant : Replica → Prop)
    (reloaded : ∀ before after, Replica.Reloaded before after → invariant after)
    (applied : ∀ req r next, r.Coherent options → invariant r → r.apply options req = .ok next →
      invariant next) {server : Server} (reachable : Reachable options states server) :
    ∃ r, Stands options server r ∧ invariant r := by
  obtain ⟨env, first, actions, started, reached⟩ := reachable
  obtain ⟨other, r, begun, stands, loaded, -⟩ := initial_ok options env
  rw [begun] at started
  cases started
  refine Runs.run_invariant_always (act options states)
    (fun server => ∃ r, Stands options server r ∧ invariant r) ?_ _ server actions
    ⟨r, stands, reloaded _ r loaded⟩ reached
  rintro action server next ⟨r, stands, holds⟩ taken
  cases restarts : action.isRestart with
  | false =>
      obtain ⟨after, done, stands'⟩ := stands_act stands restarts taken
      obtain ⟨_, represents⟩ := stands
      refine ⟨after, stands', ?_⟩
      cases command : action.applies server with
      | none =>
          rw [command] at done
          cases done
          exact holds
      | some req =>
          rw [command] at done
          obtain ⟨_, executed, ended⟩ := (Runs.run_cons_ok _ _ _ _ _).mp done
          cases ended
          exact applied req r after represents.coherent holds executed
  | true =>
      obtain ⟨after, stands', loaded⟩ := stands_restart stands restarts taken
      exact ⟨after, stands', reloaded _ after loaded⟩

theorem reachable_stands {server : Server} (reachable : Reachable options states server) :
    ∃ r, Stands options server r := by
  obtain ⟨r, stands, -⟩ := reachable_replica (fun _ => True) (fun _ _ _ => trivial)
    (fun _ _ _ _ _ _ => trivial) reachable
  exact ⟨r, stands⟩

def onEntry (options : Options) (entry : Env × Request) (server : Server) : Except Fault Server :=
  onCommand options entry.1 entry.2 server

def replayed (options : Options) (env : Env) (log : List (Env × Request)) :
    Except Fault Server := do
  Runs.run (onEntry options) (← initial options env) log

theorem exists_reachable (options : Options) (states : RaftStates) (env : Env)
    (actions : List Action) (holds : Server → Prop) [DecidablePred holds]
    (found : Runs.passes (initial options env) (fun first =>
      Runs.passes (Runs.run (act options states) first actions) fun server =>
        decide (holds server)) = true) :
    ∃ server, Reachable options states server ∧ holds server := by
  simp only [Runs.passes_iff, decide_eq_true_eq] at found
  obtain ⟨first, started, server, reached, here⟩ := found
  exact ⟨server, ⟨env, first, actions, started, reached⟩, here⟩

def commands (options : Options) (states : RaftStates) : Server → List Action → List Request
  | _, [] => []
  | server, action :: rest =>
      (action.applies server).toList ++
        match server.act options states action with
        | .ok next => commands options states next rest
        | .error _ => []

theorem stands_run (actions : List Action) (server after : Server) (r : Replica)
    (stands : Stands options server r) (running : ∀ action ∈ actions, action.isRestart = false)
    (reached : Runs.run (act options states) server actions = .ok after) :
    ∃ next, Runs.run (Replica.apply options) r (commands options states server actions) = .ok next ∧
      Stands options after next := by
  induction actions generalizing server r with
  | nil =>
      cases reached
      exact ⟨r, rfl, stands⟩
  | cons action rest ih =>
      obtain ⟨middle, taken, later⟩ := (Runs.run_cons_ok _ _ _ _ _).mp reached
      obtain ⟨halfway, done, holds⟩ := stands_act stands (running action (by simp)) taken
      obtain ⟨next, finished, final⟩ := ih middle halfway holds
        (fun other member => running other (List.mem_cons_of_mem _ member)) later
      refine ⟨next, ?_, final⟩
      rw [commands, taken, Runs.run_append_ok]
      exact ⟨halfway, done, finished⟩

variable (options states) in
def takings (server : Server) (actions : List Action) : List Taking :=
  Runs.trail (act options states) (fun action server => (action.takes server).toList) server actions

theorem commands_takings (server : Server) (actions : List Action) :
    commands options states server actions =
      (takings options states server actions).filterMap Taking.cmd? := by
  rw [takings, Runs.trail_filterMap]
  induction actions generalizing server with
  | nil => rfl
  | cons action rest ih =>
      have here : (action.applies server).toList =
          (action.takes server).toList.filterMap Taking.cmd? := by
        cases action with
        | turn env ready =>
            simp only [Action.applies, Action.takes, applies_takes]
            cases server.takes ready with
            | none => rfl
            | some taking => cases taking <;> rfl
        | _ => rfl
      simp only [commands, Runs.trail, here]
      cases server.act options states action with
      | ok next => exact congrArg _ (ih next)
      | error fault => rfl

theorem run_changes (takings : List Taking) (r : Replica) :
    Runs.run (Replica.apply options) r (takings.filterMap Taking.change?) =
      Runs.run (Replica.apply options) r (takings.filterMap Taking.cmd?) := by
  induction takings generalizing r with
  | nil => rfl
  | cons taking rest ih =>
      cases taking with
      | ended entry => exact ih r
      | applied entry =>
          by_cases bare : entry.cmd.body = .none
          · have same : r.apply options entry.cmd = .ok r := by simp [Replica.apply, bare]
            simp [Taking.change?, Taking.cmd?, bare, Runs.run, same, ih]
          · have kept : Taking.change? (.applied entry) = some entry.cmd := by
              simp [Taking.change?, Taking.cmd?, bare]
            rw [List.filterMap_cons_some kept]
            simp only [Taking.cmd?, List.filterMap_cons, Runs.run, ih]

theorem takings_run {start after : Server} {actions : List Action}
    (reachable : Reachable options states start)
    (running : ∀ action ∈ actions, action.isRestart = false)
    (reached : Runs.run (act options states) start actions = .ok after) :
    Runs.run (Replica.apply options) start.machine.view
      ((takings options states start actions).filterMap Taking.cmd?) = .ok after.machine.view := by
  obtain ⟨r, stands⟩ := reachable_stands reachable
  obtain ⟨next, done, _, holds⟩ := stands_run actions start after r stands running reached
  obtain ⟨_, begins⟩ := stands
  rw [begins.view, holds.view, ← commands_takings, done]

-- The two servers take the same commands, but for those without a body, such as the pings that end
-- their waits. They may differ in all else: events, timers, elections, notifications, and readings
-- of clock, allocator and proc nodes.
theorem role_independence {start one two : Server} (first second : List Action)
    (reachable : Reachable options states start)
    (running : ∀ action ∈ first ++ second, action.isRestart = false)
    (reachedOne : Runs.run (act options states) start first = .ok one)
    (reachedTwo : Runs.run (act options states) start second = .ok two)
    (same : (takings options states start first).filterMap Taking.change? =
      (takings options states start second).filterMap Taking.change?) :
    one.machine.view = two.machine.view := by
  have left := takings_run reachable
    (fun action member => running action (List.mem_append_left _ member)) reachedOne
  have right := takings_run reachable
    (fun action member => running action (List.mem_append_right _ member)) reachedTwo
  rw [← run_changes, same, run_changes, right] at left
  exact (Except.ok.inj left).symm

def replay (log : List Request) : List Action :=
  .accept 0 log :: .turn (.still 0) .timer ::
    log.flatMap fun _ => [.deliver, .turn (.still 0) .command]

def admitting : List Action :=
  -- A server is elected, and takes a register from a client.
  [.notify 1, .turn (.still 0) .timer, .turn (.still 0) .state, .turn (.still 7) .timer, .deliver,
    .turn (.still 0) .command, .turn (.still 0) .timer,
    .receive { Request.empty with register := some 5000 }, .turn (.still 0) .event, .deliver]

def joined : List Action := admitting ++ [.turn (.still 0) .command]

-- One server leads and the other follows, and both take the log of the first.
theorem role_independence_leader :
    ∃ start one two : Server, Reachable Options.standard .sample start ∧
      Runs.run (act Options.standard .sample) start joined = .ok one ∧
      Runs.run (act Options.standard .sample) start
        (replay [Request.tagged 7, Request.registering 1 5000]) = .ok two ∧
      one.state = .leader ∧ two.state = .follower ∧
      (takings Options.standard .sample start joined).map (·.entry.cmd) =
        [Request.tagged 7, Request.registering 1 5000] ∧
      (takings Options.standard .sample start
        (replay [Request.tagged 7, Request.registering 1 5000])).map (·.entry.cmd) =
          [Request.tagged 7, Request.registering 1 5000] ∧
      one.machine.view = two.machine.view := by
  have reachable : Reachable Options.standard .sample _ := ⟨.still 0, _, [], rfl, rfl⟩
  exact ⟨_, _, _, reachable, rfl, rfl, rfl, rfl, by decide +kernel, by decide +kernel,
    role_independence joined (replay [Request.tagged 7, Request.registering 1 5000]) reachable
      (by decide) rfl rfl (by decide +kernel)⟩

end Server

end Pyxis
