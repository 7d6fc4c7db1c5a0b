import Pyxis.Server.Pairing

set_option autoImplicit false

namespace Pyxis.Server

variable {options : Options} {states : RaftStates} {env : Env} {ready : Ready}
  {server after : Server}

theorem takes_some {taking : Taking} (taken : server.takes ready = some taking) :
    ready = .command ∧ server.inLoop = true ∧
      ∃ rest, server.cmdch = taking.entry :: rest ∧
        ((∃ entry, taking = .applied entry) ∨
          taking = .ended taking.entry ∧ server.state = .waiter ∧
            EndsWait server taking.entry) := by
  unfold takes at taken
  split at taken
  next _ _ _ _ entry rest inLoop state queue =>
    cases taken
    exact ⟨rfl, inLoop, rest, queue, .inl ⟨entry, rfl⟩⟩
  next _ _ _ _ entry rest inLoop state queue =>
    cases taken
    exact ⟨rfl, inLoop, rest, queue, .inl ⟨entry, rfl⟩⟩
  next _ _ _ _ entry rest inLoop state queue =>
    split_ifs at taken with ends
    · cases taken
      exact ⟨rfl, inLoop, rest, queue, .inr ⟨rfl, state, ends⟩⟩
    · cases taken
      exact ⟨rfl, inLoop, rest, queue, .inl ⟨entry, rfl⟩⟩
  · cases taken

theorem applies_none (ended : server.applies ready = none) (taking : Taking)
    (taken : server.takes ready = some taking) :
    taking = .ended taking.entry ∧ server.state = .waiter ∧ EndsWait server taking.entry := by
  obtain ⟨-, -, rest, -, ⟨entry, rfl⟩ | last⟩ := takes_some taken
  · rw [applies_takes, taken] at ended
    cases ended
  · exact last

theorem turn_takes (wf : server.machine.sm.WellFormed)
    (taken : server.turn options states env ready = .ok after) :
    after.raft.delivered = server.raft.delivered ∧
      (server.takes ready).toList.map Taking.entry ++ after.cmdch = server.cmdch := by
  have idle (noCommand : server.applies ready = none) (cmdch : after.cmdch = server.cmdch)
      (stays : server.state = .waiter → after.state ≠ .leader) :
      (server.takes ready).toList.map Taking.entry ++ after.cmdch = server.cmdch := by
    cases takes : server.takes ready with
    | none => exact cmdch
    | some taking =>
        -- The ping ends the wait, and the turn leaves it.
        obtain ⟨-, waits, ends⟩ := applies_none noCommand taking takes
        obtain ⟨rfl, inLoop, rest, queue, -⟩ := takes_some takes
        have leaves : server.turn options states env .command =
            .ok { server with cmdch := rest, state := .leader, inLoop := false } := by
          rw [turn, if_neg (by simp [inLoop]), waits]
          simp only [waitLoop, queue, if_pos (show _ ∧ _ from ends)]
        rw [leaves] at taken
        cases taken
        exact absurd rfl (stays waits)
  cases turn_cases wf taken with
  | advance pushes leads noCommand advances _ _ _ _ =>
      exact ⟨advances.delivered, idle noCommand advances.cmdch fun waits => by
        cases leads.symm.trans waits⟩
  | idle noCommand advances _ waits =>
      exact ⟨advances.delivered, idle noCommand advances.cmdch fun waiting => by
        simp [advances.state, waiting]⟩
  | await waits first =>
      have noCommand : server.applies ready = none := by simp [applies, first]
      exact ⟨by simp, idle noCommand (by simp) fun _ => by simp [waits]⟩
  | command entry rest applying queue waits applied =>
      obtain ⟨-, cmdch, raft⟩ := onCommand_frame applied
      refine ⟨by rw [raft], ?_⟩
      rw [applies_takes] at applying
      obtain ⟨taking, takes, -⟩ := Option.bind_eq_some_iff.mp applying
      obtain ⟨-, -, others, front, -⟩ := takes_some takes
      rw [takes, cmdch, queue]
      rw [queue] at front
      rw [(List.cons.inj front).1]
      rfl
  | lead entry rest noCommand chosen waits inLoop queue ends =>
      refine ⟨rfl, ?_⟩
      have takes : server.takes ready = some (.ended entry) := by
        simp [Server.takes, chosen, inLoop, waits, queue, ends]
      rw [takes, queue]
      rfl
  | change st rest inLoop noCommand queue fresh =>
      exact ⟨rfl, idle noCommand rfl fun _ => nextState_ne_leader server.state st⟩

theorem act_takes {action : Action} {next : Server} {r : Replica}
    (stands : Stands options server r) (running : action.isRestart = false)
    (taken : server.act options states action = .ok next) :
    ∃ newly, next.raft.delivered = server.raft.delivered ++ newly ∧
      (action.takes server).toList.map Taking.entry ++ next.cmdch = server.cmdch ++ newly := by
  cases action with
  | receive req | notify st | stop =>
      cases taken
      exact ⟨[], by simp [receive, notify, onState],
        by simp [Action.takes, receive, notify, onState]⟩
  | deliver =>
      cases taken
      unfold deliver
      cases queue : server.raft.pending with
      | nil => exact ⟨[], by simp, by simp [Action.takes]⟩
      | cons entry rest => exact ⟨[entry], rfl, rfl⟩
  | accept kept cmds =>
      cases taken
      unfold accept
      split_ifs
      · exact ⟨[], by simp, by simp [Action.takes]⟩
      · exact ⟨[], by simp, by simp [Action.takes]⟩
  | turn env ready =>
      obtain ⟨delivered, cmdch⟩ := turn_takes stands.wellFormed taken
      exact ⟨[], by simp [delivered], by simpa [Action.takes] using cmdch⟩
  | restart env => cases running

theorem run_takes {start : Server} {actions : List Action}
    (reachable : Reachable options states start) (empty : start.cmdch = [])
    (running : ∀ action ∈ actions, action.isRestart = false)
    (reached : Runs.run (act options states) start actions = .ok server) :
    server.raft.delivered = start.raft.delivered ++
      (takings options states start actions).map Taking.entry ++ server.cmdch := by
  have along := Runs.trail_invariant (act options states)
    (fun action server => (action.takes server).toList) (fun action _ => action.isRestart = false)
    (fun server given => Reachable options states server ∧
      server.raft.delivered = start.raft.delivered ++ given.map Taking.entry ++ server.cmdch)
    ?_ start server [] actions ⟨reachable, by simp [empty]⟩
    (Runs.meets_of_mem _ _ _ _ fun action member _ => running action member) reached
  · exact along.2
  · rintro action server next given ⟨reachable, same⟩ running taken
    obtain ⟨r, stands⟩ := reachable_stands reachable
    obtain ⟨newly, delivered, cmdch⟩ := act_takes stands running taken
    refine ⟨reachable.act taken, ?_⟩
    rw [delivered, same, List.map_append]
    simp only [List.append_assoc, cmdch]

theorem takes_of_leads {action : Action} {next : Server} {r : Replica}
    (stands : Stands options server r) (taken : server.act options states action = .ok next)
    (waits : server.state = .waiter) (leads : next.state = .leader) :
    ∃ ping rest, action.takes server = some (.ended ping) ∧ EndsWait server ping ∧
      server.cmdch = ping :: rest ∧
      next = { server with cmdch := rest, state := .leader, inLoop := false } := by
  have stuck (same : next.state = server.state) : False := by
    cases leads.symm.trans (same.trans waits)
  cases action with
  | receive req | notify st | stop =>
      cases taken
      exact (stuck rfl).elim
  | deliver =>
      cases taken
      refine (stuck ?_).elim
      unfold deliver
      split <;> rfl
  | accept kept cmds =>
      cases taken
      refine (stuck ?_).elim
      unfold accept
      split <;> rfl
  | turn env ready =>
      cases turn_cases stands.wellFormed taken with
      | advance _ leading _ _ _ _ _ _ => cases leading.symm.trans waits
      | idle _ advances _ _ => exact (stuck advances.state).elim
      | await _ _ => exact (stuck (by simp)).elim
      | command _ _ _ _ _ applied => exact (stuck (onCommand_frame applied).1).elim
      | lead ping rest _ chosen _ inLoop queue ends =>
          refine ⟨ping, rest, ?_, ends, queue, rfl⟩
          simp [Action.takes, Server.takes, chosen, inLoop, waits, queue, ends]
      | change st _ _ _ _ _ => exact absurd leads (nextState_ne_leader server.state st)
  | restart env =>
      obtain ⟨_, -, done⟩ := Runs.bind_ok.mp taken
      cases done
      cases leads

variable (options states) in
/-- How a process of the server begins, and what of the log raft does not deliver to it: nothing at
a first start, and later what the stored commit index covers. -/
inductive Begins : List Entry → Server → Prop
  | first {start : Server} {env : Env} (started : initial options env = .ok start) : Begins [] start
  | again {before start : Server} {env : Env} {index : Nat}
      (reachable : Reachable options states before)
      (stored : Store.getCommitIndex before.machine.db = .ok index)
      (restarted : before.restart options env = .ok start) :
      Begins ((before.raft.delivered ++ before.raft.pending).take index) start

theorem Begins.start {skipped : List Entry} {start : Server}
    (begins : Begins options states skipped start) :
    Reachable options states start ∧ start.cmdch = [] ∧ start.raft.delivered = skipped := by
  cases begins with
  | @first _ env started =>
      obtain ⟨_, _, begun, -, -, -, -, -, -, cmdch, -, raft⟩ := initial_ok options env
      cases begun.symm.trans started
      exact ⟨⟨env, start, [], started, rfl⟩, cmdch, by rw [raft]⟩
  | @again before _ env index reachable stored restarted =>
      obtain ⟨r, _, represents⟩ := reachable_stands reachable
      obtain ⟨_, other, _, done, read, -, -, reset⟩ := restart_ok env
        (loadable_of_represents represents)
      cases done.symm.trans restarted
      cases read.symm.trans stored
      have started : before.act options states (.restart env) = .ok start := restarted
      exact ⟨reachable.act started, by rw [reset], by rw [reset]⟩

theorem leader_barrier {skipped : List Entry} {start next : Server} {actions : List Action}
    {action : Action} (begins : Begins options states skipped start)
    (running : ∀ action ∈ actions, action.isRestart = false)
    (reached : Runs.run (act options states) start actions = .ok server)
    (taken : server.act options states action = .ok next)
    (waits : server.state = .waiter) (leads : next.state = .leader)
    (unique : (server.raft.delivered ++ server.raft.pending).countP
      (fun entry => EndsWait server entry) ≤ 1) :
    ∃ takings ping, takings = Server.takings options states start actions ∧
      action.takes server = some (.ended ping) ∧ EndsWait server ping ∧
      next.raft.delivered = skipped ++ takings.map Taking.entry ++ ping :: next.cmdch ∧
      (∀ entry ∈ skipped ++ takings.map Taking.entry ++ (next.cmdch ++ next.raft.pending),
        ¬ EndsWait server entry) ∧
      Runs.run (Replica.apply options) start.machine.view (takings.filterMap Taking.cmd?) =
        .ok next.machine.view := by
  obtain ⟨reachable, empty, delivered⟩ := begins.start
  obtain ⟨r, stands⟩ := reachable_stands (reachable.run reached)
  obtain ⟨ping, rest, last, ends, queue, rfl⟩ := takes_of_leads stands taken waits leads
  have log : server.raft.delivered =
      skipped ++ (takings options states start actions).map Taking.entry ++ ping :: rest := by
    rw [run_takes reachable empty running reached, queue, delivered]
  have applied := takings_run reachable running reached
  refine ⟨_, ping, rfl, last, ends, log, ?_, applied⟩
  rw [log, List.append_assoc, List.cons_append, List.countP_append,
    List.countP_cons_of_pos (by simpa using ends)] at unique
  have noOther : (skipped ++ (takings options states start actions).map Taking.entry ++
      (rest ++ server.raft.pending)).countP (fun entry => EndsWait server entry) = 0 := by
    rw [List.countP_append]
    omega
  intro entry member
  simpa using List.countP_eq_zero.mp noOther entry member

def ledTwice : List Action :=
  -- A server leads, loses its leadership, and waits to lead again.
  [.notify 1, .turn (.still 0) .timer, .turn (.still 0) .state, .turn (.still 7) .timer, .deliver,
    .turn (.still 0) .command, .turn (.still 0) .timer, .notify 0, .turn (.still 0) .state,
    .notify 1, .turn (.still 0) .timer, .turn (.still 0) .state, .turn (.still 9) .timer, .deliver]

theorem leader_barrier_twice :
    ∃ first server next, initial Options.standard (.still 0) = .ok first ∧
      Runs.run (act Options.standard .sample) first ledTwice = .ok server ∧
      server.act Options.standard .sample (.turn (.still 0) .command) = .ok next ∧
      next.state = .leader ∧
      ∃ takings ping, takings = Server.takings Options.standard .sample first ledTwice ∧
        next.raft.delivered = takings.map Taking.entry ++ ping :: next.cmdch ∧
        Runs.run (Replica.apply Options.standard) first.machine.view
          (takings.filterMap Taking.cmd?) = .ok next.machine.view := by
  have found : Runs.passes (initial Options.standard (.still 0)) (fun first =>
      Runs.passes (Runs.run (act Options.standard .sample) first ledTwice) fun server =>
        Runs.passes (server.act Options.standard .sample (.turn (.still 0) .command)) fun next =>
          decide (server.state = .waiter ∧ next.state = .leader ∧
            (server.raft.delivered ++ server.raft.pending).countP
              (fun entry => EndsWait server entry) ≤ 1)) = true := by
    decide +kernel
  simp only [Runs.passes_iff, decide_eq_true_eq] at found
  obtain ⟨first, started, server, reached, next, taken, waits, leads, unique⟩ := found
  obtain ⟨takings, ping, same, -, -, delivered, -, applied⟩ :=
    leader_barrier (.first started) (by decide) reached taken waits leads unique
  exact ⟨first, server, next, started, reached, taken, leads, takings, ping, same, delivered,
    applied⟩

theorem leader_barrier_unapplied :
    ∃ first server next, initial Options.standard (.still 0) = .ok first ∧
      Runs.run (act Options.standard .sample) first ledTwice = .ok server ∧
      server.state = .waiter ∧ server.tag = 9 ∧
      server.act Options.standard .sample (.turn (.still 0) .command) = .ok next ∧
      next.state = .leader ∧
      (server.raft.delivered ++ server.raft.pending).map Entry.cmd =
        [Request.tagged 7, Request.tagged 9] ∧
      commands Options.standard .sample first
        (ledTwice ++ [.turn (.still 0) .command]) = [] := by
  have found : Runs.passes (initial Options.standard (.still 0)) (fun first =>
      Runs.passes (Runs.run (act Options.standard .sample) first ledTwice) fun server =>
        Runs.passes (server.act Options.standard .sample (.turn (.still 0) .command)) fun next =>
          decide (server.state = .waiter ∧ server.tag = 9 ∧ next.state = .leader ∧
            (server.raft.delivered ++ server.raft.pending).map Entry.cmd =
              [Request.tagged 7, Request.tagged 9] ∧
            commands Options.standard .sample first
              (ledTwice ++ [.turn (.still 0) .command]) = [])) = true := by
    decide +kernel
  simp only [Runs.passes_iff, decide_eq_true_eq] at found
  obtain ⟨first, started, server, reached, next, taken, waits, tag, leads, log, nothing⟩ := found
  exact ⟨first, server, next, started, reached, waits, tag, taken, leads, log, nothing⟩

end Pyxis.Server
