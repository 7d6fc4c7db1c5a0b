import Pyxis.Replica.Steps
import Pyxis.Server.Execute

set_option autoImplicit false

namespace Pyxis

namespace Machine

variable {options : Options} {env : Env} {state : State} {m after : Machine}

theorem execute_plain {req : Request} {rep : Response}
    (done : execute options env state req m = .ok (rep, after)) : rep.watch = none := by
  have answered {α : Type} {call : Except Fault α} {f : α → Response × Machine}
      (plain : ∀ result, (f result).1.watch = none)
      (done : (do let result ← call; return f result) = .ok (rep, after)) : rep.watch = none := by
    obtain ⟨result, -, same⟩ := Runs.bind_ok.mp done
    exact congrArg (·.1.watch) (Except.ok.inj same) ▸ plain result
  unfold execute at done
  split at done
  case h_1 =>
    refine answered (fun result => ?_) done
    rw [Response.watch_withStatus]
    split_ifs <;> rfl
  case h_8 =>
    cases done
    exact Response.watch_withStatus _ _
  case h_9 =>
    cases done
    rfl
  all_goals exact answered (fun _ => Response.watch_withStatus _ _) done

theorem addSession_moves {now : Time} {p : SessionPtr} {sid : Sid} {timeout : Int}
    (free : m.sm.heap[p]? = none)
    (done : addSession options now p (Session.new sid timeout) m = .ok after) :
    Moves options state .anything m after := by
  obtain ⟨sm, added, done⟩ := Runs.bind_ok.mp done
  cases done
  exact .head (.add sid timeout now p sm trivial free added) (.single (.store _))

theorem walkTreeFunc_moves {call : (Str × Option Node) × Nat}
    (done : walkTreeFunc options env call m = .ok after) :
    Moves options state .anything m after := by
  unfold walkTreeFunc at done
  split at done
  · cases done
    exact .refl
  · split_ifs at done
    · obtain ⟨middle, ensured, done⟩ := Runs.bind_ok.mp done
      cases done
      have created : Moves options state .anything m middle := by
        unfold ensureSession at ensured
        split at ensured
        · cases ensured
          exact .refl
        · exact addSession_moves (env.alloc_fresh m.sm) ensured
      refine created.trans ?_
      unfold bindNode
      split
      · exact .refl
      next p live => exact .single (.nodes p (Session.bindNode call.1.1) fun _ => rfl)
    · cases done
      exact .refl

theorem run_moves {α : Type} (step : α → Machine → Except Fault Machine)
    (each : ∀ input m after, step input m = .ok after → Moves options state .anything m after)
    (inputs : List α) (m : Machine) (done : Runs.run step m inputs = .ok after) :
    Moves options state .anything m after := by
  induction inputs generalizing m with
  | nil =>
      cases done
      exact .refl
  | cons input rest ih =>
      obtain ⟨next, one, later⟩ := (Runs.run_cons_ok _ _ _ _ _).mp done
      exact (each input m next one).trans (ih next later)

theorem load_moves {db : Persist} {replies : List (Event × Response)} {index : Nat}
    (done : load options env db replies = .ok (after, index)) :
    ∃ ready, Moves options state .anything (fresh ready (env.clock 0) replies) after := by
  obtain ⟨ready, -, done⟩ := Runs.bind_ok.mp done
  obtain ⟨records, -, done⟩ := Runs.bind_ok.mp done
  obtain ⟨registered, added, done⟩ := Runs.bind_ok.mp done
  obtain ⟨bound, walked, done⟩ := Runs.bind_ok.mp done
  obtain ⟨read, -, done⟩ := Runs.bind_ok.mp done
  cases done
  have first : Moves options state .anything _ registered := run_moves _
    (fun _ m _ step => addSession_moves (env.alloc_fresh m.sm) step) _ _ added
  have second : Moves options state .anything registered after := run_moves _
    (fun _ _ _ step => walkTreeFunc_moves step) _ _ walked
  exact ⟨ready, first.trans second⟩

end Machine

namespace Server

open Machine (Moves Move Permits)

variable {options : Options} {states : RaftStates}

variable (options) in
def actionPermits (action : Action) (server : Server) : Permits :=
  match action with
  | .turn env ready =>
      match server.applies ready with
      | some cmd => Machine.commandPermits env cmd
      | none => permits options env ready server
  | _ => .nothing

variable (options) in
inductive Works (action : Action) (server after : Server) : Prop
  | moves (moves : Moves options server.state (actionPermits options action server) server.machine
      after.machine)
  | entered (env : Env) (ready : Ready) (sm : SessionManager) (is : action = .turn env ready)
      (leads : server.state = .leader) (first : server.inLoop = false)
      (reset : server.machine.sm.resetTimer (fun call => env.clock (call + 2)) = .ok sm)
      (moves : Moves options .leader (.closing (sm.resetWatchers.due (env.clock 0)))
        { server.machine with sm := sm.resetWatchers, wm := [] } after.machine)

theorem act_works {action : Action} {server after : Server} {r : Replica}
    (stands : Stands options server r) (running : action.isRestart = false)
    (taken : server.act options states action = .ok after) :
    Works options action server after := by
  have wf := stands.wellFormed
  cases action with
  | receive req =>
      cases taken
      exact .moves .refl
  | notify st =>
      cases taken
      exact .moves (onState_tends options server.state st _ wf).moves
  | stop =>
      cases taken
      exact .moves .refl
  | deliver =>
      cases taken
      refine .moves ?_
      unfold deliver
      split
      · exact .refl
      · exact .single (.store _)
  | accept kept cmds =>
      cases taken
      refine .moves ?_
      unfold accept
      split <;> exact .refl
  | turn env ready =>
      cases turn_cases wf taken with
      | advance pushes leads noCommand advances entered moves quiet still =>
          cases first : server.inLoop with
          | true =>
              refine .moves ?_
              simp only [actionPermits, noCommand, leads]
              exact moves first
          | false =>
              obtain ⟨sm, reset, later⟩ := entered first
              exact .entered env ready sm rfl leads first reset later
      | idle noCommand advances moves waits =>
          exact .moves (moves.within (Permits.nothing_within _))
      | await waits first =>
          refine .moves ?_
          simp only [replicate_machine]
          exact .refl
      | command entry rest applying queue waits applied =>
          obtain ⟨frame, represents⟩ := stands
          obtain ⟨rep, m, executed, outcome⟩ := onCommand_ok applied
          have moves := (Machine.execute_cases represents.sm represents.keyed executed).moves
          refine .moves ?_
          simp only [actionPermits, applying]
          rcases outcome with ⟨-, rfl⟩ | ⟨e, others, -, -, rfl⟩
          · exact moves
          · exact moves.tail (.reply e rep (Machine.execute_plain executed))
      | lead | change => exact .moves .refl
  | restart env => cases running

theorem reachable_machine (invariant : Machine → Prop)
    (fresh : ∀ db now replies, invariant (Machine.fresh db now replies))
    (kept : ∀ state m after, m.sm.WellFormed → invariant m → Move options state .anything m after →
      invariant after)
    (resets : ∀ m sm clock, m.sm.WellFormed → invariant m → m.sm.resetTimer clock = .ok sm →
      invariant { m with sm := sm.resetWatchers, wm := [] })
    {server : Server} (reachable : Reachable options states server) :
    ∃ r, Stands options server r ∧ invariant server.machine := by
  have moved {state : State} {permits : Permits} {m after : Machine} (wf : m.sm.WellFormed)
      (holds : invariant m) (moves : Moves options state permits m after) : invariant after :=
    ((moves.within permits.within_anything).invariant invariant (kept state) wf holds).2
  have restarted {env : Env} {server after : Server}
      (taken : server.restart options env = .ok after) : invariant after.machine := by
    obtain ⟨⟨m, index⟩, loaded, taken⟩ := Runs.bind_ok.mp taken
    cases taken
    obtain ⟨ready, moves⟩ : ∃ ready, Moves options .follower _ (Machine.fresh ready _ _) m :=
      Machine.load_moves loaded
    exact moved (SessionManager.wellFormed_new _) (fresh _ _ _) moves
  obtain ⟨env, first, actions, started, reached⟩ := reachable
  obtain ⟨other, r, begun, stands, -⟩ := initial_ok options env
  cases started.symm.trans begun
  refine Runs.run_invariant_always (act options states)
    (fun server => ∃ r, Stands options server r ∧ invariant server.machine) ?_ _ server actions
    ⟨r, stands, restarted started⟩ reached
  rintro action server next ⟨r, stands, holds⟩ taken
  have wf := stands.wellFormed
  cases restarts : action.isRestart with
  | true =>
      obtain ⟨after, stands', -⟩ := stands_restart stands restarts taken
      refine ⟨after, stands', ?_⟩
      cases action with
      | restart env => exact restarted taken
      | _ => cases restarts
  | false =>
      obtain ⟨after, -, stands'⟩ := stands_act stands restarts taken
      refine ⟨after, stands', ?_⟩
      cases act_works stands restarts taken with
      | moves moves => exact moved wf holds moves
      | entered env ready sm is leads first reset moves =>
          exact moved (m := { server.machine with sm := sm.resetWatchers, wm := [] })
            (SessionManager.reset_keeps wf reset).wellFormed (resets _ sm _ wf holds reset) moves

end Server

end Pyxis
