import Pyxis.Server.Pings
import Pyxis.Replica.Replies

set_option autoImplicit false

open Std (ExtTreeMap ExtTreeSet)

namespace Pyxis

namespace SessionManager

variable {now : Time} {sm : SessionManager}

theorem mem_due {p : SessionPtr} (filed : sm.Filed p) (late : (sm.deref p).expire < now) :
    p ∈ sm.due now := by
  obtain ⟨set, bucket, member⟩ := (files_iff _ _ _).mp filed
  have below : (fun bucket : Time × SessionSet => decide (bucket.1 < now)) =
      fun bucket => (compare bucket.1 now).isLT := by
    funext bucket
    rw [Bool.eq_iff_iff, decide_eq_true_iff, Ordering.isLT_iff_eq_lt, Std.compare_eq_lt]
  refine List.mem_flatMap.mpr ⟨((sm.deref p).expire, set), ?_, ExtTreeSet.mem_toList.mpr member⟩
  rw [below, OrderedMap.mem_takeWhile_sorted now _ ExtTreeMap.ordered_keys_toList,
    ExtTreeMap.mem_toList_iff_getElem?_eq_some, Ordering.isLT_iff_eq_lt, Std.compare_eq_lt]
  exact ⟨bucket, late⟩

theorem resetWatchers_filed {p : SessionPtr} (filed : sm.Filed p) : sm.resetWatchers.Filed p := by
  unfold resetWatchers
  generalize sm.sessions.toList = entries
  induction entries generalizing sm with
  | nil => exact filed
  | cons entry rest ih => exact ih (modify_filed filed _ _ fun _ => rfl)

end SessionManager

namespace Server

variable {options : Options} {states : RaftStates} {env : Env} {server next : Server}

theorem step_closes (done : step options env server = .ok next) {p : SessionPtr}
    (due : p ∈ server.machine.sm.due (env.clock 0)) :
    (next.machine.sm.deref p).active = false := by
  unfold step at done
  generalize server.machine.sm.due (env.clock 0) = visited at done due
  obtain ⟨before, after, rfl⟩ := List.append_of_mem due
  obtain ⟨middle, -, done⟩ := (Runs.run_append_ok _ _ _ _ _).mp done
  obtain ⟨closed, shut, done⟩ := (Runs.run_cons_ok _ _ _ _ _).mp done
  exact Runs.run_invariant_always _ (fun other => (other.machine.sm.deref p).active = false)
    (fun _ _ _ inactive step => closeExpired_inactive step inactive) closed next after
    (closeExpired_sm shut).2 done

theorem tick_closes (leading : Leading server)
    (ticked : server.turn options states env .timer = .ok next) {p : SessionPtr}
    (due : p ∈ server.machine.sm.due (env.clock 0)) :
    (next.machine.sm.deref p).active = false := by
  simp only [turn, leading.1, leading.2, leaderLoop, Bool.true_eq_false, if_false] at ticked
  obtain ⟨stepped, done, ticked⟩ := Runs.bind_ok.mp ticked
  cases ticked
  have told := Machine.Told.foldl (fun m p => m.pingBack p) (fun m p => Machine.pingBack_told p m)
    (stepped.machine.sm.getSessions (nextCheck options env)) stepped.machine
  obtain ⟨-, -, -, active, -⟩ := Session.fields_of_core (told.deref p)
  exact active.trans (step_closes done due)

-- The readings of `ResetTimer` keep the buckets apart.
def Spread (action : Action) (server : Server) : Prop :=
  match action with
  | .turn env _ => server.state = .leader → server.inLoop = false →
      (server.machine.sm.resetDeadlines fun call => env.clock (call + 2)).Nodup
  | _ => True

instance (action : Action) (server : Server) : Decidable (Spread action server) :=
  match action with
  | .turn _ _ => inferInstanceAs (Decidable (_ → _ → _))
  | .receive _ | .notify _ | .stop | .deliver | .accept _ _ | .restart _ => .isTrue trivial

theorem queued_of_moves {state : State} {permits : Machine.Permits} {m after : Machine}
    (moves : Machine.Moves options state permits m after) (wf : m.sm.WellFormed)
    (queued : m.sm.Queued) : after.sm.Queued := by
  obtain ⟨wellFormed, filed⟩ := moves.invariant
    (fun other => ∀ sid p, other.sm.get sid = some p → other.sm.Filed p)
    (fun one two wf filed move sid p live => move.filed wf (filed sid p) live) wf
    ((SessionManager.queued_iff wf).mp queued)
  exact (SessionManager.queued_iff wellFormed).mpr filed

theorem restart_queued (done : server.restart options env = .ok next) :
    next.machine.sm.Queued := by
  obtain ⟨⟨m, index⟩, loaded, done⟩ := Runs.bind_ok.mp done
  cases done
  obtain ⟨ready, moves⟩ : ∃ ready, Machine.Moves options .follower .anything
      (Machine.fresh ready (env.clock 0) server.machine.replies) m := Machine.load_moves loaded
  exact queued_of_moves moves (SessionManager.wellFormed_new _)
    (by simp [Machine.fresh, SessionManager.Queued, SessionManager.new, SessionManager.get])

theorem act_queued {action : Action} (reachable : Reachable options states server)
    (queued : server.machine.sm.Queued) (spread : Spread action server)
    (taken : server.act options states action = .ok next) : next.machine.sm.Queued := by
  obtain ⟨r, stands⟩ := reachable_stands reachable
  cases restarts : action.isRestart with
  | true =>
      cases action with
      | restart env => exact restart_queued taken
      | _ => cases restarts
  | false =>
      cases act_works stands restarts taken with
      | moves moves => exact queued_of_moves moves stands.wellFormed queued
      | entered env ready sm is leads first reset moves =>
          subst is
          have keeps := SessionManager.resetTimer_keeps stands.wellFormed reset
          have spaced := (SessionManager.resetTimer_queued _ stands.wellFormed queued reset).mpr
            (spread leads first)
          have watched := SessionManager.resetWatchers_keeps sm keeps.wellFormed
          refine queued_of_moves moves (by exact watched.wellFormed)
            ((SessionManager.queued_iff (by exact watched.wellFormed)).mpr fun sid p live => ?_)
          refine SessionManager.resetWatchers_filed
            ((SessionManager.queued_iff keeps.wellFormed).mp spaced sid p ?_)
          rw [SessionManager.get, ← watched.sessions]
          exact live

def Silent (sid : Sid) (action : Action) (server : Server) : Prop :=
  Leading server ∧
    match action with
    | .turn _ ready =>
        (ready = .event → ∀ e ∈ server.eventch.head?, e.req.sid ≠ sid) ∧
          ∀ cmd ∈ server.applies ready, cmd.register.isSome = true → cmd.sid ≠ sid
    | .restart _ => False
    | _ => True

instance (sid : Sid) (action : Action) (server : Server) : Decidable (Silent sid action server) :=
  match action with
  | .turn _ _ => inferInstanceAs (Decidable (_ ∧ _ ∧ _))
  | .restart _ => .isFalse And.right
  | .receive _ | .notify _ | .stop | .deliver | .accept _ _ =>
      inferInstanceAs (Decidable (_ ∧ True))

theorem Silent.renews {sid : Sid} {action : Action} (silent : Silent sid action server)
    (now : Time) : ¬ (actionPermits options action server).renews sid now := by
  obtain ⟨env, ready, cmd, rfl, applying, same⟩ | ⟨env, e, rest, rfl, queue, same⟩ |
    ⟨env, -, same⟩ | same := actionPermits_cases options action server <;> rw [same]
  · rintro ⟨⟨timeout, body⟩, rfl, -⟩
    exact silent.2.2 cmd applying (by simp [body_register body]) rfl
  · rintro ⟨-, -, own, -⟩
    exact silent.2.1 rfl e (by rw [queue]; rfl) own.symm
  · exact id
  · exact id

theorem Silent.act {sid : Sid} {p : SessionPtr} {action : Action}
    (reachable : Reachable options states server) (silent : Silent sid action server)
    (taken : server.act options states action = .ok next)
    (held : ∀ q, server.machine.sm.get sid = some q → q = p) :
    ∀ q, next.machine.sm.get sid = some q → q = p ∧ server.machine.sm.get sid = some p ∧
      (next.machine.sm.deref p).expire = (server.machine.sm.deref p).expire := by
  intro q live
  have running : action.isRestart = false := by
    cases action with
    | restart env => exact silent.2.elim
    | _ => rfl
  obtain ⟨r, stands⟩ := reachable_stands reachable
  cases before : server.machine.sm.get sid with
  | none =>
      cases act_works stands running taken with
      | moves moves =>
          have gone := (moves.invariant (fun other => other.sm.get sid = none)
            (fun _ _ _ gone move => move.unregistered gone silent.renews) stands.wellFormed
            before).2
          rw [gone] at live
          cases live
      | entered env ready sm is leads first reset moves =>
          rw [silent.1.2] at first
          cases first
  | some old =>
      cases held old before
      have paced := act_paced reachable silent.1 running before taken (by simp [live])
      cases live.symm.trans paced.live
      refine ⟨rfl, rfl, paced.expire.resolve_right ?_⟩
      rintro ⟨now, -, renews, -⟩
      exact silent.renews now renews

theorem silent_sessions_close {boot : Env} {first middle : Server} {past actions : List Action}
    (started : initial options boot = .ok first)
    (spread : Runs.Meets (act options states) Spread first past)
    (reached : Runs.run (act options states) first past = .ok server)
    {sid : Sid} {p : SessionPtr} (live : server.machine.sm.get sid = some p)
    (silent : Runs.Meets (act options states) (Silent sid) server actions)
    (ran : Runs.run (act options states) server actions = .ok middle)
    (leading : Leading middle) (ticked : middle.turn options states env .timer = .ok next)
    (late : (server.machine.sm.deref p).expire < env.clock 0) :
    ∀ q, next.machine.sm.get sid = some q → (next.machine.sm.deref q).active = false := by
  have begun : Reachable options states server ∧ server.machine.sm.Queued :=
    Runs.run_invariant (act options states) Spread
      (fun other => Reachable options states other ∧ other.machine.sm.Queued)
      (fun action one two before spread taken =>
        ⟨before.1.act taken, act_queued before.1 before.2 spread taken⟩)
      first server past ⟨⟨boot, first, [], started, rfl⟩, restart_queued started⟩ spread reached
  let kept (other : Server) : Prop := ∀ q, other.machine.sm.get sid = some q → q = p ∧
    (other.machine.sm.deref p).expire = (server.machine.sm.deref p).expire
  obtain ⟨reachable, queued, still⟩ := Runs.run_invariant (act options states) (Silent sid)
    (fun other => Reachable options states other ∧ other.machine.sm.Queued ∧ kept other)
    (fun action one two before silent taken => by
      obtain ⟨reachable, queued, kept⟩ := before
      have spread : Spread action one := by
        cases action with
        | turn env ready => exact fun _ first => by cases silent.1.2.symm.trans first
        | _ => trivial
      refine ⟨reachable.act taken, act_queued reachable queued spread taken, fun q there => ?_⟩
      obtain ⟨same, there, expire⟩ :=
        silent.act reachable taken (fun q there => (kept q there).1) q there
      exact ⟨same, expire.trans (kept p there).2⟩)
    server middle actions ⟨begun.1, begun.2, fun q there =>
      ⟨Option.some.inj (there.symm.trans live), rfl⟩⟩ silent ran
  intro q there
  have unapplied : middle.applies .timer = none := by simp [applies]
  have tick : Silent sid (.turn env .timer) middle :=
    ⟨leading, by simp, by rw [unapplied]; simp⟩
  obtain ⟨rfl, before, -⟩ := tick.act reachable ticked (fun q there => (still q there).1) q there
  have overdue : (middle.machine.sm.deref q).expire < env.clock 0 := by
    rw [(still q before).2]
    exact late
  have due : q ∈ middle.machine.sm.due (env.clock 0) :=
    SessionManager.mem_due ((queued sid q before _).mpr rfl) overdue
  exact tick_closes leading ticked due

-- A request of a session that is not there.
def strange : List Action := [.receive (.tagged 7), .turn (.still 4000000) .event]

theorem silent_sessions_close_strange : ∃ middle next,
    Leading middle ∧ middle.turn Options.standard .sample (.still 6000000) .timer = .ok next ∧
    (middle.machine.sm.deref 1).active = true ∧ next.machine.sm.get 1 = some 1 ∧
    (next.machine.sm.deref 1).active = false := by
  have found : Runs.passes (initial Options.standard (.still 0)) (fun first =>
      decide (Runs.Meets (act Options.standard .sample) Spread first joined) &&
      Runs.passes (Runs.run (act Options.standard .sample) first joined) fun server =>
        decide (server.machine.sm.get 1 = some 1 ∧ (server.machine.sm.deref 1).expire < 6000000 ∧
          Runs.Meets (act Options.standard .sample) (Silent 1) server strange) &&
        Runs.passes (Runs.run (act Options.standard .sample) server strange) fun middle =>
          decide (Leading middle ∧ (middle.machine.sm.deref 1).active = true) &&
          Runs.passes (middle.turn Options.standard .sample (.still 6000000) .timer) fun next =>
            decide (next.machine.sm.get 1 = some 1)) = true := by
    decide +kernel
  simp only [Runs.passes_iff, Bool.and_eq_true, decide_eq_true_eq] at found
  obtain ⟨first, started, spread, server, reached, ⟨live, late, silent⟩, middle, ran,
    ⟨leading, active⟩, next, ticked, still⟩ := found
  exact ⟨middle, next, leading, ticked, active, still,
    silent_sessions_close started spread reached live silent ran leading ticked late 1 still⟩

end Server

end Pyxis
