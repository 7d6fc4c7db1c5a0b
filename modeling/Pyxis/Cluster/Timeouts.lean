import Pyxis.Cluster.Sids
import Pyxis.Replica.Records
import Pyxis.Server.Expiry

set_option autoImplicit false

namespace Pyxis

namespace SessionManager

variable {options : Options} {now : Time} {sm after : SessionManager} {p : SessionPtr}
  {session : Session}

theorem add_timeout (wf : sm.WellFormed) (fresh : sm.heap[p]? = none)
    (done : sm.add options now p session = .ok after) {sid : Sid} {q : SessionPtr}
    (live : after.get sid = some q) :
    (sm.get sid = some q ∧ (after.deref q).timeout = (sm.deref q).timeout) ∨
      (sm.get sid = none ∧ sid = session.sid ∧ (after.deref q).timeout = session.timeout) := by
  have frame : after.sessions = (sm.inserted p session).sessions ∧
      (after.deref q).timeout = ((sm.inserted p session).deref q).timeout := by
    obtain ⟨_, -, ⟨-, rfl⟩ | ⟨-, timers, rfl⟩⟩ := touch_cases done
    · exact ⟨rfl, rfl⟩
    · exact ⟨rfl, modify_field Session.timeout (sm.inserted p session) _
        (Session.setExpireTime _) (fun _ => rfl) q⟩
  rw [get, frame.1, ← get, inserted_get] at live
  rw [frame.2]
  cases before : sm.get sid with
  | some other =>
      rw [before, Option.some_or] at live
      cases live
      exact .inl ⟨rfl, congrArg Session.timeout (inserted_deref sm wf p fresh session before)⟩
  | none =>
      rw [before, Option.none_or] at live
      split_ifs at live with own
      cases live
      exact .inr ⟨rfl, own, by simp [deref, inserted_heap]⟩

theorem resetWatchers_timeout (sm : SessionManager) (q : SessionPtr) :
    (sm.resetWatchers.deref q).timeout = (sm.deref q).timeout :=
  foldl_modify_field Session.timeout sm Prod.snd Session.resetWatch (fun _ => rfl) _ q

end SessionManager

namespace Replica

variable {options : Options} {req : Request} {r next : Replica}

theorem apply_records (closed : r.tree.Closed options) (applied : r.apply options req = .ok next)
    {sid : Sid} {record : SessionRecord} (found : next.records sid = some record) :
    r.records sid = some record ∨
      (req.body = .register record.timeout ∧ req.sid = sid) := by
  unfold Replica.apply at applied
  cases body : req.body with
  | register timeout =>
      rw [body] at applied
      cases applied
      by_cases own : sid = req.sid
      · subst own
        simp only [Replica.register, Function.update_self, Option.some.injEq] at found
        rw [← found]
        exact .inr ⟨rfl, rfl⟩
      · simp only [Replica.register, Function.update_of_ne own] at found
        exact .inl found
  | unregister =>
      rw [body] at applied
      cases live : r.owned req.sid with
      | none =>
          rw [Replica.close, live] at applied
          cases applied
          exact .inl found
      | some paths =>
          rw [(close_spec closed live applied).1] at found
          by_cases own : sid = req.sid
          · subst own
            simp [forget] at found
          · simp only [forget, Function.update_of_ne own] at found
            exact .inl found
  | create create =>
      rw [body] at applied
      cases applied
      rcases create_cases options req.sid create r
        with same | ⟨tree, -, ⟨-, -, bound⟩ | ⟨-, stored⟩⟩
      · rw [same] at found
        exact .inl found
      · rw [bound] at found
        exact .inl found
      · rw [stored] at found
        exact .inl found
  | delete path =>
      simp only [body, delete_eq] at applied
      cases deleted : r.tree.delete options path with
      | error fault =>
          rw [deleted] at applied
          cases applied
      | ok result =>
          rw [deleted] at applied
          cases applied
          cases result <;> exact .inl found
  | write write =>
      rw [body] at applied
      cases applied
      exact .inl found
  | read path | stat path =>
      simp only [body] at applied
      split_ifs at applied
      cases applied
      exact .inl found
  | watch | none =>
      rw [body] at applied
      cases applied
      exact .inl found

end Replica

namespace Machine

variable {options : Options} {env : Env} {state : State} {m after : Machine}

theorem Moves.unregistered {permits : Permits} {sid : Sid}
    (moves : Moves options state permits m after) (gone : m.sm.get sid = none)
    (new : ∀ now, ¬ permits.renews sid now) : after.sm.get sid = none := by
  induction moves with
  | refl => exact gone
  | tail _ move ih => exact move.unregistered ih new

theorem onRegister_timeout {req : Request} {timeout : Int} {status : Status} {sid : Sid}
    {p : SessionPtr} (wf : m.sm.WellFormed) (gone : m.sm.get req.sid = none)
    (done : onRegister options env state req timeout m = .ok (status, sid, after))
    (live : after.sm.get req.sid = some p) : (after.sm.deref p).timeout = timeout := by
  obtain ⟨added, registered, done⟩ := Runs.bind_ok.mp done
  obtain ⟨released, left, done⟩ := Runs.bind_ok.mp done
  cases done
  obtain ⟨sm, joined, registered⟩ := Runs.bind_ok.mp registered
  cases registered
  have fresh := env.alloc_fresh m.sm
  obtain ⟨_, same, added, sessions, -⟩ := SessionManager.add_spec options (env.clock 0) m.sm wf _
    fresh (Session.new req.sid timeout)
  cases joined.symm.trans same
  have entered : sm.get req.sid = some (env.alloc m.sm) := by
    rw [SessionManager.get, sessions]
    exact (SessionManager.inserted_get m.sm _ (Session.new req.sid timeout) req.sid).trans
      (by rw [gone]; exact if_pos rfl)
  -- The new session is in `sessions_`, so nothing is destroyed.
  rw [release, if_pos ((SessionManager.referenced_iff sm added _).mpr ⟨_, entered⟩)] at left
  cases left
  rcases SessionManager.add_timeout wf fresh joined live with ⟨there, -⟩ | ⟨-, -, timeout⟩
  · rw [gone] at there
    cases there
  · exact timeout

theorem execute_timeout {cmd : Request} {rep : Response} {sid : Sid} {p : SessionPtr}
    (wf : m.sm.WellFormed) (keyed : Store.Keyed m.db)
    (done : execute options env state cmd m = .ok (rep, after))
    (live : after.sm.get sid = some p) :
    (m.sm.get sid = some p ∧ (after.sm.deref p).timeout = (m.sm.deref p).timeout) ∨
      (cmd.register = some (after.sm.deref p).timeout ∧ cmd.sid = sid) := by
  have moves := (execute_cases wf keyed done).moves
  cases before : m.sm.get sid with
  | some q =>
      have once (removed : (commandPermits env cmd).removes sid) (now : Time) :
          ¬ (commandPermits env cmd).renews sid now := by
        intro renewed
        obtain ⟨⟨timeout, body⟩, -⟩ := renewed
        rw [removed.1] at body
        cases body
      rcases moves.paced wf before once with paced | ⟨gone, -⟩
      · cases live.symm.trans paced.live
        exact .inl ⟨rfl, paced.timeout.resolve_right id⟩
      · rw [gone] at live
        cases live
  | none =>
      by_cases renews : ∃ now, (commandPermits env cmd).renews sid now
      · obtain ⟨_, ⟨asked, body⟩, rfl, -⟩ := renews
        unfold execute at done
        simp only [body] at done
        obtain ⟨⟨status, sid, last⟩, registered, done⟩ := Runs.bind_ok.mp done
        cases done
        rw [onRegister_timeout wf before registered live]
        exact .inr ⟨Server.body_register body, rfl⟩
      · have dead := moves.unregistered before (not_exists.mp renews)
        rw [dead] at live
        cases live

theorem walkSessions_timeouts {records : List SessionRecord} {walked : Machine}
    (wf : m.sm.WellFormed) (empty : ∀ sid, m.sm.get sid = none)
    (done : Runs.run (walkSessionFunc options env) m records.zipIdx = .ok walked) {sid : Sid}
    {p : SessionPtr} (live : walked.sm.get sid = some p) :
    ∃ record ∈ records, record.sid = sid ∧ (walked.sm.deref p).timeout = record.timeout := by
  have along := Runs.run_invariant (walkSessionFunc options env) (fun call _ => call.1 ∈ records)
    (fun m => m.sm.WellFormed ∧ ∀ sid p, m.sm.get sid = some p →
      ∃ record ∈ records, record.sid = sid ∧ (m.sm.deref p).timeout = record.timeout)
    ?_ m walked records.zipIdx ⟨wf, fun sid p there => ?_⟩ ?_ done
  · exact along.2 sid p live
  · rintro call m next ⟨wf, known⟩ member taken
    obtain ⟨sm, added, taken⟩ := Runs.bind_ok.mp taken
    cases taken
    have fresh := env.alloc_fresh m.sm
    refine ⟨SessionManager.add_wellFormed wf fresh added, fun sid p live => ?_⟩
    rcases SessionManager.add_timeout wf fresh added live with ⟨there, kept⟩ | ⟨-, own, timeout⟩
    · obtain ⟨record, listed, mine, same⟩ := known sid p there
      exact ⟨record, listed, mine, kept.trans same⟩
    · exact ⟨call.1, member, own.symm, timeout⟩
  · rw [empty sid] at there
    cases there
  · refine Runs.meets_of_mem _ _ _ _ fun call listed _ => ?_
    have member := List.mem_map_of_mem (f := Prod.fst) listed
    rwa [List.zipIdx_map_fst] at member

theorem walkTree_timeouts {calls : List ((Str × Option Node) × Nat)}
    (owners : ∀ call ∈ calls, ∀ node, call.1.2 = some node → node.ephemeral = true →
      m.sm.get node.sid ≠ none)
    (done : Runs.run (walkTreeFunc options env) m calls = .ok after) :
    after.sm.sessions = m.sm.sessions ∧
      ∀ p, (after.sm.deref p).timeout = (m.sm.deref p).timeout := by
  refine Runs.run_invariant (walkTreeFunc options env)
    (fun call _ => ∀ node, call.1.2 = some node → node.ephemeral = true →
      m.sm.get node.sid ≠ none)
    (fun other => other.sm.sessions = m.sm.sessions ∧
      ∀ p, (other.sm.deref p).timeout = (m.sm.deref p).timeout)
    ?_ m after calls ⟨rfl, fun _ => rfl⟩
    (Runs.meets_of_mem _ _ _ _ fun call member _ => owners call member) done
  intro call other next kept owned taken
  unfold walkTreeFunc at taken
  split at taken
  · cases taken
    exact kept
  next node stored =>
    split_ifs at taken with kind
    · have there : other.sm.get node.sid ≠ none := by
        rw [SessionManager.get, kept.1]
        exact owned node stored kind
      obtain ⟨p, live⟩ := Option.ne_none_iff_exists'.mp there
      simp only [ensureSession, live, bind, Except.bind, pure, Except.pure, bindNode,
        Except.ok.injEq] at taken
      subst taken
      refine ⟨kept.1, fun q => ?_⟩
      rw [← kept.2 q]
      exact SessionManager.modify_field Session.timeout other.sm p (Session.bindNode call.1.1)
        (fun _ => rfl) q
    · cases taken
      exact kept

end Machine

/-- The timeout that the log gives a session. -/
def timeoutOf (log : List Request) (sid : Sid) : Option Int :=
  log.findSome? fun cmd => if cmd.sid = sid then cmd.register else none

theorem timeoutOf_append (log grown : List Request) (sid : Sid) :
    timeoutOf (log ++ grown) sid = (timeoutOf log sid).or (timeoutOf grown sid) :=
  List.findSome?_append

theorem timeoutOf_none {log : List Request} {sid : Sid} :
    timeoutOf log sid = none ↔ sid ∉ registers log := by
  rw [timeoutOf, List.findSome?_eq_none_iff, mem_registers]
  constructor
  · rintro none ⟨cmd, member, register, rfl⟩
    have absent := none cmd member
    rw [if_pos rfl] at absent
    simp [absent] at register
  · intro absent cmd member
    split_ifs with own
    · by_contra register
      exact absent ⟨cmd, member, Option.isSome_iff_ne_none.mpr register, own⟩
    · rfl

theorem timeoutOf_mono {log : List Request} (grown : List Request) {sid : Sid} {timeout : Int}
    (known : timeoutOf log sid = some timeout) :
    timeoutOf (log ++ grown) sid = some timeout := by
  rw [timeoutOf_append, known, Option.some_or]

theorem timeoutOf_silent (log : List Request) {grown : List Request}
    (silent : registers grown = []) (sid : Sid) :
    timeoutOf (log ++ grown) sid = timeoutOf log sid := by
  have absent : timeoutOf grown sid = none := timeoutOf_none.mpr (by rw [silent]; nofun)
  rw [timeoutOf_append, absent, Option.or_none]

theorem timeoutOf_fresh {log : List Request} {sid : Sid} (timeout : Int)
    (new : sid ∉ registers log) (other : Sid) :
    timeoutOf (log ++ [Request.registering sid timeout]) other =
      if other = sid then some timeout else timeoutOf log other := by
  have single : timeoutOf [Request.registering sid timeout] other =
      if sid = other then some timeout else none := by
    by_cases own : sid = other <;> simp [timeoutOf, Request.registering, Request.sid, own]
  rw [timeoutOf_append, single]
  by_cases own : other = sid
  · rw [own, timeoutOf_none.mpr new]
    simp
  · rw [if_neg (Ne.symm own), if_neg own, Option.or_none]

def Consistent (log : List Request) : Prop :=
  ∀ cmd ∈ log, ∀ timeout, cmd.register = some timeout → timeoutOf log cmd.sid = some timeout

namespace Server

variable {options : Options} {states : RaftStates} {env : Env} {ready : Ready}
  {server after : Server}

/-- The register that a turn of a leader lets through: one of a live session is answered at once,
one of a new session goes into the log. -/
def acknowledges (options : Options) (action : Action) (server : Server) : Option (Sid × Int) :=
  match action with
  | .turn _ .event =>
      if Leading server then do
        let e ← server.eventch.head?
        let asked ← e.req.register
        match e.req.sid? with
        | some sid =>
            if (server.machine.sm.get sid).isSome then some (sid, clampTimeout options asked)
            else none
        | none =>
            if server.raft.leader then
              some (server.machine.sm.sid + 1, clampTimeout options asked)
            else none
      else none
  | _ => none

-- A register of a live session asks for the timeout that the session has, a new session gets a
-- sid that the log has not registered, and a restart finds no record of the largest sid.
def Steady (options : Options) (log : List Request) (action : Action) (server : Server) : Prop :=
  match action with
  | .turn _ .event => Leading server → ∀ e ∈ server.eventch.head?, ∀ asked ∈ e.req.register,
      (∀ sid ∈ e.req.sid?, ∀ p ∈ server.machine.sm.get sid,
        (server.machine.sm.deref p).timeout = clampTimeout options asked) ∧
      (e.req.sid? = none → server.raft.leader = true →
        server.machine.sm.sid + 1 ∉ registers log)
  | .restart _ => Store.recordsOf server.machine.db Store.maxSid = none
  | _ => True

inductive Grows (options : Options) (log : List Request) (action : Action) (server : Server) :
    List Request → Prop
  | silent (grown : List Request) (none : registers grown = [])
      (again : ∀ sid timeout, acknowledges options action server = some (sid, timeout) →
        ∃ p, server.machine.sm.get sid = some p ∧
          (server.machine.sm.deref p).timeout = timeout) : Grows options log action server grown
  | fresh (sid : Sid) (timeout : Int) (new : sid ∉ registers log)
      (given : acknowledges options action server = some (sid, timeout)) :
      Grows options log action server [Request.registering sid timeout]

theorem acknowledges_cases {action : Action} {sid : Sid} {timeout : Int}
    (given : acknowledges options action server = some (sid, timeout)) :
    ∃ env e rest asked, action = .turn env .event ∧ Leading server ∧
      server.eventch = e :: rest ∧ e.req.register = some asked ∧
      timeout = clampTimeout options asked ∧
      ((e.req.sid? = some sid ∧ ∃ p, server.machine.sm.get sid = some p) ∨
        (e.req.sid? = none ∧ server.raft.leader = true ∧ sid = server.machine.sm.sid + 1)) := by
  unfold acknowledges at given
  split at given
  next env =>
    by_cases leading : Leading server
    case neg =>
      rw [if_neg leading] at given
      cases given
    rw [if_pos leading] at given
    obtain ⟨e, first, given⟩ := Option.bind_eq_some_iff.mp given
    obtain ⟨asked, register, given⟩ := Option.bind_eq_some_iff.mp given
    obtain ⟨rest, queue⟩ := List.head?_eq_some_iff.mp first
    refine ⟨env, e, rest, asked, rfl, leading, queue, register, ?_⟩
    split at given
    next other named =>
      split_ifs at given with live
      cases given
      exact ⟨rfl, .inl ⟨named, Option.isSome_iff_exists.mp live⟩⟩
    next unnamed =>
      split_ifs at given with leads
      cases given
      exact ⟨rfl, .inr ⟨unnamed, leads, rfl⟩⟩
  · cases given

theorem Steady.renewed {log : List Request} {action : Action}
    (steady : Steady options log action server)
    (silent : ∀ env ready, action = .turn env ready → server.raft.leader = true →
      ¬ Issues ready server)
    (sid : Sid) (timeout : Int) (given : acknowledges options action server = some (sid, timeout)) :
    ∃ p, server.machine.sm.get sid = some p ∧ (server.machine.sm.deref p).timeout = timeout := by
  obtain ⟨env, e, rest, asked, rfl, leading, queue, register, rfl,
    ⟨named, p, live⟩ | ⟨unnamed, leads, -⟩⟩ := acknowledges_cases given
  · exact ⟨p, live, (steady leading e (by simp [queue]) asked register).1 sid named p live⟩
  · exact absurd ⟨leading.1, leading.2, rfl, e, by simp [queue], by simp [register], unnamed⟩
      (silent env .event rfl leads)

-- The step leaves the log as it was, but for what it grows by.
def Extends (server after : Server) (grown : List Request) : Prop :=
  after.log = server.log ++ grown ∧ ∀ cmd ∈ after.toApply, cmd ∈ server.toApply ∨ cmd ∈ grown

theorem extends_of_pending {grown : List Request} (cmdch : after.cmdch = server.cmdch)
    (delivered : after.raft.delivered = server.raft.delivered)
    (pending : after.raft.pending.map Entry.cmd = server.raft.pending.map Entry.cmd ++ grown) :
    Extends server after grown := by
  obtain ⟨log, toApply⟩ := log_of_pending cmdch delivered pending
  refine ⟨log, fun cmd member => ?_⟩
  rw [toApply] at member
  exact List.mem_append.mp member

theorem extends_taken {entry : Entry} {rest : List Entry} (queue : server.cmdch = entry :: rest)
    (cmdch : after.cmdch = rest) (raft : after.raft = server.raft) : Extends server after [] := by
  refine ⟨by simp [Server.log, raft], fun cmd member => .inl ?_⟩
  have before : server.toApply = entry.cmd :: after.toApply := by
    simp [Server.toApply, queue, cmdch, raft]
  rw [before]
  exact List.mem_cons_of_mem _ member

theorem issue_grows {log : List Request} (issues : Issues ready server)
    (steady : Steady options log (.turn env ready) server)
    (taken : server.turn options states env ready = .ok after) :
    ∃ grown, Extends server after grown ∧ Grows options log (.turn env ready) server grown := by
  obtain ⟨e, rest, asked, queue, register, unnamed, reached⟩ := turn_issues issues taken
  obtain ⟨leads, inLoop, rfl, -⟩ := issues
  have cmdch : after.cmdch = server.cmdch := by rw [reached, replicate_cmdch]
  have delivered : after.raft.delivered = server.raft.delivered := by
    rw [reached, replicate_delivered]
  cases led : server.raft.leader with
  | false =>
      refine ⟨[], extends_of_pending cmdch delivered ?_, .silent [] rfl (steady.renewed ?_)⟩
      · rw [reached, replicate_pending]
        simp [led]
      · intro _ _ _ leader
        rw [led] at leader
        cases leader
  | true =>
      refine ⟨[Request.registering (server.machine.sm.sid + 1) (clampTimeout options asked)],
        extends_of_pending cmdch delivered ?_, .fresh _ _ ?_ ?_⟩
      · rw [reached, replicate_pending]
        simp [led]
      · exact (steady ⟨leads, inLoop⟩ e (by simp [queue]) asked register).2 unnamed led
      · simp [acknowledges, Leading, leads, inLoop, queue, register, unnamed, led]

theorem turn_grows {log : List Request} (wf : server.machine.sm.WellFormed)
    (steady : Steady options log (.turn env ready) server)
    (taken : server.turn options states env ready = .ok after) :
    ∃ grown, Extends server after grown ∧ Grows options log (.turn env ready) server grown := by
  by_cases issues : Issues ready server
  · exact issue_grows issues steady taken
  have silent (grown : List Request) (none : registers grown = []) :
      Grows options log (.turn env ready) server grown :=
    .silent grown none (steady.renewed fun _ _ same _ => by cases same; exact issues)
  cases turn_cases wf taken with
  | advance pushes leads _ advances _ _ _ _ =>
      have pending : after.raft.pending.map Entry.cmd = server.raft.pending.map Entry.cmd ++
          (if server.raft.leader then pushes.map Push.entry else []).map Entry.cmd := by
        rw [advances.pending, List.map_append]
      have same := turn_sids wf leads issues taken
      rw [pendingSids, pendingSids, pending, registers_append] at same
      exact ⟨_, extends_of_pending advances.cmdch advances.delivered pending,
        silent _ (List.append_right_eq_self.mp same)⟩
  | idle _ advances _ _ =>
      refine ⟨[], extends_of_pending advances.cmdch advances.delivered ?_, silent [] rfl⟩
      rw [advances.pending]
      simp
  | await waits first =>
      refine ⟨if server.raft.leader then [Request.tagged (UInt64.ofInt (env.clock 0))] else [],
        extends_of_pending (by simp) (by simp) ?_, silent _ ?_⟩
      · rw [replicate_pending]
        split_ifs <;> simp
      · split_ifs <;> rfl
  | command entry rest _ queue _ applied =>
      obtain ⟨-, cmdch, raft⟩ := onCommand_frame applied
      exact ⟨[], extends_taken queue cmdch raft, silent [] rfl⟩
  | lead entry rest _ _ _ _ queue _ => exact ⟨[], extends_taken queue rfl rfl, silent [] rfl⟩
  | change st rest inLoop _ queue _ =>
      exact ⟨[], extends_of_pending rfl rfl (by simp), silent [] rfl⟩

theorem act_grows {log : List Request} {action : Action} (wf : server.machine.sm.WellFormed)
    (runs : action.isLocal = true) (steady : Steady options log action server)
    (taken : server.act options states action = .ok after) :
    ∃ grown, Extends server after grown ∧ Grows options log action server grown := by
  cases action with
  | receive req | notify st | stop =>
      cases taken
      exact ⟨[], extends_of_pending rfl rfl (by simp [receive, notify, onState]),
        .silent [] rfl (by simp [acknowledges])⟩
  | deliver =>
      cases taken
      refine ⟨[], ?_, .silent [] rfl (by simp [acknowledges])⟩
      unfold deliver
      cases queue : server.raft.pending with
      | nil => exact extends_of_pending rfl rfl (by simp)
      | cons entry rest =>
          refine ⟨by simp [Server.log, onSynced, queue], fun cmd member => .inl ?_⟩
          simpa [Server.toApply, onSynced, queue] using member
  | turn env ready => exact turn_grows wf steady taken
  | accept | restart => cases runs

theorem permits_once (sid : Sid) (removed : (permits options env ready server).removes sid)
    (now : Time) : ¬ (permits options env ready server).renews sid now := by
  unfold permits at removed
  split at removed <;> exact removed.elim

theorem advance_timeout {log : List Request} {sid : Sid} {p : SessionPtr}
    (wf : server.machine.sm.WellFormed) (leads : server.state = .leader)
    (steady : Steady options log (.turn env ready) server)
    (entered : server.inLoop = false →
      ∃ sm, server.machine.sm.resetTimer (fun call => env.clock (call + 2)) = .ok sm ∧
        Machine.Moves options .leader (.closing (sm.resetWatchers.due (env.clock 0)))
          { server.machine with sm := sm.resetWatchers, wm := [] } after.machine)
    (moves : server.inLoop = true → Machine.Moves options .leader
      (permits options env ready server) server.machine after.machine)
    (before : server.machine.sm.get sid = some p) (live : after.machine.sm.get sid = some p) :
    (after.machine.sm.deref p).timeout = (server.machine.sm.deref p).timeout := by
  cases inLoop : server.inLoop with
  | false =>
      obtain ⟨sm, reset, moves⟩ := entered inLoop
      have keeps := SessionManager.reset_keeps wf reset
      have there : sm.resetWatchers.get sid = some p := by
        rw [SessionManager.get, keeps.sessions]
        exact before
      rcases moves.paced keeps.wellFormed there False.elim with paced | ⟨-, impossible⟩
      · rw [paced.timeout.resolve_right id]
        exact (SessionManager.resetWatchers_timeout sm p).trans
          (SessionManager.resetTimer_field Session.timeout _ server.machine.sm (fun _ _ => rfl)
            reset p)
      · exact impossible.elim
  | true =>
      rcases (moves inLoop).paced wf before (permits_once sid) with paced | ⟨gone, -⟩
      · rcases paced.timeout with same | retimed
        · exact same
        · unfold permits at retimed
          split at retimed
          next e rest queue =>
            -- The session is registered again, with the timeout that it has.
            obtain ⟨named, asked, register, clamped⟩ := retimed
            have same := (steady ⟨leads, inLoop⟩ e (by simp [queue]) asked register).1 sid named
            rw [clamped, same p before]
          · exact retimed.elim
          · exact retimed.elim
      · rw [gone] at live
        cases live

theorem act_timeout {log : List Request} {action : Action} {r : Replica} {sid : Sid}
    {p : SessionPtr} (stands : Stands options server r) (runs : action.isLocal = true)
    (steady : Steady options log action server)
    (taken : server.act options states action = .ok after)
    (live : after.machine.sm.get sid = some p) :
    (server.machine.sm.get sid = some p ∧
        (after.machine.sm.deref p).timeout = (server.machine.sm.deref p).timeout) ∨
      ∃ cmd ∈ server.toApply, cmd.register = some (after.machine.sm.deref p).timeout ∧
        cmd.sid = sid := by
  have wf := stands.wellFormed
  cases action with
  | receive req | stop =>
      cases taken
      exact .inl ⟨live, rfl⟩
  | notify st =>
      cases taken
      have tends := onState_tends options server.state st
        { server with raft := { server.raft with leader := decide (st = states.leader) } } wf
      have before : server.machine.sm.get sid = some p := by
        rw [SessionManager.get, ← tends.quiet.sm.sessions]
        exact live
      exact .inl ⟨before, (tends.moves.timing wf before).1⟩
  | deliver =>
      cases taken
      unfold deliver at live ⊢
      split at live <;> exact .inl ⟨live, rfl⟩
  | turn env ready =>
      cases turn_cases wf taken with
      | advance pushes leads _ advances entered moves _ _ =>
          have before : server.machine.sm.get sid = some p := by
            rw [SessionManager.get, ← advances.sessions]
            exact live
          exact .inl ⟨before, advance_timeout wf leads steady entered moves before live⟩
      | idle _ advances moves _ =>
          have before : server.machine.sm.get sid = some p := by
            rw [SessionManager.get, ← advances.sessions]
            exact live
          exact .inl ⟨before, (moves.timing wf before).1⟩
      | await _ _ =>
          rw [replicate_machine] at live ⊢
          exact .inl ⟨live, rfl⟩
      | command entry rest _ queue _ applied =>
          obtain ⟨_, represents⟩ := stands
          obtain ⟨rep, m, executed, outcome⟩ := onCommand_ok applied
          have same : after.machine.sm = m.sm := by
            rcases outcome with ⟨-, rfl⟩ | ⟨e, others, -, -, rfl⟩ <;> rfl
          rw [same] at live ⊢
          refine (Machine.execute_timeout represents.sm represents.keyed executed live).imp_right
            fun registered => ⟨entry.cmd, ?_, registered⟩
          simp [Server.toApply, queue]
      | lead | change => exact .inl ⟨live, rfl⟩
  | accept | restart => cases runs

theorem act_records {action : Action} {r next : Replica} {sid : Sid} {record : SessionRecord}
    (stands : Stands options server r) (standsToo : Stands options after next)
    (done : Runs.run (Replica.apply options) r (action.applies server).toList = .ok next)
    (found : Store.recordsOf after.machine.db sid = some record) :
    Store.recordsOf server.machine.db sid = some record ∨
      ∃ cmd ∈ server.toApply, cmd.register = some record.timeout ∧ cmd.sid = sid := by
  obtain ⟨_, represents⟩ := stands
  obtain ⟨_, representsToo⟩ := standsToo
  rw [represents.records]
  rw [representsToo.records] at found
  cases applying : action.applies server with
  | none =>
      rw [applying] at done
      cases done
      exact .inl found
  | some cmd =>
      rw [applying] at done
      obtain ⟨_, applied, ended⟩ := (Runs.run_cons_ok _ _ _ _ _).mp done
      cases ended
      refine (Replica.apply_records represents.coherent.closed applied found).imp_right
        fun ⟨body, own⟩ => ⟨cmd, ?_, body_register body, own⟩
      cases action with
      | turn env ready =>
          obtain ⟨entry, rest, queue, rfl⟩ := applies_some applying
          simp [Server.toApply, queue]
      | _ => cases applying

section Restart

variable {r : Replica} (stands : Stands options server r) (anchored : r.Anchored)
  (recorded : r.Recorded) (noLast : Store.recordsOf server.machine.db Store.maxSid = none)
  (taken : server.restart options env = .ok after)

include stands anchored recorded noLast taken

theorem restart_timeout (sid : Sid) (p : SessionPtr) (live : after.machine.sm.get sid = some p) :
    ∃ record, Store.recordsOf server.machine.db sid = some record ∧
      (after.machine.sm.deref p).timeout = record.timeout := by
  have persisted := persisted_of_noLast stands anchored recorded noLast
  obtain ⟨_, represents⟩ := stands
  have loadable := loadable_of_represents represents
  have begun := Machine.represents_fresh loadable (env.clock 0) server.machine.replies
  obtain ⟨⟨m, index⟩, loaded, taken⟩ := Runs.bind_ok.mp taken
  cases taken
  obtain ⟨ready, opened, loaded⟩ := Runs.bind_ok.mp loaded
  cases opened.symm.trans (Machine.init_loadable env.proc _ loadable)
  obtain ⟨records, walked, middle, visited, first, holds, tree, -, -⟩ :=
    Machine.sessions_reloaded env begun fun _ => rfl
  obtain ⟨_, _, _, again, -, owners, -⟩ := persisted.rebuilds env server.machine.replies
  rw [Machine.loadSessions, visited] at again
  cases first.symm.trans again
  obtain ⟨_, visitedToo, loaded⟩ := Runs.bind_ok.mp loaded
  cases visitedToo.symm.trans visited
  obtain ⟨_, firstToo, loaded⟩ := Runs.bind_ok.mp loaded
  cases firstToo.symm.trans first
  obtain ⟨_, second, loaded⟩ := Runs.bind_ok.mp loaded
  obtain ⟨_, -, loaded⟩ := Runs.bind_ok.mp loaded
  cases loaded
  have entries := Store.mem_walkTree walked.db holds.keyed fun path node here =>
    (holds.coherent.closed.valid path node (by rw [← holds.tree]; exact here)).1
  obtain ⟨sessions, timeouts⟩ := Machine.walkTree_timeouts (fun call listed node stored kind => by
    have member := List.mem_map_of_mem (f := Prod.fst) listed
    rw [List.zipIdx_map_fst] at member
    obtain ⟨_, same, here⟩ := (entries call.1.1 call.1.2).mp member
    cases stored.symm.trans same
    rw [holds.tree, tree] at here
    exact owners call.1.1 node here kind) second
  rw [SessionManager.get, sessions] at live
  obtain ⟨record, member, own, timeout⟩ := Machine.walkSessions_timeouts begun.sm
    (fun sid => (begun.get_none sid).mpr rfl) first live
  obtain ⟨_, same, spec⟩ := Store.walkSessions_spec _ begun.keyed
  cases visited.symm.trans same
  refine ⟨record, ?_, (timeouts p).trans timeout⟩
  rw [← own]
  exact ((spec record).mp member).1

theorem restart_records :
    Store.recordsOf after.machine.db = Store.recordsOf server.machine.db := by
  obtain ⟨_, represents⟩ := stands
  obtain ⟨_, _, next, done, -, holds, reloaded, -⟩ :=
    restart_ok env (loadable_of_represents represents)
  cases taken.symm.trans done
  rw [holds.records]
  funext sid
  by_cases held : ∃ path, (Store.treeOf server.machine.db).Owns sid path
  · obtain ⟨path, owns⟩ := held
    rw [represents.tree] at owns
    obtain ⟨paths, live, -⟩ := anchored sid path owns
    have known : Store.recordsOf server.machine.db sid ≠ none := by
      rw [represents.records]
      intro gone
      rw [recorded.live sid gone] at live
      cases live
    refine reloaded.recorded sid known fun last => ?_
    rw [last] at known
    exact known noLast
  · exact reloaded.unowned sid (not_exists.mp held)

end Restart

structure Kept (options : Options) (log : List Request) (server : Server) : Prop where
  whole : server.log = log
  owed : ∀ cmd ∈ server.toApply, cmd ∈ log
  stands : ∃ r, Stands options server r ∧ r.Anchored ∧ r.Recorded
  live : ∀ sid p, server.machine.sm.get sid = some p →
    timeoutOf log sid = some (server.machine.sm.deref p).timeout
  recorded : ∀ sid record, Store.recordsOf server.machine.db sid = some record →
    timeoutOf log sid = some record.timeout

section Kept

variable {log : List Request}

theorem Kept.follow (kept : Kept options log server) (elected : Bool) (grown : List Request) :
    Kept options (log ++ grown) (server.follow elected grown) where
  whole := by
    rw [← kept.whole]
    simp [Server.log, Server.follow, Function.comp_def]
  owed := by
    intro cmd member
    have split : cmd ∈ server.toApply ++ grown := by
      simpa [Server.toApply, Server.follow, Function.comp_def] using member
    exact List.mem_append.mpr ((List.mem_append.mp split).imp_left (kept.owed cmd))
  stands := kept.stands
  live sid p there := timeoutOf_mono grown (kept.live sid p there)
  recorded sid record found := timeoutOf_mono grown (kept.recorded sid record found)

theorem Kept.act {action : Action} (kept : Kept options log server) (consistent : Consistent log)
    (runs : action.isLocal = true) (steady : Steady options log action server)
    (taken : server.act options states action = .ok after) :
    ∃ grown, after.log = log ++ grown ∧ Grows options log action server grown ∧
      Kept options (log ++ grown) after := by
  obtain ⟨r, stands, anchored, recorded⟩ := kept.stands
  obtain ⟨grown, ⟨longer, toApply⟩, grows⟩ := act_grows stands.wellFormed runs steady taken
  obtain ⟨next, done, standsToo⟩ := stands_act stands (Action.isRestart_of_isLocal runs) taken
  have registered (cmd : Request) (member : cmd ∈ server.toApply) (timeout : Int)
      (register : cmd.register = some timeout) :
      timeoutOf (log ++ grown) cmd.sid = some timeout :=
    timeoutOf_mono grown (consistent cmd (kept.owed cmd member) timeout register)
  rw [kept.whole] at longer
  refine ⟨grown, longer, grows, longer, fun cmd member => ?_, ⟨next, standsToo, ?_⟩,
    fun sid p live => ?_, fun sid record found => ?_⟩
  · exact List.mem_append.mpr ((toApply cmd member).imp_left (kept.owed cmd))
  · obtain ⟨_, represents⟩ := stands
    cases applying : action.applies server with
    | none =>
        rw [applying] at done
        cases done
        exact ⟨anchored, recorded⟩
    | some cmd =>
        rw [applying] at done
        obtain ⟨_, applied, ended⟩ := (Runs.run_cons_ok _ _ _ _ _).mp done
        cases ended
        exact ⟨anchored.apply represents.coherent.closed applied,
          recorded.apply represents.coherent.closed applied⟩
  · rcases act_timeout stands runs steady taken live with
      ⟨before, same⟩ | ⟨cmd, member, register, rfl⟩
    · rw [same]
      exact timeoutOf_mono grown (kept.live sid p before)
    · exact registered cmd member _ register
  · rcases act_records stands standsToo done found with before | ⟨cmd, member, register, rfl⟩
    · exact timeoutOf_mono grown (kept.recorded sid record before)
    · exact registered cmd member _ register

theorem Kept.restart (kept : Kept options log server)
    (noLast : Store.recordsOf server.machine.db Store.maxSid = none)
    (taken : server.restart options env = .ok after) : Kept options log after := by
  obtain ⟨r, stands, anchored, recorded⟩ := kept.stands
  have live := restart_timeout stands anchored recorded noLast taken
  have records := restart_records stands anchored recorded noLast taken
  obtain ⟨_, represents⟩ := stands
  obtain ⟨_, index, next, done, -, holds, reloaded, reset⟩ := restart_ok env
    (loadable_of_represents represents)
  cases taken.symm.trans done
  have same : after.log = server.log := by
    rw [reset]
    simp [Server.log]
  refine ⟨same.trans kept.whole, fun cmd member => ?_,
    ⟨next, ⟨_, holds⟩, reloaded.anchored, reloaded.recordedToo⟩, fun sid p there => ?_,
    fun sid record found => ?_⟩
  · rw [← kept.whole, ← same]
    have queue : after.cmdch = [] := by rw [reset]
    simp only [Server.toApply, queue, List.nil_append] at member
    simp only [Server.log, List.map_append]
    exact List.mem_append_right _ member
  · obtain ⟨record, known, timeout⟩ := live sid p there
    rw [timeout]
    exact kept.recorded sid record known
  · rw [records] at found
    exact kept.recorded sid record found

theorem kept_initial {first : Server} (started : initial options env = .ok first) (sid : Sid) :
    Kept options [] (first.withSid sid) := by
  obtain ⟨_, r, begun, stands, reloaded, -, -, -, -, cmdch, -, raft⟩ := initial_ok options env
  cases started.symm.trans begun
  have fresh := reloaded_fresh reloaded
  obtain ⟨_, represents⟩ := stands
  refine ⟨by simp [Server.log, withSid, onMachine, raft],
    by simp [Server.toApply, withSid, onMachine, cmdch, raft],
    ⟨r, withSid_stands ⟨_, represents⟩ sid, reloaded.anchored, reloaded.recordedToo⟩,
    fun other p there => ?_, fun other record found => ?_⟩
  · have dead := (represents.get_none other).mpr (by rw [fresh]; rfl)
    cases there.symm.trans dead
  · have none : Store.recordsOf first.machine.db other = none := by
      rw [represents.records, fresh]
      exact @Machine.recordsOf_fresh options other
    cases found.symm.trans none

end Kept

end Server

inductive Occurrence (ι : Type) where
  | deed (deed : Deed ι)
  | restart (i : ι) (env : Env)

namespace Cluster

variable {ι : Type} [DecidableEq ι] {options : Options} {states : RaftStates}
  {cluster next : Cluster ι}

def occur (options : Options) (states : RaftStates) (occurrence : Occurrence ι)
    (cluster : Cluster ι) : Except Fault (Cluster ι) :=
  match occurrence with
  | .deed deed => cluster.step options states deed
  | .restart i env => do
      let server ← (cluster.servers i).restart options env
      return cluster.spread i server false []

omit [DecidableEq ι] in
-- The register that succeeds on one of the servers.
def acknowledged (options : Options) (occurrence : Occurrence ι) (cluster : Cluster ι) :
    List (Sid × Int) :=
  match occurrence with
  | .deed (.act i action _) => (Server.acknowledges options action (cluster.servers i)).toList
  | _ => []

def Steady (options : Options) (occurrence : Occurrence ι) (cluster : Cluster ι) : Prop :=
  match occurrence with
  | .deed (.act i action _) => (cluster.servers i).Steady options cluster.log action
  | .deed (.lose _) => True
  | .restart i env => (cluster.servers i).Steady options cluster.log (.restart env)

def lastRegister (sid : Sid) (given : List (Sid × Int)) : Option Int :=
  (given.reverse.find? fun one => one.1 = sid).map Prod.snd

structure Agreed (options : Options) (cluster : Cluster ι) (given : List (Sid × Int)) : Prop where
  servers : ∀ i, (cluster.servers i).Kept options cluster.log
  consistent : Consistent cluster.log
  given : ∀ sid timeout, (sid, timeout) ∈ given ↔ timeoutOf cluster.log sid = some timeout

theorem lastRegister_eq {given : List (Sid × Int)} {sid : Sid} {timeout : Int}
    (some : (sid, timeout) ∈ given) (all : ∀ other, (sid, other) ∈ given → other = timeout) :
    lastRegister sid given = .some timeout := by
  have found : (given.reverse.find? fun one => one.1 = sid).isSome = true := by
    rw [List.find?_isSome]
    exact ⟨(sid, timeout), List.mem_reverse.mpr some, by simp⟩
  obtain ⟨⟨one, other⟩, first⟩ := Option.isSome_iff_exists.mp found
  have own : one = sid := by simpa using List.find?_some first
  have member := List.mem_reverse.mp (List.mem_of_find?_eq_some first)
  rw [own] at member
  rw [lastRegister, first, Option.map_some, all other member]

theorem Kept.spread (i : ι) {server : Server} (elected : Bool) {grown : List Request}
    (kept : ∀ i, (cluster.servers i).Kept options cluster.log)
    (here : server.Kept options (cluster.log ++ grown)) (j : ι) :
    ((cluster.spread i server elected grown).servers j).Kept options (cluster.log ++ grown) := by
  by_cases same : j = i
  · have own : (cluster.spread i server elected grown).servers j = server := if_pos same
    rw [own]
    exact here
  · have other : (cluster.spread i server elected grown).servers j =
        (cluster.servers j).follow elected grown := if_neg same
    rw [other]
    exact (kept j).follow elected grown

theorem Agreed.act {given : List (Sid × Int)} {i : ι} {action : Action} {server : Server}
    (agreed : cluster.Agreed options given) (runs : action.isLocal = true)
    (steady : (cluster.servers i).Steady options cluster.log action)
    (acted : (cluster.servers i).act options states action = .ok server) (elected : Bool) :
    (cluster.spread i server elected (server.log.drop (cluster.servers i).log.length)).Agreed
      options (given ++ (Server.acknowledges options action (cluster.servers i)).toList) := by
  obtain ⟨grown, log, grows, kept⟩ := (agreed.servers i).act agreed.consistent runs steady acted
  have longer : server.log.drop (cluster.servers i).log.length = grown := by
    rw [log, (agreed.servers i).whole, List.drop_left]
  rw [longer]
  have servers := Kept.spread i elected agreed.servers kept
  cases grows with
  | silent _ silent again =>
      have same := timeoutOf_silent cluster.log silent
      refine ⟨servers, fun cmd member timeout register => ?_, fun sid timeout => ?_⟩
      · rw [show (cluster.spread i server elected grown).log = cluster.log ++ grown from rfl, same]
        rcases List.mem_append.mp member with old | new
        · exact agreed.consistent cmd old timeout register
        · have absent := registers_eq_nil.mp silent cmd new
          simp [register] at absent
      · rw [show (cluster.spread i server elected grown).log = cluster.log ++ grown from rfl, same,
          List.mem_append, agreed.given]
        refine or_iff_left_of_imp fun now => ?_
        obtain ⟨p, live, timed⟩ := again sid timeout (by simpa using now)
        rw [← timed]
        exact (agreed.servers i).live sid p live
  | fresh sid timeout new acknowledged =>
      have known := timeoutOf_fresh timeout new
      refine ⟨servers, fun cmd member asked register => ?_, fun other asked => ?_⟩
      · rcases List.mem_append.mp member with old | now
        · exact timeoutOf_mono _ (agreed.consistent cmd old asked register)
        · cases List.mem_singleton.mp now
          cases register
          exact (known sid).trans (if_pos rfl)
      · rw [show (cluster.spread i server elected _).log = cluster.log ++ _ from rfl, known,
          acknowledged, List.mem_append, agreed.given]
        by_cases own : other = sid
        · subst own
          simp [timeoutOf_none.mpr new, eq_comm]
        · simp [own]

theorem Agreed.occur {given : List (Sid × Int)} {occurrence : Occurrence ι}
    (agreed : cluster.Agreed options given) (steady : Steady options occurrence cluster)
    (taken : cluster.occur options states occurrence = .ok next) :
    next.Agreed options (given ++ acknowledged options occurrence cluster) := by
  -- Without growth the log and what it gives stay.
  have quiet {i : ι} {server : Server} (kept : server.Kept options cluster.log) :
      (cluster.spread i server false []).Agreed options (given ++ []) := by
    have same : (cluster.spread i server false []).log = cluster.log := List.append_nil _
    refine ⟨fun j => ?_, ?_, ?_⟩
    · rw [same]
      rw [← List.append_nil cluster.log] at kept ⊢
      exact Kept.spread i false agreed.servers kept j
    · rw [same]
      exact agreed.consistent
    · rw [same, List.append_nil]
      exact agreed.given
  cases occurrence with
  | deed deed =>
      cases deed with
      | act i action runs =>
          obtain ⟨server, acted, taken⟩ := Runs.bind_ok.mp taken
          cases taken
          have steady : (cluster.servers i).Steady options cluster.log action := steady
          exact agreed.act runs steady acted (action.elects states)
      | lose i =>
          cases taken
          have follows := (agreed.servers i).follow true []
          rw [List.append_nil] at follows
          exact quiet follows
  | restart i env =>
      obtain ⟨server, restarted, taken⟩ := Runs.bind_ok.mp taken
      cases taken
      have noLast : Store.recordsOf (cluster.servers i).machine.db Store.maxSid = none := steady
      exact quiet ((agreed.servers i).restart noLast restarted)

omit [DecidableEq ι] in
theorem Starts.agreed (starts : cluster.Starts options) : cluster.Agreed options [] := by
  refine ⟨fun i => ?_, ?_, ?_⟩
  · obtain ⟨env, first, sid, begun, same⟩ := starts.servers i
    rw [same, starts.log]
    exact Server.kept_initial begun sid
  · simp [Consistent, starts.log]
  · simp [timeoutOf, starts.log]

theorem timeouts_agree {occurrences : List (Occurrence ι)} {last : Cluster ι}
    (starts : cluster.Starts options)
    (steady : Runs.Meets (occur options states) (Steady options) cluster occurrences)
    (reached : Runs.run (occur options states) cluster occurrences = .ok last) (i : ι) (sid : Sid)
    (p : SessionPtr) (live : (last.servers i).machine.sm.get sid = some p) :
    lastRegister sid
        (Runs.trail (occur options states) (acknowledged options) cluster occurrences) =
      some ((last.servers i).machine.sm.deref p).timeout := by
  have agreed := Runs.trail_invariant (occur options states) (acknowledged options)
    (Steady options) (fun cluster given => cluster.Agreed options given)
    (fun _ _ _ _ agreed steady taken => agreed.occur steady taken) cluster last [] occurrences
    starts.agreed steady reached
  rw [List.nil_append] at agreed
  have known := (agreed.servers i).live sid p live
  refine lastRegister_eq ((agreed.given _ _).mpr known) fun other member => ?_
  have same := (agreed.given _ _).mp member
  rw [known] at same
  exact (Option.some.inj same).symm

instance (log : List Request) (action : Action) (server : Server) :
    Decidable (server.Steady options log action) :=
  match action with
  | .turn _ .event => inferInstanceAs (Decidable (_ → ∀ e ∈ _, ∀ asked ∈ _, _ ∧ _))
  | .restart _ => inferInstanceAs (Decidable (_ = _))
  | .turn _ .command | .turn _ .state | .turn _ .timer | .receive _ | .notify _ | .stop
  | .deliver | .accept _ _ => .isTrue trivial

instance (occurrence : Occurrence ι) (cluster : Cluster ι) :
    Decidable (Steady options occurrence cluster) :=
  match occurrence with
  | .deed (.act i action _) =>
      inferInstanceAs (Decidable ((cluster.servers i).Steady options cluster.log action))
  | .deed (.lose _) => .isTrue trivial
  | .restart i env =>
      inferInstanceAs (Decidable ((cluster.servers i).Steady options cluster.log (.restart env)))

def reregistered (timeout : Int) : List (Occurrence Bool) :=
  -- The session of one leader is registered again, and the other server is elected.
  (perform true (electing 7 0 ++ enrolling ++ [.deliver, .turn (.still 0) .command,
      .receive { Request.empty with sid? := some 1, register := some timeout },
      .turn (.still 0) .event]) ++
    perform false (electing 8 2)).map .deed

theorem timeouts_agree_again : ∃ first last p,
    Server.initial Options.standard (.still 0) = .ok first ∧
      Runs.run (occur Options.standard .sample) (pair first)
        (reregistered 5000 ++ [.restart true (.still 9)]) = .ok last ∧
      (last.servers true).machine.sm.get 1 = some p ∧
      lastRegister 1 (Runs.trail (occur Options.standard .sample)
        (acknowledged Options.standard) (pair first)
        (reregistered 5000 ++ [.restart true (.still 9)])) =
          some ((last.servers true).machine.sm.deref p).timeout := by
  have found : Runs.passes (Server.initial Options.standard (.still 0)) (fun first =>
      decide (Runs.Meets (occur Options.standard .sample) (Steady Options.standard) (pair first)
        (reregistered 5000 ++ [.restart true (.still 9)])) &&
      Runs.passes (Runs.run (occur Options.standard .sample) (pair first)
        (reregistered 5000 ++ [.restart true (.still 9)])) fun last =>
          ((last.servers true).machine.sm.get 1).isSome) = true := by
    decide +kernel
  simp only [Runs.passes_iff, Bool.and_eq_true, decide_eq_true_eq] at found
  obtain ⟨first, started, steady, last, reached, live⟩ := found
  obtain ⟨p, live⟩ := Option.isSome_iff_exists.mp live
  have starts : (pair first).Starts Options.standard :=
    ⟨rfl, fun _ => ⟨_, first, 0, started, rfl⟩⟩
  have agreed := timeouts_agree starts steady reached true 1 p live
  exact ⟨first, last, p, started, reached, live, agreed⟩

-- A session is registered with 5 s and again with 20 s, and the next leader uses 5 s.
theorem timeouts_disagree : ∃ first last,
    Server.initial Options.standard (.still 0) = .ok first ∧
      Runs.run (occur Options.standard .sample) (pair first) (reregistered 20000) = .ok last ∧
      (last.servers false).state = .leader ∧ (last.servers false).toApply = [] ∧
      ((last.servers false).machine.sm.get 1).map
        (fun p => ((last.servers false).machine.sm.deref p).timeout) = some 5000 ∧
      lastRegister 1 (Runs.trail (occur Options.standard .sample)
        (acknowledged Options.standard) (pair first) (reregistered 20000)) = some 20000 := by
  have found : Runs.passes (Server.initial Options.standard (.still 0)) (fun first =>
      Runs.passes (Runs.run (occur Options.standard .sample) (pair first) (reregistered 20000))
        fun last => decide ((last.servers false).state = .leader ∧
          (last.servers false).toApply = [] ∧
          ((last.servers false).machine.sm.get 1).map
            (fun p => ((last.servers false).machine.sm.deref p).timeout) = some 5000 ∧
          lastRegister 1 (Runs.trail (occur Options.standard .sample)
            (acknowledged Options.standard) (pair first) (reregistered 20000)) =
              some 20000)) = true := by
    decide +kernel
  simp only [Runs.passes_iff, decide_eq_true_eq] at found
  obtain ⟨first, started, last, reached, leads, applied, timeout, acked⟩ := found
  exact ⟨first, last, started, reached, leads, applied, timeout, acked⟩

end Cluster

end Pyxis
