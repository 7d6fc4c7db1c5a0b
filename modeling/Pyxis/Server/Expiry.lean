import Mathlib.Tactic.Linarith
import Pyxis.Replica.Reach
import Pyxis.Server.Rounding

set_option autoImplicit false

open Std (ExtTreeMap)

namespace Pyxis

-- The deadline that `Touch` gives is a whole timeout away.
def RoundsUp (options : Options) (now : Time) (timeout : Int) : Prop :=
  now + timeout * 1000 ≤ SessionManager.deadline options now timeout

instance (options : Options) (now : Time) (timeout : Int) :
    Decidable (RoundsUp options now timeout) := inferInstanceAs (Decidable (_ ≤ _))

namespace SessionManager

variable {options : Options} {now : Time} {sm after : SessionManager}

theorem due_expire (wf : sm.WellFormed) {p : SessionPtr} (due : p ∈ sm.due now) :
    (sm.deref p).expire < now := by
  obtain ⟨bucket, listed, member⟩ := List.mem_flatMap.mp due
  have stored := (ExtTreeMap.mem_toList_iff_getElem?_eq_some).mp
    ((List.takeWhile_sublist _).subset listed)
  rw [expire_of_queued sm wf bucket.1 bucket.2 p stored (Std.ExtTreeSet.mem_toList.mp member)]
  exact of_decide_eq_true (List.all_eq_true.mp List.all_takeWhile bucket listed)

theorem touch_deref {sid : Sid} {p : SessionPtr} (wf : sm.WellFormed)
    (live : sm.get sid = some p) (active : (sm.deref p).active = true)
    (done : sm.touch options now sid = .ok after) :
    after.deref p = (sm.deref p).setExpireTime (deadline options now (sm.deref p).timeout) := by
  obtain ⟨q, there, ⟨closed, -⟩ | ⟨-, timers, rfl⟩⟩ := touch_cases done
  · cases live.symm.trans there
    rw [active] at closed
    cases closed
  · cases live.symm.trans there
    obtain ⟨stored, -⟩ := get_deref sm wf sid p live
    exact (deref_modify sm p p _ stored).trans (if_pos rfl)

end SessionManager

namespace Machine

open SessionManager (WellFormed deadline)

structure Paced (options : Options) (permits : Permits) (sid : Sid) (p : SessionPtr)
    (before m : Machine) : Prop where
  live : m.sm.get sid = some p
  timeout : (m.sm.deref p).timeout = (before.sm.deref p).timeout ∨
    permits.retimes sid (m.sm.deref p).timeout
  expire : (m.sm.deref p).expire = (before.sm.deref p).expire ∨
    ∃ now timeout, permits.renews sid now ∧
      (timeout = (before.sm.deref p).timeout ∨ permits.retimes sid timeout) ∧
      (m.sm.deref p).expire = deadline options now timeout
  active : (m.sm.deref p).active = (before.sm.deref p).active ∨
    (m.sm.deref p).active = false ∧ permits.closes p

variable {options : Options} {state : State} {permits : Permits} {sid : Sid} {p : SessionPtr}
  {before m after : Machine}

theorem Paced.refl (live : m.sm.get sid = some p) : Paced options permits sid p m m :=
  ⟨live, .inl rfl, .inl rfl, .inl rfl⟩

theorem Paced.wasActive (paced : Paced options permits sid p before m)
    (active : (m.sm.deref p).active = true) : (before.sm.deref p).active = true :=
  (paced.active.resolve_right fun closed => by simp [closed.1] at active).symm.trans active

theorem Paced.frame (paced : Paced options permits sid p before m)
    (get : after.sm.get sid = m.sm.get sid)
    (timeout : (after.sm.deref p).timeout = (m.sm.deref p).timeout)
    (expire : (after.sm.deref p).expire = (m.sm.deref p).expire)
    (active : (after.sm.deref p).active = (m.sm.deref p).active) :
    Paced options permits sid p before after :=
  ⟨get.trans paced.live, by rw [timeout]; exact paced.timeout, by rw [expire]; exact paced.expire,
    by rw [active]; exact paced.active⟩

theorem Paced.told (paced : Paced options permits sid p before m) (told : Told m after) :
    Paced options permits sid p before after := by
  obtain ⟨-, timeout, expire, active, -⟩ := Session.fields_of_core (told.deref p)
  refine paced.frame ?_ timeout expire active
  rw [SessionManager.get, told.sessions]
  rfl

theorem Paced.touch (paced : Paced options permits sid p before m) (wf : m.sm.WellFormed)
    {other : Sid} {now : Time} {sm : SessionManager} (permitted : permits.renews other now)
    (done : m.sm.touch options now other = .ok sm) :
    Paced options permits sid p before { m with sm := sm } := by
  obtain ⟨q, there, ⟨-, rfl⟩ | ⟨-, timers, rfl⟩⟩ := SessionManager.touch_cases done
  · exact paced
  · obtain ⟨stored, -⟩ := SessionManager.get_deref m.sm wf other q there
    have deref := SessionManager.deref_modify m.sm q p
      (Session.setExpireTime (deadline options now (m.sm.deref q).timeout)) stored
    by_cases here : q = p
    · subst here
      cases SessionManager.sessions_inj m.sm wf _ _ q paced.live there
      rw [if_pos rfl] at deref
      refine ⟨paced.live, ?_, .inr ⟨now, (m.sm.deref q).timeout, permitted, paced.timeout, ?_⟩, ?_⟩
      · exact (congrArg Session.timeout deref).symm ▸ paced.timeout
      · exact congrArg Session.expire deref
      · exact (congrArg Session.active deref).symm ▸ paced.active
    · rw [if_neg here] at deref
      exact paced.frame rfl (congrArg Session.timeout deref) (congrArg Session.expire deref)
        (congrArg Session.active deref)

theorem Paced.modify (paced : Paced options permits sid p before m) (q : SessionPtr)
    (f : Session → Session)
    (timing : ∀ s, (f s).timeout = s.timeout ∧ (f s).expire = s.expire ∧ (f s).active = s.active) :
    Paced options permits sid p before { m with sm := m.sm.modify q f } :=
  paced.frame rfl
    (SessionManager.modify_field Session.timeout m.sm q f (fun s => (timing s).1) p)
    (SessionManager.modify_field Session.expire m.sm q f (fun s => (timing s).2.1) p)
    (SessionManager.modify_field Session.active m.sm q f (fun s => (timing s).2.2) p)

theorem Paced.setTimeout (paced : Paced options permits sid p before m) (wf : m.sm.WellFormed)
    {other : Sid} {q : SessionPtr} {timeout : Int} (there : m.sm.get other = some q)
    (permitted : permits.retimes other timeout) :
    Paced options permits sid p before
      { m with sm := m.sm.modify q (Session.setTimeout timeout) } := by
  obtain ⟨stored, -⟩ := SessionManager.get_deref m.sm wf other q there
  refine ⟨paced.live, ?_, ?_, ?_⟩
  · by_cases here : q = p
    · subst here
      cases SessionManager.sessions_inj m.sm wf _ _ q paced.live there
      refine .inr ?_
      dsimp only
      rw [SessionManager.deref_modify m.sm q q _ stored, if_pos rfl]
      exact permitted
    · dsimp only
      rw [SessionManager.deref_modify m.sm q p _ stored, if_neg here]
      exact paced.timeout
  · dsimp only
    rw [SessionManager.modify_field Session.expire m.sm q (Session.setTimeout timeout)
      (fun _ => rfl) p]
    exact paced.expire
  · dsimp only
    rw [SessionManager.modify_field Session.active m.sm q (Session.setTimeout timeout)
      (fun _ => rfl) p]
    exact paced.active

theorem Paced.close (paced : Paced options permits sid p before m) (wf : m.sm.WellFormed)
    {q : SessionPtr} (permitted : permits.closes q) :
    Paced options permits sid p before { m with sm := m.sm.modify q Session.close } := by
  obtain ⟨stored, -⟩ := SessionManager.get_deref m.sm wf sid p paced.live
  refine ⟨paced.live, ?_, ?_, ?_⟩
  · dsimp only
    rw [SessionManager.modify_field Session.timeout m.sm q Session.close (fun _ => rfl) p]
    exact paced.timeout
  · dsimp only
    rw [SessionManager.modify_field Session.expire m.sm q Session.close (fun _ => rfl) p]
    exact paced.expire
  · by_cases here : q = p
    · subst here
      refine .inr ⟨?_, permitted⟩
      dsimp only
      rw [SessionManager.deref_modify m.sm q q _ stored, if_pos rfl]
      rfl
    · have same : (m.sm.modify q Session.close).deref p = m.sm.deref p := by
        rw [SessionManager.deref, SessionManager.heap_modify, if_neg here]
        rfl
      dsimp only
      rw [same]
      exact paced.active

theorem Paced.move (paced : Paced options permits sid p before m) (wf : m.sm.WellFormed)
    (move : Move options state permits m after) :
    Paced options permits sid p before after ∨ after.sm.get sid = none ∧ permits.removes sid := by
  cases move with
  | store db => exact .inl (paced.frame rfl rfl rfl rfl)
  | nodes q f only => exact .inl (paced.modify q f fun s => by rw [only]; exact ⟨rfl, rfl, rfl⟩)
  | reply e rep plain => exact .inl (paced.told (reply_told e rep m))
  | watch req => exact .inl (paced.told (onWatch_told req m))
  | triger e after done => exact .inl (paced.told (triger_told state done))
  | pingBack other q live => exact .inl (paced.told (pingBack_told q m))
  | ping q e live permitted => exact .inl (paced.told (takePing_told q e m))
  | touch other now sm permitted done => exact .inl (paced.touch wf permitted done)
  | setTimeout other q timeout live permitted => exact .inl (paced.setTimeout wf live permitted)
  | close q permitted => exact .inl (paced.close wf permitted)
  | genSid permitted => exact .inl (paced.frame rfl rfl rfl rfl)
  | add other timeout now q sm permitted fresh done =>
      have deref := SessionManager.inserted_deref m.sm wf q fresh (Session.new other timeout)
        paced.live
      have entered : Paced options permits sid p before
          { m with sm := m.sm.inserted q (Session.new other timeout) } := by
        refine paced.frame ?_ (congrArg Session.timeout deref) (congrArg Session.expire deref)
          (congrArg Session.active deref)
        dsimp only
        rw [SessionManager.inserted_get, paced.live, Option.some_or]
      exact .inl (entered.touch
        (by exact SessionManager.inserted_wellFormed m.sm wf q fresh _) permitted done)
  | drop other q sm permitted live done =>
      obtain ⟨-, heap, get⟩ := SessionManager.remove_frame done
      by_cases same : sid = other
      · subst same
        exact .inr ⟨by rw [get, if_pos rfl], permitted⟩
      · have different : q ≠ p := by
          rintro rfl
          exact same (SessionManager.sessions_inj m.sm wf _ _ q paced.live live)
        have deref : sm.deref p = m.sm.deref p := by
          rw [SessionManager.deref, heap, SessionManager.heap_modify, if_neg different]
          rfl
        refine .inl (paced.frame ?_ (congrArg Session.timeout deref)
          (congrArg Session.expire deref) (congrArg Session.active deref))
        rw [get, if_neg same]
        rfl
  | free q gone =>
      have different : q ≠ p := by
        rintro rfl
        exact gone sid paced.live
      have deref : SessionManager.deref { m.sm with heap := m.sm.heap.erase q } p =
          m.sm.deref p := by
        simp [SessionManager.deref, ExtTreeMap.getElem?_erase, different]
      exact .inl (paced.frame rfl (congrArg Session.timeout deref) (congrArg Session.expire deref)
        (congrArg Session.active deref))

theorem Move.unregistered (move : Move options state permits m after) (gone : m.sm.get sid = none)
    (new : ∀ now, ¬ permits.renews sid now) : after.sm.get sid = none := by
  have told (told : Told m after) : after.sm.get sid = none := by
    rw [SessionManager.get, told.sessions]
    exact gone
  cases move with
  | watch req => exact told (onWatch_told req m)
  | triger e after done => exact told (triger_told state done)
  | pingBack other q live => exact told (pingBack_told q m)
  | ping q e live permitted => exact told (takePing_told q e m)
  | touch other now sm permitted done =>
      obtain ⟨q, there, ⟨-, rfl⟩ | ⟨-, timers, rfl⟩⟩ := SessionManager.touch_cases done <;>
        exact gone
  | add other timeout now q sm permitted fresh done =>
      have different : sid ≠ other := by
        rintro rfl
        exact new now permitted
      have inserted : (m.sm.inserted q (Session.new other timeout)).get sid = none := by
        rw [SessionManager.inserted_get, gone, Option.none_or]
        exact if_neg different
      obtain ⟨_, _, ⟨-, rfl⟩ | ⟨-, timers, rfl⟩⟩ := SessionManager.touch_cases done <;>
        exact inserted
  | drop other q sm permitted live done =>
      obtain ⟨-, -, get⟩ := SessionManager.remove_frame done
      dsimp only
      rw [get]
      split_ifs
      · rfl
      · exact gone
  | _ => exact gone

theorem Moves.paced (moves : Moves options state permits m after) (wf : m.sm.WellFormed)
    (live : m.sm.get sid = some p)
    (once : permits.removes sid → ∀ now, ¬ permits.renews sid now) :
    Paced options permits sid p m after ∨ after.sm.get sid = none ∧ permits.removes sid :=
  (Moves.invariant (fun other => Paced options permits sid p m other ∨
    other.sm.get sid = none ∧ permits.removes sid) (fun one two wf holds move => by
      rcases holds with paced | ⟨gone, removed⟩
      · exact paced.move wf move
      · exact .inr ⟨move.unregistered gone (once removed), removed⟩)
    moves wf (.inl (.refl live))).2

theorem Moves.timing (moves : Moves options state .nothing m after) (wf : m.sm.WellFormed)
    (live : m.sm.get sid = some p) :
    (after.sm.deref p).timeout = (m.sm.deref p).timeout ∧
      (after.sm.deref p).expire = (m.sm.deref p).expire ∧
      (after.sm.deref p).active = (m.sm.deref p).active := by
  rcases moves.paced wf live False.elim with ⟨-, timeout, expire, active⟩ | ⟨-, impossible⟩
  · refine ⟨timeout.resolve_right id, expire.resolve_right ?_, active.resolve_right And.right⟩
    rintro ⟨_, _, impossible, -⟩
    exact impossible
  · exact impossible.elim

end Machine

namespace Server

open Machine (Paced Told)
open SessionManager (deadline)

variable {options : Options} {states : RaftStates} {env : Env} {ready : Ready} {e : Event}
  {server after : Server}

def Renewed (options : Options) (now : Time) (before after : Session) : Prop :=
  after.timeout = before.timeout ∧ after.expire = deadline options now before.timeout ∧
    after.active = true

theorem renewed_of_touch {m last : Machine} {sm : SessionManager} {sid : Sid} {p : SessionPtr}
    {now : Time} (wf : m.sm.WellFormed) (live : m.sm.get sid = some p)
    (active : (m.sm.deref p).active = true) (touched : m.sm.touch options now sid = .ok sm)
    (timing : (last.sm.deref p).timeout = (sm.deref p).timeout ∧
      (last.sm.deref p).expire = (sm.deref p).expire ∧
      (last.sm.deref p).active = (sm.deref p).active) :
    Renewed options now (m.sm.deref p) (last.sm.deref p) := by
  rw [SessionManager.touch_deref wf live active touched] at timing
  obtain ⟨timeout, expire, still⟩ := timing
  exact ⟨timeout, expire, still.trans active⟩

theorem handleEvent_ping {p : SessionPtr} (wf : server.machine.sm.WellFormed)
    (unregistered : e.req.register = none) (ping : e.req.ping = true)
    (kept : e.req.needBoradcast = false) (live : server.machine.sm.get e.req.sid = some p)
    (done : handleEvent options env e server = .ok after) :
    ∃ sm, server.machine.sm.touch options (env.clock 0) e.req.sid = .ok sm ∧
      after.machine = Machine.takePing p e { server.machine with sm := sm } := by
  obtain ⟨sm, touched, -⟩ := SessionManager.touch_spec options (env.clock 0)
    server.machine.sm wf e.req.sid p live
  have sid := (SessionManager.get_deref server.machine.sm wf _ p live).2
  refine ⟨sm, touched, ?_⟩
  simp only [handleEvent, unregistered, live, touchFor, ping, kept, handleLocal, handlePing,
    onMachine, sid, touched, reduceCtorEq, if_false, if_true, Bool.true_eq_false,
    Bool.false_eq_true, false_and, bind, Except.bind, pure, Except.pure, Except.ok.injEq] at done
  rw [← done]
  rfl

theorem handleEvent_renews {p : SessionPtr} (wf : server.machine.sm.WellFormed)
    (unregistered : e.req.register = none) (stays : e.req.unregister = false)
    (plain : ¬ (e.req.ping = true ∧ e.req.needBoradcast = true))
    (live : server.machine.sm.get e.req.sid = some p)
    (active : (server.machine.sm.deref p).active = true)
    (done : handleEvent options env e server = .ok after) :
    Renewed options (env.clock 0) (server.machine.sm.deref p) (after.machine.sm.deref p) := by
  cases ping : e.req.ping with
  | false =>
      simp only [handleEvent, unregistered, live, touchFor, if_pos (And.intro ping stays),
        reduceCtorEq, if_false] at done
      obtain ⟨sm, touched, done⟩ := Runs.bind_ok.mp done
      split_ifs at done
      · cases done
        refine renewed_of_touch wf live active touched ?_
        simp only [replicate_machine, onMachine, and_self]
      · obtain ⟨m, handled, done⟩ := Runs.bind_ok.mp done
        cases done
        have keeps := SessionManager.touch_keeps wf touched
        have there : sm.get e.req.sid = some p := by
          rw [SessionManager.get, keeps.sessions]
          exact live
        obtain ⟨_, same, tends⟩ := handleLocal_tends options env .leader .nothing e
          { server.machine with sm := sm } keeps.wellFormed (by simp [ping])
        cases handled.symm.trans same
        exact renewed_of_touch wf live active touched (tends.moves.timing keeps.wellFormed there)
  | true =>
      obtain ⟨sm, touched, machine⟩ := handleEvent_ping wf unregistered ping
        (by simpa using fun sent => plain ⟨ping, sent⟩) live done
      rw [machine]
      obtain ⟨-, timeout, expire, still, -⟩ := Session.fields_of_core
        ((Machine.takePing_told p e { server.machine with sm := sm }).deref p)
      exact renewed_of_touch wf live active touched ⟨timeout, expire, still⟩

theorem handleEvent_mixed {p : SessionPtr} (unregistered : e.req.register = none)
    (ping : e.req.ping = true) (sent : e.req.needBoradcast = true)
    (live : server.machine.sm.get e.req.sid = some p)
    (done : handleEvent options env e server = .ok after) :
    after.machine = server.machine := by
  simp only [handleEvent, unregistered, live, touchFor, ping, sent, reduceCtorEq, if_false, if_true,
    Bool.true_eq_false, false_and, bind, Except.bind, pure, Except.pure, Except.ok.injEq] at done
  rw [← done]
  simp [onMachine]

theorem handleEvent_registers {sid : Sid} {p : SessionPtr} {asked : Int}
    (register : e.req.register = some asked) (given : e.req.sid? = some sid)
    (live : server.machine.sm.get sid = some p)
    (done : handleEvent options env e server = .ok after) :
    ∃ rep, after.machine = Machine.reply e rep
      { server.machine with
        sm := server.machine.sm.modify p (Session.setTimeout (clampTimeout options asked)) } := by
  simp only [handleEvent, register, handleRegister, given, live, Except.ok.injEq] at done
  rw [← done]
  exact ⟨_, rfl⟩

-- For each session, when the leader last accepted a request of it.
abbrev Ledger := Sid → Option Time

def Leading (server : Server) : Prop := server.state = .leader ∧ server.inLoop = true

instance (server : Server) : Decidable (Leading server) := inferInstanceAs (Decidable (_ ∧ _))

def counts (req : Request) : Bool :=
  req.ping || req.read.isSome || req.stat.isSome || req.watch.isSome || req.create.isSome ||
    req.delete.isSome || req.write.isSome

def accepts (e : Event) (server : Server) : Option Sid :=
  match e.req.register with
  | some _ => e.req.sid?.filter fun sid => (server.machine.sm.get sid).isSome
  | none =>
      if (server.machine.sm.get e.req.sid).isSome && !e.req.unregister && counts e.req then
        some e.req.sid
      else none

def accepting (action : Action) (server : Server) : Option (Sid × Time) :=
  match action with
  | .turn env .event =>
      if Leading server then
        (server.eventch.head?.bind (accepts · server)).map fun sid => (sid, env.clock 0)
      else none
  | _ => none

def record (action : Action) (server next : Server) (ledger : Ledger) : Ledger := fun sid =>
  -- A new term of the leader and a new session start without an entry.
  if Leading next ∧ (next.machine.sm.get sid).isSome = true then
    match accepting action server with
    | some (one, now) => if one = sid then some now else ledger sid
    | none => ledger sid
  else none

def ledgerAct (options : Options) (states : RaftStates) (action : Action)
    (run : Server × Ledger) : Except Fault (Server × Ledger) := do
  let next ← run.1.act options states action
  return (next, record action run.1 next run.2)

def NotEarly (options : Options) (states : RaftStates) (action : Action) (run : Server × Ledger) :
    Prop :=
  ∀ env ready next, action = .turn env ready →
    run.1.turn options states env ready = .ok next →
    ∀ sid p t, run.1.machine.sm.get sid = some p → (run.1.machine.sm.deref p).active = true →
      next.machine.sm.get sid = some p → (next.machine.sm.deref p).active = false →
      run.2 sid = some t → t + (run.1.machine.sm.deref p).timeout * 1000 < env.clock 0

def TimelyRequest (options : Options) (now : Time) (req : Request) (s : Session)
    (last : Option Time) : Prop :=
  (∀ asked ∈ req.register, req.sid?.isSome = true →
    now + clampTimeout options asked * 1000 ≤ s.expire) ∧
  (req.register = none → req.unregister = false →
    -- Neither `handleEvent` nor `handlePing` renews the session.
    if req.ping = true ∧ req.needBoradcast = true then now + s.timeout * 1000 ≤ s.expire
    else RoundsUp options now s.timeout ∧ (counts req = true ∨ ∀ t ∈ last, t ≤ now))

instance (options : Options) (now : Time) (req : Request) (s : Session) (last : Option Time) :
    Decidable (TimelyRequest options now req s last) := inferInstanceAs (Decidable (_ ∧ _))

-- Requests find or leave their session a whole timeout away from its deadline, and so do
-- register commands of a sid that is live.
def Timely (options : Options) (action : Action) (run : Server × Ledger) : Prop :=
  match action with
  | .turn env ready =>
      (ready = .event → Leading run.1 → ∀ e ∈ run.1.eventch.head?,
        ∀ p ∈ run.1.machine.sm.get e.req.sid, (run.1.machine.sm.deref p).active = true →
          TimelyRequest options (env.clock 0) e.req (run.1.machine.sm.deref p)
            (run.2 e.req.sid)) ∧
      ∀ cmd ∈ run.1.applies ready, cmd.register.isSome = true →
        ∀ p ∈ run.1.machine.sm.get cmd.sid, ∀ t ∈ run.2 cmd.sid,
          t ≤ env.clock 0 ∧
            RoundsUp options (env.clock 0) (run.1.machine.sm.deref p).timeout
  | _ => True

instance (options : Options) (action : Action) (run : Server × Ledger) :
    Decidable (Timely options action run) :=
  match action with
  | .turn _ _ => inferInstanceAs (Decidable (_ ∧ _))
  | .receive _ | .notify _ | .stop | .deliver | .accept _ _ | .restart _ => .isTrue trivial

/-- The deadline of a session is a timeout away from the last request, or later. -/
structure Distant (options : Options) (states : RaftStates) (run : Server × Ledger) : Prop where
  reachable : Reachable options states run.1
  leading : ∀ sid t, run.2 sid = some t → Leading run.1
  distant : ∀ sid t, run.2 sid = some t → ∃ p, run.1.machine.sm.get sid = some p ∧
    ((run.1.machine.sm.deref p).active = true →
      t + (run.1.machine.sm.deref p).timeout * 1000 ≤ (run.1.machine.sm.deref p).expire)

theorem accepts_sid {sid : Sid} (accepted : accepts e server = some sid) : e.req.sid = sid := by
  unfold accepts at accepted
  split at accepted
  · obtain ⟨given, -⟩ := Option.filter_eq_some_iff.mp accepted
    simp [Request.sid, given]
  · split_ifs at accepted
    exact Option.some.inj accepted

theorem turn_event {rest : List Event} (leading : Leading server)
    (queue : server.eventch = e :: rest)
    (taken : server.turn options states env .event = .ok after) :
    handleEvent options env e { server with eventch := rest } = .ok after := by
  simpa only [turn, leading.1, leading.2, leaderLoop, queue, Bool.true_eq_false, if_false]
    using taken

theorem accepted_distant {sid : Sid} {p : SessionPtr} {last : Option Time}
    (wf : server.machine.sm.WellFormed) (live : server.machine.sm.get sid = some p)
    (active : (server.machine.sm.deref p).active = true) (accepted : accepts e server = some sid)
    (timely : TimelyRequest options (env.clock 0) e.req (server.machine.sm.deref p) last)
    (done : handleEvent options env e server = .ok after) :
    env.clock 0 + (after.machine.sm.deref p).timeout * 1000 ≤
      (after.machine.sm.deref p).expire := by
  have own := accepts_sid accepted
  unfold accepts at accepted
  cases register : e.req.register with
  | some asked =>
      simp only [register] at accepted
      obtain ⟨given, -⟩ := Option.filter_eq_some_iff.mp accepted
      obtain ⟨rep, machine⟩ := handleEvent_registers register given live done
      obtain ⟨stored, -⟩ := SessionManager.get_deref _ wf sid p live
      have deref : after.machine.sm.deref p =
          (server.machine.sm.deref p).setTimeout (clampTimeout options asked) := by
        rw [machine]
        exact (SessionManager.deref_modify _ p p _ stored).trans (if_pos rfl)
      rw [deref]
      exact timely.1 asked register (by simp [given])
  | none =>
      simp only [register] at accepted
      split_ifs at accepted with kinds
      simp only [Bool.and_eq_true, Bool.not_eq_true'] at kinds
      subst own
      have timely := timely.2 register kinds.1.2
      split_ifs at timely with mixed
      · rw [handleEvent_mixed register mixed.1 mixed.2 live done]
        exact timely
      · obtain ⟨timeout, expire, -⟩ :=
          handleEvent_renews wf register kinds.1.2 mixed live active done
        rw [timeout, expire]
        exact timely.1

theorem actionPermits_cases (options : Options) (action : Action) (server : Server) :
    (∃ env ready cmd, action = .turn env ready ∧ server.applies ready = some cmd ∧
      actionPermits options action server = Machine.commandPermits env cmd) ∨
    (∃ env e rest, action = .turn env .event ∧ server.eventch = e :: rest ∧
      actionPermits options action server = eventPermits options env e) ∨
    (∃ env, action = .turn env .timer ∧
      actionPermits options action server = .closing (server.machine.sm.due (env.clock 0))) ∨
    actionPermits options action server = .nothing := by
  cases action with
  | turn env ready =>
      cases applying : server.applies ready with
      | some cmd => exact .inl ⟨env, ready, cmd, rfl, applying, by simp [actionPermits, applying]⟩
      | none =>
          simp only [actionPermits, applying, permits]
          split
          next e rest queue => exact .inr (.inl ⟨env, e, rest, rfl, queue, rfl⟩)
          · exact .inr (.inr (.inl ⟨env, rfl, rfl⟩))
          · exact .inr (.inr (.inr rfl))
  | _ => exact .inr (.inr (.inr rfl))

theorem actionPermits_once {action : Action} {sid : Sid}
    (removed : (actionPermits options action server).removes sid) (now : Time) :
    ¬ (actionPermits options action server).renews sid now := by
  obtain ⟨env, ready, cmd, -, -, same⟩ | ⟨env, e, rest, -, -, same⟩ | ⟨env, -, same⟩ | same :=
    actionPermits_cases options action server <;> rw [same] at removed ⊢
  · rintro ⟨⟨timeout, body⟩, -⟩
    rw [removed.1] at body
    cases body
  all_goals exact removed.elim

theorem body_register {req : Request} {timeout : Int} (body : req.body = .register timeout) :
    req.register = some timeout := by
  unfold Request.body at body
  split at body <;> first | cases body | split_ifs at body
  assumption

theorem accepts_of_accepting {sid : Sid} {rest : List Event} (leading : Leading server)
    (queue : server.eventch = e :: rest)
    (other : ∀ now, accepting (.turn env .event) server ≠ some (sid, now)) :
    accepts e server ≠ some sid := by
  intro accepted
  exact other (env.clock 0) (by simp [accepting, leading, queue, accepted])

theorem kept_distant {action : Action} {ledger : Ledger} {sid : Sid} {p : SessionPtr} {t : Time}
    (leading : Leading server) (timely : Timely options action (server, ledger))
    (live : server.machine.sm.get sid = some p)
    (active : (server.machine.sm.deref p).active = true) (entry : ledger sid = some t)
    (bound : t + (server.machine.sm.deref p).timeout * 1000 ≤ (server.machine.sm.deref p).expire)
    (other : ∀ now, accepting action server ≠ some (sid, now))
    (paced : Paced options (actionPermits options action server) sid p server.machine
      after.machine) :
    t + (after.machine.sm.deref p).timeout * 1000 ≤ (after.machine.sm.deref p).expire := by
  obtain ⟨-, timeout, expire, -⟩ := paced
  obtain ⟨env, ready, cmd, rfl, applying, same⟩ | ⟨env, e, rest, rfl, queue, same⟩ |
    ⟨env, rfl, same⟩ | same := actionPermits_cases options action server <;>
    rw [same] at timeout expire
  · rw [timeout.resolve_right id]
    rcases expire with kept | ⟨now, timeout, ⟨⟨asked, body⟩, rfl, rfl⟩, unchanged, renewed⟩
    · rw [kept]
      exact bound
    · obtain ⟨earlier, up⟩ := timely.2 cmd applying (by simp [body_register body]) p live t entry
      rw [renewed, unchanged.resolve_right id]
      exact (Int.add_le_add_right earlier _).trans up
  · have unaccepted := accepts_of_accepting leading queue other
    have unset (timeout : Int) : ¬ (eventPermits options env e).retimes sid timeout := by
      rintro ⟨given, asked, register, -⟩
      exact unaccepted (by simp [accepts, register, given, live])
    rw [timeout.resolve_right (unset _)]
    rcases expire with kept | ⟨now, timeout, ⟨register, stays, rfl, rfl⟩, unchanged, renewed⟩
    · rw [kept]
      exact bound
    · -- The request has none of the bodies that count.
      have uncounted : counts e.req = false := by
        by_contra counted
        exact unaccepted (by simp [accepts, register, live, stays, Bool.not_eq_false _ ▸ counted])
      have unpinged : e.req.ping = false := by
        simp only [counts, Bool.or_eq_false_iff] at uncounted
        exact uncounted.1.1.1.1.1.1
      have asked := (timely.1 rfl leading e (by simp [queue]) p live active).2 register stays
      simp only [unpinged, uncounted, Bool.false_eq_true, if_false, false_and, false_or] at asked
      rw [renewed, unchanged.resolve_right (unset _)]
      exact (Int.add_le_add_right (asked.2 t entry) _).trans asked.1
  all_goals
    rw [timeout.resolve_right id, expire.resolve_right fun ⟨_, _, impossible, _⟩ => impossible]
    exact bound

theorem accepting_cases {action : Action} {sid : Sid} {t : Time}
    (accepted : accepting action server = some (sid, t)) :
    ∃ env e rest, action = .turn env .event ∧ Leading server ∧ server.eventch = e :: rest ∧
      accepts e server = some sid ∧ env.clock 0 = t := by
  unfold accepting at accepted
  split at accepted
  next env =>
    split_ifs at accepted with leading
    obtain ⟨one, found, same⟩ := Option.map_eq_some_iff.mp accepted
    cases same
    obtain ⟨e, head, accepted⟩ := Option.bind_eq_some_iff.mp found
    obtain ⟨rest, queue⟩ := List.head?_eq_some_iff.mp head
    exact ⟨env, e, rest, rfl, leading, queue, accepted, rfl⟩
  · cases accepted

theorem accepts_live {sid : Sid} (accepted : accepts e server = some sid) :
    ∃ p, server.machine.sm.get sid = some p := by
  unfold accepts at accepted
  split at accepted
  · exact Option.isSome_iff_exists.mp (Option.filter_eq_some_iff.mp accepted).2
  · split_ifs at accepted with kinds
    cases accepted
    simp only [Bool.and_eq_true] at kinds
    exact Option.isSome_iff_exists.mp kinds.1.1

theorem record_cases {action : Action} {ledger : Ledger} {sid : Sid} {t : Time}
    (entry : record action server after ledger sid = some t) :
    (Leading after ∧ (after.machine.sm.get sid).isSome = true) ∧
      (accepting action server = some (sid, t) ∨
        ledger sid = some t ∧ ∀ now, accepting action server ≠ some (sid, now)) := by
  unfold record at entry
  split_ifs at entry with here
  refine ⟨here, ?_⟩
  cases accepted : accepting action server with
  | none => exact .inr ⟨by simpa [accepted] using entry, by simp⟩
  | some one =>
      simp only [accepted] at entry
      split_ifs at entry with own
      · cases entry
        exact .inl (by rw [← own])
      · refine .inr ⟨entry, fun now same => own ?_⟩
        cases same
        rfl

theorem Leading.running {action : Action} (leading : Leading after)
    (taken : server.act options states action = .ok after) : action.isRestart = false := by
  cases action with
  | restart env =>
      obtain ⟨_, -, taken⟩ := Runs.bind_ok.mp taken
      cases taken
      cases leading.1
  | _ => rfl

theorem act_paced {action : Action} {sid : Sid} {p : SessionPtr}
    (reachable : Reachable options states server) (leading : Leading server)
    (running : action.isRestart = false) (live : server.machine.sm.get sid = some p)
    (taken : server.act options states action = .ok after)
    (still : (after.machine.sm.get sid).isSome = true) :
    Paced options (actionPermits options action server) sid p server.machine after.machine := by
  obtain ⟨r, stands⟩ := reachable_stands reachable
  cases act_works stands running taken with
  | moves moves =>
      refine (moves.paced stands.wellFormed live actionPermits_once).resolve_right fun gone => ?_
      rw [gone.1] at still
      cases still
  | entered env ready sm is leads first reset moves =>
      rw [leading.2] at first
      cases first

theorem Distant.act {action : Action} {run next : Server × Ledger}
    (distant : Distant options states run) (timely : Timely options action run)
    (stepped : ledgerAct options states action run = .ok next) : Distant options states next := by
  obtain ⟨server, ledger⟩ := run
  obtain ⟨after, taken, done⟩ := Runs.bind_ok.mp stepped
  cases done
  obtain ⟨r, stands⟩ := reachable_stands distant.reachable
  refine ⟨distant.reachable.act taken, fun sid t entry => (record_cases entry).1.1,
    fun sid t entry => ?_⟩
  obtain ⟨⟨leads, still⟩, source⟩ := record_cases entry
  have running := Leading.running leads taken
  rcases source with recorded | ⟨kept, other⟩
  · obtain ⟨env, e, rest, rfl, leading, queue, accepted, rfl⟩ := accepting_cases recorded
    obtain ⟨p, live⟩ := accepts_live accepted
    have paced := act_paced distant.reachable leading running live taken still
    refine ⟨p, paced.live, fun active => ?_⟩
    have before := paced.wasActive active
    have timely := timely.1 rfl leading e
      (by rw [show server.eventch = e :: rest from queue]; rfl) p
      (by rw [accepts_sid accepted]; exact live) before
    have done : handleEvent options env e { server with eventch := rest } = .ok after :=
      turn_event leading queue taken
    exact accepted_distant (by exact stands.wellFormed) (by exact live) (by exact before)
      (by exact accepted) (by exact timely) done
  · have leading := distant.leading sid t kept
    obtain ⟨p, live, bound⟩ := distant.distant sid t kept
    have paced := act_paced distant.reachable leading running live taken still
    refine ⟨p, paced.live, fun active => ?_⟩
    have before := paced.wasActive active
    exact kept_distant leading timely live before kept (bound before) other paced

theorem Distant.notEarly {action : Action} {run : Server × Ledger}
    (distant : Distant options states run) : NotEarly options states action run := by
  rintro env ready next rfl taken sid p t live active still inactive entry
  have leading := distant.leading sid t entry
  obtain ⟨q, there, bound⟩ := distant.distant sid t entry
  cases live.symm.trans there
  obtain ⟨r, stands⟩ := reachable_stands distant.reachable
  have paced : Paced options _ sid p run.1.machine next.machine :=
    act_paced distant.reachable leading (show (Action.turn env ready).isRestart = false from rfl)
      live taken (by simp [still])
  have closed := (paced.active.resolve_left fun same => by simp [active, inactive] at same).2
  obtain ⟨_, _, _, _, -, same⟩ | ⟨_, _, _, _, -, same⟩ | ⟨_, is, same⟩ | same :=
    actionPermits_cases options (.turn env ready) run.1 <;> rw [same] at closed
  · exact closed.elim
  · exact closed.elim
  · cases is
    exact lt_of_le_of_lt (bound active) (SessionManager.due_expire stands.wellFormed closed)
  · exact closed.elim

def pinged (moment : Time) : List Action :=
  [.receive (.tagged 1), .turn (.still moment) .event]

end Server

end Pyxis
