import Pyxis.Server.Loop
import Pyxis.Server.Moves

set_option autoImplicit false

namespace Pyxis.Server

open SessionManager (Keeps)
open Machine (Tends Moves)

abbrev Push := Event × Request

def Push.entry (push : Push) : Entry := ⟨push.2, some push.1.id⟩

def Produces (e : Event) (cmd : Request) : Prop :=
  -- The command is the event's own request, or the one that `handleRegister` makes of it.
  cmd = e.req ∨ e.req.register.isSome = true ∧ ∃ sid timeout, cmd = Request.registering sid timeout

def ClosedBy (pushes : List Push) (before after : Session) : Prop :=
  after.sid = before.sid ∧ after.nodeSet = before.nodeSet ∧
    (after.active = before.active ∨
      after.active = false ∧ ∃ push ∈ pushes, push.2 = Request.closing before.sid)

structure Advances (before after : Server) (pushes : List Push) : Prop where
  state : after.state = before.state
  tag : after.tag = before.tag
  cmdch : after.cmdch = before.cmdch
  statech : after.statech = before.statech
  leader : after.raft.leader = before.raft.leader
  delivered : after.raft.delivered = before.raft.delivered
  requests : after.requests = before.requests ++ pushes.map Prod.fst
  pending : after.raft.pending =
    before.raft.pending ++ if before.raft.leader then pushes.map Push.entry else []
  produced : ∀ push ∈ pushes, Produces push.1 push.2
  db : after.machine.db = before.machine.db
  sessions : after.machine.sm.sessions = before.machine.sm.sessions
  wellFormed : after.machine.sm.WellFormed
  objects : ∀ (p : SessionPtr) (session : Session), before.machine.sm.heap[p]? = some session →
    ∃ other, after.machine.sm.heap[p]? = some other ∧ ClosedBy pushes session other

theorem ClosedBy.trans {first second third : Session} {one two : List Push}
    (former : ClosedBy one first second) (latter : ClosedBy two second third) :
    ClosedBy (one ++ two) first third := by
  obtain ⟨sid, nodeSet, active⟩ := former
  obtain ⟨sidToo, nodeSetToo, activeToo⟩ := latter
  refine ⟨sidToo.trans sid, nodeSetToo.trans nodeSet, ?_⟩
  rcases activeToo with same | ⟨closed, push, member, cmd⟩
  · rcases active with still | ⟨closed, push, member, cmd⟩
    · exact .inl (same.trans still)
    · exact .inr ⟨same.trans closed, push, List.mem_append_left _ member, cmd⟩
  · exact .inr ⟨closed, push, List.mem_append_right _ member, by rw [cmd, sid]⟩

theorem Advances.trans {first second third : Server} {one two : List Push}
    (former : Advances first second one) (latter : Advances second third two) :
    Advances first third (one ++ two) where
  state := latter.state.trans former.state
  tag := latter.tag.trans former.tag
  cmdch := latter.cmdch.trans former.cmdch
  statech := latter.statech.trans former.statech
  leader := latter.leader.trans former.leader
  delivered := latter.delivered.trans former.delivered
  requests := by rw [latter.requests, former.requests, List.map_append, List.append_assoc]
  pending := by
    rw [latter.pending, former.pending, former.leader]
    cases first.raft.leader <;> simp
  produced push member := by
    rcases List.mem_append.mp member with earlier | later
    · exact former.produced push earlier
    · exact latter.produced push later
  db := latter.db.trans former.db
  sessions := latter.sessions.trans former.sessions
  wellFormed := latter.wellFormed
  objects p session stored := by
    obtain ⟨middle, found, closed⟩ := former.objects p session stored
    obtain ⟨other, present, closedToo⟩ := latter.objects p middle found
    exact ⟨other, present, closed.trans closedToo⟩

theorem advances_quiet (server : Server) (m : Machine) (quiet : Machine.Quiet server.machine m) :
    Advances server (server.onMachine m) [] where
  state := rfl
  tag := rfl
  cmdch := rfl
  statech := rfl
  leader := rfl
  delivered := rfl
  requests := by simp [onMachine]
  pending := by simp [onMachine]
  produced := by simp
  db := quiet.db
  sessions := quiet.sm.sessions
  wellFormed := quiet.sm.wellFormed
  objects p session stored := by
    obtain ⟨other, present, standing⟩ := SessionManager.standing_stored p session
      (quiet.sm.standing p) stored
    simp only [Session.standing, Prod.mk.injEq] at standing
    exact ⟨other, present, standing.1, standing.2.2, .inl standing.2.1⟩

def push (e : Event) (cmd : Request) (server : Server) : Server :=
  { replicate cmd (some e.id) server with requests := server.requests ++ [e] }

theorem advances_push (server : Server) (e : Event) (cmd : Request)
    (wf : server.machine.sm.WellFormed) (produces : Produces e cmd) :
    Advances server (push e cmd server) [(e, cmd)] := by
  constructor <;> simp [push, Push.entry, wf, produces]
  exact fun p session stored => ⟨session, stored, rfl, rfl, .inl rfl⟩

variable (options : Options) (env : Env)

def eventPermits (e : Event) : Machine.Permits where
  renews sid now :=
    e.req.register = none ∧ e.req.unregister = false ∧ sid = e.req.sid ∧ now = env.clock 0
  retimes sid timeout := e.req.sid? = some sid ∧
    ∃ asked, e.req.register = some asked ∧ timeout = clampTimeout options asked
  removes _ := False
  closes _ := False
  issues := e.req.register.isSome = true ∧ e.req.sid? = none
  pings := e.req.register = none ∧ e.req.ping = true ∧ e.req.needBoradcast = false

section Answers

variable (state : State) (permits : Machine.Permits) (e : Event) (m : Machine)
  (wf : m.sm.WellFormed)

include wf

theorem handlePing_tends (renews : permits.renews e.req.sid (env.clock 0))
    (pings : permits.pings) :
    ∃ status after, handlePing options env e m = .ok (status, after) ∧
      Tends options state permits m after := by
  unfold handlePing
  cases live : m.sm.get e.req.sid with
  | none => exact ⟨_, _, rfl, .refl wf⟩
  | some p =>
      have sid := (SessionManager.get_deref m.sm wf _ p live).2
      obtain ⟨sm, touched, tends⟩ : ∃ sm, m.sm.touch options (env.clock 0) e.req.sid = .ok sm ∧
          Tends options state permits m { m with sm := sm } := Tends.touch live renews wf
      simp only [sid, touched, bind, Except.bind]
      have stillLive : sm.get e.req.sid = some p := by
        rw [SessionManager.get, tends.quiet.sm.sessions]
        exact live
      exact ⟨_, _, rfl, tends.trans (.ping (m := { m with sm := sm }) stillLive
        pings tends.quiet.sm.wellFormed)⟩

theorem handleRead_tends (path : Str) :
    Tends options state permits m (handleRead options env e path m).2.2 := by
  unfold handleRead
  split
  · exact .refl wf
  split
  · exact .refl wf
  split
  · exact .watch e.req wf
  · exact .refl wf

theorem handleStat_tends (path : Str) :
    Tends options state permits m (handleStat options env e path m).2.2 := by
  unfold handleStat
  split
  · exact .refl wf
  split
  · split
    · exact .watch e.req wf
    · exact .refl wf
  · split
    · exact .watch e.req wf
    · exact .refl wf

theorem handleLocal_tends
    (renews : e.req.ping = true → permits.renews e.req.sid (env.clock 0) ∧ permits.pings) :
    ∃ after, handleLocal options env e m = .ok after ∧ Tends options state permits m after := by
  have answered {after : Machine} (rep : Response) (plain : rep.watch = none)
      (tends : Tends options state permits m after) :
      Tends options state permits m (after.reply e rep) :=
    tends.trans (.reply e rep plain tends.quiet.sm.wellFormed)
  unfold handleLocal
  split
  next pings =>
    obtain ⟨status, after, done, tends⟩ := handlePing_tends options env state permits e m wf
      (renews pings).1 (renews pings).2
    simp only [done, bind, Except.bind]
    refine ⟨_, rfl, ?_⟩
    split
    · exact tends
    · exact answered _ (Response.watch_withStatus _ _) tends
  · split
    · exact ⟨_, rfl, answered _ (Response.watch_withStatus _ _)
        (handleRead_tends options env state permits e m wf _)⟩
    · exact ⟨_, rfl, answered _ (Response.watch_withStatus _ _)
        (handleStat_tends options env state permits e m wf _)⟩
    · split
      · exact ⟨_, rfl, answered _ (Response.watch_withStatus _ _) (.watch e.req wf)⟩
      · exact ⟨_, rfl, answered _ rfl (.refl wf)⟩

end Answers

def broadcasts (e : Event) (server : Server) : Option Request :=
  match e.req.register with
  | some timeout =>
      if e.req.sid?.isNone then
        some (Request.registering (server.machine.sm.sid + 1) (clampTimeout options timeout))
      else none
  | none =>
      if (server.machine.sm.get e.req.sid).isSome && e.req.needBoradcast then some e.req else none

variable {options} in
theorem broadcasts_produces {e : Event} {server : Server} {cmd : Request}
    (sent : broadcasts options e server = some cmd) : Produces e cmd := by
  unfold broadcasts at sent
  split at sent
  next timeout register =>
    split_ifs at sent
    cases sent
    exact .inr ⟨by simp [register], _, _, rfl⟩
  · split_ifs at sent
    cases sent
    exact .inl rfl

theorem handleRegister_spec (state : State) (e : Event) (timeout : Int)
    (register : e.req.register = some timeout) (server : Server)
    (wf : server.machine.sm.WellFormed) :
    ∃ m, Tends options state (eventPermits options env e) server.machine m ∧
      handleRegister options e timeout server =
        match broadcasts options e server with
        | none => server.onMachine m
        | some cmd => push e cmd (server.onMachine m) := by
  unfold handleRegister
  cases named : e.req.sid? with
  | none =>
      refine ⟨{ server.machine with sm := server.machine.sm.genSid.2 },
        ⟨⟨rfl, rfl, fun _ => rfl, wf.stored, wf.nonempty, wf.queued⟩,
          .single (.genSid ⟨by simp [register], named⟩)⟩, ?_⟩
      simp only [broadcasts, register, named, Option.isNone_none, if_true]
      cases leads : server.raft.leader <;> simp [push, replicate, leads, onMachine,
        SessionManager.genSid]
  | some sid =>
      simp only [broadcasts, register, named, Option.isNone_some, Bool.false_eq_true, if_false]
      cases live : server.machine.sm.get sid with
      | none => exact ⟨_, .reply e _ rfl wf, rfl⟩
      | some p =>
          have changed : Tends options state (eventPermits options env e) server.machine
              { server.machine with
                sm := server.machine.sm.modify p
                  (Session.setTimeout (clampTimeout options timeout)) } :=
            ⟨⟨rfl, SessionManager.modify_keeps _ wf p _ (fun _ => rfl) fun _ => rfl⟩,
              .single (.setTimeout sid p _ live ⟨named, timeout, register, rfl⟩)⟩
          exact ⟨_, changed.trans (.reply e _ rfl changed.quiet.sm.wellFormed), rfl⟩

theorem handleEvent_spec (state : State) (e : Event) (server : Server)
    (wf : server.machine.sm.WellFormed) :
    ∃ m, Tends options state (eventPermits options env e) server.machine m ∧
      handleEvent options env e server =
        .ok (match broadcasts options e server with
          | none => server.onMachine m
          | some cmd => push e cmd (server.onMachine m)) := by
  unfold handleEvent
  cases register : e.req.register with
  | some timeout =>
      obtain ⟨m, tends, done⟩ := handleRegister_spec options env state e timeout register server wf
      exact ⟨m, tends, congrArg Except.ok done⟩
  | none =>
      dsimp only
      cases live : server.machine.sm.get e.req.sid with
      | none =>
          exact ⟨_, .reply e (Response.empty.withStatus expired) (Response.watch_withStatus _ _) wf,
            by simp [broadcasts, register, live]⟩
      | some p =>
          obtain ⟨sm, touched, tends⟩ : ∃ sm,
              touchFor options env e.req server.machine.sm = .ok sm ∧
                Tends options state (eventPermits options env e) server.machine
                  { server.machine with sm := sm } := by
            unfold touchFor
            split
            next renews => exact Tends.touch live ⟨register, renews.2, rfl, rfl⟩ wf
            · exact ⟨_, rfl, .refl wf⟩
          simp only [reduceCtorEq, if_false, touched, bind, Except.bind, broadcasts, register, live,
            Option.isSome_some, Bool.true_and]
          split
          · exact ⟨_, tends, by
              cases leads : server.raft.leader <;>
                simp [push, replicate, leads, onMachine, pure, Except.pure]⟩
          next here =>
            have stays : e.req.unregister = false := by
              simp only [Request.needBoradcast, Bool.or_eq_true, not_or] at here
              simpa using here.1.1.1.1
            obtain ⟨after, answered, tendsToo⟩ := handleLocal_tends options env state
              (eventPermits options env e) e { server.machine with sm := sm }
              tends.quiet.sm.wellFormed fun ping =>
                ⟨⟨register, stays, rfl, rfl⟩, register, ping, by simpa using here⟩
            refine ⟨after, tends.trans tendsToo, ?_⟩
            simp only [onMachine, answered]
            rfl

theorem handleEvent_advances (state : State) (e : Event) (server : Server)
    (wf : server.machine.sm.WellFormed) :
    ∃ after pushes, handleEvent options env e server = .ok after ∧ Advances server after pushes ∧
      Tends options state (eventPermits options env e) server.machine after.machine ∧
      pushes = (broadcasts options e server).toList.map fun cmd => (e, cmd) := by
  obtain ⟨m, tends, done⟩ := handleEvent_spec options env state e server wf
  have one := advances_quiet server m tends.quiet
  cases sent : broadcasts options e server with
  | none => exact ⟨_, _, by rw [done, sent], one, tends, rfl⟩
  | some cmd =>
      exact ⟨_, _, by rw [done, sent], one.trans (advances_push _ e cmd one.wellFormed
        (broadcasts_produces sent)), by simpa [push, onMachine] using tends, rfl⟩

section Closing

variable {options env} {server after : Server}

theorem handleEvent_closing (id : Nat) (sid : Sid) (server : Server) :
    handleEvent options env ⟨id, Request.closing sid⟩ server =
      .ok (if server.machine.sm.get sid = none then
        server.onMachine (server.machine.reply ⟨id, Request.closing sid⟩
          (Response.empty.withStatus expired))
      else push ⟨id, Request.closing sid⟩ (Request.closing sid) server) := by
  have named : (Request.closing sid).sid = sid := rfl
  have still (sm : SessionManager) : touchFor options env (Request.closing sid) sm = .ok sm := rfl
  unfold handleEvent
  dsimp only
  rw [named]
  split
  next timeout asked => cases asked
  next =>
    split
    · rfl
    · rw [still]
      simp [push, onMachine, Request.needBoradcast, Request.closing, bind, Except.bind, pure,
        Except.pure]

theorem closeExpired_sm {p : SessionPtr} (done : closeExpired options env p server = .ok after) :
    after.machine.sm = (if (server.machine.sm.deref p).active then
      server.machine.sm.modify p Session.close else server.machine.sm) ∧
    (after.machine.sm.deref p).active = false := by
  unfold closeExpired at done
  split_ifs at done with active
  · unfold onSessionClosed at done
    dsimp only at done
    split_ifs at done with still
    rw [handleEvent_closing] at done
    have same : after.machine.sm = server.machine.sm.modify p Session.close := by
      cases done
      split
      · rfl
      · simp [push, onMachine]
    rw [if_pos active, same]
    exact ⟨rfl, by simpa [onMachine] using still⟩
  · cases done
    exact ⟨(if_neg active).symm, by simpa using active⟩

theorem closeExpired_inactive {p q : SessionPtr}
    (done : closeExpired options env p server = .ok after)
    (closed : (server.machine.sm.deref q).active = false) :
    (after.machine.sm.deref q).active = false := by
  rw [(closeExpired_sm done).1]
  split_ifs
  · rw [SessionManager.deref, SessionManager.heap_modify]
    split_ifs with same
    · rw [SessionManager.deref] at closed
      cases stored : server.machine.sm.heap[q]? with
      | none => simpa [stored] using closed
      | some session => rfl
    · exact closed
  · exact closed

end Closing

theorem Advances.outside {before after : Server} {pushes : List Push}
    (advances : Advances before after pushes) (eventch eventch' : List Event) (next next' : Nat)
    (inLoop inLoop' : Bool) :
    Advances { before with eventch := eventch, nextEvent := next, inLoop := inLoop }
      { after with eventch := eventch', nextEvent := next', inLoop := inLoop' } pushes :=
  ⟨advances.state, advances.tag, advances.cmdch, advances.statech, advances.leader,
    advances.delivered, advances.requests, advances.pending, advances.produced, advances.db,
    advances.sessions, advances.wellFormed, advances.objects⟩

theorem closeExpired_advances (permits : Machine.Permits) (server : Server)
    (wf : server.machine.sm.WellFormed) (sid : Sid) (p : SessionPtr) (permitted : permits.closes p)
    (live : server.machine.sm.get sid = some p) :
    ∃ after pushes, closeExpired options env p server = .ok after ∧
      Advances server after pushes ∧
      Moves options .leader permits server.machine after.machine := by
  unfold closeExpired
  split
  next active =>
    obtain ⟨stored, same⟩ := SessionManager.get_deref _ wf sid p live
    have closed : (server.machine.sm.modify p Session.close).deref p =
        (server.machine.sm.deref p).close := by
      rw [SessionManager.deref, SessionManager.heap_modify, if_pos rfl, stored]
      rfl
    have closedWf := SessionManager.modify_wellFormed _ wf p Session.close (fun _ => rfl)
      fun _ => rfl
    obtain ⟨after, pushes, handled, advances, tends, sent⟩ := handleEvent_advances options env
      .leader ⟨server.nextEvent, Request.closing sid⟩
      { server with
        machine := { server.machine with sm := server.machine.sm.modify p Session.close }
        nextEvent := server.nextEvent + 1 } closedWf
    -- The session is still in `sessions_`, so its unregister is broadcast and not refused.
    have announced : ((⟨server.nextEvent, Request.closing sid⟩, Request.closing sid) : Push) ∈
        pushes := by
      have lives : (server.machine.sm.modify p Session.close).get sid = some p := live
      simp [sent, broadcasts, Request.closing, Request.empty, Request.sid, Request.needBoradcast,
        lives]
    refine ⟨after, pushes, ?_, ⟨advances.state, advances.tag, advances.cmdch, advances.statech,
      advances.leader, advances.delivered, advances.requests, advances.pending,
      advances.produced, advances.db, advances.sessions, advances.wellFormed, ?_⟩,
      .head (.close p permitted) (tends.moves.within ?_)⟩
    · simp only [onSessionClosed, onMachine, closed]
      simp only [Session.close, Bool.false_eq_true, if_false, same]
      exact handled
    · intro q session found
      have marked : (server.machine.sm.modify p Session.close).heap[q]? =
          if p = q then some session.close else some session := by
        rw [SessionManager.heap_modify, found]
        rfl
      split_ifs at marked with here
      · obtain ⟨other, present, sidSame, nodeSet, inactive⟩ := advances.objects q _ marked
        subst here
        rw [stored] at found
        cases found
        refine ⟨other, present, sidSame, nodeSet, .inr ⟨?_, _, announced, by rw [same]⟩⟩
        rcases inactive with unchanged | ⟨unchanged, -⟩ <;> exact unchanged
      · exact advances.objects q session marked
    -- An unregister renews nothing.
    · exact ⟨fun _ _ renews => by simp [eventPermits, Request.closing] at renews,
        fun _ _ retimes => by simp [eventPermits, Request.closing, Request.empty] at retimes,
        fun _ => False.elim, fun _ => False.elim,
        fun issues => by simp [eventPermits, Request.closing, Request.empty] at issues,
        fun pings => by simp [eventPermits, Request.closing, Request.empty] at pings⟩
  · exact ⟨server, [], rfl, advances_quiet server server.machine (.refl wf), .refl⟩

theorem due_live (sm : SessionManager) (wf : sm.WellFormed) (now : Time) (p : SessionPtr)
    (due : p ∈ sm.due now) : ∃ sid, sm.get sid = some p := by
  simp only [SessionManager.due, List.mem_flatMap] at due
  obtain ⟨bucket, listed, member⟩ := due
  have stored := (Std.ExtTreeMap.mem_toList_iff_getElem?_eq_some).mp
    ((List.takeWhile_sublist _).subset listed)
  obtain ⟨session, -, -, live⟩ := wf.queued bucket.1 bucket.2 p stored
    (Std.ExtTreeSet.mem_toList.mp member)
  exact ⟨session.sid, live⟩

theorem getSessions_live (sm : SessionManager) (wf : sm.WellFormed) (time : Time) (p : SessionPtr)
    (member : p ∈ sm.getSessions time) : ∃ sid, sm.get sid = some p := by
  unfold SessionManager.getSessions at member
  cases bucket : sm.timers[time]? with
  | none => simp [bucket] at member
  | some set =>
      rw [bucket, Option.getD_some, Std.ExtTreeSet.mem_toList] at member
      obtain ⟨session, -, -, live⟩ := wf.queued time set p bucket member
      exact ⟨session.sid, live⟩

theorem closeExpired_run_advances (permits : Machine.Permits) (ps : List SessionPtr)
    (permitted : ∀ p ∈ ps, permits.closes p) (server : Server) (wf : server.machine.sm.WellFormed)
    (live : ∀ p ∈ ps, ∃ sid, server.machine.sm.get sid = some p) :
    ∃ after pushes, Runs.run (closeExpired options env) server ps = .ok after ∧
      Advances server after pushes ∧
      Moves options .leader permits server.machine after.machine := by
  induction ps generalizing server with
  | nil => exact ⟨server, [], rfl, advances_quiet server server.machine (.refl wf), .refl⟩
  | cons p rest ih =>
      obtain ⟨sid, found⟩ := live p (by simp)
      obtain ⟨next, one, closed, advances, moves⟩ :=
        closeExpired_advances options env permits server wf sid p (permitted p (by simp)) found
      -- Closing one session leaves the others in `sessions_`.
      obtain ⟨after, others, reached, advancesToo, movesToo⟩ := ih
        (fun q member => permitted q (List.mem_cons_of_mem _ member)) next advances.wellFormed
        fun q member => by
        obtain ⟨other, there⟩ := live q (List.mem_cons_of_mem _ member)
        exact ⟨other, by rw [SessionManager.get, advances.sessions]; exact there⟩
      exact ⟨after, one ++ others, (Runs.run_cons_ok _ _ _ _ _).mpr ⟨next, closed, reached⟩,
        advances.trans advancesToo, moves.trans movesToo⟩

theorem step_advances (server : Server) (wf : server.machine.sm.WellFormed) :
    ∃ after pushes, step options env server = .ok after ∧ Advances server after pushes ∧
      Moves options .leader (.closing (server.machine.sm.due (env.clock 0))) server.machine
        after.machine :=
  closeExpired_run_advances options env _ _ (fun _ due => due) server wf
    fun p due => due_live _ wf _ p due

theorem step_closed (server : Server)
    (closed : ∀ p ∈ server.machine.sm.due (env.clock 0),
      (server.machine.sm.deref p).active = false) :
    step options env server = .ok server := by
  -- `Step` passes over sessions that it has closed before.
  unfold step
  generalize server.machine.sm.due (env.clock 0) = ps at closed
  induction ps with
  | nil => rfl
  | cons p rest ih =>
      have skipped : closeExpired options env p server = .ok server := by
        simp [closeExpired, closed p (by simp)]
      exact (Runs.run_cons_ok _ _ _ _ _).mpr ⟨server, skipped,
        ih fun q member => closed q (List.mem_cons_of_mem _ member)⟩

def expiring (ready : Ready) (server : Server) : List SessionPtr :=
  match server.state, server.inLoop, ready with
  | .leader, false, _ =>
      match server.machine.sm.resetTimer fun call => env.clock (call + 2) with
      | .ok sm => sm.resetWatchers.due (env.clock 0)
      | .error _ => []
  | .leader, true, .timer => server.machine.sm.due (env.clock 0)
  | _, _, _ => []

theorem enter_leader_advances (ready : Ready) (server : Server) (wf : server.machine.sm.WellFormed)
    (leads : server.state = .leader) (first : server.inLoop = false) :
    ∃ after pushes, enter options env server = .ok after ∧ Advances server after pushes ∧
      (∃ sm, server.machine.sm.resetTimer (fun call => env.clock (call + 2)) = .ok sm ∧
        Moves options .leader (.closing (sm.resetWatchers.due (env.clock 0)))
          { server.machine with sm := sm.resetWatchers, wm := [] } after.machine) ∧
      ((∀ p ∈ expiring env ready server, (server.machine.sm.deref p).active = false) →
        Machine.Quiet server.machine after.machine ∧ after.requests = server.requests) := by
  obtain ⟨sm, reset, keeps⟩ := SessionManager.resetTimer_spec (fun call => env.clock (call + 2))
    server.machine.sm wf
  have watchers := SessionManager.resetWatchers_keeps sm keeps.wellFormed
  have quiet : Machine.Quiet server.machine
      { server.machine with sm := sm.resetWatchers, wm := [] } := ⟨rfl, keeps.trans watchers⟩
  have entered := (advances_quiet server _ quiet).outside server.eventch server.eventch
    server.nextEvent server.nextEvent server.inLoop true
  obtain ⟨after, pushes, stepped, advances, moves⟩ := step_advances options env _
    entered.wellFormed
  refine ⟨after, pushes, ?_, entered.trans advances, ⟨sm, reset, moves⟩, fun closed => ?_⟩
  · unfold enter
    split
    · simp only [reset, bind, Except.bind]
      exact stepped
    all_goals
      next other =>
        rw [leads] at other
        cases other
  · simp only [expiring, leads, first, reset] at closed
    rw [step_closed options env _ fun p member => ?_] at stepped
    · cases stepped
      exact ⟨quiet, rfl⟩
    · have same : (sm.resetWatchers.deref p).active = (server.machine.sm.deref p).active :=
        congrArg (·.2.1) (quiet.sm.deref p)
      exact same.trans (closed p member)

end Pyxis.Server
