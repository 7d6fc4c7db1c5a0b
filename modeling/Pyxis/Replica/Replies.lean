import Pyxis.Replica.Answers

set_option autoImplicit false

namespace Pyxis

namespace Machine

variable {good : Event → Response → Prop} {m middle after : Machine}

def HoldsPings (m : Machine) : Prop := ∀ e ∈ m.held, e.req.ping = true

structure Tells (good : Event → Response → Prop) (m after : Machine) : Prop where
  sent : ∃ sent, after.replies = m.replies ++ sent ∧ ∀ answer ∈ sent, good answer.1 answer.2
  holds : after.HoldsPings

namespace Tells

theorem trans (former : Tells good m middle) (latter : Tells good middle after) :
    Tells good m after := by
  obtain ⟨sent, replies, told⟩ := former.sent
  obtain ⟨sent', replies', told'⟩ := latter.sent
  refine ⟨⟨sent ++ sent', by rw [replies', replies, List.append_assoc], fun answer member => ?_⟩,
    latter.holds⟩
  rcases List.mem_append.mp member with earlier | later
  · exact told answer earlier
  · exact told' answer later

theorem still (holds : m.HoldsPings) (replies : after.replies = m.replies)
    (pings : after.sm.pings = m.sm.pings) : Tells good m after := by
  refine ⟨⟨[], by rw [replies, List.append_nil], List.forall_mem_nil _⟩, ?_⟩
  rw [HoldsPings, held, pings]
  exact holds

theorem refl (holds : m.HoldsPings) : Tells good m m := still holds rfl rfl

theorem reply {e : Event} {rep : Response} (holds : m.HoldsPings) (told : good e rep) :
    Tells good m (m.reply e rep) :=
  ⟨⟨[(e, rep)], rfl, List.forall_mem_singleton.mpr told⟩, holds⟩

theorem of_pays (holds : m.HoldsPings)
    (pongs : ∀ (e : Event) (rep : Response), e.req.ping = true → rep.Pong → good e rep)
    (pays : Pays [] m after) : Tells good m after := by
  obtain ⟨sent, replies, balance, pong⟩ := pays
  have before (e : Event) (member : e ∈ sent.map Prod.fst ++ after.held) : e.req.ping = true :=
    holds e (balance.mem_iff.mp member)
  refine ⟨⟨sent, replies, fun answer member => ?_⟩,
    fun e member => before e (List.mem_append_right _ member)⟩
  rcases pong answer member with fresh | pong
  · cases fresh
  · exact pongs _ _ (before _ (List.mem_append_left _ (List.mem_map_of_mem member))) pong

end Tells

theorem onWatch_replies (req : Request) (m : Machine) :
    (m.onWatch req).2.replies = m.replies := by
  unfold onWatch
  split
  · rfl
  · dsimp only
    split <;> rfl

theorem holdPing_replies (p : SessionPtr) (e : Event) (m : Machine) :
    (m.holdPing p e).replies =
      m.replies ++ (m.sm.deref p).pingEvent.toList.map fun old => (old, Response.empty) := by
  unfold holdPing
  cases (m.sm.deref p).pingEvent <;> simp [reply]

theorem takePing_pongs (p : SessionPtr) (e : Event) (m : Machine) :
    ∃ sent, (m.takePing p e).replies = m.replies ++ sent ∧ ∀ answer ∈ sent, answer.2.Pong := by
  have empty : ∀ answer ∈ (m.sm.deref p).pingEvent.toList.map fun old => (old, Response.empty),
      answer.2.Pong := by
    simp [Response.Pong, Response.empty]
  unfold takePing
  dsimp only
  split
  · exact ⟨_, holdPing_replies p e m, empty⟩
  · refine ⟨_, by rw [pingBack_replies, holdPing_replies, List.append_assoc],
      fun answer member => ?_⟩
    rcases List.mem_append.mp member with old | new
    · exact empty answer old
    · exact Session.pingBack_pong _ answer (Option.mem_toList.mp new)

theorem takePing_tells {p : SessionPtr} {session : Session} {e : Event}
    (stored : m.sm.heap[p]? = some session) (ping : e.req.ping = true) (holds : m.HoldsPings)
    (pongs : ∀ (e : Event) (rep : Response), e.req.ping = true → rep.Pong → good e rep) :
    Tells good m (m.takePing p e) := by
  obtain ⟨sent, replies, balance, -⟩ := Pays.takePing e stored
  obtain ⟨other, same, pong⟩ := takePing_pongs p e m
  cases List.append_cancel_left (replies.symm.trans same)
  have before (old : Event) (member : old ∈ sent.map Prod.fst ++ (m.takePing p e).held) :
      old.req.ping = true := by
    rcases List.mem_append.mp (balance.mem_iff.mp member) with this | held
    · rw [List.mem_singleton.mp this]
      exact ping
    · exact holds old held
  exact ⟨⟨sent, replies, fun answer member => pongs _ _
      (before _ (List.mem_append_left _ (List.mem_map_of_mem member))) (pong answer member)⟩,
    fun old member => before old (List.mem_append_right _ member)⟩

end Machine

namespace Server

open Machine (Tells HoldsPings)

/-- Why an event is answered as it is, where the replica stands at `r` and `next` is the command
that is about to be applied, if any. -/
inductive Explained (options : Options) (r : Replica) (next : Option Request) (e : Event) :
    Response → Prop where
  -- The log has come to the command that was made of the request.
  | command (proc : ProcDB) (cmd : Request) (turn : next = some cmd) (asked : Produces e cmd) :
      Explained options r next e (r.answer options proc cmd)
  | looked (proc : ProcDB) (read : e.req.register = none ∧ e.req.needBoradcast = false)
      (live : r.owned e.req.sid ≠ none) :
      Explained options r next e (r.look options proc e.req)
  | gone (asked : e.req.register = none) (dead : r.owned e.req.sid = none) :
      Explained options r next e (Response.empty.withStatus expired)
  | renewed (sid : Sid) (asked : e.req.register.isSome = true ∧ e.req.sid? = some sid)
      (live : r.owned sid ≠ none) :
      Explained options r next e { Response.empty with sid := some sid }
  | lapsed (sid : Sid) (asked : e.req.register.isSome = true ∧ e.req.sid? = some sid)
      (dead : r.owned sid = none) :
      Explained options r next e { Response.empty with err := some ⟨.sessionExpired, []⟩ }
  | pinged (rep : Response) (asked : e.req.ping = true) (pong : rep.Pong) :
      Explained options r next e rep
  -- This server does not lead, or has just lost its leadership.
  | refused (status : Status) (elsewhere : status.code = .again ∨ status.code = .notLeader) :
      Explained options r next e (Response.empty.withStatus status)

variable {options : Options} {states : RaftStates} {env : Env} {server next : Server}
  {r : Replica} {frame : Machine.Frame} {cmd : Option Request}

section Local

variable {e : Event} {m after : Machine}

variable (env) in
theorem handleRead_answer {path : Str} (represents : Machine.Represents options frame m r)
    (live : r.owned e.req.sid ≠ none) (asks : e.req.read = some path) :
    { Response.empty with data := (handleRead options env e path m).2.1 }.withStatus
      (handleRead options env e path m).1 = r.look options env.proc e.req := by
  have watched := represents.onWatch_status e.req
  have here : m.sm.get e.req.sid ≠ none := mt (represents.get_none _).mp live
  rw [Replica.sessionStatus, if_pos (Option.isSome_iff_ne_none.mpr live)] at watched
  unfold handleRead Store.read
  rw [if_neg here, represents.get]
  simp only [Replica.look, asks]
  cases r.get options env.proc path with
  | error status => rfl
  | ok node =>
      simp only [Except.map]
      split
      · rw [watched]
        rfl
      · rfl

variable (env) in
theorem handleStat_answer {path : Str} (represents : Machine.Represents options frame m r)
    (live : r.owned e.req.sid ≠ none) (reads : e.req.read = none) (asks : e.req.stat = some path) :
    { Response.empty with data := (handleStat options env e path m).2.1 }.withStatus
      (handleStat options env e path m).1 = r.look options env.proc e.req := by
  have watched := represents.onWatch_status e.req
  have here : m.sm.get e.req.sid ≠ none := mt (represents.get_none _).mp live
  rw [Replica.sessionStatus, if_pos (Option.isSome_iff_ne_none.mpr live)] at watched
  unfold handleStat
  rw [if_neg here, represents.get]
  simp only [Replica.look, reads, asks]
  cases r.get options env.proc path with
  | error status =>
      dsimp only
      split
      · rw [watched]
        rfl
      · rfl
  | ok node =>
      dsimp only
      split
      · rw [watched]
        rfl
      · rfl

theorem handleRead_replies (e : Event) (path : Str) (m : Machine) :
    (handleRead options env e path m).2.2.replies = m.replies := by
  unfold handleRead
  split
  · rfl
  · split
    · rfl
    · split
      · exact m.onWatch_replies e.req
      · rfl

theorem handleStat_replies (e : Event) (path : Str) (m : Machine) :
    (handleStat options env e path m).2.2.replies = m.replies := by
  unfold handleStat
  split
  · rfl
  · split
    · split
      · exact m.onWatch_replies e.req
      · rfl
    · split
      · exact m.onWatch_replies e.req
      · rfl

theorem handleLocal_tells (represents : Machine.Represents options frame m r)
    (holds : m.HoldsPings) (live : r.owned e.req.sid ≠ none)
    (read : e.req.register = none ∧ e.req.needBoradcast = false)
    (done : handleLocal options env e m = .ok after) :
    Tells (Explained options r cmd) m after := by
  have pays := handleLocal_pays represents.sm done
  have looked : Explained options r cmd e (r.look options env.proc e.req) := .looked _ read live
  -- One answer to the event itself leaves the pings as they were.
  have single {middle : Machine} {rep : Response} (ends : middle.reply e rep = after)
      (quiet : middle.replies = m.replies) (told : Explained options r cmd e rep) :
      Tells (Explained options r cmd) m after := by
    obtain ⟨sent, same, balance, -⟩ := pays
    have replies : after.replies = m.replies ++ [(e, rep)] := by rw [← ends, ← quiet]; rfl
    cases List.append_cancel_left (replies.symm.trans same)
    exact ⟨⟨_, replies, List.forall_mem_singleton.mpr told⟩,
      fun old member => holds old (balance.cons_inv.mem_iff.mp member)⟩
  unfold handleLocal at done
  split at done
  next ping =>
    obtain ⟨⟨status, middle⟩, pinged, done⟩ := Runs.bind_ok.mp done
    cases done
    unfold handlePing at pinged
    split at pinged
    next gone => exact absurd ((represents.get_none _).mp gone) live
    next p here =>
      obtain ⟨sm, touched, pinged⟩ := Runs.bind_ok.mp pinged
      cases pinged
      have keeps := SessionManager.touch_keeps represents.sm touched
      have stored := (SessionManager.get_deref sm keeps.wellFormed e.req.sid p
        (by rw [SessionManager.get, keeps.sessions]; exact here)).1
      have renewed : Tells (Explained options r cmd) m { m with sm := sm } :=
        .still holds rfl (SessionManager.pings_touch touched)
      exact renewed.trans (Machine.takePing_tells stored ping renewed.holds fun _ _ => .pinged _)
  next silent =>
    split at done
    next path reads =>
      have same := handleRead_answer env represents live reads
      exact single (Except.ok.inj done) (handleRead_replies e path m) (same ▸ looked)
    next path reads stats =>
      have same := handleStat_answer env represents live reads stats
      exact single (Except.ok.inj done) (handleStat_replies e path m) (same ▸ looked)
    next reads stats =>
      have nothing : r.look options env.proc e.req = Response.empty := by
        simp [Replica.look, reads, stats]
      rw [nothing] at looked
      split at done
      · have watched := represents.onWatch_status e.req
        rw [Replica.sessionStatus, if_pos (Option.isSome_iff_ne_none.mpr live)] at watched
        have told : Explained options r cmd e
            (Response.empty.withStatus (m.onWatch e.req).1) := by
          rw [watched]
          exact looked
        exact single (Except.ok.inj done) (m.onWatch_replies e.req) told
      · exact single (Except.ok.inj done) rfl looked

end Local

-- Whether a session is live is all that most answers need of the replica.
def Knows (r : Replica) (sm : SessionManager) : Prop :=
  ∀ sid, sm.get sid = none ↔ r.owned sid = none

theorem handleRegister_tells {e : Event} {timeout : Int} (knows : Knows r server.machine.sm)
    (holds : server.machine.HoldsPings) (asked : e.req.register = some timeout) :
    Tells (Explained options r cmd) server.machine
      (handleRegister options e timeout server).machine := by
  have asks : e.req.register.isSome = true := by rw [asked]; rfl
  unfold handleRegister
  dsimp only
  split
  next sid named =>
    split
    next p live =>
      have renewed : Tells (Explained options r cmd) server.machine { server.machine with
          sm := server.machine.sm.modify p (Session.setTimeout (clampTimeout options timeout)) } :=
        .still holds rfl (server.machine.sm.pings_modify p fun _ => rfl)
      refine renewed.trans (.reply renewed.holds (.renewed sid ⟨asks, named⟩ fun dead => ?_))
      rw [(knows sid).mpr dead] at live
      cases live
    next dead => exact .reply holds (.lapsed sid ⟨asks, named⟩ ((knows sid).mp dead))
  · rw [replicate_machine]
    exact .still holds rfl rfl

theorem handleEvent_tells {e : Event}
    (represents : Machine.Represents options frame server.machine r)
    (holds : server.machine.HoldsPings) (done : handleEvent options env e server = .ok next) :
    Tells (Explained options r cmd) server.machine next.machine := by
  unfold handleEvent at done
  split at done
  next timeout asked =>
    cases done
    exact handleRegister_tells represents.get_none holds asked
  next asked =>
    split at done
    next gone =>
      cases done
      exact .reply holds (.gone asked ((represents.get_none _).mp gone))
    next here =>
      obtain ⟨sm, touched, done⟩ := Runs.bind_ok.mp done
      have renewed : Tells (Explained options r cmd) server.machine
          { server.machine with sm := sm } :=
        .still holds rfl (touchFor_pings touched)
      dsimp only at done
      split at done
      next =>
        cases done
        simpa [onMachine] using renewed
      next silent =>
        obtain ⟨m, handled, done⟩ := Runs.bind_ok.mp done
        cases done
        have live : r.owned e.req.sid ≠ none := mt (represents.get_none _).mpr here
        refine renewed.trans (handleLocal_tells (represents.quiet ?_) renewed.holds live
          ⟨asked, by simpa using silent⟩ handled)
        exact ⟨rfl, touchFor_keeps represents.sm touched⟩

theorem closeExpired_tells {p : SessionPtr} (knows : Knows r server.machine.sm)
    (holds : server.machine.HoldsPings) (done : closeExpired options env p server = .ok next) :
    Tells (Explained options r cmd) server.machine next.machine ∧ Knows r next.machine.sm := by
  unfold closeExpired at done
  split_ifs at done
  · unfold onSessionClosed at done
    dsimp only at done
    split_ifs at done
    have closed : Tells (Explained options r cmd) server.machine { server.machine with
        sm := server.machine.sm.modify p Session.close } :=
      .still holds rfl (server.machine.sm.pings_modify p fun _ => rfl)
    rw [handleEvent_closing] at done
    cases done
    split
    next gone => exact ⟨closed.trans (.reply closed.holds (.gone rfl ((knows _).mp gone))), knows⟩
    next here =>
      simp only [push, replicate_machine]
      exact ⟨closed, knows⟩
  · cases done
    exact ⟨.refl holds, knows⟩

theorem step_tells (knows : Knows r server.machine.sm) (holds : server.machine.HoldsPings)
    (done : step options env server = .ok next) :
    Tells (Explained options r cmd) server.machine next.machine :=
  (Runs.run_invariant_always (closeExpired options env)
    (fun other => Tells (Explained options r cmd) server.machine other.machine ∧
      Knows r other.machine.sm)
    (fun _ _ _ before closed =>
      have after := closeExpired_tells before.2 before.1.holds closed
      ⟨before.1.trans after.1, after.2⟩)
    server next _ ⟨.refl holds, knows⟩ done).1

theorem pingBacks_tells {α : Type} (address : α → SessionPtr) (entries : List α) {m : Machine}
    (holds : m.HoldsPings) :
    Tells (Explained options r cmd) m
      (entries.foldl (fun m entry => m.pingBack (address entry)) m) :=
  .of_pays holds (fun _ _ => .pinged _) (.foldl _ (fun m entry => .pingBack (address entry) m) _ _)

theorem onCommand_tells {req : Request}
    (represents : Machine.Represents options frame server.machine r)
    (holds : server.machine.HoldsPings)
    (asked : server.state = .leader → ∀ e ∈ server.requests.head?, Produces e req)
    (done : onCommand options env req server = .ok next) :
    Tells (Explained options r (some req)) server.machine next.machine := by
  obtain ⟨rep, m, executed, outcome⟩ := onCommand_ok done
  have applied : Tells (Explained options r (some req)) server.machine m :=
    .of_pays holds (fun _ _ => .pinged _) (Machine.execute_pays executed)
  rcases outcome with ⟨-, rfl⟩ | ⟨e, rest, leads, front, rfl⟩
  · exact applied
  · have answered := Machine.execute_answer represents executed
    subst answered
    exact applied.trans (.reply applied.holds
      (.command env.proc req rfl (asked leads e (by rw [front]; rfl))))

theorem turn_tells {ready : Ready} (represents : Machine.Represents options frame server.machine r)
    (holds : server.machine.HoldsPings)
    -- A leader that applies a command has the request for it at the front of its queue.
    (fronted : ∀ req, server.applies ready = some req → server.state = .leader →
      ∀ e ∈ server.requests.head?, Produces e req)
    (done : server.turn options states env ready = .ok next) :
    Tells (Explained options r (server.applies ready)) server.machine next.machine := by
  cases turn_calls done with
  | move | lead => exact .refl holds
  | await =>
      rw [replicate_machine]
      exact .refl holds
  | @enter sm _ _ reset stepped =>
      have timed := SessionManager.resetTimer_keeps represents.sm reset
      have cleared := SessionManager.resetWatchers_keeps sm timed.wellFormed
      have fresh : Tells (Explained options r (server.applies ready)) server.machine
          { server.machine with sm := sm.resetWatchers, wm := [] } :=
        .still holds rfl (SessionManager.pings_entered reset)
      refine fresh.trans (step_tells (fun sid => ?_) fresh.holds stepped)
      rw [SessionManager.get, cleared.sessions, timed.sessions]
      exact represents.get_none sid
  | @event e rest _ _ queue handled =>
      have told : Tells (Explained options r (server.applies ready))
          { server with eventch := rest }.machine next.machine :=
        handleEvent_tells (by exact represents) holds handled
      exact told
  | refuse queue =>
      refine .reply holds (.refused _ ?_)
      unfold notLeading
      split
      · exact .inl rfl
      · exact .inr rfl
  | @command entry rest _ applying queue applied =>
      have told : Tells (Explained options r (some entry.cmd)) { server with cmdch := rest }.machine
          next.machine :=
        onCommand_tells (by exact represents) holds (fronted entry.cmd applying) applied
      rw [applying]
      exact told
  | timer _ stepped =>
      have before : Tells (Explained options r (server.applies ready)) server.machine _ :=
        step_tells represents.get_none holds stepped
      exact before.trans (pingBacks_tells id _ before.holds)

theorem onState_tells (st : Int) (holds : server.machine.HoldsPings) :
    Tells (Explained options r cmd) server.machine (server.onState st).machine := by
  have refused (requests : List Event) (m : Machine) (holds : m.HoldsPings) :
      Tells (Explained options r cmd) m (requests.foldl (fun m e => Machine.reply e
        (Response.empty.withStatus (Status.again (text "net error, try again"))) m) m) := by
    induction requests generalizing m with
    | nil => exact .refl holds
    | cons e rest ih =>
        have first : Tells (Explained options r cmd) m (Machine.reply e
            (Response.empty.withStatus (Status.again (text "net error, try again"))) m) :=
          .reply holds (.refused _ (.inl rfl))
        exact first.trans (ih _ first.holds)
  have before := refused server.requests server.machine holds
  exact before.trans (pingBacks_tells Prod.snd _ before.holds)

theorem act_tells {action : Action} (stands : Stands options server r)
    (holds : server.machine.HoldsPings) (pairs : Pairs action server)
    (taken : server.act options states action = .ok next) :
    Tells (Explained options r (action.applies server)) server.machine next.machine := by
  obtain ⟨frame, represents⟩ := stands
  cases action with
  | receive req =>
      cases taken
      exact .refl holds
  | notify st =>
      cases taken
      exact onState_tells st holds
  | stop =>
      cases taken
      exact .refl holds
  | deliver =>
      cases taken
      unfold deliver
      split
      · exact .refl holds
      · exact .still holds rfl rfl
  | accept kept cmds =>
      cases taken
      unfold accept
      split <;> exact .refl holds
  | turn env ready =>
      refine turn_tells represents holds (fun cmd applying leads e front => ?_) taken
      obtain ⟨first, more, -, -, queue, -, -, produces⟩ := pairs cmd applying leads
      rw [queue] at front
      cases front
      exact produces
  | restart env =>
      obtain ⟨⟨m, index⟩, loaded, done⟩ := Runs.bind_ok.mp taken
      cases done
      obtain ⟨replies, held⟩ := Machine.load_silent loaded
      refine ⟨⟨[], by rw [List.append_nil]; exact replies, List.forall_mem_nil _⟩, ?_⟩
      intro e member
      rw [held] at member
      cases member

theorem initial_silent {first : Server} (started : initial options env = .ok first) :
    first.machine.replies = [] ∧ first.machine.HoldsPings := by
  obtain ⟨⟨m, index⟩, loaded, done⟩ := Runs.bind_ok.mp started
  cases done
  obtain ⟨replies, held⟩ := Machine.load_silent loaded
  exact ⟨replies, fun e member => by rw [held] at member; cases member⟩

theorem Stands.unique {other : Replica} (one : Stands options server r)
    (two : Stands options server other) : r = other := by
  obtain ⟨_, former⟩ := one
  obtain ⟨_, latter⟩ := two
  exact former.view.symm.trans latter.view

theorem answers_follow_log {first : Server} {actions : List Action}
    (started : initial options env = .ok first)
    (calm : Runs.Meets (act options states) (Calm options states) first actions)
    (reached : Runs.run (act options states) first actions = .ok server)
    {index : Nat} {e : Event} {rep : Response}
    (answered : server.machine.replies[index]? = some (e, rep)) :
    ∃ past action rest current next r, actions = past ++ action :: rest ∧
      Runs.run (act options states) first past = .ok current ∧
      current.act options states action = .ok next ∧
      current.machine.replies.length ≤ index ∧ next.machine.replies[index]? = some (e, rep) ∧
      Stands options current r ∧
      ((∀ earlier ∈ past, earlier.isRestart = false) →
        Runs.run (Replica.apply options) (Machine.stored (Store.freshDb options))
          (commands options states first past) = .ok r) ∧
      Explained options r (action.applies current) e rep := by
  obtain ⟨silent, holds⟩ := initial_silent started
  have traced := Runs.run_appended (act options states) (Calm options states)
    (fun current => (Reachable options states current ∧ Paired states current) ∧
      current.machine.HoldsPings)
    (fun current => current.machine.replies)
    (fun action current answer => ∃ r, Stands options current r ∧
      Explained options r (action.applies current) answer.1 answer.2)
    (fun action current next before calm taken => by
      obtain ⟨r, stands⟩ := reachable_stands before.1.1
      have tells := act_tells stands before.2 (before.1.2.pairs calm) taken
      exact ⟨⟨before.1.1.act taken, before.1.2.act before.1.1 calm taken⟩, tells.holds⟩)
    (fun action current next before calm taken => by
      obtain ⟨r, stands⟩ := reachable_stands before.1.1
      obtain ⟨sent, replies, told⟩ :=
        (act_tells stands before.2 (before.1.2.pairs calm) taken).sent
      exact ⟨sent, replies, fun answer member => ⟨r, stands, told answer member⟩⟩)
    first server actions
    ⟨⟨⟨env, first, [], started, rfl⟩, paired_initial started⟩, holds⟩ calm reached index (e, rep)
    answered
  rcases traced with early |
    ⟨past, action, rest, current, next, same, before, taken, new, given, r, stands, told⟩
  · rw [silent] at early
    cases early
  · refine ⟨past, action, rest, current, next, r, same, before, taken, new, given, stands,
      fun running => ?_, told⟩
    obtain ⟨other, origin, begun, standing, reloaded, -⟩ := initial_ok options env
    cases started.symm.trans begun
    cases reloaded_fresh reloaded
    obtain ⟨final, applied, ends⟩ := stands_run past first current _ standing running before
    rw [applied, stands.unique ends]

theorem answers_follow_log_joined : ∃ (server current next : Server) (e : Event) (rep : Response)
    (r : Replica) (action : Action), server.machine.replies = [(e, rep)] ∧
      current.act Options.standard .sample action = .ok next ∧
      current.machine.replies = [] ∧ next.machine.replies[0]? = some (e, rep) ∧
      Stands Options.standard current r ∧
      Explained Options.standard r (action.applies current) e rep := by
  have found : Runs.passes (initial Options.standard (.still 0)) (fun first =>
      decide (Runs.Meets (act Options.standard .sample) (Calm Options.standard .sample) first
        joined) && Runs.passes (Runs.run (act Options.standard .sample) first joined) fun server =>
          decide (server.machine.replies.length = 1)) = true := by
    decide +kernel
  simp only [Runs.passes_iff, Bool.and_eq_true, decide_eq_true_eq] at found
  obtain ⟨first, started, calm, server, reached, single⟩ := found
  obtain ⟨⟨e, rep⟩, replies⟩ := List.length_eq_one_iff.mp single
  have answered : server.machine.replies[0]? = some (e, rep) := by rw [replies]; rfl
  obtain ⟨past, action, rest, current, next, r, -, -, taken, earlier, given, stands, -, told⟩ :=
    answers_follow_log started calm reached answered
  exact ⟨server, current, next, e, rep, r, action, replies, taken,
    List.length_eq_zero_iff.mp (Nat.le_zero.mp earlier), given, stands, told⟩

end Server

end Pyxis
