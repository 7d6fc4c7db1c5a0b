import Pyxis.Server.Advance

set_option autoImplicit false

namespace Pyxis.Server

open Machine (Tends Moves)

def nextState (states : RaftStates) (state : State) (st : Int) : State :=
  if st = states.stop then .stop
  else match state with
    | .follower => if st = states.leader then .waiter else .follower
    | .stop => .stop
    | .leader | .waiter => .follower

def EndsWait (server : Server) (entry : Entry) : Prop :=
  entry.cmd.ping = true ∧ entry.cmd.sid = server.tag

instance (server : Server) (entry : Entry) : Decidable (EndsWait server entry) :=
  inferInstanceAs (Decidable (_ ∧ _))

def applies (ready : Ready) (server : Server) : Option Request :=
  match ready, server.inLoop, server.state, server.cmdch with
  | .command, true, .leader, entry :: _ => some entry.cmd
  | .command, true, .follower, entry :: _ => some entry.cmd
  | .command, true, .waiter, entry :: _ => if EndsWait server entry then none else some entry.cmd
  | _, _, _, _ => none

-- What the main loop does with a command from `cmdch_`: it hands it to `onCommand`, or it ends
-- its wait.
inductive Taking where
  | applied (entry : Entry)
  | ended (entry : Entry)
  deriving DecidableEq, Repr

namespace Taking

def entry : Taking → Entry
  | applied entry | ended entry => entry

def cmd? : Taking → Option Request
  | applied entry => some entry.cmd
  | ended _ => none

-- A command without a body changes nothing.
def change? (taking : Taking) : Option Request :=
  taking.cmd?.filter fun cmd => cmd.body ≠ .none

end Taking

def takes (ready : Ready) (server : Server) : Option Taking :=
  match ready, server.inLoop, server.state, server.cmdch with
  | .command, true, .leader, entry :: _ => some (.applied entry)
  | .command, true, .follower, entry :: _ => some (.applied entry)
  | .command, true, .waiter, entry :: _ =>
      some (if EndsWait server entry then .ended entry else .applied entry)
  | _, _, _, _ => none

theorem applies_takes (ready : Ready) (server : Server) :
    server.applies ready = (server.takes ready).bind Taking.cmd? := by
  unfold applies takes
  cases ready with
  | command =>
      cases server.inLoop <;> cases server.state <;> cases server.cmdch <;> simp [Taking.cmd?]
      split_ifs <;> rfl
  | _ => rfl

variable (options : Options) (states : RaftStates) (env : Env) (ready : Ready)

def Enqueues (server : Server) : Prop :=
  -- `Step` finds a session to close, or the event at the head of `eventch_` is one to broadcast.
  (∃ p ∈ expiring env ready server, (server.machine.sm.deref p).active = true) ∨
    (ready = .event ∧ server.inLoop = true ∧
      ∃ e ∈ server.eventch.head?, (broadcasts options e server).isSome = true)

instance (server : Server) : Decidable (Enqueues options env ready server) :=
  inferInstanceAs (Decidable (_ ∨ _))

def permits (server : Server) : Machine.Permits :=
  match ready, server.eventch with
  | .event, e :: _ => eventPermits options env e
  | .timer, _ => .closing (server.machine.sm.due (env.clock 0))
  | _, _ => .nothing

/-- Everything that one turn of `mainLoop` can do. -/
inductive Turn (server : Server) : Server → Prop
  | advance {after : Server} (pushes : List Push) (leads : server.state = .leader)
      (noCommand : applies ready server = none)
      (advances : Advances server after pushes)
      (entered : server.inLoop = false →
        ∃ sm, server.machine.sm.resetTimer (fun call => env.clock (call + 2)) = .ok sm ∧
          Moves options .leader (.closing (sm.resetWatchers.due (env.clock 0)))
            { server.machine with sm := sm.resetWatchers, wm := [] } after.machine)
      (moves : server.inLoop = true →
        Moves options .leader (permits options env ready server) server.machine after.machine)
      (quiet : (∀ p ∈ expiring env ready server, (server.machine.sm.deref p).active = false) →
        Machine.Quiet server.machine after.machine)
      (still : ¬ Enqueues options env ready server → after.requests = server.requests) :
      Turn server after
  | idle {after : Server} (noCommand : applies ready server = none)
      (advances : Advances server after [])
      (moves : Moves options server.state .nothing server.machine after.machine)
      (waits : server.state = .waiter → after = server) : Turn server after
  | await (waits : server.state = .waiter) (first : server.inLoop = false) :
      Turn server (replicate (Request.tagged (UInt64.ofInt (env.clock 0))) none
        { server with inLoop := true, tag := UInt64.ofInt (env.clock 0) })
  | command {after : Server} (entry : Entry) (rest : List Entry)
      (applying : applies ready server = some entry.cmd) (queue : server.cmdch = entry :: rest)
      (waits : server.state = .waiter → ¬ EndsWait server entry)
      (applied : onCommand options env entry.cmd { server with cmdch := rest } = .ok after) :
      Turn server after
  | lead (entry : Entry) (rest : List Entry) (noCommand : applies ready server = none)
      (chosen : ready = .command) (waits : server.state = .waiter) (inLoop : server.inLoop = true)
      (queue : server.cmdch = entry :: rest) (ends : EndsWait server entry) :
      Turn server { server with cmdch := rest, state := .leader, inLoop := false }
  | change (st : Int) (rest : List Int) (inLoop : Bool)
      (noCommand : applies ready server = none) (queue : server.statech = st :: rest)
      (fresh : nextState states server.state st = .waiter → inLoop = false) :
      Turn server
        { server with
          statech := rest, state := nextState states server.state st, inLoop := inLoop }

variable {options states env ready} {server after : Server}

theorem applies_empty (empty : server.cmdch = []) : applies ready server = none := by
  simp [applies, empty]

theorem applies_some {cmd : Request} (applying : applies ready server = some cmd) :
    ∃ entry rest, server.cmdch = entry :: rest ∧ entry.cmd = cmd := by
  cases queue : server.cmdch with
  | nil =>
      rw [applies_empty queue] at applying
      cases applying
  | cons entry rest =>
      refine ⟨entry, rest, rfl, ?_⟩
      unfold applies at applying
      rw [queue] at applying
      split at applying
      · simp_all
      · simp_all
      · split_ifs at applying
        simp_all
      · cases applying

theorem closed_of_not_enqueues (none : ¬ Enqueues options env ready server) :
    ∀ p ∈ expiring env ready server, (server.machine.sm.deref p).active = false := by
  intro p member
  by_contra active
  exact none (.inl ⟨p, member, by simpa using active⟩)

theorem turn_idle (wf : server.machine.sm.WellFormed) (noCommand : applies ready server = none) :
    Turn options states env ready server server :=
  .idle noCommand (advances_quiet server server.machine (.refl wf)) .refl fun _ => rfl

theorem leaderLoop_cases (wf : server.machine.sm.WellFormed) (leads : server.state = .leader)
    (inLoop : server.inLoop = true)
    (taken : leaderLoop options states env ready server = .ok after) :
    Turn options states env ready server after := by
  cases ready with
  | state =>
      cases queue : server.statech with
      | nil =>
          simp only [leaderLoop, queue, Except.ok.injEq] at taken
          exact taken ▸ turn_idle wf rfl
      | cons st rest =>
          simp only [leaderLoop, queue, Except.ok.injEq] at taken
          have next := @Turn.change options states env .state server st rest false rfl queue
            fun _ => rfl
          simp only [nextState, leads] at next
          exact taken ▸ next
  | event =>
      cases queue : server.eventch with
      | nil =>
          simp only [leaderLoop, queue, Except.ok.injEq] at taken
          exact taken ▸ turn_idle wf rfl
      | cons e rest =>
          simp only [leaderLoop, queue] at taken
          obtain ⟨other, pushes, done, advances, tends, sent⟩ := handleEvent_advances options env
            .leader e { server with eventch := rest } wf
          rw [done] at taken
          cases taken
          refine .advance pushes leads rfl
            (advances.outside server.eventch _ server.nextEvent _ server.inLoop _)
            (by simp [inLoop]) (fun _ => by simpa only [permits, queue] using tends.moves)
            (fun _ => tends.quiet) fun still => ?_
          have refused : broadcasts options e { server with eventch := rest } = none := by
            by_contra sends
            exact still (.inr ⟨rfl, inLoop, e, by simp [queue],
              Option.isSome_iff_ne_none.mpr sends⟩)
          simp [advances.requests, sent, refused]
  | command =>
      cases queue : server.cmdch with
      | nil =>
          simp only [leaderLoop, queue, Except.ok.injEq] at taken
          exact taken ▸ turn_idle wf (applies_empty queue)
      | cons entry rest =>
          simp only [leaderLoop, queue] at taken
          exact .command entry rest (by simp [applies, inLoop, leads, queue]) queue
            (by simp [leads]) taken
  | timer =>
      obtain ⟨other, pushes, done, advances, moves⟩ := step_advances options env server wf
      simp only [leaderLoop, done, bind, Except.bind, pure, Except.pure, Except.ok.injEq] at taken
      subst taken
      have tends : Tends options .leader .nothing other.machine
          ((other.machine.sm.getSessions (nextCheck options env)).foldl (fun m p => m.pingBack p)
            other.machine) :=
        .pingBacks _ _ advances.wellFormed fun p member =>
          getSessions_live _ advances.wellFormed _ p member
      have same (closed : ∀ p ∈ expiring env .timer server,
          (server.machine.sm.deref p).active = false) : other = server := by
        simp only [expiring, leads, inLoop] at closed
        rw [step_closed options env server closed] at done
        cases done
        rfl
      refine .advance (pushes ++ []) leads rfl (advances.trans (advances_quiet other _ tends.quiet))
        (by simp [inLoop])
        (fun _ => moves.trans (tends.moves.within (Machine.Permits.nothing_within _)))
        (fun closed => ?_) fun still => ?_
      · cases same closed
        exact tends.quiet
      · cases same (closed_of_not_enqueues still)
        rfl

theorem followerLoop_cases (wf : server.machine.sm.WellFormed) (follows : server.state = .follower)
    (inLoop : server.inLoop = true)
    (taken : followerLoop options states env ready server = .ok after) :
    Turn options states env ready server after := by
  cases ready with
  | state =>
      cases queue : server.statech with
      | nil =>
          simp only [followerLoop, queue, Except.ok.injEq] at taken
          exact taken ▸ turn_idle wf rfl
      | cons st rest =>
          have next := @Turn.change options states env .state server st rest
          simp only [followerLoop, queue] at taken
          split_ifs at taken with stops leads <;> cases taken
          · have stopped : nextState states server.state st = .stop := by simp [nextState, stops]
            have changed := next false rfl queue fun _ => rfl
            rwa [stopped] at changed
          · have waits : nextState states server.state st = .waiter := by
              simp only [nextState, follows, if_neg stops]
              exact if_pos leads
            have changed := next false rfl queue fun _ => rfl
            rwa [waits] at changed
          · have stays : nextState states server.state st = .follower := by
              simp [nextState, follows, stops, leads]
            have changed := next server.inLoop rfl queue (by rw [stays]; simp)
            rw [stays, ← follows] at changed
            exact changed
  | event =>
      cases queue : server.eventch with
      | nil =>
          simp only [followerLoop, queue, Except.ok.injEq] at taken
          exact taken ▸ turn_idle wf rfl
      | cons e rest =>
          simp only [followerLoop, queue, Except.ok.injEq] at taken
          subst taken
          have tends : Tends options server.state .nothing server.machine
              (server.machine.reply e (Response.empty.withStatus (notLeading options env))) :=
            .reply e _ (Response.watch_withStatus _ _) wf
          exact .idle rfl ((advances_quiet server _ tends.quiet).outside server.eventch
            rest server.nextEvent server.nextEvent server.inLoop server.inLoop) tends.moves
            (by simp [follows])
  | command =>
      cases queue : server.cmdch with
      | nil =>
          simp only [followerLoop, queue, Except.ok.injEq] at taken
          exact taken ▸ turn_idle wf (applies_empty queue)
      | cons entry rest =>
          simp only [followerLoop, queue] at taken
          exact .command entry rest (by simp [applies, inLoop, follows, queue]) queue
            (by simp [follows]) taken
  | timer =>
      simp only [followerLoop, Except.ok.injEq] at taken
      exact taken ▸ turn_idle wf rfl

theorem waitLoop_cases (wf : server.machine.sm.WellFormed) (waits : server.state = .waiter)
    (inLoop : server.inLoop = true) (taken : waitLoop options states env ready server = .ok after) :
    Turn options states env ready server after := by
  cases ready with
  | state =>
      cases queue : server.statech with
      | nil =>
          simp only [waitLoop, queue, Except.ok.injEq] at taken
          exact taken ▸ turn_idle wf rfl
      | cons st rest =>
          have next := @Turn.change options states env .state server st rest false rfl queue
            fun _ => rfl
          simp only [waitLoop, queue] at taken
          split_ifs at taken with stops zero <;> cases taken
          · simpa only [nextState, waits, stops, if_true] using next
          · simpa only [nextState, waits, stops, if_false] using next
  | command =>
      cases queue : server.cmdch with
      | nil =>
          simp only [waitLoop, queue, Except.ok.injEq] at taken
          exact taken ▸ turn_idle wf (applies_empty queue)
      | cons entry rest =>
          simp only [waitLoop, queue] at taken
          split_ifs at taken with ends
          · cases taken
            exact .lead entry rest (by simp [applies, inLoop, waits, queue, EndsWait, ends]) rfl
              waits inLoop queue ends
          · exact .command entry rest (by simp [applies, inLoop, waits, queue, EndsWait, ends])
              queue (fun _ => ends) taken
  | event =>
      simp only [waitLoop, Except.ok.injEq] at taken
      exact taken ▸ turn_idle wf rfl
  | timer =>
      simp only [waitLoop, Except.ok.injEq] at taken
      exact taken ▸ turn_idle wf rfl

theorem turn_cases (wf : server.machine.sm.WellFormed)
    (taken : server.turn options states env ready = .ok after) :
    Turn options states env ready server after := by
  unfold turn at taken
  split at taken
  next first =>
    have noCommand : applies ready server = none := by simp [applies, first]
    unfold enter at taken
    split at taken
    next state =>
      obtain ⟨other, pushes, entered, advances, reset, quiet⟩ :=
        enter_leader_advances options env ready server wf state first
      simp only [enter, state] at entered
      rw [← state] at entered
      rw [entered] at taken
      cases taken
      exact .advance pushes state noCommand advances (fun _ => reset) (by simp [first])
        (fun closed => (quiet closed).1)
        fun still => (quiet (closed_of_not_enqueues still)).2
    next state =>
      cases taken
      exact .await state first
    next state =>
      cases taken
      exact .idle noCommand ((advances_quiet server server.machine (.refl wf)).outside
        server.eventch server.eventch server.nextEvent server.nextEvent server.inLoop true) .refl
        (by simp [state])
    next =>
      cases taken
      exact turn_idle wf noCommand
  next later =>
    have inLoop : server.inLoop = true := by simpa using later
    split at taken
    next state => exact leaderLoop_cases wf state inLoop taken
    next state => exact waitLoop_cases wf state inLoop taken
    next state => exact followerLoop_cases wf state inLoop taken
    next state =>
      cases taken
      exact turn_idle wf (by simp [applies, state])

variable (options env ready) in
inductive Calls (server : Server) : Server → Prop
  | move {state : State} {inLoop : Bool} {statech : List Int}
      (noCommand : applies ready server = none) :
      Calls server { server with state := state, inLoop := inLoop, statech := statech }
  | lead {entry : Entry} {rest : List Entry} (noCommand : applies ready server = none)
      (queue : server.cmdch = entry :: rest) (ends : EndsWait server entry) :
      Calls server { server with cmdch := rest, state := .leader, inLoop := false }
  | await (noCommand : applies ready server = none)
      (waits : server.state = .waiter ∧ server.inLoop = false) :
      Calls server (replicate (Request.tagged (UInt64.ofInt (env.clock 0))) none
        { server with inLoop := true, tag := UInt64.ofInt (env.clock 0) })
  | enter {sm : SessionManager} {after : Server} (noCommand : applies ready server = none)
      (reset : server.machine.sm.resetTimer (fun call => env.clock (call + 2)) = .ok sm)
      (stepped : step options env
        { server with
          inLoop := true
          machine := { server.machine with sm := sm.resetWatchers, wm := [] } } = .ok after)
      (leads : server.state = .leader ∧ server.inLoop = false) : Calls server after
  | event {e : Event} {rest : List Event} {after : Server}
      (noCommand : applies ready server = none) (queue : server.eventch = e :: rest)
      (handled : handleEvent options env e { server with eventch := rest } = .ok after)
      (leads : server.state = .leader ∧ server.inLoop = true ∧ ready = .event) : Calls server after
  | refuse {e : Event} {rest : List Event} (noCommand : applies ready server = none)
      (queue : server.eventch = e :: rest) :
      Calls server
        { server with
          eventch := rest
          machine := server.machine.reply e
            (Response.empty.withStatus (notLeading options env)) }
  | command {entry : Entry} {rest : List Entry} {after : Server}
      (applying : applies ready server = some entry.cmd) (queue : server.cmdch = entry :: rest)
      (applied : onCommand options env entry.cmd { server with cmdch := rest } = .ok after) :
      Calls server after
  | timer {after : Server} (noCommand : applies ready server = none)
      (stepped : step options env server = .ok after)
      (leads : server.state = .leader ∧ server.inLoop = true ∧ ready = .timer) :
      Calls server (after.onMachine
        ((after.machine.sm.getSessions (nextCheck options env)).foldl (fun m p => m.pingBack p)
          after.machine))

theorem leaderLoop_calls (leads : server.state = .leader) (inLoop : server.inLoop = true)
    (taken : leaderLoop options states env ready server = .ok after) :
    Calls options env ready server after := by
  cases ready with
  | state =>
      simp only [leaderLoop] at taken
      split at taken <;> cases taken <;> exact .move rfl
  | event =>
      simp only [leaderLoop] at taken
      split at taken
      · cases taken
        exact .move rfl
      next e rest queue => exact .event rfl queue taken ⟨leads, inLoop, rfl⟩
  | command =>
      simp only [leaderLoop] at taken
      split at taken
      next empty =>
        cases taken
        exact .move (applies_empty empty)
      next entry rest queue =>
        exact .command (by simp [applies, inLoop, leads, queue]) queue taken
  | timer =>
      obtain ⟨stepped, done, taken⟩ := Runs.bind_ok.mp taken
      cases taken
      exact .timer rfl done ⟨leads, inLoop, rfl⟩

theorem followerLoop_calls (follows : server.state = .follower) (inLoop : server.inLoop = true)
    (taken : followerLoop options states env ready server = .ok after) :
    Calls options env ready server after := by
  cases ready with
  | state =>
      simp only [followerLoop] at taken
      split at taken
      · cases taken
        exact .move rfl
      · split_ifs at taken <;> cases taken <;> exact .move rfl
  | event =>
      simp only [followerLoop] at taken
      split at taken
      · cases taken
        exact .move rfl
      next e rest queue =>
        cases taken
        exact .refuse rfl queue
  | command =>
      simp only [followerLoop] at taken
      split at taken
      next empty =>
        cases taken
        exact .move (applies_empty empty)
      next entry rest queue =>
        exact .command (by simp [applies, inLoop, follows, queue]) queue taken
  | timer =>
      cases taken
      exact .move rfl

theorem waitLoop_calls (waits : server.state = .waiter) (inLoop : server.inLoop = true)
    (taken : waitLoop options states env ready server = .ok after) :
    Calls options env ready server after := by
  cases ready with
  | state =>
      simp only [waitLoop] at taken
      split at taken
      · cases taken
        exact .move rfl
      · split_ifs at taken <;> cases taken <;> exact .move rfl
  | command =>
      simp only [waitLoop] at taken
      split at taken
      next empty =>
        cases taken
        exact .move (applies_empty empty)
      next entry rest queue =>
        split_ifs at taken with ends
        · cases taken
          exact .lead (by simp [applies, inLoop, waits, queue, EndsWait, ends]) queue ends
        · exact .command (by simp [applies, inLoop, waits, queue, EndsWait, ends]) queue taken
  | event =>
      cases taken
      exact .move rfl
  | timer =>
      cases taken
      exact .move rfl

theorem turn_calls (taken : server.turn options states env ready = .ok after) :
    Calls options env ready server after := by
  unfold turn at taken
  split at taken
  next first =>
    have noCommand : applies ready server = none := by simp [applies, first]
    unfold enter at taken
    split at taken
    next leads =>
      obtain ⟨sm, reset, stepped⟩ := Runs.bind_ok.mp taken
      exact .enter noCommand reset stepped ⟨leads, by simpa using first⟩
    next waits =>
      cases taken
      exact .await noCommand ⟨waits, by simpa using first⟩
    · cases taken
      exact .move noCommand
    · cases taken
      exact .move noCommand
  next later =>
    have inLoop : server.inLoop = true := by simpa using later
    split at taken
    next state => exact leaderLoop_calls state inLoop taken
    next state => exact waitLoop_calls state inLoop taken
    next state => exact followerLoop_calls state inLoop taken
    next state =>
      cases taken
      exact .move (by simp [applies, state])

theorem onState_tends (options : Options) (state : State) (st : Int) (server : Server)
    (wf : server.machine.sm.WellFormed) :
    Tends options state .nothing server.machine (server.onState st).machine := by
  have answered : Tends options state .nothing server.machine
      (server.requests.foldl (fun m e => m.reply e (Response.empty.withStatus
        (Status.again (text "net error, try again")))) server.machine) :=
    .foldl _ _ _ wf fun e _ other _ wf => .reply e _ (Response.watch_withStatus _ _) wf
  refine answered.trans (.foldl _ _ _ answered.quiet.sm.wellFormed
    fun entry listed other sessions wf => ?_)
  have live : other.sm.get entry.1 = some entry.2 := by
    rw [SessionManager.get, sessions]
    exact Std.ExtTreeMap.mem_toList_iff_getElem?_eq_some.mp listed
  exact .pingBack live wf

end Pyxis.Server
