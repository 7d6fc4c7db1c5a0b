import Pyxis.Client.Read
import Pyxis.Server.Expiry

set_option autoImplicit false

open Std (ExtTreeMap)

namespace Pyxis

namespace Machine

-- A pair for the path is in a response since, or waits for the next ping.
def Reported (sid : Sid) (path : Str) (m after : Machine) : Prop :=
  ∃ replies e, after.replies = m.replies ++ replies ∧
    (path, e) ∈ answered sid replies ++ (after.owed sid).2

variable {sid : Sid} {path : Str} {first second third : Machine}

theorem Reported.later (reported : Reported sid path first second)
    (accounted : Accounted sid second third) : Reported sid path first third := by
  obtain ⟨sent, e, replies, told⟩ := reported
  obtain ⟨more, trace, grown, -, balance⟩ := accounted
  refine ⟨sent ++ more, e, by rw [grown, replies, List.append_assoc], ?_⟩
  rw [answered, List.filterMap_append, List.append_assoc]
  rcases List.mem_append.mp told with out | pending
  · exact List.mem_append_left _ out
  · exact List.mem_append_right _ (balance.symm.subset (List.mem_append_left _ pending))

theorem Reported.earlier (accounted : Accounted sid first second)
    (reported : Reported sid path second third) : Reported sid path first third := by
  obtain ⟨sent, -, replies, -, -⟩ := accounted
  obtain ⟨more, e, grown, told⟩ := reported
  refine ⟨sent ++ more, e, by rw [grown, replies, List.append_assoc], ?_⟩
  rw [answered, List.filterMap_append, List.append_assoc]
  exact List.mem_append_right _ told

end Machine

namespace Server

open Machine (Accounted Reported)

variable {options : Options} {states : RaftStates} {server next : Server} {action : Action}
  {sid : Sid}

theorem act_live {p : SessionPtr} (reachable : Reachable options states server)
    (leads : Leads sid action server) (live : server.machine.sm.get sid = some p)
    (taken : server.act options states action = .ok next) :
    next.machine.sm.get sid = some p := by
  obtain ⟨r, stands⟩ := reachable_stands reachable
  cases act_works stands leads.2.1 taken with
  | moves moves =>
      rcases moves.paced stands.wellFormed live actionPermits_once with paced | ⟨-, removed⟩
      · exact paced.live
      · exact absurd removed leads.2.spares
  | entered env ready sm is leader first reset moves =>
      rw [leads.1.2] at first
      cases first

theorem act_watching {path : Str} {w : Watcher} (reachable : Reachable options states server)
    (leads : Leads sid action server) (held : server.machine.watching? sid path = some w)
    (taken : server.act options states action = .ok next) :
    next.machine.watching? sid path = some w ∨
      Reported sid path server.machine next.machine := by
  obtain ⟨r, stands, agree⟩ := reachable_agree reachable
  obtain ⟨-, -, posted⟩ := reachable_posted reachable
  obtain ⟨-, -, agree'⟩ := reachable_agree (reachable.act taken)
  obtain ⟨entered, rfl⟩ := agree.of_watching held
  obtain ⟨grown, attends⟩ := act_attends reachable leads
    ⟨[], ⟨(List.append_nil _).symm, fun _ => entered, by simp⟩⟩ taken
  by_cases untold : ∀ t ∈ grown, t.tells w.sid path = false
  · obtain ⟨p, live, there⟩ := (agree'.both path w).mp (attends.entered untold)
    exact .inl (by simp [Machine.watching?, live, there])
  · simp only [not_forall, Bool.not_eq_false] at untold
    obtain ⟨t, member, tells⟩ := untold
    obtain ⟨replies, trace, sent, traced, balance⟩ := act_accounted stands posted leads.2 taken
    cases List.append_cancel_left (traced.symm.trans attends.trace)
    cases t with
    | triger e => cases tells
    | notify other e =>
        obtain ⟨owner, place⟩ := of_decide_eq_true tells
        refine .inr ⟨replies, e, sent, balance.symm.subset (List.mem_append_right _ ?_)⟩
        exact List.mem_filterMap.mpr ⟨_, member, by simp [Trace.notice?, owner, place]⟩

end Server

namespace Client

variable {Callback : Type}

namespace WatchManager

-- `Walk` copies the table under the lock and runs over the copy.
def walk (wm : WatchManager Callback) : List (Watcher Callback) :=
  wm.watchers.toList.map fun entry => entry.2

end WatchManager

namespace Watcher

def request (watcher : Watcher Callback) : Request :=
  { Request.empty with watch := some ⟨watcher.path, watcher.mask, watcher.recursive⟩ }

end Watcher

/-- The thread of `reregisterWatchers`, blocked while its call is `waiting`. A watcher is `done`
with the watch that the session had at its path as the call was handled, `refused` by an error in
the response, or `failed` on the way to the server. -/
structure Rewatch (Callback : Type) where
  client : Impl Callback
  server : Server
  todo : List (Watcher Callback)
  waiting : Option (Event × Watcher Callback)
  done : List (Watcher Callback × Option Pyxis.Watcher)
  refused : List (Watcher Callback)
  failed : List (Watcher Callback)

namespace Rewatch

inductive Input where
  | call
  -- The rpc client answers the call itself: it timed out, or the connection is lost.
  | giveUp
  -- The event loop of the client sets `state_`.
  | state (state : State)
  | server (action : Action)

def reregisterWatchers (client : Impl Callback) (server : Server) : Rewatch Callback where
  client := client
  server := server
  todo := client.wm.walk
  waiting := none
  done := []
  refused := []
  failed := []

variable (walk : Rewatch Callback)

def watcherWalker : Rewatch Callback :=
  match walk.waiting, walk.todo with
  | none, watcher :: rest =>
      if walk.client.state = .connected then
        let req := walk.client.stamp watcher.request
        { walk with
          server := walk.server.receive req
          todo := rest
          waiting := some (⟨walk.server.nextEvent, req⟩, watcher) }
      else { walk with todo := rest, failed := walk.failed ++ [watcher] }
  | _, _ => walk

def giveUp : Rewatch Callback :=
  match walk.waiting with
  | none => walk
  | some (_, watcher) => { walk with waiting := none, failed := walk.failed ++ [watcher] }

def hear (server : Server) (watcher : Watcher Callback) : Rewatch Callback :=
  let rep := (server.machine.replies.getLast?.map fun reply => reply.2).getD Response.empty
  let held := walk.server.machine.watching? walk.client.sid watcher.path
  if (Status.fromRpcError (rep.err.getD ⟨.none, []⟩)).isOk then
    { walk with server := server, waiting := none, done := walk.done ++ [(watcher, held)] }
  else { walk with server := server, waiting := none, refused := walk.refused ++ [watcher] }

-- The watcher whose call the main loop answers in this step.
def answering (action : Action) : Option (Watcher Callback) :=
  match walk.waiting with
  | none => none
  | some (e, watcher) => if answers walk.server e action then some watcher else none

variable (options : Options) (states : RaftStates)

def step (input : Input) (walk : Rewatch Callback) : Except Fault (Rewatch Callback) :=
  match input with
  | .call => .ok walk.watcherWalker
  | .giveUp => .ok walk.giveUp
  | .state state => .ok { walk with client := { walk.client with state := state } }
  | .server action => do
      let server ← walk.server.act options states action
      match walk.answering action with
      | none => return { walk with server := server }
      | some watcher => return walk.hear server watcher

def Led (input : Input) (walk : Rewatch Callback) : Prop :=
  match input with
  | .server action => Server.Leads walk.client.sid action walk.server
  | _ => True

instance (input : Input) (walk : Rewatch Callback) : Decidable (Led input walk) := by
  unfold Led
  split <;> infer_instance

/-- The session watches the path, with the watch it had there already or with the one that the
watcher asks for; or it has been told of an event at the path since the thread began. -/
def Restored (sid : Sid) (before after : Machine) (watcher : Watcher Callback)
    (held : Option Pyxis.Watcher) : Prop :=
  (∃ w, after.watching? sid watcher.path = some w ∧
    (held = some w ∨ held = none ∧ w.mask = watcher.mask ∧ w.recursive = watcher.recursive)) ∨
    Machine.Reported sid watcher.path before after

section Walking

open Machine (Accounted Reported)

variable {options : Options} {states : RaftStates} {env : Env} {begun walk next : Rewatch Callback}
  {watcher : Watcher Callback}

theorem handleLocal_request {e : Event} {m : Machine} {p : SessionPtr}
    (request : e.req = walk.client.stamp watcher.request)
    (live : m.sm.get walk.client.sid = some p) :
    Server.handleLocal options env e m =
      .ok ((m.onWatch e.req).2.reply e Response.empty) := by
  have accepted : (m.onWatch e.req).1 = Status.ok := by
    rw [request]
    unfold Machine.onWatch
    rw [show (walk.client.stamp watcher.request).sid = walk.client.sid from rfl, live]
    dsimp only
    split_ifs <;> rfl
  have shape : e.req.ping = false ∧ e.req.read = none ∧ e.req.stat = none ∧
      e.req.watch.isSome = true := by
    rw [request]
    exact ⟨rfl, rfl, rfl, rfl⟩
  obtain ⟨unpinged, unread, unasked, watches⟩ := shape
  simp only [Server.handleLocal, unpinged, unread, unasked, watches, accepted, Bool.false_eq_true,
    if_false, if_true]
  rfl

theorem turn_request {e : Event} {rest : List Event} {p : SessionPtr}
    (reachable : Server.Reachable options states walk.server)
    (request : e.req = walk.client.stamp watcher.request)
    (live : walk.server.machine.sm.get walk.client.sid = some p)
    (leads : walk.server.state = .leader) (inLoop : walk.server.inLoop = true)
    (queue : walk.server.eventch = e :: rest) {server : Server}
    (taken : walk.server.turn options states env .event = .ok server) :
    server.machine.replies.getLast? = some (e, Response.empty) ∧
      ∃ w, server.machine.watching? walk.client.sid watcher.path = some w ∧
        (walk.server.machine.watching? walk.client.sid watcher.path = some w ∨
          walk.server.machine.watching? walk.client.sid watcher.path = none ∧
            w.mask = watcher.mask ∧ w.recursive = watcher.recursive) := by
  obtain ⟨r, stands⟩ := Server.reachable_stands reachable
  have sid : e.req.sid = walk.client.sid := by rw [request]; rfl
  have body : e.req.watchBody = ⟨watcher.path, watcher.mask, watcher.recursive⟩ := by
    rw [request]; rfl
  have alive : walk.server.machine.sm.get e.req.sid = some p := by rw [sid]; exact live
  obtain ⟨sm, touched, keeps⟩ := SessionManager.touch_spec options (env.clock 0)
    walk.server.machine.sm stands.wellFormed e.req.sid p alive
  have there : sm.get e.req.sid = some p := by
    rw [Machine.get_of_sessions keeps.sessions]
    exact alive
  obtain ⟨m, changed⟩ : ∃ m, m = { walk.server.machine with sm := sm } := ⟨_, rfl⟩
  have here : m.sm.get e.req.sid = some p := by rw [changed]; exact there
  have handled : Server.handleLocal options env e { walk.server.machine with sm := sm } =
      .ok ((m.onWatch e.req).2.reply e Response.empty) := by
    rw [← changed]
    exact handleLocal_request request (by rw [← sid]; exact here)
  have answered : Server.handleEvent options env e { walk.server with eventch := rest } =
      .ok { walk.server with
        eventch := rest
        machine := (m.onWatch e.req).2.reply e Response.empty } :=
    Server.handleEvent_local (by rw [request]; rfl) (by rw [request]; rfl) (by rw [request]; rfl)
      alive touched handled
  have looped : walk.server.turn options states env .event =
      Server.handleEvent options env e { walk.server with eventch := rest } := by
    simp only [Server.turn, inLoop, leads, Server.leaderLoop, queue, Bool.true_eq_false, if_false]
  cases taken.symm.trans (looped.trans answered)
  have held := Machine.onWatch_watching (by rw [changed]; exact keeps.wellFormed) e.req here
  have same : m.watching? e.req.sid watcher.path =
      walk.server.machine.watching? e.req.sid watcher.path := by
    rw [changed]
    exact Machine.touch_watching touched e.req.sid watcher.path
  rw [body, same, sid] at held
  refine ⟨by simp [Machine.reply], _, held, ?_⟩
  cases walk.server.machine.watching? walk.client.sid watcher.path with
  | some w => exact .inl rfl
  | none => exact .inr ⟨rfl, rfl, rfl⟩

theorem Restored.act {sid : Sid} {before : Machine} {server after : Server} {action : Action}
    {held : Option Pyxis.Watcher} (restored : Restored sid before server.machine watcher held)
    (reachable : Server.Reachable options states server) (leads : Server.Leads sid action server)
    (accounted : Accounted sid before server.machine)
    (taken : server.act options states action = .ok after) :
    Restored sid before after.machine watcher held := by
  rcases restored with ⟨w, watching, source⟩ | reported
  · rcases Server.act_watching reachable leads watching taken with still | reported
    · exact .inl ⟨w, still, source⟩
    · exact .inr (reported.earlier accounted)
  · obtain ⟨r, stands, posted⟩ := Server.reachable_posted reachable
    exact .inr (reported.later (Server.act_accounted stands posted leads.2 taken))

-- Where the thread stands with one of the watchers it began with.
def Stage (walk : Rewatch Callback) (watcher : Watcher Callback) : Prop :=
  watcher ∈ walk.todo ∨ (∃ e, walk.waiting = some (e, watcher)) ∨
    (∃ held, (watcher, held) ∈ walk.done) ∨ watcher ∈ walk.failed

variable (options states) in
structure Walks (begun walk : Rewatch Callback) : Prop where
  reachable : Server.Reachable options states walk.server
  sid : walk.client.sid = begun.client.sid
  live : ∃ p, walk.server.machine.sm.get begun.client.sid = some p
  request : ∀ e watcher, walk.waiting = some (e, watcher) →
    e.req = walk.client.stamp watcher.request
  accounted : Accounted begun.client.sid begun.server.machine walk.server.machine
  stage : ∀ watcher ∈ begun.todo, walk.Stage watcher
  restored : ∀ watcher held, (watcher, held) ∈ walk.done →
    Restored begun.client.sid begun.server.machine walk.server.machine watcher held
  accepted : walk.refused = []

theorem Walks.call (walks : Walks options states begun walk) :
    Walks options states begun walk.watcherWalker := by
  unfold watcherWalker
  split
  next watcher rest idle first =>
    have stage (other : Watcher Callback) (listed : other ∈ begun.todo) :
        (other = watcher ∨ other ∈ rest) ∨ (∃ held, (other, held) ∈ walk.done) ∨
          other ∈ walk.failed := by
      rcases walks.stage other listed with listed | ⟨e, out⟩ | settled
      · exact .inl (List.mem_cons.mp (first ▸ listed))
      · rw [idle] at out
        cases out
      · exact .inr settled
    split_ifs
    · refine ⟨walks.reachable.act (show walk.server.act options states (.receive _) = .ok _ from
        rfl), walks.sid, walks.live, ?_, walks.accounted, fun other listed => ?_, walks.restored,
        walks.accepted⟩
      · rintro e other ⟨⟩
        rfl
      · obtain (rfl | listed) | settled := stage other listed
        · exact .inr (.inl ⟨_, rfl⟩)
        · exact .inl listed
        · exact .inr (.inr settled)
    · refine ⟨walks.reachable, walks.sid, walks.live, walks.request, walks.accounted,
        fun other listed => ?_, walks.restored, walks.accepted⟩
      obtain (rfl | listed) | done | listed := stage other listed
      · exact .inr (.inr (.inr (List.mem_append_right _ (List.mem_singleton_self _))))
      · exact .inl listed
      · exact .inr (.inr (.inl done))
      · exact .inr (.inr (.inr (List.mem_append_left _ listed)))
  · exact walks

theorem Walks.giveUp (walks : Walks options states begun walk) :
    Walks options states begun walk.giveUp := by
  unfold Rewatch.giveUp
  split
  · exact walks
  next e watcher out =>
    refine ⟨walks.reachable, walks.sid, walks.live,
      fun _ _ out => (Option.some_ne_none _ out.symm).elim, walks.accounted,
      fun other listed => ?_, walks.restored, walks.accepted⟩
    rcases walks.stage other listed with listed | ⟨e', out'⟩ | done | listed
    · exact .inl listed
    · cases out.symm.trans out'
      exact .inr (.inr (.inr (List.mem_append_right _ (List.mem_singleton_self _))))
    · exact .inr (.inr (.inl done))
    · exact .inr (.inr (.inr (List.mem_append_left _ listed)))

theorem answering_some {action : Action} (answering : walk.answering action = some watcher) :
    ∃ e, walk.waiting = some (e, watcher) ∧ answers walk.server e action = true := by
  unfold Rewatch.answering at answering
  split at answering
  · cases answering
  next e other waiting =>
    split_ifs at answering with answered
    cases answering
    exact ⟨e, waiting, answered⟩

theorem Walks.serve {action : Action} {server : Server} (walks : Walks options states begun walk)
    (leads : Server.Leads begun.client.sid action walk.server)
    (taken : walk.server.act options states action = .ok server) :
    Walks options states begun { walk with server := server } := by
  obtain ⟨r, stands, posted⟩ := Server.reachable_posted walks.reachable
  obtain ⟨p, live⟩ := walks.live
  refine ⟨walks.reachable.act taken, walks.sid,
    ⟨p, Server.act_live walks.reachable leads live taken⟩, walks.request,
    walks.accounted.trans (Server.act_accounted stands posted leads.2 taken),
    walks.stage, fun other held listed =>
      (walks.restored other held listed).act walks.reachable leads walks.accounted taken,
    walks.accepted⟩

theorem Walks.hear {action : Action} {server : Server} (walks : Walks options states begun walk)
    (leads : Server.Leads begun.client.sid action walk.server)
    (taken : walk.server.act options states action = .ok server)
    (answering : walk.answering action = some watcher) :
    Walks options states begun (walk.hear server watcher) := by
  obtain ⟨e, out, answered⟩ := answering_some answering
  obtain ⟨env, rest, rfl, -, -, queue⟩ := answers_iff.mp answered
  obtain ⟨p, live⟩ := walks.live
  obtain ⟨last, w, watching, source⟩ := turn_request walks.reachable
    (walks.request e watcher out) (by rw [walks.sid]; exact live) leads.1.1 leads.1.2 queue taken
  have served := walks.serve leads taken
  simp only [Rewatch.hear, last, Option.map_some, Option.getD_some]
  rw [if_pos (by rfl)]
  rw [walks.sid] at watching source ⊢
  refine ⟨served.reachable, served.sid, served.live,
    fun _ _ out => (Option.some_ne_none _ out.symm).elim, served.accounted,
    fun other listed => ?_, fun other held listed => ?_, served.accepted⟩
  · rcases walks.stage other listed with listed | ⟨e', out'⟩ | ⟨held, listed⟩ | listed
    · exact .inl listed
    · cases out.symm.trans out'
      exact .inr (.inr (.inl ⟨_, List.mem_append_right _ (List.mem_singleton_self _)⟩))
    · exact .inr (.inr (.inl ⟨held, List.mem_append_left _ listed⟩))
    · exact .inr (.inr (.inr listed))
  · rcases List.mem_append.mp listed with old | new
    · exact served.restored other held old
    · cases List.mem_singleton.mp new
      exact .inl ⟨w, watching, source⟩

theorem Walks.step {input : Input} (walks : Walks options states begun walk)
    (led : Led input walk) (taken : step options states input walk = .ok next) :
    Walks options states begun next := by
  cases input with
  | call =>
      cases taken
      exact walks.call
  | giveUp =>
      cases taken
      exact walks.giveUp
  | state state =>
      cases taken
      exact ⟨walks.reachable, walks.sid, walks.live, walks.request, walks.accounted,
        walks.stage, walks.restored, walks.accepted⟩
  | server action =>
      obtain ⟨server, acted, taken⟩ := Runs.bind_ok.mp taken
      have leads : Server.Leads begun.client.sid action walk.server := by
        rw [← walks.sid]
        exact led
      split at taken
      · cases taken
        exact walks.serve leads acted
      next watcher answering =>
        cases taken
        exact walks.hear leads acted answering

theorem watchers_restored {client : Impl Callback} {server : Server} {p : SessionPtr}
    {inputs : List Input} {after : Rewatch Callback}
    (reachable : Server.Reachable options states server)
    (live : server.machine.sm.get client.sid = some p)
    (led : Runs.Meets (step options states) Led (reregisterWatchers client server) inputs)
    (reached : Runs.run (step options states) (reregisterWatchers client server) inputs = .ok after)
    (through : after.todo = [] ∧ after.waiting = none) :
    after.refused = [] ∧ ∀ (path : Str) watcher, client.wm.watchers[path]? = some watcher →
      watcher ∈ after.failed ∨ ∃ held, (watcher, held) ∈ after.done ∧
        Restored client.sid server.machine after.server.machine watcher held := by
  have walks : Walks options states (reregisterWatchers client server) after :=
    Runs.run_invariant (step options states) Led _
      (fun _ _ _ walks led taken => walks.step led taken) _ after inputs
      ⟨reachable, rfl, ⟨p, live⟩, by simp [reregisterWatchers], .refl _ _,
        fun _ listed => .inl listed, by simp [reregisterWatchers], rfl⟩ led reached
  refine ⟨walks.accepted, fun path watcher found => ?_⟩
  have listed : watcher ∈ client.wm.walk :=
    List.mem_map.mpr ⟨(path, watcher), ExtTreeMap.mem_toList_iff_getElem?_eq_some.mpr found, rfl⟩
  rcases walks.stage watcher listed with todo | ⟨e, out⟩ | ⟨held, done⟩ | failed
  · rw [through.1] at todo
    cases todo
  · rw [through.2] at out
    cases out
  · exact .inr ⟨held, done, walks.restored watcher held done⟩
  · exact .inl failed

def watchful : Impl Nat where
  enableCache := false
  state := .connected
  sid := 1
  wm := WatchManager.add (text "/a") ⟨text "/a", Watch.kCreate, false, 1⟩
    (WatchManager.add (text "/b") ⟨text "/b", Watch.kModify, true, 2⟩
      ⟨∅, ⟨[], Watch.kNone, false, 0⟩⟩)
  cache := ∅

def walking : List Input :=
  -- The node at `/a` is made between the two calls.
  [.call, .server (.turn (.still 0) .event)] ++ Server.creation.map .server ++
    [.call, .server (.turn (.still 0) .event)]

theorem watchers_restored_walking : ∃ server after,
    Server.Reachable Options.standard .sample server ∧
      Runs.run (step Options.standard .sample) (reregisterWatchers watchful server) walking =
        .ok after ∧
      ∀ (path : Str) watcher, watchful.wm.watchers[path]? = some watcher →
        ∃ held, (watcher, held) ∈ after.done ∧
          Restored 1 server.machine after.server.machine watcher held := by
  obtain ⟨server, reachable, ⟨live, led⟩, found⟩ := Server.exists_reachable
    Options.standard .sample (.still 0) Server.joined
    (fun server => (server.machine.sm.get 1 = some 1 ∧
      Runs.Meets (step Options.standard .sample) Led (reregisterWatchers watchful server) walking) ∧
      Runs.passes (Runs.run (step Options.standard .sample) (reregisterWatchers watchful server)
        walking) (fun after => after.todo.isEmpty && after.waiting.isNone && after.failed.isEmpty)
        = true)
    (by decide +kernel)
  simp only [Runs.passes_iff, Bool.and_eq_true, List.isEmpty_iff, Option.isNone_iff_eq_none]
    at found
  obtain ⟨after, reached, through, unfailed⟩ := found
  refine ⟨server, after, reachable, reached, fun path watcher listed => ?_⟩
  have settled := (watchers_restored reachable live led reached through).2 path watcher listed
  rw [unfailed] at settled
  exact settled.resolve_left List.not_mem_nil

end Walking

end Rewatch

end Client

end Pyxis
