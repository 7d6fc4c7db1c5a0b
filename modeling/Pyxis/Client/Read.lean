import Pyxis.Server.Delivery

set_option autoImplicit false

open Std (ExtTreeMap)

namespace Pyxis

namespace Client

structure Watcher (Callback : Type) where
  path : Str
  mask : UInt32
  recursive : Bool
  done : Callback

structure WatchManager (Callback : Type) where
  watchers : ExtTreeMap Str (Watcher Callback)
  defaultWatch : Watcher Callback

structure ReadOptions (Callback : Type) where
  watchEvent : UInt32
  recursive : Bool
  callback : Callback

inductive State where
  | looking | connected | closed
  deriving DecidableEq, Repr

structure Impl (Callback : Type) where
  enableCache : Bool
  state : State
  sid : Sid
  wm : WatchManager Callback
  cache : ExtTreeMap Str Node

variable {Callback : Type}

namespace WatchManager

def add (path : Str) (watcher : Watcher Callback) (wm : WatchManager Callback) :
    WatchManager Callback :=
  -- `std::map::insert` leaves an entry that is there.
  { wm with watchers := wm.watchers.insertIfNew path watcher }

def remove (path : Str) (wm : WatchManager Callback) : WatchManager Callback :=
  { wm with watchers := wm.watchers.erase path }

-- The call that the thread pool runs, and the table it leaves.
def triger (path : Str) (e : Watch.Event) (wm : WatchManager Callback) :
    (Callback × Watch.Event) × WatchManager Callback :=
  match wm.watchers[path]? with
  | none => ((wm.defaultWatch.done, e), wm)
  | some watcher => ((watcher.done, e), { wm with watchers := wm.watchers.erase path })

theorem getElem?_add (path : Str) (watcher : Watcher Callback) (wm : WatchManager Callback)
    (watched : Str) : (wm.add path watcher).watchers[watched]? =
      if watched = path then some (wm.watchers[path]?.getD watcher) else wm.watchers[watched]? := by
  simp only [add, ExtTreeMap.getElem?_insertIfNew, Std.compare_eq_iff_eq]
  by_cases same : watched = path
  · subst same
    by_cases there : watched ∈ wm.watchers
    · rw [if_neg (by simp [there]), if_pos rfl, ExtTreeMap.getElem?_eq_some_getElem there]
      rfl
    · rw [if_pos ⟨rfl, there⟩, if_pos rfl, ExtTreeMap.getElem?_eq_none there]
      rfl
  · rw [if_neg fun both => same both.1.symm, if_neg same]

theorem getElem?_remove (path : Str) (wm : WatchManager Callback) (watched : Str) :
    (wm.remove path).watchers[watched]? =
      if watched = path then none else wm.watchers[watched]? := by
  simp only [remove, ExtTreeMap.getElem?_erase, Std.compare_eq_iff_eq]
  simp only [eq_comm]

end WatchManager

namespace ReadOptions

variable (options : ReadOptions Callback) (path : Str)

def asks : Bool := options.watchEvent != Watch.kNone

def watcher : Watcher Callback :=
  ⟨path, options.watchEvent, options.recursive, options.callback⟩

def request : Request :=
  { Request.empty with
    stat := some path
    watch := if options.asks then some ⟨path, options.watchEvent, options.recursive⟩ else none }

end ReadOptions

def statNode : Option Payload → Option Node
  -- A field that is not set is the empty message.
  | none => some (newNode [] kPersist)
  | some (.node node) => some node
  | some (.bytes _) => none

namespace Impl

variable (rpc : Request → Status × Response) (c : Impl Callback)

def stamp (req : Request) : Request := { req with sid? := some c.sid }

def call (req : Request) : Status × Response :=
  match c.state with
  | .closed => (Status.disconnect (text "closed"), Response.empty)
  | .looking => (Status.disconnect (text "not connected"), Response.empty)
  | .connected =>
      let (st, rep) := rpc (c.stamp req)
      (if st.isOk then Status.fromRpcError (rep.err.getD ⟨.none, []⟩) else st, rep)

def asking (options : ReadOptions Callback) (path : Str) : Impl Callback :=
  if options.asks then { c with wm := c.wm.add path (options.watcher path) } else c

-- `reads` and `writes` say whether the LevelDB of the cache does its part.
def read (reads writes : Bool) (options : ReadOptions Callback) (path : Str) :
    Status × Option Node × Impl Callback :=
  let c := c.asking options path
  let (st, rep) := c.call rpc (options.request path)
  if st.isOk then
    match statNode rep.data with
    | none => (Status.internal (text "decode stat error"), none, c)
    | some node =>
        (Status.ok, some node,
          if c.enableCache ∧ writes then { c with cache := c.cache.insert path node } else c)
  else
    let c := { c with wm := c.wm.remove path }
    match if c.enableCache ∧ st.isDisconnect ∧ reads then c.cache[path]? else none with
    | none => (st, none, c)
    | some node => (Status.cached path, some node, c)

end Impl

/-- One client and the server it is connected to. The caller blocks while its request is `waiting`;
`setBy` remembers the callback of the `Read` by which the session came to watch a path. -/
structure System (Callback : Type) where
  client : Impl Callback
  server : Server
  waiting : Option (Event × ReadOptions Callback × Str)
  setBy : Str → Option Callback

inductive Input (Callback : Type) where
  | ask (options : ReadOptions Callback) (path : Str)
  | server (action : Action)

-- The main loop takes this event and answers it at once.
def answers (server : Server) (e : Event) : Action → Bool
  | .turn _ .event =>
      server.inLoop && (server.state = .leader || server.state = .follower) &&
        server.eventch.head? = some e
  | _ => false

namespace System

variable (sys : System Callback)

def holds (server : Server) (path : Str) : Bool :=
  (server.machine.watching? sys.client.sid path).isSome

def answering (action : Action) : Option (ReadOptions Callback × Str) :=
  match sys.waiting with
  | none => none
  | some (e, call) => if answers sys.server e action then some call else none

def receive (options : ReadOptions Callback) (path : Str) : System Callback :=
  let req := sys.client.stamp (options.request path)
  { sys with
    server := sys.server.receive req
    waiting := some (⟨sys.server.nextEvent, req⟩, options, path) }

def answer (server : Server) (options : ReadOptions Callback) (path : Str) : System Callback where
  -- Nobody looks at the client's watchers while the call is out, so `Read` is run as a whole here.
  client :=
    let rep := (server.machine.replies.getLast?.map fun reply => reply.2).getD Response.empty
    (sys.client.read (fun _ => (Status.ok, rep)) true true options path).2.2
  server := server
  waiting := none
  setBy watched :=
    if sys.holds server watched then
      if sys.holds sys.server watched then sys.setBy watched else some options.callback
    else none

end System

variable (options : Options) (states : RaftStates)

def step (input : Input Callback) (sys : System Callback) : Except Fault (System Callback) :=
  match input with
  | .ask call path => .ok (if sys.waiting.isSome then sys else sys.receive call path)
  | .server action => do
      let server ← sys.server.act options states action
      match sys.answering action with
      | none => return { sys with server := server }
      | some (call, path) => return sys.answer server call path

/-- The session watches what the client has a watcher for, and an event sent for such a path runs
the callback of the `Read` that made the session watch it. -/
structure Agreed (sys : System Callback) : Prop where
  watches : ∀ path, sys.holds sys.server path = true ↔ path ∈ sys.client.wm.watchers
  reaches : ∀ path e, sys.holds sys.server path = true →
    ∃ callback, sys.setBy path = some callback ∧ (sys.client.wm.triger path e).1 = (callback, e)

def Undisturbed (input : Input Callback) (sys : System Callback) : Prop :=
  match input with
  | .ask _ _ => True
  | .server action => sys.answering action = none → ∀ next,
      sys.server.act options states action = .ok next → ∀ path,
        next.machine.watching? sys.client.sid path =
          sys.server.machine.watching? sys.client.sid path

section Lookup

variable (env : Env) (path : Str)

def found (db : Persist) : Bool :=
  match Store.get options env.proc db path with
  | .ok _ => true
  | .error _ => false

def missing (db : Persist) : Bool :=
  match Store.get options env.proc db path with
  | .ok _ => false
  | .error status => status.isNotFound

-- The request is handled by a leader that knows the session.
def serves (sys : System Callback) : Bool :=
  sys.server.state = .leader && (sys.server.machine.sm.get sys.client.sid).isSome

def finds (sys : System Callback) : Bool :=
  serves sys && found options env path sys.server.machine.db

def misses (sys : System Callback) : Bool :=
  serves sys && missing options env path sys.server.machine.db

end Lookup

-- A `Read` that fails is one of a path the session does not watch, and not one that asks for a
-- watch of a missing node.
def Keeps (input : Input Callback) (sys : System Callback) : Prop :=
  match input with
  | .server (.turn env ready) =>
      match sys.answering (.turn env ready) with
      | none => True
      | some (call, path) =>
          finds options env path sys = true ∨
            sys.holds sys.server path = false ∧
              (call.asks = true → misses options env path sys = false)
  | _ => True

section Reading

variable {options : Options} {states : RaftStates} {env : Env} {sys next : System Callback}

namespace Impl

variable (rpc : Request → Status × Response) (c : Impl Callback) (reads writes : Bool)
  (call : ReadOptions Callback) (path : Str)

theorem asking_frame : (c.asking call path).sid = c.sid ∧ (c.asking call path).state = c.state ∧
    (c.asking call path).cache = c.cache ∧ (c.asking call path).wm =
      if call.asks then c.wm.add path (call.watcher path) else c.wm := by
  unfold asking
  split_ifs <;> exact ⟨rfl, rfl, rfl, rfl⟩

theorem read_impl : (c.read rpc reads writes call path).2.2.sid = c.sid ∧
    (c.read rpc reads writes call path).2.2.state = c.state := by
  obtain ⟨sid, state, -⟩ := asking_frame c call path
  unfold read
  dsimp only
  split_ifs <;> split <;> exact ⟨sid, state⟩

theorem read_wm : (c.read rpc reads writes call path).2.2.wm =
    let wm := if call.asks then c.wm.add path (call.watcher path) else c.wm
    if (c.call rpc (call.request path)).1.isOk then wm else wm.remove path := by
  obtain ⟨sid, state, -, wm⟩ := asking_frame c call path
  have same : (c.asking call path).call rpc (call.request path) =
      c.call rpc (call.request path) := by
    rw [Impl.call, Impl.call, stamp, stamp, sid, state]
  unfold read
  dsimp only
  rw [same, ← wm]
  split_ifs <;> split <;> rfl

variable {c} in
theorem read_done (connected : c.state = .connected) (rep : Response) (watched : Str) :
    ((c.read (fun _ => (Status.ok, rep)) reads writes call path).2.2.wm.watchers[watched]?).map
        (·.done) =
      if watched = path then
        if (Status.fromRpcError (rep.err.getD ⟨.none, []⟩)).isOk then
          (c.wm.watchers[watched]?.map (·.done)).or (if call.asks then some call.callback else none)
        else none
      else c.wm.watchers[watched]?.map (·.done) := by
  rw [read_wm]
  simp only [Impl.call, connected, Status.isOk_ok, if_true]
  by_cases same : watched = path
  · subst same
    rw [if_pos rfl]
    cases there : c.wm.watchers[watched]? <;> split_ifs <;>
      simp only [WatchManager.getElem?_add, WatchManager.getElem?_remove, there, if_true,
        ReadOptions.watcher, Option.getD_none, Option.getD_some, Option.map_some, Option.map_none,
        Option.none_or, Option.some_or, Option.or_none]
  · rw [if_neg same]
    split_ifs <;>
      simp only [WatchManager.getElem?_add, WatchManager.getElem?_remove, same, if_false]

end Impl

theorem agreed_iff : Agreed sys ↔ ∀ path,
    (sys.client.wm.watchers[path]?.map (·.done)).isSome = sys.holds sys.server path ∧
      (sys.holds sys.server path = true →
        sys.setBy path = sys.client.wm.watchers[path]?.map (·.done)) := by
  constructor
  · rintro ⟨watches, reaches⟩ path
    have known := watches path
    rw [← ExtTreeMap.isSome_getElem?_iff_mem] at known
    refine ⟨by rw [Option.isSome_map]; exact Bool.eq_iff_iff.mpr known.symm, fun held => ?_⟩
    obtain ⟨callback, set, run⟩ := reaches path ⟨[], 0⟩ held
    cases there : sys.client.wm.watchers[path]? with
    | none => rw [there] at known; simp [held] at known
    | some watcher =>
        simp only [WatchManager.triger, there, Prod.mk.injEq, and_true] at run
        simp [set, run]
  · intro equal
    refine ⟨fun path => ?_, fun path e held => ?_⟩
    · rw [← (equal path).1, Option.isSome_map, ExtTreeMap.isSome_getElem?_iff_mem]
    · obtain ⟨present, set⟩ := equal path
      rw [held] at present
      cases there : sys.client.wm.watchers[path]? with
      | none => simp [there] at present
      | some watcher =>
          exact ⟨watcher.done, by rw [set held, there]; rfl, by simp [WatchManager.triger, there]⟩

theorem isOk_withStatus {rep : Response} (clean : rep.err = none) (status : Status) :
    (Status.fromRpcError ((rep.withStatus status).err.getD ⟨.none, []⟩)).isOk = status.isOk := by
  rw [Response.err_withStatus]
  split_ifs with ok
  · rw [clean, ok]
    rfl
  · rw [Option.getD_some, Status.isOk_fromRpcError]

theorem handleStat_spec (options : Options) (env : Env) {e : Event} {m : Machine}
    {p : SessionPtr} (path : Str) (live : m.sm.get e.req.sid = some p) :
    ∃ status data, Server.handleStat options env e path m = (status, data,
        if e.req.watch.isSome && (found options env path m.db || missing options env path m.db) then
          (m.onWatch e.req).2 else m) ∧
      status.isOk = found options env path m.db := by
  have watched : (m.onWatch e.req).1.isOk = true := by
    unfold Machine.onWatch
    rw [live]
    dsimp only
    split_ifs <;> rfl
  unfold Server.handleStat found missing
  rw [if_neg (by simp [live])]
  cases looked : Store.get options env.proc m.db path with
  | ok node =>
      simp only [Bool.or_false, Bool.and_true]
      split_ifs
      · exact ⟨_, _, rfl, watched⟩
      · exact ⟨_, _, rfl, rfl⟩
  | error status =>
      refine ⟨status, none, ?_, Store.get_error_isOk _ _ _ _ _ looked⟩
      by_cases lost : status.isNotFound = true <;> cases e.req.watch.isSome <;> simp [watched, lost]

theorem answers_iff {server : Server} {e : Event} {action : Action} :
    answers server e action = true ↔ ∃ env rest, action = .turn env .event ∧
      server.inLoop = true ∧ (server.state = .leader ∨ server.state = .follower) ∧
      server.eventch = e :: rest := by
  constructor
  · intro answered
    unfold answers at answered
    split at answered
    · simp only [Bool.and_eq_true, Bool.or_eq_true, decide_eq_true_eq] at answered
      obtain ⟨⟨inLoop, state⟩, first⟩ := answered
      obtain ⟨rest, queue⟩ := List.head?_eq_some_iff.mp first
      exact ⟨_, rest, rfl, inLoop, state, queue⟩
    · cases answered
  · rintro ⟨env, rest, rfl, inLoop, state, queue⟩
    simp [answers, inLoop, state, queue]

theorem onWatch_holds {e : Event} {call : ReadOptions Callback} {path : Str} {m : Machine}
    {p : SessionPtr} (wf : m.sm.WellFormed)
    (request : e.req = sys.client.stamp (call.request path)) (asks : call.asks = true)
    (live : m.sm.get e.req.sid = some p) (watched : Str) :
    ((m.onWatch e.req).2.watching? sys.client.sid watched).isSome =
      ((m.watching? sys.client.sid watched).isSome || decide (watched = path)) := by
  have sid : e.req.sid = sys.client.sid := by rw [request]; rfl
  have body : e.req.watchBody.path = path := by
    simp [request, Impl.stamp, ReadOptions.request, asks, Request.watchBody]
  by_cases same : watched = path
  · have held := Machine.onWatch_watching wf e.req live
    rw [sid, body, ← same] at held
    rw [held]
    simp [same]
  · have kept := Machine.onWatch_elsewhere wf e.req live (by rw [body]; exact same)
    rw [sid] at kept
    simp [kept, same]

theorem stamp_request {e : Event} {call : ReadOptions Callback} {path : Str}
    (request : e.req = sys.client.stamp (call.request path)) :
    e.req.sid = sys.client.sid ∧ e.req.register = none ∧ e.req.needBoradcast = false ∧
      e.req.ping = false ∧ e.req.read = none ∧ e.req.stat = some path := by
  rw [request]
  exact ⟨rfl, rfl, rfl, rfl, rfl, rfl⟩

theorem serve_spec (options : Options) (env : Env) {e : Event} (rest : List Event)
    {call : ReadOptions Callback} {path : Str} {p : SessionPtr}
    (wf : sys.server.machine.sm.WellFormed)
    (request : e.req = sys.client.stamp (call.request path))
    (live : sys.server.machine.sm.get sys.client.sid = some p) :
    ∃ server rep,
      Server.handleEvent options env e { sys.server with eventch := rest } = .ok server ∧
      server.machine.replies.getLast? = some (e, rep) ∧
      (Status.fromRpcError (rep.err.getD ⟨.none, []⟩)).isOk =
        found options env path sys.server.machine.db ∧
      ∀ watched, sys.holds server watched =
        (sys.holds sys.server watched || (call.asks &&
          (found options env path sys.server.machine.db ||
            missing options env path sys.server.machine.db)) && decide (watched = path)) := by
  obtain ⟨sm, touched, keeps⟩ := SessionManager.touch_spec options (env.clock 0)
    sys.server.machine.sm wf sys.client.sid p live
  obtain ⟨sid, unregistered, kept, unpinged, unread, stat⟩ := stamp_request request
  rw [← sid] at live touched
  have there : sm.get e.req.sid = some p := by
    rw [Machine.get_of_sessions keeps.sessions]
    exact live
  have asked : e.req.watch.isSome = call.asks := by
    rw [request]
    simp only [Impl.stamp, ReadOptions.request]
    split_ifs with asks <;> simp [asks]
  obtain ⟨m, changed⟩ : ∃ m, m = { sys.server.machine with sm := sm } := ⟨_, rfl⟩
  have same (watched : Str) : m.watching? sys.client.sid watched =
      sys.server.machine.watching? sys.client.sid watched := by
    rw [changed]
    exact Machine.touch_watching touched sys.client.sid watched
  have db : m.db = sys.server.machine.db := by rw [changed]
  obtain ⟨status, data, looked, outcome⟩ := handleStat_spec options env (e := e) (m := m) path
    (by rw [changed]; exact there)
  rw [db, asked] at looked
  have handled : Server.handleEvent options env e { sys.server with eventch := rest } =
      .ok { sys.server with
        eventch := rest
        machine := Machine.reply e ({ Response.empty with data := data }.withStatus status)
          (if call.asks && (found options env path sys.server.machine.db ||
            missing options env path sys.server.machine.db) then (m.onWatch e.req).2 else m) } := by
    refine Server.handleEvent_local unregistered kept unpinged live touched ?_
    rw [← changed]
    simp only [Server.handleLocal, unpinged, unread, stat, looked, Bool.false_eq_true, if_false]
  refine ⟨_, { Response.empty with data := data }.withStatus status, handled, ?_, ?_,
    fun watched => ?_⟩
  · simp [Machine.reply]
  · rw [isOk_withStatus rfl, outcome, db]
  · rw [System.holds, System.holds, ← same]
    split_ifs with watches
    · rw [watches, Bool.true_and]
      exact onWatch_holds (by rw [changed]; exact keeps.wellFormed) request
        (Bool.and_eq_true_iff.mp watches).1 (by rw [changed]; exact there) watched
    · rw [Bool.not_eq_true] at watches
      rw [watches, Bool.false_and, Bool.or_false]
      rfl

theorem turn_answer {e : Event} {rest : List Event} {call : ReadOptions Callback} {path : Str}
    (wf : sys.server.machine.sm.WellFormed)
    (request : e.req = sys.client.stamp (call.request path)) (inLoop : sys.server.inLoop = true)
    (state : sys.server.state = .leader ∨ sys.server.state = .follower)
    (queue : sys.server.eventch = e :: rest) :
    ∃ server rep, sys.server.turn options states env .event = .ok server ∧
      server.machine.replies.getLast? = some (e, rep) ∧
      (Status.fromRpcError (rep.err.getD ⟨.none, []⟩)).isOk = finds options env path sys ∧
      ∀ watched, sys.holds server watched =
        (sys.holds sys.server watched ||
          (call.asks && (finds options env path sys || misses options env path sys)) &&
            decide (watched = path)) := by
  obtain ⟨sid, unregistered, -⟩ := stamp_request request
  unfold finds misses serves
  rcases state with leader | follower
  · have taken : sys.server.turn options states env .event =
        Server.handleEvent options env e { sys.server with eventch := rest } := by
      simp only [Server.turn, inLoop, leader, Server.leaderLoop, queue, Bool.true_eq_false,
        if_false]
    rw [taken]
    cases live : sys.server.machine.sm.get sys.client.sid with
    | some p => simpa [leader] using serve_spec options env rest wf request live
    | none =>
        have refused : Server.handleEvent options env e { sys.server with eventch := rest } =
            .ok { sys.server with
              eventch := rest
              machine := sys.server.machine.reply e (Response.empty.withStatus expired) } := by
          simp only [Server.handleEvent, unregistered, sid, live, if_true, Server.onMachine]
        refine ⟨_, Response.empty.withStatus expired, refused, ?_, ?_, fun watched => ?_⟩
        · simp [Machine.reply]
        · simp [isOk_withStatus, Response.empty, expired]
        · simp [System.holds, Machine.reply, Machine.watching?]
  · have taken : sys.server.turn options states env .event =
        .ok { sys.server with
          eventch := rest
          machine := sys.server.machine.reply e
            (Response.empty.withStatus (Server.notLeading options env)) } := by
      simp only [Server.turn, inLoop, follower, Server.followerLoop, queue, Bool.true_eq_false,
        if_false]
    have refused : (Server.notLeading options env).isOk = false := by
      unfold Server.notLeading
      split_ifs <;> rfl
    refine ⟨_, Response.empty.withStatus (Server.notLeading options env), taken, ?_, ?_,
      fun watched => ?_⟩
    · simp [Machine.reply]
    · simp [isOk_withStatus, Response.empty, refused, follower]
    · simp [System.holds, Machine.reply, Machine.watching?, follower]

variable (options states) in
structure Connected (sys : System Callback) : Prop where
  reachable : Server.Reachable options states sys.server
  connected : sys.client.state = .connected
  request : ∀ e call path, sys.waiting = some (e, call, path) →
    e.req = sys.client.stamp (call.request path)

theorem answering_some {action : Action} {call : ReadOptions Callback} {path : Str}
    (answering : sys.answering action = some (call, path)) :
    ∃ e, sys.waiting = some (e, call, path) ∧ answers sys.server e action = true := by
  unfold System.answering at answering
  split at answering
  · cases answering
  next e other waiting =>
    split_ifs at answering with answered
    cases answering
    exact ⟨e, waiting, answered⟩

theorem Connected.step {input : Input Callback} (linked : Connected options states sys)
    (taken : Client.step options states input sys = .ok next) : Connected options states next := by
  cases input with
  | ask call path =>
      cases Except.ok.inj taken
      split_ifs
      · exact linked
      · refine ⟨linked.reachable.act (show sys.server.act options states (.receive _) = .ok _ from
          rfl), linked.connected, ?_⟩
        rintro e call path ⟨⟩
        rfl
  | server action =>
      obtain ⟨server, acted, taken⟩ := Runs.bind_ok.mp taken
      have reachable := linked.reachable.act acted
      split at taken
      · cases taken
        exact ⟨reachable, linked.connected, linked.request⟩
      · cases taken
        refine ⟨reachable, (Impl.read_impl _ _ _ _ _ _).2.trans linked.connected, ?_⟩
        intro e call path waiting
        have idle : (none : Option (Event × ReadOptions Callback × Str)) = some (e, call, path) :=
          waiting
        cases idle

theorem entry_agreed {old setBy : Option Callback} {held : Bool} (asks found missed : Bool)
    (callback : Callback) (present : old.isSome = held) (known : held = true → setBy = old) :
    ((if found then old.or (if asks then some callback else none) else none).isSome =
        (held || asks && (found || missed)) ∧
      ((held || asks && (found || missed)) = true →
        (if (held || asks && (found || missed)) = true then
          if held = true then setBy else some callback else none) =
          if found then old.or (if asks then some callback else none) else none)) ↔
      found = true ∨ held = false ∧ (asks = true → missed = false) := by
  subst present
  cases old <;> cases asks <;> cases found <;> cases missed <;> simp_all

theorem answer_agreed {call : ReadOptions Callback} {path : Str} {server : Server} {e : Event}
    {rep : Response} (connected : sys.client.state = .connected) (agreed : Agreed sys)
    (last : server.machine.replies.getLast? = some (e, rep))
    (accepted : (Status.fromRpcError (rep.err.getD ⟨.none, []⟩)).isOk = finds options env path sys)
    (held : ∀ watched, sys.holds server watched =
      (sys.holds sys.server watched ||
        (call.asks && (finds options env path sys || misses options env path sys)) &&
          decide (watched = path))) :
    Agreed (sys.answer server call path) ↔
      finds options env path sys = true ∨ sys.holds sys.server path = false ∧
        (call.asks = true → misses options env path sys = false) := by
  have before := agreed_iff.mp agreed
  have sid : (sys.answer server call path).client.sid = sys.client.sid :=
    (Impl.read_impl _ _ _ _ _ _).1
  have holds (watched : Str) : (sys.answer server call path).holds server watched =
      sys.holds server watched := by rw [System.holds, sid]; rfl
  have done (watched : Str) :
      (sys.answer server call path).client.wm.watchers[watched]?.map (·.done) =
        if watched = path then
          if finds options env path sys then
            (sys.client.wm.watchers[watched]?.map (·.done)).or
              (if call.asks then some call.callback else none)
          else none
        else sys.client.wm.watchers[watched]?.map (·.done) := by
    simp only [System.answer, last, Option.map_some, Option.getD_some,
      Impl.read_done _ _ _ _ connected, accepted]
  have set (watched : Str) : (sys.answer server call path).setBy watched =
      if sys.holds server watched then
        if sys.holds sys.server watched then sys.setBy watched else some call.callback
      else none := rfl
  rw [agreed_iff]
  change (∀ watched, _ = (sys.answer server call path).holds server watched ∧ (
    (sys.answer server call path).holds server watched = true → _)) ↔ _
  simp only [holds, done, set]
  constructor
  · intro after
    have here := after path
    rw [held] at here
    simpa using (entry_agreed call.asks (finds options env path sys) (misses options env path sys)
      call.callback (before path).1 (before path).2).mp (by simpa using here)
  · intro keeps watched
    rw [held]
    by_cases same : watched = path
    · subst same
      simpa using (entry_agreed call.asks (finds options env watched sys)
        (misses options env watched sys) call.callback (before watched).1
        (before watched).2).mpr keeps
    · obtain ⟨present, known⟩ := before watched
      simp only [same, decide_false, Bool.and_false, Bool.or_false, if_false]
      exact ⟨present, fun there => by rw [if_pos there, if_pos there, known there]⟩

theorem Connected.answer (linked : Connected options states sys) {action : Action}
    {call : ReadOptions Callback} {path : Str}
    (answering : sys.answering action = some (call, path)) :
    ∃ env server, action = .turn env .event ∧ sys.server.act options states action = .ok server ∧
      (Agreed sys → (Agreed (sys.answer server call path) ↔
        finds options env path sys = true ∨ sys.holds sys.server path = false ∧
          (call.asks = true → misses options env path sys = false))) := by
  obtain ⟨e, waiting, answered⟩ := answering_some answering
  obtain ⟨env, rest, rfl, inLoop, state, queue⟩ := answers_iff.mp answered
  obtain ⟨r, stands⟩ := Server.reachable_stands linked.reachable
  obtain ⟨server, rep, taken, last, accepted, held⟩ :=
    turn_answer stands.wellFormed (linked.request e call path waiting) inLoop state queue
  exact ⟨env, server, rfl, taken,
    fun agreed => answer_agreed linked.connected agreed last accepted held⟩

theorem step_agreed {input : Input Callback} (linked : Connected options states sys)
    (undisturbed : Undisturbed options states input sys)
    (taken : step options states input sys = .ok next) (agreed : Agreed sys) :
    Agreed next ↔ Keeps options input sys := by
  cases input with
  | ask call path =>
      cases Except.ok.inj taken
      refine iff_of_true ?_ trivial
      split_ifs
      · exact agreed
      · exact ⟨agreed.watches, agreed.reaches⟩
  | server action =>
      obtain ⟨server, acted, taken⟩ := Runs.bind_ok.mp taken
      split at taken
      next answering =>
        cases taken
        have same (path : Str) : sys.holds server path = sys.holds sys.server path := by
          rw [System.holds, undisturbed answering server acted path]
          rfl
        refine iff_of_true ⟨fun path => ?_, fun path e held => ?_⟩ ?_
        · exact (Bool.eq_iff_iff.mp (same path)).trans (agreed.watches path)
        · exact agreed.reaches path e ((same path).symm.trans held)
        · unfold Keeps
          split
          next same => cases same; rw [answering]; trivial
          · trivial
      next call path answering =>
        cases taken
        obtain ⟨env, other, rfl, reached, decided⟩ := linked.answer answering
        cases Except.ok.inj (acted.symm.trans reached)
        simp only [Keeps, answering]
        exact decided agreed

theorem reads_agree {inputs : List (Input Callback)}
    (reachable : Server.Reachable options states sys.server)
    (connected : sys.client.state = .connected) (idle : sys.waiting = none) (agreed : Agreed sys)
    (undisturbed : Runs.Meets (step options states) (Undisturbed options states) sys inputs) :
    Runs.Throughout (step options states) Agreed sys inputs ↔
      Runs.Meets (step options states) (Keeps options) sys inputs := by
  refine Runs.throughout_iff_meets_given (step options states) (Undisturbed options states)
    (Keeps options) (Connected options states) Agreed ?_ (fun _ _ _ linked _ => linked.step)
    (fun _ _ _ => step_agreed) sys inputs
    ⟨reachable, connected, fun e call path waiting => by simp [idle] at waiting⟩ agreed undisturbed
  -- The turn that answers a `Read` never fails.
  intro input state failure linked failed
  unfold Keeps
  split
  next env ready =>
    split
    · trivial
    next call path answering =>
      obtain ⟨-, server, -, reached, -⟩ := linked.answer answering
      rw [step, reached] at failed
      simp only [bind, Except.bind] at failed
      split at failed <;> cases failed
  · trivial

-- Nothing happens between the calls.
def Alone (input : Input Callback) (sys : System Callback) : Prop :=
  match input with
  | .ask _ _ => True
  | .server action => (sys.answering action).isSome = true

instance (input : Input Callback) (sys : System Callback) : Decidable (Alone input sys) := by
  unfold Alone
  split <;> infer_instance

instance (input : Input Callback) (sys : System Callback) :
    Decidable (Keeps options input sys) := by
  unfold Keeps
  split
  · split <;> infer_instance
  · infer_instance

theorem undisturbed_of_alone {inputs : List (Input Callback)}
    (alone : Runs.Meets (step options states) Alone sys inputs) :
    Runs.Meets (step options states) (Undisturbed options states) sys inputs :=
  Runs.meets_invariant _ Alone _ (fun _ => True) (fun _ _ _ _ _ _ => trivial)
    (fun input state _ alone => by
      cases input with
      | ask call path => trivial
      | server action =>
          intro silent
          rw [Alone, silent] at alone
          cases alone) sys inputs trivial alone

def start (server : Server) : System Nat where
  client := ⟨false, .connected, 1, ⟨∅, ⟨[], Watch.kNone, false, 0⟩⟩, ∅⟩
  server := server
  waiting := none
  setBy _ := none

theorem start_agreed {server : Server} {p : SessionPtr} (live : server.machine.sm.get 1 = some p)
    (unwatched : (server.machine.sm.deref p).watches.isEmpty = true) : Agreed (start server) := by
  have none (path : Str) : (start server).holds (start server).server path = false := by
    have empty : (server.machine.sm.deref p).watches = ∅ := ExtTreeMap.isEmpty_iff.mp unwatched
    simp [System.holds, start, Machine.watching?, live, empty]
  refine ⟨fun path => iff_of_false (by rw [none path]; simp) ?_, fun path e held => ?_⟩
  · simp [start]
  · rw [none path] at held
    cases held

def reading (call : ReadOptions Nat) (path : Str) : List (Input Nat) :=
  [.ask call path, .server (.turn (.still 0) .event)]

def readTwice : List (Input Nat) :=
  reading ⟨Watch.kModify, false, 1⟩ rootPath ++ reading ⟨Watch.kNone, false, 2⟩ (text "/a")

theorem reads_agree_found : ∃ server,
    Server.Reachable Options.standard .sample server ∧
      Runs.Throughout (step Options.standard .sample) Agreed (start server) readTwice := by
  obtain ⟨server, reachable, live, unwatched, alone, keeps⟩ := Server.exists_reachable
    Options.standard .sample (.still 0) Server.joined
    (fun server => server.machine.sm.get 1 = some 1 ∧
      (server.machine.sm.deref 1).watches.isEmpty = true ∧
      Runs.Meets (step Options.standard .sample) Alone (start server) readTwice ∧
      Runs.Meets (step Options.standard .sample) (Keeps Options.standard) (start server) readTwice)
    (by decide +kernel)
  exact ⟨server, reachable, (reads_agree reachable rfl rfl (start_agreed live unwatched)
    (undisturbed_of_alone alone)).mpr keeps⟩

def readMissing : List (Input Nat) := reading ⟨Watch.kCreate, false, 1⟩ (text "/a")

-- A `Read` that asks for the creation of a missing node: the session watches the path from then
-- on, and the client has already thrown its watcher away.
theorem reads_agree_missing : ∃ server last,
    Server.Reachable Options.standard .sample server ∧ Agreed (start server) ∧
      Runs.Meets (step Options.standard .sample) (Undisturbed Options.standard .sample)
        (start server) readMissing ∧
      Runs.run (step Options.standard .sample) (start server) readMissing = .ok last ∧
      last.waiting.isNone = true ∧ last.holds last.server (text "/a") = true ∧
      last.client.wm.watchers[text "/a"]?.isNone = true ∧ ¬ Agreed last := by
  obtain ⟨server, reachable, ⟨live, unwatched, alone⟩, found⟩ := Server.exists_reachable
    Options.standard .sample (.still 0) Server.joined
    (fun server => (server.machine.sm.get 1 = some 1 ∧
      (server.machine.sm.deref 1).watches.isEmpty = true ∧
      Runs.Meets (step Options.standard .sample) Alone (start server) readMissing) ∧
      Runs.passes (Runs.run (step Options.standard .sample) (start server) readMissing) (fun last =>
        last.waiting.isNone && last.holds last.server (text "/a") &&
          last.client.wm.watchers[text "/a"]?.isNone) = true)
    (by decide +kernel)
  simp only [Runs.passes_iff, Bool.and_eq_true] at found
  obtain ⟨last, reached, ⟨idle, held⟩, gone⟩ := found
  refine ⟨server, last, reachable, start_agreed live unwatched, undisturbed_of_alone alone, reached,
    idle, held, gone, fun agreed => ?_⟩
  have there := ExtTreeMap.isSome_getElem?_iff_mem.mpr ((agreed.watches _).mp held)
  rw [Option.isNone_iff_eq_none.mp gone] at there
  cases there

end Reading

end Client

end Pyxis
