import Pyxis.Server.Machine

set_option autoImplicit false

open Std (ExtTreeMap ExtTreeSet)

namespace Pyxis

/-- One entry of the raft log, with the event whose `replicate` put it there, if this server's
own client or session timer did. Nothing the server does depends on `origin`. -/
structure Entry where
  cmd : Request
  origin : Option Nat
  deriving DecidableEq, Repr

/-- This server's raft: whether it leads, and its log, cut where delivery has got to. -/
structure Raft where
  leader : Bool
  delivered : List Entry
  pending : List Entry

structure RaftStates where
  leader : Int
  stop : Int
  distinct : leader ≠ stop

def RaftStates.sample : RaftStates := ⟨1, 2, by decide⟩

/-- `inLoop` says that the loop of the current state has run its prologue; `tag` is the local
variable of `waitLoop`. -/
structure Server where
  state : State
  inLoop : Bool
  tag : Sid
  requests : List Event
  eventch : List Event
  cmdch : List Entry
  statech : List Int
  raft : Raft
  machine : Machine
  nextEvent : Nat

namespace Server

def onMachine (server : Server) (machine : Machine) : Server := { server with machine := machine }

def replicate (cmd : Request) (origin : Option Nat) (server : Server) : Server :=
  -- `Broadcast` appends to the log while raft leads, and does nothing otherwise.
  if server.raft.leader then
    { server with raft := { server.raft with pending := server.raft.pending ++ [⟨cmd, origin⟩] } }
  else server

section Replicate

variable (cmd : Request) (origin : Option Nat) (server : Server)

@[simp] theorem replicate_machine : (replicate cmd origin server).machine = server.machine := by
  unfold replicate; split <;> rfl

@[simp] theorem replicate_state : (replicate cmd origin server).state = server.state := by
  unfold replicate; split <;> rfl

@[simp] theorem replicate_inLoop : (replicate cmd origin server).inLoop = server.inLoop := by
  unfold replicate; split <;> rfl

@[simp] theorem replicate_tag : (replicate cmd origin server).tag = server.tag := by
  unfold replicate; split <;> rfl

@[simp] theorem replicate_requests : (replicate cmd origin server).requests = server.requests := by
  unfold replicate; split <;> rfl

@[simp] theorem replicate_cmdch : (replicate cmd origin server).cmdch = server.cmdch := by
  unfold replicate; split <;> rfl

@[simp] theorem replicate_statech : (replicate cmd origin server).statech = server.statech := by
  unfold replicate; split <;> rfl

@[simp] theorem replicate_leader :
    (replicate cmd origin server).raft.leader = server.raft.leader := by
  unfold replicate; split <;> rfl

@[simp] theorem replicate_delivered :
    (replicate cmd origin server).raft.delivered = server.raft.delivered := by
  unfold replicate; split <;> rfl

@[simp] theorem replicate_pending : (replicate cmd origin server).raft.pending =
    server.raft.pending ++ if server.raft.leader then [⟨cmd, origin⟩] else [] := by
  unfold replicate; split <;> simp [*]

end Replicate

variable (options : Options) (env : Env)

def clampTimeout (timeout : Int) : Int :=
  let timeout := if timeout < options.minSessionTimeout then options.minSessionTimeout else timeout
  if timeout > options.maxSessionTimeout then options.maxSessionTimeout else timeout

def handleRegister (e : Event) (timeout : Int) (server : Server) : Server :=
  let timeout := clampTimeout options timeout
  match e.req.sid? with
  | some sid =>
      match server.machine.sm.get sid with
      | some p =>
          let m :=
            { server.machine with sm := server.machine.sm.modify p (Session.setTimeout timeout) }
          server.onMachine (m.reply e { Response.empty with sid := some sid })
      | none =>
          let err : RpcError := ⟨.sessionExpired, []⟩
          server.onMachine (server.machine.reply e { Response.empty with err := some err })
  | none =>
      let (sid, sm) := server.machine.sm.genSid
      replicate (Request.registering sid timeout) (some e.id)
        { server with
          machine := { server.machine with sm := sm }
          requests := server.requests ++ [e] }

def handlePing (e : Event) (m : Machine) : Except Fault (Status × Machine) :=
  match m.sm.get e.req.sid with
  | none => .ok (expired, m)
  | some p => do
      let sm ← m.sm.touch options (env.clock 0) (m.sm.deref p).sid
      let m := Machine.holdPing p e { m with sm := sm }
      return (Status.ok, if (m.sm.deref p).pendingWatcher.isEmpty then m else m.pingBack p)

def handleRead (e : Event) (path : Str) (m : Machine) : Status × Option Payload × Machine :=
  if m.sm.get e.req.sid = none then (expired, none, m)
  else match Store.read options env.proc m.db path with
    | .error status => (status, none, m)
    | .ok data =>
        if e.req.watch.isSome then
          let (status, m) := m.onWatch e.req
          (status, some (.bytes data), m)
        else (Status.ok, some (.bytes data), m)

def handleStat (e : Event) (path : Str) (m : Machine) : Status × Option Payload × Machine :=
  if m.sm.get e.req.sid = none then (expired, none, m)
  else match Store.get options env.proc m.db path with
    | .error status =>
        if status.isNotFound = true ∧ e.req.watch.isSome = true then
          let (watched, m) := m.onWatch e.req
          (if watched.isOk then status else watched, none, m)
        else (status, none, m)
    | .ok node =>
        if e.req.watch.isSome then
          let (status, m) := m.onWatch e.req
          (status, some (.node node), m)
        else (Status.ok, some (.node node), m)

def handleLocal (e : Event) (m : Machine) : Except Fault Machine :=
  if e.req.ping then do
    let (status, m) ← handlePing options env e m
    return if status.isOk then m else m.reply e (Response.empty.withStatus status)
  else match e.req.read, e.req.stat with
    | some path, _ =>
        let (status, data, m) := handleRead options env e path m
        .ok (m.reply e ({ Response.empty with data := data }.withStatus status))
    | none, some path =>
        let (status, data, m) := handleStat options env e path m
        .ok (m.reply e ({ Response.empty with data := data }.withStatus status))
    | none, none =>
        if e.req.watch.isSome then
          let (status, m) := m.onWatch e.req
          .ok (m.reply e (Response.empty.withStatus status))
        else .ok (m.reply e Response.empty)

def touchFor (req : Request) (sm : SessionManager) : Except Fault SessionManager :=
  -- Every request but a ping or an unregister renews its session.
  if req.ping = false ∧ req.unregister = false then sm.touch options (env.clock 0) req.sid
  else .ok sm

def handleEvent (e : Event) (server : Server) : Except Fault Server :=
  match e.req.register with
  | some timeout => .ok (handleRegister options e timeout server)
  | none =>
      if server.machine.sm.get e.req.sid = none then
        .ok (server.onMachine (server.machine.reply e (Response.empty.withStatus expired)))
      else do
        let sm ← touchFor options env e.req server.machine.sm
        let server := server.onMachine { server.machine with sm := sm }
        if e.req.needBoradcast then
          let server := replicate e.req (some e.id) server
          return { server with requests := server.requests ++ [e] }
        else
          let m ← handleLocal options env e server.machine
          return server.onMachine m

def onSessionClosed (p : SessionPtr) (server : Server) : Except Fault Server :=
  -- `Step` has just closed the session.
  let session := server.machine.sm.deref p
  if session.active then .error .closedActive
  else
    handleEvent options env ⟨server.nextEvent, Request.closing session.sid⟩
      { server with nextEvent := server.nextEvent + 1 }

def closeExpired (p : SessionPtr) (server : Server) : Except Fault Server :=
  if (server.machine.sm.deref p).active then
    onSessionClosed options env p
      (server.onMachine { server.machine with sm := server.machine.sm.modify p Session.close })
  else .ok server

def step (server : Server) : Except Fault Server :=
  Runs.run (closeExpired options env) server (server.machine.sm.due (env.clock 0))

def nextCheck : Time :=
  roundTo (addTime (env.clock 1) options.sessionCheckInterval) options.sessionCheckInterval

def onCommand (cmd : Request) (server : Server) : Except Fault Server :=
  -- A leader answers the request at the front of `requests_`.
  if server.state = .leader then
    match server.requests with
    | [] => .error .requestsEmpty
    | e :: rest => do
        let (rep, m) ← server.machine.execute options env server.state cmd
        return { server with requests := rest, machine := m.reply e rep }
  else do
    let (_, m) ← server.machine.execute options env server.state cmd
    return server.onMachine m

def onState (st : Int) (server : Server) : Server :=
  let again := Response.empty.withStatus (Status.again (text "net error, try again"))
  let m := server.requests.foldl (fun m e => Machine.reply e again m) server.machine
  let m := m.sm.sessions.toList.foldl (fun m entry => m.pingBack entry.2) m
  { server with requests := [], machine := m, statech := server.statech ++ [st] }

def onSynced (index : Nat) (entry : Entry) (server : Server) : Server :=
  { server with
    machine := { server.machine with db := Store.setCommitIndex server.machine.db index }
    cmdch := server.cmdch ++ [entry] }

end Server

end Pyxis
