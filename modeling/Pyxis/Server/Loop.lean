import Pyxis.Server.Server

set_option autoImplicit false

namespace Pyxis

namespace Machine

variable (options : Options) (env : Env)

def walkSessionFunc (call : SessionRecord × Nat) (m : Machine) : Except Fault Machine :=
  addSession options (env.clock call.2) (env.alloc m.sm) (Session.new call.1.sid call.1.timeout) m

def bindNode (sid : Sid) (path : Str) (m : Machine) : Machine :=
  match m.sm.get sid with
  | none => m
  | some p => { m with sm := m.sm.modify p (Session.bindNode path) }

def ensureSession (now : Time) (sid : Sid) (m : Machine) : Except Fault Machine :=
  -- An ephemeral node whose session is gone gets one with the default timeout.
  match m.sm.get sid with
  | some _ => .ok m
  | none => addSession options now (env.alloc m.sm) (Session.new sid kDefaultTimeout) m

def walkTreeFunc (call : (Str × Option Node) × Nat) (m : Machine) : Except Fault Machine :=
  match call.1.2 with
  | none => .ok m
  | some node =>
      if node.ephemeral then do
        let m ← ensureSession options env (env.clock call.2) node.sid m
        return bindNode node.sid call.1.1 m
      else .ok m

def onLoadSnapshot (m : Machine) : Except Fault (Machine × Nat) := do
  let records ← Store.walkSessions m.db
  let m ← Runs.run (walkSessionFunc options env) m records.zipIdx
  let m ← Runs.run (walkTreeFunc options env) m ((Store.walkTree m.db).zipIdx records.length)
  let index ← Store.getCommitIndex m.db
  return (m, index)

def load (db : Persist) (replies : List (Event × Response)) : Except Fault (Machine × Nat) := do
  let db ← Store.init options env.proc db
  onLoadSnapshot options env
    { db := db, sm := SessionManager.new (env.clock 0), wm := [], nextWatcher := 0
      replies := replies, trace := [] }

end Machine

inductive Ready where
  | event | command | state | timer
  deriving DecidableEq, Repr

namespace Server

variable (options : Options) (states : RaftStates) (env : Env)

/-- A new process: queues and sessions are lost, LevelDB and the raft log stay, and raft delivers
again from the entry after the index that `onLoadSnapshot` returns. -/
def restart (server : Server) : Except Fault Server := do
  let (m, index) ← Machine.load options env server.machine.db server.machine.replies
  let log := server.raft.delivered ++ server.raft.pending
  return {
    state := .follower
    inLoop := false
    tag := 0
    requests := []
    eventch := []
    cmdch := []
    statech := []
    raft := { leader := false, delivered := log.take index, pending := log.drop index }
    machine := m
    nextEvent := server.nextEvent }

def enter (server : Server) : Except Fault Server :=
  match server.state with
  | .leader => do
      let sm ← server.machine.sm.resetTimer fun call => env.clock (call + 2)
      step options env
        { server with
          inLoop := true
          machine := { server.machine with sm := sm.resetWatchers, wm := [] } }
  | .waiter =>
      let tag : Sid := UInt64.ofInt (env.clock 0)
      .ok (replicate (Request.tagged tag) none { server with inLoop := true, tag := tag })
  | .follower => .ok { server with inLoop := true }
  | .stop => .ok server

def leaderLoop (ready : Ready) (server : Server) : Except Fault Server :=
  match ready with
  | .state =>
      match server.statech with
      | [] => .ok server
      | st :: rest =>
          .ok { server with
            statech := rest
            state := if st = states.stop then .stop else .follower
            inLoop := false }
  | .event =>
      match server.eventch with
      | [] => .ok server
      | e :: rest => handleEvent options env e { server with eventch := rest }
  | .command =>
      match server.cmdch with
      | [] => .ok server
      | entry :: rest => onCommand options env entry.cmd { server with cmdch := rest }
  | .timer => do
      let server ← step options env server
      let due := server.machine.sm.getSessions (nextCheck options env)
      return server.onMachine (due.foldl (fun m p => m.pingBack p) server.machine)

def notLeading : Status :=
  if env.leaderId = 0 then Status.again (text "try again")
  else Status.notLeader (options.addrList.getD (env.leaderId - 1) [])

def followerLoop (ready : Ready) (server : Server) : Except Fault Server :=
  match ready with
  | .state =>
      match server.statech with
      | [] => .ok server
      | st :: rest =>
          if st = states.stop then
            .ok { server with statech := rest, state := .stop, inLoop := false }
          else if st = states.leader then
            .ok { server with statech := rest, state := .waiter, inLoop := false }
          else .ok { server with statech := rest }
  | .event =>
      match server.eventch with
      | [] => .ok server
      | e :: rest =>
          .ok { server with
            eventch := rest
            machine := server.machine.reply e
              (Response.empty.withStatus (notLeading options env)) }
  | .command =>
      match server.cmdch with
      | [] => .ok server
      | entry :: rest => onCommand options env entry.cmd { server with cmdch := rest }
  | .timer => .ok server

def waitLoop (ready : Ready) (server : Server) : Except Fault Server :=
  match ready with
  | .state =>
      match server.statech with
      | [] => .ok server
      | st :: rest =>
          if st = states.stop then
            .ok { server with statech := rest, state := .stop, inLoop := false }
          -- `CHECK(state != kLeader)` compares with this server's own state number.
          else if st = 0 then .error .waitState
          else .ok { server with statech := rest, state := .follower, inLoop := false }
  | .command =>
      match server.cmdch with
      | [] => .ok server
      | entry :: rest =>
          if entry.cmd.ping = true ∧ entry.cmd.sid = server.tag then
            .ok { server with cmdch := rest, state := .leader, inLoop := false }
          else onCommand options env entry.cmd { server with cmdch := rest }
  | .event | .timer => .ok server

/-- One turn of `mainLoop`: the prologue of the current loop, or one of its iterations. -/
def turn (ready : Ready) (server : Server) : Except Fault Server :=
  if server.inLoop = false then enter options env server
  else match server.state with
    | .leader => leaderLoop options states env ready server
    | .waiter => waitLoop options states env ready server
    | .follower => followerLoop options states env ready server
    | .stop => .ok server

end Server

/-- What the main thread, the rpc threads and raft do, one at a time. -/
inductive Action where
  | receive (req : Request)
  -- Raft changes its role and calls `onState`.
  | notify (st : Int)
  -- `Server::Stop`.
  | stop
  -- Raft calls `onSynced` on the next entry.
  | deliver
  -- A raft that follows takes over the log of its leader behind the first undelivered entries.
  | accept (kept : Nat) (cmds : List Request)
  | turn (env : Env) (ready : Ready)
  | restart (env : Env)

namespace Server

variable (options : Options) (states : RaftStates)

def receive (req : Request) (server : Server) : Server :=
  { server with
    eventch := server.eventch ++ [⟨server.nextEvent, req⟩]
    nextEvent := server.nextEvent + 1 }

def notify (st : Int) (server : Server) : Server :=
  onState st { server with raft := { server.raft with leader := decide (st = states.leader) } }

def deliver (server : Server) : Server :=
  match server.raft.pending with
  | [] => server
  | entry :: rest =>
      onSynced (server.raft.delivered.length + 1) entry
        { server with
          raft := { server.raft with
            delivered := server.raft.delivered ++ [entry]
            pending := rest } }

def accept (kept : Nat) (cmds : List Request) (server : Server) : Server :=
  if server.raft.leader then server
  else
    { server with
      raft := { server.raft with
        pending := server.raft.pending.take kept ++ cmds.map fun cmd => ⟨cmd, none⟩ } }

def act (action : Action) (server : Server) : Except Fault Server :=
  match action with
  | .receive req => .ok (server.receive req)
  | .notify st => .ok (server.notify states st)
  | .stop => .ok { server with statech := server.statech ++ [states.stop] }
  | .deliver => .ok server.deliver
  | .accept kept cmds => .ok (server.accept kept cmds)
  | .turn env ready => server.turn options states env ready
  | .restart env => server.restart options env

def initial (env : Env) : Except Fault Server :=
  restart options env
    { state := .follower, inLoop := false, tag := 0, requests := [], eventch := [], cmdch := []
      statech := [], raft := ⟨false, [], []⟩
      machine := ⟨∅, SessionManager.new 0, [], 0, [], []⟩, nextEvent := 0 }

end Server

end Pyxis
