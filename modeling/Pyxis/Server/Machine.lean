import Pyxis.Server.SessionFrame
import Pyxis.Store.Persist

set_option autoImplicit false

open Std (ExtTreeMap ExtTreeSet)

namespace Pyxis

inductive State where
  | leader | waiter | follower | stop
  deriving DecidableEq, Repr

/-- What one step reads from outside the server: the successive readings of the clock, a fresh
address for a new session, the proc nodes and `raft_->LeaderId()`. -/
structure Env where
  clock : Nat → Time
  alloc : SessionManager → SessionPtr
  proc : ProcDB
  leaderId : Nat
  alloc_fresh : ∀ sm : SessionManager, sm.heap[alloc sm]? = none

def SessionManager.nextAddress (sm : SessionManager) : SessionPtr := sm.heap.keys.max?.getD 0 + 1

theorem SessionManager.nextAddress_fresh (sm : SessionManager) :
    sm.heap[sm.nextAddress]? = none := by
  apply ExtTreeMap.getElem?_eq_none
  intro used
  have bounded : sm.nextAddress ≤ sm.heap.keys.max?.getD 0 :=
    List.le_max?_getD_of_mem (ExtTreeMap.mem_keys.mpr used)
  exact Nat.not_succ_le_self _ bounded

def Env.still (now : Time) : Env where
  clock _ := now
  alloc := SessionManager.nextAddress
  proc := .silent
  leaderId := 0
  alloc_fresh := SessionManager.nextAddress_fresh

/-- What applied commands work on: LevelDB, the sessions and the watchers. Nothing depends on the
responses sent so far or on the trace of this process. -/
structure Machine where
  db : Persist
  sm : SessionManager
  wm : WatchManager
  nextWatcher : Nat
  replies : List (Event × Response)
  trace : List Trace

def Session.toProtobuf (s : Session) : SessionRecord where
  sid := s.sid
  timeout := s.timeout
  watch := s.watches.toList.map fun entry => (entry.2.path, entry.2.mask, entry.2.recursive)
  node := s.nodeSet.toList

def parentOf (path : Str) : Str :=
  match splitPath path with
  | .ok (parent, _) => parent
  | .error _ => []

def expired : Status := Status.sessionExpired (text "session expired")

namespace Machine

def reply (e : Event) (rep : Response) (m : Machine) : Machine :=
  { m with replies := m.replies ++ [(e, rep)] }

def pingBack (p : SessionPtr) (m : Machine) : Machine :=
  let m' := { m with sm := m.sm.modify p fun s => s.pingBack.2 }
  match (m.sm.deref p).pingBack.1 with
  | none => m'
  | some (e, rep) => m'.reply e rep

def holdPing (p : SessionPtr) (e : Event) (m : Machine) : Machine :=
  -- A ping held before loses its last reference, and its response goes out.
  let m := match (m.sm.deref p).pingEvent with
    | none => m
    | some old => m.reply old Response.empty
  { m with sm := m.sm.modify p (Session.holdPing e) }

variable (options : Options) (env : Env) (state : State)

def watchCallback (w : Watcher) (e : Watch.Event) (m : Machine) : Machine :=
  match m.sm.get w.sid with
  | none => m
  | some p =>
      let m :=
        if state = .leader then
          pingBack p
            { m with
              sm := m.sm.modify p (Session.pend w.path e)
              trace := m.trace ++ [.notify w e] }
        else m
      { m with sm := m.sm.modify p (Session.removeWatch w) }

def trigerInternal (e : Watch.Event) (m : Machine) (call : Str × Bool) : Machine :=
  let fired := m.wm.filter (WatchManager.fires call.1 e call.2)
  { fired.foldl (fun m entry => watchCallback state entry.2 e m) m with
    wm := m.wm.filter fun entry => !WatchManager.fires call.1 e call.2 entry }

def triger (e : Watch.Event) (m : Machine) : Except Fault Machine :=
  match trigerPaths e.node with
  | none => .error .trigerLoop
  | some calls =>
      .ok (calls.foldl (trigerInternal state e) { m with trace := m.trace ++ [.triger e] })

def trigerBoth (path : Str) (type : UInt32) (m : Machine) : Except Fault Machine := do
  let m ← triger state ⟨path, type⟩ m
  triger state ⟨parentOf path, Watch.kChildren⟩ m

def deleteNode (path : Str) (m : Machine) : Except Fault (Status × Machine) := do
  let (status, db) ← Store.delete options env.proc m.db path
  if status.isOk then
    let m ← trigerBoth state path Watch.kDelete { m with db := db }
    return (Status.ok, m)
  else return (status, { m with db := db })

def destroyNode (sid : Sid) (path : Str) (m : Machine) : Except Fault Machine :=
  -- A lookup that fails with another status than NotFound leaves the sid of the node at its
  -- default.
  let owner :=
    match Store.get options env.proc m.db path with
    | .error status => if status.isNotFound then none else some 0
    | .ok node => some node.sid
  if owner = some sid then do
    let (status, m) ← deleteNode options env state path m
    if status.isOk || status.isNotFound then return m else .error .closeDelete
  else .ok m

def destroySession (p : SessionPtr) (m : Machine) : Except Fault Machine := do
  -- A ping that the session holds is answered as it is dropped.
  let session := m.sm.deref p
  let wm := session.watches.toList.foldl (fun wm entry => WatchManager.remove wm entry.2) m.wm
  let m ← Runs.run (destroyNode options env state session.sid) { m with wm := wm }
    session.nodeSet.toList
  let m := match session.pingEvent with
    | none => m
    | some e => m.reply e Response.empty
  return { m with sm := { m.sm with heap := m.sm.heap.erase p } }

def release (p : SessionPtr) (m : Machine) : Except Fault Machine :=
  -- The last reference destroys the session.
  if m.sm.referenced p then .ok m else destroySession options env state p m

def addSession (now : Time) (p : SessionPtr) (session : Session) (m : Machine) :
    Except Fault Machine := do
  let sm ← m.sm.add options now p session
  return { m with db := Store.addSession m.db session.toProtobuf, sm := sm }

def removeSession (sid : Sid) (m : Machine) : Except Fault Machine := do
  let sm ← m.sm.remove sid
  return { m with db := Store.removeSession m.db sid, sm := sm }

def onRegister (req : Request) (timeout : Int) (m : Machine) :
    Except Fault (Status × Sid × Machine) := do
  let p := env.alloc m.sm
  let m ← addSession options (env.clock 0) p (Session.new req.sid timeout) m
  let m ← release options env state p m
  return (Status.ok, req.sid, m)

def onUnRegister (req : Request) (m : Machine) : Except Fault (Status × Machine) :=
  match m.sm.get req.sid with
  | none => .ok (expired, m)
  | some p => do
      let m ← removeSession (m.sm.deref p).sid { m with sm := m.sm.modify p Session.close }
      let m ← release options env state p m
      return (Status.ok, m)

def onCreate (req : Request) (create : CreateRequest) (m : Machine) :
    Except Fault (Status × Machine) :=
  if m.sm.get req.sid = none ∧ isEphemeral create.flags = true then .ok (expired, m)
  else
    let (status, db) :=
      Store.create options env.proc m.db create.path create.data create.flags req.sid
    if status.isOk then
      let bound : Except Fault Machine :=
        if isEphemeral create.flags then
          match m.sm.get req.sid with
          | none => .error .createSession
          | some p => .ok { m with db := db, sm := m.sm.modify p (Session.bindNode create.path) }
        else .ok { m with db := db }
      do
        let m ← bound
        let m ← trigerBoth state create.path Watch.kCreate m
        return (status, m)
    else .ok (status, { m with db := db })

def onDelete (req : Request) (path : Str) (m : Machine) : Except Fault (Status × Machine) :=
  match Store.get options env.proc m.db path with
  | .error status => .ok (status, m)
  | .ok _ => do
      let (status, m) ← deleteNode options env state path m
      if status.isOk then
        match m.sm.get req.sid with
        | none => return (expired, m)
        | some p => return (Status.ok, { m with sm := m.sm.modify p (Session.removeNode path) })
      else return (status, m)

def onWatch (req : Request) (m : Machine) : Status × Machine :=
  match m.sm.get req.sid with
  | none => (expired, m)
  | some p =>
      let wreq := req.watchBody
      if wreq.path ∈ (m.sm.deref p).watches then (Status.ok, m)
      else
        let w : Watcher :=
          ⟨m.nextWatcher, wreq.path, (m.sm.deref p).sid, wreq.watch, wreq.recursive⟩
        (Status.ok,
          { m with
            wm := m.wm.add wreq.path w
            nextWatcher := m.nextWatcher + 1
            sm := m.sm.modify p (Session.bindWatch w) })

def onRead (req : Request) (path : Str) (m : Machine) : Except Fault (Status × Payload × Machine) :=
  if req.watch.isNone then .error .readWatch
  else match Store.read options env.proc m.db path with
    | .error status => .ok (status, .bytes [], m)
    | .ok data =>
        let (status, m) := onWatch req m
        .ok (status, .bytes data, m)

def onWrite (write : WriteRequest) (m : Machine) : Except Fault (Status × Machine) := do
  let (status, db) := Store.write options env.proc m.db write.path write.data
  if status.isOk then
    let m ← triger state ⟨write.path, Watch.kModify⟩ { m with db := db }
    return (status, m)
  else return (status, { m with db := db })

def onStat (req : Request) (path : Str) (m : Machine) : Except Fault (Status × Payload × Machine) :=
  if req.watch.isNone then .error .statWatch
  else match Store.get options env.proc m.db path with
    | .error status =>
        if status.isNotFound then
          let (watched, m) := onWatch req m
          .ok (if watched.isOk then status else watched, .bytes [], m)
        else .ok (status, .bytes [], m)
    | .ok node =>
        let (status, m) := onWatch req m
        .ok (status, .node node, m)

def execute (req : Request) (m : Machine) : Except Fault (Response × Machine) :=
  let rep := Response.empty
  match req.body with
  | .register timeout => do
      let (status, sid, m) ← onRegister options env state req timeout m
      return ((if status.isOk then { rep with sid := some sid } else rep).withStatus status, m)
  | .unregister => do
      let (status, m) ← onUnRegister options env state req m
      return (rep.withStatus status, m)
  | .create create => do
      let (status, m) ← onCreate options env state req create m
      return (rep.withStatus status, m)
  | .delete path => do
      let (status, m) ← onDelete options env state req path m
      return (rep.withStatus status, m)
  | .read path => do
      let (status, data, m) ← onRead options env req path m
      return ({ rep with data := some data }.withStatus status, m)
  | .write write => do
      let (status, m) ← onWrite options env state write m
      return (rep.withStatus status, m)
  | .stat path => do
      let (status, data, m) ← onStat options env req path m
      return ({ rep with data := some data }.withStatus status, m)
  | .watch =>
      let (status, m) := onWatch req m
      .ok (rep.withStatus status, m)
  | .none => .ok (rep, m)

end Machine

end Pyxis
