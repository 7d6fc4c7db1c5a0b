import Std.Data.ExtTreeMap
import Std.Data.ExtTreeSet
import Pyxis.Shared.Double
import Pyxis.Shared.Runs
import Pyxis.Server.Watch
import Pyxis.Store.Tree

set_option autoImplicit false

open Std (ExtTreeMap ExtTreeSet)

namespace Pyxis

def kDefaultTimeout : Int := 4 * 60 * 1000

structure Session where
  sid : Sid
  timeout : Int
  expire : Time
  active : Bool
  pingEvent : Option Event
  pendingWatcher : List (Str × Watch.Event)
  watches : ExtTreeMap Str Watcher
  nodeSet : ExtTreeSet Str

namespace Session

def new (sid : Sid) (timeout : Int) : Session where
  sid := sid
  timeout := timeout
  expire := 0
  active := true
  pingEvent := none
  pendingWatcher := []
  watches := ∅
  nodeSet := ∅

def close (s : Session) : Session := { s with active := false }
def setTimeout (timeout : Int) (s : Session) : Session := { s with timeout := timeout }
def setExpireTime (expire : Time) (s : Session) : Session := { s with expire := expire }
def holdPing (e : Event) (s : Session) : Session := { s with pingEvent := some e }
def bindWatch (w : Watcher) (s : Session) : Session :=
  { s with watches := s.watches.insert w.path w }
def removeWatch (w : Watcher) (s : Session) : Session :=
  { s with watches := s.watches.erase w.path }
def resetWatch (s : Session) : Session := { s with watches := ∅ }
def bindNode (path : Str) (s : Session) : Session := { s with nodeSet := s.nodeSet.insert path }
def removeNode (path : Str) (s : Session) : Session := { s with nodeSet := s.nodeSet.erase path }

def insertPending (path : Str) (e : Watch.Event) :
    List (Str × Watch.Event) → List (Str × Watch.Event)
  -- `multimap::insert`: after the entries of the same path.
  | [] => [(path, e)]
  | entry :: rest =>
      if path < entry.1 then (path, e) :: entry :: rest else entry :: insertPending path e rest

def pend (path : Str) (e : Watch.Event) (s : Session) : Session :=
  { s with pendingWatcher := insertPending path e s.pendingWatcher }

def pingBack (s : Session) : Option (Event × Response) × Session :=
  match s.pingEvent with
  | none => (none, s)
  | some e =>
      match s.pendingWatcher with
      | [] => (some (e, Response.empty), { s with pingEvent := none })
      | (path, event) :: rest =>
          (some (e, { Response.empty with path := some path, watch := some event }),
            { s with pingEvent := none, pendingWatcher := rest })

-- What the applied commands read of a session and change in it.
def standing (s : Session) : Sid × Bool × ExtTreeSet Str := (s.sid, s.active, s.nodeSet)

-- All but what a session owes its client.
def core (s : Session) : Session :=
  { s with pingEvent := none, pendingWatcher := [], watches := ∅ }

theorem fields_of_core {s t : Session} (same : s.core = t.core) :
    s.sid = t.sid ∧ s.timeout = t.timeout ∧ s.expire = t.expire ∧ s.active = t.active ∧
      s.nodeSet = t.nodeSet := by
  simpa [core] using same

theorem core_pingBack (s : Session) : s.pingBack.2.core = s.core := by
  unfold pingBack
  split
  · rfl
  · split <;> rfl

end Session

-- The address of a `Session`. Two sessions held by `boost::shared_ptr` compare by address.
abbrev SessionPtr := Nat

abbrev SessionSet := ExtTreeSet SessionPtr

def micros (ms : Int) : Int :=
  let seconds := Double.round (Double.round ms / 1000)
  Double.truncate (Double.round (seconds * 1000000))

-- `muduo::addTime` of `static_cast<double>(ms) / 1000` seconds.
def addTime (t : Time) (ms : Int) : Time := t + micros ms

def roundTo (t : Time) (step : Int) : Time :=
  -- The nearest multiple of `step` milliseconds, with exact division.
  let step := step * 1000
  (2 * t + step).tdiv (2 * step) * step

structure SessionManager where
  sid : Sid
  sessions : ExtTreeMap Sid SessionPtr
  timers : ExtTreeMap Time SessionSet
  heap : ExtTreeMap SessionPtr Session

namespace SessionManager

def initSid (now : Time) : Sid := (now / 1000).toNat.toUInt64 <<< 24 >>> 8

def new (now : Time) : SessionManager where
  sid := initSid now
  sessions := ∅
  timers := ∅
  heap := ∅

variable (options : Options)

def get (sm : SessionManager) (sid : Sid) : Option SessionPtr := sm.sessions[sid]?

def deref (sm : SessionManager) (p : SessionPtr) : Session := sm.heap[p]?.getD (Session.new 0 0)

def modify (sm : SessionManager) (p : SessionPtr) (f : Session → Session) : SessionManager :=
  { sm with heap := sm.heap.modify p f }

def genSid (sm : SessionManager) : Sid × SessionManager :=
  (sm.sid + 1, { sm with sid := sm.sid + 1 })

def removeFromTimers (sm : SessionManager) (sid : Sid) : Except Fault SessionManager :=
  match sm.get sid with
  | none => .error .timersSession
  | some p =>
      let expire := (sm.deref p).expire
      match sm.timers[expire]? with
      | none => .ok sm
      | some set =>
          .ok { sm with
            timers :=
              if (set.erase p).isEmpty then sm.timers.erase expire
              else sm.timers.insert expire (set.erase p) }

def touch (now : Time) (sm : SessionManager) (sid : Sid) : Except Fault SessionManager :=
  match sm.get sid with
  | none => .error .touchSession
  | some p =>
      if (sm.deref p).active = false then .ok sm
      else
        match removeFromTimers sm sid with
        | .error fault => .error fault
        | .ok sm =>
            let expire := roundTo (addTime now (sm.deref p).timeout) options.sessionCheckInterval
            .ok { sm.modify p (Session.setExpireTime expire) with
              timers := sm.timers.insert expire ((sm.timers[expire]?.getD ∅).insert p) }

def add (now : Time) (sm : SessionManager) (p : SessionPtr) (session : Session) :
    Except Fault SessionManager :=
  -- A sid that is there already keeps its session.
  touch options now
    { sm with
      sid := if sm.sid < session.sid then session.sid else sm.sid
      heap := sm.heap.insert p session
      sessions := sm.sessions.insertIfNew session.sid p }
    session.sid

def remove (sm : SessionManager) (sid : Sid) : Except Fault SessionManager :=
  match sm.get sid with
  | none => .error .removeSession
  | some p =>
      if (sm.deref p).active then .error .removeActive
      else
        match removeFromTimers sm sid with
        | .error fault => .error fault
        | .ok sm => .ok { sm with sessions := sm.sessions.erase sid }

def due (sm : SessionManager) (now : Time) : List SessionPtr :=
  (sm.timers.toList.takeWhile fun bucket => bucket.1 < now).flatMap fun bucket => bucket.2.toList

def resetBucket (clock : Nat → Time) (bucket : (Time × SessionSet) × Nat)
    (sm : SessionManager) : Except Fault SessionManager :=
  match bucket.1.2.toList with
  | [] => .error .emptyBucket
  | first :: rest =>
      let expire := addTime (clock bucket.2) (sm.deref first).timeout
      let sm := (first :: rest).foldl (fun sm p => sm.modify p (Session.setExpireTime expire)) sm
      -- Buckets that meet at one time replace each other: `newSet.swap(set)`.
      .ok { sm with timers := sm.timers.insert expire bucket.1.2 }

def resetTimer (clock : Nat → Time) (sm : SessionManager) : Except Fault SessionManager :=
  Runs.run (resetBucket clock) { sm with timers := ∅ } sm.timers.toList.zipIdx

def resetWatchers (sm : SessionManager) : SessionManager :=
  sm.sessions.toList.foldl (fun sm entry => sm.modify entry.2 Session.resetWatch) sm

def getSessions (sm : SessionManager) (time : Time) : List SessionPtr :=
  (sm.timers[time]?.getD ∅).toList

def referenced (sm : SessionManager) (p : SessionPtr) : Bool :=
  sm.sessions.toList.any (fun entry => entry.2 == p) ||
    sm.timers.toList.any fun bucket => bucket.2.contains p

end SessionManager

end Pyxis
