import Mathlib.Data.List.Basic

set_option autoImplicit false

namespace Pyxis

-- A `std::string`: one character for each byte.
abbrev Str := List Char

@[irreducible] def text (literal : String) : Str := literal.toList

abbrev Sid := UInt64

-- There are finitely many sids, but to look through all of them is not to be thought of.
instance (priority := 2000) {p : Sid → Prop} [DecidablePred p] (sids : Option Sid) :
    Decidable (∀ sid ∈ sids, p sid) :=
  Option.decidableForallMem sids

-- A `muduo::Timestamp`, in microseconds since the epoch.
abbrev Time := Int

inductive Code where
  | ok | notLeader | notFound | sessionExpired | invalidArgument | internal
  | again | exist | disconnect | timeout | cached
  deriving DecidableEq, Repr

structure Status where
  code : Code
  msg : Str
  deriving DecidableEq, Repr

namespace Status

def ok : Status := ⟨.ok, []⟩
def notLeader (msg : Str) : Status := ⟨.notLeader, msg⟩
def notFound (msg : Str) : Status := ⟨.notFound, msg⟩
def sessionExpired (msg : Str) : Status := ⟨.sessionExpired, msg⟩
def invalidArgument (msg : Str) : Status := ⟨.invalidArgument, msg⟩
def internal (msg : Str) : Status := ⟨.internal, msg⟩
def again (msg : Str) : Status := ⟨.again, msg⟩
def exist (msg : Str) : Status := ⟨.exist, msg⟩
def disconnect (msg : Str) : Status := ⟨.disconnect, msg⟩
def timeout (msg : Str) : Status := ⟨.timeout, msg⟩
def cached (msg : Str) : Status := ⟨.cached, msg⟩

def isOk (status : Status) : Bool := status.code == .ok
def isNotFound (status : Status) : Bool := status.code == .notFound
def isInvalidArgument (status : Status) : Bool := status.code == .invalidArgument
def isDisconnect (status : Status) : Bool := status.code == .disconnect

@[simp] theorem isOk_ok : ok.isOk = true := rfl
@[simp] theorem isOk_notFound (msg : Str) : (notFound msg).isOk = false := rfl
@[simp] theorem isOk_invalidArgument (msg : Str) : (invalidArgument msg).isOk = false := rfl
@[simp] theorem isOk_internal (msg : Str) : (internal msg).isOk = false := rfl
@[simp] theorem isOk_exist (msg : Str) : (exist msg).isOk = false := rfl
@[simp] theorem isOk_sessionExpired (msg : Str) : (sessionExpired msg).isOk = false := rfl
@[simp] theorem isNotFound_notFound (msg : Str) : (notFound msg).isNotFound = true := rfl
@[simp] theorem isNotFound_invalidArgument (msg : Str) :
    (invalidArgument msg).isNotFound = false := rfl
@[simp] theorem isInvalidArgument_notFound (msg : Str) :
    (notFound msg).isInvalidArgument = false := rfl
@[simp] theorem isInvalidArgument_invalidArgument (msg : Str) :
    (invalidArgument msg).isInvalidArgument = true := rfl

end Status

inductive ErrorType where
  | none | notLeader | notFound | sessionExpired | invalidArgument | again | internal | exist
  deriving DecidableEq, Repr

structure RpcError where
  type : ErrorType
  data : Str
  deriving DecidableEq, Repr

def Status.toRpcError (status : Status) : RpcError :=
  { data := status.msg
    type :=
      match status.code with
      | .ok => .none
      | .notLeader => .notLeader
      | .notFound => .notFound
      | .sessionExpired => .sessionExpired
      | .invalidArgument => .invalidArgument
      | .again => .again
      | .exist => .exist
      | _ => .internal }

def Status.fromRpcError (err : RpcError) : Status :=
  match err.type with
  | .none => ok
  | .notFound => notFound err.data
  | .notLeader => notLeader err.data
  | .sessionExpired => sessionExpired err.data
  | .invalidArgument => invalidArgument err.data
  | .again => again err.data
  | .exist => exist err.data
  | .internal => internal err.data

theorem Status.isOk_fromRpcError (status : Status) :
    (fromRpcError status.toRpcError).isOk = status.isOk := by
  obtain ⟨code, msg⟩ := status
  cases code <;> rfl

/-- A failing `CHECK`, which aborts the process, named after the place it stands at; `trigerLoop`
stands for the upward walk of `WatchManager::Triger` never ending. -/
inductive Fault where
  | rootPut            -- Store::init, Put("/")
  | removeChild        -- Store::Delete
  | sessionKeySize     -- Store::WalkSessions
  | sessionKeySid      -- Store::WalkSessions
  | commitValue        -- Store::GetCommitIndex
  | touchSession       -- SessionManager::Touch
  | timersSession      -- SessionManager::removeFromTimers
  | removeSession      -- SessionManager::Remove, CHECK(s)
  | removeActive       -- SessionManager::Remove, CHECK(!IsActive)
  | emptyBucket        -- SessionManager::ResetTimer
  | closedActive       -- Server::onSessionClosed
  | requestsEmpty      -- Server::onCommand
  | createSession      -- Server::onCreate
  | readWatch          -- Server::onRead
  | statWatch          -- Server::onStat
  | waitState          -- Server::waitLoop
  | closeDelete        -- Session::~Session
  | takeSnapshot       -- Store::TakeSnapshot
  | procChild          -- ProcDB::onProcRead, substr
  | setTimer           -- Timer::After
  | clearConnected     -- rpc::Client::clearCalls
  | trigerLoop
  deriving DecidableEq, Repr

end Pyxis
