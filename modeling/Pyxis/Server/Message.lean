import Pyxis.Store.Node

set_option autoImplicit false

namespace Pyxis

structure CreateRequest where
  path : Str
  flags : UInt32
  data : Str
  deriving DecidableEq, Repr

structure WriteRequest where
  path : Str
  data : Str
  deriving DecidableEq, Repr

structure WatchRequest where
  path : Str
  watch : UInt32
  recursive : Bool
  deriving DecidableEq, Repr

/-- `rpc::Request`: any combination of the optional bodies. A register carries its timeout; an
unregister and a ping carry nothing. -/
structure Request where
  sid? : Option Sid
  register : Option Int
  unregister : Bool
  ping : Bool
  create : Option CreateRequest
  delete : Option Str
  write : Option WriteRequest
  read : Option Str
  stat : Option Str
  watch : Option WatchRequest
  deriving DecidableEq, Repr

inductive Body where
  | register (timeout : Int)
  | unregister
  | create (create : CreateRequest)
  | delete (path : Str)
  | read (path : Str)
  | write (write : WriteRequest)
  | stat (path : Str)
  | watch
  | none
  deriving DecidableEq, Repr

namespace Request

def body (req : Request) : Body :=
  -- The order in which `onCommand` looks for a body.
  match req.register, req.unregister, req.create, req.delete, req.read, req.write, req.stat with
  | some timeout, _, _, _, _, _, _ => .register timeout
  | none, true, _, _, _, _, _ => .unregister
  | none, false, some create, _, _, _, _ => .create create
  | none, false, none, some path, _, _, _ => .delete path
  | none, false, none, none, some path, _, _ => .read path
  | none, false, none, none, none, some write, _ => .write write
  | none, false, none, none, none, none, some path => .stat path
  | none, false, none, none, none, none, none => if req.watch.isSome then .watch else .none

def empty : Request where
  sid? := none
  register := none
  unregister := false
  ping := false
  create := none
  delete := none
  write := none
  read := none
  stat := none
  watch := none

-- `req->sid()`, zero when the field is not set.
def sid (req : Request) : Sid := req.sid?.getD 0

def watchBody (req : Request) : WatchRequest := req.watch.getD ⟨[], 0, false⟩

def needBoradcast (req : Request) : Bool :=
  req.unregister || req.register.isSome || req.create.isSome || req.delete.isSome ||
    req.write.isSome

def closing (sid : Sid) : Request := { empty with sid? := some sid, unregister := true }

-- The request that `waitLoop` broadcasts to learn that the log before it is committed.
def tagged (tag : Sid) : Request := { empty with sid? := some tag, ping := true }

def registering (sid : Sid) (timeout : Int) : Request :=
  { empty with sid? := some sid, register := some timeout }

def creating (sid : Sid) (path : Str) (flags : UInt32) : Request :=
  { empty with sid? := some sid, create := some ⟨path, flags, []⟩ }

def deleting (sid : Sid) (path : Str) : Request :=
  { empty with sid? := some sid, delete := some path }

def watching (sid : Sid) (watch : WatchRequest) : Request :=
  { empty with sid? := some sid, watch := some watch }

end Request

namespace Watch

def kNone : UInt32 := 0x00000000
def kCreate : UInt32 := 0x00000001
def kDelete : UInt32 := 0x00000002
def kModify : UInt32 := 0x00000004
def kChildren : UInt32 := 0x00000008

structure Event where
  node : Str
  type : UInt32
  deriving DecidableEq, Repr

end Watch

-- The `data` field of a response: the bytes of a read, or the serialised node of a stat.
inductive Payload where
  | bytes (data : Str)
  | node (node : Node)
  deriving DecidableEq, Repr

structure Response where
  err : Option RpcError
  data : Option Payload
  watch : Option Watch.Event
  sid : Option Sid
  path : Option Str
  deriving DecidableEq, Repr

namespace Response

def empty : Response where
  err := none
  data := none
  watch := none
  sid := none
  path := none

def withStatus (rep : Response) (status : Status) : Response :=
  if status.isOk then rep else { rep with err := some status.toRpcError }

@[simp] theorem watch_withStatus (rep : Response) (status : Status) :
    (rep.withStatus status).watch = rep.watch := by
  unfold withStatus; split <;> rfl

theorem err_withStatus (rep : Response) (status : Status) :
    (rep.withStatus status).err =
      if status.isOk then rep.err else some status.toRpcError := by
  unfold withStatus; split <;> rfl

end Response

/-- An `rpc::Event`. Its response goes out when the last reference to it is dropped. -/
structure Event where
  id : Nat
  req : Request
  deriving DecidableEq, Repr

end Pyxis
