import Std.Data.ExtTreeMap
import Pyxis.Shared.OrderedMap
import Pyxis.Store.Tree

set_option autoImplicit false

namespace Pyxis

structure SessionRecord where
  sid : Sid
  timeout : Int
  watch : List (Str × UInt32 × Bool)
  node : List Str
  deriving DecidableEq, Repr

inductive Value where
  | node (node : Node)
  | session (record : SessionRecord)
  | index (index : Nat)
  deriving DecidableEq, Repr

namespace Value

def toNode : Value → Option Node
  | .node stored => some stored
  | _ => none

def toSession : Value → Option SessionRecord
  | .session stored => some stored
  | _ => none

end Value

/-- The contents of one LevelDB, in unsigned bytewise key order. -/
abbrev Persist := Std.ExtTreeMap Str Value

structure DbError where
  isNotFound : Bool
  text : Str

/-- The virtual database behind the proc root. Its handlers read server memory and write files
outside the store, so any result may come back. -/
structure ProcDB where
  get : Str → Except DbError Value
  put : Str → Node → Option DbError

def ProcDB.silent : ProcDB where
  get _ := .error ⟨true, []⟩
  put _ _ := some ⟨true, []⟩

namespace Store

def sessionPrefix : Str := ['s', 's']
def commitKey : Str := ['c', 'o', 'm', 'm', 'i', 't']

def leBytes : Nat → Nat → Str
  -- The low bytes of a machine word, in memory order of a little-endian host.
  | 0, _ => []
  | count + 1, n => Char.ofNat (n % 256) :: leBytes count (n / 256)

def sessionKey (sid : Sid) : Str := sessionPrefix ++ leBytes 8 sid.toNat

variable (layout : Layout) (proc : ProcDB)

def get (db : Persist) (path : Str) : Except Status Node :=
  if isValidPath path = false then .error (Status.invalidArgument path)
  else
    let found :=
      if layout.underProc path then proc.get path
      else match db[path]? with
        | some value => .ok value
        | none => .error ⟨true, text "NotFound: "⟩
    match found with
    | .error failure =>
        if failure.isNotFound then .error (Status.notFound path)
        else .error (Status.internal (path ++ text " " ++ failure.text))
    | .ok value =>
        match value.toNode with
        | some node => .ok node
        | none => .error (Status.internal (path ++ text " bad data"))

def put (db : Persist) (path : Str) (node : Node) : Status × Persist :=
  if isValidPath path = false then (Status.invalidArgument (text "invalid path"), db)
  else if layout.sizeLimit < node.byteSize then
    (Status.invalidArgument (text "node size exceed"), db)
  else if layout.underProc path then
    match proc.put path node with
    | none => (Status.ok, db)
    | some failure => (Status.internal (path ++ text " " ++ failure.text), db)
  else (Status.ok, db.insert path (.node node))

def init (db : Persist) : Except Fault Persist :=
  match db[rootPath]? with
  | some _ => .ok db
  | none =>
      let root := addChild (newNode [] kPersist) (layout.procRoot.dropWhile (· == '/'))
      let (status, written) := put layout proc db rootPath root
      if status.isOk then .ok written else .error .rootPut

def create (db : Persist) (path data : Str) (flags : UInt32) (sid : Sid) : Status × Persist :=
  if layout.underProc path then
    (Status.invalidArgument (text "can't create node under pyxis node"), db)
  else if layout.sizeLimit < data.length then
    (Status.invalidArgument (text "node size exceed"), db)
  else match splitPath path with
    | .error status => (status, db)
    | .ok (parentName, sonName) =>
        match get layout proc db path with
        | .ok _ => (Status.exist path, db)
        | .error status =>
            if status.isInvalidArgument then (status, db)
            else match get layout proc db parentName with
              | .error status => (status, db)
              | .ok parent =>
                  if parent.ephemeral then
                    (Status.invalidArgument (text "parent not persistent node"), db)
                  else if layout.sizeLimit < (addChild parent sonName).byteSize then
                    (Status.invalidArgument (text "node size exceed"), db)
                  else
                    (Status.ok,
                      (db.insert path (.node { newNode data flags with sid := sid })).insert
                        parentName (.node (addChild parent sonName)))

def delete (db : Persist) (path : Str) : Except Fault (Status × Persist) :=
  if layout.underProc path then
    .ok (Status.invalidArgument (text "can't delete node under pyxis node"), db)
  else match splitPath path with
    | .error status => .ok (status, db)
    | .ok (parentName, sonName) =>
        match get layout proc db path with
        | .error status =>
            if status.isNotFound then .ok (Status.notFound path, db) else .ok (status, db)
        | .ok son =>
            if son.children.length ≠ 0 then
              .ok (Status.invalidArgument (text "children not empty"), db)
            else match get layout proc db parentName with
              | .error status => .ok (status, db)
              | .ok parent =>
                  match removeChild parent sonName with
                  | .error _ => .error .removeChild
                  | .ok removed =>
                      .ok (Status.ok, (db.erase path).insert parentName (.node removed))

def read (db : Persist) (path : Str) : Except Status Str :=
  (get layout proc db path).map Node.data

def write (db : Persist) (path data : Str) : Status × Persist :=
  match get layout proc db path with
  | .error status => (status, db)
  | .ok node =>
      put layout proc db path { node with data := data, version := node.version + 1 }

def addSession (db : Persist) (record : SessionRecord) : Persist :=
  db.insert (sessionKey record.sid) (.session record)

def removeSession (db : Persist) (sid : Sid) : Persist := db.erase (sessionKey sid)

def setCommitIndex (db : Persist) (index : Nat) : Persist := db.insert commitKey (.index index)

def getCommitIndex (db : Persist) : Except Fault Nat :=
  match db[commitKey]? with
  | none => .ok 0
  | some (.index index) => .ok index
  | some _ => .error .commitValue

def walkTree (db : Persist) : List (Str × Option Node) :=
  (OrderedMap.scan rootPath ['/', Char.ofNat 0xFF] db).map fun entry => (entry.1, entry.2.toNode)

def sessionEnd : Str := sessionPrefix ++ List.replicate 8 (Char.ofNat 0xFF)

def readSession (entry : Str × Value) : Except Fault SessionRecord :=
  if entry.1.length ≠ sessionPrefix.length + 8 then .error .sessionKeySize
  else match entry.2.toSession with
    | none => .error .sessionKeySid
    | some record =>
        if entry.1.drop sessionPrefix.length = leBytes 8 record.sid.toNat then .ok record
        else .error .sessionKeySid

def walkSessions (db : Persist) : Except Fault (List SessionRecord) :=
  -- The bound is the key of the largest sid, which the strict comparison leaves out.
  (OrderedMap.scan sessionPrefix sessionEnd db).mapM readSession

end Store

end Pyxis
