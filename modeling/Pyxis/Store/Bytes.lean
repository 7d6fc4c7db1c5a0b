import Mathlib.Data.Nat.Digits.Lemmas
import Mathlib.Logic.Encodable.Basic
import Mathlib.Logic.Equiv.List
import Pyxis.Store.Content
import Pyxis.Store.Size

set_option autoImplicit false

open Std (ExtTreeMap)

namespace Pyxis

-- A `Str` that is a string of bytes.
def IsBytes (s : Str) : Prop := ∀ c ∈ s, c.toNat < 256

instance (s : Str) : Decidable (IsBytes s) := List.decidableBAll _ s

theorem toNat_byte {n : Nat} (small : n < 256) : (Char.ofNat n).toNat = n := by
  rw [Char.ofNat, dif_pos (.inl (by omega))]
  rfl

namespace Proto

-- `store::Node`
structure Node where
  data : Option Str
  children : List Str
  flags : Option UInt32
  version : Option UInt64
  sid : Option Sid

-- `store::WatchEvent`
structure WatchEvent where
  path : Str
  type : UInt32
  recursive : Option Bool

-- `store::Session`
structure Session where
  sid : Sid
  watch : List WatchEvent
  node : List Str
  timeout : UInt32

-- `SerializeToString` and `ParseFromString`.
structure Codec (α : Type) where
  serialize : α → Str
  parse : Str → Option α

end Proto

namespace Node

def message (node : Node) : Proto.Node where
  data := some node.data
  children := node.children
  flags := some node.flags
  version := some node.version
  sid := if node.sid = 0 then none else some node.sid

def view (m : Proto.Node) : Node where
  data := m.data.getD []
  children := m.children
  flags := m.flags.getD 0
  version := m.version.getD 0
  sid := m.sid.getD 0

theorem view_message (node : Node) : view node.message = node := by
  obtain ⟨data, children, flags, version, sid⟩ := node
  by_cases zero : sid = 0 <;> simp [view, message, zero]

structure Writable (node : Node) : Prop where
  data : IsBytes node.data
  children : ∀ child ∈ node.children, IsBytes child
  size : node.byteSize < 2 ^ 31

end Node

namespace SessionRecord

def message (record : SessionRecord) : Proto.Session where
  sid := record.sid
  watch := record.watch.map fun w => ⟨w.1, w.2.1, some w.2.2⟩
  node := record.node
  timeout := UInt32.ofInt record.timeout

def view (m : Proto.Session) : SessionRecord where
  sid := m.sid
  -- An `int` again.
  timeout := (m.timeout.toNat : Int).bmod 4294967296
  watch := m.watch.map fun w => (w.path, w.type, w.recursive.getD false)
  node := m.node

structure Writable (codec : Proto.Codec Proto.Session) (record : SessionRecord) : Prop where
  watch : ∀ w ∈ record.watch, IsBytes w.1
  node : ∀ path ∈ record.node, IsBytes path
  timeout : -2147483648 ≤ record.timeout ∧ record.timeout < 2147483648
  size : (codec.serialize record.message).length < 2 ^ 31

theorem view_message {codec : Proto.Codec Proto.Session} {record : SessionRecord}
    (writable : record.Writable codec) : view record.message = record := by
  obtain ⟨sid, timeout, watch, node⟩ := record
  have word : ((UInt32.ofInt timeout).toNat : Int).bmod 4294967296 = timeout := by
    have range : -2147483648 ≤ timeout ∧ timeout < 2147483648 := writable.timeout
    rw [UInt32.ofInt, UInt32.toNat_ofNat', Nat.mod_eq_of_lt (by omega), Int.bmod_def]
    split <;> omega
  simp [view, message, word, Function.comp_def]

end SessionRecord

/-- Protocol buffers, as far as the store relies on them: a message of less than 2 GiB is read as it
was written. -/
structure Protobuf where
  node : Proto.Codec Proto.Node
  session : Proto.Codec Proto.Session
  parse_node : ∀ stored : Node, stored.Writable →
    node.parse (node.serialize stored.message) = some stored.message
  parse_session : ∀ record : SessionRecord, record.Writable session →
    session.parse (session.serialize record.message) = some record.message

namespace Protobuf

variable (proto : Protobuf)

def serializeNode (node : Node) : Str := proto.node.serialize node.message

def parseNode (data : Str) : Option Node := (proto.node.parse data).map Node.view

def serializeSession (record : SessionRecord) : Str := proto.session.serialize record.message

def parseSession (data : Str) : Option SessionRecord :=
  (proto.session.parse data).map SessionRecord.view

variable {proto}

theorem parseNode_serializeNode {node : Node} (writable : node.Writable) :
    proto.parseNode (proto.serializeNode node) = some node := by
  rw [parseNode, serializeNode, proto.parse_node node writable, Option.map_some,
    Node.view_message]

theorem parseSession_serializeSession {record : SessionRecord}
    (writable : record.Writable proto.session) :
    proto.parseSession (proto.serializeSession record) = some record := by
  rw [parseSession, serializeSession, proto.parse_session record writable, Option.map_some,
    SessionRecord.view_message writable]

end Protobuf

namespace Store

def readWord : Str → Nat
  | [] => 0
  | c :: rest => c.toNat + 256 * readWord rest

theorem readWord_leBytes (count n : Nat) (small : n < 256 ^ count) :
    readWord (leBytes count n) = n := by
  induction count generalizing n with
  | zero => simp only [Nat.pow_zero, Nat.lt_one_iff] at small; simp [leBytes, readWord, small]
  | succ count ih =>
      rw [Nat.pow_succ] at small
      rw [leBytes, readWord, toNat_byte (Nat.mod_lt n (by decide)), ih (n / 256) (by omega)]
      omega

end Store

section Protocol

variable (proto : Protobuf)

namespace Value

def serialize : Value → Str
  | .node stored => proto.serializeNode stored
  | .session record => proto.serializeSession record
  | .index n => Store.leBytes 8 n

def Writable : Value → Prop
  | .node stored => stored.Writable
  | .session record => record.Writable proto.session
  | .index n => n < 2 ^ 64

end Value

-- What LevelDB holds, key by key.
abbrev LevelDB := ExtTreeMap Str Str

def Persist.bytes (db : Persist) : LevelDB := db.map fun _ value => value.serialize proto

-- The proc database answers with bytes.
structure ProcBytes where
  get : Str → Except DbError Str
  put : Str → Str → Option DbError

-- Any value that is not a node stands for bytes that do not parse.
def ProcBytes.decoded (proc : ProcBytes) : ProcDB where
  get path := (proc.get path).map fun data =>
    match proto.parseNode data with
    | some node => .node node
    | none => .index 0
  put path node := proc.put path (proto.serializeNode node)

namespace LevelDB

open Store

variable (layout : Layout) (proc : ProcBytes)

def get (db : LevelDB) (path : Str) : Except Status Node :=
  if isValidPath path = false then .error (Status.invalidArgument path)
  else
    let found :=
      if layout.underProc path then proc.get path
      else match db[path]? with
        | some data => .ok data
        | none => .error ⟨true, text "NotFound: "⟩
    match found with
    | .error failure =>
        if failure.isNotFound then .error (Status.notFound path)
        else .error (Status.internal (path ++ text " " ++ failure.text))
    | .ok data =>
        match proto.parseNode data with
        | some node => .ok node
        | none => .error (Status.internal (path ++ text " bad data"))

def getCommitIndex (db : LevelDB) : Except Fault Nat :=
  match db[commitKey]? with
  | none => .ok 0
  | some data => if data.length = 8 then .ok (readWord data) else .error .commitValue

def walkTree (db : LevelDB) : List (Str × Option Node) :=
  (OrderedMap.scan rootPath ['/', Char.ofNat 0xFF] db).map fun entry =>
    (entry.1, proto.parseNode entry.2)

def readSession (entry : Str × Str) : Except Fault SessionRecord :=
  if entry.1.length ≠ sessionPrefix.length + 8 then .error .sessionKeySize
  else match proto.parseSession entry.2 with
    | none => .error .sessionKeySid
    | some record =>
        if entry.1.drop sessionPrefix.length = leBytes 8 record.sid.toNat then .ok record
        else .error .sessionKeySid

def walkSessions (db : LevelDB) : Except Fault (List SessionRecord) :=
  (OrderedMap.scan sessionPrefix sessionEnd db).mapM (readSession proto)

end LevelDB

end Protocol

namespace Store

variable {proto : Protobuf}

variable (proto) in
def Writable (db : Persist) : Prop :=
  ∀ (key : Str) (value : Value), db[key]? = some value → value.Writable proto

section Readers

variable {db : Persist}

theorem get_bytes (layout : Layout) (proc : ProcBytes) (nodes : NodeKeys db)
    (writable : Writable proto db) (path : Str) :
    LevelDB.get proto layout proc (db.bytes proto) path =
      get layout (proc.decoded proto) db path := by
  unfold LevelDB.get get
  cases valid : isValidPath path with
  | false => rfl
  | true =>
      simp only [Bool.true_eq_false, if_false]
      cases inside : layout.underProc path with
      | true =>
          simp only [if_true, ProcBytes.decoded]
          cases proc.get path with
          | error failure => rfl
          | ok data =>
              cases parsed : proto.parseNode data <;> simp [Except.map, parsed, Value.toNode]
      | false =>
          simp only [Bool.false_eq_true, if_false, Persist.bytes, ExtTreeMap.getElem?_map]
          cases found : db[path]? with
          | none => rfl
          | some value =>
              obtain ⟨node, rfl⟩ := nodes path value (isValidPath_head path valid) found
              simp [Value.serialize, Value.toNode,
                Protobuf.parseNode_serializeNode (writable path _ found)]

theorem getCommitIndex_bytes (keyed : Keyed db) (writable : Writable proto db) :
    LevelDB.getCommitIndex (db.bytes proto) = getCommitIndex db := by
  unfold LevelDB.getCommitIndex getCommitIndex
  rw [Persist.bytes, ExtTreeMap.getElem?_map]
  cases found : db[commitKey]? with
  | none => rfl
  | some value =>
      obtain ⟨record, -, same⟩ | ⟨index, rfl, -⟩ :=
        keyed.others commitKey value commitKey_not_tree found
      · exact absurd same.symm (sessionKey_ne_commitKey record.sid)
      · have small : index < 256 ^ 8 := writable commitKey _ found
        simp [Value.serialize, leBytes_length, readWord_leBytes 8 index small]

theorem scan_tree (keyed : Keyed db) {key : Str} {value : Value}
    (member : (key, value) ∈ OrderedMap.scan rootPath ['/', Char.ofNat 0xFF] db) :
    ∃ node, value = .node node := by
  obtain ⟨found, -, below⟩ := (OrderedMap.mem_scan _ _ _ _ _).mp member
  by_cases ours : IsTreeKey key
  · exact keyed.nodes key value ours found
  · have outside : (compare key ['/', Char.ofNat 0xFF]).isLT = false := by
      obtain ⟨record, -, rfl⟩ | ⟨index, -, rfl⟩ := keyed.others key value ours found
      · rw [sessionKey, sessionPrefix, List.cons_append, List.compare_cons_cons]
        have first : compare 's' '/' = .gt := by decide
        rw [first]
        rfl
      · decide
    rw [outside] at below
    cases below

theorem walkTree_bytes (keyed : Keyed db) (writable : Writable proto db) :
    LevelDB.walkTree proto (db.bytes proto) = walkTree db := by
  rw [LevelDB.walkTree, walkTree, Persist.bytes, OrderedMap.scan_map, List.map_map]
  refine List.map_congr_left fun entry member => ?_
  obtain ⟨key, value⟩ := entry
  have found := ((OrderedMap.mem_scan _ _ _ _ _).mp member).1
  obtain ⟨node, rfl⟩ := scan_tree keyed member
  simp [Value.serialize, Value.toNode, Protobuf.parseNode_serializeNode (writable key _ found)]

theorem walkSessions_bytes (keyed : Keyed db) (writable : Writable proto db) :
    LevelDB.walkSessions proto (db.bytes proto) = walkSessions db := by
  rw [walkSessions_eq keyed, LevelDB.walkSessions, Persist.bytes, OrderedMap.scan_map,
    List.mapM_map]
  refine mapM_ok _ visited _ fun entry member => ?_
  obtain ⟨record, rfl, -⟩ := scan_session keyed member
  have found := ((OrderedMap.mem_scan _ _ _ _ _).mp member).1
  have parsed : proto.parseSession (proto.serializeSession record) = some record :=
    Protobuf.parseSession_serializeSession (writable _ _ found)
  have read := readSession_key record
  simp only [readSession, Value.toSession] at read
  simpa [LevelDB.readSession, Value.serialize, visited, Value.toSession, parsed] using read

end Readers

section Writers

variable {db : Persist}

theorem writable_insert {key : Str} {value : Value} (writable : Writable proto db)
    (new : value.Writable proto) : Writable proto (db.insert key value) := by
  intro other stored found
  rw [ExtTreeMap.getElem?_insert] at found
  split at found
  · cases found
    exact new
  · exact writable other stored found

theorem writable_erase {key : Str} (writable : Writable proto db) :
    Writable proto (db.erase key) := by
  intro other stored found
  rw [ExtTreeMap.getElem?_erase] at found
  split at found
  · cases found
  · exact writable other stored found

theorem node_writable {path : Str} {node : Node} (writable : Writable proto db)
    (here : treeOf db path = some node) : node.Writable := by
  obtain ⟨value, stored, parsed⟩ := Option.bind_eq_some_iff.mp here
  cases value with
  | node found =>
      cases parsed
      exact writable path _ stored
  | session record => cases parsed
  | index n => cases parsed

theorem isBytes_valid {path : Str} (valid : isValidPath path = true) : IsBytes path := by
  obtain ⟨rest, rfl⟩ := isValidPath_head path valid
  simp only [isValidPath, Bool.and_eq_true, Bool.not_eq_true', List.any_cons,
    Bool.or_eq_false_iff, List.any_eq_false] at valid
  intro c member
  rcases List.mem_cons.mp member with rfl | later
  · decide
  · have small := validChar_small c (by simpa using valid.2.2 c later)
    have below : c < Char.ofNat 0xFF := compareOfLessAndEq_eq_lt.mp small
    exact Nat.lt_trans below (by decide)

theorem isBytes_son {path parentName sonName : Str} (valid : isValidPath path = true)
    (split : splitPath path = .ok (parentName, sonName)) : IsBytes sonName := by
  obtain ⟨-, before, rfl, -⟩ := (splitPath_ok path parentName sonName).mp split
  exact fun c member => isBytes_valid valid c (by simp [member])

theorem varintSize_le (fuel n : Nat) : Node.varintSize fuel n ≤ fuel := by
  induction fuel generalizing n with
  | zero => exact Nat.le_refl 0
  | succ fuel ih =>
      rw [Node.varintSize]
      have := ih (n / 128)
      split <;> omega

theorem newNode_byteSize (data : Str) (flags : UInt32) (sid : Sid) :
    ({ newNode data flags with sid := sid } : Node).byteSize ≤ data.length + 64 := by
  have length := varintSize_le 10 data.length
  have flag := varintSize_le 10 flags.toNat
  have owner := varintSize_le 10 sid.toNat
  have version := varintSize_le 10 (newNode data flags).version.toNat
  simp only [Node.byteSize, newNode, Node.fieldSize, List.map_nil, List.sum_nil] at version ⊢
  split <;> omega

end Writers

variable (proto) in
-- What a client can send: bytes, and words of the sizes the messages have.
def Change.Plain : Change → Prop
  | .call (_, .create _ data _ _) => IsBytes data
  | .call (_, .delete _) => True
  | .call (_, .write _ data) => IsBytes data
  | .addSession record => record.Writable proto.session
  | .removeSession _ => True
  | .setCommitIndex index => index < 2 ^ 64

section Run

variable {options : Options} {db next : Persist}

-- A node within the limit is within what a protocol buffer may hold.
variable (small : options.sizeLimit < 2 ^ 30)

include small

theorem create_writable (proc : ProcDB) (path : Str) {data : Str} (flags : UInt32) (sid : Sid)
    (plain : IsBytes data) (writable : Writable proto db) :
    Writable proto (create options proc db path data flags sid).2 := by
  rcases create_cases options proc db path data flags sid with
    ⟨status, -, result⟩ | ⟨parentName, sonName, parent, checked⟩
  · rw [result]
    exact writable
  · rw [create_accepted options proc db path data flags sid parentName sonName parent checked]
    have above := node_writable writable checked.above
    refine writable_insert (writable_insert writable ⟨plain, by simp, ?_⟩)
      ⟨above.data, ?_, Nat.lt_of_le_of_lt checked.fits (by omega)⟩
    · have size := newNode_byteSize data flags sid
      have length := checked.small
      omega
    · intro child member
      rcases List.mem_append.mp member with old | new
      · exact above.children child old
      · rw [List.mem_singleton.mp new]
        exact isBytes_son checked.valid checked.split

omit small in
theorem delete_writable {proc : ProcDB} {path : Str} {status : Status}
    (done : delete options proc db path = .ok (status, next)) (writable : Writable proto db) :
    Writable proto next := by
  rcases delete_cases options proc db path with
    ⟨_, -, result⟩ | ⟨parentName, sonName, parent, checked⟩
  · cases done.symm.trans result
    exact writable
  · have concrete := delete_accepted options proc db checked
    cases removal : removeChild parent sonName with
    | error failure => cases done.symm.trans (concrete.1 failure removal)
    | ok removed =>
        cases done.symm.trans (concrete.2 removed removal)
        obtain ⟨same, perm⟩ := removeChild_spec parent removed sonName removal
        have above := node_writable writable checked.above
        refine writable_insert (writable_erase writable) ⟨?_, fun child member => ?_, ?_⟩
        · rw [same]
          exact above.data
        · exact above.children child (perm.mem_iff.mpr (List.mem_cons_of_mem _ member))
        · exact Nat.lt_of_le_of_lt (removeChild_byteSize removal) above.size

theorem write_writable (proc : ProcDB) (path : Str) {data : Str} (plain : IsBytes data)
    (writable : Writable proto db) : Writable proto (write options proc db path data).2 := by
  rw [write]
  cases found : get options proc db path with
  | error status => exact writable
  | ok node =>
      dsimp only [put]
      split_ifs with invalid large inside
      · exact writable
      · exact writable
      · split <;> exact writable
      · have here := ((get_ok_iff options proc db path node (by simpa using inside)).mp found).2
        exact writable_insert writable
          ⟨plain, (node_writable writable here).children, by omega⟩

theorem change_writable {input : Change} (plain : input.Plain proto) (writable : Writable proto db)
    (done : change options input db = .ok next) : Writable proto next := by
  cases input with
  | call call =>
      obtain ⟨proc, op⟩ := call
      cases op with
      | create path data flags sid =>
          cases done
          exact create_writable small proc path flags sid plain writable
      | delete path =>
          cases deleted : delete options proc db path with
          | error fault => simp [change, exec, deleted, Except.map] at done
          | ok result =>
              simp only [change, exec, deleted, Except.map, Except.ok.injEq] at done
              subst done
              exact delete_writable deleted writable
      | write path data =>
          cases done
          exact write_writable small proc path plain writable
  | addSession record =>
      cases done
      exact writable_insert writable plain
  | removeSession sid =>
      cases done
      exact writable_erase writable
  | setCommitIndex index =>
      cases done
      exact writable_insert writable plain

theorem writable_fresh (named : IsBytes options.procName) : Writable proto (freshDb options) := by
  refine writable_insert (fun key value found => by simp at found)
    ⟨List.forall_mem_nil _, fun child member => ?_, Nat.lt_of_le_of_lt options.rootFits ?_⟩
  · rw [List.mem_singleton.mp member]
    exact named
  · exact Nat.lt_trans small (by decide)

end Run

section Sample

instance encodableChar : Encodable Char := .ofLeftInverse Char.toNat Char.ofNat Char.ofNat_toNat

instance encodableUInt32 : Encodable UInt32 :=
  .ofLeftInverse UInt32.toNat UInt32.ofNat fun _ => by simp

instance encodableUInt64 : Encodable UInt64 :=
  .ofLeftInverse UInt64.toNat UInt64.ofNat fun _ => by simp

instance encodableNode : Encodable Proto.Node :=
  .ofLeftInverse (fun m => (m.data, m.children, m.flags, m.version, m.sid))
    (fun m => ⟨m.1, m.2.1, m.2.2.1, m.2.2.2.1, m.2.2.2.2⟩) fun _ => rfl

instance encodableWatchEvent : Encodable Proto.WatchEvent :=
  .ofLeftInverse (fun m => (m.path, m.type, m.recursive)) (fun m => ⟨m.1, m.2.1, m.2.2⟩)
    fun _ => rfl

instance encodableSession : Encodable Proto.Session :=
  .ofLeftInverse (fun m => (m.sid, m.watch, m.node, m.timeout))
    (fun m => ⟨m.1, m.2.1, m.2.2.1, m.2.2.2⟩) fun _ => rfl

def digits (α : Type) [Encodable α] : Proto.Codec α where
  serialize m := (Nat.digits 256 (Encodable.encode m)).map Char.ofNat
  parse data := Encodable.decode (Nat.ofDigits 256 (data.map Char.toNat))

theorem digits_parse {α : Type} [Encodable α] (m : α) :
    (digits α).parse ((digits α).serialize m) = some m := by
  have same : ((Nat.digits 256 (Encodable.encode m)).map Char.ofNat).map Char.toNat =
      Nat.digits 256 (Encodable.encode m) := by
    rw [List.map_map]
    refine (List.map_congr_left fun digit member => ?_).trans (List.map_id _)
    exact toNat_byte (Nat.digits_lt_base (by decide) member)
  simp only [digits, same, Nat.ofDigits_digits, Encodable.encodek]

def sampleProto : Protobuf where
  node := digits _
  session := digits _
  parse_node stored _ := digits_parse stored.message
  parse_session record _ := digits_parse record.message

def sampleChanges : List Change :=
  [.call (.silent, .create ['/', 'a'] ['x', Char.ofNat 0xFF] kEphemeral 7),
    .addSession ⟨7, 5000, [(['/', 'a'], 3, true)], [['/', 'a']]⟩, .setCommitIndex 300,
    .call (.silent, .write ['/', 'a'] ['y'])]

end Sample

end Store

end Pyxis
