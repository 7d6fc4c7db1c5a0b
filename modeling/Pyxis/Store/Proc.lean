import Mathlib.Data.List.TakeWhile
import Pyxis.Store.Persist

set_option autoImplicit false

open Std (ExtTreeMap ExtTreeSet)

namespace Pyxis

def Status.toString (status : Status) : Str :=
  match status.code with
  | .ok => []
  | .notFound => text "NotFound:" ++ status.msg
  | .notLeader => text "NotLeader:" ++ status.msg
  | .disconnect => text "Disconnect:" ++ status.msg
  | .sessionExpired => text "SessionExpired:" ++ status.msg
  | .invalidArgument => text "InvalidArgument:" ++ status.msg
  | .again => text "Again:" ++ status.msg
  | .exist => text "Exist:" ++ status.msg
  | .internal => text "Internal:" ++ status.msg
  | .timeout => text "Timeout:" ++ status.msg
  | .cached => text "Cached:" ++ status.msg

namespace Proc

abbrev ArgList := List Str

-- A handler of the server, or one of the two that `ProcDB` binds to itself.
inductive ReadNode where
  | onProcRead
  | emptyReadCallback
  | handler (callback : ArgList → Status × Value)

abbrev WriteNodeCallback := ArgList → Node → Status

structure DB where
  root : Str
  readMap : ExtTreeMap Str ReadNode
  writeMap : ExtTreeMap Str WriteNodeCallback

def nul : Char := Char.ofNat 0

-- `StringPiece` of a `char*` ends at the first zero byte.
def cString (key : Str) : Str := key.takeWhile (· != nul)

-- `toft::SplitString`, which drops the empty pieces.
def splitString (s : Str) : ArgList := (s.splitOn '/').filter (· ≠ [])

namespace DB

def new (root : Str) : DB where
  root := root
  readMap := (∅ : ExtTreeMap Str ReadNode).insert (text "/pyxis") .onProcRead
  writeMap := ∅

def registerReadNode (path : Str) (callback : ArgList → Status × Value) (db : DB) : DB :=
  { db with readMap := db.readMap.insert path (.handler callback) }

def registerWriteNode (path : Str) (callback : WriteNodeCallback) (db : DB) : DB :=
  { db with
    writeMap := db.writeMap.insert path callback
    readMap := db.readMap.insert path .emptyReadCallback }

def childName (db : DB) (node : Str) : Except Fault Str :=
  -- `substr` throws beyond the end.
  if node.length < db.root.length then .error .procChild
  else .ok ((node.drop db.root.length).dropWhile (· == '/'))

def onProcRead (db : DB) (args : ArgList) : Except Fault (Status × Value) :=
  if args ≠ [] then .ok (Status.notFound [], .node (newNode [] kPersist))
  else do
    let nodes := ((∅ : ExtTreeSet Str).insertMany db.readMap.keys).insertMany db.writeMap.keys
    let children ← (nodes.toList.filter (· ≠ db.root)).mapM db.childName
    return (Status.ok, .node { newNode [] kPersist with children := children })

def emptyReadCallback (_ : ArgList) : Status × Value :=
  (Status.ok, .node (newNode (text "write only") kPersist))

def call (db : DB) (read : ReadNode) (args : ArgList) : Except Fault (Status × Value) :=
  match read with
  | .onProcRead => db.onProcRead args
  | .emptyReadCallback => .ok (emptyReadCallback args)
  | .handler callback => .ok (callback args)

-- The `leveldb::Status` that the status of a handler becomes.
def failure (st : Status) : Option DbError :=
  if st.isOk then none
  else if st.isNotFound then some ⟨true, text "NotFound: " ++ st.toString⟩
  else some ⟨false, text "Invalid argument: " ++ st.toString⟩

def notFound (path : Str) : DbError := ⟨true, text "NotFound: " ++ path⟩

def put (db : DB) (key : Str) (value : Node) : Option DbError :=
  let path := cString key
  match Prefixes.scan db.writeMap path with
  | none => some (notFound path)
  | some (node, callback) => failure (callback (splitString (path.drop node.length)) value)

def result (answer : Status × Value) : Except DbError Value :=
  match failure answer.1 with
  | some error => .error error
  | none => .ok answer.2

def get (db : DB) (key : Str) : Except Fault (Except DbError Value) :=
  let path := cString key
  match Prefixes.scan db.readMap path with
  | none => .ok (.error (notFound path))
  | some (node, read) => (db.call read (splitString (path.drop node.length))).map result

def serve (db : DB) : ProcDB where
  get key := match db.get key with
    | .ok found => found
    | .error _ => .error (notFound key)
  put := db.put

end DB

inductive Registration where
  | read (path : Str) (callback : ArgList → Status × Value)
  | write (path : Str) (callback : WriteNodeCallback)

def register (db : DB) : Registration → DB
  | .read path callback => db.registerReadNode path callback
  | .write path callback => db.registerWriteNode path callback

def registered (root : Str) (registrations : List Registration) : DB :=
  registrations.foldl register (DB.new root)

theorem cString_eq {path : Str} (clean : nul ∉ path) : cString path = path := by
  rw [cString, List.takeWhile_eq_self_iff]
  intro c member
  rw [bne_iff_ne]
  rintro rfl
  exact clean member

def Covered (db : DB) : Prop := ∀ node ∈ db.writeMap, node ∈ db.readMap

theorem register_covered {db : DB} (covered : Covered db) (registration : Registration) :
    Covered (register db registration) := by
  cases registration with
  | read path callback =>
      intro node member
      exact ExtTreeMap.mem_insert.mpr (.inr (covered node member))
  | write path callback =>
      intro node member
      exact ExtTreeMap.mem_insert.mpr ((ExtTreeMap.mem_insert.mp member).imp_right (covered node))

theorem registered_covered (root : Str) (registrations : List Registration) :
    Covered (registered root registrations) := by
  have initial : Covered (DB.new root) := fun node member => by simp [DB.new] at member
  unfold registered
  generalize DB.new root = db at initial
  induction registrations generalizing db with
  | nil => exact initial
  | cons first rest ih => exact ih _ (register_covered initial first)

section Routing

open Prefixes (Longest scan scan_eq_none_iff scan_eq_some_iff)

variable {db : DB} {path : Str}

theorem get_routed (clean : nul ∉ path) :
    ((∀ node ∈ db.readMap, ¬ node <+: path) → db.get path = .ok (.error (DB.notFound path))) ∧
      ∀ node read, Longest db.readMap path node read →
        db.get path = (db.call read (splitString (path.drop node.length))).map DB.result := by
  simp only [DB.get, cString_eq clean]
  refine ⟨fun none => ?_, fun node read longest => ?_⟩
  · rw [scan_eq_none_iff.mpr none]
  · rw [scan_eq_some_iff.mpr longest]

theorem put_routed (clean : nul ∉ path) (value : Node) :
    ((∀ node ∈ db.writeMap, ¬ node <+: path) → db.put path value = some (DB.notFound path)) ∧
      ∀ node callback, Longest db.writeMap path node callback →
        db.put path value =
          DB.failure (callback (splitString (path.drop node.length)) value) := by
  simp only [DB.put, cString_eq clean]
  refine ⟨fun none => ?_, fun node callback longest => ?_⟩
  · rw [scan_eq_none_iff.mpr none]
  · rw [scan_eq_some_iff.mpr longest]

theorem read_reaches (covered : Covered db) {node : Str} {callback : WriteNodeCallback}
    (longest : Longest db.writeMap path node callback) :
    ∃ other read, Longest db.readMap path other read ∧ node.length ≤ other.length := by
  have member : node ∈ db.readMap :=
    covered node (ExtTreeMap.isSome_getElem?_iff_mem.mp (by rw [longest.stored]; rfl))
  cases found : scan db.readMap path with
  | none => exact absurd longest.leads (scan_eq_none_iff.mp found node member)
  | some entry =>
      have reads := scan_eq_some_iff.mp found
      exact ⟨entry.1, entry.2, reads, reads.longest node member longest.leads⟩

end Routing

structure Routed {ν : Type} (nodes : ExtTreeMap Str ν) (path : Str) (found : Option (Str × ν)) :
    Prop where
  longest : ∀ node value, found = some (node, value) ↔ Prefixes.Longest nodes path node value
  nothing : found = none ↔ ∀ node ∈ nodes, ¬ node <+: path

theorem scan_routed {ν : Type} (nodes : ExtTreeMap Str ν) {path : Str} (clean : nul ∉ path) :
    Routed nodes path (Prefixes.scan nodes (cString path)) := by
  rw [cString_eq clean]
  exact ⟨fun _ _ => Prefixes.scan_eq_some_iff, Prefixes.scan_eq_none_iff⟩

theorem routes_longest (root : Str) (registrations : List Registration) {path : Str}
    (clean : nul ∉ path) :
    let db := registered root registrations
    Routed db.readMap path (Prefixes.scan db.readMap (cString path)) ∧
    Routed db.writeMap path (Prefixes.scan db.writeMap (cString path)) ∧
    ((∀ node ∈ db.readMap, ¬ node <+: path) → db.get path = .ok (.error (DB.notFound path))) ∧
    ((∀ node ∈ db.writeMap, ¬ node <+: path) → ∀ value,
      db.put path value = some (DB.notFound path)) ∧
    (∀ node read, Prefixes.Longest db.readMap path node read →
      db.get path =
        (db.call read (((path.drop node.length).splitOn '/').filter (· ≠ []))).map DB.result) ∧
    (∀ node callback, Prefixes.Longest db.writeMap path node callback → ∀ value,
      db.put path value =
        DB.failure (callback (((path.drop node.length).splitOn '/').filter (· ≠ [])) value)) ∧
    ∀ node callback, Prefixes.Longest db.writeMap path node callback →
      ∃ other read, Prefixes.Longest db.readMap path other read ∧ node.length ≤ other.length :=
  ⟨scan_routed _ clean, scan_routed _ clean, (get_routed clean).1,
    fun none value => (put_routed clean value).1 none, (get_routed clean).2,
    fun node callback longest value => (put_routed clean value).2 node callback longest,
    fun _ _ longest => read_reaches (registered_covered root registrations) longest⟩

def nested : List Registration :=
  [.read (text "/pyxis/db") fun _ => (Status.ok, .node (newNode [] kPersist)),
    .write (text "/pyxis/db/x") fun _ _ => Status.ok]

-- The node below another one takes the key, with the one component that is left.
theorem routes_longest_nested : ∃ read,
    Prefixes.Longest (registered (text "/pyxis") nested).readMap (text "/pyxis/db/x//y")
      (text "/pyxis/db/x") read ∧
    (registered (text "/pyxis") nested).get (text "/pyxis/db/x//y") =
      ((registered (text "/pyxis") nested).call read [text "y"]).map DB.result := by
  have found : (Prefixes.scan (registered (text "/pyxis") nested).readMap
      (cString (text "/pyxis/db/x//y"))).map Prod.fst = some (text "/pyxis/db/x") := by
    decide +kernel
  obtain ⟨⟨node, read⟩, found, rfl⟩ := Option.map_eq_some_iff.mp found
  obtain ⟨reads, -, -, -, gets, -⟩ := routes_longest (text "/pyxis") nested
    (show nul ∉ text "/pyxis/db/x//y" by decide +kernel)
  have longest := (reads.longest _ _).mp found
  have args : (((text "/pyxis/db/x//y").drop (text "/pyxis/db/x").length).splitOn '/').filter
      (· ≠ []) = [text "y"] := by decide +kernel
  exact ⟨read, longest, by rw [gets _ _ longest, args]⟩

end Proc

end Pyxis
