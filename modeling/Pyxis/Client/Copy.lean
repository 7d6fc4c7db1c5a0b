import Pyxis.Client.Read

set_option autoImplicit false

open Std (ExtTreeMap)

namespace Pyxis

-- `pyxis::Node` has the fields of `store::Node`.
def copyNodeFromProto (node proto : Node) : Node where
  data := proto.data
  flags := proto.flags
  version := proto.version
  sid := proto.sid
  children := proto.children.foldl (fun children child => children ++ [child]) node.children

theorem copyNodeFromProto_eq (node proto : Node) :
    copyNodeFromProto node proto = { proto with children := node.children ++ proto.children } := by
  have pushed (start rest : List Str) :
      rest.foldl (fun children child => children ++ [child]) start = start ++ rest := by
    induction rest generalizing start with
    | nil => rw [List.foldl_nil, List.append_nil]
    | cons child rest ih => rw [List.foldl_cons, ih, List.append_assoc, List.singleton_append]
  rw [copyNodeFromProto, pushed]

theorem copyNodeFromProto_eq_self_iff (node proto : Node) :
    proto = copyNodeFromProto node proto ↔ node.children = [] := by
  rw [copyNodeFromProto_eq]
  constructor
  · intro same
    have children := congrArg Node.children same
    exact List.self_eq_append_left.mp children
  · intro empty
    rw [empty, List.nil_append]

namespace Client

variable {Callback : Type}

structure ReadCall (Callback : Type) where
  rpc : Request → Status × Response
  uncached : ∀ req, (rpc req).1.code ≠ .cached
  state : State
  options : ReadOptions Callback
  path : Str
  reads : Bool
  writes : Bool

structure Reader (Callback : Type) where
  client : Impl Callback
  node : Node
  written : Str → Option Node

namespace ReadCall

variable (call : ReadCall Callback)

def entered (c : Impl Callback) : Impl Callback :=
  { c with state := call.state }.asking call.options call.path

def reply (c : Impl Callback) : Status × Response :=
  (call.entered c).call call.rpc (call.options.request call.path)

end ReadCall

namespace Reader

def start (client : Impl Callback) (node : Node) : Reader Callback where
  client := client
  node := node
  written path := client.cache[path]?

def read (call : ReadCall Callback) (r : Reader Callback) : Status × Reader Callback :=
  let (st, proto, c) :=
    { r.client with state := call.state }.read call.rpc call.reads call.writes call.options
      call.path
  (st,
    { client := c
      node := match proto with
        | none => r.node
        | some proto => copyNodeFromProto r.node proto
      written := fun path =>
        if path = call.path ∧ st.isOk ∧ c.enableCache ∧ call.writes then proto
        else r.written path })

variable (call : ReadCall Callback) (r : Reader Callback)

theorem reply_code (c : Impl Callback) : (call.reply c).1.code ≠ .cached := by
  unfold ReadCall.reply Impl.call
  cases (call.entered c).state with
  | closed | looking => simp [Status.disconnect]
  | connected =>
      dsimp only
      split_ifs
      · unfold Status.fromRpcError
        split <;> simp [Status.ok, Status.notFound, Status.notLeader, Status.sessionExpired,
          Status.invalidArgument, Status.again, Status.exist, Status.internal]
      · exact call.uncached _

theorem read_cases :
    (∃ proto, statNode (call.reply r.client).2.data = some proto ∧ (read call r).1 = Status.ok ∧
        (read call r).2.node = copyNodeFromProto r.node proto ∧
        (((read call r).2.client.cache = r.client.cache ∧ (read call r).2.written = r.written) ∨
          (read call r).2.client.cache = r.client.cache.insert call.path proto ∧
            ∀ path, (read call r).2.written path =
              if path = call.path then some proto else r.written path)) ∨
      (read call r).2.client.cache = r.client.cache ∧ (read call r).2.written = r.written ∧
        ((∃ proto, r.client.cache[call.path]? = some proto ∧
            (read call r).1 = Status.cached call.path ∧
            (read call r).2.node = copyNodeFromProto r.node proto) ∨
          (read call r).1.code ≠ .ok ∧ (read call r).1.code ≠ .cached ∧
            (read call r).2.node = r.node) := by
  have cache : (call.entered r.client).cache = r.client.cache :=
    (Impl.asking_frame _ call.options call.path).2.2.1
  have code := reply_code call r.client
  have entered : { r.client with state := call.state }.asking call.options call.path =
      call.entered r.client := rfl
  have replied : (call.entered r.client).call call.rpc (call.options.request call.path) =
      call.reply r.client := rfl
  simp only [read, Impl.read, entered, replied]
  by_cases fine : (call.reply r.client).1.isOk = true
  · cases decoded : statNode (call.reply r.client).2.data with
    | none =>
        simp only [fine, if_true]
        exact .inr ⟨cache, by simp [Status.internal, Status.isOk],
          .inr (by simp [Status.internal])⟩
    | some proto =>
        refine .inl ⟨proto, rfl, ?_⟩
        simp only [fine, if_true]
        by_cases kept : (call.entered r.client).enableCache = true ∧ call.writes = true
        · refine ⟨trivial, trivial, .inr ⟨by simp [kept, cache], fun path => ?_⟩⟩
          simp [kept]
        · refine ⟨trivial, trivial, .inl ⟨by simp [kept, cache], funext fun path => ?_⟩⟩
          simp [kept]
  · have failed : (call.reply r.client).1.code ≠ .ok := by simpa [Status.isOk] using fine
    simp only [fine, Bool.false_eq_true, if_false]
    cases found : if (call.entered r.client).enableCache = true ∧
        (call.reply r.client).1.isDisconnect = true ∧ call.reads = true then
        (call.entered r.client).cache[call.path]? else none with
    | none => exact .inr ⟨cache, by simp [fine], .inr ⟨failed, code, rfl⟩⟩
    | some proto =>
        split_ifs at found
        rw [cache] at found
        exact .inr ⟨cache, by simp [Status.cached, Status.isOk], .inl ⟨proto, found, rfl, rfl⟩⟩

def step (call : ReadCall Callback) (r : Reader Callback) : Except Fault (Reader Callback) :=
  .ok (read call r).2

/-- The object holds the node of the reply after OK, and the one last written to the cache after
Cached. -/
def Faithful (call : ReadCall Callback) (r : Reader Callback) : Prop :=
  ((read call r).1.code = .ok →
      statNode (call.reply r.client).2.data = some (read call r).2.node) ∧
    ((read call r).1.code = .cached →
      (read call r).2.written call.path = some (read call r).2.node)

instance (call : ReadCall Callback) (r : Reader Callback) : Decidable (Faithful call r) :=
  inferInstanceAs (Decidable (_ ∧ _))

def Emptied (call : ReadCall Callback) (r : Reader Callback) : Prop :=
  (read call r).1.code = .ok ∨ (read call r).1.code = .cached → r.node.children = []

def Remembers (r : Reader Callback) : Prop := ∀ path, r.written path = r.client.cache[path]?

theorem read_remembers {call : ReadCall Callback} {r : Reader Callback} (remembers : Remembers r) :
    Remembers (read call r).2 := by
  intro path
  rcases read_cases call r with ⟨proto, -, -, -, ⟨cache, written⟩ | ⟨cache, written⟩⟩ |
    ⟨cache, written, -⟩
  · rw [cache, written, remembers]
  · rw [cache, written, ExtTreeMap.getElem?_insert, remembers]
    by_cases same : path = call.path
    · simp [same]
    · simp [same, Ne.symm same]
  · rw [cache, written, remembers]

theorem faithful_iff {call : ReadCall Callback} {r : Reader Callback} (remembers : Remembers r) :
    Faithful call r ↔ Emptied call r := by
  unfold Faithful Emptied
  rcases read_cases call r with ⟨proto, decoded, status, node, -⟩ |
    ⟨-, written, ⟨proto, cached, status, node⟩ | ⟨failed, uncached, -⟩⟩
  · rw [status, node, decoded, Option.some_inj, copyNodeFromProto_eq_self_iff]
    simp [Status.ok]
  · rw [status, node, written, remembers, cached, Option.some_inj, copyNodeFromProto_eq_self_iff]
    simp [Status.cached]
  · simp [failed, uncached]

theorem reads_faithful (client : Impl Callback) (node : Node) (calls : List (ReadCall Callback)) :
    Runs.Meets step Faithful (start client node) calls ↔
      Runs.Meets step Emptied (start client node) calls := by
  have kept (call : ReadCall Callback) (r next : Reader Callback) (remembers : Remembers r)
      (done : step call r = .ok next) : Remembers next := by
    cases done
    exact read_remembers remembers
  have initial : Remembers (start client node) := fun _ => rfl
  constructor
  · exact Runs.meets_invariant step Faithful Emptied Remembers
      (fun call r next remembers _ => kept call r next remembers)
      (fun _ _ remembers => (faithful_iff remembers).mp) _ calls initial
  · exact Runs.meets_invariant step Emptied Faithful Remembers
      (fun call r next remembers _ => kept call r next remembers)
      (fun _ _ remembers => (faithful_iff remembers).mpr) _ calls initial

section Twice

def parent : Node := { newNode [] kPersist with children := [text "b"] }

def reading : ReadCall Unit where
  rpc _ := (Status.ok, { Response.empty with data := some (.node parent) })
  uncached _ := by decide
  state := .connected
  options := ⟨Watch.kNone, false, ()⟩
  path := text "/a"
  reads := true
  writes := true

def connected : Impl Unit where
  enableCache := false
  state := .connected
  sid := 1
  wm := ⟨∅, ⟨[], Watch.kNone, false, ()⟩⟩
  cache := ∅

-- Reading one node twice into the same object leaves its child there twice.
theorem reads_faithful_twice : ∃ last,
    Runs.run step (start connected (newNode [] kPersist)) [reading, reading] = .ok last ∧
      last.node.children = [text "b", text "b"] ∧ parent.children = [text "b"] ∧
      ¬ Runs.Meets step Faithful (start connected (newNode [] kPersist)) [reading, reading] := by
  have found : Runs.passes
      (Runs.run step (start connected (newNode [] kPersist)) [reading, reading])
      (fun last => last.node.children = [text "b", text "b"]) = true := by decide +kernel
  simp only [Runs.passes_iff, decide_eq_true_eq] at found
  obtain ⟨last, reached, children⟩ := found
  exact ⟨last, reached, children, rfl, by decide +kernel⟩

end Twice

end Reader

end Client

end Pyxis
