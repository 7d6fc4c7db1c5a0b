import Pyxis.Replica.Steps
import Pyxis.Server.Fates
import Pyxis.Server.Pairing

set_option autoImplicit false

namespace Pyxis

namespace Tree

variable (options : Options)

def createStatus (tree : Tree) (path data : Str) : Status :=
  if options.underProc path then
    Status.invalidArgument (text "can't create node under pyxis node")
  else if options.sizeLimit < data.length then Status.invalidArgument (text "node size exceed")
  else match splitPath path with
    | .error status => status
    | .ok (parentName, sonName) =>
        if isValidPath path = false then Status.invalidArgument path
        else if (tree path).isSome then Status.exist path
        else match tree parentName with
          | none => Status.notFound parentName
          | some parent =>
              if parent.ephemeral then Status.invalidArgument (text "parent not persistent node")
              else if options.sizeLimit < (addChild parent sonName).byteSize then
                Status.invalidArgument (text "node size exceed")
              else Status.ok

-- The status for a path that holds a node.
def deleteStatus (path : Str) (node : Node) : Status :=
  if options.underProc path then
    Status.invalidArgument (text "can't delete node under pyxis node")
  else match splitPath path with
    | .error status => status
    | .ok _ =>
        if node.children.length ≠ 0 then Status.invalidArgument (text "children not empty")
        else Status.ok

end Tree

namespace Replica

variable (options : Options) (proc : ProcDB)

def get (path : Str) (r : Replica) : Except Status Node :=
  if isValidPath path = false then .error (Status.invalidArgument path)
  -- The files under the proc root are no part of what is replicated.
  else if options.underProc path then Store.get options proc ∅ path
  else match r.tree path with
    | some node => .ok node
    | none => .error (Status.notFound path)

def writeStatus (write : WriteRequest) (r : Replica) : Status :=
  match r.get options proc write.path with
  | .error status => status
  | .ok node =>
      (Store.put options proc ∅ write.path
        { node with data := write.data, version := node.version + 1 }).1

def sessionStatus (sid : Sid) (r : Replica) : Status :=
  if (r.owned sid).isSome then Status.ok else expired

/-- The answer to a command that the log has come to. -/
def answer (req : Request) (r : Replica) : Response :=
  let rep := Response.empty
  match req.body with
  | .register _ => { rep with sid := some req.sid }
  | .unregister => rep.withStatus (r.sessionStatus req.sid)
  | .create create =>
      if r.owned req.sid = none ∧ isEphemeral create.flags = true then rep.withStatus expired
      else rep.withStatus (r.tree.createStatus options create.path create.data)
  | .delete path =>
      match r.get options proc path with
      | .error status => rep.withStatus status
      | .ok node =>
          let status := Tree.deleteStatus options path node
          rep.withStatus (if status.isOk then r.sessionStatus req.sid else status)
  | .read path =>
      match r.get options proc path with
      | .error status => { rep with data := some (.bytes []) }.withStatus status
      | .ok node =>
          { rep with data := some (.bytes node.data) }.withStatus (r.sessionStatus req.sid)
  | .write write => rep.withStatus (r.writeStatus options proc write)
  | .stat path =>
      match r.get options proc path with
      | .error status =>
          { rep with data := some (.bytes []) }.withStatus
            (if status.isNotFound = true ∧ r.owned req.sid = none then expired else status)
      | .ok node => { rep with data := some (.node node) }.withStatus (r.sessionStatus req.sid)
  | .watch => rep.withStatus (r.sessionStatus req.sid)
  | .none => rep

/-- The answer to a read, a stat or a watch of a live session. -/
def look (req : Request) (r : Replica) : Response :=
  let rep := Response.empty
  match req.read, req.stat with
  | some path, _ =>
      match r.get options proc path with
      | .error status => rep.withStatus status
      | .ok node => { rep with data := some (.bytes node.data) }
  | none, some path =>
      match r.get options proc path with
      | .error status => rep.withStatus status
      | .ok node => { rep with data := some (.node node) }
  | none, none => rep

end Replica

namespace Machine

variable {options : Options} {env : Env} {state : State} {frame : Frame} {m after : Machine}
  {r : Replica}

namespace Represents

variable (represents : Represents options frame m r)

include represents

theorem get (proc : ProcDB) (path : Str) :
    Store.get options proc m.db path = r.get options proc path := by
  cases valid : isValidPath path with
  | false => simp [Store.get, Replica.get, valid]
  | true =>
      cases outside : options.underProc path with
      | true => simp [Store.get, Replica.get, valid, outside]
      | false =>
          simp only [Replica.get, valid, outside, Bool.true_eq_false, Bool.false_eq_true, if_false]
          cases here : r.tree path with
          | none =>
              exact Store.get_missing options proc m.db path represents.keyed.nodes valid outside
                (represents.tree ▸ here)
          | some node =>
              exact (Store.get_ok_iff options proc m.db path node outside).mpr
                ⟨valid, represents.tree ▸ here⟩

theorem get_outside (proc : ProcDB) {path : Str} (valid : isValidPath path = true)
    (outside : options.underProc path = false) :
    Store.get options proc m.db path =
      (r.tree path).elim (.error (Status.notFound path)) .ok := by
  rw [represents.get, Replica.get]
  simp only [valid, outside, Bool.true_eq_false, Bool.false_eq_true, if_false]
  cases r.tree path <;> rfl

theorem session (sid : Sid) :
    r.sessionStatus sid = if m.sm.get sid = none then expired else Status.ok := by
  rw [Replica.sessionStatus, represents.owned sid]
  cases m.sm.get sid <;> rfl

theorem create_status (proc : ProcDB) (path data : Str) (flags : UInt32) (sid : Sid) :
    (Store.create options proc m.db path data flags sid).1 =
      r.tree.createStatus options path data := by
  unfold Store.create Tree.createStatus
  cases outside : options.underProc path with
  | true => rfl
  | false =>
      simp only [Bool.false_eq_true, if_false]
      split
      · rfl
      · cases split : splitPath path with
        | error status => rfl
        | ok parts =>
            obtain ⟨parentName, sonName⟩ := parts
            cases valid : isValidPath path with
            | false => simp [Store.get, valid]
            | true =>
                have above := represents.get_outside proc
                  (Store.isValidPath_parent path parentName sonName valid split)
                  (options.underProc_parent path parentName sonName split outside)
                simp only [represents.get_outside proc valid outside, above, Bool.true_eq_false,
                  if_false]
                cases r.tree path with
                | some node => rfl
                | none =>
                    cases r.tree parentName with
                    | none => rfl
                    | some parent =>
                        simp only [Option.elim_none, Option.elim_some,
                          Status.isInvalidArgument_notFound, Bool.false_eq_true, if_false,
                          Option.isSome_none]
                        split
                        · rfl
                        · split <;> rfl

theorem delete_status {proc : ProcDB} {path : Str} {node : Node} {result : Status × Persist}
    (found : r.get options proc path = .ok node)
    (done : Store.delete options proc m.db path = .ok result) :
    result.1 = Tree.deleteStatus options path node := by
  unfold Store.delete at done
  unfold Tree.deleteStatus
  cases outside : options.underProc path with
  | true =>
      rw [outside] at done
      cases done
      rfl
  | false =>
      simp only [outside, represents.get, found, Bool.false_eq_true, if_false] at done ⊢
      cases split : splitPath path with
      | error status =>
          rw [split] at done
          cases done
          rfl
      | ok parts =>
          obtain ⟨parentName, sonName⟩ := parts
          simp only [split] at done
          by_cases children : node.children.length ≠ 0
          · simp only [if_pos children] at done ⊢
            cases done
            rfl
          · simp only [if_neg children] at done ⊢
            have stored := represents.get proc path
            rw [found] at stored
            obtain ⟨valid, here⟩ := (Store.get_ok_iff options proc m.db path node outside).mp stored
            -- A node that is there has its parent.
            obtain ⟨parent, above, -⟩ := represents.coherent.closed.above
              (represents.tree ▸ here) split
            have parentValid := Store.isValidPath_parent path parentName sonName valid split
            have parentOutside := options.underProc_parent path parentName sonName split outside
            simp only [Replica.get, parentValid, parentOutside, above, Bool.true_eq_false,
              Bool.false_eq_true, if_false] at done
            split at done <;> cases done
            rfl

theorem write_status (proc : ProcDB) (write : WriteRequest) :
    (Store.write options proc m.db write.path write.data).1 =
      r.writeStatus options proc write := by
  rw [Store.write, Replica.writeStatus, represents.get]
  cases r.get options proc write.path with
  | error status => rfl
  | ok node =>
      unfold Store.put
      dsimp only
      split
      · rfl
      · split
        · rfl
        · split
          · split <;> rfl
          · rfl

theorem onWatch_status (req : Request) : (m.onWatch req).1 = r.sessionStatus req.sid := by
  rw [represents.session]
  unfold onWatch
  split
  next gone => simp [gone]
  next p live =>
    dsimp only
    split <;> simp [live]

end Represents

theorem deleteNode_status {path : Str} {status : Status}
    (done : deleteNode options env state path m = .ok (status, after)) :
    ∃ result, Store.delete options env.proc m.db path = .ok result ∧
      (result.1.isOk = true ∧ status = Status.ok ∨ result.1.isOk = false ∧ status = result.1) := by
  obtain ⟨⟨answered, db⟩, deleted, done⟩ := Runs.bind_ok.mp done
  refine ⟨_, deleted, ?_⟩
  dsimp only at done
  split at done
  next ok =>
    obtain ⟨_, _, done⟩ := Runs.bind_ok.mp done
    cases done
    exact .inl ⟨ok, rfl⟩
  next failed =>
    cases done
    exact .inr ⟨by simpa using failed, rfl⟩

theorem onCreate_status {req : Request} {create : CreateRequest} {status : Status}
    (represents : Represents options frame m r)
    (done : onCreate options env state req create m = .ok (status, after)) :
    status =
      if r.owned req.sid = none ∧ isEphemeral create.flags = true then expired
      else r.tree.createStatus options create.path create.data := by
  simp only [← represents.get_none]
  unfold onCreate at done
  split at done
  next refused =>
    cases done
    rw [if_pos refused]
  next alive =>
    rw [if_neg alive, ← represents.create_status env.proc _ _ create.flags req.sid]
    generalize Store.create options env.proc m.db create.path create.data create.flags req.sid =
      result at done ⊢
    obtain ⟨answered, db⟩ := result
    dsimp only at done
    split at done
    · obtain ⟨_, _, done⟩ := Runs.bind_ok.mp done
      obtain ⟨_, _, done⟩ := Runs.bind_ok.mp done
      cases done
      rfl
    · cases done
      rfl

theorem onWrite_status {write : WriteRequest} {status : Status}
    (done : onWrite options env state write m = .ok (status, after)) :
    status = (Store.write options env.proc m.db write.path write.data).1 := by
  unfold onWrite at done
  generalize Store.write options env.proc m.db write.path write.data = result at done ⊢
  obtain ⟨answered, db⟩ := result
  dsimp only at done
  split at done
  · obtain ⟨_, _, done⟩ := Runs.bind_ok.mp done
    cases done
    rfl
  · cases done
    rfl

theorem onUnRegister_status {req : Request} {status : Status}
    (done : onUnRegister options env state req m = .ok (status, after)) :
    status = if m.sm.get req.sid = none then expired else Status.ok := by
  unfold onUnRegister at done
  split at done
  next gone =>
    cases done
    simp [gone]
  next p live =>
    obtain ⟨_, _, done⟩ := Runs.bind_ok.mp done
    obtain ⟨_, _, done⟩ := Runs.bind_ok.mp done
    cases done
    simp [live]

-- The session counts only once the node is gone.
theorem onDelete_status {req : Request} {path : Str} {status : Status}
    (represents : Represents options frame m r)
    (done : onDelete options env state req path m = .ok (status, after)) :
    status =
      match r.get options env.proc path with
      | .error missing => missing
      | .ok node =>
          if (Tree.deleteStatus options path node).isOk then r.sessionStatus req.sid
          else Tree.deleteStatus options path node := by
  rw [onDelete, represents.get] at done
  cases found : r.get options env.proc path with
  | error missing =>
      rw [found] at done
      cases done
      rfl
  | ok node =>
      simp only [found] at done
      obtain ⟨⟨answered, middle⟩, deleted, done⟩ := Runs.bind_ok.mp done
      obtain ⟨result, erased, outcome⟩ := deleteNode_status deleted
      have said := represents.delete_status found erased
      have sim := deleteNode_sim env state represents path
      rw [deleted] at sim
      obtain ⟨-, -, -, -, sessions⟩ := sim.of_ok
      dsimp only at done ⊢
      rw [← said]
      rcases outcome with ⟨ok, rfl⟩ | ⟨failed, rfl⟩
      · simp only [Status.isOk_ok, if_true] at done
        rw [ok, if_pos rfl, represents.session, SessionManager.get, ← sessions]
        split at done
        next gone =>
          cases done
          exact (if_pos gone).symm
        next p live =>
          cases done
          have live' : middle.sm.sessions[req.sid]? = some p := live
          simp [live']
      · simp only [failed, Bool.false_eq_true, if_false] at done ⊢
        cases done
        rfl

theorem onRead_status {req : Request} {path : Str} {status : Status} {data : Payload}
    (represents : Represents options frame m r)
    (done : onRead options env req path m = .ok (status, data, after)) :
    (status, data) =
      match r.get options env.proc path with
      | .error missing => (missing, .bytes [])
      | .ok node => (r.sessionStatus req.sid, .bytes node.data) := by
  have watched := represents.onWatch_status req
  unfold onRead Store.read at done
  rw [represents.get] at done
  split at done
  · cases done
  · cases found : r.get options env.proc path with
    | error missing =>
        rw [found] at done
        cases done
        rfl
    | ok node =>
        rw [found] at done
        generalize m.onWatch req = result at watched done
        cases done
        rw [watched]

theorem onStat_status {req : Request} {path : Str} {status : Status} {data : Payload}
    (represents : Represents options frame m r)
    (done : onStat options env req path m = .ok (status, data, after)) :
    (status, data) =
      match r.get options env.proc path with
      | .error missing =>
          (if missing.isNotFound = true ∧ r.owned req.sid = none then expired else missing,
            .bytes [])
      | .ok node => (r.sessionStatus req.sid, .node node) := by
  have watched := represents.onWatch_status req
  unfold onStat at done
  rw [represents.get] at done
  split at done
  · cases done
  · cases found : r.get options env.proc path with
    | error missing =>
        simp only [found] at done
        split at done
        next absent =>
          generalize m.onWatch req = result at watched done
          cases done
          rw [watched, Replica.sessionStatus]
          cases owned : r.owned req.sid <;> simp [absent, expired]
        next other =>
          cases done
          simp [other]
    | ok node =>
        rw [found] at done
        generalize m.onWatch req = result at watched done
        cases done
        rw [watched]

theorem execute_answer {req : Request} {rep : Response} (represents : Represents options frame m r)
    (done : execute options env state req m = .ok (rep, after)) :
    rep = r.answer options env.proc req := by
  unfold execute at done
  unfold Replica.answer
  cases body : req.body <;> rw [body] at done <;> dsimp only
  case register timeout =>
    obtain ⟨⟨status, sid, _⟩, registered, done⟩ := Runs.bind_ok.mp done
    obtain ⟨_, _, registered⟩ := Runs.bind_ok.mp registered
    obtain ⟨_, _, registered⟩ := Runs.bind_ok.mp registered
    cases registered
    cases done
    rfl
  case unregister =>
    obtain ⟨⟨status, _⟩, closed, done⟩ := Runs.bind_ok.mp done
    cases done
    rw [onUnRegister_status closed, represents.session]
  case create create =>
    obtain ⟨⟨status, _⟩, created, done⟩ := Runs.bind_ok.mp done
    cases done
    rw [onCreate_status represents created]
    exact apply_ite (Response.empty.withStatus ·) _ _ _
  case delete path =>
    obtain ⟨⟨status, _⟩, deleted, done⟩ := Runs.bind_ok.mp done
    cases done
    rw [onDelete_status represents deleted]
    cases r.get options env.proc path <;> rfl
  case read path =>
    obtain ⟨⟨status, data, _⟩, read, done⟩ := Runs.bind_ok.mp done
    have said := onRead_status represents read
    cases done
    cases found : r.get options env.proc path <;> rw [found] at said <;> cases said <;> rfl
  case write write =>
    obtain ⟨⟨status, _⟩, written, done⟩ := Runs.bind_ok.mp done
    cases done
    rw [onWrite_status written, represents.write_status]
  case stat path =>
    obtain ⟨⟨status, data, _⟩, stat, done⟩ := Runs.bind_ok.mp done
    have said := onStat_status represents stat
    cases done
    cases found : r.get options env.proc path <;> rw [found] at said <;> cases said <;> rfl
  case watch =>
    have watched := represents.onWatch_status req
    generalize m.onWatch req = result at watched done
    cases done
    rw [watched]
  case none =>
    cases done
    rfl

end Machine

end Pyxis
