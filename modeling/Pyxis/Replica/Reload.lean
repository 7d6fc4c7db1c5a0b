import Pyxis.Replica.Refinement
import Pyxis.Server.Loop
import Pyxis.Store.Children
import Pyxis.Store.Walk
import Mathlib.Tactic.Tauto

set_option autoImplicit false

open Std (ExtTreeMap ExtTreeSet)

namespace Pyxis

def Tree.Owns (tree : Tree) (sid : Sid) (path : Str) : Prop :=
  ∃ node, tree path = some node ∧ node.ephemeral = true ∧ node.sid = sid

namespace Replica

def restoreSession (record : SessionRecord) (r : Replica) : Replica :=
  r.register record.sid record.timeout

def owner (entry : Str × Option Node) : Option Sid :=
  match entry.2 with
  | none => none
  | some node => if node.ephemeral then some node.sid else none

def ensure (sid : Sid) (r : Replica) : Replica :=
  match r.owned sid with
  | some _ => r
  | none => r.register sid kDefaultTimeout

def restoreNode (entry : Str × Option Node) (r : Replica) : Replica :=
  match owner entry with
  | none => r
  | some sid => (r.ensure sid).onOwned sid (·.insert entry.1)

theorem restoreNode_at (entry : Str × Option Node) (r : Replica) (sid : Sid) :
    (restoreNode entry r).owned sid =
        (if owner entry = some sid then some (((r.owned sid).getD ∅).insert entry.1)
        else r.owned sid) ∧
      (restoreNode entry r).records sid =
        if owner entry = some sid ∧ r.owned sid = none then some ⟨sid, kDefaultTimeout, [], []⟩
        else r.records sid := by
  cases owned : owner entry with
  | none => simp [restoreNode, owned]
  | some other =>
      simp only [restoreNode, owned, Option.some.injEq]
      by_cases same : other = sid
      · subst same
        cases live : r.owned other <;> simp [ensure, live, onOwned, register]
      · cases live : r.owned other <;>
          simp [ensure, live, onOwned, register, same, Function.update_of_ne (Ne.symm same)]

theorem restoreNode_tree (entry : Str × Option Node) (r : Replica) :
    (restoreNode entry r).tree = r.tree := by
  unfold restoreNode
  split
  · rfl
  · unfold ensure
    split <;> rfl

theorem restoreSessions (records : List SessionRecord) (r : Replica)
    (known : ∀ record ∈ records, r.records record.sid = some record)
    (plain : ∀ sid record, r.records sid = some record → record = ⟨sid, record.timeout, [], []⟩) :
    (records.foldl (fun r record => restoreSession record r) r).tree = r.tree ∧
      (records.foldl (fun r record => restoreSession record r) r).records = r.records ∧
      ∀ sid, (records.foldl (fun r record => restoreSession record r) r).owned sid =
        if ∃ record ∈ records, record.sid = sid then some ((r.owned sid).getD ∅)
        else r.owned sid := by
  induction records generalizing r with
  | nil => simp
  | cons record rest ih =>
      have found := known record (by simp)
      have same : (restoreSession record r).records = r.records := by
        funext sid
        by_cases here : sid = record.sid
        · rw [here, found]
          simp [restoreSession, register, ← plain record.sid record found]
        · simp [restoreSession, register, Function.update_of_ne here]
      obtain ⟨tree, records, owned⟩ := ih (restoreSession record r)
        (by rw [same]; exact fun other member => known other (List.mem_cons_of_mem _ member))
        (by rw [same]; exact plain)
      refine ⟨tree, records.trans same, fun sid => ?_⟩
      rw [List.foldl_cons, owned sid]
      by_cases here : record.sid = sid
      · simp [restoreSession, register, here]
      · simp [restoreSession, register, here, Function.update_of_ne (Ne.symm here)]

theorem restoreNodes (entries : List (Str × Option Node)) (r : Replica) :
    (entries.foldl (fun r entry => restoreNode entry r) r).tree = r.tree ∧
      (∀ sid, (entries.foldl (fun r entry => restoreNode entry r) r).owned sid = none ↔
        r.owned sid = none ∧ ∀ entry ∈ entries, owner entry ≠ some sid) ∧
      (∀ sid paths, (entries.foldl (fun r entry => restoreNode entry r) r).owned sid = some paths →
        ∀ path, path ∈ paths ↔ path ∈ (r.owned sid).getD ∅ ∨
          ∃ entry ∈ entries, entry.1 = path ∧ owner entry = some sid) ∧
      (∀ sid, (entries.foldl (fun r entry => restoreNode entry r) r).records sid =
        if r.owned sid = none ∧ ∃ entry ∈ entries, owner entry = some sid then
          some ⟨sid, kDefaultTimeout, [], []⟩
        else r.records sid) := by
  induction entries generalizing r with
  | nil =>
      refine ⟨rfl, by simp, fun sid paths present path => ?_, by simp⟩
      simp only [List.foldl_nil] at present
      simp [present]
  | cons entry rest ih =>
      obtain ⟨tree, live, paths, records⟩ := ih (restoreNode entry r)
      refine ⟨tree.trans (restoreNode_tree entry r), fun sid => ?_, fun sid set present path => ?_,
        fun sid => ?_⟩
      · rw [List.foldl_cons, live sid, (restoreNode_at entry r sid).1]
        by_cases here : owner entry = some sid <;> simp [here]
      · rw [paths sid set present path, (restoreNode_at entry r sid).1]
        by_cases here : owner entry = some sid
        · simp only [here, if_true, Option.getD_some, ExtTreeSet.mem_insert, Std.compare_eq_iff_eq,
            List.mem_cons, exists_eq_or_imp, and_true]
          tauto
        · simp [here]
      · obtain ⟨owned, record⟩ := restoreNode_at entry r sid
        rw [List.foldl_cons, records sid]
        simp only [List.mem_cons, exists_eq_or_imp]
        by_cases here : owner entry = some sid
        · rw [if_pos here] at owned
          simp only [owned, record, here, true_and, true_or, and_true, reduceCtorEq, false_and,
            if_false]
        · rw [if_neg here] at owned
          simp only [owned, record, here, false_and, false_or, if_false]

/-- What a restart makes of the replica that LevelDB holds: the live sessions are those with a
record, the largest sid apart, and those with an ephemeral node, and each owns exactly its ephemeral
nodes. A session made for its nodes gets a new record. -/
structure Reloaded (before after : Replica) : Prop where
  tree : after.tree = before.tree
  dead : ∀ sid, after.owned sid = none ↔
    (before.records sid = none ∨ sid = Store.maxSid) ∧ ∀ path, ¬ before.tree.Owns sid path
  paths : ∀ sid paths, after.owned sid = some paths →
    ∀ path, path ∈ paths ↔ before.tree.Owns sid path
  recorded : ∀ sid, before.records sid ≠ none → sid ≠ Store.maxSid →
    after.records sid = before.records sid
  unowned : ∀ sid, (∀ path, ¬ before.tree.Owns sid path) → after.records sid = before.records sid
  made : ∀ sid path, (before.records sid = none ∨ sid = Store.maxSid) →
    before.tree.Owns sid path → after.records sid = some ⟨sid, kDefaultTimeout, [], []⟩

end Replica

namespace Machine

variable {options : Options} {frame : Frame} (env : Env)

open Replica (owner restoreSession restoreNode Reloaded)

theorem walkSessionFunc_sim (call : SessionRecord × Nat) (m : Machine) (r : Replica)
    (represents : Represents options frame m r) :
    Runs.Sim (Represents options frame) (walkSessionFunc options env call m)
      (.ok (restoreSession call.1 r)) := by
  obtain ⟨after, added, holds, -⟩ := addSession_represents represents (env.clock call.2)
    (env.alloc m.sm) (env.alloc_fresh m.sm) call.1.sid call.1.timeout
  rw [walkSessionFunc, added]
  exact .ok holds

theorem ensureSession_represents {m : Machine} {r : Replica}
    (represents : Represents options frame m r)
    (now : Time) (sid : Sid) :
    ∃ after, ensureSession options env now sid m = .ok after ∧
      Represents options frame after (r.ensure sid) := by
  unfold ensureSession Replica.ensure
  cases live : m.sm.get sid with
  | none =>
      rw [(represents.get_none sid).mp live]
      obtain ⟨after, added, holds, -⟩ := addSession_represents represents now (env.alloc m.sm)
        (env.alloc_fresh m.sm) sid kDefaultTimeout
      exact ⟨after, added, holds⟩
  | some p =>
      have owned := represents.owned sid
      rw [live] at owned
      rw [owned]
      exact ⟨m, rfl, represents⟩

theorem ensure_live (r : Replica) (sid : Sid) : (r.ensure sid).owned sid ≠ none := by
  unfold Replica.ensure
  cases live : r.owned sid <;> simp [Replica.register, live]

theorem walkTreeFunc_sim (call : (Str × Option Node) × Nat) (m : Machine) (r : Replica)
    (represents : Represents options frame m r)
    (valid : isValidPath call.1.1 = true) (outside : options.underProc call.1.1 = false) :
    Runs.Sim (Represents options frame) (walkTreeFunc options env call m)
      (.ok (restoreNode call.1 r)) := by
  unfold walkTreeFunc restoreNode owner
  cases call.1.2 with
  | none => exact .ok represents
  | some node =>
      cases kind : node.ephemeral with
      | false =>
          simp only [kind, Bool.false_eq_true, if_false]
          exact .ok represents
      | true =>
          obtain ⟨after, ensured, holds⟩ := ensureSession_represents env represents
            (env.clock call.2) node.sid
          have lives : after.sm.get node.sid ≠ none := fun dead =>
            ensure_live r node.sid ((holds.get_none node.sid).mp dead)
          obtain ⟨p, live⟩ := Option.ne_none_iff_exists'.mp lives
          simp only [kind, if_true, ensured, bind, Except.bind, bindNode, live]
          exact .ok (holds.modify node.sid p live _ _ (fun _ => rfl) (fun _ => rfl) (fun _ => rfl)
            (fun _ => rfl) (Replica.coherent_insert holds.coherent node.sid call.1.1 valid outside))

theorem foldl_zipIdx {α β : Type} (f : β → α → β) (init : β) (xs : List α) (start : Nat) :
    (xs.zipIdx start).foldl (fun acc entry => f acc entry.1) init = xs.foldl f init := by
  rw [← List.foldl_map (f := Prod.fst) (g := f), List.zipIdx_map_fst]

theorem owns_iff (db : Persist) (keyed : Store.Keyed db) (closed : (Store.treeOf db).Closed options)
    (sid : Sid) (path : Str) :
    (Store.treeOf db).Owns sid path ↔
      ∃ entry ∈ Store.walkTree db, entry.1 = path ∧ owner entry = some sid := by
  have entries := Store.mem_walkTree db keyed fun path node here => (closed.valid path node here).1
  constructor
  · rintro ⟨node, here, kind, rfl⟩
    exact ⟨(path, some node), (entries path (some node)).mpr ⟨node, rfl, here⟩, rfl,
      by simp [owner, kind]⟩
  · rintro ⟨⟨key, value⟩, listed, rfl, owned⟩
    obtain ⟨node, rfl, here⟩ := (entries key value).mp listed
    simp only [owner] at owned
    split_ifs at owned with kind
    exact ⟨node, here, kind, Option.some.inj owned⟩

theorem sessions_reloaded {m : Machine} {r : Replica} (represents : Represents options frame m r)
    (empty : ∀ sid, r.owned sid = none) :
    ∃ records walked middle, Store.walkSessions m.db = .ok records ∧
      Runs.run (walkSessionFunc options env) m records.zipIdx = .ok walked ∧
      Represents options frame walked middle ∧ middle.tree = r.tree ∧
      middle.records = r.records ∧
      ∀ sid, middle.owned sid =
        if r.records sid ≠ none ∧ sid ≠ Store.maxSid then some ∅ else none := by
  obtain ⟨records, walked, visited⟩ := Store.walkSessions_spec m.db represents.keyed
  rw [represents.records] at visited
  obtain ⟨tree, kept, owned⟩ := Replica.restoreSessions records r
    (fun record member => ((visited record).mp member).1) represents.coherent.plain
  have sessions := Runs.Sim.run (Represents options frame) (walkSessionFunc options env)
    (fun call r => .ok (restoreSession call.1 r)) records.zipIdx
    (fun call _ m r holds => walkSessionFunc_sim env call m r holds) m r represents
  rw [Runs.run_pure, foldl_zipIdx (fun r record => restoreSession record r)] at sessions
  obtain ⟨restored, first, holds⟩ := sessions.exists_ok
  refine ⟨records, restored, _, walked, first, holds, tree, kept, fun sid => ?_⟩
  rw [owned sid, empty sid, Option.getD_none]
  refine if_congr ?_ rfl rfl
  constructor
  · rintro ⟨record, member, rfl⟩
    obtain ⟨found, notMax⟩ := (visited record).mp member
    exact ⟨by simp [found], notMax⟩
  · rintro ⟨present, notMax⟩
    obtain ⟨record, found⟩ := Option.ne_none_iff_exists'.mp present
    have same : record.sid = sid := by rw [represents.coherent.plain sid record found]
    exact ⟨record, (visited record).mpr ⟨by rw [same]; exact found, by rw [same]; exact notMax⟩,
      same⟩

theorem nodes_reloaded {walked : Machine} {middle : Replica}
    (holds : Represents options frame walked middle) (start : Nat) :
    ∃ after, Runs.run (walkTreeFunc options env) walked
        ((Store.walkTree walked.db).zipIdx start) = .ok after ∧
      Represents options frame after
        ((Store.walkTree walked.db).foldl (fun r entry => restoreNode entry r) middle) := by
  have entries := Store.mem_walkTree walked.db holds.keyed fun path node here =>
    (holds.coherent.closed.valid path node (by rw [← holds.tree]; exact here)).1
  have nodes := Runs.Sim.run (Represents options frame) (walkTreeFunc options env)
    (fun call r => .ok (restoreNode call.1 r)) ((Store.walkTree walked.db).zipIdx start)
    (fun call member m r represents => by
      have listed := List.mem_map_of_mem (f := Prod.fst) member
      rw [List.zipIdx_map_fst] at listed
      obtain ⟨node, -, here⟩ := (entries call.1.1 call.1.2).mp listed
      rw [holds.tree] at here
      obtain ⟨valid, outside⟩ := holds.coherent.closed.valid _ node here
      exact walkTreeFunc_sim env call m r represents valid outside) walked _ holds
  rw [Runs.run_pure, foldl_zipIdx (fun r entry => restoreNode entry r)] at nodes
  exact nodes.exists_ok

theorem onLoadSnapshot_spec (m : Machine) (r : Replica) (represents : Represents options frame m r)
    (empty : ∀ sid, r.owned sid = none) :
    ∃ after index final, onLoadSnapshot options env m = .ok (after, index) ∧
      Store.getCommitIndex m.db = .ok index ∧ Represents options frame after final ∧
      Reloaded r final := by
  obtain ⟨records, walked, middle, visited, first, holds, tree, kept, alive⟩ :=
    sessions_reloaded env represents empty
  obtain ⟨after, second, final⟩ := nodes_reloaded env holds records.length
  obtain ⟨index, read⟩ := Store.getCommitIndex_ok after.db final.keyed
  have same := Store.getCommitIndex_congr m.db after.db
    (represents.commit.trans final.commit.symm)
  refine ⟨after, index, _, ?_, same.trans read, final, ?_⟩
  · simp only [onLoadSnapshot, visited, first, second, read, bind, Except.bind]
    rfl
  obtain ⟨treeToo, dead, paths, recorded⟩ :=
    Replica.restoreNodes (Store.walkTree walked.db) middle
  have owns (sid : Sid) (path : Str) := owns_iff walked.db holds.keyed
    (by rw [holds.tree]; exact holds.coherent.closed) sid path
  simp only [holds.tree, tree] at owns
  have noPaths (sid : Sid) (path : Str) : path ∉ (middle.owned sid).getD ∅ := by
    rw [alive sid]
    split_ifs <;> simp
  have owner_iff (sid : Sid) : (∃ entry ∈ Store.walkTree walked.db, owner entry = some sid) ↔
      ∃ path, r.tree.Owns sid path := by
    simp only [owns]
    exact ⟨fun ⟨entry, listed, owned⟩ => ⟨entry.1, entry, listed, rfl, owned⟩,
      fun ⟨_, entry, listed, _, owned⟩ => ⟨entry, listed, owned⟩⟩
  have noSession (sid : Sid) : middle.owned sid = none ↔
      r.records sid = none ∨ sid = Store.maxSid := by
    rw [alive sid]
    by_cases present : r.records sid = none <;> by_cases last : sid = Store.maxSid <;>
      simp [present, last]
  refine ⟨treeToo.trans tree, fun sid => ?_, fun sid set present path => ?_,
    fun sid present notMax => ?_, fun sid unowned => ?_, fun sid path absent held => ?_⟩
  · rw [dead sid, noSession sid]
    refine and_congr_right fun _ => ?_
    rw [← not_exists, ← owner_iff sid]
    simp
  · rw [paths sid set present path, owns sid path]
    simp [noPaths sid path]
  · rw [recorded sid, kept, if_neg]
    rw [noSession sid]
    rintro ⟨absent | last, -⟩
    · exact present absent
    · exact notMax last
  · rw [recorded sid, kept, if_neg]
    rintro ⟨-, held⟩
    obtain ⟨path, owned⟩ := (owner_iff sid).mp held
    exact unowned path owned
  · rw [recorded sid, if_pos ⟨(noSession sid).mpr absent, (owner_iff sid).mpr ⟨path, held⟩⟩]

structure Loadable (options : Options) (db : Persist) : Prop where
  keyed : Store.Keyed db
  closed : (Store.treeOf db).Closed options
  plain : ∀ sid record, Store.recordsOf db sid = some record →
    record = ⟨sid, record.timeout, [], []⟩

def stored (db : Persist) : Replica := ⟨Store.treeOf db, Store.recordsOf db, fun _ => none⟩

def fresh (db : Persist) (now : Time) (replies : List (Event × Response)) : Machine where
  db := db
  sm := SessionManager.new now
  wm := []
  nextWatcher := 0
  replies := replies
  trace := []

theorem represents_fresh {db : Persist} (loadable : Loadable options db) (now : Time)
    (replies : List (Event × Response)) :
    Represents options ⟨Store.commitOf db, fun _ => False⟩ (fresh db now replies) (stored db) := by
  refine ⟨?_, SessionManager.wellFormed_new _, loadable.keyed, rfl,
    by simp [fresh, SessionManager.get, SessionManager.new],
    ⟨loadable.closed, loadable.plain, by simp [stored]⟩⟩
  exact Replica.ext rfl rfl (funext fun sid => by
    simp [fresh, Machine.view, SessionManager.get, SessionManager.new, stored])

theorem load_spec (db ready : Persist) (replies : List (Event × Response))
    (opened : Store.init options env.proc db = .ok ready) (loadable : Loadable options ready) :
    ∃ after index r, load options env db replies = .ok (after, index) ∧
      Store.getCommitIndex ready = .ok index ∧
      Represents options ⟨Store.commitOf ready, fun _ => False⟩ after r ∧
      Reloaded (stored ready) r := by
  simp only [load, opened, bind, Except.bind]
  exact onLoadSnapshot_spec env _ _ (represents_fresh loadable (env.clock 0) replies) fun _ => rfl

theorem init_loadable (proc : ProcDB) (db : Persist) (loadable : Loadable options db) :
    Store.init options proc db = .ok db := by
  obtain ⟨root, here, -⟩ := loadable.closed.root
  unfold Store.init
  cases found : db[rootPath]? with
  | none => simp [Store.treeOf, found] at here
  | some value => rfl

theorem recordsOf_fresh (sid : Sid) : Store.recordsOf (Store.freshDb options) sid = none := by
  have absent : (Store.freshDb options)[Store.sessionKey sid]? = none := by
    have different : rootPath ≠ Store.sessionKey sid := fun same =>
      Store.sessionKey_not_tree sid ⟨[], same.symm⟩
    simp [Store.freshDb, different]
  simp [Store.recordsOf, absent]

theorem owns_fresh (sid : Sid) (path : Str) :
    ¬ (Store.treeOf (Store.freshDb options)).Owns sid path := by
  rintro ⟨node, here, kind, -⟩
  rw [Store.treeOf_fresh] at here
  split_ifs at here
  cases here
  rw [rootNode_ephemeral] at kind
  cases kind

variable (options) in
theorem loadable_fresh : Loadable options (Store.freshDb options) where
  closed := Store.closed_fresh options
  keyed := by
    constructor
    · exact Store.nodeKeys_insert _ _ _ (by simp [Store.NodeKeys])
    · intro key value other found
      rw [Store.freshDb, ExtTreeMap.getElem?_insert] at found
      split_ifs at found with same
      · rw [Std.compare_eq_iff_eq] at same
        exact absurd ⟨[], same.symm⟩ other
      · simp at found
  plain := by
    intro sid record found
    rw [recordsOf_fresh] at found
    cases found

end Machine

end Pyxis
