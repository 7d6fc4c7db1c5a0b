import Pyxis.Replica.Ownership

set_option autoImplicit false

open Std (ExtTreeSet)

namespace Pyxis

namespace Replica

variable {options : Options}

def Mirrored (r : Replica) : Prop := ∀ sid, r.owned sid = none ↔ r.records sid = none

/-- A server that was restarted, beside one that was not. The sets of its sessions may be smaller,
since they were rebuilt from the tree, but hold every ephemeral node. -/
structure Rebuilt (r restarted : Replica) : Prop where
  tree : restarted.tree = r.tree
  records : restarted.records = r.records
  live : ∀ sid, restarted.owned sid = none ↔ r.owned sid = none
  subset : ∀ sid mine paths, restarted.owned sid = some mine → r.owned sid = some paths →
    ∀ path ∈ mine, path ∈ paths
  anchored : restarted.Anchored

theorem Rebuilt.refl {r : Replica} (anchored : r.Anchored) : r.Rebuilt r :=
  ⟨rfl, rfl, fun _ => Iff.rfl, fun sid mine paths here there path member => by
    rw [here] at there
    cases there
    exact member, anchored⟩

theorem Reloaded.rebuilt {r before after : Replica} (reloaded : Reloaded before after)
    (tree : before.tree = r.tree) (records : before.records = r.records)
    (mirrored : r.Mirrored) (anchored : r.Anchored) (noLast : r.owned Store.maxSid = none) :
    r.Rebuilt after := by
  have unowned (sid : Sid) (dead : r.owned sid = none) (path : Str) :
      ¬ before.tree.Owns sid path := by
    intro owns
    obtain ⟨paths, live, -⟩ := anchored sid path (tree ▸ owns)
    rw [dead] at live
    cases live
  refine ⟨reloaded.tree.trans tree, funext fun sid => ?_, fun sid => ?_,
    fun sid mine paths rebuilt live path member => ?_, reloaded.anchored⟩
  · cases live : r.owned sid with
    | none => rw [reloaded.unowned sid (unowned sid live), records]
    | some paths =>
        have recorded : before.records sid ≠ none := by
          rw [records, ne_eq, ← mirrored sid, live]
          nofun
        have notLast : sid ≠ Store.maxSid := by
          rintro rfl
          rw [noLast] at live
          cases live
        rw [reloaded.recorded sid recorded notLast, records]
  · rw [reloaded.dead sid, records]
    constructor
    · rintro ⟨absent | rfl, -⟩
      · exact (mirrored sid).mpr absent
      · exact noLast
    · intro dead
      exact ⟨.inl ((mirrored sid).mp dead), unowned sid dead⟩
  · have owns := (reloaded.paths sid mine rebuilt path).mp member
    obtain ⟨set, found, held⟩ := anchored sid path (tree ▸ owns)
    rw [live] at found
    cases found
    exact held

theorem Mirrored.apply {req : Request} {r next : Replica} (mirrored : r.Mirrored)
    (closed : r.tree.Closed options) (applied : r.apply options req = .ok next) :
    next.Mirrored := by
  intro sid
  rcases apply_sessions closed applied sid with ⟨dead, gone⟩ | ⟨live, stored⟩ | ⟨same, kept⟩
  · exact iff_of_true dead gone
  · exact iff_of_false live stored
  · rw [same, kept]
    exact mirrored sid

theorem closeNodes_congr {sid : Sid} (paths : List Str) (r s last : Replica)
    (same : s.tree = r.tree)
    (done : Runs.run (closeNode options sid) r paths = .ok last) :
    Runs.run (closeNode options sid) s paths = .ok { s with tree := last.tree } := by
  induction paths generalizing r s with
  | nil =>
      cases done
      rw [← same]
      rfl
  | cons path rest ih =>
      obtain ⟨next, visited, later⟩ := (Runs.run_cons_ok _ _ _ _ _).mp done
      have visitedToo : closeNode options sid path s = .ok { s with tree := next.tree } := by
        rcases (closeNode_ok visited).2 with ⟨foreign, kept⟩ | ⟨own, deleted⟩
        · rw [closeNode_skip (same ▸ foreign), kept, ← same]
        · exact closeNode_delete (same ▸ own) (same ▸ deleted)
      exact (Runs.run_cons_ok _ _ _ _ _).mpr ⟨_, visitedToo, ih next _ rfl later⟩

theorem nodup_toList (paths : ExtTreeSet Str) : paths.toList.Nodup :=
  ExtTreeSet.distinct_toList.imp fun {one two} apart same => apart (by rw [same, Std.compare_self])

theorem filter_toList_eq (one two : ExtTreeSet Str) (keep : Str → Bool)
    (agree : ∀ path, keep path = true → (path ∈ one ↔ path ∈ two)) :
    one.toList.filter keep = two.toList.filter keep := by
  rw [← ExtTreeSet.toList_filter, ← ExtTreeSet.toList_filter]
  congr 1
  refine ExtTreeSet.ext_mem fun path => ?_
  simp only [ExtTreeSet.mem_filter, ExtTreeSet.get_eq, exists_prop]
  exact and_congr_left fun kept => agree path kept

namespace Rebuilt

variable {r restarted : Replica} (rebuilt : r.Rebuilt restarted)

include rebuilt

theorem onTree (tree : Tree) (anchored : Anchored { restarted with tree := tree }) :
    Rebuilt { r with tree := tree } { restarted with tree := tree } :=
  ⟨rfl, rebuilt.records, rebuilt.live, rebuilt.subset, anchored⟩

theorem onOwned (tree : Tree) (sid : Sid) (f : ExtTreeSet Str → ExtTreeSet Str)
    (mono : ∀ mine paths, (∀ path ∈ mine, path ∈ paths) → ∀ path ∈ f mine, path ∈ f paths)
    (anchored : (Replica.onOwned sid f { restarted with tree := tree }).Anchored) :
    (Replica.onOwned sid f { r with tree := tree }).Rebuilt
      (Replica.onOwned sid f { restarted with tree := tree }) := by
  refine ⟨rfl, rebuilt.records, fun other => ?_, fun other mine paths here there => ?_,
    anchored⟩
  · rw [onOwned_none, onOwned_none]
    exact rebuilt.live other
  · rcases onOwned_cases _ _ _ _ _ here with ⟨rfl, before, found, rfl⟩ | ⟨apart, found⟩
    · rcases onOwned_cases _ _ _ _ _ there with ⟨-, set, owned, rfl⟩ | ⟨apart, -⟩
      · exact mono before set (rebuilt.subset other before set found owned)
      · exact absurd rfl apart
    · rcases onOwned_cases _ _ _ _ _ there with ⟨same, -⟩ | ⟨-, owned⟩
      · exact absurd same apart
      · exact rebuilt.subset other mine paths found owned

theorem register (sid : Sid) (timeout : Int) :
    (r.register sid timeout).Rebuilt (restarted.register sid timeout) := by
  refine ⟨rebuilt.tree, by simp only [Replica.register, rebuilt.records], fun other => ?_,
    fun other mine paths here there path member => ?_, rebuilt.anchored.register sid timeout⟩
  · by_cases same : other = sid
    · subst same
      simp [Replica.register]
    · simpa [Replica.register, Function.update_of_ne same] using rebuilt.live other
  · by_cases same : other = sid
    · subst same
      simp only [Replica.register, Function.update_self, Option.some.injEq] at here there
      subst here there
      cases found : restarted.owned other with
      | none => simp [found] at member
      | some before =>
          obtain ⟨set, owned⟩ := Option.ne_none_iff_exists'.mp
            (mt (rebuilt.live other).mpr (by simp [found]))
          simp only [found, owned, Option.getD_some] at member ⊢
          exact rebuilt.subset other before set found owned path member
    · simp only [Replica.register, Function.update_of_ne same] at here there
      exact rebuilt.subset other mine paths here there path member

theorem create (sid : Sid) (req : CreateRequest) :
    (r.create options sid req).Rebuilt (restarted.create options sid req) := by
  have anchored : (restarted.create options sid req).Anchored := rebuilt.anchored.create sid req
  have refuses : (restarted.owned sid = none ∧ isEphemeral req.flags = true) ↔
      (r.owned sid = none ∧ isEphemeral req.flags = true) := by rw [rebuilt.live sid]
  unfold Replica.create at anchored ⊢
  by_cases refused : r.owned sid = none ∧ isEphemeral req.flags = true
  · rw [if_pos refused, if_pos (refuses.mpr refused)]
    exact rebuilt
  · rw [if_neg (mt refuses.mp refused)] at anchored ⊢
    rw [if_neg refused]
    rw [rebuilt.tree] at anchored ⊢
    cases created : r.tree.create options req.path req.data req.flags sid with
    | none => exact rebuilt
    | some tree =>
        simp only [created] at anchored ⊢
        cases kind : isEphemeral req.flags with
        | false =>
            simp only [kind, Bool.false_eq_true, if_false] at anchored ⊢
            exact rebuilt.onTree tree anchored
        | true =>
            simp only [kind, if_true] at anchored ⊢
            refine rebuilt.onOwned tree sid _ (fun mine paths subset path member => ?_) anchored
            rw [ExtTreeSet.mem_insert] at member ⊢
            exact member.imp id (subset path)

theorem removed (sid : Sid) (path : Str) (tree : Tree)
    (deleted : r.tree.delete options path = .ok (some tree)) :
    (Replica.onOwned sid (·.erase path) { r with tree := tree }).Rebuilt
      (Replica.onOwned sid (·.erase path) { restarted with tree := tree }) := by
  refine rebuilt.onOwned tree sid _ (fun mine paths subset other member => ?_)
    (rebuilt.anchored.removed sid path tree (by rw [rebuilt.tree]; exact deleted))
  rw [ExtTreeSet.mem_erase] at member ⊢
  exact member.imp id (subset other)

theorem close {sid : Sid} {next : Replica} (closed : r.tree.Closed options) (clean : r.Clean sid)
    (done : r.close options sid = .ok next) :
    ∃ after, restarted.close options sid = .ok after ∧ next.Rebuilt after := by
  -- A clean close deletes the same nodes in the same order in both.
  cases live : r.owned sid with
  | none =>
      rw [Replica.close, live] at done
      cases done
      exact ⟨restarted, by rw [Replica.close, (rebuilt.live sid).mpr live], rebuilt⟩
  | some paths =>
      obtain ⟨mine, found⟩ := Option.ne_none_iff_exists'.mp
        (mt (rebuilt.live sid).mp (by simp [live]))
      have frame := (close_spec closed live done).1
      rw [Replica.close, live] at done
      have agree : mine.toList.filter (r.tree.tagged sid) =
          paths.toList.filter (r.tree.tagged sid) :=
        filter_toList_eq mine paths _ fun path own => by
          refine ⟨rebuilt.subset sid mine paths found live path, fun member => ?_⟩
          obtain ⟨node, here, same⟩ := (Tree.tagged_iff _ _ _).mp own
          obtain ⟨set, owned, held⟩ := rebuilt.anchored sid path
            ⟨node, by rw [rebuilt.tree]; exact here,
              clean paths live path member node here same, same⟩
          rw [found] at owned
          cases owned
          exact held
      have closes : restarted.close options sid =
          .ok { restarted.forget sid with tree := next.tree } := by
        rw [Replica.close, found]
        refine (closeNodes_filter mine.toList (nodup_toList mine) _).trans ?_
        refine closeNodes_congr _ (r.forget sid) _ next rebuilt.tree ?_
        have same : (restarted.forget sid).tree = r.tree := rebuilt.tree
        rw [same, agree, ← done]
        exact (closeNodes_filter paths.toList (nodup_toList paths) (r.forget sid)).symm
      refine ⟨_, closes, ?_⟩
      rw [frame]
      refine ⟨rfl, by simp only [forget, rebuilt.records], fun other => ?_,
        fun other left right here there => ?_,
        rebuilt.anchored.close (by rw [rebuilt.tree]; exact closed) closes⟩
      · by_cases same : other = sid
        · subst same
          simp [forget]
        · simpa [forget, Function.update_of_ne same] using rebuilt.live other
      · by_cases same : other = sid
        · simp [forget, same] at here
        · simp only [forget, Function.update_of_ne same] at here there
          exact rebuilt.subset other left right here there

theorem apply {req : Request} {next : Replica} (closed : r.tree.Closed options)
    (clean : req.body = .unregister → r.Clean req.sid) (applied : r.apply options req = .ok next) :
    ∃ after, restarted.apply options req = .ok after ∧ next.Rebuilt after := by
  unfold Replica.apply at applied ⊢
  cases body : req.body with
  | register timeout =>
      rw [body] at applied
      cases applied
      exact ⟨_, rfl, rebuilt.register req.sid timeout⟩
  | unregister =>
      rw [body] at applied
      exact rebuilt.close closed (clean body) applied
  | create create =>
      rw [body] at applied
      cases applied
      exact ⟨_, rfl, rebuilt.create req.sid create⟩
  | delete path =>
      simp only [body, delete_eq] at applied ⊢
      rw [rebuilt.tree]
      cases deleted : r.tree.delete options path with
      | error fault =>
          rw [deleted] at applied
          cases applied
      | ok result =>
          rw [deleted] at applied
          cases applied
          cases result with
          | none => exact ⟨_, rfl, rebuilt⟩
          | some tree => exact ⟨_, rfl, rebuilt.removed req.sid path tree deleted⟩
  | write write =>
      rw [body] at applied
      cases applied
      refine ⟨_, rfl, ?_⟩
      have anchored : (restarted.write options write).Anchored := rebuilt.anchored.write write
      unfold Replica.write at anchored ⊢
      rw [rebuilt.tree] at anchored ⊢
      exact rebuilt.onTree _ anchored
  | read path | stat path =>
      simp only [body] at applied ⊢
      split_ifs at applied ⊢
      cases applied
      exact ⟨_, rfl, rebuilt⟩
  | watch | none =>
      rw [body] at applied
      cases applied
      exact ⟨_, rfl, rebuilt⟩

end Rebuilt

end Replica

namespace Server

variable {options : Options} {env : Env}

structure Tracks (options : Options) (server : Server) (r : Replica) : Prop where
  follows : server.state = .follower
  stands : Stands options server r
  anchored : r.Anchored
  mirrored : r.Mirrored

theorem Tracks.onEntry {server next : Server} {r : Replica} (tracks : Tracks options server r)
    (entry : Env × Request) (applied : onEntry options entry server = .ok next) :
    ∃ after, r.apply options entry.2 = .ok after ∧ Tracks options next after := by
  obtain ⟨follows, ⟨frame, represents⟩, anchored, mirrored⟩ := tracks
  obtain ⟨after, done, holds⟩ := represents_onCommand represents applied
  exact ⟨after, done, (onCommand_frame applied).1.trans follows, ⟨frame, holds⟩,
    anchored.apply represents.coherent.closed done,
    mirrored.apply represents.coherent.closed done⟩

theorem initial_tracks (options : Options) (env : Env) :
    ∃ first, initial options env = .ok first ∧
      Tracks options first (Machine.stored (Store.freshDb options)) := by
  obtain ⟨first, r, started, stands, reloaded, -, follows, -⟩ := initial_ok options env
  have anchored := reloaded.anchored
  rw [reloaded_fresh reloaded] at stands anchored
  refine ⟨first, started, follows, stands, anchored, fun sid => ?_⟩
  simp [Machine.stored, Machine.recordsOf_fresh]

theorem replayed_tracks {log : List (Env × Request)} {server : Server}
    (applied : replayed options env log = .ok server) : ∃ r, Tracks options server r := by
  obtain ⟨first, started, tracks⟩ := initial_tracks options env
  simp only [replayed, started, bind, Except.bind] at applied
  refine Runs.run_invariant_always (onEntry options) (fun server => ∃ r, Tracks options server r)
    ?_ first server log ⟨_, tracks⟩ applied
  rintro entry server next ⟨r, tracks⟩ taken
  obtain ⟨after, -, holds⟩ := tracks.onEntry entry taken
  exact ⟨after, holds⟩

def ClosesCleanly (entry : Env × Request) (server : Server) : Prop :=
  -- The command does not close a session that has persistent nodes among its paths.
  entry.2.body = .unregister → server.machine.view.Clean entry.2.sid

instance (entry : Env × Request) (server : Server) : Decidable (ClosesCleanly entry server) :=
  inferInstanceAs (Decidable (_ → _))

theorem rebuilt_run (log again : List (Env × Request))
    (same : again.map Prod.snd = log.map Prod.snd)
    (server last restarted : Server) (r s : Replica) (tracks : Tracks options server r)
    (follows : restarted.state = .follower) (stands : Stands options restarted s)
    (rebuilt : r.Rebuilt s)
    (clean : Runs.Meets (onEntry options) ClosesCleanly server log)
    (reached : Runs.run (onEntry options) server log = .ok last) :
    ∃ other after restored, Runs.run (onEntry options) restarted again = .ok other ∧
      Tracks options last after ∧ Stands options other restored ∧ after.Rebuilt restored := by
  induction log generalizing again server restarted r s with
  | nil =>
      cases List.map_eq_nil_iff.mp same
      cases reached
      exact ⟨restarted, r, s, rfl, tracks, stands, rebuilt⟩
  | cons entry rest ih =>
      cases again with
      | nil => cases same
      | cons entry' rest' =>
          obtain ⟨sameCmd, sameRest⟩ := List.cons.inj same
          obtain ⟨next, taken, later⟩ := (Runs.run_cons_ok _ _ _ _ _).mp reached
          obtain ⟨after, done, tracksNext⟩ := tracks.onEntry entry taken
          obtain ⟨_, represents⟩ := tracks.stands
          obtain ⟨_, representsToo⟩ := stands
          obtain ⟨restored, doneToo, rebuiltNext⟩ := rebuilt.apply represents.coherent.closed
            (represents.view ▸ clean.1) done
          obtain ⟨nextToo, takenToo, holds⟩ := onCommand_exists entry'.1 representsToo
            (sameCmd ▸ doneToo) (by simp [follows])
          obtain ⟨other, final, last', reachedToo, facts⟩ := ih rest' sameRest next nextToo after
            restored tracksNext ((onCommand_frame takenToo).1.trans follows) ⟨_, holds⟩ rebuiltNext
            (clean.2 next taken) later
          exact ⟨other, final, last',
            (Runs.run_cons_ok _ _ _ _ _).mpr ⟨nextToo, takenToo, reachedToo⟩, facts⟩

theorem restart_transparent (reload : Env) {first second : List (Env × Request)}
    (again : List (Env × Request)) {middle last : Server}
    (applied : replayed options env first = .ok middle)
    (finished : Runs.run (onEntry options) middle second = .ok last)
    (same : again.map Prod.snd = second.map Prod.snd)
    (noLast : middle.machine.sm.get Store.maxSid = none)
    (clean : Runs.Meets (onEntry options) ClosesCleanly middle second) :
    ∃ restarted other, middle.restart options reload = .ok restarted ∧
      Runs.run (onEntry options) restarted again = .ok other ∧
      Store.treeOf other.machine.db = Store.treeOf last.machine.db ∧
      ∀ sid, (other.machine.sm.get sid).isSome = (last.machine.sm.get sid).isSome := by
  obtain ⟨r, tracks⟩ := replayed_tracks applied
  obtain ⟨_, represents⟩ := tracks.stands
  obtain ⟨restarted, index, s, restarts, -, holds, reloaded, follows⟩ := restart_ok reload
    (loadable_of_represents represents)
  have rebuilt : r.Rebuilt s := reloaded.rebuilt represents.tree represents.records
    tracks.mirrored tracks.anchored ((represents.get_none _).mp noLast)
  obtain ⟨other, after, restored, reached, tracksLast, ⟨_, standsOther⟩, rebuiltLast⟩ :=
    rebuilt_run second again same middle last restarted r s tracks (by rw [follows]) ⟨_, holds⟩
      rebuilt clean finished
  obtain ⟨_, standsLast⟩ := tracksLast.stands
  refine ⟨restarted, other, restarts, reached, ?_, fun sid => ?_⟩
  · rw [standsOther.tree, standsLast.tree, rebuiltLast.tree]
  · have live := rebuiltLast.live sid
    rw [← standsOther.get_none, ← standsLast.get_none] at live
    rw [Bool.eq_iff_iff, ← not_iff_not]
    simpa using live

theorem restart_transparent_lock :
    ∃ middle last restarted other,
      replayed Options.standard (.still 0) (lockLog.map (.still 0, ·)) = .ok middle ∧
      Runs.run (onEntry Options.standard) middle [(.still 0, .closing 2)] = .ok last ∧
      middle.restart Options.standard (.still 7) = .ok restarted ∧
      Runs.run (onEntry Options.standard) restarted [(.still 8, .closing 2)] = .ok other ∧
      Store.treeOf other.machine.db = Store.treeOf last.machine.db := by
  have found : Runs.passes (replayed Options.standard (.still 0) (lockLog.map (.still 0, ·)))
      (fun middle => Runs.passes
        (Runs.run (onEntry Options.standard) middle [(.still 0, .closing 2)]) fun _ =>
        decide (middle.machine.sm.get Store.maxSid = none ∧
          Runs.Meets (onEntry Options.standard) ClosesCleanly middle
            [(.still 0, .closing 2)])) = true := by
    decide +kernel
  simp only [Runs.passes_iff, decide_eq_true_eq] at found
  obtain ⟨middle, applied, last, finished, noLast, clean⟩ := found
  obtain ⟨restarted, other, restarts, reached, tree, -⟩ := restart_transparent (.still 7)
    [(.still 8, .closing 2)] applied finished rfl noLast clean
  exact ⟨middle, last, restarted, other, applied, finished, restarts, reached, tree⟩

theorem restart_diverges :
    ∃ middle last restarted other,
      replayed Options.standard (.still 0) (staleLog.map (.still 0, ·)) = .ok middle ∧
      Runs.run (onEntry Options.standard) middle [(.still 0, .closing 1)] = .ok last ∧
      middle.restart Options.standard (.still 0) = .ok restarted ∧
      Runs.run (onEntry Options.standard) restarted [(.still 0, .closing 1)] = .ok other ∧
      Store.treeOf last.machine.db (text "/a") = none ∧
      Store.treeOf other.machine.db (text "/a") = some { newNode [] kPersist with sid := 1 } := by
  -- After the restart session 1 no longer deletes the persistent node that it would have deleted.
  have found : Runs.passes (replayed Options.standard (.still 0) (staleLog.map (.still 0, ·)))
      (fun middle => Runs.passes
        (Runs.run (onEntry Options.standard) middle [(.still 0, .closing 1)]) fun last =>
        Runs.passes (middle.restart Options.standard (.still 0)) fun restarted => Runs.passes
          (Runs.run (onEntry Options.standard) restarted [(.still 0, .closing 1)]) fun other =>
          decide (Store.treeOf last.machine.db (text "/a") = none ∧
            Store.treeOf other.machine.db (text "/a") =
              some { newNode [] kPersist with sid := 1 })) = true := by
    decide +kernel
  simp only [Runs.passes_iff, decide_eq_true_eq] at found
  obtain ⟨middle, applied, last, finished, restarted, restarts, other, reached,
    gone, stays⟩ := found
  exact ⟨middle, last, restarted, other, applied, finished, restarts, reached, gone, stays⟩

end Server

end Pyxis
