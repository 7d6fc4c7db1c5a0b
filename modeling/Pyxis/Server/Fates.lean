import Pyxis.Server.Notifications
import Pyxis.Server.Pairing

set_option autoImplicit false

open Std (ExtTreeMap)

namespace Pyxis

namespace SessionManager

def pings (sm : SessionManager) : ExtTreeMap SessionPtr Event :=
  sm.heap.filterMap fun _ s => s.pingEvent

theorem getElem?_pings (sm : SessionManager) (p : SessionPtr) :
    sm.pings[p]? = (sm.deref p).pingEvent := by
  rw [pings, ExtTreeMap.getElem?_filterMap', deref]
  cases sm.heap[p]? <;> rfl

theorem pings_congr {before after : SessionManager}
    (same : ∀ p, (after.deref p).pingEvent = (before.deref p).pingEvent) :
    after.pings = before.pings := by
  apply ExtTreeMap.ext_getElem?
  intro p
  rw [getElem?_pings, getElem?_pings, same]

theorem pings_modify (sm : SessionManager) (p : SessionPtr) {f : Session → Session}
    (same : ∀ s, (f s).pingEvent = s.pingEvent) : (sm.modify p f).pings = sm.pings :=
  pings_congr (modify_field Session.pingEvent sm p f same)

theorem pings_touch {options : Options} {now : Time} {sm after : SessionManager} {sid : Sid}
    (done : sm.touch options now sid = .ok after) : after.pings = sm.pings := by
  obtain ⟨p, -, ⟨-, rfl⟩ | ⟨-, timers, rfl⟩⟩ := touch_cases done
  · rfl
  · exact pings_modify sm p fun _ => rfl

theorem pings_add {options : Options} {now : Time} {sm after : SessionManager} {p : SessionPtr}
    {session : Session} (fresh : sm.heap[p]? = none) (silent : session.pingEvent = none)
    (done : sm.add options now p session = .ok after) : after.pings = sm.pings := by
  have entered : (sm.inserted p session).pings = sm.pings := by
    refine pings_congr fun q => ?_
    rw [deref, inserted_heap, deref]
    split_ifs with same
    · subst same
      rw [fresh]
      exact silent
    · rfl
  exact (pings_touch done).trans entered

theorem pings_erase (sm : SessionManager) (p : SessionPtr) :
    pings { sm with heap := sm.heap.erase p } = sm.pings.erase p := by
  apply ExtTreeMap.ext_getElem?
  intro q
  simp only [pings, ExtTreeMap.getElem?_filterMap', ExtTreeMap.getElem?_erase]
  split_ifs <;> rfl

theorem pings_unheld (sm : SessionManager) (p : SessionPtr) {f : Session → Session}
    (unheld : ∀ s, (f s).pingEvent = none) : (sm.modify p f).pings = sm.pings.erase p := by
  apply ExtTreeMap.ext_getElem?
  intro q
  simp only [pings, ExtTreeMap.getElem?_filterMap', ExtTreeMap.getElem?_erase, heap_modify,
    Std.compare_eq_iff_eq]
  split_ifs
  · cases sm.heap[q]? <;> simp [unheld]
  · rfl

theorem pings_held (sm : SessionManager) {p : SessionPtr} {session : Session}
    (stored : sm.heap[p]? = some session) {f : Session → Session} (e : Event)
    (held : ∀ s, (f s).pingEvent = some e) : (sm.modify p f).pings = sm.pings.insert p e := by
  apply ExtTreeMap.ext_getElem?
  intro q
  simp only [pings, ExtTreeMap.getElem?_filterMap', ExtTreeMap.getElem?_insert, heap_modify,
    Std.compare_eq_iff_eq]
  split_ifs with same
  · subst same
    simp [stored, held]
  · rfl

theorem gone_of_unreferenced {sm : SessionManager} {p : SessionPtr}
    (unreferenced : ¬ sm.referenced p = true) (sid : Sid) : sm.get sid ≠ some p := by
  intro live
  apply unreferenced
  simp only [referenced, Bool.or_eq_true, List.any_eq_true, beq_iff_eq]
  exact .inl ⟨(sid, p), ExtTreeMap.mem_toList_iff_getElem?_eq_some.mpr live, rfl⟩

theorem pings_entered {clock : Nat → Time} {sm after : SessionManager}
    (reset : sm.resetTimer clock = .ok after) : after.resetWatchers.pings = sm.pings :=
  pings_congr fun p =>
    (foldl_modify_field Session.pingEvent after Prod.snd Session.resetWatch
      (fun _ => rfl) _ p).trans
      (resetTimer_field Session.pingEvent _ sm (fun _ _ => rfl) reset p)

end SessionManager

-- An answer that only a ping gets: it says nothing, or names a watch that has fired.
def Response.Pong (rep : Response) : Prop := rep.err = none ∧ rep.data = none ∧ rep.sid = none

theorem Session.pingBack_pong (s : Session) : ∀ answer ∈ s.pingBack.1, answer.2.Pong := by
  intro answer member
  unfold pingBack at member
  split at member
  · cases member
  · split at member <;> cases member <;> exact ⟨rfl, rfl, rfl⟩

namespace Machine

def held (m : Machine) : List Event := m.sm.pings.toList.map Prod.snd

-- The events that were answered, and those that sessions hold.
def taken (m : Machine) : List Event := m.replies.map Prod.fst ++ m.held

def Pays (new : List Event) (m after : Machine) : Prop :=
  ∃ sent, after.replies = m.replies ++ sent ∧
    (sent.map Prod.fst ++ after.held).Perm (new ++ m.held) ∧
    ∀ answer ∈ sent, answer.1 ∈ new ∨ answer.2.Pong

variable {options : Options} {env : Env} {state : State} {m after : Machine}

namespace Pays

theorem taken {new : List Event} (pays : Pays new m after) :
    after.taken.Perm (new ++ m.taken) := by
  obtain ⟨sent, replies, balance, -⟩ := pays
  rw [Machine.taken, Machine.taken, replies, List.map_append, List.append_assoc]
  refine (balance.append_left _).trans ?_
  rw [← List.append_assoc, ← List.append_assoc]
  exact List.perm_append_comm.append_right _

theorem grows {new : List Event} (pays : Pays new m after) : m.replies <+: after.replies := by
  obtain ⟨sent, replies, -⟩ := pays
  exact ⟨sent, replies.symm⟩

theorem still (replies : after.replies = m.replies) (pings : after.sm.pings = m.sm.pings) :
    Pays [] m after :=
  ⟨[], by simp [replies], by simp [held, pings], List.forall_mem_nil _⟩

theorem refl (m : Machine) : Pays [] m m := still rfl rfl

theorem trans {first second third : Machine} {one two : List Event}
    (former : Pays one first second) (latter : Pays two second third) :
    Pays (one ++ two) first third := by
  obtain ⟨sent, replies, balance, pongs⟩ := former
  obtain ⟨sent', replies', balance', pongs'⟩ := latter
  refine ⟨sent ++ sent', by rw [replies', replies, List.append_assoc], ?_, fun answer member => ?_⟩
  swap
  · rcases List.mem_append.mp member with earlier | later
    · exact (pongs answer earlier).imp_left (List.mem_append_left _)
    · exact (pongs' answer later).imp_left (List.mem_append_right _)
  rw [List.map_append, List.append_assoc]
  calc sent.map Prod.fst ++ (sent'.map Prod.fst ++ third.held)
    _ |>.Perm (sent.map Prod.fst ++ (two ++ second.held)) := balance'.append_left _
    _ |>.Perm (two ++ (sent.map Prod.fst ++ second.held)) := by
        rw [← List.append_assoc, ← List.append_assoc]
        exact List.perm_append_comm.append_right _
    _ |>.Perm (two ++ (one ++ first.held)) := balance.append_left _
    _ |>.Perm (one ++ two ++ first.held) := by
        rw [← List.append_assoc]
        exact List.perm_append_comm.append_right _

theorem settle {new : List Event} {first second third : Machine} (former : Pays new first second)
    (latter : Pays [] second third) : Pays new first third := by
  simpa using former.trans latter

theorem of_still {new : List Event} {first second third : Machine}
    (latter : Pays new second third) (replies : second.replies = first.replies)
    (pings : second.sm.pings = first.sm.pings) : Pays new first third :=
  (still replies pings).trans latter

theorem reply (e : Event) (rep : Response) (m : Machine) : Pays [e] m (m.reply e rep) :=
  ⟨[(e, rep)], rfl, .refl _, by simp⟩

theorem release {p : SessionPtr} {sent : List (Event × Response)}
    (replies : after.replies = m.replies ++ sent)
    (ping : sent.map Prod.fst = (m.sm.deref p).pingEvent.toList)
    (pongs : ∀ answer ∈ sent, answer.2.Pong)
    (pings : after.sm.pings = m.sm.pings.erase p) : Pays [] m after := by
  refine ⟨sent, replies, ?_, fun answer member => .inr (pongs answer member)⟩
  rw [ping, held, held, pings]
  have here := m.sm.getElem?_pings p
  cases held : (m.sm.deref p).pingEvent with
  | none =>
      have same : m.sm.pings.erase p = m.sm.pings := by
        apply ExtTreeMap.ext_getElem?
        intro q
        simp only [ExtTreeMap.getElem?_erase, Std.compare_eq_iff_eq]
        split_ifs with same
        · rw [← same, here, held]
        · rfl
      rw [same]
      exact .refl _
  | some e => exact ((OrderedMap.toList_erase (here.trans held)).map Prod.snd).symm

theorem pingBack (p : SessionPtr) (m : Machine) : Pays [] m (m.pingBack p) := by
  refine release (p := p) (pingBack_replies p m) ?_ ?_ ?_
  · rw [Session.pingBack]
    cases held : (m.sm.deref p).pingEvent with
    | none => rfl
    | some e => cases (m.sm.deref p).pendingWatcher <;> rfl
  · intro answer member
    exact (m.sm.deref p).pingBack_pong answer (Option.mem_toList.mp member)
  · have moved : (m.pingBack p).sm = m.sm.modify p fun s => s.pingBack.2 := by
      unfold Machine.pingBack
      dsimp only
      split <;> rfl
    rw [moved]
    exact m.sm.pings_unheld p Session.pingBack_unheld

theorem holdPing {p : SessionPtr} {session : Session} (e : Event)
    (stored : m.sm.heap[p]? = some session) : Pays [e] m (m.holdPing p e) := by
  let dropped : Machine :=
    { m with
      replies := m.replies ++ (m.sm.deref p).pingEvent.toList.map fun old => (old, Response.empty)
      sm := m.sm.modify p fun s => { s with pingEvent := none } }
  have released : Pays [] m dropped :=
    release rfl (by simp [Function.comp_def]) (by simp [Response.Pong, Response.empty])
      (m.sm.pings_unheld p fun _ => rfl)
  have empty : dropped.sm.pings[p]? = none := by
    rw [m.sm.pings_unheld p fun _ => rfl]
    simp
  have here : (m.holdPing p e).sm.pings = dropped.sm.pings.insert p e := by
    have modified : (m.holdPing p e).sm = m.sm.modify p (Session.holdPing e) := by
      unfold Machine.holdPing
      cases (m.sm.deref p).pingEvent <;> rfl
    rw [modified, m.sm.pings_held stored e fun _ => rfl, m.sm.pings_unheld p fun _ => rfl]
    apply ExtTreeMap.ext_getElem?
    intro q
    simp only [ExtTreeMap.getElem?_insert, ExtTreeMap.getElem?_erase]
    split_ifs <;> rfl
  have replies : (m.holdPing p e).replies = dropped.replies := by
    unfold Machine.holdPing
    cases old : (m.sm.deref p).pingEvent <;> simp [dropped, old, Machine.reply]
  refine released.trans ⟨[], by simp [replies], ?_, List.forall_mem_nil _⟩
  rw [Machine.held, here]
  exact (OrderedMap.toList_insert e empty).map Prod.snd

theorem takePing {p : SessionPtr} {session : Session} (e : Event)
    (stored : m.sm.heap[p]? = some session) : Pays [e] m (m.takePing p e) := by
  unfold Machine.takePing
  dsimp only
  split
  · exact holdPing e stored
  · exact (holdPing e stored).settle (pingBack p _)

theorem foldl {α : Type} (f : Machine → α → Machine) (each : ∀ m x, Pays [] m (f m x))
    (xs : List α) (m : Machine) : Pays [] m (xs.foldl f m) := by
  induction xs generalizing m with
  | nil => exact .refl m
  | cons x rest ih => exact (each m x).trans (ih _)

end Pays

structure Settles (m after : Machine) : Prop where
  sessions : after.sm.sessions = m.sm.sessions
  pays : Pays [] m after
  spared : ∀ p, (∀ sid, m.sm.get sid ≠ some p) →
    (after.sm.deref p).pingEvent = (m.sm.deref p).pingEvent

namespace Settles

theorem refl (m : Machine) : Settles m m := ⟨rfl, .refl m, fun _ _ => rfl⟩

theorem trans {first second third : Machine} (one : Settles first second)
    (two : Settles second third) : Settles first third where
  sessions := two.sessions.trans one.sessions
  pays := one.pays.trans two.pays
  spared p gone := by
    refine (two.spared p fun sid => ?_).trans (one.spared p gone)
    rw [get_of_sessions one.sessions]
    exact gone sid

theorem foldl {α : Type} (f : Machine → α → Machine) (each : ∀ m x, Settles m (f m x))
    (xs : List α) (m : Machine) : Settles m (xs.foldl f m) := by
  induction xs generalizing m with
  | nil => exact .refl m
  | cons x rest ih => exact (each m x).trans (ih _)

theorem of_pings (sessions : after.sm.sessions = m.sm.sessions)
    (replies : after.replies = m.replies) (pings : after.sm.pings = m.sm.pings) :
    Settles m after := by
  refine ⟨sessions, .still replies pings, fun p _ => ?_⟩
  rw [← SessionManager.getElem?_pings, pings, SessionManager.getElem?_pings]

theorem modify (p : SessionPtr) (f : Session → Session)
    (same : ∀ s, (f s).pingEvent = s.pingEvent) : Settles m { m with sm := m.sm.modify p f } :=
  of_pings rfl rfl (m.sm.pings_modify p same)

theorem store (db : Persist) (m : Machine) : Settles m { m with db := db } := of_pings rfl rfl rfl

theorem pingBack {sid : Sid} {p : SessionPtr} (live : m.sm.get sid = some p) :
    Settles m (m.pingBack p) := by
  refine ⟨(pingBack_told p m).sessions, .pingBack p m, fun q gone => ?_⟩
  have different : p ≠ q := by
    rintro rfl
    exact gone sid live
  have moved : (m.pingBack p).sm.heap[q]? = m.sm.heap[q]? := by
    have there : (m.pingBack p).sm = m.sm.modify p fun s => s.pingBack.2 := by
      unfold Machine.pingBack
      dsimp only
      split <;> rfl
    rw [there, SessionManager.heap_modify, if_neg different]
  rw [SessionManager.deref, moved, SessionManager.deref]

theorem watchCallback (state : State) (e : Watch.Event) (w : Watcher) (m : Machine) :
    Settles m (watchCallback state w e m) := by
  cases live : m.sm.get w.sid with
  | none =>
      simp only [Machine.watchCallback, live]
      exact .refl m
  | some p =>
      rw [watchCallback_eq state e live]
      have told : Settles m (notified state e w p m) := by
        unfold notified
        split_ifs
        · have pended : Settles m (pended e w p m) :=
            of_pings rfl rfl (m.sm.pings_modify p fun _ => rfl)
          have here : (Machine.pended e w p m).sm.get w.sid = some p := live
          exact pended.trans (.pingBack here)
        · exact .refl m
      exact told.trans (.modify p (Session.removeWatch w) fun _ => rfl)

theorem triger {e : Watch.Event} (done : triger state e m = .ok after) : Settles m after := by
  have inner (m : Machine) (call : Str × Bool) : Settles m (trigerInternal state e m call) :=
    (foldl (fun m (entry : Str × Watcher) => Machine.watchCallback state entry.2 e m)
      (fun m entry => watchCallback state e entry.2 m)
      (m.wm.filter (WatchManager.fires call.1 e call.2)) m).trans (of_pings rfl rfl rfl)
  unfold Machine.triger at done
  split at done
  · cases done
  · cases done
    have traced : Settles m { m with trace := m.trace ++ [.triger e] } := of_pings rfl rfl rfl
    exact traced.trans (foldl _ inner _ _)

theorem trigerBoth {path : Str} {type : UInt32}
    (done : trigerBoth state path type m = .ok after) : Settles m after := by
  obtain ⟨middle, own, above⟩ := Runs.bind_ok.mp done
  exact (triger own).trans (triger above)

theorem deleteNode {path : Str} {status : Status}
    (done : deleteNode options env state path m = .ok (status, after)) : Settles m after := by
  obtain ⟨⟨outcome, db⟩, -, done⟩ := Runs.bind_ok.mp done
  dsimp only at done
  split_ifs at done
  · obtain ⟨told, sent, done⟩ := Runs.bind_ok.mp done
    cases done
    exact (store db m).trans (trigerBoth sent)
  · cases done
    exact store db m

theorem destroyNode {sid : Sid} {path : Str}
    (done : destroyNode options env state sid path m = .ok after) : Settles m after := by
  unfold Machine.destroyNode at done
  dsimp only at done
  split_ifs at done
  · obtain ⟨⟨status, middle⟩, deleted, done⟩ := Runs.bind_ok.mp done
    dsimp only at done
    split_ifs at done
    cases done
    exact deleteNode deleted
  · cases done
    exact .refl _

theorem destroyNodes {sid : Sid} (paths : List Str) (m : Machine)
    (done : Runs.run (Machine.destroyNode options env state sid) m paths = .ok after) :
    Settles m after :=
  Runs.run_invariant_always _ (Settles m) (fun _ _ _ before step => before.trans (destroyNode step))
    m after paths (.refl m) done

theorem onWatch (req : Request) (m : Machine) : Settles m (m.onWatch req).2 := by
  unfold Machine.onWatch
  split
  · exact .refl m
  next p live =>
    dsimp only
    split_ifs
    · exact .refl m
    · exact of_pings rfl rfl (m.sm.pings_modify p fun _ => rfl)

end Settles

theorem destroySession_pays {p : SessionPtr} (gone : ∀ sid, m.sm.get sid ≠ some p)
    (done : destroySession options env state p m = .ok after) : Pays [] m after := by
  obtain ⟨middle, destroyed, done⟩ := Runs.bind_ok.mp done
  have settles := Settles.destroyNodes _ _ destroyed
  have held : (middle.sm.deref p).pingEvent = (m.sm.deref p).pingEvent := settles.spared p gone
  have entered : Pays [] m middle := settles.pays
  refine entered.trans ?_
  cases ping : (m.sm.deref p).pingEvent with
  | none =>
      simp only [ping, pure, Except.pure, Except.ok.injEq] at done
      subst done
      exact .release (List.append_nil _).symm (by rw [held, ping]; rfl) (List.forall_mem_nil _)
        (middle.sm.pings_erase p)
  | some e =>
      simp only [ping, pure, Except.pure, Except.ok.injEq] at done
      subst done
      exact .release rfl (by rw [held, ping]; rfl) (by simp [Response.Pong, Response.empty])
        (middle.sm.pings_erase p)

theorem release_pays {p : SessionPtr} (done : release options env state p m = .ok after) :
    Pays [] m after := by
  unfold release at done
  split at done
  · cases done
    exact .refl m
  next unreferenced =>
    exact destroySession_pays (SessionManager.gone_of_unreferenced unreferenced) done

theorem addSession_pays {now : Time} {p : SessionPtr} {sid : Sid} {timeout : Int}
    (fresh : m.sm.heap[p]? = none)
    (done : addSession options now p (Session.new sid timeout) m = .ok after) :
    Pays [] m after := by
  obtain ⟨sm, added, done⟩ := Runs.bind_ok.mp done
  cases done
  exact .still rfl (SessionManager.pings_add fresh rfl added)

theorem onRegister_pays {req : Request} {timeout : Int} {status : Status} {sid : Sid}
    (done : onRegister options env state req timeout m = .ok (status, sid, after)) :
    Pays [] m after := by
  obtain ⟨added, registered, done⟩ := Runs.bind_ok.mp done
  obtain ⟨released, left, done⟩ := Runs.bind_ok.mp done
  cases done
  exact (addSession_pays (env.alloc_fresh m.sm) registered).trans (release_pays left)

theorem onUnRegister_pays {req : Request} {status : Status}
    (done : onUnRegister options env state req m = .ok (status, after)) :
    Pays [] m after := by
  unfold onUnRegister at done
  split at done
  · cases done
    exact .refl m
  next p live =>
    obtain ⟨removed, forgotten, done⟩ := Runs.bind_ok.mp done
    obtain ⟨released, left, done⟩ := Runs.bind_ok.mp done
    cases done
    obtain ⟨sm, gone, forgotten⟩ := Runs.bind_ok.mp forgotten
    cases forgotten
    have closed : sm.pings = m.sm.pings := by
      obtain ⟨q, timers, -, -, rfl⟩ := SessionManager.remove_cases gone
      exact m.sm.pings_modify p fun _ => rfl
    exact (release_pays left).of_still rfl closed

theorem onCreate_pays {req : Request} {create : CreateRequest} {status : Status}
    (done : onCreate options env state req create m = .ok (status, after)) :
    Pays [] m after := by
  unfold onCreate at done
  split at done
  · cases done
    exact .refl m
  · generalize Store.create options env.proc m.db create.path create.data create.flags req.sid =
      result at done
    obtain ⟨created, db⟩ := result
    dsimp only at done
    split at done
    · obtain ⟨bound, binds, done⟩ := Runs.bind_ok.mp done
      obtain ⟨told, sent, done⟩ := Runs.bind_ok.mp done
      cases done
      have step : Settles m bound := by
        split_ifs at binds
        · split at binds
          · cases binds
          next p live =>
            cases binds
            exact (Settles.store db m).trans
              (.modify p (Session.bindNode create.path) fun _ => rfl)
        · cases binds
          exact .store db m
      exact (step.trans (.trigerBoth sent)).pays
    · cases done
      exact (Settles.store db m).pays

theorem onDelete_pays {req : Request} {path : Str} {status : Status}
    (done : onDelete options env state req path m = .ok (status, after)) :
    Pays [] m after := by
  unfold onDelete at done
  split at done
  · cases done
    exact .refl m
  · obtain ⟨⟨outcome, middle⟩, deleted, done⟩ := Runs.bind_ok.mp done
    have settles := Settles.deleteNode deleted
    dsimp only at done
    split_ifs at done
    · split at done
      · cases done
        exact settles.pays
      next p live =>
        cases done
        exact (settles.trans (.modify p (Session.removeNode path) fun _ => rfl)).pays
    · cases done
      exact settles.pays

theorem onRead_pays {req : Request} {path : Str} {status : Status} {data : Payload}
    (done : onRead options env req path m = .ok (status, data, after)) :
    Pays [] m after := by
  unfold onRead at done
  split_ifs at done
  split at done
  · cases done
    exact .refl m
  · cases done
    exact (Settles.onWatch req m).pays

theorem onStat_pays {req : Request} {path : Str} {status : Status} {data : Payload}
    (done : onStat options env req path m = .ok (status, data, after)) :
    Pays [] m after := by
  unfold onStat at done
  split_ifs at done
  split at done
  · split_ifs at done
    · cases done
      exact (Settles.onWatch req m).pays
    · cases done
      exact .refl m
  · cases done
    exact (Settles.onWatch req m).pays

theorem onWrite_pays {write : WriteRequest} {status : Status}
    (done : onWrite options env state write m = .ok (status, after)) :
    Pays [] m after := by
  unfold onWrite at done
  dsimp only at done
  split_ifs at done
  · obtain ⟨told, sent, done⟩ := Runs.bind_ok.mp done
    cases done
    exact (Settles.triger sent).pays
  · cases done
    exact .refl m

theorem execute_pays {req : Request} {rep : Response}
    (done : execute options env state req m = .ok (rep, after)) : Pays [] m after := by
  unfold execute at done
  dsimp only at done
  split at done
  · obtain ⟨⟨status, sid, last⟩, registered, done⟩ := Runs.bind_ok.mp done
    cases done
    exact onRegister_pays registered
  · obtain ⟨⟨status, last⟩, closed, done⟩ := Runs.bind_ok.mp done
    cases done
    exact onUnRegister_pays closed
  · obtain ⟨⟨status, last⟩, created, done⟩ := Runs.bind_ok.mp done
    cases done
    exact onCreate_pays created
  · obtain ⟨⟨status, last⟩, deleted, done⟩ := Runs.bind_ok.mp done
    cases done
    exact onDelete_pays deleted
  · obtain ⟨⟨status, data, last⟩, looked, done⟩ := Runs.bind_ok.mp done
    cases done
    exact onRead_pays looked
  · obtain ⟨⟨status, last⟩, written, done⟩ := Runs.bind_ok.mp done
    cases done
    exact onWrite_pays written
  · obtain ⟨⟨status, data, last⟩, looked, done⟩ := Runs.bind_ok.mp done
    cases done
    exact onStat_pays looked
  · cases done
    exact (Settles.onWatch req m).pays
  · cases done
    exact .refl m

theorem held_fresh (db : Persist) (now : Time) (replies : List (Event × Response)) :
    (fresh db now replies).held = [] := by
  have nobody : (SessionManager.new now).pings = ∅ := by
    apply ExtTreeMap.ext_getElem?
    intro p
    rw [SessionManager.getElem?_pings]
    simp [SessionManager.new, SessionManager.deref, Session.new]
  have none : (∅ : ExtTreeMap SessionPtr Event).toList = [] := ExtTreeMap.toList_eq_nil_iff.mpr rfl
  rw [held, fresh, nobody, none, List.map_nil]

theorem walkTreeFunc_pays {call : (Str × Option Node) × Nat}
    (done : walkTreeFunc options env call m = .ok after) : Pays [] m after := by
  unfold walkTreeFunc at done
  split at done
  · cases done
    exact .refl m
  · split at done
    · obtain ⟨middle, ensured, done⟩ := Runs.bind_ok.mp done
      cases done
      have created : Pays [] m middle := by
        unfold ensureSession at ensured
        split at ensured
        · cases ensured
          exact .refl m
        · exact addSession_pays (env.alloc_fresh m.sm) ensured
      refine created.trans ?_
      unfold bindNode
      split
      · exact .refl middle
      next p live => exact .still rfl (middle.sm.pings_modify p fun _ => rfl)
    · cases done
      exact .refl m

theorem load_silent {db : Persist} {replies : List (Event × Response)} {index : Nat}
    (done : load options env db replies = .ok (after, index)) :
    after.replies = replies ∧ after.held = [] := by
  obtain ⟨ready, -, done⟩ := Runs.bind_ok.mp done
  obtain ⟨records, -, done⟩ := Runs.bind_ok.mp done
  obtain ⟨registered, added, done⟩ := Runs.bind_ok.mp done
  obtain ⟨bound, walked, done⟩ := Runs.bind_ok.mp done
  obtain ⟨read, -, done⟩ := Runs.bind_ok.mp done
  cases done
  have first := Runs.run_invariant_always _ (Pays [] (fresh ready (env.clock 0) replies))
    (fun _ one _ before step => before.trans (addSession_pays (env.alloc_fresh one.sm) step))
    _ registered _ (.refl _) added
  have second := Runs.run_invariant_always _ (Pays [] registered)
    (fun _ _ _ before step => before.trans (walkTreeFunc_pays step)) registered after _ (.refl _)
    walked
  obtain ⟨sent, same, balance, -⟩ := first.trans second
  rw [held_fresh, List.append_nil] at balance
  obtain ⟨unsent, unheld⟩ := List.append_eq_nil_iff.mp (List.perm_nil.mp balance)
  rw [List.map_eq_nil_iff.mp unsent, List.append_nil] at same
  exact ⟨same, unheld⟩

end Machine

namespace Server

open Machine (Pays)

def fates (server : Server) : List Event :=
  server.eventch ++ (server.requests ++ server.machine.taken)

section Replicate

variable (cmd : Request) (origin : Option Nat) (server : Server)

@[simp] theorem replicate_eventch : (replicate cmd origin server).eventch = server.eventch := by
  unfold replicate; split <;> rfl

@[simp] theorem replicate_nextEvent :
    (replicate cmd origin server).nextEvent = server.nextEvent := by
  unfold replicate; split <;> rfl

end Replicate

/-- What becomes of the events in a step that brings some new ones. -/
structure Fares (asked : Request → Prop) (server next : Server) (new : List Event) : Prop where
  fates : next.fates.Perm (new ++ server.fates)
  ids : new.map Event.id = List.range' server.nextEvent new.length
  count : next.nextEvent = server.nextEvent + new.length
  grows : server.machine.replies <+: next.machine.replies
  asked : ∀ e ∈ new, asked e.req

namespace Fares

variable {asked : Request → Prop}

theorem of_perm {server next : Server} (fates : next.fates.Perm server.fates)
    (count : next.nextEvent = server.nextEvent)
    (grows : server.machine.replies <+: next.machine.replies) : Fares asked server next [] :=
  ⟨fates, rfl, count, grows, List.forall_mem_nil _⟩

theorem refl (server : Server) : Fares asked server server [] :=
  of_perm (.refl _) rfl (List.prefix_refl _)

theorem trans {first second third : Server} {one two : List Event}
    (former : Fares asked first second one) (latter : Fares asked second third two) :
    Fares asked first third (one ++ two) where
  fates := by
    refine latter.fates.trans ((former.fates.append_left two).trans ?_)
    rw [← List.append_assoc]
    exact List.perm_append_comm.append_right _
  ids := by
    rw [List.map_append, former.ids, latter.ids, former.count, List.length_append,
      ← List.range'_append_1]
  count := by rw [latter.count, former.count, List.length_append, Nat.add_assoc]
  grows := former.grows.trans latter.grows
  asked := List.forall_mem_append.mpr ⟨former.asked, latter.asked⟩

theorem mono {wider : Request → Prop} {server next : Server} {new : List Event}
    (fares : Fares asked server next new) (implies : ∀ req, asked req → wider req) :
    Fares wider server next new :=
  ⟨fares.fates, fares.ids, fares.count, fares.grows,
    fun e member => implies _ (fares.asked e member)⟩

end Fares

structure Handles (e : Event) (server next : Server) : Prop where
  eventch : next.eventch = server.eventch
  count : next.nextEvent = server.nextEvent
  taken : (next.requests ++ next.machine.taken).Perm
    (e :: (server.requests ++ server.machine.taken))
  grows : server.machine.replies <+: next.machine.replies

variable {options : Options} {states : RaftStates} {env : Env} {server next : Server}

theorem Handles.fates {e : Event} (handles : Handles e server next) :
    next.fates.Perm (e :: server.fates) := by
  rw [Server.fates, Server.fates, handles.eventch]
  exact (handles.taken.append_left _).trans List.perm_middle

theorem Handles.answer {e : Event} {m : Machine} (pays : Pays [e] server.machine m) :
    Handles e server (server.onMachine m) :=
  ⟨rfl, rfl, (pays.taken.append_left server.requests).trans List.perm_middle, pays.grows⟩

theorem Handles.queue {e : Event} (eventch : next.eventch = server.eventch)
    (count : next.nextEvent = server.nextEvent) (requests : next.requests = server.requests ++ [e])
    (pays : Pays [] server.machine next.machine) : Handles e server next := by
  refine ⟨eventch, count, ?_, pays.grows⟩
  rw [requests, List.append_assoc]
  exact List.perm_middle.trans (.cons e (pays.taken.append_left server.requests))

theorem handleRegister_handles (e : Event) (timeout : Int) (server : Server) :
    Handles e server (handleRegister options e timeout server) := by
  unfold handleRegister
  dsimp only
  split
  · split
    next p live =>
      exact .answer ((Pays.reply e _ _).of_still rfl
        (server.machine.sm.pings_modify p fun _ => rfl))
    · exact .answer (.reply e _ _)
  · exact .queue (by simp) (by simp) (by simp) (by rw [replicate_machine]; exact .still rfl rfl)

theorem handlePing_pays {e : Event} {m after : Machine} {status : Status}
    (wf : m.sm.WellFormed) (done : handlePing options env e m = .ok (status, after)) :
    (status.isOk = false ∧ after = m) ∨ status.isOk = true ∧ Pays [e] m after := by
  unfold handlePing at done
  split at done
  · cases done
    exact .inl ⟨rfl, rfl⟩
  next p live =>
    obtain ⟨sm, touched, done⟩ := Runs.bind_ok.mp done
    cases done
    have keeps := SessionManager.touch_keeps wf touched
    have stored := (SessionManager.get_deref sm keeps.wellFormed e.req.sid p
      (by rw [SessionManager.get, keeps.sessions]; exact live)).1
    have renewed : Pays [] m { m with sm := sm } :=
      .still rfl (SessionManager.pings_touch touched)
    exact .inr ⟨rfl, renewed.trans (.takePing e stored)⟩

theorem handleRead_pays (e : Event) (path : Str) (m : Machine) :
    Pays [] m (handleRead options env e path m).2.2 := by
  unfold handleRead
  split
  · exact .refl m
  · split
    · exact .refl m
    · split
      · exact (Machine.Settles.onWatch e.req m).pays
      · exact .refl m

theorem handleStat_pays (e : Event) (path : Str) (m : Machine) :
    Pays [] m (handleStat options env e path m).2.2 := by
  unfold handleStat
  split
  · exact .refl m
  · split
    · split
      · exact (Machine.Settles.onWatch e.req m).pays
      · exact .refl m
    · split
      · exact (Machine.Settles.onWatch e.req m).pays
      · exact .refl m

theorem handleLocal_pays {e : Event} {m after : Machine} (wf : m.sm.WellFormed)
    (done : handleLocal options env e m = .ok after) : Pays [e] m after := by
  unfold handleLocal at done
  split at done
  · obtain ⟨⟨status, middle⟩, pinged, done⟩ := Runs.bind_ok.mp done
    cases done
    rcases handlePing_pays wf pinged with ⟨bad, rfl⟩ | ⟨good, held⟩
    · simp only [bad, Bool.false_eq_true, if_false]
      exact .reply e _ _
    · simp only [good, if_true]
      exact held
  · split at done
    · cases done
      exact (handleRead_pays e _ m).trans (.reply e _ _)
    · cases done
      exact (handleStat_pays e _ m).trans (.reply e _ _)
    · split at done
      · cases done
        exact (Machine.Settles.onWatch e.req m).pays.trans (.reply e _ _)
      · cases done
        exact .reply e _ _

theorem touchFor_pings {req : Request} {sm after : SessionManager}
    (done : touchFor options env req sm = .ok after) : after.pings = sm.pings := by
  unfold touchFor at done
  split_ifs at done
  · exact SessionManager.pings_touch done
  · cases done
    rfl

theorem touchFor_keeps {req : Request} {sm after : SessionManager} (wf : sm.WellFormed)
    (done : touchFor options env req sm = .ok after) : SessionManager.Keeps sm after := by
  unfold touchFor at done
  split_ifs at done
  · exact SessionManager.touch_keeps wf done
  · cases done
    exact .refl wf

-- A session must be there to hold a ping.
theorem handleEvent_handles {e : Event}
    (wf : e.req.needBoradcast = false → server.machine.sm.WellFormed)
    (done : handleEvent options env e server = .ok next) : Handles e server next := by
  unfold handleEvent at done
  split at done
  · cases done
    exact handleRegister_handles e _ server
  · split at done
    · cases done
      exact .answer (.reply e _ _)
    · obtain ⟨sm, touched, done⟩ := Runs.bind_ok.mp done
      have renewed : Pays [] server.machine { server.machine with sm := sm } :=
        .still rfl (touchFor_pings touched)
      dsimp only at done
      split at done
      · cases done
        exact .queue (by simp [onMachine]) (by simp [onMachine]) (by simp [onMachine])
          (by simpa [onMachine] using renewed)
      next broadcast =>
        obtain ⟨m, handled, done⟩ := Runs.bind_ok.mp done
        cases done
        have keeps := touchFor_keeps (wf (by simpa using broadcast)) touched
        exact .answer (renewed.trans (handleLocal_pays (by exact keeps.wellFormed) handled))

def Closes (req : Request) : Prop := ∃ sid, req = Request.closing sid

theorem closeExpired_fares {p : SessionPtr}
    (done : closeExpired options env p server = .ok next) :
    ∃ new, Fares Closes server next new := by
  unfold closeExpired at done
  split_ifs at done
  · unfold onSessionClosed at done
    dsimp only at done
    split_ifs at done
    have handles := handleEvent_handles (fun passive => by cases passive) done
    have closed : Pays [] server.machine { server.machine with
        sm := server.machine.sm.modify p Session.close } :=
      .still rfl (server.machine.sm.pings_modify p fun _ => rfl)
    refine ⟨[_], handles.fates.trans (.cons _ ?_), rfl, handles.count, handles.grows, ?_⟩
    · exact .append_left _ (.append_left _ closed.taken)
    · exact List.forall_mem_singleton.mpr ⟨_, rfl⟩
  · cases done
    exact ⟨[], .refl server⟩

theorem step_fares (done : step options env server = .ok next) :
    ∃ new, Fares Closes server next new :=
  Runs.run_invariant_always _ (fun other => ∃ new, Fares Closes server other new)
    (fun p one two before closed => by
      obtain ⟨earlier, former⟩ := before
      obtain ⟨later, latter⟩ := closeExpired_fares closed
      exact ⟨_, former.trans latter⟩)
    server next _ ⟨[], .refl server⟩ done

theorem onCommand_fares {asked : Request → Prop} {cmd : Request}
    (done : onCommand options env cmd server = .ok next) : Fares asked server next [] := by
  unfold onCommand at done
  split_ifs at done
  · split at done
    · cases done
    next e rest queue =>
      obtain ⟨⟨rep, m⟩, executed, done⟩ := Runs.bind_ok.mp done
      cases done
      have pays := (Machine.execute_pays executed).trans (.reply e rep m)
      refine .of_perm (.append_left _ ?_) rfl pays.grows
      rw [queue]
      exact (pays.taken.append_left rest).trans List.perm_middle
  · obtain ⟨⟨rep, m⟩, executed, done⟩ := Runs.bind_ok.mp done
    cases done
    have pays := Machine.execute_pays executed
    exact .of_perm (.append_left _ (.append_left _ pays.taken)) rfl pays.grows

theorem turn_fares {ready : Ready} (wf : server.machine.sm.WellFormed)
    (done : server.turn options states env ready = .ok next) :
    ∃ new, Fares Closes server next new := by
  cases turn_calls done with
  | move | lead => exact ⟨[], .of_perm (.refl _) rfl (List.prefix_refl _)⟩
  | await => exact ⟨[], .of_perm (by simp [fates]) (by simp) (by simp)⟩
  | @enter sm _ _ reset stepped =>
      obtain ⟨new, fares⟩ := step_fares stepped
      have same : Pays [] server.machine { server.machine with sm := sm.resetWatchers, wm := [] } :=
        .still rfl (SessionManager.pings_entered reset)
      refine ⟨new, fares.fates.trans (.append_left _ ?_), fares.ids, fares.count, fares.grows,
        fares.asked⟩
      exact .append_left _ (.append_left _ same.taken)
  | event _ queue handled =>
      have handles := handleEvent_handles (fun _ => by exact wf) handled
      refine ⟨[], .of_perm (handles.fates.trans (.of_eq ?_)) handles.count handles.grows⟩
      simp [fates, queue]
  | @refuse e rest _ queue =>
      refine ⟨[], .of_perm ?_ rfl (Pays.reply e _ _).grows⟩
      simp only [fates, queue, List.cons_append]
      exact (((Pays.reply e _ _).taken.append_left _).trans List.perm_middle |>.append_left _).trans
        List.perm_middle
  | command applying queue applied =>
      have fares : Fares Closes _ next [] := onCommand_fares applied
      exact ⟨[], fares.fates, rfl, fares.count, fares.grows, fares.asked⟩
  | timer _ stepped =>
      obtain ⟨new, fares⟩ := step_fares stepped
      have pays := Pays.foldl (fun m p => m.pingBack p) (fun m p => .pingBack p m)
      refine ⟨new, .trans ?_ fares.fates, fares.ids, fares.count,
        fares.grows.trans (pays _ _).grows, fares.asked⟩
      exact .append_left _ (.append_left _ (pays _ _).taken)

theorem onState_fares (asked : Request → Prop) (st : Int) (server : Server) :
    Fares asked server (server.onState st) [] := by
  have answered (requests : List Event) (rep : Response) (m : Machine) :
      Pays requests m (requests.foldl (fun m e => Machine.reply e rep m) m) := by
    induction requests generalizing m with
    | nil => exact .refl m
    | cons e rest ih => exact (Pays.reply e rep m).trans (ih _)
  have pays : Pays server.requests server.machine (server.onState st).machine :=
    (answered _ _ _).settle (.foldl (fun m (entry : Sid × SessionPtr) => m.pingBack entry.2)
      (fun m entry => .pingBack entry.2 m) _ _)
  exact .of_perm (.append_left _ pays.taken) rfl pays.grows

def Action.Brings (action : Action) (req : Request) : Prop := action = .receive req ∨ Closes req

theorem act_fares {action : Action} (wf : server.machine.sm.WellFormed)
    (running : action.isRestart = false) (done : server.act options states action = .ok next) :
    ∃ new, Fares (Action.Brings action) server next new := by
  cases action with
  | receive req =>
      cases done
      refine ⟨[⟨server.nextEvent, req⟩], ?_, rfl, rfl, List.prefix_refl _,
        List.forall_mem_singleton.mpr (.inl rfl)⟩
      simp only [fates, receive, List.append_assoc]
      exact List.perm_middle
  | notify st =>
      cases done
      have fares := onState_fares (Action.Brings (.notify st)) st
        { server with raft := { server.raft with leader := decide (st = states.leader) } }
      exact ⟨[], fares.fates, rfl, fares.count, fares.grows, fares.asked⟩
  | stop =>
      cases done
      exact ⟨[], .of_perm (.refl _) rfl (List.prefix_refl _)⟩
  | deliver =>
      cases done
      unfold deliver
      split <;> exact ⟨[], .of_perm (.refl _) rfl (List.prefix_refl _)⟩
  | accept kept cmds =>
      cases done
      unfold accept
      split <;> exact ⟨[], .of_perm (.refl _) rfl (List.prefix_refl _)⟩
  | turn env ready =>
      obtain ⟨new, fares⟩ := turn_fares wf done
      exact ⟨new, fares.mono fun _ => .inr⟩
  | restart env => cases running

theorem restart_fates (done : server.restart options env = .ok next) :
    next.fates = server.machine.replies.map Prod.fst ∧ next.nextEvent = server.nextEvent := by
  obtain ⟨⟨m, index⟩, loaded, done⟩ := Runs.bind_ok.mp done
  cases done
  obtain ⟨replies, held⟩ := Machine.load_silent loaded
  exact ⟨by simp [fates, Machine.taken, replies, held], rfl⟩

structure Distinct (server : Server) : Prop where
  nodup : (server.fates.map Event.id).Nodup
  bounded : ∀ e ∈ server.fates, e.id < server.nextEvent

theorem Distinct.fares {asked : Request → Prop} {new : List Event} (distinct : Distinct server)
    (fares : Fares asked server next new) : Distinct next := by
  have numbered (e : Event) (member : e ∈ new) :
      e.id ∈ List.range' server.nextEvent new.length := by
    rw [← fares.ids]
    exact List.mem_map_of_mem member
  constructor
  · rw [(fares.fates.map Event.id).nodup_iff, List.map_append, List.nodup_append']
    refine ⟨?_, distinct.nodup, ?_⟩
    · rw [fares.ids]
      exact List.nodup_range'
    · rw [fares.ids]
      intro id recent old
      obtain ⟨e, member, rfl⟩ := List.mem_map.mp old
      have before := distinct.bounded e member
      have after := (List.mem_range'_1.mp recent).1
      omega
  · intro e member
    rw [fares.count]
    rcases List.mem_append.mp (fares.fates.mem_iff.mp member) with recent | old
    · exact (List.mem_range'_1.mp (numbered e recent)).2
    · exact Nat.lt_add_right _ (distinct.bounded e old)

theorem replies_fates (server : Server) :
    (server.machine.replies.map Prod.fst).Sublist server.fates :=
  ((List.sublist_append_left _ _).trans (List.sublist_append_right _ _)).trans
    (List.sublist_append_right _ _)

theorem Distinct.replies (distinct : Distinct server) :
    ((server.machine.replies.map Prod.fst).map Event.id).Nodup :=
  distinct.nodup.sublist (server.replies_fates.map Event.id)

theorem Distinct.restart (distinct : Distinct server)
    (done : server.restart options env = .ok next) : Distinct next := by
  obtain ⟨fates, count⟩ := restart_fates done
  refine ⟨?_, fun e member => ?_⟩
  · rw [fates]
    exact distinct.replies
  · rw [count]
    exact distinct.bounded e (server.replies_fates.subset (fates ▸ member))

theorem reachable_distinct (reachable : Reachable options states server) : Distinct server := by
  obtain ⟨env, first, actions, started, reached⟩ := reachable
  have begun : Distinct first := by
    obtain ⟨fates, -⟩ := restart_fates started
    exact ⟨by rw [fates]; exact List.nodup_nil,
      fun e member => by rw [fates] at member; cases member⟩
  refine (Runs.run_invariant_always (act options states)
    (fun other => Reachable options states other ∧ Distinct other) ?_ first server actions
    ⟨⟨env, first, [], started, rfl⟩, begun⟩ reached).2
  rintro action one two ⟨reachable, distinct⟩ done
  refine ⟨reachable.act done, ?_⟩
  cases restarts : action.isRestart with
  | true =>
      cases action with
      | restart env => exact distinct.restart done
      | _ => cases restarts
  | false =>
      obtain ⟨r, stands⟩ := reachable_stands reachable
      obtain ⟨new, fares⟩ := act_fares stands.wellFormed restarts done
      exact distinct.fares fares

theorem answered_once (reachable : Reachable options states server) :
    (server.fates.map Event.id).Nodup ∧ ∀ e ∈ server.fates, e.id < server.nextEvent :=
  have distinct := reachable_distinct reachable
  ⟨distinct.nodup, distinct.bounded⟩

theorem answered_once_restarted : ∃ server, Reachable Options.standard .sample server ∧
    server.machine.replies.length = 1 ∧
    (server.fates.map Event.id).Nodup ∧ ∀ e ∈ server.fates, e.id < server.nextEvent := by
  obtain ⟨server, reachable, answered⟩ := exists_reachable Options.standard .sample (.still 0)
    (joined ++ [.restart (.still 0)]) (fun server => server.machine.replies.length = 1)
    (by decide +kernel)
  exact ⟨server, reachable, answered, answered_once reachable⟩

theorem run_fares (reachable : Reachable options states server) {actions : List Action}
    (running : ∀ action ∈ actions, action.isRestart = false)
    (reached : Runs.run (act options states) server actions = .ok next) :
    ∃ new, Fares (fun req => .receive req ∈ actions ∨ Closes req) server next new :=
  (Runs.run_invariant (act options states) (fun action _ => action ∈ actions)
    (fun other => Reachable options states other ∧
      ∃ new, Fares (fun req => .receive req ∈ actions ∨ Closes req) server other new)
    (fun action one two before member done => by
      obtain ⟨reachable, earlier, former⟩ := before
      obtain ⟨r, stands⟩ := reachable_stands reachable
      obtain ⟨later, latter⟩ := act_fares stands.wellFormed (running action member) done
      refine ⟨reachable.act done, _, former.trans (latter.mono fun req brings => ?_)⟩
      rcases brings with rfl | closes
      · exact .inl member
      · exact .inr closes)
    server next actions ⟨reachable, [], .refl server⟩
    (Runs.meets_of_mem _ _ _ actions fun _ member _ => member) reached).2

theorem events_conserved (reachable : Reachable options states server) {actions : List Action}
    (running : ∀ action ∈ actions, action.isRestart = false)
    (reached : Runs.run (act options states) server actions = .ok next) :
    ∃ new, next.fates.Perm (new ++ server.fates) ∧
      new.map Event.id = List.range' server.nextEvent (next.nextEvent - server.nextEvent) ∧
      ∀ e ∈ new, .receive e.req ∈ actions ∨ ∃ sid, e.req = Request.closing sid := by
  obtain ⟨new, fares⟩ := run_fares reachable running reached
  refine ⟨new, fares.fates, ?_, fares.asked⟩
  rw [fares.ids, fares.count, Nat.add_sub_cancel_left]

theorem events_conserved_notifying : ∃ server next, Reachable Options.standard .sample server ∧
    Runs.run (act Options.standard .sample) server notifying = .ok next ∧
    ∃ new, next.fates.Perm (new ++ server.fates) ∧
      new.map Event.id = List.range' server.nextEvent (next.nextEvent - server.nextEvent) ∧
      ∀ e ∈ new, .receive e.req ∈ notifying ∨ ∃ sid, e.req = Request.closing sid := by
  obtain ⟨server, reachable, found⟩ := exists_reachable Options.standard .sample (.still 0)
    admitting (fun server => Runs.passes (Runs.run (act Options.standard .sample) server notifying)
      (fun _ => true) = true) (by decide +kernel)
  obtain ⟨next, reached, -⟩ := (Runs.passes_iff _ _).mp found
  have running : ∀ action ∈ notifying, action.isRestart = false := by
    simp [notifying, Action.isRestart]
  exact ⟨server, next, reachable, reached, events_conserved reachable running reached⟩

theorem drained_answered {first : Server} {actions : List Action}
    (started : initial options env = .ok first)
    (running : ∀ action ∈ actions, action.isRestart = false)
    (calm : Runs.Meets (act options states) (Calm options states) first actions)
    (reached : Runs.run (act options states) first actions = .ok server)
    (leads : server.state = .leader) (current : ¬ Behind states server)
    (drained : server.eventch = [] ∧ server.cmdch ++ server.raft.pending = []) :
    ((server.machine.replies.map Prod.fst ++ server.machine.held).map Event.id).Perm
      (List.range server.nextEvent) := by
  have reachable : Reachable options states first := ⟨env, first, [], started, rfl⟩
  have paired : Paired states server := (Runs.run_invariant (act options states)
    (Calm options states)
    (fun other => Reachable options states other ∧ Paired states other)
    (fun action one two before calm done =>
      ⟨before.1.act done, before.2.act before.1 calm done⟩)
    first server actions ⟨reachable, paired_initial started⟩ calm reached).2
  -- The requests that wait are those of the commands to come.
  have requests : server.requests = [] := by
    obtain ⟨pushes, requests, queue, -⟩ := paired.aligned leads current
    rw [drained.2] at queue
    rw [requests, List.map_eq_nil_iff.mp queue.symm, List.map_nil]
  obtain ⟨new, fares⟩ := run_fares reachable running reached
  obtain ⟨none, zero⟩ := restart_fates started
  have fates : server.fates = server.machine.taken := by
    rw [Server.fates, drained.1, requests, List.nil_append, List.nil_append]
  have events := fares.fates
  have ids := fares.ids
  have count := fares.count
  rw [none, List.map_nil, List.append_nil, fates] at events
  rw [zero] at ids count
  rw [Nat.zero_add] at count
  refine (events.map Event.id).trans ?_
  rw [ids, count, List.range_eq_range']

theorem drained_answered_notifying : ∃ server : Server, server.nextEvent = 4 ∧
    ((server.machine.replies.map Prod.fst ++ server.machine.held).map Event.id).Perm
      (List.range 4) := by
  have found : Runs.passes (initial Options.standard (.still 0)) (fun first =>
      decide (Runs.Meets (act Options.standard .sample) (Calm Options.standard .sample) first
        (admitting ++ notifying)) &&
      Runs.passes (Runs.run (act Options.standard .sample) first (admitting ++ notifying))
        fun server => decide (server.nextEvent = 4 ∧ server.state = .leader ∧
          ¬ Behind .sample server ∧ server.eventch.length = 0 ∧
          (server.cmdch ++ server.raft.pending).length = 0)) = true := by
    decide +kernel
  simp only [Runs.passes_iff, Bool.and_eq_true, decide_eq_true_eq, List.length_eq_zero_iff] at found
  obtain ⟨first, started, calm, server, reached, four, leads, current, drained⟩ := found
  have running : ∀ action ∈ admitting ++ notifying, action.isRestart = false := by
    simp [admitting, notifying, Action.isRestart]
  have answered := drained_answered started running calm reached leads current drained
  rw [four] at answered
  exact ⟨server, four, answered⟩

end Server

end Pyxis
