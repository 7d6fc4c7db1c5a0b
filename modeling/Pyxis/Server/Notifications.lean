import Pyxis.Server.WatchTables

set_option autoImplicit false

open Std (ExtTreeMap)

namespace Pyxis

def Response.pair? (rep : Response) : Option (Str × Watch.Event) :=
  match rep.path, rep.watch with
  | some path, some e => some (path, e)
  | _, _ => none

def Trace.notice? (sid : Sid) : Trace → Option (Str × Watch.Event)
  | .triger _ => none
  | .notify w e => if w.sid = sid then some (w.path, e) else none

def Trace.notifier? : Trace → Option Nat
  | .triger _ => none
  | .notify w _ => some w.id

-- The pairs that the responses to requests of one session carry.
def answered (sid : Sid) (replies : List (Event × Response)) : List (Str × Watch.Event) :=
  replies.filterMap fun entry => if entry.1.req.sid = sid then entry.2.pair? else none

def notices (sid : Sid) (trace : List Trace) : List (Str × Watch.Event) :=
  trace.filterMap (Trace.notice? sid)

theorem answered_single (sid : Sid) (e : Event) (rep : Response) :
    answered sid [(e, rep)] = if e.req.sid = sid then rep.pair?.toList else [] := by
  by_cases mine : e.req.sid = sid
  · cases pair : rep.pair? <;> simp [answered, mine, pair]
  · simp [answered, mine]

namespace Session

def owed (s : Session) : Option Event × List (Str × Watch.Event) := (s.pingEvent, s.pendingWatcher)

theorem insertPending_perm (path : Str) (e : Watch.Event) (pairs : List (Str × Watch.Event)) :
    (insertPending path e pairs).Perm (pairs ++ [(path, e)]) := by
  induction pairs with
  | nil => exact .refl _
  | cons pair rest ih =>
      unfold insertPending
      split_ifs
      · exact (List.perm_append_singleton _ _).symm
      · exact ih.cons pair

theorem pingBack_account (s : Session) :
    (s.pingEvent = none ∧ s.pingBack = (none, s)) ∨
      ∃ e rep, s.pingEvent = some e ∧ s.pingBack.1 = some (e, rep) ∧
        rep.pair?.toList ++ s.pingBack.2.pendingWatcher = s.pendingWatcher := by
  unfold pingBack
  cases held : s.pingEvent with
  | none => exact .inl ⟨rfl, rfl⟩
  | some e =>
      refine .inr ?_
      cases pairs : s.pendingWatcher with
      | nil => exact ⟨e, Response.empty, rfl, rfl, rfl⟩
      | cons pair rest => exact ⟨e, _, rfl, rfl, rfl⟩

theorem pingBack_unheld (s : Session) : s.pingBack.2.pingEvent = none := by
  unfold pingBack
  split
  · assumption
  · split <;> rfl

end Session

namespace Machine

-- A session that is not registered owes its client nothing.
def owed (sid : Sid) (m : Machine) : Option Event × List (Str × Watch.Event) :=
  match m.sm.get sid with
  | none => (none, [])
  | some p => (m.sm.deref p).owed

def Own (m : Machine) : Prop := ∀ sid e, (m.owed sid).1 = some e → e.req.sid = sid

def NoBacklog (m : Machine) : Prop := ∀ sid, (m.owed sid).1 = none ∨ (m.owed sid).2 = []

def Accounted (sid : Sid) (m after : Machine) : Prop :=
  ∃ replies trace, after.replies = m.replies ++ replies ∧ after.trace = m.trace ++ trace ∧
    (answered sid replies ++ (after.owed sid).2).Perm ((m.owed sid).2 ++ notices sid trace)

variable {options : Options} {state : State} {permits : Permits} {m after : Machine}

theorem Accounted.refl (sid : Sid) (m : Machine) : Accounted sid m m :=
  ⟨[], [], by simp, by simp, by simp [answered, notices]⟩

theorem Accounted.trans {sid : Sid} {first second third : Machine}
    (one : Accounted sid first second) (two : Accounted sid second third) :
    Accounted sid first third := by
  obtain ⟨sent, events, replies, trace, balance⟩ := one
  obtain ⟨sent', events', replies', trace', balance'⟩ := two
  refine ⟨sent ++ sent', events ++ events', by rw [replies', replies, List.append_assoc],
    by rw [trace', trace, List.append_assoc], ?_⟩
  simp only [answered, notices, List.filterMap_append, List.append_assoc]
  calc answered sid sent ++ (answered sid sent' ++ (third.owed sid).2)
    _ |>.Perm (answered sid sent ++ ((second.owed sid).2 ++ notices sid events')) :=
        balance'.append_left _
    _ |>.Perm ((first.owed sid).2 ++ notices sid events ++ notices sid events') := by
        rw [← List.append_assoc]
        exact balance.append_right _
    _ |>.Perm ((first.owed sid).2 ++ (notices sid events ++ notices sid events')) := by
        rw [List.append_assoc]

theorem owed_of_get (m after : Machine) (get : ∀ sid, after.sm.get sid = m.sm.get sid)
    (owed : ∀ sid p, m.sm.get sid = some p → (after.sm.deref p).owed = (m.sm.deref p).owed)
    (sid : Sid) : after.owed sid = m.owed sid := by
  unfold Machine.owed
  rw [get]
  split
  · rfl
  next p live => exact owed sid p live

theorem owed_modify_same (p : SessionPtr) (f : Session → Session) (owed : ∀ s, (f s).owed = s.owed)
    (sid : Sid) : Machine.owed sid { m with sm := m.sm.modify p f } = m.owed sid := by
  refine owed_of_get m { m with sm := m.sm.modify p f } (fun _ => rfl) (fun _ q _ => ?_) sid
  exact SessionManager.modify_field Session.owed m.sm p f owed q

theorem owed_live {sid : Sid} {p : SessionPtr} (live : m.sm.get sid = some p) :
    m.owed sid = (m.sm.deref p).owed := by
  simp only [owed, live]

theorem owed_modify (wf : m.sm.WellFormed) {sid : Sid} {p : SessionPtr}
    (live : m.sm.get sid = some p) (f : Session → Session) (other : Sid) :
    Machine.owed other { m with sm := m.sm.modify p f } =
      if other = sid then (f (m.sm.deref p)).owed else m.owed other := by
  obtain ⟨stored, -⟩ := SessionManager.get_deref m.sm wf sid p live
  have get : (m.sm.modify p f).get other = m.sm.get other := rfl
  unfold owed
  dsimp only
  rw [get]
  split_ifs with same
  · subst same
    simp only [live]
    rw [SessionManager.deref_modify _ p p f stored, if_pos rfl]
  · cases there : m.sm.get other with
    | none => rfl
    | some q =>
        have different : p ≠ q := by
          rintro rfl
          exact same (SessionManager.sessions_inj m.sm wf _ _ p there live)
        dsimp only
        rw [SessionManager.deref_modify _ p q f stored, if_neg different]

theorem Accounted.still {sid : Sid} (owed : after.owed sid = m.owed sid)
    (replies : after.replies = m.replies) (trace : after.trace = m.trace) :
    Accounted sid m after :=
  ⟨[], [], by simp [replies], by simp [trace], by simp [answered, notices, owed]⟩

theorem Accounted.reply (sid : Sid) (e : Event) (rep : Response) (plain : rep.watch = none) :
    Accounted sid m (m.reply e rep) := by
  refine ⟨[(e, rep)], [], rfl, by simp [Machine.reply], ?_⟩
  have none : rep.pair? = none := by
    unfold Response.pair?
    rw [plain]
    split <;> simp_all
  simp [answered_single, none, notices, Machine.owed, Machine.reply]

structure Serves (m after : Machine) : Prop where
  own : Own m → Own after
  unowed : Own m → NoBacklog m → NoBacklog after
  accounted : Own m → ∀ sid, Accounted sid m after

theorem Serves.refl (m : Machine) : Serves m m := ⟨id, fun _ => id, fun _ sid => .refl sid m⟩

theorem Serves.trans {first second third : Machine} (one : Serves first second)
    (two : Serves second third) : Serves first third :=
  ⟨fun own => two.own (one.own own),
    fun own unowed => two.unowed (one.own own) (one.unowed own unowed),
    fun own sid => (one.accounted own sid).trans (two.accounted (one.own own) sid)⟩

theorem Serves.of_owed (owed : ∀ sid, after.owed sid = m.owed sid)
    (accounted : ∀ sid, Accounted sid m after) : Serves m after :=
  ⟨fun own sid => by rw [owed]; exact own sid, fun _ unowed sid => by rw [owed]; exact unowed sid,
    fun _ => accounted⟩

theorem Serves.still (owed : ∀ sid, after.owed sid = m.owed sid)
    (replies : after.replies = m.replies) (trace : after.trace = m.trace) : Serves m after :=
  .of_owed owed fun sid => .still (owed sid) replies trace

theorem Serves.modify (p : SessionPtr) (f : Session → Session)
    (owed : ∀ s, (f s).owed = s.owed) : Serves m { m with sm := m.sm.modify p f } :=
  .still (owed_modify_same p f owed) rfl rfl

theorem Serves.reply (e : Event) (rep : Response) (plain : rep.watch = none) :
    Serves m (m.reply e rep) :=
  .of_owed (fun _ => rfl) fun sid => .reply sid e rep plain

theorem pingBack_owed (wf : m.sm.WellFormed) {sid : Sid} {p : SessionPtr}
    (live : m.sm.get sid = some p) (other : Sid) :
    (m.pingBack p).owed other =
      if other = sid then (m.sm.deref p).pingBack.2.owed else m.owed other := by
  rw [← owed_modify wf live (fun s => s.pingBack.2)]
  unfold pingBack
  split <;> rfl

theorem pingBack_replies (p : SessionPtr) (m : Machine) :
    (m.pingBack p).replies = m.replies ++ (m.sm.deref p).pingBack.1.toList := by
  unfold pingBack
  split <;> simp [*, reply]

theorem Serves.pingBack (wf : m.sm.WellFormed) {sid : Sid} {p : SessionPtr}
    (live : m.sm.get sid = some p) : Serves m (m.pingBack p) := by
  have owed := pingBack_owed wf live
  have unheld := Session.pingBack_unheld (m.sm.deref p)
  refine ⟨fun own other e => ?_, fun _ unowed other => ?_, fun own other => ?_⟩
  · rw [owed]
    split_ifs
    · simp [Session.owed, unheld]
    · exact own other e
  · rw [owed]
    split_ifs
    · exact .inl unheld
    · exact unowed other
  · refine ⟨_, [], pingBack_replies p m, by simp [pingBack_trace], ?_⟩
    rw [owed]
    rcases Session.pingBack_account (m.sm.deref p) with ⟨-, same⟩ | ⟨e, rep, held, sent, balance⟩
    · rw [same]
      split_ifs with here
      · simp [here, owed_live live, answered, notices]
      · simp [answered, notices]
    · have mine : e.req.sid = sid := own sid e (by rw [owed_live live]; exact held)
      rw [sent, Option.toList_some, answered_single, mine]
      split_ifs with one two two
      · rw [← one, owed_live live]
        simp [notices, Session.owed, balance]
      · exact absurd one.symm two
      · exact absurd two.symm one
      · simp [notices]

theorem holdPing_owed (wf : m.sm.WellFormed) {p : SessionPtr} {e : Event}
    (live : m.sm.get e.req.sid = some p) (other : Sid) :
    (m.holdPing p e).owed other =
      if other = e.req.sid then (some e, (m.owed e.req.sid).2) else m.owed other := by
  have held : (m.holdPing p e).owed other =
      Machine.owed other { m with sm := m.sm.modify p (Session.holdPing e) } := by
    unfold holdPing
    cases (m.sm.deref p).pingEvent <;> rfl
  rw [held, owed_modify wf live, owed_live live]
  rfl

theorem holdPing_accounted (wf : m.sm.WellFormed) {p : SessionPtr} {e : Event}
    (live : m.sm.get e.req.sid = some p) (sid : Sid) : Accounted sid m (m.holdPing p e) := by
  have pairs (other : Sid) : (Machine.owed other
      { m with sm := m.sm.modify p (Session.holdPing e) }).2 = (m.owed other).2 := by
    rw [owed_modify wf live]
    split_ifs with here
    · rw [here, owed_live live]
      rfl
    · rfl
  have hold : Accounted sid m { m with sm := m.sm.modify p (Session.holdPing e) } :=
    ⟨[], [], by simp, by simp, by simp [answered, notices, pairs]⟩
  unfold holdPing
  cases (m.sm.deref p).pingEvent with
  | none => exact hold
  | some old => exact hold.trans (.reply sid old Response.empty rfl)

theorem Serves.takePing (wf : m.sm.WellFormed) {p : SessionPtr} {e : Event}
    (live : m.sm.get e.req.sid = some p) : Serves m (m.takePing p e) := by
  have owed := holdPing_owed wf live
  have told := holdPing_told p e m
  have there : (m.holdPing p e).sm.get e.req.sid = some p := by
    rw [get_of_sessions told.sessions]
    exact live
  have own (before : Own m) : Own (m.holdPing p e) := by
    intro other old held
    rw [owed] at held
    split_ifs at held with here
    · cases held
      exact here.symm
    · exact before other old held
  unfold Machine.takePing
  dsimp only
  split_ifs with empty
  · refine ⟨own, fun _ unowed other => ?_, fun _ sid => holdPing_accounted wf live sid⟩
    rw [owed]
    split_ifs
    · refine .inr ?_
      have pairs := owed e.req.sid
      rw [owed_live there, if_pos rfl] at pairs
      rw [← congrArg Prod.snd pairs]
      exact List.isEmpty_iff.mp empty
    · exact unowed other
  · have back := Serves.pingBack (told.wellFormed wf) there
    refine ⟨fun before => back.own (own before), fun before unowed other => ?_,
      fun before sid => (holdPing_accounted wf live sid).trans (back.accounted (own before) sid)⟩
    rw [pingBack_owed (told.wellFormed wf) there]
    split_ifs with here
    · exact .inl (Session.pingBack_unheld _)
    · rw [owed, if_neg here]
      exact unowed other

section Triger

variable (state) (e : Watch.Event)

theorem pended_owed (wf : m.sm.WellFormed) {w : Watcher} {p : SessionPtr}
    (live : m.sm.get w.sid = some p) (other : Sid) :
    (pended e w p m).owed other =
      if other = w.sid then ((m.sm.deref p).pend w.path e).owed else m.owed other :=
  owed_modify wf live (Session.pend w.path e) other

theorem Serves.notified (wf : m.sm.WellFormed) {w : Watcher} {p : SessionPtr}
    (live : m.sm.get w.sid = some p) : Serves m (notified state e w p m) := by
  unfold Machine.notified
  split_ifs
  · have owed := pended_owed e wf live
    have there : (pended e w p m).sm.get w.sid = some p := live
    have wf' := (pended_told e w p m).wellFormed wf
    have own (before : Own m) : Own (pended e w p m) := by
      intro other old held
      rw [owed] at held
      split_ifs at held with here
      · subst here
        exact before w.sid old (by rw [owed_live live]; exact held)
      · exact before other old held
    have pends (sid : Sid) : Accounted sid m (pended e w p m) := by
      refine ⟨[], [.notify w e], by simp [pended], rfl, ?_⟩
      rw [owed]
      split_ifs with here
      · subst here
        rw [owed_live live]
        simpa [answered, notices, Trace.notice?, Session.owed, Session.pend] using
          Session.insertPending_perm w.path e (m.sm.deref p).pendingWatcher
      · simp [answered, notices, Trace.notice?, Ne.symm here]
    have back := Serves.pingBack wf' there
    refine ⟨fun before => back.own (own before), fun before unowed other => ?_,
      fun before sid => (pends sid).trans (back.accounted (own before) sid)⟩
    rw [pingBack_owed wf' there]
    split_ifs with here
    · exact .inl (Session.pingBack_unheld _)
    · rw [owed, if_neg here]
      exact unowed other
  · exact .refl m

theorem Serves.watchCallback (wf : m.sm.WellFormed) (w : Watcher) :
    Serves m (watchCallback state w e m) := by
  cases live : m.sm.get w.sid with
  | none =>
      simp only [Machine.watchCallback, live]
      exact .refl m
  | some p =>
      rw [watchCallback_eq state e live]
      exact (Serves.notified state e wf live).trans (.modify p (Session.removeWatch w) fun _ => rfl)

theorem Serves.foldl {α : Type} (f : Machine → α → Machine)
    (each : ∀ m x, m.sm.WellFormed → Serves m (f m x)) (told : ∀ m x, Told m (f m x))
    (xs : List α) (m : Machine) (wf : m.sm.WellFormed) : Serves m (xs.foldl f m) := by
  induction xs generalizing m with
  | nil => exact .refl m
  | cons x rest ih => exact (each m x wf).trans (ih _ ((told m x).wellFormed wf))

theorem Serves.trigerInternal (wf : m.sm.WellFormed) (call : Str × Bool) :
    Serves m (trigerInternal state e m call) := by
  have called : Serves m _ := .foldl
    (fun m (entry : Str × Watcher) => Machine.watchCallback state entry.2 e m)
    (fun m entry wf => .watchCallback state e wf entry.2)
    (fun m entry => watchCallback_told state e entry.2 m)
    (m.wm.filter (WatchManager.fires call.1 e call.2)) m wf
  exact called.trans (.still (fun _ => rfl) rfl rfl)

theorem Serves.triger (wf : m.sm.WellFormed) (done : triger state e m = .ok after) :
    Serves m after := by
  unfold Machine.triger at done
  split at done
  · cases done
  next calls climbed =>
    cases done
    have raised : Serves m { m with trace := m.trace ++ [.triger e] } :=
      .of_owed (fun _ => rfl) fun sid => ⟨[], [.triger e], by simp, rfl, by
        rw [show notices sid [.triger e] = [] from rfl, List.append_nil]
        exact .refl _⟩
    exact raised.trans (.foldl (Machine.trigerInternal state e)
      (fun m call wf => .trigerInternal state e wf call) (trigerInternal_told state e) calls _ wf)

end Triger

theorem Serves.touch {now : Time} {sid : Sid} {sm : SessionManager}
    (done : m.sm.touch options now sid = .ok sm) : Serves m { m with sm := sm } := by
  obtain ⟨p, live, ⟨-, rfl⟩ | ⟨-, timers, rfl⟩⟩ := SessionManager.touch_cases done
  · exact .refl m
  · exact .still (owed_modify_same p (Session.setExpireTime _) fun _ => rfl) rfl rfl

theorem Serves.inserted (wf : m.sm.WellFormed) {p : SessionPtr} {sid : Sid} {timeout : Int}
    (fresh : m.sm.heap[p]? = none) :
    Serves m { m with sm := m.sm.inserted p (Session.new sid timeout) } := by
  refine .still (fun other => ?_) rfl rfl
  unfold Machine.owed
  dsimp only
  rw [SessionManager.inserted_get]
  cases live : m.sm.get other with
  | some q =>
      simp only [Option.some_or]
      rw [SessionManager.inserted_deref m.sm wf p fresh _ live]
  | none =>
      rw [Option.none_or]
      split_ifs
      · simp [SessionManager.deref, SessionManager.inserted_heap, Session.owed, Session.new]
      · rfl

theorem Serves.free {p : SessionPtr} (gone : ∀ sid, m.sm.get sid ≠ some p) :
    Serves m { m with sm := { m.sm with heap := m.sm.heap.erase p } } := by
  refine .still (fun other => ?_) rfl rfl
  refine owed_of_get m { m with sm := { m.sm with heap := m.sm.heap.erase p } } (fun _ => rfl)
    (fun sid q live => ?_) other
  exact congrArg Session.owed (SessionManager.free_deref gone live)

theorem Serves.watch (req : Request) : Serves m (m.onWatch req).2 := by
  unfold onWatch
  split
  · exact .refl m
  · dsimp only
    split_ifs
    · exact .refl m
    · exact .still (owed_modify_same _ (Session.bindWatch _) fun _ => rfl) rfl rfl

theorem drop_owed {sid : Sid} {p : SessionPtr} {sm : SessionManager}
    (done : (m.sm.modify p Session.close).remove sid = .ok sm) (other : Sid) :
    Machine.owed other { m with sm := sm, wm := unwatch (m.sm.deref p) m.wm } =
      if other = sid then (none, []) else m.owed other := by
  obtain ⟨-, heap, get⟩ := SessionManager.remove_frame done
  have deref (q : SessionPtr) : (sm.deref q).owed = (m.sm.deref q).owed := by
    rw [SessionManager.deref, heap]
    exact SessionManager.modify_field Session.owed m.sm p Session.close (fun _ => rfl) q
  unfold Machine.owed
  simp only [get, deref]
  split_ifs
  · rfl
  · rfl

theorem Move.serves (move : Move options state permits m after) (wf : m.sm.WellFormed) :
    (Own m → Own after) ∧ (Own m → NoBacklog m → NoBacklog after) ∧
      (Own m → ∀ sid, ¬ permits.removes sid → Accounted sid m after) := by
  have all (serves : Serves m after) :
      (Own m → Own after) ∧ (Own m → NoBacklog m → NoBacklog after) ∧
      (Own m → ∀ sid, ¬ permits.removes sid → Accounted sid m after) :=
    ⟨serves.own, serves.unowed, fun own sid _ => serves.accounted own sid⟩
  cases move with
  | store db => exact all (.still (fun _ => rfl) rfl rfl)
  | nodes p f only => exact all (.modify p f fun s => by rw [only]; rfl)
  | reply e rep plain => exact all (.reply e rep plain)
  | watch req => exact all (.watch req)
  | triger e after done => exact all (.triger state e wf done)
  | pingBack sid p live => exact all (.pingBack wf live)
  | ping p e live permitted => exact all (.takePing wf live)
  | touch sid now sm permitted done => exact all (.touch done)
  | setTimeout sid p timeout live permitted =>
      exact all (.modify p (Session.setTimeout timeout) fun _ => rfl)
  | close p permitted => exact all (.modify p Session.close fun _ => rfl)
  | genSid permitted => exact all (.still (fun _ => rfl) rfl rfl)
  | add sid timeout now p sm permitted fresh done =>
      exact all ((Serves.inserted wf fresh).trans
        (.touch (m := { m with sm := m.sm.inserted p _ }) done))
  | drop sid p sm permitted live done =>
      have owed := drop_owed done
      refine ⟨fun own other e => ?_, fun _ unowed other => ?_, fun _ other kept => ?_⟩
      · rw [owed]
        split_ifs
        · simp
        · exact own other e
      · rw [owed]
        split_ifs
        · exact .inl rfl
        · exact unowed other
      · refine .still ?_ rfl rfl
        rw [owed, if_neg]
        rintro rfl
        exact kept permitted
  | free p gone => exact all (.free gone)

def noticed (m : Machine) : List Nat := m.trace.filterMap Trace.notifier?

structure Once (m : Machine) : Prop where
  below : ∀ id ∈ m.noticed, id < m.nextWatcher
  single : (m.noticed ++ m.wm.map fun entry => entry.2.id).Nodup

theorem Once.frame (once : Once m) (trace : after.trace = m.trace)
    (next : after.nextWatcher = m.nextWatcher) (wm : after.wm.Sublist m.wm) : Once after := by
  have same : after.noticed = m.noticed := by rw [noticed, trace, noticed]
  refine ⟨by rw [same, next]; exact once.below, ?_⟩
  rw [same]
  exact once.single.sublist ((wm.map _).append_left _)

theorem Once.modify (once : Once m) (sm : SessionManager) : Once { m with sm := sm } :=
  once.frame rfl rfl (.refl _)

theorem Once.watch (once : Once m) (agree : Agree m) (req : Request) :
    Once (m.onWatch req).2 := by
  unfold onWatch
  split
  · exact once
  · dsimp only
    split_ifs
    · exact once
    · refine ⟨fun id listed => Nat.lt_succ_of_lt (once.below id listed), ?_⟩
      simp only [WatchManager.add, List.map_append, List.map_cons, List.map_nil]
      rw [← List.append_assoc]
      refine List.nodup_append.mpr ⟨once.single, by simp, fun id listed other new same => ?_⟩
      rw [same, List.mem_singleton.mp new] at listed
      rcases List.mem_append.mp listed with old | entered
      · exact absurd (once.below _ old) (by simp)
      · obtain ⟨entry, member, same⟩ := List.mem_map.mp entered
        have bound := agree.numbered entry member
        omega

theorem Once.triger (once : Once m) (agree : Agree m) (wf : m.sm.WellFormed) {e : Watch.Event}
    (done : triger state e m = .ok after) : Once after := by
  obtain ⟨calls, fired, -, perm, -, -, trace, next, -⟩ := triger_spec state e agree wf done
  have noticed : after.noticed = m.noticed ++
      (if state = .leader then fired.map fun entry => entry.2.id else []) := by
    simp only [Machine.noticed, trace, List.filterMap_append, List.filterMap_cons]
    split_ifs <;> simp [Trace.notifier?, List.filterMap_map, Function.comp_def]
  have ids : (fired.map (fun entry => entry.2.id) ++ after.wm.map fun entry => entry.2.id).Perm
      (m.wm.map fun entry => entry.2.id) := by
    rw [← List.map_append]
    exact perm.map _
  refine ⟨fun id listed => ?_, ?_⟩
  · rw [next]
    rw [noticed] at listed
    rcases List.mem_append.mp listed with old | new
    · exact once.below id old
    · split_ifs at new
      · obtain ⟨entry, member, rfl⟩ := List.mem_map.mp new
        exact agree.numbered entry (perm.subset (List.mem_append_left _ member))
      · cases new
  · have whole := (ids.append_left m.noticed).nodup_iff.mpr once.single
    rw [noticed]
    refine whole.sublist ?_
    rw [List.append_assoc]
    refine List.Sublist.append_left ?_ _
    split_ifs
    · exact .refl _
    · exact List.sublist_append_right _ _

theorem Once.move (once : Once m) (agree : Agree m) (wf : m.sm.WellFormed)
    (move : Move options state permits m after) : Once after := by
  cases move with
  | store db => exact once.frame rfl rfl (.refl _)
  | nodes p f only => exact once.modify _
  | reply e rep plain => exact once.frame rfl rfl (.refl _)
  | watch req => exact once.watch agree req
  | triger e after done => exact once.triger agree wf done
  | pingBack sid p live =>
      obtain ⟨wm, next⟩ := pingBack_tables p m
      exact once.frame (pingBack_trace p m) next (by rw [wm])
  | ping p e live permitted =>
      obtain ⟨wm, next, trace⟩ := takePing_tables p e m
      exact once.frame trace next (by rw [wm])
  | touch sid now sm permitted done => exact once.modify sm
  | setTimeout sid p timeout live permitted => exact once.modify _
  | close p permitted => exact once.modify _
  | genSid permitted => exact once.modify _
  | add sid timeout now p sm permitted fresh done => exact once.modify sm
  | drop sid p sm permitted live done =>
      refine once.frame rfl rfl ?_
      dsimp only
      rw [agree.unwatch_eq live]
      exact List.filter_sublist
  | free p gone => exact once.modify _

theorem reset_owed {clock : Nat → Time} {sm : SessionManager} (wf : m.sm.WellFormed)
    (done : m.sm.resetTimer clock = .ok sm) (sid : Sid) :
    Machine.owed sid { m with sm := sm.resetWatchers, wm := [] } = m.owed sid := by
  refine owed_of_get m { m with sm := sm.resetWatchers, wm := [] }
    (get_of_sessions (SessionManager.reset_keeps wf done).sessions) (fun _ p _ => ?_) sid
  exact (SessionManager.foldl_modify_field Session.owed sm Prod.snd Session.resetWatch
    (fun _ => rfl) _ p).trans
    (SessionManager.resetTimer_field Session.owed clock m.sm (fun _ _ => rfl) done p)

structure Posted (m : Machine) : Prop where
  agree : Agree m
  own : Own m
  unowed : NoBacklog m
  once : Once m

theorem Posted.move (posted : Posted m) (wf : m.sm.WellFormed)
    (move : Move options state permits m after) : Posted after := by
  obtain ⟨own, unowed, -⟩ := move.serves wf
  exact ⟨posted.agree.move wf move, own posted.own, unowed posted.own posted.unowed,
    posted.once.move posted.agree wf move⟩

theorem Posted.reset {clock : Nat → Time} {sm : SessionManager} (posted : Posted m)
    (wf : m.sm.WellFormed) (done : m.sm.resetTimer clock = .ok sm) :
    Posted { m with sm := sm.resetWatchers, wm := [] } :=
  ⟨.reset, fun sid => by rw [reset_owed wf done]; exact posted.own sid,
    fun sid => by rw [reset_owed wf done]; exact posted.unowed sid,
    posted.once.frame rfl rfl (List.nil_sublist _)⟩

theorem posted_fresh (db : Persist) (now : Time) (replies : List (Event × Response)) :
    Posted (fresh db now replies) := by
  have nobody (sid : Sid) : (fresh db now replies).sm.get sid = none := by
    simp [fresh, SessionManager.new, SessionManager.get]
  have owed (sid : Sid) : (fresh db now replies).owed sid = (none, []) := by
    rw [Machine.owed, nobody]
  exact ⟨.empty rfl fun sid p live => by simp [nobody] at live,
    fun sid e held => by simp [owed] at held, fun sid => .inl (by rw [owed]),
    by simp [noticed, fresh], by simp [noticed, fresh]⟩

end Machine

namespace Server

open Machine (Posted Accounted)

variable {options : Options} {states : RaftStates} {server after : Server}

theorem reachable_posted (reachable : Reachable options states server) :
    ∃ r, Stands options server r ∧ Posted server.machine :=
  reachable_machine Posted Machine.posted_fresh
    (fun _ _ _ wf posted move => posted.move wf move)
    (fun _ _ _ wf posted done => posted.reset wf done) reachable

def Stays (sid : Sid) (action : Action) (server : Server) : Prop :=
  action.isRestart = false ∧
    ∀ cmd ∈ action.applies server, cmd.body = .unregister → cmd.sid ≠ sid

instance (sid : Sid) (action : Action) (server : Server) : Decidable (Stays sid action server) :=
  inferInstanceAs (Decidable (_ ∧ _))

theorem Stays.spares {sid : Sid} {action : Action} (stays : Stays sid action server) :
    ¬ (actionPermits options action server).removes sid := by
  obtain ⟨running, spared⟩ := stays
  unfold actionPermits
  cases action with
  | turn env ready =>
      dsimp only
      cases applying : server.applies ready with
      | none =>
          dsimp only [permits]
          split <;> exact id
      | some cmd =>
          rintro ⟨body, same⟩
          exact spared cmd applying body same.symm
  | _ => exact id

theorem act_accounted {sid : Sid} {action : Action} {r : Replica} (stands : Stands options server r)
    (posted : Posted server.machine) (stays : Stays sid action server)
    (taken : server.act options states action = .ok after) :
    Accounted sid server.machine after.machine := by
  have wf := stands.wellFormed
  have moved {state : State} {permits : Machine.Permits} {m last : Machine} (wf : m.sm.WellFormed)
      (posted : Posted m) (spared : ¬ permits.removes sid)
      (moves : Machine.Moves options state permits m last) : Accounted sid m last :=
    (moves.invariant (fun other => Posted other ∧ Accounted sid m other)
      (fun one two wf holds move => ⟨holds.1.move wf move,
        holds.2.trans ((move.serves wf).2.2 holds.1.own sid spared)⟩)
      wf ⟨posted, .refl sid m⟩).2.2
  cases act_works stands stays.1 taken with
  | moves moves => exact moved wf posted stays.spares moves
  | entered env ready sm is leads first reset moves =>
      have keeps := SessionManager.reset_keeps wf reset
      have begun : Accounted sid server.machine
          { server.machine with sm := sm.resetWatchers, wm := [] } :=
        .still (Machine.reset_owed wf reset sid) rfl rfl
      exact begun.trans (moved (by exact keeps.wellFormed) (posted.reset wf reset)
        (by exact id) moves)

theorem run_accounted (reachable : Reachable options states server) (sid : Sid)
    (actions : List Action) (stays : Runs.Meets (act options states) (Stays sid) server actions)
    (reached : Runs.run (act options states) server actions = .ok after) :
    Reachable options states after ∧ Accounted sid server.machine after.machine :=
  Runs.run_invariant (act options states) (Stays sid)
    (fun other => Reachable options states other ∧ Accounted sid server.machine other.machine)
    (fun action one two holds stays taken => by
      obtain ⟨r, stands, posted⟩ := reachable_posted holds.1
      exact ⟨holds.1.act taken, holds.2.trans (act_accounted stands posted stays taken)⟩)
    server after actions ⟨reachable, .refl sid _⟩ stays reached

theorem notifications_conserved (reachable : Reachable options states server) (sid : Sid)
    (actions : List Action) (stays : Runs.Meets (act options states) (Stays sid) server actions)
    (reached : Runs.run (act options states) server actions = .ok after) :
    Accounted sid server.machine after.machine ∧ after.machine.noticed.Nodup ∧
      ((after.machine.owed sid).1 = none ∨ (after.machine.owed sid).2 = []) := by
  obtain ⟨again, accounted⟩ := run_accounted reachable sid actions stays reached
  obtain ⟨_, -, posted⟩ := reachable_posted again
  exact ⟨accounted, (List.nodup_append.mp posted.once.single).1, posted.unowed sid⟩

def notifying : List Action :=
  -- The register of session 1 is applied; it watches a path, pings, and creates the node.
  [.turn (.still 0) .command, .receive (.watching 1 ⟨text "/a", Watch.kCreate, false⟩),
    .turn (.still 0) .event, .receive (.tagged 1), .turn (.still 0) .event,
    .receive (.creating 1 (text "/a") 0), .turn (.still 0) .event, .deliver,
    .turn (.still 0) .command]

theorem notifications_conserved_ping : ∃ server after,
    Reachable Options.standard .sample server ∧
      Runs.Meets (act Options.standard .sample) (Stays 1) server notifying ∧
      Runs.run (act Options.standard .sample) server notifying = .ok after ∧
      server.machine.owed 1 = (none, []) ∧ after.machine.owed 1 = (none, []) ∧
      answered 1 after.machine.replies = [(text "/a", ⟨text "/a", Watch.kCreate⟩)] ∧
      Accounted 1 server.machine after.machine := by
  obtain ⟨server, reachable, found⟩ := exists_reachable Options.standard .sample (.still 0)
    admitting (fun server =>
      Runs.Meets (act Options.standard .sample) (Stays 1) server notifying ∧
      server.machine.owed 1 = (none, []) ∧
      Runs.passes (Runs.run (act Options.standard .sample) server notifying) (fun after =>
        decide (after.machine.owed 1 = (none, []) ∧
          answered 1 after.machine.replies =
            [(text "/a", ⟨text "/a", Watch.kCreate⟩)])) = true)
    (by decide +kernel)
  simp only [Runs.passes_iff, decide_eq_true_eq] at found
  obtain ⟨stays, unknown, after, reached, nothing, sent⟩ := found
  exact ⟨server, after, reachable, stays, reached, unknown, nothing, sent,
    (notifications_conserved reachable 1 notifying stays reached).1⟩

end Server

end Pyxis
