import Pyxis.Server.Delivery

set_option autoImplicit false

namespace Pyxis

namespace WatchManager

def trigerInternal (path : Str) (e : Watch.Event) (fromChild : Bool) :
    WatchManager → List Watcher × WatchManager
  | [] => ([], [])
  | entry :: rest =>
      let (told, left) := trigerInternal path e fromChild rest
      if fires path e fromChild entry then (entry.2 :: told, left) else (told, entry :: left)

def trigerAll (e : Watch.Event) : List (Str × Bool) → WatchManager → List Watcher × WatchManager
  | [], wm => ([], wm)
  | (path, fromChild) :: calls, wm =>
      let (told, wm) := trigerInternal path e fromChild wm
      let (more, wm) := trigerAll e calls wm
      (told ++ more, wm)

def triger (e : Watch.Event) (wm : WatchManager) : Option (List Watcher × WatchManager) :=
  (trigerPaths e.node).map fun calls => trigerAll e calls wm

def Interested (e : Watch.Event) (entry : Str × Watcher) : Prop :=
  entry.2.mask &&& e.type ≠ 0 ∧
    (entry.1 = e.node ∨
      entry.2.recursive = true ∧
        (entry.1 = rootPath ∨ entry.1 ≠ [] ∧ (entry.1 ++ ['/']) <+: e.node))

instance (e : Watch.Event) : DecidablePred (Interested e) :=
  fun _ => inferInstanceAs (Decidable (_ ∧ _))

variable {e : Watch.Event} {wm : WatchManager}

theorem trigerInternal_eq (path : Str) (e : Watch.Event) (fromChild : Bool) (wm : WatchManager) :
    trigerInternal path e fromChild wm =
      ((wm.filter (fires path e fromChild)).map Prod.snd,
        wm.filter fun entry => !fires path e fromChild entry) := by
  induction wm with
  | nil => rfl
  | cons entry rest ih =>
      rw [trigerInternal, ih]
      cases fire : fires path e fromChild entry <;> simp [fire]

theorem trigerAll_left (calls : List (Str × Bool)) (wm : WatchManager) :
    (trigerAll e calls wm).2 = wm.filter fun entry => !rings e calls entry := by
  induction calls generalizing wm with
  | nil => simp [trigerAll, rings]
  | cons call calls ih =>
      simp only [trigerAll, trigerInternal_eq, ih, List.filter_filter, rings, List.any_cons]
      exact List.filter_congr fun entry _ => by rw [Bool.not_or, Bool.and_comm]

theorem trigerAll_told (calls : List (Str × Bool)) (wm : WatchManager) :
    (trigerAll e calls wm).1.Perm ((wm.filter (rings e calls)).map Prod.snd) := by
  induction calls generalizing wm with
  | nil => simp [trigerAll, rings]
  | cons call calls ih =>
      simp only [trigerAll, trigerInternal_eq]
      -- What the first path fires on, and what the rest rings among the others.
      have parts := (List.filter_append_perm (fires call.1 e call.2)
        (wm.filter (rings e (call :: calls)))).map Prod.snd
      have first : (wm.filter (rings e (call :: calls))).filter (fires call.1 e call.2) =
          wm.filter (fires call.1 e call.2) := by
        rw [List.filter_filter]
        refine List.filter_congr fun entry _ => ?_
        cases fire : fires call.1 e call.2 entry <;> simp [rings, fire]
      have others : ((wm.filter (rings e (call :: calls))).filter
          fun entry => !fires call.1 e call.2 entry) =
          (wm.filter fun entry => !fires call.1 e call.2 entry).filter (rings e calls) := by
        rw [List.filter_filter, List.filter_filter]
        refine List.filter_congr fun entry _ => ?_
        cases fire : fires call.1 e call.2 entry <;> simp [rings, fire]
      rw [first, others, List.map_append] at parts
      exact ((ih _).append_left _).trans parts

theorem interested_iff {calls : List (Str × Bool)} (climbed : trigerPaths e.node = some calls)
    (entry : Str × Watcher) : rings e calls entry = decide (Interested e entry) := by
  rw [Bool.eq_iff_iff, decide_eq_true_iff, show entry = (entry.1, entry.2) from rfl,
    rings_iff climbed]
  refine and_congr_right fun _ => ?_
  have below : (∃ rest, e.node = entry.1 ++ '/' :: rest) ↔ (entry.1 ++ ['/']) <+: e.node := by
    constructor
    · rintro ⟨rest, whole⟩
      exact ⟨rest, by simp [whole]⟩
    · rintro ⟨rest, whole⟩
      exact ⟨rest, by simp [← whole]⟩
  rw [eq_comm]
  by_cases own : entry.1 = e.node
  · simp only [own, true_or]
  · have other : entry.1 = rootPath ∧ e.node ≠ rootPath ↔ entry.1 = rootPath :=
      and_iff_left_of_imp fun root same => own (root.trans same.symm)
    rw [Descends, other, below]

end WatchManager

namespace Machine

variable (state : State) (e : Watch.Event)

theorem pingBack_wm (p : SessionPtr) (m : Machine) (wm : WatchManager) :
    pingBack p { m with wm := wm } = { pingBack p m with wm := wm } := by
  unfold pingBack
  cases (m.sm.deref p).pingBack.1 <;> rfl

theorem watchCallback_wm (w : Watcher) (m : Machine) (wm : WatchManager) :
    watchCallback state w e { m with wm := wm } =
      { watchCallback state w e m with wm := wm } := by
  simp only [watchCallback]
  cases m.sm.get w.sid with
  | none => rfl
  | some p =>
      by_cases leads : state = .leader
      · simp only [leads, if_true]
        rw [pingBack_wm p { m with
          sm := m.sm.modify p (Session.pend w.path e), trace := m.trace ++ [.notify w e] } wm]
      · simp only [leads, if_false]

def notify (ws : List Watcher) (m : Machine) : Machine :=
  ws.foldl (fun m w => watchCallback state w e m) m

theorem notify_wm (ws : List Watcher) (m : Machine) (wm : WatchManager) :
    notify state e ws { m with wm := wm } = { notify state e ws m with wm := wm } := by
  unfold notify
  induction ws generalizing m with
  | nil => rfl
  | cons w ws ih => rw [List.foldl_cons, watchCallback_wm, ih, List.foldl_cons]

theorem trigerInternal_notify (m : Machine) (call : Str × Bool) :
    trigerInternal state e m call =
      { notify state e (WatchManager.trigerInternal call.1 e call.2 m.wm).1 m with
        wm := (WatchManager.trigerInternal call.1 e call.2 m.wm).2 } := by
  rw [WatchManager.trigerInternal_eq, notify, List.foldl_map]
  rfl

theorem trigers_notify (calls : List (Str × Bool)) (m : Machine) :
    calls.foldl (trigerInternal state e) m =
      { notify state e (WatchManager.trigerAll e calls m.wm).1 m with
        wm := (WatchManager.trigerAll e calls m.wm).2 } := by
  induction calls generalizing m with
  | nil => rfl
  | cons call calls ih =>
      rw [List.foldl_cons, ih, trigerInternal_notify, notify_wm]
      simp only [WatchManager.trigerAll, notify, List.foldl_append]

end Machine

theorem triger_notifies (wm : WatchManager) (e : Watch.Event)
    (rooted : ∃ rest, e.node = '/' :: rest) :
    ∃ told left, wm.triger e = some (told, left) ∧
      told.Perm ((wm.filter fun entry => WatchManager.Interested e entry).map Prod.snd) ∧
      left = (wm.filter fun entry => ¬ WatchManager.Interested e entry) ∧
      ∀ (state : State) (m : Machine), m.wm = wm →
        Machine.triger state e m =
          .ok { Machine.notify state e told { m with trace := m.trace ++ [.triger e] } with
            wm := left } := by
  obtain ⟨calls, climbed⟩ := trigerPaths_rooted e.node rooted
  have rings := funext (WatchManager.interested_iff climbed)
  refine ⟨_, _, by rw [WatchManager.triger, climbed, Option.map_some], ?_, ?_, ?_⟩
  · rw [← rings]
    exact WatchManager.trigerAll_told calls wm
  · rw [WatchManager.trigerAll_left, rings]
    simp only [decide_not]
  · rintro state m rfl
    rw [Machine.triger, climbed]
    dsimp only
    rw [Machine.trigers_notify]

-- Of the watches of the root, of `/a/` and of `/a`, the last one is not recursive.
theorem triger_notifies_recursive :
    ∃ told left,
      WatchManager.triger ⟨text "/a//b", Watch.kDelete⟩
          [(rootPath, ⟨1, rootPath, 1, Watch.kDelete, true⟩),
            (text "/a/", ⟨2, text "/a/", 2, Watch.kDelete, true⟩),
            (text "/a", ⟨3, text "/a", 3, Watch.kDelete, false⟩)] = some (told, left) ∧
        told.length = 2 ∧ left.length = 1 := by
  obtain ⟨told, left, done, perm, rfl, -⟩ := triger_notifies
    [(rootPath, ⟨1, rootPath, 1, Watch.kDelete, true⟩),
      (text "/a/", ⟨2, text "/a/", 2, Watch.kDelete, true⟩),
      (text "/a", ⟨3, text "/a", 3, Watch.kDelete, false⟩)]
    ⟨text "/a//b", Watch.kDelete⟩ ⟨text "a//b", by decide +kernel⟩
  exact ⟨told, _, done, perm.length_eq.trans (by decide +kernel), by decide +kernel⟩

end Pyxis
