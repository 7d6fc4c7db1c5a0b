import Pyxis.Client.Connection

set_option autoImplicit false

namespace Pyxis.Client.ClientImpl

variable {random : Nat → Nat} {c next : ClientImpl} {e : Ending}

/-- A `resetConnection` is scheduled, a connection timer is armed, or the callback of a register or
of a ping is to come. -/
def Driven (c : ClientImpl) : Prop :=
  c.scheduled ≠ [] ∨ c.timers ≠ [] ∨ ∃ h ∈ c.handles, h.Drives

def Numbered (c : ClientImpl) : Prop := ∀ h ∈ c.handles, h.Numbered

theorem Numbered.call (numbered : c.Numbered) (call : Call) : (c.call call).Numbered := by
  intro h member
  rcases call_handles member with before | ⟨g, there, rfl⟩
  · exact numbered h before
  · exact (numbered g (mem_handles.mpr (.inr there))).call call

theorem Driven.call (driven : c.Driven) (call : Call) : (c.call call).Driven := by
  refine driven.imp_right (.imp_right ?_)
  rintro ⟨h, member, drives⟩
  rcases mem_handles.mp member with former | current
  · exact ⟨h, mem_handles.mpr (.inl former), drives⟩
  · exact ⟨h.call call, mem_handles.mpr (.inr (congrArg (Option.map _) current)), drives.call call⟩

structure Goes (c : ClientImpl) : Prop where
  opened : c.state ≠ .closed
  present : c.client ≠ none
  numbered : c.Numbered
  driven : c.Driven

theorem goes_resetConnection (opened : c.state ≠ .closed) (numbered : c.Numbered) (addr : Str) :
    (c.resetConnection addr).Goes := by
  have known : (c.resetConnection addr).Numbered := by
    intro h member
    rcases resetConnection_handles member with before | rfl
    · exact numbered h before
    · rfl
  rw [resetConnection, if_neg opened] at known ⊢
  exact ⟨opened, by simp, known, .inr (.inl (by simp))⟩

section Open

variable (random) (opened : c.state ≠ .closed) (present : c.client ≠ none)
  (numbered : c.Numbered)

include opened present numbered

theorem goes_call {call : Call} (kind : call.kind ≠ .app) : (c.call call).Goes := by
  obtain ⟨h, there⟩ := Option.ne_none_iff_exists'.mp present
  have current : (c.call call).client = some (h.call call) := congrArg (Option.map _) there
  have drives := Handle.drives_call (numbered h (mem_handles.mpr (.inr there))) kind
  exact ⟨opened, by simp [current], numbered.call call,
    .inr (.inr ⟨h.call call, mem_handles.mpr (.inr current), drives⟩)⟩

theorem goes_onConnection : (c.onConnection random true).Goes :=
  goes_call (c := { c with timers := c.timers.filter fun id => some id ≠ c.connTimerId })
    opened present numbered (by simp)

theorem goes_ping : (c.ping random).Goes := by
  unfold ping callInLoop
  split_ifs
  · exact goes_call opened present numbered nofun
  · exact goes_resetConnection opened numbered _

theorem goes_onPing (status : Status) (rep : Response) : (c.onPing random status rep).Goes := by
  unfold onPing
  rw [if_neg opened]
  split_ifs
  · split
    · exact goes_ping random opened present numbered
    · exact goes_ping random opened present numbered
  · exact goes_ping random opened present numbered
  · unfold pingFailed
    split
    · exact goes_resetConnection (c := { c with sid := 0 }) opened numbered _
    · exact goes_resetConnection opened numbered _

theorem goes_onRegister (status : Status) (rep : Response) :
    (c.onRegister random status rep).Goes := by
  unfold onRegister
  rw [if_neg opened]
  split_ifs
  · exact goes_ping random (by simp [triger]) present numbered
  · split
    · exact goes_resetConnection opened numbered _
    · exact goes_resetConnection (c := { c with sid := 0 }) opened numbered _
    · exact goes_resetConnection opened numbered _

theorem goes_finish (kind : e.call.kind ≠ .app) : (c.finish random e).Goes := by
  unfold finish
  split
  · exact goes_onRegister random opened present numbered _ _
  · exact goes_onPing random opened present numbered _ _
  next app => exact absurd app kind

theorem goes_finishes (ends : List Ending)
    (driven : c.Driven ∨ ∃ e ∈ ends, e.call.kind ≠ .app) :
    (ends.foldl (finish random) c).Goes := by
  induction ends generalizing c with
  | nil => exact ⟨opened, present, numbered, driven.resolve_right (by simp)⟩
  | cons e rest ih =>
      by_cases kind : e.call.kind = .app
      · have same : c.finish random e = c := by simp [finish, kind]
        rw [List.foldl_cons, same]
        refine ih opened present numbered (driven.imp_right ?_)
        rintro ⟨other, member, made⟩
        rcases List.mem_cons.mp member with rfl | later
        · exact absurd kind made
        · exact ⟨other, later, made⟩
      · obtain ⟨opened, present, numbered, driven⟩ :=
          goes_finish random opened present numbered kind
        exact ih opened present numbered (.inl driven)

end Open

theorem finishes_closed (closed : c.state = .closed) (ends : List Ending) :
    ends.foldl (finish random) c = c := by
  have ignored (e : Ending) : c.finish random e = c := by
    unfold finish onRegister onPing
    split <;> simp [closed]
  induction ends with
  | nil => rfl
  | cons e rest ih => rw [List.foldl_cons, ignored, ih]

structure Stands (c : ClientImpl) : Prop where
  numbered : c.Numbered
  first : c.client = none → c.old = [] ∧ c.state ≠ .connected
  driven : c.state ≠ .closed → c.Driven

theorem Goes.stands (goes : c.Goes) : c.Stands :=
  ⟨goes.numbered, fun absent => absurd absent goes.present, fun _ => goes.driven⟩

theorem Stands.present (stands : c.Stands) {h : Handle} (member : h ∈ c.handles) :
    c.client ≠ none := by
  intro absent
  simp [handles, absent, (stands.first absent).1] at member

theorem stands_closed (closed : c.state = .closed) (numbered : c.Numbered)
    (present : c.client ≠ none) : c.Stands :=
  ⟨numbered, fun absent => absurd absent present, fun opened => absurd closed opened⟩

theorem stands_resetConnection (numbered : c.Numbered)
    (first : c.client = none → c.old = [] ∧ c.state ≠ .connected) (addr : Str) :
    (c.resetConnection addr).Stands := by
  by_cases closed : c.state = .closed
  · rw [resetConnection, if_pos closed]
    exact ⟨numbered, first, fun opened => absurd closed opened⟩
  · exact (goes_resetConnection closed numbered addr).stands

theorem Numbered.reached {occasion : Occasion} {base : ClientImpl} (numbered : c.Numbered)
    (reached : Reached occasion c base) : base.Numbered := by
  intro g found
  obtain ⟨h, member, continues⟩ := reached.handles g found
  exact continues.numbered (numbered h member)

theorem Stands.reached {occasion : Occasion} {base : ClientImpl} (stands : c.Stands)
    (reached : Reached occasion c base) : base.client ≠ none := by
  obtain ⟨h, member⟩ := List.exists_mem_of_ne_nil _ reached.came
  obtain ⟨current, there⟩ := Option.ne_none_iff_exists'.mp (stands.present member)
  obtain ⟨g, same, -⟩ := reached.kept current there
  simp [same]

theorem Driven.reached {occasion : Occasion} {base : ClientImpl} (driven : c.Driven)
    (free : Free occasion c) (reached : Reached occasion c base) :
    base.Driven ∨ ∃ e ∈ c.endings occasion, e.call.kind ≠ .app := by
  rcases driven with scheduled | armed | drives
  · exact .inl (.inl (reached.scheduled ▸ scheduled))
  · exact .inl (.inr (.inl (reached.timers ▸ armed)))
  · exact (reached.drives free drives).imp_left fun drives => .inr (.inr drives)

theorem Stands.course {occasion : Occasion} (stands : c.Stands) (free : Free occasion c)
    (course : Course random occasion c next) : next.Stands := by
  cases course with
  | idle => exact stands
  | reset scheduled timers addr =>
      exact stands_resetConnection (c := { c with scheduled := scheduled, timers := timers })
        stands.numbered stands.first addr
  | connects base reached =>
      have numbered := stands.numbered.reached reached
      have present := stands.reached reached
      by_cases closed : base.state = .closed
      · exact stands_closed closed (numbered.call _)
          (by simpa [onConnection, register, ClientImpl.call] using present)
      · exact (goes_onConnection random closed present numbered).stands
  | callbacks base reached =>
      have numbered := stands.numbered.reached reached
      have present := stands.reached reached
      by_cases closed : base.state = .closed
      · rw [finishes_closed closed]
        exact stands_closed closed numbered present
      · have driven := stands.driven (reached.state ▸ closed)
        exact (goes_finishes random closed present numbered _ (driven.reached free reached)).stands
  | asks req =>
      unfold callInLoop
      split_ifs with connected
      · refine ⟨stands.numbered.call _, fun absent => ?_, fun opened =>
          (stands.driven (by exact opened)).call _⟩
        have none : c.client = none := by simpa [ClientImpl.call] using absent
        exact absurd connected (stands.first none).2
      · exact stands
  | stops =>
      exact ⟨stands.numbered, fun absent => ⟨(stands.first absent).1, by simp⟩,
        fun opened => absurd rfl opened⟩

theorem stands_start (addrList : List Str) (sid : Sid) (timeout : Int) :
    ((new addrList sid timeout).start random).Stands :=
  ⟨by simp [Numbered, handles, new, start], fun _ => ⟨rfl, nofun⟩,
    fun _ => .inl (by simp [new, start])⟩

theorem client_driven (random : Nat → Nat) (addrList : List Str) (sid : Sid) (timeout : Int)
    (occasions : List Occasion)
    (free : Runs.Meets (act random) Free ((new addrList sid timeout).start random) occasions) :
    Runs.Throughout (act random) (fun c => c.state ≠ .closed → c.Driven)
      ((new addrList sid timeout).start random) occasions :=
  Runs.throughout_invariant (act random) Free Stands _
    (fun _ _ _ stands free taken => stands.course free (course_of_act taken))
    (fun _ stands => stands.driven) _ occasions (stands_start addrList sid timeout) free

theorem client_driven_losing : ∃ last, Runs.run (act id) started losing = .ok last ∧
    last.state = .connected ∧ last.timers = [1] ∧ last.old.length = 0 ∧
    Runs.Meets (act id) Free started losing ∧
    Runs.Throughout (act id) (fun c => c.state ≠ .closed → c.Driven) started losing := by
  have found : Runs.passes (Runs.run (act id) started losing) (fun last =>
      decide (last.state = .connected ∧ last.timers = [1] ∧ last.old.length = 0)) = true := by
    decide +kernel
  simp only [Runs.passes_iff, decide_eq_true_eq] at found
  obtain ⟨last, reached, state, timers, old⟩ := found
  have free : Runs.Meets (act id) Free started losing := by decide +kernel
  exact ⟨last, reached, state, timers, old, free, client_driven id _ 0 30000 losing free⟩

end Pyxis.Client.ClientImpl
