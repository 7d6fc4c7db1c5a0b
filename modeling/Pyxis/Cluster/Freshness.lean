import Pyxis.Cluster.Agreement

set_option autoImplicit false

namespace Pyxis

namespace Server

variable {options : Options} {states : RaftStates} {server after : Server}

variable (states) in
/-- The server leads, and so does raft, with nothing to be read about a change. -/
def Current (server : Server) : Prop := server.state = .leader ∧ ¬ Behind states server

instance (server : Server) : Decidable (Current states server) :=
  inferInstanceAs (Decidable (_ ∧ _))

theorem Current.congr (current : Current states after) (state : after.state = server.state)
    (leader : after.raft.leader = server.raft.leader) (statech : after.statech = server.statech) :
    Current states server := by
  rw [Current, Behind, state, leader, statech] at current
  exact current

theorem Current.follow {elected : Bool} {grown : List Request}
    (current : Current states (server.follow elected grown)) : Current states server := by
  have both : (server.raft.leader && !elected) = true := leader_of_not_behind current.2
  rw [Bool.and_eq_true] at both
  exact current.congr rfl (by simp [Server.follow, both.1, both.2]) rfl

theorem Current.act {action : Action} {r : Replica} (current : Current states after)
    (stands : Stands options server r) (paired : Paired states server)
    (runs : action.isLocal = true) (taken : server.act options states action = .ok after) :
    Current states server ∨ after.toApply = [] := by
  cases action with
  | receive req =>
      cases taken
      exact .inl current
  | notify st =>
      cases taken
      refine absurd ?_ current.2
      by_cases elected : st = states.leader
      · exact .inr ⟨st, by simp [notify, onState], elected ▸ states.distinct⟩
      · exact .inl (by simp [notify, onState, elected])
  | stop =>
      cases taken
      refine .inl ⟨current.1, fun behind => current.2 (behind.imp_right ?_)⟩
      rintro ⟨st, member, other⟩
      exact ⟨st, List.mem_append_left _ member, other⟩
  | deliver =>
      cases taken
      unfold deliver at current
      split at current <;> exact .inl current
  | turn env ready =>
      cases turn_cases stands.wellFormed taken with
      | advance pushes leads noCommand advances _ _ _ still =>
          exact .inl (current.congr advances.state advances.leader advances.statech)
      | idle noCommand advances =>
          exact .inl (current.congr advances.state advances.leader advances.statech)
      | await waits first =>
          have leads := current.1
          rw [replicate_state, waits] at leads
          cases leads
      | command entry rest applying queue waits applied =>
          obtain ⟨_, m, -, ⟨-, rfl⟩ | ⟨_, _, -, -, rfl⟩⟩ := onCommand_ok applied <;>
            exact .inl current
      | lead entry rest noCommand chosen waits inLoop queue ends =>
          have left := (paired.awaited waits inLoop current.2).nothing_left queue ends
          exact .inr (by simp [toApply, left])
      | change st rest inLoop noCommand queue fresh =>
          exact absurd current.1 (nextState_ne_leader server.state st)
  | accept | restart => cases runs

end Server

namespace Cluster

variable {ι : Type} [DecidableEq ι] {options : Options} {states : RaftStates}
  {cluster next : Cluster ι}

omit [DecidableEq ι] in
structure Reaches (states : RaftStates) (n : Nat) (cluster : Cluster ι) : Prop where
  log : n ≤ cluster.log.length
  current : ∀ i, Server.Current states (cluster.servers i) →
    n + (cluster.servers i).toApply.length ≤ cluster.log.length

theorem Reaches.spread {n : Nat} (reaches : cluster.Reaches states n) {i : ι} {server : Server}
    {elected : Bool} {grown : List Request}
    (current : Server.Current states server →
      n + server.toApply.length ≤ cluster.log.length + grown.length) :
    (cluster.spread i server elected grown).Reaches states n := by
  refine ⟨?_, ?_⟩
  · rw [Cluster.spread, List.length_append]
    exact Nat.le_add_right_of_le reaches.log
  · simp only [Cluster.spread, List.length_append]
    refine spread_each (fun other => Server.Current states other →
      n + other.toApply.length ≤ cluster.log.length + grown.length) current fun j leads => ?_
    have before := reaches.current j leads.follow
    have longer : ((cluster.servers j).follow elected grown).toApply.length =
        (cluster.servers j).toApply.length + grown.length := by
      simp [Server.toApply, Server.follow, Nat.add_assoc]
    omega

theorem Reaches.step {n : Nat} {deed : Deed ι} (reaches : cluster.Reaches states n)
    (answering : cluster.Answering options states)
    (taken : cluster.step options states deed = .ok next) : next.Reaches states n := by
  cases deed with
  | act i action runs =>
      obtain ⟨server, acted, taken⟩ := Runs.bind_ok.mp taken
      cases taken
      obtain ⟨-, r, -, -, stands⟩ := answering.caught i
      obtain ⟨grown, used, feeds⟩ := Server.act_feeds runs acted
      rw [feeds.log, List.drop_left]
      refine reaches.spread fun leads => ?_
      rcases leads.act stands (answering.paired i) runs acted with before | nothing
      · have reached := reaches.current i before
        have lengths := congrArg List.length feeds.toApply
        rw [List.length_append, List.length_append] at lengths
        omega
      · have reached := reaches.log
        rw [nothing, List.length_nil]
        omega
  | lose i =>
      cases taken
      refine reaches.spread fun leads => ?_
      have reached := reaches.current i leads.follow
      simpa [Server.toApply, Server.follow] using reached

theorem leaders_fresh {past rest : List (Deed ι)} {middle last : Cluster ι}
    (starts : cluster.Starts options)
    (gentle : Runs.Meets (step options states) (Receives Request.Gentle) cluster (past ++ rest))
    (calm : Runs.Meets (step options states) (Calm options states) cluster (past ++ rest))
    (reached : Runs.run (step options states) cluster past = .ok middle)
    (later : Runs.run (step options states) middle rest = .ok last) {i j : ι}
    (former : Server.Current states (middle.servers i))
    (latter : Server.Current states (last.servers j)) :
    ∃ done more, middle.log = done ++ (middle.servers i).toApply ∧
      last.log = done ++ more ++ (last.servers j).toApply ∧
      Runs.run (Replica.apply options) (Machine.stored (Store.freshDb options)) done =
        .ok (middle.servers i).machine.view ∧
      Runs.run (Replica.apply options) (Machine.stored (Store.freshDb options)) (done ++ more) =
        .ok (last.servers j).machine.view := by
  have guarded := Runs.meets_and _ _ _ cluster (past ++ rest) gentle calm
  obtain ⟨before, after⟩ := (Runs.meets_append _ _ _ _ _).mp guarded
  have answering := Runs.run_invariant (step options states) _ (Answering options states)
    (fun _ _ _ answering guarded taken => answering.step guarded.1 guarded.2 taken) cluster middle
    past (starts.answering states).1 before reached
  obtain ⟨one, r, split, applied, _, represents⟩ := answering.caught i
  have begins : middle.Reaches states one.length := by
    have whole := congrArg List.length split
    rw [List.length_append] at whole
    refine ⟨by omega, fun k leads => ?_⟩
    -- There is one leader only.
    cases answering.sole k i (Server.leader_of_not_behind leads.2)
      (Server.leader_of_not_behind former.2)
    exact whole.ge
  have ends := Runs.run_invariant (step options states) _
    (fun other => other.Answering options states ∧ other.Reaches states one.length ∧
      middle.log <+: other.log)
    (fun _ _ _ holds guarded taken => ⟨holds.1.step guarded.1 guarded.2 taken,
      holds.2.1.step holds.1 taken, holds.2.2.trans (step_log taken)⟩)
    middle last rest ⟨answering, begins, List.prefix_refl _⟩ (after middle reached) later
  obtain ⟨answering, reaches, tail, longer⟩ := ends
  obtain ⟨two, r', split', applied', _, represents'⟩ := answering.caught j
  have far : one.length ≤ two.length := by
    have reached := reaches.current j latter
    have whole := congrArg List.length split'
    rw [List.length_append] at whole
    omega
  have part : one <+: two := by
    refine List.prefix_of_prefix_length_le ?_ ⟨_, split'.symm⟩ far
    rw [← longer, split, List.append_assoc]
    exact List.prefix_append _ _
  obtain ⟨more, rfl⟩ := part
  refine ⟨one, more, split, split', ?_, ?_⟩
  · rw [represents.view]
    exact applied
  · rw [represents'.view]
    exact applied'

-- A session is registered with one leader, and then the other server leads.
def handing : List (Deed Bool) :=
  perform true (electing 7 0 ++ enrolling ++ [.deliver, .turn (.still 0) .command])

def taking : List (Deed Bool) := perform false (electing 8 2)

theorem leaders_fresh_taking : ∃ (middle last : Cluster Bool) (done more : List Request),
    (middle.servers true).machine.replies.length = 1 ∧
      middle.log = done ++ (middle.servers true).toApply ∧
      last.log = done ++ more ++ (last.servers false).toApply ∧
      Runs.run (Replica.apply Options.standard) (Machine.stored (Store.freshDb Options.standard))
        done = .ok (middle.servers true).machine.view ∧
      Runs.run (Replica.apply Options.standard) (Machine.stored (Store.freshDb Options.standard))
        (done ++ more) = .ok (last.servers false).machine.view := by
  have found : Runs.passes (Server.initial Options.standard (.still 0)) (fun first =>
      decide (Runs.Meets (step Options.standard .sample) (Receives Request.Gentle) (pair first)
        (handing ++ taking)) &&
      decide (Runs.Meets (step Options.standard .sample) (Calm Options.standard .sample)
        (pair first) (handing ++ taking)) &&
      Runs.passes (Runs.run (step Options.standard .sample) (pair first) handing) fun middle =>
        decide (Server.Current .sample (middle.servers true) ∧
          (middle.servers true).machine.replies.length = 1) &&
        Runs.passes (Runs.run (step Options.standard .sample) middle taking) fun last =>
          decide (Server.Current .sample (last.servers false))) = true := by
    decide +kernel
  simp only [Runs.passes_iff, Bool.and_eq_true, decide_eq_true_eq] at found
  obtain ⟨first, started, ⟨gentle, calm⟩, middle, reached, ⟨former, single⟩, last, later, latter⟩ :=
    found
  exact ⟨middle, last, _, _, single, (leaders_fresh ⟨rfl, fun _ => ⟨_, first, 0, started, rfl⟩⟩
    gentle calm reached later former latter).choose_spec.choose_spec⟩

end Cluster

end Pyxis
