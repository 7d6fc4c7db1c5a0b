import Pyxis.Replica.Ownership

set_option autoImplicit false

namespace Pyxis.Server

def Closing (server : Server) (sid : Sid) : Prop :=
  ∃ p, server.machine.sm.get sid = some p ∧ (server.machine.sm.deref p).active = false

instance (server : Server) (sid : Sid) : Decidable (Closing server sid) :=
  decidable_of_iff ((server.machine.sm.get sid).any fun p =>
    !(server.machine.sm.deref p).active) (by simp [Closing, Option.any_eq_true])

def Announces (sid : Sid) (entry : Entry) : Prop :=
  -- An unregister of the session that this server has broadcast.
  entry.origin.isSome = true ∧ entry.cmd.body = .unregister ∧ entry.cmd.sid = sid

instance (sid : Sid) (entry : Entry) : Decidable (Announces sid entry) :=
  inferInstanceAs (Decidable (_ ∧ _))

def Announced (server : Server) : Prop :=
  ∀ sid, Closing server sid → ∃ entry ∈ server.cmdch ++ server.raft.pending, Announces sid entry

def Spares (server : Server) (dropped left : List Entry) : Prop :=
  ∀ entry ∈ dropped, Closing server entry.cmd.sid → Announces entry.cmd.sid entry →
    ∃ other ∈ left, Announces entry.cmd.sid other

instance (server : Server) (dropped left : List Entry) : Decidable (Spares server dropped left) :=
  inferInstanceAs (Decidable (∀ entry ∈ dropped, _))

-- While raft does not lead, `Step` finds no session to close. Neither a new leader's log nor
-- the end of a wait drops the last unregister that a closing session waits for.
def Lasting (action : Action) (server : Server) : Prop :=
  match action with
  | .turn env ready =>
      (server.raft.leader = false → ∀ p ∈ expiring env ready server,
        (server.machine.sm.deref p).active = false) ∧
      (server.state = .waiter → server.inLoop = true → ready = .command →
        ∀ entry ∈ server.cmdch.head?, EndsWait server entry →
          Spares server [entry] (server.cmdch.tail ++ server.raft.pending))
  | .accept kept _ =>
      server.raft.leader = false →
        Spares server (server.raft.pending.drop kept)
          (server.cmdch ++ server.raft.pending.take kept)
  | _ => True

instance (action : Action) (server : Server) : Decidable (Lasting action server) :=
  match action with
  | .turn _ _ => inferInstanceAs (Decidable ((_ → _) ∧ (_ → _ → _ → _)))
  | .accept _ _ => inferInstanceAs (Decidable (_ → _))
  | .receive _ | .notify _ | .stop | .deliver | .restart _ => .isTrue trivial

variable {options : Options} {states : RaftStates} {env : Env} {server after : Server}

namespace Announced

theorem weaken (announced : Announced server)
    (fewer : ∀ sid, Closing after sid → Closing server sid)
    (queue : ∀ entry ∈ server.cmdch ++ server.raft.pending,
      entry ∈ after.cmdch ++ after.raft.pending) :
    Announced after := by
  intro sid closing
  obtain ⟨entry, member, announces⟩ := announced sid (fewer sid closing)
  exact ⟨entry, queue entry member, announces⟩

theorem spared {dropped left : List Entry} (announced : Announced server)
    (spares : Spares server dropped left)
    (split : ∀ entry ∈ server.cmdch ++ server.raft.pending, entry ∈ dropped ∨ entry ∈ left)
    {sid : Sid} (closing : Closing server sid) : ∃ entry ∈ left, Announces sid entry := by
  obtain ⟨entry, member, announces⟩ := announced sid closing
  rcases split entry member with gone | stays
  · obtain ⟨-, -, rfl⟩ := id announces
    exact spares entry gone closing announces
  · exact ⟨entry, stays, announces⟩

theorem quiet (announced : Announced server) (quiet : Machine.Quiet server.machine after.machine)
    (queue : ∀ entry ∈ server.cmdch ++ server.raft.pending,
      entry ∈ after.cmdch ++ after.raft.pending) :
    Announced after := by
  refine announced.weaken (fun sid closing => ?_) queue
  obtain ⟨p, live, inactive⟩ := closing
  rw [SessionManager.get, quiet.sm.sessions] at live
  have same : (after.machine.sm.deref p).active = (server.machine.sm.deref p).active :=
    congrArg (·.2.1) (quiet.sm.deref p)
  exact ⟨p, live, same ▸ inactive⟩

theorem deliver (announced : Announced server) : Announced server.deliver := by
  unfold Server.deliver
  cases queue : server.raft.pending with
  | nil => exact announced
  | cons entry rest =>
      exact announced.weaken (fun _ closing => closing) (by simp [onSynced, queue])

theorem accept (announced : Announced server) (kept : Nat) (cmds : List Request)
    (lasting : Lasting (.accept kept cmds) server) : Announced (server.accept kept cmds) := by
  unfold Server.accept
  split
  · exact announced
  next following =>
    intro sid closing
    obtain ⟨entry, member, announces⟩ := announced.spared (lasting (by simpa using following))
      (fun entry member => by
        rw [← List.take_append_drop kept server.raft.pending] at member
        simp only [List.mem_append] at member ⊢
        tauto) closing
    refine ⟨entry, ?_, announces⟩
    rw [← List.append_assoc]
    exact List.mem_append_left _ member

theorem advances {pushes : List Push} (announced : Announced server)
    (wf : server.machine.sm.WellFormed) (advances : Advances server after pushes)
    (leads : server.raft.leader = true) : Announced after := by
  rintro sid ⟨p, live, inactive⟩
  rw [SessionManager.get, advances.sessions] at live
  obtain ⟨stored, same⟩ := SessionManager.get_deref _ wf sid p live
  obtain ⟨other, present, -, -, active⟩ := advances.objects p _ stored
  rw [SessionManager.deref, present, Option.getD_some] at inactive
  rw [advances.cmdch, advances.pending, leads, if_pos rfl]
  rcases active with still | ⟨-, push, member, cmd⟩
  · obtain ⟨entry, queued, announces⟩ := announced sid ⟨p, live, still ▸ inactive⟩
    exact ⟨entry, by rw [← List.append_assoc]; exact List.mem_append_left _ queued, announces⟩
  · refine ⟨push.entry, ?_, rfl, ?_, ?_⟩
    · exact List.mem_append_right _ (List.mem_append_right _ (List.mem_map_of_mem member))
    · rw [Push.entry, cmd]
      rfl
    · rw [Push.entry, cmd, same]
      rfl

theorem command {entry : Entry} {rest : List Entry} {r : Replica} (announced : Announced server)
    (stands : Stands options server r) (queue : server.cmdch = entry :: rest)
    (applied : onCommand options env entry.cmd { server with cmdch := rest } = .ok after) :
    Announced after := by
  obtain ⟨frame, represents⟩ := stands
  have tight : Machine.Represents options ⟨frame.commit, Closing server⟩
      { server with cmdch := rest }.machine r := by
    refine ⟨represents.view, represents.sm, represents.keyed, represents.commit,
      fun sid p live other => ?_, represents.coherent⟩
    by_contra inactive
    exact other ⟨p, live, by simpa using inactive⟩
  obtain ⟨next, done, holds⟩ := represents_onCommand tight applied
  obtain ⟨-, cmdch, raft⟩ := onCommand_frame applied
  rintro sid ⟨p, live, inactive⟩
  have closing : Closing server sid := by
    by_contra other
    rw [holds.active sid p live other] at inactive
    cases inactive
  obtain ⟨announcing, member, announces⟩ := announced sid closing
  rw [cmdch, raft]
  rw [queue, List.cons_append, List.mem_cons] at member
  rcases member with rfl | member
  · obtain ⟨-, body, rfl⟩ := announces
    simp only [Replica.apply, body] at done
    have gone := Replica.close_dead represents.coherent.closed done
    rw [(holds.get_none _).mpr gone] at live
    cases live
  · exact ⟨announcing, member, announces⟩

theorem turn {ready : Ready} {next : Server} {r : Replica} (announced : Announced server)
    (stands : Stands options server r) (lasting : Lasting (.turn env ready) server)
    (taken : server.turn options states env ready = .ok next) : Announced next := by
  obtain ⟨spared, ends⟩ := lasting
  cases turn_cases stands.wellFormed taken with
  | advance pushes leads noCommand advances _ _ quiet _ =>
      cases leader : server.raft.leader with
      | true => exact announced.advances stands.wellFormed advances leader
      | false =>
          refine announced.quiet (quiet (spared leader)) fun entry member => ?_
          rw [advances.cmdch, advances.pending, leader]
          simpa using member
  | idle noCommand advances _ waits =>
      refine announced.weaken (fun sid closing => ?_) fun entry member => ?_
      · obtain ⟨p, live, inactive⟩ := closing
        rw [SessionManager.get, advances.sessions] at live
        obtain ⟨stored, -⟩ := SessionManager.get_deref _ stands.wellFormed sid p live
        obtain ⟨other, present, -, -, still | ⟨-, push, none, -⟩⟩ := advances.objects p _ stored
        · rw [SessionManager.deref, present, Option.getD_some] at inactive
          exact ⟨p, live, still ▸ inactive⟩
        · cases none
      · rw [advances.cmdch, advances.pending]
        simpa using member
  | await waits first =>
      refine announced.weaken (fun sid closing => by simpa [Closing] using closing)
        fun entry member => ?_
      simp only [replicate_cmdch, replicate_pending, ← List.append_assoc]
      exact List.mem_append_left _ member
  | command entry rest applying queue waits applied =>
      exact announced.command stands queue applied
  | lead entry rest noCommand chosen waits inLoop queue ending =>
      rintro sid closing
      have spares := ends waits inLoop chosen entry (by simp [queue]) ending
      rw [queue, List.tail_cons] at spares
      exact announced.spared spares (fun other member => by simpa [queue] using member) closing
  | change st rest inLoop noCommand queue fresh =>
      exact announced.weaken (fun _ closing => closing) fun _ member => member

theorem act {action : Action} {next : Server} (announced : Announced server)
    (reachable : Reachable options states server) (lasting : Lasting action server)
    (taken : server.act options states action = .ok next) : Announced next := by
  obtain ⟨r, stands⟩ := reachable_stands reachable
  cases action with
  | receive req =>
      cases taken
      exact announced.weaken (fun _ closing => closing) fun _ member => member
  | notify st =>
      cases taken
      exact announced.quiet
        (onState_tends options server.state st _ stands.wellFormed).quiet fun _ member => member
  | stop =>
      cases taken
      exact announced.weaken (fun _ closing => closing) fun _ member => member
  | deliver =>
      cases taken
      exact announced.deliver
  | accept kept cmds =>
      cases taken
      exact announced.accept kept cmds lasting
  | turn env ready => exact announced.turn stands lasting taken
  | restart env =>
      obtain ⟨_, holds, -⟩ := act_restart stands taken
      rintro sid ⟨p, live, inactive⟩
      rw [holds.active sid p live id] at inactive
      cases inactive

end Announced

theorem announced_initial {first : Server} (started : initial options env = .ok first) :
    Announced first := by
  obtain ⟨other, r, begun, ⟨_, represents⟩, reloaded, -⟩ := initial_ok options env
  rw [begun] at started
  cases started
  rintro sid ⟨p, live, -⟩
  rw [reloaded_fresh reloaded] at represents
  rw [(represents.get_none sid).mpr rfl] at live
  cases live

theorem closing_announced {first : Server} {actions : List Action}
    (started : initial options env = .ok first)
    (lasting : Runs.Meets (act options states) Lasting first actions) :
    Runs.Throughout (act options states)
      (fun server => server.state = .leader → Announced server) first actions :=
  Runs.throughout_invariant (act options states) Lasting
    (fun server => Reachable options states server ∧ Announced server)
    (fun server => server.state = .leader → Announced server)
    (fun _ _ _ holds lasting taken => ⟨holds.1.act taken, holds.2.act holds.1 lasting taken⟩)
    (fun _ holds _ => holds.2) first actions
    ⟨⟨env, first, [], started, rfl⟩, announced_initial started⟩ lasting

def lapse : Action := .turn (.still 100000000) .timer

theorem closing_announced_lapse :
    ∃ first last, initial Options.standard (.still 0) = .ok first ∧
      Runs.run (act Options.standard .sample) first (joined ++ [lapse]) = .ok last ∧
      Closing last 1 ∧ Runs.Throughout (act Options.standard .sample)
        (fun server => server.state = .leader → Announced server) first (joined ++ [lapse]) := by
  have found : Runs.passes (initial Options.standard (.still 0)) (fun first =>
      Runs.passes (Runs.run (act Options.standard .sample) first (joined ++ [lapse])) fun last =>
      decide (Closing last 1 ∧
        Runs.Meets (act Options.standard .sample) Lasting first (joined ++ [lapse]))) = true := by
    decide +kernel
  simp only [Runs.passes_iff, decide_eq_true_eq] at found
  obtain ⟨first, started, last, reached, closing, lasting⟩ := found
  exact ⟨first, last, started, reached, closing, closing_announced started lasting⟩

theorem closing_unannounced :
    ∃ server, Reachable Options.standard .sample server ∧ server.state = .leader ∧
      Closing server 1 ∧ server.cmdch ++ server.raft.pending = [] ∧ ¬ Announced server := by
  -- Raft has lost its leadership, which the main loop has not read yet, when the timer goes off:
  -- the session is marked, and no unregister is logged.
  obtain ⟨server, reachable, leads, closing, empty⟩ := exists_reachable Options.standard .sample
    (.still 0) (joined ++ [.notify 0, lapse]) (fun server => server.state = .leader ∧
      Closing server 1 ∧ server.cmdch ++ server.raft.pending = []) (by decide +kernel)
  refine ⟨server, reachable, leads, closing, empty, fun announced => ?_⟩
  obtain ⟨entry, member, -⟩ := announced 1 closing
  rw [empty] at member
  cases member

end Pyxis.Server
