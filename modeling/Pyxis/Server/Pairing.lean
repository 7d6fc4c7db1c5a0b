import Pyxis.Replica.Steps

set_option autoImplicit false

namespace Pyxis.Server

def Aligned (server : Server) : Prop :=
  ∃ pushes : List Push, server.requests = pushes.map Prod.fst ∧
    server.cmdch ++ server.raft.pending = pushes.map Push.entry ∧
    ∀ push ∈ pushes, Produces push.1 push.2

def Awaits (server : Server) : Prop :=
  ∃ earlier, server.cmdch ++ server.raft.pending =
      earlier ++ [⟨Request.tagged server.tag, none⟩] ∧
    ∀ entry ∈ earlier, ¬ EndsWait server entry

def Behind (states : RaftStates) (server : Server) : Prop :=
  -- Raft has lost its leadership, or has notified of something that `statech_` still holds.
  server.raft.leader = false ∨ ∃ st ∈ server.statech, st ≠ states.stop

instance (states : RaftStates) (server : Server) : Decidable (Behind states server) :=
  inferInstanceAs (Decidable (_ ∨ _))

structure Paired (states : RaftStates) (server : Server) : Prop where
  cleared : server.raft.leader = true →
    server.state = .waiter ∨ server.state = .follower ∨ (∃ st ∈ server.statech, st ≠ states.stop) →
    server.requests = []
  aligned : server.state = .leader → ¬ Behind states server → Aligned server
  awaited : server.state = .waiter → server.inLoop = true → ¬ Behind states server → Awaits server

-- A leader that is behind raft applies no command, and queues no request once raft leads again.
-- A server that starts to wait finds no command that ends its wait.
def Calm (options : Options) (states : RaftStates) (action : Action) (server : Server) : Prop :=
  match action with
  | .turn env ready =>
      (server.state = .leader → Behind states server → server.applies ready = none ∧
        (server.raft.leader = true → ¬ Enqueues options env ready server)) ∧
      (server.state = .waiter → server.inLoop = false → ¬ Behind states server →
        ∀ entry ∈ server.cmdch ++ server.raft.pending,
          ¬ (entry.cmd.ping = true ∧ entry.cmd.sid = UInt64.ofInt (env.clock 0)))
  | _ => True

def Pairs (action : Action) (server : Server) : Prop :=
  ∀ cmd, action.applies server = some cmd → server.state = .leader →
    ∃ e more entry rest, server.requests = e :: more ∧ server.cmdch = entry :: rest ∧
      entry = ⟨cmd, some e.id⟩ ∧ Produces e cmd

variable {options : Options} {states : RaftStates} {env : Env} {server after : Server}

theorem nextState_ne_leader (state : State) (st : Int) : nextState states state st ≠ .leader := by
  unfold nextState
  split_ifs
  · simp
  · cases state <;> simp
  · cases state <;> simp

theorem leader_of_not_behind (current : ¬ Behind states server) : server.raft.leader = true := by
  by_contra follows
  exact current (.inl (by simpa using follows))

theorem awaits_replicate (current : ¬ Behind states server)
    (fresh : ∀ entry ∈ server.cmdch ++ server.raft.pending,
      ¬ (entry.cmd.ping = true ∧ entry.cmd.sid = UInt64.ofInt (env.clock 0))) :
    Awaits (replicate (Request.tagged (UInt64.ofInt (env.clock 0))) none
      { server with inLoop := true, tag := UInt64.ofInt (env.clock 0) }) := by
  -- The ping goes behind everything that is still to be applied.
  refine ⟨server.cmdch ++ server.raft.pending, ?_, fun entry member => ?_⟩
  · simp [leader_of_not_behind current]
  · simpa [EndsWait] using fresh entry member

namespace Awaits

variable {entry : Entry} {rest : List Entry}

theorem congr (awaits : Awaits server) (tag : after.tag = server.tag)
    (queue : after.cmdch ++ after.raft.pending = server.cmdch ++ server.raft.pending) :
    Awaits after := by
  rw [Awaits, queue]
  simp only [EndsWait, tag]
  exact awaits

theorem command (awaits : Awaits server) (queue : server.cmdch = entry :: rest)
    (waits : ¬ EndsWait server entry) : Awaits { server with cmdch := rest } := by
  obtain ⟨earlier, same, before⟩ := awaits
  rw [queue] at same
  cases earlier with
  | nil =>
      have last : entry = ⟨Request.tagged server.tag, none⟩ := (List.cons.inj same).1
      exact absurd ⟨by rw [last]; rfl, by rw [last]; rfl⟩ waits
  | cons head earlier =>
      exact ⟨earlier, (List.cons.inj same).2,
        fun other member => before other (List.mem_cons_of_mem _ member)⟩

theorem nothing_left (awaits : Awaits server) (queue : server.cmdch = entry :: rest)
    (ends : EndsWait server entry) : rest ++ server.raft.pending = [] := by
  obtain ⟨earlier, same, before⟩ := awaits
  rw [queue] at same
  cases earlier with
  | nil => exact (List.cons.inj same).2
  | cons head earlier =>
      have first : entry = head := (List.cons.inj same).1
      exact absurd (first ▸ ends) (before head (by simp))

end Awaits

namespace Paired

theorem congr (paired : Paired states server) (state : after.state = server.state)
    (inLoop : after.inLoop = server.inLoop) (tag : after.tag = server.tag)
    (requests : after.requests = server.requests) (statech : after.statech = server.statech)
    (leader : after.raft.leader = server.raft.leader)
    (queue : after.cmdch ++ after.raft.pending = server.cmdch ++ server.raft.pending) :
    Paired states after := by
  refine ⟨?_, ?_, ?_⟩
  · rw [leader, state, statech, requests]
    exact paired.cleared
  · rw [state, Behind, leader, statech, Aligned, requests, queue]
    exact paired.aligned
  · rw [state, inLoop, Behind, leader, statech]
    exact fun role looping current => (paired.awaited role looping current).congr tag queue

theorem deliver (paired : Paired states server) : Paired states server.deliver := by
  unfold Server.deliver
  cases queue : server.raft.pending with
  | nil => exact paired
  | cons entry rest =>
      exact paired.congr rfl rfl rfl rfl rfl rfl (by simp [onSynced, queue])

theorem of_unled (follows : server.raft.leader = false) : Paired states server where
  cleared leads := by simp [follows] at leads
  aligned _ current := absurd (.inl follows) current
  awaited _ _ current := absurd (.inl follows) current

theorem accept (paired : Paired states server) (kept : Nat) (cmds : List Request) :
    Paired states (server.accept kept cmds) := by
  -- Only a raft that follows has its log replaced.
  unfold Server.accept
  split
  · exact paired
  next following => exact of_unled (by simpa using following)

theorem notify (st : Int) : Paired states (server.notify states st) := by
  by_cases elected : st = states.leader
  · have behind : Behind states (server.notify states st) :=
      .inr ⟨st, by simp [Server.notify, onState], elected ▸ states.distinct⟩
    exact ⟨fun _ _ => rfl, fun _ current => absurd behind current,
      fun _ _ current => absurd behind current⟩
  · exact of_unled (by simp [Server.notify, onState, elected])

theorem stop (paired : Paired states server) :
    Paired states { server with statech := server.statech ++ [states.stop] } := by
  -- A stop that this server asked for does not touch `requests_`.
  have unread : (∃ st ∈ server.statech ++ [states.stop], st ≠ states.stop) ↔
      ∃ st ∈ server.statech, st ≠ states.stop := by
    simp [or_and_right]
  have same : Behind states { server with statech := server.statech ++ [states.stop] } ↔
      Behind states server := or_congr_right unread
  exact ⟨fun leads role => paired.cleared leads (role.imp_right (Or.imp_right unread.mp)),
    fun role current => paired.aligned role (mt same.mpr current),
    fun role inLoop current => paired.awaited role inLoop (mt same.mpr current)⟩

theorem advances {pushes : List Push} (paired : Paired states server)
    (leads : server.state = .leader) (advances : Advances server after pushes)
    (still : Behind states server → server.raft.leader = true →
      after.requests = server.requests) : Paired states after where
  cleared leader role := by
    rw [advances.leader] at leader
    rw [advances.state, advances.statech, leads] at role
    have unread : ∃ st ∈ server.statech, st ≠ states.stop := by simpa using role
    rw [still (.inr unread) leader]
    exact paired.cleared leader (.inr (.inr unread))
  aligned _ current := by
    rw [Behind, advances.leader, advances.statech] at current
    obtain ⟨earlier, requests, queue, produced⟩ := paired.aligned leads current
    refine ⟨earlier ++ pushes, ?_, ?_, fun push member => ?_⟩
    · rw [advances.requests, requests, List.map_append]
    · rw [advances.cmdch, advances.pending, leader_of_not_behind current, if_pos rfl,
        ← List.append_assoc, queue, List.map_append]
    · rcases List.mem_append.mp member with old | new
      · exact produced push old
      · exact advances.produced push new
  awaited role := by
    rw [advances.state, leads] at role
    cases role

theorem await (paired : Paired states server) (waits : server.state = .waiter)
    (fresh : ¬ Behind states server → ∀ entry ∈ server.cmdch ++ server.raft.pending,
      ¬ (entry.cmd.ping = true ∧ entry.cmd.sid = UInt64.ofInt (env.clock 0))) :
    Paired states (replicate (Request.tagged (UInt64.ofInt (env.clock 0))) none
      { server with inLoop := true, tag := UInt64.ofInt (env.clock 0) }) where
  cleared := by simpa using paired.cleared
  aligned role := by simp [waits] at role
  awaited _ _ current := by
    have current : ¬ Behind states server := by simpa [Behind] using current
    exact awaits_replicate current (fresh current)

theorem command {entry : Entry} {rest : List Entry} (paired : Paired states server)
    (queue : server.cmdch = entry :: rest)
    (waits : server.state = .waiter → ¬ EndsWait server entry)
    (current : server.state = .leader → ¬ Behind states server)
    (applied : onCommand options env entry.cmd { server with cmdch := rest } = .ok after) :
    Paired states after := by
  obtain ⟨rep, m, -, ⟨other, rfl⟩ | ⟨e, more, leads, front, rfl⟩⟩ := onCommand_ok applied
  · exact ⟨paired.cleared, fun role => absurd role other, fun role inLoop reads =>
      (paired.awaited role inLoop reads).command queue (waits role)⟩
  · have leads : server.state = .leader := leads
    have front : server.requests = e :: more := front
    have current := current leads
    obtain ⟨pushes, requests, same, produced⟩ := paired.aligned leads current
    refine ⟨fun _ role => ?_, fun _ _ => ?_, fun role => ?_⟩
    · have role : server.state = .waiter ∨ server.state = .follower ∨
        (∃ st ∈ server.statech, st ≠ states.stop) := role
      rw [leads] at role
      exact absurd (.inr (by simpa using role)) current
    · rw [front] at requests
      rw [queue] at same
      cases pushes with
      | nil => cases requests
      | cons push pushes =>
          exact ⟨pushes, (List.cons.inj requests).2, (List.cons.inj same).2,
            fun other member => produced other (List.mem_cons_of_mem _ member)⟩
    · cases leads.symm.trans role

theorem lead {entry : Entry} {rest : List Entry} (paired : Paired states server)
    (waits : server.state = .waiter) (inLoop : server.inLoop = true)
    (queue : server.cmdch = entry :: rest) (ends : EndsWait server entry) :
    Paired states { server with cmdch := rest, state := .leader, inLoop := false } where
  cleared leads _ := paired.cleared leads (.inl waits)
  aligned _ current := by
    -- When the ping comes back nothing is left to be applied.
    have current : ¬ Behind states server := current
    exact ⟨[], paired.cleared (leader_of_not_behind current) (.inl waits),
      (paired.awaited waits inLoop current).nothing_left queue ends, by simp⟩
  awaited role := by cases role

theorem change {st : Int} {rest : List Int} (paired : Paired states server)
    (queue : server.statech = st :: rest) (inLoop : Bool)
    (fresh : nextState states server.state st = .waiter → inLoop = false) :
    Paired states
      { server with
        statech := rest, state := nextState states server.state st, inLoop := inLoop } where
  cleared leads role := by
    refine paired.cleared leads (.inr (.inr ?_))
    have unread (notStop : nextState states server.state st ≠ .stop) :
        ∃ st ∈ server.statech, st ≠ states.stop := by
      refine ⟨st, by simp [queue], ?_⟩
      rintro rfl
      simp [nextState] at notStop
    rcases role with waits | follows | ⟨other, member, notStop⟩
    · exact unread (by simp [show nextState states server.state st = .waiter from waits])
    · exact unread (by simp [show nextState states server.state st = .follower from follows])
    · exact ⟨other, by rw [queue]; exact List.mem_cons_of_mem _ member, notStop⟩
  aligned role := absurd role (nextState_ne_leader server.state st)
  awaited role looping := by
    have entering : inLoop = true := looping
    rw [fresh role] at entering
    cases entering

theorem turn {ready : Ready} {next : Server} (paired : Paired states server)
    (wf : server.machine.sm.WellFormed) (calm : Calm options states (.turn env ready) server)
    (taken : server.turn options states env ready = .ok next) : Paired states next := by
  obtain ⟨calm, fresh⟩ := calm
  cases turn_cases wf taken with
  | advance pushes leads noCommand advances _ _ _ still =>
      exact paired.advances leads advances fun behind leader =>
        still ((calm leads behind).2 leader)
  | idle noCommand advances _ waits =>
      by_cases waiting : server.state = .waiter
      · rw [waits waiting]
        exact paired
      · by_cases leads : server.state = .leader
        · exact paired.advances leads advances fun _ _ => by simp [advances.requests]
        · refine ⟨?_, fun role => ?_, fun role => ?_⟩
          · simpa [advances.leader, advances.state, advances.statech, advances.requests]
              using paired.cleared
          · exact absurd (advances.state.symm.trans role) leads
          · exact absurd (advances.state.symm.trans role) waiting
  | await waits first => exact paired.await waits (fresh waits first)
  | command entry rest applying queue waits applied =>
      refine paired.command queue waits (fun leads behind => ?_) applied
      rw [(calm leads behind).1] at applying
      cases applying
  | lead entry rest noCommand _ waits inLoop queue ends => exact paired.lead waits inLoop queue ends
  | change st rest inLoop noCommand queue fresh => exact paired.change queue inLoop fresh

theorem act {action : Action} {next : Server} (paired : Paired states server)
    (reachable : Reachable options states server) (calm : Calm options states action server)
    (taken : server.act options states action = .ok next) : Paired states next := by
  obtain ⟨r, stands⟩ := reachable_stands reachable
  cases action with
  | receive req =>
      cases taken
      exact paired.congr rfl rfl rfl rfl rfl rfl rfl
  | notify st =>
      cases taken
      exact notify st
  | stop =>
      cases taken
      exact paired.stop
  | deliver =>
      cases taken
      exact paired.deliver
  | accept kept cmds =>
      cases taken
      exact paired.accept kept cmds
  | turn env ready => exact paired.turn stands.wellFormed calm taken
  | restart env =>
      obtain ⟨-, -, -, unled⟩ := act_restart stands taken
      exact of_unled unled

theorem pairs {action : Action} (paired : Paired states server)
    (calm : Calm options states action server) : Pairs action server := by
  intro cmd applying leads
  cases action with
  | turn env ready =>
      have current : ¬ Behind states server := fun behind =>
        absurd ((calm.1 leads behind).1.symm.trans applying) nofun
      obtain ⟨pushes, requests, queue, produced⟩ := paired.aligned leads current
      obtain ⟨entry, rest, front, rfl⟩ := applies_some applying
      rw [front] at queue
      cases pushes with
      | nil => cases queue
      | cons push pushes =>
          have same : entry = push.entry := (List.cons.inj queue).1
          have cmd : entry.cmd = push.2 := by rw [same]; rfl
          exact ⟨push.1, pushes.map Prod.fst, entry, rest, requests, front, by rw [cmd, same]; rfl,
            cmd ▸ produced push (by simp)⟩
  | _ => cases applying

end Paired

theorem paired_initial {first : Server} (started : initial options env = .ok first) :
    Paired states first := by
  obtain ⟨other, -, begun, -, -, -, -, -, -, -, -, raft⟩ := initial_ok options env
  rw [begun] at started
  cases started
  exact .of_unled (by rw [raft])

theorem requests_paired {first : Server} {actions : List Action}
    (started : initial options env = .ok first)
    (calm : Runs.Meets (act options states) (Calm options states) first actions) :
    Runs.Meets (act options states) Pairs first actions :=
  Runs.meets_invariant (act options states) (Calm options states) Pairs
    (fun server => Reachable options states server ∧ Paired states server)
    (fun _ _ _ holds calm taken => ⟨holds.1.act taken, holds.2.act holds.1 calm taken⟩)
    (fun _ _ holds calm => holds.2.pairs calm)
    first actions ⟨⟨env, first, [], started, rfl⟩, paired_initial started⟩ calm

instance (options : Options) (states : RaftStates) (action : Action) (server : Server) :
    Decidable (Calm options states action server) :=
  match action with
  | .turn _ _ => inferInstanceAs (Decidable ((_ → _ → _ ∧ (_ → _)) ∧ (_ → _ → _ → _)))
  | .receive _ | .notify _ | .stop | .deliver | .accept _ _ | .restart _ => .isTrue trivial

theorem requests_paired_registered :
    ∃ first, initial Options.standard (.still 0) = .ok first ∧
      Runs.Meets (act Options.standard .sample) Pairs first
        (admitting ++ [.turn (.still 0) .command]) := by
  have found : Runs.passes (initial Options.standard (.still 0)) (fun first =>
      decide (Runs.Meets (act Options.standard .sample) (Calm Options.standard .sample) first
        (admitting ++ [.turn (.still 0) .command]))) = true := by
    decide +kernel
  simp only [Runs.passes_iff, decide_eq_true_eq] at found
  obtain ⟨first, started, calm⟩ := found
  exact ⟨first, started, requests_paired started calm⟩

theorem requests_unpaired :
    ∃ first, initial Options.standard (.still 0) = .ok first ∧
      Runs.run (act Options.standard .sample) first
        (admitting ++ [.notify 0, .turn (.still 0) .command]) = .error .requestsEmpty := by
  -- Raft notifies that it no longer leads while a command is queued: `onState` empties
  -- `requests_`, and the next command fails the assertion.
  have found : Runs.passes (initial Options.standard (.still 0)) (fun first =>
      decide (Runs.run (act Options.standard .sample) first
        (admitting ++ [.notify 0, .turn (.still 0) .command]) =
          .error .requestsEmpty)) = true := by
    decide +kernel
  simp only [Runs.passes_iff, decide_eq_true_eq] at found
  exact found

end Pyxis.Server
