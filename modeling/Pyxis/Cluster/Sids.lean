import Mathlib.Data.List.Nodup
import Pyxis.Replica.Reach
import Pyxis.Server.Pairing

set_option autoImplicit false

namespace Pyxis

def Request.registered? (req : Request) : Option Sid :=
  if req.register.isSome then some req.sid else none

def registers (cmds : List Request) : List Sid := cmds.filterMap Request.registered?

def Action.isLocal : Action → Bool
  | .accept _ _ | .restart _ => false
  | _ => true

theorem Action.isRestart_of_isLocal {action : Action} (runs : action.isLocal = true) :
    action.isRestart = false := by
  cases action with
  | restart => cases runs
  | _ => rfl

def Action.elects (states : RaftStates) : Action → Bool
  | .notify st => st = states.leader
  | _ => false

namespace Server

def log (server : Server) : List Request :=
  (server.raft.delivered ++ server.raft.pending).map Entry.cmd

def toApply (server : Server) : List Request :=
  (server.cmdch ++ server.raft.pending).map Entry.cmd

-- What raft on the other servers makes of an election or of a longer log.
def follow (elected : Bool) (grown : List Request) (server : Server) : Server :=
  { server with
    raft := { server.raft with
      leader := server.raft.leader && !elected
      pending := server.raft.pending ++ grown.map fun cmd => ⟨cmd, none⟩ } }

def withSid (sid : Sid) (server : Server) : Server :=
  server.onMachine { server.machine with sm := { server.machine.sm with sid := sid } }

end Server

structure Cluster (ι : Type) where
  servers : ι → Server
  log : List Request

inductive Deed (ι : Type) where
  | act (i : ι) (action : Action) (runs : action.isLocal = true)
  -- Raft no longer leads, and has not notified its server yet.
  | lose (i : ι)

namespace Cluster

variable {ι : Type} [DecidableEq ι]

/-- Raft keeps one log: what a server adds to it, the others are delivered too. An election takes
the leadership from whoever had it. -/
def spread (i : ι) (server : Server) (elected : Bool) (grown : List Request)
    (cluster : Cluster ι) : Cluster ι where
  servers j := if j = i then server else (cluster.servers j).follow elected grown
  log := cluster.log ++ grown

def step (options : Options) (states : RaftStates) (deed : Deed ι) (cluster : Cluster ι) :
    Except Fault (Cluster ι) :=
  match deed with
  | .act i action _ => do
      let server ← (cluster.servers i).act options states action
      return cluster.spread i server (action.elects states)
        (server.log.drop (cluster.servers i).log.length)
  | .lose i => .ok (cluster.spread i ((cluster.servers i).follow true []) false [])

omit [DecidableEq ι] in
structure Starts (options : Options) (cluster : Cluster ι) : Prop where
  log : cluster.log = []
  servers : ∀ i, ∃ env first sid, Server.initial options env = .ok first ∧
    cluster.servers i = first.withSid sid

end Cluster

namespace Server

variable (states : RaftStates)

-- The turn takes a register without a sid from `eventch_`.
def Issues (ready : Ready) (server : Server) : Prop :=
  server.state = .leader ∧ server.inLoop = true ∧ ready = .event ∧
    ∃ e ∈ server.eventch.head?, e.req.register.isSome = true ∧ e.req.sid? = none

instance (ready : Ready) (server : Server) : Decidable (Issues ready server) :=
  inferInstanceAs (Decidable (_ ∧ _))

-- A leader hands out a sid in the log only when it has read all that raft notified it of, and a
-- server that starts to wait finds no command that ends its wait.
def UpToDate (action : Action) (server : Server) : Prop :=
  match action with
  | .turn env ready =>
      (Issues ready server → server.raft.leader = true → ∀ st ∈ server.statech, st = states.stop) ∧
      (server.state = .waiter → server.inLoop = false → ¬ Behind states server →
        ∀ entry ∈ server.cmdch ++ server.raft.pending,
          ¬ (entry.cmd.ping = true ∧ entry.cmd.sid = UInt64.ofInt (env.clock 0)))
  | _ => True

def Counts (action : Action) (server : Server) : Prop :=
  match action with
  | .turn _ ready => Issues ready server → server.machine.sm.sid.toNat + 1 < UInt64.size
  | _ => True

end Server

theorem mem_registers {cmds : List Request} {sid : Sid} :
    sid ∈ registers cmds ↔ ∃ cmd ∈ cmds, cmd.register.isSome = true ∧ cmd.sid = sid := by
  simp [registers, Request.registered?]

@[simp] theorem registers_append (one two : List Request) :
    registers (one ++ two) = registers one ++ registers two := List.filterMap_append

theorem registers_eq_nil {cmds : List Request} :
    registers cmds = [] ↔ ∀ cmd ∈ cmds, cmd.register.isSome = false := by
  simp [registers, Request.registered?]

theorem sid_lt_next (sid : Sid) (room : sid.toNat + 1 < UInt64.size) : sid < sid + 1 := by
  rw [UInt64.lt_iff_toNat_lt, UInt64.toNat_add, UInt64.toNat_one, Nat.mod_eq_of_lt room]
  exact Nat.lt_succ_self _

namespace Machine

variable {options : Options} {state : State} {permits : Permits} {m after : Machine}

theorem Move.sid_le (move : Move options state permits m after) (silent : ¬ permits.issues) :
    m.sm.sid ≤ after.sm.sid := by
  have told {after : Machine} (told : Told m after) : m.sm.sid ≤ after.sm.sid :=
    UInt64.le_of_eq told.sid.symm
  cases move with
  | watch req => exact told (onWatch_told req m)
  | triger e after done => exact told (triger_told state done)
  | pingBack sid p live => exact told (pingBack_told p m)
  | ping p e live permitted => exact told (takePing_told p e m)
  | touch sid now sm permitted done => exact UInt64.le_of_eq (SessionManager.touch_sid done).symm
  | genSid permitted => exact absurd permitted silent
  | add sid timeout now p sm permitted fresh done => exact (SessionManager.add_sid done).1
  | drop sid p sm permitted live done =>
      exact UInt64.le_of_eq (SessionManager.remove_frame done).1.symm
  | _ => exact UInt64.le_refl _

theorem Moves.sid_le (moves : Moves options state permits m after) (silent : ¬ permits.issues) :
    m.sm.sid ≤ after.sm.sid := by
  induction moves with
  | refl => exact UInt64.le_refl _
  | tail _ move ih => exact UInt64.le_trans ih (move.sid_le silent)

end Machine

namespace Server

variable {options : Options} {states : RaftStates} {env : Env} {ready : Ready}
  {server after : Server}

section Registers

def pendingSids (server : Server) : List Sid := registers (server.raft.pending.map Entry.cmd)

theorem pendingSids_replicate (cmd : Request) (origin : Option Nat)
    (plain : cmd.register.isSome = false) (server : Server) :
    (replicate cmd origin server).pendingSids = server.pendingSids := by
  unfold pendingSids
  rw [replicate_pending]
  split_ifs <;> simp [registers, Request.registered?, plain]

theorem handleEvent_sids {e : Event} (done : handleEvent options env e server = .ok after)
    (wf : server.machine.sm.WellFormed)
    (silent : ¬ (e.req.register.isSome = true ∧ e.req.sid? = none)) :
    after.pendingSids = server.pendingSids := by
  obtain ⟨m, -, same⟩ := handleEvent_spec options env .leader e server wf
  rw [same] at done
  cases done
  cases sent : broadcasts options e server with
  | none => rfl
  | some cmd =>
      refine pendingSids_replicate cmd (some e.id) ?_ (server.onMachine m)
      unfold broadcasts at sent
      split at sent
      next timeout register =>
        split_ifs at sent with unnamed
        exact absurd ⟨by simp [register], Option.isNone_iff_eq_none.mp unnamed⟩ silent
      next unregistered =>
        split_ifs at sent
        cases sent
        simp [unregistered]

theorem closeExpired_sids {p : SessionPtr} (done : closeExpired options env p server = .ok after) :
    after.pendingSids = server.pendingSids := by
  unfold closeExpired onSessionClosed at done
  split_ifs at done
  · dsimp only at done
    split_ifs at done
    rw [handleEvent_closing] at done
    cases done
    split
    · rfl
    · exact pendingSids_replicate _ _ rfl _
  · cases done
    rfl

theorem step_sids (done : step options env server = .ok after) :
    after.pendingSids = server.pendingSids :=
  Runs.run_invariant_always (closeExpired options env)
    (fun other => other.pendingSids = server.pendingSids)
    (fun _ _ _ same done => (closeExpired_sids done).trans same) server after _ rfl done

theorem turn_sids (wf : server.machine.sm.WellFormed) (leads : server.state = .leader)
    (silent : ¬ Issues ready server) (taken : server.turn options states env ready = .ok after) :
    after.pendingSids = server.pendingSids := by
  unfold turn at taken
  split_ifs at taken with first
  · simp only [enter, leads] at taken
    obtain ⟨sm, -, taken⟩ := Runs.bind_ok.mp taken
    have same := step_sids taken
    exact same
  · have inLoop : server.inLoop = true := by simpa using first
    simp only [leads] at taken
    cases ready with
    | state =>
        simp only [leaderLoop] at taken
        split at taken <;> cases taken <;> rfl
    | event =>
        simp only [leaderLoop] at taken
        split at taken
        · cases taken
          rfl
        next e rest queue =>
          have same := handleEvent_sids taken wf
            fun issues => silent ⟨leads, inLoop, rfl, e, by simp [queue], issues⟩
          exact same
    | command =>
        simp only [leaderLoop] at taken
        split at taken
        · cases taken
          rfl
        next entry rest queue =>
          rw [pendingSids, (onCommand_frame taken).2.2]
          rfl
    | timer =>
        obtain ⟨middle, stepped, taken⟩ := Runs.bind_ok.mp taken
        cases taken
        have same := step_sids stepped
        exact same

end Registers

/-- What a server knows of the sids in the log: each is still to be applied here or counted, and a
leader that is up to date has counted all of them. -/
structure Informed (states : RaftStates) (sids : List Sid) (server : Server) : Prop where
  raised : ∀ sid ∈ sids, sid ∈ registers server.toApply ∨ sid ≤ server.machine.sm.sid
  plain : ∀ cmd ∈ server.toApply, cmd.register.isSome = true → cmd.ping = false
  leads : server.state = .leader → ¬ Behind states server →
    ∀ sid ∈ sids, sid ≤ server.machine.sm.sid
  awaited : server.state = .waiter → server.inLoop = true → ¬ Behind states server → Awaits server

structure Adds (states : RaftStates) (sids : List Sid) (server after : Server)
    (grown : List Request) : Prop where
  log : after.log = server.log ++ grown
  led : server.raft.leader = false → grown = []
  plain : ∀ cmd ∈ grown, cmd.register.isSome = true → cmd.ping = false
  informed : Informed states (sids ++ registers grown) after
  fresh : registers grown = [] ∨ ∃ sid, registers grown = [sid] ∧ ∀ old ∈ sids, old < sid

theorem behind_congr (leader : after.raft.leader = server.raft.leader)
    (statech : after.statech = server.statech) : Behind states after ↔ Behind states server := by
  rw [Behind, Behind, leader, statech]

section Informed

variable {sids : List Sid}

theorem Informed.follow (informed : Informed states sids server) (elected : Bool)
    {grown : List Request} (plain : ∀ cmd ∈ grown, cmd.register.isSome = true → cmd.ping = false)
    (led : (server.follow elected grown).raft.leader = true → grown = []) :
    Informed states (sids ++ registers grown) (server.follow elected grown) := by
  have toApply : (server.follow elected grown).toApply = server.toApply ++ grown := by
    simp [Server.toApply, Server.follow, Function.comp_def]
  -- A raft that leads after the step has led before it.
  have current (now : ¬ Behind states (server.follow elected grown)) :
      grown = [] ∧ server.follow elected grown = server := by
    have leader := leader_of_not_behind now
    have none := led leader
    have same : (server.raft.leader && !elected) = true := leader
    rw [Bool.and_eq_true, Bool.not_eq_true'] at same
    refine ⟨none, ?_⟩
    simp only [Server.follow, none, List.map_nil, List.append_nil, same.2, Bool.not_false,
      Bool.and_true]
  refine ⟨fun sid member => ?_, fun cmd member => ?_, fun role now => ?_, fun role inLoop now => ?_⟩
  · rw [toApply, registers_append, List.mem_append]
    rcases List.mem_append.mp member with old | new
    · rcases informed.raised sid old with owed | counted
      · exact .inl (.inl owed)
      · exact .inr counted
    · exact .inl (.inr new)
  · rw [toApply] at member
    rcases List.mem_append.mp member with old | new
    · exact informed.plain cmd old
    · exact plain cmd new
  · obtain ⟨rfl, same⟩ := current now
    rw [same] at role now ⊢
    simpa [registers] using informed.leads role now
  · obtain ⟨rfl, same⟩ := current now
    rw [same] at role inLoop now ⊢
    exact informed.awaited role inLoop now

theorem Informed.lose (informed : Informed states sids server) :
    Adds states sids server (server.follow true []) [] :=
  ⟨by simp [Server.log, Server.follow], fun _ => rfl, by simp,
    informed.follow true (by simp) fun _ => rfl, .inl rfl⟩

theorem Informed.silent (informed : Informed states sids server) {grown : List Request}
    (log : after.log = server.log ++ grown) (led : server.raft.leader = false → grown = [])
    (silent : registers grown = [])
    (owed : ∀ sid ∈ registers server.toApply,
      sid ∈ registers after.toApply ∨ sid ≤ after.machine.sm.sid)
    (toApply : ∀ cmd ∈ after.toApply, cmd ∈ server.toApply ∨ cmd ∈ grown)
    (counted : server.machine.sm.sid ≤ after.machine.sm.sid)
    (leads : after.state = .leader → ¬ Behind states after →
      (server.state = .leader ∧ ¬ Behind states server) ∨ registers server.toApply = [])
    (awaited : after.state = .waiter → after.inLoop = true → ¬ Behind states after →
      Awaits after) : Adds states sids server after grown := by
  have plain (cmd : Request) (member : cmd ∈ grown) (register : cmd.register.isSome = true) :
      cmd.ping = false := by
    rw [registers_eq_nil.mp silent cmd member] at register
    cases register
  refine ⟨log, led, plain, ?_, .inl silent⟩
  rw [silent, List.append_nil]
  refine ⟨fun sid member => ?_, fun cmd member => ?_, fun role now sid member => ?_, awaited⟩
  · rcases informed.raised sid member with later | done
    · exact owed sid later
    · exact .inr (UInt64.le_trans done counted)
  · rcases toApply cmd member with old | new
    · exact informed.plain cmd old
    · exact plain cmd new
  · rcases leads role now with ⟨led, current⟩ | none
    · exact UInt64.le_trans (informed.leads led current sid member) counted
    · rcases informed.raised sid member with later | done
      · rw [none] at later
        cases later
      · exact UInt64.le_trans done counted

theorem Informed.grow (informed : Informed states sids server) {grown : List Request}
    (log : after.log = server.log ++ grown) (toApply : after.toApply = server.toApply ++ grown)
    (led : server.raft.leader = false → grown = []) (silent : registers grown = [])
    (counted : server.machine.sm.sid ≤ after.machine.sm.sid)
    (leads : after.state = .leader → ¬ Behind states after →
      server.state = .leader ∧ ¬ Behind states server)
    (awaited : after.state = .waiter → after.inLoop = true → ¬ Behind states after →
      Awaits after) : Adds states sids server after grown := by
  refine informed.silent log led silent (fun sid member => .inl ?_) (fun cmd member => ?_) counted
    (fun role now => .inl (leads role now)) awaited
  · rw [toApply, registers_append]
    exact List.mem_append_left _ member
  · rw [toApply] at member
    exact List.mem_append.mp member

theorem log_of_pending {grown : List Request} (cmdch : after.cmdch = server.cmdch)
    (delivered : after.raft.delivered = server.raft.delivered)
    (pending : after.raft.pending.map Entry.cmd = server.raft.pending.map Entry.cmd ++ grown) :
    after.log = server.log ++ grown ∧ after.toApply = server.toApply ++ grown := by
  simp only [Server.log, Server.toApply, List.map_append, pending, cmdch, delivered,
    List.append_assoc, and_self]

theorem issues_of_permits (leads : server.state = .leader) (inLoop : server.inLoop = true)
    (permitted : (permits options env ready server).issues) : Issues ready server := by
  unfold permits at permitted
  split at permitted
  next e rest queue => exact ⟨leads, inLoop, rfl, e, by simp [queue], permitted⟩
  · cases permitted
  · cases permitted

theorem resetWatchers_sid (sm : SessionManager) : sm.resetWatchers.sid = sm.sid :=
  SessionManager.foldl_modify_sid sm Prod.snd Session.resetWatch _

theorem Informed.advances {pushes : List Push} (informed : Informed states sids server)
    (advances : Advances server after pushes) (same : after.pendingSids = server.pendingSids)
    (counted : server.machine.sm.sid ≤ after.machine.sm.sid)
    (awaited : after.state = .waiter → after.inLoop = true → ¬ Behind states after →
      Awaits after) : ∃ grown, Adds states sids server after grown := by
  obtain ⟨grown, extended⟩ : ∃ grown, grown =
      (if server.raft.leader then pushes.map Push.entry else []).map Entry.cmd := ⟨_, rfl⟩
  have pending : after.raft.pending.map Entry.cmd =
      server.raft.pending.map Entry.cmd ++ grown := by
    rw [advances.pending, List.map_append, extended]
  obtain ⟨log, toApply⟩ := log_of_pending advances.cmdch advances.delivered pending
  have silent : registers grown = [] := by
    rw [pendingSids, pendingSids, pending, registers_append] at same
    exact List.append_right_eq_self.mp same
  refine ⟨grown, informed.grow log toApply (fun follows => by simp [extended, follows]) silent
    counted (fun role now => ?_) awaited⟩
  rw [advances.state] at role
  rw [behind_congr advances.leader advances.statech] at now
  exact ⟨role, now⟩

theorem command_counted {r : Replica} {cmd : Request} (stands : Stands options server r)
    (applied : onCommand options env cmd server = .ok after) :
    server.machine.sm.sid ≤ after.machine.sm.sid ∧
      (cmd.register.isSome = true → cmd.sid ≤ after.machine.sm.sid) := by
  obtain ⟨frame, represents⟩ := stands
  obtain ⟨rep, m, executed, outcome⟩ := onCommand_ok applied
  have moves := (Machine.execute_cases represents.sm represents.keyed executed).moves
  have same : after.machine.sm = m.sm := by
    rcases outcome with ⟨-, rfl⟩ | ⟨e, others, -, -, rfl⟩ <;> rfl
  rw [same]
  refine ⟨moves.sid_le not_false, fun register => ?_⟩
  obtain ⟨timeout, registers⟩ := Option.isSome_iff_exists.mp register
  have body : cmd.body = .register timeout := by simp [Request.body, registers]
  unfold Machine.execute at executed
  simp only [body] at executed
  obtain ⟨⟨status, sid, last⟩, done, executed⟩ := Runs.bind_ok.mp executed
  cases executed
  obtain ⟨-, -, -, counted⟩ : _ ∧ Machine.Applied options server.state .anything _ _ _ ∧ _ :=
    Machine.onRegister_spec represents.sm trivial done
  exact counted

theorem Informed.command {r : Replica} {entry : Entry} {rest : List Entry}
    (informed : Informed states sids server) (stands : Stands options server r)
    (queue : server.cmdch = entry :: rest)
    (waits : server.state = .waiter → ¬ EndsWait server entry)
    (applied : onCommand options env entry.cmd { server with cmdch := rest } = .ok after) :
    ∃ grown, Adds states sids server after grown := by
  obtain ⟨counted, register⟩ := command_counted
    (show Stands options { server with cmdch := rest } r from stands) applied
  obtain ⟨inLoop, tag, statech⟩ : after.inLoop = server.inLoop ∧ after.tag = server.tag ∧
      after.statech = server.statech := by
    obtain ⟨-, -, -, ⟨-, rfl⟩ | ⟨e, others, -, -, rfl⟩⟩ := onCommand_ok applied <;>
      exact ⟨rfl, rfl, rfl⟩
  obtain ⟨state, cmdch, raft⟩ := onCommand_frame applied
  have behind : Behind states after ↔ Behind states server := behind_congr (by rw [raft]) statech
  have before : server.toApply = entry.cmd :: after.toApply := by
    simp [Server.toApply, queue, cmdch, raft]
  refine ⟨[], informed.silent (by simp [Server.log, raft]) (fun _ => rfl) rfl
    (fun sid member => ?_) (fun cmd member => .inl ?_) counted (fun role now => .inl ?_)
    fun role looping now => ?_⟩
  · obtain ⟨cmd, listed, registered, rfl⟩ := mem_registers.mp member
    rw [before] at listed
    rcases List.mem_cons.mp listed with rfl | later
    · exact .inr (register registered)
    · exact .inl (mem_registers.mpr ⟨cmd, later, registered, rfl⟩)
  · rw [before]
    exact List.mem_cons_of_mem _ member
  · exact ⟨state.symm.trans role, mt behind.mpr now⟩
  · have waiting : server.state = .waiter := state.symm.trans role
    have awaits := informed.awaited waiting (inLoop.symm.trans looping) (mt behind.mpr now)
    exact (awaits.command queue (waits waiting)).congr tag (by rw [cmdch, raft])

theorem Informed.await (informed : Informed states sids server) (waits : server.state = .waiter)
    (fresh : ¬ Behind states server → ∀ entry ∈ server.cmdch ++ server.raft.pending,
      ¬ (entry.cmd.ping = true ∧ entry.cmd.sid = UInt64.ofInt (env.clock 0))) :
    ∃ grown, Adds states sids server (replicate (Request.tagged (UInt64.ofInt (env.clock 0))) none
      { server with inLoop := true, tag := UInt64.ofInt (env.clock 0) }) grown := by
  obtain ⟨grown, extended⟩ : ∃ grown, grown =
      if server.raft.leader then [Request.tagged (UInt64.ofInt (env.clock 0))] else [] := ⟨_, rfl⟩
  obtain ⟨after, reached⟩ : ∃ after, after =
      replicate (Request.tagged (UInt64.ofInt (env.clock 0))) none
        { server with inLoop := true, tag := UInt64.ofInt (env.clock 0) } := ⟨_, rfl⟩
  have pending : after.raft.pending.map Entry.cmd =
      server.raft.pending.map Entry.cmd ++ grown := by
    rw [extended, reached, replicate_pending]
    split_ifs <;> simp
  obtain ⟨log, toApply⟩ := log_of_pending (by rw [reached, replicate_cmdch])
    (by rw [reached, replicate_delivered]) pending
  rw [← reached]
  refine ⟨grown, informed.grow log toApply (fun follows => by simp [extended, follows]) ?_
    (by simp [reached]) (by simp [reached, waits]) fun _ _ now => ?_⟩
  · rw [extended]
    split_ifs <;> rfl
  · rw [reached] at now ⊢
    have current : ¬ Behind states server := by simpa [Behind] using now
    exact awaits_replicate current (fresh current)

theorem Informed.lead {entry : Entry} {rest : List Entry} (informed : Informed states sids server)
    (waits : server.state = .waiter) (inLoop : server.inLoop = true)
    (queue : server.cmdch = entry :: rest) (ends : EndsWait server entry) :
    Adds states sids server
      { server with cmdch := rest, state := .leader, inLoop := false } [] := by
  have before : server.toApply = entry.cmd :: (rest ++ server.raft.pending).map Entry.cmd := by
    simp [Server.toApply, queue]
  -- The ping that ends the wait registers nobody.
  have ping : entry.cmd.register.isSome = false := by
    by_contra register
    rw [Bool.not_eq_false] at register
    have quiet := informed.plain entry.cmd (by simp [before]) register
    rw [ends.1] at quiet
    cases quiet
  refine informed.silent (by simp [Server.log]) (fun _ => rfl) rfl (fun sid member => .inl ?_)
    (fun cmd member => .inl ?_) (UInt64.le_refl _) (fun _ now => .inr ?_) nofun
  · obtain ⟨cmd, listed, registered, rfl⟩ := mem_registers.mp member
    rw [before] at listed
    rcases List.mem_cons.mp listed with rfl | later
    · rw [ping] at registered
      cases registered
    · exact mem_registers.mpr ⟨cmd, later, registered, rfl⟩
  · rw [before]
    exact List.mem_cons_of_mem _ member
  · have now : ¬ Behind states server := now
    rw [before, (informed.awaited waits inLoop now).nothing_left queue ends, List.map_nil,
      registers_eq_nil]
    simpa using ping

theorem Informed.change {st : Int} {rest : List Int} (informed : Informed states sids server)
    (inLoop : Bool) (fresh : nextState states server.state st = .waiter → inLoop = false) :
    Adds states sids server
      { server with
        statech := rest, state := nextState states server.state st, inLoop := inLoop } [] :=
  informed.silent (by simp [Server.log]) (fun _ => rfl) rfl (fun _ member => .inl member)
    (fun _ member => .inl member) (UInt64.le_refl _)
    (fun role => absurd role (nextState_ne_leader server.state st))
    fun role looping => by
      have entering : inLoop = true := looping
      rw [fresh role] at entering
      cases entering

theorem turn_issues (issues : Issues ready server)
    (taken : server.turn options states env ready = .ok after) :
    ∃ e rest asked, server.eventch = e :: rest ∧ e.req.register = some asked ∧
      e.req.sid? = none ∧ after =
        replicate (Request.registering (server.machine.sm.sid + 1) (clampTimeout options asked))
          (some e.id)
          { server with
            eventch := rest
            machine := { server.machine with sm := server.machine.sm.genSid.2 }
            requests := server.requests ++ [e] } := by
  obtain ⟨leads, inLoop, rfl, e, first, register, unnamed⟩ := issues
  obtain ⟨rest, queue⟩ := List.head?_eq_some_iff.mp (Option.mem_def.mp first)
  obtain ⟨asked, registers⟩ := Option.isSome_iff_exists.mp register
  simp only [turn, inLoop, leads, Bool.true_eq_false, if_false, leaderLoop, queue, handleEvent,
    registers, handleRegister, unnamed, Except.ok.injEq] at taken
  exact ⟨e, rest, asked, queue, registers, unnamed, by rw [← taken, leads, inLoop]; rfl⟩

theorem Informed.issue (informed : Informed states sids server) (issues : Issues ready server)
    (room : server.machine.sm.sid.toNat + 1 < UInt64.size)
    (read : server.raft.leader = true → ∀ st ∈ server.statech, st = states.stop)
    (taken : server.turn options states env ready = .ok after) :
    ∃ grown, Adds states sids server after grown := by
  obtain ⟨e, rest, asked, -, -, -, reached⟩ := turn_issues issues taken
  have state : after.state = server.state := by rw [reached, replicate_state]
  have leader : after.raft.leader = server.raft.leader := by rw [reached, replicate_leader]
  have statech : after.statech = server.statech := by rw [reached, replicate_statech]
  have cmdch : after.cmdch = server.cmdch := by rw [reached, replicate_cmdch]
  have delivered : after.raft.delivered = server.raft.delivered := by
    rw [reached, replicate_delivered]
  have sid : after.machine.sm.sid = server.machine.sm.sid + 1 := by
    rw [reached, replicate_machine]
    rfl
  have higher : server.machine.sm.sid < after.machine.sm.sid := by
    rw [sid]
    exact sid_lt_next _ room
  have lower := UInt64.le_of_lt higher
  have awaits : after.state = .waiter → after.inLoop = true → ¬ Behind states after →
      Awaits after := by
    intro role
    rw [state, issues.1] at role
    cases role
  cases leads : server.raft.leader with
  | false =>
      have pending : after.raft.pending.map Entry.cmd =
          server.raft.pending.map Entry.cmd ++ [] := by
        rw [reached, replicate_pending]
        simp [leads]
      obtain ⟨log, toApply⟩ := log_of_pending cmdch delivered pending
      refine ⟨[], informed.grow log toApply (fun _ => rfl) rfl lower (fun _ now => ?_) awaits⟩
      rw [behind_congr leader statech] at now
      exact absurd (.inl leads) now
  | true =>
      -- Nothing is unread, so the leader has counted every sid in the log.
      have current : ¬ Behind states server := by
        rintro (follows | ⟨st, member, other⟩)
        · rw [leads] at follows
          cases follows
        · exact other (read leads st member)
      have counted := informed.leads issues.1 current
      obtain ⟨cmd, same⟩ : ∃ cmd,
          cmd = Request.registering (server.machine.sm.sid + 1) (clampTimeout options asked) :=
        ⟨_, rfl⟩
      have new : registers [cmd] = [after.machine.sm.sid] := by rw [same, sid]; rfl
      have pending : after.raft.pending.map Entry.cmd =
          server.raft.pending.map Entry.cmd ++ [cmd] := by
        rw [reached, replicate_pending]
        simp [leads, same]
      obtain ⟨log, toApply⟩ := log_of_pending cmdch delivered pending
      have below (old : Sid) (member : old ∈ sids ++ registers [cmd]) :
          old ≤ after.machine.sm.sid := by
        rw [new] at member
        rcases List.mem_append.mp member with before | now
        · exact UInt64.le_trans (counted old before) lower
        · rw [List.mem_singleton.mp now]
          exact UInt64.le_refl _
      have plain : cmd.ping = false := by rw [same]; rfl
      refine ⟨[cmd], log, ?_, ?_, ⟨fun old member => .inr (below old member), ?_,
        fun _ _ => below, awaits⟩, .inr ⟨_, new, fun old member =>
          UInt64.lt_of_le_of_lt (counted old member) higher⟩⟩
      · intro follows
        rw [leads] at follows
        cases follows
      · simp [plain]
      · intro other member
        rw [toApply] at member
        rcases List.mem_append.mp member with before | now
        · exact informed.plain other before
        · rw [List.mem_singleton.mp now]
          exact fun _ => plain

theorem Informed.turn {r : Replica} (informed : Informed states sids server)
    (stands : Stands options server r) (current : UpToDate states (.turn env ready) server)
    (room : Counts (.turn env ready) server)
    (taken : server.turn options states env ready = .ok after) :
    ∃ grown, Adds states sids server after grown := by
  have wf := stands.wellFormed
  by_cases issues : Issues ready server
  · exact informed.issue issues (room issues) (current.1 issues) taken
  · cases turn_cases wf taken with
    | advance pushes leads noCommand advances entered moves quiet still =>
        refine informed.advances advances (turn_sids wf leads issues taken) ?_ fun role => ?_
        · cases inLoop : server.inLoop with
          | true =>
              exact (moves inLoop).sid_le fun permitted =>
                issues (issues_of_permits leads inLoop permitted)
          | false =>
              obtain ⟨sm, reset, moves⟩ := entered inLoop
              refine UInt64.le_trans (UInt64.le_of_eq ?_) (moves.sid_le not_false)
              exact ((resetWatchers_sid sm).trans (SessionManager.resetTimer_sid reset)).symm
        · rw [advances.state, leads] at role
          cases role
    | idle noCommand advances moves waits =>
        refine informed.advances advances ?_ (moves.sid_le not_false) fun role => ?_
        · rw [pendingSids, advances.pending]
          simp [pendingSids]
        · have same := waits (advances.state.symm.trans role)
          rw [same] at role ⊢
          exact informed.awaited role
    | await waits first => exact informed.await waits (current.2 waits first)
    | command entry rest applying queue waits applied =>
        exact informed.command stands queue waits applied
    | lead entry rest noCommand chosen waits inLoop queue ends =>
        exact ⟨[], informed.lead waits inLoop queue ends⟩
    | change st rest inLoop noCommand queue fresh => exact ⟨[], informed.change inLoop fresh⟩

theorem Informed.deliver (informed : Informed states sids server) :
    Adds states sids server server.deliver [] := by
  unfold Server.deliver
  split
  · exact informed.grow (by simp) (by simp) (fun _ => rfl) rfl (UInt64.le_refl _) .intro
      informed.awaited
  next entry rest queue =>
    refine informed.grow (by simp [Server.log, onSynced, queue])
      (by simp [Server.toApply, onSynced, queue]) (fun _ => rfl) rfl (UInt64.le_refl _) .intro
      fun role inLoop now => ?_
    exact (informed.awaited role inLoop now).congr rfl (by simp [onSynced, queue])

theorem Informed.act {r : Replica} {action : Action} (informed : Informed states sids server)
    (stands : Stands options server r) (runs : action.isLocal = true)
    (current : UpToDate states action server) (room : Counts action server)
    (taken : server.act options states action = .ok after) :
    ∃ grown, Adds states sids server after grown := by
  cases action with
  | receive req =>
      cases taken
      exact ⟨[], informed.grow (by simp [Server.log, receive]) (by simp [Server.toApply, receive])
        (fun _ => rfl) rfl (UInt64.le_refl _) .intro informed.awaited⟩
  | notify st =>
      cases taken
      have behind : Behind states (server.notify states st) := by
        by_cases elected : st = states.leader
        · exact .inr ⟨st, by simp [notify, onState], elected ▸ states.distinct⟩
        · exact .inl (by simp [notify, onState, elected])
      have moves := (onState_tends options server.state st
        { server with raft := { server.raft with leader := decide (st = states.leader) } }
        stands.wellFormed).moves
      exact ⟨[], informed.grow (by simp [Server.log, notify, onState])
        (by simp [Server.toApply, notify, onState]) (fun _ => rfl) rfl (moves.sid_le not_false)
        (fun _ now => absurd behind now) fun _ _ now => absurd behind now⟩
  | stop =>
      cases taken
      have same : Behind states { server with statech := server.statech ++ [states.stop] } ↔
          Behind states server := by simp [Behind, or_and_right]
      exact ⟨[], informed.grow (by simp [Server.log]) (by simp [Server.toApply]) (fun _ => rfl) rfl
        (UInt64.le_refl _) (fun role now => ⟨role, mt same.mpr now⟩)
        fun role inLoop now => informed.awaited role inLoop (mt same.mpr now)⟩
  | deliver =>
      cases taken
      exact ⟨[], informed.deliver⟩
  | turn env ready => exact informed.turn stands current room taken
  | accept | restart => cases runs

end Informed

theorem act_leader {r : Replica} {action : Action} (stands : Stands options server r)
    (runs : action.isLocal = true) (taken : server.act options states action = .ok after)
    (leads : after.raft.leader = true) :
    action.elects states = true ∨ server.raft.leader = true := by
  cases action with
  | receive | stop =>
      cases taken
      exact .inr leads
  | notify st =>
      cases taken
      exact .inl leads
  | deliver =>
      cases taken
      unfold deliver at leads
      split at leads <;> exact .inr leads
  | turn env ready =>
      refine .inr ?_
      cases turn_cases stands.wellFormed taken with
      | advance pushes _ _ advances => exact advances.leader.symm.trans leads
      | idle _ advances => exact advances.leader.symm.trans leads
      | await => simpa using leads
      | command entry rest _ _ _ applied =>
          rw [(onCommand_frame applied).2.2] at leads
          exact leads
      | lead | change => exact leads
  | accept | restart => cases runs

theorem withSid_stands {r : Replica} (stands : Stands options server r) (sid : Sid) :
    Stands options (server.withSid sid) r := by
  obtain ⟨frame, represents⟩ := stands
  have sm := represents.sm
  exact ⟨frame, represents.view, ⟨sm.stored, sm.nonempty, sm.queued⟩, represents.keyed,
    represents.commit, represents.active, represents.coherent⟩

theorem informed_initial {first : Server} (started : initial options env = .ok first) (sid : Sid) :
    Informed states [] (first.withSid sid) := by
  obtain ⟨other, -, begun, -, -, -, state, -, -, cmdch, -, raft⟩ := initial_ok options env
  cases started.symm.trans begun
  have empty : (first.withSid sid).toApply = [] := by
    simp [Server.toApply, withSid, onMachine, cmdch, raft]
  have follows : (first.withSid sid).state = .follower := state
  exact ⟨by simp, by simp [empty], by simp [follows], by simp [follows]⟩

end Server

namespace Cluster

variable {ι : Type} [DecidableEq ι] {options : Options} {states : RaftStates}
  {cluster next : Cluster ι}

def UpToDate (states : RaftStates) (deed : Deed ι) (cluster : Cluster ι) : Prop :=
  match deed with
  | .act i action _ => (cluster.servers i).UpToDate states action
  | .lose _ => True

def Counts (deed : Deed ι) (cluster : Cluster ι) : Prop :=
  match deed with
  | .act i action _ => (cluster.servers i).Counts action
  | .lose _ => True

structure Coherent (options : Options) (states : RaftStates) (cluster : Cluster ι) : Prop where
  logs : ∀ i, (cluster.servers i).log = cluster.log
  sole : ∀ i j, (cluster.servers i).raft.leader = true → (cluster.servers j).raft.leader = true →
    i = j
  stands : ∀ i, ∃ r, Server.Stands options (cluster.servers i) r
  informed : ∀ i, Server.Informed states (registers cluster.log) (cluster.servers i)
  distinct : (registers cluster.log).Nodup

omit [DecidableEq ι] in
theorem Starts.coherent (starts : cluster.Starts options) : cluster.Coherent options states := by
  have started (i : ι) : (cluster.servers i).raft = ⟨false, [], []⟩ ∧
      (∃ r, Server.Stands options (cluster.servers i) r) ∧
      Server.Informed states [] (cluster.servers i) := by
    obtain ⟨env, first, sid, begun, same⟩ := starts.servers i
    obtain ⟨other, r, again, stands, -, -, -, -, -, -, -, raft⟩ := Server.initial_ok options env
    cases begun.symm.trans again
    rw [same]
    exact ⟨raft, ⟨r, Server.withSid_stands stands sid⟩, Server.informed_initial begun sid⟩
  have none : registers cluster.log = [] := by rw [starts.log]; rfl
  refine ⟨fun i => ?_, fun i j leads => ?_, fun i => (started i).2.1, fun i => ?_, ?_⟩
  · simp [Server.log, (started i).1, starts.log]
  · simp [(started i).1] at leads
  · rw [none]
    exact (started i).2.2
  · simp [none]

omit [DecidableEq ι] in
theorem Coherent.log_follow (coherent : cluster.Coherent options states) (j : ι) (elected : Bool)
    (grown : List Request) :
    ((cluster.servers j).follow elected grown).log = cluster.log ++ grown := by
  rw [← coherent.logs j]
  simp [Server.log, Server.follow, Function.comp_def]

theorem Coherent.spread (coherent : cluster.Coherent options states) {i : ι} {server : Server}
    {elected : Bool} {grown : List Request} (stands : ∃ r, Server.Stands options server r)
    (adds : Server.Adds states (registers cluster.log) (cluster.servers i) server grown)
    (elects : server.raft.leader = true →
      elected = true ∨ (cluster.servers i).raft.leader = true) :
    (cluster.spread i server elected grown).Coherent options states := by
  have here : (cluster.spread i server elected grown).servers i = server := if_pos rfl
  have there (j : ι) (other : j ≠ i) : (cluster.spread i server elected grown).servers j =
      (cluster.servers j).follow elected grown := if_neg other
  have follows (j : ι) (other : j ≠ i)
      (leads : ((cluster.servers j).follow elected grown).raft.leader = true) :
      (cluster.servers j).raft.leader = true ∧ (cluster.servers i).raft.leader = false ∧
        server.raft.leader = false := by
    have both : ((cluster.servers j).raft.leader && !elected) = true := leads
    rw [Bool.and_eq_true, Bool.not_eq_true'] at both
    have led : (cluster.servers i).raft.leader ≠ true := fun led =>
      other (coherent.sole j i both.1 led)
    refine ⟨both.1, by simpa using led, Bool.eq_false_iff.mpr fun leads => ?_⟩
    rcases elects leads with now | still
    · rw [both.2] at now
      cases now
    · exact led still
  have sids : registers (cluster.spread i server elected grown).log =
      registers cluster.log ++ registers grown := registers_append _ _
  refine ⟨fun j => ?_, fun j k => ?_, fun j => ?_, fun j => ?_, ?_⟩
  · by_cases same : j = i
    · rw [same, here, adds.log, coherent.logs]
      rfl
    · rw [there j same, coherent.log_follow]
      rfl
  · by_cases one : j = i <;> by_cases two : k = i
    · exact fun _ _ => one.trans two.symm
    · rw [one, here, there k two]
      exact fun leads later => absurd leads (by simp [(follows k two later).2.2])
    · rw [two, here, there j one]
      exact fun later leads => absurd leads (by simp [(follows j one later).2.2])
    · rw [there j one, there k two]
      exact fun first second => coherent.sole j k (follows j one first).1 (follows k two second).1
  · by_cases same : j = i
    · rw [same, here]
      exact stands
    · rw [there j same]
      obtain ⟨r, stands⟩ := coherent.stands j
      exact ⟨r, stands⟩
  · rw [sids]
    by_cases same : j = i
    · rw [same, here]
      exact adds.informed
    · rw [there j same]
      exact (coherent.informed j).follow elected adds.plain fun leads =>
        adds.led (follows j same leads).2.1
  · rw [sids]
    rcases adds.fresh with none | ⟨sid, one, higher⟩
    · rw [none, List.append_nil]
      exact coherent.distinct
    · rw [one, List.nodup_append]
      refine ⟨coherent.distinct, List.nodup_singleton sid, fun old member new equal => ?_⟩
      rw [List.mem_singleton.mp equal]
      exact fun same => UInt64.lt_irrefl _ (same ▸ higher old member)

theorem Coherent.step {deed : Deed ι} (coherent : cluster.Coherent options states)
    (current : UpToDate states deed cluster) (room : Counts deed cluster)
    (taken : cluster.step options states deed = .ok next) : next.Coherent options states := by
  cases deed with
  | act i action runs =>
      obtain ⟨server, acted, taken⟩ := Runs.bind_ok.mp taken
      cases taken
      obtain ⟨r, stands⟩ := coherent.stands i
      obtain ⟨grown, adds⟩ := (coherent.informed i).act stands runs current room acted
      have longer : server.log.drop (cluster.servers i).log.length = grown := by
        rw [adds.log, List.drop_left]
      obtain ⟨after, -, stood⟩ := Server.stands_act stands (Action.isRestart_of_isLocal runs) acted
      rw [longer]
      exact coherent.spread ⟨after, stood⟩ adds (Server.act_leader stands runs acted)
  | lose i =>
      cases taken
      obtain ⟨r, stands⟩ := coherent.stands i
      exact coherent.spread ⟨r, stands⟩ ((coherent.informed i).lose) (by simp [Server.follow])

theorem sids_distinct {deeds : List (Deed ι)} (starts : cluster.Starts options)
    (room : Runs.Meets (step options states) Counts cluster deeds)
    (current : Runs.Meets (step options states) (UpToDate states) cluster deeds) :
    Runs.Throughout (step options states) (fun cluster => (registers cluster.log).Nodup) cluster
      deeds :=
  Runs.throughout_invariant (step options states)
    (fun deed cluster => UpToDate states deed cluster ∧ Counts deed cluster)
    (Coherent options states) _
    (fun _ _ _ coherent guarded => coherent.step guarded.1 guarded.2)
    (fun _ coherent => coherent.distinct) cluster deeds starts.coherent
    (Runs.meets_and _ _ _ cluster deeds current room)

instance (action : Action) (server : Server) : Decidable (server.UpToDate states action) :=
  match action with
  | .turn _ _ => inferInstanceAs (Decidable ((_ → _ → _) ∧ (_ → _ → _ → _)))
  | .receive _ | .notify _ | .stop | .deliver | .accept _ _ | .restart _ => .isTrue trivial

instance (action : Action) (server : Server) : Decidable (server.Counts action) :=
  match action with
  | .turn _ _ => inferInstanceAs (Decidable (_ → _))
  | .receive _ | .notify _ | .stop | .deliver | .accept _ _ | .restart _ => .isTrue trivial

instance (deed : Deed ι) (cluster : Cluster ι) : Decidable (UpToDate states deed cluster) :=
  match deed with
  | .act _ _ _ => inferInstanceAs (Decidable (Server.UpToDate _ _ _))
  | .lose _ => .isTrue trivial

instance (deed : Deed ι) (cluster : Cluster ι) : Decidable (Counts deed cluster) :=
  match deed with
  | .act _ _ _ => inferInstanceAs (Decidable (Server.Counts _ _))
  | .lose _ => .isTrue trivial

def perform (i : Bool) (actions : List Action) : List (Deed Bool) :=
  actions.filterMap fun action =>
    if runs : action.isLocal = true then some (.act i action runs) else none

def electing (now : Time) (unapplied : Nat) : List Action :=
  -- The commands that are still to be applied come before the server's own ping.
  [.notify 1, .turn (.still 0) .timer, .turn (.still 0) .state, .turn (.still now) .timer] ++
    (List.replicate (unapplied + 1) [.deliver, .turn (.still 0) .command]).flatten ++
    [.turn (.still 0) .timer]

def enrolling : List Action :=
  [.receive { Request.empty with register := some 5000 }, .turn (.still 0) .event]

def pair (first : Server) : Cluster Bool := ⟨fun _ => first.withSid 0, []⟩

def inTurn : List (Deed Bool) :=
  perform true (electing 7 0 ++ enrolling) ++ perform false (electing 8 2 ++ enrolling)

theorem sids_distinct_two : ∃ first, Server.initial Options.standard (.still 0) = .ok first ∧
    Runs.Throughout (step Options.standard .sample)
      (fun cluster => (registers cluster.log).Nodup) (pair first) inTurn := by
  have found : Runs.passes (Server.initial Options.standard (.still 0)) (fun first =>
      decide (Runs.Meets (step Options.standard .sample) Counts (pair first) inTurn) &&
        decide (Runs.Meets (step Options.standard .sample) (UpToDate .sample) (pair first)
          inTurn)) = true := by
    decide +kernel
  simp only [Runs.passes_iff, Bool.and_eq_true, decide_eq_true_eq] at found
  obtain ⟨first, started, room, current⟩ := found
  exact ⟨first, started, sids_distinct ⟨rfl, fun _ => ⟨_, first, 0, started, rfl⟩⟩ room current⟩

def lagging : List (Deed Bool) :=
  perform true (electing 7 0) ++ perform false (electing 8 1 ++ enrolling) ++
    perform true ([.notify 0, .notify 1] ++ enrolling)

-- A leader loses the leadership, and has it again before its main loop has read of either: it
-- hands out the sid that the leader in between has given already.
theorem sids_distinct_lagging : ∃ first last,
    Server.initial Options.standard (.still 0) = .ok first ∧
      Runs.Meets (step Options.standard .sample) Counts (pair first) lagging ∧
      Runs.run (step Options.standard .sample) (pair first) lagging = .ok last ∧
      registers last.log = [1, 1] := by
  have found : Runs.passes (Server.initial Options.standard (.still 0)) (fun first =>
      decide (Runs.Meets (step Options.standard .sample) Counts (pair first) lagging) &&
        Runs.passes (Runs.run (step Options.standard .sample) (pair first) lagging) fun last =>
          decide (registers last.log = [1, 1])) = true := by
    decide +kernel
  simp only [Runs.passes_iff, Bool.and_eq_true, decide_eq_true_eq] at found
  obtain ⟨first, started, room, last, reached, twice⟩ := found
  exact ⟨first, last, started, room, reached, twice⟩

end Cluster

end Pyxis
