import Mathlib.Algebra.BigOperators.Group.Finset.Basic
import Pyxis.Cluster.Sids
import Pyxis.Replica.Replies

set_option autoImplicit false

namespace Pyxis

-- A ping that asks for nothing else, as the pings of the clients and of a waiting server do.
def Request.Gentle (req : Request) : Prop := req.ping = true → req.body = .none

instance (req : Request) : Decidable req.Gentle := inferInstanceAs (Decidable (_ → _))

namespace Server

variable {options : Options} {states : RaftStates} {env : Env} {server middle after : Server}

variable (options) in
def issued (e : Event) (server : Server) : Option Request :=
  match e.req.register, e.req.sid? with
  | some timeout, none =>
      some (Request.registering (server.machine.sm.sid + 1) (clampTimeout options timeout))
  | _, _ => none

def unregisters (sm : SessionManager) (ps : List SessionPtr) : List Request :=
  (ps.filter fun p => (sm.deref p).active).map fun p => Request.closing (sm.deref p).sid

def closings (now : Time) (sm : SessionManager) : List Request := unregisters sm (sm.due now)

variable (options) in
/-- The requests that a server makes itself: the ping of a wait, the unregisters of the active
sessions past their deadline, and the register with a new sid for a register without one. -/
def makes (env : Env) (ready : Ready) (server : Server) : List Request :=
  match server.state, server.inLoop, ready, server.eventch with
  | .waiter, false, _, _ => [Request.tagged (UInt64.ofInt (env.clock 0))]
  | .leader, false, _, _ =>
      match server.machine.sm.resetTimer fun call => env.clock (call + 2) with
      | .ok sm => closings (env.clock 0) sm.resetWatchers
      | .error _ => []
  | .leader, true, .timer, _ => closings (env.clock 0) server.machine.sm
  | .leader, true, .event, e :: _ => (issued options e server).toList
  | _, _, _, _ => []

-- What a server broadcasts goes to the end of the log, and only while raft leads. It broadcasts no
-- request that is not among `asked`, and none more often.
structure Broadcasts (asked : List Request) (server after : Server) (grown : List Request) :
    Prop where
  eventch : after.eventch = server.eventch
  cmdch : after.cmdch = server.cmdch
  leader : after.raft.leader = server.raft.leader
  delivered : after.raft.delivered = server.raft.delivered
  pending : after.raft.pending.map Entry.cmd = server.raft.pending.map Entry.cmd ++ grown
  led : server.raft.leader = false → grown = []
  spent : ∀ req, grown.count req ≤ asked.count req

namespace Broadcasts

theorem silent {asked : List Request} (eventch : after.eventch = server.eventch)
    (cmdch : after.cmdch = server.cmdch) (raft : after.raft = server.raft) :
    Broadcasts asked server after [] :=
  ⟨eventch, cmdch, by rw [raft], by rw [raft], by rw [raft, List.append_nil], fun _ => rfl,
    fun _ => by simp⟩

theorem trans {one two grown more : List Request} (former : Broadcasts one server middle grown)
    (latter : Broadcasts two middle after more) :
    Broadcasts (one ++ two) server after (grown ++ more) where
  eventch := latter.eventch.trans former.eventch
  cmdch := latter.cmdch.trans former.cmdch
  leader := latter.leader.trans former.leader
  delivered := latter.delivered.trans former.delivered
  pending := by rw [latter.pending, former.pending, List.append_assoc]
  led unled := by rw [former.led unled, latter.led (former.leader.trans unled), List.append_nil]
  spent req := by
    rw [List.count_append, List.count_append]
    exact Nat.add_le_add (former.spent req) (latter.spent req)

theorem replicate (cmd : Request) (origin : Option Nat) (server : Server) :
    Broadcasts [cmd] server (replicate cmd origin server)
      (if server.raft.leader then [cmd] else []) := by
  refine ⟨?_, by simp, by simp, by simp, ?_, fun unled => by rw [unled]; rfl, fun req => ?_⟩
  · unfold Server.replicate
    split <;> rfl
  · rw [replicate_pending]
    split <;> simp
  · split <;> simp

theorem within {asked other grown : List Request} (broadcasts : Broadcasts asked server after grown)
    (fewer : asked.Sublist other) : Broadcasts other server after grown :=
  { broadcasts with spent := fun req => (broadcasts.spent req).trans (fewer.count_le req) }

end Broadcasts

theorem handleEvent_broadcasts {e : Event} (done : handleEvent options env e server = .ok after) :
    ∃ grown, Broadcasts (broadcasts options e server).toList server after grown := by
  unfold handleEvent at done
  split at done
  next timeout register =>
    cases done
    unfold handleRegister
    dsimp only
    split
    · split <;> exact ⟨[], .silent rfl rfl rfl⟩
    next unnamed =>
      have queued : Broadcasts [] server { server with
          machine := { server.machine with sm := server.machine.sm.genSid.2 }
          requests := server.requests ++ [e] } [] := .silent rfl rfl rfl
      have sent : (broadcasts options e server).toList =
          [Request.registering (server.machine.sm.sid + 1) (clampTimeout options timeout)] := by
        simp [broadcasts, register, unnamed]
      rw [sent]
      exact ⟨_, queued.trans (.replicate _ _ _)⟩
  next register =>
    split at done
    · cases done
      exact ⟨[], .silent rfl rfl rfl⟩
    next live =>
      obtain ⟨sm, touched, done⟩ := Runs.bind_ok.mp done
      dsimp only at done
      split at done
      next asks =>
        cases done
        have renewed : Broadcasts [] server
            (server.onMachine { server.machine with sm := sm }) [] := .silent rfl rfl rfl
        have sent : (broadcasts options e server).toList = [e.req] := by
          simp [broadcasts, register, Option.isSome_iff_ne_none.mpr live, asks]
        rw [sent]
        exact ⟨_, { renewed.trans (.replicate e.req (some e.id) _) with }⟩
      · obtain ⟨m, handled, done⟩ := Runs.bind_ok.mp done
        cases done
        exact ⟨[], .silent rfl rfl rfl⟩

theorem unregisters_close (p : SessionPtr) (ps : List SessionPtr) (sm : SessionManager) :
    (unregisters (sm.modify p Session.close) ps).Sublist (unregisters sm ps) := by
  have cases (q : SessionPtr) : (sm.modify p Session.close).deref q = sm.deref q ∨
      ((sm.modify p Session.close).deref q).active = false := by
    rw [SessionManager.deref, SessionManager.deref, SessionManager.heap_modify]
    split
    · cases sm.heap[q]? with
      | none => exact .inl rfl
      | some session => exact .inr rfl
    · exact .inl rfl
  unfold unregisters
  induction ps with
  | nil => exact .refl _
  | cons q rest ih =>
      rcases cases q with same | closed
      · simp only [List.filter_cons, same]
        split
        · simpa only [List.map_cons, same] using ih.cons_cons _
        · exact ih
      · simp only [List.filter_cons, closed, Bool.false_eq_true, if_false]
        split
        · exact ih.cons _
        · exact ih

theorem broadcasts_issued (e : Event) (server : Server) :
    (broadcasts options e server).toList.Sublist
      (e.req :: (issued options e server).toList) := by
  unfold broadcasts issued
  cases e.req.register with
  | some timeout => cases e.req.sid? <;> simp
  | none =>
      dsimp only
      split <;> simp

theorem closeExpired_broadcasts {p : SessionPtr}
    (done : closeExpired options env p server = .ok after) :
    ∃ grown, Broadcasts
      (if (server.machine.sm.deref p).active then
        [Request.closing (server.machine.sm.deref p).sid] else []) server after grown := by
  unfold closeExpired at done
  split_ifs at done with active
  · unfold onSessionClosed at done
    dsimp only at done
    split_ifs at done
    obtain ⟨grown, sent⟩ := handleEvent_broadcasts done
    have closed : ((server.machine.sm.modify p Session.close).deref p).sid =
        (server.machine.sm.deref p).sid := by
      rw [SessionManager.deref, SessionManager.deref, SessionManager.heap_modify, if_pos rfl]
      cases server.machine.sm.heap[p]? <;> rfl
    rw [if_pos active, ← closed]
    exact ⟨grown, { sent.within (broadcasts_issued _ _) with }⟩
  · cases done
    exact ⟨[], .silent rfl rfl rfl⟩

theorem step_broadcasts (done : step options env server = .ok after) :
    ∃ grown, Broadcasts (closings (env.clock 0) server.machine.sm) server after grown := by
  unfold step at done
  unfold closings
  generalize server.machine.sm.due (env.clock 0) = ps at done ⊢
  induction ps generalizing server with
  | nil =>
      cases done
      exact ⟨[], .silent rfl rfl rfl⟩
  | cons p rest ih =>
      obtain ⟨middle, closed, later⟩ := (Runs.run_cons_ok _ _ _ _ _).mp done
      obtain ⟨one, former⟩ := closeExpired_broadcasts closed
      obtain ⟨two, latter⟩ := ih later
      have fewer : (unregisters middle.machine.sm rest).Sublist
          (unregisters server.machine.sm rest) := by
        rw [(closeExpired_sm closed).1]
        split
        · exact unregisters_close p rest server.machine.sm
        · exact List.Sublist.refl _
      refine ⟨one ++ two, (former.trans (latter.within fewer)).within ?_⟩
      rw [unregisters, unregisters, List.filter_cons]
      split <;> exact List.Sublist.refl _

def waiting (server : Server) : List Request := server.eventch.map Event.req

-- A step that adds `grown` to the log, and takes `used` from the front of what is to be applied:
-- the command that it applies, or the ping that ends a wait. What it adds, and what is left in
-- `eventch_`, were there before or are `asked` for now.
structure Feeds (asked : List Request) (applied : Option Request) (server after : Server)
    (grown used : List Request) : Prop where
  log : after.log = server.log ++ grown
  toApply : server.toApply ++ grown = used ++ after.toApply
  led : server.raft.leader = false → grown = []
  spent : ∀ req, grown.count req + after.waiting.count req ≤
    server.waiting.count req + asked.count req
  used : used = applied.toList ∨ applied = none ∧ ∃ cmd, used = [cmd] ∧ cmd.ping = true

theorem Broadcasts.feeds {asked grown : List Request}
    (broadcasts : Broadcasts asked server after grown) :
    Feeds asked none server after grown [] where
  log := by
    simp only [Server.log, List.map_append, broadcasts.delivered, broadcasts.pending,
      List.append_assoc]
  toApply := by
    simp only [Server.toApply, List.map_append, broadcasts.cmdch, broadcasts.pending,
      List.append_assoc, List.nil_append]
  led := broadcasts.led
  spent req := by
    have bound := broadcasts.spent req
    simp only [waiting, broadcasts.eventch]
    omega
  used := .inl rfl

theorem Broadcasts.feeds_event {e : Event} {rest : List Event} {asked grown : List Request}
    (queue : server.eventch = e :: rest)
    (broadcasts : Broadcasts (e.req :: asked) { server with eventch := rest } after grown) :
    Feeds asked none server after grown [] := by
  have feeds := broadcasts.feeds
  refine { feeds with spent := fun req => ?_ }
  have bound := feeds.spent req
  simp only [waiting, queue, List.map_cons, List.count_cons] at bound ⊢
  omega

theorem feeds_taken {asked : List Request} {applied : Option Request} {entry : Entry}
    {rest : List Entry} (queue : server.cmdch = entry :: rest) (cmdch : after.cmdch = rest)
    (raft : after.raft = server.raft) (eventch : after.eventch = server.eventch)
    (used : applied = some entry.cmd ∨ applied = none ∧ entry.cmd.ping = true) :
    Feeds asked applied server after [] [entry.cmd] where
  log := by simp [Server.log, raft]
  toApply := by simp [Server.toApply, queue, cmdch, raft]
  led _ := rfl
  spent req := by simp [waiting, eventch]
  used := by
    rcases used with rfl | ⟨rfl, ping⟩
    · exact .inl rfl
    · exact .inr ⟨rfl, entry.cmd, rfl, ping⟩

theorem turn_feeds {ready : Ready} (taken : server.turn options states env ready = .ok after) :
    ∃ grown used, Feeds (server.makes options env ready) (server.applies ready) server after grown
      used := by
  cases turn_calls taken with
  | move noCommand =>
      rw [noCommand]
      exact ⟨[], [], Broadcasts.feeds (.silent rfl rfl rfl)⟩
  | lead noCommand queue ends =>
      exact ⟨[], _, feeds_taken queue rfl rfl rfl (.inr ⟨noCommand, ends.1⟩)⟩
  | await noCommand waits =>
      have made : server.makes options env ready =
          [Request.tagged (UInt64.ofInt (env.clock 0))] := by
        simp only [makes, waits]
      rw [noCommand, made]
      have begins : Broadcasts [] server
          { server with inLoop := true, tag := UInt64.ofInt (env.clock 0) } [] :=
        .silent rfl rfl rfl
      exact ⟨_, [], Broadcasts.feeds (begins.trans (.replicate _ _ _))⟩
  | @enter sm _ noCommand reset stepped leads =>
      have made : server.makes options env ready =
          closings (env.clock 0) sm.resetWatchers := by
        simp only [makes, leads, reset]
      rw [noCommand, made]
      have entered : Broadcasts [] server { server with
          inLoop := true
          machine := { server.machine with sm := sm.resetWatchers, wm := [] } } [] :=
        .silent rfl rfl rfl
      obtain ⟨grown, broadcasts⟩ := step_broadcasts stepped
      exact ⟨_, [], Broadcasts.feeds (entered.trans broadcasts)⟩
  | @event e rest _ noCommand queue handled leads =>
      have made : server.makes options env ready = (issued options e server).toList := by
        simp only [makes, leads, queue]
      rw [noCommand, made]
      obtain ⟨grown, broadcasts⟩ := handleEvent_broadcasts handled
      exact ⟨grown, [], (broadcasts.within (broadcasts_issued _ _)).feeds_event queue⟩
  | @refuse e rest noCommand queue =>
      rw [noCommand]
      exact ⟨[], [], Broadcasts.feeds_event queue (.silent rfl rfl rfl)⟩
  | command applying queue applied =>
      obtain ⟨-, cmdch, raft⟩ := onCommand_frame applied
      refine ⟨[], _, feeds_taken queue cmdch raft ?_ (.inl applying)⟩
      obtain ⟨rep, m, -, ⟨-, rfl⟩ | ⟨e, rest, -, -, rfl⟩⟩ := onCommand_ok applied <;> rfl
  | timer noCommand stepped leads =>
      have made : server.makes options env ready = closings (env.clock 0) server.machine.sm := by
        simp only [makes, leads]
      rw [noCommand, made]
      obtain ⟨grown, broadcasts⟩ := step_broadcasts stepped
      exact ⟨grown, [], Broadcasts.feeds { broadcasts with }⟩

end Server

-- The request that a client sends with this action.
def Action.received : Action → Option Request
  | .receive req => some req
  | _ => none

def Action.makes (options : Options) (action : Action) (server : Server) : List Request :=
  match action with
  | .turn env ready => server.makes options env ready
  | _ => []

namespace Server

variable {options : Options} {states : RaftStates} {server after : Server}

theorem act_feeds {action : Action} (runs : action.isLocal = true)
    (taken : server.act options states action = .ok after) :
    ∃ grown used, Feeds (action.received.toList ++ action.makes options server)
      (action.applies server) server after grown used := by
  cases action with
  | receive req =>
      cases taken
      exact ⟨[], [], by simp [Server.log, receive], by simp [Server.toApply, receive],
        fun _ => rfl, fun other => by
          simp [waiting, receive, Action.received, Action.makes, List.count_append], .inl rfl⟩
  | notify st =>
      cases taken
      exact ⟨[], [], by simp [Server.log, notify, onState],
        by simp [Server.toApply, notify, onState], fun _ => rfl,
        fun _ => by simp [waiting, notify, onState], .inl rfl⟩
  | stop =>
      cases taken
      exact ⟨[], [], Broadcasts.feeds (.silent rfl rfl rfl)⟩
  | deliver =>
      cases taken
      unfold deliver
      split
      · exact ⟨[], [], Broadcasts.feeds (.silent rfl rfl rfl)⟩
      next entry rest queue =>
        exact ⟨[], [], by simp [Server.log, onSynced, queue],
          by simp [Server.toApply, onSynced, queue], fun _ => rfl,
          fun _ => by simp [waiting, onSynced], .inl rfl⟩
  | turn env ready => exact turn_feeds taken
  | accept | restart => cases runs

variable (options) in
/-- The server stands for what the log up to where it has got makes of an empty store. -/
def Caught (log : List Request) (server : Server) : Prop :=
  ∃ done r, log = done ++ server.toApply ∧
    Runs.run (Replica.apply options) (Machine.stored (Store.freshDb options)) done = .ok r ∧
    Stands options server r

theorem Caught.follow {log : List Request} (caught : Caught options log server) (elected : Bool)
    (grown : List Request) : Caught options (log ++ grown) (server.follow elected grown) := by
  obtain ⟨done, r, split, applied, stands⟩ := caught
  refine ⟨done, r, ?_, applied, stands⟩
  rw [split]
  simp [Server.toApply, Server.follow, Function.comp_def]

theorem Replica.apply_gentle {req : Request} (gentle : req.Gentle) (ping : req.ping = true)
    (r : Replica) : r.apply options req = .ok r := by
  rw [Replica.apply, gentle ping]

theorem Caught.act {log : List Request} {action : Action} {grown used : List Request}
    {asked : List Request} (caught : Caught options log server)
    (gentle : ∀ cmd ∈ log ++ grown, cmd.Gentle) (running : action.isRestart = false)
    (feeds : Feeds asked (action.applies server) server after grown used)
    (taken : server.act options states action = .ok after) :
    Caught options (log ++ grown) after := by
  obtain ⟨done, r, split, applied, stands⟩ := caught
  obtain ⟨next, ran, holds⟩ := stands_act stands running taken
  refine ⟨done ++ used, next, ?_, (Runs.run_append_ok _ _ _ _ _).mpr ⟨r, applied, ?_⟩, holds⟩
  · rw [split, List.append_assoc, feeds.toApply, List.append_assoc]
  · rcases feeds.used with rfl | ⟨noCommand, cmd, rfl, ping⟩
    · exact ran
    · -- The ping that ends a wait is not applied, and would have done nothing.
      rw [noCommand] at ran
      cases ran
      have member : cmd ∈ server.toApply ++ grown := by rw [feeds.toApply]; simp
      have harmless : cmd.Gentle :=
        gentle cmd (by rw [split, List.append_assoc]; exact List.mem_append_right _ member)
      exact (Runs.run_cons_ok _ _ _ _ _).mpr ⟨r, Replica.apply_gentle harmless ping r, rfl⟩

theorem Paired.running {action : Action} {r : Replica} (paired : Paired states server)
    (stands : Stands options server r) (runs : action.isLocal = true)
    (calm : Calm options states action server)
    (taken : server.act options states action = .ok after) : Paired states after := by
  cases action with
  | receive req =>
      cases taken
      exact paired.congr rfl rfl rfl rfl rfl rfl rfl
  | notify st =>
      cases taken
      exact .notify st
  | stop =>
      cases taken
      exact paired.stop
  | deliver =>
      cases taken
      exact paired.deliver
  | turn env ready => exact paired.turn stands.wellFormed calm taken
  | accept | restart => cases runs

theorem Paired.follow {elected : Bool} {grown : List Request} (paired : Paired states server)
    (silent : server.raft.leader = true → elected = false → grown = []) :
    Paired states (server.follow elected grown) := by
  cases leads : (server.follow elected grown).raft.leader with
  | false => exact .of_unled leads
  | true =>
      have both : (server.raft.leader && !elected) = true := leads
      rw [Bool.and_eq_true, Bool.not_eq_true'] at both
      refine paired.congr rfl rfl rfl rfl rfl (leads.trans both.1.symm) ?_
      simp [Server.follow, silent both.1 both.2]

end Server

def Deed.makes {ι : Type} (options : Options) (deed : Deed ι) (cluster : Cluster ι) :
    List Request :=
  match deed with
  | .act i action _ => action.makes options (cluster.servers i)
  | .lose _ => []

namespace Cluster

variable {ι : Type} [DecidableEq ι] {options : Options} {states : RaftStates}
  {cluster next : Cluster ι}

omit [DecidableEq ι] in
-- The clients' requests have a property.
def Receives (P : Request → Prop) (deed : Deed ι) (_ : Cluster ι) : Prop :=
  match deed with
  | .act _ action _ => ∀ req ∈ action.received, P req
  | .lose _ => True

structure Sourced (P : Request → Prop) (cluster : Cluster ι) : Prop where
  logs : ∀ i, (cluster.servers i).log = cluster.log
  asked : ∀ i, ∀ req ∈ (cluster.servers i).waiting, P req
  logged : ∀ cmd ∈ cluster.log, P cmd

theorem spread_each {i : ι} {server : Server} {elected : Bool} {grown : List Request}
    (property : Server → Prop) (here : property server)
    (there : ∀ j, property ((cluster.servers j).follow elected grown)) (j : ι) :
    property ((cluster.spread i server elected grown).servers j) := by
  simp only [spread]
  split
  · exact here
  · exact there j

theorem Sourced.spread {P : Request → Prop} (sourced : cluster.Sourced P) {i : ι} {server : Server}
    {elected : Bool} {grown : List Request} (log : server.log = cluster.log ++ grown)
    (asked : ∀ req ∈ server.waiting, P req) (logged : ∀ cmd ∈ grown, P cmd) :
    (cluster.spread i server elected grown).Sourced P := by
  refine ⟨spread_each (fun other => other.log = cluster.log ++ grown) log fun j => ?_,
    spread_each (fun other => ∀ req ∈ other.waiting, P req) asked sourced.asked,
    fun cmd member => (List.mem_append.mp member).elim (sourced.logged cmd) (logged cmd)⟩
  rw [← sourced.logs j]
  simp [Server.log, Server.follow, Function.comp_def]

theorem Sourced.step {P : Request → Prop} {deed : Deed ι} (sourced : cluster.Sourced P)
    (made : ∀ req ∈ deed.makes options cluster, P req) (receives : Receives P deed cluster)
    (taken : cluster.step options states deed = .ok next) : next.Sourced P := by
  cases deed with
  | act i action runs =>
      obtain ⟨server, acted, taken⟩ := Runs.bind_ok.mp taken
      cases taken
      obtain ⟨grown, used, feeds⟩ := Server.act_feeds runs acted
      have longer : server.log.drop (cluster.servers i).log.length = grown := by
        rw [feeds.log, List.drop_left]
      -- What the server did not make itself was waiting, or has just come.
      have known (req : Request) (there : 0 < grown.count req + server.waiting.count req) :
          P req := by
        have bound := feeds.spent req
        rw [List.count_append] at bound
        rcases Nat.eq_zero_or_pos ((cluster.servers i).waiting.count req) with none | some
        · rcases Nat.eq_zero_or_pos (action.received.toList.count req) with foreign | sent
          · have own : 0 < (action.makes options (cluster.servers i)).count req := by omega
            exact made req (List.count_pos_iff.mp own)
          · exact receives req (Option.mem_toList.mp (List.count_pos_iff.mp sent))
        · exact sourced.asked i req (List.count_pos_iff.mp some)
      rw [longer]
      refine sourced.spread (by rw [feeds.log, sourced.logs]) (fun req member => known req ?_)
        fun cmd member => known cmd ?_
      · exact Nat.lt_of_lt_of_le (List.count_pos_iff.mpr member) (Nat.le_add_left _ _)
      · exact Nat.lt_of_lt_of_le (List.count_pos_iff.mpr member) (Nat.le_add_right _ _)
  | lose i =>
      cases taken
      refine sourced.spread ?_ (sourced.asked i) (List.forall_mem_nil _)
      rw [← sourced.logs i]
      simp [Server.log, Server.follow]

structure Replicated (options : Options) (cluster : Cluster ι) : Prop
    extends Sourced Request.Gentle cluster where
  caught : ∀ i, Server.Caught options cluster.log (cluster.servers i)

omit [DecidableEq ι] in
theorem makes_gentle (deed : Deed ι) (cluster : Cluster ι) :
    ∀ req ∈ deed.makes options cluster, req.Gentle := by
  have closings (now : Time) (sm : SessionManager) :
      ∀ req ∈ Server.closings now sm, req.Gentle := by
    intro req member
    obtain ⟨p, -, rfl⟩ := List.mem_map.mp member
    exact fun ping => by cases ping
  cases deed with
  | lose i => exact List.forall_mem_nil _
  | act i action runs =>
      cases action with
      | turn env ready =>
          simp only [Deed.makes, Action.makes, Server.makes]
          split
          · intro req member
            rw [List.mem_singleton.mp member]
            exact fun _ => rfl
          · split
            · exact closings _ _
            · exact List.forall_mem_nil _
          · exact closings _ _
          · intro req member
            unfold Server.issued at member
            split at member
            · rw [List.mem_singleton.mp member]
              exact fun ping => by cases ping
            · cases member
          · exact List.forall_mem_nil _
      | _ => exact List.forall_mem_nil _

theorem Replicated.step {deed : Deed ι} (replicated : cluster.Replicated options)
    (gentle : Receives Request.Gentle deed cluster)
    (taken : cluster.step options states deed = .ok next) : next.Replicated options := by
  have sourced := replicated.toSourced.step (makes_gentle deed cluster) gentle taken
  refine ⟨sourced, ?_⟩
  cases deed with
  | act i action runs =>
      obtain ⟨server, acted, taken⟩ := Runs.bind_ok.mp taken
      cases taken
      obtain ⟨grown, used, feeds⟩ := Server.act_feeds runs acted
      have longer : server.log.drop (cluster.servers i).log.length = grown := by
        rw [feeds.log, List.drop_left]
      rw [longer] at sourced ⊢
      exact spread_each (Server.Caught options (cluster.log ++ grown))
        ((replicated.caught i).act sourced.logged (Action.isRestart_of_isLocal runs) feeds acted)
        fun j => (replicated.caught j).follow _ grown
  | lose i =>
      cases taken
      exact spread_each (Server.Caught options (cluster.log ++ []))
        ((replicated.caught i).follow true []) fun j => (replicated.caught j).follow false []

omit [DecidableEq ι] in
theorem Starts.idle (starts : cluster.Starts options) (i : ι) :
    (cluster.servers i).log = [] ∧ (cluster.servers i).toApply = [] ∧
      (cluster.servers i).eventch = [] ∧
      Server.Stands options (cluster.servers i) (Machine.stored (Store.freshDb options)) := by
  obtain ⟨env, first, sid, begun, same⟩ := starts.servers i
  obtain ⟨other, r, again, stands, reloaded, -, -, -, -, cmdch, -, raft⟩ :=
    Server.initial_ok options env
  cases begun.symm.trans again
  cases Server.reloaded_fresh reloaded
  have eventch : first.eventch = [] := by
    obtain ⟨_, -, done⟩ := Runs.bind_ok.mp begun
    cases done
    rfl
  rw [same]
  exact ⟨by simp [Server.log, Server.withSid, Server.onMachine, raft],
    by simp [Server.toApply, Server.withSid, Server.onMachine, cmdch, raft], eventch,
    Server.withSid_stands stands sid⟩

omit [DecidableEq ι] in
theorem Starts.sourced (starts : cluster.Starts options) (P : Request → Prop) :
    cluster.Sourced P := by
  refine ⟨fun i => ?_, fun i req member => ?_, fun cmd member => ?_⟩
  · rw [(starts.idle i).1, starts.log]
  · rw [Server.waiting, (starts.idle i).2.2.1] at member
    cases member
  · rw [starts.log] at member
    cases member

omit [DecidableEq ι] in
theorem Starts.replicated (starts : cluster.Starts options) : cluster.Replicated options := by
  refine ⟨starts.sourced _, fun i => ?_⟩
  obtain ⟨-, toApply, -, stands⟩ := starts.idle i
  exact ⟨[], _, by rw [starts.log, toApply]; rfl, rfl, stands⟩

theorem replicas_agree {deeds : List (Deed ι)} {last : Cluster ι} (starts : cluster.Starts options)
    (gentle : Runs.Meets (step options states) (Receives Request.Gentle) cluster deeds)
    (reached : Runs.run (step options states) cluster deeds = .ok last) :
    (∀ i, ∃ done, last.log = done ++ (last.servers i).toApply ∧
      Runs.run (Replica.apply options) (Machine.stored (Store.freshDb options)) done =
        .ok (last.servers i).machine.view) ∧
    ∀ i j, (last.servers i).toApply.length = (last.servers j).toApply.length →
      (last.servers i).machine.view = (last.servers j).machine.view := by
  have replicated := Runs.run_invariant (step options states) (Receives Request.Gentle)
    (Replicated options)
    (fun _ _ _ replicated gentle taken => replicated.step gentle taken) cluster last deeds
    starts.replicated gentle reached
  have each (i : ι) : ∃ done, last.log = done ++ (last.servers i).toApply ∧
      Runs.run (Replica.apply options) (Machine.stored (Store.freshDb options)) done =
        .ok (last.servers i).machine.view := by
    obtain ⟨done, r, split, applied, _, represents⟩ := replicated.caught i
    exact ⟨done, split, by rw [represents.view]; exact applied⟩
  refine ⟨each, fun i j level => ?_⟩
  obtain ⟨one, splitOne, appliedOne⟩ := each i
  obtain ⟨two, splitTwo, appliedTwo⟩ := each j
  have same : one = two :=
    (List.append_inj' (splitOne.symm.trans splitTwo) level).1
  rw [same, appliedTwo] at appliedOne
  exact (Except.ok.inj appliedOne).symm

instance (P : Request → Prop) [DecidablePred P] (deed : Deed ι) (cluster : Cluster ι) :
    Decidable (Receives P deed cluster) :=
  match deed with
  | .act _ action _ => inferInstanceAs (Decidable (∀ req ∈ action.received, P req))
  | .lose _ => .isTrue trivial

-- A session is registered with one server, which then follows the other one.
def joining : List (Deed Bool) :=
  perform true (electing 7 0 ++ enrolling ++ [.deliver, .turn (.still 0) .command]) ++
    perform false (electing 8 2) ++
    perform true [.notify 0, .turn (.still 0) .state, .turn (.still 0) .timer, .deliver,
      .turn (.still 0) .command]

theorem replicas_agree_joining : ∃ first last,
    Server.initial Options.standard (.still 0) = .ok first ∧
      Runs.run (step Options.standard .sample) (pair first) joining = .ok last ∧
      last.log.length = 3 ∧
      (last.servers true).machine.view = (last.servers false).machine.view := by
  have found : Runs.passes (Server.initial Options.standard (.still 0)) (fun first =>
      decide (Runs.Meets (step Options.standard .sample) (Receives Request.Gentle) (pair first)
        joining) &&
        Runs.passes (Runs.run (step Options.standard .sample) (pair first) joining) fun last =>
          decide (last.log.length = 3 ∧
            (last.servers true).toApply.length = (last.servers false).toApply.length)) = true := by
    decide +kernel
  simp only [Runs.passes_iff, Bool.and_eq_true, decide_eq_true_eq] at found
  obtain ⟨first, started, gentle, last, reached, three, level⟩ := found
  exact ⟨first, last, started, reached, three,
    (replicas_agree ⟨rfl, fun _ => ⟨_, first, 0, started, rfl⟩⟩ gentle reached).2 true false level⟩

def received (deeds : List (Deed ι)) : List Request :=
  deeds.filterMap fun deed =>
    match deed with
    | .act _ action _ => action.received
    | .lose _ => none

variable (options states) in
def made (cluster : Cluster ι) (deeds : List (Deed ι)) : List Request :=
  Runs.trail (step options states) (Deed.makes options) cluster deeds

section Once

variable [Fintype ι]

def waiting (req : Request) (cluster : Cluster ι) : Nat :=
  ∑ i, (cluster.servers i).waiting.count req

theorem waiting_spread (cluster : Cluster ι) (req : Request) (i : ι) (server : Server)
    (elected : Bool) (grown : List Request) :
    (cluster.spread i server elected grown).waiting req + (cluster.servers i).waiting.count req =
      cluster.waiting req + server.waiting.count req := by
  simp only [waiting]
  rw [← Finset.add_sum_erase _ _ (Finset.mem_univ i),
    ← Finset.add_sum_erase _ _ (Finset.mem_univ i)]
  have here : (cluster.spread i server elected grown).servers i = server := if_pos rfl
  have there : ∑ j ∈ Finset.univ.erase i,
      ((cluster.spread i server elected grown).servers j).waiting.count req =
        ∑ j ∈ Finset.univ.erase i, (cluster.servers j).waiting.count req := by
    refine Finset.sum_congr rfl fun j member => ?_
    have other : (cluster.spread i server elected grown).servers j =
        (cluster.servers j).follow elected grown := if_neg (Finset.ne_of_mem_erase member)
    rw [other]
    rfl
  rw [here, there]
  omega

theorem step_once {deed : Deed ι} (req : Request)
    (taken : cluster.step options states deed = .ok next) :
    next.log.count req + next.waiting req ≤
      cluster.log.count req + cluster.waiting req +
        ((received [deed]).count req + (deed.makes options cluster).count req) := by
  cases deed with
  | act i action runs =>
      obtain ⟨server, acted, taken⟩ := Runs.bind_ok.mp taken
      cases taken
      obtain ⟨grown, used, feeds⟩ := Server.act_feeds runs acted
      have longer : server.log.drop (cluster.servers i).log.length = grown := by
        rw [feeds.log, List.drop_left]
      have asked : received [Deed.act i action runs] = action.received.toList := by
        simp only [received, List.filterMap_cons, List.filterMap_nil]
        cases action.received <;> rfl
      rw [longer, asked]
      have moved := cluster.waiting_spread req i server (action.elects states) grown
      have bound := feeds.spent req
      simp only [spread, List.count_append, Deed.makes] at moved bound ⊢
      omega
  | lose i =>
      cases taken
      have moved := cluster.waiting_spread req i ((cluster.servers i).follow true []) false []
      have same : ((cluster.servers i).follow true []).waiting = (cluster.servers i).waiting := rfl
      rw [same] at moved
      simp only [spread, List.count_append, List.count_nil] at moved ⊢
      omega

-- Over all elections and all servers.
theorem commands_once {deeds : List (Deed ι)} {last : Cluster ι} (starts : cluster.Starts options)
    (reached : Runs.run (step options states) cluster deeds = .ok last) (req : Request) :
    last.log.count req ≤
      (received deeds).count req + (made options states cluster deeds).count req := by
  have bound (deeds : List (Deed ι)) (cluster : Cluster ι)
      (reached : Runs.run (step options states) cluster deeds = .ok last) :
      last.log.count req + last.waiting req ≤ cluster.log.count req + cluster.waiting req +
        ((received deeds).count req + (made options states cluster deeds).count req) := by
    induction deeds generalizing cluster with
    | nil =>
        cases reached
        simp [received, made, Runs.trail]
    | cons deed rest ih =>
        obtain ⟨middle, taken, later⟩ := (Runs.run_cons_ok _ _ _ _ _).mp reached
        have first := step_once req taken
        have others := ih middle later
        have split : received (deed :: rest) = received [deed] ++ received rest :=
          List.filterMap_append (l := [deed])
        have parts : made options states cluster (deed :: rest) =
            deed.makes options cluster ++ made options states middle rest := by
          simp only [made, Runs.trail, taken]
        rw [split, parts, List.count_append, List.count_append]
        omega
  have none : cluster.waiting req = 0 :=
    Finset.sum_eq_zero fun i _ => by rw [Server.waiting, (starts.idle i).2.2.1]; rfl
  have whole := bound deeds cluster reached
  rw [starts.log, none, List.count_nil] at whole
  omega

def sampleCreate : Request := Request.creating 1 ['/', 'a'] kPersist

-- The session creates a node.
def building : List (Deed Bool) :=
  perform true (electing 7 0 ++ enrolling ++ [.deliver, .turn (.still 0) .command,
    .receive sampleCreate, .turn (.still 0) .event])

theorem commands_once_building : ∃ first last,
    Server.initial Options.standard (.still 0) = .ok first ∧
      Runs.run (step Options.standard .sample) (pair first) building = .ok last ∧
      made Options.standard .sample (pair first) building =
        [Request.tagged 7, Request.registering 1 5000] ∧
      last.log.count sampleCreate = 1 ∧
      last.log.count sampleCreate ≤ (received building).count sampleCreate +
        (made Options.standard .sample (pair first) building).count sampleCreate := by
  have found : Runs.passes (Server.initial Options.standard (.still 0)) (fun first =>
      Runs.passes (Runs.run (step Options.standard .sample) (pair first) building) fun last =>
        decide (made Options.standard .sample (pair first) building =
          [Request.tagged 7, Request.registering 1 5000] ∧
            last.log.count sampleCreate = 1)) = true := by
    decide +kernel
  simp only [Runs.passes_iff, decide_eq_true_eq] at found
  obtain ⟨first, started, last, reached, made, single⟩ := found
  exact ⟨first, last, started, reached, made, single,
    commands_once ⟨rfl, fun _ => ⟨_, first, 0, started, rfl⟩⟩ reached sampleCreate⟩

end Once

omit [DecidableEq ι] in
def Calm (options : Options) (states : RaftStates) (deed : Deed ι) (cluster : Cluster ι) : Prop :=
  match deed with
  | .act i action _ => Server.Calm options states action (cluster.servers i)
  | .lose _ => True

structure Answering (options : Options) (states : RaftStates) (cluster : Cluster ι) : Prop
    extends Replicated options cluster where
  sole : ∀ i j, (cluster.servers i).raft.leader = true → (cluster.servers j).raft.leader = true →
    i = j
  paired : ∀ i, Server.Paired states (cluster.servers i)
  holds : ∀ i, (cluster.servers i).machine.HoldsPings

theorem Answering.spread (answering : cluster.Answering options states) {i : ι} {server : Server}
    {elected : Bool} {grown : List Request}
    (replicated : (cluster.spread i server elected grown).Replicated options)
    (elects : server.raft.leader = true → elected = true ∨ (cluster.servers i).raft.leader = true)
    (led : (cluster.servers i).raft.leader = false → grown = [])
    (paired : Server.Paired states server) (holds : server.machine.HoldsPings) :
    (cluster.spread i server elected grown).Answering options states := by
  have here : (cluster.spread i server elected grown).servers i = server := if_pos rfl
  have there (j : ι) (other : j ≠ i) : (cluster.spread i server elected grown).servers j =
      (cluster.servers j).follow elected grown := if_neg other
  have unled (j : ι) (other : j ≠ i) (leads : (cluster.servers j).raft.leader = true) :
      (cluster.servers i).raft.leader = false :=
    Bool.eq_false_iff.mpr fun led => other (answering.sole j i leads led)
  -- Another server that leads on saw no election, and this one does not lead.
  have follows (j : ι) (other : j ≠ i)
      (leads : ((cluster.servers j).follow elected grown).raft.leader = true) :
      (cluster.servers j).raft.leader = true ∧ server.raft.leader = false := by
    have both : ((cluster.servers j).raft.leader && !elected) = true := leads
    rw [Bool.and_eq_true, Bool.not_eq_true'] at both
    refine ⟨both.1, Bool.eq_false_iff.mpr fun leads => ?_⟩
    rcases elects leads with now | still
    · rw [both.2] at now
      cases now
    · rw [unled j other both.1] at still
      cases still
  refine ⟨replicated, fun j k => ?_, fun j => ?_, fun j => ?_⟩
  · by_cases one : j = i <;> by_cases two : k = i
    · exact fun _ _ => one.trans two.symm
    · rw [one, here, there k two]
      exact fun leads later => absurd leads (by simp [(follows k two later).2])
    · rw [two, here, there j one]
      exact fun later leads => absurd leads (by simp [(follows j one later).2])
    · rw [there j one, there k two]
      exact fun first second => answering.sole j k (follows j one first).1 (follows k two second).1
  · by_cases same : j = i
    · rw [same, here]
      exact paired
    · rw [there j same]
      exact (answering.paired j).follow fun leads _ => led (unled j same leads)
  · by_cases same : j = i
    · rw [same, here]
      exact holds
    · rw [there j same]
      exact answering.holds j

theorem Answering.step {deed : Deed ι} (answering : cluster.Answering options states)
    (gentle : Receives Request.Gentle deed cluster) (calm : Calm options states deed cluster)
    (taken : cluster.step options states deed = .ok next) : next.Answering options states := by
  have replicated := answering.toReplicated.step gentle taken
  cases deed with
  | act i action runs =>
      obtain ⟨server, acted, taken⟩ := Runs.bind_ok.mp taken
      cases taken
      obtain ⟨-, r, -, -, stands⟩ := answering.caught i
      obtain ⟨grown, used, feeds⟩ := Server.act_feeds runs acted
      have tells := Server.act_tells stands (answering.holds i) ((answering.paired i).pairs calm)
        acted
      refine answering.spread replicated (Server.act_leader stands runs acted) (fun unled => ?_)
        ((answering.paired i).running stands runs calm acted) tells.holds
      rw [feeds.log, List.drop_left]
      exact feeds.led unled
  | lose i =>
      cases taken
      exact answering.spread replicated (fun leads => by simp [Server.follow] at leads)
        (fun _ => rfl) ((answering.paired i).follow fun _ elected => by cases elected)
        (answering.holds i)

omit [DecidableEq ι] in
theorem Starts.answering (starts : cluster.Starts options) (states : RaftStates) :
    cluster.Answering options states ∧ ∀ i, (cluster.servers i).machine.replies = [] := by
  have started (i : ι) : (cluster.servers i).raft.leader = false ∧
      (cluster.servers i).machine.replies = [] ∧ (cluster.servers i).machine.HoldsPings := by
    obtain ⟨env, first, sid, begun, same⟩ := starts.servers i
    obtain ⟨other, r, again, -, -, -, -, -, -, -, -, raft⟩ := Server.initial_ok options env
    cases begun.symm.trans again
    obtain ⟨replies, holds⟩ := Server.initial_silent begun
    rw [same]
    exact ⟨by simp [Server.withSid, Server.onMachine, raft], replies, holds⟩
  refine ⟨⟨starts.replicated, fun i j leads => ?_, fun i => .of_unled (started i).1,
    fun i => (started i).2.2⟩, fun i => (started i).2.1⟩
  rw [(started i).1] at leads
  cases leads

theorem step_log {deed : Deed ι} (taken : cluster.step options states deed = .ok next) :
    cluster.log <+: next.log := by
  cases deed with
  | act i action runs =>
      obtain ⟨server, acted, taken⟩ := Runs.bind_ok.mp taken
      cases taken
      exact List.prefix_append _ _
  | lose i =>
      cases taken
      exact List.prefix_append _ _

theorem Explained.weaken {options : Options} {r : Replica} {e : Event} {rep : Response}
    {next other : Option Request} (told : Server.Explained options r next e rep)
    (same : ∀ cmd, next = some cmd → other = some cmd) :
    Server.Explained options r other e rep := by
  cases told with
  | command proc cmd turn asked => exact .command proc cmd (same cmd turn) asked
  | looked proc read live => exact .looked proc read live
  | gone asked dead => exact .gone asked dead
  | renewed sid asked live => exact .renewed sid asked live
  | lapsed sid asked dead => exact .lapsed sid asked dead
  | pinged rep asked pong => exact .pinged rep asked pong
  | refused status elsewhere => exact .refused status elsewhere

theorem Answering.told {deed : Deed ι} (answering : cluster.Answering options states)
    (calm : Calm options states deed cluster)
    (taken : cluster.step options states deed = .ok next) (i : ι) :
    ∃ sent, (next.servers i).machine.replies = (cluster.servers i).machine.replies ++ sent ∧
      ∀ answer ∈ sent, ∃ n r, n ≤ cluster.log.length ∧
        Runs.run (Replica.apply options) (Machine.stored (Store.freshDb options))
          (cluster.log.take n) = .ok r ∧
        ∃ turn, (∀ cmd, turn = some cmd → cluster.log[n]? = some cmd) ∧
          Server.Explained options r turn answer.1 answer.2 := by
  have still (j : ι) (elected : Bool) (grown : List Request) :
      ((cluster.servers j).follow elected grown).machine.replies =
        (cluster.servers j).machine.replies ++ [] := (List.append_nil _).symm
  cases deed with
  | act j action runs =>
      obtain ⟨server, acted, taken⟩ := Runs.bind_ok.mp taken
      cases taken
      by_cases same : i = j
      · subst same
        obtain ⟨done, r, split, applied, stands⟩ := answering.caught i
        obtain ⟨sent, replies, told⟩ := (Server.act_tells stands (answering.holds i)
          ((answering.paired i).pairs calm) acted).sent
        refine ⟨sent, by simpa only [Cluster.spread, if_pos] using replies, fun answer member =>
          ⟨done.length, r, ?_, ?_, _, fun cmd turn => ?_, told answer member⟩⟩
        · rw [split, List.length_append]
          exact Nat.le_add_right _ _
        · rw [split, List.take_left]
          exact applied
        · -- The command whose turn it is stands first among those to be applied.
          have first : ∃ rest, (cluster.servers i).toApply = cmd :: rest := by
            cases action with
            | turn env ready =>
                obtain ⟨entry, rest, queue, rfl⟩ := Server.applies_some turn
                exact ⟨_, by simp [Server.toApply, queue]; rfl⟩
            | _ => cases turn
          obtain ⟨rest, first⟩ := first
          rw [split, first, List.getElem?_append_right (Nat.le_refl _), Nat.sub_self]
          rfl
      · refine ⟨[], ?_, List.forall_mem_nil _⟩
        simp only [Cluster.spread, if_neg same]
        exact still i _ _
  | lose j =>
      cases taken
      refine ⟨[], ?_, List.forall_mem_nil _⟩
      simp only [Cluster.spread]
      split
      next same =>
        subst same
        exact still i _ _
      · exact still i _ _

theorem answers_linear {deeds : List (Deed ι)} {last : Cluster ι} (starts : cluster.Starts options)
    (gentle : Runs.Meets (step options states) (Receives Request.Gentle) cluster deeds)
    (calm : Runs.Meets (step options states) (Calm options states) cluster deeds)
    (reached : Runs.run (step options states) cluster deeds = .ok last) {i : ι} {index : Nat}
    {e : Event} {rep : Response}
    (answered : (last.servers i).machine.replies[index]? = some (e, rep)) :
    ∃ past deed rest current next n r, deeds = past ++ deed :: rest ∧
      Runs.run (step options states) cluster past = .ok current ∧
      current.step options states deed = .ok next ∧
      (current.servers i).machine.replies.length ≤ index ∧
      (next.servers i).machine.replies[index]? = some (e, rep) ∧ n ≤ current.log.length ∧
      Runs.run (Replica.apply options) (Machine.stored (Store.freshDb options))
        (last.log.take n) = .ok r ∧
      Server.Explained options r last.log[n]? e rep := by
  obtain ⟨answering, silent⟩ := starts.answering states
  have traced := Runs.run_appended (step options states)
    (fun deed cluster => Receives Request.Gentle deed cluster ∧ Calm options states deed cluster)
    (Answering options states) (fun cluster => (cluster.servers i).machine.replies) _
    (fun _ _ _ answering guarded taken => answering.step guarded.1 guarded.2 taken)
    (fun _ _ _ answering guarded taken => answering.told guarded.2 taken i)
    cluster last deeds answering (Runs.meets_and _ _ _ cluster deeds gentle calm) reached index
    (e, rep) answered
  rcases traced with early | ⟨past, deed, rest, current, next, same, before, taken, new, given, n,
    r, here, applied, turn, place, told⟩
  · rw [silent i] at early
    cases early
  · obtain ⟨middle, earlier, later⟩ :=
      (Runs.run_append_ok (step options states) cluster last past (deed :: rest)).mp
        (by rw [← same]; exact reached)
    cases before.symm.trans earlier
    obtain ⟨tail, longer⟩ := Runs.run_invariant_always (step options states)
      (fun other => current.log <+: other.log)
      (fun _ _ _ grown taken => grown.trans (step_log taken)) current last (deed :: rest)
      (List.prefix_refl _) later
    refine ⟨past, deed, rest, current, next, n, r, same, before, taken, new, given, here, ?_,
      Explained.weaken told fun cmd now => ?_⟩
    · rw [← longer, List.take_append_of_le_length here]
      exact applied
    · rw [← longer, List.getElem?_append_left (List.getElem?_eq_some_iff.mp (place cmd now)).1]
      exact place cmd now

instance (deed : Deed ι) (cluster : Cluster ι) : Decidable (Calm options states deed cluster) :=
  match deed with
  | .act i action _ =>
      inferInstanceAs (Decidable (Server.Calm options states action (cluster.servers i)))
  | .lose _ => .isTrue trivial

theorem answers_linear_joining : ∃ (last : Cluster Bool) (e : Event) (rep : Response) (n : Nat)
    (r : Replica), (last.servers true).machine.replies = [(e, rep)] ∧
      Runs.run (Replica.apply Options.standard) (Machine.stored (Store.freshDb Options.standard))
        (last.log.take n) = .ok r ∧
      Server.Explained Options.standard r last.log[n]? e rep := by
  have found : Runs.passes (Server.initial Options.standard (.still 0)) (fun first =>
      decide (Runs.Meets (step Options.standard .sample) (Receives Request.Gentle) (pair first)
        joining) &&
        decide (Runs.Meets (step Options.standard .sample) (Calm Options.standard .sample)
          (pair first) joining) &&
        Runs.passes (Runs.run (step Options.standard .sample) (pair first) joining) fun last =>
          decide ((last.servers true).machine.replies.length = 1)) = true := by
    decide +kernel
  simp only [Runs.passes_iff, Bool.and_eq_true, decide_eq_true_eq] at found
  obtain ⟨first, started, ⟨gentle, calm⟩, last, reached, single⟩ := found
  obtain ⟨⟨e, rep⟩, replies⟩ := List.length_eq_one_iff.mp single
  have answered : (last.servers true).machine.replies[0]? = some (e, rep) := by rw [replies]; rfl
  obtain ⟨-, -, -, -, -, n, r, -, -, -, -, -, -, applied, told⟩ := answers_linear
    ⟨rfl, fun _ => ⟨_, first, 0, started, rfl⟩⟩ gentle calm reached answered
  exact ⟨last, e, rep, n, r, replies, applied, told⟩

end Cluster

end Pyxis
