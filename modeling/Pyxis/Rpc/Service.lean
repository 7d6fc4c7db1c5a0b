import Mathlib.Data.List.Nodup
import Mathlib.Data.List.Perm.Basic
import Mathlib.Logic.Function.Basic
import Pyxis.Client.Rpc
import Pyxis.Server.Fates

set_option autoImplicit false

open Std (ExtTreeMap)

namespace Pyxis.Rpc

-- What a connection still has to carry each way. `context` is set when the server accepts it.
structure Connection (κ : Type) where
  owner : κ
  requests : List (Xid × Nat)
  responses : List Message
  context : Option UInt64
  deriving DecidableEq

/-- What the closure of an event holds: the session, by its connection, and the xid of the request.
Nothing depends on `owner` and `call`, which name the call that the request was sent for. -/
structure Call (κ : Type) where
  event : Nat
  connection : Nat
  xid : Xid
  owner : κ
  call : Nat
  deriving DecidableEq

structure Service (κ : Type) where
  clients : κ → Client
  current : κ → Option Nat
  connections : List (Connection κ)
  sid : UInt64
  sessions : ExtTreeMap UInt64 Nat
  server : Server
  calls : List (Call κ)

inductive Deed (κ : Type) where
  | call (k : κ)
  | loop (k : κ)
  | timeout (k : κ) (xid : Xid)
  -- The three ways in which `connected` changes at a client.
  | connect (k : κ)
  | disconnect (k : κ)
  | close (k : κ)
  -- `onConnection` of the server, for either end of a connection's life there.
  | accept (n : Nat)
  | hangUp (n : Nat)
  | request (n : Nat)
  | response (k : κ)
  | serve (action : Pyxis.Action)

namespace Service

variable {κ : Type}

def start (server : Server) : Service κ where
  clients _ := .new
  current _ := none
  connections := []
  sid := 0
  sessions := ∅
  server := server
  calls := []

-- The map has the only shared pointer to a session.
def alive (n : Nat) (service : Service κ) : Bool :=
  match service.connections[n]?.bind Connection.context with
  | none => false
  | some sid => service.sessions[sid]? = some n

def onConnection (n : Nat) (change : Connection κ → Connection κ) (service : Service κ) :
    Service κ :=
  { service with connections := service.connections.modify n change }

def accept (n : Nat) (service : Service κ) : Service κ :=
  match service.connections[n]? with
  | some ⟨_, _, _, none⟩ =>
      { service.onConnection n fun connection =>
          { connection with context := some service.sid } with
        sessions := service.sessions.insertIfNew service.sid n
        sid := service.sid + 1 }
  | _ => service

def hangUp (n : Nat) (service : Service κ) : Service κ :=
  match service.connections[n]?.bind Connection.context with
  | none => service
  | some sid => { service with sessions := service.sessions.erase sid }

variable (asks : κ → Nat → Request)

def onRpcMessage (n : Nat) (service : Service κ) : Service κ :=
  match service.connections[n]? with
  | some ⟨owner, (xid, call) :: rest, _, _⟩ =>
      if service.alive n then
        { service.onConnection n fun connection => { connection with requests := rest } with
          server := service.server.receive (asks owner call)
          calls := service.calls ++ [⟨service.server.nextEvent, n, xid, owner, call⟩] }
      else service
  | _ => service

-- `Done` runs as an event is destroyed, which answers it.
def onRpcDone (answer : Event × Response) (service : Service κ) : Service κ :=
  match service.calls.find? fun call => call.event = answer.1.id with
  | none => service
  | some call =>
      if service.alive call.connection then
        service.onConnection call.connection fun connection =>
          { connection with responses := connection.responses ++ [⟨call.xid, answer.2⟩] }
      else service

variable [DecidableEq κ]

def onClient (k : κ) (action : Action) (service : Service κ) : Except Fault (Service κ) := do
  let client ← (service.clients k).act action
  return { service with clients := Function.update service.clients k client }

def loop (k : κ) (service : Service κ) : Except Fault (Service κ) := do
  let next ← service.onClient k .loop
  match service.current k with
  | none => return next
  | some n =>
      let sent := (next.clients k).sent.drop (service.clients k).sent.length
      return next.onConnection n fun connection =>
        { connection with requests := connection.requests ++ sent.map Prod.swap }

def connect (k : κ) (service : Service κ) : Except Fault (Service κ) :=
  if (service.clients k).closing || (service.current k).isSome then .ok service
  else do
    let next ← service.onClient k (.connection true)
    return { next with
      current := Function.update service.current k (some service.connections.length)
      connections := service.connections ++ [⟨k, [], [], none⟩] }

-- Both ways of losing a connection end the calls that wait for a response.
def disconnect (k : κ) (action : Action) (service : Service κ) : Except Fault (Service κ) := do
  let next ← service.onClient k action
  return { next with current := Function.update service.current k none }

def response (k : κ) (service : Service κ) : Except Fault (Service κ) :=
  match service.current k with
  | none => .ok service
  | some n =>
      match service.connections[n]? with
      | some ⟨_, _, message :: rest, _⟩ =>
          (service.onConnection n fun connection =>
            { connection with responses := rest }).onClient k (.message message)
      | _ => .ok service

variable (options : Options) (states : RaftStates)

def serve (action : Pyxis.Action) (service : Service κ) : Except Fault (Service κ) := do
  let server ← service.server.act options states action
  let answers := server.machine.replies.drop service.server.machine.replies.length
  return answers.foldl (fun service answer => service.onRpcDone answer)
    { service with server := server }

def step (deed : Deed κ) (service : Service κ) : Except Fault (Service κ) :=
  match deed with
  | .call k => service.onClient k .call
  | .loop k => service.loop k
  | .timeout k xid => service.onClient k (.timeout xid)
  | .connect k => service.connect k
  | .disconnect k => service.disconnect k (.connection false)
  | .close k => service.disconnect k .close
  | .accept n => .ok (service.accept n)
  | .hangUp n => .ok (service.hangUp n)
  | .request n => .ok (service.onRpcMessage asks n)
  | .response k => service.response k
  | .serve action => service.serve options states action

-- A client makes fewer than 2^64 calls, and the server does not restart, which would take its
-- connections with it.
def Fit (deed : Deed κ) (service : Service κ) : Prop :=
  match deed with
  | .call k => (service.clients k).issued + 1 < 2 ^ 64
  | .serve action => action.isRestart = false
  | _ => True

instance : DecidableRel (Fit (κ := κ)) := fun deed service =>
  match deed with
  | .call k => inferInstanceAs (Decidable ((service.clients k).issued + 1 < 2 ^ 64))
  | .serve action => inferInstanceAs (Decidable (action.isRestart = false))
  | .loop _ | .timeout _ _ | .connect _ | .disconnect _ | .close _ | .accept _ | .hangUp _
  | .request _ | .response _ => .isTrue trivial

end Service

namespace Client

structure Moves (action : Action) (c next : Client) : Prop where
  issued : next.issued = c.issued + if action = .call then 1 else 0
  sent : c.sent <+: next.sent
  done : ∀ done ∈ next.done, done.status.isOk = true → done ∈ c.done ∨
    ∃ message, action = .message message ∧ done.rep = some message

theorem clearCalls_moves {action : Action} {c next : Client} (quiet : action ≠ .call)
    (cleared : c.clearCalls = .ok next) : Moves action c next := by
  unfold clearCalls at cleared
  split_ifs at cleared
  cases cleared
  refine ⟨by simp [quiet], List.prefix_refl _, fun done member good => ?_⟩
  rcases List.mem_append.mp member with before | ended
  · exact .inl before
  · obtain ⟨entry, -, rfl⟩ := List.mem_map.mp ended
    cases good

theorem act_moves {action : Action} {c next : Client} (taken : c.act action = .ok next) :
    Moves action c next := by
  -- A call that is refused or runs out of time does not end well.
  have ends (last : Completion) (bad : last.status.isOk = false) (done : Completion)
      (member : done ∈ c.done ++ [last]) (good : done.status.isOk = true) : done ∈ c.done := by
    rcases List.mem_append.mp member with before | final
    · exact before
    · rw [List.mem_singleton.mp final, bad] at good
      cases good
  cases action with
  | call =>
      cases taken
      exact ⟨rfl, List.prefix_refl _, fun _ member _ => .inl member⟩
  | loop =>
      cases taken
      unfold runQueued
      split
      · exact ⟨rfl, List.prefix_refl _, fun _ member _ => .inl member⟩
      · unfold callInLoop
        split
        · exact ⟨rfl, List.prefix_refl _,
            fun done member good => .inl (ends _ rfl done member good)⟩
        · exact ⟨rfl, List.prefix_append _ _, fun _ member _ => .inl member⟩
  | message message =>
      cases taken
      unfold onRpcMessage
      split
      · exact ⟨rfl, List.prefix_refl _, fun _ member _ => .inl member⟩
      · refine ⟨rfl, List.prefix_refl _, fun done member _ => ?_⟩
        rcases List.mem_append.mp member with before | final
        · exact .inl before
        · rw [List.mem_singleton.mp final]
          exact .inr ⟨message, rfl, rfl⟩
  | timeout xid =>
      cases taken
      unfold onCallTimeout
      split
      · exact ⟨rfl, List.prefix_refl _, fun _ member _ => .inl member⟩
      · exact ⟨rfl, List.prefix_refl _, fun done member good => .inl (ends _ rfl done member good)⟩
  | connection up =>
      cases up with
      | true =>
          cases taken
          exact ⟨rfl, List.prefix_refl _, fun _ member _ => .inl member⟩
      | false =>
          have moves : Moves (.connection false) { c with connected := false } next :=
            clearCalls_moves nofun taken
          exact ⟨moves.issued, moves.sent, moves.done⟩
  | close =>
      have moves : Moves .close { c with closing := true, connected := false } next :=
        clearCalls_moves nofun taken
      exact ⟨moves.issued, moves.sent, moves.done⟩

end Client

theorem modify_split {α : Type} {items : List α} {n : Nat} {item : α}
    (here : items[n]? = some item) :
    ∃ before after, items = before ++ item :: after ∧
      ∀ change, items.modify n change = before ++ change item :: after := by
  obtain ⟨bound, rfl⟩ := List.getElem?_eq_some_iff.mp here
  exact ⟨items.take n, items.drop (n + 1), by simp,
    fun change => List.modify_eq_take_cons_drop bound⟩

def Connection.tickets {κ : Type} (connection : Connection κ) : List (κ × Nat) :=
  connection.requests.map fun message => (connection.owner, message.2)

namespace Service

variable {κ : Type}

def owner? (n : Nat) (service : Service κ) : Option κ :=
  service.connections[n]?.map Connection.owner

-- The calls whose request is at the server or on its way there.
def tickets (service : Service κ) : List (κ × Nat) :=
  service.calls.map (fun call => (call.owner, call.call)) ++
    service.connections.flatMap Connection.tickets

def Answered (asks : κ → Nat → Request) (service : Service κ) (k : κ) (call : Nat)
    (rep : Response) : Prop :=
  ∃ closure ∈ service.calls, closure.owner = k ∧ closure.call = call ∧
    ∃ e, e.id = closure.event ∧ e.req = asks k call ∧ (e, rep) ∈ service.server.machine.replies

structure Holds (asks : κ → Nat → Request) (service : Service κ) (call : Call κ) : Prop where
  owner : service.owner? call.connection = some call.owner
  sent : (call.call, call.xid) ∈ (service.clients call.owner).sent
  event : call.event < service.server.nextEvent
  req : ∀ e ∈ service.server.fates, e.id = call.event → e.req = asks call.owner call.call

structure Carries (asks : κ → Nat → Request) (service : Service κ) (connection : Connection κ) :
    Prop where
  requests : ∀ message ∈ connection.requests,
    (message.2, message.1) ∈ (service.clients connection.owner).sent
  responses : ∀ message ∈ connection.responses, ∃ call,
    (call, message.xid) ∈ (service.clients connection.owner).sent ∧
      service.Answered asks connection.owner call message.rep

structure Sound (options : Options) (states : RaftStates) (asks : κ → Nat → Request)
    (service : Service κ) : Prop where
  reachable : Server.Reachable options states service.server
  clients : ∀ k, (service.clients k).Sound
  few : ∀ k, (service.clients k).issued < 2 ^ 64
  linked : ∀ k n, service.current k = some n → service.owner? n = some k
  once : service.tickets.Nodup
  calls : ∀ call ∈ service.calls, service.Holds asks call
  connections : ∀ connection ∈ service.connections, service.Carries asks connection
  done : ∀ k, ∀ done ∈ (service.clients k).done, done.status.isOk = true →
    ∃ message, done.rep = some message ∧ service.Answered asks k done.call message.rep

variable {options : Options} {states : RaftStates} {asks : κ → Nat → Request}
  {service next : Service κ}

theorem Answered.mono {k : κ} {call : Nat} {rep : Response}
    (answered : service.Answered asks k call rep) (calls : service.calls ⊆ next.calls)
    (replies : service.server.machine.replies ⊆ next.server.machine.replies) :
    next.Answered asks k call rep := by
  obtain ⟨closure, member, owner, same, e, event, req, replied⟩ := answered
  exact ⟨closure, calls member, owner, same, e, event, req, replies replied⟩

theorem Carries.mono {connection : Connection κ} (carries : service.Carries asks connection)
    (sent : ∀ k, (service.clients k).sent ⊆ (next.clients k).sent)
    (calls : service.calls ⊆ next.calls)
    (replies : service.server.machine.replies ⊆ next.server.machine.replies) :
    next.Carries asks connection := by
  refine ⟨fun message member => sent _ (carries.requests message member), fun message member => ?_⟩
  obtain ⟨call, known, answered⟩ := carries.responses message member
  exact ⟨call, sent _ known, answered.mono calls replies⟩

theorem sound_start {server : Server} (reachable : Server.Reachable options states server) :
    Sound options states asks (start server) where
  reachable := reachable
  clients _ := Client.sound_new
  few _ := by simp [start, Client.new]
  linked _ _ held := by cases held
  once := List.nodup_nil
  calls _ member := by cases member
  connections _ member := by cases member
  done _ _ member := by cases member

theorem owner?_onConnection {n : Nat} {change : Connection κ → Connection κ}
    (keeps : ∀ connection, (change connection).owner = connection.owner) (m : Nat) :
    (service.onConnection n change).owner? m = service.owner? m := by
  simp only [owner?, onConnection, List.getElem?_modify]
  cases service.connections[m]? with
  | none => rfl
  | some connection =>
      simp only [Option.map_eq_map, Option.map_some]
      split_ifs <;> simp [keeps]

theorem Sound.onConnection (sound : Sound options states asks service) {n : Nat}
    {change : Connection κ → Connection κ}
    (keeps : ∀ connection, (change connection).owner = connection.owner)
    (carries : ∀ connection, service.connections[n]? = some connection →
      service.Carries asks (change connection))
    (once : (service.onConnection n change).tickets.Nodup) :
    Sound options states asks (service.onConnection n change) where
  reachable := sound.reachable
  clients := sound.clients
  few := sound.few
  linked k m held := by
    rw [owner?_onConnection keeps]
    exact sound.linked k m held
  once := once
  calls call member := by
    have holds := sound.calls call member
    refine ⟨?_, holds.sent, holds.event, holds.req⟩
    rw [owner?_onConnection keeps]
    exact holds.owner
  connections connection member := by
    suffices carried : service.Carries asks connection from
      carried.mono (fun _ => List.Subset.refl _) (List.Subset.refl _) (List.Subset.refl _)
    cases here : service.connections[n]? with
    | none =>
        have same : service.connections.modify n change = service.connections :=
          List.modify_eq_self (List.getElem?_eq_none_iff.mp here)
        exact sound.connections connection (by rw [← same]; exact member)
    | some old =>
        obtain ⟨before, after, split, changed⟩ := modify_split here
        rw [Service.onConnection, changed] at member
        have others : ∀ other ∈ before ++ after, service.Carries asks other := fun other inside =>
          sound.connections other (by
            rw [split]
            simp only [List.mem_append, List.mem_cons] at inside ⊢
            tauto)
        simp only [List.mem_append, List.mem_cons] at member others
        rcases member with early | rfl | late
        · exact others connection (.inl early)
        · exact carries old here
        · exact others connection (.inr late)
  done := sound.done

theorem tickets_onConnection {n : Nat} {connection : Connection κ}
    (here : service.connections[n]? = some connection) :
    ∃ others, service.tickets.Perm (connection.tickets ++ others) ∧
      ∀ change, (service.onConnection n change).tickets.Perm
        ((change connection).tickets ++ others) := by
  obtain ⟨before, after, split, changed⟩ := modify_split here
  let calls := service.calls.map fun call => (call.owner, call.call)
  have moved (mine : List (κ × Nat)) :
      (calls ++ (before.flatMap Connection.tickets ++ (mine ++
        after.flatMap Connection.tickets))).Perm
      (mine ++ (calls ++ (before.flatMap Connection.tickets ++
        after.flatMap Connection.tickets))) :=
    (List.perm_append_comm_assoc _ mine _).append_left calls |>.trans
      (List.perm_append_comm_assoc calls mine _)
  refine ⟨calls ++ (before.flatMap Connection.tickets ++ after.flatMap Connection.tickets), ?_,
    fun change => ?_⟩
  · rw [tickets, split, List.flatMap_append, List.flatMap_cons]
    exact moved _
  · rw [tickets, Service.onConnection, changed, List.flatMap_append, List.flatMap_cons]
    exact moved _

theorem Sound.tickets_kept (sound : Sound options states asks service) {n : Nat}
    {change : Connection κ → Connection κ}
    (same : ∀ connection, (change connection).tickets = connection.tickets) :
    (service.onConnection n change).tickets.Nodup := by
  cases here : service.connections[n]? with
  | none =>
      rw [tickets, Service.onConnection, List.modify_eq_self (List.getElem?_eq_none_iff.mp here)]
      exact sound.once
  | some connection =>
      obtain ⟨others, before, after⟩ := tickets_onConnection here
      rw [(after change).nodup_iff, same, ← before.nodup_iff]
      exact sound.once

theorem Sound.sessions (sound : Sound options states asks service) (sid : UInt64)
    (sessions : ExtTreeMap UInt64 Nat) :
    Sound options states asks { service with sid := sid, sessions := sessions } where
  reachable := sound.reachable
  clients := sound.clients
  few := sound.few
  linked := sound.linked
  once := sound.once
  calls call member :=
    have holds := sound.calls call member
    ⟨holds.owner, holds.sent, holds.event, holds.req⟩
  connections connection member := (sound.connections connection member).mono
    (fun _ => List.Subset.refl _) (List.Subset.refl _) (List.Subset.refl _)
  done := sound.done

theorem Sound.accept (sound : Sound options states asks service) (n : Nat) :
    Sound options states asks (service.accept n) := by
  unfold Service.accept
  split
  next owner requests responses here =>
    have marked : Sound options states asks (service.onConnection n fun connection =>
        { connection with context := some service.sid }) :=
      sound.onConnection (fun _ => rfl) (fun connection found =>
        have carries := sound.connections connection (List.mem_of_getElem? found)
        ⟨carries.requests, carries.responses⟩) (sound.tickets_kept fun _ => rfl)
    exact marked.sessions _ _
  · exact sound

theorem Sound.hangUp (sound : Sound options states asks service) (n : Nat) :
    Sound options states asks (service.hangUp n) := by
  unfold Service.hangUp
  split
  · exact sound
  · exact sound.sessions service.sid _

theorem Sound.tickets_sent (sound : Sound options states asks service) {k : κ} {call : Nat}
    (ticket : (k, call) ∈ service.tickets) : call ∈ (service.clients k).sent.map Prod.fst := by
  rcases List.mem_append.mp ticket with called | carried
  · obtain ⟨closure, member, same⟩ := List.mem_map.mp called
    cases same
    exact List.mem_map_of_mem (f := Prod.fst) (sound.calls closure member).sent
  · obtain ⟨connection, member, carried⟩ := List.mem_flatMap.mp carried
    obtain ⟨message, listed, same⟩ := List.mem_map.mp carried
    cases same
    exact List.mem_map_of_mem (f := Prod.fst)
      ((sound.connections connection member).requests message listed)

theorem Sound.receive (sound : Sound options states asks service) {n : Nat} {xid : Xid} {k : κ}
    {call : Nat} (owner : service.owner? n = some k)
    (sent : (call, xid) ∈ (service.clients k).sent) (new : (k, call) ∉ service.tickets) :
    Sound options states asks { service with
      server := service.server.receive (asks k call)
      calls := service.calls ++ [⟨service.server.nextEvent, n, xid, k, call⟩] } where
  reachable := sound.reachable.act
    (show service.server.act options states (.receive (asks k call)) = .ok _ from rfl)
  clients := sound.clients
  few := sound.few
  linked := sound.linked
  once := by
    have moved : (service.calls.map (fun call => (call.owner, call.call)) ++ [(k, call)] ++
        service.connections.flatMap Connection.tickets).Perm ((k, call) :: service.tickets) := by
      rw [List.append_assoc]
      exact List.perm_middle
    simp only [tickets, List.map_append, List.map_cons, List.map_nil]
    rw [moved.nodup_iff, List.nodup_cons]
    exact ⟨new, sound.once⟩
  calls closure member := by
    have bounded := (Server.reachable_distinct sound.reachable).bounded
    have split (e : Event) (inside : e ∈ (service.server.receive (asks k call)).fates) :
        e = ⟨service.server.nextEvent, asks k call⟩ ∨ e ∈ service.server.fates := by
      simp only [Server.fates, Server.receive, List.mem_append, List.mem_singleton] at inside ⊢
      tauto
    rcases List.mem_append.mp member with old | last
    · have holds := sound.calls closure old
      refine ⟨holds.owner, holds.sent, Nat.lt_succ_of_lt holds.event, fun e inside same => ?_⟩
      rcases split e inside with rfl | before
      · exact absurd holds.event (by rw [← same]; exact Nat.lt_irrefl _)
      · exact holds.req e before same
    · rw [List.mem_singleton] at last
      subst last
      refine ⟨owner, sent, Nat.lt_succ_self _, fun e inside same => ?_⟩
      rcases split e inside with rfl | before
      · rfl
      · exact absurd (bounded e before) (by rw [same]; exact Nat.lt_irrefl _)
  connections connection member := (sound.connections connection member).mono
    (fun _ => List.Subset.refl _) (List.subset_append_left _ _) (List.Subset.refl _)
  done k done member good := by
    obtain ⟨message, rep, answered⟩ := sound.done k done member good
    exact ⟨message, rep, answered.mono (List.subset_append_left _ _) (List.Subset.refl _)⟩

theorem Sound.onRpcMessage (sound : Sound options states asks service) (n : Nat) :
    Sound options states asks (service.onRpcMessage asks n) := by
  unfold Service.onRpcMessage
  split
  next owner xid call rest responses context here =>
    split
    · have carries := sound.connections _ (List.mem_of_getElem? here)
      obtain ⟨others, before, after⟩ := tickets_onConnection here
      have once := before.nodup_iff.mp sound.once
      simp only [Connection.tickets, List.map_cons, List.cons_append, List.nodup_cons] at once
      have shorter := after fun connection => { connection with requests := rest }
      have taken : Sound options states asks
          (service.onConnection n fun connection => { connection with requests := rest }) := by
        refine sound.onConnection (fun _ => rfl) (fun connection found => ?_) ?_
        · cases here.symm.trans found
          exact ⟨fun message member => carries.requests message (List.mem_cons_of_mem _ member),
            carries.responses⟩
        · rw [shorter.nodup_iff]
          exact once.2
      refine taken.receive ?_ (carries.requests _ (List.mem_cons_self ..)) ?_
      · rw [owner?_onConnection (by exact fun _ => rfl), owner?, here]
        rfl
      · rw [shorter.mem_iff]
        exact once.1
    · exact sound
  · exact sound

theorem Sound.answer_unique (sound : Sound options states asks service) {k : κ} {call : Nat}
    {rep rep' : Response} (first : service.Answered asks k call rep)
    (second : service.Answered asks k call rep') : rep = rep' := by
  obtain ⟨one, member, owner, same, e, event, -, replied⟩ := first
  obtain ⟨two, member', owner', same', e', event', -, replied'⟩ := second
  have closures : one = two := by
    refine List.inj_on_of_nodup_map (List.nodup_append.mp sound.once).1 member member' ?_
    rw [owner, owner', same, same']
  have distinct := (Server.reachable_distinct sound.reachable).replies
  rw [List.map_map] at distinct
  have answers : (e, rep) = (e', rep') := by
    refine List.inj_on_of_nodup_map distinct replied replied' ?_
    rw [Function.comp_apply, Function.comp_apply, event, event', closures]
  exact (Prod.mk.inj answers).2

theorem onRpcDone_server (answer : Event × Response) (service : Service κ) :
    (service.onRpcDone answer).server = service.server := by
  unfold onRpcDone
  split
  · rfl
  · split <;> rfl

theorem Sound.onRpcDone (sound : Sound options states asks service) {answer : Event × Response}
    (replied : answer ∈ service.server.machine.replies) :
    Sound options states asks (service.onRpcDone answer) := by
  unfold Service.onRpcDone
  split
  · exact sound
  next closure found =>
    split
    · have member := List.mem_of_find?_eq_some found
      have event : closure.event = answer.1.id := by simpa using List.find?_some found
      have holds := sound.calls closure member
      have req : answer.1.req = asks closure.owner closure.call := by
        refine holds.req answer.1 ?_ event.symm
        exact service.server.replies_fates.subset (List.mem_map_of_mem (f := Prod.fst) replied)
      refine sound.onConnection (fun _ => rfl) (fun connection here => ?_)
        (sound.tickets_kept fun _ => rfl)
      have carries := sound.connections connection (List.mem_of_getElem? here)
      have owner : connection.owner = closure.owner := by
        have same := holds.owner
        rw [owner?, here] at same
        exact Option.some.inj same
      refine ⟨carries.requests, fun message listed => ?_⟩
      rcases List.mem_append.mp listed with old | last
      · exact carries.responses message old
      · rw [List.mem_singleton] at last
        subst last
        refine ⟨closure.call, ?_, closure, member, ?_, rfl, answer.1, event.symm, ?_, replied⟩
        · exact owner ▸ holds.sent
        · exact owner.symm
        · exact owner ▸ req
    · exact sound

theorem Sound.onRpcDones (answers : List (Event × Response))
    (sound : Sound options states asks service)
    (replied : answers ⊆ service.server.machine.replies) :
    Sound options states asks
      (answers.foldl (fun service answer => service.onRpcDone answer) service) := by
  induction answers generalizing service with
  | nil => exact sound
  | cons answer rest ih =>
      obtain ⟨first, others⟩ := List.cons_subset.mp replied
      exact ih (sound.onRpcDone first) (by rw [onRpcDone_server]; exact others)

theorem Sound.serve (sound : Sound options states asks service) {action : Pyxis.Action}
    {server : Server} (running : action.isRestart = false)
    (taken : service.server.act options states action = .ok server) :
    Sound options states asks { service with server := server } := by
  obtain ⟨r, stands⟩ := Server.reachable_stands sound.reachable
  obtain ⟨new, fares⟩ := Server.act_fares stands.wellFormed running taken
  have replies := fares.grows.subset
  refine ⟨sound.reachable.act taken, sound.clients, sound.few, sound.linked, sound.once,
    fun call member => ?_, fun connection member => (sound.connections connection member).mono
      (fun _ => List.Subset.refl _) (List.Subset.refl _) replies, fun k done member good => ?_⟩
  · have holds := sound.calls call member
    refine ⟨holds.owner, holds.sent, ?_, fun e inside same => ?_⟩
    · exact fares.count ▸ Nat.lt_add_right _ holds.event
    · rcases List.mem_append.mp (fares.fates.mem_iff.mp inside) with recent | old
      · have numbered : e.id ∈ List.range' service.server.nextEvent new.length := by
          rw [← fares.ids]
          exact List.mem_map_of_mem recent
        have later := (List.mem_range'_1.mp numbered).1
        have before := holds.event
        omega
      · exact holds.req e old same
  · obtain ⟨message, rep, answered⟩ := sound.done k done member good
    exact ⟨message, rep, answered.mono (List.Subset.refl _) replies⟩

variable [DecidableEq κ]

theorem Sound.client (sound : Sound options states asks service) {k : κ} {action : Action}
    {client : Client} (taken : (service.clients k).act action = .ok client)
    (few : action = .call → (service.clients k).issued + 1 < 2 ^ 64)
    (answers : ∀ message, action = .message message → ∃ call,
      (call, message.xid) ∈ (service.clients k).sent ∧
        service.Answered asks k call message.rep) :
    Sound options states asks
      { service with clients := Function.update service.clients k client } := by
  have moves := Client.act_moves taken
  have own := Client.act_sound taken (sound.clients k) (sound.few k)
  have sent (j : κ) : (service.clients j).sent ⊆
      (Function.update service.clients k client j).sent := by
    by_cases same : j = k
    · subst same
      rw [Function.update_self]
      exact moves.sent.subset
    · rw [Function.update_of_ne same]
      exact List.Subset.refl _
  refine ⟨sound.reachable, ?_, ?_, sound.linked, sound.once, fun call member => ?_,
    fun connection member => (sound.connections connection member).mono sent
      (List.Subset.refl _) (List.Subset.refl _), ?_⟩
  · exact (Function.forall_update_iff service.clients fun _ c => c.Sound).mpr
      ⟨own, fun j _ => sound.clients j⟩
  · refine (Function.forall_update_iff service.clients fun _ c => c.issued < 2 ^ 64).mpr
      ⟨?_, fun j _ => sound.few j⟩
    rw [moves.issued]
    split_ifs with calls
    · exact few calls
    · exact sound.few k
  · have holds := sound.calls call member
    exact ⟨holds.owner, sent _ holds.sent, holds.event, holds.req⟩
  · refine (Function.forall_update_iff service.clients fun j c => ∀ done ∈ c.done,
      done.status.isOk = true → ∃ message, done.rep = some message ∧
        service.Answered asks j done.call message.rep).mpr ⟨fun done member good => ?_,
      fun j _ => sound.done j⟩
    rcases moves.done done member good with old | ⟨message, rfl, rep⟩
    · exact sound.done k done old good
    · obtain ⟨call, known, answered⟩ := answers message rfl
      obtain ⟨other, same, listed⟩ := own.answered done member good
      cases rep.symm.trans same
      have called : (call, message.xid) = (done.call, message.xid) :=
        List.inj_on_of_nodup_map own.xids (moves.sent.subset known) listed rfl
      cases called
      exact ⟨message, rep, answered⟩

theorem onClient_ok {k : κ} {action : Action} (done : service.onClient k action = .ok next) :
    ∃ client, (service.clients k).act action = .ok client ∧
      next = { service with clients := Function.update service.clients k client } := by
  obtain ⟨client, taken, done⟩ := Runs.bind_ok.mp done
  cases done
  exact ⟨client, taken, rfl⟩

omit [DecidableEq κ] in
theorem Sound.post (sound : Sound options states asks service) {k : κ} {n : Nat}
    (owner : service.owner? n = some k) {sent : List (Nat × Xid)}
    (known : sent ⊆ (service.clients k).sent) (distinct : (sent.map Prod.fst).Nodup)
    (fresh : ∀ call ∈ sent.map Prod.fst, (k, call) ∉ service.tickets) :
    Sound options states asks (service.onConnection n fun connection =>
      { connection with requests := connection.requests ++ sent.map Prod.swap }) := by
  obtain ⟨connection, here, rfl⟩ := Option.map_eq_some_iff.mp owner
  have carries := sound.connections connection (List.mem_of_getElem? here)
  refine sound.onConnection (fun _ => rfl) (fun other found => ?_) ?_
  · cases here.symm.trans found
    refine ⟨fun message member => ?_, carries.responses⟩
    rcases List.mem_append.mp member with old | new
    · exact carries.requests message old
    · obtain ⟨one, listed, rfl⟩ := List.mem_map.mp new
      exact known listed
  · obtain ⟨others, before, after⟩ := tickets_onConnection here
    let new := sent.map fun one => (connection.owner, one.1)
    have added : (service.onConnection n fun connection => { connection with
        requests := connection.requests ++ sent.map Prod.swap }).tickets.Perm
          (new ++ service.tickets) := by
      refine (after _).trans (.trans ?_ (before.symm.append_left new))
      have same : ({ connection with
          requests := connection.requests ++ sent.map Prod.swap } : Connection κ).tickets =
            connection.tickets ++ new := by
        simp [Connection.tickets, new, Function.comp_def]
      rw [same, List.append_assoc]
      exact List.perm_append_comm_assoc _ _ _
    have numbers : new = (sent.map Prod.fst).map (Prod.mk connection.owner) := by
      rw [List.map_map]
      rfl
    rw [added.nodup_iff, numbers, List.nodup_append']
    refine ⟨distinct.map fun _ _ same => (Prod.mk.inj same).2, sound.once, fun ticket new old => ?_⟩
    obtain ⟨call, listed, rfl⟩ := List.mem_map.mp new
    exact fresh call listed old

theorem Sound.loop (sound : Sound options states asks service) {k : κ}
    (done : service.loop k = .ok next) : Sound options states asks next := by
  obtain ⟨middle, called, done⟩ := Runs.bind_ok.mp done
  obtain ⟨client, taken, rfl⟩ := onClient_ok called
  have after := sound.client taken nofun nofun
  split at done
  · cases done
    exact after
  next n held =>
    cases done
    dsimp only
    rw [Function.update_self]
    obtain ⟨new, grown⟩ := (Client.act_moves taken).sent
    have own := (List.nodup_append.mp
      (Client.act_sound taken (sound.clients k) (sound.few k)).once).2.1
    rw [← grown, List.map_append, List.nodup_append'] at own
    rw [← grown, List.drop_left]
    refine after.post (sound.linked k n held) ?_ own.2.1 fun call listed ticket => ?_
    · dsimp only
      rw [Function.update_self, ← grown]
      exact List.subset_append_right _ _
    · exact own.2.2 (sound.tickets_sent ticket) listed

theorem Sound.connect (sound : Sound options states asks service) {k : κ}
    (done : service.connect k = .ok next) : Sound options states asks next := by
  unfold Service.connect at done
  split at done
  · cases done
    exact sound
  · obtain ⟨middle, called, done⟩ := Runs.bind_ok.mp done
    obtain ⟨client, taken, rfl⟩ := onClient_ok called
    cases done
    have after := sound.client taken nofun nofun
    have owners (n : Nat) (j : κ) (owner : service.owner? n = some j) :
        (service.connections ++ [⟨k, [], [], none⟩])[n]?.map Connection.owner = some j := by
      obtain ⟨connection, here, rfl⟩ := Option.map_eq_some_iff.mp owner
      rw [List.getElem?_append_left (List.getElem?_eq_some_iff.mp here).1, here]
      rfl
    refine ⟨after.reachable, after.clients, after.few, fun j n held => ?_, ?_,
      fun call member => ?_, fun connection member => ?_, after.done⟩
    · dsimp only at held
      by_cases same : j = k
      · subst same
        rw [Function.update_self] at held
        cases held
        simp [owner?]
      · rw [Function.update_of_ne same] at held
        exact owners n j (sound.linked j n held)
    · simpa [tickets, Connection.tickets] using sound.once
    · have holds := after.calls call member
      exact ⟨owners _ _ holds.owner, holds.sent, holds.event, holds.req⟩
    · rcases List.mem_append.mp member with old | last
      · exact (after.connections connection old).mono
          (fun _ => List.Subset.refl _) (List.Subset.refl _) (List.Subset.refl _)
      · rw [List.mem_singleton.mp last]
        exact ⟨List.forall_mem_nil _, List.forall_mem_nil _⟩

theorem Sound.disconnect (sound : Sound options states asks service) {k : κ} {action : Action}
    (done : service.disconnect k action = .ok next)
    (silent : action ≠ .call ∧ ∀ message, action ≠ .message message) :
    Sound options states asks next := by
  obtain ⟨middle, called, done⟩ := Runs.bind_ok.mp done
  obtain ⟨client, taken, rfl⟩ := onClient_ok called
  cases done
  have after := sound.client taken (fun calls => absurd calls silent.1)
    (fun message comes => absurd comes (silent.2 message))
  refine ⟨after.reachable, after.clients, after.few, fun j n held => ?_, after.once,
    fun call member => ?_, fun connection member => (after.connections connection member).mono
      (fun _ => List.Subset.refl _) (List.Subset.refl _) (List.Subset.refl _), after.done⟩
  · dsimp only at held
    by_cases same : j = k
    · subst same
      rw [Function.update_self] at held
      cases held
    · rw [Function.update_of_ne same] at held
      exact sound.linked j n held
  · have holds := after.calls call member
    exact ⟨holds.owner, holds.sent, holds.event, holds.req⟩

theorem Sound.response (sound : Sound options states asks service) {k : κ}
    (done : service.response k = .ok next) : Sound options states asks next := by
  unfold Service.response at done
  split at done
  · cases done
    exact sound
  next n held =>
    split at done
    next owner requests message rest context here =>
      obtain ⟨client, taken, rfl⟩ := onClient_ok done
      have carries := sound.connections _ (List.mem_of_getElem? here)
      have mine := sound.linked k n held
      rw [owner?, here] at mine
      cases mine
      have read : Sound options states asks
          (service.onConnection n fun connection => { connection with responses := rest }) :=
        sound.onConnection (fun _ => rfl) (fun connection found => by
          cases here.symm.trans found
          exact ⟨carries.requests,
            fun message member => carries.responses message (List.mem_cons_of_mem _ member)⟩)
          (sound.tickets_kept fun _ => rfl)
      refine read.client taken nofun fun other same => ?_
      cases same
      exact carries.responses message (List.mem_cons_self ..)
    · cases done
      exact sound

theorem Sound.step (sound : Sound options states asks service) {deed : Deed κ}
    (fit : Fit deed service) (done : service.step asks options states deed = .ok next) :
    Sound options states asks next := by
  cases deed with
  | call k =>
      obtain ⟨client, taken, rfl⟩ := onClient_ok done
      exact sound.client taken (fun _ => fit) nofun
  | loop k => exact sound.loop done
  | timeout k xid =>
      obtain ⟨client, taken, rfl⟩ := onClient_ok done
      exact sound.client taken nofun nofun
  | connect k => exact sound.connect done
  | disconnect k | close k => exact sound.disconnect done ⟨nofun, nofun⟩
  | accept n =>
      cases done
      exact sound.accept n
  | hangUp n =>
      cases done
      exact sound.hangUp n
  | request n =>
      cases done
      exact sound.onRpcMessage n
  | response k => exact sound.response done
  | serve action =>
      obtain ⟨server, taken, done⟩ := Runs.bind_ok.mp done
      cases done
      exact (sound.serve fit taken).onRpcDones _ (List.drop_subset _ _)

theorem calls_answered {server : Server} (reachable : Server.Reachable options states server)
    {deeds : List (Deed κ)} {last : Service κ}
    (fit : Runs.Meets (step asks options states) Fit (start server) deeds)
    (reached : Runs.run (step asks options states) (start server) deeds = .ok last) :
    (last.calls.map fun call => (call.owner, call.call)).Nodup ∧
    (∀ k call one two, last.Answered asks k call one → last.Answered asks k call two → one = two) ∧
    ∀ k, ∀ done ∈ (last.clients k).done, done.status.isOk = true →
      ∃ message, done.rep = some message ∧ last.Answered asks k done.call message.rep := by
  have sound := Runs.run_invariant (step asks options states) Fit
    (Sound options states asks) (fun deed service next sound fit done => sound.step fit done)
    (start server) last deeds (sound_start reachable) fit reached
  exact ⟨(List.nodup_append.mp sound.once).1,
    fun _ _ _ _ first second => sound.answer_unique first second, sound.done⟩

def tagging (k : Bool) (_ : Nat) : Request := if k then .tagged 1 else .tagged 2

-- Two clients use the same xid. The one whose session is gone gets no response.
def crossing : List (Deed Bool) :=
  [.connect true, .connect false, .accept 1, .accept 0, .call true, .call false, .loop true,
    .loop false, .request 1, .request 0, .hangUp 1, .serve (.turn (.still 0) .event),
    .serve (.turn (.still 0) .event), .serve (.turn (.still 0) .event), .response true,
    .response false, .timeout false 0]

theorem calls_answered_crossing : ∃ (last : Service Bool) (message : Message),
    (last.clients true).sent = [(0, 0)] ∧ (last.clients false).sent = [(0, 0)] ∧
    (last.clients true).done = [⟨0, Status.ok, some message⟩] ∧
    (last.clients false).done = [⟨0, Status.timeout (text "rpc call timeout"), none⟩] ∧
    last.Answered tagging true 0 message.rep := by
  obtain ⟨server, reachable, runs⟩ := Server.exists_reachable Options.standard .sample (.still 0) []
    (fun server =>
      Runs.Meets (step tagging Options.standard .sample) Fit (start server) crossing ∧
      Runs.passes (Runs.run (step tagging Options.standard .sample) (start server) crossing)
        (fun last => decide ((last.clients true).sent = [(0, 0)] ∧
          (last.clients false).sent = [(0, 0)] ∧
          (last.clients true).done.map (fun done => (done.call, done.status, done.rep.isSome)) =
            [(0, Status.ok, true)] ∧
          (last.clients false).done =
            [⟨0, Status.timeout (text "rpc call timeout"), none⟩])) = true)
    (by decide +kernel)
  simp only [Runs.passes_iff, decide_eq_true_eq] at runs
  obtain ⟨fit, last, reached, sent, others, ended, late⟩ := runs
  obtain ⟨-, -, answered⟩ := calls_answered reachable fit reached
  obtain ⟨⟨call, status, rep⟩, single, fields⟩ := List.map_eq_singleton_iff.mp ended
  simp only [Prod.mk.injEq] at fields
  obtain ⟨rfl, rfl, -⟩ := fields
  obtain ⟨message, rfl, told⟩ := answered true _ (by rw [single]; exact List.mem_cons_self ..) rfl
  exact ⟨last, message, sent, others, single, late, told⟩

end Service

end Pyxis.Rpc
