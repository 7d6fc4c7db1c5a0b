import Pyxis.Client.Rpc
import Pyxis.Client.Read

set_option autoImplicit false

open Std (ExtTreeMap)

namespace Pyxis

namespace Watch

def kConnected : UInt32 := 0x00000010
def kDisconnected : UInt32 := 0x00000020

end Watch

def Status.isTimeout (status : Status) : Bool := status.code == .timeout

namespace Client

-- The callback that a call was made with: `onRegister`, `onPing`, or `onCall` of an application.
inductive Kind where
  | register | ping | app
  deriving DecidableEq, Repr

structure Call where
  kind : Kind
  req : Request
  deriving DecidableEq, Repr

structure Ending where
  call : Call
  status : Status
  rep : Response
  deriving DecidableEq, Repr

def Ending.succeeds (e : Ending) : Bool := e.status.isOk && e.rep.err.isNone

def Ending.registers (e : Ending) : Option Sid :=
  if e.call.kind = .register ∧ e.succeeds then some (e.rep.sid.getD 0) else none

structure Handle where
  addr : Str
  rpc : Rpc.Client
  calls : List Call
  registered : List Sid

namespace Handle

def new (addr : Str) : Handle := ⟨addr, .new, [], []⟩

def call (call : Call) (h : Handle) : Handle :=
  { h with rpc := h.rpc.call, calls := h.calls ++ [call] }

def ending (h : Handle) (done : Rpc.Completion) : Option Ending :=
  h.calls[done.call]?.map fun call =>
    ⟨call, done.status, (done.rep.map Rpc.Message.rep).getD Response.empty⟩

def act (action : Rpc.Action) (h : Handle) : Except Fault (Handle × List Ending) := do
  let rpc ← h.rpc.act action
  let ends := (rpc.done.drop h.rpc.done.length).filterMap h.ending
  return ({ h with rpc := rpc, registered := h.registered ++ ends.filterMap Ending.registers },
    ends)

end Handle

/-- The part of `ClientImpl` that its event loop works on. The rpc clients in `old` wait for
`resetClient` in the queue of the loop, and `scheduled` is the `resetConnection` of `Start` there;
`timers` are the connection timers that are armed. -/
structure ClientImpl where
  state : State
  sid : Sid
  addrList : List Str
  timeout : Int
  client : Option Handle
  old : List Handle
  connTimerId : Option Nat
  timers : List Nat
  nextTimer : Nat
  scheduled : List Str
  trigered : List (Str × Watch.Event)

namespace ClientImpl

variable (random : Nat → Nat)

def randomAddr (c : ClientImpl) : Str :=
  c.addrList.getD (random c.nextTimer % c.addrList.length) []

def new (addrList : List Str) (sid : Sid) (timeout : Int) : ClientImpl where
  state := .closed
  sid := sid
  addrList := addrList
  timeout := timeout
  client := none
  old := []
  connTimerId := none
  timers := []
  nextTimer := 0
  scheduled := []
  trigered := []

def start (c : ClientImpl) : ClientImpl :=
  { c with state := .looking, scheduled := c.scheduled ++ [c.randomAddr random] }

def sidCall (c : ClientImpl) : Except Status Sid :=
  if c.state = .connected then .ok c.sid else .error (Status.disconnect (text "connection lost"))

def triger (path : Str) (e : Watch.Event) (c : ClientImpl) : ClientImpl :=
  { c with trigered := c.trigered ++ [(path, e)] }

def call (call : Call) (c : ClientImpl) : ClientImpl :=
  { c with client := c.client.map (Handle.call call) }

-- `client_->Addr()`.
def addr (c : ClientImpl) : Str := (c.client.map Handle.addr).getD []

def callInLoop (kind : Kind) (req : Request) (refused : ClientImpl → ClientImpl)
    (c : ClientImpl) : ClientImpl :=
  if c.state = .connected then c.call ⟨kind, { req with sid? := some c.sid }⟩ else refused c

def resetConnection (addr : Str) (c : ClientImpl) : ClientImpl :=
  if c.state = .closed then c
  else
    -- The timer of the rpc client before stays armed.
    { c with
      old := c.old ++ c.client.toList
      client := some (Handle.new addr)
      connTimerId := some c.nextTimer
      timers := c.timers ++ [c.nextTimer]
      nextTimer := c.nextTimer + 1 }

def register (c : ClientImpl) : ClientImpl :=
  c.call ⟨.register,
    { Request.empty with
      sid? := if c.sid = 0 then none else some c.sid
      register := some c.timeout }⟩

def onConnection (connected : Bool) (c : ClientImpl) : ClientImpl :=
  if connected then
    register { c with timers := c.timers.filter fun id => some id ≠ c.connTimerId }
  else
    let c := c.triger [] ⟨[], Watch.kDisconnected⟩
    c.resetConnection (c.randomAddr random)

def onConnectionTimeout (c : ClientImpl) : ClientImpl := c.resetConnection (c.randomAddr random)

def pingFailed (rep : Response) (c : ClientImpl) : ClientImpl :=
  -- The end of `onPing`.
  match rep.err with
  | some ⟨.sessionExpired, _⟩ => { c with sid := 0 }.resetConnection c.addr
  | _ => c.resetConnection (c.randomAddr random)

def ping (c : ClientImpl) : ClientImpl :=
  -- A ping that is refused runs `onPing` at once, with a Disconnect and an empty response.
  c.callInLoop .ping { Request.empty with ping := true } (pingFailed random Response.empty)

def onPing (status : Status) (rep : Response) (c : ClientImpl) : ClientImpl :=
  if c.state = .closed then c
  else if status.isOk && rep.err.isNone then
    match rep.watch with
    | some e => (c.triger (rep.path.getD []) e).ping random
    | none => c.ping random
  else if status.isTimeout then c.ping random
  else c.pingFailed random rep

def onRegister (status : Status) (rep : Response) (c : ClientImpl) : ClientImpl :=
  if c.state = .closed then c
  else if status.isOk && rep.err.isNone then
    -- The calls of `reregisterWatchers` come from a thread of their own, like an application's.
    ({ c with sid := rep.sid.getD 0, state := .connected }.triger []
      ⟨[], Watch.kConnected⟩).ping random
  else
    match rep.err with
    | some ⟨.notLeader, addr⟩ => c.resetConnection addr
    | some ⟨.sessionExpired, _⟩ => { c with sid := 0 }.resetConnection c.addr
    | _ => c.resetConnection (c.randomAddr random)

def finish (c : ClientImpl) (e : Ending) : ClientImpl :=
  match e.call.kind with
  | .register => c.onRegister random e.status e.rep
  | .ping => c.onPing random e.status e.rep
  | .app => c

end ClientImpl

/-- What an event loop brings to an rpc client: a functor of `Call`, a response, the timer of a
call, and the connection coming up or going down. -/
inductive Arrival where
  | loop
  | message (message : Rpc.Message)
  | timeout (xid : Rpc.Xid)
  | connection (up : Bool)
  deriving DecidableEq, Repr

def Arrival.action : Arrival → Rpc.Action
  | .loop => .loop
  | .message response => .message response
  | .timeout xid => .timeout xid
  | .connection up => .connection up

inductive Place where
  | current
  | old (index : Nat)
  deriving DecidableEq, Repr

inductive Occasion where
  -- The `resetConnection` that `Start` queued.
  | reset
  | timer (id : Nat)
  | arrive (place : Place) (arrival : Arrival)
  -- `resetClient` has run and was the last to hold its rpc client.
  | destroy
  -- A call of the application reaches the loop.
  | ask (req : Request)
  -- `~ClientImpl` sets the state.
  | stop
  deriving DecidableEq, Repr

namespace ClientImpl

variable (random : Nat → Nat)

def handle? (place : Place) (c : ClientImpl) : Option Handle :=
  match place with
  | .current => c.client
  | .old index => c.old[index]?

def setHandle (place : Place) (h : Handle) (c : ClientImpl) : ClientImpl :=
  match place with
  | .current => { c with client := some h }
  | .old index => { c with old := c.old.set index h }

def arrive (place : Place) (arrival : Arrival) (c : ClientImpl) : Except Fault ClientImpl :=
  match c.handle? place with
  | none => .ok c
  | some h => do
      let (h, ends) ← h.act arrival.action
      let c := c.setHandle place h
      -- `rpc::Client` calls `connectionCallback_` when the connection comes up, and only then.
      let c := if arrival = .connection true then c.onConnection random true else c
      return ends.foldl (finish random) c

def destroy (c : ClientImpl) : Except Fault ClientImpl :=
  match c.old with
  | [] => .ok c
  | h :: rest =>
      -- The functors of its calls stand before `resetClient` in the queue of the loop.
      if h.rpc.queued.isEmpty then do
        let (_, ends) ← h.act .close
        return ends.foldl (finish random) { c with old := rest }
      else .ok c

def act (occasion : Occasion) (c : ClientImpl) : Except Fault ClientImpl :=
  match occasion with
  | .reset =>
      match c.scheduled with
      | [] => .ok c
      | addr :: rest => .ok ({ c with scheduled := rest }.resetConnection addr)
  | .timer id =>
      if id ∈ c.timers then
        .ok ({ c with timers := c.timers.erase id }.onConnectionTimeout random)
      else .ok c
  | .arrive place arrival => c.arrive random place arrival
  | .destroy => c.destroy random
  | .ask req => .ok (c.callInLoop .app req id)
  | .stop => .ok { c with state := .closed }

end ClientImpl

end Client

namespace Rpc.Client

variable {c next : Client} {action : Action}

-- The callback of the call has not run.
def Outstanding (c : Client) (call : Nat) : Prop :=
  call ∈ c.queued ∨ ∃ xid : Xid, c.pendingCalls[xid]? = some call

def Batch (ends : List Completion) : Prop :=
  (∃ done, ends = [done]) ∨ ∀ done ∈ ends, done = reset done.call

structure Ran (c next : Client) (fresh : List Completion) : Prop where
  issued : next.issued = c.issued
  done : next.done = c.done ++ fresh
  batch : Batch fresh

theorem ran_quiet (issued : next.issued = c.issued) (done : next.done = c.done) : Ran c next [] :=
  ⟨issued, by rw [done, List.append_nil], .inr (by simp)⟩

theorem ran_complete (ended : Completion) (issued : next.issued = c.issued)
    (done : next.done = c.done) : Ran c (next.complete ended) [ended] :=
  ⟨issued, by rw [complete, done], .inl ⟨ended, rfl⟩⟩

theorem clearCalls_ran (taken : c.clearCalls = .ok next) : ∃ fresh, Ran c next fresh := by
  unfold clearCalls at taken
  split_ifs at taken
  cases taken
  refine ⟨_, rfl, rfl, .inr fun done member => ?_⟩
  obtain ⟨entry, -, rfl⟩ := List.mem_map.mp member
  rfl

theorem act_ran (silent : action ≠ .call) (taken : c.act action = .ok next) :
    ∃ fresh, Ran c next fresh := by
  cases action with
  | call => exact absurd rfl silent
  | loop =>
      cases taken
      unfold runQueued
      split
      · exact ⟨[], ran_quiet rfl rfl⟩
      · unfold callInLoop
        split
        · exact ⟨_, ran_complete _ rfl rfl⟩
        · exact ⟨[], ran_quiet rfl rfl⟩
  | message message =>
      cases taken
      unfold onRpcMessage
      split
      · exact ⟨[], ran_quiet rfl rfl⟩
      · exact ⟨_, ran_complete _ rfl rfl⟩
  | timeout xid =>
      cases taken
      unfold onCallTimeout
      split
      · exact ⟨[], ran_quiet rfl rfl⟩
      · exact ⟨_, ran_complete _ rfl rfl⟩
  | connection up =>
      cases up with
      | true =>
          cases taken
          exact ⟨[], ran_quiet rfl rfl⟩
      | false =>
          obtain ⟨fresh, issued, done, batch⟩ :=
            clearCalls_ran (c := { c with connected := false }) taken
          exact ⟨fresh, issued, done, batch⟩
  | close =>
      obtain ⟨fresh, issued, done, batch⟩ :=
        clearCalls_ran (c := { c with closing := true, connected := false }) taken
      exact ⟨fresh, issued, done, batch⟩

theorem erase_outstanding {xid : Xid} {call : Nat} (done : Completion)
    (held : c.pendingCalls[xid]? = some done.call) (waits : c.Outstanding call) :
    (complete done { c with pendingCalls := c.pendingCalls.erase xid }).Outstanding call ∨
      call = done.call := by
  rcases waits with queued | ⟨other, pending⟩
  · exact .inl (.inl queued)
  · by_cases here : xid = other
    · subst here
      rw [held] at pending
      exact .inr (Option.some.inj pending).symm
    · refine .inl (.inr ⟨other, ?_⟩)
      simpa [complete, ExtTreeMap.getElem?_erase, here] using pending

theorem runQueued_outstanding {call : Nat} (free : c.xid ∉ c.pendingCalls)
    (waits : c.Outstanding call) :
    c.runQueued.Outstanding call ∨
      ∃ done ∈ c.runQueued.done.drop c.done.length, done.call = call := by
  cases queue : c.queued with
  | nil =>
      simp only [runQueued, queue]
      exact .inl waits
  | cons head rest =>
      have places : call = head ∨ call ∈ rest ∨ ∃ xid : Xid, c.pendingCalls[xid]? = some call := by
        rw [Outstanding, queue, List.mem_cons, or_assoc] at waits
        exact waits
      cases connected : c.connected with
      | false =>
          simp only [runQueued, queue, callInLoop, connected, if_true, complete, List.drop_left,
            List.mem_singleton, exists_eq_left]
          rcases places with rfl | later | pending
          · exact .inr rfl
          · exact .inl (.inl later)
          · exact .inl (.inr pending)
      | true =>
          simp only [runQueued, queue, callInLoop, connected, Bool.true_eq_false, if_false]
          have inserted (xid : Xid) : (c.pendingCalls.insertIfNew c.xid head)[xid]? =
              if c.xid = xid then some head else c.pendingCalls[xid]? := by
            rw [ExtTreeMap.getElem?_insertIfNew]
            simp [free]
          refine .inl ?_
          rcases places with rfl | later | ⟨xid, pending⟩
          · exact .inr ⟨c.xid, by rw [inserted, if_pos rfl]⟩
          · exact .inl later
          · refine .inr ⟨xid, ?_⟩
            rw [inserted, if_neg, pending]
            rintro rfl
            exact free (ExtTreeMap.isSome_getElem?_iff_mem.mp (by simp [pending]))

theorem clearCalls_outstanding {call : Nat} (taken : c.clearCalls = .ok next)
    (waits : c.Outstanding call) :
    next.Outstanding call ∨ ∃ done ∈ next.done.drop c.done.length, done.call = call := by
  unfold clearCalls at taken
  split_ifs at taken
  cases taken
  refine waits.imp .inl fun ⟨xid, pending⟩ => ?_
  rw [List.drop_left]
  have member := ExtTreeMap.mem_toList_iff_getElem?_eq_some.mpr pending
  exact ⟨reset call, List.mem_map.mpr ⟨(xid, call), member, rfl⟩, rfl⟩

theorem act_outstanding {call : Nat} (free : action = .loop → c.xid ∉ c.pendingCalls)
    (taken : c.act action = .ok next) (waits : c.Outstanding call) :
    next.Outstanding call ∨ ∃ done ∈ next.done.drop c.done.length, done.call = call := by
  cases action with
  | call =>
      cases taken
      exact .inl (waits.imp_left fun queued => List.mem_append_left _ queued)
  | loop =>
      cases taken
      exact runQueued_outstanding (free rfl) waits
  | message message =>
      cases taken
      unfold onRpcMessage
      split
      · exact .inl waits
      next ended held =>
        have outcome := erase_outstanding ⟨ended, Status.ok, some message⟩ held waits
        refine outcome.imp_right fun same => ?_
        simp [complete, same]
  | timeout xid =>
      cases taken
      unfold onCallTimeout
      split
      · exact .inl waits
      next ended held =>
        have outcome := erase_outstanding
          ⟨ended, Status.timeout (text "rpc call timeout"), none⟩ held waits
        refine outcome.imp_right fun same => ?_
        simp [complete, same]
  | connection up =>
      cases up with
      | true =>
          cases taken
          exact .inl waits
      | false => exact clearCalls_outstanding (c := { c with connected := false }) taken waits
  | close =>
      exact clearCalls_outstanding (c := { c with closing := true, connected := false }) taken waits

end Rpc.Client

namespace Client

-- In a client that is connected, the callback ends in `resetConnection`.
def Ending.resets (e : Ending) : Bool :=
  match e.call.kind with
  | .register => !e.succeeds
  | .ping => !(e.succeeds || e.status.isTimeout)
  | .app => false

def Batch (ends : List Ending) : Prop :=
  (∃ e, ends = [e]) ∨ ∀ e ∈ ends, e.succeeds = false

theorem Ending.registers_of_fails {e : Ending} (fails : e.succeeds = false) :
    e.registers = none := by
  simp [Ending.registers, fails]

namespace Handle

variable {h next : Handle} {action : Rpc.Action} {ends : List Ending}

-- A register or a ping is to call `ClientImpl` back.
def Drives (h : Handle) : Prop :=
  ∃ id call, h.calls[id]? = some call ∧ call.kind ≠ .app ∧ h.rpc.Outstanding id

def Numbered (h : Handle) : Prop := h.calls.length = h.rpc.issued

theorem Numbered.call (numbered : h.Numbered) (call : Call) : (h.call call).Numbered := by
  simpa [Numbered, Handle.call, Rpc.Client.call] using numbered

theorem Drives.call (drives : h.Drives) (call : Call) : (h.call call).Drives := by
  obtain ⟨id, made, known, kind, waits⟩ := drives
  refine ⟨id, made, ?_, kind, waits.imp_left fun queued => List.mem_append_left _ queued⟩
  rw [Handle.call, List.getElem?_append_left (List.getElem?_eq_some_iff.mp known).1, known]

theorem drives_call (numbered : h.Numbered) {call : Call} (kind : call.kind ≠ .app) :
    (h.call call).Drives := by
  refine ⟨h.rpc.issued, call, ?_, kind, .inl (by simp [Handle.call, Rpc.Client.call])⟩
  simp [Handle.call, ← show h.calls.length = h.rpc.issued from numbered]

theorem act_cases (taken : h.act action = .ok (next, ends)) :
    ∃ rpc, h.rpc.act action = .ok rpc ∧
      ends = (rpc.done.drop h.rpc.done.length).filterMap h.ending ∧
      next = { h with
        rpc := rpc
        registered := h.registered ++ ends.filterMap Ending.registers } := by
  obtain ⟨rpc, acted, done⟩ := Runs.bind_ok.mp taken
  cases done
  exact ⟨rpc, acted, rfl, rfl⟩

structure Continues (h next : Handle) : Prop where
  calls : next.calls = h.calls
  registered : h.registered ⊆ next.registered
  numbered : h.Numbered → next.Numbered

theorem Continues.refl (h : Handle) : h.Continues h := ⟨rfl, List.Subset.refl _, id⟩

theorem act_continues (silent : action ≠ .call) (taken : h.act action = .ok (next, ends)) :
    h.Continues next := by
  obtain ⟨rpc, acted, rfl, rfl⟩ := act_cases taken
  obtain ⟨_, ran⟩ := Rpc.Client.act_ran silent acted
  exact ⟨rfl, List.subset_append_left _ _, fun numbered => numbered.trans ran.issued.symm⟩

theorem Drives.act (drives : h.Drives) (free : action = .loop → h.rpc.xid ∉ h.rpc.pendingCalls)
    (taken : h.act action = .ok (next, ends)) :
    next.Drives ∨ ∃ e ∈ ends, e.call.kind ≠ .app := by
  obtain ⟨id, made, known, kind, waits⟩ := drives
  obtain ⟨rpc, acted, rfl, rfl⟩ := act_cases taken
  rcases Rpc.Client.act_outstanding free acted waits with still | ⟨done, ended, rfl⟩
  · exact .inl ⟨id, made, known, kind, still⟩
  · have ends : h.ending done =
        some ⟨made, done.status, (done.rep.map Rpc.Message.rep).getD Response.empty⟩ := by
      rw [ending, known]
      rfl
    exact .inr ⟨_, List.mem_filterMap.mpr ⟨done, ended, ends⟩, kind⟩

theorem Drives.close (drives : h.Drives) (drained : h.rpc.queued = [])
    (taken : h.act .close = .ok (next, ends)) : ∃ e ∈ ends, e.call.kind ≠ .app := by
  refine (drives.act (by simp) taken).resolve_left ?_
  rintro ⟨id, -, -, -, waits⟩
  obtain ⟨rpc, acted, -, rfl⟩ := act_cases taken
  cases acted
  rcases waits with queued | ⟨xid, pending⟩
  · rw [show _ = ([] : List Nat) from drained] at queued
    cases queued
  · simp at pending

-- What `act` returns beside the rpc client.
def endings (action : Rpc.Action) (h : Handle) : List Ending :=
  match h.act action with
  | .ok (_, ends) => ends
  | .error _ => []

theorem act_ok (action : Rpc.Action) (h : Handle) :
    ∃ next, h.act action = .ok (next, h.endings action) := by
  obtain ⟨rpc, acted⟩ := Rpc.Client.act_ok action h.rpc
  have taken : h.act action = .ok _ := Runs.bind_ok.mpr ⟨rpc, acted, rfl⟩
  exact ⟨_, by rw [endings, taken]⟩

theorem act_batch (silent : action ≠ .call) (taken : h.act action = .ok (next, ends)) :
    Batch ends := by
  obtain ⟨rpc, acted, rfl, -⟩ := act_cases taken
  obtain ⟨fresh, ran⟩ := Rpc.Client.act_ran silent acted
  rw [ran.done, List.drop_left]
  rcases ran.batch with ⟨done, rfl⟩ | resets
  · cases ended : h.ending done with
    | none => exact .inr (by simp [ended])
    | some e => exact .inl ⟨e, by simp [ended]⟩
  · refine .inr fun e member => ?_
    obtain ⟨done, listed, ended⟩ := List.mem_filterMap.mp member
    obtain ⟨call, -, rfl⟩ := Option.map_eq_some_iff.mp ended
    rw [resets done listed]
    rfl

theorem act_connected (taken : h.act (.connection true) = .ok (next, ends)) : ends = [] := by
  obtain ⟨rpc, acted, rfl, -⟩ := act_cases taken
  cases acted
  simp

end Handle

def Occasion.current : Occasion → Bool
  | .arrive .current _ => true
  | _ => false

namespace ClientImpl

def handles (c : ClientImpl) : List Handle := c.old ++ c.client.toList

-- No call is sent under an xid that another call waits with, so that every callback runs.
def Free (occasion : Occasion) (c : ClientImpl) : Prop :=
  match occasion with
  | .arrive place .loop => ∀ h ∈ c.handle? place, h.rpc.xid ∉ h.rpc.pendingCalls
  | _ => True

instance (occasion : Occasion) (c : ClientImpl) : Decidable (Free occasion c) :=
  match occasion with
  | .arrive _ .loop => inferInstanceAs (Decidable (∀ h ∈ _, _))
  | .arrive _ (.message _) | .arrive _ (.timeout _) | .arrive _ (.connection _) => .isTrue trivial
  | .reset | .timer _ | .destroy | .ask _ | .stop => .isTrue trivial

def endings (occasion : Occasion) (c : ClientImpl) : List Ending :=
  match occasion with
  | .arrive place arrival =>
      match c.handle? place with
      | none => []
      | some h => h.endings arrival.action
  | .destroy =>
      match c.old with
      | [] => []
      | h :: _ => if h.rpc.queued.isEmpty then h.endings .close else []
  | _ => []

def resets (occasion : Occasion) (c : ClientImpl) : Bool :=
  match occasion with
  | .reset => !c.scheduled.isEmpty
  | .timer id => c.timers.contains id
  | _ => (c.endings occasion).any Ending.resets

structure Reached (occasion : Occasion) (c base : ClientImpl) : Prop where
  state : base.state = c.state
  sid : base.sid = c.sid
  trigered : base.trigered = c.trigered
  scheduled : base.scheduled = c.scheduled
  timers : base.timers = c.timers
  came : c.handles ≠ []
  handles : ∀ g ∈ base.handles, ∃ h ∈ c.handles, h.Continues g
  kept : ∀ h, c.client = some h → ∃ g, base.client = some g ∧ h.Continues g
  drives : Free occasion c → (∃ h ∈ c.handles, h.Drives) →
    (∃ g ∈ base.handles, g.Drives) ∨ ∃ e ∈ c.endings occasion, e.call.kind ≠ .app
  own : occasion.current = true → ∀ e ∈ c.endings occasion, ∀ sid ∈ e.registers,
    ∃ g, base.client = some g ∧ sid ∈ g.registered
  other : occasion.current = false → base.client = c.client

inductive Course (random : Nat → Nat) (occasion : Occasion) (c : ClientImpl) : ClientImpl → Prop
  | idle (ends : c.endings occasion = []) (still : c.resets occasion = false) :
      Course random occasion c c
  | reset (scheduled : List Str) (timers : List Nat) (addr : Str) (ends : c.endings occasion = [])
      (resets : c.resets occasion = true) :
      Course random occasion c
        ({ c with scheduled := scheduled, timers := timers }.resetConnection addr)
  | connects (base : ClientImpl) (reached : Reached occasion c base)
      (ends : c.endings occasion = []) (still : c.resets occasion = false) :
      Course random occasion c (base.onConnection random true)
  | callbacks (base : ClientImpl) (reached : Reached occasion c base)
      (batch : Batch (c.endings occasion))
      (resets : c.resets occasion = (c.endings occasion).any Ending.resets) :
      Course random occasion c ((c.endings occasion).foldl (finish random) base)
  | asks (req : Request) (ends : c.endings occasion = []) (still : c.resets occasion = false) :
      Course random occasion c (c.callInLoop .app req id)
  | stops (ends : c.endings occasion = []) (still : c.resets occasion = false) :
      Course random occasion c { c with state := .closed }

variable {random : Nat → Nat} {c next : ClientImpl}

theorem mem_handles {h : Handle} : h ∈ c.handles ↔ h ∈ c.old ∨ c.client = some h := by
  simp [handles]

theorem call_handles {call : Call} {h : Handle} (member : h ∈ (c.call call).handles) :
    h ∈ c.handles ∨ ∃ g, c.client = some g ∧ h = g.call call := by
  rcases mem_handles.mp member with former | current
  · exact .inl (mem_handles.mpr (.inl former))
  · obtain ⟨g, there, same⟩ := Option.map_eq_some_iff.mp current
    exact .inr ⟨g, there, same.symm⟩

theorem resetConnection_handles {addr : Str} {h : Handle}
    (member : h ∈ (c.resetConnection addr).handles) : h ∈ c.handles ∨ h = .new addr := by
  unfold resetConnection at member
  split_ifs at member
  · exact .inl member
  · exact (List.mem_append.mp member).imp_right List.mem_singleton.mp

theorem handle?_mem {place : Place} {h : Handle} (there : c.handle? place = some h) :
    h ∈ c.handles := by
  cases place with
  | current => exact mem_handles.mpr (.inr there)
  | old index => exact mem_handles.mpr (.inl (List.mem_of_getElem? there))

theorem setHandle_mem {place : Place} {h : Handle} (there : c.handle? place = some h)
    (other : Handle) {g : Handle} (member : g ∈ c.handles) :
    g ∈ (c.setHandle place other).handles ∨ g = h := by
  rcases mem_handles.mp member with former | current
  · cases place with
    | current => exact .inl (mem_handles.mpr (.inl former))
    | old index =>
        obtain ⟨position, found⟩ := List.mem_iff_getElem?.mp former
        by_cases here : index = position
        · subst here
          exact .inr (Option.some.inj (found.symm.trans there))
        · refine .inl (mem_handles.mpr (.inl (List.mem_iff_getElem?.mpr ⟨position, ?_⟩)))
          change (c.old.set index other)[position]? = some g
          rw [List.getElem?_set_ne here, found]
  · cases place with
    | current => exact .inr (Option.some.inj (current.symm.trans there))
    | old index => exact .inl (mem_handles.mpr (.inr current))

theorem mem_setHandle {place : Place} {h : Handle} (there : c.handle? place = some h)
    (other : Handle) : other ∈ (c.setHandle place other).handles ∧
      ∀ g ∈ (c.setHandle place other).handles, g = other ∨ g ∈ c.handles := by
  cases place with
  | current =>
      refine ⟨mem_handles.mpr (.inr rfl), fun g member => ?_⟩
      rcases mem_handles.mp member with former | current
      · exact .inr (mem_handles.mpr (.inl former))
      · exact .inl (Option.some.inj current).symm
  | old index =>
      have inside := (List.getElem?_eq_some_iff.mp there).1
      refine ⟨mem_handles.mpr (.inl (List.mem_set inside other)), fun g member => ?_⟩
      rcases mem_handles.mp member with former | current
      · exact (List.mem_or_eq_of_mem_set former).symm.imp_right fun still =>
          mem_handles.mpr (.inl still)
      · exact .inr (mem_handles.mpr (.inr current))

theorem setHandle_reached {place : Place} {arrival : Arrival} {h next : Handle}
    (there : c.handle? place = some h)
    (taken : h.act arrival.action = .ok (next, c.endings (.arrive place arrival))) :
    Reached (.arrive place arrival) c (c.setHandle place next) := by
  have silent : arrival.action ≠ .call := by cases arrival <;> simp [Arrival.action]
  have continues := Handle.act_continues silent taken
  have member := handle?_mem there
  obtain ⟨entered, others⟩ := mem_setHandle there next
  refine
    { state := by cases place <;> rfl
      sid := by cases place <;> rfl
      trigered := by cases place <;> rfl
      scheduled := by cases place <;> rfl
      timers := by cases place <;> rfl
      came := List.ne_nil_of_mem member
      handles := ?_
      kept := ?_
      drives := ?_
      own := ?_
      other := ?_ }
  · intro g found
    rcases others g found with rfl | before
    · exact ⟨h, member, continues⟩
    · exact ⟨g, before, .refl g⟩
  · intro g current
    cases place with
    | current =>
        cases there.symm.trans current
        exact ⟨next, rfl, continues⟩
    | old index => exact ⟨g, current, .refl g⟩
  · rintro free ⟨g, found, drives⟩
    rcases setHandle_mem there next found with still | rfl
    · exact .inl ⟨g, still, drives⟩
    · refine (drives.act (fun loop => ?_) taken).imp_left fun drives => ⟨next, entered, drives⟩
      cases arrival with
      | loop => exact free g there
      | _ => cases loop
  · intro current e ended sid registers
    obtain ⟨rpc, -, -, rfl⟩ := Handle.act_cases taken
    cases place with
    | current =>
        exact ⟨_, rfl, List.mem_append_right _ (List.mem_filterMap.mpr ⟨e, ended, registers⟩)⟩
    | old index => cases current
  · intro other
    cases place with
    | current => cases other
    | old index => rfl

theorem destroy_reached {h next : Handle} {rest : List Handle} (queue : c.old = h :: rest)
    (drained : h.rpc.queued = []) (taken : h.act .close = .ok (next, c.endings .destroy)) :
    Reached .destroy c { c with old := rest } := by
  have all : c.handles = h :: handles { c with old := rest } := by simp [handles, queue]
  refine
    { state := rfl
      sid := rfl
      trigered := rfl
      scheduled := rfl
      timers := rfl
      came := by simp [all]
      handles := fun g found => ⟨g, by rw [all]; exact List.mem_cons_of_mem _ found, .refl g⟩
      kept := fun g current => ⟨g, current, .refl g⟩
      drives := ?_
      own := fun current => by cases current
      other := fun _ => rfl }
  rintro - ⟨g, found, drives⟩
  rw [all] at found
  rcases List.mem_cons.mp found with rfl | still
  · exact .inr (drives.close drained taken)
  · exact .inl ⟨g, still, drives⟩

theorem arrive_course (random : Nat → Nat) (place : Place) (arrival : Arrival) (c : ClientImpl) :
    ∃ next, c.arrive random place arrival = .ok next ∧
      Course random (.arrive place arrival) c next := by
  unfold arrive
  split
  next absent =>
    have ends : c.endings (.arrive place arrival) = [] := by simp [endings, absent]
    exact ⟨c, rfl, .idle ends (by simp [resets, ends])⟩
  next h there =>
    have ends : c.endings (.arrive place arrival) = h.endings arrival.action := by
      simp [endings, there]
    obtain ⟨next, acted⟩ := h.act_ok arrival.action
    refine ⟨_, Runs.bind_ok.mpr ⟨_, acted, rfl⟩, ?_⟩
    rw [← ends] at acted ⊢
    have reached := setHandle_reached there acted
    split_ifs with up
    · subst up
      have none := Handle.act_connected acted
      rw [none]
      exact .connects _ reached none (by simp [resets, none])
    · refine .callbacks _ reached (Handle.act_batch ?_ acted) rfl
      cases arrival <;> simp [Arrival.action]

theorem destroy_course (random : Nat → Nat) (c : ClientImpl) :
    ∃ next, c.destroy random = .ok next ∧ Course random .destroy c next := by
  unfold destroy
  split
  next none =>
    exact ⟨c, rfl, .idle (by simp [endings, none]) (by simp [resets, endings, none])⟩
  next h rest queue =>
    split_ifs with drained
    · have ends : c.endings .destroy = h.endings .close := by simp [endings, queue, drained]
      obtain ⟨next, acted⟩ := h.act_ok .close
      refine ⟨_, Runs.bind_ok.mpr ⟨_, acted, rfl⟩, ?_⟩
      rw [← ends] at acted ⊢
      exact .callbacks _ (destroy_reached queue (List.isEmpty_iff.mp drained) acted)
        (Handle.act_batch (h := h) (by simp) acted) rfl
    · refine ⟨c, rfl, .idle ?_ ?_⟩ <;> simp [resets, endings, queue, drained]

theorem act_course (random : Nat → Nat) (occasion : Occasion) (c : ClientImpl) :
    ∃ next, c.act random occasion = .ok next ∧ Course random occasion c next := by
  cases occasion with
  | reset =>
      unfold act
      dsimp only
      split
      next none => exact ⟨c, rfl, .idle rfl (by simp [resets, none])⟩
      next addr rest queue =>
        exact ⟨_, rfl, .reset rest c.timers addr rfl (by simp [resets, queue])⟩
  | timer id =>
      unfold act
      dsimp only
      split_ifs with armed
      · exact ⟨_, rfl, .reset c.scheduled (c.timers.erase id) _ rfl (by simp [resets, armed])⟩
      · exact ⟨c, rfl, .idle rfl (by simp [resets, armed])⟩
  | arrive place arrival => exact arrive_course random place arrival c
  | destroy => exact destroy_course random c
  | ask req => exact ⟨_, rfl, .asks req rfl rfl⟩
  | stop => exact ⟨_, rfl, .stops rfl rfl⟩

theorem course_of_act {occasion : Occasion} (taken : c.act random occasion = .ok next) :
    Course random occasion c next := by
  obtain ⟨other, acted, course⟩ := act_course random occasion c
  cases taken.symm.trans acted
  exact course

def started : ClientImpl := (new [text "one:7000", text "two:7000"] 0 30000).start id

def connecting : List Occasion :=
  [.reset, .arrive .current (.connection true), .arrive .current .loop,
    .arrive .current (.message ⟨0, { Response.empty with sid := some 5 }⟩), .arrive .current .loop]

def losing : List Occasion := connecting ++ [.arrive .current (.connection false), .destroy]

end ClientImpl

end Client

end Pyxis
