import Pyxis.Client.Driven

set_option autoImplicit false

namespace Pyxis.Client

def Ending.told (e : Ending) : List (Str × Watch.Event) :=
  if e.succeeds then
    match e.call.kind with
    | .register => [([], ⟨[], Watch.kConnected⟩)]
    | .ping => (e.rep.watch.map fun event => (e.rep.path.getD [], event)).toList
    | .app => []
  else []

namespace ClientImpl

variable {random : Nat → Nat} {c next : ClientImpl} {e : Ending} {ends : List Ending}

def Holds (sid : Sid) (c : ClientImpl) : Prop :=
  sid ≠ 0 ∧ ∃ h, c.client = some h ∧ sid ∈ h.registered

/-- A client that is connected has registered, and so has every rpc client that was given another
request than a register. -/
structure Registered (c : ClientImpl) : Prop where
  connected : c.state = .connected → c.Holds c.sid
  named : ∀ sid, c.sidCall = .ok sid → c.Holds sid
  sent : ∀ h ∈ c.handles, ∀ call ∈ h.calls, call.kind ≠ .register →
    ∃ sid, call.req.sid? = some sid ∧ sid ≠ 0 ∧ sid ∈ h.registered

-- A connected client does not reset its connection, and a register that succeeds gives a sid to
-- the current rpc client.
def Stays (occasion : Occasion) (c : ClientImpl) : Prop :=
  (c.state = .connected → c.resets occasion = false) ∧
    (c.state ≠ .closed → ∀ e ∈ c.endings occasion, ∀ sid ∈ e.registers,
      sid ≠ 0 ∧ (occasion.current = true ∨ ∃ h ∈ c.client, sid ∈ h.registered))

instance (occasion : Occasion) (c : ClientImpl) : Decidable (Stays occasion c) :=
  inferInstanceAs (Decidable (_ ∧ _))

@[simp] theorem resetConnection_state (addr : Str) : (c.resetConnection addr).state = c.state := by
  unfold resetConnection
  split_ifs <;> rfl

@[simp] theorem resetConnection_trigered (addr : Str) :
    (c.resetConnection addr).trigered = c.trigered := by
  unfold resetConnection
  split_ifs <;> rfl

@[simp] theorem pingFailed_state (rep : Response) : (c.pingFailed random rep).state = c.state := by
  unfold pingFailed
  split <;> simp

@[simp] theorem pingFailed_trigered (rep : Response) :
    (c.pingFailed random rep).trigered = c.trigered := by
  unfold pingFailed
  split <;> simp

@[simp] theorem ping_state : (c.ping random).state = c.state := by
  unfold ping callInLoop
  split_ifs <;> simp [call]

@[simp] theorem ping_trigered : (c.ping random).trigered = c.trigered := by
  unfold ping callInLoop
  split_ifs <;> simp [call]

theorem registered_of (connected : c.state = .connected → c.Holds c.sid)
    (sent : ∀ h ∈ c.handles, ∀ call ∈ h.calls, call.kind ≠ .register →
      ∃ sid, call.req.sid? = some sid ∧ sid ≠ 0 ∧ sid ∈ h.registered) : c.Registered := by
  refine ⟨connected, fun sid told => ?_, sent⟩
  unfold sidCall at told
  split_ifs at told with state
  cases told
  exact connected state

theorem Holds.call {sid : Sid} (holds : c.Holds sid) (call : Call) : (c.call call).Holds sid := by
  obtain ⟨live, h, there, known⟩ := holds
  exact ⟨live, h.call call, by simp [ClientImpl.call, there], known⟩

theorem Registered.call (registered : c.Registered) {call : Call}
    (own : call.kind ≠ .register → ∃ sid, call.req.sid? = some sid ∧ c.Holds sid) :
    (c.call call).Registered := by
  refine registered_of (fun connected => (registered.connected connected).call call) ?_
  intro h member made listed kind
  rcases call_handles member with former | ⟨g, there, rfl⟩
  · exact registered.sent h former made listed kind
  · rcases List.mem_append.mp listed with before | last
    · exact registered.sent g (mem_handles.mpr (.inr there)) made before kind
    · cases List.mem_singleton.mp last
      obtain ⟨sid, given, live, h, same, known⟩ := own kind
      cases there.symm.trans same
      exact ⟨sid, given, live, known⟩

theorem Registered.callInLoop (registered : c.Registered) (kind : Kind) (req : Request)
    (refused : ClientImpl → ClientImpl)
    (otherwise : c.state ≠ .connected → (refused c).Registered) :
    (c.callInLoop kind req refused).Registered := by
  unfold ClientImpl.callInLoop
  split_ifs with connected
  · exact registered.call fun _ => ⟨c.sid, rfl, registered.connected connected⟩
  · exact otherwise connected

theorem Registered.resetConnection (registered : c.Registered) (looking : c.state ≠ .connected)
    (addr : Str) : (c.resetConnection addr).Registered := by
  refine registered_of (fun connected => absurd connected (by simpa using looking)) ?_
  intro h member
  rcases resetConnection_handles member with former | rfl
  · exact registered.sent h former
  · simp [Handle.new]

theorem Registered.setSid (registered : c.Registered) (looking : c.state ≠ .connected) (sid : Sid) :
    Registered { c with sid := sid } :=
  registered_of (fun connected => absurd connected looking) registered.sent

theorem Registered.pingFailed (registered : c.Registered) (looking : c.state ≠ .connected)
    (rep : Response) : (c.pingFailed random rep).Registered := by
  unfold ClientImpl.pingFailed
  split
  · exact (registered.setSid looking 0).resetConnection looking _
  · exact registered.resetConnection looking _

theorem Registered.ping (registered : c.Registered) : (c.ping random).Registered :=
  registered.callInLoop _ _ _ fun looking => registered.pingFailed looking _

theorem Registered.triger (registered : c.Registered) (path : Str) (e : Watch.Event) :
    (c.triger path e).Registered :=
  registered_of registered.connected registered.sent

theorem Registered.onPing (registered : c.Registered) {status : Status} {rep : Response}
    (keeps : c.state = .connected →
      (status.isOk && rep.err.isNone) = true ∨ status.isTimeout = true) :
    (c.onPing random status rep).Registered := by
  unfold ClientImpl.onPing
  split_ifs with closed good late
  · exact registered
  · split
    · exact (registered.triger _ _).ping
    · exact registered.ping
  · exact registered.ping
  · exact registered.pingFailed
      (fun connected => (keeps connected).elim (by simpa using good) (by simpa using late)) rep

theorem Registered.onRegister (registered : c.Registered) {status : Status} {rep : Response}
    (keeps : c.state = .connected → (status.isOk && rep.err.isNone) = true)
    (own : c.state ≠ .closed → (status.isOk && rep.err.isNone) = true → c.Holds (rep.sid.getD 0)) :
    (c.onRegister random status rep).Registered := by
  unfold ClientImpl.onRegister
  split_ifs with closed good
  · exact registered
  · refine Registered.ping (.triger ?_ _ _)
    exact registered_of (fun _ => own closed good) registered.sent
  · have looking : c.state ≠ .connected := fun connected => good (keeps connected)
    split
    · exact registered.resetConnection looking _
    · exact (registered.setSid looking 0).resetConnection looking _
    · exact registered.resetConnection looking _

theorem Registered.finish (registered : c.Registered)
    (keeps : c.state = .connected → e.resets = false)
    (own : c.state ≠ .closed → ∀ sid ∈ e.registers, c.Holds sid) :
    (c.finish random e).Registered := by
  unfold ClientImpl.finish
  unfold Ending.resets at keeps
  split
  next kind =>
    rw [kind] at keeps
    refine registered.onRegister (fun connected => ?_) fun opened good => own opened _ ?_
    · simpa [Ending.succeeds] using keeps connected
    · simp only [Ending.registers, kind, Ending.succeeds, good, and_self, if_true, Option.mem_def]
  next kind =>
    rw [kind] at keeps
    refine registered.onPing fun connected => ?_
    have kept := keeps connected
    rw [Bool.not_eq_false', Bool.or_eq_true] at kept
    exact kept
  · exact registered

theorem Holds.reached {occasion : Occasion} {base : ClientImpl} {sid : Sid} (holds : c.Holds sid)
    (reached : Reached occasion c base) : base.Holds sid := by
  obtain ⟨live, h, there, known⟩ := holds
  obtain ⟨g, current, continues⟩ := reached.kept h there
  exact ⟨live, g, current, continues.registered known⟩

theorem Registered.reached {occasion : Occasion} {base : ClientImpl} (registered : c.Registered)
    (reached : Reached occasion c base) : base.Registered := by
  refine registered_of (fun connected => ?_) fun g member call listed kind => ?_
  · rw [reached.sid]
    exact (registered.connected (reached.state ▸ connected)).reached reached
  · obtain ⟨h, before, continues⟩ := reached.handles g member
    obtain ⟨sid, given, live, known⟩ :=
      registered.sent h before call (continues.calls ▸ listed) kind
    exact ⟨sid, given, live, continues.registered known⟩

theorem onRegister_effect (random : Nat → Nat) (opened : c.state ≠ .closed) (status : Status)
    (rep : Response) :
    (c.onRegister random status rep).state =
        (if status.isOk && rep.err.isNone then .connected else c.state) ∧
      (c.onRegister random status rep).trigered = c.trigered ++
        if status.isOk && rep.err.isNone then [([], ⟨[], Watch.kConnected⟩)] else [] := by
  unfold onRegister
  rw [if_neg opened]
  split_ifs
  · simp [triger]
  · split <;> simp

theorem onPing_effect (random : Nat → Nat) (opened : c.state ≠ .closed) (status : Status)
    (rep : Response) :
    (c.onPing random status rep).state = c.state ∧
      (c.onPing random status rep).trigered = c.trigered ++
        if status.isOk && rep.err.isNone then
          (rep.watch.map fun event => (rep.path.getD [], event)).toList
        else [] := by
  unfold onPing
  rw [if_neg opened]
  split_ifs
  · cases rep.watch <;> simp [triger]
  · simp
  · simp

theorem finish_effect (random : Nat → Nat) (opened : c.state ≠ .closed) (e : Ending) :
    (c.finish random e).state = (if e.registers = none then c.state else .connected) ∧
      (c.finish random e).trigered = c.trigered ++ e.told := by
  cases kind : e.call.kind with
  | register =>
      obtain ⟨state, trigered⟩ := onRegister_effect random opened e.status e.rep
      simp only [finish, kind, state, trigered, Ending.told, Ending.registers, Ending.succeeds,
        true_and]
      split_ifs <;> simp_all
  | ping =>
      obtain ⟨state, trigered⟩ := onPing_effect random opened e.status e.rep
      simp [finish, kind, state, trigered, Ending.told, Ending.registers, Ending.succeeds]
  | app => simp [finish, kind, Ending.told, Ending.registers]

theorem finishes_effect (random : Nat → Nat) (opened : c.state ≠ .closed) (ends : List Ending) :
    (ends.foldl (finish random) c).trigered = c.trigered ++ ends.flatMap Ending.told ∧
      (ends.foldl (finish random) c).state =
        if ∀ e ∈ ends, e.registers = none then c.state else .connected := by
  induction ends generalizing c with
  | nil => simp
  | cons e rest ih =>
      obtain ⟨state, trigered⟩ := finish_effect random opened e
      have next : (c.finish random e).state ≠ .closed := by
        rw [state]
        split_ifs
        · exact opened
        · nofun
      obtain ⟨further, later⟩ := ih next
      rw [List.foldl_cons, further, later, trigered, state]
      refine ⟨by simp, ?_⟩
      by_cases none : e.registers = none <;> simp [none]

theorem Registered.finishes {ends : List Ending} (registered : c.Registered) (batch : Batch ends)
    (keeps : c.state = .connected → ∀ e ∈ ends, e.resets = false)
    (own : c.state ≠ .closed → ∀ e ∈ ends, ∀ sid ∈ e.registers, c.Holds sid) :
    (ends.foldl (ClientImpl.finish random) c).Registered := by
  by_cases closed : c.state = .closed
  · rw [finishes_closed closed]
    exact registered
  · rcases batch with ⟨e, rfl⟩ | fails
    · exact registered.finish (fun connected => keeps connected e (by simp)) fun opened =>
        own opened e (by simp)
    · clear own
      induction ends generalizing c with
      | nil => exact registered
      | cons e rest ih =>
          have none := Ending.registers_of_fails (fails e (by simp))
          have state : (c.finish random e).state = c.state := by
            rw [(finish_effect random closed e).1, if_pos none]
          refine ih ?_ ?_ (state ▸ closed) fun e member => fails e (List.mem_cons_of_mem _ member)
          · exact registered.finish (fun connected => keeps connected e (by simp)) (by simp [none])
          · exact fun connected e member =>
              keeps (state ▸ connected) e (List.mem_cons_of_mem _ member)

def Fresh (c : ClientImpl) : Prop := ∃ h, c.client = some h ∧ h.registered = []

theorem Registered.not_fresh (registered : c.Registered) (connected : c.state = .connected) :
    ¬ c.Fresh := by
  rintro ⟨h, there, none⟩
  obtain ⟨-, g, same, known⟩ := registered.connected connected
  cases there.symm.trans same
  simp [none] at known

theorem resetConnection_fresh (opened : c.state ≠ .closed) (addr : Str) :
    (c.resetConnection addr).Fresh := by
  rw [resetConnection, if_neg opened]
  exact ⟨_, rfl, rfl⟩

theorem pingFailed_fresh (opened : c.state ≠ .closed) (rep : Response) :
    (c.pingFailed random rep).Fresh := by
  unfold pingFailed
  split
  · exact resetConnection_fresh (c := { c with sid := 0 }) opened _
  · exact resetConnection_fresh opened _

theorem Fresh.ping (fresh : c.Fresh) (connected : c.state = .connected) :
    (c.ping random).Fresh := by
  obtain ⟨h, there, none⟩ := fresh
  rw [ClientImpl.ping, callInLoop, if_pos connected]
  exact ⟨h.call _, congrArg (Option.map _) there, none⟩

theorem finish_fresh (connected : c.state = .connected) (none : e.registers = none)
    (fresh : e.resets = true ∨ c.Fresh) : (c.finish random e).Fresh := by
  have opened : c.state ≠ .closed := by simp [connected]
  unfold finish
  unfold Ending.resets at fresh
  split <;> rename_i kind <;> rw [kind] at fresh
  · have fails : e.succeeds = false := by simpa [Ending.registers, kind] using none
    unfold Ending.succeeds at fails
    rw [onRegister, if_neg opened, fails]
    simp only [Bool.false_eq_true, if_false]
    split
    · exact resetConnection_fresh opened _
    · exact resetConnection_fresh (c := { c with sid := 0 }) opened _
    · exact resetConnection_fresh opened _
  · unfold onPing
    rw [if_neg opened]
    split_ifs with good late
    · have fresh := fresh.resolve_left (by simp [Ending.succeeds, good])
      split
      · exact Fresh.ping (c := c.triger _ _) fresh connected
      · exact fresh.ping connected
    · exact (fresh.resolve_left (by simp [late])).ping connected
    · exact pingFailed_fresh opened _
  · exact fresh.resolve_left (by simp)

theorem finishes_fresh {ends : List Ending} (connected : c.state = .connected)
    (none : ∀ e ∈ ends, e.registers = none) (fresh : (∃ e ∈ ends, e.resets = true) ∨ c.Fresh) :
    (ends.foldl (finish random) c).Fresh := by
  induction ends generalizing c with
  | nil => exact fresh.resolve_left (by simp)
  | cons e rest ih =>
      have own := none e (by simp)
      have others (other : Ending) (member : other ∈ rest) : other.registers = .none :=
        none other (List.mem_cons_of_mem _ member)
      have state : (c.finish random e).state = .connected := by
        rw [(finish_effect random (by simp [connected]) e).1, if_pos own, connected]
      refine ih state others ?_
      rcases fresh with ⟨other, member, resets⟩ | fresh
      · rcases List.mem_cons.mp member with rfl | later
        · exact .inr (finish_fresh connected own (.inl resets))
        · exact .inl ⟨other, later, resets⟩
      · exact .inr (finish_fresh connected own (.inr fresh))

theorem holds_of_finish {sid : Sid} (opened : c.state ≠ .closed)
    (registers : e.registers = some sid) (registered : (c.finish random e).Registered) :
    c.Holds sid := by
  unfold Ending.registers at registers
  split_ifs at registers with registering
  obtain ⟨kind, good⟩ := registering
  unfold Ending.succeeds at good
  cases registers
  simp only [finish, kind, onRegister, if_neg opened, good, if_true, ping, callInLoop, triger]
    at registered
  obtain ⟨live, h, there, known⟩ := registered.connected rfl
  obtain ⟨g, before, rfl⟩ := Option.map_eq_some_iff.mp there
  exact ⟨live, g, before, known⟩

theorem stays_of_still {occasion : Occasion} (ends : c.endings occasion = [])
    (still : c.resets occasion = false) : Stays occasion c :=
  ⟨fun _ => still, by simp [ends]⟩

theorem Registered.stays {occasion : Occasion} {base : ClientImpl}
    (reached : Reached occasion c base) (batch : Batch (c.endings occasion))
    (resets : c.resets occasion = (c.endings occasion).any Ending.resets)
    (registered : ((c.endings occasion).foldl (ClientImpl.finish random) base).Registered) :
    Stays occasion c := by
  refine ⟨fun connected => ?_, fun opened e member sid registers => ?_⟩
  · -- A reset would leave a client that is connected with an rpc client that has not registered.
    rw [resets, List.any_eq_false]
    intro e member reset
    have none : ∀ e ∈ c.endings occasion, e.registers = none := by
      rcases batch with ⟨only, alone⟩ | fails
      · rw [alone] at member ⊢
        cases List.mem_singleton.mp member
        intro other same
        rw [List.mem_singleton.mp same]
        unfold Ending.resets at reset
        unfold Ending.registers
        split at reset <;> rename_i kind
        · simpa [kind] using reset
        · simp [kind]
        · simp [kind]
      · exact fun other listed => Ending.registers_of_fails (fails other listed)
    have state : base.state = .connected := reached.state.trans connected
    have opened : base.state ≠ .closed := by simp [state]
    refine registered.not_fresh ?_ (finishes_fresh state none (.inl ⟨e, member, reset⟩))
    rw [(finishes_effect random opened _).2, if_pos none, state]
  · rcases batch with ⟨only, alone⟩ | fails
    · rw [alone] at member registered
      cases List.mem_singleton.mp member
      obtain ⟨live, h, there, known⟩ :=
        holds_of_finish (by rw [reached.state]; exact opened) registers registered
      refine ⟨live, ?_⟩
      cases current : occasion.current with
      | true => exact .inl rfl
      | false => exact .inr ⟨h, (reached.other current) ▸ there, known⟩
    · rw [Ending.registers_of_fails (fails e member)] at registers
      cases registers

theorem Registered.course {occasion : Occasion} (registered : c.Registered)
    (stays : Stays occasion c) (course : Course random occasion c next) : next.Registered := by
  cases course with
  | idle => exact registered
  | reset scheduled timers addr ends resets =>
      have looking : c.state ≠ .connected := fun connected => by
        simp [stays.1 connected] at resets
      exact Registered.resetConnection (c := { c with scheduled := scheduled, timers := timers })
        (registered_of registered.connected registered.sent) looking addr
  | connects base reached =>
      have before := registered.reached reached
      refine Registered.call (c := { base with
        timers := base.timers.filter fun id => some id ≠ base.connTimerId })
        (registered_of before.connected before.sent) ?_
      exact fun kind => absurd rfl kind
  | callbacks base reached batch resets =>
      refine (registered.reached reached).finishes batch (fun connected e member => ?_)
        fun opened e member sid registers => ?_
      · have none := stays.1 (reached.state ▸ connected)
        rw [resets, List.any_eq_false] at none
        simpa using none e member
      · obtain ⟨live, current | ⟨h, there, known⟩⟩ :=
          stays.2 (reached.state ▸ opened) e member sid registers
        · exact ⟨live, reached.own current e member sid registers⟩
        · exact Holds.reached ⟨live, h, there, known⟩ reached
  | asks req => exact registered.callInLoop _ _ _ fun _ => registered
  | stops => exact registered_of nofun registered.sent

theorem registered_iff_stays {occasion : Occasion} (registered : c.Registered)
    (course : Course random occasion c next) : next.Registered ↔ Stays occasion c := by
  refine ⟨fun after => ?_, fun stays => registered.course stays course⟩
  cases course with
  | idle ends still => exact stays_of_still ends still
  | reset scheduled timers addr ends resets =>
      refine ⟨fun connected => ?_, by simp [ends]⟩
      refine absurd (resetConnection_fresh (by simp [connected]) addr) (after.not_fresh ?_)
      simp [connected]
  | connects base reached ends still => exact stays_of_still ends still
  | callbacks base reached batch resets => exact after.stays reached batch resets
  | asks req ends still => exact stays_of_still ends still
  | stops ends still => exact stays_of_still ends still

theorem connected_registered (random : Nat → Nat) (addrList : List Str) (sid : Sid) (timeout : Int)
    (occasions : List Occasion) :
    Runs.Throughout (act random) Registered ((new addrList sid timeout).start random) occasions ↔
      Runs.Meets (act random) Stays ((new addrList sid timeout).start random) occasions := by
  refine Runs.throughout_iff_meets (act random) Stays (fun _ => True) Registered ?_
    (fun _ _ _ _ _ => trivial) (fun _ _ _ _ taken registered =>
      registered_iff_stays registered (course_of_act taken)) _ occasions trivial ?_
  · intro occasion c failure _ failed
    obtain ⟨next, taken, -⟩ := act_course random occasion c
    simp [taken] at failed
  · exact registered_of nofun (by simp [handles, new, start])

-- A client that connects and registers keeps to it.
example : Runs.Meets (act id) Stays started connecting := by decide +kernel

def expiring : List Occasion :=
  connecting ++ [.arrive .current (.message ⟨1, { Response.empty with
    err := some ⟨.sessionExpired, text "session not found"⟩ }⟩),
    .arrive .current (.connection true), .ask { Request.empty with read := some (text "/a") },
    .arrive .current .loop, .arrive .current .loop]

theorem connected_unregistered : ∃ last h, Runs.run (act id) started expiring = .ok last ∧
    last.state = .connected ∧ last.sid = 0 ∧ last.sidCall = .ok 0 ∧
    last.client = some h ∧ h.registered = [] ∧ h.rpc.sent.map Prod.fst = [0, 1] ∧
    h.calls[1]? =
      some ⟨.app, { Request.empty with sid? := some 0, read := some (text "/a") }⟩ ∧
    ¬ last.Registered := by
  have found : Runs.passes (Runs.run (act id) started expiring) (fun last =>
      decide (last.state = .connected ∧ last.sid = 0) &&
        last.client.any fun h => decide (h.registered = [] ∧ h.rpc.sent.map Prod.fst = [0, 1] ∧
          h.calls[1]? =
            some ⟨.app, { Request.empty with sid? := some 0, read := some (text "/a") }⟩)) =
      true := by
    decide +kernel
  simp only [Runs.passes_iff, Bool.and_eq_true, decide_eq_true_eq, Option.any_eq_true] at found
  obtain ⟨last, reached, ⟨state, sid⟩, h, there, none, sent, call⟩ := found
  refine ⟨last, h, reached, state, sid, ?_, there, none, sent, call, fun registered => ?_⟩
  · rw [sidCall, if_pos state, sid]
  · exact registered.not_fresh state ⟨h, there, none⟩

/-- Between any two `kConnected` handed to the `WatchManager` there is a `kDisconnected`. -/
def Alternates (c : ClientImpl) : Prop :=
  ∀ (i j : Nat) (first second : Str × Watch.Event), i < j →
    c.trigered[i]? = some first → c.trigered[j]? = some second →
    first.2.type = Watch.kConnected → second.2.type = Watch.kConnected →
    ∃ (k : Nat) (between : Str × Watch.Event), i < k ∧ k < j ∧ c.trigered[k]? = some between ∧
      between.2.type = Watch.kDisconnected

def NodeEvents (occasion : Occasion) (c : ClientImpl) : Prop :=
  ∀ e ∈ c.endings occasion, e.call.kind = .ping → ∀ event ∈ e.rep.watch,
    event.type ≠ Watch.kConnected ∧ event.type ≠ Watch.kDisconnected

instance (occasion : Occasion) (c : ClientImpl) : Decidable (NodeEvents occasion c) :=
  inferInstanceAs (Decidable (∀ e ∈ _, _ → _))

def RegistersOnce (occasion : Occasion) (c : ClientImpl) : Prop :=
  c.state = .connected → ∀ e ∈ c.endings occasion, e.registers = none

instance (occasion : Occasion) (c : ClientImpl) : Decidable (RegistersOnce occasion c) :=
  inferInstanceAs (Decidable (_ → ∀ e ∈ _, _))

structure Told (c : ClientImpl) : Prop where
  lost : ∀ told ∈ c.trigered, told.2.type ≠ Watch.kDisconnected
  looking : c.state = .looking → ∀ told ∈ c.trigered, told.2.type ≠ Watch.kConnected
  connected : c.state = .connected → ∃ told ∈ c.trigered, told.2.type = Watch.kConnected

theorem Told.alternates_iff (told : c.Told) : c.Alternates ↔ c.trigered.Pairwise fun first second =>
    ¬ (first.2.type = Watch.kConnected ∧ second.2.type = Watch.kConnected) := by
  rw [List.pairwise_iff_getElem]
  constructor
  · rintro alternates i j inside within before ⟨first, second⟩
    obtain ⟨k, between, -, -, there, lost⟩ := alternates i j _ _ before
      (List.getElem?_eq_getElem inside) (List.getElem?_eq_getElem within) first second
    exact told.lost between (List.mem_of_getElem? there) lost
  · intro apart i j first second before here there up again
    obtain ⟨inside, rfl⟩ := List.getElem?_eq_some_iff.mp here
    obtain ⟨within, rfl⟩ := List.getElem?_eq_some_iff.mp there
    exact absurd ⟨up, again⟩ (apart i j inside within before)

theorem told_of_ending (nodes : e.call.kind = .ping → ∀ event ∈ e.rep.watch,
      event.type ≠ Watch.kConnected ∧ event.type ≠ Watch.kDisconnected)
    {told : Str × Watch.Event} (member : told ∈ e.told) :
    told.2.type ≠ Watch.kDisconnected ∧
      (told.2.type = Watch.kConnected ↔ e.registers ≠ none) := by
  unfold Ending.told at member
  split_ifs at member with good
  · split at member <;> rename_i kind
    · rw [List.mem_singleton.mp member]
      exact ⟨by decide, by simp [Ending.registers, kind, good]⟩
    · obtain ⟨event, there, rfl⟩ := Option.map_eq_some_iff.mp (Option.mem_toList.mp member)
      obtain ⟨up, lost⟩ := nodes kind event there
      exact ⟨lost, by simp [Ending.registers, kind, up]⟩
    · cases member
  · cases member

theorem told_of_registers (registers : e.registers ≠ none) :
    ∃ told ∈ e.told, told.2.type = Watch.kConnected := by
  unfold Ending.registers at registers
  split_ifs at registers with registering
  · exact ⟨([], ⟨[], Watch.kConnected⟩), by simp [Ending.told, registering], rfl⟩
  · exact absurd rfl registers

theorem told_pairwise (batch : Batch ends)
    (related : Str × Watch.Event → Str × Watch.Event → Prop) :
    (ends.flatMap Ending.told).Pairwise related := by
  rcases batch with ⟨e, rfl⟩ | fails
  · simp only [List.flatMap_cons, List.flatMap_nil, List.append_nil, Ending.told]
    split_ifs
    · split
      · simp
      · cases e.rep.watch <;> simp
      · simp
    · simp
  · have none : ends.flatMap Ending.told = [] := by
      rw [List.flatMap_eq_nil_iff]
      exact fun e member => by simp [Ending.told, fails e member]
    simp [none]

theorem Course.closed {occasion : Occasion} (course : Course random occasion c next)
    (closed : c.state = .closed) : next.state = .closed ∧ next.trigered = c.trigered := by
  cases course with
  | idle => exact ⟨closed, rfl⟩
  | reset => simp [closed]
  | connects base reached => exact ⟨reached.state.trans closed, reached.trigered⟩
  | callbacks base reached =>
      rw [finishes_closed (reached.state.trans closed)]
      exact ⟨reached.state.trans closed, reached.trigered⟩
  | asks req => simp [callInLoop, closed]
  | stops => exact ⟨rfl, rfl⟩

theorem Course.opened {occasion : Occasion} (course : Course random occasion c next)
    (opened : c.state ≠ .closed) :
    next.trigered = c.trigered ++ (c.endings occasion).flatMap Ending.told ∧
      (next.state = .closed ∨ next.state =
        if ∀ e ∈ c.endings occasion, e.registers = none then c.state else .connected) := by
  cases course with
  | idle ends => simp [ends]
  | reset scheduled timers addr ends => simp [ends]
  | connects base reached ends =>
      simp only [ends, List.flatMap_nil, List.append_nil]
      refine ⟨reached.trigered, .inr ?_⟩
      rw [if_pos (by simp)]
      exact reached.state
  | callbacks base reached =>
      obtain ⟨trigered, state⟩ := finishes_effect random
        (by rw [reached.state]; exact opened) (c.endings occasion)
      rw [trigered, state, reached.trigered, reached.state]
      exact ⟨rfl, .inr rfl⟩
  | asks req ends =>
      simp only [ends, callInLoop]
      split <;> simp [call]
  | stops ends => simp [ends]

theorem Course.batch {occasion : Occasion} (course : Course random occasion c next) :
    Batch (c.endings occasion) := by
  cases course with
  | callbacks base reached batch => exact batch
  | idle ends | reset _ _ _ ends | connects _ _ ends | asks _ ends | stops ends =>
      exact .inr (by simp [ends])

theorem Told.course {occasion : Occasion} (told : c.Told) (nodes : NodeEvents occasion c)
    (course : Course random occasion c next) : next.Told := by
  by_cases closed : c.state = .closed
  · obtain ⟨state, trigered⟩ := course.closed closed
    exact ⟨trigered ▸ told.lost, by simp [state], by simp [state]⟩
  · obtain ⟨trigered, state⟩ := course.opened closed
    refine ⟨?_, fun looking => ?_, fun connected => ?_⟩ <;> rw [trigered]
    · intro event member
      rcases List.mem_append.mp member with before | fresh
      · exact told.lost event before
      · obtain ⟨e, ended, made⟩ := List.mem_flatMap.mp fresh
        exact (told_of_ending (nodes e ended) made).1
    · rw [looking] at state
      split_ifs at state with none
      · have before := told.looking (state.resolve_left nofun).symm
        intro event member
        rcases List.mem_append.mp member with earlier | fresh
        · exact before event earlier
        · obtain ⟨e, ended, made⟩ := List.mem_flatMap.mp fresh
          exact fun up => (told_of_ending (nodes e ended) made).2.mp up (none e ended)
      · simp at state
    · rw [connected] at state
      split_ifs at state with none
      · obtain ⟨event, member, up⟩ := told.connected (state.resolve_left nofun).symm
        exact ⟨event, List.mem_append_left _ member, up⟩
      · obtain ⟨e, ended, registers⟩ := by simpa only [not_forall, exists_prop] using none
        obtain ⟨event, made, up⟩ := told_of_registers registers
        exact ⟨event, List.mem_append_right _ (List.mem_flatMap.mpr ⟨e, ended, made⟩), up⟩

theorem alternates_iff_once {occasion : Occasion} (told : c.Told) (nodes : NodeEvents occasion c)
    (alternates : c.Alternates) (course : Course random occasion c next) :
    next.Alternates ↔ RegistersOnce occasion c := by
  rw [(told.course nodes course).alternates_iff]
  rw [told.alternates_iff] at alternates
  by_cases closed : c.state = .closed
  · rw [(course.closed closed).2]
    exact ⟨fun _ connected => by simp [closed] at connected, fun _ => alternates⟩
  · rw [(course.opened closed).1, List.pairwise_append]
    constructor
    · rintro ⟨-, -, apart⟩ connected e ended
      by_contra registers
      obtain ⟨first, before, up⟩ := told.connected connected
      obtain ⟨second, made, again⟩ := told_of_registers registers
      exact apart first before second (List.mem_flatMap.mpr ⟨e, ended, made⟩) ⟨up, again⟩
    · intro once
      refine ⟨alternates, told_pairwise course.batch _, ?_⟩
      rintro first before second member ⟨up, again⟩
      obtain ⟨e, ended, made⟩ := List.mem_flatMap.mp member
      cases state : c.state with
      | looking => exact told.looking state first before up
      | connected => exact (told_of_ending (nodes e ended) made).2.mp again (once state e ended)
      | closed => exact closed state

theorem connections_told (random : Nat → Nat) (addrList : List Str) (sid : Sid) (timeout : Int)
    (occasions : List Occasion)
    (nodes : Runs.Meets (act random) NodeEvents ((new addrList sid timeout).start random)
      occasions) :
    Runs.Throughout (act random) Alternates ((new addrList sid timeout).start random) occasions ↔
      Runs.Meets (act random) RegistersOnce ((new addrList sid timeout).start random)
        occasions := by
  refine Runs.throughout_iff_meets_given (act random) NodeEvents RegistersOnce Told Alternates ?_
    (fun _ _ _ told nodes taken => told.course nodes (course_of_act taken))
    (fun _ _ _ told nodes taken alternates =>
      alternates_iff_once told nodes alternates (course_of_act taken)) _ occasions ?_ ?_ nodes
  · intro occasion c failure _ failed
    obtain ⟨next, taken, -⟩ := act_course random occasion c
    simp [taken] at failed
  · exact ⟨by simp [new, start], by simp [new, start], nofun⟩
  · intro i j first second _ here
    simp [new, start] at here

def notified : List Occasion :=
  connecting ++ [.arrive .current (.message ⟨1, { Response.empty with
    path := some (text "/a"), watch := some ⟨text "/a", Watch.kModify⟩ }⟩)]

theorem connections_told_notified : ∃ last, Runs.run (act id) started notified = .ok last ∧
    last.trigered.map (fun told => told.2.type) = [Watch.kConnected, Watch.kModify] ∧
    Runs.Meets (act id) NodeEvents started notified ∧
    Runs.Throughout (act id) Alternates started notified := by
  have found : Runs.passes (Runs.run (act id) started notified) (fun last =>
      decide (last.trigered.map (fun told => told.2.type) =
        [Watch.kConnected, Watch.kModify])) = true := by
    decide +kernel
  simp only [Runs.passes_iff, decide_eq_true_eq] at found
  obtain ⟨last, reached, told⟩ := found
  have nodes : Runs.Meets (act id) NodeEvents started notified := by decide +kernel
  have once : Runs.Meets (act id) RegistersOnce started notified := by decide +kernel
  exact ⟨last, reached, told, nodes, (connections_told id _ 0 30000 notified nodes).mpr once⟩

def returning : List Occasion :=
  losing ++ [.arrive .current (.connection true), .arrive .current .loop,
    .arrive .current (.message ⟨0, { Response.empty with sid := some 5 }⟩)]

theorem connected_told_twice : ∃ last, Runs.run (act id) started returning = .ok last ∧
    last.trigered = [([], ⟨[], Watch.kConnected⟩), ([], ⟨[], Watch.kConnected⟩)] ∧
    Runs.Meets (act id) NodeEvents started returning ∧ ¬ last.Alternates := by
  have found : Runs.passes (Runs.run (act id) started returning) (fun last =>
      decide (last.trigered =
        [([], ⟨[], Watch.kConnected⟩), ([], ⟨[], Watch.kConnected⟩)])) = true := by
    decide +kernel
  simp only [Runs.passes_iff, decide_eq_true_eq] at found
  obtain ⟨last, reached, trigered⟩ := found
  refine ⟨last, reached, trigered, by decide +kernel, fun alternates => ?_⟩
  obtain ⟨k, between, after, before, -⟩ := alternates 0 1 _ _ (by decide)
    (by rw [trigered]; rfl) (by rw [trigered]; rfl) rfl rfl
  omega

end ClientImpl

end Pyxis.Client
