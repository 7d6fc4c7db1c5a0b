import Mathlib.Data.List.Nodup
import Std.Data.ExtTreeMap
import Pyxis.Server.Message
import Pyxis.Shared.Runs

set_option autoImplicit false

open Std (ExtTreeMap)

namespace Pyxis.Rpc

abbrev Xid := UInt64

structure Message where
  xid : Xid
  rep : Response
  deriving DecidableEq, Repr

structure Completion where
  call : Nat
  status : Status
  rep : Option Message
  deriving DecidableEq, Repr

/-- `queued` holds the functors of `queueInLoop`. Nothing depends on `issued`, `sent` and `done`,
which count the calls and record the requests sent and the runs of `Done`. -/
structure Client where
  closing : Bool
  connected : Bool
  xid : Xid
  pendingCalls : ExtTreeMap Xid Nat
  queued : List Nat
  issued : Nat
  sent : List (Nat × Xid)
  done : List Completion

namespace Client

def new : Client where
  closing := false
  connected := false
  xid := 0
  pendingCalls := ∅
  queued := []
  issued := 0
  sent := []
  done := []

def call (c : Client) : Client :=
  { c with queued := c.queued ++ [c.issued], issued := c.issued + 1 }

def complete (done : Completion) (c : Client) : Client := { c with done := c.done ++ [done] }

def callInLoop (call : Nat) (c : Client) : Client :=
  if c.connected = false then
    c.complete ⟨call, Status.disconnect (text "not connected"), none⟩
  else
    { c with
      pendingCalls := c.pendingCalls.insertIfNew c.xid call
      xid := c.xid + 1
      sent := c.sent ++ [(call, c.xid)] }

def runQueued (c : Client) : Client :=
  match c.queued with
  | [] => c
  | call :: rest => callInLoop call { c with queued := rest }

def onRpcMessage (message : Message) (c : Client) : Client :=
  match c.pendingCalls[message.xid]? with
  | none => c
  | some call =>
      complete ⟨call, Status.ok, some message⟩
        { c with pendingCalls := c.pendingCalls.erase message.xid }

def onCallTimeout (xid : Xid) (c : Client) : Client :=
  match c.pendingCalls[xid]? with
  | none => c
  | some call =>
      complete ⟨call, Status.timeout (text "rpc call timeout"), none⟩
        { c with pendingCalls := c.pendingCalls.erase xid }

def reset (call : Nat) : Completion := ⟨call, Status.disconnect (text "rpc call reset"), none⟩

def clearCalls (c : Client) : Except Fault Client :=
  if c.connected then .error .clearConnected
  else .ok { c with
    pendingCalls := ∅
    done := c.done ++ c.pendingCalls.toList.map fun entry => reset entry.2 }

def onConnection (up : Bool) (c : Client) : Except Fault Client :=
  if up then .ok { c with connected := true } else clearCalls { c with connected := false }

def close (c : Client) : Except Fault Client :=
  clearCalls { c with closing := true, connected := false }

end Client

inductive Action where
  | call
  -- The loop takes the next functor from its queue.
  | loop
  | message (message : Message)
  | timeout (xid : Xid)
  | connection (up : Bool)
  | close
  deriving DecidableEq, Repr

namespace Client

def act (action : Action) (c : Client) : Except Fault Client :=
  match action with
  | .call => .ok c.call
  | .loop => .ok c.runQueued
  | .message message => .ok (c.onRpcMessage message)
  | .timeout xid => .ok (c.onCallTimeout xid)
  | .connection up => c.onConnection up
  | .close => c.close

def completed (c : Client) : List Nat := c.done.map Completion.call

structure Sound (c : Client) : Prop where
  once : (c.queued ++ c.sent.map Prod.fst).Nodup
  known : ∀ call ∈ c.queued ++ c.sent.map Prod.fst ++ c.completed, call < c.issued
  xids : (c.sent.map Prod.snd).Nodup
  next : c.sent.length = c.xid.toNat
  below : ∀ xid ∈ c.sent.map Prod.snd, xid < c.xid
  pending : ∀ xid call, c.pendingCalls[xid]? = some call ↔
    (call, xid) ∈ c.sent ∧ call ∉ c.completed
  finished : c.completed.Nodup
  waiting : ∀ call ∈ c.queued, call ∉ c.completed
  answered : ∀ done ∈ c.done, done.status.isOk = true →
    ∃ message, done.rep = some message ∧ (done.call, message.xid) ∈ c.sent

theorem sound_new : Sound new := by
  constructor <;> simp [new, completed]

variable {c : Client}

theorem Sound.xid_unique (sound : Sound c) {call : Nat} {one two : Xid}
    (first : (call, one) ∈ c.sent) (second : (call, two) ∈ c.sent) : one = two := by
  have distinct := (List.nodup_append.mp sound.once).2.1
  exact congrArg Prod.snd (List.inj_on_of_nodup_map distinct first second rfl)

theorem Sound.fresh (sound : Sound c) :
    c.issued ∉ c.queued ++ c.sent.map Prod.fst ++ c.completed := fun member =>
  Nat.lt_irrefl _ (sound.known _ member)

theorem Sound.issue (sound : Sound c) : Sound c.call := by
  have fresh := sound.fresh
  simp only [List.mem_append, not_or] at fresh
  refine ⟨?_, ?_, sound.xids, sound.next, sound.below, sound.pending, sound.finished, ?_,
    sound.answered⟩
  · have moved : (c.call.queued ++ c.call.sent.map Prod.fst).Perm
        (c.issued :: (c.queued ++ c.sent.map Prod.fst)) := by
      simp [call]
    rw [moved.nodup_iff, List.nodup_cons]
    exact ⟨by simpa using fresh.1, sound.once⟩
  · intro other member
    simp only [call, List.append_assoc, List.mem_append, List.mem_singleton] at member
    rcases member with queued | rfl | rest
    · exact Nat.lt_succ_of_lt (sound.known other (by simp [queued]))
    · exact Nat.lt_succ_self _
    · exact Nat.lt_succ_of_lt (sound.known other (by
        simp only [List.append_assoc, List.mem_append]
        exact .inr rest))
  · intro other member
    rcases List.mem_append.mp member with queued | last
    · exact sound.waiting other queued
    · rw [List.mem_singleton.mp last]
      exact fresh.2

theorem Sound.refuse (sound : Sound c) {call : Nat} {rest : List Nat}
    (queue : c.queued = call :: rest) (status : Status) (bad : status.isOk = false) :
    Sound (complete ⟨call, status, none⟩ { c with queued := rest }) := by
  have once := sound.once
  have known := sound.known
  have waiting := sound.waiting
  rw [queue] at once known waiting
  obtain ⟨unsent, once⟩ := List.nodup_cons.mp once
  have unfinished := waiting call (by simp)
  refine ⟨once, ?_, sound.xids, sound.next, sound.below, ?_, ?_, ?_, ?_⟩
  · intro other member
    refine known other ?_
    simp only [complete, completed, List.map_append, List.mem_append, List.map_cons, List.map_nil,
      List.cons_append, List.mem_cons] at member ⊢
    tauto
  · intro xid other
    rw [show (complete _ { c with queued := rest }).pendingCalls = c.pendingCalls from rfl,
      sound.pending]
    refine and_congr_right fun member => ?_
    have different : other ≠ call := by
      rintro rfl
      exact unsent (List.mem_append_right _ (List.mem_map_of_mem (f := Prod.fst) member))
    simp [complete, completed, different]
  · simpa [complete, completed, List.nodup_append] using
      ⟨sound.finished, fun done member same =>
        unfinished (List.mem_map.mpr ⟨done, member, same⟩)⟩
  · intro other member
    have different : other ≠ call := by
      rintro rfl
      exact unsent (List.mem_append_left _ member)
    have before := waiting other (List.mem_cons_of_mem _ member)
    simpa [complete, completed, different] using before
  · intro done member good
    rcases List.mem_append.mp member with before | last
    · exact sound.answered done before good
    · rw [List.mem_singleton.mp last] at good
      rw [bad] at good
      cases good

theorem Sound.send (sound : Sound c) {call : Nat} {rest : List Nat}
    (queue : c.queued = call :: rest) (small : c.sent.length + 1 < 2 ^ 64) :
    Sound { c with
      queued := rest
      pendingCalls := c.pendingCalls.insertIfNew c.xid call
      xid := c.xid + 1
      sent := c.sent ++ [(call, c.xid)] } := by
  have once := sound.once
  have known := sound.known
  have waiting := sound.waiting
  rw [queue] at once known waiting
  have unfinished := waiting call (by simp)
  have unused : c.xid ∉ c.sent.map Prod.snd := fun member =>
    absurd (sound.below c.xid member) (by simp)
  have later : (c.xid + 1).toNat = c.xid.toNat + 1 := by
    have bound := sound.next
    rw [UInt64.toNat_add, UInt64.toNat_one]
    exact Nat.mod_eq_of_lt (by omega)
  refine ⟨?_, ?_, ?_, ?_, ?_, ?_, sound.finished, ?_, ?_⟩
  · have moved : (rest ++ (c.sent ++ [(call, c.xid)]).map Prod.fst).Perm
        (call :: (rest ++ c.sent.map Prod.fst)) := by
      rw [List.map_append, ← List.append_assoc]
      exact List.perm_append_singleton _ _
    exact moved.nodup_iff.mpr once
  · intro other member
    refine known other ?_
    simp only [List.map_append, List.mem_append, List.map_cons, List.map_nil, List.cons_append,
      List.mem_cons] at member ⊢
    tauto
  · rw [List.map_append, List.nodup_append]
    refine ⟨sound.xids, by simp, ?_⟩
    rintro one before two last rfl
    rw [List.map_singleton, List.mem_singleton] at last
    rw [last] at before
    exact unused before
  · simp [later, sound.next]
  · intro xid member
    rw [UInt64.lt_iff_toNat_lt, later]
    simp only [List.map_append, List.mem_append, List.map_cons, List.map_nil,
      List.mem_singleton] at member
    rcases member with before | rfl
    · have less := UInt64.lt_iff_toNat_lt.mp (sound.below xid before)
      omega
    · omega
  · intro xid other
    have absent : c.xid ∉ c.pendingCalls := fun held => by
      obtain ⟨old, stored⟩ := Option.isSome_iff_exists.mp
        (ExtTreeMap.isSome_getElem?_iff_mem.mpr held)
      exact unused (List.mem_map_of_mem (f := Prod.snd) ((sound.pending _ _).mp stored).1)
    simp only [ExtTreeMap.getElem?_insertIfNew, Std.compare_eq_iff_eq, List.mem_append,
      List.mem_singleton, Prod.mk.injEq]
    by_cases here : c.xid = xid
    · subst here
      have unsent : (other, c.xid) ∉ c.sent := fun member =>
        unused (List.mem_map_of_mem (f := Prod.snd) member)
      simp only [absent, not_false_eq_true, and_self, if_true, unsent, and_true, false_or,
        Option.some.injEq]
      exact ⟨fun same => ⟨same.symm, same ▸ unfinished⟩, fun both => both.1.symm⟩
    · simp only [here, false_and, if_false, sound.pending, Ne.symm here, and_false, or_false]
      rfl
  · exact fun other member => waiting other (List.mem_cons_of_mem _ member)
  · intro done member good
    obtain ⟨message, rep, own⟩ := sound.answered done member good
    exact ⟨message, rep, List.mem_append_left _ own⟩

theorem Sound.settle (sound : Sound c) (pendingCalls : ExtTreeMap Xid Nat) (ends : List Completion)
    (distinct : (ends.map Completion.call).Nodup)
    (held : ∀ done ∈ ends, ∃ xid : Xid, c.pendingCalls[xid]? = some done.call ∧
      (done.status.isOk = true → ∃ message, done.rep = some message ∧ message.xid = xid))
    (left : ∀ (xid : Xid) (call : Nat), pendingCalls[xid]? = some call ↔
      c.pendingCalls[xid]? = some call ∧ call ∉ ends.map Completion.call) :
    Sound { c with pendingCalls := pendingCalls, done := c.done ++ ends } := by
  have pending (done : Completion) (member : done ∈ ends) :
      ∃ xid, (done.call, xid) ∈ c.sent ∧ done.call ∉ c.completed ∧
        (done.status.isOk = true → ∃ message, done.rep = some message ∧ message.xid = xid) := by
    obtain ⟨xid, stored, answer⟩ := held done member
    obtain ⟨own, unfinished⟩ := (sound.pending _ _).mp stored
    exact ⟨xid, own, unfinished, answer⟩
  refine ⟨sound.once, ?_, sound.xids, sound.next, sound.below, ?_, ?_, ?_, ?_⟩
  · intro other member
    simp only [completed, List.map_append, ← List.append_assoc] at member
    rcases List.mem_append.mp member with before | ended
    · exact sound.known other before
    · obtain ⟨done, listed, rfl⟩ := List.mem_map.mp ended
      obtain ⟨xid, own, -⟩ := pending done listed
      refine sound.known _ (List.mem_append_left _ (List.mem_append_right _ ?_))
      exact List.mem_map_of_mem (f := Prod.fst) own
  · intro xid other
    simp only [left, sound.pending, completed, List.map_append, List.mem_append, not_or, and_assoc]
  · simp only [completed, List.map_append, List.nodup_append]
    refine ⟨sound.finished, distinct, ?_⟩
    rintro one before two ended rfl
    obtain ⟨done, listed, rfl⟩ := List.mem_map.mp ended
    obtain ⟨-, -, unfinished, -⟩ := pending done listed
    exact unfinished before
  · intro other queued finished
    simp only [completed, List.map_append, List.mem_append] at finished
    rcases finished with before | ended
    · exact sound.waiting other queued before
    · obtain ⟨done, listed, rfl⟩ := List.mem_map.mp ended
      obtain ⟨xid, own, -⟩ := pending done listed
      -- A call that was sent is no longer queued.
      exact (List.nodup_append.mp sound.once).2.2 _ queued _
        (List.mem_map_of_mem (f := Prod.fst) own) rfl
  · intro done member good
    rcases List.mem_append.mp member with before | ended
    · exact sound.answered done before good
    · obtain ⟨xid, own, -, answer⟩ := pending done ended
      obtain ⟨message, rep, rfl⟩ := answer good
      exact ⟨message, rep, own⟩

theorem Sound.finish (sound : Sound c) {xid : Xid} (done : Completion)
    (held : c.pendingCalls[xid]? = some done.call)
    (answer : done.status.isOk = true → ∃ message, done.rep = some message ∧ message.xid = xid) :
    Sound (complete done { c with pendingCalls := c.pendingCalls.erase xid }) := by
  refine sound.settle _ [done] (by simp) (by simpa using ⟨xid, held, answer⟩) fun other call => ?_
  rw [ExtTreeMap.getElem?_erase]
  by_cases here : xid = other
  · subst here
    simp [held, eq_comm]
  · simp only [Std.compare_eq_iff_eq, here, if_false, List.map_cons, List.map_nil,
      List.mem_singleton]
    refine ⟨fun stored => ⟨stored, ?_⟩, And.left⟩
    rintro rfl
    exact here (sound.xid_unique ((sound.pending _ _).mp held).1 ((sound.pending _ _).mp stored).1)

theorem Sound.clear (sound : Sound c) :
    Sound { c with
      pendingCalls := ∅
      done := c.done ++ c.pendingCalls.toList.map fun entry => reset entry.2 } := by
  have stored (entry : Xid × Nat) (listed : entry ∈ c.pendingCalls.toList) :
      c.pendingCalls[entry.1]? = some entry.2 :=
    ExtTreeMap.mem_toList_iff_getElem?_eq_some.mp listed
  have calls : (c.pendingCalls.toList.map fun entry => reset entry.2).map Completion.call =
      c.pendingCalls.toList.map Prod.snd := by
    rw [List.map_map]
    rfl
  refine sound.settle ∅ _ ?_ ?_ fun xid call => ?_
  · rw [calls]
    rw [List.Nodup, List.pairwise_map]
    refine (ExtTreeMap.distinct_keys_toList (t := c.pendingCalls)).imp_of_mem
      fun {one two} first second different same => different ?_
    have sentOne := ((sound.pending _ _).mp (stored _ first)).1
    have sentTwo := ((sound.pending _ _).mp (stored _ second)).1
    rw [same] at sentOne
    rw [Std.compare_eq_iff_eq]
    exact sound.xid_unique sentOne sentTwo
  · intro done member
    obtain ⟨entry, listed, rfl⟩ := List.mem_map.mp member
    exact ⟨entry.1, stored entry listed, nofun⟩
  · rw [calls]
    simp only [ExtTreeMap.getElem?_empty, reduceCtorEq, false_iff, not_and, not_not]
    intro held
    exact List.mem_map.mpr ⟨(xid, call), ExtTreeMap.mem_toList_iff_getElem?_eq_some.mpr held, rfl⟩

theorem clearCalls_sound {next : Client} (done : c.clearCalls = .ok next) (sound : Sound c) :
    Sound next ∧ next.issued = c.issued ∧ next.pendingCalls = ∅ := by
  unfold clearCalls at done
  split_ifs at done
  cases done
  exact ⟨sound.clear, rfl, rfl⟩

theorem act_ok (action : Action) (c : Client) : ∃ next, c.act action = .ok next := by
  cases action with
  | connection up => cases up <;> exact ⟨_, rfl⟩
  | _ => exact ⟨_, rfl⟩

theorem act_issued {action : Action} {next : Client} (taken : c.act action = .ok next) :
    c.issued ≤ next.issued := by
  cases action with
  | call =>
      cases taken
      exact Nat.le_succ _
  | loop =>
      cases taken
      simp only [runQueued, callInLoop]
      split
      · exact Nat.le_refl _
      · split <;> exact Nat.le_refl _
  | message message =>
      cases taken
      unfold onRpcMessage
      split <;> exact Nat.le_refl _
  | timeout xid =>
      cases taken
      unfold onCallTimeout
      split <;> exact Nat.le_refl _
  | connection up => cases up <;> cases taken <;> exact Nat.le_refl _
  | close =>
      cases taken
      exact Nat.le_refl _

theorem Sound.count (sound : Sound c) : c.queued.length + c.sent.length ≤ c.issued := by
  have inside : c.queued ++ c.sent.map Prod.fst ⊆ List.range c.issued := fun call member =>
    List.mem_range.mpr (sound.known call (List.mem_append_left _ member))
  simpa using (List.subperm_of_subset sound.once inside).length_le

theorem act_sound {action : Action} {next : Client} (taken : c.act action = .ok next)
    (sound : Sound c) (few : c.issued < 2 ^ 64) : Sound next := by
  cases action with
  | call =>
      cases taken
      exact sound.issue
  | loop =>
      cases taken
      unfold runQueued
      cases queue : c.queued with
      | nil => exact sound
      | cons call rest =>
          have count := sound.count
          rw [queue, List.length_cons] at count
          dsimp only
          unfold callInLoop
          split
          · exact sound.refuse queue _ rfl
          · exact sound.send queue (by omega)
  | message message =>
      cases taken
      unfold onRpcMessage
      split
      · exact sound
      next call held =>
        exact sound.finish ⟨call, Status.ok, some message⟩ held fun _ => ⟨message, rfl, rfl⟩
  | timeout xid =>
      cases taken
      unfold onCallTimeout
      split
      · exact sound
      next call held =>
        exact sound.finish ⟨call, Status.timeout (text "rpc call timeout"), none⟩ held nofun
  | connection up =>
      have still (connected : Bool) : Sound { c with connected := connected } :=
        ⟨sound.once, sound.known, sound.xids, sound.next, sound.below, sound.pending,
          sound.finished, sound.waiting, sound.answered⟩
      cases up with
      | true =>
          cases taken
          exact still true
      | false => exact (clearCalls_sound (c := { c with connected := false }) taken (still false)).1
  | close =>
      refine (clearCalls_sound (c := { c with closing := true, connected := false }) taken ?_).1
      exact ⟨sound.once, sound.known, sound.xids, sound.next, sound.below, sound.pending,
        sound.finished, sound.waiting, sound.answered⟩

/-- `Done` runs at most once for a call, and only for a call; a call is pending as long as it is
sent and not completed; and one that ends well has the response to its own request. -/
structure Settled (c : Client) : Prop where
  once : c.completed.Nodup ∧ ∀ call ∈ c.completed, call < c.issued
  pending : ∀ call, (∃ xid : Xid, c.pendingCalls[xid]? = some call) ↔
    call ∈ c.sent.map Prod.fst ∧ call ∉ c.completed
  answered : ∀ done ∈ c.done, done.status.isOk = true → ∃ message, done.rep = some message ∧
    ∀ xid, (done.call, xid) ∈ c.sent ↔ xid = message.xid
  cleared : ∀ action next, action = .connection false ∨ action = .close →
    c.act action = .ok next → next.pendingCalls = ∅

theorem Sound.settled (sound : Sound c) : Settled c := by
  refine ⟨⟨sound.finished, fun call member => sound.known call (List.mem_append_right _ member)⟩,
    fun call => ?_, fun done member good => ?_, fun action next ends taken => ?_⟩
  · simp only [sound.pending, exists_and_right, List.mem_map]
    refine and_congr_left fun _ => ⟨?_, ?_⟩
    · rintro ⟨xid, sent⟩
      exact ⟨_, sent, rfl⟩
    · rintro ⟨⟨other, xid⟩, listed, rfl⟩
      exact ⟨xid, listed⟩
  · obtain ⟨message, rep, own⟩ := sound.answered done member good
    refine ⟨message, rep, fun xid => ⟨fun sent => sound.xid_unique sent own, ?_⟩⟩
    rintro rfl
    exact own
  · rcases ends with rfl | rfl <;> cases taken <;> rfl

theorem calls_settled (actions : List Action) :
    ∃ last, Runs.run act new actions = .ok last ∧ (last.issued < 2 ^ 64 → Settled last) := by
  obtain ⟨last, reached, sound⟩ := Runs.run_total act (fun _ _ => True)
    (fun c => c.issued < 2 ^ 64 → Sound c) (fun action c sound _ => by
      obtain ⟨next, taken⟩ := act_ok action c
      refine ⟨next, taken, fun few => ?_⟩
      have before := Nat.lt_of_le_of_lt (act_issued taken) few
      exact act_sound taken (sound before) before)
    new actions (fun _ => sound_new)
    (Runs.meets_of_mem act _ new actions fun _ _ _ => trivial)
  exact ⟨last, reached, fun few => (sound few).settled⟩

def race : List Action :=
  -- One call is answered twice, one times out before its response, one is lost with the connection.
  [.connection true, .call, .call, .call, .loop, .loop, .loop, .message ⟨1, .empty⟩,
    .message ⟨1, .empty⟩, .timeout 0, .message ⟨0, .empty⟩, .connection false]

theorem calls_settled_race : ∃ last, Runs.run act new race = .ok last ∧ last.issued < 2 ^ 64 ∧
    Settled last ∧ last.completed = [1, 0, 2] := by
  obtain ⟨last, reached, settled⟩ := calls_settled race
  have found : Runs.passes (Runs.run act new race)
      (fun last => decide (last.issued < 2 ^ 64 ∧ last.completed = [1, 0, 2])) = true := by
    decide +kernel
  simp only [Runs.passes_iff, decide_eq_true_eq] at found
  obtain ⟨other, same, few, order⟩ := found
  cases reached.symm.trans same
  exact ⟨last, reached, few, settled few, order⟩

end Client

end Pyxis.Rpc
