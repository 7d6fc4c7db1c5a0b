import Pyxis.Shared.Condition
import Pyxis.Shared.Runs

set_option autoImplicit false

namespace Pyxis

namespace Channel

inductive Return (τ α : Type) where
  | put (thread : τ) (x : α) (ok : Bool)
  | take (thread : τ) (x : Option α)
  deriving DecidableEq, Repr

-- A failed `CHECK` or `PCHECK`; `blocked` is a `read` that sleeps with the mutex held.
inductive Fault where
  | put | take | empty | blocked
  deriving DecidableEq, Repr

end Channel

/-- `efd` is the counter of the eventfd, which is gone once the descriptor is closed. Nothing
depends on `returned`, which records the calls that have returned. -/
structure Channel (τ α : Type) where
  size : Nat
  queue : List α
  closed : Bool
  efd : Option Nat
  notEmpty : Condition τ
  notFull : Condition (τ × α)
  returned : List (Channel.Return τ α)
  deriving DecidableEq, Repr

namespace Channel

variable {τ α : Type}

def new (size : Nat) : Channel τ α where
  size := size
  queue := []
  closed := false
  efd := some 0
  notEmpty := .new
  notFull := .new
  returned := []

def push (thread : τ) (x : α) (choice : Nat) (c : Channel τ α) : Except Fault (Channel τ α) :=
  match c.efd with
  | none => .error .put
  | some count =>
      .ok { c with
        queue := c.queue ++ [x]
        efd := some (count + 1)
        notEmpty := c.notEmpty.notify choice
        returned := c.returned ++ [.put thread x true] }

def putLoop (thread : τ) (x : α) (choice : Nat) (c : Channel τ α) : Except Fault (Channel τ α) :=
  if c.queue.length ≥ c.size then .ok { c with notFull := c.notFull.wait (thread, x) }
  else push thread x choice c

def put (thread : τ) (x : α) (choice : Nat) (c : Channel τ α) : Except Fault (Channel τ α) :=
  if c.closed then .ok { c with returned := c.returned ++ [.put thread x false] }
  else putLoop thread x choice c

def readCounter (c : Channel τ α) : Except Fault (Channel τ α) :=
  match c.efd with
  | some 0 => .error .blocked
  | some (count + 1) => .ok { c with efd := some count }
  | none => if c.closed then .ok c else .error .take

def pop (thread : τ) (choice : Nat) (c : Channel τ α) : Except Fault (Channel τ α) :=
  match c.queue with
  | [] => .error .empty
  | x :: rest => do
      let c ← readCounter c
      return { c with
        queue := rest
        notFull := c.notFull.notify choice
        returned := c.returned ++ [.take thread (some x)] }

def take (thread : τ) (choice : Nat) (c : Channel τ α) : Except Fault (Channel τ α) :=
  if c.queue.isEmpty && !c.closed then .ok { c with notEmpty := c.notEmpty.wait thread }
  else if c.queue.isEmpty && c.closed then
    .ok { c with returned := c.returned ++ [.take thread none] }
  else pop thread choice c

def close (c : Channel τ α) : Channel τ α :=
  -- `notFull_` is not notified.
  { c with closed := true, efd := none, notEmpty := c.notEmpty.notifyAll }

inductive Action (τ α : Type) where
  | put (thread : τ) (x : α) (choice : Nat)
  | take (thread : τ) (choice : Nat)
  | close
  -- A woken thread has the mutex again and is back from `wait`.
  | resumePut (who choice : Nat)
  | resumeTake (who choice : Nat)
  -- A thread wakes though nobody notified it.
  | wakePut (who : Nat)
  | wakeTake (who : Nat)
  deriving DecidableEq, Repr

def act (action : Action τ α) (c : Channel τ α) : Except Fault (Channel τ α) :=
  match action with
  | .put thread x choice => put thread x choice c
  | .take thread choice => take thread choice c
  | .close => .ok c.close
  | .resumePut who choice =>
      match c.notFull.woken[who]? with
      | none => .ok c
      | some (thread, x) => putLoop thread x choice { c with notFull := c.notFull.leave who }
  | .resumeTake who choice =>
      match c.notEmpty.woken[who]? with
      | none => .ok c
      | some thread => take thread choice { c with notEmpty := c.notEmpty.leave who }
  | .wakePut who => .ok { c with notFull := c.notFull.wake who }
  | .wakeTake who => .ok { c with notEmpty := c.notEmpty.wake who }

def Return.accepted : Return τ α → Option α
  | .put _ x true => some x
  | _ => none

def Return.received : Return τ α → Option α
  | .take _ x => x
  | _ => none

def accepted (returned : List (Return τ α)) : List α := returned.filterMap Return.accepted

def received (returned : List (Return τ α)) : List α := returned.filterMap Return.received

@[simp] theorem accepted_append (returned : List (Return τ α)) (last : Return τ α) :
    accepted (returned ++ [last]) = accepted returned ++ last.accepted.toList := by
  cases here : last.accepted <;> simp [accepted, here]

@[simp] theorem received_append (returned : List (Return τ α)) (last : Return τ α) :
    received (returned ++ [last]) = received returned ++ last.received.toList := by
  cases here : last.received <;> simp [received, here]

structure Balanced (size : Nat) (c : Channel τ α) : Prop where
  sized : c.size = size
  fifo : received c.returned ++ c.queue = accepted c.returned
  room : c.queue.length ≤ size
  counter : c.efd = if c.closed then none else some c.queue.length
  ended : c.closed = true → c.notEmpty.asleep = []
  drained : ∀ thread, .take thread none ∈ c.returned → c.closed = true ∧ c.queue = []

structure Sound (size : Nat) (c : Channel τ α) : Prop extends Balanced size c where
  takers : c.notEmpty.Covers c.queue.length
  putters : c.notFull.Covers (size - c.queue.length)

theorem new_sound (size : Nat) : Sound size (new size : Channel τ α) where
  sized := rfl
  fifo := rfl
  room := Nat.zero_le _
  counter := rfl
  ended := nofun
  drained := nofun
  takers := .of_awake rfl _
  putters := .of_awake rfl _

section Steps

variable {size : Nat} {c next : Channel τ α} {thread : τ} {x : α} {choice : Nat}

theorem push_eq (balanced : Balanced size c) : push thread x choice c =
    if c.closed then .error .put
    else .ok { c with
      queue := c.queue ++ [x]
      efd := some (c.queue.length + 1)
      notEmpty := c.notEmpty.notify choice
      returned := c.returned ++ [.put thread x true] } := by
  simp only [push, balanced.counter]
  cases c.closed <;> rfl

theorem push_ok (balanced : Balanced size c) (done : push thread x choice c = .ok next) :
    c.closed = false ∧ next = { c with
      queue := c.queue ++ [x]
      efd := some (c.queue.length + 1)
      notEmpty := c.notEmpty.notify choice
      returned := c.returned ++ [.put thread x true] } := by
  rw [push_eq balanced] at done
  split at done
  case isTrue => cases done
  case isFalse isOpen => exact ⟨by simpa using isOpen, (Except.ok.inj done).symm⟩

theorem push_sound (balanced : Balanced size c) (takers : c.notEmpty.Covers c.queue.length)
    (putters : c.notFull.Covers (size - c.queue.length - 1)) (fits : c.queue.length < size)
    (done : push thread x choice c = .ok next) : Sound size next := by
  obtain ⟨isOpen, rfl⟩ := push_ok balanced done
  have notClosed : ¬ c.closed = true := by simp [isOpen]
  exact {
    sized := balanced.sized
    fifo := by simp [← balanced.fifo, Return.received, Return.accepted]
    room := by simpa using Nat.succ_le_of_lt fits
    counter := by simp [isOpen]
    ended := fun closed => absurd closed notClosed
    drained := fun thread member =>
      absurd (balanced.drained thread (by simpa using member)).1 notClosed
    takers := by simpa using takers.notify choice
    putters := putters.mono (by simp only [List.length_append, List.length_singleton]; omega) }

theorem putLoop_cases (balanced : Balanced size c) (done : putLoop thread x choice c = .ok next) :
    (size ≤ c.queue.length ∧ next = { c with notFull := c.notFull.wait (thread, x) }) ∨
      (c.queue.length < size ∧ push thread x choice c = .ok next) := by
  unfold putLoop at done
  split at done
  case isTrue full => exact .inl ⟨balanced.sized ▸ full, (Except.ok.inj done).symm⟩
  case isFalse fits => exact .inr ⟨balanced.sized ▸ Nat.lt_of_not_le fits, done⟩

theorem putLoop_sound (balanced : Balanced size c) (takers : c.notEmpty.Covers c.queue.length)
    (putters : c.notFull.Covers (size - c.queue.length - 1))
    (done : putLoop thread x choice c = .ok next) : Sound size next := by
  obtain ⟨full, rfl⟩ | ⟨fits, done⟩ := putLoop_cases balanced done
  · have none : size - c.queue.length = 0 := Nat.sub_eq_zero_of_le full
    exact { balanced with takers, putters := by simpa only [none] using .zero _ }
  · exact push_sound balanced takers putters fits done

theorem pop_eq (balanced : Balanced size c) (rest : List α) (front : c.queue = x :: rest) :
    pop thread choice c = .ok { c with
      queue := rest
      efd := if c.closed then none else some rest.length
      notFull := c.notFull.notify choice
      returned := c.returned ++ [.take thread (some x)] } := by
  have counter := balanced.counter
  simp only [pop, front, readCounter]
  cases closed : c.closed <;> simp [counter, closed, front]

theorem take_spec (thread : τ) (choice : Nat) (balanced : Balanced size c) :
    ∃ next, take thread choice c = .ok next ∧
      ((c.queue = [] ∧ c.closed = false ∧
          next = { c with notEmpty := c.notEmpty.wait thread }) ∨
        (c.queue = [] ∧ c.closed = true ∧
          next = { c with returned := c.returned ++ [.take thread none] }) ∨
        ∃ x rest, c.queue = x :: rest ∧ next = { c with
          queue := rest
          efd := if c.closed then none else some rest.length
          notFull := c.notFull.notify choice
          returned := c.returned ++ [.take thread (some x)] }) := by
  cases front : c.queue with
  | nil => cases closed : c.closed <;> simp [take, front, closed]
  | cons x rest => simp [take, front, pop_eq balanced rest front]

theorem take_cases (balanced : Balanced size c) (done : take thread choice c = .ok next) :
    (c.queue = [] ∧ c.closed = false ∧
        next = { c with notEmpty := c.notEmpty.wait thread }) ∨
      (c.queue = [] ∧ c.closed = true ∧
        next = { c with returned := c.returned ++ [.take thread none] }) ∨
      ∃ x rest, c.queue = x :: rest ∧ next = { c with
        queue := rest
        efd := if c.closed then none else some rest.length
        notFull := c.notFull.notify choice
        returned := c.returned ++ [.take thread (some x)] } := by
  obtain ⟨other, same, cases⟩ := take_spec thread choice balanced
  rw [done] at same
  cases same
  exact cases

theorem take_sound (balanced : Balanced size c) (takers : c.notEmpty.Covers (c.queue.length - 1))
    (putters : c.notFull.Covers (size - c.queue.length))
    (done : take thread choice c = .ok next) : Sound size next := by
  have fifo := balanced.fifo
  have room := balanced.room
  obtain ⟨front, isOpen, rfl⟩ | ⟨front, closed, rfl⟩ | ⟨x, rest, front, rfl⟩ :=
    take_cases balanced done
  · exact { balanced with
      ended := fun closed => absurd closed (by simp [isOpen])
      takers := by simpa only [front] using .zero _
      putters }
  · exact { balanced with
      fifo := by simpa [Return.received, Return.accepted] using fifo
      drained := fun _ _ => ⟨closed, front⟩
      takers := by simpa [front] using takers
      putters }
  · rw [front] at fifo room takers putters
    exact {
      sized := balanced.sized
      fifo := by simpa [Return.received, Return.accepted] using fifo
      room := Nat.le_of_succ_le room
      counter := rfl
      ended := balanced.ended
      drained := fun thread member => by
        have before := balanced.drained thread (by simpa using member)
        simp [front] at before
      takers
      putters := by
        refine (putters.notify choice).mono ?_
        simp only [List.length_cons] at room ⊢
        omega }

theorem put_cases (done : put thread x choice c = .ok next) :
    (c.closed = true ∧ next = { c with returned := c.returned ++ [.put thread x false] }) ∨
      (c.closed = false ∧ putLoop thread x choice c = .ok next) := by
  unfold put at done
  split at done
  case isTrue closed => exact .inl ⟨closed, (Except.ok.inj done).symm⟩
  case isFalse isOpen => exact .inr ⟨by simpa using isOpen, done⟩

theorem resumePut_cases (who choice : Nat) (c : Channel τ α) :
    (c.notFull.woken.length ≤ who ∧ act (.resumePut who choice) c = .ok c) ∨
      (who < c.notFull.woken.length ∧ ∃ thread x, act (.resumePut who choice) c =
        putLoop thread x choice { c with notFull := c.notFull.leave who }) := by
  simp only [act]
  cases found : c.notFull.woken[who]? with
  | none => exact .inl ⟨List.getElem?_eq_none_iff.mp found, rfl⟩
  | some call =>
      obtain ⟨there, -⟩ := List.getElem?_eq_some_iff.mp found
      exact .inr ⟨there, call.1, call.2, rfl⟩

theorem resumeTake_cases (who choice : Nat) (c : Channel τ α) :
    (c.notEmpty.woken.length ≤ who ∧ act (.resumeTake who choice) c = .ok c) ∨
      (who < c.notEmpty.woken.length ∧ ∃ thread, act (.resumeTake who choice) c =
        take thread choice { c with notEmpty := c.notEmpty.leave who }) := by
  simp only [act]
  cases found : c.notEmpty.woken[who]? with
  | none => exact .inl ⟨List.getElem?_eq_none_iff.mp found, rfl⟩
  | some thread =>
      obtain ⟨there, -⟩ := List.getElem?_eq_some_iff.mp found
      exact .inr ⟨there, thread, rfl⟩

theorem Balanced.leavePut (balanced : Balanced size c) (who : Nat) :
    Balanced size { c with notFull := c.notFull.leave who } := { balanced with }

theorem Balanced.leaveTake (balanced : Balanced size c) (who : Nat) :
    Balanced size { c with notEmpty := c.notEmpty.leave who } := { balanced with }

theorem act_sound {action : Action τ α} (sound : Sound size c) (done : act action c = .ok next) :
    Sound size next := by
  have balanced := sound.toBalanced
  cases action with
  | put thread x choice =>
      obtain ⟨closed, rfl⟩ | ⟨-, done⟩ := put_cases done
      · exact { sound with
          fifo := by simpa [Return.received, Return.accepted] using sound.fifo
          drained := fun thread member => sound.drained thread (by simpa using member) }
      · exact putLoop_sound balanced sound.takers (sound.putters.mono (Nat.sub_le _ 1)) done
  | take thread choice =>
      exact take_sound balanced (sound.takers.mono (Nat.sub_le _ 1)) sound.putters done
  | close =>
      cases done
      exact { sound with
        counter := rfl
        ended := fun _ => rfl
        drained := fun thread member => ⟨rfl, (sound.drained thread member).2⟩
        takers := .of_awake rfl _ }
  | resumePut who choice =>
      obtain ⟨-, same⟩ | ⟨-, thread, x, same⟩ := resumePut_cases who choice c
      · cases same.symm.trans done
        exact sound
      · exact putLoop_sound (balanced.leavePut who) sound.takers (sound.putters.leave who)
          (same.symm.trans done)
  | resumeTake who choice =>
      obtain ⟨-, same⟩ | ⟨-, thread, same⟩ := resumeTake_cases who choice c
      · cases same.symm.trans done
        exact sound
      · exact take_sound (balanced.leaveTake who) (sound.takers.leave who) sound.putters
          (same.symm.trans done)
  | wakePut who =>
      cases done
      exact { sound with putters := sound.putters.wake who }
  | wakeTake who =>
      cases done
      exact { sound with
        ended := fun closed => by simp [Condition.wake, sound.ended closed]
        takers := sound.takers.wake who }

end Steps

section Runs

variable {size : Nat} {actions : List (Action τ α)} {c : Channel τ α}

theorem run_sound (reached : Runs.run act (new size) actions = .ok c) : Sound size c :=
  Runs.run_invariant_always act (Sound size) (fun _ _ _ => act_sound) _ _ _ (new_sound size) reached

theorem run_fifo (size : Nat) (actions : List (Action τ α)) (c : Channel τ α)
    (reached : Runs.run act (new size) actions = .ok c) :
    received c.returned ++ c.queue = accepted c.returned ∧ c.queue.length ≤ size ∧
      (c.closed = false → c.efd = some c.queue.length) ∧
      ∀ thread, .take thread none ∈ c.returned → received c.returned = accepted c.returned := by
  have sound := run_sound reached
  refine ⟨sound.fifo, sound.room, fun isOpen => ?_, fun thread ended => ?_⟩
  · rw [sound.counter, isOpen]
    rfl
  · have fifo := sound.fifo
    rwa [(sound.drained thread ended).2, List.append_nil] at fifo

-- The first thread fills a queue of one place and sleeps; the second one makes room.
def handOver : List (Action Nat Nat) :=
  [.put 0 7 0, .put 0 8 0, .take 1 0, .resumePut 0 0, .take 1 0]

theorem handOver_fifo : ∃ c, Runs.run act (new 1) handOver = .ok c ∧
    received c.returned ++ c.queue = accepted c.returned ∧ c.queue.length ≤ 1 ∧
      (c.closed = false → c.efd = some c.queue.length) ∧
      ∀ thread, .take thread none ∈ c.returned → received c.returned = accepted c.returned :=
  ⟨_, rfl, run_fifo 1 handOver _ rfl⟩

def Resumes : Action τ α → Channel τ α → Prop
  | .resumePut who _, c => who < c.notFull.woken.length
  | .resumeTake who _, c => who < c.notEmpty.woken.length
  | _, _ => False

def pending (c : Channel τ α) : Nat :=
  2 * (c.notEmpty.inside + c.notFull.inside) + c.notEmpty.woken.length + c.notFull.woken.length

theorem resume_pending {action : Action τ α} {next : Channel τ α} (sound : Sound size c)
    (resumes : Resumes action c) (done : act action c = .ok next) : next.pending < c.pending := by
  have balanced := sound.toBalanced
  cases action with
  | resumePut who choice =>
      have inside := c.notFull.inside_leave who resumes
      have woken := c.notFull.woken_leave who resumes
      obtain ⟨past, -⟩ | ⟨-, thread, x, same⟩ := resumePut_cases who choice c
      · exact absurd resumes (Nat.not_lt.mpr past)
      obtain ⟨-, rfl⟩ | ⟨-, pushed⟩ := putLoop_cases (balanced.leavePut who) (same.symm.trans done)
      · simp only [pending, Condition.inside_wait, Condition.woken_wait]
        omega
      · obtain ⟨-, rfl⟩ := push_ok (balanced.leavePut who) pushed
        have told := c.notEmpty.woken_notify choice
        simp only [pending, Condition.inside_notify]
        omega
  | resumeTake who choice =>
      have inside := c.notEmpty.inside_leave who resumes
      have woken := c.notEmpty.woken_leave who resumes
      obtain ⟨past, -⟩ | ⟨-, thread, same⟩ := resumeTake_cases who choice c
      · exact absurd resumes (Nat.not_lt.mpr past)
      obtain ⟨-, -, rfl⟩ | ⟨-, -, rfl⟩ | ⟨x, rest, -, rfl⟩ :=
        take_cases (balanced.leaveTake who) (same.symm.trans done)
      · simp only [pending, Condition.inside_wait, Condition.woken_wait]
        omega
      · simp only [pending]
        omega
      · have told := c.notFull.woken_notify choice
        simp only [pending, Condition.inside_notify]
        omega
  | put | take | close | wakePut | wakeTake => exact resumes.elim

theorem resumes_length {resumes : List (Action τ α)} {last : Channel τ α} (sound : Sound size c)
    (only : Runs.Meets act Resumes c resumes) (ran : Runs.run act c resumes = .ok last) :
    resumes.length + last.pending ≤ c.pending := by
  induction resumes generalizing c with
  | nil => cases ran; simp
  | cons action rest ih =>
      obtain ⟨next, done, ran⟩ := (Runs.run_cons_ok _ _ _ _ _).mp ran
      have less := resume_pending sound only.1 done
      have later := ih (act_sound sound done) (only.2 next done) ran
      simp only [List.length_cons]
      omega

theorem run_settles (size : Nat) (actions resumes : List (Action τ α)) (c last : Channel τ α)
    (reached : Runs.run act (new size) actions = .ok c) (only : Runs.Meets act Resumes c resumes)
    (ran : Runs.run act c resumes = .ok last) :
    resumes.length ≤ c.pending ∧
      (last.notEmpty.woken = [] → last.notEmpty.asleep ≠ [] →
        last.queue = [] ∧ last.closed = false) ∧
      (last.notFull.woken = [] → last.notFull.asleep ≠ [] → last.queue.length = size) := by
  have sound := run_sound reached
  have final := Runs.run_invariant_always act (Sound size) (fun _ _ _ => act_sound) _ _ _ sound ran
  refine ⟨?_, fun quiet asleep => ⟨?_, ?_⟩, fun quiet asleep => ?_⟩
  · exact Nat.le_trans (Nat.le_add_right _ _) (resumes_length sound only ran)
  · have covered := final.takers asleep
    rwa [quiet, List.length_nil, Nat.le_zero, List.length_eq_zero_iff] at covered
  · by_contra closed
    exact asleep (final.ended (by simpa using closed))
  · have covered := final.putters asleep
    have room := final.room
    rw [quiet, List.length_nil] at covered
    omega

theorem handOver_settles : ∃ c last, Runs.run act (new 1) (handOver.take 3) = .ok c ∧
    Runs.run act c [.resumePut 0 0] = .ok last ∧ 1 ≤ c.pending ∧
      (last.notEmpty.woken = [] → last.notEmpty.asleep ≠ [] →
        last.queue = [] ∧ last.closed = false) ∧
      (last.notFull.woken = [] → last.notFull.asleep ≠ [] → last.queue.length = 1) :=
  ⟨_, _, rfl, rfl, run_settles 1 (handOver.take 3) [.resumePut 0 0] _ _ rfl
    ⟨Nat.zero_lt_one, fun _ _ => trivial⟩ rfl⟩

def Writable : Action τ α → Channel τ α → Prop
  | .resumePut who _, c =>
      who < c.notFull.woken.length → c.closed = true → c.size ≤ c.queue.length
  | _, _ => True

theorem putLoop_ok_iff {thread : τ} {x : α} {choice : Nat} (balanced : Balanced size c) :
    (∃ next, putLoop thread x choice c = .ok next) ↔
      (c.closed = true → c.size ≤ c.queue.length) := by
  unfold putLoop
  split
  case isTrue full => exact ⟨fun _ _ => full, fun _ => ⟨_, rfl⟩⟩
  case isFalse fits =>
    rw [push_eq balanced]
    cases c.closed <;> simp [fits]

theorem act_ok_iff {action : Action τ α} (sound : Sound size c) :
    (∃ next, act action c = .ok next) ↔ Writable action c := by
  have balanced := sound.toBalanced
  cases action with
  | put thread x choice =>
      simp only [act, put, Writable, iff_true]
      split
      case isTrue => exact ⟨_, rfl⟩
      case isFalse isOpen => exact (putLoop_ok_iff balanced).mpr fun closed => absurd closed isOpen
  | take thread choice =>
      obtain ⟨next, taken, -⟩ := take_spec thread choice balanced
      exact ⟨fun _ => trivial, fun _ => ⟨next, taken⟩⟩
  | resumePut who choice =>
      obtain ⟨past, same⟩ | ⟨there, thread, x, same⟩ := resumePut_cases who choice c
      · exact ⟨fun _ there => absurd there (Nat.not_lt.mpr past), fun _ => ⟨c, same⟩⟩
      · rw [same, putLoop_ok_iff (balanced.leavePut who)]
        exact ⟨fun written _ => written, fun written => written there⟩
  | resumeTake who choice =>
      obtain ⟨-, same⟩ | ⟨-, thread, same⟩ := resumeTake_cases who choice c
      · exact ⟨fun _ => trivial, fun _ => ⟨c, same⟩⟩
      · obtain ⟨next, taken, -⟩ := take_spec thread choice (balanced.leaveTake who)
        exact ⟨fun _ => trivial, fun _ => ⟨next, same.trans taken⟩⟩
  | close | wakePut | wakeTake => exact ⟨fun _ => trivial, fun _ => ⟨_, rfl⟩⟩

theorem run_ok_iff_writable (size : Nat) (actions : List (Action τ α)) :
    (∃ last, Runs.run act (new size) actions = .ok last) ↔
      Runs.Meets act Writable (new size) actions :=
  Runs.run_ok_iff_meets act Writable (Sound size) (fun _ _ _ => act_sound)
    (fun _ _ => act_ok_iff) _ _ (new_sound size)

example : Runs.run act (new 1) (handOver.take 2 ++ [.close, .take 1 0, .resumePut 0 0]) =
    .error .put := rfl

end Runs

end Channel

end Pyxis
