import Mathlib.Data.List.Induction
import Mathlib.Data.List.Nodup
import Mathlib.Logic.Function.Basic
import Std.Data.ExtTreeMap
import Pyxis.Base.Channel

set_option autoImplicit false

open Std (ExtTreeMap)

namespace Pyxis

structure Selector (σ : Type) where
  pollfdList : List Nat
  selectableMap : ExtTreeMap Nat σ

namespace Selector

variable {σ : Type}

def new : Selector σ := ⟨[], ∅⟩

def register (fd : Nat) (s : σ) (slt : Selector σ) : Selector σ :=
  ⟨slt.pollfdList ++ [fd], slt.selectableMap.insert fd s⟩

def select (readable : Nat → Bool) (slt : Selector σ) : List σ :=
  (slt.pollfdList.filter readable).filterMap (slt.selectableMap[·]?)

def wait (readable : Nat → Bool) (choice : Nat) (slt : Selector σ) : Option σ :=
  -- `poll` has no timeout: there is no answer while nothing is readable. The list is shuffled.
  let list := slt.select readable
  list[choice % list.length]?

def registered (entries : List (Nat × σ)) : Selector σ :=
  entries.foldl (fun slt entry => slt.register entry.1 entry.2) new

theorem registered_append (entries : List (Nat × σ)) (last : Nat × σ) :
    registered (entries ++ [last]) = (registered entries).register last.1 last.2 := by
  simp [registered]

theorem registered_spec (entries : List (Nat × σ)) (distinct : (entries.map Prod.fst).Nodup) :
    (registered entries).pollfdList = entries.map Prod.fst ∧
      ∀ fd s, (registered entries).selectableMap[fd]? = some s ↔ (fd, s) ∈ entries := by
  induction entries using List.reverseRecOn with
  | nil => simp [registered, new]
  | append_singleton entries last ih =>
      rw [List.map_append, List.nodup_append] at distinct
      obtain ⟨fds, table⟩ := ih distinct.1
      obtain ⟨lastFd, final⟩ := last
      have other : ∀ s, (lastFd, s) ∉ entries := fun s member =>
        distinct.2.2 lastFd (List.mem_map.mpr ⟨_, member, rfl⟩) lastFd (by simp) rfl
      rw [registered_append]
      refine ⟨by simp [register, fds], fun fd s => ?_⟩
      simp only [register, ExtTreeMap.getElem?_insert, Std.compare_eq_iff_eq, List.mem_append,
        List.mem_singleton]
      split
      case isTrue same =>
        subst same
        constructor
        · rintro ⟨⟩
          exact .inr rfl
        · rintro (member | last)
          · exact absurd member (other s)
          · cases last
            rfl
      case isFalse differ =>
        rw [table, or_iff_left]
        exact fun last => differ (congrArg Prod.fst last).symm

theorem wait_readable {entries : List (Nat × σ)} {readable : Nat → Bool} {choice : Nat} {s : σ}
    (distinct : (entries.map Prod.fst).Nodup)
    (chosen : (registered entries).wait readable choice = some s) :
    ∃ fd, (fd, s) ∈ entries ∧ readable fd = true := by
  obtain ⟨-, table⟩ := registered_spec entries distinct
  have member := List.mem_of_getElem? chosen
  simp only [select, List.mem_filterMap, List.mem_filter, table] at member
  obtain ⟨fd, ⟨-, here⟩, there⟩ := member
  exact ⟨fd, there, here⟩

end Selector

namespace Channel

section Waiting

variable {τ α : Type} {size : Nat} {c next last : Channel τ α}

-- `poll` reports a closed descriptor too.
def readable (c : Channel τ α) : Bool := c.efd.all (0 < ·)

def Action.receives : Action τ α → Bool
  | .take .. | .resumeTake .. | .wakeTake .. => true
  | _ => false

theorem closed_of_readable (balanced : Balanced size c) (ready : c.readable = true)
    (empty : c.queue = []) : c.closed = true := by
  rw [readable, balanced.counter, empty] at ready
  cases closed : c.closed <;> simp [closed] at ready ⊢

-- The queue has only grown, and not at all if the channel is closed.
def Grown (c next : Channel τ α) : Prop :=
  ∃ more, next.queue = c.queue ++ more ∧
    (c.closed = true → next.closed = true ∧ more = [])

theorem Grown.of_queue (queue : next.queue = c.queue)
    (closed : c.closed = true → next.closed = true) : Grown c next :=
  ⟨[], by simp [queue], fun here => ⟨closed here, rfl⟩⟩

theorem Grown.trans (first : Grown c next) (second : Grown next last) : Grown c last := by
  obtain ⟨more, grown, shut⟩ := first
  obtain ⟨later, grows, shuts⟩ := second
  refine ⟨more ++ later, by rw [grows, grown, List.append_assoc], fun closed => ?_⟩
  obtain ⟨still, rfl⟩ := shut closed
  obtain ⟨always, rfl⟩ := shuts still
  exact ⟨always, rfl⟩

theorem putLoop_grown {thread : τ} {x : α} {choice : Nat} (balanced : Balanced size c)
    (done : putLoop thread x choice c = .ok next) : Grown c next := by
  obtain ⟨-, rfl⟩ | ⟨-, pushed⟩ := putLoop_cases balanced done
  · exact .of_queue rfl id
  · obtain ⟨isOpen, rfl⟩ := push_ok balanced pushed
    exact ⟨[x], rfl, fun closed => by simp [isOpen] at closed⟩

theorem act_grown {action : Action τ α} (balanced : Balanced size c)
    (gives : action.receives = false) (done : act action c = .ok next) : Grown c next := by
  cases action with
  | put thread x choice =>
      obtain ⟨-, rfl⟩ | ⟨-, done⟩ := put_cases done
      · exact .of_queue rfl id
      · exact putLoop_grown balanced done
  | resumePut who choice =>
      obtain ⟨-, same⟩ | ⟨-, thread, x, same⟩ := resumePut_cases who choice c
      · cases same.symm.trans done
        exact .of_queue rfl id
      · have taken := same.symm.trans done
        exact putLoop_grown (c := { c with notFull := c.notFull.leave who })
          (balanced.leavePut who) taken
  | wakePut who =>
      cases done
      exact .of_queue rfl id
  | close =>
      cases done
      exact .of_queue rfl fun _ => rfl
  | take | resumeTake | wakeTake => cases gives

end Waiting

end Channel

abbrev Channels (ι τ : Type) (α : ι → Type) := (i : ι) → Channel τ (α i)

namespace Channels

variable {ι τ : Type} [DecidableEq ι] {α : ι → Type}

def new (size : ι → Nat) : Channels ι τ α := fun i => .new (size i)

def act (action : (i : ι) × Channel.Action τ (α i)) (chs : Channels ι τ α) :
    Except Channel.Fault (Channels ι τ α) := do
  let c ← Channel.act action.2 (chs action.1)
  return Function.update chs action.1 c

def Sound (size : ι → Nat) (chs : Channels ι τ α) : Prop := ∀ i, Channel.Sound (size i) (chs i)

theorem act_sound {size : ι → Nat} {action : (i : ι) × Channel.Action τ (α i)}
    {chs next : Channels ι τ α} (sound : Sound size chs) (done : act action chs = .ok next) :
    Sound size next := by
  obtain ⟨c, taken, rest⟩ := Runs.bind_ok.mp done
  cases rest
  intro i
  by_cases same : i = action.1
  · subst same
    rw [Function.update_self]
    exact Channel.act_sound (sound _) taken
  · rw [Function.update_of_ne same]
    exact sound i

theorem run_grown {size : ι → Nat} {actions : List ((i : ι) × Channel.Action τ (α i))}
    {chs last : Channels ι τ α} (i : ι) (sound : Sound size chs)
    (gives : ∀ action ∈ actions, action.1 = i → action.2.receives = false)
    (ran : Runs.run act chs actions = .ok last) :
    Sound size last ∧ Channel.Grown (chs i) (last i) := by
  induction actions generalizing chs with
  | nil =>
      cases ran
      exact ⟨sound, .of_queue rfl id⟩
  | cons action rest ih =>
      obtain ⟨next, done, ran⟩ := (Runs.run_cons_ok _ _ _ _ _).mp ran
      have here : Channel.Grown (chs i) (next i) := by
        obtain ⟨c, taken, rest⟩ := Runs.bind_ok.mp done
        cases rest
        by_cases same : action.1 = i
        · subst same
          rw [Function.update_self]
          exact Channel.act_grown (sound _).toBalanced (gives action (by simp) rfl) taken
        · rw [Function.update_of_ne (Ne.symm same)]
          exact .of_queue rfl id
      obtain ⟨kept, there⟩ := ih (act_sound sound done)
        (fun action member => gives action (List.mem_cons_of_mem _ member)) ran
      exact ⟨kept, here.trans there⟩

-- The descriptors that `poll` reports; `none` is the timer.
def readable (entries : List (Nat × Option ι)) (expired : Bool) (chs : Channels ι τ α) (fd : Nat) :
    Bool :=
  entries.any fun entry => entry.1 = fd && entry.2.elim expired fun i => (chs i).readable

omit [DecidableEq ι] in
theorem readable_of_wait {entries : List (Nat × Option ι)} {expired : Bool} {chs : Channels ι τ α}
    {i : ι} {shuffle : Nat} (distinct : (entries.map Prod.fst).Nodup)
    (chosen : (Selector.registered entries).wait (readable entries expired chs) shuffle =
      some (some i)) : (chs i).readable = true := by
  obtain ⟨fd, member, ready⟩ := Selector.wait_readable distinct chosen
  -- Descriptors are distinct, so the readable one is the channel's own.
  obtain ⟨⟨other, s⟩, there, here⟩ := List.any_eq_true.mp ready
  simp only [Bool.and_eq_true, decide_eq_true_eq] at here
  obtain ⟨rfl, here⟩ := here
  obtain rfl : s = some i := by
    have same := List.inj_on_of_nodup_map distinct there member rfl
    exact congrArg Prod.snd same
  exact here

theorem wait_take (size : ι → Nat) (earlier others : List ((i : ι) × Channel.Action τ (α i)))
    (chs later : Channels ι τ α) (entries : List (Nat × Option ι)) (expired : Bool) (i : ι)
    (shuffle choice : Nat) (main : τ)
    (reached : Runs.run act (new size) earlier = .ok chs)
    (distinct : (entries.map Prod.fst).Nodup)
    (chosen : (Selector.registered entries).wait (readable entries expired chs) shuffle =
      some (some i))
    (gives : ∀ action ∈ others, action.1 = i → action.2.receives = false)
    (ran : Runs.run act chs others = .ok later) :
    ((chs i).queue = [] → (chs i).closed = true) ∧ ∃ next,
      Channel.take main choice (later i) = .ok next ∧
      next.returned = (later i).returned ++ [.take main (chs i).queue.head?] := by
  have sound : Sound size chs := Runs.run_invariant_always act (Sound size)
    (fun _ _ _ => act_sound) _ _ _ (fun j => Channel.new_sound (size j)) reached
  have closed := Channel.closed_of_readable (sound i).toBalanced (readable_of_wait distinct chosen)
  refine ⟨closed, ?_⟩
  obtain ⟨kept, more, behind, shut⟩ := run_grown i sound gives ran
  obtain ⟨next, taken, ⟨empty, isOpen, -⟩ | ⟨empty, -, rfl⟩ | ⟨x, tail, front, rfl⟩⟩ :=
    Channel.take_spec main choice (kept i).toBalanced
  · -- An open channel that is empty now was empty then.
    have none : (chs i).queue = [] := (List.append_eq_nil_iff.mp (behind.symm.trans empty)).1
    cases isOpen.symm.trans (shut (closed none)).1
  · have none : (chs i).queue = [] := (List.append_eq_nil_iff.mp (behind.symm.trans empty)).1
    exact ⟨_, taken, by rw [none]; rfl⟩
  · refine ⟨_, taken, ?_⟩
    cases queue : (chs i).queue with
    | nil =>
        rw [behind, queue, (shut (closed queue)).2] at front
        cases front
    | cons y rest =>
        rw [behind, queue, List.cons_append] at front
        cases front
        rfl

def beforeWait : List ((_ : Bool) × Channel.Action Nat Nat) := [⟨true, .put 1 7 0⟩]

def afterWait : List ((_ : Bool) × Channel.Action Nat Nat) :=
  [⟨true, .put 1 8 0⟩, ⟨false, .put 2 9 0⟩, ⟨true, .close⟩]

theorem wait_take_event :
    ∃ chs later : Channels Bool Nat fun _ => Nat,
      Runs.run act (new fun _ => 2) beforeWait = .ok chs ∧
      Runs.run act chs afterWait = .ok later ∧ (chs true).queue = [7] ∧ ∃ next,
        Channel.take 0 0 (later true) = .ok next ∧
        next.returned = (later true).returned ++ [.take 0 (some 7)] :=
  ⟨_, _, rfl, rfl, rfl, (wait_take (fun _ => 2) beforeWait afterWait _ _
    [(3, none), (4, some true), (5, some false)] false true 0 0 0 rfl (by decide)
    (by decide +kernel) (by decide) rfl).2⟩

end Channels

end Pyxis
