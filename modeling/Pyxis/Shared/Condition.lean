import Mathlib.Data.List.Basic

set_option autoImplicit false

/-!
# Condition variables

The threads inside the `wait` of one condition variable of a monitor. A notification wakes one of
them, and so may the system for no reason; a woken thread leaves when it gets the mutex again. The
scheduler's choices are positions in the two lists.
-/

structure Condition (τ : Type) where
  asleep : List τ
  woken : List τ
  deriving DecidableEq, Repr

namespace Condition

variable {τ : Type}

def new : Condition τ := ⟨[], []⟩

def wait (thread : τ) (c : Condition τ) : Condition τ := { c with asleep := c.asleep ++ [thread] }

def wake (choice : Nat) (c : Condition τ) : Condition τ :=
  match c.asleep[choice]? with
  | none => c
  | some thread => ⟨c.asleep.eraseIdx choice, c.woken ++ [thread]⟩

def notify (choice : Nat) (c : Condition τ) : Condition τ := c.wake (choice % c.asleep.length)

def notifyAll (c : Condition τ) : Condition τ := ⟨[], c.woken ++ c.asleep⟩

def leave (choice : Nat) (c : Condition τ) : Condition τ :=
  { c with woken := c.woken.eraseIdx choice }

def inside (c : Condition τ) : Nat := c.asleep.length + c.woken.length

/-- While anyone sleeps, a woken thread is on its way to each unit of what the threads wait for. -/
def Covers (c : Condition τ) (units : Nat) : Prop := c.asleep ≠ [] → units ≤ c.woken.length

section Lengths

variable (c : Condition τ) (choice : Nat)

theorem wake_cases :
    (c.asleep.length ≤ choice ∧ c.wake choice = c) ∨
      (c.asleep.length = (c.wake choice).asleep.length + 1 ∧
        (c.wake choice).woken.length = c.woken.length + 1) := by
  unfold wake
  cases found : c.asleep[choice]? with
  | none => exact .inl ⟨List.getElem?_eq_none_iff.mp found, rfl⟩
  | some thread =>
      obtain ⟨inside, -⟩ := List.getElem?_eq_some_iff.mp found
      refine .inr ⟨?_, by simp⟩
      rw [List.length_eraseIdx_of_lt inside]
      omega

theorem notify_cases :
    (c.asleep = [] ∧ c.notify choice = c) ∨
      (c.asleep.length = (c.notify choice).asleep.length + 1 ∧
        (c.notify choice).woken.length = c.woken.length + 1) := by
  rcases c.wake_cases (choice % c.asleep.length) with ⟨past, same⟩ | woken
  · refine .inl ⟨?_, same⟩
    by_contra some
    exact absurd past (Nat.not_le.mpr (Nat.mod_lt _ (List.length_pos_iff.mpr some)))
  · exact .inr woken

@[simp] theorem inside_notify : (c.notify choice).inside = c.inside := by
  rcases c.notify_cases choice with ⟨-, same⟩ | ⟨asleep, woken⟩
  · rw [same]
  · simp only [inside]
    omega

@[simp] theorem woken_wait (thread : τ) : (c.wait thread).woken = c.woken := rfl

@[simp] theorem inside_wait (thread : τ) : (c.wait thread).inside = c.inside + 1 := by
  simp only [inside, wait, List.length_append, List.length_singleton]
  omega

theorem woken_notify : (c.notify choice).woken.length ≤ c.woken.length + 1 := by
  rcases c.notify_cases choice with ⟨-, same⟩ | ⟨-, woken⟩
  · rw [same]
    exact Nat.le_succ _
  · exact Nat.le_of_eq woken

theorem woken_leave (there : choice < c.woken.length) :
    (c.leave choice).woken.length + 1 = c.woken.length := by
  simp only [leave, List.length_eraseIdx_of_lt there]
  omega

theorem inside_leave (there : choice < c.woken.length) :
    (c.leave choice).inside + 1 = c.inside := by
  have fewer := c.woken_leave choice there
  simp only [inside, leave] at fewer ⊢
  omega

end Lengths

namespace Covers

variable {c : Condition τ} {units : Nat}

theorem zero (c : Condition τ) : c.Covers 0 := fun _ => Nat.zero_le _

theorem mono (covers : c.Covers units) {fewer : Nat} (le : fewer ≤ units) : c.Covers fewer :=
  fun asleep => Nat.le_trans le (covers asleep)

theorem of_awake (awake : c.asleep = []) (units : Nat) : c.Covers units :=
  fun asleep => absurd awake asleep

theorem wake (covers : c.Covers units) (choice : Nat) : (c.wake choice).Covers units := by
  rcases c.wake_cases choice with ⟨-, same⟩ | ⟨asleep, woken⟩
  · rwa [same]
  · intro _
    have before := covers (List.ne_nil_of_length_pos (by omega))
    omega

theorem notify (covers : c.Covers units) (choice : Nat) : (c.notify choice).Covers (units + 1) := by
  rcases c.notify_cases choice with ⟨awake, same⟩ | ⟨asleep, woken⟩
  · rw [same]
    exact of_awake awake _
  · intro _
    have before := covers (List.ne_nil_of_length_pos (by omega))
    omega

theorem leave (covers : c.Covers units) (choice : Nat) : (c.leave choice).Covers (units - 1) := by
  intro asleep
  have before := covers asleep
  simp only [Condition.leave, List.length_eraseIdx]
  split <;> omega

end Covers

end Condition
