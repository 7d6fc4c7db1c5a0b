import Mathlib.Data.List.Induction
import Mathlib.Data.List.Basic
import Mathlib.Logic.Basic

set_option autoImplicit false

/-!
# Runs of a step that may fail

A step takes an input and a state and gives the next state or a failure. A run
feeds a list of inputs, stops at the first failure and keeps nothing after it.
-/

namespace Runs

variable {ε σ τ α : Type}

theorem bind_ok {result : Except ε σ} {next : σ → Except ε τ} {last : τ} :
    (result >>= next) = .ok last ↔ ∃ middle, result = .ok middle ∧ next middle = .ok last := by
  cases result <;> simp [bind, Except.bind]

def run (step : α → σ → Except ε σ) : σ → List α → Except ε σ
  | state, [] => .ok state
  | state, input :: rest =>
      match step input state with
      | .ok next => run step next rest
      | .error failure => .error failure

instance decidableError [DecidableEq ε] (result : Except ε σ) (failure : ε) :
    Decidable (result = .error failure) :=
  match result with
  | .ok _ => .isFalse nofun
  | .error other => decidable_of_iff (other = failure) (by simp)

instance decidableOk (result : Except ε σ) (holds : σ → Prop) [DecidablePred holds] :
    Decidable (∀ state, result = .ok state → holds state) :=
  match result with
  | .ok state => decidable_of_iff (holds state) (by simp)
  | .error _ => .isTrue nofun

def passes (result : Except ε σ) (look : σ → Bool) : Bool :=
  match result with
  | .ok state => look state
  | .error _ => false

theorem passes_iff (result : Except ε σ) (look : σ → Bool) :
    passes result look = true ↔ ∃ state, result = .ok state ∧ look state = true := by
  cases result <;> simp [passes]

@[simp] theorem run_nil (step : α → σ → Except ε σ) (state : σ) :
    run step state [] = .ok state := rfl

theorem run_cons_ok (step : α → σ → Except ε σ) (state last : σ) (input : α) (rest : List α) :
    run step state (input :: rest) = .ok last ↔
      ∃ next, step input state = .ok next ∧ run step next rest = .ok last := by
  cases taken : step input state <;> simp [run, taken]

theorem run_pure (step : α → σ → σ) (state : σ) (inputs : List α) :
    run (fun input state => (.ok (step input state) : Except ε σ)) state inputs =
      .ok (inputs.foldl (fun state input => step input state) state) := by
  induction inputs generalizing state with
  | nil => rfl
  | cons input rest ih => exact ih (step input state)

theorem run_append (step : α → σ → Except ε σ) (state : σ) (first second : List α) :
    run step state (first ++ second) =
      match run step state first with
      | .ok middle => run step middle second
      | .error failure => .error failure := by
  induction first generalizing state with
  | nil => rfl
  | cons input rest ih =>
      simp only [List.cons_append, run]
      cases step input state with
      | ok next => exact ih next
      | error failure => rfl

theorem run_append_ok (step : α → σ → Except ε σ) (state last : σ) (first second : List α) :
    run step state (first ++ second) = .ok last ↔
      ∃ middle, run step state first = .ok middle ∧ run step middle second = .ok last := by
  rw [run_append]
  cases run step state first <;> simp

/-- Every input of the list meets `guard` in the state it is taken from. -/
def Meets (step : α → σ → Except ε σ) (guard : α → σ → Prop) : σ → List α → Prop
  | _, [] => True
  | state, input :: rest =>
      guard input state ∧ ∀ next, step input state = .ok next → Meets step guard next rest

instance decidableMeets (step : α → σ → Except ε σ) (guard : α → σ → Prop)
    [∀ input state, Decidable (guard input state)] :
    (state : σ) → (inputs : List α) → Decidable (Meets step guard state inputs)
  | _, [] => .isTrue trivial
  | state, input :: rest =>
      match taken : step input state with
      | .error _ => decidable_of_iff (guard input state) (by simp [Meets, taken])
      | .ok next =>
          have := decidableMeets step guard next rest
          decidable_of_iff (guard input state ∧ Meets step guard next rest) (by simp [Meets, taken])

theorem meets_of_mem (step : α → σ → Except ε σ) (guard : α → σ → Prop) (state : σ)
    (inputs : List α) (always : ∀ input ∈ inputs, ∀ state, guard input state) :
    Meets step guard state inputs := by
  induction inputs generalizing state with
  | nil => trivial
  | cons input rest ih =>
      exact ⟨always input (by simp) state,
        fun next _ => ih next fun later member => always later (List.mem_cons_of_mem _ member)⟩

theorem meets_and (step : α → σ → Except ε σ) (one two : α → σ → Prop) (state : σ)
    (inputs : List α) (first : Meets step one state inputs) (second : Meets step two state inputs) :
    Meets step (fun input state => one input state ∧ two input state) state inputs := by
  induction inputs generalizing state with
  | nil => trivial
  | cons input rest ih =>
      exact ⟨⟨first.1, second.1⟩,
        fun next taken => ih next (first.2 next taken) (second.2 next taken)⟩

theorem meets_append (step : α → σ → Except ε σ) (guard : α → σ → Prop)
    (state : σ) (first second : List α) :
    Meets step guard state (first ++ second) ↔
      Meets step guard state first ∧
        ∀ middle, run step state first = .ok middle → Meets step guard middle second := by
  induction first generalizing state with
  | nil => simp [Meets]
  | cons input rest ih =>
      simp only [List.cons_append, Meets, ih, and_assoc, run_cons_ok]
      constructor
      · rintro ⟨here, later⟩
        refine ⟨here, fun next taken => (later next taken).1, ?_⟩
        rintro middle ⟨next, taken, reached⟩
        exact (later next taken).2 middle reached
      · rintro ⟨here, later, final⟩
        exact ⟨here, fun next taken => ⟨later next taken, fun middle reached =>
          final middle ⟨next, taken, reached⟩⟩⟩

theorem run_invariant (step : α → σ → Except ε σ) (guard : α → σ → Prop) (invariant : σ → Prop)
    (preserved : ∀ input state next, invariant state → guard input state →
      step input state = .ok next → invariant next)
    (state last : σ) (inputs : List α) (initial : invariant state)
    (guarded : Meets step guard state inputs) (reached : run step state inputs = .ok last) :
    invariant last := by
  induction inputs generalizing state with
  | nil => cases reached; exact initial
  | cons input rest ih =>
      obtain ⟨next, taken, reached⟩ := (run_cons_ok step state last input rest).mp reached
      exact ih next (preserved input state next initial guarded.1 taken)
        (guarded.2 next taken) reached

theorem meets_invariant (step : α → σ → Except ε σ) (guard property : α → σ → Prop)
    (invariant : σ → Prop)
    (preserved : ∀ input state next, invariant state → guard input state →
      step input state = .ok next → invariant next)
    (holds : ∀ input state, invariant state → guard input state → property input state)
    (state : σ) (inputs : List α) (initial : invariant state)
    (guarded : Meets step guard state inputs) : Meets step property state inputs := by
  induction inputs generalizing state with
  | nil => trivial
  | cons input rest ih =>
      exact ⟨holds input state initial guarded.1, fun next taken =>
        ih next (preserved input state next initial guarded.1 taken) (guarded.2 next taken)⟩

theorem run_invariant_always (step : α → σ → Except ε σ) (invariant : σ → Prop)
    (preserved : ∀ input state next, invariant state → step input state = .ok next →
      invariant next)
    (state last : σ) (inputs : List α) (initial : invariant state)
    (reached : run step state inputs = .ok last) : invariant last :=
  run_invariant step (fun _ _ => True) invariant
    (fun input state next holds _ taken => preserved input state next holds taken)
    state last inputs initial (meets_of_mem step _ state inputs fun _ _ _ => trivial) reached

theorem run_appended {β : Type*} (step : α → σ → Except ε σ) (guard : α → σ → Prop)
    (invariant : σ → Prop) (log : σ → List β) (given : α → σ → β → Prop)
    (preserved : ∀ input state next, invariant state → guard input state →
      step input state = .ok next → invariant next)
    (appends : ∀ input state next, invariant state → guard input state →
      step input state = .ok next →
        ∃ sent, log next = log state ++ sent ∧ ∀ item ∈ sent, given input state item)
    (state last : σ) (inputs : List α) (initial : invariant state)
    (guarded : Meets step guard state inputs) (reached : run step state inputs = .ok last)
    (index : Nat) (item : β) (found : (log last)[index]? = some item) :
    (log state)[index]? = some item ∨
      ∃ past input rest current next, inputs = past ++ input :: rest ∧
        run step state past = .ok current ∧ step input current = .ok next ∧
        (log current).length ≤ index ∧ (log next)[index]? = some item ∧
        given input current item := by
  induction inputs using List.reverseRecOn generalizing last with
  | nil =>
      cases reached
      exact .inl found
  | append_singleton inputs input ih =>
      obtain ⟨middle, before, taken⟩ := (run_append_ok step state last inputs [input]).mp reached
      obtain ⟨next, taken, ended⟩ := (run_cons_ok step middle last input []).mp taken
      cases ended
      obtain ⟨earlier, later⟩ := (meets_append step guard state inputs [input]).mp guarded
      have holds := run_invariant step guard invariant preserved state middle inputs initial earlier
        before
      obtain ⟨sent, extended, told⟩ := appends input middle last holds (later middle before).1 taken
      rcases Nat.lt_or_ge index (log middle).length with old | new
      · rw [extended, List.getElem?_append_left old] at found
        rcases ih middle earlier before found with
          first | ⟨past, other, rest, current, next, same, kept⟩
        · exact .inl first
        · exact .inr ⟨past, other, rest ++ [input], current, next, by simp [same], kept⟩
      · have sent := found
        rw [extended, List.getElem?_append_right new] at sent
        exact .inr ⟨inputs, input, [], middle, last, rfl, before, taken, new, found,
          told item (List.mem_of_getElem? sent)⟩

theorem run_total (step : α → σ → Except ε σ) (guard : α → σ → Prop) (invariant : σ → Prop)
    (progress : ∀ input state, invariant state → guard input state →
      ∃ next, step input state = .ok next ∧ invariant next)
    (state : σ) (inputs : List α) (initial : invariant state)
    (guarded : Meets step guard state inputs) :
    ∃ last, run step state inputs = .ok last ∧ invariant last := by
  induction inputs generalizing state with
  | nil => exact ⟨state, rfl, initial⟩
  | cons input rest ih =>
      obtain ⟨next, taken, holds⟩ := progress input state initial guarded.1
      obtain ⟨last, reached, final⟩ := ih next holds (guarded.2 next taken)
      exact ⟨last, (run_cons_ok step state last input rest).mpr ⟨next, taken, reached⟩, final⟩

theorem run_ok_iff_meets (step : α → σ → Except ε σ) (guard : α → σ → Prop)
    (invariant : σ → Prop)
    (preserved : ∀ input state next, invariant state → step input state = .ok next →
      invariant next)
    (decides : ∀ input state, invariant state →
      ((∃ next, step input state = .ok next) ↔ guard input state))
    (state : σ) (inputs : List α) (initial : invariant state) :
    (∃ last, run step state inputs = .ok last) ↔ Meets step guard state inputs := by
  constructor
  · rintro ⟨last, reached⟩
    induction inputs generalizing state with
    | nil => trivial
    | cons input rest ih =>
        obtain ⟨next, taken, later⟩ := (run_cons_ok step state last input rest).mp reached
        -- The step that the run took meets its guard because it did not fail.
        refine ⟨(decides input state initial).mp ⟨next, taken⟩, fun other same => ?_⟩
        rw [taken] at same
        cases same
        exact ih next (preserved input state next initial taken) later
  · intro guarded
    obtain ⟨last, reached, -⟩ := run_total step guard invariant
      (fun input state holds here => by
        obtain ⟨next, taken⟩ := (decides input state holds).mpr here
        exact ⟨next, taken, preserved input state next holds taken⟩)
      state inputs initial guarded
    exact ⟨last, reached⟩

section Trail

variable {β γ : Type}

def trail (step : α → σ → Except ε σ) (gives : α → σ → List β) : σ → List α → List β
  | _, [] => []
  | state, input :: rest =>
      gives input state ++
        match step input state with
        | .ok next => trail step gives next rest
        | .error _ => []

theorem trail_filterMap (step : α → σ → Except ε σ) (gives : α → σ → List β) (f : β → Option γ)
    (state : σ) (inputs : List α) :
    (trail step gives state inputs).filterMap f =
      trail step (fun input state => (gives input state).filterMap f) state inputs := by
  induction inputs generalizing state with
  | nil => rfl
  | cons input rest ih =>
      simp only [trail, List.filterMap_append]
      cases step input state with
      | ok next => exact congrArg _ (ih next)
      | error failure => rfl

theorem trail_invariant (step : α → σ → Except ε σ) (gives : α → σ → List β)
    (guard : α → σ → Prop) (invariant : σ → List β → Prop)
    (kept : ∀ input state next given, invariant state given → guard input state →
      step input state = .ok next → invariant next (given ++ gives input state))
    (state last : σ) (given : List β) (inputs : List α) (initial : invariant state given)
    (guarded : Meets step guard state inputs) (reached : run step state inputs = .ok last) :
    invariant last (given ++ trail step gives state inputs) := by
  induction inputs generalizing state given with
  | nil =>
      cases reached
      simpa [trail] using initial
  | cons input rest ih =>
      obtain ⟨next, taken, later⟩ := (run_cons_ok _ _ _ _ _).mp reached
      have here := kept input state next given initial guarded.1 taken
      simpa [trail, taken] using ih next _ here (guarded.2 next taken) later

end Trail

def Throughout (step : α → σ → Except ε σ) (property : σ → Prop) : σ → List α → Prop
  | state, [] => property state
  | state, input :: rest =>
      property state ∧ ∀ next, step input state = .ok next → Throughout step property next rest

theorem throughout_iff (step : α → σ → Except ε σ) (property : σ → Prop) (state : σ)
    (inputs : List α) :
    Throughout step property state inputs ↔
      ∀ first, first <+: inputs → ∀ last, run step state first = .ok last → property last := by
  induction inputs generalizing state with
  | nil =>
      constructor
      · intro here first shorter last reached
        rw [List.prefix_nil.mp shorter] at reached
        cases reached
        exact here
      · exact fun reaches => reaches [] (List.prefix_refl _) state rfl
  | cons input rest ih =>
      constructor
      · rintro ⟨here, later⟩ first shorter last reached
        cases first with
        | nil => cases reached; exact here
        | cons other first =>
            obtain ⟨rfl, tail⟩ := List.cons_prefix_cons.mp shorter
            obtain ⟨next, taken, reached⟩ := (run_cons_ok step state last other first).mp reached
            exact (ih next).mp (later next taken) first tail last reached
      · intro reaches
        refine ⟨reaches [] List.nil_prefix state rfl, fun next taken => (ih next).mpr ?_⟩
        intro first shorter last reached
        exact reaches (input :: first) (List.cons_prefix_cons.mpr ⟨rfl, shorter⟩) last
          ((run_cons_ok step state last input first).mpr ⟨next, taken, reached⟩)

theorem throughout_invariant (step : α → σ → Except ε σ) (guard : α → σ → Prop)
    (invariant property : σ → Prop)
    (preserved : ∀ input state next, invariant state → guard input state →
      step input state = .ok next → invariant next)
    (holds : ∀ state, invariant state → property state)
    (state : σ) (inputs : List α) (initial : invariant state)
    (guarded : Meets step guard state inputs) : Throughout step property state inputs := by
  rw [throughout_iff]
  rintro first ⟨later, rfl⟩ last reached
  have early := ((meets_append step guard state first later).mp guarded).1
  exact holds last (run_invariant step guard invariant preserved state last first
    initial early reached)

theorem throughout_iff_meets_given (step : α → σ → Except ε σ) (given guard : α → σ → Prop)
    (invariant property : σ → Prop)
    (fails : ∀ input state failure, invariant state → step input state = .error failure →
      guard input state)
    (preserved : ∀ input state next, invariant state → given input state →
      step input state = .ok next → invariant next)
    (decides : ∀ input state next, invariant state → given input state →
      step input state = .ok next → property state → (property next ↔ guard input state))
    (state : σ) (inputs : List α) (initial : invariant state) (holds : property state)
    (assumed : Meets step given state inputs) :
    Throughout step property state inputs ↔ Meets step guard state inputs := by
  induction inputs generalizing state with
  | nil => exact ⟨fun _ => trivial, fun _ => holds⟩
  | cons input rest ih =>
      cases taken : step input state with
      | error failure =>
          have none (next : σ) : ¬ step input state = .ok next := by simp [taken]
          exact ⟨fun _ => ⟨fails input state failure initial taken, fun next same =>
            absurd same (none next)⟩, fun _ => ⟨holds, fun next same => absurd same (none next)⟩⟩
      | ok next =>
          have only (other : σ) (same : step input state = .ok other) : next = other := by
            rw [taken] at same
            exact Except.ok.inj same
          have kept := preserved input state next initial assumed.1 taken
          have decided := decides input state next initial assumed.1 taken holds
          have rests := assumed.2 next taken
          constructor
          · rintro ⟨-, later⟩
            have after := later next taken
            have still : property next := by
              cases rest with
              | nil => exact after
              | cons _ _ => exact after.1
            refine ⟨decided.mp still, fun other same => ?_⟩
            rw [← only other same]
            exact (ih next kept still rests).mp after
          · rintro ⟨here, later⟩
            have still := decided.mpr here
            refine ⟨holds, fun other same => ?_⟩
            rw [← only other same]
            exact (ih next kept still rests).mpr (later next taken)

theorem throughout_iff_meets (step : α → σ → Except ε σ) (guard : α → σ → Prop)
    (invariant property : σ → Prop)
    (fails : ∀ input state failure, invariant state → step input state = .error failure →
      guard input state)
    (preserved : ∀ input state next, invariant state → step input state = .ok next →
      invariant next)
    (decides : ∀ input state next, invariant state → step input state = .ok next →
      property state → (property next ↔ guard input state))
    (state : σ) (inputs : List α) (initial : invariant state) (holds : property state) :
    Throughout step property state inputs ↔ Meets step guard state inputs :=
  throughout_iff_meets_given step (fun _ _ => True) guard invariant property fails
    (fun input state next holds _ => preserved input state next holds)
    (fun input state next holds _ => decides input state next holds) state inputs initial holds
    (meets_of_mem step _ state inputs fun _ _ _ => trivial)

/-- Two results fail alike, or succeed with related values. -/
inductive Sim (related : σ → τ → Prop) : Except ε σ → Except ε τ → Prop
  | ok {state : σ} {abstract : τ} (holds : related state abstract) :
      Sim related (.ok state) (.ok abstract)
  | error (failure : ε) : Sim related (.error failure) (.error failure)

namespace Sim

variable {σ' τ' : Type}

theorem exists_ok {related : σ → τ → Prop} {result : Except ε σ} {abstract : τ}
    (sim : Sim related result (.ok abstract)) :
    ∃ state, result = .ok state ∧ related state abstract := by
  cases sim with
  | ok holds => exact ⟨_, rfl, holds⟩

theorem of_ok {related : σ → τ → Prop} {state : σ} {abstract : Except ε τ}
    (sim : Sim related (.ok state) abstract) : ∃ t, abstract = .ok t ∧ related state t := by
  cases sim with
  | ok holds => exact ⟨_, rfl, holds⟩

theorem bindAt {related : σ → τ → Prop} {after : σ' → τ' → Prop} {result : Except ε σ}
    {abstract : Except ε τ} {next : σ → Except ε σ'} {abstractNext : τ → Except ε τ'}
    (sim : Sim related result abstract)
    (later : ∀ s t, abstract = .ok t → related s t → Sim after (next s) (abstractNext t)) :
    Sim after (result >>= next) (abstract >>= abstractNext) := by
  cases sim with
  | ok holds => exact later _ _ rfl holds
  | error failure => exact .error failure

theorem mapLeft {related : σ → τ → Prop} {after : σ' → τ → Prop} {result : Except ε σ}
    {abstract : Except ε τ} {next : σ → σ'} (sim : Sim related result abstract)
    (later : ∀ s t, related s t → after (next s) t) :
    Sim after (result >>= fun s => .ok (next s)) abstract := by
  cases sim with
  | ok holds => exact .ok (later _ _ holds)
  | error failure => exact .error failure

theorem run (related : σ → τ → Prop) (step : α → σ → Except ε σ) (abstractStep : α → τ → Except ε τ)
    (inputs : List α)
    (steps : ∀ input ∈ inputs, ∀ s t, related s t →
      Sim related (step input s) (abstractStep input t))
    (state : σ) (abstract : τ) (initial : related state abstract) :
    Sim related (Runs.run step state inputs) (Runs.run abstractStep abstract inputs) := by
  induction inputs generalizing state abstract with
  | nil => exact .ok initial
  | cons input rest ih =>
      have here := steps input (by simp) state abstract initial
      -- The two results are generalised together, so that they split into two cases and not four.
      simp only [Runs.run]
      generalize step input state = result at here ⊢
      generalize abstractStep input abstract = abstractResult at here ⊢
      cases here with
      | ok holds =>
          exact ih (fun later member => steps later (List.mem_cons_of_mem _ member)) _ _ holds
      | error failure => exact .error failure

end Sim

end Runs
