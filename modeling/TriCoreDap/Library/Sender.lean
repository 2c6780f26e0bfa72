import Mathlib.Data.List.Basic

/-!
# Runs of a machine

A machine goes from state to state with its inputs and puts out a list at each.
-/

namespace TriCoreDap

variable {σ α β : Type*}

/-- What is put out, one input after the other. -/
def emitted (step : σ → α → σ) (emit : σ → α → List β) : σ → List α → List β
  | _, [] => []
  | state, input :: rest => emit state input ++ emitted step emit (step state input) rest

/-- Every input is allowed in the state it is met in. -/
def Along (step : σ → α → σ) (allowed : σ → α → Prop) : σ → List α → Prop
  | _, [] => True
  | state, input :: rest => allowed state input ∧ Along step allowed (step state input) rest

instance decidableAlong
    (step : σ → α → σ)
    (allowed : σ → α → Prop)
    [decide : ∀ state input, Decidable (allowed state input)] :
    (state : σ) → (inputs : List α) → Decidable (Along step allowed state inputs)
  | _, [] => inferInstanceAs (Decidable True)
  | state, input :: rest =>
      have := decide state input
      have := decidableAlong step allowed (step state input) rest
      inferInstanceAs (Decidable (_ ∧ _))

/-- The states of a run, the one at its end included. -/
def visits (step : σ → α → σ) : σ → List α → List σ
  | state, [] => [state]
  | state, input :: rest => state :: visits step (step state input) rest

variable {step : σ → α → σ} {allowed : σ → α → Prop} {invariant good : σ → Prop}

theorem emitted_append
    (step : σ → α → σ)
    (emit : σ → α → List β)
    (state : σ)
    (front back : List α) :
    emitted step emit state (front ++ back) =
      emitted step emit state front ++ emitted step emit (front.foldl step state) back := by
  induction front generalizing state with
  | nil => rfl
  | cons input rest inductionHypothesis =>
      rw [List.cons_append, emitted, emitted, inductionHypothesis, List.append_assoc,
        List.foldl_cons]

theorem visits_head (step : σ → α → σ) (state : σ) (inputs : List α) :
    state ∈ visits step state inputs := by
  cases inputs <;> simp [visits]

theorem foldl_mem_visits (step : σ → α → σ) (state : σ) (inputs : List α) :
    inputs.foldl step state ∈ visits step state inputs := by
  induction inputs generalizing state with
  | nil => exact List.mem_singleton_self state
  | cons input rest inductionHypothesis =>
      rw [List.foldl_cons, visits]
      exact List.mem_cons_of_mem _ (inductionHypothesis _)

/-- What each allowed step keeps holds all along. -/
theorem visits_invariant
    (kept : ∀ state input, invariant state → allowed state input → invariant (step state input))
    {state : σ}
    {inputs : List α}
    (start : invariant state)
    (along : Along step allowed state inputs) :
    ∀ visited ∈ visits step state inputs, invariant visited := by
  induction inputs generalizing state with
  | nil => simpa [visits] using start
  | cons input rest inductionHypothesis =>
      rw [visits, List.forall_mem_cons]
      exact ⟨start, inductionHypothesis (kept state input start along.1) along.2⟩

/-- Where a step that is not allowed spoils the state, all states are good exactly
along the allowed steps. -/
theorem visits_good_iff
    (kept : ∀ state input, invariant state → allowed state input → invariant (step state input))
    (holds : ∀ state, invariant state → good state)
    (spoils : ∀ state input, invariant state → ¬allowed state input → ¬good (step state input))
    {state : σ}
    (start : invariant state)
    (inputs : List α) :
    (∀ visited ∈ visits step state inputs, good visited) ↔ Along step allowed state inputs := by
  induction inputs generalizing state with
  | nil => simp [visits, Along, holds state start]
  | cons input rest inductionHypothesis =>
      rw [visits, List.forall_mem_cons, Along]
      by_cases fine : allowed state input
      · rw [inductionHypothesis (kept state input start fine)]
        simp [holds state start, fine]
      · apply iff_of_false
        · rintro ⟨-, later⟩
          exact spoils state input start fine (later _ (visits_head step _ rest))
        · exact fun along => fine along.1

end TriCoreDap
