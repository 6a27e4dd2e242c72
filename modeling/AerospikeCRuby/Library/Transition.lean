import Mathlib

/-!
# Reachable states

A system is a set of initial states and a step relation.  What holds initially
and is kept by every step holds in every reachable state.  Where the steps are
a function of inputs, what each of them keeps on a condition holds throughout a
run exactly if all of them meet it.
-/

namespace Transition

variable {State : Type*}

/-- Some run from an initial state ends in `state`. -/
def Reachable (initial : State → Prop) (step : State → State → Prop) (state : State) : Prop :=
  ∃ start, initial start ∧ Relation.ReflTransGen step start state

theorem Reachable.invariant {initial : State → Prop} {step : State → State → Prop}
    {invariant : State → Prop} (holds : ∀ state, initial state → invariant state)
    (kept : ∀ state next, invariant state → step state next → invariant next)
    {state : State} (reachable : Reachable initial step state) : invariant state := by
  rcases reachable with ⟨start, begins, run⟩
  induction run with
  | refl => exact holds start begins
  | tail _ last ih => exact kept _ _ ih last

theorem Reachable.start {initial : State → Prop} {step : State → State → Prop} {state : State}
    (begins : initial state) : Reachable initial step state :=
  ⟨state, begins, .refl⟩

theorem Reachable.next {initial : State → Prop} {step : State → State → Prop}
    {state next : State} (reachable : Reachable initial step state) (last : step state next) :
    Reachable initial step next := by
  rcases reachable with ⟨start, begins, run⟩
  exact ⟨start, begins, run.tail last⟩

section Inputs

variable {Input : Type*} {step : State → Input → State}

theorem foldl_prefix_iff {invariant holds : State → Prop} {condition : State → Input → Prop}
    (kept : ∀ state input, invariant state → invariant (step state input))
    (each : ∀ state input, invariant state → holds state →
      (holds (step state input) ↔ condition state input))
    {inputs : List Input} {state : State} (begins : invariant state) (now : holds state) :
    (∀ before, before <+: inputs → holds (before.foldl step state)) ↔
      ∀ before input, before ++ [input] <+: inputs →
        condition (before.foldl step state) input := by
  induction inputs generalizing state with
  | nil =>
      apply iff_of_true
      · intro before isPrefix
        rw [List.prefix_nil.mp isPrefix]
        exact now
      · intro before input isPrefix
        simp at isPrefix
  | cons input rest ih =>
      have first := each state input begins now
      constructor
      · intro stays
        have next := stays [input] (by simp)
        have later := (ih (kept state input begins) next).mp fun before isPrefix =>
          stays (input :: before) (List.cons_prefix_cons.mpr ⟨rfl, isPrefix⟩)
        rintro (_ | ⟨input', before⟩) last isPrefix
        · rcases (List.cons_prefix_cons.mp isPrefix).1 with rfl
          exact first.mp next
        · rcases List.cons_prefix_cons.mp isPrefix with ⟨rfl, inner⟩
          exact later before last inner
      · intro conditions
        have next := first.mpr (conditions [] input (by simp))
        have later := (ih (kept state input begins) next).mpr fun before last isPrefix =>
          conditions (input :: before) last (List.cons_prefix_cons.mpr ⟨rfl, isPrefix⟩)
        rintro (_ | ⟨input', before⟩) isPrefix
        · exact now
        · rcases List.cons_prefix_cons.mp isPrefix with ⟨rfl, inner⟩
          exact later before inner

end Inputs

section Runs

variable {Input : Type*} {step : State → Input → Option State}

theorem foldlM_invariant {invariant : State → Prop} {inputs : List Input} {state final : State}
    (kept : ∀ input ∈ inputs, ∀ state next, invariant state → step state input = some next →
      invariant next)
    (begins : invariant state) (ran : inputs.foldlM step state = some final) :
    invariant final := by
  induction inputs generalizing state with
  | nil =>
      cases ran
      exact begins
  | cons input rest ih =>
      rw [List.foldlM_cons] at ran
      rcases Option.bind_eq_some_iff.mp ran with ⟨next, stepped, ran⟩
      have keptNext := kept input List.mem_cons_self state next begins stepped
      exact ih (fun input' member => kept input' (List.mem_cons_of_mem _ member)) keptNext ran

/-- A run whose steps are possible: where some inputs break what every other step keeps, it holds
throughout the run exactly if none of them occurs. -/
theorem foldlM_prefix_iff {invariant holds : State → Prop} {breaks : Input → Prop}
    (valid : ∀ state, invariant state → holds state)
    (kept : ∀ state input next, invariant state → step state input = some next →
      ¬breaks input → invariant next)
    (broken : ∀ state input next, invariant state → step state input = some next →
      breaks input → ¬holds next)
    {inputs : List Input} {state final : State} (begins : invariant state)
    (ran : inputs.foldlM step state = some final) :
    (∀ before, before <+: inputs → ∀ reached, before.foldlM step state = some reached →
        holds reached) ↔
      ∀ input ∈ inputs, ¬breaks input := by
  induction inputs generalizing state with
  | nil =>
      apply iff_of_true
      · intro before isPrefix reached atEnd
        rw [List.prefix_nil.mp isPrefix] at atEnd
        cases atEnd
        exact valid state begins
      · simp
  | cons input rest ih =>
      rw [List.foldlM_cons] at ran
      rcases Option.bind_eq_some_iff.mp ran with ⟨next, stepped, ran⟩
      constructor
      · intro stays
        have safe : ¬breaks input := fun breaking =>
          broken state input next begins stepped breaking (stays [input] (by simp) next (by
            simp [stepped]))
        have later := (ih (kept state input next begins stepped safe) ran).mp
          fun before isPrefix reached atEnd =>
            stays (input :: before) (List.cons_prefix_cons.mpr ⟨rfl, isPrefix⟩) reached (by
              simpa [stepped] using atEnd)
        exact List.forall_mem_cons.mpr ⟨safe, later⟩
      · intro safe
        rcases List.forall_mem_cons.mp safe with ⟨first, later⟩
        have stays := (ih (kept state input next begins stepped first) ran).mpr later
        rintro (_ | ⟨input', before⟩) isPrefix reached atEnd
        · cases atEnd
          exact valid state begins
        · rcases List.cons_prefix_cons.mp isPrefix with ⟨rfl, inner⟩
          exact stays before inner reached (by simpa [stepped] using atEnd)

end Runs

end Transition
