import Mathlib

/-!
# Answers that a specification explains

A machine answers calls and changes its state.  A specification relates states of
its own: it says which answers a call may get and what becomes of the abstract
state.  Where each step of the machine is matched by one of the specification,
the answers of a whole run are explained by it.
-/

namespace Refinement

variable {State Abstract Call Answer : Type*}

/-- The answers to calls made one after the other, and the state they leave. -/
def answers (perform : State → Call → Answer × State) : State → List Call → List Answer × State
  | state, [] => ([], state)
  | state, call :: rest =>
      let (answer, next) := perform state call
      let (later, final) := answers perform next rest
      (answer :: later, final)

/-- The specification allows the answers, one after the other. -/
inductive Explains (allows : Abstract → Call → Answer → Abstract → Prop) :
    Abstract → List Call → List Answer → Abstract → Prop where
  | nil (state : Abstract) : Explains allows state [] [] state
  | cons {state next final : Abstract} {call : Call} {rest : List Call} {answer : Answer}
      {later : List Answer} :
      allows state call answer next → Explains allows next rest later final →
        Explains allows state (call :: rest) (answer :: later) final

variable {perform : State → Call → Answer × State}
  {allows : Abstract → Call → Answer → Abstract → Prop}

/-- A relation which may also speak of the calls to come, and is kept by every step. -/
theorem explains_answers {related : List Call → State → Abstract → Prop}
    (simulates : ∀ call rest state abstract, related (call :: rest) state abstract →
      ∃ next, allows abstract call (perform state call).1 next ∧
        related rest (perform state call).2 next)
    {calls : List Call} {state : State} {abstract : Abstract}
    (begins : related calls state abstract) :
    ∃ final, Explains allows abstract calls (answers perform state calls).1 final ∧
      related [] (answers perform state calls).2 final := by
  induction calls generalizing state abstract with
  | nil => exact ⟨abstract, .nil abstract, begins⟩
  | cons call rest ih =>
      rcases simulates call rest state abstract begins with ⟨next, allowed, stays⟩
      rcases ih stays with ⟨final, explained, ends⟩
      exact ⟨final, .cons allowed explained, ends⟩

end Refinement
