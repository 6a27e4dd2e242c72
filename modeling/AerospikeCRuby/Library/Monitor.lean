import Mathlib

/-!
# Monitors of a trace

A rule says which event may follow the events before it.  A trace is clean when
each of its events may follow what precedes it.  A monitor keeps a summary of
the past and decides cleanness event by event.
-/

namespace Monitor

variable {Event State : Type*}

/-- Each event may follow the events before it. -/
def Clean (may : List Event → Event → Prop) (trace : List Event) : Prop :=
  ∀ before event after, trace = before ++ event :: after → may before event

/-- The summary of the past after a trace, unless some event was refused. -/
def run (step : State → Event → Option State) : State → List Event → Option State
  | state, [] => some state
  | state, event :: rest => (step state event).bind fun next => run step next rest

variable {may : List Event → Event → Prop}

theorem clean_nil : Clean may [] := by
  intro before event after split
  simp at split

theorem clean_append {front back : List Event} :
    Clean may (front ++ back) ↔
      Clean may front ∧ Clean (fun before event => may (front ++ before) event) back := by
  constructor
  · intro clean
    constructor
    · rintro before event after rfl
      apply clean before event (after ++ back)
      simp
    · rintro before event after rfl
      apply clean (front ++ before) event after
      simp
  · rintro ⟨cleanFront, cleanBack⟩ before event after split
    rcases List.append_eq_append_iff.mp split with ⟨rest, rfl, rfl⟩ | ⟨rest, rfl, atEvent⟩
    · exact cleanBack rest event after rfl
    · cases rest with
      | nil =>
          have := cleanBack [] event after (by simpa using atEvent.symm)
          simpa using this
      | cons first rest =>
          rcases List.cons.inj atEvent with ⟨rfl, rfl⟩
          exact cleanFront before event rest rfl

theorem clean_cons {event : Event} {rest : List Event} :
    Clean may (event :: rest) ↔
      may [] event ∧ Clean (fun before later => may (event :: before) later) rest := by
  have single : Clean may [event] ↔ may [] event := by
    constructor
    · intro clean
      exact clean [] event [] rfl
    · intro allowed before other after split
      rcases List.singleton_eq_append_iff.mp split with ⟨rfl, same⟩ | ⟨_, impossible⟩
      · rcases List.cons.inj same with ⟨rfl, _⟩
        exact allowed
      · cases impossible
  rw [← List.singleton_append, clean_append, single]
  rfl

theorem clean_congr {may' : List Event → Event → Prop}
    (same : ∀ before event, may before event ↔ may' before event) {trace : List Event} :
    Clean may trace ↔ Clean may' trace := by
  simp only [Clean, same]

theorem clean_singleton {event : Event} : Clean may [event] ↔ may [] event := by
  rw [clean_cons, and_iff_left clean_nil]

/-- A trace made of the traces of the items of a list is clean when each of these is, after those
of the items before. -/
theorem clean_flatMap {Item : Type*} {traceOf : Item → List Event} {items : List Item} :
    Clean may (items.flatMap traceOf) ↔
      Clean (fun before item =>
        Clean (fun past event => may (before.flatMap traceOf ++ past) event) (traceOf item))
        items := by
  induction items generalizing may with
  | nil => exact iff_of_true clean_nil clean_nil
  | cons item rest ih =>
      rw [List.flatMap_cons, clean_append, clean_cons, ih]
      simp only [List.flatMap_nil, List.nil_append, List.flatMap_cons, List.append_assoc]

/-- A monitor whose steps follow the rule on the states which summarise a trace accepts exactly
the clean continuations of that trace. -/
theorem run_isSome {step : State → Event → Option State} {Summarises : List Event → State → Prop}
    (refused : ∀ past state event, Summarises past state →
      ((step state event).isSome = true ↔ may past event))
    (kept : ∀ past state event next, Summarises past state → step state event = some next →
      Summarises (past ++ [event]) next)
    {past : List Event} {state : State} (summary : Summarises past state) (trace : List Event) :
    (run step state trace).isSome = true ↔
      Clean (fun before event => may (past ++ before) event) trace := by
  induction trace generalizing past state with
  | nil => exact iff_of_true rfl clean_nil
  | cons event rest ih =>
      have allowed := refused past state event summary
      rw [clean_cons, run, List.append_nil, ← allowed]
      cases advanced : step state event with
      | none => simp
      | some next =>
          have summarised := kept past state event next summary advanced
          simpa using ih summarised

end Monitor
