import AerospikeCRuby.Library.AssocList
import AerospikeCRuby.Library.RecursiveMutex
import AerospikeCRuby.Library.Transition

/-!
# The callback mutex

The callbacks of `scan_each` and `query_each`, and `set_query_item_next`, which
the callbacks of the buffered calls use, share one recursive mutex.  The C
client hands values to callbacks on the calling thread and on threads of its
own.  A callback runs a block in between, and the block may call the client
again.

A Ruby exception, a `break` or a `throw` leaves a callback by longjmp: it takes
frames off the stack of its thread and runs none of their statements.
-/

namespace AerospikeCRuby.CallbackMutex

open AssocList (keys)

/-- What a call reads: records for a block or records for a list. -/
inductive Source where
  | scanEach
  | queryEach
  | buffered
deriving DecidableEq

inductive Statement where
  | lock
  | unlock
  | record2hash
  | call
  | link
deriving DecidableEq

/-- `scan_each_callback`, by whether `val` is NULL. -/
def scanEachCallback (isNull : Bool) : List Statement :=
  if isNull then [.lock, .unlock] else [.lock, .record2hash, .call, .unlock]

/-- `execute_query_each_callback`, by whether `val` is NULL. -/
def executeQueryEachCallback (isNull : Bool) : List Statement :=
  if isNull then [.lock, .unlock] else [.lock, .record2hash, .call, .unlock]

def setQueryItemNext : List Statement :=
  [.lock, .link, .unlock]

/-- The functions that take the mutex. -/
inductive Callback where
  | scanEach (isNull : Bool)
  | queryEach (isNull : Bool)
  | setQueryItemNext
deriving DecidableEq

namespace Callback

def source : Callback → Source
  | scanEach _ => .scanEach
  | queryEach _ => .queryEach
  | setQueryItemNext => .buffered

def body : Callback → List Statement
  | scanEach isNull => scanEachCallback isNull
  | queryEach isNull => executeQueryEachCallback isNull
  | setQueryItemNext => CallbackMutex.setQueryItemNext

end Callback

/-- What happens to the mutex. -/
inductive Event where
  | acquired
  | released
deriving DecidableEq

def Statement.event : Statement → Option Event
  | .lock => some .acquired
  | .unlock => some .released
  | _ => none

/-- A callback in progress: what it has done and what it has still to do. -/
structure Activation where
  call : ℕ
  callback : Callback
  done : List Statement
  rest : List Statement
  whole : done ++ rest = callback.body

namespace Activation

def start (call : ℕ) (callback : Callback) : Activation where
  call := call
  callback := callback
  done := []
  rest := callback.body
  whole := rfl

/-- After the first of the statements to come. -/
def next (activation : Activation) : Activation where
  call := activation.call
  callback := activation.callback
  done := activation.done ++ activation.rest.take 1
  rest := activation.rest.drop 1
  whole := by rw [List.append_assoc, List.take_append_drop, activation.whole]

/-- What the callback has done to the mutex. -/
def history (activation : Activation) : List Event :=
  activation.done.filterMap Statement.event

end Activation

/-- A C function on the stack of a thread: a call that waits for its records, or a callback. -/
inductive Frame where
  | foreach (call : ℕ)
  | callback (activation : Activation)

namespace Frame

/-- The block of the callback is running. -/
def inBlock : Frame → Bool
  | foreach _ => false
  | callback activation => activation.rest.head? == some .call

/-- Ruby code is running that may raise. -/
def raises : Frame → Bool
  | foreach _ => false
  | callback activation =>
      activation.rest.head? == some .record2hash || activation.rest.head? == some .call

def holds : Frame → Bool
  | foreach _ => false
  | callback activation => activation.history == [.acquired]

def isForeach (call : ℕ) : Frame → Bool
  | foreach other => other == call
  | callback _ => false

def isCallbackOf (call : ℕ) : Frame → Bool
  | foreach _ => false
  | callback activation => activation.call == call

/-- What a callback has done when it is left. -/
def left : Frame → Option (List Event)
  | foreach _ => none
  | callback activation => some activation.history

end Frame

/-- The frames of each thread, the innermost first, and the calls in progress.  What
each callback that was left has done is not part of the program. -/
structure State where
  threads : ℕ
  mutex : RecursiveMutex ℕ
  frames : ℕ → List Frame
  calls : List (ℕ × Source)
  nextCall : ℕ
  left : List (List Event)

inductive Action where
  /-- Ruby code calls the client. -/
  | call (thread : ℕ) (source : Source)
  /-- The C client hands a value to the callback of a call. -/
  | deliver (thread call : ℕ) (callback : Callback)
  /-- The callback does its next statement, or returns after the last. -/
  | advance (thread : ℕ)
  /-- A call returns to the Ruby code, or raises there. -/
  | returns (thread : ℕ)
  /-- A callback is left by longjmp, and so are the given number of frames below it. -/
  | exit (thread below : ℕ)

/-- Ruby code is running. -/
def inRuby : List Frame → Bool
  | [] => true
  | frame :: _ => frame.inBlock

/-- The thread may run a callback of the call: it waits for the records itself, or it is a thread
of the C client. -/
def serves (call : ℕ) : List Frame → Bool
  | [] => true
  | frame :: _ => frame.isForeach call

namespace State

/-- Before the first call. -/
def initial (threads : ℕ) : State where
  threads := threads
  mutex := none
  frames := fun _ => []
  calls := []
  nextCall := 0
  left := []

def setStack (state : State) (thread : ℕ) (stack : List Frame) : State :=
  { state with frames := Function.update state.frames thread stack }

/-- Every callback of the call has been left. -/
def Finished (state : State) (call : ℕ) : Prop :=
  ∀ thread < state.threads, (state.frames thread).all fun frame => !frame.isCallbackOf call

instance (state : State) (call : ℕ) : Decidable (state.Finished call) :=
  inferInstanceAs (Decidable (∀ thread < state.threads, _))

def begin_ (state : State) (thread : ℕ) (source : Source) : State :=
  { state.setStack thread (.foreach state.nextCall :: state.frames thread) with
    calls := (state.nextCall, source) :: state.calls
    nextCall := state.nextCall + 1 }

/-- The next statement of the innermost callback of a thread; nothing while it has to wait. -/
def execute (state : State) (thread : ℕ) (activation : Activation) (below : List Frame) :
    Option State :=
  let after := state.setStack thread (.callback activation.next :: below)
  match activation.rest with
  | [] => some { state.setStack thread below with left := activation.history :: state.left }
  | .lock :: _ => (state.mutex.lock thread).map fun mutex => { after with mutex := mutex }
  | .unlock :: _ => some { after with mutex := state.mutex.unlock thread }
  | _ :: _ => some after

/-- The frames that are left do not run on. -/
def unwind (state : State) (thread count : ℕ) : State :=
  let gone := (state.frames thread).take count
  { state.setStack thread ((state.frames thread).drop count) with
    calls := state.calls.filter fun call => !gone.any (Frame.isForeach call.1)
    left := gone.filterMap Frame.left ++ state.left }

def step (state : State) : Action → Option State
  | .call thread source =>
      if thread < state.threads ∧ inRuby (state.frames thread) then
        some (state.begin_ thread source)
      else none
  | .deliver thread call callback =>
      if thread < state.threads ∧ (call, callback.source) ∈ state.calls ∧
          serves call (state.frames thread) then
        some (state.setStack thread
          (.callback (Activation.start call callback) :: state.frames thread))
      else none
  | .advance thread =>
      match state.frames thread with
      | .callback activation :: below => state.execute thread activation below
      | _ => none
  | .returns thread =>
      match state.frames thread with
      | .foreach call :: below =>
          if state.Finished call then
            some { state.setStack thread below with
              calls := state.calls.filter fun other => other.1 ≠ call }
          else none
      | _ => none
  | .exit thread below =>
      if (state.frames thread).head?.any Frame.raises ∧ below < (state.frames thread).length ∧
          inRuby ((state.frames thread).drop (below + 1)) then
        some (state.unwind thread (below + 1))
      else none

/-- The mutex was released by every callback that was left, is held inside callbacks of calls in
progress only, and can be taken when no call is in progress. -/
structure Released (state : State) : Prop where
  once : ∀ history ∈ state.left, history = [.acquired, .released]
  held : ∀ thread again, state.mutex = some (thread, again) → ∃ activation,
    .callback activation ∈ state.frames thread ∧ activation.history = [.acquired] ∧
      activation.call ∈ keys state.calls
  free : state.calls = [] → ∀ thread, (state.mutex.lock thread).isSome

end State

def Action.IsExit : Action → Prop
  | .exit _ _ => True
  | _ => False

theorem Callback.history_body (callback : Callback) :
    callback.body.filterMap Statement.event = [.acquired, .released] := by
  rcases callback with isNull | isNull | _
  · cases isNull <;> rfl
  · cases isNull <;> rfl
  · rfl

theorem Callback.body_eq (callback : Callback) :
    ∃ middle, callback.body = .lock :: (middle ++ [.unlock]) := by
  rcases callback with isNull | isNull | _
  · cases isNull
    · exact ⟨[.record2hash, .call], rfl⟩
    · exact ⟨[], rfl⟩
  · cases isNull
    · exact ⟨[.record2hash, .call], rfl⟩
    · exact ⟨[], rfl⟩
  · exact ⟨[.link], rfl⟩

namespace Activation

variable (activation : Activation) {later : List Statement}

/-- What was done to the mutex and what is still to come. -/
theorem history_append :
    activation.history ++ activation.rest.filterMap Statement.event = [.acquired, .released] := by
  rw [history, ← List.filterMap_append, activation.whole, Callback.history_body]

theorem history_next :
    activation.next.history =
      activation.history ++ (activation.rest.take 1).filterMap Statement.event := by
  rw [history, next, List.filterMap_append, history]

theorem history_of_returned (returned : activation.rest = []) :
    activation.history = [.acquired, .released] := by
  simpa [returned] using activation.history_append

theorem history_of_lock (locks : activation.rest = .lock :: later) : activation.history = [] := by
  have whole := activation.history_append
  rw [locks] at whole
  cases before : activation.history with
  | nil => rfl
  | cons first rest => cases rest <;> simp [before, Statement.event] at whole

theorem history_of_unlock (unlocks : activation.rest = .unlock :: later) :
    activation.history = [.acquired] := by
  have whole := activation.history_append
  rw [unlocks] at whole
  rcases before : activation.history with _ | ⟨first, _ | ⟨second, rest⟩⟩
  · simp [before, Statement.event] at whole
  · simp [before, Statement.event] at whole
    simp [whole]
  · simp [before, Statement.event] at whole

/-- What is neither `pthread_mutex_lock` nor `pthread_mutex_unlock` runs while the mutex is held. -/
theorem history_of_silent {statement : Statement} (rest : activation.rest = statement :: later)
    (silent : statement.event = none) : activation.history = [.acquired] := by
  have whole := activation.whole
  have events := activation.history_append
  rcases activation.callback.body_eq with ⟨middle, body⟩
  rw [body, rest] at whole
  rw [rest, List.filterMap_cons, silent] at events
  cases done : activation.done with
  | nil =>
      rw [done, List.nil_append, List.cons.injEq] at whole
      rcases whole with ⟨rfl, _⟩
      cases silent
  | cons first before =>
      rw [done, List.cons_append, List.cons.injEq] at whole
      rcases whole with ⟨rfl, whole⟩
      rcases List.eq_nil_or_concat later with rfl | ⟨inner, last, rfl⟩
      · have ends := (List.append_inj' whole rfl).2
        rw [List.cons.injEq] at ends
        rcases ends with ⟨rfl, _⟩
        cases silent
      · rw [List.concat_eq_append, ← List.cons_append, ← List.append_assoc] at whole
        have ends := (List.append_inj' whole rfl).2
        rw [List.cons.injEq] at ends
        rcases ends with ⟨rfl, _⟩
        have others : before.filterMap Statement.event ++ inner.filterMap Statement.event = [] :=
          List.append_left_eq_self.mp (by simpa [history, done, Statement.event] using events)
        rw [history, done, List.filterMap_cons, (List.append_eq_nil_iff.mp others).1]
        rfl

/-- Ruby code runs while the mutex is held. -/
theorem history_of_raises (raises : (Frame.callback activation).raises) :
    activation.history = [.acquired] := by
  cases rest : activation.rest with
  | nil => simp [Frame.raises, rest] at raises
  | cons statement later =>
      have ruby : statement = .record2hash ∨ statement = .call := by
        simpa [Frame.raises, rest] using raises
      apply activation.history_of_silent rest
      rcases ruby with rfl | rfl <;> rfl

end Activation

namespace State

/-- A thread holds the mutex as often as its callbacks have taken and not released it. -/
structure Inv (state : State) : Prop where
  depth : ∀ thread, state.mutex.depth thread = (state.frames thread).countP Frame.holds
  once : ∀ history ∈ state.left, history = [.acquired, .released]
  called : ∀ thread activation, .callback activation ∈ state.frames thread →
    activation.call ∈ keys state.calls
  outside : ∀ thread, state.threads ≤ thread → state.frames thread = []

theorem inv_initial (threads : ℕ) : (initial threads).Inv where
  depth _ := rfl
  once _ member := by cases member
  called _ _ member := by cases member
  outside _ _ := rfl

theorem Inv.released {state : State} (inv : state.Inv) : state.Released where
  once := inv.once
  held := by
    intro thread again holder
    have positive : 0 < (state.frames thread).countP Frame.holds := by
      rw [← inv.depth, holder]
      simp [RecursiveMutex.depth]
    rcases List.countP_pos_iff.mp positive with ⟨_ | activation, member, holds⟩
    · cases holds
    · exact ⟨activation, member, by simpa [Frame.holds] using holds,
        inv.called thread activation member⟩
  free := by
    intro none thread
    rw [RecursiveMutex.lock_isSome_iff]
    intro other _
    rw [inv.depth, List.countP_eq_zero]
    rintro (_ | activation) member
    · simp [Frame.holds]
    · have called := inv.called other activation member
      rw [none] at called
      cases called

section Steps

variable {state after : State} {thread : ℕ} {stack : List Frame}

theorem Inv.inside (inv : state.Inv) (some : state.frames thread ≠ []) :
    thread < state.threads := by
  by_contra beyond
  exact some (inv.outside thread (not_lt.mp beyond))

/-- The invariant after the frames of one thread have changed. -/
theorem Inv.change (inv : state.Inv) (inside : thread < state.threads)
    (threads : after.threads = state.threads)
    (frames : after.frames = Function.update state.frames thread stack)
    (own : after.mutex.depth thread = stack.countP Frame.holds)
    (others : ∀ other, other ≠ thread → after.mutex.depth other = state.mutex.depth other)
    (once : ∀ history ∈ after.left, history = [.acquired, .released])
    (called : ∀ activation, .callback activation ∈ stack → activation.call ∈ keys after.calls)
    (kept : ∀ other activation, .callback activation ∈ state.frames other →
      activation.call ∈ keys after.calls) : after.Inv where
  depth := by
    intro other
    rw [frames]
    by_cases here : other = thread
    · subst here
      rw [own, Function.update_self]
    · rw [others other here, Function.update_of_ne here, inv.depth]
  once := once
  called := by
    intro other activation member
    rw [frames] at member
    by_cases here : other = thread
    · subst here
      exact called activation (by simpa using member)
    · exact kept other activation (by simpa [here] using member)
  outside := by
    intro other beyond
    rw [threads] at beyond
    have differ : other ≠ thread := by
      rintro rfl
      omega
    rw [frames, Function.update_of_ne differ, inv.outside other beyond]

theorem Inv.call {source : Source} (inv : state.Inv)
    (stepped : state.step (.call thread source) = some after) : after.Inv := by
  rw [step, Option.ite_none_right_eq_some, Option.some.injEq] at stepped
  rcases stepped with ⟨⟨inside, _⟩, rfl⟩
  refine inv.change inside rfl rfl ?_ (fun _ _ => rfl) inv.once ?_ ?_
  · simp [begin_, setStack, inv.depth, Frame.holds]
  · intro activation member
    have older : Frame.callback activation ∈ state.frames thread := by
      simpa using member
    exact List.mem_cons_of_mem _ (inv.called thread activation older)
  · intro other activation member
    exact List.mem_cons_of_mem _ (inv.called other activation member)

theorem Inv.deliver {call : ℕ} {callback : Callback} (inv : state.Inv)
    (stepped : state.step (.deliver thread call callback) = some after) : after.Inv := by
  rw [step, Option.ite_none_right_eq_some, Option.some.injEq] at stepped
  rcases stepped with ⟨⟨inside, active, _⟩, rfl⟩
  refine inv.change inside rfl rfl ?_ (fun _ _ => rfl) inv.once ?_ inv.called
  · simp [setStack, inv.depth, Frame.holds, Activation.history, Activation.start]
  · intro activation member
    rcases List.mem_cons.mp member with started | older
    · cases started
      exact List.mem_map_of_mem active
    · exact inv.called thread activation older

section Execute

variable {activation : Activation} {below : List Frame} (inv : state.Inv)
  (top : state.frames thread = .callback activation :: below)
include inv top

/-- A callback returns with the mutex released. -/
theorem Inv.finish (returned : activation.rest = []) :
    { state.setStack thread below with left := activation.history :: state.left }.Inv := by
  have finished := activation.history_of_returned returned
  refine inv.change (inv.inside (by simp [top])) rfl rfl ?_ (fun _ _ => rfl) ?_ ?_ inv.called
  · simp [setStack, inv.depth, top, Frame.holds, finished]
  · exact List.forall_mem_cons.mpr ⟨finished, inv.once⟩
  · exact fun other member => inv.called thread other (by simp [top, member])

/-- A callback goes on to its next statement, with what it has done to the mutex. -/
theorem Inv.goOn {mutex : RecursiveMutex ℕ}
    (own : mutex.depth thread = (Frame.callback activation.next :: below).countP Frame.holds)
    (others : ∀ other, other ≠ thread → mutex.depth other = state.mutex.depth other) :
    { state.setStack thread (.callback activation.next :: below) with mutex := mutex }.Inv := by
  refine inv.change (inv.inside (by simp [top])) rfl rfl own others inv.once ?_ inv.called
  intro other member
  rcases List.mem_cons.mp member with same | older
  · cases same
    exact inv.called thread activation (by simp [top])
  · exact inv.called thread other (by simp [top, older])

theorem Inv.execute (stepped : state.execute thread activation below = some after) :
    after.Inv := by
  have depth := inv.depth thread
  rw [top, List.countP_cons] at depth
  have history := activation.history_next
  rw [State.execute] at stepped
  cases rest : activation.rest with
  | nil =>
      rw [rest] at stepped
      cases stepped
      exact inv.finish top rest
  | cons statement later =>
      rw [rest] at stepped history
      have silent (plain : statement.event = none) :
          (state.setStack thread (.callback activation.next :: below)).Inv := by
        have same : activation.next.history = activation.history := by
          simp [history, plain]
        refine inv.goOn top ?_ (fun _ _ => rfl)
        rw [List.countP_cons, depth, Frame.holds, Frame.holds, same]
      cases statement with
      | lock =>
          have before := activation.history_of_lock rest
          rcases Option.map_eq_some_iff.mp stepped with ⟨mutex, locked, rfl⟩
          refine inv.goOn top ?_ fun _ differ => RecursiveMutex.depth_lock_of_ne locked differ
          rw [RecursiveMutex.depth_lock_self locked, depth]
          simp [Frame.holds, history, before, Statement.event]
      | unlock =>
          have before := activation.history_of_unlock rest
          have held : 0 < state.mutex.depth thread := by
            simp [depth, Frame.holds, before]
          cases stepped
          refine inv.goOn top ?_ fun _ differ => RecursiveMutex.depth_unlock_of_ne held differ
          rw [RecursiveMutex.depth_unlock_self held, depth]
          simp [Frame.holds, history, before, Statement.event]
      | record2hash =>
          cases stepped
          exact silent rfl
      | call =>
          cases stepped
          exact silent rfl
      | link =>
          cases stepped
          exact silent rfl

end Execute

theorem Inv.advance (inv : state.Inv) (stepped : state.step (.advance thread) = some after) :
    after.Inv := by
  rw [step] at stepped
  split at stepped
  · rename_i top
    exact inv.execute top stepped
  · cases stepped

theorem Inv.returns (inv : state.Inv) (stepped : state.step (.returns thread) = some after) :
    after.Inv := by
  rw [step] at stepped
  split at stepped
  · rename_i call below top
    rw [Option.ite_none_right_eq_some, Option.some.injEq] at stepped
    rcases stepped with ⟨finished, rfl⟩
    have kept : ∀ other activation, .callback activation ∈ state.frames other →
        activation.call ∈ keys (state.calls.filter fun started => started.1 ≠ call) := by
      intro other activation member
      have inside := inv.inside (List.ne_nil_of_mem member)
      have differ : activation.call ≠ call := by
        have every := List.all_eq_true.mp (finished other inside) _ member
        simpa [Frame.isCallbackOf] using every
      rcases List.mem_map.mp (inv.called other activation member) with ⟨started, listed, same⟩
      exact List.mem_map.mpr ⟨started, List.mem_filter.mpr ⟨listed, by simpa [same] using differ⟩,
        same⟩
    refine inv.change (inv.inside (by simp [top])) rfl rfl ?_ (fun _ _ => rfl) inv.once ?_ kept
    · simp [setStack, inv.depth, top, Frame.holds]
    · intro activation member
      exact kept thread activation (by simp [top, member])
  · cases stepped

/-- What every step keeps that leaves no callback by longjmp. -/
theorem Inv.step {action : Action} (inv : state.Inv) (stepped : state.step action = some after)
    (stays : ¬action.IsExit) : after.Inv := by
  cases action with
  | call => exact inv.call stepped
  | deliver => exact inv.deliver stepped
  | advance => exact inv.advance stepped
  | returns => exact inv.returns stepped
  | exit => exact absurd trivial stays

/-- The callback that is left by longjmp has taken the mutex and not released it. -/
theorem not_released_of_exit {action : Action} (stepped : state.step action = some after)
    (exits : action.IsExit) : ¬after.Released := by
  cases action with
  | exit thread below =>
      rw [State.step, Option.ite_none_right_eq_some, Option.some.injEq] at stepped
      rcases stepped with ⟨⟨raises, _⟩, rfl⟩
      cases frames : state.frames thread with
      | nil => simp [frames] at raises
      | cons top rest =>
          rw [frames, List.head?_cons, Option.any_some] at raises
          cases top with
          | foreach => cases raises
          | callback activation =>
              have history := activation.history_of_raises raises
              intro released
              have finished := released.once activation.history (by
                simp [unwind, frames, Frame.left])
              rw [history] at finished
              cases finished
  | call => cases exits
  | deliver => cases exits
  | advance => cases exits
  | returns => cases exits

end Steps

end State

/-- In a run the mutex is always released exactly if no callback is left by longjmp. -/
theorem released_iff {threads : ℕ} {actions : List Action} {final : State}
    (ran : actions.foldlM State.step (State.initial threads) = some final) :
    (∀ before, before <+: actions → ∀ reached,
        before.foldlM State.step (State.initial threads) = some reached → reached.Released) ↔
      ∀ action ∈ actions, ¬action.IsExit := by
  have kept : ∀ (state : State) (action : Action) (after : State), state.Inv →
      state.step action = some after → ¬action.IsExit → after.Inv :=
    fun _ _ _ inv stepped stays => inv.step stepped stays
  have broken : ∀ (state : State) (action : Action) (after : State), state.Inv →
      state.step action = some after → action.IsExit → ¬after.Released :=
    fun _ _ _ _ stepped exits => State.not_released_of_exit stepped exits
  exact Transition.foldlM_prefix_iff (fun _ inv => inv.released) kept broken
    (State.inv_initial threads) ran

/-- One record whose block returns, and the delivery of NULL by another thread. -/
def quietScan : List Action :=
  [.call 0 .scanEach, .deliver 0 0 (.scanEach false), .advance 0, .advance 0, .advance 0,
    .advance 0, .advance 0, .deliver 1 0 (.scanEach true), .advance 1, .advance 1, .advance 1,
    .returns 0]

theorem released_iff_quietScan :
    ∃ final, quietScan.foldlM State.step (State.initial 2) = some final ∧ final.Released := by
  have possible : (quietScan.foldlM State.step (State.initial 2)).isSome := rfl
  rcases Option.isSome_iff_exists.mp possible with ⟨final, ran⟩
  have quiet : ∀ action ∈ quietScan, ¬action.IsExit := by
    simp [quietScan, Action.IsExit]
  exact ⟨final, ran, (released_iff ran).mpr quiet _ (List.prefix_refl _) final ran⟩

/-- The block raises at the first record: `scan_each` is left, and the callbacks of every other
thread wait for the mutex. -/
theorem mutex_kept_after_raise :
    ∃ final, [.call 0 .scanEach, .deliver 0 0 (.scanEach false), .advance 0, .advance 0,
        .exit 0 1].foldlM State.step (State.initial 2) = some final ∧
      final.calls = [] ∧ final.mutex.lock 1 = none ∧ final.left = [[.acquired]] ∧
      ¬final.Released := by
  refine ⟨_, rfl, rfl, rfl, rfl, fun released => ?_⟩
  have history := released.once [.acquired] (by decide)
  revert history
  decide

end AerospikeCRuby.CallbackMutex
