import AerospikeCRuby.Results.CallbackMutex

/-!
# Waiting for the callback mutex

The callbacks of all calls exclude each other, also after a block has raised.
A callback that is left by longjmp keeps the mutex from every other thread for
good.  As long as none is left, calls can fail to complete in one way only: a
block calls the client, and a callback of that call is handed to another thread.
-/

namespace AerospikeCRuby.CallbackMutex

open AssocList (keys)

namespace Activation

variable (activation : Activation)

theorem rest_of_history (waiting : activation.history = []) :
    ∃ later, activation.rest = .lock :: later := by
  rcases activation.callback.body_eq with ⟨middle, body⟩
  have whole := activation.whole
  rw [body] at whole
  cases done : activation.done with
  | nil =>
      rw [done, List.nil_append] at whole
      exact ⟨_, whole⟩
  | cons first before =>
      rw [done, List.cons_append, List.cons.injEq] at whole
      rw [history, done, whole.1] at waiting
      cases waiting

end Activation

namespace State

/-- A step, as a change of the stack of one thread. -/
inductive Move (state : State) (thread : ℕ) : Action → State → Prop where
  | call (source : Source) (inside : thread < state.threads)
      (ruby : inRuby (state.frames thread)) :
      Move state thread (.call thread source) (state.begin_ thread source)
  | deliver (call : ℕ) (callback : Callback) (inside : thread < state.threads)
      (active : (call, callback.source) ∈ state.calls)
      (serving : serves call (state.frames thread)) :
      Move state thread (.deliver thread call callback)
        (state.setStack thread
          (.callback (Activation.start call callback) :: state.frames thread))
  | finish {activation : Activation} {below : List Frame}
      (top : state.frames thread = .callback activation :: below)
      (returned : activation.rest = []) :
      Move state thread (.advance thread)
        { state.setStack thread below with left := activation.history :: state.left }
  | lock {activation : Activation} {below : List Frame} {later : List Statement}
      {mutex : RecursiveMutex ℕ} (top : state.frames thread = .callback activation :: below)
      (rest : activation.rest = .lock :: later) (locked : state.mutex.lock thread = some mutex) :
      Move state thread (.advance thread)
        { state.setStack thread (.callback activation.next :: below) with mutex := mutex }
  | unlock {activation : Activation} {below : List Frame} {later : List Statement}
      (top : state.frames thread = .callback activation :: below)
      (rest : activation.rest = .unlock :: later) :
      Move state thread (.advance thread)
        { state.setStack thread (.callback activation.next :: below) with
          mutex := state.mutex.unlock thread }
  | silent {activation : Activation} {below : List Frame} {statement : Statement}
      {later : List Statement} (top : state.frames thread = .callback activation :: below)
      (rest : activation.rest = statement :: later) (plain : statement.event = none) :
      Move state thread (.advance thread)
        (state.setStack thread (.callback activation.next :: below))
  | returns {call : ℕ} {below : List Frame} (top : state.frames thread = .foreach call :: below)
      (finished : state.Finished call) :
      Move state thread (.returns thread)
        { state.setStack thread below with
          calls := state.calls.filter fun other => other.1 ≠ call }
  | exit {top : Frame} {rest : List Frame} (below : ℕ) (frames : state.frames thread = top :: rest)
      (raises : top.raises) (ruby : inRuby (rest.drop below)) :
      Move state thread (.exit thread below) (state.unwind thread (below + 1))

variable {state after : State} {thread other : ℕ} {action : Action}

theorem move_of_execute {activation : Activation} {below : List Frame}
    (top : state.frames thread = .callback activation :: below)
    (stepped : state.execute thread activation below = some after) :
    Move state thread (.advance thread) after := by
  rw [execute] at stepped
  cases rest : activation.rest with
  | nil =>
      rw [rest] at stepped
      cases stepped
      exact .finish top rest
  | cons statement later =>
      rw [rest] at stepped
      cases statement with
      | lock =>
          rcases Option.map_eq_some_iff.mp stepped with ⟨mutex, locked, rfl⟩
          exact .lock top rest locked
      | unlock =>
          cases stepped
          exact .unlock top rest
      | record2hash | call | link =>
          cases stepped
          exact .silent top rest rfl

/-- Everything a step can do. -/
theorem move_of_step (stepped : state.step action = some after) :
    ∃ thread, Move state thread action after := by
  cases action with
  | call thread source =>
      rw [step, Option.ite_none_right_eq_some, Option.some.injEq] at stepped
      rcases stepped with ⟨⟨inside, ruby⟩, rfl⟩
      exact ⟨thread, .call source inside ruby⟩
  | deliver thread call callback =>
      rw [step, Option.ite_none_right_eq_some, Option.some.injEq] at stepped
      rcases stepped with ⟨⟨inside, active, serving⟩, rfl⟩
      exact ⟨thread, .deliver call callback inside active serving⟩
  | advance thread =>
      rw [step] at stepped
      split at stepped
      · rename_i top
        exact ⟨thread, move_of_execute top stepped⟩
      · cases stepped
  | returns thread =>
      rw [step] at stepped
      split at stepped
      · rename_i call below top
        rw [Option.ite_none_right_eq_some, Option.some.injEq] at stepped
        rcases stepped with ⟨finished, rfl⟩
        exact ⟨thread, .returns top finished⟩
      · cases stepped
  | exit thread below =>
      rw [step, Option.ite_none_right_eq_some, Option.some.injEq] at stepped
      rcases stepped with ⟨⟨raises, _, ruby⟩, rfl⟩
      cases frames : state.frames thread with
      | nil => simp [frames] at raises
      | cons top rest =>
          rw [frames] at raises ruby
          exact ⟨thread, .exit below frames (by simpa using raises) (by simpa using ruby)⟩

/-- The stacks of the other threads stay. -/
theorem Move.frames_of_ne (move : Move state thread action after) (differ : other ≠ thread) :
    after.frames other = state.frames other := by
  cases move <;> exact Function.update_of_ne differ _ _

/-- A thread holds the mutex at least as often as callbacks on its stack have taken it. -/
def Covered (state : State) : Prop :=
  ∀ thread, (state.frames thread).countP Frame.holds ≤ state.mutex.depth thread

theorem covered_initial (threads : ℕ) : (initial threads).Covered :=
  fun _ => le_refl _

section Depths

variable (move : Move state thread action after) (covered : state.Covered)
include move covered

theorem Move.depth_of_ne (differ : other ≠ thread) :
    after.mutex.depth other = state.mutex.depth other := by
  cases move with
  | lock top rest locked => exact RecursiveMutex.depth_lock_of_ne locked differ
  | unlock top rest =>
      apply RecursiveMutex.depth_unlock_of_ne _ differ
      apply lt_of_lt_of_le _ (covered thread)
      rw [top, List.countP_cons]
      simp [Frame.holds, Activation.history_of_unlock _ rest]
  | _ => rfl

/-- What a thread holds beyond what its callbacks have taken never shrinks. -/
theorem Move.excess (other : ℕ) :
    state.mutex.depth other + (after.frames other).countP Frame.holds ≤
      after.mutex.depth other + (state.frames other).countP Frame.holds := by
  by_cases here : other = thread
  · subst here
    have covers := covered other
    cases move with
    | call source inside ruby => simp [begin_, setStack, Frame.holds]
    | deliver call callback inside active serving =>
        simp [setStack, Frame.holds, Activation.history, Activation.start]
    | finish top returned =>
        simp [setStack, top, Frame.holds, Activation.history_of_returned _ returned]
    | @lock activation below later mutex top rest locked =>
        have before := activation.history_of_lock rest
        have history := activation.history_next
        rw [before, rest] at history
        simp only [setStack, Function.update_self, top, List.countP_cons, Frame.holds, before,
          history, RecursiveMutex.depth_lock_self locked]
        simp [Statement.event]
        omega
    | @unlock activation below later top rest =>
        have before := activation.history_of_unlock rest
        have history := activation.history_next
        rw [before, rest] at history
        rw [top, List.countP_cons] at covers
        have held : 0 < state.mutex.depth other := by
          apply lt_of_lt_of_le _ covers
          simp [Frame.holds, before]
        simp only [setStack, Function.update_self, top, List.countP_cons, Frame.holds, before,
          history, RecursiveMutex.depth_unlock_self held]
        simp [Statement.event]
        omega
    | @silent activation below statement later top rest plain =>
        have history := activation.history_next
        rw [rest] at history
        simp only [List.take_one, List.head?_cons, Option.toList_some, List.filterMap_cons, plain,
          List.filterMap_nil, List.append_nil] at history
        simp [setStack, top, List.countP_cons, Frame.holds, history]
    | returns top finished => simp [setStack, top, Frame.holds]
    | exit below frames raises ruby =>
        have dropped := List.drop_sublist (below + 1) (state.frames other)
        have fewer := dropped.countP_le (p := Frame.holds)
        simp only [unwind, setStack, Function.update_self]
        omega
  · rw [move.depth_of_ne covered here, move.frames_of_ne here]

end Depths

theorem Covered.move (covered : state.Covered) (move : Move state thread action after) :
    after.Covered := by
  intro other
  have excess := move.excess covered other
  have covers := covered other
  omega

/-- A callback that is left has taken the mutex and does not give it back. -/
theorem Move.excess_of_exit {below : ℕ} (move : Move state thread (.exit other below) after) :
    state.mutex.depth other + (after.frames other).countP Frame.holds <
      after.mutex.depth other + (state.frames other).countP Frame.holds := by
  cases move with
  | @exit top rest below frames raises ruby =>
      have holds : top.holds := by
        cases top with
        | foreach => cases raises
        | callback activation => simp [Frame.holds, activation.history_of_raises raises]
      have fewer := (List.drop_sublist below rest).countP_le (p := Frame.holds)
      simp only [unwind, setStack, Function.update_self, frames, List.drop_succ_cons,
        List.countP_cons, holds, if_true]
      omega

theorem Covered.run {actions : List Action} (covered : state.Covered)
    (ran : actions.foldlM step state = some after) : after.Covered := by
  refine Transition.foldlM_invariant ?_ covered ran
  intro action _ state next covered stepped
  rcases move_of_step stepped with ⟨_, move⟩
  exact covered.move move

theorem Covered.depth_pos (covered : state.Covered) {frame : Frame}
    (member : frame ∈ state.frames thread) (holds : frame.holds) :
    0 < state.mutex.depth thread :=
  lt_of_lt_of_le (List.countP_pos_iff.mpr ⟨frame, member, holds⟩) (covered thread)

end State

/-- The next statement is one between `pthread_mutex_lock` and `pthread_mutex_unlock`. -/
def Frame.inside : Frame → Bool
  | foreach _ => false
  | callback activation => activation.rest.head?.any fun statement => statement.event.isNone

theorem Frame.holds_of_inside {frame : Frame} (inside : frame.inside) : frame.holds := by
  cases frame with
  | foreach call => cases inside
  | callback activation =>
      rcases (Option.any_eq_true ..).mp inside with ⟨statement, head, silent⟩
      rcases List.head?_eq_some_iff.mp head with ⟨later, rest⟩
      simp [holds, activation.history_of_silent rest (Option.isNone_iff_eq_none.mp silent)]

/-- In every run, also where blocks raise or call the client, two threads never convert or append
records or run blocks at the same time. -/
theorem inside_exclusive {threads : ℕ} {actions : List Action} {final : State}
    (ran : actions.foldlM State.step (State.initial threads) = some final) {thread other : ℕ}
    (here : (final.frames thread).any Frame.inside)
    (there : (final.frames other).any Frame.inside) : thread = other := by
  have covered := (State.covered_initial threads).run ran
  rcases List.any_eq_true.mp here with ⟨frame, member, inside⟩
  rcases List.any_eq_true.mp there with ⟨frame', member', inside'⟩
  have held := covered.depth_pos member (Frame.holds_of_inside inside)
  have held' := covered.depth_pos member' (Frame.holds_of_inside inside')
  exact RecursiveMutex.eq_of_depth_pos held held'

/-- A block of `scan_each` calls the client, and its thread runs two blocks. -/
def nestedScan : List Action :=
  [.call 0 .scanEach, .deliver 0 0 (.scanEach false), .advance 0, .advance 0, .call 0 .scanEach,
    .deliver 0 1 (.scanEach false), .advance 0, .advance 0]

theorem inside_exclusive_nestedScan :
    ∃ final, nestedScan.foldlM State.step (State.initial 2) = some final ∧
      (final.frames 0).countP Frame.inside = 2 ∧
      ∀ other, (final.frames other).any Frame.inside → 0 = other := by
  have possible : (nestedScan.foldlM State.step (State.initial 2)).isSome := rfl
  rcases Option.isSome_iff_exists.mp possible with ⟨final, ran⟩
  have both : (final.frames 0).countP Frame.inside = 2 := by
    cases ran
    rfl
  refine ⟨final, ran, both, ?_⟩
  intro other there
  refine inside_exclusive ran ?_ there
  rw [List.any_eq_true, ← List.countP_pos_iff, both]
  decide

namespace Frame

def call : Frame → ℕ
  | foreach call => call
  | callback activation => activation.call

/-- What stands directly below a frame: the call whose callback it is, or the block that makes
the call. -/
def RestsOn : Frame → Frame → Prop
  | callback activation, lower => lower = .foreach activation.call
  | foreach call, lower => lower.inBlock ∧ lower.call < call

end Frame

namespace State

/-- How the stacks and the calls belong together. -/
structure Shaped (state : State) : Prop where
  chain : ∀ thread, (state.frames thread).IsChain Frame.RestsOn
  started : ∀ thread, ∀ frame ∈ state.frames thread, frame.call < state.nextCall
  known : ∀ call ∈ keys state.calls, call < state.nextCall
  awaited : ∀ call ∈ keys state.calls, ∃ thread, .foreach call ∈ state.frames thread
  outside : ∀ thread, state.threads ≤ thread → state.frames thread = []

theorem shaped_initial (threads : ℕ) : (initial threads).Shaped where
  chain _ := .nil
  started _ _ member := by cases member
  known _ member := by cases member
  awaited _ member := by cases member
  outside _ _ := rfl

section Shapes

variable {state after : State} {thread other : ℕ} {action : Action} {stack below : List Frame}
  {activation : Activation}

/-- The stacks after one of them has changed. -/
theorem Shaped.change (shaped : state.Shaped) (inside : thread < state.threads)
    (threads : after.threads = state.threads)
    (frames : after.frames = Function.update state.frames thread stack)
    (later : state.nextCall ≤ after.nextCall) (chain : stack.IsChain Frame.RestsOn)
    (started : ∀ frame ∈ stack, frame.call < after.nextCall)
    (known : ∀ call ∈ keys after.calls, call < after.nextCall)
    (awaited : ∀ call ∈ keys after.calls, .foreach call ∈ stack ∨
      ∃ other, other ≠ thread ∧ .foreach call ∈ state.frames other) : after.Shaped where
  chain := by
    rw [frames]
    apply (Function.forall_update_iff state.frames fun _ stack => stack.IsChain Frame.RestsOn).mpr
    exact ⟨chain, fun other _ => shaped.chain other⟩
  started := by
    rw [frames]
    apply (Function.forall_update_iff state.frames fun _ stack =>
      ∀ frame ∈ stack, frame.call < after.nextCall).mpr
    refine ⟨started, ?_⟩
    intro other _ frame member
    exact lt_of_lt_of_le (shaped.started other frame member) later
  known := known
  awaited := by
    intro call active
    rw [frames]
    rcases awaited call active with here | ⟨other, differ, there⟩
    · exact ⟨thread, by simpa using here⟩
    · exact ⟨other, by simpa [differ] using there⟩
  outside := by
    intro other beyond
    rw [threads] at beyond
    have differ : other ≠ thread := by
      rintro rfl
      omega
    rw [frames, Function.update_of_ne differ, shaped.outside other beyond]

theorem Shaped.inside (shaped : state.Shaped) (some : state.frames thread ≠ []) :
    thread < state.threads := by
  by_contra beyond
  exact some (shaped.outside thread (not_lt.mp beyond))

/-- A callback goes on or returns. -/
theorem Shaped.advance (shaped : state.Shaped)
    (top : state.frames thread = .callback activation :: below)
    (stack : List Frame) (chosen : stack = below ∨ stack = .callback activation.next :: below)
    (threads : after.threads = state.threads)
    (frames : after.frames = Function.update state.frames thread stack)
    (same : after.nextCall = state.nextCall) (calls : after.calls = state.calls) :
    after.Shaped := by
  have chain := shaped.chain thread
  have started := shaped.started thread
  rw [top] at chain started
  rw [List.isChain_cons] at chain
  refine shaped.change (shaped.inside (by simp [top])) threads frames same.ge ?_ ?_ ?_ ?_
  · rcases chosen with rfl | rfl
    · exact chain.2
    · exact List.isChain_cons.mpr chain
  · intro frame member
    rw [same]
    rcases chosen with rfl | rfl
    · exact started frame (List.mem_cons_of_mem _ member)
    · rcases List.mem_cons.mp member with rfl | older
      · exact started (.callback activation) List.mem_cons_self
      · exact started frame (List.mem_cons_of_mem _ older)
  · rw [calls, same]
    exact shaped.known
  · intro call active
    rw [calls] at active
    rcases shaped.awaited call active with ⟨other, waiting⟩
    by_cases here : other = thread
    · subst here
      rw [top] at waiting
      have older : .foreach call ∈ below := by simpa using waiting
      rcases chosen with rfl | rfl
      · exact .inl older
      · exact .inl (List.mem_cons_of_mem _ older)
    · exact .inr ⟨other, here, waiting⟩

theorem Shaped.call {source : Source} (shaped : state.Shaped) (inside : thread < state.threads)
    (ruby : inRuby (state.frames thread)) : (state.begin_ thread source).Shaped := by
  have started := shaped.started thread
  refine shaped.change inside rfl rfl (Nat.le_succ _) ?_ ?_ ?_ ?_
  · rw [List.isChain_cons]
    refine ⟨?_, shaped.chain thread⟩
    intro lower head
    rcases List.head?_eq_some_iff.mp head with ⟨rest, frames⟩
    rw [frames] at ruby started
    exact ⟨ruby, started lower List.mem_cons_self⟩
  · intro frame member
    rcases List.mem_cons.mp member with rfl | older
    · exact Nat.lt_succ_self _
    · exact Nat.lt_succ_of_lt (started frame older)
  · intro call active
    rcases List.mem_cons.mp active with rfl | older
    · exact Nat.lt_succ_self _
    · exact Nat.lt_succ_of_lt (shaped.known call older)
  · intro call active
    rcases List.mem_cons.mp active with rfl | older
    · exact .inl List.mem_cons_self
    · rcases shaped.awaited call older with ⟨other, waiting⟩
      by_cases here : other = thread
      · subst here
        exact .inl (List.mem_cons_of_mem _ waiting)
      · exact .inr ⟨other, here, waiting⟩

theorem Shaped.deliver {call : ℕ} {callback : Callback} (shaped : state.Shaped)
    (inside : thread < state.threads) (active : (call, callback.source) ∈ state.calls)
    (serving : serves call (state.frames thread)) :
    (state.setStack thread
      (.callback (Activation.start call callback) :: state.frames thread)).Shaped := by
  have known : call < state.nextCall := shaped.known call (List.mem_map_of_mem active)
  refine shaped.change inside rfl rfl (le_refl _) ?_ ?_ shaped.known ?_
  · rw [List.isChain_cons]
    refine ⟨?_, shaped.chain thread⟩
    intro lower head
    rcases List.head?_eq_some_iff.mp head with ⟨rest, frames⟩
    rw [frames, serves] at serving
    cases lower with
    | foreach other => simpa [Frame.isForeach, Frame.RestsOn, Activation.start] using serving
    | callback activation => cases serving
  · intro frame member
    rcases List.mem_cons.mp member with rfl | older
    · exact known
    · exact shaped.started thread frame older
  · intro other active
    rcases shaped.awaited other active with ⟨waiter, waiting⟩
    by_cases here : waiter = thread
    · subst here
      exact .inl (List.mem_cons_of_mem _ waiting)
    · exact .inr ⟨waiter, here, waiting⟩

/-- Frames come off the stack, and the calls among them end. -/
theorem Shaped.drop {calls : List (ℕ × Source)} (shaped : state.Shaped) (count : ℕ)
    (inside : thread < state.threads) (threads : after.threads = state.threads)
    (frames : after.frames =
      Function.update state.frames thread ((state.frames thread).drop count))
    (same : after.nextCall = state.nextCall) (remain : after.calls = calls)
    (known : ∀ call ∈ keys calls, call ∈ keys state.calls)
    (ended : ∀ call ∈ keys calls, .foreach call ∉ (state.frames thread).take count) :
    after.Shaped := by
  refine shaped.change inside threads frames same.ge ((shaped.chain thread).drop count) ?_ ?_ ?_
  · intro frame member
    rw [same]
    exact shaped.started thread frame (List.mem_of_mem_drop member)
  · rw [remain, same]
    exact fun call active => shaped.known call (known call active)
  · rw [remain]
    intro call active
    rcases shaped.awaited call (known call active) with ⟨waiter, waiting⟩
    by_cases here : waiter = thread
    · subst here
      rw [← List.take_append_drop count (state.frames waiter), List.mem_append] at waiting
      exact .inl (waiting.resolve_left (ended call active))
    · exact .inr ⟨waiter, here, waiting⟩

theorem Shaped.move (shaped : state.Shaped) (move : Move state thread action after) :
    after.Shaped := by
  cases move with
  | call source inside ruby => exact shaped.call inside ruby
  | deliver call callback inside active serving => exact shaped.deliver inside active serving
  | finish top returned => exact shaped.advance top _ (.inl rfl) rfl rfl rfl rfl
  | lock top rest locked => exact shaped.advance top _ (.inr rfl) rfl rfl rfl rfl
  | unlock top rest => exact shaped.advance top _ (.inr rfl) rfl rfl rfl rfl
  | silent top rest plain => exact shaped.advance top _ (.inr rfl) rfl rfl rfl rfl
  | @returns call below top finished =>
      have inside : thread < state.threads := shaped.inside (by simp [top])
      refine shaped.drop 1 inside rfl ?_ rfl rfl ?_ ?_
      · simp [setStack, top]
      · intro other active
        rcases List.mem_map.mp active with ⟨entry, member, rfl⟩
        exact List.mem_map_of_mem (List.mem_of_mem_filter member)
      · intro other active
        rcases List.mem_map.mp active with ⟨entry, member, rfl⟩
        have differ : entry.1 ≠ call := by simpa using List.of_mem_filter member
        simpa [top] using differ
  | @exit top rest below frames raises ruby =>
      have inside : thread < state.threads := shaped.inside (by simp [frames])
      refine shaped.drop (below + 1) inside rfl rfl rfl rfl ?_ ?_
      · intro other active
        rcases List.mem_map.mp active with ⟨entry, member, rfl⟩
        exact List.mem_map_of_mem (List.mem_of_mem_filter member)
      · intro other active gone
        rcases List.mem_map.mp active with ⟨entry, member, rfl⟩
        have stays := List.of_mem_filter member
        rw [Bool.not_eq_true', List.any_eq_false] at stays
        simpa [Frame.isForeach] using stays _ gone

theorem Shaped.run {actions : List Action} (shaped : state.Shaped)
    (ran : actions.foldlM step state = some after) : after.Shaped := by
  refine Transition.foldlM_invariant ?_ shaped ran
  intro action _ state next shaped stepped
  rcases move_of_step stepped with ⟨_, move⟩
  exact shaped.move move

theorem history_of_inBlock (inBlock : (Frame.callback activation).inBlock) :
    activation.history = [.acquired] := by
  apply activation.history_of_raises
  simp only [Frame.inBlock] at inBlock
  simp [Frame.raises, inBlock]

/-- A callback which has not taken the mutex yet is on top of its stack. -/
theorem Shaped.top_of_waiting (shaped : state.Shaped)
    (member : .callback activation ∈ state.frames thread) (waiting : activation.history = []) :
    ∃ below, state.frames thread = .callback activation :: below := by
  rcases List.append_of_mem member with ⟨upper, below, frames⟩
  rcases List.eq_nil_or_concat upper with rfl | ⟨above, direct, rfl⟩
  · exact ⟨below, frames⟩
  · have chain := shaped.chain thread
    rw [frames, List.concat_eq_append, List.append_assoc, List.singleton_append,
      List.isChain_append_cons_cons] at chain
    have rests := chain.2.1
    cases direct with
    | foreach call =>
        rw [history_of_inBlock rests.1] at waiting
        cases waiting
    | callback => cases rests

/-- A thread at `pthread_mutex_lock` stays there while another thread holds the mutex. -/
theorem Move.frames_of_waiting (move : Move state thread action after) {holder waiter : ℕ}
    (held : 0 < state.mutex.depth holder) (differ : waiter ≠ holder)
    (top : state.frames waiter = .callback activation :: below)
    (waiting : activation.history = []) : after.frames waiter = state.frames waiter := by
  by_cases here : waiter = thread
  · subst here
    rcases activation.rest_of_history waiting with ⟨later, locks⟩
    cases move with
    | call source inside ruby => simp [top, inRuby, Frame.inBlock, locks] at ruby
    | deliver call callback inside active serving =>
        simp [top, serves, Frame.isForeach] at serving
    | finish top' returned =>
        cases top.symm.trans top'
        rw [locks] at returned
        cases returned
    | lock top' rest locked =>
        rw [RecursiveMutex.lock_eq_none held differ] at locked
        cases locked
    | unlock top' rest =>
        cases top.symm.trans top'
        rw [locks] at rest
        cases rest
    | silent top' rest plain =>
        cases top.symm.trans top'
        rw [locks] at rest
        cases rest
        cases plain
    | returns top' finished => cases top.symm.trans top'
    | exit below frames raises ruby =>
        cases top.symm.trans frames
        simp [Frame.raises, locks] at raises
  · exact move.frames_of_ne here

end Shapes

/-- A thread holds the mutex more often than callbacks on its stack have taken it. -/
def Kept (state : State) (thread : ℕ) : Prop :=
  (state.frames thread).countP Frame.holds < state.mutex.depth thread

section Kept

variable {state after : State} {thread other : ℕ} {action : Action}

theorem Kept.held (kept : state.Kept thread) : 0 < state.mutex.depth thread :=
  Nat.zero_lt_of_lt kept

theorem Kept.move (kept : state.Kept other) (covered : state.Covered)
    (move : Move state thread action after) : after.Kept other := by
  have excess := move.excess covered other
  unfold Kept at kept ⊢
  omega

theorem kept_of_exit {below : ℕ} (covered : state.Covered)
    (stepped : state.step (.exit thread below) = some after) : after.Kept thread := by
  rcases move_of_step stepped with ⟨_, move⟩
  have excess := move.excess_of_exit
  have covers := covered thread
  unfold Kept
  omega

end Kept

/-- What a run keeps once a callback was left. -/
structure Lost (thread : ℕ) (state : State) : Prop where
  covered : state.Covered
  shaped : state.Shaped
  kept : state.Kept thread

section Lost

variable {state after : State} {thread other : ℕ} {actions : List Action}

theorem Lost.step {action : Action} (lost : state.Lost thread)
    (stepped : state.step action = some after) : after.Lost thread := by
  rcases move_of_step stepped with ⟨_, move⟩
  exact ⟨lost.covered.move move, lost.shaped.move move, lost.kept.move lost.covered move⟩

theorem Lost.run (lost : state.Lost thread) (ran : actions.foldlM State.step state = some after) :
    after.Lost thread :=
  Transition.foldlM_invariant (fun _ _ _ _ lost stepped => lost.step stepped) lost ran

theorem Lost.outside (lost : state.Lost thread) (differ : other ≠ thread) :
    ¬(state.frames other).any Frame.inside := by
  intro inside
  rcases List.any_eq_true.mp inside with ⟨frame, member, works⟩
  have held := lost.covered.depth_pos member (Frame.holds_of_inside works)
  exact differ (RecursiveMutex.eq_of_depth_pos held lost.kept.held)

theorem Lost.waits {activation : Activation} (lost : state.Lost thread) (differ : other ≠ thread)
    (member : .callback activation ∈ state.frames other) (waiting : activation.history = [])
    (ran : actions.foldlM State.step state = some after) :
    after.frames other = state.frames other := by
  rcases lost.shaped.top_of_waiting member waiting with ⟨below, top⟩
  have kept : ∀ action ∈ actions, ∀ mid next : State,
      mid.Lost thread ∧ mid.frames other = state.frames other → mid.step action = some next →
        next.Lost thread ∧ next.frames other = state.frames other := by
    rintro action _ mid next ⟨lost', same⟩ stepped
    refine ⟨lost'.step stepped, ?_⟩
    rcases move_of_step stepped with ⟨_, move⟩
    rw [← same] at top
    rw [move.frames_of_waiting lost'.kept.held differ top waiting, same]
  exact (Transition.foldlM_invariant kept ⟨lost, rfl⟩ ran).2

end Lost

end State

/-- Once a callback is left by longjmp, no other thread ever takes the mutex again or is in a
block or an append, and a callback of another thread that has yet to take it never returns; so
its call does not finish. -/
theorem locked_out_of_exit {threads thread below : ℕ} {before later : List Action}
    {left final : State}
    (ran : (before ++ [Action.exit thread below]).foldlM State.step (State.initial threads) =
      some left)
    (continued : later.foldlM State.step left = some final) {other : ℕ} (differ : other ≠ thread) :
    final.mutex.lock other = none ∧ ¬(final.frames other).any Frame.inside ∧
      ∀ activation, .callback activation ∈ left.frames other → activation.history = [] →
        final.frames other = left.frames other ∧ ¬final.Finished activation.call := by
  rw [List.foldlM_append] at ran
  rcases Option.bind_eq_some_iff.mp ran with ⟨mid, first, exited⟩
  have stepped : mid.step (.exit thread below) = some left := by
    simpa using exited
  have covered := (State.covered_initial threads).run first
  have shaped := (State.shaped_initial threads).run first
  rcases State.move_of_step stepped with ⟨_, move⟩
  have lost : left.Lost thread :=
    ⟨covered.move move, shaped.move move, State.kept_of_exit covered stepped⟩
  have ended := lost.run continued
  refine ⟨RecursiveMutex.lock_eq_none ended.kept.held differ, ended.outside differ, ?_⟩
  intro activation member waiting
  have same := lost.waits differ member waiting continued
  refine ⟨same, fun finished => ?_⟩
  rw [← same] at member
  have none_ := List.all_eq_true.mp
    (finished other (ended.shaped.inside (List.ne_nil_of_mem member))) _ member
  simp [Frame.isCallbackOf] at none_

/-- The block of the first record is running, and another thread has begun with the second. -/
def twoRecords : List Action :=
  [.call 0 .scanEach, .deliver 0 0 (.scanEach false), .advance 0, .advance 0,
    .deliver 1 0 (.scanEach false)]

/-- The block raises; a later call does not help. -/
theorem locked_out_of_exit_twoRecords : ∃ left final,
    (twoRecords ++ [Action.exit 0 1]).foldlM State.step (State.initial 2) = some left ∧
    [Action.call 0 .buffered].foldlM State.step left = some final ∧
    final.mutex.lock 1 = none ∧ final.frames 1 = left.frames 1 ∧ final.frames 1 ≠ [] := by
  refine ⟨_, _, rfl, rfl, ?_⟩
  have locked := @locked_out_of_exit 2 0 1 twoRecords [.call 0 .buffered] _ _ rfl rfl 1 (by decide)
  refine ⟨locked.1, (locked.2.2 _ List.mem_cons_self rfl).1, ?_⟩
  simp [State.begin_, State.setStack, State.unwind]

end AerospikeCRuby.CallbackMutex
