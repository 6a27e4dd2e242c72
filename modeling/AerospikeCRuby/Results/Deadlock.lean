import AerospikeCRuby.Results.Blocking

/-!
# Calls inside blocks

A block may call the client.  Where a callback of that call is handed to another
thread, it waits for the mutex which the block holds, and the block waits for
it.  This is the only way in which calls block each other for good: from every
other state of a run without longjmps they can be completed.
-/

namespace AerospikeCRuby.CallbackMutex

open AssocList (keys)

/-- Somewhere in the stack a block holds the mutex and waits for the call. -/
def Nested (call : ℕ) : List Frame → Prop
  | [] => False
  | frame :: below => (frame = .foreach call ∧ below.any Frame.holds) ∨ Nested call below

theorem Nested.mem_of {call : ℕ} {stack : List Frame} (nested : Nested call stack) :
    ∃ frame ∈ stack, frame.holds := by
  induction stack with
  | nil => exact nested.elim
  | cons frame below ih =>
      rcases nested with ⟨_, held⟩ | deeper
      · rcases List.any_eq_true.mp held with ⟨holding, member, holds⟩
        exact ⟨holding, List.mem_cons_of_mem _ member, holds⟩
      · rcases ih deeper with ⟨holding, member, holds⟩
        exact ⟨holding, List.mem_cons_of_mem _ member, holds⟩

theorem Nested.foreach_mem {call : ℕ} {stack : List Frame} (nested : Nested call stack) :
    .foreach call ∈ stack := by
  induction stack with
  | nil => exact nested.elim
  | cons frame below ih =>
      rcases nested with ⟨rfl, _⟩ | deeper
      · exact List.mem_cons_self
      · exact List.mem_cons_of_mem _ (ih deeper)

theorem nested_callback_iff {call : ℕ} {activation : Activation} {below : List Frame} :
    Nested call (.callback activation :: below) ↔ Nested call below := by
  simp [Nested]

namespace State

/-- One thread holds the mutex and waits, in a block, for a call; a callback of that call waits
for the mutex on another thread. -/
structure Deadlocked (state : State) (call holder waiter : ℕ) : Prop where
  differ : waiter ≠ holder
  nested : Nested call (state.frames holder)
  waits : ∃ activation, .callback activation ∈ state.frames waiter ∧ activation.call = call ∧
    activation.history = []

variable {state after : State} {thread call holder waiter : ℕ} {action : Action}

section Stays

/-- What a run keeps after a deadlock. -/
structure Stuck (call holder waiter : ℕ) (stack : List Frame) (state : State) : Prop where
  covered : state.Covered
  shaped : state.Shaped
  differ : waiter ≠ holder
  held : state.Kept holder ∨ Nested call (state.frames holder)
  waits : state.frames waiter = stack

variable {stack below : List Frame} {activation : Activation}

theorem Stuck.depth_pos (stuck : state.Stuck call holder waiter stack) :
    0 < state.mutex.depth holder := by
  rcases stuck.held with kept | nested
  · exact kept.held
  · rcases nested.mem_of with ⟨frame, member, holds⟩
    exact stuck.covered.depth_pos member holds

theorem Stuck.not_finished (stuck : state.Stuck call holder waiter stack)
    (top : stack = .callback activation :: below) (same : activation.call = call) :
    ¬state.Finished call := by
  intro finished
  have member : .callback activation ∈ state.frames waiter := by
    rw [stuck.waits, top]
    exact List.mem_cons_self
  have none_ := List.all_eq_true.mp
    (finished waiter (stuck.shaped.inside (List.ne_nil_of_mem member))) _ member
  simp [Frame.isCallbackOf, same] at none_

/-- The call in the block is left by a longjmp only. -/
theorem Move.nested (move : Move state thread action after)
    (nested : Nested call (state.frames holder)) (unfinished : ¬state.Finished call)
    (stays : ∀ below, action ≠ .exit holder below) : Nested call (after.frames holder) := by
  by_cases here : holder = thread
  · subst here
    cases move with
    | call source inside ruby => simpa [begin_, setStack, Nested] using Or.inr nested
    | deliver call' callback inside active serving =>
        simpa [setStack, Nested] using nested
    | finish top returned | lock top rest locked | unlock top rest | silent top rest plain =>
        rw [top, nested_callback_iff] at nested
        simpa [setStack, nested_callback_iff] using nested
    | @returns call' below top finished =>
        rw [top] at nested
        rcases nested with ⟨same, _⟩ | deeper
        · cases same
          exact absurd finished unfinished
        · simpa [setStack] using deeper
    | exit below frames raises ruby => exact absurd rfl (stays below)
  · rwa [move.frames_of_ne here]

theorem Stuck.step (stuck : state.Stuck call holder waiter stack)
    (top : stack = .callback activation :: below) (same : activation.call = call)
    (waiting : activation.history = []) (stepped : state.step action = some after) :
    after.Stuck call holder waiter stack := by
  rcases move_of_step stepped with ⟨thread, move⟩
  refine ⟨stuck.covered.move move, stuck.shaped.move move, stuck.differ, ?_, ?_⟩
  · rcases stuck.held with kept | nested
    · exact .inl (kept.move stuck.covered move)
    · by_cases exits : ∃ below, action = .exit holder below
      · rcases exits with ⟨count, rfl⟩
        exact .inl (kept_of_exit stuck.covered stepped)
      · exact .inr (move.nested nested (stuck.not_finished top same) fun count leaves =>
          exits ⟨count, leaves⟩)
  · have frames := stuck.waits.trans top
    rw [move.frames_of_waiting stuck.depth_pos stuck.differ frames waiting, stuck.waits]

end Stays

end State

/-- A deadlock stays in every continuation: the waiting callback does not get the mutex, and the
call in the block is at most left by a longjmp. -/
theorem deadlock_stays {threads : ℕ} {before later : List Action} {state final : State}
    {call holder waiter : ℕ}
    (ran : before.foldlM State.step (State.initial threads) = some state)
    (deadlocked : state.Deadlocked call holder waiter)
    (continued : later.foldlM State.step state = some final) :
    final.frames waiter = state.frames waiter ∧ final.mutex.lock waiter = none ∧
      ¬final.Finished call ∧
      (.foreach call ∈ final.frames holder ∨ ∃ below, .exit holder below ∈ later) := by
  have covered := (State.covered_initial threads).run ran
  have shaped := (State.shaped_initial threads).run ran
  rcases deadlocked.waits with ⟨activation, member, same, waiting⟩
  rcases shaped.top_of_waiting member waiting with ⟨below, top⟩
  have begins : state.Stuck call holder waiter (state.frames waiter) :=
    ⟨covered, shaped, deadlocked.differ, .inr deadlocked.nested, rfl⟩
  have stuck : final.Stuck call holder waiter (state.frames waiter) :=
    Transition.foldlM_invariant (fun _ _ _ _ stuck stepped => stuck.step top same waiting stepped)
      begins continued
  refine ⟨stuck.waits, RecursiveMutex.lock_eq_none stuck.depth_pos stuck.differ,
    stuck.not_finished top same, ?_⟩
  by_cases left : ∃ below, .exit holder below ∈ later
  · exact .inr left
  have kept : ∀ action ∈ later, ∀ mid next : State,
      mid.Stuck call holder waiter (state.frames waiter) ∧ Nested call (mid.frames holder) →
        mid.step action = some next →
          next.Stuck call holder waiter (state.frames waiter) ∧
            Nested call (next.frames holder) := by
    rintro action member mid next ⟨stuck, nested⟩ stepped
    refine ⟨stuck.step top same waiting stepped, ?_⟩
    rcases State.move_of_step stepped with ⟨_, move⟩
    refine move.nested nested (stuck.not_finished top same) ?_
    rintro count rfl
    exact left ⟨count, member⟩
  exact .inl (Transition.foldlM_invariant kept ⟨begins, deadlocked.nested⟩ continued).2.foreach_mem

/-- The block of a record calls the client, and another thread begins with a record of that
call. -/
def nestedOnTwoThreads : List Action :=
  [.call 0 .scanEach, .deliver 0 0 (.scanEach false), .advance 0, .advance 0, .call 0 .queryEach,
    .deliver 1 1 (.queryEach false)]

/-- Not even the thread that waits runs the block of the inner call. -/
theorem deadlock_stays_nestedOnTwoThreads : ∃ state final,
    nestedOnTwoThreads.foldlM State.step (State.initial 2) = some state ∧
    [Action.deliver 0 1 (.queryEach false), .advance 0, .advance 0].foldlM State.step state =
      some final ∧
    ¬final.Finished 1 ∧ final.mutex.lock 1 = none := by
  refine ⟨_, _, rfl, rfl, ?_⟩
  have stays := @deadlock_stays 2 nestedOnTwoThreads
    [.deliver 0 1 (.queryEach false), .advance 0, .advance 0] _ _ 1 0 1 rfl ?_ rfl
  · exact ⟨stays.2.2.1, stays.2.1⟩
  · refine ⟨by decide, .inl ⟨rfl, rfl⟩, ⟨_, List.mem_cons_self, rfl, rfl⟩⟩

/-- The callbacks go on, and the calls return. -/
def Action.GoesOn : Action → Prop
  | .advance _ | .returns _ => True
  | _ => False

theorem Action.GoesOn.not_isExit {action : Action} (goesOn : action.GoesOn) : ¬action.IsExit := by
  cases action <;> first | exact id | exact goesOn.elim

/-- A thread calls the client outside of its blocks only. -/
def Action.OutsideBlocks (state : State) : Action → Prop
  | .call thread _ => state.frames thread = []
  | _ => True

theorem Action.GoesOn.outsideBlocks {state : State} {action : Action} (goesOn : action.GoesOn) :
    action.OutsideBlocks state := by
  cases action <;> trivial

theorem call_lt_of_chain {top : Frame} {rest : List Frame}
    (chain : (top :: rest).IsChain Frame.RestsOn) {lower : Frame} (member : lower ∈ rest) :
    lower.call ≤ top.call ∧ ∀ call, top = .foreach call → lower.call < call := by
  induction rest generalizing top with
  | nil => cases member
  | cons second rest ih =>
      rcases List.isChain_cons_cons.mp chain with ⟨rests, chain⟩
      have direct : second.call ≤ top.call ∧ ∀ call, top = .foreach call → second.call < call := by
        cases top with
        | foreach call =>
            refine ⟨rests.2.le, ?_⟩
            rintro _ ⟨⟩
            exact rests.2
        | callback activation =>
            rw [show second = .foreach activation.call from rests]
            exact ⟨le_refl _, nofun⟩
      rcases List.mem_cons.mp member with rfl | deeper
      · exact direct
      · have under := (ih chain deeper).1
        exact ⟨under.trans direct.1, fun call same => under.trans_lt (direct.2 call same)⟩

namespace State

section Progress

variable {state after : State} {thread : ℕ} {activation : Activation} {below : List Frame}

/-- A callback on top of its stack can go on unless it waits for the mutex. -/
theorem advances_or_waits (top : state.frames thread = .callback activation :: below) :
    (state.step (.advance thread)).isSome ∨
      activation.history = [] ∧ state.mutex.lock thread = none := by
  simp only [step, top, execute]
  cases rest : activation.rest with
  | nil => exact .inl rfl
  | cons statement later =>
      cases statement with
      | lock =>
          rw [Option.isSome_map]
          cases locked : state.mutex.lock thread with
          | none => exact .inr ⟨activation.history_of_lock rest, rfl⟩
          | some mutex => exact .inl rfl
      | unlock | record2hash | call | link => exact .inl rfl

theorem returns_of_finished {call : ℕ} (top : state.frames thread = .foreach call :: below)
    (finished : state.Finished call) : (state.step (.returns thread)).isSome := by
  simp [step, top, finished]

theorem exists_callback_of_unfinished {call : ℕ} (unfinished : ¬state.Finished call) :
    ∃ waiter activation, .callback activation ∈ state.frames waiter ∧ activation.call = call := by
  simp only [Finished, not_forall, List.all_eq_true] at unfinished
  rcases unfinished with ⟨waiter, _, frame, member, ofCall⟩
  cases frame with
  | foreach => simp [Frame.isCallbackOf] at ofCall
  | callback activation =>
      exact ⟨waiter, activation, member, by simpa [Frame.isCallbackOf] using ofCall⟩

theorem Shaped.holds_of_below (shaped : state.Shaped) {top : Frame} {rest : List Frame}
    (frames : state.frames thread = top :: rest) (member : .callback activation ∈ rest) :
    (Frame.callback activation).holds := by
  rcases List.append_of_mem member with ⟨upper, lower, rfl⟩
  rcases List.eq_nil_or_concat (top :: upper) with none_ | ⟨above, direct, last⟩
  · cases none_
  · have chain := shaped.chain thread
    rw [frames, ← List.cons_append, last, List.concat_eq_append, List.append_assoc,
      List.singleton_append, List.isChain_append_cons_cons] at chain
    have rests := chain.2.1
    cases direct with
    | foreach call => simp [Frame.holds, history_of_inBlock rests.1]
    | callback => cases rests

/-- A callback stands on top of some stack, unless a call can return. -/
theorem exists_top_callback (shaped : state.Shaped) {call : ℕ}
    (blocked : ∀ thread, ¬(state.step (.returns thread)).isSome)
    (top : state.frames thread = .foreach call :: below) :
    ∃ thread activation below, state.frames thread = .callback activation :: below := by
  induction remaining : state.nextCall - call using Nat.strong_induction_on
    generalizing thread call below with
  | _ remaining ih =>
      have unfinished : ¬state.Finished call := fun finished =>
        blocked thread (returns_of_finished top finished)
      rcases exists_callback_of_unfinished unfinished with ⟨waiter, activation, member, same⟩
      cases frames : state.frames waiter with
      | nil =>
          rw [frames] at member
          cases member
      | cons upper rest =>
          cases upper with
          | callback other => exact ⟨waiter, other, rest, frames⟩
          | foreach inner =>
              have chain := shaped.chain waiter
              rw [frames] at chain member
              have deeper : .callback activation ∈ rest := by simpa using member
              have later : call < inner := by
                rw [← same]
                exact (call_lt_of_chain chain deeper).2 inner rfl
              have known : inner < state.nextCall :=
                shaped.started waiter (.foreach inner) (by simp [frames])
              exact ih (state.nextCall - inner) (by omega) frames rfl

/-- A call that goes on has a callback on another thread than the one it waits on. -/
theorem Shaped.exists_callback_elsewhere (shaped : state.Shaped) {call : ℕ}
    (top : state.frames thread = .foreach call :: below) (unfinished : ¬state.Finished call) :
    ∃ waiter activation, waiter ≠ thread ∧ .callback activation ∈ state.frames waiter ∧
      activation.call = call := by
  rcases exists_callback_of_unfinished unfinished with ⟨waiter, activation, member, same⟩
  refine ⟨waiter, activation, ?_, member, same⟩
  rintro rfl
  have chain := shaped.chain waiter
  rw [top] at chain member
  have earlier := (call_lt_of_chain chain (by simpa using member)).2 call rfl
  exact absurd same earlier.ne

/-- A callback on a thread without the mutex is the uppermost one, and has not taken it yet. -/
theorem Shaped.history_of_no_depth (shaped : state.Shaped) (covered : state.Covered)
    (waits : ∀ {activation below}, state.frames thread = .callback activation :: below →
      activation.history = [])
    (member : .callback activation ∈ state.frames thread) (free : state.mutex.depth thread = 0) :
    activation.history = [] := by
  cases frames : state.frames thread with
  | nil =>
      rw [frames] at member
      cases member
  | cons top rest =>
      have deeper (below : .callback activation ∈ rest) : activation.history = [] := by
        have holds := shaped.holds_of_below frames below
        exact absurd free (covered.depth_pos member holds).ne'
      rw [frames] at member
      rcases List.mem_cons.mp member with rfl | below
      · exact waits frames
      · exact deeper below

/-- Where nothing can go on, two threads wait for each other. -/
theorem deadlocked_of_blocked (inv : state.Inv) (shaped : state.Shaped)
    (some : state.frames thread ≠ [])
    (blocked : ∀ thread, ¬(state.step (.advance thread)).isSome ∧
      ¬(state.step (.returns thread)).isSome) :
    ∃ call holder waiter, state.Deadlocked call holder waiter := by
  have covered : state.Covered := fun thread => (inv.depth thread).ge
  have waits {thread : ℕ} {activation : Activation} {below : List Frame}
      (top : state.frames thread = .callback activation :: below) :
      activation.history = [] ∧ state.mutex.lock thread = none :=
    (advances_or_waits top).resolve_left (blocked thread).1
  have tops : ∃ thread activation below, state.frames thread = .callback activation :: below := by
    rcases List.exists_cons_of_ne_nil some with ⟨upper, rest, frames⟩
    cases upper with
    | callback activation => exact ⟨thread, activation, rest, frames⟩
    | foreach call => exact exists_top_callback shaped (fun thread => (blocked thread).2) frames
  rcases tops with ⟨first, firstActivation, firstBelow, firstTop⟩
  -- The thread for which the first callback waits holds the mutex in a block.
  rcases RecursiveMutex.lock_eq_none_iff.mp (waits firstTop).2 with ⟨holder, _, held⟩
  have holding := held
  rw [inv.depth, List.countP_pos_iff] at holding
  rcases holding with ⟨frame, member, holds⟩
  cases frames : state.frames holder with
  | nil =>
      rw [frames] at member
      cases member
  | cons upper rest =>
      rw [frames] at member
      cases upper with
      | callback activation =>
          rcases RecursiveMutex.lock_eq_none_iff.mp (waits frames).2 with ⟨other, differ, held'⟩
          exact absurd (RecursiveMutex.eq_of_depth_pos held' held) differ
      | foreach call =>
          have below : frame ∈ rest := by
            rcases List.mem_cons.mp member with rfl | deeper
            · cases holds
            · exact deeper
          have unfinished : ¬state.Finished call := fun finished =>
            (blocked holder).2 (returns_of_finished frames finished)
          rcases shaped.exists_callback_elsewhere frames unfinished with
            ⟨waiter, activation, differ, inside, same⟩
          have free : state.mutex.depth waiter = 0 := by
            by_contra depth
            exact differ (RecursiveMutex.eq_of_depth_pos (Nat.pos_iff_ne_zero.mpr depth) held)
          refine ⟨call, holder, waiter, differ, ?_, activation, inside, same, ?_⟩
          · rw [frames]
            exact .inl ⟨rfl, List.any_eq_true.mpr ⟨frame, below, holds⟩⟩
          · exact shaped.history_of_no_depth covered (fun top => (waits top).1) inside free

end Progress

end State

namespace Frame

/-- How many steps a frame has before it. -/
def remaining : Frame → ℕ
  | foreach _ => 1
  | callback activation => activation.rest.length + 1

end Frame

namespace State

/-- How many steps the threads have before them. -/
def remaining (state : State) : ℕ :=
  ∑ thread ∈ Finset.range state.threads, ((state.frames thread).map Frame.remaining).sum

section Completion

variable {state after : State} {thread : ℕ} {action : Action}

theorem Move.remaining_lt (move : Move state thread action after) (shaped : state.Shaped)
    (goesOn : action.GoesOn) : after.remaining < state.remaining := by
  have shorter : ((after.frames thread).map Frame.remaining).sum <
      ((state.frames thread).map Frame.remaining).sum ∧ after.threads = state.threads ∧
      state.frames thread ≠ [] := by
    cases move with
    | call source inside ruby => exact goesOn.elim
    | deliver call callback inside active serving => exact goesOn.elim
    | finish top returned => simp [setStack, top, Frame.remaining]
    | lock top rest locked => simp [setStack, top, Frame.remaining, Activation.next, rest]
    | unlock top rest => simp [setStack, top, Frame.remaining, Activation.next, rest]
    | silent top rest plain => simp [setStack, top, Frame.remaining, Activation.next, rest]
    | returns top finished => simp [setStack, top, Frame.remaining]
    | exit below frames raises ruby => exact goesOn.elim
  rcases shorter with ⟨shorter, threads, some⟩
  rw [remaining, remaining, threads]
  apply Finset.sum_lt_sum
  · intro other _
    by_cases here : other = thread
    · rw [here]
      exact shorter.le
    · rw [move.frames_of_ne here]
  · exact ⟨thread, Finset.mem_range.mpr (shaped.inside some), shorter⟩

/-- A block waits for a call only if it makes it. -/
theorem Move.nested_of_nested {call other : ℕ} (move : Move state thread action after)
    (stays : ¬action.IsExit) (outside : action.OutsideBlocks state)
    (nested : Nested call (after.frames other)) : Nested call (state.frames other) := by
  by_cases here : other = thread
  · subst here
    cases move with
    | call source inside ruby =>
        have empty : state.frames other = [] := outside
        simp [begin_, setStack, Nested, empty] at nested
    | deliver call' callback inside active serving => simpa [setStack, Nested] using nested
    | finish top returned | lock top rest locked | unlock top rest | silent top rest plain =>
        rw [top, nested_callback_iff]
        simpa [setStack, nested_callback_iff] using nested
    | returns top finished =>
        rw [top]
        exact .inr (by simpa [setStack] using nested)
    | exit below frames raises ruby => exact absurd trivial stays
  · rwa [move.frames_of_ne here] at nested

/-- A callback that waits for the mutex has been there before. -/
theorem Move.waits_of_waits {call other : ℕ} (move : Move state thread action after)
    (goesOn : action.GoesOn)
    (waits : ∃ activation, .callback activation ∈ after.frames other ∧ activation.call = call ∧
      activation.history = []) :
    ∃ activation, .callback activation ∈ state.frames other ∧ activation.call = call ∧
      activation.history = [] := by
  by_cases here : other = thread
  · subst here
    rcases waits with ⟨activation, member, ofCall, waiting⟩
    have further {top : Activation} {below : List Frame}
        (frames : state.frames other = .callback top :: below)
        (either : activation = top.next ∨ .callback activation ∈ below) :
        ∃ activation, .callback activation ∈ state.frames other ∧ activation.call = call ∧
          activation.history = [] := by
      rcases either with rfl | deeper
      · rw [Activation.history_next, List.append_eq_nil_iff] at waiting
        exact ⟨top, by simp [frames], ofCall, waiting.1⟩
      · exact ⟨activation, by simp [frames, deeper], ofCall, waiting⟩
    cases move with
    | call source inside ruby => exact goesOn.elim
    | deliver call' callback inside active serving => exact goesOn.elim
    | finish top returned => exact further top (.inr (by simpa [setStack] using member))
    | lock top rest locked | unlock top rest | silent top rest plain =>
        exact further top (by simpa [setStack] using member)
    | returns top finished =>
        have older : .callback activation ∈ state.frames other := by
          rw [top]
          exact List.mem_cons_of_mem _ (by simpa [setStack] using member)
        exact ⟨activation, older, ofCall, waiting⟩
    | exit below frames raises ruby => exact goesOn.elim
  · rwa [move.frames_of_ne here] at waits

/-- Going on makes no deadlock. -/
theorem Move.deadlocked_of_goesOn {call holder waiter : ℕ}
    (move : Move state thread action after) (goesOn : action.GoesOn)
    (deadlocked : after.Deadlocked call holder waiter) :
    state.Deadlocked call holder waiter where
  differ := deadlocked.differ
  nested := move.nested_of_nested goesOn.not_isExit goesOn.outsideBlocks deadlocked.nested
  waits := move.waits_of_waits goesOn deadlocked.waits

/-- Without a deadlock the threads can go on until every call has returned. -/
theorem completes_of_not_deadlocked (inv : state.Inv) (shaped : state.Shaped)
    (free : ∀ call holder waiter, ¬state.Deadlocked call holder waiter) :
    ∃ (later : List Action) (final : State), (∀ action ∈ later, action.GoesOn) ∧
      later.foldlM step state = some final ∧
      ∀ thread, final.frames thread = [] := by
  induction measured : state.remaining using Nat.strong_induction_on generalizing state with
  | _ remaining ih =>
      by_cases quiet : ∀ thread, state.frames thread = []
      · exact ⟨[], state, by simp, rfl, quiet⟩
      · push Not at quiet
        rcases quiet with ⟨thread, some⟩
        have possible : ∃ action, Action.GoesOn action ∧ (state.step action).isSome := by
          by_contra none_
          push Not at none_
          rcases deadlocked_of_blocked inv shaped some fun thread =>
            ⟨none_ (.advance thread) trivial, none_ (.returns thread) trivial⟩ with
            ⟨call, holder, waiter, deadlocked⟩
          exact free call holder waiter deadlocked
        rcases possible with ⟨action, goesOn, enabled⟩
        rcases Option.isSome_iff_exists.mp enabled with ⟨next, stepped⟩
        rcases move_of_step stepped with ⟨_, move⟩
        rcases ih next.remaining (measured ▸ move.remaining_lt shaped goesOn)
          (inv.step stepped goesOn.not_isExit) (shaped.move move)
          (fun call holder waiter deadlocked =>
            free call holder waiter (move.deadlocked_of_goesOn goesOn deadlocked)) rfl with
          ⟨later, final, all, ran, quiet⟩
        refine ⟨action :: later, final, List.forall_mem_cons.mpr ⟨goesOn, all⟩, ?_, quiet⟩
        rw [List.foldlM_cons, stepped]
        exact ran

theorem Shaped.calls_of_quiet (shaped : state.Shaped)
    (quiet : ∀ thread, state.frames thread = []) : state.calls = [] := by
  rcases calls : state.calls with _ | ⟨⟨call, source⟩, rest⟩
  · rfl
  · rcases shaped.awaited call (by simp [keys, calls]) with ⟨thread, waiting⟩
    rw [quiet thread] at waiting
    cases waiting

end Completion

end State

/-- The threads can go on until every call has returned and the mutex is free. -/
def State.Completes (state : State) : Prop :=
  ∃ (later : List Action) (final : State), (∀ action ∈ later, action.GoesOn) ∧
    later.foldlM State.step state = some final ∧ final.calls = [] ∧
    ∀ thread, final.frames thread = [] ∧ (final.mutex.lock thread).isSome

theorem State.Inv.completes {state : State} (inv : state.Inv) (shaped : state.Shaped)
    (free : ∀ call holder waiter, ¬state.Deadlocked call holder waiter) : state.Completes := by
  rcases State.completes_of_not_deadlocked inv shaped free with
    ⟨later, final, goOn, continued, quiet⟩
  have ended := (shaped.run continued).calls_of_quiet quiet
  have inv' : final.Inv := by
    refine Transition.foldlM_invariant ?_ inv continued
    intro action member mid next inv stepped
    exact inv.step stepped (goOn action member).not_isExit
  exact ⟨later, final, goOn, continued, ended, fun thread =>
    ⟨quiet thread, inv'.released.free ended thread⟩⟩

/-- In a run without longjmps the calls in progress can be completed exactly if no two threads
wait for each other in this way. -/
theorem completes_iff {threads : ℕ} {actions : List Action} {state : State}
    (ran : actions.foldlM State.step (State.initial threads) = some state)
    (stays : ∀ action ∈ actions, ¬action.IsExit) :
    state.Completes ↔ ∀ call holder waiter, ¬state.Deadlocked call holder waiter := by
  have shaped := (State.shaped_initial threads).run ran
  have inv : state.Inv := Transition.foldlM_invariant
    (fun action member _ _ inv stepped => inv.step stepped (stays action member))
    (State.inv_initial threads) ran
  constructor
  · rintro ⟨later, final, _, continued, _, quiet⟩ call holder waiter deadlocked
    rcases deadlocked.waits with ⟨activation, member, _⟩
    rw [← (deadlock_stays ran deadlocked continued).1, (quiet waiter).1] at member
    cases member
  · exact inv.completes shaped

theorem completes_iff_nestedOnTwoThreads :
    ∃ state, nestedOnTwoThreads.foldlM State.step (State.initial 2) = some state ∧
      ¬state.Completes := by
  refine ⟨_, rfl, ?_⟩
  intro completes
  have stays : ∀ action ∈ nestedOnTwoThreads, ¬action.IsExit := by
    simp [nestedOnTwoThreads, Action.IsExit]
  apply (@completes_iff 2 nestedOnTwoThreads _ rfl stays).mp completes 1 0 1
  exact ⟨by decide, .inl ⟨rfl, rfl⟩, ⟨_, List.mem_cons_self, rfl, rfl⟩⟩

/-- The runs in which no block calls the client and none is left by longjmp. -/
abbrev ReachableOutsideBlocks (threads : ℕ) : State → Prop :=
  Transition.Reachable (· = State.initial threads) fun state next =>
    ∃ action, state.step action = some next ∧ ¬action.IsExit ∧ action.OutsideBlocks state

/-- As long as no block calls the client and none is left by longjmp, the calls in progress can
always be completed. -/
theorem completes_outside_blocks {threads : ℕ} {state : State}
    (reachable : ReachableOutsideBlocks threads state) : state.Completes := by
  have invariant : state.Inv ∧ state.Shaped ∧
      ∀ call thread, ¬Nested call (state.frames thread) := by
    apply reachable.invariant
    · rintro _ rfl
      exact ⟨State.inv_initial threads, State.shaped_initial threads, fun _ _ nested => nested⟩
    · rintro state next ⟨inv, shaped, flat⟩ ⟨action, stepped, stays, outside⟩
      rcases State.move_of_step stepped with ⟨_, move⟩
      exact ⟨inv.step stepped stays, shaped.move move, fun call other nested =>
        flat call other (move.nested_of_nested stays outside nested)⟩
  rcases invariant with ⟨inv, shaped, flat⟩
  exact inv.completes shaped fun call holder waiter deadlocked =>
    flat call holder deadlocked.nested

/-- Two threads are in the callbacks of one call. -/
theorem completes_outside_blocks_sample : ∃ state,
    [Action.call 0 .scanEach, .deliver 0 0 (.scanEach false), .advance 0,
      .deliver 1 0 (.scanEach false)].foldlM State.step (State.initial 2) = some state ∧
    state.Completes := by
  refine ⟨_, rfl, ?_⟩
  have start : ReachableOutsideBlocks 2 (State.initial 2) := .start rfl
  have called := start.next ⟨.call 0 .scanEach, rfl, not_false, rfl⟩
  have delivered := called.next ⟨.deliver 0 0 (.scanEach false), rfl, not_false, trivial⟩
  have locked := delivered.next ⟨.advance 0, rfl, not_false, trivial⟩
  exact completes_outside_blocks
    (locked.next ⟨.deliver 1 0 (.scanEach false), rfl, not_false, trivial⟩)

end AerospikeCRuby.CallbackMutex
