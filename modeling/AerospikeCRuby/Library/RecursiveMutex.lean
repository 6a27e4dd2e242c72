import Mathlib

/-!
# Recursive mutexes

A mutex which its holder may lock again.  It is free once it has been unlocked
as often as it was locked.
-/

/-- The holder of the mutex and how often it has locked it again. -/
abbrev RecursiveMutex (Thread : Type*) := Option (Thread × ℕ)

namespace RecursiveMutex

variable {Thread : Type*} [DecidableEq Thread]

/-- The mutex after it was locked, unless the thread has to wait. -/
def lock (thread : Thread) : RecursiveMutex Thread → Option (RecursiveMutex Thread)
  | none => some (some (thread, 0))
  | some (holder, again) => if holder = thread then some (some (holder, again + 1)) else none

/-- The mutex after a call of unlock, which fails for a thread that does not hold it. -/
def unlock (thread : Thread) : RecursiveMutex Thread → RecursiveMutex Thread
  | none => none
  | some (holder, again) =>
      if holder = thread then
        match again with
        | 0 => none
        | again + 1 => some (holder, again)
      else some (holder, again)

/-- How often a thread holds the mutex. -/
def depth (mutex : RecursiveMutex Thread) (thread : Thread) : ℕ :=
  match mutex with
  | none => 0
  | some (holder, again) => if holder = thread then again + 1 else 0

variable {mutex next : RecursiveMutex Thread} {thread other : Thread}

theorem depth_lock (locked : lock thread mutex = some next) :
    next.depth other = if other = thread then mutex.depth other + 1 else mutex.depth other := by
  rcases mutex with _ | ⟨holder, again⟩
  · cases locked
    simp [depth, eq_comm]
  · rw [lock] at locked
    split at locked
    · rename_i same
      cases locked
      subst same
      by_cases here : other = holder
      · subst here
        simp [depth]
      · simp [depth, here, Ne.symm here]
    · cases locked

theorem depth_unlock (held : 0 < mutex.depth thread) :
    (unlock thread mutex).depth other =
      if other = thread then mutex.depth other - 1 else mutex.depth other := by
  rcases mutex with _ | ⟨holder, again⟩
  · cases held
  · have same : holder = thread := by
      by_contra differ
      simp [depth, differ] at held
    subst same
    by_cases here : other = holder
    · subst here
      cases again <;> simp [unlock, depth]
    · cases again <;> simp [unlock, depth, here, Ne.symm here]

theorem depth_lock_self (locked : lock thread mutex = some next) :
    next.depth thread = mutex.depth thread + 1 := by
  rw [depth_lock locked, if_pos rfl]

theorem depth_lock_of_ne (locked : lock thread mutex = some next) (differ : other ≠ thread) :
    next.depth other = mutex.depth other := by
  rw [depth_lock locked, if_neg differ]

theorem depth_unlock_self (held : 0 < mutex.depth thread) :
    (unlock thread mutex).depth thread = mutex.depth thread - 1 := by
  rw [depth_unlock held, if_pos rfl]

theorem depth_unlock_of_ne (held : 0 < mutex.depth thread) (differ : other ≠ thread) :
    (unlock thread mutex).depth other = mutex.depth other := by
  rw [depth_unlock held, if_neg differ]

/-- Only a thread that finds the mutex held by another one has to wait. -/
theorem lock_isSome_iff : (lock thread mutex).isSome ↔ ∀ other, other ≠ thread →
    mutex.depth other = 0 := by
  rcases mutex with _ | ⟨holder, again⟩
  · simp [lock, depth]
  · by_cases same : holder = thread
    · subst same
      simp +contextual [lock, depth, eq_comm]
    · simp only [lock, if_neg same, Option.isSome_none, Bool.false_eq_true, false_iff, not_forall]
      exact ⟨holder, same, by simp [depth]⟩

/-- At most one thread holds the mutex. -/
theorem eq_of_depth_pos (held : 0 < mutex.depth thread) (held' : 0 < mutex.depth other) :
    thread = other := by
  rcases mutex with _ | ⟨holder, again⟩
  · cases held
  · simp only [depth] at held held'
    split at held
    · split at held'
      · rename_i same same'
        rw [← same, ← same']
      · cases held'
    · cases held

/-- A thread has to wait exactly if another one holds the mutex. -/
theorem lock_eq_none_iff :
    lock thread mutex = none ↔ ∃ holder, holder ≠ thread ∧ 0 < mutex.depth holder := by
  rw [← Option.not_isSome_iff_eq_none, lock_isSome_iff]
  simp [Nat.pos_iff_ne_zero]

theorem lock_eq_none (held : 0 < mutex.depth thread) (differ : other ≠ thread) :
    lock other mutex = none :=
  lock_eq_none_iff.mpr ⟨thread, differ.symm, held⟩

end RecursiveMutex
