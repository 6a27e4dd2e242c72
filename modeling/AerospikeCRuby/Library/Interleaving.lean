import Mathlib

/-!
# Interleavings

Threads hand on streams of elements one by one.  What arrives is an interleaving
of the streams: the elements of each thread arrive in the order of its stream.
Two interleavings of the same streams differ in their order only.
-/

namespace Interleaving

variable {Tid α β : Type*} [DecidableEq Tid] {streams : Tid → List α}

/-- What arrives from one thread. -/
def project (thread : Tid) (arrived : List (Tid × α)) : List α :=
  (arrived.filter fun tagged => tagged.1 = thread).map Prod.snd

theorem project_cons_self (thread : Tid) (first : α) (rest : List (Tid × α)) :
    project thread ((thread, first) :: rest) = first :: project thread rest := by
  simp [project]

theorem project_cons_of_ne {thread other : Tid} (differ : other ≠ thread) (first : α)
    (rest : List (Tid × α)) : project other ((thread, first) :: rest) = project other rest := by
  simp [project, Ne.symm differ]

theorem mem_project {thread : Tid} {element : α} {arrived : List (Tid × α)} :
    element ∈ project thread arrived ↔ (thread, element) ∈ arrived := by
  simp [project]

/-- Every stream has arrived, in its order. -/
def IsInterleaving (streams : Tid → List α) (arrived : List (Tid × α)) : Prop :=
  ∀ thread, project thread arrived = streams thread

theorem IsInterleaving.mem {arrived : List (Tid × α)} (interleaves : IsInterleaving streams arrived)
    {tagged : Tid × α} (member : tagged ∈ arrived) : tagged.2 ∈ streams tagged.1 := by
  rw [← interleaves, mem_project]
  exact member

theorem count_project [DecidableEq α] (thread : Tid) (element : α) (arrived : List (Tid × α)) :
    (project thread arrived).count element = arrived.count (thread, element) := by
  induction arrived with
  | nil => rfl
  | cons tagged rest ih =>
      rcases tagged with ⟨other, first⟩
      by_cases here : thread = other
      · subst here
        rw [project_cons_self, List.count_cons, List.count_cons, ih]
        simp
      · rw [project_cons_of_ne here, ih, List.count_cons_of_ne]
        simp [Ne.symm here]

theorem IsInterleaving.perm {arrived arrived' : List (Tid × α)}
    (interleaves : IsInterleaving streams arrived)
    (interleaves' : IsInterleaving streams arrived') : arrived.Perm arrived' := by
  classical
  rw [List.perm_iff_count]
  rintro ⟨thread, element⟩
  rw [← count_project, ← count_project, interleaves, interleaves']

/-- What arrives from streams of images comes from an interleaving of the streams. -/
theorem exists_interleaving {related : α → β → Prop} {arrived : List (Tid × β)}
    (images : ∀ thread, List.Forall₂ related (streams thread) (project thread arrived)) :
    ∃ sources, IsInterleaving streams sources ∧
      List.Forall₂ (fun source image => source.1 = image.1 ∧ related source.2 image.2)
        sources arrived := by
  induction arrived generalizing streams with
  | nil =>
      refine ⟨[], ?_, .nil⟩
      intro thread
      exact (List.forall₂_nil_right_iff.mp (images thread)).symm
  | cons tagged rest ih =>
      rcases tagged with ⟨thread, image⟩
      have own := images thread
      rw [project_cons_self] at own
      rcases List.forall₂_cons_right_iff.mp own with ⟨source, later, relates, others, stream⟩
      have remaining : ∀ other, List.Forall₂ related (Function.update streams thread later other)
          (project other rest) := by
        intro other
        by_cases here : other = thread
        · subst here
          rwa [Function.update_self]
        · have same := images other
          rw [project_cons_of_ne here] at same
          rwa [Function.update_of_ne here]
      rcases ih remaining with ⟨sources, interleaves, aligned⟩
      refine ⟨(thread, source) :: sources, ?_, .cons ⟨rfl, relates⟩ aligned⟩
      intro other
      by_cases here : other = thread
      · subst here
        rw [project_cons_self, interleaves, Function.update_self, stream]
      · rw [project_cons_of_ne here, interleaves, Function.update_of_ne here]

end Interleaving
