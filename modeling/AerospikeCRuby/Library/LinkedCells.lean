import Mathlib

/-!
# Linked cells

A memory of cells, each of which holds the address of another or NULL.  A
`Segment` lists the cells visited by following the links from one address to
another.  The links determine the cells, so a segment which ends in NULL visits
no cell twice.
-/

namespace LinkedCells

variable {Addr : Type*}

/-- The link held by each cell; `none` at an address where there is no cell. -/
abbrev Links (Addr : Type*) := Addr → Option (Option Addr)

/-- Following the links from `start` visits `cells`, in order, and arrives at `finish`. -/
def Segment (links : Links Addr) : Option Addr → List Addr → Option Addr → Prop
  | start, [], finish => start = finish
  | start, cell :: rest, finish =>
      start = some cell ∧ ∃ next, links cell = some next ∧ Segment links next rest finish

variable {links links' : Links Addr} {start finish : Option Addr} {cells : List Addr}

theorem segment_cons {cell : Addr} {rest : List Addr} :
    Segment links start (cell :: rest) finish ↔
      start = some cell ∧ ∃ next, links cell = some next ∧ Segment links next rest finish :=
  Iff.rfl

theorem segment_append {front back : List Addr} :
    Segment links start (front ++ back) finish ↔
      ∃ middle, Segment links start front middle ∧ Segment links middle back finish := by
  induction front generalizing start with
  | nil => simp [Segment]
  | cons cell rest ih =>
      simp only [List.cons_append, segment_cons, ih]
      constructor
      · rintro ⟨begins, next, linked, middle, front, back⟩
        exact ⟨middle, ⟨begins, next, linked, front⟩, back⟩
      · rintro ⟨middle, ⟨begins, next, linked, front⟩, back⟩
        exact ⟨begins, next, linked, middle, front, back⟩

theorem segment_concat {last : Addr} :
    Segment links start (cells ++ [last]) finish ↔
      Segment links start cells (some last) ∧ links last = some finish := by
  rw [segment_append]
  constructor
  · rintro ⟨middle, front, rfl, next, linked, rfl⟩
    exact ⟨front, linked⟩
  · rintro ⟨front, linked⟩
    exact ⟨some last, front, rfl, finish, linked, rfl⟩

theorem Segment.congr (segment : Segment links start cells finish)
    (same : ∀ cell ∈ cells, links' cell = links cell) : Segment links' start cells finish := by
  induction cells generalizing start with
  | nil => exact segment
  | cons cell rest ih =>
      rcases segment with ⟨begins, next, linked, segment⟩
      refine ⟨begins, next, ?_, ?_⟩
      · rw [same cell (by simp), linked]
      · apply ih segment
        intro other member
        exact same other (by simp [member])

/-- The links determine the cells on the way to NULL. -/
theorem Segment.unique {cells' : List Addr} (segment : Segment links start cells none)
    (segment' : Segment links start cells' none) : cells = cells' := by
  induction cells generalizing start cells' with
  | nil =>
      cases cells' with
      | nil => rfl
      | cons cell rest =>
          rcases segment' with ⟨begins, _⟩
          rw [show start = none from segment] at begins
          cases begins
  | cons cell rest ih =>
      rcases segment with ⟨rfl, next, linked, segment⟩
      cases cells' with
      | nil => cases segment'
      | cons cell' rest' =>
          rcases segment' with ⟨begins, next', linked', segment'⟩
          cases begins
          rw [linked] at linked'
          cases linked'
          rw [ih segment segment']

/-- No cell is visited twice on the way to NULL: from its second visit on, the way would
be as long as from its first. -/
theorem Segment.nodup (segment : Segment links start cells none) : cells.Nodup := by
  induction cells generalizing start with
  | nil => exact List.nodup_nil
  | cons cell rest ih =>
      have whole := segment
      rcases segment with ⟨rfl, next, _, segment⟩
      refine List.nodup_cons.mpr ⟨?_, ih segment⟩
      intro again
      rcases List.append_of_mem again with ⟨front, back, rfl⟩
      rcases segment_append.mp segment with ⟨middle, _, suffix⟩
      have begins : middle = some cell := suffix.1
      rw [begins] at suffix
      have same := congrArg List.length (whole.unique suffix)
      simp only [List.length_cons, List.length_append] at same
      omega

/-- Storing the address of a new cell in the last one makes it the new last one. -/
theorem Segment.concat {last new : Addr}
    (segment : Segment links start (cells ++ [last]) none) (fresh : new ∉ cells ++ [last])
    (agree : ∀ cell, cell ≠ last → links' cell = links cell)
    (stored : links' last = some (some new)) (ends : links new = some none) :
    Segment links' start (cells ++ [last] ++ [new]) none := by
  have distinct := segment.nodup
  rw [List.nodup_append] at distinct
  have front := (segment_concat.mp segment).1
  apply segment_concat.mpr
  constructor
  · apply segment_concat.mpr
    constructor
    · apply front.congr
      intro cell member
      apply agree
      rintro rfl
      exact distinct.2.2 cell member cell (by simp) rfl
    · exact stored
  · rw [agree new, ends]
    rintro rfl
    exact fresh (by simp)

end LinkedCells
