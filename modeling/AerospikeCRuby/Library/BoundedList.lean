import Mathlib

/-!
# Lists of limited size

A list with a capacity that refuses elements which are not valid, and any
element once it is full.  Of the elements that are offered one after the other
it holds the first valid ones.
-/

structure BoundedList (Element : Type*) (Valid : Element → Prop) where
  entries : List Element
  capacity : ℕ
  fits : entries.length ≤ capacity
  valid : ∀ element ∈ entries, Valid element

namespace BoundedList

variable {Element : Type*} {Valid : Element → Prop}

/-- Without entries. -/
def empty (capacity : ℕ) : BoundedList Element Valid where
  entries := []
  capacity := capacity
  fits := Nat.zero_le _
  valid := fun _ member => absurd member List.not_mem_nil

variable (list : BoundedList Element Valid) {element : Element}

theorem fits_append (room : list.entries.length < list.capacity) :
    (list.entries ++ [element]).length ≤ list.capacity := by
  rw [List.length_append, List.length_singleton]
  exact room

theorem valid_append (good : Valid element) :
    ∀ other ∈ list.entries ++ [element], Valid other := by
  intro other member
  rcases List.mem_append.mp member with held | added
  · exact list.valid other held
  · rw [List.mem_singleton.mp added]
    exact good

variable [DecidablePred Valid]

/-- The answer says whether the element was added. -/
def add (element : Element) : Bool × BoundedList Element Valid :=
  if accepted : Valid element ∧ list.entries.length < list.capacity then
    (true,
      { list with
        entries := list.entries ++ [element]
        fits := list.fits_append accepted.2
        valid := list.valid_append accepted.1 })
  else (false, list)

/-- Offer the elements one after the other. -/
def addAll (elements : List Element) : BoundedList Element Valid :=
  elements.foldl (fun list element => (list.add element).2) list

@[simp]
theorem capacity_add : (list.add element).2.capacity = list.capacity := by
  unfold add
  split <;> rfl

theorem capacity_addAll (elements : List Element) :
    (list.addAll elements).capacity = list.capacity := by
  induction elements generalizing list with
  | nil => rfl
  | cons element rest ih => exact (ih (list.add element).2).trans (list.capacity_add)

theorem entries_add_of_not_valid (refused : ¬Valid element) :
    (list.add element).2.entries = list.entries := by
  rw [add, dif_neg fun accepted => refused accepted.1]

theorem entries_add (good : Valid element) :
    (list.add element).2.entries =
      list.entries ++ [element].take (list.capacity - list.entries.length) := by
  unfold add
  split
  case isTrue accepted =>
    rw [List.take_of_length_le]
    have room := accepted.2
    simp only [List.length_singleton]
    omega
  case isFalse refused =>
    have full : list.capacity - list.entries.length = 0 := by
      by_contra room
      exact refused ⟨good, by omega⟩
    rw [full, List.take_zero, List.append_nil]

theorem entries_addAll (elements : List Element) :
    (list.addAll elements).entries = list.entries ++
      (elements.filter fun element => Valid element).take
        (list.capacity - list.entries.length) := by
  induction elements generalizing list with
  | nil => simp [addAll]
  | cons element rest ih =>
      have step : list.addAll (element :: rest) = (list.add element).2.addAll rest := rfl
      rw [step, ih, capacity_add]
      by_cases good : Valid element
      · rw [entries_add list good, List.filter_cons_of_pos (by simpa using good)]
        cases room : list.capacity - list.entries.length with
        | zero =>
            simp only [List.take_zero, List.append_nil, room]
        | succ count =>
            simp only [List.take_succ_cons, List.take_nil, List.append_assoc, List.length_append,
              List.length_singleton, List.singleton_append]
            congr 3
            omega
      · rw [entries_add_of_not_valid list good, List.filter_cons_of_neg (by simpa using good)]

theorem entries_addAll_empty (capacity : ℕ) (elements : List Element) :
    ((empty capacity : BoundedList Element Valid).addAll elements).entries =
      (elements.filter fun element => Valid element).take capacity := by
  rw [entries_addAll]
  rfl

/-- Nothing is lost of elements which are all valid and fit. -/
theorem take_filter_eq_self {elements : List Element} {capacity : ℕ} :
    (elements.filter fun element => Valid element).take capacity = elements ↔
      (∀ element ∈ elements, Valid element) ∧ elements.length ≤ capacity := by
  constructor
  · intro same
    have kept : elements.filter (fun element => Valid element) = elements := by
      apply List.filter_sublist.eq_of_length_le
      have taken := congrArg List.length same
      rw [List.length_take] at taken
      omega
    rw [kept, List.take_eq_self_iff] at same
    exact ⟨by simpa using List.filter_eq_self.mp kept, same⟩
  · rintro ⟨all, fits⟩
    rw [List.filter_eq_self.mpr (by simpa using all), List.take_of_length_le fits]

end BoundedList
