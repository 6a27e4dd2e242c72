import Mathlib

/-!
# Fields of a text

A text split at a separator, with the trailing empty fields dropped, and a text
with every occurrence of a pattern of fixed length deleted.  Both only lose
letters: what is left holds no letter more often than the text does.
-/

namespace Fields

variable {α : Type*}

section Split

variable [DecidableEq α] {sep letter : α} {text : List α} {parts : List (List α)}

/-- The fields between the separators, without the empty ones at the end. -/
def split (sep : α) (text : List α) : List (List α) :=
  (text.splitOn sep).rdropWhile (fun field => field = [])

theorem not_mem_of_mem_splitOn {field : List α} (member : field ∈ text.splitOn sep) :
    sep ∉ field := by
  induction text generalizing field with
  | nil =>
      rw [List.splitOn_nil, List.mem_singleton] at member
      simp [member]
  | cons first rest ih =>
      rw [List.splitOn_cons_eq_if_modifyHead] at member
      split at member
      · rcases List.mem_cons.mp member with rfl | later
        · simp
        · exact ih later
      · rcases List.exists_cons_of_ne_nil (List.splitOn_ne_nil sep rest) with
          ⟨head, others, fields⟩
        rw [fields, List.modifyHead_cons] at member
        rcases List.mem_cons.mp member with rfl | later
        · have different : first ≠ sep := by
            simpa using ‹¬(first == sep) = true›
          rw [List.mem_cons, not_or]
          exact ⟨different.symm, ih (by simp [fields])⟩
        · exact ih (by simp [fields, later])

/-- Joined parts are split where they were joined. -/
theorem split_join (free : ∀ part ∈ parts, sep ∉ part) :
    split sep ([sep].intercalate parts) = parts.rdropWhile (fun field => field = []) := by
  cases parts with
  | nil => simp [split, List.rdropWhile]
  | cons part rest => rw [split, List.splitOn_intercalate sep free (by simp)]

theorem split_join_of_last (free : ∀ part ∈ parts, sep ∉ part)
    (last : ∀ nonempty : parts ≠ [], parts.getLast nonempty ≠ []) :
    split sep ([sep].intercalate parts) = parts := by
  rw [split_join free, List.rdropWhile_eq_self_iff]
  intro nonempty
  simpa using last nonempty

theorem split_join_of_ne_nil (free : ∀ part ∈ parts, sep ∉ part)
    (nonempty : ∀ part ∈ parts, part ≠ []) : split sep ([sep].intercalate parts) = parts :=
  split_join_of_last free fun some => nonempty _ (List.getLast_mem some)

theorem count_join (differ : letter ≠ sep) :
    ([sep].intercalate parts).count letter = (parts.map (List.count letter)).sum := by
  induction parts with
  | nil => simp
  | cons part rest ih =>
      cases rest with
      | nil => simp
      | cons next rest =>
          have separator : List.count letter [sep] = 0 :=
            List.count_eq_zero_of_not_mem (by simpa using differ)
          rw [List.intercalate_cons_cons, List.count_append, List.count_append, ih, separator]
          simp

/-- Splitting loses nothing but separators. -/
theorem count_split (differ : letter ≠ sep) :
    ((split sep text).map (List.count letter)).sum = text.count letter := by
  have dropped : (((text.splitOn sep).rtakeWhile (fun field => field = [])).map
      (List.count letter)).sum = 0 := by
    rw [List.sum_eq_zero_iff]
    intro count member
    rcases List.mem_map.mp member with ⟨field, inside, rfl⟩
    have empty : field = [] := by simpa using List.mem_rtakeWhile_imp inside
    simp [empty]
  have whole : ((text.splitOn sep).map (List.count letter)).sum = text.count letter := by
    rw [← count_join differ, List.intercalate_splitOn]
  rw [← List.rdropWhile_append_rtakeWhile (p := fun field => decide (field = []))
    (l := text.splitOn sep), List.map_append, List.sum_append, dropped] at whole
  exact whole

omit [DecidableEq α] in
/-- A field which is not empty is kept, whatever comes after it. -/
theorem rdropWhile_cons_of_ne_nil {first : List α} (nonempty : first ≠ [])
    (rest : List (List α)) :
    (first :: rest).rdropWhile (fun field => decide (field = [])) =
      first :: rest.rdropWhile (fun field => decide (field = [])) := by
  induction rest using List.reverseRecOn with
  | nil => simp [List.rdropWhile, nonempty]
  | append_singleton before last ih =>
      rw [← List.cons_append, List.rdropWhile_concat, List.rdropWhile_concat, ih]
      split <;> simp

/-- The first field ends at the first separator. -/
theorem split_append_cons {first rest : List α} (free : sep ∉ first) (nonempty : first ≠ []) :
    split sep (first ++ sep :: rest) = first :: split sep rest := by
  rw [split, List.splitOn_append_cons_self_of_not_mem free, rdropWhile_cons_of_ne_nil nonempty]
  rfl

theorem split_of_not_mem (free : sep ∉ text) (nonempty : text ≠ []) : split sep text = [text] := by
  rw [split, List.splitOn_eq_singleton free, rdropWhile_cons_of_ne_nil nonempty,
    List.rdropWhile_nil]

/-- A text is its own first field where it is not empty and holds no separator. -/
theorem head?_split_eq_self_iff : (split sep text).head? = some text ↔ text ≠ [] ∧ sep ∉ text := by
  constructor
  · intro whole
    constructor
    · rintro rfl
      simp [split, List.rdropWhile] at whole
    · have member : text ∈ split sep text := List.mem_of_head? whole
      exact not_mem_of_mem_splitOn ((List.rdropWhile_prefix _ _).subset member)
  · rintro ⟨nonempty, free⟩
    rw [split_of_not_mem free nonempty, List.head?_cons]

theorem not_mem_join (differ : letter ≠ sep) (free : ∀ part ∈ parts, letter ∉ part) :
    letter ∉ [sep].intercalate parts := by
  rw [← List.count_eq_zero, count_join differ, List.sum_eq_zero_iff]
  intro count member
  rcases List.mem_map.mp member with ⟨part, inside, rfl⟩
  exact List.count_eq_zero_of_not_mem (free part inside)

end Split

section Remove

/-- The text begins with items of these classes. -/
def startsWith : List (α → Bool) → List α → Bool
  | [], _ => true
  | _ :: _, [] => false
  | accepts :: pattern, item :: rest => accepts item && startsWith pattern rest

/-- The pattern occurs somewhere in the text. -/
def occurs (pattern : List (α → Bool)) (text : List α) : Bool :=
  text.tails.any (startsWith pattern)

/-- Delete the occurrences of the pattern from left to right; `skip` items are still part of the
one found last. -/
def removeFrom (pattern : List (α → Bool)) : ℕ → List α → List α
  | _, [] => []
  | skip + 1, _ :: rest => removeFrom pattern skip rest
  | 0, item :: rest =>
      if startsWith pattern (item :: rest) then removeFrom pattern (pattern.length - 1) rest
      else item :: removeFrom pattern 0 rest

def remove (pattern : List (α → Bool)) (text : List α) : List α :=
  removeFrom pattern 0 text

variable {pattern : List (α → Bool)} {item : α} {text rest : List α}

theorem occurs_cons :
    occurs pattern (item :: rest) = (startsWith pattern (item :: rest) || occurs pattern rest) := by
  rw [occurs, List.tails_cons, List.any_cons, occurs]

theorem occurs_of_startsWith (starts : startsWith pattern text = true) :
    occurs pattern text = true := by
  cases text with
  | nil => simpa [occurs] using starts
  | cons item rest => rw [occurs_cons, starts, Bool.true_or]

theorem removeFrom_eq_drop (skip : ℕ) :
    removeFrom pattern skip text = remove pattern (text.drop skip) := by
  induction text generalizing skip with
  | nil => cases skip <;> rfl
  | cons item rest ih =>
      cases skip with
      | zero => rfl
      | succ skip => exact ih skip

theorem remove_of_startsWith (nonempty : pattern ≠ []) (starts : startsWith pattern text = true) :
    remove pattern text = remove pattern (text.drop pattern.length) := by
  cases text with
  | nil =>
      rw [List.drop_nil]
  | cons item rest =>
      rcases List.exists_cons_of_ne_nil nonempty with ⟨accepts, later, rfl⟩
      rw [remove, removeFrom, if_pos starts, removeFrom_eq_drop]
      rfl

theorem remove_cons_of_not_startsWith (differs : startsWith pattern (item :: rest) = false) :
    remove pattern (item :: rest) = item :: remove pattern rest := by
  rw [remove, removeFrom, if_neg (by simp [differs])]
  rfl

/-- Where the pattern does not occur nothing is deleted. -/
theorem remove_of_not_occurs (absent : occurs pattern text = false) :
    remove pattern text = text := by
  induction text with
  | nil => rfl
  | cons item rest ih =>
      rw [occurs_cons, Bool.or_eq_false_iff] at absent
      rw [remove_cons_of_not_startsWith absent.1, ih absent.2]

/-- An occurrence of the pattern holds the letter that one of its classes asks for. -/
theorem mem_take_of_startsWith {letter : α}
    (only : ∃ accepts ∈ pattern, ∀ item, accepts item = true → item = letter)
    (starts : startsWith pattern text = true) :
    letter ∈ text.take pattern.length := by
  induction pattern generalizing text with
  | nil => simp at only
  | cons accepts pattern ih =>
      cases text with
      | nil => cases starts
      | cons item rest =>
          rw [startsWith, Bool.and_eq_true] at starts
          rw [List.length_cons, List.take_succ_cons, List.mem_cons]
          rcases only with ⟨class_, member, asks⟩
          rcases List.mem_cons.mp member with rfl | later
          · exact Or.inl (asks item starts.1).symm
          · exact Or.inr (ih ⟨class_, later, asks⟩ starts.2)

/-- A deletion takes the letter out of the text at least once. -/
theorem count_remove_le [DecidableEq α] {letter : α}
    (only : ∃ accepts ∈ pattern, ∀ item, accepts item = true → item = letter) (text : List α) :
    (remove pattern text).count letter + (if occurs pattern text then 1 else 0) ≤
      text.count letter := by
  have nonempty : pattern ≠ [] := by
    rintro rfl
    rcases only with ⟨_, member, _⟩
    cases member
  induction length : text.length using Nat.strong_induction_on generalizing text with
  | _ size ih =>
      cases text with
      | nil =>
          rcases List.exists_cons_of_ne_nil nonempty with ⟨accepts, later, rfl⟩
          simp [remove, removeFrom, occurs, startsWith]
      | cons item rest =>
          cases starts : startsWith pattern (item :: rest) with
          | true =>
              have taken : 0 < ((item :: rest).take pattern.length).count letter :=
                List.count_pos_iff.mpr (mem_take_of_startsWith only starts)
              have shorter : ((item :: rest).drop pattern.length).length < size := by
                have := List.length_pos_iff.mpr nonempty
                simp only [List.length_drop, ← length, List.length_cons]
                omega
              have later := ih _ shorter _ rfl
              have parts : (item :: rest).count letter =
                  ((item :: rest).take pattern.length).count letter +
                    ((item :: rest).drop pattern.length).count letter := by
                rw [← List.count_append, List.take_append_drop]
              rw [remove_of_startsWith nonempty starts, parts]
              split <;> omega
          | false =>
              have later := ih rest.length (by simp [← length]) rest rfl
              rw [remove_cons_of_not_startsWith starts, occurs_cons, starts, Bool.false_or,
                List.count_cons, List.count_cons]
              omega

end Remove

section Matches

/-- The text is made of items of these classes. -/
def isMatch : List (α → Bool) → List α → Bool
  | [], [] => true
  | accepts :: pattern, item :: rest => accepts item && isMatch pattern rest
  | _, _ => false

variable {pattern : List (α → Bool)} {accepts : α → Bool} {text : List α}

theorem length_eq_of_isMatch (fits : isMatch pattern text = true) :
    text.length = pattern.length := by
  induction pattern generalizing text with
  | nil =>
      cases text with
      | nil => rfl
      | cons => cases fits
  | cons accepts pattern ih =>
      cases text with
      | nil => cases fits
      | cons item rest =>
          rw [isMatch, Bool.and_eq_true] at fits
          rw [List.length_cons, List.length_cons, ih fits.2]

theorem isMatch_append_iff (front back : List (α → Bool)) :
    isMatch (front ++ back) text = true ↔
      ∃ first rest, first ++ rest = text ∧ isMatch front first = true ∧
        isMatch back rest = true := by
  induction front generalizing text with
  | nil =>
      constructor
      · intro fits
        exact ⟨[], text, rfl, rfl, fits⟩
      · rintro ⟨first, rest, rfl, atFront, atBack⟩
        rw [List.eq_nil_of_length_eq_zero (length_eq_of_isMatch atFront)]
        exact atBack
  | cons accepts front ih =>
      constructor
      · intro fits
        cases text with
        | nil => cases fits
        | cons item text =>
            rw [List.cons_append, isMatch, Bool.and_eq_true] at fits
            rcases ih.mp fits.2 with ⟨first, rest, rfl, atFront, atBack⟩
            exact ⟨item :: first, rest, rfl, by rw [isMatch, fits.1, atFront]; rfl, atBack⟩
      · rintro ⟨first, rest, rfl, atFront, atBack⟩
        cases first with
        | nil => cases atFront
        | cons item first =>
            rw [isMatch, Bool.and_eq_true] at atFront
            rw [List.cons_append, List.cons_append, isMatch, Bool.and_eq_true]
            exact ⟨atFront.1, ih.mpr ⟨first, rest, rfl, atFront.2, atBack⟩⟩

theorem isMatch_replicate_iff (count : ℕ) :
    isMatch (List.replicate count accepts) text = true ↔
      text.length = count ∧ ∀ item ∈ text, accepts item = true := by
  induction count generalizing text with
  | zero =>
      cases text with
      | nil => simp [isMatch]
      | cons => simp [isMatch]
  | succ count ih =>
      cases text with
      | nil => simp [List.replicate_succ, isMatch]
      | cons item rest =>
          rw [List.replicate_succ, isMatch, Bool.and_eq_true, ih, List.length_cons,
            List.forall_mem_cons, Nat.add_right_cancel_iff]
          exact and_left_comm

theorem isMatch_singleton_iff : isMatch [accepts] text = true ↔
    ∃ item, accepts item = true ∧ text = [item] := by
  cases text with
  | nil => simp [isMatch]
  | cons item rest =>
      cases rest with
      | nil => simp [isMatch]
      | cons => simp [isMatch]

end Matches

end Fields
