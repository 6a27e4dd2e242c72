import AerospikeCRuby.Library.Aligned

/-!
# Finite maps as association lists

A finite map is the list of its entries in iteration order.  `put` is the one
update: it overwrites the value of a key already present, where it stands, and
otherwise inserts the new entry at a given index, so that a map kept in
insertion order and a map kept in hash order are the same structure with
different indices.

`Related` compares two maps entry by entry, up to their order.  The update
lemma `related_put` carries it through any sequence of updates made on both
sides, whatever indices the two sides use.
-/

namespace AssocList

variable {κ ι α β : Type*}

/-- The keys of a map, in iteration order. -/
abbrev keys (entries : List (κ × α)) : List κ :=
  entries.map Prod.fst

/-- Overwrite the value of `key` where it stands, or insert it at `index`. -/
def put [DecidableEq κ] (index : ℕ) (entries : List (κ × α)) (key : κ) (value : α) :
    List (κ × α) :=
  if key ∈ keys entries then
    entries.map fun entry => if entry.1 = key then (key, value) else entry
  else
    entries.take index ++ (key, value) :: entries.drop index

/-- The update of a map which iterates in insertion order. -/
def putLast [DecidableEq κ] (entries : List (κ × α)) (key : κ) (value : α) :
    List (κ × α) :=
  put entries.length entries key value

theorem nodup_keys_nil : (keys ([] : List (κ × α))).Nodup :=
  List.nodup_nil

section Put

variable [DecidableEq κ] {index : ℕ} {entries : List (κ × α)} {key : κ} {value : α}

theorem keys_put_of_mem (present : key ∈ keys entries) :
    keys (put index entries key value) = keys entries := by
  simp only [put, present, if_true, keys, List.map_map]
  apply List.map_congr_left
  intro entry _
  by_cases same : entry.1 = key <;> simp [same]

theorem put_of_not_mem (absent : key ∉ keys entries) :
    put index entries key value =
      entries.take index ++ (key, value) :: entries.drop index := by
  simp only [put, absent, if_false]

theorem perm_put_of_not_mem (absent : key ∉ keys entries) :
    (put index entries key value).Perm ((key, value) :: entries) := by
  rw [put_of_not_mem absent]
  have moved : (entries.take index ++ (key, value) :: entries.drop index).Perm
      ((key, value) :: (entries.take index ++ entries.drop index)) := List.perm_middle
  rwa [List.take_append_drop] at moved

theorem putLast_of_not_mem (absent : key ∉ keys entries) :
    putLast entries key value = entries ++ [(key, value)] := by
  simp [putLast, put_of_not_mem absent]

theorem mem_keys_put (other : κ) :
    other ∈ keys (put index entries key value) ↔ other = key ∨ other ∈ keys entries := by
  by_cases present : key ∈ keys entries
  · rw [keys_put_of_mem present]
    constructor
    · exact Or.inr
    · rintro (rfl | member)
      · exact present
      · exact member
  · rw [((perm_put_of_not_mem present).map Prod.fst).mem_iff]
    simp

theorem nodup_keys_put (nodup : (keys entries).Nodup) :
    (keys (put index entries key value)).Nodup := by
  by_cases present : key ∈ keys entries
  · rwa [keys_put_of_mem present]
  · rw [((perm_put_of_not_mem present).map Prod.fst).nodup_iff]
    exact List.nodup_cons.mpr ⟨present, nodup⟩

theorem length_put_of_mem (present : key ∈ keys entries) :
    (put index entries key value).length = entries.length := by
  simp only [put, present, if_true, List.length_map]

theorem length_put_of_not_mem (absent : key ∉ keys entries) :
    (put index entries key value).length = entries.length + 1 := by
  rw [(perm_put_of_not_mem absent).length_eq, List.length_cons]

theorem mem_of_mem_put {entry : κ × α} (member : entry ∈ put index entries key value) :
    entry = (key, value) ∨ entry ∈ entries := by
  by_cases present : key ∈ keys entries
  · simp only [put, present, if_true, List.mem_map] at member
    rcases member with ⟨old, found, replaced⟩
    split at replaced
    · exact Or.inl replaced.symm
    · exact Or.inr (replaced ▸ found)
  · exact List.mem_cons.mp ((perm_put_of_not_mem present).mem_iff.mp member)

theorem length_le_put : entries.length ≤ (put index entries key value).length := by
  by_cases present : key ∈ keys entries
  · exact Nat.le_of_eq (length_put_of_mem present).symm
  · rw [length_put_of_not_mem present]
    omega

theorem length_put_le : (put index entries key value).length ≤ entries.length + 1 := by
  by_cases present : key ∈ keys entries
  · rw [length_put_of_mem present]
    omega
  · exact Nat.le_of_eq (length_put_of_not_mem present)

theorem lookup_overwrite (other : κ) (present : key ∈ keys entries) :
    (entries.map fun entry => if entry.1 = key then (key, value) else entry).lookup other =
      if other = key then some value else entries.lookup other := by
  induction entries with
  | nil => simp at present
  | cons entry rest ih =>
      rcases entry with ⟨first, old⟩
      by_cases here : first = key
      · subst first
        by_cases same : other = key
        · simp [same]
        · simp only [List.map_cons, if_true, List.lookup_cons]
          have differs : (other == key) = false := by simpa using same
          by_cases later : key ∈ keys rest
          · simpa [differs, same] using ih later
          · have unchanged : rest.map
                (fun entry => if entry.1 = key then (key, value) else entry) = rest := by
              conv_rhs => rw [← List.map_id rest]
              apply List.map_congr_left
              intro entry member
              have : entry.1 ≠ key := by
                rintro rfl
                exact later (List.mem_map_of_mem member)
              simp [this]
            simp [differs, same, unchanged]
      · have later : key ∈ keys rest := by
          have reversed : key ≠ first := fun same => here same.symm
          simpa [reversed] using present
        simp only [List.map_cons, if_neg here, List.lookup_cons]
        by_cases atFirst : other = first
        · subst other
          simp [here]
        · have differs : (other == first) = false := by simpa using atFirst
          simpa [differs] using ih later

/-- An update changes the value read at its own key and at no other. -/
theorem lookup_put (other : κ) :
    (put index entries key value).lookup other =
      if other = key then some value else entries.lookup other := by
  by_cases present : key ∈ keys entries
  · simp only [put, present, if_true]
    exact lookup_overwrite other present
  · rw [put_of_not_mem present, List.lookup_append, List.lookup_cons]
    have absentBefore : (entries.take index).lookup key = none := by
      rw [List.lookup_eq_none_iff]
      intro entry member
      have : key ≠ entry.1 := by
        rintro rfl
        exact present (List.mem_map_of_mem (List.mem_of_mem_take member))
      simpa using this
    by_cases same : other = key
    · subst other
      simp [absentBefore]
    · have differs : (other == key) = false := by simpa using same
      simp only [differs, if_neg same]
      conv_rhs => rw [← List.take_append_drop index entries, List.lookup_append]

end Put

section Updates

variable [DecidableEq κ]

theorem putLast_map (image : α → β) (entries : List (κ × α)) (key : κ) (value : α) :
    putLast (entries.map fun entry => (entry.1, image entry.2)) key (image value) =
      (putLast entries key value).map fun entry => (entry.1, image entry.2) := by
  have sameKeys : keys (entries.map fun entry => (entry.1, image entry.2)) = keys entries := by
    rw [keys, keys, List.map_map]
    rfl
  by_cases present : key ∈ keys entries
  · simp only [putLast, put, sameKeys, present, if_true, List.map_map]
    apply List.map_congr_left
    intro entry _
    by_cases same : entry.1 = key <;> simp [same]
  · rw [putLast_of_not_mem present, putLast_of_not_mem (by rwa [sameKeys])]
    simp

theorem length_le_foldl_putLast (updates entries : List (κ × α)) :
    entries.length ≤
      (updates.foldl (fun map entry => putLast map entry.1 entry.2) entries).length := by
  induction updates generalizing entries with
  | nil => exact Nat.le_refl _
  | cons update rest ih => exact Nat.le_trans length_le_put (ih _)

/-- Where a run of updates fits, so does the first. -/
theorem room_of_foldl_putLast {updates entries : List (κ × α)} {key : κ} {value : α} {capacity : ℕ}
    (room : (updates.foldl (fun entries update => putLast entries update.1 update.2)
      (putLast entries key value)).length ≤ capacity) :
    key ∈ keys entries ∨ entries.length < capacity := by
  by_cases present : key ∈ keys entries
  · exact Or.inl present
  · have grown : (putLast entries key value).length ≤ _ := length_le_foldl_putLast updates _
    rw [putLast, length_put_of_not_mem present] at grown
    right
    exact lt_of_lt_of_le grown room

theorem length_foldl_putLast_le (updates entries : List (κ × α)) :
    (updates.foldl (fun map entry => putLast map entry.1 entry.2) entries).length ≤
      entries.length + updates.length := by
  induction updates generalizing entries with
  | nil => exact Nat.le_refl _
  | cons update rest ih =>
      have grown : (putLast entries update.1 update.2).length ≤ entries.length + 1 := length_put_le
      have rest := ih (putLast entries update.1 update.2)
      simp only [List.foldl_cons, List.length_cons]
      omega

theorem mem_of_mem_foldl_put (index : List (κ × α) → κ → ℕ) {updates entries : List (κ × α)}
    {entry : κ × α}
    (member : entry ∈ updates.foldl
      (fun map entry => put (index map entry.1) map entry.1 entry.2) entries) :
    entry ∈ entries ∨ entry ∈ updates := by
  induction updates generalizing entries with
  | nil => exact Or.inl member
  | cons update rest ih =>
      rcases ih member with earlier | later
      · rcases mem_of_mem_put earlier with rfl | old
        · exact Or.inr (by simp)
        · exact Or.inl old
      · exact Or.inr (by simp [later])

theorem mem_keys_foldl_putLast (updates entries : List (κ × α)) (key : κ) :
    key ∈ keys (updates.foldl (fun map entry => putLast map entry.1 entry.2) entries) ↔
      key ∈ keys entries ∨ key ∈ keys updates := by
  induction updates generalizing entries with
  | nil => simp
  | cons update rest ih =>
      rw [List.foldl_cons, ih, putLast, mem_keys_put, keys, keys, keys, List.map_cons,
        List.mem_cons]
      tauto

theorem nodup_keys_foldl_put (index : List (κ × α) → κ → ℕ)
    (updates : List (κ × α)) {entries : List (κ × α)} (nodup : (keys entries).Nodup) :
    (keys (updates.foldl (fun map entry => put (index map entry.1) map entry.1 entry.2)
      entries)).Nodup := by
  induction updates generalizing entries with
  | nil => exact nodup
  | cons update rest ih => exact ih (nodup_keys_put nodup)

theorem lookup_foldl_put_of_not_mem (index : List (κ × α) → κ → ℕ) {updates : List (κ × α)}
    {key : κ} (absent : key ∉ keys updates) (entries : List (κ × α)) :
    (updates.foldl (fun map entry => put (index map entry.1) map entry.1 entry.2)
      entries).lookup key = entries.lookup key := by
  induction updates generalizing entries with
  | nil => rfl
  | cons update rest ih =>
      simp only [keys, List.map_cons, List.mem_cons, not_or] at absent
      rw [List.foldl_cons, ih absent.2, lookup_put, if_neg absent.1]

/-- The last update of a key decides its value. -/
theorem lookup_foldl_put (index : List (κ × α) → κ → ℕ) (before : List (κ × α))
    {after : List (κ × α)} {key : κ} (value : α) (last : key ∉ keys after)
    (entries : List (κ × α)) :
    ((before ++ (key, value) :: after).foldl
      (fun map entry => put (index map entry.1) map entry.1 entry.2) entries).lookup key =
        some value := by
  rw [List.foldl_append, List.foldl_cons, lookup_foldl_put_of_not_mem index last, lookup_put,
    if_pos rfl]

theorem exists_last {updates : List (κ × α)} {key : κ} (member : key ∈ keys updates) :
    ∃ before value after, updates = before ++ (key, value) :: after ∧ key ∉ keys after := by
  induction updates with
  | nil => simp at member
  | cons update rest ih =>
      by_cases later : key ∈ keys rest
      · rcases ih later with ⟨before, value, after, rfl, last⟩
        exact ⟨update :: before, value, after, rfl, last⟩
      · rcases List.mem_cons.mp member with rfl | inRest
        · exact ⟨[], update.2, rest, rfl, later⟩
        · exact absurd inRest later

/-- A map made by updates has one entry for each key they mention. -/
theorem length_foldl_putLast (updates : List (κ × α)) :
    (updates.foldl (fun map entry => putLast map entry.1 entry.2) []).length =
      (keys updates).dedup.length := by
  have nodup : (keys (updates.foldl (fun map entry => putLast map entry.1 entry.2) [])).Nodup :=
    nodup_keys_foldl_put (fun map _ => map.length) updates nodup_keys_nil
  have perm : (keys (updates.foldl (fun map entry => putLast map entry.1 entry.2) [])).Perm
      (keys updates).dedup := by
    rw [List.perm_ext_iff_of_nodup nodup (List.nodup_dedup _)]
    intro key
    rw [mem_keys_foldl_putLast, List.mem_dedup]
    simp
  simpa [keys] using perm.length_eq

end Updates

section Bounded

variable [DecidableEq κ] {capacity : ℕ} {names : List κ} {entries : List (κ × α)} {key : κ}

/-- An update of a map of limited size; a new key is dropped when the map is full. -/
def putWithin (capacity : ℕ) (entries : List (κ × α)) (key : κ) (value : α) : List (κ × α) :=
  if key ∈ keys entries ∨ entries.length < capacity then putLast entries key value else entries

/-- The keys before the first occurrence of a key. -/
abbrev keysBefore (names : List κ) (key : κ) : List κ :=
  names.takeWhile fun other => other ≠ key

/-- First come, first served: the map holds the keys before which fewer than `capacity` others
came. -/
structure FirstServed (capacity : ℕ) (names : List κ) (entries : List (κ × α)) : Prop where
  length : entries.length = min names.dedup.length capacity
  mem : ∀ key, key ∈ keys entries ↔
    key ∈ names ∧ (keysBefore names key).dedup.length < capacity

theorem length_dedup_concat (names : List κ) (key : κ) :
    (names ++ [key]).dedup.length = names.dedup.length + if key ∈ names then 0 else 1 := by
  rw [← List.card_toFinset, ← List.card_toFinset, List.toFinset_append]
  by_cases present : key ∈ names
  · simp [present]
  · rw [if_neg present, Finset.card_union_of_disjoint]
    · simp
    · simpa using present

theorem keysBefore_of_not_mem (absent : key ∉ names) : keysBefore names key = names := by
  rw [List.takeWhile_eq_self_iff]
  intro other member
  simpa using fun same : other = key => absent (same ▸ member)

theorem keysBefore_append_of_mem (present : key ∈ names) (later : List κ) :
    keysBefore (names ++ later) key = keysBefore names key := by
  induction names with
  | nil => cases present
  | cons first rest ih =>
      by_cases here : first = key
      · simp [keysBefore, here]
      · have inRest : key ∈ rest := by
          simpa [Ne.symm here] using present
        simpa [keysBefore, here] using ih inRest

theorem keysBefore_concat_of_not_mem (absent : key ∉ names) :
    keysBefore (names ++ [key]) key = names := by
  rw [keysBefore, List.takeWhile_append_of_pos]
  · simp
  · intro other member
    simpa using fun same : other = key => absent (same ▸ member)

theorem length_keysBefore_le : (keysBefore names key).dedup.length ≤ names.dedup.length := by
  rw [← List.card_toFinset, ← List.card_toFinset]
  apply Finset.card_le_card
  intro other member
  rw [List.mem_toFinset] at member ⊢
  exact (List.takeWhile_sublist _).subset member

theorem firstServed_nil : FirstServed capacity ([] : List κ) ([] : List (κ × α)) := by
  constructor <;> simp

theorem FirstServed.accepts (served : FirstServed capacity names entries) (key : κ) :
    (key ∈ keys entries ∨ entries.length < capacity) ↔
      (keysBefore names key).dedup.length < capacity := by
  rw [served.mem, served.length]
  by_cases present : key ∈ names
  · have shorter := @length_keysBefore_le _ _ names key
    constructor
    · rintro (⟨_, early⟩ | room) <;> omega
    · intro early
      left
      exact ⟨present, early⟩
  · rw [keysBefore_of_not_mem present]
    simp only [present, false_and, false_or]
    omega

theorem FirstServed.putWithin (served : FirstServed capacity names entries) (key : κ)
    (value : α) :
    FirstServed capacity (names ++ [key]) (putWithin capacity entries key value) := by
  have accepts := served.accepts key
  rw [AssocList.putWithin]
  split_ifs with accepted
  · have early := accepts.mp accepted
    constructor
    · rw [length_dedup_concat]
      by_cases present : key ∈ names
      · have held : key ∈ keys entries := (served.mem key).mpr ⟨present, early⟩
        rw [putLast, length_put_of_mem held, if_pos present]
        exact served.length
      · have absent : key ∉ keys entries := fun held => present ((served.mem key).mp held).1
        rw [keysBefore_of_not_mem present] at early
        rw [putLast, length_put_of_not_mem absent, if_neg present, served.length]
        omega
    · intro other
      rw [putLast, mem_keys_put, served.mem]
      by_cases present : other ∈ names
      · rw [keysBefore_append_of_mem present]
        simp only [List.mem_append, present, true_or, true_and]
        constructor
        · rintro (rfl | early')
          · exact early
          · exact early'
        · exact Or.inr
      · by_cases same : other = key
        · subst same
          rw [keysBefore_of_not_mem present] at early
          simp [keysBefore_concat_of_not_mem present, early]
        · simp [present, same]
  · have late := mt accepts.mpr accepted
    push Not at accepted
    constructor
    · rw [length_dedup_concat, served.length]
      have shorter := @length_keysBefore_le _ _ names key
      split_ifs <;> omega
    · intro other
      rw [served.mem]
      by_cases present : other ∈ names
      · rw [keysBefore_append_of_mem present]
        simp [present]
      · by_cases same : other = key
        · subst same
          rw [keysBefore_of_not_mem present] at late
          simp [keysBefore_concat_of_not_mem present, present, late]
        · simp [present, same]

end Bounded

theorem filter_eq_singleton [DecidableEq κ] {entries : List (κ × α)} {key : κ} {value : α}
    (nodup : (keys entries).Nodup) (found : entries.lookup key = some value) :
    entries.filter (fun entry => entry.1 = key) = [(key, value)] := by
  induction entries with
  | nil => simp at found
  | cons entry rest ih =>
      rcases entry with ⟨first, old⟩
      simp only [keys, List.map_cons, List.nodup_cons] at nodup
      by_cases here : first = key
      · subst here
        simp only [List.lookup_cons, beq_self_eq_true, Option.some.injEq] at found
        subst found
        have others : rest.filter (fun entry => entry.1 = first) = [] := by
          rw [List.filter_eq_nil_iff]
          intro entry member
          have : entry.1 ≠ first := by
            rintro rfl
            exact nodup.1 (List.mem_map_of_mem member)
          simpa using this
        simp [others]
      · have test : (key == first) = false := beq_eq_false_iff_ne.mpr (Ne.symm here)
        rw [List.lookup_cons, test] at found
        simp [here, ih nodup.2 found]

/-- A map read back entry by entry in its own order is unchanged. -/
theorem foldl_putLast_of_nodup [DecidableEq κ] (done rest : List (κ × α))
    (nodup : (keys (done ++ rest)).Nodup) :
    rest.foldl (fun entries entry => putLast entries entry.1 entry.2) done = done ++ rest := by
  induction rest generalizing done with
  | nil => simp
  | cons entry rest ih =>
      have absent : entry.1 ∉ keys done := by
        intro member
        simp only [keys, List.map_append, List.map_cons] at nodup
        exact (List.disjoint_of_nodup_append nodup) member (by simp)
      rw [List.foldl_cons, putLast_of_not_mem absent, ih]
      · simp
      · simpa using nodup

theorem mem_of_lookup [DecidableEq κ] {entries : List (κ × α)} {key : κ} {value : α}
    (found : entries.lookup key = some value) : (key, value) ∈ entries := by
  rcases List.lookup_eq_some_iff.mp found with ⟨before, after, rfl, _⟩
  simp

theorem lookup_of_mem [DecidableEq κ] {entries : List (κ × α)} {key : κ} {value : α}
    (nodup : (keys entries).Nodup) (member : (key, value) ∈ entries) :
    entries.lookup key = some value := by
  induction entries with
  | nil => simp at member
  | cons entry rest ih =>
      rcases entry with ⟨first, old⟩
      simp only [keys, List.map_cons, List.nodup_cons] at nodup
      rcases List.mem_cons.mp member with same | later
      · rcases Prod.mk.inj same with ⟨rfl, rfl⟩
        simp
      · have differs : key ≠ first := by
          rintro rfl
          exact nodup.1 (List.mem_map_of_mem later)
        have test : (key == first) = false := beq_eq_false_iff_ne.mpr differs
        simpa only [List.lookup_cons, test] using ih nodup.2 later

theorem filter_eq_singleton_iff [DecidableEq κ] {entries : List (κ × α)} {key : κ} {value : α}
    (nodup : (keys entries).Nodup) :
    entries.filter (fun entry => entry.1 = key) = [(key, value)] ↔
      entries.lookup key = some value := by
  refine ⟨fun only => ?_, filter_eq_singleton nodup⟩
  have member : (key, value) ∈ entries.filter fun entry => entry.1 = key := by
    rw [only]
    exact List.mem_singleton_self _
  exact lookup_of_mem nodup (List.mem_of_mem_filter member)

theorem lookup_map_values [DecidableEq κ] (image : α → β) (entries : List (κ × α)) (key : κ) :
    (entries.map fun entry => (entry.1, image entry.2)).lookup key =
      (entries.lookup key).map image := by
  induction entries with
  | nil => rfl
  | cons entry rest ih =>
      rw [List.map_cons, List.lookup_cons, List.lookup_cons, ih]
      cases key == entry.1 <;> rfl

/-- An entry whose key is updated is the entry of an update. -/
theorem mem_of_mem_foldl_put_of_mem_keys [DecidableEq κ] (index : List (κ × α) → κ → ℕ)
    {updates entries : List (κ × α)} (nodup : (keys entries).Nodup) {entry : κ × α}
    (member : entry ∈ updates.foldl
      (fun map entry => put (index map entry.1) map entry.1 entry.2) entries)
    (updated : entry.1 ∈ keys updates) : entry ∈ updates := by
  rcases entry with ⟨key, value⟩
  rcases exists_last updated with ⟨before, value', after, rfl, last⟩
  have found := lookup_of_mem (nodup_keys_foldl_put index _ nodup) member
  rw [lookup_foldl_put index before value' last entries, Option.some.injEq] at found
  subst value'
  simp

/-- A map made by updates holds the last update of each key. -/
theorem mem_foldl_put [DecidableEq κ] (index : List (κ × α) → κ → ℕ) {updates : List (κ × α)}
    {entry : κ × α} :
    entry ∈ updates.foldl (fun map entry => put (index map entry.1) map entry.1 entry.2) [] ↔
      ∃ before after, updates = before ++ entry :: after ∧ entry.1 ∉ keys after := by
  rcases entry with ⟨key, value⟩
  constructor
  · intro member
    have updated : (key, value) ∈ updates :=
      (mem_of_mem_foldl_put index member).resolve_left List.not_mem_nil
    rcases exists_last (List.mem_map_of_mem updated) with ⟨before, value', after, rfl, last⟩
    have found := lookup_of_mem (nodup_keys_foldl_put index _ nodup_keys_nil) member
    rw [lookup_foldl_put index before value' last [], Option.some.injEq] at found
    subst value'
    exact ⟨before, after, rfl, last⟩
  · rintro ⟨before, after, rfl, last⟩
    exact mem_of_lookup (lookup_foldl_put index before value last [])

/-- A property of every item and of what stands after it, item by item. -/
theorem forall_split_cons {ι : Type*} {P : ι → List ι → Prop} {first : ι} {rest : List ι} :
    (∀ before item after, first :: rest = before ++ item :: after → P item after) ↔
      P first rest ∧ ∀ before item after, rest = before ++ item :: after → P item after := by
  constructor
  · intro each
    exact ⟨each [] first rest rfl,
      fun before item after split => each (first :: before) item after (by rw [split]; rfl)⟩
  · rintro ⟨here, later⟩ before item after split
    cases before with
    | nil =>
        rcases List.cons.inj split with ⟨rfl, rfl⟩
        exact here
    | cons head before =>
        rcases List.cons.inj split with ⟨_, rfl⟩
        exact later before item after rfl

section Identified

variable {δ : Type*} {ident : κ → δ}

/-- The entries by the identities of their keys. -/
abbrev identified (ident : κ → δ) (entries : List (κ × α)) : List (δ × α) :=
  entries.map fun entry => (ident entry.1, entry.2)

theorem keys_identified (entries : List (κ × α)) :
    keys (identified ident entries) = (keys entries).map ident := by
  simp [identified, keys]

variable [DecidableEq δ]

/-- The update of a map which compares its keys by `ident`.  An entry keeps the key object it
was inserted with. -/
def putBy (ident : κ → δ) (entries : List (κ × α)) (key : κ) (value : α) : List (κ × α) :=
  if ident key ∈ entries.map fun entry => ident entry.1 then
    entries.map fun entry => if ident entry.1 = ident key then (entry.1, value) else entry
  else
    entries ++ [(key, value)]

theorem identified_putBy (entries : List (κ × α)) (key : κ) (value : α) :
    identified ident (putBy ident entries key value) =
      putLast (identified ident entries) (ident key) value := by
  unfold putBy
  split_ifs with present
  · have listed : ident key ∈ keys (identified ident entries) := by
      simpa [identified, keys] using present
    rw [putLast, put, if_pos listed, identified, identified, List.map_map, List.map_map]
    apply List.map_congr_left
    intro entry _
    by_cases same : ident entry.1 = ident key <;> simp [same]
  · have unlisted : ident key ∉ keys (identified ident entries) := by
      simpa [identified, keys] using present
    rw [putLast_of_not_mem unlisted]
    simp [identified]

theorem identified_foldl_putBy (ident : κ → δ) (updates entries : List (κ × α)) :
    identified ident (updates.foldl (fun map entry => putBy ident map entry.1 entry.2) entries) =
      (identified ident updates).foldl (fun map entry => putLast map entry.1 entry.2)
        (identified ident entries) := by
  induction updates generalizing entries with
  | nil => rfl
  | cons update rest ih => rw [List.foldl_cons, ih, identified_putBy]; rfl

/-- An update under a known identity leaves the keys as they are. -/
theorem keys_putBy_of_mem {entries : List (κ × α)} {key : κ} {value : α}
    (present : ident key ∈ (keys entries).map ident) :
    keys (putBy ident entries key value) = keys entries := by
  have listed : ident key ∈ entries.map fun entry => ident entry.1 := by
    simpa [keys] using present
  rw [putBy, if_pos listed, keys, keys, List.map_map]
  apply List.map_congr_left
  intro entry _
  by_cases same : ident entry.1 = ident key <;> simp [same]

theorem keys_foldl_putBy_of_mem {updates entries : List (κ × α)}
    (present : ∀ update ∈ updates, ident update.1 ∈ (keys entries).map ident) :
    keys (updates.foldl (fun map entry => putBy ident map entry.1 entry.2) entries) =
      keys entries := by
  induction updates generalizing entries with
  | nil => rfl
  | cons update rest ih =>
      have here : keys (putBy ident entries update.1 update.2) = keys entries :=
        keys_putBy_of_mem (present update (by simp))
      rw [List.foldl_cons, ih, here]
      intro other member
      rw [here]
      exact present other (by simp [member])

theorem mem_keys_of_mem_putBy {entries : List (κ × α)} {key other : κ} {value : α}
    (member : other ∈ keys (putBy ident entries key value)) :
    other ∈ keys entries ∨ other = key := by
  by_cases present : ident key ∈ (keys entries).map ident
  · rw [keys_putBy_of_mem present] at member
    exact Or.inl member
  · have unlisted : ident key ∉ entries.map fun entry => ident entry.1 := by
      simpa [keys] using present
    rw [putBy, if_neg unlisted, keys, List.map_append, List.mem_append] at member
    exact member.imp_right List.mem_singleton.mp

theorem mem_keys_of_mem_foldl_putBy {updates entries : List (κ × α)} {key : κ}
    (member : key ∈ keys
      (updates.foldl (fun map entry => putBy ident map entry.1 entry.2) entries)) :
    key ∈ keys entries ∨ key ∈ keys updates := by
  induction updates generalizing entries with
  | nil => exact Or.inl member
  | cons update rest ih =>
      rcases ih member with earlier | later
      · rcases mem_keys_of_mem_putBy earlier with old | rfl
        · exact Or.inl old
        · exact Or.inr (by simp)
      · exact Or.inr (by simp [later])

theorem nodup_foldl_putBy (updates : List (κ × α)) {entries : List (κ × α)}
    (nodup : ((keys entries).map ident).Nodup) :
    ((keys (updates.foldl (fun map entry => putBy ident map entry.1 entry.2) entries)).map
      ident).Nodup := by
  rw [← keys_identified] at nodup ⊢
  rw [identified_foldl_putBy]
  exact nodup_keys_foldl_put (fun map _ => map.length) _ nodup

theorem ident_mem_foldl_putBy {updates entries : List (κ × α)} {identity : δ} :
    identity ∈ (keys (updates.foldl (fun map entry => putBy ident map entry.1 entry.2)
      entries)).map ident ↔
        identity ∈ (keys entries).map ident ∨ identity ∈ (keys updates).map ident := by
  simp only [← keys_identified]
  rw [identified_foldl_putBy, mem_keys_foldl_putLast]

/-- A value comes from an entry or from an update of the same identity. -/
theorem exists_of_mem_foldl_putBy {updates entries : List (κ × α)} {entry : κ × α}
    (member : entry ∈ updates.foldl (fun map entry => putBy ident map entry.1 entry.2) entries) :
    (∃ old ∈ entries, ident old.1 = ident entry.1 ∧ old.2 = entry.2) ∨
      ∃ update ∈ updates, ident update.1 = ident entry.1 ∧ update.2 = entry.2 := by
  have held := List.mem_map_of_mem (f := fun entry => (ident entry.1, entry.2)) member
  rw [← identified, identified_foldl_putBy] at held
  simpa [identified] using mem_of_mem_foldl_put (fun map _ => map.length) held

/-- Where an identity is updated, its value comes from an update. -/
theorem exists_update_of_mem_foldl_putBy {updates entries : List (κ × α)} {entry : κ × α}
    (nodup : ((keys entries).map ident).Nodup)
    (member : entry ∈ updates.foldl (fun map entry => putBy ident map entry.1 entry.2) entries)
    (updated : ident entry.1 ∈ (keys updates).map ident) :
    ∃ update ∈ updates, ident update.1 = ident entry.1 ∧ update.2 = entry.2 := by
  have held := List.mem_map_of_mem (f := fun entry => (ident entry.1, entry.2)) member
  rw [← identified, identified_foldl_putBy] at held
  rw [← keys_identified] at nodup updated
  have last := mem_of_mem_foldl_put_of_mem_keys (fun map _ => map.length) nodup held updated
  simpa [identified] using last

end Identified

theorem forall₂_unzip {K : κ → ι → Prop} {R : α → β → Prop}
    {left : List (κ × α)} {right : List (ι × β)} :
    List.Forall₂ (fun entry other => K entry.1 other.1 ∧ R entry.2 other.2) left right ↔
      List.Forall₂ K (left.map Prod.fst) (right.map Prod.fst) ∧
        List.Forall₂ R (left.map Prod.snd) (right.map Prod.snd) := by
  simp only [List.forall₂_map_left_iff, List.forall₂_map_right_iff]
  induction left generalizing right with
  | nil =>
      cases right <;> simp
  | cons entry rest ih =>
      cases right with
      | nil => simp
      | cons other others =>
          simp only [List.forall₂_cons, ih]
          tauto

theorem keys_eq_of_forall₂ {R : κ × α → κ × β → Prop} {left : List (κ × α)}
    {right : List (κ × β)} (aligned : List.Forall₂ R left right)
    (named : ∀ entry other, R entry other → entry.1 = other.1) : keys left = keys right := by
  rw [← List.forall₂_eq_eq_eq, keys, keys, List.forall₂_map_left_iff,
    List.forall₂_map_right_iff]
  exact aligned.imp named

section Related

variable {K : κ → ι → Prop} {R : α → β → Prop}

/-- Entries matched one to one, up to the order of iteration. -/
def Related (K : κ → ι → Prop) (R : α → β → Prop) :
    List (κ × α) → List (ι × β) → Prop :=
  Relation.Comp List.Perm (List.Forall₂ fun entry other => K entry.1 other.1 ∧ R entry.2 other.2)

theorem related_nil : Related K R [] [] :=
  ⟨[], List.Perm.nil, List.Forall₂.nil⟩

theorem related_of_forall₂ {left : List (κ × α)} {right : List (ι × β)}
    (aligned : List.Forall₂ (fun entry other => K entry.1 other.1 ∧ R entry.2 other.2)
      left right) : Related K R left right :=
  ⟨left, List.Perm.refl left, aligned⟩

theorem Related.perm_left {left left' : List (κ × α)} {right : List (ι × β)}
    (reordered : left'.Perm left) (related : Related K R left right) :
    Related K R left' right := by
  rcases related with ⟨middle, perm, aligned⟩
  exact ⟨middle, reordered.trans perm, aligned⟩

theorem Related.perm_right {left : List (κ × α)} {right right' : List (ι × β)}
    (related : Related K R left right) (reordered : right.Perm right') :
    Related K R left right' := by
  rcases related with ⟨middle, perm, aligned⟩
  have swapped : Relation.Comp
      (List.Forall₂ fun entry other => K entry.1 other.1 ∧ R entry.2 other.2)
      List.Perm middle right' := ⟨right, aligned, reordered⟩
  rw [List.forall₂_comp_perm_eq_perm_comp_forall₂] at swapped
  rcases swapped with ⟨middle', perm', aligned'⟩
  exact ⟨middle', perm.trans perm', aligned'⟩

theorem Related.cons {left : List (κ × α)} {right : List (ι × β)} {key : κ} {other : ι}
    {value : α} {image : β} (keyMatch : K key other) (valueMatch : R value image)
    (related : Related K R left right) :
    Related K R ((key, value) :: left) ((other, image) :: right) := by
  rcases related with ⟨middle, perm, aligned⟩
  exact ⟨(key, value) :: middle, perm.cons _, aligned.cons ⟨keyMatch, valueMatch⟩⟩

theorem Related.symm {left : List (κ × α)} {right : List (ι × β)}
    (related : Related K R left right) :
    Related (fun other key => K key other) (fun image value => R value image) right left := by
  rcases related with ⟨middle, perm, aligned⟩
  exact (related_of_forall₂ aligned.flip).perm_right perm.symm

/-- One side put in the order of the other. -/
theorem Related.exists_forall₂ {left : List (κ × α)} {right : List (ι × β)}
    (related : Related K R left right) :
    ∃ middle, List.Forall₂ (fun entry other => K entry.1 other.1 ∧ R entry.2 other.2) left middle ∧
      middle.Perm right := by
  have swapped : Relation.Comp List.Perm
      (List.Forall₂ fun entry other => K entry.1 other.1 ∧ R entry.2 other.2) left right := related
  rwa [← List.forall₂_comp_perm_eq_perm_comp_forall₂] at swapped

theorem Related.trans {γ μ : Type*} {L : ι → μ → Prop} {S : β → γ → Prop}
    {left : List (κ × α)} {middle : List (ι × β)} {right : List (μ × γ)}
    (first : Related K R left middle) (second : Related L S middle right) :
    Related (Relation.Comp K L) (Relation.Comp R S) left right := by
  rcases first.exists_forall₂ with ⟨aligned, matched, perm⟩
  rcases second.perm_left perm with ⟨reordered, perm', matched'⟩
  rcases (show Related L S aligned right from
      ⟨reordered, perm', matched'⟩).exists_forall₂ with ⟨last, matched'', perm''⟩
  refine (related_of_forall₂ ?_).perm_right perm''
  clear perm perm' perm'' first second matched'
  induction matched generalizing last with
  | nil =>
      cases matched''
      exact .nil
  | cons here _ ih =>
      cases matched'' with
      | cons there rest =>
          exact .cons ⟨⟨_, here.1, there.1⟩, ⟨_, here.2, there.2⟩⟩ (ih _ rest)

/-- The two sides hold the same keys whenever `K` matches equal keys only with equal keys. -/
theorem Related.mem_keys_iff
    (lawful : ∀ {key key' : κ} {other other' : ι}, K key other → K key' other' →
      (key = key' ↔ other = other'))
    {left : List (κ × α)} {right : List (ι × β)} {key : κ} {other : ι}
    (keyMatch : K key other) (related : Related K R left right) :
    key ∈ keys left ↔ other ∈ keys right := by
  rcases related with ⟨middle, perm, aligned⟩
  rw [(perm.map Prod.fst).mem_iff]
  induction aligned generalizing left with
  | nil => simp
  | cons head _ ih =>
      simp only [keys, List.map_cons, List.mem_cons]
      exact or_congr (lawful keyMatch head.1) (ih (List.Perm.refl _))

theorem Related.nodup_right
    (lawful : ∀ {key key' : κ} {other other' : ι}, K key other → K key' other' →
      (key = key' ↔ other = other'))
    {left : List (κ × α)} {right : List (ι × β)} (nodup : (keys left).Nodup)
    (related : Related K R left right) : (keys right).Nodup := by
  rcases related with ⟨middle, perm, aligned⟩
  replace nodup := ((perm.map Prod.fst).nodup_iff).mp nodup
  clear perm
  induction aligned with
  | nil => simp
  | cons head tail ih =>
      simp only [List.map_cons, List.nodup_cons] at nodup ⊢
      refine ⟨?_, ih nodup.2⟩
      rw [← Related.mem_keys_iff lawful head.1 (related_of_forall₂ tail)]
      exact nodup.1

/-- One update on each side, with matching keys and values, keeps two maps related. -/
theorem related_put [DecidableEq κ] [DecidableEq ι]
    (lawful : ∀ {key key' : κ} {other other' : ι}, K key other → K key' other' →
      (key = key' ↔ other = other'))
    {left : List (κ × α)} {right : List (ι × β)} {key : κ} {other : ι} {value : α} {image : β}
    (keyMatch : K key other) (valueMatch : R value image) (related : Related K R left right)
    (index index' : ℕ) :
    Related K R (put index left key value) (put index' right other image) := by
  have sameKeys := related.mem_keys_iff lawful keyMatch
  by_cases present : key ∈ keys left
  · have present' := sameKeys.mp present
    rcases related with ⟨middle, perm, aligned⟩
    simp only [put, present, present', if_true]
    refine ⟨_, perm.map _, ?_⟩
    rw [List.forall₂_map_left_iff, List.forall₂_map_right_iff]
    refine aligned.imp ?_
    intro entry entry' matched
    by_cases here : entry.1 = key
    · have here' : entry'.1 = other := (lawful matched.1 keyMatch).mp here
      simp only [here, here', if_true]
      exact ⟨keyMatch, valueMatch⟩
    · have here' : ¬entry'.1 = other := fun same => here ((lawful matched.1 keyMatch).mpr same)
      simp only [here, here', if_false]
      exact matched
  · have absent' : other ∉ keys right := fun member => present (sameKeys.mpr member)
    exact ((related.cons keyMatch valueMatch).perm_left (perm_put_of_not_mem present)).perm_right
      (perm_put_of_not_mem absent').symm

/-- Matching updates made in the same order, at whatever indices. -/
theorem related_foldl_put [DecidableEq κ] [DecidableEq ι]
    (lawful : ∀ {key key' : κ} {other other' : ι}, K key other → K key' other' →
      (key = key' ↔ other = other'))
    (index : List (κ × α) → κ → ℕ) (index' : List (ι × β) → ι → ℕ)
    {updates : List (κ × α)} {updates' : List (ι × β)}
    (matched : List.Forall₂ (fun entry other => K entry.1 other.1 ∧ R entry.2 other.2)
      updates updates')
    {left : List (κ × α)} {right : List (ι × β)} (related : Related K R left right) :
    Related K R
      (updates.foldl (fun map entry => put (index map entry.1) map entry.1 entry.2) left)
      (updates'.foldl (fun map entry => put (index' map entry.1) map entry.1 entry.2) right) := by
  induction matched generalizing left right with
  | nil => exact related
  | cons here _ ih => exact ih (related_put lawful here.1 here.2 related _ _)

/-- Matching keys are enough of every update but the last of each key, which alone decides the
value. -/
theorem related_foldl_put_of_last [DecidableEq κ] [DecidableEq ι]
    (lawful : ∀ {key key' : κ} {other other' : ι}, K key other → K key' other' →
      (key = key' ↔ other = other'))
    (index : List (κ × α) → κ → ℕ) (index' : List (ι × β) → ι → ℕ)
    {τ : Type*} (update : τ → κ × α) (update' : τ → ι × β) {items : List τ}
    (keyed : ∀ item ∈ items, K (update item).1 (update' item).1)
    (last : ∀ before item after, items = before ++ item :: after →
      (update' item).1 ∉ keys (after.map update') → R (update item).2 (update' item).2) :
    Related K R
      ((items.map update).foldl
        (fun map entry => put (index map entry.1) map entry.1 entry.2) [])
      ((items.map update').foldl
        (fun map entry => put (index' map entry.1) map entry.1 entry.2) []) := by
  have nodup := nodup_keys_foldl_put index (items.map update)
    nodup_keys_nil
  have nodup' := nodup_keys_foldl_put index' (items.map update')
    nodup_keys_nil
  have named : List.Forall₂ (fun entry other => K entry.1 other.1 ∧ True)
      (items.map update) (items.map update') := by
    rw [List.forall₂_map_left_iff, List.forall₂_map_right_iff, List.forall₂_same]
    exact fun item member => ⟨keyed item member, trivial⟩
  rcases related_foldl_put (R := fun _ _ => True) lawful index index'
      named related_nil with ⟨middle, perm, aligned⟩
  refine ⟨middle, perm, Aligned.refine_of_mem aligned ?_⟩
  rintro ⟨key, value⟩ member ⟨other, image⟩ member' ⟨here, _⟩
  refine ⟨here, ?_⟩
  have found := lookup_of_mem nodup (perm.mem_iff.mpr member)
  have found' := lookup_of_mem nodup' member'
  have updated : other ∈ keys (items.map update') := by
    by_contra absent
    rw [lookup_foldl_put_of_not_mem index' absent] at found'
    cases found'
  rcases exists_last updated with ⟨before', image', after', split, fresh'⟩
  rw [split, lookup_foldl_put index' _ _ fresh', Option.some.injEq] at found'
  subst found'
  rcases List.map_eq_append_iff.mp split with ⟨before, rest, rfl, rfl, tail⟩
  rcases List.map_eq_cons_iff.mp tail with ⟨item, after, rfl, isUpdate, rfl⟩
  obtain rfl : (update' item).1 = other := by rw [isUpdate]
  obtain rfl : (update' item).2 = image' := by rw [isUpdate]
  have sameKey : key = (update item).1 :=
    (lawful here (keyed item (by simp))).mpr rfl
  have fresh : key ∉ keys (after.map update) := by
    intro inAfter
    rcases List.mem_map.mp inAfter with ⟨_, inMap, rfl⟩
    rcases List.mem_map.mp inMap with ⟨later, present, rfl⟩
    refine fresh' (List.mem_map.mpr ⟨update' later, List.mem_map_of_mem present, ?_⟩)
    exact (lawful (keyed later (by simp [present])) here).mp rfl
  rw [List.map_append, List.map_cons, show update item = (key, (update item).2) by rw [sameKey],
    lookup_foldl_put index _ _ fresh, Option.some.injEq] at found
  subst found
  exact last before item after rfl fresh'

end Related

section Lookups

variable [DecidableEq κ] {R : α → β → Prop}

/-- Entry by entry related maps answer a lookup alike. -/
theorem rel_lookup_of_forall₂ {left : List (κ × α)} {right : List (κ × β)}
    (aligned : List.Forall₂ (fun entry other => entry.1 = other.1 ∧ R entry.2 other.2) left right)
    (key : κ) : Option.Rel R (left.lookup key) (right.lookup key) := by
  induction aligned with
  | nil => exact .none
  | @cons entry other _ _ same _ ih =>
      rcases entry with ⟨name, value⟩
      rcases other with ⟨_, image⟩
      rcases same with ⟨rfl, related⟩
      simp only [List.lookup_cons]
      cases key == name with
      | true => exact .some related
      | false => exact ih

theorem rel_lookup_foldl_putLast {updates : List (κ × α)} {updates' : List (κ × β)}
    (aligned : List.Forall₂ (fun update other => update.1 = other.1 ∧ R update.2 other.2)
      updates updates')
    {left : List (κ × α)} {right : List (κ × β)}
    (begins : ∀ key, Option.Rel R (left.lookup key) (right.lookup key)) (key : κ) :
    Option.Rel R ((updates.foldl (fun map update => putLast map update.1 update.2) left).lookup key)
      ((updates'.foldl (fun map update => putLast map update.1 update.2) right).lookup key) := by
  induction aligned generalizing left right with
  | nil => exact begins key
  | @cons update other _ _ same _ ih =>
      rcases update with ⟨name, value⟩
      rcases other with ⟨_, image⟩
      rcases same with ⟨rfl, related⟩
      apply ih
      intro other
      simp only [putLast, lookup_put]
      split
      case isTrue => exact .some related
      case isFalse => exact begins other

end Lookups

end AssocList
