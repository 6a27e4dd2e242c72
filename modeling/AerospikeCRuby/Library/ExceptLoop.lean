import AerospikeCRuby.Library.Aligned

/-!
# Loops which may fail

A loop which converts its items one by one and folds the results into a state
succeeds exactly when every conversion does, and its result is then the plain
fold over the converted items.  Its failure is that of the first item which does
not convert.
-/

namespace ExceptLoop

universe u

variable {ε ι : Type*} {α β γ σ : Type u}

theorem bind_eq_ok {computation : Except ε α} {next : α → Except ε β} {result : β} :
    (computation >>= next) = .ok result ↔
      ∃ value, computation = .ok value ∧ next value = .ok result := by
  cases computation with
  | error failure => simp [bind, Except.bind]
  | ok value => simp [bind, Except.bind]

theorem bind_eq_error {computation : Except ε α} {next : α → Except ε β} {failure : ε} :
    (computation >>= next) = .error failure ↔
      computation = .error failure ∨
        ∃ value, computation = .ok value ∧ next value = .error failure := by
  cases computation with
  | error other => simp [bind, Except.bind]
  | ok value => simp [bind, Except.bind]

@[simp]
theorem toOption_ok (value : α) : (.ok value : Except ε α).toOption = some value := rfl

@[simp]
theorem toOption_error (failure : ε) : (.error failure : Except ε α).toOption = none := rfl

@[simp]
theorem toOption_bind (computation : Except ε α) (next : α → Except ε β) :
    (computation >>= next).toOption =
      computation.toOption.bind fun value => (next value).toOption := by
  cases computation with
  | error failure => rfl
  | ok value => rfl

theorem toOption_eq_some {computation : Except ε α} {value : α} :
    computation.toOption = some value ↔ computation = .ok value := by
  cases computation with
  | error failure => simp
  | ok result => simp

def collect (convert : ι → Except ε β) : List ι → Except ε (List β)
  | [] => .ok []
  | item :: rest => do
      let value ← convert item
      let values ← collect convert rest
      .ok (value :: values)

/-- Convert every item and fold it into the state at once. -/
def accumulate (convert : ι → Except ε β) (step : σ → β → σ) (state : σ) :
    List ι → Except ε σ
  | [] => .ok state
  | item :: rest => do
      let value ← convert item
      accumulate convert step (step state value) rest

variable {convert : ι → Except ε β} {step : σ → β → σ}

theorem collect_eq_ok {items : List ι} {values : List β} :
    collect convert items = .ok values ↔
      List.Forall₂ (fun item value => convert item = .ok value) items values := by
  induction items generalizing values with
  | nil => simp [collect, eq_comm]
  | cons item rest ih =>
      simp only [collect, bind_eq_ok, Except.ok.injEq]
      constructor
      · rintro ⟨value, converted, tail, rest, rfl⟩
        exact .cons converted (ih.mp rest)
      · rintro (_ | ⟨converted, rest⟩)
        exact ⟨_, converted, _, ih.mpr rest, rfl⟩

/-- Either no item has the property, or there is a first one which has. -/
theorem forall_or_exists_first (p : ι → Prop) (items : List ι) :
    (∀ item ∈ items, ¬p item) ∨
      ∃ before item after, items = before ++ item :: after ∧ (∀ other ∈ before, ¬p other) ∧
        p item := by
  induction items with
  | nil =>
      left
      intro item member
      cases member
  | cons first rest ih =>
      by_cases found : p first
      · exact Or.inr ⟨[], first, rest, rfl, by simp, found⟩
      · rcases ih with none | ⟨before, item, after, rfl, none, found'⟩
        · exact Or.inl (List.forall_mem_cons.mpr ⟨found, none⟩)
        · exact Or.inr ⟨first :: before, item, after, rfl,
            List.forall_mem_cons.mpr ⟨found, none⟩, found'⟩

theorem exists_collect_eq_ok {items : List ι} :
    (∃ values, collect convert items = .ok values) ↔
      ∀ item ∈ items, ∃ value, convert item = .ok value := by
  simp only [collect_eq_ok]
  constructor
  · rintro ⟨values, aligned⟩ item member
    rcases Aligned.exists_of_mem aligned member with ⟨value, _, converted⟩
    exact ⟨value, converted⟩
  · exact Aligned.exists_images

/-- The order of the items is that of the values. -/
theorem mem_of_collect {items : List ι} {values : List β}
    (collected : collect convert items = .ok values) {value : β} :
    value ∈ values ↔ ∃ item ∈ items, convert item = .ok value := by
  rw [collect_eq_ok] at collected
  induction collected with
  | nil => simp
  | @cons item other _ _ converted _ ih =>
      rw [List.mem_cons, ih, List.exists_mem_cons_iff, converted, Except.ok.injEq]
      exact or_congr_left eq_comm

theorem collect_perm {items items' : List ι} {values : List β} (perm : items'.Perm items)
    (collected : collect convert items = .ok values) :
    ∃ values', collect convert items' = .ok values' ∧ values'.Perm values := by
  simp only [collect_eq_ok] at collected ⊢
  exact List.perm_comp_forall₂ perm collected

theorem collect_append (items items' : List ι) :
    collect convert (items ++ items') = (do
      let values ← collect convert items
      let values' ← collect convert items'
      .ok (values ++ values')) := by
  induction items with
  | nil =>
      simp only [List.nil_append, collect]
      cases collect convert items' <;> rfl
  | cons item rest ih =>
      simp only [List.cons_append, collect, ih]
      cases convert item with
      | error failure => rfl
      | ok value =>
          cases collect convert rest with
          | error failure => rfl
          | ok values => cases collect convert items' <;> rfl

theorem collect_append_eq_ok {items items' : List ι} {result : List β} :
    collect convert (items ++ items') = .ok result ↔
      ∃ values values', collect convert items = .ok values ∧
        collect convert items' = .ok values' ∧ values ++ values' = result := by
  simp only [collect_append, bind_eq_ok, Except.ok.injEq]
  constructor
  · rintro ⟨values, front, values', back, joined⟩
    exact ⟨values, values', front, back, joined⟩
  · rintro ⟨values, values', front, back, joined⟩
    exact ⟨values, front, values', back, joined⟩

theorem collect_append_eq_error {items items' : List ι} {failure : ε} :
    collect convert (items ++ items') = .error failure ↔
      collect convert items = .error failure ∨
        ∃ values, collect convert items = .ok values ∧
          collect convert items' = .error failure := by
  simp only [collect_append, bind_eq_error, reduceCtorEq, and_false, exists_false, or_false]

theorem collect_cons_eq_error {item : ι} {items : List ι} {failure : ε} :
    collect convert (item :: items) = .error failure ↔
      convert item = .error failure ∨
        ∃ value, convert item = .ok value ∧ collect convert items = .error failure := by
  simp only [collect, bind_eq_error, reduceCtorEq, and_false, exists_false, or_false]

theorem collect_eq_error {items : List ι} {failure : ε} :
    collect convert items = .error failure ↔
      ∃ before item after values, items = before ++ item :: after ∧
        List.Forall₂ (fun item value => convert item = .ok value) before values ∧
        convert item = .error failure := by
  induction items with
  | nil => simp [collect]
  | cons item rest ih =>
      rw [collect_cons_eq_error]
      constructor
      · rintro (failed | ⟨value, converted, failed⟩)
        · exact ⟨[], item, rest, [], rfl, .nil, failed⟩
        · rcases ih.mp failed with ⟨before, bad, after, values, rfl, done, failed⟩
          exact ⟨item :: before, bad, after, value :: values, rfl, .cons converted done, failed⟩
      · rintro ⟨before, bad, after, values, split, done, failed⟩
        cases done with
        | nil =>
            rcases List.cons.inj split with ⟨rfl, rfl⟩
            exact Or.inl failed
        | cons converted done =>
            rcases List.cons.inj split with ⟨rfl, rfl⟩
            exact Or.inr ⟨_, converted, ih.mpr ⟨_, _, _, _, rfl, done, failed⟩⟩

section Fuel

variable {fueled : ℕ → ι → Except ε β}
  (kept : ∀ {fuel item value}, fueled fuel item = .ok value → fueled (fuel + 1) item = .ok value)

include kept

theorem of_le {fuel fuel' : ℕ} {item : ι} {value : β} (converted : fueled fuel item = .ok value)
    (le : fuel ≤ fuel') : fueled fuel' item = .ok value := by
  induction le with
  | refl => exact converted
  | step _ ih => exact kept ih

theorem collect_of_le {fuel fuel' : ℕ} {items : List ι} {values : List β}
    (converted : collect (fueled fuel) items = .ok values) (le : fuel ≤ fuel') :
    collect (fueled fuel') items = .ok values := by
  rw [collect_eq_ok] at converted ⊢
  exact converted.imp fun _ _ each => of_le kept each le

/-- Items which each convert with some fuel all convert with the same fuel. -/
theorem exists_collect {items : List ι}
    (each : ∀ item ∈ items, ∃ fuel value, fueled fuel item = .ok value) :
    ∃ fuel values, collect (fueled fuel) items = .ok values := by
  induction items with
  | nil => exact ⟨0, [], rfl⟩
  | cons item rest ih =>
      rcases each item List.mem_cons_self with ⟨fuel, value, converted⟩
      rcases ih fun other member => each other (List.mem_cons_of_mem _ member) with
        ⟨fuel', values, others⟩
      have first := of_le kept converted (le_max_left fuel fuel')
      have later := collect_of_le kept others (le_max_right fuel fuel')
      refine ⟨max fuel fuel', value :: values, ?_⟩
      simp only [collect, first, later]
      rfl

end Fuel

/-- The loop is the conversion of all items followed by a fold. -/
theorem accumulate_eq (state : σ) (items : List ι) :
    accumulate convert step state items =
      (collect convert items).map fun values => values.foldl step state := by
  induction items generalizing state with
  | nil => rfl
  | cons item rest ih =>
      simp only [accumulate, collect]
      cases convert item with
      | error failure => rfl
      | ok value =>
          show accumulate convert step (step state value) rest = _
          rw [ih]
          cases collect convert rest with
          | error failure => rfl
          | ok values => rfl

theorem accumulate_append (state : σ) (items items' : List ι) :
    accumulate convert step state (items ++ items') = (do
      let state ← accumulate convert step state items
      accumulate convert step state items') := by
  induction items generalizing state with
  | nil => rfl
  | cons item rest ih =>
      simp only [List.cons_append, accumulate]
      cases convert item with
      | error failure => rfl
      | ok value => exact ih (step state value)

theorem accumulate_eq_ok {state result : σ} {items : List ι} :
    accumulate convert step state items = .ok result ↔
      ∃ values, List.Forall₂ (fun item value => convert item = .ok value) items values ∧
        values.foldl step state = result := by
  rw [accumulate_eq]
  simp only [← collect_eq_ok]
  cases collect convert items with
  | error failure => simp [Except.map]
  | ok values => simp [Except.map]

theorem accumulate_eq_error {state : σ} {items : List ι} {failure : ε} :
    accumulate convert step state items = .error failure ↔
      collect convert items = .error failure := by
  rw [accumulate_eq]
  cases collect convert items with
  | error other => simp [Except.map]
  | ok values => simp [Except.map]

section Failure

variable {left : Except ε α} {right : Except ε β}

/-- Both computations go through, or both fail in the same way. -/
def SameFailure (left : Except ε α) (right : Except ε β) : Prop :=
  ∀ failure, left = .error failure ↔ right = .error failure

theorem SameFailure.bind {next : α → Except ε σ} {next' : β → Except ε γ}
    (first : SameFailure left right)
    (second : ∀ value value', left = .ok value → right = .ok value' →
      SameFailure (next value) (next' value')) :
    SameFailure (left >>= next) (right >>= next') := by
  cases left with
  | error failure =>
      rw [(first failure).mp rfl]
      exact fun other => ⟨fun same => by cases same; rfl, fun same => by cases same; rfl⟩
  | ok value =>
      cases right with
      | error failure => exact absurd ((first failure).mpr rfl) (by simp)
      | ok value' => exact second value value' rfl rfl

theorem sameFailure_bind_ok (computation : Except ε α) (result : α → β) :
    SameFailure (computation >>= fun value => .ok (result value)) computation := by
  intro failure
  rw [bind_eq_error]
  simp

theorem SameFailure.trans {other : Except ε σ} (first : SameFailure left right)
    (second : SameFailure right other) : SameFailure left other :=
  fun failure => (first failure).trans (second failure)

theorem SameFailure.exists_ok_iff (same : SameFailure left right) :
    (∃ value, left = .ok value) ↔ ∃ value, right = .ok value := by
  cases left with
  | error failure => simp [(same failure).mp rfl]
  | ok value =>
      cases right with
      | error failure => exact absurd ((same failure).mpr rfl) (by simp)
      | ok value' => simp

theorem sameFailure_accumulate (state : σ) (items : List ι) :
    SameFailure (accumulate convert step state items) (collect convert items) :=
  fun _ => accumulate_eq_error

/-- A loop over items fails as the loop over the parts of its items does. -/
theorem sameFailure_flatMap {κ : Type*} {perform : κ → Except ε σ} {parts : ι → List κ}
    {items : List ι}
    (each : ∀ item ∈ items, SameFailure (convert item) (collect perform (parts item))) :
    SameFailure (collect convert items) (collect perform (items.flatMap parts)) := by
  induction items with
  | nil => exact fun failure => by simp [collect]
  | cons item rest ih =>
      have later := ih fun other member => each other (List.mem_cons_of_mem _ member)
      rw [collect, List.flatMap_cons, collect_append]
      apply (each item List.mem_cons_self).bind
      intro value values _ _
      apply later.bind
      intro values values' _ _ failure
      simp

end Failure

section Reached

variable {step : σ → ι → Except ε σ} {P : List ι → σ → Prop} {items : List ι} {state result : σ}

/-- The state a loop leaves, also where it fails: what the items before the failure made. -/
def reached (step : σ → ι → Except ε σ) (state : σ) : List ι → σ
  | [] => state
  | item :: rest =>
      match step state item with
      | .ok next => reached step next rest
      | .error _ => state

theorem foldlM_invariant (keeps : ∀ item rest state next, P (item :: rest) state →
      step state item = .ok next → P rest next)
    (begins : P items state) (done : items.foldlM step state = .ok result) : P [] result := by
  induction items generalizing state with
  | nil =>
      cases done
      exact begins
  | cons item rest ih =>
      rw [List.foldlM_cons] at done
      rcases bind_eq_ok.mp done with ⟨next, stepped, done⟩
      exact ih (keeps item rest state next begins stepped) done

/-- What holds with the items to come holds where the loop ends, with those it did not reach. -/
theorem reached_invariant (keeps : ∀ item rest state next, P (item :: rest) state →
      step state item = .ok next → P rest next) (begins : P items state) :
    ∃ rest, rest <:+ items ∧ P rest (reached step state items) := by
  induction items generalizing state with
  | nil => exact ⟨[], List.suffix_rfl, begins⟩
  | cons item rest ih =>
      rw [reached]
      split
      case h_1 next stepped =>
        rcases ih (keeps item rest state next begins stepped) with ⟨left, suffix, ends⟩
        exact ⟨left, suffix.trans (List.suffix_cons item rest), ends⟩
      case h_2 => exact ⟨item :: rest, List.suffix_rfl, begins⟩

/-- Whether a loop fails does not depend on the state when its steps do not. -/
theorem sameFailure_foldlM {τ : Type u} {step' : τ → ι → Except ε τ} {state' : τ}
    (each : ∀ state state' item, SameFailure (step state item) (step' state' item)) :
    SameFailure (items.foldlM step state) (items.foldlM step' state') := by
  induction items generalizing state state' with
  | nil => exact fun failure => by simp [pure, Except.pure]
  | cons item rest ih =>
      rw [List.foldlM_cons, List.foldlM_cons]
      exact (each state state' item).bind fun _ _ _ _ => ih

end Reached

end ExceptLoop
