import AerospikeCRuby.Codec.Encode

/-!
# The encoders raise or answer

A conversion of a Ruby value ends in a result or in a Ruby exception, never with
the process.
-/

namespace AerospikeCRuby

variable {α β : Type} {rt : Runtime}

/-- The result is not the end of the process. -/
def Survives {α : Type} (result : Except Abort α) : Prop :=
  result ≠ .error .nullDeref

/-- The result is a Ruby exception. -/
def Raises {α : Type} (result : Except Abort α) : Prop :=
  ∃ failure, result = .error failure ∧ failure ≠ .nullDeref

theorem raises_of_survives {result : Except Abort α} (survives : Survives result)
    (refused : ∀ value, result ≠ .ok value) : Raises result := by
  cases result with
  | ok value => exact absurd rfl (refused value)
  | error failure =>
      refine ⟨failure, rfl, ?_⟩
      rintro rfl
      exact survives rfl

@[simp]
theorem survives_ok (value : α) : Survives (.ok value : Except Abort α) := by
  intro same
  cases same

theorem survives_bind {computation : Except Abort α} {next : α → Except Abort β}
    (first : Survives computation) (second : ∀ value, Survives (next value)) :
    Survives (computation >>= next) := by
  intro ended
  rcases ExceptLoop.bind_eq_error.mp ended with ended | ⟨value, _, ended⟩
  · exact first ended
  · exact second value ended

theorem raises_bind {computation : Except Abort α} {next : α → Except Abort β}
    (raised : Raises computation) : Raises (computation >>= next) := by
  rcases raised with ⟨failure, rfl, ruby⟩
  exact ⟨failure, rfl, ruby⟩

theorem raises_bind_of_survives {computation : Except Abort α} {next : α → Except Abort β}
    (first : Survives computation) (second : ∀ value, Raises (next value)) :
    Raises (computation >>= next) := by
  cases computation with
  | ok value => exact second value
  | error failure =>
      refine ⟨failure, rfl, ?_⟩
      rintro rfl
      exact first rfl

theorem survives_mapError (computation : Except String α) :
    Survives (computation.mapError Abort.raised) := by
  intro ended
  cases computation <;> cases ended

theorem survives_stringValueCStr (text : RbStr) : Survives (stringValueCStr text) := by
  intro ended
  unfold stringValueCStr at ended
  split_ifs at ended <;> cases ended

theorem survives_stringValue (value : RbVal) : Survives (rt.stringValue value) := by
  intro ended
  cases value with
  | bool flag => cases flag <;> cases ended
  | object state => exact survives_mapError _ ended
  | geoJson json => exact survives_mapError _ ended
  | data handle => exact survives_mapError _ ended
  | other type handle => exact survives_mapError _ ended
  | _ => cases ended

theorem survives_toS (value : RbVal) : Survives (rt.toS value) := by
  intro ended
  cases value with
  | nil => cases ended
  | bool flag => cases ended
  | integer value => cases ended
  | string text => cases ended
  | symbol name => cases ended
  | _ => exact survives_mapError _ ended

theorem survives_toCstr (value : RbVal) :
    Survives (do let tmp ← rt.toS value; stringValueCStr tmp) :=
  survives_bind (survives_toS value) survives_stringValueCStr

theorem survives_rbAryLenInt (elements : List α) : Survives (rbAryLenInt elements) := by
  intro ended
  unfold rbAryLenInt at ended
  split at ended <;> cases ended

theorem survives_collect {convert : α → Except Abort β} {items : List α}
    (each : ∀ item ∈ items, Survives (convert item)) :
    Survives (ExceptLoop.collect convert items) := by
  intro ended
  rcases ExceptLoop.collect_eq_error.mp ended with ⟨before, item, after, values, rfl, _, failed⟩
  exact each item (by simp) failed

/-- A loop is stopped by an item which raises, if the items before it leave it alive. -/
theorem raises_collect {convert : α → Except Abort β} {before after : List α} {item : α}
    (alive : ∀ other ∈ before, Survives (convert other)) (raised : Raises (convert item)) :
    Raises (ExceptLoop.collect convert (before ++ item :: after)) := by
  induction before with
  | nil => exact raises_bind raised
  | cons first before ih =>
      apply raises_bind_of_survives (alive first List.mem_cons_self)
      intro value
      apply raises_bind
      exact ih fun other member => alive other (List.mem_cons_of_mem _ member)

theorem survives_key2binName (key : RbVal) : Survives (key2binName rt key) := by
  cases key with
  | nil =>
      intro ended
      cases ended
  | string text => exact survives_stringValueCStr text
  | _ => exact survives_toCstr _

theorem survives_rbObjToAsBytes (obj : RbVal) : Survives (rbObjToAsBytes rt obj) := by
  apply survives_bind (survives_mapError _)
  intro dumped
  apply survives_bind (survives_rbAryLenInt _)
  intro _
  exact survives_ok _

theorem survives_array2asList {elements : List RbVal}
    (each : ∀ element ∈ elements, Survives (array2asListElement rt element)) :
    Survives (array2asList rt elements) := by
  apply survives_bind (survives_rbAryLenInt _)
  intro _
  rw [array2asListFrom_eq]
  apply survives_bind (survives_collect each)
  intro _
  exact survives_ok _

theorem survives_hash2asHashmap {entries : List (RbVal × RbVal)}
    (each : ∀ entry ∈ entries, Survives (foreachHash2asHashmapValue rt entry.2)) :
    Survives (hash2asHashmap rt entries) := by
  have map : Survives (hash2asHashmapFrom rt entries.length [] entries) := by
    intro ended
    rw [hash2asHashmapFrom_eq, ExceptLoop.accumulate_eq_error] at ended
    refine survives_collect (fun entry member => ?_) ended
    apply survives_bind (survives_key2binName _)
    intro _
    apply survives_bind (each entry member)
    intro _
    exact survives_ok _
  apply survives_bind map
  intro _
  exact survives_ok _

/-- Neither nested switch ends the process. -/
theorem survives_nested (value : RbVal) :
    Survives (array2asListElement rt value) ∧ Survives (foreachHash2asHashmapValue rt value) := by
  have text (text : RbStr) :
      Survives (do let str ← stringValueCStr text; .ok (AsVal.string str.bytes)) :=
    survives_bind (survives_stringValueCStr text) fun _ => survives_ok _
  induction value with
  | integer value =>
      constructor
      · intro ended
        simp only [array2asListElement] at ended
        split at ended <;> cases ended
      · intro ended
        simp only [foreachHash2asHashmapValue] at ended
        split at ended <;> cases ended
  | string str => exact ⟨text str, text str⟩
  | symbol name => exact ⟨text name, text name⟩
  | array elements ih =>
      have list := survives_array2asList fun element member => (ih element member).1
      exact ⟨list, list⟩
  | hash entries ih =>
      have map := survives_hash2asHashmap fun entry member => (ih entry member).2.2
      exact ⟨map, map⟩
  | bool flag => exact ⟨survives_rbObjToAsBytes _, survives_rbObjToAsBytes _⟩
  | object state => exact ⟨survives_rbObjToAsBytes _, survives_rbObjToAsBytes _⟩
  | _ => constructor <;> (intro ended; cases ended)

theorem survives_rbVal2asVal (value : RbVal) : Survives (rbVal2asVal rt value) := by
  cases value with
  | integer value =>
      intro ended
      simp only [rbVal2asVal] at ended
      split at ended <;> cases ended
  | string str => exact survives_bind (survives_stringValueCStr str) fun _ => survives_ok _
  | array elements => exact survives_array2asList fun element _ => (survives_nested element).1
  | hash entries => exact survives_hash2asHashmap fun entry _ => (survives_nested entry.2).2
  | _ => intro ended; cases ended

theorem survives_writeOperand (value : RbVal) : Survives (writeOperand rt value) := by
  have text (value : RbVal) : Survives (do
      let tmp ← rt.toS value
      let str ← stringValueCStr tmp
      .ok (AsVal.string str.bytes)) :=
    survives_bind (survives_toS value) fun _ =>
      survives_bind (survives_stringValueCStr _) fun _ => survives_ok _
  cases value with
  | integer value =>
      simp only [writeOperand]
      split
      · exact survives_ok _
      · exact text _
  | string str => exact survives_bind (survives_stringValueCStr str) fun _ => survives_ok _
  | _ => exact text _

end AerospikeCRuby
