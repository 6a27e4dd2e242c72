import Mathlib

/-!
# Lists matched item by item
-/

namespace Aligned

variable {ι β : Type*}

theorem exists_of_mem {R : ι → β → Prop} {items : List ι} {values : List β}
    (aligned : List.Forall₂ R items values) {item : ι} (member : item ∈ items) :
    ∃ value ∈ values, R item value := by
  induction aligned with
  | nil => simp at member
  | cons here _ ih =>
      rcases List.mem_cons.mp member with rfl | later
      · exact ⟨_, by simp, here⟩
      · rcases ih later with ⟨value, found, related⟩
        exact ⟨value, by simp [found], related⟩

theorem exists_of_getElem? {R : ι → β → Prop} {items : List ι} {values : List β}
    (aligned : List.Forall₂ R items values) {index : ℕ} {item : ι}
    (found : items[index]? = some item) : ∃ value, values[index]? = some value ∧ R item value := by
  induction aligned generalizing index with
  | nil => simp at found
  | cons here _ ih =>
      cases index with
      | zero =>
          cases found
          exact ⟨_, rfl, here⟩
      | succ index =>
          rw [List.getElem?_cons_succ] at found
          rcases ih found with ⟨value, there, related⟩
          exact ⟨value, there, related⟩

/-- The image of an item in its place, between the images of what stands around it. -/
theorem split {R : ι → β → Prop} {before after : List ι} {item : ι} {values : List β}
    (aligned : List.Forall₂ R (before ++ item :: after) values) :
    ∃ front value back, values = front ++ value :: back ∧ List.Forall₂ R before front ∧
      R item value ∧ List.Forall₂ R after back := by
  induction before generalizing values with
  | nil =>
      cases aligned with
      | cons here rest => exact ⟨[], _, _, rfl, .nil, here, rest⟩
  | cons first rest ih =>
      cases aligned with
      | cons here later =>
          rcases ih later with ⟨front, value, back, rfl, done, image, others⟩
          exact ⟨_ :: front, value, back, rfl, .cons here done, image, others⟩

/-- A list each of whose items has an image has a list of images. -/
theorem exists_images {R : ι → β → Prop} {items : List ι}
    (each : ∀ item ∈ items, ∃ value, R item value) :
    ∃ values, List.Forall₂ R items values := by
  induction items with
  | nil => exact ⟨[], .nil⟩
  | cons item rest ih =>
      rcases each item (by simp) with ⟨value, related⟩
      rcases ih fun other member => each other (by simp [member]) with ⟨values, done⟩
      exact ⟨value :: values, .cons related done⟩

/-- Two aligned lists share a list of images where their items do. -/
theorem exists_shared {γ : Type*} {R : ι → β → Prop} {P : ι → γ → Prop} {Q : β → γ → Prop}
    {items : List ι} {values : List β} (aligned : List.Forall₂ R items values)
    (each : ∀ item ∈ items, ∀ value, R item value → ∃ image, P item image ∧ Q value image) :
    ∃ images, List.Forall₂ P items images ∧ List.Forall₂ Q values images := by
  induction aligned with
  | nil => exact ⟨[], .nil, .nil⟩
  | cons here _ ih =>
      rcases each _ (by simp) _ here with ⟨image, left, right⟩
      rcases ih fun item member => each item (by simp [member]) with ⟨images, lefts, rights⟩
      exact ⟨image :: images, .cons left lefts, .cons right rights⟩

theorem refine_of_mem {P Q : ι → β → Prop} {items : List ι} {values : List β}
    (aligned : List.Forall₂ P items values)
    (refined : ∀ item ∈ items, ∀ value ∈ values, P item value → Q item value) :
    List.Forall₂ Q items values := by
  induction aligned with
  | nil => exact .nil
  | cons here _ ih =>
      refine .cons (refined _ (by simp) _ (by simp) here) (ih fun item member value found => ?_)
      exact refined item (by simp [member]) value (by simp [found])

/-- Where the images determine a relation item by item, it is a property of the items. -/
theorem forall₂_iff_forall {P Q : ι → β → Prop} {R : ι → Prop} {items : List ι} {values : List β}
    (aligned : List.Forall₂ P items values)
    (each : ∀ item ∈ items, ∀ value, P item value → (Q item value ↔ R item)) :
    List.Forall₂ Q items values ↔ ∀ item ∈ items, R item := by
  induction aligned with
  | nil => simp
  | @cons item value items values first _ ih =>
      have later := ih fun other member => each other (List.mem_cons_of_mem _ member)
      rw [List.forall₂_cons, List.forall_mem_cons, later]
      apply and_congr_left
      intro _
      exact each item List.mem_cons_self value first

end Aligned
