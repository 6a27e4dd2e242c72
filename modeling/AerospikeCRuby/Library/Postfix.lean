/-!
# Postfix code

Code in postfix order is run from left to right on a stack of items.  A piece of
code pushes given items when from every stack it ends with these items on top of
that stack, whatever is below; the rules say how such pieces compose.
-/

namespace Postfix

universe u v w

variable {Instr : Type u} {Item : Type v} {Fault : Type w}
  (step : Instr → List Item → Except Fault (List Item))

/-- Run the code; the head of the stack is its top. -/
def run : List Instr → List Item → Except Fault (List Item)
  | [], stack => .ok stack
  | instr :: code, stack => (step instr stack).bind (run code)

/-- The code ends with the items, the last one on top, on the stack it began with. -/
def Pushes (code : List Instr) (items : List Item) : Prop :=
  ∀ stack, run step code stack = .ok (items.reverse ++ stack)

variable {step}

theorem run_append (code code' : List Instr) (stack : List Item) :
    run step (code ++ code') stack = (run step code stack).bind (run step code') := by
  induction code generalizing stack with
  | nil => rfl
  | cons instr rest ih =>
      simp only [List.cons_append, run]
      cases step instr stack with
      | error fault => rfl
      | ok stack' => exact ih stack'

theorem Pushes.nil : Pushes step [] [] :=
  fun _ => rfl

theorem Pushes.append {code code' : List Instr} {items items' : List Item}
    (first : Pushes step code items) (second : Pushes step code' items') :
    Pushes step (code ++ code') (items ++ items') := by
  intro stack
  rw [run_append, first stack]
  change run step code' (items.reverse ++ stack) = _
  rw [second, List.reverse_append, List.append_assoc]

/-- An instruction which pops nothing. -/
theorem Pushes.single {instr : Instr} {item : Item}
    (pushed : ∀ stack, step instr stack = .ok (item :: stack)) :
    Pushes step [instr] [item] := by
  intro stack
  simp only [run, pushed]
  rfl

/-- An instruction which replaces the items the code pushed by one item. -/
theorem Pushes.combine {code : List Instr} {items : List Item} {instr : Instr} {item : Item}
    (first : Pushes step code items)
    (combined : ∀ stack, step instr (items.reverse ++ stack) = .ok (item :: stack)) :
    Pushes step (code ++ [instr]) [item] := by
  intro stack
  rw [run_append, first stack]
  change (step instr (items.reverse ++ stack)).bind (run step []) = _
  rw [combined]
  rfl

/-- Run from the empty stack, nothing is left but the items. -/
theorem Pushes.run_nil {code : List Instr} {item : Item} (pushes : Pushes step code [item]) :
    run step code [] = .ok [item] :=
  pushes []

end Postfix
