import Mathlib

/-!
# Acyclic links

A graph which grows by single links stays acyclic as long as no link leads to a
node from which its origin is reached.  Below a node of a finite acyclic graph
recursion along the links comes to an end.  Labels which differ below every node
are followed through a new link and a new label.
-/

namespace Links

open Relation

variable {Node : Type*} {link : Node → Node → Prop} {parent child : Node}

/-- No way along the links leads back to where it began. -/
def Acyclic (link : Node → Node → Prop) : Prop :=
  ∀ node, ¬TransGen link node node

/-- One more link. -/
def withLink (link : Node → Node → Prop) (parent child : Node) (from_ to_ : Node) : Prop :=
  link from_ to_ ∨ from_ = parent ∧ to_ = child

theorem acyclic_congr {link' : Node → Node → Prop} (same : ∀ a b, link a b ↔ link' a b) :
    Acyclic link ↔ Acyclic link' := by
  have : link = link' := by
    funext a b
    exact propext (same a b)
  rw [this]

/-- A way along the links and a new one either does without the new one or passes it. -/
theorem transGen_withLink {from_ to_ : Node}
    (way : TransGen (withLink link parent child) from_ to_) :
    TransGen link from_ to_ ∨ ReflTransGen link from_ parent ∧ ReflTransGen link child to_ := by
  induction way with
  | single first =>
      rcases first with old | ⟨rfl, rfl⟩
      · exact Or.inl (.single old)
      · exact Or.inr ⟨.refl, .refl⟩
  | tail _ last ih =>
      rcases last with old | ⟨rfl, rfl⟩
      · rcases ih with direct | ⟨before, after⟩
        · exact Or.inl (direct.tail old)
        · exact Or.inr ⟨before, after.tail old⟩
      · rcases ih with direct | ⟨before, _⟩
        · exact Or.inr ⟨direct.to_reflTransGen, .refl⟩
        · exact Or.inr ⟨before, .refl⟩

theorem reflTransGen_withLink_iff {from_ to_ : Node} :
    ReflTransGen (withLink link parent child) from_ to_ ↔
      ReflTransGen link from_ to_ ∨
        ReflTransGen link from_ parent ∧ ReflTransGen link child to_ := by
  have keeps : ∀ {a b}, ReflTransGen link a b → ReflTransGen (withLink link parent child) a b :=
    fun old => ReflTransGen.mono (fun _ _ => Or.inl) _ _ old
  constructor
  · intro way
    rcases reflTransGen_iff_eq_or_transGen.mp way with rfl | way
    · exact Or.inl .refl
    · rcases transGen_withLink way with direct | passing
      · exact Or.inl direct.to_reflTransGen
      · exact Or.inr passing
  · rintro (direct | ⟨before, after⟩)
    · exact keeps direct
    · exact ((keeps before).tail (Or.inr ⟨rfl, rfl⟩)).trans (keeps after)

theorem acyclic_withLink_iff :
    Acyclic (withLink link parent child) ↔ Acyclic link ∧ ¬ReflTransGen link child parent := by
  have keeps : ∀ {a b}, link a b → withLink link parent child a b := fun old => Or.inl old
  constructor
  · intro acyclic
    constructor
    · intro node cycle
      exact acyclic node (TransGen.mono (fun _ _ => keeps) _ _ cycle)
    · intro back
      apply acyclic parent
      have first : TransGen (withLink link parent child) parent child := .single (Or.inr ⟨rfl, rfl⟩)
      exact first.trans_left (ReflTransGen.mono (fun _ _ => keeps) _ _ back)
  · rintro ⟨acyclic, noReturn⟩ node cycle
    rcases transGen_withLink cycle with direct | ⟨before, after⟩
    · exact acyclic node direct
    · exact noReturn (after.trans before)

/-- Induction from the children to the parent over a finite set the links do not leave. -/
theorem Acyclic.induction (acyclic : Acyclic link) {nodes : Set Node} (finite : nodes.Finite)
    (closed : ∀ node ∈ nodes, ∀ next, link node next → next ∈ nodes) {motive : Node → Prop}
    (step : ∀ node ∈ nodes, (∀ next, link node next → motive next) → motive node) :
    ∀ node ∈ nodes, motive node := by
  have : Finite nodes := finite
  let below : nodes → nodes → Prop := fun low high => TransGen link high.1 low.1
  have transitive : IsTrans nodes below := ⟨fun _ _ _ first second => second.trans first⟩
  have irreflexive : Std.Irrefl below := ⟨fun node => acyclic node.1⟩
  have wellFounded : WellFounded below := Finite.wellFounded_of_trans_of_irrefl below
  have each : ∀ node : nodes, motive node.1 := by
    intro node
    apply wellFounded.induction node
    intro high ih
    apply step high.1 high.2
    intro next linked
    exact ih ⟨next, closed high.1 high.2 next linked⟩ (.single linked)
  intro node member
  exact each ⟨node, member⟩

section Labels

variable {Label : Type*} {label : Node → Option Label}

/-- No two nodes which are reached from one node have the same label. -/
def Distinct (link : Node → Node → Prop) (label : Node → Option Label) : Prop :=
  ∀ root left right name, ReflTransGen link root left → ReflTransGen link root right →
    label left = some name → label right = some name → left = right

/-- Labels stay distinct under a new link where no label below its end is one of those which a
node above its origin leads to. -/
theorem distinct_withLink_iff (distinct : Distinct link label) :
    Distinct (withLink link parent child) label ↔
      ∀ root old new name, ReflTransGen link root parent → ReflTransGen link root old →
        ReflTransGen link child new → label old = some name → label new = some name →
        old = new := by
  constructor
  · intro after root old new name above there below labelOld labelNew
    exact after root old new name (reflTransGen_withLink_iff.mpr (Or.inl there))
      (reflTransGen_withLink_iff.mpr (Or.inr ⟨above, below⟩)) labelOld labelNew
  · intro apart root left right name toLeft toRight labelLeft labelRight
    rcases reflTransGen_withLink_iff.mp toLeft with left | ⟨above, left⟩ <;>
      rcases reflTransGen_withLink_iff.mp toRight with right | ⟨above', right⟩
    · exact distinct root _ _ name left right labelLeft labelRight
    · exact apart root _ _ name above' left right labelLeft labelRight
    · exact (apart root _ _ name above right left labelRight labelLeft).symm
    · exact distinct child _ _ name left right labelLeft labelRight

/-- Labels stay distinct when a node gets a label that no other node below one root has. -/
theorem distinct_update_iff [DecidableEq Node] (distinct : Distinct link label) {self : Node}
    {name : Label} :
    Distinct link (Function.update label self (some name)) ↔
      ∀ root other, ReflTransGen link root self → ReflTransGen link root other →
        label other = some name → other = self := by
  constructor
  · intro after root other toSelf toOther labelled
    by_cases same : other = self
    · exact same
    · exact after root other self name toOther toSelf
        (by rwa [Function.update_of_ne same]) (by rw [Function.update_self])
  · intro fresh root left right name' toLeft toRight labelLeft labelRight
    by_cases atLeft : left = self <;> by_cases atRight : right = self
    · rw [atLeft, atRight]
    · subst atLeft
      rw [Function.update_self, Option.some.injEq] at labelLeft
      rw [Function.update_of_ne atRight, ← labelLeft] at labelRight
      exact (fresh root right toLeft toRight labelRight).symm
    · subst atRight
      rw [Function.update_self, Option.some.injEq] at labelRight
      rw [Function.update_of_ne atLeft, ← labelRight] at labelLeft
      exact fresh root left toRight toLeft labelLeft
    · rw [Function.update_of_ne atLeft] at labelLeft
      rw [Function.update_of_ne atRight] at labelRight
      exact distinct root left right name' toLeft toRight labelLeft labelRight

end Labels

end Links
