import AerospikeCRuby.PredExp.Termination

/-!
# Collection variables

`set_collection_vals` draws names until one is not in the list of variables the
node has memoised, and looks at nothing else: neither at the trees the node is
put into later nor at what its children have become since.  Two nodes of one
tree then have different variables as long as no link puts a variable below a
node that leads to the same one, and no name is drawn that is in use elsewhere.
-/

namespace AerospikeCRuby

open Relation (ReflTransGen)

/-- The `:collection_var` of a node hash. -/
def Objects.variable_ (objects : Objects) (ref : ℕ) : Option RbVal :=
  objects.nodes[ref]?.bind fun own => own.filters.collectionVar

/-- The variables of any two nodes of one tree are different. -/
def Objects.DistinctVars (objects : Objects) : Prop :=
  Links.Distinct objects.Linked objects.variable_

/-- The name `set_collection_vals` settles on, if it comes to one. -/
def PredExpNode.settled (depth : ℕ) (draws : List (Fin 26 × Fin 26 × Fin 26)) (self : ℕ)
    (objects : Objects) : Option RbStr :=
  match PredExpNode.getAllVars depth self objects with
  | .ok vars => (draws.map drawnName).find? fun name => !vars.any (·.isText name)
  | .error _ => none

/-- The node which a call gives a variable, and the name of it. -/
def Call.drawn (depth : ℕ) (objects : Objects) : Call → Option (ℕ × RbStr)
  | .listAnd self draws | .listOr self draws | .mapKeyAnd self draws | .mapKeyOr self draws
  | .mapValAnd self draws | .mapValOr self draws =>
      (PredExpNode.settled depth draws self objects).map fun name => (self, name)
  | _ => none

/-- What a call brings together has different variables already. -/
structure Call.Apart (depth : ℕ) (objects : Objects) (call : Call) : Prop where
  /-- A link leads to no variable which a node above its origin leads to by another way. -/
  linked : ∀ parent child, call.link objects = some (parent, child) →
    ∀ root old new name, ReflTransGen objects.Linked root parent →
      ReflTransGen objects.Linked root old → ReflTransGen objects.Linked child new →
      objects.variable_ old = some name → objects.variable_ new = some name → old = new
  /-- A name that is drawn is the variable of no other node of a tree the receiver is in. -/
  drawn : ∀ self name, call.drawn depth objects = some (self, name) →
    ∀ root other, ReflTransGen objects.Linked root self →
      ReflTransGen objects.Linked root other →
      objects.variable_ other = some (.string name) → other = self

section Steps

variable {objects objects' : Objects} {self : ℕ}

/-- Every node keeps its variable, or the lack of one. -/
def Objects.SameVars (objects objects' : Objects) : Prop :=
  ∀ ref, objects'.variable_ ref = objects.variable_ ref

theorem Objects.SameVars.refl : objects.SameVars objects :=
  fun _ => rfl

theorem Objects.SameVars.trans {objects'' : Objects} (first : objects.SameVars objects')
    (second : objects'.SameVars objects'') : objects.SameVars objects'' :=
  fun ref => (second ref).trans (first ref)

theorem Objects.variable_update {change : PredExpNode → PredExpNode} {image : Option RbVal}
    (found : self < objects.nodes.length)
    (changed : ∀ own, (change own).filters.collectionVar = image) :
    (objects.update self change).variable_ = Function.update objects.variable_ self image := by
  funext ref
  simp only [Objects.variable_, Objects.update, List.getElem?_modify]
  by_cases same : ref = self
  · subst same
    simp [List.getElem?_eq_getElem found, changed]
  · have other : ¬self = ref := fun here => same here.symm
    simp [Function.update_of_ne same, Objects.variable_, other]

theorem Objects.sameVars_update {change : PredExpNode → PredExpNode}
    (same : ∀ own, (change own).filters.collectionVar = own.filters.collectionVar) :
    objects.SameVars (objects.update self change) := by
  intro ref
  simp only [Objects.variable_, Objects.update, List.getElem?_modify]
  cases objects.nodes[ref]? with
  | none => rfl
  | some own =>
      by_cases changed : self = ref
      · simp [changed, same own]
      · simp [changed]

theorem Objects.sameVars_new {bin : RbVal} : objects.SameVars (PredExpNode.new bin objects) := by
  intro ref
  simp only [Objects.variable_, PredExpNode.new]
  rcases lt_trichotomy ref objects.nodes.length with old | rfl | later
  · rw [List.getElem?_append_left old]
  · simp
  · rw [List.getElem?_eq_none (by simp; omega), List.getElem?_eq_none (by omega)]

theorem sameVars_defineComparsionMethod {name : String} {classes : List RbClass} {val : Arg}
    (returns : PredExpNode.defineComparsionMethod name classes self val objects = .ok objects') :
    objects.SameVars objects' := by
  rcases defineComparsionMethod_eq_ok returns with ⟨value, _, rfl⟩
  exact Objects.sameVars_update fun own => rfl

theorem sameVars_geoMethod {name : String} {val : Arg}
    (returns : PredExpNode.geoMethod name self val objects = .ok objects') :
    objects.SameVars objects' := by
  rcases geoMethod_eq_ok returns with ⟨value, _, rfl⟩
  exact Objects.sameVars_update fun own => rfl

theorem sameVars_not (returns : PredExpNode.not self objects = .ok objects') :
    objects.SameVars objects' := by
  rw [← not_eq_ok returns]
  exact Objects.sameVars_update fun own => rfl

theorem sameVars_recordMethod {name : String}
    (returns : PredExpNode.recordMethod name self objects = .ok objects') :
    objects.SameVars objects' := by
  rw [← recordMethod_eq_ok returns]
  exact Objects.sameVars_update fun own => rfl

theorem sameVars_aref {rt : Runtime} {bin : RbVal}
    (returns : PredExp.aref rt bin objects = .ok objects') : objects.SameVars objects' := by
  rcases aref_eq_ok returns with ⟨text, rfl⟩
  exact Objects.sameVars_new

theorem sameVars_where {val : Arg} (returns : PredExp.where_ self val objects = .ok objects') :
    objects.SameVars objects' := by
  rcases where_eq_ok returns with ⟨_, child, _, rfl⟩
  exact Objects.SameVars.refl

theorem sameVars_predexpAnd {val : Arg}
    (returns : PredExp.and self val objects = .ok objects') : objects.SameVars objects' := by
  rcases predexpAnd_eq_ok returns with ⟨held, child, rfl⟩
  exact Objects.sameVars_update fun own => rfl

theorem sameVars_predexpOr {val : Arg}
    (returns : PredExp.or self val objects = .ok objects') : objects.SameVars objects' := by
  rcases predexpOr_eq_ok returns with ⟨held, child, rfl⟩
  exact Objects.sameVars_update fun own => rfl

/-- A call that raises has changed no variable. -/
theorem sameVars_abandon (call : Call) : objects.SameVars (call.abandon objects) := by
  cases call with
  | and | or =>
      simp only [Call.abandon]
      split
      · exact Objects.sameVars_update fun own => rfl
      · exact Objects.SameVars.refl
  | listAnd | listOr | mapKeyAnd | mapKeyOr | mapValAnd | mapValOr =>
      exact Objects.sameVars_update fun own => rfl
  | _ => exact Objects.SameVars.refl

variable {depth : ℕ}

theorem sameVars_setAllVars (returns : PredExpNode.setAllVars depth self objects = .ok objects') :
    objects.SameVars objects' := by
  rcases setAllVars_eq_ok returns with ⟨vars, rfl⟩
  exact Objects.sameVars_update fun own => rfl

theorem sameVars_and {val : Arg}
    (returns : PredExpNode.and depth self val objects = .ok objects') :
    objects.SameVars objects' := by
  rcases ExceptLoop.bind_eq_ok.mp (and_eq_bind ▸ returns) with ⟨link, _, returns⟩
  have pushed : objects.SameVars (objects.update self (PredExpNode.pushAnd link.2)) :=
    Objects.sameVars_update fun own => rfl
  exact pushed.trans (sameVars_setAllVars returns)

theorem sameVars_or {val : Arg}
    (returns : PredExpNode.or depth self val objects = .ok objects') :
    objects.SameVars objects' := by
  rcases ExceptLoop.bind_eq_ok.mp (or_eq_bind ▸ returns) with ⟨link, _, returns⟩
  have pushed : objects.SameVars (objects.update self (PredExpNode.pushOr link.2)) :=
    Objects.sameVars_update fun own => rfl
  exact pushed.trans (sameVars_setAllVars returns)

/-- What a call leaves: the variables as they were, or one variable more. -/
def LeavesVars (rt : Runtime) (depth : ℕ) (objects : Objects) (call : Call) : Prop :=
  (call.drawn depth objects = none ∧ objects.SameVars (call.leave rt depth objects)) ∨
    ∃ self name, call.drawn depth objects = some (self, name) ∧
      (call.leave rt depth objects).variable_ =
        Function.update objects.variable_ self (some (.string name))

variable {rt : Runtime}

theorem leavesVars_of_same {call : Call} (noDraw : call.drawn depth objects = none)
    (returned : ∀ objects', call.perform rt depth objects = .ok objects' →
      objects.SameVars objects') : LeavesVars rt depth objects call := by
  refine Or.inl ⟨noDraw, ?_⟩
  unfold Call.leave
  cases performed : call.perform rt depth objects with
  | ok objects' => exact returned objects' performed
  | error stop => exact sameVars_abandon call

theorem leavesVars_of_draw {call : Call} {collection pred : String}
    {draws : List (Fin 26 × Fin 26 × Fin 26)}
    (draw : call.drawn depth objects =
      (PredExpNode.settled depth draws self objects).map fun name => (self, name))
    (performs : call.perform rt depth objects =
      PredExpNode.setCollectionVals depth collection pred draws self objects) :
    LeavesVars rt depth objects call := by
  unfold LeavesVars Call.leave
  rw [performs, draw, PredExpNode.settled]
  cases returned : PredExpNode.setCollectionVals depth collection pred draws self objects with
  | ok objects' =>
      rcases setCollectionVals_eq_ok returned with ⟨vars, nodeVar, read, free, rfl⟩
      simp only [read, free]
      refine Or.inr ⟨self, nodeVar, rfl, ?_⟩
      have found : self < objects.nodes.length := by
        simp only [PredExpNode.getAllVars, ExceptLoop.bind_eq_ok, findNode_eq_ok] at read
        rcases read with ⟨own, found, _⟩
        exact (List.getElem?_eq_some_iff.mp found).1
      exact Objects.variable_update found fun own => rfl
  | error stop =>
      refine Or.inl ⟨?_, sameVars_abandon call⟩
      cases read : PredExpNode.getAllVars depth self objects with
      | error _ => rfl
      | ok vars =>
          cases free : (draws.map drawnName).find? fun name => !vars.any (·.isText name) with
          | none => simp only [free, Option.map_none]
          | some nodeVar =>
              rw [PredExpNode.setCollectionVals, read] at returned
              simp only [bind, Except.bind, free] at returned
              cases returned

theorem Call.leavesVars (call : Call) : LeavesVars rt depth objects call := by
  cases call with
  | newString | newSymbol | predexpRecord =>
      apply leavesVars_of_same rfl
      rintro _ ⟨⟩
      exact Objects.sameVars_new
  | eq | notEq | gt | gteq | lt | lteq | regexp =>
      exact leavesVars_of_same rfl fun _ => sameVars_defineComparsionMethod
  | within | contains => exact leavesVars_of_same rfl fun _ => sameVars_geoMethod
  | not self => exact leavesVars_of_same rfl fun _ => sameVars_not
  | and self val => exact leavesVars_of_same rfl fun _ => sameVars_and
  | or self val => exact leavesVars_of_same rfl fun _ => sameVars_or
  | lastUpdate | expirationTime =>
      exact leavesVars_of_same rfl fun _ => sameVars_recordMethod
  | listAnd | listOr | mapKeyAnd | mapKeyOr | mapValAnd | mapValOr =>
      exact leavesVars_of_draw rfl rfl
  | predexpNew =>
      apply leavesVars_of_same rfl
      rintro _ ⟨⟩
      exact Objects.SameVars.refl
  | predexpAref bin => exact leavesVars_of_same rfl fun _ => sameVars_aref
  | predexpWhere self val => exact leavesVars_of_same rfl fun _ => sameVars_where
  | predexpAnd self val => exact leavesVars_of_same rfl fun _ => sameVars_predexpAnd
  | predexpOr self val => exact leavesVars_of_same rfl fun _ => sameVars_predexpOr

theorem Call.link_of_drawn {call : Call} {drawn : ℕ × RbStr}
    (draws : call.drawn depth objects = some drawn) : call.link objects = none := by
  cases call with
  | and | or | predexpAnd | predexpOr => cases draws
  | _ => rfl

theorem Objects.SameLinks.linked_eq (same : objects.SameLinks objects') :
    objects'.Linked = objects.Linked := by
  funext from_ to_
  rw [Objects.Linked, Objects.Linked, same.same]

theorem Objects.OneLink.linked_eq {parent child : ℕ}
    (one : objects.OneLink objects' parent child) :
    objects'.Linked = Links.withLink objects.Linked parent child := by
  funext from_ to_
  exact propext (one.linked from_ to_)

theorem distinctVars_leave_iff (closed : objects.Closed) (distinct : objects.DistinctVars)
    (call : Call) :
    (call.leave rt depth objects).DistinctVars ↔ call.Apart depth objects := by
  have links := @Call.leavesLinks objects depth rt closed call
  rcases @Call.leavesVars objects depth rt call with ⟨noDraw, same⟩ | ⟨self, name, draw, vars⟩
  · have vars : (call.leave rt depth objects).variable_ = objects.variable_ := funext same
    rcases links with ⟨noLink, sameLinks⟩ | ⟨parent, child, link, one⟩
    · rw [Objects.DistinctVars, vars, sameLinks.linked_eq]
      refine iff_of_true distinct ⟨?_, ?_⟩
      · intro parent child link
        rw [noLink] at link
        cases link
      · intro self name draw
        rw [noDraw] at draw
        cases draw
    · rw [Objects.DistinctVars, vars, one.linked_eq, Links.distinct_withLink_iff distinct]
      constructor
      · intro apart
        refine ⟨fun parent' child' link' => ?_, fun self name draw => ?_⟩
        · rw [link] at link'
          cases link'
          exact apart
        · rw [noDraw] at draw
          cases draw
      · intro apart
        exact apart.linked parent child link
  · have noLink := Call.link_of_drawn draw
    rcases links with ⟨_, sameLinks⟩ | ⟨parent, child, link, _⟩
    · rw [Objects.DistinctVars, vars, sameLinks.linked_eq, Links.distinct_update_iff distinct]
      constructor
      · intro fresh
        refine ⟨fun parent child link => ?_, fun self' name' draw' => ?_⟩
        · rw [noLink] at link
          cases link
        · rw [draw] at draw'
          cases draw'
          exact fresh
      · intro apart
        exact apart.drawn self name draw
    · rw [noLink] at link
      cases link

end Steps

theorem Objects.distinctVars_empty : Objects.DistinctVars {} := by
  intro root left right name _ _ labelled
  cases labelled

/-- After every call of a program the variables of any two nodes of a tree are different, exactly
if every call only brings together what has different variables. -/
theorem distinctVars_iff_apart (rt : Runtime) (depth : ℕ) (calls : List Call) :
    (∀ before, before <+: calls → (leaveAll rt depth {} before).DistinctVars) ↔
      ∀ before call, before ++ [call] <+: calls →
        call.Apart depth (leaveAll rt depth {} before) := by
  have kept : ∀ (objects : Objects) (call : Call), objects.Closed →
      (call.leave rt depth objects).Closed :=
    fun _ call closed => closed.leave call
  have each : ∀ (objects : Objects) (call : Call), objects.Closed → objects.DistinctVars →
      ((call.leave rt depth objects).DistinctVars ↔ call.Apart depth objects) :=
    fun _ call closed distinct => distinctVars_leave_iff closed distinct call
  exact Transition.foldl_prefix_iff kept each Objects.closed_empty Objects.distinctVars_empty

/-- The draw of the name `"AAA"`. -/
def firstDraw : Fin 26 × Fin 26 × Fin 26 :=
  let letter : Fin 26 := ⟨0, Nat.zero_lt_succ 25⟩
  (letter, letter, letter)

/-- Two nodes that draw the same name before one is put into the other. -/
def joinedProgram : List Call :=
  [.newString ⟨ascii "a", .utf8⟩, .newString ⟨ascii "b", .utf8⟩, .listAnd 0 [firstDraw],
    .listAnd 1 [firstDraw], .and 0 (.node 1)]

theorem not_distinctVars_joinedProgram :
    ¬(leaveAll .sample 4 {} joinedProgram).DistinctVars := by
  intro distinct
  have linked : (leaveAll .sample 4 {} joinedProgram).Linked 0 1 := by
    have children : childrenOf (leaveAll .sample 4 {} joinedProgram).nodes 0 = [1] := rfl
    rw [Objects.Linked, children]
    exact List.mem_singleton_self 1
  have same : 0 = 1 := distinct 0 0 1 (.string (drawnName firstDraw)) .refl (.single linked) rfl rfl
  cases same

end AerospikeCRuby
