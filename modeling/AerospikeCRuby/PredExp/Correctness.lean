import AerospikeCRuby.PredExp.Acceptance

/-!
# Compiled predicates mean what their trees mean

The code of a comparison pushes the comparison of its left operand; an iteration
quantifies it over the collection.  A second iteration over the same collection
quantifies a predicate which no longer depends on the element, and changes
nothing.
-/

namespace AerospikeCRuby

open Postfix

variable {matching : Matching} {record : StoredRecord}

theorem Quantifier.overSome_overSome (quantifier : Quantifier) (elements : Option (List AsVal))
    (holds : AsVal → Bool) :
    quantifier.overSome elements (fun _ => quantifier.overSome elements holds) =
      quantifier.overSome elements holds := by
  cases elements with
  | none => rfl
  | some elements =>
      cases elements with
      | nil => cases quantifier <;> rfl
      | cons element rest =>
          cases quantifier with
          | or =>
              simp only [overSome, Quantifier.over]
              cases (element :: rest).any holds <;> simp
          | and =>
              simp only [overSome, Quantifier.over]
              cases (element :: rest).all holds <;> simp

/-- A comparison is false of what its operands would not hold. -/
theorem Comparison.holds_of_not_accepts {comparison : Comparison} {value : AsVal}
    (other : comparison.type.accepts value = false) :
    comparison.holds matching value = false := by
  cases comparison with
  | integer relation operand =>
      cases value with
      | integer value => cases other
      | _ => cases relation <;> rfl
  | string relation operand =>
      cases value with
      | string value => cases other
      | _ => cases relation <;> rfl
  | geojson relation operand =>
      cases value with
      | geojson value => cases other
      | _ => cases relation <;> rfl

theorem Comparison.any_filter_accepts (comparison : Comparison) (value : Option AsVal) :
    (value.filter comparison.type.accepts).any (comparison.holds matching) =
      value.any (comparison.holds matching) := by
  cases value with
  | none => rfl
  | some value =>
      cases accepted : comparison.type.accepts value with
      | true => simp [accepted]
      | false => simp [accepted, Comparison.holds_of_not_accepts accepted]

theorem testSome_some (test : AsVal → AsVal → Bool) (left : Option AsVal) (right : AsVal) :
    testSome test left (some right) = left.any fun left => test left right := by
  cases left with
  | none => rfl
  | some left => rfl

theorem pushes_comparison {operand constant relation : AsPredexp}
    {value : Scope → Option AsVal} {right : AsVal} {test : AsVal → AsVal → Bool}
    (pushed : ∀ stack, operand.step matching record stack = .ok (.operand value :: stack))
    (pushedConstant : ∀ stack, constant.step matching record stack =
      .ok (.operand (fun _ => some right) :: stack))
    (compares : ∀ stack, relation.step matching record stack = compare test stack) :
    Pushes (AsPredexp.step matching record) [operand, constant, relation]
      [.logic fun scope => (value scope).any fun left => test left right] := by
  have operands := (Pushes.single pushed).append (Pushes.single pushedConstant)
  apply operands.combine
  intro stack
  rw [compares]
  change Except.ok (Item.logic (fun scope => testSome test (value scope) (some right)) :: stack) = _
  simp only [testSome_some]

theorem Comparison.pushes {comparison : Comparison} {operand : OperandType → AsPredexp}
    {value : Scope → Option AsVal}
    (pushed : ∀ stack, (operand comparison.type).step matching record stack =
      .ok (.operand value :: stack)) :
    Pushes (AsPredexp.step matching record) (comparison.code operand)
      [.logic fun scope => (value scope).any (comparison.holds matching)] := by
  cases comparison with
  | integer relation constant =>
      exact @pushes_comparison matching record _ _ (.integer relation) value (.integer constant)
        relation.test pushed (fun _ => rfl) (fun _ => rfl)
  | string relation constant =>
      exact @pushes_comparison matching record _ _ (.string relation) value (.string constant.bytes)
        (relation.test matching) pushed (fun _ => rfl) (fun _ => rfl)
  | geojson relation constant =>
      exact @pushes_comparison matching record _ _ (.geojson relation) value
        (.geojson constant.bytes) (relation.test matching) pushed (fun _ => rfl) (fun _ => rfl)

/-- One iteration quantifies the predicate over the collection. -/
theorem pushes_iteration {code : List AsPredexp} {holds : Scope → Bool}
    (predicate : Pushes (AsPredexp.step matching record) code [.logic holds]) (bin : CStr)
    (collection : Collection) (quantifier : Quantifier) (name : CStr) :
    Pushes (AsPredexp.step matching record) (code ++ iteration bin collection quantifier name)
      [.logic fun scope => quantifier.overSome ((record.bin bin).bind collection.elements)
        fun element => holds (Function.update scope name (some element))] := by
  have pushed : ∀ stack, (collection.bin bin).step matching record stack =
      .ok (.operand (fun _ => record.bin bin) :: stack) := by
    intro stack
    cases collection <;> rfl
  have operands := predicate.append (Pushes.single pushed)
  have iterated := @Pushes.combine _ _ _ _ _ _ (.iterate collection quantifier name) _ operands
    fun stack => rfl
  rw [List.append_assoc] at iterated
  exact iterated

/-- However often the iteration is inserted, and whatever the variable is called. -/
theorem OwnFilter.pushes_elements {comparison : Comparison} (collection : Collection)
    (quantifier : Quantifier) (bin name : CStr) :
    Pushes (AsPredexp.step matching record)
      (OwnFilter.code name ⟨.elements collection quantifier bin, comparison⟩)
      [.logic fun _ => OwnFilter.holds matching record
        ⟨.elements collection quantifier bin, comparison⟩] := by
  have compared : Pushes (AsPredexp.step matching record) (comparison.code (.var · name))
      [.logic fun scope => (scope name).any (comparison.holds matching)] := by
    have pushes := @Comparison.pushes matching record comparison (.var · name)
      (fun scope => (scope name).filter comparison.type.accepts) fun stack => rfl
    simpa only [Comparison.any_filter_accepts] using pushes
  have once := pushes_iteration compared bin collection quantifier name
  simp only [Function.update_self, Option.any_some] at once
  have twice := pushes_iteration once bin collection quantifier name
  simp only [Quantifier.overSome_overSome] at twice
  simp only [OwnFilter.code]
  split
  · exact twice
  · exact once

/-- The code of a filter pushes whether the record satisfies it. -/
theorem OwnFilter.pushes (own : OwnFilter) (name : CStr) :
    Pushes (AsPredexp.step matching record) (own.code name)
      [.logic fun _ => own.holds matching record] := by
  rcases own with ⟨subject, comparison⟩
  cases subject with
  | lastUpdate =>
      exact @Comparison.pushes matching record comparison (fun _ => .recLastUpdate)
        (fun _ => some (.integer record.lastUpdate)) fun _ => rfl
  | voidTime =>
      exact @Comparison.pushes matching record comparison (fun _ => .recVoidTime)
        (fun _ => some (.integer record.voidTime)) fun _ => rfl
  | bin bin =>
      have pushes := @Comparison.pushes matching record comparison (.bin · bin)
        (fun _ => (record.bin bin).filter comparison.type.accepts) fun stack => rfl
      simp only [Comparison.any_filter_accepts] at pushes
      exact pushes
  | elements collection quantifier bin =>
      exact OwnFilter.pushes_elements collection quantifier bin name

/-- Predicates whose truth is known. -/
def truths (values : List Bool) : List Item :=
  values.map fun value => .logic fun _ => value

theorem popLogic_truths (values : List Bool) (stack : List Item) :
    popLogic values.length (truths values ++ stack) =
      .ok (values.map fun value _ => value, stack) := by
  induction values with
  | nil => rfl
  | cons value rest ih =>
      simp only [truths, List.map_cons, List.cons_append, List.length_cons, popLogic]
      change (popLogic rest.length (truths rest ++ stack)).map _ = _
      rw [ih]
      rfl

theorem popLogic_reverse_truths (values : List Bool) (stack : List Item) :
    popLogic values.length ((truths values).reverse ++ stack) =
      .ok (values.reverse.map fun value _ => value, stack) := by
  have popped := popLogic_truths values.reverse stack
  rw [List.length_reverse, truths, List.map_reverse] at popped
  exact popped

theorem pushes_and {code : List AsPredexp} {values : List Bool}
    (operands : Pushes (AsPredexp.step matching record) code (truths values)) :
    Pushes (AsPredexp.step matching record) (code ++ [.and values.length])
      (truths [values.all id]) := by
  apply operands.combine
  intro stack
  simp only [AsPredexp.step, popLogic_reverse_truths, Except.map, List.all_map,
    Function.comp_def, List.all_reverse]
  rfl

theorem pushes_or {code : List AsPredexp} {values : List Bool}
    (operands : Pushes (AsPredexp.step matching record) code (truths values)) :
    Pushes (AsPredexp.step matching record) (code ++ [.or values.length])
      (truths [values.any id]) := by
  apply operands.combine
  intro stack
  simp only [AsPredexp.step, popLogic_reverse_truths, Except.map, List.any_map,
    Function.comp_def, List.any_reverse]
  rfl

theorem pushes_negation {code : List AsPredexp} {value : Bool}
    (operand : Pushes (AsPredexp.step matching record) code (truths [value]))
    (nodeTrue : RbVal) :
    Pushes (AsPredexp.step matching record) (code ++ negation nodeTrue)
      (truths [if nodeTrue.type = .false_ then !value else value]) := by
  unfold negation
  split
  · apply operand.combine
    intro stack
    change Except.ok (Item.logic (fun _ => !value && true) :: stack) = _
    simp only [Bool.and_true]
  · rw [List.append_nil]
    exact operand

section

variable {rt : Runtime} {varName : RbVal → CStr}

theorem pushes_push2AsPredexp {nodeBin nodeTrue : RbVal} {nodeFilters : Option Filters}
    {code : List AsPredexp}
    (compiled : push2AsPredexp rt varName nodeBin nodeTrue nodeFilters = .ok code) :
    Pushes (AsPredexp.step matching record) code
      (truths [ownSem rt matching record nodeBin nodeTrue nodeFilters]) := by
  rcases push2AsPredexp_eq_ok.mp compiled with ⟨filters, own, rfl, reads, rfl⟩
  simp only [ownSem, Option.bind_some, reads]
  exact pushes_negation (OwnFilter.pushes own _) nodeTrue

theorem semList_eq_map (nodes : List PredNode) :
    PredNode.semList rt matching record nodes =
      nodes.map fun node => node.sem rt matching record := by
  induction nodes with
  | nil => rfl
  | cons node rest ih => rw [PredNode.semList, ih, List.map_cons]

mutual

/-- Induction through the children of a node. -/
theorem pushes_predexpNode2AsPredexp : ∀ (node : PredNode) {code : List AsPredexp},
    predexpNode2AsPredexp rt varName node = .ok code →
      Pushes (AsPredexp.step matching record) code (truths [node.sem rt matching record])
  | .other, _, compiled => nomatch compiled
  | .hash bin predTrue filters andNodes orNodes, _, compiled => by
      simp only [predexpNode2AsPredexp, ExceptLoop.bind_eq_ok] at compiled
      rcases compiled with ⟨own, pushed, ands, conjoined, ors, disjoined, same⟩
      cases same
      have conjunction := pushes_predexpNodes2AsPredexp andNodes pushes_and (by simp) conjoined
        (pushes_push2AsPredexp pushed)
      have disjunction := pushes_predexpNodes2AsPredexp orNodes pushes_or (by simp) disjoined
        conjunction
      simpa only [PredNode.sem, List.all_cons, List.any_cons, id] using disjunction

/-- The value below the children is the first operand of their combination. -/
theorem pushes_predexpNodes2AsPredexp :
    ∀ (nodes : Option (List PredNode)) {combine : ℕ → AsPredexp} {join : List Bool → Bool}
      {below code : List AsPredexp} {own : Bool},
      (∀ {code : List AsPredexp} {values : List Bool},
        Pushes (AsPredexp.step matching record) code (truths values) →
          Pushes (AsPredexp.step matching record) (code ++ [combine values.length])
            (truths [join values])) →
      join [own] = own →
      predexpNodes2AsPredexp rt varName combine nodes = .ok code →
      Pushes (AsPredexp.step matching record) below (truths [own]) →
        Pushes (AsPredexp.step matching record) (below ++ code)
          (truths [join (own :: PredNode.sems rt matching record nodes)])
  | none, _, _, _, _, _, _, _, compiled, _ => nomatch compiled
  | some [], _, _, _, _, _, combined, alone, compiled, pushed => by
      cases compiled
      rw [List.append_nil, PredNode.sems, PredNode.semList, alone]
      exact pushed
  | some (node :: rest), combine, _, below, _, own, combined, _, compiled, pushed => by
      rcases predexpNodes2AsPredexp_cons.mp compiled with ⟨_, operands, each, rfl⟩
      have length : (PredNode.semList rt matching record (node :: rest)).length =
          (node :: rest).length := by
        rw [semList_eq_map, List.length_map]
      have all := pushed.append (pushes_predexpNodeList2AsPredexp (node :: rest) each)
      have joined := @combined _ (own :: PredNode.semList rt matching record (node :: rest)) all
      rw [List.length_cons, length, List.append_assoc] at joined
      exact joined

theorem pushes_predexpNodeList2AsPredexp : ∀ (nodes : List PredNode) {code : List AsPredexp},
    predexpNodeList2AsPredexp rt varName nodes = .ok code →
      Pushes (AsPredexp.step matching record) code
        (truths (PredNode.semList rt matching record nodes))
  | [], _, compiled => by
      cases compiled
      exact Pushes.nil
  | node :: rest, _, compiled => by
      simp only [predexpNodeList2AsPredexp, ExceptLoop.bind_eq_ok] at compiled
      rcases compiled with ⟨first, compiled, others, compiled', same⟩
      cases same
      exact (pushes_predexpNode2AsPredexp node compiled).append
        (pushes_predexpNodeList2AsPredexp rest compiled')

end

/-- The value of a node, spelled out: its own filter and every `:and` child, or some `:or` child. -/
theorem sem_hash_iff (nodeBin nodeTrue : RbVal) (nodeFilters : Option Filters)
    (andNodes orNodes : List PredNode) :
    (PredNode.hash nodeBin nodeTrue nodeFilters (some andNodes) (some orNodes)).sem rt matching
        record = true ↔
      (ownSem rt matching record nodeBin nodeTrue nodeFilters = true ∧
        ∀ node ∈ andNodes, node.sem rt matching record = true) ∨
      ∃ node ∈ orNodes, node.sem rt matching record = true := by
  simp [PredNode.sem, PredNode.sems, semList_eq_map]

/-- The compiled sequence runs to one value, the meaning of the tree, whatever the iteration
variables are called. -/
theorem run_predexpNode2AsPredexp (rt : Runtime) (varName : RbVal → CStr) (matching : Matching)
    (record : StoredRecord) {node : PredNode} {code : List AsPredexp}
    (compiled : predexpNode2AsPredexp rt varName node = .ok code) :
    runPredexp matching record code [] = .ok [.logic fun _ => node.sem rt matching record] :=
  (pushes_predexpNode2AsPredexp node compiled).run_nil

/-- Some element of the list is 5 and the number is not above 6. -/
def samplePredicate : PredNode :=
  .hash (.string ⟨ascii "list", .utf8⟩) (.bool true)
    (some
      { filter := some (sym "eq"), value := some (.integer 5), collection := some (sym "array"),
        collectionPred := some (sym "or"), collectionVar := some (.string ⟨ascii "ABC", .utf8⟩) })
    (some
      [.hash (.symbol ⟨ascii "number", .utf8⟩) (.bool false)
        (some { filter := some (sym "gt"), value := some (.integer 6) }) (some []) (some [])])
    (some [])

def sampleStored : StoredRecord where
  bin name :=
    if name = cstr (ascii "list") then some (.list [.integer 3, .integer 5])
    else if name = cstr (ascii "number") then some (.integer 4)
    else none
  lastUpdate := 0
  voidTime := 0

def sampleMatching : Matching where
  regex := fun _ text pattern => text == pattern
  within := fun _ _ => false
  contains := fun _ _ => false

theorem run_predexpNode2AsPredexp_sample :
    ∃ code, predexpNode2AsPredexp .sample (fun _ => cstr (ascii "v")) samplePredicate = .ok code ∧
      code.length = 12 ∧
      runPredexp sampleMatching sampleStored code [] =
        .ok [.logic fun _ => samplePredicate.sem .sample sampleMatching sampleStored] ∧
      samplePredicate.sem .sample sampleMatching sampleStored = true :=
  ⟨_, rfl, rfl,
    run_predexpNode2AsPredexp .sample (fun _ => cstr (ascii "v")) sampleMatching sampleStored rfl,
    by decide⟩

end

end AerospikeCRuby
