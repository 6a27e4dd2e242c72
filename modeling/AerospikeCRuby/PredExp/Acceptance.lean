import AerospikeCRuby.PredExp.Meaning

/-!
# What the compiler accepts

The compiler raises nothing exactly on the trees whose nodes all read as a
filter, and the code it inserts for a node is that of the filter.
-/

namespace AerospikeCRuby

def Comparison.code (operand : OperandType → AsPredexp) : Comparison → List AsPredexp
  | .integer relation value => [operand .integer, .integerValue value, .integer relation]
  | .string relation value => [operand .string, .stringValue value, .string relation]
  | .geojson relation value => [operand .geojson, .geojsonValue value, .geojson relation]

def Comparison.type : Comparison → OperandType
  | .integer _ _ => .integer
  | .string _ _ => .string
  | .geojson _ _ => .geojson

def Collection.bin : Collection → CStr → AsPredexp
  | .list, name => .listBin name
  | .mapkey, name => .mapBin name
  | .mapval, name => .mapBin name

def iteration (bin : CStr) (collection : Collection) (quantifier : Quantifier) (name : CStr) :
    List AsPredexp :=
  [collection.bin bin, .iterate collection quantifier name]

/-- The code of a filter whose iteration variable, if it needs one, has the name. -/
def OwnFilter.code (name : CStr) : OwnFilter → List AsPredexp
  | ⟨.lastUpdate, comparison⟩ => comparison.code fun _ => .recLastUpdate
  | ⟨.voidTime, comparison⟩ => comparison.code fun _ => .recVoidTime
  | ⟨.bin bin, comparison⟩ => comparison.code (.bin · bin)
  | ⟨.elements collection quantifier bin, comparison⟩ =>
      let once := comparison.code (.var · name) ++ iteration bin collection quantifier name
      if comparison.type = .integer then once ++ iteration bin collection quantifier name
      else once

@[simp]
theorem toOption_raiseParseError {α : Type} :
    (raiseParseError : Except Abort α).toOption = none := rfl

@[simp]
theorem toOption_insertIntegerPredicate (val : RbVal) :
    (insertIntegerPredicate val).toOption = (IntegerRelation.named val).map .integer := by
  simp only [insertIntegerPredicate, IntegerRelation.named, List.find?_cons, IntegerRelation.name]
  split_ifs <;> simp [*]

@[simp]
theorem toOption_insertStringPredicate (val : RbVal) :
    (insertStringPredicate val).toOption = (StringRelation.named val).map .string := by
  simp only [insertStringPredicate, StringRelation.named, List.find?_cons, StringRelation.name]
  split_ifs <;> simp [*]

@[simp]
theorem toOption_insertGeojsonPredicate (val : RbVal) :
    (insertGeojsonPredicate val).toOption = (GeojsonRelation.named val).map .geojson := by
  simp only [insertGeojsonPredicate, GeojsonRelation.named, List.find?_cons, GeojsonRelation.name]
  split_ifs <;> simp [*]

@[simp]
theorem toOption_insertIteration (bin : AsPredexp) (collection : Collection)
    (collectionPred : RbVal) (name : CStr) :
    (insertIteration bin collection collectionPred name).toOption =
      (Quantifier.named collectionPred).map
        fun quantifier => [bin, .iterate collection quantifier name] := by
  simp only [insertIteration, Quantifier.named, List.find?_cons, Quantifier.name]
  split_ifs <;> simp [*]

@[simp]
theorem toOption_insertCollectionPredicate (bin : CStr) (collection collectionPred : RbVal)
    (name : CStr) :
    (insertCollectionPredicate bin collection collectionPred name).toOption =
      (Collection.named collection).bind fun collection =>
        (Quantifier.named collectionPred).map
          fun quantifier => iteration bin collection quantifier name := by
  simp only [insertCollectionPredicate, Collection.named, List.find?_cons, Collection.name]
  split_ifs <;> simp [*, iteration, Collection.bin]

@[simp]
theorem toOption_pushComparison (operand : OperandType → AsPredexp) (nodeFilter nodeValue : RbVal) :
    (pushComparison operand nodeFilter nodeValue).toOption =
      (Comparison.read nodeFilter nodeValue).map (·.code operand) := by
  cases nodeValue with
  | integer value =>
      simp only [pushComparison, Comparison.read]
      split
      · simp [Option.map_bind, Option.bind_map, Comparison.code]
      · rfl
  | string text =>
      simp [pushComparison, Comparison.read, Option.map_bind, Option.bind_map,
        Comparison.code]
  | geoJson json =>
      simp [pushComparison, Comparison.read, Option.map_bind, Option.bind_map,
        Comparison.code]
  | _ => rfl

@[simp]
theorem toOption_pushRecord (rt : Runtime) (filters : Filters) (name : CStr) :
    (pushRecord rt filters).toOption =
      (OwnFilter.readRecord rt filters).map (·.code name) := by
  simp only [pushRecord, OwnFilter.readRecord, Subject.readTime]
  split_ifs <;>
    simp [Option.map_bind, Option.bind_map, OwnFilter.code, Comparison.code]

theorem Comparison.type_of_read {nodeFilter nodeValue : RbVal} {comparison : Comparison}
    (reads : Comparison.read nodeFilter nodeValue = some comparison) :
    nodeValue.type = .fixnum ↔ comparison.type = .integer := by
  cases nodeValue with
  | integer value =>
      simp only [Comparison.read] at reads
      split at reads
      case isFalse => cases reads
      case isTrue fixnum =>
        simp only [Option.bind_eq_bind, Option.bind_eq_some_iff, Option.some.injEq] at reads
        rcases reads with ⟨operand, _, relation, _, rfl⟩
        simp only [RbVal.type, if_pos fixnum, Comparison.type]
  | string text =>
      simp only [Comparison.read, Option.bind_eq_bind, Option.bind_eq_some_iff,
        Option.some.injEq] at reads
      rcases reads with ⟨operand, _, relation, _, rfl⟩
      simp [RbVal.type, Comparison.type]
  | geoJson json =>
      simp only [Comparison.read, Option.bind_eq_bind, Option.bind_eq_some_iff,
        Option.some.injEq] at reads
      rcases reads with ⟨relation, _, rfl⟩
      simp [RbVal.type, Comparison.type]
  | _ => cases reads

theorem Quantifier.named_nil {value : RbVal} (isNil : value.isNil = true) :
    Quantifier.named value = none := by
  cases value with
  | nil => rfl
  | _ => cases isNil

@[simp]
theorem toOption_pushCollection (varName : RbVal → CStr) (bin : CStr) (filters : Filters) :
    (pushCollection varName bin filters).toOption =
      (OwnFilter.readCollection bin filters).map
        (·.code (varName (aref filters.collectionVar))) := by
  simp only [pushCollection, OwnFilter.readCollection]
  by_cases noVar : (aref filters.collectionVar).isNil = true
  · simp [noVar]
  by_cases noPred : (aref filters.collectionPred).isNil = true
  · simp [noVar, noPred, Quantifier.named_nil noPred]
  simp only [noVar, noPred, Bool.or_self, Bool.false_eq_true, if_false, ExceptLoop.toOption_bind,
    toOption_pushComparison, toOption_insertCollectionPredicate]
  cases reads : Comparison.read (aref filters.filter) (aref filters.value) with
  | none => rfl
  | some comparison =>
      have doubled := Comparison.type_of_read reads
      cases Collection.named (aref filters.collection) with
      | none => rfl
      | some collection =>
          cases Quantifier.named (aref filters.collectionPred) with
          | none => rfl
          | some quantifier =>
              by_cases fixnum : (aref filters.value).type = .fixnum
              · simp [fixnum, doubled.mp fixnum, OwnFilter.code]
              · have other : comparison.type ≠ .integer := fun same => fixnum (doubled.mpr same)
                simp [fixnum, other, OwnFilter.code]

/-- The item which negates, if there is one. -/
def negation (nodeTrue : RbVal) : List AsPredexp :=
  if nodeTrue.type = .false_ then [.not] else []

theorem toOption_push2AsPredexp (rt : Runtime) (varName : RbVal → CStr) (nodeBin nodeTrue : RbVal)
    (filters : Filters) :
    (push2AsPredexp rt varName nodeBin nodeTrue (some filters)).toOption =
      (OwnFilter.read rt nodeBin filters).map fun own =>
        own.code (varName (aref filters.collectionVar)) ++ negation nodeTrue := by
  have negated : ∀ code : List AsPredexp,
      (if nodeTrue.type = .false_ then .ok (code ++ [.not]) else .ok code : Except Abort _) =
        .ok (code ++ negation nodeTrue) := by
    intro code
    unfold negation
    split <;> simp
  simp only [push2AsPredexp, OwnFilter.read, Option.elim_some, negated]
  cases nodeBinName nodeBin with
  | error failure => rfl
  | ok bin =>
      cases bin with
      | none =>
          change (pushRecord rt filters >>= fun code =>
              Except.ok (code ++ negation nodeTrue)).toOption =
            (OwnFilter.readRecord rt filters).map _
          rw [ExceptLoop.toOption_bind,
            toOption_pushRecord rt filters (varName (aref filters.collectionVar)), Option.bind_map,
            Option.map_eq_bind]
          rfl
      | some bin =>
          cases missing : (aref filters.collection).isNil with
          | true =>
              simp only [ExceptLoop.toOption_bind, ExceptLoop.toOption_ok, Option.bind_some,
                missing, Bool.not_true, Bool.false_eq_true, if_false, if_true, Option.bind_eq_bind,
                toOption_pushComparison, Option.bind_map, OwnFilter.readBin, Option.map_bind]
              rfl
          | false =>
              simp only [ExceptLoop.toOption_bind, ExceptLoop.toOption_ok, Option.bind_some,
                missing, Bool.not_false, Bool.false_eq_true, if_false, if_true, Option.bind_eq_bind,
                toOption_pushCollection, Option.bind_map]
              rw [Option.map_eq_bind]
              rfl

theorem push2AsPredexp_eq_ok {rt : Runtime} {varName : RbVal → CStr} {nodeBin nodeTrue : RbVal}
    {nodeFilters : Option Filters} {code : List AsPredexp} :
    push2AsPredexp rt varName nodeBin nodeTrue nodeFilters = .ok code ↔
      ∃ filters own, nodeFilters = some filters ∧ OwnFilter.read rt nodeBin filters = some own ∧
        code = own.code (varName (aref filters.collectionVar)) ++ negation nodeTrue := by
  cases nodeFilters with
  | none => simp [push2AsPredexp, raiseParseError, bind, Except.bind]
  | some filters =>
      rw [← ExceptLoop.toOption_eq_some, toOption_push2AsPredexp, Option.map_eq_some_iff]
      simp [eq_comm]

section

variable (rt : Runtime)

mutual

/-- Every node reads as a filter and has arrays of children, each short enough for an int. -/
def PredNode.Accepted : PredNode → Prop
  | .hash bin _ filters andNodes orNodes =>
      (filters.bind (OwnFilter.read rt bin)).isSome ∧
        AcceptedChildren andNodes ∧ AcceptedChildren orNodes
  | .other => False

def PredNode.AcceptedChildren : Option (List PredNode) → Prop
  | some nodes => nodes.length < 2 ^ 31 ∧ AcceptedList nodes
  | none => False

def PredNode.AcceptedList : List PredNode → Prop
  | [] => True
  | node :: rest => Accepted node ∧ AcceptedList rest

end

variable {rt} {varName : RbVal → CStr}

theorem PredNode.acceptedList_iff {nodes : List PredNode} :
    AcceptedList rt nodes ↔ ∀ node ∈ nodes, node.Accepted rt := by
  induction nodes with
  | nil => simp [AcceptedList]
  | cons node rest ih => rw [AcceptedList, ih, List.forall_mem_cons]

theorem exists_push2AsPredexp {nodeBin nodeTrue : RbVal} {nodeFilters : Option Filters} :
    (∃ code, push2AsPredexp rt varName nodeBin nodeTrue nodeFilters = .ok code) ↔
      (nodeFilters.bind (OwnFilter.read rt nodeBin)).isSome := by
  rw [Option.isSome_iff_exists]
  constructor
  · rintro ⟨code, compiled⟩
    rcases push2AsPredexp_eq_ok.mp compiled with ⟨filters, own, rfl, reads, _⟩
    exact ⟨own, reads⟩
  · rintro ⟨own, reads⟩
    rcases Option.bind_eq_some_iff.mp reads with ⟨filters, rfl, reads⟩
    exact ⟨_, push2AsPredexp_eq_ok.mpr ⟨filters, own, rfl, reads, rfl⟩⟩

theorem predexpNodes2AsPredexp_nil (combine : ℕ → AsPredexp) :
    predexpNodes2AsPredexp rt varName combine (some []) = .ok [] := rfl

theorem predexpNodes2AsPredexp_cons {combine : ℕ → AsPredexp} {node : PredNode}
    {rest : List PredNode} {code : List AsPredexp} :
    predexpNodes2AsPredexp rt varName combine (some (node :: rest)) = .ok code ↔
      (node :: rest).length < 2 ^ 31 ∧
        ∃ operands, predexpNodeList2AsPredexp rt varName (node :: rest) = .ok operands ∧
          operands ++ [combine ((node :: rest).length + 1)] = code := by
  simp only [predexpNodes2AsPredexp, ExceptLoop.bind_eq_ok, rbAryLenInt_eq_ok]
  constructor
  · rintro ⟨length, ⟨short, rfl⟩, compiled⟩
    rw [if_pos (by simp), ExceptLoop.bind_eq_ok] at compiled
    rcases compiled with ⟨operands, compiled, same⟩
    exact ⟨short, operands, compiled, Except.ok.inj same⟩
  · rintro ⟨short, operands, compiled, rfl⟩
    refine ⟨_, ⟨short, rfl⟩, ?_⟩
    rw [if_pos (by simp), ExceptLoop.bind_eq_ok]
    exact ⟨operands, compiled, rfl⟩

mutual

/-- The compiler raises nothing exactly on the accepted trees. -/
theorem exists_predexpNode2AsPredexp : ∀ node : PredNode,
    (∃ code, predexpNode2AsPredexp rt varName node = .ok code) ↔ node.Accepted rt
  | .other => by simp [predexpNode2AsPredexp, PredNode.Accepted, raiseParseError]
  | .hash bin predTrue filters andNodes orNodes => by
      simp only [predexpNode2AsPredexp, PredNode.Accepted, ExceptLoop.bind_eq_ok,
        ← @exists_push2AsPredexp rt varName bin predTrue filters,
        ← exists_predexpNodes2AsPredexp .and andNodes,
        ← exists_predexpNodes2AsPredexp .or orNodes]
      constructor
      · rintro ⟨_, own, pushed, ands, compiled, ors, compiled', _⟩
        exact ⟨⟨own, pushed⟩, ⟨ands, compiled⟩, ⟨ors, compiled'⟩⟩
      · rintro ⟨⟨own, pushed⟩, ⟨ands, compiled⟩, ⟨ors, compiled'⟩⟩
        exact ⟨_, own, pushed, ands, compiled, ors, compiled', rfl⟩

theorem exists_predexpNodes2AsPredexp (combine : ℕ → AsPredexp) :
    ∀ nodes : Option (List PredNode),
      (∃ code, predexpNodes2AsPredexp rt varName combine nodes = .ok code) ↔
        PredNode.AcceptedChildren rt nodes
  | none => by simp [predexpNodes2AsPredexp, PredNode.AcceptedChildren, raiseParseError]
  | some [] => by
      refine iff_of_true ⟨[], predexpNodes2AsPredexp_nil combine⟩ ?_
      simp [PredNode.AcceptedChildren, PredNode.AcceptedList]
  | some (node :: rest) => by
      simp only [PredNode.AcceptedChildren, ← exists_predexpNodeList2AsPredexp (node :: rest)]
      constructor
      · rintro ⟨code, compiled⟩
        rcases predexpNodes2AsPredexp_cons.mp compiled with ⟨short, operands, compiled, _⟩
        exact ⟨short, operands, compiled⟩
      · rintro ⟨short, operands, compiled⟩
        exact ⟨_, predexpNodes2AsPredexp_cons.mpr ⟨short, operands, compiled, rfl⟩⟩

theorem exists_predexpNodeList2AsPredexp : ∀ nodes : List PredNode,
    (∃ code, predexpNodeList2AsPredexp rt varName nodes = .ok code) ↔
      PredNode.AcceptedList rt nodes
  | [] => by simp [predexpNodeList2AsPredexp, PredNode.AcceptedList]
  | node :: rest => by
      simp only [predexpNodeList2AsPredexp, PredNode.AcceptedList, ExceptLoop.bind_eq_ok,
        ← exists_predexpNode2AsPredexp node, ← exists_predexpNodeList2AsPredexp rest]
      constructor
      · rintro ⟨_, first, compiled, others, compiled', _⟩
        exact ⟨⟨first, compiled⟩, ⟨others, compiled'⟩⟩
      · rintro ⟨⟨first, compiled⟩, ⟨others, compiled'⟩⟩
        exact ⟨_, first, compiled, others, compiled', rfl⟩

end

end

end AerospikeCRuby
