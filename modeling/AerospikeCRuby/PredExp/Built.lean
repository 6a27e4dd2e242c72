import AerospikeCRuby.PredExp.Acceptance
import AerospikeCRuby.PredExp.Builder

/-!
# Built predicates are accepted

The builder keeps each of the compiler's conditions on the entries it sets: a
filter comes with a value of a class it takes, a collection with its predicate
and its variable.  What it does not check is that the entries are complete and
that the operands have a C form; where they are and have, the compiler accepts.
-/

namespace AerospikeCRuby

/-- A method name and a value of a class the method takes. -/
inductive Compared : RbVal → RbVal → Prop where
  | integer (relation : IntegerRelation) (operand : ℤ) :
      Compared (sym relation.name) (.integer operand)
  | string (relation : StringRelation) (operand : RbStr) :
      Compared (sym relation.name) (.string operand)
  | geojson (relation : GeojsonRelation) (operand : CStr) :
      Compared (sym relation.name) (.geoJson operand)

structure Filters.Sound (filters : Filters) : Prop where
  compared : ∀ value, filters.value = some value →
    ∃ filter, filters.filter = some filter ∧ Compared filter value
  collected : ∀ val, filters.collection = some val →
    ∃ (collection : Collection) (quantifier : Quantifier) (name : RbStr),
      val = sym collection.name ∧ filters.collectionPred = some (sym quantifier.name) ∧
        filters.collectionVar = some (.string name)
  timed : ∀ val, filters.recMethod = some val →
    val = sym "last_update" ∨ val = sym "expiration_time"

def RbVal.IsName : RbVal → Prop
  | .string _ | .symbol _ => True
  | _ => False

structure PredExpNode.Sound (own : PredExpNode) : Prop where
  named : own.bin.IsName
  filters : own.filters.Sound

def Objects.Sound (objects : Objects) : Prop :=
  ∀ own ∈ objects.nodes, own.Sound

theorem Filters.sound_empty : Filters.Sound {} where
  compared := by simp
  collected := by simp
  timed := by simp

section Methods

variable {objects objects' : Objects} {self : ℕ}

theorem Objects.Sound.update (sound : objects.Sound) {change : PredExpNode → PredExpNode}
    (kept : ∀ own, own.Sound → (change own).Sound) : (objects.update self change).Sound := by
  intro own member
  rcases List.mem_iff_getElem.mp member with ⟨index, bound, rfl⟩
  have bound' : index < objects.nodes.length := by
    simpa [Objects.update] using bound
  have old : objects.nodes[index].Sound := sound _ (List.getElem_mem _)
  simp only [Objects.update, List.getElem_modify]
  split
  · exact kept _ old
  · exact old

theorem Objects.Sound.new (sound : objects.Sound) {bin : RbVal} (named : bin.IsName) :
    (PredExpNode.new bin objects).Sound := by
  intro own member
  rcases List.mem_append.mp member with member | member
  · exact sound own member
  · cases List.mem_singleton.mp member
    exact ⟨named, Filters.sound_empty⟩

theorem Objects.Sound.addVal (sound : objects.Sound) {name : String} {val : RbVal}
    (compared : Compared (sym name) val) : (PredExpNode.addVal self name val objects).Sound := by
  apply sound.update
  intro own ownSound
  refine ⟨ownSound.named, ?_, ownSound.filters.collected, ownSound.filters.timed⟩
  rintro value ⟨⟩
  exact ⟨sym name, rfl, compared⟩

theorem checkClass_eq_ok {klass : List RbClass} {val : Arg} {value : RbVal}
    (checked : checkClass klass val = .ok value) : ∃ k ∈ klass, value.isA k = true := by
  cases val with
  | value val =>
      simp only [checkClass] at checked
      split at checked
      case isTrue member =>
        cases checked
        exact List.any_eq_true.mp member
      case isFalse => cases checked
  | node ref => cases checked
  | predexp ref => cases checked

theorem Objects.Sound.defineComparsionMethod (sound : objects.Sound) {name : String}
    {classes : List RbClass} {val : Arg}
    (compared : ∀ k ∈ classes, ∀ value : RbVal, value.isA k = true → Compared (sym name) value)
    (returns : PredExpNode.defineComparsionMethod name classes self val objects = .ok objects') :
    objects'.Sound := by
  rcases defineComparsionMethod_eq_ok returns with ⟨value, checked, rfl⟩
  rcases checkClass_eq_ok checked with ⟨k, member, isA⟩
  exact sound.addVal (compared k member value isA)

theorem Objects.Sound.geoMethod (sound : objects.Sound) {relation : GeojsonRelation} {val : Arg}
    (returns : PredExpNode.geoMethod relation.name self val objects = .ok objects') :
    objects'.Sound := by
  rcases geoMethod_eq_ok returns with ⟨value, checked, rfl⟩
  rcases checkClass_eq_ok checked with ⟨k, member, isA⟩
  cases List.mem_singleton.mp member
  cases value with
  | geoJson json => exact sound.addVal (.geojson relation json)
  | _ => cases isA

theorem Objects.Sound.not (sound : objects.Sound)
    (returns : PredExpNode.not self objects = .ok objects') : objects'.Sound := by
  rw [← not_eq_ok returns]
  exact sound.update fun own ownSound => ⟨ownSound.named, ownSound.filters⟩

theorem Objects.Sound.recordMethod (sound : objects.Sound) {name : String}
    (timed : name = "last_update" ∨ name = "expiration_time")
    (returns : PredExpNode.recordMethod name self objects = .ok objects') : objects'.Sound := by
  rw [← recordMethod_eq_ok returns]
  apply sound.update
  intro own ownSound
  refine ⟨ownSound.named, ownSound.filters.compared, ownSound.filters.collected, ?_⟩
  rintro val ⟨⟩
  rcases timed with rfl | rfl
  · exact Or.inl rfl
  · exact Or.inr rfl

variable {depth : ℕ}

theorem Objects.Sound.setAllVars (sound : objects.Sound)
    (returns : PredExpNode.setAllVars depth self objects = .ok objects') : objects'.Sound := by
  rcases setAllVars_eq_ok returns with ⟨vars, rfl⟩
  exact sound.update fun own ownSound => ⟨ownSound.named, ownSound.filters⟩

theorem Objects.Sound.and (sound : objects.Sound) {val : Arg}
    (returns : PredExpNode.and depth self val objects = .ok objects') : objects'.Sound := by
  simp only [PredExpNode.and, ExceptLoop.bind_eq_ok] at returns
  rcases returns with ⟨_, _, _, _, child, _, returns⟩
  apply Objects.Sound.setAllVars _ returns
  exact sound.update fun own ownSound => ⟨ownSound.named, ownSound.filters⟩

theorem Objects.Sound.or (sound : objects.Sound) {val : Arg}
    (returns : PredExpNode.or depth self val objects = .ok objects') : objects'.Sound := by
  simp only [PredExpNode.or, ExceptLoop.bind_eq_ok] at returns
  rcases returns with ⟨_, _, _, _, child, _, returns⟩
  apply Objects.Sound.setAllVars _ returns
  exact sound.update fun own ownSound => ⟨ownSound.named, ownSound.filters⟩

theorem Objects.Sound.setCollectionVals (sound : objects.Sound) {collection : Collection}
    {quantifier : Quantifier} {draws : List (Fin 26 × Fin 26 × Fin 26)}
    (returns : PredExpNode.setCollectionVals depth collection.name quantifier.name draws self
      objects = .ok objects') : objects'.Sound := by
  rcases setCollectionVals_eq_ok returns with ⟨vars, nodeVar, _, _, rfl⟩
  apply sound.update
  intro own ownSound
  refine ⟨ownSound.named, ownSound.filters.compared, ?_, ownSound.filters.timed⟩
  rintro val ⟨⟩
  exact ⟨collection, quantifier, nodeVar, rfl, rfl, rfl⟩

end Methods

theorem Compared.of_integer (relation : IntegerRelation) :
    ∀ k ∈ [RbClass.integer], ∀ value : RbVal, value.isA k = true →
      Compared (sym relation.name) value := by
  intro k member value isA
  cases List.mem_singleton.mp member
  cases value with
  | integer operand => exact .integer relation operand
  | _ => cases isA

theorem Compared.of_string (relation : StringRelation) :
    ∀ k ∈ [RbClass.string], ∀ value : RbVal, value.isA k = true →
      Compared (sym relation.name) value := by
  intro k member value isA
  cases List.mem_singleton.mp member
  cases value with
  | string operand => exact .string relation operand
  | _ => cases isA

theorem Compared.of_both (relation : IntegerRelation) (relation' : StringRelation)
    (alike : relation.name = relation'.name) :
    ∀ k ∈ [RbClass.integer, .string], ∀ value : RbVal, value.isA k = true →
      Compared (sym relation.name) value := by
  intro k member value isA
  rcases List.mem_cons.mp member with rfl | member
  · exact Compared.of_integer relation _ List.mem_cons_self value isA
  · rw [alike]
    exact Compared.of_string relation' k member value isA

section Calls

variable {rt : Runtime} {depth : ℕ} {objects objects' : Objects}

/-- Every call keeps the entries as the compiler expects them. -/
theorem Call.perform_sound {call : Call} (sound : objects.Sound)
    (returns : call.perform rt depth objects = .ok objects') : objects'.Sound := by
  cases call with
  | newString bin =>
      cases returns
      exact sound.new trivial
  | newSymbol bin =>
      cases returns
      exact sound.new trivial
  | eq self val => exact sound.defineComparsionMethod (Compared.of_both .equal .equal rfl) returns
  | notEq self val =>
      exact sound.defineComparsionMethod (Compared.of_both .unequal .unequal rfl) returns
  | gt self val => exact sound.defineComparsionMethod (Compared.of_integer .greater) returns
  | gteq self val => exact sound.defineComparsionMethod (Compared.of_integer .greatereq) returns
  | lt self val => exact sound.defineComparsionMethod (Compared.of_integer .less) returns
  | lteq self val => exact sound.defineComparsionMethod (Compared.of_integer .lesseq) returns
  | regexp self val => exact sound.defineComparsionMethod (Compared.of_string (.regex 1)) returns
  | within self val => exact @Objects.Sound.geoMethod _ _ _ sound .within _ returns
  | contains self val => exact @Objects.Sound.geoMethod _ _ _ sound .contains _ returns
  | not self => exact sound.not returns
  | and self val => exact sound.and returns
  | or self val => exact sound.or returns
  | lastUpdate self => exact sound.recordMethod (Or.inl rfl) returns
  | expirationTime self => exact sound.recordMethod (Or.inr rfl) returns
  | listAnd self draws => exact @Objects.Sound.setCollectionVals _ _ _ _ sound .list .and _ returns
  | listOr self draws => exact @Objects.Sound.setCollectionVals _ _ _ _ sound .list .or _ returns
  | mapKeyAnd self draws =>
      exact @Objects.Sound.setCollectionVals _ _ _ _ sound .mapkey .and _ returns
  | mapKeyOr self draws =>
      exact @Objects.Sound.setCollectionVals _ _ _ _ sound .mapkey .or _ returns
  | mapValAnd self draws =>
      exact @Objects.Sound.setCollectionVals _ _ _ _ sound .mapval .and _ returns
  | mapValOr self draws =>
      exact @Objects.Sound.setCollectionVals _ _ _ _ sound .mapval .or _ returns
  | predexpNew =>
      cases returns
      exact sound
  | predexpAref bin =>
      rcases aref_eq_ok returns with ⟨text, rfl⟩
      exact sound.new trivial
  | predexpRecord =>
      cases returns
      exact sound.new trivial
  | predexpWhere self val =>
      rcases where_eq_ok returns with ⟨_, child, _, rfl⟩
      exact sound
  | predexpAnd self val =>
      rcases predexpAnd_eq_ok returns with ⟨held, child, rfl⟩
      exact sound.update fun own ownSound => ⟨ownSound.named, ownSound.filters⟩
  | predexpOr self val =>
      rcases predexpOr_eq_ok returns with ⟨held, child, rfl⟩
      exact sound.update fun own ownSound => ⟨ownSound.named, ownSound.filters⟩

theorem performAll_sound {calls : List Call} (sound : objects.Sound)
    (performed : performAll rt depth calls objects = .ok objects') : objects'.Sound := by
  induction calls generalizing objects with
  | nil =>
      cases performed
      exact sound
  | cons call rest ih =>
      rcases ExceptLoop.bind_eq_ok.mp performed with ⟨next, returns, performed⟩
      exact ih (Call.perform_sound sound returns) performed

end Calls

theorem IntegerRelation.named_sym (relation : IntegerRelation) :
    IntegerRelation.named (sym relation.name) = some relation := by
  cases relation <;> rfl

theorem StringRelation.exists_named_sym (relation : StringRelation) :
    ∃ relation', StringRelation.named (sym relation.name) = some relation' := by
  cases relation with
  | equal => exact ⟨.equal, rfl⟩
  | unequal => exact ⟨.unequal, rfl⟩
  | regex flags =>
      have named : StringRelation.named (sym "regexp") = some (.regex 1) := rfl
      exact ⟨.regex 1, named⟩

theorem GeojsonRelation.named_sym (relation : GeojsonRelation) :
    GeojsonRelation.named (sym relation.name) = some relation := by
  cases relation <;> rfl

theorem Collection.named_sym (collection : Collection) :
    Collection.named (sym collection.name) = some collection := by
  cases collection <;> rfl

theorem Quantifier.named_sym (quantifier : Quantifier) :
    Quantifier.named (sym quantifier.name) = some quantifier := by
  cases quantifier <;> rfl

/-- A String, a GeoJson or an Integer which the comparison of a bin or an element can push. -/
def RbVal.FitsBin : RbVal → Prop
  | .integer operand => -2 ^ 31 ≤ operand ∧ operand < 2 ^ 32
  | .string operand => NulFree operand.bytes
  | .geoJson _ => True
  | _ => False

/-- An Integer which the comparison of a time can push. -/
def RbVal.FitsTime : RbVal → Prop
  | .integer operand => -2 ^ 63 ≤ operand ∧ operand < 2 ^ 64
  | _ => False

def RbVal.NameNulFree : RbVal → Prop
  | .string name | .symbol name => NulFree name.bytes
  | _ => False

/-- What the builder does not check of a node. -/
def Filters.Complete (bin : RbVal) (filters : Filters) : Prop :=
  ∃ value, filters.value = some value ∧
    (bin.isSym "record" = true ∧ filters.recMethod.isSome ∧ value.FitsTime ∨
      bin.isSym "record" = false ∧ bin.NameNulFree ∧ value.FitsBin)

theorem Compared.exists_read {filter value : RbVal} (compared : Compared filter value)
    (fits : value.FitsBin) : ∃ comparison, Comparison.read filter value = some comparison := by
  cases compared with
  | integer relation operand =>
      rcases fits with ⟨lower, upper⟩
      have fixnum : IsFixnum operand := ⟨by omega, by omega⟩
      refine ⟨.integer relation ((BitVec.ofInt 32 operand).setWidth 64), ?_⟩
      simp only [Comparison.read, if_pos fixnum, num2uint, if_neg (not_lt.mpr lower),
        if_neg (not_le.mpr upper), IntegerRelation.named_sym]
      rfl
  | string relation operand =>
      rcases StringRelation.exists_named_sym relation with ⟨relation', named⟩
      refine ⟨.string relation' ⟨operand.bytes, fits⟩, ?_⟩
      simp only [Comparison.read, stringValueCStr_of_nulFree fits, named]
      rfl
  | geojson relation operand =>
      refine ⟨.geojson relation operand, ?_⟩
      simp only [Comparison.read, GeojsonRelation.named_sym]
      rfl

theorem nodeBinName_of_nulFree {bin : RbVal} (field : bin.isSym "record" = false)
    (free : bin.NameNulFree) : ∃ name, nodeBinName bin = .ok (some name) := by
  cases bin with
  | string name =>
      refine ⟨⟨name.bytes, free⟩, ?_⟩
      simp only [nodeBinName, stringValueCStr_of_nulFree free]
      rfl
  | symbol name =>
      refine ⟨⟨name.bytes, free⟩, ?_⟩
      simp only [nodeBinName, field, stringValueCStr_of_nulFree free]
      rfl
  | _ => cases free

theorem nodeBinName_of_record {bin : RbVal} (record : bin.isSym "record" = true) :
    nodeBinName bin = .ok none := by
  cases bin with
  | symbol name => simp only [nodeBinName, record, if_true]
  | _ => cases record

namespace Filters.Sound

variable {filters : Filters} (sound : filters.Sound)
include sound

theorem exists_readRecord {rt : Runtime} {value : RbVal} (held : filters.value = some value)
    (timed : filters.recMethod.isSome) (fits : value.FitsTime) :
    ∃ own, OwnFilter.readRecord rt filters = some own := by
  rcases sound.compared value held with ⟨filter, filtered, compared⟩
  have subject : ∃ subject, Subject.readTime (aref filters.recMethod) = some subject := by
    rcases Option.isSome_iff_exists.mp timed with ⟨method, named⟩
    rw [named]
    rcases sound.timed method named with rfl | rfl
    · exact ⟨.lastUpdate, rfl⟩
    · exact ⟨.voidTime, rfl⟩
  rcases subject with ⟨subject, readTime⟩
  cases compared with
  | integer relation operand =>
      refine ⟨⟨subject, .integer relation (BitVec.ofInt 64 operand)⟩, ?_⟩
      have pushed : rt.num2ulong (.integer operand) = .ok (BitVec.ofInt 64 operand) := by
        exact if_pos fits
      have holdsValue : aref filters.value = .integer operand := by rw [held]; rfl
      have holdsFilter : aref filters.filter = sym relation.name := by rw [filtered]; rfl
      simp only [OwnFilter.readRecord, readTime, holdsValue, holdsFilter, pushed,
        IntegerRelation.named_sym]
      rfl
  | string relation operand => cases fits
  | geojson relation operand => cases fits

theorem exists_readBin {bin : CStr} {value : RbVal} (held : filters.value = some value)
    (fits : value.FitsBin) : ∃ own, OwnFilter.readBin bin filters = some own := by
  rcases sound.compared value held with ⟨filter, filtered, compared⟩
  rcases compared.exists_read fits with ⟨comparison, reads⟩
  refine ⟨⟨.bin bin, comparison⟩, ?_⟩
  simp only [OwnFilter.readBin, held, filtered, aref, Option.getD_some, reads]
  rfl

theorem exists_readCollection {bin : CStr} {value : RbVal} (held : filters.value = some value)
    (fits : value.FitsBin) (collects : (aref filters.collection).isNil = false) :
    ∃ own, OwnFilter.readCollection bin filters = some own := by
  rcases sound.compared value held with ⟨filter, filtered, compared⟩
  rcases compared.exists_read fits with ⟨comparison, reads⟩
  cases present : filters.collection with
  | none =>
      rw [present] at collects
      cases collects
  | some val =>
      rcases sound.collected val present with ⟨collection, quantifier, name, rfl, pred, var⟩
      refine ⟨⟨.elements collection quantifier bin, comparison⟩, ?_⟩
      simp only [OwnFilter.readCollection, held, filtered, present, pred, var, aref,
        Option.getD_some, reads, Collection.named_sym, Quantifier.named_sym]
      rfl

/-- Sound and complete entries read as a filter. -/
theorem exists_read {rt : Runtime} {bin : RbVal} (complete : filters.Complete bin) :
    ∃ own, OwnFilter.read rt bin filters = some own := by
  rcases complete with ⟨value, held, ⟨record, timed, fits⟩ | ⟨field, free, fits⟩⟩
  · rcases sound.exists_readRecord held timed fits with ⟨own, reads⟩
    refine ⟨own, ?_⟩
    simp only [OwnFilter.read, nodeBinName_of_record record]
    exact reads
  · rcases nodeBinName_of_nulFree field free with ⟨name, named⟩
    simp only [OwnFilter.read, named, ExceptLoop.toOption_ok, Option.bind_eq_bind,
      Option.bind_some]
    split
    case isTrue => exact sound.exists_readBin held fits
    case isFalse collects =>
      exact sound.exists_readCollection held fits (Bool.eq_false_iff.mpr collects)

end Filters.Sound

mutual

/-- Every node was given a comparison the compiler can push, and not too many children. -/
def PredNode.Complete : PredNode → Prop
  | .hash bin _ filters andNodes orNodes =>
      (∃ entries, filters = some entries ∧ entries.Complete bin) ∧
        CompleteChildren andNodes ∧ CompleteChildren orNodes
  | .other => False

def PredNode.CompleteChildren : Option (List PredNode) → Prop
  | some nodes => nodes.length < 2 ^ 31 ∧ CompleteList nodes
  | none => False

def PredNode.CompleteList : List PredNode → Prop
  | [] => True
  | node :: rest => Complete node ∧ CompleteList rest

end

section Trees

variable {rt : Runtime} {nodes : List PredExpNode}

theorem acceptedChildren_of_collect {height : ℕ} {refs : List ℕ} {trees : List PredNode}
    (each : ∀ {ref : ℕ} {tree : PredNode}, treeOf nodes height ref = .ok tree → tree.Complete →
      tree.Accepted rt)
    (collected : ExceptLoop.collect (treeOf nodes height) refs = .ok trees)
    (complete : PredNode.CompleteChildren (some trees)) :
    PredNode.AcceptedChildren rt (some trees) := by
  rcases complete with ⟨short, complete⟩
  refine ⟨short, ?_⟩
  have aligned := ExceptLoop.collect_eq_ok.mp collected
  clear collected short
  induction aligned with
  | nil => trivial
  | cons spans _ ih => exact ⟨each spans complete.1, ih complete.2⟩

/-- A complete tree of sound node hashes is accepted. -/
theorem treeOf_accepted (sound : ∀ own ∈ nodes, own.Sound) {height ref : ℕ} {tree : PredNode}
    (spans : treeOf nodes height ref = .ok tree) (complete : tree.Complete) :
    tree.Accepted rt := by
  induction height generalizing ref tree with
  | zero => cases spans
  | succ height ih =>
      simp only [treeOf, ExceptLoop.bind_eq_ok] at spans
      rcases spans with ⟨own, found, ands, conjoined, ors, disjoined, same⟩
      cases same
      rcases complete with ⟨⟨_, ⟨⟩, entries⟩, completeAnds, completeOrs⟩
      have member : own ∈ nodes := by
        unfold findNode at found
        cases lookup : nodes[ref]? with
        | none =>
            rw [lookup] at found
            cases found
        | some own' =>
            rw [lookup] at found
            cases found
            exact List.mem_of_getElem? lookup
      rcases (sound own member).filters.exists_read entries with ⟨filter, reads⟩
      refine ⟨?_, acceptedChildren_of_collect ih conjoined completeAnds,
        acceptedChildren_of_collect ih disjoined completeOrs⟩
      exact Option.isSome_iff_exists.mpr ⟨filter, reads⟩

end Trees

/-- What a program builds compiles without an error, if its tree is finite and complete. -/
theorem predexp2AsPredexp_of_built {rt : Runtime} (varName : RbVal → CStr) {depth : ℕ}
    {calls : List Call} {objects : Objects} (performed : performAll rt depth calls {} = .ok objects)
    {self height : ℕ} {tree : Option PredNode} (spans : predexpTree objects height self = .ok tree)
    (complete : ∀ node, tree = some node → node.Complete) :
    ∃ code, predexp2AsPredexp rt varName tree = .ok code := by
  have sound : objects.Sound := by
    apply performAll_sound _ performed
    intro own member
    cases member
  simp only [predexpTree, ExceptLoop.bind_eq_ok] at spans
  rcases spans with ⟨held, _, spans⟩
  cases held with
  | none =>
      cases spans
      exact ⟨[], rfl⟩
  | some ref =>
      change (some <$> treeOf objects.nodes height ref) = .ok tree at spans
      cases found : treeOf objects.nodes height ref with
      | error stop =>
          rw [found] at spans
          cases spans
      | ok node =>
          rw [found] at spans
          cases spans
          exact (exists_predexpNode2AsPredexp node).mpr
            (treeOf_accepted sound found (complete node rfl))

/-- A record filter and, below it, a filter on some element of a list. -/
def sampleProgram : List Call :=
  [.predexpNew, .predexpRecord, .lastUpdate 0, .gt 0 (.value (.integer 100)),
    .predexpAref (.symbol ⟨ascii "list", .utf8⟩), .listOr 1 [(0, 1, 2)],
    .eq 1 (.value (.integer 5)), .not 1, .predexpWhere 0 (.node 0), .predexpAnd 0 (.node 1)]

def sampleTree : PredNode :=
  .hash (sym "record") (.bool true)
    (some
      { filter := some (sym "gt"), value := some (.integer 100),
        recMethod := some (sym "last_update") })
    (some
      [.hash (.string ⟨ascii "list", .utf8⟩) (.bool false)
        (some
          { filter := some (sym "eq"), value := some (.integer 5),
            collection := some (sym "array"), collectionPred := some (sym "or"),
            collectionVar := some (.string (drawnName (0, 1, 2))) })
        (some []) (some [])])
    (some [])

theorem sampleTree_complete : sampleTree.Complete := by
  have free : NulFree (ascii "list") := by decide
  have none : PredNode.CompleteChildren (some []) := ⟨by decide, trivial⟩
  have record : Filters.Complete (sym "record")
      { filter := some (sym "gt"), value := some (.integer 100),
        recMethod := some (sym "last_update") } :=
    ⟨.integer 100, rfl, Or.inl ⟨rfl, rfl, by decide, by decide⟩⟩
  have element : Filters.Complete (.string ⟨ascii "list", .utf8⟩)
      { filter := some (sym "eq"), value := some (.integer 5),
        collection := some (sym "array"), collectionPred := some (sym "or"),
        collectionVar := some (.string (drawnName (0, 1, 2))) } :=
    ⟨.integer 5, rfl, Or.inr ⟨rfl, free, by decide, by decide⟩⟩
  exact ⟨⟨_, rfl, record⟩, ⟨by decide, ⟨⟨_, rfl, element⟩, none, none⟩, trivial⟩, none⟩

theorem predexp2AsPredexp_of_built_sample :
    ∃ objects, performAll .sample 100 sampleProgram {} = .ok objects ∧
      predexpTree objects 2 0 = .ok (some sampleTree) ∧
      ∃ code, predexp2AsPredexp .sample (fun _ => cstr []) (some sampleTree) = .ok code :=
  ⟨_, rfl, rfl,
    @predexp2AsPredexp_of_built .sample (fun _ => cstr []) 100 sampleProgram _ rfl 0 2
      (some sampleTree) rfl (by rintro _ ⟨⟩; exact sampleTree_complete)⟩

/-- A node with a collection but no comparison is handed out by the builder and refused by the
compiler. -/
theorem predexp2AsPredexp_list_and :
    ∃ calls objects tree, performAll .sample 100 calls {} = .ok objects ∧
      predexpTree objects 1 0 = .ok (some tree) ∧
      predexp2AsPredexp .sample (fun _ => cstr []) (some tree) =
        .error (.parseError "[AerospikeC::PredExp] Invalid parameters") :=
  ⟨[.predexpNew, .newString ⟨ascii "a", .utf8⟩, .listAnd 0 [(0, 1, 2)], .predexpWhere 0 (.node 0)],
    _, _, rfl, rfl, rfl⟩

end AerospikeCRuby
