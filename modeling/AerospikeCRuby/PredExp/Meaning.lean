import AerospikeCRuby.PredExp.Compile
import AerospikeCRuby.Library.ExceptLoop

/-!
# The meaning of a predicate tree

What a node hash asks of a record, read off the hash itself: a comparison, and
what of the record is compared.  The compiler accepts a node exactly when it
reads as such a filter, and then inserts the code of that filter.
-/

namespace AerospikeCRuby

def IntegerRelation.name : IntegerRelation → String
  | .equal => "eq"
  | .unequal => "not_eq"
  | .greater => "gt"
  | .greatereq => "gteq"
  | .less => "lt"
  | .lesseq => "lteq"

/-- The relation a Symbol names. -/
def IntegerRelation.named (value : RbVal) : Option IntegerRelation :=
  [.equal, .unequal, .greater, .greatereq, .less, .lesseq].find? fun relation =>
    value.isSym relation.name

def StringRelation.name : StringRelation → String
  | .equal => "eq"
  | .unequal => "not_eq"
  | .regex _ => "regexp"

def StringRelation.named (value : RbVal) : Option StringRelation :=
  [.equal, .unequal, .regex 1].find? fun relation => value.isSym relation.name

def GeojsonRelation.name : GeojsonRelation → String
  | .within => "within"
  | .contains => "contains"

def GeojsonRelation.named (value : RbVal) : Option GeojsonRelation :=
  [.within, .contains].find? fun relation => value.isSym relation.name

def Collection.name : Collection → String
  | .list => "array"
  | .mapkey => "mapkey"
  | .mapval => "mapval"

def Collection.named (value : RbVal) : Option Collection :=
  [.list, .mapkey, .mapval].find? fun collection => value.isSym collection.name

def Quantifier.name : Quantifier → String
  | .or => "or"
  | .and => "and"

def Quantifier.named (value : RbVal) : Option Quantifier :=
  [.or, .and].find? fun quantifier => value.isSym quantifier.name

/-- A comparison with a constant. -/
inductive Comparison where
  | integer (relation : IntegerRelation) (operand : BitVec 64)
  | string (relation : StringRelation) (operand : CStr)
  | geojson (relation : GeojsonRelation) (operand : CStr)

def Comparison.holds (matching : Matching) : Comparison → AsVal → Bool
  | .integer relation operand, value => relation.test value (.integer operand)
  | .string relation operand, value => relation.test matching value (.string operand.bytes)
  | .geojson relation operand, value => relation.test matching value (.geojson operand.bytes)

/-- What of a record is compared. -/
inductive Subject where
  | lastUpdate
  | voidTime
  | bin (name : CStr)
  /-- Some or all elements of the collection in a bin. -/
  | elements (collection : Collection) (quantifier : Quantifier) (name : CStr)

/-- An absent bin, or one which is not such a collection, satisfies nothing. -/
def Subject.satisfies (record : StoredRecord) : Subject → (AsVal → Bool) → Bool
  | .lastUpdate, holds => holds (.integer record.lastUpdate)
  | .voidTime, holds => holds (.integer record.voidTime)
  | .bin name, holds => (record.bin name).any holds
  | .elements collection quantifier name, holds =>
      quantifier.overSome ((record.bin name).bind collection.elements) holds

structure OwnFilter where
  subject : Subject
  comparison : Comparison

def OwnFilter.holds (matching : Matching) (record : StoredRecord) (own : OwnFilter) : Bool :=
  own.subject.satisfies record (own.comparison.holds matching)

/-- The comparison of a bin or of an element, by the type of the operand. -/
def Comparison.read (nodeFilter nodeValue : RbVal) : Option Comparison :=
  match nodeValue with
  | .integer value =>
      if IsFixnum value then do
        let operand ← (num2uint value).toOption
        let relation ← IntegerRelation.named nodeFilter
        some (.integer relation operand)
      else none
  | .string text => do
      let operand ← (stringValueCStr text).toOption
      let relation ← StringRelation.named nodeFilter
      some (.string relation operand)
  | .geoJson operand => do
      let relation ← GeojsonRelation.named nodeFilter
      some (.geojson relation operand)
  | _ => none

def Subject.readTime (recMethod : RbVal) : Option Subject :=
  if recMethod.isSym "last_update" then some .lastUpdate
  else if recMethod.isSym "expiration_time" then some .voidTime
  else none

def OwnFilter.readRecord (rt : Runtime) (filters : Filters) : Option OwnFilter := do
  let subject ← Subject.readTime (aref filters.recMethod)
  let operand ← (rt.num2ulong (aref filters.value)).toOption
  let relation ← IntegerRelation.named (aref filters.filter)
  some ⟨subject, .integer relation operand⟩

def OwnFilter.readCollection (bin : CStr) (filters : Filters) : Option OwnFilter :=
  if (aref filters.collectionVar).isNil then none
  else do
    let comparison ← Comparison.read (aref filters.filter) (aref filters.value)
    let collection ← Collection.named (aref filters.collection)
    let quantifier ← Quantifier.named (aref filters.collectionPred)
    some ⟨.elements collection quantifier bin, comparison⟩

def OwnFilter.readBin (bin : CStr) (filters : Filters) : Option OwnFilter := do
  let comparison ← Comparison.read (aref filters.filter) (aref filters.value)
  some ⟨.bin bin, comparison⟩

/-- The filter of a node itself. -/
def OwnFilter.read (rt : Runtime) (nodeBin : RbVal) (filters : Filters) : Option OwnFilter := do
  let bin ← (nodeBinName nodeBin).toOption
  match bin with
  | none => readRecord rt filters
  | some bin =>
      if (aref filters.collection).isNil then readBin bin filters else readCollection bin filters

section

variable (rt : Runtime) (matching : Matching) (record : StoredRecord)

/-- The filter of a node itself, negated where `:true` holds false. -/
def ownSem (nodeBin nodeTrue : RbVal) (nodeFilters : Option Filters) : Bool :=
  match nodeFilters.bind (OwnFilter.read rt nodeBin) with
  | some own =>
      if nodeTrue.type = .false_ then !own.holds matching record else own.holds matching record
  | none => false

mutual

def PredNode.sem : PredNode → Bool
  | .hash bin predTrue filters andNodes orNodes =>
      (ownSem rt matching record bin predTrue filters && (sems andNodes).all id) ||
        (sems orNodes).any id
  | .other => false

def PredNode.sems : Option (List PredNode) → List Bool
  | some nodes => semList nodes
  | none => []

def PredNode.semList : List PredNode → List Bool
  | [] => []
  | node :: rest => sem node :: semList rest

end

end

end AerospikeCRuby
