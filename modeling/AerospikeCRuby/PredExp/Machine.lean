import AerospikeCRuby.Aerospike.Value
import AerospikeCRuby.Library.Postfix

/-!
# The predicate stack machine

What a sequence of `as_predexp` items means for a record.  An item either pushes
an operand, a bin, a variable or a constant, or replaces what is on top of the
stack by a predicate.  Operands and predicates depend on the values of the
iteration variables, which only the iterations give a value.  A comparison whose
operands are absent or of another type is false.

How the server matches a regular expression and compares regions is a parameter.
-/

namespace AerospikeCRuby

inductive IntegerRelation where
  | equal
  | unequal
  | greater
  | greatereq
  | less
  | lesseq
deriving DecidableEq, Repr

inductive StringRelation where
  | equal
  | unequal
  | regex (flags : ℕ)
deriving DecidableEq, Repr

inductive GeojsonRelation where
  | within
  | contains
deriving DecidableEq, Repr

/-- The types of operands that comparisons take. -/
inductive OperandType where
  | integer
  | string
  | geojson
deriving DecidableEq, Repr

/-- What an iteration runs over: the elements of a list, the keys or the values of a map. -/
inductive Collection where
  | list
  | mapkey
  | mapval
deriving DecidableEq, Repr

inductive Quantifier where
  | or
  | and
deriving DecidableEq, Repr

/-- An `as_predexp_base`. -/
inductive AsPredexp where
  /-- `as_predexp_integer_bin` and its siblings. -/
  | bin (type : OperandType) (name : CStr)
  | var (type : OperandType) (name : CStr)
  | integerValue (value : BitVec 64)
  | stringValue (value : CStr)
  | geojsonValue (value : CStr)
  | listBin (name : CStr)
  | mapBin (name : CStr)
  | recLastUpdate
  | recVoidTime
  | integer (relation : IntegerRelation)
  | string (relation : StringRelation)
  | geojson (relation : GeojsonRelation)
  /-- `as_predexp_list_iterate_or` and its siblings. -/
  | iterate (collection : Collection) (quantifier : Quantifier) (name : CStr)
  | and (nexpr : ℕ)
  | or (nexpr : ℕ)
  | not
deriving DecidableEq

/-- A record as the server stores it; both times are integers to the predicates. -/
structure StoredRecord where
  bin : CStr → Option AsVal
  lastUpdate : BitVec 64
  voidTime : BitVec 64

structure Matching where
  /-- Whether a text matches a regular expression compiled with the flags. -/
  regex : ℕ → Bytes → Bytes → Bool
  /-- Whether the first region lies within the second. -/
  within : Bytes → Bytes → Bool
  /-- Whether the first region contains the second. -/
  contains : Bytes → Bytes → Bool

/-- The numbers are signed. -/
def IntegerRelation.test : IntegerRelation → AsVal → AsVal → Bool
  | .equal, .integer left, .integer right => left == right
  | .unequal, .integer left, .integer right => left != right
  | .greater, .integer left, .integer right => right.slt left
  | .greatereq, .integer left, .integer right => right.sle left
  | .less, .integer left, .integer right => left.slt right
  | .lesseq, .integer left, .integer right => left.sle right
  | _, _, _ => false

def StringRelation.test (matching : Matching) : StringRelation → AsVal → AsVal → Bool
  | .equal, .string left, .string right => left == right
  | .unequal, .string left, .string right => left != right
  | .regex flags, .string left, .string right => matching.regex flags left right
  | _, _, _ => false

def GeojsonRelation.test (matching : Matching) : GeojsonRelation → AsVal → AsVal → Bool
  | .within, .geojson left, .geojson right => matching.within left right
  | .contains, .geojson left, .geojson right => matching.contains left right
  | _, _, _ => false

def OperandType.accepts : OperandType → AsVal → Bool
  | .integer, .integer _ => true
  | .string, .string _ => true
  | .geojson, .geojson _ => true
  | _, _ => false

def Collection.elements : Collection → AsVal → Option (List AsVal)
  | .list, .list elements => some elements
  | .mapkey, .map pairs => some (pairs.map Prod.fst)
  | .mapval, .map pairs => some (pairs.map Prod.snd)
  | _, _ => none

def Quantifier.over : Quantifier → List AsVal → (AsVal → Bool) → Bool
  | .or, elements, holds => elements.any holds
  | .and, elements, holds => elements.all holds

/-- A quantifier over a collection which may be missing. -/
def Quantifier.overSome (quantifier : Quantifier) (elements : Option (List AsVal))
    (holds : AsVal → Bool) : Bool :=
  match elements with
  | some elements => quantifier.over elements holds
  | none => false

/-- The values of the iteration variables. -/
abbrev Scope : Type :=
  CStr → Option AsVal

/-- What is on the stack. -/
inductive Item where
  | operand (value : Scope → Option AsVal)
  | logic (holds : Scope → Bool)

inductive Fault where
  | emptyStack
  | wrongItem
deriving DecidableEq, Repr

/-- A comparison of two operands, either of which may be absent. -/
def testSome (test : AsVal → AsVal → Bool) : Option AsVal → Option AsVal → Bool
  | some left, some right => test left right
  | _, _ => false

def popOperands :
    List Item → Except Fault ((Scope → Option AsVal) × (Scope → Option AsVal) × List Item)
  | .operand right :: .operand left :: rest => .ok (left, right, rest)
  | _ :: _ :: _ => .error .wrongItem
  | _ => .error .emptyStack

def popLogic : ℕ → List Item → Except Fault (List (Scope → Bool) × List Item)
  | 0, stack => .ok ([], stack)
  | n + 1, .logic holds :: stack =>
      (popLogic n stack).map fun popped => (holds :: popped.1, popped.2)
  | _ + 1, .operand _ :: _ => .error .wrongItem
  | _ + 1, [] => .error .emptyStack

/-- The collection lies on top of the predicate about its elements. -/
def popIterated :
    List Item → Except Fault ((Scope → Option AsVal) × (Scope → Bool) × List Item)
  | .operand collection :: .logic holds :: rest => .ok (collection, holds, rest)
  | _ :: _ :: _ => .error .wrongItem
  | _ => .error .emptyStack

def compare (test : AsVal → AsVal → Bool) (stack : List Item) : Except Fault (List Item) :=
  (popOperands stack).map fun (left, right, rest) =>
    .logic (fun scope => testSome test (left scope) (right scope)) :: rest

variable (matching : Matching) (record : StoredRecord)

def AsPredexp.step : AsPredexp → List Item → Except Fault (List Item)
  | .bin type name, stack =>
      .ok (.operand (fun _ => (record.bin name).filter type.accepts) :: stack)
  | .var type name, stack =>
      .ok (.operand (fun scope => (scope name).filter type.accepts) :: stack)
  | .integerValue value, stack => .ok (.operand (fun _ => some (.integer value)) :: stack)
  | .stringValue value, stack => .ok (.operand (fun _ => some (.string value.bytes)) :: stack)
  | .geojsonValue value, stack => .ok (.operand (fun _ => some (.geojson value.bytes)) :: stack)
  | .listBin name, stack | .mapBin name, stack =>
      .ok (.operand (fun _ => record.bin name) :: stack)
  | .recLastUpdate, stack =>
      .ok (.operand (fun _ => some (.integer record.lastUpdate)) :: stack)
  | .recVoidTime, stack =>
      .ok (.operand (fun _ => some (.integer record.voidTime)) :: stack)
  | .integer relation, stack => compare relation.test stack
  | .string relation, stack => compare (relation.test matching) stack
  | .geojson relation, stack => compare (relation.test matching) stack
  | .iterate collection quantifier name, stack =>
      (popIterated stack).map fun (iterated, holds, rest) =>
        .logic (fun scope =>
          quantifier.overSome ((iterated scope).bind collection.elements) fun element =>
            holds (Function.update scope name (some element))) :: rest
  | .and nexpr, stack =>
      (popLogic nexpr stack).map fun (operands, rest) =>
        .logic (fun scope => operands.all fun holds => holds scope) :: rest
  | .or nexpr, stack =>
      (popLogic nexpr stack).map fun (operands, rest) =>
        .logic (fun scope => operands.any fun holds => holds scope) :: rest
  | .not, stack =>
      (popLogic 1 stack).map fun (operands, rest) =>
        .logic (fun scope => operands.all fun holds => !holds scope) :: rest

/-- Run the sequence. -/
abbrev runPredexp : List AsPredexp → List Item → Except Fault (List Item) :=
  Postfix.run (AsPredexp.step matching record)

end AerospikeCRuby
