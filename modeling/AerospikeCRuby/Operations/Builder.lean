import AerospikeCRuby.Ruby.Hash

/-!
# The operation builder

An `AerospikeC::Operation` collects Hashes, one per operation.  Each of its
methods appends a Hash; what the call evaluates to is the object itself where
the body ends in `self`, and the Array of Hashes where it ends in the append.
-/

namespace AerospikeCRuby

structure Operation where
  operations : List RbVal
  ttl : ℤ

namespace Operation

/-- What a builder method evaluates to. -/
inductive Answer where
  | self
  /-- The Array `@operations`. -/
  | operations
deriving DecidableEq

def mustBeIntMsg : String :=
  "[AerospikeC::Operation][initialize] ttl must be an integer"

/-- `Operation.new`, on a Hash of options; `Fixnum` names the class of all Integers. -/
def initialize_ (ops : List RbVal) (options : List (RbVal × RbVal)) : Except Abort Operation :=
  match hashAref options "ttl" with
  | .nil => .ok ⟨ops, 0⟩
  | .integer ttl => .ok ⟨ops, ttl⟩
  | _ => .error (.optionError mustBeIntMsg)

/-- The private method `bin_name`. -/
def binName (rt : Runtime) : RbVal → Except Abort RbVal
  | .string bin => .ok (.string bin)
  | bin => do
      let text ← rt.toS bin
      .ok (.string text)

/-- The entries of a Hash literal with Symbols for keys. -/
def entriesOf (fields : List (String × RbVal)) : List (RbVal × RbVal) :=
  fields.map fun field => (sym field.1, field.2)

def symbolHash (fields : List (String × RbVal)) : RbVal :=
  .hash (entriesOf fields)

theorem hashAref_self (name : String) (value : RbVal) (fields : List (String × RbVal)) :
    hashAref (entriesOf ((name, value) :: fields)) name = value := by
  simp [hashAref, entriesOf]

theorem hashAref_of_ne {name other : String} (different : ascii name ≠ ascii other)
    (value : RbVal) (fields : List (String × RbVal)) :
    hashAref (entriesOf ((name, value) :: fields)) other = hashAref (entriesOf fields) other := by
  simp [hashAref, entriesOf, different]

/-- `@operations << val`. -/
def push (op : Operation) (val : RbVal) : Operation :=
  { op with operations := op.operations ++ [val] }

/-- The method `<<`. -/
def leftShift (op : Operation) : RbVal → Operation
  | .hash entries => op.push (.hash entries)
  | _ => op

section Methods

variable (rt : Runtime) (op : Operation)

/-- `@operations << { operation: type, bin: bin_name(bin), … }`. -/
def pushOn (type : String) (bin : RbVal) (arguments : List (String × RbVal)) :
    Except Abort Operation := do
  let name ← binName rt bin
  .ok (op.push (symbolHash (("operation", sym type) :: ("bin", name) :: arguments)))

/-- A method which appends a Hash and then answers `self`. -/
def chained (type : String) (bin : RbVal) (arguments : List (String × RbVal)) :
    Except Abort (Operation × Answer) := do
  let op ← pushOn rt op type bin arguments
  .ok (op, .self)

def increment! (bin val : RbVal) :=
  chained rt op "increment" bin [("value", val)]

def touch! : Except Abort (Operation × Answer) :=
  .ok (op.push (symbolHash [("operation", sym "touch")]), .self)

def append! (bin val : RbVal) :=
  chained rt op "append" bin [("value", val)]

def prepend! (bin val : RbVal) :=
  chained rt op "prepend" bin [("value", val)]

def read! (bin : RbVal) :=
  chained rt op "read" bin []

def write! (bin val : RbVal) :=
  chained rt op "write" bin [("value", val)]

def listAppend! (bin val : RbVal) :=
  chained rt op "list_append" bin [("value", val)]

def listSet! (bin val index : RbVal) :=
  chained rt op "list_set" bin [("value", val), ("at", index)]

def listTrim! (bin index count : RbVal) :=
  chained rt op "list_trim" bin [("value", index), ("count", count)]

def listClear! (bin : RbVal) :=
  chained rt op "list_clear" bin []

def listPop! (bin index : RbVal) :=
  chained rt op "list_pop" bin [("value", index)]

def listPopRange! (bin index count : RbVal) :=
  chained rt op "list_pop_range" bin [("value", index), ("count", count)]

def listPopRangeFrom! (bin index : RbVal) :=
  chained rt op "list_pop_range_from" bin [("value", index)]

def listRemove! (bin index : RbVal) :=
  chained rt op "list_remove" bin [("value", index)]

def listRemoveRange! (bin index count : RbVal) :=
  chained rt op "list_remove_range" bin [("value", index), ("count", count)]

def listRemoveRangeFrom! (bin index : RbVal) :=
  chained rt op "list_remove_range_from" bin [("value", index)]

def listGet! (bin index : RbVal) :=
  chained rt op "list_get" bin [("value", index)]

def listGetRange! (bin index count : RbVal) :=
  chained rt op "list_get_range" bin [("value", index), ("count", count)]

def listGetRangeFrom! (bin index : RbVal) :=
  chained rt op "list_get_range_from" bin [("value", index)]

/-- The body has no `self` after the append. -/
def listSize! (bin : RbVal) : Except Abort (Operation × Answer) := do
  let op ← pushOn rt op "list_size" bin []
  .ok (op, .operations)

end Methods

/-- A call of a builder method, with its arguments. -/
inductive Call where
  | increment (bin val : RbVal)
  | touch
  | append (bin val : RbVal)
  | prepend (bin val : RbVal)
  | read (bin : RbVal)
  | write (bin val : RbVal)
  | listAppend (bin val : RbVal)
  | listSet (bin val index : RbVal)
  | listTrim (bin index count : RbVal)
  | listClear (bin : RbVal)
  | listPop (bin index : RbVal)
  | listPopRange (bin index count : RbVal)
  | listPopRangeFrom (bin index : RbVal)
  | listRemove (bin index : RbVal)
  | listRemoveRange (bin index count : RbVal)
  | listRemoveRangeFrom (bin index : RbVal)
  | listGet (bin index : RbVal)
  | listGetRange (bin index count : RbVal)
  | listGetRangeFrom (bin index : RbVal)
  | listSize (bin : RbVal)

def Call.perform (rt : Runtime) (op : Operation) : Call → Except Abort (Operation × Answer)
  | .increment bin val => op.increment! rt bin val
  | .touch => op.touch!
  | .append bin val => op.append! rt bin val
  | .prepend bin val => op.prepend! rt bin val
  | .read bin => op.read! rt bin
  | .write bin val => op.write! rt bin val
  | .listAppend bin val => op.listAppend! rt bin val
  | .listSet bin val index => op.listSet! rt bin val index
  | .listTrim bin index count => op.listTrim! rt bin index count
  | .listClear bin => op.listClear! rt bin
  | .listPop bin index => op.listPop! rt bin index
  | .listPopRange bin index count => op.listPopRange! rt bin index count
  | .listPopRangeFrom bin index => op.listPopRangeFrom! rt bin index
  | .listRemove bin index => op.listRemove! rt bin index
  | .listRemoveRange bin index count => op.listRemoveRange! rt bin index count
  | .listRemoveRangeFrom bin index => op.listRemoveRangeFrom! rt bin index
  | .listGet bin index => op.listGet! rt bin index
  | .listGetRange bin index count => op.listGetRange! rt bin index count
  | .listGetRangeFrom bin index => op.listGetRangeFrom! rt bin index
  | .listSize bin => op.listSize! rt bin

/-- Evaluation of `receiver.m1(..).m2(..)…`, over the one Operation in play.  An Array has none
of the builder methods. -/
def evalChain (rt : Runtime) : Answer → Operation → List Call → Except Abort (Operation × Answer)
  | answer, op, [] => .ok (op, answer)
  | .operations, _, _ :: _ => .error (.raised "NoMethodError")
  | .self, op, call :: calls => do
      let (op, answer) ← call.perform rt op
      evalChain rt answer op calls

end Operation

end AerospikeCRuby
