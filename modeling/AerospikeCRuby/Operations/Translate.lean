import AerospikeCRuby.Aerospike.Operations
import AerospikeCRuby.Client.Key
import AerospikeCRuby.Codec.Encode
import AerospikeCRuby.Operations.Builder

/-!
# From an Operation to an `as_operations`

The loop over the Hashes of an Operation.  Its local `bin_name` is assigned only
where the Hash has a bin, and `FIX2LONG` shifts whatever word it is handed; what
C leaves open in both cases is a parameter.
-/

namespace AerospikeCRuby

/-- The operations `rb_operations2as_operations` knows. -/
inductive OperationType where
  | touch
  | read
  | increment
  | append
  | prepend
  | write
  | listAppend
  | listSet
  | listTrim
  | listClear
  | listPop
  | listPopRange
  | listPopRangeFrom
  | listRemove
  | listRemoveRange
  | listRemoveRangeFrom
  | listGet
  | listGetRange
  | listGetRangeFrom
  | listSize
deriving DecidableEq

namespace OperationType

/-- The Symbol, by its name. -/
def name : OperationType → String
  | touch => "touch"
  | read => "read"
  | increment => "increment"
  | append => "append"
  | prepend => "prepend"
  | write => "write"
  | listAppend => "list_append"
  | listSet => "list_set"
  | listTrim => "list_trim"
  | listClear => "list_clear"
  | listPop => "list_pop"
  | listPopRange => "list_pop_range"
  | listPopRangeFrom => "list_pop_range_from"
  | listRemove => "list_remove"
  | listRemoveRange => "list_remove_range"
  | listRemoveRangeFrom => "list_remove_range_from"
  | listGet => "list_get"
  | listGetRange => "list_get_range"
  | listGetRangeFrom => "list_get_range_from"
  | listSize => "list_size"

/-- In the order of the comparisons. -/
def all : List OperationType :=
  [touch, read, increment, append, prepend, write, listAppend, listSet, listTrim, listClear,
    listPop, listPopRange, listPopRangeFrom, listRemove, listRemoveRange, listRemoveRangeFrom,
    listGet, listGetRange, listGetRangeFrom, listSize]

/-- The first Symbol a value is compared with that it is equal to. -/
def ofValue (value : RbVal) : Option OperationType :=
  all.find? fun type => value.isSym type.name

theorem ofValue_eq_some {value : RbVal} {type : OperationType} :
    ofValue value = some type ↔ value.isSym type.name = true := by
  constructor
  · intro found
    rw [ofValue] at found
    have same := List.find?_some found
    exact same
  · intro same
    cases value with
    | symbol text =>
        have spelled : text.bytes = ascii type.name := beq_iff_eq.mp same
        have names (other : OperationType) :
            (RbVal.symbol text).isSym other.name = (sym type.name).isSym other.name := by
          simp only [RbVal.isSym, spelled, sym]
        simp only [ofValue, names]
        cases type <;> rfl
    | _ => cases same

theorem ofValue_eq_none {value : RbVal} (unknown : ∀ type, value.isSym (name type) = false) :
    ofValue value = none := by
  apply List.find?_eq_none.mpr
  intro type _ same
  rw [unknown type] at same
  cases same

@[simp]
theorem ofValue_sym (type : OperationType) : ofValue (sym type.name) = some type :=
  ofValue_eq_some.mpr (beq_self_eq_true _)

end OperationType

/-- What the translation depends on beside its arguments. -/
structure Unspecified where
  /-- `bin_name` in an iteration which does not assign it: a text, or nothing readable. -/
  stale : ℕ → Option CStr
  /-- The word of a `VALUE` which is no fixnum. -/
  word : RbVal → BitVec 64
  /-- `rb_hash_aref` of what is no Hash. -/
  misread : RbVal → String → Except Abort RbVal
  /-- The method `inspect`. -/
  inspect : RbVal → Except String RbStr

namespace Unspecified

/-- Nothing readable is left in `bin_name`, and every word is that of nil. -/
def blank : Unspecified where
  stale := fun _ => none
  word := fun _ => 8
  misread := fun _ _ => .error (.raised "NoMethodError")
  inspect := fun _ => .ok ⟨ascii "nil", .utf8⟩

variable (rt : Runtime) (env : Unspecified)

/-- `FIX2LONG` of any value. -/
def fix2long : RbVal → BitVec 64
  | .integer value =>
      if IsFixnum value then AerospikeCRuby.fix2long value
      else (env.word (.integer value)).sshiftRight 1
  | value => (env.word value).sshiftRight 1

def valInspect (val : RbVal) : Except Abort CStr := do
  let tmp ← (env.inspect val).mapError .raised
  stringValueCStr tmp

/-- The arguments after the bin name in the branch of one operation; `touch` has no bin. -/
def operands (op val : RbVal) : OperationType → Except Abort (Option BinAction)
  | .touch => .ok none
  | .read => .ok (some .read)
  | .increment => .ok (some (.incr (env.fix2long val)))
  | .append => do
      let text ← valueToCstr rt val
      .ok (some (.appendStr text))
  | .prepend => do
      let text ← valueToCstr rt val
      .ok (some (.prependStr text))
  | .write => do
      let value ← writeOperand rt val
      .ok (some (.write value))
  | .listAppend => do
      let value ← rbVal2asVal rt val
      .ok (some (.listAppend value))
  | .listSet => do
      let tmp ← rbHashAref env.misread op "at"
      let value ← rbVal2asVal rt val
      .ok (some (.listSet (env.fix2long tmp) value))
  | .listTrim => do
      let tmp ← rbHashAref env.misread op "count"
      .ok (some (.listTrim (env.fix2long val) (env.fix2long tmp)))
  | .listClear => .ok (some .listClear)
  | .listPop => .ok (some (.listPop (env.fix2long val)))
  | .listPopRange => do
      let tmp ← rbHashAref env.misread op "count"
      .ok (some (.listPopRange (env.fix2long val) (env.fix2long tmp)))
  | .listPopRangeFrom => .ok (some (.listPopRangeFrom (env.fix2long val)))
  | .listRemove => .ok (some (.listRemove (env.fix2long val)))
  | .listRemoveRange => do
      let tmp ← rbHashAref env.misread op "count"
      .ok (some (.listRemoveRange (env.fix2long val) (env.fix2long tmp)))
  | .listRemoveRangeFrom => .ok (some (.listRemoveRangeFrom (env.fix2long val)))
  | .listGet => .ok (some (.listGet (env.fix2long val)))
  | .listGetRange => do
      let tmp ← rbHashAref env.misread op "count"
      .ok (some (.listGetRange (env.fix2long val) (env.fix2long tmp)))
  | .listGetRangeFrom => .ok (some (.listGetRangeFrom (env.fix2long val)))
  | .listSize => .ok (some .listSize)

/-- The call of `as_operations_add_*`, which reads the name first; its answer is not looked at. -/
def addOn (ops : AsOperations) : Option CStr → Option BinAction → Except Abort AsOperations
  | _, none => .ok (ops.add .touch).2
  | some binName, some action => .ok (ops.add (.onBin binName action)).2
  | none, some _ => .error .nullDeref

/-- `bin_name`, from the bin of the Hash. -/
def binName (i : ℕ) (rbBin : RbVal) : Except Abort (Option CStr) :=
  if rbBin.isNil then
    .ok (env.stale i)
  else do
    let name ← valueToCstr rt rbBin
    .ok (some name)

/-- One iteration of `rb_operations2as_operations`. -/
def addOperation (i : ℕ) (ops : AsOperations) (op : RbVal) : Except Abort AsOperations := do
  let rbBin ← rbHashAref env.misread op "bin"
  let binName ← binName rt env i rbBin
  let val ← rbHashAref env.misread op "value"
  let operationType ← rbHashAref env.misread op "operation"
  match OperationType.ofValue operationType with
  | some type => do
      let action ← operands rt env op val type
      addOn ops binName action
  | none => do
      let inspected ← env.valInspect operationType
      .error (.parseError ("[AerospikeC::Client][operate] uknown operation type: " ++
        String.ofList (inspected.bytes.map fun byte => Char.ofNat byte.toNat)))

/-- The loop of `rb_operations2as_operations`, from iteration `i` on. -/
def addOperations (i : ℕ) (ops : AsOperations) : List RbVal → Except Abort AsOperations
  | [] => .ok ops
  | op :: rest => do
      let ops ← addOperation rt env i ops op
      addOperations (i + 1) ops rest

def rbOperations2asOperations (operations : Operation) : Except Abort AsOperations := do
  let opsCount ← rbAryLenInt operations.operations
  let ops := AsOperations.new opsCount
  let ttl ← AerospikeCRuby.fix2int operations.ttl
  addOperations rt env 0 { ops with ttl := BitVec.ofInt 32 ttl } operations.operations

end Unspecified

/-- What a call of `operate` sent to the server, and what it ended with. -/
structure Exchange where
  sent : List AsOperations
  outcome : Except Abort RbVal

/-- `operate`, from the translation on: the policy is read next, and `execute` is the request
with the decoding of its answer. -/
def operate (rt : Runtime) (env : Unspecified) (policy : Except Abort Unit)
    (execute : AsOperations → Except Abort RbVal) (operations : Operation) : Exchange :=
  match env.rbOperations2asOperations rt operations with
  | .error failure => ⟨[], .error failure⟩
  | .ok ops =>
      match policy with
      | .error failure => ⟨[], .error failure⟩
      | .ok () => ⟨[ops], execute ops⟩

end AerospikeCRuby
