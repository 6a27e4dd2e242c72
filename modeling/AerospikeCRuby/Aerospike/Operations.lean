import AerospikeCRuby.Aerospike.Record
import AerospikeCRuby.Library.BoundedList

/-!
# Operations of the C client

An `as_operations` is an array of operations on the bins of one record, of the
capacity it was made with.  The functions `as_operations_add_*` refuse an
operation once the array is full, and one on a bin whose name has more than 14
bytes.
-/

namespace AerospikeCRuby

/-- What an operation does to the bin it names. -/
inductive BinAction where
  | read
  | incr (value : BitVec 64)
  | appendStr (value : CStr)
  | prependStr (value : CStr)
  | write (value : AsVal)
  | listAppend (val : AsVal)
  | listSet (index : BitVec 64) (val : AsVal)
  | listTrim (index count : BitVec 64)
  | listClear
  | listPop (index : BitVec 64)
  | listPopRange (index count : BitVec 64)
  | listPopRangeFrom (index : BitVec 64)
  | listRemove (index : BitVec 64)
  | listRemoveRange (index count : BitVec 64)
  | listRemoveRangeFrom (index : BitVec 64)
  | listGet (index : BitVec 64)
  | listGetRange (index count : BitVec 64)
  | listGetRangeFrom (index : BitVec 64)
  | listSize

inductive AsOperation where
  | touch
  | onBin (name : CStr) (action : BinAction)

/-- The operation names no bin, or one whose name is short enough. -/
def AsOperation.Nameable : AsOperation → Prop
  | .touch => True
  | .onBin name _ => name.bytes.length ≤ asBinNameMaxLen

instance : DecidablePred AsOperation.Nameable
  | .touch => inferInstanceAs (Decidable True)
  | .onBin name _ => inferInstanceAs (Decidable (name.bytes.length ≤ asBinNameMaxLen))

/-- `as_operations_new` takes its argument as a `uint16_t`. -/
def asOperationsCapacity (nops : ℕ) : ℕ :=
  nops % 2 ^ 16

theorem asOperationsCapacity_lt (nops : ℕ) : asOperationsCapacity nops < 2 ^ 16 :=
  Nat.mod_lt nops (by decide)

structure AsOperations where
  list : BoundedList AsOperation AsOperation.Nameable
  ttl : BitVec 32
  addressable : list.capacity < 2 ^ 16

namespace AsOperations

def entries (ops : AsOperations) : List AsOperation :=
  ops.list.entries

def new (nops : ℕ) : AsOperations where
  list := .empty (asOperationsCapacity nops)
  ttl := 0
  addressable := asOperationsCapacity_lt nops

/-- The functions `as_operations_add_*`: the answer says whether the operation was added. -/
def add (ops : AsOperations) (operation : AsOperation) : Bool × AsOperations :=
  ((ops.list.add operation).1,
    { ops with
      list := (ops.list.add operation).2
      addressable := by
        rw [BoundedList.capacity_add]
        exact ops.addressable })

def addAll (ops : AsOperations) (operations : List AsOperation) : AsOperations :=
  operations.foldl (fun ops operation => (ops.add operation).2) ops

variable (ops : AsOperations)

theorem list_addAll (operations : List AsOperation) :
    (ops.addAll operations).list = ops.list.addAll operations := by
  induction operations generalizing ops with
  | nil => rfl
  | cons operation rest ih => exact ih (ops.add operation).2

/-- Of the operations added to a new list, the first ones on short names are kept. -/
theorem entries_addAll_new (nops : ℕ) (ttl : BitVec 32) (operations : List AsOperation) :
    ({ new nops with ttl := ttl }.addAll operations).entries =
      (operations.filter fun operation => AsOperation.Nameable operation).take
        (asOperationsCapacity nops) := by
  rw [entries, list_addAll]
  exact BoundedList.entries_addAll_empty _ _

theorem nameable {operation : AsOperation} (member : operation ∈ ops.entries) :
    operation.Nameable :=
  ops.list.valid operation member

theorem length_entries_lt : ops.entries.length < 2 ^ 16 :=
  ops.list.fits.trans_lt ops.addressable

end AsOperations

end AerospikeCRuby
