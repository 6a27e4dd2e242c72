import AerospikeCRuby.PredExp.Machine
import AerospikeCRuby.Ruby.Hash

/-!
# Compiling a predicate tree

`predexp_2_as_predexp` turns the tree of node hashes which a PredExp holds into
the sequence of `as_predexp` items for the server.  A node hash is given by what
it holds under the five keys the code looks up, and its `:filters` hash in the
same way; nil stands for a missing key, as `rb_hash_aref` returns it.  Each
function returns the items it inserts into the array.

The name of an iteration variable is what `as_predexp_*_var` reads through the
`VALUE` it is handed as a `char *`, which can be any text; it is a parameter.
-/

namespace AerospikeCRuby

/-- A `:filters` hash. -/
structure Filters where
  filter : Option RbVal := none
  value : Option RbVal := none
  recMethod : Option RbVal := none
  collection : Option RbVal := none
  collectionPred : Option RbVal := none
  collectionVar : Option RbVal := none

/-- A node: a hash, or a value which should have been one.  `none` stands for `:filters` which
are no hash and for children which are no array. -/
inductive PredNode where
  | hash (bin predTrue : RbVal) (filters : Option Filters)
      (andNodes orNodes : Option (List PredNode))
  | other

def raiseParseError {α : Type} : Except Abort α :=
  .error (.parseError "[AerospikeC::PredExp] Invalid parameters")

def aref (entry : Option RbVal) : RbVal :=
  entry.getD .nil

def insertIntegerPredicate (val : RbVal) : Except Abort AsPredexp :=
  if val.isSym "eq" then .ok (.integer .equal)
  else if val.isSym "not_eq" then .ok (.integer .unequal)
  else if val.isSym "gt" then .ok (.integer .greater)
  else if val.isSym "gteq" then .ok (.integer .greatereq)
  else if val.isSym "lt" then .ok (.integer .less)
  else if val.isSym "lteq" then .ok (.integer .lesseq)
  else raiseParseError

def insertStringPredicate (val : RbVal) : Except Abort AsPredexp :=
  if val.isSym "eq" then .ok (.string .equal)
  else if val.isSym "not_eq" then .ok (.string .unequal)
  else if val.isSym "regexp" then .ok (.string (.regex 1))
  else raiseParseError

def insertGeojsonPredicate (val : RbVal) : Except Abort AsPredexp :=
  if val.isSym "within" then .ok (.geojson .within)
  else if val.isSym "contains" then .ok (.geojson .contains)
  else raiseParseError

/-- The last two items of every case of `insert_collection_predicate`. -/
def insertIteration (bin : AsPredexp) (collection : Collection) (collectionPred : RbVal)
    (name : CStr) : Except Abort (List AsPredexp) :=
  if collectionPred.isSym "or" then .ok [bin, .iterate collection .or name]
  else if collectionPred.isSym "and" then .ok [bin, .iterate collection .and name]
  else raiseParseError

def insertCollectionPredicate (bin : CStr) (collection collectionPred : RbVal) (name : CStr) :
    Except Abort (List AsPredexp) :=
  if collection.isSym "array" then insertIteration (.listBin bin) .list collectionPred name
  else if collection.isSym "mapkey" then insertIteration (.mapBin bin) .mapkey collectionPred name
  else if collection.isSym "mapval" then insertIteration (.mapBin bin) .mapval collectionPred name
  else raiseParseError

/-- A comparison, by the type of the value.  The source writes it out twice, with a variable and
with a bin for the left operand. -/
def pushComparison (operand : OperandType → AsPredexp) (nodeFilter nodeValue : RbVal) :
    Except Abort (List AsPredexp) :=
  match nodeValue with
  | .integer value =>
      if IsFixnum value then do
        let value ← num2uint value
        let predicate ← insertIntegerPredicate nodeFilter
        .ok [operand .integer, .integerValue value, predicate]
      else raiseParseError
  | .string text => do
      let value ← stringValueCStr text
      let predicate ← insertStringPredicate nodeFilter
      .ok [operand .string, .stringValue value, predicate]
  | .geoJson json => do
      let predicate ← insertGeojsonPredicate nodeFilter
      .ok [operand .geojson, .geojsonValue json, predicate]
  | _ => raiseParseError

variable (rt : Runtime) (varName : RbVal → CStr)

def pushRecord (filters : Filters) : Except Abort (List AsPredexp) := do
  let recordFilter := aref filters.recMethod
  let time ←
    if recordFilter.isSym "last_update" then .ok .recLastUpdate
    else if recordFilter.isSym "expiration_time" then .ok .recVoidTime
    else raiseParseError
  let value ← rt.num2ulong (aref filters.value)
  let predicate ← insertIntegerPredicate (aref filters.filter)
  .ok [time, .integerValue value, predicate]

def pushCollection (bin : CStr) (filters : Filters) : Except Abort (List AsPredexp) :=
  let nodeCollectionPred := aref filters.collectionPred
  let nodeCollectionVar := aref filters.collectionVar
  if nodeCollectionPred.isNil || nodeCollectionVar.isNil then raiseParseError
  else do
    let name := varName nodeCollectionVar
    let comparison ← pushComparison (.var · name) (aref filters.filter) (aref filters.value)
    let iteration ←
      insertCollectionPredicate bin (aref filters.collection) nodeCollectionPred name
    -- the T_FIXNUM case has inserted the iteration already
    if (aref filters.value).type = .fixnum then .ok (comparison ++ iteration ++ iteration)
    else .ok (comparison ++ iteration)

/-- The bin of a node, or none for `:record`. -/
def nodeBinName (nodeBin : RbVal) : Except Abort (Option CStr) :=
  match nodeBin with
  | .string text => some <$> stringValueCStr text
  | .symbol name =>
      if nodeBin.isSym "record" then .ok none else some <$> stringValueCStr name
  | _ => raiseParseError

def push2AsPredexp (nodeBin nodeTrue : RbVal) (nodeFilters : Option Filters) :
    Except Abort (List AsPredexp) := do
  let filters ← nodeFilters.elim raiseParseError .ok
  let bin ← nodeBinName nodeBin
  let comparison ←
    match bin with
    | none => pushRecord rt filters
    | some bin =>
        if !(aref filters.collection).isNil then pushCollection varName bin filters
        else pushComparison (.bin · bin) (aref filters.filter) (aref filters.value)
  if nodeTrue.type = .false_ then .ok (comparison ++ [.not]) else .ok comparison

mutual

def predexpNode2AsPredexp : PredNode → Except Abort (List AsPredexp)
  | .other => raiseParseError
  | .hash bin predTrue filters andNodes orNodes => do
      let own ← push2AsPredexp rt varName bin predTrue filters
      let ands ← predexpNodes2AsPredexp .and andNodes
      let ors ← predexpNodes2AsPredexp .or orNodes
      .ok (own ++ ands ++ ors)

/-- The children of a node and, where there are any, their combination with the value before. -/
def predexpNodes2AsPredexp (combine : ℕ → AsPredexp) :
    Option (List PredNode) → Except Abort (List AsPredexp)
  | none => raiseParseError
  | some nodes => do
      let length ← rbAryLenInt nodes
      if 0 < length then
        let code ← predexpNodeList2AsPredexp nodes
        .ok (code ++ [combine (length + 1)])
      else .ok []

def predexpNodeList2AsPredexp : List PredNode → Except Abort (List AsPredexp)
  | [] => .ok []
  | node :: rest => do
      let first ← predexpNode2AsPredexp node
      let others ← predexpNodeList2AsPredexp rest
      .ok (first ++ others)

end

/-- What a PredExp holds is nil or a node. -/
def predexp2AsPredexp : Option PredNode → Except Abort (List AsPredexp)
  | none => .ok []
  | some node => predexpNode2AsPredexp rt varName node

end AerospikeCRuby
