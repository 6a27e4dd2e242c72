import AerospikeCRuby.Aerospike.Operations
import AerospikeCRuby.Client.Batch
import AerospikeCRuby.Client.Header
import AerospikeCRuby.Codec.Put
import AerospikeCRuby.Ruby.Hash

/-!
# Commands for one record

The methods of `AerospikeC::Client` which write, read, delete and look for one
record.  Each of them converts its arguments, gives one command of the C client
and makes an answer of the status.  The structs of the GeoJson objects are
changed by `put` only.
-/

namespace AerospikeCRuby

/-- The commands of the C client over a state of the cluster, where a record may also run out of
time.  A policy is what `get_policy` gives. -/
structure Cluster (Policy State : Type) where
  keyPut : State → Policy → AsKey → Handed → ℤ × State
  keyGet : State → Policy → AsKey → ℤ × AsRecord × State
  keySelect : State → Policy → AsKey → List CStr → ℤ × AsRecord × State
  keyRemove : State → Policy → AsKey → ℤ × State
  keyExists : State → Policy → AsKey → ℤ × AsRecord × State
  keyOperate : State → Policy → AsKey → AsOperations → ℤ × AsRecord × State
  expire : State → AsKey → State

namespace Client

/-- A call of a method, with its arguments and the outcome of `get_policy`, or the end of a
record's time to live. -/
inductive Event (Ref Policy : Type) where
  | put (key : Key) (bins : List (RbVal × BinVal Ref)) (policy : Except Abort Policy) (ttl : RbVal)
  | get (key : Key) (specificBins : Option (List RbVal)) (policy : Except Abort Policy)
      (withHeader : RbVal)
  | delete (key : Key) (policy : Except Abort Policy)
  | exists_ (key : Key) (policy : Except Abort Policy)
  | getHeader (key : Key) (policy : Except Abort Policy)
  | touch (key : Key) (ttl : Option RbVal) (policy : Except Abort Policy)
  | expires (key : AsKey)

/-- What a method returns, or raises: before its command, or by `raise_as_error`. -/
inductive Answer where
  | nil
  | bool (value : Bool)
  | hash (bins : StrHash)
  | header (gen : UInt16) (ttl : UInt32)
  | raised (abort : Abort)
  | failed (status : ℤ)

/-- The answer to a status. -/
def answerOf (status : ℤ) (success missing : Answer) : Answer :=
  if status = aerospikeOk then success
  else if status = aerospikeErrRecordNotFound then missing
  else .failed status

/-- `record2hash` and `check_with_header` of a record that was read. -/
def readAnswer (rt : Runtime) (withHeader : RbVal) (rec : AsRecord) : Answer :=
  match readHash rt withHeader rec with
  | .ok bins => .hash bins
  | .error abort => .raised abort

variable (rt : Runtime) {Ref Policy State : Type} (cluster : Cluster Policy State) (state : State)

/-- The arguments of `put` up to its command. -/
def putCall (bins : List (RbVal × BinVal Ref)) (policy : Except Abort Policy) (ttl : RbVal) :
    PutCall Ref :=
  ⟨bins, policy.map fun _ => (), ttl⟩

/-- The record is destroyed whatever the status, and not at all where `put` raises before its
command. -/
def put [DecidableEq Ref] (heap : GeoHeap Ref) (key : Key) (bins : List (RbVal × BinVal Ref))
    (policy : Except Abort Policy) (ttl : RbVal) : Answer × State × GeoHeap Ref :=
  let filled :=
    (ExceptLoop.reached (foreachHash2recordLent rt) (heap, .init bins.length) bins).1
  match handOver rt heap (putCall bins policy ttl), policy with
  | .error abort, _ => (.raised abort, state, filled)
  | _, .error abort => (.raised abort, state, filled)
  | .ok (handed, heap, rec), .ok policy =>
      let (status, next) := cluster.keyPut state policy key.asKey handed
      (answerOf status (.bool true) .nil, next, asRecordDestroy heap rec)

def get (key : Key) (specificBins : Option (List RbVal)) (policy : Except Abort Policy)
    (withHeader : RbVal) : Answer × State :=
  match policy, getBinNames rt specificBins with
  | .error abort, _ => (.raised abort, state)
  | _, .error abort => (.raised abort, state)
  | .ok policy, .ok (some inputArray) =>
      let (status, rec, next) := cluster.keySelect state policy key.asKey inputArray
      (answerOf status (readAnswer rt withHeader rec) .nil, next)
  | .ok policy, .ok none =>
      let (status, rec, next) := cluster.keyGet state policy key.asKey
      (answerOf status (readAnswer rt withHeader rec) .nil, next)

def deleteRecord (key : Key) (policy : Except Abort Policy) : Answer × State :=
  match policy with
  | .error abort => (.raised abort, state)
  | .ok policy =>
      let (status, next) := cluster.keyRemove state policy key.asKey
      (answerOf status (.bool true) .nil, next)

def keyExists (key : Key) (policy : Except Abort Policy) : Answer × State :=
  match policy with
  | .error abort => (.raised abort, state)
  | .ok policy =>
      let (status, _, next) := cluster.keyExists state policy key.asKey
      (answerOf status (.bool true) (.bool false), next)

def getHeader (key : Key) (policy : Except Abort Policy) : Answer × State :=
  match policy with
  | .error abort => (.raised abort, state)
  | .ok policy =>
      let (status, rec, next) := cluster.keyExists state policy key.asKey
      (answerOf status (.header rec.gen rec.ttl) .nil, next)

/-- The `as_operations` of `touch`; without options the ttl is 0. -/
def touchOperations (ttl : Option RbVal) : Except Abort AsOperations :=
  let ttl := ttl.getD (.integer 0)
  if ttl.type ≠ .fixnum then
    .error (.optionError "[AerospikeC::Client][put] ttl must be an integer")
  else do
    let value ← rt.rbFix2int ttl
    .ok { ((AsOperations.new 1).add .touch).2 with ttl := BitVec.ofInt 32 value }

def touch (key : Key) (ttl : Option RbVal) (policy : Except Abort Policy) : Answer × State :=
  match touchOperations rt ttl, policy with
  | .error abort, _ => (.raised abort, state)
  | _, .error abort => (.raised abort, state)
  | .ok ops, .ok policy =>
      let (status, rec, next) := cluster.keyOperate state policy key.asKey ops
      (answerOf status (.header rec.gen rec.ttl) .nil, next)

/-- The outcome of a method beside the structs, which it leaves alone. -/
def beside (heap : GeoHeap Ref) (outcome : Answer × State) : Answer × State × GeoHeap Ref :=
  (outcome.1, outcome.2, heap)

def perform [DecidableEq Ref] (state : State × GeoHeap Ref) :
    Event Ref Policy → Answer × State × GeoHeap Ref
  | .put key bins policy ttl => put rt cluster state.1 state.2 key bins policy ttl
  | .get key specificBins policy withHeader =>
      beside state.2 (get rt cluster state.1 key specificBins policy withHeader)
  | .delete key policy => beside state.2 (deleteRecord cluster state.1 key policy)
  | .exists_ key policy => beside state.2 (keyExists cluster state.1 key policy)
  | .getHeader key policy => beside state.2 (getHeader cluster state.1 key policy)
  | .touch key ttl policy => beside state.2 (touch rt cluster state.1 key ttl policy)
  | .expires key => beside state.2 (.nil, cluster.expire state.1 key)

end Client

end AerospikeCRuby
