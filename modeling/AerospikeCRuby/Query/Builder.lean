import AerospikeCRuby.Client.Config
import AerospikeCRuby.Operations.Translate
import AerospikeCRuby.PredExp.Compile

/-!
# The query builder

An `AerospikeC::Query` keeps the names of the bins to read, one filter, the
order and a predicate.  A method which raises does so before it changes an
instance variable.
-/

namespace AerospikeCRuby

/-- An `AerospikeC::Query`, by its instance variables; `filter` is the Hash in `@filter`. -/
structure Query where
  namespace_ : RbVal
  set : RbVal
  bins : List RbVal
  filter : Option (List (RbVal × RbVal))
  order : List RbVal
  predexp : Option PredNode

/-- `AS_ORDER_ASCENDING` and `AS_ORDER_DESCENDING`. -/
inductive AsOrder where
  | ascending
  | descending
deriving DecidableEq, Repr

def AsOrder.code : AsOrder → ℤ
  | ascending => 0
  | descending => 1

namespace Query

open Operation (symbolHash entriesOf)

variable (rt : Runtime) (env : Unspecified)

/-- The text which a `%s` shows. -/
def shownText (text : CStr) : String :=
  String.ofList (text.bytes.map fun byte => Char.ofNat byte.toNat)

/-- The argument `bins` of `Query.new`. -/
def binsArgument : RbVal → Except Abort (List RbVal)
  | .nil => .ok []
  | .array bins => .ok bins
  | bins => .error (.optionError ("[AerospikeC::Query][initialize] bins must be an array: " ++
      rbValTypeAsStr bins.type))

def initialize_ (argv : List RbVal) : Except Abort Query := do
  let (ns, set, bins) ← scanArgs21 argv
  let bins ← binsArgument bins
  let ns ← rt.toS ns
  let set ← rt.toS set
  .ok {
    namespace_ := .string ns
    set := .string set
    bins := bins
    filter := none
    order := []
    predexp := none }

variable (query : Query)

def eql (bin value : RbVal) : Except Abort Query := do
  let name ← rt.toS bin
  let fields := [("filter_type", sym "eql"), ("bin", .string name), ("value", value)]
  match value.type with
  | .string =>
      .ok { query with filter := some (entriesOf (fields ++ [("type", sym "string")])) }
  | .fixnum =>
      .ok { query with filter := some (entriesOf (fields ++ [("type", sym "numeric")])) }
  | type => .error (.optionError ("[AerospikeC::Query][eql] Unsuporrted value type: " ++
      rbValTypeAsStr type))

def range (bin min max : RbVal) : Except Abort Query :=
  if min.type ≠ .fixnum then
    .error (.optionError "[AerospikeC::Query][range] min must be integer")
  else if max.type ≠ .fixnum then
    .error (.optionError "[AerospikeC::Query][range] max must be integer")
  else do
    let name ← rt.toS bin
    .ok { query with filter := some (entriesOf
      [("filter_type", sym "range"), ("bin", .string name), ("min", min), ("max", max)]) }

/-- `geo_contains` and `geo_within`, by the name which they give the filter. -/
def geoFilter (type : String) (bin geo : RbVal) : Except Abort Query :=
  match geo with
  | .geoJson json => do
      let name ← rt.toS bin
      .ok { query with filter := some (entriesOf
        [("filter_type", sym type), ("bin", .string name), ("value", .geoJson json)]) }
  | _ => .error (.optionError ("[AerospikeC::Query][" ++ type ++
      "] must be AerospikeC::GeoJson obj"))

def geoContains (bin geo : RbVal) : Except Abort Query :=
  geoFilter rt query "geo_contains" bin geo

def geoWithin (bin geo : RbVal) : Except Abort Query :=
  geoFilter rt query "geo_within" bin geo

/-- The constant which `order_by` puts for one of its two Symbols. -/
def orderOf (order : RbVal) : Option AsOrder :=
  if order.isSym "asc" then some .ascending
  else if order.isSym "desc" then some .descending
  else none

def orderBy (bin order : RbVal) : Except Abort Query :=
  match orderOf order with
  | none => do
      let inspected ← env.valInspect order
      .error (.optionError ("[AerospikeC::Query][order_by] order value: " ++
        shownText inspected ++ ", should be :desc or :asc"))
  | some direction => do
      let name ← rt.toS bin
      .ok { query with order := query.order ++
        [symbolHash [("order", .integer direction.code), ("bin", .string name)]] }

def addBin (bin : RbVal) : Query :=
  { query with bins := query.bins ++ [bin] }

/-- `namespace=`, which takes any value. -/
def assignNamespace (value : RbVal) : Query :=
  { query with namespace_ := value }

/-- `set=`, which takes any value. -/
def assignSet (value : RbVal) : Query :=
  { query with set := value }

/-- `bins=` with an Array. -/
def assignBins (bins : List RbVal) : Query :=
  { query with bins }

/-- `predexp=` with an `AerospikeC::PredExp`, by its root. -/
def setPredexp (predexp : Option PredNode) : Query :=
  { query with predexp }

/-- A call of a builder method, with its arguments. -/
inductive Call where
  | eql (bin value : RbVal)
  | range (bin min max : RbVal)
  | geoContains (bin geo : RbVal)
  | geoWithin (bin geo : RbVal)
  | orderBy (bin order : RbVal)
  | addBin (bin : RbVal)
  | assignNamespace (value : RbVal)
  | assignSet (value : RbVal)
  | assignBins (bins : List RbVal)
  | setPredexp (predexp : Option PredNode)

def Call.perform : Call → Except Abort Query
  | .eql bin value => query.eql rt bin value
  | .range bin min max => query.range rt bin min max
  | .geoContains bin geo => query.geoContains rt bin geo
  | .geoWithin bin geo => query.geoWithin rt bin geo
  | .orderBy bin order => query.orderBy rt env bin order
  | .addBin bin => .ok (query.addBin bin)
  | .assignNamespace value => .ok (query.assignNamespace value)
  | .assignSet value => .ok (query.assignSet value)
  | .assignBins bins => .ok (query.assignBins bins)
  | .setPredexp predexp => .ok (query.setPredexp predexp)

/-- The query after a call whose exception, if it raises one, is rescued. -/
def after (call : Call) : Query :=
  match call.perform rt env query with
  | .ok changed => changed
  | .error _ => query

end Query

end AerospikeCRuby
