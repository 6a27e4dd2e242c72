import AerospikeCRuby.Library.BoundedList
import AerospikeCRuby.PredExp.GrowingArray
import AerospikeCRuby.Query.Builder

/-!
# From a query to an as_query

`query_obj2as_query` hands the names, the filter and the order of a Query to
functions of the C client which refuse a bin name of more than 14 bytes and
whatever exceeds the capacity.  Their answers are not looked at.  The order goes
into memory of `alloca`, which is gone when the function returns.
-/

namespace AerospikeCRuby

/-- A bin name which the C client takes. -/
abbrev ShortName (name : CStr) : Prop :=
  name.bytes.length ≤ asBinNameMaxLen

/-- The predicate of a where clause. -/
inductive AsPredicate where
  | integerEquals (value : BitVec 64)
  | stringEquals (value : CStr)
  | integerRange (min max : BitVec 64)
  | geoWithin (json : CStr)
  | geoContains (json : CStr)
deriving DecidableEq

abbrev AsSelect := BoundedList CStr ShortName

abbrev AsWhere := BoundedList (CStr × AsPredicate) fun clause => ShortName clause.1

abbrev AsOrderby := BoundedList (CStr × ℤ) fun entry => ShortName entry.1

/-- A list of a query, and whose memory it lies in. -/
inductive Placed (List : Type) where
  /-- The query's own. -/
  | held (list : List)
  /-- That of the function which is running. -/
  | alloca (list : List)
  /-- That of a function which has returned. -/
  | gone

/-- The function which is running returns. -/
def Placed.returned {List : Type} : Placed List → Placed List
  | held list => held list
  | _ => gone

/-- An `as_query`; the counts it is given are `uint16_t`. -/
structure AsQuery where
  ns : CStr
  set : CStr
  select : AsSelect
  where_ : AsWhere
  orderby : Placed AsOrderby
  predexp : Option (AsQueryPredexp AsPredexp)

namespace AsQuery

/-- `as_query_new` and `as_query_where_init` for one clause. -/
def new (ns set : CStr) : AsQuery where
  ns := ns
  set := set
  select := .empty 0
  where_ := .empty 1
  orderby := .held (.empty 0)
  predexp := none

/-- The query as the function which filled it hands it on. -/
def returned (query : AsQuery) : AsQuery :=
  { query with orderby := query.orderby.returned }

/-- `as_query_where`. -/
def addWhere (query : AsQuery) (bin : CStr) (predicate : AsPredicate) : AsQuery :=
  { query with where_ := (query.where_.add (bin, predicate)).2 }

end AsQuery

namespace Query

variable (rt : Runtime) (env : Unspecified)

/-- The names handed to `as_query_select`, up to one that does not convert. -/
def selectNames (bins : List RbVal) : Except Abort (List CStr) :=
  ExceptLoop.collect (valueToCstr rt) bins

/-- `as_query_select_init` and the loop of `as_query_select`. -/
def select (asQuery : AsQuery) (bins : List RbVal) : Except Abort AsQuery := do
  let len ← rbAryLenInt bins
  if len > 0 then do
    let names ← selectNames rt bins
    .ok { asQuery with select := (BoundedList.empty (len % 2 ^ 16)).addAll names }
  else .ok asQuery

/-- The clause of a filter Hash. -/
def whereClause (filter : List (RbVal × RbVal)) : Except Abort (CStr × AsPredicate) := do
  let filterType := hashAref filter "filter_type"
  let queryBin := hashAref filter "bin"
  if filterType.isSym "eql" then
    let val := hashAref filter "value"
    let whereType := hashAref filter "type"
    if whereType.isSym "numeric" then do
      let bin ← valueToCstr rt queryBin
      .ok (bin, .integerEquals (env.fix2long val))
    else if whereType.isSym "string" then do
      let bin ← valueToCstr rt queryBin
      let text ← valueToCstr rt val
      .ok (bin, .stringEquals text)
    else do
      let inspected ← env.valInspect val
      .error (.parseError ("[Utils][query_obj2as_query] Unsupported eql value type: " ++
        shownText inspected))
  else if filterType.isSym "range" then do
    let bin ← valueToCstr rt queryBin
    .ok (bin, .integerRange (env.fix2long (hashAref filter "min"))
      (env.fix2long (hashAref filter "max")))
  else if filterType.isSym "geo_within" then do
    let json ← geoJsonStruct (hashAref filter "value")
    let bin ← valueToCstr rt queryBin
    .ok (bin, .geoWithin json)
  else if filterType.isSym "geo_contains" then do
    let json ← geoJsonStruct (hashAref filter "value")
    let bin ← valueToCstr rt queryBin
    .ok (bin, .geoContains json)
  else do
    let inspected ← env.valInspect filterType
    .error (.parseError ("[Utils][query_obj2as_query] Unsupported filter type: " ++
      shownText inspected))
where
  /-- `get_geo_json_struct`; of another object it reads what is no `as_geojson`. -/
  geoJsonStruct : RbVal → Except Abort CStr
    | .geoJson json => .ok json
    | _ => .error .nullDeref

def addFilter (asQuery : AsQuery) : Option (List (RbVal × RbVal)) → Except Abort AsQuery
  | none => .ok asQuery
  | some filter => do
      let clause ← whereClause rt env filter
      .ok (asQuery.addWhere clause.1 clause.2)

/-- The arguments of `as_query_orderby` for one Hash of `@order`. -/
def orderEntry (entry : RbVal) : Except Abort (CStr × ℤ) := do
  let orderBin ← rbHashAref env.misread entry "bin"
  let orderType ← rbHashAref env.misread entry "order"
  let bin ← valueToCstr rt orderBin
  let order ← rt.rbFix2int orderType
  .ok (bin, order)

/-- `as_query_orderby_inita` and the loop of `as_query_orderby`. -/
def orderBins (asQuery : AsQuery) (order : List RbVal) : Except Abort AsQuery := do
  let len ← rbAryLenInt order
  if len > 0 then do
    let entries ← ExceptLoop.collect (orderEntry rt env) order
    .ok { asQuery with orderby := .alloca ((BoundedList.empty (len % 2 ^ 16)).addAll entries) }
  else .ok asQuery

/-- `query_obj2as_query` up to its return. -/
def fillQuery (varName : RbVal → CStr) (query : Query) : Except Abort AsQuery := do
  let ns ← valueToCstr rt query.namespace_
  let set ← valueToCstr rt query.set
  let asQuery := AsQuery.new ns set
  let asQuery ← select rt asQuery query.bins
  let asQuery ← addFilter rt env asQuery query.filter
  let asQuery ← orderBins rt env asQuery query.order
  let predexp ← queryPredexps rt varName query.predexp
  .ok { asQuery with predexp }

def queryObj2asQuery (varName : RbVal → CStr) (query : Query) : Except Abort AsQuery := do
  let asQuery ← fillQuery rt env varName query
  .ok asQuery.returned

end Query

end AerospikeCRuby
