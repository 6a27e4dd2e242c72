import AerospikeCRuby.Operations.Operands
import AerospikeCRuby.Query.Translate

/-!
# What a query asks for and what it gets

Seen from Ruby a query asks for the records of a set which meet the last
condition it was given, and for the bins it lists.  The `as_query` made of it
says the same, unless the C client refuses a name: a condition on a refused name
is no condition, and a list of refused names stands for all bins.
-/

namespace AerospikeCRuby

/-- A condition on a bin. -/
inductive Condition where
  | equalsInteger (value : ℤ)
  | equalsString (text : RbStr)
  | between (min max : ℤ)
  | within (json : CStr)
  | contains (json : CStr)

/-- C sees all of the text of a condition; a geometry is a C string already. -/
def Condition.Whole : Condition → Prop
  | equalsString text => text.Whole
  | _ => True

/-- Which geometries lie in a region and which contain a point, by their json texts. -/
structure Regions where
  Within : Bytes → CStr → Prop
  Contains : Bytes → CStr → Prop

def Condition.Holds (regions : Regions) : Condition → AsVal → Prop
  | equalsInteger value, .integer held => held.toInt = value
  | equalsString text, .string buffer => buffer = text.bytes
  | between min max, .integer held => min ≤ held.toInt ∧ held.toInt ≤ max
  | within json, .geojson buffer => regions.Within buffer json
  | contains json, .geojson buffer => regions.Contains buffer json
  | _, _ => False

/-- Every geometry lies in every region. -/
def Regions.all : Regions where
  Within := fun _ _ => True
  Contains := fun _ _ => True

/-- A range without numbers. -/
def Condition.Void : Condition → Prop
  | between min max => max < min
  | _ => False

theorem Condition.Void.not_holds {condition : Condition} (void : condition.Void)
    {regions : Regions} {value : AsVal} : ¬condition.Holds regions value := by
  cases condition with
  | between min max =>
      cases value with
      | integer held =>
          rintro ⟨low, high⟩
          exact absurd (low.trans high) (not_le.mpr void)
      | _ => exact id
  | _ => exact void.elim

theorem Condition.Void.whole {condition : Condition} (void : condition.Void) :
    condition.Whole := by
  cases condition with
  | between => trivial
  | _ => exact void.elim

/-- What the server makes of a predicate. -/
def AsPredicate.Holds (regions : Regions) : AsPredicate → AsVal → Prop
  | integerEquals value, .integer held => held = value
  | stringEquals value, .string buffer => buffer = value.bytes
  | integerRange min max, .integer held => min.toInt ≤ held.toInt ∧ held.toInt ≤ max.toInt
  | geoWithin json, .geojson buffer => regions.Within buffer json
  | geoContains json, .geojson buffer => regions.Contains buffer json
  | _, _ => False

/-- The number of a fixnum. -/
def fixnumOf : RbVal → Option ℤ
  | .integer value => if IsFixnum value then some value else none
  | _ => none

theorem fixnumOf_eq_some {value : RbVal} {number : ℤ} :
    fixnumOf value = some number ↔ value = .integer number ∧ IsFixnum number := by
  cases value with
  | integer other =>
      simp only [fixnumOf, Option.ite_none_right_eq_some, Option.some.injEq, RbVal.integer.injEq]
      constructor
      · rintro ⟨fixnum, rfl⟩
        exact ⟨rfl, fixnum⟩
      · rintro ⟨rfl, fixnum⟩
        exact ⟨fixnum, rfl⟩
  | _ => simp [fixnumOf]

theorem type_ne_fixnum {value : RbVal} (none_ : fixnumOf value = none) : value.type ≠ .fixnum := by
  intro fixnum
  rcases type_eq_fixnum.mp fixnum with ⟨number, same, small⟩
  rw [fixnumOf_eq_some.mpr ⟨same, small⟩] at none_
  cases none_

/-- What a program asks for. -/
structure Asked where
  ns : RbVal
  set : RbVal
  bins : List RbVal
  condition : Option (RbStr × Condition)
  order : List (RbStr × AsOrder)
  predexp : Option PredNode

namespace Asked

/-- After `Query.new`. -/
def start (query : Query) : Asked where
  ns := query.namespace_
  set := query.set
  bins := query.bins
  condition := none
  order := []
  predexp := none

/-- Ask for a condition in the place of the last one, on a value which names a bin. -/
def require (rt : Runtime) (asked : Asked) (bin : RbVal) (condition : Condition) : Asked :=
  match rt.toS bin with
  | .ok name => { asked with condition := some (name, condition) }
  | .error _ => asked

/-- What a call adds; one that is refused adds nothing. -/
def ask (rt : Runtime) (asked : Asked) : Query.Call → Asked
  | .eql bin (.string text) => asked.require rt bin (.equalsString text)
  | .eql bin value =>
      match fixnumOf value with
      | some number => asked.require rt bin (.equalsInteger number)
      | none => asked
  | .range bin min max =>
      match fixnumOf min, fixnumOf max with
      | some low, some high => asked.require rt bin (.between low high)
      | _, _ => asked
  | .geoWithin bin (.geoJson json) => asked.require rt bin (.within json)
  | .geoWithin _ _ => asked
  | .geoContains bin (.geoJson json) => asked.require rt bin (.contains json)
  | .geoContains _ _ => asked
  | .orderBy bin order =>
      match Query.orderOf order, rt.toS bin with
      | some direction, .ok name => { asked with order := asked.order ++ [(name, direction)] }
      | _, _ => asked
  | .addBin bin => { asked with bins := asked.bins ++ [bin] }
  | .assignNamespace value => { asked with ns := value }
  | .assignSet value => { asked with set := value }
  | .assignBins bins => { asked with bins }
  | .setPredexp predexp => { asked with predexp }

def Admits (regions : Regions) (asked : Asked) (rec : AsRecord) : Prop :=
  ∀ bin condition, asked.condition = some (bin, condition) →
    ∃ name value, name.bytes = bin.bytes ∧ (name, value) ∈ rec.bins ∧
      condition.Holds regions value

/-- A bin of that name is asked for. -/
def Shows (rt : Runtime) (asked : Asked) (name : CStr) : Prop :=
  asked.bins = [] ∨ ∃ bin ∈ asked.bins, TextIs rt bin name

end Asked

namespace AsQuery

/-- The server returns the record. -/
def Admits (regions : Regions) (query : AsQuery) (rec : AsRecord) : Prop :=
  ∀ clause ∈ query.where_.entries, ∃ value, (clause.1, value) ∈ rec.bins ∧
    clause.2.Holds regions value

/-- The server returns a bin of that name; without names it returns all bins. -/
def Shows (query : AsQuery) (name : CStr) : Prop :=
  query.select.entries = [] ∨ name ∈ query.select.entries

/-- The query has these names in its order list, with their directions. -/
def Sorts (query : AsQuery) (order : List (RbStr × AsOrder)) : Prop :=
  ∃ list, (query.orderby = .held list ∨ query.orderby = .alloca list) ∧
    list.entries.map (fun entry => (entry.1.bytes, entry.2)) =
      order.map fun entry => (entry.1.bytes, entry.2.code)

end AsQuery

namespace Query

open Operation (symbolHash entriesOf hashAref_self hashAref_of_ne)

/-- The filter Hash of a condition. -/
inductive FilterOf : List (RbVal × RbVal) → RbStr × Condition → Prop where
  | equalsInteger (name : RbStr) {value : ℤ} (fixnum : IsFixnum value) :
      FilterOf (entriesOf [("filter_type", sym "eql"), ("bin", .string name),
        ("value", .integer value), ("type", sym "numeric")]) (name, .equalsInteger value)
  | equalsString (name text : RbStr) :
      FilterOf (entriesOf [("filter_type", sym "eql"), ("bin", .string name),
        ("value", .string text), ("type", sym "string")]) (name, .equalsString text)
  | between (name : RbStr) {min max : ℤ} (fixnum : IsFixnum min) (fixnum' : IsFixnum max) :
      FilterOf (entriesOf [("filter_type", sym "range"), ("bin", .string name),
        ("min", .integer min), ("max", .integer max)]) (name, .between min max)
  | within (name : RbStr) (json : CStr) :
      FilterOf (entriesOf [("filter_type", sym "geo_within"), ("bin", .string name),
        ("value", .geoJson json)]) (name, .within json)
  | contains (name : RbStr) (json : CStr) :
      FilterOf (entriesOf [("filter_type", sym "geo_contains"), ("bin", .string name),
        ("value", .geoJson json)]) (name, .contains json)

/-- The Hash which `order_by!` pushes. -/
def OrderOf (hash : RbVal) (entry : RbStr × AsOrder) : Prop :=
  hash = symbolHash [("order", .integer entry.2.code), ("bin", .string entry.1)]

/-- The instance variables say what is asked for. -/
structure Represents (query : Query) (asked : Asked) : Prop where
  ns : query.namespace_ = asked.ns
  set : query.set = asked.set
  bins : query.bins = asked.bins
  filter : Option.Rel FilterOf query.filter asked.condition
  order : List.Forall₂ OrderOf query.order asked.order
  predexp : query.predexp = asked.predexp

theorem Represents.exists_filterOf {query : Query} {asked : Asked}
    (represents : query.Represents asked) {condition : RbStr × Condition}
    (last : asked.condition = some condition) : ∃ filter, FilterOf filter condition := by
  have filters := represents.filter
  rw [last] at filters
  generalize query.filter = held at filters
  cases filters with
  | some filters => exact ⟨_, filters⟩

section Calls

variable {rt : Runtime} {env : Unspecified} {query : Query} {asked : Asked}

theorem represents_start {argv : List RbVal} (made : initialize_ rt argv = .ok query) :
    query.Represents (.start query) := by
  simp only [initialize_, ExceptLoop.bind_eq_ok] at made
  rcases made with ⟨_, _, _, _, _, _, _, _, made⟩
  cases made
  exact ⟨rfl, rfl, rfl, .none, .nil, rfl⟩

theorem Represents.after_of_filter (represents : query.Represents asked) {bin : RbVal}
    {call : Call} {condition : Condition} {fields : RbStr → List (RbVal × RbVal)}
    (performed : call.perform rt env query = (do
      let name ← rt.toS bin
      .ok { query with filter := some (fields name) }))
    (filters : ∀ name, FilterOf (fields name) (name, condition)) :
    (query.after rt env call).Represents (asked.require rt bin condition) := by
  rw [after, performed, Asked.require]
  cases rt.toS bin with
  | error raised => exact represents
  | ok name => exact { represents with filter := .some (filters name) }

/-- A call that raises adds nothing. -/
theorem Represents.after_of_error (represents : query.Represents asked) {call : Call}
    {failure : Abort} (raised : call.perform rt env query = .error failure) :
    (query.after rt env call).Represents asked := by
  rw [after, raised]
  exact represents

theorem Represents.eql (represents : query.Represents asked) (bin value : RbVal) :
    (query.after rt env (.eql bin value)).Represents (asked.ask rt (.eql bin value)) := by
  have refused (noString : value.type ≠ .string) (noFixnum : value.type ≠ .fixnum) :
      (query.after rt env (.eql bin value)).Represents asked := by
    have raised : ∃ failure, query.eql rt bin value = .error failure := by
      rw [Query.eql]
      cases rt.toS bin with
      | error failure => exact ⟨failure, rfl⟩
      | ok name =>
          cases tag : value.type with
          | string => exact absurd tag noString
          | fixnum => exact absurd tag noFixnum
          | _ => exact ⟨_, rfl⟩
    rcases raised with ⟨failure, raised⟩
    exact represents.after_of_error raised
  cases value with
  | string text =>
      exact @Represents.after_of_filter rt env query asked represents bin (.eql bin (.string text))
        (.equalsString text)
        (fun name => entriesOf [("filter_type", sym "eql"), ("bin", .string name),
          ("value", .string text), ("type", sym "string")]) rfl
        fun name => .equalsString name text
  | integer value =>
      simp only [Asked.ask]
      cases held : fixnumOf (.integer value) with
      | some number =>
          rcases fixnumOf_eq_some.mp held with ⟨same, fixnum⟩
          cases same
          have performed : query.eql rt bin (.integer value) = (do
              let name ← rt.toS bin
              .ok { query with filter := some (entriesOf [("filter_type", sym "eql"),
                ("bin", .string name), ("value", .integer value), ("type", sym "numeric")]) }) := by
            simp only [Query.eql, RbVal.type, if_pos fixnum]
            rfl
          exact represents.after_of_filter performed fun name => .equalsInteger name fixnum
      | none =>
          refine refused ?_ (type_ne_fixnum held)
          rw [RbVal.type]
          split <;> rintro ⟨⟩
  | bool flag => cases flag <;> exact refused (by rintro ⟨⟩) (by rintro ⟨⟩)
  | _ => exact refused (by rintro ⟨⟩) (by rintro ⟨⟩)

theorem Represents.range (represents : query.Represents asked) (bin min max : RbVal) :
    (query.after rt env (.range bin min max)).Represents (asked.ask rt (.range bin min max)) := by
  have refused (other : min.type ≠ .fixnum ∨ max.type ≠ .fixnum) :
      (query.after rt env (.range bin min max)).Represents asked := by
    have raised : ∃ failure, query.range rt bin min max = .error failure := by
      rw [Query.range]
      split
      case isTrue => exact ⟨_, rfl⟩
      case isFalse minFixnum =>
        rw [if_pos (other.resolve_left minFixnum)]
        exact ⟨_, rfl⟩
    rcases raised with ⟨failure, raised⟩
    exact represents.after_of_error raised
  rw [Asked.ask]
  cases low : fixnumOf min with
  | none => exact refused (.inl (type_ne_fixnum low))
  | some low' =>
      cases high : fixnumOf max with
      | none => exact refused (.inr (type_ne_fixnum high))
      | some high' =>
          rcases fixnumOf_eq_some.mp low with ⟨rfl, small⟩
          rcases fixnumOf_eq_some.mp high with ⟨rfl, small'⟩
          have performed : query.range rt bin (.integer low') (.integer high') = (do
              let name ← rt.toS bin
              .ok { query with filter := some (entriesOf [("filter_type", sym "range"),
                ("bin", .string name), ("min", .integer low'), ("max", .integer high')]) }) := by
            rw [Query.range, if_neg (not_not.mpr (type_eq_fixnum.mpr ⟨low', rfl, small⟩)),
              if_neg (not_not.mpr (type_eq_fixnum.mpr ⟨high', rfl, small'⟩))]
          exact represents.after_of_filter performed fun name => .between name small small'

theorem Represents.orderBy (represents : query.Represents asked) (bin order : RbVal) :
    (query.after rt env (.orderBy bin order)).Represents (asked.ask rt (.orderBy bin order)) := by
  rw [after, Call.perform, Query.orderBy, Asked.ask]
  cases orderOf order with
  | none =>
      cases env.valInspect order <;> exact represents
  | some direction =>
      cases rt.toS bin with
      | error failure => exact represents
      | ok name =>
          have pushed := List.Forall₂.cons
            (show OrderOf _ (name, direction) from rfl) .nil
          exact { represents with order := List.rel_append represents.order pushed }

/-- What one call changes. -/
theorem Represents.after (represents : query.Represents asked) (call : Call) :
    (query.after rt env call).Represents (asked.ask rt call) := by
  cases call with
  | eql bin value => exact represents.eql bin value
  | range bin min max => exact represents.range bin min max
  | geoContains bin geo =>
      cases geo with
      | geoJson json =>
          exact @Represents.after_of_filter rt env query asked represents bin _ (.contains json)
            (fun name => entriesOf [("filter_type", sym "geo_contains"), ("bin", .string name),
              ("value", .geoJson json)]) rfl fun name => .contains name json
      | _ => exact represents
  | geoWithin bin geo =>
      cases geo with
      | geoJson json =>
          exact @Represents.after_of_filter rt env query asked represents bin _ (.within json)
            (fun name => entriesOf [("filter_type", sym "geo_within"), ("bin", .string name),
              ("value", .geoJson json)]) rfl fun name => .within name json
      | _ => exact represents
  | orderBy bin order => exact represents.orderBy bin order
  | addBin bin =>
      have bins : query.bins ++ [bin] = asked.bins ++ [bin] := by
        rw [represents.bins]
      exact { represents with bins }
  | assignNamespace value => exact { represents with ns := rfl }
  | assignSet value => exact { represents with set := rfl }
  | assignBins bins => exact { represents with bins := rfl }
  | setPredexp predexp => exact { represents with predexp := rfl }

/-- What a program of calls changes, whether it rescues their exceptions or they raise none. -/
theorem Represents.afterAll (represents : query.Represents asked) (calls : List Call) :
    (calls.foldl (Query.after rt env) query).Represents (calls.foldl (Asked.ask rt) asked) := by
  induction calls generalizing query asked with
  | nil => exact represents
  | cons call rest ih => exact ih (represents.after call)

end Calls

/-- The predicate which says a condition. -/
def predicateOf : Condition → Except Abort AsPredicate
  | .equalsInteger value => .ok (.integerEquals (AerospikeCRuby.fix2long value))
  | .equalsString text => do
      let value ← stringValueCStr text
      .ok (.stringEquals value)
  | .between min max =>
      .ok (.integerRange (AerospikeCRuby.fix2long min) (AerospikeCRuby.fix2long max))
  | .within json => .ok (.geoWithin json)
  | .contains json => .ok (.geoContains json)

def clauseOf (asked : RbStr × Condition) : Except Abort (CStr × AsPredicate) := do
  let bin ← stringValueCStr asked.1
  let predicate ← predicateOf asked.2
  .ok (bin, predicate)

def entryOf (entry : RbStr × AsOrder) : Except Abort (CStr × ℤ) := do
  let bin ← stringValueCStr entry.1
  .ok (bin, entry.2.code)

/-- The predicate holds where the condition does, if C sees all of its text. -/
theorem FilterOf.holds_iff {filter : List (RbVal × RbVal)} {asked : RbStr × Condition}
    (filters : FilterOf filter asked) (whole : asked.2.Whole) {predicate : AsPredicate}
    (said : predicateOf asked.2 = .ok predicate) (regions : Regions) (value : AsVal) :
    predicate.Holds regions value ↔ asked.2.Holds regions value := by
  cases filters with
  | equalsInteger name fixnum =>
      cases said
      cases value with
      | integer held =>
          have same := toInt_fix2long fixnum
          change held = AerospikeCRuby.fix2long _ ↔ held.toInt = _
          rw [← BitVec.toInt_inj, same]
      | _ => exact Iff.rfl
  | equalsString name text =>
      rcases ExceptLoop.bind_eq_ok.mp said with ⟨cstring, converted, made⟩
      cases made
      cases value with
      | string buffer =>
          change buffer = cstring.bytes ↔ buffer = text.bytes
          rw [stringValueCStr_of_nulFree whole] at converted
          cases converted
          rfl
      | _ => exact Iff.rfl
  | between name fixnum fixnum' =>
      cases said
      cases value with
      | integer held =>
          rw [AsPredicate.Holds, toInt_fix2long fixnum, toInt_fix2long fixnum']
          rfl
      | _ => exact Iff.rfl
  | within name json =>
      cases said
      cases value <;> exact Iff.rfl
  | contains name json =>
      cases said
      cases value <;> exact Iff.rfl

/-- A predicate which is possible holds of a value; the condition does not, unless C sees all of
its text. -/
theorem FilterOf.exists_holds {filter : List (RbVal × RbVal)} {asked : RbStr × Condition}
    (filters : FilterOf filter asked) {predicate : AsPredicate}
    (said : predicateOf asked.2 = .ok predicate) (possible : ¬asked.2.Void) :
    ∃ value, predicate.Holds .all value ∧ (asked.2.Holds .all value → asked.2.Whole) := by
  cases filters with
  | @equalsInteger name value fixnum =>
      cases said
      exact ⟨.integer (AerospikeCRuby.fix2long value), rfl, fun _ => trivial⟩
  | equalsString name text =>
      rcases ExceptLoop.bind_eq_ok.mp said with ⟨cstring, _, made⟩
      cases made
      refine ⟨.string cstring.bytes, rfl, fun same => ?_⟩
      rw [Condition.Whole, RbStr.Whole, ← show cstring.bytes = text.bytes from same]
      exact cstring.nulFree
  | @between name min max fixnum fixnum' =>
      cases said
      refine ⟨.integer (AerospikeCRuby.fix2long min), ⟨le_rfl, ?_⟩, fun _ => trivial⟩
      rw [toInt_fix2long fixnum, toInt_fix2long fixnum']
      exact not_lt.mp possible
  | within name json =>
      cases said
      exact ⟨.geojson [], trivial, fun _ => trivial⟩
  | contains name json =>
      cases said
      exact ⟨.geojson [], trivial, fun _ => trivial⟩

/-- The name is not refused, and C sees all of the condition, or it is a range without numbers. -/
def Kept (asks : RbStr × Condition) : Prop :=
  ShortName (cstr asks.1.bytes) ∧ ((asks.1.Whole ∧ asks.2.Whole) ∨ asks.2.Void)

section Translation

variable {rt : Runtime} {env : Unspecified}

/-- A filter Hash is read as it was written. -/
theorem whereClause_of_filterOf {filter : List (RbVal × RbVal)} {asked : RbStr × Condition}
    (filters : FilterOf filter asked) : whereClause rt env filter = clauseOf asked := by
  have number {value : ℤ} (fixnum : IsFixnum value) :
      env.fix2long (.integer value) = AerospikeCRuby.fix2long value := if_pos fixnum
  have converted (text : RbStr) : valueToCstr rt (.string text) = stringValueCStr text := rfl
  cases filters with
  | equalsInteger name fixnum =>
      simp (disch := decide) only [whereClause, hashAref_self, hashAref_of_ne, sym_isSym, if_pos,
        number fixnum]
      rfl
  | equalsString name text =>
      simp (disch := decide) only [whereClause, hashAref_self, hashAref_of_ne, sym_isSym, if_pos,
        if_neg]
      change _ = (do
        let bin ← stringValueCStr name
        let predicate ← (do
          let value ← stringValueCStr text
          .ok (AsPredicate.stringEquals value))
        .ok (bin, predicate))
      rw [converted name, converted text]
      cases stringValueCStr text <;> rfl
  | between name fixnum fixnum' =>
      simp (disch := decide) only [whereClause, hashAref_self, hashAref_of_ne, sym_isSym, if_pos,
        if_neg, number fixnum, number fixnum']
      rfl
  | within name json =>
      simp (disch := decide) only [whereClause, hashAref_self, hashAref_of_ne, sym_isSym, if_pos,
        if_neg]
      rfl
  | contains name json =>
      simp (disch := decide) only [whereClause, hashAref_self, hashAref_of_ne, sym_isSym, if_pos,
        if_neg]
      rfl

theorem orderEntry_of_orderOf {hash : RbVal} {entry : RbStr × AsOrder}
    (orders : OrderOf hash entry) : orderEntry rt env hash = entryOf entry := by
  rcases entry with ⟨name, direction⟩
  subst orders
  have code : rt.rbFix2int (.integer direction.code) = .ok direction.code := by
    cases direction <;> rfl
  simp (disch := decide) only [orderEntry, rbHashAref, symbolHash, hashAref_self, hashAref_of_ne]
  change (do
    let bin ← stringValueCStr name
    let order ← rt.rbFix2int (.integer direction.code)
    .ok (bin, order)) = _
  rw [code]
  rfl

end Translation

end Query

end AerospikeCRuby
