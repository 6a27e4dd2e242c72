import AerospikeCRuby.Codec.Decode
import AerospikeCRuby.Ruby.Text

/-!
# GeoJson objects

An `AerospikeC::GeoJson` is its json text.  The constructors print a Hash into
it, and each accessor parses the text again.  The gem json is a parameter, as is
what becomes of a value the extension reads as a Hash or an Array which it is not.
-/

namespace AerospikeCRuby

structure Json where
  /-- `to_json` of a Hash. -/
  toJson : RbVal → Except String RbStr
  /-- `JSON.parse`, which makes UTF-8 Strings. -/
  parse : RbStr → Except String RbVal
  /-- What `rb_hash_aref` gives for a value which is no Hash, if the process survives it. -/
  misreadHash : RbVal → Option RbVal
  /-- What `rb_ary_entry` gives for a value which is no Array, if the process survives it. -/
  misreadAry : RbVal → ℕ → Option RbVal
  /-- The method `coordinates` of a value which is no GeoJson. -/
  coordinatesOf : RbVal → Except String RbVal
  /-- The method `[]` of a value which is neither an Array nor an Integer. -/
  elementOf : RbVal → ℕ → Except String RbVal

/-- Equality of a value that `JSON.parse` made with a String of ASCII characters. -/
def RbVal.isStr (value : RbVal) (text : String) : Bool :=
  match value with
  | .string held => held.bytes == ascii text
  | _ => false

namespace Json

variable (json : Json)

/-- `rb_hash_aref` with a String. -/
def hashAref (value : RbVal) (name : String) : Except Abort RbVal :=
  match value with
  | .hash entries =>
      match entries.find? fun entry => entry.1.isStr name with
      | some entry => .ok entry.2
      | none => .ok .nil
  | other => (json.misreadHash other).elim (.error .nullDeref) .ok

def rbAryEntry (value : RbVal) (index : ℕ) : Except Abort RbVal :=
  match value with
  | .array elements => .ok (elements.getD index .nil)
  | other => (json.misreadAry other index).elim (.error .nullDeref) .ok

/-- The method `[]`: an Integer gives one of its bits. -/
def element (value : RbVal) (index : ℕ) : Except Abort RbVal :=
  match value with
  | .array elements => .ok (elements.getD index .nil)
  | .integer number => .ok (.integer (number / 2 ^ index % 2))
  | other => (json.elementOf other index).mapError .raised

end Json

namespace GeoJson

variable (rt : Runtime) (encs : Encodings) (json : Json)

/-- `GeoJson.new`, with `geo_json_initialize`. -/
def new (value : RbVal) : Except Abort CStr := do
  let text ← match value with
    | .hash entries => (json.toJson (.hash entries)).mapError .raised
    | other => rt.toS other
  stringValueCStr text

/-- The method `json`. -/
def text (geo : CStr) : RbStr :=
  rbStrNew2 geo

def coordinates (geo : CStr) : Except Abort RbVal := do
  let hash ← (json.parse (text geo)).mapError .raised
  json.hashAref hash "coordinates"

def type (geo : CStr) : Except Abort RbVal := do
  let hash ← (json.parse (text geo)).mapError .raised
  json.hashAref hash "type"

def isPolygon (geo : CStr) : Except Abort Bool := do
  let type ← type json geo
  .ok (type.isStr "Polygon")

def isPoint (geo : CStr) : Except Abort Bool := do
  let type ← type json geo
  .ok (type.isStr "Point")

def isCircle (geo : CStr) : Except Abort Bool := do
  let type ← type json geo
  .ok (type.isStr "AeroCircle")

instance (left right : RbStr) : Decidable (left.Equal encs right) :=
  inferInstanceAs (Decidable (_ ∧ _))

/-- The method `==`. -/
def compare (geo : CStr) (value : RbVal) : Except Abort Bool :=
  match value with
  | .string other => .ok (decide ((text geo).Equal encs other))
  | .hash entries => do
      let other ← (json.toJson (.hash entries)).mapError .raised
      .ok (decide ((text geo).Equal encs other))
  | .geoJson other => .ok (decide ((text geo).Equal encs (text other)))
  | _ => .ok false

def lng (geo : CStr) : Except Abort RbVal := do
  let point ← isPoint json geo
  if point then do
    let coordinates ← coordinates json geo
    json.element coordinates 0
  else do
    let circle ← isCircle json geo
    if circle then do
      let coordinates ← coordinates json geo
      let center ← json.element coordinates 0
      json.element center 0
    else .error (.raised "NotImplementedError")

def lat (geo : CStr) : Except Abort RbVal := do
  let point ← isPoint json geo
  if point then do
    let coordinates ← coordinates json geo
    json.element coordinates 1
  else do
    let circle ← isCircle json geo
    if circle then do
      let coordinates ← coordinates json geo
      let center ← json.element coordinates 0
      json.element center 1
    else .error (.raised "NotImplementedError")

def radius (geo : CStr) : Except Abort RbVal := do
  let circle ← isCircle json geo
  if circle then do
    let coordinates ← coordinates json geo
    json.element coordinates 1
  else .error (.raised "NotImplementedError")

/-- The macro `geo_json_get_coordinates`, a call of the method `coordinates`. -/
def getCoordinates (point : RbVal) : Except Abort RbVal :=
  match point with
  | .geoJson geo => coordinates json geo
  | other => (json.coordinatesOf other).mapError .raised

/-- The Hash every constructor fills. -/
def hash (type : String) (coordinates : RbVal) : RbVal :=
  .hash (StrHash.entries
    [(cstr (ascii "type"), rbStrLit type), (cstr (ascii "coordinates"), coordinates)])

/-- The point of a GeoJson, as `polygon`, `polygon_obj`, `circle` and `circle_obj` copy it. -/
def pointOf (point : RbVal) : Except Abort RbVal := do
  let coordinates ← getCoordinates json point
  let x ← json.rbAryEntry coordinates 0
  let y ← json.rbAryEntry coordinates 1
  .ok (.array [x, y])

def point (x y : RbVal) : Except Abort CStr :=
  new rt json (hash "Point" (.array [x, y]))

end GeoJson

/-- The Hash of a GeoJson with the Strings `JSON.parse` makes. -/
def GeoJson.parsedHash (type : String) (coordinates : RbVal) : RbVal :=
  .hash [(.string ⟨ascii "type", .utf8⟩, .string ⟨ascii type, .utf8⟩),
    (.string ⟨ascii "coordinates", .utf8⟩, coordinates)]

/-- `JSON.parse` inverts `to_json` on the Hash of this type and these coordinates. -/
def Json.Inverts (json : Json) (type : String) (coordinates : RbVal) : Prop :=
  ∃ printed, json.toJson (GeoJson.hash type coordinates) = .ok printed ∧
    NulFree printed.bytes ∧
    json.parse ⟨printed.bytes, .binary⟩ = .ok (GeoJson.parsedHash type coordinates)

namespace GeoJson

variable {rt : Runtime} {json : Json} {type : String} {coordinates : RbVal}

/-- What a GeoJson made of an invertible Hash answers. -/
structure Shows (json : Json) (type : String) (coordinates : RbVal) (geo : CStr) : Prop where
  type : GeoJson.type json geo = .ok (.string ⟨ascii type, .utf8⟩)
  coordinates : GeoJson.coordinates json geo = .ok coordinates

theorem exists_new (rt : Runtime) (inverts : json.Inverts type coordinates) :
    ∃ geo, new rt json (hash type coordinates) = .ok geo ∧ Shows json type coordinates geo := by
  rcases inverts with ⟨printed, prints, free, parses⟩
  refine ⟨⟨printed.bytes, free⟩, ?_, ?_, ?_⟩
  · have printing : new rt json (hash type coordinates) =
        (json.toJson (hash type coordinates)).mapError .raised >>= stringValueCStr := rfl
    rw [printing, prints]
    exact stringValueCStr_of_nulFree free
  · rw [GeoJson.type, GeoJson.text, rbStrNew2, parses]
    rfl
  · rw [GeoJson.coordinates, GeoJson.text, rbStrNew2, parses]
    rfl

theorem compare_geoJson (encs : Encodings) (json : Json) (geo other : CStr) :
    compare encs json geo (.geoJson other) = .ok (decide (geo = other)) := by
  have equal : (text geo).Equal encs (text other) ↔ geo = other := by
    rcases geo with ⟨bytes, _⟩
    rcases other with ⟨bytes', _⟩
    simp [RbStr.Equal, text, rbStrNew2]
  rw [compare, decide_eq_decide.mpr equal]

theorem Shows.pointOf {geo : CStr} {x y : RbVal} {type : String}
    (shows_ : Shows json type (.array [x, y]) geo) :
    GeoJson.pointOf json (.geoJson geo) = .ok (.array [x, y]) := by
  rw [GeoJson.pointOf, getCoordinates, shows_.coordinates]
  rfl

end GeoJson

mutual

/-- The json text of Integers, of Strings without quotes, and of Arrays and Hashes of these. -/
def printJson : RbVal → Bytes
  | .integer number => ascii (toString number)
  | .string text => 34 :: text.bytes ++ [34]
  | .array elements => 91 :: printElements elements ++ [93]
  | .hash entries => 123 :: printEntries entries ++ [125]
  | _ => ascii "null"

def printElements : List RbVal → Bytes
  | [] => []
  | element :: rest =>
      printJson element ++ (if rest.isEmpty then [] else [44]) ++ printElements rest

def printEntries : List (RbVal × RbVal) → Bytes
  | [] => []
  | (key, val) :: rest =>
      printJson key ++ 58 :: printJson val ++ (if rest.isEmpty then [] else [44]) ++
        printEntries rest

end

/-- A gem which parses the texts of the values it knows. -/
def Json.sample (known : List RbVal) : Json where
  toJson := fun value => .ok ⟨printJson value, .utf8⟩
  parse := fun text =>
    match known.find? fun value => printJson value == text.bytes with
    | some value => .ok value
    | none => .error "JSON::ParserError"
  misreadHash := fun _ => none
  misreadAry := fun _ _ => none
  coordinatesOf := fun _ => .error "NoMethodError"
  elementOf := fun _ _ => .error "NoMethodError"

end AerospikeCRuby
