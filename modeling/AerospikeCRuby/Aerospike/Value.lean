import AerospikeCRuby.Ruby.Value

/-!
# Values of the C client

The `as_val` tree.  A map is the list of its pairs in iteration order; its keys
may be any value, since other clients write maps too.  `null` stands for a NULL
pointer in the place of a value: nothing the server delivers holds one, but
`rb_copy_as_val` returns one.
-/

namespace AerospikeCRuby

/-- The type of a byte blob.  Only the Ruby blobs are told apart by the extension. -/
inductive AsBytesType where
  | ruby
  | other (code : ℕ)
deriving DecidableEq, Repr

/-- An `as_val *`. -/
inductive AsVal where
  | null
  | undef
  | nil
  | boolean (value : Bool)
  | integer (value : BitVec 64)
  | string (buffer : Bytes)
  | list (elements : List AsVal)
  | map (pairs : List (AsVal × AsVal))
  /-- A record in the place of a value; its contents are never read there. -/
  | record
  /-- A pair in the place of a value; its contents are never read there. -/
  | pair
  | bytes (type : AsBytesType) (data : Bytes)
  /-- A double, by its bits. -/
  | double (bits : UInt64)
  | geojson (buffer : Bytes)
deriving Inhabited

namespace AsVal

section Induction

variable {motive : AsVal → Prop} (null : motive .null) (undef : motive .undef)
  (nil : motive .nil) (boolean : ∀ value, motive (.boolean value))
  (integer : ∀ value, motive (.integer value)) (string : ∀ buffer, motive (.string buffer))
  (list : ∀ elements, (∀ element ∈ elements, motive element) → motive (.list elements))
  (map : ∀ pairs, (∀ pair ∈ pairs, motive pair.1 ∧ motive pair.2) → motive (.map pairs))
  (record : motive .record) (pair : motive .pair)
  (bytes : ∀ type data, motive (.bytes type data)) (double : ∀ bits, motive (.double bits))
  (geojson : ∀ buffer, motive (.geojson buffer))

set_option linter.unusedSectionVars false

include null undef nil boolean integer string list map record pair bytes double geojson

mutual

/-- Induction through the elements of a list and the pairs of a map. -/
@[induction_eliminator]
theorem ind : ∀ value, motive value
  | .null => null
  | .undef => undef
  | .nil => nil
  | .boolean value => boolean value
  | .integer value => integer value
  | .string buffer => string buffer
  | .list elements => list elements (indElements elements)
  | .map pairs => map pairs (indPairs pairs)
  | .record => record
  | .pair => pair
  | .bytes type data => bytes type data
  | .double bits => double bits
  | .geojson buffer => geojson buffer

theorem indElements : ∀ elements : List AsVal, ∀ element ∈ elements, motive element
  | [], _, member => nomatch member
  | _ :: _, _, .head _ => ind _
  | _ :: rest, element, .tail _ member => indElements rest element member

theorem indPairs : ∀ pairs : List (AsVal × AsVal), ∀ entry ∈ pairs,
    motive entry.1 ∧ motive entry.2
  | [], _, member => nomatch member
  | (_, _) :: _, _, .head _ => ⟨ind _, ind _⟩
  | _ :: rest, entry, .tail _ member => indPairs rest entry member

end

end Induction

mutual

/-- Structural equality, by which maps compare their keys. -/
def eqv : AsVal → AsVal → Bool
  | .null, .null => true
  | .undef, .undef => true
  | .nil, .nil => true
  | .boolean left, .boolean right => left == right
  | .integer left, .integer right => left == right
  | .string left, .string right => left == right
  | .list left, .list right => eqvElements left right
  | .map left, .map right => eqvPairs left right
  | .record, .record => true
  | .pair, .pair => true
  | .bytes type left, .bytes type' right => type == type' && left == right
  | .double left, .double right => left == right
  | .geojson left, .geojson right => left == right
  | _, _ => false

def eqvElements : List AsVal → List AsVal → Bool
  | [], [] => true
  | left :: lefts, right :: rights => eqv left right && eqvElements lefts rights
  | _, _ => false

def eqvPairs : List (AsVal × AsVal) → List (AsVal × AsVal) → Bool
  | [], [] => true
  | (key, left) :: lefts, (key', right) :: rights =>
      eqv key key' && eqv left right && eqvPairs lefts rights
  | _, _ => false

end

mutual

theorem eqv_iff : ∀ left right : AsVal, eqv left right = true ↔ left = right
  | .list left, right => by
      cases right <;> simp [eqv, eqvElements_iff left]
  | .map left, right => by
      cases right <;> simp [eqv, eqvPairs_iff left]
  | .null, right | .undef, right | .nil, right | .boolean _, right | .integer _, right
  | .string _, right | .record, right | .pair, right | .bytes _ _, right
  | .double _, right | .geojson _, right => by
      cases right <;> simp [eqv]

theorem eqvElements_iff : ∀ left right : List AsVal, eqvElements left right = true ↔ left = right
  | [], right => by cases right <;> simp [eqvElements]
  | left :: lefts, right => by
      cases right <;> simp [eqvElements, eqv_iff left, eqvElements_iff lefts]

theorem eqvPairs_iff : ∀ left right : List (AsVal × AsVal),
    eqvPairs left right = true ↔ left = right
  | [], right => by cases right <;> simp [eqvPairs]
  | (key, left) :: lefts, right => by
      cases right with
      | nil => simp [eqvPairs]
      | cons head tail =>
          rcases head with ⟨key', right⟩
          simp [eqvPairs, eqv_iff key, eqv_iff left, eqvPairs_iff lefts]

end

instance : DecidableEq AsVal := fun left right =>
  decidable_of_iff (eqv left right = true) (eqv_iff left right)

end AsVal

/-- The text of the type of a value, which the decoder returns in place of the values it does
not convert. -/
def asValTypeAsStr : AsVal → String
  | .null | .undef => "AS_UNDEF"
  | .nil => "AS_NIL"
  | .boolean _ => "AS_BOOLEAN"
  | .integer _ => "AS_INTEGER"
  | .string _ => "AS_STRING"
  | .list _ => "AS_LIST"
  | .map _ => "AS_MAP"
  | .record => "AS_REC"
  | .pair => "AS_PAIR"
  | .bytes _ _ => "AS_BYTES"
  | .double _ => "AS_DOUBLE"
  | .geojson _ => "AS_GEOJSON"

/-- `as_string_fromval`: NULL on a value of another type. -/
def asStringFromval : AsVal → Option Bytes
  | .string buffer => some buffer
  | _ => none

end AerospikeCRuby
