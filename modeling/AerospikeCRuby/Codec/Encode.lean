import AerospikeCRuby.Aerospike.Record
import AerospikeCRuby.Library.ExceptLoop
import AerospikeCRuby.Ruby.Runtime

/-!
# From Ruby values to values of the C client

The five encoders of the extension, each with the type switch the source gives
it: list elements, map values, bins, the operands of list operations, and the
operand of a write operation.  The first two call each other.

An `as_stringmap` setter is an `as_hashmap` update under a string key.  A
Marshal dump travels as the array of its bytes, as the source walks it.
-/

namespace AerospikeCRuby

def key2binName (rt : Runtime) : RbVal → Except Abort CStr
  | .nil => .error (.parseError "Record key cannot be nil: nil")
  | .string text => stringValueCStr text
  | key => do
      let tmp ← rt.toS key
      stringValueCStr tmp

def rbObjToAsBytes (rt : Runtime) (obj : RbVal) : Except Abort AsVal := do
  let dumped ← rt.dump obj
  let dumped := stringBytes dumped
  let _ ← rbAryLenInt dumped
  .ok (.bytes .ruby (dumped.map byteOfInt))

/-- `as_stringmap_set_*`, on a map of `buckets` buckets. -/
def asStringmapSet (rt : Runtime) (buckets : ℕ) (map : List (AsVal × AsVal)) (name : CStr)
    (value : AsVal) : List (AsVal × AsVal) :=
  let key := AsVal.string name.bytes
  AssocList.put (rt.slot buckets (AssocList.keys map) key) map key value

mutual

/-- The switch of `array2as_list` on one element: the value it appends. -/
def array2asListElement (rt : Runtime) : RbVal → Except Abort AsVal
  | .nil => .error (.parseError "[array2as_list] Array value cannot be nil")
  | .symbol name => do
      let str ← stringValueCStr name
      .ok (.string str.bytes)
  | .string text => do
      let str ← stringValueCStr text
      .ok (.string str.bytes)
  | .integer value =>
      if IsFixnum value then
        .ok (.integer (fix2long value))
      else
        .error (.parseError
          ("[array2as_list] Unsupported array value type: " ++ rbValTypeAsStr .bignum))
  | .array elements => do
      let _ ← rbAryLenInt elements
      let list ← array2asListFrom rt elements
      .ok (.list list)
  | .hash entries => do
      let map ← hash2asHashmapFrom rt entries.length [] entries
      .ok (.map map)
  | .float bits => .ok (.double bits)
  | .bool value => rbObjToAsBytes rt (.bool value)
  | .object state => rbObjToAsBytes rt (.object state)
  | .geoJson _ =>
      .error (.parseError
        ("[array2as_list] Unsupported array value type: " ++ rbValTypeAsStr .data))
  | .data _ =>
      .error (.parseError
        ("[array2as_list] Unsupported array value type: " ++ rbValTypeAsStr .data))
  | .other type _ =>
      .error (.parseError
        ("[array2as_list] Unsupported array value type: " ++ rbValTypeAsStr (.other type)))

/-- The loop of `array2as_list`. -/
def array2asListFrom (rt : Runtime) : List RbVal → Except Abort (List AsVal)
  | [] => .ok []
  | element :: rest => do
      let value ← array2asListElement rt element
      let values ← array2asListFrom rt rest
      .ok (value :: values)

/-- The switch of `foreach_hash2as_hashmap` on the value of one entry. -/
def foreachHash2asHashmapValue (rt : Runtime) : RbVal → Except Abort AsVal
  | .nil => .error (.parseError "Hash value cannot be nil: nil")
  | .symbol name => do
      let str ← stringValueCStr name
      .ok (.string str.bytes)
  | .integer value =>
      if IsFixnum value then
        .ok (.integer (fix2long value))
      else
        .error (.parseError ("Unsupported record value type: " ++ rbValTypeAsStr .bignum))
  | .string text => do
      let str ← stringValueCStr text
      .ok (.string str.bytes)
  | .array elements => do
      let _ ← rbAryLenInt elements
      let list ← array2asListFrom rt elements
      .ok (.list list)
  | .hash entries => do
      let map ← hash2asHashmapFrom rt entries.length [] entries
      .ok (.map map)
  | .float bits => .ok (.double bits)
  | .bool value => rbObjToAsBytes rt (.bool value)
  | .object state => rbObjToAsBytes rt (.object state)
  | .geoJson _ =>
      .error (.parseError ("Unsupported record value type: " ++ rbValTypeAsStr .data))
  | .data _ =>
      .error (.parseError ("Unsupported record value type: " ++ rbValTypeAsStr .data))
  | .other type _ =>
      .error (.parseError ("Unsupported record value type: " ++ rbValTypeAsStr (.other type)))

/-- The iteration of `hash2as_hashmap`, with `foreach_hash2as_hashmap` on each entry. -/
def hash2asHashmapFrom (rt : Runtime) (buckets : ℕ) (map : List (AsVal × AsVal)) :
    List (RbVal × RbVal) → Except Abort (List (AsVal × AsVal))
  | [] => .ok map
  | (key, val) :: rest => do
      let binName ← key2binName rt key
      let value ← foreachHash2asHashmapValue rt val
      hash2asHashmapFrom rt buckets (asStringmapSet rt buckets map binName value) rest

end

def array2asList (rt : Runtime) (ary : List RbVal) : Except Abort AsVal := do
  let _ ← rbAryLenInt ary
  let list ← array2asListFrom rt ary
  .ok (.list list)

def hash2asHashmap (rt : Runtime) (hash : List (RbVal × RbVal)) : Except Abort AsVal := do
  let map ← hash2asHashmapFrom rt hash.length [] hash
  .ok (.map map)

/-- The switch of `foreach_hash2record`, over what its setter does with a name and a value.  A
wrapped C struct other than a GeoJson sets nothing, and its key is not looked at. -/
def foreachHash2recordWith {α : Type} (rt : Runtime) (unset : α) (set : CStr → AsVal → α)
    (key val : RbVal) : Except Abort α :=
  match val with
  | .nil => do
      let name ← key2binName rt key
      .ok (set name .nil)
  | .symbol text => do
      let name ← key2binName rt key
      let str ← stringValueCStr text
      .ok (set name (.string str.bytes))
  | .integer value =>
      if IsFixnum value then do
        let name ← key2binName rt key
        .ok (set name (.integer (fix2long value)))
      else
        .error (.parseError
          ("[Utils][foreach_hash2record] Unsupported record value type: " ++
            rbValTypeAsStr .bignum))
  | .string text => do
      let name ← key2binName rt key
      let str ← stringValueCStr text
      .ok (set name (.string str.bytes))
  | .array elements => do
      let list ← array2asList rt elements
      let name ← key2binName rt key
      .ok (set name list)
  | .hash entries => do
      let map ← hash2asHashmap rt entries
      let name ← key2binName rt key
      .ok (set name map)
  | .float bits => do
      let name ← key2binName rt key
      .ok (set name (.double bits))
  | .geoJson json => do
      let name ← key2binName rt key
      .ok (set name (.geojson json.bytes))
  | .data _ => .ok unset
  | .bool value => do
      let name ← key2binName rt key
      let bytes ← rbObjToAsBytes rt (.bool value)
      .ok (set name bytes)
  | .object state => do
      let name ← key2binName rt key
      let bytes ← rbObjToAsBytes rt (.object state)
      .ok (set name bytes)
  | .other type _ =>
      .error (.parseError
        ("[Utils][foreach_hash2record] Unsupported record value type: " ++
          rbValTypeAsStr (.other type)))

def foreachHash2record (rt : Runtime) (rec : AsRecord) (key val : RbVal) : Except Abort AsRecord :=
  foreachHash2recordWith rt rec (fun name value => (rec.set name value).2) key val

/-- The bin which the switch sets. -/
def binSetting (rt : Runtime) (key val : RbVal) : Except Abort (Option (CStr × AsVal)) :=
  foreachHash2recordWith rt none (fun name value => some (name, value)) key val

/-- The name and the value under which one entry enters a map. -/
def encodeEntry (rt : Runtime) (entry : RbVal × RbVal) : Except Abort (CStr × AsVal) := do
  let binName ← key2binName rt entry.1
  let value ← foreachHash2asHashmapValue rt entry.2
  .ok (binName, value)

theorem array2asListFrom_eq (rt : Runtime) (elements : List RbVal) :
    array2asListFrom rt elements = ExceptLoop.collect (array2asListElement rt) elements := by
  induction elements with
  | nil => rfl
  | cons element rest ih => simp only [array2asListFrom, ExceptLoop.collect, ih]

theorem hash2asHashmapFrom_eq (rt : Runtime) (buckets : ℕ) (map : List (AsVal × AsVal))
    (entries : List (RbVal × RbVal)) :
    hash2asHashmapFrom rt buckets map entries =
      ExceptLoop.accumulate (encodeEntry rt)
        (fun map entry => asStringmapSet rt buckets map entry.1 entry.2) map entries := by
  induction entries generalizing map with
  | nil => simp only [hash2asHashmapFrom, ExceptLoop.accumulate]
  | cons entry rest ih =>
      simp only [hash2asHashmapFrom, ExceptLoop.accumulate, encodeEntry, bind_assoc, ih]
      rfl

def hash2record (rt : Runtime) (hash : List (RbVal × RbVal)) (rec : AsRecord) :
    Except Abort AsRecord :=
  hash.foldlM (fun rec entry => foreachHash2record rt rec entry.1 entry.2) rec

/-- `rb_val2as_val`, the operand of `list_append` and `list_set`. -/
def rbVal2asVal (rt : Runtime) : RbVal → Except Abort AsVal
  | .nil => .ok .null
  | .integer value =>
      if IsFixnum value then
        .ok (.integer (fix2long value))
      else
        .error (.parseError
          ("[Utils][rb_val2as_val] Unsupported alue type: " ++ rbValTypeAsStr .bignum))
  | .float bits => .ok (.double bits)
  | .string text => do
      let str ← stringValueCStr text
      .ok (.string str.bytes)
  | .array elements => array2asList rt elements
  | .hash entries => hash2asHashmap rt entries
  | value =>
      .error (.parseError
        ("[Utils][rb_val2as_val] Unsupported alue type: " ++ rbValTypeAsStr value.type))

/-- The operand of a write operation in `rb_operations2as_operations`. -/
def writeOperand (rt : Runtime) : RbVal → Except Abort AsVal
  | .integer value =>
      if IsFixnum value then
        .ok (.integer (fix2long value))
      else do
        let tmp ← rt.toS (.integer value)
        let str ← stringValueCStr tmp
        .ok (.string str.bytes)
  | .string text => do
      let str ← stringValueCStr text
      .ok (.string str.bytes)
  | val => do
      let tmp ← rt.toS val
      let str ← stringValueCStr tmp
      .ok (.string str.bytes)

end AerospikeCRuby
