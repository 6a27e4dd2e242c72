import AerospikeCRuby.Aerospike.Record
import AerospikeCRuby.Library.ExceptLoop
import AerospikeCRuby.Ruby.Runtime

/-!
# From values of the C client to Ruby values

The decoder, with its catch-all branches: a value it does not convert comes
back as a String naming its type.  The Hashes it builds have binary Strings as
keys, read up to the first NUL, and a name read twice keeps its later value.
-/

namespace AerospikeCRuby

/-- A Hash whose keys are all made by `rb_str_new2`, with the keys as C strings. -/
abbrev StrHash := List (CStr × RbVal)

/-- The entries of such a Hash, as Ruby sees them. -/
def StrHash.entries (hash : StrHash) : List (RbVal × RbVal) :=
  hash.map fun entry => (.string (rbStrNew2 entry.1), entry.2)

def checkAndForceEncoding (rt : Runtime) (str : RbStr) : RbStr :=
  match rt.encoding with
  | none => str
  | some encoding => { str with encoding }

def asBytesToRbObj (rt : Runtime) (bytes : Bytes) : Except Abort RbVal :=
  let obj := stringBytes bytes
  rt.load (obj.map byteOfInt)

/-- A String naming a type, or any other constant text. -/
def rbStrLit (text : String) : RbVal :=
  .string (rbStrNew2 (cstr (ascii text)))

/-- The name of a pair of a map: the key is read as a string without a test. -/
def pairName (key : AsVal) : Except Abort CStr :=
  match asStringFromval key with
  | some buffer => .ok (cstr buffer)
  | none => .error .nullDeref

mutual

def asVal2rbVal (rt : Runtime) : AsVal → Except Abort RbVal
  | .null => .error .nullDeref
  | .nil => .ok .nil
  | .integer value => .ok (long2fix value)
  | .string buffer => .ok (.string (checkAndForceEncoding rt (rbStrNew2 (cstr buffer))))
  | .list elements => do
      let ary ← asList2arrayFrom rt elements
      .ok (.array ary)
  | .map pairs => do
      let hash ← asHashmap2hashFrom rt [] pairs
      .ok (.hash (StrHash.entries hash))
  | .double bits => .ok (.float bits)
  | .geojson buffer => .ok (.geoJson (cstr buffer))
  | .undef => .ok (rbStrLit "undef")
  | .bytes .ruby data => asBytesToRbObj rt data
  | .bytes (.other code) data => .ok (rbStrLit (asValTypeAsStr (.bytes (.other code) data)))
  | .boolean value => .ok (rbStrLit (asValTypeAsStr (.boolean value)))
  | .record => .ok (rbStrLit (asValTypeAsStr .record))
  | .pair => .ok (rbStrLit (asValTypeAsStr .pair))

/-- The loop of `as_list2array`. -/
def asList2arrayFrom (rt : Runtime) : List AsVal → Except Abort (List RbVal)
  | [] => .ok []
  | value :: rest => do
      let element ← asVal2rbVal rt value
      let elements ← asList2arrayFrom rt rest
      .ok (element :: elements)

/-- The loop of `as_hashmap2hash`. -/
def asHashmap2hashFrom (rt : Runtime) (hash : StrHash) :
    List (AsVal × AsVal) → Except Abort StrHash
  | [] => .ok hash
  | (key, value) :: rest => do
      let name ← pairName key
      let val ← asVal2rbVal rt value
      asHashmap2hashFrom rt (AssocList.putLast hash name val) rest

end

def asList2array (rt : Runtime) (list : List AsVal) : Except Abort RbVal := do
  let ary ← asList2arrayFrom rt list
  .ok (.array ary)

def asHashmap2hash (rt : Runtime) (map : List (AsVal × AsVal)) : Except Abort RbVal := do
  let hash ← asHashmap2hashFrom rt [] map
  .ok (.hash (StrHash.entries hash))

/-- The loop of `record2hash`. -/
def record2hashFrom (rt : Runtime) (hash : StrHash) : List (CStr × AsVal) → Except Abort StrHash
  | [] => .ok hash
  | (name, value) :: rest => do
      let val ← asVal2rbVal rt value
      record2hashFrom rt (AssocList.putLast hash name val) rest

def record2hash (rt : Runtime) (rec : AsRecord) : Except Abort StrHash :=
  record2hashFrom rt [] rec.bins

/-- The header of a record, as `check_with_header` writes it. -/
def headerEntries (rec : AsRecord) : StrHash :=
  [(cstr (ascii "gen"), .integer rec.gen.toNat), (cstr (ascii "expire_in"), .integer rec.ttl.toNat)]

def headerHash (rec : AsRecord) : RbVal :=
  .hash (headerEntries rec).entries

/-- The header of `check_with_header`, and of `set_query_result_and_destroy`, which repeats it:
a bin named `header` keeps its place unless it is nil. -/
def putHeader (rec : AsRecord) (hash : StrHash) : StrHash :=
  match hash.lookup (cstr (ascii "header")) with
  | none | some .nil => AssocList.putLast hash (cstr (ascii "header")) (headerHash rec)
  | some _ => AssocList.putLast hash (cstr (ascii "record_header")) (headerHash rec)

/-- The name and the value under which one pair enters a Hash. -/
def decodePair (rt : Runtime) (pair : AsVal × AsVal) : Except Abort (CStr × RbVal) := do
  let name ← pairName pair.1
  let val ← asVal2rbVal rt pair.2
  .ok (name, val)

def decodeBin (rt : Runtime) (bin : CStr × AsVal) : Except Abort (CStr × RbVal) := do
  let val ← asVal2rbVal rt bin.2
  .ok (bin.1, val)

theorem asList2arrayFrom_eq (rt : Runtime) (elements : List AsVal) :
    asList2arrayFrom rt elements = ExceptLoop.collect (asVal2rbVal rt) elements := by
  induction elements with
  | nil => simp only [asList2arrayFrom, ExceptLoop.collect]
  | cons element rest ih => simp only [asList2arrayFrom, ExceptLoop.collect, ih]

theorem asHashmap2hashFrom_eq (rt : Runtime) (hash : StrHash) (pairs : List (AsVal × AsVal)) :
    asHashmap2hashFrom rt hash pairs =
      ExceptLoop.accumulate (decodePair rt)
        (fun hash entry => AssocList.putLast hash entry.1 entry.2) hash pairs := by
  induction pairs generalizing hash with
  | nil => simp only [asHashmap2hashFrom, ExceptLoop.accumulate]
  | cons pair rest ih =>
      simp only [asHashmap2hashFrom, ExceptLoop.accumulate, decodePair, bind_assoc, ih]
      rfl

theorem record2hashFrom_eq (rt : Runtime) (hash : StrHash) (bins : List (CStr × AsVal)) :
    record2hashFrom rt hash bins =
      ExceptLoop.accumulate (decodeBin rt)
        (fun hash entry => AssocList.putLast hash entry.1 entry.2) hash bins := by
  induction bins generalizing hash with
  | nil => simp only [record2hashFrom, ExceptLoop.accumulate]
  | cons bin rest ih =>
      simp only [record2hashFrom, ExceptLoop.accumulate, decodeBin, bind_assoc, ih]
      rfl

end AerospikeCRuby
