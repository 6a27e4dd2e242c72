import AerospikeCRuby.Codec.Decode
import AerospikeCRuby.Ruby.Hash

/-!
# Keys

A Key object wraps an `as_key` and keeps the user key it was made from.  The
`as_key` holds a fixnum as an integer and every other user key as the text of
its `to_s`.  The batch methods of the client make the `as_key` anew from the
object, and their callbacks make the object anew from the `as_key`.

Two Key objects are the same key of a Ruby Hash when their digests are equal.
The digest is computed by the C client from the set and the user key.
-/

namespace AerospikeCRuby

/-- The `valuep` of an `as_key`. -/
inductive KeyValue where
  | integer (value : BitVec 64)
  | string (text : CStr)
deriving DecidableEq

/-- An `as_key`. -/
structure AsKey where
  ns : CStr
  set : CStr
  value : KeyValue
deriving DecidableEq

/-- An `AerospikeC::Key`, with its instance variable `@key`. -/
structure Key where
  asKey : AsKey
  key : RbVal

def argToCstr (rt : Runtime) : RbVal → Except Abort CStr
  | .nil => .error (.optionError "[AerospikeC::Key][initialize] argument cannot be nil")
  | .string text => stringValueCStr text
  | key => do
      let tmp ← rt.toS key
      stringValueCStr tmp

/-- `StringValueCStr` of any value. -/
def valueToCstr (rt : Runtime) (value : RbVal) : Except Abort CStr := do
  let text ← rt.stringValue value
  stringValueCStr text

/-- The branch on `TYPE(key) != T_FIXNUM` before `as_key_init` or `as_key_init_int64`. -/
def keyValue (toCstr : RbVal → Except Abort CStr) (key : RbVal) : Except Abort KeyValue :=
  match key with
  | .integer value =>
      if IsFixnum value then .ok (.integer (fix2long value))
      else do
        let text ← toCstr key
        .ok (.string text)
  | _ => do
      let text ← toCstr key
      .ok (.string text)

def keyInitialize (rt : Runtime) (asNamespace set key : RbVal) : Except Abort Key :=
  if asNamespace.isNil then
    .error (.optionError "[AerospikeC::Key][initialize] namespace cannot be nil")
  else if set.isNil then
    .error (.optionError "[AerospikeC::Key][initialize] set cannot be nil")
  else if key.isNil then
    .error (.optionError "[AerospikeC::Key][initialize] key cannot be nil")
  else do
    let ns ← argToCstr rt asNamespace
    let set ← argToCstr rt set
    let value ← keyValue (argToCstr rt) key
    .ok { asKey := { ns, set, value }, key }

/-- The `as_key` which `batch_get`, `batch_exists` and `batch_read` make of a Key object. -/
def batchKey (rt : Runtime) (element : Key) : Except Abort AsKey := do
  let ns ← stringValueCStr (rbStrNew2 element.asKey.ns)
  let set ← stringValueCStr (rbStrNew2 element.asKey.set)
  let value ← keyValue (valueToCstr rt) element.key
  .ok { ns, set, value }

/-- `as_val_int_2_val` or `as_val_str_2_val`, by the type of the user key. -/
def keyValue2rbVal (rt : Runtime) : KeyValue → RbVal
  | .integer value => long2fix value
  | .string text => .string (checkAndForceEncoding rt (rbStrNew2 text))

/-- The Key object which the callbacks make of a result. -/
def callbackKey (rt : Runtime) (asKey : AsKey) : Except Abort Key :=
  keyInitialize rt (.string (rbStrNew2 asKey.ns)) (.string (rbStrNew2 asKey.set))
    (keyValue2rbVal rt asKey.value)

/-- The object was made by `Key.new`. -/
def Key.Made (rt : Runtime) (key : Key) : Prop :=
  ∃ asNamespace set, keyInitialize rt asNamespace set key.key = .ok key

def StringOrFixnum : RbVal → Prop
  | .string _ => True
  | .integer value => IsFixnum value
  | _ => False

section Conversions

variable {rt : Runtime}

@[simp]
theorem checkAndForceEncoding_bytes (str : RbStr) :
    (checkAndForceEncoding rt str).bytes = str.bytes := by
  unfold checkAndForceEncoding
  cases rt.encoding <;> rfl

theorem argToCstr_rbStrNew2 (text : CStr) :
    argToCstr rt (.string (rbStrNew2 text)) = .ok text :=
  stringValueCStr_rbStrNew2 text

theorem keyValue_fixnum {toCstr : RbVal → Except Abort CStr} {value : ℤ}
    (fixnum : IsFixnum value) :
    keyValue toCstr (.integer value) = .ok (.integer (fix2long value)) := by
  simp only [keyValue, if_pos fixnum]

theorem keyValue_of_not_fixnum {toCstr : RbVal → Except Abort CStr} {key : RbVal}
    (other : key.type ≠ .fixnum) :
    keyValue toCstr key = (do
      let text ← toCstr key
      .ok (.string text)) := by
  cases key with
  | integer value =>
      have large : ¬IsFixnum value := by
        intro fixnum
        exact other (by simp only [RbVal.type, if_pos fixnum])
      simp only [keyValue, if_neg large]
  | _ => rfl

theorem type_eq_fixnum {value : RbVal} :
    value.type = .fixnum ↔ ∃ number, value = .integer number ∧ IsFixnum number := by
  constructor
  · intro fixnum
    cases value with
    | integer number =>
        refine ⟨number, rfl, ?_⟩
        by_contra large
        simp only [RbVal.type, if_neg large, reduceCtorEq] at fixnum
    | bool flag => cases flag <;> cases fixnum
    | _ => cases fixnum
  · rintro ⟨number, rfl, fixnum⟩
    simp only [RbVal.type, if_pos fixnum]

theorem argToCstr_of_isNil {value : RbVal} (isNil : value.isNil = true) (text : CStr) :
    argToCstr rt value ≠ .ok text := by
  cases value <;> cases isNil
  intro converted
  cases converted

theorem keyValue_of_isNil {key : RbVal} (isNil : key.isNil = true) (value : KeyValue) :
    keyValue (argToCstr rt) key ≠ .ok value := by
  cases key <;> cases isNil
  intro converted
  cases converted

/-- The tests for nil only choose the message. -/
theorem keyInitialize_eq_ok {asNamespace set key : RbVal} {made : Key} :
    keyInitialize rt asNamespace set key = .ok made ↔
      argToCstr rt asNamespace = .ok made.asKey.ns ∧ argToCstr rt set = .ok made.asKey.set ∧
        keyValue (argToCstr rt) key = .ok made.asKey.value ∧ made.key = key := by
  have converts : (do
      let ns ← argToCstr rt asNamespace
      let set ← argToCstr rt set
      let value ← keyValue (argToCstr rt) key
      .ok ({ asKey := { ns, set, value }, key } : Key)) = .ok made ↔
        argToCstr rt asNamespace = .ok made.asKey.ns ∧ argToCstr rt set = .ok made.asKey.set ∧
          keyValue (argToCstr rt) key = .ok made.asKey.value ∧ made.key = key := by
    rcases made with ⟨⟨ns, set, value⟩, key'⟩
    simp only [ExceptLoop.bind_eq_ok, Except.ok.injEq, Key.mk.injEq, AsKey.mk.injEq]
    constructor
    · rintro ⟨_, first, _, second, _, third, ⟨rfl, rfl, rfl⟩, rfl⟩
      exact ⟨first, second, third, rfl⟩
    · rintro ⟨first, second, third, rfl⟩
      exact ⟨_, first, _, second, _, third, ⟨rfl, rfl, rfl⟩, rfl⟩
  unfold keyInitialize
  split_ifs with noNamespace noSet noKey
  · simp [argToCstr_of_isNil noNamespace]
  · simp [argToCstr_of_isNil noSet]
  · simp [keyValue_of_isNil noKey]
  · exact converts

/-- The user key of an object determines the value in its `as_key`. -/
theorem Key.Made.keyValue {key : Key} (made : key.Made rt) :
    keyValue (argToCstr rt) key.key = .ok key.asKey.value := by
  rcases made with ⟨asNamespace, set, initialized⟩
  exact (keyInitialize_eq_ok.mp initialized).2.2.1

/-- A batch method makes the `as_key` of a String or a fixnum as `Key.new` did. -/
theorem batchKey_of_plain {key : Key} (made : key.Made rt) (plain : StringOrFixnum key.key) :
    batchKey rt key = .ok key.asKey := by
  have value : AerospikeCRuby.keyValue (valueToCstr rt) key.key = .ok key.asKey.value := by
    rw [← made.keyValue]
    cases same : key.key with
    | string text => rfl
    | integer value =>
        rw [same] at plain
        rw [keyValue_fixnum plain, keyValue_fixnum plain]
    | _ =>
        rw [same] at plain
        exact plain.elim
  simp only [batchKey, stringValueCStr_rbStrNew2, value]
  rfl

theorem keyValue_keyValue2rbVal {key : Key} (made : key.Made rt)
    (plain : StringOrFixnum key.key) :
    keyValue (argToCstr rt) (keyValue2rbVal rt key.asKey.value) = .ok key.asKey.value := by
  have converted := made.keyValue
  cases same : key.key with
  | string text =>
      rw [same] at converted
      rcases ExceptLoop.bind_eq_ok.mp converted with ⟨name, _, value⟩
      rw [← Except.ok.inj value]
      have read : stringValueCStr (checkAndForceEncoding rt (rbStrNew2 name)) = .ok name := by
        rw [stringValueCStr_of_nulFree (by simpa [rbStrNew2] using name.nulFree)]
        simp [rbStrNew2]
      simp only [keyValue2rbVal, AerospikeCRuby.keyValue, argToCstr, read]
      rfl
  | integer value =>
      rw [same] at converted plain
      rw [keyValue_fixnum plain, Except.ok.injEq] at converted
      have fixnum : IsFixnum (fix2long value).toInt := by
        rwa [toInt_fix2long plain]
      rw [← converted, keyValue2rbVal, long2fix_of_fixnum fixnum, toInt_fix2long plain,
        keyValue_fixnum plain]
  | _ =>
      rw [same] at plain
      exact plain.elim

/-- A callback makes an object with the same `as_key` again. -/
theorem callbackKey_of_plain {key : Key} (made : key.Made rt) (plain : StringOrFixnum key.key) :
    callbackKey rt key.asKey = .ok ⟨key.asKey, keyValue2rbVal rt key.asKey.value⟩ :=
  keyInitialize_eq_ok.mpr ⟨argToCstr_rbStrNew2 _, argToCstr_rbStrNew2 _,
    keyValue_keyValue2rbVal made plain, rfl⟩

end Conversions

section Samples

def textKey (ns : String) : Key :=
  ⟨⟨cstr (ascii ns), cstr (ascii "s"), .string (cstr (ascii "k"))⟩,
    .string ⟨ascii "k", .utf8⟩⟩

def fixnumKey : Key :=
  ⟨⟨cstr (ascii "a"), cstr (ascii "s"), .integer (fix2long 7)⟩, .integer 7⟩

def symbolKey : Key :=
  ⟨⟨cstr (ascii "a"), cstr (ascii "s"), .string (cstr (ascii "k"))⟩,
    .symbol ⟨ascii "k", .utf8⟩⟩

theorem textKey_made {ns : String} (free : NulFree (ascii ns)) :
    (textKey ns).Made Runtime.sample := by
  refine ⟨.string ⟨ascii ns, .utf8⟩, .string ⟨ascii "s", .utf8⟩, keyInitialize_eq_ok.mpr ?_⟩
  refine ⟨?_, rfl, rfl, rfl⟩
  rw [argToCstr, stringValueCStr_of_nulFree free, textKey, cstr_of_nulFree free]

theorem fixnumKey_made : fixnumKey.Made Runtime.sample :=
  ⟨.string ⟨ascii "a", .utf8⟩, .string ⟨ascii "s", .utf8⟩,
    keyInitialize_eq_ok.mpr ⟨rfl, rfl, rfl, rfl⟩⟩

theorem symbolKey_made : symbolKey.Made Runtime.sample :=
  ⟨.string ⟨ascii "a", .utf8⟩, .string ⟨ascii "s", .utf8⟩,
    keyInitialize_eq_ok.mpr ⟨rfl, rfl, rfl, rfl⟩⟩

end Samples

end AerospikeCRuby
