import AerospikeCRuby.Aerospike.Value

/-!
# The interpreter and the C client

What the extension calls and the repository does not contain: conversions made
by Ruby methods, `Marshal`, and the place a new key takes in the iteration
order of an `as_hashmap`.  Every function of the codec takes them as one
parameter.  A group of results which relies on their documented behaviour says
so by a hypothesis of its own.
-/

namespace AerospikeCRuby

/-- `String#bytes`. -/
def stringBytes (text : Bytes) : List ℤ :=
  text.map fun byte => (byte.toNat : ℤ)

/-- The byte an Integer is cut down to. -/
def byteOfInt (value : ℤ) : UInt8 :=
  UInt8.ofNat (value % 2 ^ 8).toNat

@[simp]
theorem map_byteOfInt_stringBytes (text : Bytes) : (stringBytes text).map byteOfInt = text := by
  rw [stringBytes, List.map_map]
  conv_rhs => rw [← List.map_id text]
  apply List.map_congr_left
  intro byte _
  have bound := byte.toNat_lt
  have small : ((byte.toNat : ℤ) % 2 ^ 8).toNat = byte.toNat := by omega
  simp only [Function.comp, byteOfInt, small, id]
  exact UInt8.ofNat_toNat

/-- `NUM2UINT` of a fixnum, widened.  A negative number is taken from `INT_MIN` on and wraps. -/
def num2uint (value : ℤ) : Except Abort (BitVec 64) :=
  if value < -2 ^ 31 then
    .error (.rangeError "integer too small to convert to unsigned int")
  else if 2 ^ 32 ≤ value then
    .error (.rangeError "integer too big to convert to unsigned int")
  else
    .ok ((BitVec.ofInt 32 value).setWidth 64)

/-- The integral part of a double, unless it is infinite or not a number. -/
def floatTruncate (bits : UInt64) : Option ℤ :=
  let exponent := bits.toNat / 2 ^ 52 % 2 ^ 11
  let fraction := bits.toNat % 2 ^ 52
  if exponent = 2 ^ 11 - 1 then
    none
  else
    let mantissa := if exponent = 0 then fraction else 2 ^ 52 + fraction
    let magnitude : ℕ :=
      if 1075 ≤ exponent then mantissa * 2 ^ (exponent - 1075)
      else mantissa / 2 ^ (1075 - exponent)
    some (if bits.toNat < 2 ^ 63 then magnitude else -magnitude)

/-- A Ruby method answers, or raises an exception of a class given by its name. -/
structure Runtime where
  /-- `to_s` of a Float, a container or an object. -/
  objectToS : RbVal → Except String RbStr
  /-- `to_str` of an object, which most objects do not have. -/
  objectToStr : RbVal → Except String RbStr
  /-- `to_int` of an object, which most objects do not have. -/
  objectToInt : RbVal → Except String ℤ
  /-- `Marshal.dump`. -/
  marshalDump : RbVal → Except String Bytes
  /-- `Marshal.load`. -/
  marshalLoad : Bytes → Except String RbVal
  /-- Where a new key is inserted, from the number of buckets and the keys held. -/
  slot : ℕ → List AsVal → AsVal → ℕ
  /-- `AerospikeC.encoding`. -/
  encoding : Option Encoding

namespace Runtime

def toS (rt : Runtime) : RbVal → Except Abort RbStr
  | .nil => .ok ⟨[], .utf8⟩
  | .bool value => .ok ⟨ascii (toString value), .utf8⟩
  | .integer value => .ok ⟨ascii (toString value), .utf8⟩
  | .string text => .ok text
  | .symbol name => .ok name
  | value => (rt.objectToS value).mapError .raised

/-- The macro `StringValue`, the implicit conversion to a String. -/
def stringValue (rt : Runtime) : RbVal → Except Abort RbStr
  | .string text => .ok text
  | .nil => .error (.typeError "no implicit conversion of nil into String")
  | .bool true => .error (.typeError "no implicit conversion of true into String")
  | .bool false => .error (.typeError "no implicit conversion of false into String")
  | .integer _ => .error (.typeError "no implicit conversion of Integer into String")
  | .float _ => .error (.typeError "no implicit conversion of Float into String")
  | .symbol _ => .error (.typeError "no implicit conversion of Symbol into String")
  | .array _ => .error (.typeError "no implicit conversion of Array into String")
  | .hash _ => .error (.typeError "no implicit conversion of Hash into String")
  | value => (rt.objectToStr value).mapError .raised

/-- The Integer that the conversions to a C integer make of a value, before its range is looked
at. -/
def toInteger (rt : Runtime) : RbVal → Except Abort ℤ
  | .integer value => .ok value
  | .float bits =>
      match floatTruncate bits with
      | some value => .ok value
      | none => .error (.rangeError "float out of range of integer")
  | .nil => .error (.typeError "no implicit conversion from nil to integer")
  | .bool true => .error (.typeError "no implicit conversion of true into Integer")
  | .bool false => .error (.typeError "no implicit conversion of false into Integer")
  | .string _ => .error (.typeError "no implicit conversion of String into Integer")
  | .symbol _ => .error (.typeError "no implicit conversion of Symbol into Integer")
  | .array _ => .error (.typeError "no implicit conversion of Array into Integer")
  | .hash _ => .error (.typeError "no implicit conversion of Hash into Integer")
  | value => (rt.objectToInt value).mapError .raised

/-- The exception for an Integer outside the range; a Float has its own message. -/
def outOfRange (value : RbVal) (target : String) : Abort :=
  match value with
  | .float _ => .rangeError "float out of range of integer"
  | _ => .rangeError ("bignum too big to convert into " ++ target)

def num2ulong (rt : Runtime) (value : RbVal) : Except Abort (BitVec 64) := do
  let number ← rt.toInteger value
  if -2 ^ 63 ≤ number ∧ number < 2 ^ 64 then .ok (BitVec.ofInt 64 number)
  else .error (outOfRange value "unsigned long")

def num2long (rt : Runtime) (value : RbVal) : Except Abort ℤ := do
  let number ← rt.toInteger value
  if -2 ^ 63 ≤ number ∧ number < 2 ^ 63 then .ok number
  else .error (outOfRange value "long")

def dump (rt : Runtime) (obj : RbVal) : Except Abort Bytes :=
  (rt.marshalDump obj).mapError .raised

def load (rt : Runtime) (bytes : Bytes) : Except Abort RbVal :=
  (rt.marshalLoad bytes).mapError .raised

/-- `Marshal.load` gives back a value equal to the one dumped. -/
def LoadsDumped (rt : Runtime) : Prop :=
  ∀ value bytes, rt.dump value = .ok bytes → rt.load bytes = .ok value

theorem num2ulong_integer (rt : Runtime) (value : ℤ) :
    rt.num2ulong (.integer value) =
      if -2 ^ 63 ≤ value ∧ value < 2 ^ 64 then .ok (BitVec.ofInt 64 value)
      else .error (.rangeError "bignum too big to convert into unsigned long") := rfl

theorem num2long_integer (rt : Runtime) (value : ℤ) :
    rt.num2long (.integer value) =
      if -2 ^ 63 ≤ value ∧ value < 2 ^ 63 then .ok value
      else .error (.rangeError "bignum too big to convert into long") := rfl

@[simp]
theorem toS_string (rt : Runtime) (text : RbStr) : rt.toS (.string text) = .ok text := rfl

@[simp]
theorem toS_symbol (rt : Runtime) (name : RbStr) : rt.toS (.symbol name) = .ok name := rfl

/-- An interpreter which knows the dumps of `true` and `false`, over maps which iterate in
insertion order. -/
def sample : Runtime where
  objectToS := fun _ => .error "NotImplementedError"
  objectToStr := fun _ => .error "TypeError"
  objectToInt := fun _ => .error "TypeError"
  marshalDump
    | .bool true => .ok [4, 8, 84]
    | .bool false => .ok [4, 8, 70]
    | _ => .error "TypeError"
  marshalLoad
    | [4, 8, 84] => .ok (.bool true)
    | [4, 8, 70] => .ok (.bool false)
    | _ => .error "TypeError"
  slot := fun _ keys _ => keys.length
  encoding := none

theorem sample_loadsDumped : sample.LoadsDumped := by
  intro value bytes dumped
  cases value with
  | bool value =>
      cases value <;> (cases dumped; rfl)
  | _ => simp [dump, sample, Except.mapError] at dumped

end Runtime

end AerospikeCRuby
