import Mathlib

/-!
# Ruby values

The values the extension receives from Ruby and hands back, split by the type
tag the C code switches on.  A String carries its bytes and its encoding.  The
state of an ordinary object, and the contents of every value the extension only
ever refuses, are opaque numbers.

A method of the extension is left early by raising a Ruby exception or, where
it reads through a NULL pointer, with the whole process; `Abort` lists the ways.
-/

namespace AerospikeCRuby

/-- A byte sequence. -/
abbrev Bytes := List UInt8

/-- The bytes of an ASCII literal. -/
def ascii (text : String) : Bytes :=
  text.toList.map fun c => c.toNat.toUInt8

abbrev NulFree (bytes : Bytes) : Prop :=
  (0 : UInt8) ∉ bytes

/-- A C string, without its terminator. -/
structure CStr where
  bytes : Bytes
  nulFree : NulFree bytes
deriving DecidableEq

/-- What a reader of a `char *` sees of a buffer: everything before the first NUL. -/
def cstr (buffer : Bytes) : CStr where
  bytes := buffer.takeWhile (· ≠ 0)
  nulFree := by
    intro member
    simpa using List.mem_takeWhile_imp member

theorem cstr_of_nulFree {buffer : Bytes} (free : NulFree buffer) :
    cstr buffer = ⟨buffer, free⟩ := by
  simp only [cstr, CStr.mk.injEq, List.takeWhile_eq_self_iff]
  intro byte member
  have : byte ≠ 0 := by
    rintro rfl
    exact free member
  simpa using this

instance : Inhabited CStr := ⟨cstr []⟩

@[simp]
theorem cstr_bytes (text : CStr) : cstr text.bytes = text :=
  cstr_of_nulFree text.nulFree

/-- A Ruby encoding, by its name. -/
structure Encoding where
  name : String
deriving DecidableEq, Repr

/-- The encoding of a String made by `rb_str_new2`. -/
def Encoding.binary : Encoding :=
  ⟨"ASCII-8BIT"⟩

def Encoding.utf8 : Encoding :=
  ⟨"UTF-8"⟩

/-- `rb_enc_mbminlen`: the length of the shortest character. -/
def Encoding.mbminlen (encoding : Encoding) : ℕ :=
  if encoding.name ∈ ["UTF-16LE", "UTF-16BE", "UTF-16"] then 2
  else if encoding.name ∈ ["UTF-32LE", "UTF-32BE", "UTF-32"] then 4
  else 1

structure RbStr where
  bytes : Bytes
  encoding : Encoding
deriving DecidableEq, Repr

/-- `str_null_char`: a character of the String is NUL.  No character of a wide encoding that has
more than `mbminlen` bytes holds a NUL further on. -/
def RbStr.nullChar (text : RbStr) : Bool :=
  (List.range (text.bytes.length / text.encoding.mbminlen)).any fun i =>
    ((text.bytes.drop (i * text.encoding.mbminlen)).take text.encoding.mbminlen).all (· = 0)

/-- The types which the extension meets only to refuse them. -/
inductive OtherType where
  | class_
  | module_
  | regexp
  | struct
  | complex
  | rational
  | file
  /-- A type `rb_val_type_as_str` has no case for; the text it then returns is arbitrary. -/
  | unlisted (text : String)
deriving DecidableEq, Repr

/-- A Ruby value. -/
inductive RbVal where
  | nil
  | bool (value : Bool)
  /-- An Integer, whether the interpreter holds it as a fixnum or as a bignum. -/
  | integer (value : ℤ)
  /-- A Float, by the bits of its double. -/
  | float (bits : UInt64)
  | string (text : RbStr)
  | symbol (name : RbStr)
  | array (elements : List RbVal)
  | hash (entries : List (RbVal × RbVal))
  | object (state : ℕ)
  /-- An `AerospikeC::GeoJson`, by its json text. -/
  | geoJson (json : CStr)
  /-- Any other object wrapping a C struct. -/
  | data (handle : ℕ)
  | other (type : OtherType) (handle : ℕ)
deriving Inhabited

/-- The type tags of `TYPE`. -/
inductive RbType where
  | nil
  | object
  | float
  | string
  | array
  | hash
  | bignum
  | fixnum
  | true_
  | false_
  | data
  | symbol
  | other (type : OtherType)
deriving DecidableEq, Repr

/-- The Integers a tagged word can hold. -/
abbrev IsFixnum (value : ℤ) : Prop :=
  -2 ^ 62 ≤ value ∧ value < 2 ^ 62

namespace RbVal

section Induction

variable {motive : RbVal → Prop} (nil : motive .nil) (bool : ∀ value, motive (.bool value))
  (integer : ∀ value, motive (.integer value)) (float : ∀ bits, motive (.float bits))
  (string : ∀ text, motive (.string text)) (symbol : ∀ name, motive (.symbol name))
  (array : ∀ elements, (∀ element ∈ elements, motive element) → motive (.array elements))
  (hash : ∀ entries, (∀ entry ∈ entries, motive entry.1 ∧ motive entry.2) →
    motive (.hash entries))
  (object : ∀ state, motive (.object state)) (geoJson : ∀ json, motive (.geoJson json))
  (data : ∀ handle, motive (.data handle)) (other : ∀ type handle, motive (.other type handle))

set_option linter.unusedSectionVars false

include nil bool integer float string symbol array hash object geoJson data other

mutual

/-- Induction through the elements of an array and the entries of a hash. -/
@[induction_eliminator]
theorem ind : ∀ value, motive value
  | .nil => nil
  | .bool value => bool value
  | .integer value => integer value
  | .float bits => float bits
  | .string text => string text
  | .symbol name => symbol name
  | .array elements => array elements (indElements elements)
  | .hash entries => hash entries (indEntries entries)
  | .object state => object state
  | .geoJson json => geoJson json
  | .data handle => data handle
  | .other type handle => other type handle

theorem indElements : ∀ elements : List RbVal, ∀ element ∈ elements, motive element
  | [], _, member => nomatch member
  | _ :: _, _, .head _ => ind _
  | _ :: rest, element, .tail _ member => indElements rest element member

theorem indEntries : ∀ entries : List (RbVal × RbVal), ∀ entry ∈ entries,
    motive entry.1 ∧ motive entry.2
  | [], _, member => nomatch member
  | (_, _) :: _, _, .head _ => ⟨ind _, ind _⟩
  | _ :: rest, entry, .tail _ member => indEntries rest entry member

end

end Induction

def type : RbVal → RbType
  | .nil => .nil
  | .bool true => .true_
  | .bool false => .false_
  | .integer value => if IsFixnum value then .fixnum else .bignum
  | .float _ => .float
  | .string _ => .string
  | .symbol _ => .symbol
  | .array _ => .array
  | .hash _ => .hash
  | .object _ => .object
  | .geoJson _ => .data
  | .data _ => .data
  | .other type _ => .other type

end RbVal

/-- The text of a type tag, for error messages. -/
def rbValTypeAsStr : RbType → String
  | .nil => "T_NIL"
  | .object => "T_OBJECT"
  | .float => "T_FLOAT"
  | .string => "T_STRING"
  | .array => "T_ARRAY"
  | .hash => "T_HASH"
  | .bignum => "T_BIGNUM"
  | .fixnum => "T_FIXNUM"
  | .true_ => "T_TRUE"
  | .false_ => "T_FALSE"
  | .data => "T_DATA"
  | .symbol => "T_SYMBOL"
  | .other .class_ => "T_CLASS"
  | .other .module_ => "T_MODULE"
  | .other .regexp => "T_REGEXP"
  | .other .struct => "T_STRUCT"
  | .other .complex => "T_COMPLEX"
  | .other .rational => "T_RATIONAL"
  | .other .file => "T_FILE"
  | .other (.unlisted text) => text

/-- How a method of the extension can be left before its end. -/
inductive Abort where
  | parseError (message : String)
  | optionError (message : String)
  | argumentError (message : String)
  | typeError (message : String)
  | rangeError (message : String)
  | nameError (message : String)
  /-- An exception raised by a Ruby method the extension calls, by its class. -/
  | raised (exception : String)
  /-- A read through a NULL pointer, which ends the process. -/
  | nullDeref
deriving DecidableEq, Repr

/-- `StringValueCStr` of a String.  In a wide encoding a zero byte is no NUL, and C sees the
String end there. -/
def stringValueCStr (text : RbStr) : Except Abort CStr :=
  if text.nullChar then
    if text.encoding.mbminlen = 1 then .error (.argumentError "string contains null byte")
    else .error (.argumentError "string contains null char")
  else .ok (cstr text.bytes)

def rbStrNew2 (text : CStr) : RbStr where
  bytes := text.bytes
  encoding := .binary

/-- The macro `rb_ary_len_int`: `FIX2INT` refuses a length above `INT_MAX`. -/
def rbAryLenInt {α : Type*} (elements : List α) : Except Abort ℕ :=
  if elements.length < 2 ^ 31 then
    .ok elements.length
  else
    .error (.rangeError "integer too big to convert to int")

/-- `FIX2INT` of a fixnum. -/
def fix2int (value : ℤ) : Except Abort ℤ :=
  if -2 ^ 31 ≤ value ∧ value < 2 ^ 31 then
    .ok value
  else
    .error (.rangeError "integer too big to convert to int")

/-- `FIX2LONG` of a fixnum. -/
def fix2long (value : ℤ) : BitVec 64 :=
  BitVec.ofInt 64 value

/-- `LONG2FIX` tags a word without looking at its top bit; the Integer is the tagged word
shifted back. -/
def long2fix (word : BitVec 64) : RbVal :=
  .integer (((word <<< 1) ||| 1#64).sshiftRight 1).toInt

/-- C reads the String without an exception. -/
abbrev RbStr.Readable (text : RbStr) : Prop :=
  text.nullChar = false

theorem Encoding.mbminlen_pos (encoding : Encoding) : 0 < encoding.mbminlen := by
  unfold mbminlen
  split
  · decide
  · split <;> decide

theorem RbStr.readable_of_nulFree {text : RbStr} (free : NulFree text.bytes) : text.Readable := by
  rw [Readable, nullChar, List.any_eq_false]
  intro i inside
  have width := text.encoding.mbminlen_pos
  have fits : (i + 1) * text.encoding.mbminlen ≤ text.bytes.length :=
    (Nat.le_div_iff_mul_le width).mp (List.mem_range.mp inside)
  rw [Nat.add_mul, Nat.one_mul] at fits
  rw [List.all_eq_true]
  intro zeros
  have some_ : (text.bytes.drop (i * text.encoding.mbminlen)).take text.encoding.mbminlen ≠ [] := by
    rw [← List.length_pos_iff, List.length_take, List.length_drop]
    omega
  rcases List.exists_mem_of_ne_nil _ some_ with ⟨byte, member⟩
  have zero := of_decide_eq_true (zeros byte member)
  subst zero
  exact free (List.mem_of_mem_drop (List.mem_of_mem_take member))

/-- Where characters may be single bytes, those that are read hold no zero byte. -/
theorem RbStr.readable_iff_of_narrow {text : RbStr} (narrow : text.encoding.mbminlen = 1) :
    text.Readable ↔ NulFree text.bytes := by
  refine ⟨?_, readable_of_nulFree⟩
  intro readable zero
  rcases List.getElem_of_mem zero with ⟨i, inside, isZero⟩
  rw [Readable, nullChar, narrow, List.any_eq_false] at readable
  apply readable i (by simpa using inside)
  rw [Nat.mul_one, List.drop_eq_getElem_cons inside, isZero]
  rfl

theorem stringValueCStr_eq_ok_iff {text : RbStr} {value : CStr} :
    stringValueCStr text = .ok value ↔ text.Readable ∧ cstr text.bytes = value := by
  unfold stringValueCStr RbStr.Readable
  cases text.nullChar with
  | true =>
      simp only [if_true, Bool.true_eq_false, false_and, iff_false]
      split <;> nofun
  | false => simp

theorem stringValueCStr_of_readable {text : RbStr} (readable : text.Readable) :
    stringValueCStr text = .ok (cstr text.bytes) :=
  stringValueCStr_eq_ok_iff.mpr ⟨readable, rfl⟩

theorem stringValueCStr_isOk_iff {text : RbStr} :
    (∃ value, stringValueCStr text = .ok value) ↔ text.Readable := by
  simp only [stringValueCStr_eq_ok_iff, exists_and_left, exists_eq', and_true]

/-- The two errors which `StringValueCStr` raises for a String. -/
def NullError (failure : Abort) : Prop :=
  failure = .argumentError "string contains null byte" ∨
    failure = .argumentError "string contains null char"

theorem nullError_of_stringValueCStr {text : RbStr} {failure : Abort}
    (raised : stringValueCStr text = .error failure) : NullError failure := by
  unfold stringValueCStr at raised
  split_ifs at raised <;> cases raised
  · exact Or.inl rfl
  · exact Or.inr rfl

theorem stringValueCStr_of_nulFree {text : RbStr} (free : NulFree text.bytes) :
    stringValueCStr text = .ok ⟨text.bytes, free⟩ := by
  rw [stringValueCStr_of_readable (RbStr.readable_of_nulFree free), cstr_of_nulFree free]

@[simp]
theorem stringValueCStr_rbStrNew2 (text : CStr) : stringValueCStr (rbStrNew2 text) = .ok text :=
  stringValueCStr_of_nulFree text.nulFree

theorem rbAryLenInt_eq_ok {α : Type*} {elements : List α} {length : ℕ} :
    rbAryLenInt elements = .ok length ↔ elements.length < 2 ^ 31 ∧ elements.length = length := by
  by_cases short : elements.length < 2 ^ 31
  · rw [rbAryLenInt, if_pos short, Except.ok.injEq]
    exact (and_iff_right short).symm
  · rw [rbAryLenInt, if_neg short]
    exact iff_of_false (by simp) fun both => short both.1

theorem toInt_fix2long {value : ℤ} (fixnum : IsFixnum value) :
    (fix2long value).toInt = value := by
  rw [fix2long, BitVec.toInt_ofInt, Int.bmod_eq_of_le] <;> omega

theorem toInt_tag (word : BitVec 64) :
    (((word <<< 1) ||| 1#64).sshiftRight 1).toInt = (word <<< 1).toInt / 2 := by
  have tagged : (((word <<< 1) ||| 1#64).sshiftRight 1) = (word <<< 1).sshiftRight 1 := by
    rw [BitVec.sshiftRight_or_distrib]
    have : (1#64).sshiftRight 1 = 0#64 := by decide
    rw [this]
    simp
  rw [tagged, BitVec.toInt_sshiftRight, Int.shiftRight_eq_div_pow]
  rfl

/-- Tagging is exact on the fixnum range. -/
theorem long2fix_of_fixnum {word : BitVec 64} (fixnum : IsFixnum word.toInt) :
    long2fix word = .integer word.toInt := by
  have shifted : (word <<< 1).toInt = word.toInt * 2 := by
    rw [BitVec.toInt_shiftLeft, Nat.shiftLeft_eq, Int.bmod_def]
    have signed := BitVec.toInt_eq_toNat_cond word
    split at signed <;> split <;> omega
  rw [long2fix, toInt_tag, shifted]
  simp

end AerospikeCRuby
