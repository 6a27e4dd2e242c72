import AerospikeCRuby.Codec.Denotation
import AerospikeCRuby.Codec.Survival
import AerospikeCRuby.Operations.Translate

/-!
# The values of operations

The C value a `write` is to put into its bin, the one a list operation is to
hand on, and the text of an `append` or a bin name, each in terms of the Ruby
value alone; and which values the translation takes.
-/

namespace AerospikeCRuby

variable (rt : Runtime)

def IsInteger (value : RbVal) : Prop :=
  ∃ number, value = .integer number ∧ IsFixnum number

/-- What a `write` puts into the bin: an Integer as its word, anything else as its text. -/
inductive Written : RbVal → AsVal → Prop where
  | integer {number : ℤ} {word : BitVec 64} : IsFixnum number → word.toInt = number →
      Written (.integer number) (.integer word)
  | text {value : RbVal} {text : RbStr} : ¬IsInteger value → rt.toS value = .ok text →
      text.Whole → Written value (.string text.bytes)

/-- What a list operation hands on: NULL for nil. -/
inductive Passes : RbVal → AsVal → Prop where
  | nil : Passes .nil .null
  | value {value : RbVal} {operand : AsVal} : Denotes rt value operand → Passes value operand

/-- The C string is the text of the value, which is a String or converts to one. -/
def TextIs (value : RbVal) (str : CStr) : Prop :=
  ∃ text, rt.stringValue value = .ok text ∧ str.bytes = text.bytes

def IsCText (value : RbVal) : Prop :=
  ∃ text, rt.stringValue value = .ok text ∧ text.Readable

def IsWritable (value : RbVal) : Prop :=
  IsInteger value ∨ ∃ text, rt.toS value = .ok text ∧ text.Readable

def IsListValue : RbVal → Prop
  | .nil | .float _ => True
  | .integer number => IsFixnum number
  | .string text => text.Readable
  | .array elements => Convertible rt (.array elements)
  | .hash entries => Convertible rt (.hash entries)
  | _ => False

/-- The value is of a type which an operation takes. -/
def ValueTaken (value : RbVal) : OperationType → Prop
  | .append | .prepend => IsCText rt value
  | .write => IsWritable rt value
  | .listAppend | .listSet => IsListValue rt value
  | _ => True

/-- No text of the value is cut. -/
def ValueWhole (value : RbVal) : OperationType → Prop
  | .append | .prepend => ∀ text, rt.stringValue value = .ok text → text.Whole
  | .write => IsInteger value ∨ ∀ text, rt.toS value = .ok text → text.Whole
  | .listAppend | .listSet => Whole rt value
  | _ => True

variable {rt} {value : RbVal} {operand : AsVal}

theorem valueToCstr_eq_ok {name : CStr} :
    valueToCstr rt value = .ok name ↔
      ∃ text, rt.stringValue value = .ok text ∧ text.Readable ∧ cstr text.bytes = name := by
  simp only [valueToCstr, ExceptLoop.bind_eq_ok, stringValueCStr_eq_ok_iff]

theorem valueToCstr_isOk_iff : (∃ name, valueToCstr rt value = .ok name) ↔ IsCText rt value := by
  simp only [valueToCstr_eq_ok]
  constructor
  · rintro ⟨_, text, converted, readable, _⟩
    exact ⟨text, converted, readable⟩
  · rintro ⟨text, converted, readable⟩
    exact ⟨_, text, converted, readable, rfl⟩

theorem valueToCstr_of_whole {text : RbStr} (converted : rt.stringValue value = .ok text)
    (whole : text.Whole) : valueToCstr rt value = .ok ⟨text.bytes, whole⟩ := by
  refine valueToCstr_eq_ok.mpr ⟨text, converted, RbStr.readable_of_nulFree whole, ?_⟩
  exact cstr_of_nulFree whole

theorem TextIs.whole {str : CStr} (spelled : TextIs rt value str) :
    ∃ text, rt.stringValue value = .ok text ∧ text.Whole := by
  rcases spelled with ⟨text, converted, same⟩
  refine ⟨text, converted, ?_⟩
  rw [RbStr.Whole, ← same]
  exact str.nulFree

theorem TextIs.converted {str : CStr} (spelled : TextIs rt value str) :
    valueToCstr rt value = .ok str := by
  rcases spelled with ⟨text, converted, same⟩
  have whole : text.Whole := by
    rw [RbStr.Whole, ← same]
    exact str.nulFree
  rw [valueToCstr_of_whole converted whole, ← cstr_of_nulFree whole, ← same, cstr_bytes]

/-- Anything but a fixnum is written by its text. -/
theorem writeOperand_of_not_integer (other : ¬IsInteger value) :
    writeOperand rt value = (do
      let tmp ← rt.toS value
      let str ← stringValueCStr tmp
      .ok (.string str.bytes)) := by
  cases value with
  | integer number =>
      have big : ¬IsFixnum number := fun fixnum => other ⟨number, rfl, fixnum⟩
      rw [writeOperand, if_neg big]
  | _ => rfl

theorem writeOperand_of_fixnum {number : ℤ} (fixnum : IsFixnum number) :
    writeOperand rt (.integer number) = .ok (.integer (fix2long number)) := by
  rw [writeOperand, if_pos fixnum]

theorem writeOperand_isOk_iff :
    (∃ operand, writeOperand rt value = .ok operand) ↔ IsWritable rt value := by
  by_cases integer : IsInteger value
  · rcases integer with ⟨number, rfl, fixnum⟩
    exact iff_of_true ⟨_, writeOperand_of_fixnum fixnum⟩ (Or.inl ⟨number, rfl, fixnum⟩)
  · simp only [writeOperand_of_not_integer integer, ExceptLoop.bind_eq_ok, IsWritable, integer,
      false_or, stringValueCStr_eq_ok_iff]
    constructor
    · rintro ⟨_, text, called, _, ⟨readable, _⟩, _⟩
      exact ⟨text, called, readable⟩
    · rintro ⟨text, called, readable⟩
      exact ⟨_, text, called, _, ⟨readable, rfl⟩, rfl⟩

/-- What is written of an accepted value no text of which is cut. -/
theorem exists_written (taken : IsWritable rt value) (whole : ValueWhole rt value .write) :
    ∃ operand, Written rt value operand ∧ writeOperand rt value = .ok operand := by
  by_cases integer : IsInteger value
  · rcases integer with ⟨number, rfl, fixnum⟩
    exact ⟨_, .integer fixnum (toInt_fix2long fixnum), writeOperand_of_fixnum fixnum⟩
  · rcases taken.resolve_left integer with ⟨text, called, _⟩
    have free := whole.resolve_left integer text called
    refine ⟨_, .text integer called free, ?_⟩
    rw [writeOperand_of_not_integer integer, called]
    simp only [bind, Except.bind, stringValueCStr_of_nulFree free]

theorem Written.whole (written : Written rt value operand) : ValueWhole rt value .write := by
  cases written with
  | integer fixnum _ => exact Or.inl ⟨_, rfl, fixnum⟩
  | text _ called free =>
      right
      intro text called'
      rw [called] at called'
      cases called'
      exact free

/-- Of a value other than nil a list operation takes what an Array may hold. -/
theorem rbVal2asVal_eq_ok (noNil : value ≠ .nil) :
    rbVal2asVal rt value = .ok operand ↔
      IsListValue rt value ∧ array2asListElement rt value = .ok operand := by
  have nested (converts : array2asListElement rt value = .ok operand) : Convertible rt value :=
    convertible_iff.mp ⟨operand, converts⟩
  cases value with
  | nil => exact absurd rfl noNil
  | integer number =>
      by_cases fixnum : IsFixnum number
      · simp only [rbVal2asVal, array2asListElement, IsListValue, if_pos fixnum]
        exact (and_iff_right fixnum).symm
      · simp only [rbVal2asVal, array2asListElement, IsListValue, if_neg fixnum]
        exact iff_of_false (by simp) fun both => fixnum both.1
  | float bits => exact (and_iff_right trivial).symm
  | string text => exact (and_iff_right_of_imp nested).symm
  | array elements =>
      rw [rbVal2asVal, array2asList_eq]
      exact (and_iff_right_of_imp nested).symm
  | hash entries =>
      rw [rbVal2asVal, hash2asHashmap_eq]
      exact (and_iff_right_of_imp nested).symm
  | _ => simp [rbVal2asVal, IsListValue]

theorem convertible_of_isListValue (noNil : value ≠ .nil) (taken : IsListValue rt value) :
    Convertible rt value := by
  cases value with
  | nil => exact absurd rfl noNil
  | integer | float | string | array | hash => exact taken
  | _ => exact taken.elim

theorem rbVal2asVal_isOk_iff :
    (∃ operand, rbVal2asVal rt value = .ok operand) ↔ IsListValue rt value := by
  by_cases isNil : value = .nil
  · subst isNil
    exact iff_of_true ⟨_, rfl⟩ trivial
  · simp only [rbVal2asVal_eq_ok isNil]
    constructor
    · rintro ⟨_, taken, _⟩
      exact taken
    · intro taken
      rcases convertible_iff.mpr (convertible_of_isListValue isNil taken) with ⟨operand, converts⟩
      exact ⟨operand, taken, converts⟩

theorem exists_passes (taken : IsListValue rt value) (whole : Whole rt value) :
    ∃ operand, Passes rt value operand ∧ rbVal2asVal rt value = .ok operand := by
  by_cases isNil : value = .nil
  · subst isNil
    exact ⟨.null, .nil, rfl⟩
  · rcases rbVal2asVal_isOk_iff.mpr taken with ⟨operand, converts⟩
    have encoded := ((rbVal2asVal_eq_ok isNil).mp converts).2
    exact ⟨operand, .value (denotes_of_whole whole encoded), converts⟩

theorem Passes.whole (passes : Passes rt value operand) : Whole rt value := by
  cases passes with
  | nil => trivial
  | value denotes => exact whole_of_denotes denotes

end AerospikeCRuby
