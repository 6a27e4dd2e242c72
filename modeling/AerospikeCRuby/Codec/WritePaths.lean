import AerospikeCRuby.Codec.Acceptance

/-!
# The write paths compared

A value reaches the store through five encoders.  Those of list elements, map
values and bins agree wherever the switches of the first two accept; the
operand of a list operation is encoded the same way for the types its switch
lists; and a write operation stores every value but an Integer or a String by
its `to_s`.
-/

namespace AerospikeCRuby

variable {rt : Runtime}

/-- The value `put` leaves in a bin of this name. -/
def binValue (rt : Runtime) (name : CStr) (val : RbVal) : Option AsVal := do
  let rec' ← (foreachHash2record rt (AsRecord.init 1) (.string (rbStrNew2 name)) val).toOption
  rec'.bins.lookup name

/-- The types `rb_val2as_val` has a case for. -/
def IsOperand (val : RbVal) : Prop :=
  match val with
  | .integer _ | .float _ | .string _ | .array _ | .hash _ => True
  | _ => False

/-- The types a write operation stores as they are. -/
def IsWritten (val : RbVal) : Prop :=
  match val with
  | .integer value => IsFixnum value
  | .string _ => True
  | _ => False

theorem binValue_eq_some_iff {name : CStr} (short : name.bytes.length ≤ asBinNameMaxLen)
    {val : RbVal} (noData : ∀ handle, val ≠ .data handle) {value : AsVal} :
    binValue rt name val = some value ↔ encodeBin rt val = .ok value := by
  have made (value : AsVal) :
      ((AsRecord.init 1).set name value).2.bins.lookup name = some value := by
    have accepted : (AsRecord.init 1).Accepts name := ⟨short, Or.inr (by simp)⟩
    rw [AsRecord.bins_set_of_accepts accepted, AssocList.putLast, AssocList.lookup_put,
      if_pos rfl]
  simp only [binValue, Option.bind_eq_bind, Option.bind_eq_some_iff, ExceptLoop.toOption_eq_some,
    foreachHash2record, foreachHash2recordWith_eq, ExceptLoop.bind_eq_ok,
    binSetting_eq_some_of_ne_data noData, key2binName_rbStrNew2, Except.ok.injEq,
    exists_eq_left']
  constructor
  · rintro ⟨_, ⟨_, ⟨image, encodes, rfl⟩, rfl⟩, found⟩
    rw [Option.elim_some, made, Option.some.injEq] at found
    rwa [← found]
  · intro encodes
    exact ⟨_, ⟨_, ⟨value, encodes, rfl⟩, rfl⟩, made value⟩

theorem binValue_eq {name : CStr} (short : name.bytes.length ≤ asBinNameMaxLen) {val : RbVal}
    (noNil : val ≠ .nil) (noData : val.type ≠ .data) :
    binValue rt name val = (array2asListElement rt val).toOption := by
  refine Option.ext fun value => ?_
  have noHandle : ∀ handle, val ≠ .data handle := by
    rintro handle rfl
    exact noData rfl
  rw [binValue_eq_some_iff short noHandle, ExceptLoop.toOption_eq_some]
  cases val with
  | nil => exact absurd rfl noNil
  | geoJson => exact absurd rfl noData
  | _ => rfl

theorem rbVal2asVal_toOption_of_isOperand {val : RbVal} (operand : IsOperand val) :
    (rbVal2asVal rt val).toOption = (array2asListElement rt val).toOption := by
  cases val with
  | integer value =>
      simp only [rbVal2asVal, array2asListElement]
      split <;> rfl
  | float | string => rfl
  | array elements => rw [rbVal2asVal, array2asList_eq]
  | hash entries => rw [rbVal2asVal, hash2asHashmap_eq]
  | _ => exact absurd operand (by simp [IsOperand])

theorem rbVal2asVal_toOption_of_not_isOperand {val : RbVal} (noNil : val ≠ .nil)
    (refused : ¬IsOperand val) : (rbVal2asVal rt val).toOption = none := by
  cases val with
  | nil => exact absurd rfl noNil
  | integer | float | string | array | hash => exact absurd trivial refused
  | _ => rfl

theorem writeOperand_toOption_of_isWritten {val : RbVal} (written : IsWritten val) :
    (writeOperand rt val).toOption = (array2asListElement rt val).toOption := by
  cases val with
  | integer value =>
      have fixnum : IsFixnum value := written
      simp only [writeOperand, array2asListElement, if_pos fixnum]
  | string => rfl
  | _ => exact absurd written (by simp [IsWritten])

theorem writeOperand_eq_of_not_isWritten {val : RbVal} (converted : ¬IsWritten val) :
    writeOperand rt val = (do
      let text ← rt.toS val
      let str ← stringValueCStr text
      .ok (.string str.bytes)) := by
  cases val with
  | integer value =>
      have bignum : ¬IsFixnum value := converted
      simp only [writeOperand, if_neg bignum]
  | string => exact absurd trivial converted
  | _ => rfl

/-- An operand appended to a stored list leaves the list that putting the longer Array would. -/
theorem array2asList_append {elements : List RbVal} {stored : List AsVal} {val : RbVal}
    (operand : IsOperand val) (put : array2asList rt elements = .ok (.list stored))
    (short : elements.length + 1 < 2 ^ 31) :
    (array2asList rt (elements ++ [val])).toOption =
      (rbVal2asVal rt val).toOption.map fun value => .list (stored ++ [value]) := by
  rw [array2asList_eq, element_array_eq_ok] at put
  rcases put with ⟨_, values, converted, same⟩
  obtain rfl : stored = values := by simpa using same
  have bounded : (elements ++ [val]).length < 2 ^ 31 := by simpa using short
  rw [rbVal2asVal_toOption_of_isOperand operand, array2asList,
    rbAryLenInt_eq_ok.mpr ⟨bounded, rfl⟩, array2asListFrom_eq, ExceptLoop.collect_append,
    ExceptLoop.collect_eq_ok.mpr converted]
  simp only [ExceptLoop.collect]
  cases array2asListElement rt val <;> rfl

/-- How the five encoders compare on a value other than nil. -/
theorem write_paths_agree {val : RbVal} (noNil : val ≠ .nil) {name : CStr}
    (short : name.bytes.length ≤ asBinNameMaxLen) :
    (foreachHash2asHashmapValue rt val).toOption = (array2asListElement rt val).toOption ∧
    (val.type ≠ .data → binValue rt name val = (array2asListElement rt val).toOption) ∧
    (val.type = .data → (array2asListElement rt val).toOption = none) ∧
    (∀ json, val = .geoJson json → binValue rt name val = some (.geojson json.bytes)) ∧
    (IsOperand val → (rbVal2asVal rt val).toOption = (array2asListElement rt val).toOption) ∧
    (¬IsOperand val → (rbVal2asVal rt val).toOption = none) ∧
    (IsWritten val → (writeOperand rt val).toOption = (array2asListElement rt val).toOption) ∧
    (¬IsWritten val → writeOperand rt val = (do
      let text ← rt.toS val
      let str ← stringValueCStr text
      .ok (.string str.bytes))) ∧
    (∀ elements stored, IsOperand val → array2asList rt elements = .ok (.list stored) →
      elements.length + 1 < 2 ^ 31 →
      (array2asList rt (elements ++ [val])).toOption =
        (rbVal2asVal rt val).toOption.map fun value => .list (stored ++ [value])) := by
  refine ⟨foreachHash2asHashmapValue_toOption val, binValue_eq short noNil, ?_, ?_,
    rbVal2asVal_toOption_of_isOperand, rbVal2asVal_toOption_of_not_isOperand noNil,
    writeOperand_toOption_of_isWritten, writeOperand_eq_of_not_isWritten,
    fun _ _ => array2asList_append⟩
  · intro isData
    cases val with
    | geoJson | data => rfl
    | integer value =>
        simp only [RbVal.type] at isData
        split at isData <;> cases isData
    | bool value => cases value <;> cases isData
    | _ => cases isData
  · rintro json rfl
    exact (binValue_eq_some_iff short (by simp)).mpr rfl

theorem write_paths_agree_fixnum :
    (foreachHash2asHashmapValue Runtime.sample (.integer 3)).toOption =
        (array2asListElement Runtime.sample (.integer 3)).toOption ∧
      (array2asList Runtime.sample [.integer 1, .integer 3]).toOption =
        (rbVal2asVal Runtime.sample (.integer 3)).toOption.map
          fun value => .list ([.integer 1#64] ++ [value]) := by
  have agree := @write_paths_agree Runtime.sample (.integer 3) (by simp)
    (cstr (ascii "bin")) (by decide)
  rcases agree with ⟨entries, _, _, _, _, _, _, _, appended⟩
  exact ⟨entries, appended [.integer 1] [.integer 1#64] trivial rfl (by decide)⟩

/-- A Symbol, which an Array may hold, is refused as the operand of a list operation; `true` is
dumped by `put` and written as its `to_s` by a write operation. -/
theorem write_paths_differ :
    (array2asListElement Runtime.sample (.symbol ⟨ascii "a", .utf8⟩) = .ok (.string (ascii "a")) ∧
      rbVal2asVal Runtime.sample (.symbol ⟨ascii "a", .utf8⟩) =
        .error (.parseError "[Utils][rb_val2as_val] Unsupported alue type: T_SYMBOL")) ∧
    (binValue Runtime.sample (cstr (ascii "bin")) (.bool true) =
        some (.bytes .ruby [4, 8, 84]) ∧
      writeOperand Runtime.sample (.bool true) = .ok (.string (ascii "true"))) := by
  exact ⟨⟨rfl, rfl⟩, ⟨rfl, rfl⟩⟩

end AerospikeCRuby
