import AerospikeCRuby.Codec.Meaning

/-!
# What the encoders accept

Each encoder is described by the inputs on which it succeeds and by its result
there.  The two nested switches agree on every value, so one description serves
both; the loops are those of the collection and accumulation rules.
-/

namespace AerospikeCRuby

variable {rt : Runtime}

theorem key2binName_eq_ok {key : RbVal} {name : CStr} :
    key2binName rt key = .ok name ↔ Nameable rt key ∧ binName rt key = name := by
  have converted (noNil : key ≠ .nil) :
      (do let tmp ← rt.toS key; stringValueCStr tmp) = .ok name ↔
        Nameable rt key ∧ binName rt key = name := by
    simp only [ExceptLoop.bind_eq_ok, stringValueCStr_eq_ok_iff]
    unfold Nameable NamedWith binName
    constructor
    · rintro ⟨text, called, readable, same⟩
      exact ⟨⟨noNil, text, called, readable⟩, by rw [called]; exact same⟩
    · rintro ⟨⟨_, text, called, readable⟩, same⟩
      rw [called] at same
      exact ⟨text, called, readable, same⟩
  cases key with
  | nil => simp [key2binName, NamedWith]
  | _ => exact converted (by simp)

theorem nameable_of_named {key : RbVal} (named : Named rt key) : Nameable rt key :=
  named.imp fun _ => RbStr.readable_of_nulFree

theorem convertible_of_encodable {val : RbVal} (encodable : Encodable rt val) :
    Convertible rt val :=
  encodable.imp fun _ => RbStr.readable_of_nulFree

theorem key2binName_of_nameable {key : RbVal} (nameable : Nameable rt key) :
    key2binName rt key = .ok (binName rt key) :=
  key2binName_eq_ok.mpr ⟨nameable, rfl⟩

@[simp]
theorem key2binName_rbStrNew2 (name : CStr) :
    key2binName rt (.string (rbStrNew2 name)) = .ok name :=
  stringValueCStr_rbStrNew2 name

theorem rbObjToAsBytes_eq_ok {obj : RbVal} {value : AsVal} :
    rbObjToAsBytes rt obj = .ok value ↔
      ∃ dumped, rt.dump obj = .ok dumped ∧ dumped.length < 2 ^ 31 ∧
        value = .bytes .ruby dumped := by
  simp only [rbObjToAsBytes, ExceptLoop.bind_eq_ok, rbAryLenInt_eq_ok, map_byteOfInt_stringBytes,
    Except.ok.injEq]
  have length (dumped : Bytes) : (stringBytes dumped).length = dumped.length := by
    simp [stringBytes]
  constructor
  · rintro ⟨dumped, called, _, ⟨short, _⟩, rfl⟩
    exact ⟨dumped, called, by rwa [length] at short, rfl⟩
  · rintro ⟨dumped, called, short, rfl⟩
    exact ⟨dumped, called, _, ⟨by rwa [length], rfl⟩, rfl⟩

theorem element_array_eq_ok {elements : List RbVal} {value : AsVal} :
    array2asListElement rt (.array elements) = .ok value ↔
      elements.length < 2 ^ 31 ∧ ∃ values,
        List.Forall₂ (fun element value => array2asListElement rt element = .ok value)
          elements values ∧ value = .list values := by
  simp only [array2asListElement, ExceptLoop.bind_eq_ok, rbAryLenInt_eq_ok, array2asListFrom_eq,
    ExceptLoop.collect_eq_ok, Except.ok.injEq]
  constructor
  · rintro ⟨_, ⟨short, _⟩, values, converted, rfl⟩
    exact ⟨short, values, converted, rfl⟩
  · rintro ⟨short, values, converted, rfl⟩
    exact ⟨_, ⟨short, rfl⟩, values, converted, rfl⟩

theorem element_hash_eq_ok {entries : List (RbVal × RbVal)} {value : AsVal} :
    array2asListElement rt (.hash entries) = .ok value ↔
      ∃ named, List.Forall₂ (fun entry binding => encodeEntry rt entry = .ok binding)
          entries named ∧
        value = .map (named.foldl
          (fun map binding => asStringmapSet rt entries.length map binding.1 binding.2) []) := by
  simp only [array2asListElement, ExceptLoop.bind_eq_ok, hash2asHashmapFrom_eq,
    ExceptLoop.accumulate_eq_ok, Except.ok.injEq]
  constructor
  · rintro ⟨map, ⟨named, converted, rfl⟩, rfl⟩
    exact ⟨named, converted, rfl⟩
  · rintro ⟨named, converted, rfl⟩
    exact ⟨_, ⟨named, converted, rfl⟩, rfl⟩

/-- The switch over map values accepts what the switch over list elements accepts, with the
same result. -/
theorem foreachHash2asHashmapValue_toOption (val : RbVal) :
    (foreachHash2asHashmapValue rt val).toOption = (array2asListElement rt val).toOption := by
  cases val with
  | integer value =>
      simp only [foreachHash2asHashmapValue, array2asListElement]
      split <;> rfl
  | _ => rfl

theorem foreachHash2asHashmapValue_eq_ok {val : RbVal} {value : AsVal} :
    foreachHash2asHashmapValue rt val = .ok value ↔ array2asListElement rt val = .ok value := by
  rw [← ExceptLoop.toOption_eq_some, foreachHash2asHashmapValue_toOption,
    ExceptLoop.toOption_eq_some]

theorem encodeEntry_eq_ok {entry : RbVal × RbVal} {binding : CStr × AsVal} :
    encodeEntry rt entry = .ok binding ↔
      (Nameable rt entry.1 ∧ binName rt entry.1 = binding.1) ∧
        array2asListElement rt entry.2 = .ok binding.2 := by
  simp only [encodeEntry, ExceptLoop.bind_eq_ok, key2binName_eq_ok,
    foreachHash2asHashmapValue_eq_ok, Except.ok.injEq]
  constructor
  · rintro ⟨name, named, value, converted, rfl⟩
    exact ⟨named, converted⟩
  · rintro ⟨named, converted⟩
    exact ⟨_, named, _, converted, rfl⟩

/-- Success of the nested encoders. -/
theorem convertible_iff {val : RbVal} :
    (∃ value, array2asListElement rt val = .ok value) ↔ Convertible rt val := by
  induction val with
  | string text | symbol text =>
      simp only [array2asListElement, ExceptLoop.bind_eq_ok, EncodableWith, Except.ok.injEq,
        stringValueCStr_eq_ok_iff]
      constructor
      · rintro ⟨_, _, ⟨readable, _⟩, _⟩
        exact readable
      · intro readable
        exact ⟨_, _, ⟨readable, rfl⟩, rfl⟩
  | integer value =>
      by_cases fixnum : IsFixnum value
      · simp only [array2asListElement, EncodableWith, if_pos fixnum]
        exact iff_of_true ⟨_, rfl⟩ fixnum
      · simp only [array2asListElement, EncodableWith, if_neg fixnum]
        exact iff_of_false (by simp) fixnum
  | bool value =>
      simp only [array2asListElement, rbObjToAsBytes_eq_ok, EncodableWith, Dumps]
      grind
  | object state =>
      simp only [array2asListElement, rbObjToAsBytes_eq_ok, EncodableWith, Dumps]
      grind
  | array elements ih =>
      simp only [element_array_eq_ok, EncodableWith, encodableElements_iff]
      constructor
      · rintro ⟨_, short, values, converted, _⟩
        refine ⟨short, fun element member => (ih element member).mp ?_⟩
        rcases Aligned.exists_of_mem converted member with ⟨value, _, encoded⟩
        exact ⟨value, encoded⟩
      · rintro ⟨short, each⟩
        rcases Aligned.exists_images
            fun element member => (ih element member).mpr (each element member) with
          ⟨values, converted⟩
        exact ⟨_, short, values, converted, rfl⟩
  | hash entries ih =>
      simp only [element_hash_eq_ok, EncodableWith, encodableEntries_iff]
      constructor
      · rintro ⟨_, named, converted, _⟩ entry member
        rcases Aligned.exists_of_mem converted member with ⟨binding, _, encoded⟩
        rcases encodeEntry_eq_ok.mp encoded with ⟨⟨keyed, _⟩, encoded⟩
        exact ⟨keyed, (ih entry member).2.mp ⟨_, encoded⟩⟩
      · intro each
        have imaged : ∀ entry ∈ entries, ∃ binding, encodeEntry rt entry = .ok binding := by
          intro entry member
          rcases each entry member with ⟨keyed, accepted⟩
          rcases (ih entry member).2.mpr accepted with ⟨value, encoded⟩
          exact ⟨(_, value), encodeEntry_eq_ok.mpr ⟨⟨keyed, rfl⟩, encoded⟩⟩
        rcases Aligned.exists_images imaged with ⟨named, converted⟩
        exact ⟨_, named, converted, rfl⟩
  | nil | float | geoJson | data | other => simp [array2asListElement, EncodableWith]

/-- What the switch over the entries makes of a value: nil and a GeoJson may stand in a bin. -/
def encodeBin (rt : Runtime) : RbVal → Except Abort AsVal
  | .nil => .ok .nil
  | .geoJson json => .ok (.geojson json.bytes)
  | val => array2asListElement rt val

/-- What an entry does to the record: a C struct other than a GeoJson is passed over. -/
inductive BinSets (rt : Runtime) : RbVal × RbVal → Option (CStr × AsVal) → Prop
  | skip (key : RbVal) (handle : ℕ) : BinSets rt (key, .data handle) none
  | set {key val : RbVal} {value : AsVal} : Nameable rt key → encodeBin rt val = .ok value →
      BinSets rt (key, val) (some (binName rt key, value))

theorem array2asList_eq (rt : Runtime) (elements : List RbVal) :
    array2asList rt elements = array2asListElement rt (.array elements) := by
  simp only [array2asList, array2asListElement]

theorem hash2asHashmap_eq (rt : Runtime) (entries : List (RbVal × RbVal)) :
    hash2asHashmap rt entries = array2asListElement rt (.hash entries) := by
  simp only [hash2asHashmap, array2asListElement]

theorem encodeBin_isOk_iff {val : RbVal} :
    (∃ value, encodeBin rt val = .ok value) ↔
      val = .nil ∨ (∃ json, val = .geoJson json) ∨ Convertible rt val := by
  rw [← convertible_iff]
  cases val with
  | nil | geoJson => simp [encodeBin]
  | _ => simp [encodeBin]

theorem encodeBin_data {handle : ℕ} {value : AsVal} : encodeBin rt (.data handle) ≠ .ok value := by
  simp [encodeBin, array2asListElement]

/-- The switch is the same whatever the setter does. -/
theorem foreachHash2recordWith_eq {α : Type} (unset : α) (set : CStr → AsVal → α)
    (key val : RbVal) :
    foreachHash2recordWith rt unset set key val = (do
      let setting ← binSetting rt key val
      .ok (setting.elim unset fun binding => set binding.1 binding.2)) := by
  cases val with
  | integer value =>
      rw [binSetting, foreachHash2recordWith, foreachHash2recordWith]
      split
      · cases key2binName rt key <;> rfl
      · rfl
  | nil | geoJson | float =>
      rw [binSetting, foreachHash2recordWith, foreachHash2recordWith]
      cases key2binName rt key <;> rfl
  | symbol text | string text =>
      rw [binSetting, foreachHash2recordWith, foreachHash2recordWith]
      cases key2binName rt key with
      | error failure => rfl
      | ok name => cases stringValueCStr text <;> rfl
  | array elements =>
      rw [binSetting, foreachHash2recordWith, foreachHash2recordWith]
      cases array2asList rt elements with
      | error failure => rfl
      | ok list => cases key2binName rt key <;> rfl
  | hash entries =>
      rw [binSetting, foreachHash2recordWith, foreachHash2recordWith]
      cases hash2asHashmap rt entries with
      | error failure => rfl
      | ok map => cases key2binName rt key <;> rfl
  | bool | object =>
      rw [binSetting, foreachHash2recordWith, foreachHash2recordWith]
      cases key2binName rt key with
      | error failure => rfl
      | ok name => cases rbObjToAsBytes rt _ <;> rfl
  | data | other => rfl

/-- The bin of an entry is set after its key and its value are converted, in whichever order
the branch of the switch does it. -/
theorem binSetting_eq_some_of_ne_data {key val : RbVal} {setting : Option (CStr × AsVal)}
    (noData : ∀ handle, val ≠ .data handle) :
    binSetting rt key val = .ok setting ↔
      ∃ name, key2binName rt key = .ok name ∧
        ∃ value, encodeBin rt val = .ok value ∧ some (name, value) = setting := by
  cases val with
  | nil | geoJson json | float bits =>
      simp [binSetting, foreachHash2recordWith, encodeBin, array2asListElement,
        ExceptLoop.bind_eq_ok]
  | bool value | object state =>
      simp only [binSetting, foreachHash2recordWith, encodeBin, array2asListElement,
        ExceptLoop.bind_eq_ok, Except.ok.injEq]
  | string text | symbol text =>
      simp only [binSetting, foreachHash2recordWith, encodeBin, array2asListElement,
        ExceptLoop.bind_eq_ok, Except.ok.injEq]
      grind
  | integer value =>
      by_cases fixnum : IsFixnum value
      · simp only [binSetting, foreachHash2recordWith, encodeBin, array2asListElement,
          if_pos fixnum, ExceptLoop.bind_eq_ok, Except.ok.injEq, exists_eq_left']
      · simp [binSetting, foreachHash2recordWith, encodeBin, array2asListElement, if_neg fixnum]
  | array elements =>
      simp only [binSetting, foreachHash2recordWith, encodeBin, array2asList_eq,
        ExceptLoop.bind_eq_ok, Except.ok.injEq]
      grind
  | hash entries =>
      simp only [binSetting, foreachHash2recordWith, encodeBin, hash2asHashmap_eq,
        ExceptLoop.bind_eq_ok, Except.ok.injEq]
      grind
  | data handle => exact absurd rfl (noData handle)
  | other type handle => simp [binSetting, foreachHash2recordWith, encodeBin, array2asListElement]

theorem binSetting_eq_ok {entry : RbVal × RbVal} {setting : Option (CStr × AsVal)} :
    binSetting rt entry.1 entry.2 = .ok setting ↔ BinSets rt entry setting := by
  rcases entry with ⟨key, val⟩
  by_cases isData : ∃ handle, val = .data handle
  · rcases isData with ⟨handle, rfl⟩
    constructor
    · intro made
      cases made
      exact .skip key handle
    · intro sets
      cases sets with
      | skip => rfl
      | set _ encodes => exact absurd encodes encodeBin_data
  · have noData : ∀ handle, val ≠ .data handle := fun handle same => isData ⟨handle, same⟩
    rw [binSetting_eq_some_of_ne_data noData]
    constructor
    · rintro ⟨name, keyed, value, encodes, rfl⟩
      rcases key2binName_eq_ok.mp keyed with ⟨named, rfl⟩
      exact .set named encodes
    · intro sets
      cases sets with
      | skip _ handle => exact absurd rfl (noData handle)
      | set named encodes => exact ⟨_, key2binName_of_nameable named, _, encodes, rfl⟩

theorem foreachHash2record_eq_ok {rec rec' : AsRecord} {entry : RbVal × RbVal} :
    foreachHash2record rt rec entry.1 entry.2 = .ok rec' ↔
      ∃ setting, BinSets rt entry setting ∧ rec.setAll setting.toList = rec' := by
  simp only [foreachHash2record, foreachHash2recordWith_eq, ExceptLoop.bind_eq_ok,
    binSetting_eq_ok, Except.ok.injEq]
  refine exists_congr fun setting => and_congr_right fun _ => ?_
  cases setting <;> rfl

theorem hash2record_cons_eq_ok {entry : RbVal × RbVal} {rest : List (RbVal × RbVal)}
    {rec rec' : AsRecord} :
    hash2record rt (entry :: rest) rec = .ok rec' ↔
      ∃ mid, foreachHash2record rt rec entry.1 entry.2 = .ok mid ∧
        hash2record rt rest mid = .ok rec' := by
  rw [hash2record, List.foldlM_cons]
  exact ExceptLoop.bind_eq_ok

/-- `hash2record` makes the settings of its entries one after another. -/
theorem hash2record_eq_ok {hash : List (RbVal × RbVal)} {rec rec' : AsRecord} :
    hash2record rt hash rec = .ok rec' ↔
      ∃ settings, List.Forall₂ (BinSets rt) hash settings ∧
        rec.setAll settings.reduceOption = rec' := by
  induction hash generalizing rec with
  | nil => simp [hash2record, AsRecord.setAll, List.reduceOption, pure, Except.pure]
  | cons entry rest ih =>
      simp only [hash2record_cons_eq_ok, foreachHash2record_eq_ok, ih]
      constructor
      · rintro ⟨_, ⟨setting, sets, rfl⟩, settings, aligned, rfl⟩
        refine ⟨setting :: settings, .cons sets aligned, ?_⟩
        cases setting <;> rfl
      · rintro ⟨_, aligned, rfl⟩
        cases aligned with
        | cons sets aligned =>
            rename_i setting settings
            refine ⟨_, ⟨setting, sets, rfl⟩, settings, aligned, ?_⟩
            cases setting <;> rfl

/-- An entry and the bin it asks for. -/
def Binds (rt : Runtime) (entry : RbVal × RbVal) (binding : CStr × AsVal) : Prop :=
  (Nameable rt entry.1 ∧ binName rt entry.1 = binding.1) ∧ encodeBin rt entry.2 = .ok binding.2

theorem hash2record_eq_setAll {hash : List (RbVal × RbVal)} {bindings : List (CStr × AsVal)}
    (rec : AsRecord) (binds : List.Forall₂ (Binds rt) hash bindings) :
    hash2record rt hash rec = .ok (rec.setAll bindings) := by
  refine hash2record_eq_ok.mpr ⟨bindings.map some, ?_, by simp [List.reduceOption]⟩
  rw [List.forall₂_map_right_iff]
  refine binds.imp ?_
  rintro ⟨key, val⟩ ⟨name, value⟩ ⟨⟨named, same⟩, encodes⟩
  obtain rfl : binName rt key = name := same
  exact .set named encodes

/-- Entries which all ask for a bin get it where the names are short and the bins fit. -/
theorem hash2record_of_binds {hash : List (RbVal × RbVal)} {bindings : List (CStr × AsVal)}
    (rec : AsRecord) (binds : List.Forall₂ (Binds rt) hash bindings)
    (short : ∀ binding ∈ bindings, binding.1.bytes.length ≤ asBinNameMaxLen)
    (room : (bindings.foldl (fun bins binding => AssocList.putLast bins binding.1 binding.2)
      rec.bins).length ≤ rec.capacity) :
    ∃ rec', hash2record rt hash rec = .ok rec' ∧ rec'.gen = rec.gen ∧ rec'.ttl = rec.ttl ∧
      rec'.bins = bindings.foldl
        (fun bins binding => AssocList.putLast bins binding.1 binding.2) rec.bins :=
  ⟨rec.setAll bindings, hash2record_eq_setAll rec binds, by simp, by simp,
    AsRecord.bins_setAll short room⟩

end AerospikeCRuby
