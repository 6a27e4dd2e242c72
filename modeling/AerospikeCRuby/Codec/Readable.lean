import AerospikeCRuby.Codec.RoundTrip

/-!
# The values the decoder reads

The decoder reads every value except NULL, a map with a key which is not a
String, and a Ruby blob which `Marshal.load` refuses.
-/

namespace AerospikeCRuby

variable {rt : Runtime}

mutual

/-- The decoder reads the value to its end. -/
def Readable (rt : Runtime) : AsVal → Prop
  | .null => False
  | .bytes .ruby data => ∃ val, rt.load data = .ok val
  | .list elements => ReadableElements rt elements
  | .map pairs => ReadablePairs rt pairs
  | _ => True

def ReadableElements (rt : Runtime) : List AsVal → Prop
  | [] => True
  | element :: rest => Readable rt element ∧ ReadableElements rt rest

def ReadablePairs (rt : Runtime) : List (AsVal × AsVal) → Prop
  | [] => True
  | (key, value) :: rest =>
      ((∃ buffer, key = .string buffer) ∧ Readable rt value) ∧ ReadablePairs rt rest

end

theorem readableElements_iff {elements : List AsVal} :
    ReadableElements rt elements ↔ ∀ element ∈ elements, Readable rt element := by
  induction elements with
  | nil => simp [ReadableElements]
  | cons element rest ih => simp [ReadableElements, ih]

theorem readablePairs_iff {pairs : List (AsVal × AsVal)} :
    ReadablePairs rt pairs ↔
      ∀ pair ∈ pairs, (∃ buffer, pair.1 = .string buffer) ∧ Readable rt pair.2 := by
  induction pairs with
  | nil => simp [ReadablePairs]
  | cons pair rest ih => simp [ReadablePairs, ih]

theorem exists_pairName {key : AsVal} (isString : ∃ buffer, key = .string buffer) :
    ∃ name, pairName key = .ok name := by
  rcases isString with ⟨buffer, rfl⟩
  exact ⟨cstr buffer, rfl⟩

theorem isString_of_pairName {key : AsVal} {name : CStr} (named : pairName key = .ok name) :
    ∃ buffer, key = .string buffer := by
  cases key with
  | string buffer => exact ⟨buffer, rfl⟩
  | _ => cases named

/-- The Hash read from a map, from the names of its pairs and the decodings of its values. -/
theorem decode_map_eq {name : AsVal × AsVal → CStr} {val : AsVal × AsVal → RbVal}
    {pairs : List (AsVal × AsVal)}
    (named : ∀ pair ∈ pairs, pairName pair.1 = .ok (name pair))
    (decoded : ∀ pair ∈ pairs, asVal2rbVal rt pair.2 = .ok (val pair)) :
    asVal2rbVal rt (.map pairs) = .ok (.hash (StrHash.entries
      ((pairs.map fun pair => (name pair, val pair)).foldl
        (fun hash entry => AssocList.putLast hash entry.1 entry.2) []))) := by
  rw [asVal2rbVal, asHashmap2hashFrom_eq, ExceptLoop.bind_eq_ok]
  refine ⟨_, ExceptLoop.accumulate_eq_ok.mpr ⟨_, ?_, rfl⟩, rfl⟩
  rw [List.forall₂_map_right_iff, List.forall₂_same]
  intro pair member
  rw [decodePair, named pair member, decoded pair member]
  rfl

theorem decode_pair_of_mem {pairs : List (AsVal × AsVal)} {val : RbVal}
    (decoded : asVal2rbVal rt (.map pairs) = .ok val) {pair : AsVal × AsVal}
    (member : pair ∈ pairs) :
    (∃ name, pairName pair.1 = .ok name) ∧ ∃ inner, asVal2rbVal rt pair.2 = .ok inner := by
  rw [asVal2rbVal, asHashmap2hashFrom_eq, ExceptLoop.bind_eq_ok] at decoded
  rcases decoded with ⟨hash, accumulated, _⟩
  rcases ExceptLoop.accumulate_eq_ok.mp accumulated with ⟨entries, aligned, _⟩
  rcases Aligned.exists_of_mem aligned member with ⟨entry, _, converted⟩
  simp only [decodePair, ExceptLoop.bind_eq_ok] at converted
  rcases converted with ⟨name, named, inner, decoded, _⟩
  exact ⟨⟨name, named⟩, inner, decoded⟩

theorem decode_of_mem_map {pairs : List (AsVal × AsVal)} {val : RbVal}
    (decoded : asVal2rbVal rt (.map pairs) = .ok val) {pair : AsVal × AsVal}
    (member : pair ∈ pairs) : ∃ inner, asVal2rbVal rt pair.2 = .ok inner :=
  (decode_pair_of_mem decoded member).2

theorem decode_of_mem_list {elements : List AsVal} {val : RbVal}
    (decoded : asVal2rbVal rt (.list elements) = .ok val) {element : AsVal}
    (member : element ∈ elements) : ∃ inner, asVal2rbVal rt element = .ok inner := by
  rw [asVal2rbVal, asList2arrayFrom_eq, ExceptLoop.bind_eq_ok] at decoded
  rcases decoded with ⟨ary, collected, _⟩
  rcases Aligned.exists_of_mem (ExceptLoop.collect_eq_ok.mp collected) member with
    ⟨inner, _, decoded⟩
  exact ⟨inner, decoded⟩

/-- The decoder succeeds on the readable values and on no other. -/
theorem decodes_iff_readable {value : AsVal} :
    (∃ val, asVal2rbVal rt value = .ok val) ↔ Readable rt value := by
  induction value with
  | null => simp [asVal2rbVal, Readable]
  | list elements ih =>
      rw [Readable, readableElements_iff]
      constructor
      · rintro ⟨val, decoded⟩ element member
        exact (ih element member).mp (decode_of_mem_list decoded member)
      · intro readable
        rcases Aligned.exists_images fun element member =>
          (ih element member).mpr (readable element member) with ⟨vals, decoded⟩
        refine ⟨.array vals, ?_⟩
        rw [asVal2rbVal, asList2arrayFrom_eq, ExceptLoop.collect_eq_ok.mpr decoded]
        rfl
  | map pairs ih =>
      rw [Readable, readablePairs_iff]
      constructor
      · rintro ⟨val, decoded⟩ pair member
        rcases decode_pair_of_mem decoded member with ⟨⟨name, named⟩, inner⟩
        exact ⟨isString_of_pairName named, (ih pair member).2.mp inner⟩
      · intro readable
        choose! name named using fun pair member => exists_pairName (readable pair member).1
        choose! val decoded using fun pair member =>
          (ih pair member).2.mpr (readable pair member).2
        exact ⟨_, decode_map_eq named decoded⟩
  | bytes type data =>
      cases type with
      | ruby => simp [asVal2rbVal, asBytesToRbObj, Readable]
      | other code => exact iff_of_true ⟨_, rfl⟩ trivial
  | _ => exact iff_of_true ⟨_, rfl⟩ trivial

theorem record2hash_decodes {record : AsRecord} {hash : StrHash}
    (read : record2hash rt record = .ok hash) {bin : CStr × AsVal} (member : bin ∈ record.bins) :
    ∃ val, asVal2rbVal rt bin.2 = .ok val := by
  rcases Aligned.exists_of_mem (record2hash_eq_ok.mp read) member with ⟨entry, _, _, decoded⟩
  exact ⟨entry.2, decoded⟩

/-- A record is read exactly when each of its bins is. -/
theorem record2hash_iff_readable {record : AsRecord} :
    (∃ hash, record2hash rt record = .ok hash) ↔ ∀ bin ∈ record.bins, Readable rt bin.2 := by
  constructor
  · rintro ⟨hash, read⟩ bin member
    exact decodes_iff_readable.mp (record2hash_decodes read member)
  · intro readable
    have entries : ∀ bin ∈ record.bins, ∃ entry : CStr × RbVal,
        bin.1 = entry.1 ∧ asVal2rbVal rt bin.2 = .ok entry.2 := by
      intro bin member
      rcases decodes_iff_readable.mpr (readable bin member) with ⟨val, decoded⟩
      exact ⟨(bin.1, val), rfl, decoded⟩
    rcases Aligned.exists_images entries with ⟨hash, aligned⟩
    exact ⟨hash, record2hash_eq_ok.mpr aligned⟩

end AerospikeCRuby
