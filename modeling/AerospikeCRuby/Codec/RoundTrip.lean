import AerospikeCRuby.Codec.Acceptance

/-!
# The codec round trip

A value encoded into an array, a map or a bin and decoded again is its norm,
and the norm encodes as the value itself did.  Both facts go by induction on
the value.  A Hash is followed through the store as a map: the pairs, the
Hash read back and the norm are related entry by entry, whatever order each
of the three keeps.
-/

namespace AerospikeCRuby

open AssocList (Related keys)

variable {rt : Runtime}

/-- A pair of a map is keyed by the String of this name. -/
def KeyedBy (key : AsVal) (name : CStr) : Prop :=
  key = .string name.bytes

theorem keyedBy_lawful {key key' : AsVal} {name name' : CStr} (keyed : KeyedBy key name)
    (keyed' : KeyedBy key' name') : key = key' ↔ name = name' := by
  subst keyed keyed'
  rcases name with ⟨bytes, _⟩
  rcases name' with ⟨bytes', _⟩
  simp

/-- The pairs a map holds after a run of settings, beside the map of the names themselves. -/
theorem related_asStringmapSet (rt : Runtime) (buckets : ℕ) {β : Type} {R : AsVal → β → Prop}
    {settings : List (CStr × AsVal)} {updates : List (CStr × β)}
    (matched : List.Forall₂ (fun setting update => setting.1 = update.1 ∧ R setting.2 update.2)
      settings updates) :
    Related KeyedBy R
      (settings.foldl (fun map binding => asStringmapSet rt buckets map binding.1 binding.2) [])
      (updates.foldl (fun map binding => AssocList.putLast map binding.1 binding.2) []) := by
  have keyed : List.Forall₂ (fun pair update => KeyedBy pair.1 update.1 ∧ R pair.2 update.2)
      (settings.map fun setting => (AsVal.string setting.1.bytes, setting.2)) updates := by
    rw [List.forall₂_map_left_iff]
    refine matched.imp ?_
    rintro setting update ⟨name, value⟩
    exact ⟨congrArg (fun name : CStr => AsVal.string name.bytes) name, value⟩
  have related := AssocList.related_foldl_put keyedBy_lawful
    (fun map key => rt.slot buckets (keys map) key) (fun map _ => map.length) keyed
    AssocList.related_nil
  rwa [List.foldl_map] at related

theorem nodup_normEntries (entries : List (RbVal × RbVal)) :
    (keys (normEntries rt [] entries)).Nodup := by
  rw [normEntries_eq]
  exact AssocList.nodup_keys_foldl_put (fun map _ => map.length) _ AssocList.nodup_keys_nil

/-- The Hash read back, before its entries are put in the order of the target. -/
theorem exists_decoded {κ : Type} {K : κ → CStr → Prop} {pairs : List (κ × AsVal)}
    {target : StrHash}
    (matched : List.Forall₂ (fun pair entry => K pair.1 entry.1 ∧
      ∃ val, asVal2rbVal rt pair.2 = .ok val ∧ RbVal.Same val entry.2) pairs target) :
    ∃ back : StrHash,
      List.Forall₂ (fun pair binding => K pair.1 binding.1 ∧
        asVal2rbVal rt pair.2 = .ok binding.2) pairs back ∧
      List.Forall₂ (fun binding entry => binding.1 = entry.1 ∧ RbVal.Same binding.2 entry.2)
        back target := by
  induction matched with
  | nil => exact ⟨[], .nil, .nil⟩
  | cons here _ ih =>
      rcases ih with ⟨back, decoded, same⟩
      rcases here with ⟨keyed, val, valued, sameVal⟩
      exact ⟨(_, val) :: back, .cons ⟨keyed, valued⟩ decoded, .cons ⟨rfl, sameVal⟩ same⟩

theorem same_entries {back target hash : StrHash}
    (same : List.Forall₂ (fun binding entry => binding.1 = entry.1 ∧
      RbVal.Same binding.2 entry.2) back target) (perm : target.Perm hash) :
    RbVal.Same (.hash back.entries) (.hash hash.entries) := by
  refine RbVal.Same.hash_of_related ((AssocList.related_of_forall₂ ?_).perm_right
    (perm.map _))
  rw [StrHash.entries, List.forall₂_map_left_iff, List.forall₂_map_right_iff]
  refine same.imp ?_
  rintro ⟨name, val⟩ ⟨name', val'⟩ ⟨rfl, sameVal⟩
  exact ⟨.refl _, sameVal⟩

/-- A map is decoded pair by pair where its names are distinct. -/
theorem decode_map_of_forall₂ {pairs : List (AsVal × AsVal)} {back : StrHash}
    (nodup : (keys back).Nodup)
    (decoded : List.Forall₂ (fun pair binding => KeyedBy pair.1 binding.1 ∧
      asVal2rbVal rt pair.2 = .ok binding.2) pairs back) :
    asVal2rbVal rt (.map pairs) = .ok (.hash back.entries) := by
  rw [asVal2rbVal, asHashmap2hashFrom_eq, ExceptLoop.bind_eq_ok]
  refine ⟨back, ExceptLoop.accumulate_eq_ok.mpr ⟨back, ?_, ?_⟩, rfl⟩
  · refine decoded.imp ?_
    rintro pair binding ⟨keyed, valued⟩
    rw [decodePair, keyed, valued]
    simp [pairName, asStringFromval, bind, Except.bind]
  · exact AssocList.foldl_putLast_of_nodup [] back nodup

/-- A map whose values decode to those of a Hash decodes to that Hash. -/
theorem decode_map {pairs : List (AsVal × AsVal)} {hash : StrHash} (nodup : (keys hash).Nodup)
    (related : Related KeyedBy
      (fun value image => ∃ val, asVal2rbVal rt value = .ok val ∧ RbVal.Same val image)
      pairs hash) :
    ∃ val, asVal2rbVal rt (.map pairs) = .ok val ∧ RbVal.Same val (.hash hash.entries) := by
  rcases related.exists_forall₂ with ⟨target, matched, perm⟩
  rcases exists_decoded matched with ⟨back, decoded, same⟩
  have nodupBack : (keys back).Nodup := by
    rw [AssocList.keys_eq_of_forall₂ same fun _ _ both => both.1]
    exact ((perm.map Prod.fst).nodup_iff).mpr nodup
  exact ⟨.hash (StrHash.entries back), decode_map_of_forall₂ nodupBack decoded,
    same_entries same perm⟩

/-- A Hash of encodable values under C names encodes to a map of its own entries. -/
theorem encode_strHash {hash : StrHash} (nodup : (keys hash).Nodup)
    (encodable : ∀ entry ∈ hash, ∃ value, array2asListElement rt entry.2 = .ok value) :
    ∃ pairs, array2asListElement rt (.hash hash.entries) = .ok (.map pairs) ∧
      Related KeyedBy (fun value val => array2asListElement rt val = .ok value) pairs hash := by
  obtain ⟨settings, converted⟩ : ∃ settings : List (CStr × AsVal),
      List.Forall₂ (fun setting entry => setting.1 = entry.1 ∧
        array2asListElement rt entry.2 = .ok setting.2) settings hash := by
    clear nodup
    induction hash with
    | nil => exact ⟨[], .nil⟩
    | cons entry rest ih =>
        rcases encodable entry (by simp) with ⟨value, encoded⟩
        rcases ih fun other member => encodable other (by simp [member]) with ⟨settings, converted⟩
        exact ⟨(entry.1, value) :: settings, .cons ⟨rfl, encoded⟩ converted⟩
  refine ⟨_, element_hash_eq_ok.mpr ⟨settings, ?_, rfl⟩, ?_⟩
  · rw [StrHash.entries, List.forall₂_map_left_iff]
    refine converted.flip.imp ?_
    rintro entry setting ⟨name, encoded⟩
    refine encodeEntry_eq_ok.mpr ⟨key2binName_eq_ok.mp ?_, encoded⟩
    rw [key2binName_rbStrNew2, name]
  · have related := related_asStringmapSet rt (StrHash.entries hash).length
      (R := fun value val => array2asListElement rt val = .ok value) converted
    rwa [AssocList.foldl_putLast_of_nodup [] hash (by simpa using nodup)] at related

/-- Decoding what was encoded gives the norm, where no text is cut. -/
theorem decode_element (loads : rt.LoadsDumped) {val : RbVal} {value : AsVal}
    (encodable : Encodable rt val) (encoded : array2asListElement rt val = .ok value) :
    ∃ back, asVal2rbVal rt value = .ok back ∧ RbVal.Same back (norm rt val) := by
  induction val generalizing value with
  | nil | geoJson | data | other => simp [array2asListElement] at encoded
  | float bits =>
      cases encoded
      exact ⟨_, rfl, .refl _⟩
  | integer number =>
      by_cases fixnum : IsFixnum number
      · simp only [array2asListElement, if_pos fixnum, Except.ok.injEq] at encoded
        subst encoded
        refine ⟨_, rfl, ?_⟩
        have exact : (fix2long number).toInt = number := toInt_fix2long fixnum
        rw [long2fix_of_fixnum (by rwa [exact]), exact]
        exact .refl _
      · simp [array2asListElement, if_neg fixnum] at encoded
  | string text | symbol text =>
      simp only [array2asListElement, stringValueCStr_of_nulFree encodable] at encoded
      cases encoded
      refine ⟨_, rfl, .string ?_⟩
      rw [cstr_of_nulFree encodable]
      unfold checkAndForceEncoding
      cases rt.encoding <;> rfl
  | bool | object =>
      simp only [array2asListElement, rbObjToAsBytes_eq_ok] at encoded
      rcases encoded with ⟨dumped, called, _, rfl⟩
      refine ⟨_, ?_, .refl _⟩
      rw [asVal2rbVal, asBytesToRbObj, map_byteOfInt_stringBytes]
      exact loads _ _ called
  | array elements ih =>
      rcases element_array_eq_ok.mp encoded with ⟨short, values, converted, rfl⟩
      obtain ⟨back, decoded, same⟩ : ∃ back,
          List.Forall₂ (fun value val => asVal2rbVal rt value = .ok val) values back ∧
            List.Forall₂ RbVal.Same back (elements.map (norm rt)) := by
        have each := encodableElements_iff.mp encodable.2
        clear short encoded encodable
        induction converted with
        | nil => exact ⟨[], .nil, .nil⟩
        | cons here _ rest =>
            rcases ih _ (by simp) (each _ (by simp)) here with ⟨val, decoded, same⟩
            rcases rest (fun element member => ih element (by simp [member]))
                fun element member => each element (by simp [member]) with
              ⟨back, decodedRest, sameRest⟩
            exact ⟨val :: back, .cons decoded decodedRest, .cons same sameRest⟩
      refine ⟨.array back, ?_, ?_⟩
      · rw [asVal2rbVal, asList2arrayFrom_eq, ExceptLoop.collect_eq_ok.mpr decoded]
        rfl
      · rw [norm, normElements_eq]
        exact .array same
  | hash entries ih =>
      rcases element_hash_eq_ok.mp encoded with ⟨settings, converted, rfl⟩
      refine decode_map (nodup_normEntries entries) ?_
      rw [normEntries_eq]
      refine related_asStringmapSet rt _ ?_
      rw [List.forall₂_map_right_iff]
      have each := encodableEntries_iff.mp encodable
      clear encoded encodable
      induction converted with
      | nil => exact .nil
      | cons here _ rest =>
          rcases encodeEntry_eq_ok.mp here with ⟨⟨_, name⟩, valued⟩
          exact .cons ⟨name.symm, (ih _ (by simp)).2 (each _ (by simp)).2 valued⟩
            (rest (fun entry member => ih entry (by simp [member]))
              fun entry member => each entry (by simp [member]))

/-- The norm of a value is encoded as the value itself is. -/
theorem encode_norm {val : RbVal} {value : AsVal}
    (encoded : array2asListElement rt val = .ok value) :
    ∃ again, array2asListElement rt (norm rt val) = .ok again ∧ AsVal.Same value again := by
  induction val generalizing value with
  | nil | geoJson | data | other => simp [array2asListElement] at encoded
  | float | integer | string | symbol | bool | object => exact ⟨value, encoded, .refl _⟩
  | array elements ih =>
      rcases element_array_eq_ok.mp encoded with ⟨short, values, converted, rfl⟩
      obtain ⟨again, encodedAgain, same⟩ : ∃ again,
          List.Forall₂ (fun val value => array2asListElement rt val = .ok value)
            (elements.map (norm rt)) again ∧ List.Forall₂ AsVal.Same values again := by
        clear encoded short
        induction converted with
        | nil => exact ⟨[], .nil, .nil⟩
        | cons here _ rest =>
            rcases ih _ (by simp) here with ⟨value, encoded, same⟩
            rcases rest fun element member => ih element (by simp [member]) with
              ⟨again, encodedRest, sameRest⟩
            exact ⟨value :: again, .cons encoded encodedRest, .cons same sameRest⟩
      refine ⟨.list again, ?_, .list same⟩
      rw [norm, normElements_eq]
      exact element_array_eq_ok.mpr ⟨by rwa [List.length_map], again, encodedAgain, rfl⟩
  | hash entries ih =>
      rcases element_hash_eq_ok.mp encoded with ⟨settings, converted, rfl⟩
      have toNorm : Related KeyedBy (fun value val => ∃ again,
          array2asListElement rt val = .ok again ∧ AsVal.Same value again)
          (settings.foldl (fun map binding =>
            asStringmapSet rt entries.length map binding.1 binding.2) [])
          (normEntries rt [] entries) := by
        rw [normEntries_eq]
        refine related_asStringmapSet rt _ ?_
        rw [List.forall₂_map_right_iff]
        clear encoded
        induction converted with
        | nil => exact .nil
        | cons here _ rest =>
            rcases encodeEntry_eq_ok.mp here with ⟨⟨_, name⟩, valued⟩
            exact .cons ⟨name.symm, (ih _ (by simp)).2 valued⟩
              (rest fun entry member => ih entry (by simp [member]))
      have encodable : ∀ entry ∈ normEntries rt [] entries,
          ∃ again, array2asListElement rt entry.2 = .ok again := by
        intro entry member
        rcases toNorm with ⟨_, _, aligned⟩
        rcases Aligned.exists_of_mem aligned.flip member with ⟨_, _, _, again, encodedAgain, _⟩
        exact ⟨again, encodedAgain⟩
      rcases encode_strHash (nodup_normEntries entries) encodable with
        ⟨pairs, encodedNorm, fromNorm⟩
      refine ⟨.map pairs, encodedNorm, AsVal.Same.map_of_related ?_⟩
      rcases toNorm.trans fromNorm.symm with ⟨middle, perm, aligned⟩
      refine ⟨middle, perm, aligned.imp ?_⟩
      rintro pair pair' ⟨⟨name, keyed, keyed'⟩, ⟨val, ⟨again, encodedAgain, same⟩, encodedVal⟩⟩
      rw [encodedAgain, Except.ok.injEq] at encodedVal
      subst encodedVal
      rw [show pair'.1 = pair.1 from Eq.trans keyed' (Eq.symm keyed)]
      exact ⟨.refl _, same⟩

theorem encodeBin_of_element {val : RbVal} {value : AsVal}
    (encoded : array2asListElement rt val = .ok value) : encodeBin rt val = .ok value := by
  cases val with
  | nil | geoJson => simp [array2asListElement] at encoded
  | _ => exact encoded

theorem decode_bin (loads : rt.LoadsDumped) {val : RbVal} {value : AsVal}
    (accepted : val = .nil ∨ (∃ json, val = .geoJson json) ∨ Encodable rt val)
    (encodes : encodeBin rt val = .ok value) :
    ∃ back, asVal2rbVal rt value = .ok back ∧ RbVal.Same back (norm rt val) := by
  rcases accepted with rfl | ⟨json, rfl⟩ | encodable
  · cases encodes
    exact ⟨_, rfl, .refl _⟩
  · cases encodes
    exact ⟨_, rfl, by simpa using .refl _⟩
  · cases val with
    | nil | geoJson => exact encodable.elim
    | _ => exact decode_element loads encodable encodes

theorem encodeBin_norm {val : RbVal} {value : AsVal} (encodes : encodeBin rt val = .ok value) :
    ∃ again, encodeBin rt (norm rt val) = .ok again ∧ AsVal.Same value again := by
  cases val with
  | nil | geoJson => exact ⟨value, encodes, .refl _⟩
  | _ =>
      rcases encode_norm encodes with ⟨again, encoded, same⟩
      exact ⟨again, encodeBin_of_element encoded, same⟩

/-- The Hash read from a record has its bins in their order. -/
theorem record2hash_eq_ok {rec : AsRecord} {hash : StrHash} :
    record2hash rt rec = .ok hash ↔
      List.Forall₂ (fun bin entry => bin.1 = entry.1 ∧ asVal2rbVal rt bin.2 = .ok entry.2)
        rec.bins hash := by
  have decodes (bin : CStr × AsVal) (entry : CStr × RbVal) : decodeBin rt bin = .ok entry ↔
      bin.1 = entry.1 ∧ asVal2rbVal rt bin.2 = .ok entry.2 := by
    rw [decodeBin, ExceptLoop.bind_eq_ok]
    rcases entry with ⟨name, val⟩
    simp only [Except.ok.injEq, Prod.mk.injEq]
    constructor
    · rintro ⟨_, decoded, rfl, rfl⟩
      exact ⟨rfl, decoded⟩
    · rintro ⟨rfl, decoded⟩
      exact ⟨_, decoded, rfl, rfl⟩
  rw [record2hash, record2hashFrom_eq, ExceptLoop.accumulate_eq_ok]
  simp only [decodes]
  have inOrder {back : StrHash} (aligned : List.Forall₂ (fun bin entry => bin.1 = entry.1 ∧
      asVal2rbVal rt bin.2 = .ok entry.2) rec.bins back) :
      back.foldl (fun map entry => AssocList.putLast map entry.1 entry.2) [] = back := by
    have sameKeys := AssocList.keys_eq_of_forall₂ aligned fun _ _ both => both.1
    exact AssocList.foldl_putLast_of_nodup [] back (by simpa [← sameKeys] using rec.distinct)
  constructor
  · rintro ⟨back, aligned, rfl⟩
    rwa [inOrder aligned]
  · intro aligned
    exact ⟨hash, aligned, inOrder aligned⟩

/-- The same bins with the same values, and the same header. -/
structure AsRecord.Same (rec rec' : AsRecord) : Prop where
  bins : Related Eq AsVal.Same rec.bins rec'.bins
  gen : rec.gen = rec'.gen
  ttl : rec.ttl = rec'.ttl

/-- A Hash of bins the store can hold: at most 65535 entries, keys with C names of at most 14
bytes, and values that an array may hold, nil or a GeoJson. -/
structure Storable (rt : Runtime) (hash : List (RbVal × RbVal)) : Prop where
  size : hash.length ≤ 65535
  named : ∀ entry ∈ hash, Named rt entry.1
  short : ∀ entry ∈ hash, (binName rt entry.1).bytes.length ≤ asBinNameMaxLen
  values : ∀ entry ∈ hash,
    entry.2 = .nil ∨ (∃ json, entry.2 = .geoJson json) ∨ Encodable rt entry.2

theorem Storable.convertible {hash : List (RbVal × RbVal)} (storable : Storable rt hash)
    {entry : RbVal × RbVal} (member : entry ∈ hash) :
    entry.2 = .nil ∨ (∃ json, entry.2 = .geoJson json) ∨ Convertible rt entry.2 :=
  (storable.values entry member).imp_right (Or.imp_right convertible_of_encodable)

/-- The bindings of a storable Hash all enter the record. -/
theorem Storable.exists_record {hash : List (RbVal × RbVal)} (storable : Storable rt hash) :
    ∃ rec bindings, hash2record rt hash (AsRecord.init hash.length) = .ok rec ∧
      rec.gen = 0 ∧ rec.ttl = 0 ∧ List.Forall₂ (Binds rt) hash bindings ∧
      rec.bins = bindings.foldl
        (fun bins binding => AssocList.putLast bins binding.1 binding.2) [] := by
  have bound : ∀ entry ∈ hash, ∃ binding, Binds rt entry binding := by
    intro entry member
    rcases encodeBin_isOk_iff.mpr (storable.convertible member) with ⟨value, encodes⟩
    exact ⟨(_, value), ⟨nameable_of_named (storable.named entry member), rfl⟩, encodes⟩
  rcases Aligned.exists_images bound with ⟨bindings, binds⟩
  have capacity : hash.length % 2 ^ 16 = hash.length :=
    Nat.mod_eq_of_lt (by have := storable.size; omega)
  have short : ∀ binding ∈ bindings, binding.1.bytes.length ≤ asBinNameMaxLen := by
    intro binding member
    rcases Aligned.exists_of_mem binds.flip member with ⟨entry, present, ⟨⟨_, same⟩, _⟩⟩
    rw [← same]
    exact storable.short entry present
  rcases hash2record_of_binds
      (AsRecord.init hash.length) binds short (by
      have grown := AssocList.length_foldl_putLast_le bindings []
      rw [AsRecord.bins_init, AsRecord.capacity_init, capacity, binds.length_eq]
      simpa using grown) with ⟨rec, made, gen, ttl, bins⟩
  exact ⟨rec, bindings, made, gen, ttl, binds, bins⟩

theorem mem_normHash {hash : List (RbVal × RbVal)} {entry : CStr × RbVal}
    (member : entry ∈ normHash rt hash) :
    ∃ source ∈ hash, entry = (binName rt source.1, norm rt source.2) := by
  rw [normHash, normEntries_eq] at member
  rcases AssocList.mem_of_mem_foldl_put (fun map _ => map.length) member with none | made
  · simp at none
  · rcases List.mem_map.mp made with ⟨source, present, rfl⟩
    exact ⟨source, present, rfl⟩

theorem length_normHash_le (rt : Runtime) (hash : List (RbVal × RbVal)) :
    (normHash rt hash).length ≤ hash.length := by
  rw [normHash, normEntries_eq]
  simpa using AssocList.length_foldl_putLast_le
    (hash.map fun entry => (binName rt entry.1, norm rt entry.2)) []

theorem named_rbStrNew2 (name : CStr) : Named rt (.string (rbStrNew2 name)) :=
  ⟨by simp, rbStrNew2 name, rfl, name.nulFree⟩

theorem encodable_norm {val : RbVal} (encodable : Encodable rt val) :
    Encodable rt (norm rt val) := by
  induction val with
  | symbol name => exact encodable
  | array elements ih =>
      rw [norm, normElements_eq]
      refine ⟨by simpa using encodable.1, encodableElements_iff.mpr ?_⟩
      intro element member
      rcases List.mem_map.mp member with ⟨source, found, rfl⟩
      exact ih source found (encodableElements_iff.mp encodable.2 source found)
  | hash entries ih =>
      refine encodableEntries_iff.mpr ?_
      intro entry member
      rcases List.mem_map.mp member with ⟨binding, present, rfl⟩
      rcases mem_normHash present with ⟨source, found, rfl⟩
      exact ⟨named_rbStrNew2 _,
        (ih source found).2 (encodableEntries_iff.mp encodable source found).2⟩
  | _ => exact encodable

/-- The norm can be stored again. -/
theorem Storable.norm {hash : List (RbVal × RbVal)} (storable : Storable rt hash) :
    Storable rt (normHash rt hash).entries := by
  have sourced : ∀ entry ∈ (normHash rt hash).entries, ∃ source ∈ hash,
      entry = (.string (rbStrNew2 (binName rt source.1)), AerospikeCRuby.norm rt source.2) := by
    intro entry member
    rcases List.mem_map.mp member with ⟨binding, present, rfl⟩
    rcases mem_normHash present with ⟨source, found, rfl⟩
    exact ⟨source, found, rfl⟩
  refine ⟨?_, ?_, ?_, ?_⟩
  · have shorter := length_normHash_le rt hash
    have size := storable.size
    rw [StrHash.entries, List.length_map]
    omega
  · intro entry member
    rcases sourced entry member with ⟨source, _, rfl⟩
    exact named_rbStrNew2 _
  · intro entry member
    rcases sourced entry member with ⟨source, found, rfl⟩
    rw [(key2binName_eq_ok.mp (key2binName_rbStrNew2 _)).2]
    exact storable.short source found
  · intro entry member
    rcases sourced entry member with ⟨source, found, rfl⟩
    rcases storable.values source found with isNil | ⟨json, isGeo⟩ | encodable
    · exact Or.inl (by simp [isNil, AerospikeCRuby.norm])
    · exact Or.inr (Or.inl ⟨json, by simp [isGeo, AerospikeCRuby.norm]⟩)
    · exact Or.inr (Or.inr (encodable_norm encodable))

/-- A Symbol as a key, a name taken twice, and values nested two deep. -/
def sampleBins : List (RbVal × RbVal) :=
  [(.symbol ⟨ascii "flag", .utf8⟩, .bool true),
    (.string ⟨ascii "list", .utf8⟩, .array [.integer 7, .symbol ⟨ascii "red", .utf8⟩]),
    (.string ⟨ascii "flag", .utf8⟩, .hash [(.integer 1, .array [.float 0, .bool false])])]

theorem sampleBins_storable : Storable Runtime.sample sampleBins := by
  have flag : Dumps Runtime.sample (.bool true) := ⟨_, rfl, by decide⟩
  have unset : Dumps Runtime.sample (.bool false) := ⟨_, rfl, by decide⟩
  have seven : Encodable Runtime.sample (.integer 7) := by
    show IsFixnum 7
    decide
  have red : Encodable Runtime.sample (.symbol ⟨ascii "red", .utf8⟩) := by
    show NulFree (ascii "red")
    decide
  have one : Named Runtime.sample (.integer 1) := ⟨by simp, _, rfl, by decide⟩
  refine ⟨by decide, ?_, ?_, ?_⟩
  · simp only [sampleBins, List.forall_mem_cons]
    exact ⟨⟨by simp, _, rfl, by decide⟩, ⟨by simp, _, rfl, by decide⟩,
      ⟨by simp, _, rfl, by decide⟩, by simp⟩
  · simp only [sampleBins, List.forall_mem_cons]
    exact ⟨by decide, by decide, by decide, by simp⟩
  · simp only [sampleBins, List.forall_mem_cons]
    refine ⟨.inr (.inr flag), .inr (.inr ⟨by decide, seven, red, trivial⟩),
      .inr (.inr ⟨⟨one, by decide, trivial, unset, trivial⟩, trivial⟩), by simp⟩

/-- `put` then `get` gives the norm, and putting the norm writes the same record. -/
theorem hash2record_record2hash (loads : rt.LoadsDumped) {hash : List (RbVal × RbVal)}
    (storable : Storable rt hash) :
    ∃ rec back again,
      hash2record rt hash (AsRecord.init hash.length) = .ok rec ∧
      record2hash rt rec = .ok back ∧
      RbVal.Same (.hash back.entries) (.hash (normHash rt hash).entries) ∧
      hash2record rt (normHash rt hash).entries (AsRecord.init (normHash rt hash).length) =
        .ok again ∧
      AsRecord.Same rec again := by
  rcases storable.exists_record with ⟨rec, bindings, made, gen, ttl, binds, bins⟩
  have toNorm : Related Eq (fun value val =>
      (∃ back, asVal2rbVal rt value = .ok back ∧ RbVal.Same back val) ∧
        ∃ again, encodeBin rt val = .ok again ∧ AsVal.Same value again)
      rec.bins (normHash rt hash) := by
    rw [bins, normHash, normEntries_eq]
    refine AssocList.related_foldl_put (by rintro _ _ _ _ rfl rfl; rfl)
      (fun bins _ => bins.length) (fun bins _ => bins.length) ?_ AssocList.related_nil
    rw [List.forall₂_map_right_iff]
    refine Aligned.refine_of_mem binds.flip ?_
    rintro binding _ entry member ⟨⟨_, name⟩, encodes⟩
    exact ⟨name.symm, decode_bin loads (storable.values entry member) encodes,
      encodeBin_norm encodes⟩
  rcases toNorm.exists_forall₂ with ⟨target, matched, perm⟩
  rcases exists_decoded (matched.imp fun _ _ both => ⟨both.1, both.2.1⟩) with ⟨back, decoded, same⟩
  rcases storable.norm.exists_record with ⟨again, bindings', made', gen', ttl', binds', bins'⟩
  refine ⟨rec, back, again, made, record2hash_eq_ok.mpr decoded, same_entries same perm, ?_, ?_⟩
  · rwa [StrHash.entries, List.length_map] at made'
  · have inOrder := AssocList.keys_eq_of_forall₂ (List.forall₂_map_left_iff.mp binds')
      fun entry binding bound => by
        rw [← bound.1.2]
        exact (key2binName_eq_ok.mp (key2binName_rbStrNew2 entry.1)).2.symm
    have nodup : (keys ([] ++ bindings')).Nodup := by
      rw [List.nil_append, ← inOrder]
      exact nodup_normEntries hash
    rw [AssocList.foldl_putLast_of_nodup [] bindings' nodup, List.nil_append] at bins'
    have fromNorm : Related Eq (fun val value => encodeBin rt val = .ok value)
        (normHash rt hash) again.bins := by
      rw [bins']
      refine AssocList.related_of_forall₂ ((List.forall₂_map_left_iff.mp binds').imp ?_)
      rintro entry binding ⟨⟨_, name⟩, encodes⟩
      rw [(key2binName_eq_ok.mp (key2binName_rbStrNew2 entry.1)).2] at name
      exact ⟨name, encodes⟩
    rcases toNorm.trans fromNorm with ⟨middle, perm', aligned⟩
    refine ⟨⟨middle, perm', aligned.imp ?_⟩, by rw [gen, gen'], by rw [ttl, ttl']⟩
    rintro bin bin' ⟨⟨_, here, there⟩, val, ⟨_, value, encodes, sameValue⟩, encodes'⟩
    rw [encodes, Except.ok.injEq] at encodes'
    subst encodes'
    exact ⟨here.trans there, sameValue⟩

theorem hash2record_record2hash_sample :
    ∃ rec back again,
      hash2record Runtime.sample sampleBins (AsRecord.init 3) = .ok rec ∧
      record2hash Runtime.sample rec = .ok back ∧
      RbVal.Same (.hash back.entries)
        (.hash (normHash Runtime.sample sampleBins).entries) ∧
      hash2record Runtime.sample (normHash Runtime.sample sampleBins).entries
        (AsRecord.init (normHash Runtime.sample sampleBins).length) = .ok again ∧
      AsRecord.Same rec again :=
  hash2record_record2hash Runtime.sample_loadsDumped sampleBins_storable

/-- A Symbol with a NUL is refused like a String with one. -/
theorem hash2record_symbol_nul :
    hash2record Runtime.sample
        [(.string ⟨ascii "a", .utf8⟩, .symbol ⟨ascii "b" ++ [0], .utf8⟩)] (AsRecord.init 1) =
      .error (.argumentError "string contains null byte") := by
  rfl

end AerospikeCRuby
