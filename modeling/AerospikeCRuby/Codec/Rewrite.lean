import AerospikeCRuby.Codec.RoundTrip

/-!
# Reading a record and writing it back

The converse of the round trip.  A record written by another client may hold
values which the decoder turns into something else, so the values which survive
are described on the client's side: `Rewritable` for a value anywhere, and nil
and GeoJSON besides for the value of a bin.
-/

namespace AerospikeCRuby

open AssocList (Related keys)

variable {rt : Runtime}

/-- A blob which `Marshal` loads as a value that is dumped again, to the same bytes. -/
def Redumps (rt : Runtime) (data : Bytes) : Prop :=
  data.length < 2 ^ 31 ∧ ∃ val, rt.load data = .ok val ∧ rt.dump val = .ok data ∧
    ((∃ value, val = .bool value) ∨ ∃ state, val = .object state)

mutual

/-- The values which a list or a map may hold for them to be written back as they were. -/
def Rewritable (rt : Runtime) : AsVal → Prop
  | .integer value => IsFixnum value.toInt
  | .double _ => True
  | .string buffer => NulFree buffer
  | .bytes .ruby data => Redumps rt data
  | .list elements => elements.length < 2 ^ 31 ∧ RewritableElements rt elements
  | .map pairs => (keys pairs).Nodup ∧ RewritablePairs rt pairs
  | _ => False

def RewritableElements (rt : Runtime) : List AsVal → Prop
  | [] => True
  | element :: rest => Rewritable rt element ∧ RewritableElements rt rest

def RewritablePairs (rt : Runtime) : List (AsVal × AsVal) → Prop
  | [] => True
  | (key, value) :: rest =>
      ((∃ name : CStr, KeyedBy key name) ∧ Rewritable rt value) ∧ RewritablePairs rt rest

end

/-- The values of bins which are written back as they were. -/
def RewritableBin (rt : Runtime) (value : AsVal) : Prop :=
  value = .nil ∨ (∃ buffer, value = .geojson buffer ∧ NulFree buffer) ∨ Rewritable rt value

theorem rewritableElements_iff {elements : List AsVal} :
    RewritableElements rt elements ↔ ∀ element ∈ elements, Rewritable rt element := by
  induction elements with
  | nil => simp [RewritableElements]
  | cons element rest ih => simp [RewritableElements, ih]

theorem rewritablePairs_iff {pairs : List (AsVal × AsVal)} :
    RewritablePairs rt pairs ↔
      ∀ pair ∈ pairs, (∃ name : CStr, KeyedBy pair.1 name) ∧ Rewritable rt pair.2 := by
  induction pairs with
  | nil => simp [RewritablePairs]
  | cons pair rest ih => simp [RewritablePairs, ih]

/-- A value read as a Ruby value which is encoded to it again. -/
def Rewrites (rt : Runtime) (value : AsVal) (val : RbVal) : Prop :=
  asVal2rbVal rt value = .ok val ∧
    ∃ again, array2asListElement rt val = .ok again ∧ AsVal.Same value again

/-- A map whose pairs are read into this Hash, entry for entry. -/
theorem rewrites_map {pairs : List (AsVal × AsVal)} {hash : StrHash}
    (distinct : (keys pairs).Nodup)
    (aligned : List.Forall₂ (fun pair entry => KeyedBy pair.1 entry.1 ∧ Rewrites rt pair.2 entry.2)
      pairs hash) :
    Rewrites rt (.map pairs) (.hash hash.entries) := by
  have related : Related KeyedBy (Rewrites rt) pairs hash := AssocList.related_of_forall₂ aligned
  have nodup : (keys hash).Nodup := related.nodup_right keyedBy_lawful distinct
  constructor
  · rw [asVal2rbVal, asHashmap2hashFrom_eq, ExceptLoop.bind_eq_ok]
    refine ⟨hash, ExceptLoop.accumulate_eq_ok.mpr ⟨hash, aligned.imp ?_, ?_⟩, rfl⟩
    · rintro pair entry ⟨keyed, decoded, _⟩
      rw [decodePair, keyed, decoded]
      simp [pairName, asStringFromval, bind, Except.bind]
    · exact AssocList.foldl_putLast_of_nodup [] hash (by simpa using nodup)
  · have encodable : ∀ entry ∈ hash, ∃ value, array2asListElement rt entry.2 = .ok value := by
      intro entry member
      rcases Aligned.exists_of_mem aligned.flip member with ⟨_, _, _, _, again, encoded, _⟩
      exact ⟨again, encoded⟩
    rcases encode_strHash nodup encodable with ⟨pairs', encoded, fromHash⟩
    refine ⟨.map pairs', encoded, AsVal.Same.map_of_related ?_⟩
    rcases related.trans fromHash.symm with ⟨middle, perm, matched⟩
    refine ⟨middle, perm, matched.imp ?_⟩
    rintro pair pair' ⟨⟨name, keyed, keyed'⟩, val, ⟨_, again, encodedVal, same⟩, encodedVal'⟩
    rw [encodedVal, Except.ok.injEq] at encodedVal'
    subst encodedVal'
    rw [show pair'.1 = pair.1 from Eq.trans keyed' (Eq.symm keyed)]
    exact ⟨.refl _, same⟩

theorem exists_rewrites {value : AsVal} (rewritable : Rewritable rt value) :
    ∃ val, Rewrites rt value val := by
  induction value with
  | integer value =>
      have fixnum : IsFixnum value.toInt := rewritable
      refine ⟨.integer value.toInt, ?_, .integer value, ?_, .refl _⟩
      · rw [asVal2rbVal, long2fix_of_fixnum fixnum]
      · rw [array2asListElement, if_pos fixnum, fix2long, BitVec.ofInt_toInt]
  | double bits => exact ⟨.float bits, rfl, _, rfl, .refl _⟩
  | string buffer =>
      have free : NulFree buffer := rewritable
      have sameBytes : (checkAndForceEncoding rt (rbStrNew2 (cstr buffer))).bytes = buffer := by
        rw [cstr_of_nulFree free]
        unfold checkAndForceEncoding
        cases rt.encoding <;> rfl
      refine ⟨_, rfl, .string buffer, ?_, .refl _⟩
      rw [array2asListElement, stringValueCStr_of_nulFree (by rwa [sameBytes])]
      exact congrArg (fun bytes => Except.ok (AsVal.string bytes)) sameBytes
  | bytes type data =>
      cases type with
      | ruby =>
          rcases rewritable with ⟨short, val, loaded, dumped, kind⟩
          refine ⟨val, ?_, .bytes .ruby data, ?_, .refl _⟩
          · rw [asVal2rbVal, asBytesToRbObj, map_byteOfInt_stringBytes, loaded]
          · have encoded := rbObjToAsBytes_eq_ok.mpr ⟨data, dumped, short, rfl⟩
            rcases kind with ⟨_, rfl⟩ | ⟨_, rfl⟩ <;> exact encoded
      | other code => exact absurd rewritable (by simp [Rewritable])
  | list elements ih =>
      rcases rewritable with ⟨short, each⟩
      rw [rewritableElements_iff] at each
      rcases Aligned.exists_images
          fun element member => ih element member (each element member) with ⟨vals, aligned⟩
      obtain ⟨values, encoded, same⟩ : ∃ values,
          List.Forall₂ (fun val value => array2asListElement rt val = .ok value) vals values ∧
            List.Forall₂ AsVal.Same elements values := by
        clear ih each short
        induction aligned with
        | nil => exact ⟨[], .nil, .nil⟩
        | cons here _ rest =>
            rcases here with ⟨_, again, encoded, same⟩
            rcases rest with ⟨values, encodedRest, sameRest⟩
            exact ⟨again :: values, .cons encoded encodedRest, .cons same sameRest⟩
      refine ⟨.array vals, ?_, .list values, ?_, .list same⟩
      · rw [asVal2rbVal, asList2arrayFrom_eq,
          ExceptLoop.collect_eq_ok.mpr (aligned.imp fun _ _ both => both.1)]
        rfl
      · exact element_array_eq_ok.mpr ⟨by rwa [← aligned.length_eq], values, encoded, rfl⟩
  | map pairs ih =>
      rcases rewritable with ⟨distinct, each⟩
      rw [rewritablePairs_iff] at each
      have bound : ∀ pair ∈ pairs, ∃ entry : CStr × RbVal,
          KeyedBy pair.1 entry.1 ∧ Rewrites rt pair.2 entry.2 := by
        intro pair member
        rcases each pair member with ⟨⟨name, keyed⟩, inner⟩
        rcases (ih pair member).2 inner with ⟨val, rewrites⟩
        exact ⟨(name, val), keyed, rewrites⟩
      rcases Aligned.exists_images bound with ⟨hash, aligned⟩
      exact ⟨_, rewrites_map distinct aligned⟩
  | null | undef | nil | boolean | record | pair | geojson => exact rewritable.elim

theorem exists_rewrites_bin {value : AsVal} (rewritable : RewritableBin rt value) :
    ∃ val again, asVal2rbVal rt value = .ok val ∧ encodeBin rt val = .ok again ∧
      AsVal.Same value again := by
  rcases rewritable with rfl | ⟨buffer, rfl, free⟩ | rewritable
  · exact ⟨.nil, .nil, rfl, rfl, .refl _⟩
  · refine ⟨.geoJson (cstr buffer), .geojson buffer, rfl, ?_, .refl _⟩
    rw [cstr_of_nulFree free]
    rfl
  · rcases exists_rewrites rewritable with ⟨val, decoded, again, encoded, same⟩
    exact ⟨val, again, decoded, encodeBin_of_element encoded, same⟩

/-- `get` then `put` changes no bin of a record whose values can be rewritten. -/
theorem record2hash_hash2record {record : AsRecord}
    (rewritable : ∀ bin ∈ record.bins, RewritableBin rt bin.2) :
    ∃ hash again, record2hash rt record = .ok hash ∧
      hash2record rt hash.entries (AsRecord.init hash.length) = .ok again ∧
      Related Eq AsVal.Same record.bins again.bins := by
  have bound : ∀ bin ∈ record.bins, ∃ step : (CStr × RbVal) × (CStr × AsVal),
      bin.1 = step.1.1 ∧ bin.1 = step.2.1 ∧ asVal2rbVal rt bin.2 = .ok step.1.2 ∧
        encodeBin rt step.1.2 = .ok step.2.2 ∧ AsVal.Same bin.2 step.2.2 := by
    intro bin member
    rcases exists_rewrites_bin (rewritable bin member) with ⟨val, again, decoded, encodes, same⟩
    exact ⟨((bin.1, val), (bin.1, again)), rfl, rfl, decoded, encodes, same⟩
  rcases Aligned.exists_images bound with ⟨steps, aligned⟩
  have sameKeys : keys record.bins = keys (steps.map Prod.snd) :=
    AssocList.keys_eq_of_forall₂ (List.forall₂_map_right_iff.mpr (aligned.imp
      fun _ _ step => step.2.1)) fun _ _ same => same
  have inOrder : (steps.map Prod.snd).foldl
      (fun bins binding => AssocList.putLast bins binding.1 binding.2) [] =
      steps.map Prod.snd :=
    AssocList.foldl_putLast_of_nodup [] _ (by simpa [← sameKeys] using record.distinct)
  have binds : List.Forall₂ (Binds rt) (StrHash.entries (steps.map Prod.fst))
      (steps.map Prod.snd) := by
    simp only [StrHash.entries, List.forall₂_map_left_iff, List.forall₂_map_right_iff,
      List.forall₂_same]
    intro step member
    rcases Aligned.exists_of_mem aligned.flip member with ⟨bin, _, name, name', _, encodes, _⟩
    rcases key2binName_eq_ok.mp (@key2binName_rbStrNew2 rt step.1.1) with ⟨named, same⟩
    exact ⟨⟨named, by rw [same, ← name, name']⟩, encodes⟩
  have short : ∀ binding ∈ steps.map Prod.snd, binding.1.bytes.length ≤ asBinNameMaxLen := by
    intro binding member
    refine record.named _ ?_
    rw [sameKeys]
    exact List.mem_map_of_mem member
  have size : (steps.map Prod.snd).length < 2 ^ 16 := by
    have fits := record.fits
    have addressable := record.addressable
    have length := aligned.length_eq
    rw [List.length_map]
    omega
  rcases hash2record_of_binds (AsRecord.init (steps.map Prod.fst).length) binds short (by
      rw [AsRecord.bins_init, inOrder, AsRecord.capacity_init, List.length_map, List.length_map]
      rw [List.length_map] at size
      omega) with ⟨again, made, _, _, bins⟩
  refine ⟨steps.map Prod.fst, again, record2hash_eq_ok.mpr ?_, made, ?_⟩
  · rw [List.forall₂_map_right_iff]
    exact aligned.imp fun _ _ step => ⟨step.1, step.2.2.1⟩
  · rw [bins, AsRecord.bins_init, inOrder]
    refine AssocList.related_of_forall₂ ?_
    rw [List.forall₂_map_right_iff]
    exact aligned.imp fun _ _ step => ⟨step.2.1, step.2.2.2.2⟩

def oneBin (value : AsVal) : AsRecord :=
  ((AsRecord.init 1).set (cstr (ascii "bin")) value).2

theorem record2hash_hash2record_sample :
    ∃ hash again,
      record2hash Runtime.sample
          (oneBin (.list [.integer 1, .string (ascii "red"), .bytes .ruby [4, 8, 84]])) =
        .ok hash ∧
      hash2record Runtime.sample hash.entries (AsRecord.init hash.length) = .ok again ∧
      Related Eq AsVal.Same
        (oneBin (.list [.integer 1, .string (ascii "red"), .bytes .ruby [4, 8, 84]])).bins
        again.bins := by
  refine record2hash_hash2record fun bin member => ?_
  obtain rfl : bin = (cstr (ascii "bin"),
      .list [.integer 1, .string (ascii "red"), .bytes .ruby [4, 8, 84]]) :=
    List.mem_singleton.mp member
  have one : Rewritable Runtime.sample (.integer 1) := by
    show IsFixnum (1#64).toInt
    decide
  have red : Rewritable Runtime.sample (.string (ascii "red")) := by
    show NulFree (ascii "red")
    decide
  have flag : Rewritable Runtime.sample (.bytes .ruby [4, 8, 84]) :=
    ⟨by decide, .bool true, rfl, rfl, .inl ⟨true, rfl⟩⟩
  exact .inr (.inr ⟨by decide, one, red, flag, trivial⟩)

/-- A nil in a list, which the decoder accepts, is refused on the way back, and a blob of another
client comes back as the name of its type. -/
theorem record2hash_hash2record_differs :
    (do
      let hash ← record2hash Runtime.sample (oneBin (.list [.nil]))
      hash2record Runtime.sample hash.entries (AsRecord.init hash.length)) =
        .error (.parseError "[array2as_list] Array value cannot be nil") ∧
    (do
      let hash ← record2hash Runtime.sample (oneBin (.bytes (.other 4) [1]))
      hash2record Runtime.sample hash.entries (AsRecord.init hash.length)) =
        .ok (oneBin (.string (ascii "AS_BYTES"))) := by
  exact ⟨rfl, rfl⟩

end AerospikeCRuby
