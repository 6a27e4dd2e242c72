import AerospikeCRuby.Codec.Copy
import AerospikeCRuby.Codec.Put
import AerospikeCRuby.Ruby.Text

/-!
# The global encoding

`AerospikeC.encoding` is forced on the Strings which the decoder makes of
string values.  The names of bins, the keys of maps and the names of types it
returns in place of a value stay binary, and what `Marshal.load` returns keeps
the encodings it has.  A Hash of UTF-8 Strings therefore comes back equal to
the one that was put where all its keys, at every depth, are ASCII.
-/

namespace AerospikeCRuby

open AssocList (Related keys)

/-- `AerospikeC.encoding=`. -/
def Runtime.assignEncoding (rt : Runtime) (encoding : Encoding) : Runtime :=
  { rt with encoding := some encoding }

mutual

/-- Every String in a value carries the encoding. -/
def Carries (encoding : Encoding) : RbVal → Prop
  | .string text => text.encoding = encoding
  | .array elements => CarriesElements encoding elements
  | .hash entries => CarriesEntries encoding entries
  | _ => True

def CarriesElements (encoding : Encoding) : List RbVal → Prop
  | [] => True
  | element :: rest => Carries encoding element ∧ CarriesElements encoding rest

def CarriesEntries (encoding : Encoding) : List (RbVal × RbVal) → Prop
  | [] => True
  | (key, val) :: rest =>
      (Carries encoding key ∧ Carries encoding val) ∧ CarriesEntries encoding rest

end

mutual

/-- The Ruby blobs in a value load to values with binary Strings only.  Of the pairs of a map
which are read under one name the last is kept. -/
def LoadsBinary (rt : Runtime) : AsVal → Prop
  | .bytes .ruby data => ∀ val, rt.load data = .ok val → Carries .binary val
  | .list elements => LoadsBinaryElements rt elements
  | .map pairs => LoadsBinaryPairs rt pairs
  | _ => True

def LoadsBinaryElements (rt : Runtime) : List AsVal → Prop
  | [] => True
  | element :: rest => LoadsBinary rt element ∧ LoadsBinaryElements rt rest

def LoadsBinaryPairs (rt : Runtime) : List (AsVal × AsVal) → Prop
  | [] => True
  | (key, value) :: rest =>
      ((pairName key).toOption ∉ pairNames rest → LoadsBinary rt value) ∧
        LoadsBinaryPairs rt rest

end

mutual

/-- `==` of two values made of Strings and Hashes. -/
def EqualTexts (encs : Encodings) : RbVal → RbVal → Prop
  | .string left, .string right => left.Equal encs right
  | .hash left, .hash right => left.length = right.length ∧ EqualEntries encs left right
  | _, _ => False

/-- Every entry of the one Hash is found in the other, under an equal key and with an equal
value. -/
def EqualEntries (encs : Encodings) :
    List (RbVal × RbVal) → List (RbVal × RbVal) → Prop
  | [], _ => True
  | (key, val) :: rest, right =>
      (∃ entry ∈ right, EqualTexts encs key entry.1 ∧ EqualTexts encs val entry.2) ∧
        EqualEntries encs rest right

end

/-- The values made of UTF-8 Strings and of Hashes with such Strings as their keys. -/
inductive OfUtf8 : RbVal → Prop
  | string {text : RbStr} : text.encoding = .utf8 → OfUtf8 (.string text)
  | hash {entries : List (RbVal × RbVal)} : (keys entries).Nodup →
      (∀ entry ∈ entries, ∃ text, entry.1 = .string text ∧ text.encoding = .utf8) →
      (∀ entry ∈ entries, OfUtf8 entry.2) → OfUtf8 (.hash entries)

mutual

/-- The keys of a Hash, and of the Hashes in it, are ASCII. -/
def AsciiKeys : RbVal → Prop
  | .hash entries => AsciiKeysEntries entries
  | _ => True

def AsciiKeysEntries : List (RbVal × RbVal) → Prop
  | [] => True
  | (key, val) :: rest =>
      ((∀ text, key = .string text → AsciiOnly text.bytes) ∧ AsciiKeys val) ∧
        AsciiKeysEntries rest

end

section Lists

variable {rt : Runtime} {encs : Encodings} {encoding : Encoding}

theorem carriesElements_iff {elements : List RbVal} :
    CarriesElements encoding elements ↔ ∀ element ∈ elements, Carries encoding element := by
  induction elements with
  | nil => simp [CarriesElements]
  | cons element rest ih => simp [CarriesElements, ih]

theorem carriesEntries_iff {entries : List (RbVal × RbVal)} :
    CarriesEntries encoding entries ↔
      ∀ entry ∈ entries, Carries encoding entry.1 ∧ Carries encoding entry.2 := by
  induction entries with
  | nil => simp [CarriesEntries]
  | cons entry rest ih => simp [CarriesEntries, ih]

theorem loadsBinaryElements_iff {elements : List AsVal} :
    LoadsBinaryElements rt elements ↔ ∀ element ∈ elements, LoadsBinary rt element := by
  induction elements with
  | nil => simp [LoadsBinaryElements]
  | cons element rest ih => simp [LoadsBinaryElements, ih]

theorem loadsBinaryPairs_iff {pairs : List (AsVal × AsVal)} :
    LoadsBinaryPairs rt pairs ↔
      ∀ before pair after, pairs = before ++ pair :: after →
        (pairName pair.1).toOption ∉ pairNames after → LoadsBinary rt pair.2 := by
  induction pairs with
  | nil => simp [LoadsBinaryPairs]
  | cons first rest ih =>
      rw [LoadsBinaryPairs, ih, AssocList.forall_split_cons (P := fun pair after =>
        (pairName pair.1).toOption ∉ pairNames after → LoadsBinary rt pair.2)]

theorem equalEntries_iff {left right : List (RbVal × RbVal)} :
    EqualEntries encs left right ↔ ∀ entry ∈ left, ∃ other ∈ right,
      EqualTexts encs entry.1 other.1 ∧ EqualTexts encs entry.2 other.2 := by
  induction left with
  | nil => simp [EqualEntries]
  | cons entry rest ih => simp [EqualEntries, ih]

theorem asciiKeysEntries_iff {entries : List (RbVal × RbVal)} :
    AsciiKeysEntries entries ↔ ∀ entry ∈ entries,
      (∀ text, entry.1 = .string text → AsciiOnly text.bytes) ∧ AsciiKeys entry.2 := by
  induction entries with
  | nil => simp [AsciiKeysEntries]
  | cons entry rest ih => simp [AsciiKeysEntries, ih]

end Lists

section Carrying

variable {rt : Runtime} {encoding : Encoding}

/-- The keys of a Hash made by `rb_str_new2` are binary. -/
theorem carries_strHash {hash : StrHash} :
    Carries encoding (.hash hash.entries) ↔
      ∀ entry ∈ hash, .binary = encoding ∧ Carries encoding entry.2 := by
  rw [Carries, carriesEntries_iff, StrHash.entries, List.forall_mem_map]
  rfl

/-- Of the pairs read under one name the last enters the Hash. -/
theorem mem_decoded_map {pairs : List (AsVal × AsVal)} {name : AsVal × AsVal → CStr}
    (image : AsVal × AsVal → RbVal)
    (named : ∀ pair ∈ pairs, pairName pair.1 = .ok (name pair)) {entry : CStr × RbVal} :
    entry ∈ (pairs.map fun pair => (name pair, image pair)).foldl
        (fun hash entry => AssocList.putLast hash entry.1 entry.2) [] ↔
      ∃ before pair after, pairs = before ++ pair :: after ∧
        (pairName pair.1).toOption ∉ pairNames after ∧ (name pair, image pair) = entry := by
  have keysAfter (after : List (AsVal × AsVal)) :
      keys (after.map fun pair => (name pair, image pair)) = after.map name := by
    rw [keys, List.map_map]
    rfl
  have lastOne {before after : List (AsVal × AsVal)} {pair : AsVal × AsVal}
      (split : pairs = before ++ pair :: after) :
      (pairName pair.1).toOption ∉ pairNames after ↔ name pair ∉ after.map name := by
    rw [not_mem_names (named pair (by simp [split]))
      fun other present => named other (by simp [split, present])]
  refine (AssocList.mem_foldl_put fun hash _ => hash.length).trans ?_
  constructor
  · rintro ⟨front, back, split, last⟩
    rcases List.map_eq_append_iff.mp split with ⟨before, rest, rfl, rfl, here⟩
    rcases List.map_eq_cons_iff.mp here with ⟨pair, after, rfl, rfl, rfl⟩
    rw [keysAfter] at last
    exact ⟨before, pair, after, rfl, (lastOne rfl).mpr last, rfl⟩
  · rintro ⟨before, pair, after, split, last, rfl⟩
    refine ⟨_, _, by rw [split, List.map_append, List.map_cons], ?_⟩
    rw [keysAfter]
    exact (lastOne split).mp last

/-- With binary Strings forced, only a Ruby blob can bring a String of another encoding. -/
theorem carries_decoded_iff (forcing : rt.encoding = some .binary) {value : AsVal} {val : RbVal}
    (decoded : asVal2rbVal rt value = .ok val) :
    Carries .binary val ↔ LoadsBinary rt value := by
  induction value generalizing val with
  | string buffer =>
      cases decoded
      refine iff_of_true ?_ trivial
      rw [Carries, checkAndForceEncoding, forcing]
  | list elements ih =>
      rw [asVal2rbVal, asList2arrayFrom_eq, ExceptLoop.bind_eq_ok] at decoded
      rcases decoded with ⟨ary, collected, made⟩
      rcases Except.ok.inj made with rfl
      have aligned := ExceptLoop.collect_eq_ok.mp collected
      rw [Carries, carriesElements_iff, LoadsBinary, loadsBinaryElements_iff]
      constructor
      · intro carries element member
        rcases Aligned.exists_of_mem aligned member with ⟨val, present, decoded⟩
        exact (ih element member decoded).mp (carries val present)
      · intro loads val present
        rcases Aligned.exists_of_mem aligned.flip present with ⟨element, member, decoded⟩
        exact (ih element member decoded).mpr (loads element member)
  | map pairs ih =>
      have read : ∀ pair ∈ pairs, (∃ name, pairName pair.1 = .ok name) ∧
          ∃ inner, asVal2rbVal rt pair.2 = .ok inner :=
        fun _ member => decode_pair_of_mem decoded member
      choose! name named using fun pair member => (read pair member).1
      choose! image images using fun pair member => (read pair member).2
      rw [decode_map_eq named images, Except.ok.injEq] at decoded
      subst decoded
      rw [carries_strHash, LoadsBinary, loadsBinaryPairs_iff]
      constructor
      · intro carries before pair after split last
        have member : pair ∈ pairs := by simp [split]
        have kept := carries _ ((mem_decoded_map image named).mpr
          ⟨before, pair, after, split, last, rfl⟩)
        exact ((ih pair member).2 (images pair member)).mp kept.2
      · intro loads entry kept
        rcases (mem_decoded_map image named).mp kept with ⟨before, pair, after, split, last, rfl⟩
        have member : pair ∈ pairs := by simp [split]
        exact ⟨rfl, ((ih pair member).2 (images pair member)).mpr
          (loads before pair after split last)⟩
  | bytes type data =>
      cases type with
      | ruby =>
          rw [asVal2rbVal, asBytesToRbObj, map_byteOfInt_stringBytes] at decoded
          simp [LoadsBinary, decoded]
      | other code =>
          cases decoded
          exact iff_of_true rfl trivial
  | null => cases decoded
  | undef | boolean | record | pair =>
      cases decoded
      exact iff_of_true rfl trivial
  | nil | integer | double | geojson =>
      cases decoded
      exact iff_of_true trivial trivial

/-- Every String of a Hash read from a record carries the encoding. -/
theorem carries_record2hash_iff (rt : Runtime) (encoding : Encoding) (record : AsRecord) :
    (∀ hash, record2hash (rt.assignEncoding encoding) record = .ok hash →
        Carries encoding (.hash hash.entries)) ↔
      (∃ bin ∈ record.bins, ¬Readable (rt.assignEncoding encoding) bin.2) ∨
        ∀ bin ∈ record.bins,
          .binary = encoding ∧ LoadsBinary (rt.assignEncoding encoding) bin.2 := by
  by_cases readable : ∀ bin ∈ record.bins, Readable (rt.assignEncoding encoding) bin.2
  · rcases record2hash_iff_readable.mpr readable with ⟨hash, read⟩
    have refused : ¬∃ bin ∈ record.bins, ¬Readable (rt.assignEncoding encoding) bin.2 := by
      push Not
      exact readable
    have onlyHash : (∀ hash, record2hash (rt.assignEncoding encoding) record = .ok hash →
        Carries encoding (.hash hash.entries)) ↔ Carries encoding (.hash hash.entries) := by
      constructor
      · intro carries
        exact carries hash read
      · intro carries other readOther
        rw [read] at readOther
        rcases Except.ok.inj readOther with rfl
        exact carries
    rw [onlyHash, or_iff_right refused, carries_strHash]
    have aligned := record2hash_eq_ok.mp read
    constructor
    · intro carries bin member
      rcases Aligned.exists_of_mem aligned member with ⟨entry, present, _, decoded⟩
      rcases carries entry present with ⟨rfl, inner⟩
      exact ⟨rfl, (carries_decoded_iff rfl decoded).mp inner⟩
    · intro loads entry present
      rcases Aligned.exists_of_mem aligned.flip present with ⟨bin, member, _, decoded⟩
      rcases loads bin member with ⟨rfl, inner⟩
      exact ⟨rfl, (carries_decoded_iff rfl decoded).mpr inner⟩
  · have refused : ∃ bin ∈ record.bins, ¬Readable (rt.assignEncoding encoding) bin.2 := by
      push Not at readable
      exact readable
    refine iff_of_true (fun hash read => ?_) (Or.inl refused)
    exact absurd (record2hash_iff_readable.mp ⟨hash, read⟩) readable

end Carrying

section Equality

variable {rt : Runtime} {encs : Encodings}

/-- A binary copy of a UTF-8 String equals it where it is ASCII. -/
theorem equal_rbStrNew2_iff {name : CStr} {text : RbStr} (utf8 : text.encoding = .utf8) :
    (rbStrNew2 name).Equal encs text ↔ name.bytes = text.bytes ∧ AsciiOnly text.bytes := by
  have differ : Encoding.binary ≠ .utf8 := by decide
  simp only [RbStr.Equal, rbStrNew2, utf8, differ, false_or, encs.asciiCompatible_binary,
    encs.asciiCompatible_utf8, and_true]
  constructor
  · rintro ⟨same, empty | ascii⟩
    · rw [← same, empty]
      exact ⟨rfl, fun _ member => nomatch member⟩
    · exact ⟨same, same ▸ ascii⟩
  · rintro ⟨same, ascii⟩
    exact ⟨same, Or.inr (same ▸ ascii)⟩

/-- The UTF-8 String of this name. -/
def Utf8Key (key : RbVal) (name : CStr) : Prop :=
  key = .string ⟨name.bytes, .utf8⟩

theorem utf8Key_lawful {key key' : RbVal} {name name' : CStr} (keyed : Utf8Key key name)
    (keyed' : Utf8Key key' name') : key = key' ↔ name = name' := by
  subst keyed keyed'
  rcases name with ⟨bytes, _⟩
  rcases name' with ⟨bytes', _⟩
  simp

theorem equal_utf8Key_iff {key : RbVal} {name other : CStr} (keyed : Utf8Key key name) :
    EqualTexts encs (.string (rbStrNew2 other)) key ↔
      other.bytes = name.bytes ∧ AsciiOnly name.bytes := by
  rw [keyed, EqualTexts]
  exact equal_rbStrNew2_iff rfl

/-- What is read back of an entry. -/
def ReadsBack (encs : Encodings) (entry : RbVal × RbVal) (image : CStr × RbVal) : Prop :=
  Utf8Key entry.1 image.1 ∧ (EqualTexts encs image.2 entry.2 ↔ AsciiKeys entry.2)

/-- The keys read back are distinct, since those of the Hash are. -/
theorem nodup_images {entries : List (RbVal × RbVal)} {images : StrHash}
    (nodup : (keys entries).Nodup) (aligned : List.Forall₂ (ReadsBack encs) entries images) :
    (keys images).Nodup :=
  (AssocList.related_of_forall₂ (R := fun val back => EqualTexts encs back val ↔ AsciiKeys val)
    aligned).nodup_right utf8Key_lawful nodup

/-- A Hash of UTF-8 Strings equals what is read back where its keys are ASCII. -/
theorem equal_entries_iff {entries : List (RbVal × RbVal)} {images back : StrHash}
    (nodup : (keys entries).Nodup) (aligned : List.Forall₂ (ReadsBack encs) entries images)
    (perm : back.Perm images) :
    EqualTexts encs (.hash back.entries) (.hash entries) ↔ AsciiKeys (.hash entries) := by
  have size : back.entries.length = entries.length := by
    rw [StrHash.entries, List.length_map, perm.length_eq, aligned.length_eq]
  rw [EqualTexts, AsciiKeys, asciiKeysEntries_iff, and_iff_right size, equalEntries_iff,
    StrHash.entries, List.forall_mem_map]
  constructor
  · intro equal entry member
    rcases Aligned.exists_of_mem aligned member with ⟨image, present, key, value⟩
    rcases equal image (perm.mem_iff.mpr present) with ⟨other, found, sameKey, sameValue⟩
    rcases Aligned.exists_of_mem aligned found with ⟨image', _, key', _⟩
    rw [equal_utf8Key_iff key'] at sameKey
    -- The keys of the Hash are distinct, so an image equals no entry but its own.
    have same : other = entry := by
      apply List.inj_on_of_nodup_map nodup found member
      rw [key, key', sameKey.1]
    subst same
    refine ⟨?_, value.mp sameValue⟩
    intro text isText
    rw [key', RbVal.string.injEq] at isText
    subst isText
    exact sameKey.2
  · intro ascii image present
    rcases Aligned.exists_of_mem aligned.flip (perm.mem_iff.mp present) with
      ⟨entry, member, key, value⟩
    refine ⟨entry, member, ?_, value.mpr (ascii entry member).2⟩
    rw [equal_utf8Key_iff key]
    exact ⟨rfl, (ascii entry member).1 _ key⟩

theorem utf8Key_of_nameable {key : RbVal}
    (utf8 : ∃ text, key = .string text ∧ text.encoding = .utf8) (named : Nameable rt key) :
    Utf8Key key (binName rt key) := by
  rcases utf8 with ⟨⟨bytes, encoding⟩, rfl, rfl⟩
  rcases named with ⟨_, text, called, readable⟩
  rcases Except.ok.inj called with rfl
  have free := (RbStr.readable_iff_of_narrow rfl).mp readable
  rw [Utf8Key, binName, Runtime.toS_string]
  simp only [cstr_of_nulFree free]

/-- A value of UTF-8 Strings comes back with its Strings forced and its keys binary. -/
theorem exists_readBack (encs : Encodings) (forcing : rt.encoding = some .utf8) {val : RbVal}
    {value : AsVal} (utf8 : OfUtf8 val) (encoded : array2asListElement rt val = .ok value) :
    ∃ back, asVal2rbVal rt value = .ok back ∧
      (EqualTexts encs back val ↔ AsciiKeys val) := by
  induction utf8 generalizing value with
  | @string text encoding =>
      simp only [array2asListElement, ExceptLoop.bind_eq_ok, Except.ok.injEq] at encoded
      rcases encoded with ⟨str, converted, rfl⟩
      rcases stringValueCStr_eq_ok_iff.mp converted with ⟨readable, rfl⟩
      have narrow : text.encoding.mbminlen = 1 := by
        rw [encoding]
        rfl
      have free := (RbStr.readable_iff_of_narrow narrow).mp readable
      refine ⟨_, rfl, iff_of_true ?_ trivial⟩
      rw [cstr_bytes, EqualTexts, checkAndForceEncoding, forcing, RbStr.Equal]
      rw [cstr_of_nulFree free]
      exact ⟨rfl, Or.inr (Or.inl encoding.symm)⟩
  | @hash entries nodup keyed _ ih =>
      rcases element_hash_eq_ok.mp encoded with ⟨settings, converted, rfl⟩
      have images : ∀ entry ∈ entries, ∀ setting, encodeEntry rt entry = .ok setting →
          ∃ image : CStr × RbVal, ReadsBack encs entry image ∧
            (setting.1 = image.1 ∧ asVal2rbVal rt setting.2 = .ok image.2) := by
        intro entry member setting made
        rcases encodeEntry_eq_ok.mp made with ⟨⟨named, name⟩, valued⟩
        rcases ih entry member valued with ⟨back, decoded, same⟩
        exact ⟨(binName rt entry.1, back), ⟨utf8Key_of_nameable (keyed entry member) named, same⟩,
          name.symm, decoded⟩
      rcases Aligned.exists_shared converted images with ⟨images, aligned, decoded⟩
      have nodupImages := nodup_images nodup aligned
      have related := related_asStringmapSet rt entries.length
        (R := fun value val => asVal2rbVal rt value = .ok val) decoded
      rw [AssocList.foldl_putLast_of_nodup [] images nodupImages, List.nil_append] at related
      rcases related.exists_forall₂ with ⟨back, matched, perm⟩
      have nodupBack : (keys back).Nodup := (perm.map Prod.fst).nodup_iff.mpr nodupImages
      exact ⟨_, decode_map_of_forall₂ nodupBack matched, equal_entries_iff nodup aligned perm⟩

end Equality

section Records

variable {rt : Runtime} {encs : Encodings} {hash : List (RbVal × RbVal)}

/-- The Hash that is put comes back equal to it. -/
def ComesBack (rt : Runtime) (encs : Encodings) (hash : List (RbVal × RbVal)) : Prop :=
  ∀ record, hash2record rt hash (AsRecord.init hash.length) = .ok record →
    ∃ back, record2hash rt record = .ok back ∧
      EqualTexts encs (.hash back.entries) (.hash hash)

/-- Every entry gets a bin: the entries fit a record and the names are short. -/
structure StoredWhole (rt : Runtime) (hash : List (RbVal × RbVal)) : Prop where
  size : hash.length < 2 ^ 16
  short : ∀ entry ∈ hash, (binName rt entry.1).bytes.length ≤ asBinNameMaxLen

theorem element_of_encodeBin {val : RbVal} {value : AsVal} (utf8 : OfUtf8 val)
    (encodes : encodeBin rt val = .ok value) : array2asListElement rt val = .ok value := by
  cases utf8 <;> exact encodes

/-- The bins an accepted Hash asks for, and what is read of them. -/
theorem exists_images (encs : Encodings) (forcing : rt.encoding = some .utf8)
    (utf8 : OfUtf8 (.hash hash)) (taken : ∀ entry ∈ hash, Taken rt entry) :
    ∃ bindings, List.Forall₂ (Binds rt) hash bindings ∧ ∃ images,
      List.Forall₂ (ReadsBack encs) hash images ∧
        List.Forall₂ (fun binding image => binding.1 = image.1 ∧
          asVal2rbVal rt binding.2 = .ok image.2) bindings images := by
  cases utf8 with
  | hash nodup keyed values =>
      have bound : ∀ entry ∈ hash, ∃ binding, Binds rt entry binding := by
        intro entry member
        rcases taken entry member with ⟨handle, isData⟩ | ⟨named, accepted⟩
        · have impossible := values entry member
          rw [isData] at impossible
          cases impossible
        · rcases encodeBin_isOk_iff.mpr accepted with ⟨value, encodes⟩
          exact ⟨(_, value), ⟨named, rfl⟩, encodes⟩
      rcases Aligned.exists_images bound with ⟨bindings, binds⟩
      refine ⟨bindings, binds, Aligned.exists_shared binds ?_⟩
      rintro entry member binding ⟨⟨named, name⟩, encodes⟩
      rcases exists_readBack encs forcing (values entry member)
        (element_of_encodeBin (values entry member) encodes) with ⟨back, decoded, same⟩
      exact ⟨(binName rt entry.1, back), ⟨utf8Key_of_nameable (keyed entry member) named, same⟩,
        name.symm, decoded⟩

/-- A record with a bin for every entry is one that none was left out of. -/
theorem storedWhole_of_length {bindings : List (CStr × AsVal)}
    (binds : List.Forall₂ (Binds rt) hash bindings)
    (whole : ((AsRecord.init hash.length).setAll bindings).bins.length = hash.length) :
    StoredWhole rt hash := by
  have fits := ((AsRecord.init hash.length).setAll bindings).fits
  rw [whole, AsRecord.capacity_setAll, AsRecord.capacity_init] at fits
  refine ⟨?_, fun entry member => ?_⟩
  · have := Nat.mod_lt hash.length (show 0 < 2 ^ 16 by decide)
    omega
  · rcases Aligned.exists_of_mem binds member with ⟨binding, present, ⟨_, name⟩, _⟩
    have subset : keys ((AsRecord.init hash.length).setAll bindings).bins ⊆ keys bindings :=
      fun name set => (AsRecord.mem_keys_setAll set).resolve_left (by simp)
    have perm := (((AsRecord.init hash.length).setAll bindings).distinct.subperm
      subset).perm_of_length_le (by
      rw [keys, keys, List.length_map, List.length_map, whole, binds.length_eq])
    rw [name]
    exact AsRecord.named _ _ (perm.mem_iff.mpr (List.mem_map_of_mem present))

theorem bins_of_storedWhole {bindings : List (CStr × AsVal)}
    (binds : List.Forall₂ (Binds rt) hash bindings) (nodup : (keys bindings).Nodup)
    (stored : StoredWhole rt hash) :
    ((AsRecord.init hash.length).setAll bindings).bins = bindings := by
  have short : ∀ binding ∈ bindings, binding.1.bytes.length ≤ asBinNameMaxLen := by
    intro binding present
    rcases Aligned.exists_of_mem binds.flip present with ⟨entry, member, ⟨_, name⟩, _⟩
    rw [← name]
    exact stored.short entry member
  have inOrder := AssocList.foldl_putLast_of_nodup [] bindings nodup
  rw [AsRecord.bins_setAll short, AsRecord.bins_init, inOrder, List.nil_append]
  rw [AsRecord.bins_init, inOrder, List.nil_append, AsRecord.capacity_init,
    Nat.mod_eq_of_lt stored.size, binds.length_eq]

theorem comesBack_iff (encs : Encodings) (forcing : rt.encoding = some .utf8)
    (utf8 : OfUtf8 (.hash hash)) :
    ComesBack rt encs hash ↔
      (∃ entry ∈ hash, ¬Taken rt entry) ∨ StoredWhole rt hash ∧ AsciiKeys (.hash hash) := by
  by_cases taken : ∀ entry ∈ hash, Taken rt entry
  · have accepted : ¬∃ entry ∈ hash, ¬Taken rt entry := by
      push Not
      exact taken
    rcases exists_images encs forcing utf8 taken with ⟨bindings, binds, images, aligned, decoded⟩
    have made := hash2record_eq_setAll (AsRecord.init hash.length) binds
    cases utf8 with
    | hash nodup _ _ =>
        have nodupImages := nodup_images nodup aligned
        have sameKeys := AssocList.keys_eq_of_forall₂ decoded fun _ _ both => both.1
        rw [or_iff_right accepted]
        constructor
        · intro comes
          rcases comes _ made with ⟨back, read, equal⟩
          have whole : ((AsRecord.init hash.length).setAll bindings).bins.length =
              hash.length := by
            rw [(record2hash_eq_ok.mp read).length_eq]
            simpa [StrHash.entries] using equal.1
          have stored := storedWhole_of_length binds whole
          refine ⟨stored, ?_⟩
          have bins := bins_of_storedWhole binds (sameKeys ▸ nodupImages) stored
          have readImages : record2hash rt ((AsRecord.init hash.length).setAll bindings) =
              .ok images := record2hash_eq_ok.mpr (bins.symm ▸ decoded)
          rw [readImages, Except.ok.injEq] at read
          subst read
          exact (equal_entries_iff nodup aligned (List.Perm.refl _)).mp equal
        · rintro ⟨stored, ascii⟩ record filled
          rw [made, Except.ok.injEq] at filled
          subst filled
          have bins := bins_of_storedWhole binds (sameKeys ▸ nodupImages) stored
          exact ⟨images, record2hash_eq_ok.mpr (bins.symm ▸ decoded),
            (equal_entries_iff nodup aligned (List.Perm.refl _)).mpr ascii⟩
  · push Not at taken
    refine iff_of_true (fun record made => ?_) (Or.inl taken)
    rcases taken with ⟨entry, member, refused⟩
    rcases hash2record_eq_ok.mp made with ⟨settings, sets, _⟩
    rcases Aligned.exists_of_mem sets member with ⟨setting, _, here⟩
    exact absurd (binSets_iff_taken.mp ⟨setting, here⟩) refused

end Records

/-- When the encoding reaches every String of the Hash read from a record, and when a Hash of
UTF-8 Strings comes back equal to the one that was put. -/
theorem encoding_applies_iff (rt : Runtime) (encs : Encodings) (encoding : Encoding)
    (record : AsRecord) {hash : List (RbVal × RbVal)} (utf8 : OfUtf8 (.hash hash)) :
    ((∀ back, record2hash (rt.assignEncoding encoding) record = .ok back →
        Carries encoding (.hash back.entries)) ↔
      (∃ bin ∈ record.bins, ¬Readable (rt.assignEncoding encoding) bin.2) ∨
        ∀ bin ∈ record.bins,
          .binary = encoding ∧ LoadsBinary (rt.assignEncoding encoding) bin.2) ∧
      (ComesBack (rt.assignEncoding .utf8) encs hash ↔
        (∃ entry ∈ hash, ¬Taken (rt.assignEncoding .utf8) entry) ∨
          StoredWhole (rt.assignEncoding .utf8) hash ∧ AsciiKeys (.hash hash)) :=
  ⟨carries_record2hash_iff rt encoding record, comesBack_iff encs rfl utf8⟩

/-- `{"ż" => "ł"}`. -/
def polishBins : List (RbVal × RbVal) :=
  [(.string ⟨[0xC5, 0xBC], .utf8⟩, .string ⟨[0xC5, 0x82], .utf8⟩)]

def polishRecord : AsRecord :=
  ((AsRecord.init 1).set (cstr [0xC5, 0xBC]) (.string [0xC5, 0x82])).2

theorem polishBins_ofUtf8 : OfUtf8 (.hash polishBins) := by
  refine .hash (List.nodup_singleton _) ?_ ?_
  · intro entry member
    rcases List.mem_singleton.mp member with rfl
    exact ⟨_, rfl, rfl⟩
  · intro entry member
    rcases List.mem_singleton.mp member with rfl
    exact .string rfl

theorem encoding_applies_iff_polish :
    ((∀ back, record2hash (Runtime.sample.assignEncoding .utf8) polishRecord = .ok back →
        Carries .utf8 (.hash back.entries)) ↔
      (∃ bin ∈ polishRecord.bins, ¬Readable (Runtime.sample.assignEncoding .utf8) bin.2) ∨
        ∀ bin ∈ polishRecord.bins,
          .binary = Encoding.utf8 ∧
            LoadsBinary (Runtime.sample.assignEncoding .utf8) bin.2) ∧
      (ComesBack (Runtime.sample.assignEncoding .utf8) Encodings.sample polishBins ↔
        (∃ entry ∈ polishBins, ¬Taken (Runtime.sample.assignEncoding .utf8) entry) ∨
          StoredWhole (Runtime.sample.assignEncoding .utf8) polishBins ∧
            AsciiKeys (.hash polishBins)) :=
  encoding_applies_iff Runtime.sample Encodings.sample .utf8 polishRecord polishBins_ofUtf8

/-- The name of the bin stays binary, so the Hash read differs from the one that was put. -/
theorem encoding_misses_key :
    (¬∀ back, record2hash (Runtime.sample.assignEncoding .utf8) polishRecord = .ok back →
      Carries .utf8 (.hash back.entries)) ∧
      ¬ComesBack (Runtime.sample.assignEncoding .utf8) Encodings.sample polishBins := by
  constructor
  · intro carries
    have forced : Encoding.binary = .utf8 := (carries _ rfl).1.1
    exact absurd forced (by decide)
  · intro comes
    rcases comes _ rfl with ⟨back, read, equal⟩
    cases read
    rcases equal.2.1 with ⟨entry, member, key, _⟩
    rcases List.mem_singleton.mp member with rfl
    rcases key with ⟨_, empty | same | ascii⟩
    · cases empty
    · exact absurd same (by decide)
    · exact absurd (ascii.1 _ List.mem_cons_self) (by decide)

end AerospikeCRuby
