import AerospikeCRuby.Codec.Readable
import AerospikeCRuby.Codec.Rewrite
import AerospikeCRuby.Codec.Survival

/-!
# Casts of the decoder

The decoder trusts the type tag of a value before it casts, and casts the keys
of a map without a look at theirs.  What it reads of a record is a list of keys
and blobs in a fixed order, and it fails as the first of them does.  A map whose
keys agree up to the first NUL becomes a smaller Hash.
-/

namespace AerospikeCRuby

open AssocList (keys)

/-- A step of the decoder which can fail. -/
inductive Read where
  /-- `as_string_fromval` of the key of a pair, dereferenced. -/
  | key (key : AsVal)
  /-- `Marshal.load` of a Ruby blob. -/
  | blob (data : Bytes)

def Read.perform (rt : Runtime) : Read → Except Abort RbVal
  | .key value => do
      let name ← pairName value
      .ok (.string (rbStrNew2 name))
  | .blob data => asBytesToRbObj rt data

def IsString (value : AsVal) : Prop :=
  ∃ buffer, value = .string buffer

mutual

/-- What the decoder reads of a value, in order. -/
def reads : AsVal → List Read
  | .list elements => readsElements elements
  | .map pairs => readsPairs pairs
  | .bytes .ruby data => [.blob data]
  | _ => []

def readsElements : List AsVal → List Read
  | [] => []
  | element :: rest => reads element ++ readsElements rest

def readsPairs : List (AsVal × AsVal) → List Read
  | [] => []
  | (key, value) :: rest => .key key :: reads value ++ readsPairs rest

end

def recordReads (record : AsRecord) : List Read :=
  record.bins.flatMap fun bin => reads bin.2

mutual

/-- The value holds no NULL pointer in the place of a value. -/
def Pointed : AsVal → Prop
  | .null => False
  | .list elements => PointedElements elements
  | .map pairs => PointedPairs pairs
  | _ => True

def PointedElements : List AsVal → Prop
  | [] => True
  | element :: rest => Pointed element ∧ PointedElements rest

def PointedPairs : List (AsVal × AsVal) → Prop
  | [] => True
  | (_, value) :: rest => Pointed value ∧ PointedPairs rest

/-- In every map the keys are distinct as the names of their pairs. -/
def Distinct : AsVal → Prop
  | .list elements => DistinctElements elements
  | .map pairs => (pairs.map fun pair => pairName pair.1).Nodup ∧ DistinctPairs pairs
  | _ => True

def DistinctElements : List AsVal → Prop
  | [] => True
  | element :: rest => Distinct element ∧ DistinctElements rest

def DistinctPairs : List (AsVal × AsVal) → Prop
  | [] => True
  | (_, value) :: rest => Distinct value ∧ DistinctPairs rest

end

/-- Every map inside the value has become a Hash of as many entries. -/
inductive KeepsSizes : AsVal → RbVal → Prop where
  | list {elements vals} : List.Forall₂ KeepsSizes elements vals →
      KeepsSizes (.list elements) (.array vals)
  | map {pairs entries} : entries.length = pairs.length →
      List.Forall₂ (fun pair entry => KeepsSizes pair.2 entry.2) pairs entries →
      KeepsSizes (.map pairs) (.hash entries)
  | leaf {value val} : (∀ elements, value ≠ .list elements) → (∀ pairs, value ≠ .map pairs) →
      KeepsSizes value val

/-- No failed cast is dereferenced, and the Hash which is returned keeps the sizes of all
maps. -/
def ReadsSafely (rt : Runtime) (record : AsRecord) : Prop :=
  Survives (record2hash rt record) ∧
    ∀ hash, record2hash rt record = .ok hash →
      List.Forall₂ (fun bin entry => KeepsSizes bin.2 entry.2) record.bins hash

/-- All keys are Strings, and distinct up to their first NUL. -/
def Clean (record : AsRecord) : Prop :=
  (∀ key, .key key ∈ recordReads record → IsString key) ∧ ∀ bin ∈ record.bins, Distinct bin.2

/-- `Marshal.load` refuses a blob before a key which is no String is reached. -/
def Stopped (rt : Runtime) (record : AsRecord) : Prop :=
  ∃ before data after, recordReads record = before ++ .blob data :: after ∧
    (∀ val, rt.load data ≠ .ok val) ∧ ∀ key, .key key ∈ before → IsString key

/-- `Marshal.load` takes every Ruby blob. -/
def LoadsBlobs (rt : Runtime) (record : AsRecord) : Prop :=
  ∀ data, .blob data ∈ recordReads record → ∃ val, rt.load data = .ok val

variable {rt : Runtime}

theorem readsElements_eq (elements : List AsVal) :
    readsElements elements = elements.flatMap reads := by
  induction elements with
  | nil => rfl
  | cons element rest ih => rw [readsElements, ih, List.flatMap_cons]

theorem readsPairs_eq (pairs : List (AsVal × AsVal)) :
    readsPairs pairs = pairs.flatMap fun pair => .key pair.1 :: reads pair.2 := by
  induction pairs with
  | nil => rfl
  | cons pair rest ih => rw [readsPairs, ih, List.flatMap_cons]

theorem pointedElements_iff {elements : List AsVal} :
    PointedElements elements ↔ ∀ element ∈ elements, Pointed element := by
  induction elements with
  | nil => simp [PointedElements]
  | cons element rest ih => simp [PointedElements, ih]

theorem pointedPairs_iff {pairs : List (AsVal × AsVal)} :
    PointedPairs pairs ↔ ∀ pair ∈ pairs, Pointed pair.2 := by
  induction pairs with
  | nil => simp [PointedPairs]
  | cons pair rest ih => simp [PointedPairs, ih]

theorem distinctElements_iff {elements : List AsVal} :
    DistinctElements elements ↔ ∀ element ∈ elements, Distinct element := by
  induction elements with
  | nil => simp [DistinctElements]
  | cons element rest ih => simp [DistinctElements, ih]

theorem distinctPairs_iff {pairs : List (AsVal × AsVal)} :
    DistinctPairs pairs ↔ ∀ pair ∈ pairs, Distinct pair.2 := by
  induction pairs with
  | nil => simp [DistinctPairs]
  | cons pair rest ih => simp [DistinctPairs, ih]

section Reads

open ExceptLoop

theorem sameFailure_decodePair {pair : AsVal × AsVal}
    (value : SameFailure (asVal2rbVal rt pair.2) (collect (Read.perform rt) (reads pair.2))) :
    SameFailure (decodePair rt pair)
      (collect (Read.perform rt) (.key pair.1 :: reads pair.2)) := by
  have name : SameFailure (pairName pair.1) (Read.perform rt (.key pair.1)) :=
    fun failure => (sameFailure_bind_ok _ _ failure).symm
  apply name.bind
  intro _ _ _ _
  apply value.bind
  intro _ _ _ _ failure
  simp

/-- The decoder fails as the first of its reads does. -/
theorem sameFailure_reads {value : AsVal} (pointed : Pointed value) :
    SameFailure (asVal2rbVal rt value) (collect (Read.perform rt) (reads value)) := by
  induction value with
  | null => exact pointed.elim
  | list elements ih =>
      have each := pointedElements_iff.mp pointed
      rw [asVal2rbVal, asList2arrayFrom_eq, reads, readsElements_eq]
      apply (sameFailure_bind_ok _ _).trans
      apply sameFailure_flatMap
      intro element member
      exact ih element member (each element member)
  | map pairs ih =>
      have each := pointedPairs_iff.mp pointed
      rw [asVal2rbVal, asHashmap2hashFrom_eq, reads, readsPairs_eq]
      apply (sameFailure_bind_ok _ _).trans
      apply (sameFailure_accumulate _ _).trans
      apply sameFailure_flatMap
      intro pair member
      exact sameFailure_decodePair ((ih pair member).2 (each pair member))
  | bytes type data =>
      cases type with
      | ruby =>
          intro failure
          have alone := sameFailure_bind_ok (asBytesToRbObj rt data) (fun val => [val]) failure
          exact alone.symm
      | other code => intro failure; simp [asVal2rbVal, reads, collect]
  | _ => intro failure; simp [asVal2rbVal, reads, collect]

theorem sameFailure_recordReads {record : AsRecord}
    (pointed : ∀ bin ∈ record.bins, Pointed bin.2) :
    SameFailure (record2hash rt record) (collect (Read.perform rt) (recordReads record)) := by
  rw [record2hash, record2hashFrom_eq]
  apply (sameFailure_accumulate _ _).trans
  apply sameFailure_flatMap
  intro bin member
  exact (sameFailure_bind_ok _ _).trans (sameFailure_reads (pointed bin member))

theorem perform_blob (data : Bytes) : Read.perform rt (.blob data) = rt.load data := by
  rw [Read.perform, asBytesToRbObj, map_byteOfInt_stringBytes]

theorem survives_perform_key {key : AsVal} (isString : IsString key) :
    Survives (Read.perform rt (.key key)) := by
  rcases isString with ⟨buffer, rfl⟩
  exact survives_ok _

theorem perform_key_eq_error {key : AsVal} {failure : Abort}
    (failed : Read.perform rt (.key key) = .error failure) :
    failure = .nullDeref ∧ ¬IsString key := by
  refine ⟨?_, ?_⟩
  · cases key <;> cases failed <;> rfl
  · rintro ⟨buffer, rfl⟩
    cases failed

end Reads

section Sizes

theorem decodePair_eq_ok {pair : AsVal × AsVal} {binding : CStr × RbVal} :
    decodePair rt pair = .ok binding ↔
      pairName pair.1 = .ok binding.1 ∧ asVal2rbVal rt pair.2 = .ok binding.2 := by
  rcases binding with ⟨name, val⟩
  simp only [decodePair, ExceptLoop.bind_eq_ok, Except.ok.injEq, Prod.mk.injEq]
  constructor
  · rintro ⟨_, named, _, decoded, rfl, rfl⟩
    exact ⟨named, decoded⟩
  · rintro ⟨named, decoded⟩
    exact ⟨_, named, _, decoded, rfl, rfl⟩

theorem nodup_keys_iff {pairs : List (AsVal × AsVal)} {bindings : List (CStr × RbVal)}
    (decoded : List.Forall₂ (fun pair binding => decodePair rt pair = .ok binding) pairs
      bindings) :
    (keys bindings).Nodup ↔ (pairs.map fun pair => pairName pair.1).Nodup := by
  have names : (pairs.map fun pair => pairName pair.1) = (keys bindings).map .ok := by
    induction decoded with
    | nil => rfl
    | cons first _ ih =>
        rw [List.map_cons, ih, (decodePair_eq_ok.mp first).1]
        rfl
  have injective : Function.Injective (Except.ok : CStr → Except Abort CStr) :=
    fun _ _ same => Except.ok.inj same
  rw [names, List.nodup_map_iff injective]

/-- The Hash of a map has one entry for each name of its pairs. -/
theorem length_eq_iff_nodup {pairs : List (AsVal × AsVal)} {bindings : List (CStr × RbVal)}
    (decoded : List.Forall₂ (fun pair binding => decodePair rt pair = .ok binding) pairs
      bindings) :
    (bindings.foldl (fun hash entry => AssocList.putLast hash entry.1 entry.2) []).length =
        pairs.length ↔ (pairs.map fun pair => pairName pair.1).Nodup := by
  have length : pairs.length = (keys bindings).length := by
    rw [decoded.length_eq, keys, List.length_map]
  rw [← nodup_keys_iff decoded, AssocList.length_foldl_putLast, length]
  constructor
  · intro same
    rw [← (List.dedup_sublist (keys bindings)).eq_of_length same]
    exact List.nodup_dedup _
  · intro nodup
    rw [nodup.dedup]

/-- A decoded value keeps the sizes of its maps exactly when their names are distinct. -/
theorem keepsSizes_iff_distinct {value : AsVal} {val : RbVal}
    (decoded : asVal2rbVal rt value = .ok val) : KeepsSizes value val ↔ Distinct value := by
  induction value generalizing val with
  | list elements ih =>
      rw [asVal2rbVal, asList2arrayFrom_eq, ExceptLoop.bind_eq_ok] at decoded
      rcases decoded with ⟨vals, collected, ⟨⟩⟩
      have aligned := ExceptLoop.collect_eq_ok.mp collected
      have kept : List.Forall₂ KeepsSizes elements vals ↔ ∀ element ∈ elements, Distinct element :=
        Aligned.forall₂_iff_forall aligned fun element member _ decoded =>
          ih element member decoded
      rw [Distinct, distinctElements_iff, ← kept]
      constructor
      · intro keeps
        cases keeps with
        | list each => exact each
        | leaf noList _ => exact absurd rfl (noList elements)
      · exact .list
  | map pairs ih =>
      rw [asVal2rbVal, asHashmap2hashFrom_eq, ExceptLoop.bind_eq_ok] at decoded
      rcases decoded with ⟨hash, accumulated, ⟨⟩⟩
      rcases ExceptLoop.accumulate_eq_ok.mp accumulated with ⟨bindings, aligned, rfl⟩
      have kept : List.Forall₂ (fun pair entry => KeepsSizes pair.2 entry.2) pairs bindings ↔
          ∀ pair ∈ pairs, Distinct pair.2 :=
        Aligned.forall₂_iff_forall aligned fun pair member binding converted =>
          (ih pair member).2 (decodePair_eq_ok.mp converted).2
      have sizes := length_eq_iff_nodup aligned
      have inOrder (nodup : (pairs.map fun pair => pairName pair.1).Nodup) :
          bindings.foldl (fun hash entry => AssocList.putLast hash entry.1 entry.2) [] =
            bindings := by
        apply AssocList.foldl_putLast_of_nodup []
        exact (nodup_keys_iff aligned).mpr nodup
      rw [Distinct, distinctPairs_iff, ← kept, ← sizes]
      constructor
      · intro keeps
        cases keeps with
        | map same each =>
            rw [StrHash.entries, List.length_map] at same
            rw [inOrder (sizes.mp same), StrHash.entries, List.forall₂_map_right_iff] at each
            exact ⟨same, each⟩
        | leaf _ noMap => exact absurd rfl (noMap pairs)
      · rintro ⟨same, each⟩
        refine .map ?_ ?_
        · rw [StrHash.entries, List.length_map]
          exact same
        · rw [inOrder (sizes.mp same), StrHash.entries, List.forall₂_map_right_iff]
          exact each
  | _ =>
      refine iff_of_true (.leaf ?_ ?_) trivial <;> (intro _ same; cases same)

end Sizes

section Records

variable {record : AsRecord}

theorem keepsSizes_record_iff {hash : StrHash} (read : record2hash rt record = .ok hash) :
    List.Forall₂ (fun bin entry => KeepsSizes bin.2 entry.2) record.bins hash ↔
      ∀ bin ∈ record.bins, Distinct bin.2 :=
  Aligned.forall₂_iff_forall (record2hash_eq_ok.mp read) fun _ _ _ decoded =>
    keepsSizes_iff_distinct decoded.2

theorem isString_of_perform {key : AsVal} {val : RbVal}
    (performed : Read.perform rt (.key key) = .ok val) : IsString key := by
  rcases ExceptLoop.bind_eq_ok.mp performed with ⟨name, named, _⟩
  exact isString_of_pairName named

/-- A record is read to its end when all keys are Strings and all blobs load. -/
theorem exists_record2hash_iff (pointed : ∀ bin ∈ record.bins, Pointed bin.2) :
    (∃ hash, record2hash rt record = .ok hash) ↔
      (∀ key, .key key ∈ recordReads record → IsString key) ∧ LoadsBlobs rt record := by
  rw [(sameFailure_recordReads pointed).exists_ok_iff, ExceptLoop.exists_collect_eq_ok]
  constructor
  · intro each
    refine ⟨fun key member => ?_, fun data member => ?_⟩
    · rcases each _ member with ⟨val, performed⟩
      exact isString_of_perform performed
    · rcases each _ member with ⟨val, performed⟩
      exact ⟨val, (perform_blob data).symm.trans performed⟩
  · rintro ⟨strings, loads⟩ read member
    cases read with
    | key key =>
        rcases strings key member with ⟨buffer, rfl⟩
        exact ⟨_, rfl⟩
    | blob data =>
        rcases loads data member with ⟨val, loaded⟩
        exact ⟨val, (perform_blob data).trans loaded⟩

theorem survives_load (data : Bytes) : Survives (rt.load data) :=
  survives_mapError _

/-- With String keys alone, a failure is one of `Marshal.load`. -/
theorem survives_of_strings (pointed : ∀ bin ∈ record.bins, Pointed bin.2)
    (strings : ∀ key, .key key ∈ recordReads record → IsString key) :
    Survives (record2hash rt record) := by
  intro ended
  rw [sameFailure_recordReads pointed] at ended
  rcases ExceptLoop.collect_eq_error.mp ended with ⟨before, read, after, _, split, _, failed⟩
  have member : read ∈ recordReads record := by simp [split]
  cases read with
  | key key => exact (perform_key_eq_error failed).2 (strings key member)
  | blob data =>
      rw [perform_blob] at failed
      exact survives_load data failed

theorem raises_of_stopped (pointed : ∀ bin ∈ record.bins, Pointed bin.2)
    (stopped : Stopped rt record) : Raises (record2hash rt record) := by
  rcases stopped with ⟨before, data, after, split, refused, strings⟩
  have alive : ∀ read ∈ before, Survives (Read.perform rt read) := by
    intro read member
    cases read with
    | key key => exact survives_perform_key (strings key member)
    | blob data =>
        rw [perform_blob]
        exact survives_load data
  have raised : Raises (Read.perform rt (.blob data)) := by
    rw [perform_blob]
    exact raises_of_survives (survives_load data) refused
  have stopped : Raises (ExceptLoop.collect (Read.perform rt) (before ++ .blob data :: after)) :=
    raises_collect alive raised
  rcases stopped with ⟨failure, failed, ruby⟩
  rw [← split, ← sameFailure_recordReads pointed] at failed
  exact ⟨failure, failed, ruby⟩

/-- A failure which is no failed cast is that of a blob reached through String keys. -/
theorem stopped_of_error (pointed : ∀ bin ∈ record.bins, Pointed bin.2) {failure : Abort}
    (failed : record2hash rt record = .error failure) (ruby : failure ≠ .nullDeref) :
    Stopped rt record := by
  rw [sameFailure_recordReads pointed] at failed
  rcases ExceptLoop.collect_eq_error.mp failed with ⟨before, read, after, vals, split, done, failed⟩
  cases read with
  | key key => exact absurd (perform_key_eq_error failed).1 ruby
  | blob data =>
      refine ⟨before, data, after, split, fun val loaded => ?_, fun key member => ?_⟩
      · rw [perform_blob, loaded] at failed
        cases failed
      · rcases Aligned.exists_of_mem done member with ⟨val, _, performed⟩
        exact isString_of_perform performed

/-- A record is read safely exactly when its keys are clean or `Marshal.load` stops the decoder
first; it is read to its end besides exactly when every Ruby blob loads. -/
theorem readsSafely_iff (rt : Runtime) (record : AsRecord)
    (pointed : ∀ bin ∈ record.bins, Pointed bin.2) :
    (ReadsSafely rt record ↔ Clean record ∨ Stopped rt record) ∧
      ((∃ hash, record2hash rt record = .ok hash) ∧ ReadsSafely rt record ↔
        Clean record ∧ LoadsBlobs rt record) := by
  have clean_of_read {hash : StrHash} (read : record2hash rt record = .ok hash)
      (safe : ReadsSafely rt record) : Clean record :=
    ⟨((exists_record2hash_iff pointed).mp ⟨hash, read⟩).1,
      (keepsSizes_record_iff read).mp (safe.2 hash read)⟩
  have safe_of_clean (clean : Clean record) : ReadsSafely rt record :=
    ⟨survives_of_strings pointed clean.1, fun hash read =>
      (keepsSizes_record_iff read).mpr clean.2⟩
  constructor
  · constructor
    · intro safe
      cases outcome : record2hash rt record with
      | ok hash => exact Or.inl (clean_of_read outcome safe)
      | error failure =>
          right
          apply stopped_of_error pointed outcome
          rintro rfl
          exact safe.1 outcome
    · rintro (clean | stopped)
      · exact safe_of_clean clean
      · rcases raises_of_stopped pointed stopped with ⟨failure, failed, ruby⟩
        refine ⟨?_, fun hash read => ?_⟩
        · intro ended
          rw [failed] at ended
          cases ended
          exact ruby rfl
        · rw [failed] at read
          cases read
  · constructor
    · rintro ⟨⟨hash, read⟩, safe⟩
      exact ⟨clean_of_read read safe, ((exists_record2hash_iff pointed).mp ⟨hash, read⟩).2⟩
    · rintro ⟨clean, loads⟩
      exact ⟨(exists_record2hash_iff pointed).mpr ⟨clean.1, loads⟩, safe_of_clean clean⟩

theorem pointed_oneBin {value : AsVal} (pointed : Pointed value) :
    ∀ bin ∈ (oneBin value).bins, Pointed bin.2 := by
  intro bin member
  rw [List.mem_singleton.mp member]
  exact pointed

theorem readsSafely_sample :
    ReadsSafely .sample (oneBin (.map [(.string (ascii "a"), .integer 1)])) := by
  have pointed : Pointed (.map [(.string (ascii "a"), .integer 1)]) := ⟨trivial, trivial⟩
  apply (readsSafely_iff _ _ (pointed_oneBin pointed)).1.mpr
  refine Or.inl ⟨fun key member => ?_, fun bin member => ?_⟩
  · have reads : recordReads (oneBin (.map [(.string (ascii "a"), .integer 1)])) =
        [.key (.string (ascii "a"))] := rfl
    rw [reads] at member
    rcases List.mem_singleton.mp member with ⟨⟩
    exact ⟨_, rfl⟩
  · rw [List.mem_singleton.mp member]
    exact ⟨List.nodup_singleton _, trivial, trivial⟩

/-- An integer key is dereferenced as a string. -/
theorem not_readsSafely_integerKey :
    ¬∀ (rt : Runtime) (record : AsRecord), (∀ bin ∈ record.bins, Pointed bin.2) →
      ReadsSafely rt record := by
  intro safe
  have pointed : Pointed (.map [(.integer 1, .integer 2)]) := ⟨trivial, trivial⟩
  exact (safe .sample (oneBin (.map [(.integer 1, .integer 2)])) (pointed_oneBin pointed)).1 rfl

end Records

end AerospikeCRuby
