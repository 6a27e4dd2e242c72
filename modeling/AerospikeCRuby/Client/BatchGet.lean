import AerospikeCRuby.Client.Key
import AerospikeCRuby.Codec.Readable

/-!
# Batch reads and single reads

`Client#get` reads one record and `Client#batch_get` a list of them.  The two
convert keys, select bins and treat a missing record each in its own way: the
batch takes the `to_str` of a user key where `Key.new` took its `to_s`, which
few keys have, reads no bin where an empty list of names makes `get` read all,
and gives an empty Hash for a record that `get` answers with nil.
-/

namespace AerospikeCRuby

open AssocList (keys)

namespace AsRecord

theorem fits_select (rec : AsRecord) (names : List CStr) :
    (rec.bins.filter fun bin => bin.1 ∈ names).length ≤ rec.capacity :=
  (List.length_filter_le ..).trans rec.fits

theorem distinct_select (rec : AsRecord) (names : List CStr) :
    (keys (rec.bins.filter fun bin => bin.1 ∈ names)).Nodup :=
  rec.distinct.sublist (List.filter_sublist.map Prod.fst)

theorem named_select (rec : AsRecord) (names : List CStr) :
    ∀ name ∈ keys (rec.bins.filter fun bin => bin.1 ∈ names),
      name.bytes.length ≤ asBinNameMaxLen := by
  intro name member
  apply rec.named
  exact (List.filter_sublist.map Prod.fst).subset member

/-- The record as a read of the named bins returns it. -/
def select (rec : AsRecord) (names : List CStr) : AsRecord where
  bins := rec.bins.filter fun bin => bin.1 ∈ names
  capacity := rec.capacity
  gen := rec.gen
  ttl := rec.ttl
  addressable := rec.addressable
  fits := rec.fits_select names
  distinct := rec.distinct_select names
  named := rec.named_select names

end AsRecord

/-- One element of an Array of names. -/
def elementCstr (rt : Runtime) : RbVal → Except Abort CStr
  | .string text => stringValueCStr text
  | element => do
      let strVal ← rt.toS element
      stringValueCStr strVal

/-- `rb_array2inputArray` and `rb_array2bin_names`. -/
def rbArray2inputArray (rt : Runtime) (ary : List RbVal) : Except Abort (List CStr) :=
  ExceptLoop.collect (elementCstr rt) ary

/-- `check_with_header`, from the value of the option `:with_header`. -/
def checkWithHeader (bins : StrHash) (withHeader : RbVal) (rec : AsRecord) : StrHash :=
  match withHeader with
  | .bool true => putHeader rec bins
  | _ => bins

/-- The Hash of a record that was read. -/
def readHash (rt : Runtime) (withHeader : RbVal) (rec : AsRecord) : Except Abort StrHash := do
  let bins ← record2hash rt rec
  .ok (checkWithHeader bins withHeader rec)

/-- The names of the bins that `get` reads; without names it reads all bins. -/
def getBinNames (rt : Runtime) : Option (List RbVal) → Except Abort (Option (List CStr))
  | none => .ok none
  | some specificBins => do
      let len ← rbAryLenInt specificBins
      if len > 0 then do
        let inputArray ← rbArray2inputArray rt specificBins
        .ok (some inputArray)
      else .ok none

/-- `get`, where no transport error occurs: the Hash of the record, or nil. -/
def get (rt : Runtime) (store : AsKey → Option AsRecord) (key : Key)
    (specificBins : Option (List RbVal)) (withHeader : RbVal) :
    Except Abort (Option StrHash) := do
  let binNames ← getBinNames rt specificBins
  match store key.asKey with
  | none => .ok none
  | some rec =>
      match binNames with
      | some inputArray => do
          let bins ← readHash rt withHeader (rec.select inputArray)
          .ok (some bins)
      | none => do
          let bins ← readHash rt withHeader rec
          .ok (some bins)

/-- The record in an `as_batch_read_record`: all bins or the named ones, and the record
`as_batch_read_reserve` has cleared where nothing was found. -/
def batchRecord (store : AsKey → Option AsRecord) (binNames : Option (List CStr))
    (asKey : AsKey) : AsRecord :=
  match store asKey, binNames with
  | none, _ => AsRecord.init 0
  | some rec, none => rec
  | some rec, some names => rec.select names

/-- The names of the bins that `batch_get` reads; without names it sets `read_all_bins`. -/
def batchBinNames (rt : Runtime) : Option (List RbVal) → Except Abort (Option (List CStr))
  | none => .ok none
  | some specificBins => do
      let binNames ← rbArray2inputArray rt specificBins
      .ok (some binNames)

/-- `batch_get`, where no transport error occurs. -/
def batchGet (rt : Runtime) (store : AsKey → Option AsRecord) (keys : List Key)
    (specificBins : Option (List RbVal)) (withHeader : RbVal) :
    Except Abort (List StrHash) := do
  let binNames ← batchBinNames rt specificBins
  let records ← ExceptLoop.collect (batchKey rt) keys
  ExceptLoop.collect (fun asKey => readHash rt withHeader (batchRecord store binNames asKey))
    records

/-- `batch_get` returns as many elements as there are keys, each the Hash that `get` returns.
Hashes are equal up to the order of their entries. -/
def Agrees (rt : Runtime) (store : AsKey → Option AsRecord) (keys : List Key)
    (specificBins : Option (List RbVal)) (withHeader : RbVal) : Prop :=
  ∃ values, batchGet rt store keys specificBins withHeader = .ok values ∧
    List.Forall₂ (fun key value => ∃ single,
      get rt store key specificBins withHeader = .ok (some single) ∧ value.Perm single)
      keys values

/-- The name of a bin, as C sees the `to_s` of a value. -/
def NamesBin (rt : Runtime) (element : RbVal) (name : CStr) : Prop :=
  ∃ text, rt.toS element = .ok text ∧ text.Readable ∧ cstr text.bytes = name

/-- The names of a list of bins. -/
inductive NamesBins (rt : Runtime) : Option (List RbVal) → Option (List CStr) → Prop
  | none : NamesBins rt none none
  | some {ary : List RbVal} {names : List CStr} : List.Forall₂ (NamesBin rt) ary names →
      NamesBins rt (some ary) (some names)

/-- The `as_key` for which a batch reads: a fixnum stays, and of any other user key C sees the
`to_str`, where `Key.new` took the `to_s`. -/
inductive Addresses (rt : Runtime) (key : Key) : AsKey → Prop
  | fixnum : key.key.type = .fixnum → Addresses rt key key.asKey
  | text {text : RbStr} : key.key.type ≠ .fixnum → rt.stringValue key.key = .ok text →
      text.Readable →
        Addresses rt key ⟨key.asKey.ns, key.asKey.set, .string (cstr text.bytes)⟩

/-- Both ways of reading a record see the same. -/
def ReadsAlike (rt : Runtime) (binNames : Option (List CStr)) (withHeader : RbVal)
    (rec : AsRecord) : Prop :=
  match binNames with
  | none => ∀ bin ∈ rec.bins, Readable rt bin.2
  | some [] => ∀ bin ∈ rec.bins, withHeader = .bool true ∧ bin.1 = cstr (ascii "header") ∧
      asVal2rbVal rt bin.2 = .ok .nil
  | some names => names.length < 2 ^ 31 ∧ ∀ bin ∈ rec.bins, bin.1 ∈ names → Readable rt bin.2

/-- The bins that `get` reads of a record. -/
def singleRecord (binNames : Option (List CStr)) (rec : AsRecord) : AsRecord :=
  match binNames with
  | none | some [] => rec
  | some names => rec.select names

/-- A bin named `header` shows a value, so that the header goes under its second name. -/
def HeaderTaken (rt : Runtime) (rec : AsRecord) : Prop :=
  ∃ value val, (cstr (ascii "header"), value) ∈ rec.bins ∧ asVal2rbVal rt value = .ok val ∧
    val ≠ .nil

def HeaderName (rt : Runtime) (rec : AsRecord) (name : CStr) : Prop :=
  name = cstr (ascii "record_header") ∧ HeaderTaken rt rec ∨
    name = cstr (ascii "header") ∧ ¬HeaderTaken rt rec

/-- The entries of the Hash that shows a record. -/
inductive ShowsEntry (rt : Runtime) (withHeader : RbVal) (rec : AsRecord) : CStr → RbVal → Prop
  | bin {name : CStr} {value : AsVal} {val : RbVal} : (name, value) ∈ rec.bins →
      asVal2rbVal rt value = .ok val → ¬(withHeader = .bool true ∧ HeaderName rt rec name) →
        ShowsEntry rt withHeader rec name val
  | header {name : CStr} : withHeader = .bool true → HeaderName rt rec name →
      ShowsEntry rt withHeader rec name (headerHash rec)

/-- Two records show the same entries. -/
structure ShowsAlike (rt : Runtime) (withHeader : RbVal) (rec rec' : AsRecord) : Prop where
  left : ∀ bin ∈ rec.bins, Readable rt bin.2
  right : ∀ bin ∈ rec'.bins, Readable rt bin.2
  entries : ∀ name val,
    ShowsEntry rt withHeader rec name val ↔ ShowsEntry rt withHeader rec' name val

/-- When a batch read agrees with single reads: the names and the user keys convert, each key has
a record, and the batch reads this record alike, or one that shows the same. -/
def Alike (rt : Runtime) (store : AsKey → Option AsRecord) (keys : List Key)
    (specificBins : Option (List RbVal)) (withHeader : RbVal) : Prop :=
  ∃ binNames, NamesBins rt specificBins binNames ∧ ∀ key ∈ keys, ∃ asKey rec,
    Addresses rt key asKey ∧ store key.asKey = some rec ∧
      (asKey = key.asKey ∧ ReadsAlike rt binNames withHeader rec ∨
        asKey ≠ key.asKey ∧ (∀ names, binNames = some names → names.length < 2 ^ 31) ∧
          ShowsAlike rt withHeader (batchRecord store binNames asKey) (singleRecord binNames rec))

section Conversions

variable {rt : Runtime}

theorem elementCstr_eq_ok {element : RbVal} {name : CStr} :
    elementCstr rt element = .ok name ↔ NamesBin rt element name := by
  have byText : elementCstr rt element = (do
      let strVal ← rt.toS element
      stringValueCStr strVal) := by
    cases element <;> rfl
  simp only [byText, ExceptLoop.bind_eq_ok, stringValueCStr_eq_ok_iff, NamesBin]

theorem rbArray2inputArray_eq_ok {ary : List RbVal} {names : List CStr} :
    rbArray2inputArray rt ary = .ok names ↔ List.Forall₂ (NamesBin rt) ary names := by
  simp only [rbArray2inputArray, ExceptLoop.collect_eq_ok, elementCstr_eq_ok]

theorem batchBinNames_eq_ok {specificBins : Option (List RbVal)}
    {binNames : Option (List CStr)} :
    batchBinNames rt specificBins = .ok binNames ↔ NamesBins rt specificBins binNames := by
  cases specificBins with
  | none =>
      constructor
      · rintro ⟨⟩
        exact .none
      · rintro ⟨⟩
        rfl
  | some ary =>
      simp only [batchBinNames, ExceptLoop.bind_eq_ok, rbArray2inputArray_eq_ok, Except.ok.injEq]
      constructor
      · rintro ⟨names, named, rfl⟩
        exact .some named
      · rintro ⟨⟩
        exact ⟨_, ‹_›, rfl⟩

/-- The batch makes the `as_key` that it addresses. -/
theorem batchKey_iff {key : Key} (made : key.Made rt) {asKey : AsKey} :
    batchKey rt key = .ok asKey ↔ Addresses rt key asKey := by
  have sameNames : batchKey rt key = (do
      let value ← keyValue (valueToCstr rt) key.key
      .ok { ns := key.asKey.ns, set := key.asKey.set, value }) := by
    simp only [batchKey, stringValueCStr_rbStrNew2]
    rfl
  rw [sameNames, ExceptLoop.bind_eq_ok]
  by_cases fixnum : key.key.type = .fixnum
  · have same : keyValue (valueToCstr rt) key.key = .ok key.asKey.value := by
      rw [← made.keyValue]
      rcases type_eq_fixnum.mp fixnum with ⟨number, same, small⟩
      rw [same, keyValue_fixnum small, keyValue_fixnum small]
    simp only [same, Except.ok.injEq, exists_eq_left']
    constructor
    · rintro rfl
      exact .fixnum fixnum
    · rintro (_ | differs)
      · rfl
      · exact absurd fixnum differs
  · simp only [keyValue_of_not_fixnum fixnum, valueToCstr, ExceptLoop.bind_eq_ok,
      stringValueCStr_eq_ok_iff, Except.ok.injEq]
    constructor
    · rintro ⟨_, ⟨_, ⟨text, converted, readable, rfl⟩, rfl⟩, rfl⟩
      exact .text fixnum converted readable
    · rintro (isFixnum | ⟨_, converted, readable⟩)
      · exact absurd isFixnum fixnum
      · exact ⟨_, ⟨_, ⟨_, converted, readable, rfl⟩, rfl⟩, rfl⟩

end Conversions

section Elements

variable {rt : Runtime} {withHeader : RbVal} {rec : AsRecord}

theorem readHash_holds_iff {holds : StrHash → Prop} :
    (∃ bins, readHash rt withHeader rec = .ok bins ∧ holds bins) ↔
      ∃ bins, record2hash rt rec = .ok bins ∧ holds (checkWithHeader bins withHeader rec) := by
  unfold readHash
  simp only [ExceptLoop.bind_eq_ok, Except.ok.injEq]
  constructor
  · rintro ⟨_, ⟨bins, read, rfl⟩, held⟩
    exact ⟨bins, read, held⟩
  · rintro ⟨bins, read, held⟩
    exact ⟨_, ⟨bins, read, rfl⟩, held⟩

theorem exists_readHash_iff :
    (∃ bins, readHash rt withHeader rec = .ok bins) ↔ ∀ bin ∈ rec.bins, Readable rt bin.2 := by
  rw [← record2hash_iff_readable]
  unfold readHash
  constructor
  · rintro ⟨bins, read⟩
    rcases ExceptLoop.bind_eq_ok.mp read with ⟨hash, read, _⟩
    exact ⟨hash, read⟩
  · rintro ⟨hash, read⟩
    exact ⟨checkWithHeader hash withHeader rec, by rw [read]; rfl⟩

theorem putHeader_nil (rec : AsRecord) : ∃ header, ∀ bins,
    putHeader rec bins = match bins.lookup (cstr (ascii "header")) with
      | none | some .nil => AssocList.putLast bins (cstr (ascii "header")) header
      | some _ => AssocList.putLast bins (cstr (ascii "record_header")) header :=
  ⟨_, fun _ => rfl⟩

theorem header_ne_recordHeader : cstr (ascii "header") ≠ cstr (ascii "record_header") := by
  decide

/-- A header alone is what a record shows exactly if it has no bins but a nil `header`. -/
theorem perm_putHeader_iff {bins : StrHash} (distinct : (keys bins).Nodup) :
    (putHeader rec []).Perm (putHeader rec bins) ↔
      ∀ bin ∈ bins, bin = (cstr (ascii "header"), .nil) := by
  rcases putHeader_nil rec with ⟨header, put⟩
  have alone : putHeader rec [] = [(cstr (ascii "header"), header)] := by
    rw [put]
    rfl
  rw [alone, List.singleton_perm, put]
  constructor
  · intro same bin member
    have only : ∀ name, name ∈ keys [(cstr (ascii "header"), header)] →
        name = cstr (ascii "header") := by
      simp [keys]
    split at same
    all_goals
      rename_i found
      rw [same] at only
    · have named := only bin.1 (by
        rw [AssocList.putLast, AssocList.mem_keys_put]
        exact Or.inr (List.mem_map_of_mem member))
      have read := AssocList.lookup_of_mem distinct member
      rw [named, found] at read
      cases read
    · have named := only bin.1 (by
        rw [AssocList.putLast, AssocList.mem_keys_put]
        exact Or.inr (List.mem_map_of_mem member))
      have read := AssocList.lookup_of_mem distinct member
      rw [named, found, Option.some.injEq] at read
      exact Prod.ext named read.symm
    · have named := only (cstr (ascii "record_header")) (by
        rw [AssocList.putLast, AssocList.mem_keys_put]
        exact Or.inl rfl)
      exact absurd named.symm header_ne_recordHeader
  · intro each
    cases bins with
    | nil => rfl
    | cons bin rest =>
        have first := each bin (by simp)
        subst first
        cases rest with
        | nil => simp [AssocList.putLast, AssocList.put]
        | cons other rest =>
            have second := each other (by simp)
            subst second
            simp [keys] at distinct

/-- A record read without its bins is read as a whole exactly if it has none that show: a bin
named `header` which is nil gives way to the header. -/
theorem reads_no_bins_iff :
    (∃ single, readHash rt withHeader rec = .ok single ∧
      (checkWithHeader [] withHeader rec).Perm single) ↔
        ∀ bin ∈ rec.bins, withHeader = .bool true ∧ bin.1 = cstr (ascii "header") ∧
          asVal2rbVal rt bin.2 = .ok .nil := by
  rw [readHash_holds_iff]
  by_cases header : withHeader = .bool true
  · subst header
    constructor
    · rintro ⟨bins, read, perm⟩ bin member
      have aligned := record2hash_eq_ok.mp read
      have distinct : (keys bins).Nodup := by
        rw [← AssocList.keys_eq_of_forall₂ aligned fun _ _ both => both.1]
        exact rec.distinct
      rcases Aligned.exists_of_mem aligned member with ⟨entry, inBins, named, decoded⟩
      have alone := (perm_putHeader_iff distinct).mp perm entry inBins
      rw [alone] at named decoded
      exact ⟨rfl, named, decoded⟩
    · intro each
      have names : keys (rec.bins.map fun bin => (bin.1, RbVal.nil)) = keys rec.bins := by
        simp [keys]
      refine ⟨rec.bins.map fun bin => (bin.1, .nil), record2hash_eq_ok.mpr ?_,
        (perm_putHeader_iff ?_).mpr ?_⟩
      · rw [List.forall₂_map_right_iff, List.forall₂_same]
        intro bin member
        exact ⟨rfl, (each bin member).2.2⟩
      · rw [names]
        exact rec.distinct
      · intro entry member
        rcases List.mem_map.mp member with ⟨bin, inBins, rfl⟩
        exact Prod.ext (each bin inBins).2.1 rfl
  · have plain : ∀ bins, checkWithHeader bins withHeader rec = bins := by
      intro bins
      unfold checkWithHeader
      split
      · exact absurd rfl header
      · rfl
    simp only [plain, List.nil_perm]
    constructor
    · rintro ⟨_, read, rfl⟩ bin member
      rcases Aligned.exists_of_mem (record2hash_eq_ok.mp read) member with ⟨_, none, _⟩
      cases none
    · intro each
      refine ⟨[], record2hash_eq_ok.mpr ?_, rfl⟩
      cases none : rec.bins with
      | nil => exact .nil
      | cons bin rest =>
          rw [none] at each
          exact absurd (each bin (by simp)).1 header

theorem both_read_iff {readAs : AsRecord} :
    (∃ value single, readHash rt withHeader readAs = .ok value ∧
      readHash rt withHeader readAs = .ok single ∧ value.Perm single) ↔
        ∀ bin ∈ readAs.bins, Readable rt bin.2 := by
  rw [← exists_readHash_iff]
  constructor
  · rintro ⟨value, _, read, _⟩
    exact ⟨value, read⟩
  · rintro ⟨value, read⟩
    exact ⟨value, value, read, read, .refl value⟩

theorem readHash_select_nil (withHeader : RbVal) (rec : AsRecord) :
    readHash rt withHeader (rec.select []) = .ok (checkWithHeader [] withHeader rec) := by
  have none : record2hash rt (rec.select []) = .ok [] := by
    apply record2hash_eq_ok.mpr
    simp [AsRecord.select]
  rw [readHash, none]
  rfl

theorem readable_select_iff {names : List CStr} :
    (∀ bin ∈ (rec.select names).bins, Readable rt bin.2) ↔
      ∀ bin ∈ rec.bins, bin.1 ∈ names → Readable rt bin.2 := by
  simp only [AsRecord.select, List.mem_filter, decide_eq_true_eq, and_imp]

/-- `get` reads the bins of `singleRecord`, for no more names than an int counts. -/
theorem get_eq_ok_iff {store : AsKey → Option AsRecord} {key : Key}
    {specificBins : Option (List RbVal)} {binNames : Option (List CStr)}
    (named : NamesBins rt specificBins binNames) (found : store key.asKey = some rec)
    {single : StrHash} :
    get rt store key specificBins withHeader = .ok (some single) ↔
      (∀ names, binNames = some names → names.length < 2 ^ 31) ∧
        readHash rt withHeader (singleRecord binNames rec) = .ok single := by
  cases named with
  | none =>
      simp [get, getBinNames, found, singleRecord, ExceptLoop.bind_eq_ok]
  | @some ary names aligned =>
      have sameLength := aligned.length_eq
      simp only [get, found, getBinNames, ExceptLoop.bind_eq_ok, rbAryLenInt_eq_ok,
        Option.some.injEq, forall_eq', ← sameLength]
      cases aligned with
      | nil => simp [singleRecord, ExceptLoop.bind_eq_ok]
      | @cons first name others names here rest =>
          have converted := rbArray2inputArray_eq_ok.mpr (List.Forall₂.cons here rest)
          have reads : (do
              let bins ← readHash rt withHeader (rec.select (name :: names))
              Except.ok (some bins)) = .ok (some single) ↔
              readHash rt withHeader (rec.select (name :: names)) = .ok single := by
            simp [ExceptLoop.bind_eq_ok]
          constructor
          · rintro ⟨_, ⟨_, ⟨short, rfl⟩, made⟩, got⟩
            simp only [List.length_cons, gt_iff_lt, Nat.zero_lt_succ, if_true, converted] at made
            cases made
            exact ⟨short, reads.mp got⟩
          · rintro ⟨short, got⟩
            refine ⟨some (name :: names), ⟨_, ⟨short, rfl⟩, ?_⟩, reads.mpr got⟩
            simp only [List.length_cons, gt_iff_lt, Nat.zero_lt_succ, if_true, converted]
            rfl

/-- Both read the record of the key. -/
theorem reads_alike_iff {store : AsKey → Option AsRecord} {asKey : AsKey}
    {binNames : Option (List CStr)} (found : store asKey = some rec) :
    (∃ value single, readHash rt withHeader (batchRecord store binNames asKey) = .ok value ∧
      ((∀ names, binNames = some names → names.length < 2 ^ 31) ∧
        readHash rt withHeader (singleRecord binNames rec) = .ok single) ∧ value.Perm single) ↔
        ReadsAlike rt binNames withHeader rec := by
  rcases binNames with _ | _ | ⟨first, others⟩
  · rw [ReadsAlike, ← @both_read_iff rt withHeader]
    simp [batchRecord, found, singleRecord]
  · simp only [batchRecord, found, singleRecord, readHash_select_nil, Except.ok.injEq,
      ReadsAlike, ← reads_no_bins_iff]
    simp
  · rw [ReadsAlike, ← readable_select_iff, ← @both_read_iff rt withHeader]
    · simp only [batchRecord, found, singleRecord, Option.some.injEq, forall_eq']
      constructor
      · rintro ⟨value, single, read, ⟨short, read'⟩, perm⟩
        exact ⟨short, value, single, read, read', perm⟩
      · rintro ⟨short, value, single, read, read', perm⟩
        exact ⟨value, single, read, ⟨short, read'⟩, perm⟩
    · exact List.cons_ne_nil first others

theorem nodup_putHeader {bins : StrHash} (distinct : (keys bins).Nodup) :
    (keys (putHeader rec bins)).Nodup := by
  unfold putHeader
  split <;> exact AssocList.nodup_keys_put distinct

/-- The header is put under the name that it has. -/
theorem putHeader_eq {bins : StrHash} (distinct : (keys bins).Nodup)
    (shown : ∀ name val, (name, val) ∈ bins ↔
      ∃ value, (name, value) ∈ rec.bins ∧ asVal2rbVal rt value = .ok val) :
    ∃ header, (∀ name, HeaderName rt rec name ↔ name = header) ∧
      putHeader rec bins = AssocList.putLast bins header (headerHash rec) := by
  have free (absent : ∀ val, bins.lookup (cstr (ascii "header")) = some val → val = .nil) :
      ¬HeaderTaken rt rec := by
    rintro ⟨value, val, held, here, some_⟩
    have missed := AssocList.lookup_of_mem distinct ((shown _ _).mpr ⟨value, held, here⟩)
    exact some_ (absent val missed)
  unfold putHeader
  split
  case h_1 found =>
    have none_ := free fun val other => by simp [found] at other
    exact ⟨_, fun name => by simp [HeaderName, none_], rfl⟩
  case h_2 found =>
    have none_ := free fun val other => by simpa [found, eq_comm] using other
    exact ⟨_, fun name => by simp [HeaderName, none_], rfl⟩
  case h_3 val some_ found =>
    have taken : HeaderTaken rt rec := by
      rcases (shown _ _).mp (AssocList.mem_of_lookup found) with ⟨value, held, here⟩
      exact ⟨value, val, held, here, some_⟩
    exact ⟨_, fun name => by simp [HeaderName, taken], rfl⟩

theorem mem_putHeader_iff {bins : StrHash} (distinct : (keys bins).Nodup)
    (shown : ∀ name val, (name, val) ∈ bins ↔
      ∃ value, (name, value) ∈ rec.bins ∧ asVal2rbVal rt value = .ok val) (name : CStr)
    (val : RbVal) :
    (name, val) ∈ putHeader rec bins ↔ ShowsEntry rt (.bool true) rec name val := by
  rcases putHeader_eq distinct shown with ⟨header, named, put⟩
  have found : (name, val) ∈ putHeader rec bins ↔ (putHeader rec bins).lookup name = some val :=
    ⟨AssocList.lookup_of_mem (nodup_putHeader distinct), AssocList.mem_of_lookup⟩
  rw [found, put, AssocList.putLast, AssocList.lookup_put]
  split
  case isTrue here =>
    rw [Option.some.injEq]
    constructor
    · rintro rfl
      exact .header rfl ((named name).mpr here)
    · rintro (⟨_, _, other⟩ | _)
      · exact absurd ⟨rfl, (named name).mpr here⟩ other
      · rfl
  case isFalse other =>
    have member : bins.lookup name = some val ↔ (name, val) ∈ bins :=
      ⟨AssocList.mem_of_lookup, AssocList.lookup_of_mem distinct⟩
    rw [member, shown]
    constructor
    · rintro ⟨value, held, here⟩
      exact .bin held here fun both => other ((named name).mp both.2)
    · rintro (⟨held, here, _⟩ | ⟨_, isHeader⟩)
      · exact ⟨_, held, here⟩
      · exact absurd ((named name).mp isHeader) other

/-- The Hash of a record has the entries which the record shows. -/
theorem mem_readHash_iff {hash : StrHash} (read : readHash rt withHeader rec = .ok hash) :
    (keys hash).Nodup ∧ ∀ name val, (name, val) ∈ hash ↔ ShowsEntry rt withHeader rec name val := by
  rcases ExceptLoop.bind_eq_ok.mp read with ⟨bins, decoded, made⟩
  have aligned := record2hash_eq_ok.mp decoded
  have distinct : (keys bins).Nodup := by
    rw [← AssocList.keys_eq_of_forall₂ aligned fun _ _ both => both.1]
    exact rec.distinct
  have shown (name : CStr) (val : RbVal) : (name, val) ∈ bins ↔
      ∃ value, (name, value) ∈ rec.bins ∧ asVal2rbVal rt value = .ok val := by
    constructor
    · intro member
      rcases Aligned.exists_of_mem aligned.flip member with ⟨⟨_, value⟩, held, rfl, here⟩
      exact ⟨value, held, here⟩
    · rintro ⟨value, held, here⟩
      rcases Aligned.exists_of_mem aligned held with ⟨⟨_, val'⟩, member, rfl, here'⟩
      rw [here, Except.ok.injEq] at here'
      rwa [here']
  obtain rfl : checkWithHeader bins withHeader rec = hash := Except.ok.inj made
  by_cases header : withHeader = .bool true
  · subst header
    exact ⟨nodup_putHeader distinct, mem_putHeader_iff distinct shown⟩
  · have plain : checkWithHeader bins withHeader rec = bins := by
      unfold checkWithHeader
      split
      · exact absurd rfl header
      · rfl
    rw [plain]
    refine ⟨distinct, fun name val => ?_⟩
    rw [shown]
    constructor
    · rintro ⟨value, held, here⟩
      exact .bin held here fun both => header both.1
    · rintro (⟨held, here, _⟩ | ⟨isTrue, _⟩)
      · exact ⟨_, held, here⟩
      · exact absurd isTrue header

/-- Two records are read as the same Hash when they show the same. -/
theorem shows_alike_iff {other : AsRecord} :
    (∃ value single, readHash rt withHeader other = .ok value ∧
      readHash rt withHeader rec = .ok single ∧ value.Perm single) ↔
        ShowsAlike rt withHeader other rec := by
  constructor
  · rintro ⟨value, single, read, read', perm⟩
    refine ⟨exists_readHash_iff.mp ⟨_, read⟩, exists_readHash_iff.mp ⟨_, read'⟩, ?_⟩
    intro name val
    rw [← (mem_readHash_iff read).2, ← (mem_readHash_iff read').2]
    exact perm.mem_iff
  · rintro ⟨left, right, entries⟩
    rcases exists_readHash_iff.mpr left with ⟨value, read⟩
    rcases exists_readHash_iff.mpr right with ⟨single, read'⟩
    rcases mem_readHash_iff read with ⟨distinct, shows⟩
    rcases mem_readHash_iff read' with ⟨distinct', shows'⟩
    refine ⟨value, single, read, read', ?_⟩
    rw [List.perm_ext_iff_of_nodup distinct.of_map distinct'.of_map]
    rintro ⟨name, val⟩
    rw [shows, shows', entries]

/-- One key of the list, once the names of the bins are converted. -/
theorem element_agrees_iff {store : AsKey → Option AsRecord} {key : Key} (made : key.Made rt)
    {specificBins : Option (List RbVal)} {binNames : Option (List CStr)}
    (named : NamesBins rt specificBins binNames) :
    (∃ asKey value single, batchKey rt key = .ok asKey ∧
      readHash rt withHeader (batchRecord store binNames asKey) = .ok value ∧
      get rt store key specificBins withHeader = .ok (some single) ∧ value.Perm single) ↔
        ∃ asKey rec, Addresses rt key asKey ∧ store key.asKey = some rec ∧
          (asKey = key.asKey ∧ ReadsAlike rt binNames withHeader rec ∨
            asKey ≠ key.asKey ∧ (∀ names, binNames = some names → names.length < 2 ^ 31) ∧
              ShowsAlike rt withHeader (batchRecord store binNames asKey)
                (singleRecord binNames rec)) := by
  simp only [batchKey_iff made]
  refine exists_congr fun asKey => ?_
  cases found : store key.asKey with
  | none =>
      apply iff_of_false
      · rintro ⟨_, single, _, _, got, _⟩
        simp only [get, found] at got
        rcases ExceptLoop.bind_eq_ok.mp got with ⟨_, _, isNil⟩
        cases isNil
      · rintro ⟨_, _, impossible, _⟩
        cases impossible
  | some rec =>
      simp only [get_eq_ok_iff named found, Option.some.injEq]
      by_cases same : asKey = key.asKey
      · subst same
        have alike := @reads_alike_iff rt withHeader rec store _ binNames found
        constructor
        · rintro ⟨value, single, addresses, agreed⟩
          exact ⟨rec, addresses, rfl, Or.inl ⟨rfl, alike.mp ⟨value, single, agreed⟩⟩⟩
        · rintro ⟨_, addresses, rfl, ⟨_, reads⟩ | ⟨differs, _⟩⟩
          · rcases alike.mpr reads with ⟨value, single, agreed⟩
            exact ⟨value, single, addresses, agreed⟩
          · exact absurd rfl differs
      · constructor
        · rintro ⟨value, single, addresses, read, ⟨short, read'⟩, perm⟩
          exact ⟨rec, addresses, rfl,
            Or.inr ⟨same, short, shows_alike_iff.mp ⟨value, single, read, read', perm⟩⟩⟩
        · rintro ⟨_, addresses, rfl, ⟨equal, _⟩ | ⟨_, short, shows⟩⟩
          · exact absurd equal same
          · rcases shows_alike_iff.mpr shows with ⟨value, single, read, read', perm⟩
            exact ⟨value, single, addresses, read, ⟨short, read'⟩, perm⟩

end Elements

/-- A batch read agrees with single reads exactly where `Alike` holds. -/
theorem agrees_iff {rt : Runtime} {store : AsKey → Option AsRecord} {list : List Key}
    (made : ∀ key ∈ list, key.Made rt) {specificBins : Option (List RbVal)} {withHeader : RbVal} :
    Agrees rt store list specificBins withHeader ↔
      Alike rt store list specificBins withHeader := by
  constructor
  · rintro ⟨values, read, agreed⟩
    rcases ExceptLoop.bind_eq_ok.mp read with ⟨binNames, named, read⟩
    rw [batchBinNames_eq_ok] at named
    rcases ExceptLoop.bind_eq_ok.mp read with ⟨batch, keyed, read⟩
    rw [ExceptLoop.collect_eq_ok] at keyed read
    refine ⟨binNames, named, ?_⟩
    intro key member
    apply (element_agrees_iff (made key member) named).mp
    rcases List.mem_iff_getElem?.mp member with ⟨index, here⟩
    rcases Aligned.exists_of_getElem? keyed here with ⟨asKey, there, addressed⟩
    rcases Aligned.exists_of_getElem? read there with ⟨value, shown, readAs⟩
    rcases Aligned.exists_of_getElem? agreed here with ⟨value', shown', single, got, perm⟩
    rw [shown, Option.some.injEq] at shown'
    subst shown'
    exact ⟨asKey, value, single, addressed, readAs, got, perm⟩
  · rintro ⟨binNames, named, alike⟩
    have each : ∀ key ∈ list, ∃ step : AsKey × StrHash, ∃ single,
        batchKey rt key = .ok step.1 ∧
          readHash rt withHeader (batchRecord store binNames step.1) = .ok step.2 ∧
          get rt store key specificBins withHeader = .ok (some single) ∧ step.2.Perm single := by
      intro key member
      rcases (element_agrees_iff (made key member) named).mpr (alike key member) with
        ⟨asKey, value, single, agreed⟩
      exact ⟨(asKey, value), single, agreed⟩
    rcases Aligned.exists_images each with ⟨steps, aligned⟩
    refine ⟨steps.map Prod.snd, ?_, ?_⟩
    · have keyed : ExceptLoop.collect (batchKey rt) list = .ok (steps.map Prod.fst) := by
        rw [ExceptLoop.collect_eq_ok, List.forall₂_map_right_iff]
        exact aligned.imp fun _ _ step => step.choose_spec.1
      have read : ExceptLoop.collect
          (fun asKey => readHash rt withHeader (batchRecord store binNames asKey))
            (steps.map Prod.fst) = .ok (steps.map Prod.snd) := by
        rw [ExceptLoop.collect_eq_ok, List.forall₂_map_left_iff, List.forall₂_map_right_iff,
          List.forall₂_same]
        intro step member
        rcases Aligned.exists_of_mem aligned.flip member with ⟨_, _, _, _, read, _⟩
        exact read
      rw [batchGet, batchBinNames_eq_ok.mpr named]
      show (ExceptLoop.collect (batchKey rt) list >>= _) = _
      rw [keyed]
      exact read
    · rw [List.forall₂_map_right_iff]
      apply aligned.imp
      rintro key step ⟨single, _, _, got, perm⟩
      exact ⟨single, got, perm⟩

def binRecord : AsRecord :=
  ((AsRecord.init 1).set (cstr (ascii "b")) (.integer 1)).2

theorem agrees_iff_sample : Agrees Runtime.sample (fun _ => some binRecord)
    [textKey "a", fixnumKey, textKey "b"] (some [.string ⟨ascii "b", .utf8⟩]) (.bool true) := by
  apply (agrees_iff _).mpr
  · have text (ns : String) : Addresses Runtime.sample (textKey ns) (textKey ns).asKey :=
      @Addresses.text _ (textKey ns) ⟨ascii "k", .utf8⟩ (by rintro ⟨⟩) rfl
        (RbStr.readable_of_nulFree (by decide))
    have alike (asKey : AsKey) : asKey = asKey ∧
        ReadsAlike Runtime.sample (some [cstr (ascii "b")]) (.bool true) binRecord := by
      refine ⟨rfl, by decide, ?_⟩
      intro bin member _
      rw [List.mem_singleton.mp (show bin ∈ [(cstr (ascii "b"), AsVal.integer 1)] from member)]
      trivial
    refine ⟨some [cstr (ascii "b")], .some (.cons ⟨_, rfl, ?_, rfl⟩ .nil), ?_⟩
    · exact RbStr.readable_of_nulFree (by decide)
    · intro key member
      fin_cases member
      · exact ⟨_, binRecord, text "a", rfl, Or.inl (alike _)⟩
      · exact ⟨_, binRecord, .fixnum rfl, rfl, Or.inl (alike _)⟩
      · exact ⟨_, binRecord, text "b", rfl, Or.inl (alike _)⟩
  · intro key member
    fin_cases member
    · exact textKey_made (by decide)
    · exact fixnumKey_made
    · exact textKey_made (by decide)

/-- A missing record, a Symbol as user key, and an empty list of names. -/
theorem agrees_fails :
    (textKey "a").Made Runtime.sample ∧ symbolKey.Made Runtime.sample ∧
      ¬Agrees Runtime.sample (fun _ => none) [textKey "a"] none .nil ∧
        ¬Agrees Runtime.sample (fun _ => some binRecord) [symbolKey] none .nil ∧
          ¬Agrees Runtime.sample (fun _ => some binRecord) [textKey "a"] (some []) .nil := by
  refine ⟨textKey_made (by decide), symbolKey_made, ?_, ?_, ?_⟩
  · rintro ⟨values, _, agreed⟩
    rcases agreed with _ | ⟨⟨single, got, _⟩, _⟩
    cases got
  · rintro ⟨values, read, _⟩
    cases read
  · rintro ⟨values, read, agreed⟩
    rcases agreed with _ | ⟨⟨single, got, perm⟩, _⟩
    have batch : batchGet Runtime.sample (fun _ => some binRecord) [textKey "a"] (some []) .nil =
        .ok [[]] := rfl
    have alone : get Runtime.sample (fun _ => some binRecord) (textKey "a") (some []) .nil =
        .ok (some [(cstr (ascii "b"), .integer 1)]) := rfl
    rw [batch] at read
    rw [alone] at got
    cases read
    cases got
    exact absurd perm.length_eq (by decide)

end AerospikeCRuby
