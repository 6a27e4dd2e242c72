import AerospikeCRuby.Codec.Denotation
import AerospikeCRuby.Codec.Filling

/-!
# What put hands over

`put` fills a record from a Hash and ignores the answers of the setters.  It
hands over every last entry of a name exactly when it refuses the Hash or the
options, or no such entry is passed over, C sees its texts whole, its name is
short, its GeoJson still has its json, and the names are no more than the
capacity, which is the number of entries modulo 2^16.
-/

namespace AerospikeCRuby

open AssocList (keys putLast)

variable {rt : Runtime} {Ref : Type}

/-- The value handed over stands for the one in the Hash, where a GeoJson has the json it had
before the call. -/
inductive Stands (rt : Runtime) (heap : GeoHeap Ref) : BinVal Ref → AsVal → Prop
  | nil {copied : ∀ json, RbVal.nil ≠ .geoJson json} : Stands rt heap (.plain .nil copied) .nil
  | geoJson {ref : Ref} {json : CStr} : (heap ref).value = some json →
      Stands rt heap (.geoJson ref) (.geojson json.bytes)
  | plain {val : RbVal} {copied : ∀ json, val ≠ .geoJson json} {value : AsVal} :
      Denotes rt val value → Stands rt heap (.plain val copied) value

/-- Every distinct text of a key names exactly one bin, whose value stands for that of the last
entry of the text. -/
def Keeps (rt : Runtime) (heap : GeoHeap Ref) (bins : List (RbVal × BinVal Ref))
    (handed : Handed) : Prop :=
  ∀ text val, LastEntry rt bins text val →
    ∃ name value, name.bytes = text ∧
      handed.bins.filter (fun bin => bin.1 = name) = [(name, some value)] ∧
      Stands rt heap val value

/-- An entry the switch does not raise on. -/
def Taken (rt : Runtime) (entry : RbVal × RbVal) : Prop :=
  (∃ handle, entry.2 = .data handle) ∨
    Nameable rt entry.1 ∧
      (entry.2 = .nil ∨ (∃ json, entry.2 = .geoJson json) ∨ Convertible rt entry.2)

def EntryTaken (rt : Runtime) : RbVal × BinVal Ref → Prop
  | (key, .geoJson _) => Nameable rt key
  | (key, .plain val _) => Taken rt (key, val)

/-- The Hash holds an entry, or the options a policy or a ttl, that `put` raises on. -/
def Refused (rt : Runtime) (call : PutCall Ref) : Prop :=
  (∃ entry ∈ call.bins, ¬EntryTaken rt entry) ∨
    (∃ abort, call.options.policy = .error abort) ∨
    ∃ ttl, call.options.ttl = .integer ttl ∧ IsFixnum ttl ∧ ¬(-2 ^ 31 ≤ ttl ∧ ttl < 2 ^ 31)

/-- The text under which an entry is set, if it is not passed over. -/
def setText (rt : Runtime) (entry : RbVal × BinVal Ref) : Option Bytes :=
  match entry.2 with
  | .plain (.data _) _ => none
  | _ => keyText rt entry.1

def setTexts (rt : Runtime) (bins : List (RbVal × BinVal Ref)) : List Bytes :=
  bins.filterMap (setText rt)

/-- The GeoJson is also the value of an entry which a later one of the same text replaces. -/
def Overwritten (rt : Runtime) (bins : List (RbVal × BinVal Ref)) (ref : Ref) : Prop :=
  ∃ before key after, bins = before ++ (key, .geoJson ref) :: after ∧
    ∃ later ∈ after, keyText rt later.1 = keyText rt key

/-- The value can be handed over: C sees all its texts, and a GeoJson has its json and keeps it
while the record is filled. -/
def Presentable (rt : Runtime) (heap : GeoHeap Ref) (bins : List (RbVal × BinVal Ref)) :
    BinVal Ref → Prop
  | .geoJson ref => (heap ref).value ≠ none ∧ ¬Overwritten rt bins ref
  | .plain (.data _) _ => False
  | .plain val _ => Whole rt val

structure Kept (rt : Runtime) (heap : GeoHeap Ref) (bins : List (RbVal × BinVal Ref)) : Prop where
  /-- No value of a last entry is a C struct other than a GeoJson, or is lost in part. -/
  presentable : ∀ text val, LastEntry rt bins text val → Presentable rt heap bins val
  /-- C sees every name, and none is longer than a bin name may be. -/
  named : ∀ text val, LastEntry rt bins text val → NulFree text ∧ text.length ≤ asBinNameMaxLen
  /-- The distinct names are no more than the capacity of the record. -/
  fits : (setTexts rt bins).dedup.length ≤ bins.length % 2 ^ 16

/-- The last entry of a name is not passed over, and C sees the name. -/
structure Spelled (rt : Runtime) (bins : List (RbVal × BinVal Ref)) : Prop where
  free : ∀ text val, LastEntry rt bins text val → NulFree text
  set : ∀ text val, LastEntry rt bins text val → ∀ handle copied, val ≠ .plain (.data handle) copied

theorem Spelled.tail {entry : RbVal × BinVal Ref} {rest : List (RbVal × BinVal Ref)}
    (spelled : Spelled rt (entry :: rest)) : Spelled rt rest where
  free := fun text val last => spelled.free text val (lastEntry_cons.mpr (Or.inr last))
  set := fun text val last => spelled.set text val (lastEntry_cons.mpr (Or.inr last))

theorem binSets_iff_taken {entry : RbVal × RbVal} :
    (∃ setting, BinSets rt entry setting) ↔ Taken rt entry := by
  constructor
  · rintro ⟨_, sets⟩
    cases sets with
    | skip key handle => exact Or.inl ⟨handle, rfl⟩
    | set named encodes => exact Or.inr ⟨named, encodeBin_isOk_iff.mp ⟨_, encodes⟩⟩
  · rcases entry with ⟨key, val⟩
    rintro (⟨handle, same⟩ | ⟨named, accepted⟩)
    · cases same
      exact ⟨none, .skip key handle⟩
    · rcases encodeBin_isOk_iff.mpr accepted with ⟨value, encodes⟩
      exact ⟨_, .set named encodes⟩

theorem lays_iff_taken {entry : RbVal × BinVal Ref} :
    (∃ setting, Lays rt entry setting) ↔ EntryTaken rt entry := by
  rcases entry with ⟨key, ref | ⟨val, copied⟩⟩
  · constructor
    · rintro ⟨_, ⟨⟩⟩
      assumption
    · intro named
      exact ⟨_, .lent named⟩
  · rw [EntryTaken, ← binSets_iff_taken]
    constructor
    · rintro ⟨_, lays⟩
      exact ⟨_, @binSets_of_lays rt Ref (fun _ => cstr []) _ _ lays⟩
    · rintro ⟨_, sets⟩
      exact @exists_lays_of_binSets rt Ref (fun _ => cstr []) (key, .plain val copied) _ sets

theorem lays_some {entry : RbVal × BinVal Ref} {name : CStr} {ptr : BinPtr Ref}
    (lays : Lays rt entry (some (name, ptr))) :
    Nameable rt entry.1 ∧ binName rt entry.1 = name ∧ setText rt entry = keyText rt entry.1 := by
  cases lays with
  | @own key val copied value named encodes =>
      refine ⟨named, rfl, ?_⟩
      cases val with
      | data handle => exact absurd encodes encodeBin_data
      | _ => rfl
  | lent named => exact ⟨named, rfl, rfl⟩

/-- Every entry but a C struct is set. -/
theorem exists_some_of_lays {entry : RbVal × BinVal Ref} {setting : Option (CStr × BinPtr Ref)}
    (lays : Lays rt entry setting)
    (noData : ∀ handle copied, entry.2 ≠ .plain (.data handle) copied) :
    ∃ name ptr, setting = some (name, ptr) := by
  cases lays with
  | skip key handle => exact absurd rfl (noData handle _)
  | own | lent => exact ⟨_, _, rfl⟩

section Filled

variable {bins : List (RbVal × BinVal Ref)} {settings : List (Option (CStr × BinPtr Ref))}

theorem Spelled.keyText_eq (spelled : Spelled rt bins) {entry : RbVal × BinVal Ref}
    (member : entry ∈ bins) (named : Nameable rt entry.1) :
    keyText rt entry.1 = some (binName rt entry.1).bytes := by
  rcases Option.isSome_iff_exists.mp (isSome_keyText_of_nameable named) with ⟨text, here⟩
  rcases exists_lastEntry ⟨entry, member, here⟩ with ⟨val, last⟩
  rw [here, binName_bytes here (spelled.free text val last)]

/-- What is set comes from an entry of the same text. -/
theorem exists_entry_of_set (spelled : Spelled rt bins)
    (lays : List.Forall₂ (Lays rt) bins settings)
    {name : CStr} (member : name ∈ keys settings.reduceOption) :
    ∃ entry ∈ bins, keyText rt entry.1 = some name.bytes := by
  rcases List.mem_map.mp member with ⟨⟨_, ptr⟩, present, rfl⟩
  rcases Aligned.exists_of_mem lays.flip (List.reduceOption_mem_iff.mp present) with
    ⟨entry, found, made⟩
  rcases lays_some made with ⟨named, same, _⟩
  exact ⟨entry, found, by rw [spelled.keyText_eq found named, same]⟩

theorem set_of_lastEntry (spelled : Spelled rt bins) (lays : List.Forall₂ (Lays rt) bins settings)
    {text : Bytes} {val : BinVal Ref} (last : LastEntry rt bins text val) :
    ∃ key name ptr, Lays rt (key, val) (some (name, ptr)) ∧ name.bytes = text ∧
      (settings.reduceOption.foldl (fun bins setting => putLast bins setting.1 setting.2)
        []).lookup name = some ptr := by
  have set := spelled.set text val last
  rcases id last with ⟨before, key, after, rfl, here, fresh⟩
  rcases Aligned.split lays with ⟨front, setting, back, rfl, _, made, later⟩
  rcases exists_some_of_lays made set with ⟨name, ptr, rfl⟩
  rcases lays_some made with ⟨named, same, _⟩
  have keyed : name.bytes = text := by
    have whole := spelled.keyText_eq (by simp) named
    rw [here, same] at whole
    exact (Option.some.inj whole).symm
  refine ⟨key, name, ptr, made, keyed, ?_⟩
  rw [List.reduceOption_append, List.reduceOption_cons_of_some]
  refine AssocList.lookup_foldl_put (fun bins _ => bins.length) _ ptr ?_ []
  intro member
  rcases List.mem_map.mp member with ⟨⟨_, other⟩, present, rfl⟩
  rcases Aligned.exists_of_mem later.flip (List.reduceOption_mem_iff.mp present) with
    ⟨entry, found, lay⟩
  rcases lays_some lay with ⟨named', same', _⟩
  apply fresh entry found
  rw [spelled.keyText_eq (by simp [found]) named', same', keyed]

/-- The names which are set are the texts. -/
theorem mem_keys_iff (spelled : Spelled rt bins) (lays : List.Forall₂ (Lays rt) bins settings)
    {name : CStr} :
    name ∈ keys settings.reduceOption ↔ ∃ entry ∈ bins, keyText rt entry.1 = some name.bytes := by
  refine ⟨exists_entry_of_set spelled lays, ?_⟩
  intro named
  rcases exists_lastEntry named with ⟨val, last⟩
  rcases set_of_lastEntry spelled lays last with ⟨_, other, ptr, _, same, found⟩
  have injective : other = name := by
    cases other
    cases name
    cases same
    rfl
  rw [injective] at found
  have member : name ∈ keys (settings.reduceOption.foldl
      (fun bins setting => putLast bins setting.1 setting.2) []) :=
    List.mem_map_of_mem (AssocList.mem_of_lookup found)
  simpa using (AssocList.mem_keys_foldl_putLast settings.reduceOption [] name).mp member

theorem setTexts_eq (spelled : Spelled rt bins) (lays : List.Forall₂ (Lays rt) bins settings) :
    setTexts rt bins = (keys settings.reduceOption).map CStr.bytes := by
  induction lays with
  | nil => rfl
  | @cons entry setting rest settings lay _ ih =>
      rw [setTexts, List.filterMap_cons, ← setTexts, ih spelled.tail]
      rcases setting with _ | ⟨name, ptr⟩
      · cases lay
        rfl
      · rcases lays_some lay with ⟨named, same, set⟩
        rw [set, spelled.keyText_eq List.mem_cons_self named, same]
        rfl

theorem overwritten_cons {entry : RbVal × BinVal Ref} {rest : List (RbVal × BinVal Ref)}
    {ref : Ref} :
    Overwritten rt (entry :: rest) ref ↔
      (entry.2 = .geoJson ref ∧ ∃ later ∈ rest, keyText rt later.1 = keyText rt entry.1) ∨
        Overwritten rt rest ref := by
  constructor
  · rintro ⟨before, key, after, split, again⟩
    rcases before with _ | ⟨first, before⟩
    · rcases List.cons.inj split with ⟨rfl, rfl⟩
      exact Or.inl ⟨rfl, again⟩
    · rcases List.cons.inj split with ⟨rfl, rfl⟩
      exact Or.inr ⟨before, key, after, rfl, again⟩
  · rintro (⟨isGeo, again⟩ | ⟨before, key, after, rfl, again⟩)
    · rcases entry with ⟨key, val⟩
      cases isGeo
      exact ⟨[], key, rest, rfl, again⟩
    · exact ⟨entry :: before, key, after, rfl, again⟩

/-- A GeoJson is overwritten in the Hash when its struct is replaced in the record. -/
theorem overwritten_iff_replaced (spelled : Spelled rt bins)
    (lays : List.Forall₂ (Lays rt) bins settings) {ref : Ref} :
    Overwritten rt bins ref ↔ Replaced settings.reduceOption ref := by
  induction lays with
  | nil =>
      refine iff_of_false ?_ not_replaced_nil
      rintro ⟨before, key, after, split, _⟩
      simp at split
  | @cons entry setting rest settings lay lays ih =>
      have whole : Nameable rt entry.1 → keyText rt entry.1 = some (binName rt entry.1).bytes :=
        spelled.keyText_eq List.mem_cons_self
      have again := @mem_keys_iff _ _ _ _ spelled.tail lays (binName rt entry.1)
      rw [overwritten_cons, ih spelled.tail]
      cases lay with
      | skip key handle => simp
      | own named encodes => simp [replaced_cons]
      | lent named =>
          rw [List.reduceOption_cons_of_some, replaced_cons, again, whole named,
            BinPtr.lent.injEq, BinVal.geoJson.injEq]

end Filled

variable {heap heap' : GeoHeap Ref} {call : PutCall Ref} {handed : Handed} {rec : LentRecord Ref}

/-- What a bin is read as stands for its entry exactly when the entry is presentable. -/
theorem stands_iff {bins : List (RbVal × BinVal Ref)} {key : RbVal} {val : BinVal Ref} {name : CStr}
    {ptr : BinPtr Ref} (lay : Lays rt (key, val) (some (name, ptr)))
    (structs : ∀ ref, (Overwritten rt bins ref → (heap' ref).value = none) ∧
      (¬Overwritten rt bins ref → heap' ref = heap ref)) :
    (∃ value, ptr.read heap' = some value ∧ Stands rt heap val value) ↔
      Presentable rt heap bins val := by
  cases lay with
  | @own _ val copied value named encodes =>
      have plain (noNil : val ≠ .nil) (noData : ∀ handle, val ≠ .data handle) :
          (∃ read, (BinPtr.own value).read heap' = some read ∧
              Stands rt heap (.plain val copied) read) ↔ Whole rt val := by
        have encoded : array2asListElement rt val = .ok value := by
          cases val with
          | nil => exact absurd rfl noNil
          | geoJson json => exact absurd rfl (copied json)
          | _ => exact encodes
        rw [← denotes_iff_whole encoded]
        constructor
        · rintro ⟨_, ⟨⟩, stands⟩
          cases stands with
          | nil => exact absurd rfl noNil
          | plain denotes => exact denotes
        · intro denotes
          exact ⟨value, rfl, .plain denotes⟩
      cases val with
      | nil =>
          cases encodes
          exact iff_of_true ⟨_, rfl, .nil⟩ trivial
      | data handle => exact absurd encodes encodeBin_data
      | _ => exact plain nofun nofun
  | @lent _ ref named =>
      rcases structs ref with ⟨lost, same⟩
      rw [Presentable, BinPtr.read]
      constructor
      · rintro ⟨_, read, _⟩
        rcases Option.map_eq_some_iff.mp read with ⟨json, found, _⟩
        by_cases overwritten : Overwritten rt bins ref
        · rw [lost overwritten] at found
          cases found
        · rw [same overwritten] at found
          exact ⟨by simp [found], overwritten⟩
      · rintro ⟨live, kept⟩
        rcases Option.ne_none_iff_exists'.mp live with ⟨json, found⟩
        refine ⟨_, ?_, .geoJson found⟩
        rw [same kept, found]
        rfl

theorem not_stands_data {handle : ℕ} {copied : ∀ json, RbVal.data handle ≠ .geoJson json}
    {value : AsVal} : ¬Stands rt heap (.plain (.data handle) copied) value := by
  rintro ⟨⟩
  rename Denotes rt _ _ => denotes
  cases denotes

theorem putTtl_isOk_iff {ttl : RbVal} :
    (∃ value, putTtl ttl = .ok value) ↔
      ¬∃ value, ttl = .integer value ∧ IsFixnum value ∧ ¬(-2 ^ 31 ≤ value ∧ value < 2 ^ 31) := by
  cases ttl with
  | integer value =>
      rw [putTtl, fix2int]
      split
      case isTrue fixnum =>
        split
        case isTrue inside => exact iff_of_true ⟨_, rfl⟩ (by simpa using fun _ _ => inside)
        case isFalse outside =>
          refine iff_of_false ?_ (not_not_intro ⟨value, rfl, fixnum, outside⟩)
          rintro ⟨_, ⟨⟩⟩
      case isFalse wide => exact iff_of_true ⟨_, rfl⟩ (by simp [wide])
  | _ => exact iff_of_true ⟨_, rfl⟩ (by simp)

variable [DecidableEq Ref]

/-- `put` hands over a record where it refuses nothing. -/
theorem handOver_isOk_iff :
    (∃ given, handOver rt heap call = .ok given) ↔ ¬Refused rt call := by
  have filled : (∃ state, hash2recordLent rt call.bins (heap, .init call.bins.length) = .ok state) ↔
      ∀ entry ∈ call.bins, EntryTaken rt entry := by
    simp only [hash2recordLent_eq_ok, ← lays_iff_taken]
    constructor
    · rintro ⟨_, settings, lays, _⟩ entry member
      rcases Aligned.exists_of_mem lays member with ⟨setting, _, lay⟩
      exact ⟨setting, lay⟩
    · intro each
      rcases Aligned.exists_images each with ⟨settings, lays⟩
      exact ⟨_, settings, lays, rfl⟩
  rw [Refused, not_or, not_or, ← putTtl_isOk_iff]
  constructor
  · rintro ⟨⟨handed, heap', rec⟩, given⟩
    rcases handOver_eq_ok.mp given with ⟨done, policy, converted, _⟩
    refine ⟨?_, by simp [policy], ⟨_, converted⟩⟩
    rintro ⟨entry, member, refused⟩
    exact refused (filled.mp ⟨_, done⟩ entry member)
  · rintro ⟨taken, policy, ⟨ttl, converted⟩⟩
    rcases filled.mpr (by simpa using taken) with ⟨⟨heap', rec⟩, done⟩
    refine ⟨(⟨_, 0, ttl⟩, heap', rec), handOver_eq_ok.mpr ⟨done, ?_, converted, rfl, rfl⟩⟩
    cases outcome : call.options.policy with
    | error abort => exact absurd ⟨abort, outcome⟩ policy
    | ok => rfl

/-- The bins handed over have distinct short names and no more than fit. -/
theorem handOver_bounded (given : handOver rt heap call = .ok (handed, heap', rec)) :
    (keys handed.bins).Nodup ∧ handed.bins.length ≤ call.bins.length % 2 ^ 16 ∧
      ∀ name ∈ keys handed.bins, name.bytes.length ≤ asBinNameMaxLen := by
  rcases handOver_eq_ok.mp given with ⟨filled, _, _, bins, _⟩
  rcases hash2record_of_lent filled (resolves_init (fun _ => cstr []) _) with
    ⟨record, made, resolves⟩
  have sameKeys : keys handed.bins = keys record.bins := by
    rw [bins, resolves.bins, keys, keys, List.map_map, List.map_map]
    rfl
  have sameLength : handed.bins.length = record.bins.length := by
    rw [bins, resolves.bins, List.length_map, List.length_map]
  have capacity : record.capacity = call.bins.length % 2 ^ 16 := by
    rcases hash2record_eq_ok.mp made with ⟨settings, _, rfl⟩
    simp
  rw [sameKeys, sameLength, ← capacity]
  exact ⟨record.distinct, record.fits, record.named⟩

/-- Where the record has room for all names, a last entry is handed over when it is presentable. -/
theorem handed_iff (given : handOver rt heap call = .ok (handed, heap', rec))
    (spelled : Spelled rt call.bins)
    (short : ∀ text val, LastEntry rt call.bins text val → text.length ≤ asBinNameMaxLen)
    (fits : (setTexts rt call.bins).dedup.length ≤ call.bins.length % 2 ^ 16) {text : Bytes}
    {val : BinVal Ref} (last : LastEntry rt call.bins text val) :
    (∃ name value, name.bytes = text ∧
        handed.bins.filter (fun bin => bin.1 = name) = [(name, some value)] ∧
        Stands rt heap val value) ↔ Presentable rt heap call.bins val := by
  have distinct := (handOver_bounded given).1
  rcases handOver_eq_ok.mp given with ⟨filled, _, _, bins, _⟩
  rcases hash2recordLent_eq_ok.mp filled with ⟨settings, lays, made⟩
  have injective : Function.Injective CStr.bytes := by
    rintro ⟨bytes, _⟩ ⟨bytes', _⟩ rfl
    rfl
  rw [setTexts_eq spelled lays, List.dedup_map_of_injective injective, List.length_map,
    ← AssocList.length_foldl_putLast] at fits
  have shortNames : ∀ setting ∈ settings.reduceOption,
      setting.1.bytes.length ≤ asBinNameMaxLen := by
    intro setting member
    rcases exists_lastEntry (exists_entry_of_set spelled lays (List.mem_map_of_mem member)) with
      ⟨val, last⟩
    exact short _ val last
  rcases @setAll_spec _ _ heap (.init call.bins.length) _ shortNames fits with ⟨allBins, structs⟩
  rw [made] at allBins structs
  rcases set_of_lastEntry spelled lays last with ⟨key, name, ptr, lay, named, found⟩
  have read : handed.bins.lookup name = some (ptr.read heap') := by
    rw [bins, AssocList.lookup_map_values, allBins]
    exact congrArg (Option.map _) found
  have kept (ref : Ref) : (Overwritten rt call.bins ref → (heap' ref).value = none) ∧
      (¬Overwritten rt call.bins ref → heap' ref = heap ref) := by
    have lost : Lost (.init call.bins.length) settings.reduceOption ref ↔
        Overwritten rt call.bins ref := by
      rw [overwritten_iff_replaced spelled lays]
      simp [Lost, LentRecord.init]
    rw [← lost]
    exact structs ref
  rw [← stands_iff lay kept]
  constructor
  · rintro ⟨other, value, same, only, stands⟩
    obtain rfl : other = name := injective (same.trans named.symm)
    rw [AssocList.filter_eq_singleton_iff distinct, read, Option.some.injEq] at only
    exact ⟨value, only, stands⟩
  · rintro ⟨value, only, stands⟩
    refine ⟨name, value, named, ?_, stands⟩
    rw [AssocList.filter_eq_singleton_iff distinct, read, only]

/-- What is handed over keeps the Hash when the Hash can be kept. -/
theorem keeps_iff_kept (given : handOver rt heap call = .ok (handed, heap', rec)) :
    Keeps rt heap call.bins handed ↔ Kept rt heap call.bins := by
  constructor
  · intro keeps
    rcases handOver_bounded given with ⟨distinct, fits, short⟩
    have present {name : CStr} {value : AsVal}
        (only : handed.bins.filter (fun bin => bin.1 = name) = [(name, some value)]) :
        name ∈ keys handed.bins :=
      List.mem_map_of_mem (AssocList.mem_of_lookup
        ((AssocList.filter_eq_singleton_iff distinct).mp only))
    have named : ∀ text val, LastEntry rt call.bins text val →
        NulFree text ∧ text.length ≤ asBinNameMaxLen := by
      intro text val last
      rcases keeps text val last with ⟨name, value, rfl, only, _⟩
      exact ⟨name.nulFree, short name (present only)⟩
    have spelled : Spelled rt call.bins := by
      refine ⟨fun text val last => (named text val last).1, ?_⟩
      rintro text _ last handle copied rfl
      rcases keeps text _ last with ⟨_, _, _, _, stands⟩
      exact not_stands_data stands
    have room : (setTexts rt call.bins).dedup.length ≤ call.bins.length % 2 ^ 16 := by
      have included : (setTexts rt call.bins).dedup ⊆ (keys handed.bins).map CStr.bytes := by
        intro text member
        rcases List.mem_filterMap.mp (List.mem_dedup.mp member) with ⟨entry, found, set⟩
        have here : keyText rt entry.1 = some text := by
          unfold setText at set
          split at set
          · cases set
          · exact set
        rcases exists_lastEntry ⟨entry, found, here⟩ with ⟨val, last⟩
        rcases keeps text val last with ⟨name, value, same, only, _⟩
        exact List.mem_map.mpr ⟨name, present only, same⟩
      have bounded := (List.nodup_dedup (setTexts rt call.bins)).length_le_of_subset included
      rw [List.length_map, keys, List.length_map] at bounded
      exact bounded.trans fits
    refine ⟨?_, named, room⟩
    intro text val last
    exact (handed_iff given spelled (fun text val last => (named text val last).2) room last).mp
      (keeps text val last)
  · intro kept text val last
    have spelled : Spelled rt call.bins := by
      refine ⟨fun text val last => (kept.named text val last).1, ?_⟩
      rintro text _ last handle copied rfl
      exact kept.presentable text _ last
    exact (handed_iff given spelled (fun text val last => (kept.named text val last).2) kept.fits
      last).mpr (kept.presentable text val last)

/-- `put` drops nothing silently on exactly the inputs it refuses and those it keeps. -/
theorem put_keeps_iff :
    (∀ given, handOver rt heap call = .ok given → Keeps rt heap call.bins given.1) ↔
      Refused rt call ∨ Kept rt heap call.bins := by
  constructor
  · intro keeps
    by_cases refused : Refused rt call
    · exact Or.inl refused
    · rcases handOver_isOk_iff.mpr refused with ⟨⟨handed, heap', rec⟩, given⟩
      exact Or.inr ((keeps_iff_kept given).mp (keeps _ given))
  · rintro (refused | kept) ⟨handed, heap', rec⟩ given
    · exact absurd refused (handOver_isOk_iff.mp ⟨_, given⟩)
    · exact (keeps_iff_kept given).mpr kept

/-- A name of fifteen bytes: the record handed over is empty. -/
theorem put_drops_long_name :
    ¬∀ given, handOver Runtime.sample (fun none_ : Empty => nomatch none_)
        ⟨[(.string ⟨ascii "fifteen_letters", .utf8⟩, .plain (.integer 1) (by simp))],
          ⟨.ok (), .nil⟩⟩ = .ok given →
      Keeps Runtime.sample (fun none_ : Empty => nomatch none_)
        [(.string ⟨ascii "fifteen_letters", .utf8⟩, .plain (.integer 1) (by simp))] given.1 := by
  intro keeps
  rcases keeps _ rfl (ascii "fifteen_letters") _ ⟨[], _, [], rfl, rfl, by simp⟩ with
    ⟨name, value, _, only, _⟩
  cases only

end AerospikeCRuby
