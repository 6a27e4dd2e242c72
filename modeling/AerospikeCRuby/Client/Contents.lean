import AerospikeCRuby.Client.Store

/-!
# The client as a store

Seen from Ruby the cluster is a map from keys to the values of named bins.  A put
writes the norms of its values over what is there, where nil takes a bin away, a
delete takes all of them away, and a read shows them.  The documented behaviour
of the commands says how the records which the cluster holds change.
-/

namespace AerospikeCRuby

/-- The values of the bins of every key. -/
abbrev Contents := AsKey → CStr → Option RbVal

namespace Contents

/-- A record without bins does not exist. -/
def Present (contents : Contents) (key : AsKey) : Prop :=
  ∃ name, contents key name ≠ none

/-- The value of a bin once `new` is put over `old`. -/
def overwrite (old : Option RbVal) : Option RbVal → Option RbVal
  | none => old
  | some .nil => none
  | some value => some value

theorem overwrite_some {old : Option RbVal} {value : RbVal} (noNil : value ≠ .nil) :
    overwrite old (some value) = some value := by
  cases value <;> first | rfl | exact absurd rfl noNil

/-- Put the bins of a Hash, over those that are there or in their place. -/
def write (contents : Contents) (replaces : Bool) (key : AsKey) (bins : StrHash) : Contents :=
  Function.update contents key fun name =>
    overwrite (if replaces then none else contents key name) (bins.lookup name)

def erase (contents : Contents) (key : AsKey) : Contents :=
  Function.update contents key fun _ => none

end Contents

namespace Client

section Specification

variable (rt : Runtime) {Ref Policy : Type} (json : Ref → CStr) (replaces : Policy → Bool)

/-- What an event does to the contents when it takes effect; a GeoJson counts as the json it was
made with. -/
def effect (contents : Contents) : Event Ref Policy → Contents
  | .put key bins (.ok policy) _ =>
      contents.write (replaces policy) key.asKey (normHash rt (bins.map (resolve json)))
  | .delete key _ => contents.erase key.asKey
  | .expires key => contents.erase key
  | _ => contents

/-- The arguments do not convert. -/
def Refuses [DecidableEq Ref] : Event Ref Policy → Abort → Prop
  | .put _ bins policy ttl, abort =>
      handOver rt (fun ref => asGeojsonInit (json ref)) (putCall bins policy ttl) = .error abort
  | .get _ specificBins policy _, abort =>
      policy = .error abort ∨ getBinNames rt specificBins = .error abort
  | .delete _ policy, abort => policy = .error abort
  | .exists_ _ policy, abort => policy = .error abort
  | .getHeader _ policy, abort => policy = .error abort
  | .touch _ ttl policy, abort => touchOperations rt ttl = .error abort ∨ policy = .error abort
  | .expires _, _ => False

/-- The bins that a read shows, but for those whose place its header may take. -/
def Shows (contents : Contents) (key : AsKey) (names : Option (List CStr)) (withHeader : RbVal)
    (bins : StrHash) : Prop :=
  ∀ name, (withHeader = .bool true →
      name ≠ cstr (ascii "header") ∧ name ≠ cstr (ascii "record_header")) →
    Option.Rel RbVal.Same (bins.lookup name)
      (if names.all fun list => name ∈ list then contents key name else none)

/-- The answers which a call may get, and what becomes of the contents.  Whether a command that
failed has taken effect is not known. -/
inductive Allows [DecidableEq Ref] : Contents → Event Ref Policy → Answer → Contents → Prop where
  | raised {contents : Contents} {event : Event Ref Policy} {abort : Abort} :
      Refuses rt json event abort → Allows contents event (.raised abort) contents
  | failed {contents : Contents} {event : Event Ref Policy} {status : ℤ} :
      Allows contents event (.failed status) contents
  | inDoubt {contents : Contents} {event : Event Ref Policy} {status : ℤ} :
      Allows contents event (.failed status) (effect rt json replaces contents event)
  | put {contents : Contents} {key bins policy ttl} :
      Allows contents (.put key bins policy ttl) (.bool true)
        (effect rt json replaces contents (.put key bins policy ttl))
  | putMissing {contents : Contents} {key bins policy ttl} :
      Allows contents (.put key bins policy ttl) .nil contents
  | get {contents : Contents} {key specificBins names policy withHeader bins} :
      getBinNames rt specificBins = .ok names → contents.Present key.asKey →
        Shows contents key.asKey names withHeader bins →
          Allows contents (.get key specificBins policy withHeader) (.hash bins) contents
  | getMissing {contents : Contents} {key specificBins policy withHeader} :
      ¬contents.Present key.asKey →
        Allows contents (.get key specificBins policy withHeader) .nil contents
  | delete {contents : Contents} {key policy} : contents.Present key.asKey →
      Allows contents (.delete key policy) (.bool true) (contents.erase key.asKey)
  | deleteMissing {contents : Contents} {key policy} : ¬contents.Present key.asKey →
      Allows contents (.delete key policy) .nil contents
  | exists_ {contents : Contents} {key policy} : contents.Present key.asKey →
      Allows contents (.exists_ key policy) (.bool true) contents
  | existsNot {contents : Contents} {key policy} : ¬contents.Present key.asKey →
      Allows contents (.exists_ key policy) (.bool false) contents
  | header {contents : Contents} {key policy gen ttl} : contents.Present key.asKey →
      Allows contents (.getHeader key policy) (.header gen ttl) contents
  | headerMissing {contents : Contents} {key policy} : ¬contents.Present key.asKey →
      Allows contents (.getHeader key policy) .nil contents
  | touch {contents : Contents} {key policy gen newTtl} {ttl : Option RbVal} :
      contents.Present key.asKey →
        Allows contents (.touch key ttl policy) (.header gen newTtl) contents
  | touchMissing {contents : Contents} {key policy} {ttl : Option RbVal} :
      ¬contents.Present key.asKey → Allows contents (.touch key ttl policy) .nil contents
  | expires {contents : Contents} {key} : Allows contents (.expires key) .nil (contents.erase key)

end Specification

section Documented

/-- The value of a bin of a record that may be missing. -/
def heldBin (held : Option AsRecord) (name : CStr) : Option AsVal :=
  held.bind fun rec => rec.bins.lookup name

/-- The value of a bin once a record is written: a nil value removes the bin. -/
def writtenBin (old : Option AsVal) : Option AsVal → Option AsVal
  | none => old
  | some .nil => none
  | some value => some value

/-- A record is written over what is held, bin by bin, or in its place. -/
def Written (replaces : Bool) (before : Option AsRecord) (rec : AsRecord)
    (after : Option AsRecord) : Prop :=
  ∀ name, heldBin after name =
    writtenBin (if replaces then none else heldBin before name) (rec.bins.lookup name)

/-- What the C client documents of its commands: a command concerns the record of its key only,
a status tells whether there is one, and a record whose last bin is removed is removed.  Nothing is
said of a put which is handed a bin without a value. -/
structure Documented {Policy State : Type} (cluster : Cluster Policy State)
    (replaces : Policy → Bool) (holds : State → AsKey → Option AsRecord) : Prop where
  populated : ∀ state key rec, holds state key = some rec → rec.bins ≠ []
  put : ∀ state policy key handed rec, handed.bins = rec.bins.map (fun bin => (bin.1, some bin.2)) →
    ∀ result, cluster.keyPut state policy key handed = result →
    (∀ other, other ≠ key → holds result.2 other = holds state other) ∧
    (result.1 = aerospikeOk →
      Written (replaces policy) (holds state key) rec (holds result.2 key)) ∧
    (result.1 = aerospikeErrRecordNotFound → holds result.2 key = holds state key) ∧
    (holds result.2 key = holds state key ∨
      Written (replaces policy) (holds state key) rec (holds result.2 key))
  get : ∀ state policy key, ∀ result, cluster.keyGet state policy key = result →
    holds result.2.2 = holds state ∧
    (result.1 = aerospikeOk → ∃ held, holds state key = some held ∧
      ∀ name, result.2.1.bins.lookup name = held.bins.lookup name) ∧
    (result.1 = aerospikeErrRecordNotFound → holds state key = none)
  select : ∀ state policy key names, ∀ result,
    cluster.keySelect state policy key names = result →
    holds result.2.2 = holds state ∧
    (result.1 = aerospikeOk → ∃ held, holds state key = some held ∧
      ∀ name, result.2.1.bins.lookup name =
        if name ∈ names then held.bins.lookup name else none) ∧
    (result.1 = aerospikeErrRecordNotFound → holds state key = none)
  remove : ∀ state policy key, ∀ result, cluster.keyRemove state policy key = result →
    (∀ other, other ≠ key → holds result.2 other = holds state other) ∧
    (result.1 = aerospikeOk → holds state key ≠ none ∧ holds result.2 key = none) ∧
    (result.1 = aerospikeErrRecordNotFound →
      holds state key = none ∧ holds result.2 key = none) ∧
    (holds result.2 key = holds state key ∨ holds result.2 key = none)
  exists_ : ∀ state policy key, ∀ result, cluster.keyExists state policy key = result →
    holds result.2.2 = holds state ∧
    (result.1 = aerospikeOk → holds state key ≠ none) ∧
    (result.1 = aerospikeErrRecordNotFound → holds state key = none)
  touch : ∀ state policy key ops, ops.entries = [.touch] → ∀ result,
    cluster.keyOperate state policy key ops = result →
    holds result.2.2 = holds state ∧
    (result.1 = aerospikeOk → holds state key ≠ none) ∧
    (result.1 = aerospikeErrRecordNotFound → holds state key = none)
  expire : ∀ state key, (∀ other, other ≠ key → holds (cluster.expire state key) other =
    holds state other) ∧ holds (cluster.expire state key) key = none

theorem writtenBin_some {old : Option AsVal} {value : AsVal} (noNil : value ≠ .nil) :
    writtenBin old (some value) = some value := by
  cases value <;> first | rfl | exact absurd rfl noNil

end Documented

section Reflection

variable {rt : Runtime}

/-- The value reads as one which is the same. -/
def Reads (rt : Runtime) (value : AsVal) (val : RbVal) : Prop :=
  ∃ back, asVal2rbVal rt value = .ok back ∧ RbVal.Same back val

/-- The contents show what the cluster holds. -/
def Reflects (rt : Runtime) (held : AsKey → Option AsRecord) (contents : Contents) : Prop :=
  ∀ key name, Option.Rel (Reads rt) (heldBin (held key) name) (contents key name)

theorem nil_iff_of_encodeBin (loads : rt.LoadsDumped) {val : RbVal} {value : AsVal}
    (accepted : val = .nil ∨ (∃ json, val = .geoJson json) ∨ Encodable rt val)
    (encodes : encodeBin rt val = .ok value) : value = .nil ↔ norm rt val = .nil := by
  constructor
  · rintro rfl
    rcases decode_bin loads accepted encodes with ⟨back, decoded, same⟩
    cases decoded
    exact same.eq_nil_iff.mp rfl
  · intro isNil
    cases val with
    | nil =>
        cases encodes
        rfl
    | _ => cases isNil

/-- Bin by bin the record which `hash2record` fills reads as the norm of the Hash. -/
theorem rel_lookup_of_hash2record (loads : rt.LoadsDumped) {bins : List (RbVal × RbVal)}
    {record : AsRecord} (storable : Storable rt bins)
    (made : hash2record rt bins (AsRecord.init bins.length) = .ok record) (name : CStr) :
    Option.Rel (fun value val => Reads rt value val ∧ (value = .nil ↔ val = .nil))
      (record.bins.lookup name) ((normHash rt bins).lookup name) := by
  rcases storable.exists_record with ⟨filled, bindings, filling, _, _, binds, filledBins⟩
  obtain rfl : record = filled := Except.ok.inj (made.symm.trans filling)
  rw [filledBins, normHash, normEntries_eq]
  refine AssocList.rel_lookup_foldl_putLast ?_ (fun _ => .none) name
  rw [List.forall₂_map_right_iff]
  refine Aligned.refine_of_mem binds.flip ?_
  rintro binding _ entry member ⟨⟨_, named⟩, encodes⟩
  have accepted := storable.values entry member
  exact ⟨named.symm, decode_bin loads accepted encodes,
    nil_iff_of_encodeBin loads accepted encodes⟩

theorem rel_writtenBin {old new : Option AsVal} {old' new' : Option RbVal}
    (before : Option.Rel (Reads rt) old old')
    (written : Option.Rel (fun value val => Reads rt value val ∧ (value = .nil ↔ val = .nil))
      new new') :
    Option.Rel (Reads rt) (writtenBin old new) (Contents.overwrite old' new') := by
  cases written with
  | none => exact before
  | @some value val both =>
      rcases both with ⟨reads, nils⟩
      by_cases isNil : value = .nil
      · cases isNil
        cases nils.mp rfl
        exact .none
      · rw [writtenBin_some isNil, Contents.overwrite_some fun same => isNil (nils.mpr same)]
        exact .some reads

variable {Policy State : Type} {cluster : Cluster Policy State} {replaces : Policy → Bool}
  {holds : State → AsKey → Option AsRecord} {state : State} {contents : Contents}

theorem Documented.present_iff (documented : Documented cluster replaces holds)
    (reflects : Reflects rt (holds state) contents) (key : AsKey) :
    contents.Present key ↔ holds state key ≠ none := by
  constructor
  · rintro ⟨name, shown⟩ missing
    have related := reflects key name
    rw [missing] at related
    cases found : contents key name with
    | none => exact shown found
    | some val =>
        rw [found] at related
        cases related
  · intro held
    rcases Option.ne_none_iff_exists'.mp held with ⟨rec, found⟩
    rcases List.exists_mem_of_ne_nil _ (documented.populated _ _ _ found) with ⟨bin, member⟩
    refine ⟨bin.1, ?_⟩
    have related := reflects key bin.1
    have value : heldBin (holds state key) bin.1 = some bin.2 := by
      rw [found]
      exact AssocList.lookup_of_mem rec.distinct member
    rw [value] at related
    intro nothing
    rw [nothing] at related
    cases related

/-- A command that leaves the other records alone changes the contents of its key only. -/
theorem reflects_update {held held' : AsKey → Option AsRecord} {key : AsKey}
    {shown : CStr → Option RbVal} (reflects : Reflects rt held contents)
    (others : ∀ other, other ≠ key → held' other = held other)
    (own : ∀ name, Option.Rel (Reads rt) (heldBin (held' key) name) (shown name)) :
    Reflects rt held' (Function.update contents key shown) := by
  intro other name
  by_cases same : other = key
  · rw [same, Function.update_self]
    exact own name
  · rw [others other same, Function.update_of_ne same]
    exact reflects other name

theorem lookup_checkWithHeader {bins : StrHash} {withHeader : RbVal} {rec : AsRecord} {name : CStr}
    (free : withHeader = .bool true →
      name ≠ cstr (ascii "header") ∧ name ≠ cstr (ascii "record_header")) :
    (checkWithHeader bins withHeader rec).lookup name = bins.lookup name := by
  unfold checkWithHeader
  split
  case h_1 =>
    have ⟨noHeader, noRecordHeader⟩ := free rfl
    rw [putHeader]
    split
    case h_1 => rw [AssocList.putLast, AssocList.lookup_put, if_neg noHeader]
    case h_2 => rw [AssocList.putLast, AssocList.lookup_put, if_neg noHeader]
    case h_3 => rw [AssocList.putLast, AssocList.lookup_put, if_neg noRecordHeader]
  case h_2 => rfl

theorem rel_of_common {α β γ : Type} {R : α → β → Prop} {S : α → γ → Prop} {T : β → γ → Prop}
    {common : Option α} {left : Option β} {right : Option γ} (first : Option.Rel R common left)
    (second : Option.Rel S common right)
    (compose : ∀ value image other, R value image → S value other → T image other) :
    Option.Rel T left right := by
  cases first with
  | none =>
      cases second with
      | none => exact .none
  | some here =>
      cases second with
      | some there => exact .some (compose _ _ _ here there)

/-- A record whose bins read as what is to be shown is answered with a Hash that shows it. -/
theorem readAnswer_eq {rec : AsRecord} {shown : CStr → Option RbVal} (withHeader : RbVal)
    (reads : ∀ name, Option.Rel (Reads rt) (rec.bins.lookup name) (shown name)) :
    ∃ bins, readAnswer rt withHeader rec = .hash bins ∧
      ∀ name, (withHeader = .bool true →
          name ≠ cstr (ascii "header") ∧ name ≠ cstr (ascii "record_header")) →
        Option.Rel RbVal.Same (bins.lookup name) (shown name) := by
  have decodes : ∀ bin ∈ rec.bins, ∃ entry : CStr × RbVal,
      bin.1 = entry.1 ∧ asVal2rbVal rt bin.2 = .ok entry.2 := by
    intro bin member
    have related := reads bin.1
    rw [AssocList.lookup_of_mem rec.distinct member] at related
    cases shows : shown bin.1 with
    | none =>
        rw [shows] at related
        cases related
    | some val =>
        rw [shows] at related
        cases related with
        | some both =>
            rcases both with ⟨back, decoded, _⟩
            exact ⟨(bin.1, back), rfl, decoded⟩
  rcases Aligned.exists_images decodes with ⟨hash, aligned⟩
  refine ⟨checkWithHeader hash withHeader rec, ?_, ?_⟩
  · rw [readAnswer, readHash, record2hash_eq_ok.mpr aligned]
    rfl
  · intro name free
    rw [lookup_checkWithHeader free]
    have read := @AssocList.rel_lookup_of_forall₂ _ _ _ _
      (fun value back => asVal2rbVal rt value = .ok back) _ _ aligned name
    refine rel_of_common read (reads name) ?_
    rintro value back val decoded ⟨back', decoded', same⟩
    cases decoded.symm.trans decoded'
    exact same

end Reflection

end Client

end AerospikeCRuby
