import AerospikeCRuby.Codec.Decode
import AerospikeCRuby.Codec.Encode

/-!
# What the codec preserves

Equality of Ruby values up to the order of a Hash, with Strings compared as
byte sequences, and equality of client values up to the order of a map.  On
these the codec is described without its loops: `Encodable` says which values
an array may hold, and `norm` what becomes of them on the way through the store.
-/

namespace AerospikeCRuby

open AssocList (Related)

/-- Equality up to the encoding of Strings and the order of Hashes. -/
inductive RbVal.Same : RbVal → RbVal → Prop
  | refl (value : RbVal) : Same value value
  | string {text text' : RbStr} : text.bytes = text'.bytes →
      Same (.string text) (.string text')
  | array {elements elements' : List RbVal} : List.Forall₂ Same elements elements' →
      Same (.array elements) (.array elements')
  | hash {entries middle entries' : List (RbVal × RbVal)} : entries.Perm middle →
      List.Forall₂ Same (middle.map Prod.fst) (entries'.map Prod.fst) →
      List.Forall₂ Same (middle.map Prod.snd) (entries'.map Prod.snd) →
      Same (.hash entries) (.hash entries')

/-- Equality up to the order of maps. -/
inductive AsVal.Same : AsVal → AsVal → Prop
  | refl (value : AsVal) : Same value value
  | list {elements elements' : List AsVal} : List.Forall₂ Same elements elements' →
      Same (.list elements) (.list elements')
  | map {pairs middle pairs' : List (AsVal × AsVal)} : pairs.Perm middle →
      List.Forall₂ Same (middle.map Prod.fst) (pairs'.map Prod.fst) →
      List.Forall₂ Same (middle.map Prod.snd) (pairs'.map Prod.snd) →
      Same (.map pairs) (.map pairs')

theorem RbVal.Same.hash_of_related {entries entries' : List (RbVal × RbVal)}
    (related : Related RbVal.Same RbVal.Same entries entries') :
    RbVal.Same (.hash entries) (.hash entries') := by
  rcases related with ⟨middle, perm, aligned⟩
  rcases AssocList.forall₂_unzip.mp aligned with ⟨keys, values⟩
  exact .hash perm keys values

theorem AsVal.Same.map_of_related {pairs pairs' : List (AsVal × AsVal)}
    (related : Related AsVal.Same AsVal.Same pairs pairs') :
    AsVal.Same (.map pairs) (.map pairs') := by
  rcases related with ⟨middle, perm, aligned⟩
  rcases AssocList.forall₂_unzip.mp aligned with ⟨keys, values⟩
  exact .map perm keys values

/-- The name a key gives to a bin or a map entry, up to the first NUL. -/
def binName (rt : Runtime) (key : RbVal) : CStr :=
  match rt.toS key with
  | .ok text => cstr text.bytes
  | .error _ => cstr []

/-- `Marshal.dump` accepts the value, and `FIX2INT` the length of the dump. -/
def Dumps (rt : Runtime) (value : RbVal) : Prop :=
  ∃ bytes, rt.dump value = .ok bytes ∧ bytes.length < 2 ^ 31

section Accepted

variable (fine : RbStr → Prop) (rt : Runtime)

/-- A key is not nil, and its `to_s` is a text of this kind. -/
def NamedWith (key : RbVal) : Prop :=
  key ≠ .nil ∧ ∃ text, rt.toS key = .ok text ∧ fine text

mutual

/-- The values that may stand in an array: Integers in the fixnum range, Floats, Strings and
Symbols of texts of this kind, booleans and plain objects that can be dumped, and Arrays and
Hashes of these. -/
def EncodableWith : RbVal → Prop
  | .integer value => IsFixnum value
  | .float _ => True
  | .string text => fine text
  | .symbol name => fine name
  | .bool value => Dumps rt (.bool value)
  | .object state => Dumps rt (.object state)
  | .array elements => elements.length < 2 ^ 31 ∧ EncodableElements elements
  | .hash entries => EncodableEntries entries
  | _ => False

def EncodableElements : List RbVal → Prop
  | [] => True
  | element :: rest => EncodableWith element ∧ EncodableElements rest

def EncodableEntries : List (RbVal × RbVal) → Prop
  | [] => True
  | (key, value) :: rest => (NamedWith fine rt key ∧ EncodableWith value) ∧ EncodableEntries rest

end

variable {fine rt}

theorem encodableElements_iff {elements : List RbVal} :
    EncodableElements fine rt elements ↔ ∀ element ∈ elements, EncodableWith fine rt element := by
  induction elements with
  | nil => simp [EncodableElements]
  | cons element rest ih => simp [EncodableElements, ih]

theorem encodableEntries_iff {entries : List (RbVal × RbVal)} :
    EncodableEntries fine rt entries ↔
      ∀ entry ∈ entries, NamedWith fine rt entry.1 ∧ EncodableWith fine rt entry.2 := by
  induction entries with
  | nil => simp [EncodableEntries]
  | cons entry rest ih => simp [EncodableEntries, ih]

theorem NamedWith.imp {wider : RbStr → Prop} (within : ∀ text, fine text → wider text)
    {key : RbVal} (named : NamedWith fine rt key) : NamedWith wider rt key := by
  rcases named with ⟨noNil, text, called, isFine⟩
  exact ⟨noNil, text, called, within text isFine⟩

theorem EncodableWith.imp {wider : RbStr → Prop} (within : ∀ text, fine text → wider text)
    {val : RbVal} (encodable : EncodableWith fine rt val) : EncodableWith wider rt val := by
  induction val with
  | string text | symbol text => exact within text encodable
  | array elements ih =>
      refine ⟨encodable.1, encodableElements_iff.mpr fun element member => ?_⟩
      exact ih element member (encodableElements_iff.mp encodable.2 element member)
  | hash entries ih =>
      refine encodableEntries_iff.mpr fun entry member => ?_
      rcases encodableEntries_iff.mp encodable entry member with ⟨named, value⟩
      exact ⟨named.imp within, (ih entry member).2 value⟩
  | _ => exact encodable

end Accepted

/-- The texts without a zero byte, of which C sees all. -/
abbrev RbStr.Whole (text : RbStr) : Prop :=
  NulFree text.bytes

/-- A key is not nil, and its `to_s` is a C string. -/
abbrev Named : Runtime → RbVal → Prop :=
  NamedWith RbStr.Whole

/-- The values that may stand in an array, with no zero byte in their texts. -/
abbrev Encodable : Runtime → RbVal → Prop :=
  EncodableWith RbStr.Whole

/-- The keys and the values which the encoders take: of a text in a wide encoding they may see the
beginning only. -/
abbrev Nameable : Runtime → RbVal → Prop :=
  NamedWith RbStr.Readable

abbrev Convertible : Runtime → RbVal → Prop :=
  EncodableWith RbStr.Readable

mutual

/-- What a value becomes on its way through the store: Symbols become Strings, the keys of a
Hash their `to_s`, and of two entries with the same name the later one stays. -/
def norm (rt : Runtime) : RbVal → RbVal
  | .symbol name => .string name
  | .array elements => .array (normElements rt elements)
  | .hash entries => .hash (StrHash.entries (normEntries rt [] entries))
  | value => value

def normElements (rt : Runtime) : List RbVal → List RbVal
  | [] => []
  | element :: rest => norm rt element :: normElements rt rest

def normEntries (rt : Runtime) (hash : StrHash) : List (RbVal × RbVal) → StrHash
  | [] => hash
  | (key, value) :: rest =>
      normEntries rt (AssocList.putLast hash (binName rt key) (norm rt value)) rest

end

theorem normElements_eq (rt : Runtime) (elements : List RbVal) :
    normElements rt elements = elements.map (norm rt) := by
  induction elements with
  | nil => rfl
  | cons element rest ih => simp only [normElements, ih, List.map_cons]

theorem normEntries_eq (rt : Runtime) (hash : StrHash) (entries : List (RbVal × RbVal)) :
    normEntries rt hash entries =
      (entries.map fun entry => (binName rt entry.1, norm rt entry.2)).foldl
        (fun hash entry => AssocList.putLast hash entry.1 entry.2) hash := by
  induction entries generalizing hash with
  | nil => rfl
  | cons entry rest ih => simp only [normEntries, ih, List.map_cons, List.foldl_cons]

/-- The norm of a Hash of bins. -/
def normHash (rt : Runtime) (hash : List (RbVal × RbVal)) : StrHash :=
  normEntries rt [] hash

end AerospikeCRuby
