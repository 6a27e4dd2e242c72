import AerospikeCRuby.Codec.Acceptance

/-!
# What a client value stands for

`Denotes` says, without the encoders, which client value stands for a Ruby value:
a text for the same text, a word for its Integer, a list for an Array item by
item, and a map for a Hash when it has one pair for each distinct text of a key.
What the encoders make of a value stands for it exactly when C sees all its texts
whole, since `StringValueCStr` lets zero bytes through in the wide encodings.
-/

namespace AerospikeCRuby

open AssocList (keys)

variable {rt : Runtime}

/-- The text of a key, where `to_s` gives one. -/
def keyText (rt : Runtime) (key : RbVal) : Option Bytes :=
  (rt.toS key).toOption.map RbStr.bytes

/-- The value of the last entry whose key has this text. -/
def LastEntry {α : Type} (rt : Runtime) (entries : List (RbVal × α)) (text : Bytes) (val : α) :
    Prop :=
  ∃ before key after, entries = before ++ (key, val) :: after ∧ keyText rt key = some text ∧
    ∀ later ∈ after, keyText rt later.1 ≠ some text

/-- C sees all of the text of the key. -/
def WholeKey (rt : Runtime) (key : RbVal) : Prop :=
  ∃ text, keyText rt key = some text ∧ NulFree text

/-- The client value stands for the Ruby value, whose texts a C string can hold. -/
inductive Denotes (rt : Runtime) : RbVal → AsVal → Prop
  | integer {value : ℤ} {word : BitVec 64} : word.toInt = value →
      Denotes rt (.integer value) (.integer word)
  | float (bits : UInt64) : Denotes rt (.float bits) (.double bits)
  | string {text : RbStr} : text.Whole → Denotes rt (.string text) (.string text.bytes)
  | symbol {name : RbStr} : name.Whole → Denotes rt (.symbol name) (.string name.bytes)
  | bool {value : Bool} {dumped : Bytes} : rt.dump (.bool value) = .ok dumped →
      Denotes rt (.bool value) (.bytes .ruby dumped)
  | object {state : ℕ} {dumped : Bytes} : rt.dump (.object state) = .ok dumped →
      Denotes rt (.object state) (.bytes .ruby dumped)
  | array {elements : List RbVal} {values : List AsVal} :
      List.Forall₂ (Denotes rt) elements values → Denotes rt (.array elements) (.list values)
  | hash {entries : List (RbVal × RbVal)} {pairs : List (AsVal × AsVal)} {values : Bytes → AsVal} :
      (∀ entry ∈ entries, WholeKey rt entry.1) → (keys pairs).Nodup →
      (∀ text val, LastEntry rt entries text val → Denotes rt val (values text)) →
      (∀ pair, pair ∈ pairs ↔
        ∃ text val, LastEntry rt entries text val ∧ pair = (.string text, values text)) →
      Denotes rt (.hash entries) (.map pairs)

mutual

/-- C sees all of every text in the value, but for the values in a Hash which a later entry of the
same text replaces. -/
def Whole (rt : Runtime) : RbVal → Prop
  | .string text => text.Whole
  | .symbol name => name.Whole
  | .array elements => WholeElements rt elements
  | .hash entries => WholeEntries rt entries
  | _ => True

def WholeElements (rt : Runtime) : List RbVal → Prop
  | [] => True
  | element :: rest => Whole rt element ∧ WholeElements rt rest

def WholeEntries (rt : Runtime) : List (RbVal × RbVal) → Prop
  | [] => True
  | (key, val) :: rest =>
      (WholeKey rt key ∧ (Whole rt val ∨ ∃ later ∈ rest, keyText rt later.1 = keyText rt key)) ∧
        WholeEntries rt rest

end

section Keys

variable {α : Type}

theorem lastEntry_cons {entry : RbVal × α} {rest : List (RbVal × α)} {text : Bytes} {val : α} :
    LastEntry rt (entry :: rest) text val ↔
      (entry.2 = val ∧ keyText rt entry.1 = some text ∧
        ∀ later ∈ rest, keyText rt later.1 ≠ some text) ∨ LastEntry rt rest text val := by
  constructor
  · rintro ⟨before, key, after, split, here, last⟩
    rcases before with _ | ⟨first, before⟩
    · rcases List.cons.inj split with ⟨rfl, rfl⟩
      exact Or.inl ⟨rfl, here, last⟩
    · rcases List.cons.inj split with ⟨rfl, rfl⟩
      exact Or.inr ⟨before, key, after, rfl, here, last⟩
  · rintro (⟨rfl, here, last⟩ | ⟨before, key, after, rfl, here, last⟩)
    · exact ⟨[], entry.1, rest, rfl, here, last⟩
    · exact ⟨entry :: before, key, after, rfl, here, last⟩

theorem exists_lastEntry {entries : List (RbVal × α)} {text : Bytes}
    (named : ∃ entry ∈ entries, keyText rt entry.1 = some text) :
    ∃ val, LastEntry rt entries text val := by
  induction entries with
  | nil => simp at named
  | cons first rest ih =>
      by_cases later : ∃ other ∈ rest, keyText rt other.1 = some text
      · rcases ih later with ⟨val, last⟩
        exact ⟨val, lastEntry_cons.mpr (Or.inr last)⟩
      · rcases named with ⟨entry, member, here⟩
        rcases List.mem_cons.mp member with rfl | inRest
        · refine ⟨entry.2, lastEntry_cons.mpr (Or.inl ⟨rfl, here, ?_⟩)⟩
          intro other inRest same
          exact later ⟨other, inRest, same⟩
        · exact absurd ⟨entry, inRest, here⟩ later

theorem LastEntry.mem {entries : List (RbVal × α)} {text : Bytes} {val : α}
    (last : LastEntry rt entries text val) :
    ∃ key, (key, val) ∈ entries ∧ keyText rt key = some text := by
  rcases last with ⟨before, key, after, rfl, named, _⟩
  exact ⟨key, by simp, named⟩

theorem keyText_of_toS {key : RbVal} {text : RbStr} (called : rt.toS key = .ok text) :
    keyText rt key = some text.bytes := by
  rw [keyText, called]
  rfl

theorem isSome_keyText_of_nameable {key : RbVal} (nameable : Nameable rt key) :
    (keyText rt key).isSome := by
  rcases nameable with ⟨_, text, called, _⟩
  rw [keyText_of_toS called]
  rfl

/-- A text without a zero byte is the name. -/
theorem binName_bytes {key : RbVal} {text : Bytes} (named : keyText rt key = some text)
    (free : NulFree text) : (binName rt key).bytes = text := by
  rw [keyText] at named
  unfold binName
  cases called : rt.toS key with
  | error abort =>
      rw [called] at named
      cases named
  | ok str =>
      rw [called] at named
      cases named
      simp only
      rw [cstr_of_nulFree free]

theorem WholeKey.keyText_eq {key : RbVal} (whole : WholeKey rt key) :
    keyText rt key = some (binName rt key).bytes := by
  rcases whole with ⟨text, named, free⟩
  rw [binName_bytes named free, named]

end Keys

theorem wholeElements_iff {elements : List RbVal} :
    WholeElements rt elements ↔ ∀ element ∈ elements, Whole rt element := by
  induction elements with
  | nil => simp [WholeElements]
  | cons element rest ih => simp [WholeElements, ih]

theorem wholeEntries_iff {entries : List (RbVal × RbVal)} :
    WholeEntries rt entries ↔ (∀ entry ∈ entries, WholeKey rt entry.1) ∧
      ∀ text val, LastEntry rt entries text val → Whole rt val := by
  induction entries with
  | nil =>
      rw [WholeEntries, true_iff]
      refine ⟨by simp, ?_⟩
      intro text val last
      rcases last.mem with ⟨key, member, _⟩
      simp at member
  | cons entry rest ih =>
      rcases entry with ⟨key, val⟩
      rw [WholeEntries, ih, List.forall_mem_cons]
      constructor
      · rintro ⟨⟨named, whole⟩, others, later⟩
        refine ⟨⟨named, others⟩, ?_⟩
        intro text val' last
        rcases lastEntry_cons.mp last with ⟨rfl, here, fresh⟩ | inRest
        · rcases whole with whole | ⟨other, member, same⟩
          · exact whole
          · exact absurd (same.trans here) (fresh other member)
        · exact later text val' inRest
      · rintro ⟨⟨named, others⟩, each⟩
        refine ⟨⟨named, ?_⟩, others, ?_⟩
        · by_cases replaced : ∃ later ∈ rest, keyText rt later.1 = keyText rt key
          · exact Or.inr replaced
          · left
            rcases named with ⟨text, here, _⟩
            apply each text val
            refine lastEntry_cons.mpr (Or.inl ⟨rfl, here, ?_⟩)
            intro later member same
            exact replaced ⟨later, member, same.trans here.symm⟩
        · intro text val' last
          exact each text val' (lastEntry_cons.mpr (Or.inr last))

section Maps

variable {entries : List (RbVal × RbVal)} {named : List (CStr × AsVal)}

/-- The pairs of the map which an encoder builds. -/
def builtPairs (rt : Runtime) (buckets : ℕ) (named : List (CStr × AsVal)) : List (AsVal × AsVal) :=
  named.foldl (fun map binding => asStringmapSet rt buckets map binding.1 binding.2) []

theorem builtPairs_eq (rt : Runtime) (buckets : ℕ) (named : List (CStr × AsVal)) :
    builtPairs rt buckets named =
      (named.map fun binding => (AsVal.string binding.1.bytes, binding.2)).foldl
        (fun map pair =>
          AssocList.put (rt.slot buckets (keys map) pair.1) map pair.1 pair.2) [] := by
  rw [builtPairs, List.foldl_map]
  rfl

theorem nodup_builtPairs (rt : Runtime) (buckets : ℕ) (named : List (CStr × AsVal)) :
    (keys (builtPairs rt buckets named)).Nodup := by
  rw [builtPairs_eq]
  exact AssocList.nodup_keys_foldl_put (fun map key => rt.slot buckets (keys map) key) _
    AssocList.nodup_keys_nil

/-- A pair of the map comes from an entry. -/
theorem exists_entry_of_mem_builtPairs {buckets : ℕ}
    (converted : List.Forall₂ (fun entry binding => encodeEntry rt entry = .ok binding)
      entries named) {pair : AsVal × AsVal} (member : pair ∈ builtPairs rt buckets named) :
    ∃ entry ∈ entries, pair.1 = .string (binName rt entry.1).bytes := by
  rw [builtPairs_eq] at member
  rcases AssocList.mem_of_mem_foldl_put (fun map key => rt.slot buckets (keys map) key) member with
    none_ | made
  · simp at none_
  · rcases List.mem_map.mp made with ⟨binding, present, rfl⟩
    rcases Aligned.exists_of_mem converted.flip present with ⟨entry, found, encoded⟩
    exact ⟨entry, found, by rw [(encodeEntry_eq_ok.mp encoded).1.2]⟩

/-- Where C sees all keys whole, the last entry of a text gives the pair of that text. -/
theorem lookup_builtPairs {buckets : ℕ}
    (converted : List.Forall₂ (fun entry binding => encodeEntry rt entry = .ok binding)
      entries named) (whole : ∀ entry ∈ entries, WholeKey rt entry.1) {text : Bytes} {val : RbVal}
    (last : LastEntry rt entries text val) :
    ∃ value, array2asListElement rt val = .ok value ∧
      (builtPairs rt buckets named).lookup (.string text) = some value := by
  rcases last with ⟨before, key, after, rfl, here, fresh⟩
  rcases Aligned.split converted with ⟨front, ⟨name, value⟩, back, rfl, _, encoded, later⟩
  rcases encodeEntry_eq_ok.mp encoded with ⟨⟨_, same⟩, valued⟩
  obtain rfl : binName rt key = name := same
  have keyed : text = (binName rt key).bytes := by
    rw [(whole (key, val) (by simp)).keyText_eq] at here
    exact (Option.some.inj here).symm
  refine ⟨value, valued, ?_⟩
  rw [builtPairs_eq, List.map_append, List.map_cons, keyed]
  refine AssocList.lookup_foldl_put (fun map key => rt.slot buckets (keys map) key) _ value ?_ []
  intro member
  rcases List.mem_map.mp member with ⟨pair, inBack, same⟩
  rcases List.mem_map.mp inBack with ⟨binding, present, rfl⟩
  rcases Aligned.exists_of_mem later.flip present with ⟨other, found, made⟩
  rw [← (encodeEntry_eq_ok.mp made).1.2, AsVal.string.injEq] at same
  apply fresh other found
  rw [(whole other (by simp [found])).keyText_eq, same, keyed]

/-- A map stands for the Hash it is built from when C sees the keys whole and the values of the
last entries stand for theirs. -/
theorem denotes_builtPairs {buckets : ℕ}
    (converted : List.Forall₂ (fun entry binding => encodeEntry rt entry = .ok binding)
      entries named) (whole : ∀ entry ∈ entries, WholeKey rt entry.1)
    (each : ∀ text val, LastEntry rt entries text val → ∀ value,
      array2asListElement rt val = .ok value → Denotes rt val value) :
    Denotes rt (.hash entries) (.map (builtPairs rt buckets named)) := by
  have nodup := nodup_builtPairs rt buckets named
  refine @Denotes.hash rt _ _ (fun text =>
    ((builtPairs rt buckets named).lookup (.string text)).getD .null) whole nodup ?_ ?_
  · intro text val last
    rcases @lookup_builtPairs rt _ _ buckets converted whole _ _ last with ⟨value, valued, found⟩
    rw [found]
    exact each text val last value valued
  · intro pair
    constructor
    · intro member
      rcases exists_entry_of_mem_builtPairs converted member with ⟨source, found, same⟩
      rcases exists_lastEntry ⟨source, found, (whole source found).keyText_eq⟩ with ⟨val, last⟩
      refine ⟨_, val, last, Prod.ext same ?_⟩
      have listed := AssocList.lookup_of_mem nodup member
      rw [same] at listed
      rw [listed]
      rfl
    · rintro ⟨text, val, last, rfl⟩
      rcases @lookup_builtPairs rt _ _ buckets converted whole _ _ last with ⟨value, _, found⟩
      rw [found]
      exact AssocList.mem_of_lookup found

end Maps

/-- C sees all texts of a value that a client value stands for. -/
theorem whole_of_denotes {val : RbVal} {value : AsVal} (denotes : Denotes rt val value) :
    Whole rt val := by
  induction val generalizing value with
  | string | symbol =>
      cases denotes
      assumption
  | array elements ih =>
      cases denotes with
      | array aligned =>
          refine wholeElements_iff.mpr fun element member => ?_
          rcases Aligned.exists_of_mem aligned member with ⟨value, _, here⟩
          exact ih element member here
  | hash entries ih =>
      cases denotes with
      | hash keyed _ denotes _ =>
          refine wholeEntries_iff.mpr ⟨keyed, fun text val last => ?_⟩
          rcases last.mem with ⟨key, member, _⟩
          exact (ih _ member).2 (denotes text val last)
  | _ => trivial

/-- What an encoder makes of a value stands for it where C sees all its texts. -/
theorem denotes_of_whole {val : RbVal} {value : AsVal} (whole : Whole rt val)
    (encoded : array2asListElement rt val = .ok value) : Denotes rt val value := by
  induction val generalizing value with
  | nil | geoJson | data | other => simp [array2asListElement] at encoded
  | float bits =>
      cases encoded
      exact .float bits
  | integer number =>
      by_cases fixnum : IsFixnum number
      · simp only [array2asListElement, if_pos fixnum, Except.ok.injEq] at encoded
        rw [← encoded]
        exact .integer (toInt_fix2long fixnum)
      · simp [array2asListElement, if_neg fixnum] at encoded
  | string text | symbol text =>
      simp only [array2asListElement, stringValueCStr_of_nulFree whole] at encoded
      cases encoded
      constructor
      exact whole
  | bool | object =>
      simp only [array2asListElement, rbObjToAsBytes_eq_ok] at encoded
      rcases encoded with ⟨dumped, called, _, rfl⟩
      constructor
      exact called
  | array elements ih =>
      rcases element_array_eq_ok.mp encoded with ⟨_, values, converted, rfl⟩
      refine .array (Aligned.refine_of_mem converted ?_)
      intro element member value _ made
      exact ih element member (wholeElements_iff.mp whole element member) made
  | hash entries ih =>
      rcases element_hash_eq_ok.mp encoded with ⟨named, converted, rfl⟩
      rcases wholeEntries_iff.mp whole with ⟨keyed, values⟩
      refine denotes_builtPairs converted keyed ?_
      intro text val last value valued
      rcases last.mem with ⟨key, member, _⟩
      exact (ih _ member).2 (values text val last) valued

theorem denotes_iff_whole {val : RbVal} {value : AsVal}
    (encoded : array2asListElement rt val = .ok value) : Denotes rt val value ↔ Whole rt val :=
  ⟨whole_of_denotes, fun whole => denotes_of_whole whole encoded⟩

end AerospikeCRuby
