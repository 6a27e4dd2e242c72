import AerospikeCRuby.Codec.Readable

/-!
# Integers inside decoded values

The decoder tags every stored integer as a fixnum.  Where an integer stands in a
value is given by the indices and the keys that lead to it, as Ruby sees them: a
key counts up to its first NUL, and of two pairs with one key the later is seen.
-/

namespace AerospikeCRuby

/-- A step into a list or into a map. -/
inductive Step where
  | element (index : ℕ)
  | entry (key : CStr)

/-- The value of the last pair with the key. -/
def lastValue (key : CStr) : List (AsVal × AsVal) → Option AsVal
  | [] => none
  | pair :: rest =>
      (lastValue key rest).or
        (if (asStringFromval pair.1).map cstr = some key then some pair.2 else none)

/-- The value at a position of a stored value. -/
def AsVal.at : AsVal → List Step → Option AsVal
  | val, [] => some val
  | .list elements, .element index :: path =>
      elements[index]?.bind fun element => element.at path
  | .map pairs, .entry key :: path => (lastValue key pairs).bind fun value => value.at path
  | _, _ :: _ => none

/-- `Hash#[]` with a String as key. -/
def hashEntry (entries : List (RbVal × RbVal)) (key : CStr) : Option RbVal :=
  (entries.find? fun entry =>
    match entry.1 with
    | .string text => text.bytes == key.bytes
    | _ => false).map Prod.snd

/-- The value at a position of a Ruby value. -/
def RbVal.at : RbVal → List Step → Option RbVal
  | val, [] => some val
  | .array elements, .element index :: path =>
      elements[index]?.bind fun element => element.at path
  | .hash entries, .entry key :: path => (hashEntry entries key).bind fun value => value.at path
  | _, _ :: _ => none

/-- The value is read, and every integer in it as that integer, in its position. -/
def ReadsIntegers (rt : Runtime) (val : AsVal) : Prop :=
  ∃ result, asVal2rbVal rt val = .ok result ∧
    ∀ path word, val.at path = some (.integer word) →
      result.at path = some (.integer word.toInt)

/-- Tagging keeps a word exactly on the fixnum range. -/
theorem long2fix_eq_iff {word : BitVec 64} :
    long2fix word = .integer word.toInt ↔ IsFixnum word.toInt := by
  constructor
  · intro kept
    have bound := BitVec.toInt_lt (x := word <<< 1)
    have bound' := BitVec.le_toInt (x := word <<< 1)
    rw [long2fix, toInt_tag, RbVal.integer.injEq] at kept
    constructor <;> omega
  · exact long2fix_of_fixnum

theorem hashEntry_entries (hash : StrHash) (key : CStr) :
    hashEntry (StrHash.entries hash) key = hash.lookup key := by
  induction hash with
  | nil => rfl
  | cons entry rest ih =>
      rcases entry with ⟨name, value⟩
      rw [List.lookup_cons, ← ih, hashEntry, StrHash.entries, List.map_cons, List.find?_cons]
      by_cases same : name = key
      · subst same
        simp [rbStrNew2]
      · have differs : ¬name.bytes = key.bytes := by
          intro alike
          apply same
          cases name
          cases key
          cases alike
          rfl
        have different : (key == name) = false := by
          simpa using fun alike => same alike.symm
        have unlike : (name.bytes == key.bytes) = false := by
          simpa using differs
        simp [rbStrNew2, unlike, different, hashEntry, StrHash.entries]

variable {rt : Runtime}

/-- What a Hash built from the pairs of a map holds under a key. -/
theorem lookup_decoded {pairs : List (AsVal × AsVal)} {entries : List (CStr × RbVal)}
    (decoded : List.Forall₂ (fun pair entry => decodePair rt pair = .ok entry) pairs entries)
    (hash : StrHash) (key : CStr) :
    match lastValue key pairs with
    | some value => ∃ result, asVal2rbVal rt value = .ok result ∧
        (entries.foldl (fun hash entry => AssocList.putLast hash entry.1 entry.2) hash).lookup key =
          some result
    | none =>
        (entries.foldl (fun hash entry => AssocList.putLast hash entry.1 entry.2) hash).lookup key =
          hash.lookup key := by
  induction decoded generalizing hash with
  | nil => rfl
  | @cons pair entry pairs entries converted _ ih =>
      simp only [decodePair, ExceptLoop.bind_eq_ok] at converted
      rcases converted with ⟨name, named, val, decoded, same⟩
      cases same
      have later := ih (AssocList.putLast hash name val)
      rw [List.foldl_cons, lastValue]
      cases found : lastValue key pairs with
      | some value =>
          rw [found] at later
          exact later
      | none =>
          rw [found] at later
          simp only [Option.none_or]
          have spelled : (asStringFromval pair.1).map cstr = some name := by
            rcases isString_of_pairName named with ⟨buffer, text⟩
            rw [text] at named ⊢
            cases named
            rfl
          rw [spelled]
          by_cases here : name = key
          · subst here
            rw [if_pos rfl]
            refine ⟨val, decoded, ?_⟩
            rw [later, AssocList.putLast, AssocList.lookup_put, if_pos rfl]
          · rw [if_neg (by simpa using here)]
            rw [later, AssocList.putLast, AssocList.lookup_put,
              if_neg fun alike => here alike.symm]

/-- What stands at a position is decoded there. -/
theorem decode_at {val : AsVal} {result : RbVal} (decoded : asVal2rbVal rt val = .ok result)
    {path : List Step} {inner : AsVal} (found : val.at path = some inner) :
    ∃ value, asVal2rbVal rt inner = .ok value ∧ result.at path = some value := by
  induction path generalizing val result with
  | nil =>
      cases found
      exact ⟨result, decoded, rfl⟩
  | cons step path ih =>
      cases val with
      | list elements =>
          cases step with
          | entry key => cases found
          | element index =>
              rcases Option.bind_eq_some_iff.mp found with ⟨element, stored, found⟩
              rw [asVal2rbVal, asList2arrayFrom_eq, ExceptLoop.bind_eq_ok] at decoded
              rcases decoded with ⟨ary, collected, same⟩
              cases same
              have aligned := ExceptLoop.collect_eq_ok.mp collected
              rcases Aligned.exists_of_getElem? aligned stored with ⟨value, held, decoded⟩
              rcases ih decoded found with ⟨last, inner, there⟩
              refine ⟨last, inner, ?_⟩
              rw [RbVal.at, held]
              exact there
      | map pairs =>
          cases step with
          | element index => cases found
          | entry key =>
              rcases Option.bind_eq_some_iff.mp found with ⟨value, stored, found⟩
              rw [asVal2rbVal, asHashmap2hashFrom_eq, ExceptLoop.bind_eq_ok] at decoded
              rcases decoded with ⟨hash, accumulated, same⟩
              cases same
              rcases ExceptLoop.accumulate_eq_ok.mp accumulated with ⟨entries, aligned, rfl⟩
              have held := lookup_decoded aligned [] key
              rw [stored] at held
              rcases held with ⟨result, decoded, held⟩
              rcases ih decoded found with ⟨last, inner, there⟩
              refine ⟨last, inner, ?_⟩
              rw [RbVal.at, hashEntry_entries, held]
              exact there
      | _ => simp [AsVal.at] at found

/-- All integers are read as they are exactly in the readable values whose integers are
fixnums. -/
theorem readsIntegers_iff (rt : Runtime) (val : AsVal) :
    ReadsIntegers rt val ↔
      Readable rt val ∧
        ∀ path word, val.at path = some (.integer word) → IsFixnum word.toInt := by
  constructor
  · rintro ⟨result, decoded, exact_⟩
    refine ⟨decodes_iff_readable.mp ⟨result, decoded⟩, ?_⟩
    intro path word found
    rcases decode_at decoded found with ⟨value, inner, there⟩
    cases inner
    apply long2fix_eq_iff.mp
    apply Option.some.inj
    rw [← there]
    exact exact_ path word found
  · rintro ⟨readable, fixnums⟩
    rcases decodes_iff_readable.mpr readable with ⟨result, decoded⟩
    refine ⟨result, decoded, ?_⟩
    intro path word found
    rcases decode_at decoded found with ⟨value, inner, there⟩
    cases inner
    rw [there, long2fix_of_fixnum (fixnums path word found)]

/-- 2 ** 62 in a map in a list comes back as -2 ** 62. -/
theorem not_readsIntegers :
    asVal2rbVal .sample (.list [.map [(.string (ascii "a"), .integer 4611686018427387904)]]) =
        .ok (.array [.hash [(.string (rbStrNew2 (cstr (ascii "a"))),
          .integer (-4611686018427387904))]]) ∧
      ¬ReadsIntegers .sample
        (.list [.map [(.string (ascii "a"), .integer 4611686018427387904)]]) := by
  have decoded : asVal2rbVal .sample
      (.list [.map [(.string (ascii "a"), .integer 4611686018427387904)]]) =
        .ok (.array [.hash [(.string (rbStrNew2 (cstr (ascii "a"))),
          .integer (-4611686018427387904))]]) := rfl
  refine ⟨decoded, ?_⟩
  rintro ⟨result, decoded', exact_⟩
  rw [decoded, Except.ok.injEq] at decoded'
  subst decoded'
  have there : some (RbVal.integer (-4611686018427387904)) = some (.integer 4611686018427387904) :=
    exact_ [.element 0, .entry (cstr (ascii "a"))] 4611686018427387904 rfl
  simp at there

end AerospikeCRuby
