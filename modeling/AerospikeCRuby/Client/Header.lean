import AerospikeCRuby.Client.BatchGet
import AerospikeCRuby.Codec.BufferedRead
import AerospikeCRuby.Results.Drain
import AerospikeCRuby.Ruby.Text

/-!
# Headers

With `:with_header` the header of a record becomes an entry of the Hash of its
bins: of the record that was read in `get` and `batch_get`, of its copy in
`query`.  `get_header` builds the header by itself, with the key that
`AerospikeC.ttl_name` holds.
-/

namespace AerospikeCRuby

open AssocList (keys)
open QueryItems (decodeQueried)

/-- The key is a String with this text. -/
def isKey (encs : Encodings) (name : CStr) : RbVal → Bool
  | .string text => (rbStrNew2 name).Equal encs text
  | _ => false

/-- `get_header` of a record that is there; a key that is already taken keeps its place. -/
def getHeader (encs : Encodings) (ttlName : RbVal) (rec : AsRecord) : List (RbVal × RbVal) :=
  let ttl := RbVal.integer rec.ttl.toNat
  if isKey encs (cstr (ascii "gen")) ttlName then [(rbStrLit "gen", ttl)]
  else [(rbStrLit "gen", .integer rec.gen.toNat), (ttlName, ttl)]

/-- The Hash of a record in the result of `query`: `execute_query_callback` collects a copy. -/
def queried (rt : Runtime) (rec : AsRecord) : Except Abort RbVal := do
  let copy ← rbCopyAsRecord rt rec
  decodeQueried rt true (.record copy)

/-- The header equals that of `get_header`: every entry is found under an equal key. -/
def SameHeader (encs : Encodings) (header : RbVal) (expected : List (RbVal × RbVal)) : Prop :=
  ∃ entries : StrHash, header = .hash entries.entries ∧ entries.length = expected.length ∧
    ∀ entry ∈ entries, ∃ other ∈ expected, isKey encs entry.1 other.1 ∧ entry.2 = other.2

/-- The Hash holds every bin with its own value and one more entry, which is the header. -/
def HoldsWithHeader (rt : Runtime) (encs : Encodings) (ttlName : RbVal) (rec : AsRecord)
    (hash : StrHash) : Prop :=
  ∃ name header bins, name ∉ keys rec.bins ∧ hash.Perm ((name, header) :: bins) ∧
    List.Forall₂ (fun bin entry => bin.1 = entry.1 ∧
      ∃ val, asVal2rbVal rt bin.2 = .ok val ∧ RbVal.Same entry.2 val) rec.bins bins ∧
    SameHeader encs header (getHeader encs ttlName rec)

/-- `get` and `batch_get`, which read a record alike, and `query` return all bins and the
header. -/
structure HeadersAgree (rt : Runtime) (encs : Encodings) (ttlName : RbVal) (rec : AsRecord) :
    Prop where
  read : ∃ hash, readHash rt (.bool true) rec = .ok hash ∧
    HoldsWithHeader rt encs ttlName rec hash
  queried : ∃ hash : StrHash, queried rt rec = .ok (.hash hash.entries) ∧
    HoldsWithHeader rt encs ttlName rec hash

/-- The header finds a free name: a bin `header` is not nil, and is the only one of the two. -/
def HeaderFree (rec : AsRecord) : Prop :=
  ∀ value, (cstr (ascii "header"), value) ∈ rec.bins →
    value ≠ .nil ∧ cstr (ascii "record_header") ∉ keys rec.bins

section PutHeader

variable {rec : AsRecord} {bins : StrHash}

/-- The same in the Hash of the bins. -/
def EntryFree (bins : StrHash) : Prop :=
  ∀ val, (cstr (ascii "header"), val) ∈ bins →
    val ≠ .nil ∧ cstr (ascii "record_header") ∉ keys bins

theorem perm_putHeader_of_free (rec : AsRecord) (free : EntryFree bins) :
    ∃ name, name ∉ keys bins ∧
      (putHeader rec bins).Perm ((name, headerHash rec) :: bins) := by
  rw [putHeader]
  split
  · rename_i absent
    have fresh : cstr (ascii "header") ∉ keys bins := by
      rintro member
      rcases List.mem_map.mp member with ⟨entry, inside, named⟩
      simpa [named] using List.lookup_eq_none_iff.mp absent entry inside
    exact ⟨_, fresh, AssocList.perm_put_of_not_mem fresh⟩
  · rename_i isNil
    exact absurd rfl (free _ (AssocList.mem_of_lookup isNil)).1
  · rename_i val found _
    have fresh := (free _ (AssocList.mem_of_lookup ‹_›)).2
    exact ⟨_, fresh, AssocList.perm_put_of_not_mem fresh⟩

theorem length_putHeader_le : (putHeader rec bins).length ≤ bins.length + 1 := by
  rw [putHeader]
  split
  · exact AssocList.length_put_le
  · exact AssocList.length_put_le
  · exact AssocList.length_put_le

/-- The header costs no bin only where it finds a free name. -/
theorem entryFree_of_length (distinct : (keys bins).Nodup)
    (longer : (putHeader rec bins).length = bins.length + 1) : EntryFree bins := by
  intro val member
  have found := AssocList.lookup_of_mem distinct member
  have present : cstr (ascii "header") ∈ keys bins := List.mem_map_of_mem member
  rw [putHeader, found] at longer
  constructor
  · rintro rfl
    rw [AssocList.putLast, AssocList.length_put_of_mem present] at longer
    omega
  · intro taken
    split at longer
    · rw [AssocList.putLast, AssocList.length_put_of_mem present] at longer
      omega
    · rw [AssocList.putLast, AssocList.length_put_of_mem present] at longer
      omega
    · rw [AssocList.putLast, AssocList.length_put_of_mem taken] at longer
      omega

end PutHeader

section SameHeader

variable {encs : Encodings} {name other : CStr} {key ttlName : RbVal}

theorem isKey_rbStrNew2_iff : isKey encs name (.string (rbStrNew2 other)) ↔ name = other := by
  simp only [isKey, RbStr.Equal, rbStrNew2, decide_eq_true_eq, true_or, or_true, and_true]
  constructor
  · intro same
    cases name
    cases other
    cases same
    rfl
  · rintro rfl
    rfl

theorem isKey_unique (one : isKey encs name key) (two : isKey encs other key) : name = other := by
  cases key with
  | string text =>
      have first := (of_decide_eq_true one).1
      have second := (of_decide_eq_true two).1
      cases name
      cases other
      cases first.trans second.symm
      rfl
  | _ => cases one

theorem entries_injective : Function.Injective StrHash.entries := by
  apply List.map_injective_iff.mpr
  rintro ⟨⟨name, free⟩, val⟩ ⟨⟨other, _⟩, val'⟩ same
  simp only [Prod.mk.injEq, RbVal.string.injEq, rbStrNew2, RbStr.mk.injEq, and_true] at same
  rcases same with ⟨rfl, rfl⟩
  rfl

/-- Both headers are the same where both call the time to live by the same name. -/
theorem sameHeader_iff (encs : Encodings) (ttlName : RbVal) (rec : AsRecord) :
    SameHeader encs (headerHash rec) (getHeader encs ttlName rec) ↔
      isKey encs (cstr (ascii "expire_in")) ttlName := by
  have gen_ne : cstr (ascii "gen") ≠ cstr (ascii "expire_in") := by decide
  have genKey : isKey encs (cstr (ascii "gen")) (rbStrLit "gen") :=
    isKey_rbStrNew2_iff.mpr rfl
  constructor
  · rintro ⟨entries, same, sizes, found⟩
    rcases entries_injective (RbVal.hash.inj same) with rfl
    rcases found (cstr (ascii "expire_in"), .integer rec.ttl.toNat) (by simp [headerEntries]) with
      ⟨other, member, keyed, _⟩
    rw [getHeader] at member
    split at member
    · rw [List.mem_singleton] at member
      rw [member] at keyed
      exact absurd (isKey_unique genKey keyed) gen_ne
    · rw [List.mem_pair] at member
      rcases member with rfl | rfl
      · exact absurd (isKey_unique genKey keyed) gen_ne
      · exact keyed
  · intro named
    have other : ¬isKey encs (cstr (ascii "gen")) ttlName := fun taken =>
      gen_ne (isKey_unique taken named)
    rw [getHeader, if_neg other]
    refine ⟨headerEntries rec, rfl, rfl, ?_⟩
    intro entry member
    rw [headerEntries, List.mem_pair] at member
    rcases member with rfl | rfl
    · exact ⟨_, List.mem_cons_self, genKey, rfl⟩
    · exact ⟨_, List.mem_cons_of_mem _ List.mem_cons_self, named, rfl⟩

end SameHeader

section Paths

variable {rt : Runtime} {encs : Encodings} {ttlName : RbVal} {rec copy : AsRecord}
  {bins hash : StrHash}

theorem readHash_eq_ok :
    readHash rt (.bool true) rec = .ok hash ↔
      ∃ bins, record2hash rt rec = .ok bins ∧ putHeader rec bins = hash := by
  simp only [readHash, ExceptLoop.bind_eq_ok, checkWithHeader, Except.ok.injEq]

theorem queried_eq_ok :
    queried rt rec = .ok (.hash hash.entries) ↔
      ∃ copy, rbCopyAsRecord rt rec = .ok copy ∧
        ∃ bins, record2hash rt copy = .ok bins ∧ putHeader copy bins = hash := by
  simp only [queried, decodeQueried, ExceptLoop.bind_eq_ok, if_true, Except.ok.injEq,
    RbVal.hash.injEq, entries_injective.eq_iff]

theorem decode_eq_nil_iff {value : AsVal} {val : RbVal} (plain : value = .nil ∨ Faithful rt value)
    (decoded : asVal2rbVal rt value = .ok val) : val = .nil ↔ value = .nil := by
  constructor
  · rintro rfl
    rcases plain with isNil | inner
    · exact isNil
    · cases value with
      | list elements =>
          rw [asVal2rbVal, ExceptLoop.bind_eq_ok] at decoded
          rcases decoded with ⟨_, _, same⟩
          cases same
      | map pairs =>
          rw [asVal2rbVal, ExceptLoop.bind_eq_ok] at decoded
          rcases decoded with ⟨_, _, same⟩
          cases same
      | integer => cases decoded
      | double => cases decoded
      | string => cases decoded
      | geojson => cases decoded
      | _ => exact inner.elim
  · rintro rfl
    cases decoded
    rfl

theorem RbVal.Same.eq_nil_iff {val val' : RbVal} (same : RbVal.Same val val') :
    val = .nil ↔ val' = .nil := by
  cases same with
  | refl => exact Iff.rfl
  | _ => exact iff_of_false (by simp) (by simp)

/-- The bins of a record and the entries of a Hash, value by value. -/
def Holds (rt : Runtime) (rec : AsRecord) (bins : StrHash) : Prop :=
  List.Forall₂ (fun bin entry => bin.1 = entry.1 ∧
    ∃ val, asVal2rbVal rt bin.2 = .ok val ∧ RbVal.Same entry.2 val) rec.bins bins

theorem Holds.keys_eq (holds : Holds rt rec bins) : keys rec.bins = keys bins :=
  AssocList.keys_eq_of_forall₂ holds fun _ _ both => both.1

theorem Holds.entryFree_iff (holds : Holds rt rec bins)
    (plain : ∀ bin ∈ rec.bins, bin.2 = .nil ∨ Faithful rt bin.2) :
    EntryFree bins ↔ HeaderFree rec := by
  rw [EntryFree, HeaderFree, holds.keys_eq]
  constructor
  · intro free value member
    rcases Aligned.exists_of_mem holds member with ⟨⟨name, val⟩, inside, named, val', decoded, same⟩
    obtain rfl : cstr (ascii "header") = name := named
    have nils : val = .nil ↔ value = .nil :=
      same.eq_nil_iff.trans (decode_eq_nil_iff (plain _ member) decoded)
    have both := free val inside
    exact ⟨fun isNil => both.1 (nils.mpr isNil), both.2⟩
  · intro free val member
    rcases Aligned.exists_of_mem holds.flip member with
      ⟨⟨name, value⟩, inside, named, val', decoded, same⟩
    obtain rfl : name = cstr (ascii "header") := named
    have nils : val = .nil ↔ value = .nil :=
      same.eq_nil_iff.trans (decode_eq_nil_iff (plain _ inside) decoded)
    have both := free value inside
    exact ⟨fun isNil => both.1 (nils.mp isNil), both.2⟩

/-- All bins are there where the header finds a free name. -/
theorem holdsWithHeader_putHeader (gen : copy.gen = rec.gen) (ttl : copy.ttl = rec.ttl)
    (holds : Holds rt rec bins) (free : EntryFree bins)
    (named : isKey encs (cstr (ascii "expire_in")) ttlName) :
    HoldsWithHeader rt encs ttlName rec (putHeader copy bins) := by
  rcases perm_putHeader_of_free copy free with ⟨name, fresh, perm⟩
  have sameEntries : headerHash copy = headerHash rec := by
    rw [headerHash, headerEntries, gen, ttl, headerHash, headerEntries]
  rw [sameEntries] at perm
  rw [← holds.keys_eq] at fresh
  exact ⟨name, _, bins, fresh, perm, holds, (sameHeader_iff encs ttlName rec).mpr named⟩

theorem HoldsWithHeader.length_eq (holds : HoldsWithHeader rt encs ttlName rec hash) :
    hash.length = rec.bins.length + 1 := by
  rcases holds with ⟨name, header, bins, _, perm, aligned, _⟩
  rw [perm.length_eq, List.length_cons, aligned.length_eq]

/-- Where all bins are there the header is the one of the record. -/
theorem HoldsWithHeader.sameHeader (holds : HoldsWithHeader rt encs ttlName rec hash)
    (read : Holds rt rec bins) (free : EntryFree bins) (put : putHeader rec bins = hash) :
    isKey encs (cstr (ascii "expire_in")) ttlName := by
  rcases holds with ⟨name, header, others, fresh, perm, aligned, same⟩
  rcases perm_putHeader_of_free rec free with ⟨name', fresh', perm'⟩
  have member : (name', headerHash rec) ∈ (name, header) :: others := by
    rw [← perm.mem_iff, ← put, perm'.mem_iff]
    exact List.mem_cons_self
  rcases List.mem_cons.mp member with here | elsewhere
  · rcases Prod.mk.inj here with ⟨_, rfl⟩
    exact (sameHeader_iff encs ttlName rec).mp same
  · have inside : name' ∈ keys others := List.mem_map_of_mem elsewhere
    rw [← Holds.keys_eq aligned, read.keys_eq] at inside
    exact absurd inside fresh'

/-- All bins of a record and its one header are what `get`, `batch_get`, `query` and `get_header`
show, exactly if the bins survive the copy, the header finds a free name and `ttl_name` is the name
that is written into the Hashes. -/
theorem headersAgree_iff (rt : Runtime) (encs : Encodings) (ttlName : RbVal) {rec : AsRecord}
    (delivered : ∀ bin ∈ rec.bins, Delivered bin.2) :
    HeadersAgree rt encs ttlName rec ↔
      (∀ bin ∈ rec.bins, bin.2 = .nil ∨ Faithful rt bin.2) ∧ HeaderFree rec ∧
        isKey encs (cstr (ascii "expire_in")) ttlName := by
  constructor
  · rintro ⟨⟨hash, read, holds⟩, hash', queried, holds'⟩
    rcases readHash_eq_ok.mp read with ⟨bins, decoded, put⟩
    rcases queried_eq_ok.mp queried with ⟨copy, made, bins', decoded', put'⟩
    have aligned := record2hash_eq_ok.mp decoded
    have own : Holds rt rec bins := aligned.imp fun _ _ both => ⟨both.1, _, both.2, .refl _⟩
    have faithful : ∀ bin ∈ rec.bins, bin.2 = .nil ∨ Faithful rt bin.2 := by
      apply faithful_of_length delivered made decoded' decoded
      have size := holds'.length_eq
      have grown : (putHeader copy bins').length ≤ bins'.length + 1 := length_putHeader_le
      rw [put'] at grown
      omega
    have distinct : (keys bins).Nodup := by
      rw [← own.keys_eq]
      exact rec.distinct
    have longer : (putHeader rec bins).length = bins.length + 1 := by
      rw [put, holds.length_eq, aligned.length_eq]
    have free : EntryFree bins := entryFree_of_length distinct longer
    exact ⟨faithful, (own.entryFree_iff faithful).mp free, holds.sameHeader own free put⟩
  · rintro ⟨faithful, free, named⟩
    rcases reads_of_faithful delivered faithful with
      ⟨copy, val, val', made, gen, ttl, decoded', decoded, each⟩
    have copied : Holds rt rec (rec.bins.map fun bin => (bin.1, val bin)) := by
      rw [Holds, List.forall₂_map_right_iff, List.forall₂_same]
      exact fun bin member => ⟨rfl, val' bin, each bin member⟩
    have own : Holds rt rec (rec.bins.map fun bin => (bin.1, val' bin)) := by
      rw [Holds, List.forall₂_map_right_iff, List.forall₂_same]
      exact fun bin member => ⟨rfl, val' bin, (each bin member).1, .refl _⟩
    constructor
    · exact ⟨_, readHash_eq_ok.mpr ⟨_, decoded, rfl⟩,
        holdsWithHeader_putHeader rfl rfl own ((own.entryFree_iff faithful).mpr free) named⟩
    · exact ⟨_, queried_eq_ok.mpr ⟨copy, made, _, decoded', rfl⟩,
        holdsWithHeader_putHeader gen ttl copied ((copied.entryFree_iff faithful).mpr free) named⟩

/-- A record with one bin. -/
def oneBinRecord : AsRecord :=
  ((AsRecord.init 1).set (cstr (ascii "bin")) (.integer 7)).2

theorem headersAgree_iff_oneBin :
    HeadersAgree Runtime.sample Encodings.sample (rbStrLit "expire_in") oneBinRecord := by
  have only : ∀ bin ∈ oneBinRecord.bins, bin = (cstr (ascii "bin"), .integer 7) :=
    fun bin member => List.mem_singleton.mp member
  refine (headersAgree_iff _ _ _ ?_).mpr ⟨?_, ?_, by decide⟩
  · intro bin member
    rw [only bin member]
    trivial
  · intro bin member
    rw [only bin member]
    exact Or.inr trivial
  · intro value member
    have named : cstr (ascii "header") = cstr (ascii "bin") := congrArg Prod.fst (only _ member)
    have differ : cstr (ascii "header") ≠ cstr (ascii "bin") := by decide
    exact absurd named differ

/-- A record whose bins have both names that the header can take. -/
def bothNamesRecord : AsRecord :=
  (((AsRecord.init 2).set (cstr (ascii "header")) (.integer 1)).2.set
    (cstr (ascii "record_header")) (.integer 2)).2

/-- The header replaces the value of the second bin. -/
theorem not_headersAgree_bothNames :
    readHash Runtime.sample (.bool true) bothNamesRecord = .ok
        [(cstr (ascii "header"), .integer 1),
          (cstr (ascii "record_header"), headerHash bothNamesRecord)] ∧
      ¬HeadersAgree Runtime.sample Encodings.sample (rbStrLit "expire_in") bothNamesRecord := by
  refine ⟨rfl, ?_⟩
  rintro ⟨⟨hash, read, holds⟩, _⟩
  cases read
  have size := holds.length_eq
  revert size
  decide

end Paths

end AerospikeCRuby
