import AerospikeCRuby.Codec.Copy

/-!
# Buffered and streaming reads

A buffered read decodes the copy of a record, a streaming read the record
itself.  For what the server delivers, a copy fails to decode only at a NULL
pointer and a delivered value only where `Marshal.load` raises, so the two
reads agree exactly when both succeed, and then every value is `Faithful`.
-/

namespace AerospikeCRuby

open AssocList (Related keys)

variable {rt : Runtime}

theorem exists_copy (rt : Runtime) {value : AsVal} (delivered : Delivered value) :
    ∃ copy, rbCopyAsVal rt value = .ok copy := by
  induction value with
  | list elements ih =>
      have each := deliveredElements_iff.mp delivered
      rcases Aligned.exists_images
          fun element member => ih element member (each element member) with ⟨copies, copied⟩
      refine ⟨.list copies, ?_⟩
      rw [rbCopyAsVal, rbCopyAsArraylistFrom_eq, ExceptLoop.collect_eq_ok.mpr copied]
      rfl
  | map pairs ih =>
      have each := deliveredPairs_iff.mp delivered
      choose! name named using fun pair member => exists_pairName (each pair member).1
      choose! image copied using fun pair member => (ih pair member).2 (each pair member).2
      rw [rbCopyAsVal, rbCopyAsHashmapFrom_eq _ _ named copied]
      exact ⟨_, rfl⟩
  | null | undef | boolean | record | pair => exact delivered.elim
  | _ => exact ⟨_, rfl⟩

theorem readable_iff_loads {value : AsVal} (delivered : Delivered value) :
    Readable rt value ↔ Loads rt value := by
  induction value with
  | list elements ih =>
      have each := deliveredElements_iff.mp delivered
      rw [Readable, Loads, readableElements_iff, loadsElements_iff]
      exact forall₂_congr fun element member => ih element member (each element member)
  | map pairs ih =>
      have each := deliveredPairs_iff.mp delivered
      rw [Readable, Loads, readablePairs_iff, loadsPairs_iff]
      apply forall₂_congr
      intro pair member
      rw [(ih pair member).2 (each pair member).2, and_iff_right (each pair member).1]
  | bytes type data => cases type <;> exact Iff.rfl
  | null | undef | boolean | record | pair => exact delivered.elim
  | _ => exact Iff.rfl

/-- Decoding fails only where `Marshal.load` does. -/
theorem decodes_iff_loads {value : AsVal} (delivered : Delivered value) :
    (∃ val, asVal2rbVal rt value = .ok val) ↔ Loads rt value :=
  decodes_iff_readable.trans (readable_iff_loads delivered)

/-- The copy and the value both decode, to the same up to the order of Hashes. -/
def DecodesAlike (rt : Runtime) (value copy : AsVal) : Prop :=
  ∃ val val', asVal2rbVal rt copy = .ok val ∧ asVal2rbVal rt value = .ok val' ∧
    RbVal.Same val val'

theorem decodesAlike_list {elements copies : List AsVal}
    (alike : List.Forall₂ (DecodesAlike rt) elements copies) :
    DecodesAlike rt (.list elements) (.list copies) := by
  have lists : ∃ vals vals',
      List.Forall₂ (fun copy val => asVal2rbVal rt copy = .ok val) copies vals ∧
        List.Forall₂ (fun value val => asVal2rbVal rt value = .ok val) elements vals' ∧
        List.Forall₂ RbVal.Same vals vals' := by
    induction alike with
    | nil => exact ⟨[], [], .nil, .nil, .nil⟩
    | cons here _ ih =>
        rcases here with ⟨val, val', decoded, decoded', same⟩
        rcases ih with ⟨vals, vals', rest, rest', sameRest⟩
        exact ⟨val :: vals, val' :: vals', .cons decoded rest, .cons decoded' rest',
          .cons same sameRest⟩
  rcases lists with ⟨vals, vals', decoded, decoded', same⟩
  refine ⟨.array vals, .array vals', ?_, ?_, .array same⟩
  · rw [asVal2rbVal, asList2arrayFrom_eq, ExceptLoop.collect_eq_ok.mpr decoded]
    rfl
  · rw [asVal2rbVal, asList2arrayFrom_eq, ExceptLoop.collect_eq_ok.mpr decoded']
    rfl

/-- Only the last pair of each name has to be copied well. -/
theorem decodesAlike_map {pairs : List (AsVal × AsVal)} {name : AsVal × AsVal → CStr}
    {image : AsVal × AsVal → AsVal} {val : AsVal × AsVal → RbVal} (buckets : ℕ)
    (named : ∀ pair ∈ pairs, pairName pair.1 = .ok (name pair))
    (decoded : ∀ pair ∈ pairs, asVal2rbVal rt pair.2 = .ok (val pair))
    (alike : ∀ before pair after, pairs = before ++ pair :: after →
      (pairName pair.1).toOption ∉ pairNames after → DecodesAlike rt pair.2 (image pair)) :
    DecodesAlike rt (.map pairs)
      (.map ((pairs.map fun pair => (AsVal.string (name pair).bytes, image pair)).foldl
        (fun map entry => AssocList.put (rt.slot buckets (keys map) entry.1) map
          entry.1 entry.2) [])) := by
  have related : Related KeyedBy
      (fun copy val' => ∃ val, asVal2rbVal rt copy = .ok val ∧ RbVal.Same val val')
      ((pairs.map fun pair => (AsVal.string (name pair).bytes, image pair)).foldl
        (fun map entry => AssocList.put (rt.slot buckets (keys map) entry.1) map
          entry.1 entry.2) [])
      ((pairs.map fun pair => (name pair, val pair)).foldl
        (fun hash entry => AssocList.putLast hash entry.1 entry.2) []) := by
    refine AssocList.related_foldl_put_of_last keyedBy_lawful
      (fun map key => rt.slot buckets (keys map) key) (fun hash _ => hash.length)
      (fun pair => (AsVal.string (name pair).bytes, image pair))
      (fun pair => (name pair, val pair)) (fun _ _ => rfl) ?_
    intro before pair after split fresh
    have member : pair ∈ pairs := by simp [split]
    have others : ∀ other ∈ after, pairName other.1 = .ok (name other) :=
      fun other present => named other (by simp [split, present])
    have lastOne : (pairName pair.1).toOption ∉ pairNames after := by
      rw [not_mem_names (named pair member) others]
      simpa [keys] using fresh
    rcases alike before pair after split lastOne with
      ⟨inner, inner', decodedCopy, decodedValue, same⟩
    rw [decoded pair member, Except.ok.injEq] at decodedValue
    subst decodedValue
    exact ⟨inner, decodedCopy, same⟩
  rcases decode_map
      (AssocList.nodup_keys_foldl_put (fun map _ => map.length) _ AssocList.nodup_keys_nil)
      related with ⟨inner, decodedCopy, same⟩
  exact ⟨inner, _, decodedCopy, decode_map_eq named decoded, same⟩

/-- The copy of a faithful value decodes as the value does. -/
theorem decode_copy_of_faithful {value copy : AsVal} (delivered : Delivered value)
    (faithful : Faithful rt value) (copied : rbCopyAsVal rt value = .ok copy) :
    DecodesAlike rt value copy := by
  induction value generalizing copy with
  | integer | double =>
      cases copied
      exact ⟨_, _, rfl, rfl, .refl _⟩
  | string buffer | geojson buffer =>
      cases copied
      refine ⟨_, _, rfl, rfl, ?_⟩
      rw [cstr_bytes]
      exact .refl _
  | list elements ih =>
      have each := deliveredElements_iff.mp delivered
      rw [Faithful, faithfulElements_iff] at faithful
      simp only [rbCopyAsVal, rbCopyAsArraylistFrom_eq, ExceptLoop.bind_eq_ok,
        ExceptLoop.collect_eq_ok, Except.ok.injEq] at copied
      rcases copied with ⟨copies, aligned, rfl⟩
      apply decodesAlike_list
      apply Aligned.refine_of_mem aligned
      intro element member copy _ here
      exact ih element member (each element member) (faithful element member) here
  | map pairs ih =>
      have each := deliveredPairs_iff.mp delivered
      rw [Faithful, faithfulPairs_iff] at faithful
      choose! name named using fun pair member => exists_pairName (each pair member).1
      choose! image copies using fun pair member =>
        exists_copy rt (each pair member).2
      have alike : ∀ before pair after, pairs = before ++ pair :: after →
          (pairName pair.1).toOption ∉ pairNames after → DecodesAlike rt pair.2 (image pair) := by
        intro before pair after split last
        have member : pair ∈ pairs := by simp [split]
        exact (ih pair member).2 (each pair member).2 ((faithful before pair after split).2 last)
          (copies pair member)
      have decodes : ∀ pair ∈ pairs, ∃ val, asVal2rbVal rt pair.2 = .ok val := by
        intro pair member
        rcases List.append_of_mem member with ⟨before, after, split⟩
        by_cases taken : (pairName pair.1).toOption ∈ pairNames after
        · exact (decodes_iff_loads (each pair member).2).mpr
            ((faithful before pair after split).1 taken)
        · rcases alike before pair after split taken with ⟨_, val, _, decoded, _⟩
          exact ⟨val, decoded⟩
      choose! val decoded using decodes
      rw [rbCopyAsVal, rbCopyAsHashmapFrom_eq _ _ named copies] at copied
      rcases Except.ok.inj copied with rfl
      exact decodesAlike_map pairs.length named decoded alike
  | null | undef | nil | boolean | record | pair | bytes => exact faithful.elim

/-- A value which decodes, and whose copy decodes, is faithful. -/
theorem faithful_of_decodes {value copy : AsVal} (delivered : Delivered value)
    (copied : rbCopyAsVal rt value = .ok copy) (decodes : ∃ val, asVal2rbVal rt value = .ok val)
    (decodesCopy : ∃ val, asVal2rbVal rt copy = .ok val) : Faithful rt value := by
  induction value generalizing copy with
  | integer | double | string | geojson => trivial
  | nil | bytes =>
      cases copied
      rcases decodesCopy with ⟨_, impossible⟩
      cases impossible
  | list elements ih =>
      have each := deliveredElements_iff.mp delivered
      simp only [rbCopyAsVal, rbCopyAsArraylistFrom_eq, ExceptLoop.bind_eq_ok,
        ExceptLoop.collect_eq_ok, Except.ok.injEq] at copied
      rcases copied with ⟨copies, aligned, rfl⟩
      rcases decodes with ⟨_, decoded⟩
      rcases decodesCopy with ⟨_, decodedCopy⟩
      refine faithfulElements_iff.mpr fun element member => ?_
      rcases Aligned.exists_of_mem aligned member with ⟨copy, present, copied⟩
      exact ih element member (each element member) copied (decode_of_mem_list decoded member)
        (decode_of_mem_list decodedCopy present)
  | map pairs ih =>
      have each := deliveredPairs_iff.mp delivered
      choose! name named using fun pair member => exists_pairName (each pair member).1
      choose! image copies using fun pair member =>
        exists_copy rt (each pair member).2
      rw [rbCopyAsVal, rbCopyAsHashmapFrom_eq _ _ named copies] at copied
      rcases Except.ok.inj copied with rfl
      rcases decodes with ⟨_, decoded⟩
      rcases decodesCopy with ⟨_, decodedCopy⟩
      refine faithfulPairs_iff.mpr fun before pair after split => ⟨fun _ => ?_, fun last => ?_⟩
      · have member : pair ∈ pairs := by simp [split]
        exact (decodes_iff_loads (each pair member).2).mp (decode_of_mem_map decoded member)
      · have member : pair ∈ pairs := by simp [split]
        have others : ∀ other ∈ after, pairName other.1 = .ok (name other) :=
          fun other present => named other (by simp [split, present])
        rw [not_mem_names (named pair member) others] at last
        have fresh : AsVal.string (name pair).bytes ∉
            keys (after.map fun pair => (AsVal.string (name pair).bytes, image pair)) := by
          intro present
          simp only [keys, List.map_map, List.mem_map, Function.comp, AsVal.string.injEq]
            at present
          rcases present with ⟨other, inAfter, same⟩
          refine last (List.mem_map.mpr ⟨other, inAfter, ?_⟩)
          rw [← cstr_bytes (name other), same, cstr_bytes]
        have found := AssocList.lookup_foldl_put
          (fun map key => rt.slot pairs.length (keys map) key)
          (before.map fun pair => (AsVal.string (name pair).bytes, image pair))
          (image pair) fresh []
        have present := AssocList.mem_of_lookup found
        rw [← List.map_cons (f := fun pair => (AsVal.string (name pair).bytes, image pair)),
          ← List.map_append, ← split] at present
        exact (ih pair member).2 (each pair member).2 (copies pair member)
          (decode_of_mem_map decoded member) (decode_of_mem_map decodedCopy present)
  | null | undef | boolean | record | pair => exact delivered.elim

theorem decode_list_error {elements : List AsVal} {failure : Abort}
    (failed : asVal2rbVal rt (.list elements) = .error failure) :
    ∃ element ∈ elements, asVal2rbVal rt element = .error failure := by
  simp only [asVal2rbVal, asList2arrayFrom_eq, ExceptLoop.bind_eq_error, reduceCtorEq, and_false,
    exists_false, or_false] at failed
  rcases ExceptLoop.collect_eq_error.mp failed with ⟨_, element, _, _, rfl, _, failed⟩
  exact ⟨element, by simp, failed⟩

/-- A map whose keys are Strings fails to decode on one of its values. -/
theorem decode_map_error {pairs : List (AsVal × AsVal)} {failure : Abort}
    (named : ∀ pair ∈ pairs, ∃ name, pairName pair.1 = .ok name)
    (failed : asVal2rbVal rt (.map pairs) = .error failure) :
    ∃ pair ∈ pairs, asVal2rbVal rt pair.2 = .error failure := by
  simp only [asVal2rbVal, asHashmap2hashFrom_eq, ExceptLoop.bind_eq_error, reduceCtorEq,
    and_false, exists_false, or_false, ExceptLoop.accumulate_eq_error] at failed
  rcases ExceptLoop.collect_eq_error.mp failed with ⟨_, pair, _, _, rfl, _, failed⟩
  rcases named pair (by simp) with ⟨name, isNamed⟩
  refine ⟨pair, by simp, ?_⟩
  simpa [decodePair, isNamed, ExceptLoop.bind_eq_error] using failed

/-- What is delivered is never read through a NULL pointer. -/
theorem decode_ne_nullDeref {value : AsVal} (delivered : Delivered value) :
    asVal2rbVal rt value ≠ .error .nullDeref := by
  intro failed
  induction value with
  | list elements ih =>
      rcases decode_list_error failed with ⟨element, member, failed⟩
      exact ih element member (deliveredElements_iff.mp delivered element member) failed
  | map pairs ih =>
      have each := deliveredPairs_iff.mp delivered
      rcases decode_map_error
          (fun pair member => exists_pairName (each pair member).1) failed with
        ⟨pair, member, failed⟩
      exact (ih pair member).2 (each pair member).2 failed
  | bytes type data =>
      cases type with
      | ruby =>
          rw [asVal2rbVal, asBytesToRbObj, Runtime.load] at failed
          cases outcome : rt.marshalLoad ((stringBytes data).map byteOfInt) with
          | ok val =>
              rw [outcome] at failed
              cases failed
          | error exception =>
              rw [outcome] at failed
              cases failed
      | other code => cases failed
  | null | undef | boolean | record | pair => exact delivered.elim
  | _ => cases failed

/-- A copy which does not decode holds a NULL pointer. -/
theorem decode_copy_error {value copy : AsVal} (delivered : Delivered value)
    (copied : rbCopyAsVal rt value = .ok copy) {failure : Abort}
    (failed : asVal2rbVal rt copy = .error failure) : failure = .nullDeref := by
  induction value generalizing copy with
  | list elements ih =>
      simp only [rbCopyAsVal, rbCopyAsArraylistFrom_eq, ExceptLoop.bind_eq_ok,
        ExceptLoop.collect_eq_ok, Except.ok.injEq] at copied
      rcases copied with ⟨copies, aligned, rfl⟩
      rcases decode_list_error failed with ⟨copy, member, failed⟩
      rcases Aligned.exists_of_mem aligned.flip member with ⟨element, present, copied⟩
      exact ih element present (deliveredElements_iff.mp delivered element present) copied failed
  | map pairs ih =>
      have each := deliveredPairs_iff.mp delivered
      choose! name named using fun pair member => exists_pairName (each pair member).1
      choose! image copies using fun pair member =>
        exists_copy rt (each pair member).2
      rw [rbCopyAsVal, rbCopyAsHashmapFrom_eq _ _ named copies] at copied
      rcases Except.ok.inj copied with rfl
      have source {entry : AsVal × AsVal} (member : entry ∈
          (pairs.map fun pair => (AsVal.string (name pair).bytes, image pair)).foldl
            (fun map entry => AssocList.put (rt.slot pairs.length (keys map) entry.1) map
              entry.1 entry.2) []) :
          ∃ pair ∈ pairs, (AsVal.string (name pair).bytes, image pair) = entry := by
        rcases AssocList.mem_of_mem_foldl_put
          (fun map key => rt.slot pairs.length (keys map) key) member with none | made
        · simp at none
        · exact List.mem_map.mp made
      rcases decode_map_error (fun entry member => by
          rcases source member with ⟨pair, _, rfl⟩
          exact ⟨_, rfl⟩) failed with ⟨_, member, failed⟩
      rcases source member with ⟨pair, present, rfl⟩
      exact (ih pair present).2 (each pair present).2 (copies pair present) failed
  | nil | bytes =>
      cases copied
      cases failed
      rfl
  | null | undef | boolean | record | pair => exact delivered.elim
  | integer | double | string | geojson =>
      cases copied
      cases failed

/-- The value of a bin the copy leaves out. -/
def IsBytes (value : AsVal) : Prop :=
  ∃ type data, value = .bytes type data

theorem copyBinValue_of_delivered (rt : Runtime) {value : AsVal} (delivered : Delivered value) :
    (IsBytes value ∧ copyBinValue rt value = .ok none) ∨
      (value = .nil ∧ copyBinValue rt value = .ok (some .nil)) ∨
      ∃ copy, rbCopyAsVal rt value = .ok copy ∧ copyBinValue rt value = .ok (some copy) := by
  rcases exists_copy rt delivered with ⟨copy, copied⟩
  cases value with
  | null | undef | boolean | record | pair => exact delivered.elim
  | bytes type data => exact Or.inl ⟨⟨type, data, rfl⟩, rfl⟩
  | nil => exact Or.inr (Or.inl ⟨rfl, rfl⟩)
  | list elements =>
      refine Or.inr (Or.inr ⟨copy, copied, ?_⟩)
      simp only [rbCopyAsVal, ExceptLoop.bind_eq_ok, Except.ok.injEq] at copied
      rcases copied with ⟨copies, made, rfl⟩
      rw [copyBinValue, made]
      rfl
  | map pairs =>
      refine Or.inr (Or.inr ⟨copy, copied, ?_⟩)
      simp only [rbCopyAsVal, ExceptLoop.bind_eq_ok, Except.ok.injEq] at copied
      rcases copied with ⟨copies, made, rfl⟩
      rw [copyBinValue, made]
      rfl
  | _ =>
      cases copied
      exact Or.inr (Or.inr ⟨_, rfl, rfl⟩)

/-- The bins of the copy, from the copies of the values. -/
def copiedBins (image : CStr × AsVal → Option AsVal) (bins : List (CStr × AsVal)) :
    List (CStr × AsVal) :=
  bins.filterMap fun bin => (image bin).map fun copy => (bin.1, copy)

theorem keys_copiedBins_sublist (image : CStr × AsVal → Option AsVal)
    (bins : List (CStr × AsVal)) : (keys (copiedBins image bins)).Sublist (keys bins) := by
  induction bins with
  | nil => exact List.Sublist.slnil
  | cons bin rest ih =>
      rw [copiedBins, List.filterMap_cons]
      cases image bin with
      | none => exact ih.cons _
      | some copy => exact ih.cons_cons _

theorem rbCopyAsRecordFrom_eq {image : CStr × AsVal → Option AsVal}
    {bins : List (CStr × AsVal)} (newRecord : AsRecord)
    (copied : ∀ bin ∈ bins, copyBinValue rt bin.2 = .ok (image bin)) :
    rbCopyAsRecordFrom rt newRecord bins = .ok (newRecord.setAll (copiedBins image bins)) := by
  induction bins generalizing newRecord with
  | nil => rfl
  | cons bin rest ih =>
      have later := fun newRecord =>
        ih newRecord fun other member => copied other (by simp [member])
      rw [rbCopyAsRecordFrom, copied bin (by simp), copiedBins, List.filterMap_cons]
      cases image bin with
      | none => exact later newRecord
      | some copy => exact later _

/-- The copy has the header of the record and, in their order, the bins whose values are copied. -/
theorem rbCopyAsRecord_eq (image : CStr × AsVal → Option AsVal) {record : AsRecord}
    (copied : ∀ bin ∈ record.bins, copyBinValue rt bin.2 = .ok (image bin)) :
    ∃ copy, rbCopyAsRecord rt record = .ok copy ∧ copy.gen = record.gen ∧
      copy.ttl = record.ttl ∧ copy.bins = copiedBins image record.bins := by
  have sublist := keys_copiedBins_sublist image record.bins
  have inOrder : (copiedBins image record.bins).foldl
      (fun bins setting => AssocList.putLast bins setting.1 setting.2) [] =
      copiedBins image record.bins :=
    AssocList.foldl_putLast_of_nodup [] _ (by simpa using sublist.nodup record.distinct)
  refine ⟨_, rbCopyAsRecordFrom_eq _ copied, by simp, by simp, ?_⟩
  rw [AsRecord.bins_setAll]
  · exact inOrder
  · intro setting member
    exact record.named _ (sublist.subset (List.mem_map_of_mem member))
  · have shorter := sublist.length_le
    have fits := record.fits
    have addressable := record.addressable
    simp only [keys, List.length_map] at shorter
    show (List.foldl _ [] _).length ≤ record.capacity % 2 ^ 16
    rw [inOrder, Nat.mod_eq_of_lt addressable]
    omega

/-- Two reads answer the same Hash, or fail in the same way. -/
def SameOutcome : Except Abort StrHash → Except Abort StrHash → Prop
  | .ok hash, .ok hash' => RbVal.Same (.hash hash.entries) (.hash hash'.entries)
  | .error failure, .error failure' => failure = failure'
  | _, _ => False

theorem RbVal.Same.length_eq {entries entries' : List (RbVal × RbVal)}
    (same : RbVal.Same (.hash entries) (.hash entries')) : entries.length = entries'.length := by
  cases same with
  | refl => rfl
  | hash perm keys _ => simpa using perm.length_eq.trans (by simpa using keys.length_eq)

theorem record2hash_error {record : AsRecord} {failure : Abort}
    (failed : record2hash rt record = .error failure) :
    ∃ bin ∈ record.bins, asVal2rbVal rt bin.2 = .error failure := by
  rw [record2hash, record2hashFrom_eq, ExceptLoop.accumulate_eq_error] at failed
  rcases ExceptLoop.collect_eq_error.mp failed with ⟨before, bin, after, _, split, _, failed⟩
  refine ⟨bin, by simp [split], ?_⟩
  simpa [decodeBin, ExceptLoop.bind_eq_error] using failed

/-- A buffered read of a record agrees with a streaming one. -/
def ReadsAgree (rt : Runtime) (record : AsRecord) : Prop :=
  ∃ copy, rbCopyAsRecord rt record = .ok copy ∧ copy.gen = record.gen ∧
    copy.ttl = record.ttl ∧ SameOutcome (record2hash rt copy) (record2hash rt record)

/-- A record of faithful values and its copy both read, bin by bin, to the same. -/
theorem reads_of_faithful {record : AsRecord} (delivered : ∀ bin ∈ record.bins, Delivered bin.2)
    (faithful : ∀ bin ∈ record.bins, bin.2 = .nil ∨ Faithful rt bin.2) :
    ∃ copy, ∃ val val' : CStr × AsVal → RbVal, rbCopyAsRecord rt record = .ok copy ∧
      copy.gen = record.gen ∧ copy.ttl = record.ttl ∧
      record2hash rt copy = .ok (record.bins.map fun bin => (bin.1, val bin)) ∧
      record2hash rt record = .ok (record.bins.map fun bin => (bin.1, val' bin)) ∧
      ∀ bin ∈ record.bins, asVal2rbVal rt bin.2 = .ok (val' bin) ∧
        RbVal.Same (val bin) (val' bin) := by
  have copies : ∀ bin ∈ record.bins, ∃ copy val val',
      copyBinValue rt bin.2 = .ok (some copy) ∧ asVal2rbVal rt copy = .ok val ∧
        asVal2rbVal rt bin.2 = .ok val' ∧ RbVal.Same val val' := by
    intro bin member
    rcases copyBinValue_of_delivered rt (delivered bin member) with
      ⟨⟨type, data, same⟩, _⟩ | ⟨same, copied⟩ | ⟨copy, copied, set⟩
    · rcases faithful bin member with isNil | inner
      · rw [same] at isNil
        cases isNil
      · rw [same] at inner
        exact inner.elim
    · rw [same] at copied ⊢
      exact ⟨.nil, .nil, .nil, copied, rfl, rfl, .refl _⟩
    · rcases faithful bin member with isNil | inner
      · rw [isNil] at set ⊢
        exact ⟨.nil, .nil, .nil, rfl, rfl, rfl, .refl _⟩
      · rcases decode_copy_of_faithful (delivered bin member) inner copied with
          ⟨val, val', decoded, decoded', same⟩
        exact ⟨copy, val, val', set, decoded, decoded', same⟩
  choose! image val val' set decoded decoded' same using copies
  rcases rbCopyAsRecord_eq (fun bin => some (image bin)) set with ⟨copy, made, gen, ttl, bins⟩
  refine ⟨copy, val, val', made, gen, ttl, ?_, ?_,
    fun bin member => ⟨decoded' bin member, same bin member⟩⟩
  · rw [record2hash_eq_ok, bins]
    simp only [copiedBins, Option.map_some, List.filterMap_eq_map', List.forall₂_map_left_iff,
      List.forall₂_map_right_iff, List.forall₂_same]
    exact fun bin member => ⟨trivial, decoded bin member⟩
  · rw [record2hash_eq_ok, List.forall₂_map_right_iff, List.forall₂_same]
    exact fun bin member => ⟨rfl, decoded' bin member⟩

theorem readsAgree_of_faithful {record : AsRecord}
    (delivered : ∀ bin ∈ record.bins, Delivered bin.2)
    (faithful : ∀ bin ∈ record.bins, bin.2 = .nil ∨ Faithful rt bin.2) :
    ReadsAgree rt record := by
  rcases reads_of_faithful delivered faithful with
    ⟨copy, val, val', made, gen, ttl, readCopy, read, same⟩
  refine ⟨copy, made, gen, ttl, ?_⟩
  rw [readCopy, read]
  refine same_entries ?_ (List.Perm.refl _)
  rw [List.forall₂_map_left_iff, List.forall₂_map_right_iff, List.forall₂_same]
  exact fun bin member => ⟨rfl, (same bin member).2⟩

/-- The copy of a delivered record fails to read in one way only. -/
theorem record2hash_copy_error {record copy : AsRecord} {image : CStr × AsVal → Option AsVal}
    (delivered : ∀ bin ∈ record.bins, Delivered bin.2)
    (copied : ∀ bin ∈ record.bins, copyBinValue rt bin.2 = .ok (image bin))
    (bins : copy.bins = copiedBins image record.bins) {failure : Abort}
    (failed : record2hash rt copy = .error failure) : failure = .nullDeref := by
  rcases record2hash_error failed with ⟨bin, member, failed⟩
  rw [bins] at member
  rcases List.mem_filterMap.mp member with ⟨source, present, set⟩
  have imaged := copied source present
  rcases copyBinValue_of_delivered rt (delivered source present) with
    ⟨_, none⟩ | ⟨_, isNil⟩ | ⟨value, copiedValue, some⟩
  · rw [Except.ok.inj (imaged.symm.trans none)] at set
    cases set
  · rw [Except.ok.inj (imaged.symm.trans isNil)] at set
    rcases Option.some.inj set with rfl
    cases failed
  · rw [Except.ok.inj (imaged.symm.trans some)] at set
    rcases Option.some.inj set with rfl
    exact decode_copy_error (delivered source present) copiedValue failed

theorem exists_image (rt : Runtime) {record : AsRecord}
    (delivered : ∀ bin ∈ record.bins, Delivered bin.2) :
    ∃ image : CStr × AsVal → Option AsVal,
      ∀ bin ∈ record.bins, copyBinValue rt bin.2 = .ok (image bin) := by
  have copies : ∀ bin ∈ record.bins, ∃ copy, copyBinValue rt bin.2 = .ok copy := by
    intro bin member
    rcases copyBinValue_of_delivered rt (delivered bin member) with
      ⟨_, copied⟩ | ⟨_, copied⟩ | ⟨copy, _, copied⟩ <;> exact ⟨_, copied⟩
  choose! image copied using copies
  exact ⟨image, copied⟩

/-- Where the copy reads to no fewer bins than the record has, each of them is faithful. -/
theorem faithful_of_length {record copy : AsRecord} {hash hash' : StrHash}
    (delivered : ∀ bin ∈ record.bins, Delivered bin.2)
    (made : rbCopyAsRecord rt record = .ok copy) (readCopy : record2hash rt copy = .ok hash)
    (read : record2hash rt record = .ok hash') (whole : record.bins.length ≤ hash.length) :
    ∀ bin ∈ record.bins, bin.2 = .nil ∨ Faithful rt bin.2 := by
  rcases exists_image rt delivered with ⟨image, copied⟩
  rcases rbCopyAsRecord_eq image copied with ⟨copy', made', _, _, bins⟩
  rcases Except.ok.inj (made'.symm.trans made) with rfl
  have inCopy {bin : CStr × AsVal} (member : bin ∈ record.bins) {value : AsVal}
      (set : image bin = some value) : (bin.1, value) ∈ copy'.bins := by
    rw [bins]
    exact List.mem_filterMap.mpr ⟨bin, member, by rw [set]; rfl⟩
  rw [← (record2hash_eq_ok.mp readCopy).length_eq, bins, copiedBins] at whole
  have whole := List.filterMap_length_eq_length.mp
    (le_antisymm (List.length_filterMap_le _ _) whole)
  intro bin member
  have imaged := copied bin member
  rcases copyBinValue_of_delivered rt (delivered bin member) with
    ⟨_, none⟩ | ⟨isNil, _⟩ | ⟨value, copiedValue, some⟩
  · have kept := whole bin member
    rw [Except.ok.inj (imaged.symm.trans none)] at kept
    cases kept
  · exact Or.inl isNil
  · have set := Except.ok.inj (imaged.symm.trans some)
    exact Or.inr (faithful_of_decodes (delivered bin member) copiedValue
      (record2hash_decodes read member) (record2hash_decodes readCopy (inCopy member set)))

theorem faithful_of_readsAgree {record : AsRecord}
    (delivered : ∀ bin ∈ record.bins, Delivered bin.2) (agree : ReadsAgree rt record) :
    ∀ bin ∈ record.bins, bin.2 = .nil ∨ Faithful rt bin.2 := by
  rcases agree with ⟨copy, made, _, _, outcome⟩
  cases readCopy : record2hash rt copy with
  | error failure =>
      cases read : record2hash rt record with
      | ok hash =>
          rw [readCopy, read] at outcome
          exact outcome.elim
      | error failure' =>
          rw [readCopy, read] at outcome
          have same : failure = failure' := outcome
          rcases exists_image rt delivered with ⟨image, copied⟩
          rcases rbCopyAsRecord_eq image copied with ⟨copy', made', _, _, bins⟩
          rcases Except.ok.inj (made'.symm.trans made) with rfl
          rw [← same, record2hash_copy_error delivered copied bins readCopy] at read
          rcases record2hash_error read with ⟨bin, member, failed⟩
          exact absurd failed (decode_ne_nullDeref (delivered bin member))
  | ok hash =>
      cases read : record2hash rt record with
      | error failure =>
          rw [readCopy, read] at outcome
          exact outcome.elim
      | ok hash' =>
          rw [readCopy, read] at outcome
          have sameLength := RbVal.Same.length_eq outcome
          simp only [StrHash.entries, List.length_map] at sameLength
          rw [← (record2hash_eq_ok.mp read).length_eq] at sameLength
          exact faithful_of_length delivered made readCopy read sameLength.ge

/-- Buffered and streaming reads of a delivered record agree exactly when every bin holds nil or
a faithful value. -/
theorem readsAgree_iff {record : AsRecord} (delivered : ∀ bin ∈ record.bins, Delivered bin.2) :
    ReadsAgree rt record ↔ ∀ bin ∈ record.bins, bin.2 = .nil ∨ Faithful rt bin.2 :=
  ⟨faithful_of_readsAgree delivered, readsAgree_of_faithful delivered⟩

/-- A bin holding the dump of `true`, as `put` stores it. -/
def flagRecord : AsRecord :=
  ((AsRecord.init 1).set (cstr (ascii "bin")) (.bytes .ruby [4, 8, 84])).2

theorem readsAgree_iff_flag :
    ReadsAgree Runtime.sample flagRecord ↔
      ∀ bin ∈ flagRecord.bins, bin.2 = .nil ∨ Faithful Runtime.sample bin.2 := by
  refine readsAgree_iff fun bin member => ?_
  obtain rfl : bin = (cstr (ascii "bin"), .bytes .ruby [4, 8, 84]) := List.mem_singleton.mp member
  trivial

/-- The streaming read answers `true`; the buffered read lacks the bin. -/
theorem not_readsAgree_flag :
    record2hash Runtime.sample flagRecord = .ok [(cstr (ascii "bin"), .bool true)] ∧
      (do
        let copy ← rbCopyAsRecord Runtime.sample flagRecord
        record2hash Runtime.sample copy) = .ok [] ∧
      ¬ReadsAgree Runtime.sample flagRecord := by
  refine ⟨rfl, rfl, ?_⟩
  rintro ⟨copy, made, _, _, outcome⟩
  rcases Except.ok.inj made with rfl
  have sameLength := RbVal.Same.length_eq (show RbVal.Same (.hash (StrHash.entries []))
    (.hash (StrHash.entries [(cstr (ascii "bin"), .bool true)])) from outcome)
  cases sameLength

end AerospikeCRuby
