import AerospikeCRuby.Codec.Lending

/-!
# How put fills its record

The record which `put` fills is described by the settings its entries make.
With the json of every GeoJson in the place of its struct it is the record that
`hash2record` fills, so that the two models of the conversion are one.  Where
all settings are made, a struct loses its string exactly when a bin that holds
it is set again.
-/

namespace AerospikeCRuby

open AssocList (keys putLast)

variable {rt : Runtime} {Ref : Type}

section Replaced

/-- The struct is lent under a name which is set again. -/
def Replaced (settings : List (CStr × BinPtr Ref)) (ref : Ref) : Prop :=
  ∃ before name after, settings = before ++ (name, .lent ref) :: after ∧ name ∈ keys after

/-- The struct is in a bin that is set, or is lent and then replaced. -/
def Lost (rec : LentRecord Ref) (settings : List (CStr × BinPtr Ref)) (ref : Ref) : Prop :=
  (∃ name ∈ keys settings, rec.bins.lookup name = some (.lent ref)) ∨ Replaced settings ref

variable {settings : List (CStr × BinPtr Ref)} {name : CStr} {ptr : BinPtr Ref} {ref : Ref}

theorem not_replaced_nil : ¬Replaced [] ref := by
  rintro ⟨before, name, after, split, _⟩
  simp at split

theorem replaced_cons :
    Replaced ((name, ptr) :: settings) ref ↔
      (ptr = .lent ref ∧ name ∈ keys settings) ∨ Replaced settings ref := by
  constructor
  · rintro ⟨before, other, after, split, again⟩
    rcases before with _ | ⟨first, before⟩
    · cases split
      exact Or.inl ⟨rfl, again⟩
    · cases split
      exact Or.inr ⟨before, other, after, rfl, again⟩
  · rintro (⟨rfl, again⟩ | ⟨before, other, after, rfl, again⟩)
    · exact ⟨[], name, settings, rfl, again⟩
    · exact ⟨(name, ptr) :: before, other, after, rfl, again⟩

theorem lost_cons {rec rec' : LentRecord Ref}
    (bins : rec'.bins = putLast rec.bins name ptr) :
    Lost rec ((name, ptr) :: settings) ref ↔
      rec.bins.lookup name = some (.lent ref) ∨ Lost rec' settings ref := by
  have found (other : CStr) : rec'.bins.lookup other =
      if other = name then some ptr else rec.bins.lookup other := by
    rw [bins, putLast, AssocList.lookup_put]
  rw [Lost, Lost, replaced_cons]
  constructor
  · rintro (⟨other, member, held⟩ | ⟨rfl, again⟩ | replaced)
    · by_cases same : other = name
      · exact Or.inl (same ▸ held)
      · rcases List.mem_cons.mp member with here | later
        · exact absurd here same
        · exact Or.inr (Or.inl ⟨other, later, by rw [found, if_neg same, held]⟩)
    · exact Or.inr (Or.inl ⟨name, again, by rw [found, if_pos rfl]⟩)
    · exact Or.inr (Or.inr replaced)
  · rintro (held | ⟨other, later, held⟩ | replaced)
    · exact Or.inl ⟨name, List.mem_cons_self, held⟩
    · rw [found] at held
      split at held
      case isTrue same =>
        exact Or.inr (Or.inl ⟨Option.some.inj held, same ▸ later⟩)
      case isFalse => exact Or.inl ⟨other, List.mem_cons_of_mem _ later, held⟩
    · exact Or.inr (Or.inr replaced)

end Replaced

section Settings

variable [DecidableEq Ref] {heap : GeoHeap Ref} {rec : LentRecord Ref}
  {state state' : GeoHeap Ref × LentRecord Ref} {settings : List (CStr × BinPtr Ref)}

def LentRecord.setAll (state : GeoHeap Ref × LentRecord Ref)
    (settings : List (CStr × BinPtr Ref)) : GeoHeap Ref × LentRecord Ref :=
  settings.foldl (fun state setting => state.2.set state.1 setting.1 setting.2) state

theorem hash2recordLent_eq_ok {bins : List (RbVal × BinVal Ref)} :
    hash2recordLent rt bins state = .ok state' ↔
      ∃ settings, List.Forall₂ (Lays rt) bins settings ∧
        LentRecord.setAll state settings.reduceOption = state' := by
  induction bins generalizing state with
  | nil =>
      simp [hash2recordLent, LentRecord.setAll, List.reduceOption, pure, Except.pure]
  | cons entry rest ih =>
      simp only [hash2recordLent_cons_eq_ok, foreachHash2recordLent_eq_ok, ih]
      constructor
      · rintro ⟨_, ⟨setting, lays, rfl⟩, settings, aligned, rfl⟩
        refine ⟨setting :: settings, .cons lays aligned, ?_⟩
        cases setting <;> rfl
      · rintro ⟨_, aligned, rfl⟩
        cases aligned with
        | @cons _ setting _ settings lays aligned =>
            refine ⟨_, ⟨setting, lays, rfl⟩, settings, aligned, ?_⟩
            cases setting <;> rfl

/-- A setting that is made takes the string of the struct which the bin held, if any. -/
theorem set_of_accepts {name : CStr} (short : name.bytes.length ≤ asBinNameMaxLen)
    (room : name ∈ keys rec.bins ∨ rec.bins.length < rec.capacity) (ptr : BinPtr Ref) :
    (rec.set heap name ptr).2 = { rec with bins := putLast rec.bins name ptr } ∧
      ∀ ref, (rec.bins.lookup name = some (.lent ref) →
          ((rec.set heap name ptr).1 ref).value = none) ∧
        (rec.bins.lookup name ≠ some (.lent ref) →
          (rec.set heap name ptr).1 ref = heap ref) := by
  rw [LentRecord.set, if_pos ⟨short, room⟩]
  refine ⟨rfl, fun ref => ?_⟩
  cases rec.bins.lookup name with
  | none => exact ⟨by simp, fun _ => rfl⟩
  | some old =>
      rcases value_destroy heap old ref with ⟨taken, kept⟩
      constructor
      · intro held
        exact taken (Option.some.inj held)
      · intro other
        exact kept fun same => other (congrArg some same)

theorem value_set_of_none {name : CStr} {ptr : BinPtr Ref} {ref : Ref}
    (gone : (heap ref).value = none) : ((rec.set heap name ptr).1 ref).value = none := by
  rw [LentRecord.set]
  split
  · cases rec.bins.lookup name with
    | none => exact gone
    | some old => exact value_destroy_of_none gone old
  · exact gone

theorem value_setAll_of_none {ref : Ref} (gone : (state.1 ref).value = none) :
    ((LentRecord.setAll state settings).1 ref).value = none := by
  induction settings generalizing state with
  | nil => exact gone
  | cons setting rest ih => exact ih (value_set_of_none gone)

/-- Where names are short and the bins fit, all settings are made, and the structs that are lost
are those which lose their strings. -/
theorem setAll_spec (short : ∀ setting ∈ settings, setting.1.bytes.length ≤ asBinNameMaxLen)
    (room : (settings.foldl (fun bins setting => putLast bins setting.1 setting.2)
      rec.bins).length ≤ rec.capacity) :
    (LentRecord.setAll (heap, rec) settings).2.bins =
        settings.foldl (fun bins setting => putLast bins setting.1 setting.2) rec.bins ∧
      ∀ ref, (Lost rec settings ref →
          ((LentRecord.setAll (heap, rec) settings).1 ref).value = none) ∧
        (¬Lost rec settings ref → (LentRecord.setAll (heap, rec) settings).1 ref = heap ref) := by
  induction settings generalizing heap rec with
  | nil =>
      refine ⟨rfl, fun ref => ⟨?_, fun _ => rfl⟩⟩
      rintro (⟨name, member, _⟩ | replaced)
      · simp at member
      · exact absurd replaced not_replaced_nil
  | cons setting rest ih =>
      rcases setting with ⟨name, ptr⟩
      rcases @set_of_accepts _ _ heap rec name (short _ List.mem_cons_self)
          (AssocList.room_of_foldl_putLast room) ptr with ⟨made, structs⟩
      rcases hset : rec.set heap name ptr with ⟨heap', rec'⟩
      rw [hset] at made structs
      obtain rfl : rec' = _ := made
      rcases @ih heap' { rec with bins := putLast rec.bins name ptr }
          (fun other member => short other (List.mem_cons_of_mem _ member)) room with
        ⟨bins, later⟩
      have unfolded : LentRecord.setAll (heap, rec) ((name, ptr) :: rest) =
          LentRecord.setAll (heap', { rec with bins := putLast rec.bins name ptr }) rest := by
        rw [← hset]
        rfl
      rw [unfolded]
      refine ⟨bins, fun ref => ?_⟩
      rw [@lost_cons _ rest name ptr ref rec { rec with bins := putLast rec.bins name ptr } rfl,
        not_or]
      constructor
      · rintro (held | lost)
        · exact value_setAll_of_none ((structs ref).1 held)
        · exact (later ref).1 lost
      · rintro ⟨other, kept⟩
        rw [(later ref).2 kept]
        exact (structs ref).2 other

end Settings

section Resolved

variable {json : Ref → CStr} {record : AsRecord} {rec : LentRecord Ref}

/-- An entry with the json of its GeoJson. -/
def resolve (json : Ref → CStr) (entry : RbVal × BinVal Ref) : RbVal × RbVal :=
  (entry.1, match entry.2 with
    | .geoJson ref => .geoJson (json ref)
    | .plain val _ => val)

def BinPtr.resolve (json : Ref → CStr) : BinPtr Ref → AsVal
  | own val => val
  | lent ref => .geojson (json ref).bytes

/-- The record with the json of every GeoJson lent to it. -/
structure Resolves (json : Ref → CStr) (rec : LentRecord Ref) (record : AsRecord) : Prop where
  bins : record.bins = rec.bins.map fun bin => (bin.1, bin.2.resolve json)
  capacity : record.capacity = rec.capacity
  gen : record.gen = 0

theorem resolves_init (json : Ref → CStr) (nbins : ℕ) :
    Resolves json (.init nbins : LentRecord Ref) (.init nbins) where
  bins := rfl
  capacity := rfl
  gen := rfl

theorem binSets_of_lays {entry : RbVal × BinVal Ref} {setting : Option (CStr × BinPtr Ref)}
    (lays : Lays rt entry setting) :
    BinSets rt (resolve json entry)
      (setting.map fun setting => (setting.1, setting.2.resolve json)) := by
  cases lays with
  | skip key handle => exact .skip key handle
  | own named encodes => exact .set named encodes
  | lent named => exact .set named rfl

theorem exists_lays_of_binSets {entry : RbVal × BinVal Ref} {setting : Option (CStr × AsVal)}
    (sets : BinSets rt (resolve json entry) setting) : ∃ setting, Lays rt entry setting := by
  rcases entry with ⟨key, ref | ⟨val, copied⟩⟩
  · cases sets with
    | set named _ => exact ⟨_, .lent named⟩
  · generalize same : resolve json (key, .plain val copied) = resolved at sets
    cases sets with
    | skip =>
        cases same
        exact ⟨_, .skip key _⟩
    | set named encodes =>
        cases same
        exact ⟨_, .own named encodes⟩

variable [DecidableEq Ref] {state state' : GeoHeap Ref × LentRecord Ref}

theorem Resolves.set (resolves : Resolves json rec record) (heap : GeoHeap Ref) (name : CStr)
    (ptr : BinPtr Ref) :
    Resolves json (rec.set heap name ptr).2 (record.set name (ptr.resolve json)).2 := by
  have sameKeys : keys record.bins = keys rec.bins := by
    rw [resolves.bins, keys, keys, List.map_map]
    rfl
  have sameLength : record.bins.length = rec.bins.length := by
    rw [resolves.bins, List.length_map]
  have condition : record.Accepts name ↔ name.bytes.length ≤ asBinNameMaxLen ∧
      (name ∈ keys rec.bins ∨ rec.bins.length < rec.capacity) := by
    rw [AsRecord.Accepts, sameKeys, sameLength, resolves.capacity]
  by_cases accepted : record.Accepts name
  · rw [LentRecord.set, if_pos (condition.mp accepted)]
    constructor
    · rw [AsRecord.bins_set_of_accepts accepted, resolves.bins]
      exact AssocList.putLast_map _ _ _ _
    · rw [AsRecord.capacity_set, resolves.capacity]
    · rw [AsRecord.gen_set, resolves.gen]
  · rw [LentRecord.set, AsRecord.set, dif_neg accepted, if_neg (mt condition.mpr accepted)]
    exact resolves

theorem Resolves.setAll (resolves : Resolves json state.2 record)
    (settings : List (CStr × BinPtr Ref)) :
    Resolves json (LentRecord.setAll state settings).2
      (record.setAll (settings.map fun setting => (setting.1, setting.2.resolve json))) := by
  induction settings generalizing state record with
  | nil => exact resolves
  | cons setting rest ih => exact ih (resolves.set state.1 setting.1 setting.2)

/-- With the json of the GeoJsons, the record is the one `hash2record` fills. -/
theorem hash2record_of_lent {bins : List (RbVal × BinVal Ref)}
    (filled : hash2recordLent rt bins state = .ok state')
    (resolves : Resolves json state.2 record) :
    ∃ record', hash2record rt (bins.map (resolve json)) record = .ok record' ∧
      Resolves json state'.2 record' := by
  rcases hash2recordLent_eq_ok.mp filled with ⟨settings, lays, rfl⟩
  refine ⟨_, hash2record_eq_ok.mpr ⟨settings.map (Option.map fun setting =>
    (setting.1, setting.2.resolve json)), ?_, rfl⟩, ?_⟩
  · rw [List.forall₂_map_left_iff, List.forall₂_map_right_iff]
    exact lays.imp fun _ _ => binSets_of_lays
  · rw [List.reduceOption_map]
    exact resolves.setAll _

/-- It fills the record where `hash2record` does. -/
theorem exists_lent_of_hash2record {bins : List (RbVal × BinVal Ref)} {record' : AsRecord}
    (made : hash2record rt (bins.map (resolve json)) record = .ok record')
    (state : GeoHeap Ref × LentRecord Ref) :
    ∃ state', hash2recordLent rt bins state = .ok state' := by
  rcases hash2record_eq_ok.mp made with ⟨settings, sets, _⟩
  have each : ∀ entry ∈ bins, ∃ setting, Lays rt entry setting := by
    intro entry member
    rcases Aligned.exists_of_mem sets (List.mem_map_of_mem member) with ⟨setting, _, here⟩
    exact exists_lays_of_binSets here
  rcases Aligned.exists_images each with ⟨settings, lays⟩
  exact ⟨_, hash2recordLent_eq_ok.mpr ⟨settings, lays, rfl⟩⟩

end Resolved

section Once

variable {json : Ref → CStr}

/-- The struct that a value in the Hash lends. -/
def BinVal.refs : BinVal Ref → List Ref
  | geoJson ref => [ref]
  | plain _ _ => []

/-- The structs that a Hash lends, entry by entry. -/
def lentRefs (bins : List (RbVal × BinVal Ref)) : List Ref :=
  bins.flatMap fun entry => entry.2.refs

def BinPtr.refs : BinPtr Ref → List Ref
  | own _ => []
  | lent ref => [ref]

/-- The structs to be lent have the json they were made with, and none is to be lent twice. -/
structure Unspent (json : Ref → CStr) (pending : List Ref) (heap : GeoHeap Ref) : Prop where
  value : ∀ ref ∈ pending, (heap ref).value = some (json ref)
  distinct : pending.Nodup

/-- Every struct in the record is in one bin, has its json and is not to be lent again. -/
structure Live (json : Ref → CStr) (pending : List Ref)
    (state : GeoHeap Ref × LentRecord Ref) : Prop where
  unspent : Unspent json pending state.1
  named : (keys state.2.bins).Nodup
  held : ∀ name ref, state.2.bins.lookup name = some (.lent ref) →
    (state.1 ref).value = some (json ref) ∧ ref ∉ pending
  once : ∀ name name' ref, state.2.bins.lookup name = some (.lent ref) →
    state.2.bins.lookup name' = some (.lent ref) → name = name'

theorem Unspent.mono {pending later : List Ref} {heap : GeoHeap Ref}
    (unspent : Unspent json pending heap) (sub : later.Sublist pending) :
    Unspent json later heap where
  value := fun ref member => unspent.value ref (sub.subset member)
  distinct := unspent.distinct.sublist sub

theorem Live.mono {pending later : List Ref} {state : GeoHeap Ref × LentRecord Ref}
    (live : Live json pending state) (sub : later.Sublist pending) : Live json later state where
  unspent := live.unspent.mono sub
  named := live.named
  held := fun name ref found =>
    (live.held name ref found).imp_right fun fresh member => fresh (sub.subset member)
  once := live.once

theorem Unspent.live {pending : List Ref} {heap : GeoHeap Ref}
    (unspent : Unspent json pending heap) (nbins : ℕ) :
    Live json pending (heap, .init nbins) where
  unspent := unspent
  named := List.nodup_nil
  held := by simp [LentRecord.init]
  once := by simp [LentRecord.init]

variable [DecidableEq Ref] {heap : GeoHeap Ref} {rec : LentRecord Ref} {pending : List Ref}
  {state state' : GeoHeap Ref × LentRecord Ref}

/-- The setter lends the struct, and destroys at most one which is not needed again. -/
theorem Live.set (ptr : BinPtr Ref) (live : Live json (ptr.refs ++ pending) (heap, rec))
    (name : CStr) : Live json pending (rec.set heap name ptr) := by
  by_cases accepted : name.bytes.length ≤ asBinNameMaxLen ∧
      (name ∈ keys rec.bins ∨ rec.bins.length < rec.capacity)
  · rcases @set_of_accepts _ _ heap rec name accepted.1 accepted.2 ptr with ⟨made, structs⟩
    rcases hset : rec.set heap name ptr with ⟨heap', rec'⟩
    rw [hset] at made structs
    obtain rfl : rec' = _ := made
    have kept {ref : Ref} (other : rec.bins.lookup name ≠ some (.lent ref)) :
        heap' ref = heap ref := (structs ref).2 other
    have found (other : CStr) : (putLast rec.bins name ptr).lookup other =
        if other = name then some ptr else rec.bins.lookup other := by
      rw [putLast, AssocList.lookup_put]
    have waits {ref : Ref} (member : ref ∈ ptr.refs ++ pending) :
        (heap' ref).value = some (json ref) := by
      rw [kept fun old => (live.held name ref old).2 member]
      exact live.unspent.value ref member
    have lends {ref : Ref} (same : ptr = .lent ref) : ref ∈ ptr.refs ++ pending := by
      rw [same]
      exact List.mem_cons_self
    rcases List.nodup_append.mp live.unspent.distinct with ⟨_, distinct, apart⟩
    refine ⟨⟨fun ref member => waits (List.mem_append_right _ member), distinct⟩,
      AssocList.nodup_keys_put live.named, ?_, ?_⟩
    · intro other ref holds
      rw [found] at holds
      split at holds
      case isTrue =>
        have same := Option.some.inj holds
        refine ⟨waits (lends same), fun member => ?_⟩
        exact apart ref (by rw [same]; exact List.mem_cons_self) ref member rfl
      case isFalse differs =>
        rcases live.held other ref holds with ⟨value, fresh⟩
        have same : heap' ref = heap ref :=
          kept fun old => differs (live.once other name ref holds old)
        exact ⟨(congrArg _ same).trans value, fun member => fresh (List.mem_append_right _ member)⟩
    · intro other other' ref holds holds'
      rw [found] at holds holds'
      split at holds
      case isTrue here =>
        split at holds'
        case isTrue here' => rw [here, here']
        case isFalse =>
          exact absurd (lends (Option.some.inj holds)) (live.held other' ref holds').2
      case isFalse =>
        split at holds'
        case isTrue => exact absurd (lends (Option.some.inj holds')) (live.held other ref holds).2
        case isFalse => exact live.once other other' ref holds holds'
  · rw [LentRecord.set, if_neg accepted]
    exact live.mono (List.sublist_append_right _ _)

theorem Live.entry {entry : RbVal × BinVal Ref}
    (live : Live json (entry.2.refs ++ pending) state)
    (step : foreachHash2recordLent rt state entry = .ok state') : Live json pending state' := by
  rcases foreachHash2recordLent_eq_ok.mp step with ⟨setting, lays, rfl⟩
  cases lays with
  | skip key handle => exact live
  | own named encodes => exact Live.set (.own _) live _
  | lent named => exact Live.set (.lent _) live _

theorem Live.entries (rt : Runtime) (entry : RbVal × BinVal Ref) (rest : List (RbVal × BinVal Ref))
    (state next : GeoHeap Ref × LentRecord Ref)
    (live : Live json (lentRefs (entry :: rest) ++ pending) state)
    (step : foreachHash2recordLent rt state entry = .ok next) :
    Live json (lentRefs rest ++ pending) next := by
  rw [lentRefs, List.flatMap_cons, List.append_assoc] at live
  exact live.entry step

/-- The structs which no bin holds are left alone. -/
theorem asRecordDestroy_of_not_mem {ref : Ref} (absent : ∀ bin ∈ rec.bins, bin.2 ≠ .lent ref) :
    asRecordDestroy heap rec ref = heap ref := by
  rw [asRecordDestroy]
  generalize rec.bins = bins at absent ⊢
  induction bins generalizing heap with
  | nil => rfl
  | cons bin rest ih =>
      rcases List.forall_mem_cons.mp absent with ⟨here, later⟩
      rw [List.foldl_cons, ih later]
      exact (value_destroy heap bin.2 ref).2 here

theorem Live.destroyed (live : Live json pending (heap, rec)) :
    Unspent json pending (asRecordDestroy heap rec) where
  value := by
    intro ref member
    rw [asRecordDestroy_of_not_mem]
    · exact live.unspent.value ref member
    · rintro ⟨name, ptr⟩ present rfl
      exact (live.held name ref (AssocList.lookup_of_mem live.named present)).2 member
  distinct := live.unspent.distinct

variable {call : PutCall Ref} {handed : Handed} {heap' : GeoHeap Ref}

/-- Where no struct is lent twice, the record of the Hash with the jsons is handed over. -/
theorem handOver_unspent (given : handOver rt heap call = .ok (handed, heap', rec))
    (unspent : Unspent json (lentRefs call.bins ++ pending) heap) :
    (∃ record, hash2record rt (call.bins.map (resolve json)) (.init call.bins.length) =
        .ok record ∧ handed.bins = record.bins.map fun bin => (bin.1, some bin.2)) ∧
      Unspent json pending (asRecordDestroy heap' rec) := by
  rcases handOver_eq_ok.mp given with ⟨filled, _, _, bins, _⟩
  have live : Live json (lentRefs [] ++ pending) (heap', rec) :=
    ExceptLoop.foldlM_invariant (P := fun rest => Live json (lentRefs rest ++ pending))
      (Live.entries rt) (unspent.live _) filled
  rcases hash2record_of_lent filled (resolves_init json _) with ⟨record, made, resolves⟩
  refine ⟨⟨record, made, ?_⟩, Live.destroyed live⟩
  rw [bins, resolves.bins, List.map_map]
  refine List.map_congr_left ?_
  rintro ⟨name, ptr⟩ member
  cases ptr with
  | own val => rfl
  | lent ref =>
      have value : (heap' ref).value = some (json ref) :=
        (live.held name ref (AssocList.lookup_of_mem live.named member)).1
      simp [BinPtr.read, BinPtr.resolve, value]

/-- Where `put` raises, too, the structs to be lent later keep their json. -/
theorem unspent_reached {bins : List (RbVal × BinVal Ref)}
    (unspent : Unspent json (lentRefs bins ++ pending) heap) :
    Unspent json pending (ExceptLoop.reached (foreachHash2recordLent rt)
      (heap, .init bins.length) bins).1 := by
  have begins := unspent.live bins.length
  rcases ExceptLoop.reached_invariant (P := fun rest => Live json (lentRefs rest ++ pending))
    (Live.entries rt) begins with ⟨rest, _, live⟩
  exact (live.mono (List.sublist_append_right _ _)).unspent

/-- Whether `put` raises does not depend on the structs. -/
theorem sameFailure_handOver (heap heap' : GeoHeap Ref) (call : PutCall Ref) :
    ExceptLoop.SameFailure (handOver rt heap call) (handOver rt heap' call) := by
  have each (state state' : GeoHeap Ref × LentRecord Ref) (entry : RbVal × BinVal Ref) :
      ExceptLoop.SameFailure (foreachHash2recordLent rt state entry)
        (foreachHash2recordLent rt state' entry) := by
    rcases entry with ⟨key, ref | ⟨val, copied⟩⟩
    · intro failure
      simp [foreachHash2recordLent, ExceptLoop.bind_eq_error]
    · intro failure
      simp only [foreachHash2recordLent]
      cases binSetting rt key val with
      | error other => rfl
      | ok setting => cases setting <;> simp [bind, Except.bind]
  rw [handOver, handOver]
  refine (ExceptLoop.sameFailure_foldlM each).bind fun _ _ _ _ => ?_
  intro failure
  simp [ExceptLoop.bind_eq_error]

end Once

end AerospikeCRuby
