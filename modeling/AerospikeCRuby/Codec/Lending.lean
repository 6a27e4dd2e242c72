import AerospikeCRuby.Codec.Acceptance

/-!
# GeoJson structs in records

A GeoJson is the one value `put` does not copy: the record gets the `as_geojson`
which the Ruby object wraps, without a reference of its own, and gives up a
reference when the bin is overwritten or the record is destroyed.
-/

namespace AerospikeCRuby

open AssocList (keys putLast)

/-- The options `put` reads: the outcome of `get_policy`, and `:ttl`. -/
structure PutOptions where
  policy : Except Abort Unit
  ttl : RbVal

/-- An `as_geojson`; the string is NULL once the last reference is given up.  The extension never
reserves a struct, which thus has one reference until then. -/
structure AsGeojson where
  value : Option CStr
  count : BitVec 32
  sole : value = none ∨ count = 1

def asGeojsonInit (json : CStr) : AsGeojson where
  value := some json
  count := 1
  sole := .inr rfl

/-- `as_geojson_destroy`. -/
def AsGeojson.destroy (geo : AsGeojson) : AsGeojson :=
  if last : geo.count = 1 then ⟨none, 0, .inl rfl⟩
  else { geo with count := geo.count - 1, sole := .inl (geo.sole.resolve_right last) }

@[simp]
theorem AsGeojson.value_destroy (geo : AsGeojson) : geo.destroy.value = none := by
  unfold destroy
  split
  · rfl
  · exact geo.sole.resolve_right ‹_›

variable {Ref : Type}

/-- The structs wrapped by the GeoJson objects. -/
abbrev GeoHeap (Ref : Type) := Ref → AsGeojson

/-- `geo_json_json`; `rb_str_new2` refuses NULL. -/
def geoJsonJson (heap : GeoHeap Ref) (ref : Ref) : Except Abort RbStr :=
  match (heap ref).value with
  | some json => .ok (rbStrNew2 json)
  | none => .error (.argumentError "NULL pointer given")

/-- A value in the Hash of bins. -/
inductive BinVal (Ref : Type) where
  | geoJson (ref : Ref)
  | plain (val : RbVal) (copied : ∀ json, val ≠ .geoJson json)

/-- What a bin points to. -/
inductive BinPtr (Ref : Type) where
  | own (val : AsVal)
  | lent (ref : Ref)

/-- An `as_record` before it is sent. -/
structure LentRecord (Ref : Type) where
  bins : List (CStr × BinPtr Ref)
  capacity : ℕ

def LentRecord.init (nbins : ℕ) : LentRecord Ref where
  bins := []
  capacity := nbins % 2 ^ 16

/-- A value as it goes to the server; a GeoJson may have lost its string. -/
def BinPtr.read (heap : GeoHeap Ref) : BinPtr Ref → Option AsVal
  | own val => some val
  | lent ref => (heap ref).value.map fun json => .geojson json.bytes

/-- What `aerospike_key_put` is given. -/
structure Handed where
  bins : List (CStr × Option AsVal)
  gen : UInt16
  ttl : UInt32

structure PutCall (Ref : Type) where
  bins : List (RbVal × BinVal Ref)
  options : PutOptions

/-- What `put` does with `:ttl`. -/
def putTtl : RbVal → Except Abort UInt32
  | .integer ttl =>
      if IsFixnum ttl then do
        let ttl ← fix2int ttl
        .ok (UInt32.ofNat (ttl % 2 ^ 32).toNat)
      else .ok 0
  | _ => .ok 0

variable {rt : Runtime}

section Put

variable [DecidableEq Ref]

/-- `as_val_destroy` on what a bin holds. -/
def BinPtr.destroy (heap : GeoHeap Ref) : BinPtr Ref → GeoHeap Ref
  | own _ => heap
  | lent ref => Function.update heap ref (heap ref).destroy

/-- The setters `as_record_set_*`; what a bin held before is destroyed. -/
def LentRecord.set (heap : GeoHeap Ref) (rec : LentRecord Ref) (name : CStr) (ptr : BinPtr Ref) :
    GeoHeap Ref × LentRecord Ref :=
  if name.bytes.length ≤ asBinNameMaxLen ∧
      (name ∈ keys rec.bins ∨ rec.bins.length < rec.capacity) then
    ((rec.bins.lookup name).elim heap (BinPtr.destroy heap),
      { rec with bins := putLast rec.bins name ptr })
  else (heap, rec)

/-- `foreach_hash2record`, with the structs of the GeoJson objects. -/
def foreachHash2recordLent (rt : Runtime) (state : GeoHeap Ref × LentRecord Ref)
    (entry : RbVal × BinVal Ref) : Except Abort (GeoHeap Ref × LentRecord Ref) :=
  match entry.2 with
  | .geoJson ref => do
      let name ← key2binName rt entry.1
      .ok (state.2.set state.1 name (.lent ref))
  | .plain val _ => do
      match ← binSetting rt entry.1 val with
      | none => .ok state
      | some (name, value) => .ok (state.2.set state.1 name (.own value))

/-- `hash2record`, with the structs of the GeoJson objects. -/
def hash2recordLent (rt : Runtime) (bins : List (RbVal × BinVal Ref))
    (state : GeoHeap Ref × LentRecord Ref) : Except Abort (GeoHeap Ref × LentRecord Ref) :=
  bins.foldlM (foreachHash2recordLent rt) state

def asRecordDestroy (heap : GeoHeap Ref) (rec : LentRecord Ref) : GeoHeap Ref :=
  rec.bins.foldl (fun heap bin => bin.2.destroy heap) heap

/-- `put`, up to its call of `aerospike_key_put`: what it hands over, beside the structs and the
record. -/
def handOver (rt : Runtime) (heap : GeoHeap Ref) (call : PutCall Ref) :
    Except Abort (Handed × GeoHeap Ref × LentRecord Ref) := do
  let (heap, rec) ← hash2recordLent rt call.bins (heap, .init call.bins.length)
  call.options.policy
  let ttl ← putTtl call.options.ttl
  .ok (⟨rec.bins.map fun bin => (bin.1, bin.2.read heap), 0, ttl⟩, heap, rec)

/-- `put`, where `aerospike_key_put` succeeds: what is handed over, and the structs after it. -/
def clientPut (rt : Runtime) (heap : GeoHeap Ref) (call : PutCall Ref) :
    Except Abort (Handed × GeoHeap Ref) := do
  let (handed, heap, rec) ← handOver rt heap call
  .ok (handed, asRecordDestroy heap rec)

/-- A run of successful calls of `put`. -/
def clientPuts (rt : Runtime) : GeoHeap Ref → List (PutCall Ref) →
    Except Abort (List (Handed × GeoHeap Ref))
  | _, [] => .ok []
  | heap, call :: rest => do
      let done ← clientPut rt heap call
      let later ← clientPuts rt done.2 rest
      .ok (done :: later)

end Put

/-- The name under which an entry is set, if it is not passed over. -/
def entryName (rt : Runtime) (entry : RbVal × BinVal Ref) : Option CStr :=
  match entry.2 with
  | .plain (.data _) _ => none
  | _ => some (binName rt entry.1)

/-- The names of the entries which are short enough for a bin. -/
def shortNames (rt : Runtime) (bins : List (RbVal × BinVal Ref)) : List CStr :=
  (bins.filterMap (entryName rt)).filter fun name => name.bytes.length ≤ asBinNameMaxLen

/-- A GeoJson stands under a short name, and fewer than `capacity` other names come first. -/
def StoresFrom (rt : Runtime) (capacity : ℕ) (names : List CStr)
    (bins : List (RbVal × BinVal Ref)) (ref : Ref) : Prop :=
  ∃ before key after, bins = before ++ (key, .geoJson ref) :: after ∧
    (binName rt key).bytes.length ≤ asBinNameMaxLen ∧
    (AssocList.keysBefore (names ++ shortNames rt before) (binName rt key)).dedup.length < capacity

/-- The call stores the GeoJson in a bin. -/
def Stores (rt : Runtime) (call : PutCall Ref) (ref : Ref) : Prop :=
  StoresFrom rt (call.bins.length % 2 ^ 16) [] call.bins ref

/-- The struct has lost its string, or will when the record is destroyed. -/
def Doomed (ref : Ref) (state : GeoHeap Ref × LentRecord Ref) : Prop :=
  (state.1 ref).value = none ∨ ∃ name, state.2.bins.lookup name = some (.lent ref)

/-- No bin holds a GeoJson. -/
def Owned (rec : LentRecord Ref) : Prop :=
  ∀ bin ∈ rec.bins, ∃ val, bin.2 = .own val

/-- What becomes of the structs while these are stored: they are doomed, and where there are none,
nothing happens to any struct. -/
structure Lends (stored : Ref → Prop) (state state' : GeoHeap Ref × LentRecord Ref) : Prop where
  doomed : ∀ ref, Doomed ref state ∨ stored ref → Doomed ref state'
  kept : (∀ ref, ¬stored ref) → Owned state.2 → state'.1 = state.1 ∧ Owned state'.2

theorem Lends.trans {first second : Ref → Prop}
    {state mid state' : GeoHeap Ref × LentRecord Ref}
    (start : Lends first state mid) (rest : Lends second mid state') :
    Lends (fun ref => first ref ∨ second ref) state state' where
  doomed := by
    rintro ref (before | here | later)
    · exact rest.doomed ref (Or.inl (start.doomed ref (Or.inl before)))
    · exact rest.doomed ref (Or.inl (start.doomed ref (Or.inr here)))
    · exact rest.doomed ref (Or.inr later)
  kept := by
    intro none_ owned
    rcases start.kept (fun ref here => none_ ref (Or.inl here)) owned with ⟨same, owned⟩
    rcases rest.kept (fun ref later => none_ ref (Or.inr later)) owned with ⟨same', owned'⟩
    exact ⟨same'.trans same, owned'⟩

theorem Lends.congr {stored stored' : Ref → Prop}
    {state state' : GeoHeap Ref × LentRecord Ref} (lends : Lends stored state state')
    (same : ∀ ref, stored ref ↔ stored' ref) : Lends stored' state state' := by
  rwa [funext fun ref => propext (same ref)] at lends

theorem shortNames_append (before after : List (RbVal × BinVal Ref)) :
    shortNames rt (before ++ after) = shortNames rt before ++ shortNames rt after := by
  simp [shortNames]

theorem storesFrom_cons {capacity : ℕ} {names : List CStr} {entry : RbVal × BinVal Ref}
    {rest : List (RbVal × BinVal Ref)} {ref : Ref} :
    StoresFrom rt capacity names (entry :: rest) ref ↔
      (entry.2 = .geoJson ref ∧ (binName rt entry.1).bytes.length ≤ asBinNameMaxLen ∧
        (AssocList.keysBefore names (binName rt entry.1)).dedup.length < capacity) ∨
      StoresFrom rt capacity (names ++ shortNames rt [entry]) rest ref := by
  constructor
  · rintro ⟨before, key, after, split, short, early⟩
    rcases before with _ | ⟨first, before⟩
    · rcases List.cons.inj split with ⟨rfl, rfl⟩
      left
      refine ⟨rfl, short, ?_⟩
      simpa [shortNames] using early
    · rcases List.cons.inj split with ⟨rfl, rfl⟩
      right
      refine ⟨before, key, after, rfl, short, ?_⟩
      rwa [List.append_assoc, ← shortNames_append]
  · rintro (⟨isGeo, short, early⟩ | ⟨before, key, after, rfl, short, early⟩)
    · rcases entry with ⟨key, val⟩
      cases isGeo
      refine ⟨[], key, rest, rfl, short, ?_⟩
      simpa [shortNames] using early
    · refine ⟨entry :: before, key, after, rfl, short, ?_⟩
      rwa [List.append_assoc, ← shortNames_append] at early

/-- The setting an entry makes: a name, and the struct lent or a value of the record's own. -/
inductive Lays (rt : Runtime) : RbVal × BinVal Ref → Option (CStr × BinPtr Ref) → Prop
  | skip (key : RbVal) (handle : ℕ) {copied : ∀ json, RbVal.data handle ≠ .geoJson json} :
      Lays rt (key, .plain (.data handle) copied) none
  | own {key val : RbVal} {copied : ∀ json, val ≠ .geoJson json} {value : AsVal} :
      Nameable rt key → encodeBin rt val = .ok value →
        Lays rt (key, .plain val copied) (some (binName rt key, .own value))
  | lent {key : RbVal} {ref : Ref} : Nameable rt key →
      Lays rt (key, .geoJson ref) (some (binName rt key, .lent ref))

theorem shortNames_of_lays {entry : RbVal × BinVal Ref} {setting : Option (CStr × BinPtr Ref)}
    (lays : Lays rt entry setting) :
    shortNames rt [entry] =
      (setting.toList.map Prod.fst).filter fun name => name.bytes.length ≤ asBinNameMaxLen := by
  cases lays with
  | skip key handle => rfl
  | @own key val copied value named encodes =>
      cases val with
      | data handle => exact absurd encodes encodeBin_data
      | _ => simp [shortNames, entryName]
  | lent named => simp [shortNames, entryName]

section Steps

variable [DecidableEq Ref] {heap : GeoHeap Ref} {rec : LentRecord Ref}
  {state state' : GeoHeap Ref × LentRecord Ref} {ref : Ref}

theorem foreachHash2recordLent_eq_ok {entry : RbVal × BinVal Ref} :
    foreachHash2recordLent rt state entry = .ok state' ↔
      ∃ setting, Lays rt entry setting ∧
        setting.elim state (fun setting => state.2.set state.1 setting.1 setting.2) = state' := by
  rcases entry with ⟨key, ref | ⟨val, copied⟩⟩
  · simp only [foreachHash2recordLent, ExceptLoop.bind_eq_ok, key2binName_eq_ok, Except.ok.injEq]
    constructor
    · rintro ⟨_, ⟨named, rfl⟩, rfl⟩
      exact ⟨_, .lent named, rfl⟩
    · rintro ⟨_, ⟨⟩, rfl⟩
      exact ⟨_, ⟨‹_›, rfl⟩, rfl⟩
  · simp only [foreachHash2recordLent, ExceptLoop.bind_eq_ok]
    constructor
    · rintro ⟨setting, made, done⟩
      cases (@binSetting_eq_ok rt (key, val) setting).mp made with
      | skip _ handle =>
          cases done
          exact ⟨none, .skip key handle, rfl⟩
      | set named encodes =>
          cases done
          exact ⟨_, .own named encodes, rfl⟩
    · rintro ⟨_, lays, rfl⟩
      cases lays with
      | skip _ handle => exact ⟨none, rfl, rfl⟩
      | own named encodes => exact ⟨_, binSetting_eq_ok.mpr (.set named encodes), rfl⟩

theorem value_destroy (heap : GeoHeap Ref) (ptr : BinPtr Ref) (ref : Ref) :
    (ptr = .lent ref → (ptr.destroy heap ref).value = none) ∧
      (ptr ≠ .lent ref → ptr.destroy heap ref = heap ref) := by
  cases ptr with
  | own val => exact ⟨nofun, fun _ => rfl⟩
  | lent other =>
      constructor
      · rintro ⟨⟩
        rw [BinPtr.destroy, Function.update_self, AsGeojson.value_destroy]
      · intro differs
        rw [BinPtr.destroy, Function.update_of_ne]
        rintro rfl
        exact differs rfl

theorem value_destroy_of_none (gone : (heap ref).value = none) (ptr : BinPtr Ref) :
    (ptr.destroy heap ref).value = none := by
  by_cases same : ptr = .lent ref
  · exact (value_destroy heap ptr ref).1 same
  · rw [(value_destroy heap ptr ref).2 same, gone]

theorem doomed_set (doomed : Doomed ref (heap, rec)) (name : CStr) (ptr : BinPtr Ref) :
    Doomed ref (rec.set heap name ptr) := by
  rw [LentRecord.set]
  split
  · rcases doomed with gone | ⟨holder, held⟩
    · left
      cases rec.bins.lookup name with
      | none => exact gone
      | some old => exact value_destroy_of_none gone old
    · by_cases same : holder = name
      · subst same
        left
        rw [held]
        exact (value_destroy heap _ ref).1 rfl
      · right
        refine ⟨holder, ?_⟩
        rw [putLast, AssocList.lookup_put, if_neg same]
        exact held
  · exact doomed

theorem doomed_set_lent {name : CStr} (short : name.bytes.length ≤ asBinNameMaxLen)
    (room : name ∈ keys rec.bins ∨ rec.bins.length < rec.capacity) :
    Doomed ref (rec.set heap name (.lent ref)) := by
  rw [LentRecord.set, if_pos ⟨short, room⟩]
  right
  refine ⟨name, ?_⟩
  rw [putLast, AssocList.lookup_put, if_pos rfl]

theorem capacity_set (name : CStr) (ptr : BinPtr Ref) :
    (rec.set heap name ptr).2.capacity = rec.capacity := by
  rw [LentRecord.set]
  split <;> rfl

theorem served_set {names : List CStr}
    (served : AssocList.FirstServed rec.capacity names rec.bins) (name : CStr)
    (ptr : BinPtr Ref) :
    AssocList.FirstServed rec.capacity
      (names ++ [name].filter fun name => name.bytes.length ≤ asBinNameMaxLen)
      (rec.set heap name ptr).2.bins := by
  by_cases short : name.bytes.length ≤ asBinNameMaxLen
  · have grown := served.putWithin name ptr
    rw [AssocList.putWithin] at grown
    rw [LentRecord.set]
    simp only [short, true_and, decide_true, List.filter_cons_of_pos, List.filter_nil]
    split_ifs at grown ⊢ <;> exact grown
  · rw [LentRecord.set, if_neg fun accepted => short accepted.1]
    simpa [short] using served

theorem owned_set (owned : Owned rec) (name : CStr) (val : AsVal) :
    (rec.set heap name (.own val)).1 = heap ∧ Owned (rec.set heap name (.own val)).2 := by
  rw [LentRecord.set]
  split
  · constructor
    · cases found : rec.bins.lookup name with
      | none => rfl
      | some old =>
          rcases owned _ (AssocList.mem_of_lookup found) with ⟨value, same⟩
          cases same
          rfl
    · intro bin member
      rcases AssocList.mem_of_mem_put member with rfl | old
      · exact ⟨val, rfl⟩
      · exact owned bin old
  · exact ⟨rfl, owned⟩

theorem hash2recordLent_cons_eq_ok {entry : RbVal × BinVal Ref}
    {rest : List (RbVal × BinVal Ref)} :
    hash2recordLent rt (entry :: rest) state = .ok state' ↔
      ∃ mid, foreachHash2recordLent rt state entry = .ok mid ∧
        hash2recordLent rt rest mid = .ok state' := by
  rw [hash2recordLent, List.foldlM_cons]
  exact ExceptLoop.bind_eq_ok

theorem lends_set (name : CStr) (ptr : BinPtr Ref) :
    Lends (fun ref => ptr = .lent ref ∧ name.bytes.length ≤ asBinNameMaxLen ∧
        (name ∈ keys rec.bins ∨ rec.bins.length < rec.capacity))
      (heap, rec) (rec.set heap name ptr) where
  doomed := by
    rintro ref (before | ⟨rfl, short, room⟩)
    · exact doomed_set before name ptr
    · exact doomed_set_lent short room
  kept := by
    intro none_ owned
    cases ptr with
    | own val => exact owned_set owned name val
    | lent ref =>
        have refused := not_and.mp (none_ ref) rfl
        rw [LentRecord.set, if_neg refused]
        exact ⟨rfl, owned⟩

/-- One entry stores its GeoJson where it is the first under a short name that finds room. -/
theorem foreachHash2recordLent_spec {entry : RbVal × BinVal Ref} {names : List CStr}
    (step : foreachHash2recordLent rt state entry = .ok state')
    (served : AssocList.FirstServed state.2.capacity names state.2.bins) :
    state'.2.capacity = state.2.capacity ∧
      AssocList.FirstServed state.2.capacity (names ++ shortNames rt [entry]) state'.2.bins ∧
      Lends
        (fun ref => entry.2 = .geoJson ref ∧
          (binName rt entry.1).bytes.length ≤ asBinNameMaxLen ∧
          (AssocList.keysBefore names (binName rt entry.1)).dedup.length < state.2.capacity)
        state state' := by
  rcases foreachHash2recordLent_eq_ok.mp step with ⟨setting, lays, rfl⟩
  rw [shortNames_of_lays lays]
  cases lays with
  | skip key handle =>
      refine ⟨rfl, by simpa using served, ?_, fun _ owned => ⟨rfl, owned⟩⟩
      rintro ref (doomed | ⟨⟨⟩, _⟩)
      exact doomed
  | own named encodes =>
      refine ⟨capacity_set _ _, served_set served _ _, (lends_set _ _).congr fun ref => ?_⟩
      simp
  | lent named =>
      refine ⟨capacity_set _ _, served_set served _ _, (lends_set _ _).congr fun ref => ?_⟩
      rw [served.accepts, BinPtr.lent.injEq, BinVal.geoJson.injEq]

/-- Filling the record stores the first GeoJsons under short names that find room. -/
theorem hash2recordLent_spec {bins : List (RbVal × BinVal Ref)} {names : List CStr}
    (filled : hash2recordLent rt bins state = .ok state')
    (served : AssocList.FirstServed state.2.capacity names state.2.bins) :
    Lends (StoresFrom rt state.2.capacity names bins) state state' := by
  induction bins generalizing state names with
  | nil =>
      cases filled
      refine ⟨?_, fun _ owned => ⟨rfl, owned⟩⟩
      rintro ref (doomed | ⟨before, key, after, split, _⟩)
      · exact doomed
      · simp at split
  | cons entry rest ih =>
      rcases hash2recordLent_cons_eq_ok.mp filled with ⟨mid, step, filled⟩
      rcases foreachHash2recordLent_spec step served with ⟨capacity, served', start⟩
      rw [← capacity] at served'
      have tail := ih filled served'
      rw [capacity] at tail
      exact (start.trans tail).congr fun ref => storesFrom_cons.symm

theorem value_asRecordDestroy (doomed : Doomed ref (heap, rec)) :
    (asRecordDestroy heap rec ref).value = none := by
  have held : (heap ref).value = none ∨ ∃ name, (name, .lent ref) ∈ rec.bins := by
    rcases doomed with gone | ⟨name, held⟩
    · exact Or.inl gone
    · exact Or.inr ⟨name, AssocList.mem_of_lookup held⟩
  clear doomed
  rw [asRecordDestroy]
  generalize rec.bins = bins at held ⊢
  induction bins generalizing heap with
  | nil => simpa using held
  | cons bin rest ih =>
      apply ih
      rcases held with gone | ⟨name, member⟩
      · exact Or.inl (value_destroy_of_none gone bin.2)
      · rcases List.mem_cons.mp member with rfl | later
        · exact Or.inl ((value_destroy heap _ ref).1 rfl)
        · exact Or.inr ⟨name, later⟩

theorem asRecordDestroy_of_owned (owned : Owned rec) : asRecordDestroy heap rec = heap := by
  rw [Owned] at owned
  rw [asRecordDestroy]
  generalize rec.bins = bins at owned ⊢
  induction bins with
  | nil => rfl
  | cons bin rest ih =>
      rcases owned bin List.mem_cons_self with ⟨val, own⟩
      rw [List.foldl_cons, own]
      exact ih fun other member => owned other (List.mem_cons_of_mem _ member)

theorem handOver_eq_ok {call : PutCall Ref} {handed : Handed} {heap' : GeoHeap Ref} :
    handOver rt heap call = .ok (handed, heap', rec) ↔
      hash2recordLent rt call.bins (heap, .init call.bins.length) = .ok (heap', rec) ∧
        call.options.policy = .ok () ∧ putTtl call.options.ttl = .ok handed.ttl ∧
        handed.bins = rec.bins.map (fun bin => (bin.1, bin.2.read heap')) ∧ handed.gen = 0 := by
  simp only [handOver, ExceptLoop.bind_eq_ok, Except.ok.injEq, Prod.mk.injEq]
  constructor
  · rintro ⟨⟨_, _⟩, filled, _, policy, ttl, converted, rfl, rfl, rfl⟩
    exact ⟨filled, policy, converted, rfl, rfl⟩
  · rintro ⟨filled, policy, converted, bins, gen⟩
    rcases handed with ⟨_, _, ttl⟩
    cases bins
    cases gen
    exact ⟨_, filled, (), policy, ttl, converted, rfl, rfl, rfl⟩

/-- A call takes the strings of the structs it stores, and leaves the others alone. -/
theorem clientPut_spec {call : PutCall Ref} {done : Handed × GeoHeap Ref}
    (put : clientPut rt heap call = .ok done) :
    (∀ ref, Stores rt call ref → (done.2 ref).value = none) ∧
      ((∀ ref, ¬Stores rt call ref) → done.2 = heap) := by
  rcases ExceptLoop.bind_eq_ok.mp put with ⟨⟨handed, filled, rec⟩, made, same⟩
  cases same
  rcases hash2recordLent_spec (handOver_eq_ok.mp made).1 AssocList.firstServed_nil with
    ⟨doomed, kept⟩
  constructor
  · intro ref stores
    exact value_asRecordDestroy (doomed ref (Or.inr stores))
  · intro none_
    rcases kept none_ (by simp [Owned, LentRecord.init]) with ⟨unchanged, owned⟩
    exact (asRecordDestroy_of_owned owned).trans unchanged

end Steps

section Runs

variable [DecidableEq Ref] {heap : GeoHeap Ref} {calls : List (PutCall Ref)}
  {trace : List (Handed × GeoHeap Ref)}

/-- The Hashes can be put again: one Hash gives one record, and after every call the GeoJson
objects of all Hashes have the json they had at first. -/
structure LeavesUsable (heap : GeoHeap Ref) (calls : List (PutCall Ref))
    (trace : List (Handed × GeoHeap Ref)) : Prop where
  sameRecord : ∀ step ∈ calls.zip trace, ∀ other ∈ calls.zip trace,
    step.1.bins = other.1.bins →
      step.2.1.bins = other.2.1.bins ∧ step.2.1.gen = other.2.1.gen ∧
        (step.1.options = other.1.options → step.2.1.ttl = other.2.1.ttl)
  sameJson : ∀ done ∈ trace, ∀ call ∈ calls, ∀ key ref, (key, .geoJson ref) ∈ call.bins →
    geoJsonJson done.2 ref = geoJsonJson heap ref

theorem clientPuts_stores (puts : clientPuts rt heap calls = .ok trace) :
    List.Forall₂ (fun call done => ∀ ref, Stores rt call ref → (done.2 ref).value = none)
      calls trace := by
  induction calls generalizing heap trace with
  | nil =>
      cases puts
      exact .nil
  | cons call rest ih =>
      rcases ExceptLoop.bind_eq_ok.mp puts with ⟨done, put, continued⟩
      rcases ExceptLoop.bind_eq_ok.mp continued with ⟨later, others, same⟩
      cases same
      exact .cons (clientPut_spec put).1 (ih others)

theorem clientPuts_unchanged (puts : clientPuts rt heap calls = .ok trace)
    (none_ : ∀ call ∈ calls, ∀ ref, ¬Stores rt call ref) :
    List.Forall₂ (fun call done => clientPut rt heap call = .ok done ∧ done.2 = heap)
      calls trace := by
  induction calls generalizing trace with
  | nil =>
      cases puts
      exact .nil
  | cons call rest ih =>
      rcases ExceptLoop.bind_eq_ok.mp puts with ⟨done, put, continued⟩
      rcases ExceptLoop.bind_eq_ok.mp continued with ⟨later, others, same⟩
      cases same
      have unchanged := (clientPut_spec put).2 (none_ call List.mem_cons_self)
      rw [unchanged] at others
      refine .cons ⟨put, unchanged⟩ (ih others ?_)
      intro other member
      exact none_ other (List.mem_cons_of_mem _ member)

theorem clientPut_alike {call other : PutCall Ref} {done done' : Handed × GeoHeap Ref}
    (put : clientPut rt heap call = .ok done) (put' : clientPut rt heap other = .ok done')
    (same : call.bins = other.bins) :
    done.1.bins = done'.1.bins ∧ done.1.gen = done'.1.gen ∧
      (call.options = other.options → done.1.ttl = done'.1.ttl) := by
  rcases ExceptLoop.bind_eq_ok.mp put with ⟨⟨handed, heap', rec⟩, made, destroyed⟩
  cases destroyed
  rcases ExceptLoop.bind_eq_ok.mp put' with ⟨⟨handed', heap'', rec'⟩, made', destroyed⟩
  cases destroyed
  rcases handOver_eq_ok.mp made with ⟨filled, _, converted, bins, gen⟩
  rcases handOver_eq_ok.mp made' with ⟨filled', _, converted', bins', gen'⟩
  rw [same, filled'] at filled
  cases filled
  refine ⟨bins.trans bins'.symm, gen.trans gen'.symm, ?_⟩
  intro options
  rw [options, converted', Except.ok.injEq] at converted
  exact converted.symm

/-- The Hashes of a run of calls can be put again exactly when no call stores a GeoJson. -/
theorem puts_leave_usable_iff (rt : Runtime) (fresh : ∀ ref, ∃ json, heap ref = asGeojsonInit json)
    (puts : clientPuts rt heap calls = .ok trace) :
    LeavesUsable heap calls trace ↔ ∀ call ∈ calls, ∀ ref, ¬Stores rt call ref := by
  constructor
  · intro usable call member ref stores
    rcases Aligned.exists_of_mem (clientPuts_stores puts) member with ⟨done, made, gone⟩
    rcases stores with ⟨before, key, after, split, _⟩
    have same := usable.sameJson done made call member key ref (by simp [split])
    have lost : geoJsonJson done.2 ref = .error (.argumentError "NULL pointer given") := by
      rw [geoJsonJson, gone ref ⟨before, key, after, split, ‹_›⟩]
    rcases fresh ref with ⟨json, init⟩
    rw [lost, geoJsonJson, init] at same
    cases same
  · intro none_
    have aligned := clientPuts_unchanged puts none_
    have each : ∀ step ∈ calls.zip trace, clientPut rt heap step.1 = .ok step.2 := by
      intro step member
      exact (List.forall₂_iff_zip.mp aligned).2 member |>.1
    constructor
    · intro step member other member' same
      exact clientPut_alike (each step member) (each other member') same
    · intro done made call _ key ref _
      rcases Aligned.exists_of_mem aligned.flip made with ⟨_, _, _, unchanged⟩
      rw [unchanged]

/-- A GeoJson under a name of fifteen letters is not stored. -/
theorem puts_leave_usable_long_name :
    ∃ trace, LeavesUsable (fun _ : Unit => asGeojsonInit (cstr (ascii "\x7b\x7d")))
      [⟨[(.string (rbStrNew2 (cstr (ascii "n"))), .plain (.integer 7) (by simp)),
        (.string (rbStrNew2 (cstr (ascii "fifteen_letters"))), .geoJson ())], ⟨.ok (), .nil⟩⟩]
      trace := by
  refine ⟨_, (puts_leave_usable_iff .sample (fun _ => ⟨_, rfl⟩) rfl).mpr ?_⟩
  rintro call member ref ⟨before, key, after, split, short, _⟩
  obtain rfl := List.mem_singleton.mp member
  rcases before with _ | ⟨first, _ | ⟨second, rest⟩⟩
  · simp at split
  · simp only [List.cons_append, List.nil_append, List.cons.injEq, Prod.mk.injEq] at split
    rw [← split.2.1.1] at short
    exact absurd short (by decide)
  · simp at split

/-- A point put twice: the first call takes its json, and the second hands over none. -/
theorem not_leavesUsable :
    ∃ trace, clientPuts .sample (fun _ : Unit => asGeojsonInit (cstr (ascii "\x7b\x7d")))
        [⟨[(.string (rbStrNew2 (cstr (ascii "a"))), .geoJson ())], ⟨.ok (), .nil⟩⟩,
          ⟨[(.string (rbStrNew2 (cstr (ascii "a"))), .geoJson ())], ⟨.ok (), .nil⟩⟩] = .ok trace ∧
      trace.map (fun done => (done.1.bins, geoJsonJson done.2 ())) =
        [([(cstr (ascii "a"), some (.geojson (ascii "\x7b\x7d")))],
            .error (.argumentError "NULL pointer given")),
          ([(cstr (ascii "a"), none)], .error (.argumentError "NULL pointer given"))] ∧
      ¬LeavesUsable (fun _ => asGeojsonInit (cstr (ascii "\x7b\x7d")))
        [⟨[(.string (rbStrNew2 (cstr (ascii "a"))), .geoJson ())], ⟨.ok (), .nil⟩⟩,
          ⟨[(.string (rbStrNew2 (cstr (ascii "a"))), .geoJson ())], ⟨.ok (), .nil⟩⟩] trace := by
  refine ⟨_, rfl, rfl, ?_⟩
  intro usable
  have same := usable.sameJson _ List.mem_cons_self _ List.mem_cons_self _ () List.mem_cons_self
  cases same

end Runs

end AerospikeCRuby
