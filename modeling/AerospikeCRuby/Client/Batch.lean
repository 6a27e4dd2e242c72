import AerospikeCRuby.Client.Key
import AerospikeCRuby.Codec.Readable

/-!
# Batches of keys

`Client#batch_exists` and `Client#batch_read` enter every key of the list into a
Hash and hand the batch to the C client, which reports the results to a callback
in portions.  The callback makes a Key object of each result and relies on the
digest to find the entry of the object in the list.

The digest leaves the namespace out, so two keys which differ in it share an
entry.  `batch_read` looks a class up by a path, which raises, where a result is
an error.
-/

namespace AerospikeCRuby

open AssocList (putBy identified keys)

abbrev aerospikeOk : ℤ := 0

abbrev aerospikeErrRecordNotFound : ℤ := 2

/-- An `as_batch_read`: the result for one key, with a record where it was found. -/
structure BatchRead where
  key : AsKey
  result : ℤ
  record : AsRecord

/-- A value in the Hash of `batch_read`. -/
inductive BatchValue where
  | false_
  | nil
  | hash (entries : StrHash)
  /-- An `AerospikeC::ErrorCodes`. -/
  | errorCodes (code : ℤ)

/-- `rb_const_get` of a class or a module: a name is looked up in the receiver and is not
followed as a path. -/
def rbConstGet (name : String) : Except Abort Unit :=
  if ':' ∈ name.toList then .error (.nameError ("uninitialized constant " ++ name)) else .ok ()

variable {Digest : Type*} (asKeyDigest : CStr → KeyValue → Digest)

/-- `key_digest`.  The C client computes the digest from the set and the user key. -/
def keyDigest (key : Key) : Digest :=
  asKeyDigest key.asKey.set key.asKey.value

/-- A Hash with Key objects as keys. -/
abbrev KeyHash (V : Type*) := List (Key × V)

/-- The Hash has one entry for each namespace, set and user key of the list. -/
def OneEach {V : Type} (keys : List Key) (entries : KeyHash V) : Prop :=
  (entries.map fun entry => entry.1.asKey).Nodup ∧
    ∀ asKey, asKey ∈ entries.map (fun entry => entry.1.asKey) ↔ asKey ∈ keys.map Key.asKey

/-- No two keys differ in the namespace alone. -/
def Separate (keys : List Key) : Prop :=
  ∀ key ∈ keys, ∀ other ∈ keys, key.asKey.set = other.asKey.set →
    key.asKey.value = other.asKey.value → key.asKey.ns = other.asKey.ns

instance (keys : List Key) : Decidable (Separate keys) :=
  inferInstanceAs (Decidable (∀ key ∈ keys, ∀ other ∈ keys,
    key.asKey.set = other.asKey.set → key.asKey.value = other.asKey.value →
      key.asKey.ns = other.asKey.ns))

/-- What a run of updates leaves: its entries have the objects of the list as keys, one for each
digest, and hold the preset value or that of an update under their digest. -/
structure Filled {V : Type} (keys : List Key) (preset : V) (updates entries : KeyHash V) :
    Prop where
  distinct : (entries.map fun entry => keyDigest asKeyDigest entry.1).Nodup
  listed : ∀ entry ∈ entries, entry.1 ∈ keys
  complete : ∀ key ∈ keys, ∃ entry ∈ entries,
    keyDigest asKeyDigest entry.1 = keyDigest asKeyDigest key
  updated : ∀ entry ∈ entries, ∀ update ∈ updates,
    keyDigest asKeyDigest update.1 = keyDigest asKeyDigest entry.1 →
      ∃ last ∈ updates, keyDigest asKeyDigest last.1 = keyDigest asKeyDigest entry.1 ∧
        last.2 = entry.2
  preset : ∀ entry ∈ entries, (∀ update ∈ updates,
    keyDigest asKeyDigest update.1 ≠ keyDigest asKeyDigest entry.1) → entry.2 = preset

theorem Separate.asKey_eq {asKeyDigest : CStr → KeyValue → Digest} {list : List Key}
    (separate : Separate list) (injective : Function.Injective2 asKeyDigest) {key other : Key}
    (member : key ∈ list) (member' : other ∈ list)
    (equal : keyDigest asKeyDigest key = keyDigest asKeyDigest other) :
    key.asKey = other.asKey := by
  rcases injective equal with ⟨sameSet, sameValue⟩
  have sameNs := separate key member other member' sameSet sameValue
  rcases key with ⟨⟨ns, set, value⟩, user⟩
  rcases other with ⟨⟨ns', set', value'⟩, user'⟩
  simp only at sameSet sameValue sameNs
  rw [sameSet, sameValue, sameNs]

/-- Where no two keys share a digest without being one, the entries are those of the keys. -/
theorem Filled.oneEach_iff {asKeyDigest : CStr → KeyValue → Digest}
    (injective : Function.Injective2 asKeyDigest) {V : Type} {list : List Key} {preset : V}
    {updates entries : KeyHash V} (filled : Filled asKeyDigest list preset updates entries) :
    OneEach list entries ↔ Separate list := by
  constructor
  · rintro ⟨_, same⟩ key member other member' sameSet sameValue
    have here := (same key.asKey).mpr (List.mem_map_of_mem member)
    have there := (same other.asKey).mpr (List.mem_map_of_mem member')
    rcases List.mem_map.mp here with ⟨entry, inEntries, isKey⟩
    rcases List.mem_map.mp there with ⟨entry', inEntries', isOther⟩
    have equal : keyDigest asKeyDigest entry.1 = keyDigest asKeyDigest entry'.1 := by
      simp only [keyDigest, isKey, isOther, sameSet, sameValue]
    have one := List.inj_on_of_nodup_map filled.distinct inEntries inEntries' equal
    rw [← isKey, ← isOther, one]
  · intro separate
    constructor
    · apply List.Nodup.of_map (fun asKey => asKeyDigest asKey.set asKey.value)
      rw [List.map_map]
      exact filled.distinct
    · intro asKey
      constructor
      · intro held
        rcases List.mem_map.mp held with ⟨entry, inEntries, rfl⟩
        exact List.mem_map_of_mem (filled.listed entry inEntries)
      · intro asked
        rcases List.mem_map.mp asked with ⟨key, member, rfl⟩
        rcases filled.complete key member with ⟨entry, inEntries, equal⟩
        rw [← separate.asKey_eq injective (filled.listed entry inEntries) member equal]
        exact List.mem_map_of_mem (f := fun entry : Key × V => entry.1.asKey) inEntries

variable [DecidableEq Digest]

/-- `rb_hash_aset` under a Key object, which `key_hash` and `key_eql` compare by its digest. -/
def keyHashAset {V : Type*} (hash : KeyHash V) (key : Key) (value : V) : KeyHash V :=
  putBy (keyDigest asKeyDigest) hash key value

/-- The loop of `batch_exists` and `batch_read` over the list of keys: the Hash gets the preset
value under each key, and the batch its `as_key`. -/
def prepareBatch (rt : Runtime) {V : Type} (preset : V) (returnData : KeyHash V) :
    List Key → Except Abort (KeyHash V × List AsKey)
  | [] => .ok (returnData, [])
  | element :: rest => do
      let asKey ← batchKey rt element
      let (returnData, batch) ←
        prepareBatch rt preset (keyHashAset asKeyDigest returnData element preset) rest
      .ok (returnData, asKey :: batch)

def batchExistsCallback (rt : Runtime) (returnData : KeyHash Bool) :
    List BatchRead → Except Abort (KeyHash Bool)
  | [] => .ok returnData
  | result :: rest =>
      if result.result ≠ aerospikeOk then batchExistsCallback rt returnData rest
      else do
        let key ← callbackKey rt result.key
        batchExistsCallback rt (keyHashAset asKeyDigest returnData key true) rest

/-- The value `batch_read_callback` stores for a result. -/
def batchReadValue (rt : Runtime) (result : BatchRead) : Except Abort BatchValue :=
  if result.result = aerospikeOk then do
    let hash ← record2hash rt result.record
    .ok (.hash hash)
  else if result.result = aerospikeErrRecordNotFound then
    .ok .nil
  else do
    rbConstGet "AerospikeC::ErrorCodes"
    .ok (.errorCodes result.result)

def batchReadCallback (rt : Runtime) (returnData : KeyHash BatchValue) :
    List BatchRead → Except Abort (KeyHash BatchValue)
  | [] => .ok returnData
  | result :: rest => do
      let key ← callbackKey rt result.key
      let value ← batchReadValue rt result
      batchReadCallback rt (keyHashAset asKeyDigest returnData key value) rest

/-- The C client calls the callback for one portion of the results after the other. -/
def reportAll {σ : Type} (callback : σ → List BatchRead → Except Abort σ) (returnData : σ) :
    List (List BatchRead) → Except Abort σ
  | [] => .ok returnData
  | results :: rest => do
      let returnData ← callback returnData results
      reportAll callback returnData rest

/-- `batch_exists`.  `client` is the C client, which turns a batch into reports. -/
def batchExists (rt : Runtime) (client : List AsKey → List (List BatchRead)) (keys : List Key) :
    Except Abort (KeyHash Bool) := do
  let (returnData, batch) ← prepareBatch asKeyDigest rt false [] keys
  reportAll (batchExistsCallback asKeyDigest rt) returnData (client batch)

def batchRead (rt : Runtime) (client : List AsKey → List (List BatchRead)) (keys : List Key) :
    Except Abort (KeyHash BatchValue) := do
  let (returnData, batch) ← prepareBatch asKeyDigest rt .false_ [] keys
  reportAll (batchReadCallback asKeyDigest rt) returnData (client batch)

/-- The result of each key, by its namespace, its set and its user key. -/
structure Reply where
  result : ℤ
  record : AsRecord

/-- The C client reports one result for each key of the batch, in any order and split. -/
def Reports (server : AsKey → Reply) (client : List AsKey → List (List BatchRead)) : Prop :=
  ∀ batch, (client batch).flatten.Perm
    (batch.map fun asKey => ⟨asKey, (server asKey).result, (server asKey).record⟩)

/-- `batch_exists` says of each key whether its record was found. -/
def ExistsBelongs (rt : Runtime) (client : List AsKey → List (List BatchRead))
    (server : AsKey → Reply) (keys : List Key) : Prop :=
  ∃ entries, batchExists asKeyDigest rt client keys = .ok entries ∧ OneEach keys entries ∧
    ∀ entry ∈ entries,
      entry.2 = true ↔ (server entry.1.asKey).result = aerospikeOk

/-- What `batch_read` has to hold for a result. -/
def ReadAs (rt : Runtime) (reply : Reply) (value : BatchValue) : Prop :=
  if reply.result = aerospikeOk then
    ∃ hash, record2hash rt reply.record = .ok hash ∧ value = .hash hash
  else if reply.result = aerospikeErrRecordNotFound then value = .nil
  else value = .errorCodes reply.result

/-- `batch_read` holds for each key what its result says. -/
def ReadBelongs (rt : Runtime) (client : List AsKey → List (List BatchRead))
    (server : AsKey → Reply) (keys : List Key) : Prop :=
  ∃ entries, batchRead asKeyDigest rt client keys = .ok entries ∧ OneEach keys entries ∧
    ∀ entry ∈ entries, ReadAs rt (server entry.1.asKey) entry.2

/-- The record was found and can be read, or it was not found. -/
def Answered (rt : Runtime) (reply : Reply) : Prop :=
  (reply.result = aerospikeOk ∧ ∀ bin ∈ reply.record.bins, Readable rt bin.2) ∨
    reply.result = aerospikeErrRecordNotFound

def callbackObject (rt : Runtime) (asKey : AsKey) : Key :=
  ⟨asKey, keyValue2rbVal rt asKey.value⟩

section Runs

variable {asKeyDigest} {rt : Runtime} {V : Type} {list : List Key}

theorem prepareBatch_eq (preset : V) (returnData : KeyHash V)
    (made : ∀ key ∈ list, batchKey rt key = .ok key.asKey) :
    prepareBatch asKeyDigest rt preset returnData list =
      .ok ((list.map fun key => (key, preset)).foldl
        (fun hash update => keyHashAset asKeyDigest hash update.1 update.2) returnData,
        list.map Key.asKey) := by
  induction list generalizing returnData with
  | nil => rfl
  | cons element rest ih =>
      simp only [prepareBatch, made element (by simp),
        ih _ fun key member => made key (by simp [member])]
      rfl

theorem reportAll_eq {σ β : Type} {callback : σ → List BatchRead → Except Abort σ}
    {convert : BatchRead → Except Abort β} {step : σ → β → σ}
    (loop : ∀ state results,
      callback state results = ExceptLoop.accumulate convert step state results)
    (state : σ) (reports : List (List BatchRead)) :
    reportAll callback state reports =
      ExceptLoop.accumulate convert step state reports.flatten := by
  induction reports generalizing state with
  | nil => rfl
  | cons results rest ih =>
      simp only [reportAll, List.flatten_cons, ExceptLoop.accumulate_append, loop, ih]

theorem filled (preset : V) {updates : KeyHash V}
    (known : ∀ update ∈ updates, ∃ key ∈ list, update.1.asKey = key.asKey) :
    Filled asKeyDigest list preset updates
      (updates.foldl (fun hash update => keyHashAset asKeyDigest hash update.1 update.2)
        ((list.map fun key => (key, preset)).foldl
          (fun hash update => keyHashAset asKeyDigest hash update.1 update.2) [])) := by
  simp only [keyHashAset]
  generalize atStart : (list.map fun key => (key, preset)).foldl
    (fun hash update => putBy (keyDigest asKeyDigest) hash update.1 update.2) [] = start
  have startNodup : ((keys start).map (keyDigest asKeyDigest)).Nodup := by
    rw [← atStart]
    exact AssocList.nodup_foldl_putBy _ List.nodup_nil
  have startComplete : ∀ key ∈ list,
      keyDigest asKeyDigest key ∈ (keys start).map (keyDigest asKeyDigest) := by
    intro key member
    rw [← atStart, AssocList.ident_mem_foldl_putBy]
    right
    exact List.mem_map_of_mem (List.mem_map.mpr ⟨(key, preset), List.mem_map_of_mem member, rfl⟩)
  have sameKeys : keys (updates.foldl
      (fun hash update => putBy (keyDigest asKeyDigest) hash update.1 update.2) start) =
        keys start := by
    apply AssocList.keys_foldl_putBy_of_mem
    intro update member
    rcases known update member with ⟨key, inList, same⟩
    simpa only [keyDigest, same] using startComplete key inList
  constructor
  case distinct =>
    have distinct := AssocList.nodup_foldl_putBy updates startNodup
    rw [keys, List.map_map] at distinct
    exact distinct
  case listed =>
    intro entry member
    have inStart : entry.1 ∈ keys start := by
      rw [← sameKeys]
      exact List.mem_map_of_mem member
    rw [← atStart] at inStart
    rcases AssocList.mem_keys_of_mem_foldl_putBy inStart with none | inList
    · cases none
    · simpa [keys] using inList
  case complete =>
    intro key member
    have present := startComplete key member
    rw [← sameKeys, keys, List.map_map] at present
    rcases List.mem_map.mp present with ⟨entry, inEntries, equal⟩
    exact ⟨entry, inEntries, equal⟩
  case updated =>
    intro entry member update inUpdates equal
    apply AssocList.exists_update_of_mem_foldl_putBy startNodup member
    rw [← equal]
    exact List.mem_map_of_mem (List.mem_map_of_mem inUpdates)
  case preset =>
    intro entry member untouched
    rcases AssocList.exists_of_mem_foldl_putBy member with ⟨old, inStart, _, kept⟩ |
      ⟨update, inUpdates, equal, _⟩
    · rw [← atStart] at inStart
      rcases AssocList.exists_of_mem_foldl_putBy inStart with ⟨_, none, _⟩ |
        ⟨update, inList, _, same⟩
      · cases none
      · rcases List.mem_map.mp inList with ⟨key, _, rfl⟩
        exact kept.symm.trans same.symm
    · exact absurd equal (untouched update inUpdates)

/-- A callback of `batch_exists` updates the Hash under the keys that were found. -/
def existsUpdates (rt : Runtime) (results : List BatchRead) : KeyHash Bool :=
  (results.filter fun result => result.result = aerospikeOk).map fun result =>
    (callbackObject rt result.key, true)

theorem existsUpdates_append (results results' : List BatchRead) :
    existsUpdates rt (results ++ results') =
      existsUpdates rt results ++ existsUpdates rt results' := by
  simp [existsUpdates]

theorem batchExistsCallback_eq {results : List BatchRead} (returnData : KeyHash Bool)
    (made : ∀ result ∈ results,
      callbackKey rt result.key = .ok (callbackObject rt result.key)) :
    batchExistsCallback asKeyDigest rt returnData results =
      .ok ((existsUpdates rt results).foldl
        (fun hash update => keyHashAset asKeyDigest hash update.1 update.2) returnData) := by
  induction results generalizing returnData with
  | nil => rfl
  | cons result rest ih =>
      have later := fun state => ih state fun other member => made other (by simp [member])
      by_cases found : result.result = aerospikeOk
      · simp only [batchExistsCallback, ne_eq, found, not_true_eq_false, if_false,
          made result (by simp), existsUpdates, List.filter_cons, decide_true, if_true]
        exact later _
      · simp only [batchExistsCallback, ne_eq, found, not_false_eq_true, if_true, existsUpdates,
          List.filter_cons, decide_false, Bool.false_eq_true, if_false]
        exact later _

theorem reportAll_batchExistsCallback {reports : List (List BatchRead)}
    (returnData : KeyHash Bool)
    (made : ∀ result ∈ reports.flatten,
      callbackKey rt result.key = .ok (callbackObject rt result.key)) :
    reportAll (batchExistsCallback asKeyDigest rt) returnData reports =
      .ok ((existsUpdates rt reports.flatten).foldl
        (fun hash update => keyHashAset asKeyDigest hash update.1 update.2) returnData) := by
  induction reports generalizing returnData with
  | nil => rfl
  | cons results rest ih =>
      rw [reportAll, batchExistsCallback_eq _ fun result member => made result (by simp [member])]
      rw [List.flatten_cons, existsUpdates_append, List.foldl_append]
      exact ih _ fun result member => made result (by
        rw [List.flatten_cons, List.mem_append]
        exact Or.inr member)

/-- The update a callback of `batch_read` makes for one result. -/
def readUpdate (rt : Runtime) (result : BatchRead) : Except Abort (Key × BatchValue) := do
  let key ← callbackKey rt result.key
  let value ← batchReadValue rt result
  .ok (key, value)

theorem batchReadCallback_eq (returnData : KeyHash BatchValue) (results : List BatchRead) :
    batchReadCallback asKeyDigest rt returnData results =
      ExceptLoop.accumulate (readUpdate rt)
        (fun hash update => keyHashAset asKeyDigest hash update.1 update.2) returnData results := by
  induction results generalizing returnData with
  | nil => rfl
  | cons result rest ih =>
      simp only [batchReadCallback, ExceptLoop.accumulate, readUpdate, bind_assoc, ih]
      rfl

theorem readUpdate_eq_ok {result : BatchRead} {update : Key × BatchValue}
    (made : callbackKey rt result.key = .ok (callbackObject rt result.key)) :
    readUpdate rt result = .ok update ↔
      update.1 = callbackObject rt result.key ∧ batchReadValue rt result = .ok update.2 := by
  rcases update with ⟨key, value⟩
  simp only [readUpdate, made, ExceptLoop.bind_eq_ok, Except.ok.injEq, Prod.mk.injEq]
  constructor
  · rintro ⟨_, rfl, _, converted, rfl, rfl⟩
    exact ⟨rfl, converted⟩
  · rintro ⟨rfl, converted⟩
    exact ⟨_, rfl, _, converted, rfl, rfl⟩

theorem batchReadValue_readAs {asKey : AsKey} {reply : Reply} {value : BatchValue}
    (stored : batchReadValue rt ⟨asKey, reply.result, reply.record⟩ = .ok value) :
    Answered rt reply ∧ ReadAs rt reply value := by
  unfold batchReadValue at stored
  unfold ReadAs Answered
  split_ifs at stored with found missing
  · rcases ExceptLoop.bind_eq_ok.mp stored with ⟨hash, read, same⟩
    cases same
    rw [if_pos found]
    exact ⟨Or.inl ⟨found, record2hash_iff_readable.mp ⟨hash, read⟩⟩, hash, read, rfl⟩
  · cases stored
    rw [if_neg found, if_pos missing]
    exact ⟨Or.inr missing, rfl⟩
  · rcases ExceptLoop.bind_eq_ok.mp stored with ⟨_, resolved, _⟩
    rw [rbConstGet, if_pos (by decide)] at resolved
    cases resolved

theorem exists_batchReadValue {asKey : AsKey} {reply : Reply} (answered : Answered rt reply) :
    ∃ value, batchReadValue rt ⟨asKey, reply.result, reply.record⟩ = .ok value := by
  unfold batchReadValue
  rcases answered with ⟨found, readable⟩ | missing
  · rcases record2hash_iff_readable.mpr readable with ⟨hash, read⟩
    refine ⟨.hash hash, ?_⟩
    simp only [found, if_true, read]
    rfl
  · refine ⟨.nil, ?_⟩
    simp only [missing]
    rfl

variable {server : AsKey → Reply} {client : List AsKey → List (List BatchRead)}

/-- The results of a batch are those of the keys of the list. -/
theorem mem_results (reports : Reports server client) {result : BatchRead} :
    result ∈ (client (list.map Key.asKey)).flatten ↔ ∃ key ∈ list,
      result = ⟨key.asKey, (server key.asKey).result, (server key.asKey).record⟩ := by
  rw [(reports (list.map Key.asKey)).mem_iff]
  simp only [List.map_map, List.mem_map, Function.comp, eq_comm]

theorem callbackKey_of_mem_results (reports : Reports server client)
    (made : ∀ key ∈ list, key.Made rt) (plain : ∀ key ∈ list, StringOrFixnum key.key) :
    ∀ result ∈ (client (list.map Key.asKey)).flatten,
      callbackKey rt result.key = .ok (callbackObject rt result.key) := by
  intro result member
  rcases (mem_results reports).mp member with ⟨key, inList, rfl⟩
  exact callbackKey_of_plain (made key inList) (plain key inList)

/-- `batch_exists` is right about its keys exactly when no two of them differ in the namespace
alone. -/
theorem existsBelongs_iff (injective : Function.Injective2 asKeyDigest)
    (reports : Reports server client) (made : ∀ key ∈ list, key.Made rt)
    (plain : ∀ key ∈ list, StringOrFixnum key.key) :
    ExistsBelongs asKeyDigest rt client server list ↔ Separate list := by
  have run := @reportAll_batchExistsCallback _ asKeyDigest _ rt _
    ((list.map fun key => (key, false)).foldl
      (fun hash update => keyHashAset asKeyDigest hash update.1 update.2) [])
    (callbackKey_of_mem_results reports made plain)
  have isKey : ∀ update ∈ existsUpdates rt (client (list.map Key.asKey)).flatten,
      update.2 = true ∧ ∃ key ∈ list, update.1.asKey = key.asKey ∧
        (server key.asKey).result = aerospikeOk := by
    intro update member
    rcases List.mem_map.mp member with ⟨result, found, rfl⟩
    rcases List.mem_filter.mp found with ⟨reported, found⟩
    rcases (mem_results reports).mp reported with ⟨key, inList, rfl⟩
    exact ⟨rfl, key, inList, rfl, of_decide_eq_true found⟩
  have filled := @filled _ asKeyDigest _ _ list false
    (existsUpdates rt (client (list.map Key.asKey)).flatten) (by
      intro update member
      rcases (isKey update member).2 with ⟨key, inList, same, _⟩
      exact ⟨key, inList, same⟩)
  unfold ExistsBelongs batchExists
  rw [prepareBatch_eq false [] fun key member => batchKey_of_plain (made key member)
    (plain key member)]
  simp only [bind, Except.bind, run, Except.ok.injEq, exists_eq_left']
  rw [filled.oneEach_iff injective]
  apply and_iff_left_of_imp
  intro separate entry member
  have inList := filled.listed entry member
  by_cases touched : ∃ update ∈ existsUpdates rt (client (list.map Key.asKey)).flatten,
      keyDigest asKeyDigest update.1 = keyDigest asKeyDigest entry.1
  · rcases touched with ⟨update, updates, equal⟩
    rcases filled.updated entry member update updates equal with ⟨last, updates, equal, value⟩
    rcases isKey last updates with ⟨isTrue, key, inList', same, found⟩
    have equal' : keyDigest asKeyDigest entry.1 = keyDigest asKeyDigest key := by
      rw [← equal, keyDigest, keyDigest, same]
    rw [separate.asKey_eq injective inList inList' equal', ← value, isTrue]
    exact iff_of_true rfl found
  · push Not at touched
    rw [filled.preset entry member touched]
    apply iff_of_false Bool.false_ne_true
    intro found
    apply touched (callbackObject rt entry.1.asKey, true) _ rfl
    apply List.mem_map.mpr
    refine ⟨⟨entry.1.asKey, (server entry.1.asKey).result, (server entry.1.asKey).record⟩, ?_, rfl⟩
    exact List.mem_filter.mpr
      ⟨(mem_results reports).mpr ⟨entry.1, inList, rfl⟩, decide_eq_true found⟩

/-- `batch_read` is right about its keys exactly when, besides, every record found can be read
and no result is an error. -/
theorem readBelongs_iff (injective : Function.Injective2 asKeyDigest)
    (reports : Reports server client) (made : ∀ key ∈ list, key.Made rt)
    (plain : ∀ key ∈ list, StringOrFixnum key.key) :
    ReadBelongs asKeyDigest rt client server list ↔
      Separate list ∧ ∀ key ∈ list, Answered rt (server key.asKey) := by
  have callbackKeys := callbackKey_of_mem_results reports made plain
  have isUpdate : ∀ {updates : KeyHash BatchValue},
      List.Forall₂ (fun result update => readUpdate rt result = .ok update)
        (client (list.map Key.asKey)).flatten updates →
      ∀ update ∈ updates, ∃ key ∈ list, update.1.asKey = key.asKey ∧
        ReadAs rt (server key.asKey) update.2 := by
    intro updates aligned update member
    rcases Aligned.exists_of_mem aligned.flip member with ⟨result, reported, converted⟩
    rcases (readUpdate_eq_ok (callbackKeys result reported)).mp converted with ⟨object, stored⟩
    rcases (mem_results reports).mp reported with ⟨key, inList, rfl⟩
    exact ⟨key, inList, by rw [object]; rfl, (batchReadValue_readAs stored).2⟩
  unfold ReadBelongs batchRead
  rw [prepareBatch_eq BatchValue.false_ [] fun key member => batchKey_of_plain (made key member)
    (plain key member)]
  simp only [bind, Except.bind, reportAll_eq batchReadCallback_eq, ExceptLoop.accumulate_eq_ok]
  constructor
  · rintro ⟨entries, ⟨updates, aligned, rfl⟩, oneEach, _⟩
    have filled := @filled _ asKeyDigest _ _ list .false_ updates (by
      intro update member
      rcases isUpdate aligned update member with ⟨key, inList, same, _⟩
      exact ⟨key, inList, same⟩)
    refine ⟨(filled.oneEach_iff injective).mp oneEach, ?_⟩
    intro key inList
    have reported := (mem_results reports).mpr ⟨key, inList, rfl⟩
    rcases Aligned.exists_of_mem aligned reported with ⟨update, _, converted⟩
    exact (batchReadValue_readAs
      ((readUpdate_eq_ok (callbackKeys _ reported)).mp converted).2).1
  · rintro ⟨separate, answered⟩
    have converts : ∀ result ∈ (client (list.map Key.asKey)).flatten,
        ∃ update, readUpdate rt result = .ok update := by
      intro result reported
      rcases (mem_results reports).mp reported with ⟨key, inList, rfl⟩
      rcases exists_batchReadValue (answered key inList) with ⟨value, stored⟩
      exact ⟨(callbackObject rt key.asKey, value),
        (readUpdate_eq_ok (callbackKeys _ reported)).mpr ⟨rfl, stored⟩⟩
    rcases Aligned.exists_images converts with ⟨updates, aligned⟩
    have filled := @filled _ asKeyDigest _ _ list .false_ updates (by
      intro update member
      rcases isUpdate aligned update member with ⟨key, inList, same, _⟩
      exact ⟨key, inList, same⟩)
    refine ⟨_, ⟨updates, aligned, rfl⟩, (filled.oneEach_iff injective).mpr separate, ?_⟩
    intro entry member
    have inList := filled.listed entry member
    have reported := (mem_results reports).mpr ⟨entry.1, inList, rfl⟩
    rcases Aligned.exists_of_mem aligned reported with ⟨update, inUpdates, converted⟩
    have object := ((readUpdate_eq_ok (callbackKeys _ reported)).mp converted).1
    rcases filled.updated entry member update inUpdates (by rw [object]; rfl) with
      ⟨last, inUpdates, equal, value⟩
    rcases isUpdate aligned last inUpdates with ⟨key, inList', same, readAs⟩
    have equal' : keyDigest asKeyDigest entry.1 = keyDigest asKeyDigest key := by
      rw [← equal, keyDigest, keyDigest, same]
    rw [separate.asKey_eq injective inList inList' equal', ← value]
    exact readAs

/-- The results of a batch belong to their keys exactly when no two keys differ in the
namespace alone, every record found can be read, and no result is an error. -/
theorem batch_belongs_iff (injective : Function.Injective2 asKeyDigest)
    (reports : Reports server client) (made : ∀ key ∈ list, key.Made rt)
    (plain : ∀ key ∈ list, StringOrFixnum key.key) :
    ExistsBelongs asKeyDigest rt client server list ∧
        ReadBelongs asKeyDigest rt client server list ↔
      Separate list ∧ ∀ key ∈ list, Answered rt (server key.asKey) := by
  rw [existsBelongs_iff injective reports made plain,
    readBelongs_iff injective reports made plain]
  exact and_iff_right_of_imp And.left

end Runs

section Samples

/-- A C client which reports a batch in its order, in one portion. -/
def inOrder (server : AsKey → Reply) (batch : List AsKey) : List (List BatchRead) :=
  [batch.map fun asKey => ⟨asKey, (server asKey).result, (server asKey).record⟩]

theorem inOrder_reports (server : AsKey → Reply) : Reports server (inOrder server) := by
  intro batch
  rw [inOrder, List.flatten_singleton]

/-- A server which gives every key the same result, with an empty record. -/
def always (result : ℤ) (_ : AsKey) : Reply :=
  ⟨result, AsRecord.init 0⟩

theorem prodMk_injective2 : Function.Injective2 (Prod.mk : CStr → KeyValue → CStr × KeyValue) :=
  fun _ _ _ _ equal => Prod.mk.inj equal

/-- A String, a fixnum and the String again, none of which is found. -/
theorem batch_belongs_iff_sample :
    ExistsBelongs Prod.mk Runtime.sample (inOrder (always 2)) (always 2)
        [textKey "a", fixnumKey, textKey "a"] ∧
      ReadBelongs Prod.mk Runtime.sample (inOrder (always 2)) (always 2)
        [textKey "a", fixnumKey, textKey "a"] := by
  apply (batch_belongs_iff prodMk_injective2 (inOrder_reports _) _ _).mpr
  · refine ⟨by decide, ?_⟩
    intro key _
    exact Or.inr rfl
  · intro key member
    fin_cases member
    · exact textKey_made (by decide)
    · exact fixnumKey_made
    · exact textKey_made (by decide)
  · intro key member
    fin_cases member
    · trivial
    · exact (by decide : IsFixnum 7)
    · trivial

/-- Two keys of different namespaces share one entry of `batch_exists`, and `batch_read` raises
where the result of a key is an error. -/
theorem batch_belongs_fails :
    ¬ExistsBelongs Prod.mk Runtime.sample (inOrder (always 2)) (always 2)
        [textKey "a", textKey "b"] ∧
      ¬ReadBelongs Prod.mk Runtime.sample (inOrder (always 9)) (always 9) [textKey "a"] := by
  constructor
  · rw [existsBelongs_iff prodMk_injective2 (inOrder_reports _)]
    · decide
    · intro key member
      fin_cases member <;> exact textKey_made (by decide)
    · intro key member
      fin_cases member <;> trivial
  · rw [readBelongs_iff prodMk_injective2 (inOrder_reports _)]
    · rintro ⟨_, answered⟩
      rcases answered (textKey "a") (by simp) with ⟨found, _⟩ | missing
      · exact absurd found (by decide)
      · exact absurd missing (by decide)
    · intro key member
      fin_cases member
      exact textKey_made (by decide)
    · intro key member
      fin_cases member
      trivial

end Samples

end AerospikeCRuby
