import AerospikeCRuby.Codec.Readable

/-!
# Deep copies of records

`Client#scan` and `Client#query` keep a deep copy of each record until the
iteration is over.  The copy is a traversal of its own: a type it has no case
for becomes NULL inside a list or a map, and is left out of a record.

`Faithful` describes the values that survive.  A map is the delicate case: the
copy cuts keys at the first NUL, as the decoder does, so of two pairs with the
same name only the later one has to survive, while the streaming read still
decodes the earlier one.
-/

namespace AerospikeCRuby

open AssocList (Related keys)

variable {rt : Runtime}

/-- `as_hashmap_set`, which reads the key to hash it. -/
def asHashmapSet (rt : Runtime) (buckets : ℕ) (map : List (AsVal × AsVal)) (key value : AsVal) :
    Except Abort (List (AsVal × AsVal)) :=
  match key with
  | .null => .error .nullDeref
  | key => .ok (AssocList.put (rt.slot buckets (keys map) key) map key value)

mutual

def rbCopyAsVal (rt : Runtime) : AsVal → Except Abort AsVal
  | .null => .error .nullDeref
  | .integer value => .ok (.integer value)
  | .double bits => .ok (.double bits)
  | .string buffer => .ok (.string (cstr buffer).bytes)
  | .geojson buffer => .ok (.geojson (cstr buffer).bytes)
  | .list elements => do
      let copies ← rbCopyAsArraylistFrom rt elements
      .ok (.list copies)
  | .map pairs => do
      let copies ← rbCopyAsHashmapFrom rt pairs.length [] pairs
      .ok (.map copies)
  | .undef => .ok .null
  | .nil => .ok .null
  | .boolean _ => .ok .null
  | .record => .ok .null
  | .pair => .ok .null
  | .bytes _ _ => .ok .null

/-- The loop of `rb_copy_as_arraylist`. -/
def rbCopyAsArraylistFrom (rt : Runtime) : List AsVal → Except Abort (List AsVal)
  | [] => .ok []
  | element :: rest => do
      let copy ← rbCopyAsVal rt element
      let copies ← rbCopyAsArraylistFrom rt rest
      .ok (copy :: copies)

/-- The loop of `rb_copy_as_hashmap`. -/
def rbCopyAsHashmapFrom (rt : Runtime) (buckets : ℕ) (map : List (AsVal × AsVal)) :
    List (AsVal × AsVal) → Except Abort (List (AsVal × AsVal))
  | [] => .ok map
  | (key, value) :: rest => do
      let newKey ← rbCopyAsVal rt key
      let newValue ← rbCopyAsVal rt value
      let map ← asHashmapSet rt buckets map newKey newValue
      rbCopyAsHashmapFrom rt buckets map rest

end

/-- The switch of `rb_copy_as_record` on the value of one bin: the value it sets, if any. -/
def copyBinValue (rt : Runtime) : AsVal → Except Abort (Option AsVal)
  | .null => .error .nullDeref
  | .nil => .ok (some .nil)
  | .integer value => .ok (some (.integer value))
  | .double bits => .ok (some (.double bits))
  | .string buffer => .ok (some (.string (cstr buffer).bytes))
  | .geojson buffer => .ok (some (.geojson (cstr buffer).bytes))
  | .list elements => do
      let copies ← rbCopyAsArraylistFrom rt elements
      .ok (some (.list copies))
  | .map pairs => do
      let copies ← rbCopyAsHashmapFrom rt pairs.length [] pairs
      .ok (some (.map copies))
  | .undef => .ok none
  | .boolean _ => .ok none
  | .record => .ok none
  | .pair => .ok none
  | .bytes _ _ => .ok none

/-- The loop of `rb_copy_as_record`. -/
def rbCopyAsRecordFrom (rt : Runtime) (newRecord : AsRecord) :
    List (CStr × AsVal) → Except Abort AsRecord
  | [] => .ok newRecord
  | (name, value) :: rest => do
      let copy ← copyBinValue rt value
      match copy with
      | some copy => rbCopyAsRecordFrom rt (newRecord.set name copy).2 rest
      | none => rbCopyAsRecordFrom rt newRecord rest

def rbCopyAsRecord (rt : Runtime) (record : AsRecord) : Except Abort AsRecord :=
  rbCopyAsRecordFrom rt
    { AsRecord.init record.capacity with gen := record.gen, ttl := record.ttl } record.bins

mutual

/-- The values the server delivers: no NULL pointer, and Strings as the keys of maps. -/
def Delivered : AsVal → Prop
  | .nil => True
  | .integer _ => True
  | .double _ => True
  | .string _ => True
  | .geojson _ => True
  | .bytes _ _ => True
  | .list elements => DeliveredElements elements
  | .map pairs => DeliveredPairs pairs
  | _ => False

def DeliveredElements : List AsVal → Prop
  | [] => True
  | element :: rest => Delivered element ∧ DeliveredElements rest

def DeliveredPairs : List (AsVal × AsVal) → Prop
  | [] => True
  | (key, value) :: rest =>
      ((∃ buffer, key = .string buffer) ∧ Delivered value) ∧ DeliveredPairs rest

end

mutual

/-- Every Ruby blob in the value is one that `Marshal.load` accepts. -/
def Loads (rt : Runtime) : AsVal → Prop
  | .bytes .ruby data => ∃ val, rt.load data = .ok val
  | .list elements => LoadsElements rt elements
  | .map pairs => LoadsPairs rt pairs
  | _ => True

def LoadsElements (rt : Runtime) : List AsVal → Prop
  | [] => True
  | element :: rest => Loads rt element ∧ LoadsElements rt rest

def LoadsPairs (rt : Runtime) : List (AsVal × AsVal) → Prop
  | [] => True
  | (_, value) :: rest => Loads rt value ∧ LoadsPairs rt rest

end

/-- The names under which pairs are read. -/
def pairNames (pairs : List (AsVal × AsVal)) : List (Option CStr) :=
  pairs.map fun pair => (pairName pair.1).toOption

mutual

/-- The values whose copy decodes as they do: neither nil nor bytes inside, except under a name
that a later pair of the same map takes. -/
def Faithful (rt : Runtime) : AsVal → Prop
  | .integer _ => True
  | .double _ => True
  | .string _ => True
  | .geojson _ => True
  | .list elements => FaithfulElements rt elements
  | .map pairs => FaithfulPairs rt pairs
  | _ => False

def FaithfulElements (rt : Runtime) : List AsVal → Prop
  | [] => True
  | element :: rest => Faithful rt element ∧ FaithfulElements rt rest

def FaithfulPairs (rt : Runtime) : List (AsVal × AsVal) → Prop
  | [] => True
  | (key, value) :: rest =>
      (((pairName key).toOption ∈ pairNames rest → Loads rt value) ∧
        ((pairName key).toOption ∉ pairNames rest → Faithful rt value)) ∧
        FaithfulPairs rt rest

end

theorem deliveredElements_iff {elements : List AsVal} :
    DeliveredElements elements ↔ ∀ element ∈ elements, Delivered element := by
  induction elements with
  | nil => simp [DeliveredElements]
  | cons element rest ih => simp [DeliveredElements, ih]

theorem deliveredPairs_iff {pairs : List (AsVal × AsVal)} :
    DeliveredPairs pairs ↔
      ∀ pair ∈ pairs, (∃ buffer, pair.1 = .string buffer) ∧ Delivered pair.2 := by
  induction pairs with
  | nil => simp [DeliveredPairs]
  | cons pair rest ih => simp [DeliveredPairs, ih]

theorem loadsElements_iff {elements : List AsVal} :
    LoadsElements rt elements ↔ ∀ element ∈ elements, Loads rt element := by
  induction elements with
  | nil => simp [LoadsElements]
  | cons element rest ih => simp [LoadsElements, ih]

theorem loadsPairs_iff {pairs : List (AsVal × AsVal)} :
    LoadsPairs rt pairs ↔ ∀ pair ∈ pairs, Loads rt pair.2 := by
  induction pairs with
  | nil => simp [LoadsPairs]
  | cons pair rest ih => simp [LoadsPairs, ih]

theorem faithfulElements_iff {elements : List AsVal} :
    FaithfulElements rt elements ↔ ∀ element ∈ elements, Faithful rt element := by
  induction elements with
  | nil => simp [FaithfulElements]
  | cons element rest ih => simp [FaithfulElements, ih]

theorem faithfulPairs_iff {pairs : List (AsVal × AsVal)} :
    FaithfulPairs rt pairs ↔
      ∀ before pair after, pairs = before ++ pair :: after →
        ((pairName pair.1).toOption ∈ pairNames after → Loads rt pair.2) ∧
          ((pairName pair.1).toOption ∉ pairNames after → Faithful rt pair.2) := by
  induction pairs with
  | nil => simp [FaithfulPairs]
  | cons first rest ih =>
      rw [FaithfulPairs, ih, AssocList.forall_split_cons (P := fun pair after =>
        ((pairName pair.1).toOption ∈ pairNames after → Loads rt pair.2) ∧
          ((pairName pair.1).toOption ∉ pairNames after → Faithful rt pair.2))]

theorem not_mem_names {name : AsVal × AsVal → CStr} {pair : AsVal × AsVal}
    {after : List (AsVal × AsVal)} (named : pairName pair.1 = .ok (name pair))
    (others : ∀ other ∈ after, pairName other.1 = .ok (name other)) :
    (pairName pair.1).toOption ∈ pairNames after ↔ name pair ∈ after.map name := by
  rw [named, pairNames, List.mem_map, List.mem_map]
  refine exists_congr fun other => and_congr_right fun member => ?_
  rw [others other member]
  simp [Except.toOption]

theorem rbCopyAsArraylistFrom_eq (rt : Runtime) (elements : List AsVal) :
    rbCopyAsArraylistFrom rt elements = ExceptLoop.collect (rbCopyAsVal rt) elements := by
  induction elements with
  | nil => simp only [rbCopyAsArraylistFrom, ExceptLoop.collect]
  | cons element rest ih => simp only [rbCopyAsArraylistFrom, ExceptLoop.collect, ih]

/-- The copy of a map with Strings as keys, from the names and the copies of its values. -/
theorem rbCopyAsHashmapFrom_eq {name : AsVal × AsVal → CStr} {image : AsVal × AsVal → AsVal}
    {pairs : List (AsVal × AsVal)} (buckets : ℕ) (map : List (AsVal × AsVal))
    (named : ∀ pair ∈ pairs, pairName pair.1 = .ok (name pair))
    (copied : ∀ pair ∈ pairs, rbCopyAsVal rt pair.2 = .ok (image pair)) :
    rbCopyAsHashmapFrom rt buckets map pairs =
      .ok ((pairs.map fun pair => (AsVal.string (name pair).bytes, image pair)).foldl
        (fun map entry =>
          AssocList.put (rt.slot buckets (keys map) entry.1) map entry.1 entry.2) map) := by
  induction pairs generalizing map with
  | nil => simp only [rbCopyAsHashmapFrom, List.map_nil, List.foldl_nil]
  | cons pair rest ih =>
      have newKey : rbCopyAsVal rt pair.1 = .ok (.string (name pair).bytes) := by
        have isNamed := named pair (by simp)
        unfold pairName at isNamed
        cases key : pair.1 with
        | string buffer =>
            rw [key] at isNamed
            rw [rbCopyAsVal, Except.ok.inj isNamed]
        | _ =>
            rw [key] at isNamed
            cases isNamed
      rw [rbCopyAsHashmapFrom, newKey, copied pair (by simp)]
      simp only [bind, Except.bind, asHashmapSet, List.map_cons, List.foldl_cons]
      exact ih _ (fun other member => named other (by simp [member]))
        (fun other member => copied other (by simp [member]))

end AerospikeCRuby
