import AerospikeCRuby.Aerospike.Record
import AerospikeCRuby.Library.BoundedList
import AerospikeCRuby.PredExp.Acceptance

/-!
# The array of a predicate

The compiled items go into an array that doubles when it is full, and from
there into the query.  The array counts its bytes in units of `as_bin_name`,
and what it calls its capacity is the number of its items.
-/

namespace AerospikeCRuby

/-- `sizeof(as_bin_name)`: a name and its NUL. -/
def asBinNameSize : ℕ :=
  asBinNameMaxLen + 1

/-- `sizeof(as_predexp_base *)`. -/
def pointerSize : ℕ :=
  8

/-- An `as_predexp_array`, with the number of bytes of its block. -/
structure AsPredexpArray (Base : Type*) where
  array : ℕ → Option Base
  allocated : ℕ
  capacity : ℕ
  size : ℕ

namespace AsPredexpArray

variable {Base : Type*}

/-- `init_as_predexp_array`. -/
def init (initialSize : ℕ) : AsPredexpArray Base where
  array := fun _ => none
  allocated := initialSize * asBinNameSize
  capacity := 0
  size := initialSize

/-- `cf_realloc` keeps the items that lie in both blocks. -/
def realloc (a : AsPredexpArray Base) (bytes : ℕ) : AsPredexpArray Base :=
  { a with
    array := fun index =>
      if (index + 1) * pointerSize ≤ min a.allocated bytes then a.array index else none
    allocated := bytes }

/-- The doubling, unless the doubled size is no `int`. -/
def grow (a : AsPredexpArray Base) : Option (AsPredexpArray Base) :=
  if a.capacity = a.size then
    if a.size * 2 < 2 ^ 31 then
      some ({ a with size := a.size * 2 }.realloc (a.size * 2 * asBinNameSize))
    else none
  else some a

/-- The store of an element, unless it lies behind the block. -/
def store (a : AsPredexpArray Base) (element : Base) : Option (AsPredexpArray Base) :=
  if (a.capacity + 1) * pointerSize ≤ a.allocated then
    some { a with
      array := Function.update a.array a.capacity (some element)
      capacity := a.capacity + 1 }
  else none

/-- `insert_as_predexp_array`. -/
def insert (a : AsPredexpArray Base) (element : Base) : Option (AsPredexpArray Base) := do
  let a ← a.grow
  a.store element

def insertAll (initialSize : ℕ) (elements : List Base) : Option (AsPredexpArray Base) :=
  elements.foldlM insert (init initialSize)

/-- The items of the array, in order. -/
def items (a : AsPredexpArray Base) : List (Option Base) :=
  (List.range a.capacity).map a.array

end AsPredexpArray

/-- `as_query_predexp_init` takes its count as a `uint16_t`. -/
def asQueryPredexpCapacity (count : ℕ) : ℕ :=
  count % 2 ^ 16

theorem asQueryPredexpCapacity_lt (count : ℕ) : asQueryPredexpCapacity count < 2 ^ 16 :=
  Nat.mod_lt count (by decide)

/-- The predicates of an `as_query`, which takes any of them as long as there is room. -/
structure AsQueryPredexp (Base : Type*) where
  list : BoundedList (Option Base) fun _ => True
  addressable : list.capacity < 2 ^ 16

namespace AsQueryPredexp

variable {Base : Type*} (query : AsQueryPredexp Base)

def entries : List (Option Base) :=
  query.list.entries

def capacity : ℕ :=
  query.list.capacity

/-- `as_query_predexp_init`; a new query has no predicates. -/
def init (count : ℕ) : AsQueryPredexp Base where
  list := .empty (asQueryPredexpCapacity count)
  addressable := asQueryPredexpCapacity_lt count

/-- `as_query_predexp_add`: the answer says whether the predicate was added. -/
def add (predexp : Option Base) : Bool × AsQueryPredexp Base :=
  ((query.list.add predexp).1,
    { list := (query.list.add predexp).2
      addressable := by
        rw [BoundedList.capacity_add]
        exact query.addressable })

/-- The loop over the array. -/
def addAll (predexps : List (Option Base)) : AsQueryPredexp Base :=
  predexps.foldl (fun query predexp => (query.add predexp).2) query

end AsQueryPredexp

/-- The predicates which `query_obj2as_query` gives to the query. -/
def queryPredexps (rt : Runtime) (varName : RbVal → CStr) (predexp : Option PredNode) :
    Except Abort (Option (AsQueryPredexp AsPredexp)) := do
  let compiled ← predexp2AsPredexp rt varName predexp
  .ok (do
    let a ← AsPredexpArray.insertAll 100 compiled
    if 0 < a.capacity then some ((AsQueryPredexp.init a.capacity).addAll a.items)
    else some (.init 0))

/-- The items of a node itself: those of the comparison, of the iteration, which goes in twice for
a fixnum, and of the negation. -/
def ownItems (nodeBin nodeTrue : RbVal) (nodeFilters : Option Filters) : ℕ :=
  let filters := nodeFilters.getD {}
  let iterated :=
    if nodeBin.isSym "record" || (aref filters.collection).isNil then 0
    else if (aref filters.value).type = .fixnum then 4
    else 2
  3 + iterated + (negation nodeTrue).length

mutual

/-- The number of the items of a node that compiles. -/
def PredNode.items : PredNode → ℕ
  | .hash bin predTrue filters andNodes orNodes =>
      ownItems bin predTrue filters + itemsOfChildren andNodes + itemsOfChildren orNodes
  | .other => 0

def PredNode.itemsOfChildren : Option (List PredNode) → ℕ
  | some nodes => if nodes = [] then 0 else itemsOfList nodes + 1
  | none => 0

def PredNode.itemsOfList : List PredNode → ℕ
  | [] => 0
  | node :: rest => items node + itemsOfList rest

end

/-- Every size that is doubled for this many elements has a double which is an `int`. -/
def Doubles (initialSize count : ℕ) : Prop :=
  ∀ doublings, initialSize * 2 ^ doublings < count → initialSize * 2 ^ doublings * 2 < 2 ^ 31

/-- The array holds the inserted elements in order, and each was stored inside the block. -/
structure KeepsAll {Base : Type*} (initialSize : ℕ) (elements : List Base) : Prop where
  kept : ∃ a, AsPredexpArray.insertAll initialSize elements = some a ∧
    a.capacity = elements.length ∧ a.capacity ≤ a.size ∧ a.items = elements.map some
  inside : ∀ before element after, elements = before ++ element :: after → ∃ a grown,
    AsPredexpArray.insertAll initialSize before = some a ∧ a.grow = some grown ∧
      grown.capacity = before.length ∧ (grown.capacity + 1) * pointerSize ≤ grown.allocated

/-- The query reserves as many predicates as it is given, which are the compiled ones in order. -/
def ReservesExactly (rt : Runtime) (varName : RbVal → CStr) (predexp : Option PredNode)
    (compiled : List AsPredexp) : Prop :=
  ∃ query, queryPredexps rt varName predexp = .ok (some query) ∧
    query.capacity = compiled.length ∧ query.entries = compiled.map some

theorem Doubles.mono {initialSize count count' : ℕ} (doubles : Doubles initialSize count')
    (less : count ≤ count') : Doubles initialSize count :=
  fun doublings below => doubles doublings (lt_of_lt_of_le below less)

namespace AsPredexpArray

variable {Base : Type*} {initialSize : ℕ} {a grown : AsPredexpArray Base} {elements : List Base}

/-- A pointer fits into the unit the array counts in. -/
theorem pointerSize_le : pointerSize ≤ asBinNameSize := by
  decide

/-- The elements lie at the beginning of a block whose size was doubled so many times. -/
structure Holds (initialSize doublings : ℕ) (a : AsPredexpArray Base) (elements : List Base) :
    Prop where
  size : a.size = initialSize * 2 ^ doublings
  allocated : a.allocated = a.size * asBinNameSize
  capacity : a.capacity = elements.length
  within : a.capacity ≤ a.size
  array : ∀ index < elements.length, a.array index = elements[index]?

theorem holds_init (initialSize : ℕ) :
    (init initialSize : AsPredexpArray Base).Holds initialSize 0 [] where
  size := by simp [init]
  allocated := rfl
  capacity := rfl
  within := Nat.zero_le _
  array := fun _ below => absurd below (Nat.not_lt_zero _)

/-- After the first statement of an insertion there is room for one more element. -/
theorem Holds.grow {doublings : ℕ} (holds : a.Holds initialSize doublings elements)
    (positive : 0 < initialSize) (doubles : Doubles initialSize (elements.length + 1)) :
    ∃ grown doublings', a.grow = some grown ∧ grown.Holds initialSize doublings' elements ∧
      elements.length < grown.size := by
  have within := holds.within
  rw [holds.capacity] at within
  by_cases full : a.capacity = a.size
  · have length : elements.length = a.size := holds.capacity.symm.trans full
    have fits : a.size * 2 < 2 ^ 31 := by
      rw [holds.size]
      apply doubles
      rw [← holds.size, length]
      omega
    have some : 0 < a.size := by
      rw [holds.size]
      positivity
    refine ⟨_, doublings + 1, by rw [AsPredexpArray.grow, if_pos full, if_pos fits], ?_, ?_⟩
    · constructor
      · simp only [realloc]
        rw [holds.size, pow_succ, Nat.mul_assoc]
      · rfl
      · exact holds.capacity
      · simp only [realloc, holds.capacity]
        omega
      · intro index below
        simp only [realloc]
        rw [if_pos, holds.array index below]
        have enough : (index + 1) * pointerSize ≤ a.allocated := by
          rw [holds.allocated]
          exact Nat.mul_le_mul (by omega) pointerSize_le
        have more : a.allocated ≤ a.size * 2 * asBinNameSize := by
          rw [holds.allocated]
          exact Nat.mul_le_mul_right _ (Nat.le_mul_of_pos_right _ Nat.zero_lt_two)
        exact le_min enough (enough.trans more)
    · simp only [realloc]
      omega
  · refine ⟨a, doublings, by rw [AsPredexpArray.grow, if_neg full], holds, ?_⟩
    rw [holds.capacity] at full
    omega

/-- Where there is room the element is stored inside the block, after the others. -/
theorem Holds.store {doublings : ℕ} (holds : a.Holds initialSize doublings elements)
    (room : elements.length < a.size) (element : Base) :
    (a.capacity + 1) * pointerSize ≤ a.allocated ∧
      ∃ next, a.store element = some next ∧
        next.Holds initialSize doublings (elements ++ [element]) := by
  have inside : (a.capacity + 1) * pointerSize ≤ a.allocated := by
    rw [holds.allocated, holds.capacity]
    exact Nat.mul_le_mul room pointerSize_le
  refine ⟨inside, _, by rw [AsPredexpArray.store, if_pos inside], ?_⟩
  constructor
  · exact holds.size
  · exact holds.allocated
  · simp [holds.capacity]
  · simp only [holds.capacity]
    exact room
  · intro index below
    by_cases last : index = elements.length
    · simp [holds.capacity, last]
    · have before : index < elements.length := by
        rw [List.length_append, List.length_singleton] at below
        omega
      simp only [holds.capacity]
      rw [Function.update_of_ne last, holds.array index before,
        List.getElem?_append_left before]

theorem exists_insertAll (positive : 0 < initialSize)
    (doubles : Doubles initialSize elements.length) :
    ∃ a doublings, insertAll initialSize elements = some a ∧
      a.Holds initialSize doublings elements := by
  induction elements using List.reverseRecOn with
  | nil => exact ⟨_, 0, rfl, holds_init initialSize⟩
  | append_singleton before element ih =>
      rw [List.length_append, List.length_singleton] at doubles
      rcases ih (doubles.mono (Nat.le_succ _)) with ⟨a, _, inserted, holds⟩
      rcases holds.grow positive doubles with ⟨grown, doublings, grows, held, room⟩
      rcases (held.store room element).2 with ⟨next, stores, after⟩
      refine ⟨next, doublings, ?_, after⟩
      rw [insertAll] at inserted ⊢
      rw [List.foldlM_append, inserted]
      simp [insert, grows, stores]

theorem Holds.items_eq {doublings : ℕ} (holds : a.Holds initialSize doublings elements) :
    a.items = elements.map some := by
  apply List.ext_getElem
  · simp [items, holds.capacity]
  · intro index _ below
    have inside : index < elements.length := by simpa using below
    simp [items, holds.array index inside, inside]

/-- Whatever the first size, the array keeps every element that is inserted. -/
theorem keepsAll (positive : 0 < initialSize) (doubles : Doubles initialSize elements.length) :
    KeepsAll initialSize elements := by
  constructor
  · rcases exists_insertAll positive doubles with ⟨a, _, inserted, holds⟩
    exact ⟨a, inserted, holds.capacity, holds.within, holds.items_eq⟩
  · rintro before element after rfl
    have size : before.length + 1 ≤ (before ++ element :: after).length := by
      simp
    rcases exists_insertAll positive (doubles.mono ((Nat.le_succ _).trans size)) with
      ⟨a, _, inserted, holds⟩
    rcases holds.grow positive (doubles.mono size) with ⟨grown, _, grows, held, room⟩
    exact ⟨a, grown, inserted, grows, held.capacity, (held.store room element).1⟩

end AsPredexpArray

namespace AsQueryPredexp

variable {Base : Type*}

theorem list_addAll (query : AsQueryPredexp Base) (predexps : List (Option Base)) :
    (query.addAll predexps).list = query.list.addAll predexps := by
  induction predexps generalizing query with
  | nil => rfl
  | cons predexp rest ih => exact ih (query.add predexp).2

theorem capacity_addAll_init (count : ℕ) (predexps : List (Option Base)) :
    ((init count).addAll predexps).capacity = asQueryPredexpCapacity count := by
  rw [capacity, list_addAll, BoundedList.capacity_addAll]
  rfl

/-- Of the predicates given to a new query, the first ones are kept. -/
theorem entries_addAll_init (count : ℕ) (predexps : List (Option Base)) :
    ((init count).addAll predexps).entries = predexps.take (asQueryPredexpCapacity count) := by
  rw [entries, list_addAll]
  exact (BoundedList.entries_addAll_empty _ _).trans (by simp)

end AsQueryPredexp

section

variable {rt : Runtime} {varName : RbVal → CStr}

theorem Comparison.length_code (comparison : Comparison) (operand : OperandType → AsPredexp) :
    (comparison.code operand).length = 3 := by
  cases comparison <;> rfl

/-- The name of a bin is missing for `:record` only. -/
theorem isSym_record_of_nodeBinName {nodeBin : RbVal} {bin : Option CStr}
    (named : nodeBinName nodeBin = .ok bin) : nodeBin.isSym "record" = bin.isNone := by
  have isNone : ∀ text : RbStr, some <$> stringValueCStr text = .ok bin → bin.isNone = false := by
    intro text converted
    cases read : stringValueCStr text with
    | error failure =>
        rw [read] at converted
        cases converted
    | ok name =>
        rw [read] at converted
        cases converted
        rfl
  cases nodeBin with
  | string text => exact (isNone text named).symm
  | symbol name =>
      simp only [nodeBinName] at named
      split at named
      case isTrue record =>
        cases named
        exact record
      case isFalse other =>
        rw [isNone name named]
        simpa using other
  | _ => cases named

theorem length_code {nodeBin : RbVal} {filters : Filters} {own : OwnFilter} {name : CStr}
    (reads : OwnFilter.read rt nodeBin filters = some own) (nodeTrue : RbVal) :
    (own.code name ++ negation nodeTrue).length = ownItems nodeBin nodeTrue (some filters) := by
  simp only [OwnFilter.read, Option.bind_eq_bind, Option.bind_eq_some_iff] at reads
  rcases reads with ⟨bin, named, reads⟩
  have record := isSym_record_of_nodeBinName (ExceptLoop.toOption_eq_some.mp named)
  simp only [ownItems, Option.getD_some, List.length_append, Nat.add_right_cancel_iff]
  cases bin with
  | none =>
      simp only [OwnFilter.readRecord, Option.bind_eq_bind, Option.bind_eq_some_iff,
        Option.some.injEq] at reads
      rcases reads with ⟨subject, timed, operand, _, relation, _, rfl⟩
      rw [record, if_pos (by rfl)]
      simp only [Subject.readTime] at timed
      split_ifs at timed <;> cases timed <;> rfl
  | some bin =>
      simp only [record, Option.isNone_some, Bool.false_or] at reads ⊢
      split at reads
      case isTrue single =>
        simp only [OwnFilter.readBin, Option.bind_eq_bind, Option.bind_eq_some_iff,
          Option.some.injEq] at reads
        rcases reads with ⟨comparison, _, rfl⟩
        rw [if_pos single, OwnFilter.code, Comparison.length_code]
      case isFalse collected =>
        rw [if_neg collected]
        simp only [OwnFilter.readCollection] at reads
        split at reads
        · cases reads
        simp only [Option.bind_eq_bind, Option.bind_eq_some_iff, Option.some.injEq] at reads
        rcases reads with ⟨comparison, read, collection, _, quantifier, _, rfl⟩
        have doubled := Comparison.type_of_read read
        simp only [OwnFilter.code, doubled]
        split <;> simp [Comparison.length_code, iteration]

mutual

/-- A predicate compiles to as many items as its tree has, through the children of a node. -/
theorem length_predexpNode2AsPredexp : ∀ (node : PredNode) {code : List AsPredexp},
    predexpNode2AsPredexp rt varName node = .ok code → code.length = node.items
  | .other, _, compiled => nomatch compiled
  | .hash bin predTrue filters andNodes orNodes, _, compiled => by
      simp only [predexpNode2AsPredexp, ExceptLoop.bind_eq_ok] at compiled
      rcases compiled with ⟨own, pushed, ands, conjoined, ors, disjoined, same⟩
      cases same
      rcases push2AsPredexp_eq_ok.mp pushed with ⟨filters, filter, rfl, reads, rfl⟩
      rw [List.length_append, List.length_append, length_code reads,
        length_predexpNodes2AsPredexp andNodes conjoined,
        length_predexpNodes2AsPredexp orNodes disjoined, PredNode.items]

theorem length_predexpNodes2AsPredexp :
    ∀ (nodes : Option (List PredNode)) {combine : ℕ → AsPredexp} {code : List AsPredexp},
      predexpNodes2AsPredexp rt varName combine nodes = .ok code →
        code.length = PredNode.itemsOfChildren nodes
  | none, _, _, compiled => nomatch compiled
  | some [], _, _, compiled => by
      cases compiled
      rfl
  | some (node :: rest), _, _, compiled => by
      rcases predexpNodes2AsPredexp_cons.mp compiled with ⟨_, operands, each, rfl⟩
      rw [List.length_append, length_predexpNodeList2AsPredexp (node :: rest) each,
        PredNode.itemsOfChildren, if_neg (List.cons_ne_nil _ _), List.length_singleton]

theorem length_predexpNodeList2AsPredexp : ∀ (nodes : List PredNode) {code : List AsPredexp},
    predexpNodeList2AsPredexp rt varName nodes = .ok code →
      code.length = PredNode.itemsOfList nodes
  | [], _, compiled => by
      cases compiled
      rfl
  | node :: rest, _, compiled => by
      simp only [predexpNodeList2AsPredexp, ExceptLoop.bind_eq_ok] at compiled
      rcases compiled with ⟨first, compiled, others, compiled', same⟩
      cases same
      rw [List.length_append, length_predexpNode2AsPredexp node compiled,
        length_predexpNodeList2AsPredexp rest compiled', PredNode.itemsOfList]

end

variable {predexp : Option PredNode} {compiled : List AsPredexp}

/-- The array holds the compiled items, whose number goes into the query as its capacity. -/
theorem queryPredexps_eq (compiles : predexp2AsPredexp rt varName predexp = .ok compiled)
    (doubles : Doubles 100 compiled.length) :
    queryPredexps rt varName predexp = .ok
      (if 0 < compiled.length then
        some ((AsQueryPredexp.init compiled.length).addAll (compiled.map some))
      else some (.init 0)) := by
  rcases AsPredexpArray.exists_insertAll (by decide) doubles with ⟨a, _, inserted, holds⟩
  rw [queryPredexps, compiles, ← holds.capacity, ← holds.items_eq]
  simp only [bind, Except.bind, inserted, Option.bind]

theorem doubles_of_short (short : compiled.length ≤ 2 ^ 16) : Doubles 100 compiled.length := by
  intro doublings below
  omega

/-- All of the predicates are reserved and added unless there are too many for the query. -/
theorem reservesExactly_iff_length
    (compiles : predexp2AsPredexp rt varName predexp = .ok compiled) :
    ReservesExactly rt varName predexp compiled ↔ compiled.length < 2 ^ 16 := by
  constructor
  · rintro ⟨query, _, reserved, _⟩
    rw [← reserved]
    exact query.addressable
  · intro short
    have reserved : asQueryPredexpCapacity compiled.length = compiled.length :=
      Nat.mod_eq_of_lt short
    unfold ReservesExactly
    rw [queryPredexps_eq compiles (doubles_of_short short.le)]
    split
    case isTrue =>
      refine ⟨_, rfl, ?_, ?_⟩
      · rw [AsQueryPredexp.capacity_addAll_init, reserved]
      · rw [AsQueryPredexp.entries_addAll_init, reserved]
        exact List.take_of_length_le (List.length_map some).le
    case isFalse empty =>
      rw [List.eq_nil_of_length_eq_zero (Nat.eq_zero_of_not_pos empty)]
      exact ⟨_, rfl, rfl, rfl⟩

theorem length_predexp2AsPredexp
    (compiles : predexp2AsPredexp rt varName predexp = .ok compiled) :
    compiled.length = predexp.elim 0 PredNode.items := by
  cases predexp with
  | none =>
      cases compiles
      rfl
  | some node => exact length_predexpNode2AsPredexp node compiles

/-- No array loses an element, however often it grows; but the count which it hands to the query
is cut to sixteen bits. -/
theorem reservesExactly_iff {Base : Type*} {initialSize : ℕ} {elements : List Base}
    (positive : 0 < initialSize) (doubles : Doubles initialSize elements.length)
    (compiles : predexp2AsPredexp rt varName predexp = .ok compiled) :
    KeepsAll initialSize elements ∧
      (ReservesExactly rt varName predexp compiled ↔ predexp.elim 0 PredNode.items < 2 ^ 16) := by
  refine ⟨AsPredexpArray.keepsAll positive doubles, ?_⟩
  rw [reservesExactly_iff_length compiles, length_predexp2AsPredexp compiles]

/-- A bin which is to be 1, and predicates which are to hold as well. -/
def equalsOne (andNodes : List PredNode) : PredNode :=
  .hash (.string ⟨ascii "n", .utf8⟩) (.bool true)
    (some { filter := some (sym "eq"), value := some (.integer 1) }) (some andNodes) (some [])

/-- The third element is the second that makes the array grow. -/
theorem reservesExactly_iff_equalsOne : ∃ compiled,
    predexp2AsPredexp .sample (fun _ => cstr (ascii "v")) (some (equalsOne [])) = .ok compiled ∧
      KeepsAll 1 [1, 2, 3] ∧
      (ReservesExactly .sample (fun _ => cstr (ascii "v")) (some (equalsOne [])) compiled ↔
        (some (equalsOne [])).elim 0 PredNode.items < 2 ^ 16) :=
  ⟨_, rfl, reservesExactly_iff Nat.one_pos
    (by intro doublings below; simp at below; omega) rfl⟩

theorem accepted_equalsOne {andNodes : List PredNode} (short : andNodes.length < 2 ^ 31)
    (accepted : ∀ node ∈ andNodes, node.Accepted .sample) :
    (equalsOne andNodes).Accepted .sample := by
  rw [equalsOne, PredNode.Accepted]
  refine ⟨rfl, ⟨short, ?_⟩, by decide, trivial⟩
  exact PredNode.acceptedList_iff.mpr accepted

theorem items_equalsOne (andNodes : List PredNode) :
    (equalsOne andNodes).items = 3 + PredNode.itemsOfChildren (some andNodes) :=
  rfl

theorem PredNode.itemsOfList_replicate (count : ℕ) (node : PredNode) :
    itemsOfList (List.replicate count node) = count * node.items := by
  induction count with
  | zero => rw [List.replicate_zero, itemsOfList, Nat.zero_mul]
  | succ count ih => rw [List.replicate_succ, itemsOfList, ih, Nat.succ_mul, Nat.add_comm]

def wideNode : PredNode :=
  equalsOne (List.replicate 21844 (equalsOne []))

theorem items_wideNode : wideNode.items = 65536 := by
  rw [wideNode, items_equalsOne, PredNode.itemsOfChildren, PredNode.itemsOfList_replicate]
  rfl

/-- Of 65536 predicates the query takes none. -/
theorem not_reservesExactly_wideNode : ∃ compiled query,
    predexp2AsPredexp .sample (fun _ => cstr (ascii "v")) (some wideNode) = .ok compiled ∧
      compiled.length = 65536 ∧
      queryPredexps .sample (fun _ => cstr (ascii "v")) (some wideNode) = .ok (some query) ∧
      query.entries = [] ∧
      ¬ReservesExactly .sample (fun _ => cstr (ascii "v")) (some wideNode) compiled := by
  have accepted : wideNode.Accepted .sample := by
    apply accepted_equalsOne
    · rw [List.length_replicate]
      decide
    · intro node member
      rw [List.eq_of_mem_replicate member]
      exact accepted_equalsOne (by decide) (by simp)
  rcases exists_predexpNode2AsPredexp wideNode |>.mpr accepted with ⟨compiled, compiles⟩
  have length : compiled.length = 65536 :=
    (length_predexpNode2AsPredexp wideNode compiles).trans items_wideNode
  have queried := @queryPredexps_eq _ _ (some wideNode) _ compiles (doubles_of_short length.le)
  rw [length, if_pos (by decide)] at queried
  refine ⟨compiled, _, compiles, length, queried, ?_, ?_⟩
  · -- a full query refuses everything, and this one is full from the start
    rw [AsQueryPredexp.entries_addAll_init]
    rfl
  · rw [@reservesExactly_iff_length _ _ (some wideNode) _ compiles, length]
    exact lt_irrefl _

end

end AerospikeCRuby
