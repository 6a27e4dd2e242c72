import AerospikeCRuby.Results.AppendOrder
import AerospikeCRuby.Library.ExceptLoop

/-!
# Reading the collected list

When the iteration is over the list is decoded into the result array, item by
item, and each item is freed once its successor is known.  An exception leaves
the loop early, with the current item still in place; the `ensure` block then
frees what is left.  The loops are followed together with the calls which release
memory.
-/

namespace AerospikeCRuby.QueryItems

open LinkedCells

variable {Addr Tid : Type*}

/-- A call which releases memory; a record or a value is named by its item. -/
inductive Release (Addr : Type*) where
  /-- `as_query_destroy` or `as_scan_destroy`. -/
  | destroy
  | asRecordDestroy (item : Addr)
  | asValFree (item : Addr)
  | free (item : Addr)
deriving DecidableEq

/-- The parts of a `query_list` or a `scan_list` the loops work on, the heap, and the releases made
so far.  `data` is `query_data` or `scan_data`. -/
structure ResultList (Addr : Type*) where
  heap : Addr → Option (QueryItem Addr)
  data : Option Addr
  result : List RbVal
  released : List (Release Addr)

/-- How the loops end, with what they leave; a raise carries the exception. -/
abbrev Outcome (Addr : Type*) := Except (Abort × ResultList Addr) (ResultList Addr)

/-- The record and the value of an item, in the order in which they are decoded. -/
def Content.payloads (content : Content) : List Streamed :=
  content.record.toList.map .record ++ content.val.toList.map .value

namespace ResultList

def release (args : ResultList Addr) (release : Release Addr) : ResultList Addr :=
  { args with released := args.released ++ [release] }

/-- Push a converted record or value, then release it. -/
def push (args : ResultList Addr) (converted : Except Abort RbVal) (release : Release Addr) :
    Outcome Addr :=
  match converted with
  | .ok value => .ok ({ args with result := args.result ++ [value] }.release release)
  | .error failure => .error (failure, args)

/-- The two branches of the loop body on one item. -/
def pushItem (decode : Streamed → Except Abort RbVal) (args : ResultList Addr) (item : Addr)
    (content : Content) : Except (Abort × ResultList Addr) (ResultList Addr) := do
  let args ← match content.record with
    | some rec => args.push (decode (.record rec)) (.asRecordDestroy item)
    | none => .ok args
  match content.val with
    | some val => args.push (decode (.value val)) (.asValFree item)
    | none => .ok args

/-- The two branches of the body of the other loop. -/
def destroyItem (args : ResultList Addr) (item : Addr) (content : Content) : ResultList Addr :=
  let args := if content.record.isSome then args.release (.asRecordDestroy item) else args
  if content.val.isSome then args.release (.asValFree item) else args

variable [DecidableEq Addr]

def free (args : ResultList Addr) (item : Addr) : ResultList Addr :=
  { args.release (.free item) with heap := Function.update args.heap item none }

/-- The loop of `set_query_result_and_destroy` and `set_scan_result_and_destroy`, at most `fuel`
times around.  An item which is not allocated cannot be read. -/
def setResultAndDestroyFrom (decode : Streamed → Except Abort RbVal) :
    ℕ → Option Addr → ResultList Addr → Option (Outcome Addr)
  | 0, _, _ => none
  | _ + 1, none, args => some (.ok { args with data := none })
  | fuel + 1, some item, args =>
      match args.heap item with
      | none => some (.error (.nullDeref, args))
      | some cell =>
          match args.pushItem decode item cell.toContent with
          | .error raised => some (.error raised)
          | .ok args =>
              setResultAndDestroyFrom decode fuel cell.next
                ({ args with data := cell.next }.free item)

/-- The loop of `query_result_destroy` and `scan_result_destroy`. -/
def resultDestroyFrom : ℕ → Option Addr → ResultList Addr → Option (Outcome Addr)
  | 0, _, _ => none
  | _ + 1, none, args => some (.ok { args with data := none })
  | fuel + 1, some item, args =>
      match args.heap item with
      | none => some (.error (.nullDeref, args))
      | some cell =>
          resultDestroyFrom fuel cell.next
            ({ args.destroyItem item cell.toContent with data := cell.next }.free item)

end ResultList

/-- What `set_query_result_and_destroy` pushes for a record or a value. -/
def decodeQueried (rt : Runtime) (withHeader : Bool) : Streamed → Except Abort RbVal
  | .record rec => do
      let hash ← record2hash rt rec
      .ok (.hash (StrHash.entries (if withHeader then putHeader rec hash else hash)))
  | .value val => asVal2rbVal rt val

/-- What `set_scan_result_and_destroy` pushes for a record or a value. -/
def decodeScanned (rt : Runtime) : Streamed → Except Abort RbVal
  | .record rec => do
      let hash ← record2hash rt rec
      .ok (.hash (StrHash.entries hash))
  | .value val => asVal2rbVal rt val

section Functions

variable [DecidableEq Addr]

def setQueryResultAndDestroy (rt : Runtime) (withHeader : Bool) (fuel : ℕ)
    (args : ResultList Addr) : Option (Outcome Addr) :=
  args.setResultAndDestroyFrom (decodeQueried rt withHeader) fuel args.data

def setScanResultAndDestroy (rt : Runtime) (fuel : ℕ) (args : ResultList Addr) :
    Option (Outcome Addr) :=
  args.setResultAndDestroyFrom (decodeScanned rt) fuel args.data

/-- `query_result_destroy` and `scan_result_destroy`. -/
def resultDestroy (fuel : ℕ) (args : ResultList Addr) : Option (Outcome Addr) :=
  args.resultDestroyFrom fuel args.data

end Functions

def payloadReleases (item : Addr × Content) : List (Release Addr) :=
  item.2.record.toList.map (fun _ => .asRecordDestroy item.1) ++
    item.2.val.toList.map (fun _ => .asValFree item.1)

def releasesOf (item : Addr × Content) : List (Release Addr) :=
  payloadReleases item ++ [.free item.1]

def ResultList.extend (args : ResultList Addr) (values : List RbVal)
    (releases : List (Release Addr)) : ResultList Addr :=
  { args with result := args.result ++ values, released := args.released ++ releases }

/-- The records and the values of a list of items. -/
abbrev payloadsOf (items : List (Addr × Content)) : List Streamed :=
  items.flatMap fun item => item.2.payloads

/-- The conversions up to the first that fails. -/
def conversions (decode : Streamed → Except Abort RbVal) : List Streamed → List RbVal
  | [] => []
  | payload :: rest =>
      match decode payload with
      | .ok value => value :: conversions decode rest
      | .error _ => []

/-- The items of a complete list. -/
structure Collected (heap : Addr → Option (QueryItem Addr)) (start : Option Addr)
    (items : List (Addr × Content)) : Prop where
  chain : Segment (links heap) start (items.map Prod.fst) none
  contents : ∀ item ∈ items, (heap item.1).map QueryItem.toContent = some item.2

section Loops

variable {decode : Streamed → Except Abort RbVal} {args : ResultList Addr}
  {heap : Addr → Option (QueryItem Addr)} {start : Option Addr}
  {item : Addr × Content} {items : List (Addr × Content)} {fuel : ℕ}

theorem conversions_of_ok {payloads : List Streamed} {values : List RbVal}
    (decoded : ExceptLoop.collect decode payloads = .ok values) :
    conversions decode payloads = values := by
  rw [ExceptLoop.collect_eq_ok] at decoded
  induction decoded with
  | nil => rfl
  | cons converted _ ih => rw [conversions, converted, ih]

theorem conversions_append {payloads payloads' : List Streamed} {values : List RbVal}
    (decoded : ExceptLoop.collect decode payloads = .ok values) :
    conversions decode (payloads ++ payloads') = values ++ conversions decode payloads' := by
  rw [ExceptLoop.collect_eq_ok] at decoded
  induction decoded with
  | nil => rfl
  | cons converted _ ih => rw [List.cons_append, conversions, converted, ih, List.cons_append]

theorem conversions_append_of_error {payloads payloads' : List Streamed} {failure : Abort}
    (failed : ExceptLoop.collect decode payloads = .error failure) :
    conversions decode (payloads ++ payloads') = conversions decode payloads := by
  induction payloads with
  | nil => cases failed
  | cons payload rest ih =>
      rw [List.cons_append, conversions, conversions]
      rcases ExceptLoop.collect_cons_eq_error.mp failed with raised | ⟨value, converted, failed⟩
      · rw [raised]
      · rw [converted]
        simp only [ih failed]

theorem Collected.start_eq (collected : Collected heap start []) : start = none :=
  collected.chain

theorem Collected.read (collected : Collected heap start (item :: items)) :
    start = some item.1 ∧ ∃ cell, heap item.1 = some cell ∧ cell.toContent = item.2 := by
  rcases collected.chain with ⟨begins, _⟩
  have held := collected.contents item List.mem_cons_self
  rw [Option.map_eq_some_iff] at held
  exact ⟨begins, held⟩

theorem Collected.nodup (collected : Collected heap start items) :
    (items.map Prod.fst).Nodup :=
  collected.chain.nodup

theorem pushItem_ok {values : List RbVal}
    (decoded : ExceptLoop.collect decode item.2.payloads = .ok values) :
    args.pushItem decode item.1 item.2 = .ok (args.extend values (payloadReleases item)) := by
  rw [ExceptLoop.collect_eq_ok] at decoded
  rcases item with ⟨addr, _ | rec, _ | val⟩
  · cases decoded
    simp [ResultList.pushItem, ResultList.extend, payloadReleases, bind, Except.bind]
  · rcases decoded with _ | ⟨converted, _ | _⟩
    simp [ResultList.pushItem, ResultList.push, ResultList.extend, ResultList.release,
      payloadReleases, bind, Except.bind, converted]
  · rcases decoded with _ | ⟨converted, _ | _⟩
    simp [ResultList.pushItem, ResultList.push, ResultList.extend, ResultList.release,
      payloadReleases, bind, Except.bind, converted]
  · rcases decoded with _ | ⟨converted, _ | ⟨converted', _ | _⟩⟩
    simp [ResultList.pushItem, ResultList.push, ResultList.extend, ResultList.release,
      payloadReleases, bind, Except.bind, converted, converted']

/-- An item which does not convert is left in place; where it has one payload, nothing of it is
released. -/
theorem pushItem_error {failure : Abort}
    (failed : ExceptLoop.collect decode item.2.payloads = .error failure) :
    ∃ left, args.pushItem decode item.1 item.2 = .error (failure, left) ∧
      left.heap = args.heap ∧ left.data = args.data ∧
      left.result = args.result ++ conversions decode item.2.payloads ∧
      (item.2.payloads.length ≤ 1 → left.released = args.released) := by
  rcases item with ⟨addr, _ | rec, _ | val⟩
  · cases failed
  · rcases ExceptLoop.collect_cons_eq_error.mp failed with raised | ⟨value, _, failed⟩
    · exact ⟨args, by simp [ResultList.pushItem, ResultList.push, raised, bind, Except.bind], rfl,
        rfl, by simp [conversions, Content.payloads, raised], fun _ => rfl⟩
    · cases failed
  · rcases ExceptLoop.collect_cons_eq_error.mp failed with raised | ⟨value, _, failed⟩
    · exact ⟨args, by simp [ResultList.pushItem, ResultList.push, raised, bind, Except.bind], rfl,
        rfl, by simp [conversions, Content.payloads, raised], fun _ => rfl⟩
    · cases failed
  · rcases ExceptLoop.collect_cons_eq_error.mp failed with raised | ⟨value, converted, failed⟩
    · exact ⟨args, by simp [ResultList.pushItem, ResultList.push, raised, bind, Except.bind], rfl,
        rfl, by simp [conversions, Content.payloads, raised], fun _ => rfl⟩
    · rcases ExceptLoop.collect_cons_eq_error.mp failed with raised | ⟨_, _, failed⟩
      · exact ⟨args.extend [value] [.asRecordDestroy addr],
          by simp [ResultList.pushItem, ResultList.push, ResultList.extend, ResultList.release,
            converted, raised, bind, Except.bind], rfl, rfl,
          by simp [conversions, Content.payloads, converted, raised, ResultList.extend],
          by simp [Content.payloads]⟩
      · cases failed

theorem destroyItem_eq :
    args.destroyItem item.1 item.2 = args.extend [] (payloadReleases item) := by
  rcases item with ⟨addr, _ | rec, _ | val⟩ <;>
    simp [ResultList.destroyItem, ResultList.release, ResultList.extend, payloadReleases]

variable [DecidableEq Addr]

theorem chain_free {cell : Addr} (chain : Segment (links heap) start cells none)
    (other : cell ∉ cells) :
    Segment (links (Function.update heap cell none)) start cells none := by
  apply chain.congr
  intro addr member
  have different : addr ≠ cell := by
    rintro rfl
    exact other member
  simp only [links, Function.update_of_ne different]

theorem Collected.free (collected : Collected heap start (item :: items)) {cell : QueryItem Addr}
    (read : heap item.1 = some cell) :
    Collected (Function.update heap item.1 none) cell.next items := by
  have unvisited := (List.nodup_cons.mp collected.nodup).1
  rcases collected.chain with ⟨_, next, linked, chain⟩
  rcases links_eq_some.mp linked with ⟨cell', read', rfl⟩
  rw [read] at read'
  cases read'
  constructor
  · exact chain_free chain unvisited
  · intro other member
    have different : other.1 ≠ item.1 := by
      intro same
      apply unvisited
      rw [← same]
      exact List.mem_map_of_mem member
    rw [Function.update_of_ne different]
    exact collected.contents other (List.mem_cons_of_mem _ member)

/-- Where everything converts, the loop pushes it all and releases the list. -/
theorem setResult_ok (collected : Collected args.heap start items) (enough : items.length < fuel)
    {values : List RbVal} (decoded : ExceptLoop.collect decode (payloadsOf items) = .ok values) :
    ∃ left, args.setResultAndDestroyFrom decode fuel start = some (.ok left) ∧
      left.released = args.released ++ items.flatMap releasesOf ∧
      left.result = args.result ++ values ∧ left.data = none := by
  induction items generalizing start args fuel values with
  | nil =>
      rcases fuel with _ | fuel
      · cases enough
      · rw [collected.start_eq]
        cases decoded
        exact ⟨_, rfl, by simp, by simp, rfl⟩
  | cons item rest ih =>
      rcases fuel with _ | fuel
      · cases enough
      rcases collected.read with ⟨rfl, cell, read, content⟩
      rw [payloadsOf, List.flatMap_cons] at decoded
      rcases ExceptLoop.collect_append_eq_ok.mp decoded with ⟨front, back, first, others, rfl⟩
      have remaining := collected.free read
      rcases @ih (({ args.extend front (payloadReleases item) with
          data := cell.next } : ResultList Addr).free item.1) cell.next fuel remaining
        (by simpa using enough) back others with ⟨left, returned, released, result, data⟩
      refine ⟨left, ?_, ?_, ?_, data⟩
      · simp only [ResultList.setResultAndDestroyFrom, read, content, pushItem_ok first]
        exact returned
      · rw [released]
        simp [ResultList.free, ResultList.release, ResultList.extend, releasesOf]
      · rw [result]
        simp [ResultList.free, ResultList.release, ResultList.extend]

/-- Where something does not convert, the loop raises and leaves the items from there on. -/
theorem setResult_error (collected : Collected args.heap start items)
    (enough : items.length < fuel) (atStart : args.data = start) {failure : Abort}
    (failed : ExceptLoop.collect decode (payloadsOf items) = .error failure) :
    ∃ left taken rest, args.setResultAndDestroyFrom decode fuel start =
        some (.error (failure, left)) ∧
      taken ++ rest = items ∧ Collected left.heap left.data rest ∧
      left.result = args.result ++ conversions decode (payloadsOf items) ∧
      ((∀ item ∈ items, item.2.payloads.length ≤ 1) →
        left.released = args.released ++ taken.flatMap releasesOf) := by
  induction items generalizing start args fuel with
  | nil => cases failed
  | cons item rest ih =>
      rcases fuel with _ | fuel
      · cases enough
      rcases collected.read with ⟨rfl, cell, read, content⟩
      rw [payloadsOf, List.flatMap_cons] at failed ⊢
      rcases ExceptLoop.collect_append_eq_error.mp failed with raised | ⟨front, first, failed⟩
      · rcases @pushItem_error _ decode args item _ raised with
          ⟨left, pushed, heap, data, result, released⟩
        refine ⟨left, [], item :: rest, ?_, rfl, ?_, ?_, ?_⟩
        · simp only [ResultList.setResultAndDestroyFrom, read, content, pushed]
        · rw [heap, data, atStart]
          exact collected
        · rw [conversions_append_of_error raised, result]
        · intro single
          simpa using released (single item List.mem_cons_self)
      · have remaining := collected.free read
        rcases @ih (({ args.extend front (payloadReleases item) with
            data := cell.next } : ResultList Addr).free item.1) cell.next fuel remaining
          (by simpa using enough) rfl failed with
          ⟨left, taken, rest', raised, rfl, collected, result, released⟩
        refine ⟨left, item :: taken, rest', ?_, rfl, collected, ?_, ?_⟩
        · simp only [ResultList.setResultAndDestroyFrom, read, content, pushItem_ok first]
          exact raised
        · rw [result, conversions_append first]
          simp [ResultList.free, ResultList.release, ResultList.extend]
        · intro single
          rw [released fun other member => single other (List.mem_cons_of_mem _ member)]
          simp [ResultList.free, ResultList.release, ResultList.extend, releasesOf]

/-- The other loop releases what is left. -/
theorem resultDestroy_ok (collected : Collected args.heap start items)
    (enough : items.length < fuel) :
    ∃ left, args.resultDestroyFrom fuel start = some (.ok left) ∧
      left.released = args.released ++ items.flatMap releasesOf ∧
      left.result = args.result ∧ left.data = none := by
  induction items generalizing start args fuel with
  | nil =>
      rcases fuel with _ | fuel
      · cases enough
      · rw [collected.start_eq]
        exact ⟨_, rfl, by simp, rfl, rfl⟩
  | cons item rest ih =>
      rcases fuel with _ | fuel
      · cases enough
      rcases collected.read with ⟨rfl, cell, read, content⟩
      have remaining := collected.free read
      rcases @ih (({ args.extend [] (payloadReleases item) with
          data := cell.next } : ResultList Addr).free item.1) cell.next fuel remaining
        (by simpa using enough) with ⟨left, returned, released, result, data⟩
      refine ⟨left, ?_, ?_, ?_, data⟩
      · simp only [ResultList.resultDestroyFrom, read, content, destroyItem_eq]
        exact returned
      · rw [released]
        simp [ResultList.free, ResultList.release, ResultList.extend, releasesOf]
      · rw [result]
        simp [ResultList.free, ResultList.release, ResultList.extend]

end Loops

section Items

variable [DecidableEq Tid] {head : Addr} {state : State Addr Tid}

/-- The items of a list, with the head. -/
abbrev itemsWithHead (head : Addr) (state : State Addr Tid) : List (Addr × Content) :=
  (head, ⟨none, none⟩) :: state.appended.map fun append => (append.item, append.content)

theorem Inv.collected (inv : Inv head state) (free : state.mutex = none) :
    Collected state.heap (some head) (itemsWithHead head state) := by
  constructor
  · have chain := (inv.free free).chain
    simpa [itemsWithHead, Function.comp_def] using chain
  · intro item member
    rcases List.mem_cons.mp member with rfl | member
    · exact inv.headContent
    · rcases List.mem_map.mp member with ⟨append, appended, rfl⟩
      exact inv.contents append appended

end Items

variable [DecidableEq Addr]

/-- What a run of the loop over the appended items comes to: it returns with everything decoded
and pushed, in order, or it raises, and the `ensure` block frees the rest. -/
def Drained (decode : Streamed → Except Abort RbVal) (appended : List (Appended Addr Tid))
    (result : List RbVal) (fuel : ℕ) (outcome : Option (Outcome Addr)) : Prop :=
  match ExceptLoop.collect decode
      ((appended.map Appended.content).flatMap Content.payloads) with
  | .ok values => ∃ heap released, outcome = some (.ok ⟨heap, none, result ++ values, released⟩)
  | .error failure => ∃ left, outcome = some (.error (failure, left)) ∧
      ∃ heap released, resultDestroy fuel left = some (.ok ⟨heap, none, left.result, released⟩)

section Runs

variable [DecidableEq Tid] {head : Addr} {state : State Addr Tid} {fuel : ℕ}

theorem Inv.drained (inv : Inv head state) (free : state.mutex = none)
    (decode : Streamed → Except Abort RbVal) (result : List RbVal)
    (enough : state.appended.length + 1 < fuel) :
    Drained decode state.appended result fuel
      (ResultList.setResultAndDestroyFrom decode fuel (some head)
        ⟨state.heap, some head, result, []⟩) := by
  have collected := inv.collected free
  have long : (itemsWithHead head state).length < fuel := by
    simpa using enough
  have same : (state.appended.map Appended.content).flatMap Content.payloads =
      payloadsOf (itemsWithHead head state) := by
    simp [itemsWithHead, payloadsOf, Content.payloads, List.flatMap_map]
  unfold Drained
  rw [same]
  cases decoded : ExceptLoop.collect decode (payloadsOf (itemsWithHead head state)) with
  | ok values =>
      rcases @setResult_ok _ decode ⟨state.heap, some head, result, []⟩ _ _ _ _ collected long _
        decoded with ⟨⟨heap, _, _, released⟩, returned, _, rfl, rfl⟩
      exact ⟨heap, released, returned⟩
  | error failure =>
      rcases @setResult_error _ decode ⟨state.heap, some head, result, []⟩ _ _ _ _ collected long
        rfl failure decoded with ⟨left, taken, rest, raised, split, remaining, _⟩
      have shorter : rest.length < fuel := by
        rw [← split, List.length_append] at long
        omega
      rcases @resultDestroy_ok _ left left.data rest fuel _ remaining shorter with
        ⟨⟨heap, _, _, released⟩, returned, _, rfl, rfl⟩
      exact ⟨left, raised, heap, released, returned⟩

/-- No record is lost or duplicated.  While the mutex is free the links lead from the head
through the appended items, in the order of their appends, to NULL, and the head knows the last
of them; each item holds its payload, and the payloads of a thread stand in the order of its
calls.  The loops which read the list terminate and push what every item decodes to. -/
theorem collected_once_in_order
    {callback : Option Streamed → Except Abort (Option Content)}
    (reachable : Reachable callback head state) (free : state.mutex = none) :
    Segment (links state.heap) (some head) (head :: itemsOf state.appended) none ∧
      (head :: itemsOf state.appended).Nodup ∧
      (state.heap head).map QueryItem.lastsaved = some (itemsOf state.appended).getLast? ∧
      (∀ append ∈ state.appended,
        (state.heap append.item).map QueryItem.toContent = some append.content) ∧
      (∀ thread, callsOf state.calls thread =
        appendsOf state.appended thread ++ (state.pc thread).content.toList) ∧
      ∀ (rt : Runtime) (withHeader : Bool) (result : List RbVal) (fuel : ℕ),
        state.appended.length + 1 < fuel →
          Drained (decodeQueried rt withHeader) state.appended result fuel
            (setQueryResultAndDestroy rt withHeader fuel ⟨state.heap, some head, result, []⟩) ∧
          Drained (decodeScanned rt) state.appended result fuel
            (setScanResultAndDestroy rt fuel ⟨state.heap, some head, result, []⟩) := by
  have inv := reachable.inv
  have settled := inv.free free
  refine ⟨settled.chain, settled.chain.nodup, settled.tail, inv.contents, inv.ordered, ?_⟩
  intro rt withHeader result fuel enough
  exact ⟨inv.drained free _ result enough, inv.drained free _ result enough⟩

end Runs

/-- Two threads append one value each. -/
theorem collected_once_in_order_sample : ∃ state : State ℕ Bool,
    Reachable (executeUdfOnQueryCallback Runtime.sample) 0 state ∧
      ∃ heap released, setScanResultAndDestroy Runtime.sample 4 ⟨state.heap, some 0, [], []⟩ =
        some (.ok ⟨heap, none, [.integer 7, .integer 8], released⟩) := by
  have start : Reachable (executeUdfOnQueryCallback Runtime.sample) 0
      (⟨fun addr => if addr = 0 then some initQueryItem else none, none, fun _ => .idle, [], []⟩ :
        State ℕ Bool) :=
    .start ⟨rfl, rfl, fun _ => rfl, rfl, rfl⟩
  have first := Reachable.call start false (some (.value (.integer 7))) _ 1 7 rfl rfl rfl rfl
  have second := Reachable.call first true (some (.value (.integer 8))) _ 2 8 rfl rfl rfl rfl
  refine ⟨_, second, ?_⟩
  exact ((collected_once_in_order second rfl).2.2.2.2.2 Runtime.sample false [] 4 (by decide)).2

end AerospikeCRuby.QueryItems
