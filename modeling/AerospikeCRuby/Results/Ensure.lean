import AerospikeCRuby.Results.Drain
import AerospikeCRuby.Client.Lifecycle

/-!
# Releasing the collected list

`Client#query` and `Client#scan` read the collected list in a function which
`rb_ensure` runs together with another that releases what is left.
-/

namespace AerospikeCRuby.QueryItems

open LinkedCells

variable {Addr : Type*}

namespace ResultList

variable [DecidableEq Addr]

/-- The begin functions, after a foreach call which failed or not. -/
def begin_ (decode : Streamed → Except Abort RbVal) (foreachFails : Bool) (fuel : ℕ)
    (args : ResultList Addr) : Option (Outcome Addr) :=
  if foreachFails then some (.error (asError, args))
  else setResultAndDestroyFrom decode fuel args.data args

/-- The ensure functions. -/
def ensure_ (fuel : ℕ) (args : ResultList Addr) : Option (Outcome Addr) :=
  resultDestroyFrom fuel args.data (args.release .destroy)

end ResultList

/-- `rb_ensure`.  A read through NULL ends the process, so nothing runs after it. -/
def rbEnsure (begin_ ensure_ : ResultList Addr → Option (Outcome Addr))
    (args : ResultList Addr) : Option (Outcome Addr) :=
  match begin_ args with
  | none => none
  | some (.ok args) => ensure_ args
  | some (.error (failure, args)) =>
      if failure = .nullDeref then some (.error (failure, args))
      else match ensure_ args with
        | some (.ok args) => some (.error (failure, args))
        | outcome => outcome

section Functions

variable [DecidableEq Addr]

def executeQueryBegin (rt : Runtime) (withHeader foreachFails : Bool) (fuel : ℕ)
    (args : ResultList Addr) : Option (Outcome Addr) :=
  args.begin_ (decodeQueried rt withHeader) foreachFails fuel

def executeQueryEnsure (fuel : ℕ) (args : ResultList Addr) : Option (Outcome Addr) :=
  args.ensure_ fuel

def scanRecordsBegin (rt : Runtime) (foreachFails : Bool) (fuel : ℕ) (args : ResultList Addr) :
    Option (Outcome Addr) :=
  args.begin_ (decodeScanned rt) foreachFails fuel

def scanRecordsEnsure (fuel : ℕ) (args : ResultList Addr) : Option (Outcome Addr) :=
  args.ensure_ fuel

/-- The `rb_ensure` call of `execute_query`. -/
def executeQuery (rt : Runtime) (withHeader foreachFails : Bool) (fuel : ℕ) :
    ResultList Addr → Option (Outcome Addr) :=
  rbEnsure (executeQueryBegin rt withHeader foreachFails fuel) (executeQueryEnsure fuel)

/-- The `rb_ensure` call of `scan_records`. -/
def scanRecords (rt : Runtime) (foreachFails : Bool) (fuel : ℕ) :
    ResultList Addr → Option (Outcome Addr) :=
  rbEnsure (scanRecordsBegin rt foreachFails fuel) (scanRecordsEnsure fuel)

end Functions

section Counts

variable [DecidableEq Addr]

/-- Every record, value and item is released once, and so is the query or scan; nothing else
is released. -/
structure ReleasedOnce (items : List (Addr × Content)) (released : List (Release Addr)) :
    Prop where
  destroy : released.count .destroy = 1
  records : ∀ item ∈ items, item.2.record.isSome → released.count (.asRecordDestroy item.1) = 1
  values : ∀ item ∈ items, item.2.val.isSome → released.count (.asValFree item.1) = 1
  freed : ∀ item ∈ items, released.count (.free item.1) = 1
  nothingElse : ∀ release ∈ released,
    release = .destroy ∨ ∃ item ∈ items, release ∈ releasesOf item

variable {items : List (Addr × Content)} {released : List (Release Addr)}

omit [DecidableEq Addr] in
theorem mem_releasesOf_cases {item : Addr × Content} {release : Release Addr}
    (member : release ∈ releasesOf item) :
    release = .asRecordDestroy item.1 ∨ release = .asValFree item.1 ∨ release = .free item.1 := by
  simp only [releasesOf, payloadReleases, List.mem_append, List.mem_map, List.mem_singleton]
    at member
  rcases member with (⟨_, _, rfl⟩ | ⟨_, _, rfl⟩) | rfl
  · exact .inl rfl
  · exact .inr (.inl rfl)
  · exact .inr (.inr rfl)

omit [DecidableEq Addr] in
theorem nodup_releases (nodup : (items.map Prod.fst).Nodup) :
    (Release.destroy :: items.flatMap releasesOf).Nodup := by
  rw [List.nodup_cons, List.nodup_flatMap]
  refine ⟨?_, ?_, ?_⟩
  · simp [releasesOf, payloadReleases]
  · rintro ⟨addr, _ | rec, _ | val⟩ _ <;> simp [releasesOf, payloadReleases]
  · rw [List.Nodup, List.pairwise_map] at nodup
    apply nodup.imp
    intro item other different
    simp only [Function.onFun, List.disjoint_left]
    intro release here there
    apply different
    rcases mem_releasesOf_cases here with rfl | rfl | rfl <;>
      simpa using mem_releasesOf_cases there

theorem releasedOnce_of_perm (nodup : (items.map Prod.fst).Nodup)
    (all : released.Perm (.destroy :: items.flatMap releasesOf)) :
    ReleasedOnce items released := by
  have once := all.nodup_iff.mpr (nodup_releases nodup)
  have here : ∀ item ∈ items, ∀ release ∈ releasesOf item, released.count release = 1 := by
    intro item member release made
    apply List.count_eq_one_of_mem once
    apply all.mem_iff.mpr
    exact List.mem_cons_of_mem _ (List.mem_flatMap.mpr ⟨item, member, made⟩)
  constructor
  · exact List.count_eq_one_of_mem once (all.mem_iff.mpr List.mem_cons_self)
  · intro item member stored
    apply here item member
    rcases Option.isSome_iff_exists.mp stored with ⟨rec, stored⟩
    simp [releasesOf, payloadReleases, stored]
  · intro item member stored
    apply here item member
    rcases Option.isSome_iff_exists.mp stored with ⟨val, stored⟩
    simp [releasesOf, payloadReleases, stored]
  · intro item member
    apply here item member
    simp [releasesOf]
  · intro release made
    rcases List.mem_cons.mp (all.mem_iff.mp made) with same | found
    · left
      exact same
    · right
      exact List.mem_flatMap.mp found

end Counts

section Runs

variable [DecidableEq Addr]

/-- How reading the collected items ends. -/
def readItems (decode : Streamed → Except Abort RbVal) (foreachFails : Bool)
    (items : List (Addr × Content)) : Except Abort (List RbVal) :=
  if foreachFails then .error asError else ExceptLoop.collect decode (payloadsOf items)

/-- The run ends as reading the items does, with everything released, and with the conversions
before the first that fails. -/
def Released (decode : Streamed → Except Abort RbVal) (foreachFails : Bool)
    (items : List (Addr × Content)) (outcome : Option (Outcome Addr)) : Prop :=
  ∃ left, outcome = some (match readItems decode foreachFails items with
      | .ok _ => .ok left
      | .error failure => .error (failure, left)) ∧
    ReleasedOnce items left.released ∧ left.data = none ∧
    left.result = if foreachFails then [] else conversions decode (payloadsOf items)

variable {decode : Streamed → Except Abort RbVal} {args : ResultList Addr}
  {heap : Addr → Option (QueryItem Addr)} {items : List (Addr × Content)} {fuel : ℕ}

/-- What the ensure function does after the begin function has released some of the items. -/
theorem ensure_ok {taken rest : List (Addr × Content)}
    (collected : Collected args.heap args.data rest) (enough : rest.length < fuel)
    (released : args.released = taken.flatMap releasesOf)
    (nodup : ((taken ++ rest).map Prod.fst).Nodup) :
    ∃ left, args.ensure_ fuel = some (.ok left) ∧
      ReleasedOnce (taken ++ rest) left.released ∧ left.data = none ∧
      left.result = args.result := by
  rcases @resultDestroy_ok _ (args.release .destroy) args.data rest fuel _ collected enough with
    ⟨left, returned, released', result, data⟩
  refine ⟨left, returned, ?_, data, result⟩
  apply releasedOnce_of_perm nodup
  rw [released', List.flatMap_append, ResultList.release, released, List.append_assoc]
  exact List.perm_middle

theorem released_of_collected {head : Option Addr} (foreachFails : Bool)
    (collected : Collected heap head items)
    (single : ∀ item ∈ items, item.2.payloads.length ≤ 1)
    (raises : readItems decode foreachFails items ≠ .error .nullDeref)
    (enough : items.length < fuel) :
    Released decode foreachFails items
      (rbEnsure (fun args => args.begin_ decode foreachFails fuel) (fun args => args.ensure_ fuel)
        ⟨heap, head, [], []⟩) := by
  cases foreachFails with
  | true =>
      rcases @ensure_ok _ _ ⟨heap, head, [], []⟩ fuel [] items collected enough rfl
        collected.nodup with ⟨left, returned, once, data, result⟩
      refine ⟨left, ?_, once, data, result⟩
      simp only [rbEnsure, ResultList.begin_, if_true, readItems, returned]
      rfl
  | false =>
      unfold Released readItems
      unfold readItems at raises
      simp only [Bool.false_eq_true, if_false] at raises ⊢
      cases decoded : ExceptLoop.collect decode (payloadsOf items) with
      | ok values =>
          rcases @setResult_ok _ decode ⟨heap, head, [], []⟩ _ _ _ _ collected enough _ decoded
            with ⟨mid, drained, released, result, data⟩
          have none_ : Collected mid.heap mid.data [] := by
            rw [data]
            exact ⟨rfl, by simp⟩
          rcases @ensure_ok _ _ mid fuel items [] none_ (Nat.zero_lt_of_lt enough)
            (by simpa using released) (by simpa using collected.nodup) with
            ⟨left, returned, once, data', result'⟩
          refine ⟨left, ?_, by simpa using once, data', ?_⟩
          · simp only [rbEnsure, ResultList.begin_, Bool.false_eq_true, if_false, drained, returned]
          · rw [result', result, conversions_of_ok decoded]
            rfl
      | error failure =>
          rcases @setResult_error _ decode ⟨heap, head, [], []⟩ _ _ _ _ collected enough rfl
            failure decoded with ⟨mid, taken, rest, raised, rfl, remaining, result, released⟩
          have shorter : rest.length < fuel := by
            rw [List.length_append] at enough
            omega
          have prefixed : mid.released = taken.flatMap releasesOf := by
            simpa using released single
          rcases @ensure_ok _ _ mid fuel taken rest remaining shorter prefixed collected.nodup with
            ⟨left, returned, once, data, result'⟩
          have survives : failure ≠ .nullDeref := by
            rintro rfl
            exact raises decoded
          refine ⟨left, ?_, once, data, ?_⟩
          · simp only [rbEnsure, ResultList.begin_, Bool.false_eq_true, if_false, raised, survives,
              returned]
          · rw [result', result]
            rfl

/-- A query or a scan releases everything it collected once, whether the foreach call fails, a
conversion raises or all goes well, and its result holds the conversions before the failure. -/
theorem collected_released_once (rt : Runtime) (withHeader foreachFails : Bool) {head : Addr}
    (collected : Collected heap (some head) ((head, ⟨none, none⟩) :: items))
    (single : ∀ item ∈ items, item.2.record.isSome = !item.2.val.isSome)
    (enough : items.length + 1 < fuel) :
    (readItems (decodeQueried rt withHeader) foreachFails items ≠ .error .nullDeref →
      Released (decodeQueried rt withHeader) foreachFails ((head, ⟨none, none⟩) :: items)
        (executeQuery rt withHeader foreachFails fuel ⟨heap, some head, [], []⟩)) ∧
    (readItems (decodeScanned rt) foreachFails items ≠ .error .nullDeref →
      Released (decodeScanned rt) foreachFails ((head, ⟨none, none⟩) :: items)
        (scanRecords rt foreachFails fuel ⟨heap, some head, [], []⟩)) := by
  have short : ∀ item ∈ (head, ⟨none, none⟩) :: items, item.2.payloads.length ≤ 1 := by
    intro item member
    rcases List.mem_cons.mp member with rfl | member
    · simp [Content.payloads]
    · have one := single item member
      rcases item with ⟨addr, _ | rec, _ | val⟩ <;> simp [Content.payloads] at one ⊢
  constructor
  · intro raises
    exact released_of_collected foreachFails collected short raises enough
  · intro raises
    exact released_of_collected foreachFails collected short raises enough

/-- The second of two values does not load. -/
theorem collected_released_once_sample :
    readItems (decodeScanned .sample) false
        [(1, ⟨none, some (.integer 7)⟩), (2, ⟨none, some (.bytes .ruby [4, 8])⟩)] =
      .error (.raised "TypeError") ∧
    Released (decodeScanned .sample) false
      [(0, ⟨none, none⟩), (1, ⟨none, some (.integer 7)⟩), (2, ⟨none, some (.bytes .ruby [4, 8])⟩)]
      (scanRecords .sample false 4 ⟨fun addr => match addr with
          | 0 => some ⟨⟨none, none⟩, some 1, some 2⟩
          | 1 => some ⟨⟨none, some (.integer 7)⟩, some 2, none⟩
          | 2 => some ⟨⟨none, some (.bytes .ruby [4, 8])⟩, none, none⟩
          | _ => none, some 0, [], []⟩) := by
  refine ⟨rfl, ?_⟩
  apply (collected_released_once .sample false false ?_ ?_ ?_).2
  · intro crashed
    cases crashed
  · constructor
    · exact ⟨rfl, _, rfl, rfl, _, rfl, rfl, _, rfl, rfl⟩
    · simp
  · simp
  · decide

end Runs

section Callbacks

variable {Tid : Type*} [DecidableEq Addr] [DecidableEq Tid] {head : Addr}
  {state next : State Addr Tid} {callback : Option Streamed → Except Abort (Option Content)}

theorem calls_of_advance {thread : Tid} (advanced : state.advance head thread = some next) :
    next.calls = state.calls := by
  have loads : ∀ target continue_,
      (state.load thread target continue_).calls = state.calls := by
    intro target continue_
    rw [State.load]
    cases state.heap target <;> rfl
  have stores : ∀ target change pc, (state.store thread target change pc).calls = state.calls := by
    intro target change pc
    rcases target with _ | target
    · rfl
    · rw [State.store]
      cases state.heap target <;> rfl
  rw [State.advance] at advanced
  split at advanced
  case h_3 =>
    split at advanced
    · cases advanced
    · cases advanced
      rfl
  all_goals
    cases advanced <;> first | exact loads _ _ | exact stores _ _ _ | rfl

/-- Every payload on its way into the list was made by the callback. -/
theorem Reachable.filled (reachable : Reachable callback head state) :
    ∀ call ∈ state.calls, ∃ delivered, callback delivered = .ok (some call.2) := by
  apply reachable.invariant
  · intro state initial call member
    rw [initial.calls] at member
    cases member
  · intro state next filled step call member
    cases step with
    | call idle made =>
        rcases List.mem_append.mp member with before | here
        · exact filled call before
        · cases List.mem_singleton.mp here
          exact ⟨_, made⟩
    | malloc allocating unused => exact filled call member
    | advance advanced =>
        rw [calls_of_advance advanced] at member
        exact filled call member

/-- Whatever the threads have appended is released once. -/
theorem Reachable.released {decode : Streamed → Except Abort RbVal} {foreachFails : Bool}
    {fuel : ℕ} (reachable : Reachable callback head state) (free : state.mutex = none)
    (single : ∀ delivered content, callback delivered = .ok (some content) →
      content.payloads.length ≤ 1)
    (raises : readItems decode foreachFails (itemsWithHead head state) ≠ .error .nullDeref)
    (enough : (itemsWithHead head state).length < fuel) :
    Released decode foreachFails (itemsWithHead head state)
      (rbEnsure (fun args => args.begin_ decode foreachFails fuel) (fun args => args.ensure_ fuel)
        ⟨state.heap, some head, [], []⟩) := by
  apply released_of_collected foreachFails (reachable.inv.collected free) ?_ raises enough
  intro item member
  rcases List.mem_cons.mp member with rfl | member
  · simp [Content.payloads]
  · rcases List.mem_map.mp member with ⟨append, appended, rfl⟩
    have called : append.content ∈ callsOf state.calls append.thread := by
      rw [reachable.inv.ordered append.thread]
      apply List.mem_append_left
      exact List.mem_map.mpr ⟨append, by simpa using appended, rfl⟩
    rcases List.mem_map.mp called with ⟨call, made, same⟩
    rcases reachable.filled call (List.mem_of_mem_filter made) with ⟨delivered, filled⟩
    apply single delivered
    rw [filled, same]

theorem executeQueryCallback_single {rt : Runtime} {delivered : Option Streamed}
    {content : Content} (filled : executeQueryCallback rt delivered = .ok (some content)) :
    content.payloads.length ≤ 1 := by
  rcases delivered with _ | rec | val
  · cases filled
  · rcases ExceptLoop.bind_eq_ok.mp filled with ⟨copy, _, same⟩
    cases same
    simp [Content.payloads]
  · cases filled

theorem executeUdfOnQueryCallback_single {rt : Runtime} {delivered : Option Streamed}
    {content : Content} (filled : executeUdfOnQueryCallback rt delivered = .ok (some content)) :
    content.payloads.length ≤ 1 := by
  rcases delivered with _ | rec | val
  · cases filled
  · rcases ExceptLoop.bind_eq_ok.mp filled with ⟨copy, _, same⟩
    cases same
    simp [Content.payloads]
  · cases filled
    simp [Content.payloads]

end Callbacks

end AerospikeCRuby.QueryItems
