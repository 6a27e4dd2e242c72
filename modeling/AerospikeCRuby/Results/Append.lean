import AerospikeCRuby.Codec.Copy
import AerospikeCRuby.Library.LinkedCells
import AerospikeCRuby.Library.Transition

/-!
# Collecting records from many threads

`Client#scan` and `Client#query` keep what the C client hands to their callback
in a linked list.  The callback runs on several threads: each allocates and
fills an item of its own, and `set_query_item_next` appends the item under a
mutex.  The tail is kept in the `lastsaved` of the head.

A step is one access to shared memory by one thread.  The list of appended items
is not part of the program: it grows where the mutex is taken.
-/

namespace AerospikeCRuby.QueryItems

/-- What the C client hands to a callback; at the end of the stream it is NULL. -/
inductive Streamed where
  | record (rec : AsRecord)
  | value (val : AsVal)

/-- The payload of an item. -/
structure Content where
  record : Option AsRecord
  val : Option AsVal

/-- `scan_records_callback` and `execute_udf_on_query_callback` up to the append: the payload
of the new item, if there is one. -/
def executeUdfOnQueryCallback (rt : Runtime) : Option Streamed → Except Abort (Option Content)
  | none => .ok none
  | some (.record rec) => do
      let copy ← rbCopyAsRecord rt rec
      .ok (some ⟨some copy, none⟩)
  | some (.value val) => .ok (some ⟨none, some val⟩)

/-- `execute_query_callback` up to the append; `as_rec_fromval` is NULL on a plain value. -/
def executeQueryCallback (rt : Runtime) : Option Streamed → Except Abort (Option Content)
  | none => .ok none
  | some (.record rec) => do
      let copy ← rbCopyAsRecord rt rec
      .ok (some ⟨some copy, none⟩)
  | some (.value _) => .error .nullDeref

/-- A `query_item`. -/
structure QueryItem (Addr : Type*) extends Content where
  next : Option Addr
  lastsaved : Option Addr

variable {Addr Tid : Type*}

def initQueryItem : QueryItem Addr where
  next := none
  lastsaved := none
  record := none
  val := none

/-- Where a thread stands in its callback. -/
inductive Pc (Addr : Type*) where
  | idle
  | malloc (content : Content)
  | init (newItem : Addr) (content : Content)
  | fill (newItem : Addr) (content : Content)
  /-- At `pthread_mutex_lock`. -/
  | lock (newItem : Addr) (content : Content)
  /-- At the test of `item->next`. -/
  | testNext (newItem : Addr)
  /-- At the store to `item->next`. -/
  | setNext (newItem : Addr)
  /-- At the read of `item->lastsaved`. -/
  | loadLastsaved (newItem : Addr)
  /-- At the store to `item->lastsaved->next`. -/
  | setLastsavedNext (newItem : Addr) (lastsaved : Option Addr)
  /-- At the store to `item->lastsaved`. -/
  | setLastsaved (newItem : Addr)
  | unlock
  /-- Memory which is not allocated was accessed. -/
  | faulted

/-- One append, as the owner of the mutex makes it. -/
structure Appended (Addr Tid : Type*) where
  thread : Tid
  item : Addr
  content : Content

structure State (Addr Tid : Type*) where
  heap : Addr → Option (QueryItem Addr)
  mutex : Option Tid
  pc : Tid → Pc Addr
  /-- The invocations of the callback, in the order in which they begin. -/
  calls : List (Tid × Content)
  /-- The appends, in the order in which they take the mutex. -/
  appended : List (Appended Addr Tid)

variable [DecidableEq Addr] [DecidableEq Tid]

namespace State

def goto (state : State Addr Tid) (thread : Tid) (pc : Pc Addr) : State Addr Tid :=
  { state with pc := Function.update state.pc thread pc }

/-- Read an item and continue with what it holds. -/
def load (state : State Addr Tid) (thread : Tid) (target : Addr)
    (continue_ : QueryItem Addr → Pc Addr) : State Addr Tid :=
  match state.heap target with
  | none => state.goto thread .faulted
  | some item => state.goto thread (continue_ item)

/-- Change an item and continue. -/
def store (state : State Addr Tid) (thread : Tid) (target : Option Addr)
    (change : QueryItem Addr → QueryItem Addr) (continue_ : Pc Addr) : State Addr Tid :=
  match target with
  | none => state.goto thread .faulted
  | some target =>
      match state.heap target with
      | none => state.goto thread .faulted
      | some item =>
          ({ state with heap := Function.update state.heap target (some (change item)) }).goto
            thread continue_

/-- The next access of a thread inside its callback, once its item is allocated; from
`pthread_mutex_lock` on it is `set_query_item_next`. -/
def advance (head : Addr) (state : State Addr Tid) (thread : Tid) : Option (State Addr Tid) :=
  match state.pc thread with
  | .init newItem content =>
      some (state.store thread (some newItem) (fun _ => initQueryItem) (.fill newItem content))
  | .fill newItem content =>
      some (state.store thread (some newItem)
        (fun item => { item with toContent := content }) (.lock newItem content))
  | .lock newItem content =>
      match state.mutex with
      | some _ => none
      | none =>
          some (({ state with
            mutex := some thread
            appended := state.appended ++ [Appended.mk thread newItem content] }).goto
              thread (.testNext newItem))
  | .testNext newItem =>
      some (state.load thread head fun item =>
        if item.next.isNone then .setNext newItem else .loadLastsaved newItem)
  | .setNext newItem =>
      some (state.store thread (some head)
        (fun item => { item with next := some newItem }) (.setLastsaved newItem))
  | .loadLastsaved newItem =>
      some (state.load thread head fun item => .setLastsavedNext newItem item.lastsaved)
  | .setLastsavedNext newItem lastsaved =>
      some (state.store thread lastsaved
        (fun item => { item with next := some newItem }) (.setLastsaved newItem))
  | .setLastsaved newItem =>
      some (state.store thread (some head)
        (fun item => { item with lastsaved := some newItem }) .unlock)
  | .unlock => some (({ state with mutex := none }).goto thread .idle)
  | .idle | .malloc _ | .faulted => none

end State

/-- The head is allocated and initialised before the callbacks start. -/
structure Initial (head : Addr) (state : State Addr Tid) : Prop where
  allocated : state.heap head = some initQueryItem
  mutex : state.mutex = none
  pc : ∀ thread, state.pc thread = .idle
  calls : state.calls = []
  appended : state.appended = []

/-- A step of one thread.  `malloc` returns any address not in use, with any contents. -/
inductive Step (callback : Option Streamed → Except Abort (Option Content)) (head : Addr) :
    State Addr Tid → State Addr Tid → Prop where
  | call {state : State Addr Tid} {thread : Tid} {delivered : Option Streamed}
      {content : Content} (idle : state.pc thread = .idle)
      (filled : callback delivered = .ok (some content)) :
      Step callback head state
        (({ state with calls := state.calls ++ [(thread, content)] }).goto
          thread (.malloc content))
  | malloc {state : State Addr Tid} {thread : Tid} {content : Content} {newItem : Addr}
      {garbage : QueryItem Addr} (allocating : state.pc thread = .malloc content)
      (unused : state.heap newItem = none) :
      Step callback head state
        (({ state with heap := Function.update state.heap newItem (some garbage) }).goto
          thread (.init newItem content))
  | advance {state next : State Addr Tid} {thread : Tid}
      (advanced : state.advance head thread = some next) : Step callback head state next

/-- The states of any run from an initial state. -/
abbrev Reachable (callback : Option Streamed → Except Abort (Option Content)) (head : Addr)
    (state : State Addr Tid) : Prop :=
  Transition.Reachable (Initial head) (Step callback head) state

end AerospikeCRuby.QueryItems
