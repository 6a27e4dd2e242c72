import AerospikeCRuby.Codec.BufferedRead
import AerospikeCRuby.Library.Interleaving
import AerospikeCRuby.Results.Ensure

/-!
# Buffered calls and calls with a block

`Client#scan` and `Client#query` collect copies of the records and convert them
when all have come; `Client#scan_each` and `Client#query_each` convert each
record as it comes, for the block.  Whatever the threads of the C client do in
between, both show the same Hashes, and those of one thread in the order in
which it brings the records.
-/

namespace AerospikeCRuby.QueryItems

open Interleaving

variable {Addr Tid : Type*}

/-- A call that answers an Array of records. -/
inductive BufferedCall where
  | scanRecords
  | executeQuery

namespace BufferedCall

def callback (rt : Runtime) : BufferedCall → Option Streamed → Except Abort (Option Content)
  | scanRecords => executeUdfOnQueryCallback rt
  | executeQuery => executeQueryCallback rt

/-- What the call does once all is collected. -/
def finish [DecidableEq Addr] (rt : Runtime) (fuel : ℕ) :
    BufferedCall → ResultList Addr → Option (Outcome Addr)
  | scanRecords => QueryItems.scanRecords rt false fuel
  | executeQuery => QueryItems.executeQuery rt false false fuel

end BufferedCall

/-- The argument of the block in `scan_each_callback` and `execute_query_each_callback`. -/
def eachArgument (rt : Runtime) (rec : AsRecord) : Except Abort RbVal := do
  let hash ← record2hash rt rec
  .ok (.hash hash.entries)

/-- The arguments of the block when the records come one after the other. -/
def eachArguments (rt : Runtime) (recs : List AsRecord) : Except Abort (List RbVal) :=
  ExceptLoop.collect (eachArgument rt) recs

/-- The records which each thread was handed went into its calls. -/
def Received [DecidableEq Tid] (callback : Option Streamed → Except Abort (Option Content))
    (streams : Tid → List AsRecord) (state : State Addr Tid) : Prop :=
  ∀ thread, List.Forall₂
    (fun rec content => callback (some (.record rec)) = .ok (some content))
    (streams thread) (callsOf state.calls thread)

theorem decodeQueried_false (rt : Runtime) : decodeQueried rt false = decodeScanned rt := by
  funext streamed
  cases streamed <;> rfl

theorem BufferedCall.finish_eq [DecidableEq Addr] (call : BufferedCall) (rt : Runtime)
    (fuel : ℕ) (args : ResultList Addr) :
    call.finish rt fuel args =
      rbEnsure (fun args => args.begin_ (decodeScanned rt) false fuel)
        (fun args => args.ensure_ fuel) args := by
  cases call with
  | scanRecords => rfl
  | executeQuery =>
      rw [← decodeQueried_false]
      rfl

theorem BufferedCall.callback_record {call : BufferedCall} {rt : Runtime} {rec : AsRecord}
    {content : Content} (filled : call.callback rt (some (.record rec)) = .ok (some content)) :
    ∃ copy, rbCopyAsRecord rt rec = .ok copy ∧ content = ⟨some copy, none⟩ := by
  have copied : (do
      let copy ← rbCopyAsRecord rt rec
      .ok (some (Content.mk (some copy) none))) = Except.ok (some content) := by
    cases call <;> exact filled
  rcases ExceptLoop.bind_eq_ok.mp copied with ⟨copy, made, same⟩
  exact ⟨copy, made, (Option.some.inj (Except.ok.inj same)).symm⟩

theorem BufferedCall.callback_single {call : BufferedCall} {rt : Runtime}
    {delivered : Option Streamed} {content : Content}
    (filled : call.callback rt delivered = .ok (some content)) :
    content.payloads.length ≤ 1 := by
  cases call with
  | scanRecords => exact executeUdfOnQueryCallback_single filled
  | executeQuery => exact executeQueryCallback_single filled

/-- The bins hold what the server delivers, and nothing that a copy loses. -/
def Clear (rt : Runtime) (rec : AsRecord) : Prop :=
  ∀ bin ∈ rec.bins, Delivered bin.2 ∧ (bin.2 = .nil ∨ Faithful rt bin.2)

theorem Clear.reads {rt : Runtime} {rec copy : AsRecord} (clear : Clear rt rec)
    (made : rbCopyAsRecord rt rec = .ok copy) :
    ∃ value shown, decodeScanned rt (.record copy) = .ok value ∧
      eachArgument rt rec = .ok shown ∧ RbVal.Same value shown := by
  rcases reads_of_faithful (fun bin member => (clear bin member).1)
    (fun bin member => (clear bin member).2) with
    ⟨copy', val, val', made', _, _, readCopy, read, same⟩
  cases made.symm.trans made'
  have alike : RbVal.Same (.hash (StrHash.entries (rec.bins.map fun bin => (bin.1, val bin))))
      (.hash (StrHash.entries (rec.bins.map fun bin => (bin.1, val' bin)))) := by
    refine same_entries ?_ (List.Perm.refl _)
    rw [List.forall₂_map_left_iff, List.forall₂_map_right_iff, List.forall₂_same]
    exact fun bin member => ⟨rfl, (same bin member).2⟩
  refine ⟨_, _, ?_, ?_, alike⟩
  · rw [decodeScanned, readCopy]
    rfl
  · rw [eachArgument, read]
    rfl

/-- What the items decode to, item by item, beside what the block is called with. -/
theorem reads_of_aligned {call : BufferedCall} {rt : Runtime} {sources : List (Tid × AsRecord)}
    {images : List (Tid × Content)}
    (aligned : List.Forall₂ (fun source image => source.1 = image.1 ∧
      call.callback rt (some (.record source.2)) = .ok (some image.2)) sources images)
    (clear : ∀ source ∈ sources, Clear rt source.2) :
    ∃ values shown, ExceptLoop.collect (decodeScanned rt)
        ((images.map Prod.snd).flatMap Content.payloads) = .ok values ∧
      eachArguments rt (sources.map Prod.snd) = .ok shown ∧
      List.Forall₂ RbVal.Same values shown := by
  induction aligned with
  | nil => exact ⟨[], [], rfl, rfl, .nil⟩
  | @cons source image sources images filled aligned ih =>
      rcases BufferedCall.callback_record filled.2 with ⟨copy, made, content⟩
      rcases (clear source List.mem_cons_self).reads made with
        ⟨value, argument, decoded, read, same⟩
      rcases ih fun source member => clear source (List.mem_cons_of_mem _ member) with
        ⟨values, shown, decodedAll, readAll, sameAll⟩
      refine ⟨value :: values, argument :: shown, ?_, ?_, .cons same sameAll⟩
      · simp only [List.map_cons, List.flatMap_cons, content, Content.payloads, Option.toList_some,
          Option.toList_none, List.map_nil, List.append_nil, List.singleton_append,
          ExceptLoop.collect, decoded, ExceptLoop.bind_eq_ok]
        exact ⟨value, rfl, values, decodedAll, rfl⟩
      · simp only [eachArguments, List.map_cons, ExceptLoop.collect, read, ExceptLoop.bind_eq_ok]
        exact ⟨argument, rfl, shown, readAll, rfl⟩

section Runs

variable [DecidableEq Addr] [DecidableEq Tid] {head : Addr} {state : State Addr Tid}

omit [DecidableEq Addr] in
theorem Inv.free_of_idle (inv : Inv head state) (idle : ∀ thread, state.pc thread = .idle) :
    state.mutex = none := by
  cases owner : state.mutex with
  | none => rfl
  | some thread =>
      have inside := inv.inside thread owner
      rw [idle thread] at inside
      exact inside.elim

omit [DecidableEq Addr] in
/-- Every thread has appended what it was called with. -/
theorem Inv.project_appended (inv : Inv head state) (idle : ∀ thread, state.pc thread = .idle)
    (thread : Tid) :
    project thread (state.appended.map fun append => (append.thread, append.content)) =
      callsOf state.calls thread := by
  rw [inv.ordered thread, idle thread]
  simp [project, appendsOf, Pc.content, List.filter_map, Function.comp_def]

/-- The call answers what the records read as, those of each thread in the order of its stream. -/
theorem BufferedCall.collects (rt : Runtime) (call : BufferedCall)
    {streams : Tid → List AsRecord} (clear : ∀ thread, ∀ rec ∈ streams thread, Clear rt rec)
    (reachable : Reachable (call.callback rt) head state)
    (received : Received (call.callback rt) streams state)
    (idle : ∀ thread, state.pc thread = .idle) {fuel : ℕ}
    (enough : state.appended.length + 1 < fuel) :
    ∃ left collected shown,
      call.finish rt fuel ⟨state.heap, some head, [], []⟩ = some (.ok left) ∧
      IsInterleaving streams collected ∧ eachArguments rt (collected.map Prod.snd) = .ok shown ∧
      List.Forall₂ RbVal.Same left.result shown ∧
      ReleasedOnce (itemsWithHead head state) left.released := by
  have inv := reachable.inv
  have images : ∀ thread, List.Forall₂
      (fun rec content => call.callback rt (some (.record rec)) = .ok (some content))
      (streams thread)
      (project thread (state.appended.map fun append => (append.thread, append.content))) := by
    intro thread
    rw [inv.project_appended idle thread]
    exact received thread
  rcases exists_interleaving images with ⟨collected, whole, aligned⟩
  rcases reads_of_aligned aligned fun source member => clear _ _ (whole.mem member) with
    ⟨values, shown, decoded, read, same⟩
  have decodedItems :
      readItems (decodeScanned rt) false (itemsWithHead head state) = .ok values := by
    rw [← decoded]
    simp [readItems, itemsWithHead, payloadsOf, Content.payloads, List.flatMap_map]
  have released := @Reachable.released _ _ _ _ _ _ _ (decodeScanned rt) false fuel reachable
    (inv.free_of_idle idle) (fun _ _ => BufferedCall.callback_single)
    (by rw [decodedItems]; rintro ⟨⟩) (by simpa using enough)
  rcases released with ⟨left, returned, once, _, result⟩
  rw [decodedItems] at returned
  refine ⟨left, collected, shown, ?_, whole, read, ?_, once⟩
  · rw [call.finish_eq]
    exact returned
  · have conversions : left.result = values := by
      rw [result]
      exact conversions_of_ok decodedItems
    rwa [conversions]

/-- Let the threads have handed on the same streams of records to a buffered call and, in any
order, to a block.  Where no bin holds what a copy loses, the call answers, up to the order, what
the block is called with, and those of each thread in the order of its stream; all it collected
is released once. -/
theorem buffered_agrees_with_each (rt : Runtime) (call : BufferedCall)
    {streams : Tid → List AsRecord} (clear : ∀ thread, ∀ rec ∈ streams thread, Clear rt rec)
    (reachable : Reachable (call.callback rt) head state)
    (received : Received (call.callback rt) streams state)
    (idle : ∀ thread, state.pc thread = .idle) {order : List (Tid × AsRecord)}
    (interleaves : IsInterleaving streams order) {fuel : ℕ}
    (enough : state.appended.length + 1 < fuel) :
    ∃ left yielded, call.finish rt fuel ⟨state.heap, some head, [], []⟩ = some (.ok left) ∧
      eachArguments rt (order.map Prod.snd) = .ok yielded ∧
      (∃ collected shown, IsInterleaving streams collected ∧
        eachArguments rt (collected.map Prod.snd) = .ok shown ∧
        List.Forall₂ RbVal.Same left.result shown ∧ shown.Perm yielded) ∧
      ReleasedOnce (itemsWithHead head state) left.released := by
  rcases call.collects rt clear reachable received idle enough with
    ⟨left, collected, shown, returned, whole, read, same, once⟩
  rcases ExceptLoop.collect_perm ((interleaves.perm whole).map Prod.snd) read with
    ⟨yielded, readInOrder, perm⟩
  exact ⟨left, yielded, returned, readInOrder, ⟨collected, shown, whole, read, same, perm.symm⟩,
    once⟩

end Runs

/-- A record of one bin. -/
def oneBin (number : ℤ) : AsRecord :=
  ((AsRecord.init 1).set (cstr (ascii "n")) (.integer number)).2

/-- Two threads bring a record each, and the block sees them the other way round. -/
theorem buffered_agrees_with_each_sample : ∃ (state : State ℕ Bool) (left : ResultList ℕ),
    BufferedCall.scanRecords.finish Runtime.sample 4 ⟨state.heap, some 0, [], []⟩ =
      some (.ok left) ∧
    ∃ shown, List.Forall₂ RbVal.Same left.result shown ∧
      shown.Perm [.hash (StrHash.entries [(cstr (ascii "n"), .integer 8)]),
        .hash (StrHash.entries [(cstr (ascii "n"), .integer 7)])] := by
  have start : Reachable (BufferedCall.scanRecords.callback Runtime.sample) 0
      (⟨fun addr => if addr = 0 then some initQueryItem else none, none, fun _ => .idle, [], []⟩ :
        State ℕ Bool) :=
    .start ⟨rfl, rfl, fun _ => rfl, rfl, rfl⟩
  have first := Reachable.call start false (some (.record (oneBin 7))) _ 1 7 rfl rfl rfl rfl
  have second := Reachable.call first true (some (.record (oneBin 8))) _ 2 8 rfl rfl rfl rfl
  have clear : ∀ number, Clear Runtime.sample (oneBin number) := by
    intro number bin member
    obtain rfl : bin = (cstr (ascii "n"), .integer number) := List.mem_singleton.mp member
    exact ⟨trivial, .inr trivial⟩
  have agrees := @buffered_agrees_with_each ℕ Bool _ _ 0 _ Runtime.sample .scanRecords
    (fun thread => if thread then [oneBin 8] else [oneBin 7]) ?_ second ?_ ?_
    [(true, oneBin 8), (false, oneBin 7)] ?_ 4 (by decide)
  · rcases agrees with ⟨left, yielded, returned, inOrder, ⟨_, shown, _, _, same, perm⟩, _⟩
    cases inOrder
    exact ⟨_, left, returned, shown, same, perm⟩
  · intro thread rec member
    cases thread
    · cases List.mem_singleton.mp member
      exact clear 7
    · cases List.mem_singleton.mp member
      exact clear 8
  · intro thread
    cases thread
    · exact .cons rfl .nil
    · exact .cons rfl .nil
  · intro thread
    cases thread <;> rfl
  · intro thread
    cases thread <;> rfl

end AerospikeCRuby.QueryItems
