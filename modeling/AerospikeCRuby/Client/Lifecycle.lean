import AerospikeCRuby.Client.Config
import AerospikeCRuby.Library.Monitor

/-!
# The life of a client handle

A Client object wraps an `aerospike` struct.  Its methods hand the struct to the
C client, and the garbage collector frees it in the end.  No method looks at
what happened to the struct before, so a run of the object is followed by the
calls it makes on the handle.

The rule of the C client is given by a monitor.  Construction which fails leaves
the handle to a second destruction, or to one without an initialisation, and a
method called after `close` still reaches the C client.  All other runs keep
the rule.
-/

namespace AerospikeCRuby

/-- The functions of the C client which the data methods call on the handle. -/
inductive ClientFunction where
  | keyPut
  | keySelect
  | keyGet
  | keyRemove
  | keyExists
  | keyOperate
  | batchRead
  | batchExists
  | batchGet
  | scanForeach
  | scanBackground
  | scanInfo
  | queryForeach
  | queryBackground
  | infoHost
deriving DecidableEq, Repr

/-- A call of the C client on the handle, with the answer of those which give one. -/
inductive HandleCall where
  | init (config : AsConfig)
  | connect (succeeds : Bool)
  | data (function : ClientFunction)
  | close (succeeds : Bool)
  | destroy
deriving DecidableEq

/-- The methods of a Client which work on the data. -/
inductive DataMethod where
  | put
  /-- `get`, of all bins or of the given ones. -/
  | get (specificBins : Bool)
  | delete
  | exists_
  | getHeader
  | touch
  | operate
  | batchGet
  | batchExists
  | batchRead
  | scan
  | scanEach
  | executeUdfOnScan
  | backgroundExecuteUdfOnScan
  | query
  | queryEach
  | executeUdfOnQuery
  | backgroundExecuteUdfOnQuery
  | infoCmd

/-- The function each method calls. -/
def DataMethod.function : DataMethod → ClientFunction
  | put => .keyPut
  | get specificBins => if specificBins then .keySelect else .keyGet
  | delete => .keyRemove
  | exists_ => .keyExists
  | getHeader => .keyExists
  | touch => .keyOperate
  | operate => .keyOperate
  | batchGet => .batchRead
  | batchExists => .batchExists
  | batchRead => .batchGet
  | scan => .scanForeach
  | scanEach => .scanForeach
  | executeUdfOnScan => .scanForeach
  | backgroundExecuteUdfOnScan => .scanBackground
  | query => .queryForeach
  | queryEach => .queryForeach
  | executeUdfOnQuery => .queryForeach
  | backgroundExecuteUdfOnQuery => .queryBackground
  | infoCmd => .infoHost

/-- A call of a data method: how the checks and conversions of its arguments end, and what the C
client answers. -/
structure DataCall where
  method : DataMethod
  checks : Except Abort Unit
  succeeds : Bool

/-- The calls of the C client a data method makes. -/
def DataCall.handleCalls (call : DataCall) : List HandleCall :=
  match call.checks with
  | .error _ => []
  | .ok () =>
      match call.method with
      -- ScanTask.new asks for the state of the scan at once
      | .backgroundExecuteUdfOnScan =>
          if call.succeeds then [.data .scanBackground, .data .scanInfo]
          else [.data .scanBackground]
      | method => [.data method.function]

/-- A method called on a Client object. -/
inductive ClientCall where
  | data (call : DataCall)
  | close (succeeds : Bool)

/-- `close_connection` makes one call, whatever it answers. -/
def closeConnection (succeeds : Bool) : List HandleCall :=
  [.close succeeds]

def ClientCall.handleCalls : ClientCall → List HandleCall
  | data call => call.handleCalls
  | close succeeds => closeConnection succeeds

def clientDeallocate : List HandleCall :=
  [.destroy]

/-- What `raise_as_error` raises. -/
def asError : Abort :=
  .raised "AerospikeC::AsError"

/-- `client_initialize`: the calls on the handle, and how it ends. -/
def clientInitialize (rt : Runtime) (misread : RbVal → String → Except Abort RbVal)
    (argv : List RbVal) (connects : Bool) : List HandleCall × Except Abort Unit :=
  match clientConfig rt misread argv with
  | .error abort => ([], .error abort)
  | .ok config =>
      if connects then ([.init config, .connect true], .ok ())
      else ([.init config, .connect false, .destroy], .error asError)

/-- A run of one Client object, from its allocation to its finalisation. -/
structure ClientRun where
  /-- The arguments of `new`. -/
  argv : List RbVal
  /-- Whether `aerospike_connect` succeeds. -/
  connects : Bool
  calls : List ClientCall

/-- The calls on the handle in a run. -/
def ClientRun.trace (rt : Runtime) (misread : RbVal → String → Except Abort RbVal)
    (run : ClientRun) : List HandleCall :=
  (clientInitialize rt misread run.argv run.connects).1 ++
    run.calls.flatMap ClientCall.handleCalls ++ clientDeallocate

/-- The order of calls on a handle. -/
structure HandleOrder (trace : List HandleCall) : Prop where
  /-- Initialisation precedes every other call. -/
  initFirst : ∀ before call after, trace = before ++ call :: after →
    (∃ config, call = .init config) ∨ ∃ config, .init config ∈ before
  destroyedOnce : trace.count .destroy ≤ 1
  destroyedLast : ∀ before after, trace = before ++ .destroy :: after → after = []
  /-- Data is worked on between a successful connection and the first close. -/
  dataOpen : ∀ before function after, trace = before ++ .data function :: after →
    .connect true ∈ before ∧ ∀ succeeds, .close succeeds ∉ before

/-- What a monitor of the handle remembers. -/
structure HandleState where
  initialised : Bool
  connected : Bool
  closed : Bool
  destroyed : Bool
deriving DecidableEq

def HandleState.fresh : HandleState :=
  ⟨false, false, false, false⟩

/-- The next state of the monitor, unless the call is out of order. -/
def HandleState.step (state : HandleState) (call : HandleCall) : Option HandleState :=
  if state.destroyed then none
  else
    match call with
    | .init _ => some { state with initialised := true }
    | .connect succeeds =>
        if state.initialised then some { state with connected := state.connected || succeeds }
        else none
    | .data _ =>
        if state.initialised && state.connected && !state.closed then some state else none
    | .close _ => if state.initialised then some { state with closed := true } else none
    | .destroy => if state.initialised then some { state with destroyed := true } else none

/-- When a call may follow those before it. -/
def mayCall (before : List HandleCall) (call : HandleCall) : Prop :=
  .destroy ∉ before ∧ ((∃ config, call = .init config) ∨ ∃ config, .init config ∈ before) ∧
    ∀ function, call = .data function →
      .connect true ∈ before ∧ ∀ succeeds, .close succeeds ∉ before

/-- The state of the monitor after a trace. -/
structure HandleState.Summarises (past : List HandleCall) (state : HandleState) : Prop where
  initialised : state.initialised = true ↔ ∃ config, .init config ∈ past
  connected : state.connected = true ↔ .connect true ∈ past
  closed : state.closed = true ↔ ∃ succeeds, .close succeeds ∈ past
  destroyed : state.destroyed = true ↔ .destroy ∈ past

theorem HandleState.summarises_fresh : HandleState.Summarises [] .fresh := by
  constructor <;> simp [HandleState.fresh]

theorem HandleState.step_isSome {past : List HandleCall} {state : HandleState} {call : HandleCall}
    (summary : state.Summarises past) :
    (state.step call).isSome = true ↔ mayCall past call := by
  rcases summary with ⟨initialised, connected, closed, destroyed⟩
  simp only [mayCall, ← destroyed, ← initialised, ← connected, ← not_exists, ← closed]
  rcases state with ⟨isInitialised, isConnected, isClosed, isDestroyed⟩
  cases call <;> cases isInitialised <;> cases isDestroyed <;> simp [HandleState.step]

/-- What a call that is in order does to the monitor. -/
theorem HandleState.step_cases {state next : HandleState} {call : HandleCall}
    (advanced : state.step call = some next) :
    (∃ config, call = .init config ∧ next = { state with initialised := true }) ∨
      (∃ succeeds, call = .connect succeeds ∧
        next = { state with connected := state.connected || succeeds }) ∨
      (∃ function, call = .data function ∧ next = state) ∨
      (∃ succeeds, call = .close succeeds ∧ next = { state with closed := true }) ∨
      call = .destroy ∧ next = { state with destroyed := true } := by
  unfold HandleState.step at advanced
  split at advanced
  · cases advanced
  cases call with
  | init config =>
      cases advanced
      exact .inl ⟨config, rfl, rfl⟩
  | connect succeeds =>
      rcases Option.ite_none_right_eq_some.mp advanced with ⟨_, same⟩
      cases same
      exact .inr (.inl ⟨succeeds, rfl, rfl⟩)
  | data function =>
      rcases Option.ite_none_right_eq_some.mp advanced with ⟨_, same⟩
      cases same
      exact .inr (.inr (.inl ⟨function, rfl, rfl⟩))
  | close succeeds =>
      rcases Option.ite_none_right_eq_some.mp advanced with ⟨_, same⟩
      cases same
      exact .inr (.inr (.inr (.inl ⟨succeeds, rfl, rfl⟩)))
  | destroy =>
      rcases Option.ite_none_right_eq_some.mp advanced with ⟨_, same⟩
      cases same
      exact .inr (.inr (.inr (.inr ⟨rfl, rfl⟩)))

theorem HandleState.summarises_step {past : List HandleCall} {state next : HandleState}
    {call : HandleCall} (summary : state.Summarises past) (advanced : state.step call = some next) :
    next.Summarises (past ++ [call]) := by
  rcases summary with ⟨initialised, connected, closed, destroyed⟩
  rcases HandleState.step_cases advanced with ⟨config, rfl, rfl⟩ | ⟨succeeds, rfl, rfl⟩ |
    ⟨function, rfl, rfl⟩ | ⟨succeeds, rfl, rfl⟩ | ⟨rfl, rfl⟩
  · constructor <;> simp [*]
  · constructor <;> simp [*]
  · constructor <;> simp [*]
  · constructor <;> simp [*]
  · constructor <;> simp [*]

theorem handleOrder_iff_clean {trace : List HandleCall} :
    HandleOrder trace ↔ Monitor.Clean mayCall trace := by
  constructor
  · intro order before call after split
    refine ⟨?_, order.initFirst before call after split, ?_⟩
    · intro gone
      rcases List.append_of_mem gone with ⟨front, back, rfl⟩
      have last := order.destroyedLast front (back ++ call :: after) (by simp [split])
      simp at last
    · rintro function rfl
      exact order.dataOpen before function after split
  · intro clean
    have last : ∀ before after, trace = before ++ .destroy :: after → after = [] := by
      rintro before (_ | ⟨call, after⟩) split
      · rfl
      · have allowed := clean (before ++ [.destroy]) call after (by simp [split])
        exact absurd (by simp) allowed.1
    refine ⟨fun before call after split => (clean before call after split).2.1, ?_, last, ?_⟩
    · by_cases present : HandleCall.destroy ∈ trace
      · rcases List.append_of_mem present with ⟨front, back, split⟩
        rcases last front back split with rfl
        have absent := (clean front .destroy [] split).1
        rw [split, List.count_append, List.count_eq_zero.mpr absent]
        simp
      · rw [List.count_eq_zero.mpr present]
        exact Nat.zero_le 1
    · intro before function after split
      exact (clean before _ after split).2.2 function rfl

/-- The order of calls, decided in one pass. -/
theorem handleOrder_iff_run {trace : List HandleCall} :
    HandleOrder trace ↔ (Monitor.run HandleState.step .fresh trace).isSome = true := by
  rw [handleOrder_iff_clean, @Monitor.run_isSome _ _ mayCall HandleState.step
    HandleState.Summarises (fun _ _ _ => HandleState.step_isSome)
    (fun _ _ _ _ => HandleState.summarises_step) [] _ HandleState.summarises_fresh]
  rfl

/-- When a method may be called on a Client: a data method whose arguments pass its checks only
before the first `close`. -/
def mayUse (before : List ClientCall) (call : ClientCall) : Prop :=
  ∀ use, call = .data use → use.checks = .ok () → ∀ succeeds, .close succeeds ∉ before

@[simp]
theorem mayUse_data {before : List ClientCall} {use : DataCall} :
    mayUse before (.data use) ↔
      (use.checks = .ok () → ∀ succeeds, .close succeeds ∉ before) := by
  simp [mayUse]

/-- The construction of the object goes through, and it is not used once closed. -/
structure ClientRun.Orderly (rt : Runtime) (misread : RbVal → String → Except Abort RbVal)
    (run : ClientRun) : Prop where
  accepted : ArgumentsAccepted rt misread run.argv
  connects : run.connects = true
  unclosed : ∀ before use after, run.calls = before ++ .data use :: after →
    use.checks = .ok () → ∀ succeeds, .close succeeds ∉ before

theorem DataCall.handleCalls_of_ok {use : DataCall} (passed : use.checks = .ok ()) :
    ∃ function rest, use.handleCalls = .data function :: rest ∧
      ∀ call ∈ rest, ∃ function, call = .data function := by
  rcases use with ⟨method, checks, succeeds⟩
  cases passed
  cases method <;> cases succeeds <;> simp [DataCall.handleCalls]

theorem ClientCall.mem_handleCalls {used : ClientCall} {call : HandleCall}
    (member : call ∈ used.handleCalls) :
    (∃ function, call = .data function) ∨
      ∃ succeeds, call = .close succeeds ∧ used = .close succeeds := by
  cases used with
  | close succeeds =>
      rcases List.mem_singleton.mp member with rfl
      exact Or.inr ⟨succeeds, rfl, rfl⟩
  | data use =>
      left
      simp only [ClientCall.handleCalls] at member
      cases checked : use.checks with
      | error abort => simp [DataCall.handleCalls, checked] at member
      | ok _ =>
          rcases use.handleCalls_of_ok checked with ⟨function, rest, made, others⟩
          rw [made] at member
          rcases List.mem_cons.mp member with rfl | later
          · exact ⟨function, rfl⟩
          · exact others call later

theorem close_mem_handleCalls {calls : List ClientCall} {succeeds : Bool} :
    .close succeeds ∈ calls.flatMap ClientCall.handleCalls ↔ .close succeeds ∈ calls := by
  rw [List.mem_flatMap]
  constructor
  · rintro ⟨used, member, made⟩
    rcases used.mem_handleCalls made with ⟨_, impossible⟩ | ⟨_, same, rfl⟩
    · cases impossible
    · cases same
      exact member
  · intro member
    exact ⟨_, member, List.mem_singleton_self _⟩

theorem not_mem_handleCalls {calls : List ClientCall} {call : HandleCall}
    (noData : ∀ function, call ≠ .data function) (noClose : ∀ succeeds, call ≠ .close succeeds) :
    call ∉ calls.flatMap ClientCall.handleCalls := by
  rw [List.mem_flatMap]
  rintro ⟨used, _, made⟩
  rcases used.mem_handleCalls made with ⟨function, same⟩ | ⟨succeeds, same, _⟩
  · exact noData function same
  · exact noClose succeeds same

/-- After a construction which went through, the calls of the methods keep the order exactly when
no data method is used after `close`. -/
theorem clean_handleCalls {config : AsConfig} {calls : List ClientCall} :
    Monitor.Clean (fun before call => mayCall ([.init config, .connect true] ++ before) call)
        (calls.flatMap ClientCall.handleCalls) ↔
      Monitor.Clean mayUse calls := by
  have alive : ∀ before : List ClientCall, HandleCall.destroy ∉
      [.init config, .connect true] ++ before.flatMap ClientCall.handleCalls := by
    intro before
    have := @not_mem_handleCalls before .destroy (by simp) (by simp)
    simp [this]
  rw [Monitor.clean_flatMap]
  apply Monitor.clean_congr
  rintro before (use | succeeds)
  · cases checked : use.checks with
    | error abort =>
        simp only [ClientCall.handleCalls, DataCall.handleCalls, checked]
        refine iff_of_true Monitor.clean_nil ?_
        simp [checked]
    | ok _ =>
        rcases use.handleCalls_of_ok checked with ⟨function, rest, made, others⟩
        simp only [ClientCall.handleCalls, made, mayUse_data]
        constructor
        · intro clean _ succeeds closed
          have allowed := (Monitor.clean_cons.mp clean).1.2.2 function rfl
          apply allowed.2 succeeds
          apply List.mem_append_right
          exact List.mem_append_left _ (close_mem_handleCalls.mpr closed)
        · intro unclosed past event after split
          have unused := unclosed checked
          have works : ∀ call ∈ past ++ event :: after, ∃ function, call = .data function := by
            rw [← split]
            intro call member
            rcases List.mem_cons.mp member with rfl | later
            · exact ⟨function, rfl⟩
            · exact others call later
          refine ⟨?_, Or.inr ⟨config, by simp⟩, fun _ _ => ⟨by simp, ?_⟩⟩
          · intro gone
            rw [← List.append_assoc] at gone
            rcases List.mem_append.mp gone with earlier | later
            · exact alive before earlier
            · rcases works _ (List.mem_append_left _ later) with ⟨_, impossible⟩
              cases impossible
          · intro succeeds closed
            simp only [List.mem_append, close_mem_handleCalls] at closed
            rcases closed with early | earlier | later
            · simp at early
            · exact unused succeeds earlier
            · rcases works _ (List.mem_append_left _ later) with ⟨_, impossible⟩
              cases impossible
  · simp only [ClientCall.handleCalls, closeConnection, Monitor.clean_singleton]
    refine iff_of_true ⟨?_, Or.inr ⟨config, by simp⟩, by simp⟩ ?_
    · simpa using alive before
    · rintro use impossible
      cases impossible

/-- The calls on the handle keep the order exactly in the orderly runs. -/
theorem handleOrder_iff_orderly (rt : Runtime)
    (misread : RbVal → String → Except Abort RbVal) (run : ClientRun) :
    HandleOrder (run.trace rt misread) ↔ run.Orderly rt misread := by
  have accepted := @clientConfig_isOk rt misread run.argv
  have finalised : ∀ before : List HandleCall,
      Monitor.Clean (fun past call => mayCall (before ++ past) call) clientDeallocate ↔
        .destroy ∉ before ∧ ∃ config, .init config ∈ before := by
    intro before
    rw [clientDeallocate, Monitor.clean_singleton]
    simp [mayCall]
  have noInit : ∀ config, HandleCall.init config ∉ run.calls.flatMap ClientCall.handleCalls := by
    intro config
    exact not_mem_handleCalls (by simp) (by simp)
  have noDestroy : HandleCall.destroy ∉ run.calls.flatMap ClientCall.handleCalls :=
    not_mem_handleCalls (by simp) (by simp)
  rw [handleOrder_iff_clean, ClientRun.trace, Monitor.clean_append, finalised]
  cases configured : clientConfig rt misread run.argv with
  | error abort =>
      apply iff_of_false
      · rintro ⟨_, _, config, member⟩
        simp only [clientInitialize, configured, List.nil_append] at member
        exact noInit config member
      · intro orderly
        rcases accepted.mpr orderly.accepted with ⟨config, impossible⟩
        rw [configured] at impossible
        cases impossible
  | ok config =>
      cases connected : run.connects with
      | false =>
          apply iff_of_false
          · rintro ⟨_, alive, _⟩
            simp [clientInitialize, configured] at alive
          · intro orderly
            rw [orderly.connects] at connected
            cases connected
      | true =>
          have made : (clientInitialize rt misread run.argv true).1 =
              [.init config, .connect true] := by
            simp [clientInitialize, configured]
          have constructed : Monitor.Clean mayCall [.init config, .connect true] := by
            rw [handleOrder_iff_clean.symm, handleOrder_iff_run]
            rfl
          rw [made, Monitor.clean_append, clean_handleCalls]
          constructor
          · rintro ⟨⟨_, unclosed⟩, _⟩
            refine ⟨accepted.mp ⟨config, configured⟩, connected, ?_⟩
            intro before use after split passed
            exact unclosed before (.data use) after split use rfl passed
          · intro orderly
            refine ⟨⟨constructed, ?_⟩, ?_, config, by simp⟩
            · rintro before _ after split use rfl passed
              exact orderly.unclosed before use after split passed
            · simpa using noDestroy

/-- The arguments of `Client.new("h", 3000, options)`. -/
def newArguments (options : List (RbVal × RbVal)) : List RbVal :=
  [.string ⟨ascii "h", .utf8⟩, .integer 3000, .hash options]

/-- An option is refused before the initialisation, the server is not reached, or the object is
used after `close`. -/
theorem disorderly_runs :
    ¬HandleOrder ((⟨newArguments [(sym "interval", .bool true)], true, []⟩ : ClientRun).trace
        .sample fun _ _ => .ok .nil) ∧
      ¬HandleOrder ((⟨newArguments [], false, []⟩ : ClientRun).trace .sample fun _ _ => .ok .nil) ∧
      ¬HandleOrder
        ((⟨newArguments [], true, [.close true, .data ⟨.get false, .ok (), true⟩]⟩ :
          ClientRun).trace .sample fun _ _ => .ok .nil) := by
  simp only [handleOrder_iff_run]
  decide

end AerospikeCRuby
