import AerospikeCRuby.Operations.Meaning

/-!
# A chain of builder methods

What each call of a chain stands for, and when the chain is executed as written:
it evaluates to the Operation, one Hash per call is held in call order, and the
translation makes of each the C operation with the arguments of the call.
-/

namespace AerospikeCRuby

namespace Operation

section Meaning

variable (rt : Runtime)

/-- The C string is the text of a bin, which may be of any type. -/
def BinText (bin : RbVal) (name : CStr) : Prop :=
  ∃ text, rt.toS bin = .ok text ∧ name.bytes = text.bytes

def IsText (value : RbVal) : Prop :=
  ∃ text, value = .string text ∧ text.Readable

namespace Call

/-- The operation a method is named after. -/
def type : Call → OperationType
  | .increment _ _ => .increment
  | .touch => .touch
  | .append _ _ => .append
  | .prepend _ _ => .prepend
  | .read _ => .read
  | .write _ _ => .write
  | .listAppend _ _ => .listAppend
  | .listSet _ _ _ => .listSet
  | .listTrim _ _ _ => .listTrim
  | .listClear _ => .listClear
  | .listPop _ _ => .listPop
  | .listPopRange _ _ _ => .listPopRange
  | .listPopRangeFrom _ _ => .listPopRangeFrom
  | .listRemove _ _ => .listRemove
  | .listRemoveRange _ _ _ => .listRemoveRange
  | .listRemoveRangeFrom _ _ => .listRemoveRangeFrom
  | .listGet _ _ => .listGet
  | .listGetRange _ _ _ => .listGetRange
  | .listGetRangeFrom _ _ => .listGetRangeFrom
  | .listSize _ => .listSize

def bin : Call → Option RbVal
  | .touch => none
  | .read bin | .listClear bin | .listSize bin => some bin
  | .increment bin _ | .append bin _ | .prepend bin _ | .write bin _ | .listAppend bin _
  | .listPop bin _ | .listPopRangeFrom bin _ | .listRemove bin _ | .listRemoveRangeFrom bin _
  | .listGet bin _ | .listGetRangeFrom bin _ => some bin
  | .listSet bin _ _ | .listTrim bin _ _ | .listPopRange bin _ _ | .listRemoveRange bin _ _
  | .listGetRange bin _ _ => some bin

/-- The arguments after the bin, under the keys of the Hash. -/
def arguments : Call → List (String × RbVal)
  | .touch | .read _ | .listClear _ | .listSize _ => []
  | .increment _ val | .append _ val | .prepend _ val | .write _ val | .listAppend _ val =>
      [("value", val)]
  | .listPop _ index | .listPopRangeFrom _ index | .listRemove _ index
  | .listRemoveRangeFrom _ index | .listGet _ index | .listGetRangeFrom _ index =>
      [("value", index)]
  | .listSet _ val index => [("value", val), ("at", index)]
  | .listTrim _ index count | .listPopRange _ index count | .listRemoveRange _ index count
  | .listGetRange _ index count => [("value", index), ("count", count)]

/-- What the method evaluates to. -/
def answer : Call → Answer
  | .listSize _ => .operations
  | _ => .self

/-- The arguments after the bin are of the types the method documents. -/
def TakesArguments : Call → Prop
  | .touch | .read _ | .listClear _ | .listSize _ => True
  | .increment _ val => IsInteger val
  | .append _ val | .prepend _ val => IsText val
  | .write _ val => IsWritable rt val
  | .listAppend _ val => IsListValue rt val
  | .listSet _ val index => IsListValue rt val ∧ IsInteger index
  | .listPop _ index | .listPopRangeFrom _ index | .listRemove _ index
  | .listRemoveRangeFrom _ index | .listGet _ index | .listGetRangeFrom _ index =>
      IsInteger index
  | .listTrim _ index count | .listPopRange _ index count | .listRemoveRange _ index count
  | .listGetRange _ index count => IsInteger index ∧ IsInteger count

/-- The arguments are of the documented types; a bin may be of any type with a NUL-free text. -/
def Documented (call : Call) : Prop :=
  (∀ bin ∈ call.bin, ∃ text, rt.toS bin = .ok text ∧ text.Readable) ∧ call.TakesArguments rt

/-- The Hash of a call on a bin. -/
def entries (call : Call) (name : RbVal) : List (RbVal × RbVal) :=
  entriesOf (("operation", sym call.type.name) :: ("bin", name) :: call.arguments)

def Appends (call : Call) (val : RbVal) : Prop :=
  match call.bin with
  | none => val = symbolHash [("operation", sym call.type.name)]
  | some bin => ∃ text, rt.toS bin = .ok text ∧ val = .hash (call.entries (.string text))

/-- The text of the bin is not cut, and has at most 14 bytes. -/
def BinFits (call : Call) : Prop :=
  ∀ bin ∈ call.bin, ∀ text, rt.toS bin = .ok text →
    text.Whole ∧ text.bytes.length ≤ asBinNameMaxLen

/-- No text of a value is cut. -/
def Uncut : Call → Prop
  | .append _ val | .prepend _ val => ∀ text, val = .string text → text.Whole
  | .write _ val => IsInteger val ∨ ∀ text, rt.toS val = .ok text → text.Whole
  | .listAppend _ val | .listSet _ val _ => Whole rt val
  | _ => True

end Call

/-- The C operation on the bin of a call, with the arguments of the call. -/
inductive Acts : Call → BinAction → Prop where
  | increment {bin number word} : word.toInt = number →
      Acts (.increment bin (.integer number)) (.incr word)
  | append {bin text str} : str.bytes = text.bytes →
      Acts (.append bin (.string text)) (.appendStr str)
  | prepend {bin text str} : str.bytes = text.bytes →
      Acts (.prepend bin (.string text)) (.prependStr str)
  | read {bin} : Acts (.read bin) .read
  | write {bin val value} : Written rt val value → Acts (.write bin val) (.write value)
  | listAppend {bin val value} : Passes rt val value →
      Acts (.listAppend bin val) (.listAppend value)
  | listSet {bin val value index word} : word.toInt = index → Passes rt val value →
      Acts (.listSet bin val (.integer index)) (.listSet word value)
  | listTrim {bin index count word word'} : word.toInt = index → word'.toInt = count →
      Acts (.listTrim bin (.integer index) (.integer count)) (.listTrim word word')
  | listClear {bin} : Acts (.listClear bin) .listClear
  | listPop {bin index word} : word.toInt = index →
      Acts (.listPop bin (.integer index)) (.listPop word)
  | listPopRange {bin index count word word'} : word.toInt = index → word'.toInt = count →
      Acts (.listPopRange bin (.integer index) (.integer count)) (.listPopRange word word')
  | listPopRangeFrom {bin index word} : word.toInt = index →
      Acts (.listPopRangeFrom bin (.integer index)) (.listPopRangeFrom word)
  | listRemove {bin index word} : word.toInt = index →
      Acts (.listRemove bin (.integer index)) (.listRemove word)
  | listRemoveRange {bin index count word word'} : word.toInt = index → word'.toInt = count →
      Acts (.listRemoveRange bin (.integer index) (.integer count)) (.listRemoveRange word word')
  | listRemoveRangeFrom {bin index word} : word.toInt = index →
      Acts (.listRemoveRangeFrom bin (.integer index)) (.listRemoveRangeFrom word)
  | listGet {bin index word} : word.toInt = index →
      Acts (.listGet bin (.integer index)) (.listGet word)
  | listGetRange {bin index count word word'} : word.toInt = index → word'.toInt = count →
      Acts (.listGetRange bin (.integer index) (.integer count)) (.listGetRange word word')
  | listGetRangeFrom {bin index word} : word.toInt = index →
      Acts (.listGetRangeFrom bin (.integer index)) (.listGetRangeFrom word)
  | listSize {bin} : Acts (.listSize bin) .listSize

/-- The C operation a call stands for. -/
inductive Corresponds : Call → AsOperation → Prop where
  | touch : Corresponds .touch .touch
  | onBin {call bin name action} : call.bin = some bin → BinText rt bin name →
      Acts rt call action → Corresponds call (.onBin name action)

/-- The chain is executed as written. -/
def Executed (env : Unspecified) (op : Operation) (calls : List Call) : Prop :=
  ∃ op' operations, evalChain rt .self op calls = .ok (op', .self) ∧
    List.Forall₂ (Call.Appends rt) calls op'.operations ∧
    env.rbOperations2asOperations rt op' = .ok operations ∧
    List.Forall₂ (Corresponds rt) calls operations.entries

end Meaning

variable {rt : Runtime}

theorem binName_eq {bin : RbVal} {text : RbStr} (called : rt.toS bin = .ok text) :
    binName rt bin = .ok (.string text) := by
  cases bin with
  | string str =>
      cases called
      rfl
  | _ =>
      simp only [binName, called]
      rfl

/-- Every method appends its Hash; they differ in what they evaluate to. -/
theorem perform_eq {call : Call} {val : RbVal} (appends : call.Appends rt val) (op : Operation) :
    call.perform rt op = .ok (op.push val, call.answer) := by
  cases call with
  | touch =>
      cases appends
      rfl
  | listSize bin =>
      rcases appends with ⟨text, called, rfl⟩
      simp only [Call.perform, listSize!, pushOn, binName_eq called, ok_bind]
      rfl
  | _ =>
      rcases appends with ⟨text, called, rfl⟩
      simp only [Call.perform, increment!, append!, prepend!, read!, write!, listAppend!, listSet!,
        listTrim!, listClear!, listPop!, listPopRange!, listPopRangeFrom!, listRemove!,
        listRemoveRange!, listRemoveRangeFrom!, listGet!, listGetRange!, listGetRangeFrom!, chained,
        pushOn, binName_eq called, ok_bind]
      rfl

/-- What a method evaluates to does not depend on its arguments. -/
theorem answer_of_perform {call : Call} {op op' : Operation} {answer : Answer}
    (performed : call.perform rt op = .ok (op', answer)) : answer = call.answer := by
  cases call with
  | touch =>
      cases performed
      rfl
  | _ =>
      rcases ExceptLoop.bind_eq_ok.mp performed with ⟨pushed, _, same⟩
      cases same
      rfl

section Fields

variable {call : Call} (name : RbVal)

theorem hashAref_operation : hashAref (call.entries name) "operation" = sym call.type.name :=
  hashAref_self _ _ _

theorem hashAref_bin : hashAref (call.entries name) "bin" = name := by
  rw [Call.entries, hashAref_of_ne (by decide), hashAref_self]

theorem hashAref_value {val : RbVal} {rest : List (String × RbVal)}
    (arguments : call.arguments = ("value", val) :: rest) :
    hashAref (call.entries name) "value" = val := by
  rw [Call.entries, arguments, hashAref_of_ne (by decide), hashAref_of_ne (by decide),
    hashAref_self]

theorem hashAref_second {val second : RbVal} {field : String}
    (arguments : call.arguments = [("value", val), (field, second)])
    (fields : ∀ other ∈ ["operation", "bin", "value"], ascii other ≠ ascii field) :
    hashAref (call.entries name) field = second := by
  rw [Call.entries, arguments, hashAref_of_ne (fields _ (by simp)),
    hashAref_of_ne (fields _ (by simp)), hashAref_of_ne (fields _ (by simp)), hashAref_self]

theorem integerAt_value {number : ℤ} {rest : List (String × RbVal)}
    (arguments : call.arguments = ("value", .integer number) :: rest) (fixnum : IsFixnum number) :
    IntegerAt (call.entries name) "value" (fix2long number) :=
  ⟨number, hashAref_value name arguments, fixnum, toInt_fix2long fixnum⟩

theorem integerAt_at {val : RbVal} {number : ℤ}
    (arguments : call.arguments = [("value", val), ("at", .integer number)])
    (fixnum : IsFixnum number) : IntegerAt (call.entries name) "at" (fix2long number) :=
  ⟨number, hashAref_second name arguments (by decide), fixnum, toInt_fix2long fixnum⟩

theorem integerAt_count {val : RbVal} {number : ℤ}
    (arguments : call.arguments = [("value", val), ("count", .integer number)])
    (fixnum : IsFixnum number) : IntegerAt (call.entries name) "count" (fix2long number) :=
  ⟨number, hashAref_second name arguments (by decide), fixnum, toInt_fix2long fixnum⟩

end Fields

/-- The translation takes from the Hash of a documented call what the call stands for. -/
theorem operated_of_call {call : Call} (taken : call.TakesArguments rt) (uncut : call.Uncut rt)
    (other : call ≠ .touch) (name : RbVal) :
    Operated rt (call.entries name) call.type (Acts rt call) := by
  cases call with
  | touch => exact absurd rfl other
  | read bin => exact ⟨_, .read, fun _ => rfl⟩
  | listClear bin => exact ⟨_, .listClear, fun _ => rfl⟩
  | listSize bin => exact ⟨_, .listSize, fun _ => rfl⟩
  | append bin val =>
      rcases taken with ⟨text, rfl, _⟩
      have converted := stringValueCStr_of_nulFree (uncut text rfl)
      refine operated_of_converted .appendStr converted (.append rfl) fun env => ?_
      rw [hashAref_value name rfl]
      rfl
  | prepend bin val =>
      rcases taken with ⟨text, rfl, _⟩
      have converted := stringValueCStr_of_nulFree (uncut text rfl)
      refine operated_of_converted .prependStr converted (.prepend rfl) fun env => ?_
      rw [hashAref_value name rfl]
      rfl
  | write bin val =>
      rcases exists_written taken uncut with ⟨value, written, converted⟩
      refine operated_of_converted .write converted (.write written) fun env => ?_
      rw [hashAref_value name rfl]
      rfl
  | listAppend bin val =>
      rcases exists_passes taken uncut with ⟨value, passes, converted⟩
      refine operated_of_converted .listAppend converted (.listAppend passes) fun env => ?_
      rw [hashAref_value name rfl]
      rfl
  | listSet bin val index =>
      rcases taken with ⟨taken, number, rfl, fixnum⟩
      rcases exists_passes taken uncut with ⟨value, passes, converted⟩
      refine operated_of_listSet (integerAt_at name rfl fixnum) ?_
        (.listSet (toInt_fix2long fixnum) passes)
      rw [hashAref_value name rfl]
      exact converted
  | increment bin val =>
      rcases taken with ⟨number, rfl, fixnum⟩
      exact operated_of_integer .incr (integerAt_value name rfl fixnum)
        (.increment (toInt_fix2long fixnum)) fun _ => rfl
  | listPop bin index =>
      rcases taken with ⟨number, rfl, fixnum⟩
      exact operated_of_integer .listPop (integerAt_value name rfl fixnum)
        (.listPop (toInt_fix2long fixnum)) fun _ => rfl
  | listPopRangeFrom bin index =>
      rcases taken with ⟨number, rfl, fixnum⟩
      exact operated_of_integer .listPopRangeFrom (integerAt_value name rfl fixnum)
        (.listPopRangeFrom (toInt_fix2long fixnum)) fun _ => rfl
  | listRemove bin index =>
      rcases taken with ⟨number, rfl, fixnum⟩
      exact operated_of_integer .listRemove (integerAt_value name rfl fixnum)
        (.listRemove (toInt_fix2long fixnum)) fun _ => rfl
  | listRemoveRangeFrom bin index =>
      rcases taken with ⟨number, rfl, fixnum⟩
      exact operated_of_integer .listRemoveRangeFrom (integerAt_value name rfl fixnum)
        (.listRemoveRangeFrom (toInt_fix2long fixnum)) fun _ => rfl
  | listGet bin index =>
      rcases taken with ⟨number, rfl, fixnum⟩
      exact operated_of_integer .listGet (integerAt_value name rfl fixnum)
        (.listGet (toInt_fix2long fixnum)) fun _ => rfl
  | listGetRangeFrom bin index =>
      rcases taken with ⟨number, rfl, fixnum⟩
      exact operated_of_integer .listGetRangeFrom (integerAt_value name rfl fixnum)
        (.listGetRangeFrom (toInt_fix2long fixnum)) fun _ => rfl
  | listTrim bin index count =>
      rcases taken with ⟨⟨number, rfl, fixnum⟩, number', rfl, fixnum'⟩
      exact operated_of_integers .listTrim (integerAt_value name rfl fixnum)
        (integerAt_count name rfl fixnum')
        (.listTrim (toInt_fix2long fixnum) (toInt_fix2long fixnum')) fun _ => rfl
  | listPopRange bin index count =>
      rcases taken with ⟨⟨number, rfl, fixnum⟩, number', rfl, fixnum'⟩
      exact operated_of_integers .listPopRange (integerAt_value name rfl fixnum)
        (integerAt_count name rfl fixnum')
        (.listPopRange (toInt_fix2long fixnum) (toInt_fix2long fixnum')) fun _ => rfl
  | listRemoveRange bin index count =>
      rcases taken with ⟨⟨number, rfl, fixnum⟩, number', rfl, fixnum'⟩
      exact operated_of_integers .listRemoveRange (integerAt_value name rfl fixnum)
        (integerAt_count name rfl fixnum')
        (.listRemoveRange (toInt_fix2long fixnum) (toInt_fix2long fixnum')) fun _ => rfl
  | listGetRange bin index count =>
      rcases taken with ⟨⟨number, rfl, fixnum⟩, number', rfl, fixnum'⟩
      exact operated_of_integers .listGetRange (integerAt_value name rfl fixnum)
        (integerAt_count name rfl fixnum')
        (.listGetRange (toInt_fix2long fixnum) (toInt_fix2long fixnum')) fun _ => rfl

/-- An action which is that of a call cuts none of its texts. -/
theorem Acts.uncut {call : Call} {action : BinAction} (acts : Acts rt call action) :
    call.Uncut rt := by
  have whole {str : CStr} {text : RbStr} (same : str.bytes = text.bytes) (other : RbStr)
      (spelled : RbVal.string text = .string other) : other.Whole := by
    cases spelled
    rw [RbStr.Whole, ← same]
    exact str.nulFree
  cases acts with
  | append same => exact whole same
  | prepend same => exact whole same
  | write written => exact written.whole
  | listAppend passes => exact passes.whole
  | listSet _ passes => exact passes.whole
  | _ => trivial

/-- A documented call appends a Hash; where its bin fits and no text is cut, the translation makes
of the Hash the operation the call stands for. -/
theorem exists_appends {call : Call} (documented : call.Documented rt) :
    ∃ entries, call.Appends rt (.hash entries) ∧ (call.BinFits rt → call.Uncut rt →
      ∃ operation, Corresponds rt call operation ∧ Adds rt entries operation ∧
        operation.Nameable) := by
  by_cases isTouch : call = .touch
  · cases isTouch
    exact ⟨_, rfl, fun _ _ => ⟨.touch, .touch, adds_touch rfl (Or.inl rfl), trivial⟩⟩
  · have hasBin : ∃ bin, call.bin = some bin := by
      cases call <;> first | exact ⟨_, rfl⟩ | exact absurd rfl isTouch
    rcases hasBin with ⟨bin, named⟩
    rcases documented with ⟨texts, taken⟩
    rcases texts bin named with ⟨text, called, _⟩
    refine ⟨call.entries (.string text), ?_, fun fits uncut => ?_⟩
    · rw [Call.Appends, named]
      exact ⟨text, called, rfl⟩
    · rcases fits bin named text called with ⟨free, short⟩
      rcases operated_of_call taken uncut isTouch (.string text) with ⟨action, acts, operands⟩
      refine ⟨.onBin ⟨text.bytes, free⟩ action, .onBin named ⟨text, called, rfl⟩ acts, ?_, short⟩
      refine adds_onBin ?_ ?_ free operands
      · rw [hashAref_operation]
        exact beq_self_eq_true _
      · rw [hashAref_bin]
        rfl

theorem exists_hashes {calls : List Call} (documented : ∀ call ∈ calls, call.Documented rt) :
    ∃ hashes, List.Forall₂ (Call.Appends rt) calls (hashes.map .hash) ∧
      ((∀ call ∈ calls, call.BinFits rt ∧ call.Uncut rt) →
        ∃ operations, List.Forall₂ (Corresponds rt) calls operations ∧
          List.Forall₂ (Adds rt) hashes operations ∧
          ∀ operation ∈ operations, operation.Nameable) := by
  induction calls with
  | nil => exact ⟨[], .nil, fun _ => ⟨[], .nil, .nil, by simp⟩⟩
  | cons call calls ih =>
      rcases exists_appends (documented call List.mem_cons_self) with ⟨entries, appends, adds⟩
      rcases ih fun other member => documented other (List.mem_cons_of_mem _ member) with
        ⟨hashes, allAppend, allAdd⟩
      refine ⟨entries :: hashes, .cons appends allAppend, fun each => ?_⟩
      rcases List.forall_mem_cons.mp each with ⟨⟨fits, uncut⟩, each⟩
      rcases adds fits uncut with ⟨operation, corresponds, adds, nameable⟩
      rcases allAdd each with ⟨operations, allCorrespond, allAdd, allNameable⟩
      exact ⟨operation :: operations, .cons corresponds allCorrespond, .cons adds allAdd,
        List.forall_mem_cons.mpr ⟨nameable, allNameable⟩⟩

/-- A chain whose methods all answer `self` evaluates to the Operation, with the Hashes in call
order. -/
theorem evalChain_of_appends {calls : List Call} {vals : List RbVal}
    (appends : List.Forall₂ (Call.Appends rt) calls vals)
    (chainable : ∀ call ∈ calls, call.type ≠ .listSize) (op : Operation) :
    evalChain rt .self op calls = .ok ({ op with operations := op.operations ++ vals }, .self) := by
  induction appends generalizing op with
  | nil =>
      rw [List.append_nil]
      rfl
  | @cons call val calls vals first _ ih =>
      have self : call.answer = .self := by
        have notSize := chainable call List.mem_cons_self
        cases call <;> first | rfl | exact absurd rfl notSize
      have rest := ih (fun other member => chainable other (List.mem_cons_of_mem _ member))
        (op.push val)
      rw [push, List.append_assoc, List.singleton_append] at rest
      rw [evalChain, perform_eq first, ok_bind, self]
      exact rest

/-- `list_size!` ends the chain: what it evaluates to is the Array. -/
theorem chainable_of_evalChain {calls : List Call} {op op' : Operation}
    (evaluated : evalChain rt .self op calls = .ok (op', .self)) :
    ∀ call ∈ calls, call.type ≠ .listSize := by
  induction calls generalizing op with
  | nil =>
      intro call member
      cases member
  | cons call calls ih =>
      rcases ExceptLoop.bind_eq_ok.mp evaluated with ⟨⟨next, answer⟩, performed, evaluated⟩
      have same := answer_of_perform performed
      have self : call.answer = .self := by
        rw [← same]
        cases answer with
        | self => rfl
        | operations => cases calls <;> cases evaluated
      rw [same, self] at evaluated
      intro other member
      rcases List.mem_cons.mp member with rfl | later
      · intro isSize
        cases other <;> cases isSize
        cases self
      · exact ih evaluated other later

/-- The operation which a call stands for, on a name the C client takes, shows that the bin fits
and that no text is cut. -/
theorem fits_of_corresponds {call : Call} {operation : AsOperation}
    (corresponds : Corresponds rt call operation) (nameable : operation.Nameable) :
    call.BinFits rt ∧ call.Uncut rt := by
  cases corresponds with
  | touch =>
      refine ⟨?_, trivial⟩
      rintro _ ⟨⟩
  | @onBin _ bin name action named text acts =>
      refine ⟨?_, acts.uncut⟩
      intro other same text' called'
      rw [named] at same
      cases same
      rcases text with ⟨text, called, same⟩
      rw [called] at called'
      cases called'
      rw [AsOperation.Nameable, same] at nameable
      refine ⟨?_, nameable⟩
      rw [RbStr.Whole, ← same]
      exact name.nulFree

/-- A chain on a fresh Operation is executed as written exactly when no call is `list_size!`,
every bin name has at most 14 bytes, no text is cut, a `uint16_t` counts the calls, and the time
to live is an `int`. -/
theorem executed_iff (rt : Runtime) (env : Unspecified) (op : Operation) (calls : List Call)
    (fresh : op.operations = []) (documented : ∀ call ∈ calls, call.Documented rt) :
    Executed rt env op calls ↔
      (∀ call ∈ calls, call.type ≠ .listSize ∧ call.BinFits rt ∧ call.Uncut rt) ∧
        calls.length < 2 ^ 16 ∧ (-2 ^ 31 ≤ op.ttl ∧ op.ttl < 2 ^ 31) := by
  rcases exists_hashes documented with ⟨hashes, appends, adds⟩
  constructor
  · rintro ⟨op', translated, evaluated, _, done, correspond⟩
    have chainable := chainable_of_evalChain evaluated
    have held := evalChain_of_appends appends chainable op
    rw [evaluated] at held
    cases held
    refine ⟨fun call member => ⟨chainable call member, ?_⟩, ?_,
      (rbOperations2asOperations_eq_ok done).2⟩
    · rcases Aligned.exists_of_mem correspond member with ⟨operation, held, same⟩
      exact fits_of_corresponds same (translated.nameable held)
    · rw [correspond.length_eq]
      exact translated.length_entries_lt
  · rintro ⟨each, few, ttl⟩
    have evaluated := evalChain_of_appends appends (fun call member => (each call member).1) op
    rw [fresh, List.nil_append] at evaluated
    rcases adds fun call member => (each call member).2 with
      ⟨operations, corresponds, adds, nameable⟩
    rw [appends.length_eq, List.length_map] at few
    let op' : Operation := { op with operations := hashes.map .hash }
    have contents : op'.operations = hashes.map .hash := rfl
    rcases exists_rbOperations2asOperations env contents adds nameable few ttl with
      ⟨result, translated, same⟩
    refine ⟨op', result, evaluated, appends, translated, ?_⟩
    rw [same]
    exact corresponds

theorem documented_of_ascii {call : Call} {bin : String}
    (named : call.bin = some (.string ⟨ascii bin, .utf8⟩)) (free : NulFree (ascii bin))
    (taken : call.TakesArguments rt) : call.Documented rt := by
  refine ⟨fun other same => ?_, taken⟩
  rw [named] at same
  cases same
  exact ⟨⟨ascii bin, .utf8⟩, rfl, RbStr.readable_of_nulFree free⟩

/-- A read and a pop, on an Operation without a time to live. -/
theorem executed_read_listPop :
    Executed .sample .blank ⟨[], 0⟩
      [.read (.string ⟨ascii "n", .utf8⟩), .listPop (.string ⟨ascii "l", .utf8⟩) (.integer 1)] := by
  refine (executed_iff _ _ _ _ rfl ?_).mpr ⟨?_, by decide, by decide⟩
  · intro call member
    simp only [List.mem_cons, List.not_mem_nil, or_false] at member
    rcases member with rfl | rfl
    · exact documented_of_ascii rfl (by decide) trivial
    · exact documented_of_ascii rfl (by decide) ⟨1, rfl, by decide⟩
  · intro call member
    simp only [List.mem_cons, List.not_mem_nil, or_false] at member
    rcases member with rfl | rfl
    · refine ⟨by decide, ?_, trivial⟩
      rintro _ ⟨⟩ _ ⟨⟩
      decide
    · refine ⟨by decide, ?_, trivial⟩
      rintro _ ⟨⟩ _ ⟨⟩
      decide

/-- The read after `list_size!` is sent to the Array. -/
theorem not_executed_listSize_read :
    ¬∀ (rt : Runtime) (env : Unspecified) (op : Operation) (calls : List Call),
      op.operations = [] → (∀ call ∈ calls, call.Documented rt) → Executed rt env op calls := by
  intro executed
  let calls : List Call :=
    [.listSize (.string ⟨ascii "l", .utf8⟩), .read (.string ⟨ascii "n", .utf8⟩)]
  have documented : ∀ call ∈ calls, call.Documented .sample := by
    intro call member
    simp only [calls, List.mem_cons, List.not_mem_nil, or_false] at member
    rcases member with rfl | rfl
    · exact documented_of_ascii rfl (by decide) trivial
    · exact documented_of_ascii rfl (by decide) trivial
  rcases executed .sample .blank ⟨[], 0⟩ calls rfl documented with ⟨op', _, evaluated, _⟩
  have stopped : evalChain .sample .self ⟨[], 0⟩ calls = .error (.raised "NoMethodError") := rfl
  rw [stopped] at evaluated
  cases evaluated

end Operation

end AerospikeCRuby
