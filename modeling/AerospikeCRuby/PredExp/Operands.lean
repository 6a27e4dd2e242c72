import AerospikeCRuby.PredExp.Built

/-!
# Integer operands

The comparison methods take any Integer.  For a bin or the elements of a
collection the compiler passes a fixnum through an `unsigned int`, for a time
through an `unsigned long`, and the result is read as a signed 64-bit integer.
-/

namespace AerospikeCRuby

/-- The items `push_2_as_predexp` inserts for the node hash itself. -/
def PredExpNode.compiled (rt : Runtime) (varName : RbVal → CStr) (own : PredExpNode) :
    Except Abort (List AsPredexp) :=
  push2AsPredexp rt varName own.bin (.bool own.predTrue) (some own.filters)

/-- Either an error is raised or the number is emitted as it is, and no fixnum is refused. -/
structure ExactOperand (compiled : Except Abort (List AsPredexp)) (value : ℤ) : Prop where
  emitted : ∀ code, compiled = .ok code → ∃ word, .integerValue word ∈ code
  exact : ∀ code word, compiled = .ok code → .integerValue word ∈ code → word.toInt = value
  accepted : IsFixnum value → ∃ code, compiled = .ok code

/-- The node compares a bin, or the elements of the collection in a bin. -/
def PredExpNode.OnBin (own : PredExpNode) : Prop :=
  own.bin.isSym "record" = false ∧ own.bin.NameNulFree

/-- The node compares a time of the record. -/
def PredExpNode.OnTime (own : PredExpNode) : Prop :=
  own.bin.isSym "record" = true ∧ own.filters.recMethod.isSome

/-- The numbers which the compiler treats as it should. -/
def PredExpNode.Keeps (own : PredExpNode) (value : ℤ) : Prop :=
  if own.bin.isSym "record" then value < 2 ^ 63 ∨ 2 ^ 64 ≤ value
  else 0 ≤ value ∧ value < 2 ^ 32 ∨ ¬IsFixnum value

/-- The operand emitted for a number compared with a bin or an element. -/
def binOperand (value : ℤ) : Option (BitVec 64) :=
  if IsFixnum value then (num2uint value).toOption else none

/-- The operand emitted for a number compared with a time. -/
def timeOperand (value : ℤ) : Option (BitVec 64) :=
  if -2 ^ 63 ≤ value ∧ value < 2 ^ 64 then some (BitVec.ofInt 64 value) else none

theorem binOperand_eq (value : ℤ) :
    binOperand value =
      if -2 ^ 31 ≤ value ∧ value < 2 ^ 32 then some ((BitVec.ofInt 32 value).setWidth 64)
      else none := by
  unfold binOperand num2uint
  split_ifs <;> first | rfl | omega

theorem toOption_num2ulong (rt : Runtime) (value : ℤ) :
    (rt.num2ulong (.integer value)).toOption = timeOperand value := by
  rw [Runtime.num2ulong_integer, timeOperand]
  split_ifs <;> rfl

theorem toInt_binOperand (value : ℤ) :
    ((BitVec.ofInt 32 value).setWidth 64).toInt = value % 2 ^ 32 := by
  have small : (BitVec.ofInt 32 value).toNat < 2 ^ 32 := (BitVec.ofInt 32 value).isLt
  have same : ((BitVec.ofInt 32 value).toNat : ℤ) = value % 2 ^ 32 := by
    rw [BitVec.toNat_ofInt]
    omega
  rw [BitVec.toInt_eq_toNat_of_lt, BitVec.toNat_setWidth, Nat.mod_eq_of_lt (by omega), same]
  rw [BitVec.toNat_setWidth, Nat.mod_eq_of_lt (by omega)]
  omega

theorem toInt_timeOperand (value : ℤ) (lower : -2 ^ 63 ≤ value) (upper : value < 2 ^ 64) :
    (BitVec.ofInt 64 value).toInt = value ↔ value < 2 ^ 63 := by
  rw [BitVec.toInt_ofInt, Int.bmod_def]
  split <;> omega

/-- Where the compiler emits just the operand a rule gives, it is exact when the rule is. -/
theorem exactOperand_iff_of_operand {compiled : Except Abort (List AsPredexp)} {value : ℤ}
    {operand : Option (BitVec 64)}
    (emits : ∀ word, (∃ code, compiled = .ok code ∧ .integerValue word ∈ code) ↔
      operand = some word)
    (compiles : (∃ code, compiled = .ok code) ↔ operand.isSome = true) :
    ExactOperand compiled value ↔
      (∀ word, operand = some word → word.toInt = value) ∧
        (IsFixnum value → operand.isSome = true) := by
  constructor
  · intro kept
    constructor
    · intro word given
      rcases (emits word).mpr given with ⟨code, compiled, member⟩
      exact kept.exact code word compiled member
    · intro fixnum
      exact compiles.mp (kept.accepted fixnum)
  · rintro ⟨exact, accepted⟩
    refine ⟨?_, ?_, fun fixnum => compiles.mpr (accepted fixnum)⟩
    · intro code compiled
      rcases Option.isSome_iff_exists.mp (compiles.mp ⟨code, compiled⟩) with ⟨word, given⟩
      rcases (emits word).mpr given with ⟨code', compiled', member⟩
      rw [compiled, Except.ok.injEq] at compiled'
      exact ⟨word, compiled' ▸ member⟩
    · intro code word compiled member
      exact exact word ((emits word).mp ⟨code, compiled, member⟩)

theorem exact_binOperand_iff (value : ℤ) :
    (∀ word, binOperand value = some word → word.toInt = value) ∧
        (IsFixnum value → (binOperand value).isSome = true) ↔
      0 ≤ value ∧ value < 2 ^ 32 ∨ ¬IsFixnum value := by
  rw [binOperand_eq]
  by_cases within : -2 ^ 31 ≤ value ∧ value < 2 ^ 32
  · simp only [if_pos within, Option.some.injEq, forall_eq', toInt_binOperand, Option.isSome_some,
      implies_true, and_true]
    omega
  · simp only [if_neg within, reduceCtorEq, false_implies, implies_true, Option.isSome_none,
      Bool.false_eq_true, true_and, imp_false]
    omega

theorem exact_timeOperand_iff (value : ℤ) :
    (∀ word, timeOperand value = some word → word.toInt = value) ∧
        (IsFixnum value → (timeOperand value).isSome = true) ↔
      value < 2 ^ 63 ∨ 2 ^ 64 ≤ value := by
  rw [timeOperand]
  by_cases within : -2 ^ 63 ≤ value ∧ value < 2 ^ 64
  · simp only [if_pos within, Option.some.injEq, forall_eq', Option.isSome_some, implies_true,
      and_true, toInt_timeOperand value within.1 within.2]
    omega
  · simp only [if_neg within, reduceCtorEq, false_implies, implies_true, Option.isSome_none,
      Bool.false_eq_true, true_and, imp_false]
    omega

theorem integerValue_mem_code {subject : Subject} {relation : IntegerRelation}
    {operand word : BitVec 64} {name : CStr} {nodeTrue : RbVal} :
    .integerValue word ∈
        (⟨subject, .integer relation operand⟩ : OwnFilter).code name ++ negation nodeTrue ↔
      operand = word := by
  have noValue : AsPredexp.integerValue word ∉ negation nodeTrue := by
    unfold negation
    split <;> simp
  cases subject with
  | elements collection quantifier bin =>
      cases collection <;>
        simp [OwnFilter.code, Comparison.code, Comparison.type, iteration, Collection.bin, noValue,
          eq_comm]
  | _ => simp [OwnFilter.code, Comparison.code, noValue, eq_comm]

/-- A filter that differs from others only in its operand emits just this. -/
theorem exactOperand_iff_of_read {rt : Runtime} {varName : RbVal → CStr} {own : PredExpNode}
    {value : ℤ} {operand : Option (BitVec 64)} {subject : Subject} {relation : IntegerRelation}
    (reads : OwnFilter.read rt own.bin own.filters =
      operand.map fun word => ⟨subject, .integer relation word⟩) :
    ExactOperand (own.compiled rt varName) value ↔
      (∀ word, operand = some word → word.toInt = value) ∧
        (IsFixnum value → operand.isSome = true) := by
  apply exactOperand_iff_of_operand
  · intro word
    simp only [PredExpNode.compiled, push2AsPredexp_eq_ok, Option.some.injEq]
    constructor
    · rintro ⟨_, ⟨_, filter, rfl, found, rfl⟩, member⟩
      rw [reads, Option.map_eq_some_iff] at found
      rcases found with ⟨given, same, rfl⟩
      rw [same, integerValue_mem_code.mp member]
    · intro given
      have found : OwnFilter.read rt own.bin own.filters =
          some ⟨subject, .integer relation word⟩ := by
        rw [reads, given]
        rfl
      exact ⟨_, ⟨own.filters, _, rfl, found, rfl⟩, integerValue_mem_code.mpr rfl⟩
  · simp only [PredExpNode.compiled, exists_push2AsPredexp, Option.bind_some, reads,
      Option.isSome_map]

section Nodes

variable {own : PredExpNode} {value : ℤ} (sound : own.Sound)
  (compares : own.filters.value = some (.integer value))

include sound compares

theorem PredExpNode.Sound.relation :
    ∃ relation : IntegerRelation, aref own.filters.filter = sym relation.name := by
  rcases sound.filters.compared _ compares with ⟨filter, given, compared⟩
  cases compared with
  | integer relation _ =>
      refine ⟨relation, ?_⟩
      rw [given]
      rfl

theorem PredExpNode.Sound.readComparison :
    ∃ relation, Comparison.read (aref own.filters.filter) (aref own.filters.value) =
      (binOperand value).map (.integer relation) := by
  rcases sound.relation compares with ⟨relation, named⟩
  refine ⟨relation, ?_⟩
  have held : aref own.filters.value = .integer value := by
    rw [compares]
    rfl
  rw [named, held, Comparison.read, binOperand]
  split
  · rw [IntegerRelation.named_sym]
    cases (num2uint value).toOption <;> rfl
  · rfl

theorem PredExpNode.Sound.read_of_bin {rt : Runtime} (onBin : own.OnBin) :
    ∃ subject relation, OwnFilter.read rt own.bin own.filters =
      (binOperand value).map fun word => ⟨subject, .integer relation word⟩ := by
  rcases nodeBinName_of_nulFree onBin.1 onBin.2 with ⟨name, named⟩
  rcases sound.readComparison compares with ⟨relation, comparison⟩
  simp only [OwnFilter.read, named, ExceptLoop.toOption_ok, Option.bind_eq_bind, Option.bind_some]
  cases given : own.filters.collection with
  | none =>
      refine ⟨.bin name, relation, ?_⟩
      simp only [aref, Option.getD_none, RbVal.isNil, if_true]
      simp only [OwnFilter.readBin, comparison, Option.bind_eq_bind]
      cases binOperand value <;> rfl
  | some collected =>
      rcases sound.filters.collected collected given with
        ⟨collection, quantifier, var, rfl, predicate, variable_⟩
      refine ⟨.elements collection quantifier name, relation, ?_⟩
      have present : (aref (some (sym collection.name))).isNil = false := rfl
      simp only [present, Bool.false_eq_true, if_false, OwnFilter.readCollection, comparison]
      rw [given, predicate, variable_]
      simp only [aref, Option.getD_some, RbVal.isNil, Bool.false_eq_true, if_false,
        Collection.named_sym, Quantifier.named_sym, Option.bind_eq_bind]
      cases binOperand value <;> rfl

theorem PredExpNode.Sound.read_of_time {rt : Runtime} (onTime : own.OnTime) :
    ∃ subject relation, OwnFilter.read rt own.bin own.filters =
      (timeOperand value).map fun word => ⟨subject, .integer relation word⟩ := by
  rcases sound.relation compares with ⟨relation, comparison⟩
  have held : aref own.filters.value = .integer value := by
    rw [compares]
    rfl
  rcases Option.isSome_iff_exists.mp onTime.2 with ⟨method, given⟩
  have timed : ∃ subject, Subject.readTime (aref own.filters.recMethod) = some subject := by
    rw [given]
    rcases sound.filters.timed method given with rfl | rfl
    · exact ⟨.lastUpdate, rfl⟩
    · exact ⟨.voidTime, rfl⟩
  rcases timed with ⟨subject, readTime⟩
  refine ⟨subject, relation, ?_⟩
  simp only [OwnFilter.read, nodeBinName_of_record onTime.1, ExceptLoop.toOption_ok,
    Option.bind_eq_bind, Option.bind_some, OwnFilter.readRecord, readTime, held, comparison,
    IntegerRelation.named_sym, toOption_num2ulong]
  cases timeOperand value <;> rfl

end Nodes

/-- For every Integer compared by a node that the builder makes, the compiler emits the number or
raises, and takes every fixnum, exactly where its conversion keeps the number. -/
theorem exactOperand_iff {rt : Runtime} {varName : RbVal → CStr} {depth : ℕ} {calls : List Call}
    {objects : Objects} (performed : performAll rt depth calls {} = .ok objects)
    {own : PredExpNode} (member : own ∈ objects.nodes) {value : ℤ}
    (compares : own.filters.value = some (.integer value)) (placed : own.OnBin ∨ own.OnTime) :
    ExactOperand (own.compiled rt varName) value ↔ own.Keeps value := by
  have sound : own.Sound := by
    apply performAll_sound _ performed own member
    intro other absent
    cases absent
  rcases placed with onBin | onTime
  · rcases sound.read_of_bin compares onBin with ⟨subject, relation, reads⟩
    rw [exactOperand_iff_of_read reads, exact_binOperand_iff, PredExpNode.Keeps, onBin.1]
    simp
  · rcases sound.read_of_time compares onTime with ⟨subject, relation, reads⟩
    rw [exactOperand_iff_of_read reads, exact_timeOperand_iff, PredExpNode.Keeps, onTime.1]
    simp

/-- The node of `PredExp["a"].gt(value)`. -/
def greaterNode (value : ℤ) : PredExpNode where
  bin := .string ⟨ascii "a", .utf8⟩
  filters := { filter := some (sym "gt"), value := some (.integer value) }

theorem performAll_gt (value : ℤ) :
    performAll .sample 100
        [.newString ⟨ascii "a", .utf8⟩, .gt 0 (.value (.integer value))] {} =
      .ok ⟨[greaterNode value], []⟩ := rfl

/-- A small number is emitted as it is. -/
theorem exactOperand_iff_five :
    ExactOperand ((greaterNode 5).compiled .sample fun _ => cstr []) 5 ↔ (greaterNode 5).Keeps 5 :=
  exactOperand_iff (performAll_gt 5) (List.mem_singleton_self _) rfl
    (Or.inl ⟨rfl, show NulFree (ascii "a") by decide⟩)

/-- `gt(-1)` compares with 4294967295, and `gt(2 ** 32)` is refused. -/
theorem not_exactOperand : ∃ below above : Objects,
    performAll .sample 100 [.newString ⟨ascii "a", .utf8⟩, .gt 0 (.value (.integer (-1)))] {} =
        .ok below ∧
      performAll .sample 100
          [.newString ⟨ascii "a", .utf8⟩, .gt 0 (.value (.integer (2 ^ 32)))] {} = .ok above ∧
      (∃ own ∈ below.nodes, own.compiled .sample (fun _ => cstr []) =
        .ok [.bin .integer (cstr (ascii "a")), .integerValue 4294967295, .integer .greater] ∧
        ¬ExactOperand (own.compiled .sample fun _ => cstr []) (-1)) ∧
      ∃ own ∈ above.nodes, own.compiled .sample (fun _ => cstr []) =
        .error (.rangeError "integer too big to convert to unsigned int") ∧
        ¬ExactOperand (own.compiled .sample fun _ => cstr []) (2 ^ 32) := by
  refine ⟨_, _, performAll_gt (-1), performAll_gt (2 ^ 32), ⟨_, List.mem_singleton_self _, ?_⟩,
    _, List.mem_singleton_self _, ?_⟩
  · have emitted : (greaterNode (-1)).compiled .sample (fun _ => cstr []) =
        .ok [.bin .integer (cstr (ascii "a")), .integerValue 4294967295, .integer .greater] := rfl
    refine ⟨emitted, fun kept => ?_⟩
    have same := kept.exact _ 4294967295 emitted (by simp)
    exact absurd same (by decide)
  · have refused : (greaterNode (2 ^ 32)).compiled .sample (fun _ => cstr []) =
        .error (.rangeError "integer too big to convert to unsigned int") := rfl
    refine ⟨refused, fun kept => ?_⟩
    rcases kept.accepted (by decide) with ⟨code, compiled⟩
    rw [refused] at compiled
    cases compiled

end AerospikeCRuby
