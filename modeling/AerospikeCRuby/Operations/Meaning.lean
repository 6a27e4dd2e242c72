import AerospikeCRuby.Operations.Operands

/-!
# What a Hash asks for

The C operation which the fields of one Hash spell out, and what an iteration of
the translation does with that Hash: it adds the operation, raises, or reads
through a `bin_name` which nothing assigned.
-/

namespace AerospikeCRuby

section Requests

variable (rt : Runtime) (entries : List (RbVal × RbVal))

def HasField (field : String) : Prop :=
  ∃ entry ∈ entries, entry.1.isSym field = true

/-- The field is a fixnum, the one of this word. -/
def IntegerAt (field : String) (word : BitVec 64) : Prop :=
  ∃ number, hashAref entries field = .integer number ∧ IsFixnum number ∧ word.toInt = number

/-- The Hash spells out what an operation of this type does to its bin. -/
inductive Spells : OperationType → BinAction → Prop where
  | read : Spells .read .read
  | increment {value} : IntegerAt entries "value" value → Spells .increment (.incr value)
  | append {str} : TextIs rt (hashAref entries "value") str → Spells .append (.appendStr str)
  | prepend {str} : TextIs rt (hashAref entries "value") str → Spells .prepend (.prependStr str)
  | write {value} : HasField entries "value" → Written rt (hashAref entries "value") value →
      Spells .write (.write value)
  | listAppend {value} : HasField entries "value" → Passes rt (hashAref entries "value") value →
      Spells .listAppend (.listAppend value)
  | listSet {index value} : IntegerAt entries "at" index → HasField entries "value" →
      Passes rt (hashAref entries "value") value → Spells .listSet (.listSet index value)
  | listTrim {index count} : IntegerAt entries "value" index →
      IntegerAt entries "count" count → Spells .listTrim (.listTrim index count)
  | listClear : Spells .listClear .listClear
  | listPop {index} : IntegerAt entries "value" index → Spells .listPop (.listPop index)
  | listPopRange {index count} : IntegerAt entries "value" index →
      IntegerAt entries "count" count → Spells .listPopRange (.listPopRange index count)
  | listPopRangeFrom {index} : IntegerAt entries "value" index →
      Spells .listPopRangeFrom (.listPopRangeFrom index)
  | listRemove {index} : IntegerAt entries "value" index →
      Spells .listRemove (.listRemove index)
  | listRemoveRange {index count} : IntegerAt entries "value" index →
      IntegerAt entries "count" count → Spells .listRemoveRange (.listRemoveRange index count)
  | listRemoveRangeFrom {index} : IntegerAt entries "value" index →
      Spells .listRemoveRangeFrom (.listRemoveRangeFrom index)
  | listGet {index} : IntegerAt entries "value" index → Spells .listGet (.listGet index)
  | listGetRange {index count} : IntegerAt entries "value" index →
      IntegerAt entries "count" count → Spells .listGetRange (.listGetRange index count)
  | listGetRangeFrom {index} : IntegerAt entries "value" index →
      Spells .listGetRangeFrom (.listGetRangeFrom index)
  | listSize : Spells .listSize .listSize

/-- The Hash asks for this operation.  A bin is needed by every operation but `touch`. -/
inductive Requests : AsOperation → Prop where
  | touch : (hashAref entries "operation").isSym "touch" = true → Requests .touch
  | onBin {type name action} : (hashAref entries "operation").isSym type.name = true →
      TextIs rt (hashAref entries "bin") name → Spells rt entries type action →
      Requests (.onBin name action)

/-- The operation stores the value itself, of whatever type it is. -/
def StoresValue : OperationType → Prop
  | .write | .listAppend | .listSet => True
  | _ => False

/-- The integers which an operation of this type takes are fixnums of the Hash. -/
def IntegersGiven : OperationType → Prop
  | .increment | .listPop | .listPopRangeFrom | .listRemove | .listRemoveRangeFrom | .listGet
  | .listGetRangeFrom => ∃ word, IntegerAt entries "value" word
  | .listTrim | .listPopRange | .listRemoveRange | .listGetRange =>
      (∃ word, IntegerAt entries "value" word) ∧ ∃ word, IntegerAt entries "count" word
  | .listSet => ∃ word, IntegerAt entries "at" word
  | _ => True

/-- The Hash has the value which an operation of this type needs, with texts that are not cut. -/
def ValueGiven (type : OperationType) : Prop :=
  (StoresValue type → HasField entries "value") ∧
    ValueTaken rt (hashAref entries "value") type ∧ ValueWhole rt (hashAref entries "value") type

/-- The bin is missing, or a text. -/
def BinTaken : Prop :=
  hashAref entries "bin" = .nil ∨ IsCText rt (hashAref entries "bin")

/-- The bin is no text, or the operation is unknown, or its value is of a type it does not take. -/
def HashRefused : Prop :=
  ¬BinTaken rt entries ∨
    (∀ type : OperationType, (hashAref entries "operation").isSym type.name = false) ∨
    ∃ type : OperationType, (hashAref entries "operation").isSym type.name = true ∧
      ¬ValueTaken rt (hashAref entries "value") type

/-- The operation needs a bin and the Hash has none. -/
def LacksBin : Prop :=
  hashAref entries "bin" = .nil ∧ (hashAref entries "operation").isSym "touch" = false

end Requests

variable {rt : Runtime} {env : Unspecified} {entries : List (RbVal × RbVal)}

section Steps

theorem isNil_eq_true {value : RbVal} : value.isNil = true ↔ value = .nil := by
  cases value <;> simp [RbVal.isNil]

theorem ok_bind {α β : Type} (value : α) (next : α → Except Abort β) :
    ((.ok value : Except Abort α) >>= next) = next value := rfl

theorem survives_valInspect (value : RbVal) : Survives (env.valInspect value) :=
  survives_bind (survives_mapError _) survives_stringValueCStr

theorem survives_valueToCstr (value : RbVal) : Survives (valueToCstr rt value) :=
  survives_bind (survives_stringValue value) survives_stringValueCStr

theorem fix2long_of_fixnum (env : Unspecified) {number : ℤ} (fixnum : IsFixnum number) :
    env.fix2long (.integer number) = fix2long number := by
  rw [Unspecified.fix2long, if_pos fixnum]

theorem fix2long_of_integerAt (env : Unspecified) {field : String} {word : BitVec 64}
    (integer : IntegerAt entries field word) : env.fix2long (hashAref entries field) = word := by
  rcases integer with ⟨number, found, fixnum, same⟩
  rw [found, fix2long_of_fixnum env fixnum, fix2long, ← same, BitVec.ofInt_toInt]

/-- The translation takes an action of this meaning from the Hash, whatever C leaves open. -/
def Operated (rt : Runtime) (entries : List (RbVal × RbVal)) (type : OperationType)
    (means : BinAction → Prop) : Prop :=
  ∃ action, means action ∧ ∀ env : Unspecified,
    env.operands rt (.hash entries) (hashAref entries "value") type = .ok (some action)

section Operated

variable {type : OperationType} {means : BinAction → Prop}

theorem operated_of_integer (action : BitVec 64 → BinAction) {word : BitVec 64}
    (given : IntegerAt entries "value" word) (meant : means (action word))
    (operands : ∀ env : Unspecified,
      env.operands rt (.hash entries) (hashAref entries "value") type =
        .ok (some (action (env.fix2long (hashAref entries "value"))))) :
    Operated rt entries type means := by
  refine ⟨_, meant, fun env => ?_⟩
  rw [operands, fix2long_of_integerAt env given]

theorem operated_of_integers (action : BitVec 64 → BitVec 64 → BinAction)
    {index count : BitVec 64} (given : IntegerAt entries "value" index)
    (given' : IntegerAt entries "count" count) (meant : means (action index count))
    (operands : ∀ env : Unspecified,
      env.operands rt (.hash entries) (hashAref entries "value") type =
        .ok (some (action (env.fix2long (hashAref entries "value"))
          (env.fix2long (hashAref entries "count"))))) :
    Operated rt entries type means := by
  refine ⟨_, meant, fun env => ?_⟩
  rw [operands, fix2long_of_integerAt env given, fix2long_of_integerAt env given']

theorem operated_of_converted {α : Type} (action : α → BinAction) {convert : Except Abort α}
    {value : α} (converted : convert = .ok value) (meant : means (action value))
    (operands : ∀ env : Unspecified,
      env.operands rt (.hash entries) (hashAref entries "value") type =
        (do let value ← convert; .ok (some (action value)))) :
    Operated rt entries type means := by
  refine ⟨_, meant, fun env => ?_⟩
  rw [operands, converted, ok_bind]

theorem operated_of_listSet {index : BitVec 64} {value : AsVal}
    (given : IntegerAt entries "at" index)
    (converted : rbVal2asVal rt (hashAref entries "value") = .ok value)
    (meant : means (.listSet index value)) : Operated rt entries .listSet means := by
  refine ⟨_, meant, fun env => ?_⟩
  rw [Unspecified.operands, converted, ← fix2long_of_integerAt env given]
  rfl

end Operated

/-- A Hash with the integers and the value which its type needs spells out what is taken from
it. -/
theorem operated_of_given {type : OperationType} (other : type ≠ .touch)
    (integers : IntegersGiven entries type) (value : ValueGiven rt entries type) :
    Operated rt entries type (Spells rt entries type) := by
  rcases value with ⟨stored, taken, whole⟩
  cases type with
  | touch => exact absurd rfl other
  | read => exact ⟨_, .read, fun _ => rfl⟩
  | listClear => exact ⟨_, .listClear, fun _ => rfl⟩
  | listSize => exact ⟨_, .listSize, fun _ => rfl⟩
  | append =>
      rcases taken with ⟨text, converted, _⟩
      have spelled := valueToCstr_of_whole converted (whole text converted)
      exact operated_of_converted .appendStr spelled (.append ⟨text, converted, rfl⟩) fun _ => rfl
  | prepend =>
      rcases taken with ⟨text, converted, _⟩
      have spelled := valueToCstr_of_whole converted (whole text converted)
      exact operated_of_converted .prependStr spelled (.prepend ⟨text, converted, rfl⟩) fun _ => rfl
  | write =>
      rcases exists_written taken whole with ⟨value, written, converted⟩
      exact operated_of_converted .write converted (.write (stored trivial) written) fun _ => rfl
  | listAppend =>
      rcases exists_passes taken whole with ⟨value, passes, converted⟩
      exact operated_of_converted .listAppend converted (.listAppend (stored trivial) passes)
        fun _ => rfl
  | listSet =>
      rcases integers with ⟨index, given⟩
      rcases exists_passes taken whole with ⟨value, passes, converted⟩
      exact operated_of_listSet given converted (.listSet given (stored trivial) passes)
  | increment =>
      rcases integers with ⟨value, given⟩
      exact operated_of_integer .incr given (.increment given) fun _ => rfl
  | listPop =>
      rcases integers with ⟨index, given⟩
      exact operated_of_integer .listPop given (.listPop given) fun _ => rfl
  | listPopRangeFrom =>
      rcases integers with ⟨index, given⟩
      exact operated_of_integer .listPopRangeFrom given (.listPopRangeFrom given) fun _ => rfl
  | listRemove =>
      rcases integers with ⟨index, given⟩
      exact operated_of_integer .listRemove given (.listRemove given) fun _ => rfl
  | listRemoveRangeFrom =>
      rcases integers with ⟨index, given⟩
      exact operated_of_integer .listRemoveRangeFrom given (.listRemoveRangeFrom given) fun _ => rfl
  | listGet =>
      rcases integers with ⟨index, given⟩
      exact operated_of_integer .listGet given (.listGet given) fun _ => rfl
  | listGetRangeFrom =>
      rcases integers with ⟨index, given⟩
      exact operated_of_integer .listGetRangeFrom given (.listGetRangeFrom given) fun _ => rfl
  | listTrim =>
      rcases integers with ⟨⟨index, given⟩, count, given'⟩
      exact operated_of_integers .listTrim given given' (.listTrim given given') fun _ => rfl
  | listPopRange =>
      rcases integers with ⟨⟨index, given⟩, count, given'⟩
      exact operated_of_integers .listPopRange given given' (.listPopRange given given')
        fun _ => rfl
  | listRemoveRange =>
      rcases integers with ⟨⟨index, given⟩, count, given'⟩
      exact operated_of_integers .listRemoveRange given given' (.listRemoveRange given given')
        fun _ => rfl
  | listGetRange =>
      rcases integers with ⟨⟨index, given⟩, count, given'⟩
      exact operated_of_integers .listGetRange given given' (.listGetRange given given')
        fun _ => rfl

theorem Spells.integersGiven {type : OperationType} {action : BinAction}
    (spells : Spells rt entries type action) : IntegersGiven entries type := by
  cases spells with
  | listTrim index count => exact ⟨⟨_, index⟩, _, count⟩
  | listPopRange index count => exact ⟨⟨_, index⟩, _, count⟩
  | listRemoveRange index count => exact ⟨⟨_, index⟩, _, count⟩
  | listGetRange index count => exact ⟨⟨_, index⟩, _, count⟩
  | listSet index _ _ => exact ⟨_, index⟩
  | increment value => exact ⟨_, value⟩
  | listPop index => exact ⟨_, index⟩
  | listPopRangeFrom index => exact ⟨_, index⟩
  | listRemove index => exact ⟨_, index⟩
  | listRemoveRangeFrom index => exact ⟨_, index⟩
  | listGet index => exact ⟨_, index⟩
  | listGetRangeFrom index => exact ⟨_, index⟩
  | _ => trivial

/-- What is spelled out stores a value of the Hash, and cuts none of its texts. -/
theorem Spells.valueGiven {type : OperationType} {action : BinAction}
    (spells : Spells rt entries type action)
    (taken : ValueTaken rt (hashAref entries "value") type) : ValueGiven rt entries type := by
  have text {str : CStr} (spelled : TextIs rt (hashAref entries "value") str) (text : RbStr)
      (converted : rt.stringValue (hashAref entries "value") = .ok text) : text.Whole := by
    rcases spelled.whole with ⟨text', converted', free⟩
    rw [converted] at converted'
    cases converted'
    exact free
  cases spells with
  | append spelled => exact ⟨False.elim, taken, text spelled⟩
  | prepend spelled => exact ⟨False.elim, taken, text spelled⟩
  | write stored written => exact ⟨fun _ => stored, taken, written.whole⟩
  | listAppend stored passes => exact ⟨fun _ => stored, taken, passes.whole⟩
  | listSet _ stored passes => exact ⟨fun _ => stored, taken, passes.whole⟩
  | _ => exact ⟨False.elim, trivial, trivial⟩

theorem operands_raises {type : OperationType}
    (refused : ¬ValueTaken rt (hashAref entries "value") type) :
    Raises (env.operands rt (.hash entries) (hashAref entries "value") type) := by
  have list : ¬IsListValue rt (hashAref entries "value") →
      Raises (rbVal2asVal rt (hashAref entries "value")) := fun refused =>
    raises_of_survives (survives_rbVal2asVal _) fun value converted =>
      refused (rbVal2asVal_isOk_iff.mp ⟨value, converted⟩)
  have text : ¬IsCText rt (hashAref entries "value") →
      Raises (valueToCstr rt (hashAref entries "value")) := fun refused =>
    raises_of_survives (survives_valueToCstr _) fun name converted =>
      refused (valueToCstr_isOk_iff.mp ⟨name, converted⟩)
  cases type with
  | append => exact raises_bind (text refused)
  | prepend => exact raises_bind (text refused)
  | write =>
      apply raises_bind
      refine raises_of_survives (survives_writeOperand _) fun value converted => ?_
      exact refused (writeOperand_isOk_iff.mp ⟨value, converted⟩)
  | listAppend => exact raises_bind (list refused)
  | listSet => exact raises_bind_of_survives (survives_ok _) fun _ => raises_bind (list refused)
  | _ => exact absurd trivial refused

theorem exists_operands (env : Unspecified) {type : OperationType}
    (taken : ValueTaken rt (hashAref entries "value") type) :
    ∃ action, env.operands rt (.hash entries) (hashAref entries "value") type = .ok action ∧
      (action = none ↔ type = .touch) := by
  cases type with
  | append =>
      rcases valueToCstr_isOk_iff.mpr taken with ⟨text, converted⟩
      exact ⟨some (.appendStr text), by rw [Unspecified.operands, converted]; rfl, by simp⟩
  | prepend =>
      rcases valueToCstr_isOk_iff.mpr taken with ⟨text, converted⟩
      exact ⟨some (.prependStr text), by rw [Unspecified.operands, converted]; rfl, by simp⟩
  | write =>
      rcases writeOperand_isOk_iff.mpr taken with ⟨value, converted⟩
      exact ⟨some (.write value), by rw [Unspecified.operands, converted]; rfl, by simp⟩
  | listAppend =>
      rcases rbVal2asVal_isOk_iff.mpr taken with ⟨value, converted⟩
      exact ⟨some (.listAppend value), by rw [Unspecified.operands, converted]; rfl, by simp⟩
  | listSet =>
      rcases rbVal2asVal_isOk_iff.mpr taken with ⟨value, converted⟩
      refine ⟨some (.listSet (env.fix2long (hashAref entries "at")) value), ?_, by simp⟩
      rw [Unspecified.operands, converted]
      rfl
  | _ => exact ⟨_, rfl, by simp⟩

variable {i : ℕ} {ops : AsOperations}

theorem binName_of_nil (absent : hashAref entries "bin" = .nil) :
    env.binName rt i (hashAref entries "bin") = .ok (env.stale i) := by
  rw [absent]
  rfl

theorem binName_of_cstr {value : RbVal} {name : CStr}
    (converted : valueToCstr rt value = .ok name) :
    env.binName rt i value = .ok (some name) := by
  cases value with
  | nil => cases converted
  | _ =>
      unfold Unspecified.binName
      rw [converted]
      rfl

theorem survives_binName (value : RbVal) : Survives (env.binName rt i value) := by
  unfold Unspecified.binName
  split
  · exact survives_ok _
  · exact survives_bind (survives_valueToCstr _) fun _ => survives_ok _

theorem exists_binName (taken : BinTaken rt entries) :
    ∃ name, env.binName rt i (hashAref entries "bin") = .ok name := by
  rcases taken with absent | text
  · exact ⟨_, binName_of_nil absent⟩
  · rcases valueToCstr_isOk_iff.mpr text with ⟨name, converted⟩
    exact ⟨_, binName_of_cstr converted⟩

/-- A bin name and operands which convert are what is added. -/
theorem addOperation_of_converted {type : OperationType} {name : Option CStr}
    {action : Option BinAction}
    (known : (hashAref entries "operation").isSym type.name = true)
    (named : env.binName rt i (hashAref entries "bin") = .ok name)
    (converted :
      env.operands rt (.hash entries) (hashAref entries "value") type = .ok action) :
    env.addOperation rt i ops (.hash entries) = Unspecified.addOn ops name action := by
  have found := OperationType.ofValue_eq_some.mpr known
  simp only [Unspecified.addOperation, rbHashAref, named, found, converted, bind, Except.bind]

/-- The iteration of this Hash adds the operation, whatever C leaves open. -/
def Adds (rt : Runtime) (entries : List (RbVal × RbVal)) (operation : AsOperation) : Prop :=
  ∀ (env : Unspecified) (i : ℕ) (ops : AsOperations),
    env.addOperation rt i ops (.hash entries) = .ok (ops.add operation).2

theorem adds_touch (known : (hashAref entries "operation").isSym "touch" = true)
    (taken : BinTaken rt entries) : Adds rt entries .touch := by
  intro env i ops
  rcases @exists_binName rt env entries i taken with ⟨name, named⟩
  have touch : OperationType.name .touch = "touch" := rfl
  rw [addOperation_of_converted (touch ▸ known) named rfl]
  cases name <;> rfl

theorem adds_onBin {type : OperationType} {action : BinAction} {text : RbStr}
    (known : (hashAref entries "operation").isSym type.name = true)
    (named : rt.stringValue (hashAref entries "bin") = .ok text) (free : text.Whole)
    (operands : ∀ env : Unspecified,
      env.operands rt (.hash entries) (hashAref entries "value") type = .ok (some action)) :
    Adds rt entries (.onBin ⟨text.bytes, free⟩ action) := by
  intro env i ops
  have converted := valueToCstr_of_whole named free
  rw [addOperation_of_converted known (binName_of_cstr converted) (operands env)]
  rfl

variable (env i ops)

theorem addOperation_raises (refused : HashRefused rt entries) :
    Raises (env.addOperation rt i ops (.hash entries)) := by
  show Raises (env.binName rt i (hashAref entries "bin") >>= _)
  have survives : Survives (env.binName rt i (hashAref entries "bin")) := survives_binName _
  rcases refused with noText | unknown | ⟨type, known, refused⟩
  · apply raises_bind
    apply raises_of_survives survives
    intro name named
    unfold Unspecified.binName at named
    split at named
    · next absent => exact noText (Or.inl (isNil_eq_true.mp absent))
    · rcases ExceptLoop.bind_eq_ok.mp named with ⟨text, converted, _⟩
      exact noText (Or.inr (valueToCstr_isOk_iff.mp ⟨text, converted⟩))
  · apply raises_bind_of_survives survives
    intro name
    have found := OperationType.ofValue_eq_none unknown
    simp only [rbHashAref, ok_bind, found]
    apply raises_bind_of_survives (survives_valInspect _)
    intro inspected
    exact ⟨_, rfl, by simp⟩
  · apply raises_bind_of_survives survives
    intro name
    have found := OperationType.ofValue_eq_some.mpr known
    simp only [rbHashAref, ok_bind, found]
    exact raises_bind (operands_raises refused)

/-- A Hash which is not refused is of a known type and its value is taken. -/
theorem exists_type_of_not_refused (taken : ¬HashRefused rt entries) :
    ∃ type : OperationType, (hashAref entries "operation").isSym type.name = true ∧
      ValueTaken rt (hashAref entries "value") type := by
  by_contra none
  apply taken
  by_cases unknown : ∀ type : OperationType,
      (hashAref entries "operation").isSym type.name = false
  · exact Or.inr (Or.inl unknown)
  · rcases not_forall.mp unknown with ⟨type, known⟩
    rw [Bool.not_eq_false] at known
    exact Or.inr (Or.inr ⟨type, known, fun value => none ⟨type, known, value⟩⟩)

variable {env} in
/-- Where nothing assigned `bin_name` and nothing readable is left in it, the process ends. -/
theorem addOperation_of_lacksBin (taken : ¬HashRefused rt entries) (lacks : LacksBin entries)
    (nothing : env.stale i = none) :
    env.addOperation rt i ops (.hash entries) = .error .nullDeref := by
  rcases lacks with ⟨absent, other⟩
  rcases exists_type_of_not_refused taken with ⟨type, known, value⟩
  rcases exists_operands env value with ⟨action, converted, touch⟩
  rw [addOperation_of_converted known (binName_of_nil absent) converted, nothing]
  cases action with
  | some action => rfl
  | none =>
      rw [touch.mp rfl] at known
      exact absurd known (by rw [OperationType.name, other]; exact Bool.false_ne_true)

theorem exists_addOperation (taken : ¬HashRefused rt entries) (named : ¬LacksBin entries) :
    ∃ ops', env.addOperation rt i ops (.hash entries) = .ok ops' := by
  rcases exists_type_of_not_refused taken with ⟨type, known, value⟩
  rcases exists_operands env value with ⟨action, converted, touch⟩
  have bin : BinTaken rt entries := by
    by_contra noText
    exact taken (Or.inl noText)
  rcases bin with absent | text
  · -- without a bin the Hash is one of a touch
    have isTouch : (hashAref entries "operation").isSym "touch" = true := by
      by_contra other
      exact named ⟨absent, Bool.eq_false_iff.mpr other⟩
    have same : type = .touch := by
      have found := OperationType.ofValue_eq_some.mpr known
      have touch : OperationType.ofValue (hashAref entries "operation") = some .touch :=
        OperationType.ofValue_eq_some.mpr isTouch
      rw [found] at touch
      exact Option.some.inj touch
    rw [addOperation_of_converted known (binName_of_nil absent) converted, touch.mpr same]
    cases env.stale i <;> exact ⟨_, rfl⟩
  · rcases valueToCstr_isOk_iff.mpr text with ⟨name, text⟩
    rw [addOperation_of_converted known (binName_of_cstr text) converted]
    cases action <;> exact ⟨_, rfl⟩

/-- Only a missing bin can end the process. -/
theorem survives_addOperation (named : ¬LacksBin entries) :
    Survives (env.addOperation rt i ops (.hash entries)) := by
  by_cases refused : HashRefused rt entries
  · rcases addOperation_raises env i ops refused with ⟨failure, raised, ruby⟩
    rw [raised]
    intro ended
    cases ended
    exact ruby rfl
  · rcases exists_addOperation env i ops refused named with ⟨ops', taken⟩
    rw [taken]
    exact survives_ok _

end Steps

/-- Where each Hash adds an operation, the loop offers these to the C client in order. -/
theorem addOperations_of_adds (env : Unspecified) (i : ℕ) (ops : AsOperations)
    {hashes : List (List (RbVal × RbVal))} {operations : List AsOperation}
    (adds : List.Forall₂ (Adds rt) hashes operations) :
    env.addOperations rt i ops (hashes.map .hash) = .ok (ops.addAll operations) := by
  induction adds generalizing i ops with
  | nil => rfl
  | @cons entries operation hashes operations added _ ih =>
      rw [List.map_cons, Unspecified.addOperations, added env i ops, ok_bind]
      exact ih (i + 1) (ops.add operation).2

/-- Where neither the number of Hashes nor the time to live is refused, the loop is entered. -/
theorem rbOperations2asOperations_eq (env : Unspecified) {op : Operation}
    (few : op.operations.length < 2 ^ 31) (ttl : -2 ^ 31 ≤ op.ttl ∧ op.ttl < 2 ^ 31) :
    env.rbOperations2asOperations rt op =
      env.addOperations rt 0
        { AsOperations.new op.operations.length with ttl := BitVec.ofInt 32 op.ttl }
        op.operations := by
  have count : rbAryLenInt op.operations = .ok op.operations.length :=
    rbAryLenInt_eq_ok.mpr ⟨few, rfl⟩
  have ttlRead : fix2int op.ttl = .ok op.ttl := by rw [fix2int, if_pos ttl]
  rw [Unspecified.rbOperations2asOperations, count, ttlRead]
  rfl

/-- The whole translation, of at most as many Hashes as a `uint16_t` counts, into operations which
the C client takes. -/
theorem exists_rbOperations2asOperations (env : Unspecified) {op : Operation}
    {hashes : List (List (RbVal × RbVal))} {operations : List AsOperation}
    (contents : op.operations = hashes.map .hash)
    (adds : List.Forall₂ (Adds rt) hashes operations)
    (nameable : ∀ operation ∈ operations, operation.Nameable)
    (few : hashes.length < 2 ^ 16) (ttl : -2 ^ 31 ≤ op.ttl ∧ op.ttl < 2 ^ 31) :
    ∃ result, env.rbOperations2asOperations rt op = .ok result ∧ result.entries = operations := by
  have length : op.operations.length = hashes.length := by rw [contents, List.length_map]
  let ops : AsOperations :=
    { AsOperations.new op.operations.length with ttl := BitVec.ofInt 32 op.ttl }
  refine ⟨ops.addAll operations, ?_, ?_⟩
  · rw [rbOperations2asOperations_eq env (by omega) ttl]
    have translated := addOperations_of_adds env 0 ops adds
    rwa [← contents] at translated
  · rw [AsOperations.entries_addAll_new]
    refine BoundedList.take_filter_eq_self.mpr ⟨nameable, ?_⟩
    rw [length, asOperationsCapacity, Nat.mod_eq_of_lt few, adds.length_eq]

/-- A translation which goes through read both the number of Hashes and the time to live. -/
theorem rbOperations2asOperations_eq_ok {op : Operation} {result : AsOperations}
    (translated : env.rbOperations2asOperations rt op = .ok result) :
    op.operations.length < 2 ^ 31 ∧ (-2 ^ 31 ≤ op.ttl ∧ op.ttl < 2 ^ 31) := by
  rcases ExceptLoop.bind_eq_ok.mp translated with ⟨count, counted, translated⟩
  rcases ExceptLoop.bind_eq_ok.mp translated with ⟨ttl, read, _⟩
  refine ⟨(rbAryLenInt_eq_ok.mp counted).1, ?_⟩
  by_contra outside
  rw [fix2int, if_neg outside] at read
  cases read

end AerospikeCRuby
