import AerospikeCRuby.Library.ExceptLoop
import AerospikeCRuby.Operations.Meaning

/-!
# Policies

An `AerospikeC::Policy` takes nine options.  It keeps each that is given as an
attribute, and copies those which concern commands of its type into a struct of
the C client, through a buffer whose fields are narrower than the Integers of
Ruby.  An option may thus be shown which no command obeys.
-/

namespace AerospikeCRuby

inductive PolicyOption where
  | commitLevel
  | consistencyLevel
  | replica
  | gen
  | key
  | exists_
  | retry
  | timeout
  | generation
deriving DecidableEq, Repr

namespace PolicyOption

/-- The Symbol of the option, which is also the name of its attribute. -/
def name : PolicyOption → String
  | commitLevel => "commit_level"
  | consistencyLevel => "consistency_level"
  | replica => "replica"
  | gen => "gen"
  | key => "key"
  | exists_ => "exists"
  | retry => "retry"
  | timeout => "timeout"
  | generation => "generation"

/-- The width of the field: enumerations and `uint32_t` have 32 bits. -/
def width : PolicyOption → ℕ
  | generation => 16
  | _ => 32

end PolicyOption

structure OptionsBuffer where
  consistencyLevel : BitVec 32
  commitLevel : BitVec 32
  replica : BitVec 32
  gen : BitVec 32
  key : BitVec 32
  exists_ : BitVec 32
  retry : BitVec 32
  timeout : BitVec 32
  generation : BitVec 16

/-- The first constant of each enumeration is 0. -/
def initBuffer : OptionsBuffer where
  commitLevel := 0
  consistencyLevel := 0
  replica := 0
  gen := 0
  key := 0
  exists_ := 0
  retry := 1
  timeout := 1000
  generation := 0

/-- The structs of the C client, by the fields which the options set. -/
inductive AsPolicy where
  | read (consistencyLevel replica key maxRetries totalTimeout : BitVec 32)
  | write (commitLevel exists_ gen key maxRetries totalTimeout : BitVec 32)
  | remove (commitLevel gen : BitVec 32) (generation : BitVec 16)
      (key maxRetries totalTimeout : BitVec 32)
  | apply (commitLevel key totalTimeout : BitVec 32)
  | query (totalTimeout : BitVec 32)
  | operate (consistencyLevel commitLevel gen key maxRetries totalTimeout replica : BitVec 32)

inductive PolicyType where
  | write
  | read
  | remove
  | apply
  | query
  | operate
deriving DecidableEq, Repr

/-- A Policy, by its instance variables. -/
structure Policy where
  type : PolicyType
  reader : PolicyOption → RbVal
  policy : AsPolicy

namespace Policy

variable (rt : Runtime) (options : List (RbVal × RbVal))

/-- An option that is not nil replaces the value which the buffer holds. -/
def intOption {width : ℕ} (option : PolicyOption) (held : BitVec width) :
    Except Abort (BitVec width) :=
  let optionTmp := hashAref options option.name
  if optionTmp.isNil then .ok held
  else do
    let value ← rt.rbFix2int optionTmp
    .ok (BitVec.ofInt width value)

def options2buffer : Except Abort OptionsBuffer := do
  let commitLevel ← intOption rt options .commitLevel initBuffer.commitLevel
  let consistencyLevel ← intOption rt options .consistencyLevel initBuffer.consistencyLevel
  let replica ← intOption rt options .replica initBuffer.replica
  let gen ← intOption rt options .gen initBuffer.gen
  let key ← intOption rt options .key initBuffer.key
  let exists_ ← intOption rt options .exists_ initBuffer.exists_
  let retry ← intOption rt options .retry initBuffer.retry
  let timeout ← intOption rt options .timeout initBuffer.timeout
  let generation ← intOption rt options .generation initBuffer.generation
  .ok { consistencyLevel, commitLevel, replica, gen, key, exists_, retry, timeout, generation }

def initPolicyRead (buffer : OptionsBuffer) : AsPolicy :=
  .read buffer.consistencyLevel buffer.replica buffer.key buffer.retry buffer.timeout

def initPolicyWrite (buffer : OptionsBuffer) : AsPolicy :=
  .write buffer.commitLevel buffer.exists_ buffer.gen buffer.key buffer.retry buffer.timeout

def initPolicyRemove (buffer : OptionsBuffer) : AsPolicy :=
  .remove buffer.commitLevel buffer.gen buffer.generation buffer.key buffer.retry buffer.timeout

def initPolicyApply (buffer : OptionsBuffer) : AsPolicy :=
  .apply buffer.commitLevel buffer.key buffer.timeout

def initPolicyQuery (buffer : OptionsBuffer) : AsPolicy :=
  .query buffer.timeout

def initPolicyOperate (buffer : OptionsBuffer) : AsPolicy :=
  .operate buffer.consistencyLevel buffer.commitLevel buffer.gen buffer.key buffer.retry
    buffer.timeout buffer.replica

def initPolicy : PolicyType → OptionsBuffer → AsPolicy
  | .write => initPolicyWrite
  | .read => initPolicyRead
  | .remove => initPolicyRemove
  | .apply => initPolicyApply
  | .query => initPolicyQuery
  | .operate => initPolicyOperate

/-- The comparisons of `policy_initialize`, in their order. -/
def typeOf (type : RbVal) : Except Abort PolicyType :=
  if type.isSym "write" then .ok .write
  else if type.isSym "read" then .ok .read
  else if type.isSym "remove" then .ok .remove
  else if type.isSym "apply" then .ok .apply
  else if type.isSym "query" then .ok .query
  else if type.isSym "operate" then .ok .operate
  else .error (.optionError "[AerospikeC::Policy][initialize] unknown policy type")

/-- `Policy.new`, where `options` is a Hash. -/
def initialize_ (type : RbVal) : Except Abort Policy := do
  let type ← typeOf type
  let buffer ← options2buffer rt options
  .ok { type, reader := fun option => hashAref options option.name,
        policy := initPolicy type buffer }

end Policy

namespace AsPolicy

/-- The field which an option is for. -/
def field : AsPolicy → PolicyOption → Option ℕ
  | read level _ _ _ _, .consistencyLevel => some level.toNat
  | read _ replica _ _ _, .replica => some replica.toNat
  | read _ _ key _ _, .key => some key.toNat
  | read _ _ _ retries _, .retry => some retries.toNat
  | read _ _ _ _ timeout, .timeout => some timeout.toNat
  | write level _ _ _ _ _, .commitLevel => some level.toNat
  | write _ exists_ _ _ _ _, .exists_ => some exists_.toNat
  | write _ _ gen _ _ _, .gen => some gen.toNat
  | write _ _ _ key _ _, .key => some key.toNat
  | write _ _ _ _ retries _, .retry => some retries.toNat
  | write _ _ _ _ _ timeout, .timeout => some timeout.toNat
  | remove level _ _ _ _ _, .commitLevel => some level.toNat
  | remove _ gen _ _ _ _, .gen => some gen.toNat
  | remove _ _ generation _ _ _, .generation => some generation.toNat
  | remove _ _ _ key _ _, .key => some key.toNat
  | remove _ _ _ _ retries _, .retry => some retries.toNat
  | remove _ _ _ _ _ timeout, .timeout => some timeout.toNat
  | apply level _ _, .commitLevel => some level.toNat
  | apply _ key _, .key => some key.toNat
  | apply _ _ timeout, .timeout => some timeout.toNat
  | query timeout, .timeout => some timeout.toNat
  | operate level _ _ _ _ _ _, .consistencyLevel => some level.toNat
  | operate _ level _ _ _ _ _, .commitLevel => some level.toNat
  | operate _ _ gen _ _ _ _, .gen => some gen.toNat
  | operate _ _ _ key _ _ _, .key => some key.toNat
  | operate _ _ _ _ retries _ _, .retry => some retries.toNat
  | operate _ _ _ _ _ timeout _, .timeout => some timeout.toNat
  | operate _ _ _ _ _ _ replica, .replica => some replica.toNat
  | _, _ => none

end AsPolicy

/-- The options which commands of the type obey. -/
def PolicyType.obeys : PolicyType → List PolicyOption
  | write => [.commitLevel, .exists_, .gen, .key, .retry, .timeout]
  | read => [.consistencyLevel, .replica, .key, .retry, .timeout]
  | remove => [.commitLevel, .gen, .generation, .key, .retry, .timeout]
  | apply => [.commitLevel, .key, .timeout]
  | query => [.timeout]
  | operate => [.consistencyLevel, .commitLevel, .gen, .key, .retry, .timeout, .replica]

def OptionsBuffer.get (buffer : OptionsBuffer) : PolicyOption → ℕ
  | .commitLevel => buffer.commitLevel.toNat
  | .consistencyLevel => buffer.consistencyLevel.toNat
  | .replica => buffer.replica.toNat
  | .gen => buffer.gen.toNat
  | .key => buffer.key.toNat
  | .exists_ => buffer.exists_.toNat
  | .retry => buffer.retry.toNat
  | .timeout => buffer.timeout.toNat
  | .generation => buffer.generation.toNat

namespace Policy

variable {rt : Runtime} {options : List (RbVal × RbVal)}

theorem field_initPolicy (type : PolicyType) (buffer : OptionsBuffer) (option : PolicyOption) :
    (initPolicy type buffer).field option =
      if option ∈ type.obeys then some (buffer.get option) else none := by
  cases type <;> cases option <;> rfl

/-- What an option leaves in its field: the default, or the Integer it is taken for, reduced to the
width of the field. -/
def Stored (rt : Runtime) (options : List (RbVal × RbVal)) (option : PolicyOption)
    (stored : ℕ) : Prop :=
  hashAref options option.name = .nil ∧ stored = initBuffer.get option ∨
    hashAref options option.name ≠ .nil ∧ ∃ value,
      rt.rbFix2int (hashAref options option.name) = .ok value ∧
        (stored : ℤ) = value % 2 ^ option.width

theorem stored_of_intOption {width : ℕ} {option : PolicyOption} {held stored : BitVec width}
    (made : intOption rt options option held = .ok stored) (wide : width = option.width)
    (initial : held.toNat = initBuffer.get option) : Stored rt options option stored.toNat := by
  unfold intOption at made
  cases given : (hashAref options option.name).isNil with
  | true =>
      simp only [given, if_true, Except.ok.injEq] at made
      exact .inl ⟨isNil_eq_true.mp given, by rw [← made, initial]⟩
  | false =>
      simp only [given, Bool.false_eq_true, if_false, ExceptLoop.bind_eq_ok] at made
      rcases made with ⟨value, converted, same⟩
      have some_ : hashAref options option.name ≠ .nil := by
        intro nil
        rw [nil] at given
        cases given
      refine .inr ⟨some_, value, converted, ?_⟩
      have reduced : (0 : ℤ) ≤ value % ((2 ^ width : ℕ) : ℤ) :=
        Int.emod_nonneg value (by exact_mod_cast (Nat.two_pow_pos width).ne')
      rw [← Except.ok.inj same, ← wide, BitVec.toNat_ofInt, Int.toNat_of_nonneg reduced]
      push_cast
      rfl

theorem stored_of_options2buffer {buffer : OptionsBuffer}
    (made : options2buffer rt options = .ok buffer) (option : PolicyOption) :
    Stored rt options option (buffer.get option) := by
  simp only [options2buffer, ExceptLoop.bind_eq_ok] at made
  rcases made with ⟨commitLevel, commitLevelMade, consistencyLevel, consistencyLevelMade, replica,
    replicaMade, gen, genMade, key, keyMade, exists_, existsMade, retry, retryMade, timeout,
    timeoutMade, generation, generationMade, same⟩
  cases same
  cases option with
  | commitLevel => exact stored_of_intOption commitLevelMade rfl rfl
  | consistencyLevel => exact stored_of_intOption consistencyLevelMade rfl rfl
  | replica => exact stored_of_intOption replicaMade rfl rfl
  | gen => exact stored_of_intOption genMade rfl rfl
  | key => exact stored_of_intOption keyMade rfl rfl
  | exists_ => exact stored_of_intOption existsMade rfl rfl
  | retry => exact stored_of_intOption retryMade rfl rfl
  | timeout => exact stored_of_intOption timeoutMade rfl rfl
  | generation => exact stored_of_intOption generationMade rfl rfl

theorem initialize_eq_ok {type : RbVal} {policy : Policy}
    (made : initialize_ rt options type = .ok policy) :
    typeOf type = .ok policy.type ∧
      (∀ option, policy.reader option = hashAref options option.name) ∧
        ∀ option, (option ∈ policy.type.obeys → ∃ stored,
          policy.policy.field option = some stored ∧ Stored rt options option stored) ∧
            (option ∉ policy.type.obeys → policy.policy.field option = none) := by
  simp only [initialize_, ExceptLoop.bind_eq_ok] at made
  rcases made with ⟨type, known, buffer, filled, same⟩
  cases same
  refine ⟨known, fun _ => rfl, fun option => ⟨fun obeyed => ?_, fun other => ?_⟩⟩
  · refine ⟨buffer.get option, ?_, stored_of_options2buffer filled option⟩
    rw [field_initPolicy, if_pos obeyed]
  · rw [field_initPolicy, if_neg other]

/-- The commands see the option as the reader shows it. -/
def Truthful (policy : Policy) (option : PolicyOption) : Prop :=
  ∃ value : ℕ, policy.policy.field option = some value ∧ policy.reader option = .integer value

theorem rbFix2int_integer {value number : ℤ}
    (converted : rt.rbFix2int (.integer value) = .ok number) : number = value := by
  rcases ExceptLoop.bind_eq_ok.mp converted with ⟨long, taken, narrowed⟩
  have first : long = value := by
    rw [Runtime.num2long_integer] at taken
    split at taken <;> cases taken
    rfl
  have second : number = long := by
    rw [fix2int] at narrowed
    split at narrowed <;> cases narrowed
    rfl
  rw [second, first]

/-- The field of an option that is given as a natural number. -/
theorem stored_iff {option : PolicyOption} {stored value : ℕ}
    (held : Stored rt options option stored)
    (given : hashAref options option.name = .integer value) :
    stored = value ↔ value < 2 ^ option.width := by
  rcases held with ⟨nil, _⟩ | ⟨_, number, converted, reduced⟩
  · cases given.symm.trans nil
  · rw [given] at converted
    rw [rbFix2int_integer converted] at reduced
    have stored_eq : stored = value % 2 ^ option.width := by exact_mod_cast reduced
    rw [stored_eq, Nat.mod_eq_iff_lt (Nat.two_pow_pos _).ne']

/-- The commands obey every option that is given, as it is shown, exactly if each of them is one of
the type and a number that is not negative and fits its field. -/
theorem truthful_iff {type : RbVal} {policy : Policy}
    (made : initialize_ rt options type = .ok policy) :
    (∀ option, policy.reader option ≠ .nil → policy.Truthful option) ↔
      ∀ option, policy.reader option ≠ .nil → option ∈ policy.type.obeys ∧
        ∃ value : ℕ, policy.reader option = .integer value ∧ value < 2 ^ option.width := by
  rcases initialize_eq_ok made with ⟨_, readers, fields⟩
  refine forall_congr' fun option => forall_congr' fun given => ?_
  constructor
  · rintro ⟨value, field, shown⟩
    have obeyed : option ∈ policy.type.obeys := by
      by_contra other
      rw [(fields option).2 other] at field
      cases field
    rcases (fields option).1 obeyed with ⟨stored, field', held⟩
    have same : stored = value := Option.some.inj (field'.symm.trans field)
    exact ⟨obeyed, value, shown, (stored_iff held ((readers option).symm.trans shown)).mp same⟩
  · rintro ⟨obeyed, value, shown, fits⟩
    rcases (fields option).1 obeyed with ⟨stored, field, held⟩
    have same := (stored_iff held ((readers option).symm.trans shown)).mpr fits
    exact ⟨value, by rw [field, same], shown⟩

/-- A write policy shows a generation which its command does not get. -/
theorem truthful_iff_generation : ∃ policy,
    initialize_ .sample [(sym "generation", .integer 5)] (sym "write") = .ok policy ∧
      ¬∀ option, policy.reader option ≠ .nil → policy.Truthful option := by
  refine ⟨_, rfl, fun truthful => ?_⟩
  have exactly_ := @truthful_iff .sample [(sym "generation", .integer 5)] (sym "write") _ rfl
  have obeyed := (exactly_.mp truthful .generation (by rintro ⟨⟩)).1
  exact absurd obeyed (by decide)

end Policy

end AerospikeCRuby
