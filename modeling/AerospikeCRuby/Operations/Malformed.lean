import AerospikeCRuby.Operations.Meaning

/-!
# Malformed Hashes

A Hash placed in an Operation may lack a field or hold one of another type.  The
translation of a list of Hashes is right, whatever C leaves open, exactly when
an exception stops it before it reads an unassigned bin name, or when every Hash
is well formed.
-/

namespace AerospikeCRuby

section Conditions

variable (rt : Runtime) (entries : List (RbVal × RbVal))

/-- The bin is a text of at most 14 bytes; a `touch` may have any bin or none. -/
def BinGiven (type : OperationType) : Prop :=
  (type = .touch ∧ BinTaken rt entries) ∨
    ∃ text, rt.stringValue (hashAref entries "bin") = .ok text ∧ text.Whole ∧
      text.bytes.length ≤ asBinNameMaxLen

/-- The operation is known, and the Hash has what it needs. -/
def WellFormed : Prop :=
  ∃ type : OperationType, (hashAref entries "operation").isSym type.name = true ∧
    BinGiven rt entries type ∧ IntegersGiven entries type ∧ ValueGiven rt entries type

end Conditions

section Respects

variable (rt : Runtime) (env : Unspecified)

/-- The translation raises, and nothing is sent; or it makes of every Hash, in order, the
operation that Hash asks for. -/
def Respects (policy : Except Abort Unit) (execute : AsOperations → Except Abort RbVal)
    (op : Operation) (hashes : List (List (RbVal × RbVal))) : Prop :=
  (Raises (env.rbOperations2asOperations rt op) ∧ (operate rt env policy execute op).sent = []) ∨
    ∃ result, env.rbOperations2asOperations rt op = .ok result ∧
      List.Forall₂ (Requests rt) hashes result.entries

/-- The time to live or the number of Hashes is refused; or a Hash is, and no Hash before it
lacks the bin it needs; or all Hashes are well formed, and a `uint16_t` counts them. -/
def Guarded (hashes : List (List (RbVal × RbVal))) (ttl : ℤ) : Prop :=
  ¬(-2 ^ 31 ≤ ttl ∧ ttl < 2 ^ 31) ∨ 2 ^ 31 ≤ hashes.length ∨
    (∃ before entries after, hashes = before ++ entries :: after ∧ HashRefused rt entries ∧
      ∀ other ∈ before, ¬LacksBin other) ∨
    (hashes.length < 2 ^ 16 ∧ ∀ entries ∈ hashes, WellFormed rt entries)

end Respects

variable {rt : Runtime} {entries : List (RbVal × RbVal)}

/-- A well formed Hash adds the operation it asks for, on a name which the C client takes. -/
theorem exists_adds_of_wellFormed (formed : WellFormed rt entries) :
    ∃ operation, Requests rt entries operation ∧ Adds rt entries operation ∧
      operation.Nameable := by
  rcases formed with ⟨type, known, bin, integers, value⟩
  by_cases isTouch : type = .touch
  · cases isTouch
    have taken : BinTaken rt entries := by
      rcases bin with ⟨_, taken⟩ | ⟨text, named, free, _⟩
      · exact taken
      · exact Or.inr ⟨text, named, RbStr.readable_of_nulFree free⟩
    exact ⟨.touch, .touch known, adds_touch known taken, trivial⟩
  · rcases bin with ⟨same, _⟩ | ⟨text, named, free, short⟩
    · exact absurd same isTouch
    · rcases operated_of_given isTouch integers value with ⟨action, spells, operands⟩
      exact ⟨.onBin ⟨text.bytes, free⟩ action, .onBin known ⟨text, named, rfl⟩ spells,
        adds_onBin known named free operands, short⟩

/-- A Hash which is not refused is well formed when it asks for an operation the C client takes. -/
theorem wellFormed_of_requests {operation : AsOperation} (taken : ¬HashRefused rt entries)
    (requests : Requests rt entries operation) (nameable : operation.Nameable) :
    WellFormed rt entries := by
  cases requests with
  | touch known =>
      refine ⟨.touch, known, Or.inl ⟨rfl, ?_⟩, trivial, False.elim, trivial, trivial⟩
      by_contra noText
      exact taken (Or.inl noText)
  | @onBin type name action known named spells =>
      have value : ValueTaken rt (hashAref entries "value") type := by
        by_contra refused
        exact taken (Or.inr (Or.inr ⟨type, known, refused⟩))
      refine ⟨type, known, Or.inr ?_, spells.integersGiven, spells.valueGiven value⟩
      rcases named with ⟨text, converted, same⟩
      rw [AsOperation.Nameable, same] at nameable
      refine ⟨text, converted, ?_, nameable⟩
      rw [RbStr.Whole, ← same]
      exact name.nulFree

/-- An Operation filled through the constructor, `<<` and the builder methods. -/
inductive Operation.Filled (rt : Runtime) : Operation → Prop where
  | new {hashes : List (List (RbVal × RbVal))} {options : List (RbVal × RbVal)} {op : Operation} :
      Operation.initialize_ (hashes.map .hash) options = .ok op → Filled rt op
  | leftShift {op : Operation} (val : RbVal) : Filled rt op → Filled rt (op.leftShift val)
  | perform {op op' : Operation} {call : Operation.Call} {answer : Operation.Answer} :
      Filled rt op → call.perform rt op = .ok (op', answer) → Filled rt op'

theorem Operation.exists_push_of_perform {call : Operation.Call} {op op' : Operation}
    {answer : Operation.Answer} (performed : call.perform rt op = .ok (op', answer)) :
    ∃ entries, op' = op.push (.hash entries) := by
  have pushed {type : String} {bin : RbVal} {arguments : List (String × RbVal)} {next : Operation}
      (done : op.pushOn rt type bin arguments = .ok next) :
      ∃ entries, next = op.push (.hash entries) := by
    rcases ExceptLoop.bind_eq_ok.mp done with ⟨name, _, same⟩
    cases same
    exact ⟨_, rfl⟩
  cases call with
  | touch =>
      cases performed
      exact ⟨_, rfl⟩
  | _ =>
      rcases ExceptLoop.bind_eq_ok.mp performed with ⟨next, done, same⟩
      cases same
      exact pushed done

/-- The Operations filled this way are those which hold a list of Hashes. -/
theorem Operation.filled_iff {op : Operation} :
    Operation.Filled rt op ↔
      ∃ hashes : List (List (RbVal × RbVal)), op.operations = hashes.map .hash := by
  have appended {hashes : List (List (RbVal × RbVal))} {op : Operation}
      (contents : op.operations = hashes.map .hash) (entries : List (RbVal × RbVal)) :
      (op.push (.hash entries)).operations = (hashes ++ [entries]).map .hash := by
    rw [List.map_append, ← contents]
    rfl
  constructor
  · intro filled
    induction filled with
    | @new hashes options op made =>
        refine ⟨hashes, ?_⟩
        unfold Operation.initialize_ at made
        split at made <;> cases made <;> rfl
    | @leftShift op val _ ih =>
        rcases ih with ⟨hashes, contents⟩
        cases val with
        | hash entries => exact ⟨_, appended contents entries⟩
        | _ => exact ⟨hashes, contents⟩
    | perform _ performed ih =>
        rcases ih with ⟨hashes, contents⟩
        rcases Operation.exists_push_of_perform performed with ⟨entries, rfl⟩
        exact ⟨_, appended contents entries⟩
  · rintro ⟨hashes, contents⟩
    have ttl : hashAref (Operation.entriesOf [("ttl", .integer op.ttl)]) "ttl" =
        .integer op.ttl := Operation.hashAref_self _ _ _
    apply @Operation.Filled.new rt hashes (Operation.entriesOf [("ttl", .integer op.ttl)]) op
    rw [Operation.initialize_, ttl, ← contents]

section Runs

variable {before after : List (List (RbVal × RbVal))}

/-- A refused Hash stops the loop with an exception if the loop gets there alive. -/
theorem addOperations_raises (refused : HashRefused rt entries)
    (named : ∀ other ∈ before, ¬LacksBin other) (env : Unspecified) (i : ℕ)
    (ops : AsOperations) :
    Raises (env.addOperations rt i ops ((before ++ entries :: after).map .hash)) := by
  induction before generalizing i ops with
  | nil => exact raises_bind (addOperation_raises env i ops refused)
  | cons first before ih =>
      apply raises_bind_of_survives
      · exact survives_addOperation env i ops (named first List.mem_cons_self)
      · intro next
        exact ih (fun other member => named other (List.mem_cons_of_mem _ member)) (i + 1) next

/-- The first Hash without the bin it needs ends the process, where nothing readable is left in
`bin_name`. -/
theorem addOperations_ends (taken : ¬HashRefused rt entries) (lacks : LacksBin entries)
    (each : ∀ other ∈ before, ¬(HashRefused rt other ∨ LacksBin other)) {env : Unspecified}
    (nothing : ∀ i, env.stale i = none) (i : ℕ) (ops : AsOperations) :
    env.addOperations rt i ops ((before ++ entries :: after).map .hash) = .error .nullDeref := by
  induction before generalizing i ops with
  | nil =>
      apply ExceptLoop.bind_eq_error.mpr
      exact Or.inl (addOperation_of_lacksBin i ops taken lacks (nothing i))
  | cons first before ih =>
      rcases not_or.mp (each first List.mem_cons_self) with ⟨firstTaken, firstNamed⟩
      rcases exists_addOperation env i ops firstTaken firstNamed with ⟨next, done⟩
      apply ExceptLoop.bind_eq_error.mpr
      refine Or.inr ⟨next, done, ?_⟩
      exact ih (fun other member => each other (List.mem_cons_of_mem _ member)) (i + 1) next

theorem survives_addOperations {hashes : List (List (RbVal × RbVal))}
    (each : ∀ other ∈ hashes, ¬(HashRefused rt other ∨ LacksBin other)) (env : Unspecified) (i : ℕ)
    (ops : AsOperations) :
    ∃ result, env.addOperations rt i ops (hashes.map .hash) = .ok result := by
  induction hashes generalizing i ops with
  | nil => exact ⟨ops, rfl⟩
  | cons first rest ih =>
      rcases not_or.mp (each first List.mem_cons_self) with ⟨taken, named⟩
      rcases exists_addOperation env i ops taken named with ⟨next, done⟩
      rcases ih (fun other member => each other (List.mem_cons_of_mem _ member)) (i + 1) next with
        ⟨result, translated⟩
      exact ⟨result, ExceptLoop.bind_eq_ok.mpr ⟨next, done, translated⟩⟩

theorem raises_rbOperations2asOperations (env : Unspecified) {op : Operation}
    (outside : ¬(op.operations.length < 2 ^ 31 ∧ (-2 ^ 31 ≤ op.ttl ∧ op.ttl < 2 ^ 31))) :
    Raises (env.rbOperations2asOperations rt op) := by
  have ttlSurvives : Survives (fix2int op.ttl) := by
    intro ended
    unfold fix2int at ended
    split at ended <;> cases ended
  by_cases few : op.operations.length < 2 ^ 31
  · apply raises_bind_of_survives (survives_rbAryLenInt _)
    intro count
    apply raises_bind
    apply raises_of_survives ttlSurvives
    intro ttl read
    rw [fix2int, if_neg fun inside => outside ⟨few, inside⟩] at read
    cases read
  · apply raises_bind
    apply raises_of_survives (survives_rbAryLenInt _)
    intro count counted
    exact few (rbAryLenInt_eq_ok.mp counted).1

end Runs

theorem sent_of_raises {env : Unspecified} {policy : Except Abort Unit}
    {execute : AsOperations → Except Abort RbVal} {op : Operation}
    (raised : Raises (env.rbOperations2asOperations rt op)) :
    (operate rt env policy execute op).sent = [] := by
  rcases raised with ⟨failure, failed, _⟩
  rw [operate, failed]

section Lists

variable {hashes : List (List (RbVal × RbVal))} {ttl : ℤ} {policy : Except Abort Unit}
  {execute : AsOperations → Except Abort RbVal}

theorem respects_of_raises {env : Unspecified} {op : Operation}
    (raised : Raises (env.rbOperations2asOperations rt op)) :
    Respects rt env policy execute op hashes :=
  Or.inl ⟨raised, sent_of_raises raised⟩

/-- With nothing readable in `bin_name`, a right translation of a list which is not refused as a
whole is that of a guarded list. -/
theorem guarded_of_respects_blank (inside : -2 ^ 31 ≤ ttl ∧ ttl < 2 ^ 31)
    (few : hashes.length < 2 ^ 31)
    (respects : Respects rt .blank policy execute ⟨hashes.map .hash, ttl⟩ hashes) :
    Guarded rt hashes ttl := by
  let op : Operation := ⟨hashes.map .hash, ttl⟩
  have few' : op.operations.length < 2 ^ 31 := by rwa [List.length_map]
  have entered : Unspecified.blank.rbOperations2asOperations rt op = _ :=
    rbOperations2asOperations_eq .blank few' inside
  right
  right
  let bad (entries : List (RbVal × RbVal)) := HashRefused rt entries ∨ LacksBin entries
  rcases ExceptLoop.forall_or_exists_first bad hashes with
    each | ⟨before, entries, after, rfl, each, bad⟩
  · right
    rcases respects with ⟨⟨failure, failed, _⟩, _⟩ | ⟨result, translated, requested⟩
    · rcases survives_addOperations each .blank 0 _ with ⟨result, done⟩
      rw [entered, done] at failed
      cases failed
    · refine ⟨?_, fun entries member => ?_⟩
      · rw [requested.length_eq]
        exact result.length_entries_lt
      · rcases Aligned.exists_of_mem requested member with ⟨operation, held, requests⟩
        have taken : ¬HashRefused rt entries := fun refused => each entries member (Or.inl refused)
        exact wellFormed_of_requests taken requests (result.nameable held)
  · by_cases refused : HashRefused rt entries
    · exact Or.inl ⟨before, entries, after, rfl, refused, fun other member lacks =>
        each other member (Or.inr lacks)⟩
    · have lacks := bad.resolve_left refused
      have ended (ops : AsOperations) : Unspecified.blank.addOperations rt 0 ops
          ((before ++ entries :: after).map .hash) = .error .nullDeref :=
        addOperations_ends refused lacks each (fun _ => rfl) 0 ops
      rcases respects with ⟨⟨failure, failed, ruby⟩, _⟩ | ⟨result, translated, _⟩
      · rw [entered, ended] at failed
        cases failed
        exact absurd rfl ruby
      · rw [entered, ended] at translated
        cases translated

theorem respects_of_wellFormed (few : hashes.length < 2 ^ 16)
    (each : ∀ entries ∈ hashes, WellFormed rt entries) (env : Unspecified)
    (inside : -2 ^ 31 ≤ ttl ∧ ttl < 2 ^ 31) :
    Respects rt env policy execute ⟨hashes.map .hash, ttl⟩ hashes := by
  rcases Aligned.exists_images fun entries member =>
    exists_adds_of_wellFormed (each entries member) with ⟨operations, aligned⟩
  have nameable : ∀ operation ∈ operations, operation.Nameable := by
    intro operation member
    rcases Aligned.exists_of_mem aligned.flip member with ⟨entries, _, _, _, nameable⟩
    exact nameable
  have adds := aligned.imp fun _ _ all => all.2.1
  let op : Operation := ⟨hashes.map .hash, ttl⟩
  have contents : op.operations = hashes.map .hash := rfl
  rcases exists_rbOperations2asOperations env contents adds nameable few inside with
    ⟨result, translated, same⟩
  refine Or.inr ⟨result, translated, ?_⟩
  rw [same]
  exact aligned.imp fun _ _ all => all.1

end Lists

/-- Whatever C leaves open, a list of Hashes is refused as a whole or translated Hash by Hash:
exactly when it is guarded. -/
theorem respects_iff_guarded (rt : Runtime) (policy : Except Abort Unit)
    (execute : AsOperations → Except Abort RbVal) (hashes : List (List (RbVal × RbVal)))
    (ttl : ℤ) :
    (∀ env, Respects rt env policy execute ⟨hashes.map .hash, ttl⟩ hashes) ↔
      Guarded rt hashes ttl := by
  let op : Operation := ⟨hashes.map .hash, ttl⟩
  have length : op.operations.length = hashes.length := List.length_map _
  constructor
  · intro respects
    by_cases inside : -2 ^ 31 ≤ ttl ∧ ttl < 2 ^ 31
    · by_cases few : hashes.length < 2 ^ 31
      · exact guarded_of_respects_blank inside few (respects .blank)
      · exact Or.inr (Or.inl (not_lt.mp few))
    · exact Or.inl inside
  · intro guarded env
    by_cases accepted : op.operations.length < 2 ^ 31 ∧ (-2 ^ 31 ≤ op.ttl ∧ op.ttl < 2 ^ 31)
    · rcases accepted with ⟨few, inside⟩
      rcases guarded with
        outside | many | ⟨before, entries, after, rfl, refused, named⟩ | ⟨few', each⟩
      · exact absurd inside outside
      · rw [length] at few
        omega
      · apply respects_of_raises
        rw [rbOperations2asOperations_eq env few inside]
        exact addOperations_raises refused named env 0 _
      · exact respects_of_wellFormed few' each env inside
    · exact respects_of_raises (raises_rbOperations2asOperations env accepted)

/-- An increment without a value adds the word of nil, shifted. -/
theorem not_respects_increment :
    ¬∀ (rt : Runtime) (env : Unspecified) (policy : Except Abort Unit)
      (execute : AsOperations → Except Abort RbVal) (hashes : List (List (RbVal × RbVal)))
      (ttl : ℤ), Respects rt env policy execute ⟨hashes.map .hash, ttl⟩ hashes := by
  intro respects
  let entries := Operation.entriesOf
    [("operation", sym "increment"), ("bin", .string ⟨ascii "n", .utf8⟩)]
  have type : hashAref entries "operation" = sym (OperationType.name .increment) :=
    Operation.hashAref_self _ _ _
  have bin : hashAref entries "bin" = .string ⟨ascii "n", .utf8⟩ := by
    rw [Operation.hashAref_of_ne (by decide), Operation.hashAref_self]
  have value : hashAref entries "value" = .nil := by
    rw [Operation.hashAref_of_ne (by decide), Operation.hashAref_of_ne (by decide)]
    rfl
  have known : (hashAref entries "operation").isSym (OperationType.name .increment) = true := by
    rw [type]
    exact beq_self_eq_true _
  rcases respects .sample .blank (.ok ()) (fun _ => .ok .nil) [entries] 0 with
    ⟨⟨failure, failed, _⟩, _⟩ | ⟨result, _, requested⟩
  · have free : NulFree (ascii "n") := by decide
    have converted : stringValueCStr ⟨ascii "n", .utf8⟩ = .ok ⟨ascii "n", free⟩ :=
      stringValueCStr_of_nulFree free
    have text : valueToCstr .sample (hashAref entries "bin") = .ok ⟨ascii "n", free⟩ := by
      rw [bin]
      exact converted
    have added (ops : AsOperations) : Unspecified.blank.addOperation .sample 0 ops (.hash entries) =
        .ok (ops.add _).2 := addOperation_of_converted known (binName_of_cstr text) rfl
    rw [rbOperations2asOperations_eq .blank (by decide) (by decide)] at failed
    simp only [List.map, Unspecified.addOperations, added, ok_bind] at failed
    cases failed
  · rcases List.forall₂_cons_left_iff.mp requested with ⟨operation, _, requests, _, _⟩
    cases requests with
    | touch isTouch =>
        rw [type] at isTouch
        exact absurd isTouch (by decide)
    | onBin other _ spells =>
        have found := OperationType.ofValue_eq_some.mpr other
        rw [type, OperationType.ofValue_sym] at found
        cases found
        cases spells with
        | increment given =>
            rcases given with ⟨number, same, _⟩
            rw [value] at same
            cases same

end AerospikeCRuby
