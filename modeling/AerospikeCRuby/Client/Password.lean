import AerospikeCRuby.Library.Fields
import AerospikeCRuby.Ruby.Text

/-!
# Password hashes

`valid_hash?` tests a String with a regular expression whose anchors are those
of a line.  `Password.new` takes an accepted String apart at its dollar signs
and at fixed offsets from both ends.  All of it goes by characters, which are
written as their codepoints.
-/

namespace AerospikeCRuby

/-- The encodings of the interpreter and the characters of its Strings. -/
structure Characters extends Encodings where
  /-- `String#codepoints`, unless the String is broken. -/
  codepoints : RbStr → Option (List ℕ)

/-- Encodings in which the bytes are the characters. -/
def Characters.sample : Characters where
  toEncodings := Encodings.sample
  codepoints := fun text =>
    if Encodings.sample.valid text.encoding text.bytes then some (text.bytes.map UInt8.toNat)
    else none

/-- `[0-9]`. -/
def isDigit (c : ℕ) : Bool :=
  48 ≤ c && c ≤ 57

/-- `[0-9a-z]`. -/
def isVersionChar (c : ℕ) : Bool :=
  isDigit c || 97 ≤ c && c ≤ 122

/-- `[A-Za-z0-9\.\/]`. -/
def isMashChar (c : ℕ) : Bool :=
  65 ≤ c && c ≤ 90 || 97 ≤ c && c ≤ 122 || isDigit c || c == 46 || c == 47

/-- `\$[0-9a-z]{2}\$[0-9]{2}\$[A-Za-z0-9\.\/]{53}`. -/
def hashPattern : List (ℕ → Bool) :=
  [(· == 36)] ++ List.replicate 2 isVersionChar ++ [(· == 36)] ++ List.replicate 2 isDigit ++
    [(· == 36)] ++ List.replicate 53 isMashChar

/-- Where the first line begins that matches between its `^` and its `$`. -/
def firstMatch (offset : ℕ) : List (List ℕ) → Option ℕ
  | [] => none
  | line :: rest =>
      if Fields.isMatch hashPattern line then some offset
      else firstMatch (offset + line.length + 1) rest

/-- `valid_hash?`, which is `=~`. -/
def validHash (chars : Characters) (h : RbStr) : Except Abort (Option ℕ) :=
  match chars.codepoints h with
  | none => .error (.argumentError ("invalid byte sequence in " ++ h.encoding.name))
  | some text =>
      if !chars.asciiCompatible h.encoding then .error (.raised "Encoding::CompatibilityError")
      else .ok (firstMatch 0 (text.splitOn 10))

structure Password where
  version : List ℕ
  cost : ℤ
  salt : List ℕ
  checksum : List ℕ

/-- A character as `to_i` reads it, which stops at one that is not ASCII. -/
def asciiByte (c : ℕ) : UInt8 :=
  if c < 128 then c.toUInt8 else 128

/-- `split_hash`; `nil.to_i` is 0, and `nil` has neither `to_str` nor `[]`. -/
def splitHash (h : List ℕ) : Except Abort Password :=
  let fields := Fields.split 36 h
  match fields[1]?, fields[3]? with
  | some v, some mash =>
      if mash.length < 31 then .error (.raised "NoMethodError")
      else .ok
        { version := v
          cost := toI ((fields[2]?.getD []).map asciiByte)
          salt := h.take 29
          checksum := mash.drop (mash.length - 31) }
  | _, _ => .error (.raised "NoMethodError")

/-- `Password.new`. -/
def Password.new (chars : Characters) (rawHash : RbStr) : Except Abort Password := do
  match ← validHash chars rawHash with
  | some _ => splitHash ((chars.codepoints rawHash).getD [])
  | none => .error (.raised "RuntimeError")

/-- The fields of a hash. -/
structure PasswordHash where
  version : List ℕ
  cost : List ℕ
  mash : List ℕ
  version_length : version.length = 2
  version_chars : ∀ c ∈ version, isVersionChar c
  cost_length : cost.length = 2
  cost_chars : ∀ c ∈ cost, isDigit c
  mash_length : mash.length = 53
  mash_chars : ∀ c ∈ mash, isMashChar c

namespace PasswordHash

def text (hash : PasswordHash) : List ℕ :=
  36 :: hash.version ++ 36 :: hash.cost ++ 36 :: hash.mash

def costNumber (hash : PasswordHash) : ℕ :=
  hash.cost.foldl (fun number c => 10 * number + (c - 48)) 0

end PasswordHash

/-- Exactly the hashes are accepted, and what is accepted is taken apart into its fields. -/
structure PasswordExact (chars : Characters) (h : RbStr) : Prop where
  accepted : (∃ index, validHash chars h = .ok (some index)) ↔
    ∃ hash : PasswordHash, chars.codepoints h = some hash.text
  parts : ∀ password, Password.new chars h = .ok password → ∃ hash : PasswordHash,
    chars.codepoints h = some hash.text ∧ password.version = hash.version ∧
      password.cost = hash.costNumber ∧ password.salt = hash.text.take 29 ∧
      password.checksum = hash.text.drop (hash.text.length - 31) ∧
      password.salt ++ password.checksum = hash.text

section Accepted

theorem isMatch_iff (line : List ℕ) :
    Fields.isMatch hashPattern line ↔ ∃ hash : PasswordHash, hash.text = line := by
  simp only [hashPattern, Fields.isMatch_append_iff, Fields.isMatch_replicate_iff,
    Fields.isMatch_singleton_iff]
  constructor
  · rintro ⟨_, mash, rfl, ⟨_, _, rfl, ⟨_, cost, rfl, ⟨_, _, rfl, ⟨_, version, rfl,
      ⟨first, isFirst, rfl⟩, versionLength, versionChars⟩, second, isSecond, rfl⟩,
      costLength, costChars⟩, third, isThird, rfl⟩, mashLength, mashChars⟩
    rw [beq_iff_eq] at isFirst isSecond isThird
    subst isFirst isSecond isThird
    exact ⟨⟨version, cost, mash, versionLength, versionChars, costLength, costChars, mashLength,
      mashChars⟩, by simp [PasswordHash.text]⟩
  · rintro ⟨hash, rfl⟩
    refine ⟨_, hash.mash, ?_, ⟨_, _, rfl, ⟨_, hash.cost, rfl, ⟨_, _, rfl, ⟨_, hash.version, rfl,
      ⟨36, rfl, rfl⟩, hash.version_length, hash.version_chars⟩, 36, rfl, rfl⟩,
      hash.cost_length, hash.cost_chars⟩, 36, rfl, rfl⟩, hash.mash_length, hash.mash_chars⟩
    simp [PasswordHash.text]

theorem firstMatch_isSome_iff (offset : ℕ) (lines : List (List ℕ)) :
    (firstMatch offset lines).isSome ↔ ∃ line ∈ lines, Fields.isMatch hashPattern line := by
  induction lines generalizing offset with
  | nil => simp [firstMatch]
  | cons line rest ih =>
      rw [firstMatch]
      split
      · simp_all
      · simp_all

end Accepted

namespace PasswordHash

variable (hash : PasswordHash)

theorem not_mem_of_chars {chars : List ℕ} {class_ : ℕ → Bool} {c : ℕ}
    (only : ∀ c ∈ chars, class_ c) (refused : class_ c = false) : c ∉ chars := by
  intro member
  have accepted := only c member
  rw [refused] at accepted
  cases accepted

/-- A character which is in none of the classes. -/
theorem not_mem_text {c : ℕ} (notDollar : c ≠ 36) (notVersion : isVersionChar c = false)
    (notDigit : isDigit c = false) (notMash : isMashChar c = false) : c ∉ hash.text := by
  have version := not_mem_of_chars hash.version_chars notVersion
  have cost := not_mem_of_chars hash.cost_chars notDigit
  have mash := not_mem_of_chars hash.mash_chars notMash
  simp [text, notDollar, version, cost, mash]

theorem split_text : Fields.split 36 hash.text = [[], hash.version, hash.cost, hash.mash] := by
  have joined : hash.text = [36].intercalate [[], hash.version, hash.cost, hash.mash] := by
    simp [text]
  rw [joined]
  apply Fields.split_join_of_last
  · simp only [List.mem_cons, List.not_mem_nil, or_false, forall_eq_or_imp, forall_eq,
      not_false_eq_true, true_and]
    exact ⟨not_mem_of_chars hash.version_chars rfl, not_mem_of_chars hash.cost_chars rfl,
      not_mem_of_chars hash.mash_chars rfl⟩
  · intro _
    rw [← List.length_pos_iff]
    simp [hash.mash_length]

theorem length_text : hash.text.length = 60 := by
  simp [text, hash.version_length, hash.cost_length, hash.mash_length]

/-- The salt ends 31 characters before the end. -/
theorem drop_text : hash.text.drop 29 = hash.mash.drop 22 := by
  have parts : hash.text = (36 :: hash.version ++ 36 :: hash.cost ++ [36]) ++ hash.mash := by
    simp [text]
  rw [parts, List.drop_append, List.drop_eq_nil_of_le, List.nil_append]
  · simp [hash.version_length, hash.cost_length]
  · simp [hash.version_length, hash.cost_length]

theorem digitOf_asciiByte {c : ℕ} (digit : isDigit c = true) :
    digitOf (asciiByte c) = some (c - 48) := by
  rw [isDigit, Bool.and_eq_true, decide_eq_true_eq, decide_eq_true_eq] at digit
  have small : (asciiByte c).toNat = c := by
    rw [asciiByte, if_pos (by omega)]
    simp only [Nat.toUInt8, UInt8.toNat_ofNat']
    omega
  rw [digitOf, if_pos, small]
  simp only [UInt8.le_iff_toNat_le, small]
  exact digit

theorem readDigits_asciiByte {digits : List ℕ} (only : ∀ c ∈ digits, isDigit c = true)
    (number : ℕ) :
    readDigits number (digits.map asciiByte) =
      digits.foldl (fun number c => 10 * number + (c - 48)) number := by
  induction digits generalizing number with
  | nil => rfl
  | cons c rest ih =>
      rcases List.forall_mem_cons.mp only with ⟨digit, later⟩
      rw [List.map_cons, readDigits, digitOf_asciiByte digit, List.foldl_cons]
      exact ih later _

theorem toI_cost : toI (hash.cost.map asciiByte) = hash.costNumber := by
  rw [toI_digits, readDigits_asciiByte hash.cost_chars, costNumber]
  · rw [← List.length_pos_iff, List.length_map, hash.cost_length]
    decide
  · intro byte member
    rcases List.mem_map.mp member with ⟨c, inside, rfl⟩
    rw [digitOf_asciiByte (hash.cost_chars c inside)]
    rfl

theorem splitHash_text :
    splitHash hash.text = .ok
      { version := hash.version
        cost := hash.costNumber
        salt := hash.text.take 29
        checksum := hash.text.drop 29 } := by
  simp [splitHash, hash.split_text, hash.mash_length, hash.toI_cost, hash.drop_text]

end PasswordHash

section Exact

variable {chars : Characters} {h : RbStr}

theorem accepted_iff :
    (∃ index, validHash chars h = .ok (some index)) ↔
      ∃ text, chars.codepoints h = some text ∧ chars.asciiCompatible h.encoding = true ∧
        ∃ hash : PasswordHash, hash.text ∈ text.splitOn 10 := by
  rw [validHash]
  cases chars.codepoints h with
  | none => simp
  | some text =>
      cases chars.asciiCompatible h.encoding with
      | false => simp
      | true =>
          have found := firstMatch_isSome_iff 0 (text.splitOn 10)
          simp only [isMatch_iff, Option.isSome_iff_exists] at found
          simp [found]

/-- A String without a newline is its own line. -/
theorem mem_splitOn_iff {hash : PasswordHash} {text : List ℕ} (single : 10 ∉ text) :
    hash.text ∈ text.splitOn 10 ↔ hash.text = text := by
  rw [List.splitOn_eq_singleton single, List.mem_singleton]

theorem Password.new_eq_ok {password : Password} :
    Password.new chars h = .ok password ↔
      (∃ index, validHash chars h = .ok (some index)) ∧
        splitHash ((chars.codepoints h).getD []) = .ok password := by
  rw [Password.new]
  cases validHash chars h with
  | error => simp [Bind.bind, Except.bind]
  | ok found => cases found <;> simp [Bind.bind, Except.bind]

/-- Hashes are told apart and taken apart exactly, but for a String of several lines one of which
is a hash, and for a hash in an encoding which regular expressions refuse. -/
theorem passwordExact_iff (chars : Characters) (h : RbStr) :
    PasswordExact chars h ↔ ∀ text, chars.codepoints h = some text →
      (chars.asciiCompatible h.encoding = true → 10 ∈ text →
        ∀ hash : PasswordHash, hash.text ∉ text.splitOn 10) ∧
      (chars.asciiCompatible h.encoding = false → ∀ hash : PasswordHash, hash.text ≠ text) := by
  constructor
  · intro exact_ text read
    constructor
    · intro compatible newline hash line
      rcases exact_.accepted.mp (accepted_iff.mpr ⟨text, read, compatible, hash, line⟩) with
        ⟨whole, same⟩
      rw [read, Option.some.injEq] at same
      subst same
      exact whole.not_mem_text (by decide) rfl rfl rfl newline
    · rintro incompatible hash rfl
      rcases accepted_iff.mp (exact_.accepted.mpr ⟨hash, read⟩) with ⟨_, _, compatible, _⟩
      rw [incompatible] at compatible
      cases compatible
  · intro condition
    have accepted : (∃ index, validHash chars h = .ok (some index)) ↔
        ∃ hash : PasswordHash, chars.codepoints h = some hash.text := by
      rw [accepted_iff]
      constructor
      · rintro ⟨text, read, compatible, hash, line⟩
        have single : 10 ∉ text := fun newline =>
          (condition text read).1 compatible newline hash line
        rw [mem_splitOn_iff single] at line
        exact ⟨hash, line ▸ read⟩
      · rintro ⟨hash, read⟩
        have single : 10 ∉ hash.text := hash.not_mem_text (by decide) rfl rfl rfl
        refine ⟨hash.text, read, ?_, hash, (mem_splitOn_iff single).mpr rfl⟩
        by_contra incompatible
        exact (condition _ read).2 (by simpa using incompatible) hash rfl
    refine ⟨accepted, ?_⟩
    intro password made
    rcases Password.new_eq_ok.mp made with ⟨truthy, parts⟩
    rcases accepted.mp truthy with ⟨hash, read⟩
    rw [read, Option.getD_some, hash.splitHash_text] at parts
    cases parts
    refine ⟨hash, read, rfl, rfl, rfl, ?_, List.take_append_drop 29 hash.text⟩
    rw [hash.length_text]

/-- A line before a hash. -/
def twoLines : RbStr where
  bytes := ascii "x\n$2a$10$" ++ List.replicate 53 97
  encoding := .utf8

/-- What comes before the line of the hash is accepted with it. -/
theorem not_passwordExact_twoLines :
    validHash Characters.sample twoLines = .ok (some 2) ∧
      ¬PasswordExact Characters.sample twoLines := by
  have found : validHash Characters.sample twoLines = .ok (some 2) := by
    decide +kernel
  refine ⟨found, fun exact_ => ?_⟩
  rcases exact_.accepted.mp ⟨2, found⟩ with ⟨hash, read⟩
  have newline : ∃ text, Characters.sample.codepoints twoLines = some text ∧ 10 ∈ text :=
    ⟨twoLines.bytes.map UInt8.toNat, by decide +kernel, by decide +kernel⟩
  rcases newline with ⟨text, same, inside⟩
  rw [read, Option.some.injEq] at same
  subst same
  exact hash.not_mem_text (by decide) rfl rfl rfl inside

end Exact

end AerospikeCRuby
