import AerospikeCRuby.Library.Fields
import AerospikeCRuby.Ruby.Runtime

/-!
# Strings and their encodings

`Array#join`, `String#split`, `String#to_i`, `String#==` and what `rb_sprintf`
does with a value.  Strings of two encodings go together where one of them is
ASCII; the joined String takes the encoding of the other.
-/

namespace AerospikeCRuby

/-- All bytes are ASCII characters. -/
abbrev AsciiOnly (bytes : Bytes) : Prop :=
  ∀ byte ∈ bytes, byte < 128

/-- The encodings of the interpreter. -/
structure Encodings where
  asciiCompatible : Encoding → Bool
  /-- `String#valid_encoding?`. -/
  valid : Encoding → Bytes → Bool
  asciiCompatible_binary : asciiCompatible .binary = true
  asciiCompatible_utf8 : asciiCompatible .utf8 = true
  valid_binary : ∀ bytes, valid .binary bytes = true
  /-- An ASCII character is a character of its own. -/
  valid_append : ∀ encoding front back, asciiCompatible encoding = true → AsciiOnly front →
    valid encoding (front ++ back) = valid encoding back
  narrow : ∀ encoding, asciiCompatible encoding = true → encoding.mbminlen = 1

theorem valid_append_sample (encoding : Encoding) (front back : Bytes) (ascii : AsciiOnly front) :
    decide (encoding = .binary ∨ AsciiOnly (front ++ back)) =
      decide (encoding = .binary ∨ AsciiOnly back) := by
  rw [decide_eq_decide]
  simp only [AsciiOnly, List.mem_append]
  constructor
  · rintro (binary | plain)
    · exact Or.inl binary
    · exact Or.inr fun byte member => plain byte (Or.inr member)
  · rintro (binary | plain)
    · exact Or.inl binary
    · exact Or.inr fun byte member => member.elim (ascii byte) (plain byte)

/-- Encodings of which all but the binary one know ASCII characters only. -/
def Encodings.sample : Encodings where
  asciiCompatible := fun encoding => encoding.mbminlen = 1
  valid := fun encoding bytes => decide (encoding = .binary ∨ AsciiOnly bytes)
  asciiCompatible_binary := rfl
  asciiCompatible_utf8 := rfl
  valid_binary := fun _ => decide_eq_true (Or.inl rfl)
  valid_append := fun encoding front back _ ascii => valid_append_sample encoding front back ascii
  narrow := fun _ => of_decide_eq_true

variable {encs : Encodings}

/-- An ASCII-compatible text which C can read holds no zero byte. -/
theorem nulFree_of_compatible {text : RbStr}
    (compatible : encs.asciiCompatible text.encoding = true) (readable : text.Readable) :
    NulFree text.bytes :=
  (RbStr.readable_iff_of_narrow (encs.narrow _ compatible)).mp readable

/-- `rb_enc_compatible`: the encoding of the two Strings put together. -/
def rbEncCompatible (encs : Encodings) (str ptr : RbStr) : Option Encoding :=
  if str.encoding = ptr.encoding ∨ ptr.bytes = [] then some str.encoding
  else
    let bothCompatible := encs.asciiCompatible str.encoding && encs.asciiCompatible ptr.encoding
    if str.bytes = [] then
      if bothCompatible ∧ AsciiOnly ptr.bytes then some str.encoding else some ptr.encoding
    else if !bothCompatible then none
    else if AsciiOnly ptr.bytes then some str.encoding
    else if AsciiOnly str.bytes then some ptr.encoding
    else none

def rbStrAppend (encs : Encodings) (str ptr : RbStr) : Except Abort RbStr :=
  match rbEncCompatible encs str ptr with
  | some encoding => .ok ⟨str.bytes ++ ptr.bytes, encoding⟩
  | none => .error (.raised "Encoding::CompatibilityError")

/-- `Array#join`, of Strings. -/
def rbAryJoin (encs : Encodings) (sep : RbStr) : List RbStr → Except Abort RbStr
  | [] => .ok ⟨[], ⟨"US-ASCII"⟩⟩
  | first :: rest =>
      rest.foldlM (fun result text => do
        let result ← rbStrAppend encs result sep
        rbStrAppend encs result text) first

/-- `String#split` with an ASCII character, which drops the trailing empty fields. -/
def rbStrSplit (encs : Encodings) (sep : UInt8) (text : RbStr) : Except Abort (List RbStr) :=
  if text.bytes = [] then .ok []
  else if !encs.valid text.encoding text.bytes then
    .error (.argumentError ("invalid byte sequence in " ++ text.encoding.name))
  else if !encs.asciiCompatible text.encoding then
    .error (.raised "Encoding::CompatibilityError")
  else
    .ok ((Fields.split sep text.bytes).map fun field => ⟨field, text.encoding⟩)

/-- What `rb_sprintf` does with a String where it has a binary text so far: one which is not
compatible goes in byte by byte. -/
def rbSprintfValue (encs : Encodings) (result value : RbStr) : Except Abort RbStr := do
  let _ ← stringValueCStr value
  .ok ⟨result.bytes ++ value.bytes, (rbEncCompatible encs result value).getD result.encoding⟩

/-- `String#==`. -/
def RbStr.Equal (encs : Encodings) (left right : RbStr) : Prop :=
  left.bytes = right.bytes ∧
    (left.bytes = [] ∨ left.encoding = right.encoding ∨
      AsciiOnly left.bytes ∧ encs.asciiCompatible left.encoding = true ∧
        encs.asciiCompatible right.encoding = true)

instance (encs : Encodings) (left right : RbStr) : Decidable (left.Equal encs right) :=
  inferInstanceAs (Decidable (left.bytes = right.bytes ∧
    (left.bytes = [] ∨ left.encoding = right.encoding ∨
      AsciiOnly left.bytes ∧ encs.asciiCompatible left.encoding = true ∧
        encs.asciiCompatible right.encoding = true)))

section ToI

/-- The digit a byte stands for. -/
def digitOf (byte : UInt8) : Option ℕ :=
  if 48 ≤ byte ∧ byte ≤ 57 then some (byte.toNat - 48) else none

/-- The digits up to the first byte that is none; one underscore may stand between two. -/
def readDigits (value : ℕ) : Bytes → ℕ
  | [] => value
  | byte :: rest =>
      match digitOf byte with
      | some digit => readDigits (10 * value + digit) rest
      | none =>
          if byte = 95 ∧ (rest.head?.bind digitOf).isSome then readDigits value rest else value

/-- The number after the sign, which may begin with `0d`. -/
def readNumber (bytes : Bytes) : ℕ :=
  let bytes := if bytes.take 2 = ascii "0d" ∨ bytes.take 2 = ascii "0D" then bytes.drop 2 else bytes
  if (bytes.head?.bind digitOf).isSome then readDigits 0 bytes else 0

/-- `String#to_i`. -/
def toI (bytes : Bytes) : ℤ :=
  let bytes := bytes.dropWhile fun byte => byte = 32 ∨ 9 ≤ byte ∧ byte ≤ 13
  if bytes.head? = some 45 then -readNumber bytes.tail
  else if bytes.head? = some 43 then readNumber bytes.tail
  else readNumber bytes

example : toI (ascii " -0d1_2x") = -12 := by decide

theorem digitOf_char {c : Char} (digit : c.isDigit) :
    digitOf c.toNat.toUInt8 = some (c.toNat - 48) := by
  have bounds : 48 ≤ c.toNat ∧ c.toNat ≤ 57 := by
    simp only [Char.isDigit, Bool.and_eq_true, decide_eq_true_eq] at digit
    exact digit
  have small : c.toNat.toUInt8.toNat = c.toNat := by
    simp only [Nat.toUInt8, UInt8.toNat_ofNat']
    omega
  rw [digitOf, if_pos, small]
  simp only [UInt8.le_iff_toNat_le, small]
  exact bounds

theorem readDigits_chars {chars : List Char} (digits : ∀ c ∈ chars, c.isDigit) (value : ℕ) :
    readDigits value (chars.map fun c => c.toNat.toUInt8) = Nat.ofDigitChars 10 chars value := by
  induction chars generalizing value with
  | nil => simp [readDigits]
  | cons c rest ih =>
      rw [List.map_cons, readDigits, digitOf_char (digits c List.mem_cons_self),
        Nat.ofDigitChars_cons]
      exact ih (fun other member => digits other (List.mem_cons_of_mem _ member)) _

theorem readNumber_digits {bytes : Bytes} (nonempty : bytes ≠ [])
    (digits : ∀ byte ∈ bytes, (digitOf byte).isSome) : readNumber bytes = readDigits 0 bytes := by
  have plain : ∀ letter, digitOf letter = none → bytes.take 2 ≠ [48, letter] := by
    intro letter other same
    have member : letter ∈ bytes := by
      apply List.mem_of_mem_take (i := 2)
      simp [same]
    have digit := digits letter member
    rw [other] at digit
    cases digit
  have kept : (if bytes.take 2 = ascii "0d" ∨ bytes.take 2 = ascii "0D" then bytes.drop 2
      else bytes) = bytes := by
    rw [if_neg]
    rintro (same | same)
    · exact plain 100 rfl same
    · exact plain 68 rfl same
  rcases List.exists_cons_of_ne_nil nonempty with ⟨first, rest, rfl⟩
  simp only [readNumber, kept]
  rw [if_pos]
  simpa using digits first List.mem_cons_self

theorem toI_digits {bytes : Bytes} (nonempty : bytes ≠ [])
    (digits : ∀ byte ∈ bytes, (digitOf byte).isSome) : toI bytes = readDigits 0 bytes := by
  rcases List.exists_cons_of_ne_nil nonempty with ⟨first, rest, rfl⟩
  have bounds : 48 ≤ first := by
    have digit := digits first List.mem_cons_self
    rw [digitOf] at digit
    split at digit
    · exact And.left ‹_›
    · cases digit
  have stays : (first :: rest).dropWhile (fun byte => byte = 32 ∨ 9 ≤ byte ∧ byte ≤ 13) =
      first :: rest := by
    rw [List.dropWhile_cons_of_neg]
    simp only [decide_eq_true_eq]
    rintro (rfl | ⟨_, small⟩)
    · exact absurd bounds (by decide)
    · exact absurd (UInt8.le_trans bounds small) (by decide)
  have noMinus : (first :: rest).head? ≠ some 45 := by
    rw [List.head?_cons, ne_eq, Option.some.injEq]
    rintro rfl
    exact absurd bounds (by decide)
  have noPlus : (first :: rest).head? ≠ some 43 := by
    rw [List.head?_cons, ne_eq, Option.some.injEq]
    rintro rfl
    exact absurd bounds (by decide)
  rw [toI, stays, if_neg noMinus, if_neg noPlus, readNumber_digits nonempty digits]

theorem le_of_digitOf {byte : UInt8} (digit : (digitOf byte).isSome) : byte ≤ 57 := by
  rw [digitOf] at digit
  split at digit
  · exact And.right ‹_›
  · cases digit

theorem digitOf_repr {number : ℕ} {byte : UInt8} (member : byte ∈ ascii (Nat.repr number)) :
    (digitOf byte).isSome := by
  rw [ascii, Nat.toList_repr] at member
  rcases List.mem_map.mp member with ⟨c, there, rfl⟩
  rw [digitOf_char (Nat.isDigit_of_mem_toDigits (by decide) (by decide) there)]
  rfl

theorem ascii_repr_ne_nil (number : ℕ) : ascii (Nat.repr number) ≠ [] := by
  rw [ascii, Nat.toList_repr]
  simp [Nat.toDigits_ne_nil]

theorem ascii_minus (number : ℕ) : ascii ("-" ++ number.repr) = 45 :: ascii number.repr := by
  simp [ascii]

theorem mem_ascii_toString {value : ℤ} {byte : UInt8} (member : byte ∈ ascii (toString value)) :
    byte = 45 ∨ (digitOf byte).isSome := by
  rw [Int.toString_eq_repr, Int.repr_eq_if] at member
  split at member
  · exact Or.inr (digitOf_repr member)
  · rw [ascii_minus] at member
    rcases List.mem_cons.mp member with minus | digit
    · exact Or.inl minus
    · exact Or.inr (digitOf_repr digit)

theorem ascii_toString_ne_nil (value : ℤ) : ascii (toString value) ≠ [] := by
  rw [Int.toString_eq_repr, Int.repr_eq_if]
  split
  · exact ascii_repr_ne_nil _
  · rw [ascii_minus]
    simp

theorem toI_toString (value : ℤ) : toI (ascii (toString value)) = value := by
  have read : ∀ number : ℕ, readDigits 0 (ascii (Nat.repr number)) = number := by
    intro number
    rw [ascii, Nat.toList_repr, readDigits_chars fun c member =>
      Nat.isDigit_of_mem_toDigits (by decide) (by decide) member]
    exact Nat.ofDigitChars_ten_toDigits
  rw [Int.toString_eq_repr, Int.repr_eq_if]
  split
  · rw [toI_digits (ascii_repr_ne_nil _) fun _ => digitOf_repr, read]
    omega
  · have stays : (45 :: ascii (-value).toNat.repr).dropWhile
        (fun byte => byte = 32 ∨ 9 ≤ byte ∧ byte ≤ 13) = 45 :: ascii (-value).toNat.repr := rfl
    rw [ascii_minus, toI, stays, List.head?_cons, if_pos rfl, List.tail_cons,
      readNumber_digits (ascii_repr_ne_nil _) fun _ => digitOf_repr, read]
    omega

end ToI

end AerospikeCRuby
