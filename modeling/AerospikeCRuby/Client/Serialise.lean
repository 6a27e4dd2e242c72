import AerospikeCRuby.Client.Batch
import AerospikeCRuby.Ruby.Text
import AerospikeCRuby.Library.Fields

/-!
# Keys as text

A Key is marshalled as its namespace, its set and its user key, joined with
colons, and so is it shown by `key_info`.  Reading such a text back splits it at
every colon, and makes the user key a String.
-/

namespace AerospikeCRuby

/-- The separator. -/
abbrev colon : UInt8 := 58

def colonStr : RbStr :=
  ⟨[colon], .utf8⟩

/-- `_dump`, for a user key that is not an Array. -/
def Key.dump (encs : Encodings) (rt : Runtime) (key : Key) : Except Abort RbStr := do
  let text ← rt.toS key.key
  rbAryJoin encs colonStr [rbStrNew2 key.asKey.ns, rbStrNew2 key.asKey.set, text]

/-- `Key.new`. -/
def keyNew (rt : Runtime) : List RbVal → Except Abort Key
  | [asNamespace, set, key] => keyInitialize rt asNamespace set key
  | args => .error (.argumentError
      ("wrong number of arguments (given " ++ toString args.length ++ ", expected 3)"))

def Key.load (encs : Encodings) (rt : Runtime) (args : RbStr) : Except Abort Key := do
  let fields ← rbStrSplit encs colon args
  keyNew rt (fields.map .string)

def keyInfo (encs : Encodings) (rt : Runtime) (key : Key) : Except Abort RbStr := do
  let info ← rbSprintfValue encs ⟨[], .binary⟩ (rbStrNew2 key.asKey.ns)
  let info ← rbSprintfValue encs ⟨info.bytes ++ [colon], info.encoding⟩ (rbStrNew2 key.asKey.set)
  let text ← rt.toS key.key
  rbSprintfValue encs ⟨info.bytes ++ [colon], info.encoding⟩ text

/-- `from_string`; `int` tells whether `options[:key]` is `:int`. -/
def fromString (encs : Encodings) (rt : Runtime) (str : RbStr) (int : Bool) : Except Abort Key := do
  let fields ← rbStrSplit encs colon str
  let k := match fields[2]? with
    | some text => if int then .integer (toI text.bytes) else .string text
    | none => if int then .integer 0 else .nil
  keyInitialize rt (fields[0]?.elim .nil .string) (fields[1]?.elim .nil .string) k

/-- Ruby's `==` on the user keys. -/
def UserKeyEqual (encs : Encodings) : RbVal → RbVal → Prop
  | .string left, .string right => left.Equal encs right
  | .integer left, .integer right => left = right
  | _, _ => False

section Survival

variable {Digest : Type*} (encs : Encodings) (rt : Runtime)
  (asKeyDigest : CStr → KeyValue → Digest)

/-- The keys are equal and have the same namespace, set and user key. -/
structure SameKey (key key' : Key) : Prop where
  digest : keyDigest asKeyDigest key' = keyDigest asKeyDigest key
  ns : key'.asKey.ns = key.asKey.ns
  set : key'.asKey.set = key.asKey.set
  userKey : UserKeyEqual encs key'.key key.key

/-- The key comes back from `_load` of its `_dump`. -/
def SurvivesDump (key : Key) : Prop :=
  ∃ text key', key.dump encs rt = .ok text ∧ Key.load encs rt text = .ok key' ∧
    SameKey encs asKeyDigest key key'

def Key.isInt (key : Key) : Bool :=
  match key.key with
  | .integer _ => true
  | _ => false

/-- The key comes back from `from_string` of its `key_info`. -/
def SurvivesInfo (key : Key) : Prop :=
  ∃ text key', keyInfo encs rt key = .ok text ∧ fromString encs rt text key.isInt = .ok key' ∧
    SameKey encs asKeyDigest key key'

end Survival

/-- The text of a key can be split again: there is no further colon, the user key is not empty,
and its encoding goes with the binary one of the names. -/
structure Splits (encs : Encodings) (ns set : Bytes) (text : RbStr) : Prop where
  nsClear : colon ∉ ns
  setClear : colon ∉ set
  keyClear : colon ∉ text.bytes
  nonempty : text.bytes ≠ []
  encoding : text.encoding = .binary ∨ encs.asciiCompatible text.encoding = true ∧
    (AsciiOnly text.bytes ∨
      AsciiOnly ns ∧ AsciiOnly set ∧ encs.valid text.encoding text.bytes = true)

variable {encs : Encodings} {rt : Runtime}

/-- What comes before the user key. -/
abbrev header (ns set : Bytes) : Bytes :=
  ns ++ colon :: set ++ [colon]

theorem splitOn_header {ns set text : Bytes} (noColon : colon ∉ ns) (noColon' : colon ∉ set) :
    (header ns set ++ text).splitOn colon = ns :: set :: text.splitOn colon := by
  have shape : header ns set ++ text = ns ++ colon :: (set ++ colon :: text) := by
    simp
  rw [shape, List.splitOn_append_cons_self_of_not_mem noColon,
    List.splitOn_append_cons_self_of_not_mem noColon']

/-- The fields of a joined text are the joined texts where none holds a colon and the last is
not empty. -/
theorem fields_eq_iff {ns set text : Bytes} :
    Fields.split colon (header ns set ++ text) = [ns, set, text] ↔
      colon ∉ ns ∧ colon ∉ set ∧ colon ∉ text ∧ text ≠ [] := by
  rw [Fields.split]
  constructor
  · intro fields
    have inside : ∀ field ∈ [ns, set, text], colon ∉ field := by
      intro field member
      rw [← fields] at member
      exact Fields.not_mem_of_mem_splitOn ((List.rdropWhile_prefix _ _).subset member)
    refine ⟨inside ns (by simp), inside set (by simp), inside text (by simp), ?_⟩
    rintro rfl
    have again := congrArg (List.rdropWhile fun field : Bytes => decide (field = [])) fields
    rw [List.rdropWhile_idempotent, fields] at again
    have last := List.rdropWhile_eq_self_iff.mp again.symm (by simp)
    simp at last
  · rintro ⟨noColon, noColon', noColon'', nonempty⟩
    rw [splitOn_header noColon noColon', List.splitOn_eq_singleton noColon'']
    exact List.rdropWhile_concat_neg (fun field : Bytes => decide (field = [])) [ns, set] text
      (by simpa using nonempty)

theorem bytes_of_stringValueCStr {text : RbStr} {name : CStr}
    (compatible : encs.asciiCompatible text.encoding = true)
    (converted : stringValueCStr text = .ok name) : name.bytes = text.bytes := by
  rcases stringValueCStr_eq_ok_iff.mp converted with ⟨readable, rfl⟩
  rw [cstr_of_nulFree (nulFree_of_compatible compatible readable)]

/-- How a text goes with what comes before it. -/
theorem rbEncCompatible_binary {front : Bytes} (begun : front ≠ []) {text : RbStr}
    (nonempty : text.bytes ≠ []) :
    rbEncCompatible encs ⟨front, .binary⟩ text =
      if text.encoding = .binary then some .binary
      else if encs.asciiCompatible text.encoding = true then
        if AsciiOnly text.bytes then some .binary
        else if AsciiOnly front then some text.encoding else none
      else none := by
  by_cases same : text.encoding = .binary
  · simp [rbEncCompatible, same]
  · have different : Encoding.binary ≠ text.encoding := fun alike => same alike.symm
    by_cases compatible : encs.asciiCompatible text.encoding = true <;>
      simp [rbEncCompatible, same, different, nonempty, begun, compatible,
        encs.asciiCompatible_binary]

theorem rbStrAppend_colon (front : Bytes) :
    rbStrAppend encs ⟨front, .binary⟩ colonStr = .ok ⟨front ++ [colon], .binary⟩ := by
  have compatible : rbEncCompatible encs ⟨front, .binary⟩ colonStr = some .binary := by
    have different : Encoding.binary ≠ Encoding.utf8 := by decide
    have ascii : AsciiOnly [colon] := by
      simp [AsciiOnly, colon, UInt8.lt_iff_toNat_lt]
    have both : (encs.asciiCompatible .binary && encs.asciiCompatible .utf8) = true := by
      rw [encs.asciiCompatible_binary, encs.asciiCompatible_utf8]
      rfl
    rw [rbEncCompatible, colonStr, if_neg (by simp [different])]
    split_ifs <;> simp_all
  rw [rbStrAppend, compatible]
  rfl

theorem rbStrAppend_same (front back : Bytes) :
    rbStrAppend encs ⟨front, .binary⟩ ⟨back, .binary⟩ = .ok ⟨front ++ back, .binary⟩ := by
  simp [rbStrAppend, rbEncCompatible]

theorem dump_eq {key : Key} {text : RbStr} (shown : rt.toS key.key = .ok text) :
    key.dump encs rt =
      rbStrAppend encs ⟨header key.asKey.ns.bytes key.asKey.set.bytes, .binary⟩ text := by
  have ns := @rbStrAppend_colon encs key.asKey.ns.bytes
  have joined := @rbStrAppend_same encs (key.asKey.ns.bytes ++ [colon]) key.asKey.set.bytes
  have set := @rbStrAppend_colon encs (key.asKey.ns.bytes ++ [colon] ++ key.asKey.set.bytes)
  simp only [Key.dump, shown, rbAryJoin, rbStrNew2, List.foldlM, bind, Except.bind, pure,
    Except.pure, ns, joined, set]
  have shape : key.asKey.ns.bytes ++ [colon] ++ key.asKey.set.bytes ++ [colon] =
      header key.asKey.ns.bytes key.asKey.set.bytes := by
    simp
  rw [shape]
  cases rbStrAppend encs ⟨header key.asKey.ns.bytes key.asKey.set.bytes, .binary⟩ text <;> rfl

theorem keyInfo_eq {key : Key} {text : RbStr} (shown : rt.toS key.key = .ok text)
    (readable : text.Readable) :
    keyInfo encs rt key =
      .ok ⟨header key.asKey.ns.bytes key.asKey.set.bytes ++ text.bytes,
        (rbEncCompatible encs ⟨header key.asKey.ns.bytes key.asKey.set.bytes, .binary⟩
          text).getD .binary⟩ := by
  have name : ∀ (front : Bytes) (name : CStr),
      rbSprintfValue encs ⟨front, .binary⟩ (rbStrNew2 name) =
        .ok ⟨front ++ name.bytes, .binary⟩ := by
    intro front name
    simp only [rbSprintfValue, stringValueCStr_rbStrNew2, bind, Except.bind]
    simp [rbEncCompatible, rbStrNew2]
  have value : ∀ front, rbSprintfValue encs front text =
      .ok ⟨front.bytes ++ text.bytes, (rbEncCompatible encs front text).getD front.encoding⟩ := by
    intro front
    simp only [rbSprintfValue, stringValueCStr_of_readable readable]
    rfl
  simp only [keyInfo, name, shown, value, bind, Except.bind]
  simp

theorem rbStrSplit_header {ns set text : Bytes} {encoding : Encoding}
    (valid : encs.valid encoding (header ns set ++ text) = true)
    (compatible : encs.asciiCompatible encoding = true)
    (clear : colon ∉ ns ∧ colon ∉ set ∧ colon ∉ text ∧ text ≠ []) :
    rbStrSplit encs colon ⟨header ns set ++ text, encoding⟩ =
      .ok [⟨ns, encoding⟩, ⟨set, encoding⟩, ⟨text, encoding⟩] := by
  rw [rbStrSplit, if_neg (by simp)]
  simp only [valid, compatible, Bool.not_true, Bool.false_eq_true, if_false]
  rw [fields_eq_iff.mpr clear]
  rfl

theorem rbStrSplit_eq_ok {text : RbStr} {first : RbStr} {rest : List RbStr}
    (split : rbStrSplit encs colon text = .ok (first :: rest)) :
    encs.valid text.encoding text.bytes = true ∧
      (∀ field ∈ first :: rest, encs.asciiCompatible field.encoding = true) ∧
      Fields.split colon text.bytes = (first :: rest).map RbStr.bytes := by
  rw [rbStrSplit] at split
  split_ifs at split with empty broken wide
  · cases split
  · rw [Except.ok.injEq] at split
    refine ⟨by simpa using broken, ?_, ?_⟩
    · intro field member
      rw [← split] at member
      rcases List.mem_map.mp member with ⟨_, _, rfl⟩
      simpa using wide
    · rw [← split, List.map_map]
      simp [Function.comp_def]

section Theorems

variable {Digest : Type*} {asKeyDigest : CStr → KeyValue → Digest} {ns set : RbStr}
  {userKey : RbVal} {key : Key}

theorem built_eq (built : keyInitialize rt (.string ns) (.string set) userKey = .ok key) :
    key.asKey.ns = cstr ns.bytes ∧ key.asKey.set = cstr set.bytes ∧ key.key = userKey ∧
      keyValue (argToCstr rt) userKey = .ok key.asKey.value := by
  rcases keyInitialize_eq_ok.mp built with ⟨named, inSet, value, rfl⟩
  exact ⟨(stringValueCStr_eq_ok_iff.mp named).2.symm, (stringValueCStr_eq_ok_iff.mp inSet).2.symm,
    rfl, value⟩

theorem keyValue_string (text : RbStr) :
    keyValue (argToCstr rt) (.string text) =
      (stringValueCStr text >>= fun text => .ok (.string text)) := rfl

/-- The text of a user key is one that C can read. -/
theorem readable_of_keyValue {text : RbStr} {value : KeyValue}
    (converted : keyValue (argToCstr rt) (.string text) = .ok value) : text.Readable := by
  rw [keyValue_string, ExceptLoop.bind_eq_ok] at converted
  rcases converted with ⟨name, converted, _⟩
  exact (stringValueCStr_eq_ok_iff.mp converted).1

theorem sameKey_of_bytes {text : RbStr} {encoding : Encoding}
    (built : keyInitialize rt (.string ns) (.string set) (.string text) = .ok key)
    (free : NulFree text.bytes) (equal : RbStr.Equal encs ⟨text.bytes, encoding⟩ text) :
    ∃ key', keyInitialize rt (.string ⟨(cstr ns.bytes).bytes, encoding⟩)
        (.string ⟨(cstr set.bytes).bytes, encoding⟩) (.string ⟨text.bytes, encoding⟩) = .ok key' ∧
      SameKey encs asKeyDigest key key' := by
  rcases built_eq built with ⟨isNs, isSet, isKey, value⟩
  have converted {buffer : CStr} {name : CStr} (same : name = buffer) :
      argToCstr rt (.string ⟨buffer.bytes, encoding⟩) = .ok name := by
    rw [same]
    exact stringValueCStr_of_nulFree buffer.nulFree
  have alike : keyValue (argToCstr rt) (.string ⟨text.bytes, encoding⟩) =
      keyValue (argToCstr rt) (.string text) := by
    have narrow : stringValueCStr ⟨text.bytes, encoding⟩ = .ok ⟨text.bytes, free⟩ :=
      @stringValueCStr_of_nulFree ⟨text.bytes, encoding⟩ free
    simp only [keyValue_string, narrow, stringValueCStr_of_nulFree free]
  refine ⟨⟨key.asKey, .string ⟨text.bytes, encoding⟩⟩, ?_, rfl, rfl, rfl, ?_⟩
  · apply keyInitialize_eq_ok.mpr
    exact ⟨converted isNs, converted isSet, alike.trans value, rfl⟩
  · rw [isKey]
    exact equal

/-- Where the text of the key splits, the joined text has an encoding in which its parts stand
for the same Strings. -/
theorem Splits.joined {text : RbStr} {ns set : Bytes} (splits : Splits encs ns set text) :
    ∃ encoding, rbEncCompatible encs ⟨header ns set, .binary⟩ text = some encoding ∧
      encs.asciiCompatible encoding = true ∧
      encs.valid encoding (header ns set ++ text.bytes) = true ∧
      RbStr.Equal encs ⟨text.bytes, encoding⟩ text := by
  rw [rbEncCompatible_binary (by simp) splits.nonempty]
  by_cases binary : text.encoding = .binary
  · refine ⟨.binary, if_pos binary, encs.asciiCompatible_binary, encs.valid_binary _, rfl, ?_⟩
    right
    left
    exact binary.symm
  · rcases splits.encoding.resolve_left binary with ⟨compatible, ascii⟩
    rw [if_neg binary, if_pos compatible]
    by_cases plain : AsciiOnly text.bytes
    · refine ⟨.binary, if_pos plain, encs.asciiCompatible_binary, encs.valid_binary _, rfl, ?_⟩
      right
      right
      exact ⟨plain, encs.asciiCompatible_binary, compatible⟩
    · rcases ascii.resolve_left plain with ⟨plainNs, plainSet, valid⟩
      have plainHeader : AsciiOnly (header ns set) := by
        intro byte member
        simp only [header, List.mem_append, List.mem_cons, List.not_mem_nil, or_false] at member
        rcases member with (inNs | rfl | inSet) | rfl
        · exact plainNs byte inNs
        · simp [colon, UInt8.lt_iff_toNat_lt]
        · exact plainSet byte inSet
        · simp [colon, UInt8.lt_iff_toNat_lt]
      rw [if_neg plain, if_pos plainHeader]
      refine ⟨text.encoding, rfl, compatible, ?_, rfl, ?_⟩
      · rw [encs.valid_append _ _ _ compatible plainHeader, valid]
      · right
        left
        rfl

theorem Splits.clear {text : RbStr} {ns set : Bytes} (splits : Splits encs ns set text) :
    colon ∉ ns ∧ colon ∉ set ∧ colon ∉ text.bytes ∧ text.bytes ≠ [] :=
  ⟨splits.nsClear, splits.setClear, splits.keyClear, splits.nonempty⟩

theorem Splits.nulFree {text : RbStr} {ns set : Bytes} (splits : Splits encs ns set text)
    (readable : text.Readable) : NulFree text.bytes := by
  refine @nulFree_of_compatible encs text ?_ readable
  rcases splits.encoding with binary | ⟨compatible, _⟩
  · rw [binary, encs.asciiCompatible_binary]
  · exact compatible

theorem survivesDump_of_splits {text : RbStr}
    (built : keyInitialize rt (.string ns) (.string set) (.string text) = .ok key)
    (splits : Splits encs (cstr ns.bytes).bytes (cstr set.bytes).bytes text) :
    SurvivesDump encs rt asKeyDigest key := by
  rcases splits.joined with ⟨encoding, together, compatible, valid, equal⟩
  rcases built_eq built with ⟨isNs, isSet, isKey, value⟩
  have free := splits.nulFree (readable_of_keyValue value)
  rcases @sameKey_of_bytes encs _ _ asKeyDigest _ _ _ _ _ built free equal with ⟨key', made, same⟩
  refine ⟨⟨header (cstr ns.bytes).bytes (cstr set.bytes).bytes ++ text.bytes, encoding⟩, key',
    ?_, ?_, same⟩
  · rw [@dump_eq encs rt key text (by rw [isKey]; rfl), isNs, isSet, rbStrAppend, together]
  · rw [Key.load, rbStrSplit_header valid compatible splits.clear]
    exact made

theorem survivesInfo_of_splits {text : RbStr}
    (built : keyInitialize rt (.string ns) (.string set) (.string text) = .ok key)
    (splits : Splits encs (cstr ns.bytes).bytes (cstr set.bytes).bytes text) :
    SurvivesInfo encs rt asKeyDigest key := by
  rcases splits.joined with ⟨encoding, together, compatible, valid, equal⟩
  rcases built_eq built with ⟨isNs, isSet, isKey, value⟩
  have readable := readable_of_keyValue value
  rcases @sameKey_of_bytes encs _ _ asKeyDigest _ _ _ _ _ built (splits.nulFree readable) equal with
    ⟨key', made, same⟩
  refine ⟨⟨header (cstr ns.bytes).bytes (cstr set.bytes).bytes ++ text.bytes, encoding⟩, key',
    ?_, ?_, same⟩
  · rw [@keyInfo_eq encs rt key text (by rw [isKey]; rfl) readable, isNs, isSet, together]
    rfl
  · rw [fromString, rbStrSplit_header valid compatible splits.clear, Key.isInt, isKey]
    exact made

theorem ascii_toString_plain (value : ℤ) : AsciiOnly (ascii (toString value)) := by
  intro byte member
  rcases mem_ascii_toString member with rfl | digit
  · simp [UInt8.lt_iff_toNat_lt]
  · have bounds := le_of_digitOf digit
    rw [UInt8.le_iff_toNat_le] at bounds
    rw [UInt8.lt_iff_toNat_lt]
    exact lt_of_le_of_lt bounds (by simp)

theorem colon_not_mem_toString (value : ℤ) : colon ∉ ascii (toString value) := by
  intro member
  rcases mem_ascii_toString member with minus | digit
  · cases minus
  · cases digit

theorem rbEncCompatible_toString {front : Bytes} (begun : front ≠ []) (value : ℤ) :
    rbEncCompatible encs ⟨front, .binary⟩ ⟨ascii (toString value), .utf8⟩ = some .binary := by
  rw [rbEncCompatible_binary begun (ascii_toString_ne_nil value)]
  split_ifs with _ compatible plain
  · rfl
  · rfl
  · exact absurd (ascii_toString_plain value) plain
  · exact absurd (ascii_toString_plain value) plain
  · exact absurd encs.asciiCompatible_utf8 compatible

theorem dump_of_integer {value : ℤ} (isInteger : key.key = .integer value) :
    key.dump encs rt =
      .ok ⟨header key.asKey.ns.bytes key.asKey.set.bytes ++ ascii (toString value), .binary⟩ := by
  rw [@dump_eq encs rt key ⟨ascii (toString value), .utf8⟩ (by rw [isInteger]; rfl), rbStrAppend,
    rbEncCompatible_toString (by simp)]

/-- An Integer comes back from `key_info`, where it is marked as one. -/
theorem survivesInfo_of_integer {value : ℤ}
    (built : keyInitialize rt (.string ns) (.string set) (.integer value) = .ok key)
    (nsClear : colon ∉ (cstr ns.bytes).bytes) (setClear : colon ∉ (cstr set.bytes).bytes) :
    SurvivesInfo encs rt asKeyDigest key := by
  rcases built_eq built with ⟨isNs, isSet, isKey, converted⟩
  have named {name buffer : CStr} (same : name = buffer) :
      argToCstr rt (.string ⟨buffer.bytes, .binary⟩) = .ok name := by
    rw [same]
    exact stringValueCStr_of_nulFree buffer.nulFree
  have free : NulFree (ascii (toString value)) := by
    intro member
    rcases mem_ascii_toString member with zero | digit
    · cases zero
    · cases digit
  refine ⟨⟨header (cstr ns.bytes).bytes (cstr set.bytes).bytes ++ ascii (toString value), .binary⟩,
    ⟨key.asKey, .integer value⟩, ?_, ?_, rfl, rfl, rfl, ?_⟩
  · rw [@keyInfo_eq encs rt key ⟨ascii (toString value), .utf8⟩ (by rw [isKey]; rfl)
      (RbStr.readable_of_nulFree free), isNs, isSet, rbEncCompatible_toString (by simp)]
    rfl
  · rw [fromString, rbStrSplit_header (encs.valid_binary _) encs.asciiCompatible_binary
      ⟨nsClear, setClear, colon_not_mem_toString value, ascii_toString_ne_nil value⟩, Key.isInt,
      isKey]
    simp only [bind, Except.bind, List.getElem?_cons_zero, List.getElem?_cons_succ, if_true,
      toI_toString, Option.elim_some]
    exact keyInitialize_eq_ok.mpr ⟨named isNs, named isSet, converted, rfl⟩
  · rw [isKey]
    rfl

/-- A key survives its dump only if its user key is a String and its text splits. -/
theorem splits_of_survivesDump
    (built : keyInitialize rt (.string ns) (.string set) userKey = .ok key)
    (survives : SurvivesDump encs rt asKeyDigest key) :
    ∃ text, userKey = .string text ∧
      Splits encs (cstr ns.bytes).bytes (cstr set.bytes).bytes text := by
  rcases built_eq built with ⟨isNs, isSet, isKey, _⟩
  rcases survives with ⟨joined, key', dumped, loaded, same⟩
  rcases ExceptLoop.bind_eq_ok.mp loaded with ⟨fields, split, made⟩
  rcases fields with _ | ⟨field, _ | ⟨field', _ | ⟨field'', _ | ⟨extra, rest⟩⟩⟩⟩
  · cases made
  · cases made
  · cases made
  · rcases keyInitialize_eq_ok.mp made with ⟨named, inSet, _, isField⟩
    have userKeys := same.userKey
    rw [isField, isKey] at userKeys
    cases userKey with
    | string text =>
        rcases rbStrSplit_eq_ok split with ⟨valid, compatible, cut⟩
        have third : field''.bytes = text.bytes := userKeys.1
        have first : field.bytes = (cstr ns.bytes).bytes := by
          rw [← bytes_of_stringValueCStr (compatible field (by simp)) named, same.ns, isNs]
        have second : field'.bytes = (cstr set.bytes).bytes := by
          rw [← bytes_of_stringValueCStr (compatible field' (by simp)) inSet, same.set, isSet]
        rw [@dump_eq encs rt key text (by rw [isKey]; rfl), isNs, isSet, rbStrAppend] at dumped
        refine ⟨text, rfl, ?_⟩
        cases together : rbEncCompatible encs
            ⟨header (cstr ns.bytes).bytes (cstr set.bytes).bytes, .binary⟩ text with
        | none =>
            rw [together] at dumped
            cases dumped
        | some encoding =>
            rw [together, Except.ok.injEq] at dumped
            subst dumped
            simp only [List.map_cons, List.map_nil, first, second, third] at cut
            rcases fields_eq_iff.mp cut with ⟨nsClear, setClear, keyClear, nonempty⟩
            refine ⟨nsClear, setClear, keyClear, nonempty, ?_⟩
            rw [rbEncCompatible_binary (by simp) nonempty] at together
            split_ifs at together with binary compatible plain plainHeader
            · exact Or.inl binary
            · exact Or.inr ⟨compatible, Or.inl plain⟩
            · cases together
              right
              refine ⟨compatible, Or.inr ⟨?_, ?_, ?_⟩⟩
              · intro byte member
                exact plainHeader byte (by simp [member])
              · intro byte member
                exact plainHeader byte (by simp [member])
              · rwa [encs.valid_append _ _ _ compatible plainHeader] at valid
    | _ => exact userKeys.elim
  · cases made

/-- A key comes back from its texts exactly when the user key is a String and the text splits. -/
theorem survives_iff (encs : Encodings) (rt : Runtime) (asKeyDigest : CStr → KeyValue → Digest)
    (built : keyInitialize rt (.string ns) (.string set) userKey = .ok key) :
    SurvivesDump encs rt asKeyDigest key ∧ SurvivesInfo encs rt asKeyDigest key ↔
      ∃ text, userKey = .string text ∧
        Splits encs (cstr ns.bytes).bytes (cstr set.bytes).bytes text := by
  constructor
  · rintro ⟨survives, _⟩
    exact splits_of_survivesDump built survives
  · rintro ⟨text, rfl, splits⟩
    exact ⟨survivesDump_of_splits built splits, survivesInfo_of_splits built splits⟩

/-- The key of the example that marshals one. -/
theorem survives_sample :
    keyInitialize .sample (.string ⟨ascii "test", .utf8⟩) (.string ⟨ascii "marshal", .utf8⟩)
        (.string ⟨ascii "key", .utf8⟩) =
      .ok ⟨⟨cstr (ascii "test"), cstr (ascii "marshal"), .string (cstr (ascii "key"))⟩,
        .string ⟨ascii "key", .utf8⟩⟩ ∧
    SurvivesDump .sample .sample Prod.mk
      ⟨⟨cstr (ascii "test"), cstr (ascii "marshal"), .string (cstr (ascii "key"))⟩,
        .string ⟨ascii "key", .utf8⟩⟩ := by
  have built : keyInitialize .sample (.string ⟨ascii "test", .utf8⟩)
      (.string ⟨ascii "marshal", .utf8⟩) (.string ⟨ascii "key", .utf8⟩) = .ok _ := rfl
  have splits : Splits .sample (ascii "test") (ascii "marshal") ⟨ascii "key", .utf8⟩ := by
    constructor
    · simp [ascii, colon]
    · simp [ascii, colon]
    · simp [ascii, colon]
    · simp [ascii]
    · exact Or.inr ⟨rfl, Or.inl (by simp [AsciiOnly, ascii, UInt8.lt_iff_toNat_lt])⟩
  exact ⟨built, ((survives_iff .sample .sample Prod.mk built).mpr ⟨_, rfl, splits⟩).1⟩

/-- The fixnum 7 comes back as a String, in a key with another digest. -/
theorem not_survivesDump :
    ∃ key key', keyInitialize .sample (.string ⟨ascii "test", .utf8⟩) (.string ⟨ascii "s", .utf8⟩)
        (.integer 7) = .ok key ∧
      Key.dump .sample .sample key = .ok ⟨ascii "test:s:7", .binary⟩ ∧
      Key.load .sample .sample ⟨ascii "test:s:7", .binary⟩ = .ok key' ∧
      keyDigest Prod.mk key' ≠ keyDigest Prod.mk key ∧
      ¬(SurvivesDump .sample .sample Prod.mk key ∧ SurvivesInfo .sample .sample Prod.mk key) := by
  have built : keyInitialize .sample (.string ⟨ascii "test", .utf8⟩) (.string ⟨ascii "s", .utf8⟩)
      (.integer 7) =
        .ok ⟨⟨cstr (ascii "test"), cstr (ascii "s"), .integer (fix2long 7)⟩, .integer 7⟩ := rfl
  have shape : ascii "test:s:7" = header (ascii "test") (ascii "s") ++ ascii "7" := rfl
  refine ⟨_, ⟨⟨cstr (ascii "test"), cstr (ascii "s"), .string (cstr (ascii "7"))⟩,
    .string ⟨ascii "7", .binary⟩⟩, built, ?_, ?_, ?_, ?_⟩
  · exact @dump_of_integer _ _ _ 7 rfl
  · rw [Key.load, shape, rbStrSplit_header (Encodings.sample.valid_binary _) rfl
      (by simp [ascii, colon])]
    rfl
  · simp [keyDigest]
  · rintro ⟨survives, _⟩
    rcases splits_of_survivesDump built survives with ⟨text, impossible, _⟩
    cases impossible

end Theorems

end AerospikeCRuby
