import AerospikeCRuby.Library.AssocList
import AerospikeCRuby.Library.Fields
import AerospikeCRuby.Ruby.Value

/-!
# Info responses

`list_indexes`, `statistics` and `namespaces` take the answer of the server to
an info command apart with `gsub`, `gsub!` and `split`.  The answer is a binary
String, as are all its parts, so they are written as their bytes.
-/

namespace AerospikeCRuby

open AssocList (keys)

/-- `\s` of a regular expression. -/
def isSpace (byte : UInt8) : Bool :=
  byte == 32 || 9 ≤ byte && byte ≤ 13

/-- The regular expression `/cmd\s/`. -/
def commandPattern (cmd : String) : List (UInt8 → Bool) :=
  ((ascii cmd).map fun letter byte => byte == letter) ++ [isSpace]

/-- `gsub(/cmd\s/, '')`. -/
def gsubCommand (cmd : String) (text : Bytes) : Bytes :=
  Fields.remove (commandPattern cmd) text

/-- `gsub!(/cmd\s/, '')` and a call on its result, which is nil where nothing was replaced. -/
def gsubCommandBang (cmd : String) (text : Bytes) : Except Abort Bytes :=
  if Fields.occurs (commandPattern cmd) text then .ok (gsubCommand cmd text)
  else .error (.raised "NoMethodError")

/-- `gsub!(/\n/, '')` and a call on its result. -/
def gsubNewlineBang (text : Bytes) : Except Abort Bytes :=
  if 10 ∈ text then .ok (text.filter (· ≠ 10))
  else .error (.raised "NoMethodError")

/-- `gsub!(/cmd\s/, '').gsub!(/\n/, '')` and a call on its result. -/
def gsubBangs (cmd : String) (text : Bytes) : Except Abort Bytes := do
  let text ← gsubCommandBang cmd text
  gsubNewlineBang text

/-- A Hash of Strings, with nil for a value that is missing. -/
abbrev InfoHash := List (Bytes × Option Bytes)

/-- The name and the value of `st.split("=")`. -/
def typeAndValue (st : Bytes) : Bytes × Option Bytes :=
  let fields := Fields.split 61 st
  (fields[0]?.getD [], fields[1]?)

/-- The loop over the pairs. -/
def pairsHash (sts : List Bytes) : InfoHash :=
  sts.foldl (fun hash st => AssocList.putLast hash (typeAndValue st).1 (typeAndValue st).2) []

/-- `list_indexes`, from what `info_cmd("sindex")` returns. -/
def listIndexes (indexes : Bytes) : Except Abort (List InfoHash) := do
  let indexes ← gsubBangs "sindex" indexes
  .ok ((Fields.split 59 indexes).map fun index => pairsHash (Fields.split 58 index))

/-- `statistics`, from what `info_cmd("statistics")` returns. -/
def statistics (stats : Bytes) : Except Abort InfoHash := do
  let stats ← gsubBangs "statistics" stats
  .ok (pairsHash (Fields.split 59 stats))

/-- `namespaces`, from what `info_cmd("namespaces")` returns. -/
def namespaces (info : Bytes) : List Bytes :=
  Fields.split 59 (gsubCommand "namespaces" info)

/-- No byte of the text is one of these. -/
def FreeOf (separators text : Bytes) : Prop :=
  ∀ byte ∈ separators, byte ∉ text

instance (separators text : Bytes) : Decidable (FreeOf separators text) :=
  inferInstanceAs (Decidable (∀ byte ∈ separators, byte ∉ text))

/-- Pairs of distinct names and of values, as they are written in an answer. -/
structure InfoPairs (separators : Bytes) where
  pairs : List (Bytes × Bytes)
  distinct : (keys pairs).Nodup
  nonempty : ∀ pair ∈ pairs, pair.1 ≠ []
  names : ∀ pair ∈ pairs, FreeOf (ascii "=:;\n") pair.1
  values : ∀ pair ∈ pairs, FreeOf separators pair.2

/-- An index: its values hold no colon, semicolon or newline. -/
abbrev IndexEntry := InfoPairs (ascii ":;\n")

/-- Statistics: their values may hold colons. -/
abbrev Statistics := InfoPairs (ascii ";\n")

structure Namespaces where
  names : List Bytes
  distinct : names.Nodup
  nonempty : ∀ name ∈ names, name ≠ []
  free : ∀ name ∈ names, FreeOf (ascii "=:;\n") name

def pairText (pair : Bytes × Bytes) : Bytes :=
  pair.1 ++ 61 :: pair.2

/-- The pairs joined by a separator. -/
def InfoPairs.text {separators : Bytes} (sep : UInt8) (entry : InfoPairs separators) : Bytes :=
  [sep].intercalate (entry.pairs.map pairText)

/-- An answer: the command, a tab, the body and a newline. -/
def answer (cmd : String) (body : Bytes) : Bytes :=
  ascii cmd ++ 9 :: (body ++ [10])

def indexesBody (entries : List IndexEntry) : Bytes :=
  [59].intercalate (entries.map (InfoPairs.text 58))

/-- The Hash maps each name to its value. -/
def InfoPairs.ReadAs {separators : Bytes} (entry : InfoPairs separators) (hash : InfoHash) : Prop :=
  hash.Perm (entry.pairs.map fun pair => (pair.1, some pair.2))

/-- No value is empty or holds an equals sign. -/
def InfoPairs.Plain {separators : Bytes} (entry : InfoPairs separators) : Prop :=
  ∀ pair ∈ entry.pairs, pair.2 ≠ [] ∧ 61 ∉ pair.2

/-- The command followed by white space occurs in the body and its newline. -/
def Repeats (cmd : String) (body : Bytes) : Prop :=
  Fields.occurs (commandPattern cmd) (body ++ [10]) = true

section Commands

variable {cmd : String} {body : Bytes} {letter : UInt8}

theorem startsWith_command (letters rest : Bytes) {space : UInt8} (white : isSpace space = true) :
    Fields.startsWith ((letters.map fun letter byte => byte == letter) ++ [isSpace])
      (letters ++ space :: rest) = true := by
  induction letters with
  | nil => simp [Fields.startsWith, white]
  | cons letter letters ih => simpa [Fields.startsWith] using ih

/-- The command at the head of an answer is deleted, and the rest is searched from its end on. -/
theorem gsubCommand_answer (cmd : String) (body : Bytes) :
    gsubCommand cmd (answer cmd body) = Fields.remove (commandPattern cmd) (body ++ [10]) := by
  have starts : Fields.startsWith (commandPattern cmd) (answer cmd body) = true :=
    startsWith_command (ascii cmd) (body ++ [10]) rfl
  rw [gsubCommand, Fields.remove_of_startsWith (by simp [commandPattern]) starts]
  congr 1
  simp [commandPattern, answer, List.drop_append]

theorem gsubCommandBang_answer (cmd : String) (body : Bytes) :
    gsubCommandBang cmd (answer cmd body) =
      .ok (Fields.remove (commandPattern cmd) (body ++ [10])) := by
  have starts : Fields.startsWith (commandPattern cmd) (answer cmd body) = true :=
    startsWith_command (ascii cmd) (body ++ [10]) rfl
  rw [gsubCommandBang, if_pos (Fields.occurs_of_startsWith starts), gsubCommand_answer]

theorem commandPattern_asks (member : letter ∈ ascii cmd) :
    ∃ accepts ∈ commandPattern cmd, ∀ item, accepts item = true → item = letter := by
  refine ⟨fun byte => byte == letter, ?_, fun item => by simp⟩
  rw [commandPattern, List.mem_append]
  exact Or.inl (List.mem_map_of_mem member)

/-- A command that is repeated takes letters of the body with it. -/
theorem not_repeats_of_count (member : letter ∈ ascii cmd) (noNewline : letter ≠ 10)
    (kept : body.count letter ≤
      (Fields.remove (commandPattern cmd) (body ++ [10])).count letter) :
    ¬Repeats cmd body := by
  intro repeats
  unfold Repeats at repeats
  have fewer := Fields.count_remove_le (commandPattern_asks member) (body ++ [10])
  have newline : List.count letter [10] = 0 :=
    List.count_eq_zero_of_not_mem (by simpa using noNewline)
  rw [if_pos repeats, List.count_append, newline] at fewer
  omega

/-- What is left of the answer where the command is not repeated. -/
theorem remove_of_not_repeats (once : ¬Repeats cmd body) :
    Fields.remove (commandPattern cmd) (body ++ [10]) = body ++ [10] :=
  Fields.remove_of_not_occurs (by simpa [Repeats] using once)

theorem gsubNewlineBang_body (free : 10 ∉ body) : gsubNewlineBang (body ++ [10]) = .ok body := by
  have kept : body.filter (· ≠ 10) = body := by
    rw [List.filter_eq_self]
    intro byte member
    have : byte ≠ 10 := by
      rintro rfl
      exact free member
    simpa using this
  rw [gsubNewlineBang, if_pos (by simp), List.filter_append, kept]
  simp

end Commands

section Weights

variable {letter : UInt8}

/-- How often the letter stands in the Strings of a Hash. -/
def InfoHash.weight (letter : UInt8) (hash : InfoHash) : ℕ :=
  (hash.map fun entry => entry.1.count letter + (entry.2.getD []).count letter).sum

theorem typeAndValue_weight_le (differ : letter ≠ 61) (st : Bytes) :
    (typeAndValue st).1.count letter + ((typeAndValue st).2.getD []).count letter ≤
      st.count letter := by
  have whole : ((Fields.split 61 st).map (List.count letter)).sum = st.count letter :=
    Fields.count_split differ
  rw [← whole, typeAndValue]
  rcases Fields.split 61 st with _ | ⟨name, _ | ⟨value, rest⟩⟩
  · simp
  · simp
  · simp

theorem pairsHash_eq (sts : List Bytes) :
    pairsHash sts = (sts.map typeAndValue).foldl
      (fun hash pair => AssocList.putLast hash pair.1 pair.2) [] := by
  rw [pairsHash, List.foldl_map]

/-- A Hash holds no letter more often than the texts of the pairs do. -/
theorem weight_pairsHash_le (differ : letter ≠ 61) (sts : List Bytes) :
    InfoHash.weight letter (pairsHash sts) ≤ (sts.map (List.count letter)).sum := by
  have nodup : (pairsHash sts).Nodup := by
    rw [pairsHash_eq]
    exact (AssocList.nodup_keys_foldl_put (fun hash _ => hash.length) _
      AssocList.nodup_keys_nil).of_map
  have subset : pairsHash sts ⊆ sts.map typeAndValue := by
    intro entry member
    rw [pairsHash_eq] at member
    exact (AssocList.mem_of_mem_foldl_put (fun hash _ => hash.length) member).resolve_left
      List.not_mem_nil
  rcases nodup.subperm subset with ⟨kept, perm, sublist⟩
  have weights : InfoHash.weight letter (pairsHash sts) =
      (kept.map fun entry => entry.1.count letter + (entry.2.getD []).count letter).sum :=
    ((perm.map _).sum_eq).symm
  calc InfoHash.weight letter (pairsHash sts)
      ≤ ((sts.map typeAndValue).map fun entry =>
          entry.1.count letter + (entry.2.getD []).count letter).sum := by
        rw [weights]
        exact (sublist.map _).sum_le_sum fun _ _ => Nat.zero_le _
    _ ≤ (sts.map (List.count letter)).sum := by
        rw [List.map_map]
        exact List.sum_le_sum fun st _ => typeAndValue_weight_le differ st

theorem weight_pairsHash_split_le (differ : letter ≠ 61) {sep : UInt8} (other : letter ≠ sep)
    (text : Bytes) :
    InfoHash.weight letter (pairsHash (Fields.split sep text)) ≤ text.count letter :=
  (weight_pairsHash_le differ _).trans_eq (Fields.count_split other)

end Weights

section Pairs

variable {separators : Bytes} {entry : InfoPairs separators} {hash : InfoHash}
  {byte letter sep : UInt8}

theorem pairText_ne_nil (pair : Bytes × Bytes) : pairText pair ≠ [] := by
  simp [pairText]

theorem typeAndValue_pairText {pair : Bytes × Bytes} (nonempty : pair.1 ≠ [])
    (free : 61 ∉ pair.1) :
    typeAndValue (pairText pair) = (pair.1, (Fields.split 61 pair.2).head?) := by
  rw [typeAndValue, pairText, Fields.split_append_cons free nonempty]
  simp [List.head?_eq_getElem?]

theorem InfoPairs.not_mem_pairText {pair : Bytes × Bytes} (member : pair ∈ entry.pairs)
    (named : byte ∈ ascii ":;\n") (listed : byte ∈ separators) : byte ∉ pairText pair := by
  have fromName : byte ∉ pair.1 :=
    entry.names pair member byte ((by decide : ascii ":;\n" ⊆ ascii "=:;\n") named)
  have fromValue : byte ∉ pair.2 := entry.values pair member byte listed
  have differ : byte ≠ 61 := by
    rintro rfl
    revert named
    decide
  rw [pairText, List.mem_append, List.mem_cons]
  rintro (inside | equals | inside)
  · exact fromName inside
  · exact differ equals
  · exact fromValue inside

/-- The Hash that is read from the pairs: a value is cut at its first equals sign, and is missing
where nothing comes before it. -/
theorem InfoPairs.pairsHash_pairText (entry : InfoPairs separators) :
    pairsHash (entry.pairs.map pairText) =
      entry.pairs.map fun pair => (pair.1, (Fields.split 61 pair.2).head?) := by
  have read : (entry.pairs.map pairText).map typeAndValue =
      entry.pairs.map fun pair => (pair.1, (Fields.split 61 pair.2).head?) := by
    rw [List.map_map]
    exact List.map_congr_left fun pair member => typeAndValue_pairText
      (entry.nonempty pair member) (entry.names pair member 61 (by decide))
  rw [pairsHash_eq, read]
  apply AssocList.foldl_putLast_of_nodup []
  rw [List.nil_append, keys, List.map_map]
  exact entry.distinct

theorem InfoPairs.readAs_pairsHash_iff (entry : InfoPairs separators) :
    entry.ReadAs (pairsHash (entry.pairs.map pairText)) ↔ entry.Plain := by
  rw [ReadAs, entry.pairsHash_pairText]
  constructor
  · intro perm pair member
    have read : (pair.1, some pair.2) ∈
        entry.pairs.map fun pair => (pair.1, (Fields.split 61 pair.2).head?) :=
      perm.mem_iff.mpr (List.mem_map_of_mem member)
    rcases List.mem_map.mp read with ⟨found, inside, same⟩
    rw [Prod.mk.injEq] at same
    have here : found = pair := List.inj_on_of_nodup_map entry.distinct inside member same.1
    subst here
    exact Fields.head?_split_eq_self_iff.mp same.2
  · intro plain
    have whole : (entry.pairs.map fun pair => (pair.1, (Fields.split 61 pair.2).head?)) =
        entry.pairs.map fun pair => (pair.1, some pair.2) := by
      apply List.map_congr_left
      intro pair member
      rw [Fields.head?_split_eq_self_iff.mpr (plain pair member)]
    rw [whole]

/-- The text of an entry is split where its pairs were joined. -/
theorem InfoPairs.split_text (entry : InfoPairs separators) (named : sep ∈ ascii ":;\n")
    (listed : sep ∈ separators) :
    Fields.split sep (entry.text sep) = entry.pairs.map pairText := by
  apply Fields.split_join_of_ne_nil
  · intro part member
    rcases List.mem_map.mp member with ⟨pair, inside, rfl⟩
    exact not_mem_pairText inside named listed
  · intro part member
    rcases List.mem_map.mp member with ⟨pair, _, rfl⟩
    exact pairText_ne_nil pair

theorem InfoPairs.not_mem_text (differ : byte ≠ sep) (named : byte ∈ ascii ":;\n")
    (listed : byte ∈ separators) : byte ∉ entry.text sep := by
  apply Fields.not_mem_join differ
  intro part member
  rcases List.mem_map.mp member with ⟨pair, inside, rfl⟩
  exact not_mem_pairText inside named listed

/-- A Hash that maps each name to its value holds the letters of the text. -/
theorem InfoPairs.weight_of_readAs (read : entry.ReadAs hash) (differ : letter ≠ 61)
    (other : letter ≠ sep) : hash.weight letter = (entry.text sep).count letter := by
  rw [text, Fields.count_join other, List.map_map, InfoHash.weight, (read.map _).sum_eq,
    List.map_map]
  congr 1
  apply List.map_congr_left
  intro pair _
  have separator : List.count letter (61 :: pair.2) = pair.2.count letter :=
    List.count_cons_of_ne differ.symm
  simp [pairText, separator]

end Pairs

section Answers

variable {cmd : String} {body text : Bytes} {letter : UInt8}

theorem gsubBangs_of_not_repeats (once : ¬Repeats cmd body) (free : 10 ∉ body) :
    gsubBangs cmd (answer cmd body) = .ok body := by
  rw [gsubBangs, gsubCommandBang_answer, remove_of_not_repeats once]
  exact gsubNewlineBang_body free

/-- Deleting newlines keeps every other letter. -/
theorem count_of_gsubNewlineBang (differ : letter ≠ 10)
    (cleaned : gsubNewlineBang body = .ok text) :
    text.count letter = body.count letter := by
  unfold gsubNewlineBang at cleaned
  split at cleaned
  · cases cleaned
    exact List.count_filter (by simpa using differ)
  · cases cleaned

/-- Where a letter of the command was not lost the command is not repeated. -/
theorem not_repeats_of_gsubBangs (member : letter ∈ ascii cmd) (differ : letter ≠ 10)
    (cleaned : gsubBangs cmd (answer cmd body) = .ok text)
    (kept : body.count letter ≤ text.count letter) : ¬Repeats cmd body := by
  rw [gsubBangs, gsubCommandBang_answer] at cleaned
  apply not_repeats_of_count member differ
  rw [← count_of_gsubNewlineBang differ cleaned]
  exact kept

theorem statistics_eq_ok {stats : Bytes} {hash : InfoHash} :
    statistics stats = .ok hash ↔
      ∃ text, gsubBangs "statistics" stats = .ok text ∧
        pairsHash (Fields.split 59 text) = hash := by
  rw [statistics]
  cases gsubBangs "statistics" stats <;> simp [Bind.bind, Except.bind]

theorem listIndexes_eq_ok {indexes : Bytes} {hashes : List InfoHash} :
    listIndexes indexes = .ok hashes ↔
      ∃ text, gsubBangs "sindex" indexes = .ok text ∧
        ((Fields.split 59 text).map fun index => pairsHash (Fields.split 58 index)) = hashes := by
  rw [listIndexes]
  cases gsubBangs "sindex" indexes <;> simp [Bind.bind, Except.bind]

/-- Statistics are read where the command does not occur again and each value can be read. -/
theorem statistics_read_iff (stats : Statistics) :
    (∃ hash, statistics (answer "statistics" (stats.text 59)) = .ok hash ∧ stats.ReadAs hash) ↔
      stats.Plain ∧ ¬Repeats "statistics" (stats.text 59) := by
  have free : 10 ∉ stats.text 59 :=
    InfoPairs.not_mem_text (by decide) (by decide) (by decide)
  have split : Fields.split 59 (stats.text 59) = stats.pairs.map pairText :=
    stats.split_text (by decide) (by decide)
  constructor
  · rintro ⟨hash, result, read⟩
    rcases statistics_eq_ok.mp result with ⟨text, cleaned, rfl⟩
    have kept : (stats.text 59).count 115 ≤ text.count 115 := by
      rw [← InfoPairs.weight_of_readAs read (by decide) (by decide)]
      exact weight_pairsHash_split_le (by decide) (by decide) text
    have once : ¬Repeats "statistics" (stats.text 59) :=
      not_repeats_of_gsubBangs (by decide) (by decide) cleaned kept
    rw [gsubBangs_of_not_repeats once free] at cleaned
    cases cleaned
    rw [split, stats.readAs_pairsHash_iff] at read
    exact ⟨read, once⟩
  · rintro ⟨plain, once⟩
    refine ⟨_, statistics_eq_ok.mpr ⟨_, gsubBangs_of_not_repeats once free, rfl⟩, ?_⟩
    rw [split]
    exact stats.readAs_pairsHash_iff.mpr plain

theorem not_mem_indexesBody (entries : List IndexEntry) : 10 ∉ indexesBody entries := by
  apply Fields.not_mem_join (by decide)
  intro part member
  rcases List.mem_map.mp member with ⟨entry, _, rfl⟩
  exact InfoPairs.not_mem_text (by decide) (by decide) (by decide)

theorem split_indexesBody (entries : List IndexEntry) :
    Fields.split 59 (indexesBody entries) =
      (entries.map (InfoPairs.text 58)).rdropWhile (fun field => field = []) := by
  apply Fields.split_join
  intro part member
  rcases List.mem_map.mp member with ⟨entry, _, rfl⟩
  exact InfoPairs.not_mem_text (by decide) (by decide) (by decide)

theorem InfoPairs.text_eq_nil_iff {separators : Bytes} {sep : UInt8}
    (entry : InfoPairs separators) : entry.text sep = [] ↔ entry.pairs = [] := by
  rw [text]
  cases entry.pairs with
  | nil => simp
  | cons pair rest => cases rest <;> simp [pairText]

theorem count_indexesBody (entries : List IndexEntry) (hashes : List InfoHash)
    (read : List.Forall₂ InfoPairs.ReadAs entries hashes) {letter : UInt8} (differ : letter ≠ 61)
    (first : letter ≠ 58) (second : letter ≠ 59) :
    (indexesBody entries).count letter = (hashes.map (InfoHash.weight letter)).sum := by
  rw [indexesBody, Fields.count_join second, List.map_map]
  congr 1
  induction read with
  | nil => rfl
  | cons read _ ih =>
      rw [List.map_cons, List.map_cons, ih, Function.comp_apply,
        InfoPairs.weight_of_readAs read differ first]

/-- The empty entry at the end of a text is not split off. -/
theorem texts_kept_iff (entries : List IndexEntry) :
    (entries.map (InfoPairs.text 58)).rdropWhile (fun field => field = []) =
        entries.map (InfoPairs.text 58) ↔
      ∀ last ∈ entries.getLast?, last.pairs ≠ [] := by
  rw [List.rdropWhile_eq_self_iff]
  induction entries using List.reverseRecOn with
  | nil => simp
  | append_singleton before last _ => simp [InfoPairs.text_eq_nil_iff]

theorem forall₂_readAs_iff (entries : List IndexEntry) :
    List.Forall₂ InfoPairs.ReadAs entries ((entries.map (InfoPairs.text 58)).map
        fun index => pairsHash (Fields.split 58 index)) ↔
      ∀ entry ∈ entries, entry.Plain := by
  rw [List.forall₂_map_right_iff, List.forall₂_map_right_iff, List.forall₂_same]
  refine forall₂_congr fun entry _ => ?_
  rw [entry.split_text (by decide) (by decide)]
  exact entry.readAs_pairsHash_iff

/-- Indexes are read where the command does not occur again, the last one has pairs and each value
can be read. -/
theorem listIndexes_read_iff (entries : List IndexEntry) :
    (∃ hashes, listIndexes (answer "sindex" (indexesBody entries)) = .ok hashes ∧
        List.Forall₂ InfoPairs.ReadAs entries hashes) ↔
      (∀ entry ∈ entries, entry.Plain) ∧ (∀ last ∈ entries.getLast?, last.pairs ≠ []) ∧
        ¬Repeats "sindex" (indexesBody entries) := by
  have free := not_mem_indexesBody entries
  constructor
  · rintro ⟨hashes, result, read⟩
    rcases listIndexes_eq_ok.mp result with ⟨text, cleaned, rfl⟩
    have kept : (indexesBody entries).count 115 ≤ text.count 115 := by
      have whole : ((Fields.split 59 text).map (List.count 115)).sum = text.count 115 :=
        Fields.count_split (by decide)
      rw [count_indexesBody entries _ read (by decide) (by decide) (by decide), List.map_map,
        ← whole]
      exact List.sum_le_sum fun index _ =>
        weight_pairsHash_split_le (by decide) (by decide) index
    have once : ¬Repeats "sindex" (indexesBody entries) :=
      not_repeats_of_gsubBangs (by decide) (by decide) cleaned kept
    rw [gsubBangs_of_not_repeats once free] at cleaned
    cases cleaned
    rw [split_indexesBody] at read
    have whole : (entries.map (InfoPairs.text 58)).rdropWhile (fun field => field = []) =
        entries.map (InfoPairs.text 58) := by
      apply (List.rdropWhile_prefix _ _).eq_of_length
      simpa using read.length_eq.symm
    rw [whole, forall₂_readAs_iff] at read
    exact ⟨read, (texts_kept_iff entries).mp whole, once⟩
  · rintro ⟨plain, last, once⟩
    refine ⟨_, listIndexes_eq_ok.mpr ⟨_, gsubBangs_of_not_repeats once free, rfl⟩, ?_⟩
    rw [split_indexesBody, (texts_kept_iff entries).mpr last, forall₂_readAs_iff]
    exact plain

/-- Either the newline stays in the last name or letters are lost. -/
theorem namespaces_ne (names : Namespaces) :
    namespaces (answer "namespaces" ([59].intercalate names.names)) ≠ names.names := by
  rw [namespaces, gsubCommand_answer]
  intro read
  have counts : ∀ letter, letter ≠ 59 →
      ([59].intercalate names.names).count letter =
        (Fields.remove (commandPattern "namespaces")
          ([59].intercalate names.names ++ [10])).count letter := by
    intro letter differ
    rw [Fields.count_join differ, ← Fields.count_split differ, read]
  have once : ¬Repeats "namespaces" ([59].intercalate names.names) :=
    not_repeats_of_count (by decide : 115 ∈ ascii "namespaces") (by decide)
      (counts 115 (by decide)).le
  have newlines := counts 10 (by decide)
  rw [remove_of_not_repeats once, List.count_append] at newlines
  simp at newlines

/-- What is recovered of an answer: indexes and statistics whose values are neither empty nor hold
an equals sign, where the command is not repeated and the last index is not empty; namespaces
never. -/
theorem info_recovered_iff (entries : List IndexEntry) (stats : Statistics)
    (names : Namespaces) :
    ((∃ hashes, listIndexes (answer "sindex" (indexesBody entries)) = .ok hashes ∧
          List.Forall₂ InfoPairs.ReadAs entries hashes) ↔
        (∀ entry ∈ entries, entry.Plain) ∧ (∀ last ∈ entries.getLast?, last.pairs ≠ []) ∧
          ¬Repeats "sindex" (indexesBody entries)) ∧
      ((∃ hash, statistics (answer "statistics" (stats.text 59)) = .ok hash ∧
          stats.ReadAs hash) ↔
        stats.Plain ∧ ¬Repeats "statistics" (stats.text 59)) ∧
      namespaces (answer "namespaces" ([59].intercalate names.names)) ≠ names.names :=
  ⟨listIndexes_read_iff entries, statistics_read_iff stats, namespaces_ne names⟩

/-- The name of a single namespace is read with the newline of the answer. -/
theorem info_not_recovered :
    ¬((∀ entries : List IndexEntry,
        ∃ hashes, listIndexes (answer "sindex" (indexesBody entries)) = .ok hashes ∧
          List.Forall₂ InfoPairs.ReadAs entries hashes) ∧
      (∀ stats : Statistics,
        ∃ hash, statistics (answer "statistics" (stats.text 59)) = .ok hash ∧
          stats.ReadAs hash) ∧
      ∀ names : Namespaces,
        namespaces (answer "namespaces" ([59].intercalate names.names)) = names.names) := by
  rintro ⟨_, _, recovered⟩
  have read := recovered ⟨[ascii "test"], by decide, by decide, by decide +kernel⟩
  revert read
  decide

end Answers

end AerospikeCRuby
