import AerospikeCRuby.Query.Answer

/-!
# Which queries mean what they say

The results quantify over every program of builder calls.  A query is translated
exactly when C can read its names and texts and its predicate compiles, and the
translation means what was asked exactly when no name that matters is refused or
cut.  The order is lost whenever there is one.
-/

namespace AerospikeCRuby

namespace Query

section ManyNames

/-- A byte which is not NUL, by a number modulo 255. -/
def nameByte (number : ℕ) : UInt8 :=
  UInt8.ofNat (number % 255 + 1)

theorem toNat_nameByte (number : ℕ) : (nameByte number).toNat = number % 255 + 1 := by
  rw [nameByte, UInt8.toNat_ofNat']
  omega

theorem nameByte_ne_zero (number : ℕ) : nameByte number ≠ 0 := by
  intro zero
  have value := toNat_nameByte number
  rw [zero] at value
  cases value

/-- A name of four bytes, by a number below `255 ^ 4`. -/
def numberedName (number : ℕ) : CStr where
  bytes := [nameByte number, nameByte (number / 255), nameByte (number / 255 / 255),
    nameByte (number / 255 / 255 / 255)]
  nulFree := by simp [NulFree, (nameByte_ne_zero _).symm]

theorem numberedName_injOn : Set.InjOn numberedName (Set.Iio (255 ^ 4)) := by
  intro left leftSmall right rightSmall same
  have digits {number other : ℕ} (byte : nameByte number = nameByte other) :
      number % 255 = other % 255 := by
    have value := toNat_nameByte number
    rw [byte, toNat_nameByte] at value
    omega
  simp only [numberedName, CStr.mk.injEq, List.cons.injEq, and_true] at same
  rcases same with ⟨byte0, byte1, byte2, byte3⟩
  have digit0 := digits byte0
  have digit1 := digits byte1
  have digit2 := digits byte2
  have digit3 := digits byte3
  rw [Set.mem_Iio] at leftSmall rightSmall
  omega

/-- No list that fits an `int` holds all short names. -/
theorem exists_shortName_notMem {names : List CStr} (few : names.length < 2 ^ 31) :
    ∃ name, ShortName name ∧ name ∉ names := by
  have many : names.toFinset.card < ((Finset.range (255 ^ 4)).image numberedName).card := by
    rw [Finset.card_image_of_injOn (by rw [Finset.coe_range]; exact numberedName_injOn),
      Finset.card_range]
    have counted := names.toFinset_card_le
    omega
  rcases Finset.exists_mem_notMem_of_card_lt_card many with ⟨name, member, outside⟩
  rcases Finset.mem_image.mp member with ⟨number, _, rfl⟩
  refine ⟨_, ?_, fun held => outside (List.mem_toFinset.mpr held)⟩
  change 4 ≤ asBinNameMaxLen
  decide

end ManyNames

section Steps

variable {rt : Runtime} {env : Unspecified}

/-- A query without bins keeps the empty list which it has from the start. -/
theorem select_eq_ok {asQuery asQuery' : AsQuery} (fresh : asQuery.select = .empty 0)
    {bins : List RbVal} :
    select rt asQuery bins = .ok asQuery' ↔
      bins.length < 2 ^ 31 ∧ ∃ names, selectNames rt bins = .ok names ∧
        { asQuery with select := (BoundedList.empty (bins.length % 2 ^ 16)).addAll names } =
          asQuery' := by
  simp only [select, ExceptLoop.bind_eq_ok, rbAryLenInt_eq_ok]
  cases bins with
  | nil =>
      have same : { asQuery with select := (BoundedList.empty 0).addAll [] } = asQuery := by
        rw [← fresh]
        rfl
      simp [selectNames, ExceptLoop.collect, same]
  | cons bin rest => simp [ExceptLoop.bind_eq_ok]

/-- A query without an order keeps the list which it has from the start; any other list goes with
the function that made it. -/
theorem orderBins_eq_ok {asQuery asQuery' : AsQuery} {order : List RbVal} :
    orderBins rt env asQuery order = .ok asQuery' ↔
      order.length < 2 ^ 31 ∧ ∃ entries,
        ExceptLoop.collect (orderEntry rt env) order = .ok entries ∧
        { asQuery with
          orderby :=
            if order = [] then asQuery.orderby
            else .alloca ((BoundedList.empty (order.length % 2 ^ 16)).addAll entries) } =
          asQuery' := by
  simp only [orderBins, ExceptLoop.bind_eq_ok, rbAryLenInt_eq_ok]
  cases order with
  | nil => simp [ExceptLoop.collect]
  | cons entry rest => simp [ExceptLoop.bind_eq_ok]

/-- The clause of the last condition. -/
def clauseOfLast : Option (RbStr × Condition) → Except Abort (Option (CStr × AsPredicate))
  | none => .ok none
  | some asked => do
      let clause ← clauseOf asked
      .ok (some clause)

theorem addFilter_of_rel {filter : Option (List (RbVal × RbVal))}
    {condition : Option (RbStr × Condition)} (filters : Option.Rel FilterOf filter condition)
    (asQuery : AsQuery) :
    addFilter rt env asQuery filter = (do
      let clause ← clauseOfLast condition
      .ok (clause.elim asQuery fun clause => asQuery.addWhere clause.1 clause.2)) := by
  cases filters with
  | none => rfl
  | @some filter asked filters =>
      rw [addFilter, whereClause_of_filterOf filters, clauseOfLast]
      cases clauseOf asked <;> rfl

theorem collect_orderEntry {order : List RbVal} {asked : List (RbStr × AsOrder)}
    (orders : List.Forall₂ OrderOf order asked) :
    ExceptLoop.collect (orderEntry rt env) order = ExceptLoop.collect entryOf asked := by
  induction orders with
  | nil => rfl
  | cons same _ ih => rw [ExceptLoop.collect, ExceptLoop.collect, orderEntry_of_orderOf same, ih]

/-- What the parts of a query convert to. -/
structure Parts where
  ns : CStr
  set : CStr
  names : List CStr
  clause : Option (CStr × AsPredicate)
  entries : List (CStr × ℤ)
  predexp : Option (AsQueryPredexp AsPredexp)

namespace Parts

structure Of (rt : Runtime) (varName : RbVal → CStr) (asked : Asked) (parts : Parts) : Prop where
  ns : valueToCstr rt asked.ns = .ok parts.ns
  set : valueToCstr rt asked.set = .ok parts.set
  few : asked.bins.length < 2 ^ 31
  names : selectNames rt asked.bins = .ok parts.names
  clause : clauseOfLast asked.condition = .ok parts.clause
  few' : asked.order.length < 2 ^ 31
  entries : ExceptLoop.collect entryOf asked.order = .ok parts.entries
  predexp : queryPredexps rt varName asked.predexp = .ok parts.predexp

/-- The query which the parts are put into; a loop offers as many names as it has room for, but
for the 16 bits of the count. -/
def filled (parts : Parts) : AsQuery where
  ns := parts.ns
  set := parts.set
  select := (BoundedList.empty (parts.names.length % 2 ^ 16)).addAll parts.names
  where_ := (BoundedList.empty 1).addAll parts.clause.toList
  orderby :=
    if parts.entries = [] then .held (.empty 0)
    else .alloca ((BoundedList.empty (parts.entries.length % 2 ^ 16)).addAll parts.entries)
  predexp := parts.predexp

def asQuery (parts : Parts) : AsQuery :=
  parts.filled.returned

theorem where_asQuery (parts : Parts) :
    parts.asQuery.where_ = (BoundedList.empty 1).addAll parts.clause.toList := rfl

theorem select_asQuery (parts : Parts) :
    parts.asQuery.select = (BoundedList.empty (parts.names.length % 2 ^ 16)).addAll parts.names :=
  rfl

theorem orderby_asQuery (parts : Parts) :
    parts.asQuery.orderby = if parts.entries = [] then .held (.empty 0) else .gone := by
  rw [asQuery, AsQuery.returned, filled]
  split <;> rfl

theorem Of.length_names {varName : RbVal → CStr} {asked : Asked} {parts : Parts}
    (of : parts.Of rt varName asked) : parts.names.length = asked.bins.length :=
  (ExceptLoop.collect_eq_ok.mp of.names).length_eq.symm

/-- The names of the order, as C sees them, and the directions. -/
theorem Of.entries_eq {varName : RbVal → CStr} {asked : Asked} {parts : Parts}
    (of : parts.Of rt varName asked) :
    parts.entries = asked.order.map fun entry => (cstr entry.1.bytes, entry.2.code) := by
  have aligned := ExceptLoop.collect_eq_ok.mp of.entries
  generalize parts.entries = entries at aligned ⊢
  generalize asked.order = order at aligned ⊢
  induction aligned with
  | nil => rfl
  | cons same _ ih =>
      rcases ExceptLoop.bind_eq_ok.mp same with ⟨name, converted, made⟩
      cases made
      rw [List.map_cons, ih, (stringValueCStr_eq_ok_iff.mp converted).2]

theorem Of.length_entries {varName : RbVal → CStr} {asked : Asked} {parts : Parts}
    (of : parts.Of rt varName asked) : parts.entries.length = asked.order.length := by
  rw [of.entries_eq, List.length_map]

end Parts

/-- A translation is filled with the parts of what is asked for. -/
theorem Represents.fillQuery_eq_ok {query : Query} {asked : Asked}
    (represents : query.Represents asked) {varName : RbVal → CStr} {asQuery : AsQuery} :
    fillQuery rt env varName query = .ok asQuery ↔
      ∃ parts : Parts, parts.Of rt varName asked ∧ parts.filled = asQuery := by
  have noOrder : query.order = [] ↔ asked.order = [] := by
    rw [← List.length_eq_zero_iff, represents.order.length_eq, List.length_eq_zero_iff]
  have unlisted {entries : List (CStr × ℤ)}
      (listed : ExceptLoop.collect entryOf asked.order = .ok entries) :
      asked.order = [] ↔ entries = [] := by
    rw [← List.length_eq_zero_iff, (ExceptLoop.collect_eq_ok.mp listed).length_eq,
      List.length_eq_zero_iff]
  rw [fillQuery]
  simp only [ExceptLoop.bind_eq_ok, represents.ns, represents.set, represents.bins,
    represents.predexp, addFilter_of_rel represents.filter]
  constructor
  · rintro ⟨nsText, nsOk, setText, setOk, _, selects, _, ⟨clause, clauses, adds⟩, _, orders,
      predexp, predexps, made⟩
    rcases (select_eq_ok rfl).mp selects with ⟨few, names, named, rfl⟩
    cases adds
    rcases orderBins_eq_ok.mp orders with ⟨few', entries, listed, rfl⟩
    cases made
    rw [collect_orderEntry represents.order] at listed
    have of : Parts.Of rt varName asked ⟨nsText, setText, names, clause, entries, predexp⟩ :=
      ⟨nsOk, setOk, few, named, clauses, represents.order.length_eq ▸ few', listed, predexps⟩
    refine ⟨_, of, ?_⟩
    rw [Parts.filled, of.length_names, of.length_entries, represents.order.length_eq]
    simp only [noOrder, unlisted listed]
    cases clause <;> rfl
  · rintro ⟨parts, of, rfl⟩
    have few' : query.order.length < 2 ^ 31 := represents.order.length_eq ▸ of.few'
    have listed : ExceptLoop.collect (orderEntry rt env) query.order = .ok parts.entries :=
      (collect_orderEntry represents.order).trans of.entries
    refine ⟨_, of.ns, _, of.set, _, (select_eq_ok rfl).mpr ⟨of.few, _, of.names, rfl⟩, _,
      ⟨_, of.clause, rfl⟩, _, orderBins_eq_ok.mpr ⟨few', _, listed, rfl⟩, _, of.predexp, ?_⟩
    rw [Parts.filled, of.length_names, of.length_entries, represents.order.length_eq]
    simp only [noOrder, unlisted of.entries]
    cases parts.clause <;> rfl

theorem Represents.queryObj2asQuery_eq_ok {query : Query} {asked : Asked}
    (represents : query.Represents asked) {varName : RbVal → CStr} {asQuery : AsQuery} :
    queryObj2asQuery rt env varName query = .ok asQuery ↔
      ∃ parts : Parts, parts.Of rt varName asked ∧ parts.asQuery = asQuery := by
  simp only [queryObj2asQuery, ExceptLoop.bind_eq_ok, represents.fillQuery_eq_ok, Except.ok.injEq]
  constructor
  · rintro ⟨_, ⟨parts, of, rfl⟩, rfl⟩
    exact ⟨parts, of, rfl⟩
  · rintro ⟨parts, of, rfl⟩
    exact ⟨_, ⟨parts, of, rfl⟩, rfl⟩

/-- The names which `as_query_select` takes. -/
def taken (names : List CStr) : List CStr :=
  (names.filter fun name => ShortName name).take (names.length % 2 ^ 16)

theorem shortName_of_taken {names : List CStr} {name : CStr} (member : name ∈ taken names) :
    ShortName name :=
  of_decide_eq_true (List.mem_filter.mp (List.mem_of_mem_take member)).2

namespace Parts

variable {varName : RbVal → CStr} {asked : Asked} {parts : Parts}

theorem mem_where (clause : CStr × AsPredicate) :
    clause ∈ parts.asQuery.where_.entries ↔ parts.clause = some clause ∧ ShortName clause.1 := by
  rw [where_asQuery, BoundedList.entries_addAll_empty]
  cases parts.clause with
  | none => simp
  | some held =>
      have one : ([held].filter fun clause => decide (ShortName clause.1)).length ≤ 1 :=
        List.length_filter_le _ [held]
      rw [Option.toList_some, List.take_of_length_le one, List.mem_filter, List.mem_singleton,
        decide_eq_true_eq, Option.some.injEq, eq_comm]

theorem Of.clause_of_asked (of : parts.Of rt varName asked) {asks : RbStr × Condition}
    (last : asked.condition = some asks) :
    ∃ predicate, asks.1.Readable ∧ parts.clause = some (cstr asks.1.bytes, predicate) ∧
      predicateOf asks.2 = .ok predicate := by
  have clauses := of.clause
  rw [last, clauseOfLast, clauseOf] at clauses
  simp only [ExceptLoop.bind_eq_ok, stringValueCStr_eq_ok_iff] at clauses
  rcases clauses with ⟨_, ⟨_, ⟨readable, rfl⟩, predicate, said, made⟩, clauses⟩
  cases made
  exact ⟨predicate, readable, (Except.ok.inj clauses).symm, said⟩

/-- The clause of a condition on a name which is not refused. -/
theorem Of.admits_iff_of_short (of : parts.Of rt varName asked) {asks : RbStr × Condition}
    (last : asked.condition = some asks) (short : ShortName (cstr asks.1.bytes)) :
    ∃ predicate, predicateOf asks.2 = .ok predicate ∧ ∀ regions rec,
      parts.asQuery.Admits regions rec ↔
        ∃ value, (cstr asks.1.bytes, value) ∈ rec.bins ∧ predicate.Holds regions value := by
  rcases of.clause_of_asked last with ⟨predicate, _, clause, said⟩
  refine ⟨predicate, said, fun regions rec => ?_⟩
  constructor
  · intro admits
    exact admits _ ((mem_where _).mpr ⟨clause, short⟩)
  · rintro found other member
    cases ((mem_where other).mp member).1.symm.trans clause
    exact found

/-- A condition which is kept becomes the clause which says the same. -/
theorem Of.admits_of_kept (of : parts.Of rt varName asked) {query : Query}
    (represents : query.Represents asked)
    (kept : ∀ asks, asked.condition = some asks → Kept asks) (regions : Regions)
    (rec : AsRecord) : parts.asQuery.Admits regions rec ↔ asked.Admits regions rec := by
  cases last : asked.condition with
  | none =>
      have clauses := of.clause
      rw [last, clauseOfLast, Except.ok.injEq] at clauses
      simp [AsQuery.Admits, Asked.Admits, mem_where, last, ← clauses]
  | some asks =>
      rcases kept asks last with ⟨short, kept⟩
      rcases of.admits_iff_of_short last short with ⟨predicate, said, admits⟩
      rcases represents.exists_filterOf last with ⟨filter, filters⟩
      have asked_iff : asked.Admits regions rec ↔ ∃ name value, name.bytes = asks.1.bytes ∧
          (name, value) ∈ rec.bins ∧ asks.2.Holds regions value := by
        rw [Asked.Admits, last]
        constructor
        · intro admits
          exact admits _ _ rfl
        · rintro admits _ _ ⟨⟩
          exact admits
      rw [admits, asked_iff]
      rcases kept with ⟨whole, textWhole⟩ | void
      · have same := filters.holds_iff textWhole said regions
        constructor
        · rintro ⟨value, member, holds⟩
          exact ⟨_, value, cstr_of_nulFree whole ▸ rfl, member, (same value).mp holds⟩
        · rintro ⟨name, value, named, member, holds⟩
          rw [← named, cstr_bytes]
          exact ⟨value, member, (same value).mpr holds⟩
      · constructor
        · rintro ⟨value, _, holds⟩
          exact absurd ((filters.holds_iff void.whole said regions value).mp holds) void.not_holds
        · rintro ⟨_, value, _, _, holds⟩
          exact absurd holds void.not_holds

/-- A condition on a refused name is no condition. -/
theorem Of.admits_of_long (of : parts.Of rt varName asked) {asks : RbStr × Condition}
    (last : asked.condition = some asks) (long : ¬ShortName (cstr asks.1.bytes))
    (regions : Regions) (rec : AsRecord) : parts.asQuery.Admits regions rec := by
  intro clause member
  rcases mem_where clause |>.mp member with ⟨held, short⟩
  rcases of.clause_of_asked last with ⟨predicate, _, clauses, _⟩
  cases held.symm.trans clauses
  exact absurd short long

/-- A condition of which C sees a part only admits a record which it should not. -/
theorem Of.exists_admits_of_cut (of : parts.Of rt varName asked) {query : Query}
    (represents : query.Represents asked) {asks : RbStr × Condition}
    (last : asked.condition = some asks) (short : ShortName (cstr asks.1.bytes))
    (cut : ¬(asks.1.Whole ∧ asks.2.Whole)) (possible : ¬asks.2.Void) :
    ∃ regions rec, parts.asQuery.Admits regions rec ∧ ¬asked.Admits regions rec := by
  rcases of.admits_iff_of_short last short with ⟨predicate, said, admits⟩
  rcases represents.exists_filterOf last with ⟨filter, filters⟩
  rcases filters.exists_holds said possible with ⟨value, holds, cutText⟩
  let rec_ := ((AsRecord.init 1).set (cstr asks.1.bytes) value).2
  have bins : rec_.bins = [(cstr asks.1.bytes, value)] :=
    AsRecord.bins_set_of_accepts ⟨short, by simp⟩ value
  refine ⟨Regions.all, rec_, (admits _ _).mpr ⟨value, by simp [bins], holds⟩, fun asked => ?_⟩
  rcases asked _ _ last with ⟨name, value', named, member, holds'⟩
  rw [bins, List.mem_singleton, Prod.mk.injEq] at member
  rcases member with ⟨rfl, rfl⟩
  have whole : asks.1.Whole := by
    rw [RbStr.Whole, ← named]
    exact (cstr asks.1.bytes).nulFree
  exact cut ⟨whole, cutText holds'⟩

theorem Of.mem_names (of : parts.Of rt varName asked) (name : CStr) :
    name ∈ parts.names ↔ ∃ bin ∈ asked.bins, valueToCstr rt bin = .ok name :=
  ExceptLoop.mem_of_collect of.names

theorem shows_iff (name : CStr) :
    parts.asQuery.Shows name ↔ taken parts.names = [] ∨ name ∈ taken parts.names := by
  rw [AsQuery.Shows, select_asQuery, BoundedList.entries_addAll_empty]
  rfl

/-- The list is filled with the order asked for when C sees all of its names, takes them, and a
`uint16_t` counts them. -/
theorem Of.sorts_filled_iff (of : parts.Of rt varName asked) :
    parts.filled.Sorts asked.order ↔
      (∀ entry ∈ asked.order, entry.1.Whole ∧ entry.1.bytes.length ≤ asBinNameMaxLen) ∧
        asked.order.length < 2 ^ 16 := by
  let list : AsOrderby := (BoundedList.empty (parts.entries.length % 2 ^ 16)).addAll parts.entries
  have lists : parts.filled.Sorts asked.order ↔
      list.entries.map (fun entry => (entry.1.bytes, entry.2)) =
        asked.order.map fun entry => (entry.1.bytes, entry.2.code) := by
    by_cases none_ : parts.entries = []
    · simp [AsQuery.Sorts, filled, none_, list, BoundedList.addAll]
    · simp [AsQuery.Sorts, filled, none_, list]
  have all : list.entries = parts.entries ↔
      (∀ entry ∈ parts.entries, ShortName entry.1) ∧ parts.entries.length < 2 ^ 16 := by
    rw [BoundedList.entries_addAll_empty, BoundedList.take_filter_eq_self]
    refine and_congr_right fun _ => ?_
    omega
  have seen : parts.entries.map (fun entry => (entry.1.bytes, entry.2)) =
        asked.order.map (fun entry => (entry.1.bytes, entry.2.code)) ↔
      ∀ entry ∈ asked.order, entry.1.Whole := by
    rw [of.entries_eq, List.map_map, List.map_inj_left]
    refine forall₂_congr fun entry _ => ?_
    simp only [Function.comp_apply, Prod.mk.injEq, and_true]
    constructor
    · intro same
      rw [RbStr.Whole, ← same]
      exact (cstr entry.1.bytes).nulFree
    · intro whole
      rw [cstr_of_nulFree whole]
  rw [lists]
  constructor
  · intro same
    have kept : list.entries = parts.entries := by
      have sublist : list.entries.Sublist parts.entries := by
        rw [BoundedList.entries_addAll_empty]
        exact (List.take_sublist _ _).trans List.filter_sublist
      apply sublist.eq_of_length
      have counted := congrArg List.length same
      rwa [List.length_map, List.length_map, ← of.length_entries] at counted
    rcases all.mp kept with ⟨short, few⟩
    rw [kept, seen] at same
    refine ⟨fun entry member => ⟨same entry member, ?_⟩, of.length_entries ▸ few⟩
    have taken := short (cstr entry.1.bytes, entry.2.code)
      (by rw [of.entries_eq]; exact List.mem_map_of_mem member)
    rwa [ShortName, cstr_of_nulFree (same entry member)] at taken
  · rintro ⟨each, few⟩
    rw [all.mpr ⟨?_, of.length_entries.symm ▸ few⟩]
    · exact seen.mpr fun entry member => (each entry member).1
    · rw [of.entries_eq, List.forall_mem_map]
      intro entry member
      rw [ShortName, cstr_of_nulFree (each entry member).1]
      exact (each entry member).2

/-- A name asked for is one that is handed over. -/
theorem Of.mem_of_textIs (of : parts.Of rt varName asked) {bin : RbVal} {name : CStr}
    (member : bin ∈ asked.bins) (text : TextIs rt bin name) : name ∈ parts.names :=
  (of.mem_names name).mpr ⟨bin, member, text.converted⟩

end Parts

end Steps

section Clean

/-- C can read what a condition compares with; a geometry is a C string already. -/
def Condition.Readable : Condition → Prop
  | .equalsString text => text.Readable
  | _ => True

/-- What is asked for can be handed to C. -/
structure Clean (rt : Runtime) (varName : RbVal → CStr) (asked : Asked) : Prop where
  ns : IsCText rt asked.ns
  set : IsCText rt asked.set
  few : asked.bins.length < 2 ^ 31
  bins : ∀ bin ∈ asked.bins, IsCText rt bin
  condition : ∀ asks, asked.condition = some asks → asks.1.Readable ∧ Condition.Readable asks.2
  few' : asked.order.length < 2 ^ 31
  order : ∀ entry ∈ asked.order, entry.1.Readable
  predexp : ∃ code, predexp2AsPredexp rt varName asked.predexp = .ok code

theorem exists_predicateOf {condition : Condition} :
    (∃ predicate, predicateOf condition = .ok predicate) ↔ Condition.Readable condition := by
  cases condition with
  | equalsString text =>
      rw [Condition.Readable, ← stringValueCStr_isOk_iff]
      simp [predicateOf, ExceptLoop.bind_eq_ok]
  | _ => exact iff_of_true ⟨_, rfl⟩ trivial

theorem exists_clauseOf {asks : RbStr × Condition} :
    (∃ clause, clauseOf asks = .ok clause) ↔
      asks.1.Readable ∧ Condition.Readable asks.2 := by
  rw [← stringValueCStr_isOk_iff, ← exists_predicateOf]
  simp [clauseOf, ExceptLoop.bind_eq_ok]

theorem exists_clauseOfLast {condition : Option (RbStr × Condition)} :
    (∃ clause, clauseOfLast condition = .ok clause) ↔
      ∀ asks, condition = some asks → asks.1.Readable ∧ Condition.Readable asks.2 := by
  cases condition with
  | none => exact iff_of_true ⟨_, rfl⟩ nofun
  | some asks =>
      have clauses := @exists_clauseOf asks
      simpa [clauseOfLast, ExceptLoop.bind_eq_ok] using clauses

theorem exists_entryOf {entry : RbStr × AsOrder} :
    (∃ converted, entryOf entry = .ok converted) ↔ entry.1.Readable := by
  rw [← stringValueCStr_isOk_iff]
  simp [entryOf, ExceptLoop.bind_eq_ok]

theorem exists_queryPredexps {rt : Runtime} {varName : RbVal → CStr} {predexp : Option PredNode} :
    (∃ added, queryPredexps rt varName predexp = .ok added) ↔
      ∃ code, predexp2AsPredexp rt varName predexp = .ok code := by
  simp [queryPredexps, ExceptLoop.bind_eq_ok]

theorem exists_parts {rt : Runtime} {varName : RbVal → CStr} {asked : Asked} :
    (∃ parts : Parts, parts.Of rt varName asked) ↔ Clean rt varName asked := by
  constructor
  · rintro ⟨parts, of⟩
    exact {
      ns := valueToCstr_isOk_iff.mp ⟨_, of.ns⟩
      set := valueToCstr_isOk_iff.mp ⟨_, of.set⟩
      few := of.few
      bins := fun bin member => valueToCstr_isOk_iff.mp
        (ExceptLoop.exists_collect_eq_ok.mp ⟨_, of.names⟩ bin member)
      condition := exists_clauseOfLast.mp ⟨_, of.clause⟩
      few' := of.few'
      order := fun entry member => exists_entryOf.mp
        (ExceptLoop.exists_collect_eq_ok.mp ⟨_, of.entries⟩ entry member)
      predexp := exists_queryPredexps.mp ⟨_, of.predexp⟩ }
  · intro clean
    rcases valueToCstr_isOk_iff.mpr clean.ns with ⟨ns, nsOk⟩
    rcases valueToCstr_isOk_iff.mpr clean.set with ⟨set, setOk⟩
    rcases ExceptLoop.exists_collect_eq_ok.mpr fun bin member =>
      valueToCstr_isOk_iff.mpr (clean.bins bin member) with ⟨names, named⟩
    rcases exists_clauseOfLast.mpr clean.condition with ⟨clause, clauses⟩
    rcases ExceptLoop.exists_collect_eq_ok.mpr fun entry member =>
      exists_entryOf.mpr (clean.order entry member) with ⟨entries, listed⟩
    rcases exists_queryPredexps.mpr clean.predexp with ⟨predexp, compiled⟩
    exact ⟨⟨ns, set, names, clause, entries, predexp⟩,
      ⟨nsOk, setOk, clean.few, named, clauses, clean.few', listed, compiled⟩⟩

/-- A condition fails to convert for a NUL only. -/
theorem nullError_of_clauseOf {asks : RbStr × Condition} {failure : Abort}
    (failed : clauseOf asks = .error failure) : NullError failure := by
  rcases ExceptLoop.bind_eq_error.mp failed with raised | ⟨_, _, failed⟩
  · exact nullError_of_stringValueCStr raised
  · rcases ExceptLoop.bind_eq_error.mp failed with raised | ⟨_, _, nothing⟩
    · cases condition : asks.2 with
      | equalsString text =>
          rw [condition] at raised
          rcases ExceptLoop.bind_eq_error.mp raised with raised | ⟨_, _, nothing⟩
          · exact nullError_of_stringValueCStr raised
          · cases nothing
      | _ =>
          rw [condition] at raised
          cases raised
    · cases nothing

end Clean

section Sample

def sampleArgv : List RbVal :=
  [.string ⟨ascii "test", .utf8⟩, .string ⟨ascii "users", .utf8⟩]

def sampleFirst : Query where
  namespace_ := .string ⟨ascii "test", .utf8⟩
  set := .string ⟨ascii "users", .utf8⟩
  bins := []
  filter := none
  order := []
  predexp := none

def sampleCalls : List Call :=
  [.eql (.string ⟨ascii "age", .utf8⟩) (.integer 7), .addBin (.string ⟨ascii "name", .utf8⟩)]

def sampleParts : Parts where
  ns := cstr (ascii "test")
  set := cstr (ascii "users")
  names := [cstr (ascii "name")]
  clause := some (cstr (ascii "age"), .integerEquals 7)
  entries := []
  predexp := some (.init 0)

def sampleAsked : Asked :=
  sampleCalls.foldl (Asked.ask .sample) (.start sampleFirst)

theorem initialize_sampleArgv : initialize_ .sample sampleArgv = .ok sampleFirst := rfl

theorem sampleParts_of : sampleParts.Of .sample (fun _ => cstr [])
    sampleAsked where
  ns := rfl
  set := rfl
  few := by decide
  names := rfl
  clause := rfl
  few' := by decide
  entries := rfl
  predexp := rfl

/-- A query which is to be sorted. -/
def orderedCalls : List Call :=
  [.orderBy (.string ⟨ascii "age", .utf8⟩) (sym "asc")]

theorem exists_translated_orderedCalls : ∃ asQuery,
    queryObj2asQuery .sample .blank (fun _ => cstr [])
      (orderedCalls.foldl (Query.after .sample .blank) sampleFirst) = .ok asQuery :=
  ⟨_, rfl⟩

theorem queryObj2asQuery_sampleCalls :
    queryObj2asQuery .sample .blank (fun _ => cstr [])
      (sampleCalls.foldl (Query.after .sample .blank) sampleFirst) = .ok sampleParts.asQuery :=
  ((represents_start initialize_sampleArgv).afterAll sampleCalls).queryObj2asQuery_eq_ok.mpr
    ⟨_, sampleParts_of, rfl⟩

end Sample

section Programs

variable {rt : Runtime} {env : Unspecified} {varName : RbVal → CStr} {argv : List RbVal}
  {first : Query} {calls : List Call} {asQuery : AsQuery}

/-- The records which a query returns are those asked for exactly when its last condition is
kept. -/
theorem admits_iff_kept (made : initialize_ rt argv = .ok first)
    (translated : queryObj2asQuery rt env varName (calls.foldl (Query.after rt env) first) =
      .ok asQuery) :
    let asked := calls.foldl (Asked.ask rt) (.start first)
    (∀ regions rec, asQuery.Admits regions rec ↔ asked.Admits regions rec) ↔
      ∀ asks, asked.condition = some asks → Kept asks := by
  intro asked
  have represents : (calls.foldl (Query.after rt env) first).Represents asked :=
    (represents_start made).afterAll calls
  rcases represents.queryObj2asQuery_eq_ok.mp translated with ⟨parts, of, rfl⟩
  constructor
  · intro same asks last
    have short : ShortName (cstr asks.1.bytes) := by
      by_contra long
      have admits := (same .all (.init 0)).mp (of.admits_of_long last long _ _)
      rcases admits _ _ last with ⟨_, _, _, member, _⟩
      cases member
    refine ⟨short, ?_⟩
    by_contra cut
    rcases not_or.mp cut with ⟨cut, possible⟩
    rcases of.exists_admits_of_cut represents last short cut possible with
      ⟨regions, rec, admits, refuses⟩
    exact refuses ((same regions rec).mp admits)
  · intro kept regions rec
    exact of.admits_of_kept represents kept regions rec

theorem admits_iff_kept_sampleCalls :
    (∀ regions rec, sampleParts.asQuery.Admits regions rec ↔ sampleAsked.Admits regions rec) ↔
      ∀ asks, sampleAsked.condition = some asks → Kept asks :=
  admits_iff_kept initialize_sampleArgv queryObj2asQuery_sampleCalls

/-- The bins which a query reads are those asked for exactly when the refused names and the cut
ones do not matter: among the names there is one that is taken, every short one that is asked for
is, and every one that is taken is asked for. -/
theorem shows_iff_taken (made : initialize_ rt argv = .ok first)
    (translated : queryObj2asQuery rt env varName (calls.foldl (Query.after rt env) first) =
      .ok asQuery) :
    let asked := calls.foldl (Asked.ask rt) (.start first)
    ∃ names, selectNames rt asked.bins = .ok names ∧
      ((∀ name, ShortName name → (asQuery.Shows name ↔ asked.Shows rt name)) ↔
        names = [] ∨ taken names ≠ [] ∧
          (∀ bin ∈ asked.bins, ∀ name, TextIs rt bin name → ShortName name →
            name ∈ taken names) ∧
          ∀ name ∈ taken names, ∃ bin ∈ asked.bins, TextIs rt bin name) := by
  intro asked
  have represents : (calls.foldl (Query.after rt env) first).Represents asked :=
    (represents_start made).afterAll calls
  rcases represents.queryObj2asQuery_eq_ok.mp translated with ⟨parts, of, rfl⟩
  have none_ : parts.names = [] ↔ asked.bins = [] := by
    rw [← List.length_eq_zero_iff, of.length_names, List.length_eq_zero_iff]
  refine ⟨_, of.names, ?_⟩
  simp only [Parts.shows_iff, Asked.Shows, ← none_]
  constructor
  · intro same
    rcases Decidable.em (parts.names = []) with without | some_
    · exact .inl without
    have nonempty : taken parts.names ≠ [] := by
      intro all
      -- an empty selection stands for all bins, of which the query names finitely many
      rcases exists_shortName_notMem (of.length_names ▸ of.few) with ⟨name, short, outside⟩
      rcases (same name short).mp (.inl all) with without | ⟨bin, member, text⟩
      · exact some_ without
      · exact outside (of.mem_of_textIs member text)
    refine .inr ⟨nonempty, fun bin member name text short => ?_, fun name member => ?_⟩
    · exact ((same name short).mpr (.inr ⟨bin, member, text⟩)).resolve_left nonempty
    · exact ((same name (shortName_of_taken member)).mp (.inr member)).resolve_left some_
  · rintro (without | ⟨nonempty, reached, asks⟩) name short
    · simp [without, taken]
    · have some_ : parts.names ≠ [] := by
        rintro without
        rw [without] at nonempty
        exact nonempty rfl
      rw [or_iff_right nonempty, or_iff_right some_]
      exact ⟨asks name, fun ⟨bin, member, text⟩ => reached bin member name text short⟩

theorem shows_iff_taken_sampleCalls :
    ∃ names, selectNames .sample sampleAsked.bins = .ok names ∧
      ((∀ name, ShortName name →
          (sampleParts.asQuery.Shows name ↔ sampleAsked.Shows .sample name)) ↔
        names = [] ∨ taken names ≠ [] ∧
          (∀ bin ∈ sampleAsked.bins, ∀ name, TextIs .sample bin name → ShortName name →
            name ∈ taken names) ∧
          ∀ name ∈ taken names, ∃ bin ∈ sampleAsked.bins, TextIs .sample bin name) :=
  shows_iff_taken initialize_sampleArgv queryObj2asQuery_sampleCalls

/-- A query is translated exactly when what it asks for can be handed to C, and a filter which a
method has made is one that the translation knows. -/
theorem translates_iff_clean (made : initialize_ rt argv = .ok first) :
    let query := calls.foldl (Query.after rt env) first
    ((∃ asQuery, queryObj2asQuery rt env varName query = .ok asQuery) ↔
      Clean rt varName (calls.foldl (Asked.ask rt) (.start first))) ∧
    ∀ asQuery failure, addFilter rt env asQuery query.filter = .error failure →
      NullError failure := by
  intro query
  have represents : query.Represents (calls.foldl (Asked.ask rt) (.start first)) :=
    (represents_start made).afterAll calls
  constructor
  · rw [← exists_parts]
    constructor
    · rintro ⟨asQuery, translated⟩
      rcases represents.queryObj2asQuery_eq_ok.mp translated with ⟨parts, of, _⟩
      exact ⟨parts, of⟩
    · rintro ⟨parts, of⟩
      exact ⟨_, represents.queryObj2asQuery_eq_ok.mpr ⟨parts, of, rfl⟩⟩
  · intro asQuery failure failed
    rw [addFilter_of_rel represents.filter] at failed
    rcases ExceptLoop.bind_eq_error.mp failed with raised | ⟨_, _, nothing⟩
    · generalize (calls.foldl (Asked.ask rt) (.start first)).condition = last at raised
      cases last with
      | none => cases raised
      | some asks =>
          rcases ExceptLoop.bind_eq_error.mp raised with raised | ⟨_, _, nothing⟩
          · exact nullError_of_clauseOf raised
          · cases nothing
    · cases nothing

theorem translates_iff_clean_sampleCalls :
    ((∃ asQuery, queryObj2asQuery .sample .blank (fun _ => cstr [])
        (sampleCalls.foldl (Query.after .sample .blank) sampleFirst) = .ok asQuery) ↔
      Clean .sample (fun _ => cstr []) sampleAsked) ∧
    ∀ asQuery failure, addFilter .sample .blank asQuery
        (sampleCalls.foldl (Query.after .sample .blank) sampleFirst).filter = .error failure →
      NullError failure :=
  translates_iff_clean initialize_sampleArgv

/-- A call of `order_by!` which raises no exception. -/
def Call.Orders (rt : Runtime) (env : Unspecified) (call : Call) : Prop :=
  ∃ bin order, call = .orderBy bin order ∧
    ∀ query : Query, ∃ changed, query.orderBy rt env bin order = .ok changed

/-- `order_by!` takes `:asc` and `:desc`, and a bin whose `to_s` does not raise. -/
theorem orders_orderBy_iff {bin order : RbVal} : (Call.orderBy bin order).Orders rt env ↔
    ∃ direction name, orderOf order = some direction ∧ rt.toS bin = .ok name := by
  constructor
  · rintro ⟨_, _, ⟨⟩, accepts⟩
    rcases accepts ⟨.nil, .nil, [], none, [], none⟩ with ⟨changed, accepted⟩
    rw [Query.orderBy] at accepted
    cases direction : orderOf order with
    | none =>
        rw [direction] at accepted
        rcases ExceptLoop.bind_eq_ok.mp accepted with ⟨_, _, nothing⟩
        cases nothing
    | some direction' =>
        rw [direction] at accepted
        rcases ExceptLoop.bind_eq_ok.mp accepted with ⟨name, called, _⟩
        exact ⟨direction', name, rfl, called⟩
  · rintro ⟨direction, name, found, called⟩
    refine ⟨bin, order, rfl, fun query => ?_⟩
    rw [Query.orderBy, found, called]
    exact ⟨_, rfl⟩

theorem order_require (asked : Asked) (bin : RbVal) (condition : Condition) :
    (asked.require rt bin condition).order = asked.order := by
  unfold Asked.require
  split <;> rfl

/-- An order which was asked for stays, and one is asked for by a call which orders. -/
theorem order_ask_eq_nil (asked : Asked) (call : Call) :
    (asked.ask rt call).order = [] ↔ asked.order = [] ∧ ¬call.Orders rt env := by
  have kept {bin : RbVal} {condition : Condition} :
      (asked.require rt bin condition).order = asked.order := order_require asked bin condition
  have other (same : (asked.ask rt call).order = asked.order)
      (noOrder : ∀ bin order, call ≠ .orderBy bin order) :
      (asked.ask rt call).order = [] ↔ asked.order = [] ∧ ¬call.Orders rt env := by
    rw [same, iff_self_and]
    rintro _ ⟨bin, order, rfl, _⟩
    exact noOrder bin order rfl
  cases call with
  | orderBy bin order =>
      rw [orders_orderBy_iff, Asked.ask]
      cases orderOf order with
      | none => simp
      | some direction => cases rt.toS bin <;> simp
  | eql bin value =>
      refine other ?_ (by simp)
      cases value with
      | string text => exact kept
      | _ => simp only [Asked.ask]; split <;> first | exact kept | rfl
  | range bin min max =>
      refine other ?_ (by simp)
      simp only [Asked.ask]
      split <;> first | exact kept | rfl
  | geoContains bin geo =>
      refine other ?_ (by simp)
      cases geo <;> first | exact kept | rfl
  | geoWithin bin geo =>
      refine other ?_ (by simp)
      cases geo <;> first | exact kept | rfl
  | _ => exact other rfl (by simp)

theorem order_askAll_eq_nil (asked : Asked) (calls : List Call) :
    (calls.foldl (Asked.ask rt) asked).order = [] ↔
      asked.order = [] ∧ ∀ call ∈ calls, ¬call.Orders rt env := by
  induction calls generalizing asked with
  | nil => simp
  | cons call rest ih =>
      rw [List.foldl_cons, ih, @order_ask_eq_nil rt env, List.forall_mem_cons, and_assoc]

/-- The order list is filled with what was asked for where no name is refused or cut and a
`uint16_t` counts them; but it is gone when the query is handed on, so that a query sorts as asked
only if no call ordered. -/
theorem sorts_iff_unordered (made : initialize_ rt argv = .ok first)
    (translated : queryObj2asQuery rt env varName (calls.foldl (Query.after rt env) first) =
      .ok asQuery) :
    let query := calls.foldl (Query.after rt env) first
    let asked := calls.foldl (Asked.ask rt) (.start first)
    (∃ filled, fillQuery rt env varName query = .ok filled ∧
      (filled.Sorts asked.order ↔
        (∀ entry ∈ asked.order, entry.1.Whole ∧ entry.1.bytes.length ≤ asBinNameMaxLen) ∧
          asked.order.length < 2 ^ 16)) ∧
      (asQuery.Sorts asked.order ↔ ∀ call ∈ calls, ¬call.Orders rt env) := by
  intro query asked
  have represents : query.Represents asked := (represents_start made).afterAll calls
  rcases represents.queryObj2asQuery_eq_ok.mp translated with ⟨parts, of, rfl⟩
  refine ⟨⟨parts.filled, represents.fillQuery_eq_ok.mpr ⟨parts, of, rfl⟩, of.sorts_filled_iff⟩, ?_⟩
  have noOrder : asked.order = [] ↔ ∀ call ∈ calls, ¬call.Orders rt env :=
    (order_askAll_eq_nil _ calls).trans (and_iff_right rfl)
  have listed : parts.entries = [] ↔ asked.order = [] := by
    rw [of.entries_eq, List.map_eq_nil_iff]
  rw [← noOrder, AsQuery.Sorts, Parts.orderby_asQuery]
  split
  case isTrue none_ =>
    refine iff_of_true ⟨.empty 0, .inl rfl, ?_⟩ (listed.mp none_)
    rw [listed.mp none_]
    rfl
  case isFalse some_ =>
    refine iff_of_false ?_ (some_ ∘ listed.mpr)
    rintro ⟨_, held | alloca, _⟩
    · cases held
    · cases alloca

/-- An order by one bin is lost. -/
theorem sorts_iff_unordered_byAge : ∃ asQuery,
    queryObj2asQuery .sample .blank (fun _ => cstr [])
        (orderedCalls.foldl (Query.after .sample .blank) sampleFirst) = .ok asQuery ∧
      ¬asQuery.Sorts [(⟨ascii "age", .utf8⟩, .ascending)] := by
  rcases exists_translated_orderedCalls with ⟨asQuery, translated⟩
  refine ⟨asQuery, translated, fun sorts => ?_⟩
  have unordered := (sorts_iff_unordered initialize_sampleArgv translated).2.mp sorts
  refine unordered _ List.mem_cons_self ⟨_, _, rfl, fun query => ⟨_, rfl⟩⟩

end Programs

end Query

end AerospikeCRuby
