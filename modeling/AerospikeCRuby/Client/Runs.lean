import AerospikeCRuby.Client.Contents
import AerospikeCRuby.Library.Refinement

/-!
# Runs of puts, reads and deletes

Every method is explained by the contents, whatever the cluster answers, and so is
every run.  That the commands behave as documented is the assumption, and that a
Hash which `put` takes can be stored and no GeoJson is put twice; that the methods
hand over the right arguments and make the right answers is what is proved.
-/

namespace AerospikeCRuby

namespace Client

section Simulation

variable {rt : Runtime} {Ref Policy State : Type} {cluster : Cluster Policy State}
  {json : Ref → CStr} {replaces : Policy → Bool} {holds : State → AsKey → Option AsRecord}
  {state : State} {contents : Contents}

/-- A Hash which is put raises or can be stored. -/
def Legal (rt : Runtime) (json : Ref → CStr) : Event Ref Policy → Prop
  | .put _ bins policy ttl =>
      Refused rt (putCall bins policy ttl) ∨ Storable rt (bins.map (resolve json))
  | _ => True

/-- The structs of the GeoJson objects which the events put. -/
def lentBy (events : List (Event Ref Policy)) : List Ref :=
  events.flatMap fun
    | .put _ bins _ _ => lentRefs bins
    | _ => []

/-- The events are legal, each of the GeoJson objects they put has its json and is put once, and
the contents show what the cluster holds. -/
structure Ready (rt : Runtime) (json : Ref → CStr) (holds : State → AsKey → Option AsRecord)
    (events : List (Event Ref Policy)) (state : State × GeoHeap Ref) (contents : Contents) :
    Prop where
  legal : ∀ event ∈ events, Legal rt json event
  unspent : Unspent json (lentBy events) state.2
  reflects : Reflects rt (holds state.1) contents

variable [DecidableEq Ref]

/-- The answer and the state after it are explained by the specification. -/
def Explained (rt : Runtime) (json : Ref → CStr) (replaces : Policy → Bool)
    (holds : State → AsKey → Option AsRecord) (contents : Contents) (event : Event Ref Policy)
    (outcome : Answer × State) : Prop :=
  ∃ next, Allows rt json replaces contents event outcome.1 next ∧
    Reflects rt (holds outcome.2) next

theorem answerOf_cases (status : ℤ) (success missing : Answer) :
    status = aerospikeOk ∧ answerOf status success missing = success ∨
      status = aerospikeErrRecordNotFound ∧ answerOf status success missing = missing ∨
        answerOf status success missing = .failed status := by
  unfold answerOf
  split
  case isTrue ok => exact .inl ⟨ok, rfl⟩
  case isFalse =>
    split
    case isTrue missing => exact .inr (.inl ⟨missing, rfl⟩)
    case isFalse => exact .inr (.inr rfl)

theorem policy_of_handOver {heap : GeoHeap Ref} {bins : List (RbVal × BinVal Ref)}
    {policy : Except Abort Policy} {ttl : RbVal} {given : Handed × GeoHeap Ref × LentRecord Ref}
    (handed : handOver rt heap (putCall bins policy ttl) = .ok given) :
    ∃ value, policy = .ok value := by
  have taken := (handOver_eq_ok.mp handed).2.1
  cases policy with
  | error => cases taken
  | ok value => exact ⟨value, rfl⟩

theorem reflects_of_eq {held held' : AsKey → Option AsRecord} (reflects : Reflects rt held contents)
    {key : AsKey} (others : ∀ other, other ≠ key → held' other = held other)
    (own : held' key = held key) : Reflects rt held' contents := by
  intro other name
  by_cases same : other = key
  · rw [same, own]
    exact reflects key name
  · rw [others other same]
    exact reflects other name

/-- A record that is written over another shows as the Hash put over the contents. -/
theorem reflects_write (loads : rt.LoadsDumped) (reflects : Reflects rt (holds state) contents)
    {key : AsKey} {bins : List (RbVal × RbVal)} {rec : AsRecord} (storable : Storable rt bins)
    (made : hash2record rt bins (AsRecord.init bins.length) = .ok rec) {next : State}
    (others : ∀ other, other ≠ key → holds next other = holds state other) {replaced : Bool}
    (written : Written replaced (holds state key) rec (holds next key)) :
    Reflects rt (holds next) (contents.write replaced key (normHash rt bins)) := by
  refine reflects_update reflects others fun name => ?_
  rw [written name]
  refine rel_writtenBin ?_ (rel_lookup_of_hash2record loads storable made name)
  cases replaced with
  | true => exact .none
  | false => exact reflects key name

/-- `put` is explained, and the GeoJson objects to be put later keep their json. -/
theorem explained_put (loads : rt.LoadsDumped) (documented : Documented cluster replaces holds)
    (reflects : Reflects rt (holds state) contents) {heap : GeoHeap Ref} {key : Key}
    {bins : List (RbVal × BinVal Ref)} {policy : Except Abort Policy} {ttl : RbVal}
    (legal : Legal rt json (.put key bins policy ttl)) {pending : List Ref}
    (unspent : Unspent json (lentRefs bins ++ pending) heap) :
    ∃ answer next heap', put rt cluster state heap key bins policy ttl = (answer, next, heap') ∧
      Explained rt json replaces holds contents (.put key bins policy ttl) (answer, next) ∧
      Unspent json pending heap' := by
  cases handed : handOver rt heap (putCall bins policy ttl) with
  | error abort =>
      have refuses : Refuses rt json (.put key bins policy ttl) abort :=
        (sameFailure_handOver heap _ (putCall bins policy ttl) abort).mp handed
      refine ⟨.raised abort, state, _, by simp only [put, handed]; rfl, ?_,
        unspent_reached unspent⟩
      exact ⟨contents, .raised refuses, reflects⟩
  | ok given =>
      rcases given with ⟨handed', heap', rec⟩
      rcases policy_of_handOver handed with ⟨policy, rfl⟩
      have storable := legal.resolve_left (handOver_isOk_iff.mp ⟨_, handed⟩)
      rcases handOver_unspent handed unspent with ⟨⟨record, made, bins_⟩, spared⟩
      rcases outcome : cluster.keyPut state policy key.asKey handed' with ⟨status, next⟩
      rcases documented.put _ _ _ _ record bins_ _ outcome with ⟨others, done, missing, either⟩
      have writes (written : Written (replaces policy) (holds state key.asKey) record
          (holds next key.asKey)) :=
        reflects_write loads reflects storable (by rwa [List.length_map]) others written
      refine ⟨answerOf status (.bool true) .nil, next, asRecordDestroy heap' rec, ?_, ?_, spared⟩
      · simp only [put, handed, outcome]
      rcases answerOf_cases status (.bool true) .nil with ⟨ok, answer⟩ | ⟨none_, answer⟩ | answer
      · rw [answer]
        exact ⟨_, .put, writes (done ok)⟩
      · rw [answer]
        exact ⟨_, .putMissing, reflects_of_eq reflects others (missing none_)⟩
      · rw [answer]
        rcases either with same | written
        · exact ⟨_, .failed, reflects_of_eq reflects others same⟩
        · exact ⟨_, .inDoubt, writes written⟩

theorem explained_delete (documented : Documented cluster replaces holds)
    (reflects : Reflects rt (holds state) contents) {key : Key} {policy : Except Abort Policy} :
    Explained rt json replaces holds contents (.delete key policy)
      (deleteRecord cluster state key policy) := by
  cases policy with
  | error abort => exact ⟨contents, .raised rfl, reflects⟩
  | ok policy =>
      rw [deleteRecord]
      rcases outcome : cluster.keyRemove state policy key.asKey with ⟨status, next⟩
      rcases documented.remove _ _ _ _ outcome with ⟨others, done, missing, either⟩
      have erases (gone : holds next key.asKey = none) :
          Reflects rt (holds next) (contents.erase key.asKey) := by
        refine reflects_update reflects others fun name => ?_
        rw [gone]
        exact .none
      have present := documented.present_iff reflects key.asKey
      simp only
      rcases answerOf_cases status (.bool true) .nil with ⟨ok, answer⟩ | ⟨none_, answer⟩ | answer
      · rw [answer]
        exact ⟨_, .delete (present.mpr (done ok).1), erases (done ok).2⟩
      · rw [answer]
        rcases missing none_ with ⟨before, after⟩
        exact ⟨_, .deleteMissing fun held => present.mp held before,
          reflects_of_eq reflects others (after.trans before.symm)⟩
      · rw [answer]
        rcases either with same | gone
        · exact ⟨_, .failed, reflects_of_eq reflects others same⟩
        · exact ⟨_, .inDoubt, erases gone⟩

/-- A command which only reads is explained by what it finds. -/
theorem explained_of_found (documented : Documented cluster replaces holds)
    (reflects : Reflects rt (holds state) contents) {event : Event Ref Policy} {key : AsKey}
    {status : ℤ} {success absent : Answer} {next : State} (same : holds next = holds state)
    (missing : status = aerospikeErrRecordNotFound → holds state key = none)
    (found : status = aerospikeOk → Allows rt json replaces contents event success contents)
    (lost : ¬contents.Present key → Allows rt json replaces contents event absent contents) :
    Explained rt json replaces holds contents event (answerOf status success absent, next) := by
  have stays : Reflects rt (holds next) contents := by
    rw [same]
    exact reflects
  rcases answerOf_cases status success absent with ⟨ok, answer⟩ | ⟨none_, answer⟩ | answer
  · rw [answer]
    exact ⟨_, found ok, stays⟩
  · rw [answer]
    have present := documented.present_iff reflects key
    exact ⟨_, lost fun held => present.mp held (missing none_), stays⟩
  · rw [answer]
    exact ⟨_, .failed, stays⟩

theorem explained_exists (documented : Documented cluster replaces holds)
    (reflects : Reflects rt (holds state) contents) {key : Key} {policy : Except Abort Policy} :
    Explained rt json replaces holds contents (.exists_ key policy)
      (keyExists cluster state key policy) := by
  cases policy with
  | error abort => exact ⟨contents, .raised rfl, reflects⟩
  | ok policy =>
      rcases documented.exists_ state policy key.asKey _ rfl with ⟨same, done, missing⟩
      have present := documented.present_iff reflects key.asKey
      exact explained_of_found documented reflects same missing
        (fun ok => .exists_ (present.mpr (done ok))) .existsNot

theorem explained_getHeader (documented : Documented cluster replaces holds)
    (reflects : Reflects rt (holds state) contents) {key : Key} {policy : Except Abort Policy} :
    Explained rt json replaces holds contents (.getHeader key policy)
      (getHeader cluster state key policy) := by
  cases policy with
  | error abort => exact ⟨contents, .raised rfl, reflects⟩
  | ok policy =>
      rcases documented.exists_ state policy key.asKey _ rfl with ⟨same, done, missing⟩
      have present := documented.present_iff reflects key.asKey
      exact explained_of_found documented reflects same missing
        (fun ok => .header (present.mpr (done ok))) .headerMissing

theorem entries_touchOperations {ttl : Option RbVal} {ops : AsOperations}
    (made : touchOperations rt ttl = .ok ops) : ops.entries = [.touch] := by
  simp only [touchOperations] at made
  split at made
  case isTrue => cases made
  case isFalse =>
    rcases ExceptLoop.bind_eq_ok.mp made with ⟨value, _, same⟩
    cases same
    rfl

theorem explained_touch (documented : Documented cluster replaces holds)
    (reflects : Reflects rt (holds state) contents) {key : Key} {ttl : Option RbVal}
    {policy : Except Abort Policy} :
    Explained rt json replaces holds contents (.touch key ttl policy)
      (touch rt cluster state key ttl policy) := by
  cases made : touchOperations rt ttl with
  | error abort =>
      simp only [touch, made]
      exact ⟨contents, .raised (.inl made), reflects⟩
  | ok ops =>
      cases policy with
      | error abort =>
          simp only [touch, made]
          exact ⟨contents, .raised (.inr rfl), reflects⟩
      | ok policy =>
          simp only [touch, made]
          have added := entries_touchOperations made
          rcases documented.touch state policy key.asKey ops added _ rfl with
            ⟨same, done, missing⟩
          have present := documented.present_iff reflects key.asKey
          exact explained_of_found documented reflects same missing
            (fun ok => .touch (present.mpr (done ok))) .touchMissing

/-- A record with the requested bins of the one that is held is answered with what they show. -/
theorem allows_get (documented : Documented cluster replaces holds)
    (reflects : Reflects rt (holds state) contents) {key : Key}
    {specificBins : Option (List RbVal)} {names : Option (List CStr)}
    (named : getBinNames rt specificBins = .ok names) {policy : Except Abort Policy}
    {withHeader : RbVal} {rec held : AsRecord} (found : holds state key.asKey = some held)
    (bins : ∀ name, rec.bins.lookup name =
      if names.all fun list => name ∈ list then held.bins.lookup name else none) :
    Allows rt json replaces contents (.get key specificBins policy withHeader)
      (readAnswer rt withHeader rec) contents := by
  have reads (name : CStr) : Option.Rel (Reads rt) (rec.bins.lookup name)
      (if names.all fun list => name ∈ list then contents key.asKey name else none) := by
    rw [bins name]
    split
    case isTrue =>
      have related := reflects key.asKey name
      rw [found] at related
      exact related
    case isFalse => exact .none
  rcases readAnswer_eq withHeader reads with ⟨hash, answer, shows⟩
  have present : contents.Present key.asKey := by
    rw [documented.present_iff reflects, found]
    exact nofun
  rw [answer]
  exact .get named present shows

theorem explained_get (documented : Documented cluster replaces holds)
    (reflects : Reflects rt (holds state) contents) {key : Key}
    {specificBins : Option (List RbVal)} {policy : Except Abort Policy} {withHeader : RbVal} :
    Explained rt json replaces holds contents (.get key specificBins policy withHeader)
      (get rt cluster state key specificBins policy withHeader) := by
  cases policy with
  | error abort => exact ⟨contents, .raised (.inl rfl), reflects⟩
  | ok policy =>
      cases named : getBinNames rt specificBins with
      | error abort =>
          simp only [get, named]
          exact ⟨contents, .raised (.inr named), reflects⟩
      | ok names =>
          cases names with
          | none =>
              simp only [get, named]
              rcases documented.get state policy key.asKey _ rfl with ⟨same, done, missing⟩
              refine explained_of_found documented reflects same missing (fun ok => ?_) .getMissing
              rcases done ok with ⟨held, found, bins⟩
              exact allows_get documented reflects named found bins
          | some list =>
              simp only [get, named]
              rcases documented.select state policy key.asKey list _ rfl with
                ⟨same, done, missing⟩
              refine explained_of_found documented reflects same missing (fun ok => ?_) .getMissing
              rcases done ok with ⟨held, found, bins⟩
              exact allows_get documented reflects named found (by simpa using bins)

/-- What one event does. -/
theorem ready_perform (loads : rt.LoadsDumped) (documented : Documented cluster replaces holds)
    (event : Event Ref Policy) (rest : List (Event Ref Policy)) (state : State × GeoHeap Ref)
    (contents : Contents) (ready : Ready rt json holds (event :: rest) state contents) :
    ∃ next, Allows rt json replaces contents event (perform rt cluster state event).1 next ∧
      Ready rt json holds rest (perform rt cluster state event).2 next := by
  have ⟨here, later⟩ := List.forall_mem_cons.mp ready.legal
  have unspent := ready.unspent
  rw [lentBy, List.flatMap_cons] at unspent
  have spared := unspent.mono (List.sublist_append_right _ _)
  have reads {outcome : Answer × State}
      (explained : Explained rt json replaces holds contents event outcome) :
      ∃ next, Allows rt json replaces contents event (beside state.2 outcome).1 next ∧
        Ready rt json holds rest (beside state.2 outcome).2 next := by
    rcases explained with ⟨next, allowed, reflects⟩
    exact ⟨next, allowed, later, spared, reflects⟩
  cases event with
  | put key bins policy ttl =>
      rcases explained_put loads documented ready.reflects here unspent with
        ⟨answer, next, heap, done, ⟨final, allowed, reflects⟩, kept⟩
      rw [perform, done]
      exact ⟨final, allowed, later, kept, reflects⟩
  | get key specificBins policy withHeader => exact reads (explained_get documented ready.reflects)
  | delete key policy => exact reads (explained_delete documented ready.reflects)
  | exists_ key policy => exact reads (explained_exists documented ready.reflects)
  | getHeader key policy => exact reads (explained_getHeader documented ready.reflects)
  | touch key ttl policy => exact reads (explained_touch documented ready.reflects)
  | expires key =>
      rcases documented.expire state.1 key with ⟨others, gone⟩
      refine reads ⟨_, .expires, reflects_update ready.reflects others fun name => ?_⟩
      rw [gone]
      exact .none

end Simulation

section Sample

def keepsBin (bin : CStr × AsVal) : Bool :=
  match bin.2 with
  | .nil => false
  | _ => true

/-- The record as it is stored, without nil bins. -/
def stored (rec : AsRecord) : AsRecord where
  bins := rec.bins.filter keepsBin
  capacity := rec.capacity
  gen := rec.gen
  ttl := rec.ttl
  addressable := rec.addressable
  fits := (List.length_filter_le ..).trans rec.fits
  distinct := rec.distinct.sublist (List.filter_sublist.map Prod.fst)
  named := fun name member => rec.named name ((List.filter_sublist.map Prod.fst).subset member)

theorem lookup_select (bins : List (CStr × AsVal)) (names : List CStr) (name : CStr) :
    (bins.filter fun bin => bin.1 ∈ names).lookup name =
      if name ∈ names then bins.lookup name else none := by
  induction bins with
  | nil => simp
  | cons bin rest ih =>
      rcases bin with ⟨other, value⟩
      by_cases same : name = other
      · subst same
        by_cases wanted : name ∈ names
        · rw [List.filter_cons_of_pos (by simpa using wanted), List.lookup_cons_self,
            if_pos wanted, List.lookup_cons_self]
        · rw [List.filter_cons_of_neg (by simpa using wanted), ih, if_neg wanted, if_neg wanted]
      · have differs : (name == other) = false := beq_eq_false_iff_ne.mpr same
        rw [List.lookup_cons, differs, ← ih, List.filter_cons]
        split
        case isTrue => rw [List.lookup_cons, differs]
        case isFalse => rfl

theorem lookup_filter_keepsBin {bins : List (CStr × AsVal)}
    (distinct : (AssocList.keys bins).Nodup) (name : CStr) :
    (bins.filter keepsBin).lookup name = writtenBin none (bins.lookup name) := by
  induction bins with
  | nil => rfl
  | cons bin rest ih =>
      rcases bin with ⟨other, value⟩
      have ⟨fresh, distinctRest⟩ := List.nodup_cons.mp distinct
      by_cases same : name = other
      · subst same
        have later : rest.lookup name = none := by
          rw [List.lookup_eq_none_iff]
          intro entry member
          have different : name ≠ entry.1 := by
            rintro rfl
            exact fresh (List.mem_map.mpr ⟨entry, member, rfl⟩)
          simpa using different
        rw [List.lookup_cons_self]
        cases value with
        | nil =>
            rw [List.filter_cons_of_neg (by simp [keepsBin]), ih distinctRest, later]
            rfl
        | _ =>
            rw [List.filter_cons_of_pos rfl, List.lookup_cons_self]
            rfl
      · have differs : (name == other) = false := beq_eq_false_iff_ne.mpr same
        rw [List.lookup_cons, differs, ← ih distinctRest, List.filter_cons]
        split
        case isTrue => rw [List.lookup_cons, differs]
        case isFalse => rfl

/-- Records that have bins. -/
abbrev Populated :=
  {rec : AsRecord // rec.bins ≠ []}

def populated (rec : AsRecord) : Option Populated :=
  if some_ : rec.bins ≠ [] then some ⟨rec, some_⟩ else none

/-- The answer of a command which reads the record of a key. -/
def foundRecord (state : AsKey → Option Populated) (key : AsKey) (read : AsRecord → AsRecord) :
    ℤ × AsRecord × (AsKey → Option Populated) :=
  match state key with
  | some rec => (aerospikeOk, read rec.1, state)
  | none => (aerospikeErrRecordNotFound, .init 0, state)

/-- The record of the bins that are handed over with a value. -/
def handedRecord (handed : Handed) : AsRecord :=
  (AsRecord.init handed.bins.length).setAll
    (handed.bins.filterMap fun bin => bin.2.map fun value => (bin.1, value))

theorem bins_handedRecord {handed : Handed} {rec : AsRecord}
    (bins : handed.bins = rec.bins.map fun bin => (bin.1, some bin.2)) :
    (handedRecord handed).bins = rec.bins := by
  have values : handed.bins.filterMap (fun bin => bin.2.map fun value => (bin.1, value)) =
      rec.bins := by
    rw [bins, List.filterMap_map]
    exact List.filterMap_some
  have inOrder : rec.bins.foldl (fun bins bin => AssocList.putLast bins bin.1 bin.2) [] =
      rec.bins := AssocList.foldl_putLast_of_nodup [] rec.bins rec.distinct
  rw [handedRecord, values, AsRecord.bins_setAll]
  · exact inOrder
  · exact fun bin member => rec.named bin.1 (List.mem_map_of_mem member)
  · rw [AsRecord.bins_init, inOrder, AsRecord.capacity_init, bins, List.length_map,
      Nat.mod_eq_of_lt (rec.fits.trans_lt rec.addressable)]

/-- A cluster under a policy by which a put replaces the record. -/
def replacingCluster : Cluster Unit (AsKey → Option Populated) where
  keyPut := fun state _ key handed =>
    (aerospikeOk, Function.update state key (populated (stored (handedRecord handed))))
  keyGet := fun state _ key => foundRecord state key id
  keySelect := fun state _ key names => foundRecord state key fun rec => rec.select names
  keyRemove := fun state _ key =>
    (if (state key).isSome then aerospikeOk else aerospikeErrRecordNotFound,
      Function.update state key none)
  keyExists := fun state _ key => foundRecord state key id
  keyOperate := fun state _ key _ => foundRecord state key id
  expire := fun state key => Function.update state key none

def heldRecords (state : AsKey → Option Populated) (key : AsKey) : Option AsRecord :=
  (state key).map Subtype.val

theorem heldBin_populated (rec : AsRecord) (name : CStr) :
    heldBin ((populated rec).map Subtype.val) name = rec.bins.lookup name := by
  unfold populated
  split
  case isTrue => rfl
  case isFalse without =>
    rw [not_not.mp without]
    rfl

theorem heldRecords_update_of_ne {state : AsKey → Option Populated} {key other : AsKey}
    (different : other ≠ key) (rec : Option Populated) :
    heldRecords (Function.update state key rec) other = heldRecords state other :=
  congrArg _ (Function.update_of_ne different _ _)

theorem heldRecords_update_self {state : AsKey → Option Populated} {key : AsKey}
    (rec : Option Populated) :
    heldRecords (Function.update state key rec) key = rec.map Subtype.val :=
  congrArg _ (Function.update_self ..)

/-- Reading leaves the records as they are, and answers about the one of the key. -/
theorem foundRecord_documented {state : AsKey → Option Populated} {key : AsKey}
    {read : AsRecord → AsRecord} {result : ℤ × AsRecord × (AsKey → Option Populated)}
    (found : foundRecord state key read = result) :
    heldRecords result.2.2 = heldRecords state ∧
      (result.1 = aerospikeOk →
        ∃ held, heldRecords state key = some held ∧ result.2.1 = read held) ∧
      (result.1 = aerospikeErrRecordNotFound → heldRecords state key = none) := by
  unfold foundRecord at found
  unfold heldRecords
  cases held : state key with
  | none =>
      rw [held] at found
      cases found
      exact ⟨rfl, nofun, fun _ => rfl⟩
  | some rec =>
      rw [held] at found
      cases found
      exact ⟨rfl, fun _ => ⟨rec.1, rfl, rfl⟩, nofun⟩

theorem foundRecord_present {state : AsKey → Option Populated} {key : AsKey}
    {read : AsRecord → AsRecord} {result : ℤ × AsRecord × (AsKey → Option Populated)}
    (found : foundRecord state key read = result) :
    heldRecords result.2.2 = heldRecords state ∧
      (result.1 = aerospikeOk → heldRecords state key ≠ none) ∧
      (result.1 = aerospikeErrRecordNotFound → heldRecords state key = none) := by
  rcases foundRecord_documented found with ⟨same, present, missing⟩
  refine ⟨same, fun ok => ?_, missing⟩
  rcases present ok with ⟨held, holds, _⟩
  rw [holds]
  exact Option.some_ne_none held

theorem replacingCluster_documented :
    Documented replacingCluster (fun _ => true) heldRecords where
  populated := by
    intro state key rec held
    rcases Option.map_eq_some_iff.mp held with ⟨found, _, rfl⟩
    exact found.2
  put := by
    rintro state _ key handed rec bins _ rfl
    have written : Written true (heldRecords state key) rec
        (heldRecords (Function.update state key (populated (stored (handedRecord handed))))
          key) := by
      intro name
      rw [heldRecords_update_self, heldBin_populated, ← bins_handedRecord bins]
      exact lookup_filter_keepsBin (handedRecord handed).distinct name
    exact ⟨fun other different => heldRecords_update_of_ne different _, fun _ => written, nofun,
      .inr written⟩
  get := by
    intro state _ key result read
    rcases foundRecord_documented read with ⟨same, present, missing⟩
    refine ⟨same, fun ok => ?_, missing⟩
    rcases present ok with ⟨held, holds, shown⟩
    exact ⟨held, holds, fun name => by rw [shown]; rfl⟩
  select := by
    intro state _ key names result read
    rcases @foundRecord_documented state key (fun rec => rec.select names) result read with
      ⟨same, present, missing⟩
    refine ⟨same, fun ok => ?_, missing⟩
    rcases present ok with ⟨held, holds, shown⟩
    exact ⟨held, holds, fun name => by rw [shown]; exact lookup_select held.bins names name⟩
  remove := by
    rintro state _ key _ rfl
    have gone : heldRecords (Function.update state key none) key = none :=
      heldRecords_update_self none
    have status : (replacingCluster.keyRemove state () key).1 =
        if (heldRecords state key).isSome then aerospikeOk else aerospikeErrRecordNotFound := by
      rw [heldRecords, Option.isSome_map]
      rfl
    rw [status]
    refine ⟨fun other different => heldRecords_update_of_ne different _, ?_, ?_, .inr gone⟩
    · cases heldRecords state key with
      | none => exact nofun
      | some rec => exact fun _ => ⟨nofun, gone⟩
    · cases heldRecords state key with
      | none => exact fun _ => ⟨rfl, gone⟩
      | some rec => exact nofun
  exists_ := fun _ _ _ _ read => foundRecord_present read
  touch := fun _ _ _ _ _ _ read => foundRecord_present read
  expire := fun state key =>
    ⟨fun other different => heldRecords_update_of_ne different _, heldRecords_update_self none⟩

/-- The bins of `sampleBins`, and a GeoJson beside them. -/
def samplePut : List (RbVal × BinVal Unit) :=
  [(.symbol ⟨ascii "flag", .utf8⟩, .plain (.bool true) (by simp)),
    (.string ⟨ascii "list", .utf8⟩,
      .plain (.array [.integer 7, .symbol ⟨ascii "red", .utf8⟩]) (by simp)),
    (.string ⟨ascii "flag", .utf8⟩,
      .plain (.hash [(.integer 1, .array [.float 0, .bool false])]) (by simp)),
    (.string ⟨ascii "place", .utf8⟩, .geoJson ())]

def sampleJson (_ : Unit) : CStr :=
  cstr (ascii "\x7b\x7d")

def sampleEvents : List (Event Unit Unit) :=
  [.put fixnumKey samplePut (.ok ()) .nil, .exists_ fixnumKey (.ok ()),
    .get fixnumKey none (.ok ()) .nil, .touch fixnumKey none (.ok ()),
    .delete fixnumKey (.ok ()), .exists_ fixnumKey (.ok ())]

theorem samplePut_storable : Storable Runtime.sample (samplePut.map (resolve sampleJson)) := by
  have added : samplePut.map (resolve sampleJson) =
      sampleBins ++ [(.string ⟨ascii "place", .utf8⟩, .geoJson (sampleJson ()))] := rfl
  have place : Named Runtime.sample (.string ⟨ascii "place", .utf8⟩) :=
    ⟨by simp, _, rfl, by decide⟩
  rw [added]
  refine ⟨by decide, ?_, ?_, ?_⟩ <;> rw [List.forall_mem_append]
  · exact ⟨sampleBins_storable.named, by simpa using place⟩
  · exact ⟨sampleBins_storable.short, by simp only [List.forall_mem_singleton]; decide⟩
  · exact ⟨sampleBins_storable.values, by simp⟩

theorem sampleEvents_legal : ∀ event ∈ sampleEvents, Legal Runtime.sample sampleJson event := by
  simp only [sampleEvents, List.forall_mem_cons]
  exact ⟨.inr samplePut_storable, trivial, trivial, trivial, trivial, trivial, by simp⟩

theorem reflects_empty : Reflects Runtime.sample (heldRecords fun _ => none) fun _ _ => none :=
  fun _ _ => .none

end Sample

section Runs

variable {rt : Runtime} {Ref Policy State : Type} [DecidableEq Ref]
  {cluster : Cluster Policy State} {json : Ref → CStr} {replaces : Policy → Bool}
  {holds : State → AsKey → Option AsRecord} {state : State} {contents : Contents}
  {events : List (Event Ref Policy)}

/-- Over a cluster which does as it is documented, every run of puts, reads and deletes is
answered as by a map from keys and names to values, where each Hash that `put` takes can be stored
and no GeoJson is put twice. -/
theorem run_explained (loads : rt.LoadsDumped) (documented : Documented cluster replaces holds)
    (legal : ∀ event ∈ events, Legal rt json event) (once : (lentBy events).Nodup)
    (begins : Reflects rt (holds state) contents) :
    ∃ final, Refinement.Explains (Allows rt json replaces) contents events
        (Refinement.answers (perform rt cluster)
          (state, fun ref => asGeojsonInit (json ref)) events).1 final ∧
      Reflects rt (holds (Refinement.answers (perform rt cluster)
        (state, fun ref => asGeojsonInit (json ref)) events).2.1) final := by
  have ready : Ready rt json holds events (state, fun ref => asGeojsonInit (json ref)) contents :=
    ⟨legal, ⟨fun _ _ => rfl, once⟩, begins⟩
  rcases Refinement.explains_answers (ready_perform loads documented) ready with
    ⟨final, explained, ends⟩
  exact ⟨final, explained, ends.reflects⟩

theorem run_explained_sampleEvents :
    ∃ final, Refinement.Explains (Allows Runtime.sample sampleJson fun _ => true)
        (fun _ _ => none) sampleEvents
        (Refinement.answers (perform Runtime.sample replacingCluster)
          (fun _ => none, fun ref => asGeojsonInit (sampleJson ref)) sampleEvents).1 final ∧
      Reflects Runtime.sample (heldRecords (Refinement.answers
        (perform Runtime.sample replacingCluster)
        (fun _ => none, fun ref => asGeojsonInit (sampleJson ref)) sampleEvents).2.1) final :=
  run_explained Runtime.sample_loadsDumped replacingCluster_documented sampleEvents_legal
    (by decide) reflects_empty

/-- What the answers tell: a write has taken effect where it is answered with true. -/
def settle (rt : Runtime) (json : Ref → CStr) (replaces : Policy → Bool) (contents : Contents)
    (answered : Event Ref Policy × Answer) : Contents :=
  match answered with
  | (.put key bins policy ttl, .bool true) =>
      effect rt json replaces contents (.put key bins policy ttl)
  | (.delete key _, .bool true) => contents.erase key.asKey
  | (.expires key, _) => contents.erase key
  | _ => contents

theorem settle_of_allows {event : Event Ref Policy} {answer : Answer} {next : Contents}
    (allowed : Allows rt json replaces contents event answer next)
    (certain : ∀ status, answer ≠ .failed status) :
    next = settle rt json replaces contents (event, answer) := by
  cases allowed with
  | failed => exact absurd rfl (certain _)
  | inDoubt => exact absurd rfl (certain _)
  | @raised event abort refuses => cases event <;> first | rfl | exact refuses.elim
  | _ => rfl

theorem settle_of_explains {answers : List Answer} {final : Contents}
    (explained : Refinement.Explains (Allows rt json replaces) contents events answers final)
    (certain : ∀ answer ∈ answers, ∀ status, answer ≠ .failed status) :
    final = (events.zip answers).foldl (settle rt json replaces) contents := by
  induction explained with
  | nil => rfl
  | cons allowed _ ih =>
      have ⟨here, later⟩ := List.forall_mem_cons.mp certain
      rw [ih later, settle_of_allows allowed here]
      rfl

/-- Where no command fails, the answers tell what the cluster holds. -/
theorem run_settled (loads : rt.LoadsDumped) (documented : Documented cluster replaces holds)
    (legal : ∀ event ∈ events, Legal rt json event) (once : (lentBy events).Nodup)
    (begins : Reflects rt (holds state) contents)
    (certain : ∀ answer ∈ (Refinement.answers (perform rt cluster)
      (state, fun ref => asGeojsonInit (json ref)) events).1, ∀ status, answer ≠ .failed status) :
    Reflects rt (holds (Refinement.answers (perform rt cluster)
        (state, fun ref => asGeojsonInit (json ref)) events).2.1)
      ((events.zip (Refinement.answers (perform rt cluster)
        (state, fun ref => asGeojsonInit (json ref)) events).1).foldl
          (settle rt json replaces) contents) := by
  have ready : Ready rt json holds events (state, fun ref => asGeojsonInit (json ref)) contents :=
    ⟨legal, ⟨fun _ _ => rfl, once⟩, begins⟩
  rcases Refinement.explains_answers (ready_perform loads documented) ready with
    ⟨final, explained, ends⟩
  rw [← settle_of_explains explained certain]
  exact ends.reflects

theorem run_settled_sampleEvents :
    Reflects Runtime.sample
      (heldRecords (Refinement.answers (perform Runtime.sample replacingCluster)
        (fun _ => none, fun ref => asGeojsonInit (sampleJson ref)) sampleEvents).2.1)
      ((sampleEvents.zip (Refinement.answers (perform Runtime.sample replacingCluster)
        (fun _ => none, fun ref => asGeojsonInit (sampleJson ref)) sampleEvents).1).foldl
          (settle Runtime.sample sampleJson fun _ => true) fun _ _ => none) := by
  refine run_settled Runtime.sample_loadsDumped replacingCluster_documented sampleEvents_legal
    (by decide) reflects_empty ?_
  have all : ∃ bins gen ttl, (Refinement.answers (perform Runtime.sample replacingCluster)
      (fun _ => none, fun ref => asGeojsonInit (sampleJson ref)) sampleEvents).1 =
        [.bool true, .bool true, .hash bins, .header gen ttl, .bool true, .bool false] :=
    ⟨_, _, _, rfl⟩
  rcases all with ⟨bins, gen, ttl, all⟩
  rw [all]
  simp

end Runs

end Client

end AerospikeCRuby
