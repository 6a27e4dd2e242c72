import AerospikeCRuby.Results.Append

/-!
# The collected list

While the mutex is free the list is `Settled`: the links lead from the head
through the appended items to NULL, and the head knows the last of them.  Inside
the mutex the list passes through the stages of `Inside`.  Everything else a
thread does concerns an item of its own, which is not in the list.
-/

namespace AerospikeCRuby.QueryItems

open LinkedCells

variable {Addr Tid : Type*}

def links (heap : Addr → Option (QueryItem Addr)) : Links Addr :=
  fun addr => (heap addr).map QueryItem.next

/-- The addresses of the appended items. -/
abbrev itemsOf (appended : List (Appended Addr Tid)) : List Addr :=
  appended.map Appended.item

section Logs

variable [DecidableEq Tid]

/-- The payloads of the calls of one thread. -/
def callsOf (calls : List (Tid × Content)) (thread : Tid) : List Content :=
  (calls.filter fun call => call.1 = thread).map Prod.snd

/-- The payloads one thread has appended. -/
def appendsOf (appended : List (Appended Addr Tid)) (thread : Tid) : List Content :=
  (appended.filter fun append => append.thread = thread).map Appended.content

end Logs

/-- The list of the given items is complete. -/
structure Settled (head : Addr) (heap : Addr → Option (QueryItem Addr)) (items : List Addr) :
    Prop where
  chain : Segment (links heap) (some head) (head :: items) none
  tail : (heap head).map QueryItem.lastsaved = some items.getLast?

/-- The last of the items is still outside of the list of the others. -/
structure Joining (head : Addr) (heap : Addr → Option (QueryItem Addr)) (items joined : List Addr)
    (newItem : Addr) : Prop where
  last : items = joined ++ [newItem]
  settled : Settled head heap joined
  ends : links heap newItem = some none
  fresh : newItem ∉ head :: joined

/-- What holds of the list at each point of the critical section. -/
def Inside (head : Addr) (heap : Addr → Option (QueryItem Addr)) (items : List Addr) :
    Pc Addr → Prop
  | .testNext newItem => ∃ joined, Joining head heap items joined newItem
  | .setNext newItem => Joining head heap items [] newItem
  | .loadLastsaved newItem => ∃ joined, joined ≠ [] ∧ Joining head heap items joined newItem
  | .setLastsavedNext newItem lastsaved =>
      ∃ front last, lastsaved = some last ∧ Joining head heap items (front ++ [last]) newItem
  | .setLastsaved newItem =>
      (∃ joined, items = joined ++ [newItem]) ∧
        Segment (links heap) (some head) (head :: items) none
  | .unlock => Settled head heap items
  | _ => False

namespace Pc

/-- The points at which a thread owns the mutex. -/
def inSection : Pc Addr → Bool
  | .testNext _ | .setNext _ | .loadLastsaved _ | .setLastsavedNext _ _ | .setLastsaved _
  | .unlock => true
  | _ => false

/-- The item a thread has allocated and not yet appended. -/
def ownItem : Pc Addr → Option Addr
  | .init newItem _ | .fill newItem _ | .lock newItem _ => some newItem
  | _ => none

/-- The payload a thread has yet to append. -/
def content : Pc Addr → Option Content
  | .malloc content | .init _ content | .fill _ content | .lock _ content => some content
  | _ => none

end Pc

/-- How far a thread has prepared its own item. -/
def Prepared (heap : Addr → Option (QueryItem Addr)) : Pc Addr → Prop
  | .init newItem _ => ∃ item, heap newItem = some item
  | .fill newItem _ => heap newItem = some initQueryItem
  | .lock newItem content =>
      heap newItem = some { (initQueryItem : QueryItem Addr) with toContent := content }
  | .faulted => False
  | _ => True

section Frames

variable {head : Addr} {heap heap' : Addr → Option (QueryItem Addr)} {items : List Addr}
  {pc : Pc Addr}

theorem links_eq_some {addr : Addr} {next : Option Addr} :
    links heap addr = some next ↔ ∃ item, heap addr = some item ∧ item.next = next := by
  simp [links]

theorem Settled.congr (settled : Settled head heap items)
    (same : ∀ addr ∈ head :: items, heap' addr = heap addr) : Settled head heap' items where
  chain := settled.chain.congr fun addr member => by simp only [links, same addr member]
  tail := by rw [same head (by simp), settled.tail]

theorem Joining.congr {joined : List Addr} {newItem : Addr}
    (joining : Joining head heap items joined newItem)
    (same : ∀ addr ∈ head :: items, heap' addr = heap addr) :
    Joining head heap' items joined newItem := by
  rcases joining with ⟨rfl, settled, ends, fresh⟩
  refine ⟨rfl, settled.congr ?_, ?_, fresh⟩
  · intro addr member
    apply same
    rcases List.mem_cons.mp member with rfl | member <;> simp_all
  · rw [← ends]
    simp only [links, same newItem (by simp)]

theorem Inside.congr (inside : Inside head heap items pc)
    (same : ∀ addr ∈ head :: items, heap' addr = heap addr) : Inside head heap' items pc := by
  cases pc with
  | testNext newItem =>
      rcases inside with ⟨joined, joining⟩
      exact ⟨joined, joining.congr same⟩
  | setNext newItem => exact Joining.congr inside same
  | loadLastsaved newItem =>
      rcases inside with ⟨joined, some, joining⟩
      exact ⟨joined, some, joining.congr same⟩
  | setLastsavedNext newItem lastsaved =>
      rcases inside with ⟨front, last, loaded, joining⟩
      exact ⟨front, last, loaded, joining.congr same⟩
  | setLastsaved newItem =>
      rcases inside with ⟨last, chain⟩
      refine ⟨last, chain.congr ?_⟩
      intro addr member
      simp only [links, same addr member]
  | unlock => exact Settled.congr inside same
  | _ => exact inside

theorem Inside.inSection (inside : Inside head heap items pc) : pc.inSection = true := by
  cases pc <;> first | rfl | exact inside.elim

theorem Prepared.congr (prepared : Prepared heap pc)
    (same : ∀ item, pc.ownItem = some item → heap' item = heap item) : Prepared heap' pc := by
  cases pc with
  | init newItem content =>
      rcases prepared with ⟨item, allocated⟩
      exact ⟨item, (same newItem rfl).trans allocated⟩
  | fill newItem content => exact (same newItem rfl).trans prepared
  | lock newItem content => exact (same newItem rfl).trans prepared
  | _ => exact prepared

theorem Prepared.allocated (prepared : Prepared heap pc) {addr : Addr}
    (own : pc.ownItem = some addr) : ∃ item, heap addr = some item := by
  cases pc with
  | init newItem content =>
      cases own
      exact prepared
  | fill newItem content =>
      cases own
      exact ⟨_, prepared⟩
  | lock newItem content =>
      cases own
      exact ⟨_, prepared⟩
  | _ => cases own

theorem prepared_of_inSection (owns : pc.inSection = true) : Prepared heap pc := by
  cases pc <;> trivial

theorem Pc.ownItem_of_inSection (owns : pc.inSection = true) : pc.ownItem = none := by
  cases pc <;> first | rfl | cases owns

theorem Pc.content_of_inSection (owns : pc.inSection = true) : pc.content = none := by
  cases pc <;> first | rfl | cases owns

end Frames

section Stages

variable {head : Addr} {heap : Addr → Option (QueryItem Addr)}
  {items joined : List Addr} {newItem : Addr} {item : QueryItem Addr}

/-- The head links to NULL exactly while nothing has been appended. -/
theorem Joining.testNext (joining : Joining head heap items joined newItem)
    (read : heap head = some item) :
    Inside head heap items
      (if item.next.isNone then .setNext newItem else .loadLastsaved newItem) := by
  rcases joining.settled.chain with ⟨_, next, linked, rest⟩
  rcases links_eq_some.mp linked with ⟨_, read', rfl⟩
  rw [read] at read'
  cases read'
  by_cases first : item.next = none
  · rw [first] at rest
    have empty : joined = [] := by
      cases joined with
      | nil => rfl
      | cons cell rest' => cases rest.1
    subst empty
    rw [if_pos (by simp [first])]
    exact joining
  · have nonempty : joined ≠ [] := by
      rintro rfl
      exact first rest
    rw [if_neg (by simp [first])]
    exact ⟨joined, nonempty, joining⟩

theorem Joining.setLastsavedNext (joining : Joining head heap items joined newItem)
    (nonempty : joined ≠ []) (read : heap head = some item) :
    Inside head heap items (.setLastsavedNext newItem item.lastsaved) := by
  have tail := joining.settled.tail
  simp only [read, Option.map_some, Option.some.injEq] at tail
  refine ⟨joined.dropLast, joined.getLast nonempty, ?_, ?_⟩
  · rw [tail, List.getLast?_eq_some_getLast]
  · rwa [List.dropLast_append_getLast]

variable [DecidableEq Addr]

/-- Either store links the new item behind the last one. -/
theorem Joining.link {front : List Addr} {last : Addr}
    (joining : Joining head heap items joined newItem)
    (split : head :: joined = front ++ [last]) :
    Inside head (Function.update heap last (some { item with next := some newItem })) items
      (.setLastsaved newItem) := by
  refine ⟨⟨joined, joining.last⟩, ?_⟩
  have chain := joining.settled.chain
  have fresh := joining.fresh
  rw [joining.last, ← List.cons_append]
  rw [split] at chain fresh ⊢
  apply chain.concat fresh
  · intro cell other
    simp only [links, Function.update_of_ne other]
  · simp [links]
  · exact joining.ends

theorem inside_unlock (inside : Inside head heap items (.setLastsaved newItem))
    (read : heap head = some item) :
    Inside head (Function.update heap head (some { item with lastsaved := some newItem })) items
      .unlock := by
  rcases inside with ⟨⟨joined, rfl⟩, chain⟩
  constructor
  · apply chain.congr
    intro cell _
    by_cases same : cell = head
    · subst same
      simp [links, read]
    · simp only [links, Function.update_of_ne same]
  · simp

end Stages

variable [DecidableEq Tid]

/-- The invariant of the runs. -/
structure Inv (head : Addr) (state : State Addr Tid) : Prop where
  free : state.mutex = none → Settled head state.heap (itemsOf state.appended)
  inside : ∀ thread, state.mutex = some thread →
    Inside head state.heap (itemsOf state.appended) (state.pc thread)
  outside : ∀ thread, (state.pc thread).inSection = true → state.mutex = some thread
  prepared : ∀ thread, Prepared state.heap (state.pc thread)
  fresh : ∀ thread item, (state.pc thread).ownItem = some item →
    item ∉ head :: itemsOf state.appended
  apart : ∀ thread other item, (state.pc thread).ownItem = some item →
    (state.pc other).ownItem = some item → thread = other
  headContent : (state.heap head).map QueryItem.toContent = some ⟨none, none⟩
  contents : ∀ append ∈ state.appended,
    (state.heap append.item).map QueryItem.toContent = some append.content
  ordered : ∀ thread, callsOf state.calls thread =
    appendsOf state.appended thread ++ (state.pc thread).content.toList

namespace Inv

variable {head : Addr} {state : State Addr Tid} {thread : Tid}
  {heap' : Addr → Option (QueryItem Addr)}
  {pc' : Pc Addr}

theorem allocated (inv : Inv head state) {addr : Addr}
    (member : addr ∈ head :: itemsOf state.appended) : ∃ item, state.heap addr = some item := by
  rcases List.mem_cons.mp member with rfl | member
  · rcases Option.map_eq_some_iff.mp inv.headContent with ⟨item, read, _⟩
    exact ⟨item, read⟩
  · rcases List.mem_map.mp member with ⟨append, appended, rfl⟩
    rcases Option.map_eq_some_iff.mp (inv.contents append appended) with ⟨item, read, _⟩
    exact ⟨item, read⟩

theorem used (inv : Inv head state) {item : Addr} (own : (state.pc thread).ownItem = some item) :
    state.heap item ≠ none := by
  rcases (inv.prepared thread).allocated own with ⟨_, allocated⟩
  rw [allocated]
  exact Option.some_ne_none _

/-- A thread which goes where it has no item leaves the items of the others. -/
theorem ownItem_of_update {pc : Tid → Pc Addr} {pc' : Pc Addr} (without : pc'.ownItem = none)
    {other : Tid} {item : Addr}
    (own : (Function.update pc thread pc' other).ownItem = some item) :
    (pc other).ownItem = some item := by
  by_cases same : other = thread
  · subst same
    rw [Function.update_self, without] at own
    cases own
  · rwa [Function.update_of_ne same] at own

/-- A step of the owner, which touches only the links of listed items. -/
theorem ownerStep (inv : Inv head state) (owner : state.mutex = some thread)
    (elsewhere : ∀ addr, addr ∉ head :: itemsOf state.appended → heap' addr = state.heap addr)
    (kept : ∀ addr, (heap' addr).map QueryItem.toContent =
      (state.heap addr).map QueryItem.toContent)
    (inside : Inside head heap' (itemsOf state.appended) pc') :
    Inv head (({ state with heap := heap' }).goto thread pc') := by
  have owned := (inv.inside thread owner).inSection
  have owns := inside.inSection
  have before : ∀ {other item}, (Function.update state.pc thread pc' other).ownItem = some item →
      (state.pc other).ownItem = some item :=
    ownItem_of_update (Pc.ownItem_of_inSection owns)
  constructor
  case free =>
    intro free
    rw [State.goto, owner] at free
    cases free
  case inside =>
    intro other owner'
    have same : thread = other := Option.some.inj (owner.symm.trans owner')
    subst same
    simpa only [State.goto, Function.update_self] using inside
  case outside =>
    apply (Function.forall_update_iff state.pc fun other pc =>
      pc.inSection = true → state.mutex = some other).mpr
    exact ⟨fun _ => owner, fun other _ => inv.outside other⟩
  case prepared =>
    apply (Function.forall_update_iff state.pc fun _ pc => Prepared heap' pc).mpr
    refine ⟨prepared_of_inSection owns, ?_⟩
    intro other _
    apply (inv.prepared other).congr
    intro item own
    exact elsewhere item (inv.fresh other item own)
  case fresh =>
    intro other item own
    exact inv.fresh other item (before own)
  case apart =>
    intro other other' item own own'
    exact inv.apart other other' item (before own) (before own')
  case headContent =>
    exact (kept head).trans inv.headContent
  case contents =>
    intro append member
    exact (kept append.item).trans (inv.contents append member)
  case ordered =>
    apply (Function.forall_update_iff state.pc fun other pc =>
      callsOf state.calls other = appendsOf state.appended other ++ pc.content.toList).mpr
    refine ⟨?_, fun other _ => inv.ordered other⟩
    rw [inv.ordered thread, Pc.content_of_inSection owns, Pc.content_of_inSection owned]

/-- A step outside of the mutex, which touches only the item of the thread. -/
theorem privateStep (inv : Inv head state) {calls' : List (Tid × Content)}
    (wasOutside : (state.pc thread).inSection = false) (isOutside : pc'.inSection = false)
    (untouched : ∀ addr, (∃ item, state.heap addr = some item) →
      (state.pc thread).ownItem ≠ some addr → heap' addr = state.heap addr)
    (prepared : Prepared heap' pc')
    (own : ∀ item, pc'.ownItem = some item →
      state.heap item = none ∨ (state.pc thread).ownItem = some item)
    (ordered : ∀ other, callsOf calls' other = appendsOf state.appended other ++
      (Function.update state.pc thread pc' other).content.toList) :
    Inv head (({ state with heap := heap', calls := calls' }).goto thread pc') := by
  have listed : ∀ addr ∈ head :: itemsOf state.appended, heap' addr = state.heap addr := by
    intro addr member
    apply untouched addr (inv.allocated member)
    intro own
    exact inv.fresh thread addr own member
  have ownItem : ∀ other item,
      (Function.update state.pc thread pc' other).ownItem = some item →
        (other = thread ∧ state.heap item = none) ∨ (state.pc other).ownItem = some item := by
    intro other item own'
    by_cases same : other = thread
    · subst same
      rw [Function.update_self] at own'
      rcases own item own' with unused | own
      · exact Or.inl ⟨rfl, unused⟩
      · exact Or.inr own
    · rw [Function.update_of_ne same] at own'
      exact Or.inr own'
  constructor
  case free =>
    intro free
    exact (inv.free free).congr listed
  case inside =>
    intro other owner
    have inside := inv.inside other owner
    have different : other ≠ thread := by
      rintro rfl
      rw [inside.inSection] at wasOutside
      cases wasOutside
    simpa only [State.goto, Function.update_of_ne different] using inside.congr listed
  case outside =>
    apply (Function.forall_update_iff state.pc fun other pc =>
      pc.inSection = true → state.mutex = some other).mpr
    refine ⟨?_, fun other _ => inv.outside other⟩
    intro owns
    rw [isOutside] at owns
    cases owns
  case prepared =>
    apply (Function.forall_update_iff state.pc fun _ pc => Prepared heap' pc).mpr
    refine ⟨prepared, ?_⟩
    intro other different
    apply (inv.prepared other).congr
    intro item own
    apply untouched item ((inv.prepared other).allocated own)
    intro own'
    exact different (inv.apart other thread item own own')
  case fresh =>
    intro other item own
    rcases ownItem other item own with ⟨_, unused⟩ | own
    · intro member
      rcases inv.allocated member with ⟨_, allocated⟩
      rw [allocated] at unused
      cases unused
    · exact inv.fresh other item own
  case apart =>
    intro other other' item own own'
    rcases ownItem other item own with ⟨mine, unused⟩ | before
    · rcases ownItem other' item own' with ⟨mine', _⟩ | before'
      · exact mine.trans mine'.symm
      · exact absurd unused (inv.used before')
    · rcases ownItem other' item own' with ⟨_, unused⟩ | before'
      · exact absurd unused (inv.used before)
      · exact inv.apart other other' item before before'
  case headContent =>
    rw [← inv.headContent]
    simp only [State.goto, listed head (by simp)]
  case contents =>
    intro append member
    rw [← inv.contents append member]
    simp only [State.goto, listed append.item (List.mem_cons_of_mem _ (List.mem_map_of_mem member))]
  case ordered =>
    exact ordered

theorem initial (initial : Initial head state) : Inv head state where
  free := by
    intro _
    have read := initial.allocated
    rw [initial.appended]
    exact ⟨⟨rfl, none, by simp [links, read, initQueryItem], rfl⟩,
      by simp [read, initQueryItem]⟩
  inside := by
    intro thread owner
    rw [initial.mutex] at owner
    cases owner
  outside := by
    intro thread owns
    rw [initial.pc] at owns
    cases owns
  prepared := by
    intro thread
    rw [initial.pc]
    trivial
  fresh := by
    intro thread item own
    rw [initial.pc] at own
    cases own
  apart := by
    intro thread other item own
    rw [initial.pc] at own
    cases own
  headContent := by
    rw [initial.allocated]
    rfl
  contents := by
    intro append member
    rw [initial.appended] at member
    cases member
  ordered := by
    intro thread
    simp [initial.calls, initial.appended, initial.pc, callsOf, appendsOf, Pc.content]

theorem call (inv : Inv head state) {content : Content} (idle : state.pc thread = .idle) :
    Inv head (({ state with calls := state.calls ++ [(thread, content)] }).goto
      thread (.malloc content)) := by
  apply inv.privateStep
  · rw [idle]
    rfl
  · rfl
  · intro addr _ _
    rfl
  · trivial
  · intro item own
    cases own
  · intro other
    have ordered := inv.ordered other
    by_cases same : other = thread
    · subst same
      rw [idle] at ordered
      simpa [callsOf, Pc.content] using ordered
    · rw [Function.update_of_ne same, ← ordered]
      simp [callsOf, Ne.symm same]

theorem lock (inv : Inv head state) {newItem : Addr} {content : Content}
    (free : state.mutex = none) (locking : state.pc thread = .lock newItem content) :
    Inv head (({ state with
      mutex := some thread
      appended := state.appended ++ [Appended.mk thread newItem content] }).goto
        thread (.testNext newItem)) := by
  have prepared := inv.prepared thread
  rw [locking] at prepared
  have read : state.heap newItem = _ := prepared
  have outside : ∀ other, (state.pc other).inSection = false := by
    intro other
    by_contra owns
    have owner := inv.outside other (Bool.of_not_eq_false owns)
    rw [free] at owner
    cases owner
  have fresh : newItem ∉ head :: itemsOf state.appended := by
    apply inv.fresh thread
    rw [locking]
    rfl
  constructor
  case free =>
    intro free'
    cases free'
  case inside =>
    intro other owner
    cases owner
    simp only [State.goto, Function.update_self]
    refine ⟨itemsOf state.appended, ?_, inv.free free, ?_, fresh⟩
    · simp
    · simp [links, read, initQueryItem]
  case outside =>
    apply (Function.forall_update_iff state.pc fun other pc =>
      pc.inSection = true → some thread = some other).mpr
    refine ⟨fun _ => rfl, ?_⟩
    intro other _ owns
    rw [outside other] at owns
    cases owns
  case prepared =>
    apply (Function.forall_update_iff state.pc fun _ pc => Prepared state.heap pc).mpr
    exact ⟨trivial, fun other _ => inv.prepared other⟩
  case fresh =>
    intro other item own
    by_cases same : other = thread
    · subst same
      simp only [State.goto, Function.update_self] at own
      cases own
    · simp only [State.goto, Function.update_of_ne same] at own
      have different : item ≠ newItem := by
        rintro rfl
        apply same
        apply inv.apart other thread item own
        rw [locking]
        rfl
      have unlisted := inv.fresh other item own
      simp only [State.goto, List.map_append, List.mem_cons, List.mem_append] at unlisted ⊢
      simp only [List.map_cons, List.map_nil, List.mem_singleton]
      tauto
  case apart =>
    intro other other' item own own'
    exact inv.apart other other' item (ownItem_of_update rfl own) (ownItem_of_update rfl own')
  case headContent =>
    exact inv.headContent
  case contents =>
    intro append member
    rcases List.mem_append.mp member with member | last
    · exact inv.contents append member
    · rw [List.mem_singleton.mp last]
      simp [State.goto, read]
  case ordered =>
    intro other
    have ordered := inv.ordered other
    by_cases same : other = thread
    · subst same
      rw [locking] at ordered
      simpa [State.goto, appendsOf, Pc.content] using ordered
    · simpa [State.goto, appendsOf, Function.update_of_ne same, Ne.symm same] using ordered

theorem unlock (inv : Inv head state) (unlocking : state.pc thread = .unlock) :
    Inv head (({ state with mutex := none }).goto thread .idle) := by
  have owner : state.mutex = some thread := by
    apply inv.outside
    rw [unlocking]
    rfl
  have settled : Settled head state.heap (itemsOf state.appended) := by
    have inside := inv.inside thread owner
    rwa [unlocking] at inside
  constructor
  case free =>
    intro _
    exact settled
  case inside =>
    intro other owner'
    cases owner'
  case outside =>
    apply (Function.forall_update_iff state.pc fun other pc =>
      pc.inSection = true → none = some other).mpr
    refine ⟨nofun, ?_⟩
    intro other different owns
    have owner' := inv.outside other owns
    rw [owner] at owner'
    exact absurd (Option.some.inj owner').symm different
  case prepared =>
    apply (Function.forall_update_iff state.pc fun _ pc => Prepared state.heap pc).mpr
    exact ⟨trivial, fun other _ => inv.prepared other⟩
  case fresh =>
    intro other item own
    exact inv.fresh other item (ownItem_of_update rfl own)
  case apart =>
    intro other other' item own own'
    exact inv.apart other other' item (ownItem_of_update rfl own) (ownItem_of_update rfl own')
  case headContent =>
    exact inv.headContent
  case contents =>
    exact inv.contents
  case ordered =>
    apply (Function.forall_update_iff state.pc fun other pc =>
      callsOf state.calls other = appendsOf state.appended other ++ pc.content.toList).mpr
    refine ⟨?_, fun other _ => inv.ordered other⟩
    have ordered := inv.ordered thread
    rw [unlocking] at ordered
    exact ordered

theorem ownerLoad (inv : Inv head state) (owner : state.mutex = some thread)
    (inside : Inside head state.heap (itemsOf state.appended) pc') :
    Inv head (state.goto thread pc') :=
  inv.ownerStep owner (fun _ _ => rfl) (fun _ => rfl) inside

theorem load (inv : Inv head state) (owner : state.mutex = some thread)
    {continue_ : QueryItem Addr → Pc Addr}
    (inside : ∀ item, state.heap head = some item →
      Inside head state.heap (itemsOf state.appended) (continue_ item)) :
    Inv head (state.load thread head continue_) := by
  rcases inv.allocated (List.mem_cons_self : head ∈ _) with ⟨item, read⟩
  simp only [State.load, read]
  exact inv.ownerLoad owner (inside item read)

variable [DecidableEq Addr]

theorem privateStore (inv : Inv head state) {newItem : Addr} {item : QueryItem Addr}
    (wasOutside : (state.pc thread).inSection = false) (isOutside : pc'.inSection = false)
    (content : pc'.content = (state.pc thread).content)
    (own : state.heap newItem = none ∨ (state.pc thread).ownItem = some newItem)
    (own' : pc'.ownItem = some newItem)
    (prepared : Prepared (Function.update state.heap newItem (some item)) pc') :
    Inv head (({ state with heap := Function.update state.heap newItem (some item) }).goto
      thread pc') := by
  apply inv.privateStep wasOutside isOutside
  · rintro addr ⟨_, allocated⟩ other
    apply Function.update_of_ne
    rintro rfl
    rcases own with unused | own
    · rw [allocated] at unused
      cases unused
    · exact other own
  · exact prepared
  · intro addr own''
    cases own'.symm.trans own''
    exact own
  · intro other
    rw [inv.ordered other]
    by_cases same : other = thread
    · subst same
      rw [Function.update_self, content]
    · rw [Function.update_of_ne same]

theorem ownerStore (inv : Inv head state) (owner : state.mutex = some thread) {target : Addr}
    {item item' : QueryItem Addr} (listed : target ∈ head :: itemsOf state.appended)
    (read : state.heap target = some item) (kept : item'.toContent = item.toContent)
    (inside : Inside head (Function.update state.heap target (some item'))
      (itemsOf state.appended) pc') :
    Inv head (({ state with heap := Function.update state.heap target (some item') }).goto
      thread pc') := by
  apply inv.ownerStep owner
  · intro addr unlisted
    apply Function.update_of_ne
    rintro rfl
    exact unlisted listed
  · intro addr
    by_cases same : addr = target
    · subst same
      simp [read, kept]
    · rw [Function.update_of_ne same]
  · exact inside

theorem store (inv : Inv head state) (owner : state.mutex = some thread) {target : Addr}
    {change : QueryItem Addr → QueryItem Addr} (listed : target ∈ head :: itemsOf state.appended)
    (kept : ∀ item, (change item).toContent = item.toContent)
    (inside : ∀ item, state.heap target = some item →
      Inside head (Function.update state.heap target (some (change item)))
        (itemsOf state.appended) pc') :
    Inv head (state.store thread (some target) change pc') := by
  rcases inv.allocated listed with ⟨item, read⟩
  simp only [State.store, read]
  exact inv.ownerStore owner listed read (kept item) (inside item read)

/-- The owner keeps the invariant at each of its accesses. -/
theorem advance_inside (inv : Inv head state) (owner : state.mutex = some thread)
    {next : State Addr Tid} (advanced : state.advance head thread = some next) :
    Inv head next := by
  have inside := inv.inside thread owner
  unfold State.advance at advanced
  cases at_ : state.pc thread with
  | testNext newItem =>
      rw [at_] at advanced inside
      rcases inside with ⟨joined, joining⟩
      cases advanced
      apply inv.load owner
      intro item read
      exact joining.testNext read
  | setNext newItem =>
      rw [at_] at advanced inside
      cases advanced
      have joining : Joining head state.heap (itemsOf state.appended) [] newItem := inside
      apply inv.store owner
      · simp
      · intro item
        rfl
      · intro item read
        exact joining.link (List.nil_append [head]).symm
  | loadLastsaved newItem =>
      rw [at_] at advanced inside
      rcases inside with ⟨joined, nonempty, joining⟩
      cases advanced
      apply inv.load owner
      intro item read
      exact joining.setLastsavedNext nonempty read
  | setLastsavedNext newItem lastsaved =>
      rw [at_] at advanced inside
      rcases inside with ⟨front, last, rfl, joining⟩
      cases advanced
      apply inv.store owner
      · rw [joining.last]
        simp
      · intro item
        rfl
      · intro item read
        exact joining.link (List.cons_append ..).symm
  | setLastsaved newItem =>
      rw [at_] at advanced inside
      cases advanced
      apply inv.store owner
      · simp
      · intro item
        rfl
      · intro item read
        exact inside_unlock inside read
  | unlock =>
      rw [at_] at advanced
      cases advanced
      exact inv.unlock at_
  | _ =>
      rw [at_] at inside
      exact inside.elim

theorem advance (inv : Inv head state) {next : State Addr Tid}
    (advanced : state.advance head thread = some next) : Inv head next := by
  by_cases owner : state.mutex = some thread
  · exact inv.advance_inside owner advanced
  have outside : (state.pc thread).inSection = false := by
    by_contra owns
    exact owner (inv.outside thread (Bool.of_not_eq_false owns))
  have prepared := inv.prepared thread
  unfold State.advance at advanced
  cases at_ : state.pc thread with
  | init newItem content =>
      rw [at_] at advanced prepared
      rcases prepared with ⟨item, read⟩
      simp only [State.store, read, Option.some.injEq] at advanced
      subst advanced
      apply inv.privateStore outside rfl
      · rw [at_]
        rfl
      · exact Or.inr (by rw [at_]; rfl)
      · rfl
      · exact Function.update_self ..
  | fill newItem content =>
      rw [at_] at advanced prepared
      have read : state.heap newItem = _ := prepared
      simp only [State.store, read, Option.some.injEq] at advanced
      subst advanced
      apply inv.privateStore outside rfl
      · rw [at_]
        rfl
      · exact Or.inr (by rw [at_]; rfl)
      · rfl
      · exact Function.update_self ..
  | lock newItem content =>
      rw [at_] at advanced
      cases free : state.mutex with
      | some other =>
          rw [free] at advanced
          cases advanced
      | none =>
          rw [free] at advanced
          cases advanced
          exact inv.lock free at_
  | idle | malloc | faulted =>
      rw [at_] at advanced
      cases advanced
  | _ =>
      rw [at_] at outside
      cases outside

theorem malloc (inv : Inv head state) {content : Content} {newItem : Addr}
    {garbage : QueryItem Addr} (allocating : state.pc thread = .malloc content)
    (unused : state.heap newItem = none) :
    Inv head (({ state with heap := Function.update state.heap newItem (some garbage) }).goto
      thread (.init newItem content)) := by
  apply inv.privateStore
  · rw [allocating]
    rfl
  · rfl
  · rw [allocating]
    rfl
  · exact Or.inl unused
  · rfl
  · exact ⟨garbage, Function.update_self ..⟩

theorem step (inv : Inv head state) {callback : Option Streamed → Except Abort (Option Content)}
    {next : State Addr Tid} (step : Step callback head state next) : Inv head next := by
  cases step with
  | call idle _ => exact inv.call idle
  | malloc allocating unused => exact inv.malloc allocating unused
  | advance advanced => exact inv.advance advanced

end Inv

section Runs

variable [DecidableEq Addr] {callback : Option Streamed → Except Abort (Option Content)}
  {head : Addr} {state : State Addr Tid}

theorem Reachable.inv (reachable : Reachable callback head state) : Inv head state :=
  reachable.invariant (fun _ => Inv.initial) (fun _ _ inv => inv.step)

/-- No callback reads or writes through NULL or through a pointer to memory not allocated. -/
theorem Reachable.not_faulted (reachable : Reachable callback head state) (thread : Tid) :
    state.pc thread ≠ .faulted := by
  intro faulted
  have prepared := reachable.inv.prepared thread
  rw [faulted] at prepared
  exact prepared

/-- One thread may go on alone. -/
theorem Reachable.advances (reachable : Reachable callback head state) (thread : Tid) (count : ℕ)
    {last : State Addr Tid}
    (run : (fun state => state.bind (State.advance head · thread))^[count] (some state) =
      some last) : Reachable callback head last := by
  induction count generalizing state with
  | zero =>
      cases run
      exact reachable
  | succ count ih =>
      rw [Function.iterate_succ_apply] at run
      cases advanced : state.advance head thread with
      | none =>
          rw [Option.bind_some, advanced, Function.iterate_fixed rfl] at run
          cases run
      | some next =>
          rw [Option.bind_some, advanced] at run
          exact ih (reachable.next (.advance advanced)) run

/-- One thread may call the callback and go on alone. -/
theorem Reachable.call (reachable : Reachable callback head state) (thread : Tid)
    (delivered : Option Streamed) (content : Content) (newItem : Addr) (count : ℕ)
    {last : State Addr Tid} (idle : state.pc thread = .idle)
    (filled : callback delivered = .ok (some content)) (unused : state.heap newItem = none)
    (run : (fun state => state.bind (State.advance head · thread))^[count]
      (some (({ state with
        heap := Function.update state.heap newItem (some initQueryItem)
        calls := state.calls ++ [(thread, content)] }).goto thread (.init newItem content))) =
          some last) : Reachable callback head last := by
  have called := reachable.next (.call idle filled)
  have allocated := called.next (@Step.malloc _ _ _ _ _ _ _ thread content newItem initQueryItem
    (Function.update_self ..) unused)
  apply Reachable.advances allocated thread count
  simp only [State.goto, Function.update_idem]
  exact run

end Runs

end AerospikeCRuby.QueryItems
