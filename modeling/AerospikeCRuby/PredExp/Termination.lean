import AerospikeCRuby.Library.Acyclic
import AerospikeCRuby.Library.Transition
import AerospikeCRuby.PredExp.Builder

/-!
# Cycles of node hashes

A node hash holds other node hashes, and `and` and `or` put in whatever they are
given: also the receiver itself, or a node which holds the receiver already.
`get_vars_from_hash` and the compiler then follow the links for ever.  A program
is followed through every call, also through those that raise.
-/

namespace AerospikeCRuby

/-- The node hashes a node hash holds. -/
def childrenOf (nodes : List PredExpNode) (ref : ℕ) : List ℕ :=
  nodes[ref]?.elim [] fun own => own.andNodes ++ own.orNodes

def Objects.Linked (objects : Objects) (parent child : ℕ) : Prop :=
  child ∈ childrenOf objects.nodes parent

def PredExpNode.pushAnd (child : ℕ) (own : PredExpNode) : PredExpNode :=
  { own with andNodes := own.andNodes ++ [child] }

def PredExpNode.pushOr (child : ℕ) (own : PredExpNode) : PredExpNode :=
  { own with orNodes := own.orNodes ++ [child] }

/-- The link `and` and `or` of a PredExpNode make: from the receiver to the argument. -/
def nodeLink (self : ℕ) (val : Arg) (objects : Objects) : Except Stop (ℕ × ℕ) := do
  let _ ← findNode objects.nodes self
  let other ← checkNode val
  let child ← PredExpNode.node other objects
  .ok (self, child)

/-- The link `and` and `or` of a PredExp make: from the node it holds. -/
def predexpLink (self : ℕ) (val : Arg) (objects : Objects) : Except Stop (ℕ × ℕ) := do
  let other ← checkNode val
  let held ← PredExp.predexp self objects
  let child ← PredExpNode.node other objects
  .ok (held, child)

/-- The link a call makes, if its checks let it make one. -/
def Call.link (objects : Objects) : Call → Option (ℕ × ℕ)
  | .and self val => (nodeLink self val objects).toOption
  | .or self val => (nodeLink self val objects).toOption
  | .predexpAnd self val => (predexpLink self val objects).toOption
  | .predexpOr self val => (predexpLink self val objects).toOption
  | _ => none

/-- What `set_collection_vals` sets before it looks at the variables. -/
def PredExpNode.setCollection (collection pred : String) (self : ℕ) (objects : Objects) : Objects :=
  objects.update self fun own =>
    { own with
      filters :=
        { own.filters with
          collection := some (sym collection)
          collectionPred := some (sym pred) } }

/-- What a call has changed when it raises. -/
def Call.abandon (objects : Objects) : Call → Objects
  | .and self val =>
      match nodeLink self val objects with
      | .ok (_, child) => objects.update self (PredExpNode.pushAnd child)
      | .error _ => objects
  | .or self val =>
      match nodeLink self val objects with
      | .ok (_, child) => objects.update self (PredExpNode.pushOr child)
      | .error _ => objects
  | .listAnd self _ => PredExpNode.setCollection "array" "and" self objects
  | .listOr self _ => PredExpNode.setCollection "array" "or" self objects
  | .mapKeyAnd self _ => PredExpNode.setCollection "mapkey" "and" self objects
  | .mapKeyOr self _ => PredExpNode.setCollection "mapkey" "or" self objects
  | .mapValAnd self _ => PredExpNode.setCollection "mapval" "and" self objects
  | .mapValOr self _ => PredExpNode.setCollection "mapval" "or" self objects
  | _ => objects

variable (rt : Runtime) (depth : ℕ)

/-- The objects as a call leaves them, whether it returns or raises. -/
def Call.leave (objects : Objects) (call : Call) : Objects :=
  match call.perform rt depth objects with
  | .ok objects' => objects'
  | .error _ => call.abandon objects

def leaveAll (objects : Objects) (calls : List Call) : Objects :=
  calls.foldl (Call.leave rt depth) objects

/-- No node hash holds itself, directly or through others; the variables of every tree are found,
and the compiler walks a finite tree. -/
structure Objects.Finite (objects : Objects) : Prop where
  acyclic : Links.Acyclic objects.Linked
  varsFound : ∀ ref < objects.nodes.length, ∃ depth vars,
    getVarsFromHash objects.nodes depth ref = .ok vars
  spans : ∀ ref < objects.nodes.length, ∃ height tree,
    treeOf objects.nodes height ref = .ok tree

/-- The children of every node hash exist, and the node hash of every PredExp. -/
structure Objects.Closed (objects : Objects) : Prop where
  children : ∀ parent child, objects.Linked parent child → child < objects.nodes.length
  held : ∀ ref, some ref ∈ objects.predexps → ref < objects.nodes.length

/-- The link a call makes does not lead to a node hash which holds its origin. -/
def Call.NoReturn (objects : Objects) (call : Call) : Prop :=
  ∀ parent child, call.link objects = some (parent, child) →
    ¬Relation.ReflTransGen objects.Linked child parent

section Recursion

variable {nodes : List PredExpNode}

theorem getVarsFromHash_succ {depth ref : ℕ} {vars : List RbVal}
    (found : getVarsFromHash nodes depth ref = .ok vars) :
    getVarsFromHash nodes (depth + 1) ref = .ok vars := by
  induction depth generalizing ref vars with
  | zero => cases found
  | succ depth ih =>
      simp only [getVarsFromHash, ExceptLoop.bind_eq_ok] at found ⊢
      rcases found with ⟨own, read, ands, conjoined, ors, disjoined, same⟩
      have deeper : ∀ {refs : List ℕ} {values : List (List RbVal)},
          ExceptLoop.collect (getVarsFromHash nodes depth) refs = .ok values →
            ExceptLoop.collect (getVarsFromHash nodes (depth + 1)) refs = .ok values := by
        intro refs values collected
        rw [ExceptLoop.collect_eq_ok] at collected ⊢
        exact collected.imp fun _ _ => ih
      exact ⟨own, read, ands, deeper conjoined, ors, deeper disjoined, same⟩

theorem treeOf_succ {height ref : ℕ} {tree : PredNode}
    (spans : treeOf nodes height ref = .ok tree) :
    treeOf nodes (height + 1) ref = .ok tree := by
  induction height generalizing ref tree with
  | zero => cases spans
  | succ height ih =>
      simp only [treeOf, ExceptLoop.bind_eq_ok] at spans ⊢
      rcases spans with ⟨own, read, ands, conjoined, ors, disjoined, same⟩
      have deeper : ∀ {refs : List ℕ} {trees : List PredNode},
          ExceptLoop.collect (treeOf nodes height) refs = .ok trees →
            ExceptLoop.collect (treeOf nodes (height + 1)) refs = .ok trees := by
        intro refs trees collected
        rw [ExceptLoop.collect_eq_ok] at collected ⊢
        exact collected.imp fun _ _ => ih
      exact ⟨own, read, ands, deeper conjoined, ors, deeper disjoined, same⟩

theorem exists_node {ref : ℕ} (bound : ref < nodes.length) :
    ∃ own, findNode nodes ref = .ok own ∧ childrenOf nodes ref = own.andNodes ++ own.orNodes := by
  refine ⟨nodes[ref], ?_, ?_⟩
  · simp [findNode, bound]
  · simp [childrenOf, bound]

theorem exists_getVarsFromHash {ref : ℕ} (bound : ref < nodes.length)
    (below : ∀ child ∈ childrenOf nodes ref, ∃ depth vars,
      getVarsFromHash nodes depth child = .ok vars) :
    ∃ depth vars, getVarsFromHash nodes depth ref = .ok vars := by
  rcases exists_node bound with ⟨own, read, children⟩
  rw [children] at below
  rcases ExceptLoop.exists_collect getVarsFromHash_succ
    (fun child member => below child (List.mem_append_left _ member)) with ⟨front, ands, conjoined⟩
  rcases ExceptLoop.exists_collect getVarsFromHash_succ
    (fun child member => below child (List.mem_append_right _ member)) with ⟨back, ors, disjoined⟩
  have conjoined := ExceptLoop.collect_of_le getVarsFromHash_succ conjoined (le_max_left front back)
  have disjoined :=
    ExceptLoop.collect_of_le getVarsFromHash_succ disjoined (le_max_right front back)
  refine ⟨max front back + 1, own.filters.collectionVar.toList ++ ands.flatten ++ ors.flatten, ?_⟩
  simp only [getVarsFromHash, ExceptLoop.bind_eq_ok]
  exact ⟨own, read, ands, conjoined, ors, disjoined, rfl⟩

theorem exists_treeOf {ref : ℕ} (bound : ref < nodes.length)
    (below : ∀ child ∈ childrenOf nodes ref, ∃ height tree,
      treeOf nodes height child = .ok tree) :
    ∃ height tree, treeOf nodes height ref = .ok tree := by
  rcases exists_node bound with ⟨own, read, children⟩
  rw [children] at below
  rcases ExceptLoop.exists_collect treeOf_succ
    (fun child member => below child (List.mem_append_left _ member)) with ⟨front, ands, conjoined⟩
  rcases ExceptLoop.exists_collect treeOf_succ
    (fun child member => below child (List.mem_append_right _ member)) with ⟨back, ors, disjoined⟩
  have conjoined := ExceptLoop.collect_of_le treeOf_succ conjoined (le_max_left front back)
  have disjoined := ExceptLoop.collect_of_le treeOf_succ disjoined (le_max_right front back)
  refine ⟨max front back + 1,
    .hash own.bin (.bool own.predTrue) (some own.filters) (some ands) (some ors), ?_⟩
  simp only [treeOf, ExceptLoop.bind_eq_ok]
  exact ⟨own, read, ands, conjoined, ors, disjoined, rfl⟩

/-- Both recursions end exactly where there is no cycle. -/
theorem Objects.finite_iff_acyclic {objects : Objects} (closed : objects.Closed) :
    objects.Finite ↔ Links.Acyclic objects.Linked := by
  constructor
  · exact Objects.Finite.acyclic
  · intro acyclic
    have bounded : {ref | ref < objects.nodes.length}.Finite := Set.finite_lt_nat _
    have inside : ∀ parent ∈ {ref | ref < objects.nodes.length}, ∀ child,
        objects.Linked parent child → child ∈ {ref | ref < objects.nodes.length} :=
      fun parent _ child linked => closed.children parent child linked
    refine ⟨acyclic, ?_, ?_⟩
    · exact acyclic.induction (motive := fun ref => ∃ depth vars,
          getVarsFromHash objects.nodes depth ref = .ok vars) bounded inside
        fun ref bound below => exists_getVarsFromHash bound below
    · exact acyclic.induction (motive := fun ref => ∃ height tree,
          treeOf objects.nodes height ref = .ok tree) bounded inside
        fun ref bound below => exists_treeOf bound below

end Recursion

/-- A call that makes no link: every node hash keeps the children it has. -/
structure Objects.SameLinks (objects objects' : Objects) : Prop where
  grows : objects.nodes.length ≤ objects'.nodes.length
  held : ∀ ref, some ref ∈ objects'.predexps →
    some ref ∈ objects.predexps ∨ ref < objects'.nodes.length
  same : ∀ ref, childrenOf objects'.nodes ref = childrenOf objects.nodes ref

/-- A call that makes one link, between node hashes that exist. -/
structure Objects.OneLink (objects objects' : Objects) (parent child : ℕ) : Prop where
  grows : objects.nodes.length ≤ objects'.nodes.length
  held : ∀ ref, some ref ∈ objects'.predexps →
    some ref ∈ objects.predexps ∨ ref < objects'.nodes.length
  exists_ : child < objects.nodes.length
  linked : ∀ from_ to_, objects'.Linked from_ to_ ↔
    Links.withLink objects.Linked parent child from_ to_

section Steps

variable {objects objects' : Objects} {self : ℕ}

theorem findNode_eq_ok {nodes : List PredExpNode} {ref : ℕ} {own : PredExpNode} :
    findNode nodes ref = .ok own ↔ nodes[ref]? = some own := by
  unfold findNode
  cases nodes[ref]? <;> simp

theorem node_eq_ok {child : ℕ} (handed : PredExpNode.node self objects = .ok child) :
    child = self ∧ self < objects.nodes.length := by
  simp only [PredExpNode.node, ExceptLoop.bind_eq_ok, findNode_eq_ok] at handed
  rcases handed with ⟨own, read, handed⟩
  split at handed
  · cases handed
  · cases handed
    exact ⟨rfl, (List.getElem?_eq_some_iff.mp read).1⟩

theorem Objects.SameLinks.refl : objects.SameLinks objects :=
  ⟨le_refl _, fun _ => Or.inl, fun _ => rfl⟩

theorem Objects.sameLinks_update {change : PredExpNode → PredExpNode}
    (same : ∀ own, (change own).andNodes = own.andNodes ∧ (change own).orNodes = own.orNodes) :
    objects.SameLinks (objects.update self change) := by
  refine ⟨?_, fun _ => Or.inl, ?_⟩
  · simp [Objects.update]
  · intro ref
    simp only [childrenOf, Objects.update, List.getElem?_modify]
    cases objects.nodes[ref]? with
    | none => rfl
    | some own =>
        by_cases changed : self = ref
        · simp [changed, (same own).1, (same own).2]
        · simp [changed]

theorem Objects.sameLinks_new {bin : RbVal} : objects.SameLinks (PredExpNode.new bin objects) := by
  refine ⟨?_, fun _ => Or.inl, ?_⟩
  · simp [PredExpNode.new]
  · intro ref
    simp only [childrenOf, PredExpNode.new]
    rcases lt_trichotomy ref objects.nodes.length with old | rfl | later
    · rw [List.getElem?_append_left old]
    · simp
    · rw [List.getElem?_eq_none (by simp; omega), List.getElem?_eq_none (by omega)]

/-- Putting a node hash into another makes just this link. -/
theorem Objects.oneLink_update {child : ℕ} {change : PredExpNode → PredExpNode}
    (parentExists : self < objects.nodes.length) (childExists : child < objects.nodes.length)
    (added : ∀ own to_, to_ ∈ (change own).andNodes ++ (change own).orNodes ↔
      to_ ∈ own.andNodes ++ own.orNodes ∨ to_ = child) :
    objects.OneLink (objects.update self change) self child := by
  refine ⟨?_, fun _ => Or.inl, childExists, ?_⟩
  · simp [Objects.update]
  · intro from_ to_
    simp only [Objects.Linked, Links.withLink, childrenOf, Objects.update, List.getElem?_modify]
    by_cases changed : self = from_
    · subst changed
      simp only [List.getElem?_eq_getElem parentExists, if_true, Option.elim_some,
        true_and]
      exact added _ _
    · have other : ¬from_ = self := fun same => changed same.symm
      simp [changed, other]

theorem Objects.OneLink.sameLinks {objects'' : Objects} {parent child : ℕ}
    (first : objects.OneLink objects' parent child) (second : objects'.SameLinks objects'') :
    objects.OneLink objects'' parent child := by
  refine ⟨first.grows.trans second.grows, ?_, first.exists_, ?_⟩
  · intro ref held
    rcases second.held ref held with earlier | fresh
    · rcases first.held ref earlier with old | bound
      · exact Or.inl old
      · exact Or.inr (lt_of_lt_of_le bound second.grows)
    · exact Or.inr fresh
  · intro from_ to_
    rw [← first.linked, Objects.Linked, second.same]
    rfl

theorem sameLinks_defineComparsionMethod {name : String} {classes : List RbClass} {val : Arg}
    (returns : PredExpNode.defineComparsionMethod name classes self val objects = .ok objects') :
    objects.SameLinks objects' := by
  rcases defineComparsionMethod_eq_ok returns with ⟨value, _, rfl⟩
  exact Objects.sameLinks_update fun own => ⟨rfl, rfl⟩

theorem sameLinks_geoMethod {name : String} {val : Arg}
    (returns : PredExpNode.geoMethod name self val objects = .ok objects') :
    objects.SameLinks objects' := by
  rcases geoMethod_eq_ok returns with ⟨value, _, rfl⟩
  exact Objects.sameLinks_update fun own => ⟨rfl, rfl⟩

theorem sameLinks_not (returns : PredExpNode.not self objects = .ok objects') :
    objects.SameLinks objects' := by
  rw [← not_eq_ok returns]
  exact Objects.sameLinks_update fun own => ⟨rfl, rfl⟩

theorem sameLinks_recordMethod {name : String}
    (returns : PredExpNode.recordMethod name self objects = .ok objects') :
    objects.SameLinks objects' := by
  rw [← recordMethod_eq_ok returns]
  exact Objects.sameLinks_update fun own => ⟨rfl, rfl⟩

theorem sameLinks_setCollection {collection pred : String} :
    objects.SameLinks (PredExpNode.setCollection collection pred self objects) :=
  Objects.sameLinks_update fun _ => ⟨rfl, rfl⟩

variable {depth : ℕ}

theorem sameLinks_setCollectionVals {collection pred : String}
    {draws : List (Fin 26 × Fin 26 × Fin 26)}
    (returns : PredExpNode.setCollectionVals depth collection pred draws self objects =
      .ok objects') :
    objects.SameLinks objects' := by
  rcases setCollectionVals_eq_ok returns with ⟨vars, nodeVar, _, _, rfl⟩
  exact Objects.sameLinks_update fun own => ⟨rfl, rfl⟩

theorem sameLinks_setAllVars (returns : PredExpNode.setAllVars depth self objects = .ok objects') :
    objects.SameLinks objects' := by
  rcases setAllVars_eq_ok returns with ⟨vars, rfl⟩
  exact Objects.sameLinks_update fun own => ⟨rfl, rfl⟩

theorem sameLinks_aref {rt : Runtime} {bin : RbVal}
    (returns : PredExp.aref rt bin objects = .ok objects') : objects.SameLinks objects' := by
  rcases aref_eq_ok returns with ⟨text, rfl⟩
  exact Objects.sameLinks_new

theorem sameLinks_where {val : Arg} (returns : PredExp.where_ self val objects = .ok objects') :
    objects.SameLinks objects' := by
  rcases where_eq_ok returns with ⟨_, child, reader, rfl⟩
  rcases node_eq_ok reader with ⟨rfl, bound⟩
  refine ⟨le_refl _, ?_, fun _ => rfl⟩
  intro ref held
  rcases List.mem_or_eq_of_mem_set held with old | fresh
  · exact Or.inl old
  · cases fresh
    exact Or.inr bound

theorem nodeLink_eq_ok {val : Arg} {parent child : ℕ}
    (links : nodeLink self val objects = .ok (parent, child)) :
    parent = self ∧ self < objects.nodes.length ∧ child < objects.nodes.length := by
  simp only [nodeLink, ExceptLoop.bind_eq_ok, findNode_eq_ok] at links
  rcases links with ⟨own, read, other, _, handed, reader, same⟩
  cases same
  rcases node_eq_ok reader with ⟨rfl, bound⟩
  exact ⟨rfl, (List.getElem?_eq_some_iff.mp read).1, bound⟩

theorem predexpLink_eq_ok {val : Arg} {parent child : ℕ}
    (links : predexpLink self val objects = .ok (parent, child)) :
    PredExp.predexp self objects = .ok parent ∧ child < objects.nodes.length := by
  simp only [predexpLink, ExceptLoop.bind_eq_ok] at links
  rcases links with ⟨other, _, held, read, handed, reader, same⟩
  cases same
  rcases node_eq_ok reader with ⟨rfl, bound⟩
  exact ⟨read, bound⟩

theorem and_eq_bind {val : Arg} :
    PredExpNode.and depth self val objects = nodeLink self val objects >>= fun link =>
      PredExpNode.setAllVars depth self (objects.update self (PredExpNode.pushAnd link.2)) := by
  simp only [PredExpNode.and, nodeLink, bind_assoc]
  rfl

theorem or_eq_bind {val : Arg} :
    PredExpNode.or depth self val objects = nodeLink self val objects >>= fun link =>
      PredExpNode.setAllVars depth self (objects.update self (PredExpNode.pushOr link.2)) := by
  simp only [PredExpNode.or, nodeLink, bind_assoc]
  rfl

/-- What a call leaves: the links as they were, or one link more. -/
def LeavesLinks (rt : Runtime) (depth : ℕ) (objects : Objects) (call : Call) : Prop :=
  (call.link objects = none ∧ objects.SameLinks (call.leave rt depth objects)) ∨
    ∃ parent child, call.link objects = some (parent, child) ∧
      objects.OneLink (call.leave rt depth objects) parent child

variable {rt : Runtime}

theorem leavesLinks_of_same {call : Call} (noLink : call.link objects = none)
    (returned : ∀ objects', call.perform rt depth objects = .ok objects' →
      objects.SameLinks objects')
    (raised : objects.SameLinks (call.abandon objects)) : LeavesLinks rt depth objects call := by
  refine Or.inl ⟨noLink, ?_⟩
  unfold Call.leave
  cases performed : call.perform rt depth objects with
  | ok objects' => exact returned objects' performed
  | error stop => exact raised

/-- `and` and `or` of a PredExpNode make their link before `get_vars_from_hash` can raise. -/
theorem leavesLinks_of_nodeLink {call : Call} {val : Arg} {change : ℕ → PredExpNode → PredExpNode}
    (added : ∀ child own to_, to_ ∈ (change child own).andNodes ++ (change child own).orNodes ↔
      to_ ∈ own.andNodes ++ own.orNodes ∨ to_ = child)
    (links : call.link objects = (nodeLink self val objects).toOption)
    (performs : call.perform rt depth objects = nodeLink self val objects >>= fun link =>
      PredExpNode.setAllVars depth self (objects.update self (change link.2)))
    (abandons : call.abandon objects =
      match nodeLink self val objects with
      | .ok (_, child) => objects.update self (change child)
      | .error _ => objects) :
    LeavesLinks rt depth objects call := by
  cases made : nodeLink self val objects with
  | error stop =>
      rw [made] at links performs abandons
      refine Or.inl ⟨links, ?_⟩
      have stopped : call.perform rt depth objects = .error stop := performs
      simp only [Call.leave, stopped, abandons]
      exact Objects.SameLinks.refl
  | ok link =>
      rcases link with ⟨parent, child⟩
      rw [made] at links performs abandons
      rcases nodeLink_eq_ok made with ⟨rfl, parentExists, childExists⟩
      have linked := Objects.oneLink_update parentExists childExists (added child)
      refine Or.inr ⟨parent, child, links, ?_⟩
      have performed : call.perform rt depth objects =
          PredExpNode.setAllVars depth parent (objects.update parent (change child)) := performs
      unfold Call.leave
      cases finished : PredExpNode.setAllVars depth parent
          (objects.update parent (change child)) with
      | ok objects' =>
          rw [performed, finished]
          exact linked.sameLinks (sameLinks_setAllVars finished)
      | error stop =>
          rw [performed, finished, abandons]
          exact linked

theorem leavesLinks_of_predexpLink (closed : objects.Closed) {call : Call} {val : Arg}
    {change : ℕ → PredExpNode → PredExpNode}
    (added : ∀ child own to_, to_ ∈ (change child own).andNodes ++ (change child own).orNodes ↔
      to_ ∈ own.andNodes ++ own.orNodes ∨ to_ = child)
    (links : call.link objects = (predexpLink self val objects).toOption)
    (performs : call.perform rt depth objects = predexpLink self val objects >>= fun link =>
      .ok (objects.update link.1 (change link.2)))
    (abandons : call.abandon objects = objects) :
    LeavesLinks rt depth objects call := by
  cases made : predexpLink self val objects with
  | error stop =>
      rw [made] at links performs
      refine Or.inl ⟨links, ?_⟩
      have stopped : call.perform rt depth objects = .error stop := performs
      simp only [Call.leave, stopped, abandons]
      exact Objects.SameLinks.refl
  | ok link =>
      rcases link with ⟨parent, child⟩
      rw [made] at links performs
      rcases predexpLink_eq_ok made with ⟨read, childExists⟩
      have parentExists : parent < objects.nodes.length := by
        simp only [PredExp.predexp, PredExp.content, ExceptLoop.bind_eq_ok] at read
        rcases read with ⟨held, content, read⟩
        cases found : objects.predexps[self]? with
        | none =>
            rw [found] at content
            cases content
        | some held' =>
            rw [found] at content
            cases content
            cases held with
            | none => cases read
            | some ref =>
                cases read
                exact closed.held _ (List.mem_of_getElem? found)
      refine Or.inr ⟨parent, child, links, ?_⟩
      have performed : call.perform rt depth objects =
          .ok (objects.update parent (change child)) := performs
      simp only [Call.leave, performed]
      exact Objects.oneLink_update parentExists childExists (added child)

theorem mem_pushAnd (child : ℕ) (own : PredExpNode) (to_ : ℕ) :
    to_ ∈ (own.pushAnd child).andNodes ++ (own.pushAnd child).orNodes ↔
      to_ ∈ own.andNodes ++ own.orNodes ∨ to_ = child := by
  simp only [PredExpNode.pushAnd, List.mem_append, List.mem_singleton]
  tauto

theorem mem_pushOr (child : ℕ) (own : PredExpNode) (to_ : ℕ) :
    to_ ∈ (own.pushOr child).andNodes ++ (own.pushOr child).orNodes ↔
      to_ ∈ own.andNodes ++ own.orNodes ∨ to_ = child := by
  simp only [PredExpNode.pushOr, List.mem_append, List.mem_singleton]
  tauto

theorem Call.leavesLinks (closed : objects.Closed) (call : Call) :
    LeavesLinks rt depth objects call := by
  cases call with
  | newString | newSymbol | predexpRecord =>
      apply leavesLinks_of_same rfl _ .refl
      rintro _ ⟨⟩
      exact Objects.sameLinks_new
  | eq | notEq | gt | gteq | lt | lteq | regexp =>
      exact leavesLinks_of_same rfl (fun _ => sameLinks_defineComparsionMethod) .refl
  | within | contains => exact leavesLinks_of_same rfl (fun _ => sameLinks_geoMethod) .refl
  | not self => exact leavesLinks_of_same rfl (fun _ => sameLinks_not) .refl
  | and self val => exact leavesLinks_of_nodeLink mem_pushAnd rfl and_eq_bind rfl
  | or self val => exact leavesLinks_of_nodeLink mem_pushOr rfl or_eq_bind rfl
  | lastUpdate | expirationTime =>
      exact leavesLinks_of_same rfl (fun _ => sameLinks_recordMethod) .refl
  | listAnd | listOr | mapKeyAnd | mapKeyOr | mapValAnd | mapValOr =>
      exact leavesLinks_of_same rfl (fun _ => sameLinks_setCollectionVals) sameLinks_setCollection
  | predexpNew =>
      apply leavesLinks_of_same rfl _ .refl
      rintro _ ⟨⟩
      refine ⟨le_refl _, fun ref held => ?_, fun _ => rfl⟩
      left
      simpa [PredExp.new] using held
  | predexpAref bin => exact leavesLinks_of_same rfl (fun _ => sameLinks_aref) .refl
  | predexpWhere self val => exact leavesLinks_of_same rfl (fun _ => sameLinks_where) .refl
  | predexpAnd self val =>
      refine leavesLinks_of_predexpLink closed mem_pushAnd rfl ?_ rfl
      simp only [Call.perform, PredExp.and, predexpLink, bind_assoc]
      rfl
  | predexpOr self val =>
      refine leavesLinks_of_predexpLink closed mem_pushOr rfl ?_ rfl
      simp only [Call.perform, PredExp.or, predexpLink, bind_assoc]
      rfl

theorem Objects.Closed.leave (closed : objects.Closed) (call : Call) :
    (call.leave rt depth objects).Closed := by
  rcases call.leavesLinks closed with ⟨_, same⟩ | ⟨parent, child, _, one⟩
  · constructor
    · intro from_ to_ linked
      rw [Objects.Linked, same.same] at linked
      exact lt_of_lt_of_le (closed.children from_ to_ linked) same.grows
    · intro ref held
      rcases same.held ref held with old | bound
      · exact lt_of_lt_of_le (closed.held ref old) same.grows
      · exact bound
  · constructor
    · intro from_ to_ linked
      rcases (one.linked from_ to_).mp linked with old | ⟨_, rfl⟩
      · exact lt_of_lt_of_le (closed.children from_ to_ old) one.grows
      · exact lt_of_lt_of_le one.exists_ one.grows
    · intro ref held
      rcases one.held ref held with old | bound
      · exact lt_of_lt_of_le (closed.held ref old) one.grows
      · exact bound

theorem acyclic_leave_iff (closed : objects.Closed) (acyclic : Links.Acyclic objects.Linked)
    (call : Call) :
    Links.Acyclic (call.leave rt depth objects).Linked ↔ call.NoReturn objects := by
  rcases @Call.leavesLinks objects depth rt closed call with
    ⟨noLink, same⟩ | ⟨parent, child, link, one⟩
  · apply iff_of_true
    · refine (Links.acyclic_congr fun from_ to_ => ?_).mp acyclic
      rw [Objects.Linked, Objects.Linked, same.same]
    · intro parent child made
      rw [noLink] at made
      cases made
  · rw [Links.acyclic_congr one.linked, Links.acyclic_withLink_iff, and_iff_right acyclic]
    constructor
    · intro noReturn parent' child' made
      rw [link] at made
      cases made
      exact noReturn
    · intro noReturn
      exact noReturn parent child link

/-- From an acyclic state on, the states a program leaves stay acyclic exactly as long as no call
closes a cycle. -/
theorem acyclic_leaveAll_iff {calls : List Call} (closed : objects.Closed)
    (acyclic : Links.Acyclic objects.Linked) :
    (∀ before, before <+: calls →
        Links.Acyclic (leaveAll rt depth objects before).Linked) ↔
      ∀ before call, before ++ [call] <+: calls →
        call.NoReturn (leaveAll rt depth objects before) := by
  have kept : ∀ (objects : Objects) (call : Call), objects.Closed →
      (call.leave rt depth objects).Closed :=
    fun _ call closed => closed.leave call
  have each : ∀ (objects : Objects) (call : Call), objects.Closed →
      Links.Acyclic objects.Linked →
      (Links.Acyclic (call.leave rt depth objects).Linked ↔ call.NoReturn objects) :=
    fun _ call closed acyclic => acyclic_leave_iff closed acyclic call
  exact Transition.foldl_prefix_iff kept each closed acyclic

theorem Objects.Closed.leaveAll (closed : objects.Closed) (calls : List Call) :
    (leaveAll rt depth objects calls).Closed := by
  induction calls generalizing objects with
  | nil => exact closed
  | cons call rest ih => exact ih (closed.leave call)

end Steps

theorem Objects.closed_empty : Objects.Closed {} := by
  constructor
  · intro parent child linked
    cases linked
  · intro ref held
    cases held

theorem Objects.acyclic_empty : Links.Acyclic (Objects.Linked {}) := by
  intro ref cycle
  rcases Relation.TransGen.head'_iff.mp cycle with ⟨child, linked, _⟩
  cases linked

/-- After every call of a program there is no cycle and both recursions end, exactly if no call
puts a node hash below one it already leads to. -/
theorem finite_iff_noReturn (rt : Runtime) (depth : ℕ) (calls : List Call) :
    (∀ before, before <+: calls → (leaveAll rt depth {} before).Finite) ↔
      ∀ before call, before ++ [call] <+: calls →
        call.NoReturn (leaveAll rt depth {} before) := by
  rw [← acyclic_leaveAll_iff Objects.closed_empty Objects.acyclic_empty]
  have each : ∀ before : List Call, (leaveAll rt depth {} before).Finite ↔
      Links.Acyclic (leaveAll rt depth {} before).Linked :=
    fun before => Objects.finite_iff_acyclic (Objects.closed_empty.leaveAll before)
  simp only [each]

/-- `node.lt(10).and(node2.eq("foo")).and(node.gt(100))`, from the documentation of `and`. -/
def documentedChain : List Call :=
  [.newSymbol ⟨ascii "int_bin", .utf8⟩, .newSymbol ⟨ascii "string_bin", .utf8⟩,
    .lt 0 (.value (.integer 10)), .eq 1 (.value (.string ⟨ascii "foo", .utf8⟩)),
    .and 0 (.node 1), .gt 0 (.value (.integer 100)), .and 0 (.node 0)]

/-- The last call of the chain makes a node hash its own child, and no stack is deep enough for
its variables. -/
theorem not_finite_documentedChain :
    ¬(leaveAll .sample 4 {} documentedChain).Finite ∧
      ∀ depth, getVarsFromHash (leaveAll .sample 4 {} documentedChain).nodes depth 0 =
        .error .systemStackError := by
  have own : (leaveAll .sample 4 {} documentedChain).Linked 0 0 := by
    have children : childrenOf (leaveAll .sample 4 {} documentedChain).nodes 0 = [1, 0] := rfl
    rw [Objects.Linked, children]
    simp
  constructor
  · intro finite
    exact finite.acyclic 0 (.single own)
  · intro depth
    induction depth with
    | zero => rfl
    | succ depth ih =>
        have second : getVarsFromHash (leaveAll .sample 4 {} documentedChain).nodes depth 1 =
            .error .systemStackError ∨
          getVarsFromHash (leaveAll .sample 4 {} documentedChain).nodes depth 1 = .ok [] := by
          cases depth with
          | zero => exact Or.inl rfl
          | succ depth => exact Or.inr rfl
        have unfolded : getVarsFromHash (leaveAll .sample 4 {} documentedChain).nodes
            (depth + 1) 0 = (do
          let ands ← ExceptLoop.collect (getVarsFromHash
            (leaveAll .sample 4 {} documentedChain).nodes depth) [1, 0]
          .ok (ands.flatten ++ [])) := rfl
        rw [unfolded]
        simp only [ExceptLoop.collect, ih]
        rcases second with failed | found
        · rw [failed]
          rfl
        · rw [found]
          rfl

end AerospikeCRuby
