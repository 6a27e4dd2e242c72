import AerospikeCRuby.PredExp.Meaning

/-!
# Building predicates

The Ruby classes `PredExpNode` and `PredExp`.  A PredExpNode owns a node hash,
and `and`, `or` and `where` store that hash itself, so what is done to the
PredExpNode later shows in every tree the hash is part of.  Objects are numbered
in the order of their creation, and the children of a node hash are the numbers
of the PredExpNodes that own them.

A method either returns, with the objects as it leaves them, or stops.
-/

namespace AerospikeCRuby

/-- A PredExpNode: the entries of its `@node` and `@all_vars`. -/
structure PredExpNode where
  bin : RbVal
  predTrue : Bool := true
  filters : Filters := {}
  andNodes : List ℕ := []
  orNodes : List ℕ := []
  allVars : Option (List RbVal) := none

/-- Every PredExpNode, and the node hash of every PredExp which has one. -/
structure Objects where
  nodes : List PredExpNode := []
  predexps : List (Option ℕ) := []

/-- An argument of a method. -/
inductive Arg where
  | value (val : RbVal)
  | node (ref : ℕ)
  | predexp (ref : ℕ)

/-- How a method fails to return. -/
inductive Stop where
  /-- `AttributeError.new(val, custom_err)`. -/
  | attributeError (val : Arg) (customErr : Option String)
  /-- The recursion of `get_vars_from_hash` has used up the stack. -/
  | systemStackError
  | raised (abort : Abort)
  /-- Every name drawn so far is taken. -/
  | drawing
  | unknownObject

inductive RbClass where
  | integer
  | string
  | geoJson
deriving DecidableEq, Repr

/-- `val.class.ancestors.include?(klass)`. -/
def RbVal.isA : RbVal → RbClass → Bool
  | .integer _, .integer => true
  | .string _, .string => true
  | .geoJson _, .geoJson => true
  | _, _ => false

/-- `check_class` with classes of values. -/
def checkClass (klass : List RbClass) : Arg → Except Stop RbVal
  | .value val =>
      if klass.any val.isA then .ok val else .error (.attributeError (.value val) none)
  | val => .error (.attributeError val none)

/-- `check_class` with `PredExpNode`, and the test `is_a?` of the PredExp methods. -/
def checkNode : Arg → Except Stop ℕ
  | .node ref => .ok ref
  | val => .error (.attributeError val none)

def findNode (nodes : List PredExpNode) (self : ℕ) : Except Stop PredExpNode :=
  nodes[self]?.elim (.error .unknownObject) .ok

def Filters.isEmpty (filters : Filters) : Bool :=
  filters.filter.isNone && filters.value.isNone && filters.recMethod.isNone &&
    filters.collection.isNone && filters.collectionPred.isNone && filters.collectionVar.isNone

def Objects.update (objects : Objects) (self : ℕ) (change : PredExpNode → PredExpNode) : Objects :=
  { objects with nodes := objects.nodes.modify self change }

/-- The collection variables of a tree of node hashes, nil left out.  The recursion holds `depth`
frames on the stack at most. -/
def getVarsFromHash (nodes : List PredExpNode) : ℕ → ℕ → Except Stop (List RbVal)
  | 0, _ => .error .systemStackError
  | depth + 1, ref => do
      let h ← findNode nodes ref
      let ands ← ExceptLoop.collect (getVarsFromHash nodes depth) h.andNodes
      let ors ← ExceptLoop.collect (getVarsFromHash nodes depth) h.orNodes
      .ok (h.filters.collectionVar.toList ++ ands.flatten ++ ors.flatten)

/-- `(0...3).map { (65 + rand(26)).chr }.join`. -/
def drawnName (draw : Fin 26 × Fin 26 × Fin 26) : RbStr where
  bytes := [draw.1, draw.2.1, draw.2.2].map fun letter => UInt8.ofNat (65 + letter)
  encoding := ⟨"US-ASCII"⟩

def RbVal.isText (text : RbStr) : RbVal → Bool
  | .string held => held.bytes == text.bytes
  | _ => false

namespace PredExpNode

/-- `initialize`. -/
def new (bin : RbVal) (objects : Objects) : Objects :=
  { objects with nodes := objects.nodes ++ [{ bin }] }

/-- The reader `node`, which hands out the node hash itself. -/
def node (self : ℕ) (objects : Objects) : Except Stop ℕ := do
  let own ← findNode objects.nodes self
  if own.filters.isEmpty then .error (.attributeError (.value .nil) (some "Empty node"))
  else .ok self

def addVal (self : ℕ) (mthd : String) (val : RbVal) (objects : Objects) : Objects :=
  objects.update self fun own =>
    { own with filters := { own.filters with filter := some (sym mthd), value := some val } }

/-- The methods which `define_comparsion_method` defines. -/
def defineComparsionMethod (name : String) (classes : List RbClass) (self : ℕ) (val : Arg)
    (objects : Objects) : Except Stop Objects := do
  let _ ← findNode objects.nodes self
  let val ← checkClass classes val
  .ok (addVal self name val objects)

def eq := defineComparsionMethod "eq" [.integer, .string]
def notEq := defineComparsionMethod "not_eq" [.integer, .string]
def gt := defineComparsionMethod "gt" [.integer]
def gteq := defineComparsionMethod "gteq" [.integer]
def lt := defineComparsionMethod "lt" [.integer]
def lteq := defineComparsionMethod "lteq" [.integer]
def regexp := defineComparsionMethod "regexp" [.string]

def not (self : ℕ) (objects : Objects) : Except Stop Objects := do
  let _ ← findNode objects.nodes self
  .ok (objects.update self fun own => { own with predTrue := false })

/-- `within` and `contains`. -/
def geoMethod (name : String) (self : ℕ) (val : Arg) (objects : Objects) :
    Except Stop Objects := do
  let own ← findNode objects.nodes self
  if own.bin.isSym "record" then
    .error (.attributeError (.value .nil) (some "invalid function for record predicate"))
  else
    let val ← checkClass [.geoJson] val
    .ok (addVal self name val objects)

def within := geoMethod "within"
def contains := geoMethod "contains"

/-- `last_update` and `expiration_time`. -/
def recordMethod (name : String) (self : ℕ) (objects : Objects) : Except Stop Objects := do
  let own ← findNode objects.nodes self
  if own.bin.isSym "record" then
    .ok (objects.update self fun own =>
      { own with filters := { own.filters with recMethod := some (sym name) } })
  else
    .error (.attributeError (.value .nil) (some "not a record predicate"))

def lastUpdate := recordMethod "last_update"
def expirationTime := recordMethod "expiration_time"

variable (depth : ℕ)

/-- `@all_vars = get_vars_from_hash(@node)`. -/
def setAllVars (self : ℕ) (objects : Objects) : Except Stop Objects := do
  let vars ← getVarsFromHash objects.nodes depth self
  .ok (objects.update self fun own => { own with allVars := some vars })

def and (self : ℕ) (val : Arg) (objects : Objects) : Except Stop Objects := do
  let _ ← findNode objects.nodes self
  let other ← checkNode val
  let child ← node other objects
  setAllVars depth self
    (objects.update self fun own => { own with andNodes := own.andNodes ++ [child] })

def or (self : ℕ) (val : Arg) (objects : Objects) : Except Stop Objects := do
  let _ ← findNode objects.nodes self
  let other ← checkNode val
  let child ← node other objects
  setAllVars depth self
    (objects.update self fun own => { own with orNodes := own.orNodes ++ [child] })

def getAllVars (self : ℕ) (objects : Objects) : Except Stop (List RbVal) := do
  let own ← findNode objects.nodes self
  own.allVars.elim (getVarsFromHash objects.nodes depth self) .ok

/-- The loop draws until a name is free; the draws are what `rand` answers. -/
def setCollectionVals (collection pred : String) (draws : List (Fin 26 × Fin 26 × Fin 26))
    (self : ℕ) (objects : Objects) : Except Stop Objects := do
  let vars ← getAllVars depth self objects
  match (draws.map drawnName).find? fun name => !vars.any (·.isText name) with
  | some nodeVar =>
      .ok (objects.update self fun own =>
        { own with
          filters :=
            { own.filters with
              collection := some (sym collection)
              collectionPred := some (sym pred)
              collectionVar := some (.string nodeVar) }
          allVars := some vars })
  | none => .error .drawing

def listAnd := setCollectionVals depth "array" "and"
def listOr := setCollectionVals depth "array" "or"
def mapKeyAnd := setCollectionVals depth "mapkey" "and"
def mapKeyOr := setCollectionVals depth "mapkey" "or"
def mapValAnd := setCollectionVals depth "mapval" "and"
def mapValOr := setCollectionVals depth "mapval" "or"

end PredExpNode

namespace PredExp

def new (objects : Objects) : Objects :=
  { objects with predexps := objects.predexps ++ [none] }

/-- The method `[]`. -/
def aref (rt : Runtime) (bin : RbVal) (objects : Objects) : Except Stop Objects := do
  let text ← (rt.toS bin).mapError .raised
  .ok (PredExpNode.new (.string text) objects)

def record (objects : Objects) : Objects :=
  PredExpNode.new (sym "record") objects

/-- The node hash in `@predexp`. -/
def content (self : ℕ) (objects : Objects) : Except Stop (Option ℕ) :=
  objects.predexps[self]?.elim (.error .unknownObject) .ok

def where_ (self : ℕ) (val : Arg) (objects : Objects) : Except Stop Objects := do
  let _ ← content self objects
  let other ← checkNode val
  let child ← PredExpNode.node other objects
  .ok { objects with predexps := objects.predexps.set self (some child) }

/-- What `and` and `or` add to.  The text meant for the error is passed as its backtrace. -/
def predexp (self : ℕ) (objects : Objects) : Except Stop ℕ := do
  let held ← content self objects
  held.elim (.error (.attributeError (.value .nil) none)) .ok

def and (self : ℕ) (val : Arg) (objects : Objects) : Except Stop Objects := do
  let other ← checkNode val
  let held ← predexp self objects
  let child ← PredExpNode.node other objects
  .ok (objects.update held fun own => { own with andNodes := own.andNodes ++ [child] })

def or (self : ℕ) (val : Arg) (objects : Objects) : Except Stop Objects := do
  let other ← checkNode val
  let held ← predexp self objects
  let child ← PredExpNode.node other objects
  .ok (objects.update held fun own => { own with orNodes := own.orNodes ++ [child] })

end PredExp

/-- The calls of a program which builds predicates. -/
inductive Call where
  | newString (bin : RbStr)
  | newSymbol (bin : RbStr)
  | eq (self : ℕ) (val : Arg)
  | notEq (self : ℕ) (val : Arg)
  | gt (self : ℕ) (val : Arg)
  | gteq (self : ℕ) (val : Arg)
  | lt (self : ℕ) (val : Arg)
  | lteq (self : ℕ) (val : Arg)
  | regexp (self : ℕ) (val : Arg)
  | within (self : ℕ) (val : Arg)
  | contains (self : ℕ) (val : Arg)
  | not (self : ℕ)
  | and (self : ℕ) (val : Arg)
  | or (self : ℕ) (val : Arg)
  | lastUpdate (self : ℕ)
  | expirationTime (self : ℕ)
  | listAnd (self : ℕ) (draws : List (Fin 26 × Fin 26 × Fin 26))
  | listOr (self : ℕ) (draws : List (Fin 26 × Fin 26 × Fin 26))
  | mapKeyAnd (self : ℕ) (draws : List (Fin 26 × Fin 26 × Fin 26))
  | mapKeyOr (self : ℕ) (draws : List (Fin 26 × Fin 26 × Fin 26))
  | mapValAnd (self : ℕ) (draws : List (Fin 26 × Fin 26 × Fin 26))
  | mapValOr (self : ℕ) (draws : List (Fin 26 × Fin 26 × Fin 26))
  | predexpNew
  | predexpAref (bin : RbVal)
  | predexpRecord
  | predexpWhere (self : ℕ) (val : Arg)
  | predexpAnd (self : ℕ) (val : Arg)
  | predexpOr (self : ℕ) (val : Arg)

variable (rt : Runtime) (depth : ℕ)

def Call.perform : Call → Objects → Except Stop Objects
  | .newString bin, objects => .ok (PredExpNode.new (.string bin) objects)
  | .newSymbol bin, objects => .ok (PredExpNode.new (.symbol bin) objects)
  | .eq self val, objects => PredExpNode.eq self val objects
  | .notEq self val, objects => PredExpNode.notEq self val objects
  | .gt self val, objects => PredExpNode.gt self val objects
  | .gteq self val, objects => PredExpNode.gteq self val objects
  | .lt self val, objects => PredExpNode.lt self val objects
  | .lteq self val, objects => PredExpNode.lteq self val objects
  | .regexp self val, objects => PredExpNode.regexp self val objects
  | .within self val, objects => PredExpNode.within self val objects
  | .contains self val, objects => PredExpNode.contains self val objects
  | .not self, objects => PredExpNode.not self objects
  | .and self val, objects => PredExpNode.and depth self val objects
  | .or self val, objects => PredExpNode.or depth self val objects
  | .lastUpdate self, objects => PredExpNode.lastUpdate self objects
  | .expirationTime self, objects => PredExpNode.expirationTime self objects
  | .listAnd self draws, objects => PredExpNode.listAnd depth draws self objects
  | .listOr self draws, objects => PredExpNode.listOr depth draws self objects
  | .mapKeyAnd self draws, objects => PredExpNode.mapKeyAnd depth draws self objects
  | .mapKeyOr self draws, objects => PredExpNode.mapKeyOr depth draws self objects
  | .mapValAnd self draws, objects => PredExpNode.mapValAnd depth draws self objects
  | .mapValOr self draws, objects => PredExpNode.mapValOr depth draws self objects
  | .predexpNew, objects => .ok (PredExp.new objects)
  | .predexpAref bin, objects => PredExp.aref rt bin objects
  | .predexpRecord, objects => .ok (PredExp.record objects)
  | .predexpWhere self val, objects => PredExp.where_ self val objects
  | .predexpAnd self val, objects => PredExp.and self val objects
  | .predexpOr self val, objects => PredExp.or self val objects

/-- Perform the calls in order, none of which stops. -/
def performAll : List Call → Objects → Except Stop Objects
  | [], objects => .ok objects
  | call :: rest, objects => do
      let objects ← call.perform rt depth objects
      performAll rest objects

section Returns

variable {objects objects' : Objects} {self depth : ℕ}

theorem defineComparsionMethod_eq_ok {name : String} {classes : List RbClass} {val : Arg}
    (returns : PredExpNode.defineComparsionMethod name classes self val objects = .ok objects') :
    ∃ value, checkClass classes val = .ok value ∧
      PredExpNode.addVal self name value objects = objects' := by
  simp only [PredExpNode.defineComparsionMethod, ExceptLoop.bind_eq_ok, Except.ok.injEq] at returns
  rcases returns with ⟨_, _, value, checked, same⟩
  exact ⟨value, checked, same⟩

theorem geoMethod_eq_ok {name : String} {val : Arg}
    (returns : PredExpNode.geoMethod name self val objects = .ok objects') :
    ∃ value, checkClass [.geoJson] val = .ok value ∧
      PredExpNode.addVal self name value objects = objects' := by
  simp only [PredExpNode.geoMethod, ExceptLoop.bind_eq_ok] at returns
  rcases returns with ⟨own, _, returns⟩
  split at returns
  · cases returns
  · rcases ExceptLoop.bind_eq_ok.mp returns with ⟨value, checked, same⟩
    exact ⟨value, checked, Except.ok.inj same⟩

theorem not_eq_ok (returns : PredExpNode.not self objects = .ok objects') :
    objects.update self (fun own => { own with predTrue := false }) = objects' := by
  simp only [PredExpNode.not, ExceptLoop.bind_eq_ok, Except.ok.injEq] at returns
  rcases returns with ⟨_, _, same⟩
  exact same

theorem recordMethod_eq_ok {name : String}
    (returns : PredExpNode.recordMethod name self objects = .ok objects') :
    objects.update self (fun own =>
      { own with filters := { own.filters with recMethod := some (sym name) } }) = objects' := by
  simp only [PredExpNode.recordMethod, ExceptLoop.bind_eq_ok] at returns
  rcases returns with ⟨own, _, returns⟩
  split at returns
  · exact Except.ok.inj returns
  · cases returns

theorem setAllVars_eq_ok (returns : PredExpNode.setAllVars depth self objects = .ok objects') :
    ∃ vars, objects.update self (fun own => { own with allVars := some vars }) = objects' := by
  simp only [PredExpNode.setAllVars, ExceptLoop.bind_eq_ok, Except.ok.injEq] at returns
  rcases returns with ⟨vars, _, same⟩
  exact ⟨vars, same⟩

theorem setCollectionVals_eq_ok {collection pred : String}
    {draws : List (Fin 26 × Fin 26 × Fin 26)}
    (returns : PredExpNode.setCollectionVals depth collection pred draws self objects =
      .ok objects') :
    ∃ vars nodeVar, PredExpNode.getAllVars depth self objects = .ok vars ∧
      ((draws.map drawnName).find? fun name => !vars.any (·.isText name)) = some nodeVar ∧
      objects.update self (fun own =>
        { own with
          filters :=
            { own.filters with
              collection := some (sym collection)
              collectionPred := some (sym pred)
              collectionVar := some (.string nodeVar) }
          allVars := some vars }) = objects' := by
  simp only [PredExpNode.setCollectionVals, ExceptLoop.bind_eq_ok] at returns
  rcases returns with ⟨vars, read, returns⟩
  split at returns
  · rename_i nodeVar free
    exact ⟨vars, nodeVar, read, free, Except.ok.inj returns⟩
  · cases returns

theorem aref_eq_ok {rt : Runtime} {bin : RbVal}
    (returns : PredExp.aref rt bin objects = .ok objects') :
    ∃ text, PredExpNode.new (.string text) objects = objects' := by
  simp only [PredExp.aref, ExceptLoop.bind_eq_ok, Except.ok.injEq] at returns
  rcases returns with ⟨text, _, same⟩
  exact ⟨text, same⟩

theorem where_eq_ok {val : Arg} (returns : PredExp.where_ self val objects = .ok objects') :
    ∃ other child, PredExpNode.node other objects = .ok child ∧
      { objects with predexps := objects.predexps.set self (some child) } = objects' := by
  simp only [PredExp.where_, ExceptLoop.bind_eq_ok, Except.ok.injEq] at returns
  rcases returns with ⟨_, _, other, _, child, handed, same⟩
  exact ⟨other, child, handed, same⟩

theorem predexpAnd_eq_ok {val : Arg} (returns : PredExp.and self val objects = .ok objects') :
    ∃ held child, objects.update held (fun own =>
      { own with andNodes := own.andNodes ++ [child] }) = objects' := by
  simp only [PredExp.and, ExceptLoop.bind_eq_ok, Except.ok.injEq] at returns
  rcases returns with ⟨_, _, held, _, child, _, same⟩
  exact ⟨held, child, same⟩

theorem predexpOr_eq_ok {val : Arg} (returns : PredExp.or self val objects = .ok objects') :
    ∃ held child, objects.update held (fun own =>
      { own with orNodes := own.orNodes ++ [child] }) = objects' := by
  simp only [PredExp.or, ExceptLoop.bind_eq_ok, Except.ok.injEq] at returns
  rcases returns with ⟨_, _, held, _, child, _, same⟩
  exact ⟨held, child, same⟩

end Returns

/-- The tree a node hash spans, if no path through it is as long as `height`. -/
def treeOf (nodes : List PredExpNode) : ℕ → ℕ → Except Stop PredNode
  | 0, _ => .error .systemStackError
  | height + 1, ref => do
      let own ← findNode nodes ref
      let ands ← ExceptLoop.collect (treeOf nodes height) own.andNodes
      let ors ← ExceptLoop.collect (treeOf nodes height) own.orNodes
      .ok (.hash own.bin (.bool own.predTrue) (some own.filters) (some ands) (some ors))

/-- What a PredExp holds for the compiler. -/
def predexpTree (objects : Objects) (height : ℕ) (self : ℕ) : Except Stop (Option PredNode) := do
  match ← PredExp.content self objects with
  | none => .ok none
  | some ref => some <$> treeOf objects.nodes height ref

end AerospikeCRuby
