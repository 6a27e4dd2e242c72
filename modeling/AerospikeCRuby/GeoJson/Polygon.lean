import AerospikeCRuby.GeoJson.Object
import AerospikeCRuby.Library.ExceptLoop

/-!
# Polygons

`polygon` takes its elements one by one: an Array is a vertex as it is, a GeoJson
gives the vertex of its coordinates, another C struct is refused, and an element
of any other type is passed over.
-/

namespace AerospikeCRuby

namespace GeoJson

variable (rt : Runtime) (json : Json)

/-- The vertex an element of `cords` gives, if it is not passed over. -/
def vertexOf (point : RbVal) : Except Abort (Option RbVal) :=
  match point with
  | .array elements => .ok (some (.array elements))
  | .geoJson geo => do
      let pointPoint ← pointOf json (.geoJson geo)
      .ok (some pointPoint)
  | .data _ =>
      .error (.optionError
        ("[AerospikeC::GeoJson][polygon] point in Polygon must be Array " ++
          "or AerospikeC::GeoJson object"))
  | _ => .ok none

/-- The loop of `polygon`. -/
def polygonFrom : List RbVal → Except Abort (List RbVal)
  | [] => .ok []
  | point :: rest => do
      let vertex ← vertexOf json point
      let polygonPoints ← polygonFrom rest
      .ok (vertex.toList ++ polygonPoints)

def polygon (cords : RbVal) : Except Abort CStr :=
  match cords with
  | .array cords => do
      let _ ← rbAryLenInt cords
      let polygonPoints ← polygonFrom json cords
      new rt json (hash "Polygon" (.array [.array polygonPoints]))
  | _ => .error (.optionError "[AerospikeC::GeoJson][polygon] cords must be an Array")

/-- `polygon_array`, of an Array. -/
def polygonArray (cords : List RbVal) : Except Abort CStr := do
  let _ ← rbAryLenInt cords
  new rt json (hash "Polygon" (.array [.array cords]))

/-- `polygon_obj`, of an Array. -/
def polygonObj (cords : List RbVal) : Except Abort CStr := do
  let _ ← rbAryLenInt cords
  let polygonPoints ← ExceptLoop.collect (pointOf json) cords
  new rt json (hash "Polygon" (.array [.array polygonPoints]))

/-- The element is the point of these coordinates, in one of the two forms. -/
def IsPointAt (x y cord : RbVal) : Prop :=
  cord = .array [x, y] ∨ ∃ p, point rt json x y = .ok p ∧ cord = .geoJson p

/-- A polygon of one ring, with a vertex for every element, and that of a point its
coordinates. -/
structure HasVertices (cords : List RbVal) (geo : CStr) (ring : List RbVal) : Prop where
  polygon : isPolygon json geo = .ok true
  coordinates : coordinates json geo = .ok (.array [.array ring])
  length : ring.length = cords.length
  vertices : ∀ (index : ℕ) cord vertex x y, cords[index]? = some cord →
    ring[index]? = some vertex → IsPointAt rt json x y cord → vertex = .array [x, y]

/-- `polygon` keeps every vertex or raises an OptionError, and the other constructors do as
it does. -/
structure KeepsVertices (cords : List RbVal) : Prop where
  polygon : (∃ message, polygon rt json (.array cords) = .error (.optionError message)) ∨
    ∃ geo ring, polygon rt json (.array cords) = .ok geo ∧ HasVertices rt json cords geo ring
  arrays : (∀ cord ∈ cords, ∃ x y, cord = .array [x, y]) →
    polygonArray rt json cords = GeoJson.polygon rt json (.array cords)
  objects : (∀ cord ∈ cords, ∃ x y p, point rt json x y = .ok p ∧ cord = .geoJson p) →
    polygonObj rt json cords = GeoJson.polygon rt json (.array cords)

/-- `JSON.parse` inverts `to_json` on the Hashes of the ring and of the points in `cords`. -/
structure InvertsPolygon (cords : List RbVal) : Prop where
  ring : ∀ ring, polygonFrom json cords = .ok ring →
    json.Inverts "Polygon" (.array [.array ring])
  points : ∀ x y p, point rt json x y = .ok p → .geoJson p ∈ cords →
    json.Inverts "Point" (.array [x, y])

/-- The coordinates of a GeoJson can be read as an Array. -/
def HasPoint (geo : CStr) : Prop :=
  ∃ vertex, pointOf json (.geoJson geo) = .ok vertex

/-- An Array, or a GeoJson with coordinates. -/
def IsVertex (cord : RbVal) : Prop :=
  (∃ elements, cord = .array elements) ∨ ∃ geo, cord = .geoJson geo ∧ HasPoint json geo

/-- A C struct which is no GeoJson, with no GeoJson before it whose coordinates cannot be read. -/
def ReachesData (cords : List RbVal) : Prop :=
  ∃ before handle after, cords = before ++ .data handle :: after ∧
    ∀ geo, .geoJson geo ∈ before → HasPoint json geo

variable {rt : Runtime} {json : Json} {cords : List RbVal}

theorem polygonFrom_eq :
    polygonFrom json cords = (do
      let vertices ← ExceptLoop.collect (vertexOf json) cords
      .ok vertices.reduceOption) := by
  induction cords with
  | nil => rfl
  | cons cord rest ih =>
      rw [polygonFrom, ih, ExceptLoop.collect]
      cases vertexOf json cord with
      | error failure => rfl
      | ok vertex =>
          cases ExceptLoop.collect (vertexOf json) rest with
          | error failure => rfl
          | ok vertices => cases vertex <;> rfl

theorem isVertex_iff {cord : RbVal} :
    IsVertex json cord ↔ ∃ vertex, vertexOf json cord = .ok (some vertex) := by
  cases cord with
  | array elements => exact iff_of_true (Or.inl ⟨elements, rfl⟩) ⟨_, rfl⟩
  | geoJson geo =>
      simp [IsVertex, HasPoint, vertexOf, ExceptLoop.bind_eq_ok]
  | _ => simp [IsVertex, vertexOf]

/-- The call ends without an OptionError. -/
def RaisesNoOption {α : Type} (result : Except Abort α) : Prop :=
  ∀ message, result ≠ .error (.optionError message)

theorem raisesNoOption_bind {α β : Type} {computation : Except Abort α}
    {next : α → Except Abort β} (first : RaisesNoOption computation)
    (then_ : ∀ value, RaisesNoOption (next value)) : RaisesNoOption (computation >>= next) := by
  intro message failed
  rcases ExceptLoop.bind_eq_error.mp failed with failed | ⟨value, _, failed⟩
  · exact first message failed
  · exact then_ value message failed

theorem raisesNoOption_ok {α : Type} (value : α) :
    RaisesNoOption (.ok value : Except Abort α) := by
  intro message failed
  cases failed

theorem raisesNoOption_mapError {α : Type} (called : Except String α) :
    RaisesNoOption (called.mapError Abort.raised) := by
  intro message failed
  cases called <;> cases failed

theorem raisesNoOption_elim {α : Type} (read : Option α) :
    RaisesNoOption (read.elim (.error .nullDeref) .ok : Except Abort α) := by
  intro message failed
  cases read <;> cases failed

theorem raisesNoOption_hashAref (value : RbVal) (name : String) :
    RaisesNoOption (json.hashAref value name) := by
  cases value with
  | hash entries =>
      rw [Json.hashAref]
      split <;> exact raisesNoOption_ok _
  | _ => exact raisesNoOption_elim _

theorem raisesNoOption_rbAryEntry (value : RbVal) (index : ℕ) :
    RaisesNoOption (json.rbAryEntry value index) := by
  cases value with
  | array elements => exact raisesNoOption_ok _
  | _ => exact raisesNoOption_elim _

theorem raisesNoOption_coordinates (geo : CStr) : RaisesNoOption (coordinates json geo) :=
  raisesNoOption_bind (raisesNoOption_mapError _) fun _ => raisesNoOption_hashAref _ _

theorem raisesNoOption_pointOf (geo : CStr) : RaisesNoOption (pointOf json (.geoJson geo)) :=
  raisesNoOption_bind (raisesNoOption_coordinates geo) fun _ =>
    raisesNoOption_bind (raisesNoOption_rbAryEntry _ _) fun _ =>
      raisesNoOption_bind (raisesNoOption_rbAryEntry _ _) fun _ => raisesNoOption_ok _

theorem vertexOf_eq_optionError {cord : RbVal} {message : String}
    (refused : vertexOf json cord = .error (.optionError message)) :
    ∃ handle, cord = .data handle := by
  cases cord with
  | data handle => exact ⟨handle, rfl⟩
  | geoJson geo =>
      exact absurd refused (raisesNoOption_bind (raisesNoOption_pointOf geo)
        (fun _ => raisesNoOption_ok _) message)
  | _ => cases refused

theorem hasPoint_of_vertexOf {geo : CStr} {vertex : Option RbVal}
    (pushed : vertexOf json (.geoJson geo) = .ok vertex) : HasPoint json geo := by
  rcases ExceptLoop.bind_eq_ok.mp pushed with ⟨point, read, _⟩
  exact ⟨point, read⟩

/-- The loop raises an OptionError exactly where it comes to a foreign C struct. -/
theorem polygonFrom_optionError_iff :
    (∃ message, polygonFrom json cords = .error (.optionError message)) ↔
      ReachesData json cords := by
  constructor
  · rintro ⟨message, failed⟩
    rw [polygonFrom_eq, ExceptLoop.bind_eq_error] at failed
    rcases failed with failed | ⟨_, _, impossible⟩
    · rcases ExceptLoop.collect_eq_error.mp failed with
        ⟨before, cord, after, vertices, rfl, taken, refused⟩
      rcases vertexOf_eq_optionError refused with ⟨handle, rfl⟩
      refine ⟨before, handle, after, rfl, fun geo member => ?_⟩
      rcases Aligned.exists_of_mem taken member with ⟨vertex, _, pushed⟩
      exact hasPoint_of_vertexOf pushed
    · cases impossible
  · rintro ⟨before, handle, after, rfl, readable⟩
    induction before with
    | nil => exact ⟨_, rfl⟩
    | cons cord rest ih =>
        rcases ih fun geo member => readable geo (List.mem_cons_of_mem _ member) with
          ⟨message, failed⟩
        rw [List.cons_append, polygonFrom, failed]
        cases cord with
        | data other => exact ⟨_, rfl⟩
        | geoJson geo =>
            rcases readable geo List.mem_cons_self with ⟨vertex, read⟩
            refine ⟨message, ?_⟩
            rw [vertexOf, read]
            rfl
        | _ => exact ⟨message, rfl⟩

/-- Where every element is a vertex, the loop keeps them all in order. -/
theorem exists_ring (vertices : ∀ cord ∈ cords, IsVertex json cord) :
    ∃ ring, polygonFrom json cords = .ok ring ∧
      List.Forall₂ (fun cord vertex => vertexOf json cord = .ok (some vertex)) cords ring := by
  rcases Aligned.exists_images fun cord member => isVertex_iff.mp (vertices cord member) with
    ⟨ring, aligned⟩
  refine ⟨ring, ?_, aligned⟩
  have collected : ExceptLoop.collect (vertexOf json) cords = .ok (ring.map some) := by
    rw [ExceptLoop.collect_eq_ok, List.forall₂_map_right_iff]
    exact aligned
  rw [polygonFrom_eq, collected]
  simp [bind, Except.bind, List.reduceOption]

/-- A ring as long as the list it is made of leaves no element out. -/
theorem isVertex_of_length {ring : List RbVal} (looped : polygonFrom json cords = .ok ring)
    (length : ring.length = cords.length) : ∀ cord ∈ cords, IsVertex json cord := by
  simp only [polygonFrom_eq, ExceptLoop.bind_eq_ok, ExceptLoop.collect_eq_ok, Except.ok.injEq]
    at looped
  rcases looped with ⟨vertices, aligned, rfl⟩
  rw [aligned.length_eq, List.reduceOption_length_eq_iff] at length
  intro cord member
  rcases Aligned.exists_of_mem aligned member with ⟨vertex, present, pushed⟩
  rcases Option.isSome_iff_exists.mp (length vertex present) with ⟨point, rfl⟩
  exact isVertex_iff.mpr ⟨point, pushed⟩

theorem polygonFrom_arrays (arrays : ∀ cord ∈ cords, ∃ x y, cord = .array [x, y]) :
    polygonFrom json cords = .ok cords := by
  induction cords with
  | nil => rfl
  | cons cord rest ih =>
      rcases arrays cord List.mem_cons_self with ⟨x, y, rfl⟩
      rw [polygonFrom, ih fun other member => arrays other (List.mem_cons_of_mem _ member)]
      rfl

theorem polygonFrom_objects
    (objects : ∀ cord ∈ cords, ∃ x y p, point rt json x y = .ok p ∧ cord = .geoJson p) :
    polygonFrom json cords = ExceptLoop.collect (pointOf json) cords := by
  induction cords with
  | nil => rfl
  | cons cord rest ih =>
      rcases objects cord List.mem_cons_self with ⟨x, y, p, _, rfl⟩
      rw [polygonFrom, ih fun other member => objects other (List.mem_cons_of_mem _ member),
        ExceptLoop.collect, vertexOf]
      cases pointOf json (.geoJson p) <;> rfl

/-- The vertex of a point is the Array of its coordinates. -/
theorem vertexOf_point (inverts : InvertsPolygon rt json cords) {x y cord : RbVal}
    (member : cord ∈ cords) (isPoint : IsPointAt rt json x y cord) :
    vertexOf json cord = .ok (some (.array [x, y])) := by
  rcases isPoint with rfl | ⟨p, made, rfl⟩
  · rfl
  · rcases exists_new rt (inverts.points x y p made member) with ⟨p', made', shows_⟩
    obtain rfl : p = p' := Except.ok.inj (made.symm.trans made')
    rw [vertexOf, shows_.pointOf]
    rfl

theorem hasVertices_of_aligned (inverts : InvertsPolygon rt json cords) {geo : CStr}
    {ring : List RbVal} (shows_ : Shows json "Polygon" (.array [.array ring]) geo)
    (aligned : List.Forall₂ (fun cord vertex => vertexOf json cord = .ok (some vertex))
      cords ring) : HasVertices rt json cords geo ring := by
  refine ⟨?_, shows_.coordinates, aligned.length_eq.symm, ?_⟩
  · rw [isPolygon, shows_.type]
    rfl
  · intro index cord vertex x y here there isPoint
    rcases Aligned.exists_of_getElem? aligned here with ⟨vertex', found, pushed⟩
    rw [there, Option.some.injEq] at found
    subst found
    rw [vertexOf_point inverts (List.mem_of_getElem? here) isPoint, Except.ok.injEq,
      Option.some.injEq] at pushed
    exact pushed.symm

theorem polygon_eq (short : cords.length < 2 ^ 31) :
    polygon rt json (.array cords) = (do
      let ring ← polygonFrom json cords
      new rt json (hash "Polygon" (.array [.array ring]))) := by
  rw [polygon, rbAryLenInt, if_pos short]
  rfl

theorem keepsVertices_of_polygon
    (keeps : (∃ message, polygon rt json (.array cords) = .error (.optionError message)) ∨
      ∃ geo ring, polygon rt json (.array cords) = .ok geo ∧
        HasVertices rt json cords geo ring) : KeepsVertices rt json cords := by
  refine ⟨keeps, fun arrays => ?_, fun objects => ?_⟩
  · rw [polygonArray, polygon, polygonFrom_arrays arrays]
    rfl
  · rw [polygonObj, polygon, polygonFrom_objects objects]

/-- `polygon` keeps every vertex or refuses the list where every element is a vertex or a foreign
C struct stops the loop, and nowhere else. -/
theorem polygon_keeps_iff (inverts : InvertsPolygon rt json cords) :
    KeepsVertices rt json cords ↔
      cords.length < 2 ^ 31 ∧
        (ReachesData json cords ∨ ∀ cord ∈ cords, IsVertex json cord) := by
  constructor
  · rintro ⟨keeps, _, _⟩
    by_cases short : cords.length < 2 ^ 31
    · refine ⟨short, ?_⟩
      rw [polygon_eq short] at keeps
      cases looped : polygonFrom json cords with
      | error failure =>
          rw [looped] at keeps
          rcases keeps with ⟨message, refused⟩ | ⟨_, _, made, _⟩
          · rcases Except.error.inj refused with rfl
            exact Or.inl (polygonFrom_optionError_iff.mp ⟨message, looped⟩)
          · cases made
      | ok ring =>
          rcases exists_new rt (inverts.ring ring looped) with ⟨geo, made, shows_⟩
          rw [looped] at keeps
          simp only [bind, Except.bind, made] at keeps
          rcases keeps with ⟨message, refused⟩ | ⟨geo', ring', made', has⟩
          · cases refused
          · rcases Except.ok.inj made' with rfl
            have same := has.coordinates
            rw [shows_.coordinates] at same
            cases same
            exact Or.inr (isVertex_of_length looped has.length)
    · rw [polygon, rbAryLenInt, if_neg short] at keeps
      rcases keeps with ⟨message, refused⟩ | ⟨_, _, made, _⟩
      · cases refused
      · cases made
  · rintro ⟨short, reaches | vertices⟩
    · apply keepsVertices_of_polygon
      rcases polygonFrom_optionError_iff.mpr reaches with ⟨message, failed⟩
      refine Or.inl ⟨message, ?_⟩
      rw [polygon_eq short, failed]
      rfl
    · apply keepsVertices_of_polygon
      rcases exists_ring vertices with ⟨ring, looped, aligned⟩
      rcases exists_new rt (inverts.ring ring looped) with ⟨geo, made, shows_⟩
      refine Or.inr ⟨geo, ring, ?_, hasVertices_of_aligned inverts shows_ aligned⟩
      rw [polygon_eq short, looped]
      exact made

/-- `[[1, 2], "3,4", [5, 6]]`. -/
def mixedCords : List RbVal :=
  [.array [.integer 1, .integer 2], .string ⟨ascii "3,4", .utf8⟩,
    .array [.integer 5, .integer 6]]

/-- The gem with the Hash of the two vertices that are left. -/
def mixedJson : Json :=
  Json.sample [parsedHash "Polygon" (.array [.array
    [.array [.integer 1, .integer 2], .array [.integer 5, .integer 6]]])]

theorem mixedJson_inverts : InvertsPolygon Runtime.sample mixedJson mixedCords := by
  refine ⟨fun ring looped => ?_, fun x y p _ member => ?_⟩
  · rcases Except.ok.inj looped with rfl
    exact ⟨_, rfl, by decide, rfl⟩
  · simp [mixedCords] at member

theorem polygon_keeps_iff_mixed :
    KeepsVertices Runtime.sample mixedJson mixedCords ↔
      mixedCords.length < 2 ^ 31 ∧
        (ReachesData mixedJson mixedCords ∨ ∀ cord ∈ mixedCords, IsVertex mixedJson cord) :=
  polygon_keeps_iff mixedJson_inverts

/-- The String is passed over: the ring has two vertices for three elements. -/
theorem polygon_drops_string :
    ¬KeepsVertices Runtime.sample mixedJson mixedCords ∧
      ∃ geo, polygon Runtime.sample mixedJson (.array mixedCords) = .ok geo ∧
        coordinates mixedJson geo = .ok (.array [.array
          [.array [.integer 1, .integer 2], .array [.integer 5, .integer 6]]]) := by
  refine ⟨?_, _, rfl, rfl⟩
  rintro ⟨⟨message, refused⟩ | ⟨geo, ring, made, has⟩, _, _⟩
  · cases refused
  · rcases Except.ok.inj made with rfl
    have same := has.coordinates
    cases same
    cases has.length

end GeoJson

end AerospikeCRuby
