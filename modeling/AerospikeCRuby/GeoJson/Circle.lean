import AerospikeCRuby.GeoJson.Object

/-!
# Circles

The four constructors of a circle.  `circle` and `circle_array` push the point
and then the radius; `circle_obj` and `circle_point` build the point and leave
it out, so their circle has no center.
-/

namespace AerospikeCRuby

namespace GeoJson

variable (rt : Runtime) (encs : Encodings) (json : Json)

def circle (point radius : RbVal) : Except Abort CStr := do
  let center ← match point with
    | .array elements => .ok [.array elements]
    | .geoJson geo => do
        let pointPoint ← pointOf json (.geoJson geo)
        .ok [pointPoint]
    | .data _ =>
        .error (.optionError
          "[AerospikeC::GeoJson][circle] point must be Array or AerospikeC::GeoJson object")
    | _ => .ok []
  new rt json (hash "AeroCircle" (.array (center ++ [radius])))

def circleArray (point radius : RbVal) : Except Abort CStr :=
  new rt json (hash "AeroCircle" (.array [point, radius]))

/-- The point is copied, but not pushed. -/
def circleObj (point radius : RbVal) : Except Abort CStr := do
  let _ ← pointOf json point
  new rt json (hash "AeroCircle" (.array [radius]))

/-- The point is made of its coordinates, but not pushed. -/
def circlePoint (_lng _lat radius : RbVal) : Except Abort CStr :=
  new rt json (hash "AeroCircle" (.array [radius]))

/-- A circle with this center and radius. -/
structure IsCircle (x y r : RbVal) (geo : CStr) : Prop where
  coordinates : coordinates json geo = .ok (.array [.array [x, y], r])
  circle : isCircle json geo = .ok true
  lng : lng json geo = .ok x
  lat : lat json geo = .ok y
  radius : radius json geo = .ok r

/-- The circles of one center and radius, by every constructor. -/
def circles (x y r : RbVal) (p : CStr) : List (Except Abort CStr) :=
  [circle rt json (.array [x, y]) r, circle rt json (.geoJson p) r,
    circleArray rt json (.array [x, y]) r, circleObj rt json (.geoJson p) r,
    circlePoint rt json x y r]

/-- All results are GeoJsons, any two of them equal, and each has this center and radius. -/
def Agree (x y r : RbVal) (made : List (Except Abort CStr)) : Prop :=
  ∃ geos, List.Forall₂ (fun result geo => result = .ok geo) made geos ∧
    (∀ geo ∈ geos, ∀ other ∈ geos, compare encs json geo (.geoJson other) = .ok true) ∧
    ∀ geo ∈ geos, IsCircle json x y r geo

variable {rt : Runtime} {encs : Encodings} {json : Json} {x y r : RbVal}

theorem Shows.isCircle {geo : CStr}
    (shows_ : Shows json "AeroCircle" (.array [.array [x, y], r]) geo) :
    IsCircle json x y r geo := by
  have circle : GeoJson.isCircle json geo = .ok true := by
    rw [GeoJson.isCircle, shows_.type]
    rfl
  have point : isPoint json geo = .ok false := by
    rw [isPoint, shows_.type]
    rfl
  refine ⟨shows_.coordinates, circle, ?_, ?_, ?_⟩
  · rw [GeoJson.lng, point, circle, shows_.coordinates]
    rfl
  · rw [GeoJson.lat, point, circle, shows_.coordinates]
    rfl
  · rw [GeoJson.radius, circle, shows_.coordinates]
    rfl

/-- `circle`, on either form of a point, and `circle_array` agree. -/
theorem agree_circle (rt : Runtime) (encs : Encodings)
    (atPoint : json.Inverts "Point" (.array [x, y]))
    (atCircle : json.Inverts "AeroCircle" (.array [.array [x, y], r])) :
    ∃ p, point rt json x y = .ok p ∧
      Agree encs json x y r [circle rt json (.array [x, y]) r, circle rt json (.geoJson p) r,
        circleArray rt json (.array [x, y]) r] := by
  rcases exists_new rt atPoint with ⟨p, madePoint, showsPoint⟩
  rcases exists_new rt atCircle with ⟨geo, made, showsCircle⟩
  have byArray : circle rt json (.array [x, y]) r = .ok geo := made
  have byPoint : circle rt json (.geoJson p) r = .ok geo := by
    rw [circle, showsPoint.pointOf]
    exact made
  refine ⟨p, madePoint, [geo, geo, geo], ?_, ?_, ?_⟩
  · exact .cons byArray (.cons byPoint (.cons made .nil))
  · intro left atLeft right atRight
    simp only [List.mem_cons, List.not_mem_nil, or_false, or_self] at atLeft atRight
    rw [atLeft, atRight, compare_geoJson, decide_eq_true rfl]
  · intro left atLeft
    simp only [List.mem_cons, List.not_mem_nil, or_false, or_self] at atLeft
    rw [atLeft]
    exact showsCircle.isCircle

theorem Agree.circlePoint {p geo : CStr} (agree : Agree encs json x y r (circles rt json x y r p))
    (made : circlePoint rt json x y r = .ok geo) : IsCircle json x y r geo := by
  rcases agree with ⟨geos, results, _, shaped⟩
  have member : GeoJson.circlePoint rt json x y r ∈ circles rt json x y r p := by simp [circles]
  rcases Aligned.exists_of_mem results member with ⟨geo', present, makes⟩
  rw [made, Except.ok.injEq] at makes
  subst makes
  exact shaped geo present

/-- The circles of no center and radius agree: the one of `circle_point` has its radius where the
others have their center. -/
theorem not_agree_circles (rt : Runtime) (encs : Encodings) {json : Json} (x y r : RbVal)
    (bare : json.Inverts "AeroCircle" (.array [r])) (p : CStr) :
    ¬Agree encs json x y r (circles rt json x y r p) := by
  intro agree
  rcases exists_new rt bare with ⟨geo, made, showsBare⟩
  have centered := (agree.circlePoint made).coordinates
  rw [showsBare.coordinates] at centered
  cases centered

/-- The gem with the Hash of a circle of radius 5 without a center. -/
def bareJson : Json :=
  Json.sample [parsedHash "AeroCircle" (.array [.integer 5])]

theorem bareJson_inverts : bareJson.Inverts "AeroCircle" (.array [.integer 5]) :=
  ⟨_, rfl, by decide, rfl⟩

theorem not_agree_circles_bare :
    ¬Agree Encodings.sample bareJson (.integer 1) (.integer 5) (.integer 5)
      (circles Runtime.sample bareJson (.integer 1) (.integer 5) (.integer 5) default) :=
  not_agree_circles Runtime.sample Encodings.sample _ _ _ bareJson_inverts _

/-- The gem with the Hashes of the point (1, 5), of the circle around it and of the bare one. -/
def circleJson : Json :=
  Json.sample [parsedHash "Point" (.array [.integer 1, .integer 5]),
    parsedHash "AeroCircle" (.array [.array [.integer 1, .integer 5], .integer 5]),
    parsedHash "AeroCircle" (.array [.integer 5])]

/-- `circle_point(1, 5, 5)` has the coordinates `[5]` and no radius. -/
theorem circlePoint_loses_center :
    ∃ p geo, point Runtime.sample circleJson (.integer 1) (.integer 5) = .ok p ∧
      circlePoint Runtime.sample circleJson (.integer 1) (.integer 5) (.integer 5) = .ok geo ∧
      coordinates circleJson geo = .ok (.array [.integer 5]) ∧
      radius circleJson geo = .ok .nil ∧
      ¬Agree Encodings.sample circleJson (.integer 1) (.integer 5) (.integer 5)
        (circles Runtime.sample circleJson (.integer 1) (.integer 5) (.integer 5) p) := by
  refine ⟨_, _, rfl, rfl, rfl, rfl, ?_⟩
  intro agree
  have centered := (agree.circlePoint rfl).coordinates
  cases centered

end GeoJson

end AerospikeCRuby
