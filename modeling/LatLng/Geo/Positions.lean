import LatLng.Geo.GeoType
import LatLng.Lib.Except

/-! The positions of a GeoJSON document. The check walks the untyped document; the parser reads
positions at the depth that the type of a geometry gives. No position that is read escapes the
check. -/

namespace LatLng.Geo

variable (lib : GeoLib)

/-! ### What the parser reads -/

def coordinateDepth : String → Option Nat
  | "Point" => some 0
  | "MultiPoint" | "LineString" => some 1
  | "MultiLineString" | "Polygon" => some 2
  | "MultiPolygon" => some 3
  | _ => none

def Json.Nested : Nat → Json → Prop
  | 0, .arr (.number _ :: .number _ :: _) => True
  | depth + 1, .arr items => ∀ item ∈ items, Json.Nested depth item
  | _, _ => False

def positions : Nat → Json → List (F64 × F64)
  | 0, .arr (.number lon :: .number lat :: _) => [(lon.asF64 lib, lat.asF64 lib)]
  | depth + 1, .arr items => items.flatMap (positions depth)
  | _, _ => []

inductive Json.HasPosition : Json → F64 × F64 → Prop
  | coordinates {members : List (String × Json)} {kind : String} {depth : Nat} {tree : Json}
      {position : F64 × F64} (htype : Json.get members "type" = some (.str kind))
      (hdepth : coordinateDepth kind = some depth)
      (htree : Json.get members "coordinates" = some tree) (hnested : tree.Nested depth)
      (h : position ∈ positions lib depth tree) : HasPosition (.obj members) position
  | geometries {members : List (String × Json)} {items : List Json} {item : Json}
      {position : F64 × F64}
      (htype : Json.get members "type" = some (.str "GeometryCollection"))
      (hitems : Json.get members "geometries" = some (.arr items)) (hitem : item ∈ items)
      (h : HasPosition item position) : HasPosition (.obj members) position

structure Rfc7946 (coords : lib.Geometry → List (F64 × F64)) : Prop where
  geometry : ∀ {value raw geometry}, lib.parseGeoJson value = .ok (.geometry raw) →
    lib.convert raw = .ok geometry → ∀ c ∈ coords geometry, value.HasPosition lib c
  feature : ∀ {value raw geometry}, lib.parseGeoJson value = .ok (.feature (some raw)) →
    lib.convert raw = .ok geometry → ∀ c ∈ coords geometry,
      ∃ members inner, value = .obj members ∧ Json.get members "geometry" = some inner ∧
        inner.HasPosition lib c

/-! ### What the check covers -/

variable {lib} {items : List Json}

theorem validatePositionTrees_ok (h : validatePositionTrees lib items = .ok ()) :
    ∀ item ∈ items, validatePositionTree lib item = .ok () := by
  induction items with
  | nil => simp
  | cons item items ih =>
    rw [validatePositionTrees] at h
    obtain ⟨_, hitem, hrest⟩ := Lib.bind_eq_ok.1 h
    exact List.forall_mem_cons.2 ⟨hitem, ih hrest⟩

theorem validateGeojsonAll_ok (h : validateGeojsonAll lib items = .ok ()) :
    ∀ item ∈ items, validateGeojsonPositions lib item = .ok () := by
  induction items with
  | nil => simp
  | cons item items ih =>
    rw [validateGeojsonAll] at h
    obtain ⟨_, hitem, hrest⟩ := Lib.bind_eq_ok.1 h
    exact List.forall_mem_cons.2 ⟨hitem, ih hrest⟩

variable {members : List (String × Json)}

theorem validateMember_ok {key : String}
    (h : validateMember lib key members = .ok ()) {inner : Json}
    (hget : Json.get members key = some inner) : validateGeojsonPositions lib inner = .ok () := by
  induction members with
  | nil => cases hget
  | cons member members ih =>
    obtain ⟨k, value⟩ := member
    rw [validateMember] at h
    rw [Json.get, List.lookup_cons] at hget
    by_cases hk : k = key
    · rw [if_pos hk] at h
      simp only [hk, beq_self_eq_true] at hget
      cases hget
      exact h
    · rw [if_neg hk] at h
      rw [beq_false_of_ne (Ne.symm hk)] at hget
      exact ih h hget

theorem validateItems_ok {key : String} (h : validateItems lib key members = .ok ())
    (hget : Json.get members key = some (.arr items)) : validateGeojsonAll lib items = .ok () := by
  induction members with
  | nil => cases hget
  | cons member members ih =>
    obtain ⟨k, value⟩ := member
    rw [Json.get, List.lookup_cons] at hget
    by_cases hk : k = key
    · simp only [hk, beq_self_eq_true] at hget
      cases hget
      rwa [validateItems, if_pos hk] at h
    · rw [beq_false_of_ne (Ne.symm hk)] at hget
      refine ih ?_ hget
      cases value <;> simpa only [validateItems, if_neg hk] using h

theorem validateLatLon_of_nested {depth : Nat} {tree : Json} (hnested : tree.Nested depth)
    (h : validatePositionTree lib tree = .ok ()) :
    ∀ c ∈ positions lib depth tree, validateLatLon lib c.2 c.1 = .ok () := by
  induction depth generalizing tree with
  | zero =>
    match tree, hnested with
    | .arr (.number lon :: .number lat :: _), _ =>
      rw [validatePositionTree] at h
      simpa only [positions, List.forall_mem_singleton] using h
  | succ depth ih =>
    match tree, hnested with
    | .arr items, hitems =>
      -- the first item is an array itself, so the walk goes into every item
      have hall : validatePositionTrees lib items = .ok () := by
        rcases items with _ | ⟨first, rest⟩
        · exact h
        · have hfirst := hitems first List.mem_cons_self
          cases first with
          | number n => cases depth <;> exact hfirst.elim
          | _ => simpa only [validatePositionTree] using h
      intro c hc
      obtain ⟨item, hitem, hc⟩ := List.mem_flatMap.1 hc
      exact ih (hitems item hitem) (validatePositionTrees_ok hall item hitem) c hc

theorem validateGeojsonPositions_obj (h : validateGeojsonPositions lib (.obj members) = .ok ()) :
    (∀ tree, Json.get members "coordinates" = some tree → validatePositionTree lib tree = .ok ()) ∧
      validateMember lib "geometry" members = .ok () ∧
      validateItems lib "geometries" members = .ok () := by
  rw [validateGeojsonPositions] at h
  cases hget : Json.get members "coordinates" with
  | none =>
    rw [hget] at h
    obtain ⟨_, -, h⟩ := Lib.bind_eq_ok.1 h
    obtain ⟨_, hmember, h⟩ := Lib.bind_eq_ok.1 h
    exact ⟨nofun, hmember, (Lib.bind_eq_ok.1 h).choose_spec.2⟩
  | some tree =>
    rw [hget] at h
    obtain ⟨_, htree, h⟩ := Lib.bind_eq_ok.1 h
    obtain ⟨_, hmember, h⟩ := Lib.bind_eq_ok.1 h
    exact ⟨fun _ heq => Option.some.inj heq ▸ htree, hmember, (Lib.bind_eq_ok.1 h).choose_spec.2⟩

theorem validateLatLon_of_hasPosition {value : Json} {c : F64 × F64}
    (hposition : value.HasPosition lib c) (h : validateGeojsonPositions lib value = .ok ()) :
    validateLatLon lib c.2 c.1 = .ok () := by
  induction hposition with
  | coordinates htype hdepth htree hnested hmem =>
    exact validateLatLon_of_nested hnested ((validateGeojsonPositions_obj h).1 _ htree) _ hmem
  | geometries htype hitems hitem hinner ih =>
    have hall := validateItems_ok (validateGeojsonPositions_obj h).2.2 hitems
    exact ih (validateGeojsonAll_ok hall _ hitem)

/-- Every coordinate pair of a geometry that is parsed from a document that passes the check, be
it a geometry or a feature, is finite and in range. -/
theorem accepted_positions_in_range {coords : lib.Geometry → List (F64 × F64)}
    (hparser : Rfc7946 lib coords) {value : Json}
    (hvalid : validateGeojsonPositions lib value = .ok ()) {geometry : lib.Geometry}
    (hparsed : geojsonValueToGeometry lib value = .ok geometry) :
    ∀ lon lat, (lon, lat) ∈ coords geometry →
      (lat.isFinite ∧ F64.minusNinety.le lat ∧ lat.le F64.ninety) ∧
        lon.isFinite ∧ F64.minusOneEighty.le lon ∧ lon.le F64.oneEighty := by
  intro lon lat hmem
  have hchecked : validateLatLon lib lat lon = .ok () := by
    rw [geojsonValueToGeometry] at hparsed
    split at hparsed
    · cases hparsed
    next raw hraw =>
      cases hconvert : lib.convert raw <;> rw [hconvert] at hparsed <;> cases hparsed
      exact validateLatLon_of_hasPosition (hparser.geometry hraw hconvert _ hmem) hvalid
    · cases hparsed
    next raw hraw =>
      cases hconvert : lib.convert raw <;> rw [hconvert] at hparsed <;> cases hparsed
      obtain ⟨members, inner, rfl, hinner, hposition⟩ := hparser.feature hraw hconvert _ hmem
      obtain ⟨-, hmember, -⟩ := validateGeojsonPositions_obj hvalid
      exact validateLatLon_of_hasPosition hposition (validateMember_ok hmember hinner)
    · cases hparsed
  unfold validateLatLon at hchecked
  split at hchecked
  · cases hchecked
  next hlat =>
    split at hchecked
    · cases hchecked
    next hlon => simpa using And.intro hlat hlon

def lineParser : GeoLib where
  RawGeometry := List (F64 × F64)
  Geometry := List (F64 × F64)
  parseGeoJson
    | .obj [("coordinates", .arr [.arr [.number (.float lon), .number (.float lat)],
        .arr [.number (.float lon'), .number (.float lat')]]), ("type", .str "LineString")] =>
      .ok (.geometry [(lon, lat), (lon', lat')])
    | _ => .error "not a line"
  convert := .ok
  boundingRect := fun _ => none
  pointGeometry := fun lon lat => [(lon, lat)]
  rectGeometry := fun _ => []
  midpoint := fun a _ => a
  ofInt := fun _ => F64.zero
  display := fun _ => ""

def fromPoleToPole : Json :=
  .obj [("coordinates", .arr [.arr [.number (.float F64.zero), .number (.float F64.minusNinety)],
    .arr [.number (.float F64.oneEighty), .number (.float F64.ninety)]]), ("type", .str "LineString")]

theorem poles_in_range :
    ∃ geometry : List (F64 × F64), validateGeojsonPositions lineParser fromPoleToPole = .ok () ∧
      geojsonValueToGeometry lineParser fromPoleToPole = .ok geometry ∧ geometry.length = 2 ∧
      ∀ lon lat, (lon, lat) ∈ geometry →
        (lat.isFinite ∧ F64.minusNinety.le lat ∧ lat.le F64.ninety) ∧
          lon.isFinite ∧ F64.minusOneEighty.le lon ∧ lon.le F64.oneEighty := by
  have hparser : Rfc7946 lineParser id := by
    refine ⟨fun {value raw geometry} hraw hconvert c hc => ?_, fun {value raw geometry} hraw => ?_⟩
    · simp only [lineParser] at hraw
      split at hraw <;> cases hraw
      cases hconvert
      exact .coordinates rfl rfl rfl (by simp [Json.Nested]) hc
    · simp only [lineParser] at hraw
      split at hraw <;> cases hraw
  exact ⟨_, rfl, rfl, rfl,
    @accepted_positions_in_range lineParser id hparser fromPoleToPole rfl _ rfl⟩

end LatLng.Geo
