import LatLng.Core.Sample

/-! Bounding boxes on their way into the database. The HTTP handlers deserialize the four numbers
as they are; the Cap'n Proto codec passes them through the constructor that puts them in order. -/

namespace LatLng.Bounds

open Geo Index Geofence LatLng.Core F64

inductive Transport where
  | http
  | capnp
deriving DecidableEq

def finiteBounds (b : BoundingBox) : Bool :=
  b.minLat.isFinite && b.minLon.isFinite && b.maxLat.isFinite && b.maxLon.isFinite

def boundsFromReader (b : BoundingBox) : BoundingBox :=
  BoundingBox.new b.minLat b.minLon b.maxLat b.maxLon

/-- The box a handler gets for the numbers that were sent. JSON has no number that is not finite. -/
def readBounds (b : BoundingBox) : Transport → Option BoundingBox
  | .http => if finiteBounds b then some b else none
  | .capnp => some (boundsFromReader b)

/-- What a box is sent for: as an object to store, as the area of a query, or as the area of the
fence of a channel or hook. -/
inductive BoxUse where
  | object
  | area (options : SearchOptions)
  | within (collection : String) (options : SearchOptions) (detect : List DetectType)
    (commands : List MutationCommand)
  | intersects (collection : String) (options : SearchOptions) (detect : List DetectType)
    (commands : List MutationCommand)

variable (lib : Lib)

namespace BoxUse

def check (b : BoundingBox) : BoxUse → Except CoreError Unit
  | .object => ((GeoType.bounds b).validate lib.toGeoLib).mapError .geo
  | .area options => do
    ((Area.bounds b).validate lib.toGeoLib).mapError .geo
    (lib.validateOptions options).mapError .index
  | .within collection options detect commands =>
    Db.validateGeofenceDef lib
      { collection, query := .within (.bounds b) options, detect, commands }
  | .intersects collection options detect commands =>
    Db.validateGeofenceDef lib
      { collection, query := .intersects (.bounds b) options, detect, commands }

def admits (use : BoxUse) (b : BoundingBox) (transport : Transport) : Option BoundingBox :=
  (readBounds b transport).filter fun box => (use.check lib box).isOk

def otherChecks : BoxUse → Bool
  | .object => true
  | .area options => (lib.validateOptions options).isOk
  | .within _ options _ _ => (lib.validateOptions options).isOk
  | .intersects _ options _ _ => (lib.validateOptions options).isOk

end BoxUse

def Agree (use : BoxUse) (b : BoundingBox) : Prop :=
  ((use.admits lib b .http).isSome = (use.admits lib b .capnp).isSome) ∧
    ∀ transport box, use.admits lib b transport = some box → box = b

/-! ### One axis -/

def latInRange (lat : F64) : Bool :=
  lat.isFinite && (F64.minusNinety.le lat && lat.le F64.ninety)

def lonInRange (lon : F64) : Bool :=
  lon.isFinite && (F64.minusOneEighty.le lon && lon.le F64.oneEighty)

structure AxisValid (inRange : F64 → Bool) (lo hi : F64) : Prop where
  low : inRange lo = true
  high : inRange hi = true
  ordered : hi.lt lo = false

def AxisOutside (inRange : F64 → Bool) (lo hi : F64) : Prop :=
  (lo.isNan = false ∧ inRange lo = false) ∨ (hi.isNan = false ∧ inRange hi = false) ∨
    (lo.isNan = true ∧ hi.isNan = true)

theorem lt_eq_not_le {lo hi : F64} (hlo : lo.isNan = false) (hhi : hi.isNan = false) :
    hi.lt lo = !lo.le hi := by
  simp [lt, le, hlo, hhi, ← decide_not]

section Axis

variable {inRange : F64 → Bool} (hnumber : ∀ x, inRange x = true → x.isNan = false)
  {lo hi : F64}

include hnumber

theorem AxisValid.min_max (h : AxisValid inRange lo hi) : lo.min hi = lo ∧ hi.max lo = hi := by
  have hlo := hnumber lo h.low
  have hhi := hnumber hi h.high
  have hle : lo.le hi = true := by simpa [lt_eq_not_le hlo hhi] using h.ordered
  simp [F64.min, F64.max, hlo, hhi, hle]

theorem axisValid_min_max_iff :
    AxisValid inRange (lo.min hi) (hi.max lo) ↔ ¬ AxisOutside inRange lo hi := by
  have hself : ∀ x : F64, x.lt x = false := by
    intro x
    simp [lt]
  have hnan : ∀ x : F64, x.isNan = true → inRange x = false := by
    intro x hx
    by_contra hin
    rw [hnumber x (by simpa using hin)] at hx
    cases hx
  cases hlo : lo.isNan with
  | true =>
    cases hhi : hi.isNan with
    | true =>
      have hmin : lo.min hi = hi := by simp [F64.min, hlo]
      refine iff_of_false ?_ fun hout => hout (.inr (.inr ⟨hlo, hhi⟩))
      rw [hmin]
      intro hvalid
      have := hvalid.low
      rw [hnan hi hhi] at this
      cases this
    | false =>
      have hmin : lo.min hi = hi := by simp [F64.min, hlo]
      have hmax : hi.max lo = hi := by simp [F64.max, hlo, hhi]
      rw [hmin, hmax]
      simp only [AxisOutside, hlo, hhi, Bool.true_eq_false, false_and, false_or, true_and,
        Bool.false_eq_true, and_false, or_false]
      exact ⟨fun h => by simp [h.low], fun h => ⟨by simpa using h, by simpa using h, hself hi⟩⟩
  | false =>
    cases hhi : hi.isNan with
    | true =>
      have hmin : lo.min hi = lo := by simp [F64.min, hlo, hhi]
      have hmax : hi.max lo = lo := by simp [F64.max, hhi]
      rw [hmin, hmax]
      simp only [AxisOutside, hlo, hhi, Bool.true_eq_false, false_and, true_and,
        Bool.false_eq_true, or_false]
      exact ⟨fun h => by simp [h.low], fun h => ⟨by simpa using h, by simpa using h, hself lo⟩⟩
    | false =>
      have hout : ¬ AxisOutside inRange lo hi ↔ inRange lo = true ∧ inRange hi = true := by
        simp [AxisOutside, hlo, hhi]
      rw [hout]
      -- the two results are the two numbers, in order
      by_cases hle : lo.le hi = true
      · have hordered : hi.lt lo = false := by simp [lt_eq_not_le hlo hhi, hle]
        have hmin : lo.min hi = lo := by simp [F64.min, hlo, hhi, hle]
        have hmax : hi.max lo = hi := by simp [F64.max, hlo, hhi, hle]
        rw [hmin, hmax]
        exact ⟨fun h => ⟨h.low, h.high⟩, fun h => ⟨h.1, h.2, hordered⟩⟩
      · have hordered : lo.lt hi = false := by
          simp only [lt, le, hlo, hhi, Bool.not_false, Bool.true_and,
            decide_eq_false_iff_not, decide_eq_true_eq] at hle ⊢
          omega
        have hmin : lo.min hi = hi := by simp [F64.min, hlo, hhi, hle]
        have hmax : hi.max lo = lo := by simp [F64.max, hlo, hhi, hle]
        rw [hmin, hmax]
        exact ⟨fun h => ⟨h.high, h.low⟩, fun h => ⟨h.2, h.1, hordered⟩⟩

end Axis

theorem isNan_of_isFinite {x : F64} (h : x.isFinite) : x.isNan = false := by
  simp only [isFinite, isNan, decide_eq_true_eq, decide_eq_false_iff_not] at h ⊢
  omega

theorem isNan_of_latInRange (x : F64) (h : latInRange x) : x.isNan = false :=
  isNan_of_isFinite ((Bool.and_eq_true _ _).mp h).1

theorem isNan_of_lonInRange (x : F64) (h : lonInRange x) : x.isNan = false :=
  isNan_of_isFinite ((Bool.and_eq_true _ _).mp h).1

/-! ### The box -/

structure BoxValid (b : BoundingBox) : Prop where
  lat : AxisValid latInRange b.minLat b.maxLat
  lon : AxisValid lonInRange b.minLon b.maxLon

theorem validateLatLon_isOk (lib : GeoLib) (lat lon : F64) :
    (validateLatLon lib lat lon).isOk = (latInRange lat && lonInRange lon) := by
  rw [validateLatLon]
  have hlat : (!lat.isFinite || !(minusNinety.le lat && lat.le ninety)) =
      !latInRange lat := by
    simp only [latInRange, Bool.not_and]
  have hlon : (!lon.isFinite || !(minusOneEighty.le lon && lon.le oneEighty)) =
      !lonInRange lon := by
    simp only [lonInRange, Bool.not_and]
  rw [hlat, hlon]
  cases latInRange lat <;> cases lonInRange lon <;> rfl

theorem validate_isOk_iff (lib : GeoLib) (b : BoundingBox) :
    (b.validate lib).isOk = true ↔ BoxValid b := by
  have hmin := validateLatLon_isOk lib b.minLat b.minLon
  have hmax := validateLatLon_isOk lib b.maxLat b.maxLon
  rw [BoundingBox.validate]
  cases h1 : validateLatLon lib b.minLat b.minLon with
  | error e =>
    rw [h1] at hmin
    refine iff_of_false (by simp [bind, Except.bind, Except.isOk, Except.toBool]) fun hvalid => ?_
    rw [hvalid.lat.low, hvalid.lon.low] at hmin
    cases hmin
  | ok u =>
    rw [h1] at hmin
    cases h2 : validateLatLon lib b.maxLat b.maxLon with
    | error e =>
      rw [h2] at hmax
      refine iff_of_false (by simp [bind, Except.bind, Except.isOk, Except.toBool]) fun hvalid => ?_
      rw [hvalid.lat.high, hvalid.lon.high] at hmax
      cases hmax
    | ok u' =>
      rw [h2] at hmax
      obtain ⟨hlat, hlon⟩ := (Bool.and_eq_true _ _).mp hmin.symm
      obtain ⟨hlat', hlon'⟩ := (Bool.and_eq_true _ _).mp hmax.symm
      by_cases hlt : b.maxLat.lt b.minLat = true
      · rw [if_pos hlt]
        refine iff_of_false Bool.false_ne_true fun hvalid => ?_
        rw [hvalid.lat.ordered] at hlt
        cases hlt
      · rw [if_neg hlt]
        by_cases hlt' : b.maxLon.lt b.minLon = true
        · rw [if_pos hlt']
          refine iff_of_false Bool.false_ne_true fun hvalid => ?_
          rw [hvalid.lon.ordered] at hlt'
          cases hlt'
        · rw [if_neg hlt']
          exact iff_of_true rfl ⟨⟨hlat, hlat', by simpa using hlt⟩, ⟨hlon, hlon', by simpa using hlt'⟩⟩

theorem finiteBounds_of_valid {b : BoundingBox} (h : BoxValid b) : finiteBounds b = true := by
  have hlat : ∀ x, latInRange x = true → x.isFinite = true := fun x hx =>
    ((Bool.and_eq_true _ _).mp hx).1
  have hlon : ∀ x, lonInRange x = true → x.isFinite = true := fun x hx =>
    ((Bool.and_eq_true _ _).mp hx).1
  simp [finiteBounds, hlat _ h.lat.low, hlat _ h.lat.high, hlon _ h.lon.low, hlon _ h.lon.high]

theorem boundsFromReader_of_valid {b : BoundingBox} (h : BoxValid b) : boundsFromReader b = b := by
  obtain ⟨hminLat, hmaxLat⟩ := h.lat.min_max isNan_of_latInRange
  obtain ⟨hminLon, hmaxLon⟩ := h.lon.min_max isNan_of_lonInRange
  rw [boundsFromReader, BoundingBox.new, hminLat, hmaxLat, hminLon, hmaxLon]

theorem boundsFromReader_valid_iff (b : BoundingBox) :
    BoxValid (boundsFromReader b) ↔
      ¬ (AxisOutside latInRange b.minLat b.maxLat ∨ AxisOutside lonInRange b.minLon b.maxLon) := by
  rw [not_or]
  have hlat : AxisValid latInRange (b.minLat.min b.maxLat) (b.maxLat.max b.minLat) ↔ _ :=
    axisValid_min_max_iff isNan_of_latInRange
  have hlon : AxisValid lonInRange (b.minLon.min b.maxLon) (b.maxLon.max b.minLon) ↔ _ :=
    axisValid_min_max_iff isNan_of_lonInRange
  exact ⟨fun h => ⟨hlat.1 h.lat, hlon.1 h.lon⟩, fun h => ⟨hlat.2 h.1, hlon.2 h.2⟩⟩

/-! ### The two transports -/

theorem isOk_mapError {ε ε' α : Type} (x : Except ε α) (f : ε → ε') :
    (x.mapError f).isOk = x.isOk := by
  cases x <;> rfl

theorem isOk_mapError_bind {ε ε' ε'' : Type} (x : Except ε Unit) (f : ε → ε'')
    (y : Except ε' Unit) (g : ε' → ε'') :
    ((x.mapError f) >>= fun _ => y.mapError g).isOk = (x.isOk && y.isOk) := by
  cases x <;> cases y <;> rfl

theorem BoxUse.check_isOk (use : BoxUse) (b : BoundingBox) :
    (use.check lib b).isOk = ((b.validate lib.toGeoLib).isOk && use.otherChecks lib) := by
  cases use with
  | object => exact (isOk_mapError _ _).trans (Bool.and_true _).symm
  | area options | within collection options detect commands
  | intersects collection options detect commands =>
    exact isOk_mapError_bind _ _ _ _

theorem BoxUse.admits_http (use : BoxUse) (b box : BoundingBox) :
    use.admits lib b .http = some box ↔ box = b ∧ BoxValid b ∧ use.otherChecks lib = true := by
  simp only [BoxUse.admits, readBounds, Option.filter_eq_some_iff, use.check_isOk,
    Bool.and_eq_true, validate_isOk_iff, Option.ite_none_right_eq_some, Option.some.injEq]
  constructor
  · rintro ⟨⟨-, rfl⟩, hvalid, hother⟩
    exact ⟨rfl, hvalid, hother⟩
  · rintro ⟨rfl, hvalid, hother⟩
    exact ⟨⟨finiteBounds_of_valid hvalid, rfl⟩, hvalid, hother⟩

theorem BoxUse.admits_capnp (use : BoxUse) (b box : BoundingBox) :
    use.admits lib b .capnp = some box ↔
      box = boundsFromReader b ∧ BoxValid box ∧ use.otherChecks lib = true := by
  simp only [BoxUse.admits, readBounds, Option.filter_eq_some_iff, use.check_isOk,
    Bool.and_eq_true, validate_isOk_iff, Option.some.injEq]
  exact and_congr_left' eq_comm

/-- The transports agree on a box exactly when it is valid, when it has an axis no reordering
could repair, or when the rest of the request is rejected anyway. -/
theorem transports_agree_iff (use : BoxUse) (b : BoundingBox) :
    Agree lib use b ↔
      use.otherChecks lib = false ∨ BoxValid b ∨
        AxisOutside latInRange b.minLat b.maxLat ∨ AxisOutside lonInRange b.minLon b.maxLon := by
  constructor
  · rintro ⟨hsame, -⟩
    by_contra hnot
    simp only [not_or, Bool.not_eq_false] at hnot
    obtain ⟨hother, hinvalid, hlat, hlon⟩ := hnot
    -- the codec repairs the box, and only its transport accepts it
    have hrepaired := (boundsFromReader_valid_iff b).2 (not_or.2 ⟨hlat, hlon⟩)
    have hcapnp := (use.admits_capnp lib b _).2 ⟨rfl, hrepaired, hother⟩
    rw [hcapnp, Option.isSome_some, Option.isSome_iff_exists] at hsame
    obtain ⟨box, hbox⟩ := hsame
    exact hinvalid ((use.admits_http lib b box).1 hbox).2.1
  · intro h
    have hcapnp : ∀ box, use.admits lib b .capnp = some box ↔
        use.admits lib b .http = some box := by
      intro box
      rw [use.admits_capnp, use.admits_http]
      constructor
      · rintro ⟨rfl, hrepaired, hother⟩
        obtain hfalse | hvalid | hout := h
        · rw [hother] at hfalse
          cases hfalse
        · exact ⟨boundsFromReader_of_valid hvalid, hvalid, hother⟩
        · exact absurd hout ((boundsFromReader_valid_iff b).1 hrepaired)
      · rintro ⟨rfl, hvalid, hother⟩
        exact ⟨(boundsFromReader_of_valid hvalid).symm, hvalid, hother⟩
    have heq : use.admits lib b .capnp = use.admits lib b .http := Option.ext hcapnp
    refine ⟨by rw [heq], ?_⟩
    intro transport box hbox
    cases transport with
    | http => exact ((use.admits_http lib b box).1 hbox).1
    | capnp => exact ((use.admits_http lib b box).1 ((hcapnp box).1 hbox)).1

def upsideDown : BoundingBox where
  minLat := F64.ninety
  minLon := F64.zero
  maxLat := F64.zero
  maxLon := F64.ninety

/-- Stored upside up over one transport, rejected over the other. -/
theorem upsideDown_disagrees :
    BoxUse.object.admits Sample.sampleLib upsideDown .http = none ∧
      BoxUse.object.admits Sample.sampleLib upsideDown .capnp =
        some { minLat := F64.zero, minLon := F64.zero, maxLat := F64.ninety
               maxLon := F64.ninety } ∧
      ¬ Agree Sample.sampleLib .object upsideDown := by
  have hhttp : BoxUse.object.admits Sample.sampleLib upsideDown .http = none := by decide
  have hcapnp : BoxUse.object.admits Sample.sampleLib upsideDown .capnp =
      some { minLat := F64.zero, minLon := F64.zero, maxLat := F64.ninety
             maxLon := F64.ninety } := by decide
  refine ⟨hhttp, hcapnp, ?_⟩
  rintro ⟨hsame, -⟩
  rw [hhttp, hcapnp] at hsame
  cases hsame

end LatLng.Bounds
