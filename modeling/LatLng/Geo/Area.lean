import LatLng.Geo.GeoType

/-! Areas: the box an index looks in, and the geometry the predicates are asked about. Floating
point arithmetic is a parameter, `FloatLib`; boxes computed with it are in `AreaLib`. -/

namespace LatLng.Geo

open List Nat

structure FloatLib where
  add : F64 → F64 → F64
  sub : F64 → F64 → F64
  mul : F64 → F64 → F64
  div : F64 → F64 → F64
  rem : F64 → F64 → F64
  remEuclid : F64 → F64 → F64
  atan2 : F64 → F64 → F64
  sin : F64 → F64
  cos : F64 → F64
  asin : F64 → F64
  toRadians : F64 → F64
  toDegrees : F64 → F64

def FloatLib.blank : FloatLib :=
  ⟨fun a _ => a, fun a _ => a, fun a _ => a, fun a _ => a, fun a _ => a, fun a _ => a, fun a _ => a,
    id, id, id, id, id⟩

structure AreaLib (lib : GeoLib) where
  float : FloatLib
  circleEnvelope : F64 → F64 → F64 → BoundingBox
  /-- `Polygon::new` with one ring through positions with the latitude first -/
  polygon : List (F64 × F64) → lib.Geometry
  tileBox : Nat → Nat → Nat → BoundingBox
  areaContainsGeometry : lib.Geometry → lib.Geometry → Bool
  intersects : lib.Geometry → lib.Geometry → Bool

variable {lib : GeoLib} (areas : AreaLib lib)

def earthRadiusMeters : F64 := ⟨0x41584db033333333⟩

def destinationPoint (f : FloatLib) (lat lon meters bearingDegrees : F64) : F64 × F64 :=
  let angularDistance := f.div meters earthRadiusMeters
  let bearing := f.toRadians bearingDegrees
  let lat1 := f.toRadians lat
  let lon1 := f.toRadians lon
  let sinLat1 := f.sin lat1
  let cosLat1 := f.cos lat1
  let sinAd := f.sin angularDistance
  let cosAd := f.cos angularDistance
  let lat2 := f.asin (f.add (f.mul sinLat1 cosAd) (f.mul (f.mul cosLat1 sinAd) (f.cos bearing)))
  let lon2 := f.add lon1 (f.atan2 (f.mul (f.mul (f.sin bearing) sinAd) cosLat1)
    (f.sub cosAd (f.mul sinLat1 (f.sin lat2))))
  -- the longitude is wrapped into a half turn to each side
  (f.toDegrees lat2, f.sub (f.rem (f.add (f.toDegrees lon2) ⟨0x4080e00000000000⟩) F64.threeSixty)
    F64.oneEighty)

def circlePolygon (lat lon meters : F64) (segments : Nat) : lib.Geometry :=
  let f := areas.float
  areas.polygon ((range (segments + 1)).map fun index => destinationPoint f lat lon meters
    (f.div (f.mul F64.threeSixty (lib.ofInt index)) (lib.ofInt segments)))

def normalizeBearing (f : FloatLib) (value : F64) : F64 := f.remEuclid value F64.threeSixty

def sectorPolygon (lat lon meters bearing1 bearing2 : F64) (segments : Nat) : lib.Geometry :=
  let f := areas.float
  let start := normalizeBearing f bearing1
  let stop := normalizeBearing f bearing2
  let stop := if stop.le start then f.add stop F64.threeSixty else stop
  areas.polygon ((lat, lon) :: (range (segments + 1)).map (fun index =>
    destinationPoint f lat lon meters (f.add start
      (f.div (f.mul (f.sub stop start) (lib.ofInt index)) (lib.ofInt segments)))) ++ [(lat, lon)])

def tileBounds (x y z : Nat) : Except GeoError BoundingBox :=
  if z < 2 ^ 31 then .ok (areas.tileBox x y z) else .error .invalidQuadkey

def quadkeyDigit (z : Nat) (tile : Nat × Nat) (item : Char × Nat) : Except GeoError (Nat × Nat) :=
  let bit := 2 ^ ((z - item.2 - 1) % 32)
  match item.1 with
  | '0' => .ok tile
  | '1' => .ok (tile.1 ||| bit, tile.2)
  | '2' => .ok (tile.1, tile.2 ||| bit)
  | '3' => .ok (tile.1 ||| bit, tile.2 ||| bit)
  | _ => .error .invalidQuadkey

def tileBoundsFromQuadkey (value : String) : Except GeoError BoundingBox := do
  let z := value.utf8ByteSize
  let tile ← value.toList.zipIdx.foldlM (quadkeyDigit z) (0, 0)
  tileBounds areas tile.1 tile.2 z

namespace Area

def envelope : Area → Except GeoError BoundingBox
  | .circle lat lon meters => .ok (areas.circleEnvelope lat lon meters)
  | .bounds b => .ok b
  | .hash value => decodeGeohashBbox lib value
  | .geoJson value => boundingBoxFromGeojson lib value
  | .tile x y z => tileBounds areas x y z
  | .quadkey value => tileBoundsFromQuadkey areas value
  | .sector lat lon meters _ _ => .ok (areas.circleEnvelope lat lon meters)
  | .reference _ _ => .error .unresolvedReference

def toGeometry : Area → Except GeoError lib.Geometry
  | .circle lat lon meters => .ok (circlePolygon areas lat lon meters 64)
  | .bounds b => .ok (lib.rectGeometry b.toRect)
  | .hash value => (decodeGeohashBbox lib value).map fun b => lib.rectGeometry b.toRect
  | .geoJson value => geojsonValueToGeometry lib value
  | .tile x y z => (tileBounds areas x y z).map fun b => lib.rectGeometry b.toRect
  | .quadkey value => (tileBoundsFromQuadkey areas value).map fun b => lib.rectGeometry b.toRect
  | .sector lat lon meters bearing1 bearing2 =>
    .ok (sectorPolygon areas lat lon meters bearing1 bearing2 64)
  | .reference _ _ => .error .unresolvedReference

def test (holds : lib.Geometry → lib.Geometry → Bool) (area : Area) (geo : GeoType) :
    Except GeoError Bool := do
  let areaGeometry ← area.toGeometry areas
  match ← geo.toGeometry lib with
  | none => .ok false
  | some target => .ok (holds areaGeometry target)

def containsGeo (area : Area) (geo : GeoType) : Except GeoError Bool :=
  area.test areas areas.areaContainsGeometry geo

def intersectsGeo (area : Area) (geo : GeoType) : Except GeoError Bool :=
  area.test areas areas.intersects geo

end Area

/-! ### Where there is a box, there is a geometry -/

theorem geometry_of_boundingBox {value : Json} {b : BoundingBox}
    (h : boundingBoxFromGeojson lib value = .ok b) :
    ∃ geometry, geojsonValueToGeometry lib value = .ok geometry := by
  unfold boundingBoxFromGeojson at h
  cases hgeometry : geojsonValueToGeometry lib value with
  | error e =>
    rw [hgeometry] at h
    cases h
  | ok geometry => exact ⟨geometry, rfl⟩

variable {box : Option BoundingBox}

theorem GeoType.toGeometry_of_envelope {geo : GeoType}
    (h : geo.envelope lib = .ok box) : ∃ geometry, geo.toGeometry lib = .ok geometry := by
  cases geo with
  | point lat lon z => exact ⟨_, rfl⟩
  | bounds b => exact ⟨_, rfl⟩
  | hash value =>
    simp only [GeoType.envelope] at h
    simp only [GeoType.toGeometry]
    cases hbox : decodeGeohashBbox lib value with
    | error e =>
      rw [hbox] at h
      cases h
    | ok b => exact ⟨_, rfl⟩
  | geoJson value =>
    simp only [GeoType.envelope] at h
    simp only [GeoType.toGeometry]
    cases hbox : boundingBoxFromGeojson lib value with
    | error e =>
      rw [hbox] at h
      cases h
    | ok b =>
      obtain ⟨geometry, hgeometry⟩ := geometry_of_boundingBox hbox
      rw [hgeometry]
      exact ⟨_, rfl⟩
  | string value => exact ⟨_, rfl⟩

variable {areas}

theorem Area.toGeometry_of_envelope {area : Area} {box : BoundingBox}
    (h : area.envelope areas = .ok box) : ∃ geometry, area.toGeometry areas = .ok geometry := by
  cases area with
  | circle lat lon meters => exact ⟨_, rfl⟩
  | bounds b => exact ⟨_, rfl⟩
  | hash value =>
    have hbox : decodeGeohashBbox lib value = .ok box := h
    rw [Area.toGeometry, hbox]
    exact ⟨_, rfl⟩
  | geoJson value => exact geometry_of_boundingBox h
  | tile x y z =>
    have hbox : tileBounds areas x y z = .ok box := h
    rw [Area.toGeometry, hbox]
    exact ⟨_, rfl⟩
  | quadkey value =>
    have hbox : tileBoundsFromQuadkey areas value = .ok box := h
    rw [Area.toGeometry, hbox]
    exact ⟨_, rfl⟩
  | sector lat lon meters bearing1 bearing2 => exact ⟨_, rfl⟩
  | reference collection id => cases h

theorem Area.test_of_envelopes {holds : lib.Geometry → lib.Geometry → Bool} {area : Area}
    {geo : GeoType} {areaBox : BoundingBox}
    (harea : area.envelope areas = .ok areaBox) (hgeo : geo.envelope lib = .ok box) :
    ∃ verdict, area.test areas holds geo = .ok verdict := by
  obtain ⟨areaGeometry, hareaGeometry⟩ := Area.toGeometry_of_envelope harea
  obtain ⟨geometry, hgeometry⟩ := GeoType.toGeometry_of_envelope hgeo
  unfold Area.test
  rw [hareaGeometry, hgeometry]
  cases geometry with
  | none => exact ⟨_, rfl⟩
  | some target => exact ⟨_, rfl⟩

/-! ### Quadkeys in the numbers of the machine -/

def quadkeyLoop (z : Nat) : List (Char × Nat) → Nat × Nat → Option (Except GeoError (Nat × Nat))
  | [], tile => some (.ok tile)
  | (digit, index) :: items, tile =>
    let position := index % 2 ^ 32
    if z < position + 1 ∨ 32 ≤ z - position - 1 then none
    else match quadkeyDigit z tile (digit, position) with
      | .error e => some (.error e)
      | .ok tile => quadkeyLoop z items tile

def quadkeyTile (value : String) : Option (Except GeoError (Nat × Nat × Nat)) :=
  let z := value.utf8ByteSize % 2 ^ 32
  (quadkeyLoop z value.toList.zipIdx (0, 0)).map fun tile => tile.map fun (x, y) => (x, y, z)

def isQuadkeyDigit (c : Char) : Bool := "0123".toList.contains c

def lowBit (c : Char) : Nat := if c = '1' ∨ c = '3' then 1 else 0

def highBit (c : Char) : Nat := if c = '2' ∨ c = '3' then 1 else 0

def bitsValue (bit : Char → Nat) (digits : List Char) : Nat :=
  Nat.ofDigits 2 (digits.map bit).reverse

def QuadkeyExact (value : String) : Prop :=
  ∃ outcome, quadkeyTile value = some outcome ∧ ((∃ e, outcome = .error e) ∨
    value.toList.all isQuadkeyDigit = true ∧
      outcome = .ok (bitsValue lowBit value.toList, bitsValue highBit value.toList, value.length) ∧
      bitsValue lowBit value.toList < 2 ^ value.length ∧
      bitsValue highBit value.toList < 2 ^ value.length)

theorem bitsValue_cons (bit : Char → Nat) (c : Char) (cs : List Char) :
    bitsValue bit (c :: cs) = 2 ^ cs.length * bit c + bitsValue bit cs := by
  simp [bitsValue, ofDigits_append, add_comm]

theorem bitsValue_lt {bit : Char → Nat} (hbit : ∀ c, bit c < 2) (cs : List Char) :
    bitsValue bit cs < 2 ^ cs.length := by
  have hdigits : ∀ d ∈ (cs.map bit).reverse, d < 2 := by simpa using fun c _ => hbit c
  simpa [bitsValue] using ofDigits_lt_base_pow_length one_lt_two hdigits

theorem or_two_pow {x k : Nat} (h : 2 ^ (k + 1) ∣ x) : x ||| 2 ^ k = x + 2 ^ k := by
  obtain ⟨a, rfl⟩ := h
  exact (Nat.two_pow_add_eq_or_of_lt (Nat.pow_lt_pow_succ Nat.one_lt_two) a).symm

theorem quadkeyDigit_eq {z k : Nat} (hz : z - k - 1 < 32) {x y : Nat} (hx : 2 ^ (z - k - 1 + 1) ∣ x)
    (hy : 2 ^ (z - k - 1 + 1) ∣ y) (c : Char) :
    quadkeyDigit z (x, y) (c, k) = if isQuadkeyDigit c then
      .ok (x + 2 ^ (z - k - 1) * lowBit c, y + 2 ^ (z - k - 1) * highBit c)
    else .error .invalidQuadkey := by
  unfold quadkeyDigit
  dsimp only
  rw [mod_eq_of_lt hz, or_two_pow hx, or_two_pow hy]
  split <;> simp_all [isQuadkeyDigit, lowBit, highBit]

theorem quadkeyLoop_eq {z : Nat} (hz : z < 2 ^ 32) (cs : List Char) {p x y : Nat} (hp : p ≤ z)
    (hroom : z - p ≤ 32) (hx : 2 ^ (z - p) ∣ x) (hy : 2 ^ (z - p) ∣ y) :
    quadkeyLoop z (cs.zipIdx p) (x, y) = if (cs.take (z - p)).all isQuadkeyDigit then
        if cs.length ≤ z - p then
          some (.ok (x + 2 ^ (z - p - cs.length) * bitsValue lowBit cs,
            y + 2 ^ (z - p - cs.length) * bitsValue highBit cs))
        else none
      else some (.error .invalidQuadkey) := by
  induction cs generalizing p x y with
  | nil => simp [quadkeyLoop, bitsValue]
  | cons c cs ih =>
    rw [zipIdx_cons, quadkeyLoop, mod_eq_of_lt (hp.trans_lt hz)]
    rcases hp.eq_or_lt with rfl | hlt
    · simp
    obtain ⟨r, hr⟩ : ∃ r, z - p = r + 1 := ⟨z - p - 1, by omega⟩
    have hnext : z - (p + 1) = r := by omega
    rw [if_neg (by omega)]
    rw [hr] at hx hy
    rw [quadkeyDigit_eq (by omega) (by rwa [hr]) (by rwa [hr]), hr, Nat.add_sub_cancel]
    by_cases hc : isQuadkeyDigit c = true
    · have hdvd : 2 ^ r ∣ 2 ^ (r + 1) := pow_dvd_pow 2 (le_succ r)
      rw [if_pos hc]
      dsimp only
      rw [ih hlt (by omega) (by rw [hnext]; exact (hdvd.trans hx).add (Nat.dvd_mul_right _ _))
        (by rw [hnext]; exact (hdvd.trans hy).add (Nat.dvd_mul_right _ _)), hnext]
      simp only [take_succ_cons, all_cons, hc, Bool.true_and, length_cons,
        Nat.add_le_add_iff_right, Nat.add_sub_add_right]
      refine if_congr Iff.rfl ?_ rfl
      split
      next hle =>
        have hweight : 2 ^ (r - cs.length) * 2 ^ cs.length = 2 ^ r := by
          rw [← Nat.pow_add, Nat.sub_add_cancel hle]
        simp only [bitsValue_cons, Nat.mul_add, ← Nat.mul_assoc, hweight, Nat.add_assoc]
      next => rfl
    · simp [hc]

theorem utf8ByteSize_eq (value : String) :
    value.utf8ByteSize = (value.toList.map Char.utf8Size).sum := by
  suffices h : ∀ cs, (String.ofList cs).utf8ByteSize = (cs.map Char.utf8Size).sum by
    rw [← h, String.ofList_toList]
  intro cs
  induction cs with
  | nil => rfl
  | cons c cs ih =>
    have hcons : String.ofList (c :: cs) = String.singleton c ++ String.ofList cs := by
      rw [← String.toList_inj]
      simp
    rw [hcons, String.utf8ByteSize_append, String.utf8ByteSize_singleton, ih, map_cons,
      sum_cons]

theorem length_le_utf8ByteSize (value : String) : value.toList.length ≤ value.utf8ByteSize := by
  rw [utf8ByteSize_eq, ← length_map (f := Char.utf8Size)]
  exact length_le_sum_of_one_le _ (by simpa using fun c _ => c.utf8Size_pos)

/-- Decoding is exact for the texts of at most 32 bytes and, as the length is taken modulo the
width of the number, for the huge ones in which another character comes early enough. -/
theorem quadkeyExact_iff (value : String) : QuadkeyExact value ↔ value = "" ∨
    let z := value.utf8ByteSize % 2 ^ 32
    0 < z ∧ z ≤ 32 ∧ (value.utf8ByteSize = z ∨ (value.toList.take z).all isQuadkeyDigit = false) := by
  by_cases hempty : value = ""
  · subst hempty
    exact iff_of_true ⟨_, rfl, .inr ⟨rfl, rfl, Nat.one_pos, Nat.one_pos⟩⟩ (.inl rfl)
  have hsize := utf8ByteSize_eq value
  have hlo := length_le_utf8ByteSize value
  have hhi : value.utf8ByteSize ≤ value.toList.length * 4 := by
    rw [hsize, ← length_map (f := Char.utf8Size)]
    exact sum_le_card_nsmul _ 4 (by simpa using fun c _ => c.utf8Size_le_four)
  dsimp only
  have hz : value.utf8ByteSize % 2 ^ 32 < 2 ^ 32 := Nat.mod_lt _ (by decide)
  have hmod : value.utf8ByteSize < 2 ^ 32 → value.utf8ByteSize % 2 ^ 32 = value.utf8ByteSize :=
    Nat.mod_eq_of_lt
  unfold QuadkeyExact quadkeyTile
  dsimp only
  generalize value.utf8ByteSize % 2 ^ 32 = z at hz hmod ⊢
  by_cases hroom : 0 < z ∧ z ≤ 32
  · rw [quadkeyLoop_eq hz _ (Nat.zero_le z) hroom.2 (Nat.dvd_zero _) (Nat.dvd_zero _), Nat.sub_zero]
    simp only [hempty, hroom, false_or, true_and]
    cases hall : (value.toList.take z).all isQuadkeyDigit with
    | false => exact iff_of_true ⟨_, rfl, .inl ⟨_, rfl⟩⟩ (.inr rfl)
    | true =>
      rw [if_pos rfl]
      by_cases hle : value.toList.length ≤ z
      · rw [take_of_length_le hle] at hall
        have hone : value.toList.map Char.utf8Size = replicate value.toList.length 1 := by
          refine map_eq_replicate_iff.2 fun c hc => ?_
          have hdigit := all_eq_true.1 hall c hc
          rw [isQuadkeyDigit, show "0123".toList = ['0', '1', '2', '3'] from rfl] at hdigit
          simp only [contains_iff_mem, mem_cons, not_mem_nil, or_false] at hdigit
          rcases hdigit with rfl | rfl | rfl | rfl <;> rfl
        have hsame : value.utf8ByteSize = z := (hmod (by omega)).symm
        have hlength : z = value.toList.length := by
          rw [← hsame, hsize, hone]
          simp
        rw [if_pos hle, hlength, Nat.sub_self, Nat.pow_zero]
        refine iff_of_true ⟨_, rfl, .inr ⟨hall, ?_, ?_, ?_⟩⟩ (.inl (hsame.trans hlength))
        · simp [Except.map, String.length_toList]
        · exact bitsValue_lt (fun c => by unfold lowBit; split <;> decide) _
        · exact bitsValue_lt (fun c => by unfold highBit; split <;> decide) _
      · rw [if_neg hle]
        refine iff_of_false (fun ⟨_, hnone, _⟩ => by cases hnone) ?_
        rintro (hsame | hfalse)
        · omega
        · cases hfalse
  · refine iff_of_false ?_ fun h => h.elim hempty fun h => hroom ⟨h.1, h.2.1⟩
    rintro ⟨outcome, htile, -⟩
    cases hchars : value.toList with
    | nil => exact hempty (String.toList_eq_nil_iff.1 hchars)
    | cons c cs =>
      rw [hchars, zipIdx_cons, quadkeyLoop, if_pos (by omega)] at htile
      cases htile

theorem tileBoundsFromQuadkey_eq {value : String} {outcome : Except GeoError (Nat × Nat × Nat)}
    (hsize : value.utf8ByteSize < 2 ^ 32) (h : quadkeyTile value = some outcome) :
    tileBoundsFromQuadkey areas value = outcome.bind fun (x, y, z) => tileBounds areas x y z := by
  rw [quadkeyTile, mod_eq_of_lt hsize] at h
  obtain ⟨tile, htile, rfl⟩ := Option.map_eq_some_iff.1 h
  suffices hloop : ∀ (cs : List Char) (p : Nat) (start : Nat × Nat), p + cs.length < 2 ^ 32 →
      quadkeyLoop value.utf8ByteSize (cs.zipIdx p) start = some tile →
        (cs.zipIdx p).foldlM (quadkeyDigit value.utf8ByteSize) start = tile by
    rw [tileBoundsFromQuadkey, hloop _ 0 _ ?_ htile]
    · cases tile <;> rfl
    · rw [zero_add]
      exact (length_le_utf8ByteSize value).trans_lt hsize
  intro cs
  induction cs with
  | nil => exact fun _ _ _ hnil => Option.some.inj hnil
  | cons c cs ih =>
    intro p start hp hcons
    rw [length_cons] at hp
    rw [zipIdx_cons, quadkeyLoop, mod_eq_of_lt (by omega)] at hcons
    rw [zipIdx_cons, foldlM_cons]
    split at hcons
    · cases hcons
    · cases hdigit : quadkeyDigit value.utf8ByteSize start (c, p) with
      | error e =>
        rw [hdigit] at hcons
        exact Option.some.inj hcons
      | ok next =>
        rw [hdigit] at hcons
        exact ih (p + 1) next (by omega) hcons

/-- 33 digits: the first shift is by the whole width. -/
theorem quadkey_shift_overflows :
    let key := String.ofList (replicate 33 '0')
    key.toList.all isQuadkeyDigit = true ∧ quadkeyTile key = none ∧ ¬ QuadkeyExact key := by
  refine ⟨by decide, by decide, ?_⟩
  rintro ⟨outcome, htile, -⟩
  cases htile

end LatLng.Geo
