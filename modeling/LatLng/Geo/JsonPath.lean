import LatLng.Geo.Json
import LatLng.Lib.Except

/-! Edits by path against lookups by path. Segments such as `1` and `01` name one element of an
array, so what an edit leaves alone is said by places, not by texts. -/

namespace LatLng.Geo

open List

def getSegments (value : Json) (segments : List String) : Option Json :=
  segments.foldlM getSegment value

theorem getSegments_cons (value : Json) (segment : String) (rest : List String) :
    getSegments value (segment :: rest) =
      (getSegment value segment).bind fun child => getSegments child rest := rfl

theorem getJsonPath_eq (value : Json) (path : String) :
    getJsonPath value path = getSegments value (pathSegments path) := by
  rw [getJsonPath]
  split
  next h => rcases h with rfl | rfl <;> rfl
  next => rfl

def samePlace : Json → String → String → Bool
  | .arr _, segment, other => parseUsize segment = parseUsize other
  | _, segment, other => segment = other

/-- The paths part at some container, one that an edit creates on its way included: neither place is
at, above or below the other. -/
def Apart : Json → List String → List String → Prop
  | value, segment :: rest, other :: rest' => samePlace value segment other = false ∨
    Apart ((getSegment value segment).getD (.obj [])) rest rest'
  | _, _, _ => False

theorem Json.get_insert (members : List (String × Json)) (key : String) (value : Json)
    (other : String) : Json.get (Json.insert key value members) other =
      if key = other then some value else Json.get members other := by
  induction members with
  | nil => grind [Json.get, Json.insert]
  | cons member members ih => grind [Json.get, Json.insert]

theorem getSegment_samePlace {value : Json} {segment other : String}
    (h : samePlace value segment other) :
    getSegment value segment = getSegment value other := by
  cases value with
  | arr items => rw [getSegment, getSegment, of_decide_eq_true h]
  | _ => rw [of_decide_eq_true h]

variable {target target' newValue : Json} {segment : String} {rest : List String}

theorem setSegments_cons : setSegments target (segment :: rest) newValue = .ok target' ↔
    ∃ child, setSegments ((getSegment target segment).getD (.obj [])) rest newValue = .ok child ∧
      setSegments target [segment] child = .ok target' := by
  cases target with
  | obj members => simp [setSegments, getSegment, bind, Lib.bind_eq_ok]
  | arr items =>
    cases hindex : parseUsize segment with
    | none => simp [setSegments, hindex]
    | some index =>
      cases hitem : items[index]? <;>
        simp [setSegments, getSegment, hindex, hitem, bind, Lib.bind_eq_ok]
  | _ => simp [setSegments]

/-- A delete that goes down sets what is left of the child. -/
theorem deleteSegments_cons {removed : Bool} (hrest : rest ≠ [])
    (h : deleteSegments target (segment :: rest) = .ok (target', removed)) :
    ∃ child child', getSegment target segment = some child ∧
      deleteSegments child rest = .ok (child', removed) ∧
      setSegments target [segment] child' = .ok target' := by
  cases target with
  | obj members =>
    cases hget : Json.get members segment <;>
      simp_all [deleteSegments, setSegments, getSegment, bind, Lib.bind_eq_ok]
  | arr items =>
    cases hindex : parseUsize segment with
    | none => simp [deleteSegments, hindex] at h
    | some index =>
      cases hitem : items[index]? <;>
        simp_all [deleteSegments, setSegments, getSegment, bind, Lib.bind_eq_ok]
  | _ => simp_all [deleteSegments]

theorem getSegment_setSegments {child : Json}
    (h : setSegments target [segment] child = .ok target') (other : String) :
    getSegment target' other =
      if samePlace target segment other then some child else getSegment target other := by
  cases target with
  | obj members =>
    cases h
    simp [getSegment, Json.get_insert, samePlace]
  | arr items =>
    cases hindex : parseUsize segment with
    | none => simp [setSegments, hindex] at h
    | some index =>
      cases hitem : items[index]? with
      | none => simp [setSegments, hindex, hitem] at h
      | some item =>
        -- an index behind the end was refused above
        obtain ⟨hlt, -⟩ := List.getElem?_eq_some_iff.1 hitem
        simp only [setSegments, hindex, hitem] at h
        cases h
        cases hother : parseUsize other <;>
          simp [getSegment, samePlace, hindex, hother, getElem?_set, hlt]
  | _ => cases h

theorem getSegments_setSegments {segments : List String}
    (h : setSegments target segments newValue = .ok target') :
    getSegments target' segments = some newValue ∧
      ∀ other, Apart target segments other → getSegments target' other = getSegments target other := by
  induction segments generalizing target target' with
  | nil =>
    cases h
    exact ⟨rfl, fun _ hapart => hapart.elim⟩
  | cons segment rest ih =>
    obtain ⟨child, hset, htarget⟩ := setSegments_cons.1 h
    have hchild := getSegment_setSegments htarget
    obtain ⟨hnew, hframe⟩ := ih hset
    refine ⟨?_, fun other hapart => ?_⟩
    · rw [getSegments_cons, hchild, if_pos (by cases target <;> simp [samePlace])]
      exact hnew
    · obtain _ | ⟨other, rest'⟩ := other
      · exact hapart.elim
      rw [getSegments_cons, getSegments_cons, hchild]
      by_cases hsame : samePlace target segment other = true
      -- the paths part further down, so the other one goes through the edited child
      · obtain hne | hrest := hapart
        · cases hsame.symm.trans hne
        rw [if_pos hsame, ← getSegment_samePlace hsame, Option.bind_some, hframe rest' hrest]
        cases getSegment target segment with
        | some old => rfl
        | none =>
          -- the child was created, and the other path led nowhere
          obtain _ | ⟨other', rest'⟩ := rest'
          · cases rest <;> exact hrest.elim
          · rfl
      · rw [if_neg hsame]

/-- A path that was written leads to the new value, and every path to another place leads to what
it led to. -/
theorem getJsonPath_setJsonPath {path : String} (h : setJsonPath target path newValue = .ok target') :
    getJsonPath target' path = some newValue ∧
      ∀ other, Apart target (pathSegments path) (pathSegments other) →
        getJsonPath target' other = getJsonPath target other := by
  obtain ⟨hnew, hframe⟩ := getSegments_setSegments h
  simp only [getJsonPath_eq]
  exact ⟨hnew, fun other => hframe _⟩

/-- A delete is a delete of the last segment in the container it leads to, which is then set. -/
theorem deleteSegments_concat {init : List String} {last : String} {removed : Bool}
    (h : deleteSegments target (init ++ [last]) = .ok (target', removed)) :
    ∃ parent parent', getSegments target init = some parent ∧
      deleteSegments parent [last] = .ok (parent', removed) ∧
      setSegments target init parent' = .ok target' := by
  induction init generalizing target target' with
  | nil => exact ⟨target, target', rfl, h, rfl⟩
  | cons segment init ih =>
    obtain ⟨child, child', hget, hdelete, hset⟩ := deleteSegments_cons (by simp) h
    obtain ⟨parent, parent', hparent, hlast, hchild⟩ := ih hdelete
    refine ⟨parent, parent', ?_, hlast, setSegments_cons.2 ⟨child', ?_, hset⟩⟩
    · rw [getSegments_cons, hget]
      exact hparent
    · rw [hget]
      exact hchild

/-- What a delete that found something leaves of the container: an object without the member it
had, or an array without the element, with those after it moved down. -/
def Lacks (parent : Json) (last : String) (parent' : Json) : Prop :=
  match parent with
  | .obj members => (Json.get members last).isSome = true ∧ ∃ members', parent' = .obj members' ∧
    ∀ key, Json.get members' key = if key = last then none else Json.get members key
  | .arr items => ∃ index < items.length, parseUsize last = some index ∧
    parent' = .arr (items.eraseIdx index)
  | _ => False

theorem lacks_of_deleteSegments {last : String}
    (h : deleteSegments target [last] = .ok (target', true)) : Lacks target last target' := by
  cases target with
  | obj members =>
    obtain ⟨rfl, hsome⟩ := Prod.mk.inj (Except.ok.inj h)
    refine ⟨hsome, _, rfl, fun key => ?_⟩
    clear h hsome
    induction members with
    | nil => grind [Json.get, Json.remove]
    | cons member members ih => grind [Json.get, Json.remove]
  | arr items =>
    cases hindex : parseUsize last <;> grind [deleteSegments, Lacks]
  | _ => cases h

/-- A delete that found something takes one place out of the container its path leads to; paths
that do not go through that container lead to what they led to. -/
theorem getJsonPath_deleteJsonPath {path : String} (h : deleteJsonPath target path = .ok (target', true)) :
    ∃ init last parent parent', pathSegments path = init ++ [last] ∧
      getSegments target init = some parent ∧ getSegments target' init = some parent' ∧
      Lacks parent last parent' ∧ ∀ other, Apart target init (pathSegments other) →
        getJsonPath target' other = getJsonPath target other := by
  rw [deleteJsonPath] at h
  rcases eq_nil_or_concat' (pathSegments path) with hnil | ⟨init, last, hpath⟩
  · rw [hnil] at h
    cases h
  · rw [hpath] at h
    obtain ⟨parent, parent', hparent, hdelete, hset⟩ := deleteSegments_concat h
    obtain ⟨hnew, hframe⟩ := getSegments_setSegments hset
    simp only [getJsonPath_eq]
    refine ⟨init, last, parent, parent', hpath, hparent, hnew, ?_, fun other => hframe _⟩
    exact lacks_of_deleteSegments hdelete

def dock : Json := .obj [("berths", .arr [.bool false, .bool true])]

/-- `01` is element 1, and element 0 stays. A crane that the edit creates has no other member. -/
theorem berth_written :
    (∃ dock', setJsonPath dock "berths.01" .null = .ok dock' ∧
      getJsonPath dock' "berths.01" = some .null ∧
      getJsonPath dock' "berths.0" = some (.bool false)) ∧
    ∃ dock', setJsonPath dock "crane.load" .null = .ok dock' ∧
      getJsonPath dock' "crane.load" = some .null ∧ getJsonPath dock' "crane.name" = none := by
  refine ⟨⟨_, rfl, ?_⟩, _, rfl, ?_⟩
  · have h := @getJsonPath_setJsonPath dock _ .null "berths.01" rfl
    exact ⟨h.1, h.2 "berths.0" (.inr (.inl rfl))⟩
  · have h := @getJsonPath_setJsonPath dock _ .null "crane.load" rfl
    exact ⟨h.1, h.2 "crane.name" (.inr (.inl rfl))⟩

theorem berth_removed : ∃ dock' init last parent parent',
    deleteJsonPath dock "berths" = .ok (dock', true) ∧
    pathSegments "berths" = init ++ [last] ∧ Lacks parent last parent' := by
  obtain ⟨init, last, parent, parent', hpath, -, -, hlacks, -⟩ :=
    @getJsonPath_deleteJsonPath dock _ "berths" rfl
  exact ⟨_, init, last, parent, parent', rfl, hpath, hlacks⟩

end LatLng.Geo
