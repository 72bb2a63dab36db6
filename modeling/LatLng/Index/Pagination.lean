import LatLng.Index.Search
import LatLng.Lib.Sorting

/-! Reading a search page by page. Each call filters and sorts its own candidates, and sorts them
only as far as the page goes; the pages fit together all the same. -/

namespace LatLng.Index

open Geo LatLng.Lib Std List

def partialSortThreshold : Nat := 256

def shouldPartialSort (total stop : Nat) : Bool :=
  decide (partialSortThreshold ≤ total) && decide (stop * 2 < total)

section Source

variable (std : SliceSort SearchCandidate) (lib : GeoLib) (q : QueryLib)

def sortCandidatesForPage (items : List SearchCandidate) (options : SearchOptions) (stop : Nat) :
    List SearchCandidate :=
  let descending := options.sort == .desc
  let cmp := fun left right => compareCandidates left right descending
  if items.length ≤ 1 then items
  else if stop == 0 || decide (items.length ≤ stop) || !shouldPartialSort items.length stop then
    std.sortBy cmp items
  else std.sortPrefix cmp stop items

def searchPage (options : SearchOptions) (candidates : List SearchCandidate) (area : Option Area)
    (allowClip : Bool) : Except IndexError SearchResults :=
  if options.fastLimitedIds then applyFastLimitedIds q options candidates
  else do
    let filtered ← filterCandidates q options candidates
    let total := filtered.length % 2 ^ 32
    let start := options.cursor
    let limit := pageLimit options
    let stop := min (start + limit) filtered.length
    let nextCursor := if stop < filtered.length then stop % 2 ^ 32 else 0
    if options.output = .count then .ok { results := [], cursor := nextCursor, count := total }
    else do
      let sorted := sortCandidatesForPage std filtered options stop
      let results ← ((sorted.drop start).take limit).mapM (searchItem lib q options area allowClip)
      .ok { results, cursor := nextCursor
            count := if options.includeCount then total else (stop - start) % 2 ^ 32 }

end Source

/-- Calls again with the returned cursor until it is 0. The answer to a call may depend on how
many calls there were before; nothing is returned if the calls are used up first. -/
def readPages (fetch : Nat → Nat → Except IndexError SearchResults) :
    Nat → Nat → Nat → Except IndexError (Option (List SearchItem))
  | 0, _, _ => .ok none
  | fuel + 1, call, cursor => do
    let page ← fetch call cursor
    if page.cursor = 0 then .ok (some page.results)
    else do
      let rest ← readPages fetch fuel (call + 1) page.cursor
      .ok (rest.map (page.results ++ ·))

def Comparable (candidates : List SearchCandidate) : Prop :=
  (∀ c ∈ candidates, c.distanceMeters = none) ∨
    ∀ c ∈ candidates, ∃ distance, c.distanceMeters = some distance ∧ distance.isNan = false

/-! ### The order of the candidates -/

section Order

def distanceRank (candidate : SearchCandidate) : Int :=
  match candidate.distanceMeters with
  | some distance => distance.rank
  | none => 0

def candidateOrder : SearchCandidate → SearchCandidate → Ordering :=
  compareLex (compareOn distanceRank) (compareOn fun c => c.object.id)

instance : TransCmp candidateOrder :=
  inferInstanceAs (TransCmp (compareLex (compareOn distanceRank) (compareOn fun c =>
    c.object.id)))

theorem compareDistances_eq {x y : F64} (hx : x.isNan = false) (hy : y.isNan = false) :
    compareDistances x y = compare x.rank y.rank := by
  have hlt : ∀ a b : F64, a.isNan = false → b.isNan = false →
      (a.lt b = true ↔ a.rank < b.rank) := by
    intro a b ha hb
    simp [F64.lt, ha, hb]
  unfold compareDistances
  rcases Int.lt_trichotomy x.rank y.rank with h | h | h
  · rw [if_pos ((hlt x y hx hy).2 h)]
    exact (Int.compare_eq_lt.2 h).symm
  · have hxy : ¬ x.lt y = true := fun hc => by
      have := (hlt x y hx hy).1 hc
      omega
    have hyx : ¬ y.lt x = true := fun hc => by
      have := (hlt y x hy hx).1 hc
      omega
    rw [if_neg hxy, if_neg hyx]
    exact (Int.compare_eq_eq.2 h).symm
  · have hxy : ¬ x.lt y = true := fun hc => by
      have := (hlt x y hx hy).1 hc
      omega
    rw [if_neg hxy, if_pos ((hlt y x hy hx).2 h)]
    exact (Int.compare_eq_gt.2 h).symm

variable {candidates : List SearchCandidate}

theorem compareCandidates_eq (h : Comparable candidates) {a b : SearchCandidate}
    (ha : a ∈ candidates) (hb : b ∈ candidates) (descending : Bool) :
    compareCandidates a b descending =
      if descending then (candidateOrder a b).swap else candidateOrder a b := by
  have horder : candidateOrder a b =
      (compare (distanceRank a) (distanceRank b)).then (compare a.object.id b.object.id) := rfl
  rw [horder]
  unfold compareCandidates distanceRank
  obtain hnone | hsome := h
  · rw [hnone a ha, hnone b hb]
    rfl
  · obtain ⟨x, hx, hxn⟩ := hsome a ha
    obtain ⟨y, hy, hyn⟩ := hsome b hb
    rw [hx, hy]
    simp only [compareDistances_eq hxn hyn]

theorem strictOn_compareCandidates (h : Comparable candidates)
    (hids : (candidates.map fun c => c.object.id).Nodup) (descending : Bool) :
    StrictOn (fun a b => compareCandidates a b descending) candidates := by
  have hswap : ∀ a b, candidateOrder b a = (candidateOrder a b).swap := fun a b =>
    OrientedCmp.eq_swap
  refine ⟨⟨?_, ?_⟩, ?_⟩
  · intro a ha b hb
    rw [compareCandidates_eq h ha hb, compareCandidates_eq h hb ha]
    cases descending with
    | false => exact hswap a b
    | true => exact congrArg Ordering.swap (hswap a b)
  · intro a ha b hb c hc hab hbc
    rw [compareCandidates_eq h ha hb] at hab
    rw [compareCandidates_eq h hb hc] at hbc
    rw [compareCandidates_eq h ha hc]
    cases descending with
    | false =>
      simp only [Bool.false_eq_true, if_false] at hab hbc ⊢
      exact TransCmp.isLE_trans hab hbc
    | true =>
      -- the reverse order, read from right to left
      simp only [if_true, ← hswap] at hab hbc ⊢
      exact TransCmp.isLE_trans hbc hab
  · intro a ha b hb heq
    rw [compareCandidates_eq h ha hb] at heq
    have horder : candidateOrder a b = .eq := by
      cases descending with
      | false => exact heq
      | true => simpa using heq
    have hid : compare a.object.id b.object.id = .eq :=
      (Ordering.then_eq_eq.1 horder).2
    exact inj_on_of_nodup_map hids ha hb (LawfulEqCmp.eq_of_compare hid)

section Page

variable (std : SliceSort SearchCandidate) (options : SearchOptions)
  (hstrict : StrictOn (fun a b => compareCandidates a b (options.sort == .desc)) candidates)
  {stop : Nat} (hstop : stop ≤ candidates.length)

include hstrict hstop

theorem sortCandidatesForPage_perm :
    (sortCandidatesForPage std candidates options stop).Perm candidates := by
  unfold sortCandidatesForPage
  split
  next => exact List.Perm.refl _
  next =>
    split
    next => exact std.sortBy_perm hstrict.toTotalOn
    next hpartial =>
      simp only [Bool.or_eq_true, not_or, beq_iff_eq] at hpartial
      exact std.sortPrefix_perm hstrict.toTotalOn (Nat.pos_of_ne_zero hpartial.1.1) hstop

theorem take_sortCandidatesForPage :
    (sortCandidatesForPage std candidates options stop).take stop =
      (sortCandidates candidates (options.sort == .desc)).take stop := by
  unfold sortCandidatesForPage sortCandidates
  by_cases hone : candidates.length ≤ 1
  · have hself : candidates.mergeSort (fun a b =>
        (compareCandidates a b (options.sort == .desc)).isLE) = candidates := by
      match candidates, hone with
      | [], _ => simp
      | [c], _ => simp
    simp only [if_pos hone, hself]
  · simp only [if_neg hone]
    split
    next => rw [std.sortBy_eq hstrict]
    next hpartial =>
      simp only [Bool.or_eq_true, not_or, beq_iff_eq] at hpartial
      exact std.take_sortPrefix hstrict (Nat.pos_of_ne_zero hpartial.1.1) hstop

end Page

end Order

/-! ### The filters -/

section Filters

variable {q : QueryLib} {options : SearchOptions}

def Decided (q : QueryLib) (options : SearchOptions) (candidate : SearchCandidate) : Prop :=
  ∃ matched, matchesCandidate q.toFilterLib candidate.object options = .ok matched

theorem accepts_iff {object : Object} : accepts q.toFilterLib options object = true ↔
    matchesCandidate q.toFilterLib object options = .ok true := by
  unfold accepts
  cases matchesCandidate q.toFilterLib object options with
  | error e => simp
  | ok matched => simp

variable {candidates : List SearchCandidate}

theorem filterCandidates_ok (h : ∀ c ∈ candidates, Decided q options c) :
    filterCandidates q options candidates =
      .ok (candidates.filter fun c => accepts q.toFilterLib options c.object) := by
  induction candidates with
  | nil => rfl
  | cons c candidates ih =>
    obtain ⟨matched, hmatched⟩ := h c mem_cons_self
    have haccepts : accepts q.toFilterLib options c.object = matched := by
      rw [accepts, hmatched]
    simp only [filterCandidates, hmatched, ih fun d hd => h d (mem_cons_of_mem c hd), bind,
      Except.bind, filter_cons, haccepts]

theorem filterCandidates_cursor (cursor : Nat) (candidates : List SearchCandidate) :
    filterCandidates q { options with cursor } candidates =
      filterCandidates q options candidates := by
  induction candidates with
  | nil => rfl
  | cons c candidates ih =>
    unfold filterCandidates
    rw [ih]
    rfl

theorem filterCandidates_decided {kept : List SearchCandidate}
    (h : filterCandidates q options candidates = .ok kept) :
    ∀ c ∈ candidates, Decided q options c := by
  induction candidates generalizing kept with
  | nil => exact fun _ hc => absurd hc not_mem_nil
  | cons c candidates ih =>
    unfold filterCandidates at h
    cases hmatched : matchesCandidate q.toFilterLib c.object options with
    | error e =>
      rw [hmatched] at h
      cases h
    | ok matched =>
      cases hrest : filterCandidates q options candidates with
      | error e =>
        rw [hmatched, hrest] at h
        cases h
      | ok rest =>
        intro d hd
        rcases mem_cons.1 hd with rfl | hd
        · exact ⟨matched, hmatched⟩
        · exact ih hrest d hd

end Filters

/-! ### Whole walks -/

theorem page_congr {α : Type} {a b : List α} {n cursor limit : Nat}
    (htake : a.take (min (cursor + limit) n) = b.take (min (cursor + limit) n))
    (ha : a.length = n) (hb : b.length = n) :
    (a.drop cursor).take limit = (b.drop cursor).take limit := by
  have hcut : ∀ l : List α, l.length = n →
      (l.drop cursor).take limit = (l.take (min (cursor + limit) n)).drop cursor := by
    intro l hl
    rw [← hl, take_eq_take_min.symm, drop_take, Nat.add_sub_cancel_left]
  rw [hcut a ha, hcut b hb, htake]

def PageOf (items : List SearchItem) (limit cursor : Nat) (page : SearchResults) : Prop :=
  page.results = (items.drop cursor).take limit ∧
    page.cursor = if cursor + limit < items.length then cursor + limit else 0

theorem readPages_eq {fetch : Nat → Nat → Except IndexError SearchResults}
    {items : List SearchItem} {limit : Nat} (hlimit : 0 < limit)
    (hfetch : ∀ call cursor, ∃ page, fetch call cursor = .ok page ∧ PageOf items limit cursor page)
    {fuel : Nat} (call cursor : Nat) (hfuel : items.length < cursor + fuel) (hpos : 0 < fuel) :
    readPages fetch fuel call cursor = .ok (some (items.drop cursor)) := by
  induction fuel generalizing call cursor with
  | zero => omega
  | succ fuel ih =>
    obtain ⟨page, hpage, hresults, hnext⟩ := hfetch call cursor
    simp only [readPages, hpage, bind, Except.bind]
    by_cases hmore : cursor + limit < items.length
    · rw [if_pos hmore] at hnext
      have hne : page.cursor ≠ 0 := by omega
      rw [if_neg hne, hnext, ih (call + 1) (cursor + limit) (by omega) (by omega)]
      have hsplit : (items.drop cursor).take limit ++ items.drop (cursor + limit) =
          items.drop cursor := by
        rw [← drop_drop, take_append_drop]
      simp [hresults, hsplit]
    · rw [if_neg hmore] at hnext
      have hall : (items.drop cursor).take limit = items.drop cursor := by
        apply take_of_length_le
        rw [length_drop]
        omega
      rw [if_pos hnext, hresults, hall]

section Walk

variable (std : SliceSort SearchCandidate) {lib : GeoLib} {q : QueryLib} {options : SearchOptions}
  {area : Option Area} {allowClip : Bool} {candidates : List SearchCandidate}

theorem filterCandidates_subset {kept : List SearchCandidate}
    (h : filterCandidates q options candidates = .ok kept) :
    kept = candidates.filter fun c => accepts q.toFilterLib options c.object := by
  have hok := filterCandidates_ok (filterCandidates_decided h)
  exact Except.ok.inj (h.symm.trans hok)

theorem searchPage_eq (hcount : candidates.length < 2 ^ 32)
    (hstrict : StrictOn (fun a b => compareCandidates a b (options.sort == .desc)) candidates) :
    searchPage std lib q options candidates area allowClip =
      applySearchOptions lib q options candidates area allowClip := by
  unfold searchPage applySearchOptions
  split
  next => rfl
  next =>
    cases hfilter : filterCandidates q options candidates with
    | error e => rfl
    | ok kept =>
      have hkept := filterCandidates_subset hfilter
      have hlength : kept.length < 2 ^ 32 := by
        rw [hkept]
        exact Nat.lt_of_le_of_lt (length_filter_le _ _) hcount
      have hkeptStrict : StrictOn (fun a b => compareCandidates a b (options.sort == .desc))
          kept := hstrict.mono fun c hc => (mem_filter.1 (hkept ▸ hc)).1
      have hstop := Nat.min_le_right (options.cursor + pageLimit options) kept.length
      have hpage : ((sortCandidatesForPage std kept options
          (min (options.cursor + pageLimit options) kept.length)).drop options.cursor).take
            (pageLimit options) =
          ((sortCandidates kept (options.sort == .desc)).drop options.cursor).take
            (pageLimit options) :=
        page_congr (take_sortCandidatesForPage std options hkeptStrict hstop)
          (sortCandidatesForPage_perm std options hkeptStrict hstop).length_eq
          (length_mergeSort _)
      have htotal : kept.length % 2 ^ 32 = kept.length := Nat.mod_eq_of_lt hlength
      have hwidth : min (options.cursor + pageLimit options) kept.length % 2 ^ 32 =
          min (options.cursor + pageLimit options) kept.length :=
        Nat.mod_eq_of_lt (Nat.lt_of_le_of_lt hstop hlength)
      have hpart : (min (options.cursor + pageLimit options) kept.length - options.cursor) %
          2 ^ 32 = min (options.cursor + pageLimit options) kept.length - options.cursor :=
        Nat.mod_eq_of_lt (Nat.lt_of_le_of_lt (Nat.sub_le _ _)
          (Nat.lt_of_le_of_lt hstop hlength))
      simp only [bind, Except.bind, pageOf, hpage, htotal, hwidth, hpart]

theorem fastLimitedIds_cursor (hfast : ({ options with cursor := 0 }).fastLimitedIds = false)
    (cursor : Nat) : ({ options with cursor }).fastLimitedIds = false := by
  simp only [SearchOptions.fastLimitedIds] at hfast ⊢
  cases hzero : (cursor == 0) with
  | true => simpa using hfast
  | false => simp

variable (lib q options area allowClip)

def pageAt (present : Nat → List SearchCandidate) (call cursor : Nat) :
    Except IndexError SearchResults :=
  searchPage std lib q { options with cursor } (present call) area allowClip

variable {lib q options area allowClip}

section Complete

variable {present : Nat → List SearchCandidate}
  (hpresent : ∀ call, (present call).Perm candidates) (hcount : candidates.length < 2 ^ 32)
  (hids : (candidates.map fun c => c.object.id).Nodup) (hcomparable : Comparable candidates)
  (hfast : ({ options with cursor := 0 }).fastLimitedIds = false)

include hpresent hcount hids hcomparable hfast

theorem pageAt_eq (call cursor : Nat) :
    pageAt std lib q options area allowClip present call cursor =
      (filterCandidates q options (present call)).bind fun found =>
        pageOf lib q { options with cursor } found area allowClip := by
  have hstrict := (strictOn_compareCandidates hcomparable hids (options.sort == .desc)).mono
    fun c hc => (hpresent call).mem_iff.1 hc
  have hlength : (present call).length < 2 ^ 32 := by
    rw [(hpresent call).length_eq]
    exact hcount
  have hpage : pageAt std lib q options area allowClip present call cursor =
      applySearchOptions lib q { options with cursor } (present call) area allowClip :=
    searchPage_eq std hlength hstrict
  rw [hpage, applySearchOptions, fastLimitedIds_cursor hfast, filterCandidates_cursor]
  rfl

theorem readPages_error {e : IndexError}
    (hfilter : filterCandidates q options candidates = .error e) (fuel : Nat) :
    ∃ e', readPages (pageAt std lib q options area allowClip present) (fuel + 1) 0 0 =
      .error e' := by
  cases hfirst : filterCandidates q options (present 0) with
  | error e' =>
    refine ⟨e', ?_⟩
    rw [readPages, pageAt_eq std hpresent hcount hids hcomparable hfast, hfirst]
    rfl
  | ok found =>
    have hdecided := filterCandidates_decided hfirst
    rw [filterCandidates_ok fun c hc => hdecided c ((hpresent 0).mem_iff.2 hc)] at hfilter
    cases hfilter

theorem pageAt_page (houtput : options.output ≠ .count)
    (hdecided : ∀ c ∈ candidates, Decided q options c) {format : SearchCandidate → SearchItem}
    (hformat : ∀ c ∈ candidates, searchItem lib q options area allowClip c = .ok (format c))
    (call cursor : Nat) :
    ∃ page, pageAt std lib q options area allowClip present call cursor = .ok page ∧
      PageOf ((sortCandidates (candidates.filter fun c => accepts q.toFilterLib options c.object)
        (options.sort == .desc)).map format) (pageLimit options) cursor page := by
  have hfound : filterCandidates q options (present call) =
      .ok ((present call).filter fun c => accepts q.toFilterLib options c.object) :=
    filterCandidates_ok fun c hc => hdecided c ((hpresent call).mem_iff.1 hc)
  have hperm := (hpresent call).filter fun c => accepts q.toFilterLib options c.object
  have hsub : ∀ c ∈ candidates.filter fun c => accepts q.toFilterLib options c.object,
      c ∈ candidates := fun c hc => (mem_filter.1 hc).1
  rw [pageAt_eq std hpresent hcount hids hcomparable hfast, hfound]
  generalize (present call).filter (fun c => accepts q.toFilterLib options c.object) = found
    at hperm ⊢
  generalize candidates.filter (fun c => accepts q.toFilterLib options c.object) = kept
    at hperm hsub ⊢
  have hstrict := (strictOn_compareCandidates hcomparable hids (options.sort == .desc)).mono hsub
  have hsort : sortCandidates found (options.sort == .desc) =
      sortCandidates kept (options.sort == .desc) := hstrict.mergeSort_congr hperm
  have hlength : (sortCandidates kept (options.sort == .desc)).length = found.length :=
    (length_mergeSort _).trans hperm.length_eq.symm
  have hitems : (((sortCandidates kept (options.sort == .desc)).drop cursor).take
      (pageLimit options)).mapM (searchItem lib q { options with cursor } area allowClip) =
        .ok ((((sortCandidates kept (options.sort == .desc)).drop cursor).take
          (pageLimit options)).map format) := by
    apply mapM_ok
    intro c hc
    have hc := mem_mergeSort.1 (mem_of_mem_drop (mem_of_mem_take hc))
    exact hformat c (hsub c hc)
  have hpage : pageOf lib q { options with cursor } found area allowClip =
      .ok { results := (((sortCandidates kept (options.sort == .desc)).drop cursor).take
              (pageLimit options)).map format
            cursor := if min (cursor + pageLimit options) found.length < found.length
              then min (cursor + pageLimit options) found.length else 0
            count := if options.includeCount then found.length
              else min (cursor + pageLimit options) found.length - cursor } := by
    unfold pageOf
    rw [if_neg houtput, hsort]
    exact congrArg (fun items : Except IndexError (List SearchItem) => items >>= _) hitems
  refine ⟨_, hpage, ?_, ?_⟩
  · rw [map_take, map_drop]
  · rw [length_map, hlength]
    by_cases hmore : cursor + pageLimit options < found.length
    · have hmin : min (cursor + pageLimit options) found.length = cursor + pageLimit options :=
        Nat.min_eq_left (Nat.le_of_lt hmore)
      rw [hmin]
    · have hmin : min (cursor + pageLimit options) found.length = found.length :=
        Nat.min_eq_right (Nat.le_of_not_lt hmore)
      rw [hmin, if_neg hmore, if_neg (Nat.lt_irrefl _)]

/-- Reading page by page ends, and what was read is every candidate that passes the filters, once
and in order. -/
theorem readPages_complete (houtput : options.output ≠ .count)
    (hformat : ∀ c ∈ candidates, ∃ item, searchItem lib q options area allowClip c = .ok item) :
    match filterCandidates q options candidates with
    | .error _ => ∀ fuel, ∃ e, readPages (pageAt std lib q options area allowClip present)
        (fuel + 1) 0 0 = .error e
    | .ok kept =>
      (∀ c, c ∈ kept ↔
        c ∈ candidates ∧ matchesCandidate q.toFilterLib c.object options = .ok true) ∧
      ∃ (sorted : List SearchCandidate) (items : List SearchItem), sorted.Perm kept ∧
        sorted.Pairwise (fun a b => compareCandidates a b (options.sort == .desc) = .lt) ∧
        sorted.mapM (searchItem lib q options area allowClip) = .ok items ∧
        ∀ fuel, kept.length < fuel →
          readPages (pageAt std lib q options area allowClip present) fuel 0 0 =
            .ok (some items) := by
  cases hfilter : filterCandidates q options candidates with
  | error e => exact readPages_error std hpresent hcount hids hcomparable hfast hfilter
  | ok kept =>
    have hdecided := filterCandidates_decided hfilter
    have hkept := filterCandidates_subset hfilter
    have hsub : ∀ c ∈ kept, c ∈ candidates := fun c hc => (mem_filter.1 (hkept ▸ hc)).1
    have hstrict := (strictOn_compareCandidates hcomparable hids (options.sort == .desc)).mono hsub
    have hnodup : kept.Nodup := by
      rw [hkept]
      exact (List.Nodup.of_map _ hids).filter _
    let format := fun c => match searchItem lib q options area allowClip c with
      | .ok item => item
      | .error _ => idItem c
    have hitem : ∀ c ∈ candidates,
        searchItem lib q options area allowClip c = .ok (format c) := by
      intro c hc
      obtain ⟨item, hitem⟩ := hformat c hc
      simp only [format, hitem]
    have hpasses : ∀ c, c ∈ kept ↔
        c ∈ candidates ∧ matchesCandidate q.toFilterLib c.object options = .ok true := by
      intro c
      rw [hkept, mem_filter]
      exact and_congr_right fun _ => accepts_iff
    refine ⟨hpasses, sortCandidates kept (options.sort == .desc), _, mergeSort_perm _ _,
      hstrict.lt_mergeSort hnodup,
      mapM_ok fun c hc => hitem c (hsub c (mem_mergeSort.1 hc)), ?_⟩
    intro fuel hfuel
    have hfetch := pageAt_page std hpresent hcount hids hcomparable hfast houtput hdecided hitem
    rw [← hkept] at hfetch
    have hlength : (sortCandidates kept (options.sort == .desc)).length = kept.length :=
      length_mergeSort _
    exact readPages_eq (Nat.lt_of_lt_of_le Nat.one_pos (Nat.le_max_right _ _)) hfetch 0 0
      (by rw [length_map, hlength]; omega) (by omega)

end Complete

end Walk

namespace Stops

def plainGeo : GeoLib := .blank

def plainQuery : QueryLib where
  toFilterLib := plain
  haversineDistanceMeters := fun _ _ _ _ => F64.zero
  encodeGeohash := fun _ _ _ => ""
  clipGeo := fun geo _ => .ok geo
  toGeojsonValue := fun _ => .error .unsupportedGeoJson
  areaEnvelope := fun _ => .error .unresolvedReference
  containsGeo := fun _ _ => .ok false
  intersectsGeo := fun _ _ => .ok false
  nearestNeighbors := fun entries _ => entries
  locateInEnvelope := fun entries _ => entries
  locateInEnvelopeIntersecting := fun entries _ => entries

def stop (id : String) (distance : F64) : SearchCandidate :=
  { object := { id, geo := .string id, fields := ∅, expiresAt := none }
    distanceMeters := some distance }

def near : SearchCandidate := stop "near" F64.zero

def far : SearchCandidate := stop "far" F64.ninety

def turning (call : Nat) : List SearchCandidate :=
  if call % 2 = 0 then [near, far] else [far, near]

/-- Two stops, one to a page, are read nearest first. -/
theorem stops_read_one_by_one :
    (readPages (pageAt SliceSort.whole plainGeo plainQuery { limit := 1 } none false turning)
      3 0 0).map (Option.map (map SearchItem.id)) = .ok (some ["near", "far"]) := by
  have hturning : ∀ call, (turning call).Perm [near, far] := by
    intro call
    unfold turning
    split
    · exact List.Perm.refl _
    · exact List.Perm.swap _ _ _
  have hcomparable : Comparable [near, far] := by
    refine .inr fun c hc => ?_
    rcases mem_pair.1 hc with rfl | rfl
    · exact ⟨F64.zero, rfl, rfl⟩
    · exact ⟨F64.ninety, rfl, rfl⟩
  obtain ⟨-, sorted, items, hperm, hlt, hitems, hread⟩ :=
    @readPages_complete SliceSort.whole plainGeo plainQuery { limit := 1 } none false [near, far]
      turning hturning (by decide) (by decide) hcomparable rfl (by decide) fun c _ => ⟨_, rfl⟩
  rw [hread 3 (by decide)]
  rcases perm_pair.1 hperm with rfl | rfl
  · cases hitems
    rfl
  · have hfar := rel_of_pairwise_cons hlt mem_cons_self
    cases hfar

end Stops

end LatLng.Index
