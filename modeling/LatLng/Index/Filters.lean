import LatLng.Index.SpatialIndex
import LatLng.Lib.Text
import LatLng.Lib.Except

/-! The filters of a search: how a field of an object is resolved to a value, and how ranges,
texts, lists, patterns and expressions are evaluated on it. Filters that passed validation never
fail to evaluate. -/

namespace LatLng.Index

open Geo List

/-- Globs, regular expressions, and the text forms of floats and JSON documents. -/
structure FilterLib where
  globMatch : String → String → Bool
  /-- A compiled pattern tells whether a text has a match. -/
  regex : String → Except String (String → Bool)
  parseF64 : String → Option F64
  display : F64 → String
  ofInt : Int → F64
  parseJson : String → Option Json
  renderJson : Json → String

variable (lib : FilterLib)

/-! ### Values -/

inductive ResolvedValue where
  | number (n : F64)
  | text (s : String)
  | json (value : Json)

def asF64 : JsonNumber → F64
  | .posInt n => lib.ofInt n
  | .negInt n => lib.ofInt (-n)
  | .float x => x

def jsonValueToResolved : Json → ResolvedValue
  | .number n => .number (asF64 lib n)
  | .str s => .text s
  | other => .json other

/-- The field as a JSON document; a float that is not finite has no JSON number. -/
def fieldAsJson : FieldValue → Option Json
  | .json raw => lib.parseJson raw
  | .text s => some (.str s)
  | .number n => some (if n.isFinite then .number (.float n) else .null)

def resolveField : FieldValue → ResolvedValue
  | .number n => .number n
  | .text s => .text s
  | .json raw => match lib.parseJson raw with
    | some value => .json value
    | none => .text raw

/-- A member of the field before the first dot. -/
def nestedValue (fields : FieldMap) (path : String) : Option Json := do
  let (root, nested) ← Lib.splitOnce ['.'] path.toList
  let value ← fields[String.ofList root]?
  getJsonPath (← fieldAsJson lib value) (String.ofList nested)

def geoMember (geo : GeoType) (path : String) : Option Json :=
  match geo with
  | .geoJson value => getJsonPath value path
  | _ => none

/-- What does not resolve reads as the number 0. -/
def resolveElsewhere (object : Object) (path : String) : ResolvedValue :=
  match nestedValue lib object.fields path with
  | some value => jsonValueToResolved lib value
  | none => match geoMember object.geo path with
    | some value => jsonValueToResolved lib value
    | none => .number F64.zero

def altitude : GeoType → Option F64
  | .point _ _ z => z
  | _ => none

def resolveStored (object : Object) (path : String) : ResolvedValue :=
  match object.fields[path]? with
  | some value => resolveField lib value
  | none => resolveElsewhere lib object path

def resolveValue (object : Object) (path : String) : ResolvedValue :=
  if path = "z" then match altitude object.geo with
    | some z => .number z
    | none => resolveStored lib object path
  else resolveStored lib object path

def numericValue : ResolvedValue → Option F64
  | .number n => some n
  | .text s => lib.parseF64 s
  | .json (.number n) => some (asF64 lib n)
  | .json _ => none

def stringValue : ResolvedValue → String
  | .number n => lib.display n
  | .text s => s
  | .json value => lib.renderJson value

/-! ### Comparisons -/

def inRange (min max : F64) (value : ResolvedValue) : Bool :=
  match numericValue lib value with
  | some n => min.le n && n.le max
  | none => false

def compileRegex (pattern : String) : Except IndexError (String → Bool) :=
  (lib.regex pattern).mapError .regex

def matchesWhere (object : Object) (filter : WhereFilter) : Except IndexError Bool :=
  let value := resolveValue lib object filter.field
  match filter.comparison with
  | .range min max => .ok (inRange lib min max value)
  | .equalsText expected => .ok (stringValue lib value == expected)
  | .regex pattern => (compileRegex lib pattern).map fun isMatch => isMatch (stringValue lib value)

def matchesWhereIn (object : Object) (filter : WhereInFilter) : Bool :=
  filter.values.contains (stringValue lib (resolveValue lib object filter.field))

/-! ### Expressions -/

inductive Operator where
  | regex
  | ge
  | le
  | eq
  | ne
  | gt
  | lt

def Operator.text : Operator → List Char
  | .regex => ['=', '~']
  | .ge => ['>', '=']
  | .le => ['<', '=']
  | .eq => ['=', '=']
  | .ne => ['!', '=']
  | .gt => ['>']
  | .lt => ['<']

/-- In the order in which a clause is searched for them. -/
def operators : List Operator := [.regex, .ge, .le, .eq, .ne, .gt, .lt]

def pieces (sep text : List Char) : List (List Char) :=
  ((Lib.split sep text).map Lib.trim).filter (· ≠ [])

def trimQuotes (value : List Char) : String :=
  String.ofList <| Lib.trimBy (· == Char.ofNat 39) (Lib.trimBy (· == Char.ofNat 34) (Lib.trim value))

def parseNumber (value : List Char) : F64 :=
  match trimQuotes value with
  | "+inf" => F64.infinity
  | "inf" => F64.infinity
  | "-inf" => F64.negInfinity
  | other => (lib.parseF64 other).getD F64.zero

def compareValue (value : ResolvedValue) (right : List Char) (cmp : String → String → Bool) : Bool :=
  cmp (stringValue lib value) (trimQuotes right)

def compareNumber (value : ResolvedValue) (right : List Char) (cmp : F64 → F64 → Bool) : Bool :=
  match numericValue lib value with
  | some n => cmp n (parseNumber lib right)
  | none => false

/-- The first operator that occurs in the clause, and what stands on its two sides. -/
def splitClause (clause : List Char) : Option (Operator × List Char × List Char) :=
  operators.findSome? fun operator =>
    (Lib.splitOnce operator.text clause).map fun sides => (operator, sides)

def evaluateOperator (value : ResolvedValue) (right : List Char) :
    Operator → Except IndexError Bool
  | .regex => (compileRegex lib (trimQuotes right)).map fun isMatch => isMatch (stringValue lib value)
  | .eq => .ok (compareValue lib value right fun a b => a == b)
  | .ne => .ok (compareValue lib value right fun a b => a != b)
  | .gt => .ok (compareNumber lib value right fun a b => b.lt a)
  | .lt => .ok (compareNumber lib value right fun a b => a.lt b)
  | .ge => .ok (compareNumber lib value right fun a b => b.le a)
  | .le => .ok (compareNumber lib value right fun a b => a.le b)

def evaluateClause (object : Object) (clause : List Char) : Except IndexError Bool :=
  match splitClause clause with
  | some (operator, left, right) =>
    evaluateOperator lib (resolveValue lib object (String.ofList (Lib.trim left))) (Lib.trim right)
      operator
  | none => .error (.invalidExpression (String.ofList clause))

def evaluateClauses (object : Object) : List (List Char) → Except IndexError Bool
  | [] => .ok true
  | clause :: clauses => do
    if ← evaluateClause lib object clause then evaluateClauses object clauses else .ok false

def evaluateBranches (object : Object) : List (List Char) → Except IndexError Bool
  | [] => .ok false
  | branch :: branches => do
    if ← evaluateClauses lib object (pieces ['&', '&'] branch) then .ok true
    else evaluateBranches object branches

def evaluateExpression (object : Object) (expression : String) : Except IndexError Bool :=
  match pieces ['|', '|'] expression.toList with
  | [] => .error (.invalidExpression expression)
  | branches => evaluateBranches lib object branches

def validateClause (clause : List Char) : Except IndexError Unit :=
  match splitClause clause with
  | none => .error (.invalidExpression (String.ofList clause))
  | some (.regex, _, right) => (compileRegex lib (trimQuotes right)).map fun _ => ()
  | some _ => .ok ()

def validateClauses : List (List Char) → Except IndexError Unit
  | [] => .ok ()
  | clause :: clauses => do
    validateClause lib clause
    validateClauses clauses

def clausesOf (expression : String) : List (List Char) :=
  (Lib.split ['|', '|'] expression.toList).flatMap (pieces ['&', '&'])

def validateExpression (expression : String) : Except IndexError Unit :=
  match clausesOf expression with
  | [] => .error (.invalidExpression expression)
  | clauses => validateClauses lib clauses

/-! ### Options -/

def validateWhere : List WhereFilter → Except IndexError Unit
  | [] => .ok ()
  | filter :: filters => do
    match filter.comparison with
    | .regex pattern =>
      let _ ← compileRegex lib pattern
      validateWhere filters
    | _ => validateWhere filters

def validateExpressions : List String → Except IndexError Unit
  | [] => .ok ()
  | expression :: expressions => do
    validateExpression lib expression
    validateExpressions expressions

def SearchOptions.validate (options : SearchOptions) : Except IndexError Unit := do
  validateWhere lib options.whereFilters
  validateExpressions lib options.whereExprFilters

def allWhere (object : Object) : List WhereFilter → Except IndexError Bool
  | [] => .ok true
  | filter :: filters => do
    if ← matchesWhere lib object filter then allWhere object filters else .ok false

def allExpressions (object : Object) : List String → Except IndexError Bool
  | [] => .ok true
  | expression :: expressions => do
    if ← evaluateExpression lib object expression then allExpressions object expressions
    else .ok false

def matchesPattern (object : Object) (options : SearchOptions) : Bool :=
  match options.matchPattern with
  | some pattern => lib.globMatch pattern object.id
  | none => true

def matchesCandidate (object : Object) (options : SearchOptions) : Except IndexError Bool :=
  if !matchesPattern lib object options then .ok false
  else do
    if !(← allWhere lib object options.whereFilters) then .ok false
    else if !options.whereInFilters.all (matchesWhereIn lib object) then .ok false
    else allExpressions lib object options.whereExprFilters

/-! ### Validated filters evaluate -/

section Validated

variable {lib} {object : Object}

theorem trimQuotes_trim (value : List Char) : trimQuotes (Lib.trim value) = trimQuotes value := by
  have htrim : Lib.trim (Lib.trim value) = Lib.trim value := Lib.trimBy_trimBy _ _
  rw [trimQuotes, trimQuotes, htrim]

theorem pieces_trim {sep : List Char} (hne : sep ≠ []) (hsep : ∀ c ∈ sep, ¬ Lib.isWhitespace c)
    (text : List Char) : pieces sep (Lib.trim text) = pieces sep text := by
  rw [pieces, pieces]
  exact congrArg _ (Lib.map_trimBy_split hne hsep text)

theorem pieces_and_trim (text : List Char) :
    pieces ['&', '&'] (Lib.trim text) = pieces ['&', '&'] text :=
  pieces_trim (by simp) (fun c hc => by rw [eq_of_mem_replicate (n := 2) hc]; decide) text

theorem evaluateClause_ok {clause : List Char} (h : validateClause lib clause = .ok ()) :
    ∃ b, evaluateClause lib object clause = .ok b := by
  rw [validateClause] at h
  rw [evaluateClause]
  split at h
  · cases h
  next left right hsplit =>
    rw [hsplit]
    simp only [evaluateOperator, trimQuotes_trim]
    cases hregex : compileRegex lib (trimQuotes right) with
    | error e =>
      rw [hregex] at h
      cases h
    | ok isMatch => exact ⟨_, rfl⟩
  next found hne hsplit =>
    obtain ⟨operator, left, right⟩ := found
    rw [hsplit]
    cases operator with
    | regex => exact absurd rfl (hne left right)
    | ge | le | eq | ne | gt | lt => exact ⟨_, rfl⟩

variable {clauses : List (List Char)}

theorem validateClauses_mem
    (h : validateClauses lib clauses = .ok ()) : ∀ c ∈ clauses, validateClause lib c = .ok () := by
  induction clauses with
  | nil => simp
  | cons clause clauses ih =>
    rw [validateClauses] at h
    obtain ⟨u, hclause, h⟩ := Lib.bind_eq_ok.1 h
    exact forall_mem_cons.2 ⟨hclause, ih h⟩

theorem evaluateClauses_ok (h : ∀ c ∈ clauses, validateClause lib c = .ok ()) :
    ∃ b, evaluateClauses lib object clauses = .ok b := by
  induction clauses with
  | nil => exact ⟨true, rfl⟩
  | cons clause clauses ih =>
    obtain ⟨hclause, hrest⟩ := forall_mem_cons.1 h
    obtain ⟨b, hb⟩ := evaluateClause_ok hclause
    rw [evaluateClauses, hb]
    cases b with
    | false => exact ⟨false, rfl⟩
    | true => exact ih hrest

variable {branches : List (List Char)}

theorem evaluateBranches_ok
    (h : ∀ branch ∈ branches, ∀ c ∈ pieces ['&', '&'] branch, validateClause lib c = .ok ()) :
    ∃ b, evaluateBranches lib object branches = .ok b := by
  induction branches with
  | nil => exact ⟨false, rfl⟩
  | cons branch branches ih =>
    obtain ⟨hbranch, hrest⟩ := forall_mem_cons.1 h
    obtain ⟨b, hb⟩ := evaluateClauses_ok hbranch
    rw [evaluateBranches, hb]
    cases b with
    | false => exact ih hrest
    | true => exact ⟨true, rfl⟩

variable {expression : String}

theorem mem_clausesOf {branch clause : List Char}
    (hbranch : branch ∈ pieces ['|', '|'] expression.toList)
    (hclause : clause ∈ pieces ['&', '&'] branch) : clause ∈ clausesOf expression := by
  obtain ⟨text, htext, rfl⟩ := mem_map.1 (mem_filter.1 hbranch).1
  rw [pieces_and_trim] at hclause
  exact mem_flatMap.2 ⟨text, htext, hclause⟩

theorem clausesOf_eq_nil (h : pieces ['|', '|'] expression.toList = []) :
    clausesOf expression = [] := by
  refine flatMap_eq_nil_iff.2 fun text htext => ?_
  have hblank : Lib.trim text = [] := by
    have hnot := filter_eq_nil_iff.1 h _ (mem_map_of_mem htext)
    simpa using hnot
  rw [← pieces_and_trim, hblank]
  rfl

variable {expression : String}

theorem evaluateExpression_ok (h : validateExpression lib expression = .ok ()) :
    ∃ b, evaluateExpression lib object expression = .ok b := by
  rw [validateExpression] at h
  rw [evaluateExpression]
  split at h
  · cases h
  next hne =>
    split
    next hnone => exact absurd (clausesOf_eq_nil hnone) (by simpa using hne)
    · refine evaluateBranches_ok fun branch hbranch clause hclause => ?_
      exact validateClauses_mem h clause (mem_clausesOf hbranch hclause)

/-! ### What an expression says -/

def AlternativeHolds (lib : FilterLib) (object : Object) (alternative : List Char) : Prop :=
  pieces ['&', '&'] alternative ≠ [] ∧
    ∀ clause ∈ pieces ['&', '&'] alternative, evaluateClause lib object clause = .ok true

def ExpressionHolds (lib : FilterLib) (object : Object) (expression : String) : Prop :=
  ∃ alternative ∈ Lib.split ['|', '|'] expression.toList, AlternativeHolds lib object alternative

/-- Not blank, but without a clause: nothing stands between its `&&`. -/
def Hollow (alternative : List Char) : Prop :=
  Lib.trim alternative ≠ [] ∧ pieces ['&', '&'] alternative = []

theorem evaluateClauses_true :
    evaluateClauses lib object clauses = .ok true ↔
      ∀ clause ∈ clauses, evaluateClause lib object clause = .ok true := by
  induction clauses with
  | nil => simp [evaluateClauses]
  | cons clause clauses ih =>
    rw [forall_mem_cons, ← ih, evaluateClauses]
    cases evaluateClause lib object clause with
    | error e => simp [bind, Except.bind]
    | ok b => cases b <;> simp [bind, Except.bind]

theorem evaluateBranches_true
    (h : ∀ branch ∈ branches, ∃ b, evaluateClauses lib object (pieces ['&', '&'] branch) = .ok b) :
    evaluateBranches lib object branches = .ok true ↔
      ∃ branch ∈ branches, evaluateClauses lib object (pieces ['&', '&'] branch) = .ok true := by
  induction branches with
  | nil => simp [evaluateBranches]
  | cons branch branches ih =>
    obtain ⟨⟨b, hb⟩, hrest⟩ := forall_mem_cons.1 h
    rw [exists_mem_cons_iff, ← ih hrest, evaluateBranches, hb]
    cases b <;> simp [bind, Except.bind]

theorem exists_branch_iff :
    (∃ branch ∈ pieces ['|', '|'] expression.toList,
      ∀ clause ∈ pieces ['&', '&'] branch, evaluateClause lib object clause = .ok true) ↔
    ExpressionHolds lib object expression ∨
      ∃ alternative ∈ Lib.split ['|', '|'] expression.toList, Hollow alternative := by
  constructor
  · rintro ⟨branch, hbranch, hclauses⟩
    obtain ⟨hmem, hnotblank⟩ := mem_filter.1 hbranch
    obtain ⟨alternative, halternative, rfl⟩ := mem_map.1 hmem
    rw [pieces_and_trim] at hclauses
    by_cases hnone : pieces ['&', '&'] alternative = []
    · exact .inr ⟨alternative, halternative, by simpa using hnotblank, hnone⟩
    · exact .inl ⟨alternative, halternative, hnone, hclauses⟩
  · have hbranch : ∀ alternative ∈ Lib.split ['|', '|'] expression.toList,
        Lib.trim alternative ≠ [] → Lib.trim alternative ∈ pieces ['|', '|'] expression.toList :=
      fun alternative hmem hne => mem_filter.2 ⟨mem_map_of_mem hmem, by simpa using hne⟩
    rintro (⟨alternative, hmem, hsome, hclauses⟩ | ⟨alternative, hmem, hne, hnone⟩)
    · refine ⟨_, hbranch alternative hmem fun hblank => hsome ?_, ?_⟩
      · rw [← pieces_and_trim, hblank]
        rfl
      · rwa [pieces_and_trim]
    · refine ⟨_, hbranch alternative hmem hne, ?_⟩
      rw [pieces_and_trim, hnone]
      simp

theorem evaluateExpression_true (h : validateExpression lib expression = .ok ()) :
    evaluateExpression lib object expression = .ok true ↔
      ExpressionHolds lib object expression ∨
        ∃ alternative ∈ Lib.split ['|', '|'] expression.toList, Hollow alternative := by
  rw [← exists_branch_iff, evaluateExpression]
  rw [validateExpression] at h
  split at h
  · cases h
  next hne =>
    split
    next hnone => exact absurd (clausesOf_eq_nil hnone) (by simpa using hne)
    · simp only [← evaluateClauses_true]
      refine evaluateBranches_true fun branch hbranch => evaluateClauses_ok fun clause hclause => ?_
      exact validateClauses_mem h clause (mem_clausesOf hbranch hclause)

/-- An accepted expression evaluates without an error, and to what it says, unless nothing that
it says holds and one of its alternatives is hollow. -/
theorem evaluateExpression_means {expression : String}
    (h : validateExpression lib expression = .ok ()) (object : Object) :
    ∃ b, evaluateExpression lib object expression = .ok b ∧
      ((b = true ↔ ExpressionHolds lib object expression) ↔
        (ExpressionHolds lib object expression ∨
          ∀ alternative ∈ Lib.split ['|', '|'] expression.toList, ¬ Hollow alternative)) := by
  obtain ⟨b, hb⟩ := @evaluateExpression_ok lib object expression h
  have htrue := @evaluateExpression_true lib object expression h
  rw [hb, Except.ok.injEq] at htrue
  refine ⟨b, hb, ?_⟩
  rw [htrue]
  constructor
  · intro hmeans
    by_cases hholds : ExpressionHolds lib object expression
    · exact .inl hholds
    · exact .inr fun alternative hmem hhollow =>
        hholds (hmeans.1 (.inr ⟨alternative, hmem, hhollow⟩))
  · rintro (hholds | hnone)
    · exact ⟨fun _ => hholds, .inl⟩
    · exact ⟨fun hor => hor.resolve_right fun ⟨_, hmem, hhollow⟩ => hnone _ hmem hhollow, .inl⟩

def plain : FilterLib where
  globMatch := fun pattern text => pattern == text
  regex := fun _ => .error "no patterns"
  parseF64 := fun _ => none
  display := fun _ => ""
  ofInt := fun _ => F64.zero
  parseJson := fun _ => none
  renderJson := fun _ => ""

def parked : Object where
  id := "truck"
  geo := .string ""
  fields := ∅
  expiresAt := none

def standing : String := "speed == 1 || speed <= 0 && cargo <= 0"

theorem evaluateExpression_means_parked :
    evaluateExpression plain parked standing = .ok true ∧
      ExpressionHolds plain parked standing := by
  obtain ⟨b, hb, hmeans⟩ := @evaluateExpression_means plain standing (by rfl) parked
  have htrue : evaluateExpression plain parked standing = .ok true := by rfl
  cases hb.symm.trans htrue
  refine ⟨htrue, (hmeans.2 (.inr ?_)).1 rfl⟩
  unfold Hollow
  decide

/-- The second alternative has no clause, and it matches every object. -/
theorem hollow_alternative_matches :
    validateExpression plain "speed == 1 || &&" = .ok () ∧
      evaluateExpression plain parked "speed == 1 || &&" = .ok true ∧
      ¬ ExpressionHolds plain parked "speed == 1 || &&" := by
  refine ⟨by rfl, by rfl, ?_⟩
  rintro ⟨alternative, hmem, hsome, hclauses⟩
  have hsplit : Lib.split ['|', '|'] "speed == 1 || &&".toList =
      ["speed == 1 ".toList, " &&".toList] := by decide
  rw [hsplit] at hmem
  rcases mem_pair.1 hmem with rfl | rfl
  · have := hclauses "speed == 1".toList (by decide)
    exact absurd this (by intro h; cases h)
  · exact hsome (by decide)

theorem allWhere_ok {filters : List WhereFilter} (h : validateWhere lib filters = .ok ()) :
    ∃ b, allWhere lib object filters = .ok b := by
  induction filters with
  | nil => exact ⟨true, rfl⟩
  | cons filter filters ih =>
    have hfilter : (∃ b, matchesWhere lib object filter = .ok b) ∧
        validateWhere lib filters = .ok () := by
      rw [validateWhere] at h
      rw [matchesWhere]
      cases hcomparison : filter.comparison with
      | range min max | equalsText expected =>
        rw [hcomparison] at h
        exact ⟨⟨_, rfl⟩, h⟩
      | regex pattern =>
        rw [hcomparison] at h
        cases hregex : compileRegex lib pattern with
        | error e =>
          simp only [hregex] at h
          cases h
        | ok isMatch =>
          simp only [hregex] at h ⊢
          exact ⟨⟨_, rfl⟩, h⟩
    obtain ⟨⟨b, hb⟩, hrest⟩ := hfilter
    rw [allWhere, hb]
    cases b with
    | false => exact ⟨false, rfl⟩
    | true => exact ih hrest

theorem allExpressions_ok {expressions : List String}
    (h : validateExpressions lib expressions = .ok ()) :
    ∃ b, allExpressions lib object expressions = .ok b := by
  induction expressions with
  | nil => exact ⟨true, rfl⟩
  | cons expression expressions ih =>
    rw [validateExpressions] at h
    obtain ⟨u, hexpression, h⟩ := Lib.bind_eq_ok.1 h
    obtain ⟨b, hb⟩ := evaluateExpression_ok hexpression
    rw [allExpressions, hb]
    cases b with
    | false => exact ⟨false, rfl⟩
    | true => exact ih h

theorem matchesCandidate_ok {options : SearchOptions} (h : options.validate lib = .ok ())
    (object : Object) : ∃ b, matchesCandidate lib object options = .ok b := by
  rw [SearchOptions.validate] at h
  obtain ⟨u, hwhere, h⟩ := Lib.bind_eq_ok.1 h
  obtain ⟨all, hall⟩ := allWhere_ok hwhere
  obtain ⟨holds, hholds⟩ := allExpressions_ok h
  rw [matchesCandidate, hall, hholds]
  simp only [bind, Except.bind]
  split
  · exact ⟨_, rfl⟩
  · split
    · exact ⟨_, rfl⟩
    · split <;> exact ⟨_, rfl⟩

end Validated

end LatLng.Index
