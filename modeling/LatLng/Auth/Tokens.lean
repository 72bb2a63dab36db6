import LatLng.Auth.Principal
import LatLng.Lib.Text

/-! Tokens. The options of a token are checked where it is made, and its claims are checked again
where it is used, by other code. -/

namespace LatLng.Auth

namespace AuthAction

def asStr : AuthAction → String
  | collectionsList => "collections:list"
  | collectionsCreate => "collections:create"
  | collectionsDelete => "collections:delete"
  | collectionsInspect => "collections:inspect"
  | objectsRead => "objects:read"
  | objectsWrite => "objects:write"
  | objectsDelete => "objects:delete"
  | queriesRead => "queries:read"
  | subscriptionsRead => "subscriptions:read"
  | hooksManage => "hooks:manage"
  | channelsManage => "channels:manage"
  | metricsRead => "metrics:read"
  | adminAll => "admin:*"

def parse : String → Option AuthAction
  | "collections:list" => some collectionsList
  | "collections:create" => some collectionsCreate
  | "collections:delete" => some collectionsDelete
  | "collections:inspect" => some collectionsInspect
  | "objects:read" => some objectsRead
  | "objects:write" => some objectsWrite
  | "objects:delete" => some objectsDelete
  | "queries:read" => some queriesRead
  | "subscriptions:read" => some subscriptionsRead
  | "hooks:manage" => some hooksManage
  | "channels:manage" => some channelsManage
  | "metrics:read" => some metricsRead
  | "admin:*" => some adminAll
  | _ => none

theorem parse_eq_some {value : String} {action : AuthAction} :
    parse value = some action ↔ value = action.asStr := by
  constructor
  · intro h
    unfold parse at h
    split at h <;> cases h <;> rfl
  · rintro rfl
    cases action <;> rfl

end AuthAction

/-! ### Making a token -/

inductive TokenError where
  | invalidAction (name : String)
  | invalidOptions (message : String)
  | sign (message : String)

structure HmacTokenPermissionRule where
  collections : List String
  actions : List String

def HmacTokenPermissionRule.validate (rule : HmacTokenPermissionRule) : Except TokenError Unit :=
  if rule.collections.any fun collection => (Lib.trim collection.toList).isEmpty then
    .error (.invalidOptions "permission collections must not be empty")
  else if rule.actions.isEmpty then
    .error (.invalidOptions "permission actions must not be empty")
  else rule.actions.forM fun action =>
    if (AuthAction.parse action).isNone then .error (.invalidAction action) else .ok ()

structure HmacTokenOptions where
  issuedAt : Nat
  notBefore : Option Nat := none
  expiresAt : Nat
  permissions : List HmacTokenPermissionRule
  admin : Bool := false

structure HmacTokenClaims where
  iat : Nat
  nbf : Option Nat
  exp : Nat
  latlngPermissions : List HmacTokenPermissionRule
  latlngAdmin : Bool

def HmacTokenOptions.claims (options : HmacTokenOptions) : Except TokenError HmacTokenClaims :=
  if !options.admin && options.permissions.isEmpty then
    .error (.invalidOptions "token must be admin or include at least one permission rule")
  else if options.expiresAt ≤ options.issuedAt then
    .error (.invalidOptions "expires_at must be later than issued_at")
  else if options.notBefore.any (options.expiresAt ≤ ·) then
    .error (.invalidOptions "not_before must be earlier than expires_at")
  else do
    options.permissions.forM HmacTokenPermissionRule.validate
    return { iat := options.issuedAt, nbf := options.notBefore, exp := options.expiresAt
             latlngPermissions := options.permissions, latlngAdmin := options.admin }

def createHmacJwt {Token : Type} (sign : String → HmacTokenClaims → Except String Token)
    (secret : String) (options : HmacTokenOptions) : Except TokenError Token :=
  if secret.isEmpty then .error (.invalidOptions "jwt_secret must not be empty")
  else do
    let claims ← options.claims
    (sign secret claims).mapError .sign

/-! ### Using a token -/

structure ClaimsPayload where
  latlngPermissions : List HmacTokenPermissionRule
  latlngAdmin : Bool

def HmacTokenClaims.payload (claims : HmacTokenClaims) : ClaimsPayload :=
  ⟨claims.latlngPermissions, claims.latlngAdmin⟩

structure JwtClaims where
  latlngAdmin : Bool
  permissions : List PermissionRule

/-- One rule of the claims; `none` stands for the answer that the request is not authorized. -/
def readRule (claim : HmacTokenPermissionRule) : Option PermissionRule :=
  if claim.collections.isEmpty || claim.actions.isEmpty then none
  else (claim.actions.mapM AuthAction.parse).map fun actions =>
    { patterns := claim.collections, actions }

def JwtClaims.fromPayload (payload : ClaimsPayload) : Option JwtClaims :=
  (payload.latlngPermissions.mapM readRule).map fun permissions =>
    { latlngAdmin := payload.latlngAdmin, permissions }

def AuthPrincipal.fromClaims (claims : JwtClaims) : AuthPrincipal :=
  { admin := claims.latlngAdmin, permissions := claims.permissions }

variable {rule : HmacTokenPermissionRule}

theorem validate_ok (h : rule.validate = .ok ()) :
    rule.actions ≠ [] ∧ ∀ action ∈ rule.actions, ∃ parsed, AuthAction.parse action = some parsed := by
  unfold HmacTokenPermissionRule.validate at h
  split at h
  · cases h
  split at h
  · cases h
  next hne =>
    refine ⟨by simpa using hne, fun action hmem => ?_⟩
    have haction := Lib.forM_eq_ok.1 h action hmem
    cases hparse : AuthAction.parse action with
    | none =>
      rw [hparse] at haction
      cases haction
    | some parsed => exact ⟨parsed, rfl⟩

theorem claims_ok {options : HmacTokenOptions} {claims : HmacTokenClaims}
    (h : options.claims = .ok claims) : claims.latlngPermissions = options.permissions ∧
      claims.latlngAdmin = options.admin ∧ ∀ rule ∈ options.permissions, rule.validate = .ok () := by
  unfold HmacTokenOptions.claims at h
  split at h
  · cases h
  split at h
  · cases h
  split at h
  · cases h
  obtain ⟨_, hrules, hclaims⟩ := Lib.bind_eq_ok.1 h
  cases hclaims
  exact ⟨rfl, rfl, Lib.forM_eq_ok.1 hrules⟩

theorem readRule_eq (h : rule.validate = .ok ()) (hcollections : rule.collections ≠ []) : ∃ actions,
      readRule rule = some { patterns := rule.collections, actions } ∧
      ∀ action, action ∈ actions ↔ action.asStr ∈ rule.actions := by
  obtain ⟨hne, hparse⟩ := validate_ok h
  obtain ⟨actions, hactions, hmem⟩ := Lib.exists_mapM hparse
  refine ⟨actions, ?_, fun action => ?_⟩
  · rw [readRule, if_neg (by simp [hcollections, hne]), hactions]
    rfl
  · rw [hmem]
    simp [AuthAction.parse_eq_some]

variable (globMatch : String → String → Bool)

def HmacTokenOptions.Asks (options : HmacTokenOptions) (action : AuthAction) (collection : String) :
    Prop :=
  options.admin = true ∨ ∃ rule ∈ options.permissions, action.asStr ∈ rule.actions ∧
    ∃ pattern ∈ rule.collections, pattern = "*" ∨ globMatch pattern collection = true

/-- A token that was made is accepted and grants what its options ask for exactly if each of its
rules names a collection. -/
theorem token_grants_iff {Token : Type} {sign : String → HmacTokenClaims → Except String Token}
    {read : Token → ClaimsPayload}
    (hround : ∀ secret claims token, sign secret claims = .ok token → read token = claims.payload)
    {secret : String} {options : HmacTokenOptions} {token : Token}
    (hmade : createHmacJwt sign secret options = .ok token) :
    (∃ claims, JwtClaims.fromPayload (read token) = some claims ∧ ∀ action collection,
      (AuthPrincipal.fromClaims claims).allows globMatch action collection = true ↔
        options.Asks globMatch action collection) ↔
    ∀ rule ∈ options.permissions, rule.collections ≠ [] := by
  have hclaims : ∃ claims, options.claims = .ok claims ∧ sign secret claims = .ok token := by
    unfold createHmacJwt at hmade
    split at hmade
    · cases hmade
    obtain ⟨claims, hclaims, hsign⟩ := Lib.bind_eq_ok.1 hmade
    cases hsigned : sign secret claims <;> rw [hsigned] at hsign <;> cases hsign
    exact ⟨claims, hclaims, hsigned⟩
  obtain ⟨claims, hclaims, hsign⟩ := hclaims
  obtain ⟨hpermissions, hadmin, hvalid⟩ := claims_ok hclaims
  rw [hround secret claims token hsign, HmacTokenClaims.payload, hpermissions, hadmin,
    JwtClaims.fromPayload]
  constructor
  · rintro ⟨parsed, hread, -⟩ rule hrule hempty
    have hnone : readRule rule = none := if_pos (by simp [hempty])
    rw [Lib.mapM_eq_none hrule hnone] at hread
    cases hread
  · intro hcollections
    have hrules := fun rule hrule => readRule_eq (hvalid rule hrule) (hcollections rule hrule)
    obtain ⟨permissions, hread, hmem⟩ := Lib.exists_mapM fun rule hrule =>
      (hrules rule hrule).imp' _ fun _ h => h.1
    refine ⟨⟨options.admin, permissions⟩, by rw [hread]; rfl, fun action collection => ?_⟩
    rw [AuthPrincipal.fromClaims, AuthPrincipal.allows, Bool.or_eq_true, List.any_eq_true]
    have hallows : ∀ {rule : HmacTokenPermissionRule} {actions : List AuthAction},
        (∀ action, action ∈ actions ↔ action.asStr ∈ rule.actions) →
        (PermissionRule.allows globMatch ⟨rule.collections, actions⟩ action collection = true ↔
          action.asStr ∈ rule.actions ∧ ∃ pattern ∈ rule.collections,
            pattern = "*" ∨ globMatch pattern collection = true) := by
      intro rule actions hasks
      simp [PermissionRule.allows, PermissionRule.matchesCollection, hasks]
    refine or_congr Iff.rfl ⟨?_, ?_⟩
    · rintro ⟨permission, hpermission, hallowed⟩
      obtain ⟨rule, hrule, heq⟩ := (hmem permission).1 hpermission
      obtain ⟨actions, hactions, hasks⟩ := hrules rule hrule
      cases hactions.symm.trans heq
      exact ⟨rule, hrule, (hallows hasks).1 hallowed⟩
    · rintro ⟨rule, hrule, hasked⟩
      obtain ⟨actions, hactions, hasks⟩ := hrules rule hrule
      exact ⟨_, (hmem _).2 ⟨rule, hrule, hactions⟩, (hallows hasks).2 hasked⟩

namespace Courier

def options (collections : List String) : HmacTokenOptions :=
  { issuedAt := 0, expiresAt := 60
    permissions := [{ collections, actions := ["objects:read"] }] }

def sign (_ : String) (claims : HmacTokenClaims) : Except String HmacTokenClaims := .ok claims

/-- A token to read one collection. -/
theorem fleet_token_usable : ∃ token, createHmacJwt sign "key" (options ["fleet"]) = .ok token ∧
    ∃ claims, JwtClaims.fromPayload token.payload = some claims ∧ ∀ action collection,
      (AuthPrincipal.fromClaims claims).allows (· == ·) action collection = true ↔
        (options ["fleet"]).Asks (· == ·) action collection := by
  refine ⟨_, rfl, (@token_grants_iff (· == ·) _ sign _ (fun _ _ _ h => ?_) "key" _ _ rfl).2 ?_⟩
  · cases h
    rfl
  · intro rule hrule
    cases List.mem_singleton.1 hrule
    exact List.cons_ne_nil _ _

/-- A rule without a collection passes the first check and not the second. -/
theorem rule_without_collection_unusable :
    ∃ token, createHmacJwt sign "key" (options []) = .ok token ∧
      JwtClaims.fromPayload token.payload = none :=
  ⟨_, rfl, rfl⟩

end Courier

end LatLng.Auth
