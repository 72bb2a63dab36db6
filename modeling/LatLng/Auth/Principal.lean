import LatLng.Core.Admin

/-! Who may do what: the actions, the rules that grant them on collections, and the check that each
handler of a writing request makes before it calls the database. -/

namespace LatLng.Auth

open LatLng.Core Geofence

inductive AuthAction where
  | collectionsList
  | collectionsCreate
  | collectionsDelete
  | collectionsInspect
  | objectsRead
  | objectsWrite
  | objectsDelete
  | queriesRead
  | subscriptionsRead
  | hooksManage
  | channelsManage
  | metricsRead
  | adminAll
deriving DecidableEq, Repr

structure PermissionRule where
  patterns : List String
  actions : List AuthAction

namespace PermissionRule

variable (globMatch : String → String → Bool) (rule : PermissionRule)

def matchesCollection (collection : String) : Bool :=
  rule.patterns.any fun pattern => pattern == "*" || globMatch pattern collection

def isGlobal : Bool := rule.patterns.any (· == "*")

def allows (action : AuthAction) (collection : String) : Bool :=
  rule.actions.contains action && rule.matchesCollection globMatch collection

def allowsGlobal (action : AuthAction) : Bool := rule.actions.contains action && rule.isGlobal

end PermissionRule

structure AuthPrincipal where
  admin : Bool
  permissions : List PermissionRule

namespace AuthPrincipal

variable (globMatch : String → String → Bool) (principal : AuthPrincipal)

def allows (action : AuthAction) (collection : String) : Bool :=
  principal.admin || principal.permissions.any fun rule => rule.allows globMatch action collection

def allowsGlobal (action : AuthAction) : Bool :=
  principal.admin || principal.permissions.any fun rule => rule.allowsGlobal action

def ensureAdmin : Bool := principal.allowsGlobal .adminAll

end AuthPrincipal

/-! ### The rights that a handler asks for -/

/-- The rights that are checked before the call, from the request alone. Deleting channels and
hooks is by name, so the collections have to be looked up first. -/
def requiredRights : Request → List (AuthAction × String)
  | .set req => [(.objectsWrite, req.collection)]
  | .del collection _ => [(.objectsDelete, collection)]
  | .fset collection _ _ _ => [(.objectsWrite, collection)]
  | .expire collection _ _ => [(.objectsWrite, collection)]
  | .persist collection _ => [(.objectsWrite, collection)]
  | .jset collection _ _ _ _ => [(.objectsWrite, collection)]
  | .jdel collection _ _ => [(.objectsWrite, collection)]
  | .createCollection collection => [(.collectionsCreate, collection)]
  | .dropCollection collection => [(.collectionsDelete, collection)]
  | .rename collection newName =>
    [(.collectionsDelete, collection), (.collectionsCreate, newName)]
  | .renamenx collection newName =>
    [(.collectionsDelete, collection), (.collectionsCreate, newName)]
  | .setchan _ d => [(.channelsManage, d.collection)]
  | .sethook _ _ d => [(.hooksManage, d.collection)]
  | .delchan _ => []
  | .pdelchan _ => []
  | .delhook _ => []
  | .pdelhook _ => []

def AuthPrincipal.holdsAll (globMatch : String → String → Bool) (principal : AuthPrincipal)
    (rights : List (AuthAction × String)) : Bool :=
  rights.all fun right => principal.allows globMatch right.1 right.2

def objectRight : Request → Option AuthAction
  | .set _ => some .objectsWrite
  | .del _ _ => some .objectsDelete
  | .fset _ _ _ _ => some .objectsWrite
  | .expire _ _ _ => some .objectsWrite
  | .persist _ _ => some .objectsWrite
  | .jset _ _ _ _ _ => some .objectsWrite
  | .jdel _ _ _ => some .objectsWrite
  | .dropCollection _ => some .collectionsDelete
  | .rename _ _ => some .collectionsDelete
  | .renamenx _ _ => some .collectionsDelete
  | _ => none

end LatLng.Auth
