import KnowledgeTree.Hierarchy.Reading
import KnowledgeTree.Store.Grant

/-!
What a caller may do: the grants of the caller's role, and their reach through the tree.
-/

namespace KnowledgeTree

structure Caller where
  user : UserId
  role : String
deriving DecidableEq, Repr

inductive EffectivePermissions
  | admin
  | only (ids : List EntityId)
deriving DecidableEq, Repr, Inhabited

namespace EffectivePermissions

def isAdmin : EffectivePermissions → Bool
  | admin => true
  | only _ => false

def allows : EffectivePermissions → EntityId → Bool
  | admin, _ => true
  | only ids, id => ids.contains id

def checkId (perms : EffectivePermissions) (id : EntityId) (capability : Capability) :
    Except Error Unit :=
  if perms.allows id then .ok () else .error (.forbidden capability id)

def checkParentIds (perms : EffectivePermissions) (ids : List EntityId) (capability : Capability) :
    Except Error Unit :=
  match ids with
  | [] => .ok ()
  | id :: ids => do
    perms.checkId id capability
    perms.checkParentIds ids capability

def requireAdmin (perms : EffectivePermissions) (capability : Capability) : Except Error Unit :=
  if perms.isAdmin then .ok () else .error (.adminRequired capability)

end EffectivePermissions

namespace Access

def directPermissions (ctx : Context) (caller : Caller) (capability : Capability) (s : Store) :
    Except Error DirectPermissions :=
  let role := Text.trim caller.role
  if caller.user.isNil || role.isEmpty then .error .unauthorized
  else s.directPermissions ctx role capability

/-- The grants of the caller's role extended through the tree. Drafts of other users are left out,
with all that is reached only through them. -/
def effectivePermissions (limits : Limits) (ctx : Context) (caller : Caller)
    (capability : Capability) (s : Store) : Except Error EffectivePermissions := do
  let direct ← directPermissions ctx caller capability s
  if direct.isAdmin then return .admin
  let ids ←
    Hierarchy.getPermittedIds limits ctx direct.entityIds capability.scope (some caller.user) s
  return .only (ids.mergeSort fun a b => a ≤ b)

def checkEntityPermission (limits : Limits) (ctx : Context) (id : EntityId) (caller : Caller)
    (capability : Capability) (s : Store) : Except Error EffectivePermissions := do
  let perms ← effectivePermissions limits ctx caller capability s
  perms.checkId id capability
  return perms

end Access

end KnowledgeTree
