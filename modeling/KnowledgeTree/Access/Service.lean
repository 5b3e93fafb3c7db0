import KnowledgeTree.Access.Permission
import KnowledgeTree.Hierarchy.Mutation

/-!
The operations as callers have them, each behind the permission it needs. A draft is private to its
creator and to administrators; to everyone else it looks like an entity that is not there.
-/

namespace KnowledgeTree

structure CreateInput where
  entityType : EntityType
  name : String
  content : String := ""
  parent : Option EntityId := none
  isDraft : Bool := false
deriving DecidableEq, Repr

structure UpdateInput where
  name : String
  content : String := ""
  parentChanged : Bool := false
  parent : Option EntityId := none
  isDraft : Bool := false
deriving DecidableEq, Repr

def CreateInput.request (i : CreateInput) (user : UserId) : CreateRequest :=
  ⟨i.entityType, i.name, i.content, i.parent, i.isDraft, user⟩

def UpdateInput.request (i : UpdateInput) (id : EntityId) (user : UserId) : UpdateRequest :=
  ⟨id, i.name, i.content, i.parentChanged, i.parent, i.isDraft, user⟩

namespace Service

def isVisibleTo (perms : EffectivePermissions) (caller : Caller) (e : Entity) : Bool :=
  !e.publication.isDraft || perms.isAdmin || e.createdBy == caller.user

def ensureVisible (perms : EffectivePermissions) (caller : Caller) (e : Entity) : Except Error Unit :=
  if isVisibleTo perms caller e then .ok () else .error (.entityNotFound e.id)

def find? (ctx : Context) (id : EntityId) (s : Store) : Except Error (Option Entity) :=
  match Hierarchy.get ctx id s with
  | .ok e => .ok (some e)
  | .error (.entityNotFound _) => .ok none
  | .error e => .error e

def isHiddenInScope (perms : EffectivePermissions) (caller : Caller) (e : Entity) : Bool :=
  !isVisibleTo perms caller e && e.parent.any perms.allows

/-- The caller's permissions, if they allow `capability` on `id`. A draft hidden from the caller is
reported as missing where the caller's permissions would otherwise reach. -/
def authorize (limits : Limits) (ctx : Context) (caller : Caller) (id : EntityId)
    (capability : Capability) (s : Store) : Except Error EffectivePermissions := do
  let perms ← Access.effectivePermissions limits ctx caller capability s
  if perms.allows id then return perms
  let entity ← find? ctx id s
  if entity.any (isHiddenInScope perms caller) then throw (.entityNotFound id)
  perms.checkId id capability
  return perms

def checkPlace (perms : EffectivePermissions) : Option EntityId → Except Error Unit
  | some parent => perms.checkId parent .write
  | none => perms.requireAdmin .write

def permitCreate (limits : Limits) (ctx : Context) (caller : Caller) (input : CreateInput)
    (s : Store) : Except Error Unit := do
  let perms ← Access.effectivePermissions limits ctx caller .write s
  checkPlace perms input.parent

def permitUpdate (limits : Limits) (ctx : Context) (caller : Caller) (id : EntityId)
    (input : UpdateInput) (s : Store) : Except Error Unit := do
  let perms ← authorize limits ctx caller id .write s
  if input.parentChanged then checkPlace perms input.parent

def permitDelete (limits : Limits) (ctx : Context) (caller : Caller) (id : EntityId) (s : Store) :
    Except Error Unit := do
  let _ ← authorize limits ctx caller id .write s

def guarded {α : Type} (permission : Except Error Unit) (action : System → Except Error α × System)
    (sys : System) : Except Error α × System :=
  match permission with
  | .ok () => action sys
  | .error e => (.error e, sys)

def create (limits : Limits) (ctx : Context) (caller : Caller) (input : CreateInput) (sys : System) :
    Except Error EntityId × System :=
  guarded (permitCreate limits ctx caller input sys.store)
    (Hierarchy.create limits ctx (input.request caller.user)) sys

def update (limits : Limits) (ctx : Context) (caller : Caller) (id : EntityId) (input : UpdateInput)
    (sys : System) : Except Error Publication × System :=
  guarded (permitUpdate limits ctx caller id input sys.store)
    (Hierarchy.update limits ctx (input.request id caller.user)) sys

def delete (limits : Limits) (ctx : Context) (caller : Caller) (id : EntityId) (sys : System) :
    Except Error (List EntityId) × System :=
  guarded (permitDelete limits ctx caller id sys.store) (Hierarchy.delete limits ctx id) sys

def get (limits : Limits) (ctx : Context) (caller : Caller) (id : EntityId) (s : Store) :
    Except Error Entity := do
  let perms ← authorize limits ctx caller id .read s
  let e ← Hierarchy.get ctx id s
  ensureVisible perms caller e
  return e

def getListItem (limits : Limits) (ctx : Context) (caller : Caller) (id : EntityId) (s : Store) :
    Except Error ListItem :=
  (get limits ctx caller id s).map Entity.listItem

def getVersion (limits : Limits) (ctx : Context) (caller : Caller) (id : EntityId) (version : Int)
    (s : Store) : Except Error Entity := do
  let _ ← get limits ctx caller id s
  Hierarchy.getVersion ctx id version s

def getVersionsList (limits : Limits) (ctx : Context) (caller : Caller) (id : EntityId) (s : Store) :
    Except Error (List Entity) := do
  let _ ← get limits ctx caller id s
  Hierarchy.getVersionsList ctx id s

def getTree (limits : Limits) (ctx : Context) (caller : Caller) (s : Store) :
    Except Error (List TreeNode) := do
  let direct ← Access.directPermissions ctx caller .read s
  Hierarchy.getTree limits ctx direct.entityIds direct.isAdmin caller.user s

/-- The ids the caller holds a capability on: all in the order of names for an administrator,
otherwise ascending. -/
def getPermittedIds (limits : Limits) (ctx : Context) (caller : Caller) (capability : Capability)
    (s : Store) : Except Error (List EntityId) := do
  match ← Access.effectivePermissions limits ctx caller capability s with
  | .admin => return (← Hierarchy.getAll ctx s).map ListItem.id
  | .only ids => return ids

end Service

end KnowledgeTree
