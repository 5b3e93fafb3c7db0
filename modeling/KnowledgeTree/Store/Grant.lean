import KnowledgeTree.Store.Basic

/-!
Roles and what is granted to them. A write grant also allows reading.
-/

namespace KnowledgeTree

structure DirectPermissions where
  isAdmin : Bool
  entityIds : List EntityId
deriving DecidableEq, Repr, Inhabited

namespace Store

def role? (s : Store) (name : String) : Option Role := s.roles.find? (·.name == name)

def upsertRole (s : Store) (ctx : Context) (name : String) (isAdmin : Bool) : Except Error Store :=
  let name := Text.trim name
  if name.isEmpty then .error (.validationFailed "role" .required)
  else do
    ctx.check
    return { s with
      roles :=
        if (s.role? name).isSome then
          s.roles.map fun r => if r.name == name then { r with isAdmin } else r
        else s.roles ++ [⟨name, isAdmin⟩] }

def grant (s : Store) (ctx : Context) (role : String) (entity : EntityId) (capability : Capability) :
    Except Error Store := do
  ctx.check
  if (s.role? role).isNone then throw (.validationFailed "role" (.unknownValue role))
  if (s.live? entity).isNone then throw (.entityNotFound entity)
  let new : Grant := ⟨role, entity, capability⟩
  return if s.grants.contains new then s else { s with grants := s.grants ++ [new] }

def revoke (s : Store) (ctx : Context) (role : String) (entity : EntityId) (capability : Capability) :
    Except Error (Bool × Store) := do
  ctx.check
  let old : Grant := ⟨role, entity, capability⟩
  return (s.grants.contains old, { s with grants := s.grants.filter (· != old) })

def isGranted (s : Store) (role : String) (capability : Capability) (entity : EntityId) : Bool :=
  s.grants.any fun g =>
    g.role == role && g.entity == entity && (g.capability == capability || g.capability == .write)

def directPermissions (s : Store) (ctx : Context) (role : String) (capability : Capability) :
    Except Error DirectPermissions := do
  ctx.check
  match s.role? role with
  | none => throw .unauthorized
  | some r =>
    let granted := s.live.filter fun e => s.isGranted role capability e.id
    return ⟨r.isAdmin, (granted.map Entity.id).mergeSort fun a b => a ≤ b⟩

end Store

end KnowledgeTree
