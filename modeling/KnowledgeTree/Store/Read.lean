import KnowledgeTree.Store.Basic

/-!
Looking up entities and their versions. Only live entities are found.
-/

namespace KnowledgeTree.Store

def find (s : Store) (id : EntityId) : Except Error Entity :=
  match s.live? id with
  | some e => .ok e
  | none => .error (.entityNotFound id)

def get (s : Store) (ctx : Context) (id : EntityId) : Except Error Entity := do
  ctx.check
  s.find id

def getListItem (s : Store) (ctx : Context) (id : EntityId) : Except Error ListItem := do
  ctx.check
  return (← s.find id).listItem

def getVersion (s : Store) (ctx : Context) (id : EntityId) (number : VersionNumber) :
    Except Error Entity := do
  ctx.check
  let e ← s.find id
  match s.versions.find? fun v => v.entity == id && v.number == number with
  | some v => return v.restore e
  | none => throw (.entityNotFound id)

def getVersionsList (s : Store) (ctx : Context) (id : EntityId) : Except Error (List Entity) := do
  ctx.check
  let e ← s.find id
  return ((s.history id).mergeSort fun v w => w.number.value ≤ v.number.value).map (·.restore e)

def getAll (s : Store) (ctx : Context) : Except Error (List ListItem) := do
  ctx.check
  return (s.live.map Entity.listItem).mergeSort ListItem.le

end KnowledgeTree.Store
