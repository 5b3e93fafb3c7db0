import KnowledgeTree.Forest
import KnowledgeTree.Store.Read
import KnowledgeTree.Store.Walk
import KnowledgeTree.Validation

/-!
Reading entities, their versions, and what can be reached from a set of seeds.
-/

namespace KnowledgeTree.Hierarchy

def get (ctx : Context) (id : EntityId) (s : Store) : Except Error Entity := do
  id.require "id"
  s.get ctx id

def getListItem (ctx : Context) (id : EntityId) (s : Store) : Except Error ListItem := do
  id.require "id"
  s.getListItem ctx id

def getVersion (ctx : Context) (id : EntityId) (version : Int) (s : Store) : Except Error Entity := do
  id.require "id"
  let number ← VersionNumber.require version
  s.getVersion ctx id number

def getVersionsList (ctx : Context) (id : EntityId) (s : Store) : Except Error (List Entity) := do
  id.require "id"
  s.getVersionsList ctx id

def getAll (ctx : Context) (s : Store) : Except Error (List ListItem) := s.getAll ctx

def getTree (limits : Limits) (ctx : Context) (seeds : List EntityId) (isAdmin : Bool)
    (viewer : UserId) (s : Store) : Except Error (List TreeNode) := do
  if isAdmin then return buildForest (← s.getAll ctx)
  if seeds.isEmpty then return []
  let items ← s.getHierarchy ctx seeds limits.levels viewer .childrenAndParents
  return buildForest (items.map HierarchyItem.item)

def getPermittedIds (limits : Limits) (ctx : Context) (seeds : List EntityId) (direction : Direction)
    (viewer : Option UserId) (s : Store) : Except Error (List EntityId) := do
  if seeds.isEmpty then return []
  let items ← s.getHierarchy ctx seeds limits.levels viewer direction
  return items.map (·.item.id)

end KnowledgeTree.Hierarchy
