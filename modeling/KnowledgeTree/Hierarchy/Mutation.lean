import KnowledgeTree.Hierarchy.Script
import KnowledgeTree.Validation

/-!
Creating, changing and deleting entities such that the tree keeps its shape: parents are live
departments, articles have one, no entity is its own ancestor, and no chain is longer than the
limits allow.
-/

namespace KnowledgeTree

structure CreateRequest where
  entityType : EntityType
  name : String
  content : String := ""
  parent : Option EntityId := none
  isDraft : Bool := false
  user : UserId
deriving DecidableEq, Repr

structure UpdateRequest where
  id : EntityId
  name : String
  content : String := ""
  parentChanged : Bool := false
  parent : Option EntityId := none
  isDraft : Bool := false
  user : UserId
deriving DecidableEq, Repr

namespace Hierarchy

open Script

def checkParentType (chain : List HierarchyItem) (parent : EntityId) (child : EntityType) :
    Except Error Unit :=
  match chain.find? (·.item.id == parent) with
  | none => .error (.parentNotFound parent)
  | some h =>
    if h.item.entityType.acceptsChildren then .ok ()
    else .error (.incompatibleParentType h.item.entityType child)

def checkChain (parent : EntityId) (chain : List HierarchyItem) : Except Error Unit :=
  if chain.isEmpty then .error (.parentNotFound parent) else .ok ()

def parentChain (limits : Limits) (parent : EntityId) : Script (List HierarchyItem) := do
  let chain ← request (.walk [parent] limits.probeDepth .parentsOnly)
  check (checkChain parent chain)
  return chain

def subtree (limits : Limits) (id : EntityId) : Script (List HierarchyItem) :=
  request (.walk [id] limits.probeDepth .childrenOnly)

def checkRoom (limits : Limits) (chain : List HierarchyItem) : Except Error Unit :=
  if limits.maxDepth < chain.length then .error (.maxHierarchyDepthExceeded limits.maxDepth)
  else .ok ()

def height (subtree : List HierarchyItem) : Nat := (subtree.map HierarchyItem.depth).foldl max 1

def checkNotWithin (entity parent : EntityId) (items : List HierarchyItem) (wanted : EntityId) :
    Except Error Unit :=
  if items.any (·.item.id == wanted) then .error (.parentCycle entity parent) else .ok ()

def checkHeight (limits : Limits) (chain subtree : List HierarchyItem) : Except Error Unit :=
  if limits.levels < chain.length + height subtree then
    .error (.maxHierarchyDepthExceeded limits.maxDepth)
  else .ok ()

def checkMove (limits : Limits) (current : ListItem) (parent : EntityId) : Script Unit := do
  let chain ← parentChain limits parent
  check (checkNotWithin current.id parent chain current.id)
  check (checkParentType chain parent current.entityType)
  let subtree ← subtree limits current.id
  check (checkNotWithin current.id parent subtree parent)
  check (checkHeight limits chain subtree)

def checkRoot (entityType : EntityType) : Except Error Unit :=
  if entityType.requiresParent then .error (.parentRequired entityType) else .ok ()

def checkPlace (limits : Limits) (entityType : EntityType) : Option EntityId → Script Unit
  | none => check (checkRoot entityType)
  | some parent => do
    check (parent.require "parent_id")
    let chain ← parentChain limits parent
    check (checkRoom limits chain)
    check (checkParentType chain parent entityType)

def createScript (limits : Limits) (r : CreateRequest) : Script EntityId := do
  check r.user.require
  let name ← check (limits.nameRule.clean r.name)
  checkPlace limits r.entityType r.parent
  let id ← request .newId
  let now ← request .now
  let new : NewEntity := ⟨r.entityType, name, r.content, r.parent, r.user⟩
  request (if r.isDraft then .createDraft new id now else .create new id now)
  return id

def checkNotSelf (r : UpdateRequest) : Except Error Unit :=
  if r.parentChanged ∧ r.parent = some r.id then .error (.parentCycle r.id r.id) else .ok ()

def newParent (limits : Limits) (r : UpdateRequest) (current : ListItem) :
    Script (Option (Option EntityId)) :=
  if r.parentChanged then
    match r.parent with
    | some parent => do
      check (parent.require "parent_id")
      checkMove limits current parent
      return some (some parent)
    | none => do
      check (checkRoot current.entityType)
      return some none
  else return none

def checkChildless (id : EntityId) (below : List HierarchyItem) : Except Error Unit :=
  if 1 < below.length then .error (.cannotDraftEntityWithChildren id) else .ok ()

def updateScript (limits : Limits) (r : UpdateRequest) : Script Publication := do
  check (r.id.require "id")
  check r.user.require
  let name ← check (limits.nameRule.clean r.name)
  check (checkNotSelf r)
  let current ← request (.listItem r.id)
  let parent ← newParent limits r current
  let changes : EntityChanges := ⟨r.id, name, r.content, parent, r.user⟩
  if r.isDraft then
    let below ← request (.walk [r.id] 2 .childrenOnly)
    check (checkChildless r.id below)
    let now ← request .now
    request (.updateDraft changes now)
    return .draft
  else
    let now ← request .now
    return .published (← request (.update changes now))

def checkSubtree (limits : Limits) (id : EntityId) (subtree : List HierarchyItem) :
    Except Error Unit :=
  if subtree.isEmpty then .error (.entityNotFound id)
  else if subtree.any (limits.levels < ·.depth) then
    .error (.maxHierarchyDepthExceeded limits.maxDepth)
  else .ok ()

def deleteScript (limits : Limits) (id : EntityId) : Script (List EntityId) := do
  check (id.require "id")
  let subtree ← subtree limits id
  check (checkSubtree limits id subtree)
  let targets := subtree.map (·.item.id)
  let now ← request .now
  request (.delete targets now)
  return targets

def create (limits : Limits) (ctx : Context) (r : CreateRequest) (sys : System) :
    Except Error EntityId × System :=
  (createScript limits r).run ctx sys

def update (limits : Limits) (ctx : Context) (r : UpdateRequest) (sys : System) :
    Except Error Publication × System :=
  (updateScript limits r).run ctx sys

def delete (limits : Limits) (ctx : Context) (id : EntityId) (sys : System) :
    Except Error (List EntityId) × System :=
  (deleteScript limits id).run ctx sys

end Hierarchy

end KnowledgeTree
