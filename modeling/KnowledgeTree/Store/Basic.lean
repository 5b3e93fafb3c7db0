import KnowledgeTree.Context

/-!
The tables: entities, the record of their published versions, roles and grants. Rows are only ever
added or changed in place, so an entity that was deleted keeps its row and its id.
-/

namespace KnowledgeTree

structure Version where
  entity : EntityId
  number : VersionNumber
  entityType : EntityType
  name : String
  content : String
  parent : Option EntityId
  editedBy : UserId
  createdAt : Time
deriving DecidableEq, Repr

structure Role where
  name : String
  isAdmin : Bool
deriving DecidableEq, Repr

structure Grant where
  role : String
  entity : EntityId
  capability : Capability
deriving DecidableEq, Repr

structure Store where
  entities : List Entity := []
  versions : List Version := []
  roles : List Role := []
  grants : List Grant := []
  nodup : (entities.map Entity.id).Nodup := by simp
deriving DecidableEq, Repr

namespace Entity

def isLive (e : Entity) : Bool := e.deletedAt.isNone

/-- Live, and published or written by the viewer. Without a viewer every live entity is visible. -/
def isVisibleTo (viewer : Option UserId) (e : Entity) : Bool :=
  e.isLive && match viewer with
    | none => true
    | some user => !e.publication.isDraft || e.createdBy == user

def record (e : Entity) (number : VersionNumber) : Version :=
  ⟨e.id, number, e.entityType, e.name, e.content, e.parent, e.updatedBy, e.updatedAt⟩

end Entity

def Version.restore (v : Version) (e : Entity) : Entity where
  id := v.entity
  entityType := v.entityType
  name := v.name
  content := v.content
  parent := v.parent
  createdBy := e.createdBy
  updatedBy := v.editedBy
  publication := .published v.number
  createdAt := e.createdAt
  updatedAt := v.createdAt
  deletedAt := e.deletedAt

namespace Store

def empty : Store := {}

instance : Inhabited Store := ⟨empty⟩

def ids (s : Store) : List EntityId := s.entities.map Entity.id

def row? (s : Store) (id : EntityId) : Option Entity := s.entities.find? (·.id == id)

def live? (s : Store) (id : EntityId) : Option Entity := (s.row? id).filter Entity.isLive

def live (s : Store) : List Entity := s.entities.filter Entity.isLive

def history (s : Store) (id : EntityId) : List Version := s.versions.filter (·.entity == id)

end Store

end KnowledgeTree
