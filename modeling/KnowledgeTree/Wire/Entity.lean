import KnowledgeTree.Entity
import KnowledgeTree.Json.Decode

/-!
The JSON forms of entities and of the values they are made of.
-/

namespace KnowledgeTree

open Json (Fault)

namespace EntityId

def toJson (id : EntityId) : Json := .str id.text

def ofJson (j : Json) : Except Fault EntityId := Json.reading (fun s => (Uuid.ofText? s).map .mk) j

end EntityId

namespace UserId

def toJson (id : UserId) : Json := .str id.text

def ofJson (j : Json) : Except Fault UserId := Json.reading (fun s => (Uuid.ofText? s).map .mk) j

end UserId

namespace Time

def toJson (t : Time) : Json := .str t.text

def ofJson (j : Json) : Except Fault Time := Json.reading Time.ofText? j

end Time

namespace EntityType

def toJson (t : EntityType) : Json := .str t.text

def ofJson (j : Json) : Except Fault EntityType := Json.word EntityType.ofText? j

end EntityType

namespace Capability

def toJson (c : Capability) : Json := .str c.text

def ofJson (j : Json) : Except Fault Capability := Json.word Capability.ofText? j

end Capability

namespace Direction

def toJson (d : Direction) : Json := .str d.text

def ofJson (j : Json) : Except Fault Direction := Json.word Direction.ofText? j

end Direction

namespace VersionNumber

def toJson (v : VersionNumber) : Json := .int v.value

def ofJson (j : Json) : Except Fault VersionNumber := do
  Json.need (ofNat? (← j.natural 4294967296))

end VersionNumber

namespace Publication

def toJson : Publication → Json
  | draft => .record [("state", .str "draft")]
  | published v => .record [("state", .str "published"), ("version", v.toJson)]

inductive State
  | draft
  | published

def State.ofText? : String → Option State
  | "draft" => some draft
  | "published" => some published
  | _ => none

structure Parts where
  state : Option State := none
  version : Option Json := none

namespace Parts

def step (p : Parts) (key : String) (j : Json) : Except Fault Parts :=
  match key with
  | "state" => return { p with state := ← Json.once p.state (Json.word State.ofText? j) }
  | "version" => return { p with version := ← Json.once p.version (.ok j) }
  | _ => .ok p

def finish (p : Parts) : Except Fault Publication := do
  match ← Json.need p.state, p.version with
  | .draft, none | .draft, some .null => return Publication.draft
  | .draft, some j => throw j.fault
  | .published, none => throw .shape
  | .published, some j => return Publication.published (← VersionNumber.ofJson j)

end Parts

/-- State and version in any order; as an array the state comes first and the version, null for a
draft, second. -/
def ofJson (j : Json) : Except Fault Publication := do
  (← Json.fields Parts.step {} ["state", "version"] 2 j).finish

end Publication

namespace Entity

def toJson (e : Entity) : Json := .record [
  ("id", e.id.toJson),
  ("entity_type", e.entityType.toJson),
  ("name", .str e.name),
  ("content", .str e.content),
  ("parent_id", .option EntityId.toJson e.parent),
  ("created_by", e.createdBy.toJson),
  ("updated_by", e.updatedBy.toJson),
  ("publication", e.publication.toJson),
  ("created_at", e.createdAt.toJson),
  ("updated_at", e.updatedAt.toJson),
  ("deleted_at", .option Time.toJson e.deletedAt)]

structure Parts where
  id : Option EntityId := none
  entityType : Option EntityType := none
  name : Option String := none
  content : Option String := none
  parent : Option (Option EntityId) := none
  createdBy : Option UserId := none
  updatedBy : Option UserId := none
  publication : Option Publication := none
  createdAt : Option Time := none
  updatedAt : Option Time := none
  deletedAt : Option (Option Time) := none

namespace Parts

def step (p : Parts) (key : String) (j : Json) : Except Fault Parts :=
  match key with
  | "id" => return { p with id := ← Json.once p.id (EntityId.ofJson j) }
  | "entity_type" => return { p with entityType := ← Json.once p.entityType (EntityType.ofJson j) }
  | "name" => return { p with name := ← Json.once p.name j.text }
  | "content" => return { p with content := ← Json.once p.content j.text }
  | "parent_id" => return { p with parent := ← Json.once p.parent (j.nullable EntityId.ofJson) }
  | "created_by" => return { p with createdBy := ← Json.once p.createdBy (UserId.ofJson j) }
  | "updated_by" => return { p with updatedBy := ← Json.once p.updatedBy (UserId.ofJson j) }
  | "publication" =>
    return { p with publication := ← Json.once p.publication (Publication.ofJson j) }
  | "created_at" => return { p with createdAt := ← Json.once p.createdAt (Time.ofJson j) }
  | "updated_at" => return { p with updatedAt := ← Json.once p.updatedAt (Time.ofJson j) }
  | "deleted_at" => return { p with deletedAt := ← Json.once p.deletedAt (j.nullable Time.ofJson) }
  | _ => .ok p

def finish (p : Parts) : Except Fault Entity := do
  return {
    id := ← Json.need p.id
    entityType := ← Json.need p.entityType
    name := ← Json.need p.name
    content := ← Json.need p.content
    parent := p.parent.join
    createdBy := ← Json.need p.createdBy
    updatedBy := ← Json.need p.updatedBy
    publication := ← Json.need p.publication
    createdAt := ← Json.need p.createdAt
    updatedAt := ← Json.need p.updatedAt
    deletedAt := p.deletedAt.join }

end Parts

def fieldNames : List String :=
  ["id", "entity_type", "name", "content", "parent_id", "created_by", "updated_by", "publication",
    "created_at", "updated_at", "deleted_at"]

def ofJson (j : Json) : Except Fault Entity := do
  (← Json.fields Parts.step {} fieldNames 11 j).finish

end Entity

namespace ListItem

def jsonFields (i : ListItem) : List (String × Json) := [
  ("id", i.id.toJson),
  ("entity_type", i.entityType.toJson),
  ("name", .str i.name),
  ("parent_id", .option EntityId.toJson i.parent)]

def toJson (i : ListItem) : Json := .record i.jsonFields

structure Parts where
  id : Option EntityId := none
  entityType : Option EntityType := none
  name : Option String := none
  parent : Option (Option EntityId) := none

namespace Parts

def step (p : Parts) (key : String) (j : Json) : Except Fault Parts :=
  match key with
  | "id" => return { p with id := ← Json.once p.id (EntityId.ofJson j) }
  | "entity_type" => return { p with entityType := ← Json.once p.entityType (EntityType.ofJson j) }
  | "name" => return { p with name := ← Json.once p.name j.text }
  | "parent_id" => return { p with parent := ← Json.once p.parent (j.nullable EntityId.ofJson) }
  | _ => .ok p

def finish (p : Parts) : Except Fault ListItem := do
  return {
    id := ← Json.need p.id
    entityType := ← Json.need p.entityType
    name := ← Json.need p.name
    parent := p.parent.join }

end Parts

def ofJson (j : Json) : Except Fault ListItem := do
  (← Json.fields Parts.step {} ["id", "entity_type", "name", "parent_id"] 4 j).finish

end ListItem

namespace HierarchyItem

def toJson (h : HierarchyItem) : Json := .record (h.item.jsonFields ++ [("depth", .int h.depth)])

end HierarchyItem

end KnowledgeTree
