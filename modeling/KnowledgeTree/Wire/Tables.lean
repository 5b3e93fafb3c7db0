import KnowledgeTree.Json.Printer
import KnowledgeTree.Store.Basic
import KnowledgeTree.Wire.Entity

/-!
The tables as a JSON text, the form in which a database file keeps them.
-/

namespace KnowledgeTree

open Json (Fault)

namespace Json

def need? (j : Json) (key : String) : Except Fault Json := need (j.get? key)

def rows {α : Type} (j : Json) (key : String) (decode : Json → Except Fault α) :
    Except Fault (List α) := do
  match ← j.need? key with
  | arr items true => items.mapM decode
  | j => throw j.fault

end Json

namespace Version

def toJson (v : Version) : Json := .record [
  ("entity_id", v.entity.toJson),
  ("version", v.number.toJson),
  ("entity_type", v.entityType.toJson),
  ("name", .str v.name),
  ("content", .str v.content),
  ("parent_id", .option EntityId.toJson v.parent),
  ("edited_by", v.editedBy.toJson),
  ("created_at", v.createdAt.toJson)]

def ofJson (j : Json) : Except Fault Version := do
  return {
    entity := ← EntityId.ofJson (← j.need? "entity_id")
    number := ← VersionNumber.ofJson (← j.need? "version")
    entityType := ← EntityType.ofJson (← j.need? "entity_type")
    name := ← (← j.need? "name").text
    content := ← (← j.need? "content").text
    parent := ← (← j.need? "parent_id").nullable EntityId.ofJson
    editedBy := ← UserId.ofJson (← j.need? "edited_by")
    createdAt := ← Time.ofJson (← j.need? "created_at") }

end Version

namespace Role

def toJson (r : Role) : Json := .record [("name", .str r.name), ("is_admin", .bool r.isAdmin)]

def ofJson (j : Json) : Except Fault Role := do
  return ⟨← (← j.need? "name").text, ← (← j.need? "is_admin").flag⟩

end Role

namespace Grant

def toJson (g : Grant) : Json := .record [
  ("role", .str g.role),
  ("entity_id", g.entity.toJson),
  ("capability", g.capability.toJson)]

def ofJson (j : Json) : Except Fault Grant := do
  return {
    role := ← (← j.need? "role").text
    entity := ← EntityId.ofJson (← j.need? "entity_id")
    capability := ← Capability.ofJson (← j.need? "capability") }

end Grant

namespace Store

def toJson (s : Store) : Json := .record [
  ("entities", .list (s.entities.map Entity.toJson)),
  ("entity_versions", .list (s.versions.map Version.toJson)),
  ("roles", .list (s.roles.map Role.toJson)),
  ("role_grants", .list (s.grants.map Grant.toJson))]

def ofJson (j : Json) : Except Fault Store := do
  let entities ← j.rows "entities" Entity.ofJson
  let versions ← j.rows "entity_versions" Version.ofJson
  let roles ← j.rows "roles" Role.ofJson
  let grants ← j.rows "role_grants" Grant.ofJson
  if nodup : (entities.map Entity.id).Nodup then
    return { entities, versions, roles, grants, nodup }
  else throw .shape

def toText (s : Store) : String := s.toJson.pretty ++ "\n"

def ofText? (s : String) : Option Store := ((Json.Document.ofText s).decode ofJson).toOption

end Store

end KnowledgeTree
