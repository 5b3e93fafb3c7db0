import KnowledgeTree.Limits
import KnowledgeTree.Wire.Entity

/-!
The JSON forms of what clients send: limits, and the bodies that create and update an entity.
-/

namespace KnowledgeTree

open Json (Fault)

namespace Limits

def toJson (l : Limits) : Json := .record [
  ("max_depth", .int l.maxDepth),
  ("max_name_length", .int l.maxNameLength)]

structure Parts where
  maxDepth : Option Nat := none
  maxNameLength : Option Nat := none

def Parts.step (p : Parts) (key : String) (j : Json) : Except Fault Parts :=
  match key with
  | "max_depth" => return { p with maxDepth := ← Json.once p.maxDepth (j.natural 4294967296) }
  | "max_name_length" =>
    return { p with maxNameLength := ← Json.once p.maxNameLength (j.natural 18446744073709551616) }
  | _ => .error .shape

def Parts.finish (p : Parts) : Limits :=
  ⟨p.maxDepth.getD ({} : Limits).maxDepth, p.maxNameLength.getD ({} : Limits).maxNameLength⟩

def ofJson (j : Json) : Except Fault Limits := do
  return (← Json.fields Parts.step {} ["max_depth", "max_name_length"] 0 j).finish

end Limits

/-- A body that creates an entity; its type is a word still to be read. -/
structure CreateBody where
  entityType : String
  name : String
  content : String := ""
  parent : Option EntityId := none
  isDraft : Bool := false
deriving DecidableEq, Repr

namespace CreateBody

def toJson (b : CreateBody) : Json := .record [
  ("entity_type", .str b.entityType),
  ("name", .str b.name),
  ("content", .str b.content),
  ("parent_id", .option EntityId.toJson b.parent),
  ("is_draft", .bool b.isDraft)]

structure Parts where
  entityType : Option String := none
  name : Option String := none
  content : Option String := none
  parent : Option (Option EntityId) := none
  isDraft : Option Bool := none

def Parts.step (p : Parts) (key : String) (j : Json) : Except Fault Parts :=
  match key with
  | "entity_type" => return { p with entityType := ← Json.once p.entityType j.text }
  | "name" => return { p with name := ← Json.once p.name j.text }
  | "content" => return { p with content := ← Json.once p.content j.text }
  | "parent_id" => return { p with parent := ← Json.once p.parent (j.nullable EntityId.ofJson) }
  | "is_draft" => return { p with isDraft := ← Json.once p.isDraft j.flag }
  | _ => .ok p

def Parts.finish (p : Parts) : Except Fault CreateBody := do
  return {
    entityType := ← Json.need p.entityType
    name := ← Json.need p.name
    content := p.content.getD ""
    parent := p.parent.join
    isDraft := p.isDraft.getD false }

def ofJson (j : Json) : Except Fault CreateBody := do
  let names := ["entity_type", "name", "content", "parent_id", "is_draft"]
  (← Json.fields Parts.step {} names 2 j).finish

end CreateBody

structure UpdateBody where
  name : String
  content : String := ""
  parentChanged : Bool := false
  parent : Option EntityId := none
  isDraft : Bool := false
deriving DecidableEq, Repr

namespace UpdateBody

def toJson (b : UpdateBody) : Json := .record [
  ("name", .str b.name),
  ("content", .str b.content),
  ("parent_changed", .bool b.parentChanged),
  ("parent_id", .option EntityId.toJson b.parent),
  ("is_draft", .bool b.isDraft)]

structure Parts where
  name : Option String := none
  content : Option String := none
  parentChanged : Option Bool := none
  parent : Option (Option EntityId) := none
  isDraft : Option Bool := none

def Parts.step (p : Parts) (key : String) (j : Json) : Except Fault Parts :=
  match key with
  | "name" => return { p with name := ← Json.once p.name j.text }
  | "content" => return { p with content := ← Json.once p.content j.text }
  | "parent_changed" => return { p with parentChanged := ← Json.once p.parentChanged j.flag }
  | "parent_id" => return { p with parent := ← Json.once p.parent (j.nullable EntityId.ofJson) }
  | "is_draft" => return { p with isDraft := ← Json.once p.isDraft j.flag }
  | _ => .ok p

def Parts.finish (p : Parts) : Except Fault UpdateBody := do
  return {
    name := ← Json.need p.name
    content := p.content.getD ""
    parentChanged := p.parentChanged.getD false
    parent := p.parent.join
    isDraft := p.isDraft.getD false }

def ofJson (j : Json) : Except Fault UpdateBody := do
  let names := ["name", "content", "parent_changed", "parent_id", "is_draft"]
  (← Json.fields Parts.step {} names 1 j).finish

end UpdateBody

end KnowledgeTree
