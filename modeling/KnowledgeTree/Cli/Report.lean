import KnowledgeTree.Config
import KnowledgeTree.Text.Quoted
import KnowledgeTree.Wire.Tree

/-!
What commands report, as text for people and as JSON for programs.
-/

namespace KnowledgeTree.Cli

inductive Report
  | configuration (config : Config)
  | ready
  | initialized (database : String) (adminRole : Option String)
  | roleSaved (name : String) (admin : Bool)
  | granted (role : String) (entity : EntityId) (capability : Capability)
  | revoked (role : String) (entity : EntityId) (capability : Capability) (removed : Bool)
  | forest (role : String) (roots : List TreeNode)
  | created (id : EntityId) (entityType : EntityType) (draft : Bool)
  | history (id : EntityId) (versions : List Entity)

namespace Report

def underline (width : Nat) : String := String.ofList (List.replicate width '=')

def flagText (b : Bool) : String := if b then "true" else "false"

def orNote {α : Type} (note : String) (form : List α → List String) : List α → List String
  | [] => [note]
  | items => form items

mutual

def nodeLines (depth : Nat) : TreeNode → List String
  | .node item children =>
    (String.ofList (List.replicate (2 * depth) ' ') ++
      s!"[{item.entityType.text}] {item.name} ({item.id.text})") :: nodesLines (depth + 1) children

def nodesLines (depth : Nat) : List TreeNode → List String
  | [] => []
  | t :: ts => nodeLines depth t ++ nodesLines depth ts

end

def versionLine (e : Entity) : String :=
  let label := match e.publication.version? with
    | none => "draft"
    | some v => v.text
  s!"{Text.padLeft 6 label}  {e.updatedAt.plainText}  {e.name}  (by {e.updatedBy.text})"

def configurationLines (c : Config) : List String := [
  "Canopy Configuration",
  underline 20,
  s!"Database:        {Text.quote c.database}",
  s!"Listen:          {c.bindAddress}",
  s!"Request timeout: {c.server.requestTimeoutMs} ms",
  s!"Max depth:       {c.limits.maxDepth}",
  s!"Max name length: {c.limits.maxNameLength}",
  "",
  "Run `canopy --help` for the available commands."]

def lines : Report → List String
  | configuration c => configurationLines c
  | ready => []
  | initialized database adminRole =>
    s!"Initialized new database at {Text.quote database}" ::
      (adminRole.map fun role => s!"Administrator role: {role}").toList
  | roleSaved name admin => [s!"Role '{name}' saved (admin: {flagText admin})"]
  | granted role entity capability =>
    [s!"Granted {capability.text} on {entity.text} to '{role}'"]
  | revoked role entity capability true =>
    [s!"Revoked {capability.text} on {entity.text} from '{role}'"]
  | revoked role entity capability false =>
    [s!"No {capability.text} grant on {entity.text} for '{role}'"]
  | forest role roots =>
    [s!"Canopy Tree (role '{role}')", underline 21] ++
      orNote "(nothing visible)" (nodesLines 0) roots ++
      ["", s!"{TreeNode.sizeAll roots} entities"]
  | created id entityType _ => [s!"Created {entityType.text} {id.text}"]
  | history id versions =>
    [s!"History of {id.text}", underline (11 + id.text.length)] ++
      orNote "(unpublished draft)" (List.map versionLine) versions

def text (r : Report) : String := String.join (r.lines.map (· ++ "\n"))

def toJson : Report → Json
  | configuration c => c.toJson
  | ready => .null
  | initialized database adminRole =>
    .record [("database", .str database), ("admin_role", .option .str adminRole)]
  | roleSaved name admin => .record [("role", .str name), ("is_admin", .bool admin)]
  | granted role entity capability =>
    .record [("role", .str role), ("entity", entity.toJson), ("capability", capability.toJson),
      ("granted", .bool true)]
  | revoked role entity capability removed =>
    .record [("role", .str role), ("entity", entity.toJson), ("capability", capability.toJson),
      ("revoked", .bool removed)]
  | forest _ roots => .list (TreeNode.toJsons roots)
  | created id entityType draft =>
    .record [("id", id.toJson), ("entity_type", entityType.toJson), ("draft", .bool draft)]
  | history id versions =>
    .record [("id", id.toJson), ("versions", .list (versions.map Entity.toJson))]

end Report

end KnowledgeTree.Cli
