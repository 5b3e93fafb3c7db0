import KnowledgeTree.Error
import KnowledgeTree.Wire.Entity

/-!
The JSON form of errors: the fields of the cause, under a tag made of its name.
-/

namespace KnowledgeTree

def snakeCase (name : String) : String :=
  String.ofList <| match name.toList with
    | [] => []
    | c :: cs => c.toLower :: cs.flatMap fun c => if c.isUpper then ['_', c.toLower] else [c.toLower]

def Rule.toJson (r : Rule) : Json :=
  .record <| ("rule", .str (snakeCase r.name)) :: match r with
    | .required | .nilIdentifier => []
    | .tooLong max => [("max", .int max)]
    | .unknownValue value => [("value", .str value)]
    | .invalidVersion value => [("value", .int value)]

namespace Error

def details : Error → List (String × Json)
  | validationFailed field rule => [("field", .str field), ("rule", rule.toJson)]
  | entityNotFound id | parentNotFound id | cannotDraftEntityWithChildren id => [("id", id.toJson)]
  | parentRequired t => [("entity_type", t.toJson)]
  | incompatibleParentType parent child =>
    [("parent_type", parent.toJson), ("child_type", child.toJson)]
  | parentCycle entity parent => [("entity", entity.toJson), ("parent", parent.toJson)]
  | maxHierarchyDepthExceeded maxDepth => [("max_depth", .int maxDepth)]
  | forbidden capability entity => [("capability", capability.toJson), ("entity", entity.toJson)]
  | adminRequired capability => [("capability", capability.toJson)]
  | unauthorized | cancelled => []
  | store operation message => [("operation", .str operation), ("message", .str message)]
  | idGeneration message | config message => [("message", .str message)]

def toJson (e : Error) : Json := .record (("kind", .str (snakeCase e.name)) :: e.details)

end Error

end KnowledgeTree
