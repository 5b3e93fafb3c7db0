import KnowledgeTree.Access.Service
import KnowledgeTree.Http.Failure
import KnowledgeTree.Wire.Request
import KnowledgeTree.Wire.Tree

/-!
What a request can ask for, with all arguments read.
-/

namespace KnowledgeTree

def CreateBody.input (b : CreateBody) (entityType : EntityType) : CreateInput :=
  ⟨entityType, b.name, b.content, b.parent, b.isDraft⟩

def UpdateBody.input (b : UpdateBody) : UpdateInput :=
  ⟨b.name, b.content, b.parentChanged, b.parent, b.isDraft⟩

namespace Http

inductive Action
  | health
  | tree (caller : Caller)
  | permittedIds (caller : Caller) (capability : Capability)
  | create (caller : Caller) (body : CreateBody)
  | update (caller : Caller) (id : EntityId) (body : UpdateBody)
  | delete (caller : Caller) (id : EntityId)
  | get (caller : Caller) (id : EntityId)
  | item (caller : Caller) (id : EntityId)
  | versions (caller : Caller) (id : EntityId)
  | version (caller : Caller) (id : EntityId) (number : Int)
deriving Repr

def interfaceVersion : String := "0.4.2"

def respond {α : Type} (status : Nat) (form : α → Json) : Except Error α → Response
  | .ok a => .json status (form a)
  | .error e => (Failure.ofError e).response

def treeForm (roots : List TreeNode) : Json := .record [
  ("total", .int (TreeNode.sizeAll roots)),
  ("roots", .list (TreeNode.toJsons roots))]

def idsForm (ids : List EntityId) : Json := .list (ids.map EntityId.toJson)

namespace Action

def change {α : Type} (status : Nat) (form : α → Json) (result : Except Error α × System) :
    Response × System :=
  (respond status form result.1, result.2)

def perform (limits : Limits) (ctx : Context) (a : Action) (sys : System) : Response × System :=
  let s := sys.store
  match a with
  | health =>
    (.json 200 (.record [("status", .str "ok"), ("version", .str interfaceVersion)]), sys)
  | tree caller => (respond 200 treeForm (Service.getTree limits ctx caller s), sys)
  | permittedIds caller capability =>
    let form ids := Json.record [("capability", capability.toJson), ("ids", idsForm ids)]
    (respond 200 form (Service.getPermittedIds limits ctx caller capability s), sys)
  | create caller body =>
    match EntityType.parse body.entityType with
    | .error e => ((Failure.ofError e).response, sys)
    | .ok entityType =>
      change 201 (fun id => .record [("id", id.toJson)])
        (Service.create limits ctx caller (body.input entityType) sys)
  | update caller id body =>
    let form publication := Json.record [("id", id.toJson), ("publication", publication.toJson)]
    change 200 form (Service.update limits ctx caller id body.input sys)
  | delete caller id =>
    change 200 (fun ids => .record [("deleted", idsForm ids)])
      (Service.delete limits ctx caller id sys)
  | get caller id => (respond 200 Entity.toJson (Service.get limits ctx caller id s), sys)
  | item caller id => (respond 200 ListItem.toJson (Service.getListItem limits ctx caller id s), sys)
  | versions caller id =>
    let form versions :=
      Json.record [("id", id.toJson), ("versions", .list (versions.map Entity.toJson))]
    (respond 200 form (Service.getVersionsList limits ctx caller id s), sys)
  | version caller id number =>
    (respond 200 Entity.toJson (Service.getVersion limits ctx caller id number s), sys)

end Action

end Http

end KnowledgeTree
