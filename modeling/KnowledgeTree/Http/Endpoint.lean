import KnowledgeTree.Http.Action
import KnowledgeTree.Http.MediaType

/-!
Endpoints, by path and method, and how each reads its request: first the caller, then what the path
holds, then the query or the body.
-/

namespace KnowledgeTree.Http

inductive Endpoint
  | health
  | tree
  | permittedIds
  | create
  | get (id : String)
  | update (id : String)
  | delete (id : String)
  | item (id : String)
  | versions (id : String)
  | version (id number : String)
deriving DecidableEq, Repr

namespace Endpoint

/-- The endpoints of a path, each with its method. What an endpoint takes from the end of a path is
not empty. -/
def atPath (path : String) : List (String × Endpoint) :=
  match path.splitOn "/" with
  | ["", "health"] => [("GET", health)]
  | ["", "tree"] => [("GET", tree)]
  | ["", "permitted-ids"] => [("GET", permittedIds)]
  | ["", "entities"] => [("POST", create)]
  | ["", "entities", id] =>
    if id.isEmpty then [] else [("GET", get id), ("PUT", update id), ("DELETE", delete id)]
  | ["", "entities", id, "item"] => [("GET", item id)]
  | ["", "entities", id, "versions"] => [("GET", versions id)]
  | ["", "entities", id, "versions", number] =>
    if number.isEmpty then [] else [("GET", version id number)]
  | _ => []

def isKnown (path : String) : Bool := !(atPath path).isEmpty

def find (method path : String) : Except Nat Endpoint :=
  let method := if method = "HEAD" then "GET" else method
  match atPath path with
  | [] => .error 404
  | endpoints =>
    match endpoints.find? (·.1 == method) with
    | some (_, endpoint) => .ok endpoint
    | none => .error 405

end Endpoint

namespace Request

def caller (r : Request) : Except Response Caller :=
  let user := ((r.trimmed? "x-user-id").bind UserId.ofText?).filter (! ·.isNil)
  match user, r.trimmed? "x-role" with
  | some user, some role => .ok ⟨user, role⟩
  | _, _ => .error (Failure.ofError .unauthorized).response

def capability (r : Request) : Except Response Capability :=
  let values := (queryPairs (r.target.query.getD "")).filter (·.1 == "capability")
  match values with
  | [] => .ok .read
  | [(_, value)] => (Capability.parse value).mapError fun e => (Failure.ofError e).response
  | _ => .error (.bare 400)

def maxBody : Nat := 2 * 1024 * 1024

def jsonBody {α : Type} (r : Request) (decode : Json → Except Json.Fault α) : Except Response α :=
  if !(r.text? "content-type").any isJsonType then .error (.bare 415)
  else if maxBody < r.body.utf8ByteSize then .error (.bare 413)
  else match (Json.Document.ofText r.body).decode decode with
    | .ok a => .ok a
    | .error .torn => .error (.bare 400)
    | .error .shape => .error (.bare 422)

end Request

def segment (raw : String) : Except Response String :=
  match decodeSegment? raw with
  | some s => .ok s
  | none => .error (.bare 400)

def entityId (s : String) : Except Response EntityId :=
  match EntityId.ofText? s with
  | some id => .ok id
  | none => .error (Failure.invalidParameter "id" s).response

def versionNumber (s : String) : Except Response Int :=
  match Text.signed? 9223372036854775808 (Text.trim s).toList with
  | some n => .ok n
  | none => .error (Failure.invalidParameter "version" s).response

def Endpoint.action (r : Request) : Endpoint → Except Response Action
  | health => .ok .health
  | tree => return .tree (← r.caller)
  | permittedIds => return .permittedIds (← r.caller) (← r.capability)
  | create => return .create (← r.caller) (← r.jsonBody CreateBody.ofJson)
  | get id => return .get (← r.caller) (← entityId (← segment id))
  | update id => do
    let caller ← r.caller
    let id ← segment id
    let body ← r.jsonBody UpdateBody.ofJson
    return .update caller (← entityId id) body
  | delete id => return .delete (← r.caller) (← entityId (← segment id))
  | item id => return .item (← r.caller) (← entityId (← segment id))
  | versions id => return .versions (← r.caller) (← entityId (← segment id))
  | version id number => do
    let caller ← r.caller
    let id ← segment id
    let number ← segment number
    return .version caller (← entityId id) (← versionNumber number)

end KnowledgeTree.Http
