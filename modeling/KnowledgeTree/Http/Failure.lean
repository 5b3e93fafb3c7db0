import KnowledgeTree.Http.Message
import KnowledgeTree.Wire.Error

/-!
Errors on their way to a client. The causes behind internal errors stay inside.
-/

namespace KnowledgeTree.Http

def statusOf (e : Error) : Nat :=
  match e with
  | .validationFailed .. => 400
  | .entityNotFound _ => 404
  | .forbidden .. | .adminRequired _ => 403
  | .unauthorized => 401
  | .cancelled => 503
  | e => if e.isStructural then 422 else 500

structure Failure where
  status : Nat
  kind : String
  message : String
  details : Json
deriving Repr

namespace Failure

def ofError (e : Error) : Failure :=
  if statusOf e = 500 then ⟨500, e.kind, "Internal server error", .null⟩
  else ⟨statusOf e, e.kind, e.message, e.toJson.without "kind"⟩

def invalidParameter (field value : String) : Failure :=
  ofError (.validationFailed field (.unknownValue value))

def internal (message : String) : Failure := ⟨500, "internal", message, .null⟩

def body (f : Failure) : Json := .record [("error", .record [
  ("kind", .str f.kind),
  ("message", .str f.message),
  ("details", f.details)])]

def response (f : Failure) : Response := .json f.status f.body

end Failure

end KnowledgeTree.Http
