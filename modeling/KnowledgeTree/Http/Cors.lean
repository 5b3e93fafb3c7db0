import KnowledgeTree.Http.Message

/-!
Which origins may read responses in a browser.
-/

namespace KnowledgeTree.Http

inductive Cors
  | permissive
  | origins (allowed : List String)
deriving DecidableEq, Repr

namespace Cors

def localOrigins : List String := [
  "http://localhost:3000",
  "http://localhost:8080",
  "http://127.0.0.1:3000",
  "http://127.0.0.1:8080"]

/-- Reads a list with commas between the origins. Origins that cannot be header values are skipped;
without any other, local origins are allowed. -/
def ofSetting : Option String → Cors
  | none => origins localOrigins
  | some "*" => permissive
  | some list =>
    let allowed := ((list.splitOn ",").map Text.trim).filter (·.toList.all isHeaderChar)
    origins (if allowed.isEmpty then localOrigins else allowed)

def allowedMethods : String := "GET,POST,PUT,DELETE,OPTIONS"

def allowedHeaders : String := "content-type,authorization,x-user-id,x-role"

def allowOrigin (cors : Cors) (r : Request) : Option String :=
  match cors with
  | permissive => some "*"
  | origins allowed => (r.header? "origin").filter allowed.contains

def preflight (cors : Cors) (r : Request) : Response where
  status := 200
  allowOrigin := cors.allowOrigin r
  allowMethods := some (if cors = permissive then "*" else allowedMethods)
  allowHeaders := some (if cors = permissive then "*" else allowedHeaders)

end Cors

end KnowledgeTree.Http
