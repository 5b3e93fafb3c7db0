import KnowledgeTree.Http.Uri
import KnowledgeTree.Json.Basic
import KnowledgeTree.Text.Blank

/-!
Requests and responses.
-/

namespace KnowledgeTree.Http

structure Request where
  method : String
  target : Target
  /-- Names in lower case, with their values. -/
  headers : List (String × String) := []
  body : String := ""
deriving Repr

inductive Content
  | none
  | text (s : String)
  | json (j : Json)
deriving Repr, Inhabited

structure Response where
  status : Nat
  content : Content := .none
  allowOrigin : Option String := none
  allowMethods : Option String := none
  allowHeaders : Option String := none
deriving Repr, Inhabited

def isHeaderChar (c : Char) : Bool := (' ' ≤ c && c != '\x7f') || c == '\t'

def isVisible (c : Char) : Bool := (' ' ≤ c && c ≤ '~') || c == '\t'

namespace Request

def header? (r : Request) (name : String) : Option String :=
  (r.headers.find? (·.1 == name)).map (·.2)

def text? (r : Request) (name : String) : Option String :=
  (r.header? name).filter (·.toList.all isVisible)

def trimmed? (r : Request) (name : String) : Option String :=
  ((r.text? name).map Text.trim).filter (! ·.isEmpty)

end Request

namespace Response

def json (status : Nat) (j : Json) : Response := { status, content := .json j }

def bare (status : Nat) : Response := { status }

end Response

end KnowledgeTree.Http
