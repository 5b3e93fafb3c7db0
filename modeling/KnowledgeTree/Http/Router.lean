import KnowledgeTree.Http.ApiKey
import KnowledgeTree.Http.Cors
import KnowledgeTree.Http.Endpoint

/-!
From a request to its response: browsers are answered first, then the key is checked, and then the
request goes to its endpoint. Between the first two, requests beyond the rate are turned away.
-/

namespace KnowledgeTree.Http

def apiKeyOfSetting (value : Option String) : Option String := value.filter (! ·.isEmpty)

def rateLimitOfSetting (value : Option String) : Nat :=
  (value.bind fun s => Text.unsigned? 4294967296 (Text.trim s).toList).getD 100

structure Setup where
  limits : Limits := {}
  apiKey : Option String := none
  cors : Cors := .ofSetting none
  rateLimit : Nat := rateLimitOfSetting none
  context : Context := .background
deriving Repr

def route (setup : Setup) (r : Request) (sys : System) : Response × System :=
  match Endpoint.find r.method r.target.path with
  | .error status => (.bare status, sys)
  | .ok endpoint =>
    match endpoint.action r with
    | .error refusal => (refusal, sys)
    | .ok action => action.perform setup.limits setup.context sys

def refuseKey : Response := { status := 401, content := .text "Unauthorized" }

def refuseRate : Response := { status := 429, content := .text "Too Many Requests" }

def withoutContent (r : Request) (response : Response) : Response :=
  if r.method = "HEAD" && Endpoint.isKnown r.target.path then { response with content := .none }
  else response

def handle (setup : Setup) (r : Request) (sys : System) : Response × System :=
  if r.method = "OPTIONS" then (setup.cors.preflight r, sys)
  else
    let (response, sys) :=
      if admits setup.apiKey r then route setup r sys else (refuseKey, sys)
    ({ withoutContent r response with allowOrigin := setup.cors.allowOrigin r }, sys)

/-- The router behind its limiter. When the requests of a second are used up depends on the time, and
is not said here. -/
def serve (setup : Setup) (isSpent : Bool) (r : Request) (sys : System) : Response × System :=
  if r.method ≠ "OPTIONS" ∧ 0 < setup.rateLimit ∧ isSpent = true then
    ({ withoutContent r refuseRate with allowOrigin := setup.cors.allowOrigin r }, sys)
  else handle setup r sys

end KnowledgeTree.Http
