import KnowledgeTree.Toml.Reader
import KnowledgeTree.Wire.Request

/-!
The configuration of the program: limits, server and storage.
-/

namespace KnowledgeTree

structure Config.Server where
  host : String := "127.0.0.1"
  port : Nat := 8080
  requestTimeoutMs : Nat := 5000
deriving DecidableEq, Repr, Inhabited

structure Config where
  limits : Limits := {}
  server : Config.Server := {}
  database : String := "canopy.db"
deriving DecidableEq, Repr, Inhabited

namespace Config

def natural? (bound : Nat) : Toml → Option Nat
  | .int n => if 0 ≤ n ∧ n < bound then some n.toNat else none
  | _ => none

def text? : Toml → Option String
  | .str s => some s
  | _ => none

/-- A record as a table, or as an array of its fields in order. Fields that are left out keep their
defaults. -/
def record? {σ : Type} (step : String → Toml → σ → Option σ) (names : List String) (default : σ) :
    Toml → Option σ
  | .table _ fields => fields.foldlM (fun acc (key, value) => step key value acc) default
  | .arr items => (names.zip items).foldlM (fun acc (key, value) => step key value acc) default
  | _ => none

def limitsStep (key : String) (value : Toml) (l : Limits) : Option Limits :=
  match key with
  | "max_depth" => return { l with maxDepth := ← natural? 4294967296 value }
  | "max_name_length" => return { l with maxNameLength := ← natural? 18446744073709551616 value }
  | _ => none

def serverStep (key : String) (value : Toml) (s : Server) : Option Server :=
  match key with
  | "host" => return { s with host := ← text? value }
  | "port" => return { s with port := ← natural? 65536 value }
  | "request_timeout_ms" => return { s with requestTimeoutMs := ← natural? 18446744073709551616 value }
  | _ => none

def storageStep (key : String) (value : Toml) (_ : String) : Option String :=
  match key with
  | "database" => text? value
  | _ => none

def step (c : Config) (key : String) (value : Toml) : Option Config :=
  match key with
  | "hierarchy" =>
    return { c with limits := ← record? limitsStep ["max_depth", "max_name_length"] {} value }
  | "server" =>
    return { c with
      server := ← record? serverStep ["host", "port", "request_timeout_ms"] {} value }
  | "storage" =>
    return { c with
      database := ← record? storageStep ["database"] ({} : Config).database value }
  | _ => none

def ofToml? (fields : Toml.Fields) : Option Config :=
  fields.foldlM (fun c (key, value) => c.step key value) {}

def validate (c : Config) : Except Error Unit := do
  c.limits.validate
  if (Text.trim c.server.host).isEmpty then throw (.config "server.host must not be empty")
  if c.server.requestTimeoutMs = 0 then
    throw (.config "server.request_timeout_ms must be greater than 0")
  if c.database.isEmpty then throw (.config "storage.database must not be empty")

def malformed : Error := .config "Invalid configuration"

def ofText (s : String) : Except Error Config := do
  match (Toml.ofText? s).bind ofToml? with
  | none => throw malformed
  | some c =>
    c.validate
    return c

def bindAddress (c : Config) : String := s!"{c.server.host}:{c.server.port}"

def toJson (c : Config) : Json := .record [
  ("hierarchy", c.limits.toJson),
  ("server", .record [
    ("host", .str c.server.host),
    ("port", .int c.server.port),
    ("request_timeout_ms", .int c.server.requestTimeoutMs)]),
  ("storage", .record [("database", .str c.database)])]

end Config

end KnowledgeTree
