import KnowledgeTree.Access.Service
import KnowledgeTree.Cli.Scan

/-!
Commands with their arguments, and the command lines that ask for them.
-/

namespace KnowledgeTree.Cli

inductive Command
  | server (host : Option String) (port : Option Nat)
  | init (force : Bool) (adminRole : Option String)
  | role (name : String) (admin : Bool)
  | grant (role : String) (entity : EntityId) (capability : Capability)
  | revoke (role : String) (entity : EntityId) (capability : Capability)
  | tree (caller : Caller)
  | create (caller : Caller) (entityType name content : String) (parent : Option EntityId)
    (draft : Bool)
  | history (caller : Caller) (entity : EntityId)
deriving DecidableEq, Repr

namespace Values

def has (vs : Values) (a : Argument) : Bool := vs.any (·.1 == a)

def get? (vs : Values) (a : Argument) : Option String := (vs.find? (·.1 == a)).map (·.2)

def need (vs : Values) (a : Argument) : Except Usage String :=
  match vs.get? a with
  | some v => .ok v
  | none => .error .missingArgument

def read {α : Type} (vs : Values) (a : Argument) (read : String → Option α) :
    Except Usage (Option α) :=
  match vs.get? a with
  | none => .ok none
  | some v =>
    match read v with
    | some x => .ok (some x)
    | none => .error .badValue

def needEntity (vs : Values) : Except Usage EntityId := do
  match ← vs.read .entity EntityId.ofText? with
  | some id => return id
  | none => throw .missingArgument

end Values

def operator : UserId := ⟨Uuid.ofNat 1⟩

namespace Values

def capability (vs : Values) : Except Usage Capability := do
  return (← vs.read .capability capability?).getD .read

def caller (vs : Values) : Except Usage Caller := do
  let role ← vs.need .role
  return ⟨(← vs.read .user UserId.ofText?).getD operator, role⟩

end Values

namespace Command

def ofValues (vs : Values) : CommandName → Except Usage Command
  | .server => do return server (vs.get? .host) (← vs.read .port port?)
  | .init => return init (vs.has .force) (vs.get? .adminRole)
  | .role => do return role (← vs.need .name) (vs.has .admin)
  | .grant => do return grant (← vs.need .role) (← vs.needEntity) (← vs.capability)
  | .revoke => do return revoke (← vs.need .role) (← vs.needEntity) (← vs.capability)
  | .tree => do return tree (← vs.caller)
  | .create => do
    let entityType ← vs.need .entityType
    let name ← vs.need .name
    let parent ← vs.read .parent EntityId.ofText?
    return create (← vs.caller) entityType name ((vs.get? .content).getD "") parent (vs.has .draft)
  | .history => do return history (← vs.caller) (← vs.needEntity)

def ofWords (name : CommandName) (words : List String) : Except Usage (Command × Values) := do
  let (s, _) ← (Level.ofCommand name).scan words
  let vs := (← s.settle).taken
  return (← ofValues vs name, vs)

end Command

structure Invocation where
  config : Option String := none
  database : Option String := none
  asJson : Bool := false
  command : Option Command := none
deriving DecidableEq, Repr

namespace Invocation

/-- An argument given after the name of the command has precedence over one given before it. -/
def ofValues (before after : Values) (command : Option Command) : Invocation where
  config := (after.get? .config).or (before.get? .config)
  database := (after.get? .database).or (before.get? .database)
  asJson := before.has .jsonMode || after.has .jsonMode
  command := command

def helpOn : List String → Usage
  | [] => .help
  | [w] => if Level.root.commands.contains w then .help else .unknownCommand
  | _ => .unknownCommand

/-- The argument in front of the name of a command is taken after the command has been read. -/
def ofWords (words : List String) : Except Usage Invocation := do
  match ← Level.root.scan words with
  | (s, none) => return ofValues (← s.settle).taken [] none
  | (s, some (w, rest)) =>
    match CommandName.ofText? w with
    | none => throw (helpOn rest)
    | some name => do
      let (command, after) ← Command.ofWords name rest
      return ofValues (← s.settle).taken after (some command)

end Invocation

end KnowledgeTree.Cli
