import KnowledgeTree.Validation

/-!
The commands, the arguments that a command line may have, and which of them each command takes.
-/

namespace KnowledgeTree.Cli

inductive Usage
  | unknownArgument
  | unknownCommand
  | missingArgument
  | missingValue
  | badValue
  | unwantedValue
  | repeatedArgument
  | help
  | version
deriving DecidableEq, Repr

inductive Form
  | flag
  | text
  | path
  | port
  | identifier
  | capability
deriving DecidableEq, Repr

inductive Argument
  | help
  | version
  | verbose
  | quiet
  | config
  | database
  | jsonMode
  | host
  | port
  | force
  | adminRole
  | name
  | admin
  | role
  | entity
  | capability
  | user
  | entityType
  | content
  | parent
  | draft
deriving DecidableEq, Repr

def port? (s : String) : Option Nat :=
  match Text.signed? 9223372036854775808 s.toList with
  | some n => if 0 ≤ n ∧ n < 65536 then some n.toNat else none
  | none => none

def capability? (s : String) : Option Capability := (Capability.parse s).toOption

namespace Form

def check (v : String) : Form → Except Usage Unit
  | flag | text => .ok ()
  | path => if v.isEmpty then .error .missingValue else .ok ()
  | port => if (port? v).isSome then .ok () else .error .badValue
  | identifier => if (EntityId.ofText? v).isSome then .ok () else .error .badValue
  | capability => if (capability? v).isSome then .ok () else .error .badValue

end Form

namespace Argument

def form : Argument → Form
  | config | database => .path
  | host | adminRole | name | role | entityType | content => .text
  | port => .port
  | entity | user | parent => .identifier
  | capability => .capability
  | help | version | verbose | quiet | jsonMode | force | admin | draft => .flag

end Argument

structure Switch where
  argument : Argument
  letter : Option Char
  word : String
deriving DecidableEq, Repr

inductive CommandName
  | server
  | init
  | role
  | grant
  | revoke
  | tree
  | create
  | history
deriving DecidableEq, Repr

namespace CommandName

def text : CommandName → String
  | server => "server"
  | init => "init"
  | role => "role"
  | grant => "grant"
  | revoke => "revoke"
  | tree => "tree"
  | create => "create"
  | history => "history"

def all : List CommandName := [server, init, role, grant, revoke, tree, create, history]

def ofText? (s : String) : Option CommandName := all.find? (·.text == s)

end CommandName

structure Level where
  switches : List Switch
  positionals : List Argument := []
  commands : List String := []
deriving DecidableEq, Repr

namespace Level

def common : List Switch := [
  ⟨.help, some 'h', "help"⟩,
  ⟨.verbose, some 'v', "verbose"⟩,
  ⟨.quiet, some 'q', "quiet"⟩,
  ⟨.config, some 'c', "config"⟩,
  ⟨.database, some 'D', "database"⟩,
  ⟨.jsonMode, none, "json-mode"⟩]

def helpWord : String := "help"

def root : Level where
  switches := ⟨.version, some 'V', "version"⟩ :: common
  commands := CommandName.all.map CommandName.text ++ [helpWord]

def roleSwitch : Switch := ⟨.role, some 'r', "role"⟩
def userSwitch : Switch := ⟨.user, some 'u', "user"⟩
def capabilitySwitch : Switch := ⟨.capability, some 'C', "capability"⟩

def ofCommand : CommandName → Level
  | .server => { switches := [⟨.host, some 'H', "host"⟩, ⟨.port, some 'p', "port"⟩] ++ common }
  | .init =>
    { switches := [⟨.force, some 'f', "force"⟩, ⟨.adminRole, none, "admin-role"⟩] ++ common }
  | .role => { switches := ⟨.admin, none, "admin"⟩ :: common, positionals := [.name] }
  | .grant | .revoke => { switches := capabilitySwitch :: common, positionals := [.role, .entity] }
  | .tree => { switches := [roleSwitch, userSwitch] ++ common }
  | .create => {
    switches := [
      ⟨.entityType, some 't', "entity-type"⟩,
      ⟨.name, some 'n', "name"⟩,
      ⟨.content, none, "content"⟩,
      ⟨.parent, some 'p', "parent"⟩,
      ⟨.draft, none, "draft"⟩,
      roleSwitch, userSwitch] ++ common }
  | .history => { switches := [roleSwitch, userSwitch] ++ common, positionals := [.entity] }

def ofLetter? (l : Level) (c : Char) : Option Argument :=
  (l.switches.find? (·.letter == some c)).map Switch.argument

def ofWord? (l : Level) (w : String) : Option Argument :=
  (l.switches.find? (·.word == w)).map Switch.argument

end Level

end KnowledgeTree.Cli
